import TaggedWire.Config.Document
import TaggedWire.FixedBuffer
import TaggedWire.Json.Tagged
import TaggedWire.Message.Event
import TaggedWire.Message.Rebuild
import TaggedWire.Schema.Document
import TaggedWire.Proofs.RoundTrip
import TaggedWire.Proofs.Streaming
import TaggedWire.Proofs.Corruption
import TaggedWire.Proofs.Parity
import TaggedWire.Proofs.DoubleError
import TaggedWire.Proofs.Tampering
import TaggedWire.Proofs.Confusion
import TaggedWire.Proofs.Rebuilding
import TaggedWire.Proofs.Bounded
import TaggedWire.Proofs.Atomicity
import TaggedWire.Proofs.Layout
import TaggedWire.Proofs.ReadBack
import TaggedWire.Proofs.Stability
import TaggedWire.Proofs.LastWrite
import TaggedWire.Proofs.Forms
import TaggedWire.Proofs.Inverse
import TaggedWire.Proofs.Defects
import TaggedWire.Proofs.Elementwise
import TaggedWire.Proofs.Sealing
import TaggedWire.Proofs.Precedence
import TaggedWire.Proofs.TypeText
import TaggedWire.Proofs.Sizes
import TaggedWire.Proofs.Loading
import TaggedWire.Proofs.Overwriting
import TaggedWire.Proofs.Extension
import TaggedWire.Proofs.Position
import TaggedWire.Proofs.Getters
import TaggedWire.Proofs.PlainDocument
import TaggedWire.Proofs.Recall
import TaggedWire.Proofs.ConfigText
import TaggedWire.Proofs.Shifts
