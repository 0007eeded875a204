import TaggedWire.Schema.Basic
import TaggedWire.Yaml.Document
import TaggedWire.Yaml.Node.Display

/-!
Schemas as YAML documents. A document says the version, whether messages carry a checksum, and the
fields with their types in order. The version is judged first, then the content. How a node looks in
the report of a fault is left open.
-/
namespace TaggedWire

/-- The parts of a schema document, each of which may be missing. -/
structure SchemaDocument where
  version : Option Yaml.Node := none
  appendChecksum : Option Yaml.Node := none
  content : Option Yaml.Node := none

namespace SchemaDocument

/-- The largest version of a schema. -/
def maxVersion : Nat := 4294967295

/-- The version is an integer of 32 bits. -/
def readVersion : Option Yaml.Node → Except VersionFault UInt32
  | none | some .null => .error .missing
  | some (.number (.natural n)) => if n ≤ maxVersion then .ok n.toUInt32 else .error .tooLarge
  | some (.number _) => .error .notNatural
  | some _ => .error .notInteger

/-- Messages carry a checksum only if the document says `true`. -/
def readChecksum : Option Yaml.Node → Bool
  | some (.bool b) => b
  | _ => false

/-- One field from its name and its type, which both have to be text. -/
def readField (display : Yaml.Node → String) (message : String) (key type : Yaml.Node) :
    Except SchemaError Field :=
  match key.asText? with
  | none => .error (.malformed message (.nameNotText (display key)))
  | some name =>
    match type.asText? with
    | none => .error (.unsupportedType name (display type))
    | some typeText => Field.parse name typeText

/-- The fields of the content, in order; there is at least one. -/
def readContent (display : Yaml.Node → String) (message : String) :
    Option Yaml.Node → Except SchemaError (List Field)
  | none | some .null | some (.mapping []) => .error (.emptyMessage message)
  | some (.mapping entries) => entries.mapM (fun e => readField display message e.1 e.2)
  | some _ => .error (.malformed message .notMapping)

/-- The schema that the document describes. -/
def toSchema (d : SchemaDocument) (display : Yaml.Node → String) (message : String) :
    Except SchemaError Schema := do
  let version ← (readVersion d.version).mapError (.invalidVersion message)
  let fields ← readContent display message d.content
  Schema.ofFields message version fields (readChecksum d.appendChecksum)

/-- The parts of a text, if it is YAML with a mapping outermost. Other entries are passed over. -/
def parse? (text : String) : Option SchemaDocument := do
  let entries ← (← Yaml.Document.parse? text).entries? ["version", "append_checksum", "content"]
  return {
    version := entries.lookup "version"
    appendChecksum := entries.lookup "append_checksum"
    content := entries.lookup "content" }

end SchemaDocument

/-- The schema of a message from the text of its document. -/
def Schema.load (message text : String) : Except SchemaError Schema :=
  match SchemaDocument.parse? text with
  | none => .error (.unreadable message)
  | some d => d.toSchema Yaml.Node.display message

end TaggedWire
