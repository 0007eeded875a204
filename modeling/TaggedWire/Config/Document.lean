import TaggedWire.Config
import TaggedWire.Toml.Plain

/-!
Configurations as TOML documents. Every key is optional and unknown keys are ignored. Main
definitions: `Config.loadWith` reads a text and judges it, `Config.renderWith` writes one, in any
format; `load` and `render` are the same in the format of this library.
-/
namespace TaggedWire

namespace DecodePolicy

/-- A flag that may be absent. -/
def flag? (default : Bool) : Option Toml.Item → Option Bool
  | none => some default
  | some (.bool b) => some b
  | some _ => none

def ofEntries? (es : Toml.Entries) : Option DecodePolicy := do
  let verifyChecksum ← flag? true (es.get? "verify_checksum")
  let allowTrailingBytes ← flag? false (es.get? "allow_trailing_bytes")
  return { verifyChecksum, allowTrailingBytes }

/-- A policy is a table, or an array with the two flags in order. A date counts as a table without
any of the keys. -/
def ofItem? : Toml.Item → Option DecodePolicy
  | .table _ es => ofEntries? es
  | .inline es => ofEntries? es
  | .array items => do
    let verifyChecksum ← flag? true items[0]?
    let allowTrailingBytes ← flag? false items[1]?
    return { verifyChecksum, allowTrailingBytes }
  | .date => some {}
  | _ => none

def pairs (p : DecodePolicy) : Toml.Pairs :=
  [("verify_checksum", .bool p.verifyChecksum),
    ("allow_trailing_bytes", .bool p.allowTrailingBytes)]

end DecodePolicy

namespace Config

def limit? : Option Toml.Item → Option (Option UInt64)
  | none => some none
  | some (.integer n) => if 0 ≤ n then some (some (UInt64.ofNat n.toNat)) else none
  | some _ => none

def ofEntries? (es : Toml.Entries) : Option Config := do
  let maxMessageSize ← limit? (es.get? "max_message_size")
  let decode ← match es.get? "decode" with
    | none => some {}
    | some item => DecodePolicy.ofItem? item
  return { maxMessageSize, decode }

/-- Reads a configuration and refuses one that no message meets. -/
def loadWith (f : Toml.Format) (text : String) : Except WireError Config :=
  match (f.read? text).bind ofEntries? with
  | none => .error (.config .unreadable)
  | some c => c.validate.map (fun _ => c)

def limitPairs : Option UInt64 → Toml.Pairs
  | none => []
  | some m => [("max_message_size", .number m.toNat)]

/-- What the document of a configuration says; an absent limit is left out. -/
def document (c : Config) : Toml.Plain where
  root := limitPairs c.maxMessageSize
  tables := [("decode", c.decode.pairs)]
  proper := by
    have hpolicy : Toml.Proper ["decode"] := .cons (by decide) (by decide) .nil
    have hlimit : Toml.Proper ["max_message_size", "decode"] :=
      .cons (by decide) (by decide) hpolicy
    cases c.maxMessageSize with
    | none => exact hpolicy
    | some m => exact hlimit
  tables_proper := by
    have hflags : Toml.Proper ["verify_checksum", "allow_trailing_bytes"] :=
      .cons (by decide) (by decide) (.cons (by decide) (by decide) .nil)
    intro t ht
    obtain rfl := List.mem_singleton.mp ht
    exact hflags

/-- The text of a configuration. A document without one has a limit that is too large for it. -/
def renderWith (f : Toml.Format) (c : Config) : Except WireError String :=
  match f.write? c.document with
  | none => .error (.config .limitOutOfRange)
  | some text => .ok text

def load (text : String) : Except WireError Config :=
  loadWith Toml.format text

def render (c : Config) : Except WireError String :=
  renderWith Toml.format c

end Config

end TaggedWire
