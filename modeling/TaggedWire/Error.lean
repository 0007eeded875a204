import TaggedWire.Tag

/-!
Everything that can go wrong between bytes and values, as causes. The wording is in one place,
`WireError.message`; guesses at the reason are computed from the cause and not stored in it.
-/
namespace TaggedWire

/-- The largest element count that a header can carry. -/
def maxElements : Nat := 4294967295

/-- Sizes and positions are reported in 64 bits and stop at the largest one. -/
def saturate (n : Nat) : Nat :=
  min n 18446744073709551615

/-- What is wrong with the version of a schema document. -/
inductive VersionFault where
  | missing
  | notNatural
  | tooLarge
  | notInteger
  deriving DecidableEq

def VersionFault.message : VersionFault → String
  | missing => "no version specified"
  | notNatural => "version is not a non-negative integer"
  | tooLarge => "version does not fit in 32 bits"
  | notInteger => "version is not an integer"

/-- What is wrong with the content of a schema document. -/
inductive ContentFault where
  | notMapping
  | nameNotText (shown : String)
  deriving DecidableEq

def ContentFault.message : ContentFault → String
  | notMapping => "content must be a mapping of field name to type"
  | nameNotText shown => s!"field name {shown} is not a string"

/-- Causes that lie in a schema, before any byte is looked at. -/
inductive SchemaError where
  | invalidFieldName (name : String)
  | unsupportedType (field typeName : String)
  | invalidRepeatCount (field count : String)
  | duplicateField (message name : String)
  | emptyMessage (name : String)
  | tooManyElements (name : String) (count : Nat)
  | invalidVersion (name : String) (fault : VersionFault)
  | malformed (name : String) (fault : ContentFault)
  | unreadable (name : String)
  deriving DecidableEq

namespace SchemaError

def message : SchemaError → String
  | invalidFieldName name =>
    s!"Invalid field name '{name}': must start with a letter and contain only ASCII letters, " ++
      "digits or '_'"
  | unsupportedType field typeName =>
    s!"Unsupported type '{typeName}' for field '{field}': supported types are bool, uint8, " ++
      "uint16, uint32, uint64, float32, float64 and kind[N]"
  | invalidRepeatCount field count =>
    s!"Invalid repeat count '{count}' for field '{field}': repeated fields need between 1 and " ++
      s!"{maxElements} elements"
  | duplicateField message name => s!"Duplicate field '{name}' in message '{message}'"
  | emptyMessage name => s!"Message '{name}' has no content fields"
  | tooManyElements name count =>
    s!"Message '{name}' has {count} elements, above the array32 limit of {maxElements}"
  | invalidVersion name fault => s!"Invalid version for message '{name}': {fault.message}"
  | malformed name fault => s!"Malformed schema for message '{name}': {fault.message}"
  | unreadable name => s!"Failed to parse schema for message '{name}'"

end SchemaError

/-- What is wrong with a configuration. -/
inductive ConfigFault where
  | zeroLimit
  | limitOutOfRange
  | unreadable
  deriving DecidableEq

def ConfigFault.message : ConfigFault → String
  | zeroLimit => "max_message_size must be at least 1 byte"
  | limitOutOfRange => "out-of-range value for u64 type"
  | unreadable => "the text is not a configuration"

/-- Causes met while encoding or decoding. Every `context` names the item that was at work. -/
inductive WireError where
  | tagMismatch (offset : Nat) (expected : String) (actual : UInt8)
  | truncated (offset need available : Nat) (context : String)
  | bufferTooSmall (need got : Nat) (context : String)
  | zeroLength (context : String)
  | lengthOverflow (count : Nat)
  | invalidArrayHeader (offset : Nat) (byte : UInt8)
  | countMismatch (offset expected actual : Nat)
  | checksumMismatch (stored calculated : UInt16) (size : Nat)
  | messageTooLarge (size max : Nat)
  | trailingBytes (consumed total : Nat)
  | missingField (field : String)
  | unknownField (field message : String)
  | kindMismatch (field : String) (expected actual : Kind)
  | elementCountMismatch (field : String) (expected actual : Nat)
  | config (fault : ConfigFault)
  | schema (error : SchemaError)
  deriving DecidableEq

namespace WireError

/-- What a wrong tag suggests about the two ends. -/
def tagHint (actual : UInt8) : String :=
  let array := "found an array header - field order differs between endpoints"
  if isFixArray actual then array
  else match Tag.ofByte? actual with
    | some t =>
      if t.isArrayMarker then array else "different primitive type - schema version mismatch"
    | none => "not a microbuf tag - corrupted data or misaligned offset"

/-- What a wrong checksum suggests: nothing was stored, the two bytes are swapped, or the data was
damaged. -/
def checksumHint (stored calculated : UInt16) : String :=
  if stored = 0 then "trailer bytes never written - message sealed without checksum"
  else if (stored <<< 8) ||| (stored >>> 8) = calculated then
    "checksum stored in host byte order instead of canonical order"
  else "data corruption during transmission"

/-- A checksum in diagnostics: `0x` and four digits. -/
def checksumText (c : UInt16) : String :=
  "0x" ++ hex (Word.bytes c)

def message : WireError → String
  | tagMismatch offset expected actual =>
    s!"Tag mismatch at offset {offset}: expected {expected}, got {byteText actual} " ++
      s!"({describeByte actual}, hint: {tagHint actual})"
  | truncated offset need available context =>
    s!"Truncated input at offset {offset}: need {need} bytes, {available} available " ++
      s!"(context: {context})"
  | bufferTooSmall need got context =>
    s!"Buffer too small: need {need} bytes, got {got} (context: {context})"
  | zeroLength context =>
    "Zero-length array rejected: arrays and repeated fields need at least one element " ++
      s!"(context: {context})"
  | lengthOverflow count => s!"Array length {count} exceeds the array32 limit of {maxElements}"
  | invalidArrayHeader offset byte =>
    s!"Invalid array header at offset {offset}: byte {byteText byte} ({describeByte byte}) " ++
      "is not fixarray, array16 or array32"
  | countMismatch offset expected actual =>
    s!"Array count mismatch at offset {offset}: expected {expected}, decoded {actual}"
  | checksumMismatch stored calculated size =>
    s!"Checksum mismatch: trailer {checksumText stored}, calculated {checksumText calculated} " ++
      s!"(message: {size} bytes, cause: {checksumHint stored calculated})"
  | messageTooLarge size max => s!"Message too large: {size} bytes exceeds maximum {max}"
  | trailingBytes consumed total =>
    s!"Trailing bytes: message ends at {consumed}, input has {total} bytes"
  | missingField field => s!"Field '{field}' has no value"
  | unknownField field message => s!"Unknown field '{field}' for message '{message}'"
  | kindMismatch field expected actual =>
    s!"Kind mismatch for field '{field}': schema says {expected.name}, value is {actual.name}"
  | elementCountMismatch field expected actual =>
    s!"Element count mismatch for field '{field}': schema says {expected}, got {actual}"
  | config fault => s!"Invalid codec configuration: {fault.message}"
  | schema error => s!"Schema error: {error.message}"

end WireError

end TaggedWire
