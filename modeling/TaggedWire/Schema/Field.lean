import TaggedWire.Error
import TaggedWire.Text.Blank

/-!
Fields of a message: a name, a kind and a number of elements, and the short text of a field's type,
such as `uint8` or `float32[10]`.
-/
namespace TaggedWire

/-- Names are an ASCII letter and then ASCII letters, digits and underscores. -/
def isFieldName (s : String) : Bool :=
  match s.toList with
  | [] => false
  | c :: cs => c.isAlpha && cs.all (fun c => c.isAlphanum || c == '_')

/-- The kind of a name that belongs to no field yet. -/
def Kind.parse (name : String) : Except SchemaError Kind :=
  match Kind.ofName? name with
  | some k => .ok k
  | none => .error (.unsupportedType "" name)

structure Field where
  name : String
  kind : Kind
  count : Nat
  name_ok : isFieldName name = true
  count_pos : 0 < count
  count_le : count ≤ maxElements
  deriving DecidableEq

namespace Field

/-- A field of `count` elements. The name is judged before the count. -/
def repeated (name : String) (kind : Kind) (count : Nat) : Except SchemaError Field :=
  if hn : isFieldName name = true then
    if hc : count ≤ maxElements ∧ 0 < count then .ok ⟨name, kind, count, hn, hc.2, hc.1⟩
    else .error (.invalidRepeatCount name (toString count))
  else .error (.invalidFieldName name)

def single (name : String) (kind : Kind) : Except SchemaError Field :=
  repeated name kind 1

def isRepeated (f : Field) : Bool :=
  1 < f.count

/-- Bytes of all elements of the field. -/
def encodedLen (f : Field) : Nat :=
  f.kind.encodedLen * f.count

/-- The same as a 64-bit word, with a product that wraps. -/
def encodedLenWord (f : Field) : UInt64 :=
  f.kind.encodedLen.toUInt64 * f.count.toUInt64

/-- The type as text: the kind, and the count in brackets unless it is one. -/
def typeText (f : Field) : String :=
  if f.isRepeated then f.kind.name ++ "[" ++ toString f.count ++ "]" else f.kind.name

/-- The value of a string of decimal digits, leading zeros allowed. -/
def decimalValue? (cs : List Char) : Option Nat :=
  if cs.isEmpty || !cs.all Char.isDigit then none
  else some (cs.foldl (fun n c => n * 10 + (c.toNat - '0'.toNat)) 0)

/-- Kind name and count of a type text without blanks around it. A text that ends in `]` is cut at
its first `[`; any other is a kind name alone. -/
def splitType (field : String) (cs : List Char) : Except SchemaError (String × Nat) :=
  if cs.getLast? = some ']' then
    match cs.dropLast.span (· != '[') with
    | (_, []) => .error (.unsupportedType field (String.ofList cs))
    | (kind, _ :: digits) =>
      match decimalValue? digits with
      | none => .error (.invalidRepeatCount field (String.ofList digits))
      | some n =>
        if n ≤ maxElements then .ok (String.ofList kind, n)
        else .error (.invalidRepeatCount field (String.ofList digits))
  else .ok (String.ofList cs, 1)

/-- Reads a field from its name and the text of its type. White space around the type is ignored. -/
def parse (name typeText : String) : Except SchemaError Field := do
  let (kindName, count) ← splitType name (trimBlank typeText.toList)
  match Kind.ofName? kindName with
  | none => throw (.unsupportedType name kindName)
  | some kind => repeated name kind count

end Field

end TaggedWire
