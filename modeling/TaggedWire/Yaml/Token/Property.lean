import TaggedWire.Text.HexDigit
import TaggedWire.Yaml.Token.Basic

/-!
Anchors, aliases, tags and directives. A tag names a kind of node through a handle, which directives
can define.
-/
namespace TaggedWire.Yaml.Property

/-- Marks that may follow the name of an anchor or an alias directly. -/
def isNameEnd (c : Char) : Bool :=
  c == '?' || c == ':' || c == ',' || c == ']' || c == '\x7d' || c == '%' || c == '@' ||
    c == '\x60'

/-- The name after the mark of an anchor or an alias. -/
def name? (c : Cursor) : Option (String × Cursor) :=
  let c := c.skip
  let name := c.rest.takeWhile isNameChar
  let c := c.skipMany name.length
  if !name.isEmpty && (atBlank c.rest || c.rest.head?.any isNameEnd) then
    some (String.ofList name, c)
  else none

/-- Characters of a tag as such. Brackets and commas belong to it only where the tag is set off by
marks of its own. -/
def isTagChar (wide : Bool) (c : Char) : Bool :=
  isNameChar c || ";/?:@&=+$.!~*\x27()".toList.contains c ||
    (wide && (c == ',' || c == '[' || c == ']'))

/-- One byte in escaped form. -/
def octet? : List Char → Option Nat
  | '%' :: a :: b :: _ => hexNumber? [a, b]
  | _ => none

/-- Bytes of the character whose first byte is given. -/
def width? (n : Nat) : Option Nat :=
  if n < 0x80 then some 1
  else if n < 0xC0 then none
  else if n < 0xE0 then some 2
  else if n < 0xF0 then some 3
  else if n < 0xF8 then some 4
  else none

/-- Reads `n` escaped bytes. -/
def octets? : Nat → List Char → Option (List UInt8)
  | 0, _ => some []
  | n + 1, cs => do
    let o ← octet? cs
    return o.toUInt8 :: (← octets? n (cs.drop 3))

/-- One character in escaped form, with the number of its bytes. -/
def escaped? (cs : List Char) : Option (List Char × Nat) := do
  let width ← width? (← octet? cs)
  let bytes ← octets? width cs
  let text ← String.fromUTF8? ⟨bytes.toArray⟩
  return (text.toList, width)

/-- Characters of a tag up to the first one that is none; `done` holds those before, last one
first. -/
def tagText? (wide : Bool) : Nat → List Char → Cursor → Option (List Char × Cursor)
  | 0, done, c => some (done.reverse, c)
  | fuel + 1, done, c =>
    match c.rest with
    | '%' :: _ => do
      let (text, width) ← escaped? c.rest
      tagText? wide fuel (text.reverse ++ done) (c.skipMany (3 * width))
    | x :: _ =>
      if isTagChar wide x then tagText? wide fuel (x :: done) c.skip else some (done.reverse, c)
    | [] => some (done.reverse, c)

def text? (wide : Bool) (c : Cursor) : Option (List Char × Cursor) :=
  tagText? wide (c.rest.length + 1) [] c

/-- A handle: an exclamation mark, perhaps a name, and perhaps a second mark. -/
def handle? (c : Cursor) : Option (List Char × Cursor) :=
  if c.rest.head? == some '!' then
    let name := c.skip.rest.takeWhile isNameChar
    let c := c.skipMany (name.length + 1)
    if c.rest.head? == some '!' then some ('!' :: name ++ ['!'], c.skip)
    else some ('!' :: name, c)
  else none

/-- The tag with its text between angle brackets. -/
def verbatimTag? (c : Cursor) : Option (Token × Cursor) := do
  let (text, c) ← text? true (c.skipMany 2)
  if text.isEmpty || c.rest.head? != some '>' then none
  else return (.tag "" (String.ofList text), c.skip)

/-- The tag of a handle and a suffix. -/
def shortTag? (c : Cursor) : Option (Token × Cursor) := do
  let (handle, c) ← handle? c
  let (text, c) ← text? false c
  if handle.length > 1 && handle.getLast? == some '!' then
    if text.isEmpty then none
    else return (.tag (String.ofList handle) (String.ofList text), c)
  else
    let suffix := handle.drop 1 ++ text
    if suffix.isEmpty then return (.tag "" "!", c)
    else return (.tag "!" (String.ofList suffix), c)

def tag? (flow : Bool) (c : Cursor) : Option (Token × Cursor) := do
  let (t, c) ← if c.rest[1]? == some '<' then verbatimTag? c else shortTag? c
  if atBlank c.rest || (flow && c.rest.head? == some ',') then return (t, c) else none

/-- A number of at most nine digits. -/
def number? (c : Cursor) : Option (Nat × Cursor) :=
  let digits := c.rest.takeWhile Char.isDigit
  if digits.isEmpty || 9 < digits.length then none
  else
    let n := digits.foldl (fun n d => n * 10 + (d.toNat - '0'.toNat)) 0
    some (n, c.skipMany digits.length)

def versionDirective? (c : Cursor) : Option (Token × Cursor) := do
  let (major, c) ← number? c.skipSpaces
  if c.rest.head? != some '.' then none
  else
    let (minor, c) ← number? c.skip
    return (.versionDirective major minor, c)

def tagDirective? (c : Cursor) : Option (Token × Cursor) := do
  let (handle, c) ← handle? c.skipSpaces
  if handle != ['!'] && (handle.length == 1 || handle.getLast? != some '!') then none
  else if !c.rest.head?.any isSpaceOrTab then none
  else
    let (text, c) ← text? true c.skipSpaces
    if text.isEmpty || !atBlank c.rest then none
    else return (.tagDirective (String.ofList handle) (String.ofList text), c)

/-- The directive on this line. -/
def directive? (c : Cursor) : Option (Token × Cursor) := do
  let c := c.skip
  let name := c.rest.takeWhile isNameChar
  let c := c.skipMany name.length
  if !atBlank c.rest then none
  else
    let (t, c) ←
      if name == "YAML".toList then versionDirective? c
      else if name == "TAG".toList then tagDirective? c
      else none
    return (t, ← c.finishLine?)

end TaggedWire.Yaml.Property
