/-!
Places in YAML text: what is left of the text, with the line and column reached, and the classes of
characters that separate tokens.
-/
namespace TaggedWire.Yaml

structure Cursor where
  rest : List Char
  /-- Characters before this place. -/
  index : Nat := 0
  line : Nat := 0
  column : Nat := 0

def isBreak (c : Char) : Bool :=
  c == '\n' || c == '\r' || c == '\u0085' || c == '\u2028' || c == '\u2029'

def isSpaceOrTab (c : Char) : Bool :=
  c == ' ' || c == '\t'

/-- The text is at its end, at the end of a line, or at a blank. -/
def atBlank : List Char → Bool
  | [] => true
  | c :: _ => isSpaceOrTab c || isBreak c

/-- Letters, digits, underscore and hyphen, of which names are made. -/
def isNameChar (c : Char) : Bool :=
  c.isAlphanum || c == '_' || c == '-'

/-- Characters that a text may hold at all. -/
def isAllowed (c : Char) : Bool :=
  let n := c.toNat
  c == '\t' || c == '\n' || c == '\r' || (0x20 ≤ n && n ≤ 0x7E) || n == 0x85 ||
    (0xA0 ≤ n && n ≤ 0xFFFD) || 0x10000 ≤ n

/-- Three marks in a row and then a blank: how a document starts or ends. -/
def isDocumentMark (mark : Char) : List Char → Bool
  | a :: b :: c :: rest => a == mark && b == mark && c == mark && atBlank rest
  | _ => false

namespace Cursor

/-- Moves over one character within a line. -/
def skip (c : Cursor) : Cursor :=
  match c.rest with
  | [] => c
  | _ :: rest => { c with rest, index := c.index + 1, column := c.column + 1 }

def skipMany (n : Nat) (c : Cursor) : Cursor :=
  Nat.repeat skip n c

/-- Moves over the characters of a class, none of which ends a line. -/
def skipWhile (p : Char → Bool) (c : Cursor) : Cursor :=
  skipMany (c.rest.takeWhile p).length c

def skipSpaces (c : Cursor) : Cursor :=
  c.skipWhile isSpaceOrTab

/-- Moves to the end of the line. -/
def skipToLineEnd (c : Cursor) : Cursor :=
  c.skipWhile (fun x => !isBreak x)

/-- The cursor at the start of the next line. -/
def nextLine (c : Cursor) (rest : List Char) (used : Nat) : Cursor :=
  { rest, index := c.index + used, line := c.line + 1, column := 0 }

/-- Moves over one line end. All ends count as a line feed but the two separators of paragraphs and
lines, which stand for themselves. -/
def takeBreak? (c : Cursor) : Option (Char × Cursor) :=
  match c.rest with
  | '\r' :: '\n' :: rest => some ('\n', c.nextLine rest 2)
  | '\u2028' :: rest => some ('\u2028', c.nextLine rest 1)
  | '\u2029' :: rest => some ('\u2029', c.nextLine rest 1)
  | x :: rest => if isBreak x then some ('\n', c.nextLine rest 1) else none
  | [] => none

/-- Moves over the blanks, the comment and the line end that may follow an item on its line. -/
def finishLine? (c : Cursor) : Option Cursor :=
  let c := c.skipSpaces
  let c := if c.rest.head? = some '#' then c.skipToLineEnd else c
  if c.rest.isEmpty then some c else (c.takeBreak?).map (·.2)

/-- A document starts or ends here. -/
def atDocumentMark (c : Cursor) : Bool :=
  c.column == 0 && (isDocumentMark '-' c.rest || isDocumentMark '.' c.rest)

end Cursor

end TaggedWire.Yaml
