import TaggedWire.Yaml.Token.Block
import TaggedWire.Yaml.Token.Plain
import TaggedWire.Yaml.Token.Property
import TaggedWire.Yaml.Token.Quoted

/-!
Tokens of a whole text. Blocks open and close with the indentation. A key on one line is known to be
one only when its colon comes, so the place of a token that could be a key is kept, and the mark of
the key is put there afterwards.
-/
namespace TaggedWire.Yaml

/-- A token that turns out to be a key if a colon follows it. -/
structure PendingKey where
  /-- The block goes on only with a key here. -/
  required : Bool
  /-- Tokens before this one. -/
  position : Nat
  start : Cursor

/-- The longest text of a key on one line. -/
def maxKeyLength : Nat := 1024

structure Lexer where
  cursor : Cursor
  tokens : Array Token := #[]
  /-- Column of the innermost block, or `-1` outside all blocks. -/
  indent : Int := -1
  /-- Columns of the blocks around it, innermost first. -/
  outer : List Int := []
  /-- A key may start here. -/
  keyAllowed : Bool := true
  /-- The pending key outside all brackets. -/
  blockKey : Option PendingKey := none
  /-- The pending keys inside each pair of open brackets, innermost first. -/
  flowKeys : List (Option PendingKey) := []

namespace Lexer

/-- The text is inside brackets or braces. -/
def inFlow (l : Lexer) : Bool :=
  !l.flowKeys.isEmpty

def push (l : Lexer) (t : Token) : Lexer :=
  { l with tokens := l.tokens.push t }

/-- Puts a token before the one at the position. -/
def insert (l : Lexer) (position : Nat) (t : Token) : Lexer :=
  { l with tokens := l.tokens.take position ++ #[t] ++ l.tokens.drop position }

/-- Takes a token that is one mark of `n` characters. -/
def mark (l : Lexer) (n : Nat) (t : Token) : Lexer :=
  { l.push t with cursor := l.cursor.skipMany n }

/-- The innermost pending key. -/
def pending (l : Lexer) : Option PendingKey :=
  match l.flowKeys with
  | [] => l.blockKey
  | k :: _ => k

def setPending (l : Lexer) (k : Option PendingKey) : Lexer :=
  match l.flowKeys with
  | [] => { l with blockKey := k }
  | _ :: rest => { l with flowKeys := k :: rest }

/-- Gives up the pending key, unless it has to be one. -/
def dropKey? (l : Lexer) : Option Lexer :=
  if l.pending.any (·.required) then none else some (l.setPending none)

/-- Notes that the next token could be a key. -/
def noteKey? (l : Lexer) : Option Lexer :=
  if l.keyAllowed then do
    let required := !l.inFlow && l.indent == (l.cursor.column : Int)
    let key : PendingKey := { required, position := l.tokens.size, start := l.cursor }
    return (← l.dropKey?).setPending (some key)
  else some l

/-- A pending key is given up at the end of its line and when it is too long. -/
def isStale (c : Cursor) (k : PendingKey) : Bool :=
  k.start.line < c.line || k.start.index + maxKeyLength < c.index

/-- Gives up the keys that are stale, unless one of them has to be a key. -/
def dropStale? (l : Lexer) : Option Lexer :=
  let stale := fun k => Option.any (isStale l.cursor) k
  let keys := l.blockKey :: l.flowKeys
  if keys.any (fun k => stale k && k.any (·.required)) then none
  else
    let fresh := fun k => if stale k then none else k
    some { l with blockKey := fresh l.blockKey, flowKeys := l.flowKeys.map fresh }

/-- Opens a block at the column, if it lies inside the present one. -/
def openBlock (l : Lexer) (column position : Nat) (t : Token) : Lexer :=
  if !l.inFlow && l.indent < (column : Int) then
    { l.insert position t with indent := column, outer := l.indent :: l.outer }
  else l

/-- Closes the blocks that lie further in than the column; `columns` are those around. -/
def closeFrom (column : Int) (l : Lexer) : List Int → Lexer
  | [] => l
  | o :: outer =>
    if column < l.indent then closeFrom column { l.push .blockEnd with indent := o, outer } outer
    else l

def closeBlocks (column : Int) (l : Lexer) : Lexer :=
  if l.inFlow then l else closeFrom column l l.outer

/-- Moves to the next token, over blanks, comments and line ends. A tab does not indent, so it is no
blank where a block key may start. -/
def skipGap : Nat → Lexer → Lexer
  | 0, l => l
  | fuel + 1, l =>
    let tabs := l.inFlow || !l.keyAllowed
    let c := l.cursor.skipWhile (fun x => x == ' ' || (tabs && x == '\t'))
    let c := if c.rest.head? == some '#' then c.skipToLineEnd else c
    match c.takeBreak? with
    | some (_, c) => skipGap fuel { l with cursor := c, keyAllowed := l.keyAllowed || !l.inFlow }
    | none => { l with cursor := c }

/-- Ends all blocks, as at a directive or at either end of a document. -/
def leave? (l : Lexer) : Option Lexer := do
  return { ← (l.closeBlocks (-1)).dropKey? with keyAllowed := false }

def flowStart? (l : Lexer) (t : Token) : Option Lexer := do
  let l ← l.noteKey?
  return { l.mark 1 t with flowKeys := none :: l.flowKeys, keyAllowed := true }

def flowEnd? (l : Lexer) (t : Token) : Option Lexer := do
  let l ← l.dropKey?
  return { l.mark 1 t with flowKeys := l.flowKeys.drop 1, keyAllowed := false }

def flowEntry? (l : Lexer) : Option Lexer := do
  return { (← l.dropKey?).mark 1 .flowEntry with keyAllowed := true }

/-- Opens a block for an entry or a key that is marked as such, where one may stand. -/
def blockMark? (l : Lexer) (start : Token) : Option Lexer :=
  if l.inFlow then some l
  else if l.keyAllowed then some (l.openBlock l.cursor.column l.tokens.size start)
  else none

def blockEntry? (l : Lexer) : Option Lexer := do
  let l ← (← l.blockMark? .blockSequenceStart).dropKey?
  return { l.mark 1 .blockEntry with keyAllowed := true }

def key? (l : Lexer) : Option Lexer := do
  let l ← (← l.blockMark? .blockMappingStart).dropKey?
  return { l.mark 1 .key with keyAllowed := !l.inFlow }

/-- A colon makes a key of the token that is pending. -/
def value? (l : Lexer) : Option Lexer :=
  match l.pending with
  | some k =>
    let l := (l.insert k.position .key).openBlock k.start.column k.position .blockMappingStart
    some { (l.setPending none).mark 1 .value with keyAllowed := false }
  | none => do
    let l ← l.blockMark? .blockMappingStart
    return { l.mark 1 .value with keyAllowed := !l.inFlow }

/-- Takes a token that could be a key, and that no key follows on its line. -/
def keyed? (l : Lexer) (scan : Cursor → Option (Token × Cursor)) : Option Lexer := do
  let l ← l.noteKey?
  let (t, cursor) ← scan l.cursor
  return { l.push t with cursor, keyAllowed := false }

def quoted? (l : Lexer) (single : Bool) : Option Lexer :=
  l.keyed? (fun c => (Quoted.scan? single c).map (fun r => (.scalar r.1 false, r.2)))

def block? (l : Lexer) (folded : Bool) : Option Lexer := do
  let l ← l.dropKey?
  let (text, cursor) ← Block.scan? l.indent folded l.cursor
  return { l.push (.scalar text false) with cursor, keyAllowed := true }

def plain? (l : Lexer) : Option Lexer := do
  let l ← l.noteKey?
  let (text, keyAllowed, cursor) ← Plain.scan? l.inFlow (l.indent + 1) l.cursor
  return { l.push (.scalar text true) with cursor, keyAllowed }

def directive? (l : Lexer) : Option Lexer := do
  let l ← l.leave?
  let (t, cursor) ← Property.directive? l.cursor
  return { l.push t with cursor }

/-- A plain scalar may start with this character before that text. -/
def startsPlain (flow : Bool) (c : Char) (rest : List Char) : Bool :=
  if c == '-' then !rest.head?.any isSpaceOrTab
  else if c == '?' || c == ':' then !flow && !atBlank rest
  else !(isSpaceOrTab c || isBreak c || ",[]\x7b\x7d#&*!|>\x27\"%@\x60".toList.contains c)

/-- Takes the token that starts with the character `c` before `rest`. -/
def token? (l : Lexer) (c : Char) (rest : List Char) : Option Lexer :=
  let flow := l.inFlow
  let lineStart := l.cursor.column == 0
  if lineStart && c == '%' then l.directive?
  else if lineStart && isDocumentMark '-' (c :: rest) then
    l.leave?.map (·.mark 3 .documentStart)
  else if lineStart && isDocumentMark '.' (c :: rest) then
    l.leave?.map (·.mark 3 .documentEnd)
  else if c == '[' then l.flowStart? .flowSequenceStart
  else if c == '\x7b' then l.flowStart? .flowMappingStart
  else if c == ']' then l.flowEnd? .flowSequenceEnd
  else if c == '\x7d' then l.flowEnd? .flowMappingEnd
  else if c == ',' then l.flowEntry?
  else if c == '-' && atBlank rest then l.blockEntry?
  else if c == '?' && (flow || atBlank rest) then l.key?
  else if c == ':' && (flow || atBlank rest) then l.value?
  else if c == '*' then
    l.keyed? (fun c => (Property.name? c).map (fun r => (.alias r.1, r.2)))
  else if c == '&' then
    l.keyed? (fun c => (Property.name? c).map (fun r => (.anchor r.1, r.2)))
  else if c == '!' then l.keyed? (Property.tag? flow)
  else if c == '|' && !flow then l.block? false
  else if c == '>' && !flow then l.block? true
  else if c == '\x27' then l.quoted? true
  else if c == '"' then l.quoted? false
  else if startsPlain flow c rest then l.plain?
  else none

/-- Takes all tokens up to the end of the text. Every token but those of the end takes a character
at least, so the length of the text bounds their number. -/
def run? : Nat → Lexer → Option (Array Token)
  | 0, _ => none
  | fuel + 1, l => do
    let l ← (skipGap (l.cursor.rest.length + 1) l).dropStale?
    let l := l.closeBlocks l.cursor.column
    match l.cursor.rest with
    | [] => return ((← l.leave?).push .streamEnd).tokens
    | c :: rest => run? fuel (← l.token? c rest)

end Lexer

/-- The place after a byte order mark, which may only come first. -/
def Cursor.ofText (cs : List Char) : Cursor :=
  match cs with
  | '\uFEFF' :: rest => { rest, index := 1, column := 1 }
  | _ => { rest := cs }

/-- The tokens of a text, if it has any: characters that no text may hold, marks out of place and
open quotes leave it without. -/
def Token.scan? (text : String) : Option (List Token) :=
  let c := Cursor.ofText text.toList
  if c.rest.all isAllowed then
    (Lexer.run? (c.rest.length + 1) { cursor := c }).map Array.toList
  else none

end TaggedWire.Yaml
