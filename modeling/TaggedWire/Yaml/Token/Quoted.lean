import TaggedWire.Text.HexDigit
import TaggedWire.Yaml.Token.Basic

/-!
Quoted scalars. Between single quotes only a quote is special and is written twice; between double
quotes a backslash starts an escape.
-/
namespace TaggedWire.Yaml.Quoted

/-- The character of an escape of one letter. -/
def shortEscape? (c : Char) : Option Char :=
  match c with
  | '0' => some (Char.ofNat 0)
  | 'a' => some (Char.ofNat 7)
  | 'b' => some (Char.ofNat 8)
  | 't' | '\t' => some '\t'
  | 'n' => some '\n'
  | 'v' => some (Char.ofNat 11)
  | 'f' => some (Char.ofNat 12)
  | 'r' => some '\r'
  | 'e' => some (Char.ofNat 27)
  | ' ' => some ' '
  | '"' => some '"'
  | '/' => some '/'
  | '\\' => some '\\'
  | 'N' => some '\u0085'
  | '_' => some '\u00A0'
  | 'L' => some '\u2028'
  | 'P' => some '\u2029'
  | _ => none

/-- Digits of an escape by code point. -/
def longEscape? : Char → Option Nat
  | 'x' => some 2
  | 'u' => some 4
  | 'U' => some 8
  | _ => none

/-- The character of an escape, after its backslash, and the characters that it takes. -/
def escape? : List Char → Option (Char × Nat)
  | [] => none
  | c :: rest =>
    match longEscape? c with
    | some n => (codePoint? n rest).map (fun x => (x, n + 1))
    | none => (shortEscape? c).map (fun x => (x, 1))

/-- Takes characters up to a blank, a line end or the closing quote. A backslash at the end of a
line ends the word and joins it to the next line; the answer says so. -/
def word? (single : Bool) : Nat → List Char → Cursor → Option (List Char × Bool × Cursor)
  | 0, done, c => some (done, false, c)
  | fuel + 1, done, c =>
    match c.rest with
    | [] => some (done, false, c)
    | x :: rest =>
      if isSpaceOrTab x || isBreak x then some (done, false, c)
      else if single then
        if x == '\x27' then
          if rest.head? == some '\x27' then word? single fuel (x :: done) (c.skipMany 2)
          else some (done, false, c)
        else word? single fuel (x :: done) c.skip
      else if x == '"' then some (done, false, c)
      else if x == '\\' then
        match c.skip.takeBreak? with
        | some (_, c) => some (done, true, c)
        | none => do
          let (e, used) ← escape? rest
          word? single fuel (e :: done) (c.skipMany (used + 1))
      else word? single fuel (x :: done) c.skip

/-- The rest of a scalar up to its closing quote; `done` holds the characters before, last one
first. -/
def tail? (single : Bool) : Nat → List Char → Cursor → Option (List Char × Cursor)
  | 0, _, _ => none
  | fuel + 1, done, c =>
    if c.atDocumentMark || c.rest.isEmpty then none
    else do
      let (done, joined, c) ← word? single (c.rest.length + 1) done c
      let close := if single then '\x27' else '"'
      if c.rest.head? == some close then return (done.reverse, c.skip)
      let (g, c) ← Gap.take (fun _ => true) (c.rest.length + 1) { broken := joined } c
      tail? single fuel (g.text.reverse ++ done) c

/-- The scalar that starts at this quote. -/
def scan? (single : Bool) (c : Cursor) : Option (String × Cursor) :=
  (tail? single (c.rest.length + 1) [] c.skip).map (fun r => (String.ofList r.1, r.2))

end TaggedWire.Yaml.Quoted
