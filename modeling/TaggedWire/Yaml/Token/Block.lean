import TaggedWire.Yaml.Token.Basic

/-!
Block scalars: indented lines after a mark. A literal keeps its line ends; in a folded one a single
line end between two lines that start with no blank becomes a blank.
-/
namespace TaggedWire.Yaml.Block

/-- What happens to the line ends after the last line. -/
inductive Chomp where
  | strip
  | clip
  | keep
  deriving DecidableEq

def chomp? : List Char → Option Chomp
  | '+' :: _ => some .keep
  | '-' :: _ => some .strip
  | _ => none

/-- A digit of explicit indentation, from one to nine. -/
def increment? : List Char → Option Nat
  | c :: _ => if '1' ≤ c ∧ c ≤ '9' then some (c.toNat - '0'.toNat) else none
  | [] => none

/-- The two indicators after the mark, in either order. -/
def header (c : Cursor) : Chomp × Option Nat × Cursor :=
  match chomp? c.rest with
  | some chomp =>
    match increment? c.skip.rest with
    | some n => (chomp, some n, c.skipMany 2)
    | none => (chomp, none, c.skip)
  | none =>
    match increment? c.rest with
    | some n =>
      match chomp? c.skip.rest with
      | some chomp => (chomp, some n, c.skipMany 2)
      | none => (.clip, some n, c.skip)
    | none => (.clip, none, c)

/-- Moves over spaces of indentation, up to the column `limit` if there is one. -/
def skipIndent (limit : Option Nat) (c : Cursor) : Cursor :=
  let spaces := (c.rest.takeWhile (· == ' ')).length
  match limit with
  | some n => c.skipMany (min spaces (n - c.column))
  | none => c.skipMany spaces

/-- Moves over blank lines to the indentation of the next line of text. The answer holds the line
ends and the widest indentation met. A tab in the indentation is refused. -/
def breaks? (limit : Option Nat) :
    Nat → List Char → Nat → Cursor → Option (List Char × Nat × Cursor)
  | 0, done, widest, c => some (done, widest, c)
  | fuel + 1, done, widest, c =>
    let c := skipIndent limit c
    let widest := max widest c.column
    if limit.all (fun n => c.column < n) && c.rest.head? == some '\t' then none
    else
      match c.takeBreak? with
      | some (b, c) => breaks? limit fuel (done ++ [b]) widest c
      | none => some (done, widest, c)

/-- The lines read so far, with the line ends after the last one kept apart. -/
structure Lines where
  /-- Characters, last one first. -/
  done : List Char := []
  /-- The line end of the last line. -/
  lineEnd : List Char := []
  /-- The blank lines after it. -/
  blankLines : List Char
  /-- The last line started with a blank. -/
  indented : Bool := false

namespace Lines

/-- The text before a further line. -/
def join (folded indented : Bool) (l : Lines) : List Char :=
  if folded && l.lineEnd == ['\n'] && !l.indented && !indented then
    if l.blankLines.isEmpty then ' ' :: l.done else l.blankLines.reverse ++ l.done
  else (l.lineEnd ++ l.blankLines).reverse ++ l.done

def finish (chomp : Chomp) (l : Lines) : String :=
  String.ofList (l.done.reverse ++
    match chomp with
    | .strip => []
    | .clip => l.lineEnd
    | .keep => l.lineEnd ++ l.blankLines)

end Lines

/-- Reads the lines that stand at the indentation of the scalar. -/
def lines? (folded : Bool) (indent : Nat) : Nat → Lines → Cursor → Option (Lines × Cursor)
  | 0, l, c => some (l, c)
  | fuel + 1, l, c =>
    match c.rest with
    | [] => some (l, c)
    | x :: _ =>
      if c.column == indent then do
        let indented := isSpaceOrTab x
        let text := c.rest.takeWhile (fun y => !isBreak y)
        let after := c.skipMany text.length
        let (lineEnd, next) :=
          match after.takeBreak? with
          | some (b, next) => ([b], next)
          | none => ([], after)
        let (blankLines, _, next) ← breaks? (some indent) (next.rest.length + 1) [] 0 next
        let done := text.reverse ++ l.join folded indented
        lines? folded indent fuel { done, lineEnd, blankLines, indented } next
      else some (l, c)

/-- The scalar that starts at this mark, inside a block indented by `parent` columns. -/
def scan? (parent : Int) (folded : Bool) (c : Cursor) : Option (String × Cursor) := do
  let (chomp, increment, c) := header c.skip
  let c ← c.finishLine?
  let limit := increment.map (fun n => if 0 ≤ parent then parent.toNat + n else n)
  let (blankLines, widest, c) ← breaks? limit (c.rest.length + 1) [] 0 c
  let indent := limit.getD (max widest (max (parent + 1).toNat 1))
  let (l, c) ← lines? folded indent (c.rest.length + 1) { blankLines } c
  return (l.finish chomp, c)

end TaggedWire.Yaml.Block
