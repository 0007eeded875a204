import TaggedWire.Yaml.Cursor

/-!
The tokens of YAML text. Nesting that the text shows by indentation has tokens of its own.
-/
namespace TaggedWire.Yaml

inductive Token where
  | streamEnd
  | versionDirective (major minor : Nat)
  | tagDirective (handle expansion : String)
  | documentStart
  | documentEnd
  | blockSequenceStart
  | blockMappingStart
  | blockEnd
  | flowSequenceStart
  | flowSequenceEnd
  | flowMappingStart
  | flowMappingEnd
  | blockEntry
  | flowEntry
  | key
  | value
  | alias (name : String)
  | anchor (name : String)
  | tag (handle suffix : String)
  | scalar (text : String) (plain : Bool)
  deriving DecidableEq

/-- The blanks and line ends between two words of a scalar. -/
structure Gap where
  /-- Blanks before the first line end. -/
  blanks : List Char := []
  /-- The first line end. -/
  first : Option Char := none
  /-- The line ends after it. -/
  more : List Char := []
  broken : Bool := false

namespace Gap

/-- What a gap leaves between the two words. A single line feed becomes a blank, several lose the
first one; blanks next to a line end are dropped. -/
def text (g : Gap) : List Char :=
  if g.broken then
    match g.first with
    | some '\n' => if g.more.isEmpty then [' '] else g.more
    | some c => c :: g.more
    | none => g.more
  else g.blanks

/-- The gap with one more line end. -/
def addBreak (g : Gap) (c : Char) : Gap :=
  if g.broken then { g with more := g.more ++ [c] }
  else { g with blanks := [], first := some c, broken := true }

/-- Takes blanks and line ends from the text. `tabAllowed` judges a tab by its column once a line
has ended. -/
def take (tabAllowed : Nat → Bool) : Nat → Gap → Cursor → Option (Gap × Cursor)
  | 0, g, c => some (g, c)
  | fuel + 1, g, c =>
    match c.takeBreak? with
    | some (b, c) => take tabAllowed fuel (g.addBreak b) c
    | none =>
      match c.rest with
      | x :: _ =>
        if isSpaceOrTab x then
          if g.broken then
            if x == '\t' && !tabAllowed c.column then none else take tabAllowed fuel g c.skip
          else take tabAllowed fuel { g with blanks := g.blanks ++ [x] } c.skip
        else some (g, c)
      | [] => some (g, c)

end Gap

end TaggedWire.Yaml
