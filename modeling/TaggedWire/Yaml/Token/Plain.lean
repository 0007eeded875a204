import TaggedWire.Yaml.Token.Basic

/-!
Plain scalars: words without quotes, over one or several lines.
-/
namespace TaggedWire.Yaml.Plain

/-- Marks that end a word inside brackets or braces. -/
def isFlowMark (c : Char) : Bool :=
  c == ',' || c == '[' || c == ']' || c == '\x7b' || c == '\x7d'

/-- The word at the front of the text. It ends at a blank, at a colon with a blank after it, and
inside brackets at one of their marks. There is none if a colon stands right before such a mark. -/
def word? (flow : Bool) : List Char → Option (List Char)
  | [] => some []
  | c :: rest =>
    if isSpaceOrTab c || isBreak c then some []
    else if flow && c == ':' && rest.head?.any (fun d => isFlowMark d || d == '?') then none
    else if c == ':' && atBlank rest then some []
    else if flow && isFlowMark c then some []
    else (word? flow rest).map (c :: ·)

/-- The rest of a scalar after the characters in `done`, last one first, and a gap. The answer says
whether the text ends on a line of its own, so that a key may follow. -/
def more (flow : Bool) (indent : Int) :
    Nat → List Char → Gap → Cursor → Option (List Char × Bool × Cursor)
  | 0, done, g, c => some (done.reverse, g.broken, c)
  | fuel + 1, done, g, c =>
    if c.atDocumentMark || c.rest.head? == some '#' then some (done.reverse, g.broken, c)
    else do
      let word ← word? flow c.rest
      if word.isEmpty then return (done.reverse, g.broken, c)
      let done := word.reverse ++ g.text.reverse ++ done
      let (g, c) ← Gap.take (fun column => indent ≤ column) (c.rest.length + 1) {}
        (c.skipMany word.length)
      if !flow && (c.column : Int) < indent then return (done.reverse, g.broken, c)
      more flow indent fuel done g c

/-- The scalar that starts here. Its further lines are indented by at least `indent` columns. -/
def scan? (flow : Bool) (indent : Int) (c : Cursor) : Option (String × Bool × Cursor) :=
  (more flow indent (c.rest.length + 1) [] {} c).map (fun r => (String.ofList r.1, r.2))

end TaggedWire.Yaml.Plain
