import TaggedWire.Yaml.Event
import TaggedWire.Yaml.Node
import TaggedWire.Yaml.Token.Lexer

/-!
Documents: the events of a text with the places that its aliases stand for. Nodes are read from a
document on demand, so a part that nobody asks for is not looked at beyond its form.
-/
namespace TaggedWire.Yaml

/-- The numbers of anchors. An anchor has as number the count of the names known before it; if a
number is given a second time, it stands for the later place. -/
structure Anchors where
  numbers : List (String × Nat) := []
  /-- Number and place of the anchors, last one first. -/
  places : List (Nat × Nat) := []

namespace Anchors

/-- Notes the anchor of a node at a place. -/
def note (a : Anchors) (place : Nat) (p : Properties) : Anchors :=
  match p.anchor with
  | none => a
  | some name =>
    let number := a.numbers.length
    let others := a.numbers.filter (·.1 != name)
    { numbers := (name, number) :: others, places := (number, place) :: a.places }

end Anchors

structure Document where
  events : Array Event
  /-- The number of the anchor that the alias at a place names. -/
  aliases : List (Nat × Nat)
  anchors : Anchors

namespace Document

/-- Finds the anchors of the aliases. Each alias needs an anchor before it. -/
def link? : Nat → List Event → List (Nat × Nat) → Anchors → Option (List (Nat × Nat) × Anchors)
  | _, [], aliases, anchors => some (aliases, anchors)
  | place, e :: rest, aliases, anchors =>
    match e with
    | .alias name => do
      let number ← anchors.numbers.lookup name
      link? (place + 1) rest ((place, number) :: aliases) anchors
    | .scalar p _ _ => link? (place + 1) rest aliases (anchors.note place p)
    | .sequenceStart p => link? (place + 1) rest aliases (anchors.note place p)
    | .mappingStart p => link? (place + 1) rest aliases (anchors.note place p)
    | .sequenceEnd => link? (place + 1) rest aliases anchors
    | .mappingEnd => link? (place + 1) rest aliases anchors

def ofEvents? (events : List Event) : Option Document := do
  let (aliases, anchors) ← link? 0 events [] {}
  return { events := events.toArray, aliases, anchors }

/-- The document of a text with one document or none. -/
def parse? (text : String) : Option Document := do
  ofEvents? (← Event.ofTokens? (← Token.scan? text))

/-- The place that the alias at a place stands for. -/
def target? (d : Document) (place : Nat) : Option Nat := do
  d.anchors.places.lookup (← d.aliases.lookup place)

/-- How often aliases may be followed. -/
def maxJumps (d : Document) : Nat :=
  d.events.size * 100

/-- How deep collections may lie in each other. -/
def maxDepth : Nat := 128

/-- A place in a document, and how often aliases were followed to come there. -/
structure Place where
  index : Nat
  jumps : Nat := 0

/-- A node, and the place after it. -/
abbrev Reads (α : Type) := Place → Option (α × Place)

/-- Reads at the place that an alias stands for, and goes on after the alias. -/
def follow (d : Document) (read : Reads α) : Reads α := fun p =>
  match d.events[p.index]? with
  | some (.alias _) => do
    let index ← d.target? p.index
    if d.maxJumps < p.jumps + 1 then none
    else
      let (a, q) ← read { index, jumps := p.jumps + 1 }
      return (a, { index := p.index + 1, jumps := q.jumps })
  | _ => read p

/-- Reads nodes up to the end of their sequence; `done` holds those before, last one first. -/
def items (d : Document) (node : Reads Node) : Nat → List Node → Reads (List Node)
  | 0, _, _ => none
  | fuel + 1, done, p =>
    match d.events[p.index]? with
    | some .sequenceEnd => some (done.reverse, { p with index := p.index + 1 })
    | _ => do
      let (n, p) ← node p
      items d node fuel (n :: done) p

/-- Reads keys and values up to the end of their mapping. A key that is there already is refused. -/
def entries (d : Document) (node : Reads Node) :
    Nat → List (Node × Node) → Reads (List (Node × Node))
  | 0, _, _ => none
  | fuel + 1, done, p =>
    match d.events[p.index]? with
    | some .mappingEnd => some (done.reverse, { p with index := p.index + 1 })
    | _ => do
      let (k, p) ← node p
      if done.any (fun e => k.same e.1) then none
      else
        let (v, p) ← node p
        entries d node fuel ((k, v) :: done) p

/-- Reads the node at a place that is no alias. Collections need a reader for what is in them. -/
def nodeHere (d : Document) (inner : Option (Reads Node)) : Reads Node := fun p =>
  let next := { p with index := p.index + 1 }
  match d.events[p.index]? with
  | some (.scalar q text plain) => (Node.ofScalar? q.tag text plain).map (·, next)
  | some (.sequenceStart q) => do
    let (ns, p) ← d.items (← inner) d.events.size [] next
    return (Node.withTag q.tag (.sequence ns), p)
  | some (.mappingStart q) => do
    let (es, p) ← d.entries (← inner) d.events.size [] next
    return (Node.withTag q.tag (.mapping es), p)
  | _ => none

/-- Reads a node in which collections lie at most `depth` deep. -/
def node (d : Document) : Nat → Reads Node
  | 0 => d.follow (d.nodeHere none)
  | depth + 1 => d.follow (d.nodeHere (some (d.node depth)))

/-- Passes over a node without looking at it; `depth` collections are open. -/
def skip (d : Document) : Nat → Nat → Place → Place
  | 0, _, p => p
  | fuel + 1, depth, p =>
    let next := { p with index := p.index + 1 }
    let after := fun depth => if depth = 0 then next else skip d fuel depth next
    match d.events[p.index]? with
    | some (.sequenceStart _) | some (.mappingStart _) => after (depth + 1)
    | some .sequenceEnd | some .mappingEnd => after (depth - 1)
    | _ => after depth

/-- Reads the text of a key, whatever its style. -/
def keyHere (d : Document) : Reads String := fun p =>
  match d.events[p.index]? with
  | some (.scalar _ text _) => some (text, { p with index := p.index + 1 })
  | _ => none

/-- Reads the wanted entries of the outermost mapping. None of them may be there twice; the values
of the others are passed over. -/
def wantedFrom (d : Document) (wanted : List String) :
    Nat → List (String × Node) → Place → Option (List (String × Node))
  | 0, _, _ => none
  | fuel + 1, done, p =>
    match d.events[p.index]? with
    | some .mappingEnd => some done.reverse
    | _ => do
      let (key, p) ← d.follow d.keyHere p
      if wanted.contains key then
        if (done.lookup key).isSome then none
        else
          let (value, p) ← d.node (maxDepth - 1) p
          wantedFrom d wanted fuel ((key, value) :: done) p
      else wantedFrom d wanted fuel done (d.skip d.events.size 0 p)

/-- The wanted entries of a document. An empty document has none; one that is no mapping is
refused. -/
def entries? (d : Document) (wanted : List String) : Option (List (String × Node)) :=
  match d.events[(0 : Nat)]? with
  | none => some []
  | some (.scalar _ text plain) => if text.isEmpty && plain then some [] else none
  | some (.mappingStart _) => d.wantedFrom wanted d.events.size [] { index := 1 }
  | _ => none

end Document

end TaggedWire.Yaml
