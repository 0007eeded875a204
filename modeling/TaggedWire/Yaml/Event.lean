import TaggedWire.Yaml.Token.Basic

/-!
The events of a document: its scalars, its aliases, and the starts and ends of its collections, in
the order of the text. The reader keeps a stack of goals, which are what it still expects.
-/
namespace TaggedWire.Yaml

/-- What may stand in front of a node. -/
structure Properties where
  anchor : Option String := none
  tag : Option String := none
  deriving DecidableEq

inductive Event where
  | alias (name : String)
  | scalar (properties : Properties) (text : String) (plain : Bool)
  | sequenceStart (properties : Properties)
  | sequenceEnd
  | mappingStart (properties : Properties)
  | mappingEnd
  deriving DecidableEq

namespace Event

/-- The scalar of a place where nothing is written. -/
def empty : Event :=
  .scalar {} "" true

/-- A part of the text that the reader expects. -/
inductive Goal where
  /-- A node, of block style if `block`; entries of a sequence need no indentation if `flat`. -/
  | node (block flat : Bool)
  | blockEntry
  | flatEntry
  | blockKey
  | blockValue
  /-- An entry between brackets, with a comma before it unless it is the first one. -/
  | flowEntry (first : Bool)
  | pairKey
  | pairValue
  | pairEnd
  /-- A key between braces, with a comma before it unless it is the first one. -/
  | flowKey (first : Bool)
  | flowValue
  /-- The value of a key without a mark, which is empty. -/
  | noValue

/-- What is written so far, last event first, what is still expected, and the tokens left. -/
structure Reading where
  tokens : List Token
  goals : List Goal
  done : List Event := []

namespace Reading

/-- The definitions of the handles of tags. -/
abbrev Handles := List (String × String)

def defaultHandles : Handles :=
  [("!", "!"), ("!!", "tag:yaml.org,2002:")]

/-- The full tag of a handle and a suffix. -/
def fullTag? (handles : Handles) (handle suffix : String) : Option String :=
  if handle.isEmpty then some suffix
  else (handles.lookup handle).map (· ++ suffix)

/-- The anchor and the tag before a node, in either order. -/
def properties? (handles : Handles) : List Token → Option (Properties × List Token)
  | .anchor a :: .tag h s :: rest => do
    return ({ anchor := some a, tag := some (← fullTag? handles h s) }, rest)
  | .tag h s :: .anchor a :: rest => do
    return ({ anchor := some a, tag := some (← fullTag? handles h s) }, rest)
  | .anchor a :: rest => some ({ anchor := some a }, rest)
  | .tag h s :: rest => do
    return ({ tag := some (← fullTag? handles h s) }, rest)
  | tokens => some ({}, tokens)

/-- A tag of a single mark says no more of a scalar than that it is one. -/
def scalarProperties (p : Properties) : Properties :=
  if p.tag = some "!" then { p with tag := none } else p

/-- Reads a node, or the start of one. -/
def node? (handles : Handles) (block flat : Bool) (tokens : List Token) (goals : List Goal)
    (done : List Event) : Option Reading :=
  match tokens with
  | .alias name :: rest => some ⟨rest, goals, .alias name :: done⟩
  | _ => do
    let (p, tokens) ← properties? handles tokens
    match tokens with
    | .scalar text plain :: rest =>
      return ⟨rest, goals, .scalar (scalarProperties p) text plain :: done⟩
    | .flowSequenceStart :: rest =>
      return ⟨rest, .flowEntry true :: goals, .sequenceStart p :: done⟩
    | .flowMappingStart :: rest =>
      return ⟨rest, .flowKey true :: goals, .mappingStart p :: done⟩
    | _ =>
      match tokens, block, flat with
      | .blockEntry :: _, _, true =>
        return ⟨tokens, .flatEntry :: goals, .sequenceStart p :: done⟩
      | .blockSequenceStart :: rest, true, _ =>
        return ⟨rest, .blockEntry :: goals, .sequenceStart p :: done⟩
      | .blockMappingStart :: rest, true, _ =>
        return ⟨rest, .blockKey :: goals, .mappingStart p :: done⟩
      | _, _, _ =>
        if p = {} then none else return ⟨tokens, goals, .scalar p "" true :: done⟩

/-- Expects a node and then the goals, unless one of the ends follows: then the node is empty. -/
def nodeUnless (ends : List Token) (block flat : Bool) (tokens : List Token) (goals : List Goal)
    (done : List Event) : Reading :=
  if tokens.head?.any ends.contains then ⟨tokens, goals, .empty :: done⟩
  else ⟨tokens, .node block flat :: goals, done⟩

/-- An entry between brackets. A key there starts a mapping of one pair. -/
def flowEntry (tokens : List Token) (goals : List Goal) (done : List Event) : Reading :=
  match tokens with
  | .flowSequenceEnd :: rest => ⟨rest, goals, .sequenceEnd :: done⟩
  | .key :: rest => ⟨rest, .pairKey :: .flowEntry false :: goals, .mappingStart {} :: done⟩
  | _ => ⟨tokens, .node false false :: .flowEntry false :: goals, done⟩

/-- A key between braces. -/
def flowKey (tokens : List Token) (goals : List Goal) (done : List Event) : Reading :=
  match tokens with
  | .flowMappingEnd :: rest => ⟨rest, goals, .mappingEnd :: done⟩
  | .key :: rest =>
    nodeUnless [.value, .flowEntry, .flowMappingEnd] false false rest
      (.flowValue :: .flowKey false :: goals) done
  | _ => ⟨tokens, .node false false :: .noValue :: .flowKey false :: goals, done⟩

/-- Meets the first of the goals, or a part of it. -/
def step? (handles : Handles) (goal : Goal) (goals : List Goal) (tokens : List Token)
    (done : List Event) : Option Reading :=
  match goal, tokens with
  | .node block flat, _ => node? handles block flat tokens goals done
  | .blockEntry, .blockEntry :: rest =>
    some (nodeUnless [.blockEntry, .blockEnd] true false rest (.blockEntry :: goals) done)
  | .blockEntry, .blockEnd :: rest => some ⟨rest, goals, .sequenceEnd :: done⟩
  | .blockEntry, _ => none
  | .flatEntry, .blockEntry :: rest =>
    some (nodeUnless [.blockEntry, .key, .value, .blockEnd] true false rest (.flatEntry :: goals)
      done)
  | .flatEntry, _ => some ⟨tokens, goals, .sequenceEnd :: done⟩
  | .blockKey, .key :: rest =>
    some (nodeUnless [.key, .value, .blockEnd] true true rest
      (.blockValue :: .blockKey :: goals) done)
  | .blockKey, .blockEnd :: rest => some ⟨rest, goals, .mappingEnd :: done⟩
  | .blockKey, _ => none
  | .blockValue, .value :: rest =>
    some (nodeUnless [.key, .value, .blockEnd] true true rest goals done)
  | .blockValue, _ => some ⟨tokens, goals, .empty :: done⟩
  | .flowEntry true, _ => some (flowEntry tokens goals done)
  | .flowEntry false, .flowEntry :: rest => some (flowEntry rest goals done)
  | .flowEntry false, .flowSequenceEnd :: rest => some ⟨rest, goals, .sequenceEnd :: done⟩
  | .flowEntry false, _ => none
  | .pairKey, t :: rest =>
    if [.value, .flowEntry, .flowSequenceEnd].contains t then
      -- The token that shows the key to be empty is passed over, so the value is empty too.
      some ⟨rest, .pairValue :: goals, .empty :: done⟩
    else some ⟨tokens, .node false false :: .pairValue :: goals, done⟩
  | .pairKey, [] => none
  | .pairValue, .value :: rest =>
    some (nodeUnless [.flowEntry, .flowSequenceEnd] false false rest (.pairEnd :: goals) done)
  | .pairValue, _ => some ⟨tokens, .pairEnd :: goals, .empty :: done⟩
  | .pairEnd, _ => some ⟨tokens, goals, .mappingEnd :: done⟩
  | .flowKey true, _ => some (flowKey tokens goals done)
  | .flowKey false, .flowEntry :: rest => some (flowKey rest goals done)
  | .flowKey false, .flowMappingEnd :: rest => some ⟨rest, goals, .mappingEnd :: done⟩
  | .flowKey false, _ => none
  | .flowValue, .value :: rest =>
    some (nodeUnless [.flowEntry, .flowMappingEnd] false false rest goals done)
  | .flowValue, _ => some ⟨tokens, goals, .empty :: done⟩
  | .noValue, _ => some ⟨tokens, goals, .empty :: done⟩

/-- Meets all goals. The answer holds the events in order and the tokens left. -/
def run? (handles : Handles) : Nat → Reading → Option (List Event × List Token)
  | 0, _ => none
  | fuel + 1, r =>
    match r.goals with
    | [] => some (r.done.reverse, r.tokens)
    | goal :: goals => (step? handles goal goals r.tokens r.done).bind (run? handles fuel)

end Reading

/-- The root node at the front of the tokens. A token leads to six steps at most. -/
def root? (handles : Reading.Handles) (tokens : List Token) : Option (List Event × List Token) :=
  Reading.run? handles (6 * tokens.length + 6) { tokens, goals := [.node true false] }

/-- The definitions of handles, and the token after them. The format has versions 1.1 and 1.2, and
neither it nor a handle is declared twice. -/
def directives? (version : Bool) (handles : Reading.Handles) :
    List Token → Option (Reading.Handles × List Token)
  | .versionDirective major minor :: rest =>
    if !version && major == 1 && (minor == 1 || minor == 2) then directives? true handles rest
    else none
  | .tagDirective handle expansion :: rest =>
    if (handles.lookup handle).isSome then none
    else directives? version (handles ++ [(handle, expansion)]) rest
  | tokens => some (handles, tokens)

/-- The tokens leave a document empty. -/
def noRoot : List Token → Bool
  | [] | .versionDirective _ _ :: _ | .tagDirective _ _ :: _ | .documentStart :: _
  | .documentEnd :: _ | .streamEnd :: _ => true
  | _ => false

/-- The document at the front of the tokens. -/
def document? (tokens : List Token) : Option (List Event × List Token) :=
  match tokens with
  | .versionDirective _ _ :: _ | .tagDirective _ _ :: _ | .documentStart :: _ => do
    let (handles, tokens) ← directives? false [] tokens
    match tokens with
    | .documentStart :: rest =>
      if noRoot rest then return ([.empty], rest)
      else root? (handles ++ Reading.defaultHandles) rest
    | _ => none
  | _ => root? Reading.defaultHandles tokens

/-- Nothing follows but marks of the end. -/
def onlyEnds (tokens : List Token) : Bool :=
  tokens.all (fun t => t == .documentEnd || t == .streamEnd)

/-- The events of the only document of a text. A text without a document has none. -/
def ofTokens? (tokens : List Token) : Option (List Event) :=
  match tokens with
  | [.streamEnd] => some []
  | _ => do
    let (events, rest) ← document? tokens
    if onlyEnds rest then return events else none

end Event

end TaggedWire.Yaml
