import TaggedWire.Yaml.Number

/-!
What YAML text stands for: a tree of scalars, sequences and mappings, with tags where the text has
tags of its own.
-/
namespace TaggedWire.Yaml

inductive Node where
  | null
  | bool (b : Bool)
  | number (n : Number)
  | text (s : String)
  | sequence (items : List Node)
  | mapping (entries : List (Node × Node))
  | tagged (tag : String) (node : Node)

namespace Node

mutual

/-- Equality of nodes. The order of the entries of a mapping does not count. -/
def same : Node → Node → Bool
  | .null, .null => true
  | .bool a, .bool b => a == b
  | .number a, .number b => a.same b
  | .text a, .text b => a == b
  | .sequence as, .sequence bs => sameItems as bs
  | .mapping as, .mapping bs => as.length == bs.length && entriesIn as bs
  | .tagged s a, .tagged t b => s == t && a.same b
  | _, _ => false

def sameItems : List Node → List Node → Bool
  | [], [] => true
  | a :: as, b :: bs => a.same b && sameItems as bs
  | _, _ => false

/-- Every entry of the first list is in the second one. -/
def entriesIn : List (Node × Node) → List (Node × Node) → Bool
  | [], _ => true
  | (k, v) :: as, bs => bs.any (fun b => k.same b.1 && v.same b.2) && entriesIn as bs

end

/-- The node below its tags. -/
def untagged : Node → Node
  | .tagged _ n => n.untagged
  | n => n

/-- The text of a node that is text, whatever its tags. -/
def asText? (n : Node) : Option String :=
  match n.untagged with
  | .text s => some s
  | _ => none

end Node

/-- Tags that the format itself defines. -/
def coreTag (name : String) : String :=
  "tag:yaml.org,2002:" ++ name

def isNull (text : String) : Bool :=
  ["null", "Null", "NULL", "~"].contains text

def bool? (text : String) : Option Bool :=
  if ["true", "True", "TRUE"].contains text then some true
  else if ["false", "False", "FALSE"].contains text then some false
  else none

namespace Node

/-- The node of a plain scalar without a tag: nothing, a boolean or a number if the text is one, and
else text. An integer of more than 64 bits that fits in 128 is refused. -/
def ofPlain? (text : String) : Option Node :=
  if text.isEmpty || isNull text then some .null
  else match bool? text with
    | some b => some (.bool b)
    | none =>
      match Number.integer text.toList with
      | .number n => some (.number n)
      | .wide => none
      | .none =>
        if Number.hasLeadingZero (Number.splitSign text.toList).2 then some (.text text)
        else match Number.real? text.toList with
          | some x => some (.number (.real x))
          | none => some (.text text)

/-- The node of a scalar with a tag that is not the text's own. -/
def ofCoreTag? (tag text : String) : Option Node :=
  if tag = coreTag "bool" then (bool? text).map .bool
  else if tag = coreTag "int" then
    match Number.integer text.toList with
    | .number n => some (.number n)
    | _ => none
  else if tag = coreTag "float" then (Number.real? text.toList).map (fun x => .number (.real x))
  else if tag = coreTag "null" then if isNull text then some .null else none
  else some (.text text)

/-- The name of a tag of the text's own: what follows an exclamation mark. -/
def localTag? (tag : Option String) : Option String :=
  match tag.map String.toList with
  | some ('!' :: c :: rest) => some (String.ofList (c :: rest))
  | _ => none

/-- The node of a scalar without a tag. -/
def ofUntagged? (text : String) (plain : Bool) : Option Node :=
  if plain then ofPlain? text else some (.text text)

/-- The node of a scalar. A tag of the text's own is kept around the node. -/
def ofScalar? (tag : Option String) (text : String) (plain : Bool) : Option Node :=
  match localTag? tag with
  | some name => (ofUntagged? text plain).map (.tagged name)
  | none =>
    match tag with
    | some tag => ofCoreTag? tag text
    | none => ofUntagged? text plain

/-- The node with the tag around it, if it is one of the text's own. -/
def withTag (tag : Option String) (n : Node) : Node :=
  match localTag? tag with
  | some name => .tagged name n
  | none => n

end Node

end TaggedWire.Yaml
