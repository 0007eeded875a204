import TaggedWire.Text.Quoted
import TaggedWire.Yaml.Node

/-!
The text of a node in diagnostics: its kind and what it holds, on one line.
-/
namespace TaggedWire.Yaml.Node

mutual

def display : Node → String
  | .null => "Null"
  | .bool b => s!"Bool({b})"
  | .number n => s!"Number({n.text})"
  | .text s => s!"String({quoted s})"
  | .sequence items => "Sequence [" ++ ", ".intercalate (displayItems items) ++ "]"
  | .mapping entries => "Mapping \x7b" ++ ", ".intercalate (displayEntries entries) ++ "\x7d"
  | .tagged tag n => "TaggedValue \x7b tag: !" ++ tag ++ ", value: " ++ n.display ++ " \x7d"

def displayItems : List Node → List String
  | [] => []
  | n :: rest => n.display :: displayItems rest

/-- Keys that are simple scalars stand without their kind. -/
def displayEntries : List (Node × Node) → List String
  | [] => []
  | (k, v) :: rest =>
    let key := match k with
      | .bool b => toString b
      | .number n => n.text
      | .text s => quoted s
      | k => k.display
    (key ++ ": " ++ v.display) :: displayEntries rest

end

end TaggedWire.Yaml.Node
