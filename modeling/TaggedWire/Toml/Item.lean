/-!
TOML documents: nested tables of keys and items, and the rules by which headers and dotted keys may
add to a table that is already there. A table made by a header or in braces is complete; one that
stands only on the way to another may still be opened.
-/
namespace TaggedWire.Toml

/-- How a table came to be. -/
inductive Origin where
  | explicit
  /-- On the way to a table with a longer header. -/
  | implied
  /-- On the way to a dotted key. -/
  | dotted
  deriving DecidableEq

/-- What a key stands for. Of floating-point numbers and dates only the presence is kept. -/
inductive Item where
  | string (s : String)
  | integer (n : Int)
  | float
  | bool (b : Bool)
  | date
  | array (items : List Item)
  | inline (entries : List (String × Item))
  | table (origin : Origin) (entries : List (String × Item))
  | tables (rows : List (List (String × Item)))

abbrev Entries := List (String × Item)

namespace Entries

def get? (es : Entries) (key : String) : Option Item :=
  (List.find? (fun e => e.1 == key) es).map (fun e => e.2)

def without (es : Entries) (key : String) : Entries :=
  List.filter (fun e => e.1 != key) es

/-- The entries with the item of a key replaced in its place, or added at the end. -/
def put (es : Entries) (key : String) (item : Item) : Entries :=
  if List.any es (fun e => e.1 == key) then
    List.map (fun e => if e.1 == key then (key, item) else e) es
  else es ++ [(key, item)]

/-- Goes down a path of keys and changes the table at its end. Missing tables are made; a row of
tables stands for its last one. A dotted path does not enter a complete table. -/
def descend (made : Origin) (change : Origin → Entries → Option Entries) :
    List String → Origin → Entries → Option Entries
  | [], origin, es => change origin es
  | key :: path, _, es =>
    match es.get? key with
    | none => (descend made change path made []).map (fun sub => es.put key (.table made sub))
    | some (.table origin sub) =>
      if made = .dotted ∧ origin = .explicit then none
      else (descend made change path origin sub).map (fun sub => es.put key (.table origin sub))
    | some (.tables rows) =>
      match rows.getLast? with
      | none => none
      | some row =>
        (descend made change path .explicit row).map
          (fun row => es.put key (.tables (rows.dropLast ++ [row])))
    | some _ => none

/-- The entries of the table at the end of a path; there are none before it is made. -/
def at? : Entries → List String → Option Entries
  | es, [] => some es
  | es, key :: path =>
    match es.get? key with
    | none => some []
    | some (.table _ sub) => at? sub path
    | some (.tables rows) => rows.getLast?.bind (fun row => at? row path)
    | some _ => none

/-- Adds a key that is not there yet. A dotted key may only add to a table that dotted keys made. -/
def addPair (es : Entries) (path : List String) (key : String) (item : Item) : Option Entries :=
  descend .dotted (fun origin sub =>
    if decide (origin = .dotted) == path.isEmpty || (sub.get? key).isSome then none
    else some (sub ++ [(key, item)])) path .explicit es

end Entries

/-- One statement of a document. -/
inductive Line where
  | header (path : List String) (key : String)
  | rowHeader (path : List String) (key : String)
  | pair (path : List String) (key : String) (item : Item)

/-- The table that statements add to, and where it goes when it is closed. -/
inductive Target where
  | root
  | table (path : List String) (key : String)
  | row (path : List String) (key : String)

structure State where
  root : Entries
  target : Target
  current : Entries

namespace State

/-- Puts the current table in its place. -/
def close (s : State) : Option Entries :=
  match s.target with
  | .root => some s.current
  | .table path key =>
    s.root.descend .implied (fun _ es =>
      if (es.get? key).isSome then none
      else some (es ++ [(key, .table .explicit s.current)])) path .explicit
  | .row path key =>
    s.root.descend .implied (fun _ es =>
      match es.get? key with
      | none => some (es ++ [(key, .tables [s.current])])
      | some (.tables rows) => some (es.put key (.tables (rows ++ [s.current])))
      | some _ => none) path .explicit

/-- Opens the table of a header. A table that only stood on the way to others is taken up again. -/
def openTable (root : Entries) (path : List String) (key : String) : Option State := do
  let parent ← root.at? path
  let current ← match parent.get? key with
    | none => some []
    | some (.table .implied es) => some es
    | some _ => none
  let root ← root.descend .implied (fun _ es => some (es.without key)) path .explicit
  return ⟨root, .table path key, current⟩

/-- Opens a new row of the tables of a header. -/
def openRow (root : Entries) (path : List String) (key : String) : Option State := do
  let root ← root.descend .implied (fun _ es =>
    match es.get? key with
    | none => some es
    | some (.tables _) => some es
    | some _ => none) path .explicit
  return ⟨root, .row path key, []⟩

def step (s : State) : Line → Option State
  | .pair path key item => do
    let current ← s.current.addPair path key item
    return { s with current }
  | .header path key => do openTable (← s.close) path key
  | .rowHeader path key => do openRow (← s.close) path key

end State

/-- The tables that a sequence of statements makes. -/
def assemble (lines : List Line) : Option Entries := do
  let s ← lines.foldlM State.step ⟨[], .root, []⟩
  s.close

end TaggedWire.Toml
