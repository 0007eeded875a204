import TaggedWire.Toml.Document

/-!
Plain documents: truth values and numbers under bare keys, and then tables of the same. Nothing else
is ever written; what is read can be any document. Main definitions: a `Format` writes plain
documents and reads documents, `Faithful` says what is relied on in one, and `format` is the one used
here.
-/
namespace TaggedWire.Toml

/-- The largest integer that a document can hold. -/
def maxInteger : Nat := 9223372036854775807

/-- Whether a key is written without quotes. -/
def isBare (key : String) : Bool :=
  !key.toList.isEmpty && key.toList.all isBareKeyChar

/-- Keys that can stand in one table. -/
structure Proper (keys : List String) : Prop where
  nodup : keys.Nodup
  bare : ∀ key ∈ keys, isBare key = true

theorem Proper.nil : Proper [] := ⟨List.nodup_nil, List.forall_mem_nil _⟩

theorem Proper.cons {key : String} {keys : List String} (hbare : isBare key = true)
    (hnew : key ∉ keys) (h : Proper keys) : Proper (key :: keys) :=
  ⟨List.nodup_cons.mpr ⟨hnew, h.nodup⟩, List.forall_mem_cons.mpr ⟨hbare, h.bare⟩⟩

inductive Scalar where
  | bool (b : Bool)
  | number (n : Nat)

namespace Scalar

def item : Scalar → Item
  | bool b => .bool b
  | number n => .integer n

/-- A number above the integers of a document has no text. -/
def text? : Scalar → Option String
  | bool b => some (if b then "true" else "false")
  | number n => if n ≤ maxInteger then some (toString n) else none

end Scalar

abbrev Pairs := List (String × Scalar)

namespace Pairs

def keys (ps : Pairs) : List String :=
  ps.map Prod.fst

def entries (ps : Pairs) : Entries :=
  ps.map fun p => (p.1, p.2.item)

/-- One pair to a line. -/
def text? : Pairs → Option String
  | [] => some ""
  | (key, v) :: rest => do
    let value ← v.text?
    let below ← text? rest
    return key ++ " = " ++ value ++ "\n" ++ below

/-- The pairs are all that a table has, in whatever order. -/
def Fill (ps : Pairs) (es : Entries) : Prop :=
  ∀ key, es.get? key = (ps.lookup key).map Scalar.item

end Pairs

/-- Pairs, and then tables of pairs. -/
structure Plain where
  root : Pairs
  tables : List (String × Pairs)
  proper : Proper (Pairs.keys root ++ tables.map Prod.fst)
  tables_proper : ∀ t ∈ tables, Proper (Pairs.keys t.2)

/-- One text after another, with an empty line between them. -/
def spaced (above below : String) : String :=
  if above = "" ∨ below = "" then above ++ below else above ++ "\n" ++ below

def tablesText? : List (String × Pairs) → Option String
  | [] => some ""
  | (key, ps) :: rest => do
    let pairs ← Pairs.text? ps
    let below ← tablesText? rest
    return spaced ("[" ++ key ++ "]\n" ++ pairs) below

namespace Plain

def scalars (d : Plain) : List Scalar :=
  d.root.map Prod.snd ++ d.tables.flatMap fun t => t.2.map Prod.snd

def text? (d : Plain) : Option String := do
  let above ← Pairs.text? d.root
  let below ← tablesText? d.tables
  return spaced above below

/-- What the document says, in whatever order. -/
structure Fills (d : Plain) (es : Entries) : Prop where
  pairs : ∀ key ∉ d.tables.map Prod.fst, es.get? key = (d.root.lookup key).map Scalar.item
  tables : ∀ t ∈ d.tables, ∃ origin sub, es.get? t.1 = some (.table origin sub) ∧ Pairs.Fill t.2 sub

end Plain

/-- A way to write plain documents and to read documents. -/
structure Format where
  write? : Plain → Option String
  read? : String → Option Entries

/-- What is relied on in a format. -/
structure Format.Faithful (f : Format) : Prop where
  /-- A document has a text unless a number in it is too large. -/
  writes : ∀ d : Plain, (∃ text, f.write? d = some text) ↔
    ∀ n, .number n ∈ d.scalars → n ≤ maxInteger
  /-- What was written is read back. -/
  reads : ∀ (d : Plain) (text : String), f.write? d = some text →
    ∃ es, f.read? text = some es ∧ d.Fills es

def format : Format := ⟨Plain.text?, parse?⟩

end TaggedWire.Toml
