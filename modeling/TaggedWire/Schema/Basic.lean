import TaggedWire.ArrayHeader
import TaggedWire.Checksum.Trailer
import TaggedWire.Schema.Field

/-!
Message schemas: named fields in wire order, with or without an integrity trailer. A schema has
distinct field names and between one and `maxElements` elements, and its type says so.
-/
namespace TaggedWire

attribute [local instance (high)] Zero.ofOfNat0

/-- Elements of all fields together. -/
def elementTotal (fields : List Field) : Nat :=
  (fields.map Field.count).sum

/-- Elements of all fields together, as a 64-bit word. -/
def elementTotalWord (fields : List Field) : UInt64 :=
  wordSum (fields.map fun f => f.count.toUInt64)

/-- The name of the first field that an earlier one has too; `seen` holds the names before it. -/
def repeatedName? : List String → List Field → Option String
  | _, [] => none
  | seen, f :: rest => if f.name ∈ seen then some f.name else repeatedName? (f.name :: seen) rest

theorem nodup_of_repeatedName?_eq_none {seen : List String} {fields : List Field}
    (h : repeatedName? seen fields = none) :
    (∀ f ∈ fields, f.name ∉ seen) ∧ (fields.map Field.name).Nodup := by
  induction fields generalizing seen with
  | nil => simp
  | cons f rest ih =>
    simp only [repeatedName?] at h
    split at h
    · exact absurd h (by simp)
    · rename_i hf
      obtain ⟨hrest, hnodup⟩ := ih h
      refine ⟨?_, ?_⟩
      · intro g hg
        rcases List.mem_cons.mp hg with rfl | hg
        · exact hf
        · exact fun hs => hrest g hg (List.mem_cons_of_mem _ hs)
      · rw [List.map_cons, List.nodup_cons]
        refine ⟨?_, hnodup⟩
        intro hm
        obtain ⟨g, hg, hname⟩ := List.mem_map.mp hm
        exact hrest g hg (hname ▸ List.mem_cons_self)

structure Schema where
  name : String
  version : UInt32
  appendChecksum : Bool
  fields : List Field
  nodup : (fields.map Field.name).Nodup
  elements_pos : 0 < elementTotal fields
  elements_le : elementTotal fields ≤ maxElements
  deriving DecidableEq

namespace Schema

/-- A schema from its fields. A repeated name is reported first, then too many elements, then none
at all. -/
def ofFields (name : String) (version : UInt32) (fields : List Field) (appendChecksum : Bool) :
    Except SchemaError Schema :=
  match hr : repeatedName? [] fields with
  | some f => .error (.duplicateField name f)
  | none =>
    if hm : maxElements < elementTotal fields then
      .error (.tooManyElements name (elementTotal fields))
    else if hz : elementTotal fields = 0 then .error (.emptyMessage name)
    else .ok
      { name, version, appendChecksum, fields
        nodup := (nodup_of_repeatedName?_eq_none hr).2
        elements_pos := Nat.pos_of_ne_zero hz
        elements_le := Nat.le_of_not_lt hm }

def elementCount (s : Schema) : Nat :=
  elementTotal s.fields

/-- The length that every message of the schema announces. -/
def headerLength (s : Schema) : ArrayLength :=
  ⟨s.elementCount, s.elements_pos, s.elements_le⟩

/-- Position and field of that name. -/
def field? (s : Schema) (name : String) : Option (Nat × Field) :=
  (s.fields.zipIdx.find? (fun p => p.1.name == name)).map (fun p => (p.2, p.1))

/-- Bytes of all fields. -/
def bodyLen (s : Schema) : Nat :=
  (s.fields.map Field.encodedLen).sum

def trailerLen (s : Schema) : Nat :=
  if s.appendChecksum then Trailer.len else 0

/-- Bytes of every message of the schema that has the shortest header. -/
def encodedSize (s : Schema) : Nat :=
  ArrayHeader.encodedLen s.elementCount + s.bodyLen + s.trailerLen

/- The same sizes as 64-bit words, with sums and products that wrap. -/

def bodyLenWord (s : Schema) : UInt64 :=
  wordSum (s.fields.map Field.encodedLenWord)

def encodedSizeWord (s : Schema) : UInt64 :=
  (ArrayHeader.encodedLen s.elementCount).toUInt64 + s.bodyLenWord + s.trailerLen.toUInt64

/-- The end of a message whose fields start at `bodyStart`. -/
def messageLenWord (s : Schema) (bodyStart : UInt64) : UInt64 :=
  bodyStart + s.bodyLenWord + s.trailerLen.toUInt64

end Schema

end TaggedWire
