import Mathlib.Data.List.Forall2
import TaggedWire.Proofs.Sizes
import TaggedWire.Proofs.TypeText
import TaggedWire.Schema.Document

/-!
Schemas from documents. The fields of a schema are the entries of the content, one for one and in
their order; the version is judged before the content and each entry before the ones behind it.
Main statement: which documents describe a schema and which one, what is reported for all others,
and that a schema is loaded back from the document that lists its fields.
-/
namespace TaggedWire

/-- Text, with any number of tags around it. -/
inductive Yaml.Node.Spells : Yaml.Node → String → Prop
  | text (s : String) : Spells (.text s) s
  | tagged {tag : String} {node : Yaml.Node} {s : String} (h : Spells node s) :
      Spells (.tagged tag node) s

theorem Yaml.Node.asText?_eq_some_iff {node : Yaml.Node} {s : String} :
    node.asText? = some s ↔ node.Spells s := by
  constructor
  · intro h
    unfold asText? at h
    fun_induction untagged node with
    | case1 tag node ih => exact .tagged (ih h)
    | case2 node hplain =>
      cases node with
      | text =>
        cases h
        exact .text s
      | tagged tag node => exact (hplain tag node rfl).elim
      | null | bool | number | sequence | mapping => cases h
  · intro h
    induction h with
    | text s => rfl
    | tagged h ih => exact ih

theorem Yaml.Node.asText?_eq_none_iff {node : Yaml.Node} :
    node.asText? = none ↔ ∀ s, ¬ node.Spells s := by
  simp only [Option.eq_none_iff_forall_ne_some, ne_eq, asText?_eq_some_iff]

theorem Yaml.Node.Spells.unique {node : Yaml.Node} {s t : String} (hs : node.Spells s)
    (ht : node.Spells t) : s = t :=
  Option.some.inj ((asText?_eq_some_iff.mpr hs).symm.trans (asText?_eq_some_iff.mpr ht))

theorem mapM_eq_ok_iff {ε α β : Type} {f : α → Except ε β} {items : List α} {bs : List β} :
    items.mapM f = .ok bs ↔ List.Forall₂ (fun a b => f a = .ok b) items bs := by
  induction items generalizing bs with
  | nil => simp [pure, Except.pure, eq_comm]
  | cons a items ih =>
    rw [List.mapM_cons, bind_eq_ok_iff]
    constructor
    · rintro ⟨b, hb, hrest⟩
      obtain ⟨rest, htail, hbs⟩ := bind_eq_ok_iff.mp hrest
      cases hbs
      exact .cons hb (ih.mp htail)
    · rintro (_ | ⟨hb, hrest⟩)
      exact ⟨_, hb, bind_eq_ok_iff.mpr ⟨_, ih.mpr hrest, rfl⟩⟩

namespace SchemaDocument

/-- The key is the name of the field and the value the text of its type. -/
def Describes (entry : Yaml.Node × Yaml.Node) (f : Field) : Prop :=
  entry.1.Spells f.name ∧ ∃ typeText, entry.2.Spells typeText ∧ Field.parse f.name typeText = .ok f

/- The causes for which an entry is no field. -/

def KeyNotText (display : Yaml.Node → String) (message : String) (entry : Yaml.Node × Yaml.Node)
    (e : SchemaError) : Prop :=
  (∀ name, ¬ entry.1.Spells name) ∧ e = .malformed message (.nameNotText (display entry.1))

def TypeNotText (display : Yaml.Node → String) (entry : Yaml.Node × Yaml.Node) (e : SchemaError) :
    Prop :=
  ∃ name, entry.1.Spells name ∧ (∀ typeText, ¬ entry.2.Spells typeText) ∧
    e = .unsupportedType name (display entry.2)

def NotAField (entry : Yaml.Node × Yaml.Node) (e : SchemaError) : Prop :=
  ∃ name typeText, entry.1.Spells name ∧ entry.2.Spells typeText ∧
    Field.parse name typeText = .error e

theorem readField_eq_ok_iff {display : Yaml.Node → String} {message : String}
    {entry : Yaml.Node × Yaml.Node} {f : Field} :
    readField display message entry.1 entry.2 = .ok f ↔ Describes entry f := by
  constructor
  · intro h
    unfold readField at h
    split at h
    · cases h
    · rename_i name hname
      split at h
      · cases h
      · rename_i typeText htype
        obtain ⟨rfl, -⟩ := Field.parse_eq_ok_iff.mp h
        exact ⟨Yaml.Node.asText?_eq_some_iff.mp hname, typeText,
          Yaml.Node.asText?_eq_some_iff.mp htype, h⟩
  · rintro ⟨hname, typeText, htype, h⟩
    rw [readField, Yaml.Node.asText?_eq_some_iff.mpr hname, Yaml.Node.asText?_eq_some_iff.mpr htype]
    exact h

theorem reports_readField (display : Yaml.Node → String) (message : String)
    (entry : Yaml.Node × Yaml.Node) :
    Reports (readField display message entry.1 entry.2)
      [KeyNotText display message entry, TypeNotText display entry, NotAField entry] := by
  unfold readField
  split
  · rename_i hnone
    exact .here fun e => and_iff_right (Yaml.Node.asText?_eq_none_iff.mp hnone)
  · rename_i name hname
    have hkey := Yaml.Node.asText?_eq_some_iff.mp hname
    refine .skip (fun e he => he.1 name hkey) ?_
    split
    · rename_i hnone
      refine .here fun e => ?_
      constructor
      · rintro ⟨name', hkey', -, rfl⟩
        rw [hkey.unique hkey']
      · rintro rfl
        exact ⟨name, hkey, Yaml.Node.asText?_eq_none_iff.mp hnone, rfl⟩
    · rename_i typeText htypeText
      have htype := Yaml.Node.asText?_eq_some_iff.mp htypeText
      refine .skip ?_ (Reports.single fun e => ?_)
      · rintro e ⟨-, -, hnone, -⟩
        exact hnone typeText htype
      · constructor
        · intro h
          exact ⟨name, typeText, hkey, htype, h⟩
        · rintro ⟨name', typeText', hkey', htype', h⟩
          rw [hkey.unique hkey', htype.unique htype']
          exact h

/- The causes for which a document describes no schema. -/

inductive FaultyVersion : Option Yaml.Node → VersionFault → Prop
  | absent : FaultyVersion none .missing
  | null : FaultyVersion (some .null) .missing
  | notNumber {node : Yaml.Node} (hnull : node ≠ .null) (h : ∀ x, node ≠ .number x) :
      FaultyVersion (some node) .notInteger
  | notNatural {x : Yaml.Number} (h : ∀ n, x ≠ .natural n) :
      FaultyVersion (some (.number x)) .notNatural
  | tooLarge {n : Nat} (h : UInt32.size ≤ n) : FaultyVersion (some (.number (.natural n))) .tooLarge

inductive FaultyShape (message : String) : Option Yaml.Node → SchemaError → Prop
  | absent : FaultyShape message none (.emptyMessage message)
  | null : FaultyShape message (some .null) (.emptyMessage message)
  | empty : FaultyShape message (some (.mapping [])) (.emptyMessage message)
  | notMapping {node : Yaml.Node} (hnull : node ≠ .null) (h : ∀ entries, node ≠ .mapping entries) :
      FaultyShape message (some node) (.malformed message .notMapping)

def BadVersion (message : String) (d : SchemaDocument) (e : SchemaError) : Prop :=
  ∃ fault, FaultyVersion d.version fault ∧ e = .invalidVersion message fault

/-- The first entry that is no field is at fault. -/
def BadEntry (display : Yaml.Node → String) (message : String) (d : SchemaDocument)
    (e : SchemaError) : Prop :=
  ∃ before entry after, d.content = some (.mapping (before ++ entry :: after)) ∧
    (∀ x ∈ before, ∃ f, Describes x f) ∧
    FirstOf [KeyNotText display message entry, TypeNotText display entry, NotAField entry] e

/-- Every entry is a field, but the fields make no schema. -/
def NotASchema (message : String) (d : SchemaDocument) (e : SchemaError) : Prop :=
  ∃ entries fields, d.content = some (.mapping entries) ∧ List.Forall₂ Describes entries fields ∧
    FirstOf [Schema.RepeatedName message fields, Schema.TooManyElements message fields,
      Schema.NoFields message fields] e

theorem readVersion_eq_ok_iff {node : Option Yaml.Node} {version : UInt32} :
    readVersion node = .ok version ↔ node = some (.number (.natural version.toNat)) := by
  constructor
  · intro h
    unfold readVersion at h
    split at h
    · cases h
    · cases h
    · split at h
      · rename_i n hle
        cases h
        rw [UInt32.toNat_ofNat_of_lt' (Nat.lt_succ_of_le hle)]
      · cases h
    · cases h
    · cases h
  · rintro rfl
    have hle : version.toNat ≤ maxVersion := Nat.le_of_lt_succ version.toNat_lt
    rw [readVersion, if_pos hle, Nat.toUInt32_eq, UInt32.ofNat_toNat]

theorem readVersion_eq_error_iff {node : Option Yaml.Node} {fault : VersionFault} :
    readVersion node = .error fault ↔ FaultyVersion node fault := by
  constructor
  · intro h
    unfold readVersion at h
    split at h
    · cases h
      exact .absent
    · cases h
      exact .null
    · split at h
      · cases h
      · rename_i n hle
        cases h
        exact .tooLarge (Nat.lt_of_not_le hle)
    · rename_i x hx
      cases h
      exact .notNatural fun n hn => hx n hn
    · rename_i node hnull _ hnumber
      cases h
      exact .notNumber hnull hnumber
  · intro h
    cases h with
    | absent => rfl
    | null => rfl
    | @notNumber node hnull h =>
      cases node with
      | null => exact absurd rfl hnull
      | number x => exact absurd rfl (h x)
      | bool | text | sequence | mapping | tagged => rfl
    | @notNatural x h =>
      cases x with
      | natural n => exact absurd rfl (h n)
      | negative | real => rfl
    | tooLarge h => exact if_neg (Nat.not_le_of_lt h)

theorem reports_readVersion (message : String) (d : SchemaDocument) :
    Reports ((readVersion d.version).mapError (.invalidVersion message))
      [BadVersion message d] := by
  refine .single fun e => ?_
  simp only [BadVersion, ← readVersion_eq_error_iff]
  cases readVersion d.version <;> simp [Except.mapError, eq_comm]

theorem readContent_eq_ok_iff {display : Yaml.Node → String} {message : String}
    {content : Option Yaml.Node} {fields : List Field} :
    readContent display message content = .ok fields ↔
      ∃ entries, content = some (.mapping entries) ∧ entries ≠ [] ∧
        List.Forall₂ Describes entries fields := by
  constructor
  · intro h
    unfold readContent at h
    split at h
    · cases h
    · cases h
    · cases h
    · rename_i entries hne
      rw [mapM_eq_ok_iff] at h
      exact ⟨entries, rfl, hne, h.imp fun _ _ => readField_eq_ok_iff.mp⟩
    · cases h
  · rintro ⟨entries, rfl, hne, h⟩
    rw [readContent, mapM_eq_ok_iff]
    · exact h.imp fun _ _ => readField_eq_ok_iff.mpr
    · exact hne

theorem FaultyShape.unique {message : String} {content : Option Yaml.Node} {e e' : SchemaError}
    (h : FaultyShape message content e) (h' : FaultyShape message content e') : e' = e := by
  cases h with
  | absent =>
    cases h'
    rfl
  | null =>
    cases h' with
    | null => rfl
    | notMapping hnull => exact absurd rfl hnull
  | empty =>
    cases h' with
    | empty => rfl
    | notMapping hnull hmapping => exact absurd rfl (hmapping [])
  | notMapping hnull hmapping =>
    cases h' with
    | null => exact absurd rfl hnull
    | empty => exact absurd rfl (hmapping [])
    | notMapping => rfl

theorem reports_readContent (display : Yaml.Node → String) (message : String)
    (d : SchemaDocument) :
    Reports (readContent display message d.content)
      [FaultyShape message d.content, BadEntry display message d] := by
  have hfaulty {e : SchemaError} {content : Option Yaml.Node} {later : List (SchemaError → Prop)}
      (h : FaultyShape message content e) :
      Reports (.error e : Except SchemaError (List Field)) (FaultyShape message content :: later) :=
    .here fun e' => ⟨h.unique, fun he => he ▸ h⟩
  unfold BadEntry
  generalize d.content = content
  unfold readContent
  split
  · exact hfaulty .absent
  · exact hfaulty .null
  · exact hfaulty .empty
  · rename_i entries hne
    refine .skip ?_ (.single fun e => ?_)
    · intro e he
      cases he with
      | empty => exact hne rfl
      | notMapping hnull hmapping => exact hmapping entries rfl
    · rw [mapM_eq_error_iff]
      simp only [Option.some.injEq, Yaml.Node.mapping.injEq, readField_eq_ok_iff,
        reports_readField display message _ e]
  · rename_i node hnull _ hmapping
    exact hfaulty (.notMapping hnull hmapping)

theorem reports_toSchema (display : Yaml.Node → String) (message : String) (d : SchemaDocument) :
    Reports (d.toSchema display message)
      [BadVersion message d, FaultyShape message d.content, BadEntry display message d,
        NotASchema message d] := by
  refine (reports_readVersion message d).bind fun version _ =>
    (reports_readContent display message d).bind fun fields hfields => .single fun e => ?_
  obtain ⟨entries, hcontent, hne, hdescribes⟩ := readContent_eq_ok_iff.mp hfields
  rw [Schema.reports_ofFields]
  constructor
  · intro h
    exact ⟨entries, fields, hcontent, hdescribes, h⟩
  · rintro ⟨entries', fields', hcontent', hdescribes', h⟩
    -- a document has one list of fields
    have hfields' : readContent display message d.content = .ok fields' := by
      rw [hcontent] at hcontent'
      cases hcontent'
      exact readContent_eq_ok_iff.mpr ⟨entries, hcontent, hne, hdescribes'⟩
    rw [hfields] at hfields'
    cases hfields'
    exact h

theorem readChecksum_eq_true_iff {node : Option Yaml.Node} :
    readChecksum node = true ↔ node = some (.bool true) := by
  unfold readChecksum
  split
  · simp
  · rename_i h
    exact iff_of_false Bool.false_ne_true fun htrue => h true htrue

/-- A schema comes from the three parts of a document, each read on its own. -/
theorem toSchema_eq_ok_iff_exists {display : Yaml.Node → String} {message : String}
    {d : SchemaDocument} {s : Schema} :
    d.toSchema display message = .ok s ↔
      ∃ version fields, readVersion d.version = .ok version ∧
        readContent display message d.content = .ok fields ∧
        Schema.ofFields message version fields (readChecksum d.appendChecksum) = .ok s := by
  have hversion : ∀ version,
      (readVersion d.version).mapError (SchemaError.invalidVersion message) = .ok version ↔
        readVersion d.version = .ok version := by
    intro version
    cases readVersion d.version <;> simp [Except.mapError]
  simp only [toSchema, bind_eq_ok_iff, hversion, exists_and_left]

theorem exists_toSchema_iff {display : Yaml.Node → String} {message : String}
    {d : SchemaDocument} :
    (∃ s, d.toSchema display message = .ok s) ↔
      (∃ n, n < UInt32.size ∧ d.version = some (.number (.natural n))) ∧
      ∃ entries fields, d.content = some (.mapping entries) ∧ entries ≠ [] ∧
        List.Forall₂ Describes entries fields ∧ (fields.map Field.name).Nodup ∧
        (fields.map Field.count).sum ≤ maxElements := by
  constructor
  · rintro ⟨s, hs⟩
    obtain ⟨version, fields, hversion, hcontent, hschema⟩ := toSchema_eq_ok_iff_exists.mp hs
    obtain ⟨entries, hentries, hne, hdescribes⟩ := readContent_eq_ok_iff.mp hcontent
    obtain ⟨-, hnodup, hle⟩ := Schema.exists_ofFields_iff.mp ⟨s, hschema⟩
    exact ⟨⟨version.toNat, version.toNat_lt, readVersion_eq_ok_iff.mp hversion⟩, entries, fields,
      hentries, hne, hdescribes, hnodup, hle⟩
  · rintro ⟨⟨n, hn, hversion⟩, entries, fields, hentries, hne, hdescribes, hnodup, hle⟩
    have hfields : fields ≠ [] := by
      rintro rfl
      exact hne (List.forall₂_nil_right_iff.mp hdescribes)
    obtain ⟨s, hs⟩ := Schema.exists_ofFields_iff.mpr ⟨hfields, hnodup, hle⟩
    refine ⟨s, toSchema_eq_ok_iff_exists.mpr ⟨.ofNat n, fields, ?_,
      readContent_eq_ok_iff.mpr ⟨entries, hentries, hne, hdescribes⟩, hs⟩⟩
    rw [readVersion_eq_ok_iff, hversion, UInt32.toNat_ofNat_of_lt' hn]

theorem toSchema_eq_ok_iff {display : Yaml.Node → String} {message : String} {d : SchemaDocument}
    {s : Schema} :
    d.toSchema display message = .ok s ↔
      s.name = message ∧ d.version = some (.number (.natural s.version.toNat)) ∧
        (s.appendChecksum = true ↔ d.appendChecksum = some (.bool true)) ∧
        ∃ entries, d.content = some (.mapping entries) ∧
          List.Forall₂ Describes entries s.fields := by
  rw [toSchema_eq_ok_iff_exists, ← readChecksum_eq_true_iff, ← Bool.eq_iff_iff]
  simp only [Schema.ofFields_eq_ok_iff, readVersion_eq_ok_iff, readContent_eq_ok_iff]
  constructor
  · rintro ⟨version, fields, hversion, ⟨entries, hentries, -, hdescribes⟩, hname, rfl, hchecksum,
      rfl⟩
    exact ⟨hname, hversion, hchecksum, entries, hentries, hdescribes⟩
  · rintro ⟨hname, hversion, hchecksum, entries, hentries, hdescribes⟩
    have hne : entries ≠ [] := by
      rintro rfl
      exact s.fields_ne_nil (List.forall₂_nil_left_iff.mp hdescribes)
    exact ⟨s.version, s.fields, hversion, ⟨entries, hentries, hne, hdescribes⟩, hname, rfl,
      hchecksum, rfl⟩

end SchemaDocument

/-- The document that lists the fields of a schema with the texts of their types. -/
def Schema.toDocument (s : Schema) : SchemaDocument where
  version := some (.number (.natural s.version.toNat))
  appendChecksum := some (.bool s.appendChecksum)
  content := some (.mapping (s.fields.map fun f => (.text f.name, .text f.typeText)))

theorem Schema.toSchema_toDocument (display : Yaml.Node → String) (s : Schema) :
    s.toDocument.toSchema display s.name = .ok s := by
  refine SchemaDocument.toSchema_eq_ok_iff.mpr ⟨rfl, rfl, ?_, _, rfl, ?_⟩
  · simp [toDocument]
  · rw [List.forall₂_map_left_iff, List.forall₂_same]
    intro f hf
    exact ⟨.text f.name, f.typeText, .text f.typeText, f.parse_typeText⟩

namespace SchemaDocument

/-- A document describes a schema exactly if its version is a number of 32 bits and its content a
mapping whose entries are fields with different names and not too many elements. The schema then has
the fields of the entries in their order. Otherwise the version, the shape of the content, the first
entry that is no field and the fields together are to blame, in this order. The document of a schema
describes that schema. All this holds however nodes are displayed. -/
theorem toSchema_keeps_order_or_reports (display : Yaml.Node → String) (message : String)
    (d : SchemaDocument) :
    ((∃ s, d.toSchema display message = .ok s) ↔
      (∃ n, n < UInt32.size ∧ d.version = some (.number (.natural n))) ∧
      ∃ entries fields, d.content = some (.mapping entries) ∧ entries ≠ [] ∧
        List.Forall₂ Describes entries fields ∧ (fields.map Field.name).Nodup ∧
        (fields.map Field.count).sum ≤ maxElements) ∧
    (∀ s, d.toSchema display message = .ok s ↔
      s.name = message ∧ d.version = some (.number (.natural s.version.toNat)) ∧
      (s.appendChecksum = true ↔ d.appendChecksum = some (.bool true)) ∧
      ∃ entries, d.content = some (.mapping entries) ∧
        List.Forall₂ Describes entries s.fields) ∧
    (∀ e, d.toSchema display message = .error e ↔
      FirstOf [BadVersion message d, FaultyShape message d.content, BadEntry display message d,
        NotASchema message d] e) ∧
    ∀ s : Schema, s.toDocument.toSchema display s.name = .ok s :=
  ⟨exists_toSchema_iff, fun _ => toSchema_eq_ok_iff, reports_toSchema display message d,
    Schema.toSchema_toDocument display⟩

end SchemaDocument

end TaggedWire
