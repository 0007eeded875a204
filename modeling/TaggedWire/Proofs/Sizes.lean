import TaggedWire.Proofs.Assignment
import TaggedWire.Proofs.Precedence

/-!
Schemas and their sizes. Fields become a schema exactly if there are some, their names differ and a
header can carry the number of their elements; the number of elements bounds the size of a message.
Main statement: what makes a schema of fields and what is reported otherwise, that names lead to the
fields they belong to, and that sizes computed in 64-bit words never wrap.
-/
namespace TaggedWire

theorem toNat_foldl_add {ws : List UInt64} {start : UInt64}
    (h : start.toNat + (ws.map UInt64.toNat).sum < UInt64.size) :
    (ws.foldl (· + ·) start).toNat = start.toNat + (ws.map UInt64.toNat).sum := by
  induction ws generalizing start with
  | nil => rfl
  | cons w ws ih =>
    rw [List.map_cons, List.sum_cons, ← Nat.add_assoc] at h ⊢
    have hw : (start + w).toNat = start.toNat + w.toNat := by
      rw [UInt64.toNat_add]
      exact Nat.mod_eq_of_lt (Nat.lt_of_le_of_lt (Nat.le_add_right _ _) h)
    rw [List.foldl_cons, ih (hw ▸ h), hw]

/-- A sum of words is the sum of the sizes that they hold, if that sum fits in a word. -/
theorem toNat_wordSum {α : Type} {items : List α} {word : α → UInt64} {size : α → Nat}
    (hword : ∀ a ∈ items, (word a).toNat = size a) (h : (items.map size).sum < UInt64.size) :
    (wordSum (items.map word)).toNat = (items.map size).sum := by
  have hsizes : (items.map word).map UInt64.toNat = items.map size := by
    rw [List.map_map]
    exact List.map_congr_left hword
  have hzero : (0 : UInt64).toNat = 0 := rfl
  rw [wordSum, toNat_foldl_add (by rwa [hzero, Nat.zero_add, hsizes]), hzero, Nat.zero_add, hsizes]

theorem Field.encodedLen_le (f : Field) : f.encodedLen ≤ 9 * f.count :=
  Nat.mul_le_mul_right _ f.kind.encodedLen_le

theorem Field.toNat_encodedLenWord (f : Field) : f.encodedLenWord.toNat = f.encodedLen := by
  have hkind := f.kind.encodedLen_le
  have hcount : f.count ≤ 4294967295 := f.count_le
  have hlen : f.kind.encodedLen * f.count ≤ 9 * f.count := f.encodedLen_le
  have hsize : UInt64.size = 18446744073709551616 := rfl
  rw [encodedLenWord, UInt64.toNat_mul, toNat_toUInt64 (by omega), toNat_toUInt64 (by omega)]
  exact Nat.mod_eq_of_lt (by omega)

theorem sum_map_le {fields : List Field} {size : Field → Nat} {c : Nat}
    (h : ∀ f ∈ fields, size f ≤ c * f.count) :
    (fields.map size).sum ≤ c * elementTotal fields := by
  induction fields with
  | nil => exact Nat.zero_le _
  | cons f rest ih =>
    have hrest := ih fun g hg => h g (List.mem_cons_of_mem _ hg)
    have hf := h f List.mem_cons_self
    simp only [elementTotal, List.map_cons, List.sum_cons] at hrest ⊢
    rw [Nat.mul_add]
    exact Nat.add_le_add hf hrest

theorem elementTotal_le (fields : List Field) :
    elementTotal fields ≤ fields.length * maxElements := by
  induction fields with
  | nil => exact Nat.zero_le _
  | cons f rest ih =>
    have hf := f.count_le
    simp only [elementTotal, List.map_cons, List.sum_cons, List.length_cons] at ih ⊢
    rw [Nat.succ_mul]
    omega

theorem toNat_elementTotalWord {fields : List Field} (h : fields.length ≤ maxElements) :
    (elementTotalWord fields).toNat = elementTotal fields := by
  apply toNat_wordSum
  · intro f hf
    exact toNat_toUInt64 (Nat.lt_of_le_of_lt f.count_le (by decide))
  · have hle : fields.length * maxElements ≤ maxElements * maxElements := Nat.mul_le_mul_right _ h
    exact Nat.lt_of_le_of_lt ((elementTotal_le fields).trans hle) (by decide)

theorem ArrayHeader.encodedLen_le (n : Nat) : encodedLen n ≤ 5 := by
  unfold encodedLen
  split
  · decide
  · split <;> decide

theorem ArrayHeader.Announces.length_le {n : Nat} {header : Bytes} (h : Announces n header) :
    header.length ≤ 5 := by
  cases h <;> simp

namespace Schema

theorem trailerLen_le (s : Schema) : s.trailerLen ≤ 3 := by
  unfold trailerLen
  split <;> decide

theorem bodyLen_le (s : Schema) : s.bodyLen ≤ 9 * s.elementCount :=
  sum_map_le fun f _ => f.encodedLen_le

theorem bodyLen_le_max (s : Schema) : s.bodyLen ≤ 9 * maxElements :=
  s.bodyLen_le.trans (Nat.mul_le_mul_left 9 s.elements_le)

theorem encodedSize_le (s : Schema) : s.encodedSize ≤ 9 * maxElements + 8 := by
  have hheader := ArrayHeader.encodedLen_le s.elementCount
  have hbody := s.bodyLen_le_max
  have htrailer := s.trailerLen_le
  unfold encodedSize
  omega

/-- Header, fields and trailer, wherever a header of one of the three forms ends. -/
theorem toNat_messageLenWord (s : Schema) {bodyStart : Nat} (h : bodyStart ≤ 5) :
    (s.messageLenWord bodyStart.toUInt64).toNat = bodyStart + s.bodyLen + s.trailerLen := by
  have hbody := s.bodyLen_le_max
  have hmax : maxElements = 4294967295 := rfl
  have hsize : UInt64.size = 18446744073709551616 := rfl
  have htrailer := s.trailerLen_le
  have hword : s.bodyLenWord.toNat = s.bodyLen := by
    apply toNat_wordSum
    · intro f hf
      exact f.toNat_encodedLenWord
    · change s.bodyLen < UInt64.size
      omega
  rw [messageLenWord, UInt64.toNat_add, UInt64.toNat_add, hword, toNat_toUInt64 (by omega),
    toNat_toUInt64 (by omega)]
  omega

theorem toNat_encodedSizeWord (s : Schema) : s.encodedSizeWord.toNat = s.encodedSize :=
  s.toNat_messageLenWord (ArrayHeader.encodedLen_le _)

end Schema

/-- The first field whose name an earlier field has: no two fields before it share a name. -/
theorem repeatedName?_eq_some_iff {seen : List String} {fields : List Field} {name : String} :
    repeatedName? seen fields = some name ↔
      ∃ before f after, fields = before ++ f :: after ∧ f.name = name ∧
        (∀ g ∈ before, g.name ∉ seen) ∧ (before.map Field.name).Nodup ∧
        (name ∈ seen ∨ name ∈ before.map Field.name) := by
  induction fields generalizing seen with
  | nil => simp [repeatedName?]
  | cons f rest ih =>
    rw [repeatedName?]
    split
    · rename_i hseen
      constructor
      · intro h
        cases h
        exact ⟨[], f, rest, rfl, rfl, List.forall_mem_nil _, List.nodup_nil, .inl hseen⟩
      · rintro ⟨before, g, after, hsplit, rfl, hfresh, -, -⟩
        cases before with
        | nil =>
          cases hsplit
          rfl
        | cons b before =>
          cases hsplit
          exact absurd hseen (hfresh f List.mem_cons_self)
    · rename_i hnew
      rw [ih]
      constructor
      · rintro ⟨before, g, after, rfl, hname, hfresh, hnodup, hrepeated⟩
        refine ⟨f :: before, g, after, rfl, hname, ?_, ?_, ?_⟩
        · intro h hh
          rcases List.mem_cons.mp hh with rfl | hh
          · exact hnew
          · exact fun hseen => hfresh h hh (List.mem_cons_of_mem _ hseen)
        · rw [List.map_cons, List.nodup_cons]
          refine ⟨?_, hnodup⟩
          intro hmem
          obtain ⟨h, hh, hsame⟩ := List.mem_map.mp hmem
          exact hfresh h hh (hsame ▸ List.mem_cons_self)
        · rw [List.map_cons, List.mem_cons]
          rw [List.mem_cons] at hrepeated
          tauto
      · rintro ⟨before, g, after, hsplit, rfl, hfresh, hnodup, hrepeated⟩
        cases before with
        | nil =>
          cases hsplit
          exact absurd hrepeated (by simp [hnew])
        | cons b before =>
          cases hsplit
          rw [List.map_cons, List.nodup_cons] at hnodup
          rw [List.map_cons, List.mem_cons] at hrepeated
          refine ⟨before, g, after, rfl, rfl, ?_, hnodup.2, ?_⟩
          · intro h hh hseen
            rcases List.mem_cons.mp hseen with hsame | hseen
            · exact hnodup.1 (hsame ▸ List.mem_map_of_mem hh)
            · exact hfresh h (List.mem_cons_of_mem _ hh) hseen
          · rw [List.mem_cons]
            tauto

namespace Schema

/- The causes for which fields make no schema. None of them looks at the others. -/

/-- An earlier field has the name of `f`, and no field before `f` has a name twice. -/
def RepeatedName (message : String) (fields : List Field) (e : SchemaError) : Prop :=
  ∃ before f after, fields = before ++ f :: after ∧ f.name ∈ before.map Field.name ∧
    (before.map Field.name).Nodup ∧ e = .duplicateField message f.name

def TooManyElements (message : String) (fields : List Field) (e : SchemaError) : Prop :=
  maxElements < (fields.map Field.count).sum ∧
    e = .tooManyElements message (fields.map Field.count).sum

def NoFields (message : String) (fields : List Field) (e : SchemaError) : Prop :=
  fields = [] ∧ e = .emptyMessage message

theorem repeatedName_iff {message : String} {fields : List Field} {e : SchemaError} :
    RepeatedName message fields e ↔
      ∃ name, repeatedName? [] fields = some name ∧ e = .duplicateField message name := by
  simp only [repeatedName?_eq_some_iff]
  constructor
  · rintro ⟨before, f, after, hsplit, hmem, hnodup, rfl⟩
    exact ⟨f.name, ⟨before, f, after, hsplit, rfl, fun _ _ => List.not_mem_nil, hnodup, .inr hmem⟩,
      rfl⟩
  · rintro ⟨name, ⟨before, f, after, hsplit, rfl, -, hnodup, hmem⟩, rfl⟩
    exact ⟨before, f, after, hsplit, hmem.resolve_left List.not_mem_nil, hnodup, rfl⟩

theorem elementTotal_eq_zero_iff {fields : List Field} :
    elementTotal fields = 0 ↔ fields = [] := by
  cases fields with
  | nil => exact iff_of_true rfl rfl
  | cons f rest =>
    have hpos := f.count_pos
    refine iff_of_false ?_ (List.cons_ne_nil _ _)
    simp only [elementTotal, List.map_cons, List.sum_cons]
    omega

theorem fields_ne_nil (s : Schema) : s.fields ≠ [] := by
  intro hnil
  exact Nat.ne_of_gt s.elements_pos (elementTotal_eq_zero_iff.mpr hnil)

theorem reports_ofFields (message : String) (version : UInt32) (fields : List Field)
    (checksum : Bool) :
    Reports (ofFields message version fields checksum)
      [RepeatedName message fields, TooManyElements message fields, NoFields message fields] := by
  unfold ofFields
  split
  · rename_i name hrepeated
    refine .here fun e => ?_
    rw [repeatedName_iff, hrepeated]
    simp
  · rename_i hdistinct
    refine .skip ?_ ?_
    · intro e he
      obtain ⟨name, hname, -⟩ := repeatedName_iff.mp he
      rw [hdistinct] at hname
      cases hname
    split
    · rename_i hmany
      exact .here fun e => and_iff_right hmany
    · rename_i hfew
      refine .skip (fun e he => hfew he.1) ?_
      split
      · rename_i hzero
        exact .here fun e => and_iff_right (elementTotal_eq_zero_iff.mp hzero)
      · rename_i hsome
        exact .skip (fun e he => hsome (elementTotal_eq_zero_iff.mpr he.1)) (.ok _)

theorem eq_of_parts {s t : Schema} (hname : s.name = t.name) (hversion : s.version = t.version)
    (hchecksum : s.appendChecksum = t.appendChecksum) (hfields : s.fields = t.fields) : s = t := by
  cases s
  cases t
  cases hname
  cases hversion
  cases hchecksum
  cases hfields
  rfl

section

variable {message : String} {version : UInt32} {fields : List Field} {checksum : Bool} {s : Schema}

theorem parts_of_ofFields (h : ofFields message version fields checksum = .ok s) :
    s.name = message ∧ s.version = version ∧ s.appendChecksum = checksum ∧ s.fields = fields := by
  unfold ofFields at h
  split at h
  · cases h
  · split at h
    · cases h
    · split at h
      · cases h
      · cases h
        exact ⟨rfl, rfl, rfl, rfl⟩

theorem exists_ofFields_iff :
    (∃ s, ofFields message version fields checksum = .ok s) ↔
      fields ≠ [] ∧ (fields.map Field.name).Nodup ∧ (fields.map Field.count).sum ≤ maxElements := by
  constructor
  · rintro ⟨s, hs⟩
    obtain ⟨-, -, -, rfl⟩ := parts_of_ofFields hs
    exact ⟨s.fields_ne_nil, s.nodup, s.elements_le⟩
  · rintro ⟨hne, hnodup, hle⟩
    cases h : ofFields message version fields checksum with
    | ok s => exact ⟨s, rfl⟩
    | error e =>
      -- each of the three causes is excluded by one of the three conditions
      rcases (reports_ofFields _ _ _ _ e).mp h with hrepeated | ⟨-, hmany | ⟨-, hnone | ⟨-, hfalse⟩⟩⟩
      · obtain ⟨before, f, after, rfl, hmem, -, -⟩ := hrepeated
        rw [List.map_append, List.nodup_append] at hnodup
        exact absurd rfl (hnodup.2.2 _ hmem _ (List.mem_map_of_mem List.mem_cons_self))
      · exact absurd hmany.1 (Nat.not_lt.mpr hle)
      · exact absurd hnone.1 hne
      · exact hfalse.elim

theorem ofFields_eq_ok_iff :
    ofFields message version fields checksum = .ok s ↔
      s.name = message ∧ s.version = version ∧ s.appendChecksum = checksum ∧ s.fields = fields := by
  refine ⟨parts_of_ofFields, ?_⟩
  rintro ⟨rfl, rfl, rfl, rfl⟩
  obtain ⟨t, ht⟩ := exists_ofFields_iff.mpr ⟨s.fields_ne_nil, s.nodup, s.elements_le⟩
  obtain ⟨hname, hversion, hchecksum, hfields⟩ := parts_of_ofFields ht
  rw [ht, eq_of_parts hname hversion hchecksum hfields]

end

theorem field?_eq_none {s : Schema} {name : String} (h : name ∉ s.fields.map Field.name) :
    s.field? name = none := by
  rw [Option.eq_none_iff_forall_ne_some]
  rintro ⟨i, f⟩ hf
  obtain ⟨hget, rfl⟩ := field?_eq_some_iff.mp hf
  exact h (List.mem_map_of_mem (List.mem_of_getElem? hget))

/-- Fields make a schema exactly if there are some, no name is repeated and a header can carry the
number of their elements; otherwise the first of the three faults is reported. The schema has these
fields, finds each by its name, and its sizes are the same in 64-bit words as they are exactly. -/
theorem ofFields_sound_and_sized (message : String) (version : UInt32) (fields : List Field)
    (checksum : Bool) :
    ((∃ s, ofFields message version fields checksum = .ok s) ↔
      fields ≠ [] ∧ (fields.map Field.name).Nodup ∧
        (fields.map Field.count).sum ≤ maxElements) ∧
    (∀ e, ofFields message version fields checksum = .error e ↔
      FirstOf [RepeatedName message fields, TooManyElements message fields,
        NoFields message fields] e) ∧
    (fields.length ≤ maxElements →
      (elementTotalWord fields).toNat = (fields.map Field.count).sum) ∧
    ∀ s, ofFields message version fields checksum = .ok s →
      (s.name = message ∧ s.version = version ∧ s.appendChecksum = checksum ∧
        s.fields = fields) ∧
      s.elementCount = (fields.map Field.count).sum ∧ 1 ≤ s.elementCount ∧
      (∀ i f, fields[i]? = some f → s.field? f.name = some (i, f)) ∧
      (∀ name, name ∉ fields.map Field.name → s.field? name = none) ∧
      (∀ f ∈ fields, f.encodedLenWord.toNat = f.kind.encodedLen * f.count) ∧
      s.encodedSizeWord.toNat = s.encodedSize ∧ s.encodedSize ≤ 9 * maxElements + 8 ∧
      ∀ input bodyStart, ArrayHeader.expectAt input 0 s.headerLength = .ok bodyStart →
        (s.messageLenWord bodyStart.toUInt64).toNat = bodyStart + s.bodyLen + s.trailerLen := by
  refine ⟨exists_ofFields_iff, reports_ofFields message version fields checksum,
    toNat_elementTotalWord, ?_⟩
  intro s hs
  obtain ⟨hname, hversion, hchecksum, rfl⟩ := parts_of_ofFields hs
  refine ⟨⟨hname, hversion, hchecksum, rfl⟩, rfl, s.elements_pos, ?_, fun name => field?_eq_none,
    fun f _ => f.toNat_encodedLenWord, s.toNat_encodedSizeWord, s.encodedSize_le, ?_⟩
  · intro i f hf
    exact field?_eq_some_iff.mpr ⟨hf, rfl⟩
  · intro input bodyStart hheader
    obtain ⟨header, tail, hannounces, -, rfl⟩ := ArrayHeader.expectAt_eq_ok_iff.mp hheader
    rw [Nat.zero_add]
    exact s.toNat_messageLenWord hannounces.length_le

end Schema

end TaggedWire
