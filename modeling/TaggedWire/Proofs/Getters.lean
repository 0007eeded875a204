import Mathlib.Data.List.Nodup
import TaggedWire.Proofs.LastWrite
import TaggedWire.Proofs.RoundTrip

/-!
Decoded messages and the values taken from them by name. A decoded message has the fields of its
schema, each with as many values as it counts and all of its kind. Main statement: a field answers
in its own kind and in no other, with all its values; and after a round trip these are the values
that the builder was last given.
-/
namespace TaggedWire

/-- A name says which field is meant. -/
theorem Schema.exists_named_iff {s : Schema} {f : Field} (hf : f ∈ s.fields) {P : Field → Prop} :
    (∃ g ∈ s.fields, g.name = f.name ∧ P g) ↔ P f := by
  constructor
  · rintro ⟨g, hg, hname, hP⟩
    rwa [← List.inj_on_of_nodup_map s.nodup hg hf hname]
  · intro hP
    exact ⟨f, hf, rfl, hP⟩

theorem Schema.map_field_decodedFields {fields : List Field} {given : List (List Value)}
    (h : List.Forall₂ Field.Holds fields given) :
    (decodedFields fields given).map DecodedField.field = fields := by
  induction h with
  | nil => rfl
  | cons _ _ ih => exact congrArg (List.cons _) ih

theorem Schema.holds_of_mem_decodedFields {fields : List Field} {given : List (List Value)}
    (h : List.Forall₂ Field.Holds fields given) :
    ∀ f ∈ decodedFields fields given, f.field.Holds f.values := by
  induction h with
  | nil =>
    intro f hf
    cases hf
  | cons hhead _ ih =>
    intro f hf
    rcases List.mem_cons.mp hf with rfl | hf
    · exact hhead
    · exact ih f hf

theorem Field.Holds.values_ne_nil {f : Field} {vs : List Value} (h : f.Holds vs) : vs ≠ [] :=
  List.ne_nil_of_length_pos (h.length_eq ▸ f.count_pos)

theorem Value.exists_native {k : Kind} {v : Value} (h : v.kind = k) :
    ∃ n : k.Native, v = ofNative k n := by
  subst h
  exact v.exists_ofNative

/-- Values of one kind are native values of it. -/
theorem Value.exists_natives {k : Kind} {vs : List Value} (h : ∀ v ∈ vs, v.kind = k) :
    ∃ ns : List k.Native, vs = ns.map (ofNative k) := by
  induction vs with
  | nil => exact ⟨[], rfl⟩
  | cons v vs ih =>
    obtain ⟨ns, rfl⟩ := ih fun w hw => h w (List.mem_cons_of_mem v hw)
    obtain ⟨n, rfl⟩ := exists_native (h v List.mem_cons_self)
    exact ⟨n :: ns, rfl⟩

theorem Field.Holds.kind_of_map {f : Field} {k : Kind} {ns : List k.Native}
    (h : f.Holds (ns.map (Value.ofNative k))) : f.kind = k := by
  obtain ⟨v, hv⟩ := List.exists_mem_of_ne_nil _ h.values_ne_nil
  obtain ⟨n, -, rfl⟩ := List.mem_map.mp hv
  rw [← h.kind_eq _ hv, Value.kind_ofNative]

namespace Decoded

theorem convert_ofNative (f : DecodedField) (k : Kind) (n : k.Native) :
    convert f k (Value.ofNative k n) = .ok n := by
  rw [convert, Value.as?_ofNative]

theorem mapM_convert (f : DecodedField) (k : Kind) (ns : List k.Native) :
    (ns.map (Value.ofNative k)).mapM (convert f k) = .ok ns := by
  induction ns with
  | nil => rfl
  | cons n ns ih =>
    rw [List.map_cons, List.mapM_cons, convert_ofNative, ih]
    rfl

theorem getters_of_fieldOfKind_error {d : Decoded} {name : String} {k : Kind} {e : WireError}
    (h : d.fieldOfKind name k = .error e) :
    d.getAs name k = .error e ∧ d.getManyAs name k = .error e := by
  rw [getAs, getManyAs, h]
  exact ⟨rfl, rfl⟩

/-- The fields of a schema, in order, with values that they can have. -/
structure Mirrors (s : Schema) (d : Decoded) : Prop where
  schema_eq : d.schema = s
  fields_eq : d.fields.map DecodedField.field = s.fields
  holds : ∀ f ∈ d.fields, f.field.Holds f.values

theorem mirrors_of_parse {s : Schema} {c : Config} {input : Bytes} {d : Decoded}
    (h : s.parse c input = .ok d) : Mirrors s d := by
  obtain ⟨-, p, hp, -, rfl⟩ := Schema.parse_eq_ok_iff.mp h
  exact ⟨rfl, Schema.map_field_decodedFields hp.values,
    Schema.holds_of_mem_decodedFields hp.values⟩

/-- What is answered when a field is asked for in the kind `k`: for its only value, and for all of
its values. -/
inductive Answers (s : Schema) (d : Decoded) (name : String) (k : Kind) :
    Except WireError k.Native → Except WireError (List k.Native) → Prop
  | unknown : (∀ f ∈ s.fields, f.name ≠ name) →
      Answers s d name k (.error (.unknownField name s.name)) (.error (.unknownField name s.name))
  | otherKind (f : Field) : f ∈ s.fields → f.name = name → f.kind ≠ k →
      Answers s d name k (.error (.kindMismatch name f.kind k))
        (.error (.kindMismatch name f.kind k))
  | several (f : Field) (ns : List k.Native) : f ∈ s.fields → f.name = name → f.kind = k →
      f.count ≠ 1 → ⟨f, ns.map (Value.ofNative k)⟩ ∈ d.fields →
      Answers s d name k (.error (.elementCountMismatch name 1 f.count)) (.ok ns)
  | single (f : Field) (n : k.Native) : f ∈ s.fields → f.name = name → f.kind = k →
      f.count = 1 → ⟨f, [n].map (Value.ofNative k)⟩ ∈ d.fields →
      Answers s d name k (.ok n) (.ok [n])

namespace Mirrors

variable {s : Schema} {d : Decoded} {name : String} {k : Kind}

theorem field_mem (h : Mirrors s d) {f : DecodedField} (hf : f ∈ d.fields) :
    f.field ∈ s.fields := by
  rw [← h.fields_eq]
  exact List.mem_map_of_mem hf

theorem exists_values (h : Mirrors s d) {f : Field} (hf : f ∈ s.fields) :
    ∃ vs, ⟨f, vs⟩ ∈ d.fields := by
  rw [← h.fields_eq] at hf
  obtain ⟨g, hg, rfl⟩ := List.mem_map.mp hf
  exact ⟨g.values, hg⟩

theorem field?_of_mem (h : Mirrors s d) {f : DecodedField} (hf : f ∈ d.fields) :
    d.field? f.field.name = some f := by
  cases hfound : d.field? f.field.name with
  | none => exact absurd (beq_self_eq_true f.field.name) (List.find?_eq_none.mp hfound f hf)
  | some g =>
    have hg : g ∈ d.fields := List.mem_of_find?_eq_some hfound
    have hname : g.field.name = f.field.name := by simpa using List.find?_some hfound
    -- names are not repeated in the schema, so neither are they here
    have hnodup : (d.fields.map fun f => f.field.name).Nodup := by
      have hnames := s.nodup
      rwa [← h.fields_eq, List.map_map] at hnames
    rw [List.inj_on_of_nodup_map hnodup hg hf hname]

theorem field?_eq_none (h : Mirrors s d) (hname : ∀ f ∈ s.fields, f.name ≠ name) :
    d.field? name = none := by
  rw [field?, List.find?_eq_none]
  intro f hf hbeq
  exact hname f.field (h.field_mem hf) (beq_iff_eq.mp hbeq)

theorem fieldOfKind_of_mem (h : Mirrors s d) {f : DecodedField} (hf : f ∈ d.fields) :
    d.fieldOfKind f.field.name k =
      if f.field.kind = k then .ok f else .error (.kindMismatch f.field.name f.field.kind k) := by
  rw [fieldOfKind, h.field?_of_mem hf]

theorem getManyAs_of_mem (h : Mirrors s d) {f : Field} {ns : List k.Native}
    (hf : ⟨f, ns.map (Value.ofNative k)⟩ ∈ d.fields) : d.getManyAs f.name k = .ok ns := by
  have hkind : f.kind = k := (h.holds _ hf).kind_of_map
  rw [getManyAs, h.fieldOfKind_of_mem hf, if_pos hkind]
  exact mapM_convert _ k ns

theorem getAs_of_mem (h : Mirrors s d) {f : Field} {n : k.Native}
    (hf : ⟨f, [n].map (Value.ofNative k)⟩ ∈ d.fields) : d.getAs f.name k = .ok n := by
  have hkind : f.kind = k := (h.holds _ hf).kind_of_map
  rw [getAs, h.fieldOfKind_of_mem hf, if_pos hkind]
  exact convert_ofNative _ k n

theorem getAs_of_several (h : Mirrors s d) {f : DecodedField} (hf : f ∈ d.fields)
    (hkind : f.field.kind = k) (hcount : f.field.count ≠ 1) :
    d.getAs f.field.name k = .error (.elementCountMismatch f.field.name 1 f.field.count) := by
  have hlen := (h.holds f hf).length_eq
  obtain ⟨v, w, vs, hvs⟩ : ∃ v w vs, f.values = v :: w :: vs := by
    match hvs : f.values with
    | [] => exact absurd hvs (h.holds f hf).values_ne_nil
    | [v] => rw [← hlen, hvs] at hcount; exact absurd rfl hcount
    | v :: w :: vs => exact ⟨v, w, vs, rfl⟩
  rw [getAs, h.fieldOfKind_of_mem hf, if_pos hkind, ← hlen, hvs]
  simp only [bind, Except.bind, hvs]
  rfl

theorem answers (h : Mirrors s d) (name : String) (k : Kind) :
    Answers s d name k (d.getAs name k) (d.getManyAs name k) := by
  by_cases hknown : ∃ f ∈ s.fields, f.name = name
  · obtain ⟨f, hf, rfl⟩ := hknown
    obtain ⟨vs, hvs⟩ := h.exists_values hf
    have hholds : f.Holds vs := h.holds _ hvs
    by_cases hkind : f.kind = k
    · obtain ⟨ns, rfl⟩ := Value.exists_natives fun v hv => (hholds.kind_eq v hv).trans hkind
      rw [h.getManyAs_of_mem hvs]
      by_cases hcount : f.count = 1
      · obtain ⟨n, rfl⟩ : ∃ n, ns = [n] := by
          rw [← List.length_eq_one_iff, ← hcount, ← hholds.length_eq, List.length_map]
        rw [h.getAs_of_mem hvs]
        exact .single f n hf rfl hkind hcount hvs
      · rw [h.getAs_of_several hvs hkind hcount]
        exact .several f ns hf rfl hkind hcount hvs
    · have herror : d.fieldOfKind f.name k = .error (.kindMismatch f.name f.kind k) := by
        rw [h.fieldOfKind_of_mem hvs, if_neg hkind]
      obtain ⟨hone, hmany⟩ := getters_of_fieldOfKind_error herror
      rw [hone, hmany]
      exact .otherKind f hf rfl hkind
  · have hnone : ∀ f ∈ s.fields, f.name ≠ name := fun f hf hname => hknown ⟨f, hf, hname⟩
    have herror : d.fieldOfKind name k = .error (.unknownField name s.name) := by
      rw [fieldOfKind, h.field?_eq_none hnone, h.schema_eq]
    obtain ⟨hone, hmany⟩ := getters_of_fieldOfKind_error herror
    rw [hone, hmany]
    exact .unknown hnone

end Mirrors

namespace Answers

variable {s : Schema} {d : Decoded} {name : String} {k : Kind}
  {one : Except WireError k.Native} {many : Except WireError (List k.Native)}

theorem many_iff (h : Answers s d name k one many) :
    (∃ ns, many = .ok ns) ↔ ∃ f ∈ s.fields, f.name = name ∧ f.kind = k := by
  cases h with
  | unknown hnone =>
    refine iff_of_false (by simp) ?_
    rintro ⟨f, hf, hname, -⟩
    exact hnone f hf hname
  | otherKind f hf hname hkind =>
    subst hname
    exact iff_of_false (by simp) (mt (Schema.exists_named_iff hf).mp hkind)
  | several f ns hf hname hkind => exact iff_of_true ⟨ns, rfl⟩ ⟨f, hf, hname, hkind⟩
  | single f n hf hname hkind => exact iff_of_true ⟨[n], rfl⟩ ⟨f, hf, hname, hkind⟩

theorem one_iff (h : Answers s d name k one many) :
    (∃ n, one = .ok n) ↔ ∃ f ∈ s.fields, f.name = name ∧ f.kind = k ∧ f.count = 1 := by
  cases h with
  | unknown hnone =>
    refine iff_of_false (by simp) ?_
    rintro ⟨f, hf, hname, -⟩
    exact hnone f hf hname
  | otherKind f hf hname hkind =>
    subst hname
    exact iff_of_false (by simp) (mt (Schema.exists_named_iff hf).mp fun h => hkind h.1)
  | several f ns hf hname hkind hcount =>
    subst hname
    exact iff_of_false (by simp) (mt (Schema.exists_named_iff hf).mp fun h => hcount h.2)
  | single f n hf hname hkind hcount => exact iff_of_true ⟨n, rfl⟩ ⟨f, hf, hname, hkind, hcount⟩

end Answers

end Decoded

namespace Builder

variable {s : Schema} {name : String}

theorem lastGiven_append {pre ops : List Op} {vs : List Value}
    (h : lastGiven s name ops = some vs) : lastGiven s name (pre ++ ops) = some vs := by
  induction pre with
  | nil => exact h
  | cons op pre ih =>
    rw [List.cons_append]
    by_cases hop : op.request.1 = name ∧ op.Admissible s
    · rw [lastGiven_cons_of_given hop, ih, Option.some_or]
    · rw [lastGiven_cons_of_not hop, ih]

/-- What was given before an accepted request does not count, and neither do refused requests after
it. -/
theorem lastGiven_of_last {pre post : List Op} {op : Op} (hop : op.Admissible s)
    (hpost : ∀ other ∈ post, other.request.1 = op.request.1 → ¬ other.Admissible s) :
    lastGiven s op.request.1 (pre ++ op :: post) = some op.request.2 := by
  have hnone : lastGiven s op.request.1 post = none := by
    rw [← Option.not_isSome_iff_eq_none, isSome_lastGiven_iff]
    rintro ⟨other, hother, hname, hadmissible⟩
    exact hpost other hother hname hadmissible
  apply lastGiven_append
  rw [lastGiven_cons_of_given ⟨rfl, hop⟩, hnone, Option.none_or]

/-- The message of a complete builder is parsed into what each field was last given. -/
theorem parse_build {c : Config} {ops : List Op}
    (hcomplete : ((new s).run ops).isComplete = true) (hlimit : c.Permits s.encodedSize) :
    ∃ built d, ((new s).run ops).build = .ok built ∧ s.parse c built.bytes = .ok d ∧
      ∀ f ∈ s.fields, ∀ vs, lastGiven s f.name ops = some vs → ⟨f, vs⟩ ∈ d.fields := by
  obtain ⟨given, hvalues, hgiven, hbuild⟩ := build_of_complete hcomplete
  have hpermits : c.Permits (Parts.canonical s given).message.length := by
    rwa [Parts.length_canonical hgiven]
  have hparse := Schema.parse_eq_ok_iff.mpr ⟨hpermits, Parts.canonical s given,
    Parts.canonical_admitted hgiven, Parts.bytes_canonical s given, rfl⟩
  refine ⟨_, _, hbuild, hparse, ?_⟩
  intro f hf vs hvs
  obtain ⟨i, hi⟩ := List.mem_iff_getElem?.mp hf
  have hsome : (given.map some)[i]? = some (some vs) := by
    rw [← hvalues, run_eq, List.getElem?_map, hi, Option.map_some, hvs]
  rw [List.getElem?_map, Option.map_eq_some_iff] at hsome
  obtain ⟨_, hgot, ⟨⟩⟩ := hsome
  refine List.mem_of_getElem? (i := i) ?_
  exact List.getElem?_zipWith_eq_some.mpr ⟨f, vs, hi, hgot, rfl⟩

end Builder

/-- A decoded message has one entry for each field of its schema, in order, with as many values as
the field counts, at least one, all of its kind. For every name and kind the getters answer from the
values of the field, or report the first of the faults: no such field, another kind, more values
than the one that was asked for. What a complete builder was last given for a field, the message
that it builds answers bit for bit. -/
theorem Schema.getters_mirror (s : Schema) (c : Config) :
    (∀ input d, s.parse c input = .ok d →
      d.fields.map DecodedField.field = s.fields ∧
      (∀ f ∈ d.fields, 1 ≤ f.field.count ∧ f.values.length = f.field.count ∧
        (∃ v, f.values[0]? = some v) ∧
        ∀ v ∈ f.values, v.kind = f.field.kind ∧
          ∃ n, Decoded.convert f f.field.kind v = .ok n ∧ v = Value.ofNative f.field.kind n) ∧
      ∀ name k,
        ((∃ ns, d.getManyAs name k = .ok ns) ↔ ∃ f ∈ s.fields, f.name = name ∧ f.kind = k) ∧
        ((∃ n, d.getAs name k = .ok n) ↔
          ∃ f ∈ s.fields, f.name = name ∧ f.kind = k ∧ f.count = 1) ∧
        Decoded.Answers s d name k (d.getAs name k) (d.getManyAs name k)) ∧
    ∀ ops : List Builder.Op, ((Builder.new s).run ops).isComplete = true →
      c.Permits s.encodedSize →
      ∃ built d, ((Builder.new s).run ops).build = .ok built ∧ s.parse c built.bytes = .ok d ∧
        ∀ pre post name k ns, ops = pre ++ .setMany name k ns :: post →
          (Builder.Op.setMany name k ns).Admissible s →
          (∀ op ∈ post, op.request.1 = name → ¬ op.Admissible s) →
          d.getManyAs name k = .ok ns := by
  refine ⟨?_, ?_⟩
  · intro input d hparse
    have h := Decoded.mirrors_of_parse hparse
    refine ⟨h.fields_eq, ?_, ?_⟩
    · intro f hf
      have hholds := h.holds f hf
      refine ⟨f.field.count_pos, hholds.length_eq, ?_, ?_⟩
      · rw [← List.head?_eq_getElem?]
        exact ⟨_, List.head?_eq_some_head hholds.values_ne_nil⟩
      · intro v hv
        have hkind := hholds.kind_eq v hv
        obtain ⟨n, rfl⟩ := Value.exists_native hkind
        exact ⟨hkind, n, Decoded.convert_ofNative f _ n, rfl⟩
    · intro name k
      have hanswers := h.answers name k
      exact ⟨hanswers.many_iff, hanswers.one_iff, hanswers⟩
  · intro ops hcomplete hlimit
    obtain ⟨built, d, hbuild, hparse, hgiven⟩ := Builder.parse_build hcomplete hlimit
    refine ⟨built, d, hbuild, hparse, ?_⟩
    rintro pre post name k ns rfl hop hpost
    obtain ⟨f, hf, rfl, -⟩ := id hop
    exact (Decoded.mirrors_of_parse hparse).getManyAs_of_mem
      (hgiven f hf _ (Builder.lastGiven_of_last hop hpost))

end TaggedWire
