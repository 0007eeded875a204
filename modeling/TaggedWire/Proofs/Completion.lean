import TaggedWire.Proofs.Assignment

/-!
Builders after any requests, accepted or refused. Main statement: once every field has values, they
are values that the fields can have, and building gives the canonical message.
-/
namespace TaggedWire.Builder

/-- The builder after requests in order; a refused one leaves it as it was. -/
def run (b : Builder) (ops : List Op) : Builder :=
  ops.foldl (fun b op => (b.step op).1) b

/-- The schema has a field of the requested name, and this field can hold the values. -/
def Op.Admissible (s : Schema) (op : Op) : Prop :=
  ∃ f ∈ s.fields, f.name = op.request.1 ∧ f.Holds op.request.2

instance (s : Schema) (op : Op) : Decidable (op.Admissible s) :=
  inferInstanceAs (Decidable (∃ f ∈ s.fields, f.name = op.request.1 ∧ f.Holds op.request.2))

/-- A request gives one field its values, or it is refused. -/
theorem step_cases (b : Builder) (op : Op) :
    (∃ i f, b.schema.fields[i]? = some f ∧ f.name = op.request.1 ∧ f.Holds op.request.2 ∧
      b.step op = ({ b with values := b.values.set i (some op.request.2) }, .ok ())) ∨
    ¬ op.Admissible b.schema ∧ ∃ e, b.step op = (b, .error e) := by
  rw [step, Op.run_eq]
  cases hfield : b.schema.field? op.request.1 with
  | none =>
    refine .inr ⟨?_, _, outcome_setValues_of_none hfield⟩
    rintro ⟨f, hf, hname, -⟩
    obtain ⟨i, hi⟩ := List.mem_iff_getElem?.mp hf
    rw [Schema.field?_eq_some_iff.mpr ⟨hi, hname⟩] at hfield
    cases hfield
  | some p =>
    obtain ⟨hf, hname⟩ := Schema.field?_eq_some_iff.mp hfield
    cases hjudge : judge op.request.1 p.2 op.request.2 with
    | ok _ =>
      exact .inl ⟨p.1, p.2, hf, hname, judge_eq_ok_iff.mp hjudge,
        outcome_setValues_of_ok hfield hjudge⟩
    | error e =>
      refine .inr ⟨?_, e, outcome_setValues_of_error hfield hjudge⟩
      rintro ⟨g, hg, hname', hholds⟩
      obtain ⟨i, hi⟩ := List.mem_iff_getElem?.mp hg
      obtain rfl := Schema.index_unique hf hi (hname.trans hname'.symm)
      rw [hf, Option.some.injEq] at hi
      rw [hi, judge_eq_ok_iff.mpr hholds] at hjudge
      cases hjudge

/-- What a builder of the schema `s` keeps, whatever it is asked. -/
structure Consistent (s : Schema) (b : Builder) : Prop where
  schema_eq : b.schema = s
  length_eq : b.values.length = s.fields.length
  holds : ∀ (i : Nat) (f : Field) (vs : List Value), s.fields[i]? = some f →
    b.values[i]? = some (some vs) → f.Holds vs

theorem consistent_new (s : Schema) : Consistent s (new s) := by
  refine ⟨rfl, List.length_map _, ?_⟩
  intro i f vs hf hvs
  rw [new, List.getElem?_map, hf] at hvs
  cases hvs

theorem Consistent.step {s : Schema} {b : Builder} (h : Consistent s b) (op : Op) :
    Consistent s (b.step op).1 := by
  obtain ⟨i, f, hf, -, hholds, hstep⟩ | ⟨-, e, hstep⟩ := step_cases b op
  · rw [hstep]
    refine ⟨h.schema_eq, ?_, ?_⟩
    · rw [List.length_set]
      exact h.length_eq
    · intro k g vs hg hvs
      rw [h.schema_eq] at hf
      -- only the place of the named field changes, and its new values were judged
      by_cases hik : i = k
      · subst hik
        have hi : i < b.values.length := h.length_eq ▸ (List.getElem?_eq_some_iff.mp hf).1
        rw [List.getElem?_set_self hi] at hvs
        cases hvs
        rw [hf] at hg
        cases hg
        exact hholds
      · rw [List.getElem?_set_ne hik] at hvs
        exact h.holds k g vs hg hvs
  · rw [hstep]
    exact h

theorem Consistent.run {s : Schema} {b : Builder} (h : Consistent s b) (ops : List Op) :
    Consistent s (b.run ops) := by
  induction ops generalizing b with
  | nil => exact h
  | cons op ops ih => exact ih (h.step op)

theorem Consistent.exists_values {s : Schema} {b : Builder} (h : Consistent s b)
    (hcomplete : b.isComplete = true) :
    ∃ given, b.values = given.map some ∧ List.Forall₂ Field.Holds s.fields given := by
  obtain ⟨given, hgiven⟩ : ∃ given : List (List Value), b.values = given.map some := by
    refine ⟨b.values.map (·.getD []), ?_⟩
    rw [List.map_map]
    refine (List.map_id _).symm.trans (List.map_congr_left ?_)
    intro v hv
    obtain ⟨vs, rfl⟩ := Option.isSome_iff_exists.mp (List.all_eq_true.mp hcomplete v hv)
    rfl
  have hlen : s.fields.length = given.length := by
    rw [← h.length_eq, hgiven, List.length_map]
  refine ⟨given, hgiven, List.forall₂_iff_get.mpr ⟨hlen, ?_⟩⟩
  intro i hi hi'
  refine h.holds i _ _ (List.getElem?_eq_getElem hi) ?_
  rw [hgiven, List.getElem?_map, List.getElem?_eq_getElem hi']
  rfl

/-- A builder that has a value for every field builds, and it builds the canonical message. -/
theorem build_of_complete {s : Schema} {ops : List Op}
    (hcomplete : ((new s).run ops).isComplete = true) :
    ∃ given, ((new s).run ops).values = given.map some ∧
      List.Forall₂ Field.Holds s.fields given ∧
      ((new s).run ops).build =
        .ok ⟨(Parts.canonical s given).message, (Parts.canonical s given).checksum⟩ := by
  have hconsistent := (consistent_new s).run ops
  obtain ⟨given, hvalues, hgiven⟩ := hconsistent.exists_values hcomplete
  have hbuild := build_of_values hvalues (hconsistent.schema_eq.symm ▸ hgiven)
  rw [hconsistent.schema_eq] at hbuild
  exact ⟨given, hvalues, hgiven, hbuild⟩

end TaggedWire.Builder
