import TaggedWire.Proofs.Writing

/-!
Requests to a builder. Names lead to fields one by one, because a schema repeats none; a request is
accepted exactly when its field can hold its values. Main statement: requests that name every field
with its values, in whatever order, all succeed and leave just these values.
-/
namespace TaggedWire

theorem Schema.index_unique {s : Schema} {i j : Nat} {f g : Field} (hf : s.fields[i]? = some f)
    (hg : s.fields[j]? = some g) (hname : f.name = g.name) : i = j := by
  have hi : i < (s.fields.map Field.name).length := by
    rw [List.length_map]
    exact (List.getElem?_eq_some_iff.mp hf).1
  apply (List.getElem?_inj hi s.nodup).mp
  rw [List.getElem?_map, List.getElem?_map, hf, hg, Option.map_some, Option.map_some, hname]

theorem Schema.field?_eq_some_iff {s : Schema} {name : String} {i : Nat} {f : Field} :
    s.field? name = some (i, f) ↔ s.fields[i]? = some f ∧ f.name = name := by
  constructor
  · intro h
    obtain ⟨p, hp, hpair⟩ := Option.map_eq_some_iff.mp h
    cases hpair
    have hname := List.find?_some hp
    exact ⟨List.mem_zipIdx_iff_getElem?.mp (List.mem_of_find?_eq_some hp), beq_iff_eq.mp hname⟩
  · rintro ⟨hf, rfl⟩
    cases hfind : s.fields.zipIdx.find? (fun p => p.1.name == f.name) with
    | none =>
      have hmem : (f, i) ∈ s.fields.zipIdx := List.mem_zipIdx_iff_getElem?.mpr hf
      exact absurd (beq_self_eq_true f.name) (List.find?_eq_none.mp hfind _ hmem)
    | some p =>
      have hg := List.mem_zipIdx_iff_getElem?.mp (List.mem_of_find?_eq_some hfind)
      have hname := List.find?_some hfind
      obtain rfl := index_unique hf hg (beq_iff_eq.mp hname).symm
      rw [hf, Option.some.injEq] at hg
      rw [field?, hfind, Option.map_some, ← hg]

namespace Builder

theorem judge_eq_ok_iff {name : String} {f : Field} {vs : List Value} :
    judge name f vs = .ok () ↔ f.Holds vs := by
  unfold judge
  by_cases hlen : vs.length = f.count
  · rw [if_neg (not_not_intro hlen)]
    cases hfind : vs.find? (fun v => v.kind != f.kind) with
    | none =>
      refine iff_of_true rfl ⟨hlen, ?_⟩
      intro v hv
      simpa using List.find?_eq_none.mp hfind v hv
    | some wrong =>
      refine iff_of_false (by simp) ?_
      intro h
      have hkind := h.kind_eq wrong (List.mem_of_find?_eq_some hfind)
      have hbad := List.find?_some hfind
      simp [hkind] at hbad
  · rw [if_pos hlen]
    refine iff_of_false (by simp) ?_
    intro h
    exact hlen h.length_eq

section setValues

variable {b : Builder} {name : String} {i : Nat} {f : Field} {vs : List Value}

theorem outcome_setValues_of_none (h : b.schema.field? name = none) :
    outcome (setValues name vs) b = (b, .error (.unknownField name b.schema.name)) := by
  unfold setValues
  rw [outcome_bind_of_ok (rfl : outcome (get : Assign Builder) b = (b, .ok b)), h]
  rfl

/-- Nothing is stored before the values are judged. -/
theorem outcome_setValues_of_error {e : WireError} (h : b.schema.field? name = some (i, f))
    (hjudge : judge name f vs = .error e) :
    outcome (setValues name vs) b = (b, .error e) := by
  unfold setValues
  rw [outcome_bind_of_ok (rfl : outcome (get : Assign Builder) b = (b, .ok b)), h]
  dsimp only
  rw [hjudge]
  rfl

theorem outcome_setValues_of_ok (h : b.schema.field? name = some (i, f))
    (hjudge : judge name f vs = .ok ()) :
    outcome (setValues name vs) b = ({ b with values := b.values.set i (some vs) }, .ok ()) := by
  unfold setValues
  rw [outcome_bind_of_ok (rfl : outcome (get : Assign Builder) b = (b, .ok b)), h]
  dsimp only
  rw [hjudge]
  rfl

end setValues

/-- What a request asks for, whichever way the values are given. -/
def Op.request : Op → String × List Value
  | .set name k v => (name, [Value.ofNative k v])
  | .setMany name k vs => (name, vs.map (Value.ofNative k))
  | .setValues name vs => (name, vs)

theorem Op.run_eq (op : Op) : op.run = Builder.setValues op.request.1 op.request.2 := by
  cases op <;> rfl

/-- A request for a value that a field is to get is accepted, and stored where the field is. -/
theorem step_of_assigned {s : Schema} {given : List (List Value)}
    (hgiven : List.Forall₂ Field.Holds s.fields given) {b : Builder} (hs : b.schema = s) {op : Op}
    (hop : op.request ∈ (s.fields.map Field.name).zip given) :
    ∃ i f, s.fields[i]? = some f ∧ f.name = op.request.1 ∧ given[i]? = some op.request.2 ∧
      b.step op = ({ b with values := b.values.set i (some op.request.2) }, .ok ()) := by
  obtain ⟨i, hi⟩ := List.mem_iff_getElem?.mp hop
  obtain ⟨hname, hvs⟩ := List.getElem?_zip_eq_some.mp hi
  rw [List.getElem?_map] at hname
  obtain ⟨f, hf, hname⟩ := Option.map_eq_some_iff.mp hname
  have hholds : f.Holds op.request.2 := by
    obtain ⟨hif, rfl⟩ := List.getElem?_eq_some_iff.mp hf
    obtain ⟨hig, hvs⟩ := List.getElem?_eq_some_iff.mp hvs
    rw [← hvs]
    exact hgiven.get hif hig
  refine ⟨i, f, hf, hname, hvs, ?_⟩
  rw [step, Op.run_eq]
  exact outcome_setValues_of_ok (Schema.field?_eq_some_iff.mpr ⟨hs ▸ hf, hname⟩)
    (judge_eq_ok_iff.mpr hholds)

/-- Requests for values that fields are to get never disturb one another: a field has its values
in the end if it had them before or if one of the requests names it. -/
theorem forM_run_of_assigned {s : Schema} {given : List (List Value)}
    (hgiven : List.Forall₂ Field.Holds s.fields given) {ops : List Op}
    (hops : ∀ op ∈ ops, op.request ∈ (s.fields.map Field.name).zip given) {b : Builder}
    (hs : b.schema = s) (hlen : b.values.length = s.fields.length) :
    ∃ b', outcome (ops.forM Op.run) b = (b', .ok ()) ∧ b'.schema = s ∧
      b'.values.length = s.fields.length ∧
      ∀ (i : Nat) (f : Field) (vs : List Value), s.fields[i]? = some f → given[i]? = some vs →
        (b.values[i]? = some (some vs) ∨ ∃ op ∈ ops, op.request.1 = f.name) →
        b'.values[i]? = some (some vs) := by
  induction ops generalizing b with
  | nil =>
    refine ⟨b, rfl, hs, hlen, ?_⟩
    rintro i f vs - - (h | ⟨op, hop, -⟩)
    · exact h
    · cases hop
  | cons op ops ih =>
    obtain ⟨j, g, hg, hname, hws, hrun⟩ := step_of_assigned hgiven hs (hops op List.mem_cons_self)
    obtain ⟨b', happly, hs', hlen', hsettled⟩ :=
      ih (fun op' hop' => hops op' (List.mem_cons_of_mem op hop'))
        (b := { b with values := b.values.set j (some op.request.2) }) hs
        (by rw [List.length_set, hlen])
    refine ⟨b', ?_, hs', hlen', ?_⟩
    · exact (outcome_bind_of_ok hrun).trans happly
    · intro i f vs hf hvs hcase
      apply hsettled i f vs hf hvs
      -- the request is for the field at `j`; only there does it change anything
      by_cases hij : j = i
      · subst hij
        left
        rw [hws, Option.some.injEq] at hvs
        have hj : j < b.values.length := hlen ▸ (List.getElem?_eq_some_iff.mp hf).1
        rw [List.getElem?_set_self hj, hvs]
      · rcases hcase with h | ⟨op', hop', hname'⟩
        · left
          rw [List.getElem?_set_ne hij, h]
        · rcases List.mem_cons.mp hop' with rfl | hop'
          · exact absurd (Schema.index_unique hg hf (hname.trans hname')) hij
          · exact .inr ⟨op', hop', hname'⟩

/-- Naming every field with its values, in any order, gives a builder with just these values. -/
theorem applyAll_of_perm {s : Schema} {given : List (List Value)}
    (hgiven : List.Forall₂ Field.Holds s.fields given) {ops : List Op}
    (hops : (ops.map Op.request).Perm ((s.fields.map Field.name).zip given)) :
    (new s).applyAll ops = .ok ⟨s, given.map some⟩ := by
  have hmem : ∀ op ∈ ops, op.request ∈ (s.fields.map Field.name).zip given :=
    fun op hop => hops.subset (List.mem_map_of_mem hop)
  obtain ⟨b, happly, hs, hlen, hsettled⟩ :=
    forM_run_of_assigned hgiven hmem (b := new s) rfl (List.length_map _)
  have hvalues : b.values = given.map some := by
    apply List.ext_getElem?
    intro i
    rw [List.getElem?_map]
    cases hvs : given[i]? with
    | none =>
      rw [List.getElem?_eq_none_iff, ← hgiven.length_eq, ← hlen] at hvs
      rw [List.getElem?_eq_none hvs, Option.map_none]
    | some vs =>
      have hi : i < s.fields.length := hgiven.length_eq ▸ (List.getElem?_eq_some_iff.mp hvs).1
      have hf := List.getElem?_eq_getElem hi
      refine hsettled i _ vs hf hvs (.inr ?_)
      have hpair : (s.fields[i].name, vs) ∈ (s.fields.map Field.name).zip given := by
        refine List.mem_iff_getElem?.mpr ⟨i, List.getElem?_zip_eq_some.mpr ⟨?_, hvs⟩⟩
        rw [List.getElem?_map, hf, Option.map_some]
      obtain ⟨op, hop, hreq⟩ := List.mem_map.mp (hops.symm.subset hpair)
      exact ⟨op, hop, by rw [hreq]⟩
  obtain ⟨schema, values⟩ := b
  subst hs
  rw [applyAll, happly, ← hvalues]

end Builder

end TaggedWire
