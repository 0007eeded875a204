import TaggedWire.Proofs.Completion

/-!
Builders as maps. A request is accepted for what it says and not for what was asked before it, and
an accepted one replaces the values of one field. Main statement: after any requests, a builder has
for each field the values of the last accepted request that names it, so only the order of requests
for one and the same field matters.
-/
namespace TaggedWire

theorem Field.exists_holds (f : Field) : ∃ vs, f.Holds vs := by
  refine ⟨List.replicate f.count (Value.ofNative f.kind (f.kind.assemble 0 [])), ?_, ?_⟩
  · exact List.length_replicate
  · intro v hv
    rw [List.eq_of_mem_replicate hv, Value.kind_ofNative]

namespace Builder

section lastGiven

variable {s : Schema} {name : String}

/-- The values of the last accepted request that has the name. -/
def lastGiven (s : Schema) (name : String) (ops : List Op) : Option (List Value) :=
  (ops.filter fun op => op.request.1 = name ∧ op.Admissible s).getLast?.map fun op => op.request.2

theorem lastGiven_cons_of_given {op : Op} (h : op.request.1 = name ∧ op.Admissible s)
    (ops : List Op) :
    lastGiven s name (op :: ops) = (lastGiven s name ops).or (some op.request.2) := by
  rw [lastGiven, lastGiven, List.filter_cons_of_pos (by rwa [decide_eq_true_eq]),
    List.getLast?_cons]
  cases (ops.filter fun op => op.request.1 = name ∧ op.Admissible s).getLast? <;> rfl

theorem lastGiven_cons_of_not {op : Op} (h : ¬ (op.request.1 = name ∧ op.Admissible s))
    (ops : List Op) : lastGiven s name (op :: ops) = lastGiven s name ops := by
  rw [lastGiven, lastGiven, List.filter_cons_of_neg (by rwa [decide_eq_true_eq])]

theorem isSome_lastGiven_iff {ops : List Op} :
    (lastGiven s name ops).isSome = true ↔ ∃ op ∈ ops, op.request.1 = name ∧ op.Admissible s := by
  rw [lastGiven, Option.isSome_map, Option.isSome_iff_ne_none, ne_eq, List.getLast?_eq_none_iff,
    List.filter_eq_nil_iff]
  simp

/-- Requests for other names do not count, and neither does their order. -/
theorem lastGiven_congr {ops ops' : List Op}
    (h : (ops'.filter fun op => op.request.1 = name) = ops.filter fun op => op.request.1 = name) :
    lastGiven s name ops' = lastGiven s name ops := by
  have hsplit : ∀ l : List Op, (l.filter fun op => op.request.1 = name ∧ op.Admissible s) =
      (l.filter fun op => op.request.1 = name).filter fun op => op.Admissible s := by
    intro l
    rw [List.filter_filter]
    refine List.filter_congr ?_
    intro op _
    rw [Bool.decide_and, Bool.and_comm]
  rw [lastGiven, lastGiven, hsplit, hsplit, h]

end lastGiven

theorem step_ok_iff {b : Builder} {op : Op} :
    (b.step op).2 = .ok () ↔ op.Admissible b.schema := by
  obtain ⟨i, f, hf, hname, hholds, hstep⟩ | ⟨hop, e, hstep⟩ := step_cases b op
  · rw [hstep]
    exact iff_of_true rfl ⟨f, List.mem_of_getElem? hf, hname, hholds⟩
  · rw [hstep]
    exact iff_of_false nofun hop

theorem step_of_refused {b : Builder} {op : Op} {e : WireError}
    (h : (b.step op).2 = .error e) : (b.step op).1 = b := by
  obtain ⟨i, f, -, -, -, hstep⟩ | ⟨-, e', hstep⟩ := step_cases b op
  · rw [hstep] at h
    cases h
  · rw [hstep]

namespace Consistent

variable {s : Schema} {b : Builder}

/-- One request changes the values of one field, or nothing. -/
theorem values_step (h : Consistent s b) (op : Op) {i : Nat} {f : Field}
    (hf : s.fields[i]? = some f) :
    (b.step op).1.values[i]? =
      if op.request.1 = f.name ∧ op.Admissible s then some (some op.request.2)
      else b.values[i]? := by
  obtain ⟨j, g, hg, hname, hholds, hstep⟩ | ⟨hop, e, hstep⟩ := step_cases b op
  · rw [h.schema_eq] at hg
    rw [hstep]
    by_cases hij : j = i
    · subst hij
      have hj : j < b.values.length := h.length_eq ▸ (List.getElem?_eq_some_iff.mp hf).1
      have hop : op.Admissible s := ⟨g, List.mem_of_getElem? hg, hname, hholds⟩
      rw [hf, Option.some.injEq] at hg
      rw [if_pos ⟨by rw [hg, hname], hop⟩, List.getElem?_set_self hj]
    · -- two fields of one name would be one field
      have hother : ¬ op.request.1 = f.name :=
        fun heq => hij (Schema.index_unique hg hf (hname.trans heq))
      rw [if_neg (fun hboth => hother hboth.1), List.getElem?_set_ne hij]
  · rw [h.schema_eq] at hop
    rw [hstep, if_neg (fun hboth => hop hboth.2)]

theorem values_run (h : Consistent s b) (ops : List Op) {i : Nat} {f : Field}
    (hf : s.fields[i]? = some f) {v : Option (List Value)} (hv : b.values[i]? = some v) :
    (b.run ops).values[i]? = some ((lastGiven s f.name ops).or v) := by
  -- what a field had before counts only as long as no request gives it something else
  induction ops generalizing b v with
  | nil => exact hv
  | cons op ops ih =>
    have hstep := h.values_step op hf
    by_cases hop : op.request.1 = f.name ∧ op.Admissible s
    · rw [if_pos hop] at hstep
      rw [lastGiven_cons_of_given hop, Option.or_assoc, Option.some_or]
      exact ih (h.step op) hstep
    · rw [if_neg hop, hv] at hstep
      rw [lastGiven_cons_of_not hop]
      exact ih (h.step op) hstep

end Consistent

theorem run_eq (s : Schema) (ops : List Op) :
    (new s).run ops = ⟨s, s.fields.map fun f => lastGiven s f.name ops⟩ := by
  have h : Consistent s ((new s).run ops) := (consistent_new s).run ops
  have hvalues : ((new s).run ops).values = s.fields.map fun f => lastGiven s f.name ops := by
    apply List.ext_getElem?
    intro i
    rw [List.getElem?_map]
    cases hf : s.fields[i]? with
    | none =>
      rw [List.getElem?_eq_none_iff, ← h.length_eq] at hf
      rw [List.getElem?_eq_none hf, Option.map_none]
    | some f =>
      have hv : (new s).values[i]? = some none := by
        rw [new, List.getElem?_map, hf, Option.map_some]
      rw [(consistent_new s).values_run ops hf hv, Option.or_none, Option.map_some]
  calc (new s).run ops
      = ⟨((new s).run ops).schema, ((new s).run ops).values⟩ := rfl
    _ = ⟨s, s.fields.map fun f => lastGiven s f.name ops⟩ := by rw [h.schema_eq, hvalues]

theorem run_congr {s : Schema} {ops ops' : List Op}
    (h : ∀ f ∈ s.fields, (ops'.filter fun op => op.request.1 = f.name) =
      ops.filter fun op => op.request.1 = f.name) :
    (new s).run ops' = (new s).run ops := by
  rw [run_eq, run_eq, Builder.mk.injEq]
  refine ⟨rfl, List.map_congr_left ?_⟩
  intro f hf
  exact lastGiven_congr (h f hf)

theorem isComplete_run_iff (s : Schema) (ops : List Op) :
    ((new s).run ops).isComplete = true ↔
      ∀ f ∈ s.fields, ∃ op ∈ ops, op.request.1 = f.name ∧ op.Admissible s := by
  rw [run_eq, isComplete, List.all_map, List.all_eq_true]
  refine forall₂_congr ?_
  intro f _
  exact isSome_lastGiven_iff

/-- After any requests, the next one is accepted exactly if it names a field with as many values as
the field counts, all of its kind; a refused one changes nothing. Each field has the values of the
last accepted request that names it, and the builder is complete if each has had one. Requests in
another order build the same message if for every field they are in the same order. Every field is
set by its own name. -/
theorem run_last_accepted (s : Schema) (ops : List Op) :
    let b := (new s).run ops
    (∀ op, ((b.step op).2 = .ok () ↔ op.Admissible s) ∧
      ∀ e, (b.step op).2 = .error e → (b.step op).1 = b) ∧
    b = ⟨s, s.fields.map fun f => lastGiven s f.name ops⟩ ∧
    (b.isComplete = true ↔
      ∀ f ∈ s.fields, ∃ op ∈ ops, op.request.1 = f.name ∧ op.Admissible s) ∧
    (∀ ops' : List Op,
      (∀ f ∈ s.fields, (ops'.filter fun op => op.request.1 = f.name) =
        ops.filter fun op => op.request.1 = f.name) →
      ((new s).run ops').build = b.build) ∧
    ∀ (i : Nat) (f : Field), s.fields[i]? = some f → (∃ vs, f.Holds vs) ∧
      ∀ vs, f.Holds vs → (b.step (.setValues f.name vs)).2 = .ok () ∧
        (b.step (.setValues f.name vs)).1.values[i]? = some (some vs) := by
  intro b
  have h : Consistent s b := (consistent_new s).run ops
  refine ⟨?_, run_eq s ops, isComplete_run_iff s ops, ?_, ?_⟩
  · intro op
    exact ⟨h.schema_eq ▸ step_ok_iff, fun e => step_of_refused⟩
  · intro ops' horder
    rw [run_congr horder]
  · intro i f hf
    refine ⟨f.exists_holds, ?_⟩
    intro vs hvs
    have hop : (Op.setValues f.name vs).Admissible s :=
      ⟨f, List.mem_of_getElem? hf, rfl, hvs⟩
    refine ⟨step_ok_iff.mpr (h.schema_eq.symm ▸ hop), ?_⟩
    rw [h.values_step _ hf, if_pos ⟨rfl, hop⟩]
    rfl

end Builder

end TaggedWire
