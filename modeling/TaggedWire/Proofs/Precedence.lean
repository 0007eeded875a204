/-!
Precedence of causes. Several things can be wrong with one input, and one of them is reported. A
list of causes, the most urgent first, says which: each cause stands for itself, without a word
about the others, and the first that applies gives the error.
-/
namespace TaggedWire

variable {ε α β : Type}

/-- The error of the first cause that applies. -/
def FirstOf : List (ε → Prop) → ε → Prop
  | [], _ => False
  | cause :: later, e => cause e ∨ (∀ e', ¬ cause e') ∧ FirstOf later e

theorem firstOf_append {first later : List (ε → Prop)} {e : ε} :
    FirstOf (first ++ later) e ↔
      FirstOf first e ∨ (∀ e', ¬ FirstOf first e') ∧ FirstOf later e := by
  induction first with
  | nil => simp [FirstOf]
  | cons cause first ih =>
    rw [List.cons_append, FirstOf, FirstOf, ih]
    by_cases happlies : ∃ e', cause e'
    · obtain ⟨e', he'⟩ := happlies
      have hsome : ¬ ∀ e', ¬ cause e' := fun hnone => hnone e' he'
      have hfirst : ¬ ∀ e', ¬ FirstOf (cause :: first) e' := fun hnone => hnone e' (.inl he')
      simp only [hsome, hfirst, false_and, or_false]
    · have hnone : ∀ e', ¬ cause e' := fun e' he' => happlies ⟨e', he'⟩
      simp [FirstOf, hnone]

/-- A computation fails exactly if one of the causes applies, and for the first that does. -/
def Reports (x : Except ε α) (causes : List (ε → Prop)) : Prop :=
  ∀ e, x = .error e ↔ FirstOf causes e

namespace Reports

theorem ok (a : α) : Reports (.ok a : Except ε α) [] := by
  intro e
  simp [FirstOf]

theorem here {cause : ε → Prop} {later : List (ε → Prop)} {e : ε} (h : ∀ e', cause e' ↔ e' = e) :
    Reports (.error e : Except ε α) (cause :: later) := by
  intro e'
  have hsome : ¬ ∀ e', ¬ cause e' := fun hnone => hnone e ((h e).mpr rfl)
  rw [FirstOf, h, Except.error.injEq, eq_comm]
  simp only [hsome, false_and, or_false]

theorem skip {x : Except ε α} {cause : ε → Prop} {later : List (ε → Prop)} (h : ∀ e, ¬ cause e)
    (hx : Reports x later) : Reports x (cause :: later) := by
  intro e
  rw [hx e, FirstOf]
  simp [h]

theorem single {x : Except ε α} {cause : ε → Prop} (h : ∀ e, x = .error e ↔ cause e) :
    Reports x [cause] := by
  intro e
  simp [FirstOf, h]

/-- What the second stage reports comes after everything that the first one reports. -/
theorem bind {x : Except ε α} {f : α → Except ε β} {first later : List (ε → Prop)}
    (hx : Reports x first) (hf : ∀ a, x = .ok a → Reports (f a) later) :
    Reports (x >>= f) (first ++ later) := by
  intro e
  rw [firstOf_append]
  cases x with
  | error e₀ =>
    have hsome : ¬ ∀ e', ¬ FirstOf first e' := fun hnone => hnone e₀ ((hx e₀).mp rfl)
    simp only [hsome, false_and, or_false]
    change (Except.error e₀ : Except ε β) = .error e ↔ _
    rw [← hx e, Except.error.injEq, Except.error.injEq]
  | ok a =>
    have hnone : ∀ e', ¬ FirstOf first e' := fun e' he' => nomatch (hx e').mpr he'
    simp only [hnone, not_false_eq_true, implies_true, true_and, false_or]
    exact hf a rfl e

end Reports

/-- A traversal fails for its first item that has no result. -/
theorem mapM_eq_error_iff {f : α → Except ε β} {items : List α} {e : ε} :
    items.mapM f = .error e ↔
      ∃ before a after, items = before ++ a :: after ∧ (∀ x ∈ before, ∃ b, f x = .ok b) ∧
        f a = .error e := by
  induction items with
  | nil => simp [pure, Except.pure]
  | cons x items ih =>
    rw [List.mapM_cons]
    cases hx : f x with
    | error e₀ =>
      change (Except.error e₀ : Except ε (List β)) = .error e ↔ _
      rw [Except.error.injEq]
      constructor
      · rintro rfl
        exact ⟨[], x, items, rfl, List.forall_mem_nil _, hx⟩
      · rintro ⟨before, a, after, hsplit, hbefore, ha⟩
        cases before with
        | nil =>
          cases hsplit
          rw [hx] at ha
          exact Except.error.inj ha
        | cons y before =>
          cases hsplit
          obtain ⟨b, hb⟩ := hbefore x List.mem_cons_self
          rw [hx] at hb
          cases hb
    | ok b =>
      have hrest : (Except.ok b >>= fun b => items.mapM f >>= fun bs => pure (b :: bs)) =
          (.error e : Except ε (List β)) ↔ items.mapM f = .error e := by
        cases items.mapM f <;> simp [bind, Except.bind, pure, Except.pure]
      rw [hrest, ih]
      constructor
      · rintro ⟨before, a, after, rfl, hbefore, ha⟩
        exact ⟨x :: before, a, after, rfl, List.forall_mem_cons.mpr ⟨⟨b, hx⟩, hbefore⟩, ha⟩
      · rintro ⟨before, a, after, hsplit, hbefore, ha⟩
        cases before with
        | nil =>
          cases hsplit
          rw [hx] at ha
          cases ha
        | cons y before =>
          cases hsplit
          exact ⟨before, a, after, rfl, (List.forall_mem_cons.mp hbefore).2, ha⟩

end TaggedWire
