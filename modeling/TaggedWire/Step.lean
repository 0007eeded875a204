/-!
Steps that change a state and may fail. A step that fails keeps what it has changed until then, so
that nothing has changed is something to be proved of it.
-/
namespace TaggedWire

variable {ε σ α β : Type}

/-- State and answer after a step. -/
def outcome (m : EStateM ε σ α) (s : σ) : σ × Except ε α :=
  match m.run s with
  | .ok a s => (s, .ok a)
  | .error e s => (s, .error e)

variable {m : EStateM ε σ α} {f : α → EStateM ε σ β} {s s' : σ}

theorem outcome_bind_of_ok {a : α} (h : outcome m s = (s', .ok a)) :
    outcome (m >>= f) s = outcome (f a) s' := by
  unfold outcome EStateM.run at h ⊢
  simp only [bind, EStateM.bind]
  cases hm : m s with
  | ok b t =>
    rw [hm] at h
    cases h
    rfl
  | error e t =>
    rw [hm] at h
    cases h

theorem outcome_bind_of_error {e : ε} (h : outcome m s = (s', .error e)) :
    outcome (m >>= f) s = (s', .error e) := by
  unfold outcome EStateM.run at h ⊢
  simp only [bind, EStateM.bind]
  cases hm : m s with
  | ok b t =>
    rw [hm] at h
    cases h
  | error e' t =>
    rw [hm] at h
    cases h
    rfl

theorem outcome_map (g : α → β) :
    outcome (g <$> m) s = ((outcome m s).1, g <$> (outcome m s).2) := by
  unfold outcome EStateM.run
  simp only [Functor.map, EStateM.map]
  cases m s <;> rfl

end TaggedWire
