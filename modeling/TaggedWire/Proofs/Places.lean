import TaggedWire.Proofs.Reading

/-!
Places of elements. Elements of known kinds that follow one another stand at places which do not
depend on their bytes. Main statement: where none of them is cut off, reading them fails for the
first place whose byte is no tag of its kind, and for nothing else.
-/
namespace TaggedWire

/-- Where an element of a kind is expected. -/
structure Place where
  offset : Nat
  kind : Kind

namespace Place

/-- What is wrong at a place, if its byte is no tag of its kind. -/
def refusal? (buf : Bytes) (p : Place) : Option WireError :=
  match buf[p.offset]? with
  | some t => if p.kind.accepts t then none else some (.tagMismatch p.offset p.kind.name t)
  | none => none

def Tagged (buf : Bytes) (p : Place) : Prop :=
  ∃ t, buf[p.offset]? = some t ∧ p.kind.accepts t = true

/-- The byte `t` at `p` is no tag of its kind, and this is the smallest such offset. -/
structure FirstRefused (buf : Bytes) (ps : List Place) (p : Place) (t : UInt8) : Prop where
  mem : p ∈ ps
  byte : buf[p.offset]? = some t
  refused : p.kind.accepts t = false
  first : ∀ q ∈ ps, q.offset < p.offset → q.Tagged buf

theorem refusal?_eq_some_iff {buf : Bytes} {p : Place} {e : WireError} :
    p.refusal? buf = some e ↔
      ∃ t, buf[p.offset]? = some t ∧ p.kind.accepts t = false ∧
        e = .tagMismatch p.offset p.kind.name t := by
  unfold refusal?
  cases buf[p.offset]? with
  | none => simp
  | some t =>
    simp only [Option.some.injEq, exists_eq_left']
    cases p.kind.accepts t with
    | true => simp
    | false => exact ⟨fun h => ⟨rfl, (Option.some.inj h).symm⟩, fun h => congrArg some h.2.symm⟩

theorem refusal?_eq_none_iff {buf : Bytes} {p : Place} (h : p.offset < buf.length) :
    p.refusal? buf = none ↔ p.Tagged buf := by
  unfold refusal? Tagged
  rw [List.getElem?_eq_getElem h]
  simp

/-- Among places in the order of their offsets, the first refused one is the one that is found. -/
theorem findSome?_refusal?_eq_some_iff {buf : Bytes} {ps : List Place} {e : WireError}
    (hps : ps.Pairwise fun p q => p.offset < q.offset) :
    ps.findSome? (refusal? buf) = some e ↔
      ∃ p t, FirstRefused buf ps p t ∧ e = .tagMismatch p.offset p.kind.name t := by
  rw [List.findSome?_eq_some_iff]
  constructor
  · rintro ⟨before, p, after, rfl, hp, hbefore⟩
    obtain ⟨t, hbyte, hrefused, rfl⟩ := refusal?_eq_some_iff.mp hp
    obtain ⟨hlt, -⟩ := List.getElem?_eq_some_iff.mp hbyte
    obtain ⟨-, hafter, -⟩ := List.pairwise_append.mp hps
    refine ⟨p, t, ⟨by simp, hbyte, hrefused, ?_⟩, rfl⟩
    intro q hq hqp
    refine (refusal?_eq_none_iff (by omega)).mp ?_
    rcases List.mem_append.mp hq with hq | hq
    · exact hbefore q hq
    · rcases List.mem_cons.mp hq with rfl | hq
      · exact absurd hqp (Nat.lt_irrefl _)
      · exact absurd hqp (Nat.lt_asymm (List.rel_of_pairwise_cons hafter hq))
  · rintro ⟨p, t, h, rfl⟩
    obtain ⟨before, after, rfl⟩ := List.append_of_mem h.mem
    refine ⟨before, p, after, rfl, refusal?_eq_some_iff.mpr ⟨t, h.byte, h.refused, rfl⟩, ?_⟩
    intro q hq
    obtain ⟨-, -, hcross⟩ := List.pairwise_append.mp hps
    have hqp := hcross q hq p List.mem_cons_self
    obtain ⟨hlt, -⟩ := List.getElem?_eq_some_iff.mp h.byte
    exact (refusal?_eq_none_iff (by omega)).mpr
      (h.first q (List.mem_append.mpr (.inl hq)) hqp)

/-- The computation `x` fails for the first of the places that is refused, and only then; otherwise
its result satisfies `Q`. -/
structure Judges {α : Type} (buf : Bytes) (ps : List Place) (x : Except WireError α)
    (Q : α → Prop) : Prop where
  refused : ∀ e, ps.findSome? (refusal? buf) = some e → x = .error e
  accepted : ps.findSome? (refusal? buf) = none → ∃ a, x = .ok a ∧ Q a

namespace Judges

variable {α β : Type} {buf : Bytes} {ps qs : List Place} {x : Except WireError α} {Q : α → Prop}

theorem pure {a : α} (h : Q a) : Judges buf [] (.ok a) Q := by
  refine ⟨?_, fun _ => ⟨a, rfl, h⟩⟩
  intro e he
  cases he

theorem map {R : β → Prop} (hx : Judges buf ps x Q) {f : α → β} (hf : ∀ a, Q a → R (f a)) :
    Judges buf ps (f <$> x) R := by
  refine ⟨?_, ?_⟩
  · intro e he
    rw [hx.refused e he]
    rfl
  · intro hnone
    obtain ⟨a, rfl, ha⟩ := hx.accepted hnone
    exact ⟨f a, rfl, hf a ha⟩

/-- Of two stages, the second one is judged where the first one has nothing to refuse. -/
theorem bind {f : α → Except WireError β} {R : β → Prop} (hx : Judges buf ps x Q)
    (hf : ∀ a, Q a → Judges buf qs (f a) R) : Judges buf (ps ++ qs) (x >>= f) R := by
  cases hps : ps.findSome? (refusal? buf) with
  | some e =>
    have hall : (ps ++ qs).findSome? (refusal? buf) = some e := by
      rw [List.findSome?_append, hps, Option.some_or]
    refine ⟨?_, fun hnone => nomatch hall.symm.trans hnone⟩
    intro e' he'
    cases hall.symm.trans he'
    rw [hx.refused e hps]
    rfl
  | none =>
    obtain ⟨a, rfl, ha⟩ := hx.accepted hps
    have hall : (ps ++ qs).findSome? (refusal? buf) = qs.findSome? (refusal? buf) := by
      rw [List.findSome?_append, hps, Option.none_or]
    refine ⟨?_, ?_⟩
    · intro e he
      exact (hf a ha).refused e (hall.symm.trans he)
    · intro hnone
      exact (hf a ha).accepted (hall.symm.trans hnone)

theorem eq_error_iff (h : Judges buf ps x Q) {e : WireError} :
    x = .error e ↔ ps.findSome? (refusal? buf) = some e := by
  refine ⟨?_, h.refused e⟩
  intro hx
  cases hps : ps.findSome? (refusal? buf) with
  | some e' =>
    rw [h.refused e' hps] at hx
    cases hx
    rfl
  | none =>
    obtain ⟨a, ha, -⟩ := h.accepted hps
    rw [ha] at hx
    cases hx

theorem exists_ok_iff (h : Judges buf ps x Q) :
    (∃ a, x = .ok a) ↔ ps.findSome? (refusal? buf) = none := by
  constructor
  · rintro ⟨a, rfl⟩
    refine Option.eq_none_iff_forall_ne_some.mpr ?_
    intro e he
    cases h.refused e he
  · intro hnone
    obtain ⟨a, ha, -⟩ := h.accepted hnone
    exact ⟨a, ha⟩

/-- There is a result, or a place whose byte is no tag of its kind is named. -/
theorem ok_or_refused (h : Judges buf ps x Q) :
    (∃ a, x = .ok a ∧ Q a) ∨
      ∃ p ∈ ps, ∃ t, buf[p.offset]? = some t ∧ p.kind.accepts t = false ∧
        x = .error (.tagMismatch p.offset p.kind.name t) := by
  cases hps : ps.findSome? (refusal? buf) with
  | none => exact .inl (h.accepted hps)
  | some e =>
    obtain ⟨p, hp, hrefusal⟩ := List.exists_of_findSome?_eq_some hps
    obtain ⟨t, hbyte, hrefused, rfl⟩ := refusal?_eq_some_iff.mp hrefusal
    exact .inr ⟨p, hp, t, hbyte, hrefused, h.refused _ hps⟩

end Judges

/-- An element that is not cut off is judged by its tag. -/
theorem judges_read {k : Kind} {buf : Bytes} {offset : Nat}
    (hroom : offset + k.encodedLen ≤ buf.length) :
    Judges buf [⟨offset, k⟩] (k.read offset (buf.drop offset))
      fun r => r.2 = buf.drop (offset + k.encodedLen) := by
  have hpos := k.encodedLen_pos
  have hlt : offset < buf.length := by omega
  have hdrop := List.drop_eq_getElem_cons hlt
  have hpayload : ((buf.drop (offset + 1)).take k.payloadLen).length = k.payloadLen := by
    rw [Kind.encodedLen] at hroom
    rw [List.length_take, List.length_drop]
    omega
  have hrest : (buf.drop (offset + 1)).drop k.payloadLen = buf.drop (offset + k.encodedLen) := by
    rw [List.drop_drop, Kind.encodedLen, Nat.add_assoc]
  rw [hdrop, Kind.read]
  refine ⟨?_, ?_⟩
  · intro e he
    rw [List.findSome?_singleton] at he
    obtain ⟨t, hbyte, hrefused, rfl⟩ := refusal?_eq_some_iff.mp he
    obtain ⟨_, rfl⟩ := List.getElem?_eq_some_iff.mp hbyte
    rw [if_neg (by rw [hrefused]; exact Bool.false_ne_true)]
  · intro hnone
    rw [List.findSome?_singleton] at hnone
    obtain ⟨t, hbyte, hacc⟩ := (refusal?_eq_none_iff hlt).mp hnone
    obtain ⟨_, rfl⟩ := List.getElem?_eq_some_iff.mp hbyte
    rw [if_pos hacc]
    dsimp only
    rw [if_pos hpayload]
    exact ⟨_, rfl, hrest⟩

theorem judges_decodeAt {k : Kind} {buf : Bytes} {offset : Nat}
    (hroom : offset + k.encodedLen ≤ buf.length) :
    Judges buf [⟨offset, k⟩] (k.decodeAt buf offset) fun _ => True :=
  (judges_read hroom).map fun _ _ => trivial

end Place

/-- The places of elements of the given kinds, the first one at `start`. -/
def places : Nat → List Kind → List Place
  | _, [] => []
  | start, k :: kinds => ⟨start, k⟩ :: places (start + k.encodedLen) kinds

/-- Bytes of elements of the given kinds. -/
def widths (kinds : List Kind) : Nat :=
  (kinds.map Kind.encodedLen).sum

@[simp] theorem widths_nil : widths [] = 0 := rfl

@[simp] theorem widths_cons (k : Kind) (kinds : List Kind) :
    widths (k :: kinds) = k.encodedLen + widths kinds := List.sum_cons

theorem widths_append (kinds later : List Kind) :
    widths (kinds ++ later) = widths kinds + widths later := by
  rw [widths, List.map_append, List.sum_append]
  rfl

theorem widths_replicate (n : Nat) (k : Kind) : widths (List.replicate n k) = n * k.encodedLen := by
  induction n with
  | zero => rw [List.replicate_zero, widths_nil, Nat.zero_mul]
  | succ n ih => rw [List.replicate_succ, widths_cons, ih, Nat.succ_mul, Nat.add_comm]

theorem places_append (start : Nat) (kinds later : List Kind) :
    places start (kinds ++ later) = places start kinds ++ places (start + widths kinds) later := by
  induction kinds generalizing start with
  | nil => rfl
  | cons k kinds ih =>
    rw [List.cons_append, places, ih, places, List.cons_append, widths_cons, Nat.add_assoc]

theorem offset_of_mem_places {start : Nat} {kinds : List Kind} {p : Place}
    (hp : p ∈ places start kinds) : start ≤ p.offset ∧ p.offset < start + widths kinds := by
  induction kinds generalizing start with
  | nil => cases hp
  | cons k kinds ih =>
    have hpos := k.encodedLen_pos
    rw [widths_cons]
    rcases List.mem_cons.mp hp with rfl | hp
    · exact ⟨Nat.le_refl _, by dsimp only; omega⟩
    · have hbounds := ih hp
      omega

theorem pairwise_places (start : Nat) (kinds : List Kind) :
    (places start kinds).Pairwise fun p q => p.offset < q.offset := by
  induction kinds generalizing start with
  | nil => exact List.Pairwise.nil
  | cons k kinds ih =>
    refine List.Pairwise.cons ?_ (ih _)
    intro q hq
    exact Nat.lt_of_lt_of_le (Nat.lt_add_of_pos_right k.encodedLen_pos) (offset_of_mem_places hq).1

/-- Elements of one kind stand at regular distances. -/
theorem mem_places_replicate {start n : Nat} {k : Kind} {p : Place} :
    p ∈ places start (List.replicate n k) ↔ ∃ i, i < n ∧ p = ⟨start + i * k.encodedLen, k⟩ := by
  induction n generalizing start with
  | zero =>
    rw [List.replicate_zero, places]
    simp
  | succ n ih =>
    rw [List.replicate_succ, places, List.mem_cons, ih]
    constructor
    · rintro (rfl | ⟨i, hi, rfl⟩)
      · exact ⟨0, Nat.succ_pos n, by rw [Nat.zero_mul, Nat.add_zero]⟩
      · exact ⟨i + 1, Nat.succ_lt_succ hi, by rw [k.offset_succ]⟩
    · rintro ⟨i, hi, rfl⟩
      cases i with
      | zero => exact .inl (by rw [Nat.zero_mul, Nat.add_zero])
      | succ i =>
        exact .inr ⟨i, Nat.lt_of_succ_lt_succ hi, by rw [k.offset_succ]⟩

theorem findSome?_places_eq_none_iff {buf : Bytes} {start : Nat} {kinds : List Kind}
    (hroom : start + widths kinds ≤ buf.length) :
    (places start kinds).findSome? (Place.refusal? buf) = none ↔
      ∀ p ∈ places start kinds, p.Tagged buf := by
  rw [List.findSome?_eq_none_iff]
  refine forall₂_congr ?_
  intro p hp
  exact Place.refusal?_eq_none_iff (Nat.lt_of_lt_of_le (offset_of_mem_places hp).2 hroom)

theorem findSome?_places_replicate_eq_some {start n i : Nat} {k : Kind} {buf : Bytes} {t : UInt8}
    (hi : i < n) (hbyte : buf[start + i * k.encodedLen]? = some t) (hrefused : k.accepts t = false)
    (hbefore : ∀ j < i, ∃ t, buf[start + j * k.encodedLen]? = some t ∧ k.accepts t = true) :
    (places start (List.replicate n k)).findSome? (Place.refusal? buf) =
      some (.tagMismatch (start + i * k.encodedLen) k.name t) := by
  refine (Place.findSome?_refusal?_eq_some_iff (pairwise_places _ _)).mpr
    ⟨⟨start + i * k.encodedLen, k⟩, t, ⟨?_, hbyte, hrefused, ?_⟩, rfl⟩
  · exact mem_places_replicate.mpr ⟨i, hi, rfl⟩
  · intro q hq hlt
    obtain ⟨j, -, rfl⟩ := mem_places_replicate.mp hq
    exact hbefore j (Nat.lt_of_mul_lt_mul_right (Nat.lt_of_add_lt_add_left hlt))

theorem findSome?_places_replicate_eq_none {start n : Nat} {k : Kind} {buf : Bytes}
    (hroom : start + n * k.encodedLen ≤ buf.length)
    (hall : ∀ i < n, ∃ t, buf[start + i * k.encodedLen]? = some t ∧ k.accepts t = true) :
    (places start (List.replicate n k)).findSome? (Place.refusal? buf) = none := by
  refine (findSome?_places_eq_none_iff (by rwa [widths_replicate])).mpr ?_
  intro p hp
  obtain ⟨i, hi, rfl⟩ := mem_places_replicate.mp hp
  exact hall i hi

end TaggedWire
