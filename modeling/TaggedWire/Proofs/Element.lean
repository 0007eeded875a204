import Mathlib.Data.List.Forall2
import TaggedWire.Message.Decoded

/-!
Exact reading of elements. A reader that works on the front of a byte string accepts precisely the
encodings: what it returns, encoded again and followed by what it left over, is what it was given.
The statements go from one element over the elements of one field to the fields of a message.
-/
namespace TaggedWire

attribute [local instance (high)] Zero.ofOfNat0

/-- A computation in two stages succeeds exactly when both stages do. -/
theorem bind_eq_ok_iff {ε α β : Type} {x : Except ε α} {f : α → Except ε β} {b : β} :
    x >>= f = .ok b ↔ ∃ a, x = .ok a ∧ f a = .ok b := by
  cases x with
  | error e => simp [bind, Except.bind]
  | ok a => simp [bind, Except.bind]

theorem map_eq_ok_iff {ε α β : Type} {x : Except ε α} {f : α → β} {b : β} :
    f <$> x = .ok b ↔ ∃ a, x = .ok a ∧ f a = b := by
  cases x with
  | error e => simp [Functor.map, Except.map]
  | ok a => simp [Functor.map, Except.map]

/-- What is found behind an offset lies within the buffer. -/
theorem add_length_le_of_drop {buf front tail : Bytes} {offset : Nat} (hne : front ≠ [])
    (h : buf.drop offset = front ++ tail) : offset + front.length ≤ buf.length := by
  have hpos := List.length_pos_of_ne_nil hne
  have hlen := congrArg List.length h
  rw [List.length_drop, List.length_append] at hlen
  omega

theorem Kind.read_eq_ok_iff {k : Kind} {offset : Nat} {rest tail : Bytes} {v : k.Native} :
    k.read offset rest = .ok (v, tail) ↔ rest = k.encode v ++ tail := by
  constructor
  · intro h
    cases rest with
    | nil => cases h
    | cons t left =>
      by_cases ht : k.accepts t = true
      · by_cases hp : (left.take k.payloadLen).length = k.payloadLen
        · simp only [read, if_pos ht, if_pos hp, Except.ok.injEq, Prod.mk.injEq] at h
          obtain ⟨rfl, rfl⟩ := h
          rw [encode_assemble ht hp, List.cons_append, List.take_append_drop]
        · simp only [read, if_pos ht, if_neg hp, reduceCtorEq] at h
      · simp only [read, if_neg ht, reduceCtorEq] at h
  · rintro rfl
    exact read_encode_append k v offset tail

theorem Kind.decodeAt_eq_ok_iff {k : Kind} {buf : Bytes} {offset : Nat} {v : k.Native} :
    k.decodeAt buf offset = .ok v ↔ ∃ tail, buf.drop offset = k.encode v ++ tail := by
  simp only [decodeAt, map_eq_ok_iff, Prod.exists, Kind.read_eq_ok_iff]
  constructor
  · rintro ⟨_, tail, hbuf, rfl⟩
    exact ⟨tail, hbuf⟩
  · rintro ⟨tail, hbuf⟩
    exact ⟨v, tail, hbuf, rfl⟩

namespace Value

theorem read_eq_ok_iff {k : Kind} {offset : Nat} {rest tail : Bytes} {v : Value} :
    read k offset rest = .ok (v, tail) ↔ v.kind = k ∧ rest = v.encode ++ tail := by
  simp only [read, map_eq_ok_iff, Prod.exists, Kind.read_eq_ok_iff, Prod.mk.injEq]
  constructor
  · rintro ⟨n, left, rfl, rfl, rfl⟩
    exact ⟨kind_ofNative k n, by rw [encode_ofNative]⟩
  · rintro ⟨rfl, rfl⟩
    obtain ⟨n, hn⟩ := exists_ofNative v
    refine ⟨n, tail, ?_, hn.symm, rfl⟩
    rw [← encode_ofNative, ← hn]

theorem exists_encode_cons (v : Value) :
    ∃ t payload, v.encode = t :: payload ∧ v.kind.accepts t = true := by
  obtain ⟨n, hn⟩ := exists_ofNative v
  refine ⟨(v.kind.tag n).byte, v.kind.payload n, ?_, Kind.accepts_tag v.kind n⟩
  have hencode := encode_ofNative v.kind n
  rw [← hn] at hencode
  exact hencode

/-- The encodings of several values, one after the other. -/
def encodeAll (vs : List Value) : Bytes :=
  vs.flatMap encode

@[simp] theorem encodeAll_nil : encodeAll [] = [] := rfl

@[simp] theorem encodeAll_cons (v : Value) (vs : List Value) :
    encodeAll (v :: vs) = v.encode ++ encodeAll vs := List.flatMap_cons

end Value

/-- Values that a field can have: as many as it counts, all of its kind. -/
structure Field.Holds (f : Field) (vs : List Value) : Prop where
  length_eq : vs.length = f.count
  kind_eq : ∀ v ∈ vs, v.kind = f.kind

instance (f : Field) (vs : List Value) : Decidable (f.Holds vs) :=
  decidable_of_iff (vs.length = f.count ∧ ∀ v ∈ vs, v.kind = f.kind)
    ⟨fun h => ⟨h.1, h.2⟩, fun h => ⟨h.1, h.2⟩⟩

theorem Field.Holds.length_encodeAll {f : Field} {vs : List Value} (h : f.Holds vs) :
    (Value.encodeAll vs).length = f.encodedLen := by
  have hsum : ∀ ws : List Value, (∀ v ∈ ws, v.kind = f.kind) →
      (Value.encodeAll ws).length = f.kind.encodedLen * ws.length := by
    intro ws hk
    induction ws with
    | nil => rfl
    | cons w ws ih =>
      have hw := hk w List.mem_cons_self
      rw [Value.encodeAll_cons, List.length_append, Value.length_encode, hw,
        ih (fun v hv => hk v (List.mem_cons_of_mem w hv)), List.length_cons, Nat.mul_succ,
        Nat.add_comm]
  rw [hsum vs h.kind_eq, h.length_eq, encodedLen]

namespace Schema

/-- `done` collects what was read before, so the count and the bytes speak of the rest only. -/
theorem readValues_eq_ok_iff {k : Kind} {n offset next : Nat} {rest tail : Bytes}
    {done vs : List Value} :
    readValues k n offset rest done = .ok (vs, next, tail) ↔
      ∃ new, vs = done.reverse ++ new ∧ new.length = n ∧ (∀ v ∈ new, v.kind = k) ∧
        next = offset + k.encodedLen * n ∧ rest = Value.encodeAll new ++ tail := by
  induction n generalizing offset rest done with
  | zero =>
    simp only [readValues, Except.ok.injEq, Prod.mk.injEq]
    constructor
    · rintro ⟨rfl, rfl, rfl⟩
      exact ⟨[], by simp⟩
    · rintro ⟨new, rfl, hlen, -, rfl, rfl⟩
      obtain rfl := List.length_eq_zero_iff.mp hlen
      simp
  | succ n ih =>
    constructor
    · intro h
      simp only [readValues] at h
      split at h
      · cases h
      · rename_i v left hread
        obtain ⟨hkind, rfl⟩ := Value.read_eq_ok_iff.mp hread
        obtain ⟨new, rfl, hlen, hnew, rfl, rfl⟩ := ih.mp h
        refine ⟨v :: new, ?_, by rw [List.length_cons, hlen], ?_, ?_, ?_⟩
        · rw [List.reverse_cons, List.append_assoc, List.singleton_append]
        · intro w hw
          rcases List.mem_cons.mp hw with rfl | hw
          · exact hkind
          · exact hnew w hw
        · rw [Nat.mul_succ]
          omega
        · rw [Value.encodeAll_cons, List.append_assoc]
    · rintro ⟨new, rfl, hlen, hnew, rfl, rfl⟩
      cases new with
      | nil => cases hlen
      | cons v new =>
        have hv : Value.read k offset (Value.encodeAll (v :: new) ++ tail) =
            .ok (v, Value.encodeAll new ++ tail) :=
          Value.read_eq_ok_iff.mpr ⟨hnew v List.mem_cons_self,
            by rw [Value.encodeAll_cons, List.append_assoc]⟩
        simp only [readValues, hv]
        refine ih.mpr ⟨new, ?_, Nat.succ.inj hlen, ?_, ?_, rfl⟩
        · rw [List.reverse_cons, List.append_assoc, List.singleton_append]
        · exact fun w hw => hnew w (List.mem_cons_of_mem v hw)
        · rw [Nat.mul_succ]
          omega

/-- The bytes of the fields of a message, field after field. -/
def encodeBody (given : List (List Value)) : Bytes :=
  given.flatMap Value.encodeAll

@[simp] theorem encodeBody_nil : encodeBody [] = [] := rfl

@[simp] theorem encodeBody_cons (vs : List Value) (given : List (List Value)) :
    encodeBody (vs :: given) = Value.encodeAll vs ++ encodeBody given := List.flatMap_cons

theorem length_encodeBody {fields : List Field} {given : List (List Value)}
    (h : List.Forall₂ Field.Holds fields given) :
    (encodeBody given).length = (fields.map Field.encodedLen).sum := by
  induction h with
  | nil => rfl
  | cons hf _ ih =>
    rw [encodeBody_cons, List.length_append, hf.length_encodeAll, ih, List.map_cons,
      List.sum_cons]

/-- Fields with the values that were read for them. -/
def decodedFields (fields : List Field) (given : List (List Value)) : List DecodedField :=
  List.zipWith DecodedField.mk fields given

theorem readFields_eq_ok_iff {fields : List Field} {offset next : Nat} {rest tail : Bytes}
    {ds : List DecodedField} :
    readFields fields offset rest = .ok (ds, next, tail) ↔
      ∃ given, List.Forall₂ Field.Holds fields given ∧ ds = decodedFields fields given ∧
        next = offset + (fields.map Field.encodedLen).sum ∧ rest = encodeBody given ++ tail := by
  induction fields generalizing offset next rest tail ds with
  | nil =>
    simp only [readFields, Except.ok.injEq, Prod.mk.injEq, List.forall₂_nil_left_iff]
    constructor
    · rintro ⟨rfl, rfl, rfl⟩
      exact ⟨[], rfl, rfl, rfl, rfl⟩
    · rintro ⟨given, rfl, rfl, rfl, rfl⟩
      exact ⟨rfl, rfl, rfl⟩
  | cons f fields ih =>
    simp only [readFields, bind_eq_ok_iff, Prod.exists, readValues_eq_ok_iff, ih, pure,
      Except.pure, Except.ok.injEq, Prod.mk.injEq]
    constructor
    · rintro ⟨vs, _, left, ⟨_, rfl, hlen, hkind, rfl, rfl⟩, _, _, _,
        ⟨given, hgiven, rfl, rfl, rfl⟩, rfl, rfl, rfl⟩
      refine ⟨vs :: given, .cons ⟨hlen, hkind⟩ hgiven, rfl, ?_, ?_⟩
      · rw [List.map_cons, List.sum_cons, Nat.add_assoc, Field.encodedLen]
      · rw [encodeBody_cons, List.append_assoc]
    · rintro ⟨_, hgiven, rfl, rfl, rfl⟩
      cases hgiven with
      | @cons _ vs _ given hf hgiven =>
        refine ⟨vs, _, encodeBody given ++ tail, ⟨vs, rfl, hf.length_eq, hf.kind_eq, rfl, ?_⟩,
          _, _, _, ⟨given, hgiven, rfl, rfl, rfl⟩, rfl, ?_, rfl⟩
        · rw [encodeBody_cons, List.append_assoc]
        · rw [List.map_cons, List.sum_cons, Nat.add_assoc, Field.encodedLen]

theorem map_values_decodedFields {fields : List Field} {given : List (List Value)}
    (h : List.Forall₂ Field.Holds fields given) :
    (decodedFields fields given).map DecodedField.values = given := by
  induction h with
  | nil => rfl
  | cons _ _ ih => exact congrArg (List.cons _) ih

/-- No two assignments to the same fields are the front of one byte string. -/
theorem encodeBody_unique {fields : List Field} {given given' : List (List Value)}
    {tail tail' : Bytes} (h : List.Forall₂ Field.Holds fields given)
    (h' : List.Forall₂ Field.Holds fields given')
    (heq : encodeBody given ++ tail = encodeBody given' ++ tail') :
    given = given' ∧ tail = tail' := by
  have hread := readFields_eq_ok_iff.mpr ⟨given, h, rfl, Eq.refl (0 + _), Eq.refl (_ ++ tail)⟩
  have hread' := readFields_eq_ok_iff.mpr ⟨given', h', rfl, Eq.refl (0 + _), heq⟩
  rw [hread, Except.ok.injEq, Prod.mk.injEq, Prod.mk.injEq] at hread'
  refine ⟨?_, hread'.2.2⟩
  rw [← map_values_decodedFields h, ← map_values_decodedFields h', hread'.1]

end Schema

end TaggedWire
