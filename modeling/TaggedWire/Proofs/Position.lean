import TaggedWire.Proofs.Forms
import TaggedWire.Proofs.Inverse
import TaggedWire.Proofs.Overwriting
import TaggedWire.Proofs.ReadBack

/-!
Where a reader stands. A call takes an item together with the bytes that spell it, and the reader
moves over just these; a call that fails does not move it. Main statement: after any calls, a reader
that started within its input is within it, with the rest of the input before it, and one that
started beyond the end has not moved and reads nothing. Positions computed in 64-bit words are exact.
-/
namespace TaggedWire

theorem Kind.decodeAt_of_drop_nil (k : Kind) {buf : Bytes} {offset : Nat}
    (h : buf.drop offset = []) : k.decodeAt buf offset = .error (.truncated offset 1 0 k.name) := by
  rw [decodeAt, h]
  rfl

theorem ArrayHeader.decodeAt_of_drop_nil {buf : Bytes} {offset : Nat} (h : buf.drop offset = []) :
    decodeAt buf offset = .error (.truncated offset 1 0 "array header") := by
  rw [decodeAt, h]
  rfl

theorem Run.decodeAt_of_drop_nil (k : Kind) {buf : Bytes} {offset n : Nat} (hn : n ≠ 0)
    (h : buf.drop offset = []) :
    decodeAt k buf offset n =
      .error (.truncated offset (n * k.encodedLen) 0 "repeated run") := by
  have hend : buf.length ≤ offset := List.drop_eq_nil_iff.mp h
  have hsize : 0 < n * k.encodedLen := Nat.mul_pos (Nat.pos_of_ne_zero hn) k.encodedLen_pos
  rw [decodeAt_of_short hn (by omega), Nat.sub_eq_zero_of_le hend]

theorem Run.decodeAt_eq_ok_iff_bytes {k : Kind} {buf : Bytes} {offset n next : Nat}
    {vs : List k.Native} :
    decodeAt k buf offset n = .ok (vs, next) ↔
      vs ≠ [] ∧ vs.length = n ∧ (∃ tail, buf.drop offset = bytes k vs ++ tail) ∧
        next = offset + (bytes k vs).length := by
  constructor
  · intro h
    have hn : n ≠ 0 := by
      rintro rfl
      cases h
    obtain ⟨rfl, hreader, htail⟩ := Reader.step_takeEach_eq_ok_iff.mp ((decodeAt_eq_ok_iff hn).mp h)
    refine ⟨?_, rfl, htail, ?_⟩
    · rintro rfl
      exact hn rfl
    · rw [length_bytes]
      exact congrArg Reader.position hreader
  · rintro ⟨hne, rfl, ⟨tail, htail⟩, rfl⟩
    rw [decodeAt_of_bytes hne htail, length_bytes]

theorem Run.bytes_ne_nil {k : Kind} {vs : List k.Native} (hne : vs ≠ []) : bytes k vs ≠ [] := by
  obtain ⟨v, vs, rfl⟩ := List.exists_cons_of_ne_nil hne
  rw [bytes_cons]
  exact List.append_ne_nil_of_left_ne_nil (List.cons_ne_nil _ _) _

namespace Reader

/-- The items that a call can take, each with the bytes that spell it. -/
inductive Call.Takes : Call → Item → Bytes → Prop
  | take (k : Kind) (v : k.Native) : Takes (.op (.take k)) (.native k v) (k.encode v)
  | takeValue (v : Value) : Takes (.op (.takeValue v.kind)) (.value v) v.encode
  | takeArrayHeader {n : ArrayLength} {header : Bytes} : ArrayHeader.Announces n.val header →
      Takes (.op .takeArrayHeader) (.header n) header
  | expectArrayHeader {n : ArrayLength} {header : Bytes} : ArrayHeader.Announces n.val header →
      Takes (.op (.expectArrayHeader n)) .expected header
  | takeMany (k : Kind) (vs : List k.Native) : vs ≠ [] →
      Takes (.op (.takeMany k vs.length)) (.run k vs) (Run.bytes k vs)
  | takeManyInto (k : Kind) (out vs : List k.Native) : vs ≠ [] → vs.length = out.length →
      Takes (.takeManyInto k out) (.run k vs) (Run.bytes k vs)

/-- A run of no elements is asked for. -/
inductive Call.EmptyRun : Call → Prop
  | takeMany (k : Kind) : EmptyRun (.op (.takeMany k 0))
  | takeManyInto (k : Kind) : EmptyRun (.takeManyInto k [])

theorem Call.find_eq_ok_iff {c : Call} {r : Reader} {item : Item} {next : Nat} :
    c.find r = .ok (item, next) ↔
      ∃ bytes tail, c.Takes item bytes ∧ r.rest = bytes ++ tail ∧
        next = r.position + bytes.length := by
  cases c with
  | op op =>
    cases op with
    | take k =>
      simp only [find, map_eq_ok_iff, Kind.decodeAt_eq_ok_iff, Prod.mk.injEq]
      constructor
      · rintro ⟨v, ⟨tail, htail⟩, rfl, rfl⟩
        exact ⟨_, tail, .take k v, htail, by rw [Kind.length_encode]⟩
      · rintro ⟨_, tail, htakes, htail, rfl⟩
        cases htakes with
        | take _ v => exact ⟨v, ⟨tail, htail⟩, rfl, by rw [Kind.length_encode]⟩
    | takeValue k =>
      simp only [find, map_eq_ok_iff, Value.decodeAt_eq_ok_iff, Prod.mk.injEq]
      constructor
      · rintro ⟨v, ⟨rfl, tail, htail⟩, rfl, rfl⟩
        exact ⟨_, tail, .takeValue v, htail, by rw [Value.length_encode]⟩
      · rintro ⟨_, tail, htakes, htail, rfl⟩
        cases htakes with
        | takeValue v => exact ⟨v, ⟨rfl, tail, htail⟩, rfl, by rw [Value.length_encode]⟩
    | takeArrayHeader =>
      simp only [find, map_eq_ok_iff, Prod.exists, ArrayHeader.decodeAt_eq_ok_iff, Prod.mk.injEq]
      constructor
      · rintro ⟨n, _, ⟨header, tail, hn, htail, rfl⟩, rfl, rfl⟩
        exact ⟨header, tail, .takeArrayHeader hn, htail, rfl⟩
      · rintro ⟨header, tail, htakes, htail, rfl⟩
        cases htakes with
        | takeArrayHeader hn => exact ⟨_, _, ⟨header, tail, hn, htail, rfl⟩, rfl, rfl⟩
    | expectArrayHeader n =>
      simp only [find, map_eq_ok_iff, ArrayHeader.expectAt_eq_ok_iff, Prod.mk.injEq]
      constructor
      · rintro ⟨_, ⟨header, tail, hn, htail, rfl⟩, rfl, rfl⟩
        exact ⟨header, tail, .expectArrayHeader hn, htail, rfl⟩
      · rintro ⟨header, tail, htakes, htail, rfl⟩
        cases htakes with
        | expectArrayHeader hn => exact ⟨_, ⟨header, tail, hn, htail, rfl⟩, rfl, rfl⟩
    | takeMany k n =>
      simp only [find, map_eq_ok_iff, Prod.exists, Run.decodeAt_eq_ok_iff_bytes, Prod.mk.injEq]
      constructor
      · rintro ⟨vs, _, ⟨hne, rfl, ⟨tail, htail⟩, rfl⟩, rfl, rfl⟩
        exact ⟨_, tail, .takeMany k vs hne, htail, rfl⟩
      · rintro ⟨_, tail, htakes, htail, rfl⟩
        cases htakes with
        | takeMany _ vs hne => exact ⟨vs, _, ⟨hne, rfl, ⟨tail, htail⟩, rfl⟩, rfl, rfl⟩
  | takeManyInto k out =>
    simp only [find, map_eq_ok_iff, Prod.exists, Run.decodeAt_eq_ok_iff_bytes, Prod.mk.injEq]
    constructor
    · rintro ⟨vs, _, ⟨hne, hlen, ⟨tail, htail⟩, rfl⟩, rfl, rfl⟩
      exact ⟨_, tail, .takeManyInto k out vs hne hlen, htail, rfl⟩
    · rintro ⟨_, tail, htakes, htail, rfl⟩
      cases htakes with
      | takeManyInto _ _ vs hne hlen => exact ⟨vs, _, ⟨hne, hlen, ⟨tail, htail⟩, rfl⟩, rfl, rfl⟩

theorem Call.Takes.ne_nil {c : Call} {item : Item} {bytes : Bytes} (h : c.Takes item bytes) :
    bytes ≠ [] := by
  cases h with
  | take k v => exact List.cons_ne_nil _ _
  | takeValue v => exact v.encode_ne_nil
  | takeArrayHeader hn => exact hn.ne_nil
  | expectArrayHeader hn => exact hn.ne_nil
  | takeMany k vs hne => exact Run.bytes_ne_nil hne
  | takeManyInto k out vs hne => exact Run.bytes_ne_nil hne

/-- A call takes an item exactly where bytes that spell it stand, and moves over these. -/
theorem call_eq_ok_iff {r r' : Reader} {c : Call} {item : Item} :
    r.call c = (r', .ok item) ↔
      ∃ bytes tail, c.Takes item bytes ∧ r.rest = bytes ++ tail ∧
        r' = { r with position := r.position + bytes.length } := by
  constructor
  · intro h
    cases hfind : c.find r with
    | error e =>
      rw [call_of_error hfind] at h
      cases h
    | ok found =>
      rw [call_of_found hfind] at h
      cases h
      obtain ⟨bytes, tail, htakes, hrest, hnext⟩ := Call.find_eq_ok_iff.mp hfind
      exact ⟨bytes, tail, htakes, hrest, by rw [hnext]⟩
  · rintro ⟨bytes, tail, htakes, hrest, rfl⟩
    exact call_of_found (Call.find_eq_ok_iff.mpr ⟨bytes, tail, htakes, hrest, rfl⟩)

theorem eq_of_call_error {r r' : Reader} {c : Call} {e : WireError}
    (h : r.call c = (r', .error e)) : r' = r := by
  cases hfind : c.find r with
  | error e' =>
    rw [call_of_error hfind] at h
    cases h
    rfl
  | ok found =>
    rw [call_of_found hfind] at h
    cases h

theorem Call.find_of_rest_nil {r : Reader} (h : r.rest = []) {c : Call} (hc : ¬ c.EmptyRun) :
    ∃ need context, c.find r = .error (.truncated r.position need 0 context) := by
  cases c with
  | op op =>
    cases op with
    | take k => exact ⟨_, _, by rw [find, k.decodeAt_of_drop_nil h]; rfl⟩
    | takeValue k => exact ⟨_, _, by rw [find, Value.decodeAt_eq, k.decodeAt_of_drop_nil h]; rfl⟩
    | takeArrayHeader => exact ⟨_, _, by rw [find, ArrayHeader.decodeAt_of_drop_nil h]; rfl⟩
    | expectArrayHeader n =>
      exact ⟨_, _, by rw [find, ArrayHeader.expectAt, ArrayHeader.decodeAt_of_drop_nil h]; rfl⟩
    | takeMany k n =>
      have hn : n ≠ 0 := by
        rintro rfl
        exact hc (.takeMany k)
      exact ⟨_, _, by rw [find, Run.decodeAt_of_drop_nil k hn h]; rfl⟩
  | takeManyInto k out =>
    have hn : out.length ≠ 0 := by
      intro hout
      rw [List.length_eq_zero_iff] at hout
      exact hc (hout ▸ .takeManyInto k)
    exact ⟨_, _, by rw [find, Run.decodeAt_of_drop_nil k hn h]; rfl⟩

theorem Call.EmptyRun.find_eq {c : Call} (h : c.EmptyRun) (r : Reader) :
    c.find r = .error (.zeroLength "repeated run") := by
  cases h with
  | takeMany k => rfl
  | takeManyInto k => rfl

/-- Where nothing is left, nothing is taken. -/
theorem call_of_rest_nil {r : Reader} (h : r.rest = []) (c : Call) :
    (c.EmptyRun → r.call c = (r, .error (.zeroLength "repeated run"))) ∧
    (¬ c.EmptyRun → ∃ need context,
      r.call c = (r, .error (.truncated r.position need 0 context))) := by
  refine ⟨fun hc => call_of_error (hc.find_eq r), ?_⟩
  intro hc
  obtain ⟨need, context, hfind⟩ := Call.find_of_rest_nil h hc
  exact ⟨need, context, call_of_error hfind⟩

/-- A reader that started at `start` within its input is still within it; beyond the end it has not
moved. -/
structure Placed (input : Bytes) (start : Nat) (r : Reader) : Prop where
  input_eq : r.input = input
  inside : start ≤ input.length → r.position ≤ input.length
  outside : input.length < start → r.position = start

namespace Placed

variable {input : Bytes} {start : Nat} {r : Reader}

theorem call (h : Placed input start r) (c : Call) : Placed input start (r.call c).1 := by
  obtain ⟨r', answer, hcall⟩ : ∃ r' answer, r.call c = (r', answer) := ⟨_, _, rfl⟩
  rw [hcall]
  cases answer with
  | error e =>
    rw [eq_of_call_error hcall]
    exact h
  | ok item =>
    obtain ⟨bytes, tail, htakes, hrest, rfl⟩ := call_eq_ok_iff.mp hcall
    -- the bytes that were taken stand in the input
    have hroom : r.position + bytes.length ≤ input.length :=
      h.input_eq ▸ add_length_le_of_drop htakes.ne_nil hrest
    refine ⟨h.input_eq, fun _ => hroom, ?_⟩
    intro hstart
    have hpos := h.outside hstart
    omega

theorem perform (h : Placed input start r) (calls : List Call) :
    Placed input start (r.perform calls) := by
  induction calls generalizing r with
  | nil => exact h
  | cons c calls ih =>
    rw [perform_cons]
    exact ih (h.call c)

theorem rest_eq_nil (h : Placed input start r) (hstart : input.length < start) : r.rest = [] := by
  apply List.drop_eq_nil_of_le
  rw [h.input_eq, h.outside hstart]
  exact hstart.le

section word

variable {start : UInt64}

theorem toNat_position (h : Placed input start.toNat r) (hinput : input.length ≤ maxObject) :
    r.position.toUInt64.toNat = r.position := by
  apply toNat_toUInt64
  rcases Nat.lt_or_ge input.length start.toNat with hout | hin
  · rw [h.outside hout]
    exact start.toNat_lt
  · exact Nat.lt_of_le_of_lt (Nat.le_trans (h.inside hin) hinput) (by decide)

/-- A sum of positions does not wrap if it is within the input. -/
theorem toNat_position_add (h : Placed input start.toNat r) (hinput : input.length ≤ maxObject)
    {size : Nat} (hroom : r.position + size ≤ input.length) :
    (r.position.toUInt64 + size.toUInt64).toNat = r.position + size := by
  have hword := h.toNat_position hinput
  have hsize : size.toUInt64.toNat = size :=
    toNat_toUInt64 (Nat.lt_of_le_of_lt (by omega : size ≤ maxObject) (by decide))
  have hrange : r.position.toUInt64.toNat + size.toUInt64.toNat ≤ input.length := by
    rw [hword, hsize]
    exact hroom
  rw [Slot.toNat_add_of_le hinput hrange, hword, hsize]

end word

end Placed

theorem finish_eq_ok_iff {r : Reader} {n : Nat} :
    r.finish = .ok n ↔ r.position = r.input.length ∧ n = r.input.length := by
  by_cases hend : r.position = r.input.length
  · rw [finish, if_pos hend, hend, Except.ok.injEq]
    exact ⟨fun h => ⟨rfl, h.symm⟩, fun h => h.2.symm⟩
  · rw [finish, if_neg hend]
    exact iff_of_false nofun fun h => hend h.1

/-- Whatever was asked of a reader before, a call that fails leaves it where it is, and one that
succeeds moves it over the bytes of the item. A reader that started within its input has what it has
read behind it and the rest before it; one that started beyond the end never moves and reads
nothing. It has finished exactly at the end of the input. Checks and sums of positions in 64-bit
words, from any word on, are exact. -/
theorem perform_position (input : Bytes) (start : UInt64) (calls : List Call) :
    let r := (⟨input, start.toNat⟩ : Reader).perform calls
    r.input = input ∧
    (∀ c e r', r.call c = (r', .error e) → r' = r) ∧
    (∀ c item r', r.call c = (r', .ok item) ↔
      ∃ bytes tail, c.Takes item bytes ∧ r.rest = bytes ++ tail ∧
        r' = ⟨input, r.position + bytes.length⟩) ∧
    (start.toNat ≤ input.length →
      r.position ≤ input.length ∧ r.remaining = input.length - r.position ∧
      r.rest.length = r.remaining ∧ input.take r.position ++ r.rest = input) ∧
    (input.length < start.toNat →
      r.position = start.toNat ∧ r.remaining = 0 ∧ r.rest = [] ∧
      ∀ c : Call,
        (c.EmptyRun → r.call c = (r, .error (.zeroLength "repeated run"))) ∧
        (¬ c.EmptyRun → ∃ need context,
          r.call c = (r, .error (.truncated r.position need 0 context)))) ∧
    (∀ n, r.finish = .ok n ↔ r.position = input.length ∧ n = input.length) ∧
    (input.length ≤ maxObject →
      r.position.toUInt64.toNat = r.position ∧
      (subSaturating input.length.toUInt64 r.position.toUInt64).toNat = r.remaining ∧
      (∀ size context, Slot.checkWord input r.position.toUInt64 size context =
        Slot.check input r.position size.toNat context) ∧
      ∀ size, r.position + size ≤ input.length →
        (r.position.toUInt64 + size.toUInt64).toNat = r.position + size) ∧
    ∀ (k : Kind) n, n * k.memorySize ≤ maxObject →
      (n.toUInt64 * k.encodedLen.toUInt64).toNat = n * k.encodedLen := by
  intro r
  have hstart : Placed input start.toNat ⟨input, start.toNat⟩ := ⟨rfl, id, fun _ => rfl⟩
  have hr : Placed input start.toNat r := hstart.perform calls
  have hremaining : r.remaining = input.length - r.position := by rw [remaining, hr.input_eq]
  have hrest : r.rest = input.drop r.position := by rw [rest, hr.input_eq]
  refine ⟨hr.input_eq, fun _ _ _ => eq_of_call_error, ?_, ?_, ?_, ?_, ?_,
    fun k _ => k.toNat_runWord⟩
  · intro c item r'
    rw [call_eq_ok_iff, hr.input_eq]
  · intro hin
    refine ⟨hr.inside hin, hremaining, ?_, ?_⟩
    · rw [hrest, hremaining, List.length_drop]
    · rw [hrest, List.take_append_drop]
  · intro hout
    have hnil := hr.rest_eq_nil hout
    refine ⟨hr.outside hout, ?_, hnil, call_of_rest_nil hnil⟩
    rw [hremaining, hr.outside hout]
    exact Nat.sub_eq_zero_of_le hout.le
  · intro n
    rw [finish_eq_ok_iff, hr.input_eq]
  · intro hinput
    have hword := hr.toNat_position hinput
    refine ⟨hword, ?_, ?_, fun size => hr.toNat_position_add hinput⟩
    · rw [toNat_subSaturating, Slot.toNat_length_toUInt64 hinput, hword, hremaining]
    · intro size context
      rw [Slot.checkWord_eq hinput, hword]

end Reader

end TaggedWire
