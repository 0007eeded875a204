import TaggedWire.Proofs.Places

/-!
Runs and elements taken one by one. All tags of a run are judged before anything is taken of it; of
elements taken one after the other, each is judged in its turn. Main statement: both find the same
values, and a run that fails leaves the places it was meant for as they were.
-/
namespace TaggedWire

namespace Reader

/-- Takes `n` elements, one after the other. -/
def takeEach (k : Kind) : Nat → Read (List k.Native)
  | 0 => return []
  | n + 1 => do
    let v ← take k
    List.cons v <$> takeEach k n

variable {k : Kind} {n offset : Nat} {buf : Bytes}

theorem step_takeEach_succ :
    step ⟨buf, offset⟩ (takeEach k (n + 1)) =
      match k.decodeAt buf offset with
      | .ok v =>
        let after := step ⟨buf, offset + k.encodedLen⟩ (takeEach k n)
        (after.1, List.cons v <$> after.2)
      | .error e => (⟨buf, offset⟩, .error e) := by
  have htake : step ⟨buf, offset⟩ (take k) = _ := step_advance _ _
  rw [takeEach]
  cases hv : k.decodeAt buf offset with
  | error e =>
    rw [hv] at htake
    exact outcome_bind_of_error htake
  | ok v =>
    rw [hv] at htake
    exact (outcome_bind_of_ok htake).trans (step_map (List.cons v) (takeEach k n) _)

/-- Elements are taken one by one exactly where their encodings stand in a row. -/
theorem step_takeEach_eq_ok_iff {r : Reader} {vs : List k.Native} :
    step ⟨buf, offset⟩ (takeEach k n) = (r, .ok vs) ↔
      vs.length = n ∧ r = ⟨buf, offset + n * k.encodedLen⟩ ∧
        ∃ tail, buf.drop offset = Run.bytes k vs ++ tail := by
  induction n generalizing offset vs with
  | zero =>
    rw [Nat.zero_mul, Nat.add_zero]
    constructor
    · intro h
      cases h
      exact ⟨rfl, rfl, _, rfl⟩
    · rintro ⟨hlen, rfl, -⟩
      rw [List.length_eq_zero_iff.mp hlen]
      rfl
  | succ n ih =>
    rw [step_takeEach_succ, k.offset_succ]
    constructor
    · intro h
      cases hv : k.decodeAt buf offset with
      | error e =>
        rw [hv] at h
        cases h
      | ok v =>
        rw [hv] at h
        obtain ⟨hreader, hvalues⟩ := Prod.mk.inj h
        obtain ⟨ws, hws, rfl⟩ := map_eq_ok_iff.mp hvalues
        obtain ⟨hlen, hr, tail, htail⟩ := ih.mp (Prod.ext hreader hws)
        refine ⟨congrArg Nat.succ hlen, hr, tail, ?_⟩
        rw [Kind.decodeAt_eq_ok_iff_drop.mp hv, htail, Run.bytes_cons, List.append_assoc]
    · rintro ⟨hlen, rfl, tail, htail⟩
      obtain ⟨v, ws, rfl⟩ := List.exists_cons_of_length_eq_add_one hlen
      rw [Run.bytes_cons, List.append_assoc] at htail
      have hv : k.decodeAt buf offset = .ok v := Kind.decodeAt_eq_ok_iff.mpr ⟨_, htail⟩
      have hws : buf.drop (offset + k.encodedLen) = Run.bytes k ws ++ tail :=
        List.append_cancel_left ((Kind.decodeAt_eq_ok_iff_drop.mp hv).symm.trans htail)
      rw [hv, ih.mpr ⟨Nat.succ.inj hlen, rfl, tail, hws⟩]
      rfl

end Reader

namespace Run

variable {k : Kind} {n offset : Nat} {buf : Bytes}

/-- The first pass over a run judges the places of its elements. -/
theorem judges_judgeEach (hroom : offset + n * k.encodedLen ≤ buf.length) :
    Place.Judges buf (places offset (List.replicate n k))
      (judgeEach k buf (fun i => offset + i * k.encodedLen) n) fun _ =>
        ∀ i < n, judgeTag k buf (offset + i * k.encodedLen) = .ok () := by
  refine ⟨?_, ?_⟩
  · intro e he
    obtain ⟨p, t, hfirst, rfl⟩ :=
      (Place.findSome?_refusal?_eq_some_iff (pairwise_places _ _)).mp he
    obtain ⟨i, hi, rfl⟩ := mem_places_replicate.mp hfirst.mem
    refine forM_range_of_error hi (judgeTag_of_refused hfirst.byte hfirst.refused) ?_
    intro j hj
    have hmem : ⟨offset + j * k.encodedLen, k⟩ ∈ places offset (List.replicate n k) :=
      mem_places_replicate.mpr ⟨j, Nat.lt_trans hj hi, rfl⟩
    have hbefore : offset + j * k.encodedLen < offset + i * k.encodedLen :=
      Nat.add_lt_add_left (Nat.mul_lt_mul_of_pos_right hj k.encodedLen_pos) offset
    obtain ⟨t, hbyte, ht⟩ := hfirst.first _ hmem hbefore
    exact judgeTag_of_accepted hbyte ht
  · intro hnone
    have htagged := (findSome?_places_eq_none_iff (by rwa [widths_replicate])).mp hnone
    have hall : ∀ i < n, judgeTag k buf (offset + i * k.encodedLen) = .ok () := by
      intro i hi
      obtain ⟨t, hbyte, ht⟩ := htagged _ (mem_places_replicate.mpr ⟨i, hi, rfl⟩)
      exact judgeTag_of_accepted hbyte ht
    exact ⟨(), forM_range_eq_ok_iff.mpr hall, hall⟩

/-- A run that is not cut off is judged like the elements in it, and has the same values. -/
theorem judges_decodeAt (hn : n ≠ 0) (hroom : offset + n * k.encodedLen ≤ buf.length) :
    Place.Judges buf (places offset (List.replicate n k)) (decodeAt k buf offset n) fun r =>
      Reader.step ⟨buf, offset⟩ (Reader.takeEach k n) = (⟨buf, r.2⟩, .ok r.1) := by
  refine ⟨?_, ?_⟩
  · intro e he
    exact decodeAt_of_judgeEach_error hn hroom ((judges_judgeEach hroom).refused e he)
  · intro hnone
    obtain ⟨-, -, hall⟩ := (judges_judgeEach hroom).accepted hnone
    obtain ⟨vs, tail, rfl, htail⟩ := exists_bytes_of_judgeTag hall hroom
    have hne : vs ≠ [] := fun h => hn (List.length_eq_zero_iff.mpr h)
    exact ⟨_, decodeAt_of_bytes hne htail,
      Reader.step_takeEach_eq_ok_iff.mpr ⟨rfl, rfl, tail, htail⟩⟩

theorem decodeAt_eq_ok_iff {vs : List k.Native} {next : Nat} (hn : n ≠ 0) :
    decodeAt k buf offset n = .ok (vs, next) ↔
      Reader.step ⟨buf, offset⟩ (Reader.takeEach k n) = (⟨buf, next⟩, .ok vs) := by
  constructor
  · intro h
    rcases Nat.lt_or_ge buf.length (offset + n * k.encodedLen) with hshort | hroom
    · rw [decodeAt_of_short hn hshort] at h
      cases h
    · have hjudges := judges_decodeAt hn hroom
      obtain ⟨r, hr, htakes⟩ := hjudges.accepted (hjudges.exists_ok_iff.mp ⟨_, h⟩)
      rw [h] at hr
      cases hr
      exact htakes
  · intro h
    obtain ⟨rfl, hreader, tail, htail⟩ := Reader.step_takeEach_eq_ok_iff.mp h
    cases hreader
    exact decodeAt_of_bytes (fun hnil => hn (List.length_eq_zero_iff.mpr hnil)) htail

theorem encode_of_ne_nil {vs : List k.Native} (hne : vs ≠ []) :
    encode k vs = .ok (bytes k vs) := by
  rw [encode, if_neg]
  rwa [List.isEmpty_iff]

/-- A run is decoded into places as a whole or not at all. It fails if there are no places, else if
it is cut off, else for its first element whose tag is refused, and then every place keeps what it
held. It succeeds exactly where as many elements can be taken one by one, with the same values. What
was encoded is restored. The loop that overwrites one place after the other comes to the same, and
so does that loop in 64-bit words, at every offset that is one, for every buffer and all places that
lie in memory. -/
theorem decodeInto_atomic (k : Kind) (buf : Bytes) (offset : Nat) (out : List k.Native) :
    let size := out.length * k.encodedLen
    let tagged := fun i => ∃ t, buf[offset + i * k.encodedLen]? = some t ∧ k.accepts t = true
    let takes := Reader.step ⟨buf, offset⟩ (Reader.takeEach k out.length)
    (out = [] → decodeInto k buf offset out = (out, .error (.zeroLength "repeated run"))) ∧
    (out ≠ [] → buf.length < offset + size →
      decodeInto k buf offset out =
        (out, .error (.truncated offset size (buf.length - offset) "repeated run"))) ∧
    (out ≠ [] → offset + size ≤ buf.length →
      (∀ i t, i < out.length → buf[offset + i * k.encodedLen]? = some t → k.accepts t = false →
        (∀ j < i, tagged j) →
        decodeInto k buf offset out =
          (out, .error (.tagMismatch (offset + i * k.encodedLen) k.name t))) ∧
      ((∀ i < out.length, tagged i) →
        ∃ vs, decodeInto k buf offset out = (vs, .ok (offset + size)) ∧
          takes = (⟨buf, offset + size⟩, .ok vs))) ∧
    (∀ e, (decodeInto k buf offset out).2 = .error e → (decodeInto k buf offset out).1 = out) ∧
    (out ≠ [] → ∀ vs,
      (∃ next, decodeInto k buf offset out = (vs, .ok next)) ↔ ∃ r, takes = (r, .ok vs)) ∧
    (∀ vs : List k.Native, vs ≠ [] → out.length = vs.length →
      ∃ new, encode k vs = .ok new ∧ ∀ front tail : Bytes,
        decodeInto k (front ++ new ++ tail) front.length out =
          (vs, .ok (front.length + new.length))) ∧
    outcome (fill k buf offset) out = decodeInto k buf offset out ∧
    ∀ w : UInt64, w.toNat = offset → buf.length ≤ maxObject →
      out.length * k.memorySize ≤ maxObject →
      outcome (UInt64.toNat <$> fillWord k buf w) out = decodeInto k buf offset out := by
  intro size tagged takes
  have hlength : out ≠ [] → out.length ≠ 0 := fun hne h => hne (List.length_eq_zero_iff.mp h)
  refine ⟨?_, ?_, ?_, ?_, ?_, ?_, (decodeInto_eq k buf offset out).symm, ?_⟩
  · rintro rfl
    exact decodeInto_of_error decodeAt_zero
  · intro hne hshort
    exact decodeInto_of_error (decodeAt_of_short (hlength hne) hshort)
  · intro hne hroom
    have hjudges := judges_decodeAt (hlength hne) hroom
    refine ⟨?_, ?_⟩
    · intro i t hi hbyte hrefused hbefore
      exact decodeInto_of_error
        (hjudges.refused _ (findSome?_places_replicate_eq_some hi hbyte hrefused hbefore))
    · intro hall
      obtain ⟨⟨vs, next⟩, hvs, htakes⟩ :=
        hjudges.accepted (findSome?_places_replicate_eq_none hroom hall)
      obtain ⟨-, hreader, -⟩ := Reader.step_takeEach_eq_ok_iff.mp htakes
      cases hreader
      exact ⟨vs, decodeInto_of_ok hvs, htakes⟩
  · intro e he
    cases h : decodeAt k buf offset out.length with
    | ok r =>
      rw [decodeInto_of_ok h] at he
      cases he
    | error e' => rw [decodeInto_of_error h]
  · intro hne vs
    simp only [decodeInto_eq_ok_iff, decodeAt_eq_ok_iff (hlength hne)]
    constructor
    · rintro ⟨next, h⟩
      exact ⟨_, h⟩
    · rintro ⟨r, h⟩
      obtain ⟨-, rfl, -⟩ := Reader.step_takeEach_eq_ok_iff.mp h
      exact ⟨_, h⟩
  · intro vs hne hcount
    refine ⟨bytes k vs, encode_of_ne_nil hne, ?_⟩
    intro front tail
    have hbuf : (front ++ bytes k vs ++ tail).drop front.length = bytes k vs ++ tail := by
      rw [List.append_assoc, List.drop_left]
    rw [length_bytes]
    exact decodeInto_of_ok (hcount ▸ decodeAt_of_bytes hne hbuf)
  · rintro w rfl hbuf hout
    rw [outcome_fillWord hbuf hout, decodeInto_eq]

end Run

end TaggedWire
