import TaggedWire.Proofs.Element
import TaggedWire.Run

/-!
Places that are filled from a run. The first pass judges all tags and stores nothing; the second
stores one element after the other, and where one cannot be decoded it stops with the places before
it overwritten. Main statement: after a first pass that refuses nothing the second one cannot stop,
so that the places are filled as a whole or keep what they held.
-/
namespace TaggedWire

/-- An element was decoded if its encoding stands at the offset, with the rest behind it. -/
theorem Kind.decodeAt_eq_ok_iff_drop {k : Kind} {buf : Bytes} {offset : Nat} {v : k.Native} :
    k.decodeAt buf offset = .ok v ↔
      buf.drop offset = k.encode v ++ buf.drop (offset + k.encodedLen) := by
  rw [decodeAt_eq_ok_iff]
  constructor
  · rintro ⟨tail, htail⟩
    rw [← List.drop_drop, htail, List.drop_left' (length_encode k v)]
  · intro h
    exact ⟨_, h⟩

theorem Kind.offset_succ (k : Kind) (offset n : Nat) :
    offset + (n + 1) * k.encodedLen = offset + k.encodedLen + n * k.encodedLen := by
  rw [Nat.succ_mul]
  omega

/-- Computed in 64-bit words, an element is the same, wherever the offset points to. -/
theorem Kind.decodeWord_eq (k : Kind) {buf : Bytes} (hbuf : buf.length ≤ maxObject)
    (offset : UInt64) : k.decodeWord buf offset = k.decodeAt buf offset.toNat := by
  have hone : (1 : UInt64).toNat = 1 := rfl
  have hwidth : k.encodedLen.toUInt64.toNat = k.encodedLen :=
    toNat_toUInt64 (Nat.lt_of_le_of_lt k.encodedLen_le (by decide))
  rw [decodeWord, Slot.checkWord_eq hbuf, Slot.checkWord_eq hbuf, hone, hwidth, decodeAt]
  cases hrest : buf.drop offset.toNat with
  | nil =>
    have hend : buf.length ≤ offset.toNat := List.drop_eq_nil_iff.mp hrest
    rw [Slot.check_of_lt (Nat.lt_succ_of_le hend), Nat.sub_eq_zero_of_le hend]
    rfl
  | cons t tail =>
    have hcount : buf.length - offset.toNat = (t :: tail).length := by
      rw [← hrest, List.length_drop]
    have hroom : offset.toNat + 1 ≤ buf.length := by
      rw [List.length_cons] at hcount
      omega
    have hbyte : buf.getD offset.toNat 0 = t := by
      rw [List.getD_eq_getElem?_getD, ← List.head?_drop, hrest]
      rfl
    have htail : buf.drop (offset + 1).toNat = tail := by
      rw [Slot.toNat_add_of_le hbuf hroom, hone, ← List.drop_drop, hrest]
      rfl
    have hpayload : (tail.take k.payloadLen).length = k.payloadLen ↔
        offset.toNat + k.encodedLen ≤ buf.length := by
      rw [List.length_cons] at hcount
      rw [List.length_take, encodedLen]
      omega
    rw [Slot.check_of_le hroom, hbyte, htail]
    simp only [read, hpayload]
    by_cases ht : k.accepts t = true
    · rw [if_pos ht, if_pos ht]
      rcases Nat.lt_or_ge buf.length (offset.toNat + k.encodedLen) with hshort | hwhole
      · rw [Slot.check_of_lt hshort, if_neg (Nat.not_le.mpr hshort), hcount]
        rfl
      · rw [Slot.check_of_le hwhole, if_pos hwhole]
        rfl
    · rw [if_neg ht, if_neg ht]
      rfl

/-- A loop does the same with steps that are the same. -/
theorem forM_congr {m : Type → Type} [Monad m] {f g : Nat → m Unit} {is : List Nat}
    (h : ∀ i ∈ is, f i = g i) : is.forM f = is.forM g := by
  induction is with
  | nil => rfl
  | cons i is ih =>
    have hrest := ih fun j hj => h j (List.mem_cons_of_mem _ hj)
    change (f i >>= fun _ => is.forM f) = (g i >>= fun _ => is.forM g)
    rw [h i List.mem_cons_self, hrest]

section checks

variable {ε : Type} {check : Nat → Except ε Unit} {n : Nat}

theorem forM_range_succ :
    (List.range (n + 1)).forM check = (List.range n).forM check >>= fun _ => check n := by
  rw [List.forM_eq_forM, List.range_succ, List.forM_append, List.forM_cons, List.forM_nil,
    bind_pure]

/-- A loop of checks succeeds if all of them do. -/
theorem forM_range_eq_ok_iff :
    (List.range n).forM check = .ok () ↔ ∀ i < n, check i = .ok () := by
  induction n with
  | zero => exact iff_of_true rfl nofun
  | succ n ih =>
    rw [forM_range_succ, bind_eq_ok_iff]
    constructor
    · rintro ⟨_, hbefore, hlast⟩ i hi
      rcases Nat.lt_succ_iff_lt_or_eq.mp hi with hlt | rfl
      · exact ih.mp hbefore i hlt
      · exact hlast
    · intro h
      exact ⟨(), ih.mpr fun i hi => h i (Nat.lt_succ_of_lt hi), h n (Nat.lt_succ_self n)⟩

/-- A loop of checks fails with the first one that does. -/
theorem forM_range_of_error {i : Nat} {e : ε} (hi : i < n) (h : check i = .error e)
    (hbefore : ∀ j < i, check j = .ok ()) : (List.range n).forM check = .error e := by
  induction n with
  | zero => cases hi
  | succ n ih =>
    rw [forM_range_succ]
    rcases Nat.lt_succ_iff_lt_or_eq.mp hi with hlt | rfl
    · rw [ih hlt]
      rfl
    · rw [forM_range_eq_ok_iff.mpr hbefore]
      exact h

end checks

namespace Run

variable {k : Kind} {buf : Bytes} {offset : Nat}

section judge

theorem judgeTag_of_accepted {t : UInt8} (hbyte : buf[offset]? = some t)
    (ht : k.accepts t = true) : judgeTag k buf offset = .ok () := by
  rw [judgeTag, hbyte]
  exact if_pos ht

theorem judgeTag_of_refused {t : UInt8} (hbyte : buf[offset]? = some t)
    (ht : k.accepts t = false) :
    judgeTag k buf offset = .error (.tagMismatch offset k.name t) := by
  rw [judgeTag, hbyte]
  exact if_neg (Bool.eq_false_iff.mp ht)

theorem exists_of_judgeTag (h : judgeTag k buf offset = .ok ()) :
    ∃ t, buf[offset]? = some t ∧ k.accepts t = true := by
  unfold judgeTag at h
  cases hbyte : buf[offset]? with
  | none =>
    rw [hbyte] at h
    cases h
  | some t =>
    rw [hbyte] at h
    dsimp only at h
    by_cases ht : k.accepts t = true
    · exact ⟨t, rfl, ht⟩
    · rw [if_neg ht] at h
      cases h

/-- What can be decoded starts with a tag that is accepted. -/
theorem judgeTag_of_decodeAt {v : k.Native} (h : k.decodeAt buf offset = .ok v) :
    judgeTag k buf offset = .ok () := by
  obtain ⟨tail, htail⟩ := Kind.decodeAt_eq_ok_iff.mp h
  have hbyte : buf[offset]? = some (k.tag v).byte := by
    have hhead := congrArg List.head? htail
    rwa [List.head?_drop] at hhead
  exact judgeTag_of_accepted hbyte (k.accepts_tag v)

/-- What starts with a tag that is accepted, and is not cut off, can be decoded. -/
theorem exists_decodeAt_of_judgeTag (h : judgeTag k buf offset = .ok ())
    (hroom : offset + k.encodedLen ≤ buf.length) : ∃ v, k.decodeAt buf offset = .ok v := by
  obtain ⟨t, hbyte, ht⟩ := exists_of_judgeTag h
  obtain ⟨hlt, rfl⟩ := List.getElem?_eq_some_iff.mp hbyte
  have hpayload : ((buf.drop (offset + 1)).take k.payloadLen).length = k.payloadLen := by
    rw [Kind.encodedLen] at hroom
    rw [List.length_take, List.length_drop]
    omega
  refine ⟨k.assemble buf[offset] ((buf.drop (offset + 1)).take k.payloadLen), ?_⟩
  refine Kind.decodeAt_eq_ok_iff.mpr ⟨(buf.drop (offset + 1)).drop k.payloadLen, ?_⟩
  rw [Kind.encode_assemble ht hpayload, List.cons_append, List.take_append_drop]
  exact List.drop_eq_getElem_cons hlt

/-- A run whose tags are all accepted, and that is not cut off, is the encoding of elements. -/
theorem exists_bytes_of_judgeTag {n : Nat}
    (h : ∀ i < n, judgeTag k buf (offset + i * k.encodedLen) = .ok ())
    (hroom : offset + n * k.encodedLen ≤ buf.length) :
    ∃ vs tail, vs.length = n ∧ buf.drop offset = bytes k vs ++ tail := by
  induction n generalizing offset with
  | zero => exact ⟨[], _, rfl, rfl⟩
  | succ n ih =>
    rw [k.offset_succ] at hroom
    have hfirst := h 0 (Nat.succ_pos n)
    rw [Nat.zero_mul, Nat.add_zero] at hfirst
    have hrest : ∀ i < n, judgeTag k buf (offset + k.encodedLen + i * k.encodedLen) = .ok () := by
      intro i hi
      rw [← k.offset_succ]
      exact h (i + 1) (Nat.succ_lt_succ hi)
    obtain ⟨v, hv⟩ := exists_decodeAt_of_judgeTag hfirst (by omega)
    obtain ⟨vs, tail, hlen, htail⟩ := ih hrest hroom
    refine ⟨v :: vs, tail, congrArg Nat.succ hlen, ?_⟩
    rw [Kind.decodeAt_eq_ok_iff_drop.mp hv, htail, bytes_cons, List.append_assoc]

theorem decodeAt_of_bytes_getElem? {vs : List k.Native} {tail : Bytes}
    (hbuf : buf.drop offset = bytes k vs ++ tail) {i : Nat} {v : k.Native}
    (hv : vs[i]? = some v) : k.decodeAt buf (offset + i * k.encodedLen) = .ok v := by
  induction vs generalizing offset i with
  | nil => cases hv
  | cons w vs ih =>
    rw [bytes_cons, List.append_assoc] at hbuf
    have hw : k.decodeAt buf offset = .ok w := Kind.decodeAt_eq_ok_iff.mpr ⟨_, hbuf⟩
    cases i with
    | zero =>
      cases hv
      rwa [Nat.zero_mul, Nat.add_zero]
    | succ i =>
      have hrest : buf.drop (offset + k.encodedLen) = bytes k vs ++ tail :=
        List.append_cancel_left ((Kind.decodeAt_eq_ok_iff_drop.mp hw).symm.trans hbuf)
      rw [k.offset_succ]
      exact ih hrest hv

end judge

section store

variable {element : Nat → Except WireError k.Native}

theorem outcome_store_of_ok (done rest : List k.Native) (place v : k.Native) :
    outcome (store (.ok v) done.length) (done ++ place :: rest) = (done ++ v :: rest, .ok ()) := by
  change ((done ++ place :: rest).set done.length v, _) = _
  rw [List.set_append_right _ _ (Nat.le_refl _), Nat.sub_self, List.set_cons_zero]

/-- The elements go to the places behind those that are done, and no other place changes. -/
theorem outcome_forM_store (done : List k.Native) {vs rest : List k.Native}
    (hlen : vs.length ≤ rest.length)
    (h : ∀ i v, vs[i]? = some v → element (done.length + i) = .ok v) :
    outcome ((List.range' done.length vs.length).forM fun i => store (element i) i) (done ++ rest) =
      (done ++ vs ++ rest.drop vs.length, .ok ()) := by
  induction vs generalizing done rest with
  | nil =>
    rw [List.append_nil]
    rfl
  | cons v vs ih =>
    cases rest with
    | nil => cases hlen
    | cons r rest =>
      have hfirst : outcome (store (element done.length) done.length) (done ++ r :: rest) =
          (done ++ [v] ++ rest, .ok ()) := by
        have hv : element done.length = .ok v := h 0 v rfl
        rw [hv, outcome_store_of_ok, List.append_assoc, List.singleton_append]
      have hrest := ih (done ++ [v]) (Nat.le_of_succ_le_succ hlen) (by
        intro i w hw
        rw [List.length_append, List.length_singleton, Nat.add_assoc, Nat.add_comm 1]
        exact h (i + 1) w hw)
      rw [List.length_append, List.length_singleton, ← List.append_cons done v vs] at hrest
      exact (outcome_bind_of_ok hfirst).trans hrest

theorem outcome_storeEach {out vs : List k.Native} (hlen : vs.length = out.length)
    (h : ∀ i v, vs[i]? = some v → element i = .ok v) :
    outcome (storeEach element out.length) out = (vs, .ok ()) := by
  have hstore := outcome_forM_store [] (Nat.le_of_eq hlen) (by
    intro i v hv
    rw [List.length_nil, Nat.zero_add]
    exact h i v hv)
  rw [List.drop_of_length_le (Nat.le_of_eq hlen.symm), List.append_nil] at hstore
  rw [storeEach, List.range_eq_range', ← hlen]
  exact hstore

/-- An element that cannot be decoded stops the loop, and the places before it are overwritten. -/
theorem outcome_storeEach_of_error {out vs : List k.Native} {e : WireError}
    (hlen : vs.length < out.length) (h : ∀ i v, vs[i]? = some v → element i = .ok v)
    (he : element vs.length = .error e) :
    outcome (storeEach element out.length) out = (vs ++ out.drop vs.length, .error e) := by
  have hstore := outcome_forM_store [] (Nat.le_of_lt hlen) (by
    intro i v hv
    rw [List.length_nil, Nat.zero_add]
    exact h i v hv)
  rw [List.nil_append, List.nil_append, List.length_nil, List.forM_eq_forM] at hstore
  obtain ⟨n, hn⟩ := Nat.exists_eq_add_of_lt hlen
  rw [storeEach, List.range_eq_range', hn, Nat.add_assoc, ← List.range'_append_1, Nat.zero_add,
    List.range'_succ, List.forM_eq_forM, List.forM_append, outcome_bind_of_ok hstore,
    List.forM_cons, he]
  rfl

end store

section walk

theorem judgeRun_eq (k : Kind) (buf : Bytes) (offset n : Nat) :
    judgeRun k n offset (buf.drop offset) =
      judgeEach k buf (fun i => offset + i * k.encodedLen) n := by
  induction n generalizing offset with
  | zero => rfl
  | succ n ih =>
    have hloop : judgeEach k buf (fun i => offset + i * k.encodedLen) (n + 1) =
        judgeTag k buf offset >>= fun _ =>
          judgeEach k buf (fun i => offset + k.encodedLen + i * k.encodedLen) n := by
      simp only [judgeEach, List.range_succ_eq_map, List.forM_eq_forM, List.forM_cons,
        List.forM_map, Nat.zero_mul, Nat.add_zero, Nat.succ_eq_add_one, k.offset_succ]
    rw [hloop, ← ih, judgeTag, ← List.head?_drop]
    cases hrest : buf.drop offset with
    | nil => rfl
    | cons t rest =>
      have hnext : buf.drop (offset + k.encodedLen) = rest.drop k.payloadLen := by
        rw [← List.drop_drop, hrest, Kind.encodedLen, Nat.add_comm 1, List.drop_succ_cons]
      rw [judgeRun, List.head?_cons, hnext]
      by_cases ht : k.accepts t = true
      · simp only [if_pos ht]
        rfl
      · simp only [if_neg ht]
        rfl

/-- The loop goes on behind the places that are done. -/
theorem outcome_forM_eq_storeRun (k : Kind) (buf : Bytes) (offset : Nat)
    (done places : List k.Native) :
    outcome ((List.range' done.length places.length).forM fun i =>
        store (k.decodeAt buf (offset + i * k.encodedLen)) i) (done.reverse ++ places) =
      storeRun k (offset + done.length * k.encodedLen)
        (buf.drop (offset + done.length * k.encodedLen)) done places := by
  induction places generalizing done with
  | nil =>
    rw [List.append_nil]
    rfl
  | cons place places ih =>
    rw [storeRun]
    cases hread : k.read (offset + done.length * k.encodedLen)
        (buf.drop (offset + done.length * k.encodedLen)) with
    | error e =>
      have hstop : k.decodeAt buf (offset + done.length * k.encodedLen) = .error e := by
        rw [Kind.decodeAt, hread]
        rfl
      have hfirst : outcome (store (k.decodeAt buf (offset + done.length * k.encodedLen))
          done.length) (done.reverse ++ place :: places) =
            (done.reverse ++ place :: places, .error e) := by
        rw [hstop]
        rfl
      rw [List.reverseAux_eq]
      exact outcome_bind_of_error hfirst
    | ok r =>
      obtain ⟨v, left⟩ := r
      have hv : k.decodeAt buf (offset + done.length * k.encodedLen) = .ok v := by
        rw [Kind.decodeAt, hread]
        rfl
      have hnext : offset + (v :: done).length * k.encodedLen =
          offset + done.length * k.encodedLen + k.encodedLen := by
        rw [List.length_cons, Nat.succ_mul, Nat.add_assoc]
      have hleft : buf.drop (offset + done.length * k.encodedLen + k.encodedLen) = left := by
        rw [← List.drop_drop, Kind.read_eq_ok_iff.mp hread, List.drop_left' (k.length_encode v)]
      have hfirst : outcome (store (k.decodeAt buf (offset + done.length * k.encodedLen))
          done.length) (done.reverse ++ place :: places) =
            ((v :: done).reverse ++ places, .ok ()) := by
        have hstore := outcome_store_of_ok done.reverse places place v
        rw [List.length_reverse] at hstore
        rw [hv, hstore, List.reverse_cons, List.append_assoc, List.singleton_append]
      have hrest := ih (v :: done)
      rw [hnext, hleft] at hrest
      exact (outcome_bind_of_ok hfirst).trans hrest

theorem storeRun_eq (k : Kind) (buf : Bytes) (offset : Nat) (out : List k.Native) :
    storeRun k offset (buf.drop offset) [] out =
      outcome (storeEach (fun i => k.decodeAt buf (offset + i * k.encodedLen)) out.length) out := by
  have hloop := outcome_forM_eq_storeRun k buf offset [] out
  rw [List.length_nil, Nat.zero_mul, Nat.add_zero, List.reverse_nil, List.nil_append] at hloop
  rw [storeEach, List.range_eq_range']
  exact hloop.symm

end walk

section fill

variable {out : List k.Native} {e : WireError}

theorem outcome_fill_of_ne_nil (hne : out ≠ []) :
    outcome (fill k buf offset) out =
      outcome (do
        MonadExcept.ofExcept
          (Slot.check buf offset (out.length * k.encodedLen) "repeated run")
        MonadExcept.ofExcept
          (judgeEach k buf (fun i => offset + i * k.encodedLen) out.length)
        storeEach (fun i => k.decodeAt buf (offset + i * k.encodedLen)) out.length
        return offset + out.length * k.encodedLen : Fill k Nat) out := by
  have hcount : ¬ out.length = 0 := fun h => hne (List.length_eq_zero_iff.mp h)
  change outcome (ite (out.length = 0) _ _) out = _
  rw [if_neg hcount]

/-- Two walks over the bytes do what the loop over the places does, failure included. -/
theorem decodeInto_eq (k : Kind) (buf : Bytes) (offset : Nat) (out : List k.Native) :
    decodeInto k buf offset out = outcome (fill k buf offset) out := by
  rcases eq_or_ne out [] with rfl | hne
  · rfl
  rw [outcome_fill_of_ne_nil hne, decodeInto, if_neg (by rwa [List.isEmpty_iff])]
  dsimp only
  rw [judgeRun_eq]
  cases Slot.check buf offset (out.length * k.encodedLen) "repeated run" with
  | error e => rfl
  | ok _ =>
    cases hjudge : judgeEach k buf (fun i => offset + i * k.encodedLen) out.length with
    | error e => rfl
    | ok _ =>
      have hstore := storeRun_eq k buf offset out
      change ((storeRun k offset (buf.drop offset) [] out).1, _ <$> (storeRun k _ _ _ _).2) = _
      rw [hstore, ← outcome_map]
      rfl

theorem decodeInto_nil : decodeInto k buf offset [] = ([], .error (.zeroLength "repeated run")) :=
  rfl

theorem decodeInto_of_short (hne : out ≠ [])
    (h : buf.length < offset + out.length * k.encodedLen) :
    decodeInto k buf offset out =
      (out, .error (.truncated offset (out.length * k.encodedLen) (buf.length - offset)
        "repeated run")) := by
  rw [decodeInto_eq, outcome_fill_of_ne_nil hne, Slot.check_of_lt h]
  rfl

theorem decodeInto_of_judgeEach_error (hne : out ≠ [])
    (hroom : offset + out.length * k.encodedLen ≤ buf.length)
    (h : judgeEach k buf (fun i => offset + i * k.encodedLen) out.length = .error e) :
    decodeInto k buf offset out = (out, .error e) := by
  rw [decodeInto_eq, outcome_fill_of_ne_nil hne, Slot.check_of_le hroom, h]
  rfl

theorem decodeInto_of_bytes {vs : List k.Native} {tail : Bytes} (hne : vs ≠ [])
    (hlen : vs.length = out.length) (hbuf : buf.drop offset = bytes k vs ++ tail) :
    decodeInto k buf offset out = (vs, .ok (offset + vs.length * k.encodedLen)) := by
  have hout : out ≠ [] := by
    rintro rfl
    exact hne (List.length_eq_zero_iff.mp hlen)
  have hroom : offset + out.length * k.encodedLen ≤ buf.length := by
    have hbytes : bytes k vs ≠ [] := by
      rw [← List.length_pos_iff_ne_nil, length_bytes]
      exact Nat.mul_pos (List.length_pos_of_ne_nil hne) k.encodedLen_pos
    have hend := add_length_le_of_drop hbytes hbuf
    rwa [length_bytes, hlen] at hend
  have helement : ∀ i v, vs[i]? = some v → k.decodeAt buf (offset + i * k.encodedLen) = .ok v :=
    fun i v => decodeAt_of_bytes_getElem? hbuf
  have hjudge : judgeEach k buf (fun i => offset + i * k.encodedLen) out.length = .ok () := by
    refine forM_range_eq_ok_iff.mpr ?_
    intro i hi
    rw [← hlen] at hi
    exact judgeTag_of_decodeAt (helement i vs[i] (List.getElem?_eq_getElem hi))
  rw [decodeInto_eq, outcome_fill_of_ne_nil hout, Slot.check_of_le hroom, hjudge, hlen]
  exact outcome_bind_of_ok (outcome_storeEach hlen helement)

/-- Whatever `n` places held, they are all filled with the same elements, or all of them keep what
they held, for the same cause. -/
theorem decodeInto_cases (k : Kind) (buf : Bytes) (offset n : Nat) :
    (∃ vs next, ∀ out, out.length = n → decodeInto k buf offset out = (vs, .ok next)) ∨
      ∃ e, ∀ out, out.length = n → decodeInto k buf offset out = (out, .error e) := by
  rcases Nat.eq_zero_or_pos n with rfl | hn
  · refine .inr ⟨.zeroLength "repeated run", ?_⟩
    intro out hout
    rw [List.length_eq_zero_iff.mp hout]
    exact decodeInto_nil
  have hne : ∀ out : List k.Native, out.length = n → out ≠ [] := by
    rintro out hout rfl
    exact Nat.ne_of_gt hn hout.symm
  rcases Nat.lt_or_ge buf.length (offset + n * k.encodedLen) with hshort | hroom
  · refine .inr
      ⟨.truncated offset (n * k.encodedLen) (buf.length - offset) "repeated run", ?_⟩
    rintro out rfl
    exact decodeInto_of_short (hne out rfl) hshort
  cases hjudge : judgeEach k buf (fun i => offset + i * k.encodedLen) n with
  | error e =>
    refine .inr ⟨e, ?_⟩
    intro out hout
    rw [← hout] at hroom hjudge
    exact decodeInto_of_judgeEach_error (hne out hout) hroom hjudge
  | ok _ =>
    -- the second pass has nothing left to refuse
    obtain ⟨vs, tail, hlen, hbuf⟩ :=
      exists_bytes_of_judgeTag (forM_range_eq_ok_iff.mp hjudge) hroom
    refine .inl ⟨vs, offset + vs.length * k.encodedLen, ?_⟩
    intro out hout
    exact decodeInto_of_bytes (hne vs hlen) (hlen.trans hout.symm) hbuf

end fill

section word

variable {out : List k.Native} {w : UInt64}

/-- Within a run that is within the buffer, no place wraps. -/
theorem toNat_place (hbuf : buf.length ≤ maxObject) (hout : out.length * k.memorySize ≤ maxObject)
    (hroom : w.toNat + out.length * k.encodedLen ≤ buf.length) {i : Nat} (hi : i < out.length) :
    (w + i.toUInt64 * k.encodedLen.toUInt64).toNat = w.toNat + i * k.encodedLen := by
  have hle : i ≤ out.length := Nat.le_of_lt hi
  have hmemory : i * k.memorySize ≤ out.length * k.memorySize := Nat.mul_le_mul_right _ hle
  have hplace : i * k.encodedLen ≤ out.length * k.encodedLen := Nat.mul_le_mul_right _ hle
  have hword := k.toNat_runWord (Nat.le_trans hmemory hout)
  rw [Slot.toNat_add_of_le hbuf (by omega), hword]

/-- Computed in 64-bit words, offsets near the largest word included, the places are filled or kept
as they are in exact arithmetic. -/
theorem outcome_fillWord (hbuf : buf.length ≤ maxObject)
    (hout : out.length * k.memorySize ≤ maxObject) :
    outcome (UInt64.toNat <$> fillWord k buf w) out = outcome (fill k buf w.toNat) out := by
  rcases eq_or_ne out [] with rfl | hne
  · rfl
  have hcount : ¬ out.length = 0 := fun h => hne (List.length_eq_zero_iff.mp h)
  have hsize := k.toNat_runWord hout
  have hcheck : Slot.checkWord buf w (out.length.toUInt64 * k.encodedLen.toUInt64) "repeated run" =
      Slot.check buf w.toNat (out.length * k.encodedLen) "repeated run" := by
    rw [Slot.checkWord_eq hbuf, hsize]
  rw [outcome_fill_of_ne_nil hne, outcome_map]
  change ((outcome (ite (out.length = 0) _ _) out).1,
    UInt64.toNat <$> (outcome (ite (out.length = 0) _ _) out).2) = _
  rw [if_neg hcount, hcheck]
  rcases Nat.lt_or_ge buf.length (w.toNat + out.length * k.encodedLen) with hshort | hroom
  · rw [Slot.check_of_lt hshort]
    rfl
  · have hplace := fun i => toNat_place (i := i) hbuf hout hroom
    have hjudge : judgeEach k buf
        (fun i => (w + i.toUInt64 * k.encodedLen.toUInt64).toNat) out.length =
        judgeEach k buf (fun i => w.toNat + i * k.encodedLen) out.length :=
      forM_congr fun i hi => congrArg (judgeTag k buf) (hplace i (List.mem_range.mp hi))
    have hstore : storeEach
        (fun i => k.decodeWord buf (w + i.toUInt64 * k.encodedLen.toUInt64)) out.length =
        storeEach (fun i => k.decodeAt buf (w.toNat + i * k.encodedLen)) out.length := by
      refine forM_congr fun i hi => congrArg (store · i) ?_
      exact (k.decodeWord_eq hbuf _).trans
        (congrArg (k.decodeAt buf) (hplace i (List.mem_range.mp hi)))
    have hnext : (w + out.length.toUInt64 * k.encodedLen.toUInt64).toNat =
        w.toNat + out.length * k.encodedLen := by
      rw [Slot.toNat_add_of_le hbuf (by rwa [hsize]), hsize]
    rw [hjudge, hstore, ← hnext, ← outcome_map, map_bind]
    simp only [map_bind, map_pure]

end word

section decodeAt

variable {out vs : List k.Native} {n next : Nat} {e : WireError}

theorem decodeInto_of_ok (h : decodeAt k buf offset out.length = .ok (vs, next)) :
    decodeInto k buf offset out = (vs, .ok next) := by
  have hlen : (List.replicate out.length k.zero).length = out.length := List.length_replicate
  unfold decodeAt at h
  rcases decodeInto_cases k buf offset out.length with ⟨vs', next', hok⟩ | ⟨e, herror⟩
  · rw [hok _ hlen] at h
    cases h
    exact hok out rfl
  · rw [herror _ hlen] at h
    cases h

theorem decodeInto_of_error (h : decodeAt k buf offset out.length = .error e) :
    decodeInto k buf offset out = (out, .error e) := by
  have hlen : (List.replicate out.length k.zero).length = out.length := List.length_replicate
  unfold decodeAt at h
  rcases decodeInto_cases k buf offset out.length with ⟨vs', next', hok⟩ | ⟨e', herror⟩
  · rw [hok _ hlen] at h
    cases h
  · rw [herror _ hlen] at h
    cases h
    exact herror out rfl

theorem decodeInto_eq_ok_iff :
    decodeInto k buf offset out = (vs, .ok next) ↔
      decodeAt k buf offset out.length = .ok (vs, next) := by
  refine ⟨?_, decodeInto_of_ok⟩
  intro h
  cases hd : decodeAt k buf offset out.length with
  | ok r =>
    rw [decodeInto_of_ok hd] at h
    cases h
    rfl
  | error e =>
    rw [decodeInto_of_error hd] at h
    cases h

/-- Places for `n` elements, before any is stored. -/
theorem replicate_ne_nil (hn : n ≠ 0) : List.replicate n k.zero ≠ [] := by
  rwa [ne_eq, List.replicate_eq_nil_iff]

theorem decodeAt_zero : decodeAt k buf offset 0 = .error (.zeroLength "repeated run") := rfl

theorem decodeAt_of_short (hn : n ≠ 0) (h : buf.length < offset + n * k.encodedLen) :
    decodeAt k buf offset n =
      .error (.truncated offset (n * k.encodedLen) (buf.length - offset) "repeated run") := by
  have hlen : (List.replicate n k.zero).length = n := List.length_replicate
  rw [decodeAt, decodeInto_of_short (replicate_ne_nil hn) (by rwa [hlen]), hlen]

theorem decodeAt_of_judgeEach_error (hn : n ≠ 0) (hroom : offset + n * k.encodedLen ≤ buf.length)
    (h : judgeEach k buf (fun i => offset + i * k.encodedLen) n = .error e) :
    decodeAt k buf offset n = .error e := by
  have hlen : (List.replicate n k.zero).length = n := List.length_replicate
  rw [decodeAt, decodeInto_of_judgeEach_error (replicate_ne_nil hn) (by rwa [hlen])
    (by rwa [hlen])]

theorem decodeAt_of_bytes {tail : Bytes} (hne : vs ≠ [])
    (hbuf : buf.drop offset = bytes k vs ++ tail) :
    decodeAt k buf offset vs.length = .ok (vs, offset + vs.length * k.encodedLen) := by
  rw [decodeAt, decodeInto_of_bytes hne List.length_replicate.symm hbuf]

/-- In a run, the first element whose tag is refused decides. -/
theorem decodeAt_of_refused {tail : Bytes} {t : UInt8} (hn : 0 < n)
    (hroom : offset + n * k.encodedLen ≤ buf.length) (hbuf : buf.drop offset = t :: tail)
    (ht : k.accepts t = false) :
    decodeAt k buf offset n = .error (.tagMismatch offset k.name t) := by
  have hbyte : buf[offset]? = some t := by
    rw [← List.head?_drop, hbuf, List.head?_cons]
  have hfirst : judgeTag k buf (offset + 0 * k.encodedLen) =
      .error (.tagMismatch offset k.name t) := by
    rw [Nat.zero_mul, Nat.add_zero]
    exact judgeTag_of_refused hbyte ht
  exact decodeAt_of_judgeEach_error (Nat.ne_of_gt hn) hroom (forM_range_of_error hn hfirst nofun)

end decodeAt

end Run

end TaggedWire
