import TaggedWire.Proofs.Forms
import TaggedWire.Proofs.Reading

/-!
What more bytes can change. An element or a header at an offset is complete, or refused for good, or
cut off: then, and only then, there are bytes that complete it. Main statement: a reader says that
bytes are missing exactly where more bytes could help, and every other answer is final.
-/
namespace TaggedWire

def WireError.IsTruncated (e : WireError) : Prop :=
  ∃ offset need available context, e = .truncated offset need available context

/-- How a byte string is read before the bytes behind it are known. -/
inductive Outlook {α : Type} (decode : Bytes → Except WireError α) (Final : WireError → Prop)
    (buf : Bytes) : Prop
  | complete (a : α) : (∀ more, decode (buf ++ more) = .ok a) → Outlook decode Final buf
  | refused (e : WireError) : Final e → (∀ more, decode (buf ++ more) = .error e) →
      Outlook decode Final buf
  | cutOff (e : WireError) (more : Bytes) (a : α) : e.IsTruncated → decode buf = .error e →
      decode (buf ++ more) = .ok a → Outlook decode Final buf

/-- A reader reports missing bytes exactly where there is nothing to read yet but would be with more
bytes. What it reads, and what it refuses for one of the causes `Final`, stays so with more bytes,
and there are no other causes. -/
structure Foreseeing {α : Type} (decode : Bytes → Except WireError α) (Final : WireError → Prop)
    (buf : Bytes) : Prop where
  truncated_iff : (∃ e, e.IsTruncated ∧ decode buf = .error e) ↔
    (∀ a, decode buf ≠ .ok a) ∧ ∃ more, more ≠ [] ∧ ∃ a, decode (buf ++ more) = .ok a
  ok_append : ∀ a, decode buf = .ok a → ∀ more, decode (buf ++ more) = .ok a
  final_append : ∀ e, Final e → decode buf = .error e → ∀ more, decode (buf ++ more) = .error e
  truncated_or_final : ∀ e, decode buf = .error e → e.IsTruncated ∨ Final e

namespace Outlook

variable {α β : Type} {decode : Bytes → Except WireError α} {Final : WireError → Prop} {buf : Bytes}

theorem map (h : Outlook decode Final buf) (f : α → β) :
    Outlook (fun b => f <$> decode b) Final buf := by
  cases h with
  | complete a hall =>
    refine .complete (f a) ?_
    intro more
    simp only [hall more]
    rfl
  | refused e hfinal hall =>
    refine .refused e hfinal ?_
    intro more
    simp only [hall more]
    rfl
  | cutOff e more a hshort hbuf hmore =>
    refine .cutOff e more (f a) hshort ?_ ?_
    · simp only [hbuf]
      rfl
    · simp only [hmore]
      rfl

/-- Behind an offset, a byte string goes on as it does at the front. An offset beyond the end is
reached with some bytes more. -/
theorem drop {offset : Nat} (h : Outlook decode Final (buf.drop offset)) :
    Outlook (fun b => decode (b.drop offset)) Final buf := by
  cases h with
  | complete a hall =>
    refine .complete a ?_
    intro more
    rw [List.drop_append]
    exact hall _
  | refused e hfinal hall =>
    refine .refused e hfinal ?_
    intro more
    rw [List.drop_append]
    exact hall _
  | cutOff e more a hshort hbuf hmore =>
    refine .cutOff e (List.replicate (offset - buf.length) 0 ++ more) a hshort hbuf ?_
    rw [List.drop_append, List.drop_left' List.length_replicate]
    exact hmore

theorem foreseeing (h : Outlook decode Final buf) (hfinal : ∀ e, Final e → ¬ e.IsTruncated) :
    Foreseeing decode Final buf := by
  cases h with
  | complete a hall =>
    have hbuf : decode buf = .ok a := by simpa using hall []
    refine ⟨by simp [hbuf], ?_, by simp [hbuf], by simp [hbuf]⟩
    intro b hb more
    rw [hall more, ← hbuf, hb]
  | refused e he hall =>
    have hbuf : decode buf = .error e := by simpa using hall []
    refine ⟨by simp [hbuf, hall, hfinal e he], by simp [hbuf], ?_, ?_⟩
    · intro e' _ he' more
      rw [hall more, ← hbuf, he']
    · intro e' he'
      cases hbuf.symm.trans he'
      exact .inr he
  | cutOff e more a htruncated hbuf hmore =>
    have hne : more ≠ [] := by
      rintro rfl
      rw [List.append_nil, hbuf] at hmore
      cases hmore
    refine ⟨?_, by simp [hbuf], ?_, ?_⟩
    · exact iff_of_true ⟨e, htruncated, hbuf⟩ ⟨by simp [hbuf], more, hne, a, hmore⟩
    · intro e' he' hbuf'
      cases hbuf.symm.trans hbuf'
      exact absurd htruncated (hfinal e he')
    · intro e' he'
      cases hbuf.symm.trans he'
      exact .inl htruncated

end Outlook

namespace Kind

variable {k : Kind}

/-- Bytes start with an element of the kind, or with a byte that no element of it starts with, or
they are the front of an element. -/
theorem exists_element_or_refused_or_front (k : Kind) (rest : Bytes) :
    (∃ v tail, rest = k.encode v ++ tail) ∨ (∃ t tail, rest = t :: tail ∧ k.accepts t = false) ∨
      ∃ v more, more ≠ [] ∧ rest ++ more = k.encode v := by
  cases rest with
  | nil => exact .inr (.inr ⟨k.assemble 0 [], _, List.cons_ne_nil _ _, rfl⟩)
  | cons t left =>
    cases ht : k.accepts t with
    | false => exact .inr (.inl ⟨t, left, rfl, ht⟩)
    | true =>
      rcases Nat.lt_or_ge left.length k.payloadLen with hshort | hlong
      · -- zeros fill up the payload
        have hlen : (left ++ List.replicate (k.payloadLen - left.length) 0).length =
            k.payloadLen := by
          rw [List.length_append, List.length_replicate]
          omega
        refine .inr (.inr ⟨_, List.replicate (k.payloadLen - left.length) 0, ?_,
          (encode_assemble ht hlen).symm⟩)
        rw [ne_eq, List.replicate_eq_nil_iff]
        omega
      · refine .inl ⟨k.assemble t (left.take k.payloadLen), left.drop k.payloadLen, ?_⟩
        rw [encode_assemble ht (List.length_take_of_le hlong), List.cons_append,
          List.take_append_drop]

theorem read_of_front {rest more : Bytes} {v : k.Native} (h : rest ++ more = k.encode v)
    (hne : more ≠ []) (offset : Nat) :
    ∃ e : WireError, e.IsTruncated ∧ k.read offset rest = .error e := by
  cases rest with
  | nil => exact ⟨_, ⟨offset, 1, 0, k.name, rfl⟩, rfl⟩
  | cons t left =>
    obtain ⟨rfl, hpayload⟩ := List.cons.inj h
    have hpos := List.length_pos_of_ne_nil hne
    have hlen : left.length + more.length = k.payloadLen := by
      rw [← List.length_append, ← length_payload k v]
      exact congrArg List.length hpayload
    have hcut : ¬ (left.take k.payloadLen).length = k.payloadLen := by
      rw [List.length_take]
      omega
    refine ⟨_, ⟨offset, k.encodedLen, left.length + 1, k.name, rfl⟩, ?_⟩
    simp only [read, accepts_tag, if_true, if_neg hcut, List.length_cons]

theorem outlook_read (k : Kind) (offset : Nat) (rest : Bytes) :
    Outlook (fun b => (·.1) <$> k.read offset b) (fun e => ∃ t, e = .tagMismatch offset k.name t)
      rest := by
  rcases k.exists_element_or_refused_or_front rest with
    ⟨v, tail, rfl⟩ | ⟨t, tail, rfl, ht⟩ | ⟨v, more, hne, hfront⟩
  · refine .complete v ?_
    intro more
    rw [List.append_assoc, read_encode_append]
    rfl
  · refine .refused _ ⟨t, rfl⟩ ?_
    intro more
    simp only [List.cons_append, read, ht, Bool.false_eq_true, if_false]
    rfl
  · obtain ⟨e, htruncated, hread⟩ := read_of_front hfront hne offset
    refine .cutOff e more v htruncated ?_ ?_
    · rw [hread]
      rfl
    · rw [hfront, ← List.append_nil (k.encode v), read_encode_append]
      rfl

end Kind

namespace BigEndian

theorem decode_append (xs ys : Bytes) :
    decode (xs ++ ys) = decode xs * 256 ^ ys.length + decode ys := by
  rw [decode, List.foldl_append, foldl_eq]
  rfl

theorem decode_pos_of_append_one (xs : Bytes) : 0 < decode (xs ++ [1]) := by
  rw [decode_append]
  exact Nat.lt_of_lt_of_le Nat.zero_lt_one (Nat.le_add_left _ _)

end BigEndian

namespace ArrayHeader

/-- The bytes after a marker can be filled up to a count that is not zero. -/
theorem exists_filled {width : Nat} {left : Bytes} (h : left.length < width) :
    ∃ n more, 0 < n ∧ n < 256 ^ width ∧ left ++ more = BigEndian.encode width n := by
  let count := left ++ List.replicate (width - left.length - 1) 0 ++ [1]
  have hlen : count.length = width := by
    simp only [count, List.length_append, List.length_replicate, List.length_singleton]
    omega
  have hlt := BigEndian.decode_lt count
  have hback := BigEndian.encode_decode count
  rw [hlen] at hlt hback
  refine ⟨BigEndian.decode count, List.replicate (width - left.length - 1) 0 ++ [1],
    BigEndian.decode_pos_of_append_one _, hlt, ?_⟩
  rw [hback, ← List.append_assoc]

theorem Selects.exists_completed {b : UInt8} {form : ArrayForm} {left : Bytes} (h : Selects b form)
    (hshort : (b :: left).length < form.headerLen) :
    ∃ (n : ArrayLength) (more : Bytes), Announces n.val (b :: left ++ more) := by
  cases h with
  | fixArray => exact absurd (Nat.lt_of_succ_lt_succ hshort) (Nat.not_lt_zero _)
  | array16 =>
    obtain ⟨n, more, hpos, hlt, hmore⟩ := exists_filled (Nat.lt_of_succ_lt_succ hshort)
    have hle : n ≤ 65535 := by omega
    refine ⟨⟨n, hpos, Nat.le_trans hle (by decide)⟩, more, ?_⟩
    rw [List.cons_append, hmore]
    exact .array16 hle
  | array32 =>
    obtain ⟨n, more, hpos, hlt, hmore⟩ := exists_filled (Nat.lt_of_succ_lt_succ hshort)
    have hle : n ≤ maxElements := by
      unfold maxElements
      omega
    refine ⟨⟨n, hpos, hle⟩, more, ?_⟩
    rw [List.cons_append, hmore]
    exact .array32 hle

theorem outlook_read (offset : Nat) (rest : Bytes) :
    Outlook (read offset)
      (fun e => (∃ b, e = .invalidArrayHeader offset b) ∨ ∃ context, e = .zeroLength context)
      rest := by
  rcases exists_fault_or_announces offset rest with ⟨e, hfault⟩ | ⟨n, header, tail, hn, rfl⟩
  · have hread := hfault.read_eq
    cases hfault with
    | missing =>
      have hone : Announces 1 ([] ++ [0x91]) := .fixArray (by decide)
      exact .cutOff _ _ (⟨1, Nat.one_pos, by decide⟩, _) ⟨_, _, _, _, rfl⟩ hread
        (read_eq_ok_iff.mpr ⟨_, [], hone, (List.append_nil _).symm, rfl⟩)
    | cutOff hform hshort =>
      obtain ⟨n, more, hn⟩ := hform.exists_completed hshort
      exact .cutOff _ more (n, _) ⟨_, _, _, _, rfl⟩ hread
        (read_eq_ok_iff.mpr ⟨_, [], hn, (List.append_nil _).symm, rfl⟩)
    | @unknown b left hnone =>
      refine .refused _ (.inl ⟨b, rfl⟩) ?_
      intro more
      exact read_of_unknown hnone offset _
    | zero hzero =>
      refine .refused _ (.inr ⟨"decoded array header", rfl⟩) ?_
      intro more
      rw [List.append_assoc]
      exact (Fault.zero hzero).read_eq
  · refine .complete (n, header.length) ?_
    intro more
    rw [List.append_assoc]
    exact read_eq_ok_iff.mpr ⟨header, tail ++ more, hn, rfl, rfl⟩

theorem decodeAt_eq (buf : Bytes) (offset : Nat) :
    decodeAt buf offset = (fun p => (p.1, offset + p.2)) <$> read offset (buf.drop offset) := by
  unfold decodeAt
  cases read offset (buf.drop offset) <;> rfl

end ArrayHeader

/-- At every offset, a value or a header is reported as truncated exactly if it is not read and some
more bytes would make it be read. What is read stays as it is with any more bytes, and so does the
wrong tag of a value, and the unknown first byte or the count zero of a header. -/
theorem decodeAt_truncated_iff_extendable (buf : Bytes) (offset : Nat) :
    (∀ k, Foreseeing (fun b => Value.decodeAt k b offset)
      (fun e => ∃ t, e = .tagMismatch offset k.name t) buf) ∧
    Foreseeing (fun b => ArrayHeader.decodeAt b offset)
      (fun e => (∃ b, e = .invalidArrayHeader offset b) ∨ ∃ context, e = .zeroLength context)
      buf := by
  constructor
  · intro k
    have hdecode : (fun b => Value.decodeAt k b offset) =
        fun b => Value.ofNative k <$> ((·.1) <$> k.read offset (b.drop offset)) := by
      funext b
      exact Value.decodeAt_eq k b offset
    rw [hdecode]
    refine ((k.outlook_read offset _).drop.map (Value.ofNative k)).foreseeing ?_
    rintro e ⟨t, rfl⟩ ⟨_, _, _, _, h⟩
    cases h
  · have hdecode : (fun b => ArrayHeader.decodeAt b offset) =
        fun b => (fun p => (p.1, offset + p.2)) <$> ArrayHeader.read offset (b.drop offset) := by
      funext b
      exact ArrayHeader.decodeAt_eq b offset
    rw [hdecode]
    refine ((ArrayHeader.outlook_read offset _).drop.map _).foreseeing ?_
    rintro e (⟨b, rfl⟩ | ⟨context, rfl⟩) ⟨_, _, _, _, h⟩
    · cases h
    · cases h

end TaggedWire
