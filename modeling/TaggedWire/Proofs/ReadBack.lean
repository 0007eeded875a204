import TaggedWire.Proofs.Bounded
import TaggedWire.Proofs.Reading

/-!
Reading back what was written. A script is a list of writes, each with the call that takes its item
again. Main statement: a reader of the bytes that a script has written stands after each of its
calls where the writer stood after the write, and is answered what was written; a call for anything
else at such a place fails with the byte that gave it away.
-/
namespace TaggedWire

namespace Reader

theorem rest_move (r : Reader) (n : Nat) :
    ({ r with position := r.position + n } : Reader).rest = r.rest.drop n :=
  List.drop_drop.symm

/-- The reader after calls in order; the next one is made also when one fails. -/
def perform (r : Reader) (calls : List Call) : Reader :=
  calls.foldl (fun r c => (r.call c).1) r

theorem perform_cons (r : Reader) (c : Call) (calls : List Call) :
    r.perform (c :: calls) = (r.call c).1.perform calls := rfl

/-- The byte `b` at the position of the reader starts no element of the kind `k`, alone or in a run
that lies within the input. -/
structure Mismatch (r : Reader) (b : UInt8) (k : Kind) : Prop where
  take : r.call (.op (.take k)) = (r, .error (.tagMismatch r.position k.name b))
  takeValue : r.call (.op (.takeValue k)) = (r, .error (.tagMismatch r.position k.name b))
  takeManyInto : ∀ out : List k.Native, out ≠ [] →
    r.position + out.length * k.encodedLen ≤ r.input.length →
    r.call (.takeManyInto k out) = (r, .error (.tagMismatch r.position k.name b))

theorem mismatch_of_refused {r : Reader} {b : UInt8} {tail : Bytes} {k : Kind}
    (hrest : r.rest = b :: tail) (hk : k.accepts b = false) : r.Mismatch b k := by
  have hdecode := Kind.decodeAt_of_refused hrest hk
  refine ⟨call_of_error ?_, call_of_error ?_, ?_⟩
  · rw [Call.find, hdecode]
    rfl
  · rw [Call.find, Value.decodeAt_eq, hdecode]
    rfl
  · intro out hout hroom
    apply call_of_error
    rw [Call.find, Run.decodeAt_of_refused (List.length_pos_of_ne_nil hout) hroom hrest hk]
    rfl

theorem takeArrayHeader_of_accepts {r : Reader} {b : UInt8} {tail : Bytes} {k : Kind}
    (hrest : r.rest = b :: tail) (hk : k.accepts b = true) :
    r.call (.op .takeArrayHeader) = (r, .error (.invalidArrayHeader r.position b)) := by
  apply call_of_error
  rw [Call.find, ArrayHeader.decodeAt_of_accepts hrest hk]
  rfl

/-- The shortest bytes of an item. -/
def Item.bytes : Item → Bytes
  | native k v => k.encode v
  | value v => v.encode
  | header n => n.encode
  | expected => []
  | run k vs => Run.bytes k vs

end Reader

/-- The kind of the element that a request writes first; a header is no element. -/
def Writer.Op.firstKind? : Writer.Op → Option Kind
  | put k _ => some k
  | putValue v => some v.kind
  | putArrayHeader _ => none
  | putMany k _ => some k
  | putTrailer _ => some .uint16

/-- The calls that take an item as it was written. -/
inductive Counterpart : Writer.Op → Reader.Call → Reader.Item → Prop
  | put (k : Kind) (v : k.Native) : Counterpart (.put k v) (.op (.take k)) (.native k v)
  | putValue (v : Value) : Counterpart (.putValue v) (.op (.takeValue v.kind)) (.value v)
  | putArrayHeader (n : ArrayLength) :
      Counterpart (.putArrayHeader n) (.op .takeArrayHeader) (.header n)
  | putMany (k : Kind) (vs out : List k.Native) : vs ≠ [] → out.length = vs.length →
      Counterpart (.putMany k vs) (.takeManyInto k out) (.run k vs)

/-- One step of a script: what is written, how it is taken, and what is to be answered then. -/
structure Exchange where
  write : Writer.Op
  read : Reader.Call
  item : Reader.Item
  counterpart : Counterpart write read item

namespace Exchange

theorem appends (x : Exchange) (written : Bytes) :
    ∃ n, x.write.Appends written x.item.bytes n := by
  obtain ⟨write, read, item, h⟩ := x
  cases h with
  | put k v => exact ⟨_, .put k v⟩
  | putValue v => exact ⟨_, .putValue v⟩
  | putArrayHeader n => exact ⟨_, .putArrayHeader n⟩
  | putMany k vs out hne => exact ⟨_, .putMany k vs hne⟩

/-- What was written is found again, whatever follows it. -/
theorem find_read (x : Exchange) {r : Reader} {tail : Bytes}
    (hrest : r.rest = x.item.bytes ++ tail) :
    x.read.find r = .ok (x.item, r.position + x.item.bytes.length) := by
  obtain ⟨write, read, item, h⟩ := x
  cases h with
  | put k v =>
    have hdecode := Kind.decodeAt_eq_ok_iff.mpr ⟨tail, hrest⟩
    rw [Reader.Call.find, hdecode, Reader.Item.bytes, Kind.length_encode]
    rfl
  | putValue v =>
    have hdecode := Value.decodeAt_eq_ok_iff.mpr ⟨rfl, tail, hrest⟩
    rw [Reader.Call.find, hdecode, Reader.Item.bytes, Value.length_encode]
    rfl
  | putArrayHeader n =>
    have hdecode := ArrayHeader.decodeAt_eq_ok_iff.mpr
      ⟨n.encode, tail, ArrayHeader.announces_encode n, hrest, rfl⟩
    rw [Reader.Call.find, hdecode]
    rfl
  | putMany k vs out hne hlen =>
    have hdecode := Run.decodeAt_of_bytes hne hrest
    rw [Reader.Call.find, hlen, hdecode, Reader.Item.bytes, Run.length_bytes]
    rfl

/-- The first byte of what is written tells the kind of the element there, if it is one. -/
theorem exists_first (x : Exchange) :
    ∃ b tail, x.item.bytes = b :: tail ∧
      (∀ k, x.write.firstKind? ≠ some k → k.accepts b = false) ∧
      ∀ k, x.write.firstKind? = some k → k.accepts b = true := by
  -- no byte is a tag of two kinds
  have helement : ∀ {b : UInt8} {k : Kind}, k.accepts b = true →
      (∀ j, some k ≠ some j → j.accepts b = false) ∧ ∀ j, some k = some j → j.accepts b = true := by
    intro b k hk
    refine ⟨?_, ?_⟩
    · intro j hj
      by_contra hacc
      exact hj (congrArg some (Kind.eq_of_accepts hk (Bool.eq_true_of_not_eq_false hacc)))
    · rintro j ⟨⟩
      exact hk
  obtain ⟨write, read, item, h⟩ := x
  cases h with
  | put k v => exact ⟨_, _, rfl, helement (Kind.accepts_tag k v)⟩
  | putValue v =>
    obtain ⟨t, payload, hv, ht⟩ := v.exists_encode_cons
    exact ⟨t, payload, hv, helement ht⟩
  | putArrayHeader n =>
    obtain ⟨b, tail, hb, hrefused⟩ := (ArrayHeader.announces_encode n).exists_cons
    exact ⟨b, tail, hb, fun k _ => hrefused k, fun k hk => nomatch hk⟩
  | putMany k vs out hne =>
    obtain ⟨v, vs, rfl⟩ := List.exists_cons_of_ne_nil hne
    exact ⟨_, _, Run.bytes_cons k v vs, helement (Kind.accepts_tag k v)⟩

def stream (script : List Exchange) : Bytes :=
  script.flatMap (fun x => x.item.bytes)

theorem stream_append (front back : List Exchange) :
    stream (front ++ back) = stream front ++ stream back := List.flatMap_append

theorem stream_take_append_drop (script : List Exchange) (i : Nat) :
    stream (script.take i) ++ stream (script.drop i) = stream script := by
  rw [← stream_append, List.take_append_drop]

theorem stream_cons (x : Exchange) (script : List Exchange) :
    stream (x :: script) = x.item.bytes ++ stream script := List.flatMap_cons

theorem perform_writes (script : List Exchange) :
    (Writer.growing []).perform (script.map write) = Writer.growing (stream script) :=
  Writer.perform_growing appends script []

/-- The calls of a script take a reader over all that the script has written. -/
theorem perform_reads (script : List Exchange) {r : Reader} {tail : Bytes}
    (hrest : r.rest = stream script ++ tail) :
    r.perform (script.map read) = { r with position := r.position + (stream script).length } := by
  -- the reader moves on with each call, what follows the script stays the same
  induction script generalizing r with
  | nil => rfl
  | cons x script ih =>
    rw [stream_cons, List.append_assoc] at hrest
    have hmoved := r.rest_move x.item.bytes.length
    rw [hrest, List.drop_left] at hmoved
    rw [List.map_cons, Reader.perform_cons, Reader.call_of_found (x.find_read hrest), ih hmoved,
      stream_cons, List.length_append, Nat.add_assoc]

/-- The reader of a script before its call number `i`. -/
def readerAt (script : List Exchange) (i : Nat) : Reader :=
  ⟨stream script, (stream (script.take i)).length⟩

theorem perform_take (script : List Exchange) (i : Nat) :
    (Reader.ofBytes (stream script)).perform ((script.map read).take i) = readerAt script i := by
  have hrest : (Reader.ofBytes (stream script)).rest =
      stream (script.take i) ++ stream (script.drop i) :=
    (stream_take_append_drop script i).symm
  rw [← List.map_take, perform_reads _ hrest, readerAt, Reader.ofBytes, Nat.zero_add]

theorem rest_readerAt {script : List Exchange} {i : Nat} {x : Exchange} (hx : script[i]? = some x) :
    (readerAt script i).rest = x.item.bytes ++ stream (script.drop (i + 1)) := by
  obtain ⟨hi, rfl⟩ := List.getElem?_eq_some_iff.mp hx
  rw [readerAt, Reader.rest, ← stream_take_append_drop script i, List.drop_left,
    List.drop_eq_getElem_cons hi, stream_cons]

/-- Every write of a script succeeds. A reader of the written bytes stands before and after each
call where the writer stood, is answered the items that were written, and has read everything in the
end. Where an element was written, calls for elements of other kinds and for a header fail; where a
header was written, calls for elements of any kind fail; and the reader does not move. -/
theorem read_back_written (script : List Exchange) :
    let written := ((Writer.growing []).perform (script.map write)).written
    let w := fun i => (Writer.growing []).perform ((script.map write).take i)
    let r := fun i => (Reader.ofBytes written).perform ((script.map read).take i)
    (Writer.growing []).accepted (script.map write) = script.map write ∧
    (∀ i, (r i).position = (w i).position) ∧
    (r script.length).finish = .ok written.length ∧
    ∀ i x, script[i]? = some x →
      ((r i).call x.read).2 = .ok x.item ∧
      ∃ b, written[(r i).position]? = some b ∧
        (∀ k, x.write.firstKind? ≠ some k → (r i).Mismatch b k) ∧
        (x.write.firstKind? ≠ none →
          (r i).call (.op .takeArrayHeader) =
            (r i, .error (.invalidArrayHeader (r i).position b))) := by
  intro written w r
  have hwritten : written = stream script := congrArg Writer.written (perform_writes script)
  have hr : ∀ i, r i = readerAt script i := by
    intro i
    rw [← perform_take, ← hwritten]
  refine ⟨Writer.accepted_growing appends script [], ?_, ?_, ?_⟩
  · intro i
    have hw : w i = Writer.growing (stream (script.take i)) := by
      rw [← perform_writes, List.map_take]
    rw [hr, hw]
    rfl
  · rw [hr, hwritten, readerAt, List.take_length]
    exact if_pos rfl
  · intro i x hx
    have hrest := rest_readerAt hx
    rw [hr, hwritten]
    refine ⟨by rw [Reader.call_of_found (x.find_read hrest)], ?_⟩
    obtain ⟨b, tail, hfirst, hothers, hown⟩ := x.exists_first
    rw [hfirst, List.cons_append] at hrest
    refine ⟨b, ?_, ?_, ?_⟩
    · rw [← List.head?_drop]
      exact congrArg List.head? hrest
    · intro k hk
      exact Reader.mismatch_of_refused hrest (hothers k hk)
    · intro hsome
      obtain ⟨k, hk⟩ := Option.ne_none_iff_exists'.mp hsome
      exact Reader.takeArrayHeader_of_accepts hrest (hown k hk)

end Exchange

end TaggedWire
