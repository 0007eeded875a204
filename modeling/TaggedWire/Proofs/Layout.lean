import Mathlib.Data.List.Pairwise
import TaggedWire.Proofs.Bounded
import TaggedWire.Proofs.Header
import TaggedWire.Proofs.Sealing

/-!
Layouts: items that lie one behind the other from the start of a buffer. No two of them share a
byte, so it does not matter in which order they are written at their offsets. Main statement: a
fixed buffer that is filled in any order holds what a growing writer holds after the items in their
own order, and both are sealed by the same trailer.
-/
namespace TaggedWire

/-- Sealing a buffer replaces what stands behind the covered bytes by their trailer. -/
theorem FixedBuffer.stamp_of_bytes {m : Nat} {b : FixedBuffer (m + Trailer.len)}
    {covered rest : Bytes} (hb : b.bytes = covered ++ rest) (hm : covered.length = m)
    (h : Trailer.len < m + Trailer.len) :
    (b.stamp h).1.bytes = (Trailer.push covered).1 ∧ (b.stamp h).2 = (Trailer.push covered).2 := by
  have hrest : rest.length = Trailer.len := by
    have hlen := b.length_eq
    rw [hb, List.length_append, hm] at hlen
    exact Nat.add_left_cancel hlen
  have hstamp := b.stamp_eq h
  rw [hb, Trailer.stamp_append hrest, Prod.mk.injEq, Except.ok.injEq] at hstamp
  exact ⟨hstamp.1.symm, hstamp.2.symm⟩

namespace Layout

/-- What can stand in a layout. -/
inductive Item where
  | header (count : ArrayLength)
  | element (k : Kind) (v : k.Native)
  | run (k : Kind) (vs : List k.Native) (nonempty : vs ≠ [])

namespace Item

def bytes : Item → Bytes
  | header count => count.encode
  | element k v => k.encode v
  | run k vs _ => Run.bytes k vs

/-- The room that an item is given, known from its count and its kind alone. -/
def size : Item → Nat
  | header count => ArrayHeader.encodedLen count.val
  | element k _ => k.encodedLen
  | run k vs _ => vs.length * k.encodedLen

@[simp] theorem length_bytes (i : Item) : i.bytes.length = i.size := by
  cases i with
  | header count => exact (ArrayHeader.encodedLen_val count).symm
  | element k v => exact Kind.length_encode k v
  | run k vs _ => exact Run.length_bytes k vs

theorem size_pos (i : Item) : 0 < i.size := by
  cases i with
  | header count =>
    rw [size, ArrayHeader.encodedLen]
    split_ifs <;> decide
  | element k v => exact k.encodedLen_pos
  | run k vs nonempty => exact Nat.mul_pos (List.length_pos_of_ne_nil nonempty) k.encodedLen_pos

def total (items : List Item) : Nat :=
  (items.map size).sum

@[simp] theorem total_cons (i : Item) (items : List Item) :
    total (i :: items) = i.size + total items := List.sum_cons

def op : Item → Writer.Op
  | header count => .putArrayHeader count
  | element k v => .put k v
  | run k vs _ => .putMany k vs

theorem appends_op (i : Item) (written : Bytes) : i.op.Appends written i.bytes i.size := by
  cases i with
  | header count =>
    rw [size, ArrayHeader.encodedLen_val]
    exact .putArrayHeader count
  | element k v => exact .put k v
  | run k vs nonempty => exact .putMany k vs nonempty

theorem perform_ops (items : List Item) (written : Bytes) :
    (Writer.growing written).perform (items.map op) =
      Writer.growing (written ++ items.flatMap bytes) :=
  Writer.perform_growing (fun i written => ⟨i.size, i.appends_op written⟩) items written

theorem accepted_ops (items : List Item) (written : Bytes) :
    (Writer.growing written).accepted (items.map op) = items.map op :=
  Writer.accepted_growing (fun i written => ⟨i.size, i.appends_op written⟩) items written

end Item

/-- An item at an offset where it fits into `n` bytes. -/
structure Placement (n : Nat) where
  offset : Nat
  item : Item
  fits : offset + item.size ≤ n

namespace Placement

variable {n : Nat}

/-- Writes the item at its offset and returns the offset after it. -/
def write (p : Placement n) (b : FixedBuffer n) : FixedBuffer n × Nat :=
  match p with
  | ⟨offset, .header count, fits⟩ =>
    b.putArrayHeader offset count (by
      rwa [Item.size, ArrayHeader.encodedLen_val, ArrayLength.length_encode] at fits)
  | ⟨offset, .element k v, fits⟩ => b.put offset k v fits
  | ⟨offset, .run k vs _, fits⟩ => b.putMany offset k vs (by rwa [Run.length_bytes])

theorem bytes_write (p : Placement n) (b : FixedBuffer n) :
    (p.write b).1.bytes = Slot.splice b.bytes p.offset p.item.bytes := by
  obtain ⟨offset, item, fits⟩ := p
  cases item with
  | header count => rfl
  | element k v => rfl
  | run k vs nonempty =>
    rw [write, FixedBuffer.putMany_eq]
    rfl

theorem bytes_write_of_front {p : Placement n} {b : FixedBuffer n} {front rest : Bytes}
    (hb : b.bytes = front ++ rest) (hp : front.length = p.offset) :
    (p.write b).1.bytes = front ++ p.item.bytes ++ rest.drop p.item.size := by
  rw [bytes_write, hb, ← hp, Slot.splice_append_left, Item.length_bytes]

theorem next_write (p : Placement n) (b : FixedBuffer n) :
    (p.write b).2 = p.offset + p.item.size := by
  obtain ⟨offset, item, fits⟩ := p
  cases item with
  | header count =>
    rw [Item.size, ArrayHeader.encodedLen_val, ArrayLength.length_encode]
    rfl
  | element k v => rfl
  | run k vs nonempty => rw [write, FixedBuffer.putMany_eq, Item.size, Run.length_bytes]

theorem length_bytes_le (p : Placement n) (b : FixedBuffer n) :
    p.offset + p.item.bytes.length ≤ b.bytes.length := by
  rw [Item.length_bytes, b.length_eq]
  exact p.fits

/-- Whether it makes no difference which of the two is written first. -/
def Commutes (p q : Placement n) : Prop :=
  ∀ b, (q.write (p.write b).1).1 = (p.write (q.write b).1).1

instance : Std.Symm (Commutes (n := n)) :=
  ⟨fun _ _ h b => (h b).symm⟩

theorem commutes_of_le {p q : Placement n} (h : p.offset + p.item.size ≤ q.offset) :
    p.Commutes q := by
  intro b
  apply FixedBuffer.ext_bytes
  rw [bytes_write, bytes_write, bytes_write, bytes_write]
  exact Slot.splice_comm (p.length_bytes_le b) (q.length_bytes_le b)
    (.inl (by rwa [Item.length_bytes]))

end Placement

section arrange

variable {n : Nat}

/-- The items one behind the other, the first one at `start`. -/
def arrange (start : Nat) : (items : List Item) → start + Item.total items ≤ n → List (Placement n)
  | [], _ => []
  | i :: items, h =>
    have hnext : start + i.size + Item.total items ≤ n := by
      rwa [Item.total_cons, ← Nat.add_assoc] at h
    ⟨start, i, Nat.le_trans (Nat.le_add_right _ _) hnext⟩ :: arrange (start + i.size) items hnext

theorem map_item_arrange (start : Nat) (items : List Item) (h : start + Item.total items ≤ n) :
    (arrange start items h).map Placement.item = items := by
  induction items generalizing start with
  | nil => rfl
  | cons i items ih => rw [arrange, List.map_cons, ih]

theorem offset_of_getElem?_arrange {start : Nat} {items : List Item}
    {h : start + Item.total items ≤ n} {j : Nat} {p : Placement n}
    (hp : (arrange start items h)[j]? = some p) :
    p.offset = start + Item.total (items.take j) := by
  induction items generalizing start j with
  | nil => cases hp
  | cons i items ih =>
    cases j with
    | zero =>
      cases hp
      rfl
    | succ j =>
      rw [arrange, List.getElem?_cons_succ] at hp
      rw [ih hp, List.take_succ_cons, Item.total_cons, Nat.add_assoc]

theorem start_le_of_mem_arrange {start : Nat} {items : List Item}
    {h : start + Item.total items ≤ n} {p : Placement n} (hp : p ∈ arrange start items h) :
    start ≤ p.offset := by
  obtain ⟨j, hj⟩ := List.mem_iff_getElem?.mp hp
  rw [offset_of_getElem?_arrange hj]
  exact Nat.le_add_right _ _

theorem pairwise_arrange (start : Nat) (items : List Item) (h : start + Item.total items ≤ n) :
    (arrange start items h).Pairwise Placement.Commutes := by
  induction items generalizing start with
  | nil => exact List.Pairwise.nil
  | cons i items ih =>
    rw [arrange]
    refine List.Pairwise.cons ?_ (ih _ _)
    intro q hq
    exact Placement.commutes_of_le (start_le_of_mem_arrange hq)

/-- The buffer after the placements were written, one after the other. -/
def fill (b : FixedBuffer n) (ps : List (Placement n)) : FixedBuffer n :=
  ps.foldl (fun b p => (p.write b).1) b

theorem fill_cons (b : FixedBuffer n) (p : Placement n) (ps : List (Placement n)) :
    fill b (p :: ps) = fill (p.write b).1 ps := rfl

theorem fill_of_perm {ps qs : List (Placement n)} (hperm : ps.Perm qs)
    (hqs : qs.Pairwise Placement.Commutes) (b : FixedBuffer n) : fill b ps = fill b qs := by
  refine (hperm.symm.foldl_eq' ?_ b).symm
  intro p hp q hq b'
  -- the library asks for every pair, also for an item and itself
  exact hqs.forall_of_forall (fun _ _ _ => rfl) hp hq b'

theorem bytes_fill_arrange {start : Nat} {items : List Item} {h : start + Item.total items ≤ n}
    {b : FixedBuffer n} {front rest : Bytes} (hb : b.bytes = front ++ rest)
    (hstart : front.length = start) :
    (fill b (arrange start items h)).bytes =
      front ++ items.flatMap Item.bytes ++ rest.drop (Item.total items) := by
  -- each item moves the boundary between what is written and what the buffer held before, so the
  -- front is generalized along with the offset
  induction items generalizing start b front rest with
  | nil =>
    rw [List.flatMap_nil, List.append_nil]
    exact hb
  | cons i items ih =>
    have hlen : (front ++ i.bytes).length = start + i.size := by
      rw [List.length_append, hstart, Item.length_bytes]
    rw [arrange, fill_cons]
    refine (ih (Placement.bytes_write_of_front hb hstart) hlen).trans ?_
    rw [List.flatMap_cons, List.append_assoc front, List.drop_drop, Item.total_cons]

end arrange

end Layout

/-- Items that lie one behind the other, at least one. -/
structure Layout where
  items : List Layout.Item
  nonempty : items ≠ []

namespace Layout

def total (l : Layout) : Nat :=
  Item.total l.items

theorem total_pos (l : Layout) : 0 < l.total := by
  obtain ⟨items, nonempty⟩ := l
  cases items with
  | nil => exact absurd rfl nonempty
  | cons i items =>
    rw [total, Item.total_cons]
    exact Nat.add_pos_left i.size_pos _

/-- Behind the items there is room for a trailer, and it covers something. -/
theorem trailer_fits (l : Layout) : Trailer.len < l.total + Trailer.len :=
  Nat.lt_add_of_pos_left l.total_pos

/-- The items at their offsets, from the start of any buffer that is long enough. -/
def arrangement (l : Layout) {n : Nat} (h : l.total ≤ n) : List (Placement n) :=
  arrange 0 l.items (by rwa [Nat.zero_add])

def bytes (l : Layout) : Bytes :=
  l.items.flatMap Item.bytes

@[simp] theorem length_bytes (l : Layout) : l.bytes.length = l.total := by
  rw [bytes, List.length_flatMap, total, Item.total]
  simp only [Item.length_bytes]

def ops (l : Layout) : List Writer.Op :=
  l.items.map Item.op

theorem written_perform_ops (l : Layout) :
    ((Writer.growing []).perform l.ops).written = l.bytes := by
  rw [ops, Item.perform_ops]
  rfl

theorem bytes_fill_of_perm (l : Layout) {n : Nat} (h : l.total ≤ n) {ps : List (Placement n)}
    (hperm : ps.Perm (l.arrangement h)) (b : FixedBuffer n) :
    (fill b ps).bytes = l.bytes ++ b.bytes.drop l.total := by
  rw [fill_of_perm hperm (pairwise_arrange _ _ _), arrangement]
  exact bytes_fill_arrange (List.nil_append _).symm rfl

theorem map_item_arrangement (l : Layout) {n : Nat} (h : l.total ≤ n) :
    (l.arrangement h).map Placement.item = l.items :=
  map_item_arrange _ _ _

theorem offset_of_getElem? (l : Layout) {n : Nat} {h : l.total ≤ n} {j : Nat} {p : Placement n}
    (hp : (l.arrangement h)[j]? = some p) : p.offset = Item.total (l.items.take j) := by
  rw [offset_of_getElem?_arrange hp, Nat.zero_add]

theorem next_of_getElem? (l : Layout) {n : Nat} {h : l.total ≤ n} {j : Nat} {p : Placement n}
    (hp : (l.arrangement h)[j]? = some p) (b : FixedBuffer n) :
    (p.write b).2 = Item.total (l.items.take (j + 1)) := by
  have hitem : l.items[j]? = some p.item := by
    rw [← l.map_item_arrangement h, List.getElem?_map, hp]
    rfl
  rw [p.next_write, l.offset_of_getElem? hp, List.take_add_one, hitem, Item.total, Item.total,
    List.map_append, List.sum_append]
  rfl

/-- A fixed buffer of exactly the right size, filled in any order, and a growing writer that is
given the items in their order hold the same bytes. Each item is written where the one before it
ends. With room for a trailer, sealing gives the same bytes and the same checksum, and both results
verify. -/
theorem fixed_eq_growing (l : Layout) :
    let g := (Writer.growing []).perform l.ops
    (Writer.growing []).accepted l.ops = l.ops ∧
    (∀ (n : Nat) (h : l.total ≤ n), (l.arrangement h).map Placement.item = l.items ∧
      ∀ j p, (l.arrangement h)[j]? = some p → p.offset = Item.total (l.items.take j) ∧
        ∀ b, (p.write b).2 = Item.total (l.items.take (j + 1))) ∧
    (∀ (b : FixedBuffer l.total) ps, ps.Perm (l.arrangement (Nat.le_refl _)) →
      (fill b ps).bytes = g.written) ∧
    ∀ (b : FixedBuffer (l.total + Trailer.len)) ps,
      ps.Perm (l.arrangement (Nat.le_add_right _ _)) →
        ((fill b ps).stamp l.trailer_fits).2 = (Trailer.push g.written).2 ∧
        ((fill b ps).stamp l.trailer_fits).1.bytes = (Trailer.push g.written).1 ∧
        ((fill b ps).stamp l.trailer_fits).1.verify = true ∧
        Trailer.verify (Trailer.push g.written).1 = true := by
  intro g
  have hg : g.written = l.bytes := l.written_perform_ops
  have hverify : Trailer.verify (Trailer.push g.written).1 = true :=
    Trailer.verify_eq_true_iff.mpr ⟨g.written, rfl⟩
  refine ⟨Item.accepted_ops l.items [], ?_, ?_, ?_⟩
  · intro n h
    refine ⟨l.map_item_arrangement h, ?_⟩
    intro j p hp
    exact ⟨l.offset_of_getElem? hp, l.next_of_getElem? hp⟩
  · intro b ps hperm
    rw [l.bytes_fill_of_perm _ hperm, hg, List.drop_of_length_le (Nat.le_of_eq b.length_eq),
      List.append_nil]
  · intro b ps hperm
    have hfill := l.bytes_fill_of_perm _ hperm b
    rw [← hg] at hfill
    obtain ⟨hbytes, hchecksum⟩ :=
      FixedBuffer.stamp_of_bytes hfill (by rw [hg, l.length_bytes]) l.trailer_fits
    refine ⟨hchecksum, hbytes, ?_, hverify⟩
    rw [FixedBuffer.verify, hbytes]
    exact hverify

end Layout

end TaggedWire
