import TaggedWire.Message.Builder
import TaggedWire.Proofs.Grammar

/-!
What writers append. A step that fits extends the writer by known bytes and touches nothing else;
the steps of a whole message are put together from these. Main statement: a complete message is
written as its shortest header, its fields and its trailer, to any writer with room for it.
-/
namespace TaggedWire

theorem Write.bind_of_ok {α β : Type} {m : Write α} {f : α → Write β} {w w' : Writer} {a : α}
    (h : m.run w = .ok a w') : (m >>= f).run w = (f a).run w' := by
  unfold EStateM.run at h ⊢
  simp only [bind, EStateM.bind, h]

theorem Write.map_of_ok {α β : Type} {m : Write α} {f : α → β} {w w' : Writer} {a : α}
    (h : m.run w = .ok a w') : (f <$> m).run w = .ok (f a) w' := by
  unfold EStateM.run at h ⊢
  simp only [Functor.map, EStateM.map, h]

theorem Write.discard_of_ok {α : Type} {m : Write α} {w w' : Writer} {a : α}
    (h : m.run w = .ok a w') : (discard m : Write Unit).run w = .ok () w' := by
  unfold EStateM.run at h ⊢
  simp only [discard, Functor.mapConst, EStateM.map, Function.comp, h]

namespace Writer

/-- So many more bytes can be appended; a growing writer always takes them. -/
def Fits (w : Writer) (size : Nat) : Prop :=
  ∀ rest, w.room = some rest → size ≤ rest.length

/-- The writer after bytes that fit were appended. -/
def extend (w : Writer) (bytes : Bytes) : Writer :=
  ⟨w.written ++ bytes, w.room.map (·.drop bytes.length)⟩

theorem fits_growing (bytes : Bytes) (size : Nat) : (growing bytes).Fits size := by
  intro rest h
  cases h

@[simp] theorem written_extend (w : Writer) (bytes : Bytes) :
    (w.extend bytes).written = w.written ++ bytes := rfl

/-- What was appended since a position is found there. -/
@[simp] theorem drop_written_extend (w : Writer) (bytes : Bytes) :
    (w.extend bytes).written.drop w.position = bytes := List.drop_left

theorem extend_nil (w : Writer) : w.extend [] = w := by
  obtain ⟨written, room⟩ := w
  cases room <;> simp [extend]

theorem extend_append (w : Writer) (a b : Bytes) : (w.extend a).extend b = w.extend (a ++ b) := by
  obtain ⟨written, room⟩ := w
  cases room <;> simp [extend]

theorem Fits.mono {w : Writer} {m n : Nat} (h : w.Fits n) (hmn : m ≤ n) : w.Fits m :=
  fun rest hrest => Nat.le_trans hmn (h rest hrest)

/-- Room for two pieces is room for the second after the first was appended. -/
theorem Fits.extend {w : Writer} {bytes : Bytes} {size : Nat} (h : w.Fits (bytes.length + size)) :
    (w.extend bytes).Fits size := by
  intro rest hrest
  obtain ⟨before, hbefore, rfl⟩ := Option.map_eq_some_iff.mp hrest
  have hroom := h before hbefore
  rw [List.length_drop]
  omega

theorem get_run (w : Writer) : (get : Write Writer).run w = .ok w w := rfl

theorem ensure_of_fits {w : Writer} {size : Nat} (h : w.Fits size) :
    (ensure size).run w = .ok () w := by
  obtain ⟨written, room⟩ := w
  cases room with
  | none => rfl
  | some rest =>
    have hroom : ¬ rest.length < size := Nat.not_lt.mpr (h rest rfl)
    unfold ensure
    rw [Write.bind_of_ok (get_run _)]
    dsimp only
    rw [if_neg hroom]
    rfl

theorem append_of_fits {w : Writer} {bytes : Bytes} (h : w.Fits bytes.length) :
    (append bytes).run w = .ok () (w.extend bytes) :=
  Write.bind_of_ok (ensure_of_fits h)

theorem put_of_fits {w : Writer} {k : Kind} {v : k.Native} (h : w.Fits k.encodedLen) :
    (put k v).run w = .ok k.encodedLen (w.extend (k.encode v)) :=
  Write.bind_of_ok (append_of_fits (by rw [Kind.length_encode]; exact h))

theorem putArrayHeader_of_fits {w : Writer} {n : ArrayLength} (h : w.Fits n.encode.length) :
    (putArrayHeader n).run w = .ok n.encode.length (w.extend n.encode) :=
  Write.bind_of_ok (append_of_fits h)

theorem putTrailer_of_fits {w : Writer} {start : Nat} (hstart : start ≤ w.written.length)
    (h : w.Fits Trailer.len) :
    (putTrailer start).run w =
      .ok (Checksum.ofBytes (w.written.drop start))
        (w.extend (Trailer.encode (Checksum.ofBytes (w.written.drop start)))) := by
  have hnot : ¬ w.position < start := Nat.not_lt.mpr hstart
  have hput := put_of_fits (k := .uint16) (v := Checksum.ofBytes (w.written.drop start)) h
  unfold putTrailer
  rw [Write.bind_of_ok (get_run w), if_neg hnot]
  exact Write.bind_of_ok (Write.discard_of_ok hput)

/-- Items that are appended one by one are all appended if there is room for all of them. -/
theorem forM_of_fits {α : Type} {m : α → Write Unit} {encode : α → Bytes}
    (hm : ∀ a w, Fits w (encode a).length → (m a).run w = .ok () (w.extend (encode a)))
    {items : List α} {w : Writer} (h : w.Fits (items.flatMap encode).length) :
    (items.forM m).run w = .ok () (w.extend (items.flatMap encode)) := by
  induction items generalizing w with
  | nil =>
    rw [List.flatMap_nil, extend_nil]
    rfl
  | cons a items ih =>
    rw [List.flatMap_cons, List.length_append] at h
    have hfirst := hm a w (h.mono (Nat.le_add_right _ _))
    have hrest := ih h.extend
    rw [extend_append, ← List.flatMap_cons] at hrest
    exact (Write.bind_of_ok hfirst).trans hrest

end Writer

/-- The parts of a message as it is written: the shortest header, and the trailer of what stands
before it. -/
def Parts.canonical (s : Schema) (given : List (List Value)) : Parts :=
  let covered := s.headerLength.encode ++ Schema.encodeBody given
  { header := s.headerLength.encode
    values := given
    trailer := if s.appendChecksum then Trailer.encode (Checksum.ofBytes covered) else []
    checksum := if s.appendChecksum then some (Checksum.ofBytes covered) else none
    rest := [] }

namespace Parts

theorem covered_canonical (s : Schema) (given : List (List Value)) :
    (canonical s given).covered = s.headerLength.encode ++ Schema.encodeBody given := rfl

theorem canonical_of_absent {s : Schema} (given : List (List Value))
    (hc : s.appendChecksum = false) :
    (canonical s given).message = (canonical s given).covered ∧
      (canonical s given).checksum = none := by
  simp [canonical, message, covered, hc]

theorem canonical_of_present {s : Schema} (given : List (List Value))
    (hc : s.appendChecksum = true) :
    (canonical s given).message = (canonical s given).covered ++
        Trailer.encode (Checksum.ofBytes (canonical s given).covered) ∧
      (canonical s given).checksum = some (Checksum.ofBytes (canonical s given).covered) := by
  simp [canonical, message, covered, hc]

theorem canonical_admitted {s : Schema} {c : Config} {given : List (List Value)}
    (h : List.Forall₂ Field.Holds s.fields given) : (canonical s given).Admitted s c where
  header := ArrayHeader.announces_encode s.headerLength
  values := h
  trailer := by
    cases hc : s.appendChecksum with
    | false =>
      refine (Sealed.iff_of_absent hc).mpr ⟨?_, ?_⟩
      · simp only [canonical, hc, Bool.false_eq_true, if_false]
      · simp only [canonical, hc, Bool.false_eq_true, if_false]
    | true =>
      refine (Sealed.iff_of_present hc).mpr ⟨Checksum.ofBytes (canonical s given).covered, ?_, ?_,
        fun _ => rfl⟩
      · simp only [canonical, hc, if_true, covered]
      · simp only [canonical, hc, if_true, covered]
  rest := fun _ => rfl

theorem bytes_canonical (s : Schema) (given : List (List Value)) :
    (canonical s given).bytes = (canonical s given).message := List.append_nil _

/-- The size that is known before a message is written is the size of the message. -/
theorem length_canonical {s : Schema} {given : List (List Value)}
    (h : List.Forall₂ Field.Holds s.fields given) :
    (canonical s given).message.length = s.encodedSize := by
  have htrailer := (canonical_admitted (c := {}) h).trailer.length_eq
  have hbody : (Schema.encodeBody given).length = s.bodyLen := Schema.length_encodeBody h
  have hheader : ArrayHeader.encodedLen s.elementCount = s.headerLength.encode.length :=
    ArrayHeader.encodedLen_val s.headerLength
  simp only [message, covered, List.length_append, htrailer, Schema.encodedSize, hheader]
  simp only [canonical, hbody]

end Parts

namespace Builder

theorem mapM_zip_ok {fields : List Field} {given : List (List Value)}
    (h : fields.length = given.length) :
    ((fields.zip (given.map some)).mapM fun p =>
      match p.2 with
      | some vs => (.ok vs : Except WireError (List Value))
      | none => .error (.missingField p.1.name)) = .ok given := by
  induction given generalizing fields with
  | nil =>
    rw [List.map_nil, List.zip_nil_right]
    rfl
  | cons vs given ih =>
    cases fields with
    | nil => cases h
    | cons f fields =>
      rw [List.map_cons, List.zip_cons_cons, List.mapM_cons, ih (Nat.succ.inj h)]
      rfl

theorem complete_of_values {b : Builder} {given : List (List Value)}
    (hvalues : b.values = given.map some) (hlen : b.schema.fields.length = given.length) :
    b.complete = .ok given := by
  rw [complete, hvalues]
  exact mapM_zip_ok hlen

/-- Writing of a message, whatever the way in which the values of one field are put. -/
def writeVia (b : Builder) (putField : List Value → Write Unit) : Write Built := do
  let fields ← match b.complete with
    | .ok fields => pure fields
    | .error e => throw e
  Writer.ensure b.encodedSize
  let start := (← get).position
  discard (Writer.putArrayHeader b.schema.headerLength)
  fields.forM putField
  let checksum ←
    if b.schema.appendChecksum then some <$> Writer.putTrailer start else pure none
  return ⟨(← get).written.drop start, checksum⟩

theorem writeTo_eq_writeVia (b : Builder) : b.writeTo = b.writeVia Writer.putValues := rfl

/-- A builder that has all values appends the canonical message to any writer with room for it. -/
theorem writeVia_of_fits {b : Builder} {putField : List Value → Write Unit}
    {given : List (List Value)} {w : Writer}
    (hput : ∀ vs w, Writer.Fits w (Value.encodeAll vs).length →
      (putField vs).run w = .ok () (w.extend (Value.encodeAll vs)))
    (hvalues : b.values = given.map some) (hgiven : List.Forall₂ Field.Holds b.schema.fields given)
    (hw : w.Fits b.encodedSize) :
    (b.writeVia putField).run w =
      .ok ⟨(Parts.canonical b.schema given).message, (Parts.canonical b.schema given).checksum⟩
        (w.extend (Parts.canonical b.schema given).message) := by
  have hensure := Writer.ensure_of_fits hw
  rw [encodedSize, ← Parts.length_canonical hgiven] at hw
  have hcovered : w.Fits (Parts.canonical b.schema given).covered.length :=
    hw.mono (by rw [Parts.message, List.length_append]; exact Nat.le_add_right _ _)
  rw [Parts.covered_canonical, List.length_append] at hcovered
  have hheader := Writer.putArrayHeader_of_fits (hcovered.mono (Nat.le_add_right _ _))
  have hfields : (given.forM putField).run (w.extend b.schema.headerLength.encode) = .ok ()
      ((w.extend b.schema.headerLength.encode).extend (Schema.encodeBody given)) :=
    Writer.forM_of_fits hput hcovered.extend
  rw [Writer.extend_append, ← Parts.covered_canonical] at hfields
  unfold writeVia
  rw [complete_of_values hvalues hgiven.length_eq]
  dsimp only
  rw [Write.bind_of_ok (EStateM.run_pure _ _), Write.bind_of_ok hensure,
    Write.bind_of_ok (Writer.get_run w), Write.bind_of_ok (Write.discard_of_ok hheader),
    Write.bind_of_ok hfields]
  cases hc : b.schema.appendChecksum with
  | false =>
    obtain ⟨hmessage, hchecksum⟩ := Parts.canonical_of_absent given hc
    rw [if_neg Bool.false_ne_true, Write.bind_of_ok (EStateM.run_pure _ _),
      Write.bind_of_ok (Writer.get_run _), Writer.drop_written_extend, hmessage, hchecksum]
    rfl
  | true =>
    obtain ⟨hmessage, hchecksum⟩ := Parts.canonical_of_present given hc
    rw [hmessage, List.length_append, Trailer.length_encode] at hw
    have hstart :
        w.position ≤ (w.extend (Parts.canonical b.schema given).covered).written.length := by
      rw [Writer.written_extend, List.length_append]
      exact Nat.le_add_right _ _
    have hput := Writer.putTrailer_of_fits hstart hw.extend
    rw [Writer.drop_written_extend, Writer.extend_append, ← hmessage] at hput
    rw [if_pos rfl, Write.bind_of_ok (Write.map_of_ok hput), Write.bind_of_ok (Writer.get_run _),
      Writer.drop_written_extend, hchecksum]
    rfl

theorem writeTo_of_fits {b : Builder} {given : List (List Value)} {w : Writer}
    (hvalues : b.values = given.map some) (hgiven : List.Forall₂ Field.Holds b.schema.fields given)
    (hw : w.Fits b.encodedSize) :
    b.writeTo.run w =
      .ok ⟨(Parts.canonical b.schema given).message, (Parts.canonical b.schema given).checksum⟩
        (w.extend (Parts.canonical b.schema given).message) :=
  writeVia_of_fits (fun _ _ hfits => Writer.append_of_fits hfits) hvalues hgiven hw

/-- Building without a limit succeeds as soon as all values are there. -/
theorem build_of_values {b : Builder} {given : List (List Value)}
    (hvalues : b.values = given.map some)
    (hgiven : List.Forall₂ Field.Holds b.schema.fields given) :
    b.build = .ok ⟨(Parts.canonical b.schema given).message,
      (Parts.canonical b.schema given).checksum⟩ := by
  rw [build, Writer.step, outcome, writeTo_of_fits hvalues hgiven (Writer.fits_growing _ _)]

end Builder

end TaggedWire
