import TaggedWire.Proofs.Confusion
import TaggedWire.Proofs.Places

/-!
Defects of a message. Once the header is read and the rest is of the right length, a message can be
wrong in its tags and in its checksum only. Main statement: which of the wrong tags is reported, and
whether before or after the checksum.
-/
namespace TaggedWire

theorem bind_eq_error_iff {ε α β : Type} {x : Except ε α} {f : α → Except ε β} {e : ε} :
    x >>= f = .error e ↔ x = .error e ∨ ∃ a, x = .ok a ∧ f a = .error e := by
  cases x with
  | error e' => simp [bind, Except.bind]
  | ok a => simp [bind, Except.bind]

theorem widths_elementKinds (fields : List Field) :
    widths (elementKinds fields) = (fields.map Field.encodedLen).sum := by
  induction fields with
  | nil => rfl
  | cons f fields ih =>
    rw [elementKinds_cons, widths_append, widths_replicate, ih, List.map_cons, List.sum_cons,
      Nat.mul_comm]
    rfl

namespace Schema

theorem judges_readValues {k : Kind} {n offset : Nat} {buf : Bytes} {done : List Value}
    (hroom : offset + n * k.encodedLen ≤ buf.length) :
    Place.Judges buf (places offset (List.replicate n k))
      (readValues k n offset (buf.drop offset) done)
      fun r => r.2 = (offset + n * k.encodedLen, buf.drop (offset + n * k.encodedLen)) := by
  induction n generalizing offset done with
  | zero =>
    rw [Nat.zero_mul, Nat.add_zero]
    exact Place.Judges.pure rfl
  | succ n ih =>
    have hloop : readValues k (n + 1) offset (buf.drop offset) done =
        Value.read k offset (buf.drop offset) >>= fun r =>
          readValues k n (offset + k.encodedLen) r.2 (r.1 :: done) := by
      rw [readValues]
      cases Value.read k offset (buf.drop offset) <;> rfl
    rw [k.offset_succ] at hroom ⊢
    have hfirst : Place.Judges buf [⟨offset, k⟩] (Value.read k offset (buf.drop offset))
        fun r => r.2 = buf.drop (offset + k.encodedLen) :=
      (Place.judges_read (Nat.le_of_add_right_le hroom)).map fun _ hr => hr
    rw [hloop]
    refine hfirst.bind ?_
    intro r hr
    rw [hr]
    exact ih hroom

theorem judges_readFields {fields : List Field} {offset : Nat} {buf : Bytes}
    (hroom : offset + (fields.map Field.encodedLen).sum ≤ buf.length) :
    Place.Judges buf (places offset (elementKinds fields))
      (readFields fields offset (buf.drop offset))
      fun r => r.2 = (offset + (fields.map Field.encodedLen).sum,
        buf.drop (offset + (fields.map Field.encodedLen).sum)) := by
  induction fields generalizing offset with
  | nil => exact Place.Judges.pure rfl
  | cons f fields ih =>
    have hwidth : f.count * f.kind.encodedLen = f.encodedLen := Nat.mul_comm _ _
    rw [List.map_cons, List.sum_cons, ← Nat.add_assoc] at hroom ⊢
    rw [elementKinds_cons, places_append, widths_replicate, hwidth]
    have hvalues : Place.Judges buf (places offset (List.replicate f.count f.kind))
        (readValues f.kind f.count offset (buf.drop offset) [])
        fun r => r.2 = (offset + f.count * f.kind.encodedLen,
          buf.drop (offset + f.count * f.kind.encodedLen)) :=
      judges_readValues (hwidth.symm ▸ Nat.le_of_add_right_le hroom)
    rw [hwidth] at hvalues
    refine hvalues.bind ?_
    rintro ⟨values, _, _⟩ hrest
    cases hrest
    rw [← List.append_nil (places _ _)]
    refine (ih hroom).bind ?_
    rintro ⟨ds, next, left⟩ hr
    exact Place.Judges.pure hr

end Schema

theorem Kind.accepts_uint16 {t : UInt8} : Kind.uint16.accepts t = false ↔ t ≠ 0xCD := by
  rw [Kind.accepts, beq_eq_false_iff_ne]
  rfl

theorem Place.tagged_uint16_iff {buf : Bytes} {offset : Nat} :
    Tagged buf ⟨offset, .uint16⟩ ↔ buf[offset]? = some 0xCD := by
  constructor
  · rintro ⟨t, hbyte, ht⟩
    rw [hbyte, eq_of_beq ht]
    rfl
  · intro hbyte
    exact ⟨_, hbyte, rfl⟩

namespace Trailer

variable {bytes : Bytes} {covered : Nat}

theorem decodeAt_of_length (hlen : bytes.length = covered + len) {stored : UInt16} :
    Kind.decodeAt .uint16 bytes covered = .ok stored ↔ bytes.drop covered = encode stored := by
  rw [Kind.decodeAt_eq_ok_iff]
  constructor
  · rintro ⟨tail, htail⟩
    have hsize := congrArg List.length htail
    rw [List.length_drop, hlen, Nat.add_sub_cancel_left, List.length_append, Kind.length_encode]
      at hsize
    have hnil : tail = [] := List.length_eq_zero_iff.mp (Nat.left_eq_add.mp hsize)
    rw [htail, hnil, List.append_nil]
    rfl
  · intro h
    exact ⟨[], by rw [h, List.append_nil]; rfl⟩

theorem check_of_length (hlen : bytes.length = covered + len) :
    check bytes = Kind.decodeAt .uint16 bytes covered >>= fun stored =>
      if stored = Checksum.ofBytes (bytes.take covered) then .ok stored
      else .error
        (.checksumMismatch stored (Checksum.ofBytes (bytes.take covered)) bytes.length) := by
  have hroom : ¬ bytes.length < len := by omega
  have hcovered : bytes.length - len = covered := by omega
  rw [check, if_neg hroom, hcovered]
  rfl

theorem check_eq_ok_iff_of_length (hlen : bytes.length = covered + len) {c : UInt16} :
    check bytes = .ok c ↔
      bytes.drop covered = encode c ∧ c = Checksum.ofBytes (bytes.take covered) := by
  rw [check_eq_ok_iff]
  constructor
  · rintro ⟨front, rfl, hc⟩
    have hfront : front.length = covered := by
      rw [List.length_append, length_encode] at hlen
      exact Nat.add_right_cancel hlen
    rw [List.drop_left' hfront, List.take_left' hfront]
    exact ⟨rfl, hc⟩
  · rintro ⟨hstored, hsame⟩
    exact ⟨bytes.take covered, by rw [← hstored, List.take_append_drop], hsame⟩

/-- Of bytes with room for a trailer, the tag is judged first and then the checksum. -/
theorem check_eq_error_iff (hlen : bytes.length = covered + len) {e : WireError} :
    check bytes = .error e ↔
      (∃ t, bytes[covered]? = some t ∧ t ≠ 0xCD ∧ e = .tagMismatch covered "uint16" t) ∨
      ∃ stored, bytes.drop covered = encode stored ∧
        stored ≠ Checksum.ofBytes (bytes.take covered) ∧
        e = .checksumMismatch stored (Checksum.ofBytes (bytes.take covered)) bytes.length := by
  have htag := Place.judges_decodeAt (k := .uint16) (Nat.le_of_eq hlen.symm)
  rw [check_of_length hlen, bind_eq_error_iff, htag.eq_error_iff, List.findSome?_singleton,
    Place.refusal?_eq_some_iff]
  refine or_congr ?_ ?_
  · simp only [Kind.accepts_uint16]
    rfl
  · refine exists_congr ?_
    intro stored
    rw [decodeAt_of_length hlen]
    by_cases hsame : stored = Checksum.ofBytes (bytes.take covered)
    · simp [hsame]
    · simp [hsame, eq_comm]

end Trailer

namespace Schema

/-- What is wrong with a message of the right length, the fields of which begin at `start`. Each
case says what must be right before it is reported. -/
inductive Defect (s : Schema) (verify : Bool) (start : Nat) (message : Bytes) : WireError → Prop
  | trailerTag {t : UInt8} : s.appendChecksum = true → verify = true →
      message[start + s.bodyLen]? = some t → t ≠ 0xCD →
      Defect s verify start message (.tagMismatch (start + s.bodyLen) "uint16" t)
  | checksum {stored : UInt16} : s.appendChecksum = true → verify = true →
      message.drop (start + s.bodyLen) = Trailer.encode stored →
      stored ≠ Checksum.ofBytes (message.take (start + s.bodyLen)) →
      Defect s verify start message
        (.checksumMismatch stored (Checksum.ofBytes (message.take (start + s.bodyLen)))
          message.length)
  | element {p : Place} {t : UInt8} :
      (s.appendChecksum = true → verify = true → message.drop (start + s.bodyLen) =
        Trailer.encode (Checksum.ofBytes (message.take (start + s.bodyLen)))) →
      Place.FirstRefused message (places start (elementKinds s.fields)) p t →
      Defect s verify start message (.tagMismatch p.offset p.kind.name t)
  | lateTag {t : UInt8} : s.appendChecksum = true → verify = false →
      (∀ p ∈ places start (elementKinds s.fields), p.Tagged message) →
      message[start + s.bodyLen]? = some t → t ≠ 0xCD →
      Defect s verify start message (.tagMismatch (start + s.bodyLen) "uint16" t)

variable {s : Schema} {verify : Bool} {start : Nat} {message : Bytes}

theorem contents_of_absent (hc : s.appendChecksum = false) :
    s.contents verify start message =
      readFields s.fields start (message.drop start) >>= fun r =>
        if r.2.1 = message.length then .ok ⟨s, r.1, none, r.2.1⟩
        else .error (.trailingBytes r.2.1 message.length) := by
  unfold contents
  rw [hc]
  rfl

theorem judges_contents (hc : s.appendChecksum = false)
    (hlen : message.length = start + s.bodyLen + s.trailerLen) :
    Place.Judges message (places start (elementKinds s.fields)) (s.contents verify start message)
      fun _ => True := by
  have hsize : start + (s.fields.map Field.encodedLen).sum = message.length := by
    rw [hlen, trailerLen, hc]
    rfl
  rw [contents_of_absent hc, ← List.append_nil (places _ _)]
  refine (judges_readFields (Nat.le_of_eq hsize)).bind ?_
  intro r hr
  rw [hr, if_pos hsize]
  exact Place.Judges.pure trivial

theorem judges_readSealed {verified : Option UInt16}
    (hlen : message.length = start + s.bodyLen + Trailer.len) :
    Place.Judges message (places start (elementKinds s.fields) ++ [⟨start + s.bodyLen, .uint16⟩])
      (s.readSealed start message verified) fun _ => True := by
  have hsize : start + (s.fields.map Field.encodedLen).sum + Trailer.len = message.length :=
    hlen.symm
  refine (judges_readFields (Nat.le_of_add_right_le (Nat.le_of_eq hsize))).bind ?_
  rintro ⟨ds, next, rest⟩ hr
  cases hr
  rw [← List.append_nil [_]]
  refine (Place.judges_read (Nat.le_of_eq hlen.symm)).bind ?_
  rintro ⟨stored, left⟩ -
  dsimp only
  rw [if_pos hsize]
  exact Place.Judges.pure trivial

theorem room_of_length {n : Nat} (hlen : message.length = start + s.bodyLen + n) :
    start + widths (elementKinds s.fields) ≤ message.length := by
  rw [widths_elementKinds, hlen]
  exact Nat.le_add_right _ _

theorem contents_eq_error_iff_of_absent (hc : s.appendChecksum = false)
    (hlen : message.length = start + s.bodyLen + s.trailerLen) {e : WireError} :
    s.contents verify start message = .error e ↔ Defect s verify start message e := by
  rw [(judges_contents hc hlen).eq_error_iff,
    Place.findSome?_refusal?_eq_some_iff (pairwise_places _ _)]
  have hno : ¬ s.appendChecksum = true := fun hp => Bool.false_ne_true (hc.symm.trans hp)
  constructor
  · rintro ⟨p, t, hfirst, rfl⟩
    exact .element (fun hp => absurd hp hno) hfirst
  · intro h
    cases h with
    | trailerTag hp => exact absurd hp hno
    | checksum hp => exact absurd hp hno
    | element _ hfirst => exact ⟨_, _, hfirst, rfl⟩
    | lateTag hp => exact absurd hp hno

theorem readSealed_eq_error_iff {verified : Option UInt16}
    (hlen : message.length = start + s.bodyLen + Trailer.len) {e : WireError} :
    s.readSealed start message verified = .error e ↔
      (∃ p t, Place.FirstRefused message (places start (elementKinds s.fields)) p t ∧
        e = .tagMismatch p.offset p.kind.name t) ∨
      (∀ p ∈ places start (elementKinds s.fields), p.Tagged message) ∧
        ∃ t, message[start + s.bodyLen]? = some t ∧ t ≠ 0xCD ∧
          e = .tagMismatch (start + s.bodyLen) "uint16" t := by
  rw [(judges_readSealed hlen).eq_error_iff, List.findSome?_append, Option.or_eq_some_iff,
    Place.findSome?_refusal?_eq_some_iff (pairwise_places _ _),
    findSome?_places_eq_none_iff (room_of_length hlen), List.findSome?_singleton,
    Place.refusal?_eq_some_iff]
  simp only [Kind.accepts_uint16]
  rfl

theorem contents_eq_error_iff_of_unverified (hc : s.appendChecksum = true)
    (hlen : message.length = start + s.bodyLen + Trailer.len) {e : WireError} :
    s.contents false start message = .error e ↔ Defect s false start message e := by
  rw [contents_of_present hc, if_neg Bool.false_ne_true, readSealed_eq_error_iff hlen]
  constructor
  · rintro (⟨p, t, hfirst, rfl⟩ | ⟨htagged, t, hbyte, ht, rfl⟩)
    · exact .element (fun _ hv => nomatch hv) hfirst
    · exact .lateTag hc rfl htagged hbyte ht
  · intro h
    cases h with
    | trailerTag _ hv => cases hv
    | checksum _ hv => cases hv
    | element _ hfirst => exact .inl ⟨_, _, hfirst, rfl⟩
    | lateTag _ _ htagged hbyte ht => exact .inr ⟨htagged, _, hbyte, ht, rfl⟩

theorem contents_eq_error_iff_of_verified (hc : s.appendChecksum = true)
    (hlen : message.length = start + s.bodyLen + Trailer.len) {e : WireError} :
    s.contents true start message = .error e ↔ Defect s true start message e := by
  rw [contents_of_present hc, if_pos rfl, bind_eq_error_iff, Trailer.check_eq_error_iff hlen]
  simp only [readSealed_eq_error_iff hlen, Trailer.check_eq_ok_iff_of_length hlen]
  constructor
  · rintro ((⟨t, hbyte, ht, rfl⟩ | ⟨stored, hstored, hne, rfl⟩) | ⟨c, ⟨hstored, rfl⟩,
      ⟨p, t, hfirst, rfl⟩ | ⟨-, t, hbyte, ht, rfl⟩⟩)
    · exact .trailerTag hc rfl hbyte ht
    · exact .checksum hc rfl hstored hne
    · exact .element (fun _ _ => hstored) hfirst
    · -- a trailer that was compared has the right tag
      rw [← List.head?_drop, hstored] at hbyte
      exact absurd (Option.some.inj hbyte).symm ht
  · intro h
    cases h with
    | trailerTag _ _ hbyte ht => exact .inl (.inl ⟨_, hbyte, ht, rfl⟩)
    | checksum _ _ hstored hne => exact .inl (.inr ⟨_, hstored, hne, rfl⟩)
    | element hsealed hfirst =>
      exact .inr ⟨_, ⟨hsealed hc rfl, rfl⟩, .inl ⟨_, _, hfirst, rfl⟩⟩
    | lateTag _ hv => cases hv

theorem contents_eq_error_iff (hlen : message.length = start + s.bodyLen + s.trailerLen)
    {e : WireError} :
    s.contents verify start message = .error e ↔ Defect s verify start message e := by
  cases hc : s.appendChecksum with
  | false => exact contents_eq_error_iff_of_absent hc hlen
  | true =>
    rw [trailerLen, hc, if_pos rfl] at hlen
    cases verify with
    | false => exact contents_eq_error_iff_of_unverified hc hlen
    | true => exact contents_eq_error_iff_of_verified hc hlen

theorem exists_readSealed_iff {verified : Option UInt16}
    (hlen : message.length = start + s.bodyLen + Trailer.len) :
    (∃ d, s.readSealed start message verified = .ok d) ↔
      (∀ p ∈ places start (elementKinds s.fields), p.Tagged message) ∧
        message[start + s.bodyLen]? = some 0xCD := by
  have htrailer : start + s.bodyLen < message.length :=
    hlen.symm ▸ Nat.lt_add_of_pos_right (Nat.succ_pos _)
  rw [(judges_readSealed hlen).exists_ok_iff, List.findSome?_append, Option.or_eq_none_iff,
    findSome?_places_eq_none_iff (room_of_length hlen), List.findSome?_singleton,
    Place.refusal?_eq_none_iff htrailer, Place.tagged_uint16_iff]

theorem exists_contents_iff (hlen : message.length = start + s.bodyLen + s.trailerLen) :
    (∃ d, s.contents verify start message = .ok d) ↔
      (∀ p ∈ places start (elementKinds s.fields), p.Tagged message) ∧
      (s.appendChecksum = true → message[start + s.bodyLen]? = some 0xCD) ∧
      (s.appendChecksum = true → verify = true → message.drop (start + s.bodyLen) =
        Trailer.encode (Checksum.ofBytes (message.take (start + s.bodyLen)))) := by
  cases hc : s.appendChecksum with
  | false =>
    rw [(judges_contents hc hlen).exists_ok_iff, findSome?_places_eq_none_iff (room_of_length hlen)]
    simp
  | true =>
    rw [trailerLen, hc, if_pos rfl] at hlen
    rw [contents_of_present hc]
    cases verify with
    | false =>
      rw [if_neg Bool.false_ne_true, exists_readSealed_iff hlen]
      simp
    | true =>
      rw [if_pos rfl]
      constructor
      · rintro ⟨d, h⟩
        obtain ⟨c, hc, hd⟩ := bind_eq_ok_iff.mp h
        obtain ⟨hstored, rfl⟩ := (Trailer.check_eq_ok_iff_of_length hlen).mp hc
        obtain ⟨htagged, hbyte⟩ := (exists_readSealed_iff hlen).mp ⟨d, hd⟩
        exact ⟨htagged, fun _ => hbyte, fun _ _ => hstored⟩
      · rintro ⟨htagged, hbyte, hstored⟩
        obtain ⟨d, hd⟩ := (exists_readSealed_iff hlen).mpr ⟨htagged, hbyte rfl⟩
        have hc := (Trailer.check_eq_ok_iff_of_length hlen).mpr ⟨hstored rfl rfl, rfl⟩
        exact ⟨d, bind_eq_ok_iff.mpr ⟨_, hc, hd⟩⟩

theorem frame_of_room {c : Config} {input : Bytes}
    (hheader : ArrayHeader.expectAt input 0 s.headerLength = .ok start)
    (hroom : start + s.bodyLen + s.trailerLen ≤ input.length)
    (hend : c.decode.allowTrailingBytes = false →
      start + s.bodyLen + s.trailerLen = input.length) :
    s.frame c input = .ok (start, input.take (start + s.bodyLen + s.trailerLen)) := by
  obtain ⟨header, tail, hform, hinput, hstart⟩ := ArrayHeader.expectAt_eq_ok_iff.mp hheader
  rw [List.drop_zero] at hinput
  rw [Nat.zero_add] at hstart
  subst hinput hstart
  rw [List.length_append] at hroom hend
  refine frame_eq_ok_iff.mpr ⟨header, tail.take (s.bodyLen + s.trailerLen),
    tail.drop (s.bodyLen + s.trailerLen), hform, ?_, ?_, ?_, rfl, ?_⟩
  · rw [List.length_take]
    omega
  · intro hstrict
    have hall := hend hstrict
    exact List.drop_eq_nil_of_le (by omega)
  · rw [List.append_assoc, List.take_append_drop]
  · rw [Nat.add_assoc, List.take_length_add_append]

/-- An input that is within the limit, has the right header and is long enough, but no longer than
the configuration accepts, is refused exactly for a defect of the message in it. It is accepted
exactly if all tags are right and, where it is compared, the checksum too; it is never found to be
cut off, too long or of the wrong count. -/
theorem parse_eq_error_iff_defect (s : Schema) (c : Config) (input : Bytes) (start : Nat)
    (hlimit : c.Permits input.length)
    (hheader : ArrayHeader.expectAt input 0 s.headerLength = .ok start)
    (hroom : start + s.bodyLen + s.trailerLen ≤ input.length)
    (hend : c.decode.allowTrailingBytes = false →
      start + s.bodyLen + s.trailerLen = input.length) :
    let message := input.take (start + s.bodyLen + s.trailerLen)
    (∀ e, s.parse c input = .error e ↔ Defect s c.decode.verifyChecksum start message e) ∧
    ((∃ d, s.parse c input = .ok d) ↔
      (∀ p ∈ places start (elementKinds s.fields), p.Tagged message) ∧
      (s.appendChecksum = true → message[start + s.bodyLen]? = some 0xCD) ∧
      (s.appendChecksum = true → c.decode.verifyChecksum = true →
        message.drop (start + s.bodyLen) =
          Trailer.encode (Checksum.ofBytes (message.take (start + s.bodyLen))))) ∧
    ∀ e, s.parse c input = .error e →
      (∃ offset expected actual, e = .tagMismatch offset expected actual) ∨
        ∃ stored calculated size, e = .checksumMismatch stored calculated size := by
  intro message
  have hlen : message.length = start + s.bodyLen + s.trailerLen := List.length_take_of_le hroom
  have hparse : s.parse c input = s.contents c.decode.verifyChecksum start message := by
    rw [parse, checkLimit_eq_ok_iff.mpr hlimit, frame_of_room hheader hroom hend]
    rfl
  have herror : ∀ e, s.parse c input = .error e ↔
      Defect s c.decode.verifyChecksum start message e := by
    intro e
    rw [hparse, contents_eq_error_iff hlen]
  refine ⟨herror, ?_, ?_⟩
  · rw [hparse, exists_contents_iff hlen]
  · intro e he
    cases (herror e).mp he with
    | trailerTag => exact .inl ⟨_, _, _, rfl⟩
    | checksum => exact .inr ⟨_, _, _, rfl⟩
    | element => exact .inl ⟨_, _, _, rfl⟩
    | lateTag => exact .inl ⟨_, _, _, rfl⟩

end Schema

/-- A message of `reading` with two elements and a trailer of the wrong tag, and two more bytes. -/
def readingMistagged : Bytes :=
  [0xDC, 0x00, 0x04, 0xCD, 0x00, 0x07, 0xCA, 0x7F, 0xA0, 0x00, 0x01, 0xC0, 0x80, 0x00, 0x00, 0x00,
    0xC4, 0xCC, 0x76, 0xF3, 0xAA, 0xBB]

theorem parse_eq_error_iff_defect_reading :
    reading.parse ⟨some 24, ⟨true, true⟩⟩ readingMistagged =
      .error (.tagMismatch 17 "uint16" 0xCC) ∧
    reading.parse ⟨some 24, ⟨false, true⟩⟩ readingMistagged =
      .error (.tagMismatch 11 "float32" 0xC0) := by
  have hlimit : ∀ decode, Config.Permits ⟨some 24, decode⟩ readingMistagged.length := by
    intro decode max hmax
    cases hmax
    decide
  have hheader : ArrayHeader.expectAt readingMistagged 0 reading.headerLength = .ok 3 := by decide
  have hroom : 3 + reading.bodyLen + reading.trailerLen ≤ readingMistagged.length := by decide
  have hfound : (places 3 (elementKinds reading.fields)).findSome?
      (Place.refusal? (readingMistagged.take (3 + reading.bodyLen + reading.trailerLen))) =
        some (.tagMismatch 11 "float32" 0xC0) := by decide
  refine ⟨?_, ?_⟩
  · obtain ⟨herror, -⟩ := reading.parse_eq_error_iff_defect ⟨some 24, ⟨true, true⟩⟩ _ _
      (hlimit _) hheader hroom nofun
    exact (herror _).mpr (.trailerTag rfl rfl rfl (by decide))
  · obtain ⟨herror, -⟩ := reading.parse_eq_error_iff_defect ⟨some 24, ⟨false, true⟩⟩ _ _
      (hlimit _) hheader hroom nofun
    obtain ⟨p, t, hfirst, hmismatch⟩ :=
      (Place.findSome?_refusal?_eq_some_iff (pairwise_places _ _)).mp hfound
    rw [hmismatch]
    exact (herror _).mpr (.element nofun hfirst)

end TaggedWire
