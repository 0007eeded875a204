import TaggedWire.Proofs.Bounded
import TaggedWire.Proofs.Completion
import TaggedWire.Proofs.Precedence

/-!
Messages are written as a whole or not at all. Before the first byte it is known whether all fields
have values and whether all bytes fit, because the size that is asked for is the size of what is
written. Main statement: whatever a builder was asked before and whatever a writer holds, writing a
message changes nothing or appends exactly the message that the builder builds on its own.
-/
namespace TaggedWire

namespace Builder

theorem writeVia_of_missing {b : Builder} {putField : List Value → Write Unit} {w : Writer}
    {e : WireError} (h : b.complete = .error e) : (b.writeVia putField).run w = .error e w := by
  unfold writeVia
  rw [h]
  exact Write.bind_of_error rfl

theorem writeVia_of_not_fits {b : Builder} {putField : List Value → Write Unit} {w : Writer}
    {given : List (List Value)} (h : b.complete = .ok given) (hw : ¬ w.Fits b.encodedSize) :
    (b.writeVia putField).run w = .error (w.overflow b.encodedSize) w := by
  unfold writeVia
  rw [h]
  dsimp only
  rw [Write.bind_of_ok (EStateM.run_pure _ _)]
  exact Write.bind_of_error (Writer.ensure_of_not_fits hw)

theorem Consistent.exists_missing {s : Schema} {b : Builder} (h : Consistent s b)
    (hincomplete : b.isComplete = false) :
    ∃ f, (s.fields.zip b.values).find? (fun p => p.2.isNone) = some (f, none) ∧
      b.complete = .error (.missingField f.name) := by
  cases hfind : (s.fields.zip b.values).find? (fun p => p.2.isNone) with
  | none =>
    have hall : b.isComplete = true := by
      have hvalues : (s.fields.zip b.values).map Prod.snd = b.values :=
        List.map_snd_zip (Nat.le_of_eq h.length_eq)
      rw [isComplete, ← hvalues, List.all_map, List.all_eq_true]
      intro p hp
      simpa [Option.isSome_iff_ne_none] using List.find?_eq_none.mp hfind p hp
    rw [hall] at hincomplete
    cases hincomplete
  | some p =>
    obtain ⟨f, v⟩ := p
    have hnone : v.isNone = true := by simpa using List.find?_some hfind
    obtain rfl := Option.isNone_iff_eq_none.mp hnone
    refine ⟨f, rfl, ?_⟩
    -- the fields in front of the first one without values give the traversal no error
    obtain ⟨-, before, after, hsplit, hbefore⟩ := List.find?_eq_some_iff_append.mp hfind
    rw [complete, h.schema_eq]
    refine mapM_eq_error_iff.mpr ⟨before, _, after, hsplit, ?_, rfl⟩
    rintro ⟨g, vs⟩ hmem
    cases vs with
    | none => cases hbefore _ hmem
    | some vs => exact ⟨vs, rfl⟩

/-- The values of a field, one write for each of them. -/
def putEach (vs : List Value) : Write Unit :=
  vs.forM fun v => discard (Writer.putValue v)

theorem putEach_of_fits (vs : List Value) (w : Writer)
    (h : w.Fits (Value.encodeAll vs).length) :
    (putEach vs).run w = .ok () (w.extend (Value.encodeAll vs)) := by
  have hput : ∀ v w', Writer.Fits w' v.encode.length →
      (discard (Writer.putValue v) : Write Unit).run w' = .ok () (w'.extend v.encode) :=
    fun v w' hv => Write.discard_of_ok (Write.bind_of_ok (Writer.append_of_fits hv))
  exact Writer.forM_of_fits hput h

/-- One write for each value comes to the same as one write for each field: in a writer without
room for all of them, neither is ever begun. -/
theorem Consistent.writeVia_putEach {s : Schema} {b : Builder} (h : Consistent s b) (w : Writer) :
    (b.writeVia putEach).run w = b.writeTo.run w := by
  rw [writeTo_eq_writeVia]
  cases hcomplete : b.isComplete with
  | false =>
    obtain ⟨f, -, hmissing⟩ := h.exists_missing hcomplete
    rw [writeVia_of_missing hmissing, writeVia_of_missing hmissing]
  | true =>
    obtain ⟨given, hvalues, hgiven⟩ := h.exists_values hcomplete
    rw [← h.schema_eq] at hgiven
    by_cases hw : w.Fits b.encodedSize
    · rw [writeVia_of_fits putEach_of_fits hvalues hgiven hw, ← writeTo_eq_writeVia,
        writeTo_of_fits hvalues hgiven hw]
    · have hgiven := complete_of_values hvalues hgiven.length_eq
      rw [writeVia_of_not_fits hgiven hw, writeVia_of_not_fits hgiven hw]

theorem step_writeTo_of_missing {b : Builder} {w : Writer} {e : WireError}
    (h : b.complete = .error e) : w.step b.writeTo = (w, .error e) := by
  rw [Writer.step, outcome, writeTo_eq_writeVia, writeVia_of_missing h]

theorem step_writeTo_of_not_fits {b : Builder} {given : List (List Value)} {w : Writer}
    (h : b.complete = .ok given) (hw : ¬ w.Fits b.encodedSize) :
    w.step b.writeTo = (w, .error (w.overflow b.encodedSize)) := by
  rw [Writer.step, outcome, writeTo_eq_writeVia, writeVia_of_not_fits h hw]

theorem step_writeTo_of_fits {b : Builder} {given : List (List Value)} {w : Writer}
    (hvalues : b.values = given.map some) (hgiven : List.Forall₂ Field.Holds b.schema.fields given)
    (hw : w.Fits b.encodedSize) :
    w.step b.writeTo =
      (w.extend (Parts.canonical b.schema given).message,
        .ok ⟨(Parts.canonical b.schema given).message,
          (Parts.canonical b.schema given).checksum⟩) := by
  rw [Writer.step, outcome, writeTo_of_fits hvalues hgiven hw]

theorem buildInto_of_le {b : Builder} {out : Bytes} (h : b.encodedSize ≤ out.length) :
    b.buildInto out =
      (((Writer.onStorage out).step b.writeTo).1.storage,
        ((Writer.onStorage out).step b.writeTo).2) := by
  rw [buildInto, if_neg (Nat.not_lt.mpr h)]

/-- Writing a message to any writer, after any requests to its builder. Without values for all
fields, or without room for all bytes, the writer stays as it is; otherwise the bytes are those
that are built alone, wherever the writer stands. Writing into the front of given bytes leaves the
bytes behind the message alone. -/
theorem writeTo_all_or_nothing (s : Schema) (ops : List Op) (w : Writer) (out : Bytes) :
    let b := (new s).run ops
    (b.isComplete = false →
      ∃ f, (s.fields.zip b.values).find? (fun p => p.2.isNone) = some (f, none) ∧
        w.step b.writeTo = (w, .error (.missingField f.name)) ∧
        (s.encodedSize ≤ out.length → b.buildInto out = (out, .error (.missingField f.name)))) ∧
    (b.isComplete = true →
      ∃ built, b.build = .ok built ∧ built.bytes.length = s.encodedSize ∧
        (∀ rest, w.room = some rest → rest.length < s.encodedSize →
          w.step b.writeTo = (w, .error (.bufferTooSmall (saturate (w.position + s.encodedSize))
            w.capacity "slice writer"))) ∧
        ((∀ rest, w.room = some rest → s.encodedSize ≤ rest.length) →
          w.step b.writeTo =
            (⟨w.written ++ built.bytes, w.room.map (·.drop s.encodedSize)⟩, .ok built)) ∧
        (s.encodedSize ≤ out.length →
          b.buildInto out = (built.bytes ++ out.drop s.encodedSize, .ok built))) ∧
    (out.length < s.encodedSize →
      b.buildInto out =
        (out, .error (.bufferTooSmall s.encodedSize out.length "message build"))) ∧
    w.step (b.writeVia putEach) = w.step b.writeTo := by
  intro b
  have h : Consistent s b := (consistent_new s).run ops
  have hsize : b.encodedSize = s.encodedSize := congrArg Schema.encodedSize h.schema_eq
  refine ⟨?_, ?_, ?_, ?_⟩
  · intro hincomplete
    obtain ⟨f, hfirst, hmissing⟩ := h.exists_missing hincomplete
    refine ⟨f, hfirst, step_writeTo_of_missing hmissing, ?_⟩
    intro hroom
    rw [buildInto_of_le (hsize ▸ hroom), step_writeTo_of_missing hmissing]
    rfl
  · intro hcomplete
    obtain ⟨given, hvalues, hgiven⟩ := h.exists_values hcomplete
    have hlen := Parts.length_canonical hgiven
    rw [← h.schema_eq] at hgiven hlen ⊢
    refine ⟨_, build_of_values hvalues hgiven, hlen, ?_, ?_, ?_⟩
    · intro rest hrest hshort
      have hw : ¬ w.Fits b.encodedSize := fun hfits => Nat.not_le.mpr hshort (hfits rest hrest)
      exact step_writeTo_of_not_fits (complete_of_values hvalues hgiven.length_eq) hw
    · intro hw
      rw [step_writeTo_of_fits hvalues hgiven hw, Writer.extend, hlen]
    · intro hroom
      have hw : (Writer.onStorage out).Fits b.encodedSize :=
        fun rest hrest => Option.some.inj hrest ▸ hroom
      rw [buildInto_of_le hroom, step_writeTo_of_fits hvalues hgiven hw, ← hlen]
      rfl
  · intro hshort
    rw [buildInto, hsize, if_pos hshort]
  · rw [Writer.step, outcome, h.writeVia_putEach, ← outcome, ← Writer.step]

end Builder

end TaggedWire
