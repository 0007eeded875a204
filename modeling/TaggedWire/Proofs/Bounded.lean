import TaggedWire.Proofs.Writing

/-!
Bounded writers. A request comes to certain bytes, which depend on what was written before, or every
writer refuses it; a bounded writer refuses in addition the bytes for which it has no room. Main
statement: a writer on a storage follows a growing writer that is given the requests which succeed,
step by step and whatever else is asked in between.
-/
namespace TaggedWire

theorem Write.bind_of_error {α β : Type} {m : Write α} {f : α → Write β} {w w' : Writer}
    {e : WireError} (h : m.run w = .error e w') : (m >>= f).run w = .error e w' := by
  unfold EStateM.run at h ⊢
  simp only [bind, EStateM.bind, h]

theorem Write.map_of_error {α β : Type} {m : Write α} {f : α → β} {w w' : Writer} {e : WireError}
    (h : m.run w = .error e w') : (f <$> m).run w = .error e w' := by
  unfold EStateM.run at h ⊢
  simp only [Functor.map, EStateM.map, h]

theorem Write.discard_of_error {α : Type} {m : Write α} {w w' : Writer} {e : WireError}
    (h : m.run w = .error e w') : (discard m : Write Unit).run w = .error e w' := by
  unfold EStateM.run at h ⊢
  simp only [discard, Functor.mapConst, EStateM.map, Function.comp, h]

namespace Writer

/-- What a writer answers to bytes for which it has no room. -/
def overflow (w : Writer) (size : Nat) : WireError :=
  .bufferTooSmall (saturate (w.position + size)) w.capacity "slice writer"

theorem ensure_of_not_fits {w : Writer} {size : Nat} (h : ¬ w.Fits size) :
    (ensure size).run w = .error (w.overflow size) w := by
  obtain ⟨written, room⟩ := w
  cases room with
  | none => exact absurd (fits_growing written size) h
  | some rest =>
    have hshort : rest.length < size := by
      apply Nat.lt_of_not_le
      intro hle
      exact h (fun _ hrest => Option.some.inj hrest ▸ hle)
    unfold ensure
    rw [Write.bind_of_ok (get_run _)]
    dsimp only
    rw [if_pos hshort]
    rfl

theorem append_of_not_fits {w : Writer} {bytes : Bytes} (h : ¬ w.Fits bytes.length) :
    (append bytes).run w = .error (w.overflow bytes.length) w :=
  Write.bind_of_error (ensure_of_not_fits h)

theorem putMany_of_fits {w : Writer} {k : Kind} {vs : List k.Native} (hne : vs ≠ [])
    (h : w.Fits (Run.bytes k vs).length) :
    (putMany k vs).run w = .ok (vs.length * k.encodedLen) (w.extend (Run.bytes k vs)) := by
  have hput : ∀ v w', Fits w' (k.encode v).length →
      (discard (put k v) : Write Unit).run w' = .ok () (w'.extend (k.encode v)) := by
    intro v w' hv
    rw [Kind.length_encode] at hv
    exact Write.discard_of_ok (put_of_fits hv)
  -- the room asked for first is the room of all elements, so none of them is refused later
  have hloop : (vs.forM fun v => discard (put k v)).run w = .ok () (w.extend (Run.bytes k vs)) :=
    forM_of_fits hput h
  rw [Run.length_bytes] at h
  unfold putMany
  rw [if_neg (by simpa using hne), Write.bind_of_ok (ensure_of_fits h), Write.bind_of_ok hloop]
  rfl

theorem putMany_of_not_fits {w : Writer} {k : Kind} {vs : List k.Native} (hne : vs ≠ [])
    (h : ¬ w.Fits (Run.bytes k vs).length) :
    (putMany k vs).run w = .error (w.overflow (Run.bytes k vs).length) w := by
  rw [Run.length_bytes] at h ⊢
  unfold putMany
  rw [if_neg (by simpa using hne)]
  exact Write.bind_of_error (ensure_of_not_fits h)

theorem putTrailer_of_late {w : Writer} {start : Nat} (h : w.position < start) :
    (putTrailer start).run w =
      .error (.truncated start 0 0 "trailer start beyond written bytes") w := by
  unfold putTrailer
  rw [Write.bind_of_ok (get_run w), if_pos h]
  rfl

theorem putTrailer_of_not_fits {w : Writer} {start : Nat} (hstart : start ≤ w.position)
    (h : ¬ w.Fits Trailer.len) : (putTrailer start).run w = .error (w.overflow Trailer.len) w := by
  have happend : (append (Kind.encode .uint16 (Checksum.ofBytes (w.written.drop start)))).run w =
      .error (w.overflow _) w :=
    append_of_not_fits (by rwa [Kind.length_encode])
  rw [Kind.length_encode] at happend
  unfold putTrailer
  rw [Write.bind_of_ok (get_run w), if_neg (Nat.not_lt.mpr hstart)]
  exact Write.bind_of_error (Write.discard_of_error (Write.bind_of_error happend))

namespace Op

/-- The requests that every writer refuses, with the cause. -/
inductive Refused (written : Bytes) : Op → WireError → Prop
  | emptyRun (k : Kind) : Refused written (.putMany k []) (.zeroLength "repeated run")
  | lateStart (start : Nat) : written.length < start →
      Refused written (.putTrailer start)
        (.truncated start 0 0 "trailer start beyond written bytes")

/-- The bytes that the other requests come to, with the answer. -/
inductive Appends (written : Bytes) : Op → Bytes → Nat → Prop
  | put (k : Kind) (v : k.Native) : Appends written (.put k v) (k.encode v) k.encodedLen
  | putValue (v : Value) : Appends written (.putValue v) v.encode v.encode.length
  | putArrayHeader (n : ArrayLength) :
      Appends written (.putArrayHeader n) n.encode n.encode.length
  | putMany (k : Kind) (vs : List k.Native) : vs ≠ [] →
      Appends written (.putMany k vs) (Run.bytes k vs) (vs.length * k.encodedLen)
  | putTrailer (start : Nat) : start ≤ written.length →
      Appends written (.putTrailer start)
        (Trailer.encode (Checksum.ofBytes (written.drop start)))
        (Checksum.ofBytes (written.drop start)).toNat

theorem refused_or_appends (written : Bytes) (op : Op) :
    (∃ e, Refused written op e) ∨ ∃ bytes n, Appends written op bytes n := by
  cases op with
  | put k v => exact .inr ⟨_, _, .put k v⟩
  | putValue v => exact .inr ⟨_, _, .putValue v⟩
  | putArrayHeader n => exact .inr ⟨_, _, .putArrayHeader n⟩
  | putMany k vs =>
    cases vs with
    | nil => exact .inl ⟨_, .emptyRun k⟩
    | cons v vs => exact .inr ⟨_, _, .putMany k (v :: vs) (List.cons_ne_nil v vs)⟩
  | putTrailer start =>
    rcases Nat.lt_or_ge written.length start with hlate | hstart
    · exact .inl ⟨_, .lateStart start hlate⟩
    · exact .inr ⟨_, _, .putTrailer start hstart⟩

theorem Appends.length_eq {written bytes : Bytes} {op : Op} {n : Nat}
    (h : Appends written op bytes n) : bytes.length = op.size := by
  cases h with
  | put k v => exact Kind.length_encode k v
  | putValue v => exact Value.length_encode v
  | putArrayHeader n => exact ArrayLength.length_encode n
  | putMany k vs => exact Run.length_bytes k vs
  | putTrailer start => exact Trailer.length_encode _

theorem Refused.run_eq {w : Writer} {op : Op} {e : WireError} (h : Refused w.written op e) :
    op.run.run w = .error e w := by
  cases h with
  | emptyRun k => rfl
  | lateStart start hlate => exact Write.map_of_error (putTrailer_of_late hlate)

theorem Appends.run_of_fits {w : Writer} {op : Op} {bytes : Bytes} {n : Nat}
    (h : Appends w.written op bytes n) (hfits : w.Fits bytes.length) :
    op.run.run w = .ok n (w.extend bytes) := by
  cases h with
  | put k v => exact Write.bind_of_ok (append_of_fits hfits)
  | putValue v => exact Write.bind_of_ok (append_of_fits hfits)
  | putArrayHeader n => exact putArrayHeader_of_fits hfits
  | putMany k vs hne => exact putMany_of_fits hne hfits
  | putTrailer start hstart =>
    rw [Trailer.length_encode] at hfits
    exact Write.map_of_ok (putTrailer_of_fits hstart hfits)

theorem Appends.run_of_not_fits {w : Writer} {op : Op} {bytes : Bytes} {n : Nat}
    (h : Appends w.written op bytes n) (hfits : ¬ w.Fits bytes.length) :
    op.run.run w = .error (w.overflow bytes.length) w := by
  cases h with
  | put k v => exact Write.bind_of_error (append_of_not_fits hfits)
  | putValue v => exact Write.bind_of_error (append_of_not_fits hfits)
  | putArrayHeader n => exact Write.bind_of_error (append_of_not_fits hfits)
  | putMany k vs hne => exact putMany_of_not_fits hne hfits
  | putTrailer start hstart =>
    rw [Trailer.length_encode] at hfits ⊢
    exact Write.map_of_error (putTrailer_of_not_fits hstart hfits)

end Op

theorem step_of_refused {w : Writer} {op : Op} {e : WireError} (h : op.Refused w.written e) :
    w.step op.run = (w, .error e) := by
  rw [step, outcome, h.run_eq]

theorem step_of_fits {w : Writer} {op : Op} {bytes : Bytes} {n : Nat}
    (h : op.Appends w.written bytes n) (hfits : w.Fits bytes.length) :
    w.step op.run = (w.extend bytes, .ok n) := by
  rw [step, outcome, h.run_of_fits hfits]

theorem step_of_not_fits {w : Writer} {op : Op} {bytes : Bytes} {n : Nat}
    (h : op.Appends w.written bytes n) (hfits : ¬ w.Fits bytes.length) :
    w.step op.run = (w, .error (w.overflow bytes.length)) := by
  rw [step, outcome, h.run_of_not_fits hfits]

/-- The writer after requests in order; the next one is made also when one fails. -/
def perform (w : Writer) (ops : List Op) : Writer :=
  ops.foldl (fun w op => (w.step op.run).1) w

theorem perform_cons (w : Writer) (op : Op) (ops : List Op) :
    w.perform (op :: ops) = (w.step op.run).1.perform ops := rfl

/-- Those of the requests that succeed. -/
def accepted (w : Writer) : List Op → List Op
  | [] => []
  | op :: ops =>
    match w.step op.run with
    | (w', .ok _) => op :: accepted w' ops
    | (w', .error _) => accepted w' ops

section growing

variable {α : Type} {op : α → Op} {bytes : α → Bytes}

/-- Requests that come to the same bytes wherever they are made are appended one after the other. -/
theorem perform_growing (h : ∀ a written, ∃ n, (op a).Appends written (bytes a) n) (items : List α)
    (written : Bytes) :
    (growing written).perform (items.map op) = growing (written ++ items.flatMap bytes) := by
  induction items generalizing written with
  | nil =>
    rw [List.flatMap_nil, List.append_nil]
    rfl
  | cons a items ih =>
    obtain ⟨n, hn⟩ := h a written
    have hstep := step_of_fits hn (fits_growing written _)
    rw [List.map_cons, perform_cons, hstep, List.flatMap_cons, ← List.append_assoc]
    exact ih _

theorem accepted_growing (h : ∀ a written, ∃ n, (op a).Appends written (bytes a) n)
    (items : List α) (written : Bytes) :
    (growing written).accepted (items.map op) = items.map op := by
  induction items generalizing written with
  | nil => rfl
  | cons a items ih =>
    obtain ⟨n, hn⟩ := h a written
    rw [List.map_cons, accepted, step_of_fits hn (fits_growing written _)]
    exact congrArg (op a :: ·) (ih _)

end growing

/-- A writer on a storage and a growing writer that have written the same bytes. What the first has
not written is as it was in the storage. -/
structure Mirrors (storage : Bytes) (w g : Writer) : Prop where
  room_eq : g.room = none
  eq_extend : w = (onStorage storage).extend g.written
  length_le : g.written.length ≤ storage.length

theorem mirrors_start (storage : Bytes) : Mirrors storage (onStorage storage) (growing []) :=
  ⟨rfl, (extend_nil _).symm, Nat.zero_le _⟩

namespace Mirrors

variable {storage : Bytes} {w g : Writer}

theorem written_eq (h : Mirrors storage w g) : w.written = g.written := by
  rw [h.eq_extend]
  rfl

theorem storage_eq (h : Mirrors storage w g) :
    w.storage = g.written ++ storage.drop g.written.length := by
  rw [h.eq_extend]
  rfl

theorem capacity_eq (h : Mirrors storage w g) : w.capacity = storage.length := by
  have hle := h.length_le
  rw [capacity, h.storage_eq, List.length_append, List.length_drop]
  omega

theorem overflow_eq (h : Mirrors storage w g) (size : Nat) :
    w.overflow size =
      .bufferTooSmall (saturate (g.written.length + size)) storage.length "slice writer" := by
  rw [overflow, position, h.written_eq, h.capacity_eq]

theorem fits_growing (h : Mirrors storage w g) (size : Nat) : g.Fits size := by
  intro rest hrest
  rw [h.room_eq] at hrest
  cases hrest

theorem fits_iff (h : Mirrors storage w g) {size : Nat} :
    w.Fits size ↔ g.written.length + size ≤ storage.length := by
  have hle := h.length_le
  have hroom : w.room = some (storage.drop g.written.length) := by
    rw [h.eq_extend]
    rfl
  constructor
  · intro hfits
    have hrest := hfits _ hroom
    rw [List.length_drop] at hrest
    omega
  · intro hsize rest hrest
    rw [hroom, Option.some.injEq] at hrest
    rw [← hrest, List.length_drop]
    omega

theorem extend (h : Mirrors storage w g) {bytes : Bytes}
    (hfits : g.written.length + bytes.length ≤ storage.length) :
    Mirrors storage (w.extend bytes) (g.extend bytes) := by
  refine ⟨?_, ?_, ?_⟩
  · rw [Writer.extend, h.room_eq]
    rfl
  · rw [h.eq_extend, extend_append]
    rfl
  · rw [written_extend, List.length_append]
    exact hfits

/-- What a request can lead to: both writers refuse it, both append its bytes, or only the growing
one does. -/
theorem step (h : Mirrors storage w g) (op : Op) :
    (∃ e, op.Refused g.written e ∧ g.step op.run = (g, .error e) ∧
      w.step op.run = (w, .error e)) ∨
    ∃ bytes n, bytes.length = op.size ∧ g.step op.run = (g.extend bytes, .ok n) ∧
      (g.written.length + op.size ≤ storage.length ∧ w.step op.run = (w.extend bytes, .ok n) ∨
        storage.length < g.written.length + op.size ∧
          w.step op.run = (w, .error (.bufferTooSmall (saturate (g.written.length + op.size))
            storage.length "slice writer"))) := by
  rcases op.refused_or_appends g.written with ⟨e, he⟩ | ⟨bytes, n, hbytes⟩
  · exact .inl ⟨e, he, step_of_refused he, step_of_refused (h.written_eq ▸ he)⟩
  · have hlen := hbytes.length_eq
    have hsame : op.Appends w.written bytes n := h.written_eq ▸ hbytes
    refine .inr ⟨bytes, n, hlen, step_of_fits hbytes (h.fits_growing _), ?_⟩
    rw [← hlen]
    rcases Nat.lt_or_ge storage.length (g.written.length + bytes.length) with hlong | hfits
    · refine .inr ⟨hlong, ?_⟩
      rw [step_of_not_fits hsame (mt h.fits_iff.mp (Nat.not_le.mpr hlong)), h.overflow_eq]
    · exact .inl ⟨hfits, step_of_fits hsame (h.fits_iff.mpr hfits)⟩

theorem perform (h : Mirrors storage w g) (ops : List Op) :
    Mirrors storage (w.perform ops) (g.perform (w.accepted ops)) := by
  induction ops generalizing w g with
  | nil => exact h
  | cons op ops ih =>
    rw [perform_cons, accepted]
    -- the growing writer hears of the request only in the case where both append its bytes
    rcases h.step op with ⟨e, -, -, hw⟩ | ⟨bytes, n, hlen, hg, ⟨hfits, hw⟩ | ⟨-, hw⟩⟩
    · rw [hw]
      exact ih h
    · rw [hw]
      dsimp only
      rw [perform_cons, hg]
      exact ih (h.extend (hlen ▸ hfits))
    · rw [hw]
      exact ih h

theorem answer_ok_iff (h : Mirrors storage w g) {op : Op} {n : Nat} :
    (w.step op.run).2 = .ok n ↔
      (g.step op.run).2 = .ok n ∧ g.written.length + op.size ≤ storage.length := by
  rcases h.step op with ⟨e, -, hg, hw⟩ | ⟨bytes, m, -, hg, ⟨hfits, hw⟩ | ⟨hlong, hw⟩⟩
  · simp [hg, hw]
  · simp [hg, hw, hfits]
  · simp [hg, hw, hlong]

theorem growing_error_iff (h : Mirrors storage w g) {op : Op} {e : WireError} :
    (g.step op.run).2 = .error e ↔ op.Refused g.written e := by
  constructor
  · intro herr
    rcases h.step op with ⟨e', he, hg, -⟩ | ⟨bytes, n, -, hg, -⟩
    · rw [hg] at herr
      cases herr
      exact he
    · rw [hg] at herr
      cases herr
  · intro he
    rw [step_of_refused he]

theorem answer_error_iff (h : Mirrors storage w g) {op : Op} {e : WireError} :
    (w.step op.run).2 = .error e ↔
      op.Refused g.written e ∨
        (∃ n, (g.step op.run).2 = .ok n) ∧ storage.length < g.written.length + op.size ∧
          e = .bufferTooSmall (saturate (g.written.length + op.size)) storage.length
            "slice writer" := by
  rw [← h.growing_error_iff]
  rcases h.step op with ⟨e', -, hg, hw⟩ | ⟨bytes, n, -, hg, ⟨hfits, hw⟩ | ⟨hlong, hw⟩⟩
  · simp [hg, hw]
  · simp [hg, hw, Nat.not_lt.mpr hfits]
  · simp [hg, hw, hlong, eq_comm]

theorem eq_of_error (h : Mirrors storage w g) {op : Op} {e : WireError} :
    ((w.step op.run).2 = .error e → (w.step op.run).1 = w) ∧
      ((g.step op.run).2 = .error e → (g.step op.run).1 = g) := by
  rcases h.step op with ⟨e', -, hg, hw⟩ | ⟨bytes, n, -, hg, ⟨-, hw⟩ | ⟨-, hw⟩⟩
  · simp [hg, hw]
  · simp [hg, hw]
  · simp [hg, hw]

theorem length_of_ok (h : Mirrors storage w g) {op : Op} {n : Nat}
    (hok : (g.step op.run).2 = .ok n) :
    (g.step op.run).1.written.length = g.written.length + op.size := by
  rcases h.step op with ⟨e, -, hg, -⟩ | ⟨bytes, m, hlen, hg, -⟩
  · rw [hg] at hok
    cases hok
  · rw [hg, written_extend, List.length_append, hlen]

end Mirrors

/-- After any requests, a writer on a storage holds in front what the requests that succeeded give
when they are made to a growing writer, and behind it the storage as it was. The next request has
the answer of the growing writer if its bytes fit. It fails if it is refused by every writer, and
otherwise only for want of room; a failure changes nothing. -/
theorem storage_mirrors_growing (storage : Bytes) (ops : List Op) (op : Op) :
    let w := (onStorage storage).perform ops
    let g := (growing []).perform ((onStorage storage).accepted ops)
    (w.position = g.written.length ∧ g.written.length ≤ storage.length ∧
      w.storage.take g.written.length = g.written ∧
      w.storage.drop g.written.length = storage.drop g.written.length) ∧
    (∀ n, (w.step op.run).2 = .ok n ↔
      (g.step op.run).2 = .ok n ∧ g.written.length + op.size ≤ storage.length) ∧
    (∀ e, (g.step op.run).2 = .error e ↔ op.Refused g.written e) ∧
    (∀ e, (w.step op.run).2 = .error e ↔
      op.Refused g.written e ∨
        (∃ n, (g.step op.run).2 = .ok n) ∧ storage.length < g.written.length + op.size ∧
          e = .bufferTooSmall (saturate (g.written.length + op.size)) storage.length
            "slice writer") ∧
    (∀ e, ((w.step op.run).2 = .error e → (w.step op.run).1 = w) ∧
      ((g.step op.run).2 = .error e → (g.step op.run).1 = g)) ∧
    ∀ n, (g.step op.run).2 = .ok n →
      (g.step op.run).1.written.length = g.written.length + op.size := by
  intro w g
  have h : Mirrors storage w g := (mirrors_start storage).perform ops
  refine ⟨⟨?_, h.length_le, ?_, ?_⟩, fun _ => h.answer_ok_iff, fun _ => h.growing_error_iff,
    fun _ => h.answer_error_iff, fun _ => h.eq_of_error, fun _ => h.length_of_ok⟩
  · rw [position, h.written_eq]
  · rw [h.storage_eq, List.take_left]
  · rw [h.storage_eq, List.drop_left]

end Writer

end TaggedWire
