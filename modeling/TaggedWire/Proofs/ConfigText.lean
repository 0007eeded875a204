import TaggedWire.Config.Document
import TaggedWire.Proofs.Formatting

/-!
Configurations and their texts. A configuration is written as a plain document: the limit, if there
is one, and the policy as a table. Main statement: in every faithful format each configuration has a
text unless its limit is above the largest integer of a document, and reading the text gives the
configuration back, or the error of a limit that no message meets.
-/
namespace TaggedWire

attribute [local instance (high)] instPowNat

open Toml

theorem DecodePolicy.ofEntries?_of_fill {p : DecodePolicy} {es : Entries}
    (h : Pairs.Fill p.pairs es) : ofEntries? es = some p := by
  have hverify : es.get? "verify_checksum" = some (.bool p.verifyChecksum) := h _
  have htrailing : es.get? "allow_trailing_bytes" = some (.bool p.allowTrailingBytes) := h _
  rw [ofEntries?, hverify, htrailing]
  rfl

namespace Config

theorem number_mem_document_iff {c : Config} {n : Nat} :
    .number n ∈ c.document.scalars ↔ ∃ m, c.maxMessageSize = some m ∧ n = m.toNat := by
  change .number n ∈ (limitPairs c.maxMessageSize).map Prod.snd ++
    [("decode", c.decode.pairs)].flatMap (fun t => t.2.map Prod.snd) ↔ _
  cases c.maxMessageSize with
  | none => simp [limitPairs, DecodePolicy.pairs]
  | some m => simp [limitPairs, DecodePolicy.pairs]

section fills

variable {c : Config} {es : Entries}

theorem get?_limit_of_fills (h : c.document.Fills es) :
    es.get? "max_message_size" = c.maxMessageSize.map fun m => .integer m.toNat := by
  have hother : "max_message_size" ∉ c.document.tables.map Prod.fst := by
    change "max_message_size" ∉ ["decode"]
    decide
  rw [h.pairs _ hother]
  change ((limitPairs c.maxMessageSize).lookup _).map _ = _
  cases c.maxMessageSize <;> rfl

theorem ofEntries?_of_fills (h : c.document.Fills es) : ofEntries? es = some c := by
  have hlimit : limit? (es.get? "max_message_size") = some c.maxMessageSize := by
    rw [get?_limit_of_fills h]
    cases c.maxMessageSize with
    | none => rfl
    | some m =>
      change limit? (some (.integer m.toNat)) = _
      rw [limit?, if_pos (Int.natCast_nonneg _), Int.toNat_natCast, UInt64.ofNat_toNat]
  obtain ⟨origin, sub, htable, hpolicy⟩ := h.tables ("decode", c.decode.pairs) List.mem_cons_self
  have hdecode : DecodePolicy.ofItem? (.table origin sub) = some c.decode :=
    DecodePolicy.ofEntries?_of_fill hpolicy
  simp [ofEntries?, hlimit, htable, hdecode]

end fills

section format

variable {f : Format} {c : Config} {text : String}

theorem renderWith_eq_ok_iff : renderWith f c = .ok text ↔ f.write? c.document = some text := by
  unfold renderWith
  cases f.write? c.document <;> simp

theorem renderWith_eq_error_iff (hf : f.Faithful) {e : WireError} :
    renderWith f c = .error e ↔
      e = .config .limitOutOfRange ∧ ∃ m, c.maxMessageSize = some m ∧ maxInteger < m.toNat := by
  have hlimit : (∃ text, f.write? c.document = some text) ↔
      ∀ m, c.maxMessageSize = some m → m.toNat ≤ maxInteger := by
    simp only [hf.writes, number_mem_document_iff]
    constructor
    · intro h m hm
      exact h _ ⟨m, hm, rfl⟩
    · rintro h _ ⟨m, hm, rfl⟩
      exact h m hm
  unfold renderWith
  cases hwrite : f.write? c.document with
  | none =>
    have hlarge : ∃ m, c.maxMessageSize = some m ∧ maxInteger < m.toNat := by
      rw [hwrite] at hlimit
      simpa using hlimit
    simp [hlarge, eq_comm]
  | some text =>
    refine iff_of_false (by simp) ?_
    rintro ⟨-, m, hm, hlarge⟩
    exact absurd (hlimit.mp ⟨text, hwrite⟩ m hm) (Nat.not_le.mpr hlarge)

theorem exists_renderWith (hf : f.Faithful)
    (h : ∀ m, c.maxMessageSize = some m → m.toNat ≤ maxInteger) :
    ∃ text, renderWith f c = .ok text := by
  cases hrender : renderWith f c with
  | ok text => exact ⟨text, rfl⟩
  | error e =>
    obtain ⟨-, m, hm, hlarge⟩ := (renderWith_eq_error_iff hf).mp hrender
    exact absurd (h m hm) (Nat.not_le.mpr hlarge)

theorem exists_entries_of_renderWith (hf : f.Faithful) (h : renderWith f c = .ok text) :
    ∃ es, f.read? text = some es ∧ c.document.Fills es :=
  hf.reads _ _ (renderWith_eq_ok_iff.mp h)

theorem loadWith_of_renderWith (hf : f.Faithful) (h : renderWith f c = .ok text) :
    loadWith f text = c.validate.map fun _ => c := by
  obtain ⟨es, hread, hfills⟩ := exists_entries_of_renderWith hf h
  rw [loadWith, hread, Option.bind_some, ofEntries?_of_fills hfills]

theorem loadWith_of_valid (hf : f.Faithful) (h : renderWith f c = .ok text)
    (hvalid : c.validate = .ok ()) : loadWith f text = .ok c := by
  rw [loadWith_of_renderWith hf h, hvalid]
  rfl

theorem loadWith_of_absent (hf : f.Faithful) (h : renderWith f c = .ok text)
    (hnone : c.maxMessageSize = none) : loadWith f text = .ok c :=
  loadWith_of_valid hf h (if_neg (by simp [hnone]))

theorem loadWith_of_zero (hf : f.Faithful) (h : renderWith f c = .ok text)
    (hzero : c.maxMessageSize = some 0) :
    c.validate = .error (.config .zeroLimit) ∧
      loadWith f text = .error (.config .zeroLimit) := by
  have hvalidate : c.validate = .error (.config .zeroLimit) := if_pos hzero
  refine ⟨hvalidate, ?_⟩
  rw [loadWith_of_renderWith hf h, hvalidate]
  rfl

end format

/-- The policy is written without some of the letters in the name of the limit. -/
theorem not_mem_policyText (p : DecodePolicy) {text : String}
    (h : tablesText? [("decode", p.pairs)] = some text) : 'x' ∉ text.toList := by
  obtain ⟨verify, trailing⟩ := p
  cases verify <;> cases trailing <;> (cases h; decide)

theorem prefix_spaced (above below : String) : above.toList <+: (spaced above below).toList := by
  unfold spaced
  split
  · rw [String.toList_append]
    exact List.prefix_append _ _
  · rw [String.append_assoc, String.toList_append]
    exact List.prefix_append _ _

theorem key_infix_iff {c : Config} {text : String} (h : render c = .ok text) :
    "max_message_size".toList <:+: text.toList ↔ c.maxMessageSize ≠ none := by
  have hwrite : c.document.text? = some text := renderWith_eq_ok_iff.mp h
  simp only [Plain.text?, Option.bind_eq_bind, Option.bind_eq_some_iff, pure, Option.some.injEq]
    at hwrite
  obtain ⟨above, habove, below, hbelow, rfl⟩ := hwrite
  change Pairs.text? (limitPairs c.maxMessageSize) = some above at habove
  cases hlimit : c.maxMessageSize with
  | none =>
    rw [hlimit] at habove
    cases habove
    refine iff_of_false ?_ (fun hsome => hsome rfl)
    intro hoccurs
    have hpolicy : spaced "" below = "" ++ below := if_pos (.inl rfl)
    rw [hpolicy, String.empty_append] at hoccurs
    exact not_mem_policyText c.decode hbelow (hoccurs.subset (by decide))
  | some m =>
    rw [hlimit] at habove
    simp only [limitPairs, Pairs.text?, Option.bind_eq_bind, Option.bind_eq_some_iff, pure,
      Option.some.injEq] at habove
    obtain ⟨value, -, -, -, rfl⟩ := habove
    refine iff_of_true ?_ (by simp)
    refine (List.IsPrefix.trans ?_ (prefix_spaced _ below)).isInfix
    rw [String.append_assoc, String.append_assoc, String.append_assoc, String.toList_append]
    exact List.prefix_append _ _

/-- A configuration has no text exactly if its limit is above the integers of a document. Its text
is read as the configuration itself if it is valid, and as the error of validation if the limit is
zero. The key of the limit is written for a limit that is there, and only then; a limit that is not
there is read as absent. All this holds in every faithful format; in the format of this library the
key can be seen in the text. -/
theorem load_render_inverse (c : Config) :
    (∀ f : Toml.Format, f.Faithful →
      (∀ e, renderWith f c = .error e ↔
        e = .config .limitOutOfRange ∧
          ∃ m, c.maxMessageSize = some m ∧ 2 ^ (63 : Nat) - 1 < m.toNat) ∧
      ((∀ m, c.maxMessageSize = some m → m.toNat ≤ 2 ^ (63 : Nat) - 1) →
        ∃ text, renderWith f c = .ok text ∧
          (c.validate = .ok () → loadWith f text = .ok c) ∧
          (c.maxMessageSize = some 0 →
            c.validate = .error (.config .zeroLimit) ∧
              loadWith f text = .error (.config .zeroLimit)) ∧
          (∃ es, f.read? text = some es ∧
            (es.get? "max_message_size" = none ↔ c.maxMessageSize = none)) ∧
          (c.maxMessageSize = none → loadWith f text = .ok c))) ∧
    (∀ e, render c = .error e ↔
      e = .config .limitOutOfRange ∧
        ∃ m, c.maxMessageSize = some m ∧ 2 ^ (63 : Nat) - 1 < m.toNat) ∧
    ((∀ m, c.maxMessageSize = some m → m.toNat ≤ 2 ^ (63 : Nat) - 1) →
      ∃ text, render c = .ok text ∧
        (c.validate = .ok () → load text = .ok c) ∧
        (c.maxMessageSize = some 0 →
          c.validate = .error (.config .zeroLimit) ∧
            load text = .error (.config .zeroLimit)) ∧
        ("max_message_size".toList <:+: text.toList ↔ c.maxMessageSize ≠ none) ∧
        (c.maxMessageSize = none → load text = .ok c)) := by
  refine ⟨?_, fun e => renderWith_eq_error_iff faithful_format, ?_⟩
  · intro f hf
    refine ⟨fun e => renderWith_eq_error_iff hf, ?_⟩
    intro hlimit
    obtain ⟨text, htext⟩ := exists_renderWith hf hlimit
    obtain ⟨es, hread, hfills⟩ := exists_entries_of_renderWith hf htext
    refine ⟨text, htext, loadWith_of_valid hf htext, loadWith_of_zero hf htext, ⟨es, hread, ?_⟩,
      loadWith_of_absent hf htext⟩
    rw [get?_limit_of_fills hfills, Option.map_eq_none_iff]
  · intro hlimit
    obtain ⟨text, htext⟩ := exists_renderWith faithful_format hlimit
    exact ⟨text, htext, loadWith_of_valid faithful_format htext,
      loadWith_of_zero faithful_format htext, key_infix_iff htext,
      loadWith_of_absent faithful_format htext⟩

end Config

end TaggedWire
