import TaggedWire.Proofs.Completion
import TaggedWire.Proofs.RoundTrip

/-!
Messages under a schema they were not written for. An element starts with a byte that tells its kind
and ends where its width says, so a byte string has at most one reading as so many elements, however
these are grouped into fields. Main statement: a message is accepted by another schema exactly if
both have the same kinds in the same order and agree on the trailer as far as the policy asks.
-/
namespace TaggedWire

namespace Value

/-- An element at the front of a byte string is the only one there, of any kind. -/
theorem encode_append_inj {v w : Value} {tail tail' : Bytes}
    (h : v.encode ++ tail = w.encode ++ tail') : v = w ∧ tail = tail' := by
  have hkind : v.kind = w.kind := by
    obtain ⟨t, payload, hv, ht⟩ := exists_encode_cons v
    obtain ⟨t', payload', hw, ht'⟩ := exists_encode_cons w
    rw [hv, hw, List.cons_append, List.cons_append, List.cons.injEq] at h
    rw [← h.1] at ht'
    exact Kind.eq_of_accepts ht ht'
  have hread : read v.kind 0 (v.encode ++ tail) = .ok (v, tail) := read_eq_ok_iff.mpr ⟨rfl, rfl⟩
  have hread' : read v.kind 0 (v.encode ++ tail) = .ok (w, tail') :=
    read_eq_ok_iff.mpr ⟨hkind.symm, h⟩
  rw [hread, Except.ok.injEq, Prod.mk.injEq] at hread'
  exact hread'

theorem encodeAll_append_inj {vs ws : List Value} {tail tail' : Bytes}
    (hlen : vs.length = ws.length) (h : encodeAll vs ++ tail = encodeAll ws ++ tail') :
    vs = ws ∧ tail = tail' := by
  induction vs generalizing ws with
  | nil =>
    obtain rfl := List.length_eq_zero_iff.mp hlen.symm
    exact ⟨rfl, h⟩
  | cons v vs ih =>
    cases ws with
    | nil => cases hlen
    | cons w ws =>
      rw [encodeAll_cons, encodeAll_cons, List.append_assoc, List.append_assoc] at h
      obtain ⟨rfl, hrest⟩ := encode_append_inj h
      obtain ⟨rfl, rfl⟩ := ih (Nat.succ.inj hlen) hrest
      exact ⟨rfl, rfl⟩

end Value

/-- The kinds of the elements that fields have, one after the other. -/
def elementKinds (fields : List Field) : List Kind :=
  fields.flatMap fun f => List.replicate f.count f.kind

theorem elementKinds_cons (f : Field) (fields : List Field) :
    elementKinds (f :: fields) = List.replicate f.count f.kind ++ elementKinds fields :=
  List.flatMap_cons

theorem length_elementKinds (fields : List Field) :
    (elementKinds fields).length = elementTotal fields := by
  induction fields with
  | nil => rfl
  | cons f fields ih =>
    rw [elementKinds_cons, List.length_append, List.length_replicate, ih, elementTotal,
      elementTotal, List.map_cons, List.sum_cons]

theorem Field.holds_iff_map_kind {f : Field} {vs : List Value} :
    f.Holds vs ↔ vs.map Value.kind = List.replicate f.count f.kind := by
  rw [List.eq_replicate_iff, List.length_map, List.forall_mem_map]
  exact ⟨fun h => ⟨h.length_eq, h.kind_eq⟩, fun h => ⟨h.1, h.2⟩⟩

namespace Schema

/-- Values can be given to fields exactly if their kinds come in the order of the elements; the
grouping into fields adds nothing. -/
theorem exists_grouping_iff {fields : List Field} {vs : List Value} :
    (∃ given, List.Forall₂ Field.Holds fields given ∧ given.flatten = vs) ↔
      vs.map Value.kind = elementKinds fields := by
  induction fields generalizing vs with
  | nil =>
    rw [elementKinds, List.flatMap_nil, List.map_eq_nil_iff]
    constructor
    · rintro ⟨given, hgiven, rfl⟩
      cases hgiven
      rfl
    · rintro rfl
      exact ⟨[], .nil, rfl⟩
  | cons f fields ih =>
    rw [elementKinds_cons]
    constructor
    · rintro ⟨given, hgiven, rfl⟩
      cases hgiven with
      | @cons _ ws _ given hf hgiven =>
        rw [List.flatten_cons, List.map_append, Field.holds_iff_map_kind.mp hf,
          ih.mp ⟨given, hgiven, rfl⟩]
    · intro h
      obtain ⟨front, back, rfl, hfront, hback⟩ := List.map_eq_append_iff.mp h
      obtain ⟨given, hgiven, rfl⟩ := ih.mpr hback
      exact ⟨front :: given, .cons (Field.holds_iff_map_kind.mpr hfront) hgiven, rfl⟩

theorem map_kind_flatten {fields : List Field} {given : List (List Value)}
    (h : List.Forall₂ Field.Holds fields given) :
    given.flatten.map Value.kind = elementKinds fields :=
  exists_grouping_iff.mp ⟨given, h, rfl⟩

theorem length_flatten {fields : List Field} {given : List (List Value)}
    (h : List.Forall₂ Field.Holds fields given) : given.flatten.length = elementTotal fields := by
  rw [← length_elementKinds, ← map_kind_flatten h, List.length_map]

theorem encodeBody_eq (given : List (List Value)) :
    encodeBody given = Value.encodeAll given.flatten := by
  induction given with
  | nil => rfl
  | cons vs given ih =>
    rw [encodeBody_cons, ih, List.flatten_cons, Value.encodeAll, Value.encodeAll,
      Value.encodeAll, List.flatMap_append]

theorem trailerLen_le_iff {a b : Schema} :
    b.trailerLen ≤ a.trailerLen ↔ (b.appendChecksum = true → a.appendChecksum = true) := by
  unfold trailerLen Trailer.len
  cases a.appendChecksum <;> cases b.appendChecksum <;> decide

/-- What the trailers of two schemas must have in common so that `b` reads messages of `a` to the
end. Where trailing bytes are accepted, a trailer may be left over. -/
structure EndsAlike (c : Config) (a b : Schema) : Prop where
  strict : c.decode.allowTrailingBytes = false → a.appendChecksum = b.appendChecksum
  lenient : c.decode.allowTrailingBytes = true → b.appendChecksum = true → a.appendChecksum = true

end Schema

namespace Parts

/-- A cut of a message under another schema has the header and the elements of the message. -/
theorem Admitted.eq_of_canonical {a b : Schema} {c : Config} {given : List (List Value)} {p : Parts}
    (hgiven : List.Forall₂ Field.Holds a.fields given) (hp : p.Admitted b c)
    (hbytes : p.bytes = (canonical a given).message) :
    p.values.flatten = given.flatten ∧ p.trailer ++ p.rest = (canonical a given).trailer := by
  simp only [bytes, message, covered, List.append_assoc] at hbytes
  obtain ⟨hcount, hheader⟩ := ArrayHeader.Announces.unique (n := b.headerLength)
    (m := a.headerLength) hp.header (ArrayHeader.announces_encode a.headerLength) hbytes
  -- equal counts let the two bodies be compared element by element, whatever the fields are
  rw [hheader] at hbytes
  have hbody := List.append_cancel_left hbytes
  have htotal : elementTotal b.fields = elementTotal a.fields := congrArg ArrayLength.val hcount
  rw [Schema.encodeBody_eq, Schema.encodeBody_eq] at hbody
  refine Value.encodeAll_append_inj ?_ hbody
  rw [Schema.length_flatten hp.values, htotal]
  exact (Schema.length_flatten hgiven).symm

theorem Admitted.endsAlike {a b : Schema} {c : Config} {given : List (List Value)} {p : Parts}
    (hgiven : List.Forall₂ Field.Holds a.fields given) (hp : p.Admitted b c)
    (htrailer : p.trailer ++ p.rest = (canonical a given).trailer) :
    Schema.EndsAlike c a b := by
  have hlen := congrArg List.length htrailer
  rw [List.length_append, hp.trailer.length_eq,
    (canonical_admitted (c := c) hgiven).trailer.length_eq] at hlen
  have hreads : b.appendChecksum = true → a.appendChecksum = true :=
    Schema.trailerLen_le_iff.mp (by omega)
  refine ⟨?_, fun _ => hreads⟩
  intro hstrict
  rw [hp.rest hstrict, List.length_nil, Nat.add_zero] at hlen
  exact Bool.eq_iff_iff.mpr ⟨Schema.trailerLen_le_iff.mp hlen.ge, hreads⟩

/-- Elements of the right kinds are regrouped, and a trailer that is not asked for is left over. -/
theorem exists_admitted {a b : Schema} {c : Config} {given : List (List Value)}
    (hgiven : List.Forall₂ Field.Holds a.fields given)
    (hkinds : elementKinds a.fields = elementKinds b.fields) (hends : Schema.EndsAlike c a b) :
    ∃ p : Parts, p.Admitted b c ∧ p.bytes = (canonical a given).message := by
  obtain ⟨values, hvalues, hflatten⟩ :=
    Schema.exists_grouping_iff.mpr ((Schema.map_kind_flatten hgiven).trans hkinds)
  have hcount : b.headerLength = a.headerLength := by
    have htotal := congrArg List.length hkinds
    rw [length_elementKinds, length_elementKinds] at htotal
    simp only [Schema.headerLength, Schema.elementCount, htotal]
  have hcovered : (canonical b values).covered = (canonical a given).covered := by
    rw [covered_canonical, covered_canonical, hcount, Schema.encodeBody_eq, Schema.encodeBody_eq,
      hflatten]
  have hadmitted := canonical_admitted (c := c) hvalues
  cases hb : b.appendChecksum with
  | true =>
    have ha : a.appendChecksum = true := by
      cases hallow : c.decode.allowTrailingBytes with
      | false => exact (hends.strict hallow).trans hb
      | true => exact hends.lenient hallow hb
    refine ⟨canonical b values, hadmitted, ?_⟩
    rw [bytes_canonical, (canonical_of_present values hb).1, (canonical_of_present given ha).1,
      hcovered]
  | false =>
    refine ⟨{ canonical b values with rest := (canonical a given).trailer },
      ⟨hadmitted.header, hadmitted.values, hadmitted.trailer, ?_⟩, ?_⟩
    · intro hstrict
      have ha : a.appendChecksum = false := (hends.strict hstrict).trans hb
      simp [canonical, ha]
    · have hmessage := (canonical_of_absent values hb).1
      rw [hcovered] at hmessage
      exact congrArg (· ++ (canonical a given).trailer) hmessage

end Parts

/-- Whether a schema accepts a message of another one depends on the kinds of the elements and on
the trailers only, and an accepted message keeps its values, however its fields are grouped. -/
theorem Schema.parse_of_other_schema (a b : Schema) (c : Config) (ops : List Builder.Op)
    (hlimit : c.maxMessageSize = none)
    (hcomplete : ((Builder.new a).run ops).isComplete = true) :
    ∃ (given : List (List Value)) (built : Built),
      ((Builder.new a).run ops).values = given.map some ∧
      ((Builder.new a).run ops).build = .ok built ∧
      ((∃ d, b.parse c built.bytes = .ok d) ↔
        elementKinds a.fields = elementKinds b.fields ∧ EndsAlike c a b) ∧
      ∀ d, b.parse c built.bytes = .ok d →
        d.fields.flatMap DecodedField.values = given.flatten := by
  obtain ⟨given, hvalues, hgiven, hbuild⟩ := Builder.build_of_complete hcomplete
  refine ⟨given, _, hvalues, hbuild, ⟨?_, ?_⟩, ?_⟩
  · rintro ⟨d, hparse⟩
    obtain ⟨-, p, hp, hbytes, -⟩ := parse_eq_ok_iff.mp hparse
    obtain ⟨hflatten, htrailer⟩ := hp.eq_of_canonical hgiven hbytes
    refine ⟨?_, hp.endsAlike hgiven htrailer⟩
    rw [← map_kind_flatten hgiven, ← hflatten, map_kind_flatten hp.values]
  · rintro ⟨hkinds, hends⟩
    obtain ⟨p, hp, hbytes⟩ := Parts.exists_admitted hgiven hkinds hends
    refine ⟨_, parse_eq_ok_iff.mpr ⟨?_, p, hp, hbytes, rfl⟩⟩
    intro max hmax
    rw [hlimit] at hmax
    cases hmax
  · intro d hparse
    obtain ⟨-, p, hp, hbytes, rfl⟩ := parse_eq_ok_iff.mp hparse
    obtain ⟨hflatten, -⟩ := hp.eq_of_canonical hgiven hbytes
    rw [← hflatten, Parts.decoded, List.flatMap_def, map_values_decodedFields hp.values]

theorem one_le_maxElements : 1 ≤ maxElements := by decide

/-- The elements of `reading`, each in a field of its own, and no trailer. -/
def regrouped : Schema where
  name := "Regrouped"
  version := 1
  appendChecksum := false
  fields :=
    [⟨"code", .uint16, 1, by decide, Nat.one_pos, one_le_maxElements⟩,
      ⟨"low", .float32, 1, by decide, Nat.one_pos, one_le_maxElements⟩,
      ⟨"high", .float32, 1, by decide, Nat.one_pos, one_le_maxElements⟩,
      ⟨"active", .bool, 1, by decide, Nat.one_pos, one_le_maxElements⟩]
  nodup := by decide
  elements_pos := by decide
  elements_le := by decide

theorem parse_of_other_schema_regrouped :
    ∃ built d,
      ((Builder.new reading).run
        [.set "on" .bool true, .setMany "level" .float32 [⟨0x7FA00001⟩, ⟨0x80000000⟩],
          .setValues "id" [.uint16 7]]).build = .ok built ∧
      regrouped.parse ⟨none, ⟨true, true⟩⟩ built.bytes = .ok d ∧
      d.fields.flatMap DecodedField.values = readingValues.flatten := by
  obtain ⟨given, built, hvalues, hbuild, haccepts, hkeeps⟩ :=
    Schema.parse_of_other_schema reading regrouped ⟨none, ⟨true, true⟩⟩
      [.set "on" .bool true, .setMany "level" .float32 [⟨0x7FA00001⟩, ⟨0x80000000⟩],
        .setValues "id" [.uint16 7]] rfl (by decide)
  have hgiven : readingValues = given :=
    List.map_injective_iff.mpr (Option.some_injective _) (Eq.trans (by decide) hvalues)
  obtain ⟨d, hd⟩ := haccepts.mpr ⟨by decide, by decide, by decide⟩
  exact ⟨built, d, hbuild, hd, hgiven ▸ hkeeps d hd⟩

end TaggedWire
