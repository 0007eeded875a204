import Mathlib.Data.List.Nodup
import TaggedWire.Proofs.PlainDocument

/-!
Plain documents that are written and read. The text of a document has one statement to a line, and
the statements make its pairs and its tables again. Main statement: the format is faithful, so that
a document has a text unless a number in it is too large, and is read back from it.
-/
namespace TaggedWire.Toml

/-- Statements that add pairs to the table that is open. -/
def pairLines (es : Entries) : List Line :=
  es.map fun e => .pair [] e.1 e.2

def tableLines (tables : List (String × Pairs)) : List Line :=
  tables.flatMap fun t => .header [] t.1 :: pairLines (Pairs.entries t.2)

def tableEntries (tables : List (String × Pairs)) : Entries :=
  tables.map fun t => (t.1, .table .explicit (Pairs.entries t.2))

theorem map_fst_entries (ps : Pairs) : (Pairs.entries ps).map Prod.fst = Pairs.keys ps := by
  rw [Pairs.entries, List.map_map]
  rfl

theorem map_fst_tableEntries (tables : List (String × Pairs)) :
    (tableEntries tables).map Prod.fst = tables.map Prod.fst := by
  rw [tableEntries, List.map_map]
  rfl

namespace Plain

def lines (d : Plain) : List Line :=
  pairLines (Pairs.entries d.root) ++ tableLines d.tables

def entries (d : Plain) : Entries :=
  Pairs.entries d.root ++ tableEntries d.tables

end Plain

section text

theorem spells_of_text? {v : Scalar} {text : String} (h : v.text? = some text) :
    Spells v.item text.toList := by
  cases v with
  | bool b =>
    cases h
    cases b with
    | true => exact .yes
    | false => exact .no
  | number n =>
    simp only [Scalar.text?, Option.ite_none_right_eq_some, Option.some.injEq] at h
    obtain ⟨hmax, rfl⟩ := h
    rw [Nat.toString_eq_ofList_toDigits, String.toList_ofList]
    exact .integer hmax

theorem Written.append {before after : List Line} {above below : List Char}
    (h : Written before above) (h' : Written after below) :
    Written (before ++ after) (above ++ below) := by
  induction h with
  | done => exact h'
  | blank _ ih => exact .blank ih
  | header hkey _ ih => simpa using Written.header hkey ih
  | pair hkey hitem _ ih => simpa using Written.pair hkey hitem ih

theorem Written.spaced {before after : List Line} {above below : String}
    (h : Written before above.toList) (h' : Written after below.toList) :
    Written (before ++ after) (spaced above below).toList := by
  unfold Toml.spaced
  split
  · rw [String.toList_append]
    exact h.append h'
  · rw [String.append_assoc, String.toList_append, String.toList_append]
    exact h.append (.blank h')

theorem written_pairLines {ps : Pairs} {text : String}
    (hkeys : ∀ key ∈ Pairs.keys ps, isBare key = true) (h : Pairs.text? ps = some text) :
    Written (pairLines (Pairs.entries ps)) text.toList := by
  induction ps generalizing text with
  | nil =>
    cases h
    exact .done
  | cons p ps ih =>
    obtain ⟨key, v⟩ := p
    simp only [Pairs.text?, Option.bind_eq_bind, Option.bind_eq_some_iff, pure,
      Option.some.injEq] at h
    obtain ⟨value, hvalue, below, hbelow, rfl⟩ := h
    obtain ⟨hkey, hrest⟩ := List.forall_mem_cons.mp hkeys
    have hpair := Written.pair (isBare_iff.mp hkey) (spells_of_text? hvalue) (ih hrest hbelow)
    simpa [pairLines, Pairs.entries] using hpair

theorem written_tableLines {tables : List (String × Pairs)} {text : String}
    (hkeys : ∀ key ∈ tables.map Prod.fst, isBare key = true)
    (htables : ∀ t ∈ tables, Proper (Pairs.keys t.2)) (h : tablesText? tables = some text) :
    Written (tableLines tables) text.toList := by
  induction tables generalizing text with
  | nil =>
    cases h
    exact .done
  | cons t tables ih =>
    obtain ⟨key, ps⟩ := t
    simp only [tablesText?, Option.bind_eq_bind, Option.bind_eq_some_iff, pure,
      Option.some.injEq] at h
    obtain ⟨pairs, hpairs, below, hbelow, rfl⟩ := h
    obtain ⟨hkey, hrest⟩ := List.forall_mem_cons.mp hkeys
    obtain ⟨htable, hothers⟩ := List.forall_mem_cons.mp htables
    have hheader := Written.header (isBare_iff.mp hkey) (written_pairLines htable.bare hpairs)
    have habove : Written (.header [] key :: pairLines (Pairs.entries ps))
        ("[" ++ key ++ "]\n" ++ pairs).toList := by
      simpa using hheader
    exact habove.spaced (ih hrest hothers hbelow)

theorem Plain.written_of_text? {d : Plain} {text : String} (h : d.text? = some text) :
    Written d.lines text.toList := by
  simp only [text?, Option.bind_eq_bind, Option.bind_eq_some_iff, pure, Option.some.injEq] at h
  obtain ⟨above, habove, below, hbelow, rfl⟩ := h
  obtain ⟨hroot, hkeys⟩ := List.forall_mem_append.mp d.proper.bare
  exact (written_pairLines hroot habove).spaced (written_tableLines hkeys d.tables_proper hbelow)

end text

section tables

variable {es : Entries} {key : String}

theorem get?_eq_none (h : key ∉ es.map Prod.fst) : es.get? key = none := by
  rw [Entries.get?, Option.map_eq_none_iff, List.find?_eq_none]
  intro e he heq
  exact h (List.mem_map.mpr ⟨e, he, beq_iff_eq.mp heq⟩)

theorem without_eq_self (h : key ∉ es.map Prod.fst) : es.without key = es := by
  rw [Entries.without, List.filter_eq_self]
  intro e he
  rw [bne_iff_ne]
  rintro rfl
  exact h (List.mem_map_of_mem he)

theorem addPair_of_new (h : es.get? key = none) (a : Item) :
    es.addPair [] key a = some (es ++ [(key, a)]) := by
  rw [Entries.addPair, Entries.descend, h]
  rfl

theorem foldlM_pairLines (s : State) (es : Entries)
    (h : ((s.current ++ es).map Prod.fst).Nodup) :
    (pairLines es).foldlM State.step s = some { s with current := s.current ++ es } := by
  induction es generalizing s with
  | nil =>
    rw [List.append_nil]
    rfl
  | cons e es ih =>
    have hnew : s.current.get? e.1 = none := by
      rw [List.map_append, List.map_cons, List.nodup_middle, List.nodup_cons] at h
      exact get?_eq_none fun hmem => h.1 (List.mem_append_left _ hmem)
    have hstep : s.step (.pair [] e.1 e.2) = some { s with current := s.current ++ [e] } := by
      rw [State.step, addPair_of_new hnew]
      rfl
    have hrest := ih { s with current := s.current ++ [e] } (by simpa using h)
    rw [List.append_assoc, List.singleton_append] at hrest
    rw [pairLines, List.map_cons, List.foldlM_cons, hstep]
    exact hrest

theorem openTable_of_new (h : key ∉ es.map Prod.fst) :
    State.openTable es [] key = some ⟨es, .table [] key, []⟩ := by
  rw [State.openTable, Entries.at?, Entries.descend, without_eq_self h]
  simp only [Option.bind_eq_bind, Option.bind_some, get?_eq_none h]
  rfl

theorem close_of_new (h : key ∉ es.map Prod.fst) (sub : Entries) :
    State.close ⟨es, .table [] key, sub⟩ = some (es ++ [(key, .table .explicit sub)]) := by
  simp [State.close, Entries.descend, get?_eq_none h]

/-- Each table is closed before the next one is opened, and goes behind those that are there. -/
theorem close_tableLines {tables : List (String × Pairs)} {s : State}
    (hkeys : (es.map Prod.fst ++ tables.map Prod.fst).Nodup)
    (htables : ∀ t ∈ tables, Proper (Pairs.keys t.2)) (hs : s.close = some es) :
    (tableLines tables).foldlM State.step s >>= State.close = some (es ++ tableEntries tables) := by
  induction tables generalizing es s with
  | nil =>
    rw [tableEntries, List.map_nil, List.append_nil]
    exact hs
  | cons t tables ih =>
    obtain ⟨key, ps⟩ := t
    obtain ⟨htable, hothers⟩ := List.forall_mem_cons.mp htables
    have hnew : key ∉ es.map Prod.fst := by
      rw [List.map_cons, List.nodup_middle, List.nodup_cons] at hkeys
      exact fun hmem => hkeys.1 (List.mem_append_left _ hmem)
    have hopen : s.step (.header [] key) = some ⟨es, .table [] key, []⟩ := by
      rw [State.step, hs]
      exact openTable_of_new hnew
    have hpairs := foldlM_pairLines ⟨es, .table [] key, []⟩ (Pairs.entries ps) (by
      rw [List.nil_append, map_fst_entries]
      exact htable.nodup)
    have hrest := ih (by simpa using hkeys) hothers (close_of_new hnew (Pairs.entries ps))
    rw [List.append_assoc, List.singleton_append] at hrest
    simp only [tableLines, List.flatMap_cons, List.cons_append, List.foldlM_cons, hopen,
      List.foldlM_append, hpairs, Option.bind_eq_bind, Option.bind_some]
    exact hrest

theorem Plain.assemble_lines (d : Plain) : assemble d.lines = some d.entries := by
  have hkeys := d.proper.nodup
  have hroot := foldlM_pairLines ⟨[], .root, []⟩ (Pairs.entries d.root) (by
    rw [List.nil_append, map_fst_entries]
    exact hkeys.of_append_left)
  have hclose : State.close ⟨[], .root, Pairs.entries d.root⟩ = some (Pairs.entries d.root) := rfl
  have htables := close_tableLines (by rwa [map_fst_entries]) d.tables_proper hclose
  rw [assemble, lines, List.foldlM_append, hroot]
  exact htables

end tables

section lookup

theorem get?_append (es es' : Entries) (key : String) :
    Entries.get? (es ++ es') key = (es.get? key).or (es'.get? key) := by
  unfold Entries.get?
  rw [List.find?_append]
  cases List.find? (fun e => e.1 == key) es <;> rfl

theorem get?_of_mem {es : Entries} {key : String} {a : Item} (h : (es.map Prod.fst).Nodup)
    (hmem : (key, a) ∈ es) : es.get? key = some a := by
  unfold Entries.get?
  cases hfind : List.find? (fun e => e.1 == key) es with
  | none => exact absurd (beq_self_eq_true key) (List.find?_eq_none.mp hfind _ hmem)
  | some e =>
    have hbeq := List.find?_some hfind
    have hkey : e.1 = key := beq_iff_eq.mp hbeq
    rw [List.inj_on_of_nodup_map h (List.mem_of_find?_eq_some hfind) hmem hkey]
    rfl

theorem fill_entries (ps : Pairs) : Pairs.Fill ps (Pairs.entries ps) := by
  intro key
  induction ps with
  | nil => rfl
  | cons p ps ih =>
    obtain ⟨name, v⟩ := p
    unfold Entries.get? Pairs.entries at ih ⊢
    rw [List.map_cons, List.find?_cons, List.lookup_cons]
    by_cases hname : name = key
    · simp [hname]
    · have hkey : (key == name) = false := beq_eq_false_iff_ne.mpr (Ne.symm hname)
      have hfront : (name == key) = false := beq_eq_false_iff_ne.mpr hname
      simp only [hkey, hfront]
      exact ih

theorem Plain.fills_entries (d : Plain) : d.Fills d.entries := by
  have hkeys := d.proper.nodup
  refine ⟨?_, ?_⟩
  · intro key hkey
    have hnone : (tableEntries d.tables).get? key = none :=
      get?_eq_none (by rwa [map_fst_tableEntries])
    rw [entries, get?_append, hnone, Option.or_none]
    exact fill_entries d.root key
  · intro t ht
    have hmem : (t.1, .table .explicit (Pairs.entries t.2)) ∈ d.entries :=
      List.mem_append_right _ (List.mem_map_of_mem ht)
    refine ⟨.explicit, Pairs.entries t.2, get?_of_mem ?_ hmem, fill_entries t.2⟩
    rwa [entries, List.map_append, map_fst_entries, map_fst_tableEntries]

end lookup

section range

theorem exists_text?_scalar {v : Scalar} :
    (∃ text, v.text? = some text) ↔ ∀ n, v = .number n → n ≤ maxInteger := by
  cases v with
  | bool b => simp [Scalar.text?]
  | number n => simp [Scalar.text?]

theorem exists_text?_pairs {ps : Pairs} :
    (∃ text, Pairs.text? ps = some text) ↔
      ∀ v ∈ ps.map Prod.snd, ∃ text, v.text? = some text := by
  induction ps with
  | nil => exact iff_of_true ⟨_, rfl⟩ (List.forall_mem_nil _)
  | cons p ps ih =>
    obtain ⟨key, v⟩ := p
    rw [List.map_cons, List.forall_mem_cons, ← ih]
    simp [Pairs.text?, Option.bind_eq_some_iff]

theorem exists_tablesText? {tables : List (String × Pairs)} :
    (∃ text, tablesText? tables = some text) ↔
      ∀ v ∈ tables.flatMap fun t => t.2.map Prod.snd, ∃ text, v.text? = some text := by
  induction tables with
  | nil => exact iff_of_true ⟨_, rfl⟩ (List.forall_mem_nil _)
  | cons t tables ih =>
    rw [List.flatMap_cons, List.forall_mem_append, ← ih, ← exists_text?_pairs]
    simp [tablesText?, Option.bind_eq_some_iff]

theorem Plain.exists_text?_iff {d : Plain} :
    (∃ text, d.text? = some text) ↔ ∀ n, .number n ∈ d.scalars → n ≤ maxInteger := by
  have hscalars : (∀ v ∈ d.scalars, ∃ text, v.text? = some text) ↔
      ∀ n, .number n ∈ d.scalars → n ≤ maxInteger := by
    simp only [exists_text?_scalar]
    constructor
    · intro h n hn
      exact h _ hn n rfl
    · rintro h _ hv n rfl
      exact h n hv
  rw [← hscalars, scalars, List.forall_mem_append, ← exists_text?_pairs, ← exists_tablesText?]
  simp [text?, Option.bind_eq_some_iff]

end range

theorem faithful_format : format.Faithful := by
  refine ⟨fun d => Plain.exists_text?_iff, ?_⟩
  intro d text h
  refine ⟨d.entries, ?_, d.fills_entries⟩
  exact (parse?_of_written (Plain.written_of_text? h)).trans d.assemble_lines

end TaggedWire.Toml
