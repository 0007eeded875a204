import Mathlib.Data.List.DropRight
import Mathlib.Data.List.TakeDrop
import TaggedWire.Proofs.Precedence
import TaggedWire.Schema.Field

/-!
The texts of field types. A type text is the name of a kind, alone or with a number of elements in
brackets, and may have white space around it. Main statement: these are the texts that are read,
every other text is refused for the first of five causes, and a field is read back from its own
text.
-/
namespace TaggedWire

/-- The text `t` is all of `s` but the white space at its two ends. -/
structure Stripped (s t : List Char) : Prop where
  around : ∃ front back, s = front ++ t ++ back ∧ ∀ c ∈ front ++ back, isBlank c = true
  first : ∀ c ∈ t.head?, isBlank c = false
  last : ∀ c ∈ t.getLast?, isBlank c = false

theorem trimBlank_eq (s : List Char) :
    trimBlank s = (s.dropWhile isBlank).rdropWhile isBlank := rfl

theorem stripped_trimBlank (s : List Char) : Stripped s (trimBlank s) := by
  have hback : trimBlank s ++ (s.dropWhile isBlank).rtakeWhile isBlank = s.dropWhile isBlank :=
    List.rdropWhile_append_rtakeWhile
  refine ⟨⟨s.takeWhile isBlank, (s.dropWhile isBlank).rtakeWhile isBlank, ?_, ?_⟩, ?_, ?_⟩
  · rw [List.append_assoc, hback, List.takeWhile_append_dropWhile]
  · intro c hc
    rcases List.mem_append.mp hc with hc | hc
    · exact List.mem_takeWhile_imp hc
    · exact List.mem_rtakeWhile_imp hc
  · intro c hc
    -- what is cut off at the end leaves the first character as it was
    have hhead : (s.dropWhile isBlank).head? = some c := by
      rw [← hback, List.head?_append, Option.mem_def.mp hc, Option.some_or]
    have hnot := List.head?_dropWhile_not isBlank s
    rwa [hhead] at hnot
  · intro c hc
    have hne : trimBlank s ≠ [] := by
      rintro hnil
      rw [hnil] at hc
      cases hc
    have hlast := List.rdropWhile_last_not isBlank (s.dropWhile isBlank) hne
    rw [Option.mem_def, List.getLast?_eq_some_getLast hne, Option.some.injEq] at hc
    rw [← hc]
    exact Bool.eq_false_iff.mpr hlast

theorem trimBlank_of_ends {t : List Char} (hfirst : ∀ c ∈ t.head?, isBlank c = false)
    (hlast : ∀ c ∈ t.getLast?, isBlank c = false) : trimBlank t = t := by
  have hdrop : t.dropWhile isBlank = t := by
    cases t with
    | nil => rfl
    | cons c t => rw [List.dropWhile_cons_of_neg (Bool.eq_false_iff.mp (hfirst c rfl))]
  rw [trimBlank_eq, hdrop, List.rdropWhile_eq_self_iff]
  intro hne
  exact Bool.eq_false_iff.mp (hlast _ (List.getLast?_eq_some_getLast hne))

/-- An ASCII letter, and then ASCII letters, digits and underscores. -/
def IsName (name : String) : Prop :=
  ∃ c cs, name.toList = c :: cs ∧ ('A' ≤ c ∧ c ≤ 'Z' ∨ 'a' ≤ c ∧ c ≤ 'z') ∧
    ∀ d ∈ cs, ('A' ≤ d ∧ d ≤ 'Z' ∨ 'a' ≤ d ∧ d ≤ 'z') ∨ ('0' ≤ d ∧ d ≤ '9') ∨ d = '_'

theorem isAlpha_iff {c : Char} :
    c.isAlpha = true ↔ 'A' ≤ c ∧ c ≤ 'Z' ∨ 'a' ≤ c ∧ c ≤ 'z' := by
  change (decide ('A' ≤ c ∧ c ≤ 'Z') || (decide ('a' ≤ c) && decide (c ≤ 'z'))) = true ↔ _
  simp only [Bool.or_eq_true, Bool.and_eq_true, decide_eq_true_eq]

theorem isDigit_iff {c : Char} : c.isDigit = true ↔ '0' ≤ c ∧ c ≤ '9' := by
  change (decide ('0' ≤ c) && decide (c ≤ '9')) = true ↔ _
  simp only [Bool.and_eq_true, decide_eq_true_eq]

theorem isFieldName_iff {name : String} : isFieldName name = true ↔ IsName name := by
  unfold isFieldName IsName
  cases name.toList with
  | nil => simp
  | cons c cs =>
    simp only [Bool.and_eq_true, List.all_eq_true, Bool.or_eq_true, beq_iff_eq, Char.isAlphanum,
      isAlpha_iff, isDigit_iff, or_assoc]
    constructor
    · rintro ⟨hc, hcs⟩
      exact ⟨c, cs, rfl, hc, hcs⟩
    · rintro ⟨_, _, hname, hc, hcs⟩
      cases hname
      exact ⟨hc, hcs⟩

namespace TypeText

/-- The number that a text of digits stands for. -/
def value (digits : List Char) : Nat :=
  Nat.ofDigitChars 10 digits 0

/-- A number of elements in digits. It is not above the limit, but it can be zero. -/
structure IsCount (digits : List Char) : Prop where
  nonempty : digits ≠ []
  digit : ∀ c ∈ digits, '0' ≤ c ∧ c ≤ '9'
  le_max : value digits ≤ maxElements

/-- The text has brackets: the first opening one stands behind `kind`, and the closing one is the
last character. -/
structure Bracketed (t kind digits : List Char) : Prop where
  split : t = kind ++ '[' :: (digits ++ [']'])
  first : '[' ∉ kind

/-- What has to be the name of a kind: the text before the brackets, or all of it. -/
inductive KindPart (t : List Char) : List Char → Prop
  | whole : t.getLast? ≠ some ']' → KindPart t t
  | before {kind digits : List Char} : Bracketed t kind digits → KindPart t kind

/-- A type text with the kind and the number of elements that it stands for. -/
inductive Denotes : List Char → Kind → Nat → Prop
  | single (k : Kind) : Denotes k.name.toList k 1
  | counted (k : Kind) {digits : List Char} : IsCount digits → 1 ≤ value digits →
      Denotes (k.name.toList ++ '[' :: (digits ++ [']'])) k (value digits)

/-- The ways in which a text can have its brackets. -/
inductive Shape (t : List Char) : Prop
  | plain : t.getLast? ≠ some ']' → Shape t
  | unopened {body : List Char} : t = body ++ [']'] → '[' ∉ body → Shape t
  | bracketed {kind digits : List Char} : Bracketed t kind digits → Shape t

theorem shape (t : List Char) : Shape t := by
  by_cases hlast : t.getLast? = some ']'
  · obtain ⟨body, rfl⟩ := List.getLast?_eq_some_iff.mp hlast
    by_cases hopen : '[' ∈ body
    · obtain ⟨kind, digits, rfl, hfirst⟩ := List.eq_append_cons_of_mem hopen
      have hsplit : Bracketed (kind ++ '[' :: digits ++ [']']) kind digits :=
        ⟨by rw [List.append_assoc, List.cons_append], hfirst⟩
      exact .bracketed hsplit
    · exact .unopened rfl hopen
  · exact .plain hlast

theorem span_of_first {kind : List Char} (h : '[' ∉ kind) (digits : List Char) :
    (kind ++ '[' :: digits).span (· != '[') = (kind, '[' :: digits) := by
  have hkind : ∀ c ∈ kind, (c != '[') = true := by
    intro c hc
    exact bne_iff_ne.mpr fun heq => h (heq ▸ hc)
  rw [List.span_eq_takeWhile_dropWhile, List.takeWhile_append_of_pos hkind,
    List.dropWhile_append_of_pos hkind]
  simp

theorem span_of_none {body : List Char} (h : '[' ∉ body) :
    body.span (· != '[') = (body, []) := by
  have hbody : ∀ c ∈ body, (c != '[') = true := by
    intro c hc
    exact bne_iff_ne.mpr fun heq => h (heq ▸ hc)
  rw [List.span_eq_takeWhile_dropWhile, List.takeWhile_eq_self_iff.mpr hbody,
    List.dropWhile_eq_nil_iff.mpr hbody]

namespace Bracketed

variable {t kind digits : List Char}

theorem eq_concat (h : Bracketed t kind digits) : t = (kind ++ '[' :: digits) ++ [']'] := by
  rw [h.split, List.append_assoc, List.cons_append]

theorem getLast? (h : Bracketed t kind digits) : t.getLast? = some ']' := by
  rw [h.eq_concat, List.getLast?_concat]

theorem unique {kind' digits' : List Char} (h : Bracketed t kind digits)
    (h' : Bracketed t kind' digits') : kind = kind' ∧ digits = digits' := by
  have heq := List.append_cancel_right (h.eq_concat.symm.trans h'.eq_concat)
  have hspan := span_of_first h.first digits
  rw [heq, span_of_first h'.first] at hspan
  cases hspan
  exact ⟨rfl, rfl⟩

theorem not_unopened (h : Bracketed t kind digits) {body : List Char} (hbody : t = body ++ [']']) :
    '[' ∈ body := by
  rw [← List.append_cancel_right (h.eq_concat.symm.trans hbody)]
  simp

end Bracketed

theorem KindPart.unique {t kind kind' : List Char} (h : KindPart t kind) (h' : KindPart t kind') :
    kind = kind' := by
  cases h with
  | whole hlast =>
    cases h' with
    | whole => rfl
    | before hb => exact absurd hb.getLast? hlast
  | before hb =>
    cases h' with
    | whole hlast => exact absurd hb.getLast? hlast
    | before hb' => exact (hb.unique hb').1

theorem decimalValue?_eq_some_iff {digits : List Char} {n : Nat} :
    Field.decimalValue? digits = some n ↔
      digits ≠ [] ∧ (∀ c ∈ digits, '0' ≤ c ∧ c ≤ '9') ∧ n = value digits := by
  have hvalue : digits.foldl (fun n c => n * 10 + (c.toNat - '0'.toNat)) 0 = value digits := by
    rw [value, Nat.ofDigitChars_eq_foldl]
    simp only [Nat.mul_comm]
  simp only [Field.decimalValue?, hvalue, ← isDigit_iff]
  split
  · rename_i hrefused
    refine iff_of_false (by simp) ?_
    rintro ⟨hne, hdigits, -⟩
    simp [hne, List.all_eq_true.mpr hdigits] at hrefused
  · rename_i hread
    simp only [Bool.or_eq_true, not_or, List.isEmpty_iff, Bool.not_eq_true', Bool.not_eq_false,
      List.all_eq_true] at hread
    rw [Option.some.injEq, eq_comm]
    exact ⟨fun hn => ⟨hread.1, hread.2, hn⟩, fun h => h.2.2⟩

end TypeText

namespace Field

open TypeText

variable {field : String} {t kind digits : List Char}

theorem splitType_of_plain (h : t.getLast? ≠ some ']') :
    splitType field t = .ok (String.ofList t, 1) := by
  rw [splitType, if_neg h]

theorem splitType_of_unopened {body : List Char} (h : t = body ++ [']']) (hopen : '[' ∉ body) :
    splitType field t = .error (.unsupportedType field (String.ofList t)) := by
  rw [splitType, if_pos (h ▸ List.getLast?_concat)]
  rw [h, List.dropLast_concat, span_of_none hopen]

theorem splitType_of_value {n : Nat} (h : Bracketed t kind digits)
    (hvalue : decimalValue? digits = some n) :
    splitType field t =
      if n ≤ maxElements then .ok (String.ofList kind, n)
      else .error (.invalidRepeatCount field (String.ofList digits)) := by
  rw [splitType, if_pos h.getLast?, h.eq_concat, List.dropLast_concat, span_of_first h.first]
  dsimp only
  rw [hvalue]

theorem splitType_of_no_value (h : Bracketed t kind digits) (hnone : decimalValue? digits = none) :
    splitType field t = .error (.invalidRepeatCount field (String.ofList digits)) := by
  rw [splitType, if_pos h.getLast?, h.eq_concat, List.dropLast_concat, span_of_first h.first]
  dsimp only
  rw [hnone]

theorem splitType_of_count (h : Bracketed t kind digits) (hcount : IsCount digits) :
    splitType field t = .ok (String.ofList kind, value digits) := by
  have hvalue := decimalValue?_eq_some_iff.mpr ⟨hcount.nonempty, hcount.digit, rfl⟩
  rw [splitType_of_value h hvalue, if_pos hcount.le_max]

theorem splitType_of_not_count (h : Bracketed t kind digits) (hcount : ¬ IsCount digits) :
    splitType field t = .error (.invalidRepeatCount field (String.ofList digits)) := by
  cases hvalue : decimalValue? digits with
  | none => exact splitType_of_no_value h hvalue
  | some n =>
    rw [splitType_of_value h hvalue]
    obtain ⟨hne, hdigits, rfl⟩ := decimalValue?_eq_some_iff.mp hvalue
    exact if_neg fun hle => hcount ⟨hne, hdigits, hle⟩

theorem splitType_of_denotes {k : Kind} {n : Nat} (h : Denotes t k n) :
    splitType field t = .ok (k.name, n) := by
  cases h with
  | single =>
    have hlast : k.name.toList.getLast? ≠ some ']' := by cases k <;> decide
    rw [splitType_of_plain hlast, String.ofList_toList]
  | counted _ hcount hpos =>
    have hfirst : '[' ∉ k.name.toList := by cases k <;> decide
    rw [splitType_of_count ⟨rfl, hfirst⟩ hcount, String.ofList_toList]

theorem denotes_of_splitType {k : Kind} {n : Nat} (h : splitType field t = .ok (k.name, n))
    (hpos : 0 < n) : Denotes t k n := by
  cases shape t with
  | plain hlast =>
    rw [splitType_of_plain hlast, Except.ok.injEq, Prod.mk.injEq] at h
    obtain ⟨hkind, rfl⟩ := h
    rw [← String.toList_ofList (l := t), hkind]
    exact .single k
  | unopened ht hopen =>
    rw [splitType_of_unopened ht hopen] at h
    cases h
  | @bracketed kind digits hb =>
    by_cases hcount : IsCount digits
    · rw [splitType_of_count hb hcount, Except.ok.injEq, Prod.mk.injEq] at h
      obtain ⟨hkind, rfl⟩ := h
      rw [hb.split, ← String.toList_ofList (l := kind), hkind]
      exact .counted k hcount hpos
    · rw [splitType_of_not_count hb hcount] at h
      cases h

theorem repeated_eq_ok_iff {name : String} {k : Kind} {n : Nat} {f : Field} :
    repeated name k n = .ok f ↔ f.name = name ∧ f.kind = k ∧ f.count = n := by
  constructor
  · intro h
    unfold repeated at h
    split at h
    · split at h
      · cases h
        exact ⟨rfl, rfl, rfl⟩
      · cases h
    · cases h
  · rintro ⟨rfl, rfl, rfl⟩
    rw [repeated, dif_pos f.name_ok, dif_pos ⟨f.count_le, f.count_pos⟩]

theorem parse_of_kind {name s kindName : String} {n : Nat} {k : Kind}
    (ht : trimBlank s.toList = t) (h : splitType name t = .ok (kindName, n))
    (hk : Kind.ofName? kindName = some k) : parse name s = repeated name k n := by
  unfold parse
  rw [ht, h]
  dsimp only [bind, Except.bind]
  rw [hk]

theorem parse_of_unknown {name s kindName : String} {n : Nat} (ht : trimBlank s.toList = t)
    (h : splitType name t = .ok (kindName, n)) (hk : Kind.ofName? kindName = none) :
    parse name s = .error (.unsupportedType name kindName) := by
  unfold parse
  rw [ht, h]
  dsimp only [bind, Except.bind]
  rw [hk]
  rfl

theorem parse_of_split_error {name s : String} {e : SchemaError} (ht : trimBlank s.toList = t)
    (h : splitType name t = .error e) : parse name s = .error e := by
  unfold parse
  rw [ht, h]
  rfl

theorem parse_eq_ok_iff {name s : String} {f : Field} :
    parse name s = .ok f ↔ f.name = name ∧ Denotes (trimBlank s.toList) f.kind f.count := by
  constructor
  · intro h
    cases hsplit : splitType name (trimBlank s.toList) with
    | error e =>
      rw [parse_of_split_error rfl hsplit] at h
      cases h
    | ok p =>
      cases hk : Kind.ofName? p.1 with
      | none =>
        rw [parse_of_unknown rfl hsplit hk] at h
        cases h
      | some k =>
        rw [parse_of_kind rfl hsplit hk] at h
        obtain ⟨hname, rfl, hcount⟩ := repeated_eq_ok_iff.mp h
        have hkind : p = (f.kind.name, f.count) :=
          Prod.ext (Kind.ofName?_eq_some_iff.mp hk) hcount.symm
        exact ⟨hname, denotes_of_splitType (hkind ▸ hsplit) f.count_pos⟩
  · rintro ⟨hname, h⟩
    rw [parse_of_kind rfl (splitType_of_denotes h) (Kind.ofName?_name _)]
    exact repeated_eq_ok_iff.mpr ⟨hname, rfl, rfl⟩

end Field

namespace TypeText

theorem Denotes.trimBlank_eq {t : List Char} {k : Kind} {n : Nat} (h : Denotes t k n) :
    trimBlank t = t := by
  cases h with
  | single => cases k <;> decide
  | @counted _ digits hcount hpos =>
    obtain ⟨c, hc, hblank⟩ : ∃ c, k.name.toList.head? = some c ∧ isBlank c = false := by
      cases k <;> exact ⟨_, rfl, by decide⟩
    apply trimBlank_of_ends
    · intro d hd
      rw [List.head?_append, hc, Option.some_or] at hd
      cases hd
      exact hblank
    · intro d hd
      rw [Bracketed.getLast? ⟨rfl, by cases k <;> decide⟩] at hd
      cases hd
      decide

theorem Denotes.bounds {t : List Char} {k : Kind} {n : Nat} (h : Denotes t k n) :
    0 < n ∧ n ≤ maxElements := by
  cases h with
  | single => decide
  | counted _ hcount hpos => exact ⟨hpos, hcount.le_max⟩

/-- A number of elements written in decimal is read as that number. -/
theorem isCount_toDigits {n : Nat} (h : n ≤ maxElements) :
    IsCount (Nat.toDigits 10 n) ∧ value (Nat.toDigits 10 n) = n := by
  have hvalue : value (Nat.toDigits 10 n) = n := Nat.ofDigitChars_ten_toDigits
  refine ⟨⟨Nat.toDigits_ne_nil, ?_, hvalue.trans_le h⟩, hvalue⟩
  intro c hc
  exact isDigit_iff.mp (Nat.isDigit_of_mem_toDigits (by decide) (by decide) hc)

theorem denotes_typeText (f : Field) : Denotes f.typeText.toList f.kind f.count := by
  unfold Field.typeText
  split
  · obtain ⟨hcount, hvalue⟩ := isCount_toDigits f.count_le
    have h := Denotes.counted f.kind hcount (Nat.lt_of_lt_of_eq f.count_pos hvalue.symm)
    rw [hvalue] at h
    simpa [Nat.toString_eq_ofList_toDigits] using h
  · rename_i hsingle
    have hone : f.count = 1 := by
      have hpos := f.count_pos
      simp only [Field.isRepeated, decide_eq_true_eq] at hsingle
      omega
    rw [hone]
    exact .single f.kind

/- The causes for which a name and a type text `t` are refused. None of them looks at the others. -/

def Unopened (name : String) (t : List Char) (e : SchemaError) : Prop :=
  ∃ body, t = body ++ [']'] ∧ '[' ∉ body ∧ e = .unsupportedType name (String.ofList t)

def BadCount (name : String) (t : List Char) (e : SchemaError) : Prop :=
  ∃ kind digits, Bracketed t kind digits ∧ ¬ IsCount digits ∧
    e = .invalidRepeatCount name (String.ofList digits)

def UnknownKind (name : String) (t : List Char) (e : SchemaError) : Prop :=
  ∃ kind, KindPart t kind ∧ (∀ k : Kind, kind ≠ k.name.toList) ∧
    e = .unsupportedType name (String.ofList kind)

def BadName (name : String) (e : SchemaError) : Prop :=
  ¬ IsName name ∧ e = .invalidFieldName name

def ZeroCount (name : String) (t : List Char) (e : SchemaError) : Prop :=
  ∃ kind digits, Bracketed t kind digits ∧ IsCount digits ∧ value digits = 0 ∧
    e = .invalidRepeatCount name "0"

theorem reports_repeated {name : String} {k : Kind} {n : Nat} {zero : SchemaError → Prop}
    (hle : n ≤ maxElements) (hzero : ∀ e, zero e ↔ n = 0 ∧ e = .invalidRepeatCount name "0") :
    Reports (Field.repeated name k n) [BadName name, zero] := by
  unfold Field.repeated
  by_cases hname : isFieldName name = true
  · have hgood : IsName name := isFieldName_iff.mp hname
    rw [dif_pos hname]
    refine .skip (fun e hbad => hbad.1 hgood) ?_
    rcases Nat.eq_zero_or_pos n with rfl | hpos
    · rw [dif_neg (fun h => Nat.lt_irrefl 0 h.2)]
      exact .here fun e => (hzero e).trans (and_iff_right rfl)
    · rw [dif_pos ⟨hle, hpos⟩]
      exact .skip (fun e hbad => Nat.ne_of_gt hpos ((hzero e).mp hbad).1) (.ok _)
  · have hbad : ¬ IsName name := fun h => hname (isFieldName_iff.mpr h)
    rw [dif_neg hname]
    exact .here fun e => and_iff_right hbad

/-- The kind is judged before the name and the number of elements. -/
theorem reports_kind {name s : String} {t kind : List Char} {n : Nat}
    (ht : trimBlank s.toList = t) (hsplit : Field.splitType name t = .ok (String.ofList kind, n))
    (hpart : KindPart t kind) (hle : n ≤ maxElements)
    (hzero : ∀ e, ZeroCount name t e ↔ n = 0 ∧ e = .invalidRepeatCount name "0") :
    Reports (Field.parse name s) [UnknownKind name t, BadName name, ZeroCount name t] := by
  cases hk : Kind.ofName? (String.ofList kind) with
  | none =>
    rw [Field.parse_of_unknown ht hsplit hk]
    refine .here fun e => ?_
    constructor
    · rintro ⟨kind', hpart', -, rfl⟩
      rw [hpart.unique hpart']
    · rintro rfl
      refine ⟨kind, hpart, ?_, rfl⟩
      rintro k rfl
      rw [String.ofList_toList, Kind.ofName?_name] at hk
      cases hk
  | some k =>
    rw [Field.parse_of_kind ht hsplit hk]
    refine .skip ?_ (reports_repeated hle hzero)
    rintro e ⟨kind', hpart', hunknown, -⟩
    apply hunknown k
    rw [← hpart.unique hpart', ← Kind.ofName?_eq_some_iff.mp hk, String.toList_ofList]

theorem reports_parse (name s : String) :
    Reports (Field.parse name s)
      [Unopened name (trimBlank s.toList), BadCount name (trimBlank s.toList),
        UnknownKind name (trimBlank s.toList), BadName name,
        ZeroCount name (trimBlank s.toList)] := by
  generalize ht : trimBlank s.toList = t
  cases shape t with
  | plain hlast =>
    have hnot : ∀ kind digits, ¬ Bracketed t kind digits := fun _ _ hb => hlast hb.getLast?
    refine .skip ?_ (.skip ?_
      (reports_kind ht (Field.splitType_of_plain hlast) (.whole hlast) (by decide) ?_))
    · rintro e ⟨body, rfl, -⟩
      exact hlast List.getLast?_concat
    · rintro e ⟨kind, digits, hb, -⟩
      exact hnot _ _ hb
    · intro e
      refine iff_of_false ?_ (fun h => Nat.one_ne_zero h.1)
      rintro ⟨kind, digits, hb, -⟩
      exact hnot _ _ hb
  | unopened hbody hopen =>
    rw [Field.parse_of_split_error ht (Field.splitType_of_unopened hbody hopen)]
    refine .here fun e => ?_
    constructor
    · rintro ⟨body, -, -, he⟩
      exact he
    · rintro rfl
      exact ⟨_, hbody, hopen, rfl⟩
  | @bracketed kind digits hb =>
    refine .skip ?_ ?_
    · rintro e ⟨body, hbody, hopen, -⟩
      exact hopen (hb.not_unopened hbody)
    by_cases hcount : IsCount digits
    · refine .skip ?_
        (reports_kind ht (Field.splitType_of_count hb hcount) (.before hb) hcount.le_max ?_)
      · rintro e ⟨kind', digits', hb', hbad, -⟩
        exact hbad ((hb.unique hb').2 ▸ hcount)
      · intro e
        constructor
        · rintro ⟨kind', digits', hb', -, hvalue, he⟩
          exact ⟨(hb.unique hb').2 ▸ hvalue, he⟩
        · rintro ⟨hvalue, he⟩
          exact ⟨kind, digits, hb, hcount, hvalue, he⟩
    · rw [Field.parse_of_split_error ht (Field.splitType_of_not_count hb hcount)]
      refine .here fun e => ?_
      constructor
      · rintro ⟨kind', digits', hb', -, rfl⟩
        rw [(hb.unique hb').2]
      · rintro rfl
        exact ⟨kind, digits, hb, hcount, rfl⟩

end TypeText

namespace Field

open TypeText

theorem parse_typeText (f : Field) : parse f.name f.typeText = .ok f := by
  have hdenotes := denotes_typeText f
  rw [parse_eq_ok_iff, hdenotes.trimBlank_eq]
  exact ⟨rfl, hdenotes⟩

/-- A name and the text of a type, with white space around it or not, make a field exactly if the
name is one and the text denotes a kind and a number of elements. Otherwise the first cause in the
order of the list is reported. The text of a field's own type denotes that field. -/
theorem parse_denotes_or_reports (name s : String) :
    let t := trimBlank s.toList
    Stripped s.toList t ∧
    ((∃ f, parse name s = .ok f) ↔ IsName name ∧ ∃ k n, Denotes t k n) ∧
    (∀ f, parse name s = .ok f ↔ f.name = name ∧ Denotes t f.kind f.count) ∧
    (∀ e, parse name s = .error e ↔
      FirstOf [Unopened name t, BadCount name t, UnknownKind name t, BadName name,
        ZeroCount name t] e) ∧
    ∀ f : Field, parse f.name f.typeText = .ok f := by
  intro t
  refine ⟨stripped_trimBlank _, ?_, fun f => parse_eq_ok_iff, reports_parse name s, parse_typeText⟩
  constructor
  · rintro ⟨f, hf⟩
    obtain ⟨rfl, hdenotes⟩ := parse_eq_ok_iff.mp hf
    exact ⟨isFieldName_iff.mp f.name_ok, _, _, hdenotes⟩
  · rintro ⟨hname, k, n, hdenotes⟩
    have hn := hdenotes.bounds
    exact ⟨⟨name, k, n, isFieldName_iff.mpr hname, hn.1, hn.2⟩,
      parse_eq_ok_iff.mpr ⟨rfl, hdenotes⟩⟩

end Field

end TaggedWire
