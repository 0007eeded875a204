import TaggedWire.Proofs.TypeText
import TaggedWire.Toml.Plain

/-!
Plain TOML documents: bare keys, truth values, decimal numbers without a sign, and one statement to
a line. Main statement: the statements of a plain document are read as they were written.
-/
namespace TaggedWire.Toml

/-- Two characters differ if one of them is of a class and the other is not. -/
theorem ne_of_class {p : Char → Bool} {c d : Char} (hc : p c = true) (hd : p d = false) : c ≠ d := by
  rintro rfl
  rw [hc] at hd
  cases hd

theorem isBlankChar_of_class {p : Char → Bool} {c : Char} (hc : p c = true) (hspace : p ' ' = false)
    (htab : p '\t' = false) : isBlankChar c = false := by
  simp [isBlankChar, ne_of_class hc hspace, ne_of_class hc htab]

theorem skipBlanks_cons {c : Char} (h : isBlankChar c = false) (cs : List Char) :
    skipBlanks (c :: cs) = c :: cs := by
  rw [skipBlanks, List.dropWhile_cons_of_neg (Bool.eq_false_iff.mp h)]

section key

/-- A key that is written without quotes. -/
structure IsBare (key : String) : Prop where
  nonempty : key.toList ≠ []
  bare : ∀ c ∈ key.toList, isBareKeyChar c = true

variable {key : String} {stop next : Char} {rest left : List Char}

theorem isBare_iff : isBare key = true ↔ IsBare key := by
  rw [isBare, Bool.and_eq_true, Bool.not_eq_true', List.isEmpty_eq_false_iff, List.all_eq_true]
  exact ⟨fun h => ⟨h.1, h.2⟩, fun h => ⟨h.nonempty, h.bare⟩⟩

theorem IsBare.exists_cons (h : IsBare key) :
    ∃ c cs, key.toList = c :: cs ∧ isBareKeyChar c = true := by
  obtain ⟨c, cs, hkey⟩ := List.exists_cons_of_ne_nil h.nonempty
  exact ⟨c, cs, hkey, h.bare c (hkey ▸ List.mem_cons_self)⟩

theorem isBlankChar_of_bare {c : Char} (h : isBareKeyChar c = true) : isBlankChar c = false :=
  isBlankChar_of_class h rfl rfl

theorem span_of_bare (h : IsBare key) (hstop : isBareKeyChar stop = false) :
    (key.toList ++ stop :: rest).span isBareKeyChar = (key.toList, stop :: rest) := by
  rw [List.span_eq_takeWhile_dropWhile, List.takeWhile_append_of_pos h.bare,
    List.dropWhile_append_of_pos h.bare]
  simp [hstop]

theorem keyPart?_of_bare (h : IsBare key) (hstop : isBareKeyChar stop = false) :
    keyPart? (key.toList ++ stop :: rest) = some (key, stop :: rest) := by
  have hspan : (key.toList ++ stop :: rest).span isBareKeyChar = (key.toList, stop :: rest) :=
    span_of_bare h hstop
  obtain ⟨c, cs, hkey, hc⟩ := h.exists_cons
  have hbasic : c ≠ '"' := ne_of_class hc (by decide)
  have hliteral : c ≠ '\x27' := ne_of_class hc (by decide)
  unfold keyPart?
  split
  · rename_i heq
    simp [hkey, hbasic] at heq
  · rename_i heq
    simp [hkey, hliteral] at heq
  · rw [hspan, hkey]
    dsimp only
    rw [← hkey, String.ofList_toList]

/-- A bare key ends at the first character that cannot stand in one. -/
theorem key?_of_bare (h : IsBare key) (hstop : isBareKeyChar stop = false)
    (hnext : skipBlanks (stop :: rest) = next :: left) (hdot : next ≠ '.') :
    key? (key.toList ++ stop :: rest) = some ([], key, next :: left) := by
  have hblank : skipBlanks (key.toList ++ stop :: rest) = key.toList ++ stop :: rest := by
    obtain ⟨c, cs, hkey, hc⟩ := h.exists_cons
    rw [hkey, List.cons_append, skipBlanks_cons (isBlankChar_of_bare hc)]
  have hparts : ∀ fuel,
      keyParts? (fuel + 1) (key.toList ++ stop :: rest) = some ([key], next :: left) := by
    intro fuel
    rw [keyParts?, hblank, keyPart?_of_bare h hstop]
    simp only [Option.bind_eq_bind, Option.bind_some, hnext]
    split
    · rename_i heq
      exact absurd (List.cons.inj heq).1 hdot
    · rfl
  rw [key?, hparts]
  rfl

end key

section number

variable {ds rest : List Char} {c : Char}

/-- Digits without a zero in front of the others. -/
structure IsDecimal (ds : List Char) : Prop where
  digit : ∀ c ∈ ds, c.isDigit = true
  first : ds = ['0'] ∨ ∃ c cs, ds = c :: cs ∧ c ≠ '0'

theorem IsDecimal.exists_cons (h : IsDecimal ds) : ∃ c cs, ds = c :: cs ∧ c.isDigit = true := by
  rcases h.first with rfl | ⟨c, cs, rfl, -⟩
  · exact ⟨_, _, rfl, rfl⟩
  · exact ⟨c, cs, rfl, h.digit c List.mem_cons_self⟩

theorem exists_cons_toDigits {n : Nat} (h : 0 < n) :
    ∃ c cs, Nat.toDigits 10 n = c :: cs ∧ c ≠ '0' := by
  induction n using Nat.strongRecOn with
  | ind n ih =>
    rcases Nat.lt_or_ge n 10 with hlt | hge
    · have hdigit : ∀ d < 10, 0 < d → Nat.digitChar d ≠ '0' := by decide
      exact ⟨_, [], Nat.toDigits_of_lt_base hlt, hdigit n hlt h⟩
    · -- the last digit is split off, and the first one belongs to the rest
      have hpos : 0 < n / 10 := Nat.div_pos hge (by decide)
      obtain ⟨c, cs, hfront, hc⟩ := ih (n / 10) (Nat.div_lt_self h (by decide)) hpos
      refine ⟨c, cs ++ [Nat.digitChar (n % 10)], ?_, hc⟩
      rw [Nat.toDigits_of_base_le (by decide) hge, hfront, List.cons_append]

theorem isDecimal_toDigits (n : Nat) : IsDecimal (Nat.toDigits 10 n) := by
  refine ⟨fun c hc => Nat.isDigit_of_mem_toDigits (by decide) (by decide) hc, ?_⟩
  rcases Nat.eq_zero_or_pos n with rfl | hpos
  · exact .inl rfl
  · exact .inr (exists_cons_toDigits hpos)

theorem hexDigit?_of_isDigit (h : c.isDigit = true) : hexDigit? c = some (c.toNat - '0'.toNat) :=
  if_pos (isDigit_iff.mp h)

theorem value_toDigits (n : Nat) : value 10 (Nat.toDigits 10 n) = n := by
  have hdigits := (isDecimal_toDigits n).digit
  have hfold : value 10 (Nat.toDigits 10 n) = Nat.ofDigitChars 10 (Nat.toDigits 10 n) 0 := by
    rw [value, Nat.ofDigitChars_eq_foldl]
    apply List.foldl_ext
    intro m c hc
    rw [hexDigit?_of_isDigit (hdigits c hc), Option.getD_some, Nat.mul_comm]
  rw [hfold, Nat.ofDigitChars_ten_toDigits]

theorem moreDigits_append (h : ∀ c ∈ ds, c.isDigit = true) :
    moreDigits Char.isDigit (ds ++ '\n' :: rest) = (ds, '\n' :: rest) := by
  induction ds with
  | nil => cases rest <;> rfl
  | cons c ds ih =>
    obtain ⟨d, tail, htail⟩ : ∃ d tail, ds ++ '\n' :: rest = d :: tail := by
      cases ds with
      | nil => exact ⟨_, _, rfl⟩
      | cons d ds => exact ⟨_, _, rfl⟩
    have hds := ih fun c hc => h c (List.mem_cons_of_mem _ hc)
    rw [List.cons_append, htail, moreDigits, if_pos (h c List.mem_cons_self), ← htail, hds]

theorem decimal?_append (h : IsDecimal ds) :
    decimal? (ds ++ '\n' :: rest) = some (ds, '\n' :: rest) := by
  rcases h.first with rfl | ⟨c, cs, rfl, hc⟩
  · rfl
  · have hmore : moreDigits Char.isDigit (cs ++ '\n' :: rest) = (cs, '\n' :: rest) :=
      moreDigits_append fun d hd => h.digit d (List.mem_cons_of_mem _ hd)
    unfold decimal?
    split
    · rename_i heq
      exact absurd (List.cons.inj heq).1 hc
    · rw [List.cons_append, digits?, if_pos (h.digit c List.mem_cons_self), hmore]

theorem sign_append (h : IsDecimal ds) : sign (ds ++ rest) = (false, ds ++ rest) := by
  obtain ⟨c, cs, rfl, hc⟩ := h.exists_cons
  have hplus : c ≠ '+' := ne_of_class hc (by decide)
  have hminus : c ≠ '-' := ne_of_class hc (by decide)
  unfold sign
  split
  · rename_i heq
    exact absurd (List.cons.inj heq).1 hplus
  · rename_i heq
    exact absurd (List.cons.inj heq).1 hminus
  · rfl

theorem char?_append (h : ∀ c ∈ ds, c.isDigit = true) (hc : c.isDigit = false) (hend : c ≠ '\n') :
    char? c (ds ++ '\n' :: rest) = none := by
  cases ds with
  | nil => exact if_neg hend
  | cons d ds => exact if_neg (ne_of_class (h d List.mem_cons_self) hc).symm

/-- After a fixed number of digits of a plain number comes another one, or the end of the line. -/
theorem char?_of_fixedDigits? {n low high v : Nat} {cs : List Char}
    (h : ∀ c ∈ ds, c.isDigit = true)
    (hcs : fixedDigits? n low high (ds ++ '\n' :: rest) = some (v, cs)) (hc : c.isDigit = false)
    (hend : c ≠ '\n') : char? c cs = none := by
  simp only [fixedDigits?] at hcs
  split at hcs
  · rename_i htake
    have hlong : n ≤ ds.length := by
      by_contra hshort
      have hmem : '\n' ∈ (ds ++ '\n' :: rest).take n := by
        apply List.mem_of_getElem?
        rw [List.getElem?_take_of_lt (Nat.not_le.mp hshort), List.getElem?_append_right (Nat.le_refl _),
          Nat.sub_self]
        rfl
      exact absurd (List.all_eq_true.mp htake.2 _ hmem) (by decide)
    split at hcs
    · cases hcs
      rw [List.drop_append_of_le_length hlong]
      exact char?_append (fun d hd => h d (List.mem_of_mem_drop hd)) hc hend
    · cases hcs
  · cases hcs

theorem date?_append (h : ∀ c ∈ ds, c.isDigit = true) : date? (ds ++ '\n' :: rest) = none := by
  have hdate : fullDate? (ds ++ '\n' :: rest) = none := by
    unfold fullDate?
    cases hyear : fixedDigits? 4 0 9999 (ds ++ '\n' :: rest) with
    | none => rfl
    | some p => simp [char?_of_fixedDigits? h hyear (c := '-') rfl (by decide)]
  have htime : timeOfDay? (ds ++ '\n' :: rest) = none := by
    unfold timeOfDay?
    cases hhour : fixedDigits? 2 0 23 (ds ++ '\n' :: rest) with
    | none => rfl
    | some p => simp [char?_of_fixedDigits? h hhour (c := ':') rfl (by decide)]
  rw [date?, hdate, htime]
  rfl

theorem float?_append (h : IsDecimal ds) : float? (ds ++ '\n' :: rest) = none := by
  obtain ⟨c, cs, hcons, hc⟩ := h.exists_cons
  have hinf : c ≠ 'i' := ne_of_class hc (by decide)
  have hnan : c ≠ 'n' := ne_of_class hc (by decide)
  unfold float?
  rw [sign_append h]
  dsimp only
  split
  · rename_i heq
    simp [hcons, hinf] at heq
  · rename_i heq
    simp [hcons, hnan] at heq
  · rw [decimal?_append h]
    rfl

theorem integer?_append (h : IsDecimal ds) (hmax : value 10 ds ≤ maxInteger) :
    integer? (ds ++ '\n' :: rest) = some (.integer (value 10 ds), '\n' :: rest) := by
  have hrange : inRange? (value 10 ds) = some (.integer (value 10 ds)) := by
    unfold maxInteger at hmax
    exact if_pos (by omega)
  have hbased : ∀ d tail, ds ++ '\n' :: rest = '0' :: d :: tail → d = '\n' := by
    intro d tail heq
    rcases h.first with rfl | ⟨c, cs, rfl, hc⟩
    · exact (List.cons.inj (List.cons.inj heq).2).1.symm
    · exact absurd (List.cons.inj heq).1 hc
  unfold integer?
  split
  · rename_i heq
    exact absurd (hbased _ _ heq) (by decide)
  · rename_i heq
    exact absurd (hbased _ _ heq) (by decide)
  · rename_i heq
    exact absurd (hbased _ _ heq) (by decide)
  · rw [sign_append h]
    dsimp only
    rw [decimal?_append h]
    simp [hrange]

end number

/-- A plain item with its text. -/
inductive Spells : Item → List Char → Prop
  | yes : Spells (.bool true) ['t', 'r', 'u', 'e']
  | no : Spells (.bool false) ['f', 'a', 'l', 's', 'e']
  | integer {n : Nat} : n ≤ maxInteger → Spells (.integer n) (Nat.toDigits 10 n)

theorem item?_of_spells {a : Item} {text : List Char} (h : Spells a text) (depth : Nat)
    (rest : List Char) : item? depth (text ++ '\n' :: rest) = some (a, '\n' :: rest) := by
  cases h with
  | yes =>
    unfold item?
    rfl
  | no =>
    unfold item?
    rfl
  | @integer n hmax =>
    have hdecimal := isDecimal_toDigits n
    have hvalue := value_toDigits n
    have hscalar : scalarNumber? (Nat.toDigits 10 n ++ '\n' :: rest) =
        some (.integer n, '\n' :: rest) := by
      rw [scalarNumber?, date?_append hdecimal.digit, float?_append hdecimal,
        integer?_append hdecimal (by rwa [hvalue]), hvalue]
      rfl
    obtain ⟨c, cs, hcons, hc⟩ := hdecimal.exists_cons
    have hne : ∀ d : Char, d.isDigit = false → c ≠ d := fun d hd => ne_of_class hc hd
    rw [hcons, List.cons_append] at hscalar ⊢
    unfold item?
    simp [hscalar, hne '"' rfl, hne '\x27' rfl, hne 't' rfl, hne 'f' rfl, hne '[' rfl,
      hne '\x7b' rfl]

theorem skipBlanks_of_spells {a : Item} {text : List Char} (h : Spells a text) (rest : List Char) :
    skipBlanks (text ++ rest) = text ++ rest := by
  cases h with
  | yes => rfl
  | no => rfl
  | @integer n =>
    obtain ⟨c, cs, hcons, hc⟩ := (isDecimal_toDigits n).exists_cons
    rw [hcons, List.cons_append, skipBlanks_cons (isBlankChar_of_class hc rfl rfl)]

theorem pair?_of_spells {key : String} {a : Item} {text : List Char} (hkey : IsBare key)
    (h : Spells a text) (depth : Nat) (rest : List Char) :
    pair? (item? depth) (key.toList ++ ' ' :: '=' :: ' ' :: (text ++ '\n' :: rest)) =
      some ([], key, a, '\n' :: rest) := by
  have hequals : key? (key.toList ++ ' ' :: '=' :: ' ' :: (text ++ '\n' :: rest)) =
      some ([], key, '=' :: ' ' :: (text ++ '\n' :: rest)) :=
    key?_of_bare hkey rfl rfl (by decide)
  have hblank : skipBlanks (' ' :: (text ++ '\n' :: rest)) = text ++ '\n' :: rest :=
    skipBlanks_of_spells h _
  rw [pair?, hequals]
  simp only [Option.bind_eq_bind, Option.bind_some, skipBlanks_cons (c := '=') rfl]
  change (item? depth (skipBlanks (' ' :: (text ++ '\n' :: rest)))).bind _ = _
  rw [hblank, item?_of_spells h]
  rfl

/-- A plain document with its statements. -/
inductive Written : List Line → List Char → Prop
  | done : Written [] []
  | blank {lines : List Line} {cs : List Char} : Written lines cs → Written lines ('\n' :: cs)
  | header {key : String} {lines : List Line} {cs : List Char} : IsBare key → Written lines cs →
      Written (.header [] key :: lines) ('[' :: (key.toList ++ ']' :: '\n' :: cs))
  | pair {key : String} {a : Item} {text : List Char} {lines : List Line} {cs : List Char} :
      IsBare key → Spells a text → Written lines cs →
      Written (.pair [] key a :: lines)
        (key.toList ++ ' ' :: '=' :: ' ' :: (text ++ '\n' :: cs))

section lines

variable {key : String} {lines before : List Line} {cs : List Char} {fuel : Nat}

theorem lines?_header (hkey : IsBare key) :
    lines? (fuel + 1) before ('[' :: (key.toList ++ ']' :: '\n' :: cs)) =
      lines? fuel (.header [] key :: before) cs := by
  have hkey? : key? (key.toList ++ ']' :: '\n' :: cs) = some ([], key, ']' :: '\n' :: cs) :=
    key?_of_bare hkey rfl rfl (by decide)
  have hheader : header? ('[' :: (key.toList ++ ']' :: '\n' :: cs)) =
      some (.header [] key, '\n' :: cs) := by
    obtain ⟨c, tail, hcons, hc⟩ := hkey.exists_cons
    have hbracket : c ≠ '[' := ne_of_class hc (by decide)
    unfold header?
    split
    · rename_i heq
      simp [hcons, hbracket] at heq
    · rename_i heq
      cases heq
      rw [hkey?]
      rfl
    · rename_i hnone
      exact absurd rfl (hnone _)
  change (header? _).bind _ = _
  rw [hheader]
  rfl

theorem lines?_pair {a : Item} {text : List Char} (hkey : IsBare key) (h : Spells a text) :
    lines? (fuel + 1) before (key.toList ++ ' ' :: '=' :: ' ' :: (text ++ '\n' :: cs)) =
      lines? fuel (.pair [] key a :: before) cs := by
  have hpair := pair?_of_spells hkey h (depthLimit - 1) cs
  obtain ⟨c, tail, hcons, hc⟩ := hkey.exists_cons
  have hne : ∀ d : Char, isBareKeyChar d = false → c ≠ d := fun d hd => ne_of_class hc hd
  rw [hcons, List.cons_append] at hpair ⊢
  rw [lines?, skipBlanks_cons (isBlankChar_of_bare hc)]
  split
  · rename_i heq
    cases heq
  · rename_i heq
    exact absurd (List.cons.inj heq).1 (hne '#' rfl)
  · rename_i heq
    exact absurd (List.cons.inj heq).1 (hne '\n' rfl)
  · rename_i heq
    exact absurd (List.cons.inj heq).1 (hne '\r' rfl)
  · rename_i heq
    exact absurd (List.cons.inj heq).1 (hne '[' rfl)
  · rw [hpair]
    rfl

/-- The statements of a plain document are read in order. Each line takes one unit of fuel and has at
least one character. -/
theorem lines?_of_written (h : Written lines cs) (hfuel : cs.length < fuel) :
    lines? fuel before cs = some (before.reverse ++ lines) := by
  induction h generalizing fuel before with
  | done =>
    cases fuel with
    | zero => cases hfuel
    | succ fuel => simp [lines?, skipBlanks]
  | blank _ ih =>
    cases fuel with
    | zero => cases hfuel
    | succ fuel => exact ih (Nat.lt_of_succ_lt_succ hfuel)
  | header hkey _ ih =>
    cases fuel with
    | zero => cases hfuel
    | succ fuel =>
      simp only [List.length_cons, List.length_append] at hfuel
      rw [lines?_header hkey, ih (by omega), List.reverse_cons, List.append_assoc,
        List.singleton_append]
  | pair hkey hitem _ ih =>
    cases fuel with
    | zero => cases hfuel
    | succ fuel =>
      simp only [List.length_cons, List.length_append] at hfuel
      rw [lines?_pair hkey hitem, ih (by omega), List.reverse_cons, List.append_assoc,
        List.singleton_append]

theorem ne_mark_of_written (h : Written lines cs) (rest : List Char) : cs ≠ '\uFEFF' :: rest := by
  intro heq
  cases h with
  | done => cases heq
  | blank _ => exact absurd (List.cons.inj heq).1 (by decide)
  | header _ _ => exact absurd (List.cons.inj heq).1 (by decide)
  | pair hkey _ _ =>
    obtain ⟨c, tail, hcons, hc⟩ := hkey.exists_cons
    rw [hcons] at heq
    exact absurd (List.cons.inj heq).1 (ne_of_class hc (by decide))

theorem parse?_of_written {text : String} (h : Written lines text.toList) :
    parse? text = assemble lines := by
  have hlines : lines? (text.toList.length + 1) [] text.toList = some lines :=
    lines?_of_written h (Nat.lt_succ_self _)
  unfold parse?
  split
  · rename_i heq
    exact absurd heq (ne_mark_of_written h _)
  · dsimp only
    rw [hlines]
    rfl

end lines

end TaggedWire.Toml
