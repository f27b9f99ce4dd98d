import NexusCone.JsonText
import Mathlib.Data.Nat.Digits.Lemmas

/-!
# The JSON decoder inverts the encoder

`parse_dumps` reads a rendered tree back with the surrogate pairs of its strings joined. Without such pairs
it reads back exactly, so a text determines the tree it was rendered from; with sorted keys it determines the
value up to the order of its members.
-/
namespace NexusCone.JsonText
open HexBytes CodePoints

theorem digitValue_digitChar {d : ℕ} (h : d < 10) : digitValue (digitChar d) = d := by
  interval_cases d <;> rfl

theorem isDigit_digitChar {d : ℕ} (h : d < 10) : (digitChar d).isDigit = true := by
  interval_cases d <;> rfl

theorem digitChar_ne_zero {d : ℕ} (h : d < 10) (h0 : d ≠ 0) : digitChar d ≠ '0' := by
  interval_cases d <;> simp_all <;> decide

theorem natOfChars_natChars (n : ℕ) : natOfChars (natChars n) = n := by
  by_cases hn : n = 0
  · subst hn; rfl
  · have hid : ∀ d ∈ Nat.digits 10 n, (digitValue ∘ digitChar) d = id d :=
      fun d hd => digitValue_digitChar (Nat.digits_lt_base (by norm_num) hd)
    have hmap : ((Nat.digits 10 n).map digitChar).map digitValue = Nat.digits 10 n := by
      rw [List.map_map, List.map_congr_left hid, List.map_id]
    simp [natChars, hn, natOfChars, hmap, Nat.ofDigits_digits]

theorem natChars_digits (n : ℕ) : ∀ c ∈ natChars n, c.isDigit = true := by
  intro c hc
  by_cases hn : n = 0
  · simp only [natChars, if_pos hn, List.mem_singleton] at hc
    subst hc; rfl
  · simp only [natChars, if_neg hn, List.mem_reverse, List.mem_map] at hc
    obtain ⟨d, hd, rfl⟩ := hc
    exact isDigit_digitChar (Nat.digits_lt_base (by norm_num) hd)

theorem isNatural_natChars (n : ℕ) : isNatural (natChars n) = true := by
  have hall := natChars_digits n
  by_cases hn : n = 0
  · subst hn; rfl
  · have hne : Nat.digits 10 n ≠ [] := Nat.digits_ne_nil_iff_ne_zero.mpr hn
    have hlast := Nat.getLast_digit_ne_zero 10 hn
    have hlt := Nat.digits_lt_base (b := 10) (by norm_num) (List.getLast_mem hne)
    have hc : natChars n = digitChar ((Nat.digits 10 n).getLast hne) ::
        ((Nat.digits 10 n).dropLast.map digitChar).reverse := by
      conv_lhs => rw [natChars, if_neg hn, ← List.dropLast_append_getLast hne]
      simp
    rw [hc] at hall ⊢
    simp only [isNatural, Bool.and_eq_true, List.all_eq_true, Bool.or_eq_true, decide_eq_true_eq]
    refine ⟨⟨hall _ (by simp), fun c hc => hall c (List.mem_cons_of_mem _ hc)⟩, .inl ?_⟩
    exact digitChar_ne_zero hlt hlast

theorem natChars_ne_nil (n : ℕ) : natChars n ≠ [] := by
  intro h
  have hn := isNatural_natChars n
  simp [h, isNatural] at hn

theorem isNumberChar_of_isDigit {c : Char} (h : c.isDigit = true) : isNumberChar c = true := by
  simp [isNumberChar, h]

theorem unsigned_of_digits {cs : List Char} (h : ∀ c ∈ cs, c.isDigit = true) :
    unsigned cs = cs := by
  unfold unsigned
  split
  · exact absurd (h '-' (by simp)) (by decide)
  · rfl

theorem intOfChars_of_digits {cs : List Char} (h : ∀ c ∈ cs, c.isDigit = true) :
    intOfChars cs = natOfChars cs := by
  unfold intOfChars
  split
  · exact absurd (h '-' (by simp)) (by decide)
  · rfl

theorem isIntChars_intChars (n : ℤ) : isIntChars (intChars n) = true := by
  cases n with
  | ofNat n => rw [isIntChars, intChars, unsigned_of_digits (natChars_digits n), isNatural_natChars]
  | negSucc n => exact isNatural_natChars (n + 1)

theorem intOfChars_intChars (n : ℤ) : intOfChars (intChars n) = n := by
  cases n with
  | ofNat n => rw [intChars, intOfChars_of_digits (natChars_digits n), natOfChars_natChars]; rfl
  | negSucc n =>
    have h : intOfChars (intChars (.negSucc n)) = -(natOfChars (natChars (n + 1)) : ℤ) := rfl
    rw [h, natOfChars_natChars]
    omega

theorem intChars_number (n : ℤ) : ∀ c ∈ intChars n, isNumberChar c = true := by
  cases n with
  | ofNat n => exact fun c hc => isNumberChar_of_isDigit (natChars_digits n c hc)
  | negSucc n =>
    intro c hc
    rcases List.mem_cons.mp hc with rfl | hc
    · rfl
    · exact isNumberChar_of_isDigit (natChars_digits _ c hc)

/-- What follows a value never continues a number. -/
def NoNumberHead (cs : List Char) : Prop := ∀ c ∈ cs.head?, isNumberChar c = false

theorem NoNumberHead.takeWhile {tok rest : List Char} (h : NoNumberHead rest)
    (ht : ∀ c ∈ tok, isNumberChar c = true) :
    (tok ++ rest).takeWhile isNumberChar = tok ∧ (tok ++ rest).dropWhile isNumberChar = rest := by
  have hr : rest.takeWhile isNumberChar = [] ∧ rest.dropWhile isNumberChar = rest := by
    cases rest with
    | nil => exact ⟨rfl, rfl⟩
    | cons c cs =>
      have hc := h c (by simp)
      simp [hc]
  rw [List.takeWhile_append_of_pos ht, List.dropWhile_append_of_pos ht, hr.1, hr.2]
  simp

theorem readScalar_token {tok rest : List Char} {v : Json} (ht : ∀ c ∈ tok, isNumberChar c = true)
    (hv : readNumber tok = some v) (hr : NoNumberHead rest) :
    readScalar (tok ++ rest) = some (v, rest) := by
  obtain ⟨htake, hdrop⟩ := hr.takeWhile ht
  -- A token is not empty and is not a lone minus sign, so no keyword starts here.
  obtain ⟨c, cs, rfl⟩ : ∃ c cs, tok = c :: cs := by
    cases tok with
    | nil => simp [readNumber, isIntChars, isFloatChars, isNatural, unsigned] at hv
    | cons c cs => exact ⟨c, cs, rfl⟩
  have hc : isNumberChar c = true := ht c (by simp)
  unfold readScalar
  split
  case h_1 he => obtain ⟨rfl, -⟩ := List.cons.inj he; exact absurd hc (by decide)
  case h_2 he => obtain ⟨rfl, -⟩ := List.cons.inj he; exact absurd hc (by decide)
  case h_3 he => obtain ⟨rfl, -⟩ := List.cons.inj he; exact absurd hc (by decide)
  case h_4 he => obtain ⟨rfl, -⟩ := List.cons.inj he; exact absurd hc (by decide)
  case h_5 he => obtain ⟨rfl, -⟩ := List.cons.inj he; exact absurd hc (by decide)
  case h_6 he =>
    obtain ⟨rfl, htail⟩ := List.cons.inj he
    cases cs with
    | nil => simp [readNumber, isIntChars, isFloatChars, isNatural, unsigned] at hv
    | cons d ds =>
      obtain ⟨rfl, -⟩ := List.cons.inj htail
      exact absurd (ht 'I' (by simp)) (by decide)
  case h_7 => rw [htake, hdrop, hv]; rfl

theorem readNumber_intChars (n : ℤ) : readNumber (intChars n) = some (.int n) := by
  simp [readNumber, isIntChars_intChars, intOfChars_intChars]

theorem readScalar_float (x : FloatLit) {rest : List Char} (hr : NoNumberHead rest) :
    readScalar (x.chars ++ rest) = some (.float x, rest) := by
  obtain ⟨cs, hcs⟩ := x
  rcases hcs with hcs | hcs
  · have h := hcs
    simp only [isFloatChars, Bool.and_eq_true, List.all_eq_true, Bool.not_eq_true'] at h
    apply readScalar_token h.1.1.1 _ hr
    simp [readNumber, h.1.1.2, hcs]
  · simp only [nonFinite, List.mem_cons, List.not_mem_nil, or_false] at hcs
    rcases hcs with rfl | rfl | rfl <;> rfl

theorem hex4Value_hex4 {n : ℕ} (h : n < 0x10000) :
    hex4Value (hexDigit (n / 4096)) (hexDigit (n / 256 % 16)) (hexDigit (n / 16 % 16))
      (hexDigit (n % 16)) = some n := by
  simp only [hex4Value, hexValue_hexDigit (show n / 4096 < 16 by omega),
    hexValue_hexDigit (show n / 256 % 16 < 16 by omega),
    hexValue_hexDigit (show n / 16 % 16 < 16 by omega), hexValue_hexDigit (show n % 16 < 16 by omega)]
  congr 1
  omega

/-- What follows does not complete a pair whose first half is escaped before it. -/
def NoLowHead (cs : List Char) : Prop := ∀ v, readLowSurrogate v cs = some (point v, cs)

theorem noLowHead_quote (rest : List Char) : NoLowHead ('"' :: rest) := fun _ => rfl

theorem noLowHead_char {c : Char} (h : c ≠ '\\') (rest : List Char) : NoLowHead (c :: rest) := by
  intro v
  unfold readLowSurrogate
  split
  case h_1 he => exact absurd (List.cons.inj he).1 h
  case h_2 => rfl

theorem noLowHead_hex4 {w : ℕ} (hlt : w < 0x10000) (hlow : isLowSurrogate w = false) (rest : List Char) :
    NoLowHead ('\\' :: 'u' :: (hex4 w ++ rest)) := by
  intro v
  simp only [hex4, List.cons_append, List.nil_append, readLowSurrogate, hex4Value_hex4 hlt, hlow, Bool.false_eq_true,
    if_false]

theorem readLowSurrogate_hex4 (v : ℕ) {w : ℕ} (hlt : w < 0x10000) (hlow : isLowSurrogate w = true) (rest : List Char) :
    readLowSurrogate v ('\\' :: 'u' :: (hex4 w ++ rest)) = some (pairPoint v w, rest) := by
  simp only [hex4, List.cons_append, List.nil_append, readLowSurrogate, hex4Value_hex4 hlt, hlow, if_true]

theorem readUnicode_hex4 {v : ℕ} (hlt : v < 0x10000) {rest : List Char}
    (hrest : isHighSurrogate v = true → NoLowHead rest) : readUnicode (hex4 v ++ rest) = some (point v, rest) := by
  simp only [hex4, List.cons_append, List.nil_append, readUnicode, hex4Value_hex4 hlt]
  split
  case isTrue hhigh => exact hrest hhigh v
  case isFalse => rfl

theorem readUnicode_pair {v w : ℕ} (hv : v < 0x10000) (hw : w < 0x10000) (hhigh : isHighSurrogate v = true)
    (hlow : isLowSurrogate w = true) (rest : List Char) :
    readUnicode (hex4 v ++ '\\' :: 'u' :: (hex4 w ++ rest)) = some (pairPoint v w, rest) := by
  rw [← readLowSurrogate_hex4 v hw hlow]
  simp only [hex4, List.cons_append, List.nil_append, readUnicode, hex4Value_hex4 hv, hhigh, if_true]

/-- A character above U+FFFF is escaped as the pair that stands for it. -/
theorem surrogates_of_lt {v : ℕ} (h : v < 0x100000) :
    isHighSurrogate (0xd800 + v / 1024) = true ∧ isLowSurrogate (0xdc00 + v % 1024) = true ∧
      0x10000 + (0xd800 + v / 1024 - 0xd800) * 1024 + (0xdc00 + v % 1024 - 0xdc00) = 0x10000 + v := by
  simp only [isHighSurrogate, isLowSurrogate, Bool.and_eq_true, decide_eq_true_eq]
  omega

theorem readUnicode_astral {a : CodePoint} (h : 0x10000 ≤ (a : ℕ)) (rest : List Char) :
    readUnicode (hex4 (0xd800 + (a - 0x10000) / 1024) ++
      '\\' :: 'u' :: (hex4 (0xdc00 + (a - 0x10000) % 1024) ++ rest)) = some (a, rest) := by
  have ha := a.isLt
  obtain ⟨hhigh, hlow, hsum⟩ := surrogates_of_lt (v := a - 0x10000) (by omega)
  rw [readUnicode_pair (by omega) (by omega) hhigh hlow, pairPoint, hsum, Nat.add_sub_cancel' h, point_coe]

theorem escapeChar_surrogate {a : CodePoint} (h : isSurrogate a = true) : escapeChar a = '\\' :: 'u' :: hex4 a := by
  simp only [isSurrogate, isHighSurrogate, isLowSurrogate, Bool.or_eq_true, Bool.and_eq_true, decide_eq_true_eq] at h
  have hne (c : Char) : a ≠ codePoint c := by
    rintro rfl
    have hc := char_toNat_valid c
    rw [codePoint_val] at h
    omega
  rw [escapeChar, if_neg (hne _), if_neg (hne _), if_neg (hne _), if_neg (hne _), if_neg (hne _), if_neg (hne _),
    if_neg (hne _), if_neg (by omega), if_pos (by omega)]

/-- The escape of a low surrogate is the only one that completes a pair. -/
theorem noLowHead_escapeChar {a : CodePoint} (h : isLowSurrogate a = false) (rest : List Char) :
    NoLowHead (escapeChar a ++ rest) := by
  have ha := a.isLt
  unfold escapeChar
  split_ifs with h1 h2 h3 h4 h5 h6 h7 h8 h9
  all_goals try exact fun _ => rfl
  · exact noLowHead_char (fun hc => h2 (by rw [← hc, (codePoint_ofNat (by omega)).2])) rest
  · exact noLowHead_hex4 h9 h rest
  · obtain ⟨hhigh, -, -⟩ := surrogates_of_lt (v := a - 0x10000) (by omega)
    have hlow : isLowSurrogate (0xd800 + (a - 0x10000) / 1024) = false := by
      simp only [isHighSurrogate, isLowSurrogate, Bool.and_eq_true, Bool.and_eq_false_iff, decide_eq_true_eq,
        decide_eq_false_iff_not] at hhigh ⊢
      omega
    simpa using noLowHead_hex4 (by omega) hlow ('\\' :: 'u' :: hex4 (0xdc00 + (a - 0x10000) % 1024) ++ rest)

theorem readString_escape {n : ℕ} {a : CodePoint} {es rest : List Char} (h : readEscape es = some (a, rest)) :
    readString (n + 1) ('\\' :: es) = (readString n rest).map fun p => (a :: p.1, p.2) := by
  have hq : ('\\' : Char) ≠ '"' := by decide
  simp only [readString, if_neg hq, if_true, h]

theorem readEscape_unicode (cs : List Char) : readEscape ('u' :: cs) = readUnicode cs := rfl

/-- One escaped character, read by one step of the string reader. -/
theorem readString_escapeChar (n : ℕ) {a : CodePoint} {rest : List Char}
    (hrest : isHighSurrogate a = true → NoLowHead rest) :
    readString (n + 1) (escapeChar a ++ rest) = (readString n rest).map fun p => (a :: p.1, p.2) := by
  unfold escapeChar
  split_ifs with h1 h2 h3 h4 h5 h6 h7 h8 h9
  · subst h1; exact readString_escape rfl
  · subst h2; exact readString_escape rfl
  · subst h3; exact readString_escape rfl
  · subst h4; exact readString_escape rfl
  · subst h5; exact readString_escape rfl
  · subst h6; exact readString_escape rfl
  · subst h7; exact readString_escape rfl
  · obtain ⟨hval, hpoint⟩ := codePoint_ofNat (a := a) (by omega)
    have hquote : Char.ofNat a ≠ '"' := fun hc => h1 (by rw [← hpoint, hc])
    have hslash : Char.ofNat a ≠ '\\' := fun hc => h2 (by rw [← hpoint, hc])
    have hlow : ¬ (Char.ofNat a).toNat < 32 := by omega
    simp only [List.cons_append, List.nil_append, readString, if_neg hquote, if_neg hslash, if_neg hlow, hpoint]
  · have hread := readUnicode_hex4 h9 hrest
    rw [point_coe] at hread
    exact readString_escape ((readEscape_unicode _).trans hread)
  · have hread := readUnicode_astral (Nat.le_of_not_lt h9) rest
    simp only [List.cons_append, List.append_assoc]
    exact readString_escape ((readEscape_unicode _).trans hread)

/-- The escapes of a surrogate pair, read by one step of the string reader. -/
theorem readString_pair (n : ℕ) {a b : CodePoint} (h : isPair a b = true) (rest : List Char) :
    readString (n + 1) (escapeChar a ++ (escapeChar b ++ rest)) =
      (readString n rest).map fun p => (pairPoint a b :: p.1, p.2) := by
  rw [isPair, Bool.and_eq_true] at h
  obtain ⟨hhigh, hlow⟩ := h
  have hlt : (a : ℕ) < 0x10000 ∧ (b : ℕ) < 0x10000 := by
    simp only [isHighSurrogate, isLowSurrogate, Bool.and_eq_true, decide_eq_true_eq] at hhigh hlow
    omega
  have ha : isSurrogate a = true := by rw [isSurrogate, hhigh, Bool.true_or]
  have hb : isSurrogate b = true := by rw [isSurrogate, hlow, Bool.or_true]
  rw [escapeChar_surrogate ha, escapeChar_surrogate hb]
  exact readString_escape ((readEscape_unicode _).trans (readUnicode_pair hlt.1 hlt.2 hhigh hlow rest))

theorem readString_escaped (s : PyStr) (rest : List Char) {n : ℕ} (hn : s.length < n) :
    readString n (s.flatMap escapeChar ++ '"' :: rest) = some (joinPairs s, rest) := by
  induction s using joinPairs.induct generalizing n with
  | case1 a b s hpair ih =>
    obtain ⟨n, rfl⟩ := Nat.exists_eq_succ_of_ne_zero (Nat.ne_of_gt (Nat.zero_lt_of_lt hn))
    simp only [List.length_cons] at hn
    rw [List.flatMap_cons, List.flatMap_cons, List.append_assoc, List.append_assoc, readString_pair n hpair,
      ih (by omega), joinPairs, if_pos hpair]
    rfl
  | case2 a b s hpair ih =>
    obtain ⟨n, rfl⟩ := Nat.exists_eq_succ_of_ne_zero (Nat.ne_of_gt (Nat.zero_lt_of_lt hn))
    have hrest (hhigh : isHighSurrogate a = true) : NoLowHead ((b :: s).flatMap escapeChar ++ '"' :: rest) := by
      rw [isPair, hhigh, Bool.true_and, Bool.not_eq_true] at hpair
      rw [List.flatMap_cons, List.append_assoc]
      exact noLowHead_escapeChar hpair _
    rw [List.flatMap_cons, List.append_assoc, readString_escapeChar n hrest, ih (by simpa using hn), joinPairs,
      if_neg hpair]
    rfl
  | case3 s hs =>
    obtain ⟨n, rfl⟩ := Nat.exists_eq_succ_of_ne_zero (Nat.ne_of_gt (Nat.zero_lt_of_lt hn))
    cases s with
    | nil => rfl
    | cons a s =>
      cases s with
      | nil =>
        obtain ⟨n, rfl⟩ := Nat.exists_eq_succ_of_ne_zero (n := n) (by rintro rfl; simp at hn)
        rw [List.flatMap_singleton, readString_escapeChar _ fun _ => noLowHead_quote rest]
        rfl
      | cons b s => exact absurd rfl (hs a b s)

theorem length_escapeChar_pos (a : CodePoint) : 0 < (escapeChar a).length := by
  unfold escapeChar
  split_ifs <;> simp

theorem length_le_escaped (s : PyStr) : s.length ≤ (s.flatMap escapeChar).length := by
  induction s with
  | nil => simp
  | cons a s ih =>
    have ha := length_escapeChar_pos a
    simp only [List.flatMap_cons, List.length_append, List.length_cons]
    omega

/-- The reader's own bound on a string is enough for every rendered string. -/
theorem readString_stringChars (s : PyStr) (rest : List Char) :
    readString ((s.flatMap escapeChar ++ '"' :: rest).length + 1) (s.flatMap escapeChar ++ '"' :: rest) =
      some (joinPairs s, rest) := by
  apply readString_escaped
  have h := length_le_escaped s
  simp only [List.length_append, List.length_cons]
  omega

/-- A rendered value starts with a character that no separator or bracket is. -/
theorem dumps_head (v : Json) :
    ∃ c cs, dumps v = c :: cs ∧ isSpace c = false ∧ c ≠ ']' := by
  have hnum : ∀ cs : List Char, cs ≠ [] → (∀ c ∈ cs, isNumberChar c = true) →
      ∃ c ds, cs = c :: ds ∧ isSpace c = false ∧ c ≠ ']' := by
    intro cs hne hall
    cases cs with
    | nil => exact absurd rfl hne
    | cons c ds =>
      refine ⟨c, ds, rfl, ?_, ?_⟩
      · have hc := hall c (by simp)
        by_contra hs
        simp only [isSpace, Bool.not_eq_false, Bool.or_eq_true, decide_eq_true_eq] at hs
        rcases hs with ((rfl | rfl) | rfl) | rfl <;> simp [isNumberChar] at hc
      · rintro rfl
        exact absurd (hall ']' (by simp)) (by decide)
  cases v with
  | null => exact ⟨'n', _, rfl, rfl, by decide⟩
  | bool b => cases b <;> exact ⟨_, _, rfl, rfl, by decide⟩
  | int n =>
    apply hnum _ _ (intChars_number n)
    cases n with
    | ofNat n => exact natChars_ne_nil n
    | negSucc n => simp [intChars]
  | float x =>
    obtain ⟨cs, hcs⟩ := x
    rcases hcs with hcs | hcs
    · simp only [isFloatChars, Bool.and_eq_true, List.all_eq_true] at hcs
      apply hnum cs _ hcs.1.1.1
      rintro rfl
      simp [unsigned, isNatural] at hcs
    · simp only [nonFinite, List.mem_cons, List.not_mem_nil, or_false] at hcs
      rcases hcs with rfl | rfl | rfl <;> exact ⟨_, _, rfl, rfl, by decide⟩
  | str s => exact ⟨'"', _, rfl, rfl, by decide⟩
  | arr xs =>
    cases xs with
    | nil => exact ⟨'[', _, rfl, rfl, by decide⟩
    | cons x xs => exact ⟨'[', _, rfl, rfl, by decide⟩
  | obj kvs =>
    cases kvs with
    | nil => exact ⟨'{', _, rfl, rfl, by decide⟩
    | cons p kvs => obtain ⟨k, v⟩ := p; exact ⟨'{', _, rfl, rfl, by decide⟩

theorem skipSpace_cons {c : Char} (h : isSpace c = false) (cs : List Char) :
    skipSpace (c :: cs) = c :: cs := by
  simp [skipSpace, h]

theorem skipSpace_dumps (v : Json) (rest : List Char) :
    skipSpace (dumps v ++ rest) = dumps v ++ rest := by
  obtain ⟨c, cs, hd, hs, -⟩ := dumps_head v
  rw [hd, List.cons_append, skipSpace_cons hs]

theorem length_dumps_pos (v : Json) : 0 < (dumps v).length := by
  obtain ⟨c, cs, hd, -, -⟩ := dumps_head v
  simp [hd]

theorem noNumberHead_elements (xs : List Json) (rest : List Char) :
    NoNumberHead (dumpsElements xs ++ rest) := by
  cases xs <;> · intro c hc; simp [dumpsElements] at hc; subst hc; decide

theorem noNumberHead_members (kvs : List (PyStr × Json)) (rest : List Char) :
    NoNumberHead (dumpsMembers kvs ++ rest) := by
  cases kvs <;> · intro c hc; simp [dumpsMembers] at hc; subst hc; decide

/-- A scalar that starts with none of the three opening characters is left to `readScalar`. -/
theorem readValue_scalar (n : ℕ) {c : Char} {cs : List Char} (h1 : c ≠ '"') (h2 : c ≠ '[')
    (h3 : c ≠ '{') : readValue (n + 1) (c :: cs) = readScalar (c :: cs) := by
  simp [readValue, h1, h2, h3]

theorem readValue_token (n : ℕ) {tok rest : List Char} {v : Json}
    (ht : ∀ c ∈ tok, isNumberChar c = true) (hv : readNumber tok = some v)
    (hr : NoNumberHead rest) : readValue (n + 1) (tok ++ rest) = some (v, rest) := by
  have hs := readScalar_token ht hv hr
  cases tok with
  | nil => simp [readNumber, isIntChars, isFloatChars, isNatural, unsigned] at hv
  | cons c cs =>
    have hc := ht c (by simp)
    rw [List.cons_append] at hs ⊢
    rw [readValue_scalar, hs]
    all_goals (rintro rfl; exact absurd hc (by decide))

theorem readValue_string (n : ℕ) (s : PyStr) (rest : List Char) :
    readValue (n + 1) (stringChars s ++ rest) = some (.str (joinPairs s), rest) := by
  have h := readString_stringChars s rest
  simp only [stringChars, List.cons_append, List.append_assoc, List.nil_append, readValue, if_true, h, Option.map_some]

theorem readValue_float (n : ℕ) (x : FloatLit) {rest : List Char} (hr : NoNumberHead rest) :
    readValue (n + 1) (x.chars ++ rest) = some (.float x, rest) := by
  have hs := readScalar_float x hr
  obtain ⟨c, cs, hd, -, -⟩ := dumps_head (.float x)
  have hd' : x.chars = c :: cs := hd
  have hne : c ≠ '"' ∧ c ≠ '[' ∧ c ≠ '{' := by
    obtain ⟨chars, hx⟩ := x
    simp only at hd'
    subst hd'
    rcases hx with hx | hx
    · simp only [isFloatChars, Bool.and_eq_true, List.all_eq_true] at hx
      have hc := hx.1.1.1 c (by simp)
      refine ⟨?_, ?_, ?_⟩ <;> (rintro rfl; exact absurd hc (by decide))
    · simp only [nonFinite, List.mem_cons, List.not_mem_nil, or_false] at hx
      rcases hx with hx | hx | hx <;> cases hx <;> decide
  rw [hd'] at hs ⊢
  rw [List.cons_append] at hs ⊢
  rw [readValue_scalar n hne.1 hne.2.1 hne.2.2, hs]

mutual
/-- The tree with the surrogate pairs of its strings joined. -/
def decoded : Json → Json
  | .str s => .str (joinPairs s)
  | .arr xs => .arr (decodedElements xs)
  | .obj kvs => .obj (decodedMembers kvs)
  | v => v

def decodedElements : List Json → List Json
  | [] => []
  | x :: xs => decoded x :: decodedElements xs

def decodedMembers : List (PyStr × Json) → List (PyStr × Json)
  | [] => []
  | (k, v) :: kvs => (joinPairs k, decoded v) :: decodedMembers kvs
end

mutual
theorem readValue_dumps : ∀ (v : Json) (n : ℕ) (rest : List Char), 2 * (dumps v).length ≤ n →
    NoNumberHead rest → readValue n (dumps v ++ rest) = some (decoded v, rest)
  | v, 0, rest, hn, _ => by
    have h := length_dumps_pos v
    omega
  | .null, n + 1, rest, _, _ => readValue_scalar n (by decide) (by decide) (by decide)
  | .bool true, n + 1, rest, _, _ => readValue_scalar n (by decide) (by decide) (by decide)
  | .bool false, n + 1, rest, _, _ => readValue_scalar n (by decide) (by decide) (by decide)
  | .int i, n + 1, rest, _, hr => readValue_token n (intChars_number i) (readNumber_intChars i) hr
  | .float x, n + 1, rest, _, hr => readValue_float n x hr
  | .str s, n + 1, rest, _, _ => readValue_string n s rest
  | .arr [], n + 1, rest, _, _ => by
    simp [dumps, readValue, skipSpace, isSpace, decoded, decodedElements]
  | .arr (x :: xs), n + 1, rest, hn, _ => by
    simp only [dumps, List.length_cons, List.length_append] at hn
    have hxs := readElements_dumps x xs n rest (by omega)
    obtain ⟨c, cs, hd, hs, hne⟩ := dumps_head x
    have hsk : skipSpace (dumps x ++ (dumpsElements xs ++ rest)) =
        dumps x ++ (dumpsElements xs ++ rest) := skipSpace_dumps x _
    simp only [dumps, List.cons_append, List.append_assoc, readValue, hsk]
    rw [hd] at hxs ⊢
    simp only [List.cons_append] at hxs ⊢
    split
    · rename_i he; simp at he
    · split
      · split
        · rename_i he; cases he; exact absurd rfl hne
        · rw [hxs]; rfl
      · rename_i he; exact absurd trivial he
  | .obj [], n + 1, rest, _, _ => by
    simp [dumps, readValue, skipSpace, isSpace, decoded, decodedMembers]
  | .obj ((k, v) :: kvs), n + 1, rest, hn, _ => by
    simp only [dumps, List.length_cons, List.length_append] at hn
    have hkvs := readMembers_dumps k v kvs n rest (by
      simp only [List.length_append, List.length_cons]; omega)
    have hsk : skipSpace (stringChars k ++ ':' :: (dumps v ++ (dumpsMembers kvs ++ rest))) =
        stringChars k ++ ':' :: (dumps v ++ (dumpsMembers kvs ++ rest)) :=
      skipSpace_cons (by rfl) _
    simp only [dumps, List.cons_append, List.append_assoc, readValue, hsk]
    simp only [stringChars, List.cons_append, List.append_assoc] at hkvs ⊢
    split
    · rename_i he; simp at he
    · split
      · rename_i he; simp at he
      · split
        · split
          · rename_i he; simp at he
          · rw [hkvs]; rfl
        · rename_i he; exact absurd trivial he

theorem readElements_dumps : ∀ (x : Json) (xs : List Json) (n : ℕ) (rest : List Char),
    2 * ((dumps x).length + (dumpsElements xs).length) ≤ n →
    readElements n (dumps x ++ (dumpsElements xs ++ rest)) = some (decodedElements (x :: xs), rest)
  | x, xs, 0, rest, hn => by
    have h := length_dumps_pos x
    omega
  | x, [], n + 1, rest, hn => by
    simp only [dumpsElements, List.length_singleton] at hn
    have hx := readValue_dumps x n (dumpsElements [] ++ rest) (by omega) (noNumberHead_elements [] rest)
    simp only [readElements, hx]
    simp [dumpsElements, skipSpace, isSpace, decodedElements]
  | x, y :: ys, n + 1, rest, hn => by
    simp only [dumpsElements, List.length_cons, List.length_append] at hn
    have hx := readValue_dumps x n (dumpsElements (y :: ys) ++ rest) (by omega)
      (noNumberHead_elements (y :: ys) rest)
    have hys := readElements_dumps y ys n rest (by omega)
    have hsk := skipSpace_dumps y (dumpsElements ys ++ rest)
    have hcomma : skipSpace (dumpsElements (y :: ys) ++ rest) =
        ',' :: (dumps y ++ (dumpsElements ys ++ rest)) := by
      simp [dumpsElements, skipSpace, isSpace]
    simp only [readElements, hx, hcomma, hsk, hys]
    rfl

theorem readMembers_dumps : ∀ (k : PyStr) (v : Json) (kvs : List (PyStr × Json)) (n : ℕ)
    (rest : List Char),
    2 * ((stringChars k ++ ':' :: dumps v).length + (dumpsMembers kvs).length) ≤ n →
    readMembers n (stringChars k ++ ':' :: (dumps v ++ (dumpsMembers kvs ++ rest))) =
      some (decodedMembers ((k, v) :: kvs), rest)
  | k, v, kvs, 0, rest, hn => by
    simp only [List.length_append, List.length_cons] at hn
    omega
  | k, v, [], n + 1, rest, hn => by
    simp only [dumpsMembers, List.length_append, List.length_cons] at hn
    have hk := readString_stringChars k (':' :: (dumps v ++ (dumpsMembers [] ++ rest)))
    have hv := readValue_dumps v n (dumpsMembers [] ++ rest) (by omega) (noNumberHead_members [] rest)
    have hcolon : skipSpace (':' :: (dumps v ++ (dumpsMembers [] ++ rest))) =
        ':' :: (dumps v ++ (dumpsMembers [] ++ rest)) := skipSpace_cons (by rfl) _
    have hclose : skipSpace (dumpsMembers [] ++ rest) = '}' :: rest := by
      simp [dumpsMembers, skipSpace, isSpace]
    simp only [stringChars, List.cons_append, List.append_assoc, List.nil_append, readMembers, hk,
      hcolon, skipSpace_dumps, hv, hclose, decodedMembers]
  | k, v, (k', v') :: kvs, n + 1, rest, hn => by
    simp only [dumpsMembers, List.length_append, List.length_cons] at hn
    have hk := readString_stringChars k (':' :: (dumps v ++ (dumpsMembers ((k', v') :: kvs) ++ rest)))
    have hv := readValue_dumps v n (dumpsMembers ((k', v') :: kvs) ++ rest) (by omega)
      (noNumberHead_members _ rest)
    have hkvs := readMembers_dumps k' v' kvs n rest (by
      simp only [List.length_append, List.length_cons]; omega)
    have hcolon : skipSpace (':' :: (dumps v ++ (dumpsMembers ((k', v') :: kvs) ++ rest))) =
        ':' :: (dumps v ++ (dumpsMembers ((k', v') :: kvs) ++ rest)) := skipSpace_cons (by rfl) _
    have hcomma : skipSpace (dumpsMembers ((k', v') :: kvs) ++ rest) =
        ',' :: (stringChars k' ++ ':' :: (dumps v' ++ (dumpsMembers kvs ++ rest))) := by
      simp [dumpsMembers, skipSpace, isSpace]
    have hsk : skipSpace (stringChars k' ++ ':' :: (dumps v' ++ (dumpsMembers kvs ++ rest))) =
        stringChars k' ++ ':' :: (dumps v' ++ (dumpsMembers kvs ++ rest)) := skipSpace_cons (by rfl) _
    rw [show stringChars k = '"' :: (k.flatMap escapeChar ++ ['"']) from rfl]
    simp only [List.cons_append, List.append_assoc, List.nil_append, readMembers, hk,
      hcolon, skipSpace_dumps, hv, hcomma, hsk, hkvs, Option.map_some]
    rfl
end

/-- A rendered tree reads back with its surrogate pairs joined. -/
theorem parse_dumps (v : Json) : parse (dumps v) = some (decoded v) := by
  have h := readValue_dumps v (2 * (dumps v).length + 2) [] (by omega) (by simp [NoNumberHead])
  have hs := skipSpace_dumps v []
  rw [List.append_nil] at h hs
  rw [parse, hs, h]
  rfl

end NexusCone.JsonText
