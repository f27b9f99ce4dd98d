import Mathlib.Data.List.Lex
import Mathlib.Order.Fin.Basic
import Mathlib.Data.String.Basic

/-!
# Strings of code points

A Python string is a list of code points and may have surrogates anywhere in it, which no Unicode text has.
Where a high surrogate stands right before a low one, UTF-16 reads the two as one character.
-/
namespace NexusCone.CodePoints

abbrev CodePoint := Fin 0x110000

/-- A Python string; its order is that of the code points. -/
abbrev PyStr := List CodePoint

def point (n : ℕ) : CodePoint := Fin.ofNat 0x110000 n

def codePoint (c : Char) : CodePoint := point c.toNat

/-- A text as a Python string. -/
def pyStr (s : String) : PyStr := s.toList.map codePoint

instance : Coe String PyStr := ⟨pyStr⟩

def isHighSurrogate (v : ℕ) : Bool := 0xd800 ≤ v && v ≤ 0xdbff

def isLowSurrogate (v : ℕ) : Bool := 0xdc00 ≤ v && v ≤ 0xdfff

def isSurrogate (a : CodePoint) : Bool := isHighSurrogate a || isLowSurrogate a

/-- A high surrogate and a low one. -/
def isPair (a b : CodePoint) : Bool := isHighSurrogate a && isLowSurrogate b

/-- The character that a surrogate pair stands for. -/
def pairPoint (v w : ℕ) : CodePoint := point (0x10000 + (v - 0xd800) * 1024 + (w - 0xdc00))

/-- The string with every surrogate pair made one character. -/
def joinPairs : PyStr → PyStr
  | a :: b :: s => if isPair a b then pairPoint a b :: joinPairs s else a :: joinPairs (b :: s)
  | s => s

/-- No high surrogate stands right before a low one. -/
def unpaired : PyStr → Bool
  | a :: b :: s => !isPair a b && unpaired (b :: s)
  | _ => true

section Points

theorem point_val {n : ℕ} (h : n < 0x110000) : (point n : ℕ) = n := Nat.mod_eq_of_lt h

theorem point_coe (a : CodePoint) : point a = a := Fin.ext (point_val a.isLt)

theorem char_toNat_valid (c : Char) : c.toNat < 0xd800 ∨ (0xdfff < c.toNat ∧ c.toNat < 0x110000) := c.valid

@[simp] theorem codePoint_val (c : Char) : (codePoint c : ℕ) = c.toNat := by
  have h := char_toNat_valid c
  exact point_val (by omega)

/-- Below the surrogates a code point is a character. -/
theorem codePoint_ofNat {a : CodePoint} (h : (a : ℕ) < 0xd800) :
    (Char.ofNat a).toNat = a ∧ codePoint (Char.ofNat a) = a := by
  have hval : (Char.ofNat a).toNat = a := by
    rw [Char.ofNat, dif_pos (.inl h)]
    rfl
  exact ⟨hval, Fin.ext (by rw [codePoint_val, hval])⟩

theorem codePoint_strictMono : StrictMono codePoint := by
  intro c d h
  rw [Fin.lt_def, codePoint_val, codePoint_val]
  exact h

theorem codePoint_injective : Function.Injective codePoint := codePoint_strictMono.injective

theorem not_isSurrogate (c : Char) : isSurrogate (codePoint c) = false := by
  have h := char_toNat_valid c
  simp only [isSurrogate, isHighSurrogate, isLowSurrogate, codePoint_val, Bool.or_eq_false_iff, Bool.and_eq_false_iff,
    decide_eq_false_iff_not]
  omega

theorem pairPoint_val {a b : CodePoint} (h : isPair a b) :
    (pairPoint a b : ℕ) = 0x10000 + (a - 0xd800) * 1024 + (b - 0xdc00) ∧ 0x10000 ≤ (pairPoint a b : ℕ) := by
  simp only [isPair, isHighSurrogate, isLowSurrogate, Bool.and_eq_true, decide_eq_true_eq] at h
  have hval : (pairPoint a b : ℕ) = 0x10000 + (a - 0xd800) * 1024 + (b - 0xdc00) := point_val (by omega)
  omega

end Points

section Texts

@[simp] theorem pyStr_ofList (cs : List Char) : pyStr (String.ofList cs) = cs.map codePoint := by
  rw [pyStr, String.toList_ofList]

@[simp] theorem pyStr_inj {s t : String} : pyStr s = pyStr t ↔ s = t := by
  rw [pyStr, pyStr, List.map_inj_right fun c d h => codePoint_injective h, String.toList_inj]

theorem map_codePoint_lt {cs ds : List Char} : cs.map codePoint < ds.map codePoint ↔ cs < ds := by
  induction cs generalizing ds with
  | nil => cases ds <;> simp
  | cons c cs ih =>
    cases ds with
    | nil => simp
    | cons d ds =>
      rw [List.map_cons, List.map_cons, List.cons_lt_cons_iff, List.cons_lt_cons_iff, ih,
        codePoint_strictMono.lt_iff_lt, codePoint_injective.eq_iff]

@[simp] theorem pyStr_le {s t : String} : pyStr s ≤ pyStr t ↔ s ≤ t := by
  rw [← not_lt, ← not_lt, String.lt_iff_toList_lt, pyStr, pyStr, map_codePoint_lt]

/-- A text has no surrogates. -/
theorem pyStr_scalar (s : String) : ∀ a ∈ pyStr s, isSurrogate a = false :=
  List.forall_mem_map.mpr fun c _ => not_isSurrogate c

end Texts

section Pairs

theorem unpaired_of_scalar {s : PyStr} (h : ∀ a ∈ s, isSurrogate a = false) : unpaired s := by
  induction s with
  | nil => rfl
  | cons a s ih =>
    cases s with
    | nil => rfl
    | cons b s =>
      obtain ⟨ha, hs⟩ := List.forall_mem_cons.mp h
      have hno : isPair a b = false := by
        rw [isSurrogate, Bool.or_eq_false_iff] at ha
        rw [isPair, ha.1, Bool.false_and]
      rw [unpaired, hno, ih hs]
      rfl

@[simp] theorem unpaired_pyStr (s : String) : unpaired (pyStr s) := unpaired_of_scalar (pyStr_scalar s)

theorem joinPairs_of_unpaired {s : PyStr} (h : unpaired s) : joinPairs s = s := by
  induction s with
  | nil => rfl
  | cons a s ih =>
    cases s with
    | nil => rfl
    | cons b s =>
      rw [unpaired, Bool.and_eq_true, Bool.not_eq_true'] at h
      rw [joinPairs, h.1, ih h.2]
      rfl

@[simp] theorem joinPairs_pyStr (s : String) : joinPairs (pyStr s) = pyStr s := joinPairs_of_unpaired (unpaired_pyStr s)

/-- The first character of a joined string is the old one or above the surrogates. -/
theorem head_joinPairs {b : CodePoint} {s : PyStr} {c : CodePoint} {t : PyStr} (h : joinPairs (b :: s) = c :: t) :
    c = b ∨ 0x10000 ≤ (c : ℕ) := by
  cases s with
  | nil => exact .inl (List.cons.inj h).1.symm
  | cons d s =>
    rw [joinPairs] at h
    split at h
    case isTrue hpair => exact .inr ((List.cons.inj h).1 ▸ (pairPoint_val hpair).2)
    case isFalse => exact .inl (List.cons.inj h).1.symm

theorem unpaired_cons {a : CodePoint} {s : PyStr} (h : unpaired s) (hhead : ∀ b t, s = b :: t → isPair a b = false) :
    unpaired (a :: s) := by
  cases s with
  | nil => rfl
  | cons b s =>
    rw [unpaired, hhead b s rfl, h]
    rfl

/-- No pair is left or made. -/
theorem unpaired_joinPairs (s : PyStr) : unpaired (joinPairs s) := by
  induction s using joinPairs.induct with
  | case1 a b s hpair ih =>
    rw [joinPairs, if_pos hpair]
    refine unpaired_cons ih fun c t _ => ?_
    have hval := (pairPoint_val hpair).2
    have hhigh : isHighSurrogate (pairPoint a b) = false := by
      rw [isHighSurrogate, Bool.and_eq_false_iff, decide_eq_false_iff_not, decide_eq_false_iff_not]
      omega
    rw [isPair, hhigh, Bool.false_and]
  | case2 a b s hpair ih =>
    rw [joinPairs, if_neg hpair]
    refine unpaired_cons ih fun c t hc => ?_
    rcases head_joinPairs hc with rfl | hval
    · exact Bool.eq_false_of_not_eq_true hpair
    · have hlow : isLowSurrogate c = false := by
        rw [isLowSurrogate, Bool.and_eq_false_iff, decide_eq_false_iff_not, decide_eq_false_iff_not]
        omega
      rw [isPair, hlow, Bool.and_false]
  | case3 s hs =>
    cases s with
    | nil => rfl
    | cons a s =>
      cases s with
      | nil => rfl
      | cons b s => exact absurd rfl (hs a b s)

end Pairs
end NexusCone.CodePoints
