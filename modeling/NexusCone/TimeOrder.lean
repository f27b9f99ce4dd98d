import NexusCone.IsoTime
import Mathlib.Data.String.Basic
import Mathlib.Data.List.Lex

/-!
# The order of times

Times of one zone are ordered by their fields, the year first. The text that `strftime` writes has
every field in its place with all its digits, so texts are ordered as the times are; before the year
1000 that is so where `%Y` pads the year.
-/
namespace NexusCone.TimeOrder
open JsonText IsoTime

def fields (c : Civil) : List ℕ :=
  [c.year, c.month, c.day, c.clock.hour, c.clock.minute, c.clock.second, c.clock.microsecond]

instance : LE UtcTime := ⟨fun t t' => fields t.civil ≤ fields t'.civil⟩

instance (t t' : UtcTime) : Decidable (t ≤ t') := inferInstanceAs (Decidable (fields t.civil ≤ fields t'.civil))

theorem utcTime_le_refl (t : UtcTime) : t ≤ t := le_refl (fields t.civil)

theorem utcTime_le_trans {t₁ t₂ t₃ : UtcTime} (h : t₁ ≤ t₂) (h' : t₂ ≤ t₃) : t₁ ≤ t₃ :=
  le_trans (α := List ℕ) h h'

theorem digitChar_lt {a b : ℕ} (ha : a < 10) (hb : b < 10) : digitChar a < digitChar b ↔ a < b := by
  interval_cases a <;> interval_cases b <;> decide

theorem digitChar_inj {a b : ℕ} (ha : a < 10) (hb : b < 10) : digitChar a = digitChar b ↔ a = b := by
  interval_cases a <;> interval_cases b <;> decide

/-- A leading digit decides before what follows. -/
theorem leading_lt {a b p r s : ℕ} {q : Prop} (hr : r < p) (hs : s < p) :
    (a < b ∨ a = b ∧ (r < s ∨ r = s ∧ q)) ↔ (r + p * a < s + p * b ∨ r + p * a = s + p * b ∧ q) := by
  rcases Nat.lt_trichotomy a b with hlt | rfl | hgt
  · have hmul : p * (a + 1) ≤ p * b := Nat.mul_le_mul_left p hlt
    rw [Nat.mul_succ] at hmul
    exact iff_of_true (.inl hlt) (.inl (by omega))
  · simp
  · have hmul : p * (b + 1) ≤ p * a := Nat.mul_le_mul_left p hgt
    rw [Nat.mul_succ] at hmul
    refine iff_of_false ?_ ?_
    · rintro (h | ⟨h, -⟩) <;> omega
    · rintro (h | ⟨h, -⟩) <;> omega

theorem writeDigits_lt (n v v' : ℕ) (xs ys : List Char) :
    writeDigits n v ++ xs < writeDigits n v' ++ ys ↔
      v % 10 ^ n < v' % 10 ^ n ∨ v % 10 ^ n = v' % 10 ^ n ∧ xs < ys := by
  induction n with
  | zero => simp [writeDigits, Nat.mod_one]
  | succ n ih =>
    have hdigit (v : ℕ) : v / 10 ^ n % 10 < 10 := Nat.mod_lt _ (by decide)
    have hrest (v : ℕ) : v % 10 ^ n < 10 ^ n := Nat.mod_lt _ (Nat.pow_pos (by decide))
    rw [writeDigits, writeDigits, List.cons_append, List.cons_append, List.cons_lt_cons_iff,
      digitChar_lt (hdigit v) (hdigit v'), digitChar_inj (hdigit v) (hdigit v'), ih, Nat.mod_pow_succ,
      Nat.mod_pow_succ, leading_lt (hrest v) (hrest v')]

theorem isoText_lt {c c' : Civil} (h : c.Valid) (h' : c'.Valid) :
    String.ofList (isoChars (writeDigits 4 c.year) c ['Z']) < String.ofList (isoChars (writeDigits 4 c'.year) c' ['Z']) ↔
      fields c < fields c' := by
  -- Every field is below the power of ten that its width leaves room for.
  have hfits {c : Civil} (h : c.Valid) : c.year < 10 ^ 4 ∧ c.month < 10 ^ 2 ∧ c.day < 10 ^ 2 ∧
      c.clock.hour < 10 ^ 2 ∧ c.clock.minute < 10 ^ 2 ∧ c.clock.second < 10 ^ 2 ∧
      c.clock.microsecond < 10 ^ 6 := by
    obtain ⟨-, hyear, -, hmonth, -, hday, hhour, hminute, hsecond, hmicrosecond⟩ := h
    have hdays : daysInMonth c.year c.month ≤ 31 := by
      unfold daysInMonth
      split_ifs <;> omega
    omega
  obtain ⟨hyear, hmonth, hday, hhour, hminute, hsecond, hmicrosecond⟩ := hfits h
  obtain ⟨hyear', hmonth', hday', hhour', hminute', hsecond', hmicrosecond'⟩ := hfits h'
  rw [String.lt_iff_toList_lt, String.toList_ofList, String.toList_ofList]
  simp only [isoChars, fields, writeDigits_lt, List.cons_lt_cons_iff,
    lt_irrefl, false_or, true_and, and_false, or_false, Nat.mod_eq_of_lt hyear, Nat.mod_eq_of_lt hmonth, Nat.mod_eq_of_lt hday, Nat.mod_eq_of_lt hhour, Nat.mod_eq_of_lt hminute,
    Nat.mod_eq_of_lt hsecond, Nat.mod_eq_of_lt hmicrosecond, Nat.mod_eq_of_lt hyear', Nat.mod_eq_of_lt hmonth',
    Nat.mod_eq_of_lt hday', Nat.mod_eq_of_lt hhour', Nat.mod_eq_of_lt hminute', Nat.mod_eq_of_lt hsecond',
    Nat.mod_eq_of_lt hmicrosecond']

theorem strftime_lt {c c' : Civil} (h : c.Valid) (h' : c'.Valid) : strftime c < strftime c' ↔ fields c < fields c' :=
  isoText_lt h h'

section Platforms

variable [Platform]

theorem strftime_lt_of_year {c c' : Civil} (h : c.Valid) (hyear : 1000 ≤ c.year) (h' : c'.Valid)
    (hyear' : 1000 ≤ c'.year) : strftime c < strftime c' ↔ fields c < fields c' := by
  rw [strftime, strftime, strftimeChars_eq h hyear, strftimeChars_eq h' hyear']
  exact isoText_lt h h'

theorem strftime_le {t t' : UtcTime} : strftime t.civil ≤ strftime t'.civil ↔ t ≤ t' := by
  have h := strftime_lt_of_year t'.valid.1 t'.valid.2 t.valid.1 t.valid.2
  rw [← not_lt, h]
  exact not_lt (α := List ℕ)

end Platforms

end NexusCone.TimeOrder
