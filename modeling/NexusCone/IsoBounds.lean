import NexusCone.CivilInstants

/-!
# Bounds of a time range as ISO-8601 text

A bound is written with zero to six digits of a second, and a stored time always with six. The texts are
ordered as the instants are, except that a bound of fewer digits comes after every time of its last unit:
the `Z` that ends it is greater than a digit and than the point.
-/
namespace NexusCone.IsoBounds
open JsonText IsoTime TimeOrder CivilInstants

/-- A time whose microseconds are zero after the first `digits` of their six digits. -/
structure IsoBound where
  civil : Civil
  digits : ℕ
  valid : civil.Valid
  digits_le : digits ≤ 6
  dvd : 10 ^ (6 - digits) ∣ civil.clock.microsecond

namespace IsoBound

/-- The microseconds of the last digit. -/
def unit (b : IsoBound) : ℕ := 10 ^ (6 - b.digits)

end IsoBound

/-- `%Y-%m-%dT%H:%M:%S`. -/
def secondChars (c : Civil) : List Char :=
  writeDigits 4 c.year ++ '-' :: writeDigits 2 c.month ++ '-' :: writeDigits 2 c.day ++
    'T' :: writeDigits 2 c.clock.hour ++ ':' :: writeDigits 2 c.clock.minute ++ ':' :: writeDigits 2 c.clock.second

namespace IsoBound

def fractionChars (b : IsoBound) : List Char :=
  if b.digits = 0 then [] else '.' :: writeDigits b.digits (b.civil.clock.microsecond / b.unit)

/-- `2026-01-01T12:00:00Z`, `2026-01-01T12:00:00.5Z` and so on. -/
def text (b : IsoBound) : String := String.ofList (secondChars b.civil ++ (b.fractionChars ++ ['Z']))

/-- The instant is one of the bound's last unit, which the bound does not write out. -/
def Covers (b : IsoBound) (t : ℤ) : Prop := b.digits < 6 ∧ instant b.civil ≤ t ∧ t < instant b.civil + b.unit

instance (b : IsoBound) (t : ℤ) : Decidable (b.Covers t) :=
  inferInstanceAs (Decidable (b.digits < 6 ∧ instant b.civil ≤ t ∧ t < instant b.civil + b.unit))

end IsoBound

section Digits

theorem writeDigits_length (n v : ℕ) : (writeDigits n v).length = n := by
  induction n with
  | zero => rfl
  | succ n ih => rw [writeDigits, List.length_cons, ih]

theorem writeDigits_add (m n v : ℕ) : writeDigits (m + n) v = writeDigits m (v / 10 ^ n) ++ writeDigits n v := by
  induction m with
  | zero => rw [Nat.zero_add, writeDigits, List.nil_append]
  | succ m ih =>
    rw [Nat.succ_add, writeDigits, ih, writeDigits, List.cons_append, Nat.div_div_eq_div_mul, ← pow_add, Nat.add_comm n m]

theorem digitChar_lt_z {n : ℕ} (h : n < 10) : digitChar n < 'Z' := by
  interval_cases n <;> decide

/-- Digits that go on come before the end of the text. -/
theorem writeDigits_lt_z {n : ℕ} (h : 0 < n) (v : ℕ) (xs ys : List Char) : writeDigits n v ++ xs < 'Z' :: ys := by
  obtain ⟨n, rfl⟩ := Nat.exists_eq_add_of_le' h
  rw [writeDigits, List.cons_append, List.cons_lt_cons_iff]
  exact .inl (digitChar_lt_z (Nat.mod_lt _ (by decide)))

/-- Of texts that begin with equally long ones, these decide first. -/
theorem append_lt_append {as bs xs ys : List Char} (h : as.length = bs.length) :
    as ++ xs < bs ++ ys ↔ as < bs ∨ as = bs ∧ xs < ys := by
  induction as generalizing bs with
  | nil =>
    obtain rfl := List.length_eq_zero_iff.mp h.symm
    simp
  | cons a as ih =>
    cases bs with
    | nil => cases h
    | cons b bs =>
      rw [List.cons_append, List.cons_append, List.cons_lt_cons_iff, List.cons_lt_cons_iff, ih (Nat.succ.inj h),
        List.cons.injEq]
      tauto

end Digits

section Seconds

variable {c c' : Civil}

def wholeSecond (c : Civil) : Civil := { c with clock := { c.clock with microsecond := 0 } }

theorem wholeSecond_valid (h : c.Valid) : (wholeSecond c).Valid := by
  obtain ⟨hyear, hyear', hmonth, hmonth', hday, hday', hhour, hminute, hsecond, -⟩ := h
  exact ⟨hyear, hyear', hmonth, hmonth', hday, hday', hhour, hminute, hsecond, Nat.succ_pos _⟩

/-- The seconds up to a time. -/
def seconds (c : Civil) : ℤ :=
  ordinal c * 86400 + ((c.clock.hour * 60 + c.clock.minute) * 60 + c.clock.second : ℕ)

theorem instant_eq (c : Civil) : instant c = seconds c * 1000000 + c.clock.microsecond := by
  unfold instant seconds Clock.microseconds dayMicroseconds
  push_cast
  ring

theorem instant_wholeSecond (c : Civil) : instant (wholeSecond c) = seconds c * 1000000 := by
  have h := instant_eq (wholeSecond c)
  exact h.trans (add_zero _)

theorem strftime_eq (c : Civil) : strftime c =
    String.ofList (secondChars c ++ '.' :: (writeDigits 6 c.clock.microsecond ++ ['Z'])) := by
  simp only [strftime, strftimeChars, isoChars, secondChars, List.append_assoc, List.cons_append]
  rfl

theorem secondChars_length (c : Civil) : (secondChars c).length = 19 := by
  simp only [secondChars, List.length_append, List.length_cons, writeDigits_length]

theorem secondChars_lt (h : c.Valid) (h' : c'.Valid) : secondChars c < secondChars c' ↔ seconds c < seconds c' := by
  have hlt := strftime_lt_iff (wholeSecond_valid h) (wholeSecond_valid h')
  rw [strftime_eq, strftime_eq, String.lt_iff_toList_lt, String.toList_ofList, String.toList_ofList,
    append_lt_append (by rw [secondChars_length, secondChars_length]), instant_wholeSecond, instant_wholeSecond] at hlt
  have hsame : ¬ ('.' :: (writeDigits 6 0 ++ ['Z']) < '.' :: (writeDigits 6 0 ++ ['Z'])) := lt_irrefl _
  have hleft : secondChars c < secondChars c' ↔ seconds c * 1000000 < seconds c' * 1000000 :=
    (or_iff_left fun hand => hsame hand.2).symm.trans hlt
  rw [hleft]
  omega

theorem secondChars_inj (h : c.Valid) (h' : c'.Valid) : secondChars c = secondChars c' ↔ seconds c = seconds c' := by
  have hlt := secondChars_lt h h'
  have hgt := secondChars_lt h' h
  constructor
  · intro heq
    rw [heq] at hlt hgt
    have hle : ¬ seconds c < seconds c' := fun hs => lt_irrefl _ (hlt.mpr hs)
    have hge : ¬ seconds c' < seconds c := fun hs => lt_irrefl _ (hgt.mpr hs)
    omega
  · intro heq
    rcases lt_trichotomy (secondChars c) (secondChars c') with hs | hs | hs
    · exact absurd heq (ne_of_lt (hlt.mp hs))
    · exact hs
    · exact absurd heq (ne_of_gt (hgt.mp hs))

end Seconds

section Order

variable {b : IsoBound} {c : Civil}

theorem unit_mul (b : IsoBound) : b.unit * 10 ^ b.digits = 1000000 := by
  rw [IsoBound.unit, ← pow_add, Nat.sub_add_cancel b.digits_le]
  rfl

theorem unit_pos (b : IsoBound) : 0 < b.unit := Nat.pow_pos (by decide)

/-- The bound's last unit ends with the second at the latest. -/
theorem microsecond_add_unit (b : IsoBound) : b.civil.clock.microsecond + b.unit ≤ 1000000 := by
  have hmicrosecond : b.civil.clock.microsecond < 1000000 := b.valid.2.2.2.2.2.2.2.2.2
  obtain ⟨f, hf⟩ : b.unit ∣ b.civil.clock.microsecond := b.dvd
  rw [hf, ← unit_mul b] at hmicrosecond ⊢
  have hlt : f < 10 ^ b.digits := lt_of_mul_lt_mul_left hmicrosecond (Nat.zero_le _)
  calc
    b.unit * f + b.unit = b.unit * (f + 1) := rfl
    _ ≤ b.unit * 10 ^ b.digits := Nat.mul_le_mul_left _ hlt

theorem fraction_lt (hdigits : b.digits < 6) {n : ℕ} (hn : n < 1000000) :
    '.' :: (writeDigits 6 n ++ ['Z']) < b.fractionChars ++ ['Z'] ↔ n < b.civil.clock.microsecond + b.unit := by
  have hmicrosecond := microsecond_add_unit b
  have hunit := unit_mul b
  have hpos := unit_pos b
  unfold IsoBound.fractionChars
  split_ifs with hzero
  · rw [hzero, pow_zero, mul_one] at hunit
    rw [List.nil_append, List.cons_lt_cons_iff]
    exact iff_of_true (.inl (by decide)) (by omega)
  · have hsplit : writeDigits 6 n = writeDigits b.digits (n / b.unit) ++ writeDigits (6 - b.digits) n := by
      rw [IsoBound.unit, ← writeDigits_add, Nat.add_sub_cancel' b.digits_le]
    have hfits {m : ℕ} (hm : m < 1000000) : m / b.unit % 10 ^ b.digits = m / b.unit := by
      refine Nat.mod_eq_of_lt (Nat.div_lt_of_lt_mul ?_)
      rwa [hunit]
    have hrest : writeDigits (6 - b.digits) n ++ ['Z'] < ['Z'] := writeDigits_lt_z (by omega) n _ _
    rw [hsplit, List.cons_append, List.cons_lt_cons_iff, List.append_assoc, writeDigits_lt, hfits hn, hfits (by omega)]
    obtain ⟨f, hf⟩ : b.unit ∣ b.civil.clock.microsecond := b.dvd
    have hdiv : n / b.unit < f + 1 ↔ n < b.civil.clock.microsecond + b.unit := by
      rw [Nat.div_lt_iff_lt_mul hpos, hf, Nat.succ_mul, Nat.mul_comm]
    rw [← hdiv, hf, Nat.mul_div_cancel_left f hpos]
    simp only [lt_irrefl, false_or, true_and, hrest, and_true]
    omega

/-- A stored time comes before a bound of fewer digits up to the end of the bound's last unit. -/
theorem strftime_lt_text (hc : c.Valid) (hdigits : b.digits < 6) :
    strftime c < b.text ↔ instant c < instant b.civil + b.unit := by
  have hmicrosecond : c.clock.microsecond < 1000000 := hc.2.2.2.2.2.2.2.2.2
  have hunit := microsecond_add_unit b
  rw [strftime_eq, IsoBound.text, String.lt_iff_toList_lt, String.toList_ofList, String.toList_ofList,
    append_lt_append (by rw [secondChars_length, secondChars_length]), secondChars_lt hc b.valid,
    secondChars_inj hc b.valid, fraction_lt hdigits hmicrosecond, instant_eq, instant_eq]
  omega

theorem strftime_ne_text (hdigits : b.digits < 6) : strftime c ≠ b.text := by
  intro heq
  have hlength := congrArg (fun s => s.toList.length) heq
  simp only [strftime_eq, IsoBound.text, String.toList_ofList, List.length_append, secondChars_length,
    List.length_cons, writeDigits_length, List.length_nil, IsoBound.fractionChars] at hlength
  split_ifs at hlength
  · cases hlength
  · simp only [List.length_cons, writeDigits_length] at hlength
    omega

/-- All six digits make the text of a stored time. -/
theorem text_eq_strftime (hdigits : b.digits = 6) : b.text = strftime b.civil := by
  have hunit : b.unit = 1 := by rw [IsoBound.unit, hdigits]; rfl
  have hfraction : b.fractionChars = '.' :: writeDigits 6 b.civil.clock.microsecond := by
    rw [IsoBound.fractionChars, hdigits, if_neg (by decide), hunit, Nat.div_one]
  rw [IsoBound.text, hfraction, strftime_eq, List.cons_append]

/-- The stored times not before the text of a bound: those not before the bound, without its last unit. -/
theorem text_le_strftime (hc : c.Valid) :
    b.text ≤ strftime c ↔ instant b.civil ≤ instant c ∧ ¬ b.Covers (instant c) := by
  rw [← not_lt]
  rcases Nat.lt_or_eq_of_le b.digits_le with hdigits | hdigits
  · rw [strftime_lt_text hc hdigits]
    unfold IsoBound.Covers
    have hpos := unit_pos b
    omega
  · rw [text_eq_strftime hdigits, strftime_lt_iff hc b.valid]
    unfold IsoBound.Covers
    omega

/-- The stored times not after the text of a bound: those not after the bound, and its last unit. -/
theorem strftime_le_text (hc : c.Valid) :
    strftime c ≤ b.text ↔ instant c ≤ instant b.civil ∨ b.Covers (instant c) := by
  rcases Nat.lt_or_eq_of_le b.digits_le with hdigits | hdigits
  · rw [le_iff_lt_or_eq, or_iff_left (strftime_ne_text hdigits), strftime_lt_text hc hdigits]
    unfold IsoBound.Covers
    have hpos := unit_pos b
    omega
  · rw [text_eq_strftime hdigits, ← not_lt, strftime_lt_iff b.valid hc]
    unfold IsoBound.Covers
    omega

end Order

end NexusCone.IsoBounds
