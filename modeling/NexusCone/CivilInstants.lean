import NexusCone.TimeOrder
import Mathlib.Order.Monotone.Basic
import Mathlib.Tactic.Linarith

/-!
# The instants of civil times

Microseconds counted through the calendar. The order of the fields is the order of the instants, and
the steps from day to day, `astimezone` and the subtraction of minutes do what they say to them.
-/
namespace NexusCone.CivilInstants
open IsoTime TimeOrder

def yearLength (year : ℕ) : ℕ := if isLeap year then 366 else 365

def daysBeforeYear : ℕ → ℕ
  | 0 => 0
  | year + 1 => daysBeforeYear year + yearLength year

def daysBeforeMonth (year : ℕ) : ℕ → ℕ
  | 0 => 0
  | 1 => 0
  | month + 2 => daysBeforeMonth year (month + 1) + daysInMonth year (month + 1)

/-- The number of the day. -/
def ordinal (c : Civil) : ℕ := daysBeforeYear c.year + daysBeforeMonth c.year c.month + c.day

/-- The microseconds up to a time of day. -/
def instant (c : Civil) : ℤ := ordinal c * dayMicroseconds + c.clock.microseconds

/-- The instant of a time; a naive one is taken for UTC. -/
def instantOf (t : DateTime) : ℤ := instant t.civil - t.offset.getD 0

section Days

theorem daysBeforeYear_mono : Monotone daysBeforeYear :=
  monotone_nat_of_le_succ fun _ => Nat.le_add_right _ _

theorem daysBeforeMonth_mono (year : ℕ) : Monotone (daysBeforeMonth year) := by
  refine monotone_nat_of_le_succ fun month => ?_
  cases month with
  | zero => exact le_refl 0
  | succ month => exact Nat.le_add_right _ _

theorem daysBeforeMonth_succ {year month : ℕ} (h : 1 ≤ month) :
    daysBeforeMonth year (month + 1) = daysBeforeMonth year month + daysInMonth year month := by
  obtain ⟨n, rfl⟩ := Nat.exists_eq_add_of_le' h
  rfl

/-- The months make up the year. -/
theorem daysBeforeMonth_end (year : ℕ) : daysBeforeMonth year 13 = yearLength year := by
  cases h : isLeap year <;> simp [daysBeforeMonth, daysInMonth, yearLength, h]

variable {c c' : Civil}

theorem ordinal_le_month (h : c.Valid) :
    ordinal c ≤ daysBeforeYear c.year + daysBeforeMonth c.year (c.month + 1) := by
  obtain ⟨-, -, hmonth, -, -, hday, -⟩ := h
  rw [daysBeforeMonth_succ hmonth, ordinal]
  omega

theorem ordinal_le_year (h : c.Valid) : ordinal c ≤ daysBeforeYear (c.year + 1) := by
  have hmonth : c.month + 1 ≤ 13 := Nat.succ_le_succ h.2.2.2.1
  calc
    ordinal c ≤ daysBeforeYear c.year + daysBeforeMonth c.year (c.month + 1) := ordinal_le_month h
    _ ≤ daysBeforeYear c.year + daysBeforeMonth c.year 13 :=
      Nat.add_le_add_left (daysBeforeMonth_mono c.year hmonth) _
    _ = daysBeforeYear (c.year + 1) := by rw [daysBeforeMonth_end, daysBeforeYear]

theorem lt_ordinal (h : c.Valid) : daysBeforeYear c.year + daysBeforeMonth c.year c.month < ordinal c := by
  obtain ⟨-, -, -, -, hday, -⟩ := h
  rw [ordinal]
  omega

theorem ordinal_lt_of_year (h : c.Valid) (h' : c'.Valid) (hyear : c.year < c'.year) : ordinal c < ordinal c' := by
  have hle : daysBeforeYear (c.year + 1) ≤ daysBeforeYear c'.year := daysBeforeYear_mono hyear
  have hend := ordinal_le_year h
  have hstart := lt_ordinal h'
  omega

theorem ordinal_lt_of_month (h : c.Valid) (h' : c'.Valid) (hyear : c.year = c'.year) (hmonth : c.month < c'.month) :
    ordinal c < ordinal c' := by
  have hle : daysBeforeMonth c.year (c.month + 1) ≤ daysBeforeMonth c.year c'.month :=
    daysBeforeMonth_mono c.year hmonth
  have hend := ordinal_le_month h
  have hstart := lt_ordinal h'
  rw [← hyear] at hstart
  omega

theorem daysInMonth_pos (year month : ℕ) : 1 ≤ daysInMonth year month := by
  unfold daysInMonth
  split_ifs <;> decide

/-- The day after has the next number. -/
theorem ordinal_dayAfter (h : c.Valid) (hafter : c.dayAfter = some c') :
    c'.Valid ∧ c'.clock = c.clock ∧ ordinal c' = ordinal c + 1 := by
  obtain ⟨year, month, day, clock⟩ := c
  obtain ⟨hyear, hyear', hmonth, hmonth', hday, hday', hclock⟩ := h
  simp only at hyear hyear' hmonth hmonth' hday hday' hclock
  unfold Civil.dayAfter at hafter
  split_ifs at hafter with hlast hdecember hend <;> cases hafter
  · exact ⟨⟨hyear, hyear', hmonth, hmonth', Nat.succ_pos _, hlast, hclock⟩, rfl, rfl⟩
  · refine ⟨⟨hyear, hyear', Nat.succ_pos _, hdecember, le_refl 1, daysInMonth_pos _ _, hclock⟩, rfl, ?_⟩
    simp only [ordinal, daysBeforeMonth_succ hmonth]
    simp only at hlast
    omega
  · simp only at hlast hdecember hend
    obtain rfl : month = 12 := by omega
    have hmonths : 1 ≤ 12 := by decide
    refine ⟨⟨Nat.succ_pos _, hend, le_refl 1, hmonths, le_refl 1, daysInMonth_pos _ _, hclock⟩, rfl, ?_⟩
    have hlength : daysBeforeMonth year 12 + daysInMonth year 12 = yearLength year := daysBeforeMonth_end year
    have hyears : daysBeforeYear (year + 1) = daysBeforeYear year + yearLength year := rfl
    have hjanuary : daysBeforeMonth (year + 1) 1 = 0 := rfl
    simp only [ordinal]
    omega

/-- The day before has the number before. -/
theorem ordinal_dayBefore (h : c.Valid) (hbefore : c.dayBefore = some c') :
    c'.Valid ∧ c'.clock = c.clock ∧ ordinal c' + 1 = ordinal c := by
  obtain ⟨year, month, day, clock⟩ := c
  obtain ⟨hyear, hyear', hmonth, hmonth', hday, hday', hclock⟩ := h
  simp only at hyear hyear' hmonth hmonth' hday hday' hclock
  unfold Civil.dayBefore at hbefore
  split_ifs at hbefore with hfirst hjanuary hend <;> cases hbefore
  · simp only at hfirst
    refine ⟨⟨hyear, hyear', hmonth, hmonth', by simp only; omega, by simp only; omega, hclock⟩, rfl, ?_⟩
    simp only [ordinal]
    omega
  · simp only at hfirst hjanuary
    obtain ⟨month, rfl⟩ := Nat.exists_eq_add_of_le' hjanuary
    refine ⟨⟨hyear, hyear', by simp only; omega, by simp only; omega, daysInMonth_pos _ _, le_refl _, hclock⟩, rfl, ?_⟩
    have hstep : daysBeforeMonth year (month + 2) = daysBeforeMonth year (month + 1) + daysInMonth year (month + 1) := rfl
    simp only [ordinal]
    show _ + daysBeforeMonth year (month + 1) + daysInMonth year (month + 1) + 1 = _ + daysBeforeMonth year (month + 2) + _
    omega
  · simp only at hfirst hjanuary hend
    obtain rfl : month = 1 := by omega
    obtain ⟨year, rfl⟩ := Nat.exists_eq_add_of_le' hend
    have hdecember : daysInMonth (year + 1) 12 = 31 := rfl
    have hmonths : 1 ≤ 12 ∧ 1 ≤ 31 := by decide
    refine ⟨⟨Nat.succ_pos _, by simp only; omega, hmonths.1, le_refl 12, hmonths.2, hdecember.ge, hclock⟩, rfl, ?_⟩
    have hlength : daysBeforeMonth (year + 1) 12 + daysInMonth (year + 1) 12 = yearLength (year + 1) :=
      daysBeforeMonth_end (year + 1)
    have hyears : daysBeforeYear (year + 2) = daysBeforeYear (year + 1) + yearLength (year + 1) := rfl
    have hjan : daysBeforeMonth (year + 2) 1 = 0 := rfl
    simp only [ordinal]
    show daysBeforeYear (year + 1) + daysBeforeMonth (year + 1) 12 + 31 + 1 =
      daysBeforeYear (year + 2) + daysBeforeMonth (year + 2) 1 + _
    omega

theorem ordinal_daysAfter {n : ℕ} (h : c.Valid) (hafter : (· >>= Civil.dayAfter)^[n] (some c) = some c') :
    c'.Valid ∧ c'.clock = c.clock ∧ ordinal c' = ordinal c + n := by
  induction n generalizing c' with
  | zero =>
    cases hafter
    exact ⟨h, rfl, rfl⟩
  | succ n ih =>
    rw [Function.iterate_succ_apply'] at hafter
    obtain ⟨c₁, h₁, hnext⟩ := Option.bind_eq_some_iff.mp hafter
    obtain ⟨hvalid, hclock, hordinal⟩ := ih h₁
    obtain ⟨hvalid', hclock', hordinal'⟩ := ordinal_dayAfter hvalid hnext
    exact ⟨hvalid', hclock'.trans hclock, by omega⟩

theorem ordinal_daysBefore {n : ℕ} (h : c.Valid) (hbefore : (· >>= Civil.dayBefore)^[n] (some c) = some c') :
    c'.Valid ∧ c'.clock = c.clock ∧ ordinal c' + n = ordinal c := by
  induction n generalizing c' with
  | zero =>
    cases hbefore
    exact ⟨h, rfl, rfl⟩
  | succ n ih =>
    rw [Function.iterate_succ_apply'] at hbefore
    obtain ⟨c₁, h₁, hnext⟩ := Option.bind_eq_some_iff.mp hbefore
    obtain ⟨hvalid, hclock, hordinal⟩ := ih h₁
    obtain ⟨hvalid', hclock', hordinal'⟩ := ordinal_dayBefore hvalid hnext
    exact ⟨hvalid', hclock'.trans hclock, by omega⟩

end Days

section Clocks

theorem microseconds_nonneg (c : Clock) : 0 ≤ c.microseconds := Int.natCast_nonneg _

theorem microseconds_lt {c : Clock} (h : c.Valid) : c.microseconds < dayMicroseconds := by
  obtain ⟨hhour, hminute, hsecond, hmicrosecond⟩ := h
  unfold Clock.microseconds dayMicroseconds
  omega

theorem ofMicroseconds_valid {n : ℕ} (h : (n : ℤ) < dayMicroseconds) : (Clock.ofMicroseconds n).Valid := by
  unfold dayMicroseconds at h
  unfold Clock.ofMicroseconds
  refine ⟨?_, ?_, ?_, ?_⟩ <;> simp only <;> omega

theorem microseconds_ofMicroseconds (n : ℕ) : (Clock.ofMicroseconds n).microseconds = n := by
  simp only [Clock.ofMicroseconds, Clock.microseconds]
  omega

variable {c c' : Civil}

theorem instant_lt_of_ordinal (h : c.Valid) (hlt : ordinal c < ordinal c') : instant c < instant c' := by
  have hclock := microseconds_lt h.2.2.2.2.2.2
  have hclock' := microseconds_nonneg c'.clock
  unfold dayMicroseconds at hclock
  unfold instant dayMicroseconds
  omega

theorem instant_lt_of_fields (h : c.Valid) (h' : c'.Valid) (hlt : fields c < fields c') : instant c < instant c' := by
  obtain ⟨year, month, day, ⟨hour, minute, second, microsecond⟩⟩ := c
  obtain ⟨year', month', day', ⟨hour', minute', second', microsecond'⟩⟩ := c'
  simp only [fields, List.cons_lt_cons_iff, List.not_lt_nil, and_false, or_false] at hlt
  rcases hlt with hyear | ⟨rfl, hmonth | ⟨rfl, hday | ⟨rfl, hclock⟩⟩⟩
  · exact instant_lt_of_ordinal h (ordinal_lt_of_year h h' hyear)
  · exact instant_lt_of_ordinal h (ordinal_lt_of_month h h' rfl hmonth)
  · exact instant_lt_of_ordinal h (Nat.add_lt_add_left hday _)
  · obtain ⟨-, -, -, -, -, -, hhour, hminute, hsecond, hmicrosecond⟩ := h
    obtain ⟨-, -, -, -, -, -, hhour', hminute', hsecond', hmicrosecond'⟩ := h'
    simp only at hhour hminute hsecond hmicrosecond hhour' hminute' hsecond' hmicrosecond'
    simp only [instant, ordinal, Clock.microseconds]
    omega

theorem fields_inj (h : fields c = fields c') : c = c' := by
  obtain ⟨year, month, day, ⟨hour, minute, second, microsecond⟩⟩ := c
  obtain ⟨year', month', day', ⟨hour', minute', second', microsecond'⟩⟩ := c'
  simp only [fields, List.cons.injEq, and_true] at h
  obtain ⟨rfl, rfl, rfl, rfl, rfl, rfl, rfl⟩ := h
  rfl

/-- The order of the fields is the order of the instants. -/
theorem fields_lt_iff (h : c.Valid) (h' : c'.Valid) : fields c < fields c' ↔ instant c < instant c' := by
  refine ⟨instant_lt_of_fields h h', fun hlt => ?_⟩
  rcases lt_trichotomy (fields c) (fields c') with hf | hf | hf
  · exact hf
  · rw [fields_inj hf] at hlt
    exact absurd hlt (lt_irrefl _)
  · exact absurd hlt (lt_asymm (instant_lt_of_fields h' h hf))

theorem instant_lt_of_year (h : c.Valid) (h' : c'.Valid) (hyear : c.year < c'.year) : instant c < instant c' :=
  instant_lt_of_fields h h' (List.cons_lt_cons_iff.mpr (.inl hyear))

/-- Written texts are ordered as the instants are. -/
theorem strftime_lt_iff (h : c.Valid) (h' : c'.Valid) : strftime c < strftime c' ↔ instant c < instant c' :=
  (strftime_lt h h').trans (fields_lt_iff h h')

/-- So are those of years with four digits, however the others are written. -/
theorem strftime_lt_iff_of_year [Platform] (h : c.Valid) (hyear : 1000 ≤ c.year) (h' : c'.Valid)
    (hyear' : 1000 ≤ c'.year) : strftime c < strftime c' ↔ instant c < instant c' :=
  (strftime_lt_of_year h hyear h' hyear').trans (fields_lt_iff h h')

end Clocks

section Zones

variable {c : Civil}

/-- Setting the clock of a day to a number of microseconds. -/
theorem instant_setClock {day : Civil} {n : ℤ} (hvalid : day.Valid) (h : 0 ≤ n) (hn : n < dayMicroseconds) :
    ({ day with clock := Clock.ofMicroseconds n.toNat } : Civil).Valid ∧
      instant { day with clock := Clock.ofMicroseconds n.toNat } = ordinal day * dayMicroseconds + n := by
  have hcast : (n.toNat : ℤ) = n := Int.toNat_of_nonneg h
  obtain ⟨hyear, hyear', hmonth, hmonth', hday, hday', -⟩ := hvalid
  refine ⟨⟨hyear, hyear', hmonth, hmonth', hday, hday', ofMicroseconds_valid (hcast.symm ▸ hn)⟩, ?_⟩
  show (ordinal day : ℤ) * dayMicroseconds + (Clock.ofMicroseconds n.toNat).microseconds = _
  rw [microseconds_ofMicroseconds, hcast]

/-- `astimezone(timezone.utc)` takes the offset off the instant. -/
theorem instant_toUtc {t : AwareTime} (h : t.toUtc = some c) : c.Valid ∧ instant c = instant t.civil - t.offset := by
  obtain ⟨hvalid, hlow, hhigh⟩ := t.valid
  have hclock := microseconds_lt hvalid.2.2.2.2.2.2
  have hclock' := microseconds_nonneg t.civil.clock
  unfold AwareTime.toUtc at h
  dsimp only at h
  unfold instant
  split_ifs at h with hbelow habove
  · obtain ⟨day, hday, rfl⟩ := Option.map_eq_some_iff.mp h
    obtain ⟨hday', -, hordinal⟩ := ordinal_dayBefore hvalid hday
    obtain ⟨hset, hinstant⟩ := instant_setClock hday' (n := t.civil.clock.microseconds - t.offset + dayMicroseconds)
      (by linarith) (by linarith)
    refine ⟨hset, hinstant.trans ?_⟩
    rw [← hordinal]
    push_cast
    ring
  · obtain ⟨day, hday, rfl⟩ := Option.map_eq_some_iff.mp h
    obtain ⟨hday', -, hordinal⟩ := ordinal_dayAfter hvalid hday
    obtain ⟨hset, hinstant⟩ := instant_setClock hday' (n := t.civil.clock.microseconds - t.offset - dayMicroseconds)
      (by linarith) (by linarith)
    refine ⟨hset, hinstant.trans ?_⟩
    rw [hordinal]
    push_cast
    ring
  · cases h
    obtain ⟨hset, hinstant⟩ := instant_setClock hvalid (n := t.civil.clock.microseconds - t.offset)
      (not_lt.mp hbelow) (not_le.mp habove)
    refine ⟨hset, hinstant.trans ?_⟩
    ring

end Zones
end NexusCone.CivilInstants
