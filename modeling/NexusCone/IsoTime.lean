import NexusCone.PyValue

/-!
# Civil times and their ISO-8601 text

`strftime` is the format `%Y-%m-%dT%H:%M:%S.%fZ`, `parseIso` what reads it back. Which texts
`datetime.fromisoformat` reads and how a year before 1000 is written depend on the version of Python
and the C library under it: a `Platform` says. `fromIsoFormat` reads the forms documented for
Python 3.10, with an optional time of day, fraction and UTC offset.
-/
namespace NexusCone.IsoTime
open JsonText PyValue

def isLeap (year : ℕ) : Bool := year % 4 = 0 && (year % 100 ≠ 0 || year % 400 = 0)

def daysInMonth (year month : ℕ) : ℕ :=
  if month = 2 then (if isLeap year then 29 else 28)
  else if month = 4 ∨ month = 6 ∨ month = 9 ∨ month = 11 then 30 else 31

/-- A time of day. -/
structure Clock where
  hour : ℕ
  minute : ℕ
  second : ℕ
  microsecond : ℕ
  deriving DecidableEq

structure Civil where
  year : ℕ
  month : ℕ
  day : ℕ
  clock : Clock
  deriving DecidableEq

def Clock.Valid (c : Clock) : Prop :=
  c.hour < 24 ∧ c.minute < 60 ∧ c.second < 60 ∧ c.microsecond < 1000000

def Civil.Valid (c : Civil) : Prop :=
  1 ≤ c.year ∧ c.year ≤ 9999 ∧ 1 ≤ c.month ∧ c.month ≤ 12 ∧ 1 ≤ c.day ∧
    c.day ≤ daysInMonth c.year c.month ∧ c.clock.Valid

instance (c : Clock) : Decidable c.Valid := inferInstanceAs (Decidable (_ ∧ _))
instance (c : Civil) : Decidable c.Valid := inferInstanceAs (Decidable (_ ∧ _))

def dayMicroseconds : ℤ := 86400000000

def Clock.microseconds (c : Clock) : ℤ :=
  (((c.hour * 60 + c.minute) * 60 + c.second) * 1000000 + c.microsecond : ℕ)

def Clock.ofMicroseconds (n : ℕ) : Clock :=
  ⟨n / 3600000000, n / 60000000 % 60, n / 1000000 % 60, n % 1000000⟩

/-- A `datetime`: naive, or aware with a UTC offset in microseconds. -/
structure DateTime where
  civil : Civil
  offset : Option ℤ
  valid : civil.Valid ∧ ∀ o ∈ offset, -dayMicroseconds < o ∧ o < dayMicroseconds
  deriving DecidableEq

/-- An aware `datetime`. -/
structure AwareTime where
  civil : Civil
  offset : ℤ
  valid : civil.Valid ∧ -dayMicroseconds < offset ∧ offset < dayMicroseconds
  deriving DecidableEq

/-- A reading of `datetime.now(timezone.utc)` in a year that `%Y` writes with four digits. -/
structure UtcTime where
  civil : Civil
  valid : civil.Valid ∧ 1000 ≤ civil.year
  deriving DecidableEq

def AwareTime.toDateTime (t : AwareTime) : DateTime :=
  ⟨t.civil, some t.offset, t.valid.1, by rintro o ⟨⟩; exact t.valid.2⟩

def UtcTime.toAware (t : UtcTime) : AwareTime :=
  ⟨t.civil, 0, t.valid.1, by decide⟩

def UtcTime.toDateTime (t : UtcTime) : DateTime := t.toAware.toDateTime

/-- `gen_time.replace(tzinfo=timezone.utc)` where no zone was given. -/
def DateTime.assumeUtc (t : DateTime) : AwareTime :=
  match ho : t.offset with
  | some o => ⟨t.civil, o, t.valid.1, t.valid.2 o ho⟩
  | none => ⟨t.civil, 0, t.valid.1, by decide⟩

/-- The date before or after; `none` is the `OverflowError` at the ends of the calendar. -/
def Civil.dayBefore (c : Civil) : Option Civil :=
  if 1 < c.day then some { c with day := c.day - 1 }
  else if 1 < c.month then some { c with month := c.month - 1, day := daysInMonth c.year (c.month - 1) }
  else if 1 < c.year then some { c with year := c.year - 1, month := 12, day := 31 }
  else none

def Civil.dayAfter (c : Civil) : Option Civil :=
  if c.day < daysInMonth c.year c.month then some { c with day := c.day + 1 }
  else if c.month < 12 then some { c with month := c.month + 1, day := 1 }
  else if c.year < 9999 then some { c with year := c.year + 1, month := 1, day := 1 }
  else none

/-- `t.astimezone(timezone.utc)`. -/
def AwareTime.toUtc (t : AwareTime) : Option Civil :=
  let n := t.civil.clock.microseconds - t.offset
  if n < 0 then
    t.civil.dayBefore.map ({ · with clock := Clock.ofMicroseconds (n + dayMicroseconds).toNat })
  else if dayMicroseconds ≤ n then
    t.civil.dayAfter.map ({ · with clock := Clock.ofMicroseconds (n - dayMicroseconds).toNat })
  else some { t.civil with clock := Clock.ofMicroseconds n.toNat }

/-- The last `n` decimal digits of `v`. -/
def writeDigits : ℕ → ℕ → List Char
  | 0, _ => []
  | n + 1, v => digitChar (v / 10 ^ n % 10) :: writeDigits n v

/-- The year with four digits, then what follows a microsecond. -/
def isoChars (year : List Char) (c : Civil) (zone : List Char) : List Char :=
  year ++ '-' :: (writeDigits 2 c.month ++ '-' :: (writeDigits 2 c.day ++
    'T' :: (writeDigits 2 c.clock.hour ++ ':' :: (writeDigits 2 c.clock.minute ++
      ':' :: (writeDigits 2 c.clock.second ++ '.' :: (writeDigits 6 c.clock.microsecond ++ zone))))))

theorem offset_utc : ∀ o ∈ (some 0 : Option ℤ), -dayMicroseconds < o ∧ o < dayMicroseconds := by
  rintro o ⟨⟩
  decide

/-- What the version of Python and the C library under it decide: the texts that `datetime.fromisoformat`
reads, with the message of its `ValueError`, what `%Y` writes, and the message of the `ValueError` that
`urllib.parse.urlparse` raises on a URL. -/
class Platform where
  fromisoformat : List Char → Option DateTime
  fromisoformatError : List Char → String
  yearChars : ℕ → List Char
  urlparseError : String → Option String
  fromisoformat_utc : ∀ (c : Civil) (h : c.Valid), 1000 ≤ c.year →
    fromisoformat (isoChars (writeDigits 4 c.year) c "+00:00".toList) = some ⟨c, some 0, h, offset_utc⟩
  yearChars_eq : ∀ year, 1000 ≤ year → year ≤ 9999 → yearChars year = writeDigits 4 year

section Texts

variable [Platform]

def strftimeChars (c : Civil) : List Char := isoChars (Platform.yearChars c.year) c ['Z']

/-- `strftime("%Y-%m-%dT%H:%M:%S.%fZ")`. -/
def strftime (c : Civil) : String := String.ofList (strftimeChars c)

def replaceZ (cs : List Char) : List Char :=
  cs.flatMap fun c => if c = 'Z' then "+00:00".toList else [c]

/-- `datetime.fromisoformat(value.replace("Z", "+00:00"))`. -/
def parseIso (s : String) : Option DateTime := Platform.fromisoformat (replaceZ s.toList)

end Texts

def readDigits : ℕ → List Char → Option (ℕ × List Char)
  | 0, cs => some (0, cs)
  | _ + 1, [] => none
  | n + 1, c :: cs => if c.isDigit then
      (readDigits n cs).map fun p => (digitValue c * 10 ^ n + p.1, p.2) else none

def expect (c : Char) : List Char → Option (List Char)
  | d :: cs => if d = c then some cs else none
  | [] => none

/-- `fff` or `ffffff`. -/
def readFraction (cs : List Char) : Option (ℕ × List Char) :=
  (readDigits 3 cs).map fun p => match readDigits 3 p.2 with
    | some q => (p.1 * 1000 + q.1, q.2)
    | none => (p.1 * 1000, p.2)

def readSeconds (h m : ℕ) (cs : List Char) : Option (Clock × List Char) :=
  (readDigits 2 cs).bind fun p => match p.2 with
    | '.' :: ds => (readFraction ds).map fun q => (⟨h, m, p.1, q.1⟩, q.2)
    | ds => some (⟨h, m, p.1, 0⟩, ds)

def readMinutes (h : ℕ) (cs : List Char) : Option (Clock × List Char) :=
  (readDigits 2 cs).bind fun p => match p.2 with
    | ':' :: ds => readSeconds h p.1 ds
    | ds => some (⟨h, p.1, 0, 0⟩, ds)

/-- `HH[:MM[:SS[.fff[fff]]]]`. -/
def readClock (cs : List Char) : Option (Clock × List Char) :=
  (readDigits 2 cs).bind fun p => match p.2 with
    | ':' :: ds => readMinutes p.1 ds
    | ds => some (⟨p.1, 0, 0, 0⟩, ds)

/-- `HH:MM[:SS[.ffffff]]` after the sign of an offset; minutes and seconds may exceed 59. -/
def readOffset (sign : ℤ) (cs : List Char) : Option ℤ :=
  (readDigits 2 cs).bind fun p => match p.2 with
    | ':' :: ds => (readMinutes p.1 ds).bind fun q =>
      if q.2 = [] then some (sign * q.1.microseconds) else none
    | _ => none

/-- The time of day and offset that follow the date and its separator. -/
def readTime : List Char → Option (Clock × Option ℤ)
  | [] => some (⟨0, 0, 0, 0⟩, none)
  | _ :: cs => (readClock cs).bind fun p => match p.2 with
    | [] => some (p.1, none)
    | '+' :: ds => (readOffset 1 ds).map fun o => (p.1, some o)
    | '-' :: ds => (readOffset (-1) ds).map fun o => (p.1, some o)
    | _ => none

def readDate (cs : List Char) : Option (Clock → Civil) × List Char :=
  match readDigits 4 cs with
  | some (y, cs) => match (expect '-' cs).bind (readDigits 2) with
    | some (m, cs) => match (expect '-' cs).bind (readDigits 2) with
      | some (d, cs) => (some (Civil.mk y m d), cs)
      | none => (none, cs)
    | none => (none, cs)
  | none => (none, cs)

/-- `datetime.fromisoformat` of Python 3.10; `none` is its `ValueError`. -/
def fromIsoFormat (cs : List Char) : Option DateTime :=
  match readDate cs with
  | (none, _) => none
  | (some date, rest) => match readTime rest with
    | none => none
    | some (clock, offset) =>
      if h : (date clock).Valid ∧ ∀ o ∈ offset, -dayMicroseconds < o ∧ o < dayMicroseconds then
        some ⟨date clock, offset, h⟩
      else none

theorem readDigits_writeDigits (n v : ℕ) (rest : List Char) :
    readDigits n (writeDigits n v ++ rest) = some (v % 10 ^ n, rest) := by
  induction n with
  | zero => simp [readDigits, writeDigits, Nat.mod_one]
  | succ n ih =>
    have hlt : v / 10 ^ n % 10 < 10 := Nat.mod_lt _ (by norm_num)
    have hd : (digitChar (v / 10 ^ n % 10)).isDigit = true := by
      interval_cases v / 10 ^ n % 10 <;> rfl
    have hv : digitValue (digitChar (v / 10 ^ n % 10)) = v / 10 ^ n % 10 := by
      interval_cases v / 10 ^ n % 10 <;> rfl
    simp only [writeDigits, List.cons_append, readDigits, hd, if_true, ih, Option.map_some, hv]
    rw [Nat.pow_succ, Nat.mod_mul, Nat.mul_comm, Nat.add_comm]

theorem replaceZ_append (a b : List Char) : replaceZ (a ++ b) = replaceZ a ++ replaceZ b :=
  List.flatMap_append

theorem replaceZ_cons {c : Char} (h : c ≠ 'Z') (cs : List Char) : replaceZ (c :: cs) = c :: replaceZ cs := by
  rw [replaceZ, List.flatMap_cons, if_neg h]
  rfl

theorem replaceZ_writeDigits (n v : ℕ) : replaceZ (writeDigits n v) = writeDigits n v := by
  induction n with
  | zero => rfl
  | succ n ih =>
    have hlt : v / 10 ^ n % 10 < 10 := Nat.mod_lt _ (by norm_num)
    have hz : digitChar (v / 10 ^ n % 10) ≠ 'Z' := by
      interval_cases v / 10 ^ n % 10 <;> decide
    rw [writeDigits, replaceZ_cons hz, ih]

theorem replaceZ_isoChars (c : Civil) : replaceZ (isoChars (writeDigits 4 c.year) c ['Z']) =
    isoChars (writeDigits 4 c.year) c "+00:00".toList := by
  simp [isoChars, replaceZ_append, replaceZ_cons, replaceZ_writeDigits]
  rfl

theorem readFraction_writeDigits {v : ℕ} (h : v < 1000000) (rest : List Char) :
    readFraction (writeDigits 6 v ++ rest) = some (v, rest) := by
  have hsplit : writeDigits 6 v = writeDigits 3 (v / 1000) ++ writeDigits 3 v := by
    simp [writeDigits, Nat.div_div_eq_div_mul]
  rw [hsplit, List.append_assoc]
  simp only [readFraction, readDigits_writeDigits, Option.map_some]
  congr 2
  omega

theorem fromIsoFormat_utc (c : Civil) (hc : c.Valid) :
    fromIsoFormat (isoChars (writeDigits 4 c.year) c "+00:00".toList) = some ⟨c, some 0, hc, offset_utc⟩ := by
  obtain ⟨y, m, d, ⟨h, mi, s, us⟩⟩ := c
  obtain ⟨-, hy, -, hm, -, hd, hh, hmi, hs, hus⟩ := id hc
  have hd' : d < 100 := by
    have : daysInMonth y m ≤ 31 := by unfold daysInMonth; split_ifs <;> omega
    simp only at hd
    omega
  have hmod {n v : ℕ} (hv : v < 10 ^ n) : v % 10 ^ n = v := Nat.mod_eq_of_lt hv
  simp only at hy hm hh hmi hs hus
  have hdate : readDate (writeDigits 4 y ++ '-' :: (writeDigits 2 m ++ '-' :: (writeDigits 2 d ++ 'T' ::
        (writeDigits 2 h ++ ':' :: (writeDigits 2 mi ++ ':' :: (writeDigits 2 s ++ '.' ::
          (writeDigits 6 us ++ "+00:00".toList))))))) = (some (Civil.mk y m d), 'T' ::
        (writeDigits 2 h ++ ':' :: (writeDigits 2 mi ++ ':' :: (writeDigits 2 s ++ '.' ::
          (writeDigits 6 us ++ "+00:00".toList))))) := by
    simp only [readDate, readDigits_writeDigits, expect, if_true, Option.bind_some,
      hmod (n := 4) (v := y) (by omega), hmod (n := 2) (v := m) (by omega),
      hmod (n := 2) (v := d) (by omega)]
  have htime : readTime ('T' :: (writeDigits 2 h ++ ':' :: (writeDigits 2 mi ++ ':' ::
      (writeDigits 2 s ++ '.' :: (writeDigits 6 us ++ "+00:00".toList))))) =
      some (⟨h, mi, s, us⟩, some 0) := by
    simp only [readTime, readClock, readMinutes, readSeconds, readDigits_writeDigits,
      Option.bind_some, readFraction_writeDigits hus, Option.map_some,
      hmod (n := 2) (v := h) (by omega), hmod (n := 2) (v := mi) (by omega),
      hmod (n := 2) (v := s) (by omega)]
    rfl
  simp only [isoChars, fromIsoFormat, hdate, htime, dif_pos (And.intro hc offset_utc)]

/-- Python 3.10, with years of four digits; it refuses no URL that has a scheme. -/
instance python310 : Platform where
  fromisoformat := fromIsoFormat
  fromisoformatError cs := "Invalid isoformat string: " ++ quote (String.ofList cs)
  yearChars := writeDigits 4
  urlparseError _ := none
  fromisoformat_utc c h _ := fromIsoFormat_utc c h
  yearChars_eq _ _ _ := rfl

/-- Where `%Y` pads the year, that is so in every year. -/
theorem parseIso_padded {c : Civil} (h : c.Valid) : parseIso (strftime c) = some ⟨c, some 0, h, offset_utc⟩ := by
  have hchars : replaceZ (strftimeChars c) = isoChars (writeDigits 4 c.year) c "+00:00".toList := replaceZ_isoChars c
  rw [parseIso, strftime, String.toList_ofList, hchars]
  exact fromIsoFormat_utc c h

section Platforms

variable [Platform] {c : Civil}

theorem strftimeChars_eq (h : c.Valid) (hyear : 1000 ≤ c.year) :
    strftimeChars c = isoChars (writeDigits 4 c.year) c ['Z'] := by
  rw [strftimeChars, Platform.yearChars_eq c.year hyear h.2.1]

/-- Years of four digits are written in the same way everywhere. -/
theorem strftime_padded (t : UtcTime) : strftime t.civil = @strftime python310 t.civil := by
  rw [strftime, strftimeChars_eq t.valid.1 t.valid.2]
  rfl

/-- What `strftime` writes in a year of four digits reads back as the same time in UTC. -/
theorem parseIso_strftime_of_valid (h : c.Valid) (hyear : 1000 ≤ c.year) :
    parseIso (strftime c) = some ⟨c, some 0, h, offset_utc⟩ := by
  rw [parseIso, strftime, String.toList_ofList, strftimeChars_eq h hyear, replaceZ_isoChars]
  exact Platform.fromisoformat_utc c h hyear

/-- A clock reading written with `strftime` reads back as the same UTC time. -/
@[simp] theorem parseIso_strftime (t : UtcTime) : parseIso (strftime t.civil) = some t.toDateTime :=
  parseIso_strftime_of_valid t.valid.1 t.valid.2

end Platforms

end NexusCone.IsoTime
