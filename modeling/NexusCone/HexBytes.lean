import Mathlib.Data.List.Basic
import Mathlib.Tactic.IntervalCases

/-!
# Byte strings and their hexadecimal spelling

`hex` writes two lowercase digits a byte; `fromHex` reads pairs of digits of either
case and skips ASCII whitespace between the pairs, failing on anything else.
-/
namespace NexusCone.HexBytes

abbrev Bytes := List UInt8

def hexDigit (n : ℕ) : Char := if n < 10 then Char.ofNat (48 + n) else Char.ofNat (87 + n)

def hexValue (c : Char) : Option ℕ :=
  if 48 ≤ c.toNat ∧ c.toNat ≤ 57 then some (c.toNat - 48)
  else if 97 ≤ c.toNat ∧ c.toNat ≤ 102 then some (c.toNat - 87)
  else if 65 ≤ c.toNat ∧ c.toNat ≤ 70 then some (c.toNat - 55)
  else none

def hexPair (b : UInt8) : List Char := [hexDigit (b.toNat / 16), hexDigit (b.toNat % 16)]

def hexChars (bs : Bytes) : List Char := bs.flatMap hexPair

/-- `bytes.hex`. -/
def hex (bs : Bytes) : String := String.ofList (hexChars bs)

def isAsciiSpace (c : Char) : Bool := c.toNat = 32 || (9 ≤ c.toNat && c.toNat ≤ 13)

def fromHexChars : List Char → Option Bytes
  | [] => some []
  | [c] => if isAsciiSpace c then some [] else none
  | c :: d :: cs =>
    if isAsciiSpace c then fromHexChars (d :: cs)
    else match hexValue c, hexValue d with
      | some hi, some lo => (fromHexChars cs).map (UInt8.ofNat (16 * hi + lo) :: ·)
      | _, _ => none

/-- `bytes.fromhex`; `none` is its `ValueError`. -/
def fromHex (s : String) : Option Bytes := fromHexChars s.toList

theorem hexValue_hexDigit {n : ℕ} (h : n < 16) : hexValue (hexDigit n) = some n := by
  interval_cases n <;> rfl

theorem isAsciiSpace_hexDigit {n : ℕ} (h : n < 16) : isAsciiSpace (hexDigit n) = false := by
  interval_cases n <;> rfl

theorem fromHexChars_hexPair (b : UInt8) (cs : List Char) :
    fromHexChars (hexPair b ++ cs) = (fromHexChars cs).map (b :: ·) := by
  have hb : b.toNat < 256 := b.toNat_lt
  have hhi : b.toNat / 16 < 16 := by omega
  have hlo : b.toNat % 16 < 16 := by omega
  have hsum : 16 * (b.toNat / 16) + b.toNat % 16 = b.toNat := by omega
  simp [hexPair, fromHexChars, isAsciiSpace_hexDigit hhi, hexValue_hexDigit hhi,
    hexValue_hexDigit hlo, hsum]

theorem fromHexChars_hexChars (bs : Bytes) : fromHexChars (hexChars bs) = some bs := by
  induction bs with
  | nil => rfl
  | cons b bs ih =>
    have h := fromHexChars_hexPair b (hexChars bs)
    rw [ih] at h
    simpa [hexChars] using h

/-- What `hex` writes, `fromHex` reads back. -/
@[simp] theorem fromHex_hex (bs : Bytes) : fromHex (hex bs) = some bs := by
  simp [fromHex, hex, fromHexChars_hexChars]

@[simp] theorem length_hexChars (bs : Bytes) : (hexChars bs).length = 2 * bs.length := by
  induction bs with
  | nil => rfl
  | cons b bs ih =>
    have hs : hexChars (b :: bs) = hexPair b ++ hexChars bs := rfl
    rw [hs, List.length_append, ih]
    simp [hexPair]
    omega

theorem hexDigit_ascii {n : ℕ} (h : n < 16) : (hexDigit n).toNat < 128 := by
  interval_cases n <;> decide

/-- Hexadecimal text is ASCII, so it survives every later escaping unchanged. -/
theorem hexChars_ascii (bs : Bytes) : ∀ c ∈ hexChars bs, c.toNat < 128 := by
  intro c hc
  obtain ⟨b, -, hb⟩ := List.mem_flatMap.mp hc
  have h : b.toNat < 256 := b.toNat_lt
  simp only [hexPair, List.mem_cons, List.not_mem_nil, or_false] at hb
  rcases hb with rfl | rfl
  · exact hexDigit_ascii (by omega)
  · exact hexDigit_ascii (by omega)

example : fromHex "0a Ff" = some [10, 255] := by decide

end NexusCone.HexBytes
