import NexusCone.Canonical

/-!
# SHA-256 with its words as numbers

The same digest with the sixteen words of the window and the eight working variables passed as
natural numbers, each one evaluated before the next round. A closed digest is computed this way.
-/
namespace NexusCone.Sha256Words
open HexBytes Sha256 Canonical

/-- Passes a number on once it is evaluated. -/
def force {α : Type} : ℕ → (ℕ → α) → α
  | 0, k => k 0
  | n + 1, k => k n.succ

@[simp] theorem force_eq {α : Type} (n : ℕ) (k : ℕ → α) : force n k = k n := by
  cases n <;> rfl

def rotrNat (x n : ℕ) : ℕ := (x >>> n) ||| (x <<< (32 - n) % 4294967296)

def sigma0Nat (x : ℕ) : ℕ := rotrNat x 7 ^^^ rotrNat x 18 ^^^ (x >>> 3)
def sigma1Nat (x : ℕ) : ℕ := rotrNat x 17 ^^^ rotrNat x 19 ^^^ (x >>> 10)
def bigSigma0Nat (x : ℕ) : ℕ := rotrNat x 2 ^^^ rotrNat x 13 ^^^ rotrNat x 22
def bigSigma1Nat (x : ℕ) : ℕ := rotrNat x 6 ^^^ rotrNat x 11 ^^^ rotrNat x 25
def chooseNat (x y z : ℕ) : ℕ := (x &&& y) ^^^ ((4294967295 - x) &&& z)
def majorityNat (x y z : ℕ) : ℕ := (x &&& y) ^^^ (x &&& z) ^^^ (y &&& z)

theorem toNat_rotr (x n : UInt32) (h0 : 0 < n.toNat) (h : n.toNat < 32) :
    (rotr x n).toNat = rotrNat x.toNat n.toNat := by
  have h32 : (32 - n).toNat = 32 - n.toNat :=
    UInt32.toNat_sub_of_le _ _ (UInt32.le_iff_toNat_le.mpr (by simpa using h.le))
  simp only [rotr, rotrNat, UInt32.toNat_or, UInt32.toNat_shiftRight, UInt32.toNat_shiftLeft, h32]
  rw [Nat.mod_eq_of_lt h, Nat.mod_eq_of_lt (show 32 - n.toNat < 32 by omega)]

@[simp] theorem toNat_sigma0 (x : UInt32) : (sigma0 x).toNat = sigma0Nat x.toNat := by
  simp [sigma0, sigma0Nat, toNat_rotr]

@[simp] theorem toNat_sigma1 (x : UInt32) : (sigma1 x).toNat = sigma1Nat x.toNat := by
  simp [sigma1, sigma1Nat, toNat_rotr]

@[simp] theorem toNat_bigSigma0 (x : UInt32) : (bigSigma0 x).toNat = bigSigma0Nat x.toNat := by
  simp [bigSigma0, bigSigma0Nat, toNat_rotr]

@[simp] theorem toNat_bigSigma1 (x : UInt32) : (bigSigma1 x).toNat = bigSigma1Nat x.toNat := by
  simp [bigSigma1, bigSigma1Nat, toNat_rotr]

@[simp] theorem toNat_choose (x y z : UInt32) :
    (choose x y z).toNat = chooseNat x.toNat y.toNat z.toNat := by
  simp [choose, chooseNat, UInt32.toNat_not]

@[simp] theorem toNat_majority (x y z : UInt32) :
    (majority x y z).toNat = majorityNat x.toNat y.toNat z.toNat := by
  simp [majority, majorityNat]

def wordsOfNats : List ℕ → Words
  | [a, b, c, d, e, f, g, h] =>
    ⟨.ofNat a, .ofNat b, .ofNat c, .ofNat d, .ofNat e, .ofNat f, .ofNat g, .ofNat h⟩
  | _ => initialWords

/-- The rounds over a window of sixteen words and the eight working variables. -/
def roundsNat : List ℕ → (w0 w1 w2 w3 w4 w5 w6 w7 w8 w9 w10 w11 w12 w13 w14 w15 a b c d e f g h : ℕ) → List ℕ
  | [], _, _, _, _, _, _, _, _, _, _, _, _, _, _, _, _, a, b, c, d, e, f, g, h => [a, b, c, d, e, f, g, h]
  | k :: ks, w0, w1, w2, w3, w4, w5, w6, w7, w8, w9, w10, w11, w12, w13, w14, w15, a, b, c, d, e, f, g, h =>
    force (h + bigSigma1Nat e + chooseNat e f g + k + w0) fun t =>
    force ((t + (bigSigma0Nat a + majorityNat a b c)) % 4294967296) fun a' =>
    force ((d + t) % 4294967296) fun e' =>
    force ((sigma1Nat w14 + w9 + sigma0Nat w1 + w0) % 4294967296) fun w' =>
    roundsNat ks w1 w2 w3 w4 w5 w6 w7 w8 w9 w10 w11 w12 w13 w14 w15 w' a' a b c e' e f g

theorem rounds_eq (ks : List UInt32) (w0 w1 w2 w3 w4 w5 w6 w7 w8 w9 w10 w11 w12 w13 w14 w15 : UInt32) (s : Words) :
    rounds ks [w0, w1, w2, w3, w4, w5, w6, w7, w8, w9, w10, w11, w12, w13, w14, w15] s =
      wordsOfNats (roundsNat (ks.map UInt32.toNat) w0.toNat w1.toNat w2.toNat w3.toNat w4.toNat w5.toNat
        w6.toNat w7.toNat w8.toNat w9.toNat w10.toNat w11.toNat w12.toNat w13.toNat w14.toNat w15.toNat
        s.a.toNat s.b.toNat s.c.toNat s.d.toNat s.e.toNat s.f.toNat s.g.toNat s.h.toNat) := by
  induction ks generalizing w0 w1 w2 w3 w4 w5 w6 w7 w8 w9 w10 w11 w12 w13 w14 w15 s with
  | nil => simp [rounds, roundsNat, wordsOfNats]
  | cons k ks ih =>
    simp only [rounds, List.map_cons, roundsNat, force_eq, List.cons_append, List.nil_append]
    rw [ih]
    simp only [nextWord, Sha256.round, List.getD_cons_zero, List.getD_cons_succ, UInt32.toNat_add, toNat_sigma0,
      toNat_sigma1, toNat_bigSigma0, toNat_bigSigma1, toNat_choose, toNat_majority, Nat.add_mod_mod,
      Nat.mod_add_mod]

def compressNat (s : Words) (block : Bytes) : Words :=
  match wordsOfBytes block with
  | [w0, w1, w2, w3, w4, w5, w6, w7, w8, w9, w10, w11, w12, w13, w14, w15] =>
    let t := wordsOfNats (roundsNat (roundConstants.map UInt32.toNat) w0.toNat w1.toNat w2.toNat w3.toNat w4.toNat
      w5.toNat w6.toNat w7.toNat w8.toNat w9.toNat w10.toNat w11.toNat w12.toNat w13.toNat w14.toNat w15.toNat
      s.a.toNat s.b.toNat s.c.toNat s.d.toNat s.e.toNat s.f.toNat s.g.toNat s.h.toNat)
    ⟨s.a + t.a, s.b + t.b, s.c + t.c, s.d + t.d, s.e + t.e, s.f + t.f, s.g + t.g, s.h + t.h⟩
  | _ => compress s block

theorem compress_eq (s : Words) (block : Bytes) : compress s block = compressNat s block := by
  unfold compressNat
  split
  next hwords => simp only [compress, hwords, rounds_eq]
  next => rfl

def compressBlocksNat : ℕ → Bytes → Words → Words
  | 0, _, s => s
  | n + 1, bs, s => compressBlocksNat n (bs.drop 64) (compressNat s (bs.take 64))

theorem compressBlocks_eq (n : ℕ) (bs : Bytes) (s : Words) :
    compressBlocks n bs s = compressBlocksNat n bs s := by
  induction n generalizing bs s with
  | zero => rfl
  | succ n ih => rw [compressBlocks, compressBlocksNat, compress_eq, ih]

def digest : Words → Bytes
  | ⟨a, b, c, d, e, f, g, h⟩ =>
    bytesOfWord a ++ bytesOfWord b ++ bytesOfWord c ++ bytesOfWord d ++ bytesOfWord e ++ bytesOfWord f ++
      bytesOfWord g ++ bytesOfWord h

def sha256Nat (message : Bytes) : Bytes :=
  digest (compressBlocksNat ((pad message).length / 64) (pad message) initialWords)

theorem sha256_eq (message : Bytes) : sha256 message = sha256Nat message := by
  rw [sha256, sha256Nat, compressBlocks_eq]
  rfl

/-- The digest of a text given by its characters. -/
theorem sha256Hex_ofList {cs digits : List Char}
    (h : hexChars (sha256Nat (cs.flatMap String.utf8EncodeChar)) = digits) :
    sha256Hex (String.ofList cs) = String.ofList digits := by
  rw [sha256Hex, utf8_ofList, sha256_eq, hex, h]

end NexusCone.Sha256Words
