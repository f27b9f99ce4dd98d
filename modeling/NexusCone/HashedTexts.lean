import NexusCone.EntryChain
import NexusCone.Sha256Words
import NexusCone.WitnessChain

/-!
# The hashed texts, character by character

The canonical texts of an entry and of an attestation, with their keys in the order in which they
are written. A hash of given texts is computed from these.
-/
namespace NexusCone.HashedTexts
open HexBytes CodePoints JsonText Canonical EntryChain WitnessChain Sha256Words

def quoted (cs : List Char) : List Char := stringChars (cs.map codePoint)

def member (key value : List Char) : List Char := quoted key ++ ':' :: value

def entryChars (entryId : ℤ) (timestamp actor action payload previousHash eventType : List Char)
    (formatVersion : ℤ) : List Char :=
  '{' :: member ['a', 'c', 't', 'i', 'o', 'n'] (quoted action) ++
    ',' :: member ['a', 'c', 't', 'o', 'r'] (quoted actor) ++
    ',' :: member ['e', 'n', 't', 'r', 'y', '_', 'i', 'd'] (intChars entryId) ++
    (if formatVersion ≥ 2 then
      ',' :: member ['e', 'v', 'e', 'n', 't', '_', 't', 'y', 'p', 'e'] (quoted eventType) else []) ++
    ',' :: member ['p', 'a', 'y', 'l', 'o', 'a', 'd'] (quoted payload) ++
    ',' :: member ['p', 'r', 'e', 'v', 'i', 'o', 'u', 's', '_', 'h', 'a', 's', 'h'] (quoted previousHash) ++
    ',' :: member ['t', 'i', 'm', 'e', 's', 't', 'a', 'm', 'p'] (quoted timestamp) ++ ['}']

theorem dumps_entryFields (entryId : ℤ) (timestamp actor action payload previousHash eventType : List Char)
    (formatVersion : ℤ) :
    dumps (sortKeys (entryFields entryId (.ofList timestamp) (.ofList actor) (.ofList action) (.ofList payload)
      (.ofList previousHash) (.ofList eventType) formatVersion)) =
      entryChars entryId timestamp actor action payload previousHash eventType formatVersion := by
  rw [sortKeys_entryFields, entryChars]
  split_ifs <;> simp [dumps, dumpsMembers, field, member, quoted, pyStr]

theorem computeEntryHash_ofList {entryId : ℤ}
    {timestamp actor action payload previousHash eventType digits : List Char} {formatVersion : ℤ}
    (h : hexChars (sha256Nat ((entryChars entryId timestamp actor action payload previousHash eventType
      formatVersion).flatMap String.utf8EncodeChar)) = digits) :
    computeEntryHash entryId (.ofList timestamp) (.ofList actor) (.ofList action) (.ofList payload)
      (.ofList previousHash) (.ofList eventType) formatVersion = .ofList digits := by
  rw [computeEntryHash, canonicalText, dumps_entryFields]
  exact sha256Hex_ofList h

def attestationChars (witnessId chainHeadEntryId : ℤ) (chainHeadHash signedAt prev : List Char) : List Char :=
  '{' :: member ['c', 'h', 'a', 'i', 'n', '_', 'h', 'e', 'a', 'd', '_', 'e', 'n', 't', 'r', 'y', '_', 'i', 'd']
      (intChars chainHeadEntryId) ++
    ',' :: member ['c', 'h', 'a', 'i', 'n', '_', 'h', 'e', 'a', 'd', '_', 'h', 'a', 's', 'h']
      (quoted chainHeadHash) ++
    ',' :: member ['p', 'r', 'e', 'v', '_', 'a', 't', 't', 'e', 's', 't', 'a', 't', 'i', 'o', 'n', '_', 'h', 'a', 's',
      'h'] (quoted prev) ++
    ',' :: member ['s', 'i', 'g', 'n', 'e', 'd', '_', 'a', 't'] (quoted signedAt) ++
    ',' :: member ['w', 'i', 't', 'n', 'e', 's', 's', '_', 'i', 'd'] (intChars witnessId) ++ ['}']

theorem dumps_attestationFields (witnessId chainHeadEntryId : ℤ) (chainHeadHash signedAt prev : List Char) :
    dumps (sortKeys (attestationFields witnessId chainHeadEntryId (.ofList chainHeadHash) (.ofList signedAt)
      (.ofList prev))) = attestationChars witnessId chainHeadEntryId chainHeadHash signedAt prev := by
  rw [sortKeys_attestationFields, attestationChars]
  simp [dumps, dumpsMembers, field, member, quoted, pyStr]

theorem computeWitnessAttestationHash_ofList {witnessId chainHeadEntryId : ℤ}
    {chainHeadHash signedAt prev digits : List Char}
    (h : hexChars (sha256Nat ((attestationChars witnessId chainHeadEntryId chainHeadHash signedAt
      prev).flatMap String.utf8EncodeChar)) = digits) :
    computeWitnessAttestationHash witnessId chainHeadEntryId (.ofList chainHeadHash) (.ofList signedAt)
      (.ofList prev) = .ofList digits := by
  rw [computeWitnessAttestationHash, canonicalText, dumps_attestationFields]
  exact sha256Hex_ofList h

end NexusCone.HashedTexts
