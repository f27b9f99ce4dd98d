import NexusCone.JsonKeyOrder
import NexusCone.WitnessHistories

/-!
# Canonical JSON as an encoding

The canonical text determines a value up to the order of its keys, and the text under a hash determines
what kind of row it belongs to and which payload text it covers.
-/
namespace NexusCone.CanonicalForms
open CodePoints JsonText JsonKeyOrder PyValue Canonical LedgerSchema EntryChain WitnessChain WitnessHistories

section Values

variable {u v : Json}

theorem canonicalText_eq_iff (hu : DistinctKeys u) (hpu : Unpaired u) (hpv : Unpaired v) :
    canonicalText u = canonicalText v ↔ Reordered u v := by
  rw [← sortKeys_eq_iff hu]
  refine ⟨canonicalText_injective hpu hpv, fun h => ?_⟩
  rw [canonicalText, canonicalText, h]

theorem canonicalJson_eq_iff (hu : DistinctKeys u) (hpu : Unpaired u) (hpv : Unpaired v) :
    canonicalJson (ofJson u) = canonicalJson (ofJson v) ↔ Reordered u v := by
  rw [canonicalJson_ofJson, canonicalJson_ofJson, Except.ok.injEq, canonicalText_eq_iff hu hpu hpv]

theorem loads_canonicalText (hu : DistinctKeys u) (hpu : Unpaired u) : loads (canonicalText u) = some (sortKeys u) :=
  loads_sortKeys hu hpu

theorem canonicalText_sortKeys (hu : DistinctKeys u) : canonicalText (sortKeys u) = canonicalText u := by
  rw [canonicalText, canonicalText, sortKeys_sortKeys hu]

end Values

section Preimages

/-- The text under an entry's hash determines the payload text. -/
theorem payload_of_hashedText {r s : EntryRow} (h : hashedText r = hashedText s) : r.payload = s.payload := by
  let r' : EntryRow := { r with entryHash := s.entryHash }
  have hsame : SameHashed r' s := hashedText_injective h rfl
  exact hsame.payload

theorem hashedText_ne_hashedText {r s : EntryRow} (hr : r.formatVersion < 2) (hs : s.formatVersion ≥ 2) :
    hashedText r ≠ hashedText s := by
  intro h
  let r' : EntryRow := { r with entryHash := s.entryHash }
  have hsame : SameHashed r' s := hashedText_injective h rfl
  have hversion : r.formatVersion ≥ 2 := hsame.formula.mpr hs
  omega

/-- No entry has the fields of an attestation. -/
theorem hashedText_ne_attestationText (r : EntryRow) (a : AttestationRow) : hashedText r ≠ attestationText a := by
  intro h
  have hkeys := canonicalText_injective (unpaired_entryFields ..) (unpaired_attestationFields ..) h
  rw [sortKeys_entryFields, sortKeys_attestationFields] at hkeys
  simp [field] at hkeys

end Preimages

/-- Canonical JSON is injective up to the order of keys, what it writes reads back, and reading and writing
again gives the same text. Two entries with the same text under their hashes have the same payload up to
the order of keys, and the texts under the hashes of entries of either format and of attestations differ.
Strings of scalar values have no surrogates; lone ones do no harm. -/
theorem canonicalJson_canonical (u v : Json) (hu : DistinctKeys u) (hpu : Unpaired u) (hpv : Unpaired v) :
    (canonicalJson (ofJson u) = canonicalJson (ofJson v) ↔ Reordered u v) ∧
    (∃ text w, canonicalJson (ofJson u) = .ok text ∧ loads text = some w ∧ DistinctKeys w ∧ Reordered w u ∧
      canonicalJson (ofJson w) = .ok text) ∧
    (∀ r s : EntryRow, canonicalJson (ofJson u) = .ok r.payload → canonicalJson (ofJson v) = .ok s.payload →
      hashedText r = hashedText s → Reordered u v) ∧
    ∀ (r s : EntryRow) (a : AttestationRow), r.formatVersion < 2 → s.formatVersion ≥ 2 →
      hashedText r ≠ hashedText s ∧ hashedText r ≠ attestationText a ∧ hashedText s ≠ attestationText a := by
  refine ⟨canonicalJson_eq_iff hu hpu hpv, ⟨canonicalText u, sortKeys u, canonicalJson_ofJson u,
    loads_canonicalText hu hpu, distinctKeys_sortKeys.mpr hu, (reordered_sortKeys u).symm, ?_⟩, fun r s hr hs h => ?_, fun r s a hr hs => ?_⟩
  · rw [canonicalJson_ofJson, canonicalText_sortKeys hu]
  · rw [← canonicalJson_eq_iff hu hpu hpv, hr, hs, payload_of_hashedText h]
  · exact ⟨hashedText_ne_hashedText hr hs, hashedText_ne_attestationText r a, hashedText_ne_attestationText s a⟩

/-- An object and the same with its keys in another order. -/
theorem canonicalJson_canonical_swapped :
    let u : Json := .obj [("b", .arr [.int 1, .null]), ("a", .str "é")]
    let v : Json := .obj [("a", .str "é"), ("b", .arr [.int 1, .null])]
    canonicalJson (ofJson u) = canonicalJson (ofJson v) ∧ u ≠ v := by
  intro u v
  have hu : DistinctKeys u := ⟨by decide, ⟨trivial, trivial, trivial⟩, trivial, trivial⟩
  have hpu : Unpaired u := by simp [u, Unpaired, UnpairedMembers, UnpairedElements]
  have hpv : Unpaired v := by simp [v, Unpaired, UnpairedMembers, UnpairedElements]
  refine ⟨(canonicalJson_canonical u v hu hpu hpv).1.mpr (.order (.swap _ _ _)), ?_⟩
  simp [u, v]

end NexusCone.CanonicalForms
