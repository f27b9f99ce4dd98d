import NexusCone.HashedTexts
import NexusCone.IsoTime

/-!
# Tamper evidence of the chain

Two tables that the walk accepts and that share an entry hash agree, in every column the hashes
cover, up to the row that bears it. The hypotheses on SHA-256 are about the texts the two
tables hash, not about all texts.
-/
namespace NexusCone.ChainTamperEvidence
open PyValue Canonical HashChain LedgerSchema EntryChain

/-- The texts under the hashes of the rows. -/
def HashedIn (rows : List EntryRow) (text : String) : Prop := ∃ r ∈ rows, text = hashedText r

variable {xs ys : List EntryRow}

theorem sameHashed_of_entryHash (hx : Chained xs) (hy : Chained ys)
    (hcol : NoCollision (HashedIn (xs ++ ys))) {r s : EntryRow} (hr : r ∈ xs) (hs : s ∈ ys)
    (h : r.entryHash = s.entryHash) : SameHashed r s := by
  refine hashedText_injective (hcol _ _ ⟨r, by simp [hr], rfl⟩ ⟨s, by simp [hs], rfl⟩ ?_) h
  rw [← recomputed_eq, ← recomputed_eq, ← hx.hashed r hr, ← hy.hashed s hs]
  exact h

theorem entryHash_ne_genesis (hx : Chained xs)
    (hzero : ∀ text, HashedIn xs text → sha256Hex text ≠ genesisPreviousHash) :
    ∀ r ∈ xs, r.entryHash ≠ genesisPreviousHash := by
  intro r hr
  rw [hx.hashed r hr]
  exact hzero _ ⟨r, hr, rfl⟩

theorem chained_agreement (hx : Chained xs) (hy : Chained ys)
    (hcol : NoCollision (HashedIn (xs ++ ys)))
    (hzero : ∀ text, HashedIn (xs ++ ys) text → sha256Hex text ≠ genesisPreviousHash)
    {i j : ℕ} (hi : i < xs.length) (hj : j < ys.length) (h : xs[i].entryHash = ys[j].entryHash) :
    i = j ∧ ∀ k (hk : k ≤ i), ∃ hk' : k < ys.length, SameHashed xs[k] ys[k] := by
  refine agreement hx.linked hy.linked ?_ (fun _ _ h => h.previousHash) ?_ ?_ hi hj h
  · exact fun r hr s hs => sameHashed_of_entryHash hx hy hcol hr hs
  · exact entryHash_ne_genesis hx fun text ⟨r, hr, ht⟩ => hzero text ⟨r, by simp [hr], ht⟩
  · exact entryHash_ne_genesis hy fun text ⟨r, hr, ht⟩ => hzero text ⟨r, by simp [hr], ht⟩

theorem prefix_agreement {verifier verifier' : Option Verifier} {m n : ℕ}
    (hx : verifyChain verifier xs = .ok m) (hy : verifyChain verifier' ys = .ok n)
    (hcol : NoCollision (HashedIn (xs ++ ys)))
    (hzero : ∀ text, HashedIn (xs ++ ys) text → sha256Hex text ≠ genesisPreviousHash) :
    (∀ i j (hi : i < xs.length) (hj : j < ys.length), xs[i].entryHash = ys[j].entryHash →
      i = j ∧ ∀ k (hk : k ≤ i), ∃ hk' : k < ys.length, SameHashed xs[k] ys[k]) ∧
    ((∀ r ∈ xs, r ∈ ys) → xs <+: ys) := by
  have hcx := (verifyChain_ok hx).2
  have hcy := (verifyChain_ok hy).2
  have hagree {i j : ℕ} (hi : i < xs.length) (hj : j < ys.length) :=
    chained_agreement hcx hcy hcol hzero hi hj
  refine ⟨fun i j hi hj => hagree hi hj, fun hmem => ?_⟩
  -- A row of the second table stands at the same place in both.
  have hplace (k : ℕ) (hk : k < xs.length) : ∃ hk' : k < ys.length, xs[k] = ys[k] := by
    obtain ⟨j, hj, hjk⟩ := List.getElem_of_mem (hmem _ (List.getElem_mem hk))
    obtain ⟨rfl, -⟩ := hagree hk hj (congrArg EntryRow.entryHash hjk.symm)
    exact ⟨hj, hjk.symm⟩
  refine List.prefix_iff_getElem.mpr ⟨?_, fun k hk => (hplace k hk).2⟩
  by_contra hlen
  obtain ⟨hlt, -⟩ := hplace ys.length (by omega)
  exact lt_irrefl _ hlt

/-- A row that hashes under the given format version. -/
def rowAfter (entryId : ℤ) (previousHash : String) (formatVersion : ℤ) : EntryRow :=
  ⟨entryId, "2026-01-01T12:00:00.000000Z", "actor", "act", eventTypeRequest, formatVersion, "{}",
    previousHash, computeEntryHash entryId "2026-01-01T12:00:00.000000Z" "actor" "act" "{}" previousHash
      eventTypeRequest formatVersion, none, none⟩

def legacyRow : EntryRow := rowAfter 1 genesisPreviousHash 1
def currentRow : EntryRow := rowAfter 2 legacyRow.entryHash 2

theorem chained_rowAfter (v w : ℤ) :
    Chained [rowAfter 1 genesisPreviousHash v, rowAfter 2 (rowAfter 1 genesisPreviousHash v).entryHash w] :=
  ⟨⟨rfl, rfl, trivial⟩, List.forall_mem_cons.mpr ⟨rfl, List.forall_mem_cons.mpr ⟨rfl, by simp⟩⟩⟩

/-- Rows that hash the texts of rows whose hashes differ. -/
theorem noCollision_of_nodup {rows hashed : List EntryRow} (hhashed : ∀ r ∈ hashed, r.entryHash = recomputed r)
    (hnodup : (hashed.map EntryRow.entryHash).Nodup)
    (hsame : ∀ r ∈ rows, ∃ r' ∈ hashed, hashedText r = hashedText r') : NoCollision (HashedIn rows) := by
  rintro _ _ ⟨r, hr, rfl⟩ ⟨s, hs, rfl⟩ he
  obtain ⟨r', hr', htext⟩ := hsame r hr
  obtain ⟨s', hs', htext'⟩ := hsame s hs
  rw [htext, htext', ← recomputed_eq, ← recomputed_eq, ← hhashed r' hr', ← hhashed s' hs'] at he
  rw [htext, htext', List.inj_on_of_nodup_map hnodup hr' hs' he]

theorem recomputed_legacyRow :
    recomputed legacyRow = "a072e12c2b669a94d040c2a46d3503aabf2d479194f3eba423a68683bfd2cbe1" :=
  HashedTexts.computeEntryHash_ofList (by decide +kernel)

theorem recomputed_currentRow :
    recomputed currentRow = "ead7fae51355dd8214bfa11bfea56006e528a23dbd4a0f8c830bf30060f78bd6" := by
  show computeEntryHash 2 "2026-01-01T12:00:00.000000Z" "actor" "act" "{}" (recomputed legacyRow) eventTypeRequest 2 = _
  rw [recomputed_legacyRow]
  exact HashedTexts.computeEntryHash_ofList (by decide +kernel)

theorem prefix_agreement_mixed : [legacyRow] <+: [legacyRow, currentRow] := by
  obtain ⟨hne, hlegacy, hcurrent⟩ : recomputed legacyRow ≠ recomputed currentRow ∧
      recomputed legacyRow ≠ genesisPreviousHash ∧ recomputed currentRow ≠ genesisPreviousHash := by
    rw [recomputed_legacyRow, recomputed_currentRow]
    decide +kernel
  have hchained : Chained [legacyRow, currentRow] := chained_rowAfter 1 2
  have hnodup : ([legacyRow, currentRow].map EntryRow.entryHash).Nodup := by
    have hdiffer : legacyRow.entryHash ≠ currentRow.entryHash := hne
    simp [hdiffer]
  have hrows : ∀ r ∈ [legacyRow] ++ [legacyRow, currentRow], r = legacyRow ∨ r = currentRow := by simp
  refine (prefix_agreement (verifyChain_none.mpr ⟨rfl, hchained.initial ⟨[currentRow], rfl⟩⟩)
    (verifyChain_none.mpr ⟨rfl, hchained⟩)
    (noCollision_of_nodup hchained.hashed hnodup fun r hr => ⟨r, by simpa using hr, rfl⟩) ?_).2 (by simp)
  rintro text ⟨r, hr, rfl⟩
  rcases hrows r hr with rfl | rfl
  · exact hlegacy
  · exact hcurrent

end NexusCone.ChainTamperEvidence
