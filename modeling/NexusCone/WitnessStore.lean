import NexusCone.AnchorChecks
import NexusCone.LedgerGrowth

/-!
# The witness tables

What the tables must hold for the walk of `verify_witness_attestations` to accept every row, and
how each statement keeps it: an attestation that names its witness's last hash and is signed by
the witness's key, and witnesses whose times read back.
-/
namespace NexusCone.WitnessStore
open HexBytes HashChain KeyedTable SharedFile AsyncProgram AsyncSystem Connections GrowingVersions PyValue
  Canonical IsoTime LedgerSchema EntryChain WitnessChain TimestampAuthority Ledger LedgerOperations ExceptResults
  AnchorChecks

/-- The attestation's hash recomputes and its signature verifies under the key of its witness. -/
def Attested (verifier : Verifier) (witnesses : List WitnessRow) (a : AttestationRow) : Prop :=
  a.attestationHash = recomputedAttestation a ∧ ∃ w ∈ witnesses, w.witnessId = a.witnessId ∧
    ∃ signature, fromHex a.signatureHex = some signature ∧
      verifier (some w.publicKeyHex) (attestationDigest a) signature = .ok true

structure Sound [IsoTime.Platform] (verifier : Verifier) (d : Database) : Prop where
  readable : ∀ w ∈ d.witnesses.rows, ∃ x, rowToWitness w = .ok x
  subChains : SubChains d.attestations.rows
  attested : ∀ a ∈ d.attestations.rows, Attested verifier d.witnesses.rows a

/-- The signatures of the signer verify under the key that it names. -/
def Honest (verifier : Verifier) (signer : Signer) : Prop :=
  ∀ message, verifier (some signer.keyId) message (signer.sign message) = .ok true

variable [IsoTime.Platform] {verifier : Verifier} {d d' : Database} {n : ℤ}

theorem rowToWitness_ok {row : WitnessRow} {w : Witness} (h : rowToWitness row = .ok w) :
    w.witnessId = row.witnessId ∧ w.publicKeyHex = row.publicKeyHex ∧
      w.retiredAt.isSome = row.retiredAt.isSome := by
  unfold rowToWitness at h
  obtain ⟨retiredAt, hretired, h⟩ := bind_ok h
  obtain ⟨createdAt, -, h⟩ := bind_ok h
  cases h
  exact ⟨rfl, rfl, readTimeColumn?_isSome hretired⟩

/-- The dictionary of the walk has the witness of the one row with that id. -/
theorem witnessesById_eq_some {t : Table WitnessRow} {ws : List Witness} (h : t.rows.mapM rowToWitness = .ok ws)
    {k : ℤ} {w : Witness} :
    witnessesById ws k = some w ↔ ∃ row ∈ t.rows, rowToWitness row = .ok w ∧ row.witnessId = k := by
  constructor
  · intro hw
    obtain ⟨row, hrow, hread⟩ := mem_mapM_ok h (List.mem_of_find?_eq_some hw)
    refine ⟨row, hrow, hread, ?_⟩
    rw [← (rowToWitness_ok hread).1]
    simpa using List.find?_some hw
  · rintro ⟨row, hrow, hread, rfl⟩
    have hmem : w ∈ ws := by
      obtain ⟨i, hi, rfl⟩ := List.getElem_of_mem hrow
      have hall := mapM_ok.mp h
      have hi' : i < ws.length := hall.length_eq ▸ hi
      have hget : rowToWitness t.rows[i] = .ok ws[i] := (List.forall₂_iff_get.mp hall).2 i hi hi'
      rw [hread] at hget
      cases hget
      exact List.getElem_mem hi'
    unfold witnessesById
    cases hf : ws.find? (fun w => w.witnessId = row.witnessId) with
    | none =>
      have hno := List.find?_eq_none.mp hf w hmem
      simp [(rowToWitness_ok hread).1] at hno
    | some w' =>
      obtain ⟨row', hrow', hread'⟩ := mem_mapM_ok h (List.mem_of_find?_eq_some hf)
      have hid : w'.witnessId = row.witnessId := by simpa using List.find?_some hf
      rw [(rowToWitness_ok hread').1] at hid
      obtain rfl := t.key_injOn hrow' hrow hid
      rw [hread] at hread'
      cases hread'
      rfl

theorem attestationValid_iff {ws : List Witness} (h : d.witnesses.rows.mapM rowToWitness = .ok ws)
    {a : AttestationRow} : AttestationValid verifier (witnessesById ws) a ↔
      Attested verifier d.witnesses.rows a := by
  constructor
  · rintro ⟨hhash, w, signature, hw, hsig, hv⟩
    obtain ⟨row, hrow, hread, hid⟩ := (witnessesById_eq_some h).mp hw
    rw [(rowToWitness_ok hread).2.1] at hv
    exact ⟨hhash, row, hrow, hid, signature, hsig, hv⟩
  · rintro ⟨hhash, row, hrow, hid, signature, hsig, hv⟩
    obtain ⟨w, hread⟩ := exists_mapM_ok.mp ⟨ws, h⟩ row hrow
    rw [← (rowToWitness_ok hread).2.1] at hv
    exact ⟨hhash, w, signature, (witnessesById_eq_some h).mpr ⟨row, hrow, hread, hid⟩, hsig, hv⟩

/-- The walk accepts every row of sound tables, and of no others. -/
theorem sound_iff : Sound verifier d ↔
    verifyWitnessAttestations verifier d.witnesses.rows d.attestations.rows = .ok d.attestations.rows.length := by
  rw [verifyWitnessAttestations_ok]
  constructor
  · intro h
    obtain ⟨ws, hws⟩ := exists_mapM_ok.mpr h.readable
    exact ⟨ws, hws, rfl, h.subChains, fun a ha => (attestationValid_iff hws).mpr (h.attested a ha)⟩
  · rintro ⟨ws, hws, -, hsub, hvalid⟩
    exact ⟨exists_mapM_ok.mp ⟨ws, hws⟩, hsub, fun a ha => (attestationValid_iff hws).mp (hvalid a ha)⟩

theorem sound_empty : Sound verifier Database.empty :=
  ⟨by simp [Database.empty], fun _ => trivial, by simp [Database.empty]⟩

section Statements

omit [IsoTime.Platform] in
theorem Attested.mono {witnesses witnesses' : List WitnessRow} {a : AttestationRow}
    (h : Attested verifier witnesses a)
    (hkeys : ∀ w ∈ witnesses, ∃ w' ∈ witnesses', w'.witnessId = w.witnessId ∧ w'.publicKeyHex = w.publicKeyHex) :
    Attested verifier witnesses' a := by
  obtain ⟨hhash, w, hw, hid, signature, hsig, hv⟩ := h
  obtain ⟨w', hw', hid', hkey⟩ := hkeys w hw
  exact ⟨hhash, w', hw', hid'.trans hid, signature, hsig, by rw [hkey]; exact hv⟩

omit [IsoTime.Platform] in
theorem ofWitness_append (k : ℤ) (rows : List AttestationRow) (a : AttestationRow) :
    ofWitness k (rows ++ [a]) = if a.witnessId = k then ofWitness k rows ++ [a] else ofWitness k rows := by
  simp only [ofWitness, List.filter_append]
  split_ifs with h <;> simp [h]

omit [IsoTime.Platform] in
/-- A row that names the last hash of its witness continues the sub-chains. -/
theorem subChains_append {rows : List AttestationRow} {a : AttestationRow} :
    SubChains (rows ++ [a]) ↔ SubChains rows ∧ a.prevAttestationHash =
      tipHash AttestationRow.attestationHash genesisWitnessPrevHash (ofWitness a.witnessId rows) := by
  unfold SubChains
  constructor
  · intro h
    refine ⟨fun k => ?_, ?_⟩
    · have hk := h k
      rw [ofWitness_append] at hk
      split_ifs at hk
      · exact (linked_concat.mp hk).1
      · exact hk
    · have ha := h a.witnessId
      rw [ofWitness_append, if_pos rfl] at ha
      exact (linked_concat.mp ha).2
  · rintro ⟨h, hprev⟩ k
    rw [ofWitness_append]
    split_ifs with hk
    · subst hk
      exact linked_concat.mpr ⟨h _, hprev⟩
    · exact h k

/-- The attestation that a call makes for a witness, a head and a time it has read. -/
def signedAttestation (witnessId : ℤ) (signer : Signer) (head : LedgerEntry) (prevAttestationHash : String)
    (signedAt : UtcTime) : NewAttestation :=
  let attestationHash := computeWitnessAttestationHash witnessId head.entryId head.entryHash
    (strftime signedAt.civil) prevAttestationHash
  ⟨witnessId, head.entryId, head.entryHash, strftime signedAt.civil, prevAttestationHash, attestationHash,
    hex (signer.sign ((fromHex attestationHash).getD []))⟩

theorem attested_signed {witnesses : List WitnessRow} {w : WitnessRow} (hw : w ∈ witnesses) {signer : Signer}
    (hkey : signer.keyId = w.publicKeyHex) (hs : Honest verifier signer) (head : LedgerEntry) (prev : String)
    (signedAt : UtcTime) (k : ℤ) :
    Attested verifier witnesses ((signedAttestation w.witnessId signer head prev signedAt).row k) := by
  refine ⟨rfl, w, hw, rfl, _, fromHex_hex _, ?_⟩
  rw [← hkey]
  have hdigest : fromHex (signedAttestation w.witnessId signer head prev signedAt).attestationHash =
      some (attestationDigest ((signedAttestation w.witnessId signer head prev signedAt).row k)) :=
    fromHex_sha256Hex _
  have hv := hs (attestationDigest ((signedAttestation w.witnessId signer head prev signedAt).row k))
  have hmessage : (fromHex (signedAttestation w.witnessId signer head prev signedAt).attestationHash).getD [] =
      attestationDigest ((signedAttestation w.witnessId signer head prev signedAt).row k) := by
    rw [hdigest]
    rfl
  rw [← hmessage] at hv ⊢
  exact hv

theorem Sound.insertAttestation {a : NewAttestation} (h : Sound verifier d)
    (hex : exec (Statement.insertAttestation a) d = .ok (d', n))
    (hprev : a.prevAttestationHash = lastAttestationHash a.witnessId d)
    (ha : ∀ k, Attested verifier d.witnesses.rows (a.row k)) : Sound verifier d' := by
  obtain ⟨-, -, rfl, rfl⟩ := exec_insertAttestation hex
  refine ⟨h.readable, subChains_append.mpr ⟨h.subChains, hprev⟩, fun r hr => ?_⟩
  rcases List.mem_append.mp hr with hr | hr
  · exact h.attested r hr
  · rw [List.mem_singleton.mp hr]
    exact ha _

theorem Sound.insertWitness {w : NewWitness} (h : Sound verifier d)
    (hex : exec (Statement.insertWitness w) d = .ok (d', n))
    (hcreated : ∃ t, readTimeColumn w.createdAt = .ok t) : Sound verifier d' := by
  obtain ⟨-, -, rfl, rfl⟩ := exec_insertWitness hex
  refine ⟨fun r hr => ?_, h.subChains, fun a ha => (h.attested a ha).mono fun w hw =>
    ⟨w, List.mem_append_left _ hw, rfl, rfl⟩⟩
  rcases List.mem_append.mp hr with hr | hr
  · exact h.readable r hr
  · obtain ⟨t, ht⟩ := hcreated
    rw [List.mem_singleton.mp hr]
    exact ⟨⟨d.witnesses.nextKey, w.label, w.publicKeyHex, w.role, t, none⟩, by
      simp only [rowToWitness, NewWitness.row, ht]
      rfl⟩

omit [IsoTime.Platform] in
theorem retire_keeps (witnessId : ℤ) (retiredAt : String) (row : WitnessRow) :
    (row.retire witnessId retiredAt).witnessId = row.witnessId ∧
      (row.retire witnessId retiredAt).label = row.label ∧
      (row.retire witnessId retiredAt).publicKeyHex = row.publicKeyHex := by
  unfold WitnessRow.retire
  split <;> exact ⟨rfl, rfl, rfl⟩

theorem Sound.retireWitness {witnessId : ℤ} {retiredAt : String} (h : Sound verifier d)
    (hex : exec (Statement.retireWitness witnessId retiredAt) d = .ok (d', n))
    (hretired : ∃ t, readTimeColumn retiredAt = .ok t) : Sound verifier d' := by
  cases hex
  refine ⟨fun r hr => ?_, h.subChains, fun a ha => (h.attested a ha).mono fun w hw => ?_⟩
  · obtain ⟨row, hrow, rfl⟩ := List.mem_map.mp hr
    obtain ⟨x, hx⟩ := h.readable row hrow
    unfold WitnessRow.retire
    split_ifs with hnone
    · obtain ⟨t, ht⟩ := hretired
      unfold rowToWitness at hx
      obtain ⟨retired, -, hx⟩ := bind_ok hx
      obtain ⟨createdAt, hcreated, -⟩ := bind_ok hx
      exact ⟨⟨row.witnessId, row.label, row.publicKeyHex, row.role, createdAt, some t⟩, by
        simp only [rowToWitness, readTimeColumn?, ht, hcreated]
        rfl⟩
    · exact ⟨x, hx⟩
  · obtain ⟨hid, -, hkey⟩ := retire_keeps witnessId retiredAt w
    exact ⟨_, List.mem_map_of_mem hw, hid, hkey⟩

theorem Sound.of_same (h : Sound verifier d) (hw : d'.witnesses = d.witnesses)
    (ha : d'.attestations = d.attestations) : Sound verifier d' := by
  refine ⟨?_, ?_, ?_⟩
  · rw [hw]; exact h.readable
  · rw [ha]; exact h.subChains
  · rw [hw, ha]; exact h.attested

/-- Statements that make no attestation, with the times they write read back. -/
def Readable : Statement → Prop
  | .insertAttestation _ => False
  | .insertWitness w => ∃ t, readTimeColumn w.createdAt = .ok t
  | .retireWitness _ retiredAt => ∃ t, readTimeColumn retiredAt = .ok t
  | _ => True

theorem Sound.readable_exec {s : Statement} (h : Sound verifier d) (hs : Readable s)
    (hex : exec s d = .ok (d', n)) : Sound verifier d' := by
  cases s with
  | insertAttestation a => exact hs.elim
  | insertWitness w => exact h.insertWitness hex hs
  | retireWitness witnessId retiredAt => exact h.retireWitness hex hs
  | insertEntry row =>
    obtain ⟨t, -, -, rfl⟩ := exec_insertEntry hex
    exact h.of_same rfl rfl
  | insertAnchor a =>
    obtain ⟨-, -, rfl⟩ := exec_insertAnchor hex
    exact h.of_same rfl rfl
  | confirmAnchor =>
    cases hex
    exact h.of_same rfl rfl

end Statements

section Calls

variable {W : Type} {L : Libraries} {G : Growth Database Statement} {i : InstId} {t : TaskId}
variable {σ : Shared Database Statement W}
variable {env : InstId → TaskId → Op Statement Request → Outcome Request (Reply L) PyError W →
  Shared Database Statement W → Prop}

/-- A witness, read on whatever connection the ledger then has, is one of what an earlier
connection of the ledger sees if that one is still open. -/
theorem keeps_getWitness {β : Type} {witnessId : ℤ} {f : Witness → Action L β} {c : ConnId}
    {post : β → Shared Database Statement W → Prop} (hown : Owns i c σ)
    (h : ∀ u row w σ', G.Grows σ σ' → G.Seen c u σ' → row ∈ u.data.witnesses.rows → row.witnessId = witnessId →
      rowToWitness row = .ok w → G.Keeps env i t (f w) post σ') :
    G.Keeps env i t (getWitness witnessId >>= f) post σ := by
  unfold getWitness requireDb
  simp only [bind_assoc]
  refine Growth.Keeps.reread hown fun u σ₁ hg₁ hseen => ?_
  cases hfind : u.data.witnesses.find? witnessId with
  | none => exact Growth.Keeps.raise
  | some row =>
    obtain ⟨hrow, hid⟩ := Table.find?_eq_some.mp hfind
    dsimp only
    cases hread : rowToWitness row with
    | error e => exact Growth.Keeps.raise
    | ok w => exact h u row w σ₁ hg₁ hseen hrow hid hread

/-- A call that does not attest issues only statements whose times read back. -/
theorem readable_of_mayIssue {call : Call} (h : ∀ witnessId signer, call ≠ .attestWithWitness witnessId signer)
    {s : Statement} (hs : MayIssue call s) : Readable s := by
  cases call with
  | attestWithWitness witnessId signer => exact absurd rfl (h witnessId signer)
  | registerWitness =>
    cases s with
    | insertWitness w =>
      obtain ⟨createdAt, rfl⟩ := hs
      exact ⟨_, readTimeColumn_strftime createdAt⟩
    | _ => exact hs.elim
  | retireWitness =>
    cases s with
    | retireWitness k time =>
      obtain ⟨-, retiredAt, rfl⟩ := hs
      exact ⟨_, readTimeColumn_strftime retiredAt⟩
    | _ => exact hs.elim
  | _ => cases s <;> trivial

theorem admits_readable {call : Call} (h : ∀ witnessId signer, call ≠ .attestWithWitness witnessId signer) :
    Admits Readable call :=
  admits_of_mayIssue fun _ hs => readable_of_mayIssue h hs

/-- Whoever is asked to attest signs honestly. -/
def HonestCall (verifier : Verifier) : Call → Prop
  | .attestWithWitness _ signer => Honest verifier signer
  | _ => True

/-- The verifier under which every signer signs honestly. -/
def acceptAll : Verifier := fun _ _ _ => .ok true

theorem honest_acceptAll (call : Call) : HonestCall acceptAll call := by
  cases call with
  | attestWithWitness => exact fun _ => rfl
  | _ => exact trivial

end Calls
end NexusCone.WitnessStore
