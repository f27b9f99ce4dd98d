import NexusCone.EntryChain
import NexusCone.IsoTime

/-!
# Witness attestations and their verification

The attestations of one witness form a chain of their own inside one table. The walk of
`verify_witness_attestations` visits the table by witness and accepts exactly when every
witness's rows are linked, every stored hash recomputes and every signature verifies.
-/
namespace NexusCone.WitnessChain
open HexBytes CodePoints JsonText JsonKeyOrder PyValue Canonical HashChain KeyedTable LedgerSchema EntryChain IsoTime

def genesisWitnessPrevHash : String := String.ofList (List.replicate 64 '0')

def witnessRoles : List String := ["consortium", "regulator", "self"]

structure Witness where
  witnessId : ℤ
  label : String
  publicKeyHex : String
  role : String
  createdAt : DateTime
  retiredAt : Option DateTime

structure WitnessAttestation where
  attestationId : ℤ
  witnessId : ℤ
  chainHeadEntryId : ℤ
  chainHeadHash : String
  signedAt : DateTime
  prevAttestationHash : String
  attestationHash : String
  signatureHex : String

section Times

variable [Platform]

/-- `datetime.fromisoformat` on a stored time. -/
def readTimeColumn (s : String) : Except PyError DateTime :=
  match parseIso s with
  | some t => .ok t
  | none => .error (.valueError (Platform.fromisoformatError (replaceZ s.toList)))

/-- A nullable time column. -/
def readTimeColumn? : Option String → Except PyError (Option DateTime)
  | none => .ok none
  | some s => return some (← readTimeColumn s)

theorem readTimeColumn_of_valid {c : Civil} (h : c.Valid) (hyear : 1000 ≤ c.year) :
    readTimeColumn (strftime c) = .ok ⟨c, some 0, h, offset_utc⟩ := by
  rw [readTimeColumn, parseIso_strftime_of_valid h hyear]

theorem readTimeColumn_strftime (t : UtcTime) : readTimeColumn (strftime t.civil) = .ok t.toDateTime :=
  readTimeColumn_of_valid t.valid.1 t.valid.2

theorem readTimeColumn?_of_valid {c : Civil} (h : c.Valid) (hyear : 1000 ≤ c.year) :
    readTimeColumn? (some (strftime c)) = .ok (some ⟨c, some 0, h, offset_utc⟩) := by
  rw [readTimeColumn?, readTimeColumn_of_valid h hyear]
  rfl

theorem readTimeColumn?_strftime (t : UtcTime) :
    readTimeColumn? (some (strftime t.civil)) = .ok (some t.toDateTime) :=
  readTimeColumn?_of_valid t.valid.1 t.valid.2

def rowToWitness (row : WitnessRow) : Except PyError Witness := do
  let retiredAt ← readTimeColumn? row.retiredAt
  let createdAt ← readTimeColumn row.createdAt
  return ⟨row.witnessId, row.label, row.publicKeyHex, row.role, createdAt, retiredAt⟩

def rowToWitnessAttestation (row : AttestationRow) : Except PyError WitnessAttestation := do
  let signedAt ← readTimeColumn row.signedAt
  return ⟨row.attestationId, row.witnessId, row.chainHeadEntryId, row.chainHeadHash, signedAt,
    row.prevAttestationHash, row.attestationHash, row.signatureHex⟩

end Times

theorem readTimeColumn?_padded {c : Civil} (h : c.Valid) :
    readTimeColumn? (some (strftime c)) = .ok (some ⟨c, some 0, h, offset_utc⟩) := by
  rw [readTimeColumn?, readTimeColumn, parseIso_padded h]
  rfl

def attestationFields (witnessId chainHeadEntryId : ℤ)
    (chainHeadHash signedAt prevAttestationHash : String) : Json :=
  .obj [field "witness_id" (.int witnessId), field "chain_head_entry_id" (.int chainHeadEntryId),
    field "chain_head_hash" (.str chainHeadHash), field "signed_at" (.str signedAt),
    field "prev_attestation_hash" (.str prevAttestationHash)]

theorem sortKeys_attestationFields (witnessId chainHeadEntryId : ℤ) (chainHeadHash signedAt prev : String) :
    sortKeys (attestationFields witnessId chainHeadEntryId chainHeadHash signedAt prev) =
      .obj [field "chain_head_entry_id" (.int chainHeadEntryId), field "chain_head_hash" (.str chainHeadHash),
        field "prev_attestation_hash" (.str prev), field "signed_at" (.str signedAt),
        field "witness_id" (.int witnessId)] := by
  unfold attestationFields
  simp +decide only [sortKeys, sortMembers, List.insertionSort, List.foldr, List.orderedInsert, keyLe, field,
    pyStr_le, if_true, if_false]

theorem unpaired_attestationFields (witnessId chainHeadEntryId : ℤ) (chainHeadHash signedAt prev : String) :
    Unpaired (attestationFields witnessId chainHeadEntryId chainHeadHash signedAt prev) := by
  simp [attestationFields, Unpaired, UnpairedMembers, field]

/-- The hash of one witness attestation over its five identifying fields. -/
def computeWitnessAttestationHash (witnessId chainHeadEntryId : ℤ)
    (chainHeadHash signedAt prevAttestationHash : String) : String :=
  sha256Hex (canonicalText
    (attestationFields witnessId chainHeadEntryId chainHeadHash signedAt prevAttestationHash))

def recomputedAttestation (row : AttestationRow) : String :=
  computeWitnessAttestationHash row.witnessId row.chainHeadEntryId row.chainHeadHash row.signedAt
    row.prevAttestationHash

/-- `Attestation {id} from witness {id} ({label})`. -/
def attestationName (row : AttestationRow) (witness : Witness) : String :=
  s!"Attestation {row.attestationId} from witness {row.witnessId} ({witness.label})"

/-- The signature check, with every exception of the verifier reported as a verification error. -/
def verifySignature (verifier : Verifier) (witness : Witness) (row : AttestationRow) : Except PyError Unit :=
  let outcome : Except PyError Bool :=
    match fromHex (recomputedAttestation row), fromHex row.signatureHex with
    | some message, some signature => verifier (some witness.publicKeyHex) message signature
    | _, _ => .error (.valueError "non-hexadecimal number found in fromhex() arg")
  match outcome with
  | .ok true => .ok ()
  | .ok false => .error (.witnessVerificationError
      (attestationName row witness ++ " signature verification failed."))
  | .error e => .error (.witnessVerificationError
      (attestationName row witness ++ " signature verification raised: " ++ e.repr))

/-- The checks of one attestation against the hash its witness's last one left. -/
def verifyAttestation (verifier : Verifier) (witnessesById : ℤ → Option Witness) (expectedPrev : String)
    (row : AttestationRow) : Except PyError Unit :=
  match witnessesById row.witnessId with
  | none => .error (.witnessVerificationError (s!"Attestation {row.attestationId} references " ++
      s!"witness_id={row.witnessId} which does not exist."))
  | some witness =>
    if row.prevAttestationHash ≠ expectedPrev then
      .error (.witnessVerificationError (attestationName row witness ++
        s!" prev_attestation_hash mismatch: expected {expectedPrev}, stored {row.prevAttestationHash}"))
    else if recomputedAttestation row ≠ row.attestationHash then
      .error (.witnessVerificationError (attestationName row witness ++
        s!" attestation_hash mismatch: expected {recomputedAttestation row}, stored {row.attestationHash}"))
    else verifySignature verifier witness row

def verifyAttestations (verifier : Verifier) (witnessesById : ℤ → Option Witness) :
    (ℤ → String) → List AttestationRow → Except PyError Unit
  | _, [] => .ok ()
  | expectedPrev, row :: rows => do
    verifyAttestation verifier witnessesById (expectedPrev row.witnessId) row
    verifyAttestations verifier witnessesById
      (Function.update expectedPrev row.witnessId row.attestationHash) rows

/-- `expected_prev` after the rows. -/
def expectedAfter (expectedPrev : ℤ → String) (rows : List AttestationRow) : ℤ → String :=
  rows.foldl (fun prev row => Function.update prev row.witnessId row.attestationHash) expectedPrev

/-- `ORDER BY witness_id, attestation_id`. -/
def byWitness (r s : AttestationRow) : Prop :=
  r.witnessId < s.witnessId ∨ r.witnessId = s.witnessId ∧ r.attestationId ≤ s.attestationId

instance : DecidableRel byWitness := fun r s =>
  inferInstanceAs (Decidable (r.witnessId < s.witnessId ∨
    r.witnessId = s.witnessId ∧ r.attestationId ≤ s.attestationId))

def witnessesById (witnesses : List Witness) (witnessId : ℤ) : Option Witness :=
  witnesses.find? (fun w => w.witnessId = witnessId)

/-- The walk over the attestations read, against the witnesses read before. -/
def walkWitnessAttestations (verifier : Verifier) (witnesses : List Witness) (rows : List AttestationRow) :
    Except PyError ℕ := do
  verifyAttestations verifier (witnessesById witnesses) (fun _ => genesisWitnessPrevHash)
    (rows.insertionSort byWitness)
  return rows.length

/-- Walk every witness attestation and verify it end-to-end. -/
def verifyWitnessAttestations [Platform] (verifier : Verifier) (witnessRows : List WitnessRow)
    (rows : List AttestationRow) : Except PyError ℕ := do
  let witnesses ← witnessRows.mapM rowToWitness
  walkWitnessAttestations verifier witnesses rows

def attestationText (row : AttestationRow) : String :=
  canonicalText (attestationFields row.witnessId row.chainHeadEntryId row.chainHeadHash row.signedAt
    row.prevAttestationHash)

/-- The bytes a witness signs. -/
def attestationDigest (row : AttestationRow) : Bytes := Sha256.sha256 (utf8 (attestationText row))

/-- The rows of one witness. -/
def ofWitness (witnessId : ℤ) (rows : List AttestationRow) : List AttestationRow :=
  rows.filter (fun r => r.witnessId = witnessId)

/-- Every witness's rows form a chain. -/
def SubChains (rows : List AttestationRow) : Prop :=
  ∀ w, Linked AttestationRow.prevAttestationHash AttestationRow.attestationHash genesisWitnessPrevHash
    (ofWitness w rows)

/-- The hash of the row recomputes and its signature verifies under its witness's key. -/
structure AttestationValid (verifier : Verifier) (witnesses : ℤ → Option Witness) (row : AttestationRow) :
    Prop where
  hashed : row.attestationHash = recomputedAttestation row
  signed : ∃ witness signature, witnesses row.witnessId = some witness ∧
    fromHex row.signatureHex = some signature ∧
    verifier (some witness.publicKeyHex) (attestationDigest row) signature = .ok true

section Walk

variable {verifier : Verifier} {witnesses : ℤ → Option Witness} {rows : List AttestationRow}

theorem fromHex_recomputedAttestation (row : AttestationRow) :
    fromHex (recomputedAttestation row) = some (attestationDigest row) :=
  fromHex_sha256Hex _

theorem verifySignature_ok {witness : Witness} {row : AttestationRow} :
    verifySignature verifier witness row = .ok () ↔ ∃ signature, fromHex row.signatureHex = some signature ∧
      verifier (some witness.publicKeyHex) (attestationDigest row) signature = .ok true := by
  unfold verifySignature
  rw [fromHex_recomputedAttestation]
  cases hs : fromHex row.signatureHex with
  | none => simp
  | some signature =>
    dsimp only
    cases hv : verifier (some witness.publicKeyHex) (attestationDigest row) signature with
    | error e => simp [hv]
    | ok b => cases b <;> simp [hv]

theorem verifyAttestation_ok {expectedPrev : String} {row : AttestationRow} :
    verifyAttestation verifier witnesses expectedPrev row = .ok () ↔
      row.prevAttestationHash = expectedPrev ∧ AttestationValid verifier witnesses row := by
  unfold verifyAttestation
  cases hw : witnesses row.witnessId with
  | none =>
    refine iff_of_false (by simp) ?_
    rintro ⟨-, -, w, s, h, -⟩
    rw [hw] at h
    cases h
  | some witness =>
    dsimp only
    split_ifs with hp hh
    · exact iff_of_false (by simp) (fun h => hp h.1)
    · exact iff_of_false (by simp) (fun h => hh h.2.hashed.symm)
    · rw [verifySignature_ok]
      constructor
      · rintro ⟨signature, hs, hv⟩
        exact ⟨not_not.mp hp, (not_not.mp hh).symm, witness, signature, hw, hs, hv⟩
      · rintro ⟨-, -, w, signature, hw', hs, hv⟩
        rw [hw] at hw'
        cases hw'
        exact ⟨signature, hs, hv⟩

theorem verifyAttestations_ok {expectedPrev : ℤ → String} :
    verifyAttestations verifier witnesses expectedPrev rows = .ok () ↔
      (∀ w, Linked AttestationRow.prevAttestationHash AttestationRow.attestationHash (expectedPrev w)
        (ofWitness w rows)) ∧ ∀ r ∈ rows, AttestationValid verifier witnesses r := by
  induction rows generalizing expectedPrev with
  | nil => simp [verifyAttestations, ofWitness]
  | cons row rows ih =>
    -- The first row concerns its own witness only; for the others nothing changes.
    have hlinks : (∀ w, Linked AttestationRow.prevAttestationHash AttestationRow.attestationHash
          (expectedPrev w) (ofWitness w (row :: rows))) ↔
        row.prevAttestationHash = expectedPrev row.witnessId ∧
          ∀ w, Linked AttestationRow.prevAttestationHash AttestationRow.attestationHash
            (Function.update expectedPrev row.witnessId row.attestationHash w) (ofWitness w rows) := by
      have hself : ofWitness row.witnessId (row :: rows) = row :: ofWitness row.witnessId rows := by
        simp [ofWitness]
      have hother (w : ℤ) (h : w ≠ row.witnessId) : ofWitness w (row :: rows) = ofWitness w rows := by
        simp [ofWitness, h.symm]
      constructor
      · intro h
        have hrow := h row.witnessId
        rw [hself] at hrow
        refine ⟨hrow.1, fun w => ?_⟩
        by_cases hw : w = row.witnessId
        · subst hw
          rw [Function.update_self]
          exact hrow.2
        · rw [Function.update_of_ne hw, ← hother w hw]
          exact h w
      · rintro ⟨hp, h⟩ w
        by_cases hw : w = row.witnessId
        · subst hw
          have hrow := h row.witnessId
          rw [Function.update_self] at hrow
          rw [hself]
          exact ⟨hp, hrow⟩
        · have hrow := h w
          rw [Function.update_of_ne hw] at hrow
          rwa [hother w hw]
    rw [hlinks, List.forall_mem_cons, verifyAttestations]
    cases hv : verifyAttestation verifier witnesses (expectedPrev row.witnessId) row with
    | error e =>
      refine iff_of_false (by simp [bind, Except.bind]) ?_
      rintro ⟨⟨hp, -⟩, hr, -⟩
      rw [verifyAttestation_ok.mpr ⟨hp, hr⟩] at hv
      cases hv
    | ok u =>
      obtain ⟨hp, hr⟩ := verifyAttestation_ok.mp hv
      refine Iff.trans ih ?_
      simp only [hp, hr, true_and]

/-- The walk goes on after some rows with the hashes that they left. -/
theorem verifyAttestations_append {expectedPrev : ℤ → String} (rows rows' : List AttestationRow) :
    verifyAttestations verifier witnesses expectedPrev (rows ++ rows') =
      (verifyAttestations verifier witnesses expectedPrev rows >>= fun _ =>
        verifyAttestations verifier witnesses (expectedAfter expectedPrev rows) rows') := by
  induction rows generalizing expectedPrev with
  | nil => rfl
  | cons row rows ih =>
    rw [List.cons_append, verifyAttestations, verifyAttestations]
    cases verifyAttestation verifier witnesses (expectedPrev row.witnessId) row with
    | error e => rfl
    | ok u => exact ih

instance : IsTrans AttestationRow byWitness :=
  ⟨fun r s t h h' => by unfold byWitness at *; omega⟩

instance : Std.Total byWitness :=
  ⟨fun r s => by unfold byWitness; omega⟩

/-- Sorting by witness keeps each witness's rows in the order of their ids. -/
theorem ofWitness_insertionSort (t : Table AttestationRow) (w : ℤ) :
    ofWitness w (t.rows.insertionSort byWitness) = ofWitness w t.rows := by
  have hsorted : (ofWitness w t.rows).Pairwise byWitness := by
    refine (List.Pairwise.filter _ t.sorted).imp_of_mem ?_
    intro r s hr hs hlt
    have hr' : r.witnessId = w := by simpa using List.of_mem_filter hr
    have hs' : s.witnessId = w := by simpa using List.of_mem_filter hs
    exact .inr ⟨hr'.trans hs'.symm, le_of_lt hlt⟩
  have hsub := (List.sublist_insertionSort hsorted List.filter_sublist).filter (fun r => r.witnessId = w)
  have hlen : (ofWitness w t.rows).length = (ofWitness w (t.rows.insertionSort byWitness)).length :=
    ((List.perm_insertionSort byWitness t.rows).filter _).length_eq.symm
  have hidem : (ofWitness w t.rows).filter (fun r => r.witnessId = w) = ofWitness w t.rows := by
    simp [ofWitness]
  rw [hidem] at hsub
  exact (hsub.eq_of_length hlen).symm

/-- What an accepting walk has checked, and all that it needs. -/
theorem verifyWitnessAttestations_ok [Platform] {witnessRows : List WitnessRow} {t : Table AttestationRow} {n : ℕ} :
    verifyWitnessAttestations verifier witnessRows t.rows = .ok n ↔
      ∃ ws, witnessRows.mapM rowToWitness = .ok ws ∧ n = t.rows.length ∧ SubChains t.rows ∧
        ∀ r ∈ t.rows, AttestationValid verifier (witnessesById ws) r := by
  unfold verifyWitnessAttestations walkWitnessAttestations
  cases hm : witnessRows.mapM rowToWitness with
  | error e => simp [bind, Except.bind]
  | ok ws =>
    have hwalk : verifyAttestations verifier (witnessesById ws) (fun _ => genesisWitnessPrevHash)
        (t.rows.insertionSort byWitness) = .ok () ↔ _ := verifyAttestations_ok
    simp only [ofWitness_insertionSort, List.mem_insertionSort] at hwalk
    cases hv : verifyAttestations verifier (witnessesById ws) (fun _ => genesisWitnessPrevHash)
        (t.rows.insertionSort byWitness) with
    | error e =>
      refine iff_of_false (by simp [bind, Except.bind, hv]) ?_
      rintro ⟨ws', h, -, hchain, hvalid⟩
      cases h
      rw [hwalk.mpr ⟨hchain, hvalid⟩] at hv
      cases hv
    | ok u =>
      obtain ⟨hchain, hvalid⟩ := hwalk.mp hv
      simp only [bind, Except.bind, hv, pure, Except.pure, Except.ok.injEq]
      constructor
      · rintro rfl
        exact ⟨ws, rfl, rfl, hchain, hvalid⟩
      · rintro ⟨ws', rfl, rfl, -, -⟩
        rfl

end Walk
end NexusCone.WitnessChain
