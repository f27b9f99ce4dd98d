import NexusCone.HexBytes
import NexusCone.KeyedTable
import NexusCone.SharedFile

/-!
# The ledger's tables and the statements that write them

One record per table of the schema, and one constructor per `INSERT` or `UPDATE` the ledger
issues, with the constraints SQLite checks for it: primary keys, `UNIQUE` columns and foreign
keys. Integers are those that SQLite stores, below 2^63 in size: Python's `sqlite3` refuses to
bind any other and raises `OverflowError`.
-/
namespace NexusCone.LedgerSchema
open HexBytes KeyedTable SharedFile

structure EntryRow where
  entryId : ℤ
  timestamp : String
  actor : String
  action : String
  eventType : String
  formatVersion : ℤ
  payload : String
  previousHash : String
  entryHash : String
  signature : Option String
  signingKeyId : Option String
  deriving DecidableEq

structure AnchorRow where
  anchorId : ℤ
  chainHeadHash : String
  chainHeadEntryId : ℤ
  otsProofBlob : Option Bytes
  submittedAt : String
  calendarServers : String
  confirmedAt : Option String
  bitcoinBlockHeight : Option ℤ
  bitcoinBlockHash : Option String
  tstBlob : Option Bytes
  tsaUrl : Option String
  tsaGenTime : Option String
  deriving DecidableEq

structure WitnessRow where
  witnessId : ℤ
  label : String
  publicKeyHex : String
  role : String
  createdAt : String
  retiredAt : Option String
  deriving DecidableEq

structure AttestationRow where
  attestationId : ℤ
  witnessId : ℤ
  chainHeadEntryId : ℤ
  chainHeadHash : String
  signedAt : String
  prevAttestationHash : String
  attestationHash : String
  signatureHex : String
  deriving DecidableEq

instance : Keyed EntryRow := ⟨EntryRow.entryId⟩
instance : Keyed AnchorRow := ⟨AnchorRow.anchorId⟩
instance : Keyed WitnessRow := ⟨WitnessRow.witnessId⟩
instance : Keyed AttestationRow := ⟨AttestationRow.attestationId⟩

structure Database where
  entries : Table EntryRow
  anchors : Table AnchorRow
  witnesses : Table WitnessRow
  attestations : Table AttestationRow

/-- The parameters of `INSERT INTO anchors`. -/
structure NewAnchor where
  chainHeadHash : String
  chainHeadEntryId : ℤ
  otsProofBlob : Option Bytes
  submittedAt : String
  calendarServers : String
  tstBlob : Option Bytes
  tsaUrl : Option String
  tsaGenTime : Option String
  deriving DecidableEq

structure NewWitness where
  label : String
  publicKeyHex : String
  role : String
  createdAt : String
  deriving DecidableEq

structure NewAttestation where
  witnessId : ℤ
  chainHeadEntryId : ℤ
  chainHeadHash : String
  signedAt : String
  prevAttestationHash : String
  attestationHash : String
  signatureHex : String
  deriving DecidableEq

def NewAnchor.row (a : NewAnchor) (anchorId : ℤ) : AnchorRow :=
  ⟨anchorId, a.chainHeadHash, a.chainHeadEntryId, a.otsProofBlob, a.submittedAt, a.calendarServers,
    none, none, none, a.tstBlob, a.tsaUrl, a.tsaGenTime⟩

theorem NewAnchor.key_row (a : NewAnchor) (anchorId : ℤ) : key (a.row anchorId) = anchorId := rfl

def NewWitness.row (w : NewWitness) (witnessId : ℤ) : WitnessRow :=
  ⟨witnessId, w.label, w.publicKeyHex, w.role, w.createdAt, none⟩

theorem NewWitness.key_row (w : NewWitness) (witnessId : ℤ) : key (w.row witnessId) = witnessId := rfl

def NewAttestation.row (a : NewAttestation) (attestationId : ℤ) : AttestationRow :=
  ⟨attestationId, a.witnessId, a.chainHeadEntryId, a.chainHeadHash, a.signedAt,
    a.prevAttestationHash, a.attestationHash, a.signatureHex⟩

theorem NewAttestation.key_row (a : NewAttestation) (attestationId : ℤ) :
    key (a.row attestationId) = attestationId := rfl

inductive Statement where
  | insertEntry (row : EntryRow)
  | insertAnchor (a : NewAnchor)
  | confirmAnchor (anchorId : ℤ) (otsProofBlob : Bytes) (bitcoinBlockHeight : ℤ)
      (bitcoinBlockHash : Option String) (confirmedAt : String)
  | insertWitness (w : NewWitness)
  | retireWitness (witnessId : ℤ) (retiredAt : String)
  | insertAttestation (a : NewAttestation)
  deriving DecidableEq

/-- `WHERE anchor_id = ?` of `confirm_anchor`. -/
def AnchorRow.confirm (anchorId : ℤ) (otsProofBlob : Bytes) (bitcoinBlockHeight : ℤ)
    (bitcoinBlockHash : Option String) (confirmedAt : String) (row : AnchorRow) : AnchorRow :=
  if row.anchorId = anchorId then
    { row with
      otsProofBlob := some otsProofBlob, bitcoinBlockHeight := some bitcoinBlockHeight,
      bitcoinBlockHash := bitcoinBlockHash, confirmedAt := some confirmedAt }
  else row

theorem AnchorRow.key_confirm (anchorId : ℤ) (otsProofBlob : Bytes) (bitcoinBlockHeight : ℤ)
    (bitcoinBlockHash : Option String) (confirmedAt : String) (row : AnchorRow) :
    key (row.confirm anchorId otsProofBlob bitcoinBlockHeight bitcoinBlockHash confirmedAt) = key row := by
  unfold AnchorRow.confirm
  split <;> rfl

/-- `WHERE witness_id = ? AND retired_at IS NULL` of `retire_witness`. -/
def WitnessRow.retire (witnessId : ℤ) (retiredAt : String) (row : WitnessRow) : WitnessRow :=
  if row.witnessId = witnessId ∧ row.retiredAt = none then { row with retiredAt := some retiredAt }
  else row

theorem WitnessRow.key_retire (witnessId : ℤ) (retiredAt : String) (row : WitnessRow) :
    key (row.retire witnessId retiredAt) = key row := by
  unfold WitnessRow.retire
  split <;> rfl

namespace Database

def empty : Database := ⟨.empty, .empty, .empty, .empty⟩

def execute : Statement → Database → Except String (Database × ℤ)
  | .insertEntry row, d =>
    match d.entries.insert row with
    | some t => .ok ({ d with entries := t }, row.entryId)
    | none => .error "UNIQUE constraint failed: entries.entry_id"
  | .insertAnchor a, d =>
    if (d.entries.find? a.chainHeadEntryId).isSome then
      .ok ({ d with anchors := d.anchors.insertNew a.row a.key_row }, d.anchors.nextKey)
    else .error "FOREIGN KEY constraint failed"
  | .confirmAnchor anchorId blob height blockHash confirmedAt, d =>
    .ok ({ d with
      anchors := d.anchors.update (AnchorRow.confirm anchorId blob height blockHash confirmedAt)
        (AnchorRow.key_confirm anchorId blob height blockHash confirmedAt) }, 0)
  | .insertWitness w, d =>
    -- SQLite checks the indexes of a table from the last to the first.
    if w.publicKeyHex ∈ d.witnesses.rows.map WitnessRow.publicKeyHex then
      .error "UNIQUE constraint failed: witnesses.public_key_hex"
    else if w.label ∈ d.witnesses.rows.map WitnessRow.label then
      .error "UNIQUE constraint failed: witnesses.label"
    else
      .ok ({ d with witnesses := d.witnesses.insertNew w.row w.key_row }, d.witnesses.nextKey)
  | .retireWitness witnessId retiredAt, d =>
    .ok ({ d with
      witnesses := d.witnesses.update (WitnessRow.retire witnessId retiredAt)
        (WitnessRow.key_retire witnessId retiredAt) }, 0)
  | .insertAttestation a, d =>
    if (d.witnesses.find? a.witnessId).isSome ∧ (d.entries.find? a.chainHeadEntryId).isSome then
      .ok ({ d with attestations := d.attestations.insertNew a.row a.key_row },
        d.attestations.nextKey)
    else .error "FOREIGN KEY constraint failed"

end Database

instance : SqlStatement Statement Database := ⟨Database.execute⟩

section Inversion

variable {d d' : Database} {n : ℤ}

/-- A row enters `entries` only under a key of its own. -/
theorem exec_insertEntry {row : EntryRow} (h : exec (Statement.insertEntry row) d = .ok (d', n)) :
    ∃ t, d.entries.insert row = some t ∧ n = row.entryId ∧ d' = { d with entries := t } := by
  change Database.execute _ _ = _ at h
  simp only [Database.execute] at h
  split at h
  · cases h
    exact ⟨_, by assumption, rfl, rfl⟩
  · cases h

theorem exec_insertAnchor {a : NewAnchor} (h : exec (Statement.insertAnchor a) d = .ok (d', n)) :
    (∃ r ∈ d.entries.rows, r.entryId = a.chainHeadEntryId) ∧ n = d.anchors.nextKey ∧
      d' = { d with anchors := d.anchors.insertNew a.row a.key_row } := by
  change Database.execute _ _ = _ at h
  simp only [Database.execute] at h
  split at h
  · rename_i hf
    cases h
    obtain ⟨r, hr⟩ := Option.isSome_iff_exists.mp hf
    exact ⟨⟨r, Table.find?_eq_some.mp hr⟩, rfl, rfl⟩
  · cases h

theorem exec_insertWitness {w : NewWitness} (h : exec (Statement.insertWitness w) d = .ok (d', n)) :
    w.label ∉ d.witnesses.rows.map WitnessRow.label ∧
      w.publicKeyHex ∉ d.witnesses.rows.map WitnessRow.publicKeyHex ∧ n = d.witnesses.nextKey ∧
      d' = { d with witnesses := d.witnesses.insertNew w.row w.key_row } := by
  change Database.execute _ _ = _ at h
  simp only [Database.execute] at h
  split at h
  · cases h
  · rename_i hkey
    split at h <;> cases h
    rename_i hlabel
    exact ⟨hlabel, hkey, rfl, rfl⟩

theorem exec_insertAttestation {a : NewAttestation}
    (h : exec (Statement.insertAttestation a) d = .ok (d', n)) :
    (∃ w ∈ d.witnesses.rows, w.witnessId = a.witnessId) ∧
      (∃ r ∈ d.entries.rows, r.entryId = a.chainHeadEntryId) ∧ n = d.attestations.nextKey ∧
      d' = { d with attestations := d.attestations.insertNew a.row a.key_row } := by
  change Database.execute _ _ = _ at h
  simp only [Database.execute] at h
  split at h
  · rename_i hf
    cases h
    obtain ⟨w, hw⟩ := Option.isSome_iff_exists.mp hf.1
    obtain ⟨r, hr⟩ := Option.isSome_iff_exists.mp hf.2
    exact ⟨⟨w, Table.find?_eq_some.mp hw⟩, ⟨r, Table.find?_eq_some.mp hr⟩, rfl, rfl⟩
  · cases h

end Inversion
end NexusCone.LedgerSchema
