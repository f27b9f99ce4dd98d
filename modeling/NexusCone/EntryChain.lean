import NexusCone.Canonical
import NexusCone.HashChain
import NexusCone.LedgerSchema

/-!
# The entry chain and its verification

The hash of an entry under either format version, the row-to-entry conversion, and the walk of
`verify_chain`, which accepts exactly the linked tables whose stored hashes recompute.
-/
namespace NexusCone.EntryChain
open HexBytes CodePoints JsonText JsonKeyOrder PyValue Canonical HashChain LedgerSchema

def genesisPreviousHash : String := String.ofList (List.replicate 64 '0')

def eventTypeRequest : String := "request"

/-- New writes always use this version. -/
def currentFormatVersion : ℤ := 2

structure LedgerEntry where
  entryId : ℤ
  timestamp : String
  actor : String
  action : String
  payload : PyVal
  previousHash : String
  entryHash : String
  signature : Option String
  signingKeyId : Option String
  eventType : String
  formatVersion : ℤ

/-- Any Ed25519 signer: its key id and what it signs. -/
structure Signer where
  keyId : String
  sign : Bytes → Bytes

/-- `verify(key_id, message, signature)`. -/
abbrev Verifier := Option String → Bytes → Bytes → Except PyError Bool

/-- The inputs of an entry hash: `event_type` only from format version 2 on. -/
def entryFields (entryId : ℤ) (timestamp actor action payloadCanonical previousHash eventType : String)
    (formatVersion : ℤ) : Json :=
  .obj ([field "entry_id" (.int entryId), field "timestamp" (.str timestamp), field "actor" (.str actor),
    field "action" (.str action), field "payload" (.str payloadCanonical),
    field "previous_hash" (.str previousHash)] ++
    if formatVersion ≥ 2 then [field "event_type" (.str eventType)] else [])

def computeEntryHash (entryId : ℤ)
    (timestamp actor action payloadCanonical previousHash eventType : String) (formatVersion : ℤ) : String :=
  sha256Hex (canonicalText
    (entryFields entryId timestamp actor action payloadCanonical previousHash eventType formatVersion))

def rowToEntry (row : EntryRow) : Except PyError LedgerEntry :=
  match loads row.payload with
  | some payload => .ok
    { entryId := row.entryId, timestamp := row.timestamp, actor := row.actor, action := row.action,
      payload := ofJson payload, previousHash := row.previousHash, entryHash := row.entryHash,
      signature := row.signature, signingKeyId := row.signingKeyId, eventType := row.eventType,
      formatVersion := row.formatVersion }
  | none => .error (.valueError "Expecting value")

/-- The text under a row's hash. -/
def hashedText (row : EntryRow) : String :=
  canonicalText (entryFields row.entryId row.timestamp row.actor row.action row.payload row.previousHash
    row.eventType row.formatVersion)

def recomputed (row : EntryRow) : String :=
  computeEntryHash row.entryId row.timestamp row.actor row.action row.payload row.previousHash
    row.eventType row.formatVersion

/-- The checks of one row against the hash its predecessor leaves. -/
def verifyEntry (verifier : Option Verifier) (expectedPrevious : String) (row : EntryRow) :
    Except PyError Unit :=
  if row.previousHash ≠ expectedPrevious then
    .error (.chainVerificationError (s!"entry {row.entryId} previous_hash mismatch: " ++
      s!"expected {expectedPrevious}, stored {row.previousHash}"))
  else if recomputed row ≠ row.entryHash then
    .error (.chainVerificationError (s!"entry {row.entryId} entry_hash mismatch: " ++
      s!"recomputed {recomputed row}, stored {row.entryHash}"))
  else match verifier, row.signature with
    | some verify, some signature =>
      match fromHex signature with
      | none => .error (.valueError "non-hexadecimal number found in fromhex() arg")
      | some bytes => do
        if ← verify row.signingKeyId (utf8 row.entryHash) bytes then .ok ()
        else .error (.chainVerificationError (s!"entry {row.entryId} signature invalid for key " ++
          row.signingKeyId.getD "None"))
    | _, _ => .ok ()

def verifyEntries (verifier : Option Verifier) : String → List EntryRow → Except PyError Unit
  | _, [] => .ok ()
  | expectedPrevious, row :: rows => do
    verifyEntry verifier expectedPrevious row
    verifyEntries verifier row.entryHash rows

/-- Walk every entry in the order of its id, recompute hashes, raise on tamper. -/
def verifyChain (verifier : Option Verifier) (rows : List EntryRow) : Except PyError ℕ := do
  verifyEntries verifier genesisPreviousHash rows
  return rows.length

/-- A linked table whose stored hashes are those of its rows. -/
structure Chained (rows : List EntryRow) : Prop where
  linked : Linked EntryRow.previousHash EntryRow.entryHash genesisPreviousHash rows
  hashed : ∀ r ∈ rows, r.entryHash = recomputed r

theorem recomputed_eq (row : EntryRow) : recomputed row = sha256Hex (hashedText row) := rfl

/-- What the verifier checks of a signed row. -/
def Signed (verifier : Option Verifier) (row : EntryRow) : Prop :=
  ∀ verify signature, verifier = some verify → row.signature = some signature →
    ∃ bytes, fromHex signature = some bytes ∧ verify row.signingKeyId (utf8 row.entryHash) bytes = .ok true

theorem signed_none (row : EntryRow) : Signed none row := by
  rintro verify signature ⟨⟩

theorem verifyEntry_ok {verifier : Option Verifier} {expected : String} {row : EntryRow} :
    verifyEntry verifier expected row = .ok () ↔
      row.previousHash = expected ∧ row.entryHash = recomputed row ∧ Signed verifier row := by
  unfold verifyEntry
  split_ifs with hp hh
  · simp [hp]
  · simp [Ne.symm hh]
  · simp only [not_not.mp hp, not_not.mp hh, true_and]
    unfold Signed
    cases verifier with
    | none => simp
    | some verify =>
      cases hsig : row.signature with
      | none => simp
      | some signature =>
        cases hhex : fromHex signature with
        | none => simp [hhex]
        | some bytes =>
          cases hv : verify row.signingKeyId (utf8 row.entryHash) bytes with
          | error e => simp [hhex, hv, bind, Except.bind]
          | ok b => cases b <;> simp [hhex, hv, bind, Except.bind]

theorem verifyEntries_ok {verifier : Option Verifier} {expected : String} {rows : List EntryRow} :
    verifyEntries verifier expected rows = .ok () ↔
      Linked EntryRow.previousHash EntryRow.entryHash expected rows ∧
        ∀ r ∈ rows, r.entryHash = recomputed r ∧ Signed verifier r := by
  induction rows generalizing expected with
  | nil => simp [verifyEntries]
  | cons row rows ih =>
    rw [verifyEntries, linked_cons, List.forall_mem_cons]
    cases hv : verifyEntry verifier expected row with
    | error e =>
      refine iff_of_false (by simp [bind, Except.bind]) ?_
      rintro ⟨⟨hp, -⟩, hr, -⟩
      rw [verifyEntry_ok.mpr ⟨hp, hr⟩] at hv
      cases hv
    | ok u =>
      obtain ⟨hp, hr⟩ := verifyEntry_ok.mp hv
      refine Iff.trans ih ?_
      simp only [hp, hr, true_and, and_self]

/-- The walk accepts exactly the chained tables whose signatures verify. -/
theorem verifyChain_iff {verifier : Option Verifier} {rows : List EntryRow} {n : ℕ} :
    verifyChain verifier rows = .ok n ↔
      n = rows.length ∧ Chained rows ∧ ∀ r ∈ rows, Signed verifier r := by
  unfold verifyChain
  cases hv : verifyEntries verifier genesisPreviousHash rows with
  | error e =>
    refine iff_of_false (by simp [bind, Except.bind]) ?_
    rintro ⟨-, hc, hs⟩
    rw [verifyEntries_ok.mpr ⟨hc.linked, fun r hr => ⟨hc.hashed r hr, hs r hr⟩⟩] at hv
    cases hv
  | ok u =>
    obtain ⟨hl, hr⟩ := verifyEntries_ok.mp hv
    constructor
    · intro h
      cases h
      exact ⟨rfl, ⟨hl, fun r h => (hr r h).1⟩, fun r h => (hr r h).2⟩
    · rintro ⟨rfl, -, -⟩
      rfl

/-- What any accepting walk has checked. -/
theorem verifyChain_ok {verifier : Option Verifier} {rows : List EntryRow} {n : ℕ}
    (h : verifyChain verifier rows = .ok n) : n = rows.length ∧ Chained rows :=
  ⟨(verifyChain_iff.mp h).1, (verifyChain_iff.mp h).2.1⟩

/-- Without a verifier, the walk accepts exactly the chained tables. -/
theorem verifyChain_none {rows : List EntryRow} {n : ℕ} :
    verifyChain none rows = .ok n ↔ n = rows.length ∧ Chained rows := by
  rw [verifyChain_iff, and_iff_left fun r _ => signed_none r]

theorem Chained.initial {rows rows' : List EntryRow} (h : Chained rows') (hp : rows <+: rows') :
    Chained rows :=
  ⟨h.linked.initial hp, fun r hr => h.hashed r (hp.subset hr)⟩

/-- The two rows agree in every column their hashes cover. -/
structure SameHashed (r s : EntryRow) : Prop where
  entryId : r.entryId = s.entryId
  timestamp : r.timestamp = s.timestamp
  actor : r.actor = s.actor
  action : r.action = s.action
  payload : r.payload = s.payload
  previousHash : r.previousHash = s.previousHash
  entryHash : r.entryHash = s.entryHash
  formula : r.formatVersion ≥ 2 ↔ s.formatVersion ≥ 2
  eventType : r.formatVersion ≥ 2 → r.eventType = s.eventType

theorem SameHashed.refl (r : EntryRow) : SameHashed r r := ⟨rfl, rfl, rfl, rfl, rfl, rfl, rfl, Iff.rfl, fun _ => rfl⟩

theorem sortKeys_entryFields (entryId : ℤ)
    (timestamp actor action payload previousHash eventType : String) (formatVersion : ℤ) :
    sortKeys (entryFields entryId timestamp actor action payload previousHash eventType formatVersion) =
      .obj (field "action" (.str action) :: field "actor" (.str actor) :: field "entry_id" (.int entryId) ::
        ((if formatVersion ≥ 2 then [field "event_type" (.str eventType)] else []) ++
          [field "payload" (.str payload), field "previous_hash" (.str previousHash),
            field "timestamp" (.str timestamp)])) := by
  unfold entryFields
  split_ifs <;>
    simp +decide only [sortKeys, sortMembers, List.cons_append, List.nil_append, List.insertionSort,
      List.foldr, List.orderedInsert, keyLe, field, pyStr_le, if_true, if_false]

/-- The fields are texts. -/
theorem unpaired_entryFields (entryId : ℤ)
    (timestamp actor action payload previousHash eventType : String) (formatVersion : ℤ) :
    Unpaired (entryFields entryId timestamp actor action payload previousHash eventType formatVersion) := by
  unfold entryFields
  split_ifs <;> simp [Unpaired, UnpairedMembers, field]

theorem hashedText_injective {r s : EntryRow} (h : hashedText r = hashedText s)
    (hh : r.entryHash = s.entryHash) : SameHashed r s := by
  have hkeys := canonicalText_injective (unpaired_entryFields ..) (unpaired_entryFields ..) h
  rw [sortKeys_entryFields, sortKeys_entryFields] at hkeys
  split_ifs at hkeys with h₁ h₂ h₂ <;> simp [field] at hkeys
  · obtain ⟨ha, hact, hid, het, hpay, hprev, hts⟩ := hkeys
    exact ⟨hid, hts, hact, ha, hpay, hprev, hh, iff_of_true h₁ h₂, fun _ => het⟩
  · obtain ⟨ha, hact, hid, hpay, hprev, hts⟩ := hkeys
    exact ⟨hid, hts, hact, ha, hpay, hprev, hh, iff_of_false h₁ h₂, fun h => absurd h h₁⟩

end NexusCone.EntryChain
