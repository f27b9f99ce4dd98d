import NexusCone.AppendOnlyArchive
import NexusCone.Service
import NexusCone.StoredTimes

/-!
# What a ledger files, without its tables

The things that a ledger keeps, as values: times instead of their texts, positions instead of keys,
and no hash that follows from the rest. Each is written in one way into the row of its table, and
the statements of every method write nothing else.
-/
namespace NexusCone.FiledRecords
open HexBytes JsonText KeyedTable SharedFile AsyncProgram EmbeddedPrograms PyValue Canonical IsoTime CivilInstants LedgerSchema
  EntryChain WitnessChain TimestampAuthority Ledger LedgerOperations StoredTimes Poller AppendOnlyArchive Service

structure CalendarTime where
  civil : Civil
  valid : civil.Valid

def CalendarTime.toDateTime (t : CalendarTime) : DateTime := ⟨t.civil, some 0, t.valid, offset_utc⟩

/-- A payload as `canonical_json` writes it. -/
structure CanonicalPayload where
  text : String
  canonical : ∃ payload, canonicalJson payload = .ok text

structure Record where
  timestamp : UtcTime
  actor : String
  action : String
  eventType : String
  payload : CanonicalPayload
  signature : Option String
  signingKeyId : Option String

def Record.row [Platform] (r : Record) (entryId : ℤ) (previousHash : String) : EntryRow :=
  let timestamp := strftime r.timestamp.civil
  ⟨entryId, timestamp, r.actor, r.action, r.eventType, currentFormatVersion, r.payload.text, previousHash,
    computeEntryHash entryId timestamp r.actor r.action r.payload.text previousHash r.eventType currentFormatVersion,
    r.signature, r.signingKeyId⟩

structure Submission where
  chainHeadHash : String
  otsProofBlob : Option Bytes
  submittedAt : UtcTime
  calendarServers : List String
  tstBlob : Option Bytes
  tsaUrl : Option String
  tsaGenTime : Option CalendarTime

def Submission.new [Platform] (x : Submission) (chainHeadEntryId : ℤ) : NewAnchor :=
  ⟨x.chainHeadHash, chainHeadEntryId, x.otsProofBlob, strftime x.submittedAt.civil, dumpsStrings x.calendarServers,
    x.tstBlob, x.tsaUrl, x.tsaGenTime.map fun t => strftime t.civil⟩

structure Confirmation where
  otsProofBlob : Bytes
  bitcoinBlockHeight : ℤ
  bitcoinBlockHash : Option String
  confirmedAt : CalendarTime

structure Registration where
  role : String
  createdAt : UtcTime

structure Endorsement where
  signedAt : UtcTime
  prevAttestationHash : String
  signatureHex : String

def Endorsement.new [Platform] (x : Endorsement) (witnessId chainHeadEntryId : ℤ) (chainHeadHash : String) : NewAttestation :=
  let signedAt := strftime x.signedAt.civil
  ⟨witnessId, chainHeadEntryId, chainHeadHash, signedAt, x.prevAttestationHash,
    computeWitnessAttestationHash witnessId chainHeadEntryId chainHeadHash signedAt x.prevAttestationHash, x.signatureHex⟩

/-- What the archive of a ledger keeps. -/
abbrev filed : Kinds := ⟨Record, Submission, Confirmation, String, String, Registration, UtcTime, Endorsement⟩

/-- The statements that the methods issue. -/
def Issued [Platform] : Statement → Prop
  | .insertEntry row => ∃ (r : Record) (entryId : ℤ) (previousHash : String), row = r.row entryId previousHash
  | .insertAnchor x => ∃ (s : Submission) (chainHeadEntryId : ℤ), x = s.new chainHeadEntryId
  | .confirmAnchor _ _ _ _ confirmedAt => ∃ t : CalendarTime, confirmedAt = strftime t.civil
  | .insertWitness x => ∃ createdAt : UtcTime, x.createdAt = strftime createdAt.civil
  | .retireWitness _ retiredAt => ∃ t : UtcTime, retiredAt = strftime t.civil
  | .insertAttestation x => ∃ e : Endorsement, x = e.new x.witnessId x.chainHeadEntryId x.chainHeadHash

section Programs

variable [Platform] {L : Libraries} {T : Proofs}

theorem issued_log (actor action : String) (payload : Option (List (PyKey × PyVal))) (signer : Option Signer)
    (eventType : String) : (log (L := L) actor action payload signer eventType).Guarded Issued false := by
  have hr := allowsReads_inside (Q := Request) Issued
  refine (Prog.uses_connection allowsReads_isRead).guarded.bind fun c =>
    Prog.Uses.withLock ((Prog.uses_select hr c).bind fun d => ?_)
  rw [utcNowIso, bind_assoc]
  refine (Prog.uses_external hr _).bind fun timestamp => ?_
  simp only [Prog.pure_eq, Prog.ok_bind]
  cases hcanon : canonicalJson (.dict (payload.getD [])) with
  | error e => exact trivial
  | ok text =>
    simp only [Prog.ok_bind]
    refine (Prog.uses_execute ?_).bind fun _ => (Prog.uses_commit trivial).bind fun _ => trivial
    exact ⟨⟨timestamp, actor, action, eventType, ⟨text, _, hcanon⟩, _, _⟩, _, _, rfl⟩

theorem calendarTime_of_genTime {token : Option TSAResponse} {text : Option String} (h : genTimeIso? token = .ok text) :
    ∃ t : Option CalendarTime, text = t.map fun t => strftime t.civil := by
  cases token with
  | none =>
    cases h
    exact ⟨none, rfl⟩
  | some r =>
    obtain ⟨s, hs, htext⟩ := ExceptResults.bind_ok h
    cases htext
    unfold genTimeIso at hs
    split at hs <;> cases hs
    rename_i c hc
    exact ⟨some ⟨c, (instant_toUtc hc).1⟩, rfl⟩

theorem issued_insertAnchor (chainHeadHash : String) (chainHeadEntryId : ℤ) (otsProofBlob : Option Bytes)
    (calendarServers : List String) (token : Option TSAResponse) :
    (insertAnchor (L := L) chainHeadHash chainHeadEntryId otsProofBlob calendarServers token).Uses (Op.inside Issued) := by
  have hr := allowsReads_inside (Q := Request) Issued
  refine (Prog.uses_connection hr).bind fun c => (Prog.uses_external hr _).bind fun submittedAt => ?_
  cases htext : genTimeIso? token with
  | error e => exact trivial
  | ok text =>
    obtain ⟨genTime, rfl⟩ := calendarTime_of_genTime htext
    simp only [Prog.ok_bind]
    refine (Prog.uses_execute ?_).bind fun _ => (Prog.uses_commit trivial).bind fun _ => trivial
    exact ⟨⟨chainHeadHash, otsProofBlob, submittedAt, calendarServers, _, _, genTime⟩, chainHeadEntryId, rfl⟩

theorem issued_anchor (schedule ledgerSchedule : Option AnchorSchedule) :
    (Ledger.anchor (L := L) schedule ledgerSchedule).Guarded Issued false := by
  have hr := allowsReads_inside (Q := Request) Issued
  unfold Ledger.anchor
  split
  · refine Prog.Uses.withLock ((uses_getLatestEntry hr).bind fun latest => ?_)
    cases latest with
    | none => exact trivial
    | some e =>
      refine (Prog.uses_done _).bind fun bytes => (uses_submitOtsTrack hr _ _).bind fun ots => ?_
      refine (uses_submitTsaTrack hr _ _ _).bind fun tsa => ?_
      dsimp only
      split
      · exact trivial
      · exact (issued_insertAnchor _ _ _ _ _).bind fun _ => trivial
  · rfl

theorem issued_attestWithWitness (witnessId : ℤ) (signer : Signer) :
    (attestWithWitness (L := L) witnessId signer).Guarded Issued false := by
  have hr := allowsReads_inside (Q := Request) Issued
  refine (Prog.uses_connection allowsReads_isRead).guarded.bind fun c =>
    Prog.Uses.withLock ((uses_getWitness hr _).bind fun witness => ?_)
  split
  · exact trivial
  split
  · exact trivial
  refine (uses_getLatestEntry hr).bind fun latest => ?_
  cases latest with
  | none => exact trivial
  | some e =>
    refine (uses_getLastWitnessAttestationHash hr _).bind fun prev => (Prog.uses_external hr _).bind fun signedAt => ?_
    refine (Prog.uses_execute ?_).bind fun _ => (Prog.uses_commit trivial).bind fun _ => trivial
    exact ⟨⟨signedAt, prev, _⟩, rfl⟩

theorem issued_body (call : Call) : (call.body (L := L)).Guarded Issued false := by
  have hr : AllowsReads (Op.isRead : Op Statement Request → Prop) := allowsReads_isRead
  cases call with
  | log => exact (issued_log _ _ _ _ _).bind fun _ => rfl
  | anchor => exact (issued_anchor _ _).bind fun _ => rfl
  | confirmAnchor =>
    exact (guarded_confirmAnchor_at (fun _ _ _ c hc => ⟨⟨c, hc⟩, rfl⟩) _ _ _ _).bind fun _ => rfl
  | registerWitness => exact (guarded_registerWitness fun createdAt => ⟨createdAt, rfl⟩).bind fun _ => rfl
  | retireWitness => exact (guarded_retireWitness fun retiredAt => ⟨retiredAt, rfl⟩).bind fun _ => rfl
  | attestWithWitness => exact (issued_attestWithWitness _ _).bind fun _ => rfl
  | verifyChain => exact (uses_verifyChain hr _).guarded.bind fun _ => rfl
  | verifyWitnessAttestations => exact (uses_verifyWitnessAttestations hr _ _).guarded.bind fun _ => rfl

/-- No method and no poller issues another statement. -/
theorem issued_service (call : ServiceCall) : (call.body (T := T)).Guarded Issued false := by
  cases call with
  | ledger call => exact (guarded_embed (issued_body call)).bind fun _ => rfl
  | query q => exact (guarded_query q).bind fun _ => rfl
  | upgradePendingAnchors maxAgeMinutes =>
    exact (guarded_upgradePendingAnchors (fun _ _ _ _ c hc => ⟨⟨c, hc⟩, rfl⟩) maxAgeMinutes).bind fun _ => rfl

end Programs

end NexusCone.FiledRecords
