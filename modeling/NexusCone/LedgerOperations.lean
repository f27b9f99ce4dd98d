import NexusCone.Ledger

/-!
# Which operations each call can perform

The reads and the requests around a call write nothing, and every call writes with at most one
kind of statement, under the lock of its ledger.
-/
namespace NexusCone.LedgerOperations
open HexBytes SharedFile AsyncProgram Prog PyValue LedgerSchema EntryChain WitnessChain WitnessCursor
  TimestampAuthority Ledger

variable [IsoTime.Platform] {L : Libraries} {allowed : Op Statement Request → Prop}

section Reads

variable (h : AllowsReads allowed)

include h

theorem uses_getWitness (witnessId : ℤ) : (getWitness (L := L) witnessId).Uses allowed := by
  refine (uses_connection h).bind fun c => (uses_select h c).bind fun d => ?_
  cases d.witnesses.find? witnessId with
  | none => exact trivial
  | some row => exact uses_done _

omit [IsoTime.Platform] in
theorem uses_getLastWitnessAttestationHash (witnessId : ℤ) :
    (getLastWitnessAttestationHash (L := L) witnessId).Uses allowed :=
  (uses_connection h).bind fun c => (uses_select h c).bind fun _ => trivial

omit [IsoTime.Platform] in
theorem uses_getLatestEntry : (getLatestEntry (L := L)).Uses allowed := by
  refine (uses_connection h).bind fun c => (uses_select h c).bind fun d => ?_
  cases d.entries.last? with
  | none => exact trivial
  | some row => exact (uses_done _).bind fun _ => trivial

theorem uses_submitToTsa (digest : Bytes) (tsaUrl : String) :
    (submitToTsa L digest tsaUrl : Action L TSAResponse).Uses allowed := by
  refine (uses_done _).bind fun der => ?_
  generalize newRequest tsaUrl der = httpRequest
  refine (uses_done _).bind fun request => ?_
  refine (uses_external h _).attempt.bind fun reply => ?_
  cases reply with
  | ok p => exact uses_done _
  | error e => dsimp only; split <;> exact trivial

theorem uses_submitTsaTrack (digest : Bytes) (lastError : Option String) (urls : List String) :
    (submitTsaTrack (L := L) digest lastError urls).Uses allowed := by
  induction urls generalizing lastError with
  | nil => exact trivial
  | cons url urls ih =>
    refine (uses_submitToTsa h digest url).attempt.bind fun r => ?_
    cases r with
    | ok response => exact trivial
    | error e =>
      cases e with
      | tsaError m => exact ih _
      | _ => exact trivial

omit [IsoTime.Platform] in
theorem uses_submitToCalendars (digest : Bytes) (merged : L.Timestamp) (successful : List String)
    (errors : List (String × String)) (urls : List String) :
    (submitToCalendars digest merged successful errors urls).Uses allowed := by
  induction urls generalizing merged successful errors with
  | nil => exact trivial
  | cons url urls ih =>
    refine (uses_external h _).attempt.bind fun r => ?_
    cases r with
    | ok stamp => exact (uses_done _).bind fun merged => ih _ _ _
    | error e => dsimp only; split; exacts [ih _ _ _, trivial]

omit [IsoTime.Platform] in
theorem uses_submitOtsTrack (digest : Bytes) (calendarServers : List String) :
    (submitOtsTrack (L := L) digest calendarServers).Uses allowed := by
  refine (uses_submitToCalendars h _ _ _ _ _).bind fun p => ?_
  obtain ⟨merged, successful, errors⟩ := p
  dsimp only
  split
  · exact trivial
  · exact (uses_done _).bind fun _ => trivial

theorem uses_getAnchor (anchorId : ℤ) (db : ConnId) :
    (getAnchor (L := L) anchorId db).Uses allowed := by
  refine (uses_select h db).bind fun d => ?_
  cases d.anchors.find? anchorId with
  | none => exact trivial
  | some row => exact uses_done _

omit [IsoTime.Platform] in
theorem uses_confirmationTime (confirmedAt : Option IsoTime.DateTime) :
    (confirmationTime (L := L) confirmedAt).Uses allowed := by
  cases confirmedAt with
  | none => exact (uses_external h _).bind fun _ => trivial
  | some t => exact trivial

omit [IsoTime.Platform] in
theorem uses_verifyChain (verifier : Option Verifier) :
    (verifyChain (L := L) verifier).Uses allowed :=
  (uses_connection h).bind fun c => (uses_select h c).bind fun _ => uses_done _

omit [IsoTime.Platform] in
theorem uses_walkFetches {verifier : Verifier} {byId : ℤ → Option Witness} {c : ConnId} (scan : Scan)
    (prev : ℤ → String) (n : ℕ) : (walkFetches (L := L) verifier byId c scan prev n).Uses allowed := by
  induction scan generalizing prev n with
  | last => exact (uses_select h c).bind fun _ => trivial
  | fetch rows rest ih =>
    refine (uses_select h c).bind fun d => ?_
    dsimp only
    split
    · exact trivial
    · exact (uses_done _).bind fun _ => ih _ _ _

theorem uses_verifyWitnessAttestations (verifier : Verifier) (cursor : Cursor) :
    (verifyWitnessAttestations (L := L) verifier cursor).Uses allowed :=
  (uses_connection h).bind fun c => (uses_select h c).bind fun _ =>
    (uses_done _).bind fun _ => (uses_select h c).bind fun _ => uses_walkFetches h _ _ _

end Reads

section Writes

variable {statement : Statement → Prop}

theorem guarded_log_of_rows {actor action : String} {signer : Option Signer} {eventType : String}
    (hs : ∀ tip timestamp text,
      statement (.insertEntry (entryAfter tip timestamp actor action eventType text signer)))
    (payload : Option (List (PyKey × PyVal))) :
    (log (L := L) actor action payload signer eventType).Guarded statement false := by
  have hr := allowsReads_inside (Q := Request) statement
  refine (uses_connection allowsReads_isRead).guarded.bind fun c => Uses.withLock ((uses_select hr c).bind fun d => ?_)
  refine Uses.bind (p := utcNowIso) ((uses_external hr _).bind fun _ => trivial) fun timestamp => ?_
  refine (uses_done _).bind fun text => ?_
  exact (uses_execute (hs _ _ _)).bind fun _ => (uses_commit trivial).bind fun _ => trivial

theorem guarded_log (hs : ∀ row, row.entryHash = recomputed row → statement (.insertEntry row))
    (actor action : String) (payload : Option (List (PyKey × PyVal))) (signer : Option Signer) (eventType : String) :
    (log (L := L) actor action payload signer eventType).Guarded statement false :=
  guarded_log_of_rows (fun _ _ _ => hs _ rfl) payload

theorem guarded_attestWithWitness {witnessId : ℤ} {signer : Signer}
    (hs : ∀ a, a.witnessId = witnessId → a.attestationHash = recomputedAttestation (a.row 0) →
      a.signatureHex = hex (signer.sign ((fromHex a.attestationHash).getD [])) → statement (.insertAttestation a)) :
    (attestWithWitness (L := L) witnessId signer).Guarded statement false := by
  have hr := allowsReads_inside (Q := Request) statement
  refine (uses_connection allowsReads_isRead).guarded.bind fun c =>
    Uses.withLock ((uses_getWitness hr _).bind fun witness => ?_)
  split
  · exact trivial
  split
  · exact trivial
  refine (uses_getLatestEntry hr).bind fun latest => ?_
  cases latest with
  | none => exact trivial
  | some e =>
    refine (uses_getLastWitnessAttestationHash hr _).bind fun prev => (uses_external hr _).bind fun signedAt => ?_
    refine (uses_execute (hs _ rfl rfl rfl)).bind fun _ => ?_
    exact (uses_commit trivial).bind fun _ => trivial

theorem uses_insertAnchor (hs : ∀ a, statement (.insertAnchor a)) (chainHeadHash : String)
    (chainHeadEntryId : ℤ) (otsProofBlob : Option Bytes) (calendarServers : List String)
    (tsaResponse : Option TSAResponse) :
    (insertAnchor (L := L) chainHeadHash chainHeadEntryId otsProofBlob calendarServers
      tsaResponse).Uses (Op.inside statement) := by
  have hr := allowsReads_inside (Q := Request) statement
  refine (uses_connection hr).bind fun c => (uses_external hr _).bind fun submittedAt => ?_
  refine (uses_done _).bind fun iso => (uses_execute (hs _)).bind fun n => ?_
  exact (uses_commit trivial).bind fun _ => trivial

theorem guarded_anchor (hs : ∀ a, statement (.insertAnchor a)) (schedule ledgerSchedule : Option AnchorSchedule) :
    (anchor (L := L) schedule ledgerSchedule).Guarded statement false := by
  have hr := allowsReads_inside (Q := Request) statement
  unfold anchor
  split
  · refine Uses.withLock ((uses_getLatestEntry hr).bind fun latest => ?_)
    cases latest with
    | none => exact trivial
    | some e =>
      refine (uses_done _).bind fun bytes => (uses_submitOtsTrack hr _ _).bind fun ots => ?_
      refine (uses_submitTsaTrack hr _ _ _).bind fun tsa => ?_
      dsimp only
      split
      · exact trivial
      · exact (uses_insertAnchor hs _ _ _ _ _).bind fun _ => trivial
  · rfl

theorem guarded_confirmAnchor (hs : ∀ a b n x y, statement (.confirmAnchor a b n x y))
    (anchorId : ℤ) (blob : Bytes) (height : ℤ) (blockHash : Option String)
    (confirmedAt : Option IsoTime.DateTime) :
    (confirmAnchor (L := L) anchorId blob height blockHash confirmedAt).Guarded statement false := by
  have hr : AllowsReads (Op.isRead : Op Statement Request → Prop) := allowsReads_isRead
  refine (uses_confirmationTime hr _).guarded.bind fun time => (uses_connection hr).guarded.bind fun c => ?_
  refine Guarded.bind (Uses.withLock ?_) fun _ => (uses_getAnchor hr _ _).guarded
  exact (uses_execute (hs _ _ _ _ _)).bind fun _ => uses_commit trivial

theorem guarded_registerWitness {label publicKeyHex role : String}
    (hs : ∀ createdAt : IsoTime.UtcTime,
      statement (.insertWitness ⟨label, publicKeyHex, role, IsoTime.strftime createdAt.civil⟩)) :
    (registerWitness (L := L) label publicKeyHex role).Guarded statement false := by
  have hr : AllowsReads (Op.isRead : Op Statement Request → Prop) := allowsReads_isRead
  unfold registerWitness
  split
  · refine (uses_connection hr).guarded.bind fun c => (uses_external hr _).guarded.bind fun createdAt => ?_
    refine Guarded.bind (Uses.withLock ?_) fun _ => rfl
    exact (uses_execute (hs createdAt)).bind fun _ => (uses_commit trivial).bind fun _ => trivial
  · rfl

theorem guarded_retireWitness {witnessId : ℤ}
    (hs : ∀ retiredAt : IsoTime.UtcTime, statement (.retireWitness witnessId (IsoTime.strftime retiredAt.civil))) :
    (retireWitness (L := L) witnessId).Guarded statement false := by
  have hr : AllowsReads (Op.isRead : Op Statement Request → Prop) := allowsReads_isRead
  refine (uses_connection hr).guarded.bind fun c => (uses_external hr _).guarded.bind fun retiredAt => ?_
  refine Guarded.bind (Uses.withLock ?_) fun _ => (uses_getWitness hr _).guarded
  exact (uses_execute (hs retiredAt)).bind fun _ => uses_commit trivial

/-- The predicate holds of whatever statement the call may issue. -/
def Admits (statement : Statement → Prop) : Call → Prop
  | .log .. => ∀ row, statement (.insertEntry row)
  | .anchor .. => ∀ a, statement (.insertAnchor a)
  | .confirmAnchor .. => ∀ a b n x y, statement (.confirmAnchor a b n x y)
  | .registerWitness label publicKeyHex role => ∀ createdAt : IsoTime.UtcTime,
    statement (.insertWitness ⟨label, publicKeyHex, role, IsoTime.strftime createdAt.civil⟩)
  | .retireWitness witnessId => ∀ retiredAt : IsoTime.UtcTime,
    statement (.retireWitness witnessId (IsoTime.strftime retiredAt.civil))
  | .attestWithWitness .. => ∀ a, statement (.insertAttestation a)
  | .verifyChain _ => True
  | .verifyWitnessAttestations _ _ => True

/-- Every call writes under the lock of its ledger only. -/
theorem guarded_body {call : Call} (h : Admits statement call) : (call.body (L := L)).Guarded statement false := by
  have hr : AllowsReads (Op.isRead : Op Statement Request → Prop) := allowsReads_isRead
  cases call with
  | log => exact (guarded_log (fun row _ => h row) _ _ _ _ _).bind fun _ => rfl
  | anchor => exact (guarded_anchor h _ _).bind fun _ => rfl
  | confirmAnchor => exact (guarded_confirmAnchor h _ _ _ _ _).bind fun _ => rfl
  | registerWitness => exact (guarded_registerWitness h).bind fun _ => rfl
  | retireWitness => exact (guarded_retireWitness h).bind fun _ => rfl
  | attestWithWitness => exact (guarded_attestWithWitness fun a _ _ _ => h a).bind fun _ => rfl
  | verifyChain => exact (uses_verifyChain hr _).guarded.bind fun _ => rfl
  | verifyWitnessAttestations => exact (uses_verifyWitnessAttestations hr _ _).guarded.bind fun _ => rfl

/-- The statements that the call may issue. -/
def MayIssue : Call → Statement → Prop
  | .log .., .insertEntry _ => True
  | .anchor .., .insertAnchor _ => True
  | .confirmAnchor .., .confirmAnchor .. => True
  | .registerWitness label publicKeyHex role, .insertWitness w =>
    ∃ createdAt : IsoTime.UtcTime, w = ⟨label, publicKeyHex, role, IsoTime.strftime createdAt.civil⟩
  | .retireWitness witnessId, .retireWitness k time =>
    k = witnessId ∧ ∃ retiredAt : IsoTime.UtcTime, time = IsoTime.strftime retiredAt.civil
  | .attestWithWitness .., .insertAttestation _ => True
  | _, _ => False

theorem admits_of_mayIssue {call : Call} (h : ∀ s, MayIssue call s → statement s) : Admits statement call := by
  cases call with
  | log => exact fun row => h _ trivial
  | anchor => exact fun a => h _ trivial
  | confirmAnchor => exact fun _ _ _ _ _ => h _ trivial
  | registerWitness => exact fun createdAt => h _ ⟨createdAt, rfl⟩
  | retireWitness => exact fun retiredAt => h _ ⟨rfl, retiredAt, rfl⟩
  | attestWithWitness => exact fun a => h _ trivial
  | verifyChain | verifyWitnessAttestations => trivial

end Writes

end NexusCone.LedgerOperations
