import NexusCone.EntryReads
import NexusCone.PollerRuns
import NexusCone.TimeRangeQueries

/-!
# Everything that runs on a ledger file

The methods that only read the tables, and the system whose tasks are any of the ledger's methods or
runs of the poller, on any number of instances.
-/
namespace NexusCone.Service
open SharedFile AsyncProgram AsyncSystem EmbeddedPrograms PyValue LedgerSchema EntryChain WitnessChain
  TimestampAuthority Ledger LedgerOperations LedgerRuns EntryReads TimeRangeQueries Poller

section Reads

variable [IsoTime.Platform] {L : Libraries}

/-- The number of entries currently in the chain. -/
def count : Action L ℕ := do
  let db ← requireDb
  return (← Prog.select db).entries.rows.length

/-- Fetch a single anchor by id. -/
def getAnchor (anchorId : ℤ) : Action L AnchorRecord := do
  let db ← requireDb
  Ledger.getAnchor anchorId db

/-- List anchors ordered by anchor_id. -/
def getAnchors (confirmed : Option Bool) (limit : ℤ) : Action L (List AnchorRecord) := do
  let db ← requireDb
  Prog.done (VerifierCli.getAnchors confirmed limit (← Prog.select db))

/-- Return all witnesses, ordered by witness_id. -/
def listWitnesses (includeRetired : Bool) : Action L (List Witness) := do
  let db ← requireDb
  let rows := (← Prog.select db).witnesses.rows.filter fun row => includeRetired || row.retiredAt.isNone
  Prog.done (rows.mapM rowToWitness)

end Reads

inductive Query where
  | getEntry (entryId : ℤ)
  | getEntries (q : EntriesQuery)
  | count
  | getAnchor (anchorId : ℤ)
  | getAnchors (confirmed : Option Bool) (limit : ℤ)
  | listUnconfirmedAnchors (maxAgeMinutes : Option ℤ) (limit : ℤ)
  | listWitnesses (includeRetired : Bool)
  | getWitnessAttestations (q : AttestationsQuery)

inductive Answer where
  | entry (e : LedgerEntry)
  | entries (es : List LedgerEntry)
  | count (n : ℕ)
  | anchor (a : AnchorRecord)
  | anchors (as : List AnchorRecord)
  | witnesses (ws : List Witness)
  | attestations (as : List WitnessAttestation)

section Programs

variable [IsoTime.Platform] {T : Proofs}

/-- The program of a reading method. -/
def Query.body : Query → PollerAction T Answer
  | .getEntry entryId => return .entry (← embed (PollerReply T) (EntryReads.getEntry (L := T.libraries) entryId))
  | .getEntries q => return .entries (← embed (PollerReply T) (TimeRangeQueries.getEntries (L := T.libraries) q))
  | .count => return .count (← embed (PollerReply T) (Service.count (L := T.libraries)))
  | .getAnchor anchorId => return .anchor (← embed (PollerReply T) (Service.getAnchor (L := T.libraries) anchorId))
  | .getAnchors confirmed limit =>
    return .anchors (← embed (PollerReply T) (Service.getAnchors (L := T.libraries) confirmed limit))
  | .listUnconfirmedAnchors maxAgeMinutes limit => return .anchors (← Poller.listUnconfirmedAnchors maxAgeMinutes limit)
  | .listWitnesses includeRetired =>
    return .witnesses (← embed (PollerReply T) (Service.listWitnesses (L := T.libraries) includeRetired))
  | .getWitnessAttestations q =>
    return .attestations (← embed (PollerReply T) (TimeRangeQueries.getWitnessAttestations (L := T.libraries) q))

/-- A method of a ledger, or a run of the poller over it. -/
inductive ServiceCall where
  | ledger (call : Call)
  | query (q : Query)
  | upgradePendingAnchors (maxAgeMinutes : Option ℤ)

inductive ServiceResult where
  | ledger (r : Result)
  | answer (a : Answer)
  | counts (t : PollCounts)

def ServiceCall.body : ServiceCall → PollerAction T ServiceResult
  | .ledger call => return .ledger (← embed (PollerReply T) (call.body (L := T.libraries)))
  | .query q => return .answer (← q.body)
  | .upgradePendingAnchors maxAgeMinutes => return .counts (← Poller.upgradePendingAnchors maxAgeMinutes)

end Programs

abbrev ServiceRequest : Type := Request ⊕ PollerRequest

abbrev ServiceReply (T : Proofs) : ServiceRequest → Type := Sum.elim (Reply T.libraries) (PollerReply T)

abbrev ServiceSys (T : Proofs) (W : Type) :=
  Sys Database Statement W ServiceRequest (ServiceReply T) PyError ServiceCall ServiceResult

abbrev ServiceEvent (T : Proofs) (W : Type) := Event ServiceRequest (ServiceReply T) PyError W ServiceCall

abbrev ServiceRules (T : Proofs) (W : Type) :=
  Rules Database Statement W ServiceRequest (ServiceReply T) PyError ServiceCall

abbrev ServiceRun [IsoTime.Platform] {T : Proofs} {W : Type} (rules : ServiceRules T W) : ServiceSys T W → ServiceSys T W → Prop :=
  Run ServiceCall.body rules

def startService {T : Proofs} {W : Type} (d : Database) (w : W) : ServiceSys T W := ⟨startShared d w, []⟩

section Locks

variable [IsoTime.Platform] {T : Proofs} {L : Libraries}

omit [IsoTime.Platform] in
theorem uses_fetchAll {α : Type} (f : Database → Except PyError α) :
    (requireDb >>= fun db => Prog.select db >>= fun d => Prog.done (f d) : Action L α).Uses Op.isRead :=
  (Prog.uses_connection allowsReads_isRead).bind fun db =>
    (Prog.uses_select allowsReads_isRead db).bind fun _ => Prog.uses_done _

theorem guarded_listUnconfirmedAnchors {statement : Statement → Prop} (maxAgeMinutes : Option ℤ) (limit : ℤ) :
    (Poller.listUnconfirmedAnchors (T := T) maxAgeMinutes limit).Guarded statement false := by
  refine (Prog.uses_connection allowsReads_isRead).guarded.bind fun db => ?_
  have hrest (f : Database → Except PyError (List AnchorRecord)) :
      (Prog.select db >>= fun d => Prog.done (f d) : PollerAction T (List AnchorRecord)).Guarded statement false :=
    (Prog.uses_select allowsReads_isRead db).guarded.bind fun _ => (Prog.uses_done _).guarded
  cases maxAgeMinutes with
  | none => exact hrest _
  | some minutes =>
    have hnow : (Ledger.now (L := T.libraries)).Guarded statement false :=
      (Prog.uses_external allowsReads_isRead _).guarded
    exact (guarded_embed hnow).bind fun _ => (Prog.uses_done _).guarded.bind fun _ => hrest _

theorem guarded_query {statement : Statement → Prop} (q : Query) :
    (q.body (T := T)).Guarded statement false := by
  have hread {α : Type} {p : Action T.libraries α} (hp : p.Uses Op.isRead) (f : α → Answer) :
      (embed (PollerReply T) p >>= fun a => pure (f a) : PollerAction T Answer).Guarded statement false :=
    (guarded_embed hp.guarded).bind fun _ => rfl
  cases q with
  | getEntry entryId => exact hread (uses_getEntry entryId) _
  | getEntries q => exact hread (uses_fetchAll _) _
  | count => exact hread (uses_fetchAll _) _
  | getAnchor anchorId =>
    refine hread (p := Service.getAnchor anchorId) ?_ _
    exact (Prog.uses_connection allowsReads_isRead).bind fun db => uses_getAnchor allowsReads_isRead anchorId db
  | getAnchors confirmed limit => exact hread (uses_fetchAll _) _
  | listUnconfirmedAnchors maxAgeMinutes limit => exact (guarded_listUnconfirmedAnchors _ _).bind fun _ => rfl
  | listWitnesses includeRetired => exact hread (uses_fetchAll _) _
  | getWitnessAttestations q => exact hread (uses_fetchAll _) _

omit [IsoTime.Platform] in
theorem guarded_queryCalendars {statement : Statement → Prop} (ts : T.Timestamp) (pairs : List (HexBytes.Bytes × String)) :
    (queryCalendars ts pairs).Guarded statement false := by
  induction pairs generalizing ts with
  | nil => rfl
  | cons pair pairs ih =>
    obtain ⟨commitment, uri⟩ := pair
    have hask : (calendarGetTimestamp (T := T) uri commitment).Guarded statement false :=
      (Prog.uses_external allowsReads_isRead _).guarded
    refine hask.attempt.bind fun r => ?_
    cases r with
    | ok upgraded => exact (Prog.uses_done _).guarded.bind fun ts => ih ts
    | error e => dsimp only; split; exacts [ih ts, rfl]

omit [IsoTime.Platform] in
theorem guarded_fetchBlockHash {statement : Statement → Prop} (height : ℤ) :
    (fetchBitcoinBlockHashAtHeight (T := T) height).Guarded statement false := by
  have hask : (Poller.urlopen (T := T) (mempoolSpaceBlockByHeightUrl height)).Guarded statement false :=
    (Prog.uses_external allowsReads_isRead _).guarded
  refine hask.attempt.bind fun r => ?_
  cases r with
  | ok page => rfl
  | error e => dsimp only; split <;> rfl

variable {statement : Statement → Prop}

/-- The time of a confirmation is a time of the calendar. -/
theorem guarded_confirmAnchor_at {anchorId : ℤ}
    (hs : ∀ b n x (c : IsoTime.Civil), c.Valid → statement (.confirmAnchor anchorId b n x (IsoTime.strftime c)))
    (blob : HexBytes.Bytes) (height : ℤ) (blockHash : Option String) (confirmedAt : Option IsoTime.DateTime) :
    (Ledger.confirmAnchor (L := L) anchorId blob height blockHash confirmedAt).Guarded statement false := by
  have hr : AllowsReads (Op.isRead : Op Statement Request → Prop) := allowsReads_isRead
  have hrest (c : IsoTime.Civil) (hc : c.Valid) : (requireDb >>= fun db =>
      Prog.withLock (Prog.execute db (.confirmAnchor anchorId blob height blockHash (IsoTime.strftime c)) >>= fun _ =>
        Prog.commit db) >>= fun _ => Ledger.getAnchor anchorId db : Action L AnchorRecord).Guarded statement false := by
    refine (Prog.uses_connection hr).guarded.bind fun db => Prog.Guarded.bind (Prog.Uses.withLock ?_) fun _ =>
      (uses_getAnchor hr _ _).guarded
    exact (Prog.uses_execute (hs _ _ _ c hc)).bind fun _ => Prog.uses_commit trivial
  unfold Ledger.confirmAnchor
  cases confirmedAt with
  | some t => exact hrest t.civil t.valid.1
  | none =>
    rw [confirmationTime, bind_assoc]
    exact (Prog.uses_external hr _).guarded.bind fun t => hrest t.civil t.valid.1

theorem guarded_upgradeOne {anchor : AnchorRecord}
    (hs : ∀ b n x (c : IsoTime.Civil), c.Valid → statement (.confirmAnchor anchor.anchorId b n x (IsoTime.strftime c))) :
    (upgradeOne (T := T) anchor).Guarded statement false := by
  unfold upgradeOne
  split
  · rfl
  refine (Prog.uses_done _).guarded.bind fun chainHead => (Prog.uses_done _).guarded.bind fun ts => ?_
  split
  · rfl
  refine (guarded_queryCalendars _ _).bind fun ts => ?_
  split
  · rfl
  refine (Prog.uses_done _).guarded.bind fun blob => (guarded_fetchBlockHash _).bind fun blockHash => ?_
  have hnow : (Ledger.now (L := T.libraries)).Guarded statement false :=
    (Prog.uses_external allowsReads_isRead _).guarded
  refine (guarded_embed hnow).bind fun confirmedAt => (guarded_embed ?_).bind fun _ => rfl
  exact guarded_confirmAnchor_at hs _ _ _ _

/-- Only anchors of the list are confirmed. -/
theorem guarded_upgradeEach {anchors : List AnchorRecord}
    (hs : ∀ anchor ∈ anchors, ∀ b n x (c : IsoTime.Civil), c.Valid →
      statement (.confirmAnchor anchor.anchorId b n x (IsoTime.strftime c))) (t : PollCounts) :
    (upgradeEach (T := T) t anchors).Guarded statement false := by
  induction anchors generalizing t with
  | nil => rfl
  | cons anchor anchors ih =>
    obtain ⟨hanchor, hanchors⟩ := List.forall_mem_cons.mp hs
    refine (guarded_upgradeOne hanchor).attempt.bind fun r => ?_
    cases r with
    | ok outcome => exact ih hanchors _
    | error e => dsimp only; split; exacts [ih hanchors _, rfl]

theorem guarded_upgradePendingAnchors
    (hs : ∀ a b n x (c : IsoTime.Civil), c.Valid → statement (.confirmAnchor a b n x (IsoTime.strftime c)))
    (maxAgeMinutes : Option ℤ) : (Poller.upgradePendingAnchors (T := T) maxAgeMinutes).Guarded statement false :=
  (guarded_listUnconfirmedAnchors maxAgeMinutes 500).bind fun _ => guarded_upgradeEach (fun _ _ => hs _) _

end Locks

/-- The predicate holds of whatever statement the call may issue. -/
def ServiceCall.Admits [IsoTime.Platform] (statement : Statement → Prop) : ServiceCall → Prop
  | .ledger call => LedgerOperations.Admits statement call
  | .query _ => True
  | .upgradePendingAnchors _ => ∀ a b n x y, statement (.confirmAnchor a b n x y)

/-- Every method writes under the lock of its ledger only, and so does the poller. -/
theorem guarded_service [IsoTime.Platform] {T : Proofs} {statement : Statement → Prop} {call : ServiceCall}
    (h : call.Admits statement) :
    (call.body (T := T)).Guarded statement false := by
  cases call with
  | ledger call => exact (guarded_embed (guarded_body h)).bind fun _ => rfl
  | query q => exact (guarded_query q).bind fun _ => rfl
  | upgradePendingAnchors maxAgeMinutes => exact (guarded_upgradePendingAnchors (fun a b n x c _ => h a b n x _) maxAgeMinutes).bind fun _ => rfl

theorem admits_any [IsoTime.Platform] (call : ServiceCall) : call.Admits fun _ => True := by
  cases call with
  | ledger call => cases call <;> simp [ServiceCall.Admits, LedgerOperations.Admits]
  | query q => trivial
  | upgradePendingAnchors maxAgeMinutes => exact fun _ _ _ _ _ => trivial

end NexusCone.Service
