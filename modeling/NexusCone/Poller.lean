import Mathlib.Data.FinEnum
import NexusCone.EmbeddedPrograms
import NexusCone.OpTrees
import NexusCone.VerifierCli

/-!
# The upgrade of pending anchors

`upgrade_pending_anchors` and what it calls. A proof is a tree of operations; the calendars and the
block explorer answer requests beside those of the ledger.
-/
namespace NexusCone.Poller
open HexBytes PyValue IsoTime KeyedTable SharedFile AsyncProgram EmbeddedPrograms OpTrees LedgerSchema
  TimestampAuthority Ledger VerifierCli

/-- The OpenTimestamps library, whose timestamps are trees, and the decoding of the other one. -/
structure Proofs where
  Op : Type
  Attestation : Type
  AttestationSet : Type
  [opOrder : LinearOrder Op]
  [attestationOrder : LinearOrder Attestation]
  [attestationSet : FiniteSet AttestationSet Attestation]
  [operation : Operation Op Bytes PyError]
  kind : Attestation → TimeAttestation
  serialize : OpTree Op Bytes AttestationSet → Except PyError Bytes
  deserialize : Bytes → Bytes → Except PyError (OpTree Op Bytes AttestationSet)
  timestampRequest : Bytes → Except PyError Bytes
  decodeTimestampResponse : Bytes → Except PyError TimestampResponse

attribute [instance] Proofs.opOrder Proofs.attestationOrder Proofs.attestationSet Proofs.operation

abbrev Proofs.Timestamp (T : Proofs) : Type := OpTree T.Op Bytes T.AttestationSet

def Proofs.libraries (T : Proofs) : Libraries where
  Timestamp := T.Timestamp
  newTimestamp digest := .node digest FiniteSet.empty []
  merge := OpTree.merge
  serialize := T.serialize
  deserialize := T.deserialize
  allAttestations ts := ts.allAttestations.map fun p => (p.1, T.kind p.2)
  timestampRequest := T.timestampRequest
  decodeTimestampResponse := T.decodeTimestampResponse

/-- What the poller asks beside the ledger's own requests. -/
inductive PollerRequest where
  | getTimestamp (uri : String) (commitment : Bytes)
  | urlopen (url : String)
  deriving DecidableEq

abbrev PollerReply (T : Proofs) : PollerRequest → Type
  | .getTimestamp _ _ => T.Timestamp
  | .urlopen _ => ℤ × Bytes

abbrev PollerAction (T : Proofs) (α : Type) :=
  Prog Database Statement (Request ⊕ PollerRequest) (Sum.elim (Reply T.libraries) (PollerReply T)) PyError α

variable {T : Proofs}

def calendarGetTimestamp (uri : String) (commitment : Bytes) : PollerAction T T.Timestamp :=
  Prog.external (Sum.inr (PollerRequest.getTimestamp uri commitment))

def urlopen (url : String) : PollerAction T (ℤ × Bytes) := Prog.external (Sum.inr (PollerRequest.urlopen url))

section Trees

/-- `_collect_pending`: the messages of the pending attestations, each with its calendar. -/
def collectPending : T.Timestamp → List (Bytes × String)
  | .node msg attestations ops =>
    (elements attestations).filterMap (fun a => match T.kind a with
      | .pending uri => some (msg, uri)
      | _ => none) ++ walk ops
where
  walk : List (T.Op × T.Timestamp) → List (Bytes × String)
    | [] => []
    | (_, child) :: ops => collectPending child ++ walk ops

/-- `_merge_at_commitment`: the tree with the upgrade merged at the first node of this message;
`none` where there is no such node. -/
def mergeAtCommitment (commitment : Bytes) (upgraded : T.Timestamp) :
    T.Timestamp → Except PyError (Option T.Timestamp)
  | .node msg attestations ops => do
    if msg = commitment then return some (← OpTree.merge (.node msg attestations ops) upgraded)
    else return (← walk ops).map (.node msg attestations)
where
  walk : List (T.Op × T.Timestamp) → Except PyError (Option (List (T.Op × T.Timestamp)))
    | [] => .ok none
    | (op, child) :: ops => do
      match ← mergeAtCommitment commitment upgraded child with
      | some child => return some ((op, child) :: ops)
      | none => return (← walk ops).map ((op, child) :: ·)

/-- The stored tree after `_merge_at_commitment` has changed it, if it has. -/
def mergeUpgrade (ts : T.Timestamp) (commitment : Bytes) (upgraded : T.Timestamp) : Except PyError T.Timestamp :=
  return (← mergeAtCommitment commitment upgraded ts).getD ts

end Trees

section BlockHash

def mempoolSpaceBlockByHeightUrl (height : ℤ) : String := s!"https://mempool.space/api/block-height/{height}"

/-- `body.decode("ascii").strip()`. -/
def strippedAscii (body : Bytes) : Option String :=
  if ∀ b ∈ body, b < 128 then some (String.ofList (strip (body.map fun b => Char.ofNat b.toNat))) else none

def readBlockHash (status : ℤ) (body : Bytes) : Option String :=
  if status ≠ 200 then none
  else match strippedAscii body with
    | some "" => none
    | text => text

/-- The block hash at a height, or `None` on any failure. -/
def fetchBitcoinBlockHashAtHeight (height : ℤ) : PollerAction T (Option String) := do
  match ← (urlopen (mempoolSpaceBlockByHeightUrl height)).attempt with
  | .ok (status, body) => return readBlockHash status body
  | .error e => if e.isException then return none else Prog.raise e

end BlockHash

/-- Ask every calendar in turn and merge what it returns; a calendar's exception is absorbed. -/
def queryCalendars : T.Timestamp → List (Bytes × String) → PollerAction T T.Timestamp
  | ts, [] => return ts
  | ts, (commitment, uri) :: pairs => do
    match ← (calendarGetTimestamp uri commitment).attempt with
    | .ok upgraded => queryCalendars (← Prog.done (mergeUpgrade ts commitment upgraded)) pairs
    | .error e => if e.isException then queryCalendars ts pairs else Prog.raise e

inductive Outcome where
  | upgraded
  | stillPending
  deriving DecidableEq

variable [Platform]

/-- Upgrade one anchor. -/
def upgradeOne (anchor : AnchorRecord) : PollerAction T Outcome :=
  match anchor.otsProofBlob with
  | none => Prog.raise (.other "AssertionError" "")
  | some otsProofBlob => do
    let chainHead ← Prog.done (bytesFromHex anchor.chainHeadHash)
    let ts ← Prog.done (T.deserialize otsProofBlob chainHead)
    if collectPending ts = [] then return .stillPending
    else
      let ts ← queryCalendars ts (collectPending ts)
      match firstBitcoinAttestation T.libraries ts with
      | none => return .stillPending
      | some height => do
        let upgradedBlob ← Prog.done (T.serialize ts)
        let blockHash ← fetchBitcoinBlockHashAtHeight height
        let confirmedAt ← embed (PollerReply T) (Ledger.now (L := T.libraries))
        let _ ← embed (PollerReply T) (Ledger.confirmAnchor (L := T.libraries) anchor.anchorId upgradedBlob height
          blockHash (some confirmedAt.toDateTime))
        return .upgraded

section Pending

/-- The calendar day so many days later, or earlier where the number is negative. -/
def addDays (c : Civil) : ℤ → Option Civil
  | .ofNat n => (· >>= Civil.dayAfter)^[n] (some c)
  | .negSucc n => (· >>= Civil.dayBefore)^[n + 1] (some c)

/-- `now - timedelta(minutes=minutes)`. -/
def minutesBefore (now : UtcTime) (minutes : ℤ) : Except PyError Civil :=
  let time := now.civil.clock.microseconds - minutes * 60000000
  match addDays now.civil (time / dayMicroseconds) with
  | some day => .ok { day with clock := Clock.ofMicroseconds (time % dayMicroseconds).toNat }
  | none => .error (.other "OverflowError" "date value out of range")

/-- `confirmed_at IS NULL AND ots_proof_blob IS NOT NULL AND submitted_at >= ?`. -/
def isUnconfirmed (cutoff : Option String) (row : AnchorRow) : Bool :=
  row.confirmedAt.isNone && row.otsProofBlob.isSome && cutoff.all fun cutoff => cutoff ≤ row.submittedAt

def listUnconfirmedAnchors (maxAgeMinutes : Option ℤ) (limit : ℤ) : PollerAction T (List AnchorRecord) := do
  let db ← Prog.connection
  let cutoff ← match maxAgeMinutes with
    | none => pure none
    | some minutes => do
      let now ← embed (PollerReply T) (Ledger.now (L := T.libraries))
      pure (some (strftime (← Prog.done (minutesBefore now minutes))))
  let d ← Prog.select db
  Prog.done ((sqlLimit limit (d.anchors.rows.filter (isUnconfirmed cutoff))).mapM rowToAnchor)

structure PollCounts where
  attempted : ℕ
  upgraded : ℕ
  stillPending : ℕ
  failed : ℕ

def PollCounts.count (t : PollCounts) : Outcome → PollCounts
  | .upgraded => { t with upgraded := t.upgraded + 1 }
  | .stillPending => { t with stillPending := t.stillPending + 1 }

/-- The loop over the pending anchors: one that raises is counted and does not end it. -/
def upgradeEach : PollCounts → List AnchorRecord → PollerAction T PollCounts
  | t, [] => return t
  | t, anchor :: anchors => do
    match ← (upgradeOne anchor).attempt with
    | .ok outcome => upgradeEach (t.count outcome) anchors
    | .error e => if e.isException then upgradeEach { t with failed := t.failed + 1 } anchors else Prog.raise e

/-- Walk all unconfirmed anchors and try to upgrade each one. -/
def upgradePendingAnchors (maxAgeMinutes : Option ℤ) : PollerAction T PollCounts := do
  let pending ← listUnconfirmedAnchors maxAgeMinutes 500
  upgradeEach ⟨pending.length, 0, 0, 0⟩ pending

end Pending
end NexusCone.Poller
