import NexusCone.CallCompletion
import NexusCone.SerialJournal
import NexusCone.StoredTimes

/-!
# Writes take effect once and in one order

The committed journal is a serial execution of the writing calls of all ledgers and pollers over one
file: it makes the committed contents, holds every call at most once and every call that has
returned with what it returned, and keeps the order of calls of which one had returned before the
other was made.
-/
namespace NexusCone.SerialWrites
open HexBytes KeyedTable SharedFile AsyncProgram AsyncSystem Connections RelyGuarantee GrowingVersions SerialJournal EmbeddedPrograms
  PyValue Canonical IsoTime CivilInstants LedgerSchema EntryChain WitnessChain TimestampAuthority Ledger LedgerOperations
  LedgerRuns LedgerGrowth ChainSafety StoredTimes Poller AnchorChecks WitnessStore Service CallCompletion

section Once

variable {L : Libraries}

theorem silentReads : AllowsReads (Op.executes (fun _ => False) : Op Statement Request → Prop) :=
  ⟨trivial, fun _ => trivial, fun _ => trivial⟩

theorem uses_commitThen {α : Type} (c : ConnId) (a : α) :
    (Prog.commit c >>= fun _ => pure a : Action L α).Uses (Op.executes fun _ => False) :=
  (Prog.uses_commit trivial).bind fun _ => trivial

theorem writesOnce_log (actor action : String) (payload : Option (List (PyKey × PyVal))) (signer : Option Signer)
    (eventType : String) : WritesOnce false (log (L := L) actor action payload signer eventType) := by
  have hr := silentReads
  refine WritesOnce.after (Prog.uses_connection hr) fun c => WritesOnce.withLock ?_
  refine WritesOnce.after (Prog.uses_select hr c) fun d => ?_
  refine WritesOnce.after (p := utcNowIso) ((Prog.uses_external hr _).bind fun _ => trivial) fun timestamp => ?_
  refine WritesOnce.after (Prog.uses_done _) fun text => ?_
  exact writesOnce_execute c _ fun _ => uses_commitThen c _

theorem writesOnce_anchor (schedule ledgerSchedule : Option AnchorSchedule) :
    WritesOnce false (Ledger.anchor (L := L) schedule ledgerSchedule) := by
  have hr := silentReads
  unfold Ledger.anchor
  split
  · refine WritesOnce.withLock (WritesOnce.after (uses_getLatestEntry hr) fun latest => ?_)
    cases latest with
    | none => trivial
    | some e =>
      refine WritesOnce.after (Prog.uses_done _) fun bytes => ?_
      refine WritesOnce.after (uses_submitOtsTrack hr _ _) fun ots => ?_
      refine WritesOnce.after (uses_submitTsaTrack hr _ _ _) fun tsa => ?_
      dsimp only
      split
      · trivial
      refine WritesOnce.before (p := insertAnchor _ _ _ _ _) ?_ fun _ => trivial
      refine WritesOnce.after (Prog.uses_connection hr) fun c => ?_
      refine WritesOnce.after (p := now) (Prog.uses_external hr _) fun submittedAt => ?_
      refine WritesOnce.after (Prog.uses_done _) fun iso => ?_
      exact writesOnce_execute c _ fun _ => uses_commitThen c _
  · trivial

theorem writesOnce_body (call : Call) : WritesOnce false (call.body (L := L)) := by
  have hr := silentReads
  cases call with
  | log => exact (writesOnce_log _ _ _ _ _).before fun _ => trivial
  | anchor => exact (writesOnce_anchor _ _).before fun _ => trivial
  | confirmAnchor anchorId blob height blockHash confirmedAt =>
    refine WritesOnce.before ?_ fun _ => trivial
    refine WritesOnce.after (uses_confirmationTime hr _) fun time => ?_
    refine WritesOnce.after (Prog.uses_connection hr) fun c => ?_
    refine WritesOnce.before (WritesOnce.withLock ?_) fun _ => uses_getAnchor hr _ _
    exact writesOnce_execute c _ fun _ => Prog.uses_commit trivial
  | registerWitness label publicKeyHex role =>
    refine WritesOnce.before ?_ fun _ => trivial
    unfold Ledger.registerWitness
    split
    · refine WritesOnce.after (Prog.uses_connection hr) fun c => ?_
      refine WritesOnce.after (p := now) (Prog.uses_external hr _) fun createdAt => ?_
      refine WritesOnce.before (WritesOnce.withLock ?_) fun _ => trivial
      exact writesOnce_execute c _ fun _ => uses_commitThen c _
    · trivial
  | retireWitness witnessId =>
    refine WritesOnce.before ?_ fun _ => trivial
    refine WritesOnce.after (Prog.uses_connection hr) fun c => ?_
    refine WritesOnce.after (p := now) (Prog.uses_external hr _) fun retiredAt => ?_
    refine WritesOnce.before (WritesOnce.withLock ?_) fun _ => uses_getWitness hr _
    exact writesOnce_execute c _ fun _ => Prog.uses_commit trivial
  | attestWithWitness witnessId signer =>
    refine WritesOnce.before ?_ fun _ => trivial
    refine WritesOnce.after (Prog.uses_connection hr) fun c => WritesOnce.withLock ?_
    refine WritesOnce.after (uses_getWitness hr _) fun witness => ?_
    split
    · trivial
    split
    · trivial
    refine WritesOnce.after (uses_getLatestEntry hr) fun latest => ?_
    cases latest with
    | none => trivial
    | some e =>
      refine WritesOnce.after (uses_getLastWitnessAttestationHash hr _) fun prev => ?_
      refine WritesOnce.after (p := now) (Prog.uses_external hr _) fun signedAt => ?_
      exact writesOnce_execute c _ fun _ => uses_commitThen c _
  | verifyChain verifier => exact (writesOnce_of_uses (uses_verifyChain hr verifier)).before fun _ => trivial
  | verifyWitnessAttestations verifier cursor =>
    exact (writesOnce_of_uses (uses_verifyWitnessAttestations hr verifier cursor)).before fun _ => trivial

theorem writesOnce_embed {D S Q P ε α : Type} {Ans : Q → Type} {Ans' : P → Type} {wrote : Bool}
    {p : Prog D S Q Ans ε α} (hp : WritesOnce wrote p) : WritesOnce wrote (embed Ans' p) := by
  induction p generalizing wrote with
  | done r => trivial
  | perform op k ih =>
    cases op with
    | execute c s => exact ⟨hp.1, fun r => ih r (hp.2 r)⟩
    | _ => exact fun r => ih r (hp r)

/-- The call of a method of a ledger. -/
def OfLedger : ServiceCall → Prop
  | .ledger _ => True
  | _ => False

theorem writesOnce_service {T : Proofs} (call : ServiceCall) (h : OfLedger call) :
    WritesOnce false (call.body (T := T)) := by
  cases call with
  | ledger call => exact (writesOnce_embed (writesOnce_body call)).before fun _ => trivial
  | query q => exact h.elim
  | upgradePendingAnchors maxAgeMinutes => exact h.elim

end Once

section Reports

/-- The records of one row: the time of a token is kept as an instant. -/
structure SameAnchor (a a' : AnchorRecord) : Prop where
  fields : { a with tsaGenTime := none } = { a' with tsaGenTime := none }
  genTime : a.tsaGenTime.map instantOf = a'.tsaGenTime.map instantOf

/-- The statement, accepted with this number, is one that the call issues, and the row it writes is the
one that the call returned. A confirmation and a retirement return the row as it is some time later. -/
def Reports : Call → Result → Statement → ℤ → Prop
  | .log actor action payload _ eventType, .entry e, st, n =>
    ∃ row, st = .insertEntry row ∧ n = row.entryId ∧ e = loggedEntry row (.dict (payload.getD [])) ∧
      canonicalJson (.dict (payload.getD [])) = .ok row.payload ∧ row.entryHash = recomputed row ∧
      (row.actor, row.action, row.eventType) = (actor, action, eventType)
  | .anchor _ _, .anchor (some a), st, n =>
    ∃ x a', st = .insertAnchor x ∧ rowToAnchor (x.row n) = .ok a' ∧ SameAnchor a a'
  | .confirmAnchor anchorId blob height blockHash _, .anchor (some a), st, _ =>
    (∃ confirmedAt, st = .confirmAnchor anchorId blob height blockHash confirmedAt) ∧ a.anchorId = anchorId
  | .registerWitness label publicKeyHex role, .witness w, st, n =>
    ∃ createdAt, st = .insertWitness ⟨label, publicKeyHex, role, createdAt⟩ ∧
      rowToWitness (NewWitness.row ⟨label, publicKeyHex, role, createdAt⟩ n) = .ok w
  | .retireWitness witnessId, .witness w, st, _ =>
    (∃ retiredAt, st = .retireWitness witnessId retiredAt) ∧ w.witnessId = witnessId
  | .attestWithWitness witnessId _, .attestation (some a), st, n =>
    ∃ x, st = .insertAttestation x ∧ x.witnessId = witnessId ∧ rowToWitnessAttestation (x.row n) = .ok a
  | _, _, _, _ => False

/-- The call's result says that it has written nothing. -/
def WroteNothing : Call → Result → Prop
  | .anchor _ _, .anchor none => True
  | .attestWithWitness _ _, .attestation none => True
  | .verifyChain _, _ => True
  | .verifyWitnessAttestations .., _ => True
  | _, _ => False

variable {W : Type} {L : Libraries} {start : Database} {i : InstId} {t : TaskId} {σ σ' : Shared Database Statement W}
variable {env : InstId → TaskId → Op Statement Request → Outcome Request (Reply L) PyError W →
  Shared Database Statement W → Prop}

/-- The task's write is committed as the call has reported it. -/
def Recorded (t : TaskId) (call : Call) (r : Result) (σ : Shared Database Statement W) : Prop :=
  WroteNothing call r ∨ ∃ st n, (t, st, n) ∈ σ.file.committed.journal ∧ Reports call r st n

theorem Recorded.grow {call : Call} {r : Result} (h : Recorded t call r σ) (hg : (replayed start).Grows σ σ') :
    Recorded t call r σ' := by
  refine h.imp_right ?_
  rintro ⟨st, n, hmem, hr⟩
  exact ⟨st, n, hg.committed.subset hmem, hr⟩

theorem keeps_log (actor action : String) (payload : Option (List (PyKey × PyVal))) (signer : Option Signer)
    (eventType : String) :
    (replayed start).Keeps env i t (log (L := L) actor action payload signer eventType)
      (fun e => Recorded t (.log actor action payload signer eventType) (.entry e)) σ := by
  unfold Ledger.log requireDb utcNowIso now
  refine Growth.Keeps.connection fun c σ₁ hg₁ _ hown => ?_
  refine Growth.Keeps.withLock (fun _ _ _ hg h => h.grow hg) fun σ₂ hg₂ => ?_
  refine Growth.Keeps.select (hown.rewired hg₂.rewired).1 fun u σ₃ hg₃ _ _ => ?_
  simp only [bind_assoc]
  refine Growth.Keeps.external fun now σ₄ hg₄ => ?_
  simp only [Prog.pure_eq, Prog.ok_bind]
  cases hcanon : canonicalJson (PyVal.dict (payload.getD [])) with
  | error e => exact Growth.Keeps.raise
  | ok text =>
    simp only [Prog.ok_bind]
    refine keeps_write (hown.rewired (hg₂.trans (hg₃.trans hg₄)).rewired).1 fun n d d' σ₅ _ hex hmem => ?_
    obtain ⟨-, -, rfl, -⟩ := exec_insertEntry hex
    refine Growth.Keeps.pure fun σ₆ hg₆ => .inr ⟨_, _, hg₆.committed.subset hmem, ?_⟩
    exact ⟨_, rfl, rfl, rfl, hcanon, rfl, rfl⟩

theorem keeps_insertAnchor (chainHeadHash : String) (chainHeadEntryId : ℤ) (blob : Option HexBytes.Bytes)
    (calendars : List String) (token : Option TSAResponse) (schedule ledgerSchedule : Option AnchorSchedule) :
    (replayed start).Keeps env i t (insertAnchor (L := L) chainHeadHash chainHeadEntryId blob calendars token)
      (fun a => Recorded t (.anchor schedule ledgerSchedule) (.anchor (some a))) σ := by
  unfold insertAnchor requireDb now
  refine Growth.Keeps.connection fun c σ₁ hg₁ _ hown => ?_
  refine Growth.Keeps.external fun submittedAt σ₂ hg₂ => ?_
  cases htext : genTimeIso? token with
  | error e => exact Growth.Keeps.raise
  | ok text =>
    simp only [Prog.ok_bind]
    refine keeps_write (hown.rewired hg₂.rewired).1 fun n d d' σ₃ _ _ hmem => ?_
    refine Growth.Keeps.pure fun σ₄ hg₄ => .inr ⟨_, n, hg₄.committed.subset hmem, ?_⟩
    obtain ⟨genTime, hread, hinstant⟩ := readTimeColumn?_genTime htext
    refine ⟨_, ⟨n, chainHeadHash, chainHeadEntryId, submittedAt.toDateTime, textList calendars, blob, none, none, none,
      token.map TSAResponse.tstBlob, token.map TSAResponse.tsaUrl, genTime⟩, rfl, ?_, rfl, hinstant.symm⟩
    simp only [rowToAnchor, NewAnchor.row, readTimeColumn_strftime, loadsList_dumpsStrings, hread]
    rfl

theorem keeps_anchor (schedule ledgerSchedule : Option AnchorSchedule) :
    (replayed start).Keeps env i t (Ledger.anchor (L := L) schedule ledgerSchedule)
      (fun a => Recorded t (.anchor schedule ledgerSchedule) (.anchor a)) σ := by
  have hr : AllowsReads (Op.isRead : Op Statement Request → Prop) := allowsReads_isRead
  have hskip : Recorded (W := W) t (.anchor schedule ledgerSchedule) (.anchor none) = fun _ => True :=
    funext fun _ => eq_true (.inl trivial)
  unfold Ledger.anchor
  split
  · refine Growth.Keeps.withLock (fun _ _ _ hg h => h.grow hg) fun σ₂ hg₂ => ?_
    refine Growth.Keeps.reads (uses_getLatestEntry hr) fun latest σ₃ hg₃ => ?_
    cases latest with
    | none => exact Growth.Keeps.pure fun _ _ => by rw [hskip]; trivial
    | some e =>
      refine Growth.Keeps.reads (Prog.uses_done _) fun digest σ₄ _ => ?_
      refine Growth.Keeps.reads (uses_submitOtsTrack hr _ _) fun ots σ₅ _ => ?_
      obtain ⟨calendars, blob, errors⟩ := ots
      refine Growth.Keeps.reads (uses_submitTsaTrack hr _ _ _) fun tsa σ₆ _ => ?_
      obtain ⟨token, tsaError⟩ := tsa
      dsimp only
      split
      · exact Growth.Keeps.raise
      · refine Growth.Keeps.bind ((keeps_insertAnchor _ _ _ _ _ schedule ledgerSchedule).mono fun a σ₇ _ ha => ?_)
        exact Growth.Keeps.pure fun σ₈ hg => ha.grow hg
  · exact Growth.Keeps.raise

/-- What a row is read as has the row's id. -/
theorem keeps_getAnchor {anchorId : ℤ} {c : ConnId} (hc : c < σ.nextConn) :
    (replayed start).Keeps env i t (Ledger.getAnchor (L := L) anchorId c)
      (fun a σ' => a.anchorId = anchorId ∧ (replayed start).Grows σ σ') σ := by
  unfold Ledger.getAnchor
  refine Growth.Keeps.select hc fun u σ₁ hg₁ _ _ => ?_
  cases hfind : u.data.anchors.find? anchorId with
  | none => exact Growth.Keeps.raise
  | some row =>
    dsimp only
    cases hread : rowToAnchor row with
    | error e => exact Growth.Keeps.raise
    | ok a =>
      refine Growth.Keeps.pure fun σ₂ hg₂ => ⟨?_, hg₁.trans hg₂⟩
      rw [(readFrom_of_rowToAnchor hread).anchorId]
      exact (Table.find?_eq_some.mp hfind).2

theorem keeps_getWitness {witnessId : ℤ} :
    (replayed start).Keeps env i t (getWitness (L := L) witnessId)
      (fun w σ' => w.witnessId = witnessId ∧ (replayed start).Grows σ σ') σ := by
  unfold getWitness requireDb
  refine Growth.Keeps.connection fun c σ₁ hg₁ _ hown => ?_
  refine Growth.Keeps.select hown.1 fun u σ₂ hg₂ _ _ => ?_
  cases hfind : u.data.witnesses.find? witnessId with
  | none => exact Growth.Keeps.raise
  | some row =>
    dsimp only
    cases hread : rowToWitness row with
    | error e => exact Growth.Keeps.raise
    | ok w =>
      refine Growth.Keeps.pure fun σ₃ hg₃ => ⟨?_, hg₁.trans (hg₂.trans hg₃)⟩
      rw [(rowToWitness_ok hread).1]
      exact (Table.find?_eq_some.mp hfind).2

/-- Execute and commit under the lock, with what is made of the number that the database gives. -/
theorem keeps_lockedWrite {α : Type} {c : ConnId} {st : Statement} (g : ℤ → α) (hc : c < σ.nextConn) :
    (replayed start).Keeps env i t
      (Prog.withLock (Prog.execute c st >>= fun n => Prog.commit c >>= fun _ => pure (g n)) : Action L α)
      (fun a σ' => ∃ n, a = g n ∧ (t, st, n) ∈ σ'.file.committed.journal ∧ (replayed start).Grows σ σ') σ := by
  refine Growth.Keeps.withLock ?_ fun σ₁ hg₁ => ?_
  · rintro a σ₁ σ₂ hg ⟨n, ha, hmem, hg'⟩
    exact ⟨n, ha, hg.committed.subset hmem, hg'.trans hg⟩
  · refine keeps_write (lt_of_lt_of_le hc hg₁.rewired.nextConn) fun n _ _ σ₂ hg₂ _ hmem => ?_
    exact Growth.Keeps.pure fun σ₃ hg₃ => ⟨n, rfl, hg₃.committed.subset hmem, hg₁.trans (hg₂.trans hg₃)⟩

theorem keeps_lockedUpdate {c : ConnId} {st : Statement} (hc : c < σ.nextConn) :
    (replayed start).Keeps env i t
      (Prog.withLock (Prog.execute c st >>= fun _ => Prog.commit c) : Action L Unit)
      (fun _ σ' => ∃ n, (t, st, n) ∈ σ'.file.committed.journal ∧ (replayed start).Grows σ σ') σ := by
  have hwrite : (replayed start).Keeps env i t
      (Prog.withLock (Prog.execute c st >>= fun _ => Prog.commit c >>= fun _ => pure ()) : Action L Unit)
      (fun _ σ' => ∃ n, () = () ∧ (t, st, n) ∈ σ'.file.committed.journal ∧ (replayed start).Grows σ σ') σ :=
    keeps_lockedWrite (fun _ => ()) hc
  simp only [bind_pure_unit, true_and] at hwrite
  exact hwrite

theorem keeps_confirmAnchor (anchorId : ℤ) (blob : Bytes) (height : ℤ) (blockHash : Option String)
    (confirmedAt : Option DateTime) :
    (replayed start).Keeps env i t (Ledger.confirmAnchor (L := L) anchorId blob height blockHash confirmedAt)
      (fun a => Recorded t (.confirmAnchor anchorId blob height blockHash confirmedAt) (.anchor (some a))) σ := by
  have hr : AllowsReads (Op.isRead : Op Statement Request → Prop) := allowsReads_isRead
  unfold Ledger.confirmAnchor requireDb
  refine Growth.Keeps.reads (uses_confirmationTime hr _) fun time σ₁ _ => ?_
  refine Growth.Keeps.connection fun c σ₂ _ _ hown => ?_
  refine Growth.Keeps.bind ((keeps_lockedUpdate hown.1).mono fun _ σ₃ _ ⟨n, hmem, hg₃⟩ => ?_)
  refine (keeps_getAnchor (hown.rewired hg₃.rewired).1).mono fun a σ₄ _ ⟨hid, hg₄⟩ => .inr ?_
  exact ⟨_, n, hg₄.committed.subset hmem, ⟨_, rfl⟩, hid⟩

theorem keeps_registerWitness (label publicKeyHex role : String) :
    (replayed start).Keeps env i t (Ledger.registerWitness (L := L) label publicKeyHex role)
      (fun w => Recorded t (.registerWitness label publicKeyHex role) (.witness w)) σ := by
  unfold Ledger.registerWitness requireDb now
  split
  · refine Growth.Keeps.connection fun c σ₁ _ _ hown => ?_
    refine Growth.Keeps.external fun createdAt σ₂ hg₂ => ?_
    refine Growth.Keeps.bind ((keeps_lockedWrite id (hown.rewired hg₂.rewired).1).mono ?_)
    rintro witnessId σ₃ - ⟨n, rfl, hmem, -⟩
    refine Growth.Keeps.pure fun σ₄ hg₄ => .inr ⟨_, witnessId, hg₄.committed.subset hmem, _, rfl, ?_⟩
    simp only [rowToWitness, NewWitness.row, readTimeColumn_strftime, readTimeColumn?]
    rfl
  · exact Growth.Keeps.raise

theorem keeps_retireWitness (witnessId : ℤ) :
    (replayed start).Keeps env i t (Ledger.retireWitness (L := L) witnessId)
      (fun w => Recorded t (.retireWitness witnessId) (.witness w)) σ := by
  unfold Ledger.retireWitness requireDb now
  refine Growth.Keeps.connection fun c σ₁ _ _ hown => ?_
  refine Growth.Keeps.external fun retiredAt σ₂ hg₂ => ?_
  refine Growth.Keeps.bind ((keeps_lockedUpdate (hown.rewired hg₂.rewired).1).mono fun _ σ₃ _ ⟨n, hmem, _⟩ => ?_)
  refine keeps_getWitness.mono fun w σ₄ _ ⟨hid, hg₄⟩ => .inr ?_
  exact ⟨_, n, hg₄.committed.subset hmem, ⟨_, rfl⟩, hid⟩

theorem keeps_attestWithWitness (witnessId : ℤ) (signer : Signer) :
    (replayed start).Keeps env i t (attestWithWitness (L := L) witnessId signer)
      (fun a => Recorded t (.attestWithWitness witnessId signer) (.attestation a)) σ := by
  have hr : AllowsReads (Op.isRead : Op Statement Request → Prop) := allowsReads_isRead
  unfold attestWithWitness requireDb now
  refine Growth.Keeps.connection fun c σ₁ hg₁ _ hown => ?_
  refine Growth.Keeps.withLock (fun _ _ _ hg h => h.grow hg) fun σ₂ hg₂ => ?_
  refine Growth.Keeps.reads (uses_getWitness hr witnessId) fun witness σ₃ hg₃ => ?_
  split_ifs
  · exact Growth.Keeps.raise
  · exact Growth.Keeps.raise
  refine Growth.Keeps.reads (uses_getLatestEntry hr) fun latest σ₄ hg₄ => ?_
  cases latest with
  | none => exact Growth.Keeps.pure fun _ _ => .inl trivial
  | some e =>
    refine Growth.Keeps.reads (uses_getLastWitnessAttestationHash hr witnessId) fun prev σ₅ hg₅ => ?_
    refine Growth.Keeps.external fun signedAt σ₆ hg₆ => ?_
    have hown₆ := hown.rewired (hg₂.trans (hg₃.trans (hg₄.trans (hg₅.trans hg₆)))).rewired
    refine keeps_write hown₆.1 fun n _ _ σ₇ _ _ hmem => ?_
    refine Growth.Keeps.pure fun σ₈ hg₈ => .inr ⟨_, n, hg₈.committed.subset hmem, _, rfl, rfl, ?_⟩
    simp only [rowToWitnessAttestation, NewAttestation.row, readTimeColumn_strftime]
    rfl

theorem keeps_recorded (call : Call) :
    (replayed start).Keeps env i t (call.body (L := L)) (Recorded t call) σ := by
  have hsilent (call : Call) (h : ∀ r, WroteNothing call r) :
      (replayed start).Keeps env i t (call.body (L := L)) (Recorded t call) σ :=
    (keeps_replayed _).mono fun r _ _ _ => .inl (h r)
  cases call with
  | log => exact Growth.Keeps.bind ((keeps_log _ _ _ _ _).mono fun e _ _ he => Growth.Keeps.pure fun _ hg => he.grow hg)
  | anchor => exact Growth.Keeps.bind ((keeps_anchor _ _).mono fun a _ _ ha => Growth.Keeps.pure fun _ hg => ha.grow hg)
  | confirmAnchor =>
    exact Growth.Keeps.bind ((keeps_confirmAnchor _ _ _ _ _).mono fun a _ _ ha => Growth.Keeps.pure fun _ hg => ha.grow hg)
  | registerWitness =>
    exact Growth.Keeps.bind ((keeps_registerWitness _ _ _).mono fun w _ _ hw => Growth.Keeps.pure fun _ hg => hw.grow hg)
  | retireWitness =>
    exact Growth.Keeps.bind ((keeps_retireWitness _).mono fun w _ _ hw => Growth.Keeps.pure fun _ hg => hw.grow hg)
  | attestWithWitness =>
    exact Growth.Keeps.bind ((keeps_attestWithWitness _ _).mono fun a _ _ ha => Growth.Keeps.pure fun _ hg => ha.grow hg)
  | verifyChain => exact hsilent _ fun _ => trivial
  | verifyWitnessAttestations => exact hsilent _ fun _ => trivial

end Reports

section Service

variable {T : Proofs} {W : Type} {start : Database} {i : InstId} {t : TaskId} {σ : Shared Database Statement W}
variable {rules : ServiceRules T W} {s₀ s : ServiceSys T W} {d : Database} {w : W}

/-- What the result of a ledger's method says of the journal. -/
def ServiceRecorded (t : TaskId) : ServiceCall → ServiceResult → Shared Database Statement W → Prop
  | .ledger call, .ledger r, σ => Recorded t call r σ
  | _, _, _ => True

theorem keeps_service (call : ServiceCall) :
    (replayed start).Keeps rules.env i t (call.body (T := T)) (ServiceRecorded t call) σ := by
  cases call with
  | ledger call =>
    have hcall : (replayed start).Keeps rules.env i t (embed (PollerReply T) (call.body (L := T.libraries)))
        (Recorded t call) σ := ok_embed (keeps_recorded call)
    exact Growth.Keeps.bind (hcall.mono fun r _ _ hr => Growth.Keeps.pure fun _ hg => hr.grow hg)
  | query q => exact (keeps_replayed _).mono fun r _ _ _ => trivial
  | upgradePendingAnchors maxAgeMinutes => exact (keeps_replayed _).mono fun r _ _ _ => trivial

/-- The committed journal is a serial execution of the statements, each call's at most once and as the call
has reported it. -/
structure SerialExecution (start : Database) (s : ServiceSys T W) : Prop where
  makes : replay start s.shared.file.committed.journal = some s.shared.file.committed.data
  once : ∀ (t : TaskId) i call p, s.tasks[t]? = some ⟨i, .ledger call, p⟩ → writes t s.shared.file.committed ≤ 1
  reported : ∀ (t : TaskId) i call r, s.tasks[t]? = some ⟨i, .ledger call, .done (.ok (.ledger r))⟩ →
    Recorded t call r s.shared

theorem replayed_of_run (h : ServiceRun rules (startService d w) s) :
    Good ((replayed d).protocol W) rules (fun _ t => ServiceRecorded t) (fun _ _ _ _ => True) s := by
  have hv : Verified ((replayed d).protocol W) rules ServiceCall.body (fun _ t => ServiceRecorded t)
      (fun _ _ _ _ => True) := Growth.verified fun _ _ _ _ _ _ _ => keeps_service _
  refine (hv.run (Good.start ⟨wired_start d w, rfl, ?_⟩ (fresh_start d w)) h).1
  rintro p ⟨⟩

theorem journal_of_run (h₀ : ServiceRun rules (startService d w) s₀) (h : ServiceRun rules s₀ s) :
    s₀.shared.file.committed.journal <+: s.shared.file.committed.journal := by
  have hv : Verified ((replayed d).protocol W) rules ServiceCall.body (fun _ t => ServiceRecorded t)
      (fun _ _ _ _ => True) := Growth.verified fun _ _ _ _ _ _ _ => keeps_service _
  exact (hv.run (replayed_of_run h₀) h).2.committed

theorem serialExecution_of_run (h : ServiceRun rules (startService d w) s) : SerialExecution d s := by
  have hgood := replayed_of_run h
  have hstart : Once OfLedger (startService d w : ServiceSys T W) := by
    refine ⟨fun t _ => ⟨Nat.le_refl 0, ?_⟩, fun t i c p ht => ?_⟩
    · rintro p ⟨⟩
    · simp [startService] at ht
  have honce : Once OfLedger s := once_of_run (fun c => writesOnce_service c) hstart h
  refine ⟨hgood.inv.committed, fun t i call p ht => ?_, fun t i call r ht => hgood.result ht⟩
  obtain ⟨wrote, -, hmost⟩ := honce.tasks t i _ p ht trivial
  exact le_trans hmost.committed (Bool.toNat_le wrote)

theorem writes_linearizable (h₀ : ServiceRun rules (startService d w) s₀) (h : ServiceRun rules s₀ s) :
    SerialExecution d s ∧ ∀ (t : TaskId) i call r (u : TaskId) st n,
      s₀.tasks[t]? = some ⟨i, .ledger call, .done (.ok (.ledger r))⟩ → ¬ WroteNothing call r →
      s₀.tasks.length ≤ u → (u, st, n) ∈ s.shared.file.committed.journal →
      ∃ before st' n' between after,
        s.shared.file.committed.journal = before ++ (t, st', n') :: between ++ (u, st, n) :: after ∧
        Reports call r st' n' := by
  refine ⟨serialExecution_of_run (h₀.trans h), fun t i call r u st n ht hwrote hu hmem => ?_⟩
  obtain ⟨st', n', hmem', hreports⟩ := ((serialExecution_of_run h₀).reported t i call r ht).resolve_left hwrote
  obtain ⟨later, hlater⟩ := journal_of_run h₀ h
  have hnew : (u, st, n) ∉ s₀.shared.file.committed.journal := fun hin =>
    (replayed_of_run h₀).fresh u hu (.inr (.inl ⟨_, hin, rfl⟩))
  rw [← hlater] at hmem ⊢
  obtain ⟨before, rest, hsplit⟩ := List.append_of_mem hmem'
  obtain ⟨between, after, hlater'⟩ := List.append_of_mem ((List.mem_append.mp hmem).resolve_left hnew)
  refine ⟨before, st', n', rest ++ between, after, ?_, hreports⟩
  rw [hsplit, hlater']
  simp only [List.append_assoc, List.cons_append]

section Examples

/-- One ledger registers a witness. -/
def registration : List OneProofEvent :=
  .connect 0 :: callScript answers 0 0 (registers "00") 1 4

/-- Then another one retires it. -/
def retirement : List OneProofEvent :=
  .connect 1 :: callScript answers 1 1 (.ledger (.retireWitness 1)) 1 4

/-- The one call there is has returned its witness. -/
def registered (s : ServiceSys OneProof Unit) : Bool := match s.tasks with
  | [⟨_, .ledger (.registerWitness _ _ _), .done (.ok (.ledger (.witness _)))⟩] => true
  | _ => false

theorem registered_tasks {s : ServiceSys OneProof Unit} (h : registered s) : s.tasks.length = 1 ∧
    ∃ i label publicKeyHex role w, s.tasks[(0 : TaskId)]? =
      some ⟨i, .ledger (.registerWitness label publicKeyHex role), .done (.ok (.ledger (.witness w)))⟩ := by
  unfold registered at h
  split at h
  · rename_i htasks
    rw [htasks]
    exact ⟨rfl, _, _, _, _, _, rfl⟩
  · cases h

end Examples

theorem writes_linearizable_registration : ∃ (s : ServiceSys OneProof Unit) (call : Call) (r : Result),
    ∃ before st' n' between st n after, Reports call r st' n' ∧
      s.shared.file.committed.journal = before ++ (0, st', n') :: between ++ (1, st, n) :: after := by
  have h : (runEvents ServiceCall.body (startService Database.empty ()) registration).any (fun s₀ => registered s₀ &&
      (runEvents ServiceCall.body s₀ retirement).any fun s => s.shared.file.committed.journal.any (·.1 = 1)) = true := by
    decide +kernel
  obtain ⟨s₀, hs₀, h⟩ := (Option.any_eq_true _ _).mp h
  obtain ⟨hregistered, h⟩ := Bool.and_eq_true_iff.mp h
  obtain ⟨s, hs, hwritten⟩ := (Option.any_eq_true _ _).mp h
  obtain ⟨hlen, i, label, publicKeyHex, role, w, ht⟩ := registered_tasks hregistered
  obtain ⟨⟨u, st, n⟩, hmem, hu⟩ := List.any_eq_true.mp hwritten
  obtain rfl : u = 1 := of_decide_eq_true hu
  obtain ⟨before, st', n', between, after, hjournal, hreports⟩ :=
    (writes_linearizable (run_of_runEvents hs₀) (run_of_runEvents hs)).2 0 i _ _ 1 st n ht id (le_of_eq hlen) hmem
  exact ⟨s, _, _, before, st', n', between, st, n, after, hreports, hjournal⟩

end Service

end NexusCone.SerialWrites
