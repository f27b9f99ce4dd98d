import NexusCone.BoundTips
import NexusCone.WitnessLedger

/-!
# The dates of retirements

`retire_witness` reads the clock before it waits for the lock. An attestation that gets the lock
first may then be dated after the retirement, and only such an `UPDATE` puts the dates out of order:
a retired witness does not attest any more.
-/
namespace NexusCone.RetirementDates
open IsoTime TimeOrder KeyedTable SharedFile AsyncProgram AsyncSystem Connections RelyGuarantee GrowingVersions
  ExclusiveLock PyValue LedgerSchema EntryChain WitnessChain TimestampAuthority Ledger LedgerOperations LedgerRuns
  WitnessStore WitnessForks WitnessLedger ClockedRuns BoundTips

section Dates

/-- No attestation of the witness is dated after the time. -/
def SignedBy (d : Database) (witnessId : ℤ) (time : String) : Prop :=
  ∀ a ∈ d.attestations.rows, a.witnessId = witnessId → a.signedAt ≤ time

/-- No attestation is dated after the retirement of its witness. -/
def SignedBeforeRetired (d : Database) : Prop :=
  ∀ w ∈ d.witnesses.rows, ∀ time ∈ w.retiredAt, SignedBy d w.witnessId time

instance (d : Database) (witnessId : ℤ) (time : String) : Decidable (SignedBy d witnessId time) :=
  inferInstanceAs (Decidable (∀ a ∈ d.attestations.rows, _))

instance (d : Database) : Decidable (SignedBeforeRetired d) :=
  inferInstanceAs (Decidable (∀ w ∈ d.witnesses.rows, ∀ time ∈ w.retiredAt, _))

/-- If the witness is there and not retired yet, it has no attestation dated after the time. -/
def RetiresLast (d : Database) (witnessId : ℤ) (time : String) : Prop :=
  ∀ w ∈ d.witnesses.rows, w.witnessId = witnessId → w.retiredAt = none → SignedBy d witnessId time

instance (d : Database) (witnessId : ℤ) (time : String) : Decidable (RetiresLast d witnessId time) :=
  inferInstanceAs (Decidable (∀ w ∈ d.witnesses.rows, _ → _ → _))

variable {d d' : Database} {n : ℤ} {witnessId : ℤ} {time : String}

/-- The `UPDATE` of `retire_witness` keeps the order of the dates exactly when it retires last. -/
theorem retire_iff (h : SignedBeforeRetired d) (hex : exec (Statement.retireWitness witnessId time) d = .ok (d', n)) :
    SignedBeforeRetired d' ↔ RetiresLast d witnessId time := by
  cases hex
  constructor
  · intro h' w hw hid hnone
    have hretired : w.retire witnessId time = { w with retiredAt := some time } := if_pos ⟨hid, hnone⟩
    have hrow := h' _ (List.mem_map_of_mem hw) time (by rw [hretired]; rfl)
    rwa [hretired, hid] at hrow
  · intro hlast w' hw' time' htime'
    obtain ⟨w, hw, rfl⟩ := List.mem_map.mp hw'
    unfold WitnessRow.retire at htime' ⊢
    split_ifs at htime' ⊢ with hcond
    · cases htime'
      show SignedBy d w.witnessId time
      rw [hcond.1]
      exact hlast w hw hcond.1 hcond.2
    · exact h w hw time' htime'

def NoDate : Statement → Prop
  | .insertAttestation _ | .retireWitness _ _ => False
  | _ => True

/-- The other statements neither attest nor retire. -/
theorem SignedBeforeRetired.exec_noDate {s : Statement} (h : SignedBeforeRetired d) (hs : NoDate s)
    (hex : exec s d = .ok (d', n)) : SignedBeforeRetired d' := by
  cases s with
  | insertAttestation a => exact hs.elim
  | retireWitness witnessId time => exact hs.elim
  | insertEntry row =>
    obtain ⟨t, -, -, rfl⟩ := exec_insertEntry hex
    exact h
  | insertAnchor a =>
    obtain ⟨-, -, rfl⟩ := exec_insertAnchor hex
    exact h
  | confirmAnchor =>
    cases hex
    exact h
  | insertWitness w =>
    obtain ⟨-, -, -, rfl⟩ := exec_insertWitness hex
    intro w' hw' time htime
    rcases List.mem_append.mp hw' with hw' | hw'
    · exact h w' hw' time htime
    · rw [List.mem_singleton.mp hw'] at htime
      cases htime

/-- An active witness may attest at any time. -/
theorem SignedBeforeRetired.attest {a : NewAttestation} (h : SignedBeforeRetired d)
    (hex : exec (Statement.insertAttestation a) d = .ok (d', n)) {w : WitnessRow} (hw : w ∈ d.witnesses.rows)
    (hid : w.witnessId = a.witnessId) (hactive : w.retiredAt = none) : SignedBeforeRetired d' := by
  obtain ⟨-, -, -, rfl⟩ := exec_insertAttestation hex
  intro w' hw' time htime b hb hofw
  rcases List.mem_append.mp hb with hb | hb
  · exact h w' hw' time htime b hb hofw
  · rw [List.mem_singleton.mp hb] at hofw
    obtain rfl := d.witnesses.key_injOn hw hw' (hid.trans hofw)
    rw [hactive] at htime
    cases htime

def datesGrowth : Growth Database Statement where
  good v := SignedBeforeRetired v.data
  le _ _ := True
  refl _ := trivial
  trans _ _ := trivial

end Dates

section Rules

variable [IsoTime.Platform] {W : Type} {L : Libraries}

/-- What an `UPDATE` of `retire_witness` writes, and its connection. -/
def retireOf : Op Statement Request → Option (ConnId × ℤ × String)
  | .execute c (.retireWitness witnessId time) => some (c, witnessId, time)
  | _ => none

/-- An `UPDATE` of `retire_witness` that runs finds no later attestation of the witness that it retires. -/
def InTime (op : Op Statement Request) (o : Outcome Request (Reply L) PyError W) (σ : Shared Database Statement W) :
    Prop :=
  ∀ p ∈ retireOf op, o.performs → σ.file.MayWrite p.1 → RetiresLast (σ.file.view p.1).data p.2.1 p.2.2

instance (op : Op Statement Request) (o : Outcome Request (Reply L) PyError W) (σ : Shared Database Statement W) :
    Decidable (InTime op o σ) :=
  inferInstanceAs (Decidable (∀ p ∈ retireOf op, _ → _ → _))

/-- Any calls on one ledger, any outcomes, openings and closings, but no retirement that comes too late. -/
def retiresInTime (i : InstId) : LedgerRules L W :=
  ⟨fun j _ => j = i, fun _ _ => InTime, fun _ _ => True, fun _ _ => True⟩

end Rules

section Calls

variable [IsoTime.Platform] {W : Type} {L : Libraries} {i : InstId} {t : TaskId} {σ : Shared Database Statement W}

theorem dates_attestWithWitness (witnessId : ℤ) (signer : Signer) :
    CallOk datesGrowth i t (retiresInTime (L := L) i).env (attestWithWitness (L := L) witnessId signer) σ := by
  refine callOk_attestation fun v row head signedAt d n hgood hrow hid hactive _ => ?_
  exact fun hex => ⟨SignedBeforeRetired.attest hgood hex hrow hid hactive, trivial⟩

theorem dates_body (call : Call) :
    CallOk datesGrowth i t (retiresInTime (L := L) i).env (call.body (L := L)) σ := by
  have hother {call : Call} (ha : Admits (fun s => ∀ a, s ≠ .insertAttestation a) call) :
      CallOk datesGrowth i t (retiresInTime (L := L) i).env (call.body (L := L)) σ := by
    refine callOk_of_steps (guarded_body ha) (by simp) fun σ' o c s d n hs henv hran hw hgood hex => ⟨?_, trivial⟩
    cases s with
    | insertAttestation a => exact absurd rfl (hs a)
    | retireWitness witnessId time => exact (retire_iff hgood hex).mpr (henv (c, witnessId, time) rfl hran hw)
    | _ =>
      refine SignedBeforeRetired.exec_noDate hgood ?_ hex
      trivial
  cases call with
  | attestWithWitness =>
    refine Ok.bind (Ok.mono (dates_attestWithWitness _ _) ?_ fun _ h => h)
    exact fun a _ _ _ _ _ => Ok.pure (P := protocol datesGrowth i W) fun _ _ _ => trivial
  | _ =>
    refine hother (admits_of_mayIssue fun s hs a hsa => ?_)
    subst hsa
    exact hs

end Calls

section Runs

variable [IsoTime.Platform] {W : Type} {L : Libraries} {i : InstId}

theorem verified_dates : Verified (protocol datesGrowth i W) (retiresInTime i) (Call.body (L := L))
    (fun _ _ _ _ _ => True) (fun _ _ _ _ => True) :=
  ExclusiveLock.verified (fun _ _ h => h) fun call _ _ _ _ => dates_body call

theorem dates_of_run {d : Database} (hd : SignedBeforeRetired d) {w : W} {s : LedgerSys L W}
    (hrun : LedgerRun (retiresInTime i) (startSys d w) s) : datesGrowth.Inv s.shared := by
  have hstart : Good (protocol datesGrowth i W) (retiresInTime i) (fun _ _ _ _ _ => True) (fun _ _ _ _ => True)
      (startSys d w : LedgerSys L W) := by
    refine Good.start ⟨wired_start d w, hd, ?_⟩ (fresh_start d w)
    rintro p ⟨⟩
  exact (verified_dates.run hstart hrun).1.inv

omit [IsoTime.Platform] in
/-- An `UPDATE` of `retire_witness` keeps the order of the dates exactly when it is in time. -/
theorem inTime_iff {t : TaskId} {o : Outcome Request (Reply L) PyError W} {σ σ' : Shared Database Statement W}
    {c : ConnId} {witnessId : ℤ} {time : String} {r : Except PyError ℤ}
    (hd : SignedBeforeRetired (σ.file.view c).data)
    (hx : effect i t σ (.execute c (.retireWitness witnessId time)) o = some (r, σ')) :
    SignedBeforeRetired (σ'.file.view c).data ↔ InTime (.execute c (.retireWitness witnessId time)) o σ := by
  constructor
  · rintro hd' p ⟨⟩ hran hw
    rw [write_of_performs hx hran hw rfl, File.view_write_self] at hd'
    exact (retire_iff hd rfl).mp hd'
  · intro htime
    rcases effect_execute hx with ⟨d', n, hw, hex', -, rfl⟩ | ⟨e, f, l, -, hf, -, rfl⟩
    · rw [File.view_write_self]
      exact (retire_iff hd hex').mpr (htime (c, witnessId, time) rfl (performs_of_write hx) hw)
    · show SignedBeforeRetired (f.view c).data
      rwa [File.view_of_locked hf c]

/-- Along every run of the one ledger whose retirements are in time, no attestation is dated after
the retirement of its witness, and the next retirement keeps it so exactly when it is in time. -/
theorem signed_before_retired_iff {d : Database} (hd : SignedBeforeRetired d) {w : W} {s : LedgerSys L W}
    (hrun : LedgerRun (retiresInTime i) (startSys d w) s) :
    (SignedBeforeRetired s.shared.file.committed.data ∧ ∀ c, SignedBeforeRetired (s.shared.file.view c).data) ∧
      ∀ t o s', runTask t o s = some s' → ∀ j call c witnessId time k,
        s.tasks[t]? = some ⟨j, call, .perform (.execute c (.retireWitness witnessId time)) k⟩ →
        (SignedBeforeRetired (s'.shared.file.view c).data ↔
          InTime (.execute c (.retireWitness witnessId time)) o s.shared) := by
  have hinv := dates_of_run hd hrun
  refine ⟨⟨hinv.committed, fun c => (hinv.view c).1⟩, ?_⟩
  intro t o s' hs j call c witnessId time k ht
  obtain ⟨j', call', op, k', r, σ, ht', hx, rfl⟩ := runTask_some hs
  rw [ht] at ht'
  cases ht'
  exact inTime_iff (hinv.view c).1 hx

end Runs

section Examples

/-- An entry is logged, a witness registered, and its retirement called. -/
def calledToRetire : List (LedgerEvent offline ℕ) :=
  .connect 0 :: (logScript (ticks 1) 0 0 "a" ++ registerScript (ticks 2) 0 1 "w" "00") ++
    .call 0 (.retireWitness 1) :: proceeds 2 1

def attestsAt (n : ℕ) : List (LedgerEvent offline ℕ) := attestScript (ticks n) 0 3 1 (echoSigner "00")

/-- The attestation gets the lock after the retirement has read the clock. -/
theorem attested_before_update : ∃ s : LedgerSys offline ℕ,
    LedgerRun (clockedLedger 0 afterNoon) (startSys Database.empty 0) s ∧
      ¬ SignedBeforeRetired s.shared.file.committed.data := by
  have h : (runAllowed Call.body (clockedLedger 0 afterNoon) (startSys Database.empty 0)
      (calledToRetire ++ .run 2 (ticks 3) :: attestsAt 4 ++ proceeds 2 6)).any
      (fun s => ¬ SignedBeforeRetired s.shared.file.committed.data) = true := by decide +kernel
  obtain ⟨s, hs, h⟩ := (Option.any_eq_true _ _).mp h
  exact ⟨s, run_of_runAllowed (fun _ _ _ ha => ha) hs, of_decide_eq_true h⟩

instance (s : LedgerSys offline ℕ) (e : Event Request (Reply offline) PyError ℕ Call) :
    Decidable ((retiresInTime 0).Allows s e) :=
  inferInstanceAs (Decidable (Rules.Allows ⟨fun j _ => j = 0, fun _ _ => InTime, fun _ _ => True, fun _ _ => True⟩ s e))

end Examples

theorem signed_before_retired_iff_attested : ∃ s : LedgerSys offline ℕ,
    LedgerRun (retiresInTime 0) (startSys Database.empty 0) s ∧
      s.shared.file.committed.data.witnesses.rows.map WitnessRow.retiredAt = [some (strftime (afterNoon 4).civil)] ∧
      s.shared.file.committed.data.attestations.rows.map AttestationRow.signedAt =
        [strftime (afterNoon 3).civil] ∧
      SignedBeforeRetired s.shared.file.committed.data := by
  have h : (runAllowed Call.body (retiresInTime 0) (startSys Database.empty 0)
      (calledToRetire ++ attestsAt 3 ++ .run 2 (ticks 4) :: proceeds 2 6)).any
      (fun s => s.shared.file.committed.data.witnesses.rows.map WitnessRow.retiredAt =
          [some (strftime (afterNoon 4).civil)] &&
        s.shared.file.committed.data.attestations.rows.map AttestationRow.signedAt =
          [strftime (afterNoon 3).civil]) = true := by
    decide +kernel
  obtain ⟨s, hs, h⟩ := (Option.any_eq_true _ _).mp h
  obtain ⟨hretired, hsigned⟩ := (Bool.and_eq_true _ _).mp h
  have hrun := run_of_runAllowed (fun _ _ _ ha => ha) hs
  have hempty : SignedBeforeRetired Database.empty := by simp [SignedBeforeRetired, Database.empty]
  exact ⟨s, hrun, of_decide_eq_true hretired, of_decide_eq_true hsigned, (signed_before_retired_iff hempty hrun).1.1⟩

end NexusCone.RetirementDates
