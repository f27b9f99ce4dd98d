import NexusCone.FairRuns
import NexusCone.Service

/-!
# Every call comes to its end

On any number of ledgers over one file, with any methods, pollers, failures, cancellations and
closes: no call waits for a lock whose holder cannot go on, and where the scheduler is fair, all
calls end and leave every lock free.
-/
namespace NexusCone.CallCompletion
open SharedFile AsyncProgram AsyncSystem FairRuns PyValue LedgerSchema Ledger LedgerRuns Poller ConfirmedProofs PollerRuns
  Service

section Runs

variable [IsoTime.Platform] {T : Proofs} {W : Type}

theorem guards_of_service {rules : ServiceRules T W} {d : Database} {w : W} {s : ServiceSys T W}
    (h : ServiceRun rules (startService d w) s) : Guards (fun _ => True) s :=
  guards_of_run (fun call => guarded_service (admits_any call)) (guards_start fun _ => rfl) h

/-- The call has not ended. -/
def Unfinished (s : ServiceSys T W) (t : TaskId) (i : InstId) : Prop :=
  ∃ c op k, s.tasks[t]? = some ⟨i, c, .perform op k⟩

theorem calls_complete (d : Database) (w : W) (state : ℕ → ServiceSys T W) (event : ℕ → Option (ServiceEvent T W))
    (hstart : ServiceRun .all (startService d w) (state 0)) (hexec : Execution ServiceCall.body state event)
    (hcalls : ∃ n, ∀ m ≥ n, ∀ i c, event m ≠ some (.call i c)) (hfair : Fair state event) :
    (∀ n t i, Unfinished (state n) t i →
      CanRun (state n) t ∨ ∃ u ≠ t, ((state n).shared.handles i).lock = some u ∧ CanRun (state n) u) ∧
    ∃ n, ∀ m ≥ n, Quiet (state m) := by
  have hbody (call : ServiceCall) : (call.body (T := T)).Guarded (fun _ => True) false :=
    guarded_service (admits_any call)
  have hguards := guards_of_service hstart
  refine ⟨?_, hexec.quiet hbody hguards hcalls hfair⟩
  rintro n t i ⟨c, op, k, ht⟩
  exact (hexec.guards hbody hguards n).canRun ht

end Runs

section Examples

abbrev OneProof : Proofs := twoTrees promise promiseKept

abbrev OneProofEvent : Type := ServiceEvent OneProof Unit

def answers : Outcome ServiceRequest (ServiceReply OneProof) PyError Unit := pollerAnswers explorerDown

def registers (publicKeyHex : String) : ServiceCall := .ledger (.registerWitness "w" publicKeyHex "self")

/-- Two registrations under one label; the second waits for the lock, and its `INSERT` is refused. -/
def twoRegistrations : List OneProofEvent :=
  [.connect 0, .call 0 (registers "00"), .call 0 (registers "01"), .run 0 .ok, .run 1 .ok, .run 0 answers, .run 1 answers,
    .run 0 .ok, .run 0 .ok, .run 0 .ok, .run 0 .ok, .run 1 .ok, .run 1 .ok, .run 1 .ok]

end Examples

theorem calls_complete_registrations : ∃ (state : ℕ → ServiceSys OneProof Unit) (event : ℕ → Option OneProofEvent),
    event 2 = some (.call 0 (registers "01")) ∧ ∃ n, ∀ m ≥ n, Quiet (state m) := by
  have h : (runEvents ServiceCall.body (startService Database.empty ()) twoRegistrations).any Sys.allEnded = true := by
    decide +kernel
  obtain ⟨s, hs, hended⟩ := (Option.any_eq_true _ _).mp h
  have hnone (m : ℕ) (hm : m ≥ twoRegistrations.length) : twoRegistrations[m]? = none := List.getElem?_eq_none_iff.mpr hm
  refine ⟨statesOf ServiceCall.body (startService Database.empty ()) twoRegistrations, fun n => twoRegistrations[n]?,
    rfl, (calls_complete Database.empty () _ _ .refl (execution_of_events hs) ?_ ?_).2⟩
  · exact ⟨_, fun m hm i c hcall => by rw [hnone m hm] at hcall; cases hcall⟩
  · exact fair_of_ended hs fun task htask => (Sys.result_of_endedWith hended task htask).imp fun _ h => h.1

end NexusCone.CallCompletion
