import NexusCone.RelyGuarantee
import NexusCone.TaskRuns
import Mathlib.Data.Nat.Basic
import Mathlib.Data.Nat.Find
import Mathlib.Data.Nat.Init

/-!
# Executions in which every task gets its turn

Where every call takes the lock of its instance only when it does not hold it and gives it back in
the end, the tasks never wait for each other in a circle. So in an execution that makes finitely
many calls and lets every task run that could run from some time on, every call ends and every lock
is free in the end, whatever fails.
-/
namespace NexusCone.FairRuns
open SharedFile AsyncProgram AsyncSystem RelyGuarantee TaskRuns

variable {D S W Q ε C R : Type} {Ans : Q → Type} [SqlStatement S D] [Raises ε]

section Guards

variable {statement : S → Prop}

/-- The lock of an instance is held by one of its tasks, and each task goes on as one that holds
the lock or as one that does not. -/
structure Guards (statement : S → Prop) (s : Sys D S W Q Ans ε C R) : Prop where
  guarded : ∀ (t : TaskId) i c p, s.tasks[t]? = some ⟨i, c, p⟩ →
    p.Guarded statement (decide ((s.shared.handles i).lock = some t))
  holder : ∀ i (t : TaskId), (s.shared.handles i).lock = some t → ∃ c p, s.tasks[t]? = some ⟨i, c, p⟩

variable {i : InstId} {t : TaskId} {σ σ' : Shared D S W} {o : Outcome Q Ans ε W} {op : Op S Q}
variable {r : Except ε (op.Res D Ans)}

/-- Only taking and giving back change a lock. -/
theorem handles_of_effect (h : effect i t σ op o = some (r, σ')) (hacquire : op ≠ .acquire)
    (hrelease : op ≠ .release) : σ'.handles = σ.handles := by
  cases op with
  | connection => rw [(effect_connection h).1]
  | acquire => exact absurd rfl hacquire
  | release => exact absurd rfl hrelease
  | select c => rw [(effect_select h).1]
  | external q => rcases effect_external h with ⟨f, w, -, -, rfl⟩ | ⟨-, rfl⟩ <;> rfl
  | execute c s => rcases effect_execute h with ⟨d, n, -, -, -, rfl⟩ | ⟨e, f, l, -, -, -, rfl⟩ <;> rfl
  | commit c => rcases effect_commit h with ⟨v, -, -, -, rfl⟩ | ⟨-, -, -, rfl⟩ | ⟨e, l, -, -, rfl⟩ <;> rfl

/-- A guarded task's step: it goes on as the lock then says, and the others' locks stay theirs. -/
theorem guarded_of_effect {α : Type} {k : Except ε (op.Res D Ans) → Prog D S Q Ans ε α}
    (hp : (Prog.perform op k).Guarded statement (decide ((σ.handles i).lock = some t)))
    (h : effect i t σ op o = some (r, σ')) :
    (k r).Guarded statement (decide ((σ'.handles i).lock = some t)) ∧
      (∀ j u, u ≠ t → ((σ'.handles j).lock = some u ↔ (σ.handles j).lock = some u)) ∧
      ∀ j, (σ'.handles j).lock = some t → (σ.handles j).lock = some t ∨ j = i := by
  have hset (x : Option TaskId) (j : InstId) (hj : j ≠ i) : ((σ.setLock i x).handles j).lock = (σ.handles j).lock :=
    Shared.setLock_lock_of_ne σ x hj
  cases op with
  | acquire =>
    obtain ⟨hno, hok, herror⟩ := hp
    rcases effect_acquire h with ⟨hfree, rfl, rfl⟩ | ⟨rfl, rfl⟩
    · refine ⟨?_, fun j u hu => ?_, fun j hj => ?_⟩
      · rw [Shared.setLock_lock_self, decide_eq_true rfl]
        exact hok
      · by_cases hji : j = i
        · subst hji
          rw [Shared.setLock_lock_self, hfree]
          exact iff_of_false (fun h => hu (Option.some.inj h).symm) (by simp)
        · rw [hset _ j hji]
      · by_cases hji : j = i
        · exact .inr hji
        · exact .inl (by rwa [hset _ j hji] at hj)
    · rw [hno]
      exact ⟨herror _, fun _ _ _ => Iff.rfl, fun _ hj => .inl hj⟩
  | release =>
    obtain ⟨hheld, hk⟩ := hp
    obtain ⟨rfl, rfl⟩ := effect_release h
    have hlock : (σ.handles i).lock = some t := of_decide_eq_true hheld
    refine ⟨?_, fun j u hu => ?_, fun j hj => ?_⟩
    · rw [Shared.setLock_lock_self, decide_eq_false (by simp)]
      exact hk _
    · by_cases hji : j = i
      · subst hji
        rw [Shared.setLock_lock_self, hlock]
        exact iff_of_false (by simp) (fun h => hu (Option.some.inj h).symm)
      · rw [hset _ j hji]
    · by_cases hji : j = i
      · exact .inr hji
      · exact .inl (by rwa [hset _ j hji] at hj)
  | _ =>
    rw [handles_of_effect h (by simp) (by simp)]
    exact ⟨hp.2 r, fun _ _ _ => Iff.rfl, fun _ hj => .inl hj⟩

variable {body : C → Prog D S Q Ans ε R} {s s' : Sys D S W Q Ans ε C R}

theorem Guards.run (hs : Guards statement s) (h : runTask t o s = some s') : Guards statement s' := by
  obtain ⟨i, c, op, k, r, σ, ht, hx, rfl⟩ := runTask_some h
  have hlt : t < s.tasks.length := (List.getElem?_eq_some_iff.mp ht).1
  obtain ⟨hk, hothers, hown⟩ := guarded_of_effect (hs.guarded t i c _ ht) hx
  refine ⟨fun u j d p hu => ?_, fun j u hj => ?_⟩
  · by_cases hut : u = t
    · subst hut
      rw [List.getElem?_set_self hlt] at hu
      cases hu
      exact hk
    · rw [List.getElem?_set_ne (Ne.symm hut)] at hu
      show p.Guarded statement (decide ((σ.handles j).lock = some u))
      simp only [hothers j u hut]
      exact hs.guarded u j d p hu
  · by_cases hut : u = t
    · subst hut
      rcases hown j hj with hlock | rfl
      · obtain ⟨c', p, hp⟩ := hs.holder j u hlock
        rw [ht] at hp
        cases hp
        exact ⟨_, _, List.getElem?_set_self hlt⟩
      · exact ⟨_, _, List.getElem?_set_self hlt⟩
    · rw [List.getElem?_set_ne (Ne.symm hut)]
      exact hs.holder j u ((hothers j u hut).mp hj)

omit [SqlStatement S D] [Raises ε] in
/-- A change that leaves the locks alone. -/
theorem Guards.same_locks (hs : Guards statement s) (h : ∀ j, (σ.handles j).lock = (s.shared.handles j).lock) :
    Guards statement { s with shared := σ } := by
  refine ⟨fun t i c p ht => ?_, fun i t hi => hs.holder i t ((h i).symm.trans hi)⟩
  show p.Guarded statement (decide ((σ.handles i).lock = some t))
  rw [h i]
  exact hs.guarded t i c p ht

theorem Guards.step (hbody : ∀ c, (body c).Guarded statement false) (hs : Guards statement s) {e : Event Q Ans ε W C}
    (h : step body s e = some s') : Guards statement s' := by
  cases e with
  | run t o => exact hs.run h
  | call i c =>
    cases h
    refine ⟨fun t j d p ht => ?_, fun j t hj => ?_⟩
    · by_cases hlt : t < s.tasks.length
      · rw [List.getElem?_append_left hlt] at ht
        exact hs.guarded t j d p ht
      · -- Nobody has given the new task a lock.
        have hfree : (s.shared.handles j).lock ≠ some t := by
          intro hlock
          obtain ⟨c', p', hp⟩ := hs.holder j t hlock
          exact hlt (List.getElem?_eq_some_iff.mp hp).1
        rw [List.getElem?_append_right (Nat.not_lt.mp hlt), List.getElem?_singleton] at ht
        split at ht <;> cases ht
        show (body c).Guarded statement (decide ((s.shared.handles i).lock = some t))
        rw [decide_eq_false hfree]
        exact hbody c
    · obtain ⟨c', p, hp⟩ := hs.holder j t hj
      exact ⟨c', p, (List.getElem?_append_left (List.getElem?_eq_some_iff.mp hp).1).trans hp⟩
  | connect i =>
    obtain ⟨σ, hσ, rfl⟩ := Option.map_eq_some_iff.mp h
    obtain ⟨-, rfl⟩ := connectShared_some hσ
    exact hs.same_locks fun j => Shared.setDb_lock s.shared i j _
  | close i =>
    obtain ⟨σ, hσ, rfl⟩ := Option.map_eq_some_iff.mp h
    obtain ⟨c, -, rfl⟩ := closeShared_some hσ
    exact hs.same_locks fun _ => rfl
  | detach i =>
    obtain ⟨σ, hσ, rfl⟩ := Option.map_eq_some_iff.mp h
    obtain ⟨c, -, -, rfl⟩ := detachShared_some hσ
    exact hs.same_locks fun j => Shared.setDb_lock s.shared i j _

theorem guards_of_run {rules : Rules D S W Q Ans ε C} (hbody : ∀ c, (body c).Guarded statement false)
    (hs : Guards statement s) (h : Run body rules s s') : Guards statement s' := by
  induction h with
  | refl => exact hs
  | tail _ hlast ih =>
    obtain ⟨e, -, he⟩ := hlast
    exact ih.step hbody he

omit [SqlStatement S D] [Raises ε] in
theorem guards_start (h : ∀ i, (σ.handles i).lock = none) :
    Guards statement (⟨σ, []⟩ : Sys D S W Q Ans ε C R) :=
  ⟨fun t i c p ht => by simp at ht, fun i t hi => by simp [h i] at hi⟩

end Guards

section Progress

variable {statement : S → Prop} {s s' : Sys D S W Q Ans ε C R} {t : TaskId}

/-- The task can perform its next operation, and not only by being cancelled. -/
def CanRun (s : Sys D S W Q Ans ε C R) (t : TaskId) : Prop :=
  ∃ o s', (∀ performed, o ≠ .cancel performed) ∧ runTask t o s = some s'

/-- A task cannot run where it has ended or waits for the lock of its instance. -/
theorem canRun_iff : CanRun s t ↔ ∃ i c op k, s.tasks[t]? = some ⟨i, c, .perform op k⟩ ∧
    (op = .acquire → (s.shared.handles i).lock = none) := by
  constructor
  · rintro ⟨o, s', ho, h⟩
    obtain ⟨i, c, op, k, r, σ, ht, hx, -⟩ := runTask_some h
    refine ⟨i, c, op, k, ht, ?_⟩
    rintro rfl
    cases o with
    | cancel performed => exact absurd rfl (ho performed)
    | ok =>
      rcases effect_acquire hx with ⟨hfree, -⟩ | ⟨rfl, -⟩
      · exact hfree
      · by_contra hlock
        simp [effect, hlock] at hx
    | fail m locks => cases hx
    | answer f w => cases hx
  · rintro ⟨i, c, op, k, ht, hfree⟩
    suffices h : ∃ o, (∀ performed, o ≠ .cancel performed) ∧ ∃ p, effect i t s.shared op o = some p by
      obtain ⟨o, ho, ⟨r, σ⟩, hx⟩ := h
      exact ⟨o, _, ho, by simp only [runTask, ht, hx]; rfl⟩
    cases op with
    | external q => exact ⟨.answer (fun _ => .error Raises.notOpen) s.shared.world, by simp, _, rfl⟩
    | acquire => exact ⟨.ok, by simp, _, by simp only [effect, if_pos (hfree rfl)]; rfl⟩
    | connection => exact ⟨.ok, by simp, by simp only [effect]; split <;> exact ⟨_, rfl⟩⟩
    | select d => exact ⟨.ok, by simp, by simp only [effect]; split <;> exact ⟨_, rfl⟩⟩
    | release | execute | commit => exact ⟨.ok, by simp, _, rfl⟩

/-- A task that has not ended can run, or the holder of its lock can. -/
theorem Guards.canRun (hs : Guards statement s) {i : InstId} {c : C} {op : Op S Q}
    {k : Except ε (op.Res D Ans) → Prog D S Q Ans ε R} (ht : s.tasks[t]? = some ⟨i, c, .perform op k⟩) :
    CanRun s t ∨ ∃ u ≠ t, (s.shared.handles i).lock = some u ∧ CanRun s u := by
  cases hlock : (s.shared.handles i).lock with
  | none => exact .inl (canRun_iff.mpr ⟨i, c, op, k, ht, fun _ => hlock⟩)
  | some u =>
    obtain ⟨c', p, hu⟩ := hs.holder i u hlock
    have hp := hs.guarded u i c' p hu
    rw [decide_eq_true hlock] at hp
    -- The holder has not ended and does not wait for the lock it holds.
    cases p with
    | done r => cases hp
    | perform op' k' =>
      have hrun : CanRun s u := canRun_iff.mpr ⟨i, c', op', k', hu, by rintro rfl; cases hp.1⟩
      by_cases hut : u = t
      · exact .inl (hut ▸ hrun)
      · exact .inr ⟨u, hut, rfl, hrun⟩

end Progress

section Executions

/-- An execution: an event at a time, or none. -/
structure Execution (body : C → Prog D S Q Ans ε R) (state : ℕ → Sys D S W Q Ans ε C R)
    (event : ℕ → Option (Event Q Ans ε W C)) : Prop where
  idle : ∀ n, event n = none → state (n + 1) = state n
  step : ∀ n e, event n = some e → step body (state n) e = some (state (n + 1))

def Runs (event : ℕ → Option (Event Q Ans ε W C)) (t : TaskId) (n : ℕ) : Prop := ∃ o, event n = some (.run t o)

/-- A task that can run from some time on runs at some later time. -/
def Fair (state : ℕ → Sys D S W Q Ans ε C R) (event : ℕ → Option (Event Q Ans ε W C)) : Prop :=
  ∀ t n, (∀ m ≥ n, CanRun (state m) t) → ∃ m ≥ n, Runs event t m

/-- Every call has ended and every lock is free. -/
structure Quiet (s : Sys D S W Q Ans ε C R) : Prop where
  ended : ∀ task ∈ s.tasks, ∃ r, task.prog = .done r
  free : ∀ i, (s.shared.handles i).lock = none

variable {body : C → Prog D S Q Ans ε R} {state : ℕ → Sys D S W Q Ans ε C R}
variable {event : ℕ → Option (Event Q Ans ε W C)} {statement : S → Prop} {t : TaskId} {n m : ℕ}

/-- While a task does not run, its program stays. -/
theorem Execution.task (h : Execution body state event) {task : Task D S Q Ans ε C R}
    (ht : (state n).tasks[t]? = some task) (hnm : n ≤ m) (hno : ∀ j ≥ n, j < m → ¬ Runs event t j) :
    (state m).tasks[t]? = some task := by
  induction m, hnm using Nat.le_induction with
  | base => exact ht
  | succ m hnm ih =>
    have htask := ih fun j hj hlt => hno j hj (Nat.lt_succ_of_lt hlt)
    cases he : event m with
    | none =>
      rw [h.idle m he]
      exact htask
    | some e =>
      refine (step_other (fun o ho => hno m hnm (Nat.lt_succ_self m) ⟨o, ?_⟩) (h.step m e he) htask).1
      rw [he, ho]

/-- A task runs finitely often: each time its program gets smaller. -/
theorem Execution.runs_bounded (h : Execution body state event) {i : InstId} {c : C} {p : Prog D S Q Ans ε R}
    (ht : (state n).tasks[t]? = some ⟨i, c, p⟩) : ∃ N, ∀ m ≥ N, ¬ Runs event t m := by
  induction p generalizing n with
  | done r =>
    have hstay (m : ℕ) : ∀ j ≥ n, j < m → ¬ Runs event t j := by
      induction m with
      | zero => exact fun j _ hj => absurd hj (Nat.not_lt_zero j)
      | succ m ih =>
        intro j hj hlt
        rcases Nat.lt_succ_iff_lt_or_eq.mp hlt with hlt | rfl
        · exact ih j hj hlt
        · rintro ⟨o, ho⟩
          obtain ⟨j', c', op, k, r', σ, ht', -, -⟩ := runTask_some (h.step j _ ho)
          cases (h.task ht hj ih).symm.trans ht'
    exact ⟨n, fun m hm => hstay (m + 1) m hm (Nat.lt_succ_self m)⟩
  | perform op k ih =>
    by_cases hruns : ∃ m ≥ n, Runs event t m
    · classical
      obtain ⟨hle, o, ho⟩ := Nat.find_spec hruns
      -- The first time it runs from `n` on, it performs its operation.
      have htask := h.task ht hle fun j hj hlt hrun => Nat.find_min hruns hlt ⟨hj, hrun⟩
      obtain ⟨x, -, hnext, -⟩ := step_own htask (h.step _ _ ho)
      exact ih x hnext
    · exact ⟨n, fun m hm hrun => hruns ⟨m, hm, hrun⟩⟩

theorem Execution.guards (h : Execution body state event) (hbody : ∀ c, (body c).Guarded statement false)
    (hs : Guards statement (state 0)) (n : ℕ) : Guards statement (state n) := by
  induction n with
  | zero => exact hs
  | succ n ih =>
    cases he : event n with
    | none =>
      rw [h.idle n he]
      exact ih
    | some e => exact ih.step hbody (h.step n e he)

/-- A step that is neither a call nor a run leaves tasks and locks alone. -/
theorem Execution.same (h : Execution body state event) (hcall : ∀ i c, event n ≠ some (.call i c))
    (hrun : ∀ t, ¬ Runs event t n) : (state (n + 1)).tasks = (state n).tasks ∧
      ∀ i, ((state (n + 1)).shared.handles i).lock = ((state n).shared.handles i).lock := by
  cases he : event n with
  | none =>
    rw [h.idle n he]
    exact ⟨rfl, fun _ => rfl⟩
  | some e =>
    have hstep := h.step n e he
    generalize state (n + 1) = s' at hstep
    cases e with
    | call i c => exact absurd he (hcall i c)
    | run t o => exact absurd ⟨o, he⟩ (hrun t)
    | connect i =>
      obtain ⟨σ, hσ, rfl⟩ := Option.map_eq_some_iff.mp hstep
      obtain ⟨-, rfl⟩ := connectShared_some hσ
      exact ⟨rfl, fun j => Shared.setDb_lock _ i j _⟩
    | close i =>
      obtain ⟨σ, hσ, rfl⟩ := Option.map_eq_some_iff.mp hstep
      obtain ⟨c, -, rfl⟩ := closeShared_some hσ
      exact ⟨rfl, fun _ => rfl⟩
    | detach i =>
      obtain ⟨σ, hσ, rfl⟩ := Option.map_eq_some_iff.mp hstep
      obtain ⟨c, -, -, rfl⟩ := detachShared_some hσ
      exact ⟨rfl, fun j => Shared.setDb_lock _ i j _⟩

/-- The number of tasks stays when no more calls are made. -/
theorem Execution.length_tasks (h : Execution body state event) (hcalls : ∀ m ≥ n, ∀ i c, event m ≠ some (.call i c))
    (hnm : n ≤ m) : (state m).tasks.length = (state n).tasks.length := by
  induction m, hnm using Nat.le_induction with
  | base => rfl
  | succ m hnm ih =>
    rw [← ih]
    cases he : event m with
    | none => rw [h.idle m he]
    | some e =>
      have hstep := h.step m e he
      cases e with
      | call i c => exact absurd he (hcalls m hnm i c)
      | run t o =>
        obtain ⟨i, c, op, k, r, σ, -, -, hs⟩ := runTask_some hstep
        rw [hs]
        exact List.length_set
      | connect i | close i | detach i =>
        obtain ⟨σ, -, hs⟩ := Option.map_eq_some_iff.mp hstep
        rw [← hs]

/-- From some time on nothing runs. -/
theorem Execution.still (h : Execution body state event) (hcalls : ∀ m ≥ n, ∀ i c, event m ≠ some (.call i c)) :
    ∃ N ≥ n, ∀ m ≥ N, ∀ t, ¬ Runs event t m := by
  have hbounded (t : TaskId) : ∃ N ≥ n, ∀ m ≥ N, ¬ Runs event t m := by
    by_cases hlt : t < (state n).tasks.length
    · obtain ⟨N, hN⟩ := h.runs_bounded (List.getElem?_eq_getElem hlt)
      exact ⟨max N n, le_max_right N n, fun m hm => hN m (le_trans (le_max_left N n) hm)⟩
    · refine ⟨n, le_refl n, ?_⟩
      rintro m hm ⟨o, ho⟩
      obtain ⟨i, c, op, k, r, σ, ht, -, -⟩ := runTask_some (h.step m _ ho)
      rw [← h.length_tasks hcalls hm] at hlt
      exact hlt (List.getElem?_eq_some_iff.mp ht).1
  have hall (k : ℕ) : ∃ N ≥ n, ∀ m ≥ N, ∀ t < k, ¬ Runs event t m := by
    induction k with
    | zero => exact ⟨n, le_refl n, fun m _ t ht => absurd ht (Nat.not_lt_zero t)⟩
    | succ k ih =>
      obtain ⟨N, hN, hruns⟩ := ih
      obtain ⟨N', -, hruns'⟩ := hbounded k
      refine ⟨max N N', le_trans hN (le_max_left N N'), fun m hm t ht => ?_⟩
      rcases Nat.lt_succ_iff_lt_or_eq.mp ht with ht | rfl
      · exact hruns m (le_trans (le_max_left N N') hm) t ht
      · exact hruns' m (le_trans (le_max_right N N') hm)
  obtain ⟨N, hN, hruns⟩ := hall (state n).tasks.length
  refine ⟨N, hN, ?_⟩
  rintro m hm t ⟨o, ho⟩
  obtain ⟨i, c, op, k, r, σ, ht, -, -⟩ := runTask_some (h.step m _ ho)
  refine hruns m hm t ?_ ⟨o, ho⟩
  rw [← h.length_tasks hcalls (le_trans hN hm)]
  exact (List.getElem?_eq_some_iff.mp ht).1

/-- Under fairness every call ends, and then every lock is free. -/
theorem Execution.quiet (h : Execution body state event) (hbody : ∀ c, (body c).Guarded statement false)
    (hs : Guards statement (state 0)) (hcalls : ∃ n, ∀ m ≥ n, ∀ i c, event m ≠ some (.call i c))
    (hfair : Fair state event) : ∃ n, ∀ m ≥ n, Quiet (state m) := by
  obtain ⟨n, hn⟩ := hcalls
  obtain ⟨N, hN, hstill⟩ := h.still hn
  have hsame (m : ℕ) (hm : m ≥ N) : (state m).tasks = (state N).tasks ∧
      ∀ i, ((state m).shared.handles i).lock = ((state N).shared.handles i).lock := by
    induction m, hm using Nat.le_induction with
    | base => exact ⟨rfl, fun _ => rfl⟩
    | succ m hm ih =>
      obtain ⟨htasks, hlocks⟩ := h.same (hn m (le_trans hN hm)) (hstill m hm)
      exact ⟨htasks.trans ih.1, fun i => (hlocks i).trans (ih.2 i)⟩
  have hnone (t : TaskId) : ¬ CanRun (state N) t := by
    intro hrun
    obtain ⟨m, hm, hruns⟩ := hfair t N fun m hm => by
      obtain ⟨htasks, hlocks⟩ := hsame m hm
      obtain ⟨i, c, op, k, ht, hfree⟩ := canRun_iff.mp hrun
      exact canRun_iff.mpr ⟨i, c, op, k, by rw [htasks]; exact ht, fun ho => (hlocks i).trans (hfree ho)⟩
    exact hstill m hm t hruns
  have hended : ∀ task ∈ (state N).tasks, ∃ r, task.prog = .done r := by
    rintro ⟨i, c, p⟩ htask
    obtain ⟨t, hlt, ht⟩ := List.getElem_of_mem htask
    have ht : (state N).tasks[t]? = some ⟨i, c, p⟩ := ht ▸ List.getElem?_eq_getElem hlt
    cases p with
    | done r => exact ⟨r, rfl⟩
    | perform op k =>
      rcases (h.guards hbody hs N).canRun ht with hrun | ⟨u, -, -, hrun⟩
      · exact absurd hrun (hnone t)
      · exact absurd hrun (hnone u)
  have hfree (i : InstId) : ((state N).shared.handles i).lock = none := by
    cases hlock : ((state N).shared.handles i).lock with
    | none => rfl
    | some t =>
      obtain ⟨c, p, ht⟩ := (h.guards hbody hs N).holder i t hlock
      have hp := (h.guards hbody hs N).guarded t i c p ht
      obtain ⟨r, rfl⟩ := hended _ (List.mem_of_getElem? ht)
      rw [decide_eq_true hlock] at hp
      cases hp
  refine ⟨N, fun m hm => ?_⟩
  obtain ⟨htasks, hlocks⟩ := hsame m hm
  exact ⟨by rw [htasks]; exact hended, fun i => (hlocks i).trans (hfree i)⟩

/-- The states along the events, the last one from their end on. -/
def statesOf (body : C → Prog D S Q Ans ε R) (s : Sys D S W Q Ans ε C R) (es : List (Event Q Ans ε W C)) (n : ℕ) :
    Sys D S W Q Ans ε C R := (runEvents body s (es.take n)).getD s

theorem runEvents_append {s : Sys D S W Q Ans ε C R} {es es' : List (Event Q Ans ε W C)} :
    runEvents body s (es ++ es') = (runEvents body s es).bind fun s' => runEvents body s' es' := List.foldlM_append

variable {s s' : Sys D S W Q Ans ε C R} {es : List (Event Q Ans ε W C)}

theorem runEvents_take (h : runEvents body s es = some s') (n : ℕ) :
    runEvents body s (es.take n) = some (statesOf body s es n) := by
  have hsplit : runEvents body s (es.take n ++ es.drop n) = some s' := by rwa [List.take_append_drop]
  rw [runEvents_append] at hsplit
  obtain ⟨s₁, hs₁, -⟩ := Option.bind_eq_some_iff.mp hsplit
  rw [statesOf, hs₁]
  rfl

/-- A finite run with nothing after it is an execution. -/
theorem execution_of_events (h : runEvents body s es = some s') : Execution body (statesOf body s es) fun n => es[n]? where
  idle n hn := by
    have hlen := List.getElem?_eq_none_iff.mp hn
    rw [statesOf, statesOf, List.take_of_length_le hlen, List.take_of_length_le (Nat.le_succ_of_le hlen)]
  step n e he := by
    have htake : es.take (n + 1) = es.take n ++ [e] := by rw [List.take_add_one, he]; rfl
    have hnext := runEvents_take h (n + 1)
    rw [htake, runEvents_append, runEvents_take h n] at hnext
    simpa [runEvents] using hnext

/-- It is fair where every call has ended in it. -/
theorem fair_of_ended (h : runEvents body s es = some s') (hended : ∀ task ∈ s'.tasks, ∃ r, task.prog = .done r) :
    Fair (statesOf body s es) fun n => es[n]? := by
  intro t n hrun
  have hlast : statesOf body s es (max n es.length) = s' := by
    rw [statesOf, List.take_of_length_le (le_max_right n es.length), h]
    rfl
  obtain ⟨i, c, op, k, ht, -⟩ := canRun_iff.mp (hrun _ (le_max_left n es.length))
  rw [hlast] at ht
  obtain ⟨r, hr⟩ := hended _ (List.mem_of_getElem? ht)
  cases hr

end Executions
end NexusCone.FairRuns
