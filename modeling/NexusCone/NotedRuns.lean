import NexusCone.TaskRuns
import NexusCone.RelyGuarantee

/-!
# Runs with what each task has read

A run whose states carry, beside the system, the contents that each task has read so far. A
condition on such a run can speak of what has changed since a task last read. The statements of a
based program stand in a relation to what it has read, whatever it has read; on a run this holds of
every statement that is about to be executed.
-/
namespace NexusCone.NotedRuns
open SharedFile AsyncProgram AsyncSystem RelyGuarantee TaskRuns

section Programs

variable {D S Q ε α β : Type} {Ans : Q → Type} {basis : List D → S → Prop}

/-- Having read these contents, the program executes only statements that have this basis. -/
def Based (basis : List D → S → Prop) : List D → Prog D S Q Ans ε α → Prop
  | _, .done _ => True
  | reads, .perform op k => op.executes (basis reads) ∧ ∀ r, Based basis (reads ++ contentsRead op r) (k r)

theorem Based.bind {p : Prog D S Q Ans ε α} {f : α → Prog D S Q Ans ε β} {reads : List D}
    (hp : Based basis reads p) (hf : ∀ a reads, Based basis reads (f a)) : Based basis reads (p >>= f) := by
  induction p generalizing reads with
  | done r =>
    cases r with
    | ok a => exact hf a reads
    | error e => exact trivial
  | perform op k ih => exact ⟨hp.1, fun r => ih r (hp.2 r)⟩

theorem Based.attempt {p : Prog D S Q Ans ε α} {reads : List D} (hp : Based basis reads p) :
    Based basis reads p.attempt := by
  induction p generalizing reads with
  | done r => exact trivial
  | perform op k ih => exact ⟨hp.1, fun r => ih r (hp.2 r)⟩

/-- Statements that have their basis in what has been read already, whatever is read later. -/
theorem based_of_uses_from {statement : S → Prop} {p : Prog D S Q Ans ε α} {reads : List D}
    (hp : p.Uses (Op.executes statement)) (hbasis : ∀ s, statement s → ∀ later, basis (reads ++ later) s) :
    Based basis reads p := by
  induction p generalizing reads with
  | done r => exact trivial
  | perform op k ih =>
    refine ⟨?_, fun r => ih r (hp.2 r) fun s hs later => ?_⟩
    · cases op with
      | execute c s =>
        have hfirst := hbasis s hp.1 []
        rwa [List.append_nil] at hfirst
      | _ => exact trivial
    · rw [List.append_assoc]
      exact hbasis s hs _

/-- Statements that always have their basis. -/
theorem based_of_uses {p : Prog D S Q Ans ε α} (hp : p.Uses (Op.executes fun s => ∀ reads, basis reads s))
    (reads : List D) : Based basis reads p :=
  based_of_uses_from hp fun _ hs _ => hs _

theorem based_of_reads {p : Prog D S Q Ans ε α} (hp : p.Uses Op.isRead) (reads : List D) : Based basis reads p :=
  based_of_uses (hp.mono fun op h => by cases op <;> trivial) reads

theorem Based.withLock {p : Prog D S Q Ans ε α} (hp : ∀ reads, Based basis reads p) (reads : List D) :
    Based basis reads (Prog.withLock p) := by
  refine ⟨trivial, fun r => ?_⟩
  cases r with
  | error e => exact trivial
  | ok u =>
    refine (hp _).attempt.bind fun result reads => ⟨trivial, fun r => ?_⟩
    cases r <;> exact trivial

end Programs

section Runs

variable {D S W Q ε C R : Type} {Ans : Q → Type} [SqlStatement S D] [Raises ε]

/-- What each task has read after the event. -/
def noted (s : Sys D S W Q Ans ε C R) (e : Event Q Ans ε W C) (reads : TaskId → List D) : TaskId → List D :=
  fun t => reads t ++ readIn t s e

abbrev NotedSys (D S W Q : Type) (Ans : Q → Type) (ε C R : Type) :=
  Sys D S W Q Ans ε C R × (TaskId → List D)

/-- Runs whose steps meet a condition on the state, on what the tasks have read, and on the event. -/
abbrev NotedRun (body : C → Prog D S Q Ans ε R) (P : NotedSys D S W Q Ans ε C R → Event Q Ans ε W C → Prop) :
    NotedSys D S W Q Ans ε C R → NotedSys D S W Q Ans ε C R → Prop :=
  Relation.ReflTransGen fun p p' => ∃ e, P p e ∧ step body p.1 e = some p'.1 ∧ p'.2 = noted p.1 e p.2

variable {body : C → Prog D S Q Ans ε R} {P : NotedSys D S W Q Ans ε C R → Event Q Ans ε W C → Prop}
variable {p p' : NotedSys D S W Q Ans ε C R} {s s' : Sys D S W Q Ans ε C R} {reads : TaskId → List D}

/-- The tasks go on as what they have read lets them. -/
def AllBased (basis : List D → S → Prop) (p : NotedSys D S W Q Ans ε C R) : Prop :=
  ∀ t task, p.1.tasks[t]? = some task → Based basis (p.2 t) task.prog

variable {basis : List D → S → Prop}

theorem AllBased.step {e : Event Q Ans ε W C} (hbody : ∀ c reads, Based basis reads (body c))
    (h : AllBased basis (s, reads)) (hs : step body s e = some s') : AllBased basis (s', noted s e reads) := by
  intro t task ht
  have hsame {s'} (hs : AsyncSystem.step body s e = some s') (he : ∀ o, e ≠ .run t o)
      (hold : s.tasks[t]? = some task) : Based basis (noted s e reads t) task.prog := by
    have hnone : noted s e reads t = reads t := by
      simp only [noted, (step_other he hs hold).2, List.append_nil]
    rw [hnone]
    exact h t task hold
  cases e with
  | call i c =>
    cases hs
    by_cases hlt : t < s.tasks.length
    · rw [List.getElem?_append_left hlt] at ht
      exact hsame rfl (by simp) ht
    · rw [List.getElem?_append_right (Nat.not_lt.mp hlt), List.getElem?_singleton] at ht
      split at ht <;> cases ht
      exact hbody c _
  | run u o =>
    obtain ⟨i, c, op, k, r, σ, hu, -, heq⟩ := runTask_some hs
    by_cases hut : u = t
    · subst hut
      obtain ⟨x, -, hnext, hread⟩ := step_own hu hs
      rw [ht] at hnext
      cases hnext
      have hafter : noted s (.run u o) reads u = reads u ++ contentsRead op x := by
        simp only [noted, hread]
      change Based basis (noted s (.run u o) reads u) (k x)
      rw [hafter]
      exact (h u _ hu).2 x
    · refine hsame hs (fun o' he => hut (by cases he; rfl)) ?_
      rwa [heq, List.getElem?_set_ne hut] at ht
  | connect i | close i | detach i =>
    obtain ⟨σ, -, rfl⟩ := Option.map_eq_some_iff.mp hs
    exact hsame hs (by simp) ht

/-- A noted run of based programs is one of all rules that the basis of each statement gives. -/
theorem run_of_noted {rules : Rules D S W Q Ans ε C} (hbody : ∀ c reads, Based basis reads (body c))
    (hallow : ∀ p e, AllBased basis p → P p e → rules.Allows p.1 e) (hp : AllBased basis p)
    (h : NotedRun body P p p') : Run body rules p.1 p'.1 ∧ AllBased basis p' := by
  induction h with
  | refl => exact ⟨.refl, hp⟩
  | @tail p₁ p₂ _ hlast ih =>
    obtain ⟨hrun, hbased⟩ := ih
    obtain ⟨e, hpe, he, hnoted⟩ := hlast
    obtain ⟨s₂, reads₂⟩ := p₂
    cases hnoted
    exact ⟨hrun.tail ⟨e, hallow _ e hbased hpe, he⟩, hbased.step hbody he⟩

theorem run_of_notedRun (h : NotedRun body P p p') : Run body Rules.all p.1 p'.1 := by
  induction h with
  | refl => exact .refl
  | tail _ hlast ih =>
    obtain ⟨e, -, he, -⟩ := hlast
    exact ih.tail ⟨e, by cases e <;> simp [Rules.Allows, Rules.all], he⟩

/-- What the task reads in an event, a connection sees in the state. -/
theorem seen_of_readIn {t : TaskId} {e : Event Q Ans ε W C} {d : D} (h : d ∈ readIn t s e) :
    ∃ c ∈ s.shared.file.opened, d = (s.shared.file.view c).data := by
  cases e with
  | run u o =>
    simp only [readIn] at h
    split at h
    · split at h
      · split at h
        · rename_i op _ _ _ r σ hx
          cases op with
          | select c =>
            cases r with
            | error e => cases h
            | ok d' =>
              obtain rfl := List.mem_singleton.mp h
              obtain ⟨-, ⟨hc, hd⟩ | ⟨e, he⟩⟩ := effect_select hx
              · cases hd
                exact ⟨c, hc, rfl⟩
              · cases he
          | _ => cases r <;> cases h
        · cases h
      · cases h
    · cases h
  | call | connect | close | detach => cases h

/-- What has been noted was seen in an earlier state of the run. -/
theorem seen_of_noted {t : TaskId} {d : D} (h : NotedRun body P (s, fun _ => []) p) (hd : d ∈ p.2 t) :
    ∃ s₁ c, Run body Rules.all s s₁ ∧ Run body Rules.all s₁ p.1 ∧ c ∈ s₁.shared.file.opened ∧
      d = (s₁.shared.file.view c).data := by
  induction h with
  | refl => cases hd
  | @tail p₁ p₂ hrun hlast ih =>
    have hstep : Run body Rules.all p₁.1 p₂.1 := run_of_notedRun (.single hlast)
    obtain ⟨e, -, -, hnoted⟩ := hlast
    rw [hnoted] at hd
    rcases List.mem_append.mp hd with hd | hd
    · obtain ⟨s₁, c, hrun₁, hrun₂, hc, hview⟩ := ih hd
      exact ⟨s₁, c, hrun₁, hrun₂.trans hstep, hc, hview⟩
    · obtain ⟨c, hc, hview⟩ := seen_of_readIn hd
      exact ⟨p₁.1, c, run_of_notedRun hrun, hstep, hc, hview⟩

/-- The noted run of the events, as far as they pass the check. -/
def runNoted (body : C → Prog D S Q Ans ε R) (check : NotedSys D S W Q Ans ε C R → Event Q Ans ε W C → Bool)
    (p : NotedSys D S W Q Ans ε C R) (es : List (Event Q Ans ε W C)) : Option (NotedSys D S W Q Ans ε C R) :=
  es.foldlM (fun p e => if check p e then (step body p.1 e).map fun s => (s, noted p.1 e p.2) else none) p

theorem notedRun_of_runNoted {check : NotedSys D S W Q Ans ε C R → Event Q Ans ε W C → Bool}
    {p₀ : NotedSys D S W Q Ans ε C R} {es : List (Event Q Ans ε W C)} (hrun : NotedRun body P p₀ p)
    (hes : ∀ e ∈ es, ∀ p, NotedRun body P p₀ p → check p e → P p e) (h : runNoted body check p es = some p') :
    NotedRun body P p₀ p' := by
  induction es generalizing p with
  | nil =>
    cases h
    exact hrun
  | cons e es ih =>
    obtain ⟨he, hes⟩ := List.forall_mem_cons.mp hes
    simp only [runNoted, List.foldlM_cons] at h
    obtain ⟨p₁, hp₁, h⟩ := Option.bind_eq_some_iff.mp h
    split at hp₁
    · rename_i hcheck
      obtain ⟨s₁, hs₁, rfl⟩ := Option.map_eq_some_iff.mp hp₁
      exact ih (hrun.tail ⟨e, he _ hrun hcheck, hs₁, rfl⟩) hes h
    · cases hp₁

end Runs
end NexusCone.NotedRuns
