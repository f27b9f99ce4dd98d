import NexusCone.GrowingVersions

/-!
# Statements committed at once

A program commits a marked statement right after its database has accepted it, and returns no
result where either of the two fails. So what a call that has returned was about to execute is
committed, whatever the other tasks and instances have done since.
-/
namespace NexusCone.PromptCommits
open SharedFile AsyncProgram AsyncSystem Connections RelyGuarantee GrowingVersions

section Programs

variable {D S Q ε α β : Type} {Ans : Q → Type} {marked : S → Prop}

/-- The program ends in an exception, whatever the answers. -/
def Fails : Prog D S Q Ans ε α → Prop
  | .done (.ok _) => False
  | .done (.error _) => True
  | .perform _ k => ∀ r, Fails (k r)

/-- What follows an execution: a commit, and an exception where either of the two fails. -/
def CommitsNext (k : Except ε ℤ → Prog D S Q Ans ε α) (c : ConnId) : Prop :=
  (∀ e, Fails (k (.error e))) ∧ ∀ n, ∃ k', k (.ok n) = .perform (.commit c) k' ∧ ∀ e, Fails (k' (.error e))

def Prompt (marked : S → Prop) : Prog D S Q Ans ε α → Prop
  | .done _ => True
  | .perform (.execute c s) k => (marked s → CommitsNext k c) ∧ ∀ r, Prompt marked (k r)
  | .perform .connection k => ∀ r, Prompt marked (k r)
  | .perform .acquire k => ∀ r, Prompt marked (k r)
  | .perform .release k => ∀ r, Prompt marked (k r)
  | .perform (.select _) k => ∀ r, Prompt marked (k r)
  | .perform (.commit _) k => ∀ r, Prompt marked (k r)
  | .perform (.external _) k => ∀ r, Prompt marked (k r)

theorem Prompt.next {op : Op S Q} {k : Except ε (op.Res D Ans) → Prog D S Q Ans ε α}
    (h : Prompt marked (.perform op k)) (r : Except ε (op.Res D Ans)) : Prompt marked (k r) := by
  cases op with
  | execute => exact h.2 r
  | _ => exact h r

theorem Fails.bind {p : Prog D S Q Ans ε α} {f : α → Prog D S Q Ans ε β} (hp : Fails p) : Fails (p >>= f) := by
  induction p with
  | done r =>
    cases r with
    | ok a => exact hp.elim
    | error e => exact trivial
  | perform op k ih => exact fun r => ih r (hp r)

theorem CommitsNext.bind {k : Except ε ℤ → Prog D S Q Ans ε α} {c : ConnId} {f : α → Prog D S Q Ans ε β}
    (h : CommitsNext k c) : CommitsNext (fun r => k r >>= f) c := by
  refine ⟨fun e => (h.1 e).bind, fun n => ?_⟩
  obtain ⟨k', hk, he⟩ := h.2 n
  exact ⟨fun r => k' r >>= f, by simp only [hk, Prog.perform_bind], fun e => (he e).bind⟩

theorem Prompt.bind {p : Prog D S Q Ans ε α} {f : α → Prog D S Q Ans ε β} (hp : Prompt marked p)
    (hf : ∀ a, Prompt marked (f a)) : Prompt marked (p >>= f) := by
  induction p with
  | done r =>
    cases r with
    | ok a => exact hf a
    | error e => exact trivial
  | perform op k ih =>
    cases op with
    | execute c s => exact ⟨fun hs => (hp.1 hs).bind, fun r => ih r (hp.2 r)⟩
    | _ => exact fun r => ih r (hp r)

/-- A program that executes no marked statement is prompt. -/
theorem prompt_of_uses {p : Prog D S Q Ans ε α} (hp : p.Uses (Op.executes fun s => ¬ marked s)) :
    Prompt marked p := by
  induction p with
  | done r => exact trivial
  | perform op k ih =>
    cases op with
    | execute c s => exact ⟨fun hs => absurd hs hp.1, fun r => ih r (hp.2 r)⟩
    | _ => exact fun r => ih r (hp.2 r)

theorem prompt_of_reads {p : Prog D S Q Ans ε α} (hp : p.Uses Op.isRead) : Prompt marked p :=
  prompt_of_uses (hp.mono fun op h => by cases op <;> trivial)

/-- Executing and committing at once. -/
theorem prompt_write {c : ConnId} {s : S} {f : ℤ → Prog D S Q Ans ε α} (hf : ∀ n, Prompt marked (f n)) :
    Prompt marked (Prog.execute c s >>= fun n => Prog.commit c >>= fun _ => f n) := by
  refine ⟨fun _ => ⟨fun _ => trivial, fun n => ⟨_, rfl, fun _ => trivial⟩⟩, fun r => ?_⟩
  cases r with
  | error e => exact trivial
  | ok n =>
    intro r
    cases r with
    | error e => exact trivial
    | ok u => exact hf n

/-- The lock is given back between an exception and its end; that does not turn it into a
result. -/
theorem Prompt.withLock {p : Prog D S Q Ans ε α} (hp : Prompt marked p) : Prompt marked (Prog.withLock p) := by
  let unlock (r : Except ε α) : Prog D S Q Ans ε α := Prog.release >>= fun _ => .done r
  have hfails {q : Prog D S Q Ans ε α} (hq : Fails q) : Fails (q.attempt >>= unlock) := by
    induction q with
    | done r =>
      cases r with
      | ok a => exact hq.elim
      | error e =>
        intro r
        cases r <;> exact trivial
    | perform op k ih => exact fun r => ih r (hq r)
  have hbody : Prompt marked (p.attempt >>= unlock) := by
    induction p with
    | done r =>
      intro r'
      cases r' <;> exact trivial
    | perform op k ih =>
      cases op with
      | execute c s =>
        refine ⟨fun hs => ⟨fun e => hfails ((hp.1 hs).1 e), fun n => ?_⟩, fun r => ih r (hp.2 r)⟩
        obtain ⟨k', hk, he⟩ := (hp.1 hs).2 n
        refine ⟨fun r => (k' r).attempt >>= unlock, ?_, fun e => hfails (he e)⟩
        simp only [hk, Prog.attempt]
        rfl
      | _ => exact fun r => ih r (hp r)
  intro r
  cases r with
  | ok u => exact hbody
  | error e => exact trivial

end Programs

section Runs

variable {D S W Q ε C R : Type} {Ans : Q → Type} [SqlStatement S D] [Raises ε]
variable {body : C → Prog D S Q Ans ε R} {rules : Rules D S W Q Ans ε C} {marked : S → Prop}
variable {s₀ s s' : Sys D S W Q Ans ε C R} {t : TaskId} {st : S}

/-- Versions whose journal is only ever continued. -/
def journalGrowth (D S : Type) : Growth D S where
  good _ := True
  le u v := u.journal <+: v.journal
  refl _ := List.prefix_rfl
  trans h h' := h.trans h'

/-- The programs of all tasks have the property that their calls' programs have. -/
theorem programs_of_run {P : C → Prog D S Q Ans ε R → Prop} (hbody : ∀ i c, rules.calls i c → P c (body c))
    (hnext : ∀ c op k r, P c (.perform op k) → P c (k r)) (h₀ : ∀ u ∈ s₀.tasks, P u.call u.prog)
    (h : Run body rules s₀ s) : ∀ u ∈ s.tasks, P u.call u.prog := by
  induction h with
  | refl => exact h₀
  | tail _ hstep ih =>
    obtain ⟨e, ha, he⟩ := hstep
    cases e with
    | call i c =>
      cases he
      intro u hu
      rcases List.mem_append.mp hu with hu | hu
      · exact ih u hu
      · rw [List.mem_singleton.mp hu]
        exact hbody i c ha
    | run t o =>
      obtain ⟨i, c, op, k, r, σ, ht, -, rfl⟩ := runTask_some he
      intro u hu
      rcases List.mem_or_eq_of_mem_set hu with hu | rfl
      · exact ih u hu
      · exact hnext c op k r (ih _ (List.mem_of_getElem? ht))
    | connect i =>
      obtain ⟨σ, -, rfl⟩ := Option.map_eq_some_iff.mp he
      exact ih
    | close i =>
      obtain ⟨σ, -, rfl⟩ := Option.map_eq_some_iff.mp he
      exact ih
    | detach i =>
      obtain ⟨σ, -, rfl⟩ := Option.map_eq_some_iff.mp he
      exact ih

/-- No task is ever forgotten. -/
theorem length_le_of_run (h : Run body rules s s') : s.tasks.length ≤ s'.tasks.length := by
  induction h with
  | refl => exact le_rfl
  | tail _ hstep ih =>
    obtain ⟨e, -, he⟩ := hstep
    refine le_trans ih ?_
    cases e with
    | call i c =>
      cases he
      rw [List.length_append]
      exact Nat.le_add_right _ _
    | run t o =>
      obtain ⟨i, c, op, k, r, σ, -, -, rfl⟩ := runTask_some he
      rw [List.length_set]
    | connect i =>
      obtain ⟨σ, -, rfl⟩ := Option.map_eq_some_iff.mp he
      exact le_rfl
    | close i =>
      obtain ⟨σ, -, rfl⟩ := Option.map_eq_some_iff.mp he
      exact le_rfl
    | detach i =>
      obtain ⟨σ, -, rfl⟩ := Option.map_eq_some_iff.mp he
      exact le_rfl

/-- A run with the states it passes through. -/
inductive History (body : C → Prog D S Q Ans ε R) (rules : Rules D S W Q Ans ε C) (s₀ : Sys D S W Q Ans ε C R) :
    List (Sys D S W Q Ans ε C R) → Sys D S W Q Ans ε C R → Prop where
  | start : History body rules s₀ [s₀] s₀
  | step {h s s'} : History body rules s₀ h s → Step body rules s s' → History body rules s₀ (h ++ [s']) s'

theorem History.run {h : List (Sys D S W Q Ans ε C R)} (hrun : History body rules s₀ h s) :
    Run body rules s₀ s := by
  induction hrun with
  | start => exact .refl
  | step _ hstep ih => exact ih.tail hstep

theorem History.run_of_mem {h : List (Sys D S W Q Ans ε C R)} (hrun : History body rules s₀ h s)
    {s₁ : Sys D S W Q Ans ε C R} (hmem : s₁ ∈ h) : Run body rules s₀ s₁ ∧ Run body rules s₁ s := by
  induction hrun with
  | start =>
    obtain rfl := List.mem_singleton.mp hmem
    exact ⟨.refl, .refl⟩
  | step hrun hstep ih =>
    rcases List.mem_append.mp hmem with hmem | hmem
    · exact ⟨(ih hmem).1, (ih hmem).2.tail hstep⟩
    · obtain rfl := List.mem_singleton.mp hmem
      exact ⟨hrun.run.tail hstep, .refl⟩

/-- Every run has a history that continues a given one. -/
theorem History.extend {h : List (Sys D S W Q Ans ε C R)} (hrun : History body rules s₀ h s)
    (hrun' : Run body rules s s') : ∃ h', History body rules s₀ h' s' ∧ h ⊆ h' ∧ s' ∈ h' := by
  induction hrun' with
  | refl =>
    refine ⟨h, hrun, fun _ hx => hx, ?_⟩
    cases hrun <;> simp
  | tail _ hstep ih =>
    obtain ⟨h', hh', hsub, -⟩ := ih
    exact ⟨_, hh'.step hstep, fun _ hx => List.mem_append_left _ (hsub hx), by simp⟩

/-- In the history the task has come to where it executes the statement. -/
def Issues (h : List (Sys D S W Q Ans ε C R)) (t : TaskId) (st : S) : Prop :=
  ∃ s₁ ∈ h, ∃ i call c k, s₁.tasks[t]? = some ⟨i, call, .perform (.execute c st) k⟩

/-- Where a task stands that has come to execute the statement: still there, before its commit,
at its failure, or past its commit. -/
inductive Stage (t : TaskId) (st : S) (σ : Shared D S W) : Prog D S Q Ans ε R → Prop where
  | executes {c k} : CommitsNext k c → Stage t st σ (.perform (.execute c st) k)
  | commits {c k} (n : ℤ) : c < σ.nextConn → (c ∈ σ.file.opened → (t, st, n) ∈ (σ.file.view c).journal) →
      (∀ e, Fails (k (.error e))) → Stage t st σ (.perform (.commit c) k)
  | fails {p} : Fails p → Stage t st σ p
  | committed {p} (n : ℤ) : (t, st, n) ∈ σ.file.committed.journal → Stage t st σ p

omit [SqlStatement S D] [Raises ε] in
theorem Stage.grows {σ σ' : Shared D S W} {p : Prog D S Q Ans ε R} (h : Stage t st σ p)
    (hg : (journalGrowth D S).Grows σ σ') : Stage t st σ' p := by
  cases h with
  | executes hk => exact .executes hk
  | commits n hc hview hk =>
    refine .commits n (lt_of_lt_of_le hc hg.rewired.nextConn) (fun ho => ?_) hk
    exact (hg.view _ hc ho).subset (hview (hg.rewired.opened _ hc ho))
  | fails hp => exact .fails hp
  | committed n hmem => exact .committed n (hg.committed.subset hmem)

/-- The task's own step takes it to its next stage. -/
theorem Stage.step {σ σ' : Shared D S W} {i : InstId} {op : Op S Q} {o : Outcome Q Ans ε W}
    {k : Except ε (op.Res D Ans) → Prog D S Q Ans ε R} {r : Except ε (op.Res D Ans)} (hw : Wired σ)
    (h : Stage t st σ (.perform op k)) (hg : (journalGrowth D S).Grows σ σ')
    (hx : effect i t σ op o = some (r, σ')) : Stage t st σ' (k r) := by
  cases h with
  | executes hk =>
    rcases effect_execute hx with ⟨d, n, hmay, -, hr, rfl⟩ | ⟨e, f, l, rfl, -⟩
    · rcases hr with rfl | rfl
      · obtain ⟨k', hnext, hfails⟩ := hk.2 n
        rw [hnext]
        refine .commits n (hw.opened _ hmay.1) (fun _ => ?_) hfails
        rw [File.view_write_self]
        simp
      · exact .fails (hk.1 _)
    · exact .fails (hk.1 e)
  | commits n hc hview hk =>
    rcases effect_commit hx with ⟨v, ho, hp, -, rfl⟩ | ⟨ho, hp, -, rfl⟩ | ⟨e, l, rfl, -⟩
    · refine .committed n ?_
      have hmem := hview ho
      rwa [File.view_pending_self hp] at hmem
    · refine .committed n ?_
      have hmem := hview ho
      rwa [File.view_of_ne hp] at hmem
    · exact .fails (hk e)
  | fails hp => exact .fails (hp r)
  | committed n hmem => exact .committed n (hg.committed.subset hmem)

theorem keeps_journal {env : InstId → TaskId → Op S Q → Outcome Q Ans ε W → Shared D S W → Prop} {i : InstId}
    {σ : Shared D S W} (p : Prog D S Q Ans ε R) : (journalGrowth D S).Keeps env i t p (fun _ _ => True) σ := by
  have hp : p.Uses (Op.executes fun _ => True) := by
    induction p with
    | done r => exact trivial
    | perform op k ih => exact ⟨by cases op <;> trivial, ih⟩
  exact (Growth.Keeps.of_uses hp (Growth.Grows.refl σ) fun s v d n _ _ _ => ⟨trivial, List.prefix_append _ _⟩).mono
    fun _ _ _ _ => trivial

theorem verified_journal (body : C → Prog D S Q Ans ε R) (rules : Rules D S W Q Ans ε C) :
    Verified ((journalGrowth D S).protocol W) rules body (fun _ _ _ _ _ => True) (fun _ _ _ _ => True) :=
  Growth.verified fun _ _ _ _ _ _ _ => keeps_journal _

abbrev JournalGood (rules : Rules D S W Q Ans ε C) (s : Sys D S W Q Ans ε C R) : Prop :=
  Good ((journalGrowth D S).protocol W) rules (fun _ _ (_ : C) (_ : R) _ => True) (fun _ _ _ _ => True) s

theorem stage_step (hs : JournalGood rules s) (hstep : Step body rules s s')
    (h : ∃ u, s.tasks[t]? = some u ∧ Stage t st s.shared u.prog) :
    ∃ u, s'.tasks[t]? = some u ∧ Stage t st s'.shared u.prog := by
  have hg : (journalGrowth D S).Grows s.shared s'.shared := ((verified_journal body rules).step hs hstep).2
  obtain ⟨u, hu, hstage⟩ := h
  obtain ⟨e, -, he⟩ := hstep
  cases e with
  | call i c =>
    cases he
    refine ⟨u, ?_, hstage⟩
    rw [List.getElem?_append_left (List.getElem?_eq_some_iff.mp hu).1, hu]
  | run t' o =>
    obtain ⟨i, c, op, k, r, σ, ht, hx, rfl⟩ := runTask_some he
    by_cases htt : t' = t
    · subst htt
      rw [hu] at ht
      cases ht
      refine ⟨_, List.getElem?_set_self (List.getElem?_eq_some_iff.mp hu).1, ?_⟩
      exact hstage.step hs.inv.wired hg hx
    · exact ⟨u, by rw [List.getElem?_set_ne htt, hu], hstage.grows hg⟩
  | connect i =>
    obtain ⟨σ, -, rfl⟩ := Option.map_eq_some_iff.mp he
    exact ⟨u, hu, hstage.grows hg⟩
  | close i =>
    obtain ⟨σ, -, rfl⟩ := Option.map_eq_some_iff.mp he
    exact ⟨u, hu, hstage.grows hg⟩
  | detach i =>
    obtain ⟨σ, -, rfl⟩ := Option.map_eq_some_iff.mp he
    exact ⟨u, hu, hstage.grows hg⟩

theorem stage_of_run (hs : JournalGood rules s) (hrun : Run body rules s s')
    (h : ∃ u, s.tasks[t]? = some u ∧ Stage t st s.shared u.prog) :
    ∃ u, s'.tasks[t]? = some u ∧ Stage t st s'.shared u.prog := by
  induction hrun with
  | refl => exact h
  | tail hrun hstep ih => exact stage_step ((verified_journal body rules).run hs hrun).1 hstep ih

/-- What a task that has returned was about to execute is committed. -/
theorem committed_of_issues (hbody : ∀ i c, rules.calls i c → Prompt marked (body c)) (hs₀ : JournalGood rules s₀)
    (htasks : s₀.tasks = []) {h : List (Sys D S W Q Ans ε C R)} (hrun : History body rules s₀ h s) (hst : marked st)
    (hissues : Issues h t st) {i : InstId} {call : C} {r : R}
    (hdone : s.tasks[t]? = some ⟨i, call, .done (.ok r)⟩) :
    ∃ n, (t, st, n) ∈ s.shared.file.committed.journal := by
  obtain ⟨s₁, hmem, j, call', c, k, ht⟩ := hissues
  obtain ⟨hrun₁, hrun₂⟩ := hrun.run_of_mem hmem
  have hprompt : Prompt marked (Prog.perform (.execute c st) k : Prog D S Q Ans ε R) :=
    programs_of_run (P := fun _ => Prompt marked) hbody (fun _ _ _ r hp => hp.next r) (by simp [htasks]) hrun₁ _
      (List.mem_of_getElem? ht)
  have hs₁ := ((verified_journal body rules).run hs₀ hrun₁).1
  obtain ⟨u, hu, hstage⟩ := stage_of_run hs₁ hrun₂ ⟨_, ht, .executes (hprompt.1 hst)⟩
  rw [hdone] at hu
  cases hu
  cases hstage with
  | fails hp => exact hp.elim
  | committed n hmem => exact ⟨n, hmem⟩

end Runs
end NexusCone.PromptCommits
