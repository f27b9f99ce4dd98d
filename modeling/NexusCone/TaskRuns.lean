import NexusCone.AsyncSystem

/-!
# One task along a run

A run up to the step that ends a task, with the contents that the task has read on the way. Such a
run splits at the next operation of the task: the other tasks come first and leave its program
alone.
-/
namespace NexusCone.TaskRuns
open SharedFile AsyncProgram AsyncSystem

section Failures

variable {D S W Q ε : Type} {Ans : Q → Type} [SqlStatement S D] [Raises ε]

/-- An exception of the database connection or a cancellation. -/
def OfConnection (e : ε) : Prop := e = Raises.cancelled ∨ e = Raises.notOpen ∨ ∃ x, e = Raises.sql x

variable {i : InstId} {t : TaskId} {σ σ' : Shared D S W} {o : Outcome Q Ans ε W}

theorem effect_connection_error {e : ε} (h : effect (S := S) i t σ .connection o = some (.error e, σ')) :
    OfConnection e := by
  obtain ⟨-, ⟨c, -, hr⟩ | ⟨-, hr⟩⟩ := effect_connection h <;> cases hr
  exact .inr (.inl rfl)

theorem effect_select_error {c : ConnId} {e : ε} (h : effect (S := S) i t σ (.select c) o = some (.error e, σ')) :
    OfConnection e := by
  cases o with
  | ok =>
    simp only [effect] at h
    split at h <;> cases h
    exact .inr (.inr ⟨_, rfl⟩)
  | fail m locks =>
    cases h
    exact .inr (.inr ⟨_, rfl⟩)
  | cancel performed =>
    cases h
    exact .inl rfl
  | answer f w => cases h

end Failures

section Runs

variable {D S W Q ε C R : Type} {Ans : Q → Type} [SqlStatement S D] [Raises ε]

/-- The contents that an operation with this result has read. -/
def contentsRead : (op : Op S Q) → Except ε (op.Res D Ans) → List D
  | .select _, .ok d => [d]
  | _, _ => []

/-- The contents that the task reads in the event. -/
def readIn (t : TaskId) (s : Sys D S W Q Ans ε C R) : Event Q Ans ε W C → List D
  | .run u o =>
    if u = t then
      match s.tasks[t]? with
      | some ⟨i, _, .perform op _⟩ =>
        match effect i t s.shared op o with
        | some (r, _) => contentsRead op r
        | none => []
      | _ => []
    else []
  | _ => []

/-- From `s` on the task reads these contents, and `s'` is where it ends, with `r`. -/
inductive Ends (body : C → Prog D S Q Ans ε R) (rules : Rules D S W Q Ans ε C) (t : TaskId) :
    Sys D S W Q Ans ε C R → List D → Sys D S W Q Ans ε C R → Except ε R → Prop
  | done {s i c r} (ht : s.tasks[t]? = some ⟨i, c, .done r⟩) : Ends body rules t s [] s r
  | next {s i c op k e s₁ reads s' r} (ht : s.tasks[t]? = some ⟨i, c, .perform op k⟩) (ha : rules.Allows s e)
      (hs : step body s e = some s₁) (h : Ends body rules t s₁ reads s' r) :
      Ends body rules t s (readIn t s e ++ reads) s' r

/-- The contents are what the connection has seen, one after the other, along a run. -/
inductive Sees (body : C → Prog D S Q Ans ε R) (rules : Rules D S W Q Ans ε C) (d : ConnId) :
    Sys D S W Q Ans ε C R → List D → Sys D S W Q Ans ε C R → Prop
  | nothing {s s'} (h : Run body rules s s') : Sees body rules d s [] s'
  | read {s s₁ reads s'} (h : Run body rules s s₁) (ho : d ∈ s₁.shared.file.opened)
      (hrest : Sees body rules d s₁ reads s') :
      Sees body rules d s ((s₁.shared.file.view d).data :: reads) s'

variable {body : C → Prog D S Q Ans ε R} {rules : Rules D S W Q Ans ε C} {t : TaskId} {i : InstId} {c : C}
variable {s s' : Sys D S W Q Ans ε C R} {reads : List D} {r : Except ε R}

/-- The other events leave the task's program alone and read nothing for it. -/
theorem step_other {e : Event Q Ans ε W C} {task : Task D S Q Ans ε C R} (he : ∀ o, e ≠ .run t o)
    (hs : step body s e = some s') (ht : s.tasks[t]? = some task) :
    s'.tasks[t]? = some task ∧ readIn t s e = [] := by
  have hlt : t < s.tasks.length := (List.getElem?_eq_some_iff.mp ht).1
  cases e with
  | call i c =>
    cases hs
    exact ⟨(List.getElem?_append_left hlt).trans ht, rfl⟩
  | run u o =>
    have hut : u ≠ t := fun h => he o (h ▸ rfl)
    simp only [step, runTask] at hs
    split at hs
    · split at hs <;> cases hs
      exact ⟨(List.getElem?_set_ne hut).trans ht, if_neg hut⟩
    · cases hs
  | connect i | close i | detach i =>
    obtain ⟨σ, -, rfl⟩ := Option.map_eq_some_iff.mp hs
    exact ⟨ht, rfl⟩

/-- The task's own step performs its operation. -/
theorem step_own {o : Outcome Q Ans ε W} {op : Op S Q} {k : Except ε (op.Res D Ans) → Prog D S Q Ans ε R}
    (ht : s.tasks[t]? = some ⟨i, c, .perform op k⟩) (hs : step body s (.run t o) = some s') :
    ∃ x, effect i t s.shared op o = some (x, s'.shared) ∧ s'.tasks[t]? = some ⟨i, c, k x⟩ ∧
      readIn t s (.run t o) = contentsRead op x := by
  have hlt : t < s.tasks.length := (List.getElem?_eq_some_iff.mp ht).1
  simp only [step, runTask, ht] at hs
  cases hx : effect i t s.shared op o with
  | none =>
    rw [hx] at hs
    cases hs
  | some p =>
    obtain ⟨x, σ⟩ := p
    rw [hx] at hs
    cases hs
    refine ⟨x, rfl, List.getElem?_set_self hlt, ?_⟩
    simp only [readIn, if_true, ht, hx]

theorem Ends.run (h : Ends body rules t s reads s' r) : Run body rules s s' := by
  induction h with
  | done _ => exact .refl
  | next _ ha hs _ ih => exact .head ⟨_, ha, hs⟩ ih

theorem Ends.result (h : Ends body rules t s reads s' r) : ∃ i c, s'.tasks[t]? = some ⟨i, c, .done r⟩ := by
  induction h with
  | done ht => exact ⟨_, _, ht⟩
  | next _ _ _ _ ih => exact ih

/-- It ends as the call that it was. -/
theorem Ends.result_eq {p : Prog D S Q Ans ε R} (h : Ends body rules t s reads s' r) (ht : s.tasks[t]? = some ⟨i, c, p⟩) :
    s'.tasks[t]? = some ⟨i, c, .done r⟩ := by
  induction h generalizing p with
  | done ht' =>
    cases ht.symm.trans ht'
    exact ht'
  | @next s _ _ _ _ e _ _ _ _ ht' _ hs _ ih =>
    cases ht.symm.trans ht'
    by_cases he : ∃ o, e = .run t o
    · obtain ⟨o, rfl⟩ := he
      obtain ⟨x, -, hnext, -⟩ := step_own ht hs
      exact ih hnext
    · exact ih (step_other (not_exists.mp he) hs ht).1

theorem Ends.of_done {r' : Except ε R} (h : Ends body rules t s reads s' r)
    (ht : s.tasks[t]? = some ⟨i, c, .done r'⟩) : r' = r ∧ s' = s ∧ reads = [] := by
  cases h with
  | done ht' =>
    rw [ht] at ht'
    cases ht'
    exact ⟨rfl, rfl, rfl⟩
  | next ht' _ _ _ =>
    rw [ht] at ht'
    cases ht'

/-- The run splits at the task's next operation. -/
theorem Ends.of_perform {op : Op S Q} {k : Except ε (op.Res D Ans) → Prog D S Q Ans ε R}
    (h : Ends body rules t s reads s' r) (ht : s.tasks[t]? = some ⟨i, c, .perform op k⟩) :
    ∃ s₁ o x s₂ rest, Run body rules s s₁ ∧ rules.env i t op o s₁.shared ∧
      effect i t s₁.shared op o = some (x, s₂.shared) ∧ Run body rules s₁ s₂ ∧
      s₂.tasks[t]? = some ⟨i, c, k x⟩ ∧ reads = contentsRead op x ++ rest ∧ Ends body rules t s₂ rest s' r := by
  induction h with
  | done ht' =>
    rw [ht] at ht'
    cases ht'
  | @next s _ _ _ _ e s₁ reads s' r _ ha hs hends ih =>
    by_cases he : ∃ o, e = .run t o
    · obtain ⟨o, rfl⟩ := he
      obtain ⟨x, hx, ht', hreads⟩ := step_own ht hs
      exact ⟨s, o, x, s₁, reads, .refl, ha i c op k ht, hx, .single ⟨_, ha, hs⟩, ht', by rw [hreads], hends⟩
    · obtain ⟨ht', hnone⟩ := step_other (not_exists.mp he) hs ht
      obtain ⟨u, o, x, u', rest, hrun, hrest⟩ := ih ht'
      rw [hnone, List.nil_append]
      exact ⟨u, o, x, u', rest, .head ⟨e, ha, hs⟩ hrun, hrest⟩

theorem Sees.run {d : ConnId} (h : Sees body rules d s reads s') : Run body rules s s' := by
  induction h with
  | nothing h => exact h
  | read h _ _ ih => exact h.trans ih

theorem Sees.after {d : ConnId} {s₁ : Sys D S W Q Ans ε C R} (hrun : Run body rules s s₁)
    (h : Sees body rules d s₁ reads s') : Sees body rules d s reads s' := by
  cases h with
  | nothing h => exact .nothing (hrun.trans h)
  | read h ho hrest => exact .read (hrun.trans h) ho hrest

theorem Sees.mem {d : ConnId} {v : D} (h : Sees body rules d s reads s') (hv : v ∈ reads) :
    ∃ s₁, Run body rules s s₁ ∧ d ∈ s₁.shared.file.opened ∧ v = (s₁.shared.file.view d).data ∧
      Run body rules s₁ s' := by
  induction h with
  | nothing h => cases hv
  | read h ho hrest ih =>
    rcases List.mem_cons.mp hv with rfl | hv
    · exact ⟨_, h, ho, rfl, hrest.run⟩
    · obtain ⟨s₁, hrun, hmem⟩ := ih hv
      exact ⟨s₁, h.trans hrun, hmem⟩

/-- What holds between two moments of the run holds between successive reads. -/
theorem Sees.isChain {d : ConnId} {P : D → D → Prop} (h : Sees body rules d s reads s')
    (hP : ∀ s₁ s₂, Run body rules s s₁ → Run body rules s₁ s₂ → d ∈ s₂.shared.file.opened →
      P (s₁.shared.file.view d).data (s₂.shared.file.view d).data) :
    List.IsChain P ((s.shared.file.view d).data :: reads) := by
  induction h with
  | nothing h => exact .singleton _
  | read h ho hrest ih =>
    refine List.isChain_cons_cons.mpr ⟨hP _ _ .refl h ho, ih fun s₂ s₃ hrun => ?_⟩
    exact hP s₂ s₃ (h.trans hrun)

/-- A task at a read ends with what the connection has failed it with, or reads and goes on. -/
theorem Ends.of_select {d : ConnId} {k : Except ε D → Prog D S Q Ans ε R}
    (h : Ends body rules t s reads s' r) (ht : s.tasks[t]? = some ⟨i, c, .perform (.select d) k⟩) :
    ∃ s₁ x s₂ rest, Run body rules s s₁ ∧ s₂.shared = s₁.shared ∧ Run body rules s₁ s₂ ∧
      s₂.tasks[t]? = some ⟨i, c, k x⟩ ∧ Ends body rules t s₂ rest s' r ∧
      ((∃ e, x = .error e ∧ OfConnection e ∧ reads = rest) ∨
        d ∈ s₁.shared.file.opened ∧ x = .ok (s₁.shared.file.view d).data ∧
          reads = (s₁.shared.file.view d).data :: rest) := by
  obtain ⟨s₁, o, x, s₂, rest, hrun, -, hx, hstep, ht', rfl, hends⟩ := h.of_perform ht
  obtain ⟨hsame, hread⟩ := effect_select hx
  refine ⟨s₁, x, s₂, rest, hrun, hsame, hstep, ht', hends, ?_⟩
  cases x with
  | error e => exact .inl ⟨e, rfl, effect_select_error hx, rfl⟩
  | ok u =>
    rcases hread with ⟨ho, heq⟩ | ⟨e, heq⟩ <;> cases heq
    exact .inr ⟨ho, rfl, rfl⟩

/-- A task that has ended did so somewhere along the run. -/
theorem exists_ends {p : Prog D S Q Ans ε R} (hrun : Run body rules s s') (ht : s.tasks[t]? = some ⟨i, c, p⟩)
    (hdone : s'.tasks[t]? = some ⟨i, c, .done r⟩) :
    ∃ reads s₁, Ends body rules t s reads s₁ r ∧ Run body rules s₁ s' := by
  induction hrun using Relation.ReflTransGen.head_induction_on generalizing p with
  | refl => exact ⟨[], s', .done hdone, .refl⟩
  | @head s s₁ hstep hrun ih =>
    obtain ⟨e, ha, hs⟩ := hstep
    have hnext {p' : Prog D S Q Ans ε R} (h : s₁.tasks[t]? = some ⟨i, c, p'⟩) {op : Op S Q}
        {k : Except ε (op.Res D Ans) → Prog D S Q Ans ε R} (ht : s.tasks[t]? = some ⟨i, c, .perform op k⟩) :
        ∃ reads u, Ends body rules t s reads u r ∧ Run body rules u s' := by
      obtain ⟨reads, u, hends, hrest⟩ := ih h
      exact ⟨_, u, .next ht ha hs hends, hrest⟩
    by_cases he : ∃ o, e = .run t o
    · obtain ⟨o, rfl⟩ := he
      cases p with
      | done r' => simp [step, runTask, ht] at hs
      | perform op k =>
        obtain ⟨x, -, ht', -⟩ := step_own ht hs
        exact hnext ht' ht
    · have ht' := (step_other (not_exists.mp he) hs ht).1
      cases p with
      | perform op k => exact hnext ht' ht
      | done r' =>
        obtain ⟨reads, u, hends, -⟩ := ih ht'
        obtain ⟨rfl, -, -⟩ := hends.of_done ht'
        exact ⟨[], s, .done ht, .head ⟨e, ha, hs⟩ hrun⟩

/-- The run of the events up to the task's end, with what it reads. -/
def runReading (body : C → Prog D S Q Ans ε R) (t : TaskId) :
    List (Event Q Ans ε W C) → Sys D S W Q Ans ε C R → Option (List D × Sys D S W Q Ans ε C R)
  | [], s => if (s.tasks[t]?).any (fun task => task.prog matches .done _) then some ([], s) else none
  | e :: es, s =>
    if (s.tasks[t]?).any (fun task => task.prog matches .perform _ _) then
      match step body s e with
      | some s₁ => (runReading body t es s₁).map fun p => (readIn t s e ++ p.1, p.2)
      | none => none
    else none

theorem ends_of_runReading {es : List (Event Q Ans ε W C)}
    (hes : ∀ e ∈ es, ∀ s : Sys D S W Q Ans ε C R, rules.Allows s e) (h : runReading body t es s = some (reads, s')) :
    ∃ r, Ends body rules t s reads s' r := by
  induction es generalizing s reads with
  | nil =>
    simp only [runReading] at h
    split at h
    · rename_i hdone
      cases h
      obtain ⟨⟨i, c, p⟩, ht, hp⟩ := (Option.any_eq_true _ _).mp hdone
      cases p with
      | done r => exact ⟨r, .done ht⟩
      | perform op k => cases hp
    · cases h
  | cons e es ih =>
    obtain ⟨he, hes⟩ := List.forall_mem_cons.mp hes
    simp only [runReading] at h
    split at h
    · rename_i hperform
      obtain ⟨⟨i, c, p⟩, ht, hp⟩ := (Option.any_eq_true _ _).mp hperform
      cases p with
      | done r => cases hp
      | perform op k =>
        split at h
        · rename_i s₁ hs
          obtain ⟨q, hq, heq⟩ := Option.map_eq_some_iff.mp h
          cases heq
          obtain ⟨r, hends⟩ := ih hes hq
          exact ⟨r, .next ht (he s) hs hends⟩
        · cases h
    · cases h

end Runs

section Results

variable {D S W Q ε C R α β : Type} {Ans : Q → Type}

/-- What the program returns, if it returns, has the property. -/
def Returns (P : α → Prop) : Prog D S Q Ans ε α → Prop
  | .done (.ok a) => P a
  | .done (.error _) => True
  | .perform _ k => ∀ r, Returns P (k r)

variable {P : α → Prop} {P' : β → Prop} {p : Prog D S Q Ans ε α} {f : α → Prog D S Q Ans ε β}

theorem Returns.bind (h : Returns P p) (hf : ∀ a, P a → Returns P' (f a)) : Returns P' (p >>= f) := by
  induction p with
  | done r =>
    cases r with
    | ok a => exact hf a h
    | error e => trivial
  | perform op k ih => exact fun r => ih r (h r)

theorem returns_true (p : Prog D S Q Ans ε α) : Returns (fun _ => True) p := by
  induction p with
  | done r => cases r <;> trivial
  | perform op k ih => exact ih

/-- The last part decides. -/
theorem returns_bind (p : Prog D S Q Ans ε α) (hf : ∀ a, Returns P' (f a)) : Returns P' (p >>= f) :=
  (returns_true p).bind fun a _ => hf a

theorem Returns.attempt (h : Returns P p) : Returns (fun r : Except ε α => ∀ a, r = .ok a → P a) p.attempt := by
  induction p with
  | done r =>
    rintro a rfl
    exact h
  | perform op k ih => exact fun r => ih r (h r)

theorem Returns.withLock (h : Returns P p) : Returns P (Prog.withLock p) := by
  refine returns_bind Prog.acquire fun _ => h.attempt.bind fun r hr => returns_bind Prog.release fun _ => ?_
  cases r with
  | ok a => exact hr a rfl
  | error e => trivial

variable [SqlStatement S D] [Raises ε]
variable {body : C → Prog D S Q Ans ε R} {rules : Rules D S W Q Ans ε C} {s s' : Sys D S W Q Ans ε C R}

/-- Along every run the tasks return what the bodies of their calls return. -/
theorem returns_of_run {P : C → R → Prop} (hbody : ∀ c, Returns (P c) (body c)) (h : Run body rules s s')
    (hs : ∀ task ∈ s.tasks, Returns (P task.call) task.prog) :
    ∀ task ∈ s'.tasks, Returns (P task.call) task.prog := by
  induction h with
  | refl => exact hs
  | @tail s₁ s₂ _ hstep ih =>
    obtain ⟨e, -, he⟩ := hstep
    cases e with
    | call i c =>
      cases he
      intro task htask
      rcases List.mem_append.mp htask with htask | htask
      · exact ih task htask
      · rw [List.mem_singleton.mp htask]
        exact hbody c
    | run t o =>
      simp only [step, runTask] at he
      split at he
      · rename_i i c op k ht
        split at he <;> cases he
        intro task htask
        rcases List.mem_or_eq_of_mem_set htask with htask | rfl
        · exact ih task htask
        · exact ih _ (List.mem_of_getElem? ht) _
      · cases he
    | connect i | close i | detach i =>
      obtain ⟨σ, -, rfl⟩ := Option.map_eq_some_iff.mp he
      exact ih

end Results
end NexusCone.TaskRuns
