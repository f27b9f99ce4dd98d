import NexusCone.AsyncSystem

/-!
# A program with nothing in between

The whole execution of a program during which no other task takes a step, with every operation and
the outcome that the environment gave it, the errors of the database and cancellations among them.
-/
namespace NexusCone.LoneRuns
open SharedFile AsyncProgram AsyncSystem

variable {D S W Q ε α β : Type} {Ans : Q → Type}

/-- An operation with its outcome. -/
structure Happening (S Q : Type) (Ans : Q → Type) (ε W : Type) where
  op : Op S Q
  outcome : Outcome Q Ans ε W

/-- What is raised, if anything, is caught. -/
def catches (caught : ε → Bool) : Except ε α → Bool
  | .ok _ => true
  | .error e => caught e

/-- No cancellation, and a request that raises does so with an exception that is caught. -/
def Happening.calm (caught : ε → Bool) : Happening S Q Ans ε W → Bool
  | ⟨.external q, .answer f _⟩ => catches caught (f q)
  | ⟨_, .cancel _⟩ => false
  | _ => true

variable [SqlStatement S D] [Raises ε]

/-- The program runs from the one state to the other through these happenings, and ends with `r`. -/
inductive Alone (i : InstId) (t : TaskId) : Prog D S Q Ans ε α → Shared D S W →
    List (Happening S Q Ans ε W) → Except ε α → Shared D S W → Prop
  | done {r : Except ε α} {σ : Shared D S W} : Alone i t (.done r) σ [] r σ
  | perform {op : Op S Q} {k : Except ε (op.Res D Ans) → Prog D S Q Ans ε α} {o : Outcome Q Ans ε W}
      {x : Except ε (op.Res D Ans)} {σ σ₁ σ' : Shared D S W} {es : List (Happening S Q Ans ε W)} {r : Except ε α} :
      effect i t σ op o = some (x, σ₁) → Alone i t (k x) σ₁ es r σ' → Alone i t (.perform op k) σ (⟨op, o⟩ :: es) r σ'

/-- Follow the program through the happenings, as long as its operations are theirs. -/
def runAlone [DecidableEq S] [DecidableEq Q] (i : InstId) (t : TaskId) : Prog D S Q Ans ε α →
    List (Happening S Q Ans ε W) → Shared D S W → Option (Except ε α × Shared D S W)
  | .done r, [], σ => some (r, σ)
  | .perform op k, e :: es, σ =>
    if e.op = op then (effect i t σ op e.outcome).bind fun p => runAlone i t (k p.1) es p.2 else none
  | _, _, _ => none

variable {i : InstId} {t : TaskId} {σ σ' : Shared D S W} {es : List (Happening S Q Ans ε W)}

theorem alone_of_runAlone [DecidableEq S] [DecidableEq Q] {p : Prog D S Q Ans ε α} {x : Except ε α × Shared D S W}
    (h : runAlone i t p es σ = some x) : Alone i t p σ es x.1 x.2 := by
  induction p generalizing es σ with
  | done r =>
    cases es with
    | nil =>
      cases h
      exact .done
    | cons e es => cases h
  | perform op k ih =>
    cases es with
    | nil => cases h
    | cons e es =>
      obtain ⟨op', o⟩ := e
      simp only [runAlone] at h
      split_ifs at h with hop
      subst hop
      obtain ⟨y, heffect, hrest⟩ := Option.bind_eq_some_iff.mp h
      exact .perform heffect (ih y.1 hrest)

section Rules

variable {r : Except ε α} {p : Prog D S Q Ans ε α}

theorem Alone.of_done {r' : Except ε α} (h : Alone i t (.done r') σ es r σ') : es = [] ∧ r = r' ∧ σ' = σ := by
  cases h
  exact ⟨rfl, rfl, rfl⟩

theorem Alone.of_perform {op : Op S Q} {k : Except ε (op.Res D Ans) → Prog D S Q Ans ε α}
    (h : Alone i t (.perform op k) σ es r σ') :
    ∃ o x σ₁ rest, es = ⟨op, o⟩ :: rest ∧ effect i t σ op o = some (x, σ₁) ∧ Alone i t (k x) σ₁ rest r σ' := by
  cases h with
  | perform heffect hrest => exact ⟨_, _, _, _, rfl, heffect, hrest⟩

/-- A single operation. -/
theorem Alone.of_op {op : Op S Q} {r : Except ε (op.Res D Ans)} (h : Alone i t (.perform op .done) σ es r σ') :
    ∃ o, es = [⟨op, o⟩] ∧ effect i t σ op o = some (r, σ') := by
  obtain ⟨o, x, σ₁, rest, rfl, heffect, hrest⟩ := h.of_perform
  obtain ⟨rfl, rfl, rfl⟩ := hrest.of_done
  exact ⟨o, rfl, heffect⟩

theorem Alone.of_bind {f : α → Prog D S Q Ans ε β} {r : Except ε β} (h : Alone i t (p >>= f) σ es r σ') :
    (∃ a σ₁ es₁ es₂, es = es₁ ++ es₂ ∧ Alone i t p σ es₁ (.ok a) σ₁ ∧ Alone i t (f a) σ₁ es₂ r σ') ∨
      ∃ e, r = .error e ∧ Alone i t p σ es (.error e) σ' := by
  induction p generalizing σ es with
  | done x =>
    cases x with
    | ok a => exact .inl ⟨a, σ, [], es, rfl, .done, h⟩
    | error e =>
      obtain ⟨rfl, rfl, rfl⟩ := h.of_done
      exact .inr ⟨e, rfl, .done⟩
  | perform op k ih =>
    obtain ⟨o, x, σ₁, rest, rfl, heffect, hrest⟩ := h.of_perform
    rcases ih x hrest with ⟨a, σ₂, es₁, es₂, rfl, hp, hf⟩ | ⟨e, rfl, hp⟩
    · exact .inl ⟨a, σ₂, ⟨op, o⟩ :: es₁, es₂, rfl, .perform heffect hp, hf⟩
    · exact .inr ⟨e, rfl, .perform heffect hp⟩

theorem Alone.of_attempt {r : Except ε (Except ε α)} (h : Alone i t p.attempt σ es r σ') :
    ∃ x, r = .ok x ∧ Alone i t p σ es x σ' := by
  induction p generalizing σ es with
  | done x =>
    obtain ⟨rfl, rfl, rfl⟩ := h.of_done
    exact ⟨x, rfl, .done⟩
  | perform op k ih =>
    obtain ⟨o, x, σ₁, rest, rfl, heffect, hrest⟩ := h.of_perform
    obtain ⟨y, rfl, hp⟩ := ih x hrest
    exact ⟨y, rfl, .perform heffect hp⟩

/-- What follows an attempt gets its result, whatever it is. -/
theorem Alone.of_attempt_bind {f : Except ε α → Prog D S Q Ans ε β} {r : Except ε β}
    (h : Alone i t (p.attempt >>= f) σ es r σ') :
    ∃ x σ₁ es₁ es₂, es = es₁ ++ es₂ ∧ Alone i t p σ es₁ x σ₁ ∧ Alone i t (f x) σ₁ es₂ r σ' := by
  rcases h.of_bind with ⟨x, σ₁, es₁, es₂, rfl, hp, hf⟩ | ⟨e, -, hp⟩
  · obtain ⟨y, hy, hp⟩ := hp.of_attempt
    cases hy
    exact ⟨x, σ₁, es₁, es₂, rfl, hp, hf⟩
  · obtain ⟨y, hy, -⟩ := hp.of_attempt
    cases hy

/-- The outcomes determine the execution. -/
theorem Alone.unique {r' : Except ε α} {σ'' : Shared D S W} {es' rest rest' : List (Happening S Q Ans ε W)}
    (h : Alone i t p σ es r σ') (h' : Alone i t p σ es' r' σ'') (heq : es ++ rest = es' ++ rest') :
    es = es' ∧ r = r' ∧ σ' = σ'' ∧ rest = rest' := by
  induction h generalizing es' with
  | done =>
    obtain ⟨rfl, rfl, rfl⟩ := h'.of_done
    exact ⟨rfl, rfl, rfl, heq⟩
  | @perform op k o x σ σ₁ σ' es r heffect _ ih =>
    obtain ⟨o', x', σ₂, es', rfl, heffect', hrest'⟩ := h'.of_perform
    obtain ⟨ho, hes⟩ := List.cons.inj heq
    cases ho
    cases heffect.symm.trans heffect'
    obtain ⟨rfl, rfl, rfl, rfl⟩ := ih hrest' hes
    exact ⟨rfl, rfl, rfl, rfl⟩

/-- The body of `async with lock` runs between the acquisition and the release, unless the wait for the
lock is cancelled. -/
theorem Alone.of_withLock (h : Alone i t (Prog.withLock p) σ es r σ') :
    (∃ performed, es = [⟨.acquire, .cancel performed⟩] ∧ r = .error Raises.cancelled ∧ σ' = σ) ∨
      ∃ inside σ₁, (σ.handles i).lock = none ∧ es = ⟨.acquire, .ok⟩ :: inside ++ [⟨.release, .ok⟩] ∧
        Alone i t p (σ.setLock i (some t)) inside r σ₁ ∧ σ' = σ₁.setLock i none := by
  rcases h.of_bind with ⟨u, σ₁, es₁, es₂, rfl, hacquire, hbody⟩ | ⟨e, rfl, hacquire⟩
  · obtain ⟨o, rfl, heffect⟩ := hacquire.of_op
    rcases effect_acquire heffect with ⟨hfree, -, rfl⟩ | ⟨hr, -⟩
    · obtain ⟨x, σ₂, inside, es₃, rfl, hinside, hrelease⟩ := hbody.of_attempt_bind
      obtain ⟨o', y, σ₃, rest, rfl, hreleased, hrest⟩ := hrelease.of_perform
      obtain ⟨rfl, rfl⟩ := effect_release hreleased
      obtain ⟨rfl, rfl, rfl⟩ := hrest.of_done
      cases o' <;> cases hreleased
      cases o with
      | ok => exact .inr ⟨inside, σ₂, hfree, rfl, hinside, rfl⟩
      | _ => cases heffect
    · cases hr
  · obtain ⟨o, rfl, heffect⟩ := hacquire.of_op
    rcases effect_acquire heffect with ⟨-, hr, -⟩ | ⟨hr, rfl⟩
    · cases hr
    · cases hr
      cases o with
      | cancel performed => exact .inl ⟨performed, rfl, rfl, rfl⟩
      | ok =>
        simp only [effect] at heffect
        split at heffect <;> cases heffect
      | _ => cases heffect

/-- Requests touch neither the file nor the lock. -/
theorem Alone.of_external (h : Alone i t p σ es r σ') (hp : p.Uses fun op => ∃ q, op = .external q) :
    σ'.file = σ.file ∧ σ'.handles = σ.handles ∧ ∀ e ∈ es, ∃ q, e.op = .external q := by
  induction h with
  | done => exact ⟨rfl, rfl, by simp⟩
  | perform heffect _ ih =>
    obtain ⟨⟨q, rfl⟩, hk⟩ := hp
    obtain ⟨hfile, hhandles, hes⟩ := ih (hk _)
    rcases effect_external heffect with ⟨f, w, rfl, -, rfl⟩ | ⟨-, rfl⟩
    · exact ⟨hfile, hhandles, List.forall_mem_cons.mpr ⟨⟨q, rfl⟩, hes⟩⟩
    · exact ⟨hfile, hhandles, List.forall_mem_cons.mpr ⟨⟨q, rfl⟩, hes⟩⟩

end Rules

section Writing

variable {c : ConnId} {o : Outcome Q Ans ε W}

/-- A statement that may run and that its constraints accept: it returns, it has run and the caller does
not learn it, or it has not run. -/
theorem effect_execute_cases {s : S} {r : Except ε ℤ} {d : D} {n : ℤ} (hw : σ.file.MayWrite c)
    (hex : exec s (σ.file.view c).data = .ok (d, n)) (h : effect i t σ (.execute c s) o = some (r, σ')) :
    let written : Shared D S W := { σ with file := σ.file.write c ⟨d, (σ.file.view c).journal ++ [(t, s, n)]⟩ }
    (o = .ok ∧ r = .ok n ∧ σ' = written) ∨ (o = .cancel true ∧ r = .error Raises.cancelled ∧ σ' = written) ∨
      (o.performs = false ∧ (∃ e, r = .error e) ∧
        ∃ f l, σ' = { σ with file := f, failed := l } ∧ (f = σ.file ∨ f = σ.file.lock c)) := by
  intro written
  have hx : σ.file.execute t c s = (.ok n, σ.file.write c ⟨d, (σ.file.view c).journal ++ [(t, s, n)]⟩) := by
    simp only [File.execute, if_pos hw, hex]
  cases o with
  | ok =>
    simp only [effect, hx] at h
    cases h
    exact .inl ⟨rfl, rfl, rfl⟩
  | cancel performed =>
    simp only [effect, hx] at h
    cases h
    cases performed with
    | true => exact .inr (.inl ⟨rfl, rfl, rfl⟩)
    | false => exact .inr (.inr ⟨rfl, ⟨_, rfl⟩, σ.file, σ.failed, rfl, .inl rfl⟩)
  | fail m locks =>
    cases h
    refine .inr (.inr ⟨rfl, ⟨_, rfl⟩, _, _, rfl, ?_⟩)
    split
    · exact .inr rfl
    · exact .inl rfl
  | answer f w => cases h

/-- A commit of what the connection has written. -/
theorem effect_commit_cases {r : Except ε Unit} {v : Version D S} (h : effect i t σ (.commit c) o = some (r, σ'))
    (ho : c ∈ σ.file.opened) (hp : σ.file.pending = some (c, v)) :
    let published : Shared D S W := { σ with file := { σ.file with committed := v, pending := none } }
    (o = .ok ∧ r = .ok () ∧ σ' = published) ∨
      (o ≠ .ok ∧ (∃ e, r = .error e) ∧ (σ' = published ∨ ∃ l, σ' = { σ with failed := l })) := by
  intro published
  have hx : σ.file.commit c = (.ok (), { σ.file with committed := v, pending := none }) := by
    simp only [File.commit, if_pos ho, hp, if_true]
  cases o with
  | ok =>
    simp only [effect, hx] at h
    cases h
    exact .inl ⟨rfl, rfl, rfl⟩
  | cancel performed =>
    simp only [effect, hx] at h
    cases h
    refine .inr ⟨by rintro ⟨⟩, ⟨_, rfl⟩, ?_⟩
    cases performed with
    | true => exact .inl rfl
    | false => exact .inr ⟨σ.failed, rfl⟩
  | fail m locks =>
    cases h
    exact .inr ⟨by rintro ⟨⟩, ⟨_, rfl⟩, .inr ⟨_, rfl⟩⟩
  | answer f w => cases h

end Writing

section Catching

variable {caught : ε → Bool} {p : Prog D S Q Ans ε α}

omit [SqlStatement S D] [Raises ε] in
theorem catches_iff {x : Except ε α} : catches caught x ↔ ∀ e, x = .error e → caught e := by
  cases x with
  | ok a => exact iff_of_true rfl (by rintro e ⟨⟩)
  | error e => exact ⟨by rintro h _ ⟨⟩; exact h, fun h => h e rfl⟩

/-- An exception that is not caught comes out exactly if one went in. -/
def Relays (caught : ε → Bool) (p : Prog D S Q Ans ε α) : Prop :=
  ∀ (W : Type) (i : InstId) (t : TaskId) (σ σ' : Shared D S W) (es : List (Happening S Q Ans ε W)) (r : Except ε α),
    Alone i t p σ es r σ' → ((∀ e, r = .error e → caught e) ↔ ∀ x ∈ es, x.calm caught)

theorem relays_done {r : Except ε α} (h : ∀ e, r = .error e → caught e) :
    Relays caught (.done r : Prog D S Q Ans ε α) := by
  intro W i t σ σ' es r' hrun
  obtain ⟨rfl, rfl, rfl⟩ := hrun.of_done
  exact iff_of_true h (by simp)

/-- The exceptions of the connection are caught, and a cancellation is not. -/
structure CatchesSql (caught : ε → Bool) : Prop where
  sql : ∀ x, caught (Raises.sql x)
  notOpen : caught Raises.notOpen
  cancelled : caught Raises.cancelled = false

theorem raised_caught (h : CatchesSql caught) {x : Except SqlError α} (e : ε) (he : raised x = .error e) :
    caught e := by
  cases x with
  | ok a => cases he
  | error x =>
    cases he
    exact h.sql x

theorem relays_op (h : CatchesSql caught) (op : Op S Q) :
    Relays caught (.perform op .done : Prog D S Q Ans ε (op.Res D Ans)) := by
  intro W i t σ σ' es r hrun
  obtain ⟨o, rfl, heffect⟩ := hrun.of_op
  rw [List.forall_mem_singleton]
  have hcancelled (hr : r = .error Raises.cancelled) : ¬ ∀ e, r = .error e → caught e := by
    intro hall
    have hcaught := hall _ hr
    rw [h.cancelled] at hcaught
    cases hcaught
  cases o with
  | cancel performed =>
    have hcalm : ¬ (⟨op, .cancel performed⟩ : Happening S Q Ans ε W).calm caught := by cases op <;> exact Bool.false_ne_true
    refine iff_of_false (hcancelled ?_) hcalm
    cases op <;> cases heffect <;> rfl
  | answer f w =>
    cases op with
    | external q =>
      cases heffect
      exact catches_iff.symm
    | _ => cases heffect
  | ok =>
    have hcalm : (⟨op, .ok⟩ : Happening S Q Ans ε W).calm caught := by cases op <;> rfl
    refine iff_of_true ?_ hcalm
    cases op with
    | connection =>
      obtain ⟨-, ⟨c, -, rfl⟩ | ⟨-, rfl⟩⟩ := effect_connection heffect
      · rintro e ⟨⟩
      · rintro e ⟨⟩
        exact h.notOpen
    | acquire =>
      simp only [effect] at heffect
      split at heffect <;> cases heffect
      rintro e ⟨⟩
    | release =>
      cases heffect
      rintro e ⟨⟩
    | select c =>
      simp only [effect] at heffect
      split at heffect <;> cases heffect
      · rintro e ⟨⟩
      · rintro e ⟨⟩
        exact h.sql _
    | execute c s =>
      cases heffect
      exact raised_caught h
    | commit c =>
      cases heffect
      exact raised_caught h
    | external q => cases heffect
  | fail m locks =>
    have hcalm : (⟨op, .fail m locks⟩ : Happening S Q Ans ε W).calm caught := by cases op <;> rfl
    refine iff_of_true ?_ hcalm
    cases op <;> cases heffect <;> · rintro e ⟨⟩; exact h.sql _

theorem Relays.bind (hp : Relays caught p) {f : α → Prog D S Q Ans ε β} (hf : ∀ a, Relays caught (f a)) :
    Relays caught (p >>= f) := by
  intro W i t σ σ' es r hrun
  rcases hrun.of_bind with ⟨a, σ₁, es₁, es₂, rfl, h₁, h₂⟩ | ⟨e, rfl, h⟩
  · have hcalm := (hp W i t _ _ _ _ h₁).mp (by rintro e ⟨⟩)
    rw [hf a W i t _ _ _ _ h₂, List.forall_mem_append]
    exact (and_iff_right hcalm).symm
  · rw [← hp W i t _ _ _ _ h]
    simp

/-- What an attempt's result is given to may absorb what is caught, and raises the rest again. -/
theorem Relays.attempt_bind (hp : Relays caught p) {f : Except ε α → Prog D S Q Ans ε β}
    (hok : ∀ a, Relays caught (f (.ok a))) (hcaught : ∀ e, caught e → Relays caught (f (.error e)))
    (hraise : ∀ e, caught e = false → f (.error e) = Prog.raise e) : Relays caught (p.attempt >>= f) := by
  intro W i t σ σ' es r hrun
  obtain ⟨x, σ₁, es₁, es₂, rfl, h₁, h₂⟩ := hrun.of_attempt_bind
  have hiff := hp W i t _ _ _ _ h₁
  rw [List.forall_mem_append]
  cases x with
  | ok a =>
    rw [hok a W i t _ _ _ _ h₂]
    exact (and_iff_right (hiff.mp (by rintro e ⟨⟩))).symm
  | error e =>
    cases he : caught e with
    | true =>
      rw [hcaught e he W i t _ _ _ _ h₂]
      exact (and_iff_right (hiff.mp (by rintro _ ⟨⟩; exact he))).symm
    | false =>
      rw [hraise e he] at h₂
      obtain ⟨rfl, rfl, rfl⟩ := h₂.of_done
      simpa using hiff

theorem Relays.withLock (h : CatchesSql caught) (hp : Relays caught p) : Relays caught (Prog.withLock p) := by
  refine (relays_op h .acquire).bind fun _ => ?_
  intro W i t σ σ' es r hrun
  obtain ⟨x, σ₁, es₁, es₂, rfl, h₁, h₂⟩ := hrun.of_attempt_bind
  obtain ⟨o, y, σ₂, rest, rfl, heffect, hrest⟩ := h₂.of_perform
  obtain ⟨rfl, -⟩ := effect_release heffect
  obtain ⟨rfl, rfl, rfl⟩ := hrest.of_done
  cases o <;> cases heffect
  rw [hp W i t _ _ _ _ h₁, List.forall_mem_append, List.forall_mem_singleton]
  exact (and_iff_left rfl).symm

end Catching

section System

variable {C R : Type} {body : C → Prog D S Q Ans ε R} {s : Sys D S W Q Ans ε C R} {call : C}

theorem run_of_effect {op : Op S Q} {k : Except ε (op.Res D Ans) → Prog D S Q Ans ε R}
    {o : Outcome Q Ans ε W} {r : Except ε (op.Res D Ans)} {σ : Shared D S W}
    (ht : s.tasks[t]? = some ⟨i, call, .perform op k⟩) (hx : effect i t s.shared op o = some (r, σ)) :
    Run body .all s ⟨σ, s.tasks.set t ⟨i, call, k r⟩⟩ := by
  refine .single ⟨.run t o, fun _ _ _ _ _ => trivial, ?_⟩
  simp only [step, runTask, ht, hx]

/-- The system can run the task so. -/
theorem Alone.run {p : Prog D S Q Ans ε R} {r : Except ε R} (h : Alone i t p σ es r σ') (hs : s.shared = σ)
    (ht : s.tasks[t]? = some ⟨i, call, p⟩) :
    ∃ s', Run body .all s s' ∧ s'.tasks[t]? = some ⟨i, call, .done r⟩ ∧ s'.shared = σ' := by
  induction h generalizing s with
  | done => exact ⟨s, .refl, ht, hs⟩
  | @perform op k o x σ σ₁ σ' es r heffect _ ih =>
    have hlt : t < s.tasks.length := (List.getElem?_eq_some_iff.mp ht).1
    obtain ⟨s', hrun, hdone, hs'⟩ :=
      ih (s := ⟨σ₁, s.tasks.set t ⟨i, call, k x⟩⟩) rfl (List.getElem?_set_self hlt)
    exact ⟨s', .trans (run_of_effect ht (hs ▸ heffect)) hrun, hdone, hs'⟩

end System
end NexusCone.LoneRuns
