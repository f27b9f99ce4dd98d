import NexusCone.LoneRuns

/-!
# A task running alone

The result of a program when no other task runs, no database operation fails and requests are
answered from a state of the world. `solo_run` finds this execution among the runs of the system.
-/
namespace NexusCone.SoloRun
open SharedFile AsyncProgram AsyncSystem LoneRuns

variable {D S W Q ε α β : Type} {Ans : Q → Type}

/-- What the task's connection sees, what is committed, whether the task holds the lock. -/
structure Solo (D W : Type) where
  view : D
  committed : D
  locked : Bool
  world : W

/-- The task's instance has the connection open, no other connection holds writes, and only the
task can hold the instance's lock. -/
structure Matches (i : InstId) (t : TaskId) (c : ConnId) (σ : Shared D S W) (x : Solo D W) : Prop where
  db : (σ.handles i).db = some c
  opened : c ∈ σ.file.opened
  pending : ∀ p ∈ σ.file.pending, p.1 = c
  lock : (σ.handles i).lock = if x.locked then some t else none
  view : (σ.file.view c).data = x.view
  committed : σ.file.committed.data = x.committed
  world : σ.world = x.world

section

variable {i : InstId} {t : TaskId} {c : ConnId} {σ : Shared D S W} {x : Solo D W}

theorem Matches.setLock (h : Matches i t c σ x) (b : Bool) :
    Matches i t c (σ.setLock i (if b then some t else none)) { x with locked := b } :=
  ⟨(Shared.setLock_db σ i i _).trans h.db, h.opened, h.pending, Shared.setLock_lock_self σ i _, h.view,
    h.committed, h.world⟩

theorem Matches.mayWrite (h : Matches i t c σ x) : σ.file.MayWrite c :=
  ⟨h.opened, h.pending⟩

end

abbrev Answers (Q : Type) (Ans : Q → Type) (ε W : Type) := (q : Q) → W → Except ε (Ans q) × W

/-- Every request fails. -/
def unanswered (e : ε) : Answers Q Ans ε W := fun _ w => (.error e, w)

variable [SqlStatement S D] [Raises ε]

/-- `none` where the task waits for its own lock or uses a connection it was not given. -/
def solo (answers : Answers Q Ans ε W) (c : ConnId) :
    Prog D S Q Ans ε α → Solo D W → Option (Except ε α × Solo D W)
  | .done r, x => some (r, x)
  | .perform .connection k, x => solo answers c (k (.ok c)) x
  | .perform .acquire k, x => if x.locked then none else solo answers c (k (.ok ())) { x with locked := true }
  | .perform .release k, x => solo answers c (k (.ok ())) { x with locked := false }
  | .perform (.select d) k, x => if d = c then solo answers c (k (.ok x.view)) x else none
  | .perform (.execute d s) k, x =>
    if d = c then
      match exec s x.view with
      | .ok (v, n) => solo answers c (k (.ok n)) { x with view := v }
      | .error m => solo answers c (k (.error (Raises.sql (.constraint m)))) x
    else none
  | .perform (.commit d) k, x => if d = c then solo answers c (k (.ok ())) { x with committed := x.view } else none
  | .perform (.external q) k, x =>
    solo answers c (k (answers q x.world).1) { x with world := (answers q x.world).2 }

section Rules

variable {answers : Answers Q Ans ε W} {c : ConnId}

attribute [local simp] solo

@[simp] theorem solo_done (r : Except ε α) (x : Solo D W) :
    solo (S := S) answers c (.done r : Prog D S Q Ans ε α) x = some (r, x) := rfl

theorem solo_connection (x : Solo D W) :
    solo answers c (Prog.connection : Prog D S Q Ans ε ConnId) x = some (.ok c, x) := rfl

theorem solo_select (x : Solo D W) :
    solo answers c (Prog.select c : Prog D S Q Ans ε D) x = some (.ok x.view, x) := by
  simp [Prog.select, solo]

theorem solo_bind (p : Prog D S Q Ans ε α) (f : α → Prog D S Q Ans ε β) (x : Solo D W) :
    solo answers c (p >>= f) x = (solo answers c p x).bind fun y =>
      match y.1 with
      | .ok a => solo answers c (f a) y.2
      | .error e => some (.error e, y.2) := by
  induction p generalizing x with
  | done r => cases r <;> rfl
  | perform op k ih =>
    cases op with
    | connection => exact ih _ _
    | release => exact ih _ _
    | external q => exact ih _ _
    | acquire =>
      simp only [Prog.perform_bind, solo]
      split
      · rfl
      · exact ih _ _
    | select d =>
      simp only [Prog.perform_bind, solo]
      split
      · exact ih _ _
      · rfl
    | commit d =>
      simp only [Prog.perform_bind, solo]
      split
      · exact ih _ _
      · rfl
    | execute d s =>
      simp only [Prog.perform_bind, solo]
      split
      · split <;> exact ih _ _
      · rfl

theorem solo_attempt (p : Prog D S Q Ans ε α) (x : Solo D W) :
    solo answers c p.attempt x = (solo answers c p x).map fun y => (.ok y.1, y.2) := by
  induction p generalizing x with
  | done r => rfl
  | perform op k ih =>
    cases op with
    | connection => exact ih _ _
    | release => exact ih _ _
    | external q => exact ih _ _
    | acquire =>
      simp only [Prog.attempt, solo]
      split
      · rfl
      · exact ih _ _
    | select d =>
      simp only [Prog.attempt, solo]
      split
      · exact ih _ _
      · rfl
    | commit d =>
      simp only [Prog.attempt, solo]
      split
      · exact ih _ _
      · rfl
    | execute d s =>
      simp only [Prog.attempt, solo]
      split
      · split <;> exact ih _ _
      · rfl

theorem solo_ok_bind {p : Prog D S Q Ans ε α} {f : α → Prog D S Q Ans ε β} {x y : Solo D W} {a : α}
    (h : solo answers c p x = some (.ok a, y)) : solo answers c (p >>= f) x = solo answers c (f a) y := by
  rw [solo_bind, h]
  rfl

theorem solo_error_bind {p : Prog D S Q Ans ε α} {f : α → Prog D S Q Ans ε β} {x y : Solo D W} {e : ε}
    (h : solo answers c p x = some (.error e, y)) :
    solo answers c (p >>= f) x = some (.error e, y) := by
  rw [solo_bind, h]
  rfl

theorem exists_of_solo_bind {p : Prog D S Q Ans ε α} {f : α → Prog D S Q Ans ε β} {x z : Solo D W} {b : β}
    (h : solo answers c (p >>= f) x = some (.ok b, z)) :
    ∃ a y, solo answers c p x = some (.ok a, y) ∧ solo answers c (f a) y = some (.ok b, z) := by
  rw [solo_bind] at h
  rcases hp : solo answers c p x with _ | ⟨a | a, y⟩
  · rw [hp] at h
    cases h
  · rw [hp] at h
    cases h
  · rw [hp] at h
    exact ⟨a, y, rfl, h⟩

/-- The body of `async with lock` runs with the lock held, and the lock is free again after it. -/
theorem solo_withLock {p : Prog D S Q Ans ε α} {x : Solo D W} (hx : x.locked = false) :
    solo answers c (Prog.withLock p) x = (solo answers c p { x with locked := true }).map fun y =>
      (y.1, { y.2 with locked := false }) := by
  have hacquire : solo answers c (Prog.acquire : Prog D S Q Ans ε Unit) x =
      some (.ok (), { x with locked := true }) := by
    simp [Prog.acquire, solo, hx]
  rw [Prog.withLock, solo_ok_bind hacquire, solo_bind, solo_attempt]
  cases solo answers c p { x with locked := true } <;> rfl

theorem solo_select_ok {d : ConnId} {v : D} {x y : Solo D W}
    (h : solo answers c (Prog.select d : Prog D S Q Ans ε D) x = some (.ok v, y)) : v = x.view ∧ y = x := by
  simp only [Prog.select, solo] at h
  split at h <;> cases h
  exact ⟨rfl, rfl⟩

theorem solo_execute_ok {d : ConnId} {s : S} {n : ℤ} {x y : Solo D W}
    (h : solo answers c (Prog.execute d s : Prog D S Q Ans ε ℤ) x = some (.ok n, y)) :
    ∃ v, exec s x.view = .ok (v, n) ∧ y = { x with view := v } := by
  simp only [Prog.execute, solo] at h
  split at h
  · split at h <;> cases h
    exact ⟨_, by assumption, rfl⟩
  · cases h

theorem solo_commit_ok {d : ConnId} {u : Unit} {x y : Solo D W}
    (h : solo answers c (Prog.commit d : Prog D S Q Ans ε Unit) x = some (.ok u, y)) :
    y = { x with committed := x.view } := by
  simp only [Prog.commit, solo] at h
  split at h <;> cases h
  rfl

theorem solo_external_ok {q : Q} {a : Ans q} {x y : Solo D W}
    (h : solo answers c (Prog.external q : Prog D S Q Ans ε (Ans q)) x = some (.ok a, y)) :
    (answers q x.world).1 = .ok a ∧ y = { x with world := (answers q x.world).2 } := by
  simp only [Prog.external, solo, Option.some.injEq, Prod.mk.injEq] at h
  exact ⟨h.1, h.2.symm⟩

/-- What the body has done, with the lock given back. -/
theorem solo_withLock_ok {p : Prog D S Q Ans ε α} {a : α} {x y : Solo D W}
    (h : solo answers c (Prog.withLock p) x = some (.ok a, y)) :
    ∃ z, solo answers c p { x with locked := true } = some (.ok a, z) ∧ y = { z with locked := false } := by
  cases hx : x.locked with
  | true =>
    rw [Prog.withLock, solo_bind] at h
    simp [Prog.acquire, solo, hx] at h
  | false =>
    rw [solo_withLock hx] at h
    obtain ⟨z, hz, heq⟩ := Option.map_eq_some_iff.mp h
    obtain ⟨r, z⟩ := z
    cases heq
    exact ⟨z, hz, rfl⟩

end Rules

section System

variable {C R : Type}

variable {body : C → Prog D S Q Ans ε R} {answers : Answers Q Ans ε W} {c : ConnId} {i : InstId} {t : TaskId}
variable {s : Sys D S W Q Ans ε C R} {call : C}

/-- The result is that of an execution with nothing in between. -/
theorem alone_of_solo {p : Prog D S Q Ans ε α} {r : Except ε α} {x y : Solo D W} {σ : Shared D S W}
    (h : solo answers c p x = some (r, y)) (hm : Matches i t c σ x) :
    ∃ es σ', Alone i t p σ es r σ' ∧ Matches i t c σ' y := by
  induction p generalizing σ x with
  | done r' =>
    cases h
    exact ⟨[], σ, .done, hm⟩
  | perform op k ih =>
    have hgo {o : Outcome Q Ans ε W} {r' : Except ε (op.Res D Ans)} {τ : Shared D S W} {x' : Solo D W}
        (hx : effect i t σ op o = some (r', τ)) (h : solo answers c (k r') x' = some (r, y))
        (hm : Matches i t c τ x') : ∃ es σ', Alone i t (.perform op k) σ es r σ' ∧ Matches i t c σ' y := by
      obtain ⟨es, σ', hrest, hm'⟩ := ih r' h hm
      exact ⟨_, σ', .perform hx hrest, hm'⟩
    cases op with
    | connection =>
      refine hgo (o := .ok) ?_ h hm
      simp only [effect, hm.db]
    | acquire =>
      simp only [solo] at h
      split at h
      · cases h
      · rename_i hfree
        refine hgo (o := .ok) ?_ h (hm.setLock true)
        simp only [effect, hm.lock, if_neg hfree, if_true]
    | release =>
      refine hgo (o := .ok) ?_ h (hm.setLock false)
      simp [effect]
    | select d =>
      simp only [solo] at h
      split at h
      · rename_i hd
        subst hd
        refine hgo (o := .ok) ?_ h hm
        simp only [effect, if_pos hm.opened, hm.view]
      · cases h
    | execute d st =>
      simp only [solo] at h
      split at h
      · rename_i hd
        subst hd
        cases hex : exec st x.view with
        | ok p =>
          obtain ⟨v, n⟩ := p
          rw [hex] at h
          let w : Version D S := ⟨v, (σ.file.view d).journal ++ [(t, st, n)]⟩
          refine hgo (o := .ok) (τ := { σ with file := σ.file.write d w }) ?_ h ?_
          · simp only [effect, File.execute, if_pos hm.mayWrite, hm.view, hex, raised, Shared.after]
            rfl
          · exact ⟨hm.db, hm.opened, by rintro p ⟨⟩; rfl, hm.lock,
              congrArg Version.data (File.view_write_self _ _ _), hm.committed, hm.world⟩
        | error m =>
          rw [hex] at h
          refine hgo (o := .ok) (τ := { σ with
            file := σ.file.lock d, failed := (t, d) :: σ.failed }) ?_ h ?_
          · simp only [effect, File.execute, if_pos hm.mayWrite, hm.view, hex, raised, Shared.after]
            rfl
          · exact ⟨hm.db, hm.opened, by rintro p ⟨⟩; rfl, hm.lock,
              (congrArg Version.data (File.view_lock _ d d hm.mayWrite)).trans hm.view, hm.committed, hm.world⟩
      · cases h
    | commit d =>
      simp only [solo] at h
      split at h
      · rename_i hd
        subst hd
        cases hp : σ.file.pending with
        | none =>
          have hview : x.view = x.committed := by
            rw [← hm.view, ← hm.committed, File.view_of_ne (by simp [hp])]
          refine hgo (o := .ok) (τ := σ) ?_ h ?_
          · simp only [effect, File.commit, if_pos hm.opened, hp, raised, Shared.after]
            rfl
          · exact ⟨hm.db, hm.opened, hm.pending, hm.lock, hm.view, hm.committed.trans hview.symm, hm.world⟩
        | some p =>
          obtain ⟨e, v⟩ := p
          obtain rfl : e = d := hm.pending _ hp
          have hv : v.data = x.view := by
            rw [← hm.view, File.view_pending_self hp]
          refine hgo (o := .ok) (τ := { σ with
            file := { σ.file with committed := v, pending := none } }) ?_ h ?_
          · simp only [effect, File.commit, if_pos hm.opened, hp, if_true, raised, Shared.after]
            rfl
          · exact ⟨hm.db, hm.opened, by rintro p ⟨⟩, hm.lock, hv, hv, hm.world⟩
      · cases h
    | external q =>
      refine hgo (o := .answer (fun q => (answers q x.world).1) (answers q x.world).2)
        (τ := { σ with world := (answers q x.world).2 }) ?_ h ?_
      · rfl
      · exact ⟨hm.db, hm.opened, hm.pending, hm.lock, hm.view, hm.committed, rfl⟩

/-- The system can run the task to the result it has alone. -/
theorem solo_run {p : Prog D S Q Ans ε R} {r : Except ε R} {x y : Solo D W}
    (h : solo answers c p x = some (r, y)) (hm : Matches i t c s.shared x)
    (ht : s.tasks[t]? = some ⟨i, call, p⟩) :
    ∃ s', Run body .all s s' ∧ s'.tasks[t]? = some ⟨i, call, .done r⟩ ∧ Matches i t c s'.shared y := by
  obtain ⟨es, σ', halone, hm'⟩ := alone_of_solo h hm
  obtain ⟨s', hrun, hdone, rfl⟩ := halone.run rfl ht
  exact ⟨s', hrun, hdone, hm'⟩

end System
end NexusCone.SoloRun
