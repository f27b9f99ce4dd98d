import NexusCone.AsyncProgram
import Mathlib.Logic.Relation

/-!
# Tasks of several instances over one database file

An instance has at most one connection at a time and one lock for its tasks. A step lets one
task perform its next operation with an outcome chosen by the environment, or opens or closes
an instance's connection. A cancelled caller gets the cancellation as its exception; its
statement has run or never runs.
-/
namespace NexusCone.AsyncSystem
open SharedFile AsyncProgram

abbrev InstId := ℕ

/-- How the program's exceptions embed those of its operations. -/
class Raises (ε : Type) where
  sql : SqlError → ε
  cancelled : ε
  notOpen : ε

structure Handle where
  db : Option ConnId
  lock : Option TaskId

/-- `failed` is a history variable: the tasks one of whose statements or commits raised a
database error, with the connection; `world` is what the environment keeps between requests. -/
structure Shared (D S W : Type) where
  file : File D S
  handles : InstId → Handle
  nextConn : ConnId
  failed : List (TaskId × ConnId)
  world : W

inductive Outcome (Q : Type) (Ans : Q → Type) (ε W : Type) where
  | ok
  /-- A database error of the environment; the failed statement may have taken the write lock. -/
  | fail (message : String) (locks : Bool)
  | cancel (performed : Bool)
  | answer (f : ∀ q, Except ε (Ans q)) (w : W)

/-- The statement or commit has run, whether or not the caller learns it. -/
def Outcome.performs {Q : Type} {Ans : Q → Type} {ε W : Type} : Outcome Q Ans ε W → Bool
  | .ok => true
  | .cancel performed => performed
  | _ => false

namespace Shared

variable {D S W : Type}

def setLock (σ : Shared D S W) (i : InstId) (o : Option TaskId) : Shared D S W :=
  { σ with handles := Function.update σ.handles i { σ.handles i with lock := o } }

def setDb (σ : Shared D S W) (i : InstId) (o : Option ConnId) : Shared D S W :=
  { σ with handles := Function.update σ.handles i { σ.handles i with db := o } }

/-- After a statement or commit of a task on a connection, which left the file `f`. -/
def after {α : Type} (σ : Shared D S W) (f : File D S) (t : TaskId) (c : ConnId) :
    Except SqlError α → Shared D S W
  | .ok _ => { σ with file := f }
  | .error _ => { σ with file := f, failed := (t, c) :: σ.failed }

end Shared

section Effect

variable {D S W Q ε : Type} {Ans : Q → Type} [SqlStatement S D] [Raises ε]

def raised {α : Type} (r : Except SqlError α) : Except ε α := r.mapError Raises.sql

/-- The result a task of an instance gets from its operation and the state it leaves; `none`
where the operation cannot have that outcome now. -/
def effect (i : InstId) (t : TaskId) (σ : Shared D S W) : (op : Op S Q) →
    Outcome Q Ans ε W → Option (Except ε (op.Res D Ans) × Shared D S W)
  | .connection, .ok =>
    match (σ.handles i).db with
    | some c => some (.ok c, σ)
    | none => some (.error Raises.notOpen, σ)
  | .acquire, .ok => if (σ.handles i).lock = none then some (.ok (), σ.setLock i (some t)) else none
  | .acquire, .cancel _ => some (.error Raises.cancelled, σ)
  | .release, .ok => some (.ok (), σ.setLock i none)
  | .select c, .ok =>
    if c ∈ σ.file.opened then some (.ok (σ.file.view c).data, σ)
    else some (.error (Raises.sql .closed), σ)
  | .select _, .fail m _ => some (.error (Raises.sql (.failed m)), σ)
  | .select _, .cancel _ => some (.error Raises.cancelled, σ)
  | .execute c s, .ok =>
    some (raised (σ.file.execute t c s).1, σ.after (σ.file.execute t c s).2 t c (σ.file.execute t c s).1)
  | .execute c _, .fail m locks =>
    some (.error (Raises.sql (.failed m)),
      σ.after (if locks ∧ σ.file.MayWrite c then σ.file.lock c else σ.file) t c
        (.error (.failed m) : Except SqlError Unit))
  | .execute c s, .cancel performed =>
    some (.error Raises.cancelled,
      if performed then { σ with file := (σ.file.execute t c s).2 } else σ)
  | .commit c, .ok =>
    some (raised (σ.file.commit c).1, σ.after (σ.file.commit c).2 t c (σ.file.commit c).1)
  | .commit c, .fail m _ =>
    some (.error (Raises.sql (.failed m)), σ.after σ.file t c (.error (.failed m) : Except SqlError Unit))
  | .commit c, .cancel performed =>
    some (.error Raises.cancelled,
      if performed then { σ with file := (σ.file.commit c).2 } else σ)
  | .external q, .answer f w => some (f q, { σ with world := w })
  | .external _, .cancel _ => some (.error Raises.cancelled, σ)
  | _, _ => none

end Effect

namespace Shared

variable {D S W : Type}

@[simp] theorem setLock_db (σ : Shared D S W) (i j : InstId) (o : Option TaskId) :
    ((σ.setLock i o).handles j).db = (σ.handles j).db := by
  by_cases h : j = i
  · subst h; simp [setLock]
  · simp [setLock, h]

@[simp] theorem setDb_lock (σ : Shared D S W) (i j : InstId) (o : Option ConnId) :
    ((σ.setDb i o).handles j).lock = (σ.handles j).lock := by
  by_cases h : j = i
  · subst h; simp [setDb]
  · simp [setDb, h]

@[simp] theorem setLock_lock_self (σ : Shared D S W) (i : InstId) (o : Option TaskId) :
    ((σ.setLock i o).handles i).lock = o := by
  simp [setLock]

theorem setLock_lock_of_ne (σ : Shared D S W) {i j : InstId} (o : Option TaskId) (h : j ≠ i) :
    ((σ.setLock i o).handles j).lock = (σ.handles j).lock := by
  simp [setLock, h]

@[simp] theorem setDb_db_self (σ : Shared D S W) (i : InstId) (o : Option ConnId) :
    ((σ.setDb i o).handles i).db = o := by
  simp [setDb]

theorem setDb_db_of_ne (σ : Shared D S W) {i j : InstId} (o : Option ConnId) (h : j ≠ i) :
    ((σ.setDb i o).handles j).db = (σ.handles j).db := by
  simp [setDb, h]

/-- The task holds a lock, has a statement in the file, or has failed. -/
def Mentions (σ : Shared D S W) (t : TaskId) : Prop :=
  (∃ i, (σ.handles i).lock = some t) ∨ (∃ e ∈ σ.file.committed.journal, e.1 = t) ∨
    (∃ p ∈ σ.file.pending, ∃ e ∈ p.2.journal, e.1 = t) ∨ ∃ p ∈ σ.failed, p.1 = t

end Shared

section Inversion

variable {D S W Q ε : Type} {Ans : Q → Type} [SqlStatement S D] [Raises ε]
variable {i : InstId} {t : TaskId} {σ σ' : Shared D S W} {o : Outcome Q Ans ε W}

attribute [local simp] effect

theorem effect_connection {r : Except ε ConnId}
    (h : effect (S := S) i t σ .connection o = some (r, σ')) :
    σ' = σ ∧ ((∃ c, (σ.handles i).db = some c ∧ r = .ok c) ∨
      ((σ.handles i).db = none ∧ r = .error Raises.notOpen)) := by
  cases o <;> simp only [effect, reduceCtorEq] at h
  split at h <;> cases h
  · exact ⟨rfl, .inl ⟨_, by assumption, rfl⟩⟩
  · exact ⟨rfl, .inr ⟨by assumption, rfl⟩⟩

theorem effect_acquire {r : Except ε Unit} (h : effect (S := S) i t σ .acquire o = some (r, σ')) :
    ((σ.handles i).lock = none ∧ r = .ok () ∧ σ' = σ.setLock i (some t)) ∨
      (r = .error Raises.cancelled ∧ σ' = σ) := by
  cases o <;> simp only [effect, reduceCtorEq] at h
  · split at h <;> cases h
    exact .inl ⟨by assumption, rfl, rfl⟩
  · cases h
    exact .inr ⟨rfl, rfl⟩

theorem effect_release {r : Except ε Unit} (h : effect (S := S) i t σ .release o = some (r, σ')) :
    r = .ok () ∧ σ' = σ.setLock i none := by
  cases o <;> simp only [effect, reduceCtorEq] at h
  cases h
  exact ⟨rfl, rfl⟩

theorem effect_select {c : ConnId} {r : Except ε D}
    (h : effect (S := S) i t σ (.select c) o = some (r, σ')) :
    σ' = σ ∧ ((c ∈ σ.file.opened ∧ r = .ok (σ.file.view c).data) ∨ ∃ e, r = .error e) := by
  cases o <;> simp only [effect, reduceCtorEq] at h
  · split at h <;> cases h
    · exact ⟨rfl, .inl ⟨by assumption, rfl⟩⟩
    · exact ⟨rfl, .inr ⟨_, rfl⟩⟩
  all_goals cases h; exact ⟨rfl, .inr ⟨_, rfl⟩⟩

theorem effect_external {q : Q} {r : Except ε (Ans q)}
    (h : effect (S := S) i t σ (.external q) o = some (r, σ')) :
    (∃ f w, o = .answer f w ∧ r = f q ∧ σ' = { σ with world := w }) ∨
      (r = .error Raises.cancelled ∧ σ' = σ) := by
  cases o <;> simp only [effect, reduceCtorEq] at h
  · cases h
    exact .inr ⟨rfl, rfl⟩
  · cases h
    exact .inl ⟨_, _, rfl, rfl, rfl⟩

/-- What a statement can do: append its change to what its connection sees, or raise, with the
write lock possibly taken. -/
theorem effect_execute {c : ConnId} {s : S} {r : Except ε ℤ}
    (h : effect i t σ (.execute c s) o = some (r, σ')) :
    (∃ d n, σ.file.MayWrite c ∧ exec s (σ.file.view c).data = .ok (d, n) ∧
      (r = .ok n ∨ r = .error Raises.cancelled) ∧
      σ' = { σ with file := σ.file.write c ⟨d, (σ.file.view c).journal ++ [(t, s, n)]⟩ }) ∨
    (∃ e f l, r = .error e ∧ (f = σ.file ∨ (σ.file.MayWrite c ∧ f = σ.file.lock c)) ∧
      (l = σ.failed ∨ l = (t, c) :: σ.failed) ∧ σ' = { σ with file := f, failed := l }) := by
  cases hx : σ.file.execute t c s with | mk x f => ?_
  cases o <;> simp only [effect, reduceCtorEq, hx] at h
  · cases h
    rcases File.execute_cases hx with ⟨d, n, hw, he, rfl, rfl⟩ | ⟨e, hw, rfl, rfl⟩ | ⟨e, rfl, rfl⟩
    · exact .inl ⟨d, n, hw, he, .inl rfl, rfl⟩
    · exact .inr ⟨_, _, _, rfl, .inr ⟨hw, rfl⟩, .inr rfl, rfl⟩
    · exact .inr ⟨_, _, _, rfl, .inl rfl, .inr rfl, rfl⟩
  · cases h
    refine .inr ⟨_, _, _, rfl, ?_, .inr rfl, rfl⟩
    split
    · exact .inr ⟨(by assumption : _ ∧ _).2, rfl⟩
    · exact .inl rfl
  · cases h
    split
    · rcases File.execute_cases hx with ⟨d, n, hw, he, rfl, rfl⟩ | ⟨e, hw, rfl, rfl⟩ | ⟨e, rfl, rfl⟩
      · exact .inl ⟨d, n, hw, he, .inr rfl, rfl⟩
      · exact .inr ⟨_, _, _, rfl, .inr ⟨hw, rfl⟩, .inl rfl, rfl⟩
      · exact .inr ⟨_, _, _, rfl, .inl rfl, .inl rfl, rfl⟩
    · exact .inr ⟨_, _, _, rfl, .inl rfl, .inl rfl, rfl⟩

/-- Only a statement that has run changes what its connection sees. -/
theorem performs_of_effect_execute {c : ConnId} {s : S} {r : Except ε ℤ}
    (h : effect i t σ (.execute c s) o = some (r, σ')) (hv : σ'.file.view c ≠ σ.file.view c) : o.performs := by
  cases o with
  | ok => rfl
  | fail m locks =>
    cases h
    refine absurd ?_ hv
    show (if locks ∧ σ.file.MayWrite c then σ.file.lock c else σ.file).view c = σ.file.view c
    split
    · exact File.view_lock _ _ _ (by assumption : _ ∧ _).2
    · rfl
  | cancel performed =>
    cases h
    cases performed with
    | true => rfl
    | false => exact absurd rfl hv
  | answer f w => cases h

theorem performs_of_write {c : ConnId} {s : S} {r : Except ε ℤ} {d : D} {n : ℤ}
    (h : effect i t σ (.execute c s) o =
      some (r, { σ with file := σ.file.write c ⟨d, (σ.file.view c).journal ++ [(t, s, n)]⟩ })) : o.performs := by
  refine performs_of_effect_execute h fun hsame => ?_
  have hjournal := congrArg Version.journal ((File.view_write_self _ _ _).symm.trans hsame)
  simp at hjournal

/-- A statement that may run, and that its constraints accept, runs if it is performed. -/
theorem write_of_performs {c : ConnId} {s : S} {r : Except ε ℤ} {d : D} {n : ℤ}
    (h : effect i t σ (.execute c s) o = some (r, σ')) (hran : o.performs) (hw : σ.file.MayWrite c)
    (hex : exec s (σ.file.view c).data = .ok (d, n)) :
    σ' = { σ with file := σ.file.write c ⟨d, (σ.file.view c).journal ++ [(t, s, n)]⟩ } := by
  have hx : σ.file.execute t c s = (.ok n, σ.file.write c ⟨d, (σ.file.view c).journal ++ [(t, s, n)]⟩) := by
    simp only [File.execute, if_pos hw, hex]
  cases o with
  | ok =>
    simp only [effect, hx] at h
    cases h
    rfl
  | cancel performed =>
    obtain rfl : performed = true := hran
    simp only [effect, hx] at h
    cases h
    rfl
  | _ => cases hran

/-- What a commit can do: publish what its connection has written, find nothing to publish,
or raise. -/
theorem effect_commit {c : ConnId} {r : Except ε Unit}
    (h : effect (S := S) i t σ (.commit c) o = some (r, σ')) :
    (∃ v, c ∈ σ.file.opened ∧ σ.file.pending = some (c, v) ∧
      (r = .ok () ∨ r = .error Raises.cancelled) ∧
      σ' = { σ with file := { σ.file with committed := v, pending := none } }) ∨
    (c ∈ σ.file.opened ∧ (∀ p ∈ σ.file.pending, p.1 ≠ c) ∧
      (r = .ok () ∨ r = .error Raises.cancelled) ∧ σ' = σ) ∨
    (∃ e l, r = .error e ∧ (l = σ.failed ∨ l = (t, c) :: σ.failed) ∧ σ' = { σ with failed := l }) := by
  cases hx : σ.file.commit c with | mk x f => ?_
  cases o <;> simp only [effect, reduceCtorEq, hx] at h
  · cases h
    rcases File.commit_cases hx with ⟨ho, rfl, v, hp, rfl⟩ | ⟨ho, rfl, hp, rfl⟩ | ⟨ho, ⟨e, rfl⟩, rfl⟩
    · exact .inl ⟨v, ho, hp, .inl rfl, rfl⟩
    · exact .inr (.inl ⟨ho, hp, .inl rfl, rfl⟩)
    · exact .inr (.inr ⟨_, _, rfl, .inr rfl, rfl⟩)
  · cases h
    exact .inr (.inr ⟨_, _, rfl, .inr rfl, rfl⟩)
  · cases h
    split
    · rcases File.commit_cases hx with ⟨ho, rfl, v, hp, rfl⟩ | ⟨ho, rfl, hp, rfl⟩ | ⟨ho, ⟨e, rfl⟩, rfl⟩
      · exact .inl ⟨v, ho, hp, .inr rfl, rfl⟩
      · exact .inr (.inl ⟨ho, hp, .inr rfl, rfl⟩)
      · exact .inr (.inr ⟨_, _, rfl, .inl rfl, rfl⟩)
    · exact .inr (.inr ⟨_, _, rfl, .inl rfl, rfl⟩)

/-- A step mentions only the task that takes it anew. -/
theorem effect_mentions {op : Op S Q} {r : Except ε (op.Res D Ans)} {u : TaskId}
    (h : effect i t σ op o = some (r, σ')) (hu : u ≠ t) (hm : σ'.Mentions u) : σ.Mentions u := by
  have hview (c : ConnId) : (∃ e ∈ (σ.file.view c).journal, e.1 = u) → σ.Mentions u := by
    intro hj
    cases hp : σ.file.pending with
    | none => simp only [File.view, hp] at hj; exact .inr (.inl hj)
    | some p =>
      by_cases hc : p.1 = c
      · simp only [File.view, hp, if_pos hc] at hj; exact .inr (.inr (.inl ⟨p, hp, hj⟩))
      · simp only [File.view, hp, if_neg hc] at hj; exact .inr (.inl hj)
  have hlock (j : InstId) (x : Option TaskId) (hx : x ≠ some u) (hm : (σ.setLock j x).Mentions u) :
      σ.Mentions u := by
    rcases hm with ⟨k, hk⟩ | hm
    · by_cases hkj : k = j
      · subst hkj
        rw [Shared.setLock_lock_self] at hk
        exact absurd hk hx
      · exact .inl ⟨k, by rwa [Shared.setLock_lock_of_ne σ x hkj] at hk⟩
    · exact .inr hm
  cases op with
  | connection => exact (effect_connection h).1 ▸ hm
  | acquire =>
    rcases effect_acquire h with ⟨-, -, rfl⟩ | ⟨-, rfl⟩
    · exact hlock i (some t) (by simpa using hu.symm) hm
    · exact hm
  | release =>
    obtain ⟨-, rfl⟩ := effect_release h
    exact hlock i none (by simp) hm
  | select c => exact (effect_select h).1 ▸ hm
  | external q =>
    rcases effect_external h with ⟨f, w, -, -, rfl⟩ | ⟨-, rfl⟩ <;> exact hm
  | execute c s =>
    rcases effect_execute h with ⟨d, n, -, -, -, rfl⟩ | ⟨e, f, l, -, hf, hl, rfl⟩
    · rcases hm with hm | hm | ⟨p, hp, e, he, heu⟩ | hm
      · exact .inl hm
      · exact .inr (.inl hm)
      · cases hp
        rcases List.mem_append.mp he with he | he
        · exact hview c ⟨e, he, heu⟩
        · cases List.mem_singleton.mp he
          exact absurd heu.symm hu
      · exact .inr (.inr (.inr hm))
    · rcases hm with hm | hm | ⟨p, hp, hm⟩ | ⟨p, hp, hpu⟩
      · exact .inl hm
      · rcases hf with rfl | ⟨-, rfl⟩ <;> exact .inr (.inl hm)
      · rcases hf with rfl | ⟨-, rfl⟩
        · exact .inr (.inr (.inl ⟨p, hp, hm⟩))
        · cases hp
          exact hview c hm
      · rcases hl with rfl | rfl
        · exact .inr (.inr (.inr ⟨p, hp, hpu⟩))
        · rcases List.mem_cons.mp hp with rfl | hp
          · exact absurd hpu.symm hu
          · exact .inr (.inr (.inr ⟨p, hp, hpu⟩))
  | commit c =>
    rcases effect_commit h with ⟨v, -, hp, -, rfl⟩ | ⟨-, -, -, rfl⟩ | ⟨e, l, -, hl, rfl⟩
    · rcases hm with hm | hm | ⟨p, hp', -⟩ | hm
      · exact .inl hm
      · exact .inr (.inr (.inl ⟨_, hp, hm⟩))
      · cases hp'
      · exact .inr (.inr (.inr hm))
    · exact hm
    · rcases hm with hm | hm | hm | ⟨p, hp, hpu⟩
      · exact .inl hm
      · exact .inr (.inl hm)
      · exact .inr (.inr (.inl hm))
      · rcases hl with rfl | rfl
        · exact .inr (.inr (.inr ⟨p, hp, hpu⟩))
        · rcases List.mem_cons.mp hp with rfl | hp
          · exact absurd hpu.symm hu
          · exact .inr (.inr (.inr ⟨p, hp, hpu⟩))

end Inversion

section

variable {D S W : Type}

/-- The instance's connection is closed; the instance still refers to it until `detach`. -/
def closeShared (i : InstId) (σ : Shared D S W) : Option (Shared D S W) :=
  match (σ.handles i).db with
  | some c => some { σ with file := σ.file.close c }
  | none => none

def detachShared (i : InstId) (σ : Shared D S W) : Option (Shared D S W) :=
  match (σ.handles i).db with
  | some c => if c ∈ σ.file.opened then none else some (σ.setDb i none)
  | none => none

def connectShared (i : InstId) (σ : Shared D S W) : Option (Shared D S W) :=
  match (σ.handles i).db with
  | some _ => none
  | none => some { σ.setDb i (some σ.nextConn) with
      file := σ.file.connect σ.nextConn, nextConn := σ.nextConn + 1 }

end

section Lifecycle

variable {D S W : Type} {i : InstId} {σ σ' : Shared D S W}

theorem connectShared_some (h : connectShared i σ = some σ') :
    (σ.handles i).db = none ∧ σ' = { σ.setDb i (some σ.nextConn) with
      file := σ.file.connect σ.nextConn, nextConn := σ.nextConn + 1 } := by
  unfold connectShared at h
  split at h <;> cases h
  exact ⟨by assumption, rfl⟩

theorem closeShared_some (h : closeShared i σ = some σ') :
    ∃ c, (σ.handles i).db = some c ∧ σ' = { σ with file := σ.file.close c } := by
  unfold closeShared at h
  split at h <;> cases h
  exact ⟨_, by assumption, rfl⟩

theorem detachShared_some (h : detachShared i σ = some σ') :
    ∃ c, (σ.handles i).db = some c ∧ c ∉ σ.file.opened ∧ σ' = σ.setDb i none := by
  unfold detachShared at h
  split at h <;> try cases h
  split at h <;> cases h
  exact ⟨_, by assumption, by assumption, rfl⟩

theorem mentions_setDb {j : InstId} {x : Option ConnId} {t : TaskId} (hm : (σ.setDb j x).Mentions t) :
    σ.Mentions t := by
  rcases hm with ⟨k, hk⟩ | hm
  · exact .inl ⟨k, by rwa [Shared.setDb_lock] at hk⟩
  · exact .inr hm

theorem connectShared_mentions {t : TaskId} (h : connectShared i σ = some σ') (hm : σ'.Mentions t) :
    σ.Mentions t := by
  obtain ⟨-, rfl⟩ := connectShared_some h
  exact mentions_setDb (j := i) (x := some σ.nextConn) hm

theorem closeShared_mentions {t : TaskId} (h : closeShared i σ = some σ') (hm : σ'.Mentions t) :
    σ.Mentions t := by
  obtain ⟨c, -, rfl⟩ := closeShared_some h
  rcases hm with hm | hm | ⟨p, hp, hm⟩ | hm
  · exact .inl hm
  · exact .inr (.inl hm)
  · exact .inr (.inr (.inl ⟨p, (Option.filter_eq_some_iff.mp hp).1, hm⟩))
  · exact .inr (.inr (.inr hm))

theorem detachShared_mentions {t : TaskId} (h : detachShared i σ = some σ') (hm : σ'.Mentions t) :
    σ.Mentions t := by
  obtain ⟨c, -, -, rfl⟩ := detachShared_some h
  exact mentions_setDb hm

end Lifecycle

section System

variable {D S W Q ε C R : Type} {Ans : Q → Type} [SqlStatement S D] [Raises ε]

structure Task (D S Q : Type) (Ans : Q → Type) (ε C R : Type) where
  inst : InstId
  call : C
  prog : Prog D S Q Ans ε R

structure Sys (D S W Q : Type) (Ans : Q → Type) (ε C R : Type) where
  shared : Shared D S W
  tasks : List (Task D S Q Ans ε C R)

inductive Event (Q : Type) (Ans : Q → Type) (ε W C : Type) where
  | call (i : InstId) (c : C)
  | run (t : TaskId) (o : Outcome Q Ans ε W)
  | connect (i : InstId)
  | close (i : InstId)
  | detach (i : InstId)

/-- The task performs its next operation. -/
def runTask (t : TaskId) (o : Outcome Q Ans ε W) (s : Sys D S W Q Ans ε C R) :
    Option (Sys D S W Q Ans ε C R) :=
  match s.tasks[t]? with
  | some ⟨i, call, .perform op k⟩ =>
    match effect i t s.shared op o with
    | some (r, σ) => some ⟨σ, s.tasks.set t ⟨i, call, k r⟩⟩
    | none => none
  | _ => none

def step (body : C → Prog D S Q Ans ε R) (s : Sys D S W Q Ans ε C R) :
    Event Q Ans ε W C → Option (Sys D S W Q Ans ε C R)
  | .call i c => some ⟨s.shared, s.tasks ++ [⟨i, c, body c⟩]⟩
  | .run t o => runTask t o s
  | .connect i => (connectShared i s.shared).map (fun σ => { s with shared := σ })
  | .close i => (closeShared i s.shared).map (fun σ => { s with shared := σ })
  | .detach i => (detachShared i s.shared).map (fun σ => { s with shared := σ })

/-- What runs are considered: the calls made, the outcomes the environment may choose for an
operation of a task, and when connections are opened and closed. -/
structure Rules (D S W Q : Type) (Ans : Q → Type) (ε C : Type) where
  calls : InstId → C → Prop
  env : InstId → TaskId → Op S Q → Outcome Q Ans ε W → Shared D S W → Prop
  connects : InstId → Shared D S W → Prop
  closes : InstId → Shared D S W → Prop

def Rules.all : Rules D S W Q Ans ε C :=
  ⟨fun _ _ => True, fun _ _ _ _ _ => True, fun _ _ => True, fun _ _ => True⟩

def Rules.Allows (R' : Rules D S W Q Ans ε C) (s : Sys D S W Q Ans ε C R) : Event Q Ans ε W C → Prop
  | .call i c => R'.calls i c
  | .run t o => ∀ i call op k, s.tasks[t]? = some ⟨i, call, .perform op k⟩ → R'.env i t op o s.shared
  | .connect i => R'.connects i s.shared
  | .close i => R'.closes i s.shared
  | .detach _ => True

def Step (body : C → Prog D S Q Ans ε R) (rules : Rules D S W Q Ans ε C)
    (s s' : Sys D S W Q Ans ε C R) : Prop :=
  ∃ e, rules.Allows s e ∧ step body s e = some s'

abbrev Run (body : C → Prog D S Q Ans ε R) (rules : Rules D S W Q Ans ε C) :
    Sys D S W Q Ans ε C R → Sys D S W Q Ans ε C R → Prop :=
  Relation.ReflTransGen (Step body rules)

theorem run_mono {body : C → Prog D S Q Ans ε R} {rules rules' : Rules D S W Q Ans ε C}
    (hallow : ∀ (s : Sys D S W Q Ans ε C R) e, rules.Allows s e → rules'.Allows s e)
    {s s' : Sys D S W Q Ans ε C R} (h : Run body rules s s') : Run body rules' s s' := by
  induction h with
  | refl => exact .refl
  | tail _ hstep ih =>
    obtain ⟨e, ha, he⟩ := hstep
    exact ih.tail ⟨e, hallow _ e ha, he⟩

/-- Runs whose steps meet a condition on the state that they start from and the event. -/
abbrev RunWhere (body : C → Prog D S Q Ans ε R) (P : Sys D S W Q Ans ε C R → Event Q Ans ε W C → Prop) :
    Sys D S W Q Ans ε C R → Sys D S W Q Ans ε C R → Prop :=
  Relation.ReflTransGen fun s s' => ∃ e, P s e ∧ step body s e = some s'

/-- A run whose states have an invariant is one of rules that are stricter where it holds. -/
theorem runWhere_strengthen {body : C → Prog D S Q Ans ε R}
    {P P' : Sys D S W Q Ans ε C R → Event Q Ans ε W C → Prop} {inv : Sys D S W Q Ans ε C R → Prop}
    (hstep : ∀ s s' e, inv s → P s e → step body s e = some s' → inv s')
    (hallow : ∀ s s' e, inv s → P s e → step body s e = some s' → P' s e)
    {s s' : Sys D S W Q Ans ε C R} (hs : inv s) (h : RunWhere body P s s') : RunWhere body P' s s' ∧ inv s' := by
  induction h with
  | refl => exact ⟨.refl, hs⟩
  | tail _ hlast ih =>
    obtain ⟨hrun, hinv⟩ := ih
    obtain ⟨e, hp, he⟩ := hlast
    exact ⟨hrun.tail ⟨e, hallow _ _ e hinv hp he, he⟩, hstep _ _ e hinv hp he⟩

theorem run_strengthen {body : C → Prog D S Q Ans ε R} {rules rules' : Rules D S W Q Ans ε C}
    {inv : Sys D S W Q Ans ε C R → Prop} (hstep : ∀ s s', inv s → Step body rules s s' → inv s')
    (hallow : ∀ s e, inv s → rules.Allows s e → rules'.Allows s e) {s s' : Sys D S W Q Ans ε C R} (hs : inv s)
    (h : Run body rules s s') : Run body rules' s s' ∧ inv s' :=
  runWhere_strengthen (fun s s' e hi ha he => hstep s s' hi ⟨e, ha, he⟩) (fun s _ e hi ha _ => hallow s e hi ha) hs h

def runEvents (body : C → Prog D S Q Ans ε R) (s : Sys D S W Q Ans ε C R)
    (es : List (Event Q Ans ε W C)) : Option (Sys D S W Q Ans ε C R) :=
  es.foldlM (step body) s

theorem run_of_events {body : C → Prog D S Q Ans ε R} {rules : Rules D S W Q Ans ε C} {s s' : Sys D S W Q Ans ε C R}
    {es : List (Event Q Ans ε W C)} (hes : ∀ e ∈ es, ∀ s : Sys D S W Q Ans ε C R, rules.Allows s e)
    (h : runEvents body s es = some s') : Run body rules s s' := by
  induction es generalizing s with
  | nil => cases h; exact .refl
  | cons e es ih =>
    obtain ⟨he, hes⟩ := List.forall_mem_cons.mp hes
    simp only [runEvents, List.foldlM_cons] at h
    obtain ⟨s₁, hs₁, h⟩ := Option.bind_eq_some_iff.mp h
    exact .head ⟨e, he s, hs₁⟩ (ih hes h)

theorem run_of_runEvents {body : C → Prog D S Q Ans ε R} {s s' : Sys D S W Q Ans ε C R}
    {es : List (Event Q Ans ε W C)} (h : runEvents body s es = some s') : Run body Rules.all s s' :=
  run_of_events (fun e _ s => by cases e <;> simp [Rules.Allows, Rules.all]) h

instance {rules : Rules D S W Q Ans ε C} [∀ i c, Decidable (rules.calls i c)]
    [∀ i t op o σ, Decidable (rules.env i t op o σ)] [∀ i σ, Decidable (rules.connects i σ)]
    [∀ i σ, Decidable (rules.closes i σ)] (s : Sys D S W Q Ans ε C R) :
    (e : Event Q Ans ε W C) → Decidable (rules.Allows s e)
  | .call i c => inferInstanceAs (Decidable (rules.calls i c))
  | .run t o =>
    match h : s.tasks[t]? with
    | some ⟨i, call, .perform op k⟩ =>
      decidable_of_iff (rules.env i t op o s.shared)
        ⟨fun henv _ _ _ _ h' => by rw [h] at h'; cases h'; exact henv, fun ha => ha i call op k h⟩
    | some ⟨i, call, .done r⟩ => .isTrue fun _ _ _ _ h' => by rw [h] at h'; cases h'
    | none => .isTrue fun _ _ _ _ h' => by rw [h] at h'; cases h'
  | .connect i => inferInstanceAs (Decidable (rules.connects i s.shared))
  | .close i => inferInstanceAs (Decidable (rules.closes i s.shared))
  | .detach _ => .isTrue trivial

/-- The run of the events, as far as the rules allow them. -/
def runAllowed (body : C → Prog D S Q Ans ε R) (rules : Rules D S W Q Ans ε C)
    [∀ (s : Sys D S W Q Ans ε C R) e, Decidable (rules.Allows s e)] (s : Sys D S W Q Ans ε C R)
    (es : List (Event Q Ans ε W C)) : Option (Sys D S W Q Ans ε C R) :=
  es.foldlM (fun s e => if rules.Allows s e then step body s e else none) s

theorem run_of_runAllowed {body : C → Prog D S Q Ans ε R} {rules rules' : Rules D S W Q Ans ε C}
    [∀ (s : Sys D S W Q Ans ε C R) e, Decidable (rules.Allows s e)] {s s' : Sys D S W Q Ans ε C R}
    {es : List (Event Q Ans ε W C)}
    (hes : ∀ e ∈ es, ∀ s : Sys D S W Q Ans ε C R, rules.Allows s e → rules'.Allows s e)
    (h : runAllowed body rules s es = some s') : Run body rules' s s' := by
  induction es generalizing s with
  | nil => cases h; exact .refl
  | cons e es ih =>
    obtain ⟨he, hes⟩ := List.forall_mem_cons.mp hes
    simp only [runAllowed, List.foldlM_cons] at h
    obtain ⟨s₁, hs₁, h⟩ := Option.bind_eq_some_iff.mp h
    split at hs₁
    · exact .head ⟨e, he s (by assumption), hs₁⟩ (ih hes h)
    · cases hs₁

end System

section Calls

variable {D S W Q ε C R : Type} {Ans : Q → Type}

/-- The calls among the events. -/
def callsOf (es : List (Event Q Ans ε W C)) : List (InstId × C) := es.filterMap fun e => match e with
  | .call i c => some (i, c)
  | .run _ _ | .connect _ | .close _ | .detach _ => none

variable {es es' : List (Event Q Ans ε W C)}

@[simp] theorem callsOf_nil : callsOf ([] : List (Event Q Ans ε W C)) = [] := rfl

@[simp] theorem callsOf_call (i : InstId) (c : C) : callsOf (.call i c :: es) = (i, c) :: callsOf es := rfl

@[simp] theorem callsOf_run (t : TaskId) (o : Outcome Q Ans ε W) : callsOf (.run t o :: es) = callsOf es := rfl

@[simp] theorem callsOf_connect (i : InstId) : callsOf (.connect i :: es) = callsOf es := rfl

@[simp] theorem callsOf_append : callsOf (es ++ es') = callsOf es ++ callsOf es' := List.filterMap_append

theorem mem_callsOf {i : InstId} {c : C} : (i, c) ∈ callsOf es ↔ .call i c ∈ es := by
  simp only [callsOf, List.mem_filterMap]
  constructor
  · rintro ⟨e, he, hcall⟩
    cases e <;> cases hcall
    exact he
  · exact fun he => ⟨_, he, rfl⟩

/-- The task performs its next operations, none of which fails. -/
def proceeds (t : TaskId) (n : ℕ) : List (Event Q Ans ε W C) := List.replicate n (.run t .ok)

/-- The task goes on until its request is answered. -/
def asks (answer : Outcome Q Ans ε W) (t : TaskId) (before : ℕ) : List (Event Q Ans ε W C) :=
  proceeds t before ++ [.run t answer]

/-- A call to its end, with so many operations before and after its request. -/
def callScript (answer : Outcome Q Ans ε W) (i : InstId) (t : TaskId) (c : C) (before after : ℕ) :
    List (Event Q Ans ε W C) :=
  .call i c :: (asks answer t before ++ proceeds t after)

@[simp] theorem callsOf_proceeds (t : TaskId) (n : ℕ) : callsOf (proceeds t n : List (Event Q Ans ε W C)) = [] := by
  induction n with
  | zero => rfl
  | succ n ih => exact ih

@[simp] theorem callsOf_asks (answer : Outcome Q Ans ε W) (t : TaskId) (before : ℕ) :
    callsOf (asks answer t before : List (Event Q Ans ε W C)) = [] := by
  simp [asks]

@[simp] theorem callsOf_callScript (answer : Outcome Q Ans ε W) (i : InstId) (t : TaskId) (c : C) (before after : ℕ) :
    callsOf (callScript answer i t c before after) = [(i, c)] := by
  simp [callScript]

/-- Rules for the calls only. -/
def Rules.onCalls (P : InstId → C → Prop) : Rules D S W Q Ans ε C :=
  ⟨P, fun _ _ _ _ _ => True, fun _ _ => True, fun _ _ => True⟩

/-- Every call has ended, with results that pass the check. -/
def Sys.endedWith (check : Except ε R → Bool) (s : Sys D S W Q Ans ε C R) : Bool :=
  s.tasks.all fun task => match task.prog with
    | .done r => check r
    | .perform _ _ => false

def Sys.allEnded (s : Sys D S W Q Ans ε C R) : Bool := s.endedWith fun _ => true

theorem Sys.result_of_endedWith {check : Except ε R → Bool} {s : Sys D S W Q Ans ε C R} (h : s.endedWith check) :
    ∀ task ∈ s.tasks, ∃ r, task.prog = .done r ∧ check r := by
  rintro ⟨i, c, p⟩ htask
  have hp := List.all_eq_true.mp h _ htask
  cases p with
  | done r => exact ⟨r, rfl, hp⟩
  | perform op k => cases hp

variable [SqlStatement S D] [Raises ε]

theorem run_of_calls {body : C → Prog D S Q Ans ε R} {P : InstId → C → Prop} {s s' : Sys D S W Q Ans ε C R}
    {es : List (Event Q Ans ε W C)} (hcalls : ∀ p ∈ callsOf es, P p.1 p.2) (h : runEvents body s es = some s') :
    Run body (Rules.onCalls P) s s' := by
  refine run_of_events (fun e he s => ?_) h
  cases e with
  | call i c => exact hcalls (i, c) (mem_callsOf.mpr he)
  | run | connect | close | detach => simp [Rules.Allows, Rules.onCalls]

end Calls
end NexusCone.AsyncSystem
