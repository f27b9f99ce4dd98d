import NexusCone.SharedFile

/-!
# Programs of one task

A program is a tree of operations on a shared database file: the requests a task awaits, each
with a continuation for its result or its exception. Every point between two operations is a
point where other tasks may run.
-/
namespace NexusCone.AsyncProgram
open SharedFile

inductive Op (S Q : Type) where
  | connection
  | acquire
  | release
  | select (c : ConnId)
  | execute (c : ConnId) (s : S)
  | commit (c : ConnId)
  | external (q : Q)
  deriving DecidableEq

/-- A `select` answers with the contents its connection sees. -/
abbrev Op.Res {S Q : Type} (D : Type) (Ans : Q → Type) : Op S Q → Type
  | .connection => ConnId
  | .acquire => Unit
  | .release => Unit
  | .select _ => D
  | .execute _ _ => ℤ
  | .commit _ => Unit
  | .external q => Ans q

section

variable {S Q : Type}

/-- Operations that neither write nor touch the lock. -/
structure AllowsReads (allowed : Op S Q → Prop) : Prop where
  connection : allowed .connection
  select : ∀ c, allowed (.select c)
  external : ∀ q, allowed (.external q)

def Op.isRead : Op S Q → Prop
  | .connection | .select _ | .external _ => True
  | _ => False

/-- Statements as the predicate says, and every other operation. -/
def Op.executes (statement : S → Prop) : Op S Q → Prop
  | .execute _ s => statement s
  | _ => True

/-- What may happen under a lock: reads, commits, and statements as the predicate says. -/
def Op.inside (statement : S → Prop) : Op S Q → Prop
  | .execute _ s => statement s
  | .acquire | .release => False
  | _ => True

theorem allowsReads_isRead : AllowsReads (Op.isRead : Op S Q → Prop) :=
  ⟨trivial, fun _ => trivial, fun _ => trivial⟩

theorem allowsReads_inside (statement : S → Prop) : AllowsReads (Op.inside statement : Op S Q → Prop) :=
  ⟨trivial, fun _ => trivial, fun _ => trivial⟩

end

inductive Prog (D S Q : Type) (Ans : Q → Type) (ε α : Type) where
  | done (r : Except ε α)
  | perform (op : Op S Q) (k : Except ε (op.Res D Ans) → Prog D S Q Ans ε α)

namespace Prog

variable {D S Q : Type} {Ans : Q → Type} {ε α β : Type}

def bind : Prog D S Q Ans ε α → (α → Prog D S Q Ans ε β) → Prog D S Q Ans ε β
  | .done (.ok a), f => f a
  | .done (.error e), _ => .done (.error e)
  | .perform op k, f => .perform op (fun r => (k r).bind f)

instance : Monad (Prog D S Q Ans ε) where
  pure a := .done (.ok a)
  bind := bind

def raise (e : ε) : Prog D S Q Ans ε α := .done (.error e)

/-- The program with its exception as a result. -/
def attempt : Prog D S Q Ans ε α → Prog D S Q Ans ε (Except ε α)
  | .done r => .done (.ok r)
  | .perform op k => .perform op (fun r => (k r).attempt)

def connection : Prog D S Q Ans ε ConnId := .perform .connection .done
def acquire : Prog D S Q Ans ε Unit := .perform .acquire .done
def release : Prog D S Q Ans ε Unit := .perform .release .done
def select (c : ConnId) : Prog D S Q Ans ε D := .perform (.select c) .done
def execute (c : ConnId) (s : S) : Prog D S Q Ans ε ℤ := .perform (.execute c s) .done
def commit (c : ConnId) : Prog D S Q Ans ε Unit := .perform (.commit c) .done
def external (q : Q) : Prog D S Q Ans ε (Ans q) := .perform (.external q) .done

/-- `async with lock`: the lock is given back whether or not the body raises. -/
def withLock (body : Prog D S Q Ans ε α) : Prog D S Q Ans ε α := do
  acquire
  let r ← body.attempt
  release
  .done r

@[simp] theorem pure_eq (a : α) : (pure a : Prog D S Q Ans ε α) = .done (.ok a) := rfl

@[simp] theorem ok_bind (a : α) (f : α → Prog D S Q Ans ε β) : (.done (.ok a) >>= f) = f a := rfl

@[simp] theorem error_bind (e : ε) (f : α → Prog D S Q Ans ε β) :
    (.done (.error e) >>= f) = .done (.error e) := rfl

@[simp] theorem perform_bind (op : Op S Q) (k : Except ε (op.Res D Ans) → Prog D S Q Ans ε α)
    (f : α → Prog D S Q Ans ε β) : (.perform op k >>= f) = .perform op (fun r => k r >>= f) := rfl

theorem bind_assoc' {γ : Type} (p : Prog D S Q Ans ε α) (f : α → Prog D S Q Ans ε β)
    (g : β → Prog D S Q Ans ε γ) : (p >>= f) >>= g = p >>= fun a => f a >>= g := by
  induction p with
  | done r => cases r <;> rfl
  | perform op k ih => exact congrArg (perform op) (funext ih)

theorem bind_pure' (p : Prog D S Q Ans ε α) : (p >>= fun a => .done (.ok a)) = p := by
  induction p with
  | done r => cases r <;> rfl
  | perform op k ih => exact congrArg (perform op) (funext ih)

instance : LawfulMonad (Prog D S Q Ans ε) :=
  LawfulMonad.mk' _ bind_pure' (fun _ _ => rfl) bind_assoc'

/-- Every operation the program can perform is allowed. -/
def Uses (allowed : Op S Q → Prop) : Prog D S Q Ans ε α → Prop
  | .done _ => True
  | .perform op k => allowed op ∧ ∀ r, (k r).Uses allowed

section Uses

variable {allowed : Op S Q → Prop}

theorem Uses.mono {p : Prog D S Q Ans ε α} {allowed' : Op S Q → Prop} (hp : p.Uses allowed)
    (h : ∀ op, allowed op → allowed' op) : p.Uses allowed' := by
  induction p with
  | done r => exact trivial
  | perform op k ih => exact ⟨h op hp.1, fun r => ih r (hp.2 r)⟩

theorem uses_of_forall (h : ∀ op, allowed op) (p : Prog D S Q Ans ε α) : p.Uses allowed := by
  induction p with
  | done r => exact trivial
  | perform op k ih => exact ⟨h op, ih⟩

theorem Uses.bind {p : Prog D S Q Ans ε α} {f : α → Prog D S Q Ans ε β} (hp : p.Uses allowed)
    (hf : ∀ a, (f a).Uses allowed) : (p >>= f).Uses allowed := by
  induction p with
  | done r =>
    cases r with
    | ok a => exact hf a
    | error e => exact trivial
  | perform op k ih => exact ⟨hp.1, fun r => ih r (hp.2 r)⟩

theorem Uses.attempt {p : Prog D S Q Ans ε α} (hp : p.Uses allowed) : p.attempt.Uses allowed := by
  induction p with
  | done r => exact trivial
  | perform op k ih => exact ⟨hp.1, fun r => ih r (hp.2 r)⟩

theorem uses_done (r : Except ε α) : (.done r : Prog D S Q Ans ε α).Uses allowed := trivial

theorem uses_connection (h : AllowsReads allowed) :
    (connection : Prog D S Q Ans ε ConnId).Uses allowed := ⟨h.connection, fun _ => trivial⟩

theorem uses_select (h : AllowsReads allowed) (c : ConnId) :
    (select c : Prog D S Q Ans ε D).Uses allowed := ⟨h.select c, fun _ => trivial⟩

theorem uses_external (h : AllowsReads allowed) (q : Q) :
    (external q : Prog D S Q Ans ε (Ans q)).Uses allowed := ⟨h.external q, fun _ => trivial⟩

theorem uses_execute {c : ConnId} {s : S} (h : allowed (.execute c s)) :
    (execute c s : Prog D S Q Ans ε ℤ).Uses allowed := ⟨h, fun _ => trivial⟩

theorem uses_commit {c : ConnId} (h : allowed (.commit c)) :
    (commit c : Prog D S Q Ans ε Unit).Uses allowed := ⟨h, fun _ => trivial⟩

end Uses

section Guarded

variable {statement : S → Prop} {held : Bool}

/-- The program writes under its lock only, takes it when it does not hold it, and has given it
back in the end; `held` says whether it starts with the lock. -/
def Guarded (statement : S → Prop) : Bool → Prog D S Q Ans ε α → Prop
  | held, .done _ => held = false
  | held, .perform .acquire k =>
    held = false ∧ (k (.ok ())).Guarded statement true ∧ ∀ e, (k (.error e)).Guarded statement false
  | held, .perform .release k => held = true ∧ ∀ r, (k r).Guarded statement false
  | held, .perform op k => (op.isRead ∨ held = true ∧ op.inside statement) ∧ ∀ r, (k r).Guarded statement held

theorem Guarded.bind {p : Prog D S Q Ans ε α} {f : α → Prog D S Q Ans ε β} (hp : p.Guarded statement held)
    (hf : ∀ a, (f a).Guarded statement false) : (p >>= f).Guarded statement held := by
  induction p generalizing held with
  | done r =>
    obtain rfl : held = false := hp
    cases r with
    | ok a => exact hf a
    | error e => rfl
  | perform op k ih =>
    cases op with
    | acquire => exact ⟨hp.1, ih _ hp.2.1, fun e => ih _ (hp.2.2 e)⟩
    | _ => exact ⟨hp.1, fun r => ih r (hp.2 r)⟩

theorem Guarded.attempt {p : Prog D S Q Ans ε α} (hp : p.Guarded statement held) :
    p.attempt.Guarded statement held := by
  induction p generalizing held with
  | done r => exact hp
  | perform op k ih =>
    cases op with
    | acquire => exact ⟨hp.1, ih _ hp.2.1, fun e => ih _ (hp.2.2 e)⟩
    | _ => exact ⟨hp.1, fun r => ih r (hp.2 r)⟩

theorem Uses.guarded {p : Prog D S Q Ans ε α} (hp : p.Uses Op.isRead) : p.Guarded statement false := by
  induction p with
  | done r => rfl
  | perform op k ih =>
    cases op with
    | acquire | release | execute | commit => exact hp.1.elim
    | _ => exact ⟨.inl trivial, fun r => ih r (hp.2 r)⟩

theorem Uses.withLock {p : Prog D S Q Ans ε α} (hp : p.Uses (Op.inside statement)) :
    (Prog.withLock p).Guarded statement false := by
  have hbody : (p.attempt >>= fun r => release >>= fun _ => .done r).Guarded statement true := by
    induction p with
    | done r => exact ⟨rfl, fun r => by cases r <;> rfl⟩
    | perform op k ih =>
      cases op with
      | acquire | release => exact hp.1.elim
      | _ => exact ⟨.inr ⟨rfl, hp.1⟩, fun r => ih r (hp.2 r)⟩
  exact ⟨rfl, hbody, fun _ => rfl⟩

theorem Guarded.uses {p : Prog D S Q Ans ε α} (hp : p.Guarded statement held) :
    p.Uses (Op.executes statement) := by
  induction p generalizing held with
  | done r => exact trivial
  | perform op k ih =>
    cases op with
    | acquire =>
      refine ⟨trivial, fun r => ?_⟩
      cases r with
      | ok u => exact ih _ hp.2.1
      | error e => exact ih _ (hp.2.2 e)
    | execute c s =>
      obtain ⟨hop | ⟨-, hop⟩, hk⟩ := hp
      · exact hop.elim
      · exact ⟨hop, fun r => ih r (hk r)⟩
    | _ => exact ⟨trivial, fun r => ih r (hp.2 r)⟩

end Guarded
end Prog
end NexusCone.AsyncProgram
