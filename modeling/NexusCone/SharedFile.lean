import Mathlib.Data.List.Basic
import Mathlib.Data.Int.Order.Basic
import Mathlib.Tactic.Tauto

/-!
# A database file shared by connections

A connection sees the committed contents and its own uncommitted writes; one connection at
a time holds uncommitted writes; closing a connection drops what it has not committed. A
statement refused by a constraint leaves the transaction it opened open. The transaction that the
`sqlite3` module begins for a statement which is then refused for want of the write lock is left
out: it holds no lock until a later read, after which it makes other connections' commits fail, and
a commit may fail anyway. The journal of a version is a history variable: which task's statement
was accepted, and under which key.
-/
namespace NexusCone.SharedFile

abbrev ConnId := ℕ
abbrev TaskId := ℕ

inductive SqlError where
  | closed
  | locked
  | constraint (message : String)
  | failed (message : String)
  deriving DecidableEq

/-- Statements that write contents of type `D`; a refusal carries the constraint's message. -/
class SqlStatement (S : Type) (D : outParam Type) where
  exec : S → D → Except String (D × ℤ)

export SqlStatement (exec)

structure Version (D S : Type) where
  data : D
  journal : List (TaskId × S × ℤ)

structure File (D S : Type) where
  committed : Version D S
  pending : Option (ConnId × Version D S)
  opened : List ConnId

namespace File

variable {D S : Type}

/-- What a connection reads. -/
def view (f : File D S) (c : ConnId) : Version D S :=
  match f.pending with
  | some (d, v) => if d = c then v else f.committed
  | none => f.committed

/-- The connection may write: it is open and no other connection holds uncommitted writes. -/
def MayWrite (f : File D S) (c : ConnId) : Prop :=
  c ∈ f.opened ∧ ∀ p ∈ f.pending, p.1 = c

instance (f : File D S) (c : ConnId) : Decidable (f.MayWrite c) :=
  inferInstanceAs (Decidable (_ ∧ ∀ p ∈ f.pending, p.1 = c))

/-- The connection takes the write lock without a change. -/
def lock (f : File D S) (c : ConnId) : File D S := { f with pending := some (c, f.view c) }

def write (f : File D S) (c : ConnId) (v : Version D S) : File D S := { f with pending := some (c, v) }

theorem mayWrite_write {f : File D S} {c : ConnId} (h : f.MayWrite c) (v : Version D S) : (f.write c v).MayWrite c :=
  ⟨h.1, by rintro p ⟨⟩; rfl⟩

def execute [SqlStatement S D] (f : File D S) (t : TaskId) (c : ConnId) (s : S) :
    Except SqlError ℤ × File D S :=
  if f.MayWrite c then
    match exec s (f.view c).data with
    | .ok (d, n) => (.ok n, f.write c ⟨d, (f.view c).journal ++ [(t, s, n)]⟩)
    | .error m => (.error (.constraint m), f.lock c)
  else (.error (if c ∈ f.opened then .locked else .closed), f)

def commit (f : File D S) (c : ConnId) : Except SqlError Unit × File D S :=
  if c ∈ f.opened then
    match f.pending with
    | some (d, v) => if d = c then (.ok (), { f with committed := v, pending := none }) else (.ok (), f)
    | none => (.ok (), f)
  else (.error .closed, f)

def connect (f : File D S) (c : ConnId) : File D S := { f with opened := c :: f.opened }

def close (f : File D S) (c : ConnId) : File D S :=
  { f with
    opened := f.opened.filter (· ≠ c)
    pending := f.pending.filter (·.1 ≠ c) }

@[simp] theorem view_pending_self {f : File D S} {c : ConnId} {v : Version D S}
    (h : f.pending = some (c, v)) : f.view c = v := by
  simp [view, h]

theorem view_of_ne {f : File D S} {c : ConnId} (h : ∀ p ∈ f.pending, p.1 ≠ c) :
    f.view c = f.committed := by
  unfold view
  split
  · rename_i d v hp
    exact if_neg (h (d, v) hp)
  · rfl

@[simp] theorem view_lock (f : File D S) (c d : ConnId) (h : f.MayWrite c) : (f.lock c).view d = f.view d := by
  by_cases hd : d = c
  · subst hd; simp [lock, view]
  · have hne : ∀ p ∈ f.pending, p.1 ≠ d := fun p hp he => hd (he.symm.trans (h.2 p hp))
    rw [view_of_ne hne]
    simp [lock, view, Ne.symm hd]

theorem view_of_locked {f f' : File D S} {c : ConnId} (h : f' = f ∨ f.MayWrite c ∧ f' = f.lock c) (d : ConnId) :
    f'.view d = f.view d := by
  rcases h with rfl | ⟨hw, rfl⟩
  · rfl
  · exact view_lock f c d hw

@[simp] theorem view_write_self (f : File D S) (c : ConnId) (v : Version D S) : (f.write c v).view c = v := by
  simp [write, view]

theorem view_write_of_ne (f : File D S) {c d : ConnId} (v : Version D S) (h : d ≠ c) :
    (f.write c v).view d = f.committed := by
  simp [write, view, h.symm]

theorem mem_opened_close {f : File D S} {c d : ConnId} : d ∈ (f.close c).opened ↔ d ∈ f.opened ∧ d ≠ c := by
  simp [close]

theorem view_close {f : File D S} {c d : ConnId} (h : d ≠ c) : (f.close c).view d = f.view d := by
  cases hp : f.pending with
  | none => simp [view, close, hp]
  | some p =>
    obtain ⟨e, v⟩ := p
    by_cases he : e = c
    · subst he
      simp [view, close, hp, Option.filter, h.symm]
    · simp [view, close, hp, Option.filter, he]

/-- What executing a statement can do: append its change to the view of the connection,
take the write lock only, or nothing. -/
theorem execute_cases [SqlStatement S D] {f f' : File D S} {t : TaskId} {c : ConnId} {s : S}
    {r : Except SqlError ℤ} (h : f.execute t c s = (r, f')) :
    (∃ d n, f.MayWrite c ∧ exec s (f.view c).data = .ok (d, n) ∧ r = .ok n ∧
      f' = f.write c ⟨d, (f.view c).journal ++ [(t, s, n)]⟩) ∨
    (∃ e, f.MayWrite c ∧ r = .error e ∧ f' = f.lock c) ∨
    (∃ e, r = .error e ∧ f' = f) := by
  unfold execute at h
  by_cases hw : f.MayWrite c
  · rw [if_pos hw] at h
    cases he : exec s (f.view c).data with
    | ok p =>
      obtain ⟨d, n⟩ := p
      rw [he] at h; cases h
      exact .inl ⟨d, n, hw, rfl, rfl, rfl⟩
    | error m =>
      rw [he] at h; cases h
      exact .inr (.inl ⟨_, hw, rfl, rfl⟩)
  · rw [if_neg hw] at h; cases h
    exact .inr (.inr ⟨_, rfl, rfl⟩)

/-- Executing a statement that its constraints accept: the connection may write and the change is
appended, or it may not and nothing happens. -/
theorem execute_clean [SqlStatement S D] {f f' : File D S} {t : TaskId} {c : ConnId} {s : S}
    {r : Except SqlError ℤ} (hs : f.MayWrite c → (exec s (f.view c).data).isOk)
    (h : f.execute t c s = (r, f')) :
    (∃ d n, f.MayWrite c ∧ r = .ok n ∧ f' = f.write c ⟨d, (f.view c).journal ++ [(t, s, n)]⟩) ∨
    (∃ e, ¬ f.MayWrite c ∧ r = .error e ∧ f' = f) := by
  unfold execute at h
  by_cases hw : f.MayWrite c
  · have hok := hs hw
    cases hp : exec s (f.view c).data with
    | ok p =>
      obtain ⟨d, n⟩ := p
      rw [if_pos hw, hp] at h; cases h
      exact .inl ⟨d, n, hw, rfl, rfl⟩
    | error m =>
      rw [hp] at hok
      cases hok
  · rw [if_neg hw] at h; cases h
    exact .inr ⟨_, hw, rfl, rfl⟩

/-- What a commit can do: publish the connection's writes, or nothing; it succeeds on every
open connection. -/
theorem commit_cases {f f' : File D S} {c : ConnId} {r : Except SqlError Unit}
    (h : f.commit c = (r, f')) :
    (c ∈ f.opened ∧ r = .ok () ∧ ∃ v, f.pending = some (c, v) ∧
      f' = { f with committed := v, pending := none }) ∨
    (c ∈ f.opened ∧ r = .ok () ∧ (∀ p ∈ f.pending, p.1 ≠ c) ∧ f' = f) ∨
    (c ∉ f.opened ∧ (∃ e, r = .error e) ∧ f' = f) := by
  unfold commit at h
  by_cases hc : c ∈ f.opened
  · rw [if_pos hc] at h
    cases hp : f.pending with
    | none =>
      rw [hp] at h; cases h
      exact .inr (.inl ⟨hc, rfl, by simp, rfl⟩)
    | some p =>
      obtain ⟨d, v⟩ := p
      simp only [hp] at h
      by_cases hd : d = c
      · rw [if_pos hd] at h; subst hd; cases h
        exact .inl ⟨hc, rfl, v, rfl, rfl⟩
      · rw [if_neg hd] at h; cases h
        exact .inr (.inl ⟨hc, rfl, by rintro p ⟨⟩; exact hd, rfl⟩)
  · rw [if_neg hc] at h; cases h
    exact .inr (.inr ⟨hc, ⟨_, rfl⟩, rfl⟩)

end File
end NexusCone.SharedFile
