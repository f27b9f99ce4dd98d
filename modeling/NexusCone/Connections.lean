import NexusCone.AsyncSystem
import Mathlib.Data.Nat.Basic

/-!
# Which connection belongs to which instance

A connection is opened once, for one instance, and stays closed once it is closed. So a task
that has read its ledger's connection either still uses the ledger's own or a closed one.
-/
namespace NexusCone.Connections
open SharedFile AsyncProgram AsyncSystem

variable {D S W : Type}

structure Wired (σ : Shared D S W) : Prop where
  opened : ∀ c ∈ σ.file.opened, c < σ.nextConn
  handles : ∀ i c, (σ.handles i).db = some c → c < σ.nextConn
  distinct : ∀ i j c, (σ.handles i).db = some c → (σ.handles j).db = some c → i = j
  pending : ∀ p ∈ σ.file.pending, p.1 ∈ σ.file.opened

/-- How connections may change: none is reopened and none changes hands. -/
structure Rewired (σ σ' : Shared D S W) : Prop where
  nextConn : σ.nextConn ≤ σ'.nextConn
  opened : ∀ c < σ.nextConn, c ∈ σ'.file.opened → c ∈ σ.file.opened
  handles : ∀ i, ∀ c < σ.nextConn, (σ.handles i).db = some c →
    (σ'.handles i).db = some c ∨ c ∉ σ'.file.opened

/-- The connection is the instance's, or closed for good. -/
def Owns (i : InstId) (c : ConnId) (σ : Shared D S W) : Prop :=
  c < σ.nextConn ∧ ((σ.handles i).db = some c ∨ c ∉ σ.file.opened)

variable {σ σ' : Shared D S W} {i : InstId} {c d : ConnId}

theorem Rewired.refl (σ : Shared D S W) : Rewired σ σ :=
  ⟨le_refl _, fun _ _ h => h, fun _ _ _ h => .inl h⟩

theorem Rewired.trans {σ₁ σ₂ σ₃ : Shared D S W} (h : Rewired σ₁ σ₂) (h' : Rewired σ₂ σ₃) :
    Rewired σ₁ σ₃ where
  nextConn := le_trans h.nextConn h'.nextConn
  opened c hc ho := h.opened c hc (h'.opened c (lt_of_lt_of_le hc h.nextConn) ho)
  handles i c hc hdb := by
    have hc' := lt_of_lt_of_le hc h.nextConn
    rcases h.handles i c hc hdb with hdb | hno
    · exact h'.handles i c hc' hdb
    · exact .inr fun ho => hno (h'.opened c hc' ho)

theorem Owns.rewired (h : Owns i c σ) (hr : Rewired σ σ') : Owns i c σ' := by
  refine ⟨lt_of_lt_of_le h.1 hr.nextConn, ?_⟩
  rcases h.2 with hdb | hno
  · exact hr.handles i c h.1 hdb
  · exact .inr fun ho => hno (hr.opened c h.1 ho)

theorem Wired.owns (h : Wired σ) (hdb : (σ.handles i).db = some c) : Owns i c σ :=
  ⟨h.handles i c hdb, .inl hdb⟩

/-- A connection the instance had before is its present one or closed. -/
theorem Owns.eq_or_closed (h : Owns i d σ) (hc : (σ.handles i).db = some c) :
    d = c ∨ d ∉ σ.file.opened := by
  rcases h.2 with hdb | hno
  · rw [hc] at hdb
    cases hdb
    exact .inl rfl
  · exact .inr hno

/-- An open connection has one owner. -/
theorem Owns.unique {j : InstId} (h : Wired σ) (hi : Owns i c σ) (hj : Owns j c σ)
    (ho : c ∈ σ.file.opened) : i = j :=
  h.distinct i j c (hi.2.resolve_right (not_not.mpr ho)) (hj.2.resolve_right (not_not.mpr ho))

/-- A connection that may not write has written nothing. -/
theorem Wired.pending_ne (h : Wired σ) (hw : ¬ σ.file.MayWrite c) : ∀ p ∈ σ.file.pending, p.1 ≠ c := by
  rintro p hp rfl
  refine hw ⟨h.pending p hp, fun q hq => ?_⟩
  rw [Option.mem_def.mp hp] at hq
  cases hq
  rfl

theorem Wired.of_same {τ : Shared D S W} (h : Wired σ) (hn : τ.nextConn = σ.nextConn)
    (ho : τ.file.opened = σ.file.opened) (hd : ∀ i, (τ.handles i).db = (σ.handles i).db)
    (hp : ∀ p ∈ τ.file.pending, p.1 ∈ σ.file.opened) : Wired τ ∧ Rewired σ τ where
  left :=
    { opened := by rw [ho, hn]; exact h.opened
      handles := fun i c hc => by rw [hn]; exact h.handles i c (hd i ▸ hc)
      distinct := fun i j c hi hj => h.distinct i j c (hd i ▸ hi) (hd j ▸ hj)
      pending := by rw [ho]; exact hp }
  right :=
    { nextConn := le_of_eq hn.symm
      opened := fun c _ hc => ho ▸ hc
      handles := fun i c _ hc => .inl ((hd i).trans hc) }

theorem connectShared_wired (h : Wired σ) (hc : connectShared i σ = some σ') :
    Wired σ' ∧ Rewired σ σ' := by
  obtain ⟨hnone, rfl⟩ := connectShared_some hc
  have hdb (j : InstId) (d : ConnId) (hj : ((σ.setDb i (some σ.nextConn)).handles j).db = some d) :
      (j = i ∧ d = σ.nextConn) ∨ (j ≠ i ∧ (σ.handles j).db = some d) := by
    by_cases hji : j = i
    · subst hji
      rw [Shared.setDb_db_self] at hj
      cases hj
      exact .inl ⟨rfl, rfl⟩
    · rw [Shared.setDb_db_of_ne σ _ hji] at hj
      exact .inr ⟨hji, hj⟩
  refine ⟨⟨?_, ?_, ?_, ?_⟩, ⟨Nat.le_succ _, ?_, ?_⟩⟩
  · intro d hd
    rcases List.mem_cons.mp hd with rfl | hd
    · exact Nat.lt_succ_self _
    · exact Nat.lt_succ_of_lt (h.opened d hd)
  · intro j d hj
    rcases hdb j d hj with ⟨rfl, rfl⟩ | ⟨-, hj⟩
    · exact Nat.lt_succ_self _
    · exact Nat.lt_succ_of_lt (h.handles j d hj)
  · intro j k d hj hk
    rcases hdb j d hj with ⟨rfl, rfl⟩ | ⟨-, hj'⟩ <;> rcases hdb k _ hk with ⟨rfl, hd⟩ | ⟨-, hk'⟩
    · rfl
    · exact absurd (h.handles k _ hk') (Nat.lt_irrefl _)
    · exact absurd (h.handles j _ hj') (by rw [hd]; exact Nat.lt_irrefl _)
    · exact h.distinct j k d hj' hk'
  · intro p hp
    exact List.mem_cons_of_mem _ (h.pending p hp)
  · intro d hd ho
    rcases List.mem_cons.mp ho with rfl | ho
    · exact absurd hd (Nat.lt_irrefl _)
    · exact ho
  · intro j d _ hj
    have hji : j ≠ i := by
      rintro rfl
      rw [hnone] at hj
      cases hj
    exact .inl ((Shared.setDb_db_of_ne σ _ hji).trans hj)

theorem closeShared_wired (h : Wired σ) (hc : closeShared i σ = some σ') : Wired σ' ∧ Rewired σ σ' := by
  obtain ⟨c, -, rfl⟩ := closeShared_some hc
  refine ⟨⟨?_, h.handles, h.distinct, ?_⟩, ⟨le_refl _, ?_, fun _ _ _ hdb => .inl hdb⟩⟩
  · exact fun d hd => h.opened d (File.mem_opened_close.mp hd).1
  · intro p hp
    obtain ⟨hp, hne⟩ := Option.filter_eq_some_iff.mp hp
    exact File.mem_opened_close.mpr ⟨h.pending p hp, by simpa using hne⟩
  · exact fun d _ hd => (File.mem_opened_close.mp hd).1

theorem detachShared_wired (h : Wired σ) (hc : detachShared i σ = some σ') : Wired σ' ∧ Rewired σ σ' := by
  obtain ⟨c, hdb, hno, rfl⟩ := detachShared_some hc
  have hkeep (j : InstId) (d : ConnId) (hj : ((σ.setDb i none).handles j).db = some d) :
      (σ.handles j).db = some d := by
    by_cases hji : j = i
    · subst hji
      rw [Shared.setDb_db_self] at hj
      cases hj
    · rwa [Shared.setDb_db_of_ne σ _ hji] at hj
  refine ⟨⟨h.opened, ?_, ?_, h.pending⟩, ⟨le_refl _, fun _ _ ho => ho, ?_⟩⟩
  · exact fun j d hj => h.handles j d (hkeep j d hj)
  · exact fun j k d hj hk => h.distinct j k d (hkeep j d hj) (hkeep k d hk)
  · intro j d _ hj
    by_cases hji : j = i
    · subst hji
      rw [hdb] at hj
      cases hj
      exact .inr hno
    · exact .inl ((Shared.setDb_db_of_ne σ _ hji).trans hj)

section Effect

variable {Q ε : Type} {Ans : Q → Type} [SqlStatement S D] [Raises ε] {t : TaskId} {o : Outcome Q Ans ε W}

end Effect
end NexusCone.Connections
