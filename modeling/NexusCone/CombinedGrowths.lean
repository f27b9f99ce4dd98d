import NexusCone.GrowingVersions

/-!
# One growth on top of another

What a program has been shown to keep may be used to show that it keeps more: where every accepted
statement that keeps the first growth keeps the second one too, the program keeps both.
-/
namespace NexusCone.CombinedGrowths
open SharedFile AsyncProgram AsyncSystem Connections RelyGuarantee GrowingVersions

variable {D S W : Type}

def both (G G' : Growth D S) : Growth D S where
  good v := G.good v ∧ G'.good v
  le u v := G.le u v ∧ G'.le u v
  refl v := ⟨G.refl v, G'.refl v⟩
  trans h h' := ⟨G.trans h.1 h'.1, G'.trans h.2 h'.2⟩

variable {G G' : Growth D S} {σ σ' : Shared D S W}

theorem inv_both : (both G G').Inv σ ↔ G.Inv σ ∧ G'.Inv σ := by
  constructor
  · intro h
    exact ⟨⟨h.wired, h.committed.1, fun p hp => ⟨(h.pending p hp).1.1, (h.pending p hp).2.1⟩⟩,
      ⟨h.wired, h.committed.2, fun p hp => ⟨(h.pending p hp).1.2, (h.pending p hp).2.2⟩⟩⟩
  · rintro ⟨h, h'⟩
    exact ⟨h.wired, ⟨h.committed, h'.committed⟩, fun p hp =>
      ⟨⟨(h.pending p hp).1, (h'.pending p hp).1⟩, (h.pending p hp).2, (h'.pending p hp).2⟩⟩

theorem grows_both : (both G G').Grows σ σ' ↔ G.Grows σ σ' ∧ G'.Grows σ σ' := by
  constructor
  · intro h
    exact ⟨⟨h.rewired, h.committed.1, fun c hc ho => (h.view c hc ho).1⟩,
      ⟨h.rewired, h.committed.2, fun c hc ho => (h.view c hc ho).2⟩⟩
  · rintro ⟨h, h'⟩
    exact ⟨h.rewired, ⟨h.committed, h'.committed⟩, fun c hc ho => ⟨h.view c hc ho, h'.view c hc ho⟩⟩

section Rules

variable {Q ε β : Type} {Ans : Q → Type} [SqlStatement S D] [Raises ε]
variable {env : InstId → TaskId → Op S Q → Outcome Q Ans ε W → Shared D S W → Prop} {i : InstId} {t : TaskId}

/-- Whatever an operation does, the versions grow, if they do where it writes. -/
theorem grows_effect {op : Op S Q} {o : Outcome Q Ans ε W} {r : Except ε (op.Res D Ans)} (hi : G.Inv σ)
    (hx : effect i t σ op o = some (r, σ'))
    (hw : ∀ c s d n, op = .execute c s → σ.file.MayWrite c → exec s (σ.file.view c).data = .ok (d, n) →
      σ' = { σ with file := σ.file.write c ⟨d, (σ.file.view c).journal ++ [(t, s, n)]⟩ } →
      G.good ⟨d, (σ.file.view c).journal ++ [(t, s, n)]⟩ ∧
        G.le (σ.file.view c) ⟨d, (σ.file.view c).journal ++ [(t, s, n)]⟩) : G.Inv σ' ∧ G.Grows σ σ' := by
  have hself := Growth.same_file hi rfl rfl fun _ => rfl
  have hlock (x : Option TaskId) := Growth.same_file (τ := σ.setLock i x) hi rfl rfl fun j => Shared.setLock_db σ i j x
  cases op with
  | connection =>
    obtain ⟨rfl, -⟩ := effect_connection hx
    exact hself
  | acquire =>
    rcases effect_acquire hx with ⟨-, -, rfl⟩ | ⟨-, rfl⟩
    · exact hlock (some t)
    · exact hself
  | release =>
    obtain ⟨-, rfl⟩ := effect_release hx
    exact hlock none
  | select c =>
    obtain ⟨rfl, -⟩ := effect_select hx
    exact hself
  | external q =>
    rcases effect_external hx with ⟨f, w, -, -, rfl⟩ | ⟨-, rfl⟩
    · exact Growth.same_file hi rfl rfl fun _ => rfl
    · exact hself
  | execute c s =>
    rcases effect_execute hx with ⟨d, n, hmay, hex, -, rfl⟩ | ⟨e, f, l, -, hf, -, rfl⟩
    · obtain ⟨hgood, hle⟩ := hw c s d n rfl hmay hex rfl
      exact Growth.write_grows hi hmay hgood hle
    · exact Growth.locked_grows hi hf
  | commit c =>
    rcases effect_commit hx with ⟨v, -, hp, -, rfl⟩ | ⟨-, -, -, rfl⟩ | ⟨e, l, -, -, rfl⟩
    · exact Growth.publish_grows hi hp
    · exact hself
    · exact Growth.same_file hi rfl rfl fun _ => rfl

/-- A program that keeps the first growth keeps the second one where every statement it accepts does. -/
theorem keeps_both {statement : S → Prop} {p : Prog D S Q Ans ε β} {post : β → Shared D S W → Prop}
    (h : G.Keeps env i t p post σ) (hp : p.Uses (Op.executes statement))
    (hs : ∀ s u v n, statement s → G.good u → G.good v → G.le u v → G'.good u →
      exec s u.data = .ok (v.data, n) → v.journal = u.journal ++ [(t, s, n)] → G'.good v ∧ G'.le u v) :
    (both G G').Keeps env i t p post σ := by
  induction p generalizing σ with
  | done r =>
    cases r with
    | ok a => exact fun σ' hr hi => h σ' (grows_both.mp hr).1 (inv_both.mp hi).1
    | error e => exact fun _ _ _ => trivial
  | perform op k ih =>
    intro σ₁ hr hi o r σ₂ he hx
    obtain ⟨hop, hk⟩ := hp
    obtain ⟨hi₁, hi₁'⟩ := inv_both.mp hi
    obtain ⟨hsound, hnext⟩ := h σ₁ (grows_both.mp hr).1 hi₁ o r σ₂ he hx
    have hgrows : G'.Inv σ₂ ∧ G'.Grows σ₁ σ₂ := by
      refine grows_effect hi₁' hx fun c s d n hexecute hmay hex hσ₂ => ?_
      subst hexecute hσ₂
      have hview := hsound.guar.view c (hi₁.wired.opened c hmay.1) hmay.1
      rw [File.view_write_self] at hview
      exact hs s _ ⟨d, _⟩ n hop (hi₁.view c).1 (hsound.inv.pending _ rfl).1 hview (hi₁'.view c).1 hex rfl
    have hinv := inv_both.mpr ⟨hsound.inv, hgrows.1⟩
    exact ⟨Growth.sound hinv (grows_both.mpr ⟨hsound.guar, hgrows.2⟩), ih r hnext (hk r)⟩

end Rules
end NexusCone.CombinedGrowths
