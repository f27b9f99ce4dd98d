import NexusCone.RelyGuarantee
import NexusCone.SoloRun

/-!
# Programs among further requests

A program over one kind of requests runs where requests of another kind are answered too, and does
there what it does on its own.
-/
namespace NexusCone.EmbeddedPrograms
open SharedFile AsyncProgram AsyncSystem RelyGuarantee SoloRun

variable {D S Q P W ε α β : Type} {Ans : Q → Type} {Ans' : P → Type}

/-- The program, asking nothing of the further requests. -/
def embed (Ans' : P → Type) : Prog D S Q Ans ε α → Prog D S (Q ⊕ P) (Sum.elim Ans Ans') ε α
  | .done r => .done r
  | .perform .connection k => .perform .connection fun r => embed Ans' (k r)
  | .perform .acquire k => .perform .acquire fun r => embed Ans' (k r)
  | .perform .release k => .perform .release fun r => embed Ans' (k r)
  | .perform (.select c) k => .perform (.select c) fun r => embed Ans' (k r)
  | .perform (.execute c s) k => .perform (.execute c s) fun r => embed Ans' (k r)
  | .perform (.commit c) k => .perform (.commit c) fun r => embed Ans' (k r)
  | .perform (.external q) k => .perform (.external (.inl q)) fun r => embed Ans' (k r)

theorem embed_bind (p : Prog D S Q Ans ε α) (f : α → Prog D S Q Ans ε β) :
    embed Ans' (p >>= f) = embed Ans' p >>= fun a => embed Ans' (f a) := by
  induction p with
  | done r => cases r <;> rfl
  | perform op k ih => cases op <;> exact congrArg (Prog.perform _) (funext ih)

theorem embed_attempt (p : Prog D S Q Ans ε α) : embed Ans' p.attempt = (embed Ans' p).attempt := by
  induction p with
  | done r => rfl
  | perform op k ih => cases op <;> exact congrArg (Prog.perform _) (funext ih)

theorem embed_withLock (p : Prog D S Q Ans ε α) : embed Ans' (Prog.withLock p) = Prog.withLock (embed Ans' p) := by
  unfold Prog.withLock
  rw [embed_bind, Prog.acquire]
  refine congrArg (Prog.perform Op.acquire) (funext fun r => ?_)
  cases r with
  | error e => rfl
  | ok u =>
    show embed Ans' (p.attempt >>= _) = (embed Ans' p).attempt >>= _
    rw [embed_bind, embed_attempt]
    refine congrArg ((embed Ans' p).attempt >>= ·) (funext fun x => ?_)
    refine congrArg (Prog.perform Op.release) (funext fun y => ?_)
    cases y <;> rfl

/-- It takes its lock and writes where it did. -/
theorem guarded_embed {statement : S → Prop} {held : Bool} {p : Prog D S Q Ans ε α} (hp : p.Guarded statement held) :
    (embed Ans' p).Guarded statement held := by
  induction p generalizing held with
  | done r => exact hp
  | perform op k ih =>
    cases op with
    | acquire => exact ⟨hp.1, ih _ hp.2.1, fun e => ih _ (hp.2.2 e)⟩
    | release => exact ⟨hp.1, fun r => ih r (hp.2 r)⟩
    | _ => exact ⟨hp.1, fun r => ih r (hp.2 r)⟩

section Judgement

variable [SqlStatement S D] [Raises ε] {i : InstId} {t : TaskId} {σ : Shared D S W}
variable {env : InstId → TaskId → Op S (Q ⊕ P) → Outcome (Q ⊕ P) (Sum.elim Ans Ans') ε W → Shared D S W → Prop}

/-- The outcome as the program on its own would have it. -/
def outcomeLeft : Outcome (Q ⊕ P) (Sum.elim Ans Ans') ε W → Outcome Q Ans ε W
  | .ok => .ok
  | .fail m locks => .fail m locks
  | .cancel performed => .cancel performed
  | .answer f w => .answer (fun q => f (.inl q)) w

/-- A judgement that holds whatever the environment chooses holds among further requests. -/
theorem ok_embed {protocol : Protocol D S W} {p : Prog D S Q Ans ε α} {post : α → Shared D S W → Prop}
    {err : Shared D S W → Prop} (h : Ok protocol (fun _ _ _ _ _ => True) i t p post err σ) :
    Ok protocol env i t (embed Ans' p) post err σ := by
  induction p generalizing σ with
  | done r => cases r <;> exact h
  | perform op k ih =>
    have hnext (σ' : Shared D S W) (hr : protocol.rely i t σ σ') (hi : protocol.inv σ') (o : Outcome Q Ans ε W) r σ''
        (hx : effect i t σ' op o = some (r, σ'')) :
        protocol.Sound t σ' σ'' ∧ Ok protocol env i t (embed Ans' (k r)) post err σ'' := by
      obtain ⟨hs, hk⟩ := h σ' hr hi o r σ'' trivial hx
      exact ⟨hs, ih r hk⟩
    cases op with
    | _ =>
      intro σ' hr hi o r σ'' _ hx
      exact hnext σ' hr hi (outcomeLeft o) r σ'' (by cases o <;> exact hx)

end Judgement

section Solo

variable [SqlStatement S D] [Raises ε]

/-- The world's answers to the first kind of requests. -/
def answersLeft (answers : Answers (Q ⊕ P) (Sum.elim Ans Ans') ε W) : Answers Q Ans ε W :=
  fun q w => answers (.inl q) w

theorem solo_embed (answers : Answers (Q ⊕ P) (Sum.elim Ans Ans') ε W) (c : ConnId) (p : Prog D S Q Ans ε α)
    (x : Solo D W) : solo answers c (embed Ans' p) x = solo (answersLeft answers) c p x := by
  induction p generalizing x with
  | done r => rfl
  | perform op k ih =>
    cases op with
    | connection => exact ih _ _
    | release => exact ih _ _
    | external q => exact ih _ _
    | acquire =>
      simp only [embed, solo]
      split
      · rfl
      · exact ih _ _
    | select d =>
      simp only [embed, solo]
      split
      · exact ih _ _
      · rfl
    | commit d =>
      simp only [embed, solo]
      split
      · exact ih _ _
      · rfl
    | execute d s =>
      simp only [embed, solo]
      split
      · split <;> exact ih _ _
      · rfl

end Solo

end NexusCone.EmbeddedPrograms
