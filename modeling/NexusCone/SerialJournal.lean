import NexusCone.PromptCommits

/-!
# The journal as a serial execution

Every version of the data is what the statements of its journal make of the first contents, run one
after the other with nothing in between. A task whose program executes at most one statement on
every path stands in the journal at most once, whatever is retried, cancelled or dropped.
-/
namespace NexusCone.SerialJournal
open SharedFile AsyncProgram AsyncSystem RelyGuarantee GrowingVersions PromptCommits

section Replay

variable {D S W Q ε α : Type} {Ans : Q → Type} [SqlStatement S D] [Raises ε]

/-- The statements one after the other; each has to be accepted, with its own result. -/
def replay (d : D) : List (TaskId × S × ℤ) → Option D
  | [] => some d
  | (_, s, n) :: rest =>
    match exec s d with
    | .ok (d', m) => if m = n then replay d' rest else none
    | .error _ => none

theorem replay_append (d : D) (xs ys : List (TaskId × S × ℤ)) :
    replay d (xs ++ ys) = (replay d xs).bind fun d' => replay d' ys := by
  induction xs generalizing d with
  | nil => rfl
  | cons x xs ih =>
    obtain ⟨t, s, n⟩ := x
    rw [List.cons_append, replay, replay]
    cases exec s d with
    | error m => rfl
    | ok p =>
      dsimp only
      split
      · exact ih p.1
      · rfl

theorem replay_concat {d d' d'' : D} {journal : List (TaskId × S × ℤ)} {t : TaskId} {s : S} {n : ℤ}
    (h : replay d journal = some d') (hex : exec s d' = .ok (d'', n)) :
    replay d (journal ++ [(t, s, n)]) = some d'' := by
  rw [replay_append, h]
  simp [replay, hex]

/-- Versions that their journals account for, the one continuing the other. -/
def replayed (d : D) : Growth D S :=
  { journalGrowth D S with good := fun v => replay d v.journal = some v.data }

/-- Any program keeps it. -/
theorem keeps_replayed {env : InstId → TaskId → Op S Q → Outcome Q Ans ε W → Shared D S W → Prop} {i : InstId}
    {t : TaskId} {d : D} {σ : Shared D S W} (p : Prog D S Q Ans ε α) :
    (replayed d).Keeps env i t p (fun _ _ => True) σ := by
  have hp : p.Uses (Op.executes fun _ => True) := Prog.uses_of_forall (fun op => by cases op <;> trivial) p
  exact (Growth.Keeps.of_uses hp (Growth.Grows.refl σ) fun s v d' n _ hv hex =>
    ⟨replay_concat hv hex, List.prefix_append _ _⟩).mono fun _ _ _ _ => trivial

/-- What a program executes and commits is in the committed journal when it goes on. -/
theorem keeps_write {env : InstId → TaskId → Op S Q → Outcome Q Ans ε W → Shared D S W → Prop} {i : InstId}
    {t : TaskId} {d : D} {σ : Shared D S W} {c : ConnId} {s : S} {f : ℤ → Prog D S Q Ans ε α}
    {post : α → Shared D S W → Prop} (hc : c < σ.nextConn)
    (hf : ∀ n u v σ', (replayed d).Grows σ σ' → exec s u = .ok (v, n) → (t, s, n) ∈ σ'.file.committed.journal →
      (replayed d).Keeps env i t (f n) post σ') :
    (replayed d).Keeps env i t (Prog.execute c s >>= fun n => Prog.commit c >>= fun _ => f n) post σ := by
  refine Growth.Keeps.execute (u := σ.file.view c) ⟨hc, fun _ => (replayed d).refl _⟩ ?_ ?_
  · intro σ' o d' n _ hi _ _ _ hex _
    exact ⟨replay_concat (hi.view c).1 hex, List.prefix_append _ _⟩
  · intro σ₁ v n hg₁ hseen hmem ⟨u, hex, _⟩
    refine Growth.Keeps.commit hseen fun σ₂ hg₂ hdurable => ?_
    exact hf n u.data v.data σ₂ (hg₁.trans hg₂) hex (hdurable.subset hmem)

end Replay

section Programs

variable {D S Q ε α β : Type} {Ans : Q → Type}

/-- The program executes at most one statement on every path, and none if it has executed one. -/
def WritesOnce : Bool → Prog D S Q Ans ε α → Prop
  | _, .done _ => True
  | wrote, .perform (.execute _ _) k => wrote = false ∧ ∀ r, WritesOnce true (k r)
  | wrote, .perform .connection k => ∀ r, WritesOnce wrote (k r)
  | wrote, .perform .acquire k => ∀ r, WritesOnce wrote (k r)
  | wrote, .perform .release k => ∀ r, WritesOnce wrote (k r)
  | wrote, .perform (.select _) k => ∀ r, WritesOnce wrote (k r)
  | wrote, .perform (.commit _) k => ∀ r, WritesOnce wrote (k r)
  | wrote, .perform (.external _) k => ∀ r, WritesOnce wrote (k r)

variable {wrote : Bool} {p : Prog D S Q Ans ε α} {f : α → Prog D S Q Ans ε β}

theorem writesOnce_of_uses (hp : p.Uses (Op.executes fun _ => False)) : WritesOnce wrote p := by
  induction p with
  | done r => trivial
  | perform op k ih =>
    cases op with
    | execute c s => exact hp.1.elim
    | _ => exact fun r => ih r (hp.2 r)

/-- What writes nothing may come before. -/
theorem WritesOnce.after (hp : p.Uses (Op.executes fun _ => False)) (hf : ∀ a, WritesOnce wrote (f a)) :
    WritesOnce wrote (p >>= f) := by
  induction p with
  | done r =>
    cases r with
    | ok a => exact hf a
    | error e => trivial
  | perform op k ih =>
    cases op with
    | execute c s => exact hp.1.elim
    | _ => exact fun r => ih r (hp.2 r)

/-- What writes nothing may come after. -/
theorem WritesOnce.before (hp : WritesOnce wrote p) (hf : ∀ a, (f a).Uses (Op.executes fun _ => False)) :
    WritesOnce wrote (p >>= f) := by
  induction p generalizing wrote with
  | done r =>
    cases r with
    | ok a => exact writesOnce_of_uses (hf a)
    | error e => trivial
  | perform op k ih =>
    cases op with
    | execute c s => exact ⟨hp.1, fun r => ih r (hp.2 r)⟩
    | _ => exact fun r => ih r (hp r)

theorem WritesOnce.attempt (hp : WritesOnce wrote p) : WritesOnce wrote p.attempt := by
  induction p generalizing wrote with
  | done r => trivial
  | perform op k ih =>
    cases op with
    | execute c s => exact ⟨hp.1, fun r => ih r (hp.2 r)⟩
    | _ => exact fun r => ih r (hp r)

theorem WritesOnce.withLock (hp : WritesOnce wrote p) : WritesOnce wrote (Prog.withLock p) :=
  WritesOnce.after (p := Prog.acquire) ⟨trivial, fun _ => trivial⟩ fun _ =>
    hp.attempt.before fun _ => ⟨trivial, fun r => by cases r <;> trivial⟩

theorem writesOnce_execute (c : ConnId) (s : S) {f : ℤ → Prog D S Q Ans ε β}
    (hf : ∀ n, (f n).Uses (Op.executes fun _ => False)) : WritesOnce false (Prog.execute c s >>= f) := by
  refine ⟨rfl, fun r => ?_⟩
  cases r with
  | ok n => exact writesOnce_of_uses (hf n)
  | error e => trivial

end Programs

section Once

variable {D S W Q ε C R : Type} {Ans : Q → Type} [SqlStatement S D] [Raises ε]

/-- How often the task's statements stand in the version. -/
def writes (t : TaskId) (v : Version D S) : ℕ := v.journal.countP (·.1 = t)

/-- No version has more of them. -/
structure AtMost (t : TaskId) (m : ℕ) (σ : Shared D S W) : Prop where
  committed : writes t σ.file.committed ≤ m
  pending : ∀ p ∈ σ.file.pending, writes t p.2 ≤ m

omit [SqlStatement S D] in
theorem AtMost.view {t : TaskId} {m : ℕ} {σ : Shared D S W} (h : AtMost t m σ) (c : ConnId) :
    writes t (σ.file.view c) ≤ m := by
  unfold File.view
  split
  · rename_i d v hp
    split
    · exact h.pending _ hp
    · exact h.committed
  · exact h.committed

variable {i : InstId} {t u : TaskId} {m m' : ℕ} {σ σ' : Shared D S W} {o : Outcome Q Ans ε W} {op : Op S Q}
variable {r : Except ε (op.Res D Ans)}

/-- Only a task's own `execute` adds to its statements, and only one. -/
theorem AtMost.effect (h : AtMost t m σ) (hx : effect i u σ op o = some (r, σ')) (hle : m ≤ m')
    (hown : u = t → (∃ c s, op = .execute c s) → m < m') : AtMost t m' σ' := by
  have hmono : AtMost t m' σ := ⟨Nat.le_trans h.committed hle, fun p hp => Nat.le_trans (h.pending p hp) hle⟩
  cases op with
  | connection => rwa [(effect_connection hx).1]
  | acquire => rcases effect_acquire hx with ⟨-, -, rfl⟩ | ⟨-, rfl⟩ <;> exact ⟨hmono.committed, hmono.pending⟩
  | release =>
    obtain ⟨-, rfl⟩ := effect_release hx
    exact ⟨hmono.committed, hmono.pending⟩
  | select c => rwa [(effect_select hx).1]
  | external q =>
    rcases effect_external hx with ⟨f, w, -, -, rfl⟩ | ⟨-, rfl⟩ <;> exact ⟨hmono.committed, hmono.pending⟩
  | execute c s =>
    rcases effect_execute hx with ⟨d, n, -, -, -, rfl⟩ | ⟨e, f, l, -, hf, -, rfl⟩
    · refine ⟨hmono.committed, ?_⟩
      rintro p hp
      cases hp
      have hview := h.view c
      unfold writes at hview ⊢
      rw [List.countP_append]
      by_cases hut : u = t
      · have hlt := hown hut ⟨c, s, rfl⟩
        simp only [List.countP_singleton, decide_eq_true hut, if_true]
        omega
      · simp only [List.countP_singleton, decide_eq_false hut, Bool.false_eq_true, if_false]
        omega
    · rcases hf with rfl | ⟨-, rfl⟩
      · exact ⟨hmono.committed, hmono.pending⟩
      · refine ⟨hmono.committed, ?_⟩
        rintro p hp
        cases hp
        exact hmono.view c
  | commit c =>
    rcases effect_commit hx with ⟨v, -, hp, -, rfl⟩ | ⟨-, -, -, rfl⟩ | ⟨e, l, -, -, rfl⟩
    · exact ⟨hmono.pending _ hp, by rintro p ⟨⟩⟩
    · exact hmono
    · exact ⟨hmono.committed, hmono.pending⟩

/-- The tasks of these calls have executed at most one statement, or none and may execute one; the
tasks to come have executed none. -/
structure Once (single : C → Prop) (s : Sys D S W Q Ans ε C R) : Prop where
  fresh : ∀ t ≥ s.tasks.length, AtMost t 0 s.shared
  tasks : ∀ (t : TaskId) i c p, s.tasks[t]? = some ⟨i, c, p⟩ → single c →
    ∃ wrote : Bool, WritesOnce wrote p ∧ AtMost t wrote.toNat s.shared

variable {single : C → Prop} {body : C → Prog D S Q Ans ε R} {s s' : Sys D S W Q Ans ε C R}

theorem WritesOnce.effect {wrote : Bool} {k : Except ε (op.Res D Ans) → Prog D S Q Ans ε R}
    (hp : WritesOnce wrote (.perform op k)) (h : AtMost t wrote.toNat σ) (hx : effect i t σ op o = some (r, σ')) :
    ∃ wrote : Bool, WritesOnce wrote (k r) ∧ AtMost t wrote.toNat σ' := by
  cases op with
  | execute c s =>
    obtain ⟨rfl, hk⟩ := hp
    exact ⟨true, hk r, h.effect hx (Nat.zero_le _) fun _ _ => Nat.one_pos⟩
  | _ => exact ⟨wrote, hp r, h.effect hx (le_refl _) fun _ ⟨c, s, hop⟩ => by cases hop⟩

theorem Once.run (hs : Once single s) {o : Outcome Q Ans ε W} (h : runTask u o s = some s') : Once single s' := by
  obtain ⟨i, c, op, k, r, σ, hu, hx, rfl⟩ := runTask_some h
  have hlt : u < s.tasks.length := (List.getElem?_eq_some_iff.mp hu).1
  refine ⟨fun t ht => ?_, fun t j d p ht hsingle => ?_⟩
  · rw [List.length_set] at ht
    exact (hs.fresh t ht).effect hx (le_refl 0) fun hut => absurd (hut ▸ hlt) (not_lt.mpr ht)
  · by_cases hut : t = u
    · subst hut
      rw [List.getElem?_set_self hlt] at ht
      cases ht
      obtain ⟨wrote, hp, hk⟩ := hs.tasks t i c _ hu hsingle
      exact hp.effect hk hx
    · rw [List.getElem?_set_ne (Ne.symm hut)] at ht
      obtain ⟨wrote, hp, hk⟩ := hs.tasks t j d p ht hsingle
      exact ⟨wrote, hp, hk.effect hx (le_refl _) fun h => absurd h.symm hut⟩

omit [SqlStatement S D] [Raises ε] in
theorem Once.same_tasks (hs : Once single s) (h : ∀ t m, AtMost t m s.shared → AtMost t m σ) :
    Once single { s with shared := σ } := by
  refine ⟨fun t ht => h t 0 (hs.fresh t ht), fun t i c p ht hsingle => ?_⟩
  obtain ⟨wrote, hp, hk⟩ := hs.tasks t i c p ht hsingle
  exact ⟨wrote, hp, h t _ hk⟩

theorem Once.step (hbody : ∀ c, single c → WritesOnce false (body c)) (hs : Once single s) {e : Event Q Ans ε W C}
    (h : step body s e = some s') : Once single s' := by
  cases e with
  | run t o => exact hs.run h
  | call i c =>
    cases h
    refine ⟨fun t ht => hs.fresh t ?_, fun t j d p ht hsingle => ?_⟩
    · rw [List.length_append] at ht
      exact le_trans (Nat.le_add_right _ _) ht
    · by_cases hlt : t < s.tasks.length
      · rw [List.getElem?_append_left hlt] at ht
        exact hs.tasks t j d p ht hsingle
      · rw [List.getElem?_append_right (Nat.not_lt.mp hlt), List.getElem?_singleton] at ht
        split at ht <;> cases ht
        exact ⟨false, hbody c hsingle, hs.fresh t (Nat.not_lt.mp hlt)⟩
  | connect i =>
    obtain ⟨σ, hσ, rfl⟩ := Option.map_eq_some_iff.mp h
    obtain ⟨-, rfl⟩ := connectShared_some hσ
    exact hs.same_tasks fun t m hk => ⟨hk.committed, hk.pending⟩
  | close i =>
    obtain ⟨σ, hσ, rfl⟩ := Option.map_eq_some_iff.mp h
    obtain ⟨c, -, rfl⟩ := closeShared_some hσ
    exact hs.same_tasks fun t m hk => ⟨hk.committed, fun p hp => hk.pending p (Option.filter_eq_some_iff.mp hp).1⟩
  | detach i =>
    obtain ⟨σ, hσ, rfl⟩ := Option.map_eq_some_iff.mp h
    obtain ⟨c, -, -, rfl⟩ := detachShared_some hσ
    exact hs.same_tasks fun t m hk => ⟨hk.committed, hk.pending⟩

theorem once_of_run {rules : Rules D S W Q Ans ε C} (hbody : ∀ c, single c → WritesOnce false (body c))
    (hs : Once single s) (h : Run body rules s s') : Once single s' := by
  induction h with
  | refl => exact hs
  | tail _ hlast ih =>
    obtain ⟨e, -, he⟩ := hlast
    exact ih.step hbody he

end Once
end NexusCone.SerialJournal
