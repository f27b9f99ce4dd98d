import NexusCone.AsyncSystem

/-!
# Rely-guarantee reasoning about tasks

A protocol says what always holds of the shared state, what a task may rely on while others
run, and how the state may evolve. `Ok` is the judgement that a program keeps the protocol from
a state on and ends in its postcondition, whatever the others do in between; `Verified.run`
puts the judgements of all calls together into a statement about runs.
-/
namespace NexusCone.RelyGuarantee
open SharedFile AsyncProgram AsyncSystem

structure Protocol (D S W : Type) where
  inv : Shared D S W → Prop
  rely : InstId → TaskId → Shared D S W → Shared D S W → Prop
  guar : Shared D S W → Shared D S W → Prop
  rely_refl : ∀ i t σ, rely i t σ σ
  rely_trans : ∀ i t {σ₁ σ₂ σ₃}, rely i t σ₁ σ₂ → rely i t σ₂ σ₃ → rely i t σ₁ σ₃
  guar_refl : ∀ σ, guar σ σ
  guar_trans : ∀ {σ₁ σ₂ σ₃}, guar σ₁ σ₂ → guar σ₂ σ₃ → guar σ₁ σ₃

variable {D S W Q ε α β : Type} {Ans : Q → Type}

/-- The change is one that a step of the task may make. -/
structure Protocol.Sound (P : Protocol D S W) (t : TaskId) (σ σ' : Shared D S W) : Prop where
  inv : P.inv σ'
  guar : P.guar σ σ'
  rely : ∀ j u, u ≠ t → P.rely j u σ σ'

theorem Protocol.Sound.refl {P : Protocol D S W} {t : TaskId} {σ : Shared D S W} (h : P.inv σ) :
    P.Sound t σ σ :=
  ⟨h, P.guar_refl σ, fun j u _ => P.rely_refl j u σ⟩

section Always

variable (P : Protocol D S W) (i : InstId) (t : TaskId)

/-- What holds wherever the others may take the state. -/
def Protocol.Always (p : Shared D S W → Prop) (σ : Shared D S W) : Prop :=
  ∀ σ', P.rely i t σ σ' → P.inv σ' → p σ'

/-- The lock may be given back here, and then `p` holds. -/
def Protocol.Released (p : Shared D S W → Prop) (σ : Shared D S W) : Prop :=
  P.Sound t σ (σ.setLock i none) ∧ P.Always i t p (σ.setLock i none)

variable {P i t} {σ σ' : Shared D S W} {p q : Shared D S W → Prop}

theorem Protocol.Always.mono (h : P.Always i t p σ) (hpq : ∀ σ', P.inv σ' → p σ' → q σ') :
    P.Always i t q σ :=
  fun σ' hr hi => hpq σ' hi (h σ' hr hi)

theorem Protocol.Always.rely (h : P.Always i t p σ) (hr : P.rely i t σ σ') : P.Always i t p σ' :=
  fun σ'' hr' hi => h σ'' (P.rely_trans i t hr hr') hi

end Always

/-- The assertion survives the other tasks and the environment's own changes. -/
structure Protocol.Stable (P : Protocol D S W) (i : InstId) (t : TaskId) (A : Shared D S W → Prop) : Prop where
  rely : ∀ σ σ', P.rely i t σ σ' → A σ → A σ'
  world : ∀ σ w, P.inv σ → A σ → P.Sound t σ { σ with world := w } ∧ A { σ with world := w }

section Judgement

variable [SqlStatement S D] [Raises ε]
variable (P : Protocol D S W)
  (env : InstId → TaskId → Op S Q → Outcome Q Ans ε W → Shared D S W → Prop) (i : InstId) (t : TaskId)

def Ok : Prog D S Q Ans ε α → (α → Shared D S W → Prop) → (Shared D S W → Prop) → Shared D S W → Prop
  | .done (.ok a), post, _, σ => ∀ σ', P.rely i t σ σ' → P.inv σ' → post a σ'
  | .done (.error _), _, err, σ => ∀ σ', P.rely i t σ σ' → P.inv σ' → err σ'
  | .perform op k, post, err, σ => ∀ σ', P.rely i t σ σ' → P.inv σ' → ∀ o r σ'', env i t op o σ' →
      effect i t σ' op o = some (r, σ'') → P.Sound t σ' σ'' ∧ Ok (k r) post err σ''

variable {P env i t}
variable {post : α → Shared D S W → Prop} {err : Shared D S W → Prop} {σ σ' : Shared D S W}

theorem Ok.rely {p : Prog D S Q Ans ε α} (h : Ok P env i t p post err σ) (hr : P.rely i t σ σ') :
    Ok P env i t p post err σ' := by
  cases p with
  | done r => cases r <;> exact fun σ'' hr' hi => h σ'' (P.rely_trans i t hr hr') hi
  | perform op k => exact fun σ'' hr' hi => h σ'' (P.rely_trans i t hr hr') hi

/-- A judgement may be proved from what the others leave. -/
theorem Ok.of_always {p : Prog D S Q Ans ε α} (h : P.Always i t (Ok P env i t p post err) σ) :
    Ok P env i t p post err σ := by
  cases p with
  | done r => cases r <;> exact fun σ' hr hi => h σ' hr hi σ' (P.rely_refl i t σ') hi
  | perform op k => exact fun σ' hr hi => h σ' hr hi σ' (P.rely_refl i t σ') hi

theorem Ok.mono {p : Prog D S Q Ans ε α} {post' : α → Shared D S W → Prop} {err' : Shared D S W → Prop}
    (h : Ok P env i t p post err σ) (hpost : ∀ a σ', P.Always i t (post a) σ' → P.Always i t (post' a) σ')
    (herr : ∀ σ', P.Always i t err σ' → P.Always i t err' σ') : Ok P env i t p post' err' σ := by
  induction p generalizing σ with
  | done r =>
    cases r with
    | ok a => exact hpost a σ h
    | error e => exact herr σ h
  | perform op k ih =>
    intro σ' hr hi o r σ'' he hx
    obtain ⟨hs, hk⟩ := h σ' hr hi o r σ'' he hx
    exact ⟨hs, ih r hk⟩

theorem Ok.bind {p : Prog D S Q Ans ε α} {f : α → Prog D S Q Ans ε β} {post : β → Shared D S W → Prop}
    (h : Ok P env i t p (fun a => Ok P env i t (f a) post err) err σ) :
    Ok P env i t (p >>= f) post err σ := by
  induction p generalizing σ with
  | done r =>
    cases r with
    | ok a => exact Ok.of_always h
    | error e => exact h
  | perform op k ih =>
    intro σ' hr hi o r σ'' he hx
    obtain ⟨hs, hk⟩ := h σ' hr hi o r σ'' he hx
    exact ⟨hs, ih r hk⟩

theorem Ok.attempt {p : Prog D S Q Ans ε α} {post : Except ε α → Shared D S W → Prop}
    (h : Ok P env i t p (fun a => post (.ok a)) (fun σ => ∀ e, post (.error e) σ) σ) :
    Ok P env i t p.attempt post err σ := by
  induction p generalizing σ with
  | done r =>
    cases r with
    | ok a => exact h
    | error e => exact fun σ' hr hi => h σ' hr hi e
  | perform op k ih =>
    intro σ' hr hi o r σ'' he hx
    obtain ⟨hs, hk⟩ := h σ' hr hi o r σ'' he hx
    exact ⟨hs, ih r hk⟩

theorem Ok.pure {a : α} (h : P.Always i t (post a) σ) : Ok P env i t (.done (.ok a) : Prog D S Q Ans ε α) post err σ := h

theorem Ok.connection {post : ConnId → Shared D S W → Prop} (herr : P.Always i t err σ)
    (h : ∀ c σ', P.rely i t σ σ' → P.inv σ' → (σ'.handles i).db = some c → P.Always i t (post c) σ') :
    Ok P env i t (Prog.connection : Prog D S Q Ans ε ConnId) post err σ := by
  intro σ' hr hi o r σ'' _ hx
  obtain ⟨rfl, ⟨c, hc, rfl⟩ | ⟨-, rfl⟩⟩ := effect_connection hx
  · exact ⟨.refl hi, h c _ hr hi hc⟩
  · exact ⟨.refl hi, herr.rely hr⟩

theorem Ok.select {c : ConnId} {post : D → Shared D S W → Prop} (herr : P.Always i t err σ)
    (h : ∀ σ', P.rely i t σ σ' → P.inv σ' → c ∈ σ'.file.opened → P.Always i t (post (σ'.file.view c).data) σ') :
    Ok P env i t (Prog.select c : Prog D S Q Ans ε D) post err σ := by
  intro σ' hr hi o r σ'' _ hx
  obtain ⟨rfl, ⟨hc, rfl⟩ | ⟨e, rfl⟩⟩ := effect_select hx
  · exact ⟨.refl hi, h _ hr hi hc⟩
  · exact ⟨.refl hi, herr.rely hr⟩

theorem Ok.external {q : Q} {post : Ans q → Shared D S W → Prop} (herr : P.Always i t err σ)
    (h : ∀ σ' f w, P.rely i t σ σ' → P.inv σ' → env i t (.external q) (.answer f w) σ' →
      P.Sound t σ' { σ' with world := w } ∧
      match f q with
      | .ok a => P.Always i t (post a) { σ' with world := w }
      | .error _ => P.Always i t err { σ' with world := w }) :
    Ok P env i t (Prog.external q : Prog D S Q Ans ε (Ans q)) post err σ := by
  intro σ' hr hi o r σ'' he hx
  rcases effect_external hx with ⟨f, w, rfl, rfl, rfl⟩ | ⟨rfl, rfl⟩
  · obtain ⟨hs, ha⟩ := h σ' f w hr hi he
    refine ⟨hs, ?_⟩
    cases hf : f q with
    | ok a => rw [hf] at ha; exact ha
    | error e => rw [hf] at ha; exact ha
  · exact ⟨.refl hi, herr.rely hr⟩

theorem Ok.release {post : Unit → Shared D S W → Prop} (h : P.Always i t (P.Released i t (post ())) σ) :
    Ok P env i t (Prog.release : Prog D S Q Ans ε Unit) post err σ := by
  intro σ' hr hi o r σ'' _ hx
  obtain ⟨rfl, rfl⟩ := effect_release hx
  exact h σ' hr hi

theorem Ok.withLock {body : Prog D S Q Ans ε α} (herr : P.Always i t err σ)
    (h : ∀ σ', P.rely i t σ σ' → P.inv σ' → (σ'.handles i).lock = none →
      P.Sound t σ' (σ'.setLock i (some t)) ∧
      Ok P env i t body (fun a => P.Released i t (post a)) (P.Released i t err) (σ'.setLock i (some t))) :
    Ok P env i t (Prog.withLock body) post err σ := by
  intro σ' hr hi o r σ'' _ hx
  rcases effect_acquire hx with ⟨hl, rfl, rfl⟩ | ⟨rfl, rfl⟩
  · obtain ⟨hs, hb⟩ := h σ' hr hi hl
    refine ⟨hs, ?_⟩
    show Ok P env i t (body.attempt >>= fun r => Prog.release >>= fun _ => .done r) post err _
    refine Ok.bind (Ok.attempt (Ok.mono hb ?_ ?_))
    · intro a σ₁ ha σ₂ hr₂ _
      refine Ok.bind (Ok.release ((ha.rely hr₂).mono ?_))
      rintro σ₃ - ⟨hs₃, hp₃⟩
      exact ⟨hs₃, fun σ₄ hr₄ hi₄ => hp₃.rely hr₄⟩
    · intro σ₁ ha σ₂ hr₂ _ e
      refine Ok.bind (Ok.release ((ha.rely hr₂).mono ?_))
      rintro σ₃ - ⟨hs₃, hp₃⟩
      exact ⟨hs₃, fun σ₄ hr₄ hi₄ => hp₃.rely hr₄⟩
  · exact ⟨.refl hi, herr.rely hr⟩

/-- A program that only reads keeps every stable assertion. -/
theorem Ok.reads {p : Prog D S Q Ans ε α} {A : Shared D S W → Prop} (hp : p.Uses Op.isRead)
    (hA : P.Stable i t A) (h : A σ) : Ok P env i t p (fun _ => A) A σ := by
  induction p generalizing σ with
  | done r => cases r <;> exact fun σ' hr _ => hA.rely σ σ' hr h
  | perform op k ih =>
    intro σ' hr hi o r σ'' _ hx
    have h' := hA.rely σ σ' hr h
    cases op with
    | connection => obtain ⟨rfl, -⟩ := effect_connection hx; exact ⟨.refl hi, ih r (hp.2 r) h'⟩
    | select c => obtain ⟨rfl, -⟩ := effect_select hx; exact ⟨.refl hi, ih r (hp.2 r) h'⟩
    | external q =>
      rcases effect_external hx with ⟨f, w, -, -, rfl⟩ | ⟨-, rfl⟩
      · exact ⟨(hA.world σ' w hi h').1, ih r (hp.2 r) (hA.world σ' w hi h').2⟩
      · exact ⟨.refl hi, ih r (hp.2 r) h'⟩
    | _ => exact hp.1.elim

/-- Reads in front of a program that is fine wherever the assertion holds. -/
theorem Ok.reads_bind {p : Prog D S Q Ans ε β} {f : β → Prog D S Q Ans ε α} {A : Shared D S W → Prop}
    (hp : p.Uses Op.isRead) (hA : P.Stable i t A) (herr : ∀ σ', P.inv σ' → A σ' → err σ')
    (hf : ∀ b σ', P.inv σ' → A σ' → Ok P env i t (f b) post err σ') (h : A σ) :
    Ok P env i t (p >>= f) post err σ :=
  Ok.bind (Ok.mono (Ok.reads hp hA h) (fun b _ hb => hb.mono (hf b)) (fun _ he => he.mono herr))

end Judgement

section Runs

variable {C R : Type} [SqlStatement S D] [Raises ε]

/-- The change is one that no task minds. -/
structure Protocol.Tolerated (P : Protocol D S W) (σ σ' : Shared D S W) : Prop where
  inv : P.inv σ'
  guar : P.guar σ σ'
  rely : ∀ i t, P.rely i t σ σ'

/-- Every call is fine from every state in which its task is new, and so are opening and
closing connections. -/
structure Verified (P : Protocol D S W) (rules : Rules D S W Q Ans ε C) (body : C → Prog D S Q Ans ε R)
    (post : InstId → TaskId → C → R → Shared D S W → Prop)
    (err : InstId → TaskId → C → Shared D S W → Prop) : Prop where
  call : ∀ i c t σ, rules.calls i c → P.inv σ → ¬ σ.Mentions t →
    Ok P rules.env i t (body c) (post i t c) (err i t c) σ
  connect : ∀ i σ σ', rules.connects i σ → P.inv σ → connectShared i σ = some σ' → P.Tolerated σ σ'
  close : ∀ i σ σ', rules.closes i σ → P.inv σ → closeShared i σ = some σ' → P.Tolerated σ σ'
  detach : ∀ i σ σ', P.inv σ → detachShared i σ = some σ' → P.Tolerated σ σ'

variable {P : Protocol D S W} {rules : Rules D S W Q Ans ε C} {body : C → Prog D S Q Ans ε R}
variable {post : InstId → TaskId → C → R → Shared D S W → Prop}
variable {err : InstId → TaskId → C → Shared D S W → Prop}
variable {s s' : Sys D S W Q Ans ε C R}

structure Good (P : Protocol D S W) (rules : Rules D S W Q Ans ε C)
    (post : InstId → TaskId → C → R → Shared D S W → Prop)
    (err : InstId → TaskId → C → Shared D S W → Prop) (s : Sys D S W Q Ans ε C R) : Prop where
  inv : P.inv s.shared
  fresh : ∀ t, s.tasks.length ≤ t → ¬ s.shared.Mentions t
  tasks : ∀ t i c p, s.tasks[t]? = some ⟨i, c, p⟩ →
    Ok P rules.env i t p (post i t c) (err i t c) s.shared

theorem Good.tolerated {σ : Shared D S W} (hs : Good P rules post err s) (ht : P.Tolerated s.shared σ)
    (hm : ∀ t, σ.Mentions t → s.shared.Mentions t) : Good P rules post err { s with shared := σ } where
  inv := ht.inv
  fresh t h hmt := hs.fresh t h (hm t hmt)
  tasks t i c p h := (hs.tasks t i c p h).rely (ht.rely i t)

theorem runTask_some {t : TaskId} {o : Outcome Q Ans ε W} (h : runTask t o s = some s') :
    ∃ i c op k r σ, s.tasks[t]? = some ⟨i, c, .perform op k⟩ ∧ effect i t s.shared op o = some (r, σ) ∧
      s' = ⟨σ, s.tasks.set t ⟨i, c, k r⟩⟩ := by
  unfold runTask at h
  split at h
  · rename_i i c op k ht
    split at h <;> cases h
    exact ⟨i, c, op, k, _, _, ht, by assumption, rfl⟩
  · cases h

theorem Good.run {t : TaskId} {o : Outcome Q Ans ε W} (hs : Good P rules post err s)
    (ha : rules.Allows s (.run t o)) (h : runTask t o s = some s') :
    Good P rules post err s' ∧ P.guar s.shared s'.shared := by
  obtain ⟨i, c, op, k, r, σ, ht, hx, rfl⟩ := runTask_some h
  obtain ⟨hsound, hk⟩ := hs.tasks t i c _ ht s.shared (P.rely_refl i t _) hs.inv o r σ
    (ha i c op k ht) hx
  have hlt : t < s.tasks.length := (List.getElem?_eq_some_iff.mp ht).1
  refine ⟨⟨hsound.inv, ?_, ?_⟩, hsound.guar⟩
  · intro u hu hm
    rw [List.length_set] at hu
    exact hs.fresh u hu (effect_mentions hx (Nat.ne_of_gt (Nat.lt_of_lt_of_le hlt hu)) hm)
  · intro u j d p hu
    by_cases hut : u = t
    · subst hut
      rw [List.getElem?_set_self hlt] at hu
      cases hu
      exact hk
    · rw [List.getElem?_set_ne (Ne.symm hut)] at hu
      exact (hs.tasks u j d p hu).rely (hsound.rely j u hut)

theorem Good.call (hv : Verified P rules body post err) (hs : Good P rules post err s) {i : InstId} {c : C}
    (ha : rules.calls i c) : Good P rules post err ⟨s.shared, s.tasks ++ [⟨i, c, body c⟩]⟩ where
  inv := hs.inv
  fresh t h := hs.fresh t (Nat.le_trans (by rw [List.length_append]; exact Nat.le_add_right _ _) h)
  tasks t j d p h := by
    by_cases hlt : t < s.tasks.length
    · rw [List.getElem?_append_left hlt] at h
      exact hs.tasks t j d p h
    · rw [List.getElem?_append_right (Nat.not_lt.mp hlt), List.getElem?_singleton] at h
      split at h <;> cases h
      exact hv.call i c t s.shared ha hs.inv (hs.fresh t (Nat.not_lt.mp hlt))

theorem Verified.step (hv : Verified P rules body post err) (hs : Good P rules post err s)
    (h : Step body rules s s') : Good P rules post err s' ∧ P.guar s.shared s'.shared := by
  obtain ⟨e, ha, he⟩ := h
  cases e with
  | call i c =>
    cases he
    exact ⟨hs.call hv ha, P.guar_refl _⟩
  | run t o => exact hs.run ha he
  | connect i =>
    obtain ⟨σ, hσ, rfl⟩ := Option.map_eq_some_iff.mp he
    have ht := hv.connect i _ σ ha hs.inv hσ
    exact ⟨hs.tolerated ht (fun _ => connectShared_mentions hσ), ht.guar⟩
  | close i =>
    obtain ⟨σ, hσ, rfl⟩ := Option.map_eq_some_iff.mp he
    have ht := hv.close i _ σ ha hs.inv hσ
    exact ⟨hs.tolerated ht (fun _ => closeShared_mentions hσ), ht.guar⟩
  | detach i =>
    obtain ⟨σ, hσ, rfl⟩ := Option.map_eq_some_iff.mp he
    have ht := hv.detach i _ σ hs.inv hσ
    exact ⟨hs.tolerated ht (fun _ => detachShared_mentions hσ), ht.guar⟩

/-- Whatever the calls are verified for holds along every run. -/
theorem Verified.run (hv : Verified P rules body post err) (hs : Good P rules post err s)
    (h : Run body rules s s') : Good P rules post err s' ∧ P.guar s.shared s'.shared := by
  induction h with
  | refl => exact ⟨hs, P.guar_refl _⟩
  | tail _ hstep ih =>
    obtain ⟨hg, hstep⟩ := hv.step ih.1 hstep
    exact ⟨hg, P.guar_trans ih.2 hstep⟩

theorem Good.result (hs : Good P rules post err s) {t : TaskId} {i : InstId} {c : C} {a : R}
    (ht : s.tasks[t]? = some ⟨i, c, .done (.ok a)⟩) : post i t c a s.shared :=
  hs.tasks t i c _ ht s.shared (P.rely_refl i t _) hs.inv

theorem Good.start {σ : Shared D S W} (hi : P.inv σ) (hm : ∀ t, ¬ σ.Mentions t) :
    Good P rules post err (⟨σ, []⟩ : Sys D S W Q Ans ε C R) where
  inv := hi
  fresh t _ := hm t
  tasks t i c p h := by simp at h

end Runs
end NexusCone.RelyGuarantee
