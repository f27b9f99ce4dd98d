import NexusCone.GrowingVersions

/-!
# The lock of the only instance

Where all tasks belong to one instance and write under its lock only, the holder of the lock finds
what its connection sees unchanged, however the other tasks are scheduled and whatever fails: it
may act on what it has read until it gives the lock back.
-/
namespace NexusCone.ExclusiveLock
open SharedFile AsyncProgram AsyncSystem Connections RelyGuarantee GrowingVersions

section Protocol

variable {D S W : Type} (G : Growth D S) (i : InstId)

def Held (t : TaskId) (σ : Shared D S W) : Prop := (σ.handles i).lock = some t

/-- Open connections see what they saw. -/
def Still (σ σ' : Shared D S W) : Prop :=
  ∀ c < σ.nextConn, c ∈ σ'.file.opened → σ'.file.view c = σ.file.view c

/-- What the other tasks may do: let the versions grow, and nothing while the task holds the lock. -/
structure Leaves (t : TaskId) (σ σ' : Shared D S W) : Prop where
  grows : G.Grows σ σ'
  held : Held i t σ → Held i t σ' ∧ Still σ σ'

variable {G i} {t : TaskId} {c : ConnId} {v : Version D S} {σ σ' : Shared D S W}

theorem Leaves.refl (σ : Shared D S W) : Leaves G i t σ σ := ⟨Growth.Grows.refl σ, fun h => ⟨h, fun _ _ _ => rfl⟩⟩

theorem Leaves.trans {σ₁ σ₂ σ₃ : Shared D S W} (h : Leaves G i t σ₁ σ₂) (h' : Leaves G i t σ₂ σ₃) :
    Leaves G i t σ₁ σ₃ := by
  refine ⟨h.grows.trans h'.grows, fun hheld => ?_⟩
  obtain ⟨hheld₂, hstill⟩ := h.held hheld
  obtain ⟨hheld₃, hstill'⟩ := h'.held hheld₂
  refine ⟨hheld₃, fun c hc ho => ?_⟩
  have hc' := lt_of_lt_of_le hc h.grows.rewired.nextConn
  rw [hstill' c hc' ho, hstill c hc (h'.grows.rewired.opened c hc' ho)]

variable (G i) in
def protocol (W : Type) : Protocol D S W where
  inv := G.Inv
  rely _ t := Leaves G i t
  guar := G.Grows
  rely_refl _ _ := Leaves.refl
  rely_trans _ _ := Leaves.trans
  guar_refl := Growth.Grows.refl
  guar_trans := Growth.Grows.trans

/-- Nobody minds a change that leaves the lock and the views alone. -/
theorem tolerated_still (hi : G.Inv σ') (hg : G.Grows σ σ') (hl : (σ'.handles i).lock = (σ.handles i).lock)
    (hs : Still σ σ') : (protocol G i W).Tolerated σ σ' :=
  ⟨hi, hg, fun _ _ => ⟨hg, fun h => ⟨hl.trans h, hs⟩⟩⟩

theorem sound_still (hi : G.Inv σ') (hg : G.Grows σ σ') (hl : (σ'.handles i).lock = (σ.handles i).lock)
    (hs : Still σ σ') : (protocol G i W).Sound t σ σ' :=
  ⟨hi, hg, fun j u _ => ((tolerated_still hi hg hl hs).rely j u : Leaves G i u σ σ')⟩

/-- While the task holds the lock, no other does. -/
theorem sound_held (hheld : Held i t σ) (hi : G.Inv σ') (hg : G.Grows σ σ') : (protocol G i W).Sound t σ σ' :=
  ⟨hi, hg, fun _ _ hu => ⟨hg, fun h => absurd (Option.some.inj (h.symm.trans hheld)) hu⟩⟩

theorem sound_acquire (hi : G.Inv σ) (hfree : (σ.handles i).lock = none) :
    (protocol G i W).Sound t σ (σ.setLock i (some t)) := by
  obtain ⟨hi', hg⟩ := Growth.same_file (τ := σ.setLock i (some t)) hi rfl rfl fun j => Shared.setLock_db σ i j _
  refine ⟨hi', hg, fun j u _ => ⟨hg, fun h => ?_⟩⟩
  rw [Held, hfree] at h
  cases h

theorem sound_release (hi : G.Inv σ) (hheld : Held i t σ) :
    (protocol G i W).Sound t σ (σ.setLock i none) := by
  obtain ⟨hi', hg⟩ := Growth.same_file (τ := σ.setLock i none) hi rfl rfl fun j => Shared.setLock_db σ i j _
  exact sound_held hheld hi' hg

theorem leaves_world (hi : G.Inv σ) (w : W) :
    G.Inv { σ with world := w } ∧ Leaves G i t σ { σ with world := w } := by
  obtain ⟨hi', hg⟩ := Growth.same_file (τ := { σ with world := w }) hi rfl rfl fun _ => rfl
  exact ⟨hi', hg, fun h => ⟨h, fun _ _ _ => rfl⟩⟩

/-- The holder of the lock finds this version on the connection, if it is still open. -/
structure Sees (i : InstId) (t : TaskId) (c : ConnId) (v : Version D S) (σ : Shared D S W) : Prop where
  held : Held i t σ
  view : c < σ.nextConn ∧ (c ∈ σ.file.opened → σ.file.view c = v)

theorem Sees.leave (h : Sees i t c v σ) (hl : Leaves G i t σ σ') : Sees i t c v σ' := by
  obtain ⟨hheld, hstill⟩ := hl.held h.held
  refine ⟨hheld, lt_of_lt_of_le h.view.1 hl.grows.rewired.nextConn, fun ho => ?_⟩
  rw [hstill c h.view.1 ho, h.view.2 (hl.grows.rewired.opened c h.view.1 ho)]

theorem stable_leaves {τ : Shared D S W} : (protocol G i W).Stable i t (Leaves G i t τ) where
  rely _ _ hr h := h.trans hr
  world _ w hi h := by
    obtain ⟨hi', hl⟩ := leaves_world (i := i) (t := t) hi w
    exact ⟨sound_still hi' hl.grows rfl fun _ _ _ => rfl, h.trans hl⟩

theorem connect_tolerated {j : InstId} (h : G.Inv σ) (hc : connectShared j σ = some σ') :
    (protocol G i W).Tolerated σ σ' := by
  obtain ⟨hi, hg⟩ := Growth.connect_grows h hc
  obtain ⟨-, rfl⟩ := connectShared_some hc
  exact tolerated_still hi hg (Shared.setDb_lock σ j i _) fun _ _ _ => rfl

theorem close_tolerated {j : InstId} (h : G.Inv σ) (hc : closeShared j σ = some σ') :
    (protocol G i W).Tolerated σ σ' := by
  obtain ⟨hi, hg⟩ := Growth.close_grows h hc
  obtain ⟨c, -, rfl⟩ := closeShared_some hc
  exact tolerated_still hi hg rfl fun d _ ho => File.view_close (File.mem_opened_close.mp ho).2

theorem detach_tolerated {j : InstId} (h : G.Inv σ) (hc : detachShared j σ = some σ') :
    (protocol G i W).Tolerated σ σ' := by
  obtain ⟨hi, hg⟩ := Growth.detach_grows h hc
  obtain ⟨c, -, -, rfl⟩ := detachShared_some hc
  exact tolerated_still hi hg (Shared.setDb_lock σ j i _) fun _ _ _ => rfl

end Protocol

section Judgement

variable {D S W Q ε α β : Type} {Ans : Q → Type} [SqlStatement S D] [Raises ε]
variable {G : Growth D S} {i : InstId} {t : TaskId} {c : ConnId} {σ : Shared D S W}
variable {env : InstId → TaskId → Op S Q → Outcome Q Ans ε W → Shared D S W → Prop} {statement : S → Prop}

variable (G i t env) in
/-- The judgement for whole calls. -/
abbrev CallOk (p : Prog D S Q Ans ε α) (σ : Shared D S W) : Prop :=
  Ok (protocol G i W) env i t p (fun _ _ => True) (fun _ => True) σ

variable (G i t env) in
/-- The judgement for what is done under the lock. -/
abbrev InLock (p : Prog D S Q Ans ε α) (σ : Shared D S W) : Prop :=
  Ok (protocol G i W) env i t p (fun _ => Held i t) (Held i t) σ

theorem InLock.raise {e : ε} (h : Held i t σ) : InLock G i t env (.done (.error e) : Prog D S Q Ans ε α) σ :=
  fun _ hr _ => (hr.held h).1

theorem InLock.pure {a : α} (h : Held i t σ) : InLock G i t env (.done (.ok a) : Prog D S Q Ans ε α) σ :=
  fun _ hr _ => (hr.held h).1

theorem CallOk.connection {f : ConnId → Prog D S Q Ans ε α}
    (h : ∀ c σ', G.Grows σ σ' → Owns i c σ' → CallOk G i t env (f c) σ') :
    CallOk G i t env (Prog.connection >>= f) σ := by
  refine Ok.bind (Ok.connection (fun _ _ _ => trivial) fun c σ₁ hr hi hdb σ₂ hr₂ _ => ?_)
  exact (h c σ₁ hr.grows (hi.wired.owns hdb)).rely hr₂

theorem CallOk.withLock {body : Prog D S Q Ans ε α}
    (h : ∀ σ', G.Grows σ σ' → Held i t σ' → InLock G i t env body σ') :
    CallOk G i t env (Prog.withLock body) σ := by
  refine Ok.withLock (fun _ _ _ => trivial) fun σ' hr hi hfree => ?_
  have hs := sound_acquire (t := t) hi hfree
  refine ⟨hs, Ok.mono (h _ (hr.grows.trans hs.guar) (Shared.setLock_lock_self σ' i (some t))) ?_ ?_⟩
  · exact fun _ _ hb => hb.mono fun σ₂ hi₂ hheld => ⟨sound_release hi₂ hheld, fun _ _ _ => trivial⟩
  · exact fun _ hb => hb.mono fun σ₂ hi₂ hheld => ⟨sound_release hi₂ hheld, fun _ _ _ => trivial⟩

theorem InLock.reads {p : Prog D S Q Ans ε β} {f : β → Prog D S Q Ans ε α} (hp : p.Uses Op.isRead)
    (hheld : Held i t σ) (hf : ∀ b σ', Leaves G i t σ σ' → InLock G i t env (f b) σ') :
    InLock G i t env (p >>= f) σ :=
  Ok.reads_bind hp stable_leaves (fun _ _ h => (h.held hheld).1) (fun b σ' _ h => hf b σ' h) (Leaves.refl σ)

/-- A read on the instance's present connection shows what an earlier one sees, if that is still
open, until the lock is given back. -/
theorem InLock.reread {f : D → Prog D S Q Ans ε α} (hown : Owns i c σ) (hheld : Held i t σ)
    (hf : ∀ v σ', Leaves G i t σ σ' → Sees i t c v σ' → InLock G i t env (f v.data) σ') :
    InLock G i t env (Prog.connection >>= fun db => Prog.select db >>= f) σ := by
  have herr {σ₁ : Shared D S W} (h : Held i t σ₁) : (protocol G i W).Always i t (Held i t) σ₁ :=
    fun _ hr _ => (hr.held h).1
  refine Ok.bind (Ok.connection (herr hheld) fun c' σ₁ hr₁ _ hdb σ₂ hr₂ _ => ?_)
  have hheld₂ := ((hr₁.trans hr₂).held hheld).1
  refine Ok.bind (Ok.select (herr hheld₂) fun σ₃ hr₃ _ _ σ₄ hr₄ _ => ?_)
  have hown₁ := hown.rewired hr₁.grows.rewired
  have hsees : Sees i t c (σ₃.file.view c') σ₃ := by
    refine ⟨(hr₃.held hheld₂).1, (hown₁.rewired (hr₂.trans hr₃).grows.rewired).1, fun ho => ?_⟩
    rcases hown₁.eq_or_closed hdb with rfl | hclosed
    · rfl
    · exact absurd ((hr₂.trans hr₃).grows.rewired.opened c hown₁.1 ho) hclosed
  exact hf _ σ₄ (hr₁.trans (hr₂.trans (hr₃.trans hr₄))) (hsees.leave hr₄)

/-- What a read on a connection shows is what the connection sees until the lock is given back. -/
theorem InLock.select {f : D → Prog D S Q Ans ε α} (hc : c < σ.nextConn) (hheld : Held i t σ)
    (hf : ∀ v σ', Leaves G i t σ σ' → Sees i t c v σ' → InLock G i t env (f v.data) σ') :
    InLock G i t env (Prog.select c >>= f) σ := by
  refine Ok.bind (Ok.select (fun _ hr _ => (hr.held hheld).1) fun σ₁ hr₁ _ _ σ₂ hr₂ _ => ?_)
  have hsees : Sees i t c (σ₁.file.view c) σ₁ :=
    ⟨(hr₁.held hheld).1, lt_of_lt_of_le hc hr₁.grows.rewired.nextConn, fun _ => rfl⟩
  exact hf _ σ₂ (hr₁.trans hr₂) (hsees.leave hr₂)

/-- The instance's connection, in a state where the rules let the task ask for it. -/
theorem InLock.connection {f : ConnId → Prog D S Q Ans ε α} (hheld : Held i t σ)
    (hf : ∀ d σ' o, Leaves G i t σ σ' → env i t .connection o σ' → (σ'.handles i).db = some d → Owns i d σ' →
      InLock G i t env (f d) σ') :
    InLock G i t env (Prog.connection >>= f) σ := by
  refine Ok.bind ?_
  intro σ₁ hr hi o r σ₂ henv hx
  obtain ⟨rfl, ⟨d, hdb, rfl⟩ | ⟨-, rfl⟩⟩ := effect_connection hx
  · exact ⟨.refl hi, fun _ hr' _ => (hf d _ o hr henv hdb (hi.wired.owns hdb)).rely hr'⟩
  · exact ⟨.refl hi, fun _ hr' _ => ((hr.trans hr').held hheld).1⟩

/-- An answer that the rules let the environment give. -/
theorem InLock.external {q : Q} {f : Ans q → Prog D S Q Ans ε α} (hheld : Held i t σ)
    (hf : ∀ a σ₁ σ' g w, Leaves G i t σ σ₁ → env i t (.external q) (.answer g w) σ₁ → g q = .ok a →
      Leaves G i t σ₁ σ' → InLock G i t env (f a) σ') :
    InLock G i t env (Prog.external q >>= f) σ := by
  refine Ok.bind ?_
  intro σ₁ hr hi o r σ₂ henv hx
  rcases effect_external hx with ⟨g, w, rfl, rfl, rfl⟩ | ⟨rfl, rfl⟩
  · obtain ⟨hi', hl⟩ := leaves_world (i := i) (t := t) hi w
    refine ⟨sound_still hi' hl.grows rfl fun _ _ _ => rfl, ?_⟩
    cases hg : g q with
    | ok a => exact fun σ₃ hr' _ => (hf a σ₁ _ g w hr henv hg hl).rely hr'
    | error e => exact fun σ₃ hr' _ => ((hr.trans (hl.trans hr')).held hheld).1
  · exact ⟨.refl hi, fun _ hr' _ => ((hr.trans hr').held hheld).1⟩

/-- The holder's statement turns what its connection sees into a good larger version, or leaves it. -/
theorem sound_execute {s : S} {o : Outcome Q Ans ε W} {r : Except ε ℤ} {σ' : Shared D S W} (hheld : Held i t σ)
    (hi : G.Inv σ) (hx : effect i t σ (.execute c s) o = some (r, σ'))
    (hs : ∀ d n, o.performs → σ.file.MayWrite c → exec s (σ.file.view c).data = .ok (d, n) →
      G.good ⟨d, (σ.file.view c).journal ++ [(t, s, n)]⟩ ∧
        G.le (σ.file.view c) ⟨d, (σ.file.view c).journal ++ [(t, s, n)]⟩) :
    (protocol G i W).Sound t σ σ' ∧ Held i t σ' := by
  rcases effect_execute hx with ⟨d, n, hw, hex, -, rfl⟩ | ⟨e, g, l, -, hg, -, rfl⟩
  · obtain ⟨hgood, hle⟩ := hs d n (performs_of_write hx) hw hex
    obtain ⟨hi', hg⟩ := Growth.write_grows hi hw hgood hle
    exact ⟨sound_held hheld hi' hg, hheld⟩
  · obtain ⟨hi', hg⟩ := Growth.locked_grows (l := l) hi hg
    exact ⟨sound_held hheld hi' hg, hheld⟩

theorem sound_commit {o : Outcome Q Ans ε W} {r : Except ε Unit} {σ' : Shared D S W} (hheld : Held i t σ)
    (hi : G.Inv σ) (hx : effect (S := S) i t σ (.commit c) o = some (r, σ')) :
    (protocol G i W).Sound t σ σ' ∧ Held i t σ' := by
  rcases effect_commit hx with ⟨v, -, hp, -, rfl⟩ | ⟨-, -, -, rfl⟩ | ⟨e, l, -, -, rfl⟩
  · obtain ⟨hi', hg⟩ := Growth.publish_grows hi hp
    exact ⟨sound_held hheld hi' hg, hheld⟩
  · exact ⟨.refl hi, hheld⟩
  · obtain ⟨hi', hg⟩ := Growth.same_file (τ := { σ with failed := l }) hi rfl rfl fun _ => rfl
    exact ⟨sound_held hheld hi' hg, hheld⟩

/-- The statement, if accepted, turns the version that the holder has read into a good larger one. -/
theorem InLock.execute {s : S} {f : ℤ → Prog D S Q Ans ε α} (hheld : Held i t σ)
    (hs : ∀ σ' d n, Leaves G i t σ σ' → G.Inv σ' → c ∈ σ'.file.opened →
      exec s (σ'.file.view c).data = .ok (d, n) →
      G.good ⟨d, (σ'.file.view c).journal ++ [(t, s, n)]⟩ ∧
        G.le (σ'.file.view c) ⟨d, (σ'.file.view c).journal ++ [(t, s, n)]⟩)
    (hf : ∀ n σ', Held i t σ' → InLock G i t env (f n) σ') :
    InLock G i t env (Prog.execute c s >>= f) σ := by
  refine Ok.bind ?_
  intro σ₁ hr hi o r σ₂ _ hx
  obtain ⟨hsound, hheld₂⟩ := sound_execute (hr.held hheld).1 hi hx fun d n _ hw => hs σ₁ d n hr hi hw.1
  refine ⟨hsound, ?_⟩
  cases r with
  | ok n => exact fun σ₃ hr' _ => hf n σ₃ (hr'.held hheld₂).1
  | error e => exact fun σ₃ hr' _ => (hr'.held hheld₂).1

theorem InLock.commit {a : α} (hheld : Held i t σ) :
    InLock G i t env (Prog.commit c >>= fun _ => .done (.ok a) : Prog D S Q Ans ε α) σ := by
  refine Ok.bind ?_
  intro σ₁ hr hi o r σ₂ _ hx
  obtain ⟨hsound, hheld₂⟩ := sound_commit (hr.held hheld).1 hi hx
  refine ⟨hsound, ?_⟩
  cases r with
  | ok u => exact fun σ₃ hr' _ => InLock.pure (hr'.held hheld₂).1
  | error e => exact fun σ₃ hr' _ => (hr'.held hheld₂).1

/-- A program that writes under the lock only, with statements that are good for growth wherever the
environment lets them run. -/
theorem callOk_of_steps {p : Prog D S Q Ans ε α} {held : Bool} (hp : p.Guarded statement held)
    (hheld : held = true → Held i t σ)
    (hs : ∀ σ' o c s d n, statement s → env i t (.execute c s) o σ' → o.performs → σ'.file.MayWrite c →
      G.good (σ'.file.view c) → exec s (σ'.file.view c).data = .ok (d, n) →
      G.good ⟨d, (σ'.file.view c).journal ++ [(t, s, n)]⟩ ∧
        G.le (σ'.file.view c) ⟨d, (σ'.file.view c).journal ++ [(t, s, n)]⟩) :
    CallOk G i t env p σ := by
  induction p generalizing held σ with
  | done r => cases r <;> exact fun _ _ _ => trivial
  | perform op k ih =>
    intro σ₁ hr hi o r σ₂ he hx
    have hheld₁ : held = true → Held i t σ₁ := fun h => (hr.held (hheld h)).1
    cases op with
    | connection =>
      obtain ⟨rfl, -⟩ := effect_connection hx
      exact ⟨.refl hi, ih r (hp.2 r) hheld₁⟩
    | select c =>
      obtain ⟨rfl, -⟩ := effect_select hx
      exact ⟨.refl hi, ih r (hp.2 r) hheld₁⟩
    | external q =>
      rcases effect_external hx with ⟨f, w, -, -, rfl⟩ | ⟨-, rfl⟩
      · obtain ⟨hi', hl⟩ := leaves_world (i := i) (t := t) hi w
        exact ⟨sound_still hi' hl.grows rfl fun _ _ _ => rfl, ih r (hp.2 r) hheld₁⟩
      · exact ⟨.refl hi, ih r (hp.2 r) hheld₁⟩
    | acquire =>
      obtain ⟨rfl, hok, herror⟩ := hp
      rcases effect_acquire hx with ⟨hfree, rfl, rfl⟩ | ⟨rfl, rfl⟩
      · exact ⟨sound_acquire hi hfree, ih _ hok fun _ => Shared.setLock_lock_self σ₁ i (some t)⟩
      · exact ⟨.refl hi, ih _ (herror _) (fun h => by cases h)⟩
    | release =>
      obtain ⟨rfl, hk⟩ := hp
      obtain ⟨rfl, rfl⟩ := effect_release hx
      exact ⟨sound_release hi (hheld₁ rfl), ih _ (hk _) (fun h => by cases h)⟩
    | execute c s =>
      obtain ⟨hop | ⟨rfl, hstatement⟩, hk⟩ := hp
      · exact hop.elim
      obtain ⟨hsound, hheld₂⟩ := sound_execute (hheld₁ rfl) hi hx fun d n hran hw hex =>
        hs σ₁ o c s d n hstatement he hran hw (hi.view c).1 hex
      exact ⟨hsound, ih r (hk r) fun _ => hheld₂⟩
    | commit c =>
      obtain ⟨hop | ⟨rfl, -⟩, hk⟩ := hp
      · exact hop.elim
      obtain ⟨hsound, hheld₂⟩ := sound_commit (hheld₁ rfl) hi hx
      exact ⟨hsound, ih r (hk r) fun _ => hheld₂⟩

/-- A program that writes under the lock only, with statements that are always good for growth. -/
theorem callOk_of_guarded {p : Prog D S Q Ans ε α} {held : Bool} (hp : p.Guarded statement held)
    (hheld : held = true → Held i t σ)
    (hs : ∀ s v d n, statement s → G.good v → exec s v.data = .ok (d, n) →
      G.good ⟨d, v.journal ++ [(t, s, n)]⟩ ∧ G.le v ⟨d, v.journal ++ [(t, s, n)]⟩) :
    CallOk G i t env p σ :=
  callOk_of_steps hp hheld fun _ _ _ s d n hstatement _ _ _ hgood hex => hs s _ d n hstatement hgood hex

end Judgement

section Runs

variable {D S W Q ε C R : Type} {Ans : Q → Type} [SqlStatement S D] [Raises ε]
variable {G : Growth D S} {i : InstId}

/-- Runs whose calls are all on the one instance. -/
theorem verified {rules : Rules D S W Q Ans ε C} {body : C → Prog D S Q Ans ε R}
    (honly : ∀ j c, rules.calls j c → j = i)
    (hcall : ∀ c t σ, rules.calls i c → G.Inv σ → CallOk G i t rules.env (body c) σ) :
    Verified (protocol G i W) rules body (fun _ _ _ _ _ => True) (fun _ _ _ _ => True) where
  call j c t σ hc hi _ := by
    obtain rfl := honly j c hc
    exact hcall c t σ hc hi
  connect _ _ _ _ hi h := connect_tolerated hi h
  close _ _ _ _ hi h := close_tolerated hi h
  detach _ _ _ hi h := detach_tolerated hi h

end Runs
end NexusCone.ExclusiveLock
