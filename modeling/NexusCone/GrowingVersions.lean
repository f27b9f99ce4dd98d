import NexusCone.Connections
import NexusCone.RelyGuarantee

/-!
# Databases whose versions only grow

When every accepted statement turns a good version into a good larger one, committed contents
only grow, and so does what an open connection sees: other connections publish larger versions
and a connection drops its own writes only by being closed. A task may therefore carry what it
has seen on its connection to its next operation, with no lock held.
-/
namespace NexusCone.GrowingVersions
open SharedFile AsyncProgram AsyncSystem Connections RelyGuarantee

structure Growth (D S : Type) where
  good : Version D S → Prop
  le : Version D S → Version D S → Prop
  refl : ∀ v, le v v
  trans : ∀ {u v w}, le u v → le v w → le u w

namespace Growth

variable {D S W : Type} (G : Growth D S)

structure Inv (σ : Shared D S W) : Prop where
  wired : Wired σ
  committed : G.good σ.file.committed
  pending : ∀ p ∈ σ.file.pending, G.good p.2 ∧ G.le σ.file.committed p.2

structure Grows (σ σ' : Shared D S W) : Prop where
  rewired : Rewired σ σ'
  committed : G.le σ.file.committed σ'.file.committed
  view : ∀ c < σ.nextConn, c ∈ σ'.file.opened → G.le (σ.file.view c) (σ'.file.view c)

/-- The connection, while it is open, sees the version or a larger one. -/
def Seen (c : ConnId) (v : Version D S) (σ : Shared D S W) : Prop :=
  c < σ.nextConn ∧ (c ∈ σ.file.opened → G.le v (σ.file.view c))

def Durable (v : Version D S) (σ : Shared D S W) : Prop := G.le v σ.file.committed

variable {G} {σ σ' : Shared D S W} {c : ConnId} {v : Version D S}

theorem Grows.refl (σ : Shared D S W) : G.Grows σ σ :=
  ⟨.refl σ, G.refl _, fun _ _ _ => G.refl _⟩

theorem Grows.trans {σ₁ σ₂ σ₃ : Shared D S W} (h : G.Grows σ₁ σ₂) (h' : G.Grows σ₂ σ₃) :
    G.Grows σ₁ σ₃ where
  rewired := h.rewired.trans h'.rewired
  committed := G.trans h.committed h'.committed
  view c hc ho := by
    have hc' := lt_of_lt_of_le hc h.rewired.nextConn
    exact G.trans (h.view c hc (h'.rewired.opened c hc' ho)) (h'.view c hc' ho)

theorem Seen.grow (h : G.Seen c v σ) (hg : G.Grows σ σ') : G.Seen c v σ' :=
  ⟨lt_of_lt_of_le h.1 hg.rewired.nextConn, fun ho =>
    G.trans (h.2 (hg.rewired.opened c h.1 ho)) (hg.view c h.1 ho)⟩

/-- A closed connection sees nothing any more. -/
theorem seen_of_closed (hc : c < σ.nextConn) (hno : c ∉ σ.file.opened) : G.Seen c v σ :=
  ⟨hc, fun ho => absurd ho hno⟩

theorem Durable.grow (h : G.Durable v σ) (hg : G.Grows σ σ') : G.Durable v σ' :=
  G.trans h hg.committed

variable (G) in
def protocol (W : Type) : Protocol D S W where
  inv := G.Inv
  rely _ _ := G.Grows
  guar := G.Grows
  rely_refl _ _ := Grows.refl
  rely_trans _ _ := Grows.trans
  guar_refl := Grows.refl
  guar_trans := Grows.trans

theorem sound {t : TaskId} (hi : G.Inv σ') (hg : G.Grows σ σ') : (G.protocol W).Sound t σ σ' :=
  ⟨hi, hg, fun _ _ _ => hg⟩

theorem tolerated (hi : G.Inv σ') (hg : G.Grows σ σ') : (G.protocol W).Tolerated σ σ' :=
  ⟨hi, hg, fun _ _ => hg⟩

theorem Inv.view (h : G.Inv σ) (c : ConnId) :
    G.good (σ.file.view c) ∧ G.le σ.file.committed (σ.file.view c) := by
  unfold File.view
  split
  · rename_i d v hp
    split
    · exact h.pending _ hp
    · exact ⟨h.committed, G.refl _⟩
  · exact ⟨h.committed, G.refl _⟩

/-- A connection, also one that is opened later, sees what it would have seen or more. -/
theorem Grows.view_of_opened (hg : G.Grows σ σ') (hi : G.Inv σ) (hi' : G.Inv σ') (ho : c ∈ σ'.file.opened) :
    G.le (σ.file.view c) (σ'.file.view c) := by
  by_cases hc : c < σ.nextConn
  · exact hg.view c hc ho
  · have hno : ∀ p ∈ σ.file.pending, p.1 ≠ c := by
      rintro p hp rfl
      exact hc (hi.wired.opened _ (hi.wired.pending p hp))
    rw [File.view_of_ne hno]
    exact G.trans hg.committed (hi'.view c).2

/-- The same file and connections, whoever holds the locks. -/
theorem same_file {τ : Shared D S W} (h : G.Inv σ) (hf : τ.file = σ.file) (hn : τ.nextConn = σ.nextConn)
    (hh : ∀ i, (τ.handles i).db = (σ.handles i).db) : G.Inv τ ∧ G.Grows σ τ := by
  obtain ⟨hw, hr⟩ := h.wired.of_same hn (congrArg File.opened hf) hh (by rw [hf]; exact h.wired.pending)
  refine ⟨⟨hw, ?_, ?_⟩, hr, ?_, ?_⟩
  · rw [hf]; exact h.committed
  · rw [hf]; exact h.pending
  · rw [hf]; exact G.refl _
  · rw [hf]; exact fun _ _ _ => G.refl _

/-- A file that differs in uncommitted writes only. -/
theorem same_committed (h : G.Inv σ) {f : File D S} {l : List (TaskId × ConnId)}
    (hc : f.committed = σ.file.committed) (ho : f.opened = σ.file.opened)
    (hp : ∀ p ∈ f.pending, p.1 ∈ σ.file.opened ∧ G.good p.2 ∧ G.le σ.file.committed p.2)
    (hv : ∀ c, G.le (σ.file.view c) (f.view c)) :
    G.Inv { σ with file := f, failed := l } ∧ G.Grows σ { σ with file := f, failed := l } := by
  obtain ⟨hw, hr⟩ := h.wired.of_same (τ := { σ with file := f, failed := l }) rfl ho (fun _ => rfl)
    (fun p hpp => (hp p hpp).1)
  refine ⟨⟨hw, ?_, ?_⟩, hr, ?_, fun c _ _ => hv c⟩
  · show G.good f.committed
    rw [hc]; exact h.committed
  · intro p hpp
    show G.good p.2 ∧ G.le f.committed p.2
    rw [hc]
    exact (hp p hpp).2
  · show G.le σ.file.committed f.committed
    rw [hc]; exact G.refl _

theorem lock_grows (h : G.Inv σ) {l : List (TaskId × ConnId)} (hw : σ.file.MayWrite c) :
    G.Inv { σ with file := σ.file.lock c, failed := l } ∧
      G.Grows σ { σ with file := σ.file.lock c, failed := l } := by
  refine same_committed h rfl rfl ?_ ?_
  · rintro p hp
    cases hp
    exact ⟨hw.1, h.view c⟩
  · intro d
    rw [File.view_lock _ _ _ hw]
    exact G.refl _

/-- A statement that did not run leaves the file or has taken the write lock. -/
theorem locked_grows (h : G.Inv σ) {f : File D S} {l : List (TaskId × ConnId)}
    (hf : f = σ.file ∨ σ.file.MayWrite c ∧ f = σ.file.lock c) :
    G.Inv { σ with file := f, failed := l } ∧ G.Grows σ { σ with file := f, failed := l } := by
  rcases hf with rfl | ⟨hw, rfl⟩
  · exact same_file h rfl rfl fun _ => rfl
  · exact lock_grows h hw

theorem write_grows (h : G.Inv σ) (hw : σ.file.MayWrite c) (hv : G.good v)
    (hle : G.le (σ.file.view c) v) :
    G.Inv { σ with file := σ.file.write c v } ∧ G.Grows σ { σ with file := σ.file.write c v } := by
  refine same_committed h rfl rfl ?_ ?_
  · rintro p hp
    cases hp
    exact ⟨hw.1, hv, G.trans (h.view c).2 hle⟩
  · intro d
    by_cases hd : d = c
    · subst hd
      rwa [File.view_write_self]
    · rw [File.view_write_of_ne _ _ hd, File.view_of_ne (fun p hp he => hd (he.symm.trans (hw.2 p hp)))]
      exact G.refl _

theorem publish_grows (h : G.Inv σ) (hp : σ.file.pending = some (c, v)) :
    G.Inv { σ with file := { σ.file with committed := v, pending := none } } ∧
      G.Grows σ { σ with file := { σ.file with committed := v, pending := none } } := by
  obtain ⟨hv, hle⟩ := h.pending _ hp
  obtain ⟨hw, hr⟩ := h.wired.of_same
    (τ := { σ with file := { σ.file with committed := v, pending := none } }) rfl rfl (fun _ => rfl)
    (by rintro p ⟨⟩)
  refine ⟨⟨hw, hv, by rintro p ⟨⟩⟩, hr, hle, ?_⟩
  intro d _ _
  show G.le (σ.file.view d) v
  unfold File.view
  rw [hp]
  dsimp only
  split
  · exact G.refl _
  · exact hle

theorem connect_grows {i : InstId} (h : G.Inv σ) (hc : connectShared i σ = some σ') :
    G.Inv σ' ∧ G.Grows σ σ' := by
  obtain ⟨hw, hr⟩ := connectShared_wired h.wired hc
  obtain ⟨-, rfl⟩ := connectShared_some hc
  exact ⟨⟨hw, h.committed, h.pending⟩, hr, G.refl _, fun _ _ _ => G.refl _⟩

theorem close_grows {i : InstId} (h : G.Inv σ) (hc : closeShared i σ = some σ') :
    G.Inv σ' ∧ G.Grows σ σ' := by
  obtain ⟨hw, hr⟩ := closeShared_wired h.wired hc
  obtain ⟨c, -, rfl⟩ := closeShared_some hc
  refine ⟨⟨hw, h.committed, fun p hp => h.pending p (Option.filter_eq_some_iff.mp hp).1⟩, hr, G.refl _, ?_⟩
  intro d _ hd
  show G.le (σ.file.view d) ((σ.file.close c).view d)
  rw [File.view_close (File.mem_opened_close.mp hd).2]
  exact G.refl _

theorem detach_grows {i : InstId} (h : G.Inv σ) (hc : detachShared i σ = some σ') :
    G.Inv σ' ∧ G.Grows σ σ' := by
  obtain ⟨hw, hr⟩ := detachShared_wired h.wired hc
  obtain ⟨c, -, -, rfl⟩ := detachShared_some hc
  exact ⟨⟨hw, h.committed, h.pending⟩, hr, G.refl _, fun _ _ _ => G.refl _⟩

section Rules

variable {Q ε α β : Type} {Ans : Q → Type} [SqlStatement S D] [Raises ε]
variable {env : InstId → TaskId → Op S Q → Outcome Q Ans ε W → Shared D S W → Prop}
variable {i : InstId} {t : TaskId} {post : β → Shared D S W → Prop}

variable (G env i t) in
/-- The judgement for programs whose exceptions leave nothing to say. -/
def Keeps (p : Prog D S Q Ans ε β) (post : β → Shared D S W → Prop) (σ : Shared D S W) : Prop :=
  Ok (G.protocol W) env i t p post (fun _ => True) σ

theorem Keeps.pure {b : β} (h : ∀ σ', G.Grows σ σ' → post b σ') :
    G.Keeps env i t (.done (.ok b) : Prog D S Q Ans ε β) post σ :=
  fun σ' hr _ => h σ' hr

theorem Keeps.raise {e : ε} : G.Keeps env i t (.done (.error e) : Prog D S Q Ans ε β) post σ :=
  fun _ _ _ => trivial

theorem Keeps.bind {p : Prog D S Q Ans ε α} {f : α → Prog D S Q Ans ε β}
    (h : G.Keeps env i t p (fun a => G.Keeps env i t (f a) post) σ) :
    G.Keeps env i t (p >>= f) post σ := Ok.bind h

theorem Keeps.mono {p : Prog D S Q Ans ε β} {post' : β → Shared D S W → Prop}
    (h : G.Keeps env i t p post σ) (hp : ∀ b σ', G.Inv σ' → post b σ' → post' b σ') :
    G.Keeps env i t p post' σ :=
  Ok.mono h (fun b _ hb => hb.mono (hp b)) (fun _ he => he)

theorem Keeps.connection {f : ConnId → Prog D S Q Ans ε β}
    (h : ∀ c σ', G.Grows σ σ' → (σ'.handles i).db = some c → Owns i c σ' →
      G.Keeps env i t (f c) post σ') :
    G.Keeps env i t (Prog.connection >>= f) post σ := by
  refine Ok.bind (Ok.connection (fun _ _ _ => trivial) ?_)
  intro c σ' hr hi hc σ'' hr' hi'
  exact (h c σ' hr hc (hi.wired.owns hc)).rely hr'

theorem Keeps.select {c : ConnId} {f : D → Prog D S Q Ans ε β} (hc : c < σ.nextConn)
    (h : ∀ v σ', G.Grows σ σ' → G.good v → G.Seen c v σ' → G.Keeps env i t (f v.data) post σ') :
    G.Keeps env i t (Prog.select c >>= f) post σ := by
  refine Ok.bind (Ok.select (fun _ _ _ => trivial) ?_)
  intro σ' hr hi ho σ'' hr' hi'
  have hseen : G.Seen c (σ'.file.view c) σ' := ⟨lt_of_lt_of_le hc hr.rewired.nextConn, fun _ => G.refl _⟩
  exact (h _ σ' hr (hi.view c).1 hseen).rely hr'

/-- A read on whatever connection the instance now has is one of an earlier connection, if that
is still open. -/
theorem Keeps.reread {c : ConnId} {f : D → Prog D S Q Ans ε β} (hown : Owns i c σ)
    (h : ∀ u σ', G.Grows σ σ' → G.Seen c u σ' → G.Keeps env i t (f u.data) post σ') :
    G.Keeps env i t (Prog.connection >>= fun db => Prog.select db >>= f) post σ := by
  refine Keeps.connection fun c' σ₁ hg₁ hdb hown' => ?_
  refine Keeps.select hown'.1 fun u σ₂ hg₂ _ hseen => h u σ₂ (hg₁.trans hg₂) ?_
  have hown₁ := hown.rewired hg₁.rewired
  rcases hown₁.eq_or_closed hdb with rfl | hclosed
  · exact hseen
  · exact (seen_of_closed hown₁.1 hclosed).grow hg₂

/-- An answer that the rules let the environment give. -/
theorem Keeps.asks {q : Q} {f : Ans q → Prog D S Q Ans ε β}
    (h : ∀ a σ₁ σ' g w, G.Grows σ σ₁ → env i t (.external q) (.answer g w) σ₁ → g q = .ok a → G.Grows σ₁ σ' →
      G.Keeps env i t (f a) post σ') :
    G.Keeps env i t (Prog.external q >>= f) post σ := by
  refine Ok.bind (Ok.external (fun _ _ _ => trivial) ?_)
  intro σ' g w hr hi henv
  have hsame : G.Inv { σ' with world := w } ∧ G.Grows σ' { σ' with world := w } :=
    same_file hi rfl rfl (fun _ => rfl)
  refine ⟨sound hsame.1 hsame.2, ?_⟩
  cases hg : g q with
  | ok a => exact fun σ'' hr' hi' => (h a σ' _ g w hr henv hg hsame.2).rely hr'
  | error e => exact fun _ _ _ => trivial

theorem Keeps.external {q : Q} {f : Ans q → Prog D S Q Ans ε β}
    (h : ∀ a σ', G.Grows σ σ' → G.Keeps env i t (f a) post σ') :
    G.Keeps env i t (Prog.external q >>= f) post σ :=
  Keeps.asks fun a _ σ' _ _ hg _ _ hg' => h a σ' (hg.trans hg')

/-- What an external request can answer. -/
theorem Keeps.answer {q : Q} : G.Keeps env i t (Prog.external q : Prog D S Q Ans ε (Ans q))
    (fun a _ => ∃ f w σ', env i t (.external q) (.answer f w) σ' ∧ f q = .ok a) σ := by
  refine Ok.external (fun _ _ _ => trivial) ?_
  intro σ' g w hr hi henv
  have hsame : G.Inv { σ' with world := w } ∧ G.Grows σ' { σ' with world := w } :=
    same_file hi rfl rfl (fun _ => rfl)
  refine ⟨sound hsame.1 hsame.2, ?_⟩
  cases hg : g q with
  | ok a => exact fun _ _ _ => ⟨g, w, σ', henv, hg⟩
  | error e => exact fun _ _ _ => trivial

theorem Keeps.attempt {p : Prog D S Q Ans ε α} {f : Except ε α → Prog D S Q Ans ε β}
    (h : G.Keeps env i t p (fun a => G.Keeps env i t (f (.ok a)) post) σ)
    (he : ∀ e σ', G.Keeps env i t (f (.error e)) post σ') :
    G.Keeps env i t (p.attempt >>= f) post σ :=
  Ok.bind (Ok.attempt (Ok.mono h (fun _ _ ha => ha) (fun _ _ σ' _ _ e => he e σ')))

/-- The statement, if accepted, turns the version its connection sees into a good larger one. -/
theorem Keeps.execute {c : ConnId} {s : S} {u : Version D S} {f : ℤ → Prog D S Q Ans ε β}
    (hseen : G.Seen c u σ)
    (hs : ∀ σ' o d n, G.Grows σ σ' → G.Inv σ' → env i t (.execute c s) o σ' → o.performs → σ'.file.MayWrite c →
      exec s (σ'.file.view c).data = .ok (d, n) → G.le u (σ'.file.view c) →
      G.good ⟨d, (σ'.file.view c).journal ++ [(t, s, n)]⟩ ∧
        G.le (σ'.file.view c) ⟨d, (σ'.file.view c).journal ++ [(t, s, n)]⟩)
    (hf : ∀ σ' v n, G.Grows σ σ' → G.Seen c v σ' → (t, s, n) ∈ v.journal →
      (∃ w : Version D S, exec s w.data = .ok (v.data, n) ∧ G.le u w ∧ G.good w) →
      G.Keeps env i t (f n) post σ') :
    G.Keeps env i t (Prog.execute c s >>= f) post σ := by
  refine Ok.bind ?_
  intro σ' hr hi o r σ'' he hx
  rcases effect_execute hx with ⟨d, n, hw, hex, hres, rfl⟩ | ⟨e, g, l, rfl, hg, -, rfl⟩
  · have hu := (hseen.grow hr).2 hw.1
    obtain ⟨hgood, hle⟩ := hs σ' o d n hr hi he (performs_of_write hx) hw hex hu
    obtain ⟨hinv, hgrow⟩ := write_grows hi hw hgood hle
    refine ⟨sound hinv hgrow, ?_⟩
    rcases hres with rfl | rfl
    · intro σ₃ hr₃ hi₃
      have hv : G.Seen c ⟨d, (σ'.file.view c).journal ++ [(t, s, n)]⟩
          { σ' with file := σ'.file.write c ⟨d, (σ'.file.view c).journal ++ [(t, s, n)]⟩ } :=
        ⟨lt_of_lt_of_le hseen.1 hr.rewired.nextConn, fun _ => by rw [File.view_write_self]; exact G.refl _⟩
      exact hf σ₃ _ n (hr.trans (hgrow.trans hr₃)) (hv.grow hr₃) (by simp)
        ⟨_, hex, hu, (hi.view c).1⟩
    · exact fun _ _ _ => trivial
  · obtain ⟨hinv, hgrow⟩ := locked_grows (l := l) hi hg
    exact ⟨sound hinv hgrow, fun _ _ _ => trivial⟩

/-- A successful commit makes durable what its connection sees. -/
theorem Keeps.commit {c : ConnId} {u : Version D S} {f : Unit → Prog D S Q Ans ε β} (hseen : G.Seen c u σ)
    (hf : ∀ σ', G.Grows σ σ' → G.Durable u σ' → G.Keeps env i t (f ()) post σ') :
    G.Keeps env i t (Prog.commit c >>= f) post σ := by
  refine Ok.bind ?_
  intro σ' hr hi o r σ'' he hx
  have hu := (hseen.grow hr).2
  rcases effect_commit hx with ⟨v, ho, hp, hres, rfl⟩ | ⟨ho, hp, hres, rfl⟩ | ⟨e, l, rfl, -, rfl⟩
  · obtain ⟨hinv, hgrow⟩ := publish_grows hi hp
    refine ⟨sound hinv hgrow, ?_⟩
    rcases hres with rfl | rfl
    · intro σ₃ hr₃ hi₃
      have hd : G.Durable u { σ' with file := { σ'.file with committed := v, pending := none } } := by
        have hv := hu ho
        rw [File.view_pending_self hp] at hv
        exact hv
      exact hf σ₃ (hr.trans (hgrow.trans hr₃)) (hd.grow hr₃)
    · exact fun _ _ _ => trivial
  · refine ⟨.refl hi, ?_⟩
    rcases hres with rfl | rfl
    · intro σ₃ hr₃ hi₃
      have hd : G.Durable u σ'' := by
        have hv := hu ho
        rw [File.view_of_ne hp] at hv
        exact hv
      exact hf σ₃ (hr.trans hr₃) (hd.grow hr₃)
    · exact fun _ _ _ => trivial
  · have hsame := same_file (τ := { σ' with failed := l }) hi rfl rfl (fun _ => rfl)
    exact ⟨sound hsame.1 hsame.2, fun _ _ _ => trivial⟩

theorem Keeps.withLock {body : Prog D S Q Ans ε β}
    (hstable : ∀ b σ₁ σ₂, G.Grows σ₁ σ₂ → post b σ₁ → post b σ₂)
    (h : ∀ σ', G.Grows σ σ' → G.Keeps env i t body post σ') :
    G.Keeps env i t (Prog.withLock body) post σ := by
  have hset (σ₁ : Shared D S W) (x : Option TaskId) (hi : G.Inv σ₁) :=
    same_file (τ := σ₁.setLock i x) hi rfl rfl (fun j => Shared.setLock_db σ₁ i j x)
  refine Ok.withLock (fun _ _ _ => trivial) ?_
  intro σ' hr hi _
  obtain ⟨hi', hg'⟩ := hset σ' (some t) hi
  refine ⟨sound hi' hg', Ok.mono (h _ (hr.trans hg')) ?_ ?_⟩
  · intro b σ₁ hb
    refine hb.mono fun σ₂ hi₂ hp => ⟨sound (hset σ₂ none hi₂).1 (hset σ₂ none hi₂).2, ?_⟩
    intro σ₃ hr₃ _
    exact hstable b σ₂ σ₃ ((hset σ₂ none hi₂).2.trans hr₃) hp
  · intro σ₁ hb
    exact hb.mono fun σ₂ hi₂ _ => ⟨sound (hset σ₂ none hi₂).1 (hset σ₂ none hi₂).2, fun _ _ _ => trivial⟩

/-- A program whose statements are good for growth wherever the environment lets them run keeps it. -/
theorem Keeps.of_steps {statement : S → Prop} {p : Prog D S Q Ans ε β} {τ : Shared D S W}
    (hp : p.Uses (Op.executes statement)) (hτ : G.Grows τ σ)
    (hs : ∀ σ' o c s d n, statement s → env i t (.execute c s) o σ' → o.performs → σ'.file.MayWrite c →
      G.good (σ'.file.view c) → exec s (σ'.file.view c).data = .ok (d, n) →
      G.good ⟨d, (σ'.file.view c).journal ++ [(t, s, n)]⟩ ∧
        G.le (σ'.file.view c) ⟨d, (σ'.file.view c).journal ++ [(t, s, n)]⟩) :
    G.Keeps env i t p (fun _ => G.Grows τ) σ := by
  induction p generalizing σ with
  | done r =>
    cases r with
    | ok a => exact fun σ' hr _ => hτ.trans hr
    | error e => exact fun _ _ _ => trivial
  | perform op k ih =>
    intro σ' hr hi o r σ'' he hx
    obtain ⟨hop, hk⟩ := hp
    suffices h : G.Inv σ'' ∧ G.Grows σ' σ'' from
      ⟨sound h.1 h.2, ih r (hk r) (hτ.trans (hr.trans h.2))⟩
    have hself := same_file hi rfl rfl (fun _ => rfl)
    cases op with
    | connection => obtain ⟨rfl, -⟩ := effect_connection hx; exact hself
    | acquire =>
      rcases effect_acquire hx with ⟨-, -, rfl⟩ | ⟨-, rfl⟩
      · exact same_file hi rfl rfl (fun j => Shared.setLock_db σ' i j _)
      · exact hself
    | release =>
      obtain ⟨-, rfl⟩ := effect_release hx
      exact same_file hi rfl rfl (fun j => Shared.setLock_db σ' i j _)
    | select c => obtain ⟨rfl, -⟩ := effect_select hx; exact hself
    | external q =>
      rcases effect_external hx with ⟨f, w, -, -, rfl⟩ | ⟨-, rfl⟩
      · exact same_file hi rfl rfl (fun _ => rfl)
      · exact hself
    | execute c s =>
      rcases effect_execute hx with ⟨d, n, hw, hex, -, rfl⟩ | ⟨e, g, l, -, hg, -, rfl⟩
      · obtain ⟨hgood, hle⟩ := hs σ' o c s d n hop he (performs_of_write hx) hw (hi.view c).1 hex
        exact write_grows hi hw hgood hle
      · exact locked_grows hi hg
    | commit c =>
      rcases effect_commit hx with ⟨v, -, hpend, -, rfl⟩ | ⟨-, -, -, rfl⟩ | ⟨e, l, -, -, rfl⟩
      · exact publish_grows hi hpend
      · exact hself
      · exact same_file hi rfl rfl (fun _ => rfl)

/-- A program whose statements are always good for growth keeps it. -/
theorem Keeps.of_uses {statement : S → Prop} {p : Prog D S Q Ans ε β} {τ : Shared D S W}
    (hp : p.Uses (Op.executes statement)) (hτ : G.Grows τ σ)
    (hs : ∀ s v d n, statement s → G.good v → exec s v.data = .ok (d, n) →
      G.good ⟨d, v.journal ++ [(t, s, n)]⟩ ∧ G.le v ⟨d, v.journal ++ [(t, s, n)]⟩) :
    G.Keeps env i t p (fun _ => G.Grows τ) σ :=
  Keeps.of_steps hp hτ fun _ _ _ s d n hop _ _ _ hgood hex => hs s _ d n hop hgood hex

theorem Keeps.reads {p : Prog D S Q Ans ε α} {f : α → Prog D S Q Ans ε β}
    (hp : p.Uses Op.isRead) (h : ∀ a σ', G.Grows σ σ' → G.Keeps env i t (f a) post σ') :
    G.Keeps env i t (p >>= f) post σ := by
  have hp' : p.Uses (Op.executes fun _ => False) := hp.mono fun op h => by cases op <;> trivial
  exact Keeps.bind ((Keeps.of_uses hp' (Grows.refl σ) (fun _ _ _ _ hf => hf.elim)).mono
    (fun a σ' _ hg => h a σ' hg))

variable {C R : Type}

/-- Runs of calls that each keep the growth, under any opening and closing of connections. -/
theorem verified {rules : Rules D S W Q Ans ε C} {body : C → Prog D S Q Ans ε R}
    {post : InstId → TaskId → C → R → Shared D S W → Prop}
    (hcall : ∀ i c t σ, rules.calls i c → G.Inv σ → ¬ σ.Mentions t →
      G.Keeps rules.env i t (body c) (post i t c) σ) :
    Verified (G.protocol W) rules body post (fun _ _ _ _ => True) where
  call := hcall
  connect _ _ _ _ hi h := tolerated (connect_grows hi h).1 (connect_grows hi h).2
  close _ _ _ _ hi h := tolerated (close_grows hi h).1 (close_grows hi h).2
  detach _ _ _ hi h := tolerated (detach_grows hi h).1 (detach_grows hi h).2

end Rules
end Growth
end NexusCone.GrowingVersions
