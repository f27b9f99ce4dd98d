import NexusCone.LedgerOperations
import NexusCone.LedgerRuns
import NexusCone.RelyGuarantee

/-!
# What a failed write leaves behind

No operation rolls back: a statement whose commit fails stays in its connection's open
transaction, and the connection's next commit publishes it. Where every failing commit finds its
connection without an open transaction, and every failing statement finds it closed, nothing stays
behind.
-/
namespace NexusCone.FailedWrites
open SharedFile AsyncProgram AsyncSystem Connections RelyGuarantee PyValue LedgerSchema EntryChain
  TimestampAuthority Ledger LedgerOperations LedgerRuns

section Protocol

variable [IsoTime.Platform] {W : Type} {L : Libraries}

/-- A statement of the task is among the version's. -/
def Wrote (t : TaskId) (v : Version Database Statement) : Prop := ∃ e ∈ v.journal, e.1 = t

/-- The failed step left its connection without an open transaction: the statement found it closed, or
the commit had nothing to write. -/
def CleanFailure : Op Statement Request → Outcome Request (Reply L) PyError W →
    Shared Database Statement W → Prop
  -- an open connection has begun a transaction before its statement is refused, also where it could not lock the file
  | .execute c s, .ok, σ => c ∈ σ.file.opened → σ.file.MayWrite c ∧ (exec s (σ.file.view c).data).isOk
  | .execute c _, .fail _ _, σ => c ∉ σ.file.opened
  | .commit c, .fail _ _, σ => ∀ p ∈ σ.file.pending, p.1 ≠ c
  | _, _, _ => True

/-- What a call whose statement or commit has failed leaves: none of its statements is in what
any connection sees or in what is committed, and while its call still holds the lock of the
connection's ledger, the connection has no open write transaction. -/
structure NoTrace (t : TaskId) (c : ConnId) (σ : Shared Database Statement W) : Prop where
  committed : ¬ Wrote t σ.file.committed
  view : ∀ d, ¬ Wrote t (σ.file.view d)
  transaction : ∀ i, Owns i c σ → (σ.handles i).lock = some t → ∀ p ∈ σ.file.pending, p.1 ≠ c

structure Inv (σ : Shared Database Statement W) : Prop where
  wired : Wired σ
  noTrace : ∀ p ∈ σ.failed, NoTrace p.1 p.2 σ

/-- The task has neither written nor failed. -/
structure Untouched (t : TaskId) (σ : Shared Database Statement W) : Prop where
  committed : ¬ Wrote t σ.file.committed
  pending : ∀ p ∈ σ.file.pending, ¬ Wrote t p.2
  failed : ∀ p ∈ σ.failed, p.1 ≠ t

def Locked (i : InstId) (t : TaskId) (σ : Shared Database Statement W) : Prop :=
  (σ.handles i).lock = some t

/-- The task's statement is in the open transaction of its connection at most. -/
structure Dirty (i : InstId) (t : TaskId) (c : ConnId) (σ : Shared Database Statement W) : Prop where
  locked : Locked i t σ
  owns : Owns i c σ
  failed : ∀ p ∈ σ.failed, p.1 ≠ t
  committed : ¬ Wrote t σ.file.committed
  pending : ∀ p ∈ σ.file.pending, Wrote t p.2 → p.1 = c

/-- What the other tasks leave of a task's knowledge. -/
structure Rely (i : InstId) (t : TaskId) (σ σ' : Shared Database Statement W) : Prop where
  rewired : Rewired σ σ'
  untouched : Untouched t σ → Untouched t σ'
  locked : Locked i t σ → Locked i t σ'
  dirty : ∀ c, Dirty i t c σ → Dirty i t c σ'

def writeProtocol (W : Type) : Protocol Database Statement W where
  inv := Inv
  rely := Rely
  guar := Rewired
  rely_refl _ _ σ := ⟨.refl σ, id, id, fun _ => id⟩
  rely_trans _ _ := fun h h' =>
    ⟨h.rewired.trans h'.rewired, h'.untouched ∘ h.untouched, h'.locked ∘ h.locked,
      fun c => h'.dirty c ∘ h.dirty c⟩
  guar_refl := .refl
  guar_trans := .trans

variable {i : InstId} {t : TaskId} {c : ConnId} {σ σ' : Shared Database Statement W}

omit [IsoTime.Platform] in
theorem view_cases (f : File Database Statement) (d : ConnId) :
    (∃ v, f.pending = some (d, v) ∧ f.view d = v) ∨ f.view d = f.committed := by
  unfold File.view
  split
  · rename_i e v hp
    by_cases h : e = d
    · subst h
      exact .inl ⟨v, hp, if_pos rfl⟩
    · exact .inr (if_neg h)
  · exact .inr rfl

omit [IsoTime.Platform] in
theorem Untouched.view (h : Untouched t σ) (d : ConnId) : ¬ Wrote t (σ.file.view d) := by
  rcases view_cases σ.file d with ⟨v, hp, hv⟩ | hv
  · rw [hv]; exact h.pending _ hp
  · rw [hv]; exact h.committed

omit [IsoTime.Platform] in
theorem noTrace_of_pending (hc : ¬ Wrote t σ.file.committed) (hp : ∀ p ∈ σ.file.pending, ¬ Wrote t p.2)
    (ht : ∀ p ∈ σ.file.pending, p.1 ≠ c) : NoTrace t c σ := by
  refine ⟨hc, fun d => ?_, fun _ _ _ => ht⟩
  rcases view_cases σ.file d with ⟨v, hpv, hv⟩ | hv
  · rw [hv]; exact hp _ hpv
  · rw [hv]; exact hc

omit [IsoTime.Platform] in
theorem NoTrace.pending (h : NoTrace t c σ) : ∀ p ∈ σ.file.pending, ¬ Wrote t p.2 := by
  intro p hp
  have hv := h.view p.1
  rwa [File.view_pending_self (c := p.1) (v := p.2) hp] at hv

omit [IsoTime.Platform] in
/-- The task changes locks only. -/
theorem lock_sound {x : Option TaskId} (hi : Inv σ) (hx : ∀ u, x = some u → u = t ∧ Untouched t σ)
    (hl : ∀ u, Locked i u σ → u = t) : (writeProtocol W).Sound t σ (σ.setLock i x) := by
  obtain ⟨hw, hr⟩ := hi.wired.of_same (τ := σ.setLock i x) rfl rfl (fun j => Shared.setLock_db σ i j x)
    hi.wired.pending
  have hlocked (j : InstId) (u : TaskId) (hu : u ≠ t) (h : Locked j u σ) : Locked j u (σ.setLock i x) := by
    have hj : j ≠ i := by
      rintro rfl
      exact hu (hl u h)
    exact (Shared.setLock_lock_of_ne σ x hj).trans h
  refine ⟨⟨hw, ?_⟩, hr, fun j u hu => ⟨hr, fun h => ⟨h.committed, h.pending, h.failed⟩, hlocked j u hu, ?_⟩⟩
  · intro p hp
    have hn := hi.noTrace p hp
    refine ⟨hn.committed, hn.view, fun j hown hlock => ?_⟩
    have hown' : Owns j p.2 σ := ⟨hown.1, by rw [← Shared.setLock_db σ i j x]; exact hown.2⟩
    by_cases hj : j = i
    · subst hj
      rw [Shared.setLock_lock_self] at hlock
      obtain ⟨hpt, hunt⟩ := hx _ hlock
      exact absurd hpt (hunt.failed p hp)
    · exact hn.transaction j hown' ((Shared.setLock_lock_of_ne σ x hj).symm.trans hlock)
  · intro d hd
    exact ⟨hlocked j u hu hd.locked, hd.owns.rewired hr, hd.failed, hd.committed, hd.pending⟩

omit [IsoTime.Platform] in
/-- The task, which holds its ledger's lock, changes what its connection has written. -/
theorem pending_sound {v : Version Database Statement} (hi : Inv σ) (hl : Locked i t σ) (ho : Owns i c σ)
    (ht : ∀ p ∈ σ.failed, p.1 ≠ t) (hw : σ.file.MayWrite c)
    (hv : ∀ u, u ≠ t → Wrote u v → Wrote u (σ.file.view c)) :
    (writeProtocol W).Sound t σ { σ with file := σ.file.write c v } := by
  obtain ⟨hwired, hr⟩ := hi.wired.of_same (τ := { σ with file := σ.file.write c v }) rfl rfl
    (fun _ => rfl) (by rintro p hp; cases hp; exact hw.1)
  refine ⟨⟨hwired, ?_⟩, hr, fun j u hu => ⟨hr, ?_, fun h => h, ?_⟩⟩
  · intro p hp
    have hn := hi.noTrace p hp
    refine ⟨hn.committed, fun d => ?_, fun j hown hlock => ?_⟩
    · rcases view_cases (σ.file.write c v) d with ⟨v', hpv, hd⟩ | hd
      · cases hpv
        rw [hd]
        exact fun hwr => hn.view _ (hv _ (ht p hp) hwr)
      · rw [hd]; exact hn.committed
    · rintro q hq hqp
      cases hq
      -- An open connection belongs to one ledger, whose lock one task holds.
      have hown' : Owns j p.2 σ := ⟨hown.1, hown.2⟩
      rw [← hqp] at hown'
      obtain rfl := Owns.unique hi.wired ho hown' hw.1
      exact ht p hp (Option.some.inj (hlock.symm.trans hl))
  · intro h
    refine ⟨h.committed, ?_, h.failed⟩
    rintro q hq
    cases hq
    exact fun hwr => h.view c (hv u hu hwr)
  · intro d h
    refine ⟨h.locked, h.owns.rewired hr, h.failed, h.committed, ?_⟩
    rintro q hq hwr
    cases hq
    have hwr := hv u hu hwr
    rcases view_cases σ.file c with ⟨v', hpv, hd⟩ | hd <;> rw [hd] at hwr
    · exact h.pending (c, v') hpv hwr
    · exact absurd hwr h.committed

omit [IsoTime.Platform] in
/-- The task publishes what its connection has written. -/
theorem publish_sound {v : Version Database Statement} (hi : Inv σ) (hd : Dirty i t c σ)
    (hp : σ.file.pending = some (c, v)) :
    (writeProtocol W).Sound t σ
      { σ with file := { σ.file with committed := v, pending := none } } := by
  obtain ⟨hwired, hr⟩ := hi.wired.of_same
    (τ := { σ with file := { σ.file with committed := v, pending := none } }) rfl rfl (fun _ => rfl)
    (by rintro p ⟨⟩)
  refine ⟨⟨hwired, ?_⟩, hr, fun j u hu => ⟨hr, ?_, fun h => h, ?_⟩⟩
  · intro p hpf
    have hn := (hi.noTrace p hpf).pending _ hp
    exact noTrace_of_pending hn (by rintro q ⟨⟩) (by rintro q ⟨⟩)
  · intro h
    exact ⟨h.pending _ hp, by rintro q ⟨⟩, h.failed⟩
  · intro d h
    refine ⟨h.locked, h.owns.rewired hr, h.failed, fun hwr => ?_, by rintro q ⟨⟩⟩
    obtain rfl : c = d := h.pending _ hp hwr
    obtain rfl := Owns.unique hi.wired hd.owns h.owns (hi.wired.pending _ hp)
    exact hu (Option.some.inj (h.locked.symm.trans hd.locked))

omit [IsoTime.Platform] in
/-- The task's failure is recorded when its connection has no open transaction. -/
theorem failed_sound (hi : Inv σ) (hc : ¬ Wrote t σ.file.committed)
    (hp : ∀ p ∈ σ.file.pending, ¬ Wrote t p.2) (hn : ∀ p ∈ σ.file.pending, p.1 ≠ c) :
    (writeProtocol W).Sound t σ { σ with failed := (t, c) :: σ.failed } := by
  obtain ⟨hwired, hr⟩ := hi.wired.of_same (τ := { σ with failed := (t, c) :: σ.failed }) rfl rfl
    (fun _ => rfl) hi.wired.pending
  have hfailed (u : TaskId) (hu : u ≠ t) (h : ∀ p ∈ σ.failed, p.1 ≠ u) :
      ∀ p ∈ (t, c) :: σ.failed, p.1 ≠ u := by
    intro p hp
    rcases List.mem_cons.mp hp with rfl | hp
    · exact hu.symm
    · exact h p hp
  refine ⟨⟨hwired, ?_⟩, hr, fun j u hu => ⟨hr, fun h => ?_, fun h => h, fun d h => ?_⟩⟩
  · intro p hpf
    rcases List.mem_cons.mp hpf with rfl | hpf
    · exact noTrace_of_pending hc hp hn
    · have h := hi.noTrace p hpf
      exact ⟨h.committed, h.view, h.transaction⟩
  · exact ⟨h.committed, h.pending, hfailed u hu h.failed⟩
  · exact ⟨h.locked, h.owns.rewired hr, hfailed u hu h.failed, h.committed, h.pending⟩

omit [IsoTime.Platform] in
theorem world_sound (hi : Inv σ) (w : W) : (writeProtocol W).Sound t σ { σ with world := w } := by
  obtain ⟨hwired, hr⟩ := hi.wired.of_same (τ := { σ with world := w }) rfl rfl (fun _ => rfl) hi.wired.pending
  refine ⟨⟨hwired, ?_⟩, hr, fun j u hu => ⟨hr, ?_, fun h => h, ?_⟩⟩
  · intro p hp
    have h := hi.noTrace p hp
    exact ⟨h.committed, h.view, h.transaction⟩
  · exact fun h => ⟨h.committed, h.pending, h.failed⟩
  · exact fun d h => ⟨h.locked, h.owns.rewired hr, h.failed, h.committed, h.pending⟩

section Calls

variable {env : InstId → TaskId → Op Statement Request → Outcome Request (Reply L) PyError W →
  Shared Database Statement W → Prop}
variable {α : Type} {post : α → Shared Database Statement W → Prop} {err : Shared Database Statement W → Prop}

/-- Before its lock, with the ledger's connection. -/
structure Opened (i : InstId) (t : TaskId) (c : ConnId) (σ : Shared Database Statement W) : Prop where
  untouched : Untouched t σ
  owns : Owns i c σ

/-- Before its statement, under the lock of its ledger. -/
structure Entered (i : InstId) (t : TaskId) (σ : Shared Database Statement W) : Prop where
  untouched : Untouched t σ
  locked : Locked i t σ

/-- Before its statement, under the lock of its ledger, with the ledger's connection. -/
structure Ready (i : InstId) (t : TaskId) (c : ConnId) (σ : Shared Database Statement W) : Prop
    extends Entered i t σ where
  owns : Owns i c σ

omit [IsoTime.Platform] in
theorem stable_untouched : (writeProtocol W).Stable i t (Untouched t) where
  rely _ _ hr h := hr.untouched h
  world _ w hi h := ⟨world_sound hi w, ⟨h.committed, h.pending, h.failed⟩⟩

omit [IsoTime.Platform] in
theorem stable_opened : (writeProtocol W).Stable i t (Opened i t c) where
  rely _ _ hr h := ⟨hr.untouched h.untouched, h.owns.rewired hr.rewired⟩
  world σ w hi h :=
    ⟨world_sound hi w, ((stable_untouched (i := i)).world σ w hi h.untouched).2, h.owns.1, h.owns.2⟩

omit [IsoTime.Platform] in
theorem stable_entered : (writeProtocol W).Stable i t (Entered i t) where
  rely _ _ hr h := ⟨hr.untouched h.untouched, hr.locked h.locked⟩
  world σ w hi h := ⟨world_sound hi w, ((stable_untouched (i := i)).world σ w hi h.untouched).2, h.locked⟩

omit [IsoTime.Platform] in
theorem stable_ready : (writeProtocol W).Stable i t (Ready i t c) where
  rely σ σ' hr h := ⟨stable_entered.rely σ σ' hr h.toEntered, h.owns.rewired hr.rewired⟩
  world σ w hi h := ⟨world_sound hi w, (stable_entered.world σ w hi h.toEntered).2, h.owns.1, h.owns.2⟩

omit [IsoTime.Platform] in
/-- The lock may be given back by its holder. -/
theorem released (hi : Inv σ) (h : Locked i t σ) :
    (writeProtocol W).Released i t (fun _ => True) σ := by
  refine ⟨lock_sound hi (by rintro u ⟨⟩) (fun u hu => ?_), fun _ _ _ => trivial⟩
  exact Option.some.inj (hu.symm.trans h)

omit [IsoTime.Platform] in
theorem stable_dirty : (writeProtocol W).Stable i t (Dirty i t c) where
  rely _ _ hr h := hr.dirty c h
  world _ w hi h := ⟨world_sound hi w, h.locked, ⟨h.owns.1, h.owns.2⟩, h.failed, h.committed, h.pending⟩

omit [IsoTime.Platform] in
theorem Untouched.fails (h : Untouched t σ) (hi : Inv σ) (hn : ∀ p ∈ σ.file.pending, p.1 ≠ c) :
    (writeProtocol W).Sound t σ { σ with failed := (t, c) :: σ.failed } :=
  failed_sound hi h.committed h.pending hn

omit [IsoTime.Platform] in
theorem wrote_append {v : Version Database Statement} {d : Database} {s : Statement} {n : ℤ} {u : TaskId}
    (hu : u ≠ t) (h : Wrote u ⟨d, v.journal ++ [(t, s, n)]⟩) : Wrote u v := by
  obtain ⟨e, he, heu⟩ := h
  rcases List.mem_append.mp he with he | he
  · exact ⟨e, he, heu⟩
  · rw [List.mem_singleton.mp he] at heu
    exact absurd heu.symm hu

omit [IsoTime.Platform] in
/-- The task's statement is accepted. -/
theorem Ready.writes {d : Database} {s : Statement} {n : ℤ} (h : Ready i t c σ) (hi : Inv σ)
    (hw : σ.file.MayWrite c) :
    (writeProtocol W).Sound t σ
        { σ with file := σ.file.write c ⟨d, (σ.file.view c).journal ++ [(t, s, n)]⟩ } ∧
      Dirty i t c { σ with file := σ.file.write c ⟨d, (σ.file.view c).journal ++ [(t, s, n)]⟩ } := by
  refine ⟨pending_sound hi h.locked h.owns h.untouched.failed hw fun u hu => wrote_append hu, ?_⟩
  refine ⟨h.locked, ⟨h.owns.1, h.owns.2⟩, h.untouched.failed, h.untouched.committed, ?_⟩
  rintro p hp -
  cases hp
  rfl

omit [IsoTime.Platform] in
/-- A statement is accepted, or fails and leaves nothing, or its task is cancelled. -/
theorem ok_execute {s : Statement} (h : Ready i t c σ) :
    Ok (writeProtocol W) (fun _ _ => CleanFailure) i t (Prog.execute c s : Action L ℤ)
      (fun _ => Dirty i t c) (Locked i t) σ := by
  intro σ₁ hr hi o r σ₂ he hx
  have h := stable_ready.rely σ σ₁ hr h
  have hlocked {σ' : Shared Database Statement W} (h' : Locked i t σ') :
      (writeProtocol W).Always i t (Locked i t) σ' := fun _ hr' _ => hr'.locked h'
  have hrefused : (∀ p ∈ σ₁.file.pending, p.1 ≠ c) →
      (writeProtocol W).Sound t σ₁ { σ₁ with failed := (t, c) :: σ₁.failed } := h.untouched.fails hi
  cases hex : σ₁.file.execute t c s with | mk x f => ?_
  cases o with
  | ok =>
    simp only [effect, hex] at hx
    cases hx
    rcases File.execute_clean (fun hw => (he hw.1).2) hex with ⟨d, n, hw, rfl, rfl⟩ | ⟨e, hw, rfl, rfl⟩
    · obtain ⟨hs, hd⟩ := h.writes (d := d) (s := s) (n := n) hi hw
      exact ⟨hs, fun _ hr' _ => hr'.dirty c hd⟩
    · exact ⟨hrefused (hi.wired.pending_ne hw), hlocked h.locked⟩
  | fail m locks =>
    have hclosed : ¬ σ₁.file.MayWrite c := fun hw => he hw.1
    simp only [effect, if_neg (not_and.mpr fun _ => hclosed)] at hx
    cases hx
    exact ⟨hrefused (hi.wired.pending_ne hclosed), hlocked h.locked⟩
  | cancel performed =>
    simp only [effect, hex] at hx
    cases hx
    cases performed with
    | false => exact ⟨.refl hi, hlocked h.locked⟩
    | true =>
      rcases File.execute_cases hex with ⟨d, n, hw, -, -, rfl⟩ | ⟨e, hw, -, rfl⟩ | ⟨e, -, rfl⟩
      · obtain ⟨hs, hd⟩ := h.writes (d := d) (s := s) (n := n) hi hw
        exact ⟨hs, hlocked hd.locked⟩
      · refine ⟨pending_sound hi h.locked h.owns h.untouched.failed hw fun _ _ hwr => hwr, ?_⟩
        exact hlocked h.locked
      · exact ⟨.refl hi, hlocked h.locked⟩
  | answer f w => cases hx

omit [IsoTime.Platform] in
/-- A commit publishes the task's statement, or fails with nothing to publish, or its task is
cancelled. -/
theorem ok_commit (h : Dirty i t c σ) :
    Ok (writeProtocol W) (fun _ _ => CleanFailure) i t (Prog.commit c : Action L Unit)
      (fun _ => Locked i t) (Locked i t) σ := by
  intro σ₁ hr hi o r σ₂ he hx
  have h := stable_dirty.rely σ σ₁ hr h
  have hlocked {σ' : Shared Database Statement W} (h' : Locked i t σ') :
      (writeProtocol W).Always i t (Locked i t) σ' := fun _ hr' _ => hr'.locked h'
  have hfails (hn : ∀ p ∈ σ₁.file.pending, p.1 ≠ c) :
      (writeProtocol W).Sound t σ₁ { σ₁ with failed := (t, c) :: σ₁.failed } :=
    failed_sound hi h.committed (fun p hp hw => hn p hp (h.pending p hp hw)) hn
  cases hcm : σ₁.file.commit c with | mk x f => ?_
  cases o with
  | ok =>
    simp only [effect, hcm] at hx
    cases hx
    rcases File.commit_cases hcm with ⟨-, rfl, v, hp, rfl⟩ | ⟨-, rfl, -, rfl⟩ | ⟨hc, ⟨e, rfl⟩, rfl⟩
    · exact ⟨publish_sound hi h hp, hlocked h.locked⟩
    · exact ⟨.refl hi, hlocked h.locked⟩
    · refine ⟨hfails fun p hp hpc => hc ?_, hlocked h.locked⟩
      rw [← hpc]
      exact hi.wired.pending p hp
  | fail m locks =>
    simp only [effect] at hx
    cases hx
    exact ⟨hfails he, hlocked h.locked⟩
  | cancel performed =>
    simp only [effect, hcm] at hx
    cases hx
    cases performed with
    | false => exact ⟨.refl hi, hlocked h.locked⟩
    | true =>
      rcases File.commit_cases hcm with ⟨-, -, v, hp, rfl⟩ | ⟨-, -, -, rfl⟩ | ⟨-, -, rfl⟩
      · exact ⟨publish_sound hi h hp, hlocked h.locked⟩
      · exact ⟨.refl hi, hlocked h.locked⟩
      · exact ⟨.refl hi, hlocked h.locked⟩
  | answer f w => cases hx

abbrev InLock (i : InstId) (t : TaskId) (p : Action L α) (σ : Shared Database Statement W) : Prop :=
  Ok (writeProtocol W) (fun _ _ => CleanFailure) i t p (fun _ => Locked i t) (Locked i t) σ

abbrev CallOk (i : InstId) (t : TaskId) (p : Action L α) (σ : Shared Database Statement W) : Prop :=
  Ok (writeProtocol W) (fun _ _ => CleanFailure) i t p (fun _ _ => True) (fun _ => True) σ

omit [IsoTime.Platform] in
theorem InLock.execute {s : Statement} {f : ℤ → Action L α} (h : Ready i t c σ)
    (hf : ∀ n (σ' : Shared Database Statement W), Dirty i t c σ' → InLock i t (f n) σ') : InLock i t (Prog.execute c s >>= f) σ :=
  Ok.bind (Ok.mono (ok_execute h) (fun n _ hd => hd.mono fun σ' _ => hf n σ') fun _ he => he)

omit [IsoTime.Platform] in
theorem InLock.commit {a : α} (h : Dirty i t c σ) :
    InLock i t (Prog.commit c >>= fun _ => .done (.ok a) : Action L α) σ := by
  refine Ok.bind (Ok.mono (ok_commit h) ?_ fun _ he => he)
  exact fun _ _ hl => hl.mono fun σ' _ hl' σ'' hr _ => hr.locked hl'

omit [IsoTime.Platform] in
theorem InLock.raise {e : PyError} (h : Locked i t σ) : InLock i t (Prog.raise e : Action L α) σ :=
  fun _ hr _ => hr.locked h

omit [IsoTime.Platform] in
theorem InLock.reads {β : Type} {p : Action L β} {f : β → Action L α} {A : Shared Database Statement W → Prop}
    (hA : (writeProtocol W).Stable i t A) (hl : ∀ σ', A σ' → Locked i t σ') (hp : p.Uses Op.isRead)
    (h : A σ) (hf : ∀ b (σ' : Shared Database Statement W), A σ' → InLock i t (f b) σ') : InLock i t (p >>= f) σ :=
  Ok.reads_bind hp hA (fun σ' _ => hl σ') (fun b σ' _ => hf b σ') h

omit [IsoTime.Platform] in
theorem callOk_of_reads {p : Action L α} (hp : p.Uses Op.isRead) : CallOk i t p σ :=
  Ok.reads hp ⟨fun _ _ _ _ => trivial, fun _ w hi _ => ⟨world_sound hi w, trivial⟩⟩ trivial

omit [IsoTime.Platform] in
theorem CallOk.bind_reads {β : Type} {p : Action L α} {f : α → Action L β} (h : CallOk i t p σ)
    (hf : ∀ a, (f a).Uses Op.isRead) : CallOk i t (p >>= f) σ :=
  Ok.bind (Ok.mono h (fun a _ _ _ _ _ => callOk_of_reads (hf a)) fun _ he => he)

omit [IsoTime.Platform] in
theorem ok_connection {f : ConnId → Action L α} {A : Shared Database Statement W → Prop}
    (hA : (writeProtocol W).Stable i t A) (herr : ∀ σ', A σ' → err σ') (h : A σ)
    (hf : ∀ c σ', A σ' → Owns i c σ' → Ok (writeProtocol W) (fun _ _ => CleanFailure) i t (f c) post err σ') :
    Ok (writeProtocol W) (fun _ _ => CleanFailure) i t (Prog.connection >>= f) post err σ := by
  refine Ok.bind (Ok.connection (fun σ' hr _ => herr σ' (hA.rely σ σ' hr h)) ?_)
  intro c σ' hr hi hdb σ'' hr' hi'
  exact hf c σ'' (hA.rely σ' σ'' hr' (hA.rely σ σ' hr h)) ((hi.wired.owns hdb).rewired hr'.rewired)

omit [IsoTime.Platform] in
/-- The locked body of a call that has neither written nor failed. -/
theorem CallOk.withLock {body : Action L α} (hu : Untouched t σ)
    (hbody : ∀ σ' : Shared Database Statement W, Rewired σ σ' → Entered i t σ' → InLock i t body σ') : CallOk i t (Prog.withLock body) σ := by
  refine Ok.withLock (fun _ _ _ => trivial) ?_
  intro σ' hr hi hfree
  have hu' := hr.untouched hu
  have hs : (writeProtocol W).Sound t σ' (σ'.setLock i (some t)) := by
    refine lock_sound hi ?_ ?_
    · rintro u ⟨⟩
      exact ⟨rfl, hu'⟩
    · intro u hl
      rw [Locked, hfree] at hl
      cases hl
  have hentered : Entered i t (σ'.setLock i (some t)) :=
    ⟨⟨hu'.committed, hu'.pending, hu'.failed⟩, Shared.setLock_lock_self σ' i (some t)⟩
  refine ⟨hs, Ok.mono (hbody _ (hr.rewired.trans hs.guar) hentered) ?_ ?_⟩
  · exact fun _ _ h => h.mono fun _ hi' hl => released hi' hl
  · exact fun _ h => h.mono fun _ hi' hl => released hi' hl

end Calls

section Operations

variable {α : Type}

omit [IsoTime.Platform] in
theorem untouched_of_fresh (h : ¬ σ.Mentions t) : Untouched t σ where
  committed hw := h (.inr (.inl hw))
  pending p hp hw := h (.inr (.inr (.inl ⟨p, hp, hw⟩)))
  failed p hp hpt := h (.inr (.inr (.inr ⟨p, hp, hpt⟩)))

theorem callOk_log (hu : Untouched t σ) (actor action : String) (payload : Option (List (PyKey × PyVal)))
    (signer : Option Signer) (eventType : String) :
    CallOk i t (Ledger.log (L := L) actor action payload signer eventType) σ := by
  have hr : AllowsReads (Op.isRead : Op Statement Request → Prop) := allowsReads_isRead
  refine ok_connection stable_untouched (fun _ _ => trivial) hu fun c σ₁ hu₁ hown => ?_
  refine CallOk.withLock hu₁ fun σ₂ hw he => ?_
  have hready : Ready i t c σ₂ := ⟨he, hown.rewired hw⟩
  have hl (σ' : Shared Database Statement W) (h : Ready i t c σ') : Locked i t σ' := h.locked
  refine InLock.reads stable_ready hl (Prog.uses_select hr c) hready fun d σ₃ h₃ => ?_
  refine InLock.reads stable_ready hl ((Prog.uses_external hr _).bind fun _ => trivial) h₃ fun ts σ₄ h₄ => ?_
  refine InLock.reads stable_ready hl (Prog.uses_done _) h₄ fun text σ₅ h₅ => ?_
  exact InLock.execute h₅ fun n σ₆ h₆ => InLock.commit h₆

theorem inLock_insertAnchor (h : Entered i t σ) (chainHeadHash : String) (chainHeadEntryId : ℤ)
    (otsProofBlob : Option HexBytes.Bytes) (calendarServers : List String) (tsaResponse : Option TSAResponse) :
    InLock i t (insertAnchor (L := L) chainHeadHash chainHeadEntryId otsProofBlob calendarServers
      tsaResponse) σ := by
  have hr : AllowsReads (Op.isRead : Op Statement Request → Prop) := allowsReads_isRead
  refine ok_connection stable_entered (fun _ h => h.locked) h fun c σ₁ h₁ hown => ?_
  have hl (σ' : Shared Database Statement W) (h : Ready i t c σ') : Locked i t σ' := h.locked
  refine InLock.reads stable_ready hl (Prog.uses_external hr _) ⟨h₁, hown⟩ fun submittedAt σ₂ h₂ => ?_
  refine InLock.reads stable_ready hl (Prog.uses_done _) h₂ fun iso σ₃ h₃ => ?_
  exact InLock.execute h₃ fun n σ₄ h₄ => InLock.commit h₄

theorem callOk_anchor (hu : Untouched t σ) (schedule ledgerSchedule : Option AnchorSchedule) :
    CallOk i t (Ledger.anchor (L := L) schedule ledgerSchedule) σ := by
  have hr : AllowsReads (Op.isRead : Op Statement Request → Prop) := allowsReads_isRead
  have hl (σ' : Shared Database Statement W) (h : Entered i t σ') : Locked i t σ' := h.locked
  unfold Ledger.anchor
  split
  · refine CallOk.withLock hu fun σ₁ _ he => ?_
    refine InLock.reads stable_entered hl (uses_getLatestEntry hr) he fun latest σ₂ h₂ => ?_
    cases latest with
    | none => exact fun _ hr' _ => hr'.locked h₂.locked
    | some e =>
      refine InLock.reads stable_entered hl (Prog.uses_done _) h₂ fun bytes σ₃ h₃ => ?_
      refine InLock.reads stable_entered hl (uses_submitOtsTrack hr _ _) h₃ fun ots σ₄ h₄ => ?_
      refine InLock.reads stable_entered hl (uses_submitTsaTrack hr _ _ _) h₄ fun tsa σ₅ h₅ => ?_
      dsimp only
      split
      · exact InLock.raise h₅.locked
      · refine Ok.bind (Ok.mono (inLock_insertAnchor h₅ _ _ _ _ _) ?_ fun _ he => he)
        exact fun _ _ hl => hl.mono fun σ' _ hl' σ'' hr _ => hr.locked hl'
  · exact fun _ _ _ => trivial

theorem callOk_confirmAnchor (hu : Untouched t σ) (anchorId : ℤ) (blob : HexBytes.Bytes) (height : ℤ)
    (blockHash : Option String) (confirmedAt : Option IsoTime.DateTime) :
    CallOk i t (Ledger.confirmAnchor (L := L) anchorId blob height blockHash confirmedAt) σ := by
  have hr : AllowsReads (Op.isRead : Op Statement Request → Prop) := allowsReads_isRead
  refine Ok.reads_bind (uses_confirmationTime hr _) stable_untouched (fun _ _ _ => trivial) ?_ hu
  intro time σ₁ _ hu₁
  refine ok_connection stable_untouched (fun _ _ => trivial) hu₁ fun c σ₂ hu₂ hown => ?_
  refine CallOk.bind_reads (CallOk.withLock hu₂ fun σ₃ hw he => ?_) fun _ => uses_getAnchor hr _ _
  exact InLock.execute ⟨he, hown.rewired hw⟩ fun n σ₄ h₄ => ok_commit h₄

theorem callOk_registerWitness (hu : Untouched t σ) (label publicKeyHex role : String) :
    CallOk i t (Ledger.registerWitness (L := L) label publicKeyHex role) σ := by
  have hr : AllowsReads (Op.isRead : Op Statement Request → Prop) := allowsReads_isRead
  unfold Ledger.registerWitness
  split
  · refine ok_connection stable_untouched (fun _ _ => trivial) hu fun c σ₁ hu₁ hown => ?_
    refine Ok.reads_bind (Prog.uses_external hr _) stable_opened (fun _ _ _ => trivial) ?_ ⟨hu₁, hown⟩
    intro createdAt σ₂ _ h₂
    refine CallOk.bind_reads (CallOk.withLock h₂.untouched fun σ₃ hw he => ?_) fun _ => trivial
    exact InLock.execute ⟨he, h₂.owns.rewired hw⟩ fun n σ₄ h₄ => InLock.commit h₄
  · exact fun _ _ _ => trivial

theorem callOk_retireWitness (hu : Untouched t σ) (witnessId : ℤ) :
    CallOk i t (Ledger.retireWitness (L := L) witnessId) σ := by
  have hr : AllowsReads (Op.isRead : Op Statement Request → Prop) := allowsReads_isRead
  refine ok_connection stable_untouched (fun _ _ => trivial) hu fun c σ₁ hu₁ hown => ?_
  refine Ok.reads_bind (Prog.uses_external hr _) stable_opened (fun _ _ _ => trivial) ?_ ⟨hu₁, hown⟩
  intro retiredAt σ₂ _ h₂
  refine CallOk.bind_reads (CallOk.withLock h₂.untouched fun σ₃ hw he => ?_) fun _ => uses_getWitness hr _
  exact InLock.execute ⟨he, h₂.owns.rewired hw⟩ fun n σ₄ h₄ => ok_commit h₄

theorem callOk_attestWithWitness (hu : Untouched t σ) (witnessId : ℤ) (signer : Signer) :
    CallOk i t (Ledger.attestWithWitness (L := L) witnessId signer) σ := by
  have hr : AllowsReads (Op.isRead : Op Statement Request → Prop) := allowsReads_isRead
  have hl (c : ConnId) (σ' : Shared Database Statement W) (h : Ready i t c σ') : Locked i t σ' := h.locked
  refine ok_connection stable_untouched (fun _ _ => trivial) hu fun c σ₁ hu₁ hown => ?_
  refine CallOk.withLock hu₁ fun σ₂ hw he => ?_
  refine InLock.reads stable_ready (hl c) (uses_getWitness hr _) ⟨he, hown.rewired hw⟩ fun witness σ₃ h₃ => ?_
  split
  · exact InLock.raise h₃.locked
  split
  · exact InLock.raise h₃.locked
  refine InLock.reads stable_ready (hl c) (uses_getLatestEntry hr) h₃ fun latest σ₄ h₄ => ?_
  cases latest with
  | none => exact fun _ hr' _ => hr'.locked h₄.locked
  | some e =>
    refine InLock.reads stable_ready (hl c) (uses_getLastWitnessAttestationHash hr _) h₄ fun prev σ₅ h₅ => ?_
    refine InLock.reads stable_ready (hl c) (Prog.uses_external hr _) h₅ fun signedAt σ₆ h₆ => ?_
    exact InLock.execute h₆ fun n σ₇ h₇ => InLock.commit h₇

/-- Every call of a task that is new, whatever fails in it. -/
theorem callOk_body (hu : Untouched t σ) (call : Call) : CallOk i t (call.body (L := L)) σ := by
  have hr : AllowsReads (Op.isRead : Op Statement Request → Prop) := allowsReads_isRead
  cases call with
  | log => exact CallOk.bind_reads (callOk_log hu _ _ _ _ _) fun _ => trivial
  | anchor => exact CallOk.bind_reads (callOk_anchor hu _ _) fun _ => trivial
  | confirmAnchor => exact CallOk.bind_reads (callOk_confirmAnchor hu _ _ _ _ _) fun _ => trivial
  | registerWitness => exact CallOk.bind_reads (callOk_registerWitness hu _ _ _) fun _ => trivial
  | retireWitness => exact CallOk.bind_reads (callOk_retireWitness hu _) fun _ => trivial
  | attestWithWitness => exact CallOk.bind_reads (callOk_attestWithWitness hu _ _) fun _ => trivial
  | verifyChain => exact callOk_of_reads ((uses_verifyChain hr _).bind fun _ => trivial)
  | verifyWitnessAttestations =>
    exact callOk_of_reads ((uses_verifyWitnessAttestations hr _ _).bind fun _ => trivial)

end Operations

section Lifecycle

omit [IsoTime.Platform] in
/-- Opening and closing connections only changes who owns what and drops what was not committed. -/
theorem rewired_tolerated (hi : Inv σ) (hw : Wired σ') (hr : Rewired σ σ')
    (hlock : ∀ j, (σ'.handles j).lock = (σ.handles j).lock) (hfailed : σ'.failed = σ.failed)
    (hcommitted : σ'.file.committed = σ.file.committed)
    (hpending : ∀ p ∈ σ'.file.pending, p ∈ σ.file.pending)
    (howns : ∀ j d, Owns j d σ' → d ∈ σ'.file.opened → (∃ p ∈ σ'.file.pending, p.1 = d) → Owns j d σ) :
    (writeProtocol W).Tolerated σ σ' := by
  refine ⟨⟨hw, ?_⟩, hr, fun i t => ⟨hr, ?_, fun h => (hlock i).trans h, ?_⟩⟩
  · intro p hp
    have h := hi.noTrace p (hfailed ▸ hp)
    have hc : ¬ Wrote p.1 σ'.file.committed := hcommitted ▸ h.committed
    refine ⟨hc, fun d => ?_, fun j hown hl q hq hqp => ?_⟩
    · rcases view_cases σ'.file d with ⟨v, hpv, hv⟩ | hv <;> rw [hv]
      · exact h.pending _ (hpending _ hpv)
      · exact hc
    · have hopen : p.2 ∈ σ'.file.opened := hqp ▸ hw.pending q hq
      exact h.transaction j (howns j p.2 hown hopen ⟨q, hq, hqp⟩) ((hlock j).symm.trans hl) q (hpending q hq) hqp
  · intro h
    exact ⟨hcommitted ▸ h.committed, fun p hp => h.pending p (hpending p hp), hfailed ▸ h.failed⟩
  · intro d h
    exact ⟨(hlock i).trans h.locked, h.owns.rewired hr, hfailed ▸ h.failed, hcommitted ▸ h.committed,
      fun p hp => h.pending p (hpending p hp)⟩

omit [IsoTime.Platform] in
theorem connect_tolerated (hi : Inv σ) (h : connectShared i σ = some σ') :
    (writeProtocol W).Tolerated σ σ' := by
  obtain ⟨hw, hr⟩ := connectShared_wired hi.wired h
  obtain ⟨hnone, rfl⟩ := connectShared_some h
  refine rewired_tolerated hi hw hr (fun j => Shared.setDb_lock σ i j _) rfl rfl (fun _ hp => hp) ?_
  rintro j d hown ho ⟨p, hp, rfl⟩
  have hlt : p.1 < σ.nextConn := hi.wired.opened _ (hi.wired.pending p hp)
  refine ⟨hlt, .inl ?_⟩
  have hdb := hown.2.resolve_right (not_not.mpr ho)
  by_cases hj : j = i
  · subst hj
    have hdb : some σ.nextConn = some p.1 := (Shared.setDb_db_self σ j _).symm.trans hdb
    exact absurd (Option.some.inj hdb) (Nat.ne_of_gt hlt)
  · exact (Shared.setDb_db_of_ne σ _ hj).symm.trans hdb

omit [IsoTime.Platform] in
theorem close_tolerated (hi : Inv σ) (h : closeShared i σ = some σ') :
    (writeProtocol W).Tolerated σ σ' := by
  obtain ⟨hw, hr⟩ := closeShared_wired hi.wired h
  obtain ⟨c, -, rfl⟩ := closeShared_some h
  refine rewired_tolerated hi hw hr (fun _ => rfl) rfl rfl
    (fun p hp => (Option.filter_eq_some_iff.mp hp).1) ?_
  rintro j d hown ho -
  exact ⟨hown.1, .inl (hown.2.resolve_right (not_not.mpr ho))⟩

omit [IsoTime.Platform] in
theorem detach_tolerated (hi : Inv σ) (h : detachShared i σ = some σ') :
    (writeProtocol W).Tolerated σ σ' := by
  obtain ⟨hw, hr⟩ := detachShared_wired hi.wired h
  obtain ⟨c, -, -, rfl⟩ := detachShared_some h
  refine rewired_tolerated hi hw hr (fun j => Shared.setDb_lock σ i j _) rfl rfl (fun _ hp => hp) ?_
  rintro j d hown ho -
  have hdb := hown.2.resolve_right (not_not.mpr ho)
  by_cases hj : j = i
  · subst hj
    rw [Shared.setDb_db_self] at hdb
    cases hdb
  · exact ⟨hown.1, .inl ((Shared.setDb_db_of_ne σ _ hj).symm.trans hdb)⟩

end Lifecycle

instance (op : Op Statement Request) (o : Outcome Request (Reply L) PyError W)
    (σ : Shared Database Statement W) : Decidable (CleanFailure op o σ) := by
  unfold CleanFailure
  split <;> infer_instance

/-- Runs in which every failing statement or commit leaves its connection without an open
transaction. -/
def cleanFailures : LedgerRules L W :=
  ⟨fun _ _ => True, fun _ _ => CleanFailure, fun _ _ => True, fun _ _ => True⟩

instance (s : LedgerSys L W) (e : Event Request (Reply L) PyError W Call) :
    Decidable (cleanFailures.Allows s e) :=
  inferInstanceAs (Decidable (Rules.Allows ⟨fun _ _ => True, fun _ _ => CleanFailure, fun _ _ => True,
    fun _ _ => True⟩ s e))

theorem verified_writes :
    Verified (writeProtocol W) (cleanFailures (L := L)) Call.body (fun _ _ _ _ _ => True)
      (fun _ _ _ _ => True) where
  call _ call _ _ _ _ hm := callOk_body (untouched_of_fresh hm) call
  connect _ _ _ _ hi h := connect_tolerated hi h
  close _ _ _ _ hi h := close_tolerated hi h
  detach _ _ _ hi h := detach_tolerated hi h

omit [IsoTime.Platform] in
theorem pending_of_not {o : Option (ConnId × Version Database Statement)} {d : ConnId}
    (h : ¬ ∀ p ∈ o, p.1 ≠ d) : ∃ v, o = some (d, v) := by
  simp only [ne_eq, not_forall, not_not] at h
  obtain ⟨⟨e, v⟩, hp, rfl⟩ := h
  exact ⟨v, hp⟩

omit [IsoTime.Platform] in
/-- A failure that is not clean leaves the connection with an open write transaction, or it is a statement
that an open connection refused and that left the file as it was. -/
theorem unclean_leaves_transaction {op : Op Statement Request} {o : Outcome Request (Reply L) PyError W}
    {r : Except PyError (op.Res Database (Reply L))} (hx : effect i t σ op o = some (r, σ'))
    (h : ¬ CleanFailure op o σ) :
    ∃ d, (t, d) ∈ σ'.failed ∧
      ((∃ v, σ'.file.pending = some (d, v)) ∨ d ∈ σ.file.opened ∧ (∃ s, op = .execute d s) ∧ σ'.file = σ.file) := by
  cases op with
  | execute d s =>
    cases o with
    | ok =>
      simp only [CleanFailure, Classical.not_imp] at h
      obtain ⟨ho, hrefused⟩ := h
      by_cases hw : σ.file.MayWrite d
      · cases hp : exec s (σ.file.view d).data with
        | ok p => exact absurd ⟨hw, by rw [hp]; rfl⟩ hrefused
        | error m =>
          simp only [effect, File.execute, if_pos hw, hp] at hx
          cases hx
          exact ⟨d, List.mem_cons_self, .inl ⟨_, rfl⟩⟩
      · simp only [effect, File.execute, if_neg hw] at hx
        cases hx
        exact ⟨d, List.mem_cons_self, .inr ⟨ho, ⟨s, rfl⟩, rfl⟩⟩
    | fail m locks =>
      have ho : d ∈ σ.file.opened := not_not.mp h
      simp only [effect] at hx
      cases hx
      refine ⟨d, List.mem_cons_self, ?_⟩
      by_cases hl : locks = true ∧ σ.file.MayWrite d
      · exact .inl ⟨_, congrArg File.pending (if_pos hl)⟩
      · exact .inr ⟨ho, ⟨s, rfl⟩, if_neg hl⟩
    | cancel performed => exact absurd trivial h
    | answer f w => cases hx
  | commit d =>
    cases o with
    | fail m locks =>
      simp only [effect] at hx
      cases hx
      exact ⟨d, List.mem_cons_self, .inl (pending_of_not h)⟩
    | ok => exact absurd trivial h
    | cancel performed => exact absurd trivial h
    | answer f w => cases hx
  | _ => exact absurd trivial h

theorem failed_writes_leave_nothing {d : Database} {w : W} {s : LedgerSys L W}
    (hrun : LedgerRun cleanFailures (startSys d w) s) :
    ∀ p ∈ s.shared.failed, NoTrace p.1 p.2 s.shared := by
  have hstart : Good (writeProtocol W) cleanFailures (fun _ _ _ _ _ => True) (fun _ _ _ _ => True)
      (startSys d w : LedgerSys L W) := by
    refine Good.start ⟨wired_start d w, ?_⟩ (fresh_start d w)
    rintro p ⟨⟩
  exact (verified_writes.run hstart hrun).1.inv.noTrace

end Protocol

section Examples

def registerCall (label publicKeyHex : String) : Call := .registerWitness label publicKeyHex "self"

/-- The commit of the first registration fails, the second registration succeeds. -/
def failedCommit : List (Event Request (Reply offline) PyError Unit Call) :=
  [.connect 0, .call 0 (registerCall "a" "00"), .run 0 .ok, .run 0 (stoppedClock offline), .run 0 .ok, .run 0 .ok,
    .run 0 (.fail "disk I/O error" false), .run 0 .ok, .call 0 (registerCall "b" "01"), .run 1 .ok,
    .run 1 (stoppedClock offline), .run 1 .ok, .run 1 .ok, .run 1 .ok]

/-- The second registration's commit makes the first one's row durable. -/
theorem failedCommit_durable : ∃ s : LedgerSys offline Unit, LedgerRun .all (startSys Database.empty ()) s ∧
    s.shared.failed = [(0, 0)] ∧
    s.shared.file.committed.data.witnesses.rows.map WitnessRow.label = ["a", "b"] ∧
    ¬ NoTrace 0 0 s.shared := by
  have h : (runEvents Call.body (startSys Database.empty ()) failedCommit).any (fun s =>
      s.shared.failed = [(0, 0)] ∧
      s.shared.file.committed.data.witnesses.rows.map WitnessRow.label = ["a", "b"] ∧
      ∃ e ∈ s.shared.file.committed.journal, e.1 = 0) = true := by decide +kernel
  obtain ⟨s, hs, h⟩ := (Option.any_eq_true _ _).mp h
  obtain ⟨hfailed, hlabels, hwrote⟩ := of_decide_eq_true h
  exact ⟨s, run_of_runEvents hs, hfailed, hlabels, fun hn => hn.committed hwrote⟩

/-- The first ledger is closed between its `INSERT` and its commit, which fails; the second ledger writes. -/
def closedBetween : List (Event Request (Reply offline) PyError Unit Call) :=
  [.connect 0, .connect 1, .call 0 (registerCall "a" "00"), .call 1 (registerCall "b" "01"),
    .run 0 .ok, .run 0 (stoppedClock offline), .run 0 .ok, .run 0 .ok, .close 0, .run 0 .ok, .run 0 .ok,
    .run 1 .ok, .run 1 (stoppedClock offline), .run 1 .ok, .run 1 .ok, .run 1 .ok, .run 1 .ok]

theorem failed_writes_leave_nothing_closed : ∃ s : LedgerSys offline Unit,
    LedgerRun cleanFailures (startSys Database.empty ()) s ∧ s.shared.failed = [(0, 0)] ∧
    s.shared.file.committed.data.witnesses.rows.map WitnessRow.label = ["b"] ∧ NoTrace 0 0 s.shared := by
  have h : (runAllowed Call.body cleanFailures (startSys Database.empty ()) closedBetween).any (fun s =>
      s.shared.failed = [(0, 0)] ∧ s.shared.file.committed.data.witnesses.rows.map WitnessRow.label = ["b"]) = true := by
    decide +kernel
  obtain ⟨s, hs, h⟩ := (Option.any_eq_true _ _).mp h
  obtain ⟨hfailed, hlabels⟩ := of_decide_eq_true h
  have hrun : LedgerRun cleanFailures (startSys Database.empty ()) s := run_of_runAllowed (fun _ _ _ ha => ha) hs
  exact ⟨s, hrun, hfailed, hlabels, failed_writes_leave_nothing hrun (0, 0) (by rw [hfailed]; exact List.mem_singleton_self _)⟩

end Examples
end NexusCone.FailedWrites
