import NexusCone.LedgerGrowth
import NexusCone.LedgerRuns
import NexusCone.TimeOrder

/-!
# Runs under a clock that never goes backwards

What the environment keeps has the time of its clock. Along a run no entry is dated later than the
clock is then, so a reading of the clock is never earlier than the entries that are there.
-/
namespace NexusCone.ClockedRuns
open IsoTime TimeOrder KeyedTable SharedFile AsyncProgram AsyncSystem Connections RelyGuarantee GrowingVersions
  PyValue Canonical LedgerSchema EntryChain TimestampAuthority Ledger LedgerOperations LedgerRuns

section Clock

variable [IsoTime.Platform] {W : Type} {L : Libraries}

def worldAfter (o : Outcome Request (Reply L) PyError W) (σ : Shared Database Statement W) : W :=
  match o with
  | .answer _ w => w
  | _ => σ.world

/-- What a task reads from the clock. -/
def reading : Op Statement Request → Outcome Request (Reply L) PyError W → Option UtcTime
  | .external .now, .answer f _ => (f .now).toOption
  | _, _ => none

/-- The clock does not go back, and shows the time of the reading when it is read. -/
def Forward (clock : W → UtcTime) (op : Op Statement Request) (o : Outcome Request (Reply L) PyError W)
    (σ : Shared Database Statement W) : Prop :=
  clock σ.world ≤ clock (worldAfter o σ) ∧
    ∀ t ∈ reading op o, clock σ.world ≤ t ∧ t ≤ clock (worldAfter o σ)

instance (clock : W → UtcTime) (op : Op Statement Request) (o : Outcome Request (Reply L) PyError W)
    (σ : Shared Database Statement W) : Decidable (Forward clock op o σ) :=
  inferInstanceAs (Decidable (_ ∧ ∀ t ∈ reading op o, _))

variable {clock : W → UtcTime} {i : InstId} {t : TaskId} {σ σ' : Shared Database Statement W}
variable {o : Outcome Request (Reply L) PyError W}

omit [IsoTime.Platform] in
theorem effect_world {op : Op Statement Request} {r : Except PyError (op.Res Database (Reply L))}
    (h : effect i t σ op o = some (r, σ')) : σ'.world = worldAfter o σ := by
  have hkept (hw : σ'.world = σ.world) (ho : ∀ f w, o ≠ .answer f w) : σ'.world = worldAfter o σ := by
    cases o with
    | answer f w => exact absurd rfl (ho f w)
    | _ => exact hw
  cases op with
  | connection =>
    obtain ⟨rfl, -⟩ := effect_connection h
    exact hkept rfl fun f w ho => by subst ho; cases h
  | acquire =>
    refine hkept ?_ fun f w ho => by subst ho; cases h
    rcases effect_acquire h with ⟨-, -, rfl⟩ | ⟨-, rfl⟩ <;> rfl
  | release =>
    obtain ⟨-, rfl⟩ := effect_release h
    exact hkept rfl fun f w ho => by subst ho; cases h
  | select c =>
    obtain ⟨rfl, -⟩ := effect_select h
    exact hkept rfl fun f w ho => by subst ho; cases h
  | execute c s =>
    refine hkept ?_ fun f w ho => by subst ho; cases h
    rcases effect_execute h with ⟨d, n, -, -, -, rfl⟩ | ⟨e, f, l, -, -, -, rfl⟩ <;> rfl
  | commit c =>
    refine hkept ?_ fun f w ho => by subst ho; cases h
    rcases effect_commit h with ⟨v, -, -, -, rfl⟩ | ⟨-, -, -, rfl⟩ | ⟨e, l, -, -, rfl⟩ <;> rfl
  | external q =>
    rcases effect_external h with ⟨f, w, rfl, -, rfl⟩ | ⟨-, rfl⟩
    · rfl
    · cases o with
      | answer f w =>
        obtain ⟨-, hσ⟩ := Prod.mk.inj (Option.some.inj h)
        rw [← hσ]
        rfl
      | _ => rfl

/-- Runs in which the environment's clock does not go back. -/
def Clocked (rules : LedgerRules L W) (clock : W → UtcTime) : Prop :=
  ∀ i t op o σ, rules.env i t op o σ → Forward clock op o σ

variable {rules : LedgerRules L W}

theorem Clocked.step {s s' : LedgerSys L W} (hc : Clocked rules clock) (h : Step Call.body rules s s') :
    clock s.shared.world ≤ clock s'.shared.world := by
  obtain ⟨e, ha, hs⟩ := h
  cases e with
  | call i c =>
    cases hs
    exact utcTime_le_refl _
  | run t o =>
    obtain ⟨i, c, op, k, r, σ, ht, hx, rfl⟩ := runTask_some hs
    show clock s.shared.world ≤ clock σ.world
    rw [effect_world hx]
    exact (hc i t op o _ (ha i c op k ht)).1
  | connect i =>
    obtain ⟨σ, hσ, rfl⟩ := Option.map_eq_some_iff.mp hs
    obtain ⟨-, rfl⟩ := connectShared_some hσ
    exact utcTime_le_refl _
  | close i =>
    obtain ⟨σ, hσ, rfl⟩ := Option.map_eq_some_iff.mp hs
    obtain ⟨c, -, rfl⟩ := closeShared_some hσ
    exact utcTime_le_refl _
  | detach i =>
    obtain ⟨σ, hσ, rfl⟩ := Option.map_eq_some_iff.mp hs
    obtain ⟨c, -, -, rfl⟩ := detachShared_some hσ
    exact utcTime_le_refl _

/-- Runs whose readings are not later than the time. -/
def readsUpTo (T : String) : LedgerRules L W :=
  ⟨fun _ _ => True, fun _ _ op o _ => ∀ t ∈ reading op o, strftime t.civil ≤ T, fun _ _ => True, fun _ _ => True⟩

/-- Up to a state of a run the clock has shown no later times than it shows there. -/
theorem Clocked.readsUpTo (hc : Clocked rules clock) {s s' : LedgerSys L W} (h : LedgerRun rules s s') {T : String}
    (hT : strftime (clock s'.shared.world).civil ≤ T) : LedgerRun (readsUpTo T) s s' := by
  induction h with
  | refl => exact .refl
  | @tail s₁ s₂ _ hstep ih =>
    have hclock := strftime_le.mpr (hc.step hstep)
    refine (ih (le_trans hclock hT)).tail ?_
    obtain ⟨e, ha, hs⟩ := hstep
    refine ⟨e, ?_, hs⟩
    cases e with
    | run t o =>
      intro i c op k ht τ hτ
      obtain ⟨j, c', op', k', r, σ, ht', hx, rfl⟩ := runTask_some hs
      rw [ht] at ht'
      cases ht'
      have hread := ((hc i t op o _ (ha i c op k ht)).2 τ hτ).2
      rw [← effect_world hx] at hread
      exact le_trans (strftime_le.mpr hread) hT
    | _ => exact trivial

end Clock

section Entries

variable [IsoTime.Platform]
variable {W : Type} {L : Libraries} {T : String} {i : InstId} {t : TaskId} {σ : Shared Database Statement W}

/-- No entry is dated later than the time. -/
def DatedUpTo (T : String) (d : Database) : Prop := ∀ r ∈ d.entries.rows, r.timestamp ≤ T

def datedGrowth (T : String) : Growth Database Statement where
  good v := DatedUpTo T v.data
  le _ _ := True
  refl _ := trivial
  trans _ _ := trivial

def NoEntry : Statement → Prop
  | .insertEntry _ => False
  | _ => True

omit [IsoTime.Platform] in
theorem exec_noEntry {s : Statement} {d d' : Database} {n : ℤ} (hs : NoEntry s) (hex : exec s d = .ok (d', n)) :
    d'.entries = d.entries := by
  cases s with
  | insertEntry row => exact hs.elim
  | insertAnchor a =>
    obtain ⟨-, -, rfl⟩ := exec_insertAnchor hex
    rfl
  | confirmAnchor =>
    cases hex
    rfl
  | insertWitness w =>
    obtain ⟨-, -, -, rfl⟩ := exec_insertWitness hex
    rfl
  | retireWitness =>
    cases hex
    rfl
  | insertAttestation a =>
    obtain ⟨-, -, -, rfl⟩ := exec_insertAttestation hex
    rfl

theorem dated_log (actor action : String) (payload : Option (List (PyKey × PyVal))) (signer : Option Signer)
    (eventType : String) : (datedGrowth T).Keeps (readsUpTo (L := L) T).env i t
      (log (L := L) actor action payload signer eventType) (fun _ _ => True) σ := by
  unfold Ledger.log requireDb utcNowIso now
  refine Growth.Keeps.connection fun c σ₁ _ _ hown => ?_
  refine Growth.Keeps.withLock (fun _ _ _ _ _ => trivial) fun σ₂ hg₂ => ?_
  refine Growth.Keeps.select (hown.rewired hg₂.rewired).1 fun u σ₃ _ _ hseen => ?_
  simp only [bind_assoc]
  refine Growth.Keeps.asks fun τ σ₄ σ₅ g w hg₄ henv hτ hg₅ => ?_
  simp only [Prog.pure_eq, Prog.ok_bind]
  cases hcanon : canonicalJson (PyVal.dict (payload.getD [])) with
  | error e => exact Growth.Keeps.raise
  | ok text =>
    simp only [Prog.ok_bind]
    refine Growth.Keeps.execute (hseen.grow (hg₄.trans hg₅)) ?_ ?_
    · intro σ₆ o d n _ hi₆ _ _ _ hex _
      refine ⟨fun r hr => ?_, trivial⟩
      obtain ⟨tb, hins, -, rfl⟩ := exec_insertEntry hex
      rw [(Table.insert_some hins).2] at hr
      rcases Table.mem_place.mp hr with rfl | hr
      · exact henv τ (by simp [reading, hτ, Except.toOption])
      · exact (hi₆.view c).1 r hr
    · intro σ₆ v n _ hseen₆ _ _
      exact Growth.Keeps.commit hseen₆ fun _ _ _ => Growth.Keeps.pure fun _ _ => trivial

theorem dated_body (call : Call) : (datedGrowth T).Keeps (readsUpTo (L := L) T).env i t (call.body (L := L))
    (fun _ _ => True) σ := by
  have hother {call : Call} (ha : Admits NoEntry call) :
      (datedGrowth T).Keeps (readsUpTo (L := L) T).env i t (call.body (L := L)) (fun _ _ => True) σ := by
    refine (Growth.Keeps.of_uses (guarded_body ha).uses (Growth.Grows.refl σ) ?_).mono fun _ _ _ _ => trivial
    intro s v d n hs hv hex
    refine ⟨fun r hr => hv r ?_, trivial⟩
    rwa [← exec_noEntry hs hex]
  cases call with
  | log =>
    refine Growth.Keeps.bind ((dated_log _ _ _ _ _).mono fun _ _ _ _ => ?_)
    exact Growth.Keeps.pure fun _ _ => trivial
  | _ => exact hother (admits_of_mayIssue fun s hs => by cases s <;> trivial)

theorem dated_upTo {d : Database} (hd : DatedUpTo T d) {w : W} {s : LedgerSys L W}
    (hrun : LedgerRun (readsUpTo T) (startSys d w) s) (c : ConnId) : DatedUpTo T (s.shared.file.view c).data := by
  have hv : Verified ((datedGrowth T).protocol W) (readsUpTo T) (Call.body (L := L)) (fun _ _ _ _ _ => True)
      (fun _ _ _ _ => True) := Growth.verified fun _ _ _ _ _ _ _ => dated_body _
  have hstart : Good ((datedGrowth T).protocol W) (readsUpTo T) (fun _ _ _ _ _ => True) (fun _ _ _ _ => True)
      (startSys d w : LedgerSys L W) := by
    refine Good.start ⟨wired_start d w, hd, ?_⟩ (fresh_start d w)
    rintro p ⟨⟩
  exact ((hv.run hstart hrun).1.inv.view c).1

/-- Along a run no entry is dated later than the clock is then. -/
theorem dated_of_run {rules : LedgerRules L W} {clock : W → UtcTime} (hc : Clocked rules clock) {d : Database} {w : W}
    (hd : DatedUpTo (strftime (clock w).civil) d) {s : LedgerSys L W} (hrun : LedgerRun rules (startSys d w) s)
    (c : ConnId) : DatedUpTo (strftime (clock s.shared.world).civil) (s.shared.file.view c).data := by
  have hclock : clock w ≤ clock s.shared.world := by
    clear hd
    induction hrun with
    | refl => exact utcTime_le_refl _
    | tail _ hstep ih => exact utcTime_le_trans ih (hc.step hstep)
  refine dated_upTo (fun r hr => ?_) (hc.readsUpTo hrun le_rfl) c
  exact le_trans (hd r hr) (strftime_le.mpr hclock)

end Entries

section Ticks

theorem valid_afterNoon (n : ℕ) : Civil.Valid ⟨2026, 1, 1, ⟨12, 0, 0, n % 1000000⟩⟩ ∧ 1000 ≤ 2026 := by
  obtain ⟨⟨hyear, hyear', hmonth, hmonth', hday, hday', hhour, hminute, hsecond, -⟩, -⟩ := noon.valid
  exact ⟨⟨hyear, hyear', hmonth, hmonth', hday, hday', hhour, hminute, hsecond, Nat.mod_lt _ (by decide)⟩, by decide⟩

/-- Some microseconds after noon. -/
def afterNoon (n : ℕ) : UtcTime := ⟨⟨2026, 1, 1, ⟨12, 0, 0, n % 1000000⟩⟩, valid_afterNoon n⟩

/-- The clock's answer and a calendar that accepts. -/
def ticks (n : ℕ) : Outcome Request (Reply offline) PyError ℕ :=
  .answer (fun
    | .now => .ok (afterNoon n)
    | .submitToCalendar _ _ => .ok ()
    | .urlopen _ => .error (.other "URLError" "offline")) n

end Ticks
end NexusCone.ClockedRuns
