import NexusCone.NotedRuns
import NexusCone.Service

/-!
# What a poller confirms it has listed as pending

`upgrade_pending_anchors` takes its anchors from one `SELECT` of the unconfirmed rows. Its `UPDATE`s
meet confirmed rows only where another run has confirmed an anchor since.
-/
namespace NexusCone.ListedAnchors
open ExceptResults HexBytes KeyedTable SharedFile AsyncProgram AsyncSystem EmbeddedPrograms NotedRuns PyValue LedgerSchema
  TimestampAuthority Ledger LedgerRuns VerifierCli AnchorChecks Poller ConfirmedProofs PollerRuns Service

variable {T : Proofs} {W : Type}

abbrev NotedPollers (T : Proofs) (W : Type) :=
  NotedSys Database Statement W (Request ⊕ PollerRequest) (Sum.elim (Reply T.libraries) (PollerReply T)) PyError
    (Option ℤ) PollCounts

abbrev PollersEvent (T : Proofs) (W : Type) :=
  Event (Request ⊕ PollerRequest) (Sum.elim (Reply T.libraries) (PollerReply T)) PyError W (Option ℤ)

section Listing

/-- The contents hold the anchor unconfirmed. -/
def Pending (anchorId : ℤ) (d : Database) : Prop :=
  ∃ row ∈ d.anchors.rows, row.anchorId = anchorId ∧ row.confirmedAt = none

instance (anchorId : ℤ) (d : Database) : Decidable (Pending anchorId d) :=
  inferInstanceAs (Decidable (∃ row ∈ d.anchors.rows, _))

/-- What is confirmed was pending in these contents. -/
def ConfirmsPending (d : Database) : Statement → Prop
  | .confirmAnchor anchorId _ _ _ _ => Pending anchorId d
  | _ => True

/-- What is confirmed was pending in contents that have been read. -/
def confirmsRead (reads : List Database) : Statement → Prop
  | .confirmAnchor anchorId _ _ _ _ => ∃ d ∈ reads, Pending anchorId d
  | _ => True

variable [IsoTime.Platform]

theorem pending_of_listed {d : Database} {cutoff : Option String} {limit : ℤ} {pending : List AnchorRecord}
    (h : (sqlLimit limit (d.anchors.rows.filter (isUnconfirmed cutoff))).mapM rowToAnchor = .ok pending) :
    ∀ anchor ∈ pending, Pending anchor.anchorId d := by
  intro anchor hanchor
  obtain ⟨row, hrow, hread⟩ := mem_mapM_ok h hanchor
  have hlisted : row ∈ d.anchors.rows.filter (isUnconfirmed cutoff) := by
    unfold sqlLimit at hrow
    split at hrow
    · exact hrow
    · exact List.mem_of_mem_take hrow
  obtain ⟨hmem, hunconfirmed⟩ := List.mem_filter.mp hlisted
  simp only [isUnconfirmed, Bool.and_eq_true, Option.isNone_iff_eq_none] at hunconfirmed
  exact ⟨row, hmem, (readFrom_of_rowToAnchor hread).anchorId.symm, hunconfirmed.1.1⟩

/-- The anchors of the list are pending in the contents that the `SELECT` answers. -/
theorem based_listed {f : List AnchorRecord → PollerAction T PollCounts} (maxAgeMinutes : Option ℤ) (limit : ℤ)
    (hf : ∀ pending reads d, d ∈ reads → (∀ anchor ∈ pending, Pending anchor.anchorId d) →
      Based confirmsRead reads (f pending)) (reads : List Database) :
    Based confirmsRead reads (listUnconfirmedAnchors maxAgeMinutes limit >>= f) := by
  have hselect (db : ConnId) (cutoff : Option String) (reads : List Database) : Based confirmsRead reads
      ((Prog.select db >>= fun d => Prog.done ((sqlLimit limit (d.anchors.rows.filter (isUnconfirmed cutoff))).mapM
        rowToAnchor)) >>= f : PollerAction T PollCounts) := by
    refine ⟨trivial, fun r => ?_⟩
    cases r with
    | error e => exact trivial
    | ok d =>
      change Based confirmsRead (reads ++ [d]) (Prog.done _ >>= f)
      cases hpending : (sqlLimit limit (d.anchors.rows.filter (isUnconfirmed cutoff))).mapM rowToAnchor with
      | error e => exact trivial
      | ok pending => exact hf pending _ d (by simp) (pending_of_listed hpending)
  unfold listUnconfirmedAnchors
  rw [bind_assoc]
  refine ⟨trivial, fun db => ?_⟩
  cases db with
  | error e => exact trivial
  | ok db =>
    cases maxAgeMinutes with
    | none => exact hselect db none _
    | some minutes =>
      refine ⟨trivial, fun now => ?_⟩
      cases now with
      | error e => exact trivial
      | ok now =>
        show Based confirmsRead _ ((Prog.done (minutesBefore now minutes) >>= fun time => Prog.select db >>= fun d =>
          Prog.done ((sqlLimit limit (d.anchors.rows.filter (isUnconfirmed (some (IsoTime.strftime time))))).mapM
            rowToAnchor)) >>= f)
        cases minutesBefore now minutes with
        | error e => exact trivial
        | ok time => exact hselect db _ _

theorem based_upgradePendingAnchors (maxAgeMinutes : Option ℤ) (reads : List Database) :
    Based confirmsRead reads (upgradePendingAnchors (T := T) maxAgeMinutes) := by
  refine based_listed maxAgeMinutes 500 (fun pending reads d hd hpending => ?_) reads
  have huses : (upgradeEach (T := T) ⟨pending.length, 0, 0, 0⟩ pending).Uses (Op.executes (ConfirmsPending d)) :=
    (guarded_upgradeEach (fun anchor hanchor _ _ _ _ _ => hpending anchor hanchor) _).uses
  refine based_of_uses_from huses fun s hs later => ?_
  cases s with
  | confirmAnchor anchorId => exact ⟨d, List.mem_append_left _ hd, hs⟩
  | _ => exact trivial

end Listing

section Schedule

/-- Anchors that a task has read as pending are pending still. -/
def NoneSince (reads : List Database) (op : Op Statement (Request ⊕ PollerRequest))
    (σ : Shared Database Statement W) : Prop :=
  ∀ q ∈ confirmOf op, ∀ d ∈ reads, Pending q.2 d → Pending q.2 (σ.file.view q.1).data

instance (reads : List Database) (op : Op Statement (Request ⊕ PollerRequest)) (σ : Shared Database Statement W) :
    Decidable (NoneSince reads op σ) :=
  inferInstanceAs (Decidable (∀ q ∈ confirmOf op, ∀ d ∈ reads, _ → _))

/-- Nobody confirms an anchor between its listing by a run and that run's `UPDATE`. -/
def noneConfirmed (reads : TaskId → List Database) : PollerRules T W :=
  ⟨fun _ _ => True, fun _ t op o σ => o.performs → NoneSince (reads t) op σ, fun _ _ => True, fun _ _ => True⟩

def NoneConfirmed (p : NotedPollers T W) (e : PollersEvent T W) : Prop := (noneConfirmed p.2).Allows p.1 e

instance (p : NotedPollers T W) (e : PollersEvent T W) : Decidable (NoneConfirmed p e) :=
  inferInstanceAs (Decidable (Rules.Allows ⟨fun _ _ => True, fun _ t op o σ => o.performs → NoneSince (p.2 t) op σ,
    fun _ _ => True, fun _ _ => True⟩ p.1 e))

theorem confirmsOnce_of_noneConfirmed {p : NotedPollers T W} {e : PollersEvent T W}
    (hbased : AllBased confirmsRead p) (h : NoneConfirmed p e) : confirmsOnce.Allows p.1 e := by
  cases e with
  | run t o =>
    intro i call op k ht hran q hq row hrow hid
    have hsince := h i call op k ht hran
    cases op with
    | execute c s =>
      cases s with
      | confirmAnchor anchorId blob height blockHash confirmedAt =>
        cases hq
        obtain ⟨d, hd, hpending⟩ := (hbased t _ ht).1
        obtain ⟨row', hrow', hid', hnone⟩ := hsince (c, anchorId) rfl d hd hpending
        rwa [Table.key_injOn _ hrow hrow' (hid.trans hid'.symm)]
      | _ => cases hq
    | _ => cases hq
  | call | connect | close | detach => trivial

variable [IsoTime.Platform]

theorem run_of_noneConfirmed {p p' : NotedPollers T W} (hbased : AllBased confirmsRead p)
    (h : NotedRun upgradePendingAnchors NoneConfirmed p p') :
    PollerRun confirmsOnce p.1 p'.1 ∧ AllBased confirmsRead p' :=
  run_of_noted based_upgradePendingAnchors (fun _ _ => confirmsOnce_of_noneConfirmed) hbased h

/-- Where nobody confirms an anchor between its listing by a run and that run's `UPDATE`, confirmed rows
stay as they are. -/
theorem listed_confirmations_final (d : Database) (world : W) {p p' : NotedPollers T W}
    (h : NotedRun upgradePendingAnchors NoneConfirmed (startPollers d world, fun _ => []) p)
    (h' : NotedRun upgradePendingAnchors NoneConfirmed p p') {row : AnchorRow}
    (hrow : row ∈ p.1.shared.file.committed.data.anchors.rows) (hconfirmed : row.confirmedAt.isSome) :
    row ∈ p'.1.shared.file.committed.data.anchors.rows ∧
      ∀ c, row ∈ (p'.1.shared.file.view c).data.anchors.rows := by
  obtain ⟨hrun, hbased⟩ := run_of_noneConfirmed (by rintro t task ⟨⟩) h
  obtain ⟨hrun', -⟩ := run_of_noneConfirmed hbased h'
  exact confirmed_stays (good_of_run hrun) hrun' hrow hconfirmed

end Schedule

section Examples

/-- Two anchors of one head. -/
def twoPending : Database :=
  { Database.empty with anchors := ⟨[storedRow, { storedRow with anchorId := 2 }], 2, by decide⟩ }

/-- A run lists both, confirms the first one and finds no proof of the second. -/
def firstSweep : List PollerEvent :=
  [.connect 0, .call 0 none] ++ (proceeds 0 2 ++ confirms 0 (.ok (200, [48, 48])) ++ proceeds 0 2 ++
    [.run 0 (.answer (networkReply _ (.error (.other "CommitmentNotFoundError" "")) explorerDown) ())])

/-- The next run lists the second one only, and confirms it. -/
def secondSweep : List PollerEvent := .call 0 none :: (proceeds 1 2 ++ confirms 1 explorerDown ++ proceeds 1 2)

def sweep (p : NotedPollers (twoTrees promise promiseKept) Unit) (es : List PollerEvent) :
    Option (NotedPollers (twoTrees promise promiseKept) Unit) :=
  runNoted upgradePendingAnchors (fun p e => decide (NoneConfirmed p e)) p es

theorem noted_of_sweep {p p' : NotedPollers (twoTrees promise promiseKept) Unit} {es : List PollerEvent}
    (h : sweep p es = some p') : NotedRun upgradePendingAnchors NoneConfirmed p p' :=
  notedRun_of_runNoted .refl (fun _ _ _ _ hcheck => of_decide_eq_true hcheck) h

/-- Which anchors are confirmed, with which block hash. -/
def confirmedHashes (p : NotedPollers (twoTrees promise promiseKept) Unit) : List (Bool × Option String) :=
  p.1.shared.file.committed.data.anchors.rows.map fun row => (row.confirmedAt.isSome, row.bitcoinBlockHash)

end Examples

/-- The second run leaves the anchor of the first one alone. -/
theorem listed_confirmations_final_sweeps : ∃ p p' : NotedPollers (twoTrees promise promiseKept) Unit,
    NotedRun upgradePendingAnchors NoneConfirmed (startPollers twoPending (), fun _ => []) p ∧
      NotedRun upgradePendingAnchors NoneConfirmed p p' ∧
        confirmedHashes p = [(true, some "00"), (false, none)] ∧ confirmedHashes p' = [(true, some "00"), (true, none)] ∧
          ∃ row ∈ p.1.shared.file.committed.data.anchors.rows, row.confirmedAt.isSome ∧
            row ∈ p'.1.shared.file.committed.data.anchors.rows := by
  have h : (sweep (startPollers twoPending (), fun _ => []) firstSweep).any (fun p =>
      confirmedHashes p = [(true, some "00"), (false, none)] &&
        (sweep p secondSweep).any fun p' => confirmedHashes p' = [(true, some "00"), (true, none)]) = true := by
    decide +kernel
  obtain ⟨p, hp, h⟩ := (Option.any_eq_true _ _).mp h
  obtain ⟨hhashes, h⟩ := Bool.and_eq_true_iff.mp h
  obtain ⟨p', hp', hhashes'⟩ := (Option.any_eq_true _ _).mp h
  have hhashes := of_decide_eq_true hhashes
  obtain ⟨row, rest, hrows, hrow, -⟩ := List.map_eq_cons_iff.mp hhashes
  have hmem : row ∈ p.1.shared.file.committed.data.anchors.rows := by
    rw [hrows]
    exact List.mem_cons_self
  have hconfirmed : row.confirmedAt.isSome := congrArg Prod.fst hrow
  refine ⟨p, p', noted_of_sweep hp, noted_of_sweep hp', hhashes, of_decide_eq_true hhashes', row, hmem, hconfirmed, ?_⟩
  exact (listed_confirmations_final twoPending () (noted_of_sweep hp) (noted_of_sweep hp') hmem hconfirmed).1

end NexusCone.ListedAnchors
