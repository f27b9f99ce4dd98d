import NexusCone.ConfirmedProofs
import NexusCone.GrowingVersions

/-!
# Pollers that run at the same time

The `UPDATE` of `confirm_anchor` takes whatever row has the anchor's id, also one that another run
has confirmed since this run listed it. Where no `UPDATE` meets a confirmed row, confirmed rows stay
as they are.
-/
namespace NexusCone.PollerRuns
open HexBytes KeyedTable SharedFile AsyncProgram AsyncSystem Connections RelyGuarantee GrowingVersions PyValue
  EmbeddedPrograms LedgerSchema TimestampAuthority LedgerRuns AnchorChecks Poller ConfirmedProofs

variable {T : Proofs} {W : Type}

/-- Tasks that run `upgrade_pending_anchors`, each with its `max_age_minutes`. -/
abbrev PollerSys (T : Proofs) (W : Type) :=
  Sys Database Statement W (Request ⊕ PollerRequest) (Sum.elim (Reply T.libraries) (PollerReply T)) PyError
    (Option ℤ) PollCounts

abbrev PollerRules (T : Proofs) (W : Type) :=
  Rules Database Statement W (Request ⊕ PollerRequest) (Sum.elim (Reply T.libraries) (PollerReply T)) PyError
    (Option ℤ)

abbrev PollerRun [IsoTime.Platform] (rules : PollerRules T W) : PollerSys T W → PollerSys T W → Prop :=
  Run upgradePendingAnchors rules

def startPollers (d : Database) (w : W) : PollerSys T W := ⟨startShared d w, []⟩

section Rules

/-- The anchor that an `UPDATE` of `confirm_anchor` is about, and its connection. -/
def confirmOf {Q : Type} : Op Statement Q → Option (ConnId × ℤ)
  | .execute c (.confirmAnchor anchorId _ _ _ _) => some (c, anchorId)
  | _ => none

/-- An `UPDATE` of `confirm_anchor` that runs finds its row, if there is one, unconfirmed. -/
def FindsPending {Q ε : Type} {Ans : Q → Type} (op : Op Statement Q) (o : Outcome Q Ans ε W)
    (σ : Shared Database Statement W) : Prop :=
  o.performs → ∀ p ∈ confirmOf op, ∀ row ∈ (σ.file.view p.1).data.anchors.rows,
    row.anchorId = p.2 → row.confirmedAt = none

instance {Q ε : Type} {Ans : Q → Type} (op : Op Statement Q) (o : Outcome Q Ans ε W)
    (σ : Shared Database Statement W) : Decidable (FindsPending op o σ) :=
  inferInstanceAs (Decidable (_ → ∀ p ∈ confirmOf op, ∀ row ∈ _, _ → _))

/-- Any calls, outcomes, openings and closings, but no `UPDATE` of a confirmed row. -/
def confirmsOnce : PollerRules T W :=
  ⟨fun _ _ => True, fun _ _ => FindsPending, fun _ _ => True, fun _ _ => True⟩

instance (s : PollerSys T W) (e : Event (Request ⊕ PollerRequest)
    (Sum.elim (Reply T.libraries) (PollerReply T)) PyError W (Option ℤ)) : Decidable (confirmsOnce.Allows s e) :=
  inferInstanceAs (Decidable (Rules.Allows ⟨fun _ _ => True, fun _ _ => FindsPending, fun _ _ => True,
    fun _ _ => True⟩ s e))

end Rules

section Growth

/-- The confirmed rows of the one stand in the other as they are. -/
def KeepsConfirmed (d d' : Database) : Prop :=
  ∀ row ∈ d.anchors.rows, row.confirmedAt.isSome → row ∈ d'.anchors.rows

def confirmations : Growth Database Statement where
  good _ := True
  le u v := KeepsConfirmed u.data v.data
  refl _ _ h _ := h
  trans h h' row hrow hc := h' row (h row hrow hc) hc

variable {d d' : Database} {n : ℤ} {s : Statement}

/-- No other statement touches the anchors there are. -/
theorem keepsConfirmed_of_exec (hex : exec s d = .ok (d', n))
    (hs : ∀ anchorId blob height blockHash confirmedAt, s = .confirmAnchor anchorId blob height blockHash confirmedAt →
      ∀ row ∈ d.anchors.rows, row.anchorId = anchorId → row.confirmedAt = none) : KeepsConfirmed d d' := by
  intro row hrow hc
  cases s with
  | insertEntry r =>
    obtain ⟨t, -, -, rfl⟩ := exec_insertEntry hex
    exact hrow
  | insertAnchor a =>
    obtain ⟨-, -, rfl⟩ := exec_insertAnchor hex
    exact List.mem_append_left _ hrow
  | confirmAnchor anchorId blob height blockHash confirmedAt =>
    cases hex
    have hne : row.anchorId ≠ anchorId := by
      intro hid
      rw [hs _ _ _ _ _ rfl row hrow hid] at hc
      cases hc
    refine List.mem_map.mpr ⟨row, hrow, ?_⟩
    rw [AnchorRow.confirm, if_neg hne]
  | insertWitness w =>
    obtain ⟨-, -, -, rfl⟩ := exec_insertWitness hex
    exact hrow
  | retireWitness witnessId retiredAt =>
    cases hex
    exact hrow
  | insertAttestation a =>
    obtain ⟨-, -, -, rfl⟩ := exec_insertAttestation hex
    exact hrow

variable [IsoTime.Platform]

theorem keeps_upgradePendingAnchors (i : InstId) (t : TaskId) (maxAgeMinutes : Option ℤ)
    (σ : Shared Database Statement W) :
    confirmations.Keeps (confirmsOnce : PollerRules T W).env i t (upgradePendingAnchors maxAgeMinutes)
      (fun _ _ => True) σ := by
  have huses : (upgradePendingAnchors (T := T) maxAgeMinutes).Uses (Op.executes fun _ => True) :=
    Prog.uses_of_forall (fun op => by cases op <;> trivial) _
  refine (Growth.Keeps.of_steps huses (Growth.Grows.refl σ) ?_).mono fun _ _ _ _ => trivial
  intro σ' o c s d n _ henv hran _ _ hex
  refine ⟨trivial, keepsConfirmed_of_exec hex ?_⟩
  rintro anchorId blob height blockHash confirmedAt rfl
  exact henv hran (c, anchorId) rfl

variable (T W) in
theorem verified_pollers : Verified (confirmations.protocol W) (confirmsOnce : PollerRules T W) upgradePendingAnchors
    (fun _ _ _ _ _ => True) (fun _ _ _ _ => True) :=
  Growth.verified fun i c t σ _ _ _ => keeps_upgradePendingAnchors i t c σ

end Growth

theorem good_of_run [IsoTime.Platform] {d : Database} {world : W} {s : PollerSys T W}
    (hs : PollerRun confirmsOnce (startPollers d world) s) :
    Good (confirmations.protocol W) confirmsOnce (fun _ _ _ _ _ => True) (fun _ _ _ _ => True) s := by
  have hstart : Good (confirmations.protocol W) confirmsOnce (fun _ _ _ _ _ => True) (fun _ _ _ _ => True)
      (startPollers d world : PollerSys T W) := by
    refine Good.start ⟨wired_start d world, trivial, ?_⟩ (fresh_start d world)
    rintro p ⟨⟩
  exact ((verified_pollers T W).run hstart hs).1

theorem confirmed_stays [IsoTime.Platform] {s s' : PollerSys T W}
    (hgood : Good (confirmations.protocol W) confirmsOnce (fun _ _ _ _ _ => True) (fun _ _ _ _ => True) s)
    (hs' : PollerRun confirmsOnce s s') {row : AnchorRow} (hrow : row ∈ s.shared.file.committed.data.anchors.rows)
    (hconfirmed : row.confirmedAt.isSome) :
    row ∈ s'.shared.file.committed.data.anchors.rows ∧ ∀ c, row ∈ (s'.shared.file.view c).data.anchors.rows := by
  obtain ⟨hgood', hgrow⟩ := (verified_pollers T W).run hgood hs'
  have hcommitted : row ∈ s'.shared.file.committed.data.anchors.rows := hgrow.committed row hrow hconfirmed
  exact ⟨hcommitted, fun c => (hgood'.inv.view c).2 row hcommitted hconfirmed⟩

/-- Along every run in which no `UPDATE` of `confirm_anchor` meets a confirmed row, a confirmed row
stays as it is in the file and in what every connection sees. -/
theorem confirmation_final [IsoTime.Platform] (d : Database) (world : W) {s s' : PollerSys T W}
    (hs : PollerRun confirmsOnce (startPollers d world) s) (hs' : PollerRun confirmsOnce s s') {row : AnchorRow}
    (hrow : row ∈ s.shared.file.committed.data.anchors.rows) (hconfirmed : row.confirmedAt.isSome) :
    row ∈ s'.shared.file.committed.data.anchors.rows ∧
      ∀ c, row ∈ (s'.shared.file.view c).data.anchors.rows := by
  have hgood := good_of_run hs
  exact confirmed_stays hgood hs' hrow hconfirmed

section Examples

/-- The calendar keeps its promise; the block explorer answers as given. -/
def pollerAnswers (page : Except PyError (ℤ × Bytes)) : Outcome (Request ⊕ PollerRequest)
    (Sum.elim (Reply (twoTrees promise promiseKept).libraries) (PollerReply (twoTrees promise promiseKept))) PyError Unit :=
  .answer (networkReply _ (.ok kept) page) ()

abbrev PollerEvent : Type := Event (Request ⊕ PollerRequest)
  (Sum.elim (Reply (twoTrees promise promiseKept).libraries) (PollerReply (twoTrees promise promiseKept)))
  PyError Unit (Option ℤ)

/-- A task's network calls, and its `UPDATE` up to the commit. -/
def confirms (t : TaskId) (page : Except PyError (ℤ × Bytes)) : List PollerEvent :=
  List.replicate 3 (.run t (pollerAnswers page)) ++ proceeds t 4

/-- Two runs list the anchor; the first one confirms it with a block hash. -/
def firstConfirms : List PollerEvent :=
  [.connect 0, .call 0 none, .call 0 none] ++ (proceeds 0 2 ++ proceeds 1 2 ++ confirms 0 (.ok (200, [48, 48])))

/-- The second one confirms it without. -/
def thenSecond : List PollerEvent := .run 0 .ok :: confirms 1 explorerDown

def confirmedWith (blockHash : Option String) (s : PollerSys (twoTrees promise promiseKept) Unit) : Bool :=
  s.shared.file.committed.data.anchors.rows.any fun row => row.anchorId = 1 && row.confirmedAt.isSome &&
    row.bitcoinBlockHash = blockHash

theorem exists_of_confirmedWith {blockHash : Option String} {s : PollerSys (twoTrees promise promiseKept) Unit}
    (h : confirmedWith blockHash s) : ∃ row ∈ s.shared.file.committed.data.anchors.rows,
      row.anchorId = 1 ∧ row.confirmedAt.isSome ∧ row.bitcoinBlockHash = blockHash := by
  obtain ⟨row, hrow, h⟩ := List.any_eq_true.mp h
  simp only [Bool.and_eq_true, decide_eq_true_eq] at h
  exact ⟨row, hrow, h.1.1, h.1.2, h.2⟩

end Examples

/-- The second run replaces the block hash that the first one has recorded by `NULL`. -/
theorem confirmation_replaced : ∃ s s' : PollerSys (twoTrees promise promiseKept) Unit,
    PollerRun .all (startPollers storedAnchor ()) s ∧ PollerRun .all s s' ∧
      (∃ row ∈ s.shared.file.committed.data.anchors.rows,
        row.anchorId = 1 ∧ row.confirmedAt.isSome ∧ row.bitcoinBlockHash = some "00") ∧
      ∃ row ∈ s'.shared.file.committed.data.anchors.rows,
        row.anchorId = 1 ∧ row.confirmedAt.isSome ∧ row.bitcoinBlockHash = none := by
  have h : (runEvents upgradePendingAnchors (startPollers storedAnchor ()) firstConfirms).any (fun s =>
      confirmedWith (some "00") s && (runEvents upgradePendingAnchors s thenSecond).any (confirmedWith none)) = true := by
    decide +kernel
  obtain ⟨s, hs, h⟩ := (Option.any_eq_true _ _).mp h
  obtain ⟨hfirst, h⟩ := (Bool.and_eq_true _ _).mp h
  obtain ⟨s', hs', hsecond⟩ := (Option.any_eq_true _ _).mp h
  exact ⟨s, s', run_of_runEvents hs, run_of_runEvents hs', exists_of_confirmedWith hfirst,
    exists_of_confirmedWith hsecond⟩

/-- The second run has its replies, and has not yet written. -/
def thenAsks : List PollerEvent :=
  .run 0 .ok :: List.replicate 3 (.run 1 (pollerAnswers explorerDown))

theorem confirmation_final_first : ∃ s s' : PollerSys (twoTrees promise promiseKept) Unit,
    PollerRun confirmsOnce (startPollers storedAnchor ()) s ∧ PollerRun confirmsOnce s s' ∧
      ∃ row ∈ s.shared.file.committed.data.anchors.rows, row.bitcoinBlockHash = some "00" ∧
        row ∈ s'.shared.file.committed.data.anchors.rows := by
  have h : (runAllowed upgradePendingAnchors confirmsOnce (startPollers storedAnchor ()) firstConfirms).any (fun s =>
      confirmedWith (some "00") s && (runAllowed upgradePendingAnchors confirmsOnce s thenAsks).isSome) = true := by
    decide +kernel
  obtain ⟨s, hs, h⟩ := (Option.any_eq_true _ _).mp h
  obtain ⟨hfirst, h⟩ := (Bool.and_eq_true _ _).mp h
  obtain ⟨s', hs'⟩ := Option.isSome_iff_exists.mp h
  obtain ⟨row, hrow, -, hconfirmed, hhash⟩ := exists_of_confirmedWith hfirst
  have hrun := run_of_runAllowed (fun _ _ _ ha => ha) hs
  have hrun' := run_of_runAllowed (fun _ _ _ ha => ha) hs'
  exact ⟨s, s', hrun, hrun', row, hrow, hhash, (confirmation_final storedAnchor () hrun hrun' hrow hconfirmed).1⟩

end NexusCone.PollerRuns
