import NexusCone.FiledRecords
import NexusCone.PollSweeps

/-!
# The account of a sweep

`upgrade_pending_anchors` asks for at most 500 rows, and a row whose `UPDATE` has run is confirmed also
when an exception follows and the anchor is counted as failed. Otherwise every pending row is handled
once, the counts add up, and only the rows counted as upgraded change.
-/
namespace NexusCone.PollAccounts
open ExceptResults HexBytes PyValue IsoTime KeyedTable SharedFile AsyncProgram AsyncSystem LoneRuns EmbeddedPrograms
  OpTrees LedgerSchema WitnessChain TimestampAuthority Ledger VerifierCli AnchorChecks Poller ConfirmedProofs
  UpgradeDecisions ConfirmRuns PollSweeps

variable {T : Proofs} {W : Type}

section Submissions

variable [Platform]

/-- Only `anchor` files submissions, each with the time that it has just read. -/
theorem Submitted.exec {d d' : Database} {n : ℤ} {s : Statement} (h : Submitted d) (hs : FiledRecords.Issued s)
    (hex : exec s d = .ok (d', n)) : Submitted d' := by
  cases s with
  | insertEntry row =>
    obtain ⟨t, -, -, rfl⟩ := exec_insertEntry hex
    exact h
  | insertAnchor x =>
    obtain ⟨-, -, rfl⟩ := exec_insertAnchor hex
    obtain ⟨submission, entryId, rfl⟩ := hs
    exact List.forall_mem_append.mpr ⟨h, List.forall_mem_singleton.mpr ⟨submission.submittedAt, rfl⟩⟩
  | confirmAnchor anchorId blob height blockHash confirmedAt =>
    cases hex
    refine List.forall_mem_map.mpr fun row hrow => ?_
    have hsame : (row.confirm anchorId blob height blockHash confirmedAt).submittedAt = row.submittedAt := by
      unfold AnchorRow.confirm
      split <;> rfl
    rw [hsame]
    exact h row hrow
  | insertWitness w =>
    obtain ⟨-, -, -, rfl⟩ := exec_insertWitness hex
    exact h
  | retireWitness witnessId retiredAt =>
    cases hex
    exact h
  | insertAttestation a =>
    obtain ⟨-, -, -, rfl⟩ := exec_insertAttestation hex
    exact h

def submissions : GrowingVersions.Growth Database Statement where
  good v := Submitted v.data
  le _ _ := True
  refl _ := trivial
  trans _ _ := trivial

/-- Whatever methods and pollers run on a ledger's file, every connection sees such rows only. -/
theorem submitted_of_run {rules : Service.ServiceRules T W} {d : Database} (hd : Submitted d) {w : W}
    {s : Service.ServiceSys T W} (hrun : Service.ServiceRun rules (Service.startService d w) s) (c : ConnId) :
    Submitted (s.shared.file.view c).data := by
  have hv : RelyGuarantee.Verified (submissions.protocol W) rules (Service.ServiceCall.body (T := T))
      (fun _ _ _ _ _ => True) (fun _ _ _ _ => True) := GrowingVersions.Growth.verified fun _ call _ σ _ _ _ =>
    (GrowingVersions.Growth.Keeps.of_uses (FiledRecords.issued_service call).uses (GrowingVersions.Growth.Grows.refl σ)
      fun s v d n hs (hv : Submitted v.data) hex => ⟨Submitted.exec hv hs hex, trivial⟩).mono fun _ _ _ _ => trivial
  have hstart : RelyGuarantee.Good (submissions.protocol W) rules (fun _ _ _ _ _ => True) (fun _ _ _ _ => True)
      (Service.startService d w : Service.ServiceSys T W) := by
    refine RelyGuarantee.Good.start ⟨LedgerRuns.wired_start d w, hd, ?_⟩ (LedgerRuns.fresh_start d w)
    rintro p ⟨⟩
  exact ((hv.run hstart hrun).1.inv.view c).1

end Submissions

section Counting

def isStillPending : Except PyError Outcome → Bool
  | .ok .stillPending => true
  | _ => false

def isFailed : Except PyError Outcome → Bool
  | .error _ => true
  | _ => false

theorem tally_eq (n : PollCounts) (outcomes : List (Except PyError Outcome)) : tally n outcomes =
    ⟨n.attempted, n.upgraded + outcomes.countP isUpgraded, n.stillPending + outcomes.countP isStillPending,
      n.failed + outcomes.countP isFailed⟩ := by
  induction outcomes generalizing n with
  | nil => rfl
  | cons r outcomes ih =>
    obtain e | outcome := r
    · simp [tally, ih, List.countP_cons, isUpgraded, isStillPending, isFailed]
      omega
    · cases outcome with
      | upgraded =>
        simp [tally, ih, List.countP_cons, isUpgraded, isStillPending, isFailed, PollCounts.count]
        omega
      | stillPending =>
        simp [tally, ih, List.countP_cons, isUpgraded, isStillPending, isFailed, PollCounts.count]
        omega

/-- Every outcome is of one kind. -/
theorem countP_outcomes (outcomes : List (Except PyError Outcome)) : outcomes.length =
    outcomes.countP isUpgraded + outcomes.countP isStillPending + outcomes.countP isFailed := by
  induction outcomes with
  | nil => rfl
  | cons r outcomes ih =>
    obtain e | outcome := r
    · simp [List.countP_cons, isUpgraded, isStillPending, isFailed]
      omega
    · cases outcome <;> simp [List.countP_cons, isUpgraded, isStillPending, isFailed] <;> omega

variable {records : List AnchorRecord} {outcomes : List (Except PyError Outcome)}

theorem exists_mem_zip (hlength : outcomes.length = records.length) {k : ℤ} (hk : k ∈ records.map AnchorRecord.anchorId) :
    ∃ p ∈ records.zip outcomes, p.1.anchorId = k := by
  obtain ⟨a, ha, rfl⟩ := List.mem_map.mp hk
  rw [← List.map_fst_zip hlength.ge] at ha
  obtain ⟨p, hp, rfl⟩ := List.mem_map.mp ha
  exact ⟨p, hp, rfl⟩

/-- An anchor has one outcome. -/
theorem zip_inj (hlength : outcomes.length = records.length) (hnodup : (records.map AnchorRecord.anchorId).Nodup)
    {p q : AnchorRecord × Except PyError Outcome} (hp : p ∈ records.zip outcomes) (hq : q ∈ records.zip outcomes)
    (h : p.1.anchorId = q.1.anchorId) : p = q := by
  have hids : ((records.zip outcomes).map fun p => p.1.anchorId).Nodup := by
    have hmap : (records.zip outcomes).map (fun p => p.1.anchorId) = records.map AnchorRecord.anchorId := by
      conv_rhs => rw [← List.map_fst_zip hlength.ge, List.map_map]
      rfl
    rw [hmap]
    exact hnodup
  exact List.inj_on_of_nodup_map hids hp hq h

theorem listed_of_reads [Platform] {d : Database} {rows : List AnchorRow} (hrows : rows.Sublist d.anchors.rows)
    (h : List.Forall₂ (fun row a => rowToAnchor row = .ok a) rows records) : Listed records d := by
  constructor
  · intro a ha
    obtain ⟨row, hrow, hread⟩ := mem_mapM_ok (mapM_ok.mpr h) ha
    exact ⟨row, hrows.subset hrow, hread⟩
  · have hids : records.map AnchorRecord.anchorId = rows.map AnchorRow.anchorId := by
      clear hrows
      induction h with
      | nil => rfl
      | cons hread _ ih => rw [List.map_cons, List.map_cons, ih, (readFrom_of_rowToAnchor hread).anchorId]
    rw [hids]
    refine List.pairwise_map.mpr ((d.anchors.sorted.sublist hrows).imp fun hlt => ?_)
    exact ne_of_lt hlt

end Counting

section Accounting

variable [Platform]
variable {i : InstId} {t : TaskId} {c : ConnId} {σ σ' : Shared Database Statement W} {es : List (PollerHappening T W)}
variable {maxAgeMinutes : Option ℤ} {now : UtcTime} {r : Except PyError PollCounts}

/-- The call lists these anchors and handles each of them once, with these outcomes. -/
def Sweeps (i : InstId) (t : TaskId) (maxAgeMinutes : Option ℤ) (σ : Shared Database Statement W)
    (es : List (PollerHappening T W)) (records : List AnchorRecord) (outcomes : List (Except PyError Outcome))
    (σ' : Shared Database Statement W) : Prop :=
  ∃ asked rest σ₁, es = asked ++ rest ∧
    Alone i t (listUnconfirmedAnchors (T := T) maxAgeMinutes 500) σ asked (.ok records) σ₁ ∧
    Handled i t σ₁ records outcomes rest σ'

/-- The happenings determine what was listed and what came of it. -/
theorem Sweeps.unique {records records' : List AnchorRecord} {outcomes outcomes' : List (Except PyError Outcome)}
    {σ'' : Shared Database Statement W} (h : Sweeps i t maxAgeMinutes σ es records outcomes σ')
    (h' : Sweeps i t maxAgeMinutes σ es records' outcomes' σ'') : records = records' ∧ outcomes = outcomes' := by
  obtain ⟨asked, rest, σ₁, heq, hlist, hhandled⟩ := h
  obtain ⟨asked', rest', σ₁', heq', hlist', hhandled'⟩ := h'
  obtain ⟨-, hrecords, rfl, rfl⟩ := hlist.unique hlist' (heq.symm.trans heq')
  cases hrecords
  exact ⟨rfl, hhandled.unique hhandled' (rfl : rest ++ [] = rest ++ [])⟩

/-- The row is one of those that are counted as upgraded. -/
def CountedUpgraded (records : List AnchorRecord) (outcomes : List (Except PyError Outcome)) (row : AnchorRow) : Prop :=
  ∃ p ∈ records.zip outcomes, p.1.anchorId = row.anchorId ∧ isUpgraded p.2

/-- The call has covered the pending rows and accounts for them. -/
structure Accounts (i : InstId) (t : TaskId) (c : ConnId) (maxAgeMinutes : Option ℤ) (now : UtcTime)
    (σ : Shared Database Statement W) (es : List (PollerHappening T W)) (counts : PollCounts)
    (records : List AnchorRecord) (outcomes : List (Except PyError Outcome)) (σ' : Shared Database Statement W) :
    Prop where
  sweeps : Sweeps i t maxAgeMinutes σ es records outcomes σ'
  covers : List.Forall₂ (fun row a => rowToAnchor row = .ok a)
    (pendingRows (windowStart maxAgeMinutes now) (σ.file.view c).data) records
  attempted : counts.attempted = (pendingRows (windowStart maxAgeMinutes now) (σ.file.view c).data).length
  total : counts.attempted = counts.upgraded + counts.stillPending + counts.failed
  upgraded : counts.upgraded = outcomes.countP isUpgraded
  stillPending : counts.stillPending = outcomes.countP isStillPending
  failed : counts.failed = outcomes.countP isFailed
  rows : ∃ change : AnchorRow → AnchorRow,
    (σ'.file.view c).data.anchors.rows = (σ.file.view c).data.anchors.rows.map change ∧
      ∀ row ∈ (σ.file.view c).data.anchors.rows, (change row).anchorId = row.anchorId ∧
        (CountedUpgraded records outcomes row → (change row).confirmedAt.isSome) ∧
        (¬ CountedUpgraded records outcomes row → change row = row)
  committed : σ.file.committed.data = (σ.file.view c).data → σ'.file.committed.data = (σ'.file.view c).data

/-- The query is answered and returns every pending row, no cancellation comes, and no exception comes
between an `UPDATE` that has run and the return from `confirm_anchor`. -/
structure InReach (maxAgeMinutes : Option ℤ) (now : UtcTime) (d : Database) (es : List (PollerHappening T W)) : Prop where
  query : QueryReturns es
  cutoff : CutoffSorts maxAgeMinutes now d
  few : (pendingRows (windowStart maxAgeMinutes now) d).length ≤ 500
  readable : ∀ row ∈ pendingRows (windowStart maxAgeMinutes now) d, ∃ a, rowToAnchor row = .ok a
  calm : ∀ x ∈ es, x.calm PyError.isException
  undisturbed : ¬ Disturbed es

omit [Platform] in
theorem sqlLimit_500 {α : Type} (rows : List α) : sqlLimit 500 rows = rows.take 500 := rfl

/-- The query selects exactly the pending rows. -/
theorem InReach.filter {d : Database} {cutoff : Option String} (h : InReach maxAgeMinutes now d es) (hd : Submitted d)
    (hcutoff : cutoffText maxAgeMinutes now = .ok cutoff) :
    d.anchors.rows.filter (isUnconfirmed cutoff) = pendingRows (windowStart maxAgeMinutes now) d :=
  filter_unconfirmed hd hcutoff fun _ hrow => h.cutoff.selects hcutoff hrow

theorem InReach.reads {d : Database} (h : InReach maxAgeMinutes now d es) (hd : Submitted d) :
    ∃ records cutoff, cutoffText maxAgeMinutes now = .ok cutoff ∧
      (sqlLimit 500 (d.anchors.rows.filter (isUnconfirmed cutoff))).mapM rowToAnchor = .ok records := by
  obtain ⟨cutoff, hcutoff⟩ := h.cutoff.text
  obtain ⟨records, hrecords⟩ : ∃ records,
      ((pendingRows (windowStart maxAgeMinutes now) d).take 500).mapM rowToAnchor = .ok records :=
    exists_mapM_ok.mpr fun row hrow => h.readable row (List.mem_of_mem_take hrow)
  refine ⟨records, cutoff, hcutoff, ?_⟩
  rw [h.filter hd hcutoff]
  exact hrecords

/-- What has been listed before the cutoff and handled, and which rows it changed. -/
structure Handling (i : InstId) (t : TaskId) (c : ConnId) (maxAgeMinutes : Option ℤ) (cutoff : Option String)
    (σ : Shared Database Statement W) (es : List (PollerHappening T W)) (records : List AnchorRecord)
    (outcomes : List (Except PyError Outcome)) (written : ℤ → Prop) (change : AnchorRow → AnchorRow)
    (σ' : Shared Database Statement W) : Prop where
  sweeps : Sweeps i t maxAgeMinutes σ es records outcomes σ'
  reads : List.Forall₂ (fun row a => rowToAnchor row = .ok a)
    (((σ.file.view c).data.anchors.rows.filter (isUnconfirmed cutoff)).take 500) records
  listed : Listed records (σ.file.view c).data
  length : outcomes.length = records.length
  changes : Changes written change (σ.file.view c).data (σ'.file.view c).data
  known : ∀ k, written k → k ∈ records.map AnchorRecord.anchorId
  upgraded : ∀ p ∈ records.zip outcomes, isUpgraded p.2 → written p.1.anchorId
  disturbed : Disturbed es ↔ ∃ p ∈ records.zip outcomes, written p.1.anchorId ∧ isUpgraded p.2 = false
  committed : ¬ Disturbed es → σ.file.committed.data = (σ.file.view c).data →
    σ'.file.committed.data = (σ'.file.view c).data

variable {records : List AnchorRecord} {outcomes : List (Except PyError Outcome)} {written : ℤ → Prop}
variable {change : AnchorRow → AnchorRow} {counts : PollCounts} {cutoff : Option String}

/-- An anchor that is written and not counted contradicts the account. -/
theorem Handling.undisturbed (h : Handling i t c maxAgeMinutes cutoff σ es records outcomes written change σ')
    (hrows : ∃ change : AnchorRow → AnchorRow,
      (σ'.file.view c).data.anchors.rows = (σ.file.view c).data.anchors.rows.map change ∧
        ∀ row ∈ (σ.file.view c).data.anchors.rows, (change row).anchorId = row.anchorId ∧
          (CountedUpgraded records outcomes row → (change row).confirmedAt.isSome) ∧
          (¬ CountedUpgraded records outcomes row → change row = row)) : ¬ Disturbed es := by
  intro hdisturbed
  obtain ⟨p, hp, hw, hnot⟩ := h.disturbed.mp hdisturbed
  obtain ⟨change', hmap, hall⟩ := hrows
  obtain ⟨row, hrow, hread⟩ := mem_mapM_ok (mapM_ok.mpr h.reads) (List.of_mem_zip hp).1
  obtain ⟨hmem, hselected⟩ := List.mem_filter.mp (List.mem_of_mem_take hrow)
  simp only [isUnconfirmed, Bool.and_eq_true, Option.isNone_iff_eq_none] at hselected
  have hid := (readFrom_of_rowToAnchor hread).anchorId
  have hsame : change' row = change row := List.map_inj_left.mp (hmap.symm.trans h.changes.rows) row hmem
  have hcounted : ¬ CountedUpgraded records outcomes row := by
    rintro ⟨q, hq, hqid, hup⟩
    cases zip_inj h.length h.listed.nodup hq hp (hqid.trans hid.symm)
    rw [hup] at hnot
    cases hnot
  have hset := h.changes.sets row (hid ▸ hw)
  rw [← hsame, (hall row hmem).2.2 hcounted, hselected.1.1] at hset
  cases hset

/-- Without a disturbance the written anchors are those counted as upgraded. -/
theorem Handling.counted (h : Handling i t c maxAgeMinutes cutoff σ es records outcomes written change σ')
    (hno : ¬ Disturbed es) (row : AnchorRow) : CountedUpgraded records outcomes row ↔ written row.anchorId := by
  constructor
  · rintro ⟨p, hp, hid, hup⟩
    rw [← hid]
    exact h.upgraded p hp hup
  · intro hw
    obtain ⟨p, hp, hid⟩ := exists_mem_zip h.length (h.known _ hw)
    refine ⟨p, hp, hid, ?_⟩
    by_contra hnot
    exact hno (h.disturbed.mpr ⟨p, hp, hid ▸ hw, Bool.eq_false_iff.mpr hnot⟩)

/-- Rows of the table that read as the same records are the same rows. -/
theorem rows_of_records {d : Database} {rows rows' : List AnchorRow} (hrows : ∀ row ∈ rows, row ∈ d.anchors.rows)
    (hrows' : ∀ row ∈ rows', row ∈ d.anchors.rows) (h : List.Forall₂ (fun row a => rowToAnchor row = .ok a) rows records)
    (h' : List.Forall₂ (fun row a => rowToAnchor row = .ok a) rows' records) : rows = rows' := by
  induction h generalizing rows' with
  | nil =>
    cases h'
    rfl
  | cons hread _ ih =>
    cases h' with
    | cons hread' hrest =>
      obtain ⟨hrow, hrows⟩ := List.forall_mem_cons.mp hrows
      obtain ⟨hrow', hrows'⟩ := List.forall_mem_cons.mp hrows'
      have hid := (readFrom_of_rowToAnchor hread).anchorId.symm.trans (readFrom_of_rowToAnchor hread').anchorId
      rw [eq_of_pairwise_lt d.anchors.sorted hrow hrow' hid, ih hrows hrows' hrest]

/-- A call that covers the pending rows has selected each of them, and so few that none was left out. -/
theorem Handling.selected (h : Handling i t c maxAgeMinutes cutoff σ es records outcomes written change σ')
    (hcovers : List.Forall₂ (fun row a => rowToAnchor row = .ok a)
      (pendingRows (windowStart maxAgeMinutes now) (σ.file.view c).data) records) :
    (pendingRows (windowStart maxAgeMinutes now) (σ.file.view c).data).length ≤ 500 ∧
      ∀ row ∈ pendingRows (windowStart maxAgeMinutes now) (σ.file.view c).data, isUnconfirmed cutoff row := by
  have heq := rows_of_records (fun _ hrow => (mem_pendingRows.mp hrow).1)
    (fun _ hrow => List.mem_of_mem_filter (List.mem_of_mem_take hrow)) hcovers h.reads
  refine ⟨?_, fun row hrow => ?_⟩
  · rw [heq]
    exact List.length_take_le _ _
  · rw [heq] at hrow
    exact (List.mem_filter.mp (List.mem_of_mem_take hrow)).2

theorem Handling.accounts (h : Handling i t c maxAgeMinutes cutoff σ es records outcomes written change σ')
    (hcounts : counts = tally ⟨records.length, 0, 0, 0⟩ outcomes) (hno : ¬ Disturbed es)
    (hpending : (σ.file.view c).data.anchors.rows.filter (isUnconfirmed cutoff) =
      pendingRows (windowStart maxAgeMinutes now) (σ.file.view c).data)
    (hfew : (pendingRows (windowStart maxAgeMinutes now) (σ.file.view c).data).length ≤ 500) :
    Accounts i t c maxAgeMinutes now σ es counts records outcomes σ' := by
  have hreads := h.reads
  rw [hpending, List.take_of_length_le hfew] at hreads
  rw [tally_eq] at hcounts
  have hlength := hreads.length_eq
  have hsum := countP_outcomes outcomes
  have hrecords := h.length
  constructor
  · exact h.sweeps
  · exact hreads
  · rw [hcounts]
    exact hlength.symm
  · rw [hcounts]
    show records.length = (0 + _) + (0 + _) + (0 + _)
    omega
  · rw [hcounts]
    exact Nat.zero_add _
  · rw [hcounts]
    exact Nat.zero_add _
  · rw [hcounts]
    exact Nat.zero_add _
  · refine ⟨change, h.changes.rows, fun row _ => ⟨h.changes.id row, fun hc => ?_, fun hc => ?_⟩⟩
    · exact h.changes.sets row ((h.counted hno row).mp hc)
    · exact h.changes.same row (mt (h.counted hno row).mpr hc)
  · exact h.committed hno

theorem sweep_cases (hT : RaisesExceptions T) (hready : Ready i c σ) (hsubmitted : Submitted (σ.file.view c).data)
    (hclock : maxAgeMinutes.isSome → ReadsClock now es)
    (h : Alone i t (upgradePendingAnchors (T := T) maxAgeMinutes) σ es r σ') :
    (∃ e, r = .error e) ∧ ¬ InReach maxAgeMinutes now (σ.file.view c).data es ∨
      ∃ cutoff records outcomes written change,
        Handling i t c maxAgeMinutes cutoff σ es records outcomes written change σ' ∧
        r = .ok (tally ⟨records.length, 0, 0, 0⟩ outcomes) ∧ QueryReturns es ∧
        cutoffText maxAgeMinutes now = .ok cutoff := by
  have hescapes := escapes_upgradePendingAnchors hT maxAgeMinutes W i t _ _ _ _ h
  rcases h.of_bind with ⟨records, σ₁, es₁, es₂, rfl, hlist, heach⟩ | ⟨e, rfl, hlist⟩
  swap
  · obtain ⟨-, -, -, hiff⟩ := alone_list [] hready (by rwa [List.append_nil]) hlist
    refine .inl ⟨⟨e, rfl⟩, fun hin => ?_⟩
    obtain ⟨records, hrecords⟩ := hin.reads hsubmitted
    cases (hiff records).mpr ⟨hin.query, hrecords⟩
  obtain ⟨hready₁, hfile, hneutral, hiff⟩ := alone_list es₂ hready hclock hlist
  obtain ⟨hquery, cutoff, hcutoff, hread⟩ := (hiff records).mp rfl
  rw [sqlLimit_500, mapM_ok] at hread
  rcases handled_of_alone heach with ⟨outcomes, hhandled, rfl⟩ | ⟨e, rfl, he⟩
  swap
  · refine .inl ⟨⟨e, rfl⟩, fun hin => ?_⟩
    have hcaught := hescapes.mpr hin.calm e rfl
    rw [he] at hcaught
    cases hcaught
  have hlisted : Listed records (σ₁.file.view c).data := by
    rw [hfile]
    exact listed_of_reads ((List.take_sublist _ _).trans List.filter_sublist) hread
  obtain ⟨-, written, change, hchanges, hresult, hdata⟩ := handled_changes hhandled hready₁ hlisted
  rw [hfile] at hlisted hchanges hdata
  have hrest : Disturbed (es₁ ++ es₂) ↔ Disturbed es₂ := hneutral es₂
  refine .inr ⟨cutoff, records, outcomes, written, change, ?_, rfl, hquery.append es₂, hcutoff⟩
  refine ⟨⟨es₁, es₂, σ₁, rfl, hlist, hhandled⟩, hread, hlisted, hhandled.length, hchanges, hresult.known,
    hresult.upgraded, ?_, ?_⟩
  · rw [hrest, ← List.append_nil es₂, hresult.disturbed []]
    simp [Disturbed]
  · rw [hrest]
    exact hdata

end Accounting

section Examples

variable {i : InstId} {t : TaskId} {c : ConnId} {σ : Shared Database Statement W}

theorem upgradeOne_unpromised {d : Database} {anchor : AnchorRecord} {ts : T.Timestamp} (h : Stores d anchor ts)
    (hnone : collectPending ts = []) : upgradeOne (T := T) anchor = .done (.ok .stillPending) := by
  rw [upgradeOne_eq h, if_pos hnone]
  rfl

theorem upgradeEach_stillPending {n : PollCounts} {anchors : List AnchorRecord}
    (h : ∀ a ∈ anchors, upgradeOne (T := T) a = .done (.ok .stillPending)) : upgradeEach (T := T) n anchors =
      .done (.ok { n with stillPending := n.stillPending + anchors.length }) := by
  induction anchors generalizing n with
  | nil => rfl
  | cons anchor anchors ih =>
    obtain ⟨hone, hmore⟩ := List.forall_mem_cons.mp h
    rw [upgradeEach, hone]
    refine (ih (n := n.count .stillPending) hmore).trans ?_
    simp only [PollCounts.count, List.length_cons]
    rw [Nat.add_assoc, Nat.add_comm 1]

/-- No anchor has a promise left. -/
theorem alone_stillPending {records : List AnchorRecord} (hready : Ready i c σ)
    (hreads : (sqlLimit 500 ((σ.file.view c).data.anchors.rows.filter (isUnconfirmed none))).mapM rowToAnchor = .ok records)
    (h : ∀ a ∈ records, upgradeOne (T := T) a = .done (.ok .stillPending)) :
    Alone i t (upgradePendingAnchors (T := T) none) σ [⟨.connection, .ok⟩, ⟨.select c, .ok⟩]
      (.ok ⟨records.length, 0, records.length, 0⟩) σ := by
  let done : AsyncSystem.Outcome (Request ⊕ PollerRequest) (Sum.elim (Reply T.libraries) (PollerReply T)) PyError W := .ok
  have hconnection : effect i t σ .connection done = some (.ok c, σ) := by
    simp only [effect, done, hready.db]
  have hselect : effect i t σ (.select c) done = some (.ok (σ.file.view c).data, σ) := by
    simp only [effect, done, if_pos hready.mayWrite.1]
  refine .perform hconnection (.perform hselect ?_)
  show Alone i t ((Prog.done ((sqlLimit 500 ((σ.file.view c).data.anchors.rows.filter (isUnconfirmed none))).mapM
    rowToAnchor) : PollerAction T (List AnchorRecord)) >>= fun pending =>
      upgradeEach ⟨pending.length, 0, 0, 0⟩ pending) σ [] _ σ
  rw [hreads]
  show Alone i t (upgradeEach (T := T) ⟨records.length, 0, 0, 0⟩ records) σ [] _ σ
  rw [upgradeEach_stillPending h]
  simp only [Nat.zero_add]
  exact .done

/-- A file with these data, opened by one instance. -/
def opened (d : Database) : Shared Database Statement Unit :=
  ⟨⟨⟨d, []⟩, none, [0]⟩, fun _ => ⟨some 0, none⟩, 1, [], ()⟩

theorem ready_opened (d : Database) : Ready 0 0 (opened d) := ⟨rfl, rfl, List.mem_singleton_self _, by rintro _ ⟨⟩⟩

/-- Pending anchors of the head `00`, as many as wanted. -/
def waiting (k : ℕ) : AnchorRow := { storedRow with anchorId := k }

theorem sorted_waiting (n : ℕ) : ((List.range n).map waiting).Pairwise fun a b => key a < key b :=
  List.pairwise_map.mpr (List.pairwise_lt_range.imp Int.ofNat_lt.mpr)

def waitingAnchors (n : ℕ) : Database :=
  { Database.empty with anchors := ⟨(List.range n).map waiting, n, sorted_waiting n⟩ }

theorem waiting_reads (k : ℕ) : ∃ anchor, rowToAnchor (waiting k) = .ok anchor := by
  obtain ⟨anchor, hread⟩ := storedRow_reads
  unfold rowToAnchor at hread
  obtain ⟨submittedAt, hsubmitted, h₁⟩ := bind_ok hread
  obtain ⟨calendarServers, hservers, h₂⟩ := bind_ok h₁
  unfold rowToAnchor
  exact ⟨_, by rw [show readTimeColumn (waiting k).submittedAt = _ from hsubmitted,
    show loadsList (waiting k).calendarServers = _ from hservers]; rfl⟩

theorem submitted_waiting (n : ℕ) : Submitted (waitingAnchors n) := by
  intro row hrow
  obtain ⟨k, -, rfl⟩ := List.mem_map.mp hrow
  have hnoon : storedRow.submittedAt = strftime LedgerRuns.noon.civil := by decide +kernel
  exact ⟨LedgerRuns.noon, hnoon⟩

theorem isUnconfirmed_waiting (n : ℕ) : (waitingAnchors n).anchors.rows.filter (isUnconfirmed none) =
    (List.range n).map waiting := by
  refine List.filter_eq_self.mpr fun row hrow => ?_
  obtain ⟨k, -, rfl⟩ := List.mem_map.mp hrow
  rfl

theorem pendingRows_waiting (n : ℕ) : pendingRows (windowStart none LedgerRuns.noon) (waitingAnchors n) =
    (List.range n).map waiting := by
  refine (filter_unconfirmed (submitted_waiting n) (rfl : cutoffText none LedgerRuns.noon = .ok none) ?_).symm.trans
    (isUnconfirmed_waiting n)
  have hsorts : CutoffSorts none LedgerRuns.noon (waitingAnchors n) := by rintro _ ⟨⟩
  exact fun _ hrow => hsorts.selects rfl hrow

/-- A library with a proof that has reached Bitcoin already. -/
theorem raisesExceptions_twoTrees (stored merged : ByteTree) : RaisesExceptions (twoTrees stored merged) := by
  constructor
  · intro blob msg e h
    simp only [twoTrees] at h
    split at h
    · cases h
    · split at h <;> cases h
      rfl
  · intro ts e h
    simp only [twoTrees] at h
    split at h <;> cases h
    rfl
  · rintro op m e ⟨⟩
  · rfl

/-- Every anchor of the waiting ones stays pending. -/
theorem alone_waiting (n : ℕ) : Alone 0 0 (upgradePendingAnchors (T := twoTrees kept kept) none) (opened (waitingAnchors n))
    [⟨.connection, .ok⟩, ⟨.select 0, .ok⟩] (.ok ⟨min 500 n, 0, min 500 n, 0⟩) (opened (waitingAnchors n)) := by
  have hrows (row : AnchorRow) (hrow : row ∈ ((List.range n).map waiting).take 500) :
      ∃ a, rowToAnchor row = .ok a := by
    obtain ⟨k, -, rfl⟩ := List.mem_map.mp (List.mem_of_mem_take hrow)
    exact waiting_reads k
  obtain ⟨records, hrecords⟩ := exists_mapM_ok.mpr hrows
  have hlength := (mapM_ok.mp hrecords).length_eq
  rw [List.length_take, List.length_map, List.length_range] at hlength
  have hreads : (sqlLimit 500 (((opened (waitingAnchors n)).file.view 0).data.anchors.rows.filter
      (isUnconfirmed none))).mapM rowToAnchor = .ok records := by
    refine Eq.trans (congrArg (fun rows => (sqlLimit 500 rows).mapM rowToAnchor) (isUnconfirmed_waiting n)) ?_
    exact hrecords
  rw [hlength]
  refine alone_stillPending (ready_opened _) hreads fun a ha => ?_
  obtain ⟨row, hrow, hread⟩ := mem_mapM_ok hrecords ha
  obtain ⟨k, -, rfl⟩ := List.mem_map.mp (List.mem_of_mem_take hrow)
  have hfrom := readFrom_of_rowToAnchor hread
  have hstores : Stores (T := twoTrees kept kept) { Database.empty with anchors := single (waiting k) } a kept := by
    refine ⟨⟨_, List.mem_singleton_self _, hread⟩, [0], [0], hfrom.otsProofBlob, ?_, rfl⟩
    rw [hfrom.chainHeadHash]
    show fromHex storedRow.chainHeadHash = some [0]
    decide +kernel
  exact upgradeOne_unpromised hstores (by decide +kernel)

end Examples

/-- Of 501 pending anchors one is left out. -/
theorem sweep_incomplete : ∃ es r σ', Ready 0 0 (opened (waitingAnchors 501)) ∧ Submitted (waitingAnchors 501) ∧
    Alone 0 0 (upgradePendingAnchors (T := twoTrees kept kept) none) (opened (waitingAnchors 501)) es r σ' ∧
    ¬ ∃ counts records outcomes, r = .ok counts ∧
      Accounts 0 0 0 none LedgerRuns.noon (opened (waitingAnchors 501)) es counts records outcomes σ' := by
  refine ⟨_, _, _, ready_opened _, submitted_waiting 501, alone_waiting 501, ?_⟩
  rintro ⟨counts, records, outcomes, hr, haccounts⟩
  obtain rfl := Except.ok.inj hr
  have hattempted := haccounts.attempted
  rw [show ((opened (waitingAnchors 501)).file.view 0).data = waitingAnchors 501 from rfl, pendingRows_waiting,
    List.length_map, List.length_range] at hattempted
  revert hattempted
  decide

/-- A call of `upgrade_pending_anchors` covers the pending rows and accounts for them exactly if it is in
reach: the query and the clock are answered, at most 500 rows are pending and all of them read back, nothing
cancels the call, and nothing raises after an `UPDATE` has run. -/
theorem accounts_iff [Platform] (hT : RaisesExceptions T) (i : InstId) (t : TaskId) (c : ConnId)
    (maxAgeMinutes : Option ℤ) (now : UtcTime) (σ σ' : Shared Database Statement W) (es : List (PollerHappening T W))
    (r : Except PyError PollCounts) (hready : Ready i c σ) (hsubmitted : Submitted (σ.file.view c).data)
    (hclock : maxAgeMinutes.isSome → ReadsClock now es)
    (h : Alone i t (upgradePendingAnchors (T := T) maxAgeMinutes) σ es r σ') :
    (∃ counts records outcomes, r = .ok counts ∧
      Accounts i t c maxAgeMinutes now σ es counts records outcomes σ') ↔
      InReach maxAgeMinutes now (σ.file.view c).data es := by
  rcases sweep_cases hT hready hsubmitted hclock h with
    ⟨⟨e, rfl⟩, hnot⟩ | ⟨cutoff, records, outcomes, written, change, hhandling, rfl, hquery, hcutoff⟩
  · refine iff_of_false ?_ hnot
    rintro ⟨_, _, _, ⟨⟩, -⟩
  refine ⟨?_, fun hin => ⟨_, records, outcomes, rfl,
    hhandling.accounts rfl hin.undisturbed (hin.filter hsubmitted hcutoff) hin.few⟩⟩
  rintro ⟨counts, records', outcomes', hr, haccounts⟩
  obtain rfl := Except.ok.inj hr
  obtain ⟨rfl, rfl⟩ := hhandling.sweeps.unique haccounts.sweeps
  obtain ⟨hfew, hselected⟩ := hhandling.selected haccounts.covers
  refine ⟨hquery, fun minutes hminutes => ?_, hfew, ?_, ?_, hhandling.undisturbed haccounts.rows⟩
  · cases hminutes
    obtain ⟨civil, hcivil, htext⟩ := bind_ok hcutoff
    cases htext
    refine ⟨civil, hcivil, .inr fun row hrow => ?_⟩
    have hrow := hselected row hrow
    rw [isUnconfirmed, Bool.and_eq_true] at hrow
    exact of_decide_eq_true hrow.2
  · exact exists_mapM_ok.mp ⟨records, mapM_ok.mpr haccounts.covers⟩
  · exact (escapes_upgradePendingAnchors hT maxAgeMinutes W i t _ _ _ _ h).mp (by rintro _ ⟨⟩)

/-- The calendar answers as given, and so do the clock and the block explorer. -/
def answers (calendar : Except PyError ByteTree) : AsyncSystem.Outcome (Request ⊕ PollerRequest)
    (Sum.elim (Reply (twoTrees promise promiseKept).libraries) (PollerReply (twoTrees promise promiseKept))) PyError Unit :=
  .answer (networkReply _ calendar (.ok (200, [48, 48]))) ()

/-- Two pending anchors of the head `00`, and one whose head is no hexadecimal text. -/
def threeAnchors : Database :=
  { Database.empty with anchors := ⟨[waiting 1, waiting 2, { waiting 3 with chainHeadHash := "zz" }], 3, by decide⟩ }

/-- The calendar keeps the promise of the first one and refuses that of the second one. -/
def threeHandled : List (PollerHappening (twoTrees promise promiseKept) Unit) :=
  [⟨.connection, .ok⟩, ⟨.external (.inl .now), answers (.ok kept)⟩, ⟨.select 0, .ok⟩,
    ⟨.external (.inr (.getTimestamp "https://calendar.example" [0])), answers (.ok kept)⟩,
    ⟨.external (.inr (.urlopen (mempoolSpaceBlockByHeightUrl 100))), answers (.ok kept)⟩,
    ⟨.external (.inl .now), answers (.ok kept)⟩, ⟨.connection, .ok⟩, ⟨.acquire, .ok⟩,
    ⟨.execute 0 (.confirmAnchor 1 [1] 100 (some "00") "2026-01-01T12:00:00.000000Z"), .ok⟩, ⟨.commit 0, .ok⟩,
    ⟨.release, .ok⟩, ⟨.select 0, .ok⟩,
    ⟨.external (.inr (.getTimestamp "https://calendar.example" [0])), answers (.error (.other "URLError" "refused"))⟩]

theorem inReach_threeHandled : InReach (some 60) LedgerRuns.noon threeAnchors threeHandled where
  query := trivial
  cutoff := by
    rintro minutes ⟨⟩
    exact ⟨⟨2026, 1, 1, ⟨11, 0, 0, 0⟩⟩, by decide +kernel, .inl (by decide)⟩
  few := le_trans (List.length_filter_le _ _) (by decide)
  readable row hrow := by
    have hmem := (mem_pendingRows.mp hrow).1
    simp only [threeAnchors, List.mem_cons, List.not_mem_nil, or_false] at hmem
    rcases hmem with rfl | rfl | rfl
    · exact waiting_reads 1
    · exact waiting_reads 2
    · exact ExceptResults.exists_of_isOk (by decide +kernel)
  calm := List.all_eq_true.mp (by decide +kernel)
  undisturbed := by simp [threeHandled, Disturbed, Completes]

/-- One anchor is upgraded, one stays pending and one fails. -/
theorem accounts_iff_three : ∃ counts records outcomes σ',
    Accounts (T := twoTrees promise promiseKept) 0 0 0 (some 60) LedgerRuns.noon (opened threeAnchors) threeHandled
      counts records outcomes σ' ∧ (counts.upgraded, counts.stillPending, counts.failed) = (1, 1, 1) := by
  have h : (runAlone 0 0 (upgradePendingAnchors (T := twoTrees promise promiseKept) (some 60)) threeHandled
      (opened threeAnchors)).any (fun x => match x.1 with
        | .ok n => (n.upgraded, n.stillPending, n.failed) = (1, 1, 1)
        | .error _ => false) = true := by decide +kernel
  obtain ⟨⟨r, σ'⟩, hrun, hr⟩ := (Option.any_eq_true _ _).mp h
  have hsubmitted : Submitted threeAnchors := by
    have hnoon : storedRow.submittedAt = strftime LedgerRuns.noon.civil := by decide +kernel
    intro row hrow
    simp only [threeAnchors, List.mem_cons, List.not_mem_nil, or_false] at hrow
    rcases hrow with rfl | rfl | rfl <;> exact ⟨LedgerRuns.noon, hnoon⟩
  obtain ⟨counts, records, outcomes, rfl, haccounts⟩ :=
    (accounts_iff (raisesExceptions_twoTrees promise promiseKept) 0 0 0 (some 60) LedgerRuns.noon (opened threeAnchors)
      σ' threeHandled r (ready_opened _) hsubmitted (fun _ => rfl) (alone_of_runAlone hrun)).mpr inReach_threeHandled
  exact ⟨counts, records, outcomes, σ', haccounts, of_decide_eq_true hr⟩

end NexusCone.PollAccounts
