import NexusCone.CivilInstants
import NexusCone.ConfirmRuns

/-!
# The loop over the pending anchors

What the loop leaves after it has handled every anchor once, which rows the query returns, and which
exceptions escape.
-/
namespace NexusCone.PollSweeps
open ExceptResults HexBytes PyValue IsoTime TimeOrder CivilInstants KeyedTable SharedFile AsyncProgram AsyncSystem
  LoneRuns EmbeddedPrograms OpTrees LedgerSchema WitnessChain TimestampAuthority Ledger VerifierCli AnchorChecks Poller
  ConfirmedProofs UpgradeDecisions ConfirmRuns

variable [Platform] {T : Proofs} {W : Type}

section Handling

variable {i : InstId} {t : TaskId} {c : ConnId}

/-- The anchors are handled one after the other, each once, with these outcomes. -/
inductive Handled (i : InstId) (t : TaskId) : Shared Database Statement W → List AnchorRecord →
    List (Except PyError Outcome) → List (PollerHappening T W) → Shared Database Statement W → Prop
  | nil {σ : Shared Database Statement W} : Handled i t σ [] [] [] σ
  | cons {anchor : AnchorRecord} {anchors : List AnchorRecord} {r : Except PyError Outcome}
      {outcomes : List (Except PyError Outcome)} {es₁ es₂ : List (PollerHappening T W)}
      {σ σ₁ σ' : Shared Database Statement W} :
    Alone i t (upgradeOne (T := T) anchor) σ es₁ r σ₁ → Handled i t σ₁ anchors outcomes es₂ σ' →
    Handled i t σ (anchor :: anchors) (r :: outcomes) (es₁ ++ es₂) σ'

/-- The counts after these outcomes. -/
def tally (n : PollCounts) : List (Except PyError Outcome) → PollCounts
  | [] => n
  | .ok outcome :: outcomes => tally (n.count outcome) outcomes
  | .error _ :: outcomes => tally { n with failed := n.failed + 1 } outcomes

variable {σ σ' σ'' : Shared Database Statement W} {anchors : List AnchorRecord}
variable {outcomes outcomes' : List (Except PyError Outcome)} {es es' rest rest' : List (PollerHappening T W)}

theorem Handled.length (h : Handled i t σ anchors outcomes es σ') : outcomes.length = anchors.length := by
  induction h with
  | nil => rfl
  | cons _ _ ih => rw [List.length_cons, List.length_cons, ih]

theorem Handled.unique (h : Handled i t σ anchors outcomes es σ') (h' : Handled i t σ anchors outcomes' es' σ'')
    (heq : es ++ rest = es' ++ rest') : outcomes = outcomes' := by
  induction h generalizing es' outcomes' with
  | nil =>
    cases h'
    rfl
  | cons hone _ ih =>
    cases h' with
    | cons hone' hmore' =>
      rw [List.append_assoc, List.append_assoc] at heq
      obtain ⟨-, rfl, rfl, hes⟩ := hone.unique hone' heq
      rw [ih hmore' hes]

/-- The loop handles every anchor, unless an exception comes that it does not catch. -/
theorem handled_of_alone {n : PollCounts} {r : Except PyError PollCounts}
    (h : Alone i t (upgradeEach (T := T) n anchors) σ es r σ') :
    (∃ outcomes, Handled i t σ anchors outcomes es σ' ∧ r = .ok (tally n outcomes)) ∨
      ∃ e, r = .error e ∧ e.isException = false := by
  induction anchors generalizing n σ es with
  | nil =>
    obtain ⟨rfl, rfl, rfl⟩ := h.of_done
    exact .inl ⟨[], .nil, rfl⟩
  | cons anchor anchors ih =>
    obtain ⟨x, σ₁, es₁, es₂, rfl, hone, hmore⟩ := h.of_attempt_bind
    cases x with
    | ok outcome =>
      rcases ih hmore with ⟨outcomes, hhandled, hr⟩ | he
      · exact .inl ⟨.ok outcome :: outcomes, .cons hone hhandled, hr⟩
      · exact .inr he
    | error e =>
      cases he : e.isException with
      | true =>
        dsimp only at hmore
        rw [if_pos he] at hmore
        rcases ih hmore with ⟨outcomes, hhandled, hr⟩ | he
        · exact .inl ⟨.error e :: outcomes, .cons hone hhandled, hr⟩
        · exact .inr he
      | false =>
        dsimp only at hmore
        rw [if_neg (by rw [he]; exact Bool.false_ne_true)] at hmore
        obtain ⟨rfl, rfl, rfl⟩ := hmore.of_done
        exact .inr ⟨e, rfl, he⟩

/-- Only the anchors with these ids have changed, and those are confirmed. -/
structure Changes (written : ℤ → Prop) (change : AnchorRow → AnchorRow) (d d' : Database) : Prop where
  rows : d'.anchors.rows = d.anchors.rows.map change
  tables : d' = { d with anchors := d'.anchors }
  id : ∀ row, (change row).anchorId = row.anchorId
  sets : ∀ row, written row.anchorId → (change row).confirmedAt.isSome
  same : ∀ row, ¬ written row.anchorId → change row = row

omit [Platform] in
theorem changes_none (d : Database) : Changes (fun _ => False) (fun row => row) d d :=
  ⟨(List.map_id' _).symm, rfl, fun _ => rfl, fun _ h => h.elim, fun _ _ => rfl⟩

omit [Platform] in
theorem Changes.congr {written written' : ℤ → Prop} {change : AnchorRow → AnchorRow} {d d' : Database}
    (h : Changes written change d d') (hw : ∀ k, written' k ↔ written k) : Changes written' change d d' :=
  ⟨h.rows, h.tables, h.id, fun row hrow => h.sets row ((hw _).mp hrow), fun row hrow => h.same row (mt (hw _).mpr hrow)⟩

omit [Platform] in
/-- One anchor is confirmed before the others are handled. -/
theorem Changes.confirm {written : ℤ → Prop} {change : AnchorRow → AnchorRow} {d d' : Database} {anchorId height : ℤ}
    {blob : Bytes} {blockHash : Option String} {time : String} (hnot : ¬ written anchorId)
    (h : Changes written change (confirmed d anchorId blob height blockHash time) d') :
    Changes (fun k => k = anchorId ∨ written k)
      (fun row => change (row.confirm anchorId blob height blockHash time)) d d' := by
  have hid (row : AnchorRow) : (row.confirm anchorId blob height blockHash time).anchorId = row.anchorId :=
    AnchorRow.key_confirm anchorId blob height blockHash time row
  constructor
  · rw [h.rows]
    exact List.map_map
  · exact h.tables
  · intro row
    rw [h.id, hid]
  · rintro row (heq | hw)
    · have hnot' : ¬ written (row.confirm anchorId blob height blockHash time).anchorId := by
        rw [hid, heq]
        exact hnot
      rw [h.same _ hnot', AnchorRow.confirm, if_pos heq]
      rfl
    · exact h.sets _ (by rw [hid]; exact hw)
  · intro row hno
    obtain ⟨hne, hw⟩ := not_or.mp hno
    have hsame : row.confirm anchorId blob height blockHash time = row := by rw [AnchorRow.confirm, if_neg hne]
    rw [hsame, h.same row hw]

/-- The anchors are rows of the table, no two of them the same. -/
structure Listed (anchors : List AnchorRecord) (d : Database) : Prop where
  rows : ∀ a ∈ anchors, ∃ row ∈ d.anchors.rows, rowToAnchor row = .ok a
  nodup : (anchors.map AnchorRecord.anchorId).Nodup

theorem Listed.tail {anchor : AnchorRecord} {d : Database} (h : Listed (anchor :: anchors) d) : Listed anchors d :=
  ⟨fun a ha => h.rows a (List.mem_cons_of_mem _ ha), (List.nodup_cons.mp h.nodup).2⟩

/-- Confirming one of them leaves the rows of the others. -/
theorem Listed.confirm {anchor : AnchorRecord} {d : Database} (h : Listed (anchor :: anchors) d) (blob : Bytes)
    (height : ℤ) (blockHash : Option String) (time : String) :
    Listed anchors (confirmed d anchor.anchorId blob height blockHash time) := by
  obtain ⟨hnot, hnodup⟩ := List.nodup_cons.mp h.nodup
  refine ⟨fun a ha => ?_, hnodup⟩
  obtain ⟨row, hrow, hread⟩ := h.rows a (List.mem_cons_of_mem _ ha)
  have hne : row.anchorId ≠ anchor.anchorId := by
    rw [← (readFrom_of_rowToAnchor hread).anchorId]
    exact fun heq => hnot (heq ▸ List.mem_map_of_mem ha)
  refine ⟨row, List.mem_map.mpr ⟨row, hrow, ?_⟩, hread⟩
  rw [AnchorRow.confirm, if_neg hne]

/-- What the loop leaves: the written anchors are among those that it handled, those counted as upgraded
are written, and the loop was disturbed exactly if another one is. -/
structure Result (written : ℤ → Prop) (anchors : List AnchorRecord) (outcomes : List (Except PyError Outcome))
    (es : List (PollerHappening T W)) : Prop where
  known : ∀ k, written k → k ∈ anchors.map AnchorRecord.anchorId
  upgraded : ∀ p ∈ anchors.zip outcomes, isUpgraded p.2 → written p.1.anchorId
  disturbed : ∀ rest, Disturbed (es ++ rest) ↔
    (∃ p ∈ anchors.zip outcomes, written p.1.anchorId ∧ isUpgraded p.2 = false) ∨ Disturbed rest

omit [Platform] in
theorem Result.cons {written : ℤ → Prop} {anchor : AnchorRecord} {r : Except PyError Outcome} {es₁ : List (PollerHappening T W)}
    {wrote : Prop} (h : Result written anchors outcomes es)
    (hfresh : anchor.anchorId ∉ anchors.map AnchorRecord.anchorId) (hupgraded : isUpgraded r → wrote)
    (hdisturbed : ∀ rest, Disturbed (es₁ ++ rest) ↔ wrote ∧ isUpgraded r = false ∨ Disturbed rest) :
    Result (fun k => k = anchor.anchorId ∧ wrote ∨ written k) (anchor :: anchors) (r :: outcomes) (es₁ ++ es) := by
  have hother (p : AnchorRecord × Except PyError Outcome) (hp : p ∈ anchors.zip outcomes) :
      p.1.anchorId ≠ anchor.anchorId := by
    intro heq
    exact hfresh (heq ▸ List.mem_map_of_mem (List.of_mem_zip hp).1)
  have hnot : ¬ written anchor.anchorId := fun hw => hfresh (h.known _ hw)
  constructor
  · rintro k (⟨rfl, -⟩ | hw)
    · exact List.mem_cons_self
    · exact List.mem_cons_of_mem _ (h.known k hw)
  · intro p hp hup
    rcases List.mem_cons.mp hp with rfl | hp
    · exact .inl ⟨rfl, hupgraded hup⟩
    · exact .inr (h.upgraded p hp hup)
  · intro rest
    rw [List.append_assoc, hdisturbed, h.disturbed, ← or_assoc]
    refine or_congr_left ?_
    rw [List.zip_cons_cons, List.exists_mem_cons_iff]
    refine or_congr ?_ (exists_congr fun p => and_congr_right fun hp => ?_)
    · simp [hnot]
    · simp [hother p hp]

theorem handled_changes (h : Handled i t σ anchors outcomes es σ') (hready : Ready i c σ)
    (hlisted : Listed anchors (σ.file.view c).data) :
    Ready i c σ' ∧ ∃ written change, Changes written change (σ.file.view c).data (σ'.file.view c).data ∧
      Result written anchors outcomes es ∧
      (¬ Disturbed es → σ.file.committed.data = (σ.file.view c).data →
        σ'.file.committed.data = (σ'.file.view c).data) := by
  induction h with
  | nil =>
    refine ⟨hready, _, _, changes_none _, ⟨fun _ h => h.elim, by simp, fun rest => by simp⟩, fun _ hdata => hdata⟩
  | @cons anchor anchors r outcomes es₁ es₂ σ σ₁ σ' hone _ ih =>
    have hfresh := (List.nodup_cons.mp hlisted.nodup).1
    have hstored := hlisted.rows anchor List.mem_cons_self
    obtain ⟨hready₁, blob, height, blockHash, time, hleaves⟩ := alone_upgradeOne hready hstored hone
    generalize hb : isUpgraded r = b at hleaves
    cases hleaves with
    | same hview hcommitted hneutral =>
      obtain ⟨hready', written, change, hchanges, hresult, hdata⟩ := ih hready₁ (hview.symm ▸ hlisted.tail)
      rw [hview] at hchanges
      have hdisturbed (rest : List (PollerHappening T W)) :
          Disturbed (es₁ ++ rest) ↔ False ∧ isUpgraded r = false ∨ Disturbed rest := by
        rw [hneutral rest]
        simp
      refine ⟨hready', _, change, hchanges.congr fun k => ?_, hresult.cons hfresh (by simp [hb]) hdisturbed, ?_⟩
      · simp
      · intro hno hsame
        rw [hneutral es₂] at hno
        exact hdata hno (by rw [hcommitted, hview, hsame])
    | changed hview hcommitted hneutral =>
      obtain ⟨hready', written, change, hchanges, hresult, hdata⟩ :=
        ih hready₁ (hview.symm ▸ hlisted.confirm blob height blockHash _)
      rw [hview] at hchanges
      have hnot : ¬ written anchor.anchorId := fun hw => hfresh (hresult.known _ hw)
      have hdisturbed (rest : List (PollerHappening T W)) :
          Disturbed (es₁ ++ rest) ↔ True ∧ isUpgraded r = false ∨ Disturbed rest := by
        rw [hneutral rest]
        simp [hb]
      refine ⟨hready', _, _, (hchanges.confirm hnot).congr fun k => ?_,
        hresult.cons hfresh (fun _ => trivial) hdisturbed, ?_⟩
      · simp
      · intro hno _
        rw [hneutral es₂] at hno
        exact hdata hno (by rw [hcommitted, hview])
    | disturbed hview hdisturbed =>
      obtain ⟨hready', written, change, hchanges, hresult, hdata⟩ :=
        ih hready₁ (hview.symm ▸ hlisted.confirm blob height blockHash _)
      rw [hview] at hchanges
      have hnot : ¬ written anchor.anchorId := fun hw => hfresh (hresult.known _ hw)
      have hdisturbed' (rest : List (PollerHappening T W)) :
          Disturbed (es₁ ++ rest) ↔ True ∧ isUpgraded r = false ∨ Disturbed rest :=
        iff_of_true (hdisturbed rest) (.inl ⟨trivial, hb⟩)
      refine ⟨hready', _, _, (hchanges.confirm hnot).congr fun k => ?_,
        hresult.cons hfresh (fun _ => trivial) hdisturbed', ?_⟩
      · simp
      · intro hno
        exact absurd (hdisturbed es₂) hno

end Handling

section Windows

/-- The first instant of the window. -/
def windowStart (maxAgeMinutes : Option ℤ) (now : UtcTime) : Option ℤ :=
  maxAgeMinutes.map fun minutes => instant now.civil - minutes * 60000000

/-- Not confirmed, with a proof, and submitted within the window. -/
structure IsPending (start : Option ℤ) (row : AnchorRow) : Prop where
  unconfirmed : row.confirmedAt = none
  proof : row.otsProofBlob.isSome
  recent : ∀ n ∈ start, ∃ t : UtcTime, row.submittedAt = strftime t.civil ∧ n ≤ instant t.civil

open Classical in
/-- The pending rows in the order of the table. -/
noncomputable def pendingRows (start : Option ℤ) (d : Database) : List AnchorRow :=
  d.anchors.rows.filter fun row => IsPending start row

theorem mem_pendingRows {start : Option ℤ} {d : Database} {row : AnchorRow} :
    row ∈ pendingRows start d ↔ row ∈ d.anchors.rows ∧ IsPending start row := by
  simp [pendingRows]

/-- The ledger writes `submitted_at` from a reading of its clock. -/
def Submitted (d : Database) : Prop :=
  ∀ row ∈ d.anchors.rows, ∃ t : UtcTime, row.submittedAt = strftime t.civil

/-- The cutoff that the query compares with. -/
def cutoffText (maxAgeMinutes : Option ℤ) (now : UtcTime) : Except PyError (Option String) :=
  match maxAgeMinutes with
  | none => .ok none
  | some minutes => return some (strftime (← minutesBefore now minutes))

omit [Platform] in
theorem instant_minutesBefore {now : UtcTime} {minutes : ℤ} {cutoff : Civil} (h : minutesBefore now minutes = .ok cutoff) :
    cutoff.Valid ∧ instant cutoff = instant now.civil - minutes * 60000000 := by
  unfold minutesBefore at h
  dsimp only at h
  generalize hn : now.civil.clock.microseconds - minutes * 60000000 = n at h
  have hD : 0 < dayMicroseconds := by decide
  have hday : ∀ day, addDays now.civil (n / dayMicroseconds) = some day →
      day.Valid ∧ (ordinal day : ℤ) = ordinal now.civil + n / dayMicroseconds := by
    intro day hday
    cases hq : n / dayMicroseconds with
    | ofNat k =>
      rw [hq] at hday
      obtain ⟨hvalid, -, hordinal⟩ := ordinal_daysAfter now.valid.1 hday
      exact ⟨hvalid, by rw [hordinal]; rfl⟩
    | negSucc k =>
      rw [hq] at hday
      obtain ⟨hvalid, -, hordinal⟩ := ordinal_daysBefore now.valid.1 hday
      refine ⟨hvalid, ?_⟩
      rw [← hordinal, Int.negSucc_eq]
      push_cast
      ring
  split at h
  · rename_i day hadd
    cases h
    obtain ⟨hvalid, hordinal⟩ := hday day hadd
    obtain ⟨hset, hinstant⟩ := instant_setClock hvalid (Int.emod_nonneg n hD.ne') (Int.emod_lt_of_pos n hD)
    refine ⟨hset, ?_⟩
    rw [hinstant, hordinal, instant]
    have hsplit := Int.emod_add_mul_ediv n dayMicroseconds
    linarith
  · cases h

/-- The text of a cutoff comes before that of a later time in the years that are written with four digits. -/
theorem cutoff_le {civil : Civil} {t : UtcTime} (hvalid : civil.Valid) (hyear : 1000 ≤ civil.year) :
    strftime civil ≤ strftime t.civil ↔ instant civil ≤ instant t.civil := by
  rw [← not_lt, strftime_lt_iff_of_year t.valid.1 t.valid.2 hvalid hyear, not_lt]

/-- What the query selects is pending: a cutoff in an earlier year is before every stored time. -/
theorem isPending_of_unconfirmed {maxAgeMinutes : Option ℤ} {now t : UtcTime} {cutoff : Option String} {row : AnchorRow}
    (hcutoff : cutoffText maxAgeMinutes now = .ok cutoff) (hrow : row.submittedAt = strftime t.civil)
    (h : isUnconfirmed cutoff row) : IsPending (windowStart maxAgeMinutes now) row := by
  rw [isUnconfirmed, Bool.and_eq_true, Bool.and_eq_true, Option.isNone_iff_eq_none] at h
  obtain ⟨⟨hnone, hproof⟩, hrecent⟩ := h
  refine ⟨hnone, hproof, fun n hn => ⟨t, hrow, ?_⟩⟩
  cases maxAgeMinutes with
  | none => cases hn
  | some minutes =>
    obtain ⟨civil, hcivil, hcutoff⟩ := bind_ok hcutoff
    cases hcutoff
    cases hn
    obtain ⟨hvalid, hinstant⟩ := instant_minutesBefore hcivil
    show instant now.civil - minutes * 60000000 ≤ _
    rw [← hinstant]
    by_cases hyear : 1000 ≤ civil.year
    · have htext : strftime civil ≤ row.submittedAt := of_decide_eq_true hrecent
      rwa [hrow, cutoff_le hvalid hyear] at htext
    · exact le_of_lt (instant_lt_of_year hvalid t.valid.1 (lt_of_lt_of_le (not_le.mp hyear) t.valid.2))

/-- The cutoff lies in a year with four digits, or at least its text is before those of the pending rows. -/
def CutoffSorts (maxAgeMinutes : Option ℤ) (now : UtcTime) (d : Database) : Prop :=
  ∀ minutes ∈ maxAgeMinutes, ∃ civil, minutesBefore now minutes = .ok civil ∧
    (1000 ≤ civil.year ∨ ∀ row ∈ pendingRows (windowStart maxAgeMinutes now) d, strftime civil ≤ row.submittedAt)

theorem CutoffSorts.text {maxAgeMinutes : Option ℤ} {now : UtcTime} {d : Database} (h : CutoffSorts maxAgeMinutes now d) :
    ∃ cutoff, cutoffText maxAgeMinutes now = .ok cutoff := by
  cases maxAgeMinutes with
  | none => exact ⟨none, rfl⟩
  | some minutes =>
    obtain ⟨civil, hcivil, -⟩ := h minutes rfl
    rw [cutoffText, hcivil]
    exact ⟨_, rfl⟩

/-- Then the query selects every pending row. -/
theorem CutoffSorts.selects {maxAgeMinutes : Option ℤ} {now : UtcTime} {cutoff : Option String} {d : Database}
    (h : CutoffSorts maxAgeMinutes now d) (hcutoff : cutoffText maxAgeMinutes now = .ok cutoff) {row : AnchorRow}
    (hrow : row ∈ pendingRows (windowStart maxAgeMinutes now) d) : isUnconfirmed cutoff row := by
  have hpending := (mem_pendingRows.mp hrow).2
  rw [isUnconfirmed, Bool.and_eq_true, Bool.and_eq_true, Option.isNone_iff_eq_none]
  refine ⟨⟨hpending.unconfirmed, hpending.proof⟩, ?_⟩
  cases maxAgeMinutes with
  | none =>
    cases hcutoff
    rfl
  | some minutes =>
    obtain ⟨civil, hcivil, hsorts⟩ := h minutes rfl
    rw [cutoffText, hcivil] at hcutoff
    cases hcutoff
    refine decide_eq_true ?_
    rcases hsorts with hyear | hall
    · obtain ⟨hvalid, hinstant⟩ := instant_minutesBefore hcivil
      obtain ⟨t, ht, hle⟩ := hpending.recent _ rfl
      rw [ht, cutoff_le hvalid hyear, hinstant]
      exact hle
    · exact hall row hrow

theorem filter_unconfirmed {maxAgeMinutes : Option ℤ} {now : UtcTime} {cutoff : Option String} {d : Database}
    (hd : Submitted d) (hcutoff : cutoffText maxAgeMinutes now = .ok cutoff)
    (hselects : ∀ row ∈ pendingRows (windowStart maxAgeMinutes now) d, isUnconfirmed cutoff row) :
    d.anchors.rows.filter (isUnconfirmed cutoff) = pendingRows (windowStart maxAgeMinutes now) d := by
  refine List.filter_congr fun row hrow => ?_
  obtain ⟨t, ht⟩ := hd row hrow
  rw [Bool.eq_iff_iff]
  simp only [decide_eq_true_eq]
  exact ⟨isPending_of_unconfirmed hcutoff ht, fun h => hselects row (mem_pendingRows.mpr ⟨hrow, h⟩)⟩

end Windows

section Listing

variable {i : InstId} {t : TaskId} {c : ConnId} {σ σ' : Shared Database Statement W} {es rest : List (PollerHappening T W)}
variable {maxAgeMinutes : Option ℤ} {now : UtcTime}

/-- The clock gives this time when it is asked first. -/
def ReadsClock (now : UtcTime) : List (PollerHappening T W) → Prop
  | ⟨.connection, _⟩ :: ⟨.external (.inl .now), .answer f _⟩ :: _ => f (.inl .now) = .ok now
  | _ => False

/-- The first read of the database returns. -/
def QueryReturns : List (PollerHappening T W) → Prop
  | [] => False
  | ⟨.select _, o⟩ :: _ =>
    match o with
    | .ok => True
    | _ => False
  | _ :: es => QueryReturns es

omit [Platform] in
theorem QueryReturns.append (h : QueryReturns es) (rest : List (PollerHappening T W)) : QueryReturns (es ++ rest) := by
  induction es with
  | nil => cases h
  | cons e es ih =>
    obtain ⟨op, o⟩ := e
    cases op with
    | select c => exact h
    | _ => exact ih h

omit [Platform] in
/-- The cutoff is taken from the time that the clock gives. -/
theorem alone_cutoff {α : Type} {f : Civil → PollerAction T α} {minutes : ℤ} {r : Except PyError α}
    (hready : Ready i c σ) (hclock : ReadsClock now (⟨.connection, .ok⟩ :: es ++ rest))
    (h : Alone i t (embed (PollerReply T) (Ledger.now (L := T.libraries)) >>= fun now : UtcTime =>
      Prog.done (minutesBefore now minutes) >>= f) σ es r σ') :
    ∃ g w es₁ σ₁, es = ⟨.external (.inl .now), .answer g w⟩ :: es₁ ∧ Ready i c σ₁ ∧ σ₁.file = σ.file ∧
      ((∃ civil, minutesBefore now minutes = .ok civil ∧ Alone i t (f civil) σ₁ es₁ r σ') ∨
        ∃ e, minutesBefore now minutes = .error e ∧ r = .error e ∧ es₁ = [] ∧ σ' = σ₁) := by
  obtain ⟨o, x, σ₁, es₁, rfl, heffect, h₁⟩ := h.of_perform
  cases o with
  | answer g w =>
    cases heffect
    have hnow : g (.inl .now) = .ok now := hclock
    rw [hnow] at h₁
    refine ⟨g, w, es₁, { σ with world := w }, rfl, ⟨hready.db, hready.lock, hready.mayWrite⟩, rfl, ?_⟩
    have h₂ : Alone i t (Prog.done (minutesBefore now minutes) >>= f) { σ with world := w } es₁ r σ' := h₁
    cases hm : minutesBefore now minutes with
    | ok civil =>
      rw [hm] at h₂
      exact .inl ⟨civil, rfl, h₂⟩
    | error e =>
      rw [hm] at h₂
      obtain ⟨rfl, rfl, rfl⟩ := h₂.of_done
      exact .inr ⟨e, rfl, rfl, rfl, rfl⟩
  | cancel performed => cases hclock
  | _ => cases heffect

/-- The rest of the query, once the connection and the cutoff are there. -/
theorem alone_query (cutoff : Option String) {limit : ℤ} {r : Except PyError (List AnchorRecord)} (hready : Ready i c σ)
    (h : Alone i t (Prog.select c >>= fun d : Database =>
      (Prog.done ((sqlLimit limit (d.anchors.rows.filter (isUnconfirmed cutoff))).mapM rowToAnchor) :
        PollerAction T (List AnchorRecord))) σ es r σ') :
    σ' = σ ∧ Neutral es ∧ ∀ records, r = .ok records ↔ QueryReturns es ∧
      (sqlLimit limit ((σ.file.view c).data.anchors.rows.filter (isUnconfirmed cutoff))).mapM rowToAnchor = .ok records := by
  rcases h.of_bind with ⟨d, σ₁, es₁, es₂, rfl, hselect, hdone⟩ | ⟨e, rfl, hselect⟩
  · obtain ⟨rfl, ⟨rfl, hd⟩ | ⟨o, e, -, -, hd⟩⟩ := alone_select hready hselect
    · cases hd
      obtain ⟨rfl, rfl, rfl⟩ := hdone.of_done
      exact ⟨rfl, fun _ => Iff.rfl, fun records => (and_iff_right trivial).symm⟩
    · cases hd
  · obtain ⟨rfl, ⟨rfl, hd⟩ | ⟨o, e', rfl, hne, -⟩⟩ := alone_select hready hselect
    · cases hd
    · refine ⟨rfl, fun _ => Iff.rfl, fun records => iff_of_false (by rintro ⟨⟩) fun hquery => ?_⟩
      cases o with
      | ok => exact hne rfl
      | _ => exact hquery.1

/-- `list_unconfirmed_anchors` returns the first pending rows if its query and their reading succeed. -/
theorem alone_list (rest : List (PollerHappening T W)) {limit : ℤ} {r : Except PyError (List AnchorRecord)} (hready : Ready i c σ)
    (hclock : maxAgeMinutes.isSome → ReadsClock now (es ++ rest))
    (h : Alone i t (listUnconfirmedAnchors (T := T) maxAgeMinutes limit) σ es r σ') :
    Ready i c σ' ∧ σ'.file = σ.file ∧ Neutral es ∧ ∀ records, r = .ok records ↔ QueryReturns es ∧
      ∃ cutoff, cutoffText maxAgeMinutes now = .ok cutoff ∧
        (sqlLimit limit ((σ.file.view c).data.anchors.rows.filter (isUnconfirmed cutoff))).mapM rowToAnchor =
          .ok records := by
  have hasked : Neutral ([⟨.connection, .ok⟩] : List (PollerHappening T W)) := fun _ => Iff.rfl
  rcases h.of_bind with ⟨db, σ₁, es₁, es₂, rfl, hconnection, h₁⟩ | ⟨e, -, hconnection⟩
  swap
  · cases (alone_connection hready hconnection).1
  obtain ⟨hdb, rfl, rfl⟩ := alone_connection hready hconnection
  cases hdb
  cases maxAgeMinutes with
  | none =>
    obtain ⟨rfl, hneutral, hiff⟩ := alone_query none hready h₁
    refine ⟨hready, rfl, hasked.append hneutral, fun records => (hiff records).trans ?_⟩
    simp [cutoffText, QueryReturns]
  | some minutes =>
    obtain ⟨g, w, es₃, σ₂, rfl, hready₂, hfile, ⟨civil, hcivil, h₂⟩ | ⟨e, he, rfl, rfl, rfl⟩⟩ :=
      alone_cutoff hready (hclock rfl) h₁
    · have hcutoff : cutoffText (some minutes) now = .ok (some (strftime civil)) := by
        rw [cutoffText, hcivil]
        rfl
      obtain ⟨rfl, hneutral, hiff⟩ := alone_query (some (strftime civil)) hready₂ h₂
      refine ⟨hready₂, hfile, hasked.append fun rest => hneutral rest, fun records => (hiff records).trans ?_⟩
      rw [hfile, hcutoff]
      simp [QueryReturns]
    · refine ⟨hready₂, hfile, fun _ => Iff.rfl, fun records => iff_of_false (by rintro ⟨⟩) ?_⟩
      rintro ⟨⟨⟩, -⟩

end Listing

section Escaping

/-- The library raises exceptions that `except Exception` catches. -/
structure RaisesExceptions (T : Proofs) : Prop where
  deserialize : ∀ blob msg e, T.deserialize blob msg = .error e → e.isException
  serialize : ∀ ts e, T.serialize ts = .error e → e.isException
  apply : ∀ (op : T.Op) m e, Operation.apply op m = .error e → PyError.isException e
  mismatch : PyError.isException (Operation.mismatch T.Op)

omit [Platform] in
theorem catchesSql : CatchesSql PyError.isException := ⟨fun _ => rfl, rfl, rfl⟩

omit [Platform] in
theorem mergeWalk_error {P : PyError → Prop} {commitment : Bytes} {upgraded : T.Timestamp} {ops : List (T.Op × T.Timestamp)}
    (ih : ∀ p ∈ ops, ∀ {e}, mergeAtCommitment commitment upgraded p.2 = .error e → P e) {e : PyError}
    (h : mergeAtCommitment.walk commitment upgraded ops = .error e) : P e := by
  induction ops with
  | nil => cases h
  | cons p ops ihops =>
    rcases bind_error h with h | ⟨found, -, h⟩
    · exact ih p List.mem_cons_self h
    cases found with
    | some child => cases h
    | none =>
      rcases bind_error h with h | ⟨r, -, h⟩
      · exact ihops (fun q hq => ih q (List.mem_cons_of_mem _ hq)) h
      · cases h

omit [Platform] in
theorem mergeAtCommitment_error {P : PyError → Prop} {commitment : Bytes} {upgraded ts : T.Timestamp}
    (hmerge : ∀ (ts : T.Timestamp) e, OpTree.merge ts upgraded = .error e → P e) {e : PyError}
    (h : mergeAtCommitment commitment upgraded ts = .error e) : P e := by
  induction ts using OpTree.induct generalizing e with
  | node m s ops ih =>
    unfold mergeAtCommitment at h
    split at h
    · rcases bind_error h with h | ⟨r, -, h⟩
      · exact hmerge _ e h
      · cases h
    · rcases bind_error h with hwalk | ⟨r, -, h⟩
      · exact mergeWalk_error ih hwalk
      · cases h

omit [Platform] in
theorem mergeUpgrade_error (hT : RaisesExceptions T) {commitment : Bytes} {upgraded ts : T.Timestamp} {e : PyError}
    (h : mergeUpgrade ts commitment upgraded = .error e) : e.isException := by
  rcases bind_error h with h | ⟨r, -, h⟩
  · exact mergeAtCommitment_error (fun ts e => OpTree.merge_error hT.mismatch hT.apply) h
  · cases h

omit [Platform] in
theorem bytesFromHex_error {s : String} {e : PyError} (h : bytesFromHex s = .error e) : e.isException := by
  unfold bytesFromHex at h
  split at h <;> cases h
  rfl

theorem readTimeColumn_error {s : String} {e : PyError} (h : readTimeColumn s = .error e) : e.isException := by
  unfold readTimeColumn at h
  split at h <;> cases h
  rfl

theorem readTimeColumn?_error {s : Option String} {e : PyError} (h : readTimeColumn? s = .error e) : e.isException := by
  cases s with
  | none => cases h
  | some s =>
    rcases bind_error h with h | ⟨t, -, h⟩
    · exact readTimeColumn_error h
    · cases h

omit [Platform] in
theorem loadsList_error {text : String} {e : PyError} (h : loadsList text = .error e) : e.isException := by
  unfold loadsList at h
  split at h
  · unfold pyList at h
    split at h <;> cases h
    rfl
  · cases h
    rfl

theorem rowToAnchor_error {row : AnchorRow} {e : PyError} (h : rowToAnchor row = .error e) : e.isException := by
  rcases bind_error h with h | ⟨submittedAt, -, h⟩
  · exact readTimeColumn_error h
  rcases bind_error h with h | ⟨calendarServers, -, h⟩
  · exact loadsList_error h
  rcases bind_error h with h | ⟨confirmedAt, -, h⟩
  · exact readTimeColumn?_error h
  rcases bind_error h with h | ⟨tsaGenTime, -, h⟩
  · exact readTimeColumn?_error h
  · cases h

omit [Platform] in
theorem minutesBefore_error {now : UtcTime} {minutes : ℤ} {e : PyError} (h : minutesBefore now minutes = .error e) :
    e.isException := by
  unfold minutesBefore at h
  dsimp only at h
  split at h <;> cases h
  rfl

/-- The program lets a cancellation through, and only what a handler for exceptions would let through. -/
abbrev Escapes {α : Type} (p : PollerAction T α) : Prop := Relays PyError.isException p

omit [Platform] in
theorem escapes_external (q : Request ⊕ PollerRequest) : Escapes (Prog.external q : PollerAction T _) :=
  relays_op catchesSql (.external q)

omit [Platform] in
theorem escapes_queryCalendars (hT : RaisesExceptions T) (ts : T.Timestamp) (pairs : List (Bytes × String)) :
    Escapes (queryCalendars ts pairs) := by
  induction pairs generalizing ts with
  | nil => exact relays_done (by rintro e ⟨⟩)
  | cons pair pairs ih =>
    obtain ⟨commitment, uri⟩ := pair
    refine (escapes_external _).attempt_bind (fun upgraded => ?_) (fun e he => ?_) fun e he => ?_
    · exact (relays_done fun e => mergeUpgrade_error hT).bind fun ts => ih ts
    · dsimp only
      rw [if_pos he]
      exact ih ts
    · dsimp only
      rw [if_neg (by rw [he]; exact Bool.false_ne_true)]

omit [Platform] in
theorem escapes_blockHash (height : ℤ) : Escapes (fetchBitcoinBlockHashAtHeight (T := T) height) := by
  refine (escapes_external _).attempt_bind (fun page => relays_done (by rintro e ⟨⟩)) (fun e he => ?_) fun e he => ?_
  · dsimp only
    rw [if_pos he]
    exact relays_done (by rintro e ⟨⟩)
  · dsimp only
    rw [if_neg (by rw [he]; exact Bool.false_ne_true)]

theorem escapes_confirmAnchor (anchorId : ℤ) (blob : Bytes) (height : ℤ) (blockHash : Option String) (time : DateTime) :
    Escapes (embed (PollerReply T) (Ledger.confirmAnchor (L := T.libraries) anchorId blob height blockHash (some time))) := by
  rw [embed_confirmAnchor]
  refine (relays_op catchesSql .connection).bind fun db => ?_
  refine (Relays.withLock catchesSql ?_).bind fun _ => ?_
  · exact (relays_op catchesSql (.execute db _)).bind fun _ => relays_op catchesSql (.commit db)
  · refine (relays_op catchesSql (.select db)).bind fun d => ?_
    split
    · exact relays_done fun e => rowToAnchor_error
    · exact relays_done (by rintro e ⟨⟩; rfl)

theorem escapes_upgradeOne (hT : RaisesExceptions T) (anchor : AnchorRecord) : Escapes (upgradeOne (T := T) anchor) := by
  have hreturn (outcome : Outcome) : Escapes (.done (.ok outcome) : PollerAction T Outcome) :=
    relays_done (by rintro e ⟨⟩)
  unfold upgradeOne
  split
  · exact relays_done (by rintro e ⟨⟩; rfl)
  refine (relays_done fun e => bytesFromHex_error).bind fun chainHead => ?_
  refine (relays_done fun e => hT.deserialize _ _ e).bind fun ts => ?_
  split
  · exact hreturn .stillPending
  refine (escapes_queryCalendars hT _ _).bind fun merged => ?_
  split
  · exact hreturn .stillPending
  refine (relays_done fun e => hT.serialize _ e).bind fun upgradedBlob => ?_
  refine (escapes_blockHash _).bind fun blockHash => ?_
  refine Relays.bind (escapes_external (.inl .now)) fun time => ?_
  exact (escapes_confirmAnchor _ _ _ _ _).bind fun _ => hreturn .upgraded

theorem escapes_upgradeEach (hT : RaisesExceptions T) (n : PollCounts) (anchors : List AnchorRecord) :
    Escapes (upgradeEach (T := T) n anchors) := by
  induction anchors generalizing n with
  | nil => exact relays_done (by rintro e ⟨⟩)
  | cons anchor anchors ih =>
    refine (escapes_upgradeOne hT anchor).attempt_bind (fun outcome => ih _) (fun e he => ?_) fun e he => ?_
    · dsimp only
      rw [if_pos he]
      exact ih _
    · dsimp only
      rw [if_neg (by rw [he]; exact Bool.false_ne_true)]

theorem escapes_list (maxAgeMinutes : Option ℤ) (limit : ℤ) :
    Escapes (listUnconfirmedAnchors (T := T) maxAgeMinutes limit) := by
  have hquery (db : ConnId) (cutoff : Option String) : Escapes (Prog.select db >>= fun d : Database =>
      (Prog.done ((sqlLimit limit (d.anchors.rows.filter (isUnconfirmed cutoff))).mapM rowToAnchor) :
        PollerAction T (List AnchorRecord))) := by
    refine (relays_op catchesSql (.select db)).bind fun d => relays_done fun e he => ?_
    obtain ⟨row, -, he⟩ := mapM_error he
    exact rowToAnchor_error he
  refine (relays_op catchesSql .connection).bind fun db => ?_
  cases maxAgeMinutes with
  | none => exact hquery db none
  | some minutes =>
    refine Relays.bind (escapes_external (.inl .now)) fun now : UtcTime => ?_
    exact (relays_done fun e => minutesBefore_error).bind fun civil => hquery db _

/-- The call raises exactly where it is cancelled or a request raises what is no exception, as long as its
query is answered. -/
theorem escapes_upgradePendingAnchors (hT : RaisesExceptions T) (maxAgeMinutes : Option ℤ) :
    Escapes (upgradePendingAnchors (T := T) maxAgeMinutes) :=
  (escapes_list maxAgeMinutes 500).bind fun _ => escapes_upgradeEach hT _ _

end Escaping

end NexusCone.PollSweeps
