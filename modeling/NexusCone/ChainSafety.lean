import NexusCone.HashedTexts
import NexusCone.LedgerGrowth
import NexusCone.LedgerRuns

/-!
# Chain safety under any interleaving

Any number of ledger instances on one file, any calls, failures, cancellations and closes: the
committed entries stay a numbered, linked and verifying chain, and what `log` has returned
stays in it.
-/
namespace NexusCone.ChainSafety
open HashChain KeyedTable SharedFile AsyncProgram AsyncSystem Connections RelyGuarantee GrowingVersions PyValue
  Canonical LedgerSchema EntryChain TimestampAuthority Ledger LedgerRuns LedgerGrowth

section Runs

variable [IsoTime.Platform] {W : Type} {L : Libraries}

omit [IsoTime.Platform] in
theorem grown_start (d : Database) : Grown d ⟨d, []⟩ where
  rows := by simp [inserted]
  numbered := trivial
  linked := trivial
  genuine := by simp [inserted]
  heads _ h := .inl h

omit [IsoTime.Platform] in
theorem good_start (d : Database) (w : W) (rules : LedgerRules L W) :
    Good ((entryGrowth d).protocol W) rules (fun _ t => Answered t) (fun _ _ _ _ => True)
      (startSys d w : LedgerSys L W) := by
  refine Good.start ⟨wired_start d w, grown_start d, ?_⟩ (fresh_start d w)
  rintro p ⟨⟩

/-- In every reachable state the committed contents and every connection's view have grown
from the start. -/
theorem grown_of_run {d : Database} {w : W} {rules : LedgerRules L W} {s : LedgerSys L W}
    (h : LedgerRun rules (startSys d w) s) :
    Good ((entryGrowth d).protocol W) rules (fun _ t => Answered t) (fun _ _ _ _ => True) s :=
  ((verified_ledger rules).run (good_start d w rules) h).1

omit [IsoTime.Platform] in
theorem linked_ids {rows : List EntryRow} {i : ℕ} (hi : i < rows.length)
    (h : Linked (fun r : EntryRow => r.entryId - 1) EntryRow.entryId 0 rows) : rows[i].entryId = i + 1 := by
  induction i with
  | zero =>
    have hzero := h.prev_zero hi
    omega
  | succ i ih =>
    have hprev := h.prev_succ hi
    have hi := ih (Nat.lt_of_succ_lt hi)
    omega

/-- The entries are numbered from 1, linked from the genesis hash and accepted by the walk. -/
structure ChainIntact (rows : List EntryRow) : Prop where
  ids : ∀ i (h : i < rows.length), rows[i].entryId = i + 1
  genesis : ∀ h : 0 < rows.length, rows[0].previousHash = genesisPreviousHash
  linked : ∀ i (h : i + 1 < rows.length), rows[i + 1].previousHash = rows[i].entryHash
  verifies : verifyChain none rows = .ok rows.length

omit [IsoTime.Platform] in
theorem chainIntact_of_grown {d : Database} (hd : d.entries.rows = []) {v : Version Database Statement}
    (h : Grown d v) : ChainIntact v.data.entries.rows := by
  have hrows : v.data.entries.rows = (inserted v).map Prod.snd := by rw [h.rows, hd]; rfl
  have hnum := h.numbered
  have hlink := h.linked
  have hgenuine := h.genuine
  rw [hd, ← hrows] at hnum hlink
  rw [← hrows] at hgenuine
  exact ⟨fun i hi => linked_ids hi hnum, fun h0 => hlink.prev_zero h0, fun i hi => hlink.prev_succ hi,
    verifyChain_none.mpr ⟨rfl, hlink, fun r hr => (hgenuine r hr).hashed⟩⟩

omit [IsoTime.Platform] in
theorem chained_of_intact {rows : List EntryRow} (h : ChainIntact rows) : Chained rows :=
  (verifyChain_none.mp h.verifies).2

/-- The task's `log` call has returned the entry. -/
def Returned (s : LedgerSys L W) (t : TaskId) (e : LedgerEntry) : Prop :=
  ∃ i actor action payload signer eventType,
    s.tasks[t]? = some ⟨i, .log actor action payload signer eventType, .done (.ok (.entry e))⟩

/-- The entry is the row, its payload kept as canonical text. -/
def StoredAs (e : LedgerEntry) (row : EntryRow) : Prop :=
  e = loggedEntry row e.payload ∧ canonicalJson e.payload = .ok row.payload

omit [IsoTime.Platform] in
theorem logged_of_returned {d : Database} {rules : LedgerRules L W} {s : LedgerSys L W} {t : TaskId}
    {e : LedgerEntry} (hs : Good ((entryGrowth d).protocol W) rules (fun _ t => Answered t)
      (fun _ _ _ _ => True) s) (h : Returned s t e) : Logged t e s.shared := by
  obtain ⟨i, actor, action, payload, signer, eventType, ht⟩ := h
  exact hs.result ht

omit [IsoTime.Platform] in
/-- Two logged rows with one id are one row of one task. -/
theorem inserted_unique {d : Database} {v : Version Database Statement} (h : Grown d v)
    {p q : TaskId × EntryRow} (hp : p ∈ inserted v) (hq : q ∈ inserted v)
    (hid : p.2.entryId = q.2.entryId) : p = q := by
  have hsorted := v.data.entries.sorted
  rw [h.rows] at hsorted
  have hins := (List.pairwise_append.mp hsorted).2.1
  rw [List.pairwise_map] at hins
  exact eq_of_pairwise_lt (f := fun p : TaskId × EntryRow => p.2.entryId) hins hp hq hid

theorem chain_safety {d : Database} (hd : d.entries.rows = []) {w : W} {s : LedgerSys L W}
    (hrun : LedgerRun .all (startSys d w) s) :
    ChainIntact s.shared.file.committed.data.entries.rows ∧
    (∀ c, ChainIntact (s.shared.file.view c).data.entries.rows) ∧
    (∀ t e, Returned s t e → ∀ s', LedgerRun .all s s' →
      ∃ row ∈ s'.shared.file.committed.data.entries.rows, StoredAs e row) ∧
    (∀ t u e f, Returned s t e → Returned s u f → e.entryId = f.entryId → t = u) := by
  have hs := grown_of_run hrun
  refine ⟨chainIntact_of_grown hd hs.inv.committed, fun c => chainIntact_of_grown hd (hs.inv.view c).1, ?_, ?_⟩
  · intro t e he s' hrun'
    obtain ⟨hs', hgrow⟩ := (verified_ledger .all).run hs hrun'
    obtain ⟨row, hrow, hstored⟩ := (logged_of_returned hs he).grow hgrow
    have hrows : s'.shared.file.committed.data.entries.rows = _ := hs'.inv.committed.rows
    refine ⟨row, ?_, hstored⟩
    rw [hrows]
    exact List.mem_append_right _ (List.mem_map_of_mem hrow)
  · intro t u e f he hf hid
    obtain ⟨row, hrow, hrow', -⟩ := logged_of_returned hs he
    obtain ⟨row₂, hrow₂, hrow₂', -⟩ := logged_of_returned hs hf
    have hids : row.entryId = row₂.entryId := by
      rw [hrow', hrow₂'] at hid
      exact hid
    exact congrArg Prod.fst (inserted_unique hs.inv.committed hrow hrow₂ hids)

end Runs

/-- Two instances read the same tip; the second insert meets the first one's row. -/
def raceEvents : List (Event Request (Reply offline) PyError Unit Call) :=
  [.connect 0, .connect 1, .call 0 (logCall "a"), .call 1 (logCall "b"),
    .run 0 .ok, .run 0 .ok, .run 0 .ok, .run 1 .ok, .run 1 .ok, .run 1 .ok, .run 0 (stoppedClock offline),
    .run 1 (stoppedClock offline), .run 0 .ok, .run 0 .ok, .run 0 .ok, .run 1 .ok]

theorem race_runs : ∃ s, runEvents Call.body (startSys Database.empty ()) raceEvents = some s ∧
    s.shared.file.committed.data.entries.rows.length = 1 := by
  have h : (runEvents Call.body (startSys Database.empty ()) raceEvents).any
      (fun s => s.shared.file.committed.data.entries.rows.length = 1) = true := by decide +kernel
  obtain ⟨s, hs, hlen⟩ := (Option.any_eq_true _ _).mp h
  exact ⟨s, hs, of_decide_eq_true hlen⟩

theorem chain_safety_race : ∃ s : LedgerSys offline Unit, LedgerRun .all (startSys Database.empty ()) s ∧
    s.shared.file.committed.data.entries.rows.length = 1 ∧
    ChainIntact s.shared.file.committed.data.entries.rows := by
  obtain ⟨s, hs, hlen⟩ := race_runs
  have hrun : LedgerRun .all (startSys Database.empty ()) s := run_of_runEvents hs
  exact ⟨s, hrun, hlen, (chain_safety rfl hrun).1⟩

theorem computeEntryHash_noon : computeEntryHash 1 "2026-01-01T12:00:00.000000Z" "a" "act" "{}" genesisPreviousHash
    eventTypeRequest 2 = "976916961245c30b62e5baf6d98b10c327811faf08d50d0215ace56be9107a27" :=
  HashedTexts.computeEntryHash_ofList (by decide +kernel)

/-- What a row holds beside its hashes and its signature. -/
def rowFields (r : EntryRow) : (ℤ × ℤ) × String × String × String × String × String :=
  ((r.entryId, r.formatVersion), r.timestamp, r.actor, r.action, r.payload, r.eventType)

/-- The hash of the entry that `logCall "a"` makes first in an empty table. -/
theorem entryHash_noon {r : EntryRow} (hchained : Chained [r])
    (hfields : rowFields r = ((1, 2), "2026-01-01T12:00:00.000000Z", "a", "act", "{}", "request")) :
    r.entryHash = "976916961245c30b62e5baf6d98b10c327811faf08d50d0215ace56be9107a27" := by
  simp only [rowFields, Prod.mk.injEq] at hfields
  obtain ⟨⟨hid, hversion⟩, htime, hactor, haction, hpayload, hevent⟩ := hfields
  have hprev : r.previousHash = genesisPreviousHash := hchained.linked.1
  rw [hchained.hashed r (List.mem_singleton_self r), recomputed, hid, htime, hactor, haction, hpayload, hevent,
    hversion, hprev]
  exact computeEntryHash_noon

end NexusCone.ChainSafety
