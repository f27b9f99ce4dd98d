import NexusCone.LedgerGrowth
import NexusCone.Migration
import NexusCone.SoloRun

/-!
# Ledgers over migrated databases

A process that closes, opens and appends to a file that was a v0.1.0 database. Its rows are always
the legacy rows followed by the logged ones, and the walk over both formats accepts exactly where
the v0.1.0 walk accepts the legacy rows.
-/
namespace NexusCone.MigratedSessions
open JsonText PyValue Canonical KeyedTable HashChain SharedFile AsyncSystem AsyncProgram SoloRun LedgerSchema EntryChain
  IsoTime TimestampAuthority Ledger LedgerGrowth SqlScripts Migration

/-- The inputs of a v0.1.0 entry hash. -/
def legacyFields (row : LegacyRow) : Json :=
  .obj [field "entry_id" (.int row.entryId), field "timestamp" (.str row.timestamp), field "actor" (.str row.actor),
    field "action" (.str row.action), field "payload" (.str row.payload),
    field "previous_hash" (.str row.previousHash)]

def legacyHash (row : LegacyRow) : String := sha256Hex (canonicalText (legacyFields row))

/-- The walk of v0.1.0 over the rows in the order of their ids. -/
def walkLegacy : String → List LegacyRow → Bool
  | _, [] => true
  | expectedPrevious, row :: rows =>
    row.previousHash = expectedPrevious && row.entryHash = legacyHash row && walkLegacy row.entryHash rows

def entryValues (row : EntryRow) : String → Value
  | "entry_id" => .int row.entryId
  | "timestamp" => .text row.timestamp
  | "actor" => .text row.actor
  | "action" => .text row.action
  | "event_type" => .text row.eventType
  | "format_version" => .int row.formatVersion
  | "payload" => .text row.payload
  | "previous_hash" => .text row.previousHash
  | "entry_hash" => .text row.entryHash
  | "signature" => nullable row.signature
  | "signing_key_id" => nullable row.signingKeyId
  | _ => .null

/-- The entries table as its reader sees it. -/
def readTable (t : SqlTable) : Option (Table EntryRow) :=
  match readEntries t with
  | some rows => if h : rows.Pairwise (fun a b => key a < key b) then some ⟨rows, 0, h⟩ else none
  | none => none

def writeRows (t : SqlTable) (rows : List EntryRow) : SqlTable := ⟨t.columns, rows.map entryValues⟩

/-- The file, whether the process has it open, and the world outside. -/
structure Session (W : Type) where
  file : Schema
  opened : Bool
  world : W

inductive SessionCall where
  | close
  | init
  | log (actor action : String) (payload : Option (List (PyKey × PyVal))) (signer : Option Signer)
      (eventType : String)

variable [IsoTime.Platform] {W : Type} {L : Libraries}

/-- The database of a file of which only the entries are read. -/
def entriesOnly (entries : Table EntryRow) : Database := { Database.empty with entries := entries }

/-- A call and its result; `none` where the file is not one that a complete `init` leaves. -/
def Session.call (answers : Answers Request (Reply L) PyError W) (s : Session W) :
    SessionCall → Option (Except PyError (Option LedgerEntry) × Session W)
  | .close => some (.ok none, { s with opened := false })
  | .init =>
    if s.opened then some (.ok none, s)
    else (Migration.init.complete s.file).map fun file => (.ok none, { s with file := file, opened := true })
  | .log actor action payload signer eventType =>
    if s.opened then do
      let t ← s.file.tables "entries"
      let d := entriesOnly (← readTable t)
      let (r, y) ← solo answers 0 (Ledger.log actor action payload signer eventType) ⟨d, d, false, s.world⟩
      return (r.map some, { s with
        file := s.file.setTable "entries" (writeRows t y.committed.entries.rows), world := y.world })
    else some (.error Raises.notOpen, s)

def Session.calls (answers : Answers Request (Reply L) PyError W) :
    List SessionCall → Session W → Option (List (Except PyError (Option LedgerEntry)) × Session W)
  | [], s => some ([], s)
  | c :: cs, s => do
    let (r, s) ← s.call answers c
    let (rs, s) ← Session.calls answers cs s
    return (r :: rs, s)

/-- The entries that the `log` calls among the results have returned. -/
def returnedEntries (results : List (Except PyError (Option LedgerEntry))) : List LedgerEntry :=
  results.filterMap fun r => r.toOption.join

/-- `verify_chain` over the file. -/
def Session.verifyChain (answers : Answers Request (Reply L) PyError W) (s : Session W) :
    Option (Except PyError ℕ) := do
  let t ← s.file.tables "entries"
  let d := entriesOnly (← readTable t)
  let (r, _) ← solo answers 0 (Ledger.verifyChain (L := L) none) ⟨d, d, false, s.world⟩
  return r

section Tables

def migratedColumns : List String := legacyColumns ++ ["event_type"] ++ ["format_version"]

/-- The entries table with these rows. -/
def entriesTable (rows : List EntryRow) : SqlTable := ⟨migratedColumns, rows.map entryValues⟩

omit [IsoTime.Platform] in
theorem entryValues_migrated (row : LegacyRow) : entryValues row.migrated =
    Function.update (Function.update row.values "event_type" (.text eventTypeRequest)) "format_version" (.int 1) := by
  funext name
  by_cases hf : name = "format_version"
  · subst hf
    rfl
  rw [Function.update_of_ne hf]
  by_cases he : name = "event_type"
  · subst he
    rfl
  rw [Function.update_of_ne he]
  unfold entryValues LegacyRow.values
  split <;> first | rfl | contradiction | simp_all

omit [IsoTime.Platform] in
/-- What the migration makes of the legacy rows is the table of the migrated rows. -/
theorem migratedTable_eq (rows : List LegacyRow) :
    migratedTable rows = entriesTable (rows.map LegacyRow.migrated) := by
  simp only [migratedTable, legacyTable, SqlTable.addColumn, entriesTable, migratedColumns, List.map_map,
    Function.comp_def, entryValues_migrated]

omit [IsoTime.Platform] in
theorem readEntries_entriesTable (rows : List EntryRow) : readEntries (entriesTable rows) = some rows := by
  have h := mapM_map_eq_some (f := readEntry migratedColumns) (v := entryValues) (g := id) (fun row => ?_) rows
  · rw [readEntries, entriesTable, h, List.map_id]
  · simp [readEntry, migratedColumns, legacyColumns, entryValues, readInt, readText, readNullable_nullable]

omit [IsoTime.Platform] in
theorem readTable_entriesTable {rows : List EntryRow} (h : rows.Pairwise (fun a b => key a < key b)) :
    readTable (entriesTable rows) = some ⟨rows, 0, h⟩ := by
  rw [readTable, readEntries_entriesTable]
  exact dif_pos h

end Tables

section Walks

omit [IsoTime.Platform] in
theorem recomputed_migrated (row : LegacyRow) : recomputed row.migrated = legacyHash row := by
  rw [legacyHash, legacyFields]
  simp [recomputed, computeEntryHash, entryFields, LegacyRow.migrated]

omit [IsoTime.Platform] in
/-- The v0.1.0 walk makes the same checks as the walk over the migrated rows. -/
theorem walkLegacy_iff {expected : String} {rows : List LegacyRow} : walkLegacy expected rows = true ↔
    verifyEntries none expected (rows.map LegacyRow.migrated) = .ok () := by
  rw [verifyEntries_ok]
  induction rows generalizing expected with
  | nil => simp [walkLegacy]
  | cons row rows ih =>
    have hrow : row.migrated.entryHash = row.entryHash := rfl
    have hprev : row.migrated.previousHash = row.previousHash := rfl
    simp only [walkLegacy, Bool.and_eq_true, decide_eq_true_eq, ih, List.map_cons, linked_cons, hprev, hrow,
      List.forall_mem_cons, recomputed_migrated, signed_none, and_true]
    tauto

end Walks

section Log

/-- A row that `log` may add after `rows`. -/
structure Follows (rows : List EntryRow) (row : EntryRow) : Prop where
  above : ∀ r ∈ rows, key r < key row
  previousHash : row.previousHash = tipEntryHash rows
  hashed : row.entryHash = recomputed row

variable (answers : Answers Request (Reply L) PyError W)

/-- A `log` call alone adds the row of the entry it returns, or raises and adds none. -/
theorem solo_log (entries : Table EntryRow) (world : W) (actor action : String)
    (payload : Option (List (PyKey × PyVal))) (signer : Option Signer) (eventType : String) :
    ∃ r y, solo answers 0 (Ledger.log actor action payload signer eventType)
        ⟨entriesOnly entries, entriesOnly entries, false, world⟩ = some (r, y) ∧
      match r with
      | .ok _ => ∃ row, Follows entries.rows row ∧ y.committed.entries.rows = entries.rows ++ [row]
      | .error _ => y.committed.entries.rows = entries.rows := by
  let x : Solo Database W := ⟨entriesOnly entries, entriesOnly entries, false, world⟩
  have hdb : solo answers 0 (requireDb : Action L ConnId) x = some (.ok 0, x) := rfl
  rw [Ledger.log, solo_ok_bind hdb, solo_withLock rfl]
  have hselect (y : Solo Database W) : solo answers 0 (Prog.select 0 : Action L Database) y = some (.ok y.view, y) := by
    simp [Prog.select, solo]
  rw [solo_ok_bind (hselect _), utcNowIso, now]
  simp only [bind_assoc]
  let x' : Solo Database W := ⟨entriesOnly entries, entriesOnly entries, true, (answers Request.now world).2⟩
  have hclock : solo answers 0 (Prog.external Request.now : Action L UtcTime) { x with locked := true } =
      some ((answers Request.now world).1, x') := rfl
  cases hnow : (answers Request.now world).1 with
  | error e =>
    rw [solo_error_bind (hclock.trans (by rw [hnow]))]
    exact ⟨.error e, { x' with locked := false }, rfl, rfl⟩
  | ok time =>
    rw [solo_ok_bind (hclock.trans (by rw [hnow]))]
    cases hcanon : canonicalJson (PyVal.dict (payload.getD [])) with
    | error e => exact ⟨.error e, { x' with locked := false }, rfl, rfl⟩
    | ok text =>
      let row := entryAfter entries.last? (strftime time.civil) actor action eventType text signer
      have hid : row.entryId = tipId entries.rows + 1 := entryAfter_entryId ..
      have habove : ∀ r ∈ entries.rows, key r < key row := by
        intro r hr
        have hle := le_tipId entries r hr
        show r.entryId < row.entryId
        omega
      obtain ⟨entries', hinsert, hrows⟩ := Table.insert_of_forall_lt habove
      have hexec : exec (Statement.insertEntry row) (entriesOnly entries) = .ok (entriesOnly entries', row.entryId) := by
        change Database.execute _ _ = _
        simp only [Database.execute, entriesOnly, hinsert]
      have hexecute : solo answers 0 (Prog.execute 0 (.insertEntry row) : Action L ℤ) x' =
          some (.ok row.entryId, { x' with view := entriesOnly entries' }) := by
        simp only [Prog.execute, solo, x', hexec, if_true]
      have hcommit (y : Solo Database W) : solo answers 0 (Prog.commit 0 : Action L Unit) y =
          some (.ok (), { y with committed := y.view }) := by
        simp only [Prog.commit, solo, if_true]
      let e := loggedEntry row (PyVal.dict (payload.getD []))
      let y : Solo Database W := { x' with view := entriesOnly entries', committed := entriesOnly entries' }
      have hbody : solo answers 0 (do
          let _ ← Prog.execute 0 (.insertEntry row)
          Prog.commit 0
          return e : Action L LedgerEntry) x' = some (.ok e, y) :=
        (solo_ok_bind hexecute).trans (solo_ok_bind (hcommit _))
      refine ⟨.ok e, { y with locked := false }, congrArg (Option.map _) hbody, row, ⟨habove, entryAfter_previousHash .., rfl⟩, hrows⟩

end Log
section Sessions

variable (answers : Answers Request (Reply L) PyError W) {legacy : List LegacyRow} {logged : List EntryRow}
variable {s : Session W}

/-- The file holds the legacy rows, migrated, and then the logged ones, each chained to the row before it. -/
structure Kept (legacy : List LegacyRow) (logged : List EntryRow) (s : Session W) : Prop where
  tables : s.file.tables = allTables (entriesTable (legacy.map LegacyRow.migrated ++ logged))
  sorted : (legacy.map LegacyRow.migrated ++ logged).Pairwise (fun a b => key a < key b)
  linked : Linked EntryRow.previousHash EntryRow.entryHash (tipEntryHash (legacy.map LegacyRow.migrated)) logged
  hashed : ∀ r ∈ logged, r.entryHash = recomputed r

omit [IsoTime.Platform] in
theorem Kept.append {row : EntryRow} (h : Kept legacy logged s)
    (hrow : Follows (legacy.map LegacyRow.migrated ++ logged) row) (world : W) : Kept legacy (logged ++ [row])
      { s with
        file := s.file.setTable "entries" (entriesTable (legacy.map LegacyRow.migrated ++ (logged ++ [row])))
        world := world } := by
  constructor
  · exact tablesOf_setEntries _ h.tables
  · rw [← List.append_assoc]
    refine List.pairwise_append.mpr ⟨h.sorted, List.pairwise_singleton _ _, ?_⟩
    intro r hr q hq
    rw [List.mem_singleton.mp hq]
    exact hrow.above r hr
  · rw [linked_concat, ← tipHash_append]
    exact ⟨h.linked, hrow.previousHash⟩
  · intro r hr
    rcases List.mem_append.mp hr with hr | hr
    · exact h.hashed r hr
    · rw [List.mem_singleton.mp hr]
      exact hrow.hashed

/-- Each call keeps the rows there are; a `log` that returns adds one. -/
theorem Kept.call (h : Kept legacy logged s) (c : SessionCall) :
    ∃ r s' added, s.call answers c = some (r, s') ∧ Kept legacy (logged ++ added) s' ∧
      added.length = (returnedEntries [r]).length := by
  cases c with
  | close =>
    refine ⟨_, _, [], rfl, ?_, rfl⟩
    rw [List.append_nil]
    exact ⟨h.tables, h.sorted, h.linked, h.hashed⟩
  | init =>
    by_cases hopen : s.opened
    · refine ⟨_, _, [], if_pos hopen, ?_, rfl⟩
      rw [List.append_nil]
      exact h
    · have hcolumns : ∀ c ∈ entryColumns, c ∈ (entriesTable (legacy.map LegacyRow.migrated ++ logged)).columns := by
        show ∀ c ∈ entryColumns, c ∈ migratedColumns
        decide
      have hends := ends_init_of_columns (P := fun _ => True) hcolumns (fun _ _ _ => trivial) (fun _ hσ => hσ) h.tables
      obtain ⟨file, hfile, htables⟩ := hends.complete
      refine ⟨.ok none, { s with file := file, opened := true }, [], ?_, ?_, rfl⟩
      · simp only [Session.call, if_neg hopen, hfile, Option.map_some]
      · rw [List.append_nil]
        exact ⟨htables, h.sorted, h.linked, h.hashed⟩
  | log actor action payload signer eventType =>
    by_cases hopen : s.opened
    · have htable : s.file.tables "entries" = some (entriesTable (legacy.map LegacyRow.migrated ++ logged)) := by
        rw [h.tables]
        rfl
      have hread := readTable_entriesTable h.sorted
      obtain ⟨r, y, hsolo, hr⟩ :=
        solo_log answers ⟨_, 0, h.sorted⟩ s.world actor action payload signer eventType
      have hcall : s.call answers (.log actor action payload signer eventType) = some (r.map some, { s with
          file := s.file.setTable "entries"
            (writeRows (entriesTable (legacy.map LegacyRow.migrated ++ logged)) y.committed.entries.rows)
          world := y.world }) := by
        simp only [Session.call, if_pos hopen, htable, hread, Option.bind_eq_bind, Option.bind_some, hsolo]
        rfl
      cases r with
      | error e =>
        refine ⟨_, _, [], hcall, ?_, rfl⟩
        rw [List.append_nil]
        refine ⟨?_, h.sorted, h.linked, h.hashed⟩
        rw [hr]
        exact tablesOf_setEntries _ h.tables
      | ok e =>
        obtain ⟨row, hrow, hrows⟩ := hr
        refine ⟨_, _, [row], hcall, ?_, rfl⟩
        rw [hrows, List.append_assoc]
        exact h.append hrow y.world
    · refine ⟨_, _, [], if_neg hopen, ?_, rfl⟩
      rw [List.append_nil]
      exact h

theorem Kept.calls (h : Kept legacy logged s) (cs : List SessionCall) :
    ∃ rs s' added, Session.calls answers cs s = some (rs, s') ∧ Kept legacy (logged ++ added) s' ∧
      added.length = (returnedEntries rs).length := by
  induction cs generalizing s logged with
  | nil =>
    refine ⟨[], s, [], rfl, ?_, rfl⟩
    rw [List.append_nil]
    exact h
  | cons c cs ih =>
    obtain ⟨r, s₁, added₁, hcall, h₁, hlen₁⟩ := h.call answers c
    obtain ⟨rs, s₂, added₂, hcalls, h₂, hlen₂⟩ := ih h₁
    refine ⟨r :: rs, s₂, added₁ ++ added₂, ?_, ?_, ?_⟩
    · simp only [Session.calls, hcall, Option.bind_eq_bind, Option.bind_some, hcalls]
      rfl
    · rw [← List.append_assoc]
      exact h₂
    · have hsplit : returnedEntries (r :: rs) = returnedEntries [r] ++ returnedEntries rs :=
        List.filterMap_append (l := [r])
      rw [hsplit, List.length_append, List.length_append, hlen₁, hlen₂]

omit [IsoTime.Platform] in
/-- The walk over the file is decided by the walk over the legacy rows. -/
theorem Kept.verifyChain (h : Kept legacy logged s) :
    ∃ r, s.verifyChain answers = some r ∧
      (walkLegacy genesisPreviousHash legacy = true → r = .ok (legacy.length + logged.length)) ∧
      (walkLegacy genesisPreviousHash legacy = false → ∃ e, r = .error e) := by
  have htable : s.file.tables "entries" = some (entriesTable (legacy.map LegacyRow.migrated ++ logged)) := by
    rw [h.tables]
    rfl
  have hverify : s.verifyChain answers =
      some (EntryChain.verifyChain none (legacy.map LegacyRow.migrated ++ logged)) := by
    simp only [Session.verifyChain, htable, readTable_entriesTable h.sorted, Option.bind_eq_bind, Option.bind_some]
    rfl
  refine ⟨_, hverify, fun haccept => ?_, fun hreject => ?_⟩
  · obtain ⟨hlinked, hhashed⟩ := verifyEntries_ok.mp (walkLegacy_iff.mp haccept)
    rw [verifyChain_none, List.length_append, List.length_map]
    refine ⟨rfl, linked_append.mpr ⟨hlinked, h.linked⟩, fun r hr => ?_⟩
    rcases List.mem_append.mp hr with hr | hr
    · exact (hhashed r hr).1
    · exact h.hashed r hr
  · cases hwalk : EntryChain.verifyChain none (legacy.map LegacyRow.migrated ++ logged) with
    | error e => exact ⟨e, rfl⟩
    | ok n =>
      have hchained : Chained (legacy.map LegacyRow.migrated) :=
        (verifyChain_ok hwalk).2.initial (List.prefix_append _ _)
      have haccept : walkLegacy genesisPreviousHash legacy = true :=
        walkLegacy_iff.mpr (verifyEntries_ok.mpr
          ⟨hchained.linked, fun r hr => ⟨hchained.hashed r hr, signed_none r⟩⟩)
      rw [haccept] at hreject
      cases hreject

end Sessions

/-- Opening a v0.1.0 database, after any number of interrupted openings, leaves the tables that one
uninterrupted opening leaves; whatever is closed, opened and logged then, the legacy rows stay as
they were migrated, the logged rows follow them, and `verify_chain` accepts the file, counting
every row, exactly where the v0.1.0 walk accepts the legacy table. -/
theorem migration_preserves_verification (legacy : Table LegacyRow) (indexes : List String) (stops : List ℕ)
    (answers : Answers Request (Reply L) PyError W) (world : W) (calls : List SessionCall) :
    ∃ once file results s logged r,
      Migration.init.complete (legacyFile legacy.rows indexes) = some once ∧
      Migration.init.complete (Migration.init.attempts stops (legacyFile legacy.rows indexes)) = some file ∧
      file.tables = once.tables ∧
      Session.calls answers calls ⟨file, true, world⟩ = some (results, s) ∧
      s.file.tables "entries" = some
        ⟨legacyColumns ++ ["event_type"] ++ ["format_version"], (legacy.rows.map fun row =>
          Function.update (Function.update row.values "event_type" (.text "request")) "format_version" (.int 1)) ++
          List.map entryValues logged⟩ ∧
      logged.length = (returnedEntries results).length ∧
      s.verifyChain answers = some r ∧
      (walkLegacy genesisPreviousHash legacy.rows = true →
        r = .ok (legacy.rows.length + (returnedEntries results).length)) ∧
      (walkLegacy genesisPreviousHash legacy.rows = false → ∃ e, r = .error e) := by
  have hlegacy : Partial legacy.rows (legacyFile legacy.rows indexes) := by
    refine ⟨_, [], .legacy, ?_⟩
    funext name
    simp [legacyFile, tablesOf]
  obtain ⟨once, honce, htablesOnce⟩ := (ends_init hlegacy).complete
  have hattempts := Script.attempts_keep (fun _ h => ends_init h) stops hlegacy
  obtain ⟨file, hfile, htables⟩ := (ends_init hattempts).complete
  have hsorted : (legacy.rows.map LegacyRow.migrated ++ []).Pairwise (fun a b => key a < key b) := by
    rw [List.append_nil, List.pairwise_map]
    exact legacy.sorted
  have hkept : Kept legacy.rows [] (⟨file, true, world⟩ : Session W) := by
    refine ⟨?_, hsorted, linked_nil, by simp⟩
    rw [List.append_nil, ← migratedTable_eq]
    exact htables
  obtain ⟨results, s, logged, hcalls, hs, hlen⟩ := hkept.calls answers calls
  obtain ⟨r, hr, haccept, hreject⟩ := hs.verifyChain answers
  have hentries : s.file.tables "entries" = some (entriesTable (legacy.rows.map LegacyRow.migrated ++ logged)) := by
    rw [hs.tables]
    rfl
  refine ⟨once, file, results, s, logged, r, honce, hfile, htables.trans htablesOnce.symm, hcalls, ?_, hlen, hr,
    fun h => ?_, hreject⟩
  · rw [hentries, entriesTable, List.map_append, List.map_map]
    simp only [Function.comp_def, entryValues_migrated]
    rfl
  · rw [← hlen]
    exact haccept h

end NexusCone.MigratedSessions
