import NexusCone.EntryChain
import NexusCone.SqlScripts

/-!
# Opening a v0.1.0 database

The statements of `init` over a file whose `entries` table has nine columns. Wherever `init` stops,
the rows read the same, as rows of the first format; a complete `init` after any number of
interrupted ones leaves the tables that one alone would have left.
-/
namespace NexusCone.Migration
open JsonText PyValue Canonical KeyedTable LedgerSchema EntryChain SqlScripts

def entryColumns : List String :=
  ["entry_id", "timestamp", "actor", "action", "event_type", "format_version", "payload", "previous_hash",
    "entry_hash", "signature", "signing_key_id"]

def anchorColumns : List String :=
  ["anchor_id", "chain_head_hash", "chain_head_entry_id", "ots_proof_blob", "submitted_at", "calendar_servers",
    "confirmed_at", "bitcoin_block_height", "bitcoin_block_hash", "tst_blob", "tsa_url", "tsa_gen_time"]

def witnessColumns : List String := ["witness_id", "label", "public_key_hex", "role", "created_at", "retired_at"]

def attestationColumns : List String :=
  ["attestation_id", "witness_id", "chain_head_entry_id", "chain_head_hash", "signed_at", "prev_attestation_hash",
    "attestation_hash", "signature_hex"]

/-- `ALTER TABLE ... ADD COLUMN` for each of the columns that `table_info` did not list. -/
def addMissing (table : String) (columns : List String) : List (String × Value) → Script → Script
  | [], next => next
  | (column, default) :: rest, next =>
    if column ∈ columns then addMissing table columns rest next
    else .statement (.addColumn table column default) (addMissing table columns rest next)

def migrateLegacyColumns (next : Script) : Script :=
  .tableInfo "entries" fun columns =>
    addMissing "entries" columns [("event_type", .text eventTypeRequest), ("format_version", .int 1)] next

def migrateAnchorsColumns (next : Script) : Script :=
  .tableInfo "anchors" fun columns =>
    addMissing "anchors" columns [("tst_blob", .null), ("tsa_url", .null), ("tsa_gen_time", .null)] next

def ensureAnchorsTable (next : Script) : Script :=
  .statement (.createTable "anchors" anchorColumns) <|
  .statement (.createIndex "idx_anchors_chain_head" "anchors" ["chain_head_hash"]) <|
  .statement (.createIndex "idx_anchors_unconfirmed" "anchors" ["confirmed_at"]) <|
  migrateAnchorsColumns next

def ensureWitnessesTables (next : Script) : Script :=
  .statement (.createTable "witnesses" witnessColumns) <|
  .statement (.createIndex "idx_witnesses_active" "witnesses" ["retired_at"]) <|
  .statement (.createTable "witness_attestations" attestationColumns) <|
  .statement (.createIndex "idx_witness_attestations_witness" "witness_attestations" ["witness_id", "signed_at"]) <|
  .statement (.createIndex "idx_witness_attestations_chain_head" "witness_attestations" ["chain_head_entry_id"]) <|
  next

/-- What `init` does on the connection it has opened. -/
def init : Script :=
  .statement (.createTable "entries" entryColumns) <|
  migrateLegacyColumns <|
  .statement (.createIndex "idx_entries_actor" "entries" ["actor"]) <|
  .statement (.createIndex "idx_entries_ts" "entries" ["timestamp"]) <|
  .statement (.createIndex "idx_entries_event_type" "entries" ["event_type"]) <|
  ensureAnchorsTable <|
  ensureWitnessesTables .done

/-- A row of the v0.1.0 table. -/
structure LegacyRow where
  entryId : ℤ
  timestamp : String
  actor : String
  action : String
  payload : String
  previousHash : String
  entryHash : String
  signature : Option String
  signingKeyId : Option String

instance : Keyed LegacyRow := ⟨LegacyRow.entryId⟩

def legacyColumns : List String :=
  ["entry_id", "timestamp", "actor", "action", "payload", "previous_hash", "entry_hash", "signature",
    "signing_key_id"]

def nullable : Option String → Value
  | some s => .text s
  | none => .null

def LegacyRow.values (row : LegacyRow) : String → Value
  | "entry_id" => .int row.entryId
  | "timestamp" => .text row.timestamp
  | "actor" => .text row.actor
  | "action" => .text row.action
  | "payload" => .text row.payload
  | "previous_hash" => .text row.previousHash
  | "entry_hash" => .text row.entryHash
  | "signature" => nullable row.signature
  | "signing_key_id" => nullable row.signingKeyId
  | _ => .null

def legacyTable (rows : List LegacyRow) : SqlTable := ⟨legacyColumns, rows.map LegacyRow.values⟩

/-- A v0.1.0 database, with whatever indexes. -/
def legacyFile (rows : List LegacyRow) (indexes : List String) : Schema :=
  ⟨fun table => if table = "entries" then some (legacyTable rows) else none, indexes⟩

def readInt : Value → Option ℤ
  | .int n => some n
  | _ => none

def readText : Value → Option String
  | .text s => some s
  | _ => none

def readNullable : Value → Option (Option String)
  | .null => some none
  | .text s => some (some s)
  | _ => none

/-- A row as `verify_chain` reads it: the columns of the second format where the table has them. -/
def readEntry (columns : List String) (values : String → Value) : Option EntryRow := do
  let entryId ← readInt (values "entry_id")
  let timestamp ← readText (values "timestamp")
  let actor ← readText (values "actor")
  let action ← readText (values "action")
  let eventType ← if "event_type" ∈ columns then readText (values "event_type") else some eventTypeRequest
  let formatVersion ← if "format_version" ∈ columns then readInt (values "format_version") else some 1
  let payload ← readText (values "payload")
  let previousHash ← readText (values "previous_hash")
  let entryHash ← readText (values "entry_hash")
  let signature ← readNullable (values "signature")
  let signingKeyId ← readNullable (values "signing_key_id")
  return ⟨entryId, timestamp, actor, action, eventType, formatVersion, payload, previousHash, entryHash, signature,
    signingKeyId⟩

def readEntries (t : SqlTable) : Option (List EntryRow) := t.rows.mapM (readEntry t.columns)

/-- A legacy row as a row of the first format. -/
def LegacyRow.migrated (row : LegacyRow) : EntryRow :=
  ⟨row.entryId, row.timestamp, row.actor, row.action, eventTypeRequest, 1, row.payload, row.previousHash,
    row.entryHash, row.signature, row.signingKeyId⟩

section Rows

variable {rows : List LegacyRow} {t : SqlTable}

/-- The entries table after both `ALTER` statements. -/
def migratedTable (rows : List LegacyRow) : SqlTable :=
  ((legacyTable rows).addColumn "event_type" (.text eventTypeRequest)).addColumn "format_version" (.int 1)

/-- The entries table before, between and after the two `ALTER` statements. -/
inductive Stage (rows : List LegacyRow) : SqlTable → Prop
  | legacy : Stage rows (legacyTable rows)
  | eventType : Stage rows ((legacyTable rows).addColumn "event_type" (.text eventTypeRequest))
  | migrated : Stage rows (migratedTable rows)

theorem mapM_map_eq_some {α β γ : Type} {f : β → Option γ} {v : α → β} {g : α → γ} (h : ∀ a, f (v a) = some (g a))
    (xs : List α) : (xs.map v).mapM f = some (xs.map g) := by
  induction xs with
  | nil => rfl
  | cons x xs ih => simp [h, ih]

theorem readNullable_nullable (s : Option String) : readNullable (nullable s) = some s := by
  cases s <;> rfl

end Rows

section Init

def otherTables : List (String × List String) :=
  [("anchors", anchorColumns), ("witnesses", witnessColumns), ("witness_attestations", attestationColumns)]

/-- The entries table, those of the other tables that have been created, all empty, and no more. -/
def tablesOf (t : SqlTable) (created : List String) (name : String) : Option SqlTable :=
  if name = "entries" then some t
  else if name ∈ created then (otherTables.lookup name).map fun columns => ⟨columns, []⟩ else none

def allTables (t : SqlTable) : String → Option SqlTable :=
  tablesOf t ["witness_attestations", "witnesses", "anchors"]

variable {t t' : SqlTable} {created : List String} {name : String} {columns : List String} {σ : Schema}
variable {P Q : Schema → Prop}

theorem tablesOf_all (hanchors : "anchors" ∈ created) (hwitnesses : "witnesses" ∈ created)
    (hattestations : "witness_attestations" ∈ created) : tablesOf t created = allTables t := by
  funext name
  unfold allTables tablesOf
  by_cases ha : name = "anchors"
  · subst ha; simp [hanchors]
  by_cases hw : name = "witnesses"
  · subst hw; simp [hwitnesses]
  by_cases hx : name = "witness_attestations"
  · subst hx; simp [hattestations]
  have hlookup : otherTables.lookup name = none := by
    simp [otherTables, List.lookup_cons, beq_false_of_ne ha, beq_false_of_ne hw, beq_false_of_ne hx]
  simp [hlookup, ha, hw, hx]

theorem tablesOf_setEntries (t' : SqlTable) (hσ : σ.tables = tablesOf t created) :
    (σ.setTable "entries" t').tables = tablesOf t' created := by
  funext name
  simp only [Schema.setTable, hσ, tablesOf]
  by_cases hn : name = "entries"
  · subst hn; simp
  · simp [hn, tablesOf]

theorem tablesOf_create (name : String) (hσ : σ.tables = tablesOf t created) (hn : name ≠ "entries")
    (hlookup : otherTables.lookup name = some columns) :
    (σ.tables name = none ∨ σ.tables name = some ⟨columns, []⟩) ∧
      (σ.setTable name ⟨columns, []⟩).tables = tablesOf t (name :: created) := by
  constructor
  · rw [hσ, tablesOf, if_neg hn, hlookup]
    split
    · exact .inr rfl
    · exact .inl rfl
  · funext other
    by_cases ho : other = name
    · subst ho
      simp [Schema.setTable, tablesOf, hn, hlookup]
    · simp only [Schema.setTable, Function.update_of_ne ho, hσ, tablesOf, List.mem_cons, ho, false_or]

theorem tablesOf_created (hσ : σ.tables = tablesOf t (name :: created)) (hn : name ≠ "entries")
    (hlookup : otherTables.lookup name = some columns) : σ.tables name = some ⟨columns, []⟩ := by
  rw [hσ, tablesOf, if_neg hn, if_pos List.mem_cons_self, hlookup]
  rfl

theorem ends_ensureWitnessesTables (hP : ∀ σ created, σ.tables = tablesOf t created → P σ)
    (hQ : ∀ σ, σ.tables = tablesOf t ("witness_attestations" :: "witnesses" :: created) → Q σ)
    (hσ : σ.tables = tablesOf t created) : (ensureWitnessesTables .done).Ends P Q σ := by
  obtain ⟨habsent, h₁⟩ := tablesOf_create "witnesses" hσ (by decide) rfl
  refine Script.Ends.createTable (hP _ _ hσ) habsent ?_
  have hwitnesses := tablesOf_created h₁ (by decide) rfl
  refine Script.Ends.createIndex (hP _ _ h₁) hwitnesses (by decide) fun σ₂ h₂ => ?_
  rw [h₁] at h₂
  obtain ⟨habsent, h₃⟩ := tablesOf_create "witness_attestations" h₂ (by decide) rfl
  refine Script.Ends.createTable (hP _ _ h₂) habsent ?_
  have hattestations := tablesOf_created h₃ (by decide) rfl
  refine Script.Ends.createIndex (hP _ _ h₃) hattestations (by decide) fun σ₄ h₄ => ?_
  refine Script.Ends.createIndex (hP _ _ (h₄.trans h₃)) (h₄ ▸ hattestations) (by decide) fun σ₅ h₅ => ?_
  have hend := (h₅.trans h₄).trans h₃
  exact ⟨hP _ _ hend, hQ _ hend⟩

theorem ends_ensureAnchorsTable {next : Script} (hP : ∀ σ created, σ.tables = tablesOf t created → P σ)
    (hnext : ∀ σ, σ.tables = tablesOf t ("anchors" :: created) → next.Ends P Q σ)
    (hσ : σ.tables = tablesOf t created) : (ensureAnchorsTable next).Ends P Q σ := by
  obtain ⟨habsent, h₁⟩ := tablesOf_create "anchors" hσ (by decide) rfl
  refine Script.Ends.createTable (hP _ _ hσ) habsent ?_
  have hanchors := tablesOf_created h₁ (by decide) rfl
  refine Script.Ends.createIndex (hP _ _ h₁) hanchors (by decide) fun σ₂ h₂ => ?_
  refine Script.Ends.createIndex (hP _ _ (h₂.trans h₁)) (h₂ ▸ hanchors) (by decide) fun σ₃ h₃ => ?_
  -- The table has been created with the columns that the migration looks for.
  have hcolumns : σ₃.columns "anchors" = anchorColumns := by
    rw [Schema.columns, h₃, h₂, hanchors]
    rfl
  show (addMissing "anchors" (σ₃.columns "anchors") _ next).Ends P Q σ₃
  rw [hcolumns]
  exact hnext σ₃ ((h₃.trans h₂).trans h₁)

/-- The statements after the migration, over an entries table that has every column. -/
theorem ends_afterMigration (ht : ∀ c ∈ entryColumns, c ∈ t.columns)
    (hP : ∀ σ created, σ.tables = tablesOf t created → P σ) (hQ : ∀ σ, σ.tables = allTables t → Q σ)
    (hσ : σ.tables = tablesOf t created) :
    (Script.statement (.createIndex "idx_entries_actor" "entries" ["actor"]) <|
      .statement (.createIndex "idx_entries_ts" "entries" ["timestamp"]) <|
      .statement (.createIndex "idx_entries_event_type" "entries" ["event_type"]) <|
      ensureAnchorsTable <| ensureWitnessesTables .done).Ends P Q σ := by
  have hcolumn {c : String} (h : c ∈ entryColumns) : ∀ d ∈ [c], d ∈ t.columns := by
    intro d hd
    rw [List.mem_singleton.mp hd]
    exact ht c h
  have hentries {σ : Schema} (h : σ.tables = tablesOf t created) : σ.tables "entries" = some t := by
    rw [h]
    rfl
  refine Script.Ends.createIndex (hP _ _ hσ) (hentries hσ) (hcolumn (by decide)) fun σ₁ h₁ => ?_
  rw [hσ] at h₁
  refine Script.Ends.createIndex (hP _ _ h₁) (hentries h₁) (hcolumn (by decide)) fun σ₂ h₂ => ?_
  rw [h₁] at h₂
  refine Script.Ends.createIndex (hP _ _ h₂) (hentries h₂) (hcolumn (by decide)) fun σ₃ h₃ => ?_
  rw [h₂] at h₃
  refine ends_ensureAnchorsTable hP (fun σ₄ h₄ => ?_) h₃
  refine ends_ensureWitnessesTables hP (fun σ₅ h₅ => hQ σ₅ ?_) h₄
  rw [h₅, tablesOf_all (by simp) (by simp) (by simp)]

/-- Over an entries table that has every column, `init` only creates what is missing. -/
theorem ends_init_of_columns (ht : ∀ c ∈ entryColumns, c ∈ t.columns)
    (hP : ∀ σ created, σ.tables = tablesOf t created → P σ) (hQ : ∀ σ, σ.tables = allTables t → Q σ)
    (hσ : σ.tables = tablesOf t created) : init.Ends P Q σ := by
  have hentries : σ.tables "entries" = some t := by
    rw [hσ]
    rfl
  have hcolumns : σ.columns "entries" = t.columns := by
    rw [Schema.columns, hentries]
    rfl
  refine ⟨hP σ created hσ, σ, exec_createTable_of_some hentries, ?_⟩
  show (addMissing "entries" (σ.columns "entries") _ _).Ends _ _ σ
  have heventType : "event_type" ∈ t.columns := ht _ (by decide)
  have hformatVersion : "format_version" ∈ t.columns := ht _ (by decide)
  rw [hcolumns, addMissing, if_pos heventType, addMissing, if_pos hformatVersion]
  exact ends_afterMigration ht hP hQ hσ

/-- A file that `init` may find: the rows at some stage of the migration. -/
def Partial (rows : List LegacyRow) (σ : Schema) : Prop :=
  ∃ t created, Stage rows t ∧ σ.tables = tablesOf t created

/-- From any such file `init` comes to its end, and wherever it stops it leaves such a file. -/
theorem ends_init {rows : List LegacyRow} (h : Partial rows σ) :
    init.Ends (Partial rows) (fun σ => σ.tables = allTables (migratedTable rows)) σ := by
  obtain ⟨t, created, hstage, hσ⟩ := h
  have hkept {t : SqlTable} (hstage : Stage rows t) (σ : Schema) (created : List String)
      (h : σ.tables = tablesOf t created) : Partial rows σ := ⟨t, created, hstage, h⟩
  have hentries {σ : Schema} {t : SqlTable} (h : σ.tables = tablesOf t created) : σ.tables "entries" = some t := by
    rw [h]
    rfl
  have hcomplete : ∀ c ∈ entryColumns, c ∈ (migratedTable rows).columns := by
    show ∀ c ∈ entryColumns, c ∈ legacyColumns ++ ["event_type"] ++ ["format_version"]
    decide
  have heventType : "event_type" ∉ legacyColumns := by decide
  have hformatVersion : "format_version" ∉ legacyColumns ++ ["event_type"] := by decide
  have hrest {σ : Schema} (h : σ.tables = tablesOf (migratedTable rows) created) :=
    ends_afterMigration (Q := fun σ => σ.tables = allTables (migratedTable rows)) (t := migratedTable rows)
      hcomplete (hkept .migrated) (fun _ h => h) h
  refine ⟨hkept hstage σ created hσ, σ, exec_createTable_of_some (hentries hσ), ?_⟩
  show (addMissing "entries" (σ.columns "entries") _ _).Ends _ _ σ
  have hcolumns : σ.columns "entries" = t.columns := by
    rw [Schema.columns, hentries hσ]
    rfl
  rw [hcolumns]
  cases hstage with
  | legacy =>
    refine ⟨hkept .legacy σ created hσ, _, exec_addColumn (hentries hσ) heventType, ?_⟩
    have h₁ := tablesOf_setEntries
      ((legacyTable rows).addColumn "event_type" (.text eventTypeRequest)) hσ
    refine ⟨hkept .eventType _ created h₁, _, exec_addColumn (hentries h₁) hformatVersion, ?_⟩
    exact hrest (tablesOf_setEntries _ h₁)
  | eventType =>
    refine ⟨hkept .eventType σ created hσ, _, exec_addColumn (hentries hσ) hformatVersion, ?_⟩
    exact hrest (tablesOf_setEntries _ hσ)
  | migrated => exact hrest hσ

end Init
end NexusCone.Migration
