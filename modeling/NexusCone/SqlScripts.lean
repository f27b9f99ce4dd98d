import Mathlib.Data.Int.Notation
import Mathlib.Data.List.Basic
import Mathlib.Logic.Function.Basic

/-!
# Schema changes and scripts that may stop

Tables with named columns, the statements that create tables, columns and indexes, and scripts
of such statements. Each statement is durable when it has run, so a script that is interrupted
leaves what its first statements have made.
-/
namespace NexusCone.SqlScripts

inductive Value where
  | null
  | int (n : ℤ)
  | text (s : String)
  | blob (bytes : List UInt8)
  deriving DecidableEq

/-- A row's values under names that are no columns mean nothing. -/
structure SqlTable where
  columns : List String
  rows : List (String → Value)

structure Schema where
  tables : String → Option SqlTable
  indexes : List String

/-- Tables and indexes are created where they are missing. -/
inductive Ddl where
  | createTable (table : String) (columns : List String)
  | addColumn (table column : String) (default : Value)
  | createIndex (index table : String) (columns : List String)

/-- Every row gets the default in the new column. -/
def SqlTable.addColumn (t : SqlTable) (column : String) (default : Value) : SqlTable :=
  ⟨t.columns ++ [column], t.rows.map fun r => Function.update r column default⟩

def Schema.setTable (σ : Schema) (table : String) (t : SqlTable) : Schema :=
  { σ with tables := Function.update σ.tables table (some t) }

/-- `none` is the error that ends the script. -/
def Ddl.exec : Ddl → Schema → Option Schema
  | .createTable table columns, σ =>
    match σ.tables table with
    | some _ => some σ
    | none => some (σ.setTable table ⟨columns, []⟩)
  | .addColumn table column default, σ =>
    match σ.tables table with
    | some t => if column ∈ t.columns then none else some (σ.setTable table (t.addColumn column default))
    | none => none
  | .createIndex index table columns, σ =>
    if index ∈ σ.indexes then some σ
    else match σ.tables table with
      | some t => if ∀ c ∈ columns, c ∈ t.columns then some { σ with indexes := index :: σ.indexes } else none
      | none => none

/-- `PRAGMA table_info`. -/
def Schema.columns (σ : Schema) (table : String) : List String :=
  ((σ.tables table).map SqlTable.columns).getD []

inductive Script where
  | done
  | statement (s : Ddl) (next : Script)
  | tableInfo (table : String) (next : List String → Script)

namespace Script

/-- The script stops after `n` statements, or at its first error. -/
def attempt : Script → ℕ → Schema → Schema
  | .done, _, σ => σ
  | .tableInfo table next, n, σ => (next (σ.columns table)).attempt n σ
  | .statement _ _, 0, σ => σ
  | .statement s next, n + 1, σ =>
    match s.exec σ with
    | some σ' => next.attempt n σ'
    | none => σ

def complete : Script → Schema → Option Schema
  | .done, σ => some σ
  | .tableInfo table next, σ => (next (σ.columns table)).complete σ
  | .statement s next, σ =>
    match s.exec σ with
    | some σ' => next.complete σ'
    | none => none

/-- The script comes to its end; wherever it may stop before, `P` holds, and at its end `Q`. -/
def Ends (P Q : Schema → Prop) : Script → Schema → Prop
  | .done, σ => P σ ∧ Q σ
  | .tableInfo table next, σ => (next (σ.columns table)).Ends P Q σ
  | .statement s next, σ => P σ ∧ ∃ σ', s.exec σ = some σ' ∧ next.Ends P Q σ'

variable {P Q : Schema → Prop} {script next : Script} {σ σ' : Schema}

theorem Ends.attempt (h : script.Ends P Q σ) (n : ℕ) : P (script.attempt n σ) := by
  induction script generalizing n σ with
  | done => exact h.1
  | tableInfo table next ih => exact ih _ h n
  | statement s next ih =>
    cases n with
    | zero => exact h.1
    | succ n =>
      obtain ⟨-, σ', hexec, h⟩ := h
      simp only [Script.attempt, hexec]
      exact ih h n

theorem Ends.complete (h : script.Ends P Q σ) : ∃ σ', script.complete σ = some σ' ∧ Q σ' := by
  induction script generalizing σ with
  | done => exact ⟨σ, rfl, h.2⟩
  | tableInfo table next ih => exact ih _ h
  | statement s next ih =>
    obtain ⟨-, σ', hexec, h⟩ := h
    simp only [Script.complete, hexec]
    exact ih h

/-- Attempts one after the other, each stopped somewhere. -/
def attempts (script : Script) (stops : List ℕ) (σ : Schema) : Schema :=
  stops.foldl (fun σ n => script.attempt n σ) σ

theorem attempts_keep (h : ∀ σ, P σ → script.Ends P Q σ) (stops : List ℕ) (hσ : P σ) :
    P (script.attempts stops σ) := by
  induction stops generalizing σ with
  | nil => exact hσ
  | cons n stops ih => exact ih ((h σ hσ).attempt n)

end Script

section Statements

variable {σ : Schema} {table : String} {t : SqlTable} {columns : List String}

/-- Creating a table that is missing or already as it would be created. -/
theorem exec_createTable (h : σ.tables table = none ∨ σ.tables table = some ⟨columns, []⟩) :
    (Ddl.createTable table columns).exec σ = some (σ.setTable table ⟨columns, []⟩) := by
  rcases h with hnone | hsome
  · simp only [Ddl.exec, hnone]
  · have hsame : σ.setTable table ⟨columns, []⟩ = σ := by
      rw [Schema.setTable, ← hsome, Function.update_eq_self]
    simp only [Ddl.exec, hsome, hsame]

theorem exec_createTable_of_some (h : σ.tables table = some t) :
    (Ddl.createTable table columns).exec σ = some σ := by
  simp only [Ddl.exec, h]

theorem exec_addColumn {column : String} {default : Value} (h : σ.tables table = some t) (hc : column ∉ t.columns) :
    (Ddl.addColumn table column default).exec σ = some (σ.setTable table (t.addColumn column default)) := by
  simp only [Ddl.exec, h, if_neg hc]

/-- An index changes no table. -/
theorem exec_createIndex {index : String} (h : σ.tables table = some t) (hc : ∀ c ∈ columns, c ∈ t.columns) :
    ∃ σ', (Ddl.createIndex index table columns).exec σ = some σ' ∧ σ'.tables = σ.tables := by
  simp only [Ddl.exec, h, if_pos hc]
  split
  · exact ⟨σ, rfl, rfl⟩
  · exact ⟨_, rfl, rfl⟩

end Statements

namespace Script

variable {P Q : Schema → Prop} {next : Script} {σ : Schema} {table : String} {columns : List String}

theorem Ends.createTable (hP : P σ) (h : σ.tables table = none ∨ σ.tables table = some ⟨columns, []⟩)
    (hnext : next.Ends P Q (σ.setTable table ⟨columns, []⟩)) :
    (Script.statement (.createTable table columns) next).Ends P Q σ :=
  ⟨hP, _, exec_createTable h, hnext⟩

theorem Ends.createIndex {index : String} {t : SqlTable} (hP : P σ) (h : σ.tables table = some t)
    (hc : ∀ c ∈ columns, c ∈ t.columns) (hnext : ∀ σ', σ'.tables = σ.tables → next.Ends P Q σ') :
    (Script.statement (.createIndex index table columns) next).Ends P Q σ := by
  obtain ⟨σ', hexec, hsame⟩ := exec_createIndex h hc
  exact ⟨hP, σ', hexec, hnext σ' hsame⟩

end Script
end NexusCone.SqlScripts
