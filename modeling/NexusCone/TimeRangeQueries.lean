import NexusCone.ChainTamperEvidence
import NexusCone.ExceptResults
import NexusCone.IsoBounds
import NexusCone.LedgerRuns
import NexusCone.SoloRun
import NexusCone.VerifierCli

/-!
# Queries for a time range

`get_entries` and `get_witness_attestations` compare the texts of their bounds with the stored ones. They
return the rows of the time range exactly if no row lies in the last unit of a bound that is not written out
to the microsecond, where the texts and the instants are ordered differently.
-/
namespace NexusCone.TimeRangeQueries
open ExceptResults KeyedTable AsyncProgram SoloRun PyValue IsoTime CivilInstants IsoBounds LedgerSchema EntryChain
  WitnessChain TimestampAuthority Ledger LedgerRuns VerifierCli SharedFile ChainTamperEvidence

section Queries

variable [Platform] {L : Libraries}

/-- `column >= ?` and `column <= ?` for the bounds that are given. -/
def inRange (start stop : Option String) (column : String) : Bool :=
  decide ((∀ s ∈ start, s ≤ column) ∧ ∀ s ∈ stop, column ≤ s)

/-- The arguments of `get_entries` and their defaults. -/
structure EntriesQuery where
  actor : Option String := none
  action : Option String := none
  eventType : Option String := none
  start : Option String := none
  stop : Option String := none
  limit : ℤ := 500
  descending : Bool := true

/-- The conditions on the other columns. -/
def EntriesQuery.asks (q : EntriesQuery) (row : EntryRow) : Bool :=
  q.actor.all (row.actor == ·) && q.action.all (row.action == ·) && q.eventType.all (row.eventType == ·)

/-- `ORDER BY key`, `DESC` or `ASC`, of rows in the order of their keys. -/
def ordered {α : Type} (descending : Bool) (rows : List α) : List α := if descending then rows.reverse else rows

/-- Fetch entries with optional filters, ordered by entry_id. -/
def getEntries (q : EntriesQuery) : Action L (List LedgerEntry) := do
  let db ← requireDb
  let rows := (← Prog.select db).entries.rows.filter fun row => q.asks row && inRange q.start q.stop row.timestamp
  Prog.done ((sqlLimit q.limit (ordered q.descending rows)).mapM rowToEntry)

/-- The arguments of `get_witness_attestations` and their defaults. -/
structure AttestationsQuery where
  witnessId : Option ℤ := none
  chainHeadEntryId : Option ℤ := none
  since : Option String := none
  upTo : Option String := none
  limit : ℤ := 500

def AttestationsQuery.asks (q : AttestationsQuery) (row : AttestationRow) : Bool :=
  q.witnessId.all (row.witnessId == ·) && q.chainHeadEntryId.all (row.chainHeadEntryId == ·)

/-- Query witness attestations with optional filters, ordered by attestation_id. -/
def getWitnessAttestations (q : AttestationsQuery) : Action L (List WitnessAttestation) := do
  let db ← requireDb
  let rows := (← Prog.select db).attestations.rows.filter fun row => q.asks row && inRange q.since q.upTo row.signedAt
  Prog.done ((sqlLimit q.limit rows).mapM rowToWitnessAttestation)

end Queries

section Ranges

variable [Platform] {lower upper : Option IsoBound} {t : ℤ}

/-- The instant of a stored time. -/
def storedInstant (column : String) : ℤ :=
  match parseIso column with
  | some t => instantOf t
  | none => 0

theorem storedInstant_strftime (t : UtcTime) : storedInstant (strftime t.civil) = instant t.civil := by
  rw [storedInstant, parseIso_strftime]
  exact sub_zero _

/-- The column was written by `_utc_now_iso`. -/
def Written (column : String) : Prop := ∃ t : UtcTime, column = strftime t.civil

/-- The instant is in the range of the bounds. -/
def Within (lower upper : Option IsoBound) (t : ℤ) : Prop :=
  (∀ b ∈ lower, instant b.civil ≤ t) ∧ ∀ b ∈ upper, t ≤ instant b.civil

instance (lower upper : Option IsoBound) (t : ℤ) : Decidable (Within lower upper t) :=
  inferInstanceAs (Decidable ((∀ b ∈ lower, instant b.civil ≤ t) ∧ ∀ b ∈ upper, t ≤ instant b.civil))

/-- In the range, but in the last unit of the lower bound; or after the range, in the last unit of the upper
bound. -/
def Misplaced (lower upper : Option IsoBound) (t : ℤ) : Prop :=
  (Within lower upper t ∧ ∃ b ∈ lower, b.Covers t) ∨
    (∀ b ∈ lower, instant b.civil ≤ t ∧ ¬ b.Covers t) ∧ ∃ b ∈ upper, instant b.civil < t ∧ b.Covers t

/-- The texts say what the instants say, but for the misplaced instants. -/
theorem inRange_iff (lower upper : Option IsoBound) {column : String} (h : Written column) :
    inRange (lower.map IsoBound.text) (upper.map IsoBound.text) column =
        decide (Within lower upper (storedInstant column)) ↔
      ¬ Misplaced lower upper (storedInstant column) := by
  obtain ⟨t, rfl⟩ := h
  rw [storedInstant_strftime, strftime_padded t]
  have hlower : (∀ s ∈ lower.map IsoBound.text, s ≤ @strftime python310 t.civil) ↔
      ∀ b ∈ lower, instant b.civil ≤ instant t.civil ∧ ¬ b.Covers (instant t.civil) := by
    simp only [Option.mem_map, forall_exists_index, and_imp, forall_apply_eq_imp_iff₂, text_le_strftime t.valid.1]
  have hupper : (∀ s ∈ upper.map IsoBound.text, @strftime python310 t.civil ≤ s) ↔
      ∀ b ∈ upper, instant t.civil ≤ instant b.civil ∨ b.Covers (instant t.civil) := by
    simp only [Option.mem_map, forall_exists_index, and_imp, forall_apply_eq_imp_iff₂, strftime_le_text t.valid.1]
  rw [inRange, decide_eq_decide, hlower, hupper]
  clear hlower hupper
  unfold Misplaced Within
  cases lower <;> cases upper <;> simp only [Option.mem_def, Option.some.injEq, forall_eq', reduceCtorEq] <;> grind

end Ranges

section Orders

variable {α : Type} {rows : List α}

theorem sqlLimit_of_le {limit : ℤ} (h : (rows.length : ℤ) ≤ limit) : sqlLimit limit rows = rows := by
  have hnonneg : ¬ limit < 0 := not_lt.mpr ((Int.natCast_nonneg _).trans h)
  rw [sqlLimit, if_neg hnonneg]
  exact List.take_of_length_le (Int.le_toNat (not_lt.mp hnonneg) |>.mpr h)

theorem ordered_length (descending : Bool) (rows : List α) : (ordered descending rows).length = rows.length := by
  cases descending <;> simp [ordered]

theorem mem_ordered {descending : Bool} {row : α} : row ∈ ordered descending rows ↔ row ∈ rows := by
  cases descending <;> simp [ordered]

end Orders

section Rows

variable {α β : Type} [Keyed α] {read : α → Except PyError β} {identifier : β → ℤ} {rows : List α} {es : List β}

/-- Exactly these rows, read one by one. -/
def ReturnsRows (read : α → Except PyError β) (rows : List α) (r : Except PyError (List β)) : Prop :=
  ∃ es, r = .ok es ∧ rows.mapM read = .ok es

theorem map_ordered_inj {descending : Bool} {rows rows' : List α}
    (h : (ordered descending rows).map key = (ordered descending rows').map key) : rows.map key = rows'.map key := by
  cases descending with
  | false => exact h
  | true =>
    rw [ordered, if_pos rfl, ordered, if_pos rfl, List.map_reverse, List.map_reverse] at h
    exact List.reverse_injective h

/-- The keys tell which rows were returned. -/
theorem map_identifier (hid : ∀ row e, read row = .ok e → identifier e = key row) (h : rows.mapM read = .ok es) :
    es.map identifier = rows.map key := by
  have hall := mapM_ok.mp h
  clear h
  induction hall with
  | nil => rfl
  | cons hrow _ ih => rw [List.map_cons, List.map_cons, hid _ _ hrow, ih]

theorem selected_of_keys (hsorted : rows.Pairwise fun a b => key a < key b) {p q : α → Bool}
    (h : (rows.filter p).map key = (rows.filter q).map key) {row : α} (hrow : row ∈ rows) (hp : p row = true) :
    q row = true := by
  have hkey : key row ∈ (rows.filter q).map key := by
    rw [← h]
    exact List.mem_map_of_mem (List.mem_filter.mpr ⟨hrow, hp⟩)
  obtain ⟨row', hmem, heq⟩ := List.mem_map.mp hkey
  obtain ⟨hrow', hq⟩ := List.mem_filter.mp hmem
  rwa [eq_of_pairwise_lt hsorted hrow' hrow heq] at hq

/-- A query returns the rows that another condition selects exactly if the conditions agree on the rows, and
the selected rows can be read. -/
theorem returnsRows_iff (hsorted : rows.Pairwise fun a b => key a < key b)
    (hid : ∀ row e, read row = .ok e → identifier e = key row) (p q : α → Bool) (descending : Bool) :
    ReturnsRows read (ordered descending (rows.filter q)) ((ordered descending (rows.filter p)).mapM read) ↔
      (∀ row ∈ rows, p row = q row) ∧ ∀ row ∈ rows.filter q, ∃ e, read row = .ok e := by
  constructor
  · rintro ⟨es, hp, hq⟩
    have hkeys : (rows.filter p).map key = (rows.filter q).map key :=
      map_ordered_inj ((map_identifier hid hp).symm.trans (map_identifier hid hq))
    refine ⟨fun row hrow => ?_, fun row hrow => exists_mapM_ok.mp ⟨es, hq⟩ row (mem_ordered.mpr hrow)⟩
    exact Bool.eq_iff_iff.mpr ⟨selected_of_keys hsorted hkeys hrow, selected_of_keys hsorted hkeys.symm hrow⟩
  · rintro ⟨hsame, hread⟩
    obtain ⟨es, hes⟩ := exists_mapM_ok.mpr fun row hrow => hread row (mem_ordered.mp hrow)
    refine ⟨es, ?_, hes⟩
    rw [List.filter_congr hsame]
    exact hes

end Rows

section Calls

variable [Platform] {W : Type} {L : Libraries} {answers : Answers Request (Reply L) PyError W} {c : ConnId}

/-- The query with these bounds. -/
def EntriesQuery.between (q : EntriesQuery) (lower upper : Option IsoBound) : EntriesQuery :=
  { q with start := lower.map IsoBound.text, stop := upper.map IsoBound.text }

def AttestationsQuery.between (q : AttestationsQuery) (lower upper : Option IsoBound) : AttestationsQuery :=
  { q with since := lower.map IsoBound.text, upTo := upper.map IsoBound.text }

/-- The rows of the time range. -/
def EntriesQuery.inside (q : EntriesQuery) (lower upper : Option IsoBound) (rows : List EntryRow) : List EntryRow :=
  ordered q.descending (rows.filter fun row => q.asks row && decide (Within lower upper (storedInstant row.timestamp)))

def AttestationsQuery.inside (q : AttestationsQuery) (lower upper : Option IsoBound) (rows : List AttestationRow) :
    List AttestationRow :=
  rows.filter fun row => q.asks row && decide (Within lower upper (storedInstant row.signedAt))

omit [Platform] in
theorem rowToEntry_entryId (row : EntryRow) (e : LedgerEntry) (h : rowToEntry row = .ok e) : e.entryId = row.entryId := by
  unfold rowToEntry at h
  split at h
  · cases h
    rfl
  · cases h

theorem rowToWitnessAttestation_ok {row : AttestationRow} (h : Written row.signedAt) :
    ∃ a, rowToWitnessAttestation row = .ok a := by
  obtain ⟨t, ht⟩ := h
  rw [rowToWitnessAttestation, readTimeColumn, ht, parseIso_strftime]
  exact ⟨_, rfl⟩

theorem rowToWitnessAttestation_attestationId (row : AttestationRow) (a : WitnessAttestation)
    (h : rowToWitnessAttestation row = .ok a) : a.attestationId = row.attestationId := by
  obtain ⟨signedAt, -, ha⟩ := bind_ok h
  cases ha
  rfl

/-- With other conditions beside, the texts select as the instants do but for the misplaced rows asked for. -/
theorem selects_iff {α : Type} {rows : List α} {asks : α → Bool} {column : α → String}
    (hwritten : ∀ row ∈ rows, Written (column row)) (lower upper : Option IsoBound) :
    (∀ row ∈ rows, (asks row && inRange (lower.map IsoBound.text) (upper.map IsoBound.text) (column row)) =
        (asks row && decide (Within lower upper (storedInstant (column row))))) ↔
      ∀ row ∈ rows, asks row → ¬ Misplaced lower upper (storedInstant (column row)) := by
  refine forall₂_congr fun row hrow => ?_
  have hiff := inRange_iff lower upper (hwritten row hrow)
  cases asks row with
  | false => simp
  | true => simpa using hiff

omit [Platform] in
theorem solo_getEntries (q : EntriesQuery) (x : Solo Database W) (hlimit : (x.view.entries.rows.length : ℤ) ≤ q.limit) :
    solo answers c (getEntries (L := L) q) x = some ((ordered q.descending
      (x.view.entries.rows.filter fun row => q.asks row && inRange q.start q.stop row.timestamp)).mapM rowToEntry, x) := by
  rw [getEntries, requireDb, solo_ok_bind (solo_connection x), solo_ok_bind (solo_select x), solo_done, sqlLimit_of_le]
  rw [ordered_length]
  exact le_trans (Int.ofNat_le.mpr (List.length_filter_le _ _)) hlimit

theorem solo_getWitnessAttestations (q : AttestationsQuery) (x : Solo Database W)
    (hlimit : (x.view.attestations.rows.length : ℤ) ≤ q.limit) :
    solo answers c (getWitnessAttestations (L := L) q) x = some ((x.view.attestations.rows.filter fun row =>
      q.asks row && inRange q.since q.upTo row.signedAt).mapM rowToWitnessAttestation, x) := by
  rw [getWitnessAttestations, requireDb, solo_ok_bind (solo_connection x), solo_ok_bind (solo_select x), solo_done,
    sqlLimit_of_le]
  exact le_trans (Int.ofNat_le.mpr (List.length_filter_le _ _)) hlimit

variable (answers c)

theorem getEntries_iff (q : EntriesQuery) (lower upper : Option IsoBound) (x : Solo Database W)
    (hwritten : ∀ row ∈ x.view.entries.rows, Written row.timestamp)
    (hlimit : (x.view.entries.rows.length : ℤ) ≤ q.limit) :
    ∃ r, solo answers c (getEntries (L := L) (q.between lower upper)) x = some (r, x) ∧
      (ReturnsRows rowToEntry (q.inside lower upper x.view.entries.rows) r ↔
        (∀ row ∈ x.view.entries.rows, q.asks row → ¬ Misplaced lower upper (storedInstant row.timestamp)) ∧
        ∀ row ∈ q.inside lower upper x.view.entries.rows, ∃ e, rowToEntry row = .ok e) := by
  refine ⟨_, solo_getEntries (q.between lower upper) x hlimit, ?_⟩
  have hiff := returnsRows_iff x.view.entries.sorted rowToEntry_entryId
    (fun row => q.asks row && inRange (lower.map IsoBound.text) (upper.map IsoBound.text) row.timestamp)
    (fun row => q.asks row && decide (Within lower upper (storedInstant row.timestamp))) q.descending
  rw [selects_iff hwritten lower upper] at hiff
  refine hiff.trans ?_
  simp only [EntriesQuery.inside, mem_ordered]

theorem getWitnessAttestations_iff (q : AttestationsQuery) (lower upper : Option IsoBound) (x : Solo Database W)
    (hwritten : ∀ row ∈ x.view.attestations.rows, Written row.signedAt)
    (hlimit : (x.view.attestations.rows.length : ℤ) ≤ q.limit) :
    ∃ r, solo answers c (getWitnessAttestations (L := L) (q.between lower upper)) x = some (r, x) ∧
      (ReturnsRows rowToWitnessAttestation (q.inside lower upper x.view.attestations.rows) r ↔
        ∀ row ∈ x.view.attestations.rows, q.asks row → ¬ Misplaced lower upper (storedInstant row.signedAt)) := by
  refine ⟨_, solo_getWitnessAttestations (q.between lower upper) x hlimit, ?_⟩
  have hiff := returnsRows_iff x.view.attestations.sorted rowToWitnessAttestation_attestationId
    (fun row => q.asks row && inRange (lower.map IsoBound.text) (upper.map IsoBound.text) row.signedAt)
    (fun row => q.asks row && decide (Within lower upper (storedInstant row.signedAt))) false
  rw [selects_iff hwritten lower upper, and_iff_left] at hiff
  · exact hiff
  · intro row hrow
    exact rowToWitnessAttestation_ok (hwritten row (List.mem_of_mem_filter hrow))

end Calls

section Examples

/-- `2026-01-01T12:00:00Z`. -/
def wholeNoon : IsoBound := ⟨noon.civil, 0, noon.valid.1, Nat.zero_le _, Nat.dvd_zero _⟩

/-- `2026-01-01T12:00:00.000000Z`. -/
def fullNoon : IsoBound := ⟨noon.civil, 6, noon.valid.1, le_refl _, Nat.dvd_zero _⟩

/-- An entry and an attestation of noon. -/
def atNoon : Solo Database Unit :=
  let d := { Database.empty with
    entries := ⟨[rowAfter 1 genesisPreviousHash 2], 1, List.pairwise_singleton _ _⟩
    attestations := ⟨[⟨1, 1, 1, "head", "2026-01-01T12:00:00.000000Z", "previous", "hash", "signature"⟩], 1,
      List.pairwise_singleton _ _⟩ }
  ⟨d, d, false, ()⟩

theorem written_noon : Written "2026-01-01T12:00:00.000000Z" := ⟨noon, by decide +kernel⟩

theorem storedInstant_noon : storedInstant "2026-01-01T12:00:00.000000Z" = instant noon.civil := by
  have htext : "2026-01-01T12:00:00.000000Z" = strftime noon.civil := by decide +kernel
  rw [htext, storedInstant_strftime]

theorem misplaced_noon : Misplaced (some wholeNoon) (some wholeNoon) (instant noon.civil) := by
  refine .inl ⟨⟨?_, ?_⟩, _, rfl, ?_⟩
  · rintro b ⟨⟩
    exact le_refl _
  · rintro b ⟨⟩
    exact le_refl _
  · exact ⟨by decide, le_refl _, lt_add_of_pos_right _ (Int.natCast_pos.mpr (unit_pos _))⟩

/-- All six digits misplace nothing. -/
theorem not_misplaced {lower upper : Option IsoBound} (hlower : ∀ b ∈ lower, b.digits = 6)
    (hupper : ∀ b ∈ upper, b.digits = 6) (t : ℤ) : ¬ Misplaced lower upper t := by
  rintro (⟨-, b, hb, hcovers, -⟩ | ⟨-, b, hb, -, hcovers, -⟩)
  · exact absurd (hlower b hb) (ne_of_lt hcovers)
  · exact absurd (hupper b hb) (ne_of_lt hcovers)

end Examples

/-- From noon to noon, written without a fraction: the entry and the attestation of noon are not found. -/
theorem wholeNoon_notFound : ∃ r r',
    solo (unanswered .cancelled) 0 (getEntries (L := offline)
      (({} : EntriesQuery).between (some wholeNoon) (some wholeNoon))) atNoon = some (r, atNoon) ∧
    solo (unanswered .cancelled) 0 (getWitnessAttestations (L := offline)
      (({} : AttestationsQuery).between (some wholeNoon) (some wholeNoon))) atNoon = some (r', atNoon) ∧
    (∀ row ∈ atNoon.view.entries.rows, Written row.timestamp) ∧
    (∀ row ∈ atNoon.view.attestations.rows, Written row.signedAt) ∧
    ¬ ReturnsRows rowToEntry
      (({} : EntriesQuery).inside (some wholeNoon) (some wholeNoon) atNoon.view.entries.rows) r ∧
    ¬ ReturnsRows rowToWitnessAttestation
      (({} : AttestationsQuery).inside (some wholeNoon) (some wholeNoon) atNoon.view.attestations.rows) r' := by
  have hentries : ∀ row ∈ atNoon.view.entries.rows, Written row.timestamp :=
    List.forall_mem_singleton.mpr written_noon
  have hattestations : ∀ row ∈ atNoon.view.attestations.rows, Written row.signedAt :=
    List.forall_mem_singleton.mpr written_noon
  obtain ⟨r, hr, hiff⟩ := getEntries_iff (unanswered .cancelled) 0 {} (some wholeNoon) (some wholeNoon) atNoon hentries
    (by decide)
  obtain ⟨r', hr', hiff'⟩ := getWitnessAttestations_iff (unanswered .cancelled) 0 {} (some wholeNoon) (some wholeNoon)
    atNoon hattestations (by decide)
  refine ⟨r, r', hr, hr', hentries, hattestations, fun h => ?_, fun h => ?_⟩
  · have hplaced := (hiff.mp h).1 _ (List.mem_singleton.mpr rfl) rfl
    exact hplaced (storedInstant_noon ▸ misplaced_noon)
  · have hplaced := hiff'.mp h _ (List.mem_singleton.mpr rfl) rfl
    exact hplaced (storedInstant_noon ▸ misplaced_noon)

/-- Both queries return exactly the rows of the time range that they are asked for, in the order of their
ids, if and only if none of the rows asked for is misplaced, and the entries to return can be read. -/
theorem timeRanges_iff [Platform] {W : Type} {L : Libraries} (answers : Answers Request (Reply L) PyError W) (c : ConnId)
    (q : EntriesQuery) (q' : AttestationsQuery) (lower upper : Option IsoBound) (x : Solo Database W)
    (hentries : ∀ row ∈ x.view.entries.rows, Written row.timestamp)
    (hattestations : ∀ row ∈ x.view.attestations.rows, Written row.signedAt)
    (hlimit : (x.view.entries.rows.length : ℤ) ≤ q.limit)
    (hlimit' : (x.view.attestations.rows.length : ℤ) ≤ q'.limit) :
    ∃ r r', solo answers c (getEntries (L := L) (q.between lower upper)) x = some (r, x) ∧
      solo answers c (getWitnessAttestations (L := L) (q'.between lower upper)) x = some (r', x) ∧
      (ReturnsRows rowToEntry (q.inside lower upper x.view.entries.rows) r ↔
        (∀ row ∈ x.view.entries.rows, q.asks row → ¬ Misplaced lower upper (storedInstant row.timestamp)) ∧
        ∀ row ∈ q.inside lower upper x.view.entries.rows, ∃ e, rowToEntry row = .ok e) ∧
      (ReturnsRows rowToWitnessAttestation (q'.inside lower upper x.view.attestations.rows) r' ↔
        ∀ row ∈ x.view.attestations.rows, q'.asks row → ¬ Misplaced lower upper (storedInstant row.signedAt)) := by
  obtain ⟨r, hr, hiff⟩ := getEntries_iff answers c q lower upper x hentries hlimit
  obtain ⟨r', hr', hiff'⟩ := getWitnessAttestations_iff answers c q' lower upper x hattestations hlimit'
  exact ⟨r, r', hr, hr', hiff, hiff'⟩

/-- The same range written to the microsecond. -/
theorem timeRanges_iff_fullNoon : ∃ r r',
    solo (unanswered .cancelled) 0 (getEntries (L := offline)
      (({} : EntriesQuery).between (some fullNoon) (some fullNoon))) atNoon = some (r, atNoon) ∧
    solo (unanswered .cancelled) 0 (getWitnessAttestations (L := offline)
      (({} : AttestationsQuery).between (some fullNoon) (some fullNoon))) atNoon = some (r', atNoon) ∧
    ReturnsRows rowToEntry (({} : EntriesQuery).inside (some fullNoon) (some fullNoon) atNoon.view.entries.rows) r ∧
    ReturnsRows rowToWitnessAttestation
      (({} : AttestationsQuery).inside (some fullNoon) (some fullNoon) atNoon.view.attestations.rows) r' := by
  have hplaced (t : ℤ) : ¬ Misplaced (some fullNoon) (some fullNoon) t := by
    refine not_misplaced ?_ ?_ t <;> rintro b ⟨⟩ <;> rfl
  obtain ⟨r, r', hr, hr', hiff, hiff'⟩ := timeRanges_iff (unanswered .cancelled) 0 {} {} (some fullNoon) (some fullNoon)
    atNoon (List.forall_mem_singleton.mpr written_noon) (List.forall_mem_singleton.mpr written_noon) (by decide)
    (by decide)
  refine ⟨r, r', hr, hr', hiff.mpr ⟨fun row _ _ => hplaced _, fun row hrow => ?_⟩, hiff'.mpr fun row _ _ => hplaced _⟩
  have hloads : ∃ e, rowToEntry (rowAfter 1 genesisPreviousHash 2) = .ok e := ⟨_, rfl⟩
  obtain rfl : row = rowAfter 1 genesisPreviousHash 2 :=
    List.mem_singleton.mp (List.mem_of_mem_filter (mem_ordered.mp hrow))
  exact hloads

end NexusCone.TimeRangeQueries
