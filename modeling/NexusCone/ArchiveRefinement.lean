import NexusCone.CallCompletion
import NexusCone.CombinedGrowths
import NexusCone.FiledRecords
import NexusCone.LedgerGrowth

/-!
# The tables are an archive written down

Row by row, the tables of a ledger's file say what an archive holds, with numbers, times and hashes
in the one way they can be. Every statement that the service has accepted is one step of the archive.
-/
namespace NexusCone.ArchiveRefinement
open HashChain KeyedTable SharedFile AsyncProgram AsyncSystem EmbeddedPrograms RelyGuarantee GrowingVersions CombinedGrowths
  IsoTime LedgerSchema EntryChain WitnessChain TimestampAuthority Ledger LedgerOperations LedgerRuns LedgerGrowth Poller Service
  CallCompletion AppendOnlyArchive FiledRecords

section Rows

variable [Platform]

/-- Each record under the next number, linked to the one before. -/
def entryRows (entryId : ℤ) (previousHash : String) : List Record → List EntryRow
  | [] => []
  | r :: rs =>
    let row := r.row entryId previousHash
    row :: entryRows (entryId + 1) row.entryHash rs

/-- The entries table of the archive. -/
def entriesOf (a : Archive filed) : List EntryRow := entryRows 1 genesisPreviousHash a.entries

/-- The stored hash of the entry at the position. -/
def headHash (a : Archive filed) (head : ℕ) : String := ((entriesOf a)[head]?.map EntryRow.entryHash).getD ""

def Confirmation.write (c : Confirmation) (row : AnchorRow) : AnchorRow :=
  { row with
    otsProofBlob := some c.otsProofBlob, bitcoinBlockHeight := some c.bitcoinBlockHeight,
    bitcoinBlockHash := c.bitcoinBlockHash, confirmedAt := some (strftime c.confirmedAt.civil) }

def anchorRow (anchorId : ℤ) (x : Anchored filed) : AnchorRow :=
  let row := (x.proof.new (x.head + 1)).row anchorId
  match x.confirmation with
  | some c => Confirmation.write c row
  | none => row

def witnessRow (witnessId : ℤ) (x : Registered filed) : WitnessRow :=
  ⟨witnessId, x.label, x.publicKey, x.details.role, strftime x.details.createdAt.civil,
    x.retirement.map fun t => strftime t.civil⟩

/-- An attestation names its head by number and hash. -/
def attestationRow (a : Archive filed) (attestationId : ℤ) (x : Attested filed) : AttestationRow :=
  (x.statement.new (x.witness + 1) (x.head + 1) (headHash a x.head)).row attestationId

/-- The tables say what the archive holds, and nothing else. -/
structure Represents (a : Archive filed) (d : Database) : Prop where
  entries : d.entries.rows = entriesOf a
  anchors : Numbers anchorRow a.anchors d.anchors
  witnesses : Numbers witnessRow a.witnesses d.witnesses
  attestations : Numbers (attestationRow a) a.attestations d.attestations

theorem represents_empty : Represents .empty Database.empty := ⟨rfl, numbers_empty, numbers_empty, numbers_empty⟩

theorem entryRows_concat (entryId : ℤ) (previousHash : String) (rs : List Record) (r : Record) :
    entryRows entryId previousHash (rs ++ [r]) = entryRows entryId previousHash rs ++
      [r.row (tipHash EntryRow.entryId (entryId - 1) (entryRows entryId previousHash rs) + 1)
        (tipHash EntryRow.entryHash previousHash (entryRows entryId previousHash rs))] := by
  induction rs generalizing entryId previousHash with
  | nil => simp [entryRows]
  | cons s rs ih =>
    have hnext : (s.row entryId previousHash).entryId = entryId + 1 - 1 := by simp [Record.row]
    simp only [List.cons_append, entryRows, ih, tipHash_cons, hnext]

theorem entryRows_getElem? {entryId : ℤ} {previousHash : String} {rs : List Record} {j : ℕ} {row : EntryRow}
    (h : (entryRows entryId previousHash rs)[j]? = some row) : row.entryId = entryId + j ∧ j < rs.length := by
  induction rs generalizing entryId previousHash j with
  | nil => simp [entryRows] at h
  | cons r rs ih =>
    cases j with
    | zero =>
      cases h
      exact ⟨by simp [Record.row], by simp⟩
    | succ j =>
      obtain ⟨hid, hlt⟩ := ih h
      constructor
      · rw [hid]
        push_cast
        omega
      · simpa using hlt

/-- A row of the entries is the one at the position that its number says. -/
theorem position_of_entry {a : Archive filed} {row : EntryRow} (h : row ∈ entriesOf a) :
    ∃ j : ℕ, row.entryId = j + 1 ∧ j < a.entries.length ∧ headHash a j = row.entryHash := by
  obtain ⟨j, hj⟩ := List.mem_iff_getElem?.mp h
  obtain ⟨hid, hlt⟩ := entryRows_getElem? hj
  exact ⟨j, by omega, hlt, by rw [headHash, hj]; rfl⟩

theorem length_entryRows (entryId : ℤ) (previousHash : String) (rs : List Record) :
    (entryRows entryId previousHash rs).length = rs.length := by
  induction rs generalizing entryId previousHash with
  | nil => rfl
  | cons r rs ih => simp [entryRows, ih]

theorem key_anchorRow (anchorId : ℤ) (x : Anchored filed) : key (anchorRow anchorId x) = anchorId := by
  unfold anchorRow
  cases x.confirmation <;> rfl

theorem key_witnessRow (witnessId : ℤ) (x : Registered filed) : key (witnessRow witnessId x) = witnessId := rfl

theorem key_attestationRow (a : Archive filed) (attestationId : ℤ) (x : Attested filed) :
    key (attestationRow a attestationId x) = attestationId := rfl

end Rows

section Statements

variable [Platform] {a : Archive filed} {u v : Version Database Statement} {n : ℤ} {t : TaskId} {d d' : Database}

/-- A logged row is the next record: the number and the link follow from the table. -/
theorem refines_insertEntry {r : Record} {entryId : ℤ} {previousHash : String} (hw : a.WellFormed) (ha : Represents a u.data)
    (hu : Grown .empty u) (hv : Grown .empty v)
    (hex : exec (Statement.insertEntry (r.row entryId previousHash)) u.data = .ok (v.data, n))
    (hj : v.journal = u.journal ++ [(t, .insertEntry (r.row entryId previousHash), n)]) :
    ∃ a', Archive.Step a a' ∧ Represents a' v.data := by
  have hins : (inserted v).map Prod.snd = (inserted u).map Prod.snd ++ [r.row entryId previousHash] := by
    simp [inserted, hj, List.filterMap_append, insertedEntry]
  have hbefore : u.data.entries.rows = (inserted u).map Prod.snd := hu.rows
  have hrows : v.data.entries.rows = entriesOf a ++ [r.row entryId previousHash] := by
    rw [hv.rows, hins, ← ha.entries, hbefore]
    rfl
  have hnumber : entryId - 1 = tipHash EntryRow.entryId 0 (entriesOf a) := by
    have h := hv.numbered
    rw [hins, linked_concat, ← hbefore, ha.entries] at h
    exact h.2
  have hlink : previousHash = tipHash EntryRow.entryHash genesisPreviousHash (entriesOf a) := by
    have h := hv.linked
    rw [hins, linked_concat, ← hbefore, ha.entries] at h
    exact h.2
  have hentries : entriesOf { a with entries := a.entries ++ [r] } = entriesOf a ++ [r.row entryId previousHash] := by
    rw [entriesOf, entryRows_concat, hlink, ← sub_add_cancel entryId 1, hnumber]
    rfl
  obtain ⟨tb, -, -, hd⟩ := exec_insertEntry hex
  refine ⟨_, .append a r, hrows.trans hentries.symm, ?_, ?_, ?_⟩
  · rw [hd]
    exact ha.anchors
  · rw [hd]
    exact ha.witnesses
  · rw [hd]
    refine ⟨ha.attestations.rows.trans ?_, ha.attestations.seq⟩
    refine (numbered_congr fun k x hx => ?_).symm
    have hhead : x.head < (entriesOf a).length := by
      rw [entriesOf, length_entryRows]
      exact (hw.attestations x hx).2
    simp only [attestationRow, headHash, hentries, List.getElem?_append_left hhead]

theorem refines_insertAnchor {x : Submission} {chainHeadEntryId : ℤ} (ha : Represents a d)
    (hex : exec (Statement.insertAnchor (x.new chainHeadEntryId)) d = .ok (d', n)) :
    ∃ a', Archive.Step a a' ∧ Represents a' d' := by
  obtain ⟨⟨row, hrow, hid⟩, -, rfl⟩ := exec_insertAnchor hex
  rw [ha.entries] at hrow
  obtain ⟨j, hj, hlt, -⟩ := position_of_entry hrow
  obtain rfl : chainHeadEntryId = j + 1 := hid.symm.trans hj
  refine ⟨_, .anchor a j x hlt, ha.entries, ?_, ha.witnesses, ha.attestations⟩
  exact ha.anchors.insertNew key_anchorRow (NewAnchor.key_row _) fun _ => rfl

theorem refines_confirmAnchor {anchorId height : ℤ} {blob : HexBytes.Bytes} {blockHash : Option String}
    {confirmedAt : CalendarTime} (ha : Represents a d)
    (hex : exec (Statement.confirmAnchor anchorId blob height blockHash (strftime confirmedAt.civil)) d = .ok (d', n)) :
    ∃ a', Archive.Step a a' ∧ Represents a' d' := by
  cases hex
  obtain ⟨j, hj⟩ := ha.anchors.update key_anchorRow (AnchorRow.key_confirm anchorId blob height blockHash _)
    (g := fun x => { x with confirmation := some ⟨blob, height, blockHash, confirmedAt⟩ }) (k := anchorId)
    (fun x => by
      have hid : (anchorRow anchorId x).anchorId = anchorId := key_anchorRow anchorId x
      rw [AnchorRow.confirm, if_pos hid]
      unfold anchorRow
      cases x.confirmation <;> rfl)
    fun row hrow => if_neg hrow
  exact ⟨_, .confirm a j _, ha.entries, hj, ha.witnesses, ha.attestations⟩

theorem refines_insertWitness {label publicKeyHex role : String} {createdAt : UtcTime} (ha : Represents a d)
    (hex : exec (Statement.insertWitness ⟨label, publicKeyHex, role, strftime createdAt.civil⟩) d = .ok (d', n)) :
    ∃ a', Archive.Step a a' ∧ Represents a' d' := by
  obtain ⟨hlabel, hkey, -, rfl⟩ := exec_insertWitness hex
  have hlabels : d.witnesses.rows.map WitnessRow.label = a.witnesses.map Registered.label := by
    rw [ha.witnesses.rows]
    exact map_numbered fun _ _ => rfl
  have hkeys : d.witnesses.rows.map WitnessRow.publicKeyHex = a.witnesses.map Registered.publicKey := by
    rw [ha.witnesses.rows]
    exact map_numbered fun _ _ => rfl
  rw [hlabels] at hlabel
  rw [hkeys] at hkey
  refine ⟨_, .register a label publicKeyHex ⟨role, createdAt⟩ ?_, ha.entries, ha.anchors, ?_, ha.attestations⟩
  · intro x hx
    constructor
    · intro hx'
      exact hlabel (List.mem_map.mpr ⟨x, hx, hx'⟩)
    · intro hx'
      exact hkey (List.mem_map.mpr ⟨x, hx, hx'⟩)
  · exact ha.witnesses.insertNew key_witnessRow (NewWitness.key_row _) fun _ => rfl

theorem refines_retireWitness {witnessId : ℤ} {retiredAt : UtcTime} (ha : Represents a d)
    (hex : exec (Statement.retireWitness witnessId (strftime retiredAt.civil)) d = .ok (d', n)) :
    ∃ a', Archive.Step a a' ∧ Represents a' d' := by
  cases hex
  obtain ⟨j, hj⟩ := ha.witnesses.update key_witnessRow (WitnessRow.key_retire witnessId (strftime retiredAt.civil))
    (g := fun x => { x with retirement := some (x.retirement.getD retiredAt) }) (k := witnessId)
    (fun x => by
      unfold WitnessRow.retire witnessRow
      cases x.retirement <;> simp)
    fun row hrow => if_neg fun h => hrow h.1
  exact ⟨_, .retire a j retiredAt, ha.entries, ha.anchors, hj, ha.attestations⟩

/-- The head of an attestation is an entry with the hash that it names. -/
theorem refines_insertAttestation {x : NewAttestation} {e : Endorsement}
    (he : x = e.new x.witnessId x.chainHeadEntryId x.chainHeadHash) (ha : Represents a u.data) (hv : Grown .empty v)
    (hex : exec (Statement.insertAttestation x) u.data = .ok (v.data, n)) :
    ∃ a', Archive.Step a a' ∧ Represents a' v.data := by
  obtain ⟨⟨w, hw, hwid⟩, -, -, hd⟩ := exec_insertAttestation hex
  rw [ha.witnesses.rows] at hw
  obtain ⟨i, hi, rfl⟩ := mem_numbered hw
  have hmem : x.row u.data.attestations.nextKey ∈ v.data.attestations.rows := by
    rw [hd]
    exact List.mem_append_right _ (List.mem_singleton.mpr rfl)
  obtain ⟨row, hrow, hid, hhash⟩ := (hv.heads _ hmem).resolve_left List.not_mem_nil
  rw [hd, ha.entries] at hrow
  obtain ⟨j, hj, hlt, hhead⟩ := position_of_entry hrow
  have hwitness : x.witnessId = i + 1 := hwid.symm
  have hentry : x.chainHeadEntryId = j + 1 := hid.symm.trans hj
  have hhashed : x.chainHeadHash = headHash a j := (hhead.trans hhash).symm
  rw [hwitness, hentry, hhashed] at he
  refine ⟨_, .attest a i j e hi hlt, ?_⟩
  rw [hd]
  refine ⟨ha.entries, ha.anchors, ha.witnesses, ?_⟩
  exact ha.attestations.insertNew (key_attestationRow a) x.key_row fun k => congrArg (NewAttestation.row · k) he

/-- An accepted statement of the service is one step of the archive. -/
theorem exec_refines {s : Statement} (hs : Issued s) (hw : a.WellFormed) (ha : Represents a u.data)
    (hu : Grown .empty u) (hv : Grown .empty v) (hex : exec s u.data = .ok (v.data, n))
    (hj : v.journal = u.journal ++ [(t, s, n)]) : ∃ a', Archive.Step a a' ∧ Represents a' v.data := by
  cases s with
  | insertEntry row =>
    obtain ⟨r, entryId, previousHash, rfl⟩ := hs
    exact refines_insertEntry hw ha hu hv hex hj
  | insertAnchor x =>
    obtain ⟨submission, entryId, rfl⟩ := hs
    exact refines_insertAnchor ha hex
  | confirmAnchor anchorId blob height blockHash text =>
    obtain ⟨confirmedAt, rfl⟩ := hs
    exact refines_confirmAnchor ha hex
  | insertWitness x =>
    obtain ⟨label, publicKeyHex, role, text⟩ := x
    obtain ⟨createdAt, rfl⟩ := hs
    exact refines_insertWitness ha hex
  | retireWitness witnessId text =>
    obtain ⟨retiredAt, rfl⟩ := hs
    exact refines_retireWitness ha hex
  | insertAttestation x =>
    obtain ⟨e, he⟩ := hs
    exact refines_insertAttestation he ha hv hex

end Statements

section Runs

variable [Platform] {T : Proofs} {W : Type} {rules : ServiceRules T W} {s₀ s : ServiceSys T W} {w : W}

/-- Versions that archives represent, each going on from the one before. -/
def archiveGrowth : Growth Database Statement where
  good v := ∃ a : Archive filed, Archive.Steps .empty a ∧ Represents a v.data
  le u v := ∀ a : Archive filed, a.WellFormed → Represents a u.data → ∃ a', a.Steps a' ∧ Represents a' v.data
  refl _ a _ ha := ⟨a, .refl, ha⟩
  trans h h' a hw ha := by
    obtain ⟨b, hb, hbrep⟩ := h a hw ha
    obtain ⟨c, hc, hcrep⟩ := h' b (hb.wellFormed hw) hbrep
    exact ⟨c, hb.trans hc, hcrep⟩

/-- Pollers and reading methods write no entry and no attestation. -/
theorem keeps_entries {start : Database} {i : InstId} {t : TaskId} {σ : Shared Database Statement W} (call : ServiceCall) :
    (entryGrowth start).Keeps rules.env i t (call.body (T := T)) (fun _ _ => True) σ := by
  have hneutral {p : PollerAction T ServiceResult} (hp : p.Uses (Op.executes Neutral)) :
      (entryGrowth start).Keeps rules.env i t p (fun _ _ => True) σ :=
    (Growth.Keeps.of_uses hp (Growth.Grows.refl σ) fun s v d n hs hv hex => Grown.neutral hs hv hex).mono
      fun _ _ _ _ => trivial
  cases call with
  | ledger call =>
    have hcall : (entryGrowth start).Keeps rules.env i t (embed (PollerReply T) (call.body (L := T.libraries)))
        (Answered t call) σ := ok_embed (keeps_body call)
    exact Growth.Keeps.bind (hcall.mono fun _ _ _ _ => Growth.Keeps.pure fun _ _ => trivial)
  | query q =>
    have hadmits : (ServiceCall.query q).Admits Neutral := trivial
    exact hneutral (guarded_service hadmits).uses
  | upgradePendingAnchors minutes =>
    have hadmits : (ServiceCall.upgradePendingAnchors minutes).Admits Neutral := fun _ _ _ _ _ => trivial
    exact hneutral (guarded_service hadmits).uses

theorem keeps_archive {i : InstId} {t : TaskId} {σ : Shared Database Statement W} (call : ServiceCall) :
    (both (entryGrowth .empty) archiveGrowth).Keeps rules.env i t (call.body (T := T)) (fun _ _ => True) σ := by
  refine keeps_both (keeps_entries call) (issued_service call).uses ?_
  rintro s u v n hs hu hv - ⟨b, hb, hbrep⟩ hex hj
  have hstep (a : Archive filed) (hw : a.WellFormed) (ha : Represents a u.data) :
      ∃ a', a.Steps a' ∧ Represents a' v.data := by
    obtain ⟨a', ha', hrep⟩ := exec_refines hs hw ha hu hv hex hj
    exact ⟨a', .single ha', hrep⟩
  obtain ⟨b', hb', hrep⟩ := hstep b (hb.wellFormed Archive.wellFormed_empty) hbrep
  exact ⟨⟨b', hb.trans hb', hrep⟩, hstep⟩

theorem verified_archive : Verified ((both (entryGrowth .empty) archiveGrowth).protocol W) rules (ServiceCall.body (T := T))
    (fun _ _ _ _ _ => True) (fun _ _ _ _ => True) :=
  Growth.verified fun _ _ _ _ _ _ _ => keeps_archive _

theorem archive_of_run (h : ServiceRun rules (startService .empty w) s) :
    Good ((both (entryGrowth .empty) archiveGrowth).protocol W) rules (fun _ _ _ _ _ => True) (fun _ _ _ _ => True) s := by
  have hempty : Grown .empty (⟨.empty, []⟩ : Version Database Statement) :=
    ⟨rfl, trivial, trivial, by simp [inserted], fun _ ha => absurd ha List.not_mem_nil⟩
  refine (verified_archive.run (Good.start ⟨wired_start .empty w, ⟨hempty, .empty, .refl, represents_empty⟩, ?_⟩
    (fresh_start .empty w)) h).1
  rintro p ⟨⟩

end Runs

section Examples

/-- One ledger logs an entry and registers a witness. -/
def firstLedger : List OneProofEvent :=
  .connect 0 :: (callScript answers 0 0 (.ledger (logCall "a")) 3 3 ++ callScript answers 0 1 (registers "00") 1 4)

/-- Another one has the witness attest and retires it. -/
def secondLedger : List OneProofEvent :=
  .connect 1 :: (callScript answers 1 2 (.ledger (.attestWithWitness 1 (echoSigner "00"))) 8 3 ++
    callScript answers 1 3 (.ledger (.retireWitness 1)) 1 4)

/-- How many entries and attestations there are, and which witnesses are retired. -/
def tallies (d : Database) : (ℕ × ℕ) × List Bool :=
  ((d.entries.rows.length, d.attestations.rows.length), d.witnesses.rows.map fun w => w.retiredAt.isSome)

theorem Represents.tallies [Platform] {a : Archive filed} {d : Database} (h : Represents a d) :
    tallies d = ((a.entries.length, a.attestations.length), a.witnesses.map fun x => x.retirement.isSome) := by
  simp only [ArchiveRefinement.tallies, Prod.mk.injEq]
  refine ⟨⟨?_, ?_⟩, ?_⟩
  · rw [h.entries, entriesOf, length_entryRows]
  · rw [h.attestations.rows, numbered, List.length_mapIdx]
  · rw [h.witnesses.rows]
    exact map_numbered fun k x => by simp [witnessRow]

end Examples

end NexusCone.ArchiveRefinement
