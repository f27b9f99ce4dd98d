import NexusCone.GrowingVersions
import NexusCone.LedgerOperations

/-!
# The entries table only grows, and stays chained

Whatever calls run on whatever instances, every version of the database holds the rows it
started from followed by the rows of accepted log statements, numbered and linked one after
the other, and each attestation names a row of the table.
-/
namespace NexusCone.LedgerGrowth
open HashChain KeyedTable SharedFile AsyncProgram AsyncSystem Connections RelyGuarantee GrowingVersions
  PyValue Canonical LedgerSchema EntryChain WitnessChain TimestampAuthority Ledger LedgerOperations

def insertedEntry (e : TaskId × Statement × ℤ) : Option (TaskId × EntryRow) :=
  match e.2.1 with
  | .insertEntry row => some (e.1, row)
  | _ => none

/-- The accepted log statements of a version, in their order. -/
def inserted (v : Version Database Statement) : List (TaskId × EntryRow) := v.journal.filterMap insertedEntry

/-- The head that the attestation names is a row of the table. -/
def HeadIn (rows : List EntryRow) (a : AttestationRow) : Prop :=
  ∃ r ∈ rows, r.entryId = a.chainHeadEntryId ∧ r.entryHash = a.chainHeadHash

abbrev tipId (rows : List EntryRow) : ℤ := tipHash EntryRow.entryId 0 rows
abbrev tipEntryHash (rows : List EntryRow) : String := tipHash EntryRow.entryHash genesisPreviousHash rows

/-- A row as `log` makes it: its hash recomputes and its payload is canonical JSON. -/
structure Genuine (row : EntryRow) : Prop where
  hashed : row.entryHash = recomputed row
  canonical : ∃ payload, canonicalJson payload = .ok row.payload

/-- A version grown from the contents `start`. -/
structure Grown (start : Database) (v : Version Database Statement) : Prop where
  rows : v.data.entries.rows = start.entries.rows ++ (inserted v).map Prod.snd
  numbered : Linked (fun r => r.entryId - 1) EntryRow.entryId (tipId start.entries.rows)
    ((inserted v).map Prod.snd)
  linked : Linked EntryRow.previousHash EntryRow.entryHash (tipEntryHash start.entries.rows)
    ((inserted v).map Prod.snd)
  genuine : ∀ r ∈ (inserted v).map Prod.snd, Genuine r
  heads : ∀ a ∈ v.data.attestations.rows, a ∈ start.attestations.rows ∨ HeadIn v.data.entries.rows a

/-- Entries and journal of the one begin those of the other. -/
def Extends (u v : Version Database Statement) : Prop :=
  u.data.entries.rows <+: v.data.entries.rows ∧ u.journal <+: v.journal

def entryGrowth (start : Database) : Growth Database Statement where
  good := Grown start
  le := Extends
  refl _ := ⟨List.prefix_rfl, List.prefix_rfl⟩
  trans h h' := ⟨h.1.trans h'.1, h.2.trans h'.2⟩

variable {start : Database} {u v : Version Database Statement} {d : Database} {n : ℤ} {t : TaskId}

theorem HeadIn.mono {rows rows' : List EntryRow} {a : AttestationRow} (h : HeadIn rows a)
    (hp : rows <+: rows') : HeadIn rows' a := by
  obtain ⟨r, hr, hh⟩ := h
  exact ⟨r, hp.subset hr, hh⟩

/-- A statement that writes no entry and no attestation head leaves the version grown. -/
theorem Grown.same_entries {s : Statement} (h : Grown start v) (he : d.entries = v.data.entries)
    (hs : insertedEntry (t, s, n) = none) 
    (ha : ∀ a ∈ d.attestations.rows, a ∈ start.attestations.rows ∨ HeadIn v.data.entries.rows a) :
    Grown start ⟨d, v.journal ++ [(t, s, n)]⟩ ∧ Extends v ⟨d, v.journal ++ [(t, s, n)]⟩ := by
  have hins : inserted ⟨d, v.journal ++ [(t, s, n)]⟩ = inserted v := by
    simp [inserted, List.filterMap_append, hs]
  refine ⟨⟨?_, ?_, ?_, ?_, ?_⟩, ?_, ⟨_, rfl⟩⟩
  · rw [hins]; exact (congrArg Table.rows he).trans h.rows
  · rw [hins]; exact h.numbered
  · rw [hins]; exact h.linked
  · rw [hins]; exact h.genuine
  · intro a har
    show a ∈ start.attestations.rows ∨ HeadIn d.entries.rows a
    rw [he]
    exact ha a har
  · show v.data.entries.rows <+: d.entries.rows
    rw [he]

theorem tipHash_append {α β : Type} {f : α → β} {g : β} {xs ys : List α} :
    tipHash f g (xs ++ ys) = tipHash f (tipHash f g xs) ys := by
  induction xs generalizing g with
  | nil => rfl
  | cons x xs ih => simp only [List.cons_append, tipHash_cons, ih]

theorem le_tipId (tb : Table EntryRow) : ∀ r ∈ tb.rows, r.entryId ≤ tipId tb.rows := by
  intro r hr
  obtain ⟨xs, x, hx⟩ := List.eq_nil_or_concat' tb.rows |>.resolve_left (List.ne_nil_of_mem hr)
  have hsorted := tb.sorted
  rw [hx] at hr hsorted ⊢
  have htip : tipId (xs ++ [x]) = x.entryId := by simp [tipHash]
  rw [htip]
  rcases List.mem_append.mp hr with hr | hr
  · exact le_of_lt ((List.pairwise_append.mp hsorted).2.2 r hr x (by simp))
  · rw [List.mem_singleton.mp hr]

/-- The row that `log` makes from what it saw extends the version it is accepted into: a
longer table would hold its id already. -/
theorem Grown.log {row : EntryRow} (hu : Grown start u) (hv : Grown start v) (hle : Extends u v)
    (hid : row.entryId = tipId u.data.entries.rows + 1)
    (hprev : row.previousHash = tipEntryHash u.data.entries.rows)
    (hrow : Genuine row) (hex : exec (Statement.insertEntry row) v.data = .ok (d, n)) :
    Grown start ⟨d, v.journal ++ [(t, .insertEntry row, n)]⟩ ∧
      Extends v ⟨d, v.journal ++ [(t, .insertEntry row, n)]⟩ := by
  obtain ⟨tb, hins, rfl, rfl⟩ := exec_insertEntry hex
  obtain ⟨hfresh, hrows⟩ := Table.insert_some hins
  have hsame : v.data.entries.rows = u.data.entries.rows := by
    obtain ⟨zs, hzs⟩ := hle.1
    cases zs with
    | nil => rw [← hzs, List.append_nil]
    | cons z zs =>
      have hins' : (inserted v).map Prod.snd = (inserted u).map Prod.snd ++ z :: zs := by
        have := hv.rows
        rw [← hzs, hu.rows, List.append_assoc] at this
        exact (List.append_cancel_left this).symm
      have hnum := hv.numbered
      rw [hins', linked_append, ← tipHash_append, ← hu.rows] at hnum
      have hz : key z = key row := by
        have hnext : z.entryId - 1 = tipId u.data.entries.rows := hnum.2.1
        show z.entryId = row.entryId
        omega
      exact absurd hz (hfresh z (by rw [← hzs]; simp))
  have happend : tb.rows = v.data.entries.rows ++ [row] := by
    rw [hrows]
    refine Table.place_of_forall_lt fun r hr => ?_
    have := le_tipId v.data.entries r hr
    show r.entryId < row.entryId
    rw [hid, ← hsame]
    omega
  have hins' : (inserted ⟨{ v.data with entries := tb }, v.journal ++ [(t, .insertEntry row, row.entryId)]⟩).map
      Prod.snd = (inserted v).map Prod.snd ++ [row] := by
    simp [inserted, List.filterMap_append, insertedEntry]
  refine ⟨⟨?_, ?_, ?_, ?_, ?_⟩, ?_, ⟨_, rfl⟩⟩
  · rw [hins', ← List.append_assoc, ← hv.rows]
    exact happend
  · rw [hins', linked_concat, ← tipHash_append, ← hv.rows]
    refine ⟨hv.numbered, ?_⟩
    show row.entryId - 1 = tipId v.data.entries.rows
    rw [hsame]
    omega
  · rw [hins', linked_concat, ← tipHash_append, ← hv.rows]
    exact ⟨hv.linked, by rw [hprev, hsame]⟩
  · rw [hins']
    intro r hr
    rcases List.mem_append.mp hr with hr | hr
    · exact hv.genuine r hr
    · rw [List.mem_singleton.mp hr]
      exact hrow
  · intro a ha
    exact (hv.heads a ha).imp_right fun h => h.mono ⟨[row], happend.symm⟩
  · exact ⟨[row], happend.symm⟩

/-- A row that `log` has made reads back, and its hash is hexadecimal. -/
theorem Genuine.readable {row : EntryRow} (h : Genuine row) :
    (∃ e, rowToEntry row = .ok e) ∧ ∃ head, HexBytes.fromHex row.entryHash = some head := by
  obtain ⟨payload, hpayload⟩ := h.canonical
  obtain ⟨v, hv⟩ := loads_canonicalJson hpayload
  refine ⟨⟨_, by rw [rowToEntry, hv]⟩, ?_⟩
  rw [h.hashed]
  exact ⟨_, fromHex_sha256Hex _⟩

theorem entryAfter_entryId (tb : Table EntryRow) (timestamp actor action eventType payload : String)
    (signer : Option Signer) :
    (entryAfter tb.last? timestamp actor action eventType payload signer).entryId = tipId tb.rows + 1 := by
  simp only [entryAfter, tipHash, Table.last?]
  cases tb.rows.getLast? <;> rfl

theorem entryAfter_previousHash (tb : Table EntryRow)
    (timestamp actor action eventType payload : String) (signer : Option Signer) :
    (entryAfter tb.last? timestamp actor action eventType payload signer).previousHash =
      tipEntryHash tb.rows := by
  simp only [entryAfter, tipHash, Table.last?]

theorem rowToEntry_head {row : EntryRow} {e : LedgerEntry} (h : rowToEntry row = .ok e) :
    e.entryId = row.entryId ∧ e.entryHash = row.entryHash := by
  unfold rowToEntry at h
  split at h <;> cases h
  exact ⟨rfl, rfl⟩

section Calls

variable [IsoTime.Platform] {W : Type} {L : Libraries} {i : InstId} {σ σ' : Shared Database Statement W}
variable {env : InstId → TaskId → Op Statement Request → Outcome Request (Reply L) PyError W →
  Shared Database Statement W → Prop}

/-- The entry the task returned is a committed row, which the task's own statement wrote. -/
def Logged (t : TaskId) (e : LedgerEntry) (σ : Shared Database Statement W) : Prop :=
  ∃ row, (t, row) ∈ inserted σ.file.committed ∧ e = loggedEntry row e.payload ∧
    canonicalJson e.payload = .ok row.payload

omit [IsoTime.Platform] in
theorem Logged.grow {e : LedgerEntry} (h : Logged t e σ) (hg : (entryGrowth start).Grows σ σ') :
    Logged t e σ' := by
  obtain ⟨row, hrow, hstored⟩ := h
  exact ⟨row, (hg.committed.2.filterMap insertedEntry).subset hrow, hstored⟩

theorem keeps_log (actor action : String) (payload : Option (List (PyKey × PyVal)))
    (signer : Option Signer) (eventType : String) :
    (entryGrowth start).Keeps env i t (log (L := L) actor action payload signer eventType)
      (Logged t) σ := by
  unfold Ledger.log requireDb utcNowIso now
  refine Growth.Keeps.connection fun c σ₁ hg₁ _ hown => ?_
  refine Growth.Keeps.withLock (fun _ _ _ hg h => h.grow hg) fun σ₂ hg₂ => ?_
  refine Growth.Keeps.select (hown.rewired hg₂.rewired).1 fun u σ₃ hg₃ hu hseen => ?_
  simp only [bind_assoc]
  refine Growth.Keeps.external fun now σ₄ hg₄ => ?_
  simp only [Prog.pure_eq, Prog.ok_bind]
  cases hcanon : canonicalJson (PyVal.dict (payload.getD [])) with
  | error e => exact Growth.Keeps.raise
  | ok text =>
    simp only [Prog.ok_bind]
    refine Growth.Keeps.execute (hseen.grow hg₄) ?_ ?_
    · intro σ₅ o d n hg₅ hi₅ _ _ _ hex hle
      exact hu.log (hi₅.view c).1 hle (entryAfter_entryId ..) (entryAfter_previousHash ..) ⟨rfl, _, hcanon⟩ hex
    · intro σ₅ v n hg₅ hseen₅ hmem _
      refine Growth.Keeps.commit hseen₅ fun σ₆ hg₆ hdur => ?_
      refine Growth.Keeps.pure fun σ₇ hg₇ => ?_
      have hjournal := (hdur.grow hg₇).2.subset hmem
      exact ⟨_, List.mem_filterMap.mpr ⟨_, hjournal, rfl⟩, rfl, hcanon⟩

omit [IsoTime.Platform] in
/-- The latest entry, read on whatever connection the ledger then has, is the tip of what an
earlier connection of the ledger sees if that one is still open. -/
theorem keeps_getLatestEntry {β : Type} {f : Option LedgerEntry → Action L β} {c : ConnId}
    {post : β → Shared Database Statement W → Prop} (hown : Owns i c σ)
    (hnone : ∀ σ', (entryGrowth start).Grows σ σ' → (entryGrowth start).Keeps env i t (f none) post σ')
    (hsome : ∀ u row e σ', (entryGrowth start).Grows σ σ' → (entryGrowth start).Seen c u σ' →
      row ∈ u.data.entries.rows → rowToEntry row = .ok e →
      (entryGrowth start).Keeps env i t (f (some e)) post σ') :
    (entryGrowth start).Keeps env i t (getLatestEntry >>= f) post σ := by
  unfold getLatestEntry requireDb
  simp only [bind_assoc]
  refine Growth.Keeps.reread hown fun u σ₁ hg₁ hseen => ?_
  cases hlast : u.data.entries.last? with
  | none => exact hnone σ₁ hg₁
  | some row =>
    dsimp only
    cases hrow : rowToEntry row with
    | error e => exact Growth.Keeps.raise
    | ok e => exact hsome u row e σ₁ hg₁ hseen (List.mem_of_getLast? hlast) hrow

/-- An attestation binds a row of the table: what its connection saw as the tip is still there. -/
theorem keeps_attestWithWitness (witnessId : ℤ) (signer : Signer) :
    (entryGrowth start).Keeps env i t (attestWithWitness (L := L) witnessId signer)
      (fun _ _ => True) σ := by
  unfold attestWithWitness requireDb now
  refine Growth.Keeps.connection fun c σ₁ hg₁ _ hown => ?_
  refine Growth.Keeps.withLock (fun _ _ _ _ _ => trivial) fun σ₂ hg₂ => ?_
  refine Growth.Keeps.reads (uses_getWitness allowsReads_isRead witnessId) fun witness σ₃ hg₃ => ?_
  split_ifs
  · exact Growth.Keeps.raise
  · exact Growth.Keeps.raise
  · refine keeps_getLatestEntry (hown.rewired (hg₂.trans hg₃).rewired) ?_ ?_
    · exact fun σ₄ _ => Growth.Keeps.pure fun _ _ => trivial
    · intro u row e σ₄ hg₄ hseen hmem hrow
      refine Growth.Keeps.reads (uses_getLastWitnessAttestationHash allowsReads_isRead witnessId)
        fun prev σ₅ hg₅ => ?_
      refine Growth.Keeps.external fun signedAt σ₆ hg₆ => ?_
      refine Growth.Keeps.execute (hseen.grow (hg₅.trans hg₆)) ?_ ?_
      · intro σ₇ o d n hg₇ hi₇ _ _ _ hex hle
        obtain ⟨-, -, rfl, rfl⟩ := exec_insertAttestation hex
        refine (hi₇.view c).1.same_entries rfl rfl fun a ha => ?_
        rcases List.mem_append.mp ha with ha | ha
        · exact (hi₇.view c).1.heads a ha
        · rw [List.mem_singleton.mp ha]
          obtain ⟨hid, hhash⟩ := rowToEntry_head hrow
          exact .inr ⟨row, hle.1.subset hmem, hid.symm, hhash.symm⟩
      · intro σ₇ v n hg₇ hseen₇ _ _
        exact Growth.Keeps.commit hseen₇ fun σ₈ _ _ => Growth.Keeps.pure fun _ _ => trivial

/-- Statements that write neither entries nor attestations. -/
def Neutral : Statement → Prop
  | .insertEntry _ | .insertAttestation _ => False
  | _ => True

omit [IsoTime.Platform] in
theorem Grown.neutral {s : Statement} (hs : Neutral s) (h : Grown start v) (hex : exec s v.data = .ok (d, n)) :
    Grown start ⟨d, v.journal ++ [(t, s, n)]⟩ ∧ Extends v ⟨d, v.journal ++ [(t, s, n)]⟩ := by
  cases s with
  | insertEntry row => exact hs.elim
  | insertAttestation a => exact hs.elim
  | insertAnchor a =>
    obtain ⟨-, -, rfl⟩ := exec_insertAnchor hex
    exact h.same_entries rfl rfl h.heads
  | insertWitness w =>
    obtain ⟨-, -, -, rfl⟩ := exec_insertWitness hex
    exact h.same_entries rfl rfl h.heads
  | confirmAnchor anchorId blob height blockHash confirmedAt =>
    cases hex
    exact h.same_entries rfl rfl h.heads
  | retireWitness witnessId retiredAt =>
    cases hex
    exact h.same_entries rfl rfl h.heads

/-- What a call's result says of the database: the entry of a `log` is a committed row. -/
def Answered (t : TaskId) : Call → Result → Shared Database Statement W → Prop
  | .log .., .entry e, σ => Logged t e σ
  | _, _, _ => True

theorem keeps_body (call : Call) :
    (entryGrowth start).Keeps env i t (call.body (L := L)) (Answered t call) σ := by
  have hneutral {call : Call} (ha : Admits Neutral call)
      (hp : ∀ r (σ' : Shared Database Statement W), Answered t call r σ') :
      (entryGrowth start).Keeps env i t (call.body (L := L)) (Answered t call) σ :=
    (Growth.Keeps.of_uses (guarded_body ha).uses (Growth.Grows.refl σ) fun s v d n hs hv hex =>
      Grown.neutral hs hv hex).mono fun r σ' _ _ => hp r σ'
  cases call with
  | log actor action payload signer eventType =>
    refine Growth.Keeps.bind ((keeps_log actor action payload signer eventType).mono fun e σ' _ he => ?_)
    exact Growth.Keeps.pure fun σ'' hg => he.grow hg
  | attestWithWitness witnessId signer =>
    refine Growth.Keeps.bind ((keeps_attestWithWitness witnessId signer).mono fun _ _ _ _ => ?_)
    exact Growth.Keeps.pure fun _ _ => trivial
  | _ => exact hneutral (admits_of_mayIssue fun s hs => by cases s <;> trivial) fun _ _ => trivial

/-- Every call, on any instance, keeps the entries growing. -/
theorem verified_ledger (rules : Rules Database Statement W Request (Reply L) PyError Call) :
    Verified ((entryGrowth start).protocol W) rules (Call.body (L := L)) (fun _ t => Answered t)
      (fun _ _ _ _ => True) :=
  Growth.verified fun _ _ _ _ _ _ _ => keeps_body _

end Calls
end NexusCone.LedgerGrowth
