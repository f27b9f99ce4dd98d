import NexusCone.ChainSafety
import NexusCone.PayloadRoundTrip
import NexusCone.TaskRuns

/-!
# What `get_entry` returns for a logged entry

`log` returns the caller's payload and stores its canonical text, so the entry that `get_entry` reads equals
the returned one exactly if the payload reads back as it was. The other fields always agree, in any run.
-/
namespace NexusCone.EntryReads
open KeyedTable SharedFile AsyncProgram AsyncSystem RelyGuarantee GrowingVersions TaskRuns CodePoints PyValue
  Canonical LedgerSchema EntryChain TimestampAuthority Ledger LedgerRuns LedgerGrowth ChainSafety PayloadRoundTrip

variable {W : Type} {L : Libraries}

/-- Fetch a single entry by id. -/
def getEntry (entryId : ℤ) : Action L LedgerEntry := do
  let db ← requireDb
  match (← Prog.select db).entries.find? entryId with
  | some row => Prog.done (rowToEntry row)
  | none => Prog.raise (.keyError s!"ledger entry {entryId} not found")

/-- Calls of the ledger, and calls of `get_entry`. -/
def entryBody [IsoTime.Platform] : Call ⊕ ℤ → Action L (Result ⊕ LedgerEntry)
  | .inl call => return .inl (← call.body)
  | .inr entryId => return .inr (← getEntry entryId)

abbrev EntrySys (L : Libraries) (W : Type) :=
  Sys Database Statement W Request (Reply L) PyError (Call ⊕ ℤ) (Result ⊕ LedgerEntry)

abbrev EntryRun [IsoTime.Platform] : EntrySys L W → EntrySys L W → Prop := Run entryBody .all

def startEntries (d : Database) (w : W) : EntrySys L W := ⟨startShared d w, []⟩

section Growing

variable [IsoTime.Platform] {d : Database} {w : W} {s s' : EntrySys L W}

def EntryAnswered (t : TaskId) : Call ⊕ ℤ → Result ⊕ LedgerEntry → Shared Database Statement W → Prop
  | .inl call, .inl r, σ => Answered t call r σ
  | _, _, _ => True

omit [IsoTime.Platform] in
theorem Answered.grow {start : Database} {t : TaskId} {call : Call} {r : Result} {σ σ' : Shared Database Statement W}
    (h : Answered t call r σ) (hg : (entryGrowth start).Grows σ σ') : Answered t call r σ' := by
  unfold Answered at h ⊢
  split at h
  · exact h.grow hg
  · trivial

omit [IsoTime.Platform] in
theorem uses_getEntry (entryId : ℤ) : (getEntry (L := L) entryId).Uses Op.isRead := by
  refine ⟨trivial, fun r => ?_⟩
  cases r with
  | error e => trivial
  | ok c =>
    refine ⟨trivial, fun r => ?_⟩
    cases r with
    | error e => trivial
    | ok d =>
      show Prog.Uses _ (match d.entries.find? entryId with
        | some row => Prog.done (rowToEntry row)
        | none => _)
      cases d.entries.find? entryId <;> trivial

variable (L W) in
theorem verified_entries (start : Database) :
    Verified ((entryGrowth start).protocol W) .all (entryBody (L := L)) (fun _ t => EntryAnswered t)
      (fun _ _ _ _ => True) := by
  refine Growth.verified fun i call t σ _ _ _ => ?_
  cases call with
  | inl call =>
    refine Growth.Keeps.bind ((keeps_body call).mono fun r σ₁ _ h => ?_)
    exact Growth.Keeps.pure fun σ₂ hg => Answered.grow h hg
  | inr entryId => exact Growth.Keeps.reads (uses_getEntry entryId) fun e σ₁ _ => Growth.Keeps.pure fun _ _ => trivial

theorem good_entries (h : EntryRun (startEntries d w) s) :
    Good ((entryGrowth d).protocol W) .all (fun _ t => EntryAnswered t) (fun _ _ _ _ => True) s := by
  refine ((verified_entries W L d).run (Good.start ⟨wired_start d w, grown_start d, ?_⟩ (fresh_start d w)) h).1
  rintro p ⟨⟩

/-- What `log` returns carries the caller's payload. -/
theorem returns_log (actor action : String) (payload : Option (List (PyKey × PyVal))) (signer : Option Signer)
    (eventType : String) : Returns (fun e : LedgerEntry => e.payload = .dict (payload.getD []))
      (log (L := L) actor action payload signer eventType) := by
  unfold Ledger.log
  refine returns_bind _ fun db => Returns.withLock ?_
  refine returns_bind _ fun d => returns_bind _ fun timestamp => returns_bind _ fun text => ?_
  exact returns_bind _ fun _ => returns_bind _ fun _ => rfl

/-- The entry of a `log` call has the payload of the call. -/
def CarriesPayload : Call ⊕ ℤ → Result ⊕ LedgerEntry → Prop
  | .inl (.log _ _ payload _ _), .inl (.entry e) => e.payload = .dict (payload.getD [])
  | _, _ => True

theorem returns_entryBody (call : Call ⊕ ℤ) : Returns (CarriesPayload call) (entryBody (L := L) call) := by
  cases call with
  | inr entryId => exact returns_bind _ fun e => trivial
  | inl call =>
    cases call with
    | log actor action payload signer eventType =>
      refine Returns.bind (P := fun r => CarriesPayload (.inl (.log actor action payload signer eventType)) (.inl r))
        ?_ fun r hr => hr
      exact (returns_log actor action payload signer eventType).bind fun e he => he
    | _ => exact returns_bind _ fun r => trivial

theorem payload_of_logged (h : EntryRun (startEntries d w) s) {t : TaskId} {i : InstId} {actor action eventType : String}
    {payload : Option (List (PyKey × PyVal))} {signer : Option Signer} {e : LedgerEntry}
    (ht : s.tasks[t]? = some ⟨i, .inl (.log actor action payload signer eventType), .done (.ok (.inl (.entry e)))⟩) :
    e.payload = .dict (payload.getD []) := by
  have hreturns := returns_of_run (P := CarriesPayload) returns_entryBody h (by simp [startEntries])
  exact hreturns _ (List.mem_of_getElem? ht)

end Growing

section Reading

variable [IsoTime.Platform]
variable {rules : Rules Database Statement W Request (Reply L) PyError (Call ⊕ ℤ)}
variable {s₀ s : EntrySys L W} {t : TaskId} {i : InstId} {entryId : ℤ} {reads : List Database}
variable {r : Except PyError (Result ⊕ LedgerEntry)}

/-- What `get_entry` makes of the contents it reads. -/
def entryOf (entryId : ℤ) (d : Database) : Except PyError LedgerEntry :=
  match d.entries.find? entryId with
  | some row => rowToEntry row
  | none => .error (.keyError s!"ledger entry {entryId} not found")

/-- How a call of `get_entry` ends: its connection fails it, or it has read what its connection sees. -/
theorem getEntry_cases (hcall : s₀.tasks[t]? = some ⟨i, .inr entryId, entryBody (.inr entryId)⟩)
    (hends : Ends entryBody rules t s₀ reads s r) :
    (∃ e, r = .error e ∧ OfConnection e) ∨
      ∃ c s₁, Run entryBody rules s₀ s₁ ∧ c ∈ s₁.shared.file.opened ∧
        r = (entryOf entryId (s₁.shared.file.view c).data).map Sum.inr := by
  obtain ⟨s₁, o, x, s₁', rest, hrun₁, -, hx, hstep, ht, -, hends⟩ := hends.of_perform hcall
  cases x with
  | error e =>
    obtain ⟨rfl, -, -⟩ := hends.of_done ht
    exact .inl ⟨e, rfl, effect_connection_error hx⟩
  | ok c =>
    obtain ⟨s₂, o, x, s₂', rest', hrun₂, -, hx, -, ht, -, hends⟩ := hends.of_perform ht
    obtain ⟨-, hread⟩ := effect_select hx
    cases x with
    | error e =>
      obtain ⟨rfl, -, -⟩ := hends.of_done ht
      exact .inl ⟨e, rfl, effect_select_error hx⟩
    | ok u =>
      obtain ⟨ho, rfl⟩ : c ∈ s₂.shared.file.opened ∧ u = (s₂.shared.file.view c).data := by
        rcases hread with ⟨ho, heq⟩ | ⟨e, heq⟩ <;> cases heq
        exact ⟨ho, rfl⟩
      refine .inr ⟨c, s₂, hrun₁.trans (hstep.trans hrun₂), ho, ?_⟩
      have hdone : s₂'.tasks[t]? =
          some ⟨i, .inr entryId, .done ((entryOf entryId (s₂.shared.file.view c).data).map Sum.inr)⟩ := by
        rw [ht]
        unfold entryOf
        show some (Task.mk i _ ((match (s₂.shared.file.view c).data.entries.find? entryId with
          | some row => Prog.done (rowToEntry row)
          | none => Prog.raise (.keyError s!"ledger entry {entryId} not found")) >>= _)) = _
        cases (s₂.shared.file.view c).data.entries.find? entryId with
        | none => rfl
        | some row =>
          dsimp only
          cases rowToEntry row <;> rfl
      exact (hends.of_done hdone).1.symm

/-- Equal in every field, the payloads as Python compares them. -/
structure SameEntry (e e' : LedgerEntry) : Prop where
  entryId : e.entryId = e'.entryId
  timestamp : e.timestamp = e'.timestamp
  actor : e.actor = e'.actor
  action : e.action = e'.action
  payload : valEq e.payload e'.payload
  previousHash : e.previousHash = e'.previousHash
  entryHash : e.entryHash = e'.entryHash
  signature : e.signature = e'.signature
  signingKeyId : e.signingKeyId = e'.signingKeyId
  eventType : e.eventType = e'.eventType
  formatVersion : e.formatVersion = e'.formatVersion

omit [IsoTime.Platform] in
/-- The stored row reads back as the entry but for the payload. -/
theorem rowToEntry_logged {row : EntryRow} {p : PyVal} (hp : Storable p) (h : canonicalJson p = .ok row.payload) :
    ∃ e, rowToEntry row = .ok e ∧ (SameEntry (loggedEntry row p) e ↔ plain p) := by
  obtain ⟨v, hv, hiff⟩ := valEq_loads_iff hp h
  refine ⟨_, by rw [rowToEntry, hv], ?_⟩
  rw [← hiff]
  exact ⟨fun h => h.payload, fun h => ⟨rfl, rfl, rfl, rfl, h, rfl, rfl, rfl, rfl, rfl, rfl⟩⟩

end Reading

section Examples

def logPayload (payload : List (PyKey × PyVal)) : Call := .log "a" "act" (some payload) none eventTypeRequest

/-- One instance is open. -/
def openedShared : Shared Database Statement Unit :=
  let σ := startShared Database.empty ()
  { σ.setDb 0 (some 0) with file := σ.file.connect 0, nextConn := 1 }

/-- It calls `log`. -/
def afterLog (payload : List (PyKey × PyVal)) : EntrySys offline Unit :=
  ⟨openedShared, [⟨0, .inl (logPayload payload), entryBody (.inl (logPayload payload))⟩]⟩

/-- It calls `get_entry`. -/
def afterGet (entryId : ℤ) (s : EntrySys offline Unit) : EntrySys offline Unit :=
  ⟨s.shared, s.tasks ++ [⟨0, .inr entryId, entryBody (.inr entryId)⟩]⟩

abbrev EntryEvent : Type := Event Request (Reply offline) PyError Unit (Call ⊕ ℤ)

def logSteps : List EntryEvent :=
  [.run 0 .ok, .run 0 .ok, .run 0 .ok, .run 0 (stoppedClock offline), .run 0 .ok, .run 0 .ok, .run 0 .ok]

def getSteps : List EntryEvent := [.run 1 .ok, .run 1 .ok]

def loggedBy (s : EntrySys offline Unit) : Option LedgerEntry :=
  match s.tasks[(0 : TaskId)]? with
  | some ⟨_, _, .done (.ok (.inl (.entry e)))⟩ => if s.tasks.length = 1 then some e else none
  | _ => none

def readBy (s : EntrySys offline Unit) : Option LedgerEntry :=
  match s.tasks[(1 : TaskId)]? with
  | some ⟨_, _, .done (.ok (.inr e))⟩ => some e
  | _ => none

/-- Whether the payload that is read equals the payload of the returned entry. -/
def readsBack (payload : List (PyKey × PyVal)) : Option Bool := do
  let (_, s) ← runReading entryBody 0 logSteps (afterLog payload)
  let e ← loggedBy s
  let (_, s') ← runReading entryBody 1 getSteps (afterGet e.entryId s)
  let e' ← readBy s'
  return valEq e.payload e'.payload

/-- A run of the two calls one after the other. -/
structure LogThenGet (payload : List (PyKey × PyVal)) (s s' : EntrySys offline Unit) (e e' : LedgerEntry) : Prop where
  log : EntryRun (startEntries Database.empty ()) s
  logged : s.tasks[0]? = some ⟨0, .inl (logPayload payload), .done (.ok (.inl (.entry e)))⟩
  call : (afterGet e.entryId s).tasks[1]? = some ⟨0, .inr e.entryId, entryBody (.inr e.entryId)⟩
  get : EntryRun (afterGet e.entryId s) s'
  read : s'.tasks[1]? = some ⟨0, .inr e.entryId, .done (.ok (.inr e'))⟩

theorem run_afterLog (payload : List (PyKey × PyVal)) :
    EntryRun (startEntries Database.empty ()) (afterLog payload) :=
  .trans (.single ⟨.connect 0, trivial, rfl⟩) (.single ⟨.call 0 (.inl (logPayload payload)), trivial, rfl⟩)

theorem run_afterGet (entryId : ℤ) (s : EntrySys offline Unit) : EntryRun s (afterGet entryId s) :=
  .single ⟨.call 0 (.inr entryId), trivial, rfl⟩

theorem loggedBy_some {s : EntrySys offline Unit} {e : LedgerEntry} (h : loggedBy s = some e) :
    ∃ i c, s.tasks[0]? = some ⟨i, c, .done (.ok (.inl (.entry e)))⟩ ∧ s.tasks.length = 1 := by
  unfold loggedBy at h
  split at h
  · split at h <;> cases h
    exact ⟨_, _, by assumption, by assumption⟩
  · cases h

theorem readBy_some {s : EntrySys offline Unit} {e : LedgerEntry} (h : readBy s = some e) :
    ∃ i c, s.tasks[1]? = some ⟨i, c, .done (.ok (.inr e))⟩ := by
  unfold readBy at h
  split at h <;> cases h
  exact ⟨_, _, by assumption⟩

theorem exists_logThenGet (payload : List (PyKey × PyVal)) (b : Bool) (h : readsBack payload = some b) :
    ∃ s s' e e', LogThenGet payload s s' e e' ∧ valEq e.payload e'.payload = b := by
  have hallows (ev : EntryEvent) (s : EntrySys offline Unit) : Rules.all.Allows s ev := by
    cases ev <;> simp [Rules.Allows, Rules.all]
  obtain ⟨⟨reads, s⟩, hlog, h₁⟩ := Option.bind_eq_some_iff.mp h
  obtain ⟨e, he, h₂⟩ := Option.bind_eq_some_iff.mp h₁
  obtain ⟨⟨reads', s'⟩, hget, h₃⟩ := Option.bind_eq_some_iff.mp h₂
  obtain ⟨e', he', h₄⟩ := Option.bind_eq_some_iff.mp h₃
  obtain ⟨i, c, hlogged, hlength⟩ := loggedBy_some he
  obtain ⟨j, c', hread⟩ := readBy_some he'
  obtain ⟨r, hends⟩ := ends_of_runReading (fun ev _ s => hallows ev s) hlog
  obtain ⟨r', hends'⟩ := ends_of_runReading (fun ev _ s => hallows ev s) hget
  have hcall : (afterGet e.entryId s).tasks[1]? = some ⟨0, .inr e.entryId, entryBody (.inr e.entryId)⟩ := by
    rw [← hlength]
    exact List.getElem?_concat_length
  have hdone := hends.result_eq (rfl : (afterLog payload).tasks[0]? = some ⟨0, .inl (logPayload payload), _⟩)
  have hdone' := hends'.result_eq hcall
  rw [hlogged] at hdone
  rw [hread] at hdone'
  cases hdone
  cases hdone'
  exact ⟨s, s', e, e', ⟨(run_afterLog payload).trans hends.run, hlogged, hcall, hends'.run, hread⟩, Option.some.inj h₄⟩

end Examples

/-- A tuple that has been logged is read as a list. -/
theorem tuple_readAsList : ∃ s s' e e', LogThenGet [(.str "k", .tuple [.int 1])] s s' e e' ∧
    Storable (.dict [(.str "k", .tuple [.int 1])]) ∧ ¬ SameEntry e e' := by
  obtain ⟨s, s', e, e', hrun, heq⟩ := exists_logThenGet [(.str "k", .tuple [.int 1])] false (by decide +kernel)
  refine ⟨s, s', e, e', hrun, ⟨by simp, ⟨trivial, trivial⟩, trivial⟩, fun hsame => ?_⟩
  rw [hsame.payload] at heq
  cases heq

/-- Whatever runs between and beside it, a later `get_entry` fails by its connection or returns an entry,
which equals the one that `log` returned exactly if the payload has no tuple, only strings for keys, and no
string in which a high surrogate stands right before a low one. -/
theorem getEntry_logged_iff [IsoTime.Platform] (d : Database) (w : W) (s s₀ s' : EntrySys L W) (t u : TaskId) (i j : InstId)
    (actor action eventType : String) (payload : Option (List (PyKey × PyVal))) (signer : Option Signer) (e : LedgerEntry)
    (r : Except PyError (Result ⊕ LedgerEntry)) (hpayload : Storable (.dict (payload.getD [])))
    (hs : EntryRun (startEntries d w) s)
    (hlog : s.tasks[t]? = some ⟨i, .inl (.log actor action payload signer eventType), .done (.ok (.inl (.entry e)))⟩)
    (hs₀ : EntryRun s s₀) (hcall : s₀.tasks[u]? = some ⟨j, .inr e.entryId, entryBody (.inr e.entryId)⟩)
    (hs' : EntryRun s₀ s') (hdone : s'.tasks[u]? = some ⟨j, .inr e.entryId, .done r⟩) :
    (∃ x, r = .error x ∧ OfConnection x) ∨
      ∃ e', r = .ok (.inr e') ∧ (SameEntry e e' ↔ plain (.dict (payload.getD []))) := by
  have hgood := good_entries hs
  obtain ⟨row, hrow, he, htext⟩ : Logged t e s.shared := hgood.result hlog
  have hpay := payload_of_logged hs hlog
  obtain ⟨reads, s₂, hends, -⟩ := exists_ends hs' hcall hdone
  rcases getEntry_cases hcall hends with hfail | ⟨c, s₁, hrun, ho, rfl⟩
  · exact .inl hfail
  obtain ⟨hgood', hgrow⟩ := (verified_entries W L d).run hgood (hs₀.trans hrun)
  have hcommitted : row ∈ s.shared.file.committed.data.entries.rows := by
    have hrows : s.shared.file.committed.data.entries.rows = _ := hgood.inv.committed.rows
    rw [hrows]
    exact List.mem_append_right _ (List.mem_map_of_mem hrow)
  have hview : row ∈ (s₁.shared.file.view c).data.entries.rows :=
    (hgood'.inv.view c).2.1.subset (hgrow.committed.1.subset hcommitted)
  have hid : row.entryId = e.entryId := by rw [he]; rfl
  have hfind : (s₁.shared.file.view c).data.entries.find? e.entryId = some row := Table.find?_eq_some.mpr ⟨hview, hid⟩
  rw [hpay] at he htext
  obtain ⟨e', hread, hiff⟩ := rowToEntry_logged hpayload htext
  refine .inr ⟨e', ?_, ?_⟩
  · rw [entryOf, hfind]
    show (rowToEntry row).map Sum.inr = _
    rw [hread]
    rfl
  · rw [he]
    exact hiff

/-- A list with a lone surrogate, under a string. -/
def loneSurrogate : List (PyKey × PyVal) := [(.str "k", .list [.int 1, .str [point 0xd83d]])]

theorem getEntry_logged_list : ∃ s s' e e', LogThenGet loneSurrogate s s' e e' ∧ SameEntry e e' := by
  obtain ⟨s, s', e, e', hrun, -⟩ := exists_logThenGet loneSurrogate true (by decide +kernel)
  have hstorable : Storable (.dict loneSurrogate) := ⟨by simp [loneSurrogate], ⟨trivial, trivial, trivial⟩, trivial⟩
  rcases getEntry_logged_iff Database.empty () s (afterGet e.entryId s) s' 0 1 0 0 _ _ _ (some loneSurrogate) _ e _
    hstorable hrun.log hrun.logged (run_afterGet _ s) hrun.call
    hrun.get hrun.read with ⟨x, ⟨⟩, -⟩ | ⟨e'', heq, hiff⟩
  cases heq
  exact ⟨s, s', e, e', hrun, hiff.mpr (by decide)⟩

end NexusCone.EntryReads
