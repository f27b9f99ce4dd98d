import NexusCone.WitnessLedger

/-!
# Verifications beside other calls

`verify_witness_attestations` takes no lock and reads the witnesses before the attestations. What
it has read fits together exactly when no witness registered after the first read has attested
before the second one.
-/
namespace NexusCone.WitnessAlarms
open KeyedTable SharedFile AsyncProgram AsyncSystem Connections RelyGuarantee GrowingVersions TaskRuns PyValue
  LedgerSchema EntryChain WitnessChain WitnessCursor TimestampAuthority Ledger LedgerOperations LedgerRuns WitnessStore
  WitnessForks WitnessWalks WitnessLedger ExceptResults

section Walk

variable [IsoTime.Platform] {verifier : Verifier} {u v : Version Database Statement} {ws : List Witness}

/-- The attestations are of witnesses that are there. -/
def Known (u : Database) (rows : List AttestationRow) : Prop :=
  ∀ a ∈ rows, ∃ w ∈ u.witnesses.rows, w.witnessId = a.witnessId

/-- Of sound attestations the walk accepts the first ones of each witness if they are of witnesses read before. -/
theorem walk_ok_iff (hv : Sound verifier v.data) (hkeys : KeepsKeys u v)
    (hws : u.data.witnesses.rows.mapM rowToWitness = .ok ws) {rows : List AttestationRow}
    (hrows : Firsts rows v.data.attestations.rows) :
    verifyAttestations verifier (witnessesById ws) (fun _ => genesisWitnessPrevHash) rows = .ok () ↔
      Known u.data rows := by
  rw [verifyAttestations_ok]
  constructor
  · rintro ⟨-, hvalid⟩ a ha
    obtain ⟨w, -, hw, -, -⟩ := (hvalid a ha).signed
    obtain ⟨row, hrow, -, hid⟩ := (witnessesById_eq_some hws).mp hw
    exact ⟨row, hrow, hid⟩
  · intro hknown
    refine ⟨fun w => (hv.subChains w).initial (hrows w), fun a ha => ?_⟩
    obtain ⟨hhash, row, hrow, hid, signature, hsig, hsigned⟩ := hv.attested a (hrows.subset ha)
    obtain ⟨known, hmem, hid'⟩ := hknown a ha
    obtain ⟨w, hread⟩ := exists_mapM_ok.mp ⟨ws, hws⟩ known hmem
    -- The witness that was read is still the one with this id, under the same key.
    obtain ⟨row', hrow', hsame, hkey⟩ := hkeys known hmem
    obtain rfl := v.data.witnesses.key_injOn hrow' hrow (hsame.trans (hid'.trans hid.symm))
    rw [hkey, ← (rowToWitness_ok hread).2.1] at hsigned
    exact ⟨hhash, w, signature, (witnessesById_eq_some hws).mpr ⟨known, hmem, hread, hid'⟩, hsig, hsigned⟩

omit [IsoTime.Platform] in
theorem verifySignature_error {w : Witness} {row : AttestationRow} {e : PyError}
    (h : verifySignature verifier w row = .error e) : ∃ m, e = .witnessVerificationError m := by
  unfold verifySignature at h
  dsimp only at h
  split at h <;> cases h
  · exact ⟨_, rfl⟩
  · exact ⟨_, rfl⟩

omit [IsoTime.Platform] in
theorem verifyAttestation_error {byId : ℤ → Option Witness} {prev : String} {row : AttestationRow} {e : PyError}
    (h : verifyAttestation verifier byId prev row = .error e) : ∃ m, e = .witnessVerificationError m := by
  unfold verifyAttestation at h
  split at h
  · cases h
    exact ⟨_, rfl⟩
  · split_ifs at h
    · cases h
      exact ⟨_, rfl⟩
    · cases h
      exact ⟨_, rfl⟩
    · exact verifySignature_error h

omit [IsoTime.Platform] in
theorem verifyAttestations_error {byId : ℤ → Option Witness} {prev : ℤ → String} {rows : List AttestationRow}
    {e : PyError} (h : verifyAttestations verifier byId prev rows = .error e) :
    ∃ m, e = .witnessVerificationError m := by
  induction rows generalizing prev with
  | nil => cases h
  | cons row rows ih =>
    rw [verifyAttestations] at h
    cases hrow : verifyAttestation verifier byId (prev row.witnessId) row with
    | error e' =>
      rw [hrow] at h
      cases h
      exact verifyAttestation_error hrow
    | ok x =>
      rw [hrow] at h
      exact ih h

end Walk

section Calls

variable [IsoTime.Platform]
variable {W : Type} {L : Libraries} {verifier : Verifier} {cursor : Cursor} {rules : LedgerRules L W} {i : InstId}
variable {t : TaskId} {s₀ s : LedgerSys L W} {reads : List Database} {r : Except PyError Result}

/-- How a call of `verify_witness_attestations` ends: its connection fails it, or on one connection of its ledger
it has read the witnesses, opened its cursor and walked what the cursor handed over. -/
theorem verification_cases (hcall : s₀.tasks[t]? =
      some ⟨i, .verifyWitnessAttestations verifier cursor, (Call.verifyWitnessAttestations verifier cursor).body⟩)
    (hends : Ends Call.body rules t s₀ reads s r) :
    (∃ e, r = .error e ∧ OfConnection e ∧ reads.length ≤ 1) ∨
      ∃ c s₁ s₂, LedgerRun rules s₀ s₁ ∧ (s₁.shared.handles i).db = some c ∧ LedgerRun rules s₁ s₂ ∧
        c ∈ s₂.shared.file.opened ∧
        ((∃ e, (s₂.shared.file.view c).data.witnesses.rows.mapM rowToWitness = .error e ∧ r = .error e) ∨
          ∃ ws v nows, (s₂.shared.file.view c).data.witnesses.rows.mapM rowToWitness = .ok ws ∧
            reads = (s₂.shared.file.view c).data :: v :: nows ∧ Sees Call.body rules c s₂ (v :: nows) s ∧
            Walked verifier (witnessesById ws) c (cursor.scan v.attestations) (fun _ => genesisWitnessPrevHash) 0
              (nows.map Database.attestations) s r) := by
  obtain ⟨s₁, o, x, s₁', rest, hrun₁, -, hx, hstep, ht, rfl, hends⟩ := hends.of_perform hcall
  obtain ⟨hsame, hdb⟩ := effect_connection hx
  cases x with
  | error e =>
    obtain ⟨rfl, -, rfl⟩ := hends.of_done ht
    exact .inl ⟨e, rfl, effect_connection_error hx, by simp⟩
  | ok c =>
    have hdb' : (s₁'.shared.handles i).db = some c := by
      rw [hsame]
      rcases hdb with ⟨c', hc', heq⟩ | ⟨-, heq⟩ <;> cases heq
      exact hc'
    obtain ⟨s₂, x, s₂', rest', hrun₂, -, hstep₂, ht, hafter, hread⟩ := hends.of_select ht
    rcases hread with ⟨e, rfl, he, rfl⟩ | ⟨ho, rfl, rfl⟩
    · obtain ⟨rfl, -, rfl⟩ := hafter.of_done ht
      exact .inl ⟨e, rfl, he, by simp⟩
    change s₂'.tasks[t]? = some ⟨i, _, ((Prog.done (List.mapM rowToWitness _) >>= _) >>= _)⟩ at ht
    cases hws : (s₂.shared.file.view c).data.witnesses.rows.mapM rowToWitness with
    | error e =>
      rw [hws] at ht
      exact .inr ⟨c, s₁', s₂, hrun₁.trans hstep, hdb', hrun₂, ho, .inl ⟨e, hws, (hafter.of_done ht).1.symm⟩⟩
    | ok ws =>
      rw [hws] at ht
      obtain ⟨s₃, x, s₃', later, hrun₃, -, hstep₃, ht, hwalk, hread⟩ := hafter.of_select ht
      rcases hread with ⟨e, rfl, he, rfl⟩ | ⟨ho', rfl, rfl⟩
      · obtain ⟨rfl, -, rfl⟩ := hwalk.of_done ht
        exact .inl ⟨e, rfl, he, by simp⟩
      · obtain ⟨hsees, hwalked⟩ := ends_walkFetches hwalk ht
        refine .inr ⟨c, s₁', s₂, hrun₁.trans hstep, hdb', hrun₂, ho, .inr ⟨ws, _, later, hws, rfl, ?_, hwalked⟩⟩
        exact .read (hstep₂.trans hrun₃) ho' (hsees.after hstep₃)

/-- What the cursor hands over are the first rows of each witness in a table that the walk has seen. -/
theorem handed_of_sees {d : Database} {w : W} {c : ConnId} {s₂ : LedgerSys L W} {v : Database} {nows : List Database}
    (hrun : LedgerRun rules (startSys d w) s₂) (hsees : Sees Call.body rules c s₂ (v :: nows) s) (cursor : Cursor) :
    List.IsChain Grow (v.attestations :: nows.map Database.attestations) ∧
      ∃ s₃, LedgerRun rules s₂ s₃ ∧ c ∈ s₃.shared.file.opened ∧ LedgerRun rules s₃ s ∧
        Firsts ((cursor.scan v.attestations).handed (nows.map Database.attestations))
          (s₃.shared.file.view c).data.attestations.rows := by
  have hchain : List.IsChain Grow (v.attestations :: nows.map Database.attestations) :=
    ((List.isChain_map Database.attestations).mpr (hsees.isChain fun s₃ s₄ h h' ho =>
      ((rows_of_run (hrun.trans h) h').2.2 c ho).2)).tail
  obtain ⟨u, hu, hfirsts⟩ := (cursor.handsOver v.attestations).firsts hchain (firsts_nil _)
  obtain ⟨z, hz, rfl⟩ := List.mem_map.mp (show u ∈ List.map Database.attestations (v :: nows) from hu)
  obtain ⟨s₃, hrun₃, ho₃, rfl, hrest⟩ := hsees.mem hz
  exact ⟨hchain, s₃, hrun₃, ho₃, hrest, hfirsts⟩

/-- The number of attestations that the connection sees. -/
def attestationCount (c : ConnId) (s : LedgerSys L W) : ℕ := (s.shared.file.view c).data.attestations.rows.length

/-- A count between the number of attestations at the start and at the end, as seen on the connection of the
ledger, or an exception that comes from that connection. -/
def NoFalseAlarm (i : InstId) (s₀ s : LedgerSys L W) : Except PyError Result → Prop
  | .ok (.count n) => ∃ c, (s.shared.handles i).db = some c ∧ attestationCount c s₀ ≤ n ∧ n ≤ attestationCount c s
  | .ok _ => False
  | .error e => OfConnection e

/-- What the cursor has handed over, as far as the call has read: of the witnesses that it read first. -/
def HandedKnown (cursor : Cursor) (reads : List Database) : Prop :=
  ∀ u v nows, reads = u :: v :: nows →
    Known u ((cursor.scan v.attestations).handed (nows.map Database.attestations))

end Calls

section Examples

/-- The system after the call. -/
def afterCall (cursor : Cursor) (s : LedgerSys offline Unit) : LedgerSys offline Unit :=
  ⟨s.shared, s.tasks ++ [⟨0, .verifyWitnessAttestations echoVerifier cursor,
    (Call.verifyWitnessAttestations echoVerifier cursor).body⟩]⟩

/-- An entry. -/
def logged : List (LedgerEvent offline Unit) := .connect 0 :: logScript (stoppedClock offline) 0 0 "a"

/-- After the witnesses have been read, one is registered and attests. -/
def registeredMeanwhile : List (LedgerEvent offline Unit) :=
  proceeds 1 2 ++ registerScript (stoppedClock offline) 0 2 "w" "00" ++
    attestScript (stoppedClock offline) 0 3 1 (echoSigner "00") ++ proceeds 1 2

def twoWitnesses : List (LedgerEvent offline Unit) :=
  logged ++ registerScript (stoppedClock offline) 0 1 "w" "00" ++ registerScript (stoppedClock offline) 0 2 "x" "01" ++
    attestScript (stoppedClock offline) 0 3 1 (echoSigner "00")

/-- After the cursor has been opened, the other witness attests. -/
def attestedMeanwhile : List (LedgerEvent offline Unit) :=
  proceeds 4 3 ++ attestScript (stoppedClock offline) 0 5 2 (echoSigner "01") ++ proceeds 4 2

theorem honest_beside : ∀ p ∈ callsOf (logged ++ registeredMeanwhile ++ twoWitnesses ++ attestedMeanwhile),
    p.1 = 0 ∧ HonestCall echoVerifier p.2 := by
  simp [logged, registeredMeanwhile, twoWitnesses, attestedMeanwhile, HonestCall, logCall, honest_echoSigner]

theorem allowed_beside {e : LedgerEvent offline Unit}
    (h : e ∈ logged ++ registeredMeanwhile ++ twoWitnesses ++ attestedMeanwhile) (s : LedgerSys offline Unit) :
    (oneLedger 0 echoVerifier).Allows s e := by
  cases e with
  | call i c => exact honest_beside (i, c) (mem_callsOf.mpr h)
  | run | connect | close | detach => simp [Rules.Allows, oneLedger]

theorem getElem?_afterCall {cursor : Cursor} {s : LedgerSys offline Unit} {t : TaskId} (h : s.tasks.length = t) :
    (afterCall cursor s).tasks[t]? = some ⟨0, .verifyWitnessAttestations echoVerifier cursor,
      (Call.verifyWitnessAttestations echoVerifier cursor).body⟩ := by
  subst h
  exact List.getElem?_concat_length

theorem run_afterCall {cursor : Cursor} {s : LedgerSys offline Unit} :
    LedgerRun (oneLedger 0 echoVerifier) s (afterCall cursor s) :=
  .single ⟨.call 0 (.verifyWitnessAttestations echoVerifier cursor), ⟨rfl, trivial⟩, rfl⟩

/-- The result of a task that has ended. -/
def resultOf (t : TaskId) (s : LedgerSys offline Unit) : Option (Except PyError Result) :=
  match s.tasks[t]? with
  | some ⟨_, _, .done r⟩ => some r
  | _ => none

theorem ends_resultOf {t : TaskId} {s s' : LedgerSys offline Unit} {reads : List Database} {es : List (LedgerEvent offline Unit)}
    (hes : ∀ e ∈ es, ∀ s : LedgerSys offline Unit, (oneLedger 0 echoVerifier).Allows s e)
    (h : runReading Call.body t es s = some (reads, s')) :
    ∃ r, resultOf t s' = some r ∧ Ends Call.body (oneLedger 0 echoVerifier) t s reads s' r := by
  obtain ⟨r, hends⟩ := ends_of_runReading hes h
  obtain ⟨i, c, ht⟩ := hends.result
  exact ⟨r, by rw [resultOf, ht], hends⟩

def raisedWith (m : String) : Option (Except PyError Result) → Bool
  | some (.error e) => e = .witnessVerificationError m
  | _ => false

theorem eq_of_raisedWith {m : String} {r : Except PyError Result} (h : raisedWith m (some r)) :
    r = .error (.witnessVerificationError m) := by
  cases r with
  | ok a => cases h
  | error e => rw [of_decide_eq_true h]

def countedAs (n : ℕ) : Option (Except PyError Result) → Bool
  | some (.ok (.count m)) => m = n
  | _ => false

theorem eq_of_countedAs {n : ℕ} {r : Except PyError Result} (h : countedAs n (some r)) : r = .ok (.count n) := by
  cases r with
  | error e => cases h
  | ok a =>
    cases a with
    | count m => rw [of_decide_eq_true h]
    | _ => cases h

/-- `HandedKnown`, computed. -/
def readsKnown (cursor : Cursor) : List Database → Bool
  | u :: v :: nows => ((cursor.scan v.attestations).handed (nows.map Database.attestations)).all fun a =>
      u.witnesses.rows.any fun w => w.witnessId = a.witnessId
  | _ => true

theorem handedKnown_of_readsKnown {cursor : Cursor} {reads : List Database} (h : readsKnown cursor reads) :
    HandedKnown cursor reads := by
  rintro u v nows rfl a ha
  obtain ⟨w, hw, hid⟩ := List.any_eq_true.mp (List.all_eq_true.mp h a ha)
  exact ⟨w, hw, of_decide_eq_true hid⟩

end Examples

end NexusCone.WitnessAlarms
