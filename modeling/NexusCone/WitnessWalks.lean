import NexusCone.LedgerRuns
import NexusCone.SoloRun
import NexusCone.TaskRuns

/-!
# The walk over the attestations as the ledger runs it

Fetch by fetch the walk judges what the cursor hands over. Alone, it is the walk over the whole table;
beside other tasks, over rows of the tables that its fetches have found.
-/
namespace NexusCone.WitnessWalks
open KeyedTable SharedFile AsyncProgram AsyncSystem SoloRun TaskRuns PyValue LedgerSchema EntryChain WitnessChain
  WitnessCursor TimestampAuthority Ledger LedgerRuns

variable {W : Type} {L : Libraries} {verifier : Verifier} {byId : ℤ → Option Witness} {c : ConnId}

section Alone

variable {answers : Answers Request (Reply L) PyError W} {x : Solo Database W}

variable (verifier byId c answers) in
theorem solo_walkFetches {scan : Scan} {before : List AttestationRow} (hfirsts : Firsts before x.view.attestations.rows)
    (hsorted : before.Pairwise byWitness)
    (h : scan.HandsOver x.view.attestations x.view.attestations before) (prev : ℤ → String) (n : ℕ) :
    ∃ left, before ++ left = x.view.attestations.rows.insertionSort byWitness ∧
      solo answers c (walkFetches (L := L) verifier byId c scan prev n) x =
        some ((verifyAttestations verifier byId prev left).map fun _ => n + left.length, x) := by
  have hall (hall : x.view.attestations.rows ⊆ before) :
      before ++ [] = x.view.attestations.rows.insertionSort byWitness := by
    rw [List.append_nil]
    exact eq_insertionSort hfirsts hsorted hall
  induction scan generalizing before prev n with
  | last => exact ⟨[], hall h, by rw [walkFetches, solo_ok_bind (solo_select x)]; rfl⟩
  | fetch rows rest ih =>
    obtain ⟨hfetched, hnone, hrest⟩ := h x.view.attestations List.prefix_rfl
    rw [walkFetches, solo_ok_bind (solo_select x)]
    by_cases hrows : rows x.view.attestations = []
    · exact ⟨[], hall (hnone hrows), by simp only [if_pos hrows]; rfl⟩
    · simp only [if_neg hrows]
      obtain ⟨left, hleft, hsolo⟩ := ih _ hfetched.firsts hfetched.sorted hrest
        (expectedAfter prev (rows x.view.attestations)) (n + (rows x.view.attestations).length)
        (fun hall => by
          rw [List.append_nil]
          exact eq_insertionSort hfetched.firsts hfetched.sorted hall)
      refine ⟨rows x.view.attestations ++ left, by rw [← List.append_assoc, hleft], ?_⟩
      rw [verifyAttestations_append]
      cases verifyAttestations verifier byId prev (rows x.view.attestations) with
      | error e => rfl
      | ok u =>
        refine hsolo.trans ?_
        rw [List.length_append, Nat.add_assoc]
        rfl

/-- Alone, the walk of the ledger is that over the rows of its connection. -/
theorem solo_verifyWitnessAttestations [IsoTime.Platform] (verifier : Verifier) (cursor : Cursor)
    (x : Solo Database W) :
    solo answers c (Ledger.verifyWitnessAttestations (L := L) verifier cursor) x =
      some (WitnessChain.verifyWitnessAttestations verifier x.view.witnesses.rows x.view.attestations.rows, x) := by
  rw [Ledger.verifyWitnessAttestations, requireDb, solo_ok_bind (solo_connection x), solo_ok_bind (solo_select x),
    WitnessChain.verifyWitnessAttestations]
  cases x.view.witnesses.rows.mapM rowToWitness with
  | error e => rfl
  | ok ws =>
    rw [solo_ok_bind (solo_done _ _), solo_ok_bind (solo_select x)]
    obtain ⟨left, hleft, hsolo⟩ := solo_walkFetches verifier (witnessesById ws) c answers (firsts_nil _)
      List.Pairwise.nil (cursor.handsOver x.view.attestations) (fun _ => genesisWitnessPrevHash) 0
    rw [List.nil_append] at hleft
    subst hleft
    rw [hsolo, Nat.zero_add, List.length_insertionSort]
    show _ = some (walkWitnessAttestations _ _ _, x)
    rw [walkWitnessAttestations]
    cases verifyAttestations verifier (witnessesById ws) (fun _ => genesisWitnessPrevHash)
        (x.view.attestations.rows.insertionSort byWitness) with
    | error e => rfl
    | ok u => rfl

end Alone

section Beside

variable {rules : LedgerRules L W} {i : InstId} {t : TaskId} {call : Call} {s s' : LedgerSys L W}
variable {reads : List Database} {r : Except PyError Result}

/-- How a walk ends whose fetches find these tables: with the first fault of what they hand over, with a failure
of its connection, or with the number of those rows. -/
inductive Walked (verifier : Verifier) (byId : ℤ → Option Witness) (c : ConnId) (scan : Scan) (prev : ℤ → String)
    (n : ℕ) (nows : List (Table AttestationRow)) (s' : LedgerSys L W) : Except PyError Result → Prop
  | alarmed {e} (h : verifyAttestations verifier byId prev (scan.handed nows) = .error e) :
    Walked verifier byId c scan prev n nows s' (.error e)
  | failed {e} (h : verifyAttestations verifier byId prev (scan.handed nows) = .ok ()) (he : OfConnection e) :
    Walked verifier byId c scan prev n nows s' (.error e)
  | counted (h : verifyAttestations verifier byId prev (scan.handed nows) = .ok ()) (hend : scan.Exhausts nows)
      (ho : c ∈ s'.shared.file.opened) :
    Walked verifier byId c scan prev n nows s' (.ok (.count (n + (scan.handed nows).length)))

/-- A fetch whose rows pass lets the walk go on as one after them. -/
theorem Walked.fetch {rows : Table AttestationRow → List AttestationRow} {rest : Table AttestationRow → Scan}
    {prev : ℤ → String} {n : ℕ} {now : Table AttestationRow} {later : List (Table AttestationRow)}
    (hrows : rows now ≠ []) (hok : verifyAttestations verifier byId prev (rows now) = .ok ())
    (h : Walked verifier byId c (rest now) (expectedAfter prev (rows now)) (n + (rows now).length) later s' r) :
    Walked verifier byId c (.fetch rows rest) prev n (now :: later) s' r := by
  have hwalk : verifyAttestations verifier byId prev ((Scan.fetch rows rest).handed (now :: later)) =
      verifyAttestations verifier byId (expectedAfter prev (rows now)) ((rest now).handed later) := by
    rw [Scan.handed, verifyAttestations_append, hok]
    rfl
  cases h with
  | alarmed h => exact .alarmed (hwalk.trans h)
  | failed h he => exact .failed (hwalk.trans h) he
  | counted h hend ho =>
    have hcounted := Walked.counted (n := n) (hwalk.trans h) (by rw [Scan.Exhausts, if_neg hrows]; exact hend) ho
    rwa [Scan.handed, List.length_append, ← Nat.add_assoc] at hcounted

variable [IsoTime.Platform]

theorem ends_walkFetches {scan : Scan} {prev : ℤ → String} {n : ℕ} (hends : Ends Call.body rules t s reads s' r)
    (ht : s.tasks[t]? = some ⟨i, call, walkFetches verifier byId c scan prev n >>= fun n => pure (Result.count n)⟩) :
    Sees Call.body rules c s reads s' ∧
      Walked verifier byId c scan prev n (reads.map Database.attestations) s' r := by
  induction scan generalizing s reads prev n with
  | last =>
    obtain ⟨s₁, x, s₂, later, hrun, hsame, hstep, ht', hafter, hread⟩ := hends.of_select ht
    rcases hread with ⟨e, rfl, he, rfl⟩ | ⟨ho, rfl, rfl⟩
    · obtain ⟨rfl, -, rfl⟩ := hafter.of_done ht'
      exact ⟨.nothing (hrun.trans (hstep.trans hafter.run)), .failed rfl he⟩
    · obtain ⟨rfl, rfl, rfl⟩ := hafter.of_done ht'
      exact ⟨.read hrun ho (.nothing hstep), .counted rfl rfl (hsame ▸ ho)⟩
  | fetch rows rest ih =>
    obtain ⟨s₁, x, s₂, later, hrun, hsame, hstep, ht', hafter, hread⟩ := hends.of_select ht
    rcases hread with ⟨e, rfl, he, rfl⟩ | ⟨ho, rfl, rfl⟩
    · obtain ⟨rfl, -, rfl⟩ := hafter.of_done ht'
      exact ⟨.nothing (hrun.trans (hstep.trans hafter.run)), .failed rfl he⟩
    · have hsees {later' : List Database} (h : Sees Call.body rules c s₂ later' s') :
          Sees Call.body rules c s ((s₁.shared.file.view c).data :: later') s' := .read hrun ho (h.after hstep)
      change s₂.tasks[t]? = some ⟨i, call, ((if rows (s₁.shared.file.view c).data.attestations = [] then _ else _) >>=
        fun n => pure (Result.count n))⟩ at ht'
      by_cases hrows : rows (s₁.shared.file.view c).data.attestations = []
      · rw [if_pos hrows] at ht'
        obtain ⟨rfl, rfl, rfl⟩ := hafter.of_done ht'
        have hnone : (Scan.fetch rows rest).handed [(s₁.shared.file.view c).data.attestations] = [] := by
          rw [Scan.handed, hrows, handed_nil, List.append_nil]
        have hcounted : Walked verifier byId c (.fetch rows rest) prev n [(s₁.shared.file.view c).data.attestations]
            s' (.ok (.count (n + ((Scan.fetch rows rest).handed _).length))) :=
          .counted (by rw [hnone]; rfl) (by rw [Scan.Exhausts, if_pos hrows]) (hsame ▸ ho)
        rw [hnone] at hcounted
        exact ⟨hsees (.nothing .refl), hcounted⟩
      · rw [if_neg hrows] at ht'
        cases hok : verifyAttestations verifier byId prev (rows (s₁.shared.file.view c).data.attestations) with
        | error e =>
          rw [hok] at ht'
          obtain ⟨rfl, rfl, rfl⟩ := hafter.of_done ht'
          refine ⟨hsees (.nothing .refl), .alarmed ?_⟩
          simp only [List.map_cons, List.map_nil, Scan.handed, handed_nil, List.append_nil]
          exact hok
        | ok u =>
          rw [hok] at ht'
          obtain ⟨hlater, hwalked⟩ := ih _ hafter ht'
          exact ⟨hsees hlater, hwalked.fetch hrows hok⟩

end Beside

end NexusCone.WitnessWalks
