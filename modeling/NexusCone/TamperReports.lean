import NexusCone.ChainTamperEvidence
import NexusCone.SoloRun
import NexusCone.VerifierCli
import NexusCone.WitnessAlarms

/-!
# What the verification walks raise

`verify_chain` decodes a signature outside of any handler, and `verify_witness_attestations` the dates of
the witnesses. Where these are readable, both walks report every fault as a verification error.
-/
namespace NexusCone.TamperReports
open ExceptResults HexBytes PyValue IsoTime HashChain SharedFile AsyncProgram SoloRun LedgerSchema EntryChain
  WitnessChain WitnessCursor TimestampAuthority Ledger LedgerRuns ChainTamperEvidence WitnessStore WitnessWalks
  WitnessAlarms

section Entries

variable {verifier : Option Verifier} {expected : String} {row : EntryRow} {rows pre post : List EntryRow} {e : PyError}

/-- The walk comes to this signature: the rows are linked up to it, their hashes recompute, and the earlier
signatures verify. -/
structure SignatureReached (verifier : Option Verifier) (expected : String) (pre : List EntryRow) (row : EntryRow)
    (signature : String) : Prop where
  linked : Linked EntryRow.previousHash EntryRow.entryHash expected (pre ++ [row])
  hashed : ∀ r ∈ pre ++ [row], r.entryHash = recomputed r
  signed : ∀ r ∈ pre, Signed verifier r
  given : verifier.isSome
  stored : row.signature = some signature

/-- The signatures that the walk comes to are hexadecimal. -/
def ReadableSignatures (verifier : Option Verifier) (expected : String) (rows : List EntryRow) : Prop :=
  ∀ pre row post signature, rows = pre ++ row :: post → SignatureReached verifier expected pre row signature →
    (fromHex signature).isSome

/-- A row is refused with a verification error, or its signature is not hexadecimal. -/
theorem verifyEntry_error (hverify : ∀ verify ∈ verifier, ∀ k m s, ∃ b, verify k m s = .ok b)
    (h : verifyEntry verifier expected row = .error e) :
    (∃ m, e = .chainVerificationError m) ∨
      ∃ signature, SignatureReached verifier expected [] row signature ∧ fromHex signature = none := by
  unfold verifyEntry at h
  split_ifs at h with hprev hhash
  · cases h
    exact .inl ⟨_, rfl⟩
  · cases h
    exact .inl ⟨_, rfl⟩
  split at h
  · rename_i verify signature hsignature
    split at h
    · rename_i hhex
      refine .inr ⟨signature, ⟨⟨not_not.mp hprev, trivial⟩, ?_, by simp, rfl, hsignature⟩, hhex⟩
      exact List.forall_mem_singleton.mpr (not_not.mp hhash).symm
    · rename_i bytes hhex
      obtain ⟨b, hb⟩ := hverify verify rfl row.signingKeyId (Canonical.utf8 row.entryHash) bytes
      rw [hb] at h
      cases b with
      | true => cases h
      | false =>
        cases h
        exact .inl ⟨_, rfl⟩
  · cases h

/-- An accepted row comes before the others. -/
theorem SignatureReached.cons {first : EntryRow} {signature : String}
    (hfirst : verifyEntry verifier expected first = .ok ())
    (h : SignatureReached verifier first.entryHash pre row signature) :
    SignatureReached verifier expected (first :: pre) row signature := by
  obtain ⟨hprev, hhash, hsigned⟩ := verifyEntry_ok.mp hfirst
  exact ⟨⟨hprev, h.linked⟩, List.forall_mem_cons.mpr ⟨hhash, h.hashed⟩, List.forall_mem_cons.mpr ⟨hsigned, h.signed⟩,
    h.given, h.stored⟩

theorem SignatureReached.uncons {first : EntryRow} {signature : String}
    (h : SignatureReached verifier expected (first :: pre) row signature) :
    verifyEntry verifier expected first = .ok () ∧ SignatureReached verifier first.entryHash pre row signature := by
  obtain ⟨hhash, hhashed⟩ := List.forall_mem_cons.mp h.hashed
  obtain ⟨hsign, hsigned⟩ := List.forall_mem_cons.mp h.signed
  exact ⟨verifyEntry_ok.mpr ⟨h.linked.1, hhash, hsign⟩, h.linked.2, hhashed, hsigned, h.given, h.stored⟩

theorem verifyEntries_error (hverify : ∀ verify ∈ verifier, ∀ k m s, ∃ b, verify k m s = .ok b)
    (h : verifyEntries verifier expected rows = .error e) :
    (∃ m, e = .chainVerificationError m) ∨ ∃ pre row post signature, rows = pre ++ row :: post ∧
      SignatureReached verifier expected pre row signature ∧ fromHex signature = none := by
  induction rows generalizing expected with
  | nil => cases h
  | cons first rows ih =>
    rcases bind_error h with hfirst | ⟨u, hfirst, hrest⟩
    · rcases verifyEntry_error hverify hfirst with hm | ⟨signature, hreached, hbad⟩
      · exact .inl hm
      · exact .inr ⟨[], first, rows, signature, rfl, hreached, hbad⟩
    · rcases ih hrest with hm | ⟨pre, row, post, signature, rfl, hreached, hbad⟩
      · exact .inl hm
      · exact .inr ⟨first :: pre, row, post, signature, rfl, hreached.cons hfirst, hbad⟩

/-- The walk stops with the `ValueError` of `bytes.fromhex`. -/
theorem verifyEntries_unreadable {signature : String} (h : SignatureReached verifier expected pre row signature)
    (hbad : fromHex signature = none) : verifyEntries verifier expected (pre ++ row :: post) =
      .error (.valueError "non-hexadecimal number found in fromhex() arg") := by
  induction pre generalizing expected with
  | nil =>
    obtain ⟨verify, rfl⟩ := Option.isSome_iff_exists.mp h.given
    have hhash : recomputed row = row.entryHash := (List.forall_mem_singleton.mp h.hashed).symm
    have hrow : verifyEntry (some verify) expected row =
        .error (.valueError "non-hexadecimal number found in fromhex() arg") := by
      unfold verifyEntry
      rw [if_neg (not_not.mpr h.linked.1), if_neg (not_not.mpr hhash)]
      simp only [h.stored, hbad]
    rw [List.nil_append, verifyEntries, hrow]
    rfl
  | cons first pre ih =>
    obtain ⟨hfirst, hrest⟩ := h.uncons
    rw [List.cons_append, verifyEntries, hfirst]
    exact ih hrest

/-- The row count, or a verification error of the chain. -/
def ReportsChain (rows : List EntryRow) (r : Except PyError ℕ) : Prop :=
  r = .ok rows.length ∨ ∃ m, r = .error (.chainVerificationError m)

theorem reportsChain_iff (hverify : ∀ verify ∈ verifier, ∀ k m s, ∃ b, verify k m s = .ok b) :
    ReportsChain rows (EntryChain.verifyChain verifier rows) ↔
      ReadableSignatures verifier genesisPreviousHash rows := by
  unfold EntryChain.verifyChain
  cases hwalk : verifyEntries verifier genesisPreviousHash rows with
  | ok u =>
    refine iff_of_true (.inl rfl) fun pre row post signature hrows hreached => ?_
    by_contra hbad
    rw [hrows, verifyEntries_unreadable hreached (Option.not_isSome_iff_eq_none.mp hbad)] at hwalk
    cases hwalk
  | error e =>
    rcases verifyEntries_error hverify hwalk with ⟨m, rfl⟩ | ⟨pre, row, post, signature, rfl, hreached, hbad⟩
    · refine iff_of_true (.inr ⟨m, rfl⟩) fun pre row post signature hrows hreached => ?_
      by_contra hbad
      rw [hrows, verifyEntries_unreadable hreached (Option.not_isSome_iff_eq_none.mp hbad)] at hwalk
      cases hwalk
    · rw [verifyEntries_unreadable hreached hbad] at hwalk
      cases hwalk
      refine iff_of_false ?_ fun hreadable => ?_
      · rintro (h | ⟨m, h⟩) <;> cases h
      · have hsome := hreadable pre row post signature rfl hreached
        rw [hbad] at hsome
        cases hsome

end Entries

section Witnesses

variable [IsoTime.Platform] {verifier : Verifier} {witnessRows : List WitnessRow} {rows : List AttestationRow}

/-- The dates of the witnesses are ones that `fromisoformat` reads. -/
def ReadableDates (rows : List WitnessRow) : Prop :=
  ∀ row ∈ rows, (parseIso row.createdAt).isSome ∧ ∀ s ∈ row.retiredAt, (parseIso s).isSome

/-- The row count, or a verification error of the witnesses. -/
def ReportsWitnesses (rows : List AttestationRow) (r : Except PyError ℕ) : Prop :=
  r = .ok rows.length ∨ ∃ m, r = .error (.witnessVerificationError m)

theorem readTimeColumn_cases (s : String) : (∃ t, readTimeColumn s = .ok t ∧ (parseIso s).isSome) ∨
    ∃ m, readTimeColumn s = .error (.valueError m) ∧ (parseIso s).isSome = false := by
  unfold readTimeColumn
  cases parseIso s with
  | some t => exact .inl ⟨t, rfl, rfl⟩
  | none => exact .inr ⟨_, rfl, rfl⟩

/-- A row of readable dates is read, and another one raises a `ValueError`. -/
theorem rowToWitness_cases (row : WitnessRow) :
    ((∃ w, rowToWitness row = .ok w) ∧ (parseIso row.createdAt).isSome ∧ ∀ s ∈ row.retiredAt, (parseIso s).isSome) ∨
      (∃ m, rowToWitness row = .error (.valueError m)) ∧
        ¬ ((parseIso row.createdAt).isSome ∧ ∀ s ∈ row.retiredAt, (parseIso s).isSome) := by
  have hcreated := readTimeColumn_cases row.createdAt
  unfold rowToWitness
  cases hr : row.retiredAt with
  | none =>
    rcases hcreated with ⟨t, ht, hsome⟩ | ⟨m, hm, hnone⟩
    · refine .inl ⟨⟨_, by rw [ht]; rfl⟩, hsome, by rintro s ⟨⟩⟩
    · exact .inr ⟨⟨m, by rw [hm]; rfl⟩, fun h => by rw [hnone] at h; cases h.1⟩
  | some s =>
    rcases readTimeColumn_cases s with ⟨t', ht', hsome'⟩ | ⟨m, hm, hnone⟩
    · rcases hcreated with ⟨t, ht, hsome⟩ | ⟨m, hm, hnone⟩
      · refine .inl ⟨⟨_, by rw [readTimeColumn?, ht', ht]; rfl⟩, hsome, ?_⟩
        rintro s' ⟨⟩
        exact hsome'
      · exact .inr ⟨⟨m, by rw [readTimeColumn?, ht', hm]; rfl⟩, fun h => by rw [hnone] at h; cases h.1⟩
    · refine .inr ⟨⟨m, by rw [readTimeColumn?, hm]; rfl⟩, fun h => ?_⟩
      have hsome := h.2 s rfl
      rw [hnone] at hsome
      cases hsome

theorem reportsWitnesses_iff :
    ReportsWitnesses rows (WitnessChain.verifyWitnessAttestations verifier witnessRows rows) ↔
      ReadableDates witnessRows := by
  unfold WitnessChain.verifyWitnessAttestations
  cases hread : witnessRows.mapM rowToWitness with
  | error e =>
    obtain ⟨row, hrow, he⟩ := mapM_error hread
    rcases rowToWitness_cases row with ⟨⟨w, hw⟩, -⟩ | ⟨⟨m, hm⟩, hbad⟩
    · rw [hw] at he
      cases he
    · rw [hm] at he
      cases he
      refine iff_of_false ?_ fun hdates => hbad (hdates row hrow)
      rintro (h | ⟨m, h⟩) <;> cases h
  | ok ws =>
    refine iff_of_true ?_ fun row hrow => ?_
    · show ReportsWitnesses rows (walkWitnessAttestations verifier ws rows)
      rw [walkWitnessAttestations]
      cases hwalk : verifyAttestations verifier (witnessesById ws) (fun _ => genesisWitnessPrevHash)
          (rows.insertionSort byWitness) with
      | ok u => exact .inl rfl
      | error e =>
        obtain ⟨m, rfl⟩ := verifyAttestations_error hwalk
        exact .inr ⟨m, rfl⟩
    · obtain ⟨w, hw⟩ := exists_mapM_ok.mp ⟨ws, hread⟩ row hrow
      rcases rowToWitness_cases row with ⟨-, hdates⟩ | ⟨⟨m, hm⟩, -⟩
      · exact hdates
      · rw [hm] at hw
        cases hw

end Witnesses

section Calls

variable [IsoTime.Platform] {W : Type} {L : Libraries} {answers : Answers Request (Reply L) PyError W} {c : ConnId}

omit [IsoTime.Platform] in
theorem solo_verifyChain (verifier : Option Verifier) (x : Solo Database W) :
    solo answers c (Ledger.verifyChain (L := L) verifier) x =
      some (EntryChain.verifyChain verifier x.view.entries.rows, x) := by
  rw [Ledger.verifyChain, requireDb, solo_ok_bind (solo_connection x), solo_ok_bind (solo_select x)]
  rfl

omit [IsoTime.Platform] in
/-- Without a verifier, no signature is decoded. -/
theorem unverified_reports (rows : List EntryRow) : ReportsChain rows (EntryChain.verifyChain none rows) := by
  refine (reportsChain_iff (by rintro verify ⟨⟩)).mpr fun pre row post signature _ hreached => ?_
  cases hreached.given

omit [IsoTime.Platform] in
/-- Every fault of the chain gives an exit code of the default check. -/
theorem cli_reports (d : Database) : ∃ p, VerifierCli.verifyChain d = .ok p := by
  unfold VerifierCli.verifyChain
  rcases unverified_reports d.entries.rows with h | ⟨m, h⟩
  · rw [h]
    exact ⟨_, rfl⟩
  · rw [h]
    exact ⟨_, rfl⟩

end Calls

section Examples

/-- A chained row with this text for its signature. -/
def signedRow (signature : String) : EntryRow :=
  { rowAfter 1 genesisPreviousHash 2 with signature := some signature, signingKeyId := some "key" }

def registeredRow (createdAt : String) : WitnessRow := ⟨1, "witness", "00", "auditor", createdAt, none⟩

/-- The tables with one entry and one witness. -/
def storing (signature createdAt : String) : Solo Database Unit :=
  let d := { Database.empty with
    entries := ⟨[signedRow signature], 1, List.pairwise_singleton _ _⟩
    witnesses := ⟨[registeredRow createdAt], 1, List.pairwise_singleton _ _⟩ }
  ⟨d, d, false, ()⟩

theorem reached_signedRow (signature : String) :
    SignatureReached (some acceptAll) genesisPreviousHash [] (signedRow signature) signature :=
  ⟨⟨rfl, trivial⟩, List.forall_mem_singleton.mpr rfl, by simp, rfl, rfl⟩

theorem readableSignatures_storing {signature createdAt : String} :
    ReadableSignatures (some acceptAll) genesisPreviousHash (storing signature createdAt).view.entries.rows ↔
      (fromHex signature).isSome := by
  refine ⟨fun h => h [] _ [] _ rfl (reached_signedRow signature), fun h pre row post s hrows hreached => ?_⟩
  obtain ⟨rfl, rfl⟩ : pre = [] ∧ row = signedRow signature := by
    rcases pre with _ | ⟨first, pre⟩
    · exact ⟨rfl, (List.cons.inj hrows).1.symm⟩
    · have hnil := (List.cons.inj hrows).2
      simp at hnil
  cases hreached.stored
  exact h

theorem readableDates_storing {signature createdAt : String} :
    ReadableDates (storing signature createdAt).view.witnesses.rows ↔ (parseIso createdAt).isSome := by
  refine ⟨fun h => (h _ (List.mem_singleton.mpr rfl)).1, fun h => List.forall_mem_singleton.mpr ⟨h, ?_⟩⟩
  rintro s ⟨⟩

end Examples

/-- A signature `"zz"` and a registration `"tomorrow"`. -/
theorem storing_escapes : ∃ r r',
    solo (unanswered .cancelled) 0 (Ledger.verifyChain (L := offline) (some acceptAll)) (storing "zz" "tomorrow") =
      some (r, storing "zz" "tomorrow") ∧
    solo (unanswered .cancelled) 0 (Ledger.verifyWitnessAttestations (L := offline) acceptAll .sortedAtOpening)
      (storing "zz" "tomorrow") = some (r', storing "zz" "tomorrow") ∧
    ¬ ReportsChain (storing "zz" "tomorrow").view.entries.rows r ∧
    ¬ ReportsWitnesses (storing "zz" "tomorrow").view.attestations.rows r' := by
  refine ⟨_, _, solo_verifyChain _ _, solo_verifyWitnessAttestations _ _ _, fun h => ?_, fun h => ?_⟩
  · have hreadable := (reportsChain_iff (by rintro _ ⟨⟩ k m s; exact ⟨true, rfl⟩)).mp h
    revert hreadable
    rw [readableSignatures_storing]
    decide
  · have hdates := reportsWitnesses_iff.mp h
    revert hdates
    rw [readableDates_storing]
    decide +kernel

/-- The walks return or report the tampering exactly if they can decode the signatures that they come to and
the dates of the witnesses; without a verifier the chain walk always does, and so does the command line. -/
theorem reportsTampering_iff [IsoTime.Platform] {W : Type} {L : Libraries}
    (answers : Answers Request (Reply L) PyError W) (c : ConnId) (verifier : Verifier) (cursor : Cursor)
    (hverify : ∀ k m s, ∃ b, verifier k m s = .ok b) (x : Solo Database W) :
    ∃ r r' r₀,
      solo answers c (Ledger.verifyChain (L := L) (some verifier)) x = some (r, x) ∧
      solo answers c (Ledger.verifyWitnessAttestations (L := L) verifier cursor) x = some (r', x) ∧
      solo answers c (Ledger.verifyChain (L := L) none) x = some (r₀, x) ∧
      (ReportsChain x.view.entries.rows r ↔
        ReadableSignatures (some verifier) genesisPreviousHash x.view.entries.rows) ∧
      (ReportsWitnesses x.view.attestations.rows r' ↔ ReadableDates x.view.witnesses.rows) ∧
      ReportsChain x.view.entries.rows r₀ ∧ ∃ p, VerifierCli.verifyChain x.view = .ok p := by
  refine ⟨_, _, _, solo_verifyChain _ x, solo_verifyWitnessAttestations _ _ x, solo_verifyChain _ x, ?_,
    reportsWitnesses_iff, unverified_reports _, cli_reports _⟩
  refine reportsChain_iff fun verify hmem => ?_
  cases hmem
  exact hverify

/-- The same tables with a hexadecimal signature and a date. -/
theorem reportsTampering_iff_storing : ∃ r r',
    solo (unanswered .cancelled) 0 (Ledger.verifyChain (L := offline) (some acceptAll))
      (storing "00" "2026-01-01T12:00:00.000000Z") = some (r, storing "00" "2026-01-01T12:00:00.000000Z") ∧
    solo (unanswered .cancelled) 0 (Ledger.verifyWitnessAttestations (L := offline) acceptAll .sortedAtOpening)
      (storing "00" "2026-01-01T12:00:00.000000Z") = some (r', storing "00" "2026-01-01T12:00:00.000000Z") ∧
    ReportsChain (storing "00" "2026-01-01T12:00:00.000000Z").view.entries.rows r ∧
    ReportsWitnesses (storing "00" "2026-01-01T12:00:00.000000Z").view.attestations.rows r' := by
  obtain ⟨r, r', r₀, hchain, hwitnesses, -, hsignatures, hdates, -⟩ :=
    reportsTampering_iff (unanswered .cancelled) 0 acceptAll .sortedAtOpening (fun _ _ _ => ⟨true, rfl⟩)
      (storing "00" "2026-01-01T12:00:00.000000Z")
  refine ⟨r, r', hchain, hwitnesses, hsignatures.mpr (readableSignatures_storing.mpr ?_),
    hdates.mpr (readableDates_storing.mpr ?_)⟩
  · decide
  · decide +kernel

end NexusCone.TamperReports
