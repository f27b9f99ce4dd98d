import NexusCone.ChainTamperEvidence
import NexusCone.SignedHistory

/-!
# What one valid signature authenticates

A row that verifies under a signature was signed when it was logged, so it is a genuine row, and
the links below it leave no other rows for an accepted table than the genuine ones.
-/
namespace NexusCone.EntryAuthenticity
open HexBytes HashChain KeyedTable SharedFile AsyncProgram AsyncSystem PromptCommits PyValue Canonical LedgerSchema
  EntryChain WitnessChain TimestampAuthority Ledger LedgerOperations LedgerRuns LedgerGrowth ChainSafety
  ChainTamperEvidence SignedHistory

section Runs

variable [IsoTime.Platform] {W : Type} {L : Libraries} {rules : LedgerRules L W}

/-- A signed row of an accepted table bears the hash of a genuine row. -/
theorem genuine_of_signature {d : Database} {w : W} {h : List (LedgerSys L W)} {s : LedgerSys L W}
    (hrun : LedgerHistory rules (startSys d w) h s) (hreturn : SignersReturn h s) {verifier : Verifier}
    (hunforgeable : Unforgeable verifier d h) {row : EntryRow} (hhashed : row.entryHash = recomputed row)
    (hsigned : Signed (some verifier) row) (hsig : row.signature ≠ none) :
    ∃ r ∈ s.shared.file.committed.data.entries.rows, row.entryHash = r.entryHash := by
  obtain ⟨signature, hsignature⟩ := Option.ne_none_iff_exists'.mp hsig
  obtain ⟨bytes, -, hv⟩ := hsigned verifier signature rfl hsignature
  rcases hunforgeable.message hrun hreturn hv with ⟨r, hr, he⟩ | ⟨a, -, he⟩ | ⟨a, -, he⟩
  · exact ⟨r, hr, utf8_injective he⟩
  · exact absurd he.symm (attestationDigest_ne_utf8 a row hhashed)
  · exact absurd he.symm (attestationDigest_ne_utf8 a row hhashed)

theorem signature_authenticates_prefix {d : Database} (hd : Chained d.entries.rows) {w : W}
    {h : List (LedgerSys L W)} {s : LedgerSys L W} (hrun : LedgerHistory rules (startSys d w) h s)
    (hreturn : SignersReturn h s) {verifier : Verifier} (hunforgeable : Unforgeable verifier d h)
    {given : Table EntryRow} {n : ℕ} (haccepted : verifyChain (some verifier) given.rows = .ok n)
    (hcol : NoCollision (HashedIn (given.rows ++ s.shared.file.committed.data.entries.rows)))
    (hzero : ∀ text, HashedIn (given.rows ++ s.shared.file.committed.data.entries.rows) text →
      sha256Hex text ≠ genesisPreviousHash)
    {k : ℕ} (hk : k < given.rows.length) (hsig : given.rows[k].signature ≠ none) :
    ∀ j (hj : j ≤ k), ∃ hj' : j < s.shared.file.committed.data.entries.rows.length,
      SameHashed given.rows[j] s.shared.file.committed.data.entries.rows[j] := by
  obtain ⟨-, hchained, hsigned⟩ := verifyChain_iff.mp haccepted
  have hmem := List.getElem_mem hk
  obtain ⟨r, hr, hhash⟩ :=
    genuine_of_signature hrun hreturn hunforgeable (hchained.hashed _ hmem) (hsigned _ hmem) hsig
  obtain ⟨i, hi, rfl⟩ := List.getElem_of_mem hr
  exact (chained_agreement hchained (chained_of_run hd hrun.run) hcol hzero hk hi hhash).2

end Runs

section Examples

/-- A migrated row, an unsigned one and the reads of a signed one. -/
def untilSigned : List (LedgerEvent offline Unit) :=
  .connect 0 :: logScript (stoppedClock offline) 0 0 "a" ++
    .call 0 (.log "b" "act" none (some (echoSigner "00")) eventTypeRequest) :: asks (stoppedClock offline) 1 3

def migrated : Database := { Database.empty with entries := ⟨[legacyRow], 0, List.pairwise_singleton _ _⟩ }

/-- What the task is about to log. -/
def logging (t : TaskId) (s : LedgerSys offline Unit) : Option EntryRow :=
  match s.tasks[t]? with
  | some ⟨_, _, .perform (.execute _ (.insertEntry row)) _⟩ => some row
  | _ => none

theorem logging_eq_some {t : TaskId} {s : LedgerSys offline Unit} {row : EntryRow} (h : logging t s = some row) :
    ∃ i call c k, s.tasks[t]? = some ⟨i, call, .perform (.execute c (.insertEntry row)) k⟩ := by
  unfold logging at h
  split at h
  · rename_i ht
    cases h
    exact ⟨_, _, _, _, ht⟩
  · cases h

/-- A signature that the statement inserts is of the entry hash, under the scheme whose signatures are the messages. -/
def EchoSigned : Statement → Prop
  | .insertEntry row => ∀ signature, row.signature = some signature → fromHex signature = some (utf8 row.entryHash)
  | _ => True

/-- Entries only, which are not signed or signed with that scheme. -/
def EchoLog (call : Call) : Prop :=
  ∃ actor action payload eventType, call = .log actor action payload none eventType ∨
    call = .log actor action payload (some (echoSigner "00")) eventType

def echoLogs : LedgerRules offline Unit :=
  ⟨fun _ => EchoLog, fun _ _ _ _ _ => True, fun _ _ => True, fun _ _ => True⟩

theorem uses_echoSigned {call : Call} (h : EchoLog call) :
    (call.body (L := offline)).Uses (Op.executes EchoSigned) := by
  obtain ⟨actor, action, payload, eventType, rfl | rfl⟩ := h
  · refine Prog.Guarded.uses (Prog.Guarded.bind (guarded_log_of_rows (fun _ _ _ => ?_) _) fun _ => rfl)
    rintro _ ⟨⟩
  · refine Prog.Guarded.uses (Prog.Guarded.bind (guarded_log_of_rows (fun _ _ _ => ?_) _) fun _ => rfl)
    rintro signature h
    simp only [entryAfter, Option.map_some, Option.some.injEq] at h
    rw [← h, fromHex_hex]
    rfl

theorem computeEntryHash_second : computeEntryHash 2 "2026-01-01T12:00:00.000000Z" "a" "act" "{}"
    "a072e12c2b669a94d040c2a46d3503aabf2d479194f3eba423a68683bfd2cbe1" eventTypeRequest 2 =
      "ee40b1125e7158b3adf975e5f6402f91f5fbcbc61124ce56c061ca14e6a4a703" :=
  HashedTexts.computeEntryHash_ofList (by decide +kernel)

theorem computeEntryHash_third : computeEntryHash 3 "2026-01-01T12:00:00.000000Z" "b" "act" "{}"
    "ee40b1125e7158b3adf975e5f6402f91f5fbcbc61124ce56c061ca14e6a4a703" eventTypeRequest 2 =
      "2bf8d3a304a4691b8ef0c21b43e7cf72d1b34263b77e5f03c2bd89476e5d2b1f" :=
  HashedTexts.computeEntryHash_ofList (by decide +kernel)

/-- The hashes of the two entries that are logged after the migrated one. -/
theorem entryHashes_signed {a b c : EntryRow} (hchained : Chained [a, b, c]) (ha : a = legacyRow)
    (hb : rowFields b = ((2, 2), "2026-01-01T12:00:00.000000Z", "a", "act", "{}", "request"))
    (hc : rowFields c = ((3, 2), "2026-01-01T12:00:00.000000Z", "b", "act", "{}", "request")) :
    [a, b, c].map EntryRow.entryHash = ["a072e12c2b669a94d040c2a46d3503aabf2d479194f3eba423a68683bfd2cbe1",
      "ee40b1125e7158b3adf975e5f6402f91f5fbcbc61124ce56c061ca14e6a4a703",
      "2bf8d3a304a4691b8ef0c21b43e7cf72d1b34263b77e5f03c2bd89476e5d2b1f"] := by
  have hash : a.entryHash = "a072e12c2b669a94d040c2a46d3503aabf2d479194f3eba423a68683bfd2cbe1" := by
    rw [hchained.hashed a (by simp), ha]
    exact recomputed_legacyRow
  obtain ⟨-, hprev, hprev', -⟩ := hchained.linked
  simp only [rowFields, Prod.mk.injEq] at hb hc
  obtain ⟨⟨hid, hversion⟩, htime, hactor, haction, hpayload, hevent⟩ := hb
  have hash' : b.entryHash = "ee40b1125e7158b3adf975e5f6402f91f5fbcbc61124ce56c061ca14e6a4a703" := by
    rw [hchained.hashed b (by simp), recomputed, hid, htime, hactor, haction, hpayload, hevent, hversion, hprev, hash]
    exact computeEntryHash_second
  obtain ⟨⟨hid, hversion⟩, htime, hactor, haction, hpayload, hevent⟩ := hc
  have hash'' : c.entryHash = "2bf8d3a304a4691b8ef0c21b43e7cf72d1b34263b77e5f03c2bd89476e5d2b1f" := by
    rw [hchained.hashed c (by simp), recomputed, hid, htime, hactor, haction, hpayload, hevent, hversion, hprev',
      hash']
    exact computeEntryHash_third
  simp [hash, hash', hash'']

theorem signed_run : ∃ s₁ s : LedgerSys offline Unit, ∃ row, LedgerRun .all (startSys migrated ()) s₁ ∧
    LedgerRun .all s₁ s ∧ logging 1 s₁ = some row ∧ AllReturned s ∧ (row.signature.bind fromHex).isSome ∧
    s.shared.file.committed.data.entries.rows.map EntryRow.signature = [none, none, row.signature] ∧
    s.shared.file.committed.data.entries.rows.map (fun r => (r.eventType, r.formatVersion, r.signingKeyId)) =
      [("request", 1, none), ("request", 2, none), ("request", 2, some "00")] ∧
    (verifyChain (some echoVerifier) s.shared.file.committed.data.entries.rows).toOption = some 3 ∧
    s.shared.file.committed.data.entries.rows[2]? = some row ∧
    (genesisPreviousHash :: s.shared.file.committed.data.entries.rows.map EntryRow.entryHash).Nodup := by
  have h : (runEvents Call.body (startSys migrated ()) untilSigned).any (fun s₁ =>
      (runEvents Call.body s₁ (proceeds 1 3)).any fun s => (logging 1 s₁).any fun row =>
        AllReturned s ∧ row.signature.isSome ∧
        s.shared.file.committed.data.entries.rows.map (fun r => r.signature.isSome) = [false, false, true] ∧
        s.shared.file.committed.data.entries.rows.map (fun r => (r.eventType, r.formatVersion, r.signingKeyId)) =
          [("request", 1, none), ("request", 2, none), ("request", 2, some "00")] ∧
        (s.shared.file.committed.data.entries.rows.drop 1).map rowFields =
          [((2, 2), "2026-01-01T12:00:00.000000Z", "a", "act", "{}", "request"),
            ((3, 2), "2026-01-01T12:00:00.000000Z", "b", "act", "{}", "request")]) = true := by decide +kernel
  obtain ⟨s₁, hs₁, h⟩ := (Option.any_eq_true _ _).mp h
  obtain ⟨s, hs, h⟩ := (Option.any_eq_true _ _).mp h
  obtain ⟨row, hrow, h⟩ := (Option.any_eq_true _ _).mp h
  obtain ⟨hreturned, hsome, hsigned, hkinds, hfields⟩ := of_decide_eq_true h
  have hecho : LedgerRun echoLogs (startSys migrated ()) s₁ :=
    run_of_calls (by simp [untilSigned, EchoLog, logCall]) hs₁
  have hrun₁ : LedgerRun .all (startSys migrated ()) s₁ := run_of_runEvents hs₁
  have hrun₂ : LedgerRun .all s₁ s := run_of_runEvents hs
  -- What the task is about to insert is signed over its own hash.
  obtain ⟨i, call, c, k, ht⟩ := logging_eq_some hrow
  have huses := programs_of_run (P := fun _ p => p.Uses (Op.executes EchoSigned)) (fun _ c hc => uses_echoSigned hc)
    (fun _ _ _ r hp => hp.2 r) (by simp [startSys]) hecho _ (List.mem_of_getElem? ht)
  obtain ⟨signature, hsignature⟩ := Option.isSome_iff_exists.mp hsome
  have hbytes : fromHex signature = some (utf8 row.entryHash) := huses.1 signature hsignature
  have hchained := chained_of_run ((chained_rowAfter 1 1).initial ⟨[_], rfl⟩) (hrun₁.trans hrun₂)
  have hstart := start_entries (hrun₁.trans hrun₂)
  obtain ⟨h₁, hh₁, -, hmem⟩ := History.extend .start hrun₁
  obtain ⟨h, hrun, hsub, -⟩ := hh₁.extend hrun₂
  have hstored := entry_of_signed hrun (signersReturn_of_allReturned hrun hreturned)
    (⟨s₁, hsub hmem, logging_eq_some hrow⟩ : Issues h 1 (.insertEntry row)) hsome
  obtain ⟨a, b, c, hrows⟩ := List.length_eq_three.mp
    (show s.shared.file.committed.data.entries.rows.length = 3 by simpa using congrArg List.length hsigned)
  rw [hrows] at hsigned hkinds hfields hchained hstart hstored
  simp only [List.map_cons, List.map_nil, List.cons.injEq, and_true, Option.isSome_eq_false_iff,
    Option.isNone_iff_eq_none] at hsigned
  obtain ⟨hnone, hnone', -⟩ := hsigned
  -- The inserted row is the only one that is signed.
  obtain rfl : row = c := by
    simp only [List.mem_cons, List.not_mem_nil, or_false] at hstored
    rcases hstored with rfl | rfl | rfl
    · rw [hnone] at hsome
      cases hsome
    · rw [hnone'] at hsome
      cases hsome
    · rfl
  simp only [List.drop_succ_cons, List.drop_zero, List.map_cons, List.map_nil, List.cons.injEq, and_true] at hfields
  have ha : a = legacyRow := (List.cons_prefix_cons.mp hstart).1.symm
  refine ⟨s₁, s, row, hrun₁, hrun₂, hrow, hreturned, ?_, by rw [hrows]; simp [hnone, hnone'], by rw [hrows]; exact hkinds,
    ?_, by rw [hrows]; rfl, ?_⟩
  · simp [hsignature, hbytes]
  · have haccepted : verifyChain (some echoVerifier) [a, b, row] = .ok 3 := by
      refine verifyChain_iff.mpr ⟨rfl, hchained, fun r hr => ?_⟩
      simp only [List.mem_cons, List.not_mem_nil, or_false] at hr
      rintro verify signature' ⟨⟩ hr'
      rcases hr with rfl | rfl | rfl
      · rw [hnone] at hr'
        cases hr'
      · rw [hnone'] at hr'
        cases hr'
      · rw [hsignature] at hr'
        cases hr'
        exact ⟨_, hbytes, by simp [echoVerifier]⟩
    rw [hrows, haccepted]
    rfl
  · rw [hrows, entryHashes_signed hchained ha hfields.1 hfields.2]
    decide +kernel

/-- The genuine table itself, under the verifier that accepts what has been signed. -/
theorem signature_authenticates_prefix_migrated : ∃ h s,
    LedgerHistory (L := offline) .all (startSys migrated ()) h s ∧
    verifyChain (some (idealVerifier (SignedIn h))) s.shared.file.committed.data.entries.rows = .ok 3 ∧
    ∀ j (_ : j ≤ 2), ∃ _ : j < s.shared.file.committed.data.entries.rows.length,
      SameHashed s.shared.file.committed.data.entries.rows[j] s.shared.file.committed.data.entries.rows[j] := by
  obtain ⟨s₁, s, row, hrun₁, hrun₂, hrow, hreturned, hhex, hsigs, -, -, hlast, hnodup⟩ :=
    signed_run
  obtain ⟨h₁, hh₁, -, hmem⟩ := History.extend .start hrun₁
  obtain ⟨h, hrun, hsub, -⟩ := hh₁.extend hrun₂
  obtain ⟨bytes, hbind⟩ := Option.isSome_iff_exists.mp hhex
  obtain ⟨signature, hsignature, hbytes⟩ := Option.bind_eq_some_iff.mp hbind
  have hissues : Issues h 1 (.insertEntry row) := ⟨s₁, hsub hmem, logging_eq_some hrow⟩
  have hd : Chained migrated.entries.rows := (chained_rowAfter 1 1).initial ⟨[_], rfl⟩
  have hchained := chained_of_run hd hrun.run
  obtain ⟨a, b, c, hrows⟩ := List.length_eq_three.mp
    (show s.shared.file.committed.data.entries.rows.length = 3 by simpa using congrArg List.length hsigs)
  obtain rfl : c = row := by simpa [hrows] using hlast
  have hnone : a.signature = none ∧ b.signature = none := by simpa [hrows] using hsigs
  have haccepted : verifyChain (some (idealVerifier (SignedIn h))) s.shared.file.committed.data.entries.rows =
      .ok 3 := by
    refine verifyChain_iff.mpr ⟨by rw [hrows]; rfl, hchained, fun r hr => ?_⟩
    rw [hrows] at hr
    rintro verify signature' ⟨⟩ hr'
    simp only [List.mem_cons, List.not_mem_nil, or_false] at hr
    rcases hr with rfl | rfl | rfl
    · exact absurd hr' (by simp [hnone.1])
    · exact absurd hr' (by simp [hnone.2])
    · rw [hsignature] at hr'
      cases hr'
      exact ⟨bytes, hbytes, idealVerifier_ok.mpr ⟨1, _, hissues, by simp [signedMessage, hsignature]⟩⟩
  refine ⟨h, s, hrun, haccepted, ?_⟩
  refine signature_authenticates_prefix hd hrun (signersReturn_of_allReturned hrun hreturned)
    (fun key message signature hv => .inl (idealVerifier_ok.mp hv)) haccepted ?_ ?_ (by simp [hrows])
    (by simp [hrows, hsignature])
  · exact noCollision_of_nodup hchained.hashed (List.nodup_cons.mp hnodup).2 fun r hr => ⟨r, by simpa using hr, rfl⟩
  · rintro text ⟨r, hr, rfl⟩ hz
    have hr : r ∈ s.shared.file.committed.data.entries.rows := by simpa using hr
    exact (List.nodup_cons.mp hnodup).1 (List.mem_map.mpr ⟨r, hr, (hchained.hashed r hr).trans hz⟩)

end Examples
end NexusCone.EntryAuthenticity
