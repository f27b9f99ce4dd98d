import NexusCone.SignedHistory
import NexusCone.WitnessLedger

/-!
# Witness histories cannot be forged

Whoever may rewrite the witness tables, but has only the signatures made in a run of one ledger,
can give each witness no other history than a prefix of its own.
-/
namespace NexusCone.WitnessHistories
open HexBytes CodePoints JsonText HashChain KeyedTable SharedFile AsyncProgram AsyncSystem RelyGuarantee ExclusiveLock
  PromptCommits PyValue Canonical LedgerSchema EntryChain WitnessChain TimestampAuthority Ledger LedgerRuns
  ChainSafety WitnessStore WitnessForks WitnessLedger SignedHistory

/-- The columns under the hash of an attestation, and the hash. -/
def hashedFields (a : AttestationRow) : ℤ × ℤ × String × String × String × String :=
  (a.witnessId, a.chainHeadEntryId, a.chainHeadHash, a.signedAt, a.prevAttestationHash, a.attestationHash)

/-- The texts under the hashes of the attestations. -/
def AttestedIn (rows : List AttestationRow) (text : String) : Prop := ∃ a ∈ rows, text = attestationText a

theorem attestationText_injective {a b : AttestationRow} (h : attestationText a = attestationText b)
    (hh : a.attestationHash = b.attestationHash) : hashedFields a = hashedFields b := by
  have hkeys := canonicalText_injective (unpaired_attestationFields ..) (unpaired_attestationFields ..) h
  rw [sortKeys_attestationFields, sortKeys_attestationFields] at hkeys
  simp only [field, Json.obj.injEq, List.cons.injEq, Prod.mk.injEq, Json.int.injEq, Json.str.injEq, pyStr_inj, true_and,
    and_true] at hkeys
  obtain ⟨hid, hhash, hprev, hat, hw⟩ := hkeys
  simp only [hashedFields, hid, hhash, hprev, hat, hw, hh]

/-- Rows with recomputed hashes, in one sub-chain each, whose digests are all digests of genuine
rows. -/
theorem history_prefix {xs ys : List AttestationRow} (hx : SubChains xs) (hy : SubChains ys)
    (hrx : ∀ a ∈ xs, a.attestationHash = recomputedAttestation a)
    (hry : ∀ a ∈ ys, a.attestationHash = recomputedAttestation a)
    (hgenuine : ∀ a ∈ xs, ∃ b ∈ ys, attestationDigest a = attestationDigest b)
    (hcol : NoCollision (AttestedIn (xs ++ ys)))
    (hzero : ∀ text, AttestedIn (xs ++ ys) text → sha256Hex text ≠ genesisWitnessPrevHash) (k : ℤ) :
    (ofWitness k xs).map hashedFields <+: (ofWitness k ys).map hashedFields := by
  have hmem {zs : List AttestationRow} {a : AttestationRow} (h : a ∈ ofWitness k zs) : a ∈ zs :=
    List.mem_of_mem_filter h
  have hsame (a : AttestationRow) (ha : a ∈ xs) (b : AttestationRow) (hb : b ∈ ys)
      (h : a.attestationHash = b.attestationHash) : hashedFields a = hashedFields b := by
    refine attestationText_injective (hcol _ _ ⟨a, by simp [ha], rfl⟩ ⟨b, by simp [hb], rfl⟩ ?_) h
    exact (hrx a ha).symm.trans (h.trans (hry b hb))
  have hne {zs : List AttestationRow} (hsub : ∀ a ∈ zs, a ∈ xs ++ ys)
      (hr : ∀ a ∈ zs, a.attestationHash = recomputedAttestation a) (a : AttestationRow) (ha : a ∈ zs) :
      a.attestationHash ≠ genesisWitnessPrevHash := by
    rw [hr a ha]
    exact hzero _ ⟨a, hsub a ha, rfl⟩
  refine prefix_of_shared (hx k) (hy k) (fun a ha b hb => hsame a (hmem ha) b (hmem hb)) (fun a b h => ?_)
    (fun _ _ h => h)
    (fun a ha => hne (by simp +contextual) hrx a (hmem ha)) (fun b hb => hne (by simp +contextual) hry b (hmem hb))
    (fun a ha => ?_)
  · exact congrArg (fun f => f.2.2.2.2.1) h
  · obtain ⟨b, hb, hdigest⟩ := hgenuine a (hmem ha)
    have hhash : a.attestationHash = b.attestationHash := by
      rw [hrx a (hmem ha), hry b hb]
      exact congrArg hex hdigest
    have hwitness : a.witnessId = b.witnessId := congrArg Prod.fst (hsame a (hmem ha) b hb hhash)
    have ha' : a.witnessId = k := by simpa [ofWitness] using (List.mem_filter.mp ha).2
    exact ⟨b, List.mem_filter.mpr ⟨hb, by simp [← hwitness, ha']⟩, hhash⟩

section Runs

variable [IsoTime.Platform] {W : Type} {L : Libraries} {i : InstId}

/-- All calls are on the one ledger. -/
def ofLedger (i : InstId) : LedgerRules L W :=
  ⟨fun j _ => j = i, fun _ _ _ _ _ => True, fun _ _ => True, fun _ _ => True⟩

theorem run_oneLedger {s s' : LedgerSys L W} (h : LedgerRun (ofLedger i) s s') :
    LedgerRun (oneLedger i acceptAll) s s' := by
  refine run_mono (fun s₁ e ha => ?_) h
  cases e with
  | call j c => exact ⟨ha, honest_acceptAll c⟩
  | _ => exact ha

/-- The genuine attestations are in one sub-chain a witness and their hashes recompute. -/
theorem genuine_of_run {d : Database} (hw : d.witnesses.rows = []) (ha : d.attestations.rows = []) {w : W}
    {s : LedgerSys L W} (hrun : LedgerRun (ofLedger i) (startSys d w) s) :
    Sound acceptAll s.shared.file.committed.data := by
  have hsound : Sound acceptAll d := ⟨by simp [hw], by simp [SubChains, ofWitness, ha], by simp [ha]⟩
  have hdistinct : Distinct d := ⟨by simp [hw], by simp [hw]⟩
  exact (good_oneLedger ⟨hsound, hdistinct⟩ (run_oneLedger hrun)).inv.committed.1

/-- What the walk accepts of the tables an adversary gives: for each witness a prefix of the
attestations it made. -/
theorem witness_histories_unforgeable {d : Database} (hentries : Chained d.entries.rows)
    (hw : d.witnesses.rows = []) (ha : d.attestations.rows = []) {w : W} {s : LedgerSys L W}
    {h : List (LedgerSys L W)} (hrun : LedgerHistory (ofLedger i) (startSys d w) h s) (hreturn : SignersReturn h s)
    {verifier : Verifier} (hunforgeable : Unforgeable verifier d h) {given : Database} {n : ℕ}
    (haccepted : verifyWitnessAttestations verifier given.witnesses.rows given.attestations.rows = .ok n)
    (hcol : NoCollision (AttestedIn (given.attestations.rows ++ s.shared.file.committed.data.attestations.rows)))
    (hzero : ∀ text, AttestedIn (given.attestations.rows ++ s.shared.file.committed.data.attestations.rows) text →
      sha256Hex text ≠ genesisWitnessPrevHash) (witnessId : ℤ) :
    (ofWitness witnessId given.attestations.rows).map hashedFields <+:
      (ofWitness witnessId s.shared.file.committed.data.attestations.rows).map hashedFields := by
  obtain ⟨ws, -, -, hsub, hvalid⟩ := verifyWitnessAttestations_ok.mp haccepted
  have hgenuine := genuine_of_run hw ha hrun.run
  refine history_prefix hsub hgenuine.subChains (fun a hmem => (hvalid a hmem).hashed)
    (fun a hmem => (hgenuine.attested a hmem).1) (fun a hmem => ?_) hcol hzero witnessId
  obtain ⟨witness, signature, -, -, hsigned⟩ := (hvalid a hmem).signed
  rcases hunforgeable.message hrun hreturn hsigned with ⟨row, hrow, he⟩ | hatt | ⟨b, hb, -⟩
  · exact absurd he (attestationDigest_ne_utf8 a row ((chained_of_run hentries hrun.run).hashed row hrow))
  · exact hatt
  · rw [ha] at hb
    cases hb

end Runs

section Examples

/-- What the task is about to attest. -/
def attesting (t : TaskId) (s : LedgerSys offline Unit) : Option NewAttestation :=
  match s.tasks[t]? with
  | some ⟨_, _, .perform (.execute _ (.insertAttestation a)) _⟩ => some a
  | _ => none

theorem attesting_eq_some {t : TaskId} {s : LedgerSys offline Unit} {a : NewAttestation} (h : attesting t s = some a) :
    ∃ i call c k, s.tasks[t]? = some ⟨i, call, .perform (.execute c (.insertAttestation a)) k⟩ := by
  unfold attesting at h
  split at h
  · rename_i ht
    cases h
    exact ⟨_, _, _, _, ht⟩
  · cases h

/-- An entry, a witness, and the reads of its attestation. -/
def untilSigned : List (LedgerEvent offline Unit) :=
  registered ++ .call 0 (.attestWithWitness 1 (echoSigner "00")) :: reads 2

/-- The attestation is written, and the witness attests once more. -/
def attestedTwice : List (LedgerEvent offline Unit) :=
  writes 2 ++ attestScript (stoppedClock offline) 0 3 1 (echoSigner "00")

theorem computeWitnessAttestationHash_second : computeWitnessAttestationHash 1 1
    "976916961245c30b62e5baf6d98b10c327811faf08d50d0215ace56be9107a27" "2026-01-01T12:00:00.000000Z"
    "133f9eec1c4913bb93b1b2773e8fe47e7affccbb5624c718a525be1b9fffdbe3" =
      "c894806ba53bccdb76ef491270d0a8e114c750cca596ad5a8118f6d20fabc45f" :=
  HashedTexts.computeWitnessAttestationHash_ofList (by decide +kernel)

theorem rows_of_columns {rows : List AttestationRow} {p q : ℤ × ℤ × String}
    (h : rows.map (fun a => (a.attestationId, a.witnessId, a.signedAt)) = [p, q]) : ∃ a b, rows = [a, b] ∧
      (a.attestationId = p.1 ∧ a.witnessId = p.2.1 ∧ a.signedAt = p.2.2) ∧
      b.attestationId = q.1 ∧ b.witnessId = q.2.1 ∧ b.signedAt = q.2.2 := by
  obtain ⟨a, rest, rfl, ha, hrest⟩ := List.map_eq_cons_iff.mp h
  obtain ⟨b, rest', rfl, hb, hnil⟩ := List.map_eq_cons_iff.mp hrest
  obtain rfl := List.map_eq_nil_iff.mp hnil
  subst ha hb
  exact ⟨a, b, rfl, ⟨rfl, rfl, rfl⟩, rfl, rfl, rfl⟩

theorem attested_run : ∃ s₁ s : LedgerSys offline Unit, ∃ a b, LedgerRun (ofLedger 0) (startSys Database.empty ()) s₁ ∧
    LedgerRun (ofLedger 0) s₁ s ∧ attesting 2 s₁ = some a ∧ AllReturned s ∧
    s.shared.file.committed.data.attestations.rows = [a.row 1, b] ∧ a.witnessId = 1 ∧ b.witnessId = 1 ∧
    [genesisWitnessPrevHash, a.attestationHash, b.attestationHash].Nodup := by
  have h : (runEvents Call.body (startSys Database.empty ()) untilSigned).any (fun s₁ =>
      (runEvents Call.body s₁ attestedTwice).any fun s => (attesting 2 s₁).isSome ∧ AllReturned s ∧
        s.shared.file.committed.data.entries.rows.map rowFields =
          [((1, 2), "2026-01-01T12:00:00.000000Z", "a", "act", "{}", "request")] ∧
        s.shared.file.committed.data.attestations.rows.map (fun a => (a.attestationId, a.witnessId, a.signedAt)) =
          [(1, 1, "2026-01-01T12:00:00.000000Z"), (2, 1, "2026-01-01T12:00:00.000000Z")] ∧
        s.shared.file.committed.data.attestations.rows.map AttestationRow.chainHeadEntryId = [1, 1] ∧
        (attesting 2 s₁).map NewAttestation.prevAttestationHash = some genesisWitnessPrevHash) = true := by
    decide +kernel
  obtain ⟨s₁, hs₁, h⟩ := (Option.any_eq_true _ _).mp h
  obtain ⟨s, hs, h⟩ := (Option.any_eq_true _ _).mp h
  obtain ⟨hattesting, hreturned, hentries, hids, hheads, hprev⟩ := of_decide_eq_true h
  have hcalls : ∀ p ∈ callsOf (untilSigned ++ attestedTwice), p.1 = 0 := by
    simp [untilSigned, attestedTwice, registered, reads, writes]
  rw [callsOf_append] at hcalls
  have hrun₁ : LedgerRun (ofLedger 0) (startSys Database.empty ()) s₁ :=
    run_of_calls (fun p hp => hcalls p (List.mem_append_left _ hp)) hs₁
  have hrun₂ : LedgerRun (ofLedger 0) s₁ s := run_of_calls (fun p hp => hcalls p (List.mem_append_right _ hp)) hs
  obtain ⟨x, b, hrows, ⟨hx, hxw, hxt⟩, hb, hbw, hbt⟩ := rows_of_columns hids
  rw [hrows] at hheads
  simp only [List.map_cons, List.map_nil, List.cons.injEq, and_true] at hheads
  have hsound := genuine_of_run rfl rfl (hrun₁.trans hrun₂)
  have hlinked := hsound.subChains 1
  have hmemx : x ∈ s.shared.file.committed.data.attestations.rows := by simp [hrows]
  have hmemb : b ∈ s.shared.file.committed.data.attestations.rows := by simp [hrows]
  rw [hrows] at hlinked
  simp only [ofWitness, List.filter_cons, hxw, hbw, List.filter_nil, decide_true, if_true, linked_cons] at hlinked
  have hhashx := attestationHash_noon (hrun₁.trans hrun₂) hentries hmemx (hsound.attested x hmemx).1
    (by rw [attestationColumns, hxw, hheads.1, hxt, hlinked.1])
  rw [computeWitnessAttestationHash_noon] at hhashx
  have hhashb := attestationHash_noon (hrun₁.trans hrun₂) hentries hmemb (hsound.attested b hmemb).1
    (by rw [attestationColumns, hbw, hheads.2, hbt, hlinked.2.1, hhashx])
  rw [computeWitnessAttestationHash_second] at hhashb
  -- The first of the two rows is the one that the task was about to insert.
  obtain ⟨a, ha⟩ := Option.isSome_iff_exists.mp hattesting
  rw [ha] at hprev
  obtain ⟨h₁, hh₁, -, hmem⟩ := History.extend .start hrun₁
  obtain ⟨h, hrun, hsub, -⟩ := hh₁.extend hrun₂
  obtain ⟨n, hstored⟩ := attestation_of_signed hrun (signersReturn_of_allReturned hrun hreturned)
    ⟨s₁, hsub hmem, attesting_eq_some ha⟩
  rw [hrows] at hstored
  have hfirst : a.row n = x := by
    refine (List.mem_pair.mp hstored).resolve_right fun hlast => ?_
    have hgenesis : b.prevAttestationHash = genesisWitnessPrevHash := by
      rw [← hlast]
      exact Option.some.inj hprev
    rw [hlinked.2.1, hhashx] at hgenesis
    exact absurd hgenesis (by decide +kernel)
  obtain rfl : n = 1 := (congrArg AttestationRow.attestationId hfirst).trans hx
  refine ⟨s₁, s, a, b, hrun₁, hrun₂, ha, hreturned, by rw [hrows, hfirst],
    (congrArg AttestationRow.witnessId hfirst).trans hxw, hbw, ?_⟩
  rw [show a.attestationHash = _ from (congrArg AttestationRow.attestationHash hfirst).trans hhashx, hhashb]
  decide +kernel

/-- Of the two attestations that the witness has made, the tables given hold the first only. -/
theorem witness_histories_unforgeable_one : ∃ h s, ∃ given : Database,
    LedgerHistory (L := offline) (ofLedger 0) (startSys Database.empty ()) h s ∧
    (ofWitness 1 s.shared.file.committed.data.attestations.rows).length = 2 ∧
    verifyWitnessAttestations (idealVerifier (SignedIn h)) given.witnesses.rows given.attestations.rows = .ok 1 ∧
    (ofWitness 1 given.attestations.rows).map hashedFields <+:
      (ofWitness 1 s.shared.file.committed.data.attestations.rows).map hashedFields := by
  obtain ⟨s₁, s, a, b, hrun₁, hrun₂, ha, hreturned, hrows, haw, hbw, hnodup⟩ := attested_run
  obtain ⟨h₁, hh₁, -, hmem⟩ := History.extend .start hrun₁
  obtain ⟨h, hrun, hsub, -⟩ := hh₁.extend hrun₂
  have hissues : Issues h 2 (.insertAttestation a) := ⟨s₁, hsub hmem, attesting_eq_some ha⟩
  have hsound := genuine_of_run rfl rfl hrun.run
  have hsigned : SignedIn h (attestationDigest (a.row 1)) :=
    ⟨2, _, hissues, signedMessage_attestation (hashed_of_issues hrun hissues) 1⟩
  have hhash (x : AttestationRow) (hx : x ∈ [a.row 1, b]) : x.attestationHash = sha256Hex (attestationText x) :=
    (hsound.attested x (by rwa [hrows])).1
  let given : Database := { s.shared.file.committed.data with
    attestations := ⟨[a.row 1], 2, List.pairwise_singleton _ _⟩ }
  have hmade : (ofWitness 1 s.shared.file.committed.data.attestations.rows).length = 2 := by
    simp [hrows, ofWitness, NewAttestation.row, haw, hbw]
  have haccepted : verifyWitnessAttestations (idealVerifier (SignedIn h)) given.witnesses.rows given.attestations.rows =
      .ok 1 := by
    refine sound_iff.mp ⟨hsound.readable, fun k => ?_, fun x hx => ?_⟩
    · refine (hsound.subChains k).initial ?_
      rw [hrows]
      exact List.IsPrefix.filter _ ⟨[b], rfl⟩
    · obtain rfl := List.mem_singleton.mp hx
      obtain ⟨hrecomputed, w, hw, hid, signature, hsig, -⟩ := hsound.attested (a.row 1) (by simp [hrows])
      exact ⟨hrecomputed, w, hw, hid, signature, hsig, idealVerifier_ok.mpr hsigned⟩
  have htexts {text : String} (ht : AttestedIn (given.attestations.rows ++
      s.shared.file.committed.data.attestations.rows) text) : ∃ x ∈ [a.row 1, b], text = attestationText x := by
    obtain ⟨x, hx, rfl⟩ := ht
    rw [hrows] at hx
    rcases List.mem_append.mp hx with hx | hx
    · exact ⟨x, List.mem_cons.mpr (.inl (List.mem_singleton.mp hx)), rfl⟩
    · exact ⟨x, hx, rfl⟩
  have hne : a.attestationHash ≠ b.attestationHash := by
    simpa using (List.nodup_cons.mp (List.nodup_cons.mp hnodup).2).1
  have hentries : Chained Database.empty.entries.rows := ⟨trivial, by simp [Database.empty]⟩
  refine ⟨h, s, given, hrun, hmade, haccepted, witness_histories_unforgeable hentries rfl rfl hrun
    (signersReturn_of_allReturned hrun hreturned) ?_ haccepted ?_ ?_ 1⟩
  · exact fun key message signature hv => .inl (idealVerifier_ok.mp hv)
  · intro t t' ht ht' heq
    obtain ⟨x, hx, rfl⟩ := htexts ht
    obtain ⟨y, hy, rfl⟩ := htexts ht'
    rw [← hhash x hx, ← hhash y hy] at heq
    rcases List.mem_pair.mp hx with rfl | rfl <;> rcases List.mem_pair.mp hy with rfl | rfl
    · rfl
    · exact absurd heq hne
    · exact absurd heq.symm hne
    · rfl
  · intro text ht hgenesis
    obtain ⟨x, hx, rfl⟩ := htexts ht
    rw [← hhash x hx] at hgenesis
    refine (List.nodup_cons.mp hnodup).1 (hgenesis ▸ ?_)
    exact List.mem_map_of_mem (f := AttestationRow.attestationHash) hx

end Examples
end NexusCone.WitnessHistories
