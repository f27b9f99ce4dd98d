import NexusCone.ExclusiveLock
import NexusCone.SoloRun
import NexusCone.WitnessForks
import NexusCone.WitnessWalks

/-!
# The witness store of one ledger

All calls of one ledger write under its lock, so an attestation goes in while its witness is still
active and the hash it names is still the last one. Whatever the order of the tasks and
whatever fails, the attestations verify, a retirement is final and labels and keys stay distinct.
-/
namespace NexusCone.WitnessLedger
open HashChain KeyedTable SharedFile AsyncProgram AsyncSystem Connections RelyGuarantee GrowingVersions
  ExclusiveLock SoloRun PyValue LedgerSchema EntryChain WitnessChain WitnessCursor TimestampAuthority Ledger
  LedgerOperations LedgerRuns WitnessStore WitnessForks WitnessWalks

structure Distinct (d : Database) : Prop where
  labels : (d.witnesses.rows.map WitnessRow.label).Nodup
  keys : (d.witnesses.rows.map WitnessRow.publicKeyHex).Nodup

/-- Witnesses keep their keys and their retirement, attestations stay, and the new ones are of
witnesses that were active. -/
structure Retains (u v : Version Database Statement) : Prop where
  witnesses : ∀ w ∈ u.data.witnesses.rows, ∃ w' ∈ v.data.witnesses.rows, w'.witnessId = w.witnessId ∧
    (w.retiredAt.isSome → w'.retiredAt = w.retiredAt)
  attestations : ∃ added, v.data.attestations.rows = u.data.attestations.rows ++ added ∧
    ∀ a ∈ added, ∀ w ∈ u.data.witnesses.rows, w.witnessId = a.witnessId → w.retiredAt = none

theorem Retains.refl (v : Version Database Statement) : Retains v v :=
  ⟨fun w hw => ⟨w, hw, rfl, fun _ => rfl⟩, [], (List.append_nil _).symm, by simp⟩

theorem Retains.trans {u v z : Version Database Statement} (h : Retains u v) (h' : Retains v z) : Retains u z := by
  refine ⟨fun w hw => ?_, ?_⟩
  · obtain ⟨w₁, hw₁, hid₁, hret₁⟩ := h.witnesses w hw
    obtain ⟨w₂, hw₂, hid₂, hret₂⟩ := h'.witnesses w₁ hw₁
    refine ⟨w₂, hw₂, hid₂.trans hid₁, fun hsome => ?_⟩
    have heq := hret₁ hsome
    exact (hret₂ (by rw [heq]; exact hsome)).trans heq
  · obtain ⟨added, hrows, hactive⟩ := h.attestations
    obtain ⟨added', hrows', hactive'⟩ := h'.attestations
    refine ⟨added ++ added', by rw [hrows', hrows, List.append_assoc], fun a ha w hw hid => ?_⟩
    rcases List.mem_append.mp ha with ha | ha
    · exact hactive a ha w hw hid
    · obtain ⟨w₁, hw₁, hid₁, hret₁⟩ := h.witnesses w hw
      have hnone := hactive' a ha w₁ hw₁ (hid₁.trans hid)
      by_contra hsome
      have heq := hret₁ (Option.ne_none_iff_isSome.mp hsome)
      exact hsome (heq.symm.trans hnone)

def storeGrowth [IsoTime.Platform] (verifier : Verifier) : Growth Database Statement where
  good v := Sound verifier v.data ∧ Distinct v.data
  le := Retains
  refl := Retains.refl
  trans := Retains.trans

section Statements

variable [IsoTime.Platform] {verifier : Verifier} {v : Version Database Statement} {d : Database} {n : ℤ}
variable {journal : List (TaskId × Statement × ℤ)}

omit [IsoTime.Platform] in
theorem retains_of_same (hw : d.witnesses = v.data.witnesses) (ha : d.attestations = v.data.attestations) :
    Retains v ⟨d, journal⟩ := by
  refine ⟨fun w hmem => ⟨w, ?_, rfl, fun _ => rfl⟩, [], ?_, by simp⟩
  · show w ∈ d.witnesses.rows
    rwa [hw]
  · show d.attestations.rows = _
    rw [ha, List.append_nil]

omit [IsoTime.Platform] in
theorem retire_of_retired {w : WitnessRow} (h : w.retiredAt.isSome) (witnessId : ℤ) (retiredAt : String) :
    w.retire witnessId retiredAt = w := by
  unfold WitnessRow.retire
  rw [if_neg]
  rintro ⟨-, hnone⟩
  rw [hnone] at h
  cases h

omit [IsoTime.Platform] in
theorem Distinct.of_same (h : Distinct v.data) (hw : d.witnesses = v.data.witnesses) : Distinct d :=
  ⟨by rw [hw]; exact h.labels, by rw [hw]; exact h.keys⟩

omit [IsoTime.Platform] in
theorem nodup_append_single {xs : List String} {x : String} (h : xs.Nodup) (hx : x ∉ xs) : (xs ++ [x]).Nodup :=
  List.nodup_append.mpr ⟨h, List.nodup_singleton x, by
    rintro y hy z hz rfl
    exact hx (List.mem_singleton.mp hz ▸ hy)⟩

/-- Statements other than an attestation keep labels and keys distinct and retain what is there. -/
theorem distinct_exec {s : Statement} (h : Distinct v.data) (hs : Readable s) (hex : exec s v.data = .ok (d, n)) :
    Distinct d ∧ Retains v ⟨d, journal⟩ := by
  cases s with
  | insertAttestation a => exact hs.elim
  | insertEntry row =>
    obtain ⟨t, -, -, rfl⟩ := exec_insertEntry hex
    exact ⟨h.of_same rfl, retains_of_same rfl rfl⟩
  | insertAnchor a =>
    obtain ⟨-, -, rfl⟩ := exec_insertAnchor hex
    exact ⟨h.of_same rfl, retains_of_same rfl rfl⟩
  | confirmAnchor =>
    cases hex
    exact ⟨h.of_same rfl, retains_of_same rfl rfl⟩
  | insertWitness w =>
    obtain ⟨hlabel, hkey, -, rfl⟩ := exec_insertWitness hex
    refine ⟨⟨?_, ?_⟩, ⟨fun w' hw' => ⟨w', List.mem_append_left _ hw', rfl, fun _ => rfl⟩, [],
      (List.append_nil _).symm, by simp⟩⟩
    · show ((v.data.witnesses.rows ++ [w.row v.data.witnesses.nextKey]).map WitnessRow.label).Nodup
      rw [List.map_append]
      exact nodup_append_single h.labels hlabel
    · show ((v.data.witnesses.rows ++ [w.row v.data.witnesses.nextKey]).map WitnessRow.publicKeyHex).Nodup
      rw [List.map_append]
      exact nodup_append_single h.keys hkey
  | retireWitness witnessId retiredAt =>
    cases hex
    refine ⟨⟨?_, ?_⟩, ⟨fun w hw => ⟨w.retire witnessId retiredAt, List.mem_map_of_mem hw, ?_, fun hsome => ?_⟩, [],
      (List.append_nil _).symm, by simp⟩⟩
    · have hlabel : WitnessRow.label ∘ WitnessRow.retire witnessId retiredAt = WitnessRow.label :=
        funext fun w => (retire_keeps witnessId retiredAt w).2.1
      rw [Table.rows_update, List.map_map, hlabel]
      exact h.labels
    · have hkey : WitnessRow.publicKeyHex ∘ WitnessRow.retire witnessId retiredAt = WitnessRow.publicKeyHex :=
        funext fun w => (retire_keeps witnessId retiredAt w).2.2
      rw [Table.rows_update, List.map_map, hkey]
      exact h.keys
    · exact (retire_keeps witnessId retiredAt w).1
    · rw [retire_of_retired hsome]

omit [IsoTime.Platform] in
/-- An attestation of an active witness is new, and nothing else changes. -/
theorem retains_attestation {a : NewAttestation} (hex : exec (Statement.insertAttestation a) v.data = .ok (d, n))
    {w : WitnessRow} (hw : w ∈ v.data.witnesses.rows) (hid : w.witnessId = a.witnessId)
    (hactive : w.retiredAt = none) : Retains v ⟨d, journal⟩ := by
  obtain ⟨-, -, -, rfl⟩ := exec_insertAttestation hex
  refine ⟨fun w' hw' => ⟨w', hw', rfl, fun _ => rfl⟩, [a.row v.data.attestations.nextKey], rfl, ?_⟩
  intro b hb w' hw' hid'
  rw [List.mem_singleton.mp hb] at hid'
  obtain rfl := v.data.witnesses.key_injOn hw' hw (hid'.trans hid.symm)
  exact hactive

end Statements

section Calls

variable [IsoTime.Platform] {W : Type} {L : Libraries} {verifier : Verifier} {i : InstId} {t : TaskId}
variable {σ : Shared Database Statement W}
variable {env : InstId → TaskId → Op Statement Request → Outcome Request (Reply L) PyError W →
  Shared Database Statement W → Prop}

/-- A call that attests inserts, into what its ledger's connection sees, the attestation of an active
witness with the signer's key that names the witness's last hash. -/
theorem callOk_attestation {G : Growth Database Statement} {witnessId : ℤ} {signer : Signer}
    (hs : ∀ v row head signedAt d n, G.good v → row ∈ v.data.witnesses.rows → row.witnessId = witnessId →
      row.retiredAt = none → signer.keyId = row.publicKeyHex →
      let a := signedAttestation witnessId signer head (lastAttestationHash witnessId v.data) signedAt
      exec (Statement.insertAttestation a) v.data = .ok (d, n) →
        G.good ⟨d, v.journal ++ [(t, .insertAttestation a, n)]⟩ ∧
          G.le v ⟨d, v.journal ++ [(t, .insertAttestation a, n)]⟩) :
    CallOk G i t env (attestWithWitness (L := L) witnessId signer) σ := by
  unfold attestWithWitness requireDb now
  refine CallOk.connection fun c σ₁ hg₁ hown => ?_
  refine CallOk.withLock fun σ₂ hg₂ hheld => ?_
  unfold getWitness getLastWitnessAttestationHash requireDb
  simp only [bind_assoc]
  refine InLock.reread (hown.rewired hg₂.rewired) hheld fun u σ₃ hl₃ hsees => ?_
  cases hfind : u.data.witnesses.find? witnessId with
  | none => exact InLock.raise hsees.held
  | some row =>
    obtain ⟨hrow, hid⟩ := Table.find?_eq_some.mp hfind
    dsimp only
    cases hread : rowToWitness row with
    | error e => exact InLock.raise hsees.held
    | ok w =>
      simp only [Prog.ok_bind]
      split_ifs with hretired hkey
      · exact InLock.raise hsees.held
      · exact InLock.raise hsees.held
      have hactive : row.retiredAt = none := by
        rw [← Option.not_isSome_iff_eq_none, ← (rowToWitness_ok hread).2.2]
        exact hretired
      have hoffered : signer.keyId = row.publicKeyHex := by
        rw [← (rowToWitness_ok hread).2.1]
        exact not_not.mp hkey
      refine InLock.reads (uses_getLatestEntry allowsReads_isRead) hsees.held fun latest σ₄ hl₄ => ?_
      have hsees₄ := hsees.leave hl₄
      cases latest with
      | none => exact InLock.pure hsees₄.held
      | some head =>
        have hown₄ := (hown.rewired hg₂.rewired).rewired (hl₃.trans hl₄).grows.rewired
        refine InLock.reread hown₄ hsees₄.held fun u' σ₅ hl₅ hsees' => ?_
        simp only [Prog.pure_eq, Prog.ok_bind]
        refine InLock.reads (Prog.uses_external allowsReads_isRead _) hsees'.held fun signedAt σ₆ hl₆ => ?_
        refine InLock.execute (hsees'.leave hl₆).held ?_ fun n σ₇ hheld₇ => InLock.commit hheld₇
        intro σ₇ d n hl₇ hi₇ hopen hex
        -- Both reads show the version that the statement is executed on.
        have hview : σ₇.file.view c = u := ((hsees₄.leave hl₅).leave (hl₆.trans hl₇)).view.2 hopen
        have hview' : σ₇.file.view c = u' := (hsees'.leave (hl₆.trans hl₇)).view.2 hopen
        rw [← hview'] at hex ⊢
        rw [← hview] at hrow
        exact hs _ row head signedAt d n (hi₇.view c).1 hrow hid hactive hoffered hex

theorem callOk_attestWithWitness (witnessId : ℤ) {signer : Signer} (hs : Honest verifier signer) :
    CallOk (storeGrowth verifier) i t env (attestWithWitness (L := L) witnessId signer) σ := by
  refine callOk_attestation fun v row head signedAt d n hgood hrow hid hactive hoffered => ?_
  intro a hex
  subst hid
  have hsound : Sound verifier d := hgood.1.insertAttestation hex rfl fun k =>
    attested_signed hrow hoffered hs head _ signedAt k
  have hsame : d.witnesses = v.data.witnesses := by
    obtain ⟨-, -, -, rfl⟩ := exec_insertAttestation hex
    rfl
  exact ⟨⟨hsound, hgood.2.of_same hsame⟩, retains_attestation hex hrow rfl hactive⟩

theorem callOk_body {call : Call} (hcall : HonestCall verifier call) :
    CallOk (storeGrowth verifier) i t env (call.body (L := L)) σ := by
  have hother {call : Call} (ha : Admits Readable call) :
      CallOk (storeGrowth verifier) i t env (call.body (L := L)) σ := by
    refine callOk_of_guarded (guarded_body ha) (by simp) fun s v d n hs hgood hex => ?_
    obtain ⟨hdistinct, hretains⟩ := distinct_exec hgood.2 hs hex
    exact ⟨⟨hgood.1.readable_exec hs hex, hdistinct⟩, hretains⟩
  cases call with
  | attestWithWitness witnessId signer =>
    refine Ok.bind (Ok.mono (callOk_attestWithWitness witnessId hcall) ?_ fun _ h => h)
    exact fun a _ _ _ _ _ => Ok.pure (P := protocol (storeGrowth verifier) i W) fun _ _ _ => trivial
  | _ => exact hother (admits_readable (by simp))

end Calls

section Runs

variable [IsoTime.Platform] {W : Type} {L : Libraries} {verifier : Verifier} {i : InstId}

/-- Every call is on the one ledger and whoever attests signs honestly. Statements may fail, and
tasks may be cancelled. -/
def oneLedger (i : InstId) (verifier : Verifier) : LedgerRules L W :=
  ⟨fun j c => j = i ∧ HonestCall verifier c, fun _ _ _ _ _ => True, fun _ _ => True, fun _ _ => True⟩

structure StoreHolds (verifier : Verifier) (d : Database) : Prop where
  allVerify : AllVerify verifier d
  distinct : Distinct d

/-- The ledger's walk, while nothing else happens, is that over the rows of its connection. -/
theorem solo_verifyBody (answers : Answers Request (Reply L) PyError W) (c : ConnId) (cursor : Cursor)
    (x : Solo Database W) : solo answers c ((Call.verifyWitnessAttestations verifier cursor).body (L := L)) x =
      some ((WitnessChain.verifyWitnessAttestations verifier x.view.witnesses.rows x.view.attestations.rows).map
        Result.count, x) := by
  rw [Call.body, solo_bind, solo_verifyWitnessAttestations, Option.bind_some]
  cases WitnessChain.verifyWitnessAttestations verifier x.view.witnesses.rows x.view.attestations.rows with
  | error e => rfl
  | ok n => rfl

/-- The witness is retired in both, at the one time, and has the same attestations in both. -/
def StaysRetired (w : WitnessRow) (u v : Database) : Prop :=
  (∀ w' ∈ v.witnesses.rows, w'.witnessId = w.witnessId → w'.retiredAt = w.retiredAt) ∧
    (∃ w' ∈ v.witnesses.rows, w'.witnessId = w.witnessId) ∧
    ofWitness w.witnessId v.attestations.rows = ofWitness w.witnessId u.attestations.rows

omit [IsoTime.Platform] in
theorem Retains.staysRetired {u v : Version Database Statement} (h : Retains u v) {w : WitnessRow}
    (hw : w ∈ u.data.witnesses.rows) (hretired : w.retiredAt.isSome) : StaysRetired w u.data v.data := by
  obtain ⟨w₁, hw₁, hid, heq⟩ := h.witnesses w hw
  refine ⟨fun w' hw' hid' => ?_, ⟨w₁, hw₁, hid⟩, ?_⟩
  · obtain rfl := v.data.witnesses.key_injOn hw' hw₁ (hid'.trans hid.symm)
    exact heq hretired
  · obtain ⟨added, hrows, hactive⟩ := h.attestations
    have hnone : ofWitness w.witnessId added = [] := by
      refine List.filter_eq_nil_iff.mpr fun a ha => ?_
      rw [decide_eq_true_eq]
      intro hofw
      rw [hactive a ha w hw hofw.symm] at hretired
      cases hretired
    rw [hrows]
    unfold ofWitness at hnone ⊢
    rw [List.filter_append, hnone, List.append_nil]

/-- The ledger's own walk over such contents counts every attestation. -/
theorem StoreHolds.solo_verify {x : Solo Database W} (h : StoreHolds verifier x.view)
    (answers : Answers Request (Reply L) PyError W) (c : ConnId) (cursor : Cursor) :
    solo answers c ((Call.verifyWitnessAttestations verifier cursor).body (L := L)) x =
      some (.ok (.count x.view.attestations.rows.length), x) := by
  rw [solo_verifyBody, h.allVerify.1]
  rfl

theorem verified_oneLedger : Verified (protocol (storeGrowth verifier) i W) (oneLedger i verifier)
    (Call.body (L := L)) (fun _ _ _ _ _ => True) (fun _ _ _ _ => True) :=
  ExclusiveLock.verified (fun _ _ h => h.1) fun _ _ _ h _ => callOk_body h.2

theorem good_oneLedger {d : Database} (hd : Sound verifier d ∧ Distinct d) {w : W} {s : LedgerSys L W}
    (hrun : LedgerRun (oneLedger i verifier) (startSys d w) s) :
    Good (protocol (storeGrowth verifier) i W) (oneLedger i verifier) (fun _ _ _ _ _ => True)
      (fun _ _ _ _ => True) s := by
  refine (verified_oneLedger.run (Good.start ⟨wired_start d w, hd, ?_⟩ (fresh_start d w)) hrun).1
  rintro p ⟨⟩

theorem StoreHolds.of_good {d : Database} (h : Sound verifier d ∧ Distinct d) : StoreHolds verifier d :=
  ⟨Sound.allVerify h.1, h.2⟩

/-- Whatever the order of the tasks of the one ledger, the attestations verify, labels and keys
stay distinct, and a committed retirement is final. -/
theorem witness_store_holds {d : Database} (hd : StoreHolds verifier d) {w : W} {s : LedgerSys L W}
    (hrun : LedgerRun (oneLedger i verifier) (startSys d w) s) :
    StoreHolds verifier s.shared.file.committed.data ∧ (∀ c, StoreHolds verifier (s.shared.file.view c).data) ∧
      (∀ (answers : Answers Request (Reply L) PyError W) c cursor x, x.view = s.shared.file.committed.data →
        solo answers c ((Call.verifyWitnessAttestations verifier cursor).body (L := L)) x =
          some (.ok (.count x.view.attestations.rows.length), x)) ∧
      ∀ s', LedgerRun (oneLedger i verifier) s s' → ∀ x ∈ s.shared.file.committed.data.witnesses.rows,
        x.retiredAt.isSome →
          StaysRetired x s.shared.file.committed.data s'.shared.file.committed.data ∧
          ∀ c, StaysRetired x s.shared.file.committed.data (s'.shared.file.view c).data := by
  have hgood := good_oneLedger ⟨sound_iff.mpr hd.allVerify.1, hd.distinct⟩ hrun
  have hcommitted : StoreHolds verifier s.shared.file.committed.data := .of_good hgood.inv.committed
  refine ⟨hcommitted, fun c => .of_good (hgood.inv.view c).1, fun answers c cursor x hx => ?_,
    fun s' hrun' x hx hretired => ?_⟩
  · exact StoreHolds.solo_verify (hx ▸ hcommitted) answers c cursor
  obtain ⟨hgood', hgrows⟩ := verified_oneLedger.run hgood hrun'
  have hretains : Retains s.shared.file.committed s'.shared.file.committed := hgrows.committed
  refine ⟨hretains.staysRetired hx hretired, fun c => ?_⟩
  have hview : Retains s'.shared.file.committed (s'.shared.file.view c) := (hgood'.inv.view c).2
  exact (hretains.trans hview).staysRetired hx hretired

end Runs

section Examples

/-- The witness attests while a call to retire it waits for the lock. -/
def retiredWhileAttesting : List (LedgerEvent offline Unit) :=
  .call 0 (.attestWithWitness 1 (echoSigner "00")) :: .call 0 (.retireWitness 1) ::
    (asks (stoppedClock offline) 3 1 ++ reads 2 ++ writes 2 ++ proceeds 3 6)

/-- Another witness takes over. -/
def takenOver : List (LedgerEvent offline Unit) :=
  registerScript (stoppedClock offline) 0 4 "v" "01" ++ attestScript (stoppedClock offline) 0 5 2 (echoSigner "01")

theorem honest_events : ∀ p ∈ callsOf (registered ++ retiredWhileAttesting ++ takenOver),
    p.1 = 0 ∧ HonestCall echoVerifier p.2 := by
  simp [registered, retiredWhileAttesting, takenOver, reads, writes, HonestCall, logCall, honest_echoSigner]

theorem witness_store_holds_retired : ∃ s s' : LedgerSys offline Unit,
    LedgerRun (oneLedger 0 echoVerifier) (startSys Database.empty ()) s ∧
    LedgerRun (oneLedger 0 echoVerifier) s s' ∧
    s'.shared.file.committed.data.attestations.rows.length = 2 ∧
    StoreHolds echoVerifier s'.shared.file.committed.data ∧
    ∃ x ∈ s.shared.file.committed.data.witnesses.rows, x.retiredAt.isSome ∧
      StaysRetired x s.shared.file.committed.data s'.shared.file.committed.data := by
  have h : (runEvents Call.body (startSys Database.empty ()) (registered ++ retiredWhileAttesting)).any (fun s =>
      (∃ x ∈ s.shared.file.committed.data.witnesses.rows, x.retiredAt.isSome) ∧
      (runEvents Call.body s takenOver).any fun s' =>
        s'.shared.file.committed.data.attestations.rows.length = 2) = true := by decide +kernel
  obtain ⟨s, hs, hcheck⟩ := (Option.any_eq_true _ _).mp h
  obtain ⟨⟨x, hx, hretired⟩, hafter⟩ := of_decide_eq_true hcheck
  obtain ⟨s', hs', hlen⟩ := (Option.any_eq_true _ _).mp hafter
  have hrun : LedgerRun (oneLedger 0 echoVerifier) (startSys Database.empty ()) s :=
    run_of_calls (fun p hp => honest_events p (by rw [callsOf_append]; exact List.mem_append_left _ hp)) hs
  have hrun' : LedgerRun (oneLedger 0 echoVerifier) s s' :=
    run_of_calls (fun p hp => honest_events p (by rw [callsOf_append]; exact List.mem_append_right _ hp)) hs'
  have hempty : StoreHolds echoVerifier Database.empty := .of_good ⟨sound_empty, List.nodup_nil, List.nodup_nil⟩
  obtain ⟨-, -, -, hstays⟩ := witness_store_holds hempty hrun
  exact ⟨s, s', hrun, hrun', of_decide_eq_true hlen, (witness_store_holds hempty (hrun.trans hrun')).1, x, hx,
    hretired, (hstays s' hrun' x hx hretired).1⟩

end Examples
end NexusCone.WitnessLedger
