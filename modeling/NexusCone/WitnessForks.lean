import NexusCone.ChainSafety
import NexusCone.NotedRuns
import NexusCone.WitnessStore

/-!
# Sub-chains under several ledgers

The lock of a ledger does not keep another ledger from attesting for the same witness. The
sub-chains stay linked in the runs where no attestation of its witness appears between a call's
last read and its `INSERT`; two ledgers that both read before either inserts fork the sub-chain.
-/
namespace NexusCone.WitnessForks
open HashChain KeyedTable SharedFile AsyncProgram AsyncSystem Connections RelyGuarantee GrowingVersions TaskRuns NotedRuns PyValue
  LedgerSchema EntryChain WitnessChain TimestampAuthority Ledger LedgerOperations LedgerRuns LedgerGrowth ChainSafety
  WitnessStore

variable {W : Type} {L : Libraries} {verifier : Verifier}

/-- The witnesses of the one are in the other, under the same keys. -/
def KeepsKeys (u v : Version Database Statement) : Prop :=
  ∀ w ∈ u.data.witnesses.rows, ∃ w' ∈ v.data.witnesses.rows,
    w'.witnessId = w.witnessId ∧ w'.publicKeyHex = w.publicKeyHex

def witnessGrowth [IsoTime.Platform] (verifier : Verifier) : Growth Database Statement where
  good v := Sound verifier v.data
  le := KeepsKeys
  refl _ := fun w hw => ⟨w, hw, rfl, rfl⟩
  trans h h' := fun w hw => by
    obtain ⟨w₁, hw₁, hid₁, hkey₁⟩ := h w hw
    obtain ⟨w₂, hw₂, hid₂, hkey₂⟩ := h' w₁ hw₁
    exact ⟨w₂, hw₂, hid₂.trans hid₁, hkey₂.trans hkey₁⟩

theorem keepsKeys_exec {s : Statement} {v : Version Database Statement} {d : Database} {n : ℤ}
    {journal : List (TaskId × Statement × ℤ)} (hex : exec s v.data = .ok (d, n)) : KeepsKeys v ⟨d, journal⟩ := by
  intro w hw
  cases s with
  | insertEntry row =>
    obtain ⟨t, -, -, rfl⟩ := exec_insertEntry hex
    exact ⟨w, hw, rfl, rfl⟩
  | insertAnchor a =>
    obtain ⟨-, -, rfl⟩ := exec_insertAnchor hex
    exact ⟨w, hw, rfl, rfl⟩
  | confirmAnchor =>
    cases hex
    exact ⟨w, hw, rfl, rfl⟩
  | insertWitness x =>
    obtain ⟨-, -, -, rfl⟩ := exec_insertWitness hex
    exact ⟨w, List.mem_append_left _ hw, rfl, rfl⟩
  | retireWitness witnessId retiredAt =>
    cases hex
    obtain ⟨hid, -, hkey⟩ := retire_keeps witnessId retiredAt w
    exact ⟨_, List.mem_map_of_mem hw, hid, hkey⟩
  | insertAttestation a =>
    obtain ⟨-, -, -, rfl⟩ := exec_insertAttestation hex
    exact ⟨w, hw, rfl, rfl⟩

section Platforms

variable [IsoTime.Platform]

section Rows

/-- Witnesses keep their keys and attestations are only added. -/
def RowsStay (u v : Version Database Statement) : Prop :=
  KeepsKeys u v ∧ u.data.attestations.rows <+: v.data.attestations.rows

omit [IsoTime.Platform] in
theorem RowsStay.refl (v : Version Database Statement) : RowsStay v v :=
  ⟨fun w hw => ⟨w, hw, rfl, rfl⟩, List.prefix_rfl⟩

omit [IsoTime.Platform] in
theorem RowsStay.trans {u v z : Version Database Statement} (h : RowsStay u v) (h' : RowsStay v z) :
    RowsStay u z := by
  refine ⟨fun w hw => ?_, h.2.trans h'.2⟩
  obtain ⟨w₁, hw₁, hid₁, hkey₁⟩ := h.1 w hw
  obtain ⟨w₂, hw₂, hid₂, hkey₂⟩ := h'.1 w₁ hw₁
  exact ⟨w₂, hw₂, hid₂.trans hid₁, hkey₂.trans hkey₁⟩

def rowGrowth : Growth Database Statement where
  good _ := True
  le := RowsStay
  refl := RowsStay.refl
  trans := RowsStay.trans

omit [IsoTime.Platform] in
theorem rowsStay_exec {s : Statement} {v : Version Database Statement} {d : Database} {n : ℤ}
    {journal : List (TaskId × Statement × ℤ)} (hex : exec s v.data = .ok (d, n)) : RowsStay v ⟨d, journal⟩ := by
  refine ⟨keepsKeys_exec hex, ?_⟩
  show v.data.attestations.rows <+: d.attestations.rows
  cases s with
  | insertEntry row =>
    obtain ⟨t, -, -, rfl⟩ := exec_insertEntry hex
    exact List.prefix_rfl
  | insertAnchor a =>
    obtain ⟨-, -, rfl⟩ := exec_insertAnchor hex
    exact List.prefix_rfl
  | confirmAnchor =>
    cases hex
    exact List.prefix_rfl
  | insertWitness x =>
    obtain ⟨-, -, -, rfl⟩ := exec_insertWitness hex
    exact List.prefix_rfl
  | retireWitness witnessId retiredAt =>
    cases hex
    exact List.prefix_rfl
  | insertAttestation a =>
    obtain ⟨-, -, -, rfl⟩ := exec_insertAttestation hex
    exact ⟨_, rfl⟩

variable {rules : LedgerRules L W}

theorem keeps_rows {i : InstId} {t : TaskId} {σ : Shared Database Statement W} (call : Call) :
    rowGrowth.Keeps rules.env i t (call.body (L := L)) (fun _ _ => True) σ := by
  have huses : (call.body (L := L)).Uses (Op.executes fun _ => True) :=
    Prog.uses_of_forall (fun op => by cases op <;> trivial) _
  exact (Growth.Keeps.of_uses huses (Growth.Grows.refl σ) fun s v d n _ _ hex => ⟨trivial, rowsStay_exec hex⟩).mono
    fun _ _ _ _ => trivial

theorem verified_rows : Verified (rowGrowth.protocol W) rules (Call.body (L := L)) (fun _ _ _ _ _ => True)
    (fun _ _ _ _ => True) :=
  Growth.verified fun _ _ _ _ _ _ _ => keeps_rows _

/-- Along a run of a ledger, what a connection sees at the end has the rows that it saw before. -/
theorem rows_of_run {d : Database} {w : W} {s s' : LedgerSys L W} (hrun : LedgerRun rules (startSys d w) s)
    (hrun' : LedgerRun rules s s') : rowGrowth.Inv s.shared ∧ Rewired s.shared s'.shared ∧
      ∀ c ∈ s'.shared.file.opened, RowsStay (s.shared.file.view c) (s'.shared.file.view c) := by
  have hstart : Good (rowGrowth.protocol W) rules (fun _ _ _ _ _ => True) (fun _ _ _ _ => True)
      (startSys d w : LedgerSys L W) := by
    refine Good.start ⟨wired_start d w, trivial, ?_⟩ (fresh_start d w)
    rintro p ⟨⟩
  have hgood := (verified_rows.run hstart hrun).1
  obtain ⟨hgood', hgrow⟩ := verified_rows.run hgood hrun'
  exact ⟨hgood.inv, hgrow.rewired, fun c ho => Growth.Grows.view_of_opened hgrow hgood.inv hgood'.inv ho⟩

end Rows

/-- An attestation that is inserted now names the last hash of its witness. -/
def NamesLast (op : Op Statement Request) (o : Outcome Request (Reply L) PyError W)
    (σ : Shared Database Statement W) : Prop :=
  match op with
  | .execute c (.insertAttestation a) => o.performs → σ.file.MayWrite c →
    a.prevAttestationHash = lastAttestationHash a.witnessId (σ.file.view c).data
  | _ => True

/-- Honest signers, and every attestation linked when it is inserted. -/
def unforked (verifier : Verifier) : LedgerRules L W :=
  ⟨fun _ => HonestCall verifier, fun _ _ op o => NamesLast op o, fun _ _ => True, fun _ _ => True⟩

section Calls

variable {i : InstId} {t : TaskId} {σ : Shared Database Statement W}

theorem keeps_attestWithWitness (witnessId : ℤ) {signer : Signer} (hs : Honest verifier signer) :
    (witnessGrowth verifier).Keeps (unforked (L := L) verifier).env i t (attestWithWitness witnessId signer)
      (fun _ _ => True) σ := by
  unfold attestWithWitness requireDb now
  refine Growth.Keeps.connection fun c σ₁ hg₁ _ hown => ?_
  refine Growth.Keeps.withLock (fun _ _ _ _ _ => trivial) fun σ₂ hg₂ => ?_
  refine keeps_getWitness (hown.rewired hg₂.rewired) fun u row w σ₃ hg₃ hseen hrow hid hread => ?_
  split_ifs with hretired hkey
  · exact Growth.Keeps.raise
  · exact Growth.Keeps.raise
  · subst hid
    refine Growth.Keeps.reads (uses_getLatestEntry allowsReads_isRead) fun latest σ₄ hg₄ => ?_
    cases latest with
    | none => exact Growth.Keeps.pure fun _ _ => trivial
    | some head =>
      refine Growth.Keeps.reads (uses_getLastWitnessAttestationHash allowsReads_isRead _) fun prev σ₅ hg₅ => ?_
      refine Growth.Keeps.external fun signedAt σ₆ hg₆ => ?_
      refine Growth.Keeps.execute (hseen.grow (hg₄.trans (hg₅.trans hg₆))) ?_ ?_
      · intro σ₇ o d n _ hi₇ hlast hran hw hex hle
        refine ⟨(hi₇.view c).1.insertAttestation hex (hlast hran hw) fun k => ?_, keepsKeys_exec hex⟩
        obtain ⟨row', hrow', hid', hkey'⟩ := hle row hrow
        have hoffered : signer.keyId = row'.publicKeyHex := by
          rw [hkey', ← (rowToWitness_ok hread).2.1]
          exact not_not.mp hkey
        have hattested := attested_signed hrow' hoffered hs head prev signedAt k
        rw [hid'] at hattested
        exact hattested
      · intro σ₇ v n _ hseen₇ _ _
        exact Growth.Keeps.commit hseen₇ fun _ _ _ => Growth.Keeps.pure fun _ _ => trivial

theorem keeps_body {call : Call} (hcall : HonestCall verifier call) :
    (witnessGrowth verifier).Keeps (unforked (L := L) verifier).env i t call.body (fun _ _ => True) σ := by
  have hother {call : Call} (ha : Admits Readable call) :
      (witnessGrowth verifier).Keeps (unforked (L := L) verifier).env i t call.body (fun _ _ => True) σ :=
    (Growth.Keeps.of_uses (guarded_body ha).uses (Growth.Grows.refl σ) fun s v d n hs hv hex =>
      ⟨Sound.readable_exec hv hs hex, keepsKeys_exec hex⟩).mono fun _ _ _ _ => trivial
  cases call with
  | attestWithWitness witnessId signer =>
    refine Growth.Keeps.bind ((keeps_attestWithWitness witnessId hcall).mono fun _ _ _ _ => ?_)
    exact Growth.Keeps.pure fun _ _ => trivial
  | _ => exact hother (admits_readable (by simp))

end Calls

theorem sound_of_keeps {rules : LedgerRules L W} (hkeeps : ∀ i t (call : Call) σ, rules.calls i call →
      (witnessGrowth verifier).Keeps rules.env i t call.body (fun _ _ => True) σ) {d : Database}
    (hd : Sound verifier d) {w : W} {s : LedgerSys L W} (hrun : LedgerRun rules (startSys d w) s) :
    Sound verifier s.shared.file.committed.data ∧ ∀ c, Sound verifier (s.shared.file.view c).data := by
  have hv : Verified ((witnessGrowth verifier).protocol W) rules (Call.body (L := L)) (fun _ _ _ _ _ => True)
      (fun _ _ _ _ => True) := Growth.verified fun _ _ _ _ hcall _ _ => hkeeps _ _ _ _ hcall
  have hstart : Good ((witnessGrowth verifier).protocol W) rules (fun _ _ _ _ _ => True)
      (fun _ _ _ _ => True) (startSys d w : LedgerSys L W) := by
    refine Good.start ⟨wired_start d w, hd, ?_⟩ (fresh_start d w)
    rintro p ⟨⟩
  have hinv := (hv.run hstart hrun).1.inv
  exact ⟨hinv.committed, fun c => (hinv.view c).1⟩

/-- In every reachable state the contents and every connection's view are sound. -/
theorem sound_of_run {d : Database} (hd : Sound verifier d) {w : W} {s : LedgerSys L W}
    (hrun : LedgerRun (unforked verifier) (startSys d w) s) :
    Sound verifier s.shared.file.committed.data ∧ ∀ c, Sound verifier (s.shared.file.view c).data :=
  sound_of_keeps (fun _ _ _ _ hcall => keeps_body hcall) hd hrun

/-- The walk accepts every attestation, each of which names its witness's preceding one. -/
def AllVerify (verifier : Verifier) (d : Database) : Prop :=
  verifyWitnessAttestations verifier d.witnesses.rows d.attestations.rows = .ok d.attestations.rows.length ∧
    SubChains d.attestations.rows

theorem Sound.allVerify {d : Database} (h : Sound verifier d) : AllVerify verifier d :=
  ⟨sound_iff.mp h, h.subChains⟩

section Schedule

abbrev NotedLedgers (L : Libraries) (W : Type) := NotedSys Database Statement W Request (Reply L) PyError Call Result

/-- Honest signers; and an attestation is inserted where its connection sees no other attestations of the
witness than the call's last read found. -/
def NoneBetween (verifier : Verifier) (p : NotedLedgers L W) : Event Request (Reply L) PyError W Call → Prop
  | .call _ c => HonestCall verifier c
  | .run t o => ∀ i call c a k d, p.1.tasks[t]? = some ⟨i, call, .perform (.execute c (.insertAttestation a)) k⟩ →
    o.performs → p.1.shared.file.MayWrite c → (p.2 t).getLast? = some d →
    ofWitness a.witnessId (p.1.shared.file.view c).data.attestations.rows = ofWitness a.witnessId d.attestations.rows
  | _ => True

/-- An attestation names the last hash of its witness in what was read last. -/
def linksRead (reads : List Database) : Statement → Prop
  | .insertAttestation a => ∃ d, reads.getLast? = some d ∧ a.prevAttestationHash = lastAttestationHash a.witnessId d
  | _ => True

theorem based_attestWithWitness (witnessId : ℤ) (signer : Signer) (reads : List Database) :
    Based linksRead reads (attestWithWitness (L := L) witnessId signer) := by
  have hr : AllowsReads (Op.isRead : Op Statement Request → Prop) := allowsReads_isRead
  refine (based_of_reads (Prog.uses_connection hr) _).bind fun c => Based.withLock fun reads => ?_
  refine (based_of_reads (uses_getWitness hr _) _).bind fun witness reads => ?_
  split
  · exact trivial
  split
  · exact trivial
  refine (based_of_reads (uses_getLatestEntry hr) _).bind fun latest reads => ?_
  cases latest with
  | none => exact trivial
  | some head =>
    -- the hash comes from the contents that the last `SELECT` answers, and only the clock is read after it
    refine ⟨trivial, fun db => ?_⟩
    cases db with
    | error e => exact trivial
    | ok db =>
      refine ⟨trivial, fun d => ?_⟩
      cases d with
      | error e => exact trivial
      | ok d =>
        refine ⟨trivial, fun signedAt => ?_⟩
        cases signedAt with
        | error e => exact trivial
        | ok signedAt =>
          refine ⟨⟨d, by simp [contentsRead], rfl⟩, fun n => ?_⟩
          cases n with
          | error e => exact trivial
          | ok n => exact ⟨trivial, fun r => by cases r <;> exact trivial⟩

theorem based_body (call : Call) (reads : List Database) : Based linksRead reads (call.body (L := L)) := by
  cases call with
  | attestWithWitness witnessId signer => exact (based_attestWithWitness witnessId signer reads).bind fun _ _ => trivial
  | _ => exact based_of_uses (guarded_body (admits_of_mayIssue fun s hs reads => by
      cases s <;> trivial)).uses reads

omit [IsoTime.Platform] in
/-- A call that has seen all attestations of its witness names the last one. -/
theorem namesLast_of_noneBetween {p : NotedLedgers L W} {e : Event Request (Reply L) PyError W Call}
    (hbased : AllBased linksRead p) (h : NoneBetween verifier p e) : (unforked verifier).Allows p.1 e := by
  cases e with
  | call i c => exact h
  | run t o =>
    intro i call op k ht
    cases op with
    | execute c s =>
      cases s with
      | insertAttestation a =>
        intro hran hw
        obtain ⟨d, hlast, hprev⟩ := (hbased t _ ht).1
        have hsame := h i call c a k d ht hran hw hlast
        rw [hprev, lastAttestationHash, lastAttestationHash, hsame]
      | _ => exact trivial
    | _ => exact trivial
  | connect | close | detach => trivial

theorem sub_chains_never_fork {d : Database} (hd : AllVerify verifier d) {w : W} {p : NotedLedgers L W}
    (hrun : NotedRun Call.body (NoneBetween verifier) (startSys d w, fun _ => []) p) :
    AllVerify verifier p.1.shared.file.committed.data ∧ ∀ c, AllVerify verifier (p.1.shared.file.view c).data := by
  have hlinked : LedgerRun (unforked verifier) (startSys d w) p.1 :=
    (run_of_noted based_body (fun _ _ => namesLast_of_noneBetween) (by rintro t task ⟨⟩) hrun).1
  obtain ⟨hcommitted, hviews⟩ := sound_of_run (sound_iff.mpr hd.1) hlinked
  exact ⟨Sound.allVerify hcommitted, fun c => Sound.allVerify (hviews c)⟩

end Schedule

end Platforms

/-- Any other insert forks its witness's sub-chain, for as long as rows are only added. -/
theorem stale_attestation_forks {a : NewAttestation} {d d' : Database} {n : ℤ}
    (hex : exec (Statement.insertAttestation a) d = .ok (d', n))
    (hstale : a.prevAttestationHash ≠ lastAttestationHash a.witnessId d) {rows : List AttestationRow}
    (hrows : d'.attestations.rows <+: rows) : ¬ SubChains rows := by
  obtain ⟨-, -, -, rfl⟩ := exec_insertAttestation hex
  intro h
  have hinitial : SubChains (d.attestations.rows ++ [a.row d.attestations.nextKey]) := fun k =>
    (h k).initial (hrows.filter _)
  exact hstale (subChains_append.mp hinitial).2

section Examples

def honest (verifier : Verifier) : LedgerRules L W :=
  ⟨fun _ => HonestCall verifier, fun _ _ _ _ _ => True, fun _ _ => True, fun _ _ => True⟩

theorem honest_echoSigner (publicKeyHex : String) : Honest echoVerifier (echoSigner publicKeyHex) := by
  intro message
  simp [echoVerifier, echoSigner]

/-- An entry and a witness. -/
def registered : List (LedgerEvent offline Unit) :=
  .connect 0 :: (logScript (stoppedClock offline) 0 0 "a" ++ registerScript (stoppedClock offline) 0 1 "w" "00")

/-- Then a call of each of two ledgers to have the witness attest. -/
def twoLedgers : List (LedgerEvent offline Unit) :=
  registered ++ [.connect 1, .call 0 (.attestWithWitness 1 (echoSigner "00")),
    .call 1 (.attestWithWitness 1 (echoSigner "00"))]

/-- The task's reads, up to the time it signs. -/
def reads (t : TaskId) : List (LedgerEvent offline Unit) := asks (stoppedClock offline) t 8

/-- Its insert, its commit and the release of its lock. -/
def writes (t : TaskId) : List (LedgerEvent offline Unit) := proceeds t 3

theorem honest_twoLedgers : ∀ p ∈ callsOf twoLedgers, HonestCall echoVerifier p.2 := by
  simp [twoLedgers, registered, HonestCall, logCall, honest_echoSigner]

/-- Both ledgers read the witness's last hash before either inserts its attestation. -/
def forkEvents : List (LedgerEvent offline Unit) := twoLedgers ++ (reads 2 ++ reads 3 ++ writes 2 ++ writes 3)

theorem computeWitnessAttestationHash_noon : computeWitnessAttestationHash 1 1
    "976916961245c30b62e5baf6d98b10c327811faf08d50d0215ace56be9107a27" "2026-01-01T12:00:00.000000Z"
    genesisWitnessPrevHash = "133f9eec1c4913bb93b1b2773e8fe47e7affccbb5624c718a525be1b9fffdbe3" :=
  HashedTexts.computeWitnessAttestationHash_ofList (by decide +kernel)

/-- What an attestation holds beside its witness, its head's hash, its own and its signature. -/
def attestationColumns (a : AttestationRow) : (ℤ × ℤ) × String × String :=
  ((a.witnessId, a.chainHeadEntryId), a.signedAt, a.prevAttestationHash)

/-- The hash of an attestation of the entry that `logCall "a"` makes. -/
theorem attestationHash_noon {rules : LedgerRules L W} {w : W} {s : LedgerSys L W}
    (hrun : LedgerRun rules (startSys Database.empty w) s)
    (hentries : s.shared.file.committed.data.entries.rows.map rowFields =
      [((1, 2), "2026-01-01T12:00:00.000000Z", "a", "act", "{}", "request")]) {a : AttestationRow}
    (ha : a ∈ s.shared.file.committed.data.attestations.rows) (hhash : a.attestationHash = recomputedAttestation a)
    {prev : String} (hfields : attestationColumns a = ((1, 1), "2026-01-01T12:00:00.000000Z", prev)) :
    a.attestationHash = computeWitnessAttestationHash 1 1
      "976916961245c30b62e5baf6d98b10c327811faf08d50d0215ace56be9107a27" "2026-01-01T12:00:00.000000Z" prev := by
  have hgrown : Grown Database.empty s.shared.file.committed := (grown_of_run hrun).inv.committed
  have hchained := chained_of_intact (chainIntact_of_grown rfl hgrown)
  obtain ⟨r, hr, hrow⟩ := List.map_eq_singleton_iff.mp hentries
  rw [hr] at hchained
  have hhead : HeadIn s.shared.file.committed.data.entries.rows a := by
    refine (hgrown.heads a ha).resolve_left fun hstart => ?_
    cases hstart
  rw [hr] at hhead
  obtain ⟨r', hr', -, hheadhash⟩ := hhead
  obtain rfl := List.mem_singleton.mp hr'
  simp only [attestationColumns, Prod.mk.injEq] at hfields
  obtain ⟨⟨hwitness, hid⟩, htime, hprev⟩ := hfields
  rw [hhash, recomputedAttestation, hwitness, hid, htime, hprev, ← hheadhash, entryHash_noon hchained hrow]

theorem forked_run : ∃ s : LedgerSys offline Unit, LedgerRun (honest echoVerifier) (startSys Database.empty ()) s ∧
    s.allEnded ∧ ¬ AllVerify echoVerifier s.shared.file.committed.data := by
  have h : (runEvents Call.body (startSys Database.empty ()) forkEvents).any (fun s => s.allEnded ∧
      s.shared.file.committed.data.entries.rows.map rowFields =
        [((1, 2), "2026-01-01T12:00:00.000000Z", "a", "act", "{}", "request")] ∧
      s.shared.file.committed.data.attestations.rows.map attestationColumns =
        [((1, 1), "2026-01-01T12:00:00.000000Z", genesisWitnessPrevHash),
          ((1, 1), "2026-01-01T12:00:00.000000Z", genesisWitnessPrevHash)]) = true := by
    decide +kernel
  obtain ⟨s, hs, hcheck⟩ := (Option.any_eq_true _ _).mp h
  obtain ⟨hquiet, hentries, hattestations⟩ := of_decide_eq_true hcheck
  have hrun : LedgerRun (honest echoVerifier) (startSys Database.empty ()) s :=
    run_of_calls (fun p hp => honest_twoLedgers p (by simpa [forkEvents, reads, writes] using hp)) hs
  refine ⟨s, hrun, hquiet, fun hv => ?_⟩
  obtain ⟨a, rest, hrows, ha, hrest⟩ := List.map_eq_cons_iff.mp hattestations
  obtain ⟨b, rest', rfl, hb, hnil⟩ := List.map_eq_cons_iff.mp hrest
  obtain rfl := List.map_eq_nil_iff.mp hnil
  have hmem : a ∈ s.shared.file.committed.data.attestations.rows := by
    rw [hrows]
    exact List.mem_cons_self
  have hhash := attestationHash_noon hrun hentries hmem ((sound_iff.mpr hv.1).attested a hmem).1 ha
  simp only [attestationColumns, Prod.mk.injEq] at ha hb
  have hlinked := hv.2 1
  rw [hrows] at hlinked
  simp only [ofWitness, List.filter_cons, ha.1.1, hb.1.1, List.filter_nil, decide_true, if_true, linked_cons] at hlinked
  have hgenesis := hlinked.2.1.symm.trans hb.2.2
  rw [hhash, computeWitnessAttestationHash_noon] at hgenesis
  exact absurd hgenesis (by decide +kernel)

/-- One ledger attests for the witness after the other. -/
def turnEvents : List (LedgerEvent offline Unit) := twoLedgers ++ (reads 2 ++ writes 2 ++ reads 3 ++ writes 3)

/-- With no connection closed and nothing uncommitted, what was read before begins what is seen now. -/
theorem rows_of_noted {P : NotedLedgers L W → Event Request (Reply L) PyError W Call → Prop} {d : Database} {w : W}
    {p : NotedLedgers L W} (hrun : NotedRun Call.body P (startSys d w, fun _ => []) p)
    (hpending : p.1.shared.file.pending = none) (hopened : ∀ c < p.1.shared.nextConn, c ∈ p.1.shared.file.opened)
    {t : TaskId} {u : Database} (hu : u ∈ p.2 t) (c : ConnId) :
    u.attestations.rows <+: (p.1.shared.file.view c).data.attestations.rows := by
  obtain ⟨s₁, c₁, hrun₁, hrun₂, hc₁, rfl⟩ := seen_of_noted hrun hu
  obtain ⟨hinv, hrewired, hstay⟩ := rows_of_run hrun₁ hrun₂
  have hlt : c₁ < p.1.shared.nextConn := lt_of_lt_of_le (hinv.wired.opened _ hc₁) hrewired.nextConn
  have hview (c : ConnId) : p.1.shared.file.view c = p.1.shared.file.committed :=
    File.view_of_ne (by rw [hpending]; rintro q ⟨⟩)
  have hbegins := (hstay c₁ (hopened c₁ hlt)).2
  rwa [hview c₁, ← hview c] at hbegins

/-- Nothing is closed or uncommitted, and there are as many attestations of the witness as the call has read. -/
def sameCount (p : NotedLedgers L W) : Event Request (Reply L) PyError W Call → Bool
  | .run t _ => match p.1.tasks[t]? with
    | some ⟨_, _, .perform (.execute c (.insertAttestation a)) _⟩ =>
      p.1.shared.file.pending.isNone && (List.range p.1.shared.nextConn).all (fun c => c ∈ p.1.shared.file.opened) &&
        (p.2 t).getLast?.all fun d => (ofWitness a.witnessId (p.1.shared.file.view c).data.attestations.rows).length =
          (ofWitness a.witnessId d.attestations.rows).length
    | _ => true
  | _ => true

theorem noneBetween_of_sameCount {d : Database} {w : W} {p : NotedLedgers L W}
    (hrun : NotedRun Call.body (NoneBetween verifier) (startSys d w, fun _ => []) p)
    {e : Event Request (Reply L) PyError W Call} (hcall : ∀ i c, e = .call i c → HonestCall verifier c)
    (h : sameCount p e) : NoneBetween verifier p e := by
  cases e with
  | call i c => exact hcall i c rfl
  | run t o =>
    intro i call c a k u ht _ _ hlast
    simp only [sameCount, ht, hlast, Option.all_some, Bool.and_eq_true, Option.isNone_iff_eq_none, List.all_eq_true,
      List.mem_range, decide_eq_true_eq] at h
    obtain ⟨⟨hpending, hopened⟩, hcount⟩ := h
    have hbegins := rows_of_noted hrun hpending hopened (List.mem_of_getLast? hlast) c
    exact ((hbegins.filter _).eq_of_length hcount.symm).symm
  | connect | close | detach => trivial

theorem sub_chains_never_fork_turns : ∃ p : NotedLedgers offline Unit,
    NotedRun Call.body (NoneBetween echoVerifier) (startSys Database.empty (), fun _ => []) p ∧
    p.1.shared.file.committed.data.attestations.rows.map (·.witnessId) = [1, 1] ∧
    AllVerify echoVerifier p.1.shared.file.committed.data := by
  have h : (runNoted Call.body sameCount (startSys Database.empty (), fun _ => []) turnEvents).any
      (fun p => p.1.shared.file.committed.data.attestations.rows.map (·.witnessId) = [1, 1]) = true := by
    decide +kernel
  obtain ⟨p, hp, hids⟩ := (Option.any_eq_true _ _).mp h
  have hrun : NotedRun Call.body (NoneBetween echoVerifier) (startSys Database.empty (), fun _ => []) p := by
    refine notedRun_of_runNoted .refl (fun e he p hrun => noneBetween_of_sameCount hrun fun i c hcall => ?_) hp
    subst hcall
    exact honest_twoLedgers (i, c) (by simpa [turnEvents, reads, writes] using mem_callsOf.mpr he)
  exact ⟨p, hrun, of_decide_eq_true hids, (sub_chains_never_fork (Sound.allVerify sound_empty) hrun).1⟩

end Examples
end NexusCone.WitnessForks
