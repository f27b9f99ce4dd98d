import NexusCone.SignedHistory
import NexusCone.WitnessAlarms

/-!
# Signers that sign for another key

`attest_with_witness` compares the name of the signer's key with the registered one and stores
whatever bytes the signer returns. So the walk goes on accepting the attestations exactly as long
as the bytes of each signer that attests verify under the registered key.
-/
namespace NexusCone.WitnessSigners
open HexBytes KeyedTable SharedFile AsyncProgram AsyncSystem Connections RelyGuarantee GrowingVersions ExclusiveLock
  PromptCommits PyValue LedgerSchema EntryChain WitnessChain TimestampAuthority Ledger LedgerOperations LedgerRuns
  WitnessStore WitnessForks WitnessLedger WitnessAlarms ExceptResults TaskRuns

section Rows

variable {verifier : Verifier} {signer : Signer} {d d' : Database} {a : NewAttestation} {n : ℤ}

/-- The signer's bytes for the attestation's digest verify under the registered key of its witness. -/
def SignsFor (verifier : Verifier) (signer : Signer) (a : NewAttestation) (d : Database) : Prop :=
  ∀ w ∈ d.witnesses.rows, w.witnessId = a.witnessId →
    verifier (some w.publicKeyHex) (attestationDigest (a.row 0)) (signer.sign (attestationDigest (a.row 0))) = .ok true

def NamesTip (a : NewAttestation) (d : Database) : Prop :=
  a.prevAttestationHash = lastAttestationHash a.witnessId d

/-- The attestation has the hash of its fields and the bytes that the signer returns for it. -/
structure SignedBy (signer : Signer) (a : NewAttestation) : Prop where
  hashed : a.attestationHash = recomputedAttestation (a.row 0)
  signature : a.signatureHex = hex (signer.sign (attestationDigest (a.row 0)))

theorem SignedBy.attested_iff (h : SignedBy signer a) (hw : ∃ w ∈ d.witnesses.rows, w.witnessId = a.witnessId) (k : ℤ) :
    Attested verifier d.witnesses.rows (a.row k) ↔ SignsFor verifier signer a d := by
  have hhex : fromHex (a.row k).signatureHex = some (signer.sign (attestationDigest (a.row 0))) := by
    show fromHex a.signatureHex = _
    rw [h.signature, fromHex_hex]
  constructor
  · rintro ⟨-, w, hmem, hid, signature, hsig, hv⟩ w' hmem' hid'
    obtain rfl := d.witnesses.key_injOn hmem' hmem (hid'.trans hid.symm)
    rw [hhex] at hsig
    cases hsig
    exact hv
  · intro hs
    obtain ⟨w, hmem, hid⟩ := hw
    exact ⟨h.hashed, w, hmem, hid, _, hhex, hs w hmem hid⟩

variable [IsoTime.Platform] {L : Libraries}

/-- Sound tables stay sound with the attestation exactly when its signer signs for the registered key
and it names the last hash of its witness. -/
theorem SignedBy.sound_iff (h : SignedBy signer a) (hd : Sound verifier d)
    (hex : exec (Statement.insertAttestation a) d = .ok (d', n)) :
    Sound verifier d' ↔ SignsFor verifier signer a d ∧ NamesTip a d := by
  obtain ⟨hw, -, -, hd'⟩ := exec_insertAttestation hex
  constructor
  · intro hsound
    rw [hd'] at hsound
    have hnew := hsound.attested (a.row d.attestations.nextKey) (List.mem_append_right _ (List.mem_singleton_self _))
    exact ⟨(h.attested_iff hw _).mp hnew, (subChains_append.mp hsound.subChains).2⟩
  · rintro ⟨hsigns, hprev⟩
    exact hd.insertAttestation hex hprev fun k => (h.attested_iff hw k).mpr hsigns

/-- What a call may issue. -/
def IssuedBy (call : Call) : Statement → Prop
  | .insertAttestation a => ∃ signer, call = .attestWithWitness a.witnessId signer ∧ SignedBy signer a
  | st => Readable st

theorem uses_issuedBy (call : Call) : (call.body (L := L)).Uses (Op.executes (IssuedBy call)) := by
  have hother (h : Admits (IssuedBy call) call) : (call.body (L := L)).Uses (Op.executes (IssuedBy call)) :=
    (guarded_body h).uses
  cases call with
  | attestWithWitness witnessId signer =>
    refine Prog.Guarded.uses (Prog.Guarded.bind (guarded_attestWithWitness fun a hid hhash hsig => ?_) fun _ => rfl)
    refine ⟨signer, by rw [hid], hhash, ?_⟩
    rw [hsig, hhash, fromHex_recomputedAttestation]
    rfl
  | _ =>
    refine hother (admits_of_mayIssue fun st hst => ?_)
    have hreadable := readable_of_mayIssue (by simp) hst
    cases st with
    | insertAttestation a => exact hreadable.elim
    | _ => exact hreadable

end Rows

section Conditions

variable [IsoTime.Platform] {W : Type} {L : Libraries} {verifier : Verifier}

/-- The statement runs on what the connection sees, and its constraints accept it. -/
structure Inserts (a : NewAttestation) (c : ConnId) (o : Outcome Request (Reply L) PyError W)
    (σ : Shared Database Statement W) : Prop where
  performs : o.performs
  mayWrite : σ.file.MayWrite c
  accepted : (exec (Statement.insertAttestation a) (σ.file.view c).data).isOk

/-- An attestation that a task inserts meets the condition. -/
def WhereInserted (P : Signer → NewAttestation → Database → Prop) (s : LedgerSys L W) :
    Event Request (Reply L) PyError W Call → Prop
  | .run t o => ∀ i witnessId signer c a k,
    s.tasks[t]? = some ⟨i, .attestWithWitness witnessId signer, .perform (.execute c (.insertAttestation a)) k⟩ →
      Inserts a c o s.shared → P signer a (s.shared.file.view c).data
  | _ => True

/-- The bytes of a signer whose attestation is inserted verify under the registered key. -/
def SignsTruly (verifier : Verifier) : LedgerSys L W → Event Request (Reply L) PyError W Call → Prop :=
  WhereInserted (SignsFor verifier)

/-- No other attestation of the witness was inserted since the call has read the last hash. -/
def Unforked : LedgerSys L W → Event Request (Reply L) PyError W Call → Prop :=
  WhereInserted fun _ => NamesTip

omit [IsoTime.Platform] in
theorem whereInserted_iff {P : Signer → NewAttestation → Database → Prop} {s : LedgerSys L W} {t : TaskId}
    {o : Outcome Request (Reply L) PyError W} {i : InstId} {witnessId : ℤ} {signer : Signer} {c : ConnId}
    {a : NewAttestation} {k : Except PyError ℤ → Action L Result}
    (ht : s.tasks[t]? = some ⟨i, .attestWithWitness witnessId signer, .perform (.execute c (.insertAttestation a)) k⟩) :
    WhereInserted P s (.run t o) ↔ (Inserts a c o s.shared → P signer a (s.shared.file.view c).data) := by
  constructor
  · intro h
    exact h i witnessId signer c a k ht
  · intro h i' witnessId' signer' c' a' k' ht'
    rw [ht] at ht'
    cases ht'
    exact h

/-- Runs of any ledgers whose insertions keep the tables sound. -/
def vouching (verifier : Verifier) : LedgerRules L W where
  calls _ _ := True
  env _ _ op o σ := ∀ c a, op = .execute c (.insertAttestation a) → Inserts a c o σ →
    (∀ k, Attested verifier (σ.file.view c).data.witnesses.rows (a.row k)) ∧ NamesTip a (σ.file.view c).data
  connects _ _ := True
  closes _ _ := True

theorem keeps_vouching {i : InstId} {t : TaskId} {σ : Shared Database Statement W} (call : Call) :
    (witnessGrowth verifier).Keeps (vouching (L := L) verifier).env i t call.body (fun _ _ => True) σ := by
  refine (Growth.Keeps.of_steps (uses_issuedBy call) (Growth.Grows.refl σ) ?_).mono fun _ _ _ _ => trivial
  intro σ' o c st d n hissued henv hran hw hgood hex
  refine ⟨?_, keepsKeys_exec hex⟩
  have hgood : Sound verifier (σ'.file.view c).data := hgood
  cases st with
  | insertAttestation a =>
    obtain ⟨hattested, hprev⟩ := henv c a rfl ⟨hran, hw, by rw [hex]; rfl⟩
    exact hgood.insertAttestation hex hprev hattested
  | _ =>
    refine hgood.readable_exec ?_ hex
    exact hissued

variable {rules : LedgerRules L W} {d : Database} {w : W} {s s' : LedgerSys L W} {t : TaskId} {i : InstId} {call : Call}

theorem issuedBy_of_run (hrun : LedgerRun rules (startSys d w) s) {c : ConnId} {st : Statement}
    {k : Except PyError ℤ → Action L Result} (ht : s.tasks[t]? = some ⟨i, call, .perform (.execute c st) k⟩) :
    IssuedBy call st := by
  have huses := programs_of_run (P := fun call p => p.Uses (Op.executes (IssuedBy call))) (fun _ c _ => uses_issuedBy c)
    (fun _ _ _ r hp => hp.2 r) (by simp [startSys]) hrun _ (List.mem_of_getElem? ht)
  exact huses.1

/-- An insertion keeps sound what its connection sees exactly when the signer signs for the registered
key and the attestation names the last hash. -/
theorem insertion_iff (hrun : LedgerRun rules (startSys d w) s) {c : ConnId} {a : NewAttestation}
    {k : Except PyError ℤ → Action L Result} {o : Outcome Request (Reply L) PyError W}
    (ht : s.tasks[t]? = some ⟨i, call, .perform (.execute c (.insertAttestation a)) k⟩)
    (hs : runTask t o s = some s') (hsound : Sound verifier (s.shared.file.view c).data) :
    Sound verifier (s'.shared.file.view c).data ↔ SignsTruly verifier s (.run t o) ∧ Unforked s (.run t o) := by
  obtain ⟨signer, rfl, hsigned⟩ := issuedBy_of_run hrun ht
  obtain ⟨j, call', op, k', r, σ, ht', hx, rfl⟩ := runTask_some hs
  rw [SignsTruly, Unforked, whereInserted_iff ht, whereInserted_iff ht]
  rw [ht] at ht'
  cases ht'
  by_cases hins : Inserts a c o s.shared
  · obtain ⟨⟨d', n⟩, hex⟩ := exists_of_isOk hins.accepted
    rw [write_of_performs hx hins.performs hins.mayWrite hex, File.view_write_self]
    rw [hsigned.sound_iff hsound hex]
    exact ⟨fun h => ⟨fun _ => h.1, fun _ => h.2⟩, fun h => ⟨h.1 hins, h.2 hins⟩⟩
  · have hsame : σ.file.view c = s.shared.file.view c := by
      rcases effect_execute hx with ⟨d', n, hw, hex, -, rfl⟩ | ⟨e, f, l, -, hf, -, rfl⟩
      · exact absurd ⟨performs_of_write hx, hw, by rw [hex]; rfl⟩ hins
      · exact File.view_of_locked hf c
    show Sound verifier (σ.file.view c).data ↔ _
    rw [hsame]
    exact ⟨fun _ => ⟨fun h => absurd h hins, fun h => absurd h hins⟩, fun _ => hsound⟩

/-- Runs in which every signer whose attestation is inserted signs for the registered key and no
attestation forks a sub-chain. -/
abbrev TrueRun (verifier : Verifier) : LedgerSys L W → LedgerSys L W → Prop :=
  RunWhere Call.body fun s e => SignsTruly verifier s e ∧ Unforked s e

theorem vouching_of_true (hrun : TrueRun verifier (startSys d w) s) :
    LedgerRun (vouching verifier) (startSys d w) s := by
  have hallow (s s' : LedgerSys L W) (e : Event Request (Reply L) PyError W Call)
      (h : LedgerRun (vouching verifier) (startSys d w) s) (hp : SignsTruly verifier s e ∧ Unforked s e)
      (_ : step Call.body s e = some s') : (vouching verifier).Allows s e := by
    cases e with
    | run t o =>
      rintro i call op k ht c a rfl hins
      obtain ⟨signer, rfl, hsigned⟩ := issuedBy_of_run h ht
      obtain ⟨p, hex⟩ := exists_of_isOk hins.accepted
      have hw := (exec_insertAttestation hex).1
      exact ⟨fun k' => (hsigned.attested_iff hw k').mpr (hp.1 i _ signer c a k ht hins), hp.2 i _ signer c a k ht hins⟩
    | _ => exact trivial
  refine (runWhere_strengthen ?_ hallow .refl hrun).1
  exact fun s s' e h hp he => h.tail ⟨e, hallow s s' e h hp he, he⟩

end Conditions

section Ledgers

variable [IsoTime.Platform]
variable {W : Type} {L : Libraries} {verifier : Verifier} {i : InstId} {d : Database} {w : W} {s s' : LedgerSys L W}

/-- Any calls, all on one ledger. -/
def sole (i : InstId) : LedgerRules L W :=
  ⟨fun j _ => j = i, fun _ _ _ _ _ => True, fun _ _ => True, fun _ _ => True⟩

theorem callOk_sound {t : TaskId} {σ : Shared Database Statement W}
    {env : InstId → TaskId → Op Statement Request → Outcome Request (Reply L) PyError W →
      Shared Database Statement W → Prop} {call : Call} (hcall : HonestCall verifier call) :
    CallOk (witnessGrowth verifier) i t env (call.body (L := L)) σ := by
  have hother {call : Call} (ha : Admits Readable call) :
      CallOk (witnessGrowth verifier) i t env (call.body (L := L)) σ :=
    callOk_of_guarded (guarded_body ha) (by simp) fun st v d n hs hgood hex =>
      ⟨Sound.readable_exec hgood hs hex, keepsKeys_exec hex⟩
  cases call with
  | attestWithWitness witnessId signer =>
    refine Ok.bind (Ok.mono (callOk_attestation fun v row head signedAt d n hgood hrow hid hactive hoffered => ?_) ?_
      fun _ h => h)
    · intro a hex
      subst hid
      exact ⟨Sound.insertAttestation hgood hex rfl fun k => attested_signed hrow hoffered hcall head _ signedAt k,
        keepsKeys_exec hex⟩
    · exact fun a _ _ _ _ _ => Ok.pure (P := protocol (witnessGrowth verifier) i W) fun _ _ _ => trivial
  | _ => exact hother (admits_readable (by simp))

/-- One ledger keeps its attestations sound where whoever attests signs honestly. -/
theorem sound_of_ledger {rules : LedgerRules L W} (honly : ∀ j c, rules.calls j c → j = i ∧ HonestCall verifier c)
    (hd : Sound verifier d) (hrun : LedgerRun rules (startSys d w) s) :
    Sound verifier s.shared.file.committed.data ∧ ∀ c, Sound verifier (s.shared.file.view c).data := by
  have hv : Verified (ExclusiveLock.protocol (witnessGrowth verifier) i W) rules (Call.body (L := L))
      (fun _ _ _ _ _ => True) (fun _ _ _ _ => True) :=
    ExclusiveLock.verified (fun j c h => (honly j c h).1) fun c _ _ h _ => callOk_sound (honly i c h).2
  have hstart : Good (ExclusiveLock.protocol (witnessGrowth verifier) i W) rules (fun _ _ _ _ _ => True)
      (fun _ _ _ _ => True) (startSys d w : LedgerSys L W) := by
    refine Good.start ⟨wired_start d w, hd, ?_⟩ (fresh_start d w)
    rintro p ⟨⟩
  have hinv := (hv.run hstart hrun).1.inv
  exact ⟨hinv.committed, fun c => (hinv.view c).1⟩

theorem Sound.acceptAll (h : Sound verifier d) : Sound acceptAll d := by
  refine ⟨h.readable, h.subChains, fun a ha => ?_⟩
  obtain ⟨hhash, w, hw, hid, signature, hsig, -⟩ := h.attested a ha
  exact ⟨hhash, w, hw, hid, signature, hsig, rfl⟩

/-- A step after which the tables are sound in every view has met the condition. -/
theorem meets_of_sound {rules : LedgerRules L W} (hrun : LedgerRun rules (startSys d w) s)
    (hsound : ∀ c, Sound verifier (s.shared.file.view c).data) (hsound' : ∀ c, Sound verifier (s'.shared.file.view c).data)
    {e : Event Request (Reply L) PyError W Call} (hs : step Call.body s e = some s') :
    SignsTruly verifier s e ∧ Unforked s e := by
  cases e with
  | run t o =>
    have hiff (j witnessId signer c a k) (ht : s.tasks[t]? =
        some ⟨j, .attestWithWitness witnessId signer, .perform (.execute c (.insertAttestation a)) k⟩) :
        SignsTruly verifier s (.run t o) ∧ Unforked s (.run t o) := (insertion_iff hrun ht hs (hsound c)).mp (hsound' c)
    refine ⟨fun j witnessId signer c a k ht => ?_, fun j witnessId signer c a k ht => ?_⟩
    · exact (hiff j witnessId signer c a k ht).1 j witnessId signer c a k ht
    · exact (hiff j witnessId signer c a k ht).2 j witnessId signer c a k ht
  | _ => exact ⟨trivial, trivial⟩

/-- No call of the only ledger forks a sub-chain, whoever signs. -/
theorem unforked_of_sole (hd : Sound acceptAll d) (hrun : LedgerRun (sole i) (startSys d w) s) {t : TaskId}
    {o : Outcome Request (Reply L) PyError W} (hs : runTask t o s = some s') : Unforked s (.run t o) := by
  have hsound {s : LedgerSys L W} (h : LedgerRun (sole i) (startSys d w) s) (c : ConnId) :
      Sound acceptAll (s.shared.file.view c).data :=
    (sound_of_ledger (fun _ c h => ⟨h, honest_acceptAll c⟩) hd h).2 c
  have hstep : Step Call.body (sole i) s s' := ⟨.run t o, fun _ _ _ _ _ => trivial, hs⟩
  exact (meets_of_sound hrun (hsound hrun) (hsound (hrun.tail hstep)) (e := .run t o) hs).2

/-- One ledger with honest signers meets the condition. -/
theorem true_of_honest (hd : Sound verifier d) (hrun : LedgerRun (oneLedger i verifier) (startSys d w) s) :
    TrueRun verifier (startSys d w) s := by
  have hsound {s : LedgerSys L W} (h : LedgerRun (oneLedger i verifier) (startSys d w) s) (c : ConnId) :
      Sound verifier (s.shared.file.view c).data :=
    (sound_of_ledger (fun _ _ h => h) hd h).2 c
  have hstep (s s' : LedgerSys L W) (e : Event Request (Reply L) PyError W Call)
      (h : LedgerRun (oneLedger i verifier) (startSys d w) s) (ha : (oneLedger i verifier).Allows s e)
      (he : step Call.body s e = some s') : LedgerRun (oneLedger i verifier) (startSys d w) s' :=
    h.tail ⟨e, ha, he⟩
  refine (runWhere_strengthen hstep (fun s s' e h ha he => ?_) .refl hrun).1
  exact meets_of_sound h (hsound h) (hsound (hstep s s' e h ha he)) he

end Ledgers

section Returns

variable [IsoTime.Platform]
variable {W : Type} {L : Libraries} {rules : LedgerRules L W} {d : Database} {w : W} {s : LedgerSys L W}

/-- The attestation is a row of the witness in the table. -/
def StoredFor (witnessId : ℤ) (a : WitnessAttestation) (d : Database) : Prop :=
  ∃ row ∈ d.attestations.rows, row.witnessId = witnessId ∧ rowToWitnessAttestation row = .ok a

theorem keeps_returned {i : InstId} {t : TaskId} {σ : Shared Database Statement W}
    {env : InstId → TaskId → Op Statement Request → Outcome Request (Reply L) PyError W →
      Shared Database Statement W → Prop} (witnessId : ℤ) (signer : Signer) :
    rowGrowth.Keeps env i t (attestWithWitness (L := L) witnessId signer)
      (fun r σ' => ∀ a ∈ r, StoredFor witnessId a σ'.file.committed.data) σ := by
  have hgrow (σ₁ σ₂ : Shared Database Statement W) (r : Option WitnessAttestation) (hg : rowGrowth.Grows σ₁ σ₂)
      (h : ∀ a ∈ r, StoredFor witnessId a σ₁.file.committed.data) :
      ∀ a ∈ r, StoredFor witnessId a σ₂.file.committed.data := by
    intro a ha
    obtain ⟨row, hrow, hread⟩ := h a ha
    exact ⟨row, hg.committed.2.subset hrow, hread⟩
  unfold attestWithWitness requireDb now
  refine Growth.Keeps.connection fun c σ₁ _ _ hown => ?_
  refine Growth.Keeps.withLock (fun r σ₁ σ₂ hg h => hgrow σ₁ σ₂ r hg h) fun σ₂ hg₂ => ?_
  refine Growth.Keeps.reads (uses_getWitness allowsReads_isRead _) fun witness σ₃ hg₃ => ?_
  split_ifs
  · exact Growth.Keeps.raise
  · exact Growth.Keeps.raise
  refine Growth.Keeps.reads (uses_getLatestEntry allowsReads_isRead) fun latest σ₄ hg₄ => ?_
  cases latest with
  | none => exact Growth.Keeps.pure fun _ _ => by simp
  | some head =>
    refine Growth.Keeps.reads (uses_getLastWitnessAttestationHash allowsReads_isRead _) fun prev σ₅ hg₅ => ?_
    refine Growth.Keeps.external fun signedAt σ₆ hg₆ => ?_
    have hown₆ := hown.rewired (hg₂.trans (hg₃.trans (hg₄.trans (hg₅.trans hg₆)))).rewired
    refine Growth.Keeps.execute ⟨hown₆.1, fun _ => RowsStay.refl _⟩ ?_ ?_
    · exact fun σ₇ o d n _ _ _ _ _ hex _ => ⟨trivial, rowsStay_exec hex⟩
    · rintro σ₇ v n _ hseen₇ - ⟨z, hex, -, -⟩
      obtain ⟨-, -, rfl, hv⟩ := exec_insertAttestation hex
      refine Growth.Keeps.commit hseen₇ fun σ₈ _ hdur => Growth.Keeps.pure fun σ₉ hg₉ => ?_
      rintro a ⟨⟩
      refine ⟨(signedAttestation witnessId signer head prev signedAt).row z.data.attestations.nextKey,
        (hdur.grow hg₉).2.subset ?_, rfl, ?_⟩
      · rw [hv]
        exact List.mem_append_right _ (List.mem_singleton_self _)
      · simp only [rowToWitnessAttestation, signedAttestation, NewAttestation.row, readTimeColumn_strftime]
        rfl

/-- What a call's result says of the database: the attestation is a committed row. -/
def Stores : Call → Result → Shared Database Statement W → Prop
  | .attestWithWitness witnessId _, .attestation (some a), σ => StoredFor witnessId a σ.file.committed.data
  | _, _, _ => True

theorem verified_stores : Verified (rowGrowth.protocol W) rules (Call.body (L := L)) (fun _ _ => Stores)
    (fun _ _ _ _ => True) := by
  refine Growth.verified fun i call t σ _ _ _ => ?_
  cases call with
  | attestWithWitness witnessId signer =>
    refine Growth.Keeps.bind ((keeps_returned witnessId signer).mono fun r σ₁ _ hstored => ?_)
    refine Growth.Keeps.pure fun σ₂ hg => ?_
    cases r with
    | none => exact trivial
    | some a =>
      obtain ⟨row, hrow, hread⟩ := hstored a rfl
      exact ⟨row, hg.committed.2.subset hrow, hread⟩
  | _ => exact (keeps_rows _).mono fun _ _ _ _ => trivial

/-- An attestation that a call has returned is a committed row of its witness. -/
theorem stored_of_returned (hrun : LedgerRun rules (startSys d w) s) {t : TaskId} {i : InstId} {witnessId : ℤ}
    {signer : Signer} {a : WitnessAttestation}
    (ht : s.tasks[t]? = some ⟨i, .attestWithWitness witnessId signer, .done (.ok (.attestation (some a)))⟩) :
    StoredFor witnessId a s.shared.file.committed.data := by
  have hstart : Good (rowGrowth.protocol W) rules (fun _ _ => Stores) (fun _ _ _ _ => True)
      (startSys d w : LedgerSys L W) := by
    refine Good.start ⟨wired_start d w, trivial, ?_⟩ (fresh_start d w)
    rintro p ⟨⟩
  exact (verified_stores.run hstart hrun).1.result ht

end Returns

section Main

variable [IsoTime.Platform]
variable {W : Type} {L : Libraries} {verifier : Verifier} {i : InstId} {d : Database} {w : W} {s : LedgerSys L W}

/-- The attestation's signature verifies, over the bytes of its hash, under the registered key. -/
def VerifiesFor (verifier : Verifier) (witnessId : ℤ) (a : WitnessAttestation) (d : Database) : Prop :=
  ∃ x ∈ d.witnesses.rows, x.witnessId = witnessId ∧ ∃ message signature, fromHex a.attestationHash = some message ∧
    fromHex a.signatureHex = some signature ∧ verifier (some x.publicKeyHex) message signature = .ok true

theorem StoredFor.verifies {witnessId : ℤ} {a : WitnessAttestation} (h : StoredFor witnessId a d)
    (hd : Sound verifier d) : VerifiesFor verifier witnessId a d := by
  obtain ⟨row, hrow, rfl, hread⟩ := h
  obtain ⟨hhash, x, hx, hid, signature, hsig, hv⟩ := hd.attested row hrow
  obtain ⟨signedAt, -, hread⟩ := bind_ok hread
  cases hread
  refine ⟨x, hx, hid, attestationDigest row, signature, ?_, hsig, hv⟩
  show fromHex row.attestationHash = _
  rw [hhash, fromHex_recomputedAttestation]

theorem allVerify_iff : AllVerify verifier d ↔ Sound verifier d :=
  ⟨fun h => sound_iff.mpr h.1, Sound.allVerify⟩

/-- Along every run in which the signers sign for the registered keys, and several ledgers do not fork
a sub-chain, the walk accepts the attestations and every returned one verifies. An insertion keeps it
so exactly when it meets the condition, of which one ledger always meets the second part. -/
theorem accepted_attestations_verify_iff (hd : AllVerify verifier d) (hrun : TrueRun verifier (startSys d w) s) :
    (AllVerify verifier s.shared.file.committed.data ∧ ∀ c, AllVerify verifier (s.shared.file.view c).data) ∧
      (∀ (t : TaskId) j witnessId signer a,
        s.tasks[t]? = some ⟨j, .attestWithWitness witnessId signer, .done (.ok (.attestation (some a)))⟩ →
          VerifiesFor verifier witnessId a s.shared.file.committed.data) ∧
      (∀ t o s', runTask t o s = some s' →
        (∀ j call c a k, s.tasks[t]? = some ⟨j, call, .perform (.execute c (.insertAttestation a)) k⟩ →
          (AllVerify verifier (s'.shared.file.view c).data ↔
            SignsTruly verifier s (.run t o) ∧ Unforked s (.run t o))) ∧
        (LedgerRun (sole i) (startSys d w) s → Unforked s (.run t o))) := by
  have hvouching := vouching_of_true hrun
  obtain ⟨hcommitted, hviews⟩ := sound_of_keeps (fun _ _ call _ _ => keeps_vouching call) (allVerify_iff.mp hd) hvouching
  refine ⟨⟨Sound.allVerify hcommitted, fun c => Sound.allVerify (hviews c)⟩, ?_, fun t o s' hs => ⟨?_, ?_⟩⟩
  · exact fun t j witnessId signer a ht => (stored_of_returned hvouching ht).verifies hcommitted
  · intro j call c a k ht
    rw [allVerify_iff]
    exact insertion_iff hvouching ht hs (hviews c)
  · exact fun hsole => unforked_of_sole (Sound.acceptAll (allVerify_iff.mp hd)) hsole hs

end Main

section Examples

def keyedAccepts (key : Option String) (message signature : Bytes) : Bool :=
  signature == (key.bind fromHex).getD [] ++ message

/-- A scheme whose signatures are the key and the message. -/
def keyedVerifier : Verifier := fun key message signature => .ok (keyedAccepts key message signature)

/-- A signer that signs with the key `01` under the name of the key `00`. -/
def misnamedSigner : Signer := ⟨"00", fun message => 1 :: message⟩

/-- The witness attests to the end of its call. -/
def attests (signer : Signer) : List (LedgerEvent offline Unit) := attestScript (stoppedClock offline) 0 2 1 signer

/-- A task has returned an attestation that is not signed with the witness's key. -/
def ReturnsUnsigned (s : LedgerSys offline Unit) : Prop :=
  ∃ (t : TaskId) (j : InstId) (witnessId : ℤ) (signer : Signer) (a : WitnessAttestation),
    s.tasks[t]? = some ⟨j, .attestWithWitness witnessId signer, .done (.ok (.attestation (some a)))⟩ ∧
      ¬ VerifiesFor keyedVerifier witnessId a s.shared.file.committed.data

/-- The signer's signatures begin with the key `01`. -/
def SignsWithOne (signer : Signer) : Prop := ∀ message, ∃ rest, signer.sign message = 1 :: rest

/-- A returned attestation has the bytes of a signature of the call's signer. -/
def ReturnsSigned (call : Call) (r : Result) : Prop :=
  ∀ witnessId signer a, call = .attestWithWitness witnessId signer → r = .attestation (some a) →
    ∃ message, a.signatureHex = hex (signer.sign message)

theorem returns_attestation (witnessId : ℤ) (signer : Signer) :
    Returns (fun r => ∀ a, r = some a → ∃ message, a.signatureHex = hex (signer.sign message))
      (attestWithWitness (L := offline) witnessId signer) := by
  unfold attestWithWitness
  refine returns_bind _ fun db => Returns.withLock (returns_bind _ fun witness => ?_)
  split
  · trivial
  split
  · trivial
  refine returns_bind _ fun latest => ?_
  cases latest with
  | none =>
    rintro a ⟨⟩
  | some head =>
    refine returns_bind _ fun prev => returns_bind _ fun signedAt => returns_bind _ fun n => returns_bind _ fun _ => ?_
    rintro a ⟨⟩
    exact ⟨_, rfl⟩

theorem returns_signed (call : Call) : Returns (ReturnsSigned call) (call.body (L := offline)) := by
  cases call with
  | attestWithWitness witnessId signer =>
    refine (returns_attestation witnessId signer).bind fun r hr => ?_
    rintro _ _ a ⟨⟩ ⟨⟩
    exact hr a rfl
  | _ =>
    refine returns_bind _ fun r => ?_
    rintro _ _ _ ⟨⟩

def returnsAttestation (s : LedgerSys offline Unit) : Bool :=
  match s.tasks[(2 : TaskId)]? with
  | some ⟨_, .attestWithWitness _ _, .done (.ok (.attestation (some _)))⟩ => true
  | _ => false

/-- What signers return who sign with the key `01` does not verify under the key `00`. -/
theorem returnsUnsigned_of_run {rules : LedgerRules offline Unit} {s : LedgerSys offline Unit}
    (hrun : LedgerRun rules (startSys Database.empty ()) s)
    (hsigners : ∀ i witnessId signer, rules.calls i (.attestWithWitness witnessId signer) → SignsWithOne signer)
    (hkeys : s.shared.file.committed.data.witnesses.rows.map WitnessRow.publicKeyHex = ["00"])
    (h : returnsAttestation s = true) : ReturnsUnsigned s := by
  unfold returnsAttestation at h
  split at h
  · rename_i j witnessId signer a ht
    have hmem := List.mem_of_getElem? ht
    have hsigns := programs_of_run (P := fun (call : Call) (_ : Action offline Result) => ∀ witnessId signer,
        call = Call.attestWithWitness witnessId signer → SignsWithOne signer)
      (fun i c hc witnessId signer he => hsigners i witnessId signer (by rwa [← he])) (fun _ _ _ _ hp => hp)
      (by simp [startSys]) hrun _ hmem witnessId signer rfl
    obtain ⟨signed, hsignature⟩ :=
      returns_of_run returns_signed hrun (by simp [startSys]) _ hmem witnessId signer a rfl rfl
    refine ⟨2, j, witnessId, signer, a, ht, ?_⟩
    rintro ⟨x, hx, -, message, signature, -, hhex, hv⟩
    have hkey : x.publicKeyHex = "00" := by
      have hx' := List.mem_map_of_mem (f := WitnessRow.publicKeyHex) hx
      rw [hkeys] at hx'
      exact List.mem_singleton.mp hx'
    obtain ⟨rest, hone⟩ := hsigns signed
    rw [hsignature, fromHex_hex, hone] at hhex
    cases hhex
    simp [keyedVerifier, keyedAccepts, hkey, show fromHex "00" = some [0] from rfl] at hv
  · cases h

theorem honest_registered (verifier : Verifier) : ∀ p ∈ callsOf registered, p.1 = 0 ∧ HonestCall verifier p.2 := by
  simp [registered, HonestCall, logCall]

/-- Calls on one ledger whose signers sign with the key `01`. -/
def misnamed : LedgerRules offline Unit :=
  ⟨fun j c => j = 0 ∧ ∀ witnessId signer, c = .attestWithWitness witnessId signer → SignsWithOne signer,
    fun _ _ _ _ _ => True, fun _ _ => True, fun _ _ => True⟩

theorem misnamed_events : ∀ p ∈ callsOf (registered ++ attests misnamedSigner),
    p.1 = 0 ∧ ∀ witnessId signer, p.2 = .attestWithWitness witnessId signer → SignsWithOne signer := by
  simp [registered, attests, logCall, SignsWithOne, misnamedSigner]

/-- The attestation is returned and stored, and the walk, which accepted the table before, rejects it. -/
theorem misnamed_accepted : ∃ s s' : LedgerSys offline Unit, LedgerRun (sole 0) (startSys Database.empty ()) s ∧
    LedgerRun (sole 0) s s' ∧ AllVerify keyedVerifier s.shared.file.committed.data ∧ ReturnsUnsigned s' ∧
    ¬ AllVerify keyedVerifier s'.shared.file.committed.data := by
  have h : (runEvents Call.body (startSys Database.empty ()) registered).any (fun s =>
      (runEvents Call.body s (attests misnamedSigner)).any fun s' => returnsAttestation s' ∧
        s'.shared.file.committed.data.witnesses.rows.map WitnessRow.publicKeyHex = ["00"]) = true := by decide +kernel
  obtain ⟨s, hs, h⟩ := (Option.any_eq_true _ _).mp h
  obtain ⟨s', hs', h⟩ := (Option.any_eq_true _ _).mp h
  obtain ⟨hreturns, hkeys⟩ := of_decide_eq_true h
  have hrun : LedgerRun (oneLedger 0 keyedVerifier) (startSys Database.empty ()) s :=
    run_of_calls (honest_registered _) hs
  have hmisnamed : LedgerRun misnamed s s' :=
    run_of_calls (fun p hp => misnamed_events p (by rw [callsOf_append]; exact List.mem_append_right _ hp)) hs'
  have hrun₀ : LedgerRun misnamed (startSys Database.empty ()) s :=
    run_of_calls (fun p hp => misnamed_events p (by rw [callsOf_append]; exact List.mem_append_left _ hp)) hs
  have hsole {s s' : LedgerSys offline Unit} (h : LedgerRun misnamed s s') : LedgerRun (sole 0) s s' := by
    refine run_mono (fun s e ha => ?_) h
    cases e with
    | call j c => exact ha.1
    | run | connect | close | detach => exact ha
  have hunsigned := returnsUnsigned_of_run (hrun₀.trans hmisnamed) (fun i witnessId signer h => h.2 witnessId signer rfl)
    hkeys hreturns
  have hempty : Sound keyedVerifier Database.empty := sound_empty
  refine ⟨s, s', hsole hrun₀, hsole hmisnamed, ?_, hunsigned, fun hall => ?_⟩
  · exact Sound.allVerify (sound_of_ledger (fun _ _ h => h) hempty hrun).1
  · obtain ⟨t, j, witnessId, signer, a, ht, hno⟩ := hunsigned
    exact hno ((stored_of_returned (hsole (hrun₀.trans hmisnamed)) ht).verifies (allVerify_iff.mp hall))

theorem honest_keyed : Honest keyedVerifier ⟨"00", fun message => 0 :: message⟩ := by
  intro message
  simp [keyedVerifier, keyedAccepts, show fromHex "00" = some [0] from rfl]

end Examples

theorem accepted_attestations_verify_iff_keyed : ∃ s : LedgerSys offline Unit,
    TrueRun keyedVerifier (startSys Database.empty ()) s ∧
    s.shared.file.committed.data.attestations.rows.length = 1 ∧
    AllVerify keyedVerifier s.shared.file.committed.data := by
  have h : (runEvents Call.body (startSys Database.empty ()) (registered ++ attests ⟨"00", fun message => 0 :: message⟩)).any
      (fun s => s.shared.file.committed.data.attestations.rows.length = 1) = true := by decide +kernel
  obtain ⟨s, hs, hlen⟩ := (Option.any_eq_true _ _).mp h
  have hrun : LedgerRun (oneLedger 0 keyedVerifier) (startSys Database.empty ()) s :=
    run_of_calls (by simp [registered, attests, HonestCall, logCall, honest_keyed]) hs
  have htrue : TrueRun keyedVerifier (startSys Database.empty ()) s := true_of_honest sound_empty hrun
  exact ⟨s, htrue, of_decide_eq_true hlen,
    (accepted_attestations_verify_iff (i := 0) (Sound.allVerify sound_empty) htrue).1.1⟩

end NexusCone.WitnessSigners
