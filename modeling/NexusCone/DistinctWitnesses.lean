import NexusCone.WitnessSigners

/-!
# Keys of distinct witnesses

`UNIQUE` compares the texts of the public keys, and `bytes.fromhex` reads one key from many texts. So
the witnesses have distinct keys exactly as long as no key is registered again under another spelling,
and only then a count of accepted witnesses counts private keys.
-/
namespace NexusCone.DistinctWitnesses
open HexBytes KeyedTable SharedFile AsyncProgram AsyncSystem Connections RelyGuarantee GrowingVersions PyValue
  LedgerSchema EntryChain WitnessChain WitnessCursor TimestampAuthority Ledger LedgerRuns WitnessStore WitnessForks
  WitnessWalks WitnessLedger WitnessAlarms ExceptResults TaskRuns

section Rows

variable {d d' : Database} {n : ℤ} {st : Statement}

/-- The texts spell one key. -/
def SameKey (a b : String) : Prop := ∃ key, fromHex a = some key ∧ fromHex b = some key

theorem SameKey.symm {a b : String} (h : SameKey a b) : SameKey b a := by
  obtain ⟨key, ha, hb⟩ := h
  exact ⟨key, hb, ha⟩

theorem sameKey_iff {a b : String} : SameKey a b ↔ (fromHex a).isSome ∧ fromHex a = fromHex b := by
  constructor
  · rintro ⟨key, ha, hb⟩
    exact ⟨by rw [ha]; rfl, by rw [ha, hb]⟩
  · rintro ⟨hsome, heq⟩
    obtain ⟨key, ha⟩ := Option.isSome_iff_exists.mp hsome
    exact ⟨key, ha, by rw [← heq, ha]⟩

instance (a b : String) : Decidable (SameKey a b) := decidable_of_iff _ sameKey_iff.symm

/-- No two witnesses have one key. -/
def DistinctKeys (d : Database) : Prop :=
  ∀ w ∈ d.witnesses.rows, ∀ w' ∈ d.witnesses.rows, w.witnessId ≠ w'.witnessId →
    ¬ SameKey w.publicKeyHex w'.publicKeyHex

/-- No witness has the key yet, however it is spelt. -/
def NewKey (x : NewWitness) (d : Database) : Prop :=
  ∀ w ∈ d.witnesses.rows, ¬ SameKey w.publicKeyHex x.publicKeyHex

instance (x : NewWitness) (d : Database) : Decidable (NewKey x d) :=
  inferInstanceAs (Decidable (∀ w ∈ d.witnesses.rows, ¬ SameKey w.publicKeyHex x.publicKeyHex))

theorem distinctKeys_empty : DistinctKeys Database.empty := by
  simp [DistinctKeys, Database.empty]

/-- Contents with fewer witnesses under the same ids and keys. -/
theorem DistinctKeys.of_rows (h : DistinctKeys d) (hrows : ∀ w' ∈ d'.witnesses.rows, ∃ w ∈ d.witnesses.rows,
    w.witnessId = w'.witnessId ∧ w.publicKeyHex = w'.publicKeyHex) : DistinctKeys d' := by
  intro x hx y hy hne
  obtain ⟨w, hw, hid, hkey⟩ := hrows x hx
  obtain ⟨z, hz, hid', hkey'⟩ := hrows y hy
  rw [← hkey, ← hkey']
  refine h w hw z hz ?_
  rwa [hid, hid']

/-- A new witness leaves the keys distinct exactly when nobody has its key. -/
theorem DistinctKeys.insertWitness_iff {x : NewWitness} (h : DistinctKeys d)
    (hex : exec (Statement.insertWitness x) d = .ok (d', n)) : DistinctKeys d' ↔ NewKey x d := by
  obtain ⟨-, -, -, rfl⟩ := exec_insertWitness hex
  have hlt : ∀ w ∈ d.witnesses.rows, w.witnessId < d.witnesses.nextKey := d.witnesses.lt_nextKey
  have hlast : x.row d.witnesses.nextKey ∈ d.witnesses.rows ++ [x.row d.witnesses.nextKey] :=
    List.mem_append_right _ (List.mem_singleton_self _)
  constructor
  · intro hd w hw
    exact hd w (List.mem_append_left _ hw) _ hlast (hlt w hw).ne
  · intro hnew w hw w' hw' hne
    rcases List.mem_append.mp hw with hold | hw
    · rcases List.mem_append.mp hw' with hold' | hw'
      · exact h w hold w' hold' hne
      · rw [List.mem_singleton.mp hw']
        exact hnew w hold
    · rw [List.mem_singleton.mp hw] at hne ⊢
      rcases List.mem_append.mp hw' with hold' | hw'
      · exact fun hsame => hnew w' hold' hsame.symm
      · rw [List.mem_singleton.mp hw'] at hne
        exact absurd rfl hne

theorem DistinctKeys.exec_iff (h : DistinctKeys d) (hex : exec st d = .ok (d', n)) :
    DistinctKeys d' ↔ ∀ x, st = .insertWitness x → NewKey x d := by
  have hother (hno : ∀ x, st ≠ .insertWitness x) (hd' : DistinctKeys d') :
      DistinctKeys d' ↔ ∀ x, st = .insertWitness x → NewKey x d :=
    iff_of_true hd' fun x hx => absurd hx (hno x)
  cases st with
  | insertWitness x =>
    rw [h.insertWitness_iff hex]
    constructor
    · rintro hnew _ ⟨⟩
      exact hnew
    · exact fun hnew => hnew x rfl
  | insertEntry row =>
    obtain ⟨t, -, -, rfl⟩ := exec_insertEntry hex
    exact hother nofun h
  | insertAnchor a =>
    obtain ⟨-, -, rfl⟩ := exec_insertAnchor hex
    exact hother nofun h
  | confirmAnchor =>
    cases hex
    exact hother nofun h
  | insertAttestation a =>
    obtain ⟨-, -, -, rfl⟩ := exec_insertAttestation hex
    exact hother nofun h
  | retireWitness witnessId retiredAt =>
    cases hex
    refine hother nofun (h.of_rows fun w' hw' => ?_)
    obtain ⟨w, hw, rfl⟩ := List.mem_map.mp hw'
    obtain ⟨hid, -, hkey⟩ := retire_keeps witnessId retiredAt w
    exact ⟨w, hw, hid.symm, hkey.symm⟩

end Rows

section Counts

/-- The verifier of a mapping of key ids to hex-encoded public keys, each of 32 bytes. -/
structure Ed25519Verifier where
  publicKeys : List (String × String)
  decodes : ∀ p ∈ publicKeys, ∃ key, fromHex p.2 = some key ∧ key.length = 32

namespace Ed25519Verifier

variable (v : Ed25519Verifier) (valid : Bytes → Bytes → Bytes → Bool)

def publicKey (keyId : Option String) : Option Bytes := (keyId.bind fun id => v.publicKeys.lookup id).bind fromHex

/-- `valid` is the check of the signature library under a public key. -/
def verify : Verifier := fun keyId message signature =>
  match v.publicKey keyId with
  | none => .ok false
  | some key => .ok (valid key message signature)

/-- Each key has a spelling of itself for its id, as the registered public keys are the ids of witnesses. -/
def Names : Prop := ∀ keyId text, v.publicKeys.lookup keyId = some text → SameKey keyId text

variable {v valid} {keyId : Option String} {message signature : Bytes}

theorem verify_true : v.verify valid keyId message signature = .ok true ↔
    ∃ key, v.publicKey keyId = some key ∧ valid key message signature = true := by
  unfold verify
  cases v.publicKey keyId <;> simp

theorem Names.fromHex_of_publicKey (h : v.Names) {text : String} {key : Bytes}
    (hkey : v.publicKey (some text) = some key) : fromHex text = some key := by
  obtain ⟨held, hlookup, hheld⟩ := Option.bind_eq_some_iff.mp hkey
  obtain ⟨key', htext, hheld'⟩ := h text held hlookup
  rw [htext, ← hheld', hheld]

end Ed25519Verifier

variable [IsoTime.Platform]
variable {v : Ed25519Verifier} {valid : Bytes → Bytes → Bytes → Bool} {d : Database} {t : Table AttestationRow}

/-- The verifier accepts the attestation's signature under the key, which it has found for its witness. -/
def AcceptedUnder (v : Ed25519Verifier) (valid : Bytes → Bytes → Bytes → Bool) (witnesses : List WitnessRow)
    (a : AttestationRow) (key : Bytes) : Prop :=
  ∃ w ∈ witnesses, w.witnessId = a.witnessId ∧ v.publicKey (some w.publicKeyHex) = some key ∧
    ∃ signature, fromHex a.signatureHex = some signature ∧ valid key (attestationDigest a) signature = true

/-- Attestations of as many witnesses are accepted under as many keys, and so come from as many private keys. -/
def CountsKeys (v : Ed25519Verifier) (valid : Bytes → Bytes → Bytes → Bool) (witnesses : List WitnessRow)
    (rows : List AttestationRow) : Prop :=
  ∀ as ⊆ rows, (as.map AttestationRow.witnessId).Nodup →
    (∃ keys, List.Forall₂ (AcceptedUnder v valid witnesses) as keys) ∧
      ∀ (PrivateKey : Type) (publicKey : PrivateKey → Bytes) (secrets : List PrivateKey),
        List.Forall₂ (fun a secret => AcceptedUnder v valid witnesses a (publicKey secret)) as secrets →
          secrets.Nodup

omit [IsoTime.Platform] in
theorem acceptedUnder_of_attested {witnesses : List WitnessRow} {a : AttestationRow}
    (h : Attested (v.verify valid) witnesses a) : ∃ key, AcceptedUnder v valid witnesses a key := by
  obtain ⟨-, w, hw, hid, signature, hsig, hv⟩ := h
  obtain ⟨key, hkey, haccepted⟩ := Ed25519Verifier.verify_true.mp hv
  exact ⟨key, w, hw, hid, hkey, signature, hsig, haccepted⟩

omit [IsoTime.Platform] in
/-- Distinct witnesses are not accepted under one key. -/
theorem AcceptedUnder.witness_eq (hn : v.Names) (hd : DistinctKeys d) {a b : AttestationRow} {key : Bytes}
    (ha : AcceptedUnder v valid d.witnesses.rows a key) (hb : AcceptedUnder v valid d.witnesses.rows b key) :
    a.witnessId = b.witnessId := by
  obtain ⟨w, hw, hid, hkey, -⟩ := ha
  obtain ⟨x, hx, hid', hkey', -⟩ := hb
  by_contra hne
  rw [← hid, ← hid'] at hne
  exact hd w hw x hx hne ⟨key, hn.fromHex_of_publicKey hkey, hn.fromHex_of_publicKey hkey'⟩

omit [IsoTime.Platform] in
theorem nodup_of_forall₂ {α β γ : Type} {R : α → β → Prop} {f : α → γ} {as : List α} {bs : List β}
    (hR : ∀ a a' b, R a b → R a' b → f a = f a') (h : List.Forall₂ R as bs) (hn : (as.map f).Nodup) : bs.Nodup := by
  induction h with
  | nil => exact List.nodup_nil
  | @cons a b as bs hab h ih =>
    obtain ⟨hfresh, hn⟩ := List.nodup_cons.mp hn
    refine List.nodup_cons.mpr ⟨fun hb => hfresh ?_, ih hn⟩
    obtain ⟨i, hi, rfl⟩ := List.getElem_of_mem hb
    obtain ⟨hlen, hget⟩ := List.forall₂_iff_get.mp h
    have hi' : i < as.length := hlen ▸ hi
    rw [hR a as[i] bs[i] hab (hget i hi' hi)]
    exact List.mem_map_of_mem (List.getElem_mem hi')

omit [IsoTime.Platform] in
theorem countsKeys_of_distinct (hn : v.Names) (hd : DistinctKeys d) {rows : List AttestationRow}
    (h : ∀ a ∈ rows, Attested (v.verify valid) d.witnesses.rows a) : CountsKeys v valid d.witnesses.rows rows := by
  intro as hsub hnodup
  constructor
  · choose! key hkey using fun a (ha : a ∈ rows) => acceptedUnder_of_attested (h a ha)
    refine ⟨as.map key, List.forall₂_map_right_iff.mpr (List.forall₂_same.mpr fun a ha => hkey a (hsub ha))⟩
  · intro PrivateKey publicKey secrets hsecrets
    exact nodup_of_forall₂ (fun a b secret ha hb => ha.witness_eq hn hd hb) hsecrets hnodup

end Counts

section Runs

variable [IsoTime.Platform] {W : Type} {L : Libraries}

/-- The statement runs on what the connection sees, and its constraints accept it. -/
def Executes (st : Statement) (c : ConnId) (o : Outcome Request (Reply L) PyError W)
    (σ : Shared Database Statement W) : Prop :=
  o.performs ∧ σ.file.MayWrite c ∧ (exec st (σ.file.view c).data).isOk

/-- A witness that is inserted has a key that no witness has. -/
def RegistersNewKey (op : Op Statement Request) (o : Outcome Request (Reply L) PyError W)
    (σ : Shared Database Statement W) : Prop :=
  match op with
  | .execute c (.insertWitness x) => Executes (.insertWitness x) c o σ → NewKey x (σ.file.view c).data
  | _ => True

/-- Any calls on any ledgers in which no key is registered twice. -/
def newKeys : LedgerRules L W :=
  ⟨fun _ _ => True, fun _ _ op o σ => RegistersNewKey op o σ, fun _ _ => True, fun _ _ => True⟩

def keyGrowth : Growth Database Statement where
  good v := DistinctKeys v.data
  le _ _ := True
  refl _ := trivial
  trans _ _ := trivial

variable {d : Database} {w : W} {s s' : LedgerSys L W}

/-- The contents and every connection's view have distinct keys. -/
def AllDistinct (s : LedgerSys L W) : Prop :=
  DistinctKeys s.shared.file.committed.data ∧ ∀ c, DistinctKeys (s.shared.file.view c).data

theorem keeps_keys {i : InstId} {t : TaskId} {σ : Shared Database Statement W} (call : Call) :
    keyGrowth.Keeps (newKeys (L := L)).env i t call.body (fun _ _ => True) σ := by
  have huses : (call.body (L := L)).Uses (Op.executes fun _ => True) :=
    Prog.uses_of_forall (fun op => by cases op <;> trivial) _
  refine (Growth.Keeps.of_steps huses (Growth.Grows.refl σ) ?_).mono fun _ _ _ _ => trivial
  intro σ' o c st d n _ henv hran hw hgood hex
  refine ⟨(DistinctKeys.exec_iff hgood hex).mpr ?_, trivial⟩
  rintro x rfl
  exact henv ⟨hran, hw, by rw [hex]; rfl⟩

theorem allDistinct_of_run (hd : DistinctKeys d) (hrun : LedgerRun newKeys (startSys d w) s) : AllDistinct s := by
  have hv : Verified (keyGrowth.protocol W) newKeys (Call.body (L := L)) (fun _ _ _ _ _ => True)
      (fun _ _ _ _ => True) := Growth.verified fun _ call _ _ _ _ _ => keeps_keys call
  have hstart : Good (keyGrowth.protocol W) newKeys (fun _ _ _ _ _ => True) (fun _ _ _ _ => True)
      (startSys d w : LedgerSys L W) := by
    refine Good.start ⟨wired_start d w, hd, ?_⟩ (fresh_start d w)
    rintro p ⟨⟩
  have hinv := (hv.run hstart hrun).1.inv
  exact ⟨hinv.committed, fun c => (hinv.view c).1⟩

/-- A step from distinct keys to distinct keys inserts no witness with a known key. -/
theorem allows_of_distinct (h : AllDistinct s) (h' : AllDistinct s') {e : Event Request (Reply L) PyError W Call}
    (he : step Call.body s e = some s') : newKeys.Allows s e := by
  cases e with
  | run t o =>
    intro i call op k ht
    obtain ⟨j, call', op, k', r, σ, ht', hx, rfl⟩ := runTask_some he
    rw [ht] at ht'
    cases ht'
    show RegistersNewKey op o s.shared
    unfold RegistersNewKey
    split
    · rename_i c x
      rintro ⟨hran, hw, hok⟩
      obtain ⟨⟨d', n⟩, hex⟩ := exists_of_isOk hok
      have hview : DistinctKeys (σ.file.view c).data := h'.2 c
      rw [write_of_performs hx hran hw hex, File.view_write_self] at hview
      exact ((h.2 c).insertWitness_iff hex).mp hview
    · exact trivial
  | _ => exact trivial

end Runs

section Main

variable [IsoTime.Platform] {W : Type} {L : Libraries} {d : Database} {w : W} {s : LedgerSys L W}

/-- Along every run in which no key is registered twice the witnesses have distinct keys, and a step
keeps it so exactly when it meets the condition. A verification that ends counts as many private keys
as witnesses. -/
theorem distinct_keys_iff (hd : DistinctKeys d) (hrun : LedgerRun newKeys (startSys d w) s) :
    AllDistinct s ∧
      (∀ e s', step Call.body s e = some s' → (AllDistinct s' ↔ newKeys.Allows s e)) ∧
      ∀ (v : Ed25519Verifier) valid cursor (t : TaskId) i s' reads n, v.Names →
        s.tasks[t]? = some ⟨i, .verifyWitnessAttestations (v.verify valid) cursor,
          (Call.verifyWitnessAttestations (v.verify valid) cursor).body⟩ →
        Ends Call.body newKeys t s reads s' (.ok (.count n)) →
          ∃ (x z : Database) (nows : List Database) (rows : List AttestationRow), reads = x :: z :: nows ∧
            rows = (cursor.scan z.attestations).handed (nows.map Database.attestations) ∧
            rows.Nodup ∧ z.attestations.rows ⊆ rows ∧ n = rows.length ∧ CountsKeys v valid x.witnesses.rows rows := by
  have hdistinct := allDistinct_of_run hd hrun
  refine ⟨hdistinct, fun e s' he => ⟨fun h' => allows_of_distinct hdistinct h' he, fun ha => ?_⟩, ?_⟩
  · exact allDistinct_of_run hd (hrun.tail ⟨e, ha, he⟩)
  · intro v valid cursor t i s' reads n hn hcall hends
    rcases verification_cases hcall hends with ⟨e, he, -⟩ | ⟨c, s₁, s₂, hrun₁, -, hrun₂, -, h⟩
    · cases he
    rcases h with ⟨e, -, he⟩ | ⟨ws, z, nows, hws, hreads, hsees, hwalked⟩
    · cases he
    have hrun' := hrun.trans (hrun₁.trans hrun₂)
    obtain ⟨hchain, s₃, -, -, -, hfirsts⟩ := handed_of_sees hrun' hsees cursor
    cases hwalked with
    | counted h hend ho =>
      refine ⟨_, z, nows, _, hreads, rfl, hfirsts.nodup, ?_, Nat.zero_add _, ?_⟩
      · exact (cursor.handsOver z.attestations).subset hchain hend
      · refine countsKeys_of_distinct hn ((allDistinct_of_run hd hrun').2 c) fun a ha => ?_
        exact (attestationValid_iff hws).mp ((verifyAttestations_ok.mp h).2 a ha)

end Main

section Examples

variable {W : Type} {L : Libraries}

def keyText (digit : Char) : String := String.ofList (List.replicate 64 digit)

/-- Signatures that are the key and the message. -/
def keyedValid (key message signature : Bytes) : Bool := signature == key ++ message

/-- The one private key's public key. -/
def soleKey : Bytes := List.replicate 32 170

def soleSigner (keyId : String) : Signer := ⟨keyId, fun message => soleKey ++ message⟩

/-- A witness is registered for each text of a key. -/
def registersKeys (first second : Char) : List (LedgerEvent offline Unit) :=
  logged ++ registerScript (stoppedClock offline) 0 1 "v" (keyText first) ++
    registerScript (stoppedClock offline) 0 2 "w" (keyText second)

/-- Two spellings of one key are registered, and both witnesses attest to an entry. -/
def spelledTwice : List (LedgerEvent offline Unit) :=
  registersKeys 'A' 'a' ++ attestScript (stoppedClock offline) 0 3 1 (soleSigner (keyText 'A')) ++
    attestScript (stoppedClock offline) 0 4 2 (soleSigner (keyText 'a'))

theorem fromHex_keyText : fromHex (keyText 'A') = some soleKey ∧ fromHex (keyText 'a') = some soleKey := by
  decide +kernel

def spellings : List (String × String) := [(keyText 'A', keyText 'A'), (keyText 'a', keyText 'a')]

theorem decodes_spellings : ∀ p ∈ spellings, ∃ key, fromHex p.2 = some key ∧ key.length = 32 := by
  intro p hp
  simp only [spellings, List.mem_cons, List.not_mem_nil, or_false] at hp
  rcases hp with rfl | rfl
  exacts [⟨soleKey, fromHex_keyText.1, rfl⟩, ⟨soleKey, fromHex_keyText.2, rfl⟩]

def bothSpellings : Ed25519Verifier := ⟨spellings, decodes_spellings⟩

theorem names_bothSpellings : bothSpellings.Names := by
  intro keyId text h
  simp only [bothSpellings, spellings, List.lookup_cons, List.lookup_nil] at h
  split at h
  · rename_i heq
    cases h
    rw [eq_of_beq heq]
    exact ⟨soleKey, fromHex_keyText.1, fromHex_keyText.1⟩
  · split at h
    · rename_i heq
      cases h
      rw [eq_of_beq heq]
      exact ⟨soleKey, fromHex_keyText.2, fromHex_keyText.2⟩
    · cases h

theorem publicKey_bothSpellings : bothSpellings.publicKey (some (keyText 'A')) = some soleKey ∧
    bothSpellings.publicKey (some (keyText 'a')) = some soleKey := by
  decide +kernel

def keyedVerifier : Verifier := bothSpellings.verify keyedValid

theorem honest_soleSigner {keyId : String} (h : bothSpellings.publicKey (some keyId) = some soleKey) :
    Honest keyedVerifier (soleSigner keyId) :=
  fun message => Ed25519Verifier.verify_true.mpr ⟨soleKey, h, by simp [keyedValid, soleSigner]⟩

theorem honest_spelledTwice : ∀ p ∈ callsOf spelledTwice, p.1 = 0 ∧ HonestCall keyedVerifier p.2 := by
  simp [spelledTwice, registersKeys, logged, HonestCall, logCall, honest_soleSigner, publicKey_bothSpellings]

/-- Two witnesses have one key, and the verification counts attestations of one private key twice. -/
theorem spelledTwice_counted : ∃ s : LedgerSys offline Unit,
    LedgerRun (WitnessSigners.sole 0) (startSys Database.empty ()) s ∧
    let d := s.shared.file.committed.data
    (∀ w ∈ d.witnesses.rows, ∃ key, fromHex w.publicKeyHex = some key ∧ key.length = 32) ∧ ¬ DistinctKeys d ∧
      bothSpellings.Names ∧
      WitnessChain.verifyWitnessAttestations keyedVerifier d.witnesses.rows d.attestations.rows = .ok 2 ∧
      (∀ a ∈ d.attestations.rows, ∀ b ∈ d.attestations.rows, a.chainHeadHash = b.chainHeadHash) ∧
      ¬ CountsKeys bothSpellings keyedValid d.witnesses.rows d.attestations.rows := by
  have h : (runEvents Call.body (startSys Database.empty ()) spelledTwice).any (fun s =>
      let d := s.shared.file.committed.data
      d.witnesses.rows.map (fun w => (w.witnessId, w.publicKeyHex)) = [(1, keyText 'A'), (2, keyText 'a')] ∧
        d.attestations.rows.map AttestationRow.witnessId = [1, 2] ∧ d.entries.rows.length = 1) = true := by
    decide +kernel
  obtain ⟨s, hs, h⟩ := (Option.any_eq_true _ _).mp h
  obtain ⟨hwitnesses, hids, hlen⟩ := of_decide_eq_true h
  have hrun : LedgerRun (oneLedger 0 keyedVerifier) (startSys Database.empty ()) s :=
    run_of_calls honest_spelledTwice hs
  have hsole : LedgerRun (WitnessSigners.sole 0) (startSys Database.empty ()) s := by
    refine run_mono (fun s e ha => ?_) hrun
    cases e with
    | call j c => exact ha.1
    | run | connect | close | detach => exact ha
  have hhead : ∀ a ∈ s.shared.file.committed.data.attestations.rows,
      ∀ b ∈ s.shared.file.committed.data.attestations.rows, a.chainHeadHash = b.chainHeadHash := by
    obtain ⟨r, hr⟩ := List.length_eq_one_iff.mp hlen
    have hof : ∀ a ∈ s.shared.file.committed.data.attestations.rows, r.entryHash = a.chainHeadHash := by
      intro a ha
      obtain ⟨r', hr', -, hhash⟩ := ((ChainSafety.grown_of_run hrun).inv.committed.heads a ha).resolve_left (by rintro ⟨⟩)
      rw [hr, List.mem_singleton] at hr'
      rw [← hr', hhash]
    exact fun a ha b hb => (hof a ha).symm.trans (hof b hb)
  have hsound := (WitnessSigners.sound_of_ledger (fun _ _ h => h) sound_empty hrun).1
  have hwalk := sound_iff.mp hsound
  have hkeys : ∀ w ∈ s.shared.file.committed.data.witnesses.rows, fromHex w.publicKeyHex = some soleKey := by
    intro w hw
    have hmem := List.mem_map_of_mem (f := fun w => (w.witnessId, w.publicKeyHex)) hw
    rw [hwitnesses] at hmem
    simp only [List.mem_cons, List.not_mem_nil, or_false, Prod.mk.injEq] at hmem
    rcases hmem with ⟨-, hkey⟩ | ⟨-, hkey⟩
    · rw [hkey]
      exact fromHex_keyText.1
    · rw [hkey]
      exact fromHex_keyText.2
  have haccepted : ∀ a ∈ s.shared.file.committed.data.attestations.rows,
      AcceptedUnder bothSpellings keyedValid s.shared.file.committed.data.witnesses.rows a soleKey := by
    intro a ha
    obtain ⟨key, w, hw, hid, hkey, hvalid⟩ := acceptedUnder_of_attested (hsound.attested a ha)
    have hsame := names_bothSpellings.fromHex_of_publicKey hkey
    rw [hkeys w hw] at hsame
    cases hsame
    exact ⟨w, hw, hid, hkey, hvalid⟩
  obtain ⟨a, as, hrows, ha, has⟩ := List.map_eq_cons_iff.mp hids
  obtain ⟨b, bs, rfl, hb, hnil⟩ := List.map_eq_cons_iff.mp has
  obtain rfl := List.map_eq_nil_iff.mp hnil
  have hcounted : ¬ CountsKeys bothSpellings keyedValid s.shared.file.committed.data.witnesses.rows
      s.shared.file.committed.data.attestations.rows := by
    intro hcounts
    rw [hrows] at hcounts haccepted
    have hsecrets : List.Forall₂ (fun a (_ : Unit) => AcceptedUnder bothSpellings keyedValid
        s.shared.file.committed.data.witnesses.rows a soleKey) [a, b] [(), ()] :=
      .cons (haccepted a (by simp)) (.cons (haccepted b (by simp)) .nil)
    have hnodup := (hcounts [a, b] (List.Subset.refl _) (by simp [ha, hb])).2 Unit (fun _ => soleKey) _ hsecrets
    simp at hnodup
  refine ⟨s, hsole, fun w hw => ⟨soleKey, hkeys w hw, rfl⟩, fun hd => hcounted ?_, names_bothSpellings, ?_, hhead,
    hcounted⟩
  · exact countsKeys_of_distinct names_bothSpellings hd hsound.attested
  · rw [hrows] at hwalk ⊢
    exact hwalk

instance (op : Op Statement Request) (o : Outcome Request (Reply L) PyError W) (σ : Shared Database Statement W) :
    Decidable (RegistersNewKey op o σ) :=
  match op with
  | .execute c (.insertWitness x) => inferInstanceAs (Decidable ((o.performs ∧ σ.file.MayWrite c ∧
      (exec (Statement.insertWitness x) (σ.file.view c).data).isOk) → NewKey x (σ.file.view c).data))
  | .execute _ (.insertEntry _) | .execute _ (.insertAnchor _) | .execute _ (.confirmAnchor ..)
  | .execute _ (.insertAttestation _) | .execute _ (.retireWitness ..) | .connection | .acquire | .release
  | .select _ | .commit _ | .external _ => isTrue trivial

instance (s : LedgerSys L W) (e : Event Request (Reply L) PyError W Call) : Decidable (newKeys.Allows s e) :=
  inferInstanceAs (Decidable (Rules.Allows ⟨fun _ _ => True, fun _ _ op o σ => RegistersNewKey op o σ,
    fun _ _ => True, fun _ _ => True⟩ s e))

end Examples

/-- Two witnesses with different keys. -/
theorem distinct_keys_iff_two : ∃ s : LedgerSys offline Unit, LedgerRun newKeys (startSys Database.empty ()) s ∧
    s.shared.file.committed.data.witnesses.rows.length = 2 ∧ AllDistinct s := by
  have h : (runAllowed Call.body newKeys (startSys Database.empty ()) (registersKeys 'A' 'b')).any
      (fun s => s.shared.file.committed.data.witnesses.rows.length = 2) = true := by
    decide +kernel
  obtain ⟨s, hs, hlen⟩ := (Option.any_eq_true _ _).mp h
  have hrun : LedgerRun newKeys (startSys Database.empty ()) s := run_of_runAllowed (fun _ _ _ ha => ha) hs
  exact ⟨s, hrun, of_decide_eq_true hlen, (distinct_keys_iff distinctKeys_empty hrun).1⟩

end NexusCone.DistinctWitnesses
