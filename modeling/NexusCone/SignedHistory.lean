import NexusCone.ChainSafety
import NexusCone.PromptCommits
import NexusCone.WitnessStore

/-!
# What has been signed in a run

A `log` call signs the 64 characters of an entry hash, an attestation the 32 bytes of its digest,
each for the statement it executes next. A verifier is trusted as far as this: what it accepts,
under whatever key, has been signed in the run or before it.
-/
namespace NexusCone.SignedHistory
open HexBytes KeyedTable SharedFile AsyncProgram AsyncSystem Connections RelyGuarantee GrowingVersions PromptCommits
  PyValue Canonical LedgerSchema EntryChain WitnessChain TimestampAuthority Ledger LedgerOperations LedgerRuns
  LedgerGrowth ChainSafety WitnessStore

/-- The message that was signed for a statement. -/
def signedMessage : Statement → Option Bytes
  | .insertEntry row => row.signature.map fun _ => utf8 row.entryHash
  | .insertAttestation a => some ((fromHex a.attestationHash).getD [])
  | _ => none

def Signs (st : Statement) : Prop := (signedMessage st).isSome

/-- The hash of the row that the statement inserts recomputes. -/
def Hashed : Statement → Prop
  | .insertEntry row => row.entryHash = recomputed row
  | .insertAttestation a => a.attestationHash = recomputedAttestation (a.row 0)
  | _ => True

theorem length_attestationDigest (row : AttestationRow) : (attestationDigest row).length = 32 :=
  Sha256.length_sha256 _

/-- The digest that a witness signs is no entry hash that a `log` call signs. -/
theorem attestationDigest_ne_utf8 (a : AttestationRow) (row : EntryRow) (h : row.entryHash = recomputed row) :
    attestationDigest a ≠ utf8 row.entryHash := by
  intro he
  have hlen := congrArg List.length he
  rw [length_attestationDigest, h, recomputed_eq, length_utf8_sha256Hex] at hlen
  omega

theorem signedMessage_attestation {a : NewAttestation} (h : Hashed (.insertAttestation a)) (n : ℤ) :
    signedMessage (.insertAttestation a) = some (attestationDigest (a.row n)) := by
  have hhex : fromHex a.attestationHash = some (attestationDigest (a.row n)) := by
    rw [show a.attestationHash = recomputedAttestation (a.row 0) from h]
    exact fromHex_recomputedAttestation _
  simp only [signedMessage, hhex, Option.getD_some]

section Programs

variable [IsoTime.Platform] {L : Libraries}

theorem uses_hashed (call : Call) : (call.body (L := L)).Uses (Op.executes Hashed) := by
  have hother {call : Call} (h : Admits Hashed call) : (call.body (L := L)).Uses (Op.executes Hashed) :=
    (guarded_body h).uses
  cases call with
  | log =>
    exact Prog.Guarded.uses (Prog.Guarded.bind (guarded_log (fun _ h => h) _ _ _ _ _) fun _ => rfl)
  | attestWithWitness =>
    exact Prog.Guarded.uses (Prog.Guarded.bind (guarded_attestWithWitness fun _ _ h _ => h) fun _ => rfl)
  | _ => exact hother (admits_of_mayIssue fun s hs => by cases s <;> trivial)

theorem prompt_log (actor action : String) (payload : Option (List (PyKey × PyVal))) (signer : Option Signer)
    (eventType : String) : Prompt Signs (log (L := L) actor action payload signer eventType) := by
  have hr : AllowsReads (Op.isRead : Op Statement Request → Prop) := allowsReads_isRead
  refine Prompt.bind (prompt_of_reads (Prog.uses_connection hr)) fun c => Prompt.withLock ?_
  refine Prompt.bind (prompt_of_reads (Prog.uses_select hr c)) fun d => ?_
  refine Prompt.bind (p := utcNowIso) ?_ fun timestamp => ?_
  · exact prompt_of_reads ((Prog.uses_external hr _).bind fun _ => trivial)
  · exact Prompt.bind (prompt_of_reads (Prog.uses_done _)) fun text => prompt_write fun _ => trivial

theorem prompt_attestWithWitness (witnessId : ℤ) (signer : Signer) :
    Prompt Signs (attestWithWitness (L := L) witnessId signer) := by
  have hr : AllowsReads (Op.isRead : Op Statement Request → Prop) := allowsReads_isRead
  refine Prompt.bind (prompt_of_reads (Prog.uses_connection hr)) fun c => Prompt.withLock ?_
  refine Prompt.bind (prompt_of_reads (uses_getWitness hr _)) fun witness => ?_
  split
  · exact trivial
  split
  · exact trivial
  refine Prompt.bind (prompt_of_reads (uses_getLatestEntry hr)) fun latest => ?_
  cases latest with
  | none => exact trivial
  | some e =>
    refine Prompt.bind (prompt_of_reads (uses_getLastWitnessAttestationHash hr _)) fun prev => ?_
    refine Prompt.bind (prompt_of_reads (Prog.uses_external hr _)) fun signedAt => ?_
    exact prompt_write fun _ => trivial

/-- Every call commits what it has signed at once. -/
theorem prompt_body (call : Call) : Prompt Signs (call.body (L := L)) := by
  have hother {call : Call} (h : Admits (fun st => ¬ Signs st) call) : Prompt Signs (call.body (L := L)) :=
    prompt_of_uses (guarded_body h).uses
  cases call with
  | log => exact Prompt.bind (prompt_log _ _ _ _ _) fun _ => trivial
  | attestWithWitness => exact Prompt.bind (prompt_attestWithWitness _ _) fun _ => trivial
  | _ => exact hother (admits_of_mayIssue fun s hs => by cases s <;> first | exact hs.elim | simp [Signs, signedMessage])

end Programs

section Journal

variable {v : Version Database Statement} {d : Database} {n : ℤ}

/-- Every attestation that the journal says was inserted is in the table. -/
def Recorded (v : Version Database Statement) : Prop :=
  ∀ t a n, (t, Statement.insertAttestation a, n) ∈ v.journal → a.row n ∈ v.data.attestations.rows

def recordedGrowth : Growth Database Statement where
  good := Recorded
  le _ _ := True
  refl _ := trivial
  trans _ _ := trivial

/-- What a statement does to the attestations. -/
theorem exec_attestations {s : Statement} {d' : Database} (h : exec s d = .ok (d', n)) :
    (∃ a, s = .insertAttestation a ∧ d'.attestations.rows = d.attestations.rows ++ [a.row n]) ∨
      ((∀ a, s ≠ .insertAttestation a) ∧ d'.attestations = d.attestations) := by
  cases s with
  | insertAttestation a =>
    obtain ⟨-, -, rfl, rfl⟩ := exec_insertAttestation h
    exact .inl ⟨a, rfl, rfl⟩
  | insertEntry row =>
    obtain ⟨t, -, -, rfl⟩ := exec_insertEntry h
    exact .inr ⟨by simp, rfl⟩
  | insertAnchor a =>
    obtain ⟨-, -, rfl⟩ := exec_insertAnchor h
    exact .inr ⟨by simp, rfl⟩
  | insertWitness w =>
    obtain ⟨-, -, -, rfl⟩ := exec_insertWitness h
    exact .inr ⟨by simp, rfl⟩
  | confirmAnchor anchorId blob height blockHash confirmedAt =>
    cases h
    exact .inr ⟨by simp, rfl⟩
  | retireWitness witnessId retiredAt =>
    cases h
    exact .inr ⟨by simp, rfl⟩

theorem Recorded.exec {s : Statement} {t : TaskId} (h : Recorded v) (hex : exec s v.data = .ok (d, n)) :
    Recorded ⟨d, v.journal ++ [(t, s, n)]⟩ := by
  intro t' a m hmem
  rcases exec_attestations hex with ⟨b, rfl, hrows⟩ | ⟨hne, hsame⟩
  · show a.row m ∈ d.attestations.rows
    rw [hrows]
    rcases List.mem_append.mp hmem with hmem | hmem
    · exact List.mem_append_left _ (h t' a m hmem)
    · cases List.mem_singleton.mp hmem
      exact List.mem_append_right _ (List.mem_singleton_self _)
  · show a.row m ∈ d.attestations.rows
    rw [hsame]
    rcases List.mem_append.mp hmem with hmem | hmem
    · exact h t' a m hmem
    · cases List.mem_singleton.mp hmem
      exact absurd rfl (hne a)

end Journal

section Runs

variable [IsoTime.Platform]
variable {W : Type} {L : Libraries} {rules : LedgerRules L W} {d : Database} {w : W} {s : LedgerSys L W}
variable {h : List (LedgerSys L W)}

abbrev LedgerHistory (rules : LedgerRules L W) : LedgerSys L W → List (LedgerSys L W) → LedgerSys L W → Prop :=
  History Call.body rules

/-- In the history the message has been signed. -/
def SignedIn (h : List (LedgerSys L W)) (message : Bytes) : Prop :=
  ∃ t st, Issues h t st ∧ signedMessage st = some message

/-- The message was signed for a row that the run started from. -/
def SignedBefore (d : Database) (message : Bytes) : Prop :=
  (∃ r ∈ d.entries.rows, r.signature.isSome ∧ message = utf8 r.entryHash) ∨
    ∃ a ∈ d.attestations.rows, message = attestationDigest a

/-- Every call whose signer has signed has returned. -/
def SignersReturn (h : List (LedgerSys L W)) (s : LedgerSys L W) : Prop :=
  ∀ t st, Issues h t st → Signs st → ∃ i call r, s.tasks[t]? = some ⟨i, call, .done (.ok r)⟩

/-- Every call has returned. -/
def AllReturned (s : LedgerSys L W) : Bool := s.endedWith Except.isOk

theorem signersReturn_of_allReturned {s₀ : LedgerSys L W} (hrun : LedgerHistory rules s₀ h s)
    (hall : AllReturned s) : SignersReturn h s := by
  rintro t st ⟨s₁, hmem, i, call, c, k, ht⟩ -
  have hlt : t < s.tasks.length :=
    Nat.lt_of_lt_of_le (List.getElem?_eq_some_iff.mp ht).1 (length_le_of_run (hrun.run_of_mem hmem).2)
  obtain ⟨r, hdone, hok⟩ := Sys.result_of_endedWith hall _ (List.getElem_mem hlt)
  cases r with
  | error e => cases hok
  | ok r =>
    refine ⟨s.tasks[t].inst, s.tasks[t].call, r, (List.getElem?_eq_getElem hlt).trans ?_⟩
    rw [← hdone]

/-- What the verifier accepts, under any key, has been signed. -/
def Unforgeable (verifier : Verifier) (d : Database) (h : List (LedgerSys L W)) : Prop :=
  ∀ key message signature, verifier key message signature = .ok true →
    SignedIn h message ∨ SignedBefore d message

theorem hashed_of_issues (hrun : LedgerHistory rules (startSys d w) h s) {t : TaskId} {st : Statement}
    (hissues : Issues h t st) : Hashed st := by
  obtain ⟨s₁, hmem, i, call, c, k, ht⟩ := hissues
  have huses := programs_of_run (P := fun _ p => p.Uses (Op.executes Hashed)) (fun _ c _ => uses_hashed c)
    (fun _ _ _ r hp => hp.2 r) (by simp [startSys]) (hrun.run_of_mem hmem).1 _ (List.mem_of_getElem? ht)
  exact huses.1

/-- What has been signed is committed. -/
theorem committed_of_signed (hrun : LedgerHistory rules (startSys d w) h s) (hreturn : SignersReturn h s)
    {t : TaskId} {st : Statement} (hissues : Issues h t st) (hst : Signs st) :
    ∃ n, (t, st, n) ∈ s.shared.file.committed.journal := by
  have hstart : JournalGood rules (startSys d w : LedgerSys L W) := by
    refine Good.start ⟨wired_start d w, trivial, ?_⟩ (fresh_start d w)
    rintro p ⟨⟩
  obtain ⟨i, call, r, hdone⟩ := hreturn t st hissues hst
  exact committed_of_issues (fun _ c _ => prompt_body c) hstart rfl hrun hst hissues hdone

theorem recorded_of_run (hrun : LedgerRun rules (startSys d w) s) : Recorded s.shared.file.committed := by
  have hv : Verified (recordedGrowth.protocol W) rules (Call.body (L := L)) (fun _ _ _ _ _ => True)
      (fun _ _ _ _ => True) := by
    refine Growth.verified fun i c t σ _ _ _ => ?_
    refine (Growth.Keeps.of_uses (uses_hashed c) (Growth.Grows.refl σ) ?_).mono fun _ _ _ _ => trivial
    exact fun s v d n _ hgood hex => ⟨hgood.exec hex, trivial⟩
  have hstart : Good (recordedGrowth.protocol W) rules (fun _ _ _ _ _ => True) (fun _ _ _ _ => True)
      (startSys d w : LedgerSys L W) := by
    refine Good.start ⟨wired_start d w, by rintro t a n ⟨⟩, ?_⟩ (fresh_start d w)
    rintro p ⟨⟩
  exact (hv.run hstart hrun).1.inv.committed

/-- A signed entry of the run is a committed row. -/
theorem entry_of_signed (hrun : LedgerHistory rules (startSys d w) h s) (hreturn : SignersReturn h s)
    {t : TaskId} {row : EntryRow} (hissues : Issues h t (.insertEntry row)) (hsig : row.signature.isSome) :
    row ∈ s.shared.file.committed.data.entries.rows := by
  obtain ⟨n, hmem⟩ := committed_of_signed hrun hreturn hissues (by simpa [Signs, signedMessage] using hsig)
  have hrows : s.shared.file.committed.data.entries.rows = _ := (grown_of_run hrun.run).inv.committed.rows
  rw [hrows]
  refine List.mem_append_right _ (List.mem_map.mpr ⟨(t, row), ?_, rfl⟩)
  exact List.mem_filterMap.mpr ⟨_, hmem, rfl⟩

/-- An attestation of the run is a committed row. -/
theorem attestation_of_signed (hrun : LedgerHistory rules (startSys d w) h s) (hreturn : SignersReturn h s)
    {t : TaskId} {a : NewAttestation} (hissues : Issues h t (.insertAttestation a)) :
    ∃ n, a.row n ∈ s.shared.file.committed.data.attestations.rows := by
  obtain ⟨n, hmem⟩ := committed_of_signed hrun hreturn hissues (by simp [Signs, signedMessage])
  exact ⟨n, recorded_of_run hrun.run t a n hmem⟩

theorem start_entries (hrun : LedgerRun rules (startSys d w) s) :
    d.entries.rows <+: s.shared.file.committed.data.entries.rows := by
  have hrows : s.shared.file.committed.data.entries.rows = _ := (grown_of_run hrun).inv.committed.rows
  rw [hrows]
  exact List.prefix_append _ _

/-- The genuine entries stay chained. -/
theorem chained_of_run (hd : Chained d.entries.rows) (hrun : LedgerRun rules (startSys d w) s) :
    Chained s.shared.file.committed.data.entries.rows := by
  have hgrown : Grown d s.shared.file.committed := (grown_of_run hrun).inv.committed
  rw [hgrown.rows]
  refine ⟨HashChain.linked_append.mpr ⟨hd.linked, hgrown.linked⟩, fun r hr => ?_⟩
  rcases List.mem_append.mp hr with hr | hr
  · exact hd.hashed r hr
  · exact (hgrown.genuine r hr).hashed

/-- What the verifier accepts is the entry hash of a genuine signed row, or the digest of an
attestation. -/
theorem Unforgeable.message {verifier : Verifier} (hunforgeable : Unforgeable verifier d h)
    (hrun : LedgerHistory rules (startSys d w) h s) (hreturn : SignersReturn h s)
    {key : Option String} {message signature : Bytes} (hv : verifier key message signature = .ok true) :
    (∃ row ∈ s.shared.file.committed.data.entries.rows, message = utf8 row.entryHash) ∨
      (∃ a ∈ s.shared.file.committed.data.attestations.rows, message = attestationDigest a) ∨
      ∃ a ∈ d.attestations.rows, message = attestationDigest a := by
  rcases hunforgeable key message signature hv with ⟨t, st, hissues, hmessage⟩ | ⟨r, hr, -, rfl⟩ | hbefore
  · have hhashed := hashed_of_issues hrun hissues
    cases st with
    | insertEntry row =>
      obtain ⟨signature, hsig, rfl⟩ := Option.map_eq_some_iff.mp hmessage
      exact .inl ⟨row, entry_of_signed hrun hreturn hissues (by rw [hsig]; rfl), rfl⟩
    | insertAttestation a =>
      obtain ⟨n, hmem⟩ := attestation_of_signed hrun hreturn hissues
      rw [signedMessage_attestation hhashed n] at hmessage
      cases hmessage
      exact .inr (.inl ⟨_, hmem, rfl⟩)
    | _ => cases hmessage
  · exact .inl ⟨r, (start_entries hrun.run).subset hr, rfl⟩
  · exact .inr (.inr hbefore)

open Classical in
/-- The verifier that accepts exactly what has been signed. -/
noncomputable def idealVerifier (signed : Bytes → Prop) : Verifier := fun _ message _ => .ok (decide (signed message))

omit [IsoTime.Platform] in
theorem idealVerifier_ok {signed : Bytes → Prop} {key : Option String} {message signature : Bytes} :
    idealVerifier signed key message signature = .ok true ↔ signed message := by
  simp [idealVerifier]

end Runs
end NexusCone.SignedHistory
