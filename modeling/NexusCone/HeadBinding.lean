import NexusCone.AnchorChecks
import NexusCone.ChainSafety
import NexusCone.ChainTamperEvidence
import NexusCone.WitnessLedger

/-!
# What verified heads say of the entries

Anchors and attestations name a chain head. A table that the chain walk accepts has a genuine
head exactly when the genuine entries up to it stand in the table. The checks of anchors and
attestations do not read the entries, so they pass whether or not the head is still there.
-/
namespace NexusCone.HeadBinding
open HexBytes HashChain KeyedTable SharedFile AsyncSystem PyValue Canonical LedgerSchema EntryChain WitnessChain
  TimestampAuthority Ledger LedgerRuns LedgerGrowth ChainSafety ChainTamperEvidence VerifierCli ExceptResults AnchorChecks
  WitnessStore WitnessForks WitnessLedger

section Heads

/-- The table has the head: a row with this id and hash. -/
def HasHead (rows : List EntryRow) (entryId : ℤ) (entryHash : String) : Prop :=
  ∃ r ∈ rows, r.entryId = entryId ∧ r.entryHash = entryHash

/-- Every genuine row up to the id stands in the table, as far as the hashes cover it. -/
def KeptUpTo (genuine rows : List EntryRow) (entryId : ℤ) : Prop :=
  ∀ g ∈ genuine, g.entryId ≤ entryId → ∃ r ∈ rows, SameHashed g r

/-- No two of the rows' hashed texts collide, and none has the genesis value as its digest. -/
structure Separated (rows : List EntryRow) : Prop where
  collision : NoCollision (HashedIn rows)
  genesis : ∀ text, HashedIn rows text → sha256Hex text ≠ genesisPreviousHash

variable {genuine rows : List EntryRow} {entryId : ℤ} {entryHash : String}

theorem KeptUpTo.hasHead (h : KeptUpTo genuine rows entryId) (hhead : HasHead genuine entryId entryHash) :
    HasHead rows entryId entryHash := by
  obtain ⟨g, hg, rfl, rfl⟩ := hhead
  obtain ⟨r, hr, hsame⟩ := h g hg le_rfl
  exact ⟨r, hr, hsame.entryId.symm, hsame.entryHash.symm⟩

/-- The genuine head is in an accepted table exactly when all entries up to it are. -/
theorem hasHead_iff (hg : ChainIntact genuine) (hrows : Chained rows) (hsep : Separated (genuine ++ rows))
    (hhead : HasHead genuine entryId entryHash) :
    HasHead rows entryId entryHash ↔ KeptUpTo genuine rows entryId := by
  refine ⟨fun h => ?_, fun h => h.hasHead hhead⟩
  obtain ⟨g, hmem, rfl, rfl⟩ := hhead
  obtain ⟨r, hr, -, hhash⟩ := h
  obtain ⟨i, hi, rfl⟩ := List.getElem_of_mem hmem
  obtain ⟨j, hj, rfl⟩ := List.getElem_of_mem hr
  obtain ⟨-, hagree⟩ := chained_agreement (chained_of_intact hg) hrows hsep.collision hsep.genesis hi hj hhash.symm
  intro g' hg' hle
  obtain ⟨k, hk, rfl⟩ := List.getElem_of_mem hg'
  rw [hg.ids k hk, hg.ids i hi] at hle
  obtain ⟨hk', hsame⟩ := hagree k (by omega)
  exact ⟨rows[k], List.getElem_mem hk', hsame⟩

end Heads

section Anchors

variable [IsoTime.Platform] {L : Libraries}

/-- The anchor that a line reports as VERIFIED. -/
def Line.verified? : Line → Option AnchorRecord
  | .verifiedAnchor anchor => some anchor
  | .verifiedTst anchor _ => some anchor
  | .pending _ _ | .failed _ _ | .summary _ => none

def Verified (t : Counters) (a : AnchorRecord) : Prop := ∃ l ∈ t.lines, Line.verified? l = some a

/-- One of the two checks reports the anchor as VERIFIED. -/
def ReportedVerified (L : Libraries) (d : Database) (a : AnchorRecord) : Prop :=
  Verified (checkAnchors L d).1 a ∨ Verified (checkTst L d).1 a

/-- A check reports an anchor it is given, and only where the property holds. -/
def Vouches (check : Counters → AnchorRecord → Except PyError Counters) (p : AnchorRecord → Prop) : Prop :=
  ∀ t a t', check t a = .ok t' → ∀ b, Verified t' b → Verified t b ∨ b = a ∧ p b

omit [IsoTime.Platform] in
theorem verified_append {t : Counters} {ls : List Line} {b : AnchorRecord}
    (h : ∃ l ∈ t.lines ++ ls, Line.verified? l = some b) :
    Verified t b ∨ ∃ l ∈ ls, Line.verified? l = some b := by
  obtain ⟨l, hl, hb⟩ := h
  rcases List.mem_append.mp hl with hl | hl
  · exact .inl ⟨l, hl, hb⟩
  · exact .inr ⟨l, hl, hb⟩

omit [IsoTime.Platform] in
theorem verified_pass {t : Counters} {l : Line} {b : AnchorRecord} (h : Verified (t.pass l) b) :
    Verified t b ∨ Line.verified? l = some b := by
  refine (verified_append h).imp_right ?_
  rintro ⟨l', hl', hb⟩
  rwa [List.mem_singleton.mp hl'] at hb

omit [IsoTime.Platform] in
theorem verified_fail {t : Counters} {anchorId : ℤ} {e : PyError} {b : AnchorRecord}
    (h : Verified (t.fail anchorId e) b) : Verified t b := by
  refine (verified_append h).resolve_right ?_
  rintro ⟨l, hl, hb⟩
  rw [List.mem_singleton.mp hl] at hb
  cases hb

omit [IsoTime.Platform] in
theorem vouches_checkAnchor :
    Vouches (checkAnchor L) fun a => ∃ blob, a.otsProofBlob = some blob ∧ checkProof L a blob = .ok () := by
  intro t a t' h b hb
  unfold checkAnchor at h
  split at h
  · rename_i blob _ hblob
    split at h
    · rename_i hproof
      cases h
      refine (verified_pass hb).imp_right fun hl => ?_
      cases hl
      exact ⟨rfl, blob, hblob, hproof⟩
    · cases h
      exact .inl (verified_fail hb)
  · obtain ⟨calendars, -, h⟩ := bind_ok h
    cases h
    refine .inl ((verified_append hb).resolve_right ?_)
    rintro ⟨l, hl, hb'⟩
    rw [List.mem_singleton.mp hl] at hb'
    cases hb'

omit [IsoTime.Platform] in
theorem vouches_checkToken :
    Vouches (checkToken L) fun a => ∃ blob head r, a.tstBlob = some blob ∧ fromHex a.chainHeadHash = some head ∧
      verifyTst L blob head (a.tsaUrl.getD "") = .ok r := by
  intro t a t' h b hb
  unfold checkToken at h
  split at h
  · cases h
    refine .inl ((verified_append hb).resolve_right ?_)
    rintro ⟨l, ⟨⟩, -⟩
  · rename_i blob hblob
    obtain ⟨head, hhead, h⟩ := bind_ok h
    split at h
    · rename_i r hr
      cases h
      refine (verified_pass hb).imp_right fun hl => ?_
      cases hl
      refine ⟨rfl, blob, head, r, hblob, ?_, hr⟩
      unfold bytesFromHex at hhead
      split at hhead <;> cases hhead
      assumption
    · cases h
      exact .inl (verified_fail hb)
    · cases h

omit [IsoTime.Platform] in
theorem Vouches.walk {check : Counters → AnchorRecord → Except PyError Counters} {p : AnchorRecord → Prop}
    (h : Vouches check p) {t : Counters} {as : List AnchorRecord} {b : AnchorRecord}
    (hb : Verified (walkAnchors check t as).1 b) : Verified t b ∨ b ∈ as ∧ p b := by
  induction as generalizing t with
  | nil => exact .inl hb
  | cons a as ih =>
    rw [walkAnchors] at hb
    cases hc : check t a with
    | error e =>
      rw [hc] at hb
      exact .inl hb
    | ok t' =>
      rw [hc] at hb
      rcases ih hb with hb | ⟨hmem, hp⟩
      · refine (h t a t' hc b hb).imp_right fun hab => ⟨?_, hab.2⟩
        rw [hab.1]
        exact List.mem_cons_self
      · exact .inr ⟨List.mem_cons_of_mem a hmem, hp⟩

/-- Every VERIFIED line is about a row of the table. -/
theorem Vouches.runCheck {check : Counters → AnchorRecord → Except PyError Counters} {p : AnchorRecord → Prop}
    (h : Vouches check p) {summary : Counters → String} {d : Database} {b : AnchorRecord}
    (hb : Verified (VerifierCli.runCheck check summary d).1 b) :
    ∃ row ∈ d.anchors.rows, rowToAnchor row = .ok b ∧ p b := by
  have hnone : ¬ Verified Counters.zero b := by
    rintro ⟨l, ⟨⟩, -⟩
  unfold VerifierCli.runCheck at hb
  split at hb
  · exact absurd hb hnone
  rename_i as has
  have hwalk : Verified (walkAnchors check .zero as).1 b := by
    split at hb
    · rename_i hrun
      rwa [hrun]
    · rename_i hrun
      rw [hrun]
      refine (verified_append hb).resolve_right ?_
      rintro ⟨l, hl, hb'⟩
      rw [List.mem_singleton.mp hl] at hb'
      cases hb'
  obtain ⟨hmem, hp⟩ := (h.walk hwalk).resolve_left hnone
  obtain ⟨row, hrow, hread⟩ := mem_mapM_ok has hmem
  exact ⟨row, List.mem_of_mem_take hrow, hread, hp⟩

/-- What a VERIFIED line is evidence of: the proof or token of its own row. -/
theorem ReportedVerified.stands {d : Database} {a : AnchorRecord} (h : ReportedVerified L d a) :
    ∃ row ∈ d.anchors.rows, rowToAnchor row = .ok a ∧ (ProofStands L row ∨ TokenStands L row) := by
  rcases h with h | h
  · obtain ⟨row, hrow, hread, blob, hblob, hproof⟩ := vouches_checkAnchor.runCheck h
    have hfrom := readFrom_of_rowToAnchor hread
    obtain ⟨head, ts, height, hhead, hts, hbtc, hheight⟩ := checkProof_ok.mp hproof
    rw [hfrom.chainHeadHash] at hhead
    rw [hfrom.bitcoinBlockHeight] at hheight
    rw [hfrom.otsProofBlob] at hblob
    exact ⟨row, hrow, hread, .inl ⟨blob, head, ts, height, hblob, hhead, hts, hbtc, hheight⟩⟩
  · obtain ⟨row, hrow, hread, blob, head, r, hblob, hhead, htoken⟩ := vouches_checkToken.runCheck h
    have hfrom := readFrom_of_rowToAnchor hread
    rw [hfrom.chainHeadHash] at hhead
    rw [hfrom.tstBlob] at hblob
    rw [hfrom.tsaUrl] at htoken
    exact ⟨row, hrow, hread, .inr ⟨blob, head, r, hblob, hhead, htoken⟩⟩

omit [IsoTime.Platform] in
theorem verifyChain_exit {d : Database} {line : String} (h : VerifierCli.verifyChain d = .ok (0, line)) :
    Chained d.entries.rows := by
  unfold VerifierCli.verifyChain at h
  split at h
  · rename_i n hn
    exact (verifyChain_ok hn).2
  · cases h
  · cases h

theorem verified_anchors_bind {W : Type} {start : Database} (hstart : start.entries.rows = []) {w : W}
    {s : LedgerSys L W} (hrun : LedgerRun .all (startSys start w) s) {d : Database} {line : String}
    (hexit : VerifierCli.verifyChain d = .ok (0, line))
    (hsep : Separated (s.shared.file.committed.data.entries.rows ++ d.entries.rows)) {a : AnchorRecord}
    (ha : ReportedVerified L d a) :
    (∃ row ∈ d.anchors.rows, rowToAnchor row = .ok a ∧ (ProofStands L row ∨ TokenStands L row)) ∧
    (HasHead s.shared.file.committed.data.entries.rows a.chainHeadEntryId a.chainHeadHash →
      (HasHead d.entries.rows a.chainHeadEntryId a.chainHeadHash ↔
        KeptUpTo s.shared.file.committed.data.entries.rows d.entries.rows a.chainHeadEntryId)) :=
  ⟨ha.stands, hasHead_iff (chainIntact_of_grown hstart (grown_of_run hrun).inv.committed)
    (verifyChain_exit hexit) hsep⟩

/-- The default check and a VERIFIED report together vouch for the head in the entries. -/
def BindsHeads (L : Libraries) (d : Database) : Prop :=
  ∀ line, VerifierCli.verifyChain d = .ok (0, line) → ∀ a, ReportedVerified L d a →
    HasHead d.entries.rows a.chainHeadEntryId a.chainHeadHash

end Anchors

section AnchoredRuns

/-- A calendar whose proofs are all in one block. -/
def registry : Libraries where
  Timestamp := Unit
  newTimestamp _ := ()
  merge _ _ := .ok ()
  serialize _ := .ok [0]
  deserialize _ _ := .ok ()
  allAttestations _ := [([], .bitcoin 800000)]
  timestampRequest _ := .ok []
  decodeTimestampResponse _ := .error (.valueError "registry")

def calendarReply : Outcome Request (Reply registry) PyError Unit :=
  .answer (fun
    | .now => .ok noon
    | .submitToCalendar _ _ => .ok ()
    | .urlopen _ => .error (.other "URLError" "registry")) ()

/-- One entry, its head anchored and the anchor confirmed. -/
def anchoredEvents : List (LedgerEvent registry Unit) :=
  .connect 0 :: logScript calendarReply 0 0 "a" ++
    .call 0 (.anchor (some ⟨["https://calendar.example"], [], true⟩) none) ::
      (asks calendarReply 1 3 ++ asks calendarReply 1 1 ++ proceeds 1 3) ++
    callScript calendarReply 0 2 (.confirmAnchor 1 [0] 800000 none none) 0 6

/-- `DELETE FROM entries`, with foreign keys off. -/
def withoutEntries (d : Database) : Database := { d with entries := .empty }

def verifiedHeads (L : Libraries) (d : Database) : List (ℤ × String) :=
  (checkAnchors L d).1.lines.filterMap fun l =>
    (Line.verified? l).map fun a => (a.chainHeadEntryId, a.chainHeadHash)

theorem verified_of_mem_verifiedHeads {L : Libraries} {d : Database} {p : ℤ × String} (h : p ∈ verifiedHeads L d) :
    ∃ a, ReportedVerified L d a ∧ (a.chainHeadEntryId, a.chainHeadHash) = p := by
  obtain ⟨l, hl, hp⟩ := List.mem_filterMap.mp h
  obtain ⟨a, ha, hp⟩ := Option.map_eq_some_iff.mp hp
  exact ⟨a, .inl ⟨l, hl, ha⟩, hp⟩

/-- A head is reported as VERIFIED although no entry is left. -/
theorem deleted_head_verifies : ∃ s : LedgerSys registry Unit, LedgerRun .all (startSys Database.empty ()) s ∧
    ¬ BindsHeads registry (withoutEntries s.shared.file.committed.data) := by
  have h : (runEvents Call.body (startSys Database.empty ()) anchoredEvents).any
      (fun s => verifiedHeads registry (withoutEntries s.shared.file.committed.data) ≠ []) = true := by decide +kernel
  obtain ⟨s, hs, hcheck⟩ := (Option.any_eq_true _ _).mp h
  obtain ⟨p, hp⟩ := List.exists_mem_of_ne_nil _ (of_decide_eq_true hcheck)
  obtain ⟨a, ha, -⟩ := verified_of_mem_verifiedHeads hp
  refine ⟨s, run_of_runEvents hs, fun h => ?_⟩
  obtain ⟨r, ⟨⟩, -⟩ := h _ rfl a ha

theorem separated_of_nodup {rows hashed : List EntryRow} (hhashed : ∀ r ∈ hashed, r.entryHash = recomputed r)
    (hnodup : (genesisPreviousHash :: hashed.map EntryRow.entryHash).Nodup) (hsub : ∀ r ∈ rows, r ∈ hashed) :
    Separated rows := by
  obtain ⟨hgenesis, hnodup⟩ := List.nodup_cons.mp hnodup
  refine ⟨noCollision_of_nodup hhashed hnodup fun r hr => ⟨r, hsub r hr, rfl⟩, ?_⟩
  rintro _ ⟨r, hr, rfl⟩ hz
  exact hgenesis (List.mem_map.mpr ⟨r, hsub r hr, (hhashed r (hsub r hr)).trans hz⟩)

/-- `DELETE FROM entries` of the last row, with foreign keys off. -/
def withoutLast (d : Database) : Database :=
  { d with entries := ⟨d.entries.rows.dropLast, d.entries.seq, d.entries.sorted.sublist (List.dropLast_sublist _)⟩ }

/-- Two entries, with hashes of their own. -/
def TwoHashed (d : Database) : Prop :=
  d.entries.rows.map EntryRow.entryId = [1, 2] ∧ (genesisPreviousHash :: d.entries.rows.map EntryRow.entryHash).Nodup

instance (d : Database) : Decidable (TwoHashed d) := inferInstanceAs (Decidable (_ ∧ _))

/-- The chain is still accepted when the second one is deleted, and nothing collides. -/
theorem shortened {W : Type} {L : Libraries} {w : W} {s : LedgerSys L W}
    (hrun : LedgerRun .all (startSys Database.empty w) s) (htwo : TwoHashed s.shared.file.committed.data) :
    ∃ r r', s.shared.file.committed.data.entries.rows = [r, r'] ∧ r.entryId = 1 ∧ r'.entryId = 2 ∧ Chained [r] ∧
      Separated (s.shared.file.committed.data.entries.rows ++ [r]) := by
  obtain ⟨hids, hnodup⟩ := htwo
  obtain ⟨r, rest, hrows, hid, hrest⟩ := List.map_eq_cons_iff.mp hids
  obtain ⟨r', rest', rfl, hid', hnil⟩ := List.map_eq_cons_iff.mp hrest
  obtain rfl := List.map_eq_nil_iff.mp hnil
  have hchained := chained_of_intact (chainIntact_of_grown (d := Database.empty) rfl (grown_of_run hrun).inv.committed)
  refine ⟨r, r', hrows, hid, hid', hchained.initial ⟨[r'], hrows.symm⟩, ?_⟩
  exact separated_of_nodup hchained.hashed hnodup (by simp [hrows])

/-- A second entry is logged. -/
def loggedAfter : List (LedgerEvent registry Unit) := logScript calendarReply 0 3 "b"

theorem run_loggedAfter : (runEvents Call.body (startSys Database.empty ()) (anchoredEvents ++ loggedAfter)).any
    (fun s : LedgerSys registry _ => TwoHashed s.shared.file.committed.data ∧
      verifiedHeads registry (withoutLast s.shared.file.committed.data) =
        (s.shared.file.committed.data.entries.rows.take 1).map fun r => (r.entryId, r.entryHash)) = true := by
  decide +kernel

/-- Without the entry that was logged after it, the anchored one is kept. -/
theorem verified_anchors_bind_shortened : ∃ (s : LedgerSys registry Unit) (a : AnchorRecord),
    LedgerRun .all (startSys Database.empty ()) s ∧ s.shared.file.committed.data.entries.rows.length = 2 ∧
    ReportedVerified registry (withoutLast s.shared.file.committed.data) a ∧
    KeptUpTo s.shared.file.committed.data.entries.rows (withoutLast s.shared.file.committed.data).entries.rows
      a.chainHeadEntryId := by
  obtain ⟨s, hs, hcheck⟩ := (Option.any_eq_true _ _).mp run_loggedAfter
  obtain ⟨htwo, hheads⟩ := of_decide_eq_true hcheck
  have hrun : LedgerRun .all (startSys Database.empty ()) s := run_of_runEvents hs
  obtain ⟨r, r', hrows, -, -, hchained, hsep⟩ := shortened hrun htwo
  have hshort : (withoutLast s.shared.file.committed.data).entries.rows = [r] := by simp [withoutLast, hrows]
  rw [hrows] at hheads
  obtain ⟨a, ha, hhead⟩ := verified_of_mem_verifiedHeads (p := (r.entryId, r.entryHash)) (by rw [hheads]; simp)
  obtain ⟨hid, hhash⟩ := Prod.mk.inj hhead
  obtain ⟨line, hexit⟩ : ∃ line, VerifierCli.verifyChain (withoutLast s.shared.file.committed.data) = .ok (0, line) := by
    rw [VerifierCli.verifyChain, hshort, verifyChain_none.mpr ⟨rfl, hchained⟩]
    exact ⟨_, rfl⟩
  have hgenuine : HasHead s.shared.file.committed.data.entries.rows a.chainHeadEntryId a.chainHeadHash :=
    ⟨r, by simp [hrows], hid.symm, hhash.symm⟩
  have hedited : HasHead (withoutLast s.shared.file.committed.data).entries.rows a.chainHeadEntryId a.chainHeadHash :=
    ⟨r, by simp [hshort], hid.symm, hhash.symm⟩
  have hempty : Database.empty.entries.rows = [] := rfl
  refine ⟨s, a, hrun, by rw [hrows]; rfl, ha, ((verified_anchors_bind hempty hrun hexit ?_ ha).2 hgenuine).mp hedited⟩
  rw [hshort]
  exact hsep

end AnchoredRuns

section Attestations

variable [IsoTime.Platform] {W : Type} {L : Libraries} {verifier : Option Verifier} {witnessVerifier : Verifier}

/-- Both walks accept. -/
structure Accepts (verifier : Option Verifier) (witnessVerifier : Verifier) (d : Database) : Prop where
  chain : ∃ n, EntryChain.verifyChain verifier d.entries.rows = .ok n
  attestations : ∃ n, verifyWitnessAttestations witnessVerifier d.witnesses.rows d.attestations.rows = .ok n

/-- Acceptance vouches for every attested head in the entries. -/
def BindsAttestedHeads (verifier : Option Verifier) (witnessVerifier : Verifier) (d : Database) : Prop :=
  Accepts verifier witnessVerifier d → ∀ a ∈ d.attestations.rows, HeadIn d.entries.rows a

/-- The stored values fit each other: links and hashes of the entries and of each witness's
attestations, and every signature that is checked. -/
structure SelfConsistent (verifier : Option Verifier) (witnessVerifier : Verifier) (d : Database) : Prop where
  chained : Chained d.entries.rows
  signed : ∀ r ∈ d.entries.rows, Signed verifier r
  subChains : SubChains d.attestations.rows
  valid : ∃ ws, d.witnesses.rows.mapM rowToWitness = .ok ws ∧
    ∀ a ∈ d.attestations.rows, AttestationValid witnessVerifier (witnessesById ws) a

theorem accepts_iff {d : Database} :
    Accepts verifier witnessVerifier d ↔ SelfConsistent verifier witnessVerifier d := by
  constructor
  · rintro ⟨⟨n, hchain⟩, m, hattestations⟩
    obtain ⟨-, hchained, hsigned⟩ := verifyChain_iff.mp hchain
    obtain ⟨ws, hws, -, hsub, hvalid⟩ := verifyWitnessAttestations_ok.mp hattestations
    exact ⟨hchained, hsigned, hsub, ws, hws, hvalid⟩
  · rintro ⟨hchained, hsigned, hsub, ws, hws, hvalid⟩
    exact ⟨⟨_, verifyChain_iff.mpr ⟨rfl, hchained, hsigned⟩⟩,
      _, verifyWitnessAttestations_ok.mpr ⟨ws, hws, rfl, hsub, hvalid⟩⟩

/-- After any edit of the entries of a genuine ledger, acceptance vouches for the attested heads
exactly when the edit was not self-consistent or kept the entries up to every attested head. -/
theorem binds_attested_heads_iff {start : Database} (hentries : start.entries.rows = [])
    (hattestations : start.attestations.rows = []) {w : W} {s : LedgerSys L W}
    (hrun : LedgerRun .all (startSys start w) s) (edited : Table EntryRow)
    (hsep : Separated (s.shared.file.committed.data.entries.rows ++ edited.rows)) :
    BindsAttestedHeads verifier witnessVerifier { s.shared.file.committed.data with entries := edited } ↔
      (SelfConsistent verifier witnessVerifier { s.shared.file.committed.data with entries := edited } →
        ∀ a ∈ s.shared.file.committed.data.attestations.rows,
          KeptUpTo s.shared.file.committed.data.entries.rows edited.rows a.chainHeadEntryId) := by
  have hgrown := (grown_of_run hrun).inv.committed
  have hintact := chainIntact_of_grown hentries hgrown
  have hgenuine : ∀ a ∈ s.shared.file.committed.data.attestations.rows,
      HeadIn s.shared.file.committed.data.entries.rows a := by
    intro a ha
    refine (hgrown.heads a ha).resolve_left fun hstart => ?_
    rw [hattestations] at hstart
    cases hstart
  unfold BindsAttestedHeads
  rw [accepts_iff]
  refine imp_congr_right fun hself => forall₂_congr fun a ha => ?_
  exact hasHead_iff hintact hself.chained hsep (hgenuine a ha)

end Attestations

section AttestedRuns

/-- One entry, and a witness's attestation of it. -/
def attestedEvents : List (LedgerEvent offline Unit) :=
  registered ++ attestScript (stoppedClock offline) 0 2 1 (echoSigner "00")

theorem honest_attestedEvents : ∀ p ∈ callsOf attestedEvents, p.1 = 0 ∧ HonestCall echoVerifier p.2 := by
  simp [attestedEvents, registered, HonestCall, logCall, honest_echoSigner]

/-- With the attested entry deleted, both walks accept. -/
theorem deleted_attested_head_accepted : ∃ s : LedgerSys offline Unit,
    LedgerRun .all (startSys Database.empty ()) s ∧
      ¬ BindsAttestedHeads none echoVerifier (withoutEntries s.shared.file.committed.data) := by
  have h : (runEvents Call.body (startSys Database.empty ()) attestedEvents).any
      (fun s => s.shared.file.committed.data.attestations.rows ≠ []) = true := by decide +kernel
  obtain ⟨s, hs, hcheck⟩ := (Option.any_eq_true _ _).mp h
  obtain ⟨a, ha⟩ := List.exists_mem_of_ne_nil _ (of_decide_eq_true hcheck)
  have hone : LedgerRun (oneLedger 0 echoVerifier) (startSys Database.empty ()) s := run_of_calls honest_attestedEvents hs
  have hwalk := sound_iff.mp (good_oneLedger ⟨sound_empty, List.nodup_nil, List.nodup_nil⟩ hone).inv.committed.1
  refine ⟨s, run_of_runEvents hs, fun h => ?_⟩
  obtain ⟨r, ⟨⟩, -⟩ := h ⟨⟨0, rfl⟩, _, hwalk⟩ a ha

/-- The entry that was logged after the attestation is deleted; both walks accept, and the attested one is kept. -/
theorem binds_attested_heads_iff_shortened : ∃ s : LedgerSys offline Unit,
    LedgerRun .all (startSys Database.empty ()) s ∧ s.shared.file.committed.data.entries.rows.length = 2 ∧
      s.shared.file.committed.data.attestations.rows ≠ [] ∧
      Accepts none echoVerifier (withoutLast s.shared.file.committed.data) ∧
      BindsAttestedHeads none echoVerifier (withoutLast s.shared.file.committed.data) := by
  have h : (runEvents Call.body (startSys Database.empty ())
      (attestedEvents ++ logScript (stoppedClock offline) 0 3 "b")).any (fun s =>
        TwoHashed s.shared.file.committed.data ∧
        s.shared.file.committed.data.attestations.rows.map AttestationRow.chainHeadEntryId = [1]) = true := by
    decide +kernel
  obtain ⟨s, hs, hcheck⟩ := (Option.any_eq_true _ _).mp h
  obtain ⟨htwo, hheads⟩ := of_decide_eq_true hcheck
  have hone : LedgerRun (oneLedger 0 echoVerifier) (startSys Database.empty ()) s :=
    run_of_calls (by simp [attestedEvents, registered, HonestCall, logCall, honest_echoSigner]) hs
  have hrun : LedgerRun .all (startSys Database.empty ()) s := run_of_runEvents hs
  obtain ⟨r, r', hrows, hid, hid', hchained, hsep⟩ := shortened hrun htwo
  have hshort : (withoutLast s.shared.file.committed.data).entries.rows = [r] := by simp [withoutLast, hrows]
  have hwalk := sound_iff.mp (good_oneLedger ⟨sound_empty, List.nodup_nil, List.nodup_nil⟩ hone).inv.committed.1
  have hempty : Database.empty.entries.rows = [] := rfl
  refine ⟨s, hrun, by rw [hrows]; rfl, ?_, ⟨⟨1, ?_⟩, _, hwalk⟩,
    (binds_attested_heads_iff hempty rfl hrun (withoutLast s.shared.file.committed.data).entries ?_).mpr ?_⟩
  · rintro hnone
    rw [hnone] at hheads
    cases hheads
  · rw [hshort]
    exact verifyChain_none.mpr ⟨rfl, hchained⟩
  · rw [hshort]
    exact hsep
  · intro _ a ha g hg hle
    have hhead : a.chainHeadEntryId = 1 := by
      have hmem := List.mem_map_of_mem (f := AttestationRow.chainHeadEntryId) ha
      rw [hheads] at hmem
      exact List.mem_singleton.mp hmem
    rw [hrows] at hg
    rcases List.mem_pair.mp hg with rfl | rfl
    · exact ⟨_, by rw [hshort]; exact List.mem_singleton_self _, SameHashed.refl _⟩
    · omega

end AttestedRuns
end NexusCone.HeadBinding
