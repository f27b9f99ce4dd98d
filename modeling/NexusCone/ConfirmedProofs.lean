import Mathlib.Data.String.Basic
import Mathlib.Data.Sum.Order
import NexusCone.AnchorChecks
import NexusCone.Poller

/-!
# Confirmed proofs and the anchor check

The poller takes the height from the tree it has merged, `--check-anchors` from the tree it reads
back. The two agree exactly where the merged tree is not too deep and the order in which it was
merged and the sorted order reach the same height first.
-/
namespace NexusCone.ConfirmedProofs
open ExceptResults HexBytes PyValue IsoTime KeyedTable SharedFile AsyncProgram AsyncSystem SoloRun
  EmbeddedPrograms OpTrees LedgerSchema TimestampAuthority Ledger LedgerRuns VerifierCli AnchorChecks Poller

variable {T : Proofs} {W : Type}

/-- `_recursion_limit` of `Timestamp.deserialize`. -/
def recursionLimit : ℕ := 256

/-- The OpenTimestamps serialisation: what is read is well formed, and what was written reads back
sorted unless it is too deep. -/
structure Codec (T : Proofs) : Prop where
  wellFormed : ∀ blob msg ts, T.deserialize blob msg = .ok ts → ts.msg = msg ∧ ts.WellFormed
  reads : ∀ ts blob, ts.WellFormed → T.serialize ts = .ok blob → ts.depth < recursionLimit →
    T.deserialize blob ts.msg = .ok ts.sorted
  refuses : ∀ ts blob, ts.WellFormed → T.serialize ts = .ok blob → ¬ ts.depth < recursionLimit →
    ∃ e, T.deserialize blob ts.msg = .error e

section TwoTrees

/-- Trees of the attestations of Bitcoin heights and calendars, with operations that append a byte. -/
abbrev ByteTree : Type := OpTree ℕ Bytes (ListSet (Lex (ℤ ⊕ String)))

instance : Operation ℕ Bytes PyError where
  apply n msg := .ok (msg ++ [n.toUInt8])
  mismatch := .valueError "Can't merge timestamps for different messages together"

/-- A library that has stored the one tree and will write the other. -/
def twoTrees (stored merged : ByteTree) : Proofs where
  Op := ℕ
  Attestation := Lex (ℤ ⊕ String)
  AttestationSet := ListSet (Lex (ℤ ⊕ String))
  kind a := match ofLex a with
    | .inl height => .bitcoin height
    | .inr uri => .pending uri
  serialize ts := if ts.same merged then .ok [1] else .error (.valueError "unknown tree")
  deserialize blob msg :=
    if blob = [0] ∧ msg = stored.msg then .ok stored
    else if blob = [1] ∧ msg = merged.msg then .ok merged.sorted
    else .error (.valueError "unknown tree")
  timestampRequest _ := .error (.valueError "offline")
  decodeTimestampResponse _ := .error (.valueError "offline")

theorem codec_twoTrees {stored merged : ByteTree} (hs : stored.WellFormed) (hm : merged.WellFormed)
    (hdepth : merged.depth < recursionLimit) : Codec (twoTrees stored merged) := by
  have hwrites {ts : ByteTree} {blob : Bytes} (h : (twoTrees stored merged).serialize ts = .ok blob) :
      ts = merged ∧ blob = [1] := by
    simp only [twoTrees] at h
    split at h
    · rename_i hsame
      cases h
      exact ⟨OpTree.eq_of_same hsame, rfl⟩
    · cases h
  constructor
  · intro blob msg ts h
    simp only [twoTrees] at h
    split at h
    · rename_i hstored
      cases h
      exact ⟨hstored.2.symm, hs⟩
    split at h
    · rename_i hmerged
      cases h
      exact ⟨(OpTree.msg_sorted merged).trans hmerged.2.symm, hm.sorted⟩
    · cases h
  · intro ts blob _ h _
    obtain ⟨hts, hblob⟩ := hwrites h
    rw [hts, hblob]
    simp [twoTrees]
    rfl
  · intro ts blob _ h hdeep
    obtain ⟨hts, -⟩ := hwrites h
    exact absurd (hts ▸ hdepth) hdeep

end TwoTrees

section Merging

variable {commitment : Bytes} {upgraded ts ts' : T.Timestamp}

theorem walk_wellFormed {m : Bytes} {ops ops' : List (T.Op × T.Timestamp)}
    (ih : ∀ p ∈ ops, ∀ r, p.2.WellFormed → mergeAtCommitment commitment upgraded p.2 = .ok (some r) →
      r.msg = p.2.msg ∧ r.WellFormed)
    (hops : ∀ p ∈ ops, Operation.apply p.1 m = .ok p.2.msg ∧ p.2.WellFormed)
    (h : mergeAtCommitment.walk commitment upgraded ops = .ok (some ops')) :
    ops'.map Prod.fst = ops.map Prod.fst ∧ ∀ p ∈ ops', Operation.apply p.1 m = .ok p.2.msg ∧ p.2.WellFormed := by
  induction ops generalizing ops' with
  | nil => cases h
  | cons p ops ihops =>
    obtain ⟨op, child⟩ := p
    obtain ⟨hchild, hrest⟩ := List.forall_mem_cons.mp hops
    obtain ⟨found, hfound, h⟩ := bind_ok h
    cases found with
    | some r =>
      cases h
      obtain ⟨hmsg, hr⟩ := ih _ List.mem_cons_self r hchild.2 hfound
      refine ⟨rfl, List.forall_mem_cons.mpr ⟨⟨?_, hr⟩, hrest⟩⟩
      rw [hmsg]
      exact hchild.1
    | none =>
      obtain ⟨found, hwalk, h⟩ := bind_ok h
      cases found with
      | none => cases h
      | some rest =>
        cases h
        obtain ⟨hkeys, hrest'⟩ := ihops (fun q hq => ih q (List.mem_cons_of_mem _ hq)) hrest hwalk
        exact ⟨by rw [List.map_cons, List.map_cons, hkeys], List.forall_mem_cons.mpr ⟨hchild, hrest'⟩⟩

theorem mergeAtCommitment_wellFormed (hts : ts.WellFormed)
    (h : mergeAtCommitment commitment upgraded ts = .ok (some ts')) : ts'.msg = ts.msg ∧ ts'.WellFormed := by
  induction ts using OpTree.induct generalizing ts' with
  | node m s ops ih =>
    unfold mergeAtCommitment at h
    split at h
    · obtain ⟨r, hmerge, h⟩ := bind_ok h
      cases h
      exact OpTree.merge_wellFormed hts hmerge
    · obtain ⟨found, hwalk, h⟩ := bind_ok h
      cases found with
      | none => cases h
      | some ops' =>
        cases h
        cases hts with
        | node keys results below =>
          obtain ⟨hkeys, hops⟩ := walk_wellFormed (fun p hp r => ih p hp)
            (fun p hp => ⟨results p hp, below p hp⟩) hwalk
          exact ⟨rfl, .node (hkeys ▸ keys) (fun p hp => (hops p hp).1) fun p hp => (hops p hp).2⟩

theorem mergeUpgrade_wellFormed (hts : ts.WellFormed) (h : mergeUpgrade ts commitment upgraded = .ok ts') :
    ts'.msg = ts.msg ∧ ts'.WellFormed := by
  obtain ⟨found, hmerge, h⟩ := bind_ok h
  cases h
  cases found with
  | none => exact ⟨rfl, hts⟩
  | some r => exact mergeAtCommitment_wellFormed hts hmerge

end Merging

section Replies

/-- What the calendars answer to the queries one after the other. -/
def repliesOf (answers : Answers (Request ⊕ PollerRequest) (Sum.elim (Reply T.libraries) (PollerReply T)) PyError W) :
    List (Bytes × String) → W → List (Except PyError T.Timestamp) × W
  | [], w => ([], w)
  | (commitment, uri) :: pairs, w =>
    let reply := answers (Sum.inr (PollerRequest.getTimestamp uri commitment)) w
    let replies := repliesOf answers pairs reply.2
    (reply.1 :: replies.1, replies.2)

/-- The stored tree with the returned replies merged in. -/
def mergeReplies : T.Timestamp → List (Bytes × String) → List (Except PyError T.Timestamp) →
    Except PyError T.Timestamp
  | ts, (commitment, _) :: pairs, .ok upgraded :: replies => do
    mergeReplies (← mergeUpgrade ts commitment upgraded) pairs replies
  | ts, _ :: pairs, .error _ :: replies => mergeReplies ts pairs replies
  | ts, _, _ => .ok ts

theorem mergeReplies_wellFormed {ts ts' : T.Timestamp} {pairs : List (Bytes × String)}
    {replies : List (Except PyError T.Timestamp)} (hts : ts.WellFormed)
    (h : mergeReplies ts pairs replies = .ok ts') : ts'.msg = ts.msg ∧ ts'.WellFormed := by
  fun_induction mergeReplies ts pairs replies with
  | case1 ts commitment uri pairs upgraded replies ih =>
    obtain ⟨merged, hmerge, h⟩ := bind_ok h
    obtain ⟨hmsg, hmerged⟩ := mergeUpgrade_wellFormed hts hmerge
    obtain ⟨hmsg', hts'⟩ := ih merged hmerged h
    exact ⟨hmsg'.trans hmsg, hts'⟩
  | case2 ts pair pairs e replies ih => exact ih hts h
  | case3 ts pairs replies =>
    cases h
    exact ⟨rfl, hts⟩

end Replies

section Upgrades

variable [Platform]
variable {answers : Answers (Request ⊕ PollerRequest) (Sum.elim (Reply T.libraries) (PollerReply T)) PyError W}
variable {c : ConnId} {x y : Solo Database W}

omit [Platform] in
theorem solo_calendarGetTimestamp (uri : String) (commitment : Bytes) :
    solo answers c (calendarGetTimestamp (T := T) uri commitment).attempt x =
      (let reply := answers (Sum.inr (PollerRequest.getTimestamp uri commitment)) x.world
       some (.ok reply.1, { x with world := reply.2 })) := rfl

omit [Platform] in
theorem of_solo_done {α : Type} {r : Except PyError α} {a : α}
    (h : solo answers c (Prog.done r : PollerAction T α) x = some (.ok a, y)) : r = .ok a ∧ x = y := by
  rw [solo_done] at h
  exact Prod.mk.inj (Option.some.inj h)

omit [Platform] in
/-- The calendars' loop merges the replies and touches nothing else. -/
theorem solo_queryCalendars {ts ts' : T.Timestamp} {pairs : List (Bytes × String)}
    (h : solo answers c (queryCalendars ts pairs) x = some (.ok ts', y)) :
    mergeReplies ts pairs (repliesOf answers pairs x.world).1 = .ok ts' ∧
      y = { x with world := (repliesOf answers pairs x.world).2 } := by
  induction pairs generalizing ts x with
  | nil =>
    cases h
    exact ⟨rfl, rfl⟩
  | cons pair pairs ih =>
    obtain ⟨commitment, uri⟩ := pair
    obtain ⟨reply, z, hreply, h⟩ := exists_of_solo_bind h
    rw [solo_calendarGetTimestamp] at hreply
    cases hreply
    rw [repliesOf]
    cases hr : (answers (Sum.inr (PollerRequest.getTimestamp uri commitment)) x.world).1 with
    | ok upgraded =>
      rw [hr] at h
      obtain ⟨merged, z, hdone, h⟩ := exists_of_solo_bind h
      obtain ⟨hmerged, rfl⟩ := of_solo_done hdone
      obtain ⟨hrest, hy⟩ := ih h
      refine ⟨?_, hy⟩
      show (mergeUpgrade ts commitment upgraded >>= fun ts => mergeReplies ts pairs _) = _
      rw [hmerged]
      exact hrest
    | error e =>
      rw [hr] at h
      dsimp only at h
      split at h
      · exact ih h
      · cases h

/-- The database after `confirm_anchor`. -/
def confirmed (d : Database) (anchorId : ℤ) (blob : Bytes) (height : ℤ) (blockHash : Option String)
    (confirmedAt : String) : Database :=
  { d with
    anchors := d.anchors.update (AnchorRow.confirm anchorId blob height blockHash confirmedAt)
      (AnchorRow.key_confirm anchorId blob height blockHash confirmedAt) }

/-- `confirm_anchor` writes, commits and reads the row back. -/
theorem solo_confirmAnchor_eq {anchorId : ℤ} {blob : Bytes} {height : ℤ} {blockHash : Option String} {t : DateTime}
    {answers : Answers Request (Reply T.libraries) PyError W} (hx : x.locked = false) :
    let d := confirmed x.view anchorId blob height blockHash (strftime t.civil)
    solo answers c (Ledger.confirmAnchor (L := T.libraries) anchorId blob height blockHash (some t)) x =
      some (match d.anchors.find? anchorId with
        | some row => rowToAnchor row
        | none => .error (.keyError s!"No anchor with anchor_id={anchorId}"), { x with view := d, committed := d }) := by
  intro d
  let s : Statement := .confirmAnchor anchorId blob height blockHash (strftime t.civil)
  have hexecute : solo answers c (Prog.execute c s : Action T.libraries ℤ) { x with locked := true } =
      some (.ok 0, { x with view := d, locked := true }) := by
    have hexec : exec s x.view = .ok (d, 0) := rfl
    simp only [Prog.execute, solo, hexec, if_true]
  have hcommit : solo answers c (Prog.commit c : Action T.libraries Unit) { x with view := d, locked := true } =
      some (.ok (), { x with view := d, committed := d, locked := true }) := by
    simp only [Prog.commit, solo, if_true]
  have hwrite : solo answers c (Prog.withLock do
      let _ ← Prog.execute c s
      Prog.commit c : Action T.libraries Unit) x = some (.ok (), { x with view := d, committed := d }) := by
    rw [solo_withLock hx, solo_ok_bind hexecute, hcommit, Option.map_some, ← hx]
  have htime : solo answers c (confirmationTime (L := T.libraries) (some t)) x = some (.ok t.civil, x) := rfl
  rw [Ledger.confirmAnchor, solo_ok_bind htime, requireDb, solo_ok_bind (solo_connection x), solo_ok_bind hwrite, getAnchor,
    solo_ok_bind (solo_select _)]
  cases d.anchors.find? anchorId <;> rfl

theorem solo_confirmAnchor {anchorId : ℤ} {blob : Bytes} {height : ℤ} {blockHash : Option String} {t : DateTime}
    {a : AnchorRecord} {answers : Answers Request (Reply T.libraries) PyError W} (hx : x.locked = false)
    (h : solo answers c (Ledger.confirmAnchor (L := T.libraries) anchorId blob height blockHash (some t)) x =
      some (.ok a, y)) :
    let d := confirmed x.view anchorId blob height blockHash (strftime t.civil)
    y.committed = d ∧ ∃ row, d.anchors.find? anchorId = some row ∧ rowToAnchor row = .ok a := by
  intro d
  rw [solo_confirmAnchor_eq hx] at h
  obtain ⟨hr, rfl⟩ := Prod.mk.inj (Option.some.inj h)
  refine ⟨rfl, ?_⟩
  cases hrow : d.anchors.find? anchorId with
  | none =>
    rw [hrow] at hr
    cases hr
  | some row =>
    rw [hrow] at hr
    exact ⟨row, rfl, hr⟩

/-- What a run that returned `upgraded` has read, merged and written. -/
structure Upgraded (answers : Answers (Request ⊕ PollerRequest) (Sum.elim (Reply T.libraries) (PollerReply T)) PyError W)
    (anchor : AnchorRecord) (x y : Solo Database W) (head : Bytes) (ts merged : T.Timestamp) (height : ℤ)
    (blob : Bytes) : Prop where
  headHex : fromHex anchor.chainHeadHash = some head
  stored : ∃ stored, anchor.otsProofBlob = some stored ∧ T.deserialize stored head = .ok ts
  merging : mergeReplies ts (collectPending ts) (repliesOf answers (collectPending ts) x.world).1 = .ok merged
  reaches : firstBitcoinAttestation T.libraries merged = some height
  serialized : T.serialize merged = .ok blob
  written : ∃ blockHash confirmedAt a row,
    y.committed = confirmed x.view anchor.anchorId blob height blockHash confirmedAt ∧
      y.committed.anchors.find? anchor.anchorId = some row ∧ rowToAnchor row = .ok a

omit [Platform] in
theorem solo_fetchBlockHash {height : ℤ} {blockHash : Option String}
    (h : solo answers c (fetchBitcoinBlockHashAtHeight (T := T) height) x = some (.ok blockHash, y)) :
    y.view = x.view ∧ y.locked = x.locked := by
  obtain ⟨reply, z, hreply, h⟩ := exists_of_solo_bind h
  obtain ⟨hr, rfl⟩ := Prod.mk.inj (Option.some.inj hreply)
  rcases reply with e | page
  · dsimp only at h
    split at h
    · obtain ⟨-, rfl⟩ := Prod.mk.inj (Option.some.inj h)
      exact ⟨rfl, rfl⟩
    · cases h
  · obtain ⟨-, rfl⟩ := Prod.mk.inj (Option.some.inj h)
    exact ⟨rfl, rfl⟩

theorem solo_upgradeOne {anchor : AnchorRecord} (hx : x.locked = false)
    (h : solo answers c (upgradeOne anchor) x = some (.ok .upgraded, y)) :
    ∃ head ts merged height blob, Upgraded (T := T) answers anchor x y head ts merged height blob := by
  unfold upgradeOne at h
  cases hstored : anchor.otsProofBlob with
  | none =>
    rw [hstored] at h
    cases h
  | some stored =>
    rw [hstored] at h
    obtain ⟨head, _, hz, h⟩ := exists_of_solo_bind h
    obtain ⟨hhead, rfl⟩ := of_solo_done hz
    obtain ⟨ts, _, hz, h⟩ := exists_of_solo_bind h
    obtain ⟨hts, rfl⟩ := of_solo_done hz
    by_cases hpending : collectPending ts = []
    · rw [if_pos hpending] at h
      cases h
    rw [if_neg hpending] at h
    obtain ⟨merged, _, hz, h⟩ := exists_of_solo_bind h
    obtain ⟨hmerged, rfl⟩ := solo_queryCalendars hz
    cases hheight : firstBitcoinAttestation T.libraries merged with
    | none =>
      rw [hheight] at h
      cases h
    | some height =>
      rw [hheight] at h
      obtain ⟨blob, _, hz, h⟩ := exists_of_solo_bind h
      obtain ⟨hblob, rfl⟩ := of_solo_done hz
      obtain ⟨blockHash, z, hz, h⟩ := exists_of_solo_bind h
      obtain ⟨hview, hlocked⟩ := solo_fetchBlockHash hz
      obtain ⟨time, z₁, hz₁, h⟩ := exists_of_solo_bind h
      obtain ⟨-, rfl⟩ := Prod.mk.inj (Option.some.inj hz₁)
      obtain ⟨a, z₂, hz₂, h⟩ := exists_of_solo_bind h
      obtain ⟨-, rfl⟩ := Prod.mk.inj (Option.some.inj h)
      rw [solo_embed] at hz₂
      have hfree : ({ z with world := (answers (Sum.inl Request.now) z.world).2 } : Solo Database W).locked = false :=
        hlocked.trans hx
      obtain ⟨hwritten, row, hrow, hread⟩ := solo_confirmAnchor hfree hz₂
      have hhead' : fromHex anchor.chainHeadHash = some head := by
        unfold bytesFromHex at hhead
        split at hhead
        · cases hhead
          assumption
        · cases hhead
      refine ⟨head, ts, merged, height, blob, hhead', ⟨stored, hstored, hts⟩, hmerged, hheight, hblob,
        blockHash, strftime time.toDateTime.civil, a, row, ?_, ?_, hread⟩
      · rw [hwritten, hview]
      · rw [hwritten]
        exact hrow

end Upgrades

section Check

variable [Platform] {L : Libraries}

def single (row : AnchorRow) : Table AnchorRow := ⟨[row], row.anchorId, List.pairwise_singleton _ _⟩

/-- `--check-anchors` on a database with this anchor prints that it is verified. -/
def ReportsVerified (L : Libraries) (row : AnchorRow) : Prop :=
  ∃ a, rowToAnchor row = .ok a ∧
    (checkAnchors L { Database.empty with anchors := single row }).1.lines.head? = some (.verifiedAnchor a)

theorem reportsVerified_iff {row : AnchorRow} {a : AnchorRecord} (hread : rowToAnchor row = .ok a)
    (hconfirmed : row.confirmedAt.isSome) (hblob : row.otsProofBlob.isSome) :
    ReportsVerified L row ↔ ProofStands L row := by
  have ha := readFrom_of_rowToAnchor hread
  obtain ⟨t, ht⟩ := Option.isSome_iff_exists.mp (ha.confirmedAt.trans hconfirmed)
  obtain ⟨blob, hb⟩ := Option.isSome_iff_exists.mp hblob
  have hab : a.otsProofBlob = some blob := ha.otsProofBlob.trans hb
  have hanchors : getAnchors none defaultLimit { Database.empty with anchors := single row } = .ok [a] :=
    getAnchors_ok.mpr (.cons hread .nil)
  have hstands : ProofStands L row ↔ checkProof L a blob = .ok () := by
    simp [ProofStands, checkProof_ok, hb, ha.chainHeadHash, ha.bitcoinBlockHeight]
  rw [hstands]
  cases hp : checkProof L a blob with
  | ok u =>
    refine iff_of_true ⟨a, hread, ?_⟩ rfl
    simp only [checkAnchors, runCheck, hanchors, walkAnchors, checkAnchor, ht, hab, hp]
    rfl
  | error e =>
    refine iff_of_false ?_ (by simp)
    rintro ⟨a', -, hline⟩
    simp only [checkAnchors, runCheck, hanchors, walkAnchors, checkAnchor, ht, hab, hp] at hline
    cases hline

end Check

/-- The merged tree is not too deep, and walking it with every node's operations in sorted order meets
the same height first as walking them in the order in which they were added. -/
structure Stable (merged : T.Timestamp) : Prop where
  shallow : merged.depth < recursionLimit
  firstHeight : firstBitcoinAttestation T.libraries merged.sorted = firstBitcoinAttestation T.libraries merged

/-- The row as it was written stands exactly if the stored height is the first one that is read back. -/
theorem proofStands_written {row : AnchorRow} {head blob : Bytes} {height : ℤ}
    (hhead : fromHex row.chainHeadHash = some head) (hblob : row.otsProofBlob = some blob)
    (hheight : row.bitcoinBlockHeight = some height) : ProofStands T.libraries row ↔
      ∃ ts, T.deserialize blob head = .ok ts ∧ firstBitcoinAttestation T.libraries ts = some height := by
  unfold ProofStands
  rw [hhead, hblob, hheight]
  constructor
  · rintro ⟨_, _, ts, _, ⟨⟩, ⟨⟩, hts, hfirst, ⟨⟩⟩
    exact ⟨ts, hts, hfirst⟩
  · rintro ⟨ts, hts, hfirst⟩
    exact ⟨blob, head, ts, height, rfl, rfl, hts, hfirst, rfl⟩

/-- Reading back the merged tree meets its first height exactly if the tree is stable. -/
theorem reads_iff_stable (hT : Codec T) {merged : T.Timestamp} {blob : Bytes} {height : ℤ} (hm : merged.WellFormed)
    (hblob : T.serialize merged = .ok blob) (hheight : firstBitcoinAttestation T.libraries merged = some height) :
    (∃ ts, T.deserialize blob merged.msg = .ok ts ∧ firstBitcoinAttestation T.libraries ts = some height) ↔
      Stable merged := by
  by_cases hdepth : merged.depth < recursionLimit
  · have hread := hT.reads merged blob hm hblob hdepth
    constructor
    · rintro ⟨ts, hts, hfirst⟩
      cases hread.symm.trans hts
      exact ⟨hdepth, hfirst.trans hheight.symm⟩
    · intro h
      exact ⟨_, hread, h.firstHeight.trans hheight⟩
  · obtain ⟨e, hrefused⟩ := hT.refuses merged blob hm hblob hdepth
    refine iff_of_false ?_ fun h => hdepth h.shallow
    rintro ⟨ts, hts, -⟩
    cases hrefused.symm.trans hts

section Written

variable [Platform]
variable {answers : Answers (Request ⊕ PollerRequest) (Sum.elim (Reply T.libraries) (PollerReply T)) PyError W}
variable {c : ConnId} {d : Database} {world : W} {row : AnchorRow} {anchor : AnchorRecord} {stored head : Bytes}
variable {ts : T.Timestamp} {y : Solo Database W}

/-- The row that `_upgrade_one` has written is reported as verified exactly if the tree that it merged
is stable. -/
theorem written_row (hT : Codec T) (hrow : row ∈ d.anchors.rows) (hread : rowToAnchor row = .ok anchor)
    (hstored : row.otsProofBlob = some stored) (hhead : fromHex row.chainHeadHash = some head)
    (hts : T.deserialize stored head = .ok ts)
    (hrun : solo answers c (upgradeOne anchor) ⟨d, d, false, world⟩ = some (.ok .upgraded, y)) :
    ∃ merged, mergeReplies ts (collectPending ts) (repliesOf answers (collectPending ts) world).1 = .ok merged ∧
      ∃ row' ∈ y.committed.anchors.rows, row'.anchorId = row.anchorId ∧
        (ReportsVerified T.libraries row' ↔ Stable merged) := by
  obtain ⟨head', ts', merged, height, blob, hup⟩ := solo_upgradeOne rfl hrun
  have ha := readFrom_of_rowToAnchor hread
  obtain rfl : head' = head := by
    have h := hup.headHex
    rw [ha.chainHeadHash, hhead] at h
    exact (Option.some.inj h).symm
  obtain rfl : ts' = ts := by
    obtain ⟨stored', hstored', hts'⟩ := hup.stored
    rw [ha.otsProofBlob, hstored] at hstored'
    cases hstored'
    cases hts.symm.trans hts'
    rfl
  obtain ⟨blockHash, confirmedAt, a, row', hwritten, hfound, hread'⟩ := hup.written
  obtain ⟨hmem, hkey⟩ := Table.find?_eq_some.mp hfound
  have hid : row.anchorId = anchor.anchorId := ha.anchorId.symm
  have hrow' : row' = row.confirm anchor.anchorId blob height blockHash confirmedAt := by
    refine Table.key_injOn _ hmem ?_ ?_
    · rw [hwritten]
      exact List.mem_map_of_mem hrow
    · rw [AnchorRow.key_confirm]
      exact hkey.trans hid.symm
  rw [AnchorRow.confirm, if_pos hid] at hrow'
  have hconfirmedAt : row'.confirmedAt = some confirmedAt := by rw [hrow']
  have hblob : row'.otsProofBlob = some blob := by rw [hrow']
  have hheight : row'.bitcoinBlockHeight = some height := by rw [hrow']
  have hhead' : fromHex row'.chainHeadHash = some head' := by rw [hrow']; exact hhead
  refine ⟨merged, hup.merging, row', hmem, hkey.trans hid.symm, ?_⟩
  obtain ⟨hmsg, hts'⟩ := hT.wellFormed _ _ _ hts
  obtain ⟨hmsg', hmerged⟩ := mergeReplies_wellFormed hts' hup.merging
  rw [reportsVerified_iff hread' (by rw [hconfirmedAt]; rfl) (by rw [hblob]; rfl),
    proofStands_written hhead' hblob hheight, ← hmsg, ← hmsg', reads_iff_stable hT hmerged hup.serialized hup.reaches]

end Written

section Examples

def attests (a : Lex (ℤ ⊕ String)) : ListSet (Lex (ℤ ⊕ String)) := ⟨[a], List.nodup_singleton a⟩

def bitcoin (height : ℤ) : Lex (ℤ ⊕ String) := toLex (.inl height)

def promised : Lex (ℤ ⊕ String) := toLex (.inr "https://calendar.example")

/-- A pending anchor of the head `00`. -/
def storedRow : AnchorRow := { pendingRow 1 with otsProofBlob := some [0] }

def storedAnchor : Database := { Database.empty with anchors := single storedRow }

/-- Every calendar and the block explorer answer as given. -/
def networkReply (T : Proofs) (calendar : Except PyError T.Timestamp) (page : Except PyError (ℤ × Bytes)) :
    (q : Request ⊕ PollerRequest) → Except PyError (Sum.elim (Reply T.libraries) (PollerReply T) q)
  | .inl .now => .ok noon
  | .inl (.submitToCalendar _ _) => .error (.other "URLError" "offline")
  | .inl (.urlopen _) => .error (.other "URLError" "offline")
  | .inr (.getTimestamp _ _) => calendar
  | .inr (.urlopen _) => page

def explorerDown : Except PyError (ℤ × Bytes) := .error (.other "URLError" "offline")

def calendarReplies (T : Proofs) (reply : T.Timestamp) :
    Answers (Request ⊕ PollerRequest) (Sum.elim (Reply T.libraries) (PollerReply T)) PyError Unit :=
  fun q w => (networkReply T (.ok reply) explorerDown q, w)

/-- The poller upgrades the stored anchor with this reply. -/
def upgrades (T : Proofs) (reply : T.Timestamp) : Bool :=
  match rowToAnchor storedRow with
  | .error _ => false
  | .ok anchor =>
    match solo (calendarReplies T reply) 0 (upgradeOne anchor) ⟨storedAnchor, storedAnchor, false, ()⟩ with
    | some (.ok .upgraded, _) => true
    | _ => false

theorem exists_of_upgrades {T : Proofs} {reply : T.Timestamp} (h : upgrades T reply) :
    ∃ anchor y, rowToAnchor storedRow = .ok anchor ∧
      solo (calendarReplies T reply) 0 (upgradeOne anchor) ⟨storedAnchor, storedAnchor, false, ()⟩ =
        some (.ok .upgraded, y) := by
  unfold upgrades at h
  cases hread : rowToAnchor storedRow with
  | error e => simp [hread] at h
  | ok anchor =>
    simp only [hread] at h
    split at h
    · rename_i y hrun
      exact ⟨anchor, y, rfl, hrun⟩
    · cases h

/-- The stored proof has a promise at its root and an attestation below the operation 9. -/
def laterProof : ByteTree := .node [0] (attests promised) [(9, .node [0, 9] (attests (bitcoin 200)) [])]

/-- The calendar's proof is below the operation 5. -/
def earlierProof : ByteTree := .node [0] ⟨[], List.nodup_nil⟩ [(5, .node [0, 5] (attests (bitcoin 100)) [])]

def bothProofs : ByteTree :=
  .node [0] (attests promised)
    [(9, .node [0, 9] (attests (bitcoin 200)) []), (5, .node [0, 5] (attests (bitcoin 100)) [])]

theorem wellFormed_leaf (m : Bytes) (a : ListSet (Lex (ℤ ⊕ String))) : (OpTree.node m a [] : ByteTree).WellFormed :=
  .node List.nodup_nil (by simp) (by simp)

theorem codec_bothProofs : Codec (twoTrees laterProof bothProofs) := by
  refine codec_twoTrees ?_ ?_ (by decide)
  · refine .node (by decide) ?_ ?_
    · simp [Operation.apply]
    · simp [wellFormed_leaf]
  · refine .node (by decide) ?_ ?_
    · simp [Operation.apply]
    · simp [wellFormed_leaf]

/-- A promise, and the attestation that keeps it. -/
def promise : ByteTree := .node [0] (attests promised) []

def kept : ByteTree := .node [0] (attests (bitcoin 100)) []

def promiseKept : ByteTree := .node [0] (FiniteSet.update (attests promised) (attests (bitcoin 100))) []

/-- A promise below an operation, and the calendar's proof of it, with two Bitcoin heights. -/
def aggregated : ByteTree := .node [0] ⟨[], List.nodup_nil⟩ [(9, .node [0, 9] (attests promised) [])]

def aggregatedProof : ByteTree :=
  .node [0, 9] ⟨[], List.nodup_nil⟩
    [(5, .node [0, 9, 5] (attests (bitcoin 100)) []), (7, .node [0, 9, 7] (attests (bitcoin 200)) [])]

def aggregatedKept : ByteTree :=
  .node [0] ⟨[], List.nodup_nil⟩
    [(9, .node [0, 9] (attests promised)
      [(5, .node [0, 9, 5] (attests (bitcoin 100)) []), (7, .node [0, 9, 7] (attests (bitcoin 200)) [])])]

theorem codec_aggregatedKept : Codec (twoTrees aggregated aggregatedKept) := by
  refine codec_twoTrees ?_ ?_ (by decide)
  · refine .node (by decide) ?_ ?_
    · simp [Operation.apply]
    · simp [wellFormed_leaf]
  · refine .node (by decide) ?_ (List.forall_mem_singleton.mpr (.node (by decide) ?_ ?_))
    · simp [Operation.apply]
    · simp [Operation.apply]
    · simp [wellFormed_leaf]

theorem stable_aggregatedKept : Stable (T := twoTrees aggregated aggregatedKept) aggregatedKept :=
  ⟨by decide, by decide +kernel⟩

end Examples

/-- The row that the poller writes for the two proofs, in the order in which they were merged, names the
height of the second one in the sorted order. -/
theorem confirmed_not_verified :
    Codec (twoTrees laterProof bothProofs) ∧ storedRow.confirmedAt = none ∧
      ∃ anchor y, rowToAnchor storedRow = .ok anchor ∧
        solo (calendarReplies (twoTrees laterProof bothProofs) earlierProof) 0 (upgradeOne anchor)
          ⟨storedAnchor, storedAnchor, false, ()⟩ = some (.ok .upgraded, y) ∧
        ∃ row' ∈ y.committed.anchors.rows, row'.anchorId = storedRow.anchorId ∧
          ¬ ReportsVerified (twoTrees laterProof bothProofs).libraries row' := by
  refine ⟨codec_bothProofs, rfl, ?_⟩
  have hupgrades : upgrades (twoTrees laterProof bothProofs) earlierProof = true := by decide +kernel
  obtain ⟨anchor, y, hread, hrun⟩ := exists_of_upgrades hupgrades
  have hts : (twoTrees laterProof bothProofs).deserialize [0] [0] = .ok laterProof := rfl
  obtain ⟨merged, hmerging, row', hmem, hid, hiff⟩ :=
    written_row codec_bothProofs (List.mem_singleton_self _) hread rfl rfl hts hrun
  have hboth : .ok bothProofs = Except.ok merged := hmerging
  cases hboth
  refine ⟨anchor, y, hread, hrun, row', hmem, hid, fun hverified => ?_⟩
  have hfirst := (hiff.mp hverified).firstHeight
  revert hfirst
  decide +kernel

/-- Where `_upgrade_one` has returned `upgraded`, `--check-anchors` reports the row that it wrote as
verified exactly if the stored tree with the replies merged in is stable. -/
theorem upgraded_verifies_iff [Platform] (hT : Codec T)
    (answers : Answers (Request ⊕ PollerRequest) (Sum.elim (Reply T.libraries) (PollerReply T)) PyError W)
    (c : ConnId) (d : Database) (world : W) (row : AnchorRow) (anchor : AnchorRecord) (hrow : row ∈ d.anchors.rows)
    (hread : rowToAnchor row = .ok anchor) (stored head : Bytes) (ts : T.Timestamp)
    (hstored : row.otsProofBlob = some stored) (hhead : fromHex row.chainHeadHash = some head)
    (hts : T.deserialize stored head = .ok ts) (y : Solo Database W)
    (hrun : solo answers c (upgradeOne anchor) ⟨d, d, false, world⟩ = some (.ok .upgraded, y)) :
    ∃ row' ∈ y.committed.anchors.rows, row'.anchorId = row.anchorId ∧
      (ReportsVerified T.libraries row' ↔ ∃ merged,
        mergeReplies ts (collectPending ts) (repliesOf answers (collectPending ts) world).1 = .ok merged ∧
          Stable merged) := by
  obtain ⟨merged, hmerging, row', hmem, hid, hiff⟩ := written_row hT hrow hread hstored hhead hts hrun
  refine ⟨row', hmem, hid, hiff.trans ⟨fun h => ⟨merged, hmerging, h⟩, ?_⟩⟩
  rintro ⟨merged', hmerging', h⟩
  cases hmerging.symm.trans hmerging'
  exact h

/-- The calendar's proof is merged in below the operation, and the lower of its heights verifies. -/
theorem upgraded_verifies_iff_aggregated : ∃ anchor y, rowToAnchor storedRow = .ok anchor ∧
    solo (calendarReplies (twoTrees aggregated aggregatedKept) aggregatedProof) 0 (upgradeOne anchor)
      ⟨storedAnchor, storedAnchor, false, ()⟩ = some (.ok .upgraded, y) ∧
    ∃ row' ∈ y.committed.anchors.rows, row'.anchorId = storedRow.anchorId ∧
      ReportsVerified (twoTrees aggregated aggregatedKept).libraries row' := by
  have hupgrades : upgrades (twoTrees aggregated aggregatedKept) aggregatedProof = true := by decide +kernel
  obtain ⟨anchor, y, hread, hrun⟩ := exists_of_upgrades hupgrades
  have hts : (twoTrees aggregated aggregatedKept).deserialize [0] [0] = .ok aggregated := rfl
  obtain ⟨row', hmem, hid, hiff⟩ :=
    upgraded_verifies_iff codec_aggregatedKept _ 0 storedAnchor () storedRow anchor (List.mem_singleton_self _) hread
      [0] [0] aggregated rfl rfl hts y hrun
  exact ⟨anchor, y, hread, hrun, row', hmem, hid, hiff.mpr ⟨aggregatedKept, rfl, stable_aggregatedKept⟩⟩

end NexusCone.ConfirmedProofs
