import NexusCone.ProofUnions

/-!
# When an anchor is upgraded

`_upgrade_one` decides on the merged tree, but it returns before that where no calendar has promised
anything. So an anchor whose proof has already reached Bitcoin is upgraded only if a promise is left.
-/
namespace NexusCone.UpgradeDecisions
open ExceptResults HexBytes PyValue IsoTime KeyedTable SharedFile AsyncProgram SoloRun EmbeddedPrograms OpTrees
  OpTrees.OpTree LedgerSchema WitnessChain TimestampAuthority Ledger VerifierCli AnchorChecks Poller ConfirmedProofs
  ProofUnions

variable {T : Proofs} {W : Type}

section Reaching

variable {ts merged : T.Timestamp} {visits : List (Visit T)}

/-- The tree has a `BitcoinBlockHeaderAttestation`. -/
def HasBitcoin (ts : T.Timestamp) : Prop :=
  ∃ p ∈ ts.allAttestations, ∃ height, T.kind p.2 = .bitcoin height

/-- The stored tree or a returned reply has a `BitcoinBlockHeaderAttestation`. -/
def ReachesBitcoin (ts : T.Timestamp) (visits : List (Visit T)) : Prop :=
  HasBitcoin ts ∨ ∃ v ∈ visits, ∃ reply, v.2 = .ok reply ∧ HasBitcoin reply

theorem firstBitcoin_iff : (firstBitcoinAttestation T.libraries ts).isSome ↔ HasBitcoin ts := by
  unfold firstBitcoinAttestation
  rw [List.findSome?_isSome_iff]
  constructor
  · rintro ⟨q, hq, hsome⟩
    obtain ⟨p, hp, rfl⟩ := List.mem_map.mp hq
    refine ⟨p, hp, ?_⟩
    dsimp only at hsome
    split at hsome
    · rename_i height hkind
      exact ⟨height, hkind⟩
    · cases hsome
  · rintro ⟨p, hp, height, hkind⟩
    refine ⟨_, List.mem_map_of_mem hp, ?_⟩
    dsimp only
    rw [hkind]
    rfl

theorem hasBitcoin_merged (h : Visits ts visits merged) : HasBitcoin merged ↔ ReachesBitcoin ts visits := by
  unfold ReachesBitcoin HasBitcoin
  simp only [h.attestations]
  constructor
  · rintro ⟨p, hp | ⟨v, hv, reply, hreply, hp⟩, hbitcoin⟩
    · exact .inl ⟨p, hp, hbitcoin⟩
    · exact .inr ⟨v, hv, reply, hreply, p, hp, hbitcoin⟩
  · rintro (⟨p, hp, hbitcoin⟩ | ⟨v, hv, reply, hreply, p, hp, hbitcoin⟩)
    · exact ⟨p, .inl hp, hbitcoin⟩
    · exact ⟨p, .inr ⟨v, hv, reply, hreply, hp⟩, hbitcoin⟩

end Reaching

section Decision

/-- `confirm_anchor` has written the merged tree with its first height to the anchor. -/
def Confirms (anchor : AnchorRecord) (ts : T.Timestamp) (visits : List (Visit T)) (d d' : Database) : Prop :=
  ∃ merged height blob blockHash confirmedAt, Visits ts visits merged ∧
    firstBitcoinAttestation T.libraries merged = some height ∧ T.serialize merged = .ok blob ∧
    d' = confirmed d anchor.anchorId blob height blockHash confirmedAt

/-- The anchor is upgraded exactly if its proof has reached Bitcoin, and otherwise nothing changes. -/
def DecidesRight (anchor : AnchorRecord) (ts : T.Timestamp) (visits : List (Visit T)) (d d' : Database)
    (outcome : Outcome) : Prop :=
  (outcome = .upgraded ∧ Confirms anchor ts visits d d' ↔ ReachesBitcoin ts visits) ∧
    (¬ ReachesBitcoin ts visits → outcome = .stillPending ∧ d' = d)

theorem decidesRight_upgraded {anchor : AnchorRecord} {ts : T.Timestamp} {visits : List (Visit T)}
    {d d' : Database} (hreaches : ReachesBitcoin ts visits) (h : Confirms anchor ts visits d d') :
    DecidesRight anchor ts visits d d' .upgraded :=
  ⟨iff_of_true ⟨rfl, h⟩ hreaches, fun hnot => absurd hreaches hnot⟩

theorem decidesRight_stillPending {anchor : AnchorRecord} {ts : T.Timestamp} {visits : List (Visit T)}
    {d : Database} : DecidesRight anchor ts visits d d .stillPending ↔ ¬ ReachesBitcoin ts visits := by
  constructor
  · rintro ⟨hiff, -⟩ hreaches
    cases (hiff.mpr hreaches).1
  · intro hnot
    refine ⟨iff_of_false ?_ hnot, fun _ => ⟨rfl, rfl⟩⟩
    rintro ⟨⟨⟩, -⟩

end Decision

section Running

variable [Platform] {answers : PollerAnswers T W} {c : ConnId} {x : Solo Database W}

/-- The clock gives a time, and the block explorer a page or an exception. -/
structure Responsive (answers : PollerAnswers T W) : Prop where
  clock : ∀ w, ∃ t : UtcTime, (answers (.inl .now) w).1 = .ok t
  explorer : ∀ url w e, (answers (.inr (.urlopen url)) w).1 = .error e → e.isException

omit [Platform] in
theorem solo_blockHash (hanswers : Responsive answers) (height : ℤ) :
    ∃ blockHash w, solo answers c (fetchBitcoinBlockHashAtHeight (T := T) height) x =
      some (.ok blockHash, { x with world := w }) := by
  let url := mempoolSpaceBlockByHeightUrl height
  have hasked : solo answers c (urlopen (T := T) url).attempt x =
      some (.ok (answers (.inr (.urlopen url)) x.world).1,
        { x with world := (answers (.inr (.urlopen url)) x.world).2 }) := rfl
  rw [fetchBitcoinBlockHashAtHeight, solo_ok_bind hasked]
  cases hpage : (answers (.inr (.urlopen url)) x.world).1 with
  | ok page => exact ⟨_, _, rfl⟩
  | error e =>
    dsimp only
    rw [if_pos (hanswers.explorer url _ e hpage)]
    exact ⟨_, _, rfl⟩

/-- A row that reads back still does so after it is confirmed. -/
theorem rowToAnchor_confirm {row : AnchorRow} {anchor : AnchorRecord} (h : rowToAnchor row = .ok anchor)
    (anchorId : ℤ) (blob : Bytes) (height : ℤ) (blockHash : Option String) (t : UtcTime) :
    ∃ a, rowToAnchor (row.confirm anchorId blob height blockHash (strftime t.civil)) = .ok a := by
  unfold AnchorRow.confirm
  split
  · unfold rowToAnchor at h ⊢
    obtain ⟨submittedAt, hsubmitted, h⟩ := bind_ok h
    obtain ⟨calendarServers, hservers, h⟩ := bind_ok h
    obtain ⟨confirmedAt, -, h⟩ := bind_ok h
    obtain ⟨tsaGenTime, hgen, h⟩ := bind_ok h
    simp only [hsubmitted, hservers, hgen, readTimeColumn?_strftime]
    exact ⟨_, rfl⟩
  · exact ⟨anchor, h⟩

/-- The anchor is one of the table's, and its stored proof is the tree. -/
structure Stores (d : Database) (anchor : AnchorRecord) (ts : T.Timestamp) : Prop where
  row : ∃ row ∈ d.anchors.rows, rowToAnchor row = .ok anchor
  tree : ∃ stored head, anchor.otsProofBlob = some stored ∧ fromHex anchor.chainHeadHash = some head ∧
    T.deserialize stored head = .ok ts

/-- `confirm_anchor` of a stored anchor returns. -/
theorem solo_confirmStored {d : Database} {anchor : AnchorRecord} {ts : T.Timestamp} (hstores : Stores d anchor ts)
    (blob : Bytes) (height : ℤ) (blockHash : Option String) (t : UtcTime)
    (hview : x.view = d) (hlocked : x.locked = false) :
    let d' := confirmed d anchor.anchorId blob height blockHash (strftime t.civil)
    ∃ a, solo answers c (embed (PollerReply T) (Ledger.confirmAnchor (L := T.libraries) anchor.anchorId blob height
      blockHash (some t.toDateTime))) x = some (.ok a, { x with view := d', committed := d' }) := by
  intro d'
  obtain ⟨row, hrow, hread⟩ := hstores.row
  obtain ⟨a, ha⟩ := rowToAnchor_confirm hread anchor.anchorId blob height blockHash t
  have hfind : (confirmed d anchor.anchorId blob height blockHash (strftime t.toDateTime.civil)).anchors.find?
      anchor.anchorId = some (row.confirm anchor.anchorId blob height blockHash (strftime t.civil)) := by
    refine Table.find?_eq_some.mpr ⟨List.mem_map_of_mem hrow, ?_⟩
    rw [AnchorRow.key_confirm]
    exact (readFrom_of_rowToAnchor hread).anchorId.symm
  refine ⟨a, ?_⟩
  rw [solo_embed, solo_confirmAnchor_eq hlocked, hview]
  rw [hfind]
  exact congrArg (fun r => some (r, _)) ha

variable {d : Database} {anchor : AnchorRecord} {ts merged : T.Timestamp} {visits : List (Visit T)} {world : W}

/-- Up to the calendars' loop. -/
theorem upgradeOne_eq (hstores : Stores d anchor ts) :
    upgradeOne anchor = (if collectPending ts = [] then return .stillPending
      else do
        let ts ← queryCalendars ts (collectPending ts)
        match firstBitcoinAttestation T.libraries ts with
        | none => return .stillPending
        | some height => do
          let upgradedBlob ← Prog.done (T.serialize ts)
          let blockHash ← fetchBitcoinBlockHashAtHeight height
          let confirmedAt ← embed (PollerReply T) (Ledger.now (L := T.libraries))
          let _ ← embed (PollerReply T) (Ledger.confirmAnchor (L := T.libraries) anchor.anchorId upgradedBlob height
            blockHash (some confirmedAt.toDateTime))
          return .upgraded) := by
  obtain ⟨stored, head, hstored, hhead, hts⟩ := hstores.tree
  have hbytes : bytesFromHex anchor.chainHeadHash = .ok head := by
    unfold bytesFromHex
    rw [hhead]
  unfold upgradeOne
  rw [hstored]
  dsimp only
  rw [hbytes, Prog.ok_bind, hts]
  rfl

/-- With a promise left, the merged tree decides. -/
theorem solo_upgradeOne_pending (hanswers : Responsive answers) (hstores : Stores d anchor ts)
    (hpending : collectPending ts ≠ []) (hvisits : Visits ts visits merged)
    (hpairs : visits.map Prod.fst = collectPending ts) (hrooted : ∀ v ∈ visits, v.Rooted)
    (hreplies : (repliesOf answers (visits.map Prod.fst) world).1 = visits.map Prod.snd)
    (hserialize : HasBitcoin merged → ∃ blob, T.serialize merged = .ok blob) :
    ∃ outcome y, solo answers c (upgradeOne anchor) ⟨d, d, false, world⟩ = some (.ok outcome, y) ∧
      DecidesRight anchor ts visits d y.committed outcome := by
  rw [upgradeOne_eq hstores, if_neg hpending, ← hpairs, solo_ok_bind (solo_of_visits hvisits hrooted hreplies)]
  cases hfirst : firstBitcoinAttestation T.libraries merged with
  | none =>
    refine ⟨.stillPending, _, rfl, decidesRight_stillPending.mpr ?_⟩
    rw [← hasBitcoin_merged hvisits, ← firstBitcoin_iff, hfirst]
    exact Bool.false_ne_true
  | some height =>
    have hreaches : HasBitcoin merged := firstBitcoin_iff.mp (by rw [hfirst]; rfl)
    obtain ⟨blob, hblob⟩ := hserialize hreaches
    dsimp only
    rw [hblob, solo_ok_bind (solo_done _ _)]
    obtain ⟨blockHash, w, hhash⟩ := solo_blockHash (c := c) hanswers height
    rw [solo_ok_bind hhash]
    obtain ⟨t, ht⟩ := hanswers.clock w
    let read : Solo Database W := ⟨d, d, false, (answers (.inl .now) w).2⟩
    have hnow : solo answers c (embed (PollerReply T) (Ledger.now (L := T.libraries))) ⟨d, d, false, w⟩ =
        some (.ok t, read) := congrArg (fun r => some (r, read)) ht
    obtain ⟨a, hconfirm⟩ := solo_confirmStored (x := read) (c := c) hstores blob height blockHash t rfl rfl
    rw [solo_ok_bind hnow, solo_ok_bind hconfirm]
    refine ⟨.upgraded, _, rfl, decidesRight_upgraded ((hasBitcoin_merged hvisits).mp hreaches) ?_⟩
    exact ⟨merged, height, blob, blockHash, _, hvisits, hfirst, hblob, rfl⟩

end Running

section Examples

theorem storedRow_reads : ∃ anchor, rowToAnchor storedRow = .ok anchor :=
  exists_of_isOk (by decide +kernel)

theorem stores_storedRow {T : Proofs} {anchor : AnchorRecord} {ts : T.Timestamp} (h : rowToAnchor storedRow = .ok anchor)
    (hts : T.deserialize [0] [0] = .ok ts) : Stores storedAnchor anchor ts := by
  have hread := readFrom_of_rowToAnchor h
  refine ⟨⟨storedRow, List.mem_singleton_self _, h⟩, [0], [0], hread.otsProofBlob, ?_, hts⟩
  rw [hread.chainHeadHash]
  rfl

theorem responsive_calendarReplies (T : Proofs) (reply : T.Timestamp) : Responsive (calendarReplies T reply) :=
  ⟨fun _ => ⟨LedgerRuns.noon, rfl⟩, by rintro _ _ _ ⟨⟩; rfl⟩

end Examples

/-- A stored proof that has reached Bitcoin, with no promise left, is still pending. -/
theorem reached_stillPending : ∃ anchor y, Stores (T := twoTrees kept kept) storedAnchor anchor kept ∧
    kept.WellFormed ∧ Responsive (calendarReplies (twoTrees kept kept) kept) ∧
    solo (calendarReplies (twoTrees kept kept) kept) 0 (upgradeOne anchor) ⟨storedAnchor, storedAnchor, false, ()⟩ =
      some (.ok .stillPending, y) ∧
    ¬ DecidesRight (T := twoTrees kept kept) anchor kept [] storedAnchor y.committed .stillPending := by
  obtain ⟨anchor, hread⟩ := storedRow_reads
  have hstores : Stores (T := twoTrees kept kept) storedAnchor anchor kept := stores_storedRow hread rfl
  refine ⟨anchor, ⟨storedAnchor, storedAnchor, false, ()⟩, hstores, wellFormed_leaf _ _,
    responsive_calendarReplies _ _, ?_, fun hright => ?_⟩
  · rw [upgradeOne_eq hstores, if_pos (by decide +kernel)]
    rfl
  · refine decidesRight_stillPending.mp hright (.inl ⟨([0], bitcoin 100), List.mem_singleton_self _, 100, rfl⟩)

/-- `_upgrade_one` decides right exactly if a promise is left in the stored proof or the stored proof has
not reached Bitcoin. -/
theorem decidesRight_iff [Platform] {answers : PollerAnswers T W} (hanswers : Responsive answers) (c : ConnId) (d : Database)
    (world : W) (anchor : AnchorRecord) (ts : T.Timestamp) (hstores : Stores d anchor ts) (hts : ts.WellFormed)
    (visits : List (Visit T)) (hpairs : visits.map Prod.fst = collectPending ts) (hrooted : ∀ v ∈ visits, v.Rooted)
    (hreplies : (repliesOf answers (visits.map Prod.fst) world).1 = visits.map Prod.snd)
    (hserialize : ∀ merged, Visits ts visits merged → HasBitcoin merged → ∃ blob, T.serialize merged = .ok blob) :
    ∃ outcome y, solo answers c (upgradeOne anchor) ⟨d, d, false, world⟩ = some (.ok outcome, y) ∧
      (DecidesRight anchor ts visits d y.committed outcome ↔ collectPending ts ≠ [] ∨ ¬ HasBitcoin ts) := by
  by_cases hpending : collectPending ts = []
  · refine ⟨.stillPending, ⟨d, d, false, world⟩, ?_, ?_⟩
    · rw [upgradeOne_eq hstores, if_pos hpending]
      rfl
    · obtain rfl : visits = [] := List.map_eq_nil_iff.mp (hpairs.trans hpending)
      rw [decidesRight_stillPending]
      simp [ReachesBitcoin, hpending]
  · obtain ⟨merged, hvisits⟩ := visits_of_pending hts hpairs hrooted (List.Perm.refl _)
    obtain ⟨outcome, y, hrun, hright⟩ := solo_upgradeOne_pending (c := c) hanswers hstores hpending hvisits hpairs
      hrooted hreplies (hserialize merged hvisits)
    exact ⟨outcome, y, hrun, iff_of_true hright (.inl hpending)⟩

theorem serializes_keepsFirst {merged : promisedTrees.Timestamp} (h : Visits twoPromises keepsFirst merged) :
    ∃ blob, promisedTrees.serialize merged = .ok blob := by
  obtain ⟨ts₁, hmerge, hrest⟩ := h.of_merged
  cases hmerge
  rw [hrest.of_absorbed.of_nil]
  exact ⟨[1], rfl⟩

theorem responsive_keepsFirstAnswers : Responsive keepsFirstAnswers :=
  ⟨fun _ => ⟨LedgerRuns.noon, rfl⟩, by rintro _ _ _ ⟨⟩; rfl⟩

/-- One of two promises is kept. -/
theorem decidesRight_iff_twoPromises : ∃ anchor outcome y, rowToAnchor storedRow = .ok anchor ∧
    solo keepsFirstAnswers 0 (upgradeOne anchor) ⟨storedAnchor, storedAnchor, false, ()⟩ = some (.ok outcome, y) ∧
    outcome = .upgraded ∧ y.committed ≠ storedAnchor := by
  obtain ⟨anchor, hread⟩ := storedRow_reads
  obtain ⟨outcome, y, hrun, hiff⟩ :=
    decidesRight_iff responsive_keepsFirstAnswers 0 storedAnchor () anchor twoPromises (stores_storedRow hread rfl)
      wellFormed_twoPromises keepsFirst (by decide +kernel) rooted_keepsFirst rfl fun _ h _ => serializes_keepsFirst h
  have hreaches : ReachesBitcoin twoPromises keepsFirst :=
    .inr ⟨_, List.mem_cons_self, kept, rfl, ([0], bitcoin 100), List.mem_singleton_self _, 100, rfl⟩
  obtain ⟨houtcome, merged, height, blob, blockHash, confirmedAt, -, -, -, hd⟩ :=
    (hiff.mpr (.inl (by decide +kernel))).1.mpr hreaches
  refine ⟨anchor, outcome, y, hread, hrun, houtcome, fun hsame => ?_⟩
  have hrows := congrArg (fun d : Database => d.anchors.rows.map AnchorRow.confirmedAt) (hd.symm.trans hsame)
  rw [(readFrom_of_rowToAnchor hread).anchorId] at hrows
  cases hrows

end NexusCone.UpgradeDecisions
