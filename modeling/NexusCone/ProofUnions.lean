import NexusCone.ConfirmedProofs

/-!
# What merging the calendars' replies keeps

The pairs are collected before the first merge and every merge is at the first node of its message.
Messages are never lost, so each merge finds a node, and the attestations of the stored tree and of the
replies all stay, in whatever order the pairs are visited.
-/
namespace NexusCone.ProofUnions
open ExceptResults HexBytes PyValue SharedFile AsyncProgram SoloRun OpTrees OpTrees.OpTree LedgerSchema
  TimestampAuthority Ledger VerifierCli Poller ConfirmedProofs

variable {T : Proofs} {W β : Type}

section Collecting

/-- The calendar that the attestation names. -/
def promisedBy (T : Proofs) (a : T.Attestation) : Option String :=
  match T.kind a with
  | .pending uri => some uri
  | _ => none

theorem collectPending_eq (ts : T.Timestamp) :
    collectPending ts = ts.gather fun m s => (elements s).filterMap fun a => (promisedBy T a).map (m, ·) := by
  induction ts using OpTree.induct with
  | node m s ops ih =>
    rw [collectPending, gather]
    congr 1
    · refine List.filterMap_congr fun a _ => ?_
      unfold promisedBy
      cases T.kind a <;> rfl
    · induction ops with
      | nil => rfl
      | cons p ops ihops =>
        rw [collectPending.walk, gather.below, ih p List.mem_cons_self,
          ihops fun q hq => ih q (List.mem_cons_of_mem _ hq)]

theorem message_of_pending {ts : T.Timestamp} {commitment : Bytes} {uri : String}
    (h : (commitment, uri) ∈ collectPending ts) : commitment ∈ ts.messages := by
  rw [collectPending_eq] at h
  refine gather_subset (fun m s hm => ?_) h
  obtain ⟨a, -, ha⟩ := List.mem_filterMap.mp hm
  obtain ⟨uri', -, hpair⟩ := Option.map_eq_some_iff.mp ha
  cases hpair
  exact List.mem_singleton_self _

end Collecting

section Merging

variable {f : Bytes → T.AttestationSet → List β} {b : β} {commitment m : Bytes} {upgraded ts ts' : T.Timestamp}
variable {ops ops' : List (T.Op × T.Timestamp)}

theorem walk_misses (ih : ∀ p ∈ ops, mergeAtCommitment commitment upgraded p.2 = .ok none → commitment ∉ p.2.messages)
    (h : mergeAtCommitment.walk commitment upgraded ops = .ok none) : ∀ p ∈ ops, commitment ∉ p.2.messages := by
  induction ops with
  | nil => simp
  | cons p ops ihops =>
    obtain ⟨op, child⟩ := p
    obtain ⟨hchild, hrest⟩ := List.forall_mem_cons.mp ih
    obtain ⟨found, hfound, h⟩ := bind_ok h
    cases found with
    | some r => cases h
    | none =>
      obtain ⟨rest, hwalk, h⟩ := bind_ok h
      cases rest with
      | some ops' => cases h
      | none => exact List.forall_mem_cons.mpr ⟨hchild hfound, ihops hrest hwalk⟩

theorem mergeAtCommitment_misses (h : mergeAtCommitment commitment upgraded ts = .ok none) :
    commitment ∉ ts.messages := by
  induction ts using OpTree.induct with
  | node m s ops ih =>
    unfold mergeAtCommitment at h
    split at h
    · obtain ⟨r, -, h⟩ := bind_ok h
      cases h
    · rename_i hne
      obtain ⟨found, hwalk, h⟩ := bind_ok h
      cases found with
      | some ops' => cases h
      | none =>
        rw [mem_messages]
        rintro (rfl | ⟨p, hp, hmem⟩)
        · exact hne rfl
        · exact walk_misses ih hwalk p hp hmem

theorem walk_unions
    (ih : ∀ p ∈ ops, ∀ r, mergeAtCommitment commitment upgraded p.2 = .ok (some r) →
      (b ∈ r.gather f ↔ b ∈ p.2.gather f ∨ b ∈ upgraded.gather f))
    (h : mergeAtCommitment.walk commitment upgraded ops = .ok (some ops')) :
    b ∈ gather.below f ops' ↔ b ∈ gather.below f ops ∨ b ∈ upgraded.gather f := by
  induction ops generalizing ops' with
  | nil => cases h
  | cons p ops ihops =>
    obtain ⟨op, child⟩ := p
    obtain ⟨hchild, hrest⟩ := List.forall_mem_cons.mp ih
    obtain ⟨found, hfound, h⟩ := bind_ok h
    cases found with
    | some r =>
      cases h
      simp only [gather.below, List.mem_append]
      rw [hchild r hfound, or_right_comm]
    | none =>
      obtain ⟨rest, hwalk, h⟩ := bind_ok h
      cases rest with
      | none => cases h
      | some ops' =>
        cases h
        simp only [gather.below, List.mem_append]
        rw [ihops hrest hwalk, or_assoc]

/-- The tree with the upgrade merged in has what it had and what the upgrade has. -/
theorem mergeAtCommitment_unions (hf : Joins f) (h : mergeAtCommitment commitment upgraded ts = .ok (some ts')) :
    b ∈ ts'.gather f ↔ b ∈ ts.gather f ∨ b ∈ upgraded.gather f := by
  induction ts using OpTree.induct generalizing ts' with
  | node m s ops ih =>
    unfold mergeAtCommitment at h
    split at h
    · obtain ⟨r, hmerge, h⟩ := bind_ok h
      cases h
      exact mem_merge hf hmerge
    · obtain ⟨found, hwalk, h⟩ := bind_ok h
      cases found with
      | none => cases h
      | some ops' =>
        cases h
        simp only [gather, List.mem_append]
        rw [walk_unions (fun p hp r => ih p hp) hwalk, or_assoc]

theorem walk_ok (ih : ∀ p ∈ ops, ∃ found, mergeAtCommitment commitment upgraded p.2 = .ok found) :
    ∃ found, mergeAtCommitment.walk commitment upgraded ops = .ok found := by
  induction ops with
  | nil => exact ⟨none, rfl⟩
  | cons p ops ihops =>
    obtain ⟨op, child⟩ := p
    obtain ⟨⟨found, hfound⟩, hrest⟩ := List.forall_mem_cons.mp ih
    unfold mergeAtCommitment.walk
    rw [hfound]
    cases found with
    | some r => exact ⟨_, rfl⟩
    | none =>
      obtain ⟨rest, hwalk⟩ := ihops hrest
      rw [hwalk]
      exact ⟨_, rfl⟩

theorem mergeAtCommitment_ok (hts : ts.WellFormed) (hup : upgraded.WellFormed) (hroot : upgraded.msg = commitment) :
    ∃ found, mergeAtCommitment commitment upgraded ts = .ok found := by
  induction hts with
  | @node m s ops keys results below ih =>
    unfold mergeAtCommitment
    split
    · rename_i hm
      obtain ⟨r, hmerge⟩ := merge_ok (.node keys results below) hup (hm.trans hroot.symm)
      rw [hmerge]
      exact ⟨_, rfl⟩
    · obtain ⟨found, hwalk⟩ := walk_ok ih
      rw [hwalk]
      exact ⟨_, rfl⟩

/-- A reply for a message of the tree is merged at one of its nodes. -/
theorem mergeAtCommitment_finds (hts : ts.WellFormed) (hup : upgraded.WellFormed) (hroot : upgraded.msg = commitment)
    (hmem : commitment ∈ ts.messages) : ∃ ts', mergeAtCommitment commitment upgraded ts = .ok (some ts') := by
  obtain ⟨found, hfound⟩ := mergeAtCommitment_ok hts hup hroot
  cases found with
  | none => exact absurd hmem (mergeAtCommitment_misses hfound)
  | some ts' => exact ⟨ts', hfound⟩

end Merging

abbrev PollerAnswers (T : Proofs) (W : Type) : Type :=
  Answers (Request ⊕ PollerRequest) (Sum.elim (Reply T.libraries) (PollerReply T)) PyError W

/-- A pair of `_collect_pending` with what its calendar gives for it. -/
abbrev Visit (T : Proofs) : Type := (Bytes × String) × Except PyError T.Timestamp

/-- The reply is a tree of the commitment, or an exception. -/
def Visit.Rooted (v : Visit T) : Prop :=
  match v.2 with
  | .ok reply => reply.msg = v.1.1 ∧ reply.WellFormed
  | .error e => e.isException

/-- The loop over these visits leads from the one tree to the other, and every call of
`_merge_at_commitment` on the way returns `True`. -/
inductive Visits : T.Timestamp → List (Visit T) → T.Timestamp → Prop
  | nil {ts : T.Timestamp} : Visits ts [] ts
  | absorbed {ts ts' : T.Timestamp} {pair : Bytes × String} {e : PyError} {visits : List (Visit T)} :
    Visits ts visits ts' → Visits ts ((pair, .error e) :: visits) ts'
  | merged {ts ts₁ ts' upgraded : T.Timestamp} {commitment : Bytes} {uri : String} {visits : List (Visit T)} :
    mergeAtCommitment commitment upgraded ts = .ok (some ts₁) → Visits ts₁ visits ts' →
    Visits ts (((commitment, uri), .ok upgraded) :: visits) ts'

section Visiting

variable {f : Bytes → T.AttestationSet → List β} {ts ts' : T.Timestamp} {visits : List (Visit T)}

theorem Visits.of_nil (h : Visits ts [] ts') : ts' = ts := by
  cases h
  rfl

theorem Visits.of_absorbed {pair : Bytes × String} {e : PyError} (h : Visits ts ((pair, .error e) :: visits) ts') :
    Visits ts visits ts' := by
  cases h with
  | absorbed hrest => exact hrest

theorem Visits.of_merged {upgraded : T.Timestamp} {commitment : Bytes} {uri : String}
    (h : Visits ts (((commitment, uri), .ok upgraded) :: visits) ts') :
    ∃ ts₁, mergeAtCommitment commitment upgraded ts = .ok (some ts₁) ∧ Visits ts₁ visits ts' := by
  cases h with
  | merged hmerge hrest => exact ⟨_, hmerge, hrest⟩

/-- What the returned replies have. -/
def Brings (f : Bytes → T.AttestationSet → List β) (visits : List (Visit T)) (b : β) : Prop :=
  ∃ v ∈ visits, ∃ reply, v.2 = .ok reply ∧ b ∈ reply.gather f

theorem Visits.unions (hf : Joins f) (h : Visits ts visits ts') (b : β) :
    b ∈ ts'.gather f ↔ b ∈ ts.gather f ∨ Brings f visits b := by
  induction h with
  | nil => simp [Brings]
  | absorbed _ ih => simpa [Brings] using ih
  | merged hmerge _ ih =>
    rw [ih, mergeAtCommitment_unions hf hmerge, or_assoc]
    simp [Brings]

theorem Visits.attestations (h : Visits ts visits ts') (p : Bytes × T.Attestation) :
    p ∈ ts'.allAttestations ↔
      p ∈ ts.allAttestations ∨ ∃ v ∈ visits, ∃ reply, v.2 = .ok reply ∧ p ∈ reply.allAttestations := by
  simp only [allAttestations_eq]
  exact h.unions joins_attestations p

theorem Visits.wellFormed (h : Visits ts visits ts') (hts : ts.WellFormed) : ts'.WellFormed := by
  induction h with
  | nil => exact hts
  | absorbed _ ih => exact ih hts
  | merged hmerge _ ih => exact ih (mergeAtCommitment_wellFormed hts hmerge).2

theorem exists_visits (hts : ts.WellFormed) (hmem : ∀ v ∈ visits, v.1.1 ∈ ts.messages)
    (hrooted : ∀ v ∈ visits, v.Rooted) : ∃ ts', Visits ts visits ts' := by
  induction visits generalizing ts with
  | nil => exact ⟨ts, .nil⟩
  | cons v visits ih =>
    obtain ⟨⟨commitment, uri⟩, reply⟩ := v
    obtain ⟨hv, hrest⟩ := List.forall_mem_cons.mp hrooted
    obtain ⟨hvmem, hmemRest⟩ := List.forall_mem_cons.mp hmem
    cases reply with
    | error e =>
      obtain ⟨ts', h⟩ := ih hts hmemRest hrest
      exact ⟨ts', .absorbed h⟩
    | ok upgraded =>
      obtain ⟨ts₁, hmerge⟩ := mergeAtCommitment_finds hts hv.2 hv.1 hvmem
      have hstay : ∀ v ∈ visits, v.1.1 ∈ ts₁.messages := fun v hv =>
        (mergeAtCommitment_unions joins_messages hmerge).mpr (.inl (hmemRest v hv))
      obtain ⟨ts', h⟩ := ih (mergeAtCommitment_wellFormed hts hmerge).2 hstay hrest
      exact ⟨ts', .merged hmerge h⟩

/-- The pending pairs can be visited in every order. -/
theorem visits_of_pending {order : List (Visit T)} (hts : ts.WellFormed)
    (hpairs : visits.map Prod.fst = collectPending ts) (hrooted : ∀ v ∈ visits, v.Rooted)
    (horder : order.Perm visits) : ∃ ts', Visits ts order ts' := by
  refine exists_visits hts (fun v hv => ?_) fun v hv => hrooted v (horder.mem_iff.mp hv)
  have hpair : v.1 ∈ collectPending ts := hpairs ▸ List.mem_map_of_mem (horder.mem_iff.mp hv)
  exact message_of_pending hpair

/-- The calendars' loop makes these visits where the calendars answer so. -/
theorem solo_of_visits {answers : PollerAnswers T W} {c : ConnId} {x : Solo Database W} (h : Visits ts visits ts')
    (hrooted : ∀ v ∈ visits, v.Rooted)
    (hreplies : (repliesOf answers (visits.map Prod.fst) x.world).1 = visits.map Prod.snd) :
    solo answers c (queryCalendars ts (visits.map Prod.fst)) x =
      some (.ok ts', { x with world := (repliesOf answers (visits.map Prod.fst) x.world).2 }) := by
  induction h generalizing x with
  | nil => rfl
  | @absorbed ts ts' pair e visits _ ih =>
    obtain ⟨hv, hrest⟩ := List.forall_mem_cons.mp hrooted
    obtain ⟨commitment, uri⟩ := pair
    obtain ⟨hreply, hreplies⟩ := List.cons.inj hreplies
    have hvisit : solo answers c (calendarGetTimestamp (T := T) uri commitment).attempt x = _ :=
      solo_calendarGetTimestamp uri commitment
    rw [List.map_cons, queryCalendars, solo_ok_bind hvisit, hreply]
    dsimp only
    rw [if_pos (show e.isException = true from hv)]
    exact ih hrest hreplies
  | @merged ts ts₁ ts' upgraded commitment uri visits hmerge _ ih =>
    obtain ⟨-, hrest⟩ := List.forall_mem_cons.mp hrooted
    obtain ⟨hreply, hreplies⟩ := List.cons.inj hreplies
    have hvisit : solo answers c (calendarGetTimestamp (T := T) uri commitment).attempt x = _ :=
      solo_calendarGetTimestamp uri commitment
    rw [List.map_cons, queryCalendars, solo_ok_bind hvisit, hreply]
    dsimp only
    have hupgrade : mergeUpgrade ts commitment upgraded = .ok ts₁ := by
      unfold mergeUpgrade
      rw [hmerge]
      rfl
    rw [hupgrade, solo_ok_bind (solo_done _ _)]
    exact ih hrest hreplies

end Visiting

/-- For every stored tree, every assignment of replies to the pending pairs and every order in which the
pairs are visited: the loop ends, every merge finds its node, the attestations are those of the stored
tree and of all returned replies, and every node's message is its operation's result. -/
theorem upgrade_unions {ts : T.Timestamp} (hts : ts.WellFormed) (visits : List (Visit T))
    (hpairs : visits.map Prod.fst = collectPending ts) (hrooted : ∀ v ∈ visits, v.Rooted)
    (order : List (Visit T)) (horder : order.Perm visits)
    (answers : PollerAnswers T W) (c : ConnId) (x : Solo Database W)
    (hreplies : (repliesOf answers (order.map Prod.fst) x.world).1 = order.map Prod.snd) :
    ∃ ts', solo answers c (queryCalendars ts (order.map Prod.fst)) x =
        some (.ok ts', { x with world := (repliesOf answers (order.map Prod.fst) x.world).2 }) ∧
      Visits ts order ts' ∧
      (∀ p, p ∈ ts'.allAttestations ↔
        p ∈ ts.allAttestations ∨ ∃ v ∈ visits, ∃ reply, v.2 = .ok reply ∧ p ∈ reply.allAttestations) ∧
      ts'.WellFormed := by
  have hrooted' : ∀ v ∈ order, v.Rooted := fun v hv => hrooted v (horder.mem_iff.mp hv)
  obtain ⟨ts', h⟩ := visits_of_pending hts hpairs hrooted horder
  refine ⟨ts', solo_of_visits h hrooted' hreplies, h, fun p => ?_, h.wellFormed hts⟩
  rw [h.attestations]
  refine or_congr_right (exists_congr fun v => ?_)
  rw [horder.mem_iff]

section Examples

/-- Two promises of one calendar, the second one below the operation 9. -/
def twoPromises : ByteTree := .node [0] (attests promised) [(9, .node [0, 9] (attests promised) [])]

theorem wellFormed_twoPromises : twoPromises.WellFormed :=
  .node (by decide) (by simp [Operation.apply]) (by simp [wellFormed_leaf])

/-- The first promise is kept. -/
def firstKept : ByteTree :=
  .node [0] (FiniteSet.update (attests promised) (attests (bitcoin 100))) [(9, .node [0, 9] (attests promised) [])]

abbrev promisedTrees : Proofs := twoTrees twoPromises firstKept

/-- The calendar keeps the first promise and does not find the second one. -/
def keepsFirst : List (Visit promisedTrees) :=
  [(([0], "https://calendar.example"), .ok kept),
    (([0, 9], "https://calendar.example"), .error (.other "CommitmentNotFoundError" ""))]

def keepsFirstAnswers : PollerAnswers promisedTrees Unit
  | .inr (.getTimestamp _ commitment), w =>
    if commitment = [0] then (.ok kept, w) else (.error (.other "CommitmentNotFoundError" ""), w)
  | q, w => calendarReplies promisedTrees kept q w

theorem rooted_keepsFirst : ∀ v ∈ keepsFirst, v.Rooted :=
  List.forall_mem_cons.mpr ⟨⟨rfl, wellFormed_leaf _ _⟩, List.forall_mem_singleton.mpr rfl⟩

end Examples

/-- The promise that is kept and the one that is not both end in the tree, the second one asked first. -/
theorem upgrade_unions_twoPromises : ∃ ts' y,
    solo keepsFirstAnswers 0 (queryCalendars twoPromises (keepsFirst.reverse.map Prod.fst))
      ⟨storedAnchor, storedAnchor, false, ()⟩ = some (.ok ts', y) ∧
      ([0], bitcoin 100) ∈ ts'.allAttestations ∧ ([0, 9], promised) ∈ ts'.allAttestations := by
  obtain ⟨ts', hrun, -, hunion, -⟩ :=
    upgrade_unions wellFormed_twoPromises keepsFirst (by decide +kernel) rooted_keepsFirst keepsFirst.reverse
      (List.reverse_perm _) keepsFirstAnswers 0 ⟨storedAnchor, storedAnchor, false, ()⟩ rfl
  refine ⟨ts', _, hrun, (hunion _).mpr (.inr ⟨_, List.mem_cons_self, kept, rfl, ?_⟩), (hunion _).mpr (.inl ?_)⟩
  · exact List.mem_cons_self
  · exact List.mem_cons_of_mem _ List.mem_cons_self

end NexusCone.ProofUnions
