import NexusCone.ClockedRuns
import NexusCone.ExclusiveLock
import NexusCone.WitnessStore

/-!
# Anchors and attestations bind the tip

Both are inserted under the lock of the ledger, with the head that was read under the same lock: it
is still the last entry. As the entries are appended in the order of the clock, heads and times of
what is bound never go back.
-/
namespace NexusCone.BoundTips
open IsoTime TimeOrder HashChain KeyedTable SharedFile AsyncProgram AsyncSystem Connections RelyGuarantee
  GrowingVersions ExclusiveLock PyValue Canonical LedgerSchema EntryChain WitnessChain TimestampAuthority Ledger
  LedgerOperations LedgerRuns LedgerGrowth ClockedRuns

section Heads

/-- A chain head that a row names, with the time of the row. -/
structure Head where
  entryId : ℤ
  entryHash : String
  time : String

def anchorHead (a : AnchorRow) : Head := ⟨a.chainHeadEntryId, a.chainHeadHash, a.submittedAt⟩

def attestationHead (a : AttestationRow) : Head := ⟨a.chainHeadEntryId, a.chainHeadHash, a.signedAt⟩

/-- The head is this entry, and the row is not dated before it. -/
structure Head.Binds (h : Head) (r : EntryRow) : Prop where
  entryId : r.entryId = h.entryId
  entryHash : r.entryHash = h.entryHash
  time : r.timestamp ≤ h.time

/-- Heads that are entries and do not go back. -/
structure BoundHeads (entries : List EntryRow) (heads : List Head) : Prop where
  ordered : heads.Pairwise fun h h' => h.entryId ≤ h'.entryId
  bound : ∀ h ∈ heads, ∃ r ∈ entries, h.Binds r

/-- Heads are added, each of which is the last of the earlier entries or a later one. -/
def FollowTips (entries entries' : List EntryRow) (heads heads' : List Head) : Prop :=
  ∃ added, heads' = heads ++ added ∧ ∀ h ∈ added, ∃ r ∈ entries', h.Binds r ∧ ∀ x ∈ entries, x.entryId ≤ r.entryId

/-- Heads are added, each of which is the last entry. -/
def AddTips (entries : List EntryRow) (heads heads' : List Head) : Prop :=
  ∃ added, heads' = heads ++ added ∧ ∀ h ∈ added, ∃ r, entries.getLast? = some r ∧ h.Binds r

variable {entries entries' entries'' : List EntryRow} {heads heads' heads'' : List Head} {h : Head} {r : EntryRow}

theorem FollowTips.refl : FollowTips entries entries heads heads := ⟨[], (List.append_nil _).symm, by simp⟩

theorem FollowTips.trans (h : FollowTips entries entries' heads heads') (h' : FollowTips entries' entries'' heads' heads'')
    (he : entries <+: entries') (he' : entries' <+: entries'') : FollowTips entries entries'' heads heads'' := by
  obtain ⟨added, rfl, hadded⟩ := h
  obtain ⟨added', rfl, hadded'⟩ := h'
  refine ⟨added ++ added', List.append_assoc _ _ _, fun x hx => ?_⟩
  rcases List.mem_append.mp hx with hx | hx
  · obtain ⟨r, hr, hbinds, hle⟩ := hadded x hx
    exact ⟨r, he'.subset hr, hbinds, hle⟩
  · obtain ⟨r, hr, hbinds, hle⟩ := hadded' x hx
    exact ⟨r, hr, hbinds, fun y hy => hle y (he.subset hy)⟩

theorem BoundHeads.mono (h : BoundHeads entries heads) (he : ∀ r ∈ entries, r ∈ entries') :
    BoundHeads entries' heads := by
  refine ⟨h.ordered, fun x hx => ?_⟩
  obtain ⟨r, hr, hbinds⟩ := h.bound x hx
  exact ⟨r, he r hr, hbinds⟩

/-- A row that names the last entry. -/
theorem BoundHeads.concat (h : BoundHeads entries heads) (hr : r ∈ entries) (hmax : ∀ x ∈ entries, x.entryId ≤ r.entryId)
    {head : Head} (hbinds : head.Binds r) :
    BoundHeads entries (heads ++ [head]) ∧ FollowTips entries entries heads (heads ++ [head]) := by
  refine ⟨⟨List.pairwise_append.mpr ⟨h.ordered, List.pairwise_singleton _ _, ?_⟩, ?_⟩, [head], rfl, ?_⟩
  · intro x hx y hy
    obtain ⟨r', hr', hbinds'⟩ := h.bound x hx
    rw [List.mem_singleton.mp hy, ← hbinds.entryId, ← hbinds'.entryId]
    exact hmax r' hr'
  · intro x hx
    rcases List.mem_append.mp hx with hx | hx
    · exact h.bound x hx
    · rw [List.mem_singleton.mp hx]
      exact ⟨r, hr, hbinds⟩
  · intro x hx
    rw [List.mem_singleton.mp hx]
    exact ⟨r, hr, hbinds, hmax⟩

/-- Where no entry is added, an added head is the last entry. -/
theorem FollowTips.addTips {t : Table EntryRow} (h : FollowTips t.rows t.rows heads heads') :
    AddTips t.rows heads heads' := by
  obtain ⟨added, hadded, hfollow⟩ := h
  refine ⟨added, hadded, fun x hx => ?_⟩
  obtain ⟨r, hr, hbinds, hmax⟩ := hfollow x hx
  obtain ⟨front, last, hrows⟩ := (List.eq_nil_or_concat' t.rows).resolve_left (List.ne_nil_of_mem hr)
  have hlast : last ∈ t.rows := by simp [hrows]
  have hle : r.entryId ≤ last.entryId := by
    have htip := le_tipId t r hr
    rw [hrows] at htip
    simpa [tipHash] using htip
  obtain rfl := t.key_injOn hr hlast (le_antisymm hle (hmax last hlast))
  exact ⟨r, by simp [hrows], hbinds⟩

end Heads

section Statements

/-- Entries in the order of their times, and rows that bind them. -/
structure TipsBound (d : Database) : Prop where
  times : d.entries.rows.Pairwise fun r r' => r.timestamp ≤ r'.timestamp
  anchors : BoundHeads d.entries.rows (d.anchors.rows.map anchorHead)
  attestations : BoundHeads d.entries.rows (d.attestations.rows.map attestationHead)

/-- Entries are appended, and the heads that are added are not before the tip that there was. -/
structure Follows (d d' : Database) : Prop where
  entries : d.entries.rows <+: d'.entries.rows
  anchors : FollowTips d.entries.rows d'.entries.rows (d.anchors.rows.map anchorHead) (d'.anchors.rows.map anchorHead)
  attestations : FollowTips d.entries.rows d'.entries.rows (d.attestations.rows.map attestationHead)
    (d'.attestations.rows.map attestationHead)

/-- Whatever anchor or attestation is added names the last entry. -/
structure AddsTips (d d' : Database) : Prop where
  anchors : AddTips d'.entries.rows (d.anchors.rows.map anchorHead) (d'.anchors.rows.map anchorHead)
  attestations : AddTips d'.entries.rows (d.attestations.rows.map attestationHead)
    (d'.attestations.rows.map attestationHead)

theorem Follows.refl (d : Database) : Follows d d := ⟨List.prefix_rfl, .refl, .refl⟩

theorem Follows.trans {d d' d'' : Database} (h : Follows d d') (h' : Follows d' d'') : Follows d d'' :=
  ⟨h.entries.trans h'.entries, h.anchors.trans h'.anchors h.entries h'.entries,
    h.attestations.trans h'.attestations h.entries h'.entries⟩

/-- The statement's row comes after the last entry, or names it. -/
def AtTip (d : Database) : Statement → Prop
  | .insertEntry row => row.entryId = tipId d.entries.rows + 1 ∧ ∀ r ∈ d.entries.rows, r.timestamp ≤ row.timestamp
  | .insertAnchor a => ∃ r, d.entries.last? = some r ∧ (anchorHead (a.row 0)).Binds r
  | .insertAttestation a => ∃ r, d.entries.last? = some r ∧ (attestationHead (a.row 0)).Binds r
  | _ => True

variable {d d' : Database} {n : ℤ} {s : Statement}

theorem last?_max {r : EntryRow} (h : d.entries.last? = some r) :
    r ∈ d.entries.rows ∧ ∀ x ∈ d.entries.rows, x.entryId ≤ r.entryId := by
  refine ⟨List.mem_of_getLast? h, fun x hx => ?_⟩
  have htip : tipId d.entries.rows = r.entryId := by
    rw [tipId, tipHash, show d.entries.rows.getLast? = some r from h]
    rfl
  rw [← htip]
  exact le_tipId d.entries x hx

theorem TipsBound.exec (h : TipsBound d) (hs : AtTip d s) (hex : exec s d = .ok (d', n)) :
    TipsBound d' ∧ Follows d d' := by
  cases s with
  | insertEntry row =>
    obtain ⟨hid, htimes⟩ := hs
    obtain ⟨t, hins, -, rfl⟩ := exec_insertEntry hex
    have hrows : t.rows = d.entries.rows ++ [row] := by
      rw [(Table.insert_some hins).2]
      refine Table.place_of_forall_lt fun r hr => ?_
      have hle := le_tipId d.entries r hr
      show r.entryId < row.entryId
      omega
    have hprefix : d.entries.rows <+: t.rows := ⟨[row], hrows.symm⟩
    refine ⟨⟨?_, h.anchors.mono hprefix.subset, h.attestations.mono hprefix.subset⟩, hprefix, ?_, ?_⟩
    · show t.rows.Pairwise _
      rw [hrows]
      refine List.pairwise_append.mpr ⟨h.times, List.pairwise_singleton _ _, fun r hr r' hr' => ?_⟩
      rw [List.mem_singleton.mp hr']
      exact htimes r hr
    · exact ⟨[], (List.append_nil _).symm, by simp⟩
    · exact ⟨[], (List.append_nil _).symm, by simp⟩
  | insertAnchor a =>
    obtain ⟨r, hlast, hbinds⟩ := hs
    obtain ⟨-, -, rfl⟩ := exec_insertAnchor hex
    obtain ⟨hr, hmax⟩ := last?_max hlast
    have hmap : (d.anchors.insertNew a.row a.key_row).rows.map anchorHead =
        d.anchors.rows.map anchorHead ++ [anchorHead (a.row 0)] := List.map_append
    obtain ⟨hbound, hfollow⟩ := h.anchors.concat hr hmax hbinds
    rw [← hmap] at hbound hfollow
    exact ⟨⟨h.times, hbound, h.attestations⟩, List.prefix_rfl, hfollow, .refl⟩
  | insertAttestation a =>
    obtain ⟨r, hlast, hbinds⟩ := hs
    obtain ⟨-, -, -, rfl⟩ := exec_insertAttestation hex
    obtain ⟨hr, hmax⟩ := last?_max hlast
    have hmap : (d.attestations.insertNew a.row a.key_row).rows.map attestationHead =
        d.attestations.rows.map attestationHead ++ [attestationHead (a.row 0)] := List.map_append
    obtain ⟨hbound, hfollow⟩ := h.attestations.concat hr hmax hbinds
    rw [← hmap] at hbound hfollow
    exact ⟨⟨h.times, h.anchors, hbound⟩, List.prefix_rfl, .refl, hfollow⟩
  | confirmAnchor anchorId blob height blockHash confirmedAt =>
    cases hex
    have hmap : (d.anchors.rows.map (AnchorRow.confirm anchorId blob height blockHash confirmedAt)).map anchorHead =
        d.anchors.rows.map anchorHead := by
      rw [List.map_map]
      refine List.map_congr_left fun a _ => ?_
      show anchorHead (a.confirm anchorId blob height blockHash confirmedAt) = anchorHead a
      unfold AnchorRow.confirm
      split <;> rfl
    refine ⟨⟨h.times, ?_, h.attestations⟩, List.prefix_rfl, ?_, .refl⟩
    · rw [Table.rows_update, hmap]
      exact h.anchors
    · rw [Table.rows_update, hmap]
      exact .refl
  | insertWitness w =>
    obtain ⟨-, -, -, rfl⟩ := exec_insertWitness hex
    exact ⟨⟨h.times, h.anchors, h.attestations⟩, List.prefix_rfl, .refl, .refl⟩
  | retireWitness witnessId retiredAt =>
    cases hex
    exact ⟨⟨h.times, h.anchors, h.attestations⟩, List.prefix_rfl, .refl, .refl⟩

/-- An executed statement that follows the tips adds the tip only. -/
theorem Follows.addsTips (h : Follows d d') (hex : exec s d = .ok (d', n)) : AddsTips d d' := by
  cases s with
  | insertEntry row =>
    obtain ⟨t, -, -, rfl⟩ := exec_insertEntry hex
    exact ⟨⟨[], (List.append_nil _).symm, by simp⟩, ⟨[], (List.append_nil _).symm, by simp⟩⟩
  | _ =>
    have hsame : d'.entries = d.entries := by
      refine exec_noEntry ?_ hex
      trivial
    obtain ⟨-, hanchors, hattestations⟩ := h
    rw [hsame] at hanchors hattestations
    refine ⟨?_, ?_⟩
    · rw [hsame]
      exact hanchors.addTips
    · rw [hsame]
      exact hattestations.addTips

def tipGrowth : Growth Database Statement where
  good v := TipsBound v.data
  le u v := Follows u.data v.data
  refl v := Follows.refl v.data
  trans := Follows.trans

end Statements

section Calls

variable [IsoTime.Platform] {W : Type} {L : Libraries} {i : InstId} {t : TaskId} {σ : Shared Database Statement W}

/-- No connection has been closed. -/
def NoneClosed (σ : Shared Database Statement W) : Prop := ∀ c < σ.nextConn, c ∈ σ.file.opened

/-- Calls on one ledger, none of whose connections is closed, with readings of the clock that are not
before the entries there are. -/
def onTime (i : InstId) : LedgerRules L W :=
  ⟨fun j _ => j = i, fun _ _ op o σ => NoneClosed σ ∧
    ∀ τ ∈ reading op o, ∀ c, DatedUpTo (strftime τ.civil) (σ.file.view c).data, fun _ _ => True, fun _ _ => True⟩

theorem callOk_log (actor action : String) (payload : Option (List (PyKey × PyVal))) (signer : Option Signer)
    (eventType : String) : CallOk tipGrowth i t (onTime (L := L) i).env
      (log (L := L) actor action payload signer eventType) σ := by
  unfold Ledger.log requireDb utcNowIso now
  refine CallOk.connection fun c σ₁ hg₁ hown => ?_
  refine CallOk.withLock fun σ₂ hg₂ hheld => ?_
  refine InLock.select (hown.rewired hg₂.rewired).1 hheld fun u σ₃ hl₃ hsees => ?_
  simp only [bind_assoc]
  refine InLock.external hsees.held fun τ σ₄ σ₅ g w hl₄ henv hτ hl₅ => ?_
  simp only [Prog.pure_eq, Prog.ok_bind]
  cases hcanon : canonicalJson (PyVal.dict (payload.getD [])) with
  | error e => exact InLock.raise (hsees.leave (hl₄.trans hl₅)).held
  | ok text =>
    simp only [Prog.ok_bind]
    refine InLock.execute (hsees.leave (hl₄.trans hl₅)).held ?_ ?_
    · intro σ₆ d n hl₆ hi₆ hopen hex
      have hview : σ₆.file.view c = u := (hsees.leave (hl₄.trans (hl₅.trans hl₆))).view.2 hopen
      have hview₄ : σ₄.file.view c = u := (hsees.leave hl₄).view.2 (henv.1 c (hsees.leave hl₄).view.1)
      have hdated := henv.2 τ (by simp [reading, hτ, Except.toOption]) c
      rw [hview₄] at hdated
      have hgood : TipsBound (σ₆.file.view c).data := (hi₆.view c).1
      rw [hview] at hex hgood ⊢
      refine hgood.exec ?_ hex
      exact ⟨entryAfter_entryId .., hdated⟩
    · exact fun n σ₆ hheld₆ => InLock.commit hheld₆

omit [IsoTime.Platform] in
/-- The ledger has one connection as long as none is closed. -/
theorem Owns.eq_of_noneClosed {c d : ConnId} (h : Owns i d σ) (hnone : NoneClosed σ)
    (hdb : (σ.handles i).db = some c) : d = c :=
  (h.eq_or_closed hdb).resolve_right (not_not.mpr (hnone d h.1))

/-- The latest entry, read on the ledger's one connection under its lock. -/
theorem inLock_getLatestEntry {β : Type} {f : Option LedgerEntry → Action L β} (hheld : Held i t σ)
    (hnone : ∀ σ' : Shared Database Statement W, Held i t σ' → InLock tipGrowth i t (onTime (L := L) i).env (f none) σ')
    (hsome : ∀ c u row e σ', Leaves tipGrowth i t σ σ' → Owns i c σ' → (∀ d, Owns i d σ → d = c) → Sees i t c u σ' →
      u.data.entries.last? = some row → rowToEntry row = .ok e →
      InLock tipGrowth i t (onTime (L := L) i).env (f (some e)) σ') :
    InLock tipGrowth i t (onTime (L := L) i).env (getLatestEntry >>= f) σ := by
  unfold getLatestEntry requireDb
  simp only [bind_assoc]
  refine InLock.connection hheld fun c σ₁ o hl₁ henv hdb hown => ?_
  have hone (d : ConnId) (hd : Owns i d σ) : d = c :=
    Owns.eq_of_noneClosed (hd.rewired hl₁.grows.rewired) henv.1 hdb
  refine InLock.select hown.1 (hl₁.held hheld).1 fun u σ₂ hl₂ hsees => ?_
  cases hlast : u.data.entries.last? with
  | none => exact hnone σ₂ hsees.held
  | some row =>
    dsimp only
    cases hrow : rowToEntry row with
    | error e => exact InLock.raise hsees.held
    | ok e => exact hsome c u row e σ₂ (hl₁.trans hl₂) (hown.rewired hl₂.grows.rewired) hone hsees hlast hrow

/-- A reading of the clock while the holder of the lock sees a version: no entry of it is later. -/
theorem inLock_now {β : Type} {f : UtcTime → Action L β} {c : ConnId} {u : Version Database Statement}
    (hsees : Sees i t c u σ)
    (hf : ∀ τ σ', DatedUpTo (strftime τ.civil) u.data → Leaves tipGrowth i t σ σ' →
      InLock tipGrowth i t (onTime (L := L) i).env (f τ) σ') :
    InLock tipGrowth i t (onTime (L := L) i).env (Ledger.now >>= f) σ := by
  unfold Ledger.now
  refine InLock.external hsees.held fun τ σ₁ σ₂ g w hl₁ henv hτ hl₂ => hf τ σ₂ ?_ (hl₁.trans hl₂)
  have hdated := henv.2 τ (by simp [reading, hτ, Except.toOption]) c
  rwa [(hsees.leave hl₁).view.2 (henv.1 c (hsees.leave hl₁).view.1)] at hdated

/-- A statement on what the holder of the lock sees, at the tip of it. -/
theorem inLock_execute {β : Type} {f : ℤ → Action L β} {c : ConnId} {u : Version Database Statement} {s : Statement}
    (hsees : Sees i t c u σ) (hs : AtTip u.data s)
    (hf : ∀ n (σ' : Shared Database Statement W), Held i t σ' → InLock tipGrowth i t (onTime (L := L) i).env (f n) σ') :
    InLock tipGrowth i t (onTime (L := L) i).env (Prog.execute c s >>= f) σ := by
  refine InLock.execute hsees.held (fun σ₁ d n hl₁ hi₁ hopen hex => ?_) hf
  have hgood : TipsBound (σ₁.file.view c).data := (hi₁.view c).1
  rw [(hsees.leave hl₁).view.2 hopen] at hex hgood ⊢
  exact hgood.exec hs hex

theorem callOk_attestWithWitness (witnessId : ℤ) (signer : Signer) :
    CallOk tipGrowth i t (onTime (L := L) i).env (attestWithWitness (L := L) witnessId signer) σ := by
  unfold attestWithWitness
  refine CallOk.connection fun c σ₁ hg₁ hown => ?_
  refine CallOk.withLock fun σ₂ hg₂ hheld => ?_
  refine InLock.reads (uses_getWitness allowsReads_isRead _) hheld fun witness σ₃ hl₃ => ?_
  have hheld₃ := (hl₃.held hheld).1
  split_ifs
  · exact InLock.raise hheld₃
  · exact InLock.raise hheld₃
  refine inLock_getLatestEntry hheld₃ (fun _ h => InLock.pure h) fun d u row e σ₄ hl₄ _ hone hsees hlast hrow => ?_
  obtain rfl : c = d := hone c ((hown.rewired hg₂.rewired).rewired hl₃.grows.rewired)
  refine InLock.reads (uses_getLastWitnessAttestationHash allowsReads_isRead _) hsees.held fun prev σ₅ hl₅ => ?_
  refine inLock_now (hsees.leave hl₅) fun signedAt σ₆ hdated hl₆ => ?_
  refine inLock_execute (hsees.leave (hl₅.trans hl₆)) ?_ fun n σ₇ hheld₇ => InLock.commit hheld₇
  obtain ⟨hid, hhash⟩ := rowToEntry_head hrow
  exact ⟨row, hlast, hid.symm, hhash.symm, hdated row (List.mem_of_getLast? hlast)⟩

theorem callOk_anchor (schedule ledgerSchedule : Option AnchorSchedule) :
    CallOk tipGrowth i t (onTime (L := L) i).env (anchor (L := L) schedule ledgerSchedule) σ := by
  unfold anchor
  split
  · rename_i calendarServers tsaUrls _
    refine CallOk.withLock fun σ₁ _ hheld => ?_
    refine inLock_getLatestEntry hheld (fun _ h => InLock.pure h) fun c u row e σ₂ hl₂ hown _ hsees hlast hrow => ?_
    refine InLock.reads (Prog.uses_done _) hsees.held fun bytes σ₃ hl₃ => ?_
    refine InLock.reads (uses_submitOtsTrack allowsReads_isRead _ _) (hsees.leave hl₃).held fun ots σ₄ hl₄ => ?_
    have hsees₄ := hsees.leave (hl₃.trans hl₄)
    refine InLock.reads (uses_submitTsaTrack allowsReads_isRead _ _ _) hsees₄.held fun tsa σ₅ hl₅ => ?_
    have hown₅ := (hown.rewired (hl₃.trans hl₄).grows.rewired).rewired hl₅.grows.rewired
    obtain ⟨successful, blob, errors⟩ := ots
    obtain ⟨response, tsaError⟩ := tsa
    dsimp only
    split
    · exact InLock.raise (hsees₄.leave hl₅).held
    unfold insertAnchor requireDb
    simp only [bind_assoc]
    refine InLock.connection (hsees₄.leave hl₅).held fun d σ₆ o hl₆ henv hdb _ => ?_
    obtain rfl : c = d := Owns.eq_of_noneClosed (hown₅.rewired hl₆.grows.rewired) henv.1 hdb
    refine inLock_now (hsees₄.leave (hl₅.trans hl₆)) fun submittedAt σ₇ hdated hl₇ => ?_
    have hsees₇ := hsees₄.leave (hl₅.trans (hl₆.trans hl₇))
    refine InLock.reads (Prog.uses_done _) hsees₇.held fun iso σ₈ hl₈ => ?_
    refine inLock_execute (hsees₇.leave hl₈) ?_ fun n σ₉ hheld₉ => InLock.commit hheld₉
    obtain ⟨hid, hhash⟩ := rowToEntry_head hrow
    exact ⟨row, hlast, hid.symm, hhash.symm, hdated row (List.mem_of_getLast? hlast)⟩
  · exact fun _ _ _ => trivial

/-- Statements that add no entry and bind none. -/
def Unbound : Statement → Prop
  | .insertEntry _ | .insertAnchor _ | .insertAttestation _ => False
  | _ => True

omit [IsoTime.Platform] in
theorem Unbound.atTip {s : Statement} (hs : Unbound s) (d : Database) : AtTip d s := by
  cases s with
  | insertEntry | insertAnchor | insertAttestation => exact hs.elim
  | _ => exact trivial

theorem callOk_body (call : Call) : CallOk tipGrowth i t (onTime (L := L) i).env (call.body (L := L)) σ := by
  have hresult {α : Type} {p : Action L α} {f : α → Result} (h : CallOk tipGrowth i t (onTime (L := L) i).env p σ) :
      CallOk tipGrowth i t (onTime (L := L) i).env (p >>= fun a => .done (.ok (f a))) σ := by
    refine Ok.bind (Ok.mono h ?_ fun _ h => h)
    exact fun a _ _ _ _ _ => Ok.pure (P := protocol tipGrowth i W) fun _ _ _ => trivial
  have hother {call : Call} (ha : Admits Unbound call) :
      CallOk tipGrowth i t (onTime (L := L) i).env (call.body (L := L)) σ :=
    callOk_of_guarded (guarded_body ha) (by simp) fun s v d n hs hgood hex =>
      TipsBound.exec hgood (hs.atTip v.data) hex
  cases call with
  | log => exact hresult (callOk_log _ _ _ _ _)
  | attestWithWitness => exact hresult (callOk_attestWithWitness _ _)
  | anchor => exact hresult (callOk_anchor _ _)
  | _ => exact hother (admits_of_mayIssue fun s hs => by cases s <;> trivial)

end Calls

section Runs

variable [IsoTime.Platform] {W : Type} {L : Libraries} {i : InstId} {clock : W → UtcTime}

/-- Calls on one ledger that stays open, under a clock that never goes backwards. Statements may fail,
and tasks may be cancelled. -/
def clockedLedger (i : InstId) (clock : W → UtcTime) : LedgerRules L W :=
  ⟨fun j _ => j = i, fun _ _ => Forward clock, fun _ _ => True, fun _ _ => False⟩

theorem noneClosed_step {s s' : LedgerSys L W} (h : NoneClosed s.shared)
    (hstep : Step Call.body (clockedLedger i clock) s s') : NoneClosed s'.shared := by
  obtain ⟨e, ha, hs⟩ := hstep
  cases e with
  | call j c =>
    cases hs
    exact h
  | run t o =>
    obtain ⟨j, c, op, k, r, σ, -, hx, rfl⟩ := runTask_some hs
    intro c hc
    cases op with
    | connection =>
      obtain ⟨rfl, -⟩ := effect_connection hx
      exact h c hc
    | acquire => rcases effect_acquire hx with ⟨-, -, rfl⟩ | ⟨-, rfl⟩ <;> exact h c hc
    | release =>
      obtain ⟨-, rfl⟩ := effect_release hx
      exact h c hc
    | select =>
      obtain ⟨rfl, -⟩ := effect_select hx
      exact h c hc
    | external => rcases effect_external hx with ⟨f, w, -, -, rfl⟩ | ⟨-, rfl⟩ <;> exact h c hc
    | execute =>
      rcases effect_execute hx with ⟨d, n, -, -, -, rfl⟩ | ⟨e, f, l, -, rfl | ⟨-, rfl⟩, -, rfl⟩ <;> exact h c hc
    | commit => rcases effect_commit hx with ⟨v, -, -, -, rfl⟩ | ⟨-, -, -, rfl⟩ | ⟨e, l, -, -, rfl⟩ <;> exact h c hc
  | connect j =>
    obtain ⟨σ, hσ, rfl⟩ := Option.map_eq_some_iff.mp hs
    obtain ⟨-, rfl⟩ := connectShared_some hσ
    intro c hc
    rcases Nat.lt_succ_iff_lt_or_eq.mp hc with hc | rfl
    · exact List.mem_cons_of_mem _ (h c hc)
    · exact List.mem_cons_self
  | close j => exact ha.elim
  | detach j =>
    obtain ⟨σ, hσ, rfl⟩ := Option.map_eq_some_iff.mp hs
    obtain ⟨c, -, -, rfl⟩ := detachShared_some hσ
    exact h

/-- A reading of a clock that never goes backwards is not before the entries there are. -/
theorem allows_onTime {d : Database} {w : W} (hd : DatedUpTo (strftime (clock w).civil) d) {s : LedgerSys L W}
    (hrun : LedgerRun (clockedLedger i clock) (startSys d w) s) (hnone : NoneClosed s.shared)
    {e : Event Request (Reply L) PyError W Call} (ha : (clockedLedger i clock).Allows s e) :
    (onTime i).Allows s e := by
  cases e with
  | call j c => exact ha
  | run t o =>
    intro j c op k ht
    refine ⟨hnone, fun τ hτ c r hr => ?_⟩
    have hclocked : Clocked (clockedLedger (L := L) i clock) clock := fun _ _ _ _ _ h => h
    have hread := ((ha j _ op k ht).2 τ hτ).1
    exact le_trans (dated_of_run hclocked hd hrun c r hr) (strftime_le.mpr hread)
  | connect | close | detach => exact trivial

theorem run_onTime {d : Database} {w : W} (hd : DatedUpTo (strftime (clock w).civil) d) {s : LedgerSys L W}
    (hrun : LedgerRun (clockedLedger i clock) (startSys d w) s) :
    LedgerRun (onTime i) (startSys d w) s ∧ NoneClosed s.shared := by
  have hstep (s s' : LedgerSys L W) (h : NoneClosed s.shared ∧ LedgerRun (clockedLedger i clock) (startSys d w) s)
      (hs : Step Call.body (clockedLedger i clock) s s') :
      NoneClosed s'.shared ∧ LedgerRun (clockedLedger i clock) (startSys d w) s' :=
    ⟨noneClosed_step h.1 hs, h.2.tail hs⟩
  have hstart : NoneClosed (startSys d w : LedgerSys L W).shared := fun c hc => absurd hc (Nat.not_lt_zero c)
  obtain ⟨hrun', hnone, -⟩ := run_strengthen hstep (fun s e h ha => allows_onTime hd h.2 h.1 ha) ⟨hstart, .refl⟩ hrun
  exact ⟨hrun', hnone⟩

theorem verified_tips : Verified (protocol tipGrowth i W) (onTime i) (Call.body (L := L)) (fun _ _ _ _ _ => True)
    (fun _ _ _ _ => True) :=
  ExclusiveLock.verified (fun _ _ h => h) fun call _ _ _ _ => callOk_body call

/-- Along every run of the one ledger, what a task inserts binds the last entry that its connection
sees, and heads and times do not go back. -/
theorem bound_tips {d : Database} (hd : TipsBound d) {w : W} (hclock : DatedUpTo (strftime (clock w).civil) d)
    {s : LedgerSys L W} (hrun : LedgerRun (clockedLedger i clock) (startSys d w) s) :
    (TipsBound s.shared.file.committed.data ∧ ∀ c, TipsBound (s.shared.file.view c).data) ∧
      ∀ t o s', (clockedLedger i clock).Allows s (.run t o) → runTask t o s = some s' →
        ∀ j call c stmt k, s.tasks[t]? = some ⟨j, call, .perform (.execute c stmt) k⟩ →
          AddsTips (s.shared.file.view c).data (s'.shared.file.view c).data := by
  obtain ⟨hrun', hnone⟩ := run_onTime hclock hrun
  have hstart : Good (protocol tipGrowth i W) (onTime i) (fun _ _ _ _ _ => True) (fun _ _ _ _ => True)
      (startSys d w : LedgerSys L W) := by
    refine Good.start ⟨wired_start d w, hd, ?_⟩ (fresh_start d w)
    rintro p ⟨⟩
  have hgood := (verified_tips.run hstart hrun').1
  have hinv : tipGrowth.Inv s.shared := hgood.inv
  refine ⟨⟨hinv.committed, fun c => (hinv.view c).1⟩, fun t o s' ha hs j call c stmt k ht => ?_⟩
  have hgrows : tipGrowth.Grows s.shared s'.shared :=
    (verified_tips.step hgood ⟨.run t o, allows_onTime hclock hrun hnone ha, hs⟩).2
  obtain ⟨j', call', op, k', r, σ, ht', hx, rfl⟩ := runTask_some hs
  rw [ht] at ht'
  cases ht'
  rcases effect_execute hx with ⟨d', n, hw, hex, -, rfl⟩ | ⟨e, f, l, -, hf, -, rfl⟩
  · have hfollows : Follows (s.shared.file.view c).data _ := hgrows.view c (hinv.wired.opened c hw.1) hw.1
    rw [File.view_write_self] at hfollows ⊢
    exact hfollows.addsTips hex
  · show AddsTips (s.shared.file.view c).data (f.view c).data
    rw [File.view_of_locked hf c]
    exact ⟨⟨[], (List.append_nil _).symm, by simp⟩, ⟨[], (List.append_nil _).symm, by simp⟩⟩

end Runs

section Examples

instance (s : LedgerSys offline ℕ) (e : Event Request (Reply offline) PyError ℕ Call) :
    Decidable ((clockedLedger 0 afterNoon).Allows s e) :=
  inferInstanceAs (Decidable (Rules.Allows ⟨fun j _ => j = 0, fun _ _ => Forward afterNoon, fun _ _ => True,
    fun _ _ => False⟩ s e))

/-- A second entry is logged while the first one is anchored, and a witness then attests. -/
def loggedWhileAnchoring : List (LedgerEvent offline ℕ) :=
  .connect 0 :: (logScript (ticks 1) 0 0 "a" ++ registerScript (ticks 2) 0 1 "w" "00") ++
    .call 0 (.anchor (some ⟨["c"], [], true⟩) none) :: proceeds 2 3 ++
    [.call 0 (logCall "b"), .run 3 .ok, .run 2 (ticks 3), .run 2 .ok, .run 2 (ticks 4)] ++ proceeds 2 3 ++
    asks (ticks 5) 3 2 ++ proceeds 3 3 ++ attestScript (ticks 6) 0 4 1 (echoSigner "00")

theorem run_loggedWhileAnchoring : (runAllowed Call.body (clockedLedger 0 afterNoon) (startSys Database.empty 0)
    loggedWhileAnchoring).any (fun s : LedgerSys _ _ =>
      s.shared.file.committed.data.anchors.rows.map AnchorRow.chainHeadEntryId = [1] &&
        s.shared.file.committed.data.attestations.rows.map AttestationRow.chainHeadEntryId = [2]) = true := by
  decide +kernel

end Examples

theorem bound_tips_anchored : ∃ s : LedgerSys offline ℕ,
    LedgerRun (clockedLedger 0 afterNoon) (startSys Database.empty 0) s ∧
      s.shared.file.committed.data.anchors.rows.map AnchorRow.chainHeadEntryId = [1] ∧
      s.shared.file.committed.data.attestations.rows.map AttestationRow.chainHeadEntryId = [2] ∧
      TipsBound s.shared.file.committed.data := by
  obtain ⟨s, hs, h⟩ := (Option.any_eq_true _ _).mp run_loggedWhileAnchoring
  obtain ⟨hanchors, hattestations⟩ := (Bool.and_eq_true _ _).mp h
  have hrun := run_of_runAllowed (fun _ _ _ ha => ha) hs
  have hempty : TipsBound Database.empty :=
    ⟨List.Pairwise.nil, ⟨List.Pairwise.nil, by simp [Database.empty]⟩, ⟨List.Pairwise.nil, by simp [Database.empty]⟩⟩
  have hdated : DatedUpTo (strftime (afterNoon 0).civil) Database.empty := by simp [DatedUpTo, Database.empty]
  exact ⟨s, hrun, of_decide_eq_true hanchors, of_decide_eq_true hattestations,
    (bound_tips hempty hdated hrun).1.1⟩

end NexusCone.BoundTips
