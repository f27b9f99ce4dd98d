import NexusCone.UpgradeDecisions

/-!
# What one upgrade leaves

`confirm_anchor` and `_upgrade_one` with nothing in between: either the file is as it was, or the one row
is confirmed. An exception after the `UPDATE` has run leaves the row confirmed too.
-/
namespace NexusCone.ConfirmRuns
open ExceptResults HexBytes PyValue IsoTime KeyedTable SharedFile AsyncProgram AsyncSystem LoneRuns EmbeddedPrograms
  OpTrees LedgerSchema WitnessChain TimestampAuthority Ledger VerifierCli AnchorChecks Poller ConfirmedProofs
  UpgradeDecisions

variable [Platform] {T : Proofs} {W : Type}

abbrev PollerHappening (T : Proofs) (W : Type) : Type :=
  Happening Statement (Request ⊕ PollerRequest) (Sum.elim (Reply T.libraries) (PollerReply T)) PyError W

section Disturbances

/-- The statement has returned, and so do the commit and the read that follow it. -/
def Completes (o : Outcome (Request ⊕ PollerRequest) (Sum.elim (Reply T.libraries) (PollerReply T)) PyError W) :
    List (PollerHappening T W) → Prop
  | ⟨.commit _, .ok⟩ :: ⟨.release, .ok⟩ :: ⟨.select _, .ok⟩ :: _ =>
    match o with
    | .ok => True
    | _ => False
  | _ => False

/-- Somewhere a statement has run and an exception has followed it. -/
def Disturbed : List (PollerHappening T W) → Prop
  | [] => False
  | ⟨.execute _ _, o⟩ :: es => o.performs ∧ ¬ Completes o es ∨ Disturbed es
  | _ :: es => Disturbed es

/-- What comes first leaves no statement that has run without its end. -/
def Neutral (es : List (PollerHappening T W)) : Prop :=
  ∀ rest, Disturbed (es ++ rest) ↔ Disturbed rest

omit [Platform] in
theorem neutral_nil : Neutral ([] : List (PollerHappening T W)) := fun _ => Iff.rfl

omit [Platform] in
theorem Neutral.append {es es' : List (PollerHappening T W)} (h : Neutral es) (h' : Neutral es') :
    Neutral (es ++ es') := by
  intro rest
  rw [List.append_assoc, h, h']

omit [Platform] in
theorem neutral_external {es : List (PollerHappening T W)} (h : ∀ e ∈ es, ∃ q, e.op = .external q) : Neutral es := by
  intro rest
  induction es with
  | nil => rfl
  | cons e es ih =>
    obtain ⟨⟨q, hq⟩, hes⟩ := List.forall_mem_cons.mp h
    obtain ⟨op, o⟩ := e
    obtain rfl : op = .external q := hq
    exact ih hes

end Disturbances

/-- The instance's connection may write and its lock is free. -/
structure Ready (i : InstId) (c : ConnId) (σ : Shared Database Statement W) : Prop where
  db : (σ.handles i).db = some c
  lock : (σ.handles i).lock = none
  mayWrite : σ.file.MayWrite c

section Confirming

variable {i : InstId} {t : TaskId} {c : ConnId} {σ σ' : Shared Database Statement W} {es : List (PollerHappening T W)}

theorem embed_confirmAnchor (anchorId : ℤ) (blob : Bytes) (height : ℤ) (blockHash : Option String) (time : DateTime) :
    embed (PollerReply T) (Ledger.confirmAnchor (L := T.libraries) anchorId blob height blockHash (some time)) =
      Prog.connection >>= fun db =>
        Prog.withLock (Prog.execute db (.confirmAnchor anchorId blob height blockHash (strftime time.civil)) >>=
          fun _ => Prog.commit db) >>= fun _ =>
        Prog.select db >>= fun d => match d.anchors.find? anchorId with
          | some row => Prog.done (rowToAnchor row)
          | none => Prog.raise (.keyError s!"No anchor with anchor_id={anchorId}") := by
  rw [Ledger.confirmAnchor, embed_bind]
  show embed (PollerReply T) (requireDb >>= _) = _
  rw [embed_bind]
  refine congrArg (Prog.connection >>= ·) (funext fun db => ?_)
  rw [embed_bind, embed_withLock, embed_bind]
  refine congrArg (Prog.withLock _ >>= ·) (funext fun _ => ?_)
  rw [getAnchor, embed_bind]
  refine congrArg (Prog.select db >>= ·) (funext fun d => ?_)
  cases d.anchors.find? anchorId <;> rfl

/-- What an operation on the anchors has left in the file, and whether it has returned: all is as it was, the
change is committed, or a change has been made that an exception has followed. -/
inductive Leaves (c : ConnId) (d : Database) (σ σ' : Shared Database Statement W) (es : List (PollerHappening T W)) :
    Bool → Prop
  | same : (σ'.file.view c).data = (σ.file.view c).data → σ'.file.committed = σ.file.committed → Neutral es →
    Leaves c d σ σ' es false
  | changed : (σ'.file.view c).data = d → σ'.file.committed.data = d → Neutral es → Leaves c d σ σ' es true
  | disturbed : (σ'.file.view c).data = d → (∀ rest, Disturbed (es ++ rest)) → Leaves c d σ σ' es false

omit [Platform] in
/-- A statement and its commit under the lock. Where they return, their happenings are the given ones. -/
theorem alone_write {s : Statement} {d : Database} {n : ℤ} {r : Except PyError Unit} (hready : Ready i c σ)
    (hex : exec s (σ.file.view c).data = .ok (d, n))
    (h : Alone i t (Prog.withLock (Prog.execute c s >>= fun _ => Prog.commit c)) σ es r σ') :
    Ready i c σ' ∧
      ((∃ e, r = .error e) ∧ Leaves c d σ σ' es false ∨
        r = .ok () ∧ (σ'.file.view c).data = d ∧ σ'.file.committed.data = d ∧
          es = [⟨.acquire, .ok⟩, ⟨.execute c s, .ok⟩, ⟨.commit c, .ok⟩, ⟨.release, .ok⟩]) := by
  obtain ⟨hdb, hlock, hw⟩ := hready
  rcases h.of_withLock with ⟨performed, rfl, rfl, rfl⟩ | ⟨inside, σ₁, -, rfl, hinside, rfl⟩
  · exact ⟨⟨hdb, hlock, hw⟩, .inl ⟨⟨_, rfl⟩, .same rfl rfl fun _ => Iff.rfl⟩⟩
  have hw' : (σ.setLock i (some t)).file.MayWrite c := hw
  have hex' : exec s ((σ.setLock i (some t)).file.view c).data = .ok (d, n) := hex
  have hready' {f : File Database Statement} {l : List (TaskId × ConnId)} (hf : f.MayWrite c) :
      Ready i c (({ σ.setLock i (some t) with file := f, failed := l } : Shared Database Statement W).setLock i none) := by
    refine ⟨?_, Shared.setLock_lock_self _ i none, hf⟩
    rw [Shared.setLock_db]
    exact (Shared.setLock_db σ i i (some t)).trans hdb
  rcases hinside.of_bind with ⟨k, σ₂, es₁, es₂, rfl, hexecute, hcommit⟩ | ⟨e, rfl, hexecute⟩
  · obtain ⟨o, rfl, heffect⟩ := hexecute.of_op
    rcases effect_execute_cases hw' hex' heffect with ⟨rfl, -, rfl⟩ | ⟨-, hr, -⟩ | ⟨-, ⟨e, hr⟩, -⟩
    · obtain ⟨o', rfl, hpublish⟩ := hcommit.of_op
      rcases effect_commit_cases hpublish hw.1 rfl with ⟨rfl, rfl, rfl⟩ | ⟨hne, ⟨e, rfl⟩, hσ⟩
      · refine ⟨hready' ⟨hw.1, by rintro p ⟨⟩⟩, .inr ⟨rfl, ?_, rfl, rfl⟩⟩
        exact congrArg Version.data (File.view_of_ne (by rintro p ⟨⟩))
      · have hdisturbed (rest : List (PollerHappening T W)) :
            Disturbed (⟨.acquire, .ok⟩ :: ([⟨.execute c s, .ok⟩] ++ [⟨.commit c, o'⟩]) ++ [⟨.release, .ok⟩] ++ rest) := by
          refine .inl ⟨rfl, ?_⟩
          cases o' with
          | ok => exact absurd rfl hne
          | _ => exact id
        rcases hσ with rfl | ⟨l, rfl⟩
        · refine ⟨hready' ⟨hw.1, by rintro p ⟨⟩⟩, .inl ⟨⟨e, rfl⟩, .disturbed ?_ hdisturbed⟩⟩
          exact congrArg Version.data (File.view_of_ne (by rintro p ⟨⟩))
        · refine ⟨hready' (File.mayWrite_write hw _), .inl ⟨⟨e, rfl⟩, .disturbed ?_ hdisturbed⟩⟩
          exact congrArg Version.data (File.view_write_self _ _ _)
    · cases hr
    · cases hr
  · obtain ⟨o, rfl, heffect⟩ := hexecute.of_op
    refine ⟨?_, .inl ⟨⟨e, rfl⟩, ?_⟩⟩
    all_goals
      rcases effect_execute_cases hw' hex' heffect with ⟨-, hr, -⟩ | ⟨rfl, -, rfl⟩ | ⟨hnot, -, f, l, rfl, hf⟩
    · cases hr
    · exact hready' (File.mayWrite_write hw _)
    · rcases hf with rfl | rfl
      · exact hready' hw
      · exact hready' (File.mayWrite_write hw _)
    · cases hr
    · refine .disturbed (congrArg Version.data (File.view_write_self _ _ _)) fun rest => .inl ⟨rfl, ?_⟩
      exact id
    · have hneutral : Neutral (⟨.acquire, .ok⟩ :: [⟨.execute c s, o⟩] ++ [⟨.release, .ok⟩] : List (PollerHappening T W)) := by
        intro rest
        show (o.performs ∧ _ ∨ Disturbed rest) ↔ _
        simp [hnot]
      rcases hf with rfl | rfl
      · exact .same rfl rfl hneutral
      · exact .same (congrArg Version.data (File.view_lock _ _ _ hw)) rfl hneutral

omit [Platform] in
theorem Leaves.after {d : Database} {σ₁ : Shared Database Statement W} {es₁ es₂ : List (PollerHappening T W)} {b : Bool}
    (h : Leaves c d σ₁ σ' es₂ b) (hfile : σ₁.file = σ.file) (hes : Neutral es₁) : Leaves c d σ σ' (es₁ ++ es₂) b := by
  cases h with
  | same hview hcommitted hneutral =>
    exact .same (hview.trans (by rw [hfile])) (hcommitted.trans (by rw [hfile])) (hes.append hneutral)
  | changed hview hcommitted hneutral => exact .changed hview hcommitted (hes.append hneutral)
  | disturbed hview hdisturbed =>
    refine .disturbed hview fun rest => ?_
    rw [List.append_assoc, hes]
    exact hdisturbed rest

omit [Platform] in
theorem alone_connection {r : Except PyError ConnId} (hready : Ready i c σ)
    (h : Alone i t (Prog.connection : PollerAction T ConnId) σ es r σ') :
    r = .ok c ∧ σ' = σ ∧ es = [⟨.connection, .ok⟩] := by
  obtain ⟨o, rfl, heffect⟩ := h.of_op
  obtain ⟨rfl, ⟨c', hdb, rfl⟩ | ⟨hdb, -⟩⟩ := effect_connection heffect
  · cases hready.db.symm.trans hdb
    cases o with
    | ok => exact ⟨rfl, rfl, rfl⟩
    | _ => cases heffect
  · cases hready.db.symm.trans hdb

omit [Platform] in
/-- The read sees what the connection sees, or fails. -/
theorem alone_select {r : Except PyError Database} (hready : Ready i c σ)
    (h : Alone i t (Prog.select c : PollerAction T Database) σ es r σ') :
    σ' = σ ∧ ((es = [⟨.select c, .ok⟩] ∧ r = .ok (σ.file.view c).data) ∨
      ∃ o e, es = [⟨.select c, o⟩] ∧ o ≠ .ok ∧ r = .error e) := by
  obtain ⟨o, rfl, heffect⟩ := h.of_op
  cases o with
  | ok =>
    simp only [effect, if_pos hready.mayWrite.1] at heffect
    cases heffect
    exact ⟨rfl, .inl ⟨rfl, rfl⟩⟩
  | answer f w => cases heffect
  | _ =>
    cases heffect
    exact ⟨rfl, .inr ⟨_, _, rfl, by rintro ⟨⟩, rfl⟩⟩

/-- `confirm_anchor` of an anchor that is stored. -/
theorem alone_confirmAnchor {anchor : AnchorRecord} {blob : Bytes} {height : ℤ} {blockHash : Option String} {time : UtcTime}
    {r : Except PyError AnchorRecord} (hready : Ready i c σ)
    (hstored : ∃ row ∈ (σ.file.view c).data.anchors.rows, rowToAnchor row = .ok anchor)
    (h : Alone i t (embed (PollerReply T) (Ledger.confirmAnchor (L := T.libraries) anchor.anchorId blob height blockHash
      (some time.toDateTime))) σ es r σ') :
    Ready i c σ' ∧ Leaves c (confirmed (σ.file.view c).data anchor.anchorId blob height blockHash (strftime time.civil))
      σ σ' es r.isOk := by
  obtain ⟨row, hrow, hread⟩ := hstored
  rw [embed_confirmAnchor] at h
  rcases h.of_bind with ⟨db, σ₁, es₁, es₂, rfl, hconnection, h₁⟩ | ⟨e, -, hconnection⟩
  swap
  · cases (alone_connection hready hconnection).1
  obtain ⟨hdb, rfl, rfl⟩ := alone_connection hready hconnection
  cases hdb
  let d := confirmed (σ₁.file.view c).data anchor.anchorId blob height blockHash (strftime time.civil)
  have hex : exec (Statement.confirmAnchor anchor.anchorId blob height blockHash (strftime time.civil))
      (σ₁.file.view c).data = .ok (d, 0) := rfl
  have hasked : Neutral ([⟨.connection, .ok⟩] : List (PollerHappening T W)) := fun _ => Iff.rfl
  rcases h₁.of_bind with ⟨u, σ₂, es₃, es₄, rfl, hwrite, h₂⟩ | ⟨e, rfl, hwrite⟩
  · obtain ⟨hready₂, ⟨⟨e, he⟩, -⟩ | ⟨-, hview, hcommitted, rfl⟩⟩ := alone_write hready hex hwrite
    · cases he
    rcases h₂.of_bind with ⟨d', σ₃, es₅, es₆, rfl, hselect, h₃⟩ | ⟨e, rfl, hselect⟩
    · obtain ⟨rfl, ⟨rfl, hd⟩ | ⟨o, e, -, -, he⟩⟩ := alone_select hready₂ hselect
      · cases hd
        obtain ⟨a, ha⟩ := rowToAnchor_confirm hread anchor.anchorId blob height blockHash time
        have hfind : d.anchors.find? anchor.anchorId =
            some (row.confirm anchor.anchorId blob height blockHash (strftime time.civil)) := by
          refine Table.find?_eq_some.mpr ⟨List.mem_map_of_mem hrow, ?_⟩
          rw [AnchorRow.key_confirm]
          exact (readFrom_of_rowToAnchor hread).anchorId.symm
        rw [hview, hfind] at h₃
        obtain ⟨rfl, rfl, rfl⟩ := h₃.of_done
        rw [ha]
        exact ⟨hready₂, .changed hview hcommitted fun rest => by simp [Disturbed, Completes]⟩
      · cases he
    · obtain ⟨rfl, ⟨-, hd⟩ | ⟨o, e', rfl, hne, -⟩⟩ := alone_select hready₂ hselect
      · cases hd
      · refine ⟨hready₂, .disturbed hview fun rest => .inl ⟨rfl, ?_⟩⟩
        cases o with
        | ok => exact absurd rfl hne
        | _ => exact id
  · obtain ⟨hready₂, ⟨-, hleaves⟩ | ⟨he, -⟩⟩ := alone_write hready hex hwrite
    · exact ⟨hready₂, hleaves.after rfl hasked⟩
    · cases he

end Confirming

section Upgrading

variable {i : InstId} {t : TaskId} {c : ConnId} {σ σ' : Shared Database Statement W} {es : List (PollerHappening T W)}

/-- The program asks requests only. -/
abbrev Asks {α : Type} (p : PollerAction T α) : Prop :=
  p.Uses fun op => ∃ q, op = .external q

omit [Platform] in
theorem asks_queryCalendars (ts : T.Timestamp) (pairs : List (Bytes × String)) : Asks (queryCalendars ts pairs) := by
  induction pairs generalizing ts with
  | nil => exact trivial
  | cons pair pairs ih =>
    have hasked : Asks (calendarGetTimestamp (T := T) pair.2 pair.1) := ⟨⟨_, rfl⟩, fun _ => trivial⟩
    refine hasked.attempt.bind fun reply => ?_
    cases reply with
    | ok upgraded => exact Prog.Uses.bind (Prog.uses_done _) fun ts => ih ts
    | error e =>
      dsimp only
      split
      · exact ih ts
      · exact trivial

omit [Platform] in
theorem asks_blockHash (height : ℤ) : Asks (fetchBitcoinBlockHashAtHeight (T := T) height) := by
  have hasked : Asks (urlopen (T := T) (mempoolSpaceBlockByHeightUrl height)) := ⟨⟨_, rfl⟩, fun _ => trivial⟩
  refine hasked.attempt.bind fun reply => ?_
  cases reply with
  | ok page => exact trivial
  | error e =>
    dsimp only
    split <;> exact trivial

omit [Platform] in
theorem asks_now : Asks (embed (PollerReply T) (Ledger.now (L := T.libraries))) := ⟨⟨_, rfl⟩, fun _ => trivial⟩

omit [Platform] in
/-- Requests leave all as it is. -/
theorem alone_asks {α : Type} {p : PollerAction T α} {r : Except PyError α} (hp : Asks p) (hready : Ready i c σ)
    (h : Alone i t p σ es r σ') : Ready i c σ' ∧ σ'.file = σ.file ∧ Neutral es := by
  obtain ⟨hfile, hhandles, hes⟩ := h.of_external hp
  refine ⟨⟨?_, ?_, hfile ▸ hready.mayWrite⟩, hfile, neutral_external hes⟩
  · rw [hhandles]
    exact hready.db
  · rw [hhandles]
    exact hready.lock

def isUpgraded : Except PyError Outcome → Bool
  | .ok .upgraded => true
  | _ => false

/-- What `_upgrade_one` leaves, with some proof, height, block hash and time for the anchor. -/
def LeavesUpgrade (c : ConnId) (anchor : AnchorRecord) (σ σ' : Shared Database Statement W)
    (es : List (PollerHappening T W)) (b : Bool) : Prop :=
  ∃ blob height blockHash, ∃ time : UtcTime,
    Leaves c (confirmed (σ.file.view c).data anchor.anchorId blob height blockHash (strftime time.civil)) σ σ' es b

theorem leavesUpgrade_asked {anchor : AnchorRecord} (hfile : σ'.file = σ.file) (hes : Neutral es) :
    LeavesUpgrade c anchor σ σ' es false :=
  ⟨[], 0, none, LedgerRuns.noon, .same (by rw [hfile]) (by rw [hfile]) hes⟩

theorem LeavesUpgrade.after {anchor : AnchorRecord} {σ₁ : Shared Database Statement W}
    {es₁ es₂ : List (PollerHappening T W)} {b : Bool} (h : LeavesUpgrade c anchor σ₁ σ' es₂ b)
    (hfile : σ₁.file = σ.file) (hes : Neutral es₁) : LeavesUpgrade c anchor σ σ' (es₁ ++ es₂) b := by
  obtain ⟨blob, height, blockHash, time, h⟩ := h
  rw [hfile] at h
  exact ⟨blob, height, blockHash, time, h.after hfile hes⟩

/-- After requests that have returned, and where they have not. -/
theorem alone_asks_bind {α : Type} {p : PollerAction T α} {f : α → PollerAction T Outcome} {anchor : AnchorRecord}
    {r : Except PyError Outcome} (hp : Asks p) (hready : Ready i c σ) (h : Alone i t (p >>= f) σ es r σ')
    (hf : ∀ a σ₁ es₁, σ₁.file = σ.file → Ready i c σ₁ → Alone i t (f a) σ₁ es₁ r σ' →
      Ready i c σ' ∧ LeavesUpgrade c anchor σ₁ σ' es₁ (isUpgraded r)) :
    Ready i c σ' ∧ LeavesUpgrade c anchor σ σ' es (isUpgraded r) := by
  rcases h.of_bind with ⟨a, σ₁, es₁, es₂, rfl, hasked, hrest⟩ | ⟨e, rfl, hasked⟩
  · obtain ⟨hready₁, hfile, hes⟩ := alone_asks hp hready hasked
    obtain ⟨hready', hleaves⟩ := hf a σ₁ es₂ hfile hready₁ hrest
    exact ⟨hready', hleaves.after hfile hes⟩
  · obtain ⟨hready', hfile, hes⟩ := alone_asks hp hready hasked
    exact ⟨hready', leavesUpgrade_asked hfile hes⟩

/-- `_upgrade_one` of an anchor that is stored. -/
theorem alone_upgradeOne {anchor : AnchorRecord} {r : Except PyError Outcome} (hready : Ready i c σ)
    (hstored : ∃ row ∈ (σ.file.view c).data.anchors.rows, rowToAnchor row = .ok anchor)
    (h : Alone i t (upgradeOne (T := T) anchor) σ es r σ') :
    Ready i c σ' ∧ LeavesUpgrade c anchor σ σ' es (isUpgraded r) := by
  have hdone {x : Except PyError Outcome} {σ₁ : Shared Database Statement W} {es₁ : List (PollerHappening T W)}
      (hx : isUpgraded x = false) (hready : Ready i c σ₁) (h : Alone i t (.done x : PollerAction T Outcome) σ₁ es₁ r σ') :
      Ready i c σ' ∧ LeavesUpgrade c anchor σ₁ σ' es₁ (isUpgraded r) := by
    obtain ⟨rfl, rfl, rfl⟩ := h.of_done
    rw [hx]
    exact ⟨hready, leavesUpgrade_asked rfl neutral_nil⟩
  unfold upgradeOne at h
  split at h
  · exact hdone rfl hready h
  rename_i otsProofBlob _
  refine alone_asks_bind (Prog.uses_done _) hready h fun chainHead σ₁ es₁ hfile₁ hready₁ h₁ => ?_
  refine alone_asks_bind (Prog.uses_done _) hready₁ h₁ fun ts σ₂ es₂ hfile₂ hready₂ h₂ => ?_
  split at h₂
  · exact hdone rfl hready₂ h₂
  refine alone_asks_bind (asks_queryCalendars _ _) hready₂ h₂ fun merged σ₃ es₃ hfile₃ hready₃ h₃ => ?_
  split at h₃
  · exact hdone rfl hready₃ h₃
  rename_i height _
  refine alone_asks_bind (Prog.uses_done _) hready₃ h₃ fun upgradedBlob σ₄ es₄ hfile₄ hready₄ h₄ => ?_
  refine alone_asks_bind (asks_blockHash _) hready₄ h₄ fun blockHash σ₅ es₅ hfile₅ hready₅ h₅ => ?_
  refine alone_asks_bind asks_now hready₅ h₅ fun time σ₆ es₆ hfile₆ hready₆ h₆ => ?_
  have hfile : σ₆.file = σ.file := by rw [hfile₆, hfile₅, hfile₄, hfile₃, hfile₂, hfile₁]
  rw [← hfile] at hstored
  rcases h₆.of_bind with ⟨a, σ₇, es₇, es₈, rfl, hconfirm, h₇⟩ | ⟨e, rfl, hconfirm⟩
  · obtain ⟨hready', hleaves⟩ := alone_confirmAnchor hready₆ hstored hconfirm
    obtain ⟨rfl, rfl, rfl⟩ := h₇.of_done
    rw [List.append_nil]
    exact ⟨hready', upgradedBlob, height, blockHash, time, hleaves⟩
  · obtain ⟨hready', hleaves⟩ := alone_confirmAnchor hready₆ hstored hconfirm
    exact ⟨hready', upgradedBlob, height, blockHash, time, hleaves⟩

end Upgrading

end NexusCone.ConfirmRuns
