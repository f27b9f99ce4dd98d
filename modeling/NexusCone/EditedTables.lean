import NexusCone.EntryAuthenticity

/-!
# Edits of one stored value

What the walk sees of an edit of one column of one row, and the edits it does not see: the event
type of a row that was hashed without it, a format version with the same formula, and a signature
or a key id after which the row is unsigned or still verifies.
-/
namespace NexusCone.EditedTables
open HexBytes HashChain KeyedTable SharedFile AsyncProgram AsyncSystem PromptCommits PyValue Canonical LedgerSchema
  EntryChain TimestampAuthority Ledger LedgerRuns ChainTamperEvidence SignedHistory EntryAuthenticity

/-- A new value for one column. -/
inductive Edit where
  | entryId (v : ℤ)
  | timestamp (v : String)
  | actor (v : String)
  | action (v : String)
  | eventType (v : String)
  | formatVersion (v : ℤ)
  | payload (v : String)
  | previousHash (v : String)
  | entryHash (v : String)
  | signature (v : Option String)
  | signingKeyId (v : Option String)

def Edit.apply (row : EntryRow) : Edit → EntryRow
  | .entryId v => { row with entryId := v }
  | .timestamp v => { row with timestamp := v }
  | .actor v => { row with actor := v }
  | .action v => { row with action := v }
  | .eventType v => { row with eventType := v }
  | .formatVersion v => { row with formatVersion := v }
  | .payload v => { row with payload := v }
  | .previousHash v => { row with previousHash := v }
  | .entryHash v => { row with entryHash := v }
  | .signature v => { row with signature := v }
  | .signingKeyId v => { row with signingKeyId := v }

/-- The table after an edit of the row at the place, read in the order of the ids. -/
def Edited (rows : List EntryRow) (k : ℕ) (row : EntryRow) (edited : Table EntryRow) : Prop :=
  edited.rows.Perm (rows.set k row)

/-- Neither the row's hash nor its signature check covers the edit. -/
def Unseen (verifier : Verifier) (row : EntryRow) : Edit → Prop
  | .eventType _ => ¬ row.formatVersion ≥ 2
  | .formatVersion v => v ≥ 2 ↔ row.formatVersion ≥ 2
  | .signature v => Signed (some verifier) { row with signature := v }
  | .signingKeyId v => Signed (some verifier) { row with signingKeyId := v }
  | _ => False

variable {verifier : Verifier} {row : EntryRow} {e : Edit} {rows : List EntryRow} {edited : Table EntryRow}

/-- Where the edited row's own hash is that of the row as it was, the hash does not cover the
edit. -/
theorem unseen_of_sameHashed (h : SameHashed row (e.apply row)) (hne : e.apply row ≠ row)
    (hsigned : Signed (some verifier) (e.apply row)) : Unseen verifier row e := by
  cases e with
  | entryId v =>
    obtain rfl : row.entryId = v := h.entryId
    exact absurd rfl hne
  | timestamp v =>
    obtain rfl : row.timestamp = v := h.timestamp
    exact absurd rfl hne
  | actor v =>
    obtain rfl : row.actor = v := h.actor
    exact absurd rfl hne
  | action v =>
    obtain rfl : row.action = v := h.action
    exact absurd rfl hne
  | payload v =>
    obtain rfl : row.payload = v := h.payload
    exact absurd rfl hne
  | previousHash v =>
    obtain rfl : row.previousHash = v := h.previousHash
    exact absurd rfl hne
  | entryHash v =>
    obtain rfl : row.entryHash = v := h.entryHash
    exact absurd rfl hne
  | eventType v =>
    intro hversion
    obtain rfl : row.eventType = v := h.eventType hversion
    exact absurd rfl hne
  | formatVersion v => exact h.formula.symm
  | signature v => exact hsigned
  | signingKeyId v => exact hsigned

/-- An edit changes the stored hash or what it is the hash of. -/
theorem hashedText_or_entryHash (row : EntryRow) (e : Edit) :
    hashedText (e.apply row) = hashedText row ∨ (e.apply row).entryHash = row.entryHash := by
  cases e with
  | entryHash v => exact .inl rfl
  | _ => exact .inr rfl

/-- An accepted table that differs from a hashed one in one value differs from it where the walk
does not look. -/
theorem unseen_of_accepted (hhashed : ∀ r ∈ rows, r.entryHash = recomputed r) {k : ℕ} (hk : k < rows.length)
    (hne : e.apply rows[k] ≠ rows[k]) (hedited : Edited rows k (e.apply rows[k]) edited)
    (hcol : NoCollision (HashedIn (rows ++ edited.rows))) {n : ℕ}
    (haccepted : verifyChain (some verifier) edited.rows = .ok n) : Unseen verifier rows[k] e := by
  obtain ⟨-, hchained, hsigned⟩ := verifyChain_iff.mp haccepted
  have hmem : e.apply rows[k] ∈ edited.rows := by
    have hget := List.getElem_mem (l := rows.set k (e.apply rows[k])) (n := k) (by simpa using hk)
    rw [List.getElem_set_self] at hget
    exact hedited.mem_iff.mpr hget
  have hold := hhashed _ (List.getElem_mem hk)
  have hnew := hchained.hashed _ hmem
  have htext : hashedText (e.apply rows[k]) = hashedText rows[k] := by
    rcases hashedText_or_entryHash rows[k] e with htext | hhash
    · exact htext
    · refine hcol _ _ ⟨_, List.mem_append_right _ hmem, rfl⟩
        ⟨_, List.mem_append_left _ (List.getElem_mem hk), rfl⟩ ?_
      rw [← recomputed_eq, ← recomputed_eq, ← hold, ← hnew, hhash]
  have hhash : (e.apply rows[k]).entryHash = rows[k].entryHash := by
    rw [hold, hnew, recomputed_eq, recomputed_eq, htext]
  exact unseen_of_sameHashed (hashedText_injective htext.symm hhash.symm) hne (hsigned _ hmem)

/-- Such an edit leaves an accepted table accepted. -/
theorem accepted_of_unseen {n : ℕ} (haccepted : verifyChain (some verifier) rows = .ok n) {k : ℕ}
    (hk : k < rows.length) (hunseen : Unseen verifier rows[k] e) :
    verifyChain (some verifier) (rows.set k (e.apply rows[k])) = .ok n := by
  obtain ⟨rfl, hchained, hsigned⟩ := verifyChain_iff.mp haccepted
  have hmem := List.getElem_mem hk
  have hsig := hsigned _ hmem
  obtain ⟨hprev, hhash, htext, hsign⟩ :
      (e.apply rows[k]).previousHash = rows[k].previousHash ∧
      (e.apply rows[k]).entryHash = rows[k].entryHash ∧
      hashedText (e.apply rows[k]) = hashedText rows[k] ∧
      Signed (some verifier) (e.apply rows[k]) := by
    cases e with
    | eventType v => exact ⟨rfl, rfl, by simp [hashedText, entryFields, Edit.apply, if_neg hunseen], hsig⟩
    | formatVersion v =>
      exact ⟨rfl, rfl, by simp only [hashedText, entryFields, Edit.apply, propext hunseen], hsig⟩
    | signature v => exact ⟨rfl, rfl, rfl, hunseen⟩
    | signingKeyId v => exact ⟨rfl, rfl, rfl, hunseen⟩
    | _ => exact hunseen.elim
  have hmap {f : EntryRow → String} (hf : f (e.apply rows[k]) = f rows[k]) :
      (rows.set k (e.apply rows[k])).map f = rows.map f := by
    rw [List.map_set, hf, ← List.getElem_map f (h := by simpa using hk), List.set_getElem_self]
  refine verifyChain_iff.mpr ⟨by simp, ⟨hchained.linked.of_maps (hmap hprev) (hmap hhash), fun r hr => ?_⟩,
    fun r hr => ?_⟩
  · rcases List.mem_or_eq_of_mem_set hr with hr | rfl
    · exact hchained.hashed r hr
    · rw [hhash, recomputed_eq, htext, ← recomputed_eq]
      exact hchained.hashed _ hmem
  · rcases List.mem_or_eq_of_mem_set hr with hr | rfl
    · exact hsigned r hr
    · exact hsign

section Runs

variable [IsoTime.Platform] {W : Type} {L : Libraries} {rules : LedgerRules L W}

/-- Every other edit of a table that log calls have made raises. -/
theorem edits_detected {d : Database} (hd : Chained d.entries.rows) {w : W} {s : LedgerSys L W}
    (hrun : LedgerRun rules (startSys d w) s) {k : ℕ}
    (hrow : s.shared.file.committed.data.entries.rows[k]? = some row) (hne : e.apply row ≠ row)
    (hseen : ¬ Unseen verifier row e)
    (hedited : Edited s.shared.file.committed.data.entries.rows k (e.apply row) edited)
    (hcol : NoCollision (HashedIn (s.shared.file.committed.data.entries.rows ++ edited.rows))) :
    ∃ error, verifyChain (some verifier) edited.rows = .error error := by
  obtain ⟨hk, rfl⟩ := List.getElem?_eq_some_iff.mp hrow
  cases haccepted : verifyChain (some verifier) edited.rows with
  | error error => exact ⟨error, rfl⟩
  | ok n =>
    refine absurd ?_ hseen
    exact unseen_of_accepted (chained_of_run hd hrun).hashed hk hne hedited hcol haccepted

end Runs

section Examples

theorem entryId_of_unseen (h : Unseen verifier row e) : (e.apply row).entryId = row.entryId := by
  cases e with
  | entryId v => exact h.elim
  | _ => rfl

theorem exists_edited (t : Table EntryRow) {k : ℕ} (hk : k < t.rows.length)
    (hid : (e.apply t.rows[k]).entryId = t.rows[k].entryId) :
    ∃ edited : Table EntryRow, edited.rows = t.rows.set k (e.apply t.rows[k]) := by
  have hkeys : (t.rows.set k (e.apply t.rows[k])).map EntryRow.entryId = t.rows.map EntryRow.entryId := by
    rw [List.map_set, hid, ← List.getElem_map EntryRow.entryId (h := by simpa using hk), List.set_getElem_self]
  refine ⟨⟨_, t.seq, ?_⟩, rfl⟩
  have hsorted : (t.rows.map EntryRow.entryId).Pairwise (· < ·) := List.pairwise_map.mpr t.sorted
  rw [← hkeys] at hsorted
  exact List.pairwise_map.mp hsorted

/-- Some edit of the row changes it and is accepted all the same. -/
def Undetected (verifier : Verifier) (rows : List EntryRow) (k : ℕ) (e : Edit) : Prop :=
  ∃ row ∈ rows[k]?, e.apply row ≠ row ∧ ∃ edited : Table EntryRow, Edited rows k (e.apply row) edited ∧
    ∃ n, verifyChain (some verifier) edited.rows = .ok n

theorem undetected_of_unseen (t : Table EntryRow) {n : ℕ} (haccepted : verifyChain (some verifier) t.rows = .ok n)
    {k : ℕ} (hk : k < t.rows.length) (hne : e.apply t.rows[k] ≠ t.rows[k])
    (hunseen : Unseen verifier t.rows[k] e) : Undetected verifier t.rows k e := by
  obtain ⟨edited, hedited⟩ := exists_edited t hk (entryId_of_unseen hunseen)
  refine ⟨_, List.getElem?_eq_getElem hk, hne, edited, by rw [Edited, hedited], n, ?_⟩
  rw [hedited]
  exact accepted_of_unseen haccepted hk hunseen

/-- Of a migrated row the event type, of an unsigned one the format version and the key id, of a
signed one the signature. -/
theorem edits_undetected : ∃ s : LedgerSys offline Unit, LedgerRun .all (startSys migrated ()) s ∧
    verifyChain (some echoVerifier) s.shared.file.committed.data.entries.rows = .ok 3 ∧
    Undetected echoVerifier s.shared.file.committed.data.entries.rows 0 (.eventType "cost_anomaly") ∧
    Undetected echoVerifier s.shared.file.committed.data.entries.rows 1 (.formatVersion 3) ∧
    Undetected echoVerifier s.shared.file.committed.data.entries.rows 1 (.signingKeyId (some "00")) ∧
    Undetected echoVerifier s.shared.file.committed.data.entries.rows 2 (.signature none) := by
  obtain ⟨s₁, s, row, hrun₁, hrun₂, -, -, hhex, hsigs, hkinds, haccepted, hlast, -⟩ := signed_run
  obtain ⟨a, b, c, hrows⟩ := List.length_eq_three.mp
    (show s.shared.file.committed.data.entries.rows.length = 3 by simpa using congrArg List.length hsigs)
  have haccepted : verifyChain (some echoVerifier) s.shared.file.committed.data.entries.rows = .ok 3 := by
    cases hv : verifyChain (some echoVerifier) s.shared.file.committed.data.entries.rows with
    | error e => rw [hv] at haccepted; cases haccepted
    | ok n => rw [hv] at haccepted; exact congrArg Except.ok (Option.some.inj haccepted)
  obtain rfl : c = row := by simpa [hrows] using hlast
  have hnone : a.signature = none ∧ b.signature = none := by simpa [hrows] using hsigs
  obtain ⟨⟨hevent, hlegacy, -⟩, ⟨-, hcurrent, hkey⟩, -, -, -⟩ :
      (a.eventType = "request" ∧ a.formatVersion = 1 ∧ a.signingKeyId = none) ∧
      (b.eventType = "request" ∧ b.formatVersion = 2 ∧ b.signingKeyId = none) ∧
      c.eventType = "request" ∧ c.formatVersion = 2 ∧ c.signingKeyId = some "00" := by simpa [hrows] using hkinds
  have hunsigned {r : EntryRow} (h : r.signature = none) : Signed (some echoVerifier) r := by
    rintro verify signature - h'
    rw [h] at h'
    cases h'
  refine ⟨s, hrun₁.trans hrun₂, haccepted, ?_, ?_, ?_, ?_⟩
  · refine undetected_of_unseen _ haccepted (by simp [hrows]) ?_ ?_
    · simp only [hrows, List.getElem_cons_zero]
      intro h
      have h' := congrArg EntryRow.eventType h
      rw [hevent] at h'
      exact absurd (show "cost_anomaly" = "request" from h') (by decide)
    · simp [hrows, Unseen, hlegacy]
  · refine undetected_of_unseen _ haccepted (by simp [hrows]) ?_ ?_
    · simp only [hrows, List.getElem_cons_succ, List.getElem_cons_zero]
      intro h
      have h' := congrArg EntryRow.formatVersion h
      rw [hcurrent] at h'
      exact absurd (show (3 : ℤ) = 2 from h') (by decide)
    · simp [hrows, Unseen, hcurrent]
  · refine undetected_of_unseen _ haccepted (by simp [hrows]) ?_ ?_
    · simp only [hrows, List.getElem_cons_succ, List.getElem_cons_zero]
      intro h
      have h' := congrArg EntryRow.signingKeyId h
      rw [hkey] at h'
      cases h'
    · simp only [hrows, List.getElem_cons_succ, List.getElem_cons_zero]
      exact hunsigned hnone.2
  · refine undetected_of_unseen _ haccepted (by simp [hrows]) ?_ ?_
    · simp only [hrows, List.getElem_cons_succ, List.getElem_cons_zero]
      intro h
      have h' := congrArg EntryRow.signature h
      rw [← h'] at hhex
      cases hhex
    · simp only [hrows, List.getElem_cons_succ, List.getElem_cons_zero]
      exact hunsigned rfl

/-- Another signature of the signed row. -/
theorem edits_detected_signature : ∃ (s : LedgerSys offline Unit) (edited : Table EntryRow),
    LedgerRun .all (startSys migrated ()) s ∧ s.shared.file.committed.data.entries.rows.length = 3 ∧
    edited.rows ≠ s.shared.file.committed.data.entries.rows ∧
    ∃ error, verifyChain (some echoVerifier) edited.rows = .error error := by
  obtain ⟨s₁, s, row, hrun₁, hrun₂, -, -, -, hsigs, -, haccepted, hlast, hnodup⟩ := signed_run
  have hrun := hrun₁.trans hrun₂
  have hlength : s.shared.file.committed.data.entries.rows.length = 3 := by simpa using congrArg List.length hsigs
  have hd : Chained migrated.entries.rows := (chained_rowAfter 1 1).initial ⟨[_], rfl⟩
  have hk : 2 < s.shared.file.committed.data.entries.rows.length := by omega
  obtain rfl : s.shared.file.committed.data.entries.rows[2] = row :=
    Option.some.inj ((List.getElem?_eq_getElem hk).symm.trans hlast)
  have hhashed := (chained_of_run hd hrun).hashed
  have hunsigned : ¬ Unseen echoVerifier s.shared.file.committed.data.entries.rows[2] (.signature (some "00")) := by
    intro h
    obtain ⟨bytes, hbytes, hv⟩ := h echoVerifier "00" rfl rfl
    obtain rfl : bytes = [0] := (Option.some.inj hbytes).symm
    have hnul : utf8 (String.singleton (Char.ofNat 0)) = [0] := by decide +kernel
    have hzero : utf8 s.shared.file.committed.data.entries.rows[2].entryHash = [0] := by simpa [echoVerifier] using hv
    have hhex : (fromHex s.shared.file.committed.data.entries.rows[2].entryHash).isSome := by
      rw [hhashed _ (List.getElem_mem hk)]
      exact Option.isSome_iff_exists.mpr ⟨_, fromHex_sha256Hex _⟩
    rw [utf8_injective (hzero.trans hnul.symm)] at hhex
    revert hhex
    decide
  have hne : (Edit.signature (some "00")).apply s.shared.file.committed.data.entries.rows[2] ≠
      s.shared.file.committed.data.entries.rows[2] := by
    intro heq
    cases hv : verifyChain (some echoVerifier) s.shared.file.committed.data.entries.rows with
    | error e => rw [hv] at haccepted; cases haccepted
    | ok n =>
      have hsigned := (verifyChain_iff.mp hv).2.2 _ (List.getElem_mem hk)
      rw [← heq] at hsigned
      exact hunsigned hsigned
  obtain ⟨edited, hedited⟩ := exists_edited (e := .signature (some "00")) s.shared.file.committed.data.entries hk rfl
  have hmem {r' : EntryRow} (hr' : r' ∈ edited.rows) : ∃ r ∈ s.shared.file.committed.data.entries.rows,
      hashedText r' = hashedText r := by
    rw [hedited] at hr'
    rcases List.mem_or_eq_of_mem_set hr' with hr' | rfl
    · exact ⟨r', hr', rfl⟩
    · exact ⟨_, List.getElem_mem hk, rfl⟩
  refine ⟨s, edited, hrun, hlength, fun heq => hne ?_, edits_detected (k := 2) hd hrun (List.getElem?_eq_getElem hk) hne
    hunsigned (by rw [Edited, hedited]) (noCollision_of_nodup hhashed (List.nodup_cons.mp hnodup).2 fun r hr =>
      (List.mem_append.mp hr).elim (fun hr => ⟨r, hr, rfl⟩) hmem)⟩
  have hget := congrArg (fun rows => rows[2]?) (hedited.symm.trans heq)
  simpa [hk] using hget

end Examples
end NexusCone.EditedTables
