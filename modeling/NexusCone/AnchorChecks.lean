import NexusCone.ExceptResults
import NexusCone.LedgerRuns
import NexusCone.VerifierCli

/-!
# When the anchor checks are complete

A check that judges each anchor it reads reports on every row exactly when `get_anchors` reads
every row and no exception escapes; then its exit code says whether some row failed.
-/
namespace NexusCone.AnchorChecks
open ExceptResults HexBytes CodePoints PyValue IsoTime KeyedTable LedgerSchema WitnessChain TimestampAuthority Ledger LedgerRuns
  VerifierCli

/-- The check reports on the anchors it can handle, counting as failed those it finds bad, and
lets an exception through on the others. -/
structure Judges (check : Counters → AnchorRecord → Except PyError Counters)
    (handles bad : AnchorRecord → Prop) : Prop where
  counts : ∀ t a, handles a → ∃ t', check t a = .ok t' ∧ t'.total = t.total + 1 ∧
    (t'.failed = 0 ↔ t.failed = 0 ∧ ¬ bad a)
  raises : ∀ t a, ¬ handles a → ∃ e, check t a = .error e

section Walk

variable {check : Counters → AnchorRecord → Except PyError Counters} {handles bad : AnchorRecord → Prop}

theorem Judges.walk (h : Judges check handles bad) {t : Counters} {as : List AnchorRecord}
    (ha : ∀ a ∈ as, handles a) : ∃ t', walkAnchors check t as = (t', .ok ()) ∧
      t'.total = t.total + as.length ∧ (t'.failed = 0 ↔ t.failed = 0 ∧ ∀ a ∈ as, ¬ bad a) := by
  induction as generalizing t with
  | nil => exact ⟨t, rfl, rfl, by simp⟩
  | cons a as ih =>
    obtain ⟨hhead, htail⟩ := List.forall_mem_cons.mp ha
    obtain ⟨t₁, hcheck, htotal, hfailed⟩ := h.counts t a hhead
    obtain ⟨t₂, hwalk, htotal₂, hfailed₂⟩ := ih (t := t₁) htail
    refine ⟨t₂, ?_, ?_, ?_⟩
    · rw [walkAnchors, hcheck]
      exact hwalk
    · rw [htotal₂, htotal, List.length_cons]
      omega
    · rw [hfailed₂, hfailed, List.forall_mem_cons, and_assoc]

theorem Judges.walk_raises (h : Judges check handles bad) {t : Counters} {as : List AnchorRecord}
    (ha : ∃ a ∈ as, ¬ handles a) : ∃ t' e, walkAnchors check t as = (t', .error e) := by
  induction as generalizing t with
  | nil => simp at ha
  | cons a as ih =>
    rw [walkAnchors]
    by_cases hhead : handles a
    · obtain ⟨t₁, hcheck, -, -⟩ := h.counts t a hhead
      rw [hcheck]
      obtain ⟨b, hb, hbad⟩ := ha
      rcases List.mem_cons.mp hb with rfl | hb
      · exact absurd hhead hbad
      · exact ih ⟨b, hb, hbad⟩
    · obtain ⟨e, hcheck⟩ := h.raises t a hhead
      rw [hcheck]
      exact ⟨t, e, rfl⟩

variable [Platform]

/-- The check has reported on every row. -/
def Reports (check : Counters → AnchorRecord → Except PyError Counters) (summary : Counters → String)
    (d : Database) : Prop :=
  (∃ n, (runCheck check summary d).2 = .ok n) ∧ (runCheck check summary d).1.total = d.anchors.rows.length

theorem getAnchors_ok {d : Database} {as : List AnchorRecord} : getAnchors none defaultLimit d = .ok as ↔
    List.Forall₂ (fun row a => rowToAnchor row = .ok a) (d.anchors.rows.take 500) as := mapM_ok

theorem Judges.runCheck (h : Judges check handles bad) (summary : Counters → String) {d : Database}
    {as : List AnchorRecord} (has : getAnchors none defaultLimit d = .ok as) (ha : ∀ a ∈ as, handles a) :
    ∃ t, runCheck check summary d = (t, .ok (if t.failed > 0 then 1 else 0)) ∧ t.total = as.length ∧
      (t.failed = 0 ↔ ∀ a ∈ as, ¬ bad a) := by
  obtain ⟨t, hwalk, htotal, hfailed⟩ := h.walk (t := .zero) ha
  refine ⟨{ t with lines := t.lines ++ [.summary (summary t)] }, ?_, ?_, ?_⟩
  · simp only [VerifierCli.runCheck, has, hwalk]
  · rw [Counters.total, ← Nat.zero_add as.length]
    exact htotal
  · rw [hfailed]
    exact and_iff_right rfl

/-- A row that `get_anchors` reads and the check handles. -/
def Handled (handles : AnchorRecord → Prop) (row : AnchorRow) : Prop :=
  ∃ a, rowToAnchor row = .ok a ∧ handles a

theorem forall₂_handled {rows : List AnchorRow} {as : List AnchorRecord}
    (has : List.Forall₂ (fun row a => rowToAnchor row = .ok a) rows as) {p : AnchorRecord → Prop} :
    (∀ a ∈ as, p a) ↔ ∀ row ∈ rows, Handled p row := by
  induction has with
  | nil => simp
  | @cons row a rows as hrow _ ih =>
    rw [List.forall_mem_cons, List.forall_mem_cons, ih]
    refine and_congr_left' ⟨fun hp => ⟨a, hrow, hp⟩, ?_⟩
    rintro ⟨b, hb, hp⟩
    rw [hrow] at hb
    cases hb
    exact hp

theorem Judges.reports (h : Judges check handles bad) {summary : Counters → String} {d : Database} :
    Reports check summary d ↔
      d.anchors.rows.length ≤ 500 ∧ ∀ row ∈ d.anchors.rows, Handled handles row := by
  constructor
  · rintro ⟨⟨n, hn⟩, htotal⟩
    cases has : getAnchors none defaultLimit d with
    | error e => simp [VerifierCli.runCheck, has] at hn
    | ok as =>
      have hrows := getAnchors_ok.mp has
      have hhandles : ∀ a ∈ as, handles a := by
        by_contra hno
        obtain ⟨t, e, hwalk⟩ := h.walk_raises (t := .zero) (by simpa using hno)
        simp [VerifierCli.runCheck, has, hwalk] at hn
      obtain ⟨t, hrun, hcount, -⟩ := h.runCheck summary has hhandles
      rw [hrun, hcount, ← hrows.length_eq, List.length_take] at htotal
      have hfew : d.anchors.rows.length ≤ 500 := by omega
      rw [List.take_of_length_le hfew] at hrows
      exact ⟨hfew, (forall₂_handled hrows).mp hhandles⟩
  · rintro ⟨hfew, hhandled⟩
    obtain ⟨as, has⟩ : ∃ as, getAnchors none defaultLimit d = .ok as := by
      refine exists_mapM_ok.mpr fun row hrow => ?_
      obtain ⟨a, ha, -⟩ := hhandled row (List.mem_of_mem_take hrow)
      exact ⟨a, ha⟩
    have hrows := getAnchors_ok.mp has
    rw [List.take_of_length_le hfew] at hrows
    obtain ⟨t, hrun, hcount, -⟩ := h.runCheck summary has ((forall₂_handled hrows).mpr hhandled)
    exact ⟨⟨_, by rw [hrun]⟩, by rw [hrun, hcount, hrows.length_eq]⟩

/-- A check that has reported on every row exits 0 exactly when it found none bad. -/
theorem Judges.exit (h : Judges check handles bad) {summary : Counters → String} {d : Database}
    (hr : Reports check summary d) :
    (VerifierCli.runCheck check summary d).2 = .ok 0 ↔
      ∀ row ∈ d.anchors.rows, Handled (fun a => ¬ bad a) row := by
  obtain ⟨hfew, hhandled⟩ := h.reports.mp hr
  obtain ⟨as, has⟩ : ∃ as, getAnchors none defaultLimit d = .ok as := by
    refine exists_mapM_ok.mpr fun row hrow => ?_
    obtain ⟨a, ha, -⟩ := hhandled row (List.mem_of_mem_take hrow)
    exact ⟨a, ha⟩
  have hrows := getAnchors_ok.mp has
  rw [List.take_of_length_le hfew] at hrows
  obtain ⟨t, hrun, -, hfailed⟩ := h.runCheck summary has ((forall₂_handled hrows).mpr hhandled)
  rw [hrun, ← forall₂_handled hrows, ← hfailed]
  by_cases ht : t.failed = 0
  · simp [ht]
  · simp [ht, Nat.pos_of_ne_zero ht]

end Walk

section Rows

variable [Platform] (L : Libraries)

/-- The anchor's calendars can be listed. -/
def Listable (a : AnchorRecord) : Prop :=
  ∀ v ∈ a.calendarServers, ∃ s, v = .str s ∧ ∀ b ∈ s, isSurrogate b = false

def Confirmed (a : AnchorRecord) : Prop := a.confirmedAt.isSome ∧ a.otsProofBlob.isSome

def BadProof (a : AnchorRecord) : Prop :=
  a.confirmedAt.isSome ∧ ∃ blob, a.otsProofBlob = some blob ∧ checkProof L a blob ≠ .ok ()

def BadToken (a : AnchorRecord) : Prop :=
  ∃ blob head, a.tstBlob = some blob ∧ fromHex a.chainHeadHash = some head ∧
    ∀ r, verifyTst L blob head (a.tsaUrl.getD "") ≠ .ok r

variable {L}

omit [Platform] in
theorem expectString_ok {v : PyVal} {s : PyStr} : expectString v = .ok s ↔ v = .str s := by
  cases v <;> simp [expectString]

omit [Platform] in
theorem printed_ok {s : PyStr} : (∃ text, printed s = .ok text) ↔ ∀ b ∈ s, isSurrogate b = false := by
  unfold printed
  split
  case isTrue h =>
    obtain ⟨b, hb, hsurrogate⟩ := List.any_eq_true.mp h
    refine iff_of_false (by simp) fun hall => ?_
    rw [hall b hb] at hsurrogate
    cases hsurrogate
  case isFalse h => exact iff_of_true ⟨_, rfl⟩ fun b hb => by simpa using fun hs => h (List.any_eq_true.mpr ⟨b, hb, hs⟩)

omit [Platform] in
theorem mem_intercalate {b : CodePoint} {sep : PyStr} {ss : List PyStr} (h : b ∈ sep.intercalate ss) :
    b ∈ sep ∨ ∃ s ∈ ss, b ∈ s := by
  induction ss with
  | nil => simp at h
  | cons s ss ih =>
    cases ss with
    | nil => exact .inr ⟨s, List.mem_cons_self, by simpa using h⟩
    | cons t ss =>
      rw [List.intercalate_cons_cons, List.mem_append, List.mem_append] at h
      rcases h with (h | h) | h
      · exact .inr ⟨s, List.mem_cons_self, h⟩
      · exact .inl h
      · exact (ih h).imp_right fun ⟨u, hu, hb⟩ => ⟨u, List.mem_cons_of_mem _ hu, hb⟩

omit [Platform] in
theorem subset_intercalate {sep s : PyStr} {ss : List PyStr} (h : s ∈ ss) : s ⊆ sep.intercalate ss := by
  induction ss with
  | nil => cases h
  | cons t ss ih =>
    cases ss with
    | nil => simp_all
    | cons u ss =>
      rw [List.intercalate_cons_cons]
      rcases List.mem_cons.mp h with rfl | h
      · exact fun b hb => List.mem_append_left _ (List.mem_append_left _ hb)
      · exact fun b hb => List.mem_append_right _ (ih h hb)

omit [Platform] in
/-- A pending anchor's line is printed exactly if its calendars can be listed. -/
theorem pendingCalendars_ok {a : AnchorRecord} : (∃ text, pendingCalendars a = .ok text) ↔ Listable a := by
  unfold pendingCalendars
  cases hcals : a.calendarServers with
  | nil => exact iff_of_true ⟨"(none)", by decide⟩ (by simp [Listable, hcals])
  | cons v vs =>
    rw [List.isEmpty_cons, if_neg Bool.false_ne_true, Listable, joinStrings, hcals]
    constructor
    · rintro ⟨text, h⟩
      obtain ⟨cals, hjoin, hprint⟩ := bind_ok h
      obtain ⟨ss, hss, hcals⟩ := bind_ok hjoin
      cases hcals
      have hscalar := printed_ok.mp ⟨text, hprint⟩
      intro w hw
      obtain ⟨s, hs, hws⟩ := exists_of_forall₂ (mapM_ok.mp hss) w hw
      exact ⟨s, expectString_ok.mp hws, fun b hb => hscalar b (subset_intercalate hs hb)⟩
    · intro hall
      obtain ⟨ss, hss⟩ := exists_mapM_ok.mpr fun w hw => (hall w hw).imp fun s hs => expectString_ok.mpr hs.1
      have hscalar : ∀ b ∈ (pyStr ", ").intercalate ss, isSurrogate b = false := by
        intro b hb
        rcases mem_intercalate hb with hsep | ⟨s, hs, hbs⟩
        · exact pyStr_scalar _ b hsep
        · obtain ⟨w, hw, hws⟩ := mem_mapM_ok hss hs
          obtain ⟨t, ht, hscalar⟩ := hall w hw
          rw [expectString_ok, ht, PyVal.str.injEq] at hws
          exact hscalar b (hws ▸ hbs)
      obtain ⟨text, htext⟩ := printed_ok.mpr hscalar
      refine ⟨text, ?_⟩
      rw [hss]
      exact htext

omit [Platform] in
theorem Counters.pass_total (t : Counters) (l : Line) : (t.pass l).total = t.total + 1 := by
  simp only [Counters.total, Counters.pass]
  omega

omit [Platform] in
theorem Counters.wait_total (t : Counters) (ls : List Line) : (t.wait ls).total = t.total + 1 := by
  simp only [Counters.total, Counters.wait]
  omega

omit [Platform] in
theorem Counters.fail_total (t : Counters) (anchorId : ℤ) (e : PyError) :
    (t.fail anchorId e).total = t.total + 1 := by
  simp only [Counters.total, Counters.fail]
  omega

omit [Platform] in
theorem judges_checkAnchor : Judges (checkAnchor L) (fun a => Confirmed a ∨ Listable a) (BadProof L) := by
  have hwait (t : Counters) (a : AnchorRecord) (hno : ¬ Confirmed a) :
      checkAnchor L t a = (do
        let calendars ← pendingCalendars a
        return t.wait [.pending a calendars]) := by
    unfold checkAnchor
    split
    · rename_i hc ho
      exact absurd ⟨by rw [hc]; rfl, by rw [ho]; rfl⟩ hno
    · rfl
  constructor
  · intro t a ha
    by_cases hc : Confirmed a
    · obtain ⟨at', hat⟩ := Option.isSome_iff_exists.mp hc.1
      obtain ⟨blob, hblob⟩ := Option.isSome_iff_exists.mp hc.2
      simp only [checkAnchor, hat, hblob]
      cases hp : checkProof L a blob with
      | ok u =>
        refine ⟨_, rfl, Counters.pass_total .., ?_⟩
        have hgood : ¬ BadProof L a := by
          rintro ⟨-, b, hb, hbad⟩
          rw [hblob] at hb
          cases hb
          exact hbad hp
        simp [Counters.pass, hgood]
      | error e =>
        refine ⟨_, rfl, Counters.fail_total .., ?_⟩
        have hbad : BadProof L a := ⟨hc.1, blob, hblob, by rw [hp]; simp⟩
        simp [Counters.fail, hbad]
    · obtain ⟨text, htext⟩ := pendingCalendars_ok.mpr (ha.resolve_left hc)
      have hgood : ¬ BadProof L a := by
        rintro ⟨hat, b, hb, -⟩
        exact hc ⟨hat, by rw [hb]; rfl⟩
      rw [hwait t a hc, htext]
      exact ⟨_, rfl, Counters.wait_total .., by simp [Counters.wait, hgood]⟩
  · intro t a ha
    obtain ⟨hc, hl⟩ := not_or.mp ha
    rw [hwait t a hc]
    cases hcals : pendingCalendars a with
    | ok text => exact absurd (pendingCalendars_ok.mp ⟨text, hcals⟩) hl
    | error e => exact ⟨e, rfl⟩

omit [Platform] in
theorem verifyTst_error {blob digest : Bytes} {url : String} {e : PyError}
    (h : verifyTst L blob digest url = .error e) : ∃ m, e = .tsaError m := by
  unfold verifyTst at h
  split at h
  · exact ⟨_, (Except.error.inj h).symm⟩
  split at h
  · exact ⟨_, (Except.error.inj h).symm⟩
  split at h
  · exact ⟨_, (Except.error.inj h).symm⟩
  split at h
  · exact ⟨_, (Except.error.inj h).symm⟩
  split at h
  · exact ⟨_, (Except.error.inj h).symm⟩
  · cases h

omit [Platform] in
theorem bytesFromHex_ok {s : String} {head : Bytes} (h : fromHex s = some head) :
    bytesFromHex s = .ok head := by
  rw [bytesFromHex, h]

omit [Platform] in
theorem judges_checkToken :
    Judges (checkToken L) (fun a => a.tstBlob.isSome → (fromHex a.chainHeadHash).isSome) (BadToken L) := by
  constructor
  · intro t a ha
    cases hblob : a.tstBlob with
    | none =>
      have hgood : ¬ BadToken L a := by
        rintro ⟨b, head, hb, -⟩
        rw [hblob] at hb
        cases hb
      simp only [checkToken, hblob]
      exact ⟨_, rfl, Counters.wait_total .., by simp [Counters.wait, hgood]⟩
    | some blob =>
      obtain ⟨head, hhead⟩ := Option.isSome_iff_exists.mp (ha (by rw [hblob]; rfl))
      simp only [checkToken, hblob, bytesFromHex_ok hhead, bind, Except.bind]
      cases hv : verifyTst L blob head (a.tsaUrl.getD "") with
      | ok r =>
        have hgood : ¬ BadToken L a := by
          rintro ⟨b, head', hb, hhead', hbad⟩
          rw [hblob] at hb
          rw [hhead] at hhead'
          cases hb
          cases hhead'
          exact hbad r hv
        exact ⟨_, rfl, Counters.pass_total .., by simp [Counters.pass, hgood]⟩
      | error e =>
        obtain ⟨m, rfl⟩ := verifyTst_error hv
        have hbad : BadToken L a := ⟨blob, head, hblob, hhead, fun r => by rw [hv]; simp⟩
        exact ⟨_, rfl, Counters.fail_total .., by simp [Counters.fail, hbad]⟩
  · intro t a ha
    obtain ⟨hsome, hnone⟩ := Classical.not_imp.mp ha
    obtain ⟨blob, hblob⟩ := Option.isSome_iff_exists.mp hsome
    have hhead : fromHex a.chainHeadHash = none := by simpa using hnone
    simp only [checkToken, hblob, bytesFromHex, hhead]
    exact ⟨_, rfl⟩

/-- The stored proof deserialises from the row's head, and its first Bitcoin attestation has the
stored height. -/
def ProofStands (L : Libraries) (row : AnchorRow) : Prop :=
  ∃ blob head ts height, row.otsProofBlob = some blob ∧ fromHex row.chainHeadHash = some head ∧
    L.deserialize blob head = .ok ts ∧ firstBitcoinAttestation L ts = some height ∧
    row.bitcoinBlockHeight = some height

/-- The stored token verifies against the row's head. -/
def TokenStands (L : Libraries) (row : AnchorRow) : Prop :=
  ∃ blob head r, row.tstBlob = some blob ∧ fromHex row.chainHeadHash = some head ∧
    verifyTst L blob head (row.tsaUrl.getD "") = .ok r

omit [Platform] in
theorem checkProof_ok {a : AnchorRecord} {blob : Bytes} : checkProof L a blob = .ok () ↔
    ∃ head ts height, fromHex a.chainHeadHash = some head ∧ L.deserialize blob head = .ok ts ∧
      firstBitcoinAttestation L ts = some height ∧ a.bitcoinBlockHeight = some height := by
  unfold checkProof bytesFromHex
  cases hhead : fromHex a.chainHeadHash with
  | none => simp [bind, Except.bind]
  | some head =>
    cases hts : L.deserialize blob head with
    | error e => simp [bind, Except.bind, hts]
    | ok ts =>
      cases hbtc : firstBitcoinAttestation L ts with
      | none => simp [bind, Except.bind, hts, hbtc]
      | some height => simp [bind, Except.bind, hts, hbtc]

/-- What the reading of a row keeps of it. -/
structure ReadFrom (row : AnchorRow) (a : AnchorRecord) : Prop where
  anchorId : a.anchorId = row.anchorId
  chainHeadHash : a.chainHeadHash = row.chainHeadHash
  chainHeadEntryId : a.chainHeadEntryId = row.chainHeadEntryId
  otsProofBlob : a.otsProofBlob = row.otsProofBlob
  confirmedAt : a.confirmedAt.isSome = row.confirmedAt.isSome
  bitcoinBlockHeight : a.bitcoinBlockHeight = row.bitcoinBlockHeight
  tstBlob : a.tstBlob = row.tstBlob
  tsaUrl : a.tsaUrl = row.tsaUrl

theorem readTimeColumn?_isSome {s : Option String} {t : Option DateTime} (h : readTimeColumn? s = .ok t) :
    t.isSome = s.isSome := by
  cases s with
  | none => cases h; rfl
  | some s =>
    simp only [readTimeColumn?, bind, Except.bind] at h
    split at h <;> cases h
    rfl

theorem readFrom_of_rowToAnchor {row : AnchorRow} {a : AnchorRecord} (h : rowToAnchor row = .ok a) :
    ReadFrom row a := by
  unfold rowToAnchor at h
  obtain ⟨submittedAt, -, h⟩ := bind_ok h
  obtain ⟨calendarServers, -, h⟩ := bind_ok h
  obtain ⟨confirmedAt, hconfirmed, h⟩ := bind_ok h
  obtain ⟨tsaGenTime, -, h⟩ := bind_ok h
  cases h
  exact ⟨rfl, rfl, rfl, rfl, readTimeColumn?_isSome hconfirmed, rfl, rfl, rfl⟩

omit [Platform] in
theorem badProof_iff {row : AnchorRow} {a : AnchorRecord} (h : ReadFrom row a) :
    BadProof L a ↔ row.confirmedAt.isSome ∧ row.otsProofBlob.isSome ∧ ¬ ProofStands L row := by
  unfold BadProof ProofStands
  rw [h.confirmedAt]
  cases hblob : row.otsProofBlob with
  | none => simp [h.otsProofBlob, hblob]
  | some blob => simp [h.otsProofBlob, hblob, checkProof_ok, h.chainHeadHash, h.bitcoinBlockHeight]

omit [Platform] in
theorem badToken_iff {row : AnchorRow} {a : AnchorRecord} (h : ReadFrom row a)
    (hhead : row.tstBlob.isSome → (fromHex row.chainHeadHash).isSome) :
    BadToken L a ↔ row.tstBlob.isSome ∧ ¬ TokenStands L row := by
  unfold BadToken TokenStands
  rw [h.tstBlob, h.chainHeadHash, h.tsaUrl]
  cases hblob : row.tstBlob with
  | none => simp
  | some blob =>
    obtain ⟨head, hhead⟩ := Option.isSome_iff_exists.mp (hhead (by rw [hblob]; rfl))
    simp [hhead]

variable (L)

/-- Both checks count every row and exit 0 exactly when the rows they are about stand. -/
structure ChecksComplete (d : Database) : Prop where
  anchorsCounted : (∃ n, (checkAnchors L d).2 = .ok n) ∧ (checkAnchors L d).1.total = d.anchors.rows.length
  anchorsExit : (checkAnchors L d).2 = .ok 0 ↔
    ∀ row ∈ d.anchors.rows, row.confirmedAt.isSome → ProofStands L row
  tstCounted : (∃ n, (checkTst L d).2 = .ok n) ∧ (checkTst L d).1.total = d.anchors.rows.length
  tstExit : (checkTst L d).2 = .ok 0 ↔ ∀ row ∈ d.anchors.rows, row.tstBlob.isSome → TokenStands L row

/-- `get_anchors` reads every row, no row makes a check raise, and no confirmed row lacks its
proof unless another confirmed row fails. -/
structure Checkable (d : Database) : Prop where
  few : d.anchors.rows.length ≤ 500
  reads : ∀ row ∈ d.anchors.rows, ∃ a, rowToAnchor row = .ok a ∧
    (row.confirmedAt.isSome ∧ row.otsProofBlob.isSome ∨ Listable a)
  heads : ∀ row ∈ d.anchors.rows, row.tstBlob.isSome → (fromHex row.chainHeadHash).isSome
  proofs : (∀ row ∈ d.anchors.rows, row.confirmedAt.isSome → row.otsProofBlob.isSome) ∨
    ∃ row ∈ d.anchors.rows, row.confirmedAt.isSome ∧ row.otsProofBlob.isSome ∧ ¬ ProofStands L row

variable {L} {d : Database}

theorem anchorsCounted_iff :
    ((∃ n, (checkAnchors L d).2 = .ok n) ∧ (checkAnchors L d).1.total = d.anchors.rows.length) ↔
      d.anchors.rows.length ≤ 500 ∧ ∀ row ∈ d.anchors.rows, ∃ a, rowToAnchor row = .ok a ∧
        (row.confirmedAt.isSome ∧ row.otsProofBlob.isSome ∨ Listable a) := by
  have hrow (row : AnchorRow) : Handled (fun a => Confirmed a ∨ Listable a) row ↔
      ∃ a, rowToAnchor row = .ok a ∧ (row.confirmedAt.isSome ∧ row.otsProofBlob.isSome ∨ Listable a) := by
    refine exists_congr fun a => and_congr_right fun ha => ?_
    have hread := readFrom_of_rowToAnchor ha
    simp only [Confirmed, hread.confirmedAt, hread.otsProofBlob]
  rw [← forall₂_congr fun row _ => hrow row]
  exact judges_checkAnchor.reports

theorem tstCounted_iff :
    ((∃ n, (checkTst L d).2 = .ok n) ∧ (checkTst L d).1.total = d.anchors.rows.length) ↔
      d.anchors.rows.length ≤ 500 ∧ ∀ row ∈ d.anchors.rows, ∃ a, rowToAnchor row = .ok a ∧
        (row.tstBlob.isSome → (fromHex row.chainHeadHash).isSome) := by
  have hrow (row : AnchorRow) :
      Handled (fun a => a.tstBlob.isSome → (fromHex a.chainHeadHash).isSome) row ↔
        ∃ a, rowToAnchor row = .ok a ∧ (row.tstBlob.isSome → (fromHex row.chainHeadHash).isSome) := by
    refine exists_congr fun a => and_congr_right fun ha => ?_
    have hread := readFrom_of_rowToAnchor ha
    simp only [hread.tstBlob, hread.chainHeadHash]
  rw [← forall₂_congr fun row _ => hrow row]
  exact judges_checkToken.reports

theorem handled_not {p : Prop} {q : AnchorRecord → Prop} {row : AnchorRow}
    (hread : ∃ a, rowToAnchor row = .ok a) (hpq : ∀ a, ReadFrom row a → (q a ↔ p)) :
    Handled (fun a => ¬ q a) row ↔ ¬ p := by
  obtain ⟨a, ha⟩ := hread
  have hiff := hpq a (readFrom_of_rowToAnchor ha)
  constructor
  · rintro ⟨b, hb, hq⟩
    rw [ha] at hb
    cases hb
    exact fun hp => hq (hiff.mpr hp)
  · exact fun hp => ⟨a, ha, fun hq => hp (hiff.mp hq)⟩

/-- Exit code 0 of `--check-anchors` once every row is counted. -/
theorem anchors_exit
    (h : (∃ n, (checkAnchors L d).2 = .ok n) ∧ (checkAnchors L d).1.total = d.anchors.rows.length) :
    (checkAnchors L d).2 = .ok 0 ↔
      ∀ row ∈ d.anchors.rows, row.confirmedAt.isSome → row.otsProofBlob.isSome → ProofStands L row := by
  have hreads := (anchorsCounted_iff.mp h).2
  refine (judges_checkAnchor.exit h).trans (forall₂_congr fun row hrow => ?_)
  obtain ⟨a, ha, -⟩ := hreads row hrow
  rw [handled_not ⟨a, ha⟩ fun b hb => badProof_iff (L := L) hb]
  tauto

/-- Exit code 0 of `--check-tst` once every row is counted. -/
theorem tst_exit
    (h : (∃ n, (checkTst L d).2 = .ok n) ∧ (checkTst L d).1.total = d.anchors.rows.length) :
    (checkTst L d).2 = .ok 0 ↔ ∀ row ∈ d.anchors.rows, row.tstBlob.isSome → TokenStands L row := by
  have hreads := (tstCounted_iff.mp h).2
  refine (judges_checkToken.exit h).trans (forall₂_congr fun row hrow => ?_)
  obtain ⟨a, ha, hhead⟩ := hreads row hrow
  rw [handled_not ⟨a, ha⟩ fun b hb => badToken_iff (L := L) hb hhead]
  tauto

end Rows

def pendingRow (anchorId : ℤ) : AnchorRow :=
  ⟨anchorId, "00", 1, none, "2026-01-01T12:00:00.000000Z", "[]", none, none, none, none, none, none⟩

def pendingAnchors (n : ℕ) : Table AnchorRow :=
  ⟨(List.range n).map fun k : ℕ => pendingRow (k + 1), n, by
    rw [List.pairwise_map]
    refine List.pairwise_lt_range.imp fun h => ?_
    simp only [key, pendingRow]
    omega⟩

theorem pendingAnchors_length (n : ℕ) : (pendingAnchors n).rows.length = n := by simp [pendingAnchors]

end NexusCone.AnchorChecks
