import NexusCone.AnchorChecks
import NexusCone.CivilInstants
import NexusCone.ExceptResults
import NexusCone.JsonRoundTrip
import NexusCone.LedgerRuns
import NexusCone.SoloRun
import NexusCone.TokenAgreement
import NexusCone.WitnessStore

/-!
# The instants that stored times denote

Times are written with a literal `Z` and read back as UTC. The clock's readings are in UTC and the time of a
token is converted, so these keep their instants; `confirm_anchor` writes the local fields of the time that it
is given.
-/
namespace NexusCone.StoredTimes
open ExceptResults HexBytes CodePoints JsonText PyValue IsoTime CivilInstants KeyedTable SharedFile AsyncProgram SoloRun
  LedgerSchema EntryChain WitnessChain TimestampAuthority Ledger LedgerRuns AnchorChecks TokenAgreement WitnessStore

section Calendars

/-- The texts of a list with its separators, up to the closing bracket. -/
def joined (s : String) (ss : List String) (rest : List Char) : List Char :=
  match ss with
  | [] => stringChars s ++ ']' :: rest
  | t :: ss => stringChars s ++ ',' :: ' ' :: joined t ss rest

theorem dumpsStrings_cons (s : String) (ss : List String) :
    dumpsStrings (s :: ss) = String.ofList ('[' :: joined s ss []) := by
  have hjoined : [',', ' '].intercalate ((s :: ss).map fun s : String => stringChars s) ++ [']'] = joined s ss [] := by
    induction ss generalizing s with
    | nil => simp [List.intercalate, joined]
    | cons t ss ih =>
      rw [joined, ← ih t, List.map_cons, List.map_cons]
      simp [List.intercalate]
  rw [dumpsStrings, List.cons_append, hjoined]

theorem length_joined (s : String) (ss : List String) (rest : List Char) : ss.length < (joined s ss rest).length := by
  induction ss generalizing s with
  | nil => simp [joined]
  | cons t ss ih =>
    have h := ih t
    simp only [joined, List.length_append, List.length_cons]
    omega

theorem readElements_joined (s : String) (ss : List String) (rest : List Char) (n : ℕ) :
    readElements (n + ss.length + 2) (joined s ss rest) = some ((s :: ss).map fun s : String => Json.str s, rest) := by
  induction ss generalizing s with
  | nil =>
    have hvalue : readValue (n + 1) (stringChars s ++ ']' :: rest) = some (.str s, ']' :: rest) := by
      rw [readValue_string, joinPairs_pyStr]
    show readElements (n + 1 + 1) (stringChars s ++ ']' :: rest) = _
    rw [readElements, hvalue]
    rfl
  | cons t ss ih =>
    have hvalue : readValue (n + ss.length + 2) (stringChars s ++ ',' :: ' ' :: joined t ss rest) =
        some (.str s, ',' :: ' ' :: joined t ss rest) := by
      rw [readValue_string, joinPairs_pyStr]
    have hcomma : skipSpace (',' :: ' ' :: joined t ss rest) = ',' :: ' ' :: joined t ss rest :=
      skipSpace_cons (by decide) _
    have hspace : skipSpace (' ' :: joined t ss rest) = joined t ss rest := by
      cases ss <;> rfl
    show readElements (n + ss.length + 2 + 1) (stringChars s ++ ',' :: ' ' :: joined t ss rest) = _
    rw [readElements, hvalue]
    simp only [hcomma, hspace, ih t, Option.map_some, List.map_cons]

/-- The calendars read back as they were written. -/
theorem loadsList_dumpsStrings (ss : List String) : loadsList (dumpsStrings ss) = .ok (textList ss) := by
  cases ss with
  | nil => rfl
  | cons s ss =>
    have hread : parse ('[' :: joined s ss []) = some (.arr ((s :: ss).map fun s : String => Json.str s)) := by
      have hlength := length_joined s ss []
      obtain ⟨n, hn⟩ := Nat.exists_eq_add_of_le' (Nat.le_of_lt hlength)
      have helements := readElements_joined s ss [] (2 * n + ss.length + 1)
      have hfuel : 2 * ('[' :: joined s ss []).length + 2 = 2 * n + ss.length + 1 + ss.length + 2 + 1 := by
        rw [List.length_cons]
        omega
      have hhead : ∃ cs, joined s ss [] = '"' :: cs := by
        cases ss <;> exact ⟨_, rfl⟩
      obtain ⟨cs, hcs⟩ := hhead
      rw [parse, hfuel, skipSpace_cons (by decide), readValue, if_neg (by decide), if_pos rfl]
      rw [hcs] at helements ⊢
      rw [skipSpace_cons (by decide)]
      simp [helements]
      rfl
    have hmerge (xs : List String) : mergeElements (xs.map fun s : String => Json.str s) = xs.map fun s : String => Json.str s := by
      induction xs with
      | nil => rfl
      | cons x xs ih =>
        show mergeKeys (.str x) :: mergeElements (xs.map fun s : String => Json.str s) = _
        rw [ih]
        rfl
    have hof (xs : List String) : ofElements (xs.map fun s : String => Json.str s) = textList xs := by
      induction xs with
      | nil => rfl
      | cons x xs ih =>
        rw [List.map_cons, ofElements, ih]
        rfl
    rw [loadsList, dumpsStrings_cons, loads, String.toList_ofList, hread, Option.map_some, mergeKeys, hmerge]
    show pyList (.list (ofElements ((s :: ss).map fun s : String => Json.str s))) = _
    rw [hof]
    rfl

end Calendars

section Records

def anchorInstants (a : AnchorRecord) : ℤ × Option ℤ × Option ℤ :=
  (instantOf a.submittedAt, a.confirmedAt.map instantOf, a.tsaGenTime.map instantOf)

def witnessInstants (w : Witness) : ℤ × Option ℤ := (instantOf w.createdAt, w.retiredAt.map instantOf)

variable {d : Database}

/-- The record under this id reads back with the same instants. -/
def AnchorReads (d : Database) (a : AnchorRecord) : Prop :=
  ∃ row a', d.anchors.find? a.anchorId = some row ∧ rowToAnchor row = .ok a' ∧ anchorInstants a' = anchorInstants a

def WitnessReads (d : Database) (w : Witness) : Prop :=
  ∃ row w', d.witnesses.find? w.witnessId = some row ∧ rowToWitness row = .ok w' ∧
    witnessInstants w' = witnessInstants w

def AttestationReads (d : Database) (a : WitnessAttestation) : Prop :=
  ∃ row a', d.attestations.find? a.attestationId = some row ∧ rowToWitnessAttestation row = .ok a' ∧
    instantOf a'.signedAt = instantOf a.signedAt

/-- A row that was read for its record. -/
theorem AnchorReads.of_row {anchorId : ℤ} {row : AnchorRow} {a : AnchorRecord}
    (hfind : d.anchors.find? anchorId = some row) (hread : rowToAnchor row = .ok a) : AnchorReads d a := by
  refine ⟨row, a, ?_, hread, rfl⟩
  rw [(readFrom_of_rowToAnchor hread).anchorId]
  obtain ⟨hrow, hid⟩ := Table.find?_eq_some.mp hfind
  exact Table.find?_eq_some.mpr ⟨hrow, rfl⟩

theorem WitnessReads.of_row {witnessId : ℤ} {row : WitnessRow} {w : Witness}
    (hfind : d.witnesses.find? witnessId = some row) (hread : rowToWitness row = .ok w) : WitnessReads d w := by
  refine ⟨row, w, ?_, hread, rfl⟩
  rw [(rowToWitness_ok hread).1]
  obtain ⟨hrow, hid⟩ := Table.find?_eq_some.mp hfind
  exact Table.find?_eq_some.mpr ⟨hrow, rfl⟩

/-- The time of a token is stored as its instant in UTC. -/
theorem readTimeColumn?_genTime {token : Option TSAResponse} {text : Option String}
    (h : genTimeIso? token = .ok text) : ∃ t, readTimeColumn? text = .ok t ∧
      t.map instantOf = (token.map fun r => r.genTime.toDateTime).map instantOf := by
  cases token with
  | none =>
    cases h
    exact ⟨none, rfl, rfl⟩
  | some r =>
    obtain ⟨s, hs, htext⟩ := bind_ok h
    cases htext
    unfold genTimeIso at hs
    split at hs <;> cases hs
    rename_i c hc
    obtain ⟨hvalid, hinstant⟩ := instant_toUtc hc
    refine ⟨_, readTimeColumn?_padded hvalid, ?_⟩
    have hgiven : instantOf r.genTime.toDateTime = instant r.genTime.civil - r.genTime.offset := rfl
    rw [Option.map_some, Option.map_some, Option.map_some, hgiven, ← hinstant, instantOf]
    exact congrArg some (sub_zero _)

/-- A new anchor row reads back with the clock's reading and the token's time. -/
theorem rowToAnchor_new (chainHeadHash : String) (chainHeadEntryId : ℤ) (blob : Option Bytes) (t : UtcTime)
    (calendars : List String) {token : Option TSAResponse} {text : Option String} (tstBlob : Option Bytes)
    (tsaUrl : Option String) (anchorId : ℤ) (h : genTimeIso? token = .ok text) :
    ∃ a, rowToAnchor (NewAnchor.row ⟨chainHeadHash, chainHeadEntryId, blob, strftime t.civil, dumpsStrings calendars,
        tstBlob, tsaUrl, text⟩ anchorId) = .ok a ∧
      anchorInstants a = (instant t.civil, none, (token.map fun r => r.genTime.toDateTime).map instantOf) := by
  obtain ⟨genTime, hread, hinstant⟩ := readTimeColumn?_genTime h
  refine ⟨⟨anchorId, chainHeadHash, chainHeadEntryId, t.toDateTime, textList calendars, blob, none, none, none, tstBlob,
    tsaUrl, genTime⟩, ?_, Prod.ext (sub_zero _) (Prod.ext rfl hinstant)⟩
  simp only [rowToAnchor, NewAnchor.row, readTimeColumn_strftime, loadsList_dumpsStrings, hread]
  rfl

end Records

section Writers

variable {W : Type} {L : Libraries} {answers : Answers Request (Reply L) PyError W} {c : ConnId} {x y : Solo Database W}

/-- The clock gives this reading at some state of the world. -/
def Reading (answers : Answers Request (Reply L) PyError W) (t : UtcTime) : Prop := ∃ w, (answers .now w).1 = .ok t

theorem solo_now_ok {t : UtcTime} (h : solo answers c (now : Action L UtcTime) x = some (.ok t, y)) :
    Reading answers t ∧ y.view = x.view ∧ y.committed = x.committed := by
  obtain ⟨ht, rfl⟩ := solo_external_ok h
  exact ⟨⟨x.world, ht⟩, rfl, rfl⟩

theorem instantOf_utc (t : UtcTime) : instantOf t.toDateTime = instant t.civil := sub_zero _

/-- The time of the token that the anchor carries. -/
def TokenTime (L : Libraries) (a : AnchorRecord) : Prop :=
  match a.tstBlob with
  | none => a.tsaGenTime = none
  | some blob => ∃ response info, L.decodeTimestampResponse blob = .ok response ∧ response.tstInfo = some info ∧
      a.tsaGenTime.map instantOf = some (instantOf info.genTime.assumeUtc.toDateTime)

/-- The response has the time of its token. -/
def TokenRead (L : Libraries) (r : TSAResponse) : Prop :=
  ∃ response info, L.decodeTimestampResponse r.tstBlob = .ok response ∧ response.tstInfo = some info ∧
    r.genTime = info.genTime.assumeUtc

theorem submitToTsa_reads {digest : Bytes} {url : String} {r : TSAResponse}
    (h : solo answers c (submitToTsa L digest url : Action L TSAResponse) x = some (.ok r, y)) : TokenRead L r := by
  rw [submitToTsa_eq] at h
  cases hrequest : tsaRequest L digest url with
  | error e =>
    rw [hrequest] at h
    cases h
  | ok request =>
    rw [hrequest] at h
    obtain ⟨reply, x₁, -, hreply⟩ := exists_of_solo_bind h
    rw [solo_done] at hreply
    obtain ⟨status, body, -, hread⟩ := tsaOutcome_ok.mp (Prod.mk.inj (Option.some.inj hreply)).1
    obtain ⟨-, response, info, hdecode, -, hinfo, rfl⟩ := readTsaReply_ok.mp hread
    exact ⟨response, info, hdecode, hinfo, rfl⟩

/-- The track returns a token that one of the authorities has sent. -/
theorem submitTsaTrack_reads {digest : Bytes} {lastError : Option String} {urls : List String} {r : TSAResponse}
    {error : Option String}
    (h : solo answers c (submitTsaTrack (L := L) digest lastError urls) x = some (.ok (some r, error), y)) :
    TokenRead L r := by
  induction urls generalizing lastError x with
  | nil => cases h
  | cons url urls ih =>
    obtain ⟨reply, x₁, hsubmit, h⟩ := exists_of_solo_bind h
    rw [solo_attempt] at hsubmit
    obtain ⟨⟨outcome, z⟩, houtcome, heq⟩ := Option.map_eq_some_iff.mp hsubmit
    cases heq
    cases outcome with
    | ok response =>
      cases h
      exact submitToTsa_reads houtcome
    | error e =>
      cases e with
      | tsaError m => exact ih h
      | _ => cases h

theorem insertAnchor_reads {chainHeadHash : String} {chainHeadEntryId : ℤ} {blob : Option Bytes}
    {calendars : List String} {token : Option TSAResponse} {a : AnchorRecord} (htoken : ∀ r ∈ token, TokenRead L r)
    (h : solo answers c (insertAnchor chainHeadHash chainHeadEntryId blob calendars token : Action L _) x =
      some (.ok a, y)) :
    AnchorReads y.committed a ∧ TokenTime L a ∧
      ∃ t, Reading answers t ∧ instantOf a.submittedAt = instant t.civil := by
  unfold insertAnchor at h
  obtain ⟨db, x₁, -, h⟩ := exists_of_solo_bind h
  obtain ⟨t, x₂, hnow, h⟩ := exists_of_solo_bind h
  obtain ⟨text, x₃, hgen, h⟩ := exists_of_solo_bind h
  obtain ⟨n, x₄, hexecute, h⟩ := exists_of_solo_bind h
  obtain ⟨u, x₅, hcommit, h⟩ := exists_of_solo_bind h
  obtain ⟨v, hexec, rfl⟩ := solo_execute_ok hexecute
  obtain ⟨-, rfl, rfl⟩ := exec_insertAnchor hexec
  obtain rfl := solo_commit_ok hcommit
  cases h
  rw [solo_done] at hgen
  have htext : genTimeIso? token = .ok text := (Prod.mk.inj (Option.some.inj hgen)).1
  obtain ⟨a', hread, hinstants⟩ := rowToAnchor_new chainHeadHash chainHeadEntryId blob t calendars
    (token.map TSAResponse.tstBlob) (token.map TSAResponse.tsaUrl) x₃.view.anchors.nextKey htext
  refine ⟨⟨_, a', Table.find?_insertNew _ _ (NewAnchor.key_row _), hread, hinstants.trans ?_⟩, ?_, t,
    (solo_now_ok hnow).1, instantOf_utc t⟩
  · exact Prod.ext (instantOf_utc t).symm rfl
  · cases token with
    | none => rfl
    | some r =>
      obtain ⟨response, info, hdecode, hinfo, htime⟩ := htoken r rfl
      exact ⟨response, info, hdecode, hinfo, by rw [← htime]; rfl⟩

theorem anchor_reads {schedule ledgerSchedule : Option AnchorSchedule} {a : AnchorRecord}
    (h : solo answers c (Ledger.anchor (L := L) schedule ledgerSchedule) x = some (.ok (some a), y)) :
    AnchorReads y.committed a ∧ TokenTime L a ∧
      ∃ t, Reading answers t ∧ instantOf a.submittedAt = instant t.civil := by
  unfold Ledger.anchor at h
  split at h
  · obtain ⟨z, hbody, rfl⟩ := solo_withLock_ok h
    obtain ⟨latest, x₁, -, h⟩ := exists_of_solo_bind hbody
    cases latest with
    | none => cases h
    | some latest =>
      obtain ⟨digest, x₂, -, h⟩ := exists_of_solo_bind h
      obtain ⟨ots, x₃, -, h⟩ := exists_of_solo_bind h
      obtain ⟨tsa, x₄, htsa, h⟩ := exists_of_solo_bind h
      have htoken : ∀ r ∈ tsa.1, TokenRead L r := by
        intro r hr
        obtain ⟨token, error⟩ := tsa
        cases hr
        exact submitTsaTrack_reads htsa
      dsimp only at h
      split at h
      · cases h
      · obtain ⟨a', x₅, hinsert, h⟩ := exists_of_solo_bind h
        cases h
        have hreads := insertAnchor_reads htoken hinsert
        exact hreads
  · cases h

theorem getAnchor_reads {anchorId : ℤ} {db : ConnId} {a : AnchorRecord}
    (h : solo answers c (getAnchor anchorId db : Action L _) x = some (.ok a, y)) :
    y = x ∧ ∃ row, x.view.anchors.find? anchorId = some row ∧ rowToAnchor row = .ok a := by
  unfold getAnchor at h
  obtain ⟨d, x₁, hselect, h⟩ := exists_of_solo_bind h
  obtain ⟨rfl, rfl⟩ := solo_select_ok hselect
  split at h
  · rename_i row hrow
    rw [solo_done] at h
    obtain ⟨hread, rfl⟩ := Prod.mk.inj (Option.some.inj h)
    exact ⟨rfl, row, hrow, hread⟩
  · cases h

/-- The time that `confirm_anchor` writes: the fields of the one that it is given, or a reading of the clock. -/
def Confirmation (answers : Answers Request (Reply L) PyError W) (confirmedAt : Option DateTime) (time : Civil) :
    Prop :=
  match confirmedAt with
  | some t => time = t.civil
  | none => ∃ t, Reading answers t ∧ time = t.civil

theorem confirmAnchor_reads {anchorId height : ℤ} {blob : Bytes} {blockHash : Option String}
    {confirmedAt : Option DateTime} {a : AnchorRecord}
    (h : solo answers c (Ledger.confirmAnchor (L := L) anchorId blob height blockHash confirmedAt) x =
      some (.ok a, y)) :
    AnchorReads y.committed a ∧ ∃ time, Confirmation answers confirmedAt time ∧
      a.confirmedAt.map instantOf = some (instant time) := by
  unfold Ledger.confirmAnchor at h
  obtain ⟨time, x₁, htime, h⟩ := exists_of_solo_bind h
  obtain ⟨db, x₂, -, h⟩ := exists_of_solo_bind h
  obtain ⟨u, x₃, hlock, h⟩ := exists_of_solo_bind h
  obtain ⟨z, hwrite, rfl⟩ := solo_withLock_ok hlock
  obtain ⟨n, x₄, hexecute, hcommit⟩ := exists_of_solo_bind hwrite
  obtain ⟨v, hexec, rfl⟩ := solo_execute_ok hexecute
  obtain rfl := solo_commit_ok hcommit
  cases hexec
  obtain ⟨rfl, row', hfind, hread⟩ := getAnchor_reads h
  have htime : time.Valid ∧ Confirmation answers confirmedAt time := by
    cases confirmedAt with
    | some t =>
      cases htime
      exact ⟨t.valid.1, rfl⟩
    | none =>
      obtain ⟨t, x₅, hnow, htime⟩ := exists_of_solo_bind htime
      cases htime
      exact ⟨t.valid.1, t, (solo_now_ok hnow).1, rfl⟩
  refine ⟨.of_row hfind hread, time, htime.2, ?_⟩
  obtain ⟨row, hrow, rfl⟩ := Table.find?_update (AnchorRow.key_confirm _ _ _ _ _) hfind
  have hid : row.anchorId = anchorId := (Table.find?_eq_some.mp hrow).2
  rw [AnchorRow.confirm, if_pos hid, rowToAnchor] at hread
  obtain ⟨submittedAt, -, hread⟩ := bind_ok hread
  obtain ⟨calendars, -, hread⟩ := bind_ok hread
  obtain ⟨confirmed, hconfirmed, hread⟩ := bind_ok hread
  obtain ⟨genTime, -, hread⟩ := bind_ok hread
  cases hread
  rw [readTimeColumn?_padded htime.1] at hconfirmed
  cases hconfirmed
  exact congrArg some (sub_zero _)

theorem registerWitness_reads {label publicKeyHex role : String} {w : Witness}
    (h : solo answers c (Ledger.registerWitness (L := L) label publicKeyHex role) x = some (.ok w, y)) :
    WitnessReads y.committed w ∧ ∃ t, Reading answers t ∧ instantOf w.createdAt = instant t.civil := by
  unfold Ledger.registerWitness at h
  split at h
  · obtain ⟨db, x₁, -, h⟩ := exists_of_solo_bind h
    obtain ⟨t, x₂, hnow, h⟩ := exists_of_solo_bind h
    obtain ⟨witnessId, x₃, hlock, h⟩ := exists_of_solo_bind h
    obtain ⟨z, hwrite, rfl⟩ := solo_withLock_ok hlock
    obtain ⟨n, x₄, hexecute, hwrite⟩ := exists_of_solo_bind hwrite
    obtain ⟨u, x₅, hcommit, hwrite⟩ := exists_of_solo_bind hwrite
    obtain ⟨v, hexec, rfl⟩ := solo_execute_ok hexecute
    obtain ⟨-, -, rfl, rfl⟩ := exec_insertWitness hexec
    obtain rfl := solo_commit_ok hcommit
    cases hwrite
    cases h
    refine ⟨⟨_, ⟨_, label, publicKeyHex, role, t.toDateTime, none⟩,
      Table.find?_insertNew _ _ (NewWitness.key_row _), ?_, rfl⟩, t, (solo_now_ok hnow).1, instantOf_utc t⟩
    simp only [rowToWitness, NewWitness.row, readTimeColumn_strftime, readTimeColumn?]
    rfl
  · cases h

theorem getWitness_reads {witnessId : ℤ} {w : Witness}
    (h : solo answers c (getWitness witnessId : Action L _) x = some (.ok w, y)) :
    y = x ∧ ∃ row, x.view.witnesses.find? witnessId = some row ∧ rowToWitness row = .ok w := by
  unfold getWitness at h
  obtain ⟨db, x₁, hdb, h⟩ := exists_of_solo_bind h
  cases hdb
  obtain ⟨d, x₂, hselect, h⟩ := exists_of_solo_bind h
  obtain ⟨rfl, rfl⟩ := solo_select_ok hselect
  split at h
  · rename_i row hrow
    rw [solo_done] at h
    obtain ⟨hread, rfl⟩ := Prod.mk.inj (Option.some.inj h)
    exact ⟨rfl, row, hrow, hread⟩
  · cases h

/-- A witness that was not retired gets a reading of the clock. -/
theorem retireWitness_reads {witnessId : ℤ} {w : Witness}
    (h : solo answers c (Ledger.retireWitness (L := L) witnessId) x = some (.ok w, y)) :
    WitnessReads y.committed w ∧ ∀ row, x.view.witnesses.find? witnessId = some row → row.retiredAt = none →
      ∃ t, Reading answers t ∧ w.retiredAt.map instantOf = some (instant t.civil) := by
  unfold Ledger.retireWitness at h
  obtain ⟨db, x₁, hdb, h⟩ := exists_of_solo_bind h
  cases hdb
  obtain ⟨t, x₂, hnow, h⟩ := exists_of_solo_bind h
  obtain ⟨u, x₃, hlock, h⟩ := exists_of_solo_bind h
  obtain ⟨z, hwrite, rfl⟩ := solo_withLock_ok hlock
  obtain ⟨n, x₄, hexecute, hcommit⟩ := exists_of_solo_bind hwrite
  obtain ⟨v, hexec, rfl⟩ := solo_execute_ok hexecute
  obtain rfl := solo_commit_ok hcommit
  cases hexec
  obtain ⟨rfl, row', hfind, hread⟩ := getWitness_reads h
  obtain ⟨hreading, hview, -⟩ := solo_now_ok hnow
  refine ⟨.of_row hfind hread, fun row hrow hnone => ⟨t, hreading, ?_⟩⟩
  obtain ⟨row₁, hrow₁, rfl⟩ := Table.find?_update (WitnessRow.key_retire _ _) hfind
  have hrow₁ : x.view.witnesses.find? witnessId = some row₁ := by rwa [← hview]
  rw [hrow] at hrow₁
  cases hrow₁
  rw [WitnessRow.retire, if_pos ⟨(Table.find?_eq_some.mp hrow).2, hnone⟩, rowToWitness] at hread
  obtain ⟨retiredAt, hretired, hread⟩ := bind_ok hread
  obtain ⟨createdAt, -, hread⟩ := bind_ok hread
  cases hread
  rw [readTimeColumn?_strftime] at hretired
  cases hretired
  exact congrArg some (instantOf_utc t)

theorem attestWithWitness_reads {witnessId : ℤ} {signer : Signer} {a : WitnessAttestation}
    (h : solo answers c (Ledger.attestWithWitness (L := L) witnessId signer) x = some (.ok (some a), y)) :
    AttestationReads y.committed a ∧ ∃ t, Reading answers t ∧ instantOf a.signedAt = instant t.civil := by
  unfold Ledger.attestWithWitness at h
  obtain ⟨db, x₁, -, h⟩ := exists_of_solo_bind h
  obtain ⟨z, hbody, rfl⟩ := solo_withLock_ok h
  obtain ⟨w, x₂, -, h⟩ := exists_of_solo_bind hbody
  split at h
  · cases h
  split at h
  · cases h
  obtain ⟨latest, x₃, -, h⟩ := exists_of_solo_bind h
  cases latest with
  | none => cases h
  | some latest =>
    obtain ⟨previous, x₄, -, h⟩ := exists_of_solo_bind h
    obtain ⟨t, x₅, hnow, h⟩ := exists_of_solo_bind h
    obtain ⟨n, x₆, hexecute, h⟩ := exists_of_solo_bind h
    obtain ⟨u, x₇, hcommit, h⟩ := exists_of_solo_bind h
    obtain ⟨v, hexec, rfl⟩ := solo_execute_ok hexecute
    obtain ⟨-, -, rfl, rfl⟩ := exec_insertAttestation hexec
    obtain rfl := solo_commit_ok hcommit
    cases h
    refine ⟨⟨_, ⟨_, _, _, _, t.toDateTime, _, _, _⟩, Table.find?_insertNew _ _ (NewAttestation.key_row _), ?_, rfl⟩,
      t, (solo_now_ok hnow).1, instantOf_utc t⟩
    simp only [rowToWitnessAttestation, NewAttestation.row, readTimeColumn_strftime]
    rfl

/-- What a call returns reads back with the same instants, and they are the instants it was given: a reading
of the clock, the time of the token, or the time that `confirm_anchor` is called with. -/
def KeepsInstants (answers : Answers Request (Reply L) PyError W) (before after : Database) : Call → Result → Prop
  | .anchor _ _, .anchor (some a) =>
    AnchorReads after a ∧ TokenTime L a ∧ ∃ t, Reading answers t ∧ instantOf a.submittedAt = instant t.civil
  | .confirmAnchor _ _ _ _ none, .anchor (some a) =>
    AnchorReads after a ∧ ∃ t, Reading answers t ∧ a.confirmedAt.map instantOf = some (instant t.civil)
  | .confirmAnchor _ _ _ _ (some t), .anchor (some a) =>
    AnchorReads after a ∧ a.confirmedAt.map instantOf = some (instantOf t)
  | .registerWitness _ _ _, .witness w =>
    WitnessReads after w ∧ ∃ t, Reading answers t ∧ instantOf w.createdAt = instant t.civil
  | .retireWitness witnessId, .witness w =>
    WitnessReads after w ∧ ∀ row, before.witnesses.find? witnessId = some row → row.retiredAt = none →
      ∃ t, Reading answers t ∧ w.retiredAt.map instantOf = some (instant t.civil)
  | .attestWithWitness _ _, .attestation (some a) =>
    AttestationReads after a ∧ ∃ t, Reading answers t ∧ instantOf a.signedAt = instant t.civil
  | _, _ => True

/-- The call does not bring a time of another zone. -/
def GivenInUtc : Call → Prop
  | .confirmAnchor _ _ _ _ (some t) => t.offset.getD 0 = 0
  | _ => True

theorem confirmAnchor_keeps_iff {anchorId height : ℤ} {blob : Bytes} {blockHash : Option String}
    {t : DateTime} {a : AnchorRecord}
    (h : solo answers c (Ledger.confirmAnchor (L := L) anchorId blob height blockHash (some t)) x = some (.ok a, y)) :
    (AnchorReads y.committed a ∧ a.confirmedAt.map instantOf = some (instantOf t)) ↔ t.offset.getD 0 = 0 := by
  obtain ⟨hreads, time, rfl, hconfirmed⟩ := confirmAnchor_reads h
  rw [hconfirmed, Option.some.injEq, instantOf, and_iff_right hreads]
  omega

end Writers

section Examples

/-- An anchor of the first entry. -/
def anchored : Solo Database Unit :=
  let row : AnchorRow := ⟨1, "head", 1, some [], "2026-01-01T12:00:00.000000Z", "[]", none, none, none, none,
    none, none⟩
  let d := { Database.empty with anchors := ⟨[row], 1, List.pairwise_singleton _ _⟩ }
  ⟨d, d, false, ()⟩

def noAnswers : Answers Request (Reply offline) PyError Unit := unanswered .cancelled

/-- Noon in a zone two hours ahead. -/
def zonedNoon : AwareTime := ⟨noon.civil, 7200000000, noon.valid.1, by decide⟩

def confirmationAt (t : AwareTime) : Call := .confirmAnchor 1 [] 800000 none (some t.toDateTime)

end Examples

/-- Confirmed at noon two hours ahead of UTC, the anchor reads back as confirmed two hours later. -/
theorem zonedNoon_shifted : ∃ r y,
    solo noAnswers 0 (confirmationAt zonedNoon).body anchored = some (.ok r, y) ∧
    ¬ KeepsInstants noAnswers anchored.view y.committed (confirmationAt zonedNoon) r := by
  obtain ⟨a, y, h⟩ : ∃ a y, solo noAnswers 0
      (Ledger.confirmAnchor 1 [] 800000 none (some zonedNoon.toDateTime)) anchored = some (.ok a, y) :=
    ⟨_, _, rfl⟩
  refine ⟨.anchor (some a), y, ?_, fun hkeeps => ?_⟩
  · show solo _ _ (Ledger.confirmAnchor 1 [] 800000 none (some zonedNoon.toDateTime) >>= _) _ = _
    rw [solo_ok_bind h]
    rfl
  · exact absurd ((confirmAnchor_keeps_iff h).mp hkeeps) (by decide)

/-- Every call that returns keeps the instants of the times that it is given, exactly if it is not a call of
`confirm_anchor` with a time whose UTC offset is not zero. -/
theorem keepsInstants_iff {W : Type} {L : Libraries} (answers : Answers Request (Reply L) PyError W) (c : ConnId)
    (call : Call) (x y : Solo Database W) (r : Result)
    (h : solo answers c (call.body (L := L)) x = some (.ok r, y)) :
    KeepsInstants answers x.view y.committed call r ↔ GivenInUtc call := by
  cases call with
  | confirmAnchor anchorId blob height blockHash confirmedAt =>
    obtain ⟨a, z, hconfirm, hreturn⟩ := exists_of_solo_bind h
    cases hreturn
    cases confirmedAt with
    | some t => exact confirmAnchor_keeps_iff hconfirm
    | none =>
      obtain ⟨hreads, time, ⟨t, hreading, rfl⟩, hconfirmed⟩ := confirmAnchor_reads hconfirm
      exact iff_of_true ⟨hreads, t, hreading, hconfirmed⟩ trivial
  | anchor schedule ledgerSchedule =>
    obtain ⟨a, z, hanchor, hreturn⟩ := exists_of_solo_bind h
    cases hreturn
    cases a with
    | none => exact iff_of_true trivial trivial
    | some a => exact iff_of_true (anchor_reads hanchor) trivial
  | registerWitness label publicKeyHex role =>
    obtain ⟨w, z, hregister, hreturn⟩ := exists_of_solo_bind h
    cases hreturn
    exact iff_of_true (registerWitness_reads hregister) trivial
  | retireWitness witnessId =>
    obtain ⟨w, z, hretire, hreturn⟩ := exists_of_solo_bind h
    cases hreturn
    exact iff_of_true (retireWitness_reads hretire) trivial
  | attestWithWitness witnessId signer =>
    obtain ⟨a, z, hattest, hreturn⟩ := exists_of_solo_bind h
    cases hreturn
    cases a with
    | none => exact iff_of_true trivial trivial
    | some a => exact iff_of_true (attestWithWitness_reads hattest) trivial
  | log actor action payload signer eventType => exact iff_of_true trivial trivial
  | verifyChain verifier => exact iff_of_true trivial trivial
  | verifyWitnessAttestations verifier cursor => exact iff_of_true trivial trivial

/-- Confirmed at noon in UTC. -/
theorem keepsInstants_iff_noon : ∃ r y,
    solo noAnswers 0 (confirmationAt noon.toAware).body anchored = some (.ok r, y) ∧
    KeepsInstants noAnswers anchored.view y.committed (confirmationAt noon.toAware) r := by
  obtain ⟨r, y, h⟩ : ∃ r y, solo noAnswers 0 (confirmationAt noon.toAware).body anchored =
      some (.ok r, y) := ⟨_, _, rfl⟩
  exact ⟨r, y, h, (keepsInstants_iff noAnswers 0 _ anchored y r h).mpr rfl⟩

end NexusCone.StoredTimes
