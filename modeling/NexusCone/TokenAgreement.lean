import NexusCone.AnchorChecks
import NexusCone.GrowingVersions
import NexusCone.LedgerOperations
import NexusCone.SoloRun

/-!
# Tokens accepted on submission and tokens that verify

`submit_to_tsa` and `verify_tst` decode the same reply, and only the second compares the message
imprint with the digest. They agree exactly on replies whose imprint is the digest's SHA-256.
-/
namespace NexusCone.TokenAgreement
open HexBytes Sha256 IsoTime KeyedTable SharedFile AsyncProgram AsyncSystem RelyGuarantee GrowingVersions SoloRun PyValue
  LedgerSchema TimestampAuthority Ledger LedgerOperations LedgerRuns ExceptResults AnchorChecks

variable {W : Type} {L : Libraries}

section Platforms

variable [Platform]

/-- The request that `submit_to_tsa` sends. -/
def tsaRequest (L : Libraries) (digest : Bytes) (url : String) : Except PyError HttpRequest := do
  newRequest url (← L.timestampRequest digest)

/-- What `submit_to_tsa` makes of the outcome of its HTTP exchange. -/
def tsaOutcome (L : Libraries) (url : String) : Except PyError (ℤ × Bytes) → Except PyError TSAResponse
  | .ok (status, body) => readTsaReply L url status body
  | .error e =>
    if e.isException then .error (.tsaError (s!"TSA HTTP submission failed for {url}: " ++ e.repr))
    else .error e

theorem submitToTsa_eq (digest : Bytes) (url : String) : (submitToTsa L digest url : Action L TSAResponse) =
    match tsaRequest L digest url with
    | .error e => .done (.error e)
    | .ok request => (Prog.external (Request.urlopen request)).attempt >>= fun reply =>
        .done (tsaOutcome L url reply) := by
  unfold submitToTsa
  cases hder : L.timestampRequest digest with
  | error e =>
    have hrequest : tsaRequest L digest url = .error e := by rw [tsaRequest, hder]; rfl
    rw [hrequest]
    rfl
  | ok der =>
    have hrequest : tsaRequest L digest url = newRequest url der := by
      rw [tsaRequest, hder]
      exact pure_bind der _
    rw [hrequest, Prog.ok_bind]
    cases newRequest url der with
    | error e => rfl
    | ok request =>
      rw [Prog.ok_bind]
      refine congrArg ((Prog.external (Request.urlopen request)).attempt >>= ·) (funext fun reply => ?_)
      rcases reply with e | ⟨status, body⟩
      · simp only [tsaOutcome]
        split <;> rfl
      · rfl

/-- A world that gives every HTTP request the same outcome. -/
def tsaReplies (L : Libraries) (reply : Except PyError (ℤ × Bytes)) : Answers Request (Reply L) PyError Unit
  | .urlopen _, w => (reply, w)
  | _, w => (.error (.other "ConnectionError" ""), w)

/-- Whatever token `submit_to_tsa` returns on the reply verifies to the same response. -/
def Agrees (L : Libraries) (digest : Bytes) (url : String) (reply : Except PyError (ℤ × Bytes)) : Prop :=
  ∀ c x r y, solo (tsaReplies L reply) c (submitToTsa L digest url : Action L TSAResponse) x = some (.ok r, y) →
    verifyTst L r.tstBlob digest r.tsaUrl = .ok r

/-- A reply that would be accepted has the SHA-256 of the digest as its imprint. -/
def ImprintMatches (L : Libraries) (digest : Bytes) (reply : Except PyError (ℤ × Bytes)) : Prop :=
  ∀ body response info, reply = .ok (200, body) → L.decodeTimestampResponse body = .ok response →
    granted response.status → response.tstInfo = some info →
    info.hashAlgorithm = sha256Oid ∧ info.message = sha256 digest

omit [Platform] in
theorem readTsaReply_ok {url : String} {status : ℤ} {body : Bytes} {r : TSAResponse} :
    readTsaReply L url status body = .ok r ↔ status = 200 ∧ ∃ response info,
      L.decodeTimestampResponse body = .ok response ∧ granted response.status ∧
      response.tstInfo = some info ∧
      r = ⟨body, url, info.genTime.assumeUtc, info.hashAlgorithm, toString info.serialNumber⟩ := by
  unfold readTsaReply
  split_ifs with hs
  · simp [hs]
  · cases hd : L.decodeTimestampResponse body with
    | error e => simp
    | ok response =>
      dsimp only
      cases hg : granted response.status with
      | false => simp [hg]
      | true =>
        cases hi : response.tstInfo with
        | none => simp [hi]
        | some info =>
          simp only [Bool.not_true, Bool.false_eq_true, if_false, Except.ok.injEq]
          constructor
          · rintro rfl
            exact ⟨not_not.mp hs, response, info, rfl, hg, hi, rfl⟩
          · rintro ⟨-, response', info', hr, -, hi', rfl⟩
            cases hr
            rw [hi] at hi'
            cases hi'
            rfl

omit [Platform] in
theorem verifyTst_ok {blob digest : Bytes} {url : String} {r : TSAResponse} :
    verifyTst L blob digest url = .ok r ↔ ∃ response info,
      L.decodeTimestampResponse blob = .ok response ∧ granted response.status ∧
      response.tstInfo = some info ∧ info.hashAlgorithm = sha256Oid ∧ info.message = sha256 digest ∧
      r = ⟨blob, url, info.genTime.assumeUtc, info.hashAlgorithm, toString info.serialNumber⟩ := by
  unfold verifyTst
  cases hd : L.decodeTimestampResponse blob with
  | error e => simp
  | ok response =>
    dsimp only
    cases hg : granted response.status with
    | false => simp [hg]
    | true =>
      cases hi : response.tstInfo with
      | none => simp [hi]
      | some info =>
        simp only [Bool.not_true, Bool.false_eq_true, if_false]
        split_ifs with ha hm
        · simp [hi, ha]
        · simp [hi, Ne.symm hm]
        · constructor
          · intro h
            cases h
            exact ⟨response, info, rfl, hg, hi, not_not.mp ha, (not_not.mp hm).symm, rfl⟩
          · rintro ⟨response', info', hr, -, hi', -, -, rfl⟩
            cases hr
            rw [hi] at hi'
            cases hi'
            rfl

omit [Platform] in
theorem tsaOutcome_ok {url : String} {reply : Except PyError (ℤ × Bytes)} {r : TSAResponse} :
    tsaOutcome L url reply = .ok r ↔ ∃ status body, reply = .ok (status, body) ∧
      readTsaReply L url status body = .ok r := by
  rcases reply with e | ⟨status, body⟩
  · refine iff_of_false ?_ (by simp)
    simp only [tsaOutcome]
    split <;> simp
  · constructor
    · exact fun h => ⟨status, body, rfl, h⟩
    · rintro ⟨_, _, h, hr⟩
      cases h
      exact hr

omit [Platform] in
/-- An accepted token verifies exactly when its imprint is the digest's. -/
theorem verifies_iff {digest : Bytes} (url : String) {reply : Except PyError (ℤ × Bytes)} :
    (∀ r, tsaOutcome L url reply = .ok r → verifyTst L r.tstBlob digest r.tsaUrl = .ok r) ↔
      ImprintMatches L digest reply := by
  constructor
  · rintro h body response info rfl hd hg hi
    have hr := h _ (tsaOutcome_ok.mpr ⟨200, body, rfl, readTsaReply_ok.mpr ⟨rfl, response, info, hd, hg, hi, rfl⟩⟩)
    obtain ⟨response', info', hd', -, hi', ha, hm, -⟩ := verifyTst_ok.mp hr
    rw [hd] at hd'
    cases hd'
    rw [hi] at hi'
    cases hi'
    exact ⟨ha, hm⟩
  · intro h r hr
    obtain ⟨status, body, rfl, hread⟩ := tsaOutcome_ok.mp hr
    obtain ⟨rfl, response, info, hd, hg, hi, rfl⟩ := readTsaReply_ok.mp hread
    obtain ⟨ha, hm⟩ := h body response info rfl hd hg hi
    exact verifyTst_ok.mpr ⟨response, info, hd, hg, hi, ha, hm, rfl⟩

theorem solo_submitToTsa {reply : Except PyError (ℤ × Bytes)} {digest : Bytes} {url : String} {c : ConnId}
    {x : Solo Database Unit} :
    solo (tsaReplies L reply) c (submitToTsa L digest url : Action L TSAResponse) x =
      match tsaRequest L digest url with
      | .error e => some (.error e, x)
      | .ok _ => some (tsaOutcome L url reply, x) := by
  rw [submitToTsa_eq]
  cases tsaRequest L digest url <;> rfl

theorem agrees_iff {digest : Bytes} {url : String} {reply : Except PyError (ℤ × Bytes)} :
    Agrees L digest url reply ↔ (∀ request, tsaRequest L digest url = .ok request → ImprintMatches L digest reply) := by
  rw [← verifies_iff url]
  constructor
  · intro h request hrequest r hr
    refine h 0 ⟨.empty, .empty, false, ()⟩ r ⟨.empty, .empty, false, ()⟩ ?_
    rw [solo_submitToTsa, hrequest, hr]
  · intro h c x r y hsolo
    rw [solo_submitToTsa] at hsolo
    cases hrequest : tsaRequest L digest url with
    | error e => simp [hrequest] at hsolo
    | ok request =>
      simp only [hrequest, Option.some.injEq, Prod.mk.injEq] at hsolo
      exact h request hrequest r hsolo.1

section Runs

/-- The authority's reply to a request is a token for the data the request was built from. -/
def HonestReplies (L : Libraries) :
    Op Statement Request → Outcome Request (Reply L) PyError W → Shared Database Statement W → Prop
  | .external (.urlopen request), .answer f _, _ =>
    ∀ digest, L.timestampRequest digest = .ok request.data → ImprintMatches L digest (f (.urlopen request))
  | _, _, _ => True

def honestReplies : LedgerRules L W :=
  ⟨fun _ _ => True, fun _ _ => HonestReplies L, fun _ _ => True, fun _ _ => True⟩

/-- Every stored token verifies against its row's chain head. -/
def TokensStand (L : Libraries) (d : Database) : Prop :=
  ∀ row ∈ d.anchors.rows, row.tstBlob.isSome → TokenStands L row

def tokenGrowth (L : Libraries) : Growth Database Statement :=
  ⟨fun v => TokensStand L v.data, fun _ _ => True, fun _ => trivial, fun _ _ => trivial⟩

variable {i : InstId} {t : TaskId} {σ : Shared Database Statement W}

abbrev KeepsTokens (i : InstId) (t : TaskId) {α : Type} (p : Action L α)
    (post : α → Shared Database Statement W → Prop) (σ : Shared Database Statement W) : Prop :=
  (tokenGrowth L).Keeps (fun _ _ => HonestReplies L) i t p post σ

theorem newRequest_data {url : String} {der : Bytes} {request : HttpRequest}
    (h : newRequest url der = .ok request) : request.data = der := by
  unfold newRequest at h
  split at h
  · rw [← Except.ok.inj h]
  · cases h

theorem tsaRequest_accepted {digest der : Bytes} {url : String} (hder : L.timestampRequest digest = .ok der)
    (hurl : requestError url = none) : ∃ request, tsaRequest L digest url = .ok request := by
  refine ⟨⟨fullUrl url, der, timestampQueryContentType⟩, ?_⟩
  simp only [tsaRequest, hder, newRequest, hurl, bind, Except.bind]

theorem tsaRequest_data {digest : Bytes} {url : String} {request : HttpRequest}
    (h : tsaRequest L digest url = .ok request) : L.timestampRequest digest = .ok request.data := by
  obtain ⟨der, hder, h⟩ := bind_ok h
  rw [newRequest_data h]
  exact hder

theorem keeps_submitToTsa (digest : Bytes) (url : String) :
    KeepsTokens i t (submitToTsa L digest url)
      (fun r _ => verifyTst L r.tstBlob digest r.tsaUrl = .ok r) σ := by
  rw [submitToTsa_eq]
  cases hrequest : tsaRequest L digest url with
  | error e => exact Growth.Keeps.raise
  | ok request =>
    have hreply (reply : Except PyError (ℤ × Bytes)) (hm : ImprintMatches L digest reply)
        (σ : Shared Database Statement W) : KeepsTokens i t (.done (tsaOutcome L url reply) : Action L TSAResponse)
          (fun r _ => verifyTst L r.tstBlob digest r.tsaUrl = .ok r) σ := by
      cases ho : tsaOutcome L url reply with
      | error e => exact Growth.Keeps.raise
      | ok r => exact Growth.Keeps.pure fun _ _ => (verifies_iff url).mpr hm r ho
    refine Growth.Keeps.attempt (Growth.Keeps.answer.mono ?_) fun e σ' => hreply _ ?_ σ'
    · rintro p σ' - ⟨f, w, σ₁, henv, hf⟩
      refine hreply _ ?_ σ'
      rw [← hf]
      exact henv digest (tsaRequest_data hrequest)
    · rintro body response info ⟨⟩

theorem keeps_submitTsaTrack (digest : Bytes) (lastError : Option String) (urls : List String) :
    KeepsTokens i t (submitTsaTrack (L := L) digest lastError urls)
      (fun p _ => ∀ r, p.1 = some r → verifyTst L r.tstBlob digest r.tsaUrl = .ok r) σ := by
  induction urls generalizing lastError σ with
  | nil => exact Growth.Keeps.pure fun _ _ r h => by cases h
  | cons url urls ih =>
    refine Growth.Keeps.attempt ((keeps_submitToTsa digest url).mono ?_) fun e σ' => ?_
    · intro r σ' _ hr
      refine Growth.Keeps.pure fun _ _ r' h => ?_
      cases h
      exact hr
    · cases e with
      | tsaError m => exact ih _
      | _ => exact Growth.Keeps.raise

theorem keeps_insertAnchor {chainHeadHash : String} {head : Bytes} (hhead : fromHex chainHeadHash = some head)
    {tsaResponse : Option TSAResponse}
    (hr : ∀ r, tsaResponse = some r → verifyTst L r.tstBlob head r.tsaUrl = .ok r) (chainHeadEntryId : ℤ)
    (otsProofBlob : Option Bytes) (calendarServers : List String) :
    KeepsTokens i t (insertAnchor (L := L) chainHeadHash chainHeadEntryId otsProofBlob calendarServers
      tsaResponse) (fun _ _ => True) σ := by
  unfold insertAnchor requireDb now
  refine Growth.Keeps.connection fun c σ₁ _ _ hown => ?_
  refine Growth.Keeps.external fun submittedAt σ₂ hg₂ => ?_
  cases genTimeIso? tsaResponse with
  | error e => exact Growth.Keeps.raise
  | ok iso =>
    have hseen : (tokenGrowth L).Seen c (σ₂.file.view c) σ₂ := ⟨(hown.rewired hg₂.rewired).1, fun _ => trivial⟩
    refine Growth.Keeps.execute hseen ?_ ?_
    · intro σ₃ o d n hg₃ hi₃ _ _ _ hex _
      obtain ⟨-, -, rfl⟩ := exec_insertAnchor hex
      refine ⟨fun row hrow htst => ?_, trivial⟩
      rcases List.mem_append.mp hrow with hrow | hrow
      · exact (hi₃.view c).1 row hrow htst
      · cases List.mem_singleton.mp hrow
        obtain ⟨r, rfl⟩ : ∃ r, tsaResponse = some r := by
          cases tsaResponse with
          | none => cases htst
          | some r => exact ⟨r, rfl⟩
        exact ⟨r.tstBlob, head, r, rfl, hhead, hr r rfl⟩
    · intro σ₃ v n _ hseen₃ _ _
      exact Growth.Keeps.commit hseen₃ fun σ₄ _ _ => Growth.Keeps.pure fun _ _ => trivial

theorem keeps_anchor (schedule ledgerSchedule : Option AnchorSchedule) :
    KeepsTokens i t (Ledger.anchor (L := L) schedule ledgerSchedule) (fun _ _ => True) σ := by
  have hr : AllowsReads (Op.isRead : Op Statement Request → Prop) := allowsReads_isRead
  unfold Ledger.anchor
  split
  · refine Growth.Keeps.withLock (fun _ _ _ _ _ => trivial) fun σ₁ _ => ?_
    refine Growth.Keeps.reads (uses_getLatestEntry hr) fun latest σ₂ _ => ?_
    cases latest with
    | none => exact Growth.Keeps.pure fun _ _ => trivial
    | some e =>
      cases hhead : fromHex e.entryHash with
      | none => simp only [bytesFromHex, hhead]; exact Growth.Keeps.raise
      | some head =>
        simp only [bytesFromHex, hhead, Prog.ok_bind]
        refine Growth.Keeps.reads (uses_submitOtsTrack hr _ _) fun ots σ₃ _ => ?_
        refine Growth.Keeps.bind ((keeps_submitTsaTrack head _ _).mono fun tsa σ₄ _ htsa => ?_)
        split
        · exact Growth.Keeps.raise
        · refine Growth.Keeps.bind ((keeps_insertAnchor hhead htsa _ _ _).mono fun _ _ _ _ => ?_)
          exact Growth.Keeps.pure fun _ _ => trivial
  · exact Growth.Keeps.raise

def NotAnchor : Statement → Prop
  | .insertAnchor _ => False
  | _ => True

omit [Platform] in
theorem tokensStand_exec {s : Statement} (hs : NotAnchor s) {d d' : Database} {n : ℤ} (h : TokensStand L d)
    (hex : exec s d = .ok (d', n)) : TokensStand L d' := by
  cases s with
  | insertAnchor a => exact hs.elim
  | insertEntry row =>
    obtain ⟨tb, -, -, rfl⟩ := exec_insertEntry hex
    exact h
  | insertWitness w =>
    obtain ⟨-, -, -, rfl⟩ := exec_insertWitness hex
    exact h
  | insertAttestation a =>
    obtain ⟨-, -, -, rfl⟩ := exec_insertAttestation hex
    exact h
  | retireWitness witnessId retiredAt =>
    cases hex
    exact h
  | confirmAnchor anchorId blob height blockHash confirmedAt =>
    cases hex
    intro row' hrow htst
    obtain ⟨row, hmem, rfl⟩ := List.mem_map.mp hrow
    have hkeep : ∀ row : AnchorRow, (row.confirm anchorId blob height blockHash confirmedAt).tstBlob = row.tstBlob ∧
        (row.confirm anchorId blob height blockHash confirmedAt).chainHeadHash = row.chainHeadHash ∧
        (row.confirm anchorId blob height blockHash confirmedAt).tsaUrl = row.tsaUrl := by
      intro row
      unfold AnchorRow.confirm
      split <;> exact ⟨rfl, rfl, rfl⟩
    obtain ⟨ht, hh, hu⟩ := hkeep row
    rw [ht] at htst
    unfold TokenStands
    rw [ht, hh, hu]
    exact h row hmem htst

theorem keeps_body (call : Call) : KeepsTokens i t (call.body (L := L)) (fun _ _ => True) σ := by
  have hother {call : Call} (ha : Admits NotAnchor call) : KeepsTokens i t (call.body (L := L)) (fun _ _ => True) σ :=
    (Growth.Keeps.of_uses (guarded_body ha).uses (Growth.Grows.refl σ) fun s v d n hs hv hex =>
      ⟨tokensStand_exec hs hv hex, trivial⟩).mono fun _ _ _ _ => trivial
  cases call with
  | anchor schedule ledgerSchedule =>
    refine Growth.Keeps.bind ((keeps_anchor schedule ledgerSchedule).mono fun _ _ _ _ => ?_)
    exact Growth.Keeps.pure fun _ _ => trivial
  | _ => exact hother (admits_of_mayIssue fun s hs => by cases s <;> trivial)

/-- Runs with honest authorities store only tokens that verify. -/
theorem tokensStand_of_run {d : Database} (hd : TokensStand L d) {w : W} {s : LedgerSys L W}
    (hrun : LedgerRun honestReplies (startSys d w) s) : TokensStand L s.shared.file.committed.data := by
  have hv : Verified ((tokenGrowth L).protocol W) honestReplies Call.body (fun _ _ _ _ _ => True)
      (fun _ _ _ _ => True) := Growth.verified fun _ _ _ _ _ _ _ => keeps_body _
  have hstart : Good ((tokenGrowth L).protocol W) honestReplies (fun _ _ _ _ _ => True) (fun _ _ _ _ => True)
      (startSys d w : LedgerSys L W) := by
    refine Good.start ⟨wired_start d w, hd, ?_⟩ (fresh_start d w)
    rintro p ⟨⟩
  exact (hv.run hstart hrun).1.inv.committed

end Runs

end Platforms

section Examples

/-- A decoder that takes the body for the imprint of a granted token. -/
def mirror : Libraries :=
  { offline with
    timestampRequest := .ok
    decodeTimestampResponse := fun body => .ok ⟨0, some ⟨noon.toDateTime, sha256Oid, body, 7⟩⟩ }

theorem mirror_request : ∃ request, tsaRequest mirror [0] "https://tsa.example/" = .ok request :=
  tsaRequest_accepted rfl (by decide +kernel)

def anchoredDatabase : Database :=
  { Database.empty with
    anchors := ⟨[⟨1, "00", 1, none, strftime noon.civil, "[]", none, none, none, some (sha256 [0]),
      some "https://tsa.example/", none⟩], 1, List.pairwise_singleton _ _⟩ }

theorem tokensStand_anchored : TokensStand mirror anchoredDatabase := by
  intro row hrow _
  cases List.mem_singleton.mp hrow
  have hhead : fromHex "00" = some [0] := by decide
  exact ⟨sha256 [0], [0], _, rfl, hhead, verifyTst_ok.mpr ⟨_, _, rfl, rfl, rfl, rfl, rfl, rfl⟩⟩

/-- An entry with the hash `00`, and one anchor of it. -/
def anchoredEntry : Database :=
  { anchoredDatabase with
    entries := ⟨[⟨1, strftime noon.civil, "a", "act", "request", 2, "{}", EntryChain.genesisPreviousHash, "00", none,
      none⟩], 1, List.pairwise_singleton _ _⟩ }

/-- The authority signs the hash of what it is sent. -/
def signing : Outcome Request (Reply mirror) PyError Unit := .answer (fun
  | .now => .ok noon
  | .submitToCalendar _ _ => .error (.other "URLError" "offline")
  | .urlopen request => .ok (200, sha256 request.data)) ()

def anchorEvents : List (Event Request (Reply mirror) PyError Unit Call) :=
  [.connect 0, .call 0 (.anchor (some ⟨[], ["https://tsa.example/"], true⟩) none), .run 0 .ok, .run 0 .ok, .run 0 .ok,
    .run 0 signing, .run 0 .ok, .run 0 signing, .run 0 .ok, .run 0 .ok, .run 0 .ok]

theorem allowed_anchorEvents {e : Event Request (Reply mirror) PyError Unit Call} (he : e ∈ anchorEvents)
    (s : LedgerSys mirror Unit) : honestReplies.Allows s e := by
  have hsigning (i : InstId) (t : TaskId) (op : Op Statement Request) :
      (honestReplies (L := mirror)).env i t op signing s.shared := by
    cases op with
    | external q =>
      cases q with
      | urlopen request =>
        rintro digest hdigest body response info hreply hd - hi
        cases hdigest
        cases hreply
        cases hd
        cases hi
        exact ⟨rfl, rfl⟩
      | _ => trivial
    | _ => trivial
  have hok (i : InstId) (t : TaskId) (op : Op Statement Request) :
      (honestReplies (L := mirror)).env i t op .ok s.shared := by
    cases op with
    | external q => cases q <;> trivial
    | _ => trivial
  simp only [anchorEvents, List.mem_cons, List.not_mem_nil, or_false] at he
  rcases he with rfl | rfl | rfl | rfl | rfl | rfl | rfl | rfl | rfl | rfl | rfl
  · trivial
  · trivial
  all_goals
    intro i call op k _
    first | exact hsigning i 0 op | exact hok i 0 op

end Examples
end NexusCone.TokenAgreement
