import NexusCone.ChainSafety
import NexusCone.TokenAgreement

/-!
# The two anchor tracks

`anchor` alone, with an assigned outcome for every submission of its schedule. A calendar may
fail in any way; a time-stamp authority may fail in any way after its request has been built.
-/
namespace NexusCone.AnchorTracks
open HexBytes IsoTime KeyedTable SharedFile AsyncProgram AsyncSystem SoloRun PyValue LedgerSchema EntryChain
  TimestampAuthority Ledger LedgerRuns LedgerGrowth ChainSafety ExceptResults AnchorChecks TokenAgreement

variable {L : Libraries}

section Platforms

variable [Platform]

/-- A calendar or authority of the schedule with what its submission meets. -/
abbrev Assigned (α : Type) := List (String × Except PyError α)

/-- The outcomes still to come, and the clock. -/
structure Pending (L : Libraries) where
  calendars : List (Except PyError L.Timestamp)
  tsas : List (Except PyError (ℤ × Bytes))
  clock : UtcTime

def assigned (L : Libraries) : Answers Request (Reply L) PyError (Pending L)
  | .now, w => (.ok w.clock, w)
  | .submitToCalendar _ _, w =>
    match w.calendars with
    | o :: os => (o, { w with calendars := os })
    | [] => (.error (.other "URLError" ""), w)
  | .urlopen _, w =>
    match w.tsas with
    | o :: os => (o, { w with tsas := os })
    | [] => (.error (.other "URLError" ""), w)

/-- The failures are such as `except Exception` catches. -/
def Exceptions {α : Type} (outcomes : Assigned α) : Prop :=
  ∀ p ∈ outcomes, ∀ e, p.2 = .error e → e.isException

/-- The calendars that accept, with their timestamps. -/
def accepted (calendars : Assigned L.Timestamp) : List (String × L.Timestamp) :=
  calendars.filterMap fun p => match p.2 with
    | .ok stamp => some (p.1, stamp)
    | .error _ => none

def mergeAll (L : Libraries) (ts : L.Timestamp) (stamps : List L.Timestamp) : Except PyError L.Timestamp :=
  stamps.foldlM L.merge ts

/-- What the client libraries do on timestamps of one message and on any digest. -/
structure LibrariesWork (L : Libraries) (message : L.Timestamp → Bytes) : Prop where
  requests : ∀ digest, ∃ der, L.timestampRequest digest = .ok der
  fresh : ∀ digest, message (L.newTimestamp digest) = digest
  merges : ∀ a b, message a = message b → ∃ m, L.merge a b = .ok m ∧ message m = message a
  serializes : ∀ a, ∃ blob, L.serialize a = .ok blob

/-- The blob is the serialised merge of the timestamps, or none where no calendar accepts. -/
def ProofOf (L : Libraries) (digest : Bytes) (stamps : List (String × L.Timestamp)) (blob : Option Bytes) : Prop :=
  if stamps = [] then blob = none
  else ∃ m b, mergeAll L (L.newTimestamp digest) (stamps.map Prod.snd) = .ok m ∧ L.serialize m = .ok b ∧
    blob = some b

section Calendars

variable {message : L.Timestamp → Bytes} {calendars : Assigned L.Timestamp}

omit [Platform] in
theorem LibrariesWork.mergeAll_ok (hL : LibrariesWork L message) (ts : L.Timestamp) {stamps : List L.Timestamp}
    (h : ∀ stamp ∈ stamps, message stamp = message ts) : ∃ m, mergeAll L ts stamps = .ok m := by
  induction stamps generalizing ts with
  | nil => exact ⟨ts, rfl⟩
  | cons stamp stamps ih =>
    obtain ⟨hstamp, hstamps⟩ := List.forall_mem_cons.mp h
    obtain ⟨m, hm, hmessage⟩ := hL.merges ts stamp hstamp.symm
    obtain ⟨m', hm'⟩ := ih m fun s hs => (hstamps s hs).trans hmessage.symm
    refine ⟨m', ?_⟩
    rw [mergeAll, List.foldlM_cons, hm]
    exact hm'

omit [Platform] in
theorem solo_submitToCalendars {c : ConnId} (digest : Bytes) {merged m : L.Timestamp} (successful : List String)
    (errors : List (String × String)) {x : Solo Database (Pending L)} (hexc : Exceptions calendars)
    (hm : mergeAll L merged ((accepted calendars).map Prod.snd) = .ok m)
    (hx : x.world.calendars = calendars.map Prod.snd) :
    ∃ errors', solo (assigned L) c (submitToCalendars digest merged successful errors (calendars.map Prod.fst)) x =
      some (.ok (m, successful ++ (accepted calendars).map Prod.fst, errors'),
        { x with world := { x.world with calendars := [] } }) := by
  induction calendars generalizing merged successful errors x with
  | nil =>
    cases hm
    refine ⟨errors, ?_⟩
    have hx' : ({ x with world := { x.world with calendars := [] } } : Solo Database (Pending L)) = x := by
      rw [← show x.world.calendars = [] from hx]
    rw [hx', accepted, List.filterMap_nil, List.map_nil, List.map_nil, List.append_nil]
    rfl
  | cons p calendars ih =>
    obtain ⟨url, outcome⟩ := p
    obtain ⟨hhead, htail⟩ := List.forall_mem_cons.mp hexc
    let next : Solo Database (Pending L) := { x with world := { x.world with calendars := calendars.map Prod.snd } }
    have hsubmit : solo (assigned L) c
        ((Prog.external (Request.submitToCalendar url digest)).attempt : Action L (Except PyError L.Timestamp)) x =
        some (.ok outcome, next) := by
      rw [solo_attempt]
      simp only [Prog.external, solo, assigned, hx, List.map_cons, Option.map_some, next]
    rw [List.map_cons, submitToCalendars, solo_ok_bind hsubmit]
    cases outcome with
    | ok stamp =>
      obtain ⟨merged', hmerge, hm⟩ := bind_ok hm
      obtain ⟨errors', hrest⟩ := ih _ _ (x := next) htail hm rfl
      refine ⟨errors', ?_⟩
      dsimp only
      rw [hmerge, Prog.ok_bind, hrest, List.append_assoc]
      rfl
    | error e =>
      obtain ⟨errors', hrest⟩ := ih _ _ (x := next) htail hm rfl
      refine ⟨errors', ?_⟩
      dsimp only
      rw [if_pos (hhead e rfl), hrest]
      rfl

omit [Platform] in
theorem solo_submitOtsTrack (hL : LibrariesWork L message) {c : ConnId} {digest : Bytes}
    {x : Solo Database (Pending L)} (hexc : Exceptions calendars)
    (hmessage : ∀ p ∈ accepted calendars, message p.2 = digest) (hx : x.world.calendars = calendars.map Prod.snd) :
    ∃ blob errors, solo (assigned L) c (submitOtsTrack digest (calendars.map Prod.fst)) x =
        some (.ok ((accepted calendars).map Prod.fst, blob, errors),
          { x with world := { x.world with calendars := [] } }) ∧
      ProofOf L digest (accepted calendars) blob := by
  have hstamps : ∀ stamp ∈ (accepted calendars).map Prod.snd, message stamp = message (L.newTimestamp digest) := by
    intro stamp hstamp
    obtain ⟨p, hp, rfl⟩ := List.mem_map.mp hstamp
    exact (hmessage p hp).trans (hL.fresh digest).symm
  obtain ⟨m, hm⟩ := hL.mergeAll_ok _ hstamps
  obtain ⟨blob, hblob⟩ := hL.serializes m
  obtain ⟨errors, hsolo⟩ := solo_submitToCalendars (c := c) digest [] [] hexc hm hx
  rw [submitOtsTrack, solo_ok_bind hsolo]
  dsimp only
  rw [List.nil_append]
  by_cases hnone : accepted calendars = []
  · refine ⟨none, errors, ?_, ?_⟩
    · rw [hnone]
      rfl
    · rw [ProofOf, if_pos hnone]
  · refine ⟨some blob, errors, ?_, ?_⟩
    · rw [if_neg (by simpa using hnone), hblob]
      rfl
    · rw [ProofOf, if_neg hnone]
      exact ⟨m, blob, hm, hblob, rfl⟩

end Calendars

section Authorities

variable (L) in
/-- What one attempt on a time-stamp authority comes to. -/
def attempt (digest : Bytes) (url : String) (reply : Except PyError (ℤ × Bytes)) : Except PyError TSAResponse := do
  let _ ← tsaRequest L digest url
  tsaOutcome L url reply

variable (L) in
/-- The response of the first authority of the schedule that succeeds. -/
def firstToken (digest : Bytes) (tsas : Assigned (ℤ × Bytes)) : Option TSAResponse :=
  tsas.findSome? fun p => (attempt L digest p.1 p.2).toOption

variable (L) in
/-- No URL up to the first authority that succeeds is one that `Request` rejects. -/
def Unblocked (digest : Bytes) : Assigned (ℤ × Bytes) → Prop
  | [] => True
  | p :: tsas => requestError p.1 = none ∧ ((∃ r, attempt L digest p.1 p.2 = .ok r) ∨ Unblocked digest tsas)

/-- The task has only waited: database, lock and clock are the same. -/
structure Waited (x y : Solo Database (Pending L)) : Prop where
  view : y.view = x.view
  committed : y.committed = x.committed
  locked : y.locked = x.locked
  clock : y.world.clock = x.world.clock

omit [Platform] in
theorem readTsaReply_error {url : String} {status : ℤ} {body : Bytes} {e : PyError}
    (h : readTsaReply L url status body = .error e) : ∃ m, e = .tsaError m := by
  unfold readTsaReply at h
  split at h
  · exact ⟨_, (Except.error.inj h).symm⟩
  split at h
  · exact ⟨_, (Except.error.inj h).symm⟩
  split at h
  · exact ⟨_, (Except.error.inj h).symm⟩
  split at h
  · exact ⟨_, (Except.error.inj h).symm⟩
  · cases h

omit [Platform] in
theorem tsaOutcome_error {url : String} {reply : Except PyError (ℤ × Bytes)} {e : PyError}
    (hexc : ∀ e, reply = .error e → e.isException) (h : tsaOutcome L url reply = .error e) :
    ∃ m, e = .tsaError m := by
  rcases reply with e' | ⟨status, body⟩
  · simp only [tsaOutcome, if_pos (hexc e' rfl)] at h
    exact ⟨_, (Except.error.inj h).symm⟩
  · exact readTsaReply_error h

theorem attempt_accepted {message : L.Timestamp → Bytes} (hL : LibrariesWork L message) (digest : Bytes)
    {url : String} (reply : Except PyError (ℤ × Bytes)) (hurl : requestError url = none) :
    (∃ request, tsaRequest L digest url = .ok request) ∧ attempt L digest url reply = tsaOutcome L url reply := by
  obtain ⟨der, hder⟩ := hL.requests digest
  obtain ⟨request, hrequest⟩ := tsaRequest_accepted hder hurl
  refine ⟨⟨request, hrequest⟩, ?_⟩
  rw [attempt, hrequest]
  rfl

/-- The constructor of `Request` raises before the `try` of `submit_to_tsa`. -/
theorem tsaRequest_rejected {message : L.Timestamp → Bytes} (hL : LibrariesWork L message) (digest : Bytes)
    {url : String} (hurl : requestError url ≠ none) : ∃ m, tsaRequest L digest url = .error (.valueError m) := by
  obtain ⟨der, hder⟩ := hL.requests digest
  obtain ⟨m, hm⟩ := Option.ne_none_iff_exists'.mp hurl
  refine ⟨m, ?_⟩
  simp only [tsaRequest, hder, newRequest, hm, bind, Except.bind]

theorem solo_submitTsaTrack {message : L.Timestamp → Bytes} (hL : LibrariesWork L message) {c : ConnId}
    (digest : Bytes) (lastError : Option String) {tsas : Assigned (ℤ × Bytes)} {x : Solo Database (Pending L)}
    (hexc : Exceptions tsas) (hx : x.world.tsas = tsas.map Prod.snd) :
    ∃ y, Waited x y ∧
      (Unblocked L digest tsas → ∃ error, solo (assigned L) c (submitTsaTrack digest lastError (tsas.map Prod.fst)) x =
        some (.ok (firstToken L digest tsas, error), y)) ∧
      (¬ Unblocked L digest tsas → ∃ m, solo (assigned L) c (submitTsaTrack digest lastError (tsas.map Prod.fst)) x =
        some (.error (.valueError m), y)) := by
  induction tsas generalizing lastError x with
  | nil => exact ⟨x, ⟨rfl, rfl, rfl, rfl⟩, fun _ => ⟨lastError, rfl⟩, fun h => absurd trivial h⟩
  | cons p tsas ih =>
    obtain ⟨url, reply⟩ := p
    obtain ⟨hhead, htail⟩ := List.forall_mem_cons.mp hexc
    rw [List.map_cons, submitTsaTrack]
    by_cases hurl : requestError url = none
    · obtain ⟨⟨request, hrequest⟩, hattempt⟩ := attempt_accepted hL digest reply hurl
      let next : Solo Database (Pending L) := { x with world := { x.world with tsas := tsas.map Prod.snd } }
      have hsubmit : solo (assigned L) c ((submitToTsa L digest url).attempt : Action L _) x =
          some (.ok (tsaOutcome L url reply), next) := by
        rw [solo_attempt, submitToTsa_eq, hrequest]
        simp only [Prog.external, Prog.attempt, Prog.perform_bind, solo, assigned, hx, List.map_cons]
        rfl
      rw [solo_ok_bind hsubmit]
      cases houtcome : tsaOutcome L url reply with
      | ok r =>
        refine ⟨next, ⟨rfl, rfl, rfl, rfl⟩, fun _ => ⟨none, ?_⟩, fun h => absurd ?_ h⟩
        · simp only [firstToken, List.findSome?_cons, hattempt, houtcome]
          rfl
        · exact ⟨hurl, .inl ⟨r, hattempt.trans houtcome⟩⟩
      | error e =>
        obtain ⟨m, rfl⟩ := tsaOutcome_error hhead houtcome
        obtain ⟨y, hwaited, hok, herror⟩ := ih _ (x := next) htail rfl
        have hiff : Unblocked L digest ((url, reply) :: tsas) ↔ Unblocked L digest tsas := by
          have hno : ¬ ∃ r, attempt L digest url reply = .ok r := by
            rintro ⟨r, hr⟩
            rw [hattempt, houtcome] at hr
            cases hr
          simp only [Unblocked, hurl, hno, true_and, false_or]
        have hfirst : firstToken L digest ((url, reply) :: tsas) = firstToken L digest tsas := by
          simp only [firstToken, List.findSome?_cons, hattempt, houtcome]
          rfl
        rw [hiff, hfirst]
        exact ⟨y, ⟨hwaited.view, hwaited.committed, hwaited.locked, hwaited.clock⟩, hok, herror⟩
    · obtain ⟨m, hrequest⟩ := tsaRequest_rejected hL digest hurl
      have hsubmit : solo (assigned L) c ((submitToTsa L digest url).attempt : Action L _) x =
          some (.ok (.error (.valueError m)), x) := by
        rw [solo_attempt, submitToTsa_eq, hrequest]
        rfl
      rw [solo_ok_bind hsubmit]
      exact ⟨x, ⟨rfl, rfl, rfl, rfl⟩, fun h => absurd h.1 hurl, fun _ => ⟨m, rfl⟩⟩

end Authorities

section Anchor

/-- The digest that the hash of a row writes in hexadecimal. -/
def headDigest (row : EntryRow) : Bytes := Sha256.sha256 (Canonical.utf8 (hashedText row))

omit [Platform] in
theorem genuine_fromHex {row : EntryRow} (h : Genuine row) : fromHex row.entryHash = some (headDigest row) := by
  rw [h.hashed]
  exact Canonical.fromHex_sha256Hex _

omit [Platform] in
theorem solo_getLatestEntry {W : Type} (answers : Answers Request (Reply L) PyError W) {c : ConnId}
    {x : Solo Database W} {row : EntryRow} {e : LedgerEntry} (hrow : x.view.entries.last? = some row)
    (he : rowToEntry row = .ok e) : solo answers c (getLatestEntry : Action L _) x = some (.ok (some e), x) := by
  rw [getLatestEntry, requireDb, solo_ok_bind (solo_connection x), solo_ok_bind (solo_select x)]
  simp only [hrow, he]
  rfl

/-- The parameters of the row that the tracks' results make. -/
def anchorRow (head : EntryRow) (clock : UtcTime) (calendars : List String) (blob : Option Bytes)
    (token : Option TSAResponse) (genTime : Option String) : NewAnchor :=
  ⟨head.entryHash, head.entryId, blob, strftime clock.civil, dumpsStrings calendars,
    token.map TSAResponse.tstBlob, token.map TSAResponse.tsaUrl, genTime⟩

def addAnchor (d : Database) (a : NewAnchor) : Database :=
  { d with anchors := d.anchors.insertNew a.row a.key_row }

theorem solo_insertAnchor {c : ConnId} {x : Solo Database (Pending L)} {head : EntryRow}
    (hhead : head ∈ x.view.entries.rows) (calendars : List String) (blob : Option Bytes)
    {token : Option TSAResponse} {genTime : Option String} (htime : genTimeIso? token = .ok genTime) :
    ∃ record, solo (assigned L) c (insertAnchor head.entryHash head.entryId blob calendars token : Action L _) x =
      some (.ok record,
        let d := addAnchor x.view (anchorRow head x.world.clock calendars blob token genTime)
        { x with view := d, committed := d }) := by
  have hfound : x.view.entries.find? head.entryId = some head := Table.find?_eq_some.mpr ⟨hhead, rfl⟩
  let a := anchorRow head x.world.clock calendars blob token genTime
  have hexec : exec (Statement.insertAnchor a) x.view = .ok (addAnchor x.view a, x.view.anchors.nextKey) := by
    change Database.execute _ _ = _
    simp only [Database.execute, a, anchorRow, hfound, Option.isSome_some, if_true]
    rfl
  have hdb : solo (assigned L) c (requireDb : Action L ConnId) x = some (.ok c, x) := rfl
  have hnow : solo (assigned L) c (now : Action L UtcTime) x = some (.ok x.world.clock, x) := rfl
  have hexecute : solo (assigned L) c (Prog.execute c (.insertAnchor a) : Action L ℤ) x =
      some (.ok x.view.anchors.nextKey, { x with view := addAnchor x.view a }) := by
    simp only [Prog.execute, solo, hexec, if_true]
  have hcommit (y : Solo Database (Pending L)) : solo (assigned L) c (Prog.commit c : Action L Unit) y =
      some (.ok (), { y with committed := y.view }) := by
    simp only [Prog.commit, solo, if_true]
  rw [insertAnchor, solo_ok_bind hdb, solo_ok_bind hnow, htime, Prog.ok_bind]
  exact ⟨_, ((solo_ok_bind hexecute).trans (solo_ok_bind (hcommit _))).trans rfl⟩

theorem solo_insertAnchor_overflow {c : ConnId} {x : Solo Database (Pending L)} {chainHeadHash : String}
    {chainHeadEntryId : ℤ} {calendars : List String} {blob : Option Bytes} {token : Option TSAResponse}
    {e : PyError} (htime : genTimeIso? token = .error e) :
    solo (assigned L) c (insertAnchor chainHeadHash chainHeadEntryId blob calendars token : Action L _) x =
      some (.error e, x) := by
  have hdb : solo (assigned L) c (requireDb : Action L ConnId) x = some (.ok c, x) := rfl
  have hnow : solo (assigned L) c (now : Action L UtcTime) x = some (.ok x.world.clock, x) := rfl
  rw [insertAnchor, solo_ok_bind hdb, solo_ok_bind hnow, htime]
  rfl

/-- What `anchor` does once both tracks are through. -/
def conclude (head : EntryRow) (calendars : List String) (blob : Option Bytes) (otsErrors : List (String × String))
    (token : Option TSAResponse) (tsaError : Option String) : Action L (Option AnchorRecord) :=
  if calendars = [] ∧ token = none then
    Prog.raise (.runtimeError ("Both anchor tracks failed. OTS errors: " ++ reprItems otsErrors ++
      ". TSA error: " ++ reprOptional tsaError))
  else do return some (← insertAnchor head.entryHash head.entryId blob calendars token)

section Tracks

variable {message : L.Timestamp → Bytes} (hL : LibrariesWork L message)
variable {schedule ledgerSchedule : Option AnchorSchedule} {calendars : Assigned L.Timestamp}
variable {tsas : Assigned (ℤ × Bytes)} {c : ConnId} {x : Solo Database (Pending L)} {head : EntryRow}

include hL

/-- Up to an authority whose URL is rejected, `anchor` comes through both tracks. -/
theorem solo_anchor (hsched : (schedule <|> ledgerSchedule) =
      some ⟨calendars.map Prod.fst, tsas.map Prod.fst, true⟩)
    (hcalendars : Exceptions calendars) (htsas : Exceptions tsas)
    (hmessage : ∀ p ∈ accepted calendars, message p.2 = headDigest head)
    (hgenuine : Genuine head) (hhead : x.view.entries.last? = some head) (hlocked : x.locked = false)
    (hworld : x.world.calendars = calendars.map Prod.snd ∧ x.world.tsas = tsas.map Prod.snd) :
    ∃ y blob, Waited { x with locked := true } y ∧ ProofOf L (headDigest head) (accepted calendars) blob ∧
      (Unblocked L (headDigest head) tsas → ∃ otsErrors tsaError,
        solo (assigned L) c (Ledger.anchor schedule ledgerSchedule) x =
          (solo (assigned L) c (conclude head ((accepted calendars).map Prod.fst) blob otsErrors
            (firstToken L (headDigest head) tsas) tsaError) y).map fun z => (z.1, { z.2 with locked := false })) ∧
      (¬ Unblocked L (headDigest head) tsas → ∃ m z,
        solo (assigned L) c (Ledger.anchor schedule ledgerSchedule) x = some (.error (.valueError m), z)) := by
  obtain ⟨⟨e, he⟩, -⟩ := hgenuine.readable
  obtain ⟨hid, hhash⟩ := rowToEntry_head he
  have hlatest := solo_getLatestEntry (assigned L) (c := c) (x := { x with locked := true }) hhead he
  obtain ⟨blob, otsErrors, hots, hproof⟩ := solo_submitOtsTrack hL (c := c) (x := { x with locked := true })
    hcalendars hmessage hworld.1
  obtain ⟨y, hwaited, hok, herror⟩ := solo_submitTsaTrack hL (c := c) (headDigest head) none
    (x := { x with locked := true, world := { x.world with calendars := [] } }) htsas hworld.2
  have hhex : bytesFromHex e.entryHash = .ok (headDigest head) :=
    bytesFromHex_ok (by rw [hhash]; exact genuine_fromHex hgenuine)
  refine ⟨y, blob, ⟨hwaited.view, hwaited.committed, hwaited.locked, hwaited.clock⟩, hproof, ?_, ?_⟩
  · intro hunblocked
    obtain ⟨tsaError, htsa⟩ := hok hunblocked
    refine ⟨otsErrors, tsaError, ?_⟩
    rw [Ledger.anchor, hsched]
    dsimp only
    rw [solo_withLock hlocked, solo_ok_bind hlatest]
    dsimp only
    rw [hhex, Prog.ok_bind, solo_ok_bind hots]
    dsimp only
    rw [solo_ok_bind htsa, hhash, hid]
    rfl
  · intro hblocked
    obtain ⟨m, htsa⟩ := herror hblocked
    rw [Ledger.anchor, hsched]
    dsimp only
    rw [solo_withLock hlocked, solo_ok_bind hlatest]
    dsimp only
    rw [hhex, Prog.ok_bind, solo_ok_bind hots]
    dsimp only
    rw [solo_error_bind htsa]
    exact ⟨m, _, rfl⟩

omit hL in
theorem solo_conclude (urls : List String) (blob : Option Bytes) (otsErrors : List (String × String))
    (token : Option TSAResponse) (tsaError : Option String) {y : Solo Database (Pending L)}
    (hhead : head ∈ y.view.entries.rows) :
    (urls = [] ∧ token = none → ∃ m, solo (assigned L) c (conclude head urls blob otsErrors token tsaError) y =
      some (.error (.runtimeError m), y)) ∧
    (¬ (urls = [] ∧ token = none) →
      (∀ genTime, genTimeIso? token = .ok genTime → ∃ record,
        solo (assigned L) c (conclude head urls blob otsErrors token tsaError) y = some (.ok (some record),
          let d := addAnchor y.view (anchorRow head y.world.clock urls blob token genTime)
          { y with view := d, committed := d })) ∧
      ∀ e, genTimeIso? token = .error e →
        solo (assigned L) c (conclude head urls blob otsErrors token tsaError) y = some (.error e, y)) := by
  refine ⟨fun hnone => ?_, fun hsome => ⟨fun genTime htime => ?_, fun e htime => ?_⟩⟩
  · rw [conclude, if_pos hnone]
    exact ⟨_, rfl⟩
  · obtain ⟨record, hinsert⟩ := solo_insertAnchor (c := c) hhead urls blob htime
    rw [conclude, if_neg hsome, solo_ok_bind hinsert]
    exact ⟨record, rfl⟩
  · rw [conclude, if_neg hsome, solo_error_bind (solo_insertAnchor_overflow htime)]

end Tracks

/-- The ledger's contents, with an outcome for every submission of the schedule to come. -/
def startSolo (d : Database) (calendars : Assigned L.Timestamp) (tsas : Assigned (ℤ × Bytes)) (clock : UtcTime) :
    Solo Database (Pending L) :=
  ⟨d, d, false, ⟨calendars.map Prod.snd, tsas.map Prod.snd, clock⟩⟩

/-- One anchor row records exactly the tracks that succeeded; where none did, `anchor` raises
`RuntimeError` and the tables are as before. -/
structure Absorbs (L : Libraries) (schedule ledgerSchedule : Option AnchorSchedule) (c : ConnId) (d : Database)
    (head : EntryRow) (calendars : Assigned L.Timestamp) (tsas : Assigned (ℤ × Bytes)) (clock : UtcTime) : Prop where
  anchored : accepted calendars ≠ [] ∨ firstToken L (headDigest head) tsas ≠ none → ∃ record blob genTime y,
    solo (assigned L) c (Ledger.anchor schedule ledgerSchedule) (startSolo d calendars tsas clock) =
      some (.ok (some record), y) ∧
    ProofOf L (headDigest head) (accepted calendars) blob ∧
    genTimeIso? (firstToken L (headDigest head) tsas) = .ok genTime ∧
    y.committed = addAnchor d (anchorRow head clock ((accepted calendars).map Prod.fst) blob
      (firstToken L (headDigest head) tsas) genTime)
  refused : accepted calendars = [] → firstToken L (headDigest head) tsas = none → ∃ m y,
    solo (assigned L) c (Ledger.anchor schedule ledgerSchedule) (startSolo d calendars tsas clock) =
      some (.error (.runtimeError m), y) ∧ y.committed = d

theorem genTimeIso?_ok {token : Option TSAResponse} :
    (∃ genTime, genTimeIso? token = .ok genTime) ↔ ∀ r, token = some r → r.genTime.toUtc.isSome := by
  cases token with
  | none => simp [genTimeIso?]
  | some r =>
    simp only [genTimeIso?, genTimeIso, Option.some.injEq, forall_eq']
    cases r.genTime.toUtc with
    | none => simp [bind, Except.bind]
    | some t => exact iff_of_true ⟨_, rfl⟩ rfl

/-- The head of a ledger that runs have filled was made by `log`. -/
theorem genuine_head {W : Type} {w : W} {s : LedgerSys L W} {head : EntryRow}
    (hrun : LedgerRun .all (startSys Database.empty w) s)
    (hhead : s.shared.file.committed.data.entries.last? = some head) : Genuine head := by
  have hgrown := (grown_of_run hrun).inv.committed
  have hmem : head ∈ s.shared.file.committed.data.entries.rows := List.mem_of_getLast? hhead
  rw [hgrown.rows] at hmem
  exact hgrown.genuine head hmem

/-- What `anchor` does alone, the system does in some run. -/
theorem anchor_run {s : LedgerSys L (Pending L)} {i : InstId} {t : TaskId} {c : ConnId}
    {schedule ledgerSchedule : Option AnchorSchedule} {x y : Solo Database (Pending L)}
    {r : Except PyError (Option AnchorRecord)} (hm : Matches i t c s.shared x)
    (ht : s.tasks[t]? = some ⟨i, .anchor schedule ledgerSchedule, (Call.anchor schedule ledgerSchedule).body⟩)
    (h : solo (assigned L) c (Ledger.anchor schedule ledgerSchedule) x = some (r, y)) :
    ∃ s', LedgerRun .all s s' ∧ s'.shared.file.committed.data = y.committed ∧
      s'.tasks[t]? = some ⟨i, .anchor schedule ledgerSchedule, .done (r.map Result.anchor)⟩ := by
  have hbody : solo (assigned L) c (Call.anchor schedule ledgerSchedule).body x =
      some (r.map Result.anchor, y) := by
    cases r with
    | ok record => exact solo_ok_bind h
    | error e => exact solo_error_bind h
  obtain ⟨s', hrun, hdone, hm'⟩ := solo_run hbody hm ht
  exact ⟨s', hrun, hm'.committed, hdone⟩

end Anchor

end Platforms

section Examples

/-- Timestamps that are their message. -/
def notary : Libraries where
  Timestamp := Bytes
  newTimestamp := id
  merge stamp _ := .ok stamp
  serialize := .ok
  deserialize _ _ := .error (.valueError "notary")
  allAttestations _ := []
  timestampRequest := .ok
  decodeTimestampResponse _ := .error (.valueError "notary")

theorem notary_works : LibrariesWork notary id :=
  ⟨fun digest => ⟨digest, rfl⟩, fun _ => rfl, fun a _ _ => ⟨a, rfl, rfl⟩, fun a => ⟨a, rfl⟩⟩

def oneEntry : List (LedgerEvent notary Unit) := .connect 0 :: logScript (stoppedClock notary) 0 0 "a"

theorem oneEntry_runs : ∃ (s : LedgerSys notary Unit) (head : EntryRow),
    LedgerRun .all (startSys Database.empty ()) s ∧ s.shared.file.committed.data.entries.last? = some head := by
  have h : (runEvents Call.body (startSys Database.empty ()) oneEntry).any
      (fun s => s.shared.file.committed.data.entries.last?.isSome) = true := by decide +kernel
  obtain ⟨s, hs, hsome⟩ := (Option.any_eq_true _ _).mp h
  obtain ⟨head, hhead⟩ := Option.isSome_iff_exists.mp hsome
  exact ⟨s, head, run_of_runEvents hs, hhead⟩

def willing (head : EntryRow) : Assigned notary.Timestamp := [("https://calendar.example", .ok (headDigest head))]

def unreachable (url : String) : Assigned (ℤ × Bytes) := [(url, .error (.other "URLError" ""))]

def scheduleOf (tsaUrl : String) : AnchorSchedule := ⟨["https://calendar.example"], [tsaUrl], true⟩

theorem exceptions_willing (head : EntryRow) : Exceptions (willing head) := by
  intro p hp e he
  cases List.mem_singleton.mp hp
  cases he

theorem exceptions_unreachable (url : String) : Exceptions (unreachable url) := by
  intro p hp e he
  cases List.mem_singleton.mp hp
  cases he
  rfl

theorem message_willing (head : EntryRow) : ∀ p ∈ accepted (willing head), id p.2 = headDigest head := by
  intro p hp
  cases List.mem_singleton.mp hp
  rfl

end Examples
end NexusCone.AnchorTracks
