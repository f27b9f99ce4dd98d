import NexusCone.Ledger

/-!
# The verifier's command line checks

The default chain walk, `--check-anchors` and `--check-tst` as functions of the tables: what
they print, what they count and their exit code. An exception that a check does not catch ends
it with what was printed so far. Standard output encodes UTF-8, which has no surrogates.
-/
namespace NexusCone.VerifierCli
open HexBytes CodePoints PyValue IsoTime KeyedTable LedgerSchema EntryChain TimestampAuthority Ledger

/-- `str` of an exception. -/
def errorText : PyError → String
  | .cancelled => ""
  | .runtimeError m => m
  | .valueError m => m
  | .typeError m => m
  | .keyError m => quote m
  | .sqlite .closed => "no active connection"
  | .sqlite .locked => "database is locked"
  | .sqlite (.constraint m) => m
  | .sqlite (.failed m) => m
  | .tsaError m => m
  | .chainVerificationError m => m
  | .witnessVerificationError m => m
  | .other _ m => m

def clockChars (hour minute second microsecond : ℕ) : List Char :=
  writeDigits 2 hour ++ ':' :: writeDigits 2 minute ++
    (if second = 0 ∧ microsecond = 0 then [] else ':' :: writeDigits 2 second) ++
    (if microsecond = 0 then [] else '.' :: writeDigits 6 microsecond)

/-- The UTC offset of `datetime.isoformat`. -/
def offsetChars (offset : ℤ) : List Char :=
  let c := Clock.ofMicroseconds offset.natAbs
  (if offset < 0 then '-' else '+') :: clockChars c.hour c.minute c.second c.microsecond

/-- `datetime.isoformat()`. -/
def isoformat (t : DateTime) : String :=
  let c := t.civil
  String.ofList (writeDigits 4 c.year ++ '-' :: writeDigits 2 c.month ++ '-' :: writeDigits 2 c.day ++
    'T' :: writeDigits 2 c.clock.hour ++ ':' :: writeDigits 2 c.clock.minute ++
    ':' :: writeDigits 2 c.clock.second ++
    (if c.clock.microsecond = 0 then [] else '.' :: writeDigits 6 c.clock.microsecond) ++
    (t.offset.map offsetChars).getD [])

def expectString : PyVal → Except PyError PyStr
  | .str s => .ok s
  | _ => .error (.typeError "sequence item: expected str instance")

/-- `", ".join(values)`. -/
def joinStrings (values : List PyVal) : Except PyError PyStr := do
  return (pyStr ", ").intercalate (← values.mapM expectString)

/-- The text that `print` writes. -/
def printed (s : PyStr) : Except PyError String :=
  if s.any isSurrogate then .error (.other "UnicodeEncodeError" "'utf-8' codec can't encode: surrogates not allowed")
  else .ok (String.ofList (s.map fun a => Char.ofNat a))

/-- The calendars in the line of a pending anchor. -/
def pendingCalendars (anchor : AnchorRecord) : Except PyError String := do
  let cals ← if anchor.calendarServers.isEmpty then .ok (pyStr "(none)") else joinStrings anchor.calendarServers
  printed cals

/-- `LIMIT ?`: a negative limit is none. -/
def sqlLimit {α : Type} (limit : ℤ) (rows : List α) : List α :=
  if limit < 0 then rows else rows.take limit.toNat

/-- List anchors in the order of their ids, at most `limit` of them. -/
def getAnchors [Platform] (confirmed : Option Bool) (limit : ℤ) (d : Database) : Except PyError (List AnchorRecord) :=
  let selected := match confirmed with
    | some b => d.anchors.rows.filter (fun row => row.confirmedAt.isSome == b)
    | none => d.anchors.rows
  (sqlLimit limit selected).mapM rowToAnchor

def defaultLimit : ℤ := 500

section Checks

variable (L : Libraries)

/-- The height of the first `BitcoinBlockHeaderAttestation` of a proof. -/
def firstBitcoinAttestation (ts : L.Timestamp) : Option ℤ :=
  (L.allAttestations ts).findSome? fun p => match p.2 with
    | .bitcoin height => some height
    | _ => none

/-- A line on standard output or, for `failed`, on standard error. -/
inductive Line where
  | verifiedAnchor (anchor : AnchorRecord)
  | verifiedTst (anchor : AnchorRecord) (response : TSAResponse)
  | pending (anchor : AnchorRecord) (calendars : String)
  | failed (anchorId : ℤ) (error : PyError)
  | summary (text : String)

def Line.text : Line → String
  | .verifiedAnchor anchor =>
    s!"VERIFIED chain_head={firstChars 16 anchor.chainHeadHash}... bitcoin_block=" ++
      (anchor.bitcoinBlockHeight.map toString).getD "None"
  | .verifiedTst anchor response =>
    let tsa := if response.tsaUrl = "" then "(unknown)" else response.tsaUrl
    s!"VERIFIED chain_head={firstChars 16 anchor.chainHeadHash}... tsa={tsa} " ++
      s!"gen_time={isoformat response.genTime.toDateTime}"
  | .pending anchor calendars =>
    s!"PENDING  chain_head={firstChars 16 anchor.chainHeadHash}... " ++
      s!"submitted={isoformat anchor.submittedAt} calendars={calendars}"
  | .failed anchorId error => s!"FAILED anchor_id={anchorId}: {errorText error}"
  | .summary text => text

structure Counters where
  passed : ℕ
  waiting : ℕ
  failed : ℕ
  lines : List Line

def Counters.zero : Counters := ⟨0, 0, 0, []⟩

def Counters.total (t : Counters) : ℕ := t.passed + t.waiting + t.failed

def Counters.pass (t : Counters) (l : Line) : Counters := { t with passed := t.passed + 1, lines := t.lines ++ [l] }

def Counters.wait (t : Counters) (ls : List Line) : Counters :=
  { t with waiting := t.waiting + 1, lines := t.lines ++ ls }

def Counters.fail (t : Counters) (anchorId : ℤ) (e : PyError) : Counters :=
  { t with failed := t.failed + 1, lines := t.lines ++ [.failed anchorId e] }

/-- The body of the `try` of `_check_anchors`. -/
def checkProof (anchor : AnchorRecord) (otsProofBlob : Bytes) : Except PyError Unit := do
  let head ← bytesFromHex anchor.chainHeadHash
  let ts ← L.deserialize otsProofBlob head
  match firstBitcoinAttestation L ts with
  | none => .error (.valueError "confirmed anchor's proof carries no BitcoinBlockHeaderAttestation")
  | some height =>
    if anchor.bitcoinBlockHeight = some height then .ok ()
    else .error (.valueError (s!"height mismatch: proof says {height}, row says " ++
      (anchor.bitcoinBlockHeight.map toString).getD "None"))

/-- One anchor in the loop of `_check_anchors`. -/
def checkAnchor (t : Counters) (anchor : AnchorRecord) : Except PyError Counters :=
  match anchor.confirmedAt, anchor.otsProofBlob with
  | some _, some blob =>
    match checkProof L anchor blob with
    | .ok () => .ok (t.pass (.verifiedAnchor anchor))
    | .error e => .ok (t.fail anchor.anchorId e)
  | _, _ => do
    let calendars ← pendingCalendars anchor
    return t.wait [.pending anchor calendars]

/-- One anchor in the loop of `_check_tst`; only `TSAError` is caught. -/
def checkToken (t : Counters) (anchor : AnchorRecord) : Except PyError Counters :=
  match anchor.tstBlob with
  | none => .ok (t.wait [])
  | some blob => do
    let head ← bytesFromHex anchor.chainHeadHash
    match verifyTst L blob head (anchor.tsaUrl.getD "") with
    | .ok response => .ok (t.pass (.verifiedTst anchor response))
    | .error (.tsaError m) => .ok (t.fail anchor.anchorId (.tsaError m))
    | .error e => .error e

/-- The loop over the anchors, up to an exception that the check lets through. -/
def walkAnchors (check : Counters → AnchorRecord → Except PyError Counters) :
    Counters → List AnchorRecord → Counters × Except PyError Unit
  | t, [] => (t, .ok ())
  | t, anchor :: anchors =>
    match check t anchor with
    | .ok t' => walkAnchors check t' anchors
    | .error e => (t, .error e)

/-- What a check prints and counts, and its exit code or the exception that ends it. -/
def runCheck [Platform] (check : Counters → AnchorRecord → Except PyError Counters) (summary : Counters → String)
    (d : Database) : Counters × Except PyError ℕ :=
  match getAnchors none defaultLimit d with
  | .error e => (.zero, .error e)
  | .ok anchors =>
    match walkAnchors check .zero anchors with
    | (t, .error e) => (t, .error e)
    | (t, .ok ()) => ({ t with lines := t.lines ++ [.summary (summary t)] }, .ok (if t.failed > 0 then 1 else 0))

def checkAnchors [Platform] : Database → Counters × Except PyError ℕ :=
  runCheck (checkAnchor L) fun t => s!"\nSummary: {t.passed} confirmed, {t.waiting} pending, {t.failed} failed"

def checkTst [Platform] : Database → Counters × Except PyError ℕ :=
  runCheck (checkToken L) fun t => s!"\nSummary: {t.passed} verified, {t.failed} failed, {t.waiting} without TST"

end Checks

/-- The exit code of the default check and the line it prints. -/
def verifyChain (d : Database) : Except PyError (ℕ × String) :=
  match EntryChain.verifyChain none d.entries.rows with
  | .ok count => .ok (0, s!"OK · chain valid ({count} entries)")
  | .error (.chainVerificationError m) => .ok (1, s!"FAIL · {m}")
  | .error e => .error e

end NexusCone.VerifierCli
