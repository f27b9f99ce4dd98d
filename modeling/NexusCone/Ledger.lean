import NexusCone.TimestampAuthority
import NexusCone.WitnessCursor

/-!
# The operations of a ledger

Each asynchronous method of the ledger as a program over one database connection and one lock,
with the clock, the calendars and the time-stamp authorities as external requests.
-/
namespace NexusCone.Ledger
open HexBytes CodePoints JsonText PyValue Canonical IsoTime KeyedTable SharedFile AsyncProgram LedgerSchema EntryChain
  WitnessChain WitnessCursor TimestampAuthority

abbrev Action (L : Libraries) (α : Type) := Prog Database Statement Request (Reply L) PyError α

structure AnchorSchedule where
  calendarServers : List String
  tsaUrls : List String
  enabled : Bool

structure AnchorRecord where
  anchorId : ℤ
  chainHeadHash : String
  chainHeadEntryId : ℤ
  submittedAt : DateTime
  calendarServers : List PyVal
  otsProofBlob : Option Bytes
  confirmedAt : Option DateTime
  bitcoinBlockHeight : Option ℤ
  bitcoinBlockHash : Option String
  tstBlob : Option Bytes
  tsaUrl : Option String
  tsaGenTime : Option DateTime

/-- `bytes.fromhex`. -/
def bytesFromHex (s : String) : Except PyError Bytes :=
  match fromHex s with
  | some bytes => .ok bytes
  | none => .error (.valueError "non-hexadecimal number found in fromhex() arg")

/-- `json.dumps` of a list of strings, with its default separators. -/
def dumpsStrings (xs : List String) : String :=
  String.ofList ('[' :: ([',', ' '].intercalate (xs.map fun x : String => stringChars x)) ++ [']'])

/-- `list(value)`. -/
def pyList : PyVal → Except PyError (List PyVal)
  | .list xs => .ok xs
  | .tuple xs => .ok xs
  | .str s => .ok (s.map fun a => .str [a])
  | .dict kvs => .ok (kvs.map fun p => .str p.1.text)
  | _ => .error (.typeError "object is not iterable")

/-- `list(json.loads(text))`. -/
def loadsList (text : String) : Except PyError (List PyVal) :=
  match loads text with
  | some v => pyList (ofJson v)
  | none => .error (.valueError "Expecting value")

variable [Platform]

def rowToAnchor (row : AnchorRow) : Except PyError AnchorRecord := do
  let submittedAt ← readTimeColumn row.submittedAt
  let calendarServers ← loadsList row.calendarServers
  let confirmedAt ← readTimeColumn? row.confirmedAt
  let tsaGenTime ← readTimeColumn? row.tsaGenTime
  return ⟨row.anchorId, row.chainHeadHash, row.chainHeadEntryId, submittedAt, calendarServers,
    row.otsProofBlob, confirmedAt, row.bitcoinBlockHeight, row.bitcoinBlockHash, row.tstBlob, row.tsaUrl,
    tsaGenTime⟩

variable {L : Libraries}

def requireDb : Action L ConnId := Prog.connection

def now : Action L UtcTime := Prog.external Request.now

def utcNowIso : Action L String := do return strftime (← now).civil

def getLatestEntry : Action L (Option LedgerEntry) := do
  let db ← requireDb
  match (← Prog.select db).entries.last? with
  | none => return none
  | some row => return some (← Prog.done (rowToEntry row))

/-- The row that `log` writes after the tip it has read. -/
def entryAfter (tip : Option EntryRow) (timestamp actor action eventType payloadCanonical : String)
    (signer : Option Signer) : EntryRow :=
  let nextId := (tip.map (·.entryId + 1)).getD 1
  let previousHash := (tip.map (·.entryHash)).getD genesisPreviousHash
  let entryHash := computeEntryHash nextId timestamp actor action payloadCanonical previousHash eventType
    currentFormatVersion
  ⟨nextId, timestamp, actor, action, eventType, currentFormatVersion, payloadCanonical, previousHash,
    entryHash, signer.map fun s => hex (s.sign (utf8 entryHash)), signer.map Signer.keyId⟩

/-- The entry that `log` returns for the row it has written. -/
def loggedEntry (row : EntryRow) (payload : PyVal) : LedgerEntry :=
  ⟨row.entryId, row.timestamp, row.actor, row.action, payload, row.previousHash, row.entryHash,
    row.signature, row.signingKeyId, row.eventType, row.formatVersion⟩

/-- Append a new entry to the chain and return it. -/
def log (actor action : String) (payload : Option (List (PyKey × PyVal))) (signer : Option Signer)
    (eventType : String) : Action L LedgerEntry := do
  let db ← requireDb
  let payloadDict := PyVal.dict (payload.getD [])
  Prog.withLock do
    let tip := (← Prog.select db).entries.last?
    let timestamp ← utcNowIso
    let payloadCanonical ← Prog.done (canonicalJson payloadDict)
    let row := entryAfter tip timestamp actor action eventType payloadCanonical signer
    let _ ← Prog.execute db (.insertEntry row)
    Prog.commit db
    return loggedEntry row payloadDict

def verifyChain (verifier : Option Verifier) : Action L ℕ := do
  let db ← requireDb
  let d ← Prog.select db
  Prog.done (EntryChain.verifyChain verifier d.entries.rows)

/-- Setting a key of a `dict[str, str]`. -/
def setItem (key value : String) : List (String × String) → List (String × String)
  | [] => [(key, value)]
  | (k, v) :: d => if k = key then (k, value) :: d else (k, v) :: setItem key value d

/-- Every calendar in turn: the merged proof, the calendars that accepted, the errors. -/
def submitToCalendars (digest : Bytes) : L.Timestamp → List String → List (String × String) →
    List String → Action L (L.Timestamp × List String × List (String × String))
  | merged, successful, errors, [] => return (merged, successful, errors)
  | merged, successful, errors, url :: urls => do
    match ← (Prog.external (Request.submitToCalendar url digest)).attempt with
    | .ok stamp =>
      let merged ← Prog.done (L.merge merged stamp)
      submitToCalendars digest merged (successful ++ [url]) errors urls
    | .error e =>
      if e.isException then submitToCalendars digest merged successful (setItem url e.repr errors) urls
      else Prog.raise e

def submitOtsTrack (digest : Bytes) (calendarServers : List String) :
    Action L (List String × Option Bytes × List (String × String)) := do
  let (merged, successful, errors) ←
    submitToCalendars digest (L.newTimestamp digest) [] [] calendarServers
  if successful = [] then return ([], none, errors)
  else return (successful, some (← Prog.done (L.serialize merged)), errors)

/-- The first TSA that accepts; the error of the last one where none does. -/
def submitTsaTrack (digest : Bytes) : Option String → List String →
    Action L (Option TSAResponse × Option String)
  | lastError, [] => return (none, lastError)
  | _, url :: urls => do
    match ← (submitToTsa L digest url).attempt with
    | .ok response => return (some response, none)
    | .error (.tsaError m) => submitTsaTrack digest (some (PyError.tsaError m).repr) urls
    | .error e => Prog.raise e

/-- `gen_time.astimezone(timezone.utc).strftime(...)`. -/
def genTimeIso (genTime : AwareTime) : Except PyError String :=
  match genTime.toUtc with
  | some c => .ok (strftime c)
  | none => .error (.other "OverflowError" "date value out of range")

def genTimeIso? : Option TSAResponse → Except PyError (Option String)
  | none => .ok none
  | some r => return some (← genTimeIso r.genTime)

def insertAnchor (chainHeadHash : String) (chainHeadEntryId : ℤ) (otsProofBlob : Option Bytes)
    (calendarServers : List String) (tsaResponse : Option TSAResponse) : Action L AnchorRecord := do
  let db ← requireDb
  let submittedAt ← now
  let tsaGenTimeIso ← Prog.done (genTimeIso? tsaResponse)
  let anchorId ← Prog.execute db (.insertAnchor ⟨chainHeadHash, chainHeadEntryId, otsProofBlob,
    strftime submittedAt.civil, dumpsStrings calendarServers, tsaResponse.map TSAResponse.tstBlob,
    tsaResponse.map TSAResponse.tsaUrl, tsaGenTimeIso⟩)
  Prog.commit db
  return ⟨anchorId, chainHeadHash, chainHeadEntryId, submittedAt.toDateTime, textList calendarServers,
    otsProofBlob, none, none, none, tsaResponse.map TSAResponse.tstBlob,
    tsaResponse.map TSAResponse.tsaUrl, tsaResponse.map (·.genTime.toDateTime)⟩

/-- `repr` of a `dict[str, str]`. -/
def reprItems (d : List (String × String)) : String :=
  "\x7b" ++ ", ".intercalate (d.map fun p => quote p.1 ++ ": " ++ quote p.2) ++ "\x7d"

def reprOptional : Option String → String
  | none => "None"
  | some s => quote s

/-- Submit the current chain head to the calendars and to a time-stamp authority. -/
def anchor (schedule ledgerSchedule : Option AnchorSchedule) : Action L (Option AnchorRecord) :=
  match schedule <|> ledgerSchedule with
  | some ⟨calendarServers, tsaUrls, true⟩ => Prog.withLock do
    match ← getLatestEntry with
    | none => return none
    | some latestEntry => do
      let headHashBytes ← Prog.done (bytesFromHex latestEntry.entryHash)
      let (successfulCalendars, otsProofBlob, otsErrors) ← submitOtsTrack headHashBytes calendarServers
      let (tsaResponse, tsaError) ← submitTsaTrack headHashBytes none tsaUrls
      if successfulCalendars = [] ∧ tsaResponse = none then
        Prog.raise (.runtimeError ("Both anchor tracks failed. OTS errors: " ++ reprItems otsErrors ++
          ". TSA error: " ++ reprOptional tsaError))
      else
        return some (← insertAnchor latestEntry.entryHash latestEntry.entryId otsProofBlob
          successfulCalendars tsaResponse)
  | _ => Prog.raise (.runtimeError ("Cannot anchor: no AnchorSchedule configured, or schedule " ++
      "is disabled. Construct Ledger(..., anchor_schedule=...) " ++
      "with enabled=True, or pass a schedule explicitly."))

def getAnchor (anchorId : ℤ) (db : ConnId) : Action L AnchorRecord := do
  match (← Prog.select db).anchors.find? anchorId with
  | some row => Prog.done (rowToAnchor row)
  | none => Prog.raise (.keyError s!"No anchor with anchor_id={anchorId}")

/-- `confirmed_at or datetime.now(timezone.utc)`. -/
def confirmationTime : Option DateTime → Action L Civil
  | some t => return t.civil
  | none => return (← now).civil

def confirmAnchor (anchorId : ℤ) (upgradedProofBlob : Bytes) (bitcoinBlockHeight : ℤ)
    (bitcoinBlockHash : Option String) (confirmedAt : Option DateTime) : Action L AnchorRecord := do
  let confirmedAt ← confirmationTime confirmedAt
  let db ← requireDb
  Prog.withLock do
    let _ ← Prog.execute db (.confirmAnchor anchorId upgradedProofBlob bitcoinBlockHeight
      bitcoinBlockHash (strftime confirmedAt))
    Prog.commit db
  getAnchor anchorId db

def registerWitness (label publicKeyHex role : String) : Action L Witness :=
  if role ∈ witnessRoles then do
    let db ← requireDb
    let createdAt ← now
    let witnessId ← Prog.withLock do
      let witnessId ← Prog.execute db (.insertWitness ⟨label, publicKeyHex, role, strftime createdAt.civil⟩)
      Prog.commit db
      return witnessId
    return ⟨witnessId, label, publicKeyHex, role, createdAt.toDateTime, none⟩
  else Prog.raise (.valueError ("role must be one of ['consortium', 'regulator', 'self'], got " ++ quote role))

def getWitness (witnessId : ℤ) : Action L Witness := do
  let db ← requireDb
  match (← Prog.select db).witnesses.find? witnessId with
  | some row => Prog.done (rowToWitness row)
  | none => Prog.raise (.keyError s!"No witness with witness_id={witnessId}")

def retireWitness (witnessId : ℤ) : Action L Witness := do
  let db ← requireDb
  let retiredAt ← now
  Prog.withLock do
    let _ ← Prog.execute db (.retireWitness witnessId (strftime retiredAt.civil))
    Prog.commit db
  getWitness witnessId

/-- The hash the witness's next attestation has to name. -/
def lastAttestationHash (witnessId : ℤ) (d : Database) : String :=
  ((ofWitness witnessId d.attestations.rows).getLast?.map AttestationRow.attestationHash).getD
    genesisWitnessPrevHash

def getLastWitnessAttestationHash (witnessId : ℤ) : Action L String := do
  let db ← requireDb
  return lastAttestationHash witnessId (← Prog.select db)

def firstChars (n : ℕ) (s : String) : String := String.ofList (s.toList.take n)

/-- Have a witness sign the current chain head. -/
def attestWithWitness (witnessId : ℤ) (signer : Signer) : Action L (Option WitnessAttestation) := do
  let db ← requireDb
  Prog.withLock do
    let witness ← getWitness witnessId
    if witness.retiredAt.isSome then
      Prog.raise (.runtimeError (s!"Witness {witnessId} ({witness.label}) is retired " ++
        "and cannot sign new attestations."))
    else if signer.keyId ≠ witness.publicKeyHex then
      Prog.raise (.runtimeError ("signer.key_id does not match witness public key. " ++
        s!"Witness {witnessId} registered {firstChars 16 witness.publicKeyHex}..." ++
        s!"; signer offered {firstChars 16 signer.keyId}..."))
    else
      match ← getLatestEntry with
      | none => return none
      | some latestEntry => do
        let prevAttestationHash ← getLastWitnessAttestationHash witnessId
        let signedAt ← now
        let attestationHash := computeWitnessAttestationHash witnessId latestEntry.entryId
          latestEntry.entryHash (strftime signedAt.civil) prevAttestationHash
        let signatureHex := hex (signer.sign ((fromHex attestationHash).getD []))
        let attestationId ← Prog.execute db (.insertAttestation ⟨witnessId, latestEntry.entryId,
          latestEntry.entryHash, strftime signedAt.civil, prevAttestationHash, attestationHash, signatureHex⟩)
        Prog.commit db
        return some ⟨attestationId, witnessId, latestEntry.entryId, latestEntry.entryHash,
          signedAt.toDateTime, prevAttestationHash, attestationHash, signatureHex⟩

/-- The walk over what the fetches hand over. -/
def walkFetches (verifier : Verifier) (witnessesById : ℤ → Option Witness) (db : ConnId) :
    Scan → (ℤ → String) → ℕ → Action L ℕ
  | .last, _, verified => do
    let _ ← Prog.select db
    return verified
  | .fetch rows rest, expectedPrev, verified => do
    let now := (← Prog.select db).attestations
    if rows now = [] then return verified
    else
      Prog.done (verifyAttestations verifier witnessesById expectedPrev (rows now))
      walkFetches verifier witnessesById db (rest now) (expectedAfter expectedPrev (rows now))
        (verified + (rows now).length)

/-- What the cursor hands over is SQLite's matter. -/
def verifyWitnessAttestations (verifier : Verifier) (cursor : Cursor) : Action L ℕ := do
  let db ← requireDb
  let witnesses ← Prog.done ((← Prog.select db).witnesses.rows.mapM rowToWitness)
  let opened := (← Prog.select db).attestations
  walkFetches verifier (witnessesById witnesses) db (cursor.scan opened) (fun _ => genesisWitnessPrevHash) 0

inductive Call where
  | log (actor action : String) (payload : Option (List (PyKey × PyVal))) (signer : Option Signer)
      (eventType : String)
  | anchor (schedule ledgerSchedule : Option AnchorSchedule)
  | confirmAnchor (anchorId : ℤ) (upgradedProofBlob : Bytes) (bitcoinBlockHeight : ℤ)
      (bitcoinBlockHash : Option String) (confirmedAt : Option DateTime)
  | registerWitness (label publicKeyHex role : String)
  | retireWitness (witnessId : ℤ)
  | attestWithWitness (witnessId : ℤ) (signer : Signer)
  | verifyChain (verifier : Option Verifier)
  | verifyWitnessAttestations (verifier : Verifier) (cursor : Cursor)

inductive Result where
  | entry (e : LedgerEntry)
  | anchor (a : Option AnchorRecord)
  | witness (w : Witness)
  | attestation (a : Option WitnessAttestation)
  | count (n : ℕ)

/-- The program of a call. -/
def Call.body : Call → Action L Result
  | .log actor action payload signer eventType => return .entry (← Ledger.log actor action payload signer eventType)
  | .anchor schedule ledgerSchedule => return .anchor (← Ledger.anchor schedule ledgerSchedule)
  | .confirmAnchor anchorId blob height blockHash confirmedAt =>
    return .anchor (← Ledger.confirmAnchor anchorId blob height blockHash confirmedAt)
  | .registerWitness label publicKeyHex role => return .witness (← Ledger.registerWitness label publicKeyHex role)
  | .retireWitness witnessId => return .witness (← Ledger.retireWitness witnessId)
  | .attestWithWitness witnessId signer => return .attestation (← Ledger.attestWithWitness witnessId signer)
  | .verifyChain verifier => return .count (← Ledger.verifyChain verifier)
  | .verifyWitnessAttestations verifier cursor =>
    return .count (← Ledger.verifyWitnessAttestations verifier cursor)

end NexusCone.Ledger
