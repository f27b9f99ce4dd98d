import NexusCone.Canonical
import NexusCone.IsoTime
import NexusCone.AsyncProgram

/-!
# Submission to time-stamp authorities and token verification

The OpenTimestamps and RFC 3161 client libraries are parameters. `submitToTsa` sends one
request to the network and judges the reply; `verifyTst` judges a stored token.
-/
namespace NexusCone.TimestampAuthority
open HexBytes Sha256 PyValue Canonical IsoTime AsyncProgram

/-- What `all_attestations` of a proof yields beside the message. -/
inductive TimeAttestation where
  | bitcoin (height : ℤ)
  | pending (uri : String)
  | unknown
  deriving DecidableEq

structure TstInfo where
  genTime : DateTime
  hashAlgorithm : String
  message : Bytes
  serialNumber : ℤ
  deriving DecidableEq

structure TimestampResponse where
  status : ℤ
  tstInfo : Option TstInfo
  deriving DecidableEq

/-- The functions of the two client libraries. -/
structure Libraries where
  Timestamp : Type
  newTimestamp : Bytes → Timestamp
  merge : Timestamp → Timestamp → Except PyError Timestamp
  serialize : Timestamp → Except PyError Bytes
  deserialize : Bytes → Bytes → Except PyError Timestamp
  allAttestations : Timestamp → List (Bytes × TimeAttestation)
  timestampRequest : Bytes → Except PyError Bytes
  decodeTimestampResponse : Bytes → Except PyError TimestampResponse

structure HttpRequest where
  fullUrl : String
  data : Bytes
  contentType : String
  deriving DecidableEq

/-- What an operation asks of the clock and the network. -/
inductive Request where
  | now
  | submitToCalendar (calendarUrl : String) (digest : Bytes)
  | urlopen (request : HttpRequest)
  deriving DecidableEq

abbrev Reply (L : Libraries) : Request → Type
  | .now => UtcTime
  | .submitToCalendar _ _ => L.Timestamp
  | .urlopen _ => ℤ × Bytes

def sha256Oid : String := "2.16.840.1.101.3.4.2.1"

def timestampQueryContentType : String := "application/timestamp-query"

structure TSAResponse where
  tstBlob : Bytes
  tsaUrl : String
  genTime : AwareTime
  hashAlgorithm : String
  serialNumber : String
  deriving DecidableEq

section Url

/-- `str.isspace` of a character. -/
def isPySpace (c : Char) : Bool :=
  (9 ≤ c.toNat && c.toNat ≤ 13) || (28 ≤ c.toNat && c.toNat ≤ 32) || c.toNat = 0x85 || c.toNat = 0xa0 ||
    c.toNat = 0x1680 || (0x2000 ≤ c.toNat && c.toNat ≤ 0x200a) || c.toNat = 0x2028 || c.toNat = 0x2029 ||
    c.toNat = 0x202f || c.toNat = 0x205f || c.toNat = 0x3000

def strip (cs : List Char) : List Char :=
  ((cs.dropWhile isPySpace).reverse.dropWhile isPySpace).reverse

/-- `urllib.parse.unwrap`: `<URL:type://host/path>` to `type://host/path`. -/
def unwrapUrl (cs : List Char) : List Char :=
  let url := strip cs
  let url := if url.head? = some '<' ∧ url.getLast? = some '>' then strip (url.drop 1).dropLast else url
  if url.take 4 = "URL:".toList then strip (url.drop 4) else url

/-- The part before the last `#`, and the part after it. -/
def splitTag (cs : List Char) : List Char × List Char :=
  if '#' ∈ cs then
    (((cs.reverse.dropWhile (· ≠ '#')).drop 1).reverse, (cs.reverse.takeWhile (· ≠ '#')).reverse)
  else (cs, [])

/-- The match of `([^/:]+):` at the start. -/
def hasScheme (cs : List Char) : Bool :=
  let scheme := cs.takeWhile (fun c => c ≠ '/' && c ≠ ':')
  !scheme.isEmpty && (cs.drop scheme.length).head? = some ':'

def fullUrl (url : String) : String :=
  let parts := splitTag (unwrapUrl url.toList)
  String.ofList (if parts.2 = [] then parts.1 else parts.1 ++ '#' :: parts.2)

/-- The `ValueError` of the constructor of `urllib.request.Request`: the URL has no scheme, or
`urlparse`, called for the host of the request, refuses it. -/
def requestError [Platform] (url : String) : Option String :=
  if hasScheme (splitTag (unwrapUrl url.toList)).1 then Platform.urlparseError (fullUrl url)
  else some ("unknown url type: " ++ quote (fullUrl url))

/-- `Request(tsa_url, data=request_der, headers=...)`. -/
def newRequest [Platform] (url : String) (data : Bytes) : Except PyError HttpRequest :=
  match requestError url with
  | none => .ok ⟨fullUrl url, data, timestampQueryContentType⟩
  | some m => .error (.valueError m)

end Url

section Tokens

variable (L : Libraries)

/-- `PKIStatus.GRANTED` or `PKIStatus.GRANTED_WITH_MODS`. -/
def granted (status : ℤ) : Bool := status = 0 || status = 1

/-- What `submit_to_tsa` makes of the status and body of an HTTP reply. -/
def readTsaReply (tsaUrl : String) (status : ℤ) (body : Bytes) : Except PyError TSAResponse :=
  if status ≠ 200 then .error (.tsaError s!"TSA {tsaUrl} returned HTTP {status}, expected 200")
  else match L.decodeTimestampResponse body with
    | .error e => .error (.tsaError (s!"TSA {tsaUrl} returned a malformed TimeStampResp: " ++ e.repr))
    | .ok response =>
      if !granted response.status then
        .error (.tsaError s!"TSA {tsaUrl} rejected the request, PKIStatus={response.status}")
      else match response.tstInfo with
        | none => .error (.tsaError s!"TSA {tsaUrl} response had no TSTInfo")
        | some info => .ok ⟨body, tsaUrl, info.genTime.assumeUtc, info.hashAlgorithm, toString info.serialNumber⟩

/-- Submit a digest to a TSA; the token's imprint commits to the digest's own hash. -/
def submitToTsa [Platform] {D S : Type} (digest : Bytes) (tsaUrl : String) :
    Prog D S Request (Reply L) PyError TSAResponse := do
  let requestDer ← .done (L.timestampRequest digest)
  let httpRequest ← .done (newRequest tsaUrl requestDer)
  match ← (Prog.external (Request.urlopen httpRequest)).attempt with
  | .ok (status, body) => .done (readTsaReply L tsaUrl status body)
  | .error e =>
    if e.isException then .raise (.tsaError (s!"TSA HTTP submission failed for {tsaUrl}: " ++ e.repr))
    else .raise e

/-- Verify a stored token against the digest it covers. -/
def verifyTst (tstBlob digest : Bytes) (tsaUrl : String) : Except PyError TSAResponse :=
  match L.decodeTimestampResponse tstBlob with
  | .error e => .error (.tsaError ("Malformed TimeStampResp: " ++ e.repr))
  | .ok response =>
    if !granted response.status then
      .error (.tsaError s!"TST PKIStatus={response.status}, expected GRANTED or GRANTED_WITH_MODS")
    else match response.tstInfo with
      | none => .error (.tsaError "TST has no TSTInfo")
      | some info =>
        if info.hashAlgorithm ≠ sha256Oid then
          .error (.tsaError (s!"TST imprint hash {info.hashAlgorithm} is not SHA-256; " ++
            "v0.2.0 verifier only supports SHA-256 imprints."))
        else if sha256 digest ≠ info.message then
          .error (.tsaError ("TST message imprint does not match sha256(digest); " ++
            s!"expected {hex (sha256 digest)}, stored {hex info.message}"))
        else .ok ⟨tstBlob, tsaUrl, info.genTime.assumeUtc, info.hashAlgorithm, toString info.serialNumber⟩

end Tokens

end NexusCone.TimestampAuthority
