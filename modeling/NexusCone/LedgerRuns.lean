import NexusCone.Connections
import NexusCone.Ledger

/-!
# Runs of ledger instances over one file

The system whose tasks are ledger calls, and its start: some contents, no instance open.
-/
namespace NexusCone.LedgerRuns
open SharedFile AsyncProgram AsyncSystem Connections PyValue LedgerSchema EntryChain TimestampAuthority
  Ledger

variable {W : Type} {L : Libraries}

/-- No instance has the file open yet. -/
def startShared (d : Database) (w : W) : Shared Database Statement W :=
  ⟨⟨⟨d, []⟩, none, []⟩, fun _ => ⟨none, none⟩, 0, [], w⟩

abbrev LedgerSys (L : Libraries) (W : Type) :=
  Sys Database Statement W Request (Reply L) PyError Call Result

abbrev LedgerRules (L : Libraries) (W : Type) :=
  Rules Database Statement W Request (Reply L) PyError Call

def startSys (d : Database) (w : W) : LedgerSys L W := ⟨startShared d w, []⟩

abbrev LedgerRun [IsoTime.Platform] (rules : LedgerRules L W) : LedgerSys L W → LedgerSys L W → Prop :=
  Run Call.body rules

theorem wired_start (d : Database) (w : W) : Wired (startShared d w) := by
  refine ⟨?_, ?_, ?_, ?_⟩
  · rintro c ⟨⟩
  · rintro i c ⟨⟩
  · rintro i j c ⟨⟩
  · rintro p ⟨⟩

theorem fresh_start (d : Database) (w : W) (t : TaskId) : ¬ (startShared d w).Mentions t := by
  rintro (⟨i, ⟨⟩⟩ | ⟨e, ⟨⟩, -⟩ | ⟨p, ⟨⟩, -⟩ | ⟨p, ⟨⟩, -⟩)

/-- Client libraries that are never asked, and a clock that has stopped. -/
def offline : Libraries where
  Timestamp := Unit
  newTimestamp _ := ()
  merge _ _ := .ok ()
  serialize _ := .ok []
  deserialize _ _ := .error (.valueError "offline")
  allAttestations _ := []
  timestampRequest _ := .ok []
  decodeTimestampResponse _ := .error (.valueError "offline")

def noon : IsoTime.UtcTime := ⟨⟨2026, 1, 1, ⟨12, 0, 0, 0⟩⟩, by decide⟩

/-- The clock's answer, and no network. -/
def stoppedClock (L : Libraries) : Outcome Request (Reply L) PyError Unit :=
  .answer (fun
    | .now => .ok noon
    | .submitToCalendar _ _ => .error (.other "URLError" "offline")
    | .urlopen _ => .error (.other "URLError" "offline")) ()

def logCall (actor : String) : Call := .log actor "act" none none eventTypeRequest

/-- A scheme whose signatures are the messages. -/
def echoSigner (publicKeyHex : String) : Signer := ⟨publicKeyHex, id⟩

def echoVerifier : Verifier := fun _ message signature => .ok (message == signature)

section Scripts

abbrev LedgerEvent (L : Libraries) (W : Type) := Event Request (Reply L) PyError W Call

variable (clock : Outcome Request (Reply L) PyError W) (i : InstId) (t : TaskId)

def logScript (actor : String) : List (LedgerEvent L W) := callScript clock i t (logCall actor) 3 3

def registerScript (label publicKeyHex : String) : List (LedgerEvent L W) :=
  callScript clock i t (.registerWitness label publicKeyHex "self") 1 4

def attestScript (witnessId : ℤ) (signer : Signer) : List (LedgerEvent L W) :=
  callScript clock i t (.attestWithWitness witnessId signer) 8 3

variable {i t clock}

@[simp] theorem callsOf_logScript (actor : String) : callsOf (logScript clock i t actor) = [(i, logCall actor)] := by
  simp [logScript]

@[simp] theorem callsOf_registerScript (label publicKeyHex : String) :
    callsOf (registerScript clock i t label publicKeyHex) = [(i, .registerWitness label publicKeyHex "self")] := by
  simp [registerScript]

@[simp] theorem callsOf_attestScript (witnessId : ℤ) (signer : Signer) :
    callsOf (attestScript clock i t witnessId signer) = [(i, .attestWithWitness witnessId signer)] := by
  simp [attestScript]

end Scripts

end NexusCone.LedgerRuns
