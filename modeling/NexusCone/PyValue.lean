import NexusCone.JsonText
import NexusCone.AsyncSystem

/-!
# Python values and exceptions

The values that `json.dumps` accepts, with dicts whose keys are strings, integers, booleans or
`None`, and the exceptions that the ledger's operations raise or let through.
-/
namespace NexusCone.PyValue
open CodePoints JsonText SharedFile AsyncSystem

inductive PyError where
  | cancelled
  | runtimeError (message : String)
  | valueError (message : String)
  | typeError (message : String)
  | keyError (message : String)
  | sqlite (e : SqlError)
  | tsaError (message : String)
  | chainVerificationError (message : String)
  | witnessVerificationError (message : String)
  | other (name message : String)
  deriving DecidableEq

instance : Raises PyError where
  sql := .sqlite
  cancelled := .cancelled
  notOpen := .runtimeError "Ledger.init() must be awaited before use"

/-- Caught by `except Exception`: a cancellation is not. -/
def PyError.isException : PyError → Bool
  | .cancelled => false
  | _ => true

def quoteChar (q c : Char) : List Char :=
  if c = q ∨ c = '\\' then ['\\', c]
  else if c = '\n' then ['\\', 'n']
  else if c = '\r' then ['\\', 'r']
  else if c = '\t' then ['\\', 't']
  else if c.toNat < 32 ∨ c.toNat = 127 then '\\' :: 'x' :: (hex4 c.toNat).drop 2
  else [c]

/-- `repr` of a string; every character beyond ASCII is taken as printable. -/
def quote (s : String) : String :=
  let q := if '\'' ∈ s.toList ∧ '"' ∉ s.toList then '"' else '\''
  String.ofList (q :: s.toList.flatMap (quoteChar q) ++ [q])

/-- `repr` of an exception. -/
def PyError.repr : PyError → String
  | .cancelled => "CancelledError()"
  | .runtimeError m => "RuntimeError(" ++ quote m ++ ")"
  | .valueError m => "ValueError(" ++ quote m ++ ")"
  | .typeError m => "TypeError(" ++ quote m ++ ")"
  | .keyError m => "KeyError(" ++ quote m ++ ")"
  | .sqlite .closed => "ValueError(" ++ quote "no active connection" ++ ")"
  | .sqlite .locked => "OperationalError(" ++ quote "database is locked" ++ ")"
  | .sqlite (.constraint m) => "IntegrityError(" ++ quote m ++ ")"
  | .sqlite (.failed m) => "OperationalError(" ++ quote m ++ ")"
  | .tsaError m => "TSAError(" ++ quote m ++ ")"
  | .chainVerificationError m => "ChainVerificationError(" ++ quote m ++ ")"
  | .witnessVerificationError m => "WitnessVerificationError(" ++ quote m ++ ")"
  | .other name m => name ++ "(" ++ quote m ++ ")"

inductive PyKey where
  | none
  | bool (b : Bool)
  | int (n : ℤ)
  | str (s : PyStr)
  deriving DecidableEq

inductive PyVal where
  | none
  | bool (b : Bool)
  | int (n : ℤ)
  | float (x : FloatLit)
  | str (s : PyStr)
  | list (xs : List PyVal)
  | tuple (xs : List PyVal)
  | dict (kvs : List (PyKey × PyVal))

/-- The list of some texts. -/
def textList (ss : List String) : List PyVal := ss.map fun s => .str (pyStr s)

namespace PyKey

/-- The number a key compares as. -/
def number? : PyKey → Option ℤ
  | .bool b => some b.toNat
  | .int n => some n
  | _ => Option.none

/-- Python's `<` is defined between the keys. -/
def comparable : PyKey → PyKey → Bool
  | .str _, .str _ => true
  | k, l => k.number?.isSome && l.number?.isSome

def le : PyKey → PyKey → Bool
  | .str s, .str t => s ≤ t
  | k, l => k.number?.getD 0 ≤ l.number?.getD 0

/-- The string a key becomes in JSON. -/
def text : PyKey → PyStr
  | .none => "null"
  | .bool true => "true"
  | .bool false => "false"
  | .int n => String.ofList (intChars n)
  | .str s => s

end PyKey

/-- `sorted(d.items())`: the keys must compare with each other. -/
def sortItems (kvs : List (PyKey × Json)) : Except PyError (List (PyKey × Json)) :=
  if kvs.Pairwise (fun p q => PyKey.comparable p.1 q.1) then
    .ok (kvs.insertionSort (fun p q => p.1.le q.1))
  else .error (.typeError "'<' not supported between instances of the keys")

mutual
/-- The tree that `json.dumps(value, sort_keys=True)` renders. -/
def PyVal.sorted : PyVal → Except PyError Json
  | .none => .ok .null
  | .bool b => .ok (.bool b)
  | .int n => .ok (.int n)
  | .float x => .ok (.float x)
  | .str s => .ok (.str s)
  | .list xs => return .arr (← sortedElements xs)
  | .tuple xs => return .arr (← sortedElements xs)
  | .dict kvs => return .obj ((← sortItems (← sortedMembers kvs)).map (fun p => (p.1.text, p.2)))

def sortedElements : List PyVal → Except PyError (List Json)
  | [] => .ok []
  | x :: xs => return (← x.sorted) :: (← sortedElements xs)

def sortedMembers : List (PyKey × PyVal) → Except PyError (List (PyKey × Json))
  | [] => .ok []
  | (k, v) :: kvs => return (k, ← v.sorted) :: (← sortedMembers kvs)
end

mutual
/-- The value that `json.loads` makes of a decoded tree. -/
def ofJson : Json → PyVal
  | .null => .none
  | .bool b => .bool b
  | .int n => .int n
  | .float x => .float x
  | .str s => .str s
  | .arr xs => .list (ofElements xs)
  | .obj kvs => .dict (ofMembers kvs)

def ofElements : List Json → List PyVal
  | [] => []
  | x :: xs => ofJson x :: ofElements xs

def ofMembers : List (PyStr × Json) → List (PyKey × PyVal)
  | [] => []
  | (k, v) :: kvs => (.str k, ofJson v) :: ofMembers kvs
end

end NexusCone.PyValue
