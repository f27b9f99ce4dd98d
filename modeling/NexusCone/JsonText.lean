import NexusCone.HexBytes
import NexusCone.CodePoints
import Mathlib.Data.Nat.Digits.Defs
import Mathlib.Data.List.Sort

/-!
# JSON values and their text

`dumps` is the compact ASCII rendering (separators `,` and `:`, every character outside
the printable ASCII range escaped, surrogate pairs above U+FFFF); `loads` is the decoder,
with its whitespace, its escapes and its last-value-wins objects. A float is kept as the
literal that spells it. Strings may have lone surrogates, which both leave as they are; the
decoder makes one character of an escaped pair.
-/
namespace NexusCone.JsonText
open HexBytes CodePoints

def isNumberChar (c : Char) : Bool :=
  c.isDigit || c = '-' || c = '+' || c = '.' || c = 'e' || c = 'E'

def unsigned : List Char → List Char
  | '-' :: cs => cs
  | cs => cs

/-- `0` or a run of digits that does not start with `0`. -/
def isNatural : List Char → Bool
  | [] => false
  | c :: cs => c.isDigit && cs.all Char.isDigit && (c ≠ '0' || cs.isEmpty)

def isDigits (cs : List Char) : Bool := !cs.isEmpty && cs.all Char.isDigit

def isExponent : List Char → Bool
  | [] => false
  | c :: cs => (c = 'e' || c = 'E') && match cs with
    | '+' :: ds => isDigits ds
    | '-' :: ds => isDigits ds
    | ds => isDigits ds

def isFractionOrExponent : List Char → Bool
  | '.' :: cs => isDigits (cs.takeWhile Char.isDigit) &&
      (isExponent (cs.dropWhile Char.isDigit) || (cs.dropWhile Char.isDigit).isEmpty)
  | cs => isExponent cs

def isIntChars (cs : List Char) : Bool := isNatural (unsigned cs)

def isFloatChars (cs : List Char) : Bool :=
  cs.all isNumberChar && !isIntChars cs && isNatural ((unsigned cs).takeWhile Char.isDigit) &&
    isFractionOrExponent ((unsigned cs).dropWhile Char.isDigit)

def nonFinite : List (List Char) := ["NaN".toList, "Infinity".toList, "-Infinity".toList]

/-- A float, by a JSON literal that denotes it. -/
structure FloatLit where
  chars : List Char
  valid : isFloatChars chars = true ∨ chars ∈ nonFinite

inductive Json where
  | null
  | bool (b : Bool)
  | int (n : ℤ)
  | float (x : FloatLit)
  | str (s : PyStr)
  | arr (xs : List Json)
  | obj (kvs : List (PyStr × Json))

/-- The member of an object under a key that is a text. -/
def field (key : String) (value : Json) : PyStr × Json := (key, value)

def digitChar (d : ℕ) : Char := Char.ofNat (48 + d)

def digitValue (c : Char) : ℕ := c.toNat - 48

def natChars (n : ℕ) : List Char :=
  if n = 0 then ['0'] else ((Nat.digits 10 n).map digitChar).reverse

def natOfChars (cs : List Char) : ℕ := Nat.ofDigits 10 (cs.reverse.map digitValue)

def intChars : ℤ → List Char
  | .ofNat n => natChars n
  | .negSucc n => '-' :: natChars (n + 1)

def intOfChars : List Char → ℤ
  | '-' :: cs => -(natOfChars cs : ℤ)
  | cs => natOfChars cs

def hex4 (n : ℕ) : List Char :=
  [hexDigit (n / 4096), hexDigit (n / 256 % 16), hexDigit (n / 16 % 16), hexDigit (n % 16)]

def escapeChar (a : CodePoint) : List Char :=
  if a = codePoint '"' then ['\\', '"']
  else if a = codePoint '\\' then ['\\', '\\']
  else if a = codePoint '\n' then ['\\', 'n']
  else if a = codePoint '\r' then ['\\', 'r']
  else if a = codePoint '\t' then ['\\', 't']
  else if a = codePoint '\x0c' then ['\\', 'f']
  else if a = codePoint '\x08' then ['\\', 'b']
  else if 32 ≤ (a : ℕ) ∧ (a : ℕ) ≤ 126 then [Char.ofNat a]
  else if (a : ℕ) < 0x10000 then '\\' :: 'u' :: hex4 a
  else '\\' :: 'u' :: hex4 (0xd800 + (a - 0x10000) / 1024) ++
    '\\' :: 'u' :: hex4 (0xdc00 + (a - 0x10000) % 1024)

def stringChars (s : PyStr) : List Char := '"' :: s.flatMap escapeChar ++ ['"']

mutual
/-- `json.dumps(value, separators=(",", ":"))`. -/
def dumps : Json → List Char
  | .null => "null".toList
  | .bool true => "true".toList
  | .bool false => "false".toList
  | .int n => intChars n
  | .float x => x.chars
  | .str s => stringChars s
  | .arr [] => ['[', ']']
  | .arr (x :: xs) => '[' :: dumps x ++ dumpsElements xs
  | .obj [] => ['{', '}']
  | .obj ((k, v) :: kvs) => '{' :: stringChars k ++ ':' :: dumps v ++ dumpsMembers kvs

def dumpsElements : List Json → List Char
  | [] => [']']
  | x :: xs => ',' :: dumps x ++ dumpsElements xs

def dumpsMembers : List (PyStr × Json) → List Char
  | [] => ['}']
  | (k, v) :: kvs => ',' :: stringChars k ++ ':' :: dumps v ++ dumpsMembers kvs
end

def isSpace (c : Char) : Bool := c = ' ' || c = '\t' || c = '\n' || c = '\r'

def skipSpace (cs : List Char) : List Char := cs.dropWhile isSpace

def hex4Value (a b c d : Char) : Option ℕ :=
  match hexValue a, hexValue b, hexValue c, hexValue d with
  | some w, some x, some y, some z => some (4096 * w + 256 * x + 16 * y + z)
  | _, _, _, _ => none

/-- The character that starts with the escape of `v`: the escape of a low surrogate completes a pair. -/
def readLowSurrogate (v : ℕ) : List Char → Option (CodePoint × List Char)
  | '\\' :: 'u' :: a :: b :: c :: d :: cs =>
    match hex4Value a b c d with
    | some w =>
      if isLowSurrogate w then some (pairPoint v w, cs)
      else some (point v, '\\' :: 'u' :: a :: b :: c :: d :: cs)
    | none => none
  | cs => some (point v, cs)

def readUnicode : List Char → Option (CodePoint × List Char)
  | a :: b :: c :: d :: cs =>
    match hex4Value a b c d with
    | some v => if isHighSurrogate v then readLowSurrogate v cs else some (point v, cs)
    | none => none
  | _ => none

/-- The character an escape denotes, read after its backslash. -/
def readEscape : List Char → Option (CodePoint × List Char)
  | [] => none
  | c :: cs =>
    if c = '"' then some (codePoint '"', cs)
    else if c = '\\' then some (codePoint '\\', cs)
    else if c = '/' then some (codePoint '/', cs)
    else if c = 'b' then some (codePoint '\x08', cs)
    else if c = 'f' then some (codePoint '\x0c', cs)
    else if c = 'n' then some (codePoint '\n', cs)
    else if c = 'r' then some (codePoint '\r', cs)
    else if c = 't' then some (codePoint '\t', cs)
    else if c = 'u' then readUnicode cs
    else none

/-- The characters of a string up to its closing quote. -/
def readString : ℕ → List Char → Option (PyStr × List Char)
  | 0, _ => none
  | _ + 1, [] => none
  | n + 1, c :: cs =>
    if c = '"' then some ([], cs)
    else if c = '\\' then
      match readEscape cs with
      | some (a, cs) => (readString n cs).map fun p => (a :: p.1, p.2)
      | none => none
    else if c.toNat < 32 then none
    else (readString n cs).map fun p => (codePoint c :: p.1, p.2)

def readNumber (cs : List Char) : Option Json :=
  if isIntChars cs then some (.int (intOfChars cs))
  else if h : isFloatChars cs = true then some (.float ⟨cs, .inl h⟩)
  else none

def readScalar : List Char → Option (Json × List Char)
  | 'n' :: 'u' :: 'l' :: 'l' :: cs => some (.null, cs)
  | 't' :: 'r' :: 'u' :: 'e' :: cs => some (.bool true, cs)
  | 'f' :: 'a' :: 'l' :: 's' :: 'e' :: cs => some (.bool false, cs)
  | 'N' :: 'a' :: 'N' :: cs => some (.float ⟨"NaN".toList, .inr (by decide)⟩, cs)
  | 'I' :: 'n' :: 'f' :: 'i' :: 'n' :: 'i' :: 't' :: 'y' :: cs =>
    some (.float ⟨"Infinity".toList, .inr (by decide)⟩, cs)
  | '-' :: 'I' :: 'n' :: 'f' :: 'i' :: 'n' :: 'i' :: 't' :: 'y' :: cs =>
    some (.float ⟨"-Infinity".toList, .inr (by decide)⟩, cs)
  | cs => (readNumber (cs.takeWhile isNumberChar)).map (·, cs.dropWhile isNumberChar)

mutual
def readValue : ℕ → List Char → Option (Json × List Char)
  | 0, _ => none
  | _ + 1, [] => none
  | n + 1, c :: cs =>
    if c = '"' then (readString (cs.length + 1) cs).map fun p => (.str p.1, p.2)
    else if c = '[' then
      match skipSpace cs with
      | ']' :: ds => some (.arr [], ds)
      | ds => (readElements n ds).map fun p => (.arr p.1, p.2)
    else if c = '{' then
      match skipSpace cs with
      | '}' :: ds => some (.obj [], ds)
      | ds => (readMembers n ds).map fun p => (.obj p.1, p.2)
    else readScalar (c :: cs)

/-- One or more values separated by commas, up to the closing bracket. -/
def readElements : ℕ → List Char → Option (List Json × List Char)
  | 0, _ => none
  | n + 1, cs =>
    match readValue n cs with
    | none => none
    | some (x, ds) =>
      match skipSpace ds with
      | ']' :: es => some ([x], es)
      | ',' :: es => (readElements n (skipSpace es)).map fun p => (x :: p.1, p.2)
      | _ => none

/-- One or more members separated by commas, up to the closing brace. -/
def readMembers : ℕ → List Char → Option (List (PyStr × Json) × List Char)
  | n + 1, '"' :: cs =>
    match readString (cs.length + 1) cs with
    | none => none
    | some (k, ds) =>
      match skipSpace ds with
      | ':' :: es =>
        match readValue n (skipSpace es) with
        | none => none
        | some (v, fs) =>
          match skipSpace fs with
          | '}' :: gs => some ([(k, v)], gs)
          | ',' :: gs => (readMembers n (skipSpace gs)).map fun p => ((k, v) :: p.1, p.2)
          | _ => none
      | _ => none
  | _, _ => none
end

/-- Setting a key of a dict: an old key keeps its place and takes the new value. -/
def setKey (k : PyStr) (v : Json) : List (PyStr × Json) → List (PyStr × Json)
  | [] => [(k, v)]
  | (k', v') :: d => if k' = k then (k, v) :: d else (k', v') :: setKey k v d

mutual
/-- The dicts a parsed tree denotes. -/
def mergeKeys : Json → Json
  | .arr xs => .arr (mergeElements xs)
  | .obj kvs => .obj ((mergeMembers kvs).foldl (fun d p => setKey p.1 p.2 d) [])
  | v => v

def mergeElements : List Json → List Json
  | [] => []
  | x :: xs => mergeKeys x :: mergeElements xs

def mergeMembers : List (PyStr × Json) → List (PyStr × Json)
  | [] => []
  | (k, v) :: kvs => (k, mergeKeys v) :: mergeMembers kvs
end

/-- The tree a whole text spells, with the members of its objects as written. -/
def parse (cs : List Char) : Option Json :=
  match readValue (2 * cs.length + 2) (skipSpace cs) with
  | some (v, rest) => if skipSpace rest = [] then some v else none
  | none => none

/-- `json.loads`; `none` is its `JSONDecodeError`. -/
def loads (s : String) : Option Json := (parse s.toList).map mergeKeys

def keyLe (p q : PyStr × Json) : Prop := p.1 ≤ q.1

instance : DecidableRel keyLe := fun p q => inferInstanceAs (Decidable (p.1 ≤ q.1))

mutual
/-- The order in which `sort_keys=True` visits the members, at every level. -/
def sortKeys : Json → Json
  | .arr xs => .arr (sortElements xs)
  | .obj kvs => .obj ((sortMembers kvs).insertionSort keyLe)
  | v => v

def sortElements : List Json → List Json
  | [] => []
  | x :: xs => sortKeys x :: sortElements xs

def sortMembers : List (PyStr × Json) → List (PyStr × Json)
  | [] => []
  | (k, v) :: kvs => (k, sortKeys v) :: sortMembers kvs
end

end NexusCone.JsonText
