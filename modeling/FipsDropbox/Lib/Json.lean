import Mathlib.Data.Nat.Digits.Defs
import FipsDropbox.Lib.Strings

/-!
# JSON values and their text

`Json` is a tree of values whose objects keep the order in which their members
are listed, duplicates included; `collect` turns it into the sorted maps of a
typed value, where the last member of a key wins. `print` is the compact
spelling and `parse` accepts the whole grammar: free white space, every escape,
any member order, and nesting up to a limit. Floats are opaque bit patterns,
spelled and read by the two parameters `fmt` and `read`.
-/
namespace FipsDropbox
open Utf8

/-- A finite IEEE 754 double by its bits. -/
structure F64 where
  bits : UInt64
  finite : bits.toNat / 2 ^ 52 % 2 ^ 11 ≠ 2047
  deriving DecidableEq

/-- `negInt m` is the number `-(m + 1)`. -/
inductive Number where
  | posInt (n : UInt64)
  | negInt (m : Fin (2 ^ 63))
  | float (x : F64)
  deriving DecidableEq

inductive Json where
  | null
  | bool (b : Bool)
  | number (n : Number)
  | string (s : Text)
  | array (xs : List Json)
  | object (ms : List (Text × Json))

namespace Json

mutual
def depth : Json → ℕ
  | .array xs => elemsDepth xs + 1
  | .object ms => membersDepth ms + 1
  | _ => 0
def elemsDepth : List Json → ℕ
  | [] => 0
  | x :: xs => max (depth x) (elemsDepth xs)
def membersDepth : List (Text × Json) → ℕ
  | [] => 0
  | (_, v) :: ms => max (depth v) (membersDepth ms)
end

mutual
def floatFree : Json → Bool
  | .number (.float _) => false
  | .array xs => elemsFloatFree xs
  | .object ms => membersFloatFree ms
  | _ => true
def elemsFloatFree : List Json → Bool
  | [] => true
  | x :: xs => floatFree x && elemsFloatFree xs
def membersFloatFree : List (Text × Json) → Bool
  | [] => true
  | (_, v) :: ms => floatFree v && membersFloatFree ms
end

/-- The keys of a map come in strictly increasing order. -/
def keysSorted : List (Text × Json) → Bool
  | (a, _) :: (b, w) :: ms => a < b && keysSorted ((b, w) :: ms)
  | _ => true

mutual
def sorted : Json → Bool
  | .array xs => elemsSorted xs
  | .object ms => keysSorted ms && membersSorted ms
  | _ => true
def elemsSorted : List Json → Bool
  | [] => true
  | x :: xs => sorted x && elemsSorted xs
def membersSorted : List (Text × Json) → Bool
  | [] => true
  | (_, v) :: ms => sorted v && membersSorted ms
end

/-- The digits of `n`, most significant first. -/
def decimal (n : ℕ) : Text :=
  if n = 0 then ['0'] else (Nat.digits 10 n).reverse.map hexDigit

def quote : Char := Char.ofNat 34
def backslash : Char := Char.ofNat 92

def escapeChar (c : Char) : Text :=
  if c = quote then [backslash, quote]
  else if c = backslash then [backslash, backslash]
  else if c.toNat = 8 then [backslash, 'b']
  else if c.toNat = 9 then [backslash, 't']
  else if c.toNat = 10 then [backslash, 'n']
  else if c.toNat = 12 then [backslash, 'f']
  else if c.toNat = 13 then [backslash, 'r']
  else if c.toNat < 0x20 then
    [backslash, 'u', '0', '0', hexDigit (c.toNat / 16), hexDigit (c.toNat % 16)]
  else [c]

/-- The body of a string literal together with its closing quote. -/
def printStringTail (s : Text) : Text := s.flatMap escapeChar ++ [quote]

def printString (s : Text) : Text := quote :: printStringTail s

variable (fmt : F64 → Text)

def printNumber : Number → Text
  | .posInt n => decimal n.toNat
  | .negInt m => '-' :: decimal (m.val + 1)
  | .float x => fmt x

mutual
def print : Json → Text
  | .null => ['n', 'u', 'l', 'l']
  | .bool true => ['t', 'r', 'u', 'e']
  | .bool false => ['f', 'a', 'l', 's', 'e']
  | .number n => printNumber fmt n
  | .string s => printString s
  | .array [] => ['[', ']']
  | .array (x :: xs) => '[' :: (print x ++ printElems xs)
  | .object [] => ['{', '}']
  | .object ((k, v) :: ms) => '{' :: (printString k ++ ':' :: (print v ++ printMembers ms))
def printElems : List Json → Text
  | [] => [']']
  | x :: xs => ',' :: (print x ++ printElems xs)
def printMembers : List (Text × Json) → Text
  | [] => ['}']
  | (k, v) :: ms => ',' :: (printString k ++ ':' :: (print v ++ printMembers ms))
end

def isJsonSpace (c : Char) : Bool := c = ' ' || c = '\n' || c = '\t' || c = '\r'

def skipSpace (t : Text) : Text := t.dropWhile isJsonSpace

def hexValue (c : Char) : Option ℕ :=
  let n := c.toNat
  if 48 ≤ n ∧ n ≤ 57 then some (n - 48)
  else if 97 ≤ n ∧ n ≤ 102 then some (n - 87)
  else if 65 ≤ n ∧ n ≤ 70 then some (n - 55)
  else none

def hex4 : Text → Option (ℕ × Text)
  | a :: b :: c :: d :: r => do
      let w ← hexValue a
      let x ← hexValue b
      let y ← hexValue c
      let z ← hexValue d
      some (((w * 16 + x) * 16 + y) * 16 + z, r)
  | _ => none

/-- After `\u`: one code unit, or a surrogate pair; a lone surrogate is refused. -/
def parseUnicode (t : Text) : Option (Char × Text) := do
  let (n, r) ← hex4 t
  if 0xDC00 ≤ n ∧ n < 0xE000 then none
  else if 0xD800 ≤ n ∧ n < 0xDC00 then
    match r with
    | a :: b :: r =>
        if a = backslash ∧ b = 'u' then do
          let (m, r) ← hex4 r
          if 0xDC00 ≤ m ∧ m < 0xE000 then
            some (Char.ofNat (0x10000 + (n - 0xD800) * 0x400 + (m - 0xDC00)), r)
          else none
        else none
    | _ => none
  else some (Char.ofNat n, r)

/-- After a backslash. -/
def parseEscape : Text → Option (Char × Text)
  | [] => none
  | c :: r =>
      if c = quote then some (quote, r)
      else if c = backslash then some (backslash, r)
      else if c = '/' then some ('/', r)
      else if c = 'b' then some (Char.ofNat 8, r)
      else if c = 't' then some (Char.ofNat 9, r)
      else if c = 'n' then some (Char.ofNat 10, r)
      else if c = 'f' then some (Char.ofNat 12, r)
      else if c = 'r' then some (Char.ofNat 13, r)
      else if c = 'u' then parseUnicode r
      else none

/-- After an opening quote: the contents and what follows the closing quote. -/
def parseStringFuel : ℕ → Text → Option (Text × Text)
  | 0, _ => none
  | _ + 1, [] => none
  | n + 1, c :: r =>
      if c = quote then some ([], r)
      else if c = backslash then do
        let (d, r) ← parseEscape r
        (parseStringFuel n r).map fun p => (d :: p.1, p.2)
      else if c.toNat < 0x20 then none
      else (parseStringFuel n r).map fun p => (c :: p.1, p.2)

def parseString (t : Text) : Option (Text × Text) := parseStringFuel t.length t

def parseDigits (t : Text) : Option (Text × Text) :=
  match t.span isDigit with
  | ([], _) => none
  | (d :: ds, r) => some (d :: ds, r)

def isFloatMark (c : Char) : Bool := c = '.' || c = 'e' || c = 'E'

def parsePoint : Text → Option (Text × Text)
  | [] => some ([], [])
  | c :: r =>
      if c = '.' then (parseDigits r).map fun p => ('.' :: p.1, p.2)
      else some ([], c :: r)

def parsePower : Text → Option (Text × Text)
  | [] => none
  | s :: r =>
      if s = '+' ∨ s = '-' then (parseDigits r).map fun p => (s :: p.1, p.2)
      else parseDigits (s :: r)

def parseExponent : Text → Option (Text × Text)
  | [] => some ([], [])
  | c :: r =>
      if c = 'e' ∨ c = 'E' then (parsePower r).map fun p => (c :: p.1, p.2)
      else some ([], c :: r)

variable (read : Text → Option F64)

/-- The number an integer lexeme denotes: the two integer ranges first, and a
float beyond them; negative zero is a float. -/
def integerOf (neg : Bool) (ds : Text) : Option Number :=
  let n := valueOf ds
  if neg then
    if h : 1 ≤ n ∧ n ≤ 2 ^ 63 then some (.negInt ⟨n - 1, by omega⟩)
    else (read ('-' :: ds)).map .float
  else if n < 2 ^ 64 then some (.posInt (UInt64.ofNat n))
  else (read ds).map .float

def signText (neg : Bool) : Text := if neg then ['-'] else []

def parseUnsigned (neg : Bool) (t : Text) : Option (Number × Text) := do
  let (ds, r) ← parseDigits t
  if ds.head? = some '0' ∧ ds.length ≠ 1 then none
  else if r.head?.any isFloatMark then do
    let (frac, r) ← parsePoint r
    let (power, r) ← parseExponent r
    let x ← read (signText neg ++ ds ++ frac ++ power)
    some (.float x, r)
  else (integerOf read neg ds).map (·, r)

def parseNumber : Text → Option (Number × Text)
  | '-' :: r => parseUnsigned read true r
  | t => parseUnsigned read false t

def literal (name : Text) (v : Json) (t : Text) : Option (Json × Text) :=
  if name.isPrefixOf t then some (v, t.drop name.length) else none

/-- Where an item starts: at the character just seen, or after the comma it was. -/
def itemStart (first : Bool) (c : Char) (r : Text) : Text := if first then c :: r else r

mutual
/-- One value after optional white space. `depth` counts the levels left; opening
the last one is refused. -/
def parseValue : ℕ → ℕ → Text → Option (Json × Text)
  | 0, _, _ => none
  | fuel + 1, depth, t =>
      match skipSpace t with
      | [] => none
      | c :: r =>
          if c = 'n' then literal ['u', 'l', 'l'] .null r
          else if c = 't' then literal ['r', 'u', 'e'] (.bool true) r
          else if c = 'f' then literal ['a', 'l', 's', 'e'] (.bool false) r
          else if c = quote then (parseString r).map fun p => (.string p.1, p.2)
          else if c = '[' then
            if depth ≤ 1 then none
            else (parseElems fuel (depth - 1) true r).map fun p => (.array p.1, p.2)
          else if c = '{' then
            if depth ≤ 1 then none
            else (parseMembers fuel (depth - 1) true r).map fun p => (.object p.1, p.2)
          else (parseNumber read (c :: r)).map fun p => (.number p.1, p.2)
/-- Elements up to the closing bracket; every one but the first follows a comma. -/
def parseElems : ℕ → ℕ → Bool → Text → Option (List Json × Text)
  | 0, _, _, _ => none
  | fuel + 1, depth, first, t =>
      match skipSpace t with
      | [] => none
      | c :: r =>
          if c = ']' then some ([], r)
          else if first ∨ c = ',' then do
            let (x, r) ← parseValue fuel depth (itemStart first c r)
            (parseElems fuel depth false r).map fun p => (x :: p.1, p.2)
          else none
/-- Members up to the closing brace. -/
def parseMembers : ℕ → ℕ → Bool → Text → Option (List (Text × Json) × Text)
  | 0, _, _, _ => none
  | fuel + 1, depth, first, t =>
      match skipSpace t with
      | [] => none
      | c :: r =>
          if c = '}' then some ([], r)
          else if first ∨ c = ',' then
            match skipSpace (itemStart first c r) with
            | [] => none
            | q :: r =>
                if q = quote then do
                  let (k, r) ← parseString r
                  match skipSpace r with
                  | [] => none
                  | s :: r =>
                      if s = ':' then do
                        let (v, r) ← parseValue fuel depth r
                        (parseMembers fuel depth false r).map fun p => ((k, v) :: p.1, p.2)
                      else none
                else none
          else none
end

/-- A whole document: one value and nothing but white space after it. -/
def parse (depth : ℕ) (t : Text) : Option Json := do
  let (v, r) ← parseValue read (t.length + 1) depth t
  if skipSpace r = [] then some v else none

/-- `BTreeMap::insert`. -/
def insert (k : Text) (v : Json) : List (Text × Json) → List (Text × Json)
  | [] => [(k, v)]
  | (l, w) :: ms =>
      if k < l then (k, v) :: (l, w) :: ms
      else if l < k then (l, w) :: insert k v ms
      else (k, v) :: ms

mutual
/-- The typed value: every object becomes a map. -/
def collect : Json → Json
  | .array xs => .array (collectElems xs)
  | .object ms => .object (collectMembers ms [])
  | j => j
def collectElems : List Json → List Json
  | [] => []
  | x :: xs => collect x :: collectElems xs
def collectMembers : List (Text × Json) → List (Text × Json) → List (Text × Json)
  | [], acc => acc
  | (k, v) :: ms, acc => collectMembers ms (insert k (collect v) acc)
end

end Json
end FipsDropbox
