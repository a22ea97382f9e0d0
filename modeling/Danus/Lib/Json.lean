import Danus.Lib.Text
import Mathlib.Data.List.Sort

/-! JSON values and `json.dumps`. -/
namespace Python

def isDigit (c : Char) : Bool := '0' ≤ c && c ≤ '9'

/-- `0|[1-9][0-9]*` at the front, and the rest. -/
def scanNat : PyStr → Option (PyStr × PyStr)
  | [] => none
  | c :: cs =>
    if c = '0' then some (['0'], cs)
    else if isDigit c then some (c :: (cs.span isDigit).1, (cs.span isDigit).2) else none

/-- `-?(0|[1-9][0-9]*)` -/
def scanInt : PyStr → Option (PyStr × PyStr)
  | [] => none
  | c :: cs => if c = '-' then (scanNat cs).map fun p => ('-' :: p.1, p.2) else scanNat (c :: cs)

/-- `(\.[0-9]+)?` -/
def scanFraction : PyStr → PyStr × PyStr
  | [] => ([], [])
  | c :: cs =>
    let digits := cs.span isDigit
    if c = '.' ∧ digits.1 ≠ [] then (c :: digits.1, digits.2) else ([], c :: cs)

/-- `[+-]?` -/
def scanSign : PyStr → PyStr × PyStr
  | [] => ([], [])
  | c :: cs => if c = '+' ∨ c = '-' then ([c], cs) else ([], c :: cs)

/-- `([eE][+-]?[0-9]+)?` -/
def scanExponent : PyStr → PyStr × PyStr
  | [] => ([], [])
  | c :: cs =>
    let sign := scanSign cs
    let digits := sign.2.span isDigit
    if (c = 'e' ∨ c = 'E') ∧ digits.1 ≠ [] then (c :: (sign.1 ++ digits.1), digits.2)
    else ([], c :: cs)

/-- The value of a text of digits. -/
def digitsValue (digits : PyStr) : Nat := Nat.ofDigitChars 10 digits 0

/-- `int(text)` for a text of digits with a sign. -/
def intValue : PyStr → Int
  | '-' :: digits => -(digitsValue digits : Int)
  | '+' :: digits => digitsValue digits
  | digits => digitsValue digits

/-- `math.isfinite(float(text))`: halfway between the largest float and the next power of two, rounding
goes to infinity. -/
@[irreducible] def isFiniteNumber (integer fraction exponent : PyStr) : Bool :=
  let bound : Nat := 2 ^ 1024 - 2 ^ 970
  let mantissa := digitsValue (integer.filter isDigit ++ fraction.drop 1)
  let e := intValue (exponent.drop 1) - (fraction.drop 1).length
  if 0 ≤ e then mantissa * 10 ^ e.toNat < bound else mantissa < bound * 10 ^ (-e).toNat

/-- A text that is the `repr` of a finite float: a number with a fraction or an exponent. -/
def isFloatText (text : PyStr) : Bool :=
  match scanInt text with
  | some (integer, rest) =>
    let fraction := scanFraction rest
    let exponent := scanExponent fraction.2
    (fraction.1 != [] || exponent.1 != []) && exponent.2 == [] &&
      isFiniteNumber integer fraction.1 exponent.1
  | none => false

/-- A Python `float`, as its `repr`. -/
inductive PyFloat where
  | finite (text : PyStr) (isText : isFloatText text = true)
  | infinite (negative : Bool)
  | nan

/-- `float.__repr__`, as `json.dumps` writes it. -/
def PyFloat.text : PyFloat → PyStr
  | .finite text _ => text
  | .infinite false => "Infinity".toList
  | .infinite true => "-Infinity".toList
  | .nan => "NaN".toList

/-- A JSON value; an object lists its items in insertion order. -/
inductive Json where
  | null
  | bool (b : Bool)
  | int (i : Int)
  | float (x : PyFloat)
  | str (s : PyStr)
  | arr (items : List Json)
  | obj (items : List (PyStr × Json))

namespace Json

/-- `value.get(key)` of an object. -/
def get? (key : PyStr) : Json → Option Json
  | .obj items => items.lookup key
  | _ => none

/-- The keys of an object. -/
def keys : Json → List PyStr
  | .obj items => items.map Prod.fst
  | _ => []

/-- `{n:0kx}`: the last `k` hexadecimal digits. -/
def hexText : Nat → Nat → PyStr
  | 0, _ => []
  | k + 1, n => hexText k (n / 16) ++ ["0123456789abcdef".toList.getD (n % 16) '0']

def escapeUnit (n : Nat) : PyStr := '\\' :: 'u' :: hexText 4 n

/-- One character of a JSON string, with or without `ensure_ascii`. -/
def escapeChar (ascii : Bool) (c : Char) : PyStr :=
  let n := c.toNat
  if c = '"' then ['\\', '"']
  else if c = '\\' then ['\\', '\\']
  else if n = 8 then ['\\', 'b']
  else if n = 12 then ['\\', 'f']
  else if n = 10 then ['\\', 'n']
  else if n = 13 then ['\\', 'r']
  else if n = 9 then ['\\', 't']
  else if n < 0x20 then escapeUnit n
  else if !ascii || n < 0x7f then [c]
  else if n < 0x10000 then escapeUnit n
  else escapeUnit (0xd800 + (n - 0x10000) / 0x400) ++ escapeUnit (0xdc00 + (n - 0x10000) % 0x400)

/-- A quoted JSON string. -/
def quote (ascii : Bool) (s : PyStr) : PyStr := '"' :: s.flatMap (escapeChar ascii) ++ ['"']

/-- Python's order on `str`, by code points. -/
def strLe : PyStr → PyStr → Bool
  | [], _ => true
  | _ :: _, [] => false
  | a :: as, b :: bs => a.toNat < b.toNat || (a == b && strLe as bs)

/-- `sorted(items)` for items with distinct keys. -/
def sortByKey {α : Type} (items : List (PyStr × α)) : List (PyStr × α) :=
  items.insertionSort fun a b => strLe a.1 b.1 = true

def intText (i : Int) : PyStr := if i < 0 then '-' :: natText i.natAbs else natText i.natAbs

/-- The keyword arguments of `json.dumps` that the code uses. -/
structure Style where
  ensureAscii : Bool
  sortKeys : Bool
  itemSeparator : PyStr
  keySeparator : PyStr

/-- `separators=(",", ":")` -/
def compact (ensureAscii sortKeys : Bool) : Style := ⟨ensureAscii, sortKeys, [','], [':']⟩

/-- The default separators. -/
def spaced (ensureAscii sortKeys : Bool) : Style := ⟨ensureAscii, sortKeys, [',', ' '], [':', ' ']⟩

mutual
/-- `json.dumps(value, …)` -/
def dumps (style : Style) : Json → PyStr
  | .null => "null".toList
  | .bool true => "true".toList
  | .bool false => "false".toList
  | .int i => intText i
  | .float x => x.text
  | .str s => quote style.ensureAscii s
  | .arr items => '[' :: joinWith style.itemSeparator (dumpsItems style items) ++ [']']
  | .obj items =>
    let rendered := dumpsFields style items
    let ordered := if style.sortKeys then sortByKey rendered else rendered
    '{' :: joinWith style.itemSeparator
      (ordered.map fun kv => quote style.ensureAscii kv.1 ++ style.keySeparator ++ kv.2) ++ ['}']

def dumpsItems (style : Style) : List Json → List PyStr
  | [] => []
  | v :: vs => dumps style v :: dumpsItems style vs

def dumpsFields (style : Style) : List (PyStr × Json) → List (PyStr × PyStr)
  | [] => []
  | (k, v) :: kvs => (k, dumps style v) :: dumpsFields style kvs
end

/-- A string, or `null`. -/
def ofOption : Option PyStr → Json
  | some s => .str s
  | none => .null

/-- `dict[str, str]` -/
def ofDict (items : List (PyStr × PyStr)) : Json := .obj (items.map fun kv => (kv.1, .str kv.2))

end Json

/-- `hashlib.sha256(json.dumps(value, …).encode("utf-8"))`'s input. -/
def Json.preimage (style : Json.Style) (value : Json) : List Nat := encodeUtf8 (value.dumps style)

end Python
