import Mathlib.Algebra.Order.Ring.Int
import Mathlib.Algebra.Order.Ring.Nat
import Mathlib.Data.List.Basic
import Mathlib.Data.List.Infix

/-! Python text as lists of characters: whitespace, lines, and UTF-8. -/
namespace Python

/-- A Python `str` without lone surrogates. -/
abbrev PyStr : Type := List Char

instance : LawfulBEq PyStr := List.instLawfulBEq

-- a bound over a text is decided over its characters, not over all there are
instance (priority := 2000) decidableChars (p : Char → Prop) [DecidablePred p] (s : PyStr) :
    Decidable (∀ c ∈ s, p c) := List.decidableBAll p s

/-- `str.isspace`, which is also what `str.strip` removes and the regular expression `\s` matches. -/
def isSpace (c : Char) : Bool :=
  let n := c.toNat
  (9 ≤ n && n ≤ 13) || (28 ≤ n && n ≤ 32) || n == 0x85 || n == 0xa0 || n == 0x1680 ||
    (0x2000 ≤ n && n ≤ 0x200a) || n == 0x2028 || n == 0x2029 || n == 0x202f || n == 0x205f ||
    n == 0x3000

/-- The characters `str.splitlines` breaks at. -/
def isLineBreak (c : Char) : Bool :=
  let n := c.toNat
  (10 ≤ n && n ≤ 13) || (0x1c ≤ n && n ≤ 0x1e) || n == 0x85 || n == 0x2028 || n == 0x2029

def lstrip (s : PyStr) : PyStr := s.dropWhile isSpace

def rstrip (s : PyStr) : PyStr := (s.reverse.dropWhile isSpace).reverse

/-- `str.strip` -/
def strip (s : PyStr) : PyStr := rstrip (lstrip s)

/-- `str.splitlines`, with the line read so far; `\r\n` is one break. -/
def splitlinesFrom (line : PyStr) : PyStr → List PyStr
  | [] => if line.isEmpty then [] else [line.reverse]
  | '\r' :: '\n' :: cs => line.reverse :: splitlinesFrom [] cs
  | c :: cs =>
    if isLineBreak c then line.reverse :: splitlinesFrom [] cs else splitlinesFrom (c :: line) cs

def splitlines (s : PyStr) : List PyStr := splitlinesFrom [] s

example : splitlines "a\r\nb".toList = ["a".toList, "b".toList] := by
  simp [splitlines, splitlinesFrom, isLineBreak]

/-- `str.lower` on ASCII. No other character lowers to text without a non-ASCII character but
U+212A (to `k`), so comparing with a heading that has no `k` agrees with Python. -/
def lower (s : PyStr) : PyStr := s.map Char.toLower

/-- `sep.join(parts)` -/
def joinWith (sep : PyStr) (parts : List PyStr) : PyStr := sep.intercalate parts

theorem joinWith_cons_cons (sep a b : PyStr) (l : List PyStr) :
    joinWith sep (a :: b :: l) = a ++ (sep ++ joinWith sep (b :: l)) := by
  simp [joinWith, List.intercalate, List.intersperse]

theorem joinWith_singleton (sep a : PyStr) : joinWith sep [a] = a := by
  simp [joinWith, List.intercalate]

/-- The UTF-8 bytes of one character. -/
def utf8Char (c : Char) : List Nat :=
  let n := c.toNat
  if n < 0x80 then [n]
  else if n < 0x800 then [0xc0 + n / 0x40, 0x80 + n % 0x40]
  else if n < 0x10000 then [0xe0 + n / 0x1000, 0x80 + n / 0x40 % 0x40, 0x80 + n % 0x40]
  else [0xf0 + n / 0x40000, 0x80 + n / 0x1000 % 0x40, 0x80 + n / 0x40 % 0x40, 0x80 + n % 0x40]

/-- `str.encode("utf-8")` -/
def encodeUtf8 (s : PyStr) : List Nat := s.flatMap utf8Char

def utf8Length (s : PyStr) : Nat := (encodeUtf8 s).length

/-- `str(n)` of a natural number. -/
def natText (n : Nat) : PyStr := (Nat.repr n).toList

def isHex (c : Char) : Bool := ('0' ≤ c && c ≤ '9') || ('a' ≤ c && c ≤ 'f')

def isAlnumAscii (c : Char) : Bool :=
  ('0' ≤ c && c ≤ '9') || ('a' ≤ c && c ≤ 'z') || ('A' ≤ c && c ≤ 'Z')

/-- `re.fullmatch(r"[0-9a-f]{n}", s)` -/
def isHexOf (n : Nat) (s : PyStr) : Bool := s.length == n && s.all isHex

end Python
