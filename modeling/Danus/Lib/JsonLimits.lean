import Danus.Lib.JsonRead

/-! Where `json.loads` and `raw_decode` do more than read a text or refuse it: an integer of too many digits and a
value nested too deep raise other exceptions than a decoding error, and the escape of an unpaired surrogate reads
as a string that UTF-8 cannot write. -/
namespace Python.Json

/-- Whether a text has the escape of an unpaired surrogate; the number bounds the steps. -/
def loneSurrogate : Nat → PyStr → Bool
  | 0, _ => false
  | n + 1, '\\' :: 'u' :: cs =>
    match unescapeUnit cs with
    | some p => loneSurrogate n p.2
    | none => (hexValue cs).isSome || loneSurrogate n cs
  | n + 1, '\\' :: _ :: cs => loneSurrogate n cs
  | n + 1, _ :: cs => loneSurrogate n cs
  | _, [] => false

/-- No run of digits is longer than this. -/
def digitsWithin (limit : Nat) : Nat → PyStr → Bool
  | _, [] => true
  | run, c :: cs =>
    if '0' ≤ c ∧ c ≤ '9' then decide (run < limit) && digitsWithin limit (run + 1) cs
    else digitsWithin limit 0 cs

/-- Where a scan of brackets is: outside strings, in one, or after a backslash in one. -/
inductive Scanning where
  | plain | string | escaped

/-- No bracket that is read from here on is nested deeper than this. -/
def nestedWithin (limit : Nat) : Nat → Scanning → PyStr → Bool
  | _, _, [] => true
  | d, .escaped, _ :: cs => nestedWithin limit d .string cs
  | d, .string, c :: cs =>
    nestedWithin limit d (if c = '\\' then .escaped else if c = '"' then .plain else .string) cs
  | d, .plain, c :: cs =>
    if c = '"' then nestedWithin limit d .string cs
    else if c = '[' ∨ c = '\x7b' then decide (d < limit) && nestedWithin limit (d + 1) .plain cs
    else if c = ']' ∨ c = '\x7d' then nestedWithin limit (d - 1) .plain cs
    else nestedWithin limit d .plain cs

/-- No integer that is read from here on has more digits; a number with a fraction or an exponent may. The flag
says whether one has been read of the number at hand, the count how many digits have come since. -/
def integersWithin (limit : Nat) : Scanning → Bool → Nat → PyStr → Bool
  | _, pointed, run, [] => pointed || decide (run ≤ limit)
  | .escaped, _, _, _ :: cs => integersWithin limit .string false 0 cs
  | .string, _, _, c :: cs =>
    integersWithin limit (if c = '\\' then .escaped else if c = '"' then .plain else .string) false 0 cs
  | .plain, pointed, run, c :: cs =>
    if '0' ≤ c ∧ c ≤ '9' then integersWithin limit .plain pointed (run + 1) cs
    else if 0 < run ∧ (c = '.' ∨ c = 'e' ∨ c = 'E') then integersWithin limit .plain true 0 cs
    else if pointed = true ∧ (c = '+' ∨ c = '-') then integersWithin limit .plain true run cs
    else (pointed || decide (run ≤ limit)) &&
      integersWithin limit (if c = '"' then .string else .plain) false 0 cs

/-- `sys.int_info.default_max_str_digits` -/
def maxStrDigits : Nat := 4300

/-- `json.loads(text)` where a `ValueError` is caught: an integer of too many digits is refused like a text that is
no JSON. -/
def parseWithin (text : PyStr) : Option Json :=
  if integersWithin maxStrDigits .plain false 0 text = true then parse text else none

theorem parseWithin_some {text : PyStr} {v : Json} (h : parseWithin text = some v) : parse text = some v := by
  unfold parseWithin at h
  split_ifs at h
  exact h

theorem parseWithin_parse {text : PyStr} (h : integersWithin maxStrDigits .plain false 0 text = true) :
    parseWithin text = parse text := if_pos h

/-- A text that decoding, from wherever in it, reads or refuses, and reads as strings that UTF-8 can write. -/
structure Ordinary (depth : Nat) (text : PyStr) : Prop where
  paired : loneSurrogate text.length text = false
  digits : digitsWithin maxStrDigits 0 text = true
  nested : (text.tails.all fun rest => nestedWithin depth 0 .plain rest) = true

instance (depth : Nat) (text : PyStr) : Decidable (Ordinary depth text) :=
  decidable_of_iff (loneSurrogate text.length text = false ∧ digitsWithin maxStrDigits 0 text = true ∧
    (text.tails.all fun rest => nestedWithin depth 0 .plain rest) = true)
    ⟨fun h => ⟨h.1, h.2.1, h.2.2⟩, fun h => ⟨h.paired, h.digits, h.nested⟩⟩

example : integersWithin 2 .plain false 0 "[-12, 1.2345e+678, \"9999\"]".toList = true ∧
    integersWithin 2 .plain false 0 "[123]".toList = false := by decide

example : loneSurrogate 12 "\\ud83d\\ude00".toList = false ∧ loneSurrogate 6 "\\ud800".toList = true := by decide

end Python.Json
