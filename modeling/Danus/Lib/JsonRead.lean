import Danus.Lib.Dict
import Danus.Lib.Json

/-! `json.loads`. -/
namespace Python.Json

/-- The hooks of `json.loads`; a hook that raises gives nothing. -/
structure Hooks where
  object : List (PyStr × Json) → Option Json
  float : PyFloat → Option PyFloat
  constant : PyFloat → Option PyFloat

/-- `items[key] = value`, in place where the key is there already. -/
def setItem (items : List (PyStr × Json)) (item : PyStr × Json) : List (PyStr × Json) :=
  if items.any (·.1 == item.1) then items.map fun kv => if kv.1 == item.1 then item else kv
  else items ++ [item]

theorem lookup_replace {k key : PyStr} (v : Json) (hne : key ≠ k) (items : List (PyStr × Json)) :
    (items.map fun kv => if kv.1 == k then (k, v) else kv).lookup key = items.lookup key := by
  induction items with
  | nil => rfl
  | cons kv items ih =>
    obtain ⟨k', v'⟩ := kv
    rw [List.map_cons]
    by_cases hk : k' = k
    · rw [if_pos (beq_iff_eq.mpr hk), lookup_cons_of_ne hne, lookup_cons_of_ne (hk ▸ hne), ih]
    · rw [if_neg fun he => hk (beq_iff_eq.mp he)]
      by_cases hkey : key = k'
      · rw [hkey, lookup_cons_self, lookup_cons_self]
      · rw [lookup_cons_of_ne hkey, lookup_cons_of_ne hkey, ih]

theorem lookup_replace_self {k : PyStr} (v : Json) {items : List (PyStr × Json)}
    (hany : items.any (·.1 == k) = true) :
    (items.map fun kv => if kv.1 == k then (k, v) else kv).lookup k = some v := by
  induction items with
  | nil => cases hany
  | cons kv items ih =>
    obtain ⟨k', v'⟩ := kv
    rw [List.map_cons]
    by_cases hk : k' = k
    · rw [if_pos (beq_iff_eq.mpr hk), lookup_cons_self]
    · rw [List.any_cons, beq_false_of_ne hk, Bool.false_or] at hany
      rw [if_neg fun he => hk (beq_iff_eq.mp he), lookup_cons_of_ne (Ne.symm hk), ih hany]

theorem lookup_setItem (items : List (PyStr × Json)) (k key : PyStr) (v : Json) :
    (setItem items (k, v)).lookup key = if key = k then some v else items.lookup key := by
  unfold setItem
  by_cases hany : items.any (·.1 == k) = true
  · rw [if_pos hany]
    split_ifs with hk
    · rw [hk]
      exact lookup_replace_self v hany
    · exact lookup_replace v hk items
  · rw [if_neg hany, List.lookup_append]
    split_ifs with hk
    · have hnone : items.lookup k = none := by
        cases hl : items.lookup k with
        | none => rfl
        | some w =>
          refine (hany (List.any_eq_true.mpr ⟨_, mem_of_lookup_eq_some hl, ?_⟩)).elim
          exact beq_self_eq_true k
      rw [hk, hnone, Option.none_or, lookup_cons_self]
    · rw [lookup_cons_of_ne hk, List.lookup_nil, Option.or_none]

/-- Setting keys that are new one after another appends them. -/
theorem setItems_append {items more : List (PyStr × Json)}
    (hn : ((items ++ more).map Prod.fst).Nodup) : more.foldl setItem items = items ++ more := by
  induction more generalizing items with
  | nil => simp
  | cons kv more ih =>
    have hnew : items.any (·.1 == kv.1) = false := by
      rw [List.any_eq_false]
      intro p hp he
      rw [List.map_append, List.nodup_append] at hn
      exact hn.2.2 p.1 (List.mem_map_of_mem hp) kv.1 List.mem_cons_self (beq_iff_eq.mp he)
    have hset : setItem items kv = items ++ [kv] := by
      rw [setItem, if_neg (by simp [hnew])]
    have happ : items ++ kv :: more = (items ++ [kv]) ++ more := by simp
    rw [List.foldl_cons, hset, happ]
    exact ih (happ ▸ hn)

/-- `{**items, **more}` finds a key in `more` first. -/
theorem lookup_setItems {more : List (PyStr × Json)} (hn : (more.map Prod.fst).Nodup)
    (items : List (PyStr × Json)) (key : PyStr) :
    (more.foldl setItem items).lookup key = (more.lookup key).or (items.lookup key) := by
  induction more generalizing items with
  | nil => rfl
  | cons kv more ih =>
    obtain ⟨k, v⟩ := kv
    obtain ⟨hnot, hn⟩ := List.nodup_cons.mp hn
    rw [List.foldl_cons, ih hn, lookup_setItem]
    by_cases hk : key = k
    · have hnone : more.lookup key = none := by
        cases hl : more.lookup key with
        | none => rfl
        | some w => exact (hnot (List.mem_map.mpr ⟨_, mem_of_lookup_eq_some hl, hk⟩)).elim
      rw [if_pos hk, hnone, Option.none_or, ← hk, lookup_cons_self, Option.some_or]
    · rw [if_neg hk, lookup_cons_of_ne hk]

/-- `json.loads` without hooks: the last of equal keys wins. -/
def plainHooks : Hooks where
  object items := some (.obj (items.foldl setItem []))
  float := some
  constant := some

/-- JSON's whitespace. -/
def isJsonSpace (c : Char) : Bool := c == ' ' || c == '\t' || c == '\n' || c == '\r'

def skipSpace (cs : PyStr) : PyStr := cs.dropWhile isJsonSpace

def hexDigit (c : Char) : Option Nat :=
  if '0' ≤ c ∧ c ≤ '9' then some (c.toNat - 48)
  else if 'a' ≤ c ∧ c ≤ 'f' then some (c.toNat - 87)
  else if 'A' ≤ c ∧ c ≤ 'F' then some (c.toNat - 55) else none

/-- Four hexadecimal digits. -/
def hexValue : PyStr → Option (Nat × PyStr)
  | a :: b :: c :: d :: rest =>
    (hexDigit a).bind fun a => (hexDigit b).bind fun b => (hexDigit c).bind fun c =>
      (hexDigit d).map fun d => (a * 4096 + b * 256 + c * 16 + d, rest)
  | _ => none

/-- What follows `\u`; a pair of surrogates is one character, a lone one is no text here. -/
def unescapeUnit (cs : PyStr) : Option (Char × PyStr) :=
  (hexValue cs).bind fun p =>
    if 0xd800 ≤ p.1 ∧ p.1 < 0xdc00 then
      match p.2 with
      | '\\' :: 'u' :: rest => (hexValue rest).bind fun q =>
        if 0xdc00 ≤ q.1 ∧ q.1 < 0xe000 then
          some (Char.ofNat (0x10000 + (p.1 - 0xd800) * 0x400 + (q.1 - 0xdc00)), q.2)
        else none
      | _ => none
    else if 0xdc00 ≤ p.1 ∧ p.1 < 0xe000 then none
    else some (Char.ofNat p.1, p.2)

/-- What follows a backslash. -/
def unescape : PyStr → Option (Char × PyStr)
  | [] => none
  | c :: cs =>
    if c = '"' ∨ c = '\\' ∨ c = '/' then some (c, cs)
    else if c = 'b' then some (Char.ofNat 8, cs)
    else if c = 'f' then some (Char.ofNat 12, cs)
    else if c = 'n' then some ('\n', cs)
    else if c = 'r' then some ('\r', cs)
    else if c = 't' then some ('\t', cs)
    else if c = 'u' then unescapeUnit cs else none

/-- One character of a string; a bare control character is refused. -/
def scanChar : PyStr → Option (Char × PyStr)
  | [] => none
  | c :: cs => if c = '\\' then unescape cs else if c.toNat < 0x20 then none else some (c, cs)

/-- The rest of a string after its opening quote, of at most so many characters. -/
def scanString : Nat → PyStr → Option (PyStr × PyStr)
  | 0, _ => none
  | _ + 1, [] => none
  | n + 1, c :: cs =>
    if c = '"' then some ([], cs)
    else (scanChar (c :: cs)).bind fun p => (scanString n p.2).map fun q => (p.1 :: q.1, q.2)

/-- `NUMBER_RE`: an integer, or a float where there is a fraction or an exponent. -/
def scanNumber (h : Hooks) (cs : PyStr) : Option (Json × PyStr) :=
  (scanInt cs).bind fun p =>
    let fraction := scanFraction p.2
    let exponent := scanExponent fraction.2
    let text := p.1 ++ fraction.1 ++ exponent.1
    if fraction.1 = [] ∧ exponent.1 = [] then some (.int (intValue p.1), p.2)
    else
      let value := if ht : isFloatText text = true then PyFloat.finite text ht
        else .infinite (p.1.headD '0' == '-')
      (h.float value).map fun x => (.float x, exponent.2)

/-- `null`, `true`, `false`, the constants that are not JSON, and numbers. -/
def scanAtom (h : Hooks) (cs : PyStr) : Option (Json × PyStr) :=
  if "null".toList <+: cs then some (.null, cs.drop 4)
  else if "true".toList <+: cs then some (.bool true, cs.drop 4)
  else if "false".toList <+: cs then some (.bool false, cs.drop 5)
  else if "NaN".toList <+: cs then (h.constant .nan).map fun x => (.float x, cs.drop 3)
  else if "Infinity".toList <+: cs then
    (h.constant (.infinite false)).map fun x => (.float x, cs.drop 8)
  else if "-Infinity".toList <+: cs then
    (h.constant (.infinite true)).map fun x => (.float x, cs.drop 9)
  else scanNumber h cs

mutual
/-- One value at the front of the text. The first number bounds the work, the second one the nesting
that the interpreter's stack allows. -/
def scanValue (h : Hooks) : Nat → Nat → PyStr → Option (Json × PyStr)
  | 0, _, _ => none
  | _ + 1, _, [] => none
  | n + 1, d, c :: cs =>
    if c = '"' then (scanString (cs.length + 1) cs).map fun p => (.str p.1, p.2)
    else if c = '[' then scanArray h n d cs
    else if c = '\x7b' then scanObject h n d cs
    else scanAtom h (c :: cs)

def scanArray (h : Hooks) : Nat → Nat → PyStr → Option (Json × PyStr)
  | 0, _, _ | _, 0, _ => none
  | n + 1, d + 1, cs =>
    match skipSpace cs with
    | ']' :: rest => some (.arr [], rest)
    | rest => (scanItems h n d rest).map fun p => (.arr p.1, p.2)

def scanObject (h : Hooks) : Nat → Nat → PyStr → Option (Json × PyStr)
  | 0, _, _ | _, 0, _ => none
  | n + 1, d + 1, cs =>
    match skipSpace cs with
    | '\x7d' :: rest => (h.object []).map (·, rest)
    | rest => (scanFields h n d rest).bind fun p => (h.object p.1).map (·, p.2)

def scanItems (h : Hooks) : Nat → Nat → PyStr → Option (List Json × PyStr)
  | 0, _, _ => none
  | n + 1, d, cs =>
    (scanValue h n d cs).bind fun p =>
      match skipSpace p.2 with
      | ',' :: rest => (scanItems h n d (skipSpace rest)).map fun q => (p.1 :: q.1, q.2)
      | ']' :: rest => some ([p.1], rest)
      | _ => none

def scanFields (h : Hooks) : Nat → Nat → PyStr → Option (List (PyStr × Json) × PyStr)
  | 0, _, _ => none
  | n + 1, d, cs =>
    match cs with
    | '"' :: cs => (scanString (cs.length + 1) cs).bind fun k =>
      match skipSpace k.2 with
      | ':' :: rest => (scanValue h n d (skipSpace rest)).bind fun p =>
        match skipSpace p.2 with
        | ',' :: rest => (scanFields h n d (skipSpace rest)).map fun q => ((k.1, p.1) :: q.1, q.2)
        | '\x7d' :: rest => some ([(k.1, p.1)], rest)
        | _ => none
      | _ => none
    | _ => none
end

mutual
/-- How deep arrays and objects nest. -/
def nesting : Json → Nat
  | .arr items => nestingItems items + 1
  | .obj items => nestingFields items + 1
  | _ => 0

def nestingItems : List Json → Nat
  | [] => 0
  | v :: vs => max (nesting v) (nestingItems vs)

def nestingFields : List (PyStr × Json) → Nat
  | [] => 0
  | (_, v) :: kvs => max (nesting v) (nestingFields kvs)
end

mutual
/-- What the hooks make of a value, from the inside out. -/
def hooked (h : Hooks) : Json → Option Json
  | .float (.finite text ht) => (h.float (.finite text ht)).map .float
  | .float (.infinite b) => (h.constant (.infinite b)).map .float
  | .float .nan => (h.constant .nan).map .float
  | .arr items => (hookedItems h items).map .arr
  | .obj items => (hookedFields h items).bind h.object
  | v => some v

def hookedItems (h : Hooks) : List Json → Option (List Json)
  | [] => some []
  | v :: vs => (hooked h v).bind fun v' => (hookedItems h vs).map (v' :: ·)

def hookedFields (h : Hooks) : List (PyStr × Json) → Option (List (PyStr × Json))
  | [] => some []
  | (k, v) :: kvs => (hooked h v).bind fun v' => (hookedFields h kvs).map ((k, v') :: ·)
end

mutual
/-- No number is infinite or not a number. -/
def finiteNumbers : Json → Bool
  | .float (.infinite _) | .float .nan => false
  | .arr items => finiteItems items
  | .obj items => finiteFields items
  | _ => true

def finiteItems : List Json → Bool
  | [] => true
  | v :: vs => finiteNumbers v && finiteItems vs

def finiteFields : List (PyStr × Json) → Bool
  | [] => true
  | (_, v) :: kvs => finiteNumbers v && finiteFields kvs
end

mutual
/-- No object has a key twice. -/
def distinctKeys : Json → Bool
  | .arr items => distinctItems items
  | .obj items => decide (items.map Prod.fst).Nodup && distinctFields items
  | _ => true

def distinctItems : List Json → Bool
  | [] => true
  | v :: vs => distinctKeys v && distinctItems vs

def distinctFields : List (PyStr × Json) → Bool
  | [] => true
  | (_, v) :: kvs => distinctKeys v && distinctFields kvs
end

theorem distinctKeys_ofDict {terms : List (PyStr × PyStr)} (hn : (terms.map Prod.fst).Nodup) :
    (ofDict terms).distinctKeys = true := by
  have hfields : ∀ l : List (PyStr × PyStr),
      distinctFields (l.map fun kv => (kv.1, Json.str kv.2)) = true := by
    intro l
    induction l with
    | nil => rfl
    | cons kv l ih =>
      rw [List.map_cons, distinctFields, ih]
      rfl
  rw [ofDict, distinctKeys, hfields, Bool.and_true, decide_eq_true_iff, List.map_map]
  exact hn

/-- Hooks that refuse equal keys and numbers that are not finite. -/
def strictHooks : Hooks where
  object items := if (items.map Prod.fst).Nodup then some (.obj items) else none
  float
    | .finite text ht => some (.finite text ht)
    | _ => none
  constant _ := none

/-- `json.loads(text)` within this nesting; nothing where it raises. -/
def loads (h : Hooks) (depth : Nat) (text : PyStr) : Option Json :=
  (scanValue h (3 * text.length + 1) depth (skipSpace text)).bind fun p =>
    if skipSpace p.2 = [] then some p.1 else none

/-- `json.loads(text)`, with room for any nesting: a text nests no deeper than it is long. -/
def parse (text : PyStr) : Option Json := loads plainHooks text.length text

end Python.Json
