import Danus.Lib.JsonScan

/-! `json.loads` reads back what `json.dumps` wrote. -/
namespace Python.Json

mutual
/-- How much work a value is to read. -/
def cost : Json → Nat
  | .arr items => costItems items + 2
  | .obj items => costFields items + 2
  | _ => 1

def costItems : List Json → Nat
  | [] => 0
  | v :: vs => cost v + costItems vs + 1

def costFields : List (PyStr × Json) → Nat
  | [] => 0
  | (_, v) :: kvs => cost v + costFields kvs + 1
end

section Values
variable {style : Style} {rest : PyStr}

theorem cost_pos (v : Json) : 0 < cost v := by
  cases v <;> simp [cost]

theorem cost_atom (v : Json) : 1 ≤ 3 * (dumps style v).length := by
  obtain ⟨c, cs, hc, _⟩ := dumps_head style v
  rw [hc, List.length_cons]
  omega

mutual
/-- The work is bounded by the text. -/
theorem cost_le (hs : style.sortKeys = false) (hi : style.itemSeparator ≠ []) :
    ∀ v : Json, cost v ≤ 3 * (dumps style v).length
  | .null => cost_atom _
  | .bool b => cost_atom (.bool b)
  | .int i => cost_atom (.int i)
  | .float x => cost_atom (.float x)
  | .str s => cost_atom (.str s)
  | .arr items => by
    have h := costItems_le hs hi items
    simp only [dumps, cost, List.length_append, List.length_cons, List.length_nil]
    omega
  | .obj items => by
    have h := costFields_le hs hi items
    simp only [dumps, cost, hs, List.length_append, List.length_cons, List.length_nil,
      Bool.false_eq_true, if_false]
    omega

theorem costItems_le (hs : style.sortKeys = false) (hi : style.itemSeparator ≠ []) :
    ∀ vs : List Json, costItems vs ≤
      3 * (joinWith style.itemSeparator (dumpsItems style vs)).length + 1
  | [] => by simp [costItems]
  | [v] => by
    have h := cost_le hs hi v
    simp only [dumpsItems, joinWith_singleton, costItems]
    omega
  | v :: w :: vs => by
    have h := cost_le hs hi v
    have ht := costItems_le hs hi (w :: vs)
    have hpos := List.length_pos_of_ne_nil hi
    simp only [dumpsItems, joinWith_cons_cons, List.length_append] at ht ⊢
    rw [costItems]
    omega

theorem costFields_le (hs : style.sortKeys = false) (hi : style.itemSeparator ≠ []) :
    ∀ kvs : List (PyStr × Json), costFields kvs ≤ 3 * (joinWith style.itemSeparator
      ((dumpsFields style kvs).map fun kv =>
        quote style.ensureAscii kv.1 ++ style.keySeparator ++ kv.2)).length + 1
  | [] => by simp [costFields]
  | [(k, v)] => by
    have h := cost_le hs hi v
    simp only [dumpsFields, List.map_cons, List.map_nil, joinWith_singleton, costFields,
      List.length_append]
    omega
  | (k, v) :: (k', w) :: kvs => by
    have h := cost_le hs hi v
    have ht := costFields_le hs hi ((k', w) :: kvs)
    have hpos := List.length_pos_of_ne_nil hi
    simp only [dumpsFields, List.map_cons, joinWith_cons_cons, List.length_append] at ht ⊢
    rw [costFields]
    omega
end

/-- What reading a value's own text gives, in front of the rest. -/
def readBack (h : Hooks) (d : Nat) (v : Json) (rest : PyStr) : Option (Json × PyStr) :=
  if nesting v ≤ d then (hooked h v).map (·, rest) else none

def readItems (h : Hooks) (d : Nat) (vs : List Json) (rest : PyStr) : Option (List Json × PyStr) :=
  if nestingItems vs ≤ d then (hookedItems h vs).map (·, rest) else none

def readFields (h : Hooks) (d : Nat) (kvs : List (PyStr × Json)) (rest : PyStr) :
    Option (List (PyStr × Json) × PyStr) :=
  if nestingFields kvs ≤ d then (hookedFields h kvs).map (·, rest) else none

section Steps
variable (h : Hooks) {n d : Nat}

theorem skipSpace_comma (cs : PyStr) : skipSpace (',' :: cs) = ',' :: cs := rfl

theorem skipSpace_colon (cs : PyStr) : skipSpace (':' :: cs) = ':' :: cs := rfl

theorem skipSpace_bracket (cs : PyStr) : skipSpace (']' :: cs) = ']' :: cs := rfl

theorem skipSpace_brace (cs : PyStr) : skipSpace ('\x7d' :: cs) = '\x7d' :: cs := rfl

theorem scanArray_cons {c : Char} {cs ds : PyStr} (hs : skipSpace cs = c :: ds) (hc : c ≠ ']') :
    scanArray h (n + 1) (d + 1) cs = (scanItems h n d (c :: ds)).map fun p => (.arr p.1, p.2) := by
  rw [scanArray, hs]
  split
  · next he =>
    cases he
    exact (hc rfl).elim
  · rfl

theorem scanObject_cons {c : Char} {cs ds : PyStr} (hs : skipSpace cs = c :: ds) (hc : c ≠ '\x7d') :
    scanObject h (n + 1) (d + 1) cs =
      (scanFields h n d (c :: ds)).bind fun p => (h.object p.1).map (·, p.2) := by
  rw [scanObject, hs]
  split
  · next he =>
    cases he
    exact (hc rfl).elim
  · rfl

/-- A value with the list closed after it. -/
theorem scanItems_last {v : Json} {cs : PyStr}
    (hv : scanValue h n d cs = readBack h d v (']' :: rest)) :
    scanItems h (n + 1) d cs = readItems h d [v] rest := by
  rw [scanItems, hv, readBack, readItems, nestingItems, nestingItems, Nat.max_zero, hookedItems,
    hookedItems]
  split_ifs
  · cases hooked h v with
    | none => rfl
    | some w => simp [skipSpace_bracket]
  · rfl

/-- A value with more of the list after it. -/
theorem scanItems_more {v : Json} {vs : List Json} {cs ds : PyStr}
    (hv : scanValue h n d cs = readBack h d v (',' :: ds))
    (hvs : scanItems h n d (skipSpace ds) = readItems h d vs rest) :
    scanItems h (n + 1) d cs = readItems h d (v :: vs) rest := by
  rw [scanItems, hv, readBack, readItems, nestingItems, hookedItems]
  by_cases hd : nesting v ≤ d
  · rw [if_pos hd]
    cases hooked h v with
    | none => simp
    | some w =>
      simp only [Option.map_some, Option.bind_some, skipSpace_comma, hvs, readItems, Nat.max_le, hd,
        true_and]
      split_ifs
      · cases hookedItems h vs <;> rfl
      · rfl
  · rw [if_neg hd, if_neg fun hm => hd (le_trans (le_max_left _ _) hm), Option.bind_none]

/-- A key and a value with the object closed after them. -/
theorem scanFields_last {k cs ds : PyStr} {v : Json}
    (hk : scanString (cs.length + 1) cs = some (k, ':' :: ds))
    (hv : scanValue h n d (skipSpace ds) = readBack h d v ('\x7d' :: rest)) :
    scanFields h (n + 1) d ('"' :: cs) = readFields h d [(k, v)] rest := by
  simp only [scanFields, hk, Option.bind_some, skipSpace_colon, hv]
  rw [readBack, readFields, nestingFields, nestingFields, Nat.max_zero, hookedFields, hookedFields]
  split_ifs
  · cases hooked h v with
    | none => rfl
    | some w => simp [skipSpace_brace]
  · rfl

/-- A key and a value with more of the object after them. -/
theorem scanFields_more {k cs ds es : PyStr} {v : Json} {kvs : List (PyStr × Json)}
    (hk : scanString (cs.length + 1) cs = some (k, ':' :: ds))
    (hv : scanValue h n d (skipSpace ds) = readBack h d v (',' :: es))
    (hkvs : scanFields h n d (skipSpace es) = readFields h d kvs rest) :
    scanFields h (n + 1) d ('"' :: cs) = readFields h d ((k, v) :: kvs) rest := by
  simp only [scanFields, hk, Option.bind_some, skipSpace_colon, hv]
  rw [readBack, readFields, nestingFields, hookedFields]
  by_cases hd : nesting v ≤ d
  · rw [if_pos hd]
    cases hooked h v with
    | none => simp
    | some w =>
      simp only [Option.map_some, Option.bind_some, skipSpace_comma, hkvs, readFields, Nat.max_le, hd,
        true_and]
      split_ifs
      · cases hookedFields h kvs <;> rfl
      · rfl
  · rw [if_neg hd, if_neg fun hm => hd (le_trans (le_max_left _ _) hm), Option.bind_none]

end Steps

/-- A quoted string is read as it was written. -/
theorem scanString_quoted (ascii : Bool) (s cs : PyStr) :
    scanString ((s.flatMap (escapeChar ascii) ++ '"' :: cs).length + 1)
      (s.flatMap (escapeChar ascii) ++ '"' :: cs) = some (s, cs) := by
  refine scanString_quote ascii s _ ?_
  have h := length_le_escaped ascii s
  rw [List.length_append]
  omega

section Atoms
variable (h : Hooks) {n d : Nat}

/-- The characters that start a value that is no atom. -/
def Bracket (c : Char) : Prop := c = '"' ∨ c = '[' ∨ c = '\x7b'

theorem scanValue_atom {cs : PyStr} (hne : cs ≠ []) (hc : ∀ c ∈ cs.head?, ¬ Bracket c) :
    scanValue h (n + 1) d cs = scanAtom h cs := by
  cases cs with
  | nil => exact (hne rfl).elim
  | cons c cs =>
    have hb := hc c rfl
    rw [scanValue, if_neg fun he => hb (.inl he), if_neg fun he => hb (.inr (.inl he)),
      if_neg fun he => hb (.inr (.inr he))]

/-- A word that starts otherwise is not the front of this text. -/
theorem not_prefix {c e : Char} {cs ds : PyStr} (hne : c ≠ e) : ¬ c :: cs <+: e :: ds :=
  fun hp => hne (List.cons_prefix_cons.mp hp).1

theorem scanAtom_null : scanAtom h ("null".toList ++ rest) = some (.null, rest) := by
  rw [scanAtom, if_pos (List.prefix_append _ _)]
  rfl

theorem scanAtom_true : scanAtom h ("true".toList ++ rest) = some (.bool true, rest) := by
  have h1 : ¬ "null".toList <+: "true".toList ++ rest := not_prefix (by decide)
  rw [scanAtom, if_neg h1, if_pos (List.prefix_append _ _)]
  rfl

theorem scanAtom_false : scanAtom h ("false".toList ++ rest) = some (.bool false, rest) := by
  have h1 : ¬ "null".toList <+: "false".toList ++ rest := not_prefix (by decide)
  have h2 : ¬ "true".toList <+: "false".toList ++ rest := not_prefix (by decide)
  rw [scanAtom, if_neg h1, if_neg h2, if_pos (List.prefix_append _ _)]
  rfl

theorem scanAtom_nan :
    scanAtom h ("NaN".toList ++ rest) = (h.constant .nan).map fun x => (.float x, rest) := by
  have h1 : ¬ "null".toList <+: "NaN".toList ++ rest := not_prefix (by decide)
  have h2 : ¬ "true".toList <+: "NaN".toList ++ rest := not_prefix (by decide)
  have h3 : ¬ "false".toList <+: "NaN".toList ++ rest := not_prefix (by decide)
  rw [scanAtom, if_neg h1, if_neg h2, if_neg h3, if_pos (List.prefix_append _ _)]
  rfl

theorem scanAtom_infinity : scanAtom h ("Infinity".toList ++ rest) =
    (h.constant (.infinite false)).map fun x => (.float x, rest) := by
  have h1 : ¬ "null".toList <+: "Infinity".toList ++ rest := not_prefix (by decide)
  have h2 : ¬ "true".toList <+: "Infinity".toList ++ rest := not_prefix (by decide)
  have h3 : ¬ "false".toList <+: "Infinity".toList ++ rest := not_prefix (by decide)
  have h4 : ¬ "NaN".toList <+: "Infinity".toList ++ rest := not_prefix (by decide)
  rw [scanAtom, if_neg h1, if_neg h2, if_neg h3, if_neg h4, if_pos (List.prefix_append _ _)]
  rfl

theorem scanAtom_minus_infinity : scanAtom h ("-Infinity".toList ++ rest) =
    (h.constant (.infinite true)).map fun x => (.float x, rest) := by
  have h1 : ¬ "null".toList <+: "-Infinity".toList ++ rest := not_prefix (by decide)
  have h2 : ¬ "true".toList <+: "-Infinity".toList ++ rest := not_prefix (by decide)
  have h3 : ¬ "false".toList <+: "-Infinity".toList ++ rest := not_prefix (by decide)
  have h4 : ¬ "NaN".toList <+: "-Infinity".toList ++ rest := not_prefix (by decide)
  have h5 : ¬ "Infinity".toList <+: "-Infinity".toList ++ rest := not_prefix (by decide)
  rw [scanAtom, if_neg h1, if_neg h2, if_neg h3, if_neg h4, if_neg h5,
    if_pos (List.prefix_append _ _)]
  rfl

/-- A number's text, in front of what ends it. -/
theorem scanValue_number {text : PyStr} {p : PyStr × PyStr} (hi : scanInt text = some p) :
    scanValue h (n + 1) d (text ++ rest) = scanNumber h (text ++ rest) := by
  obtain ⟨c, cs, hc, hs⟩ := scanInt_head hi
  have hs' : text ++ rest = c :: (cs ++ rest) ∨ text ++ rest = '-' :: c :: (cs ++ rest) := by
    rcases hs with rfl | rfl
    · exact .inl rfl
    · exact .inr rfl
  have hb : ¬ Bracket c := by
    rintro (rfl | rfl | rfl) <;> cases hc
  rw [scanValue_atom, scanAtom_number h hc hs']
  · rcases hs' with he | he <;> rw [he] <;> simp
  · rcases hs' with he | he <;> rw [he]
    · rintro e ⟨⟩
      exact hb
    · rintro e ⟨⟩
      rintro (he | he | he) <;> cases he

theorem scanValue_word {c : Char} {cs : PyStr} {v : Option (Json × PyStr)} (hc : ¬ Bracket c)
    (hw : scanAtom h (c :: cs ++ rest) = v) : scanValue h (n + 1) d (c :: cs ++ rest) = v := by
  rw [← hw]
  refine scanValue_atom h (by simp) ?_
  rintro e ⟨⟩
  exact hc

theorem scanValue_float (x : PyFloat) (hr : Stops rest) :
    scanValue h (n + 1) d (x.text ++ rest) = readBack h d (.float x) rest := by
  rw [readBack, if_pos (by simp [nesting])]
  cases x with
  | finite text ht =>
    obtain ⟨p, hi⟩ := scanInt_of_float ht
    have hn := scanNumber_float h text ht hr
    have hv : scanValue h (n + 1) d (text ++ rest) = scanNumber h (text ++ rest) :=
      scanValue_number h hi
    rw [hooked, Option.map_map]
    exact hv.trans hn
  | infinite b =>
    rw [hooked, Option.map_map]
    cases b with
    | false => exact scanValue_word h (by unfold Bracket; decide) (scanAtom_infinity h)
    | true => exact scanValue_word h (by unfold Bracket; decide) (scanAtom_minus_infinity h)
  | nan =>
    rw [hooked, Option.map_map]
    exact scanValue_word h (by unfold Bracket; decide) (scanAtom_nan h)

end Atoms

theorem joinWith_head (sep a : PyStr) (l : List PyStr) : ∃ tail, joinWith sep (a :: l) = a ++ tail := by
  cases l with
  | nil => exact ⟨[], by rw [joinWith_singleton, List.append_nil]⟩
  | cons b l => exact ⟨_, joinWith_cons_cons sep a b l⟩

theorem items_head (style : Style) (v : Json) (vs : List Json) (rest : PyStr) : ∃ c ds,
    joinWith style.itemSeparator (dumpsItems style (v :: vs)) ++ rest = c :: ds ∧ Opens c := by
  obtain ⟨c, cs, hc, hopen⟩ := dumps_head style v
  obtain ⟨tail, ht⟩ := joinWith_head style.itemSeparator (dumps style v) (dumpsItems style vs)
  exact ⟨c, cs ++ tail ++ rest, by rw [dumpsItems, ht, hc]; rfl, hopen⟩

/-- A field's text. -/
def fieldText (style : Style) (kv : PyStr × PyStr) : PyStr :=
  quote style.ensureAscii kv.1 ++ style.keySeparator ++ kv.2

theorem dumpsFields_cons (kv : PyStr × Json) (kvs : List (PyStr × Json)) :
    dumpsFields style (kv :: kvs) = (kv.1, dumps style kv.2) :: dumpsFields style kvs := rfl

theorem fields_head (style : Style) (kv : PyStr × Json) (kvs : List (PyStr × Json)) (rest : PyStr) : ∃ ds,
    joinWith style.itemSeparator ((dumpsFields style (kv :: kvs)).map (fieldText style)) ++ rest =
      '"' :: ds := by
  obtain ⟨tail, ht⟩ := joinWith_head style.itemSeparator (fieldText style (kv.1, dumps style kv.2))
    ((dumpsFields style kvs).map (fieldText style))
  rw [dumpsFields_cons, List.map_cons, ht]
  exact ⟨_, rfl⟩

/-- Whitespace in front of a text that starts with none. -/
theorem skipSpace_before {ws cs ds : PyStr} (hws : ∀ c ∈ ws, isJsonSpace c = true) {c : Char}
    (hcs : cs = c :: ds) (hc : isJsonSpace c = false) : skipSpace (ws ++ cs) = cs := by
  rw [skipSpace_append hws, hcs, skipSpace_cons hc]

theorem skipSpace_value {ws : PyStr} (hws : ∀ c ∈ ws, isJsonSpace c = true) (v : Json) (rest : PyStr) :
    skipSpace (ws ++ (dumps style v ++ rest)) = dumps style v ++ rest := by
  obtain ⟨c, cs, hc, hopen⟩ := dumps_head style v
  exact skipSpace_before hws (by rw [hc, List.cons_append]) hopen.1

mutual
/-- A value's own text gives the value back as far as the hooks and the nesting let it. -/
theorem scanValue_dumps (h : Hooks) (hs : style.sortKeys = false) (hp : style.Spaced) :
    ∀ (v : Json) (n d : Nat) (rest : PyStr), cost v ≤ n → Stops rest →
      scanValue h n d (dumps style v ++ rest) = readBack h d v rest
  | v, 0, d, rest, hn, _ => absurd (cost_pos v) (by omega)
  | .null, n + 1, d, rest, _, _ => by
    rw [dumps, scanValue_atom h (by simp), scanAtom_null]
    · simp [readBack, nesting, hooked]
    · rintro c ⟨⟩ (hc | hc | hc) <;> cases hc
  | .bool true, n + 1, d, rest, _, _ => by
    rw [dumps, scanValue_atom h (by simp), scanAtom_true]
    · simp [readBack, nesting, hooked]
    · rintro c ⟨⟩ (hc | hc | hc) <;> cases hc
  | .bool false, n + 1, d, rest, _, _ => by
    rw [dumps, scanValue_atom h (by simp), scanAtom_false]
    · simp [readBack, nesting, hooked]
    · rintro c ⟨⟩ (hc | hc | hc) <;> cases hc
  | .int i, n + 1, d, rest, _, hr => by
    have hi : scanInt (intText i ++ []) = some (intText i, []) := scanInt_intText i (by rintro c ⟨⟩)
    rw [List.append_nil] at hi
    rw [dumps, scanValue_number h hi, scanNumber_int h i hr]
    simp [readBack, nesting, hooked]
  | .float x, n + 1, d, rest, _, hr => by
    rw [dumps]
    exact scanValue_float h x hr
  | .str s, n + 1, d, rest, _, _ => by
    rw [dumps, quote, List.cons_append, List.cons_append, scanValue, if_pos rfl, List.append_assoc,
      List.singleton_append, scanString_quoted]
    simp [readBack, nesting, hooked]
  | .arr [], n + 1, d, rest, hn, _ => by
    obtain ⟨m, rfl⟩ : ∃ m, n = m + 1 := ⟨n - 1, by simp only [cost] at hn; omega⟩
    rw [dumps, dumpsItems, readBack, nesting, nestingItems]
    cases d with
    | zero => simp [scanValue, scanArray]
    | succ d => simp [joinWith, scanValue, scanArray, skipSpace_bracket, hooked, hookedItems]
  | .arr (v :: vs), n + 1, d, rest, hn, hr => by
    rw [cost] at hn
    obtain ⟨m, rfl⟩ : ∃ m, n = m + 1 := ⟨n - 1, by omega⟩
    have hitems := fun d => scanItems_dumps h hs hp v vs m d rest (by omega)
    obtain ⟨c, ds, hds, hopen⟩ := items_head style v vs (']' :: rest)
    have htext : dumps style (.arr (v :: vs)) ++ rest = '[' :: c :: ds := by
      rw [dumps, ← hds, List.cons_append, List.cons_append, List.append_assoc]
      rfl
    rw [htext, scanValue, if_neg (by decide), if_pos rfl, readBack, nesting]
    cases d with
    | zero => simp [scanArray]
    | succ d =>
      rw [scanArray_cons h (skipSpace_cons hopen.1 ds) hopen.2.1, ← hds, hitems d, readItems, hooked]
      simp only [Nat.add_le_add_iff_right]
      split_ifs
      · cases hookedItems h (v :: vs) <;> rfl
      · rfl
  | .obj [], n + 1, d, rest, hn, _ => by
    obtain ⟨m, rfl⟩ : ∃ m, n = m + 1 := ⟨n - 1, by simp only [cost] at hn; omega⟩
    rw [dumps, dumpsFields, readBack, nesting, nestingFields, hs]
    cases d with
    | zero => simp [scanValue, scanObject]
    | succ d => simp [joinWith, scanValue, scanObject, skipSpace_brace, hooked, hookedFields]
  | .obj (kv :: kvs), n + 1, d, rest, hn, hr => by
    rw [cost] at hn
    obtain ⟨m, rfl⟩ : ∃ m, n = m + 1 := ⟨n - 1, by omega⟩
    have hfields := fun d => scanFields_dumps h hs hp kv kvs m d rest (by omega)
    obtain ⟨ds, hds⟩ := fields_head style kv kvs ('\x7d' :: rest)
    have htext : dumps style (.obj (kv :: kvs)) ++ rest = '\x7b' :: '"' :: ds := by
      rw [dumps, ← hds, hs, List.cons_append, List.cons_append, List.append_assoc]
      rfl
    rw [htext, scanValue, if_neg (by decide), if_neg (by decide), if_pos rfl, readBack, nesting]
    cases d with
    | zero => simp [scanObject]
    | succ d =>
      rw [scanObject_cons h (skipSpace_cons (by decide) ds) (by decide), ← hds, hfields d, readFields,
        hooked]
      simp only [Nat.add_le_add_iff_right]
      split_ifs
      · cases hookedFields h (kv :: kvs) <;> rfl
      · rfl
  termination_by v => sizeOf v

theorem scanItems_dumps (h : Hooks) (hs : style.sortKeys = false) (hp : style.Spaced) :
    ∀ (v : Json) (vs : List Json) (n d : Nat) (rest : PyStr), costItems (v :: vs) ≤ n →
      scanItems h n d (joinWith style.itemSeparator (dumpsItems style (v :: vs)) ++ ']' :: rest) =
        readItems h d (v :: vs) rest
  | v, vs, 0, d, rest, hn => absurd hn (by simp [costItems])
  | v, [], n + 1, d, rest, hn => by
    rw [costItems, costItems] at hn
    rw [dumpsItems, dumpsItems, joinWith_singleton]
    exact scanItems_last h (scanValue_dumps h hs hp v n d _ (by omega) (stops_cons (by simp) _))
  | v, w :: vs, n + 1, d, rest, hn => by
    rw [costItems] at hn
    obtain ⟨ws, hsep, hws⟩ := hp.item
    have hv := scanValue_dumps h hs hp v n d (',' :: (ws ++
      (joinWith style.itemSeparator (dumpsItems style (w :: vs)) ++ ']' :: rest))) (by omega)
      (stops_cons (by simp) _)
    have hvs := scanItems_dumps h hs hp w vs n d rest (by omega)
    have htext : joinWith style.itemSeparator (dumpsItems style (v :: w :: vs)) ++ ']' :: rest =
        dumps style v ++ ',' :: (ws ++
          (joinWith style.itemSeparator (dumpsItems style (w :: vs)) ++ ']' :: rest)) := by
      simp only [dumpsItems, joinWith_cons_cons, List.append_assoc]
      rw [hsep]
      rfl
    obtain ⟨c, ds, hds, hopen⟩ := items_head style w vs (']' :: rest)
    rw [htext]
    refine scanItems_more h hv ?_
    rw [skipSpace_before hws hds hopen.1]
    exact hvs
  termination_by v vs => sizeOf v + sizeOf vs

theorem scanFields_dumps (h : Hooks) (hs : style.sortKeys = false) (hp : style.Spaced) :
    ∀ (kv : PyStr × Json) (kvs : List (PyStr × Json)) (n d : Nat) (rest : PyStr),
      costFields (kv :: kvs) ≤ n →
      scanFields h n d (joinWith style.itemSeparator
        ((dumpsFields style (kv :: kvs)).map (fieldText style)) ++ '\x7d' :: rest) =
        readFields h d (kv :: kvs) rest
  | (k, v), kvs, 0, d, rest, hn => absurd hn (by simp [costFields])
  | (k, v), [], n + 1, d, rest, hn => by
    rw [costFields, costFields] at hn
    obtain ⟨ws, hsep, hws⟩ := hp.key
    have hv := scanValue_dumps h hs hp v n d ('\x7d' :: rest) (by omega) (stops_cons (by simp) _)
    have htext : joinWith style.itemSeparator ((dumpsFields style [(k, v)]).map (fieldText style)) ++
        '\x7d' :: rest = '"' :: (k.flatMap (escapeChar style.ensureAscii) ++
          '"' :: ':' :: (ws ++ (dumps style v ++ '\x7d' :: rest))) := by
      simp only [dumpsFields, List.map_cons, List.map_nil, joinWith_singleton, fieldText, quote, hsep,
        List.cons_append, List.append_assoc]
      rfl
    rw [htext]
    rw [← skipSpace_value hws] at hv
    exact scanFields_last h (scanString_quoted _ k _) hv
  | (k, v), kv' :: kvs, n + 1, d, rest, hn => by
    rw [costFields] at hn
    obtain ⟨ws, hsep, hws⟩ := hp.key
    obtain ⟨ws', hsep', hws'⟩ := hp.item
    obtain ⟨ds, hds⟩ := fields_head style kv' kvs ('\x7d' :: rest)
    have hv := scanValue_dumps h hs hp v n d (',' :: (ws' ++ (joinWith style.itemSeparator
      ((dumpsFields style (kv' :: kvs)).map (fieldText style)) ++ '\x7d' :: rest))) (by omega)
      (stops_cons (by simp) _)
    have hkvs := scanFields_dumps h hs hp kv' kvs n d rest (by omega)
    have htext : joinWith style.itemSeparator
        ((dumpsFields style ((k, v) :: kv' :: kvs)).map (fieldText style)) ++ '\x7d' :: rest =
        '"' :: (k.flatMap (escapeChar style.ensureAscii) ++ '"' :: ':' :: (ws ++ (dumps style v ++
          ',' :: (ws' ++ (joinWith style.itemSeparator
            ((dumpsFields style (kv' :: kvs)).map (fieldText style)) ++ '\x7d' :: rest))))) := by
      rw [dumpsFields_cons, dumpsFields_cons, List.map_cons, List.map_cons, joinWith_cons_cons,
        ← List.map_cons, ← dumpsFields_cons, hsep']
      simp only [fieldText, quote, hsep, List.cons_append, List.append_assoc, List.nil_append]
    rw [← skipSpace_value hws] at hv
    rw [← skipSpace_before hws' hds (by decide)] at hkvs
    rw [htext]
    exact scanFields_more h (scanString_quoted _ k _) hv hkvs
  termination_by kv kvs => sizeOf kv + sizeOf kvs
end

/-- A value's text with whitespace after it gives back what the hooks make of the value, where its
nesting is allowed. -/
theorem loads_dumps (h : Hooks) (hs : style.sortKeys = false) (hp : style.Spaced) (d : Nat) (v : Json)
    {ws : PyStr} (hws : ∀ c ∈ ws, isJsonSpace c = true) :
    loads h d (dumps style v ++ ws) = if nesting v ≤ d then hooked h v else none := by
  have hstop : Stops ws := by
    intro c hc
    have hspace := hws c (List.mem_of_mem_head? hc)
    simp only [isJsonSpace, Bool.or_eq_true, beq_iff_eq] at hspace
    rcases hspace with ((rfl | rfl) | rfl) | rfl <;> decide
  have hitem : style.itemSeparator ≠ [] := by
    obtain ⟨ws', hsep, _⟩ := hp.item
    simp [hsep]
  have hcost := cost_le hs hitem v
  have hskip : skipSpace (dumps style v ++ ws) = dumps style v ++ ws := by
    obtain ⟨c, cs, hc, hopen⟩ := dumps_head style v
    rw [hc, List.cons_append, skipSpace_cons hopen.1]
  have hend : skipSpace ws = [] := List.dropWhile_eq_nil_iff.mpr hws
  rw [loads, hskip, scanValue_dumps h hs hp v _ d ws (by rw [List.length_append]; omega) hstop, readBack]
  split_ifs
  · cases hooked h v with
    | none => rfl
    | some w => simp [hend]
  · rfl

end Values

section Depth
variable {style : Style}

mutual
/-- A value nests no deeper than its text is long. -/
theorem nesting_le (hs : style.sortKeys = false) : ∀ v : Json, nesting v ≤ (dumps style v).length
  | .null => Nat.zero_le _
  | .bool _ => Nat.zero_le _
  | .int _ => Nat.zero_le _
  | .float _ => Nat.zero_le _
  | .str _ => Nat.zero_le _
  | .arr items => by
    have h := nestingItems_le hs items
    simp only [dumps, nesting, List.length_append, List.length_cons, List.length_nil]
    omega
  | .obj items => by
    have h := nestingFields_le hs items
    simp only [dumps, nesting, hs, List.length_append, List.length_cons, List.length_nil,
      Bool.false_eq_true, if_false]
    omega

theorem nestingItems_le (hs : style.sortKeys = false) : ∀ vs : List Json,
    nestingItems vs ≤ (joinWith style.itemSeparator (dumpsItems style vs)).length
  | [] => Nat.zero_le _
  | [v] => by
    have h := nesting_le hs v
    simp only [dumpsItems, joinWith_singleton, nestingItems]
    omega
  | v :: w :: vs => by
    have h := nesting_le hs v
    have ht := nestingItems_le hs (w :: vs)
    simp only [dumpsItems, joinWith_cons_cons, List.length_append] at ht ⊢
    rw [nestingItems]
    omega

theorem nestingFields_le (hs : style.sortKeys = false) : ∀ kvs : List (PyStr × Json),
    nestingFields kvs ≤ (joinWith style.itemSeparator ((dumpsFields style kvs).map fun kv =>
      quote style.ensureAscii kv.1 ++ style.keySeparator ++ kv.2)).length
  | [] => Nat.zero_le _
  | [(k, v)] => by
    have h := nesting_le hs v
    simp only [dumpsFields, List.map_cons, List.map_nil, joinWith_singleton, nestingFields,
      List.length_append]
    omega
  | (k, v) :: (k', w) :: kvs => by
    have h := nesting_le hs v
    have ht := nestingFields_le hs ((k', w) :: kvs)
    simp only [dumpsFields, List.map_cons, joinWith_cons_cons, List.length_append] at ht ⊢
    rw [nestingFields]
    omega
end

end Depth

mutual
/-- Without hooks a value with distinct keys is kept as it is. -/
theorem hooked_plain : ∀ v : Json, distinctKeys v = true → hooked plainHooks v = some v
  | .null, _ => rfl
  | .bool _, _ => rfl
  | .int _, _ => rfl
  | .str _, _ => rfl
  | .float (.finite _ _), _ => rfl
  | .float (.infinite _), _ => rfl
  | .float .nan, _ => rfl
  | .arr items, h => by
    rw [hooked, hookedItems_plain items h]
    rfl
  | .obj items, h => by
    rw [distinctKeys, Bool.and_eq_true, decide_eq_true_iff] at h
    have hset : items.foldl setItem [] = [] ++ items := setItems_append h.1
    rw [hooked, hookedFields_plain items h.2, Option.bind_some]
    exact congrArg (fun fields => some (obj fields)) hset

theorem hookedItems_plain : ∀ vs : List Json, distinctItems vs = true →
    hookedItems plainHooks vs = some vs
  | [], _ => rfl
  | v :: vs, h => by
    rw [distinctItems, Bool.and_eq_true] at h
    rw [hookedItems, hooked_plain v h.1, hookedItems_plain vs h.2]
    rfl

theorem hookedFields_plain : ∀ kvs : List (PyStr × Json), distinctFields kvs = true →
    hookedFields plainHooks kvs = some kvs
  | [], _ => rfl
  | (k, v) :: kvs, h => by
    rw [distinctFields, Bool.and_eq_true] at h
    rw [hookedFields, hooked_plain v h.1, hookedFields_plain kvs h.2]
    rfl
end

/-- The default separators are read back, whatever follows in white space. -/
theorem parse_dumps (ascii : Bool) {v : Json} (hv : distinctKeys v = true) {ws : PyStr}
    (hws : ∀ c ∈ ws, isJsonSpace c = true) :
    parse (dumps (spaced ascii false) v ++ ws) = some v := by
  have hle : nesting v ≤ (dumps (spaced ascii false) v ++ ws).length := by
    have h : nesting v ≤ (dumps (spaced ascii false) v).length := nesting_le rfl v
    rw [List.length_append]
    omega
  rw [parse, loads_dumps plainHooks rfl ⟨⟨[' '], rfl, by decide⟩, ⟨[' '], rfl, by decide⟩⟩ _ v hws,
    if_pos hle, hooked_plain v hv]

mutual
/-- The strict hooks keep a value as it is or refuse it. -/
theorem hooked_strict : ∀ v : Json,
    hooked strictHooks v = if distinctKeys v && finiteNumbers v then some v else none
  | .null => rfl
  | .bool _ => rfl
  | .int _ => rfl
  | .str _ => rfl
  | .float (.finite _ _) => rfl
  | .float (.infinite _) => rfl
  | .float .nan => rfl
  | .arr items => by
    have h := hookedItems_strict items
    rw [hooked, h, distinctKeys, finiteNumbers]
    split_ifs <;> rfl
  | .obj items => by
    have h := hookedFields_strict items
    rw [hooked, h, distinctKeys, finiteNumbers]
    by_cases hn : (items.map Prod.fst).Nodup
    · simp only [hn, decide_true, Bool.true_and]
      split_ifs
      · exact if_pos hn
      · rfl
    · simp only [hn, decide_false, Bool.false_and, Bool.false_eq_true, if_false]
      split_ifs
      · exact if_neg hn
      · rfl

theorem hookedItems_strict : ∀ vs : List Json,
    hookedItems strictHooks vs = if distinctItems vs && finiteItems vs then some vs else none
  | [] => rfl
  | v :: vs => by
    rw [hookedItems, hooked_strict v, hookedItems_strict vs, distinctItems, finiteItems]
    cases distinctKeys v <;> cases finiteNumbers v <;> cases distinctItems vs <;>
      cases finiteItems vs <;> rfl

theorem hookedFields_strict : ∀ kvs : List (PyStr × Json),
    hookedFields strictHooks kvs = if distinctFields kvs && finiteFields kvs then some kvs else none
  | [] => rfl
  | (k, v) :: kvs => by
    rw [hookedFields, hooked_strict v, hookedFields_strict kvs, distinctFields, finiteFields]
    cases distinctKeys v <;> cases finiteNumbers v <;> cases distinctFields kvs <;>
      cases finiteFields kvs <;> rfl
end

end Python.Json
