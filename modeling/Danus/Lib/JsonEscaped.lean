import Danus.Lib.JsonSorted
import Danus.Lib.JsonText
import Danus.Lib.Occurrences

/-! JSON text in whose strings some angle brackets were written as escapes afterwards: it says the same. -/
namespace Python.Json

/-- `<` and `>` -/
def isAngle (c : Char) : Bool := c == '<' || c == '>'

/-- The second text is the first one with some of these characters written as escapes. -/
inductive Escaped (p : Char → Bool) : PyStr → PyStr → Prop
  | nil : Escaped p [] []
  | keep {s t : PyStr} (c : Char) (h : Escaped p s t) : Escaped p (c :: s) (c :: t)
  | escape {s t : PyStr} (c : Char) (hc : p c = true) (h : Escaped p s t) :
      Escaped p (c :: s) (escapeUnit c.toNat ++ t)

section Texts
variable {p q : Char → Bool} {a b s t : PyStr} {c : Char}

theorem Escaped.split (h : Escaped p (a ++ b) t) : ∃ a' b', t = a' ++ b' ∧ Escaped p a a' ∧ Escaped p b b' := by
  induction a generalizing t with
  | nil => exact ⟨[], t, rfl, .nil, h⟩
  | cons c a ih =>
    cases h with
    | keep _ h =>
      obtain ⟨a', b', rfl, ha, hb⟩ := ih h
      exact ⟨c :: a', b', rfl, .keep c ha, hb⟩
    | escape _ hc h =>
      obtain ⟨a', b', rfl, ha, hb⟩ := ih h
      exact ⟨escapeUnit c.toNat ++ a', b', (List.append_assoc _ _ _).symm, .escape c hc ha, hb⟩

theorem Escaped.plain (h : Escaped p s t) (hs : ∀ c ∈ s, p c = false) : t = s := by
  induction h with
  | nil => rfl
  | keep c _ ih => rw [ih fun d hd => hs d (List.mem_cons_of_mem c hd)]
  | escape c hc _ _ =>
    rw [hs c List.mem_cons_self] at hc
    cases hc

theorem Escaped.cons (h : Escaped p (c :: s) t) (hc : p c = false) : ∃ t', t = c :: t' ∧ Escaped p s t' := by
  cases h with
  | keep _ h => exact ⟨_, rfl, h⟩
  | escape _ hp _ =>
    rw [hc] at hp
    cases hp

theorem Escaped.length_le (h : Escaped p s t) : s.length ≤ t.length := by
  induction h with
  | nil => exact le_rfl
  | keep c _ ih => exact Nat.succ_le_succ ih
  | escape c _ _ ih =>
    rw [List.length_append, List.length_cons]
    have hunit : 0 < (escapeUnit c.toNat).length := Nat.succ_pos _
    omega

theorem hexText_bracket (k n : Nat) : ∀ c ∈ hexText k n, isAngle c = false := by
  have hdigit : ∀ m, m < 16 → isAngle ("0123456789abcdef".toList.getD m '0') = false := by decide
  induction k generalizing n with
  | zero => exact fun c hc => absurd hc List.not_mem_nil
  | succ k ih =>
    intro c hc
    rcases List.mem_append.mp hc with hc | hc
    · exact ih _ c hc
    · rw [List.mem_singleton.mp hc]
      exact hdigit _ (Nat.mod_lt _ (by decide))

theorem escapeUnit_bracket (n : Nat) : ∀ c ∈ escapeUnit n, isAngle c = false := by
  intro c hc
  rcases List.mem_cons.mp hc with rfl | hc
  · decide
  · rcases List.mem_cons.mp hc with rfl | hc
    · decide
    · exact hexText_bracket 4 n c hc

/-- Escaping one kind of brackets after the other. -/
theorem Escaped.trans (h : Escaped p s t) {u : PyStr} (h' : Escaped q t u) (hp : ∀ c, p c = true → isAngle c = true)
    (hq : ∀ c, q c = true → isAngle c = true) : Escaped isAngle s u := by
  induction h generalizing u with
  | nil =>
    cases h'
    exact .nil
  | keep c _ ih =>
    cases h' with
    | keep _ h' => exact .keep c (ih h')
    | escape _ hc h' => exact .escape c (hq c hc) (ih h')
  | escape c hc _ ih =>
    obtain ⟨a', b', rfl, ha, hb⟩ := h'.split
    have hunit : a' = escapeUnit c.toNat := by
      refine ha.plain fun d hd => ?_
      by_contra hqd
      have hd' := hq d (by simpa using hqd)
      rw [escapeUnit_bracket _ d hd] at hd'
      cases hd'
    rw [hunit]
    exact .escape c (hp c hc) (ih hb)

/-- Replacing every run of three by the escapes. -/
theorem escaped_replaceAll (c : Char) (s : PyStr) : Escaped (· == c) s
    (replaceAll [c, c, c] (escapeUnit c.toNat ++ (escapeUnit c.toNat ++ escapeUnit c.toNat)) 0 s) := by
  have hlen : ∀ n : Nat, ∀ s : PyStr, s.length ≤ n → Escaped (· == c) s
      (replaceAll [c, c, c] (escapeUnit c.toNat ++ (escapeUnit c.toNat ++ escapeUnit c.toNat)) 0 s) := by
    intro n
    induction n with
    | zero =>
      intro s hs
      rw [List.length_eq_zero_iff.mp (Nat.le_zero.mp hs)]
      exact .nil
    | succ n ih =>
      intro s hs
      cases s with
      | nil => exact .nil
      | cons d s =>
        rw [List.length_cons] at hs
        by_cases hstart : [c, c, c] <+: d :: s
        · obtain ⟨t, ht⟩ := id hstart
          change c :: c :: c :: t = d :: s at ht
          obtain ⟨rfl, rfl⟩ := List.cons.inj ht
          have hlen : t.length ≤ n := by
            simp only [List.length_cons] at hs
            omega
          have hself : (c == c) = true := beq_self_eq_true c
          rw [replaceAll, if_pos hstart, List.append_assoc, List.append_assoc]
          exact .escape c hself (.escape c hself (.escape c hself (ih t hlen)))
        · rw [replaceAll, if_neg hstart]
          exact .keep d (ih s (by omega))
  exact hlen s.length s le_rfl

end Texts

section Strings
variable {rest : PyStr}

theorem escapeChar_bracket {c d : Char} (hd : d ∈ escapeChar false c) (ha : isAngle d = true) : c = d := by
  have hne : ∀ l : PyStr, (∀ e ∈ l, isAngle e = false) → d ∉ l := by
    intro l hl hm
    rw [hl d hm] at ha
    cases ha
  have hescape : ∀ f ∈ ['"', '\\', 'b', 'f', 'n', 'r', 't'], ∀ e ∈ ['\\', f], isAngle e = false := by decide
  rcases escapeChar_cases false c with ⟨f, hf, he⟩ | ⟨-, -, he⟩ | ⟨n, he⟩ | ⟨h, -⟩
  · rw [he] at hd
    exact absurd hd (hne _ (hescape f hf))
  · rw [he] at hd
    exact (List.mem_singleton.mp hd).symm
  · rw [he] at hd
    exact absurd hd (hne _ (escapeUnit_bracket n))
  · cases h

/-- One character is read, however it is written. -/
theorem scanChar_escaped {c : Char} {w : PyStr} (h : Escaped isAngle (escapeChar false c) w) (rest : PyStr) :
    scanChar (w ++ rest) = some (c, rest) ∧ ∃ d ds, w = d :: ds ∧ d ≠ '"' := by
  by_cases hc : isAngle c = true
  · have hself : escapeChar false c = [c] := by
      simp only [isAngle, Bool.or_eq_true, beq_iff_eq] at hc
      rcases hc with rfl | rfl <;> decide
    rw [hself] at h
    cases h with
    | keep _ h =>
      cases h
      have hchar := scanChar_escapeChar false c rest
      rw [hself] at hchar
      refine ⟨hchar, c, [], rfl, ?_⟩
      rintro rfl
      revert hc
      decide
    | escape _ _ h =>
      cases h
      rw [List.append_nil]
      have hlow : c.toNat < 0x10000 := by
        simp only [isAngle, Bool.or_eq_true, beq_iff_eq] at hc
        rcases hc with rfl | rfl <;> decide
      exact ⟨unescapeUnit_hexText hlow rest, '\\', _, rfl, by decide⟩
  · have hplain : w = escapeChar false c := by
      refine h.plain fun d hd => ?_
      by_contra ha
      rw [Bool.not_eq_false] at ha
      exact hc (escapeChar_bracket hd ha ▸ ha)
    obtain ⟨d, ds, hd, hne, -⟩ := escapeChar_head false c
    rw [hplain]
    exact ⟨scanChar_escapeChar false c rest, d, ds, hd, hne⟩

/-- A string is read, however its characters are written. -/
theorem scanString_escaped (s : PyStr) {w : PyStr} (h : Escaped isAngle (s.flatMap (escapeChar false)) w) (n : Nat)
    (hn : s.length < n) : scanString n (w ++ '"' :: rest) = some (s, rest) := by
  induction s generalizing w n with
  | nil =>
    obtain ⟨m, rfl⟩ : ∃ m, n = m + 1 := ⟨n - 1, by simp only [List.length_nil] at hn; omega⟩
    cases h
    simp [scanString]
  | cons c s ih =>
    obtain ⟨m, rfl⟩ : ∃ m, n = m + 1 := ⟨n - 1, by omega⟩
    rw [List.flatMap_cons] at h
    obtain ⟨a, b, rfl, ha, hb⟩ := h.split
    obtain ⟨hchar, d, ds, rfl, hd⟩ := scanChar_escaped ha (b ++ '"' :: rest)
    rw [List.cons_append] at hchar
    rw [List.append_assoc, List.cons_append, scanString, if_neg hd, hchar, Option.bind_some,
      ih hb m (by rw [List.length_cons] at hn; omega), Option.map_some]

theorem scanString_whole (s : PyStr) {w : PyStr} (h : Escaped isAngle (s.flatMap (escapeChar false)) w) :
    scanString ((w ++ '"' :: rest).length + 1) (w ++ '"' :: rest) = some (s, rest) := by
  refine scanString_escaped s h _ ?_
  have hlen := length_le_escaped false s
  have hle := h.length_le
  rw [List.length_append]
  omega

end Strings

section Values
variable (h : Hooks)

/-- The style of the text before anything is escaped. -/
abbrev plainStyle : Style := compact false false

theorem atom_bracket {v : Json} (hv : match v with | .str _ | .arr _ | .obj _ => False | _ => True) :
    ∀ c ∈ dumps plainStyle v, isAngle c = false := by
  have hnumber : ∀ c, isNumberChar c = true → isAngle c = false := by
    intro c hc
    by_contra ha
    rw [Bool.not_eq_false] at ha
    simp only [isAngle, Bool.or_eq_true, beq_iff_eq] at ha
    rcases ha with rfl | rfl <;> revert hc <;> decide
  cases v with
  | null => rw [dumps]; decide
  | bool b => cases b <;> rw [dumps] <;> decide
  | int i =>
    intro c hc
    rw [dumps, intText] at hc
    split_ifs at hc
    · rcases List.mem_cons.mp hc with rfl | hc
      · decide
      · exact hnumber c (by simp [isNumberChar, natText_digits _ c hc])
    · exact hnumber c (by simp [isNumberChar, natText_digits _ c hc])
  | float x =>
    rw [dumps]
    cases x with
    | finite text ht => exact fun c hc => hnumber c (float_chars ht c hc)
    | infinite b =>
      have hboth : ∀ b, ∀ c ∈ (PyFloat.infinite b).text, isAngle c = false := by decide
      exact hboth b
    | nan =>
      have hnan : ∀ c ∈ PyFloat.nan.text, isAngle c = false := by decide
      exact hnan
  | str s => exact hv.elim
  | arr items => exact hv.elim
  | obj items => exact hv.elim

theorem quote_escaped {s t : PyStr} (h : Escaped isAngle (quote false s) t) :
    ∃ w, t = '"' :: (w ++ ['"']) ∧ Escaped isAngle (s.flatMap (escapeChar false)) w := by
  obtain ⟨t', rfl, ht⟩ := h.cons (by decide)
  obtain ⟨w, e, rfl, hw, he⟩ := ht.split
  exact ⟨w, by rw [he.plain (by decide)], hw⟩

theorem dumps_escaped_head {v : Json} {t : PyStr} (ht : Escaped isAngle (dumps plainStyle v) t) :
    ∃ c ds, t = c :: ds ∧ Opens c := by
  obtain ⟨c, cs, hc, hopen⟩ := dumps_head plainStyle v
  rw [hc] at ht
  by_cases ha : isAngle c = true
  · cases ht with
    | keep _ _ => exact ⟨c, _, rfl, hopen⟩
    | escape _ _ _ => exact ⟨'\\', _, rfl, by unfold Opens; decide⟩
  · obtain ⟨t', rfl, -⟩ := ht.cons (Bool.not_eq_true _ ▸ ha)
    exact ⟨c, t', rfl, hopen⟩

theorem items_escaped_head {v : Json} {vs : List Json} {t : PyStr}
    (ht : Escaped isAngle (joinWith [','] (dumpsItems plainStyle (v :: vs))) t) : ∃ c ds, t = c :: ds ∧ Opens c := by
  obtain ⟨tail, htail⟩ := joinWith_head [','] (dumps plainStyle v) (dumpsItems plainStyle vs)
  rw [dumpsItems, htail] at ht
  obtain ⟨a, b, rfl, ha, -⟩ := ht.split
  obtain ⟨c, ds, rfl, hopen⟩ := dumps_escaped_head ha
  exact ⟨c, ds ++ b, rfl, hopen⟩

/-- The text of a field, cut. -/
theorem field_escaped {k tail t : PyStr} {v : Json}
    (ht : Escaped isAngle (fieldText plainStyle (k, dumps plainStyle v) ++ tail) t) : ∃ w tv b,
      t = '"' :: (w ++ '"' :: ':' :: (tv ++ b)) ∧ Escaped isAngle (k.flatMap (escapeChar false)) w ∧
        Escaped isAngle (dumps plainStyle v) tv ∧ Escaped isAngle tail b := by
  obtain ⟨a, b, rfl, ha, hb⟩ := ht.split
  obtain ⟨kq, tv, rfl, hk, hv⟩ := Escaped.split (a := quote false k ++ [':']) ha
  obtain ⟨q, e, rfl, hq, he⟩ := hk.split
  obtain ⟨w, rfl, hw⟩ := quote_escaped hq
  refine ⟨w, tv, b, ?_, hw, hv, hb⟩
  rw [he.plain (by decide)]
  simp

theorem fields_escaped_head {kv : PyStr × Json} {kvs : List (PyStr × Json)} {t : PyStr}
    (ht : Escaped isAngle (joinWith [','] ((dumpsFields plainStyle (kv :: kvs)).map (fieldText plainStyle))) t) :
    ∃ ds, t = '"' :: ds := by
  obtain ⟨tail, htail⟩ := joinWith_head [','] (fieldText plainStyle (kv.1, dumps plainStyle kv.2))
    ((dumpsFields plainStyle kvs).map (fieldText plainStyle))
  rw [dumpsFields_cons, List.map_cons, htail] at ht
  obtain ⟨w, tv, b, rfl, -⟩ := field_escaped ht
  exact ⟨_, rfl⟩

mutual
/-- The text of a value with some brackets escaped is read as the value's own text. -/
theorem scanValue_escaped : ∀ (v : Json) (n d : Nat) (t rest : PyStr), Escaped isAngle (dumps plainStyle v) t →
    cost v ≤ n → Stops rest → scanValue h n d (t ++ rest) = readBack h d v rest
  | v, 0, d, t, rest, _, hn, _ => absurd (cost_pos v) (by omega)
  | .null, n + 1, d, t, rest, ht, hn, hr => by
    rw [ht.plain (atom_bracket trivial)]
    exact scanValue_dumps h rfl (compact_spaced false) _ _ _ _ hn hr
  | .bool b, n + 1, d, t, rest, ht, hn, hr => by
    rw [ht.plain (atom_bracket trivial)]
    exact scanValue_dumps h rfl (compact_spaced false) _ _ _ _ hn hr
  | .int i, n + 1, d, t, rest, ht, hn, hr => by
    rw [ht.plain (atom_bracket trivial)]
    exact scanValue_dumps h rfl (compact_spaced false) _ _ _ _ hn hr
  | .float x, n + 1, d, t, rest, ht, hn, hr => by
    rw [ht.plain (atom_bracket trivial)]
    exact scanValue_dumps h rfl (compact_spaced false) _ _ _ _ hn hr
  | .str s, n + 1, d, t, rest, ht, _, _ => by
    rw [dumps] at ht
    obtain ⟨w, rfl, hw⟩ := quote_escaped ht
    rw [List.cons_append, scanValue, if_pos rfl, List.append_assoc, List.singleton_append, scanString_whole s hw]
    simp [readBack, nesting, hooked]
  | .arr [], n + 1, d, t, rest, ht, hn, hr => by
    rw [ht.plain (by rw [dumps]; decide)]
    exact scanValue_dumps h rfl (compact_spaced false) _ _ _ _ hn hr
  | .arr (v :: vs), n + 1, d, t, rest, ht, hn, hr => by
    rw [cost] at hn
    obtain ⟨m, rfl⟩ : ∃ m, n = m + 1 := ⟨n - 1, by omega⟩
    rw [dumps, List.cons_append] at ht
    obtain ⟨t', rfl, ht'⟩ := ht.cons (by decide)
    obtain ⟨items, e, rfl, hi, he⟩ := ht'.split
    rw [he.plain (by decide)]
    have hitems := fun d => scanItems_escaped v vs m d items rest hi (by omega)
    obtain ⟨c, ds, hds, hopen⟩ := items_escaped_head hi
    have htext : '[' :: (items ++ [']']) ++ rest = '[' :: c :: (ds ++ ']' :: rest) := by rw [hds]; simp
    have hback : c :: (ds ++ ']' :: rest) = items ++ ']' :: rest := by rw [hds]; rfl
    rw [htext, scanValue, if_neg (by decide), if_pos rfl, readBack, nesting]
    cases d with
    | zero => simp [scanArray]
    | succ d =>
      rw [scanArray_cons h (skipSpace_cons hopen.1 _) hopen.2.1, hback, hitems d, readItems, hooked]
      simp only [Nat.add_le_add_iff_right]
      split_ifs
      · cases hookedItems h (v :: vs) <;> rfl
      · rfl
  | .obj [], n + 1, d, t, rest, ht, hn, hr => by
    rw [ht.plain (by rw [dumps]; decide)]
    exact scanValue_dumps h rfl (compact_spaced false) _ _ _ _ hn hr
  | .obj (kv :: kvs), n + 1, d, t, rest, ht, hn, hr => by
    rw [cost] at hn
    obtain ⟨m, rfl⟩ : ∃ m, n = m + 1 := ⟨n - 1, by omega⟩
    rw [dumps, List.cons_append] at ht
    obtain ⟨t', rfl, ht'⟩ := ht.cons (by decide)
    obtain ⟨fields, e, rfl, hf, he⟩ := ht'.split
    rw [he.plain (by decide)]
    have hfields := fun d => scanFields_escaped kv kvs m d fields rest hf (by omega)
    obtain ⟨ds, hds⟩ := fields_escaped_head hf
    have htext : '\x7b' :: (fields ++ ['\x7d']) ++ rest = '\x7b' :: '"' :: (ds ++ '\x7d' :: rest) := by
      rw [hds]
      simp
    have hback : '"' :: (ds ++ '\x7d' :: rest) = fields ++ '\x7d' :: rest := by rw [hds]; rfl
    rw [htext, scanValue, if_neg (by decide), if_neg (by decide), if_pos rfl, readBack, nesting]
    cases d with
    | zero => simp [scanObject]
    | succ d =>
      rw [scanObject_cons h (skipSpace_cons (by decide) _) (by decide), hback, hfields d, readFields, hooked]
      simp only [Nat.add_le_add_iff_right]
      split_ifs
      · cases hookedFields h (kv :: kvs) <;> rfl
      · rfl
  termination_by v => sizeOf v

theorem scanItems_escaped : ∀ (v : Json) (vs : List Json) (n d : Nat) (t rest : PyStr),
    Escaped isAngle (joinWith [','] (dumpsItems plainStyle (v :: vs))) t → costItems (v :: vs) ≤ n →
      scanItems h n d (t ++ ']' :: rest) = readItems h d (v :: vs) rest
  | v, vs, 0, d, t, rest, _, hn => absurd hn (by simp [costItems])
  | v, [], n + 1, d, t, rest, ht, hn => by
    rw [costItems, costItems] at hn
    rw [dumpsItems, dumpsItems, joinWith_singleton] at ht
    exact scanItems_last h (scanValue_escaped v n d t _ ht (by omega) (stops_cons (by simp) _))
  | v, w :: vs, n + 1, d, t, rest, ht, hn => by
    rw [costItems] at hn
    rw [dumpsItems, dumpsItems, joinWith_cons_cons, ← dumpsItems] at ht
    obtain ⟨a, b, rfl, ha, hb⟩ := ht.split
    obtain ⟨b', rfl, hb'⟩ := hb.cons (by decide)
    have hv := scanValue_escaped v n d a (',' :: (b' ++ ']' :: rest)) ha (by omega) (stops_cons (by simp) _)
    have hvs := scanItems_escaped w vs n d b' rest hb' (by omega)
    obtain ⟨c, ds, hds, hopen⟩ := items_escaped_head hb'
    have hskip : skipSpace (b' ++ ']' :: rest) = b' ++ ']' :: rest := by
      rw [hds, List.cons_append, skipSpace_cons hopen.1]
    rw [List.append_assoc, List.cons_append]
    exact scanItems_more h hv (by rw [hskip, hvs])
  termination_by v vs => sizeOf v + sizeOf vs

theorem scanFields_escaped : ∀ (kv : PyStr × Json) (kvs : List (PyStr × Json)) (n d : Nat) (t rest : PyStr),
    Escaped isAngle (joinWith [','] ((dumpsFields plainStyle (kv :: kvs)).map (fieldText plainStyle))) t →
      costFields (kv :: kvs) ≤ n → scanFields h n d (t ++ '\x7d' :: rest) = readFields h d (kv :: kvs) rest
  | (k, v), kvs, 0, d, t, rest, _, hn => absurd hn (by simp [costFields])
  | (k, v), [], n + 1, d, t, rest, ht, hn => by
    rw [costFields, costFields] at hn
    rw [dumpsFields_cons, List.map_cons, dumpsFields, List.map_nil, joinWith_singleton,
      ← List.append_nil (fieldText _ _)] at ht
    obtain ⟨w, tv, b, rfl, hw, htv, hb⟩ := field_escaped ht
    rw [hb.plain (List.forall_mem_nil _)]
    have hv := scanValue_escaped v n d tv ('\x7d' :: rest) htv (by omega) (stops_cons (by simp) _)
    obtain ⟨c, ds, hds, hopen⟩ := dumps_escaped_head htv
    have hskip : skipSpace (tv ++ '\x7d' :: rest) = tv ++ '\x7d' :: rest := by
      rw [hds, List.cons_append, skipSpace_cons hopen.1]
    have htext : '"' :: (w ++ '"' :: ':' :: (tv ++ [])) ++ '\x7d' :: rest =
        '"' :: (w ++ '"' :: ':' :: (tv ++ '\x7d' :: rest)) := by simp
    rw [htext]
    exact scanFields_last h (scanString_whole k hw) (by rw [hskip, hv])
  | (k, v), kv' :: kvs, n + 1, d, t, rest, ht, hn => by
    rw [costFields] at hn
    rw [dumpsFields_cons, dumpsFields_cons, List.map_cons, List.map_cons, joinWith_cons_cons, ← List.map_cons,
      ← dumpsFields_cons] at ht
    obtain ⟨w, tv, b, rfl, hw, htv, hb⟩ := field_escaped ht
    obtain ⟨b', rfl, hb'⟩ := hb.cons (by decide)
    have hv := scanValue_escaped v n d tv (',' :: (b' ++ '\x7d' :: rest)) htv (by omega) (stops_cons (by simp) _)
    have hkvs := scanFields_escaped kv' kvs n d b' rest hb' (by omega)
    obtain ⟨c, ds, hds, hopen⟩ := dumps_escaped_head htv
    have hskip : skipSpace (tv ++ ',' :: (b' ++ '\x7d' :: rest)) = tv ++ ',' :: (b' ++ '\x7d' :: rest) := by
      rw [hds, List.cons_append, skipSpace_cons hopen.1]
    obtain ⟨es, hes⟩ := fields_escaped_head hb'
    have hskip' : skipSpace (b' ++ '\x7d' :: rest) = b' ++ '\x7d' :: rest := by
      rw [hes, List.cons_append, skipSpace_cons (by decide)]
    have htext : '"' :: (w ++ '"' :: ':' :: (tv ++ ',' :: b')) ++ '\x7d' :: rest =
        '"' :: (w ++ '"' :: ':' :: (tv ++ ',' :: (b' ++ '\x7d' :: rest))) := by simp
    rw [htext]
    exact scanFields_more h (scanString_whole k hw) (by rw [hskip, hv]) (by rw [hskip', hkvs])
  termination_by kv kvs => sizeOf kv + sizeOf kvs
end

/-- The text of a value with some brackets escaped is read back. -/
theorem parse_escaped {v : Json} (hv : distinctKeys v = true) {t : PyStr}
    (ht : Escaped isAngle (dumps plainStyle v) t) : parse t = some v := by
  obtain ⟨c, ds, hds, hopen⟩ := dumps_escaped_head ht
  have hskip : skipSpace t = t := by rw [hds, skipSpace_cons hopen.1]
  have hlen := ht.length_le
  have hcost := @cost_le plainStyle rfl (by decide) v
  have hnest : nesting v ≤ t.length := (nesting_le rfl v).trans hlen
  have hscan := scanValue_escaped plainHooks v (3 * t.length + 1) t.length t [] ht (by omega)
    (fun c hc => by cases hc)
  rw [List.append_nil, readBack, if_pos hnest, hooked_plain v hv] at hscan
  rw [parse, loads, hskip, hscan]
  rfl

end Values
end Python.Json
