import Danus.Lib.JsonScan
import Mathlib.Algebra.Order.BigOperators.Group.List
import Mathlib.Algebra.Order.Group.Nat

/-! What `json.dumps` writes: no control characters, and with the default separators at most twice as
much as with the compact ones. -/
namespace Python.Json

/-- The characters of numbers. -/
def isNumberChar (c : Char) : Bool :=
  isDigit c || c == '-' || c == '+' || c == '.' || c == 'e' || c == 'E'

theorem isPlain_of_isDigit {c : Char} (hc : isDigit c = true) : isPlain c = true := by
  simp only [isDigit, Bool.and_eq_true, decide_eq_true_eq] at hc
  have hlow : ('0' : Char).toNat ≤ c.toNat := hc.1
  have hhigh : c.toNat ≤ ('9' : Char).toNat := hc.2
  have h0 : ('0' : Char).toNat = 48 := rfl
  have h9 : ('9' : Char).toNat = 57 := rfl
  simp only [isPlain, Bool.and_eq_true, decide_eq_true_eq]
  omega

theorem isPlain_of_isNumberChar {c : Char} (hc : isNumberChar c = true) : isPlain c = true := by
  simp only [isNumberChar, Bool.or_eq_true, beq_iff_eq] at hc
  rcases hc with ((((hc | rfl) | rfl) | rfl) | rfl) | rfl
  · exact isPlain_of_isDigit hc
  all_goals decide

section Numbers
variable {cs : PyStr}

theorem span_digits (cs : PyStr) : ∀ c ∈ (cs.span isDigit).1, isNumberChar c = true := by
  intro c hc
  rw [List.span_eq_takeWhile_dropWhile] at hc
  have hd := List.mem_takeWhile_imp hc
  simp [isNumberChar, hd]

theorem scanInt_chars {p : PyStr × PyStr} (hs : scanInt cs = some p) :
    ∀ c ∈ p.1, isNumberChar c = true := by
  have hnat : ∀ {cs : PyStr} {p : PyStr × PyStr}, scanNat cs = some p →
      ∀ c ∈ p.1, isNumberChar c = true := by
    intro cs p hs
    cases cs with
    | nil => cases hs
    | cons d cs =>
      rw [scanNat] at hs
      split_ifs at hs with h0 hd
      · cases hs
        intro c hc
        rw [List.mem_singleton.mp hc]
        decide
      · cases hs
        intro c hc
        rcases List.mem_cons.mp hc with rfl | hc
        · simp [isNumberChar, hd]
        · exact span_digits _ c hc
  cases cs with
  | nil => cases hs
  | cons d cs =>
    rw [scanInt] at hs
    split_ifs at hs with hm
    · obtain ⟨q, hq, rfl⟩ := Option.map_eq_some_iff.mp hs
      intro c hc
      rcases List.mem_cons.mp hc with rfl | hc
      · decide
      · exact hnat hq c hc
    · exact hnat hs

theorem scanFraction_chars (cs : PyStr) : ∀ c ∈ (scanFraction cs).1, isNumberChar c = true := by
  cases cs with
  | nil => simp [scanFraction]
  | cons d cs =>
    rw [scanFraction]
    split_ifs with h
    · intro c hc
      rcases List.mem_cons.mp hc with rfl | hc
      · rw [h.1]
        decide
      · exact span_digits _ c hc
    · simp

theorem scanExponent_chars (cs : PyStr) : ∀ c ∈ (scanExponent cs).1, isNumberChar c = true := by
  have hsign : ∀ cs, ∀ c ∈ (scanSign cs).1, isNumberChar c = true := by
    intro cs c hc
    cases cs with
    | nil => cases hc
    | cons d cs =>
      rw [scanSign] at hc
      split_ifs at hc with h
      · rw [List.mem_singleton.mp hc]
        rcases h with rfl | rfl <;> decide
      · cases hc
  cases cs with
  | nil => simp [scanExponent]
  | cons d cs =>
    rw [scanExponent]
    split_ifs with h
    · intro c hc
      rcases List.mem_cons.mp hc with rfl | hc
      · rcases h.1 with rfl | rfl <;> decide
      · rcases List.mem_append.mp hc with hc | hc
        · exact hsign _ c hc
        · exact span_digits _ c hc
    · simp

theorem float_chars {text : PyStr} (ht : isFloatText text = true) :
    ∀ c ∈ text, isNumberChar c = true := by
  obtain ⟨p, hi⟩ := scanInt_of_float ht
  have hend : (scanExponent (scanFraction p.2).2).2 = [] := by
    unfold isFloatText at ht
    simp only [hi, Bool.and_eq_true, beq_iff_eq] at ht
    exact ht.1.2
  have htext : text = p.1 ++ ((scanFraction p.2).1 ++ (scanExponent (scanFraction p.2).2).1) := by
    have h3 := scanExponent_split (scanFraction p.2).2
    rw [hend, List.append_nil] at h3
    rw [← h3, ← scanFraction_split]
    exact scanInt_split hi
  intro c hc
  rw [htext, List.mem_append, List.mem_append] at hc
  rcases hc with hc | hc | hc
  · exact scanInt_chars hi c hc
  · exact scanFraction_chars _ c hc
  · exact scanExponent_chars _ c hc

end Numbers

section Written
variable {style : Style} {P : Char → Prop}

/-- `P` holds of every character that a style writes. -/
structure Style.Writes (style : Style) (P : Char → Prop) : Prop where
  plain : ∀ c, isPlain c = true → P c
  string : style.ensureAscii = true ∨ ∀ c : Char, 0x20 ≤ c.toNat → P c
  items : ∀ c ∈ style.itemSeparator, P c
  keys : ∀ c ∈ style.keySeparator, P c

theorem Style.Writes.plains (hP : style.Writes P) {s : PyStr} (hs : s.all isPlain = true) :
    ∀ c ∈ s, P c := fun c hc => hP.plain c (List.all_eq_true.mp hs c hc)

theorem forall_mem_append {s t : PyStr} (hs : ∀ c ∈ s, P c) (ht : ∀ c ∈ t, P c) :
    ∀ c ∈ s ++ t, P c := by
  intro c hc
  rcases List.mem_append.mp hc with hc | hc
  · exact hs c hc
  · exact ht c hc

theorem forall_mem_join {sep : PyStr} (hsep : ∀ c ∈ sep, P c) {parts : List PyStr}
    (hp : ∀ p ∈ parts, ∀ c ∈ p, P c) : ∀ c ∈ joinWith sep parts, P c := by
  induction parts with
  | nil =>
    intro c hc
    cases hc
  | cons a l ih =>
    cases l with
    | nil =>
      rw [joinWith_singleton]
      exact hp a List.mem_cons_self
    | cons b l =>
      rw [joinWith_cons_cons]
      have htail := ih fun p hm => hp p (List.mem_cons_of_mem _ hm)
      exact forall_mem_append (hp a List.mem_cons_self) (forall_mem_append hsep htail)

theorem written_quote (hP : style.Writes P) (s : PyStr) : ∀ c ∈ quote style.ensureAscii s, P c := by
  have hchar : ∀ d, ∀ c ∈ escapeChar style.ensureAscii d, P c := by
    intro d
    rcases escapeChar_spec style.ensureAscii d with ⟨he, _, _, h8, hplain⟩ | ⟨ds, he, hds, _⟩
    · intro c hc
      rw [he, List.mem_singleton] at hc
      rw [hc]
      rcases hP.string with ha | hall
      · exact hP.plain d (hplain ha)
      · exact hall d (by omega)
    · rw [he]
      intro c hc
      rcases List.mem_cons.mp hc with rfl | hc
      · exact hP.plain _ (by decide)
      · exact hP.plain c (hds c hc)
  have hbody : ∀ c ∈ s.flatMap (escapeChar style.ensureAscii), P c := by
    intro c hc
    obtain ⟨d, _, hc⟩ := List.mem_flatMap.mp hc
    exact hchar d c hc
  have hmark : ∀ c ∈ ['"'], P c := hP.plains (by decide)
  exact forall_mem_append (forall_mem_append hmark hbody) hmark

theorem written_intText (hP : style.Writes P) (i : Int) : ∀ c ∈ intText i, P c := by
  have hn : ∀ n, ∀ c ∈ natText n, P c :=
    fun n c hc => hP.plain c (isPlain_of_isDigit (natText_digits n c hc))
  have hminus : ∀ c ∈ ['-'], P c := hP.plains (by decide)
  unfold intText
  split_ifs
  · exact forall_mem_append hminus (hn _)
  · exact hn _

theorem written_float (hP : style.Writes P) (x : PyFloat) : ∀ c ∈ x.text, P c := by
  cases x with
  | finite text ht => exact fun c hc => hP.plain c (isPlain_of_isNumberChar (float_chars ht c hc))
  | infinite b => cases b <;> exact hP.plains (by decide)
  | nan => exact hP.plains (by decide)

theorem mem_sortByKey {α : Type} {items : List (PyStr × α)} {p : PyStr × α} :
    p ∈ sortByKey items ↔ p ∈ items := by
  rw [sortByKey, List.mem_insertionSort]

mutual
/-- What a style writes, it writes in all of a value's text. -/
theorem written_dumps (hP : style.Writes P) : ∀ v : Json, ∀ c ∈ dumps style v, P c
  | .null => by
    rw [dumps]
    exact hP.plains (by decide)
  | .bool true => by
    rw [dumps]
    exact hP.plains (by decide)
  | .bool false => by
    rw [dumps]
    exact hP.plains (by decide)
  | .int i => by
    rw [dumps]
    exact written_intText hP i
  | .float x => by
    rw [dumps]
    exact written_float hP x
  | .str s => by
    rw [dumps]
    exact written_quote hP s
  | .arr items => by
    have hopen : ∀ c ∈ ['['], P c := hP.plains (by decide)
    have hclose : ∀ c ∈ [']'], P c := hP.plains (by decide)
    rw [dumps]
    exact forall_mem_append (forall_mem_append hopen
      (forall_mem_join hP.items (written_items hP items))) hclose
  | .obj items => by
    have hopen : ∀ c ∈ ['\x7b'], P c := hP.plains (by decide)
    have hclose : ∀ c ∈ ['\x7d'], P c := hP.plains (by decide)
    rw [dumps]
    refine forall_mem_append (forall_mem_append hopen
      (forall_mem_join hP.items fun p hp => ?_)) hclose
    obtain ⟨kv, hkv, rfl⟩ := List.mem_map.mp hp
    have hm : kv ∈ dumpsFields style items := by
      split_ifs at hkv
      · exact mem_sortByKey.mp hkv
      · exact hkv
    exact forall_mem_append (forall_mem_append (written_quote hP _) hP.keys)
      (written_fields hP items kv hm)

theorem written_items (hP : style.Writes P) :
    ∀ vs : List Json, ∀ p ∈ dumpsItems style vs, ∀ c ∈ p, P c
  | [], p, hp => by cases hp
  | v :: vs, p, hp => by
    rw [dumpsItems] at hp
    rcases List.mem_cons.mp hp with rfl | hp
    · exact written_dumps hP v
    · exact written_items hP vs p hp

theorem written_fields (hP : style.Writes P) :
    ∀ kvs : List (PyStr × Json), ∀ p ∈ dumpsFields style kvs, ∀ c ∈ p.2, P c
  | [], p, hp => by cases hp
  | (k, v) :: kvs, p, hp => by
    rw [dumpsFields] at hp
    rcases List.mem_cons.mp hp with rfl | hp
    · exact written_dumps hP v
    · exact written_fields hP kvs p hp
end

/-- No control character. -/
def Printable (s : PyStr) : Prop := ∀ c ∈ s, 0x20 ≤ c.toNat

instance (s : PyStr) : Decidable (Printable s) :=
  inferInstanceAs (Decidable (∀ c ∈ s, 0x20 ≤ c.toNat))

/-- What is written has no control character, where the separators have none. -/
theorem printable_dumps (hi : Printable style.itemSeparator) (hk : Printable style.keySeparator)
    (v : Json) : Printable (dumps style v) :=
  written_dumps ⟨fun _ => le_of_isPlain, .inr fun _ h => h, hi, hk⟩ v

/-- With `ensure_ascii` the text goes from spaces to tildes. -/
theorem plain_dumps {sorted : Bool} (v : Json) :
    ∀ c ∈ dumps (spaced true sorted) v, isPlain c = true := by
  have hsep : ∀ c ∈ [',', ' '], isPlain c = true := by decide
  have hkey : ∀ c ∈ [':', ' '], isPlain c = true := by decide
  exact written_dumps ⟨fun _ h => h, .inl rfl, hsep, hkey⟩ v

end Written

section Lengths

theorem utf8Length_append (s t : PyStr) : utf8Length (s ++ t) = utf8Length s + utf8Length t := by
  rw [utf8Length, encodeUtf8_append, List.length_append]
  rfl

theorem utf8Length_cons_ascii {c : Char} (hc : c.toNat < 0x80) (s : PyStr) :
    utf8Length (c :: s) = utf8Length s + 1 := by
  have he : utf8Char c = [c.toNat] := if_pos hc
  rw [utf8Length, encodeUtf8, List.flatMap_cons, he]
  rfl

/-- Every part and, but for the last one, the separator after it. -/
theorem utf8Length_join (sep : PyStr) (a : PyStr) (l : List PyStr) :
    utf8Length (joinWith sep (a :: l)) + utf8Length sep =
      ((a :: l).map fun p => utf8Length p + utf8Length sep).sum := by
  induction l generalizing a with
  | nil => simp [joinWith_singleton]
  | cons b l ih =>
    have h := ih b
    rw [joinWith_cons_cons, utf8Length_append, utf8Length_append, List.map_cons, List.sum_cons]
    omega

theorem le_utf8Length_join (sep : PyStr) {part : PyStr} {parts : List PyStr} (h : part ∈ parts) :
    utf8Length part ≤ utf8Length (joinWith sep parts) := by
  cases parts with
  | nil => cases h
  | cons a l =>
    have hj := utf8Length_join sep a l
    have hm : utf8Length part + utf8Length sep ∈
        (a :: l).map fun p => utf8Length p + utf8Length sep := List.mem_map_of_mem h
    have hs := List.le_sum_of_mem hm
    omega

theorem length_le_utf8Length (s : PyStr) : s.length ≤ utf8Length s := by
  induction s with
  | nil => exact Nat.zero_le _
  | cons c s ih =>
    have hc : 1 ≤ utf8Length [c] := by
      rw [utf8Length, encodeUtf8, List.flatMap_cons, utf8Char]
      split_ifs <;> simp
    have happ := utf8Length_append [c] s
    rw [List.singleton_append] at happ
    rw [List.length_cons]
    omega

/-- A string is not shortened by its quotes and escapes. -/
theorem length_le_quote (ascii : Bool) (s : PyStr) : s.length ≤ utf8Length (quote ascii s) := by
  have hesc : s.length ≤ (s.flatMap (escapeChar ascii)).length := by
    induction s with
    | nil => exact Nat.zero_le _
    | cons c s ih =>
      have hc : 1 ≤ (escapeChar ascii c).length := by
        rcases escapeChar_spec ascii c with ⟨he, _⟩ | ⟨ds, he, _⟩
        · rw [he]
          exact Nat.le_refl 1
        · rw [he, List.length_cons]
          omega
      rw [List.flatMap_cons, List.length_append, List.length_cons]
      omega
  refine le_trans ?_ (length_le_utf8Length _)
  rw [quote, List.length_append, List.length_cons]
  omega

/-- Twice as long parts and a separator of two bytes for one byte. -/
theorem utf8Length_join_le {sep sep' : PyStr} (hs : utf8Length sep = 2) (hs' : utf8Length sep' = 1)
    {l l' : List PyStr} (h : (l.map utf8Length).sum ≤ 2 * (l'.map utf8Length).sum)
    (hl : l.length = l'.length) :
    utf8Length (joinWith sep l) ≤ 2 * utf8Length (joinWith sep' l') := by
  have hsum : ∀ (l : List PyStr) (n : Nat),
      (l.map fun p => utf8Length p + n).sum = (l.map utf8Length).sum + n * l.length := by
    intro l n
    induction l with
    | nil => rfl
    | cons a l ih =>
      rw [List.map_cons, List.sum_cons, ih, List.map_cons, List.sum_cons, List.length_cons, Nat.mul_succ]
      omega
  cases l with
  | nil => exact Nat.zero_le _
  | cons a l =>
    cases l' with
    | nil => cases hl
    | cons a' l' =>
      have h1 := utf8Length_join sep a l
      have h2 := utf8Length_join sep' a' l'
      rw [hsum, hs] at h1
      rw [hsum, hs'] at h2
      rw [hl] at h1
      omega

/-- A field is written at most twice as long. -/
theorem fieldText_le (ascii : Bool) (k : PyStr) {v v' : PyStr} (h : utf8Length v ≤ 2 * utf8Length v') :
    utf8Length (quote ascii k ++ [':', ' '] ++ v) ≤
      2 * utf8Length (quote ascii k ++ [':'] ++ v') := by
  have h2 : utf8Length [':', ' '] = 2 := rfl
  have h1 : utf8Length [':'] = 1 := rfl
  simp only [utf8Length_append, h2, h1]
  omega

/-- The fields in the order in which they are written. -/
def ordered (style : Style) (items : List (PyStr × Json)) : List (PyStr × PyStr) :=
  if style.sortKeys then sortByKey (dumpsFields style items) else dumpsFields style items

theorem ordered_perm (style : Style) (items : List (PyStr × Json)) :
    (ordered style items).Perm (dumpsFields style items) := by
  unfold ordered
  split_ifs
  · exact List.perm_insertionSort _ _
  · exact List.Perm.refl _

/-- An object is written longer than any of its values. -/
theorem value_lt_dumps (style : Style) {items : List (PyStr × Json)} {k : PyStr} {v : Json}
    (h : (k, v) ∈ items) : utf8Length (dumps style v) < utf8Length (dumps style (.obj items)) := by
  have hfield : (k, dumps style v) ∈ dumpsFields style items := by
    induction items with
    | nil => cases h
    | cons kv items ih =>
      rw [dumpsFields]
      rcases List.mem_cons.mp h with rfl | h
      · exact List.mem_cons_self
      · exact List.mem_cons_of_mem _ (ih h)
  have hpart : quote style.ensureAscii k ++ style.keySeparator ++ dumps style v ∈
      (ordered style items).map fun kv => quote style.ensureAscii kv.1 ++ style.keySeparator ++ kv.2 :=
    List.mem_map_of_mem ((ordered_perm style items).mem_iff.mpr hfield)
  have hjoin := le_utf8Length_join style.itemSeparator hpart
  rw [utf8Length_append] at hjoin
  rw [dumps, utf8Length_append, utf8Length_cons_ascii (by decide)]
  unfold ordered at hjoin
  omega

mutual
/-- The default separators at most double the text. -/
theorem spaced_le (ascii sorted : Bool) : ∀ v : Json, utf8Length (dumps (spaced ascii false) v) ≤
    2 * utf8Length (dumps (compact ascii sorted) v)
  | .null => by simp only [dumps]; omega
  | .bool true => by simp only [dumps]; omega
  | .bool false => by simp only [dumps]; omega
  | .int i => by simp only [dumps]; omega
  | .float x => by simp only [dumps]; omega
  | .str s => by
    simp only [dumps, spaced, compact]
    omega
  | .arr items => by
    have h : utf8Length (joinWith [',', ' '] (dumpsItems (spaced ascii false) items)) ≤
        2 * utf8Length (joinWith [','] (dumpsItems (compact ascii sorted) items)) :=
      utf8Length_join_le rfl rfl (spacedItems_le ascii sorted items).1
        (spacedItems_le ascii sorted items).2
    have hc : utf8Length [']'] = 1 := rfl
    simp only [dumps, utf8Length_append, hc]
    rw [utf8Length_cons_ascii (by decide), utf8Length_cons_ascii (by decide)]
    simp only [spaced, compact] at h ⊢
    omega
  | .obj items => by
    have hf := spacedFields_le ascii sorted items
    have hperm := ordered_perm (compact ascii sorted) items
    have h : utf8Length (joinWith [',', ' '] ((dumpsFields (spaced ascii false) items).map fun kv =>
        quote ascii kv.1 ++ [':', ' '] ++ kv.2)) ≤ 2 * utf8Length (joinWith [',']
        ((ordered (compact ascii sorted) items).map fun kv => quote ascii kv.1 ++ [':'] ++ kv.2)) := by
      refine utf8Length_join_le rfl rfl ?_ ?_
      · rw [List.map_map, List.map_map]
        refine hf.1.trans_eq (congrArg (2 * ·) ?_)
        exact ((hperm.map _).sum_eq).symm
      · rw [List.length_map, List.length_map, hperm.length_eq]
        exact hf.2
    have hc : utf8Length ['\x7d'] = 1 := rfl
    rw [dumps, dumps, utf8Length_append, utf8Length_append, hc, utf8Length_cons_ascii (by decide),
      utf8Length_cons_ascii (by decide)]
    have hgoal : utf8Length (joinWith [',', ' '] ((dumpsFields (spaced ascii false) items).map fun kv =>
        quote ascii kv.1 ++ [':', ' '] ++ kv.2)) + 1 + 1 ≤ 2 * (utf8Length (joinWith [',']
        ((ordered (compact ascii sorted) items).map fun kv =>
          quote ascii kv.1 ++ [':'] ++ kv.2)) + 1 + 1) := by
      omega
    exact hgoal

theorem spacedItems_le (ascii sorted : Bool) : ∀ vs : List Json,
    ((dumpsItems (spaced ascii false) vs).map utf8Length).sum ≤
      2 * ((dumpsItems (compact ascii sorted) vs).map utf8Length).sum ∧
    (dumpsItems (spaced ascii false) vs).length = (dumpsItems (compact ascii sorted) vs).length
  | [] => ⟨le_rfl, rfl⟩
  | v :: vs => by
    have hv := spaced_le ascii sorted v
    have hvs := spacedItems_le ascii sorted vs
    simp only [dumpsItems, List.map_cons, List.sum_cons, List.length_cons]
    omega

theorem spacedFields_le (ascii sorted : Bool) : ∀ kvs : List (PyStr × Json),
    ((dumpsFields (spaced ascii false) kvs).map fun kv =>
      utf8Length (quote ascii kv.1 ++ [':', ' '] ++ kv.2)).sum ≤
      2 * ((dumpsFields (compact ascii sorted) kvs).map fun kv =>
        utf8Length (quote ascii kv.1 ++ [':'] ++ kv.2)).sum ∧
    (dumpsFields (spaced ascii false) kvs).length = (dumpsFields (compact ascii sorted) kvs).length
  | [] => ⟨le_rfl, rfl⟩
  | (k, v) :: kvs => by
    have hv := fieldText_le ascii k (spaced_le ascii sorted v)
    have hvs := spacedFields_le ascii sorted kvs
    simp only [dumpsFields, List.map_cons, List.sum_cons, List.length_cons]
    omega
end

end Lengths

end Python.Json
