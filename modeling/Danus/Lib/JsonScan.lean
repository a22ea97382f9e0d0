import Danus.Lib.JsonRead
import Danus.Lib.Utf8
import Mathlib.Data.List.TakeWhile

/-! Numbers, strings and the starts of values are read as they were written. -/
namespace Python.Json

/-- Text that ends a number. -/
def Stops (rest : PyStr) : Prop :=
  ∀ c ∈ rest.head?, isDigit c = false ∧ c ≠ '.' ∧ c ≠ 'e' ∧ c ≠ 'E' ∧ c ≠ '+' ∧ c ≠ '-'

section Numbers
variable {cs rest : PyStr}

theorem span_append {p : Char → Bool} (hr : ∀ c ∈ rest.head?, p c = false) (cs : PyStr) :
    (cs ++ rest).span p = ((cs.span p).1, (cs.span p).2 ++ rest) := by
  induction cs with
  | nil =>
    cases rest with
    | nil => simp
    | cons c rest => simp [List.span_eq_takeWhile_dropWhile, hr c rfl]
  | cons c cs ih =>
    rw [List.span_eq_takeWhile_dropWhile, List.span_eq_takeWhile_dropWhile] at ih ⊢
    rw [Prod.mk.injEq] at ih
    by_cases hc : p c = true
    · simp [hc, ih.1, ih.2]
    · simp [hc]

theorem Stops.digit (h : Stops rest) : ∀ c ∈ rest.head?, isDigit c = false := fun c hc => (h c hc).1

theorem scanNat_append (h : Stops rest) {p : PyStr × PyStr} (hs : scanNat cs = some p) :
    scanNat (cs ++ rest) = some (p.1, p.2 ++ rest) := by
  cases cs with
  | nil => cases hs
  | cons c cs =>
    rw [List.cons_append]
    unfold scanNat at hs ⊢
    simp only at hs ⊢
    split_ifs at hs ⊢ with h0 hd
    · cases hs
      rfl
    · cases hs
      rw [span_append h.digit]

theorem scanInt_append (h : Stops rest) {p : PyStr × PyStr} (hs : scanInt cs = some p) :
    scanInt (cs ++ rest) = some (p.1, p.2 ++ rest) := by
  cases cs with
  | nil => cases hs
  | cons c cs =>
    rw [List.cons_append]
    unfold scanInt at hs ⊢
    simp only at hs ⊢
    split_ifs at hs ⊢ with hm
    · obtain ⟨q, hq, rfl⟩ := Option.map_eq_some_iff.mp hs
      rw [scanNat_append h hq, Option.map_some]
    · rw [← List.cons_append]
      exact scanNat_append h hs

theorem scanFraction_append (h : Stops rest) (cs : PyStr) :
    scanFraction (cs ++ rest) = ((scanFraction cs).1, (scanFraction cs).2 ++ rest) := by
  cases cs with
  | nil =>
    cases rest with
    | nil => rfl
    | cons c rest => simp [scanFraction, (h c rfl).2.1]
  | cons c cs =>
    rw [List.cons_append]
    unfold scanFraction
    simp only [span_append h.digit]
    split_ifs <;> rfl

theorem scanExponent_append (h : Stops rest) (cs : PyStr) :
    scanExponent (cs ++ rest) = ((scanExponent cs).1, (scanExponent cs).2 ++ rest) := by
  have hsign : ∀ cs, scanSign (cs ++ rest) = ((scanSign cs).1, (scanSign cs).2 ++ rest) := by
    intro cs
    cases cs with
    | nil =>
      cases rest with
      | nil => rfl
      | cons c rest => simp [scanSign, (h c rfl).2.2.2.2.1, (h c rfl).2.2.2.2.2]
    | cons c cs =>
      rw [List.cons_append]
      unfold scanSign
      simp only
      split_ifs <;> rfl
  cases cs with
  | nil =>
    cases rest with
    | nil => rfl
    | cons c rest => simp [scanExponent, (h c rfl).2.2.1, (h c rfl).2.2.2.1]
  | cons c cs =>
    rw [List.cons_append]
    unfold scanExponent
    simp only [hsign, span_append h.digit]
    split_ifs <;> rfl

/-- What was scanned is the front of the text. -/
theorem scanNat_split {p : PyStr × PyStr} (hs : scanNat cs = some p) : cs = p.1 ++ p.2 := by
  cases cs with
  | nil => cases hs
  | cons c cs =>
    rw [scanNat] at hs
    split_ifs at hs with h0 hd
    · cases hs
      rw [h0]
      rfl
    · cases hs
      simp [List.span_eq_takeWhile_dropWhile]

theorem scanInt_split {p : PyStr × PyStr} (hs : scanInt cs = some p) : cs = p.1 ++ p.2 := by
  cases cs with
  | nil => cases hs
  | cons c cs =>
    rw [scanInt] at hs
    split_ifs at hs with hm
    · obtain ⟨q, hq, rfl⟩ := Option.map_eq_some_iff.mp hs
      rw [hm, scanNat_split hq]
      rfl
    · exact scanNat_split hs

theorem scanFraction_split (cs : PyStr) : cs = (scanFraction cs).1 ++ (scanFraction cs).2 := by
  cases cs with
  | nil => rfl
  | cons c cs =>
    unfold scanFraction
    simp only
    split_ifs
    · simp [List.span_eq_takeWhile_dropWhile]
    · rfl

theorem scanExponent_split (cs : PyStr) : cs = (scanExponent cs).1 ++ (scanExponent cs).2 := by
  have hsign : ∀ cs, cs = (scanSign cs).1 ++ (scanSign cs).2 := by
    intro cs
    cases cs with
    | nil => rfl
    | cons c cs =>
      rw [scanSign]
      split_ifs <;> rfl
  cases cs with
  | nil => rfl
  | cons c cs =>
    unfold scanExponent
    simp only
    split_ifs
    · have h := hsign cs
      simp only [List.span_eq_takeWhile_dropWhile, List.cons_append, List.append_assoc,
        List.takeWhile_append_dropWhile, ← h]
    · rfl

/-- An integer starts with a digit, or with a sign and a digit. -/
theorem scanInt_head {p : PyStr × PyStr} (hs : scanInt cs = some p) :
    ∃ c rest, isDigit c = true ∧ (cs = c :: rest ∨ cs = '-' :: c :: rest) := by
  have hnat : ∀ {cs : PyStr} {p : PyStr × PyStr}, scanNat cs = some p →
      ∃ c rest, isDigit c = true ∧ cs = c :: rest := by
    intro cs p hs
    cases cs with
    | nil => cases hs
    | cons c cs =>
      rw [scanNat] at hs
      split_ifs at hs with h0 hd
      · exact ⟨c, cs, by rw [h0]; rfl, rfl⟩
      · exact ⟨c, cs, hd, rfl⟩
  cases cs with
  | nil => cases hs
  | cons c cs =>
    rw [scanInt] at hs
    split_ifs at hs with hm
    · obtain ⟨q, hq, _⟩ := Option.map_eq_some_iff.mp hs
      obtain ⟨d, rest, hd, rfl⟩ := hnat hq
      exact ⟨d, rest, hd, .inr (by rw [hm])⟩
    · obtain ⟨d, rest, hd, he⟩ := hnat hs
      exact ⟨d, rest, hd, .inl he⟩

theorem natText_digits (n : Nat) : ∀ c ∈ natText n, isDigit c = true := by
  intro c hc
  rw [natText, Nat.toList_repr] at hc
  have h := Nat.isDigit_of_mem_toDigits (by decide) (by decide) hc
  simpa [Char.isDigit, isDigit, Char.le_def, UInt32.le_iff_toNat_le] using h

theorem natText_head {n : Nat} (hn : 0 < n) : (natText n).head? ≠ some '0' := by
  rw [natText, Nat.toList_repr]
  induction n using Nat.strongRecOn with
  | ind n ih =>
    by_cases h : n < 10
    · rw [Nat.toDigits_of_lt_base h]
      simp
      omega
    · rw [Nat.toDigits_of_base_le (by decide) (by omega),
        List.head?_append_of_ne_nil _ Nat.toDigits_ne_nil]
      exact ih (n / 10) (by omega) (by omega)

theorem scanNat_natText (n : Nat) (h : Stops rest) :
    scanNat (natText n ++ rest) = some (natText n, rest) := by
  have hall : ∀ ds : PyStr, (∀ c ∈ ds, isDigit c = true) → ds.span isDigit = (ds, []) := by
    intro ds hds
    rw [List.span_eq_takeWhile_dropWhile, List.takeWhile_eq_self_iff.mpr hds,
      List.dropWhile_eq_nil_iff.mpr hds]
  have hbase : scanNat (natText n) = some (natText n, []) := by
    rcases Nat.eq_zero_or_pos n with rfl | hn
    · rfl
    · have hhead := natText_head hn
      have hdigits := natText_digits n
      cases hc : natText n with
      | nil =>
        rw [natText, Nat.toList_repr] at hc
        exact (Nat.toDigits_ne_nil hc).elim
      | cons c cs =>
        rw [hc] at hhead hdigits
        have hne : c ≠ '0' := fun he => hhead (by rw [he]; rfl)
        rw [scanNat, if_neg hne, if_pos (hdigits c List.mem_cons_self),
          hall cs fun d hd => hdigits d (List.mem_cons_of_mem _ hd)]
  exact scanNat_append h hbase

theorem scanInt_intText (i : Int) (h : Stops rest) :
    scanInt (intText i ++ rest) = some (intText i, rest) := by
  unfold intText
  split_ifs with hi
  · rw [List.cons_append, scanInt, if_pos rfl, scanNat_natText _ h, Option.map_some]
  · have hn := scanNat_natText i.natAbs h
    have hm : scanInt ('-' :: (natText i.natAbs ++ rest)) = some ('-' :: natText i.natAbs, rest) := by
      rw [scanInt, if_pos rfl, hn, Option.map_some]
    obtain ⟨c, cs, hd, hc | hc⟩ := scanInt_head hm
    · cases hc
      cases hd
    · rw [List.cons.injEq] at hc
      rw [hc.2] at hn ⊢
      have hne : c ≠ '-' := by
        rintro rfl
        cases hd
      rw [scanInt, if_neg hne]
      exact hn

theorem intValue_intText (i : Int) : intValue (intText i) = i := by
  have hv : digitsValue (natText i.natAbs) = i.natAbs := by
    rw [natText, Nat.toList_repr]
    exact Nat.ofDigitChars_ten_toDigits
  unfold intText
  split_ifs with hi
  · rw [intValue, hv]
    omega
  · have hdigits := natText_digits i.natAbs
    have hplain : intValue (natText i.natAbs) = digitsValue (natText i.natAbs) := by
      unfold intValue
      split
      · next ds he =>
        rw [he] at hdigits
        cases hdigits '-' List.mem_cons_self
      · next ds he =>
        rw [he] at hdigits
        cases hdigits '+' List.mem_cons_self
      · rfl
    rw [hplain, hv]
    omega

/-- A number is read as it was written. -/
theorem scanNumber_int (h : Hooks) (i : Int) (hr : Stops rest) :
    scanNumber h (intText i ++ rest) = some (.int i, rest) := by
  have hf := scanFraction_append hr []
  have he := scanExponent_append hr []
  simp only [List.nil_append, show scanFraction [] = ([], []) from rfl,
    show scanExponent [] = ([], []) from rfl] at hf he
  simp [scanNumber, scanInt_intText i hr, hf, he, intValue_intText]

theorem scanNumber_float (h : Hooks) (text : PyStr) (ht : isFloatText text = true) (hr : Stops rest) :
    scanNumber h (text ++ rest) = (h.float (.finite text ht)).map fun x => (.float x, rest) := by
  have hparts := ht
  unfold isFloatText at hparts
  cases hi : scanInt text with
  | none => simp [hi] at hparts
  | some p =>
    obtain ⟨integer, after⟩ := p
    simp only [hi, Bool.and_eq_true, Bool.or_eq_true, bne_iff_ne, ne_eq, beq_iff_eq] at hparts
    obtain ⟨⟨hsome, hend⟩, _⟩ := hparts
    have hne : ¬ ((scanFraction after).1 = [] ∧ (scanExponent (scanFraction after).2).1 = []) :=
      fun hb => hsome.elim (fun hf => hf hb.1) fun he => he hb.2
    have htext : text = integer ++ (scanFraction after).1 ++
        (scanExponent (scanFraction after).2).1 := by
      have h2 := scanFraction_split after
      have h3 := scanExponent_split (scanFraction after).2
      rw [hend, List.append_nil] at h3
      rw [List.append_assoc, ← h3, ← h2]
      exact scanInt_split hi
    unfold scanNumber
    rw [scanInt_append hr hi, Option.bind_some]
    simp only [scanFraction_append hr, scanExponent_append hr, hend, List.nil_append]
    rw [if_neg hne]
    simp only [← htext, ht, dif_pos]

end Numbers

section Strings
variable {rest : PyStr}

theorem hexDigit_getD : ∀ n, n < 16 → hexDigit ("0123456789abcdef".toList.getD n '0') = some n := by
  decide

theorem hexValue_hexText {n : Nat} (hn : n < 0x10000) :
    hexValue (hexText 4 n ++ rest) = some (n, rest) := by
  have h (k : Nat) := hexDigit_getD (k % 16) (Nat.mod_lt k (by decide))
  have hv : n / 16 / 16 / 16 % 16 * 4096 + n / 16 / 16 % 16 * 256 + n / 16 % 16 * 16 + n % 16 = n := by
    omega
  simp only [hexText, List.nil_append, List.cons_append, hexValue, h, Option.bind_some,
    Option.map_some, hv]

theorem unescapeUnit_hexText {c : Char} (hc : c.toNat < 0x10000) (rest : PyStr) :
    unescapeUnit (hexText 4 c.toNat ++ rest) = some (c, rest) := by
  have hv : Nat.isValidChar c.toNat := c.valid
  have hs : ¬ (0xd800 ≤ c.toNat ∧ c.toNat < 0xdc00) := by
    unfold Nat.isValidChar at hv
    omega
  have hs' : ¬ (0xdc00 ≤ c.toNat ∧ c.toNat < 0xe000) := by
    unfold Nat.isValidChar at hv
    omega
  rw [unescapeUnit, hexValue_hexText hc, Option.bind_some, if_neg hs, if_neg hs', Char.ofNat_toNat]

theorem unescapeUnit_hexPair {c : Char} (hc : ¬ c.toNat < 0x10000) (rest : PyStr) :
    unescapeUnit (hexText 4 (0xd800 + (c.toNat - 0x10000) / 0x400) ++
      ('\\' :: 'u' :: (hexText 4 (0xdc00 + (c.toNat - 0x10000) % 0x400) ++ rest))) =
      some (c, rest) := by
  have hlt := toNat_lt c
  have hhigh : 0xd800 + (c.toNat - 0x10000) / 0x400 < 0xdc00 := by omega
  have hlow : 0xdc00 + (c.toNat - 0x10000) % 0x400 < 0xe000 := by omega
  have hn : 0x10000 + (0xd800 + (c.toNat - 0x10000) / 0x400 - 0xd800) * 0x400 +
      (0xdc00 + (c.toNat - 0x10000) % 0x400 - 0xdc00) = c.toNat := by
    omega
  rw [unescapeUnit, hexValue_hexText (by omega), Option.bind_some, if_pos ⟨by omega, hhigh⟩]
  simp only
  rw [hexValue_hexText (by omega), Option.bind_some, if_pos ⟨by omega, hlow⟩, hn, Char.ofNat_toNat]

/-- The characters that `ensure_ascii` leaves alone, from the space to the tilde. -/
def isPlain (c : Char) : Bool := 0x20 ≤ c.toNat && c.toNat < 0x7f

theorem le_of_isPlain {c : Char} (hc : isPlain c = true) : 0x20 ≤ c.toNat := by
  simp only [isPlain, Bool.and_eq_true, decide_eq_true_eq] at hc
  exact hc.1

theorem hexText_plain (k n : Nat) : ∀ c ∈ hexText k n, isPlain c = true := by
  have key : ∀ i, i < 16 → isPlain ("0123456789abcdef".toList.getD i '0') = true := by decide
  induction k generalizing n with
  | zero => simp [hexText]
  | succ k ih =>
    intro c hc
    rw [hexText, List.mem_append, List.mem_singleton] at hc
    rcases hc with hc | rfl
    · exact ih _ c hc
    · exact key _ (Nat.mod_lt n (by decide))

theorem hexText_unit (n : Nat) : ∀ c ∈ 'u' :: hexText 4 n, isPlain c = true := by
  intro c hc
  rcases List.mem_cons.mp hc with rfl | hc
  · decide
  · exact hexText_plain 4 n c hc

/-- A character is written as it is, or as an escape that stands for it. -/
theorem escapeChar_spec (ascii : Bool) (c : Char) :
    (escapeChar ascii c = [c] ∧ c ≠ '"' ∧ c ≠ '\\' ∧ ¬ c.toNat < 0x20 ∧
        (ascii = true → isPlain c = true)) ∨
      ∃ ds, escapeChar ascii c = '\\' :: ds ∧ (∀ d ∈ ds, isPlain d = true) ∧
        ∀ rest, unescape (ds ++ rest) = some (c, rest) := by
  have hof {n : Nat} (h : c.toNat = n) : c = Char.ofNat n := by rw [← h, Char.ofNat_toNat]
  unfold escapeChar
  by_cases h1 : c = '"'
  · rw [if_pos h1, h1]
    exact .inr ⟨_, rfl, by decide, fun _ => rfl⟩
  by_cases h2 : c = '\\'
  · rw [if_neg h1, if_pos h2, h2]
    exact .inr ⟨_, rfl, by decide, fun _ => rfl⟩
  by_cases h3 : c.toNat = 8
  · rw [if_neg h1, if_neg h2, if_pos h3, hof h3]
    exact .inr ⟨_, rfl, by decide, fun _ => rfl⟩
  by_cases h4 : c.toNat = 12
  · rw [if_neg h1, if_neg h2, if_neg h3, if_pos h4, hof h4]
    exact .inr ⟨_, rfl, by decide, fun _ => rfl⟩
  by_cases h5 : c.toNat = 10
  · rw [if_neg h1, if_neg h2, if_neg h3, if_neg h4, if_pos h5, hof h5]
    exact .inr ⟨_, rfl, by decide, fun _ => rfl⟩
  by_cases h6 : c.toNat = 13
  · rw [if_neg h1, if_neg h2, if_neg h3, if_neg h4, if_neg h5, if_pos h6, hof h6]
    exact .inr ⟨_, rfl, by decide, fun _ => rfl⟩
  by_cases h7 : c.toNat = 9
  · rw [if_neg h1, if_neg h2, if_neg h3, if_neg h4, if_neg h5, if_neg h6, if_pos h7, hof h7]
    exact .inr ⟨_, rfl, by decide, fun _ => rfl⟩
  rw [if_neg h1, if_neg h2, if_neg h3, if_neg h4, if_neg h5, if_neg h6, if_neg h7]
  by_cases h8 : c.toNat < 0x20
  · rw [if_pos h8]
    exact .inr ⟨_, rfl, hexText_unit _, unescapeUnit_hexText (by omega)⟩
  by_cases h9 : (!ascii || decide (c.toNat < 0x7f)) = true
  · rw [if_neg h8, if_pos h9]
    refine .inl ⟨rfl, h1, h2, h8, ?_⟩
    rintro rfl
    rw [Bool.not_true, Bool.false_or] at h9
    simp only [isPlain, Bool.and_eq_true, decide_eq_true_eq] at h9 ⊢
    omega
  by_cases h10 : c.toNat < 0x10000
  · rw [if_neg h8, if_neg h9, if_pos h10]
    exact .inr ⟨_, rfl, hexText_unit _, unescapeUnit_hexText h10⟩
  · rw [if_neg h8, if_neg h9, if_neg h10]
    refine .inr ⟨'u' :: (hexText 4 (0xd800 + (c.toNat - 0x10000) / 0x400) ++
      escapeUnit (0xdc00 + (c.toNat - 0x10000) % 0x400)), rfl, fun d hd => ?_, fun rest => ?_⟩
    · rw [← List.cons_append, List.mem_append] at hd
      rcases hd with hd | hd
      · exact hexText_unit _ d hd
      · rcases List.mem_cons.mp hd with rfl | hd
        · decide
        · exact hexText_unit _ d hd
    · rw [List.cons_append, List.append_assoc]
      exact unescapeUnit_hexPair h10 rest

/-- The ways in which a character is written. -/
theorem escapeChar_cases (ascii : Bool) (c : Char) :
    (∃ d ∈ ['"', '\\', 'b', 'f', 'n', 'r', 't'], escapeChar ascii c = ['\\', d]) ∨
    (c ≠ '"' ∧ c ≠ '\\' ∧ escapeChar ascii c = [c]) ∨
    (∃ n, escapeChar ascii c = escapeUnit n) ∨
    ascii = true ∧ ∃ n m, escapeChar ascii c = escapeUnit n ++ escapeUnit m := by
  unfold escapeChar
  simp only
  by_cases hq : c = '"'
  · rw [if_pos hq]
    exact .inl ⟨_, by decide, rfl⟩
  rw [if_neg hq]
  by_cases hb : c = '\\'
  · rw [if_pos hb]
    exact .inl ⟨_, by decide, rfl⟩
  rw [if_neg hb]
  generalize c.toNat = n
  by_cases h8 : n = 8
  · rw [if_pos h8]
    exact .inl ⟨_, by decide, rfl⟩
  rw [if_neg h8]
  by_cases h12 : n = 12
  · rw [if_pos h12]
    exact .inl ⟨_, by decide, rfl⟩
  rw [if_neg h12]
  by_cases h10 : n = 10
  · rw [if_pos h10]
    exact .inl ⟨_, by decide, rfl⟩
  rw [if_neg h10]
  by_cases h13 : n = 13
  · rw [if_pos h13]
    exact .inl ⟨_, by decide, rfl⟩
  rw [if_neg h13]
  by_cases h9 : n = 9
  · rw [if_pos h9]
    exact .inl ⟨_, by decide, rfl⟩
  rw [if_neg h9]
  by_cases hlow : n < 0x20
  · rw [if_pos hlow]
    exact .inr (.inr (.inl ⟨n, rfl⟩))
  rw [if_neg hlow]
  by_cases hself : (!ascii || decide (n < 0x7f)) = true
  · rw [if_pos hself]
    exact .inr (.inl ⟨hq, hb, rfl⟩)
  rw [if_neg hself]
  by_cases hunit : n < 0x10000
  · rw [if_pos hunit]
    exact .inr (.inr (.inl ⟨n, rfl⟩))
  rw [if_neg hunit]
  refine .inr (.inr (.inr ⟨?_, _, _, rfl⟩))
  cases ascii with
  | false => exact absurd rfl hself
  | true => rfl

/-- A character is read as it was written, with or without `ensure_ascii`. -/
theorem scanChar_escapeChar (ascii : Bool) (c : Char) (rest : PyStr) :
    scanChar (escapeChar ascii c ++ rest) = some (c, rest) := by
  rcases escapeChar_spec ascii c with ⟨he, _, h2, h8, _⟩ | ⟨ds, he, _, hu⟩
  · rw [he, List.singleton_append, scanChar, if_neg h2, if_neg h8]
  · rw [he, List.cons_append, scanChar, if_pos rfl, hu]

theorem escapeChar_head (ascii : Bool) (c : Char) :
    ∃ d ds, escapeChar ascii c = d :: ds ∧ d ≠ '"' ∧ 0x20 ≤ d.toNat := by
  rcases escapeChar_spec ascii c with ⟨he, h1, _, h8, _⟩ | ⟨ds, he, _⟩
  · exact ⟨c, [], he, h1, by omega⟩
  · exact ⟨'\\', ds, he, by decide, by decide⟩

/-- A string is read as it was written. -/
theorem scanString_quote (ascii : Bool) (s : PyStr) (n : Nat) (hn : s.length < n) :
    scanString n (s.flatMap (escapeChar ascii) ++ '"' :: rest) = some (s, rest) := by
  induction s generalizing n with
  | nil =>
    obtain ⟨m, rfl⟩ : ∃ m, n = m + 1 := ⟨n - 1, by simp only [List.length_nil] at hn; omega⟩
    simp [scanString]
  | cons c s ih =>
    obtain ⟨m, rfl⟩ : ∃ m, n = m + 1 := ⟨n - 1, by omega⟩
    have hc := scanChar_escapeChar ascii c (s.flatMap (escapeChar ascii) ++ '"' :: rest)
    obtain ⟨d, ds, hd, hne, _⟩ := escapeChar_head ascii c
    rw [List.flatMap_cons, List.append_assoc]
    rw [hd] at hc ⊢
    rw [List.cons_append] at hc ⊢
    rw [scanString, if_neg hne, hc, Option.bind_some,
      ih m (by simp only [List.length_cons] at hn; omega), Option.map_some]

theorem length_le_escaped (ascii : Bool) (s : PyStr) :
    s.length ≤ (s.flatMap (escapeChar ascii)).length := by
  induction s with
  | nil => exact le_rfl
  | cons c s ih =>
    obtain ⟨d, ds, hd, _⟩ := escapeChar_head ascii c
    rw [List.flatMap_cons, List.length_append, hd, List.length_cons, List.length_cons]
    omega

end Strings

/-- The separators are a comma and a colon, with whitespace after them. -/
structure Style.Spaced (style : Style) : Prop where
  item : ∃ ws, style.itemSeparator = ',' :: ws ∧ ∀ c ∈ ws, isJsonSpace c = true
  key : ∃ ws, style.keySeparator = ':' :: ws ∧ ∀ c ∈ ws, isJsonSpace c = true

section Values
variable {style : Style} {rest : PyStr}

theorem skipSpace_append {ws : PyStr} (hw : ∀ c ∈ ws, isJsonSpace c = true) (rest : PyStr) :
    skipSpace (ws ++ rest) = skipSpace rest := by
  unfold skipSpace
  rw [List.dropWhile_append, List.dropWhile_eq_nil_iff.mpr hw]
  rfl

theorem skipSpace_cons {c : Char} (hc : isJsonSpace c = false) (cs : PyStr) :
    skipSpace (c :: cs) = c :: cs := by
  rw [skipSpace, List.dropWhile_cons_of_neg (by simp [hc])]

theorem stops_cons {c : Char} (hc : c = ',' ∨ c = ']' ∨ c = '\x7d') (cs : PyStr) : Stops (c :: cs) := by
  rintro d ⟨⟩
  rcases hc with rfl | rfl | rfl <;> decide

/-- A number that starts so is no other atom. -/
theorem scanAtom_number (h : Hooks) {c : Char} {cs : PyStr} (hc : isDigit c = true)
    (hs : rest = c :: cs ∨ rest = '-' :: c :: cs) : scanAtom h rest = scanNumber h rest := by
  have hne (d : Char) (hd : isDigit d = false) : d ≠ c := by
    rintro rfl
    rw [hc] at hd
    cases hd
  have hfirst (d : Char) (ds : PyStr) (hd : isDigit d = false) (hm : d ≠ '-') :
      ¬ d :: ds <+: rest := by
    rcases hs with rfl | rfl
    · exact fun hp => hne d hd (List.cons_prefix_cons.mp hp).1
    · exact fun hp => hm (List.cons_prefix_cons.mp hp).1
  have hminus : ¬ "-Infinity".toList <+: rest := by
    rcases hs with rfl | rfl
    · exact fun hp => hne '-' (by decide) (List.cons_prefix_cons.mp hp).1
    · intro hp
      exact hne 'I' (by decide) (List.cons_prefix_cons.mp (List.cons_prefix_cons.mp hp).2).1
  have hnull : ¬ "null".toList <+: rest := hfirst 'n' _ (by decide) (by decide)
  have htrue : ¬ "true".toList <+: rest := hfirst 't' _ (by decide) (by decide)
  have hfalse : ¬ "false".toList <+: rest := hfirst 'f' _ (by decide) (by decide)
  have hnan : ¬ "NaN".toList <+: rest := hfirst 'N' _ (by decide) (by decide)
  have hinf : ¬ "Infinity".toList <+: rest := hfirst 'I' _ (by decide) (by decide)
  rw [scanAtom, if_neg hnull, if_neg htrue, if_neg hfalse, if_neg hnan, if_neg hinf, if_neg hminus]

theorem scanInt_of_float {text : PyStr} (ht : isFloatText text = true) :
    ∃ p, scanInt text = some p := by
  cases hi : scanInt text with
  | none =>
    rw [isFloatText, hi] at ht
    cases ht
  | some p => exact ⟨p, rfl⟩

/-- A value's text starts with no whitespace and no closing bracket. -/
def Opens (c : Char) : Prop := isJsonSpace c = false ∧ c ≠ ']' ∧ c ≠ '\x7d'

theorem opens_of_digit {c : Char} (hc : isDigit c = true) : Opens c := by
  refine ⟨?_, ?_, ?_⟩
  · cases hs : isJsonSpace c with
    | false => rfl
    | true =>
      simp only [isJsonSpace, Bool.or_eq_true, beq_iff_eq] at hs
      rcases hs with ((rfl | rfl) | rfl) | rfl <;> cases hc
  · rintro rfl
    cases hc
  · rintro rfl
    cases hc

theorem opens_of_scanInt {cs : PyStr} {p : PyStr × PyStr} (hs : scanInt cs = some p) :
    ∃ c ds, cs = c :: ds ∧ Opens c := by
  obtain ⟨c, ds, hc, rfl | rfl⟩ := scanInt_head hs
  · exact ⟨c, ds, rfl, opens_of_digit hc⟩
  · exact ⟨'-', c :: ds, rfl, by decide, by decide, by decide⟩

theorem dumps_head (style : Style) (v : Json) : ∃ c cs, dumps style v = c :: cs ∧ Opens c := by
  cases v with
  | null => exact ⟨_, _, rfl, by decide, by decide, by decide⟩
  | bool b => cases b <;> exact ⟨_, _, rfl, by decide, by decide, by decide⟩
  | int i =>
    have h : scanInt (intText i ++ []) = some (intText i, []) := scanInt_intText i (by rintro c ⟨⟩)
    rw [List.append_nil] at h
    rw [dumps]
    exact opens_of_scanInt h
  | float x =>
    cases x with
    | nan => exact ⟨_, _, rfl, by decide, by decide, by decide⟩
    | infinite b => cases b <;> exact ⟨_, _, rfl, by decide, by decide, by decide⟩
    | finite text ht =>
      obtain ⟨p, hp⟩ := scanInt_of_float ht
      exact opens_of_scanInt hp
  | str s =>
    rw [dumps]
    exact ⟨'"', _, rfl, by decide, by decide, by decide⟩
  | arr items =>
    rw [dumps]
    exact ⟨'[', _, rfl, by decide, by decide, by decide⟩
  | obj items =>
    rw [dumps]
    exact ⟨'\x7b', _, rfl, by decide, by decide, by decide⟩

end Values

end Python.Json
