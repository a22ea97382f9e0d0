import Danus.Lib.Text

/-! Reading UTF-8 back. -/
namespace Python

/-- How many bytes the first one announces. -/
def utf8Width (a : Nat) : Nat := if a < 0x80 then 1 else if a < 0xe0 then 2 else if a < 0xf0 then 3 else 4

/-- The code point these bytes spell. -/
def utf8Value : List Nat → Nat
  | [a] => a
  | [a, b] => (a - 0xc0) * 0x40 + (b - 0x80)
  | [a, b, c] => (a - 0xe0) * 0x1000 + (b - 0x80) * 0x40 + (c - 0x80)
  | [a, b, c, d] => (a - 0xf0) * 0x40000 + (b - 0x80) * 0x1000 + (c - 0x80) * 0x40 + (d - 0x80)
  | _ => 0

/-- The first character, with the bytes after it; an overlong form or a surrogate is no character's
encoding. -/
def decodeChar (bytes : List Nat) : Option (Char × List Nat) :=
  let k := utf8Width (bytes.headD 0)
  let c := Char.ofNat (utf8Value (bytes.take k))
  if utf8Char c = bytes.take k then some (c, bytes.drop k) else none

/-- `bytes.decode("utf-8")`, for at most so many characters. -/
def decodeUtf8From : Nat → List Nat → Option PyStr
  | _, [] => some []
  | 0, _ :: _ => none
  | n + 1, a :: bytes => (decodeChar (a :: bytes)).bind fun p =>
    (decodeUtf8From n p.2).map (p.1 :: ·)

/-- `bytes.decode("utf-8")` -/
def decodeUtf8 (bytes : List Nat) : Option PyStr := decodeUtf8From bytes.length bytes

theorem toNat_lt (c : Char) : c.toNat < 0x110000 := by
  have h : Nat.isValidChar c.toNat := c.valid
  unfold Nat.isValidChar at h
  omega

theorem utf8Width_two {a : Nat} (h : ¬ a < 0x80) (h2 : a < 0xe0) : utf8Width a = 2 := by
  rw [utf8Width, if_neg h, if_pos h2]

theorem utf8Width_three {a : Nat} (h : ¬ a < 0xe0) (h3 : a < 0xf0) : utf8Width a = 3 := by
  rw [utf8Width, if_neg (by omega), if_neg h, if_pos h3]

theorem utf8Width_four {a : Nat} (h : ¬ a < 0xf0) : utf8Width a = 4 := by
  rw [utf8Width, if_neg (by omega), if_neg (by omega), if_neg h]

/-- The first byte of a character's encoding announces its length, and the bytes spell it. -/
theorem utf8Char_spec (c : Char) : utf8Width ((utf8Char c).headD 0) = (utf8Char c).length ∧
    utf8Value (utf8Char c) = c.toNat ∧ utf8Char c ≠ [] := by
  have hlt := toNat_lt c
  unfold utf8Char
  simp only
  split_ifs with h1 h2 h3
  · refine ⟨?_, rfl, by simp⟩
    exact if_pos h1
  · have hv : (0xc0 + c.toNat / 0x40 - 0xc0) * 0x40 + (0x80 + c.toNat % 0x40 - 0x80) = c.toNat := by
      omega
    have hw : utf8Width (0xc0 + c.toNat / 0x40) = 2 := utf8Width_two (by omega) (by omega)
    exact ⟨hw, hv, by simp⟩
  · have hv : (0xe0 + c.toNat / 0x1000 - 0xe0) * 0x1000 +
        (0x80 + c.toNat / 0x40 % 0x40 - 0x80) * 0x40 + (0x80 + c.toNat % 0x40 - 0x80) =
        c.toNat := by
      omega
    have hw : utf8Width (0xe0 + c.toNat / 0x1000) = 3 := utf8Width_three (by omega) (by omega)
    exact ⟨hw, hv, by simp⟩
  · have hv : (0xf0 + c.toNat / 0x40000 - 0xf0) * 0x40000 +
        (0x80 + c.toNat / 0x1000 % 0x40 - 0x80) * 0x1000 +
        (0x80 + c.toNat / 0x40 % 0x40 - 0x80) * 0x40 + (0x80 + c.toNat % 0x40 - 0x80) =
        c.toNat := by
      omega
    have hw : utf8Width (0xf0 + c.toNat / 0x40000) = 4 := utf8Width_four (by omega)
    exact ⟨hw, hv, by simp⟩

theorem decodeChar_utf8Char (c : Char) (bytes : List Nat) :
    decodeChar (utf8Char c ++ bytes) = some (c, bytes) := by
  obtain ⟨hw, hv, hne⟩ := utf8Char_spec c
  have hh : (utf8Char c ++ bytes).headD 0 = (utf8Char c).headD 0 := by
    cases he : utf8Char c with
    | nil => exact (hne he).elim
    | cons a as => rfl
  unfold decodeChar
  simp only [hh, hw, List.take_left, List.drop_left, hv, Char.ofNat_toNat, if_true]

theorem decodeUtf8From_encodeUtf8 (s : PyStr) (n : Nat) (hn : s.length ≤ n) :
    decodeUtf8From n (encodeUtf8 s) = some s := by
  induction s generalizing n with
  | nil => cases n <;> rfl
  | cons c s ih =>
    obtain ⟨_, _, hne⟩ := utf8Char_spec c
    have he : encodeUtf8 (c :: s) = utf8Char c ++ encodeUtf8 s := rfl
    have hd := decodeChar_utf8Char c (encodeUtf8 s)
    obtain ⟨m, rfl⟩ : ∃ m, n = m + 1 := ⟨n - 1, by simp only [List.length_cons] at hn; omega⟩
    cases hb : utf8Char c with
    | nil => exact (hne hb).elim
    | cons a as =>
      rw [hb, List.cons_append] at hd
      rw [he, hb, List.cons_append, decodeUtf8From, hd, Option.bind_some,
        ih m (by simp only [List.length_cons] at hn; omega), Option.map_some]

theorem encodeUtf8_append (s t : PyStr) : encodeUtf8 (s ++ t) = encodeUtf8 s ++ encodeUtf8 t :=
  List.flatMap_append

theorem length_le_encodeUtf8 (s : PyStr) : s.length ≤ (encodeUtf8 s).length := by
  induction s with
  | nil => exact le_rfl
  | cons c s ih =>
    have he : encodeUtf8 (c :: s) = utf8Char c ++ encodeUtf8 s := rfl
    have hpos : 0 < (utf8Char c).length := List.length_pos_of_ne_nil (utf8Char_spec c).2.2
    rw [he, List.length_append, List.length_cons]
    omega

/-- What was encoded is read back. -/
theorem decodeUtf8_encodeUtf8 (s : PyStr) : decodeUtf8 (encodeUtf8 s) = some s :=
  decodeUtf8From_encodeUtf8 s _ (length_le_encodeUtf8 s)

/-- An ASCII byte of the encoding is an ASCII character of the text. -/
theorem mem_encodeUtf8 {s : PyStr} {n : Nat} (hn : n < 0x80) (h : n ∈ encodeUtf8 s) :
    Char.ofNat n ∈ s := by
  obtain ⟨c, hc, hm⟩ := List.mem_flatMap.mp h
  have he : n = c.toNat := by
    unfold utf8Char at hm
    simp only at hm
    split_ifs at hm <;> simp only [List.mem_cons, List.not_mem_nil, or_false] at hm <;> omega
  rw [he, Char.ofNat_toNat]
  exact hc

theorem mem_utf8Char {c : Char} {u : Nat} (h : u ∈ utf8Char c) : u = c.toNat ∨ 0x80 ≤ u := by
  unfold utf8Char at h
  simp only at h
  split_ifs at h <;> simp only [List.mem_cons, List.not_mem_nil, or_false] at h <;> omega

theorem decodeUtf8From_ok {n : Nat} {bytes : List Nat} {s : PyStr}
    (h : decodeUtf8From n bytes = some s) : encodeUtf8 s = bytes := by
  induction n generalizing bytes s with
  | zero =>
    cases bytes with
    | nil =>
      cases h
      rfl
    | cons a bytes => cases h
  | succ n ih =>
    cases bytes with
    | nil =>
      cases h
      rfl
    | cons a bytes =>
      rw [decodeUtf8From] at h
      obtain ⟨p, hp, h⟩ := Option.bind_eq_some_iff.mp h
      obtain ⟨t, ht, rfl⟩ := Option.map_eq_some_iff.mp h
      rw [decodeChar] at hp
      split_ifs at hp with hc
      cases hp
      have he := ih ht
      rw [encodeUtf8] at he ⊢
      rw [List.flatMap_cons, hc, he, List.take_append_drop]

/-- What is read encodes to what was read. -/
theorem decodeUtf8_ok {bytes : List Nat} {s : PyStr} (h : decodeUtf8 bytes = some s) :
    encodeUtf8 s = bytes := decodeUtf8From_ok h

theorem encodeUtf8_inj {s t : PyStr} (h : encodeUtf8 s = encodeUtf8 t) : s = t := by
  have hd := congrArg decodeUtf8 h
  rw [decodeUtf8_encodeUtf8, decodeUtf8_encodeUtf8] at hd
  exact Option.some.inj hd

end Python
