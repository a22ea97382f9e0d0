import Mathlib.Data.List.Basic
import Mathlib.Data.List.Infix
import Mathlib.Data.List.Range

/-! Text matched from its start: literals, shortest groups, and all the matches that do not overlap. -/
namespace Matching
variable {α β : Type} {cont : List α → Option β} {match? : List α → Option (β × List α)}
  {s t x y : List α} {b : β}

/-- The shortest text before something that matches, as `(.*?)` in front of it. -/
def lazily (cont : List α → Option β) : List α → Option (List α × β)
  | [] => (cont []).map fun b => ([], b)
  | c :: s =>
    match cont (c :: s) with
    | some b => some ([], b)
    | none => (lazily cont s).map fun r => (c :: r.1, r.2)

theorem lazily_of_some (h : cont s = some b) : lazily cont s = some ([], b) := by
  cases s with
  | nil => rw [lazily, h, Option.map_some]
  | cons c s => rw [lazily, h]

theorem lazily_cons_of_none {c : α} (h : cont (c :: s) = none) :
    lazily cont (c :: s) = (lazily cont s).map fun r => (c :: r.1, r.2) := by rw [lazily, h]

/-- Text that nothing matches at is put in front. -/
theorem lazily_append_eq (h : ∀ y, y ≠ [] → y <:+ x → cont (y ++ s) = none) :
    lazily cont (x ++ s) = (lazily cont s).map fun r => (x ++ r.1, r.2) := by
  induction x with
  | nil => simp
  | cons c x ih =>
    have hc : cont (c :: (x ++ s)) = none := h (c :: x) (List.cons_ne_nil _ _) (List.suffix_refl _)
    rw [List.cons_append, lazily_cons_of_none hc,
      ih fun y hy hs => h y hy (hs.trans (List.suffix_cons c x)), Option.map_map]
    rfl

/-- The group before the first match. -/
theorem lazily_append (h : ∀ y, y ≠ [] → y <:+ x → cont (y ++ s) = none) (hs : cont s = some b) :
    lazily cont (x ++ s) = some (x, b) := by
  rw [lazily_append_eq h, lazily_of_some hs, Option.map_some, List.append_nil]

/-- What is matched follows the group. -/
theorem lazily_some (h : lazily cont s = some (x, b)) : ∃ t, s = x ++ t ∧ cont t = some b := by
  induction s generalizing x with
  | nil =>
    rw [lazily, Option.map_eq_some_iff] at h
    obtain ⟨b', hb, he⟩ := h
    cases he
    exact ⟨[], rfl, hb⟩
  | cons c s ih =>
    cases hc : cont (c :: s) with
    | some b' =>
      rw [lazily_of_some hc] at h
      cases h
      exact ⟨c :: s, rfl, hc⟩
    | none =>
      rw [lazily_cons_of_none hc, Option.map_eq_some_iff] at h
      obtain ⟨⟨x', b'⟩, hr, he⟩ := h
      cases he
      obtain ⟨t, rfl, ht⟩ := ih hr
      exact ⟨t, rfl, ht⟩

/-- No match lets the group be longer than what stands before it. -/
theorem lazily_le (ht : cont t = some b) : ∃ y b', lazily cont (x ++ t) = some (y, b') ∧
    y.length ≤ x.length := by
  induction x with
  | nil => exact ⟨[], b, lazily_of_some ht, Nat.le_refl _⟩
  | cons c x ih =>
    cases hc : cont (c :: (x ++ t)) with
    | some b' => exact ⟨[], b', lazily_of_some hc, Nat.zero_le _⟩
    | none =>
      obtain ⟨y, b', hy, hle⟩ := ih
      refine ⟨c :: y, b', ?_, Nat.succ_le_succ hle⟩
      rw [List.cons_append, lazily_cons_of_none hc, hy, Option.map_some]

theorem lazily_eq_none (h : ∀ t, t <:+ s → cont t = none) : lazily cont s = none := by
  cases hl : lazily cont s with
  | none => rfl
  | some r =>
    obtain ⟨t, rfl, ht⟩ := lazily_some (x := r.1) (b := r.2) hl
    rw [h t (List.suffix_append _ _)] at ht
    cases ht

theorem cont_eq_none (h : lazily cont s = none) (ht : t <:+ s) : cont t = none := by
  obtain ⟨x, rfl⟩ := ht
  cases hc : cont t with
  | none => rfl
  | some b =>
    obtain ⟨y, b', hy, -⟩ := lazily_le (x := x) hc
    rw [h] at hy
    cases hy

/-- The matches from the left, each after the one before; so many characters are still to be skipped. -/
def findallFrom (match? : List α → Option (β × List α)) : Nat → List α → List β
  | _, [] => []
  | skip + 1, _ :: s => findallFrom match? skip s
  | 0, c :: s =>
    match match? (c :: s) with
    | some (b, rest) => b :: findallFrom match? (s.length - rest.length) s
    | none => findallFrom match? 0 s

/-- `re.findall`, for an expression that matches no empty text -/
def findall (match? : List α → Option (β × List α)) (s : List α) : List β := findallFrom match? 0 s

theorem findallFrom_append : findallFrom match? x.length (x ++ s) = findall match? s := by
  induction x with
  | nil => rfl
  | cons c x ih => exact ih

theorem findall_of_some {c : α} {rest : List α} (h : match? (c :: (x ++ rest)) = some (b, rest)) :
    findall match? (c :: (x ++ rest)) = b :: findall match? rest := by
  have hskip : (x ++ rest).length - rest.length = x.length := by
    rw [List.length_append, Nat.add_sub_cancel]
  rw [findall, findallFrom, h]
  simp only [hskip, findallFrom_append]

/-- A match at the start is the first found. -/
theorem findall_head {c : α} {rest : List α} (h : match? (c :: s) = some (b, rest)) :
    ∃ l, findall match? (c :: s) = b :: l := by
  rw [findall, findallFrom, h]
  exact ⟨_, rfl⟩

theorem findall_of_none {c : α} (h : match? (c :: s) = none) :
    findall match? (c :: s) = findall match? s := by
  rw [findall, findallFrom, h]
  rfl

theorem findall_eq_nil (h : ∀ t, t <:+ s → match? t = none) : findall match? s = [] := by
  induction s with
  | nil => rfl
  | cons c s ih =>
    rw [findall_of_none (h _ (List.suffix_refl _))]
    exact ih fun t ht => h t (ht.trans (List.suffix_cons c s))

/-- Each match found is one at some place of the text. -/
theorem mem_findallFrom {skip : Nat} (h : b ∈ findallFrom match? skip s) :
    ∃ t rest, t <:+ s ∧ match? t = some (b, rest) := by
  fun_induction findallFrom match? skip s with
  | case1 => cases h
  | case2 skip c s ih =>
    obtain ⟨t, rest, ht, hm⟩ := ih h
    exact ⟨t, rest, ht.trans (List.suffix_cons c s), hm⟩
  | case3 c s b' rest hm ih =>
    rcases List.mem_cons.mp h with rfl | h
    · exact ⟨c :: s, rest, List.suffix_refl _, hm⟩
    · obtain ⟨t, rest', ht, hm'⟩ := ih h
      exact ⟨t, rest', ht.trans (List.suffix_cons c s), hm'⟩
  | case4 c s hm ih =>
    obtain ⟨t, rest, ht, hm'⟩ := ih h
    exact ⟨t, rest, ht.trans (List.suffix_cons c s), hm'⟩

/-- A literal without a mark does not reach over the mark. -/
theorem prefix_of_prefix_append_cons {sub : List α} {m : α} (hm : m ∉ sub) (h : sub <+: y ++ m :: s) : sub <+: y := by
  rcases List.prefix_or_prefix_of_prefix h (List.prefix_append y (m :: s)) with hp | ⟨z, rfl⟩
  · exact hp
  · obtain ⟨u, hu⟩ := h
    rw [List.append_assoc] at hu
    have hz := List.append_cancel_left hu
    cases z with
    | nil => rw [List.append_nil]
    | cons a z =>
      cases hz
      exact absurd (List.mem_append_right _ List.mem_cons_self) hm

section Literals
variable [DecidableEq α] {sub : List α} {i j : Nat}

/-- What follows a literal. -/
def literal (sub s : List α) : Option (List α) := if sub <+: s then some (s.drop sub.length) else none

@[simp] theorem literal_append (sub s : List α) : literal sub (sub ++ s) = some s := by
  rw [literal, if_pos (List.prefix_append sub s), List.drop_left]

theorem literal_some (h : literal sub s = some t) : s = sub ++ t := by
  rw [literal] at h
  split_ifs at h with hp
  obtain ⟨u, rfl⟩ := hp
  rw [List.drop_left] at h
  cases h
  rfl

theorem literal_eq_none (h : ¬ sub <+: s) : literal sub s = none := if_neg h

/-- The text before the first occurrence and the text after it, as `s.split(sub, 1)`. -/
def cutFirst (sub s : List α) : Option (List α × List α) := lazily (literal sub) s

/-- Where a text occurs. -/
def positions (sub s : List α) : List Nat := (List.range (s.length + 1)).filter fun i => sub <+: s.drop i

theorem mem_positions : i ∈ positions sub s ↔ i ≤ s.length ∧ sub <+: s.drop i := by
  rw [positions, List.mem_filter, List.mem_range, Nat.lt_succ_iff, decide_eq_true_eq]

theorem mem_positions_append : x.length ∈ positions sub (x ++ sub ++ t) := by
  rw [mem_positions, List.append_assoc, List.drop_left]
  refine ⟨?_, List.prefix_append _ _⟩
  rw [List.length_append]
  exact Nat.le_add_right _ _

/-- The cut is at an occurrence, and no other is before it. -/
theorem cutFirst_some (h : cutFirst sub s = some (x, t)) :
    s = x ++ sub ++ t ∧ ∀ i ∈ positions sub s, x.length ≤ i := by
  obtain ⟨u, rfl, hu⟩ := lazily_some h
  cases literal_some hu
  refine ⟨(List.append_assoc _ _ _).symm, fun i hi => ?_⟩
  obtain ⟨hle, v, hv⟩ := mem_positions.mp hi
  have hcont : literal sub ((x ++ (sub ++ t)).drop i) = some v := by rw [← hv, literal_append]
  obtain ⟨y, b', hy, hyle⟩ := lazily_le (x := (x ++ (sub ++ t)).take i) hcont
  rw [List.take_append_drop] at hy
  rw [cutFirst, hy] at h
  cases h
  rw [List.length_take] at hyle
  exact Nat.le_trans hyle (Nat.min_le_left _ _)

theorem cutFirst_none (h : cutFirst sub s = none) : positions sub s = [] := by
  refine List.eq_nil_iff_forall_not_mem.mpr fun i hi => ?_
  obtain ⟨-, v, hv⟩ := mem_positions.mp hi
  have hnone := cont_eq_none h (List.drop_suffix i s)
  rw [← hv, literal_append] at hnone
  cases hnone

/-- What is cut off does not have the text in it. -/
theorem not_infix_of_cutFirst (hne : sub ≠ []) (h : cutFirst sub s = some (x, t)) : ¬ sub <:+: x := by
  rintro ⟨u, v, rfl⟩
  obtain ⟨hs, hfirst⟩ := cutFirst_some h
  have hu : u.length ∈ positions sub s := by
    rw [hs, List.append_assoc (u ++ sub), List.append_assoc (u ++ sub)]
    exact mem_positions_append
  have hle := hfirst _ hu
  have hpos : 0 < sub.length := List.length_pos_of_ne_nil hne
  simp only [List.length_append] at hle
  omega

/-- The cut passes over a line that does not have the text in it. -/
theorem cutFirst_line {m : α} (hm : m ∉ sub) (hx : ¬ sub <:+: x) :
    cutFirst sub (x ++ m :: s) = (cutFirst sub s).map fun r => (x ++ m :: r.1, r.2) := by
  have hshift : lazily (literal sub) ((x ++ [m]) ++ s) =
      (lazily (literal sub) s).map fun r => (x ++ [m] ++ r.1, r.2) := by
    refine lazily_append_eq fun y hy hs => literal_eq_none fun hp => hx ?_
    rcases List.eq_nil_or_concat' y with rfl | ⟨z, c, rfl⟩
    · exact absurd rfl hy
    · obtain ⟨w, hw⟩ := hs
      rw [← List.append_assoc] at hw
      obtain ⟨hwz, hc⟩ := List.append_inj' hw rfl
      cases hc
      rw [List.append_assoc] at hp
      have hz : sub <+: z := prefix_of_prefix_append_cons hm hp
      exact hz.isInfix.trans (List.IsSuffix.isInfix ⟨w, hwz⟩)
  rw [cutFirst, cutFirst, List.append_cons, hshift]
  simp only [List.append_assoc, List.singleton_append]

/-- `s.count(sub)` of a text that is not empty -/
def count (sub s : List α) : Nat := (findall (fun t => (literal sub t).map fun rest => ((), rest)) s).length

theorem count_of_cutFirst (hne : sub ≠ []) (h : cutFirst sub s = some (x, t)) :
    count sub s = count sub t + 1 := by
  induction s generalizing x with
  | nil =>
    obtain ⟨hs, -⟩ := cutFirst_some h
    simp [hne] at hs
  | cons c s ih =>
    cases hc : literal sub (c :: s) with
    | some rest =>
      rw [cutFirst, lazily_of_some hc] at h
      cases h
      have hs := literal_some hc
      cases sub with
      | nil => exact absurd rfl hne
      | cons d sub =>
        rw [hs] at hc ⊢
        rw [List.cons_append] at hc ⊢
        rw [count, findall_of_some (b := ()) (by rw [hc, Option.map_some])]
        rfl
    | none =>
      rw [cutFirst, lazily_cons_of_none hc, Option.map_eq_some_iff] at h
      obtain ⟨⟨x', t'⟩, hr, he⟩ := h
      cases he
      rw [count, findall_of_none (by rw [hc, Option.map_none])]
      exact ih hr

theorem count_of_none (h : cutFirst sub s = none) : count sub s = 0 := by
  rw [count, findall_eq_nil fun t ht => by rw [cont_eq_none h ht, Option.map_none]]
  rfl

theorem count_eq_zero (hne : sub ≠ []) : count sub s = 0 ↔ positions sub s = [] := by
  cases h : cutFirst sub s with
  | none => simp [count_of_none h, cutFirst_none h]
  | some r =>
    obtain ⟨x, t⟩ := r
    have hx : x.length ∈ positions sub s := by
      rw [(cutFirst_some h).1]
      exact mem_positions_append
    simp [count_of_cutFirst hne h, List.ne_nil_of_mem hx]

/-- Counted are at least two where two of the places do not overlap. -/
theorem two_le_count (hne : sub ≠ []) :
    2 ≤ count sub s ↔ ∃ i ∈ positions sub s, ∃ j ∈ positions sub s, i + sub.length ≤ j := by
  cases h : cutFirst sub s with
  | none => simp [count_of_none h, cutFirst_none h]
  | some r =>
    obtain ⟨x, t⟩ := r
    obtain ⟨rfl, hfirst⟩ := cutFirst_some h
    have hcount : 2 ≤ count sub (x ++ sub ++ t) ↔ positions sub t ≠ [] := by
      rw [count_of_cutFirst hne h, ne_eq, ← count_eq_zero hne]
      omega
    rw [hcount]
    constructor
    · intro ht
      obtain ⟨j, hj⟩ := List.exists_mem_of_ne_nil _ ht
      obtain ⟨hle, hp⟩ := mem_positions.mp hj
      refine ⟨x.length, mem_positions_append, (x ++ sub).length + j, mem_positions.mpr ⟨?_, ?_⟩, ?_⟩
      · rw [@List.length_append _ (x ++ sub) t]
        omega
      · rwa [List.drop_length_add_append]
      · rw [List.length_append]
        omega
    · rintro ⟨i, hi, j, hj, hle⟩ ht
      have hxi := hfirst i hi
      obtain ⟨hjlen, hp⟩ := mem_positions.mp hj
      have hxj : (x ++ sub).length ≤ j := by
        rw [List.length_append]
        omega
      obtain ⟨k, rfl⟩ := Nat.exists_eq_add_of_le hxj
      rw [List.drop_length_add_append] at hp
      rw [@List.length_append _ (x ++ sub) t] at hjlen
      have hk : k ∈ positions sub t := mem_positions.mpr ⟨by omega, hp⟩
      rw [ht] at hk
      cases hk

end Literals
end Matching
