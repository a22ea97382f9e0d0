import Danus.Lib.Text

/-! How often a text occurs in another one, and what `str.replace` makes of it. -/
namespace Python

/-- At how many places a text that is not empty occurs. -/
def occurrences (pat : PyStr) : PyStr → Nat
  | [] => 0
  | c :: cs => (if pat <+: c :: cs then 1 else 0) + occurrences pat cs

/-- `text.replace(old, new)`, where so many characters more are passed over. -/
def replaceAll (old new : PyStr) : Nat → PyStr → PyStr
  | _, [] => []
  | k + 1, _ :: cs => replaceAll old new k cs
  | 0, c :: cs =>
    if old <+: c :: cs then new ++ replaceAll old new (old.length - 1) cs
    else c :: replaceAll old new 0 cs

section Occurrences
variable {pat a b s : PyStr} {c : Char}

/-- A character is not in a literal, by the characters that the literal stands for. -/
theorem notMem_toList {l : List Char} {text : String} (h : text = String.ofList l) (hc : c ∉ l) :
    c ∉ text.toList := by
  rw [h, String.toList_ofList]
  exact hc

theorem prefix_before (hc : c ∉ pat) : pat <+: a ++ c :: b ↔ pat <+: a := by
  constructor
  · intro h
    have hcut : ∀ l : PyStr, c ∉ l → l <+: a ++ c :: b → l <+: a := by
      intro l hl hp
      rcases List.prefix_or_prefix_of_prefix hp (List.prefix_append a (c :: b)) with h | ⟨t, rfl⟩
      · exact h
      · cases t with
        | nil => rw [List.append_nil]
        | cons e t =>
          have he := (List.prefix_append_right_inj a).mp hp
          rw [List.cons_prefix_cons] at he
          exact absurd (List.mem_append_right a (he.1 ▸ List.mem_cons_self)) hl
    exact hcut pat hc h
  · exact fun h => h.trans (List.prefix_append a _)

/-- A text does not occur across a character that it does not have. -/
theorem occurrences_separated (hp : pat ≠ []) (hc : c ∉ pat) :
    occurrences pat (a ++ c :: b) = occurrences pat a + occurrences pat b := by
  induction a with
  | nil =>
    have hno : ¬ pat <+: c :: b := by
      cases pat with
      | nil => exact absurd rfl hp
      | cons d pat =>
        rw [List.cons_prefix_cons]
        rintro ⟨rfl, -⟩
        exact hc List.mem_cons_self
    rw [List.nil_append, occurrences.eq_2, if_neg hno, occurrences]
  | cons d a ih =>
    have hhead : (pat <+: d :: (a ++ c :: b)) = (pat <+: d :: a) := by
      rw [← List.cons_append]
      exact propext (prefix_before hc)
    rw [List.cons_append, occurrences, ih, occurrences, Nat.add_assoc]
    simp only [hhead]

/-- A text does not occur where its first character does not. -/
theorem occurrences_absent (hc : c ∉ s) : occurrences (c :: pat) s = 0 := by
  induction s with
  | nil => rfl
  | cons d s ih =>
    have hno : ¬ c :: pat <+: d :: s := by
      rw [List.cons_prefix_cons]
      rintro ⟨rfl, -⟩
      exact hc List.mem_cons_self
    rw [occurrences, if_neg hno, ih fun hm => hc (List.mem_cons_of_mem d hm)]

end Occurrences

section Runs
variable {c d : Char} {k j : Nat} {s t new : PyStr}

/-- The runs of a character are shorter than three, the first one after so many of it. -/
def ShortRuns (c : Char) : Nat → PyStr → Prop
  | _, [] => True
  | k, d :: s => if d = c then k + 1 < 3 ∧ ShortRuns c (k + 1) s else ShortRuns c 0 s

theorem ShortRuns.tail (h : ShortRuns c k (d :: s)) : ∃ j, ShortRuns c j s := by
  rw [ShortRuns] at h
  split_ifs at h
  · exact ⟨k + 1, h.2⟩
  · exact ⟨0, h⟩

theorem ShortRuns.no_triple (h : ShortRuns c k (c :: c :: c :: s)) : False := by
  simp only [ShortRuns, if_true] at h
  omega

/-- Where the runs are short, nothing that begins with a longer one occurs. -/
theorem ShortRuns.occurrences {pat : PyStr} (h : ShortRuns c k s) : occurrences (c :: c :: c :: pat) s = 0 := by
  induction s generalizing k with
  | nil => rfl
  | cons d s ih =>
    have hno : ¬ c :: c :: c :: pat <+: d :: s := by
      rintro ⟨t, ht⟩
      rw [← ht] at h
      exact h.no_triple
    obtain ⟨j, hj⟩ := h.tail
    rw [Python.occurrences, if_neg hno, ih hj]

/-- A text without the character ends the run. -/
theorem ShortRuns.after (hn : new ≠ []) (hc : c ∉ new) (h : ShortRuns c 0 s) : ShortRuns c k (new ++ s) := by
  induction new generalizing k with
  | nil => exact absurd rfl hn
  | cons d new ih =>
    have hd : d ≠ c := fun he => hc (he ▸ List.mem_cons_self)
    rw [List.cons_append, ShortRuns, if_neg hd]
    cases new with
    | nil => exact h
    | cons e new => exact ih (List.cons_ne_nil e new) fun hm => hc (List.mem_cons_of_mem d hm)

/-- How many of the character a text begins with. -/
def leading (c : Char) (s : PyStr) : Nat := (s.takeWhile (· == c)).length

theorem leading_cons_self : leading c (c :: s) = leading c s + 1 := by
  rw [leading, List.takeWhile_cons_of_pos (by exact beq_self_eq_true c), List.length_cons, leading]

theorem triple_prefix : [c, c, c] <+: s ↔ 3 ≤ leading c s := by
  have hstart : ∀ n : Nat, ∀ s : PyStr, List.replicate n c <+: s ↔ n ≤ leading c s := by
    intro n
    induction n with
    | zero => exact fun s => ⟨fun _ => Nat.zero_le _, fun _ => List.nil_prefix⟩
    | succ n ih =>
      intro s
      cases s with
      | nil => simp [leading, List.replicate_succ]
      | cons d s =>
        rw [List.replicate_succ, List.cons_prefix_cons]
        by_cases hd : c = d
        · subst hd
          rw [ih, leading_cons_self, Nat.add_le_add_iff_right]
          exact and_iff_right rfl
        · have hlead : leading c (d :: s) = 0 := by
            rw [leading, List.takeWhile_cons_of_neg (by simpa using fun he => hd he.symm), List.length_nil]
          rw [hlead]
          constructor
          · exact fun h => absurd h.1 hd
          · omega
  exact hstart 3 s

/-- After all runs of three are replaced the runs are short. -/
theorem shortRuns_replaceAll (hn : new ≠ []) (hc : c ∉ new) (s : PyStr) :
    ShortRuns c 0 (replaceAll [c, c, c] new 0 s) := by
  -- what was kept so far and what comes next is no run of three
  have hkept : ∀ n : Nat, ∀ s : PyStr, s.length ≤ n → ∀ k, k = 0 ∨ k + leading c s < 3 →
      ShortRuns c k (replaceAll [c, c, c] new 0 s) := by
    intro n
    induction n with
    | zero =>
      intro s hs k _
      rw [List.length_eq_zero_iff.mp (Nat.le_zero.mp hs)]
      trivial
    | succ n ih =>
      intro s hs k hk
      cases s with
      | nil => trivial
      | cons d s =>
        rw [List.length_cons] at hs
        by_cases hstart : [c, c, c] <+: d :: s
        · obtain ⟨t, ht⟩ := id hstart
          change c :: c :: c :: t = d :: s at ht
          obtain ⟨rfl, rfl⟩ := List.cons.inj ht
          have hlen : t.length ≤ n := by
            simp only [List.length_cons] at hs
            omega
          rw [replaceAll, if_pos hstart]
          refine ShortRuns.after hn hc ?_
          exact ih t hlen 0 (.inl rfl)
        · have hlead := mt triple_prefix.mpr hstart
          rw [replaceAll, if_neg hstart, ShortRuns]
          split_ifs with hd
          · subst hd
            rw [leading_cons_self] at hk hlead
            refine ⟨by omega, ih s (by omega) (k + 1) (.inr (by omega))⟩
          · exact ih s (by omega) 0 (.inl rfl)
  exact hkept s.length s le_rfl 0 (.inl rfl)

/-- Replacing something else keeps runs short, where the new text ends them. -/
theorem ShortRuns.replaceAll (hdc : d ≠ c) (hn : new ≠ []) (hc : c ∉ new) (h : ShortRuns c k s) :
    ShortRuns c k (replaceAll [d, d, d] new 0 s) := by
  have hmore : ∀ n : Nat, ∀ s : PyStr, s.length ≤ n → ∀ k, ShortRuns c k s →
      ShortRuns c k (Python.replaceAll [d, d, d] new 0 s) := by
    intro n
    induction n with
    | zero =>
      intro s hs k _
      rw [List.length_eq_zero_iff.mp (Nat.le_zero.mp hs)]
      trivial
    | succ n ih =>
      intro s hs k hk
      cases s with
      | nil => trivial
      | cons e s =>
        rw [List.length_cons] at hs
        by_cases hstart : [d, d, d] <+: e :: s
        · obtain ⟨t, ht⟩ := id hstart
          change d :: d :: d :: t = e :: s at ht
          obtain ⟨rfl, rfl⟩ := List.cons.inj ht
          have hlen : t.length ≤ n := by
            simp only [List.length_cons] at hs
            omega
          have hrest : ShortRuns c 0 t := by
            simp only [ShortRuns, if_neg hdc] at hk
            exact hk
          rw [Python.replaceAll, if_pos hstart]
          exact ShortRuns.after hn hc (ih t hlen 0 hrest)
        · rw [Python.replaceAll, if_neg hstart]
          rw [ShortRuns] at hk ⊢
          split_ifs at hk ⊢
          · exact ⟨hk.1, ih s (by omega) _ hk.2⟩
          · exact ih s (by omega) _ hk
  exact hmore s.length s le_rfl k h

end Runs
end Python
