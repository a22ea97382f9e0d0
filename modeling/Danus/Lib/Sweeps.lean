import Mathlib.Logic.Relation
import Mathlib.Order.WellFoundedSet

/-! Orders along lists of predecessors: a worklist that closes a set, and the sweeps that sort one. -/
namespace Sweeps
variable {α : Type} {preds preds' : α → List α} {seeds seeds' : List α} {a p : α}

/-- A seed, or a predecessor of a predecessor of one. -/
inductive Reached (preds : α → List α) (seeds : List α) : α → Prop
  | seed {a : α} (h : a ∈ seeds) : Reached preds seeds a
  | step {a p : α} (h : Reached preds seeds a) (hp : p ∈ preds a) : Reached preds seeds p

theorem Reached.trans (h : Reached preds seeds a) (hall : ∀ s ∈ seeds, Reached preds seeds' s) :
    Reached preds seeds' a := by
  induction h with
  | seed hs => exact hall _ hs
  | step _ hp ih => exact ih.step hp

theorem Reached.mono (h : Reached preds seeds a) (hsub : ∀ s ∈ seeds, s ∈ seeds') :
    Reached preds seeds' a := h.trans fun s hs => .seed (hsub s hs)

/-- Whatever holds of the seeds and of the predecessors of what it holds of. -/
theorem Reached.closed {P : α → Prop} (h : Reached preds seeds a) (hs : ∀ s ∈ seeds, P s)
    (hstep : ∀ a, P a → ∀ p ∈ preds a, P p) : P a := by
  induction h with
  | seed h => exact hs _ h
  | step _ hp ih => exact hstep _ ih _ hp

/-- Nothing precedes itself. -/
def Acyclic (preds : α → List α) : Prop := ∀ a, ¬ Relation.TransGen (fun p a => p ∈ preds a) a a

theorem Acyclic.mono (h : Acyclic preds) (hsub : ∀ a, ∀ p ∈ preds' a, p ∈ preds a) : Acyclic preds' :=
  fun a hc => h a (Relation.TransGen.mono (fun _ a hp => hsub a _ hp) _ _ hc)

/-- Nothing precedes itself where every predecessor ranks lower. -/
theorem acyclic_of_rank (rank : α → Nat) (h : ∀ a, ∀ p ∈ preds a, rank p < rank a) : Acyclic preds := by
  have hlt : ∀ {p a}, Relation.TransGen (fun p a => p ∈ preds a) p a → rank p < rank a := by
    intro p a hc
    induction hc with
    | single hp => exact h _ _ hp
    | tail _ hp ih => exact Nat.lt_trans ih (h _ _ hp)
  exact fun a hc => Nat.lt_irrefl _ (hlt hc)

/-- Among finitely many there is one that follows none of the others. -/
theorem Acyclic.exists_first (h : Acyclic preds) {l : List α} (hl : l ≠ []) :
    ∃ a ∈ l, ∀ p ∈ preds a, p ∉ l := by
  let before : α → α → Prop := Relation.TransGen fun p a => p ∈ preds a
  have hord : IsStrictOrder α before := { irrefl := h, trans := fun _ _ _ => Relation.TransGen.trans }
  have hwf : Set.WellFoundedOn {a | a ∈ l} before := Set.Finite.wellFoundedOn (List.finite_toSet l)
  obtain ⟨s, hs⟩ := List.exists_mem_of_ne_nil l hl
  obtain ⟨⟨a, ha⟩, -, hmin⟩ := WellFounded.has_min hwf Set.univ ⟨⟨s, hs⟩, trivial⟩
  exact ⟨a, ha, fun p hp hm => hmin ⟨p, hm⟩ trivial (.single hp)⟩

/-- Each follows all its predecessors. -/
def Placed (preds : α → List α) (order : List α) : Prop :=
  ∀ before a after, order = before ++ a :: after → ∀ p ∈ preds a, p ∈ before

theorem placed_nil : Placed preds [] := by
  intro before a after h
  simp at h

theorem Placed.snoc {order : List α} (h : Placed preds order) (ha : ∀ p ∈ preds a, p ∈ order) :
    Placed preds (order ++ [a]) := by
  intro before b after he p hp
  rcases List.eq_nil_or_concat' after with rfl | ⟨after, c, rfl⟩
  · obtain ⟨rfl, hb⟩ := List.append_inj' he rfl
    cases hb
    exact ha p hp
  · rw [← List.cons_append, ← List.append_assoc] at he
    exact h before b after (List.append_inj' he rfl).1 p hp

variable [DecidableEq α]

theorem unmet_lt {known wanted : List α} (hw : a ∉ wanted) (hk : a ∈ known) :
    (known.filter (· ∉ a :: wanted)).length < (known.filter (· ∉ wanted)).length := by
  have hsub : known.filter (· ∉ a :: wanted) = (known.filter (· ∉ wanted)).filter (· ≠ a) := by
    rw [List.filter_filter]
    refine List.filter_congr fun b _ => ?_
    simp [List.mem_cons, not_or]
  rw [hsub, List.length_filter_lt_length_iff_exists]
  exact ⟨a, List.mem_filter.mpr ⟨hk, by simpa using hw⟩, by simp⟩

/-- Pops the last of a stack, given here as its head, until it is empty: what was not met before is met,
and its predecessors are pushed. One that is not known stops it. -/
def closeOver (known : List α) (preds : α → List α) : List α → List α → Except α (List α)
  | [], wanted => .ok wanted
  | a :: rest, wanted =>
    if a ∈ wanted then closeOver known preds rest wanted
    else if a ∈ known then closeOver known preds ((preds a).reverse ++ rest) (a :: wanted)
    else .error a
termination_by frontier wanted => ((known.filter (· ∉ wanted)).length, frontier.length)
decreasing_by
  · exact Prod.Lex.right _ (Nat.lt_succ_self _)
  · rename_i hw hk
    exact Prod.Lex.left _ _ (unmet_lt hw hk)

section Worklist
variable {known frontier wanted result : List α}

/-- What is met stays met, whatever is on the stack is met, and so are the predecessors of whatever is. -/
theorem closeOver_closed (h : closeOver known preds frontier wanted = .ok result)
    (hw : ∀ a ∈ wanted, ∀ p ∈ preds a, p ∈ wanted ∨ p ∈ frontier) :
    (∀ a ∈ wanted, a ∈ result) ∧ (∀ a ∈ frontier, a ∈ result) ∧ ∀ a ∈ result, ∀ p ∈ preds a, p ∈ result := by
  fun_induction closeOver known preds frontier wanted with
  | case1 wanted =>
    cases h
    refine ⟨fun a ha => ha, by simp, fun a ha p hp => ?_⟩
    rcases hw a ha p hp with hp | hp
    · exact hp
    · cases hp
  | case2 a rest wanted ha ih =>
    obtain ⟨hkeep, hrest, hclosed⟩ := ih h fun b hb p hp => by
      rcases hw b hb p hp with hp | hp
      · exact .inl hp
      · rcases List.mem_cons.mp hp with rfl | hp
        · exact .inl ha
        · exact .inr hp
    refine ⟨hkeep, fun b hb => ?_, hclosed⟩
    rcases List.mem_cons.mp hb with rfl | hb
    · exact hkeep _ ha
    · exact hrest b hb
  | case3 a rest wanted ha hk ih =>
    obtain ⟨hkeep, hrest, hclosed⟩ := ih h fun b hb p hp => by
      rcases List.mem_cons.mp hb with rfl | hb
      · exact .inr (List.mem_append_left _ (List.mem_reverse.mpr hp))
      · rcases hw b hb p hp with hp | hp
        · exact .inl (List.mem_cons_of_mem _ hp)
        · rcases List.mem_cons.mp hp with rfl | hp
          · exact .inl List.mem_cons_self
          · exact .inr (List.mem_append_right _ hp)
    refine ⟨fun b hb => hkeep b (List.mem_cons_of_mem _ hb), fun b hb => ?_, hclosed⟩
    rcases List.mem_cons.mp hb with rfl | hb
    · exact hkeep _ List.mem_cons_self
    · exact hrest b (List.mem_append_right _ hb)
  | case4 => cases h

/-- Nothing is met but what is reached. -/
theorem closeOver_sound (h : closeOver known preds frontier wanted = .ok result)
    (hw : ∀ a ∈ wanted, Reached preds seeds a) (hf : ∀ a ∈ frontier, Reached preds seeds a) :
    ∀ a ∈ result, Reached preds seeds a := by
  fun_induction closeOver known preds frontier wanted with
  | case1 wanted =>
    cases h
    exact hw
  | case2 a rest wanted ha ih => exact ih h hw fun b hb => hf b (List.mem_cons_of_mem _ hb)
  | case3 b rest wanted ha hk ih =>
    have hreach : Reached preds seeds b := hf b List.mem_cons_self
    refine ih h (fun c hc => ?_) fun c hc => ?_
    · rcases List.mem_cons.mp hc with rfl | hc
      · exact hreach
      · exact hw c hc
    · rcases List.mem_append.mp hc with hc | hc
      · exact hreach.step (List.mem_reverse.mp hc)
      · exact hf c (List.mem_cons_of_mem _ hc)
  | case4 => cases h

/-- What stops it is reached, and not known. -/
theorem closeOver_error (h : closeOver known preds frontier wanted = .error a)
    (hf : ∀ a ∈ frontier, Reached preds seeds a) : Reached preds seeds a ∧ a ∉ known := by
  fun_induction closeOver known preds frontier wanted with
  | case1 => cases h
  | case2 b rest wanted hb ih => exact ih h fun c hc => hf c (List.mem_cons_of_mem _ hc)
  | case3 b rest wanted hnew hk ih =>
    refine ih h fun c hc => ?_
    rcases List.mem_append.mp hc with hc | hc
    · exact (hf b List.mem_cons_self).step (List.mem_reverse.mp hc)
    · exact hf c (List.mem_cons_of_mem _ hc)
  | case4 b rest wanted hb hk =>
    cases h
    exact ⟨hf _ List.mem_cons_self, hk⟩

/-- The worklist meets exactly what the seeds reach. -/
theorem mem_closeOver (h : closeOver known preds seeds.reverse [] = .ok result) :
    a ∈ result ↔ Reached preds seeds a := by
  constructor
  · exact closeOver_sound h (by simp) (fun b hb => .seed (List.mem_reverse.mp hb)) a
  · intro ha
    obtain ⟨-, hseeds, hclosed⟩ := closeOver_closed h (by simp)
    exact ha.closed (fun s hs => hseeds s (List.mem_reverse.mpr hs)) hclosed

/-- It runs to its end where everything reached is known. -/
theorem closeOver_ok (h : ∀ a, Reached preds seeds a → a ∈ known) :
    ∃ result, closeOver known preds seeds.reverse [] = .ok result := by
  cases hc : closeOver known preds seeds.reverse [] with
  | ok result => exact ⟨result, rfl⟩
  | error a =>
    obtain ⟨hr, hk⟩ := closeOver_error hc fun b hb => Reached.seed (List.mem_reverse.mp hb)
    exact absurd (h a hr) hk

end Worklist

/-- One sweep over what remains: each whose predecessors are all placed is placed, the others are kept. -/
def sweep (preds : α → List α) : List α → List α → List α × List α
  | ordered, [] => (ordered, [])
  | ordered, a :: rest =>
    if ∀ p ∈ preds a, p ∈ ordered then sweep preds (ordered ++ [a]) rest
    else ((sweep preds ordered rest).1, a :: (sweep preds ordered rest).2)

/-- Sweeps until one places nothing; what remains then is appended. -/
def sweeps (preds : α → List α) (ordered remaining : List α) : List α :=
  if (sweep preds ordered remaining).2.length < remaining.length then
    sweeps preds (sweep preds ordered remaining).1 (sweep preds ordered remaining).2
  else (sweep preds ordered remaining).1 ++ (sweep preds ordered remaining).2
termination_by remaining.length

section Sorting
variable {ordered remaining : List α}

theorem sweep_perm (ordered remaining : List α) :
    ((sweep preds ordered remaining).1 ++ (sweep preds ordered remaining).2).Perm (ordered ++ remaining) := by
  fun_induction sweep preds ordered remaining with
  | case1 => exact .refl _
  | case2 ordered a rest ha ih => simpa using ih
  | case3 ordered a rest ha ih => exact (List.perm_middle.trans (ih.cons a)).trans List.perm_middle.symm

theorem sweep_placed (h : Placed preds ordered) : Placed preds (sweep preds ordered remaining).1 := by
  fun_induction sweep preds ordered remaining with
  | case1 => exact h
  | case2 ordered a rest ha ih => exact ih (h.snoc ha)
  | case3 ordered a rest ha ih => exact ih h

theorem sweep_length_le (ordered remaining : List α) :
    (sweep preds ordered remaining).2.length ≤ remaining.length := by
  fun_induction sweep preds ordered remaining with
  | case1 => exact Nat.le_refl _
  | case2 ordered a rest ha ih => exact Nat.le_succ_of_le ih
  | case3 ordered a rest ha ih => exact Nat.succ_le_succ ih

/-- A sweep places one whose predecessors were all placed before it. -/
theorem sweep_progress (ha : a ∈ remaining) (hp : ∀ p ∈ preds a, p ∈ ordered) :
    (sweep preds ordered remaining).2.length < remaining.length := by
  fun_induction sweep preds ordered remaining with
  | case1 => cases ha
  | case2 ordered b rest hb ih => exact Nat.lt_succ_of_le (sweep_length_le _ _)
  | case3 ordered b rest hb ih =>
    rcases List.mem_cons.mp ha with rfl | ha
    · exact absurd hp hb
    · exact Nat.succ_lt_succ (ih ha hp)

/-- The sweeps neither drop nor repeat anything. -/
theorem sweeps_perm (ordered remaining : List α) :
    (sweeps preds ordered remaining).Perm (ordered ++ remaining) := by
  fun_induction sweeps preds ordered remaining with
  | case1 ordered remaining h ih => exact ih.trans (sweep_perm ordered remaining)
  | case2 ordered remaining h => exact sweep_perm ordered remaining

/-- Nothing is left over where nothing precedes itself: some sweep would have placed the first of it. -/
theorem sweeps_placed (hac : Acyclic preds) (h : Placed preds ordered)
    (hall : ∀ a, a ∈ ordered ∨ a ∈ remaining → ∀ p ∈ preds a, p ∈ ordered ∨ p ∈ remaining) :
    Placed preds (sweeps preds ordered remaining) := by
  fun_induction sweeps preds ordered remaining with
  | case1 ordered remaining hlt ih =>
    refine ih (sweep_placed h) fun a ha p hp => ?_
    have hmem : ∀ b, b ∈ (sweep preds ordered remaining).1 ∨ b ∈ (sweep preds ordered remaining).2 ↔
        b ∈ ordered ∨ b ∈ remaining := by
      intro b
      rw [← List.mem_append, ← List.mem_append, (sweep_perm ordered remaining).mem_iff]
    exact (hmem p).mpr (hall a ((hmem a).mp ha) p hp)
  | case2 ordered remaining hlt =>
    by_cases hne : remaining = []
    · subst hne
      simpa [sweep] using h
    · obtain ⟨a, ha, hfirst⟩ := hac.exists_first hne
      refine absurd (sweep_progress ha fun p hp => ?_) hlt
      exact (hall a (.inr ha) p hp).resolve_right (hfirst p hp)

end Sorting
end Sweeps
