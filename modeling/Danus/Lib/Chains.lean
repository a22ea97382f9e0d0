import Mathlib.Data.List.Basic

/-! Chains along lists of predecessors, and the longest of them. -/
namespace Chains
variable {α : Type} {preds : α → List α} {a p : α} {n d e m : Nat}

/-- A chain of so many steps, each to a predecessor. -/
inductive Chain (preds : α → List α) : Nat → α → Prop
  | leaf (a : α) : Chain preds 0 a
  | step {a p : α} {n : Nat} (hp : p ∈ preds a) (h : Chain preds n p) : Chain preds (n + 1) a

/-- The longest chain has so many steps. -/
structure Longest (preds : α → List α) (a : α) (d : Nat) : Prop where
  chain : Chain preds d a
  le : ∀ n, Chain preds n a → n ≤ d

theorem Longest.unique (h : Longest preds a d) (h' : Longest preds a e) : d = e :=
  Nat.le_antisymm (h'.le d h.chain) (h.le e h'.chain)

theorem longest_leaf (h : preds a = []) : Longest preds a 0 := by
  refine ⟨.leaf a, fun n hn => ?_⟩
  cases hn with
  | leaf => exact Nat.le_refl 0
  | step hp _ =>
    rw [h] at hp
    cases hp

/-- One step more than the longest chain from a predecessor. -/
theorem longest_step (hne : preds a ≠ []) (hall : ∀ p ∈ preds a, ∃ d, Longest preds p d ∧ d ≤ m)
    (hm : m = 0 ∨ ∃ p ∈ preds a, Longest preds p m) : Longest preds a (1 + m) := by
  rw [Nat.add_comm]
  constructor
  · rcases hm with rfl | ⟨p, hp, h⟩
    · obtain ⟨p, hp⟩ := List.exists_mem_of_ne_nil _ hne
      exact .step hp (.leaf p)
    · exact .step hp h.chain
  · intro n hn
    cases hn with
    | leaf => exact Nat.zero_le _
    | step hp h =>
      obtain ⟨d, hd, hle⟩ := hall _ hp
      exact Nat.succ_le_succ (Nat.le_trans (hd.le _ h) hle)

/-- The chains are those along any other lists with the same members. -/
theorem Chain.congr {preds' : α → List α} (h : ∀ a p, p ∈ preds a → p ∈ preds' a)
    (hc : Chain preds n a) : Chain preds' n a := by
  induction hc with
  | leaf a => exact .leaf a
  | step hp _ ih => exact .step (h _ _ hp) ih

end Chains
