import Mathlib.Algebra.Order.Ring.Int
import Mathlib.Algebra.Order.Ring.Nat
import Mathlib.Data.List.Basic
import Mathlib.Data.List.Perm.Basic
import Mathlib.Algebra.BigOperators.Group.List.Basic

/-! A window over a stream: the newest items within limits on their number and their total size; a tally
is kept of the rest. -/
namespace Retention

/-- The limits on one item, on the number of items and on their total size. -/
structure Limits where
  item : Nat
  count : Nat
  total : Nat
  item_le : item ≤ total
  count_pos : 0 < count

variable {α σ : Type}

/-- The items kept, oldest first, each with its size. -/
structure Window (α σ : Type) where
  kept : List (α × Nat) := []
  bytes : Nat := 0
  omitted : σ

/-- Room for one more item of this size, made by dropping the oldest ones. -/
def evict (l : Limits) (drop : σ → α → σ) (size : Nat) : List (α × Nat) → Nat → σ → Window α σ
  | [], bytes, omitted => ⟨[], bytes, omitted⟩
  | (a, s) :: kept, bytes, omitted =>
    if l.count ≤ kept.length + 1 ∨ l.total < bytes + size then
      evict l drop size kept (bytes - s) (drop omitted a)
    else ⟨(a, s) :: kept, bytes, omitted⟩

def Window.push (l : Limits) (drop : σ → α → σ) (w : Window α σ) (a : α) (size : Nat) : Window α σ :=
  if l.item < size then { w with omitted := drop w.omitted a }
  else
    let room := evict l drop size w.kept w.bytes w.omitted
    { room with kept := room.kept ++ [(a, size)], bytes := room.bytes + size }

/-- The items that went into the window, one after another: each is kept or in the tally, and the kept
ones are in order and within the limits. -/
structure Accounts (l : Limits) (drop : σ → α → σ) (zero : σ) (size : α → Nat) (pushed : List α)
    (w : Window α σ) : Prop where
  tally : ∃ out, w.omitted = out.foldl drop zero ∧ pushed.Perm (out ++ w.kept.map Prod.fst)
  order : (w.kept.map Prod.fst).Sublist pushed
  sizes : ∀ p ∈ w.kept, p.2 = size p.1
  bytes : w.bytes = (w.kept.map Prod.snd).sum
  count : w.kept.length ≤ l.count
  total : w.bytes ≤ l.total

section Rules
variable {l : Limits} {drop : σ → α → σ} {zero : σ} {size : α → Nat} {pushed : List α} {a : α}

theorem accounts_empty : Accounts l drop zero size [] ⟨[], 0, zero⟩ where
  tally := ⟨[], rfl, List.Perm.refl _⟩
  order := List.Sublist.refl _
  sizes := List.forall_mem_nil _
  bytes := rfl
  count := Nat.zero_le _
  total := Nat.zero_le _

/-- Eviction keeps the account, and ends with room for the item. -/
theorem evict_accounts (n : Nat) (hn : n ≤ l.item) (kept : List (α × Nat)) (bytes : Nat) (omitted : σ)
    (h : Accounts l drop zero size pushed ⟨kept, bytes, omitted⟩) :
    Accounts l drop zero size pushed (evict l drop n kept bytes omitted) ∧
      (evict l drop n kept bytes omitted).kept.length < l.count ∧
      (evict l drop n kept bytes omitted).bytes + n ≤ l.total := by
  induction kept generalizing bytes omitted with
  | nil =>
    have hzero : bytes = 0 := h.bytes
    have hitem := l.item_le
    refine ⟨h, l.count_pos, ?_⟩
    simp only [evict]
    omega
  | cons p kept ih =>
    obtain ⟨a, s⟩ := p
    have hbytes : bytes = s + (kept.map Prod.snd).sum := h.bytes
    rw [evict]
    split_ifs with hfull
    · refine ih _ _ ?_
      obtain ⟨out, hout, hperm⟩ := h.tally
      have hcount := h.count
      have htotal := h.total
      have hrest : bytes - s = (kept.map Prod.snd).sum := by omega
      refine ⟨⟨out ++ [a], ?_, ?_⟩, ?_, fun q hq => h.sizes q (List.mem_cons_of_mem _ hq), hrest, ?_, ?_⟩
      · rw [List.foldl_append, ← hout]
        rfl
      · rw [List.append_assoc]
        exact hperm
      · exact (List.sublist_cons_self _ _).trans h.order
      · simp only [List.length_cons] at hcount ⊢
        omega
      · simp only at htotal ⊢
        omega
    · simp only [not_or, Nat.not_le, Nat.not_lt] at hfull
      exact ⟨h, by simpa using hfull.1, hfull.2⟩

theorem Accounts.push {w : Window α σ} (h : Accounts l drop zero size pushed w) (a : α) :
    Accounts l drop zero size (pushed ++ [a]) (w.push l drop a (size a)) := by
  unfold Window.push
  split_ifs with hlarge
  · obtain ⟨out, hout, hperm⟩ := h.tally
    refine ⟨⟨out ++ [a], ?_, ?_⟩, h.order.trans (List.sublist_append_left _ _), h.sizes, h.bytes,
      h.count, h.total⟩
    · rw [List.foldl_append, ← hout]
      rfl
    · calc (pushed ++ [a]).Perm (out ++ w.kept.map Prod.fst ++ [a]) := hperm.append_right [a]
        _ = out ++ (w.kept.map Prod.fst ++ [a]) := List.append_assoc _ _ _
        (out ++ (w.kept.map Prod.fst ++ [a])).Perm (out ++ ([a] ++ w.kept.map Prod.fst)) :=
          (List.perm_append_comm).append_left out
        _ = out ++ [a] ++ w.kept.map Prod.fst := (List.append_assoc _ _ _).symm
  · obtain ⟨hroom, hcount, htotal⟩ :=
      evict_accounts (size a) (Nat.le_of_not_lt hlarge) w.kept w.bytes w.omitted h
    obtain ⟨out, hout, hperm⟩ := hroom.tally
    refine ⟨⟨out, hout, ?_⟩, ?_, ?_, ?_, ?_, htotal⟩
    · rw [List.map_append, ← List.append_assoc]
      exact hperm.append_right _
    · rw [List.map_append]
      exact hroom.order.append_right _
    · intro p hp
      rcases List.mem_append.mp hp with hp | hp
      · exact hroom.sizes p hp
      · rw [List.mem_singleton.mp hp]
    · rw [List.map_append, List.sum_append, ← hroom.bytes]
      rfl
    · rw [List.length_append]
      exact hcount

end Rules
end Retention
