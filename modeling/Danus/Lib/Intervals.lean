import Mathlib.Data.Finset.Union
import Mathlib.Data.List.Sort
import Mathlib.Order.Interval.Finset.Nat

/-! Half-open intervals of natural numbers, and how much a list of them covers. -/
namespace Intervals

/-- The points of the intervals. -/
def cover : List (ℕ × ℕ) → Finset ℕ
  | [] => ∅
  | p :: l => Finset.Ico p.1 p.2 ∪ cover l

/-- The order of pairs. -/
def Le (p q : ℕ × ℕ) : Prop := p.1 < q.1 ∨ p.1 = q.1 ∧ p.2 ≤ q.2

instance : DecidableRel Le := fun _ _ => inferInstanceAs (Decidable (_ ∨ _))

/-- What is covered from the interval at hand on, over intervals in order. -/
def sweep (total start stop : ℕ) : List (ℕ × ℕ) → ℕ
  | [] => total + (stop - start)
  | p :: l =>
    if p.1 ≤ stop then sweep total start (max stop p.2) l
    else sweep (total + (stop - start)) p.1 p.2 l

/-- How much intervals cover, after sorting those that are not reversed. -/
def unionLength (intervals : List (ℕ × ℕ)) : ℕ :=
  match (intervals.filter fun p => p.1 ≤ p.2).insertionSort Le with
  | [] => 0
  | p :: l => sweep 0 p.1 p.2 l

variable {l l' : List (ℕ × ℕ)} {p : ℕ × ℕ} {t start stop total : ℕ}

theorem mem_cover : t ∈ cover l ↔ ∃ p ∈ l, p.1 ≤ t ∧ t < p.2 := by
  induction l with
  | nil => simp [cover]
  | cons p l ih => simp only [cover, Finset.mem_union, Finset.mem_Ico, ih, List.exists_mem_cons_iff]

theorem cover_congr (h : ∀ p, p.1 < p.2 → (p ∈ l ↔ p ∈ l')) : cover l = cover l' := by
  ext t
  rw [mem_cover, mem_cover]
  constructor
  · rintro ⟨p, hp, hlow, hhigh⟩
    exact ⟨p, (h p (by omega)).mp hp, hlow, hhigh⟩
  · rintro ⟨p, hp, hlow, hhigh⟩
    exact ⟨p, (h p (by omega)).mpr hp, hlow, hhigh⟩

/-- Two intervals that meet cover one. -/
theorem Ico_union_of_le (hlow : start ≤ p.1) (hmeet : p.1 ≤ stop) :
    Finset.Ico start stop ∪ Finset.Ico p.1 p.2 = Finset.Ico start (max stop p.2) := by
  ext t
  simp only [Finset.mem_union, Finset.mem_Ico]
  omega

/-- The sweep adds what the intervals in order cover, from the one at hand on. -/
theorem sweep_eq (hsorted : l.Pairwise Le) (hle : start ≤ stop)
    (hstart : ∀ p ∈ l, start ≤ p.1) (hproper : ∀ p ∈ l, p.1 ≤ p.2) :
    sweep total start stop l = total + (Finset.Ico start stop ∪ cover l).card := by
  induction l generalizing total start stop with
  | nil => simp [sweep, cover]
  | cons p l ih =>
    rw [List.pairwise_cons] at hsorted
    rw [List.forall_mem_cons] at hstart hproper
    have hfirst : ∀ q ∈ l, p.1 ≤ q.1 := by
      intro q hq
      rcases hsorted.1 q hq with h | h
      · exact h.le
      · exact h.1.le
    rw [sweep, cover]
    split_ifs with hmeet
    · rw [ih hsorted.2 (by omega) hstart.2 hproper.2, ← Finset.union_assoc,
        Ico_union_of_le hstart.1 hmeet]
    · have hdisjoint : Disjoint (Finset.Ico start stop) (Finset.Ico p.1 p.2 ∪ cover l) := by
        rw [Finset.disjoint_left]
        intro t ht hr
        rw [Finset.mem_Ico] at ht
        rw [Finset.mem_union, Finset.mem_Ico, mem_cover] at hr
        rcases hr with hr | ⟨q, hq, hlow, -⟩
        · omega
        · have hpq := hfirst q hq
          omega
      rw [ih hsorted.2 hproper.1 hfirst hproper.2, Finset.card_union_of_disjoint hdisjoint,
        Nat.card_Ico]
      omega

instance : Std.Total Le := ⟨fun p q => by unfold Le; omega⟩

instance : IsTrans (ℕ × ℕ) Le := ⟨fun p q r h h' => by unfold Le at *; omega⟩

/-- The length of the union is the number of points that the intervals cover. -/
theorem unionLength_eq (l : List (ℕ × ℕ)) : unionLength l = (cover l).card := by
  have hperm := List.perm_insertionSort Le (l.filter fun p => decide (p.1 ≤ p.2))
  have hsorted := List.pairwise_insertionSort Le (l.filter fun p => decide (p.1 ≤ p.2))
  have hcover : cover ((l.filter fun p => decide (p.1 ≤ p.2)).insertionSort Le) = cover l := by
    refine cover_congr fun p hp => ?_
    rw [hperm.mem_iff, List.mem_filter]
    exact and_iff_left (by simpa using hp.le)
  have hproper : ∀ p ∈ (l.filter fun p => decide (p.1 ≤ p.2)).insertionSort Le, p.1 ≤ p.2 := by
    intro p hp
    simpa using (List.mem_filter.mp (hperm.mem_iff.mp hp)).2
  rw [← hcover, unionLength]
  generalize (l.filter fun p => decide (p.1 ≤ p.2)).insertionSort Le = sorted at *
  cases sorted with
  | nil => rfl
  | cons p rest =>
    rw [List.pairwise_cons] at hsorted
    rw [List.forall_mem_cons] at hproper
    have hfirst : ∀ q ∈ rest, p.1 ≤ q.1 := by
      intro q hq
      rcases hsorted.1 q hq with h | h
      · exact h.le
      · exact h.1.le
    change sweep 0 p.1 p.2 rest = _
    rw [sweep_eq hsorted.2 hproper.1 hfirst hproper.2, Nat.zero_add, cover]

end Intervals
