import Mathlib.Data.List.Basic
import Mathlib.Data.List.Nodup

/-! Python dictionaries as association lists in insertion order. -/
namespace Python
variable {α β : Type} [BEq α] [LawfulBEq α] {l : List (α × β)} {a : α} {b : β}

theorem lookup_cons_self : ((a, b) :: l).lookup a = some b := by
  rw [List.lookup_cons, beq_self_eq_true]

theorem lookup_cons_of_ne {x : α} {y : β} (h : a ≠ x) : ((x, y) :: l).lookup a = l.lookup a := by
  rw [List.lookup_cons, beq_false_of_ne h]

/-- Without one key's entries. -/
theorem lookup_filter_ne [DecidableEq α] {x : α} :
    (l.filter fun p => decide (p.1 ≠ x)).lookup a = if a = x then none else l.lookup a := by
  induction l with
  | nil => simp
  | cons p l ih =>
    obtain ⟨y, z⟩ := p
    by_cases hy : y = x
    · rw [List.filter_cons_of_neg (by simp [hy]), ih]
      split_ifs with ha
      · rfl
      · rw [lookup_cons_of_ne (hy ▸ ha)]
    · rw [List.filter_cons_of_pos (by simp [hy])]
      by_cases ha : a = y
      · subst ha
        rw [lookup_cons_self, lookup_cons_self, if_neg hy]
      · rw [lookup_cons_of_ne ha, lookup_cons_of_ne ha, ih]

theorem lookup_eq_some_of_nodup (hn : (l.map Prod.fst).Nodup) (h : (a, b) ∈ l) :
    l.lookup a = some b := by
  induction l with
  | nil => cases h
  | cons p l ih =>
    obtain ⟨x, y⟩ := p
    rw [List.map_cons, List.nodup_cons] at hn
    rcases List.mem_cons.mp h with he | hm
    · cases he
      simp
    · have hne : a ≠ x := by
        intro he
        subst he
        exact hn.1 (List.mem_map.mpr ⟨(a, b), hm, rfl⟩)
      rw [List.lookup_cons, beq_false_of_ne hne]
      exact ih hn.2 hm

theorem mem_of_lookup_eq_some (h : l.lookup a = some b) : (a, b) ∈ l := by
  induction l with
  | nil => cases h
  | cons p l ih =>
    obtain ⟨x, y⟩ := p
    rw [List.lookup_cons] at h
    by_cases he : a = x
    · subst he
      simp at h
      simp [h]
    · rw [beq_false_of_ne he] at h
      exact List.mem_cons_of_mem _ (ih h)

theorem notMem_of_lookup_eq_none (h : l.lookup a = none) : (a, b) ∉ l := by
  induction l with
  | nil => exact List.not_mem_nil
  | cons p l ih =>
    obtain ⟨x, y⟩ := p
    rw [List.lookup_cons] at h
    by_cases he : a = x
    · subst he
      simp at h
    · rw [beq_false_of_ne he] at h
      intro hm
      rcases List.mem_cons.mp hm with hm | hm
      · cases hm
        exact he rfl
      · exact ih h hm

/-- `del items[key]`, or nothing where the key is absent. -/
def eraseKey (key : α) (items : List (α × β)) : List (α × β) := items.filter fun p => p.1 != key

theorem mem_eraseKey {key : α} {p : α × β} : p ∈ eraseKey key l ↔ p ∈ l ∧ p.1 ≠ key := by
  rw [eraseKey, List.mem_filter, bne_iff_ne]

end Python
