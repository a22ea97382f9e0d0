import Danus.Lib.Json

/-! Sorting by code points: one order of the same strings, or of the same items under distinct keys. -/
namespace Python
namespace Json

theorem strLe_total (a b : PyStr) : strLe a b = true ∨ strLe b a = true := by
  induction a generalizing b with
  | nil => exact .inl rfl
  | cons c a ih =>
    cases b with
    | nil => exact .inr rfl
    | cons d b =>
      simp only [strLe, Bool.or_eq_true, Bool.and_eq_true, decide_eq_true_eq, beq_iff_eq]
      rcases Nat.lt_trichotomy c.toNat d.toNat with h | h | h
      · exact .inl (.inl h)
      · have hcd : c = d := Char.toNat_inj.mp h
        rcases ih b with h | h
        · exact .inl (.inr ⟨hcd, h⟩)
        · exact .inr (.inr ⟨hcd.symm, h⟩)
      · exact .inr (.inl h)

theorem strLe_trans {a b c : PyStr} (hab : strLe a b = true) (hbc : strLe b c = true) :
    strLe a c = true := by
  induction a generalizing b c with
  | nil => rfl
  | cons x a ih =>
    cases b with
    | nil => cases hab
    | cons y b =>
      cases c with
      | nil => cases hbc
      | cons z c =>
        simp only [strLe, Bool.or_eq_true, Bool.and_eq_true, decide_eq_true_eq, beq_iff_eq] at *
        rcases hab with h | ⟨rfl, h⟩
        · rcases hbc with h' | ⟨rfl, _⟩
          · exact .inl (Nat.lt_trans h h')
          · exact .inl h
        · rcases hbc with h' | ⟨rfl, h'⟩
          · exact .inl h'
          · exact .inr ⟨rfl, ih h h'⟩

theorem strLe_antisymm {a b : PyStr} (hab : strLe a b = true) (hba : strLe b a = true) : a = b := by
  induction a generalizing b with
  | nil =>
    cases b with
    | nil => rfl
    | cons y b => cases hba
  | cons x a ih =>
    cases b with
    | nil => cases hab
    | cons y b =>
      simp only [strLe, Bool.or_eq_true, Bool.and_eq_true, decide_eq_true_eq, beq_iff_eq] at *
      rcases hab with h | ⟨rfl, h⟩
      · rcases hba with h' | ⟨rfl, _⟩
        · omega
        · omega
      · rcases hba with h' | ⟨_, h'⟩
        · omega
        · rw [ih h h']

section Keys
variable {α : Type} {items items' : List (PyStr × α)}

instance : Std.Total fun a b : PyStr × α => strLe a.1 b.1 = true := ⟨fun a b => strLe_total a.1 b.1⟩

instance : IsTrans (PyStr × α) fun a b => strLe a.1 b.1 = true := ⟨fun _ _ _ h h' => strLe_trans h h'⟩

theorem sortByKey_perm (items : List (PyStr × α)) : (sortByKey items).Perm items :=
  List.perm_insertionSort _ _

theorem sortByKey_pairwise (items : List (PyStr × α)) :
    (sortByKey items).Pairwise fun a b => strLe a.1 b.1 = true :=
  List.pairwise_insertionSort _ _

theorem sortByKey_eq (hs : items.Pairwise fun a b => strLe a.1 b.1 = true) : sortByKey items = items :=
  hs.insertionSort_eq

end Keys
end Json

/-- `sorted(strings)` -/
def sortStr (l : List PyStr) : List PyStr := l.insertionSort fun a b => Json.strLe a b = true

section Strings
variable {l l' : List PyStr}

instance : Std.Total fun a b : PyStr => Json.strLe a b = true := ⟨Json.strLe_total⟩

instance : IsTrans PyStr fun a b => Json.strLe a b = true := ⟨fun _ _ _ h h' => Json.strLe_trans h h'⟩

theorem sortStr_perm (l : List PyStr) : (sortStr l).Perm l := List.perm_insertionSort _ _

theorem sortStr_congr (hp : l.Perm l') : sortStr l = sortStr l' := by
  have hperm := ((sortStr_perm l).trans hp).trans (sortStr_perm l').symm
  exact hperm.eq_of_pairwise (fun a b _ _ hab hba => Json.strLe_antisymm hab hba)
    (List.pairwise_insertionSort _ _) (List.pairwise_insertionSort _ _)

end Strings
end Python
