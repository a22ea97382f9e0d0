import Danus.Lib.Chains
import Danus.Lib.Sweeps
import Mathlib.Data.List.Sort

/-! Orders that take, again and again, the leading one of those whose predecessors are all placed. -/
namespace Greedy
variable {α : Type} {preds preds' : α → List α} {leads leads' : α → α → Prop} {placed order order' : List α} {a b : α}

/-- All predecessors of `a` are placed. -/
def Ready (preds : α → List α) (placed : List α) (a : α) : Prop := ∀ p ∈ preds a, p ∈ placed

/-- The order goes on after those already placed: its first one is ready, and leads all others that are. -/
inductive From (preds : α → List α) (leads : α → α → Prop) : List α → List α → Prop where
  | nil (placed : List α) : From preds leads placed []
  | cons {placed order : List α} {a : α} : Ready preds placed a → (∀ b ∈ order, Ready preds placed b → leads a b) →
      From preds leads (placed ++ [a]) order → From preds leads placed (a :: order)

/-- Of two such orders of the same elements, neither differs from the other. -/
theorem From.unique (hanti : ∀ a ∈ order, ∀ b ∈ order, leads a b → leads b a → a = b)
    (h : From preds leads placed order) (h' : From preds leads placed order') (hp : order.Perm order') :
    order = order' := by
  induction h generalizing order' with
  | nil placed => exact (List.nil_perm.mp hp).symm
  | @cons placed order a ha hlead h ih =>
    cases h' with
    | nil => exact absurd hp.length_eq (by simp)
    | @cons _ order' b hb hlead' h' =>
      have hab : a = b := by
        by_contra hne
        have hbm : b ∈ order :=
          (List.mem_cons.mp (hp.mem_iff.mpr List.mem_cons_self)).resolve_left (Ne.symm hne)
        have ham : a ∈ order' := (List.mem_cons.mp (hp.mem_iff.mp List.mem_cons_self)).resolve_left hne
        exact hne (hanti a List.mem_cons_self b (List.mem_cons_of_mem a hbm) (hlead b hbm hb) (hlead' a ham ha))
      subst hab
      rw [ih (fun x hx y hy => hanti x (List.mem_cons_of_mem a hx) y (List.mem_cons_of_mem a hy)) h' hp.cons_inv]

theorem Ready.congr (hm : ∀ p, p ∈ preds a ↔ p ∈ preds' a) : Ready preds placed a ↔ Ready preds' placed a :=
  forall_congr' fun p => by rw [hm p]

/-- The order depends on nothing but the members of the predecessor lists, and on who leads whom. -/
theorem From.congr (hm : ∀ a p, p ∈ preds a ↔ p ∈ preds' a)
    (hl : ∀ a ∈ order, ∀ b ∈ order, leads a b → leads' a b) (h : From preds leads placed order) :
    From preds' leads' placed order := by
  induction h with
  | nil placed => exact .nil placed
  | cons ha hlead _ ih =>
    refine .cons ((Ready.congr (hm _)).mp ha) (fun b hb hr => ?_) (ih fun a ha b hb => ?_)
    · exact hl _ List.mem_cons_self b (List.mem_cons_of_mem _ hb) (hlead b hb ((Ready.congr (hm b)).mpr hr))
    · exact hl a (List.mem_cons_of_mem _ ha) b (List.mem_cons_of_mem _ hb)

/-- What stands at any place is ready there, and leads all others that are. -/
theorem From.next (h : From preds leads placed order) {before after : List α}
    (he : order = before ++ a :: after) :
    Ready preds (placed ++ before) a ∧ ∀ b ∈ after, Ready preds (placed ++ before) b → leads a b := by
  induction h generalizing before with
  | nil placed => exact absurd he (by simp)
  | @cons placed order c hc hlead _ ih =>
    cases before with
    | nil =>
      obtain ⟨rfl, rfl⟩ := List.cons.inj he
      rw [List.append_nil]
      exact ⟨hc, hlead⟩
    | cons d before =>
      obtain ⟨rfl, hrest⟩ := List.cons.inj he
      have h := ih hrest
      rwa [List.append_assoc, List.singleton_append] at h

/-- The first of a sorted list leads all of them. -/
theorem head_leads {r : α → α → Prop} [DecidableRel r] [Std.Total r] [IsTrans α r] {l rest : List α}
    (hs : l.insertionSort r = a :: rest) (hb : b ∈ l) : r a b := by
  have hsorted := List.pairwise_insertionSort r l
  have hmem : b ∈ l.insertionSort r := (List.mem_insertionSort r).mpr hb
  rw [hs] at hsorted hmem
  rcases List.mem_cons.mp hmem with rfl | hm
  · rcases Std.Total.total (r := r) b b with h | h <;> exact h
  · exact List.rel_of_pairwise_cons hsorted hm

/-- Among those still to place there is one that is ready. -/
theorem exists_ready (hac : Sweeps.Acyclic preds) {remaining : List α} (hne : remaining ≠ [])
    (hin : ∀ a ∈ remaining, ∀ p ∈ preds a, p ∈ placed ∨ p ∈ remaining) : ∃ a ∈ remaining, Ready preds placed a := by
  obtain ⟨a, ha, hfirst⟩ := hac.exists_first hne
  exact ⟨a, ha, fun p hp => (hin a ha p hp).resolve_right (hfirst p hp)⟩

/-- A chain goes through as many elements that have predecessors as it has steps. -/
theorem exists_distinct (hac : Sweeps.Acyclic preds) {n : Nat} (h : Chains.Chain preds n a) :
    ∃ l : List α, l.length = n ∧ l.Nodup ∧ (∀ x ∈ l, preds x ≠ []) ∧
      ∀ x ∈ l, x = a ∨ Relation.TransGen (fun p a => p ∈ preds a) x a := by
  induction h with
  | leaf a => exact ⟨[], rfl, List.nodup_nil, by simp, by simp⟩
  | @step a p n hp _ ih =>
    obtain ⟨l, hlen, hn, hne, hbefore⟩ := ih
    have hstrict : ∀ x ∈ l, Relation.TransGen (fun p a => p ∈ preds a) x a := by
      intro x hx
      rcases hbefore x hx with rfl | h
      · exact .single hp
      · exact h.tail hp
    refine ⟨a :: l, by rw [List.length_cons, hlen], List.nodup_cons.mpr ⟨fun ha => hac a (hstrict a ha), hn⟩, ?_, ?_⟩
    · rw [List.forall_mem_cons]
      exact ⟨List.ne_nil_of_mem hp, hne⟩
    · rw [List.forall_mem_cons]
      exact ⟨.inl rfl, fun x hx => .inr (hstrict x hx)⟩

end Greedy
