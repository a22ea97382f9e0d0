import Danus.Lib.Sweeps

/-! Searches that mark a node when they meet it: in the order of a queue with depths, or of a stack. -/
namespace Searches
open Sweeps
variable {α : Type} [DecidableEq α] {a p : α} {met seeds as bs : List α}

/-- Those not met before, each once, in their order. -/
def fresh (met : List α) : List α → List α
  | [] => []
  | a :: as => if a ∈ met then fresh met as else a :: fresh (met ++ [a]) as

theorem mem_fresh : a ∈ fresh met as ↔ a ∈ as ∧ a ∉ met := by
  induction as generalizing met with
  | nil => simp [fresh]
  | cons b as ih =>
    rw [fresh]
    by_cases hb : b ∈ met
    · rw [if_pos hb, ih, List.mem_cons]
      constructor
      · rintro ⟨ha, hm⟩
        exact ⟨.inr ha, hm⟩
      · rintro ⟨rfl | ha, hm⟩
        · exact absurd hb hm
        · exact ⟨ha, hm⟩
    · rw [if_neg hb, List.mem_cons, ih, List.mem_cons, List.mem_append, List.mem_singleton, not_or]
      constructor
      · rintro (rfl | ⟨ha, hm, -⟩)
        · exact ⟨.inl rfl, hb⟩
        · exact ⟨.inr ha, hm⟩
      · rintro ⟨rfl | ha, hm⟩
        · exact .inl rfl
        · by_cases hab : a = b
          · exact .inl hab
          · exact .inr ⟨ha, hm, hab⟩

theorem fresh_nodup (met as : List α) : (fresh met as).Nodup := by
  induction as generalizing met with
  | nil => exact List.nodup_nil
  | cons b as ih =>
    rw [fresh]
    split
    · exact ih met
    · refine List.nodup_cons.mpr ⟨fun hb => ?_, ih _⟩
      exact (mem_fresh.mp hb).2 (List.mem_append_right _ (List.mem_singleton.mpr rfl))

theorem nodup_append_fresh (hm : met.Nodup) (as : List α) : (met ++ fresh met as).Nodup :=
  List.nodup_append'.mpr ⟨hm, fresh_nodup met as, fun _ ha hf => (mem_fresh.mp hf).2 ha⟩

/-- Marking what is new takes it out of what is left of a list that has it. -/
theorem fresh_room (met : List α) {all : List α} (hall : ∀ a ∈ as, a ∈ all) :
    (fresh met as).length + (all.filter (· ∉ met ++ fresh met as)).length ≤ (all.filter (· ∉ met)).length := by
  have hsub : (fresh met as ++ all.filter (· ∉ met ++ fresh met as)).Subperm (all.filter (· ∉ met)) := by
    have hsplit := List.filter_append_perm (· ∈ fresh met as) (all.filter (· ∉ met))
    refine List.Subperm.trans ?_ hsplit.subperm
    refine List.Subperm.append ?_ ?_
    · refine List.subperm_of_subset (fresh_nodup met as) fun a ha => ?_
      obtain ⟨has, hm⟩ := mem_fresh.mp ha
      simp [hall a has, hm, ha]
    · refine (List.Perm.of_eq ?_).subperm
      rw [List.filter_filter]
      refine List.filter_congr fun a _ => ?_
      simp [Bool.and_comm]
  simpa using hsub.length_le

section Stack
variable {next : α → List α} {stack : List α}

/-- Pops the last of a stack, given here as its head, and pushes what it leads to and was not met. -/
def collect (next : α → List α) : Nat → List α → List α → List α
  | 0, _, met => met
  | _ + 1, [], met => met
  | fuel + 1, a :: stack, met =>
    let new := fresh met (next a)
    collect next fuel (new.reverse ++ stack) (met ++ new)

theorem collect_sound (fuel : Nat) (hm : ∀ a ∈ met, Reached next seeds a) (hs : ∀ a ∈ stack, a ∈ met) :
    ∀ a ∈ collect next fuel stack met, Reached next seeds a := by
  induction fuel generalizing stack met with
  | zero => exact hm
  | succ fuel ih =>
    cases stack with
    | nil => exact hm
    | cons b stack =>
      refine ih ?_ ?_
      · intro a ha
        rcases List.mem_append.mp ha with ha | ha
        · exact hm a ha
        · exact .step (hm b (hs b List.mem_cons_self)) (mem_fresh.mp ha).1
      · intro a ha
        rcases List.mem_append.mp ha with ha | ha
        · exact List.mem_append_right _ (List.mem_reverse.mp ha)
        · exact List.mem_append_left _ (hs a (List.mem_cons_of_mem _ ha))

/-- What was met stays met, and with enough fuel whatever it leads to is met. -/
theorem collect_closed {all : List α} (hall : ∀ a, ∀ p ∈ next a, p ∈ all) (fuel : Nat)
    (hfuel : stack.length + (all.filter (· ∉ met)).length ≤ fuel)
    (hm : ∀ a ∈ met, a ∈ stack ∨ ∀ p ∈ next a, p ∈ met) :
    (∃ more, collect next fuel stack met = met ++ more) ∧
    ∀ a ∈ collect next fuel stack met, ∀ p ∈ next a, p ∈ collect next fuel stack met := by
  induction fuel generalizing stack met with
  | zero =>
    have hstack : stack = [] := List.length_eq_zero_iff.mp (by omega)
    subst hstack
    exact ⟨⟨[], (List.append_nil met).symm⟩, fun a ha => (hm a ha).resolve_left List.not_mem_nil⟩
  | succ fuel ih =>
    cases stack with
    | nil => exact ⟨⟨[], (List.append_nil met).symm⟩, fun a ha => (hm a ha).resolve_left List.not_mem_nil⟩
    | cons b stack =>
      have hroom := fresh_room met (hall b)
      have hmet : ∀ p ∈ next b, p ∈ met ++ fresh met (next b) := by
        intro p hp
        by_cases hpm : p ∈ met
        · exact List.mem_append_left _ hpm
        · exact List.mem_append_right _ (mem_fresh.mpr ⟨hp, hpm⟩)
      have hleft : ((fresh met (next b)).reverse ++ stack).length +
          (all.filter (· ∉ met ++ fresh met (next b))).length ≤ fuel := by
        rw [List.length_append, List.length_reverse]
        rw [List.length_cons] at hfuel
        omega
      obtain ⟨⟨more, hmore⟩, hclosed⟩ := ih hleft fun a ha => by
        rcases List.mem_append.mp ha with ha | ha
        · rcases hm a ha with hst | hnext
          · rcases List.mem_cons.mp hst with rfl | hst
            · exact .inr hmet
            · exact .inl (List.mem_append_right _ hst)
          · exact .inr fun p hp => List.mem_append_left _ (hnext p hp)
        · exact .inl (List.mem_append_left _ (List.mem_reverse.mpr ha))
      exact ⟨⟨fresh met (next b) ++ more, by rw [← List.append_assoc]; exact hmore⟩, hclosed⟩

theorem collect_nodup (fuel : Nat) (hm : met.Nodup) : (collect next fuel stack met).Nodup := by
  induction fuel generalizing stack met with
  | zero => exact hm
  | succ fuel ih =>
    cases stack with
    | nil => exact hm
    | cons b stack => exact ih (nodup_append_fresh hm _)

/-- A search from one node meets exactly what it leads to, and it first. -/
theorem collect_spec {all : List α} (hall : ∀ a, ∀ p ∈ next a, p ∈ all) {fuel : Nat} (hfuel : all.length < fuel)
    (root : α) : (∃ more, collect next fuel [root] [root] = root :: more) ∧ (collect next fuel [root] [root]).Nodup ∧
    ∀ a, a ∈ collect next fuel [root] [root] ↔ Reached next [root] a := by
  have hroom : [root].length + (all.filter (· ∉ [root])).length ≤ fuel := by
    have := List.length_filter_le (fun a => decide (a ∉ [root])) all
    rw [List.length_singleton]
    omega
  obtain ⟨⟨more, hmore⟩, hclosed⟩ := collect_closed hall fuel hroom fun a ha => .inl ha
  refine ⟨⟨more, hmore⟩, collect_nodup fuel (List.nodup_singleton root), fun a => ⟨?_, fun ha => ?_⟩⟩
  · exact collect_sound fuel (fun b hb => .seed hb) (fun b hb => hb) a
  · refine ha.closed (fun b hb => ?_) hclosed
    rw [hmore]
    exact List.mem_append_left _ hb

end Stack
end Searches
