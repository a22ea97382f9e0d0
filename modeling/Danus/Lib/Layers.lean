import Danus.Lib.Searches

/-! Breadth-first search from several seeds, up to a depth: what it visits, in which order and how far from the
seeds. -/
namespace Searches
variable {α : Type} [DecidableEq α] {next : α → List α} {limit : Option Nat} {seeds met : List α} {a b : α} {k : Nat}

/-- A path of this length from a seed. -/
inductive Steps (next : α → List α) (seeds : List α) : α → Nat → Prop where
  | seed {a : α} : a ∈ seeds → Steps next seeds a 0
  | step {a b : α} {k : Nat} : Steps next seeds a k → b ∈ next a → Steps next seeds b (k + 1)

/-- The depth is below the limit, where there is one. -/
def below (limit : Option Nat) (depth : Nat) : Bool := limit.all (depth < ·)

/-- The depth is not over the limit. -/
def within (limit : Option Nat) (depth : Nat) : Bool := limit.all (depth ≤ ·)

theorem within_succ : within limit (k + 1) = below limit k := rfl

theorem within_of_le {j : Nat} (hjk : j ≤ k) (hk : within limit k = true) : within limit j = true := by
  cases limit with
  | none => rfl
  | some l =>
    simp only [within, Option.all_some, decide_eq_true_eq] at hk ⊢
    omega

/-- What a visited node adds to the queue. -/
def expand (next : α → List α) (limit : Option Nat) (met : List α) (entry : α × Nat) : List (α × Nat) :=
  if below limit entry.2 then (fresh met (next entry.1)).map (·, entry.2 + 1) else []

/-- Visits the queue from its front; what is done and the queue hold each node that was met, with its depth. -/
def layers (next : α → List α) (limit : Option Nat) : Nat → List (α × Nat) → List (α × Nat) → List (α × Nat)
  | 0, done, _ => done
  | _ + 1, done, [] => done
  | fuel + 1, done, entry :: queue =>
    layers next limit fuel (done ++ [entry])
      (queue ++ expand next limit ((done ++ entry :: queue).map Prod.fst) entry)

/-- The search between two visits. -/
structure Level (next : α → List α) (limit : Option Nat) (seeds : List α) (done queue : List (α × Nat)) : Prop where
  nodup : ((done ++ queue).map Prod.fst).Nodup
  sound : ∀ e ∈ done ++ queue, Steps next seeds e.1 e.2 ∧ within limit e.2 = true
  seeded : ∀ a ∈ seeds, (a, 0) ∈ done ++ queue
  closed : ∀ e ∈ done, below limit e.2 = true → ∀ b ∈ next e.1, ∃ f ∈ done ++ queue, f.1 = b ∧ f.2 ≤ e.2 + 1
  sorted : (done ++ queue).Pairwise (·.2 ≤ ·.2)
  close : ∀ e ∈ queue.head?, ∀ f ∈ done ++ queue, f.2 ≤ e.2 + 1

theorem mem_expand {met : List α} {entry e : α × Nat} :
    e ∈ expand next limit met entry ↔ below limit entry.2 = true ∧ e.1 ∈ next entry.1 ∧ e.1 ∉ met ∧
      e.2 = entry.2 + 1 := by
  rw [expand]
  split
  · next h =>
    simp only [List.mem_map, mem_fresh, h, true_and]
    constructor
    · rintro ⟨b, ⟨hb, hnew⟩, rfl⟩
      exact ⟨hb, hnew, rfl⟩
    · rintro ⟨hb, hnew, hd⟩
      exact ⟨e.1, ⟨hb, hnew⟩, Prod.ext rfl hd.symm⟩
  · next h =>
    simp [h]

theorem keys_expand (met : List α) (entry : α × Nat) :
    (expand next limit met entry).map Prod.fst = if below limit entry.2 then fresh met (next entry.1) else [] := by
  rw [expand]
  split
  · rw [List.map_map]
    exact List.map_id _
  · rfl

section Visit
variable {entry : α × Nat} {done queue : List (α × Nat)}

/-- One visit. -/
theorem Level.visit (h : Level next limit seeds done (entry :: queue)) :
    Level next limit seeds (done ++ [entry])
      (queue ++ expand next limit ((done ++ entry :: queue).map Prod.fst) entry) := by
  have hsplit : (done ++ [entry]) ++ (queue ++ expand next limit ((done ++ entry :: queue).map Prod.fst) entry) =
      (done ++ entry :: queue) ++ expand next limit ((done ++ entry :: queue).map Prod.fst) entry := by
    simp only [List.append_assoc, List.cons_append, List.nil_append]
  have hin : entry ∈ done ++ entry :: queue := List.mem_append_right _ List.mem_cons_self
  have hclose : ∀ f ∈ done ++ entry :: queue, f.2 ≤ entry.2 + 1 := h.close entry rfl
  constructor
  · rw [hsplit, List.map_append, keys_expand]
    split
    · exact nodup_append_fresh h.nodup _
    · rw [List.append_nil]
      exact h.nodup
  · rw [hsplit]
    intro e he
    rcases List.mem_append.mp he with he | he
    · exact h.sound e he
    · obtain ⟨hb, hnext, -, hd⟩ := mem_expand.mp he
      rw [hd]
      exact ⟨.step (h.sound entry hin).1 hnext, hb⟩
  · rw [hsplit]
    exact fun a ha => List.mem_append_left _ (h.seeded a ha)
  · rw [hsplit]
    intro e he hb b hnext
    rcases List.mem_append.mp he with he | he
    · obtain ⟨f, hf, hfb, hfd⟩ := h.closed e he hb b hnext
      exact ⟨f, List.mem_append_left _ hf, hfb, hfd⟩
    · rw [List.mem_singleton.mp he] at hb hnext ⊢
      by_cases hmet : b ∈ (done ++ entry :: queue).map Prod.fst
      · obtain ⟨f, hf, rfl⟩ := List.mem_map.mp hmet
        exact ⟨f, List.mem_append_left _ hf, rfl, hclose f hf⟩
      · exact ⟨(b, entry.2 + 1), List.mem_append_right _ (mem_expand.mpr ⟨hb, hnext, hmet, rfl⟩), rfl, le_rfl⟩
  · rw [hsplit, List.pairwise_append]
    refine ⟨h.sorted, List.pairwise_of_forall_mem_list fun e he f hf => ?_, fun e he f hf => ?_⟩
    · rw [(mem_expand.mp he).2.2.2, (mem_expand.mp hf).2.2.2]
    · rw [(mem_expand.mp hf).2.2.2]
      exact hclose e he
  · rw [hsplit]
    intro e he f hf
    -- the next visit is no nearer than this one, and all that was met is at most one step further than this one
    have hnear : entry.2 ≤ e.2 := by
      cases queue with
      | nil =>
        rw [List.nil_append] at he
        rw [(mem_expand.mp (List.mem_of_mem_head? he)).2.2.2]
        exact Nat.le_succ _
      | cons q queue =>
        cases he
        have hsorted := (List.pairwise_append.mp h.sorted).2.1
        exact (List.pairwise_cons.mp hsorted).1 e List.mem_cons_self
    have hfar : f.2 ≤ entry.2 + 1 := by
      rcases List.mem_append.mp hf with hf | hf
      · exact hclose f hf
      · exact (mem_expand.mp hf).2.2.2.le
    omega

/-- With a step of fuel for each node, the search comes to its end. -/
theorem layers_level {all : List α} (hall : ∀ a, ∀ b ∈ next a, b ∈ all) (fuel : Nat)
    (hfuel : queue.length + (all.filter (· ∉ (done ++ queue).map Prod.fst)).length < fuel)
    (h : Level next limit seeds done queue) : Level next limit seeds (layers next limit fuel done queue) [] := by
  induction fuel generalizing done queue with
  | zero => omega
  | succ fuel ih =>
    cases queue with
    | nil => exact h
    | cons entry queue =>
      refine ih ?_ h.visit
      have hkeys : (done ++ [entry] ++ (queue ++
          expand next limit ((done ++ entry :: queue).map Prod.fst) entry)).map Prod.fst =
          (done ++ entry :: queue).map Prod.fst ++
            if below limit entry.2 then fresh ((done ++ entry :: queue).map Prod.fst) (next entry.1) else [] := by
        rw [← keys_expand, ← List.map_append]
        simp only [List.append_assoc, List.cons_append, List.nil_append]
      have hlength : (expand next limit ((done ++ entry :: queue).map Prod.fst) entry).length =
          (if below limit entry.2 then fresh ((done ++ entry :: queue).map Prod.fst) (next entry.1)
            else []).length := by
        rw [← keys_expand, List.length_map]
      rw [hkeys, List.length_append, hlength]
      rw [List.length_cons] at hfuel
      split
      · have hroom := fresh_room ((done ++ entry :: queue).map Prod.fst) (hall entry.1)
        omega
      · rw [List.append_nil, List.length_nil]
        omega

end Visit

/-- What a search has visited: every node within the limit once, the nearer ones first, each with its distance. -/
structure Visited (next : α → List α) (limit : Option Nat) (seeds : List α) (out : List (α × Nat)) : Prop where
  nodup : (out.map Prod.fst).Nodup
  sorted : out.Pairwise (·.2 ≤ ·.2)
  exact : ∀ a, a ∈ out.map Prod.fst ↔ ∃ k, Steps next seeds a k ∧ within limit k = true
  nearest : ∀ e ∈ out, Steps next seeds e.1 e.2 ∧ ∀ k, Steps next seeds e.1 k → e.2 ≤ k

omit [DecidableEq α] in
theorem Level.visited {out : List (α × Nat)} (h : Level next limit seeds out []) : Visited next limit seeds out := by
  obtain ⟨hnodup, hsound, hseeded, hclosed, hsorted, -⟩ := h
  rw [List.append_nil] at hnodup hsound hseeded hclosed hsorted
  have hfound : ∀ a k, Steps next seeds a k → within limit k = true → ∃ e ∈ out, e.1 = a ∧ e.2 ≤ k := by
    intro a k hk
    induction hk with
    | seed ha => exact fun _ => ⟨_, hseeded _ ha, rfl, le_rfl⟩
    | @step a b k _ hb ih =>
      intro hlimit
      obtain ⟨e, he, rfl, hle⟩ := ih (within_of_le (Nat.le_succ k) hlimit)
      have hbelow : below limit e.2 = true := within_of_le (Nat.succ_le_succ hle) hlimit
      obtain ⟨f, hf, hfb, hfd⟩ := hclosed e he hbelow b hb
      exact ⟨f, hf, hfb, by omega⟩
  refine ⟨hnodup, hsorted, fun a => ⟨fun ha => ?_, fun ⟨k, hk, hlimit⟩ => ?_⟩, fun e he => ⟨(hsound e he).1, ?_⟩⟩
  · obtain ⟨e, he, rfl⟩ := List.mem_map.mp ha
    exact ⟨e.2, hsound e he⟩
  · obtain ⟨e, he, rfl, -⟩ := hfound a k hk hlimit
    exact List.mem_map_of_mem he
  · intro k hk
    by_contra hlt
    have hless : k ≤ e.2 := by omega
    obtain ⟨f, hf, hfe, hfk⟩ := hfound e.1 k hk (within_of_le hless (hsound e he).2)
    obtain rfl : f = e := by
      have h1 := List.inj_on_of_nodup_map hnodup hf he hfe
      exact h1
    omega

/-- The search from seeds that are all different. -/
theorem layers_visited {all : List α} (hall : ∀ a, ∀ b ∈ next a, b ∈ all) (hseeds : seeds.Nodup) {fuel : Nat}
    (hfuel : seeds.length + all.length < fuel) :
    Visited next limit seeds (layers next limit fuel [] (seeds.map (·, 0))) := by
  have hkeys : (seeds.map fun a => (a, 0)).map Prod.fst = seeds := by
    rw [List.map_map]
    exact List.map_id _
  have hzero : ∀ e ∈ seeds.map fun a => (a, 0), e.2 = 0 := by
    intro e he
    obtain ⟨a, _, rfl⟩ := List.mem_map.mp he
    rfl
  have hstart : Level next limit seeds [] (seeds.map fun a => (a, 0)) := by
    refine ⟨?_, fun e he => ?_, fun a ha => List.mem_map_of_mem ha, fun e he => absurd he List.not_mem_nil,
      List.pairwise_of_forall_mem_list fun e he f hf => ?_, fun e _ f hf => ?_⟩
    · rw [List.nil_append, hkeys]
      exact hseeds
    · obtain ⟨a, ha, rfl⟩ := List.mem_map.mp he
      refine ⟨.seed ha, ?_⟩
      cases limit <;> rfl
    · rw [hzero e he, hzero f hf]
    · rw [hzero f hf]
      exact Nat.zero_le _
  refine (layers_level hall fuel ?_ hstart).visited
  have hle := List.length_filter_le (fun a => decide (a ∉ ([] ++ seeds.map fun a => (a, 0)).map Prod.fst)) all
  rw [List.length_map]
  omega

end Searches
