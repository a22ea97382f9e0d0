import Danus.HumanSummary.Bundle
import Danus.Lib.Checks
import Danus.Lib.Greedy

/-! The order of the report: the depths that the cache holds are longest chains, and the selection among the
ready facts is canonical. -/
namespace Danus.HumanSummary
open Python FactGraph Chains Sweeps Greedy

section Depths
variable {cache cache' : PyStr → Option Nat} {fid : PyStr}

/-- The cache only grows. -/
def Grows (cache cache' : PyStr → Option Nat) : Prop := ∀ k, (cache k).isSome → (cache' k).isSome

theorem grows_update {d : Nat} : Grows cache (Function.update cache fid (some d)) := by
  intro k hk
  by_cases he : k = fid
  · rw [he, Function.update_self]
    rfl
  · rwa [Function.update_of_ne he]

variable [Runtime] {files : List (PyStr × PyStr)} {p : PyStr} {n callDepth : Nat}

/-- The predecessors that are active themselves. -/
def activePredecessors (files : List (PyStr × PyStr)) (fid : PyStr) : List PyStr :=
  (predecessors files fid).filter (· ∈ files.map Prod.fst)

/-- What is no file has no predecessors. -/
theorem active_of_predecessor (hp : p ∈ predecessors files fid) : fid ∈ files.map Prod.fst := by
  by_contra hno
  have hlookup : files.lookup fid = none := by
    rw [List.lookup_eq_none_iff]
    intro q hq
    have hne : q.1 ≠ fid := fun he => hno (he ▸ List.mem_map_of_mem hq)
    simpa [bne_iff_ne] using Ne.symm hne
  have hraw : rawOf files fid = [] := by
    rw [rawOf, hlookup]
    rfl
  have hnone : (parseFrontmatter []).predecessors = [] := rfl
  rw [predecessors, hraw, hnone] at hp
  cases hp

/-- What comes before something makes that active. -/
theorem active_of_before {a : PyStr} (h : Relation.TransGen (fun p a => p ∈ predecessors files a) p a) :
    a ∈ files.map Prod.fst := by
  cases h with
  | single hp => exact active_of_predecessor hp
  | tail _ hp => exact active_of_predecessor hp

/-- A cycle runs through active facts only. -/
theorem acyclic_predecessors (h : Acyclic (activePredecessors files)) : Acyclic (predecessors files) := by
  have hactive : ∀ {p a}, Relation.TransGen (fun p a => p ∈ predecessors files a) p a → p ∈ files.map Prod.fst →
      Relation.TransGen (fun p a => p ∈ activePredecessors files a) p a := by
    intro p a hc hp
    induction hc with
    | single hpa => exact .single (List.mem_filter.mpr ⟨hpa, decide_eq_true hp⟩)
    | tail hpb hbc ih =>
      exact ih.tail (List.mem_filter.mpr ⟨hbc, decide_eq_true (active_of_before hpb)⟩)
  exact fun a hc => h a (hactive hc (active_of_before hc))

/-- What the cache holds is right, but for the facts still being visited. -/
def SoundBut (files : List (PyStr × PyStr)) (stack : List PyStr) (cache : PyStr → Option Nat) : Prop :=
  ∀ k d, cache k = some d → k ∉ stack → Longest (predecessors files) k d

/-- The facts being visited come after the one visited now. -/
def Above (files : List (PyStr × PyStr)) (fid : PyStr) (stack : List PyStr) : Prop :=
  ∀ v ∈ stack, Relation.TransGen (fun p a => p ∈ predecessors files a) fid v

/-- A call that returns gives the longest chain's length, and leaves a cache as right as before. -/
def Right (files : List (PyStr × PyStr)) (n : Nat) : Prop :=
  ∀ cache fid stack, Above files fid stack → SoundBut files stack cache →
    ∀ d cache', depthOf files n cache fid = .ok (d, cache') →
      Longest (predecessors files) fid d ∧ SoundBut files stack cache' ∧ Grows cache cache' ∧ (cache' fid).isSome

/-- The calls for the predecessors, one after another. -/
theorem foldlM_right (hn : Right files n) {stack ps : List PyStr} (habove : ∀ p ∈ ps, Above files p stack)
    (hs : SoundBut files stack cache) (k m : Nat)
    (h : ps.foldlM (fun acc p => (depthOf files n acc.2 p).map fun r => (max acc.1 r.1, r.2)) (k, cache) =
      .ok (m, cache')) :
    SoundBut files stack cache' ∧ Grows cache cache' ∧ k ≤ m ∧
      (∀ p ∈ ps, ∃ d, Longest (predecessors files) p d ∧ d ≤ m) ∧
      (m = k ∨ ∃ p ∈ ps, Longest (predecessors files) p m) := by
  induction ps generalizing cache k with
  | nil =>
    cases h
    exact ⟨hs, fun _ hk => hk, Nat.le_refl _, by simp, .inl rfl⟩
  | cons p ps ih =>
    rw [List.foldlM_cons] at h
    obtain ⟨⟨j, cache₁⟩, hcall, hrest⟩ := Checks.bind_ok.mp h
    obtain ⟨⟨d, cache₂⟩, hdepth, he⟩ := Checks.map_ok.mp hcall
    cases he
    obtain ⟨hd, hs₁, hgrows₁, -⟩ := hn cache p stack (habove p List.mem_cons_self) hs d cache₂ hdepth
    obtain ⟨hs', hgrows, hle, hall, hm⟩ :=
      ih (fun q hq => habove q (List.mem_cons_of_mem p hq)) hs₁ (max k d) hrest
    refine ⟨hs', fun k hk => hgrows k (hgrows₁ k hk), (le_max_left k d).trans hle, fun q hq => ?_, ?_⟩
    · rcases List.mem_cons.mp hq with rfl | hq
      · exact ⟨d, hd, (le_max_right k d).trans hle⟩
      · exact hall q hq
    · rcases hm with hm | ⟨q, hq, hlong⟩
      · rcases le_total d k with hdk | hkd
        · exact .inl (hm.trans (max_eq_left hdk))
        · rw [hm, max_eq_right hkd]
          exact .inr ⟨p, List.mem_cons_self, hd⟩
      · exact .inr ⟨q, List.mem_cons_of_mem p hq, hlong⟩

/-- No call meets a fact that is still being visited, so the zero kept for it is never read. -/
theorem depthOf_right (hac : Acyclic (predecessors files)) (n : Nat) : Right files n := by
  induction n with
  | zero =>
    intro cache fid stack _ _ d cache' h
    cases h
  | succ n ih =>
    intro cache fid stack habove hs d cache' h
    rw [depthOf] at h
    cases hc : cache fid with
    | some e =>
      rw [hc] at h
      cases h
      exact ⟨hs fid d hc fun hm => hac fid (habove fid hm), hs, fun _ hk => hk, by rw [hc]; rfl⟩
    | none =>
      rw [hc] at h
      dsimp only at h
      by_cases hsafe : isSafeFactId fid = true
      swap
      · rw [if_neg hsafe] at h
        cases h
      rw [if_pos hsafe] at h
      obtain ⟨⟨m, cache₁⟩, hfold, he⟩ := Checks.map_ok.mp h
      have hbelow : ∀ p ∈ predecessors files fid, Above files p (fid :: stack) := by
        intro p hp v hv
        rcases List.mem_cons.mp hv with rfl | hv
        · exact .single hp
        · exact .head hp (habove v hv)
      have hvisiting : SoundBut files (fid :: stack) (Function.update cache fid (some 0)) := by
        intro k e he hk
        rw [List.mem_cons, not_or] at hk
        rw [Function.update_of_ne hk.1] at he
        exact hs k e he hk.2
      obtain ⟨hs₁, hgrows, -, hall, hm⟩ := foldlM_right ih hbelow hvisiting 0 m hfold
      cases he
      have hlong : Longest (predecessors files) fid (if predecessors files fid = [] then 0 else 1 + m) := by
        split_ifs with hnil
        · exact longest_leaf hnil
        · exact longest_step hnil hall hm
      refine ⟨hlong, fun k e he hk => ?_, fun k hk => ?_, ?_⟩
      · by_cases hkf : k = fid
        · subst hkf
          rw [Function.update_self] at he
          cases he
          exact hlong
        · rw [Function.update_of_ne hkf] at he
          refine hs₁ k e he ?_
          rw [List.mem_cons, not_or]
          exact ⟨hkf, hk⟩
      · exact grows_update k (hgrows k (grows_update k hk))
      · rw [Function.update_self]
        rfl

/-- The depths of all facts are their longest chains. -/
theorem depths_longest (hac : Acyclic (predecessors files)) {ids : List PyStr} {depth : PyStr → Option Nat}
    (h : depths files callDepth ids = .ok depth) :
    ∀ fid ∈ ids, Longest (predecessors files) fid ((depth fid).getD 0) := by
  have hfold : ∀ (ids : List PyStr) (cache : PyStr → Option Nat), SoundBut files [] cache →
      ids.foldlM (fun cache fid => (depthOf files callDepth cache fid).map Prod.snd) cache = .ok depth →
      SoundBut files [] depth ∧ Grows cache depth ∧ ∀ fid ∈ ids, (depth fid).isSome := by
    intro ids
    induction ids with
    | nil =>
      intro cache hs h
      cases h
      exact ⟨hs, fun _ hk => hk, by rintro fid ⟨⟩⟩
    | cons fid ids ih =>
      intro cache hs h
      rw [List.foldlM_cons] at h
      obtain ⟨cache₁, hcall, hrest⟩ := Checks.bind_ok.mp h
      obtain ⟨⟨d, cache₂⟩, hdepth, he⟩ := Checks.map_ok.mp hcall
      cases he
      have habove : Above files fid [] := fun v hv => absurd hv List.not_mem_nil
      obtain ⟨-, hs₁, hgrows₁, hsome⟩ := depthOf_right hac callDepth cache fid [] habove hs d cache₂ hdepth
      obtain ⟨hs', hgrows, hall⟩ := ih cache₂ hs₁ hrest
      refine ⟨hs', fun k hk => hgrows k (hgrows₁ k hk), fun k hk => ?_⟩
      rcases List.mem_cons.mp hk with rfl | hk
      · exact hgrows k hsome
      · exact hall k hk
  have hempty : SoundBut files [] fun _ => none := fun k d he => absurd he (by simp)
  obtain ⟨hs, -, hsome⟩ := hfold ids _ hempty h
  intro fid hfid
  obtain ⟨d, hd⟩ := Option.isSome_iff_exists.mp (hsome fid hfid)
  rw [hd]
  exact hs fid d hd List.not_mem_nil

/-- What keeps a depth from being found: a chain as long as the interpreter's stack, or a name that is no safe
path segment. -/
structure Fails (files : List (PyStr × PyStr)) (n : Nat) (fid : PyStr) (e : BundleError) : Prop where
  recursion : e = .recursion → Chain (predecessors files) n fid
  invalid : ∀ p, e = .invalidId p → isSafeFactId p = false ∧
    (p = fid ∨ Relation.TransGen (fun p a => p ∈ predecessors files a) p fid)

theorem depthOf_fails : ∀ (n : Nat) (cache : PyStr → Option Nat) (fid : PyStr) (e : BundleError),
    depthOf files n cache fid = .error e → Fails files n fid e := by
  intro n
  induction n with
  | zero =>
    intro cache fid e h
    cases h
    exact ⟨fun _ => .leaf fid, by rintro p ⟨⟩⟩
  | succ n ih =>
    intro cache fid e h
    have hfold : ∀ (ps : List PyStr) (acc : Nat × (PyStr → Option Nat)), (∀ p ∈ ps, p ∈ predecessors files fid) →
        ps.foldlM (fun acc p => (depthOf files n acc.2 p).map fun r => (max acc.1 r.1, r.2)) acc = .error e →
        Fails files (n + 1) fid e := by
      intro ps
      induction ps with
      | nil =>
        intro acc _ h
        cases h
      | cons p ps ihps =>
        intro acc hps h
        rw [List.foldlM_cons] at h
        cases hd : depthOf files n acc.2 p with
        | error e' =>
          rw [hd] at h
          cases h
          obtain ⟨hrec, hinv⟩ := ih acc.2 p e hd
          refine ⟨fun he => .step (hps p List.mem_cons_self) (hrec he), fun q he => ?_⟩
          obtain ⟨hbad, hq⟩ := hinv q he
          refine ⟨hbad, .inr ?_⟩
          rcases hq with rfl | hq
          · exact .single (hps q List.mem_cons_self)
          · exact hq.tail (hps p List.mem_cons_self)
        | ok r =>
          rw [hd] at h
          exact ihps _ (fun q hq => hps q (List.mem_cons_of_mem p hq)) h
    rw [depthOf] at h
    cases hc : cache fid with
    | some d =>
      rw [hc] at h
      cases h
    | none =>
      rw [hc] at h
      dsimp only at h
      by_cases hsafe : isSafeFactId fid = true
      · rw [if_pos hsafe] at h
        cases hf : (predecessors files fid).foldlM
          (fun acc p => (depthOf files n acc.2 p).map fun r => (max acc.1 r.1, r.2))
          (0, Function.update cache fid (some 0)) with
        | error e' =>
          rw [hf] at h
          cases h
          exact hfold _ _ (fun p hp => hp) hf
        | ok r =>
          rw [hf] at h
          cases h
      · rw [if_neg hsafe] at h
        cases h
        refine ⟨by rintro ⟨⟩, fun p he => ?_⟩
        cases he
        exact ⟨Bool.eq_false_iff.mpr hsafe, .inl rfl⟩

/-- The first fact that fails, where the depths do. -/
theorem depths_fails {ids : List PyStr} {e : BundleError} (h : depths files callDepth ids = .error e) :
    ∃ fid ∈ ids, Fails files callDepth fid e := by
  have hfold : ∀ (ids : List PyStr) (cache : PyStr → Option Nat),
      ids.foldlM (fun cache fid => (depthOf files callDepth cache fid).map Prod.snd) cache = .error e →
      ∃ fid ∈ ids, Fails files callDepth fid e := by
    intro ids
    induction ids with
    | nil =>
      intro cache h
      cases h
    | cons fid ids ih =>
      intro cache h
      rw [List.foldlM_cons] at h
      cases hd : depthOf files callDepth cache fid with
      | error e' =>
        rw [hd] at h
        cases h
        exact ⟨fid, List.mem_cons_self, depthOf_fails callDepth cache fid e hd⟩
      | ok r =>
        rw [hd] at h
        obtain ⟨fid', hm, hf⟩ := ih r.2 h
        exact ⟨fid', List.mem_cons_of_mem fid hm, hf⟩
  exact hfold ids _ h

end Depths

section Selection

/-- The key `(-depth, -indeg, id)`: the deeper one, then the one named more often, then the smaller id. -/
def Leads (depth indeg : PyStr → Nat) (a b : PyStr) : Prop :=
  depth b < depth a ∨ depth a = depth b ∧ (indeg b < indeg a ∨ indeg a = indeg b ∧ Json.strLe a b = true)

variable {depth indeg : PyStr → Nat} {a b c : PyStr}

theorem leads_iff : leads depth indeg a b = true ↔ Leads depth indeg a b := by
  simp [leads, Leads]

instance : Std.Total fun a b : PyStr => leads depth indeg a b = true := by
  refine ⟨fun a b => ?_⟩
  rw [leads_iff, leads_iff]
  unfold Leads
  have h := Json.strLe_total a b
  grind

instance : IsTrans PyStr fun a b => leads depth indeg a b = true := by
  refine ⟨fun a b c hab hbc => ?_⟩
  rw [leads_iff] at hab hbc ⊢
  unfold Leads at hab hbc ⊢
  have h : Json.strLe a b = true → Json.strLe b c = true → Json.strLe a c = true := Json.strLe_trans
  grind

theorem Leads.antisymm (hab : Leads depth indeg a b) (hba : Leads depth indeg b a) : a = b := by
  unfold Leads at hab hba
  have h : Json.strLe a b = true → Json.strLe b a = true → a = b := Json.strLe_antisymm
  grind

/-- Where no cycle is left, the loop takes the leading ready fact each time. -/
theorem orderFrom_greedy {predsIn : PyStr → List PyStr} (hac : Acyclic predsIn) :
    ∀ (n : Nat) (placed remaining : List PyStr), remaining.length = n →
      (∀ a ∈ remaining, ∀ p ∈ predsIn a, p ∈ placed ∨ p ∈ remaining) →
      From predsIn (Leads depth indeg) placed (orderFrom (leads depth indeg) predsIn n placed remaining) := by
  intro n
  induction n with
  | zero =>
    intro placed remaining _ _
    exact .nil placed
  | succ n ih =>
    intro placed remaining hlen hin
    have hne : remaining ≠ [] := List.ne_nil_of_length_eq_add_one hlen
    have hready : ∀ b, b ∈ remaining.filter (fun fid => (predsIn fid).all (· ∈ placed)) ↔
        b ∈ remaining ∧ Ready predsIn placed b := by
      intro b
      rw [List.mem_filter, List.all_eq_true]
      simp only [decide_eq_true_iff]
      rfl
    obtain ⟨first, hfirst⟩ := exists_ready hac hne hin
    have hsome : remaining.filter (fun fid => (predsIn fid).all (· ∈ placed)) ≠ [] :=
      List.ne_nil_of_mem ((hready first).mpr hfirst)
    rw [orderFrom, if_neg hsome]
    split
    · rename_i hs
      have hmem := (List.mem_insertionSort fun a b => leads depth indeg a b = true).mpr ((hready first).mpr hfirst)
      rw [hs] at hmem
      cases hmem
    · rename_i chosen rest hs
      have hchosen : chosen ∈ remaining ∧ Ready predsIn placed chosen := by
        rw [← hready, ← List.mem_insertionSort fun a b => leads depth indeg a b = true, hs]
        exact List.mem_cons_self
      have hlen' : (remaining.erase chosen).length = n := by
        rw [List.length_erase_of_mem hchosen.1, hlen, Nat.add_sub_cancel]
      refine .cons hchosen.2 (fun b hb hr => ?_) (ih _ _ hlen' fun a ha p hp => ?_)
      · have hb' : b ∈ remaining := List.mem_of_mem_erase ((orderFrom_perm hlen').mem_iff.mp hb)
        exact leads_iff.mp (head_leads (r := fun a b => leads depth indeg a b = true) hs ((hready b).mpr ⟨hb', hr⟩))
      · rw [List.mem_append, List.mem_singleton]
        by_cases hpc : p = chosen
        · exact .inl (.inr hpc)
        · rcases hin a (List.mem_of_mem_erase ha) p hp with h | h
          · exact .inl (.inl h)
          · exact .inr ((List.mem_erase_of_ne hpc).mpr h)

end Selection

section Canonical
variable [Runtime] {files files' : List (PyStr × PyStr)} {callDepth callDepth' : Nat} {order order' : List PyStr}

/-- Every fact once, each after its active predecessors, and each time the ready fact with the longest chain of
predecessors, then the one that is named most often as a predecessor, then the smallest id. -/
structure Canonical (files : List (PyStr × PyStr)) (order : List PyStr) : Prop where
  perm : order.Perm (files.map Prod.fst)
  placed : Placed (activePredecessors files) order
  next : ∃ depth : PyStr → Nat, (∀ fid ∈ order, Longest (predecessors files) fid (depth fid)) ∧
    ∀ before a after, order = before ++ a :: after → ∀ b ∈ after, Ready (activePredecessors files) before b →
      Leads depth (inDegree files (files.map Prod.fst)) a b

/-- The same files, but for the order in which they and their predecessors are listed. -/
structure Relisted (files files' : List (PyStr × PyStr)) : Prop where
  ids : (files.map Prod.fst).Perm (files'.map Prod.fst)
  predecessors : ∀ fid, (predecessors files fid).Perm (predecessors files' fid)

theorem inDegree_congr {ids ids' : List PyStr} (hids : ids.Perm ids')
    (hp : ∀ fid, (predecessors files fid).Perm (predecessors files' fid)) (fid : PyStr) :
    inDegree files ids fid = inDegree files' ids' fid :=
  ((List.Perm.flatMap_left ids fun a _ => hp a).trans (hids.flatMap_right _)).count_eq fid

/-- The order that comes out is greedy for the longest chains. -/
theorem orderedLoadBearing_greedy (hac : Acyclic (activePredecessors files))
    (h : orderedLoadBearing files callDepth = .ok order) : ∃ depth : PyStr → Nat,
      (∀ fid ∈ files.map Prod.fst, Longest (predecessors files) fid (depth fid)) ∧
      From (activePredecessors files) (Leads depth (inDegree files (files.map Prod.fst))) [] order := by
  have hsort := sortStr_perm (files.map Prod.fst)
  rw [orderedLoadBearing] at h
  obtain ⟨depth, hdepths, he⟩ := Checks.map_ok.mp h
  have hlongest := depths_longest (acyclic_predecessors hac) hdepths
  refine ⟨fun fid => (depth fid).getD 0, fun fid hf => hlongest fid (hsort.mem_iff.mpr hf), ?_⟩
  have hmem : ∀ a p, p ∈ (predecessors files a).filter (· ∈ sortStr (files.map Prod.fst)) ↔
      p ∈ activePredecessors files a := by
    intro a p
    rw [activePredecessors, List.mem_filter, List.mem_filter, decide_eq_true_iff, decide_eq_true_iff, hsort.mem_iff]
  have hac' : Acyclic fun a => (predecessors files a).filter (· ∈ sortStr (files.map Prod.fst)) :=
    hac.mono fun a p hp => (hmem a p).mp hp
  have hgreedy := @orderFrom_greedy (fun fid => (depth fid).getD 0)
    (inDegree files (sortStr (files.map Prod.fst))) _ hac' _ [] (sortStr (files.map Prod.fst)) rfl
    (fun a _ p hp => .inr (by simpa using (List.mem_filter.mp hp).2))
  rw [← he]
  refine hgreedy.congr hmem fun a _ b _ hl => ?_
  have hin : inDegree files (sortStr (files.map Prod.fst)) = inDegree files (files.map Prod.fst) :=
    funext (inDegree_congr hsort fun fid => List.Perm.refl _)
  rwa [hin] at hl

theorem orderedLoadBearing_canonical (hac : Acyclic (activePredecessors files))
    (h : orderedLoadBearing files callDepth = .ok order) : Canonical files order := by
  have hperm := orderedLoadBearing_perm h
  obtain ⟨depth, hlongest, hgreedy⟩ := orderedLoadBearing_greedy hac h
  refine ⟨hperm, fun before a after he => ?_, depth, fun fid hf => hlongest fid (hperm.mem_iff.mp hf),
    fun before a after he => ?_⟩
  · have hready := (hgreedy.next he).1
    rwa [List.nil_append] at hready
  · have hlead := (hgreedy.next he).2
    rwa [List.nil_append] at hlead

/-- Nothing but the facts and who names whom decides the order. -/
theorem orderedLoadBearing_relisted (hac : Acyclic (activePredecessors files)) (hr : Relisted files files')
    (h : orderedLoadBearing files callDepth = .ok order) (h' : orderedLoadBearing files' callDepth' = .ok order') :
    order = order' := by
  have hmem : ∀ a p, p ∈ activePredecessors files' a ↔ p ∈ activePredecessors files a := by
    intro a p
    rw [activePredecessors, activePredecessors, List.mem_filter, List.mem_filter, decide_eq_true_iff,
      decide_eq_true_iff, (hr.predecessors a).mem_iff, hr.ids.mem_iff]
  have hac' : Acyclic (activePredecessors files') := hac.mono fun a p hp => (hmem a p).mp hp
  have hp := orderedLoadBearing_perm h
  have hp' := orderedLoadBearing_perm h'
  obtain ⟨depth, hlongest, hgreedy⟩ := orderedLoadBearing_greedy hac h
  obtain ⟨depth', hlongest', hgreedy'⟩ := orderedLoadBearing_greedy hac' h'
  have hdepth : ∀ fid ∈ order', depth' fid = depth fid := by
    intro fid hf
    have hf' := hp'.mem_iff.mp hf
    have hl := hlongest' fid hf'
    refine Longest.unique ⟨?_, fun n hn => ?_⟩ (hlongest fid (hr.ids.mem_iff.mpr hf'))
    · exact hl.chain.congr fun a p hp => (hr.predecessors a).mem_iff.mpr hp
    · exact hl.le n (hn.congr fun a p hp => (hr.predecessors a).mem_iff.mp hp)
  have hin : inDegree files' (files'.map Prod.fst) = inDegree files (files.map Prod.fst) :=
    funext fun fid => (inDegree_congr hr.ids hr.predecessors fid).symm
  have hgreedy'' : From (activePredecessors files) (Leads depth (inDegree files (files.map Prod.fst))) [] order' := by
    refine hgreedy'.congr hmem fun a ha b hb hl => ?_
    rw [hin] at hl
    unfold Leads at hl ⊢
    rwa [hdepth a ha, hdepth b hb] at hl
  exact hgreedy.unique (fun a _ b _ => Leads.antisymm) hgreedy'' (hp.trans (hr.ids.trans hp'.symm))

/-- A chain has no more steps than there are facts. -/
theorem chain_le (hac : Acyclic (activePredecessors files)) {n : Nat} {fid : PyStr}
    (h : Chain (predecessors files) n fid) : n ≤ files.length := by
  obtain ⟨l, rfl, hn, hne, -⟩ := exists_distinct (acyclic_predecessors hac) h
  have hsub : l ⊆ files.map Prod.fst := by
    intro x hx
    obtain ⟨p, hp⟩ := List.exists_mem_of_ne_nil _ (hne x hx)
    exact active_of_predecessor hp
  have hle := (hn.subperm hsub).length_le
  rwa [List.length_map] at hle

/-- Ids as the graph stores them. -/
def SafeIds (files : List (PyStr × PyStr)) : Prop :=
  ∀ fid ∈ files.map Prod.fst, isSafeFactId fid = true ∧ ∀ p ∈ predecessors files fid, isSafeFactId p = true

/-- The interpreter's stack holds a call of `_depth` for every fact of a chain. -/
def Shallow (files : List (PyStr × PyStr)) (callDepth : Nat) : Prop :=
  ∀ fid ∈ files.map Prod.fst, ∀ n, Chain (predecessors files) n fid → n < callDepth

theorem Relisted.safeIds (h : Relisted files files') (hs : SafeIds files) : SafeIds files' := by
  intro fid hf
  obtain ⟨hsafe, hpreds⟩ := hs fid (h.ids.mem_iff.mpr hf)
  exact ⟨hsafe, fun p hp => hpreds p ((h.predecessors fid).mem_iff.mpr hp)⟩

theorem Relisted.shallow (h : Relisted files files') (hs : Shallow files callDepth) : Shallow files' callDepth := by
  intro fid hf n hn
  exact hs fid (h.ids.mem_iff.mpr hf) n (hn.congr fun a p hp => (h.predecessors a).mem_iff.mpr hp)

/-- Nothing but a name that is no safe id, or a chain as long as the stack, keeps the order from being found. -/
theorem orderedLoadBearing_returns (hs : SafeIds files) (hd : Shallow files callDepth) :
    ∃ order, orderedLoadBearing files callDepth = .ok order := by
  cases h : orderedLoadBearing files callDepth with
  | ok order => exact ⟨order, rfl⟩
  | error e =>
    have hfails : ∃ fid ∈ files.map Prod.fst, Fails files callDepth fid e := by
      rw [orderedLoadBearing] at h
      cases hdepths : depths files callDepth (sortStr (files.map Prod.fst)) with
      | ok depth =>
        rw [hdepths] at h
        cases h
      | error e' =>
        rw [hdepths] at h
        cases h
        obtain ⟨fid, hm, hf⟩ := depths_fails hdepths
        exact ⟨fid, (sortStr_perm _).mem_iff.mp hm, hf⟩
    obtain ⟨fid, hm, hf⟩ := hfails
    cases e with
    | recursion => exact absurd (hd fid hm _ (hf.recursion rfl)) (lt_irrefl _)
    | invalidId p =>
      obtain ⟨hbad, hp⟩ := hf.invalid p rfl
      have hsafe : isSafeFactId p = true := by
        rcases hp with rfl | hp
        · exact (hs p hm).1
        · obtain ⟨b, hb, -⟩ := Relation.TransGen.head'_iff.mp hp
          exact (hs b (active_of_predecessor hb)).2 p hb
      rw [hbad] at hsafe
      cases hsafe

end Canonical

section Examples

/-- Two facts, of which the one listed first follows the other. -/
def twoFacts : List (PyStr × PyStr) :=
  [(['a'], "---\npredecessors: [b]\n---\n".toList), (['b'], "---\n---\n".toList)]

theorem predecessors_twoFacts : @predecessors asciiRuntime twoFacts ['a'] = [['b']] ∧
    @predecessors asciiRuntime twoFacts ['b'] = [] := by
  decide +kernel

theorem acyclic_twoFacts : Acyclic (@activePredecessors asciiRuntime twoFacts) := by
  refine acyclic_of_rank (fun fid => if fid = ['a'] then 1 else 0) fun a p hp => ?_
  have hnamed := (List.mem_filter.mp hp).1
  have hactive : a ∈ [['a'], ['b']] := @active_of_predecessor a asciiRuntime twoFacts p hnamed
  simp only [List.mem_cons, List.not_mem_nil, or_false] at hactive
  rcases hactive with rfl | rfl
  · rw [predecessors_twoFacts.1, List.mem_singleton] at hnamed
    rw [hnamed]
    decide
  · rw [predecessors_twoFacts.2] at hnamed
    cases hnamed

theorem shallow_twoFacts : @Shallow asciiRuntime twoFacts 1000 := by
  intro fid _ n hn
  have hle := @chain_le asciiRuntime twoFacts acyclic_twoFacts n fid hn
  have hlen : twoFacts.length = 2 := rfl
  omega

/-- The names of a chain of facts, in the order of the ids. -/
def chainNames (n : Nat) : List PyStr :=
  ("01234".toList.flatMap fun a => "0123456789".toList.map fun b => [a, b]).take n

/-- Each fact of the chain follows the one after it. -/
def chainFiles (n : Nat) : List (PyStr × PyStr) :=
  (chainNames n).zip (((chainNames n).tail ++ [[]]).map fun p =>
    "---\npredecessors: [".toList ++ p ++ "]\n---\n".toList)

/-- The place of a name in the chain. -/
def chainPlace (name : PyStr) : Nat := name.foldl (fun n c => 10 * n + (c.toNat - 48)) 0

/-- Whether the recursion has run into the end of the stack. -/
def overflows : Except BundleError (List PyStr) → Bool
  | .error .recursion => true
  | _ => false

theorem chain_names : ((chainFiles 41).map fun file => chainPlace file.1) = List.range' 0 41 := by decide +kernel

theorem chain_places : ((chainFiles 41).map Prod.fst).all (fun a =>
    (@predecessors asciiRuntime (chainFiles 41) a).all fun p => decide (chainPlace a < chainPlace p ∧
      chainPlace p < 100)) = true := by
  decide +kernel

theorem chain_overflows : overflows (@orderedLoadBearing asciiRuntime (chainFiles 41) 40) = true := by
  decide +kernel

end Examples
end Danus.HumanSummary
