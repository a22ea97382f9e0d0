import Danus.FactGraph.RoundTrip
import Danus.Lib.Sweeps

/-! The order in which a paper embeds the facts of a graph. -/
namespace Danus.WritePaper.FactOrder
open Python FactGraph Sweeps

/-- What the paper tools raise. -/
inductive AssembleError where
  | value (message : PyStr)
  | targetUnset (message : PyStr)
  deriving DecidableEq

/-- `HEADLINE_SOURCES` -/
inductive HeadlineSource where
  | arg | brief | target | unset
  deriving DecidableEq

/-- `resolve_headline`, over the ids in the brief and in `TARGET.md`. -/
def resolveHeadline (fromBrief fromTarget : List PyStr) (headline : Option (List PyStr)) :
    List PyStr × HeadlineSource :=
  if headline.getD [] ≠ [] then (headline.getD [], .arg)
  else if fromBrief ≠ [] then (fromBrief, .brief)
  else if fromTarget ≠ [] then (fromTarget, .target)
  else ([], .unset)

section Graph
variable [Runtime]

/-- The active files of a graph by their ids. `add` takes no fact whose predecessors are not all active, a
revocation takes every fact that builds on the one revoked, and nobody reads while one is pending. -/
structure Active where
  files : List (PyStr × PyStr)
  ids_nodup : (files.map Prod.fst).Nodup
  safe : ∀ file ∈ files, isSafeFactId file.1 = true
  closed : ∀ file ∈ files, ∀ p ∈ (parseFrontmatter file.2).predecessors, p ∈ files.map Prod.fst

namespace Active

/-- `list` -/
def list (fg : Active) : List PyStr := sortStr (fg.files.map Prod.fst)

/-- `get_raw` of an id that is one safe path segment -/
def getRaw (fg : Active) (factId : PyStr) : Option PyStr := fg.files.lookup factId

/-- `predecessors` -/
def predecessors (fg : Active) (factId : PyStr) : List PyStr :=
  (parseFrontmatter ((fg.getRaw factId).getD [])).predecessors

variable {fg : Active} {a p : PyStr}

theorem mem_list : a ∈ fg.list ↔ a ∈ fg.files.map Prod.fst := (sortStr_perm _).mem_iff

theorem list_nodup (fg : Active) : fg.list.Nodup := (sortStr_perm _).nodup_iff.mpr fg.ids_nodup

/-- Only an active fact has predecessors, and they are active. -/
theorem mem_list_of_predecessor (hp : p ∈ fg.predecessors a) : a ∈ fg.list ∧ p ∈ fg.list := by
  rw [predecessors, getRaw] at hp
  rw [mem_list, mem_list]
  cases hraw : fg.files.lookup a with
  | none =>
    rw [hraw] at hp
    cases hp
  | some raw =>
    rw [hraw] at hp
    have hmem := mem_of_lookup_eq_some hraw
    exact ⟨List.mem_map_of_mem hmem, fg.closed _ hmem p hp⟩

/-- What active seeds reach is active. -/
theorem mem_list_of_reached {seeds : List PyStr} (hs : ∀ s ∈ seeds, s ∈ fg.list)
    (h : Reached fg.predecessors seeds a) : a ∈ fg.list :=
  h.closed hs fun _ _ _ hp => (mem_list_of_predecessor hp).2

/-- `add` of a fact whose predecessors are active. -/
def add (fg : Active) (fact : Fact) (hguard : fact.Guarded) (hnew : fact.factId ∉ fg.list)
    (hid : isSafeFactId fact.factId = true) (hpreds : ∀ p ∈ fact.predecessors, p ∈ fg.list) : Active where
  files := fg.files ++ [(fact.factId, serializeFact fact)]
  ids_nodup := by
    rw [List.map_append, List.nodup_append]
    refine ⟨fg.ids_nodup, List.nodup_singleton _, fun a ha b hb he => hnew ?_⟩
    have hb : b = fact.factId := List.mem_singleton.mp hb
    rw [mem_list, ← hb, ← he]
    exact ha
  safe file hf := by
    rcases List.mem_append.mp hf with hf | hf
    · exact fg.safe file hf
    · rw [List.mem_singleton.mp hf]
      exact hid
  closed file hf p hp := by
    rw [List.map_append, List.mem_append]
    rcases List.mem_append.mp hf with hf | hf
    · exact .inl (fg.closed file hf p hp)
    · rw [List.mem_singleton.mp hf, parseFrontmatter_serializeFact hguard] at hp
      exact .inl (mem_list.mp (hpreds p hp))

/-- The facts that a revocation leaves, where it takes whatever builds on what it takes. -/
def revoke (fg : Active) (gone : List PyStr)
    (hdown : ∀ a, ∀ p ∈ fg.predecessors a, p ∈ gone → a ∈ gone) : Active where
  files := fg.files.filter fun file => file.1 ∉ gone
  ids_nodup := fg.ids_nodup.sublist (List.filter_sublist.map _)
  safe file hf := fg.safe file (List.mem_filter.mp hf).1
  closed file hf p hp := by
    obtain ⟨hmem, hkept⟩ := List.mem_filter.mp hf
    obtain ⟨q, hq, rfl⟩ := List.mem_map.mp (fg.closed file hmem p hp)
    refine List.mem_map_of_mem (List.mem_filter.mpr ⟨hq, decide_eq_true fun hgone => ?_⟩)
    refine of_decide_eq_true hkept (hdown file.1 q.1 ?_ hgone)
    rw [predecessors, getRaw, lookup_eq_some_of_nodup fg.ids_nodup hmem]
    exact hp

end Active

/-- `preds_in` -/
def predsIn (fg : Active) (wanted : List PyStr) (fid : PyStr) : List PyStr :=
  (fg.predecessors fid).filter (· ∈ wanted)

/-- `_toposort_with_predecessors`; `placed` holds what is in `ordered`. -/
def toposortWithPredecessors (fg : Active) (seeds : Option (List PyStr)) :
    Except AssembleError (List PyStr) :=
  let allIds := fg.list
  let sorted (wanted : List PyStr) : List PyStr := sweeps (predsIn fg wanted) [] wanted
  match seeds with
  | none => .ok (sorted allIds)
  | some seeds =>
    match closeOver allIds fg.predecessors seeds.reverse [] with
    | .error fid =>
      .error (.value ("unknown fact id in headline: ".toList ++ Runtime.reprText fid))
    | .ok wantedSet => .ok (sorted (allIds.filter (· ∈ wantedSet)))

/-- `closure_order` -/
def closureOrder (fg : Active) (fromBrief fromTarget : List PyStr) (headline : Option (List PyStr)) :
    Except AssembleError (List PyStr) :=
  match headline with
  | some headline => toposortWithPredecessors fg (some headline)
  | none =>
    let (headline, source) := resolveHeadline fromBrief fromTarget none
    if source = .unset then
      .error (.targetUnset ("no paper target is set: pass an explicit headline, set " ++
        "headline_fact_ids in PROJECT_BRIEF.md, or run " ++
        "`danus finalize <project> <fact_id>` to record TARGET.md").toList)
    else toposortWithPredecessors fg (some headline)

/-- `repr` of a list of strings -/
def reprList (ids : List PyStr) : PyStr :=
  "[".toList ++ joinWith ", ".toList (ids.map Runtime.reprText) ++ "]".toList

/-- `selected_partition` -/
def selectedPartition (fg : Active) (factIds : List PyStr) :
    Except AssembleError (List PyStr × List PyStr) :=
  let unknown := factIds.filter (· ∉ fg.list)
  if unknown ≠ [] then
    .error (.value ("unknown fact id(s) in fact_ids: ".toList ++ reprList unknown))
  else (toposortWithPredecessors fg none).map fun globalOrder =>
    let ref := (factIds.flatMap fg.predecessors).filter (· ∉ factIds)
    (globalOrder.filter (· ∈ factIds), globalOrder.filter (· ∈ ref))

end Graph

section Orders
variable [Runtime] {fg : Active} {seeds seeds' wanted order : List PyStr}

/-- The order holds just these facts, once each, and each follows all its predecessors. -/
structure Topological (fg : Active) (wanted : PyStr → Prop) (order : List PyStr) : Prop where
  nodup : order.Nodup
  mem : ∀ a, a ∈ order ↔ wanted a
  placed : Placed fg.predecessors order

/-- The sweeps order any part of the graph that has the predecessors of what it has. -/
theorem topological_sweeps (hac : Acyclic fg.predecessors) (hn : wanted.Nodup)
    (hclosed : ∀ a ∈ wanted, ∀ p ∈ fg.predecessors a, p ∈ wanted) :
    Topological fg (· ∈ wanted) (sweeps (predsIn fg wanted) [] wanted) := by
  have hperm : (sweeps (predsIn fg wanted) [] wanted).Perm wanted := sweeps_perm [] wanted
  have hplaced : Placed (predsIn fg wanted) (sweeps (predsIn fg wanted) [] wanted) := by
    refine sweeps_placed (hac.mono fun a p hp => (List.mem_filter.mp hp).1) placed_nil fun a ha p hp => .inr ?_
    simpa using (List.mem_filter.mp hp).2
  refine ⟨hperm.nodup_iff.mpr hn, fun a => hperm.mem_iff, fun before a after he p hp => ?_⟩
  have ha : a ∈ sweeps (predsIn fg wanted) [] wanted := by simp [he]
  refine hplaced before a after he p (List.mem_filter.mpr ⟨hp, ?_⟩)
  simpa using hclosed a (hperm.mem_iff.mp ha) p hp

/-- The whole graph in order. -/
theorem toposort_all (hac : Acyclic fg.predecessors) :
    ∃ order, toposortWithPredecessors fg none = .ok order ∧ Topological fg (· ∈ fg.list) order :=
  ⟨_, rfl, topological_sweeps hac fg.list_nodup fun _ _ _ hp => (Active.mem_list_of_predecessor hp).2⟩

/-- The closure of active seeds in order. -/
theorem toposort_seeds (hac : Acyclic fg.predecessors) (hs : ∀ s ∈ seeds, s ∈ fg.list) :
    ∃ order, toposortWithPredecessors fg (some seeds) = .ok order ∧
      Topological fg (Reached fg.predecessors seeds) order := by
  obtain ⟨wantedSet, hclose⟩ := closeOver_ok fun a => Active.mem_list_of_reached (a := a) hs
  have hmem : ∀ a, a ∈ fg.list.filter (· ∈ wantedSet) ↔ Reached fg.predecessors seeds a := by
    intro a
    rw [List.mem_filter, decide_eq_true_eq, mem_closeOver hclose]
    exact ⟨And.right, fun h => ⟨Active.mem_list_of_reached hs h, h⟩⟩
  have htop := topological_sweeps hac (fg.list_nodup.filter (fun a => decide (a ∈ wantedSet)))
    fun a ha p hp => (hmem p).mpr (((hmem a).mp ha).step hp)
  refine ⟨_, ?_, htop.nodup, fun a => (htop.mem a).trans (hmem a), htop.placed⟩
  rw [toposortWithPredecessors, hclose]

/-- Seeds with the same members reach the same facts, in the same order. -/
theorem toposort_congr (h : ∀ s, s ∈ seeds' ↔ s ∈ seeds) (hs : ∀ s ∈ seeds, s ∈ fg.list) :
    toposortWithPredecessors fg (some seeds') = toposortWithPredecessors fg (some seeds) := by
  obtain ⟨wanted, hw⟩ := closeOver_ok fun a => Active.mem_list_of_reached (a := a) hs
  obtain ⟨wanted', hw'⟩ := closeOver_ok fun a =>
    @Active.mem_list_of_reached _ fg a _ fun s hm => hs s ((h s).mp hm)
  have hsame : ∀ a, a ∈ wanted' ↔ a ∈ wanted := by
    intro a
    rw [mem_closeOver hw, mem_closeOver hw']
    exact ⟨fun hr => hr.mono fun s hm => (h s).mp hm, fun hr => hr.mono fun s hm => (h s).mpr hm⟩
  have hfilter : fg.list.filter (· ∈ wanted') = fg.list.filter (· ∈ wanted) :=
    List.filter_congr fun a _ => by simp [hsame a]
  simp only [toposortWithPredecessors, hw, hw', hfilter]

/-- The selection and what it cites are two disjoint parts of the order of the whole graph. -/
theorem selectedPartition_exact (hac : Acyclic fg.predecessors) (hs : ∀ s ∈ seeds, s ∈ fg.list) :
    ∃ globalOrder selected referenced, Topological fg (· ∈ fg.list) globalOrder ∧
      selectedPartition fg seeds = .ok (selected, referenced) ∧
      selected.Sublist globalOrder ∧ referenced.Sublist globalOrder ∧ List.Disjoint selected referenced ∧
      (∀ a, a ∈ selected ↔ a ∈ seeds) ∧
      ∀ a, a ∈ referenced ↔ a ∉ seeds ∧ ∃ s ∈ seeds, a ∈ fg.predecessors s := by
  obtain ⟨globalOrder, hok, htop⟩ := toposort_all hac
  let ref := (seeds.flatMap fg.predecessors).filter (· ∉ seeds)
  have hunknown : seeds.filter (· ∉ fg.list) = [] :=
    List.filter_eq_nil_iff.mpr fun s hm => by simpa using hs s hm
  have href : ∀ a, a ∈ ref ↔ a ∉ seeds ∧ ∃ s ∈ seeds, a ∈ fg.predecessors s := by
    intro a
    rw [List.mem_filter, List.mem_flatMap, decide_eq_true_eq, and_comm]
  refine ⟨globalOrder, globalOrder.filter (· ∈ seeds), globalOrder.filter (· ∈ ref), htop, ?_,
    List.filter_sublist, List.filter_sublist, fun a ha hr => ?_, fun a => ?_, fun a => ?_⟩
  · rw [selectedPartition, hunknown, hok]
    rfl
  · exact ((href a).mp (of_decide_eq_true (List.mem_filter.mp hr).2)).1
      (of_decide_eq_true (List.mem_filter.mp ha).2)
  · rw [List.mem_filter, decide_eq_true_eq, htop.mem]
    exact ⟨And.right, fun hm => ⟨hs a hm, hm⟩⟩
  · rw [List.mem_filter, decide_eq_true_eq, htop.mem, href]
    refine ⟨And.right, fun hm => ⟨?_, hm⟩⟩
    obtain ⟨-, s, -, hp⟩ := hm
    exact (Active.mem_list_of_predecessor hp).2

/-- The order of a closure, the same for any seeds with the same members, and the parts of a selection. -/
theorem closureOrder_exact (fg : Active) (hac : Acyclic fg.predecessors) (fromBrief fromTarget : List PyStr) :
    (∀ seeds : List PyStr, (∀ s ∈ seeds, s ∈ fg.list) →
      ∃ order, closureOrder fg fromBrief fromTarget (some seeds) = .ok order ∧
        Topological fg (Reached fg.predecessors seeds) order ∧
        ∀ seeds', (∀ s, s ∈ seeds' ↔ s ∈ seeds) →
          closureOrder fg fromBrief fromTarget (some seeds') = .ok order) ∧
    ∀ factIds : List PyStr, (∀ f ∈ factIds, f ∈ fg.list) →
      ∃ globalOrder selected referenced, Topological fg (· ∈ fg.list) globalOrder ∧
        selectedPartition fg factIds = .ok (selected, referenced) ∧
        selected.Sublist globalOrder ∧ referenced.Sublist globalOrder ∧
        List.Disjoint selected referenced ∧ (∀ a, a ∈ selected ↔ a ∈ factIds) ∧
        ∀ a, a ∈ referenced ↔ a ∉ factIds ∧ ∃ f ∈ factIds, a ∈ fg.predecessors f := by
  refine ⟨fun seeds hs => ?_, fun factIds hf => selectedPartition_exact hac hf⟩
  obtain ⟨order, hok, htop⟩ := toposort_seeds hac hs
  exact ⟨order, hok, htop, fun seeds' h => (toposort_congr h hs).trans hok⟩

end Orders

section TwoFacts

/-- The file of a fact with these predecessors. -/
def fileText (predecessors : String) : PyStr :=
  ("---\npredecessors: [" ++ predecessors ++ "]\n---\n").toList

/-- A fact, and the lemma that it builds on. -/
def twoFiles : List (PyStr × PyStr) := [("a".toList, fileText "b"), ("b".toList, fileText "")]

theorem parse_twoFiles : (@parseFrontmatter asciiRuntime (fileText "b")).predecessors = ["b".toList] ∧
    (@parseFrontmatter asciiRuntime (fileText "")).predecessors = [] := by decide +kernel

@[reducible] def twoFacts : @Active asciiRuntime :=
  @Active.mk asciiRuntime twoFiles (by decide) (by decide) (by
    intro file hf p hp
    simp only [twoFiles, List.mem_cons, List.not_mem_nil, or_false] at hf
    rcases hf with rfl | rfl
    · rw [parse_twoFiles.1] at hp
      rw [List.mem_singleton.mp hp]
      decide
    · rw [parse_twoFiles.2] at hp
      cases hp)

theorem acyclic_twoFacts : Acyclic (@Active.predecessors asciiRuntime twoFacts) := by
  refine acyclic_of_rank (fun a => if a = "a".toList then 1 else 0) fun a p hp => ?_
  change p ∈ (@parseFrontmatter asciiRuntime ((twoFiles.lookup a).getD [])).predecessors at hp
  by_cases ha : a = "a".toList
  · rw [ha, show twoFiles.lookup "a".toList = some (fileText "b") from rfl, Option.getD_some,
      parse_twoFiles.1] at hp
    rw [if_pos ha, List.mem_singleton.mp hp]
    decide
  · by_cases hb : a = "b".toList
    · rw [hb, show twoFiles.lookup "b".toList = some (fileText "") from rfl, Option.getD_some,
        parse_twoFiles.2] at hp
      cases hp
    · have hnone : twoFiles.lookup a = none := by
        rw [twoFiles, lookup_cons_of_ne ha, lookup_cons_of_ne hb, List.lookup_nil]
      rw [hnone] at hp
      cases hp

theorem closureOrder_exact_twoFacts :
    ∃ order, @closureOrder asciiRuntime twoFacts [] [] (some ["a".toList, "a".toList]) = .ok order ∧
      @Topological asciiRuntime twoFacts
        (Reached (@Active.predecessors asciiRuntime twoFacts) ["a".toList, "a".toList]) order := by
  have h := (@closureOrder_exact asciiRuntime twoFacts acyclic_twoFacts [] []).1 ["a".toList, "a".toList]
  obtain ⟨order, hok, htop, -⟩ := h fun s hs => by
    rw [@Active.mem_list asciiRuntime]
    rw [List.mem_cons, List.mem_singleton, or_self] at hs
    rw [hs]
    decide
  exact ⟨order, hok, htop⟩

end TwoFacts
end Danus.WritePaper.FactOrder
