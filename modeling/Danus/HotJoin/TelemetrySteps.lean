import Danus.HotJoin.ReasoningTelemetry
import Danus.Lib.Checks

/-! What each notification does to the telemetry of a turn, and when it degrades nothing. -/
namespace Danus.HotJoin.Telemetry
open Python

/-- The telemetry that a method leaves, raised or not. -/
def left : Outcome → Bandwidth
  | .ok s => s
  | .error s => s

/-- The items and intervals of `s` are those of `t`, which may have more reasons. -/
structure Kept (s t : Bandwidth) : Prop where
  starts : t.starts = s.starts
  completedIds : t.completedIds = s.completedIds
  itemCounts : t.itemCounts = s.itemCounts
  intervals : t.intervals = s.intervals
  usage : t.usageByResumeTrigger = s.usageByResumeTrigger
  reasons : s.degradationReasons ⊆ t.degradationReasons

namespace Kept
variable {s t u : Bandwidth}

theorem refl (s : Bandwidth) : Kept s s := ⟨rfl, rfl, rfl, rfl, rfl, fun _ h => h⟩

theorem trans (h : Kept s t) (h' : Kept t u) : Kept s u where
  starts := h'.starts.trans h.starts
  completedIds := h'.completedIds.trans h.completedIds
  itemCounts := h'.itemCounts.trans h.itemCounts
  intervals := h'.intervals.trans h.intervals
  usage := h'.usage.trans h.usage
  reasons := fun _ hr => h'.reasons (h.reasons hr)

theorem degrade (h : Kept s t) (reason : Reason) : Kept s (t.degrade reason) :=
  h.trans ⟨rfl, rfl, rfl, rfl, rfl, fun _ hr => List.mem_insert_of_mem hr⟩

theorem addInterval (h : Kept s t) (category : Category) (start stop : ℕ) :
    Kept (s.addInterval category start stop) (t.addInterval category start stop) where
  starts := h.starts
  completedIds := h.completedIds
  itemCounts := h.itemCounts
  intervals := by simp only [Bandwidth.addInterval, h.intervals]
  usage := h.usage
  reasons := h.reasons

theorem popStart (h : Kept s t) (id : PyStr) : Kept (s.popStart id) (t.popStart id) where
  starts := by simp only [Bandwidth.popStart, h.starts]
  completedIds := h.completedIds
  itemCounts := h.itemCounts
  intervals := h.intervals
  usage := h.usage
  reasons := h.reasons

end Kept

@[simp] theorem degrade_ne_nil (reason : Reason) (s : Bandwidth) :
    (s.degrade reason).degradationReasons ≠ [] :=
  List.ne_nil_of_mem (List.mem_insert_self : reason ∈ s.degradationReasons.insert reason)

theorem eraseKey_of_lookup_none {α β : Type} [BEq α] [LawfulBEq α] {l : List (α × β)} {a : α}
    (h : l.lookup a = none) : eraseKey a l = l := by
  refine List.filter_eq_self.mpr fun p hp => ?_
  rw [bne_iff_ne]
  rintro rfl
  exact notMem_of_lookup_eq_none h hp

section Completion
variable {item completedAt : RawJson} {id type : PyStr} {category : Category} {source : Source}
  {s t : Bandwidth} {status : PyStr}

theorem kept_countOperation (category : Category) (status : PyStr) (source : Source) (s : Bandwidth) :
    Kept s (s.countOperation category status source) := by
  have hcounted : Kept s (if category ∈ toolOrControlCategories ∨ category = .collabOther ∨
      category = .subagentActivity then
        { s with operationCounts := bump (category, status) s.operationCounts } else s) := by
    split_ifs
    · exact ⟨rfl, rfl, rfl, rfl, rfl, fun _ h => h⟩
    · exact .refl s
  cases source with
  | notification => exact hcounted.trans ⟨rfl, rfl, rfl, rfl, rfl, fun _ h => h⟩
  | terminal => exact hcounted.trans ⟨rfl, rfl, rfl, rfl, rfl, fun _ h => List.mem_insert_of_mem h⟩

/-- An interval of a completion: from the recorded start, or as long as the item says it took. -/
def Spans (item completedAt : RawJson) (started : Option (ℕ × PyStr)) (start stop : ℕ) : Prop :=
  nonnegativeMs (some completedAt) = some stop ∧ start ≤ stop ∧
    ((∃ type, started = some (start, type)) ∨
      ∃ duration, nonnegativeMs (item.get? "durationMs".toList) = some duration ∧ start + duration = stop)

theorem recordInterval_cases (item completedAt : RawJson) (type : PyStr) (category : Category)
    (source : Source) (started : Option (ℕ × PyStr)) (s : Bandwidth) :
    let t := s.recordInterval item type category source (nonnegativeMs (some completedAt)) started
    Kept s t ∨ ∃ start stop, Spans item completedAt started start stop ∧
      Kept (s.addInterval category start stop) t := by
  cases hcompleted : nonnegativeMs (some completedAt) with
  | none =>
    refine .inl ?_
    cases source with
    | notification => exact ⟨rfl, rfl, rfl, rfl, rfl, fun _ h => List.mem_insert_of_mem h⟩
    | terminal =>
      rw [Bandwidth.recordInterval]
      split_ifs
      · exact (Kept.refl s).degrade _
      · exact .refl s
  | some completed =>
    cases started with
    | none =>
      have hmissing : Kept s (Bandwidth.degrade .missingItemStartedNotification
          { s with missingStartCount := s.missingStartCount + 1 }) :=
        ⟨rfl, rfl, rfl, rfl, rfl, fun _ h => List.mem_insert_of_mem h⟩
      rw [Bandwidth.recordInterval]
      dsimp only
      split
      · rename_i duration hduration
        split_ifs with hle
        · refine .inr ⟨completed - duration, completed, ⟨hcompleted, by omega, .inr ⟨duration, hduration, by omega⟩⟩, ?_⟩
          exact ⟨rfl, rfl, rfl, rfl, rfl, fun _ h => List.mem_insert_of_mem h⟩
        · exact .inl hmissing
      · exact .inl hmissing
    | some started =>
      obtain ⟨startedMs, startedType⟩ := started
      have htyped : Kept s (if startedType = type then s
          else s.degrade .itemTypeChangedDuringLifecycle) := by
        split_ifs
        · exact .refl s
        · exact (Kept.refl s).degrade _
      rw [Bandwidth.recordInterval]
      dsimp only
      by_cases hlt : completed < startedMs
      · rw [if_pos hlt]
        exact .inl (htyped.degrade _)
      · rw [if_neg hlt]
        refine .inr ⟨startedMs, completed, ⟨hcompleted, by omega, .inl ⟨startedType, rfl⟩⟩, ?_⟩
        exact htyped.addInterval category startedMs completed

theorem kept_countSpawn (item : RawJson) (s : Bandwidth) : Kept s (left (s.countSpawn item)) := by
  have hcounted : Kept s { s with branchSpawnCount := s.branchSpawnCount + 1 } :=
    ⟨rfl, rfl, rfl, rfl, rfl, fun _ h => h⟩
  rw [Bandwidth.countSpawn]
  dsimp only
  split
  · split
    · exact hcounted
    · split_ifs
      · exact hcounted.trans ⟨rfl, rfl, rfl, rfl, rfl, fun _ h => h⟩
      · exact hcounted.trans ⟨rfl, rfl, rfl, rfl, rfl, fun _ h => List.mem_insert_of_mem h⟩
  · exact hcounted.degrade _

theorem left_map {x : Outcome} {f : Bandwidth → Bandwidth} (hx : Kept s (left x))
    (hf : ∀ t, Kept t (f t)) : Kept s (left (x.map f)) := by
  cases x with
  | error t => exact hx
  | ok t => exact hx.trans (hf t)

theorem kept_finishCompletion (item : RawJson) (category : Category) (source : Source) (s : Bandwidth) :
    Kept s (left (s.finishCompletion item category source)) := by
  have hcompacted : Kept s (if category = .contextCompaction then
      { s with compactionCount := s.compactionCount + 1 } else s) := by
    split_ifs
    · exact ⟨rfl, rfl, rfl, rfl, rfl, fun _ h => h⟩
    · exact .refl s
  rw [Bandwidth.finishCompletion]
  refine left_map ?_ fun t => ?_
  · by_cases hspawn : category = .collabSpawn ∧ itemStatus item = "completed".toList
    · rw [if_pos hspawn]
      exact hcompacted.trans (kept_countSpawn item _)
    · rw [if_neg hspawn]
      exact hcompacted
  · split_ifs
    · exact ⟨rfl, rfl, rfl, rfl, rfl, fun _ h => h⟩
    · exact .refl t

/-- A tracked item that has no category: its server is a list or a `dict`. -/
def Strands (s : Bandwidth) (item : RawJson) : Prop :=
  ∃ id type, itemIdentity item = .ok (some (id, type)) ∧ id ∉ s.completedIds ∧
    (s.starts.lookup id).isSome ∧ ∃ e, itemCategory item = .error e

/-- An item that is completed now. -/
structure Fresh (s : Bandwidth) (item : RawJson) (id type : PyStr) : Prop where
  identity : itemIdentity item = .ok (some (id, type))
  notCompleted : id ∉ s.completedIds
  room : (s.starts.lookup id).isSome ∨ s.tracked < maxTrackedItems

/-- What the observation of a completion does. -/
inductive Observed (s : Bandwidth) (item completedAt : RawJson) (t : Bandwidth) : Prop
  | kept (hkept : Kept s t)
  | completed (id type : PyStr) (hfresh : Fresh s item id type)
      (hkept : Kept ((s.complete id type).popStart id) t)
  | measured (id type : PyStr) (category : Category) (start stop : ℕ) (hfresh : Fresh s item id type)
      (hspans : Spans item completedAt (s.starts.lookup id) start stop)
      (hkept : Kept (((s.complete id type).popStart id).addInterval category start stop) t)
  | stranded (id type : PyStr) (hstrands : Strands s item) (hkept : Kept (s.complete id type) t)

/-- What is recorded besides commutes with the completion and the removal of the start. -/
theorem observeCompletion_observed (item completedAt : RawJson) (source : Source) (s : Bandwidth) :
    Observed s item completedAt (left (s.observeCompletion item completedAt source)) := by
  rw [Bandwidth.observeCompletion]
  split
  · exact .kept (.refl s)
  · exact .kept ⟨rfl, rfl, rfl, rfl, rfl, fun _ h => List.mem_insert_of_mem h⟩
  · rename_i id type hidentity
    by_cases hcompleted : id ∈ s.completedIds
    · rw [if_pos hcompleted]
      exact .kept ⟨rfl, rfl, rfl, rfl, rfl, fun _ h => h⟩
    rw [if_neg hcompleted]
    by_cases hroom : s.starts.lookup id = none ∧ maxTrackedItems ≤ s.tracked
    · rw [if_pos hroom]
      exact .kept ⟨rfl, rfl, rfl, rfl, rfl, fun _ h => List.mem_insert_of_mem h⟩
    · rw [if_neg hroom]
      have hfresh : Fresh s item id type := by
        refine ⟨hidentity, hcompleted, ?_⟩
        rw [not_and_or, ← ne_eq, Option.ne_none_iff_isSome] at hroom
        exact hroom.imp_right fun h => by omega
      split
      · rename_i e hcategory
        by_cases htracked : (s.starts.lookup id).isSome
        · exact .stranded id type ⟨id, type, hidentity, hcompleted, htracked, e, hcategory⟩ (.refl _)
        · -- An item that was not tracked has no start to remove.
          rw [Option.not_isSome_iff_eq_none] at htracked
          refine .completed id type hfresh ⟨?_, rfl, rfl, rfl, rfl, fun _ h => h⟩
          exact (eraseKey_of_lookup_none htracked).symm
      · rename_i category hcategory
        have hcounted := (kept_countOperation category (itemStatus item) source
          (s.complete id type)).popStart id
        have hfinish := kept_finishCompletion item category source
          ((((s.complete id type).countOperation category (itemStatus item) source).popStart
            id).recordInterval item type category source (nonnegativeMs (some completedAt))
              (s.starts.lookup id))
        rcases recordInterval_cases item completedAt type category source (s.starts.lookup id)
          (((s.complete id type).countOperation category (itemStatus item) source).popStart id) with
          h | ⟨start, stop, hspans, h⟩
        · exact .completed id type hfresh ((hcounted.trans h).trans hfinish)
        · exact .measured id type category start stop hfresh hspans
            (((hcounted.addInterval category start stop).trans h).trans hfinish)

theorem Observed.reasons (h : Observed s item completedAt t) :
    s.degradationReasons ⊆ t.degradationReasons := by
  cases h with
  | kept hkept => exact hkept.reasons
  | completed id type _ hkept => exact hkept.reasons
  | measured id type category start stop _ _ hkept => exact hkept.reasons
  | stranded id type _ hkept => exact hkept.reasons

theorem reconcileItem_observed (item : RawJson) (s : Bandwidth) :
    Observed s item .null (left (s.reconcileItem item)) := by
  rw [Bandwidth.reconcileItem]
  split
  · exact .kept (.refl s)
  · exact .kept ((Kept.refl s).degrade _)
  · split_ifs
    · exact .kept (.refl s)
    · exact observeCompletion_observed item .null .terminal s

theorem reconcileItems_reasons (items : List RawJson) (s : Bandwidth) :
    s.degradationReasons ⊆ (left (s.reconcileItems items)).degradationReasons := by
  induction items generalizing s with
  | nil => exact fun _ h => h
  | cons item items ih =>
    have hitem := (reconcileItem_observed item s).reasons
    rw [Bandwidth.reconcileItems]
    cases hr : s.reconcileItem item with
    | error t =>
      rw [hr] at hitem
      exact hitem
    | ok t =>
      rw [hr] at hitem
      exact fun r h => ih t (hitem h)

end Completion

theorem kept_handled (x : Outcome) : Kept (left x) (handled x) := by
  cases x with
  | ok s => exact .refl s
  | error s => exact ⟨rfl, rfl, rfl, rfl, rfl, fun _ h => List.mem_insert_of_mem h⟩

theorem kept_reconciled (x : Outcome) : Kept (left x) (reconciled x) := by
  cases x with
  | ok s => exact .refl s
  | error s => exact (Kept.refl s).degrade _

theorem Kept.reasons_eq_nil {s t : Bandwidth} (h : Kept s t) (ht : t.degradationReasons = []) :
    s.degradationReasons = [] :=
  List.eq_nil_iff_forall_not_mem.mpr fun r hr => by simpa [ht] using h.reasons hr

/-- A method that degrades nothing has not raised. -/
theorem handled_eq_nil {x : Outcome} (h : (handled x).degradationReasons = []) :
    ∃ s, x = .ok s ∧ s.degradationReasons = [] := by
  cases x with
  | ok s => exact ⟨s, rfl, h⟩
  | error s => exact absurd h (degrade_ne_nil _ _)

theorem reconciled_eq_nil {x : Outcome} (h : (reconciled x).degradationReasons = []) :
    ∃ s, x = .ok s ∧ s.degradationReasons = [] := by
  cases x with
  | ok s => exact ⟨s, rfl, h⟩
  | error s => exact absurd h (degrade_ne_nil _ _)

section Clean
variable {item completedAt startedAt : RawJson} {s t : Bandwidth}

/-- A start that is well formed, within the limit, and agrees with what is known of its item. -/
def CleanStart (s : Bandwidth) (item startedAt : RawJson) : Prop :=
  ∃ id type started, itemIdentity item = .ok (some (id, type)) ∧
    nonnegativeMs (some startedAt) = some started ∧
      (s.starts.lookup id = some (started, type) ∨
        s.starts.lookup id = none ∧ id ∉ s.completedIds ∧ s.tracked < maxTrackedItems)

/-- A completion that is well formed and agrees with the start of its item, or repeats another. -/
def CleanCompletion (s : Bandwidth) (item completedAt : RawJson) : Prop :=
  ∃ id type, itemIdentity item = .ok (some (id, type)) ∧
    (id ∈ s.completedIds ∨ ∃ started completed, s.starts.lookup id = some (started, type) ∧
      nonnegativeMs (some completedAt) = some completed ∧ started ≤ completed)

theorem observeStart_cases (item startedAt : RawJson) (s : Bandwidth) :
    Kept s (left (s.observeStart item startedAt)) ∨
      ∃ id type started, itemIdentity item = .ok (some (id, type)) ∧
        nonnegativeMs (some startedAt) = some started ∧ s.starts.lookup id = none ∧
          id ∉ s.completedIds ∧ s.tracked < maxTrackedItems ∧
            Kept (s.addStart id started type) (left (s.observeStart item startedAt)) := by
  rw [Bandwidth.observeStart]
  split
  · exact .inl (.refl s)
  · rename_i identity hidentity
    split
    · rename_i id type started hstarted
      split
      · dsimp only
        split_ifs
        · exact .inl ⟨rfl, rfl, rfl, rfl, rfl, fun _ h => h⟩
        · exact .inl ⟨rfl, rfl, rfl, rfl, rfl, fun _ h => List.mem_insert_of_mem h⟩
      · rename_i hlookup
        split_ifs with hcompleted hroom
        · exact .inl ⟨rfl, rfl, rfl, rfl, rfl, fun _ h => List.mem_insert_of_mem h⟩
        · exact .inl ⟨rfl, rfl, rfl, rfl, rfl, fun _ h => List.mem_insert_of_mem h⟩
        · exact .inr ⟨id, type, started, hidentity, hstarted, hlookup, hcompleted,
            Nat.not_le.mp hroom, .refl _⟩
    · exact .inl ⟨rfl, rfl, rfl, rfl, rfl, fun _ h => List.mem_insert_of_mem h⟩

theorem observeStart_clean (h : (handled (s.observeStart item startedAt)).degradationReasons = []) :
    CleanStart s item startedAt := by
  obtain ⟨t, ht, hnil⟩ := handled_eq_nil h
  rw [Bandwidth.observeStart] at ht
  split at ht
  · cases ht
  · rename_i identity hidentity
    split at ht
    · rename_i id type started hstarted
      refine ⟨id, type, started, hidentity, hstarted, ?_⟩
      split at ht
      · rename_i previous hprevious
        dsimp only at ht
        split_ifs at ht with hsame
        · exact .inl (hsame ▸ hprevious)
        · cases ht
          exact absurd hnil (degrade_ne_nil _ _)
      · rename_i hlookup
        split_ifs at ht with hcompleted hroom
        · cases ht
          exact absurd hnil (degrade_ne_nil _ _)
        · cases ht
          exact absurd hnil (degrade_ne_nil _ _)
        · exact .inr ⟨hlookup, hcompleted, Nat.not_le.mp hroom⟩
    · cases ht
      exact absurd hnil (degrade_ne_nil _ _)

/-- A record of an interval that degrades nothing has both timestamps in order and one type. -/
theorem recordInterval_clean {type : PyStr} {category : Category} {started : Option (ℕ × PyStr)}
    (h : (s.recordInterval item type category .notification (nonnegativeMs (some completedAt))
      started).degradationReasons = []) :
    ∃ startedMs completed, started = some (startedMs, type) ∧
      nonnegativeMs (some completedAt) = some completed ∧ startedMs ≤ completed := by
  cases hcompleted : nonnegativeMs (some completedAt) with
  | none =>
    rw [hcompleted] at h
    exact absurd h (degrade_ne_nil _ _)
  | some completed =>
    rw [hcompleted] at h
    cases started with
    | none =>
      have hmissing := degrade_ne_nil .missingItemStartedNotification
        { s with missingStartCount := s.missingStartCount + 1 }
      rw [Bandwidth.recordInterval] at h
      split at h
      · split_ifs at h
        · exact absurd h hmissing
        · exact absurd h hmissing
      · exact absurd h hmissing
    | some started =>
      obtain ⟨startedMs, startedType⟩ := started
      rw [Bandwidth.recordInterval] at h
      by_cases hlt : completed < startedMs
      · rw [if_pos hlt] at h
        exact absurd h (degrade_ne_nil _ _)
      · rw [if_neg hlt] at h
        by_cases htype : startedType = type
        · exact ⟨startedMs, completed, by rw [htype], rfl, Nat.not_lt.mp hlt⟩
        · rw [if_neg htype] at h
          exact absurd h (degrade_ne_nil .itemTypeChangedDuringLifecycle s)

theorem observeCompletion_clean
    (h : (handled (s.observeCompletion item completedAt .notification)).degradationReasons = []) :
    CleanCompletion s item completedAt := by
  obtain ⟨t, ht, hnil⟩ := handled_eq_nil h
  rw [Bandwidth.observeCompletion] at ht
  split at ht
  · cases ht
  · cases ht
    exact absurd hnil (degrade_ne_nil _ _)
  · rename_i id type hidentity
    refine ⟨id, type, hidentity, ?_⟩
    by_cases hcompleted : id ∈ s.completedIds
    · exact .inl hcompleted
    rw [if_neg hcompleted] at ht
    by_cases hroom : s.starts.lookup id = none ∧ maxTrackedItems ≤ s.tracked
    · rw [if_pos hroom] at ht
      cases ht
      exact absurd hnil (degrade_ne_nil _ _)
    · rw [if_neg hroom] at ht
      split at ht
      · cases ht
      · rename_i category hcategory
        have hfinish := kept_finishCompletion item category .notification
          ((((s.complete id type).countOperation category (itemStatus item) .notification).popStart
            id).recordInterval item type category .notification (nonnegativeMs (some completedAt))
              (s.starts.lookup id))
        rw [ht] at hfinish
        exact .inr (recordInterval_clean (hfinish.reasons_eq_nil hnil))

/-- An item that only the terminal turn completes degrades the telemetry. -/
theorem terminal_degrades {id type : PyStr} (hidentity : itemIdentity item = .ok (some (id, type)))
    (hcompleted : id ∉ s.completedIds) (h : s.observeCompletion item .null .terminal = .ok t) :
    t.degradationReasons ≠ [] := by
  intro hnil
  rw [Bandwidth.observeCompletion, hidentity] at h
  dsimp only at h
  rw [if_neg hcompleted] at h
  by_cases hroom : s.starts.lookup id = none ∧ maxTrackedItems ≤ s.tracked
  · rw [if_pos hroom] at h
    cases h
    exact degrade_ne_nil _ _ hnil
  · rw [if_neg hroom] at h
    split at h
    · cases h
    · rename_i category hcategory
      have hfinish := kept_finishCompletion item category .terminal
        ((((s.complete id type).countOperation category (itemStatus item) .terminal).popStart
          id).recordInterval item type category .terminal (nonnegativeMs (some .null))
            (s.starts.lookup id))
      rw [h] at hfinish
      have hnone := hfinish.reasons_eq_nil hnil
      rcases recordInterval_cases item .null type category .terminal (s.starts.lookup id)
        (((s.complete id type).countOperation category (itemStatus item) .terminal).popStart id) with
        hk | ⟨start, stop, -, hk⟩
      · exact degrade_ne_nil _ _ (hk.reasons_eq_nil hnone)
      · exact degrade_ne_nil _ _ (hk.reasons_eq_nil hnone)

/-- An item of a terminal turn that degrades nothing has completed before. -/
theorem reconcileItem_clean (h : s.reconcileItem item = .ok t) (hnil : t.degradationReasons = []) :
    t = s ∧ ∃ id type, itemIdentity item = .ok (some (id, type)) ∧ id ∈ s.completedIds := by
  rw [Bandwidth.reconcileItem] at h
  split at h
  · cases h
  · cases h
    exact absurd hnil (degrade_ne_nil _ _)
  · rename_i identity hidentity
    by_cases hcompleted : identity.1 ∈ s.completedIds
    · rw [if_pos hcompleted] at h
      cases h
      exact ⟨rfl, identity.1, identity.2, hidentity, hcompleted⟩
    · rw [if_neg hcompleted] at h
      exact absurd hnil (terminal_degrades hidentity hcompleted h)

theorem reconcileItems_clean {items : List RawJson} (h : s.reconcileItems items = .ok t)
    (hnil : t.degradationReasons = []) :
    ∀ item ∈ items, ∃ id type, itemIdentity item = .ok (some (id, type)) ∧ id ∈ s.completedIds := by
  induction items generalizing s with
  | nil => simp
  | cons item items ih =>
    obtain ⟨u, hu, hrest⟩ := Checks.bind_ok.mp h
    have hmono := reconcileItems_reasons items u
    rw [hrest] at hmono
    have hunil : u.degradationReasons = [] :=
      List.eq_nil_iff_forall_not_mem.mpr fun r hr => by simpa [left, hnil] using hmono hr
    obtain ⟨rfl, hitem⟩ := reconcileItem_clean hu hunil
    rw [List.forall_mem_cons]
    exact ⟨hitem, ih hrest⟩

end Clean

end Danus.HotJoin.Telemetry
