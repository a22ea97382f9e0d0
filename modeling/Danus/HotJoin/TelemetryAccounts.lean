import Danus.HotJoin.TelemetryUsage
import Mathlib.Data.Set.Card

/-! The accounts of a turn's telemetry: what is tracked, counted and measured, over every run of
notifications. -/
namespace Danus.HotJoin.Telemetry
open Python

/-- The turn after these notifications. -/
def run (calls : List Call) : Turn := calls.foldl Turn.step {}

/-- A completion of the id was notified, with this type and at this time. -/
def Reported (calls : List Call) (id type : PyStr) (time : Option ℕ) : Prop :=
  ∃ item completedAt, Call.itemCompleted item completedAt ∈ calls ∧
    itemIdentity item = .ok (some (id, type)) ∧ nonnegativeMs (some completedAt) = time

/-- A start of the id was notified, with this type and at this time. -/
def Started (calls : List Call) (id : PyStr) (started : ℕ) (type : PyStr) : Prop :=
  ∃ item startedAt, Call.itemStarted item startedAt ∈ calls ∧
    itemIdentity item = .ok (some (id, type)) ∧ nonnegativeMs (some startedAt) = some started

/-- An interval between the timestamps that were notified of the item. -/
def Between (calls : List Call) (id : PyStr) (start stop : ℕ) : Prop :=
  ∃ item completedAt type, Call.itemCompleted item completedAt ∈ calls ∧
    itemIdentity item = .ok (some (id, type)) ∧ nonnegativeMs (some completedAt) = some stop ∧
      start ≤ stop ∧
        ((∃ type', Started calls id start type') ∨
          ∃ duration, nonnegativeMs (item.get? "durationMs".toList) = some duration ∧
            start + duration = stop)

/-- What is tracked and measured after these notifications. -/
structure Invariant (calls : List Call) (s : Bandwidth) : Prop where
  startsNodup : (s.starts.map Prod.fst).Nodup
  completedNodup : s.completedIds.Nodup
  disjoint : ∀ id ∈ s.starts.map Prod.fst, id ∉ s.completedIds
  bounded : s.tracked ≤ maxTrackedItems
  counted : (s.itemCounts.map Prod.snd).sum = s.completedIds.length
  started : ∀ p ∈ s.starts, Started calls p.1 p.2.1 p.2.2
  attributed : ∃ ids : List PyStr, ids.Nodup ∧ (∀ id ∈ ids, id ∈ s.completedIds) ∧
    List.Forall₂ (fun id (p : Category × ℕ × ℕ) => Between calls id p.2.1 p.2.2) ids s.intervals

section Invariant
variable {calls calls' : List Call} {s t : Bandwidth} {item completedAt startedAt : RawJson}
  {id type : PyStr} {started start stop : ℕ}

theorem Started.mono (hsub : calls ⊆ calls') (h : Started calls id started type) :
    Started calls' id started type := by
  obtain ⟨item, startedAt, hmem, h⟩ := h
  exact ⟨item, startedAt, hsub hmem, h⟩

theorem Between.mono (hsub : calls ⊆ calls') (h : Between calls id start stop) :
    Between calls' id start stop := by
  obtain ⟨item, completedAt, type, hmem, hid, hstop, hle, hstart⟩ := h
  refine ⟨item, completedAt, type, hsub hmem, hid, hstop, hle, hstart.imp_left ?_⟩
  rintro ⟨type', h⟩
  exact ⟨type', h.mono hsub⟩

theorem Invariant.mono (hsub : calls ⊆ calls') (h : Invariant calls s) : Invariant calls' s where
  startsNodup := h.startsNodup
  completedNodup := h.completedNodup
  disjoint := h.disjoint
  bounded := h.bounded
  counted := h.counted
  started := fun p hp => (h.started p hp).mono hsub
  attributed := by
    obtain ⟨ids, hn, hmem, hall⟩ := h.attributed
    exact ⟨ids, hn, hmem, hall.imp fun _ _ hb => hb.mono hsub⟩

theorem Invariant.of_eq (h : Invariant calls s) (hstarts : t.starts = s.starts)
    (hcompleted : t.completedIds = s.completedIds) (hcounts : t.itemCounts = s.itemCounts)
    (hintervals : t.intervals = s.intervals) : Invariant calls t where
  startsNodup := by rw [hstarts]; exact h.startsNodup
  completedNodup := by rw [hcompleted]; exact h.completedNodup
  disjoint := by rw [hstarts, hcompleted]; exact h.disjoint
  bounded := by rw [Bandwidth.tracked, hstarts, hcompleted]; exact h.bounded
  counted := by rw [hcounts, hcompleted]; exact h.counted
  started := by rw [hstarts]; exact h.started
  attributed := by rw [hintervals, hcompleted]; exact h.attributed

theorem Invariant.of_kept (h : Invariant calls s) (hk : Kept s t) : Invariant calls t :=
  h.of_eq hk.starts hk.completedIds hk.itemCounts hk.intervals

theorem map_fst_eraseKey {α β : Type} [BEq α] [LawfulBEq α] {l : List (α × β)} (a : α)
    (hn : (l.map Prod.fst).Nodup) : (eraseKey a l).map Prod.fst = (l.map Prod.fst).erase a := by
  rw [hn.erase_eq_filter, eraseKey, List.filter_map]
  rfl

theorem sum_bump {α : Type} [DecidableEq α] (key : α) (counts : List (α × Nat)) :
    ((bump key counts).map Prod.snd).sum = (counts.map Prod.snd).sum + 1 := by
  induction counts with
  | nil => rfl
  | cons c counts ih =>
    rw [bump]
    split_ifs
    · simp only [List.map_cons, List.sum_cons]
      omega
    · simp only [List.map_cons, List.sum_cons, ih]
      omega

/-- A start of an id that is not known. -/
theorem Invariant.addStart (h : Invariant calls s) (hlookup : s.starts.lookup id = none)
    (hcompleted : id ∉ s.completedIds) (hroom : s.tracked < maxTrackedItems)
    (hstarted : Started calls id started type) : Invariant calls (s.addStart id started type) where
  startsNodup := by
    rw [Bandwidth.addStart, List.map_append, List.map_singleton, List.nodup_append_comm]
    exact List.nodup_cons.mpr ⟨lookup_eq_none_iff_notMem.mp hlookup, h.startsNodup⟩
  completedNodup := h.completedNodup
  disjoint := by
    intro a ha
    rw [Bandwidth.addStart, List.map_append, List.mem_append] at ha
    rcases ha with ha | ha
    · exact h.disjoint a ha
    · rw [List.map_singleton, List.mem_singleton] at ha
      rw [ha]
      exact hcompleted
  bounded := by
    rw [Bandwidth.tracked] at hroom ⊢
    simp only [Bandwidth.addStart, List.length_append, List.length_singleton]
    omega
  counted := h.counted
  started := by
    intro p hp
    rw [Bandwidth.addStart, List.mem_append, List.mem_singleton] at hp
    rcases hp with hp | rfl
    · exact h.started p hp
    · exact hstarted
  attributed := h.attributed

/-- A completion moves its id, or adds it below the limit. -/
theorem Invariant.complete (h : Invariant calls s) (hfresh : Fresh s item id type) :
    Invariant calls ((s.complete id type).popStart id) where
  startsNodup := by
    rw [Bandwidth.popStart, Bandwidth.complete, map_fst_eraseKey id h.startsNodup]
    exact h.startsNodup.erase id
  completedNodup := by
    rw [Bandwidth.popStart, Bandwidth.complete, List.nodup_append_comm]
    exact List.nodup_cons.mpr ⟨hfresh.notCompleted, h.completedNodup⟩
  disjoint := by
    intro a ha
    rw [Bandwidth.popStart, Bandwidth.complete, map_fst_eraseKey id h.startsNodup,
      h.startsNodup.mem_erase_iff] at ha
    rw [Bandwidth.popStart, Bandwidth.complete, List.mem_append, List.mem_singleton]
    rintro (hc | hc)
    · exact h.disjoint a ha.2 hc
    · exact ha.1 hc
  bounded := by
    have hbounded := h.bounded
    have hlength : ((s.complete id type).popStart id).tracked =
        ((s.starts.map Prod.fst).erase id).length + (s.completedIds.length + 1) := by
      rw [← map_fst_eraseKey id h.startsNodup, List.length_map]
      simp [Bandwidth.tracked, Bandwidth.popStart, Bandwidth.complete]
    rw [Bandwidth.tracked] at hbounded
    rw [hlength, List.length_erase, List.length_map]
    split_ifs with hmem
    · have hpos := List.length_pos_of_mem hmem
      rw [List.length_map] at hpos
      omega
    · rcases hfresh.room with hroom | hroom
      · rw [← lookup_eq_none_iff_notMem] at hmem
        rw [hmem] at hroom
        cases hroom
      · rw [Bandwidth.tracked] at hroom
        omega
  counted := by
    rw [Bandwidth.popStart, Bandwidth.complete, sum_bump, h.counted, List.length_append,
      List.length_singleton]
  started := fun p hp => h.started p (mem_eraseKey.mp hp).1
  attributed := by
    obtain ⟨ids, hn, hmem, hall⟩ := h.attributed
    exact ⟨ids, hn, fun a ha => List.mem_append_left _ (hmem a ha), hall⟩

/-- The interval of a completion belongs to an id that had none. -/
theorem Invariant.measure (h : Invariant calls s) (hfresh : Fresh s item id type) (category : Category)
    (hbetween : Between calls id start stop) :
    Invariant calls (((s.complete id type).popStart id).addInterval category start stop) where
  startsNodup := (h.complete hfresh).startsNodup
  completedNodup := (h.complete hfresh).completedNodup
  disjoint := (h.complete hfresh).disjoint
  bounded := (h.complete hfresh).bounded
  counted := (h.complete hfresh).counted
  started := (h.complete hfresh).started
  attributed := by
    obtain ⟨ids, hn, hmem, hall⟩ := h.attributed
    refine ⟨ids ++ [id], ?_, ?_, ?_⟩
    · rw [List.nodup_append_comm]
      exact List.nodup_cons.mpr ⟨fun hid => hfresh.notCompleted (hmem id hid), hn⟩
    · intro a ha
      rw [Bandwidth.addInterval, Bandwidth.popStart, Bandwidth.complete]
      exact (List.mem_append.mp ha).elim (fun ha => List.mem_append_left _ (hmem a ha))
        (List.mem_append_right _)
    · exact List.rel_append hall (.cons hbetween .nil)

/-- The interval of a notified completion lies between what was notified. -/
theorem between_of_spans (h : Invariant calls s) (hmem : Call.itemCompleted item completedAt ∈ calls)
    (hfresh : Fresh s item id type) (hspans : Spans item completedAt (s.starts.lookup id) start stop) :
    Between calls id start stop := by
  obtain ⟨hstop, hle, hstart⟩ := hspans
  refine ⟨item, completedAt, type, hmem, hfresh.identity, hstop, hle, hstart.imp_left ?_⟩
  rintro ⟨type', hlookup⟩
  exact ⟨type', h.started _ (mem_of_lookup_eq_some hlookup)⟩

/-- One observed completion, where it strands nothing. -/
theorem Invariant.observed (h : Invariant calls s) (hsound : ¬ Strands s item)
    (hbetween : ∀ id type start stop, Fresh s item id type →
      Spans item completedAt (s.starts.lookup id) start stop → Between calls id start stop)
    (hobserved : Observed s item completedAt t) : Invariant calls t := by
  cases hobserved with
  | kept hkept => exact h.of_kept hkept
  | completed id type hfresh hkept => exact (h.complete hfresh).of_kept hkept
  | measured id type category start stop hfresh hspans hkept =>
    exact (h.measure hfresh category (hbetween id type start stop hfresh hspans)).of_kept hkept
  | stranded id type hstrands _ => exact absurd hstrands hsound

end Invariant

/-- No item of a terminal turn is a tracked one without a category, when its turn comes. -/
def StrandsNone : List RawJson → Bandwidth → Prop
  | [], _ => True
  | item :: items, s => ¬ Strands s item ∧ ∀ t, s.reconcileItem item = .ok t → StrandsNone items t

/-- The completions of the item's id that were notified before, where it has completed, have the item's
type, and such a time. -/
def Agrees (calls : List Call) (item : RawJson) (sameTime : Option ℕ → Prop) : Prop :=
  ∀ id type, itemIdentity item = .ok (some (id, type)) → id ∈ (run calls).bandwidth.completedIds →
    ∀ type' time, Reported calls id type' time → type' = type ∧ sameTime time

/-- A call that completes no tracked item without a category, and that repeats no completion with other
data. -/
def Sound (calls : List Call) : Call → Prop
  | .itemStarted _ _ => True
  | .itemCompleted item completedAt =>
    ¬ Strands (run calls).bandwidth item ∧
      Agrees calls item fun time => time = nonnegativeMs (some completedAt)
  | .tokenUsage _ => True
  | .terminalItems items =>
    ∀ list, items = .arr list →
      StrandsNone list (run calls).bandwidth ∧ ∀ item ∈ list, Agrees calls item fun _ => True

/-- A call that is well formed, within the limit, and without a conflict. -/
def Clean (calls : List Call) : Call → Prop
  | .itemStarted item startedAt => CleanStart (run calls).bandwidth item startedAt
  | .itemCompleted item completedAt =>
    CleanCompletion (run calls).bandwidth item completedAt ∧
      Agrees calls item fun time => time = nonnegativeMs (some completedAt)
  | .tokenUsage usage => ((run calls).accepts (.tokenUsage usage)).isSome
  | .terminalItems items =>
    ∃ list, items = .arr list ∧ ∀ item ∈ list,
      (∃ id type, itemIdentity item = .ok (some (id, type)) ∧ id ∈ (run calls).bandwidth.completedIds) ∧
        Agrees calls item fun _ => True

/-- The runs whose every call is sound. -/
inductive Run : List Call → Prop
  | start : Run []
  | step {calls : List Call} {call : Call} (hrun : Run calls) (hsound : Sound calls call) :
    Run (calls ++ [call])

theorem run_append (calls : List Call) (call : Call) :
    run (calls ++ [call]) = (run calls).step call := by
  rw [run, List.foldl_concat, run]

/-- The id is tracked as started, or completed. -/
def Known (s : Bandwidth) (id : PyStr) : Prop := id ∈ s.starts.map Prod.fst ∨ id ∈ s.completedIds

section Steps
variable {calls : List Call} {call : Call} {s t : Bandwidth} {item completedAt : RawJson}

theorem Kept.known (h : Kept s t) {id : PyStr} (hid : Known s id) : Known t id := by
  rw [Known, h.starts, h.completedIds]
  exact hid

theorem known_complete {id id' type : PyStr} (hn : (s.starts.map Prod.fst).Nodup) (hid : Known s id) :
    Known ((s.complete id' type).popStart id') id := by
  rw [Known, Bandwidth.popStart, Bandwidth.complete, map_fst_eraseKey id' hn, hn.mem_erase_iff,
    List.mem_append, List.mem_singleton]
  by_cases he : id = id'
  · exact .inr (.inr he)
  · exact hid.imp (fun h => ⟨he, h⟩) .inl

theorem Observed.known (h : Observed s item completedAt t) (hn : (s.starts.map Prod.fst).Nodup)
    {id : PyStr} (hid : Known s id) : Known t id := by
  cases h with
  | kept hkept => exact hkept.known hid
  | completed id' type _ hkept => exact hkept.known (known_complete hn hid)
  | measured id' type category start stop _ _ hkept => exact hkept.known (known_complete hn hid)
  | stranded id' type _ hkept =>
    exact hkept.known (hid.imp_right fun h => List.mem_append_left _ h)

theorem Observed.usage (h : Observed s item completedAt t) :
    t.usageByResumeTrigger = s.usageByResumeTrigger := by
  cases h with
  | kept hkept => exact hkept.usage
  | completed id type _ hkept => exact hkept.usage
  | measured id type category start stop _ _ hkept => exact hkept.usage
  | stranded id type _ hkept => exact hkept.usage

theorem reconcileItems_usage (items : List RawJson) (s : Bandwidth) :
    (left (s.reconcileItems items)).usageByResumeTrigger = s.usageByResumeTrigger := by
  induction items generalizing s with
  | nil => rfl
  | cons item items ih =>
    have hitem := (reconcileItem_observed item s).usage
    rw [Bandwidth.reconcileItems]
    cases hr : s.reconcileItem item with
    | error t =>
      rw [hr] at hitem
      exact hitem
    | ok t =>
      rw [hr] at hitem
      exact (ih t).trans hitem

/-- A terminal item has no time, so it measures nothing. -/
theorem Invariant.reconcileItem (h : Invariant calls s) (hsound : ¬ Strands s item) :
    Invariant calls (left (s.reconcileItem item)) := by
  refine h.observed hsound (fun id type start stop _ hspans => ?_) (reconcileItem_observed item s)
  exact absurd hspans.1 nofun

theorem Invariant.reconcileItems {items : List RawJson} (h : Invariant calls s)
    (hsound : StrandsNone items s) :
    Invariant calls (left (s.reconcileItems items)) ∧
      ∀ id, Known s id → Known (left (s.reconcileItems items)) id := by
  induction items generalizing s with
  | nil => exact ⟨h, fun _ hid => hid⟩
  | cons item items ih =>
    have hitem := h.reconcileItem hsound.1
    have hobserved := reconcileItem_observed item s
    rw [Bandwidth.reconcileItems]
    cases hr : s.reconcileItem item with
    | error t =>
      rw [hr] at hitem hobserved
      exact ⟨hitem, fun id hid => hobserved.known h.startsNodup hid⟩
    | ok t =>
      rw [hr] at hitem hobserved
      obtain ⟨hrest, hknown⟩ := ih hitem (hsound.2 t hr)
      exact ⟨hrest, fun id hid => hknown id (hobserved.known h.startsNodup hid)⟩

/-- The id of a clean start is known from then on. -/
theorem CleanStart.known {startedAt : RawJson} (h : CleanStart s item startedAt) {id type : PyStr}
    (hidentity : itemIdentity item = .ok (some (id, type))) :
    Known (handled (s.observeStart item startedAt)) id := by
  obtain ⟨id', type', started, hidentity', hstarted, hcases⟩ := h
  rw [hidentity] at hidentity'
  cases hidentity'
  rw [Bandwidth.observeStart, hidentity, hstarted]
  rcases hcases with hlookup | ⟨hlookup, hcompleted, hroom⟩
  · have hmem : id ∈ s.starts.map Prod.fst :=
      List.mem_map.mpr ⟨_, mem_of_lookup_eq_some hlookup, rfl⟩
    simp only [hlookup, if_true]
    exact .inl hmem
  · simp only [hlookup, if_neg hcompleted, if_neg (Nat.not_le.mpr hroom)]
    exact .inl (by simp [handled, Bandwidth.addStart])

/-- A usage notification leaves the items as they are. -/
structure SameItems (s t : Bandwidth) : Prop where
  starts : t.starts = s.starts
  completedIds : t.completedIds = s.completedIds
  itemCounts : t.itemCounts = s.itemCounts
  intervals : t.intervals = s.intervals
  reasons : s.degradationReasons ⊆ t.degradationReasons

theorem observeUsage_sameItems (turn : Turn) (usage : Option Usage) :
    SameItems turn.bandwidth (turn.observeUsage usage).bandwidth := by
  have hsame : SameItems turn.bandwidth turn.bandwidth := ⟨rfl, rfl, rfl, rfl, fun _ h => h⟩
  have hreject : SameItems turn.bandwidth (turn.rejectUsage turn.bandwidth).bandwidth :=
    ⟨rfl, rfl, rfl, rfl, fun _ h => List.mem_insert_of_mem h⟩
  cases usage with
  | none => exact hreject
  | some current =>
    rw [Turn.observeUsage]
    cases tokenUsageCumulativeTotalChanged turn.usage current with
    | none => exact hreject
    | some changed =>
      cases changed with
      | false => exact hsame
      | true =>
        rw [Bandwidth.observeUsageGrowth]
        cases addBreakdown (turn.bandwidth.usageByResumeTrigger.lookup turn.bandwidth.trigger)
          current.last with
        | none => exact hreject
        | some sum => exact ⟨rfl, rfl, rfl, rfl, fun _ h => h⟩

/-- One sound call keeps the invariant, and what is known. -/
theorem invariant_step (h : Invariant calls (run calls).bandwidth) (hsound : Sound calls call) :
    Invariant (calls ++ [call]) (run (calls ++ [call])).bandwidth ∧
      ∀ id, Known (run calls).bandwidth id → Known (run (calls ++ [call])).bandwidth id := by
  have hmono := h.mono (List.subset_append_left calls [call])
  have hcall : call ∈ calls ++ [call] := List.mem_append_right _ (List.mem_singleton_self call)
  rw [run_append]
  cases call with
  | itemStarted item startedAt =>
    have hhandled := kept_handled ((run calls).bandwidth.observeStart item startedAt)
    rcases observeStart_cases item startedAt (run calls).bandwidth with hk |
      ⟨id, type, started, hidentity, hstarted, hlookup, hcompleted, hroom, hk⟩
    · exact ⟨hmono.of_kept (hk.trans hhandled), fun id hid => (hk.trans hhandled).known hid⟩
    · have hstart := hmono.addStart hlookup hcompleted hroom ⟨item, startedAt, hcall, hidentity, hstarted⟩
      refine ⟨hstart.of_kept (hk.trans hhandled), fun id' hid => (hk.trans hhandled).known ?_⟩
      exact hid.imp_left fun h => by simp [Bandwidth.addStart, h]
  | itemCompleted item completedAt =>
    have hobserved := observeCompletion_observed item completedAt .notification (run calls).bandwidth
    have hhandled := kept_handled ((run calls).bandwidth.observeCompletion item completedAt .notification)
    refine ⟨Invariant.of_kept (hmono.observed hsound.1 (fun id type start stop hfresh hspans => ?_)
      hobserved) hhandled, fun id hid => hhandled.known (hobserved.known h.startsNodup hid)⟩
    exact between_of_spans hmono hcall hfresh hspans
  | tokenUsage usage =>
    have hsame := observeUsage_sameItems (run calls) usage
    refine ⟨hmono.of_eq hsame.starts hsame.completedIds hsame.itemCounts hsame.intervals,
      fun id hid => ?_⟩
    rw [Known, Turn.step, hsame.starts, hsame.completedIds]
    exact hid
  | terminalItems items =>
    have hreconciled := kept_reconciled ((run calls).bandwidth.reconcileTerminalItems items)
    cases items with
    | arr list =>
      obtain ⟨hinvariant, hknown⟩ := hmono.reconcileItems (hsound list rfl).1
      exact ⟨hinvariant.of_kept hreconciled, fun id hid => hreconciled.known (hknown id hid)⟩
    | _ =>
      have hk : Kept (run calls).bandwidth
          ((run calls).bandwidth.degrade .terminalItemsUnavailable) := (Kept.refl _).degrade _
      exact ⟨hmono.of_kept hk, fun id hid => hk.known hid⟩

theorem step_reasons (turn : Turn) (call : Call) :
    turn.bandwidth.degradationReasons ⊆ (turn.step call).bandwidth.degradationReasons := by
  cases call with
  | itemStarted item startedAt =>
    have hhandled := kept_handled (turn.bandwidth.observeStart item startedAt)
    rcases observeStart_cases item startedAt turn.bandwidth with hk | ⟨id, type, started, -, -, -, -, -, hk⟩
    · exact (hk.trans hhandled).reasons
    · exact (hk.trans hhandled).reasons
  | itemCompleted item completedAt =>
    have hobserved := observeCompletion_observed item completedAt .notification turn.bandwidth
    exact fun r hr => (kept_handled _).reasons (hobserved.reasons hr)
  | tokenUsage usage => exact (observeUsage_sameItems turn usage).reasons
  | terminalItems items =>
    have hreconciled := kept_reconciled (turn.bandwidth.reconcileTerminalItems items)
    cases items with
    | arr list => exact fun r hr => hreconciled.reasons (reconcileItems_reasons list _ hr)
    | _ => exact fun r hr => List.mem_insert_of_mem hr

theorem observeUsage_clean {turn : Turn} {usage : Option Usage}
    (h : (turn.observeUsage usage).bandwidth.degradationReasons = []) :
    (turn.accepts (.tokenUsage usage)).isSome := by
  cases usage with
  | none => exact absurd h (degrade_ne_nil _ _)
  | some current =>
    rw [Turn.observeUsage] at h
    cases hchanged : tokenUsageCumulativeTotalChanged turn.usage current with
    | none =>
      rw [hchanged] at h
      exact absurd h (degrade_ne_nil _ _)
    | some changed => simp [Turn.accepts, Option.filter, hchanged]

/-- A sound call that degrades nothing is clean. -/
theorem clean_of_step (hsound : Sound calls call)
    (h : ((run calls).step call).bandwidth.degradationReasons = []) : Clean calls call := by
  cases call with
  | itemStarted item startedAt => exact observeStart_clean h
  | itemCompleted item completedAt => exact ⟨observeCompletion_clean h, hsound.2⟩
  | tokenUsage usage => exact observeUsage_clean h
  | terminalItems items =>
    obtain ⟨t, ht, hnil⟩ := reconciled_eq_nil h
    cases items with
    | arr list =>
      have hitems := reconcileItems_clean ht hnil
      exact ⟨list, rfl, fun item hitem => ⟨hitems item hitem, (hsound list rfl).2 item hitem⟩⟩
    | _ =>
      cases ht
      exact absurd hnil (degrade_ne_nil _ _)

/-- One call meters its usage notification. -/
theorem metered_step {accepted : List Usage} {turn : Turn} (h : Metered accepted turn) (call : Call) :
    Metered (accepted ++ (turn.accepts call).toList) (turn.step call) := by
  cases call with
  | itemStarted item startedAt =>
    change Metered (accepted ++ []) _
    rw [List.append_nil]
    refine h.of_bandwidth ((kept_handled _).usage.trans ?_)
    rcases observeStart_cases item startedAt turn.bandwidth with hk | ⟨id, type, started, -, -, -, -, -, hk⟩
    · exact hk.usage
    · exact hk.usage
  | itemCompleted item completedAt =>
    change Metered (accepted ++ []) _
    rw [List.append_nil]
    exact h.of_bandwidth ((kept_handled _).usage.trans
      (observeCompletion_observed item completedAt .notification turn.bandwidth).usage)
  | tokenUsage usage => exact h.observeUsage usage
  | terminalItems items =>
    change Metered (accepted ++ []) _
    rw [List.append_nil]
    refine h.of_bandwidth ((kept_reconciled _).usage.trans ?_)
    cases items with
    | arr list => exact reconcileItems_usage list turn.bandwidth
    | _ => rfl

end Steps

/-- The usage notifications of a run that are accepted. -/
def accepted (calls : List Call) : List Usage := acceptedFrom {} calls

theorem metered_run (calls : List Call) : Metered (accepted calls) (run calls) := by
  induction calls using List.reverseRecOn with
  | nil => exact metered_start
  | append_singleton calls call ih =>
    rw [run_append, accepted, acceptedFrom_append]
    exact metered_step ih call

theorem invariant_run {calls : List Call} (h : Run calls) : Invariant calls (run calls).bandwidth := by
  induction h with
  | start => exact ⟨.nil, .nil, nofun, Nat.zero_le _, rfl, nofun, [], .nil, nofun, .nil⟩
  | step _ hsound ih => exact (invariant_step ih hsound).1

/-- A run that degrades nothing is clean at every call, and every item that started is known. -/
theorem clean_run {calls : List Call} (h : Run calls)
    (hnil : (run calls).bandwidth.degradationReasons = []) :
    (∀ before call after, calls = before ++ call :: after → Clean before call) ∧
      ∀ item startedAt, Call.itemStarted item startedAt ∈ calls →
        ∃ id type, itemIdentity item = .ok (some (id, type)) ∧ Known (run calls).bandwidth id := by
  induction h with
  | start => exact ⟨fun before call after he => by simp at he, nofun⟩
  | @step calls call hrun hsound ih =>
    rw [run_append] at hnil ⊢
    have hbefore : (run calls).bandwidth.degradationReasons = [] :=
      List.eq_nil_iff_forall_not_mem.mpr fun r hr => by
        simpa [hnil] using step_reasons (run calls) call hr
    obtain ⟨hclean, hstarted⟩ := ih hbefore
    have hcall := clean_of_step hsound hnil
    have hknown := (invariant_step (invariant_run hrun) hsound).2
    rw [run_append] at hknown
    constructor
    · intro before call' after he
      rcases after.eq_nil_or_concat with rfl | ⟨after', last, rfl⟩
      · obtain ⟨rfl, hlast⟩ := List.append_inj' he rfl
        cases hlast
        exact hcall
      · rw [List.concat_eq_append, ← List.cons_append, ← List.append_assoc] at he
        exact hclean before call' after' (List.append_inj' he rfl).1
    · intro item startedAt hmem
      rcases List.mem_append.mp hmem with hmem | hmem
      · obtain ⟨id, type, hidentity, hid⟩ := hstarted item startedAt hmem
        exact ⟨id, type, hidentity, hknown id hid⟩
      · cases List.mem_singleton.mp hmem
        obtain ⟨id, type, started, hidentity, -⟩ := id hcall
        exact ⟨id, type, hidentity, hcall.known hidentity⟩

/-- A figure is the number of milliseconds that the intervals of these categories cover. -/
def Measures (s : Bandwidth) (categories : List Category) (figure : ℕ) : Prop :=
  figure = Set.ncard {t : ℕ | ∃ p ∈ s.intervals, p.1 ∈ categories ∧ p.2.1 ≤ t ∧ t < p.2.2}

theorem union_measures (s : Bandwidth) (categories : List Category) :
    Measures s categories (s.union categories) := by
  rw [Measures, Bandwidth.union, Intervals.unionLength_eq, ← Set.ncard_coe_finset]
  congr 1
  ext t
  rw [Finset.mem_coe, Intervals.mem_cover, Set.mem_ofPred_eq]
  constructor
  · rintro ⟨q, hq, hlow, hhigh⟩
    obtain ⟨category, hcategory, hq⟩ := List.mem_flatMap.mp hq
    obtain ⟨p, hp, rfl⟩ := List.mem_map.mp hq
    obtain ⟨hp, he⟩ := List.mem_filter.mp hp
    exact ⟨p, hp, (of_decide_eq_true he) ▸ hcategory, hlow, hhigh⟩
  · rintro ⟨p, hp, hcategory, hlow, hhigh⟩
    refine ⟨p.2, List.mem_flatMap.mpr ⟨p.1, hcategory, ?_⟩, hlow, hhigh⟩
    exact List.mem_map.mpr ⟨p, List.mem_filter.mpr ⟨hp, decide_eq_true rfl⟩, rfl⟩

/-- Every figure of a summary measures its categories. -/
structure Measured (s : Bandwidth) (summary : Summary) : Prop where
  tool : Measures s toolOrControlCategories summary.toolOrControlUnionMs
  wait : Measures s waitCategories summary.waitUnionMs
  memory : Measures s memoryCategories summary.memoryUnionMs
  memoryWrite : Measures s memoryWriteCategories summary.memoryWriteUnionMs
  retrieval : Measures s retrievalCategories summary.retrievalUnionMs
  reasoning : Measures s [.reasoningItem] summary.reasoningItemUnionMs
  measured : summary.measuredItemUnionMs =
    Set.ncard {t : ℕ | ∃ p ∈ s.intervals, p.2.1 ≤ t ∧ t < p.2.2}
  active : ∀ p ∈ summary.activeMsByCategory, Measures s [p.1] p.2

theorem summary_measured (duration : RawJson) (s : Bandwidth) : Measured s (s.summary duration) where
  tool := union_measures s _
  wait := union_measures s _
  memory := union_measures s _
  memoryWrite := union_measures s _
  retrieval := union_measures s _
  reasoning := union_measures s _
  measured := by
    have hall := union_measures s s.measuredCategories
    rw [Measures] at hall
    refine hall.trans (congrArg Set.ncard (Set.ext fun t => ?_))
    refine exists_congr fun p => and_congr_right fun hp => and_iff_right ?_
    exact List.mem_dedup.mpr (List.mem_map.mpr ⟨p, hp, rfl⟩)
  active := by
    intro p hp
    obtain ⟨category, -, rfl⟩ := List.mem_map.mp hp
    have hone := union_measures s [category]
    rw [Bandwidth.union, List.flatMap_singleton] at hone
    exact hone

/-- The accounts of a turn after these notifications. -/
structure Accounts (calls : List Call) : Prop where
  disjoint : ∀ id ∈ (run calls).bandwidth.starts.map Prod.fst, id ∉ (run calls).bandwidth.completedIds
  bounded : (run calls).bandwidth.starts.length + (run calls).bandwidth.completedIds.length ≤
    maxTrackedItems
  counted : ((run calls).bandwidth.itemCounts.map Prod.snd).sum = (run calls).bandwidth.completedIds.length
  /-- Each interval belongs to an id of its own, and lies between what was notified of that id. -/
  attributed : ∃ ids : List PyStr, ids.Nodup ∧ List.Forall₂
    (fun id (p : Category × ℕ × ℕ) => Between calls id p.2.1 p.2.2) ids (run calls).bandwidth.intervals
  measured : ∀ duration, Measured (run calls).bandwidth ((run calls).bandwidth.summary duration)
  complete : ∀ duration, ((run calls).bandwidth.summary duration).Complete →
    (∀ item startedAt, Call.itemStarted item startedAt ∈ calls →
      ∃ id type, itemIdentity item = .ok (some (id, type)) ∧ id ∈ (run calls).bandwidth.completedIds) ∧
    ∀ before call after, calls = before ++ call :: after → Clean before call
  metered : ∀ first last, (accepted calls).head? = some first → (accepted calls).getLast? = some last →
    ∀ name, ((run calls).bandwidth.growth name : ℤ) =
      last.total.amount name - first.total.amount name + first.last.amount name

/-- In every run whose calls are sound the telemetry accounts for its turn. -/
theorem telemetry_accounts {calls : List Call} (h : Run calls) : Accounts calls where
  disjoint := (invariant_run h).disjoint
  bounded := (invariant_run h).bounded
  counted := (invariant_run h).counted
  attributed := by
    obtain ⟨ids, hn, -, hall⟩ := (invariant_run h).attributed
    exact ⟨ids, hn, hall⟩
  measured duration := summary_measured duration (run calls).bandwidth
  complete := by
    intro duration hcomplete
    simp only [Summary.Complete, Bandwidth.summary, List.append_eq_nil_iff] at hcomplete
    obtain ⟨⟨⟨hnil, hstarts⟩, -⟩, -⟩ := hcomplete
    obtain ⟨hclean, hstarted⟩ := clean_run h hnil
    have hnone : (run calls).bandwidth.starts = [] := by
      by_contra hne
      rw [if_neg hne] at hstarts
      cases hstarts
    refine ⟨fun item startedAt hmem => ?_, hclean⟩
    obtain ⟨id, type, hidentity, hid⟩ := hstarted item startedAt hmem
    rw [Known, hnone] at hid
    exact ⟨id, type, hidentity, hid.resolve_left List.not_mem_nil⟩
  metered := (metered_run calls).growth

section Runs

/-- An item of this id and type, with these further fields. -/
def itemOf (id type : String) (fields : List (CodeText × RawJson)) : RawJson :=
  .obj ((CodeText.ofStr "id".toList, .str (CodeText.ofStr id.toList)) ::
    (CodeText.ofStr "type".toList, .str (CodeText.ofStr type.toList)) :: fields)

def reasoningCalls : List Call :=
  [.itemStarted (itemOf "a" "reasoning" []) (.int 5), .itemCompleted (itemOf "a" "reasoning" []) (.int 9)]

theorem telemetry_accounts_reasoning : Accounts reasoningCalls := by
  have hstart : Sound [] (.itemStarted (itemOf "a" "reasoning" []) (.int 5)) := trivial
  have hrun : Run [.itemStarted (itemOf "a" "reasoning" []) (.int 5)] := Run.step .start hstart
  refine telemetry_accounts (Run.step hrun ⟨?_, ?_⟩)
  · rintro ⟨id, type, -, -, -, e, he⟩
    have hcategory : itemCategory (itemOf "a" "reasoning" []) = .ok .reasoningItem := rfl
    rw [hcategory] at he
    cases he
  · intro id type _ hcompleted
    have hnone : (run [.itemStarted (itemOf "a" "reasoning" []) (.int 5)]).bandwidth.completedIds = [] := by
      decide +kernel
    rw [hnone] at hcompleted
    cases hcompleted

/-- A tool call whose server is a list leaves its id tracked and completed. -/
def strandingCalls : List Call :=
  [.itemStarted (itemOf "a" "mcpToolCall" []) (.int 5),
    .itemCompleted (itemOf "a" "mcpToolCall" [(CodeText.ofStr "server".toList, .arr [])]) (.int 9)]

/-- Two completions of one id with different types and times. -/
def repeatingCalls : List Call :=
  [.itemStarted (itemOf "a" "reasoning" []) (.int 5), .itemCompleted (itemOf "a" "reasoning" []) (.int 7),
    .itemCompleted (itemOf "a" "plan" []) (.int 9)]

/-- An id is tracked and completed at once, and a summary is complete over two completions that disagree. -/
theorem unhashable_server_strands_start :
    ¬ (∀ id ∈ (run strandingCalls).bandwidth.starts.map Prod.fst,
      id ∉ (run strandingCalls).bandwidth.completedIds) ∧
    ((run repeatingCalls).bandwidth.summary (.int 10)).Complete ∧
    ¬ ∀ before call after, repeatingCalls = before ++ call :: after → Clean before call := by
  have hcomplete : ((run repeatingCalls).bandwidth.summary (.int 10)).finalityReasons = [] := by
    decide +kernel
  refine ⟨by decide +kernel, hcomplete, fun hclean => ?_⟩
  have hlast := (hclean (repeatingCalls.take 2) _ [] rfl).2
  have hcompleted : "a".toList ∈ (run (repeatingCalls.take 2)).bandwidth.completedIds := by decide +kernel
  have hreported : Reported (repeatingCalls.take 2) "a".toList "reasoning".toList (some 7) :=
    ⟨itemOf "a" "reasoning" [], .int 7, List.mem_cons_of_mem _ List.mem_cons_self, rfl, rfl⟩
  have hagree := hlast "a".toList "plan".toList rfl hcompleted "reasoning".toList (some 7) hreported
  exact absurd hagree.1 (by decide)

end Runs

end Danus.HotJoin.Telemetry
