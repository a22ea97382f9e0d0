import Danus.HotJoin.TelemetrySteps
import Mathlib.Algebra.BigOperators.Group.List.Basic
import Mathlib.Algebra.Group.Int.Defs
import Mathlib.Tactic.Linarith

/-! The token usage of a turn: what is counted under each trigger adds up to the growth of the totals. -/
namespace Danus.HotJoin.Telemetry
open Python

section Breakdowns
variable {a b c : Breakdown} {name : PyStr}

theorem lookup_eq_none_iff_notMem {α β : Type} [BEq α] [LawfulBEq α] {l : List (α × β)} {a : α} :
    l.lookup a = none ↔ a ∉ l.map Prod.fst := by
  constructor
  · intro h hm
    obtain ⟨p, hp, rfl⟩ := List.mem_map.mp hm
    exact notMem_of_lookup_eq_none h hp
  · intro h
    cases hl : l.lookup a with
    | none => rfl
    | some b => exact absurd (List.mem_map.mpr ⟨(a, b), mem_of_lookup_eq_some hl, rfl⟩) h

namespace Breakdown

theorem SameFields.symm (h : a.SameFields b) : b.SameFields a := ⟨h.2, h.1⟩

theorem SameFields.trans (h : a.SameFields b) (h' : b.SameFields c) : a.SameFields c :=
  ⟨fun name hn => h'.1 name (h.1 name hn), fun name hn => h.2 name (h'.2 name hn)⟩

theorem amount_eq_zero (h : name ∉ a.map Prod.fst) : a.amount name = 0 := by
  rw [amount, lookup_eq_none_iff_notMem.mpr h]
  rfl

theorem mem_of_mem_fields (h : name ∈ a.map Prod.fst) : (name, a.amount name) ∈ a := by
  cases hl : a.lookup name with
  | none => exact absurd h (lookup_eq_none_iff_notMem.mp hl)
  | some n =>
    rw [amount, hl]
    exact mem_of_lookup_eq_some hl

theorem SameAmounts.amount_eq (hf : a.SameFields b) (h : a.SameAmounts b) (name : PyStr) :
    a.amount name = b.amount name := by
  by_cases hn : name ∈ a.map Prod.fst
  · exact h name hn
  · rw [amount_eq_zero hn, amount_eq_zero fun hb => hn (hf.2 name hb)]

theorem amount_map_add (increment : Breakdown) (hname : name ∈ a.map Prod.fst) :
    amount (a.map fun f => (f.1, f.2 + increment.amount f.1)) name =
      a.amount name + increment.amount name := by
  induction a with
  | nil => cases hname
  | cons f a ih =>
    obtain ⟨k, n⟩ := f
    by_cases hk : name = k
    · subst hk
      simp [amount]
    · have hrest : name ∈ a.map Prod.fst := by simpa [hk] using hname
      have hih := ih hrest
      rw [amount, amount] at hih ⊢
      rw [List.map_cons, lookup_cons_of_ne hk, lookup_cons_of_ne hk]
      exact hih

end Breakdown

/-- An aggregate grows by the increment, field by field, and keeps its fields. -/
theorem addBreakdown_spec {sum : Breakdown} (h : addBreakdown (some a) b = some sum) :
    (∀ name, sum.amount name = a.amount name + b.amount name) ∧ sum.SameFields b := by
  rw [addBreakdown] at h
  split_ifs at h with hfields
  cases h
  have hkeys : (a.map fun f => (f.1, f.2 + Breakdown.amount b f.1)).map Prod.fst = a.map Prod.fst := by
    rw [List.map_map]
    rfl
  refine ⟨fun name => ?_, ?_⟩
  · by_cases hname : name ∈ a.map Prod.fst
    · exact Breakdown.amount_map_add b hname
    · rw [Breakdown.amount_eq_zero (hkeys ▸ hname), Breakdown.amount_eq_zero hname,
        Breakdown.amount_eq_zero fun hb => hname (hfields.2 name hb)]
  · rw [Breakdown.SameFields, hkeys]
    exact hfields

end Breakdowns

section Growth
variable {α : Type} [DecidableEq α] {key : α} {table : List (α × Breakdown)} {sum increment : Breakdown}

theorem mem_put {β : Type} {value : β} {table : List (α × β)} {p : α × β} (h : p ∈ put key value table) :
    p ∈ table ∨ p = (key, value) := by
  induction table with
  | nil => exact .inr (List.mem_singleton.mp h)
  | cons q table ih =>
    rw [put] at h
    split_ifs at h
    · rcases List.mem_cons.mp h with h | h
      · exact .inr h
      · exact .inl (List.mem_cons_of_mem _ h)
    · rcases List.mem_cons.mp h with h | h
      · exact .inl (h ▸ List.mem_cons_self)
      · exact (ih h).imp_left (List.mem_cons_of_mem _)

/-- The sums over all keys grow by the increment of one. -/
theorem sum_put (h : addBreakdown (table.lookup key) increment = some sum) (name : PyStr) :
    ((put key sum table).map fun p => p.2.amount name).sum =
      (table.map fun p => p.2.amount name).sum + increment.amount name := by
  induction table with
  | nil =>
    cases h
    simp [put]
  | cons p table ih =>
    obtain ⟨k, agg⟩ := p
    rw [put]
    split_ifs with hk
    · subst hk
      rw [lookup_cons_self] at h
      simp only [List.map_cons, List.sum_cons, (addBreakdown_spec h).1 name]
      omega
    · rw [lookup_cons_of_ne (Ne.symm hk)] at h
      simp only [List.map_cons, List.sum_cons, ih h]
      omega

end Growth

/-- The usage that a notification adds to those accepted. -/
def Turn.accepts (turn : Turn) : Call → Option Usage
  | .tokenUsage usage =>
    usage.filter fun current => (tokenUsageCumulativeTotalChanged turn.usage current).isSome
  | _ => none

/-- The usage notifications that are accepted, in order. -/
def acceptedFrom (turn : Turn) : List Call → List Usage
  | [] => []
  | call :: calls => (turn.accepts call).toList ++ acceptedFrom (turn.step call) calls

theorem acceptedFrom_append (turn : Turn) (calls : List Call) (call : Call) :
    acceptedFrom turn (calls ++ [call]) =
      acceptedFrom turn calls ++ ((calls.foldl Turn.step turn).accepts call).toList := by
  induction calls generalizing turn with
  | nil => simp [acceptedFrom]
  | cons c calls ih => rw [List.cons_append, acceptedFrom, ih, acceptedFrom, List.append_assoc]; rfl

/-- The tokens of a field, over all triggers. -/
def Bandwidth.growth (s : Bandwidth) (name : PyStr) : ℕ :=
  (s.usageByResumeTrigger.map fun p => p.2.amount name).sum

/-- The growth after these accepted notifications. -/
structure Metered (accepted : List Usage) (turn : Turn) : Prop where
  usage : turn.usage = accepted.getLast?
  unused : accepted = [] → turn.bandwidth.usageByResumeTrigger = []
  fields : ∀ last, accepted.getLast? = some last →
    ∀ p ∈ turn.bandwidth.usageByResumeTrigger, p.2.SameFields last.total
  growth : ∀ first last, accepted.head? = some first → accepted.getLast? = some last → ∀ name,
    (turn.bandwidth.growth name : ℤ) =
      last.total.amount name - first.total.amount name + first.last.amount name

section Metered
variable {accepted : List Usage} {turn : Turn} {s t : Bandwidth} {current previous : Usage}

theorem metered_start : Metered [] {} where
  usage := rfl
  unused _ := rfl
  fields := nofun
  growth := nofun

theorem Metered.of_bandwidth (h : Metered accepted turn)
    (ht : t.usageByResumeTrigger = turn.bandwidth.usageByResumeTrigger) :
    Metered accepted { turn with bandwidth := t } where
  usage := h.usage
  unused hn := ht.trans (h.unused hn)
  fields := by
    intro last hlast
    rw [ht]
    exact h.fields last hlast
  growth := by
    intro first last hfirst hlast name
    rw [Bandwidth.growth, ht]
    exact h.growth first last hfirst hlast name

/-- What an accepted notification says of the one before: the fields are the same, and the totals grow by
the last sample, or nothing has changed. -/
theorem changed_cases {changed : Bool}
    (h : tokenUsageCumulativeTotalChanged (some previous) current = some changed) :
    current.last.SameFields current.total ∧ previous.total.SameFields current.total ∧
      ∀ name, (current.total.amount name : ℤ) = previous.total.amount name +
        (if changed = true then current.last.amount name else 0 : ℕ) := by
  rw [tokenUsageCumulativeTotalChanged] at h
  split_ifs at h with hfields hprevious hsame hlast hgrown
  · cases h
    rw [not_or, not_not, not_not] at hprevious
    refine ⟨hfields, hprevious.2, fun name => ?_⟩
    rw [hsame.amount_eq hprevious.2.symm name]
    simp
  · cases h
    rw [not_or, not_not, not_not] at hprevious
    refine ⟨hfields, hprevious.2, fun name => ?_⟩
    by_cases hname : name ∈ current.total.map Prod.fst
    · have hf := List.all_eq_true.mp hgrown _ (Breakdown.mem_of_mem_fields hname)
      simp only [Bool.and_eq_true, decide_eq_true_eq] at hf
      simp only [if_true]
      omega
    · rw [Breakdown.amount_eq_zero hname, Breakdown.amount_eq_zero fun hp => hname (hprevious.2.1 name hp),
        Breakdown.amount_eq_zero fun hl => hname (hfields.1 name hl)]
      simp

theorem changed_first {changed : Bool} (h : tokenUsageCumulativeTotalChanged none current = some changed) :
    current.last.SameFields current.total ∧
      (changed = false → ∀ name, current.last.amount name = 0) := by
  rw [tokenUsageCumulativeTotalChanged] at h
  split_ifs at h with hfields
  refine ⟨hfields, ?_⟩
  rintro rfl name
  have hnone : (current.last.any fun f => decide (0 < f.2)) = false := Option.some.inj h
  by_cases hname : name ∈ current.last.map Prod.fst
  · have hf := List.any_eq_false.mp hnone _ (Breakdown.mem_of_mem_fields hname)
    simpa using hf
  · exact Breakdown.amount_eq_zero hname

theorem addBreakdown_fields {aggregate : Option Breakdown} {increment sum : Breakdown}
    (h : addBreakdown aggregate increment = some sum) : sum.SameFields increment := by
  cases aggregate with
  | none =>
    cases h
    exact ⟨fun _ hn => hn, fun _ hn => hn⟩
  | some aggregate => exact (addBreakdown_spec h).2

/-- A sample is added under its trigger. -/
theorem observeUsageGrowth_spec {breakdown : Breakdown}
    (h : s.observeUsageGrowth breakdown = .ok t) :
    (∀ name, t.growth name = s.growth name + breakdown.amount name) ∧
      ∀ p ∈ t.usageByResumeTrigger, p ∈ s.usageByResumeTrigger ∨ p.2.SameFields breakdown := by
  rw [Bandwidth.observeUsageGrowth] at h
  split at h
  · cases h
  · rename_i sum hsum
    cases h
    refine ⟨sum_put hsum, fun p hp => (mem_put hp).imp_right ?_⟩
    rintro rfl
    exact addBreakdown_fields hsum

/-- A sample with the fields of the aggregates is added. -/
theorem observeUsageGrowth_ok {breakdown : Breakdown}
    (h : ∀ p ∈ s.usageByResumeTrigger, p.2.SameFields breakdown) :
    ∃ t, s.observeUsageGrowth breakdown = .ok t := by
  rw [Bandwidth.observeUsageGrowth]
  cases hlookup : s.usageByResumeTrigger.lookup s.trigger with
  | none => exact ⟨_, rfl⟩
  | some aggregate =>
    rw [addBreakdown, if_pos (h _ (mem_of_lookup_eq_some hlookup))]
    exact ⟨_, rfl⟩

/-- An accepted notification is kept, and its sample is added where it has grown. -/
theorem observeUsage_accepted {changed : Bool}
    (hchanged : tokenUsageCumulativeTotalChanged turn.usage current = some changed)
    (hfields : ∀ p ∈ turn.bandwidth.usageByResumeTrigger, p.2.SameFields current.last) :
    ∃ t, turn.observeUsage (some current) = ⟨t, some current⟩ ∧
      (∀ name, t.growth name = turn.bandwidth.growth name +
        if changed = true then current.last.amount name else 0) ∧
        ∀ p ∈ t.usageByResumeTrigger, p.2.SameFields current.last := by
  rw [Turn.observeUsage, hchanged]
  cases changed with
  | false => exact ⟨turn.bandwidth, rfl, fun name => rfl, hfields⟩
  | true =>
    obtain ⟨t, ht⟩ := observeUsageGrowth_ok hfields
    obtain ⟨hgrowth, hmem⟩ := observeUsageGrowth_spec ht
    rw [ht]
    exact ⟨t, rfl, hgrowth, fun p hp => (hmem p hp).elim (hfields p) id⟩

/-- The first notification that is accepted. -/
theorem Metered.first (h : Metered [] turn) {changed : Bool}
    (hchanged : tokenUsageCumulativeTotalChanged turn.usage current = some changed) :
    Metered [current] (turn.observeUsage (some current)) := by
  have hunused := h.unused rfl
  obtain ⟨t, ht, hgrowth, hmem⟩ := observeUsage_accepted hchanged (by simp [hunused])
  rw [h.usage] at hchanged
  obtain ⟨hfields, hzero⟩ := changed_first hchanged
  rw [ht]
  refine ⟨rfl, nofun, ?_, ?_⟩
  · rintro _ ⟨⟩ p hp
    exact (hmem p hp).trans hfields
  · rintro _ _ ⟨⟩ ⟨⟩ name
    have hbefore : turn.bandwidth.growth name = 0 := by simp [Bandwidth.growth, hunused]
    rw [hgrowth name, hbefore]
    cases changed with
    | false => simp [hzero rfl name]
    | true => simp

/-- A notification that is accepted after another one. -/
theorem Metered.next (h : Metered accepted turn) (hprevious : accepted.getLast? = some previous)
    {changed : Bool} (hchanged : tokenUsageCumulativeTotalChanged turn.usage current = some changed) :
    Metered (accepted ++ [current]) (turn.observeUsage (some current)) := by
  have hcases := hchanged
  rw [h.usage, hprevious] at hcases
  obtain ⟨hlast, htotal, htotals⟩ := changed_cases hcases
  obtain ⟨t, ht, hgrowth, hmem⟩ := observeUsage_accepted hchanged fun p hp =>
    ((h.fields previous hprevious p hp).trans htotal).trans hlast.symm
  have hne : accepted ≠ [] := by
    rintro rfl
    cases hprevious
  rw [ht]
  refine ⟨by simp, fun hn => absurd hn (by simp), ?_, ?_⟩
  · intro last hl p hp
    rw [List.getLast?_concat] at hl
    cases hl
    exact (hmem p hp).trans hlast
  · intro first last hf hl name
    rw [List.getLast?_concat] at hl
    rw [List.head?_append_of_ne_nil _ hne] at hf
    cases hl
    have hbefore := h.growth first previous hf hprevious name
    have hnow := htotals name
    have hadded := hgrowth name
    rw [hadded]
    omega

theorem Metered.observeUsage (h : Metered accepted turn) (usage : Option Usage) :
    Metered (accepted ++ (turn.accepts (.tokenUsage usage)).toList) (turn.observeUsage usage) := by
  have hreject : Metered accepted (turn.rejectUsage turn.bandwidth) := h.of_bandwidth rfl
  cases usage with
  | none => simpa [Turn.accepts, Turn.observeUsage] using hreject
  | some current =>
    cases hchanged : tokenUsageCumulativeTotalChanged turn.usage current with
    | none => simpa [Turn.accepts, Turn.observeUsage, hchanged, Option.filter] using hreject
    | some changed =>
      have haccepts : (turn.accepts (.tokenUsage (some current))).toList = [current] := by
        simp [Turn.accepts, Option.filter, hchanged]
      rw [haccepts]
      cases hprevious : accepted.getLast? with
      | none =>
        rw [List.getLast?_eq_none_iff] at hprevious
        subst hprevious
        exact h.first hchanged
      | some previous => exact h.next hprevious hchanged

end Metered

end Danus.HotJoin.Telemetry
