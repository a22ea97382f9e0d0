import Danus.Verify.Scheduler
import Mathlib.Data.List.Nodup

/-! How the scheduler's queue, its active keys and its flights agree with the calls, whatever the
order of events. -/
namespace Danus.Verify
open Python Machines

variable {V : Type} {limits : SchedulerLimits} {codec : Codec V}

/-- `flight.state` is not terminal. -/
def FlightState.live : FlightState V → Bool
  | .queued | .running => true
  | .completed _ | .failed _ => false

/-- The call holds the slot. -/
def Pc.holds : Pc V → Bool
  | .launched | .working _ | .returning _ _ => true
  | _ => false

/-- The call leads a flight in this state. -/
def Pc.Leads : Pc V → FlightState V → Prop
  | .queued, .queued => True
  | .launched, .running | .working _, .running | .returning _ _, .running => True
  | .done _, .completed _ | .done _, .failed _ => True
  | _, _ => False

/-- The key and the state of a flight. -/
def Scheduler.shape (t : Scheduler V) (f : Nat) : Option (PyStr × FlightState V) :=
  (t.flights f).map fun flight => (flight.key, flight.state)

/-- The calls and the flights they lead or follow agree; a follower of a flight that is over has
been notified. -/
structure System.Linked (s : System V) : Prop where
  call_lt : ∀ c call, s.calls c = some call → c < s.next
  owner : ∀ f k st, s.scheduler.shape f = some (k, st) →
    ∃ call, s.calls f = some call ∧ call.key = k ∧ call.pc.Leads st
  led : ∀ c call, s.calls c = some call → call.pc = .queued ∨ call.pc.holds = true →
    ∃ st, s.scheduler.shape c = some (call.key, st) ∧ call.pc.Leads st
  following : ∀ c call f, s.calls c = some call → call.pc = .following f →
    ∃ st, s.scheduler.shape f = some (call.key, st) ∧ (st.live = false → call.notified = true)

/-- The active keys are the live flights', the queue lists the queued ones in their order of arrival,
and the slot is the one running flight's. -/
structure Scheduler.Ordered (t : Scheduler V) : Prop where
  active_mem : ∀ k f, (k, f) ∈ t.active ↔ ∃ st, t.shape f = some (k, st) ∧ st.live = true
  active_keys : (t.active.map Prod.fst).Nodup
  queue_mem : ∀ k, k ∈ t.queue ↔ ∃ f, t.shape f = some (k, .queued)
  queue_order : t.queue.Pairwise fun k k' => ∀ f f', t.shape f = some (k, .queued) →
    t.shape f' = some (k', .queued) → f < f'
  running : ∀ k, t.runningKey = some k ↔ ∃ f, t.shape f = some (k, .running)
  slot_first : ∀ f k f' k', t.shape f = some (k, .running) → t.shape f' = some (k', .queued) → f < f'

/-- While the slot is free, the leader at the head of the queue has been notified. -/
def System.HeadNotified (s : System V) : Prop :=
  s.scheduler.runningKey = none → ∀ k, s.scheduler.queue.head? = some k →
    ∀ c call, s.calls c = some call → call.pc = .queued → call.key = k → call.notified = true

/-- The scheduler's records agree with each other and with the calls. -/
structure System.Sound (s : System V) : Prop where
  linked : s.Linked
  ordered : s.scheduler.Ordered
  head : s.HeadNotified

namespace System.Linked
variable {s t : System V} (h : s.Linked)
include h

theorem shape_lt {f : Nat} {p : PyStr × FlightState V} (hf : s.scheduler.shape f = some p) :
    f < s.next := by
  obtain ⟨call, hc, _⟩ := h.owner f p.1 p.2 hf
  exact h.call_lt f call hc

/-- One call moves, and with it at most the flight it leads. -/
theorem update {c : Nat} {call' : Call V} (notes : Bool) (hn : s.next ≤ t.next) (hlt : c < t.next)
    (hc : t.calls c = some call')
    (hcalls : ∀ i, i ≠ c → t.calls i =
      (s.calls i).map fun call => { call with notified := call.notified || notes })
    (hshape : ∀ f, f ≠ c → t.scheduler.shape f = s.scheduler.shape f)
    (hown : ∀ k st, t.scheduler.shape c = some (k, st) → call'.key = k ∧ call'.pc.Leads st)
    (hled : call'.pc = .queued ∨ call'.pc.holds = true →
      ∃ st, t.scheduler.shape c = some (call'.key, st))
    (hfol : ∀ f, call'.pc = .following f →
      ∃ st, t.scheduler.shape f = some (call'.key, st) ∧ (st.live = false → call'.notified = true))
    (hkeep : ∀ k st, s.scheduler.shape c = some (k, st) → ∃ st', t.scheduler.shape c = some (k, st') ∧
      (st'.live = false → notes = true ∨ st.live = false)) : t.Linked := by
  have back : ∀ i call, t.calls i = some call → i ≠ c → ∃ old, s.calls i = some old ∧
      call = { old with notified := old.notified || notes } := by
    intro i call hi hne
    rw [hcalls i hne] at hi
    obtain ⟨old, ho, rfl⟩ := Option.map_eq_some_iff.mp hi
    exact ⟨old, ho, rfl⟩
  refine ⟨fun i call hi => ?_, fun f k st hf => ?_, fun i call hi hp => ?_, fun i call f hi hp => ?_⟩
  · by_cases hne : i = c
    · rwa [hne]
    · obtain ⟨old, ho, _⟩ := back i call hi hne
      exact (h.call_lt i old ho).trans_le hn
  · by_cases hne : f = c
    · subst hne
      exact ⟨call', hc, hown k st hf⟩
    · rw [hshape f hne] at hf
      obtain ⟨old, ho, hk, hl⟩ := h.owner f k st hf
      refine ⟨{ old with notified := old.notified || notes }, ?_, hk, hl⟩
      rw [hcalls f hne, ho, Option.map_some]
  · by_cases hne : i = c
    · subst hne
      obtain rfl : call' = call := Option.some.inj (hc.symm.trans hi)
      obtain ⟨st, hst⟩ := hled hp
      exact ⟨st, hst, (hown _ _ hst).2⟩
    · obtain ⟨old, ho, rfl⟩ := back i call hi hne
      rw [hshape i hne]
      exact h.led i old ho hp
  · by_cases hne : i = c
    · subst hne
      obtain rfl : call' = call := Option.some.inj (hc.symm.trans hi)
      exact hfol f hp
    · obtain ⟨old, ho, rfl⟩ := back i call hi hne
      obtain ⟨st, hst, hnote⟩ := h.following i old f ho hp
      by_cases hfc : f = c
      · subst hfc
        obtain ⟨st', hst', hend⟩ := hkeep _ _ hst
        refine ⟨st', hst', fun hl => ?_⟩
        rcases hend hl with hl | hl
        · simp [hl]
        · simp [hnote hl]
      · refine ⟨st, by rwa [hshape f hfc], fun hl => ?_⟩
        simp [hnote hl]

end System.Linked

namespace Scheduler.Ordered
variable {s t : Scheduler V} (h : s.Ordered)
include h

/-- Two live flights of one key are the same. -/
theorem live_unique {f f' : Nat} {k : PyStr} {st st' : FlightState V}
    (hf : s.shape f = some (k, st)) (hl : st.live = true)
    (hf' : s.shape f' = some (k, st')) (hl' : st'.live = true) : f = f' := by
  have hm := (h.active_mem k f).mpr ⟨st, hf, hl⟩
  have hm' := (h.active_mem k f').mpr ⟨st', hf', hl'⟩
  exact congrArg Prod.snd (List.inj_on_of_nodup_map h.active_keys hm hm' rfl)

theorem queue_nodup : s.queue.Nodup := by
  refine h.queue_order.imp_of_mem ?_
  rintro k k' hk _ hlt rfl
  obtain ⟨f, hf⟩ := (h.queue_mem k).mp hk
  exact (hlt f f hf hf).false

/-- Whatever else changes, the same queue, keys and flights stay ordered. -/
theorem congr (hq : t.queue = s.queue) (ha : t.active = s.active)
    (hr : t.runningKey = s.runningKey) (hs : t.shape = s.shape) : t.Ordered := by
  obtain ⟨h1, h2, h3, h4, h5, h6⟩ := h
  constructor
  · rwa [ha, hs]
  · rwa [ha]
  · rwa [hq, hs]
  · rwa [hq, hs]
  · rwa [hr, hs]
  · rwa [hs]

/-- A new live flight of a free key. -/
theorem activated {key : PyStr} {id : Nat} {st : FlightState V} (hl : st.live = true)
    (hnone : s.shape id = none) (hkey : ∀ f, (key, f) ∉ s.active)
    (ha : t.active = s.active ++ [(key, id)])
    (hs : t.shape = Function.update s.shape id (some (key, st))) :
    (∀ k f, (k, f) ∈ t.active ↔ ∃ st, t.shape f = some (k, st) ∧ st.live = true) ∧
      (t.active.map Prod.fst).Nodup := by
  constructor
  · intro k f
    rw [ha, hs, List.mem_append, List.mem_singleton, Prod.mk.injEq, h.active_mem]
    by_cases hfi : f = id
    · rw [hfi, Function.update_self, hnone]
      constructor
      · rintro (⟨_, hf, _⟩ | ⟨rfl, _⟩)
        · cases hf
        · exact ⟨st, rfl, hl⟩
      · rintro ⟨_, hf, _⟩
        cases hf
        exact .inr ⟨rfl, rfl⟩
    · simp [hfi]
  · rw [ha, List.map_append, List.nodup_append]
    refine ⟨h.active_keys, by simp, ?_⟩
    rintro k hk _ hk' rfl
    obtain ⟨⟨k', f⟩, hm, rfl⟩ := List.mem_map.mp hk
    simp only [List.map_cons, List.map_nil, List.mem_singleton] at hk'
    exact hkey f (hk' ▸ hm)

/-- A new flight of a free key takes the free slot. -/
theorem launched {key : PyStr} {id : Nat} (hid : ∀ f p, s.shape f = some p → f < id)
    (hkey : ∀ f, (key, f) ∉ s.active) (hrun : s.runningKey = none) (hempty : s.queue = [])
    (hq : t.queue = s.queue) (ha : t.active = s.active ++ [(key, id)])
    (hr : t.runningKey = some key)
    (hs : t.shape = Function.update s.shape id (some (key, .running))) : t.Ordered := by
  have hnone : s.shape id = none := by
    cases hf : s.shape id with
    | none => rfl
    | some p => exact (hid id p hf).false.elim
  have hqueued : ∀ f k, s.shape f ≠ some (k, .queued) := by
    intro f k hf
    have hm := (h.queue_mem k).mpr ⟨f, hf⟩
    simp [hempty] at hm
  have hidle : ∀ f k, s.shape f ≠ some (k, .running) := by
    intro f k hf
    have hm := (h.running k).mpr ⟨f, hf⟩
    simp [hrun] at hm
  obtain ⟨hmem, hkeys⟩ := h.activated rfl hnone hkey ha hs
  refine ⟨hmem, hkeys, fun k => ?_, ?_, fun k => ?_, fun f k f' k' hf hf' => ?_⟩
  · rw [hq, hs, hempty]
    simp only [List.not_mem_nil, false_iff, not_exists]
    intro f
    by_cases hfi : f = id
    · simp [hfi]
    · simpa [hfi] using hqueued f k
  · rw [hq, hempty]
    exact .nil
  · rw [hr, hs]
    constructor
    · intro hk
      exact ⟨id, by simpa using (Option.some.inj hk)⟩
    · rintro ⟨f, hf⟩
      by_cases hfi : f = id
      · subst hfi
        simpa using hf
      · rw [Function.update_of_ne hfi] at hf
        exact (hidle f k hf).elim
  · rw [hs] at hf'
    by_cases hfi : f' = id
    · simp [hfi] at hf'
    · rw [Function.update_of_ne hfi] at hf'
      exact (hqueued f' k' hf').elim

/-- A new flight of a free key queues behind every other. -/
theorem queued {key : PyStr} {id : Nat} (hid : ∀ f p, s.shape f = some p → f < id)
    (hkey : ∀ f, (key, f) ∉ s.active) (hq : t.queue = s.queue ++ [key])
    (ha : t.active = s.active ++ [(key, id)]) (hr : t.runningKey = s.runningKey)
    (hs : t.shape = Function.update s.shape id (some (key, .queued))) : t.Ordered := by
  have hnone : s.shape id = none := by
    cases hf : s.shape id with
    | none => rfl
    | some p => exact (hid id p hf).false.elim
  have hfree : ∀ f st, s.shape f = some (key, st) → st.live = false := by
    intro f st hf
    cases hl : st.live with
    | false => rfl
    | true => exact (hkey f ((h.active_mem key f).mpr ⟨st, hf, hl⟩)).elim
  have hold : ∀ f k st, t.shape f = some (k, st) → f ≠ id → s.shape f = some (k, st) := by
    intro f k st hf hne
    rwa [hs, Function.update_of_ne hne] at hf
  have hnew : ∀ k st, t.shape id = some (k, st) → k = key ∧ st = .queued := by
    intro k st hf
    rw [hs, Function.update_self] at hf
    cases hf
    exact ⟨rfl, rfl⟩
  obtain ⟨hmem, hkeys⟩ := h.activated rfl hnone hkey ha hs
  refine ⟨hmem, hkeys, fun k => ?_, ?_, fun k => ?_, fun f k f' k' hf hf' => ?_⟩
  · rw [hq, List.mem_append, List.mem_singleton, h.queue_mem]
    constructor
    · rintro (⟨f, hf⟩ | rfl)
      · have hne : f ≠ id := (hid f _ hf).ne
        exact ⟨f, by rw [hs, Function.update_of_ne hne, hf]⟩
      · exact ⟨id, by rw [hs, Function.update_self]⟩
    · rintro ⟨f, hf⟩
      by_cases hfi : f = id
      · subst hfi
        exact .inr (hnew _ _ hf).1
      · exact .inl ⟨f, hold _ _ _ hf hfi⟩
  · rw [hq, List.pairwise_append]
    refine ⟨h.queue_order.imp_of_mem ?_, List.pairwise_singleton _ _, ?_⟩
    · intro k k' hk hk' hlt f f' hf hf'
      have hne : ∀ x ∈ s.queue, x ≠ key := by
        rintro x hx rfl
        obtain ⟨g, hg⟩ := (h.queue_mem x).mp hx
        have hl := hfree g _ hg
        cases hl
      have hfi : f ≠ id := fun he => hne k hk (hnew _ _ (he ▸ hf)).1
      have hfi' : f' ≠ id := fun he => hne k' hk' (hnew _ _ (he ▸ hf')).1
      exact hlt f f' (hold _ _ _ hf hfi) (hold _ _ _ hf' hfi')
    · intro k hk k' hk' f f' hf hf'
      rw [List.mem_singleton] at hk'
      subst hk'
      have hfi : f ≠ id := by
        rintro rfl
        obtain ⟨g, hg⟩ := (h.queue_mem k).mp hk
        have hl := hfree g _ ((hnew _ _ hf).1 ▸ hg)
        cases hl
      have hlt := hid f _ (hold _ _ _ hf hfi)
      by_cases hfi' : f' = id
      · rwa [hfi']
      · have hl := hfree f' _ (hold _ _ _ hf' hfi')
        cases hl
  · rw [hr, h.running]
    constructor
    · rintro ⟨f, hf⟩
      have hne : f ≠ id := (hid f _ hf).ne
      exact ⟨f, by rw [hs, Function.update_of_ne hne, hf]⟩
    · rintro ⟨f, hf⟩
      by_cases hfi : f = id
      · subst hfi
        have hst := (hnew _ _ hf).2
        cases hst
      · exact ⟨f, hold _ _ _ hf hfi⟩
  · have hfi : f ≠ id := by
      rintro rfl
      have hst := (hnew _ _ hf).2
      cases hst
    by_cases hfi' : f' = id
    · rw [hfi']
      exact hid f _ (hold _ _ _ hf hfi)
    · exact h.slot_first f k f' k' (hold _ _ _ hf hfi) (hold _ _ _ hf' hfi')

/-- The head of the queue takes the free slot. -/
theorem popped {key : PyStr} {c : Nat} {rest : List PyStr} (hrun : s.runningKey = none)
    (hqueue : s.queue = key :: rest) (hc : s.shape c = some (key, .queued)) (hq : t.queue = rest)
    (ha : t.active = s.active) (hr : t.runningKey = some key)
    (hs : t.shape = Function.update s.shape c (some (key, .running))) : t.Ordered := by
  have hold : ∀ f k st, t.shape f = some (k, st) → f ≠ c → s.shape f = some (k, st) := by
    intro f k st hf hne
    rwa [hs, Function.update_of_ne hne] at hf
  have hnew : ∀ k st, t.shape c = some (k, st) → k = key ∧ st = .running := by
    intro k st hf
    rw [hs, Function.update_self] at hf
    cases hf
    exact ⟨rfl, rfl⟩
  have hidle : ∀ f k, s.shape f ≠ some (k, .running) := by
    intro f k hf
    have hm := (h.running k).mpr ⟨f, hf⟩
    simp [hrun] at hm
  have hnodup := h.queue_nodup
  rw [hqueue, List.nodup_cons] at hnodup
  have horder := h.queue_order
  rw [hqueue, List.pairwise_cons] at horder
  have hwait : ∀ f k, t.shape f = some (k, .queued) → f ≠ c ∧ k ∈ rest ∧ s.shape f = some (k, .queued) := by
    intro f k hf
    have hne : f ≠ c := by
      rintro rfl
      have hst := (hnew _ _ hf).2
      cases hst
    have hsf := hold _ _ _ hf hne
    have hm := (h.queue_mem k).mpr ⟨f, hsf⟩
    rw [hqueue] at hm
    rcases List.mem_cons.mp hm with rfl | hm
    · exact (hne (h.live_unique hsf rfl hc rfl)).elim
    · exact ⟨hne, hm, hsf⟩
  refine ⟨fun k f => ?_, by rw [ha]; exact h.active_keys, fun k => ?_, ?_, fun k => ?_,
    fun f k f' k' hf hf' => ?_⟩
  · rw [ha, h.active_mem]
    by_cases hfc : f = c
    · rw [hfc, hc, hs, Function.update_self]
      constructor
      · rintro ⟨_, he, _⟩
        cases he
        exact ⟨_, rfl, rfl⟩
      · rintro ⟨_, he, _⟩
        cases he
        exact ⟨_, rfl, rfl⟩
    · rw [hs, Function.update_of_ne hfc]
  · rw [hq]
    constructor
    · intro hk
      have hm : k ∈ s.queue := hqueue ▸ List.mem_cons_of_mem _ hk
      obtain ⟨f, hf⟩ := (h.queue_mem k).mp hm
      have hne : f ≠ c := by
        rintro rfl
        rw [hc] at hf
        cases hf
        exact hnodup.1 hk
      exact ⟨f, by rw [hs, Function.update_of_ne hne, hf]⟩
    · rintro ⟨f, hf⟩
      exact (hwait f k hf).2.1
  · rw [hq]
    refine horder.2.imp ?_
    intro k k' hlt f f' hf hf'
    exact hlt f f' (hwait f k hf).2.2 (hwait f' k' hf').2.2
  · rw [hr]
    constructor
    · intro hk
      cases hk
      exact ⟨c, by rw [hs, Function.update_self]⟩
    · rintro ⟨f, hf⟩
      by_cases hfc : f = c
      · subst hfc
        rw [(hnew _ _ hf).1]
      · exact (hidle f k (hold _ _ _ hf hfc)).elim
  · obtain ⟨_, hk', hsf'⟩ := hwait f' k' hf'
    have hfc : f = c := by
      by_contra hne
      exact hidle f k (hold _ _ _ hf hne)
    rw [hfc]
    exact horder.1 k' hk' c f' hc hsf'

/-- A live flight ends: its key leaves the queue, the slot and the active keys. -/
theorem ended {key : PyStr} {c : Nat} {st st' : FlightState V} (hc : s.shape c = some (key, st))
    (hl : st.live = true) (hl' : st'.live = false) (hq : t.queue = s.queue.erase key)
    (ha : t.active = eraseKey key s.active)
    (hr : ∀ k, t.runningKey = some k ↔ s.runningKey = some k ∧ k ≠ key)
    (hs : t.shape = Function.update s.shape c (some (key, st'))) : t.Ordered := by
  have hlive : ∀ f k st, t.shape f = some (k, st) → st.live = true →
      k ≠ key ∧ s.shape f = some (k, st) := by
    intro f k st₁ hf hl₁
    have hne : f ≠ c := by
      rintro rfl
      rw [hs, Function.update_self] at hf
      cases hf
      simp [hl'] at hl₁
    rw [hs, Function.update_of_ne hne] at hf
    refine ⟨?_, hf⟩
    rintro rfl
    exact hne (h.live_unique hf hl₁ hc hl)
  have hback : ∀ f k st, s.shape f = some (k, st) → k ≠ key → t.shape f = some (k, st) := by
    intro f k st₁ hf hk
    have hne : f ≠ c := by
      rintro rfl
      rw [hc] at hf
      cases hf
      exact hk rfl
    rwa [hs, Function.update_of_ne hne]
  refine ⟨fun k f => ?_, ?_, fun k => ?_, ?_, fun k => ?_, fun f k f' k' hf hf' => ?_⟩
  · rw [ha, mem_eraseKey, h.active_mem]
    constructor
    · rintro ⟨⟨st₁, hf, hl₁⟩, hk⟩
      exact ⟨st₁, hback f k st₁ hf hk, hl₁⟩
    · rintro ⟨st₁, hf, hl₁⟩
      obtain ⟨hk, hf'⟩ := hlive f k st₁ hf hl₁
      exact ⟨⟨st₁, hf', hl₁⟩, hk⟩
  · rw [ha, eraseKey]
    exact h.active_keys.sublist (List.filter_sublist.map _)
  · rw [hq, h.queue_nodup.mem_erase_iff, h.queue_mem]
    constructor
    · rintro ⟨hk, f, hf⟩
      exact ⟨f, hback f k _ hf hk⟩
    · rintro ⟨f, hf⟩
      obtain ⟨hk, hf'⟩ := hlive f k _ hf rfl
      exact ⟨hk, f, hf'⟩
  · rw [hq]
    refine (h.queue_order.sublist (List.erase_sublist)).imp ?_
    intro k k' hlt f f' hf hf'
    exact hlt f f' (hlive f k _ hf rfl).2 (hlive f' k' _ hf' rfl).2
  · rw [hr, h.running]
    constructor
    · rintro ⟨⟨f, hf⟩, hk⟩
      exact ⟨f, hback f k _ hf hk⟩
    · rintro ⟨f, hf⟩
      obtain ⟨hk, hf'⟩ := hlive f k _ hf rfl
      exact ⟨⟨f, hf'⟩, hk⟩
  · exact h.slot_first f k f' k' (hlive f k _ hf rfl).2 (hlive f' k' _ hf' rfl).2

end Scheduler.Ordered
end Danus.Verify
