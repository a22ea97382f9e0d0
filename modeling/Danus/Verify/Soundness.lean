import Danus.Verify.Moves

/-! Every move keeps the scheduler's records in agreement. -/
namespace Danus.Verify
open Python Machines

variable {V : Type} {limits : SchedulerLimits} {codec : Codec V} {s t : System V}

section Shapes
variable {u v : Scheduler V} {f : Nat} {flight : Flight V}

theorem Scheduler.shape_eq (hf : u.flights f = some flight) :
    u.shape f = some (flight.key, flight.state) := by
  rw [Scheduler.shape, hf, Option.map_some]

theorem Scheduler.shape_congr (h : v.flights = u.flights) : v.shape = u.shape := by
  funext f
  rw [Scheduler.shape, Scheduler.shape, h]

theorem Scheduler.shape_update (h : v.flights = Function.update u.flights f (some flight)) :
    v.shape = Function.update u.shape f (some (flight.key, flight.state)) := by
  funext i
  rw [Scheduler.shape, h]
  by_cases hi : i = f
  · subst hi
    simp
  · simp [hi, Scheduler.shape]

/-- An update of a flight's waiters keeps its shape. -/
theorem Scheduler.shape_waiters (waiters : Nat) (hf : u.flights f = some flight)
    (h : v.flights = Function.update u.flights f (some { flight with joinedWaiters := waiters })) :
    v.shape = u.shape := by
  rw [Scheduler.shape_update h]
  exact Function.update_eq_self_iff.mpr (Scheduler.shape_eq hf).symm

end Shapes

/-- A call that neither leads a flight nor waits for one may take any place. -/
theorem System.Linked.settle (h : s.Linked) {c : Nat} {call : Call V} (notes : Bool)
    (hn : s.next ≤ t.next) (hlt : c < t.next) (hc : t.calls c = some call)
    (hcalls : ∀ i, i ≠ c → t.calls i =
      (s.calls i).map fun call => { call with notified := call.notified || notes })
    (hshape : t.scheduler.shape = s.scheduler.shape) (hnone : s.scheduler.shape c = none)
    (hidle : call.pc ≠ .queued ∧ call.pc.holds = false)
    (hfol : ∀ f, call.pc = .following f →
      ∃ st, s.scheduler.shape f = some (call.key, st) ∧ (st.live = false → call.notified = true)) :
    t.Linked := by
  refine h.update notes hn hlt hc hcalls (fun f _ => congrFun hshape f) ?_ ?_ ?_ ?_
  · intro k st hst
    rw [hshape, hnone] at hst
    cases hst
  · rintro (hp | hp)
    · exact (hidle.1 hp).elim
    · simp [hidle.2] at hp
  · rw [hshape]
    exact hfol
  · intro k st hst
    rw [hnone] at hst
    cases hst

theorem System.HeadNotified.of_all
    (h : ∀ i call, t.calls i = some call → call.pc = .queued → call.notified = true) :
    t.HeadNotified := fun _ _ _ c call hc hp _ => h c call hc hp

/-- The head stays notified when one call moves that is not the head. -/
theorem System.HeadNotified.update (h : s.HeadNotified) {c : Nat} {call : Call V}
    (hr : t.scheduler.runningKey = s.scheduler.runningKey)
    (hq : t.scheduler.queue = s.scheduler.queue)
    (hc : t.calls = Function.update s.calls c (some call))
    (hp : call.pc = .queued → ¬ (s.scheduler.runningKey = none ∧
      s.scheduler.queue.head? = some call.key)) : t.HeadNotified := by
  intro hrun k hk i call' hi hp' hkey
  rw [hr] at hrun
  rw [hq] at hk
  rw [hc] at hi
  by_cases hic : i = c
  · rw [hic, Function.update_self] at hi
    cases hi
    exact (hp hp' ⟨hrun, hkey ▸ hk⟩).elim
  · rw [Function.update_of_ne hic] at hi
    exact h hrun k hk i call' hi hp' hkey

section Steps
variable {c f : Nat} {call : Call V}

theorem System.arrive_calls (s : System V) (call : Call V) :
    (s.arrive call).calls = Function.update s.calls s.next (some call) := rfl

theorem map_notes {call : Option (Call V)} :
    (call.map fun call => { call with notified := call.notified || false }) = call := by
  cases call <;> simp

theorem update_notes {calls : Nat → Option (Call V)} {c i : Nat} {call : Call V} (hi : i ≠ c) :
    Function.update calls c (some call) i =
      (calls i).map fun call => { call with notified := call.notified || false } := by
  rw [Function.update_of_ne hi, map_notes]

theorem notify_notes {s : System V} {c i : Nat} {call : Call V} (hi : i ≠ c) :
    Function.update (s.notifyAll).calls c (some call) i =
      (s.calls i).map fun call => { call with notified := call.notified || true } := by
  rw [Function.update_of_ne hi]
  simp [System.notifyAll]

/-- After a notification only the moved call can be unaware. -/
theorem System.HeadNotified.of_notifyAll {u : System V} (hp : call.pc ≠ .queued) :
    (u.notifyAll.setCall c call).HeadNotified := by
  refine .of_all fun i call' hi hq => ?_
  change Function.update u.notifyAll.calls c (some call) i = some call' at hi
  by_cases hic : i = c
  · rw [hic, Function.update_self] at hi
    cases hi
    exact (hp hq).elim
  · rw [Function.update_of_ne hic] at hi
    obtain ⟨old, _, rfl⟩ := Option.map_eq_some_iff.mp hi
    rfl

/-- A call that has arrived beside the flights. -/
theorem System.Sound.arrived (h : s.Sound) {u : Scheduler V} (hk : s.scheduler.Kept u)
    (hs : u.shape = s.scheduler.shape) (hidle : call.pc ≠ .queued ∧ call.pc.holds = false)
    (hfol : ∀ f, call.pc = .following f →
      ∃ st, s.scheduler.shape f = some (call.key, st) ∧ (st.live = false → call.notified = true)) :
    ({ s with scheduler := u }.arrive call).Sound := by
  have hnone : s.scheduler.shape s.next = none := by
    cases hf : s.scheduler.shape s.next with
    | none => rfl
    | some p => exact (h.linked.shape_lt hf).false.elim
  refine ⟨?_, ?_, ?_⟩
  · refine h.linked.settle false (Nat.le_succ _) (Nat.lt_succ_self _) ?_ ?_ hs hnone hidle hfol
    · exact Function.update_self ..
    · exact fun i hi => update_notes hi
  · exact h.ordered.congr hk.queue hk.active hk.runningKey hs
  · refine h.head.update hk.runningKey hk.queue (System.arrive_calls _ _) ?_
    exact fun hp => (hidle.1 hp).elim

/-- A call that has arrived with a flight of its own. -/
theorem System.Sound.led (h : s.Sound) {u : Scheduler V} {st : FlightState V}
    (hs : u.shape = Function.update s.scheduler.shape s.next (some (call.key, st)))
    (hl : call.pc.Leads st) (hnf : ∀ f, call.pc ≠ .following f) (ho : u.Ordered)
    (hhead : ({ s with scheduler := u }.arrive call).HeadNotified) :
    ({ s with scheduler := u }.arrive call).Sound := by
  refine ⟨?_, ho, hhead⟩
  have hcur : u.shape s.next = some (call.key, st) := by rw [hs, Function.update_self]
  refine h.linked.update false (Nat.le_succ _) (Nat.lt_succ_self _) (Function.update_self ..)
    (fun i hi => update_notes hi) (fun f hf => ?_) (fun k st' hst => ?_) (fun _ => ⟨st, hcur⟩)
    (fun f hp => (hnf f hp).elim) fun k st' hst => ?_
  · change u.shape f = _
    rw [hs, Function.update_of_ne hf]
  · change u.shape s.next = some (k, st') at hst
    rw [hcur] at hst
    cases hst
    exact ⟨rfl, hl⟩
  · exact (h.linked.shape_lt hst).false.elim

/-- A leader's own flight. -/
theorem System.Sound.own (h : s.Sound) (hc : s.calls c = some call)
    (hp : call.pc = .queued ∨ call.pc.holds = true) : ∃ flight, s.scheduler.flights c = some flight ∧
      flight.key = call.key ∧ call.pc.Leads flight.state := by
  obtain ⟨st, hst, hl⟩ := h.linked.led c call hc hp
  obtain ⟨flight, hf, he⟩ := Option.map_eq_some_iff.mp hst
  rw [Prod.mk.injEq] at he
  exact ⟨flight, hf, he.1, he.2 ▸ hl⟩

theorem Pc.Leads.running {pc : Pc V} {st : FlightState V} (h : pc.Leads st)
    (hp : pc.holds = true) : st = .running := by
  cases pc <;> cases st <;> simp_all [Pc.holds, Pc.Leads]

theorem Pc.Leads.queued {st : FlightState V} (h : (Pc.queued : Pc V).Leads st) : st = .queued := by
  cases st <;> simp_all [Pc.Leads]

/-- A leader moves within its flight's state. -/
theorem System.Sound.stays (h : s.Sound) {pc : Pc V} (hc : s.calls c = some call)
    (hp : call.pc.holds = true) (hp' : pc.holds = true)
    (hs : t.scheduler = s.scheduler) (hn : t.next = s.next)
    (hcalls : t.calls = Function.update s.calls c (some { call with pc := pc })) : t.Sound := by
  obtain ⟨flight, hf, hk, hl⟩ := h.own hc (.inr hp)
  have hst : s.scheduler.shape c = some (call.key, .running) := by
    rw [Scheduler.shape_eq hf, hk, hl.running hp]
  have hlead : pc.Leads .running := by
    cases pc <;> simp [Pc.holds] at hp' <;> exact trivial
  have hcur : t.calls c = some { call with pc := pc } := by rw [hcalls, Function.update_self]
  refine ⟨?_, hs ▸ h.ordered, ?_⟩
  · refine h.linked.update false hn.ge ?_ hcur ?_ (fun f _ => by rw [hs]) ?_ ?_ ?_ ?_
    · rw [hn]
      exact h.linked.call_lt c call hc
    · intro i hi
      rw [hcalls]
      exact update_notes hi
    · intro k st hk
      rw [hs, hst] at hk
      cases hk
      exact ⟨rfl, hlead⟩
    · rw [hs]
      exact fun _ => ⟨_, hst⟩
    · intro f hf
      rw [show pc = .following f from hf] at hp'
      cases hp'
    · intro k st hk
      rw [hs]
      exact ⟨st, hk, .inr⟩
  · refine h.head.update (by rw [hs]) (by rw [hs]) hcalls ?_
    intro hq
    rw [show pc = .queued from hq] at hp'
    cases hp'

/-- A waiting call goes back to its wait. -/
theorem System.Sound.waits (h : s.Sound) (hc : s.calls c = some call)
    (hq : call.pc = .queued → ¬ (s.scheduler.runningKey = none ∧
      s.scheduler.queue.head? = some call.key))
    (hf : ∀ f, call.pc = .following f → ∃ k st, s.scheduler.shape f = some (k, st) ∧ st.live = true) :
    (s.setCall c { call with notified := false }).Sound := by
  refine ⟨?_, h.ordered, h.head.update rfl rfl rfl hq⟩
  refine h.linked.update false le_rfl (h.linked.call_lt c call hc) (Function.update_self ..)
    (fun i hi => update_notes hi) (fun f _ => rfl) (fun k st hst => ?_) (fun hp => ?_)
    (fun f hp => ?_) fun k st hst => ⟨st, hst, .inr⟩
  · obtain ⟨old, ho, hk, hl⟩ := h.linked.owner c k st hst
    rw [hc] at ho
    cases ho
    exact ⟨hk, hl⟩
  · obtain ⟨st, hst, _⟩ := h.linked.led c call hc hp
    exact ⟨st, hst⟩
  · obtain ⟨st, hst, _⟩ := h.linked.following c call f hc hp
    obtain ⟨k, st', hst', hl⟩ := hf f hp
    refine ⟨st, hst, fun hdead => ?_⟩
    have hst₂ : s.scheduler.shape f = some (call.key, st) := hst
    rw [hst'] at hst₂
    cases hst₂
    simp [hl] at hdead

/-- A follower is over. -/
theorem System.Sound.leave (h : s.Sound) {r : Except CallError (SchedulerReceipt V)}
    (hc : s.calls c = some call) (hp : call.pc = .following f) : (s.leave c f call r).Sound := by
  obtain ⟨st, hst, _⟩ := h.linked.following c call f hc hp
  obtain ⟨flight, hflight, he⟩ := Option.map_eq_some_iff.mp hst
  have hshape : (s.leave c f call r).scheduler.shape = s.scheduler.shape := by
    refine Scheduler.shape_waiters (flight.joinedWaiters - 1) hflight ?_
    simp [System.leave, System.setCall, System.notifyAll, hflight]
  have hnone : ∀ k st, s.scheduler.shape c ≠ some (k, st) := by
    intro k st' hk
    obtain ⟨old, ho, _, hl⟩ := h.linked.owner c k st' hk
    rw [hc] at ho
    cases ho
    rw [hp] at hl
    cases st' <;> exact hl
  refine ⟨?_, ?_, .of_notifyAll (by simp)⟩
  · refine h.linked.settle true le_rfl (h.linked.call_lt c call hc) (Function.update_self ..)
      (fun i hi => notify_notes hi) hshape ?_ ⟨by simp, rfl⟩ (by simp)
    cases hs : s.scheduler.shape c with
    | none => rfl
    | some p => exact (hnone p.1 p.2 hs).elim
  · exact h.ordered.congr rfl rfl rfl hshape

/-- A leader is over, and its flight with it. -/
theorem System.Sound.ended (h : s.Sound) {u : System V} {st : FlightState V}
    {r : Except CallError (SchedulerReceipt V)} (hc : s.calls c = some call)
    (hl : st.live = false) (hu : u.calls = s.calls) (hn : u.next = s.next)
    (hs : u.scheduler.shape = Function.update s.scheduler.shape c (some (call.key, st)))
    (ho : u.scheduler.Ordered) :
    (u.notifyAll.setCall c { call with pc := .done r }).Sound := by
  have hcur : u.scheduler.shape c = some (call.key, st) := by rw [hs, Function.update_self]
  refine ⟨?_, ho, .of_notifyAll (by simp)⟩
  refine h.linked.update true hn.ge ?_ (Function.update_self ..) ?_ ?_ ?_ (by simp [Pc.holds])
    (by simp) ?_
  · change c < u.next
    rw [hn]
    exact h.linked.call_lt c call hc
  · intro i hi
    rw [← hu]
    exact notify_notes hi
  · intro f hf
    change u.scheduler.shape f = _
    rw [hs, Function.update_of_ne hf]
  · intro k st' hk
    change u.scheduler.shape c = some (k, st') at hk
    rw [hcur] at hk
    cases hk
    refine ⟨rfl, ?_⟩
    cases st with
    | completed v => exact trivial
    | failed e => exact trivial
    | queued => cases hl
    | running => cases hl
  · intro k st' hk
    obtain ⟨old, hold, hkey, _⟩ := h.linked.owner c k st' hk
    rw [hc] at hold
    cases hold
    exact ⟨st, hkey ▸ hcur, fun _ => .inl rfl⟩

/-- A queued flight is retired. -/
theorem System.Sound.retire (h : s.Sound) {u : Scheduler V} {failure : Failure}
    {r : Except CallError (SchedulerReceipt V)} (hc : s.calls c = some call)
    (hp : call.pc = .queued) (hk : s.scheduler.Kept u) (hf : u.flights = s.scheduler.flights) :
    (({ s with scheduler := u }.retire c call.key failure).setCall c
      { call with pc := .done r }).Sound := by
  obtain ⟨flight, hflight, hkey, hl⟩ := h.own hc (.inl hp)
  rw [hp] at hl
  have hst := hl.queued
  have hcur : s.scheduler.shape c = some (call.key, .queued) := by
    rw [Scheduler.shape_eq hflight, hkey, hst]
  have hmem : (call.key, c) ∈ s.scheduler.active := (h.ordered.active_mem _ _).mpr ⟨_, hcur, rfl⟩
  have hlookup : u.active.lookup call.key = some c := by
    rw [hk.active]
    exact lookup_eq_some_of_nodup h.ordered.active_keys hmem
  set v : Scheduler V := { u with
    queue := u.queue.erase call.key
    totalWaiters := u.totalWaiters - 1
    flights := Function.update u.flights c ((u.flights c).map fun flight =>
      { flight with state := .failed failure })
    active := if u.active.lookup call.key = some c then eraseKey call.key u.active else u.active }
    with hv
  have hvs : v.shape = Function.update s.scheduler.shape c
      (some (call.key, .failed failure)) := by
    have hup : v.flights = Function.update s.scheduler.flights c
        (some { flight with state := .failed failure }) := by
      simp [hv, hf, hflight]
    rw [Scheduler.shape_update hup, ← hkey]
  refine h.ended (u := { s with scheduler := v }) hc rfl rfl rfl hvs ?_
  refine h.ordered.ended hcur rfl rfl ?_ ?_ ?_ hvs
  · exact congrArg (·.erase call.key) hk.queue
  · change (if u.active.lookup call.key = some c then eraseKey call.key u.active else u.active) = _
    rw [if_pos hlookup, hk.active]
  · intro k
    rw [show v.runningKey = s.scheduler.runningKey from hk.runningKey]
    refine ⟨fun hr => ⟨hr, ?_⟩, And.left⟩
    rintro rfl
    obtain ⟨f, hf⟩ := (h.ordered.running _).mp hr
    have he := h.ordered.live_unique hf rfl hcur rfl
    rw [he, hcur] at hf
    cases hf

/-- The slot holder's flight lands. -/
theorem System.Sound.land (h : s.Sound) {u : Scheduler V} {st : FlightState V}
    {r : Except CallError (SchedulerReceipt V)} (hc : s.calls c = some call)
    (hp : call.pc.holds = true) (hl : st.live = false) (hq : u.queue = s.scheduler.queue)
    (ha : u.active = s.scheduler.active) (hr : u.runningKey = s.scheduler.runningKey)
    (hf : u.flights = s.scheduler.flights) : (s.land c call u st r).Sound := by
  obtain ⟨flight, hflight, hkey, hlead⟩ := h.own hc (.inr hp)
  have hcur : s.scheduler.shape c = some (call.key, .running) := by
    rw [Scheduler.shape_eq hflight, hkey, hlead.running hp]
  have hrun : s.scheduler.runningKey = some call.key := (h.ordered.running _).mpr ⟨c, hcur⟩
  set v : Scheduler V := { u with
    flights := Function.update u.flights c ((u.flights c).map fun flight =>
      { flight with state := st })
    runningKey := if u.runningKey = some call.key then none else u.runningKey
    active := eraseKey call.key u.active } with hv
  have hvs : v.shape = Function.update s.scheduler.shape c (some (call.key, st)) := by
    have hup : v.flights = Function.update s.scheduler.flights c (some { flight with state := st }) := by
      simp [hv, hf, hflight]
    rw [Scheduler.shape_update hup, ← hkey]
  refine h.ended (u := { s with scheduler := v }) hc hl rfl rfl hvs ?_
  refine h.ordered.ended hcur rfl hl ?_ (by simp only [hv, ha]) ?_ hvs
  · -- the running key waits in no queue
    rw [show v.queue = s.scheduler.queue from hq, List.erase_of_not_mem]
    intro hm
    obtain ⟨f, hf⟩ := (h.ordered.queue_mem _).mp hm
    have he := h.ordered.live_unique hf rfl hcur rfl
    rw [he, hcur] at hf
    cases hf
  · intro k
    simp only [hv, hr, hrun, if_true, reduceCtorEq, false_iff, not_and, Option.some.injEq]
    exact fun he hne => hne he.symm

theorem System.Sound.launch (h : s.Sound) (hc : s.calls c = some call) (hp : call.pc = .queued)
    (hr : s.scheduler.runningKey = none) (hhead : s.scheduler.queue.head? = some call.key) :
    (s.launch c call).Sound := by
  obtain ⟨flight, hflight, hkey, hl⟩ := h.own hc (.inl hp)
  rw [hp] at hl
  have hcur : s.scheduler.shape c = some (call.key, .queued) := by
    rw [Scheduler.shape_eq hflight, hkey, hl.queued]
  obtain ⟨rest, hqueue⟩ : ∃ rest, s.scheduler.queue = call.key :: rest := by
    cases hq : s.scheduler.queue with
    | nil => simp [hq] at hhead
    | cons k rest =>
      rw [hq, List.head?_cons] at hhead
      cases hhead
      exact ⟨rest, rfl⟩
  have hvs : (s.launch c call).scheduler.shape =
      Function.update s.scheduler.shape c (some (call.key, .running)) := by
    have hup : (s.launch c call).scheduler.flights = Function.update s.scheduler.flights c
        (some { flight with state := .running }) := by
      simp [System.launch, System.setCall, hflight]
    rw [Scheduler.shape_update hup, ← hkey]
  have hnew : (s.launch c call).scheduler.shape c = some (call.key, .running) := by
    rw [hvs, Function.update_self]
  refine ⟨?_, ?_, ?_⟩
  · refine h.linked.update false le_rfl (h.linked.call_lt c call hc) (Function.update_self ..)
      (fun i hi => update_notes hi) (fun f hf => ?_) (fun k st hst => ?_) (fun _ => ⟨_, hnew⟩)
      (by simp) fun k st hst => ?_
    · rw [hvs, Function.update_of_ne hf]
    · rw [hnew] at hst
      cases hst
      exact ⟨rfl, trivial⟩
    · rw [hcur] at hst
      cases hst
      exact ⟨_, hnew, fun hdead => by cases hdead⟩
  · refine h.ordered.popped hr hqueue hcur ?_ rfl rfl hvs
    change s.scheduler.queue.tail = rest
    rw [hqueue, List.tail_cons]
  · intro hnone
    cases hnone

end Steps

/-- Every move keeps the records in agreement. -/
theorem Move.sound (h : s.Sound) (hm : Move limits codec s t) : t.Sound := by
  cases hm with
  | answered hk hf _ => exact h.arrived hk (Scheduler.shape_congr hf) ⟨by simp, rfl⟩ (by simp)
  | @joined u key joinedAt f flight hk hm hf hu =>
    refine h.arrived hk (Scheduler.shape_waiters _ hf hu) ⟨by simp, rfl⟩ ?_
    rintro _ ⟨⟩
    obtain ⟨st, hst, hl⟩ := (h.ordered.active_mem key f).mp hm
    exact ⟨st, hst, fun hdead => by simp [hl] at hdead⟩
  | @launched u key joinedAt hfree hrun hempty hq ha hr hcache hu =>
    have hs := Scheduler.shape_update hu
    refine h.led hs trivial (by simp) ?_ ?_
    · exact h.ordered.launched (fun f p hf => h.linked.shape_lt hf) hfree hrun hempty hq ha hr hs
    · intro hnone
      change u.runningKey = none at hnone
      rw [hr] at hnone
      cases hnone
  | @queued u key joinedAt hfree hbusy hq ha hr hcache hu =>
    have hs := Scheduler.shape_update hu
    refine h.led hs trivial (by simp) ?_ ?_
    · exact h.ordered.queued (fun f p hf => h.linked.shape_lt hf) hfree hq ha hr hs
    · -- the newcomer is not the head
      intro hnone k hk i call hi hp hkey
      change u.runningKey = none at hnone
      rw [hr] at hnone
      have hne := hbusy hnone
      have hhead : s.scheduler.queue.head? = some k := by
        change u.queue.head? = some k at hk
        rw [hq] at hk
        rwa [List.head?_append_of_ne_nil _ hne] at hk
      rw [System.arrive_calls] at hi
      by_cases hic : i = s.next
      · rw [hic, Function.update_self] at hi
        cases hi
        obtain ⟨f, hf⟩ := (h.ordered.queue_mem k).mp (List.mem_of_mem_head? hhead)
        exact (hfree f ((h.ordered.active_mem key f).mpr ⟨_, hkey ▸ hf, rfl⟩)).elim
      · rw [Function.update_of_ne hic] at hi
        exact h.head hnone k hhead i call hi hp hkey
  | timedOut hc hp => exact h.retire hc hp ⟨rfl, rfl, rfl, fun _ h => h⟩ rfl
  | abandoned hc hp => exact h.retire hc hp ⟨rfl, rfl, rfl, fun _ h => h⟩ rfl
  | popped hc hp hr hq => exact h.launch hc hp hr hq
  | waits hc hp hq =>
    refine h.waits hc (fun _ => hq) fun f hf => ?_
    rw [hp] at hf
    cases hf
  | follows hc hp hf hl =>
    refine h.waits hc (fun hq => ?_) fun f' hf' => ?_
    · rw [hp] at hq
      cases hq
    · rw [hp] at hf'
      cases hf'
      exact ⟨_, _, Scheduler.shape_eq hf, hl⟩
  | left hc hp _ _ => exact h.leave hc hp
  | gaveUp hc hp => exact h.leave hc hp
  | started hc hp => exact h.stays hc (by rw [hp]; rfl) rfl rfl rfl rfl
  | worked hc hp => exact h.stays hc (by rw [hp]; rfl) rfl rfl rfl rfl
  | failed hc hp _ => exact h.land hc (by rw [hp]; rfl) rfl rfl rfl rfl rfl
  | @published c ms call value encoded now hc hp _ =>
    have hsame : ∀ u : Scheduler V, (u.cacheResult limits call.key encoded now).queue = u.queue ∧
        (u.cacheResult limits call.key encoded now).active = u.active ∧
        (u.cacheResult limits call.key encoded now).runningKey = u.runningKey ∧
        (u.cacheResult limits call.key encoded now).flights = u.flights := by
      intro u
      unfold Scheduler.cacheResult
      split_ifs <;> exact ⟨rfl, rfl, rfl, rfl⟩
    obtain ⟨h1, h2, h3, h4⟩ := hsame (s.scheduler.purgeExpired now)
    exact h.land hc (by rw [hp]; rfl) rfl h1 h2 h3 h4

theorem System.sound_initial : (System.initial : System V).Sound := by
  refine ⟨⟨?_, ?_, ?_, ?_⟩, ⟨?_, ?_, ?_, ?_, ?_, ?_⟩, ?_⟩ <;>
    simp [System.initial, Scheduler.shape, System.HeadNotified]

end Danus.Verify
