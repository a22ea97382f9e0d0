import Danus.Verify.Coalescing

/-! Every move keeps the log of invocations, so what holds of it holds in every run. -/
namespace Danus.Verify
open Python Machines

variable {V : Type} {limits : SchedulerLimits} {codec : Codec V} {s t : System V}

theorem evict_mem (p : PyStr × CacheEntry) (cache : List (PyStr × CacheEntry)) (bytes : Int)
    (n : Nat) (hp : p ∈ (Scheduler.evict limits cache bytes n).1) : p ∈ cache := by
  induction cache generalizing bytes n with
  | nil => exact hp
  | cons q rest ih =>
    rw [Scheduler.evict] at hp
    split_ifs at hp
    · exact List.mem_cons_of_mem _ (ih _ _ hp)
    · exact hp

/-- What the cache holds after a result was offered to it. -/
theorem cacheResult_mem {u : Scheduler V} {key : PyStr} {encoded : List Nat} {now : Int}
    {p : PyStr × CacheEntry} (hp : p ∈ (u.cacheResult limits key encoded now).cache) :
    p ∈ u.cache ∨ p = (key, ⟨encoded, now + limits.cacheTtl⟩) := by
  unfold Scheduler.cacheResult at hp
  split_ifs at hp
  · exact .inl hp
  · rcases List.mem_append.mp (evict_mem _ _ _ _ hp) with hp | hp
    · exact .inl (mem_eraseKey.mp hp).1
    · exact .inr (List.mem_singleton.mp hp)

section Moves
variable {c f : Nat} {call : Call V} (hl : s.Logged codec)
include hl

/-- A leader that waits or has just taken the slot has not invoked its work. -/
theorem System.Logged.unstarted (hc : s.calls c = some call)
    (hp : call.pc = .queued ∨ call.pc = .launched) : c ∉ s.starts :=
  fun hm => (hl.ahead c hm c call hc hp).false

/-- A call arrives. -/
theorem System.Logged.arrived (h : s.Sound) {u : Scheduler V} (hb : call.pc.begun = false)
    (hended : ∀ f k st, s.scheduler.shape f = some (k, st) → st.live = false →
      u.shape f = some (k, st))
    (hflights : ∀ f k st, u.shape f = some (k, st) →
      s.scheduler.shape f = some (k, st) ∨ st.live = true)
    (hcache : ∀ p ∈ u.cache, p ∈ s.scheduler.cache)
    (hresult : ∀ r, call.pc = .done r → s.Justified codec call.key r) :
    ({ s with scheduler := u }.arrive call).Logged codec := by
  have hnone : s.calls s.next = none := by
    cases hc : s.calls s.next with
    | none => rfl
    | some old => exact (h.linked.call_lt _ old hc).false.elim
  refine hl.update false (Nat.le_succ _) (Function.update_self ..) (fun i hi => update_notes hi)
    (fun old ho => ?_) rfl (fun _ f hf => hl.known f hf) (fun hp => ?_) (fun i _ => rfl)
    (fun o ho => ho) (fun o ho => .inl ho) (fun ms hp => ?_) (fun ms o hp => ?_) hended
    (fun f k st hf => ?_) (fun k entry hm => .inl (hcache _ hm)) fun hg r hr => (hresult r hr).grow hg
  · rw [hnone] at ho
    cases ho
  · simp [hb] at hp
  · simp [hp, Pc.begun] at hb
  · simp [hp, Pc.begun] at hb
  · rcases hflights f k st hf with hf | hlive
    · exact .inl hf
    · right
      cases st with
      | queued => exact trivial
      | running => exact trivial
      | completed v => cases hlive
      | failed e => cases hlive

/-- A call arrives with a flight of its own. -/
theorem System.Logged.led (h : s.Sound) {u : Scheduler V} {key : PyStr} {st : FlightState V}
    (hb : call.pc.begun = false) (hnd : ∀ r, call.pc ≠ .done r) (hlive : st.live = true)
    (hs : u.shape = Function.update s.scheduler.shape s.next (some (key, st)))
    (hcache : ∀ p ∈ u.cache, p ∈ s.scheduler.cache) :
    ({ s with scheduler := u }.arrive call).Logged codec := by
  refine hl.arrived h hb (fun f k st' hf _ => ?_) (fun f k st' hf => ?_) hcache
    fun r hr => (hnd r hr).elim
  · rw [hs, Function.update_of_ne (h.linked.shape_lt hf).ne]
    exact hf
  · rw [hs] at hf
    by_cases hfn : f = s.next
    · rw [hfn, Function.update_self] at hf
      cases hf
      exact .inr hlive
    · rw [Function.update_of_ne hfn] at hf
      exact .inl hf

/-- A call that has not begun its work waits on. -/
theorem System.Logged.waits (hc : s.calls c = some call) (hb : call.pc.begun = false)
    (hnd : ∀ r, call.pc ≠ .done r) : (s.setCall c { call with notified := false }).Logged codec := by
  refine hl.update false le_rfl (Function.update_self ..) (fun i hi => update_notes hi)
    (fun old ho => ?_) rfl (fun hp f hf => hl.ahead f hf c call hc hp) (fun hp => ?_) (fun i _ => rfl)
    (fun o ho => ho) (fun o ho => .inl ho) (fun ms hp => ?_) (fun ms o hp => ?_) (fun _ _ _ hf _ => hf)
    (fun _ _ _ hf => .inl hf) (fun _ _ hm => .inl hm) fun _ r hr => (hnd r hr).elim
  · rw [hc] at ho
    cases ho
    exact ⟨rfl, hnd⟩
  · exact absurd (hb.symm.trans hp) (by simp)
  · rw [show call.pc = .working ms from hp] at hb
    cases hb
  · rw [show call.pc = .returning ms o from hp] at hb
    cases hb

/-- A follower is over. -/
theorem System.Logged.leave (h : s.Sound) {r : Except CallError (SchedulerReceipt V)}
    (hc : s.calls c = some call) (hp : call.pc = .following f) (hr : s.Justified codec call.key r) :
    (s.leave c f call r).Logged codec := by
  obtain ⟨st, hst, _⟩ := h.linked.following c call f hc hp
  obtain ⟨flight, hflight, he⟩ := Option.map_eq_some_iff.mp hst
  have hshape : (s.leave c f call r).scheduler.shape = s.scheduler.shape := by
    refine Scheduler.shape_waiters (flight.joinedWaiters - 1) hflight ?_
    simp [System.leave, System.setCall, System.notifyAll, hflight]
  refine hl.update true le_rfl (Function.update_self ..) (fun i hi => notify_notes hi)
    (fun old ho => ?_) rfl (by simp) (by simp [Pc.begun]) (fun i _ => rfl)
    (fun o ho => ho) (fun o ho => .inl ho) (by simp) (by simp) (fun f k st hf _ => ?_)
    (fun f k st hf => ?_) (fun _ _ hm => .inl hm) fun hg r' hr' => ?_
  · rw [hc] at ho
    cases ho
    exact ⟨rfl, by simp [hp]⟩
  · rw [hshape]
    exact hf
  · rw [hshape] at hf
    exact .inl hf
  · cases hr'
    exact hr.grow hg

/-- A leader is over, and its flight with it. -/
theorem System.Logged.ended {u : System V} {st st' : FlightState V}
    {r : Except CallError (SchedulerReceipt V)} (hc : s.calls c = some call)
    (hnd : ∀ r, call.pc ≠ .done r)
    (hcur : s.scheduler.shape c = some (call.key, st)) (hlive : st.live = true)
    (hu : u.calls = s.calls) (hn : u.next = s.next) (hstarts : u.starts = s.starts)
    (hout : u.outcomes = s.outcomes)
    (hs : u.scheduler.shape = Function.update s.scheduler.shape c (some (call.key, st')))
    (hflight : (u.notifyAll.setCall c { call with pc := .done r }).FlightJustified codec call.key st')
    (hcache : ∀ k entry, (k, entry) ∈ u.scheduler.cache → (k, entry) ∈ s.scheduler.cache ∨
      (u.notifyAll.setCall c { call with pc := .done r }).Published codec k entry.encoded)
    (hresult : (u.notifyAll.setCall c { call with pc := .done r }).Justified codec call.key r) :
    (u.notifyAll.setCall c { call with pc := .done r }).Logged codec := by
  refine hl.update true hn.ge (Function.update_self ..) (fun i hi => ?_) (fun old ho => ?_) hstarts
    (by simp) (by simp [Pc.begun]) (fun i _ => congrFun hout i) (fun o ho => ?_) (fun o ho => ?_)
    (by simp) (by simp) (fun f k st₁ hf hdead => ?_) (fun f k st₁ hf => ?_) hcache fun _ r' hr' => ?_
  · rw [← hu]
    exact notify_notes hi
  · rw [hc] at ho
    cases ho
    exact ⟨rfl, hnd⟩
  · exact (congrFun hout c).trans ho
  · exact .inl ((congrFun hout c).symm.trans ho)
  · have hne : f ≠ c := by
      rintro rfl
      rw [hcur] at hf
      cases hf
      simp [hlive] at hdead
    change u.scheduler.shape f = _
    rw [hs, Function.update_of_ne hne]
    exact hf
  · change u.scheduler.shape f = _ at hf
    rw [hs] at hf
    by_cases hfc : f = c
    · rw [hfc, Function.update_self] at hf
      cases hf
      exact .inr hflight
    · rw [Function.update_of_ne hfc] at hf
      exact .inl hf
  · cases hr'
    exact hresult

/-- A leader gives up in the queue. -/
theorem System.Logged.retire (h : s.Sound) {u : Scheduler V} {failure : Failure}
    {r : Except CallError (SchedulerReceipt V)} (hc : s.calls c = some call)
    (hp : call.pc = .queued) (hf : u.flights = s.scheduler.flights)
    (hcache : u.cache = s.scheduler.cache)
    (hwhy : (failure = .rejected .queueWaitTimeout ∧
      r = .error (.rejected .queueWaitTimeout)) ∨
      ∃ e, failure = .raised e ∧ r = .error (.cancelled e)) :
    (({ s with scheduler := u }.retire c call.key failure).setCall c
      { call with pc := .done r }).Logged codec := by
  obtain ⟨flight, hflight, hkey, hlead⟩ := h.own hc (.inl hp)
  rw [hp] at hlead
  have hcur : s.scheduler.shape c = some (call.key, .queued) := by
    rw [Scheduler.shape_eq hflight, hkey, hlead.queued]
  set v : Scheduler V := { u with
    queue := u.queue.erase call.key
    totalWaiters := u.totalWaiters - 1
    flights := Function.update u.flights c ((u.flights c).map fun flight =>
      { flight with state := .failed failure })
    active := if u.active.lookup call.key = some c then eraseKey call.key u.active else u.active }
    with hv
  have hvs : v.shape = Function.update s.scheduler.shape c
      (some (call.key, .failed failure)) := by
    have hup : v.flights = Function.update s.scheduler.flights c
        (some { flight with state := .failed failure }) := by
      simp [hv, hf, hflight]
    rw [Scheduler.shape_update hup, ← hkey]
  refine hl.ended (u := { s with scheduler := v }) hc (by simp [hp]) hcur rfl rfl rfl rfl rfl hvs
    (.inr ⟨c, _, Function.update_self .., rfl, hl.unstarted hc (.inl hp), ?_, ?_⟩)
    (fun k entry hm => .inl (hcache ▸ hm)) ?_
  · change v.shape c = _
    rw [hvs, Function.update_self]
  · rcases hwhy with ⟨hfail, hr⟩ | ⟨e, hfail, hr⟩
    · exact .inl ⟨hfail, congrArg Pc.done hr⟩
    · exact .inr ⟨e, hfail, congrArg Pc.done hr⟩
  · rcases hwhy with ⟨_, rfl⟩ | ⟨e, _, rfl⟩
    · exact trivial
    · exact trivial

/-- The slot holder's flight lands. -/
theorem System.Logged.land (h : s.Sound) {u : Scheduler V} {st : FlightState V}
    {r : Except CallError (SchedulerReceipt V)} (hc : s.calls c = some call)
    (hp : call.pc.holds = true) (hf : u.flights = s.scheduler.flights)
    (hflight : (s.land c call u st r).FlightJustified codec call.key st)
    (hcache : ∀ k entry, (k, entry) ∈ u.cache → (k, entry) ∈ s.scheduler.cache ∨
      (s.land c call u st r).Published codec k entry.encoded)
    (hresult : (s.land c call u st r).Justified codec call.key r) :
    (s.land c call u st r).Logged codec := by
  obtain ⟨flight, hflight', hkey, hlead⟩ := h.own hc (.inr hp)
  have hcur : s.scheduler.shape c = some (call.key, .running) := by
    rw [Scheduler.shape_eq hflight', hkey, hlead.running hp]
  set v : Scheduler V := { u with
    flights := Function.update u.flights c ((u.flights c).map fun flight =>
      { flight with state := st })
    runningKey := if u.runningKey = some call.key then none else u.runningKey
    active := eraseKey call.key u.active } with hv
  have hvs : v.shape = Function.update s.scheduler.shape c (some (call.key, st)) := by
    have hup : v.flights = Function.update s.scheduler.flights c (some { flight with state := st }) := by
      simp [hv, hf, hflight']
    rw [Scheduler.shape_update hup, ← hkey]
  refine hl.ended (u := { s with scheduler := v }) hc (fun r hr => ?_) hcur rfl rfl rfl rfl rfl hvs
    hflight hcache hresult
  rw [hr] at hp
  cases hp

/-- The slot holder invokes its work: every call still ahead of its own arrived later. -/
theorem System.Logged.started (h : s.Sound) {ms : Nat} (hc : s.calls c = some call)
    (hp : call.pc = .launched) : ({ s with starts := s.starts ++ [c] }.setCall c
      { call with pc := .working ms }).Logged codec := by
  set u : System V := { s with starts := s.starts ++ [c] }.setCall c
    { call with pc := .working ms } with hu
  have hcalls : u.calls = Function.update s.calls c (some { call with pc := .working ms }) := rfl
  have hself : u.calls c = some { call with pc := .working ms } := by
    rw [hcalls, Function.update_self]
  have hg : s.Grows u := by
    refine .of false hself (fun i hi => update_notes hi) (fun old ho => ?_) (fun f => ?_)
      (fun _ _ ho => ho) fun _ _ _ hf _ => hf
    · rw [hc] at ho
      cases ho
      exact ⟨rfl, by simp [hp]⟩
    · change f ∈ s.starts ++ [c] ↔ _
      rw [List.mem_append, List.mem_singleton]
      refine or_congr_right ⟨fun he => ⟨he, call, hc, hp, ?_⟩, And.left⟩
      exact fun hsame => by simpa [hu, System.setCall] using congrArg List.length hsame
  have back : ∀ i call', u.calls i = some call' → i ≠ c → s.calls i = some call' := by
    intro i call' hi hne
    rwa [hcalls, Function.update_of_ne hne] at hi
  obtain ⟨st, hst, hlead⟩ := h.linked.led c call hc (.inr (by rw [hp]; rfl))
  rw [hlead.running (by rw [hp]; rfl)] at hst
  refine ⟨?_, fun f hf i call' hi hpi => ?_, fun f hf => ?_, fun i call' hi hb => ?_,
    fun i o ho => ?_, fun i call' ms' hi hpi => ?_, fun i call' ms' o hi hpi => ?_,
    fun f k st hf => ?_, fun k entry hm => ?_, fun i call' r hi hr => ?_⟩
  · change (s.starts ++ [c]).Pairwise (· < ·)
    refine List.pairwise_append.mpr ⟨hl.order, List.pairwise_singleton _ _, fun f hf i hi => ?_⟩
    rw [List.mem_singleton.mp hi]
    exact hl.ahead f hf c call hc (.inr hp)
  · have hic : i ≠ c := by
      rintro rfl
      rw [hself] at hi
      cases hi
      simp at hpi
    have hold := back i call' hi hic
    rcases List.mem_append.mp hf with hf | hf
    · exact hl.ahead f hf i call' hold hpi
    · rw [List.mem_singleton.mp hf]
      rcases hpi with hq | hq
      · -- the queue is behind the slot
        obtain ⟨st', hst', hlead'⟩ := h.linked.led i call' hold (.inl hq)
        rw [hq] at hlead'
        rw [hlead'.queued] at hst'
        exact h.ordered.slot_first _ _ _ _ hst hst'
      · -- nobody else is in the slot
        obtain ⟨st', hst', hlead'⟩ := h.linked.led i call' hold (.inr (by rw [hq]; rfl))
        rw [hlead'.running (by rw [hq]; rfl)] at hst'
        have hk := (h.ordered.running _).mpr ⟨c, hst⟩
        have hk' := (h.ordered.running _).mpr ⟨i, hst'⟩
        rw [hk] at hk'
        rw [← Option.some.inj hk'] at hst'
        exact (hic (h.ordered.live_unique hst' rfl hst rfl)).elim
  · rcases List.mem_append.mp hf with hf | hf
    · exact hl.known f hf
    · rw [List.mem_singleton.mp hf]
      exact h.linked.call_lt c call hc
  · by_cases hic : i = c
    · rw [hic]
      exact List.mem_append_right _ (List.mem_singleton_self c)
    · exact List.mem_append_left _ (hl.begun i call' (back i call' hi hic) hb)
  · exact List.mem_append_left _ (hl.logged i o ho)
  · by_cases hic : i = c
    · subst hic
      change s.outcomes i = none
      cases ho : s.outcomes i with
      | none => rfl
      | some o => exact (hl.unstarted hc (.inr hp) (hl.logged i o ho)).elim
    · exact hl.working i call' ms' (back i call' hi hic) hpi
  · have hic : i ≠ c := by
      rintro rfl
      rw [hself] at hi
      cases hi
      cases hpi
    exact hl.returned i call' ms' o (back i call' hi hic) hpi
  · exact (hl.flights f k st hf).grow hg
  · exact (hl.cached k entry hm).grow hg
  · have hic : i ≠ c := by
      rintro rfl
      rw [hself] at hi
      cases hi
      cases hr
    exact (hl.results i call' r (back i call' hi hic) hr).grow hg

end Moves

/-- Every move keeps the log. -/
theorem Move.logged (h : s.Sound) (hl : s.Logged codec) (hm : Move limits codec s t) :
    t.Logged codec := by
  cases hm with
  | @answered u key joinedAt r hk hf ha =>
    have hs := Scheduler.shape_congr hf
    refine hl.arrived h rfl (fun f k st hst _ => hs ▸ hst) (fun f k st hst => .inl (hs ▸ hst)) hk.cache
      fun r' hr => ?_
    cases hr
    cases ha with
    | invalid => exact trivial
    | rejected r => exact trivial
    | hit hm => exact ⟨rfl, _, rfl, hl.cached _ _ hm⟩
  | joined hk _ hf hu =>
    have hs := Scheduler.shape_waiters _ hf hu
    exact hl.arrived h rfl (fun f k st hst _ => hs ▸ hst) (fun f k st hst => .inl (hs ▸ hst)) hk.cache
      (by simp)
  | launched _ _ _ _ _ _ hcache hu =>
    exact hl.led h rfl (by simp) rfl (Scheduler.shape_update hu) hcache
  | queued _ _ _ _ _ hcache hu =>
    exact hl.led h rfl (by simp) rfl (Scheduler.shape_update hu) hcache
  | timedOut hc hp => exact hl.retire h hc hp rfl rfl (.inl ⟨rfl, rfl⟩)
  | @abandoned c call e hc hp => exact hl.retire h hc hp rfl rfl (.inr ⟨e, rfl, rfl⟩)
  | @popped c call hc hp hr hhead =>
    have hs : (s.launch c call).scheduler.shape =
        Function.update s.scheduler.shape c (some (call.key, .running)) := by
      obtain ⟨flight, hflight, hkey, _⟩ := h.own hc (.inl hp)
      have hup : (s.launch c call).scheduler.flights = Function.update s.scheduler.flights c
          (some { flight with state := .running }) := by
        simp [System.launch, System.setCall, hflight]
      rw [Scheduler.shape_update hup, ← hkey]
    obtain ⟨st, hst, hlead⟩ := h.linked.led c call hc (.inl hp)
    rw [hp] at hlead
    rw [hlead.queued] at hst
    refine hl.update false le_rfl (Function.update_self ..) (fun i hi => update_notes hi)
      (fun old ho => ?_) rfl (fun _ f hf => hl.ahead f hf c call hc (.inl hp)) (by simp [Pc.begun])
      (fun i _ => rfl) (fun o ho => ho) (fun o ho => .inl ho) (by simp) (by simp)
      (fun f k st hf hdead => ?_) (fun f k st hf => ?_) (fun _ _ hm => .inl hm) (by simp)
    · rw [hc] at ho
      cases ho
      exact ⟨rfl, by simp [hp]⟩
    · have hne : f ≠ c := by
        rintro rfl
        rw [hst] at hf
        cases hf
        cases hdead
      rw [hs, Function.update_of_ne hne]
      exact hf
    · rw [hs] at hf
      by_cases hfc : f = c
      · rw [hfc, Function.update_self] at hf
        cases hf
        exact .inr trivial
      · rw [Function.update_of_ne hfc] at hf
        exact .inl hf
  | waits hc hp _ => exact hl.waits hc (by rw [hp]; rfl) (by simp [hp])
  | follows hc hp _ _ => exact hl.waits hc (by rw [hp]; rfl) (by simp [hp])
  | left hc hp hf hr =>
    obtain ⟨st, hst, _⟩ := h.linked.following _ _ _ hc hp
    have hshape := Scheduler.shape_eq hf
    have hkey := hst
    rw [hshape, Option.some_inj, Prod.mk.injEq] at hkey
    rw [hkey.1] at hshape
    exact hl.leave h hc hp ((hl.flights _ _ _ hshape).followed hr)
  | gaveUp hc hp => exact hl.leave h hc hp trivial
  | started hc hp => exact hl.started h hc hp
  | @worked c ms call outcome hc hp =>
    have hnone := hl.working c call ms hc hp
    have hstarted := hl.begun c call hc (by rw [hp]; rfl)
    refine hl.update false le_rfl (Function.update_self ..) (fun i hi => update_notes hi)
      (fun old ho => ?_) rfl (by simp) (fun _ => hstarted)
      (fun i hi => Function.update_of_ne hi _ _) (fun o ho => ?_) (fun o _ => .inr hstarted) (by simp)
      (fun ms' o ho => ?_) (fun _ _ _ hf _ => hf) (fun _ _ _ hf => .inl hf) (fun _ _ hm => .inl hm)
      (by simp)
    · rw [hc] at ho
      cases ho
      exact ⟨rfl, by simp [hp]⟩
    · rw [hnone] at ho
      cases ho
    · cases ho
      exact Function.update_self ..
  | @failed c ms call outcome e hc hp hf =>
    have hout := hl.returned c call ms outcome hc hp
    have hstarted := hl.begun c call hc (by rw [hp]; rfl)
    have hw : (s.fail c call ms e).WorkFailed codec call.key e :=
      ⟨c, _, outcome, Function.update_self .., rfl, hstarted, hout, hf⟩
    exact hl.land h hc (by rw [hp]; rfl) rfl (.inl ⟨e, rfl, hw⟩) (fun _ _ hm => .inl hm)
      ⟨rfl, .inl ⟨e, .inl rfl, hw⟩⟩
  | @published c ms call value encoded now hc hp he =>
    have hout := hl.returned c call ms _ hc hp
    have hstarted := hl.begun c call hc (by rw [hp]; rfl)
    have hw : (System.publish limits codec s c call ms encoded now).Published codec call.key
        encoded := ⟨c, _, value, Function.update_self .., rfl, hstarted, hout, he⟩
    have hsame : ∀ u : Scheduler V,
        (u.cacheResult limits call.key encoded now).flights = u.flights := by
      intro u
      unfold Scheduler.cacheResult
      split_ifs <;> rfl
    refine hl.land h hc (by rw [hp]; rfl) (hsame _) ⟨encoded, rfl, hw⟩ (fun k entry hm => ?_)
      ⟨rfl, encoded, rfl, hw⟩
    rcases cacheResult_mem hm with hm | he
    · exact .inl ((s.scheduler.purgeExpired_cache now) _ hm)
    · cases he
      exact .inr hw

theorem System.logged_initial : (System.initial : System V).Logged codec := by
  refine ⟨?_, ?_, ?_, ?_, ?_, ?_, ?_, ?_, ?_, ?_⟩ <;>
    simp [System.initial, Scheduler.shape]

/-- In every run the records agree, and the log with them. -/
theorem System.Reachable.sound_logged (h : (System.machine limits codec).Reachable s) :
    s.Sound ∧ s.Logged codec := by
  refine h.invariant (I := fun s => s.Sound ∧ s.Logged codec) ?_ fun s event t hs ht => ?_
  · rintro s rfl
    exact ⟨System.sound_initial, System.logged_initial⟩
  · have hmoves := step_moves hs.1.ordered ht
    clear ht
    induction hmoves with
    | refl => exact hs
    | tail _ hm ih => exact ⟨hm.sound ih.1, hm.logged ih.1 ih.2⟩

end Danus.Verify
