import Danus.Verify.Flights
import Mathlib.Logic.Relation

/-! Every event of the scheduler as a sequence of moves, each of one call. -/
namespace Danus.Verify
open Python Machines

variable {V : Type} {limits : SchedulerLimits} {codec : Codec V} {s t : System V}

/-- Only counters changed, and the cache lost entries or reordered them. -/
structure Scheduler.Kept (t u : Scheduler V) : Prop where
  queue : u.queue = t.queue
  active : u.active = t.active
  runningKey : u.runningKey = t.runningKey
  cache : ∀ p ∈ u.cache, p ∈ t.cache

/-- What a call is told that neither leads nor follows a flight. -/
inductive Answer (codec : Codec V) (s : System V) (key : PyStr) :
    Except CallError (SchedulerReceipt V) → Prop where
  | invalid : Answer codec s key (.error .invalidKey)
  | rejected (r : Rejection) : Answer codec s key (.error (.rejected r))
  | hit {entry : CacheEntry} : (key, entry) ∈ s.scheduler.cache →
      Answer codec s key (.ok ⟨codec.decode entry.encoded, .cacheHit, key, 0⟩)

/-- How a leader's work failed. -/
inductive Failed (codec : Codec V) : Except Exn V → Exn → Prop where
  | raised {e : Exn} : Failed codec (.error e) e
  | refused {value : V} {e : Exn} : codec.encode value = .error e → Failed codec (.ok value) e

/-- A move of one call. -/
inductive Move (limits : SchedulerLimits) (codec : Codec V) (s : System V) : System V → Prop where
  | answered {u : Scheduler V} {key : PyStr} {joinedAt : Int}
      {r : Except CallError (SchedulerReceipt V)} : s.scheduler.Kept u →
      u.flights = s.scheduler.flights → Answer codec s key r →
      Move limits codec s ({ s with scheduler := u }.arrive ⟨key, joinedAt, false, .done r⟩)
  | joined {u : Scheduler V} {key : PyStr} {joinedAt : Int} {f : Nat} {flight : Flight V} :
      s.scheduler.Kept u → (key, f) ∈ s.scheduler.active → s.scheduler.flights f = some flight →
      u.flights = Function.update s.scheduler.flights f
        (some { flight with joinedWaiters := flight.joinedWaiters + 1 }) →
      Move limits codec s ({ s with scheduler := u }.arrive ⟨key, joinedAt, false, .following f⟩)
  | launched {u : Scheduler V} {key : PyStr} {joinedAt : Int} :
      (∀ f, (key, f) ∉ s.scheduler.active) → s.scheduler.runningKey = none →
      s.scheduler.queue = [] → u.queue = s.scheduler.queue →
      u.active = s.scheduler.active ++ [(key, s.next)] → u.runningKey = some key →
      (∀ p ∈ u.cache, p ∈ s.scheduler.cache) →
      u.flights = Function.update s.scheduler.flights s.next (some ⟨key, .running, 0⟩) →
      Move limits codec s ({ s with scheduler := u }.arrive ⟨key, joinedAt, false, .launched⟩)
  | queued {u : Scheduler V} {key : PyStr} {joinedAt : Int} :
      (∀ f, (key, f) ∉ s.scheduler.active) →
      (s.scheduler.runningKey = none → s.scheduler.queue ≠ []) →
      u.queue = s.scheduler.queue ++ [key] → u.active = s.scheduler.active ++ [(key, s.next)] →
      u.runningKey = s.scheduler.runningKey → (∀ p ∈ u.cache, p ∈ s.scheduler.cache) →
      u.flights = Function.update s.scheduler.flights s.next (some ⟨key, .queued, 0⟩) →
      Move limits codec s ({ s with scheduler := u }.arrive ⟨key, joinedAt, false, .queued⟩)
  | timedOut {c : Nat} {call : Call V} : s.calls c = some call → call.pc = .queued →
      Move limits codec s (({ s with scheduler := s.scheduler.reject }.retire c call.key
        (.rejected .queueWaitTimeout)).setCall c
        { call with pc := .done (.error (.rejected .queueWaitTimeout)) })
  | abandoned {c : Nat} {call : Call V} {e : Exn} : s.calls c = some call → call.pc = .queued →
      Move limits codec s ((s.retire c call.key (.raised e)).setCall c
        { call with pc := .done (.error (.cancelled e)) })
  | popped {c : Nat} {call : Call V} : s.calls c = some call → call.pc = .queued →
      s.scheduler.runningKey = none → s.scheduler.queue.head? = some call.key →
      Move limits codec s (s.launch c call)
  | waits {c : Nat} {call : Call V} : s.calls c = some call → call.pc = .queued →
      ¬ (s.scheduler.runningKey = none ∧ s.scheduler.queue.head? = some call.key) →
      Move limits codec s (s.setCall c { call with notified := false })
  | follows {c f : Nat} {call : Call V} {flight : Flight V} : s.calls c = some call →
      call.pc = .following f → s.scheduler.flights f = some flight → flight.state.live = true →
      Move limits codec s (s.setCall c { call with notified := false })
  | left {c f : Nat} {call : Call V} {flight : Flight V} {now : Int}
      {r : Except CallError (SchedulerReceipt V)} : s.calls c = some call →
      call.pc = .following f → s.scheduler.flights f = some flight →
      System.followed? call flight now = some r → Move limits codec s (s.leave c f call r)
  | gaveUp {c f : Nat} {call : Call V} {e : Exn} : s.calls c = some call →
      call.pc = .following f → Move limits codec s (s.leave c f call (.error (.cancelled e)))
  | started {c ms : Nat} {call : Call V} : s.calls c = some call → call.pc = .launched →
      Move limits codec s ({ s with starts := s.starts ++ [c] }.setCall c
        { call with pc := .working ms })
  | worked {c ms : Nat} {call : Call V} {outcome : Except Exn V} : s.calls c = some call →
      call.pc = .working ms →
      Move limits codec s ({ s with outcomes := Function.update s.outcomes c (some outcome) }.setCall
        c { call with pc := .returning ms outcome })
  | failed {c ms : Nat} {call : Call V} {outcome : Except Exn V} {e : Exn} :
      s.calls c = some call → call.pc = .returning ms outcome → Failed codec outcome e →
      Move limits codec s (s.fail c call ms e)
  | published {c ms : Nat} {call : Call V} {value : V} {encoded : List Nat} {now : Int} :
      s.calls c = some call → call.pc = .returning ms (.ok value) →
      codec.encode value = .ok encoded →
      Move limits codec s (System.publish limits codec s c call ms encoded now)

section Entering
variable {u : Scheduler V} {key : PyStr} {joinedAt : Int}

theorem Scheduler.purgeExpired_cache (u : Scheduler V) (now : Int) :
    ∀ p ∈ (u.purgeExpired now).cache, p ∈ u.cache :=
  fun _ hp => (List.mem_filter.mp hp).1

/-- The first region of `execute` is one move, or an arrival in the queue. -/
theorem submit_moves (ho : s.scheduler.Ordered) (now : Int) :
    Move limits codec s (System.submit limits codec s key joinedAt now) ∨
    ∃ u call, Move limits codec s ({ s with scheduler := u }.arrive call) ∧ call.pc = .queued ∧
      System.submit limits codec s key joinedAt now =
        System.queuedTurn limits ({ s with scheduler := u }.arrive call) s.next call now := by
  unfold System.submit
  by_cases hkey : key = []
  · rw [if_pos hkey]
    exact .inl (.answered ⟨rfl, rfl, rfl, fun _ h => h⟩ rfl .invalid)
  rw [if_neg hkey]
  simp only [Scheduler.enter]
  set counted : Scheduler V := { s.scheduler with
    counters := { s.scheduler.counters with submitted := s.scheduler.counters.submitted + 1 } }
    with hcounted
  have hpurged := counted.purgeExpired_cache joinedAt
  cases hcache : (counted.purgeExpired joinedAt).cache.lookup key with
  | some entry =>
    refine .inl (.answered ⟨rfl, rfl, rfl, fun p hp => ?_⟩ rfl
      (.hit (hpurged _ (mem_of_lookup_eq_some hcache))))
    rcases List.mem_append.mp hp with hp | hp
    · exact hpurged p (mem_eraseKey.mp hp).1
    · rw [List.mem_singleton.mp hp]
      exact hpurged _ (mem_of_lookup_eq_some hcache)
  | none =>
    simp only
    cases hjoin : ((counted.purgeExpired joinedAt).active.lookup key).bind fun f =>
        ((counted.purgeExpired joinedAt).flights f).map (f, ·) with
    | some p =>
      obtain ⟨f, flight⟩ := p
      obtain ⟨f', hf, hfl⟩ := Option.bind_eq_some_iff.mp hjoin
      obtain ⟨fl, hfl, he⟩ := Option.map_eq_some_iff.mp hfl
      cases he
      simp only [Scheduler.join]
      split_ifs
      · exact .inl (.answered ⟨rfl, rfl, rfl, hpurged⟩ rfl (.rejected _))
      · exact .inl (.answered ⟨rfl, rfl, rfl, hpurged⟩ rfl (.rejected _))
      · exact .inl (.joined ⟨rfl, rfl, rfl, hpurged⟩ (mem_of_lookup_eq_some hf) hfl rfl)
    | none =>
      have hfree : ∀ f, (key, f) ∉ s.scheduler.active := by
        intro f hm
        have hl : s.scheduler.active.lookup key = some f := lookup_eq_some_of_nodup ho.active_keys hm
        obtain ⟨st, hst, _⟩ := (ho.active_mem key f).mp hm
        obtain ⟨flight, hflight, _⟩ := Option.map_eq_some_iff.mp hst
        have hsome : ((counted.purgeExpired joinedAt).active.lookup key).bind (fun f =>
            ((counted.purgeExpired joinedAt).flights f).map (f, ·)) = some (f, flight) := by
          change (s.scheduler.active.lookup key).bind (fun f =>
            (s.scheduler.flights f).map (f, ·)) = some (f, flight)
          rw [hl, Option.bind_some, hflight, Option.map_some]
        rw [hsome] at hjoin
        cases hjoin
      simp only [Scheduler.lead]
      split_ifs with hslot hfull hwaiters
      · exact .inl (.launched hfree hslot.1 hslot.2 rfl rfl rfl hpurged rfl)
      · exact .inl (.answered ⟨rfl, rfl, rfl, hpurged⟩ rfl (.rejected _))
      · exact .inl (.answered ⟨rfl, rfl, rfl, hpurged⟩ rfl (.rejected _))
      · refine .inr ⟨_, ⟨key, joinedAt, false, .queued⟩, ?_, rfl, rfl⟩
        exact .queued hfree (fun hr hq => hslot ⟨hr, hq⟩) rfl rfl rfl hpurged rfl

theorem queuedTurn_moves {c : Nat} {call : Call V} (hc : s.calls c = some call)
    (hp : call.pc = .queued) (now : Int) :
    Move limits codec s (System.queuedTurn limits s c call now) := by
  unfold System.queuedTurn
  split_ifs with htime hhead
  · exact .timedOut hc hp
  · exact .popped hc hp hhead.1 hhead.2
  · exact .waits hc hp hhead

end Entering

theorem followed_none {call : Call V} {flight : Flight V} {now : Int}
    (h : System.followed? call flight now = none) : flight.state.live = true := by
  unfold System.followed? at h
  cases hst : flight.state <;> simp [hst, FlightState.live] at h ⊢

/-- Every event is a sequence of moves. -/
theorem step_moves (ho : s.scheduler.Ordered) {event : Event V}
    (h : System.step limits codec s event = some t) :
    Relation.ReflTransGen (Move limits codec) s t := by
  cases event with
  | submit key joinedAt now =>
    cases h
    rcases submit_moves ho now with h | ⟨u, call, hq, hp, he⟩
    · exact .single h
    · rw [he]
      refine (Relation.ReflTransGen.single hq).tail (queuedTurn_moves ?_ hp now)
      simp [System.arrive, System.setCall]
  | wake c now =>
    obtain ⟨call, hc, hw⟩ := Option.bind_eq_some_iff.mp h
    unfold System.wake at hw
    cases hp : call.pc with
    | following f =>
      rw [hp] at hw
      simp only at hw
      split_ifs at hw
      obtain ⟨flight, hf, rfl⟩ := Option.map_eq_some_iff.mp hw
      unfold System.followingTurn
      cases hr : System.followed? call flight now with
      | some r => exact .single (.left hc hp hf hr)
      | none => exact .single (.follows hc hp hf (followed_none hr))
    | queued =>
      rw [hp] at hw
      cases hw
      exact .single (queuedTurn_moves hc hp now)
    | launched => simp [hp] at hw
    | working ms => simp [hp] at hw
    | returning ms o => simp [hp] at hw
    | done r => simp [hp] at hw
  | cancel c e =>
    obtain ⟨call, hc, hw⟩ := Option.bind_eq_some_iff.mp h
    unfold System.cancel at hw
    cases hp : call.pc with
    | following f =>
      rw [hp] at hw
      cases hw
      exact .single (.gaveUp hc hp)
    | queued =>
      rw [hp] at hw
      cases hw
      exact .single (.abandoned hc hp)
    | launched => simp [hp] at hw
    | working ms => simp [hp] at hw
    | returning ms o => simp [hp] at hw
    | done r => simp [hp] at hw
  | start c now =>
    obtain ⟨call, hc, hw⟩ := Option.bind_eq_some_iff.mp h
    unfold System.start at hw
    cases hp : call.pc <;> simp only [hp, reduceCtorEq, Option.some.injEq] at hw
    rw [← hw]
    exact .single (.started hc hp)
  | work c outcome =>
    obtain ⟨call, hc, hw⟩ := Option.bind_eq_some_iff.mp h
    unfold System.work at hw
    cases hp : call.pc <;> simp only [hp, reduceCtorEq, Option.some.injEq] at hw
    rw [← hw]
    exact .single (.worked hc hp)
  | finish c now =>
    obtain ⟨call, hc, hw⟩ := Option.bind_eq_some_iff.mp h
    unfold System.finish at hw
    cases hp : call.pc with
    | returning ms outcome =>
      cases outcome with
      | error e =>
        simp only [hp, Option.some.injEq] at hw
        rw [← hw]
        exact .single (.failed hc hp .raised)
      | ok value =>
        simp only [hp] at hw
        cases he : codec.encode value with
        | error e =>
          simp only [he, Option.some.injEq] at hw
          rw [← hw]
          exact .single (.failed hc hp (.refused he))
        | ok encoded =>
          simp only [he, Option.some.injEq] at hw
          rw [← hw]
          exact .single (.published hc hp he)
    | launched => simp [hp] at hw
    | working ms => simp [hp] at hw
    | following f => simp [hp] at hw
    | queued => simp [hp] at hw
    | done r => simp [hp] at hw

end Danus.Verify
