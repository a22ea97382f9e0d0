import Danus.Verify.Invocations

/-! What every caller of the scheduler can rely on, in any run. -/
namespace Danus.Verify
open Python Machines

variable {V : Type} {limits : SchedulerLimits} {codec : Codec V} {s t : System V}

/-- How a call that follows a flight can end: with the flight's value, with its failure, or with what
its own wait raised. -/
inductive Followed (key : PyStr) : Except CallError (SchedulerReceipt V) → Prop where
  | value (value : V) (ms : Nat) : Followed key (.ok ⟨value, .coalesced, key, ms⟩)
  | failure (cause : Failure) (ms : Nat) : Followed key (.error (.workFailed cause .coalesced key ms))
  | cancelled (e : Exn) : Followed key (.error (.cancelled e))

/-- The call of this key follows the flight, or has ended as a follower. -/
def System.Follows (s : System V) (c f : Nat) (key : PyStr) : Prop :=
  ∃ call, s.calls c = some call ∧ call.key = key ∧
    (call.pc = .following f ∨ ∃ r, call.pc = .done r ∧ Followed key r)

/-- What holds in every state of every run: one call at a time holds the slot, works and publishes;
work is invoked in the order of arrival, once a flight; nobody gets another key's result; a follower
of a flight that is over has been notified and its wake is its last, and the flight of any other has
its leader; the head of the queue has been notified when the slot is free, and its wake takes it. -/
structure System.Scheduled (limits : SchedulerLimits) (codec : Codec V) (s : System V) : Prop where
  alone : ∀ c c' call call', s.calls c = some call → s.calls c' = some call' →
    call.pc.holds = true → call'.pc.holds = true → c = c'
  logged : ∀ c call, s.calls c = some call → call.pc.begun = true → c ∈ s.starts
  order : s.starts.Pairwise (· < ·)
  own_key : ∀ c call r, s.calls c = some call → call.pc = .done r → s.Justified codec call.key r
  led : ∀ c call f, s.calls c = some call → call.pc = .following f →
    ∃ flight leader, s.scheduler.flights f = some flight ∧ s.calls f = some leader ∧
      flight.key = call.key ∧ leader.key = call.key ∧ leader.pc.Leads flight.state
  woken : ∀ c call f flight, s.calls c = some call → call.pc = .following f →
    s.scheduler.flights f = some flight → flight.state.live = false → call.notified = true ∧
      ∀ now, ∃ t r, System.step limits codec s (.wake c now) = some t ∧
        t.calls c = some { call with pc := .done r } ∧ Followed call.key r
  head : ∀ c call, s.calls c = some call → call.pc = .queued → s.scheduler.runningKey = none →
    s.scheduler.queue.head? = some call.key → call.notified = true ∧
      ∀ now, now < call.joinedAt + limits.queueWait →
        ∃ t, System.step limits codec s (.wake c now) = some t ∧
          t.calls c = some { call with pc := .launched }
  timeout : ∀ c call now, s.calls c = some call → call.pc = .queued →
    call.joinedAt + limits.queueWait ≤ now →
      ∃ t, System.step limits codec s (.wake c now) = some t ∧
        t.calls c = some { call with pc := .done (.error (.rejected .queueWaitTimeout)) }

section Following
variable {c f : Nat} {key : PyStr}

theorem followed_result {call : Call V} {flight : Flight V} {now : Int}
    {r : Except CallError (SchedulerReceipt V)} (hr : System.followed? call flight now = some r) :
    Followed call.key r := by
  unfold System.followed? at hr
  cases hst : flight.state with
  | completed value =>
    rw [hst] at hr
    cases hr
    exact .value _ _
  | failed failure =>
    rw [hst] at hr
    cases hr
    exact .failure _ _
  | queued => simp [hst] at hr
  | running => simp [hst] at hr

/-- A flight that is over has a result for its followers. -/
theorem followed_of_dead (call : Call V) {flight : Flight V} (now : Int)
    (hl : flight.state.live = false) : ∃ r, System.followed? call flight now = some r := by
  cases hr : System.followed? call flight now with
  | some r => exact ⟨r, rfl⟩
  | none => simp [followed_none hr] at hl

/-- Every move is one call's, and keeps its key; no call moves once it is over, and a follower only
ends as one. -/
theorem Move.moved (h : s.Sound) (hm : Move limits codec s t) :
    ∃ i call' notes, t.calls i = some call' ∧
      (∀ c, c ≠ i → t.calls c =
        (s.calls c).map fun call => { call with notified := call.notified || notes }) ∧
      ∀ call, s.calls i = some call → call'.key = call.key ∧ (∀ r, call.pc ≠ .done r) ∧
        ∀ f, call.pc = .following f →
          call'.pc = .following f ∨ ∃ r, call'.pc = .done r ∧ Followed call.key r := by
  have hfresh : ∀ call, s.calls s.next ≠ some call :=
    fun call hc => (h.linked.call_lt _ call hc).false
  have harrive : ∀ (u : Scheduler V) (call' : Call V), ∃ i call₁ notes,
      ({ s with scheduler := u }.arrive call').calls i = some call₁ ∧
      (∀ c, c ≠ i → ({ s with scheduler := u }.arrive call').calls c =
        (s.calls c).map fun call => { call with notified := call.notified || notes }) ∧
      ∀ call, s.calls i = some call → call₁.key = call.key ∧ (∀ r, call.pc ≠ .done r) ∧
        ∀ f, call.pc = .following f →
          call₁.pc = .following f ∨ ∃ r, call₁.pc = .done r ∧ Followed call.key r :=
    fun u call' => ⟨s.next, call', false, Function.update_self .., fun i hi => update_notes hi,
      fun call hc => (hfresh call hc).elim⟩
  -- a leader's move, as it follows nobody
  have hlead : ∀ {c : Nat} {call call' : Call V}, s.calls c = some call → call'.key = call.key →
      (∀ r, call.pc ≠ .done r) → (∀ f, call.pc ≠ .following f) → ∀ old, s.calls c = some old →
      call'.key = old.key ∧ (∀ r, old.pc ≠ .done r) ∧ ∀ f, old.pc = .following f →
        call'.pc = .following f ∨ ∃ r, call'.pc = .done r ∧ Followed old.key r := by
    intro c call call' hc hk hnd hnf old ho
    rw [hc] at ho
    cases ho
    exact ⟨hk, hnd, fun f hf => (hnf f hf).elim⟩
  -- a follower's last move
  have hleave : ∀ {c f : Nat} {call : Call V} {r : Except CallError (SchedulerReceipt V)},
      s.calls c = some call → call.pc = .following f → Followed call.key r → ∀ old,
      s.calls c = some old → ({ call with pc := .done r } : Call V).key = old.key ∧
        (∀ r, old.pc ≠ .done r) ∧ ∀ g, old.pc = .following g →
          ({ call with pc := .done r } : Call V).pc = .following g ∨
          ∃ r', ({ call with pc := .done r } : Call V).pc = .done r' ∧ Followed old.key r' := by
    intro c f call r hc hp hr old ho
    rw [hc] at ho
    cases ho
    exact ⟨rfl, by simp [hp], fun g _ => .inr ⟨r, rfl, hr⟩⟩
  cases hm with
  | answered => exact harrive _ _
  | joined => exact harrive _ _
  | launched => exact harrive _ _
  | queued => exact harrive _ _
  | timedOut hc hp =>
    exact ⟨_, _, true, Function.update_self .., fun i hi => notify_notes hi,
      hlead hc rfl (by simp [hp]) (by simp [hp])⟩
  | abandoned hc hp =>
    exact ⟨_, _, true, Function.update_self .., fun i hi => notify_notes hi,
      hlead hc rfl (by simp [hp]) (by simp [hp])⟩
  | popped hc hp =>
    exact ⟨_, _, false, Function.update_self .., fun i hi => update_notes hi,
      hlead hc rfl (by simp [hp]) (by simp [hp])⟩
  | waits hc hp =>
    exact ⟨_, _, false, Function.update_self .., fun i hi => update_notes hi,
      hlead hc rfl (by simp [hp]) (by simp [hp])⟩
  | @follows c f call flight hc hp =>
    refine ⟨_, _, false, Function.update_self .., fun i hi => update_notes hi, fun old ho => ?_⟩
    rw [hc] at ho
    cases ho
    exact ⟨rfl, by simp [hp], fun g hg => .inl hg⟩
  | left hc hp _ hr =>
    exact ⟨_, _, true, Function.update_self .., fun i hi => notify_notes hi,
      hleave hc hp (followed_result hr)⟩
  | gaveUp hc hp =>
    exact ⟨_, _, true, Function.update_self .., fun i hi => notify_notes hi,
      hleave hc hp (.cancelled _)⟩
  | started hc hp =>
    exact ⟨_, _, false, Function.update_self .., fun i hi => update_notes hi,
      hlead hc rfl (by simp [hp]) (by simp [hp])⟩
  | worked hc hp =>
    exact ⟨_, _, false, Function.update_self .., fun i hi => update_notes hi,
      hlead hc rfl (by simp [hp]) (by simp [hp])⟩
  | failed hc hp =>
    exact ⟨_, _, true, Function.update_self .., fun i hi => notify_notes hi,
      hlead hc rfl (by simp [hp]) (by simp [hp])⟩
  | published hc hp =>
    exact ⟨_, _, true, Function.update_self .., fun i hi => notify_notes hi,
      hlead hc rfl (by simp [hp]) (by simp [hp])⟩

theorem Move.follows_kept (h : s.Sound) (hm : Move limits codec s t) (hf : s.Follows c f key) :
    t.Follows c f key := by
  obtain ⟨call, hc, rfl, hp⟩ := hf
  obtain ⟨i, call', notes, hi, hother, hown⟩ := hm.moved h
  by_cases hci : c = i
  · subst hci
    obtain ⟨hk, hnd, hend⟩ := hown call hc
    rcases hp with hp | ⟨r, hr, _⟩
    · exact ⟨call', hi, hk, hend f hp⟩
    · exact (hnd r hr).elim
  · refine ⟨{ call with notified := call.notified || notes }, ?_, rfl, hp⟩
    rw [hother c hci, hc, Option.map_some]

/-- A follower stays one, or ends as one. -/
theorem step_follows (h : s.Sound) {event : Event V}
    (ht : System.step limits codec s event = some t) (hf : s.Follows c f key) :
    t.Follows c f key := by
  have hmoves := step_moves h.ordered ht
  clear ht
  have hboth : t.Sound ∧ t.Follows c f key := by
    induction hmoves with
    | refl => exact ⟨h, hf⟩
    | tail _ hm ih => exact ⟨hm.sound ih.1, hm.follows_kept ih.1 ih.2⟩
  exact hboth.2

end Following

section Waking
variable {c : Nat} {call : Call V}

theorem wake_queued (hc : s.calls c = some call) (hp : call.pc = .queued) (now : Int) :
    System.step limits codec s (.wake c now) = some (System.queuedTurn limits s c call now) := by
  simp [System.step, hc, System.wake, hp]

/-- The slot's holder is the one running flight's leader. -/
theorem System.Sound.alone (h : s.Sound) {c' : Nat} {call' : Call V} (hc : s.calls c = some call)
    (hc' : s.calls c' = some call') (hp : call.pc.holds = true) (hp' : call'.pc.holds = true) :
    c = c' := by
  obtain ⟨st, hst, hlead⟩ := h.linked.led c call hc (.inr hp)
  obtain ⟨st', hst', hlead'⟩ := h.linked.led c' call' hc' (.inr hp')
  rw [hlead.running hp] at hst
  rw [hlead'.running hp'] at hst'
  have hk := (h.ordered.running _).mpr ⟨c, hst⟩
  have hk' := (h.ordered.running _).mpr ⟨c', hst'⟩
  rw [hk] at hk'
  rw [← Option.some.inj hk'] at hst'
  exact h.ordered.live_unique hst rfl hst' rfl

theorem System.Sound.scheduled (h : s.Sound) (hl : s.Logged codec) :
    s.Scheduled limits codec := by
  refine ⟨fun c c' call call' hc hc' hp hp' => h.alone hc hc' hp hp', hl.begun, hl.order, hl.results,
    fun c call f hc hp => ?_, fun c call f flight hc hp hf hdead => ?_,
    fun c call hc hp hrun hhead => ?_, fun c call now hc hp hlate => ?_⟩
  · obtain ⟨st, hst, _⟩ := h.linked.following c call f hc hp
    obtain ⟨leader, hleader, hkey, hlead⟩ := h.linked.owner f _ _ hst
    obtain ⟨flight, hflight, he⟩ := Option.map_eq_some_iff.mp hst
    rw [Prod.mk.injEq] at he
    exact ⟨flight, leader, hflight, hleader, he.1, hkey, he.2 ▸ hlead⟩
  · obtain ⟨st, hst, hnote⟩ := h.linked.following c call f hc hp
    rw [Scheduler.shape_eq hf, Option.some_inj, Prod.mk.injEq] at hst
    have hnotified := hnote (hst.2 ▸ hdead)
    refine ⟨hnotified, fun now => ?_⟩
    obtain ⟨r, hr⟩ := followed_of_dead call now hdead
    refine ⟨s.leave c f call r, r, ?_, Function.update_self .., followed_result hr⟩
    simp [System.step, hc, System.wake, hp, hnotified, hf, System.followingTurn, hr]
  · refine ⟨h.head hrun _ hhead c call hc hp rfl, fun now hnow => ?_⟩
    refine ⟨_, wake_queued hc hp now, ?_⟩
    unfold System.queuedTurn
    rw [if_neg (by omega), if_pos ⟨hrun, hhead⟩]
    exact Function.update_self ..
  · refine ⟨_, wake_queued hc hp now, ?_⟩
    unfold System.queuedTurn
    rw [if_pos (by omega)]
    exact Function.update_self ..

end Waking

/-- In every run of calls on one scheduler, with any keys, times, cancellations and outcomes. -/
theorem scheduled_of_reachable (h : (System.machine limits codec).Reachable s) :
    s.Scheduled limits codec ∧
      ∀ event t, System.step limits codec s event = some t →
        ∀ c f key, s.Follows c f key → t.Follows c f key := by
  obtain ⟨hs, hl⟩ := System.Reachable.sound_logged h
  exact ⟨hs.scheduled hl, fun event t ht c f key hf => step_follows hs ht hf⟩

theorem System.reachable_run (events : List (Event V))
    (hs : (System.machine limits codec).Reachable s)
    (h : events.foldlM (System.step limits codec) s = some t) :
    (System.machine limits codec).Reachable t := by
  induction events generalizing s with
  | nil =>
    cases h
    exact hs
  | cons event rest ih =>
    obtain ⟨u, hu, hrest⟩ := Option.bind_eq_some_iff.mp h
    exact ih (hs.next hu) hrest

/-- A scheduler whose queued leaders give up after ten microseconds. -/
def hastyLimits : SchedulerLimits := ⟨4, 10, 4, 4, 4, 100, 50, by decide⟩

/-- Every result is the empty object. -/
def emptyCodec : Codec Unit := ⟨fun _ => .ok [123, 125], fun _ => ()⟩

/-- While `a` works, a call waits in the queue for `b`, a second one joins it, and both are woken
after the first one's deadline. -/
def hastyEvents : List (Event Unit) :=
  [.submit "a".toList 0 0, .submit "b".toList 0 0, .submit "b".toList 1 1, .start 0 2, .wake 1 10,
    .wake 2 11]

/-- After them, with `a` done and a third call for `b` at work. -/
def latterEvents : List (Event Unit) :=
  [.work 0 (.ok ()), .finish 0 12, .submit "b".toList 13 13, .start 3 14]

/-- The run reaches a state where `b` is at work, and what holds of every run holds there. -/
theorem scheduled_of_reachable_hasty :
    ∃ s, (hastyEvents ++ latterEvents).foldlM (System.step hastyLimits emptyCodec) System.initial =
      some s ∧ s.starts = [0, 3] ∧ s.Scheduled hastyLimits emptyCodec ∧
      ∀ event t, System.step hastyLimits emptyCodec s event = some t →
        ∀ c f key, s.Follows c f key → t.Follows c f key := by
  refine ⟨_, rfl, rfl, ?_⟩
  exact scheduled_of_reachable
    (System.reachable_run (hastyEvents ++ latterEvents) (Machine.reachable_start rfl) rfl)

/-- The follower of a flight whose leader gave up in the queue gets a failure of no work at all. -/
theorem follower_of_abandoned_flight :
    ¬ ∀ s, (System.machine hastyLimits emptyCodec).Reachable s → ∀ c call cause k ms,
      s.calls c = some call → call.pc = .done (.error (.workFailed cause .coalesced k ms)) →
      ∃ e, s.WorkFailed emptyCodec call.key e := by
  intro h
  obtain ⟨s, hs⟩ : ∃ s,
      hastyEvents.foldlM (System.step hastyLimits emptyCodec) System.initial = some s := ⟨_, rfl⟩
  have hreach : (System.machine hastyLimits emptyCodec).Reachable s :=
    System.reachable_run hastyEvents (Machine.reachable_start rfl) hs
  cases hs
  obtain ⟨e, f, call, _, hc, hk, hm, _⟩ := h _ hreach 2 _ _ _ _ rfl rfl
  obtain rfl : f = 0 := List.mem_singleton.mp hm
  cases hc
  simp at hk

end Danus.Verify
