import Danus.Verify.Cache
import Danus.Verify.Guarantees
import Mathlib.Algebra.BigOperators.Group.Finset.Basic
import Mathlib.Algebra.BigOperators.Group.Finset.Piecewise

/-! The scheduler's counters against its calls: who waits, who is queued, and what the cache holds. -/
namespace Danus.Verify
open Python Machines

variable {V : Type} {limits : SchedulerLimits} {codec : Codec V} {s t : System V}

/-- The flight that a call has joined. -/
def Pc.target : Pc V → Option Nat
  | .following f => some f
  | _ => none

def Pc.follows (f : Nat) (pc : Pc V) : Bool := pc.target == some f

def Pc.isFollowing (pc : Pc V) : Bool := pc.target.isSome

def Pc.isQueued : Pc V → Bool
  | .queued => true
  | _ => false

/-- The number of calls at such a point. -/
def System.count (s : System V) (p : Pc V → Bool) : Nat :=
  (List.range s.next).countP fun c => (s.calls c).any fun call => p call.pc

/-- `joined_waiters` of a flight. -/
def Scheduler.waiters (t : Scheduler V) (f : Nat) : Option Nat := (t.flights f).map Flight.joinedWaiters

/-- The waiters of each flight are the calls that follow it, the total is theirs with the queued
leaders, and every limit holds. -/
structure System.Accounted (limits : SchedulerLimits) (s : System V) : Prop where
  joined : ∀ f n, s.scheduler.waiters f = some n →
    n = s.count (Pc.follows f) ∧ n ≤ limits.maxWaitersPerKey
  total : s.scheduler.totalWaiters = s.count Pc.isFollowing + s.count Pc.isQueued
  queued : s.scheduler.queue.length = s.count Pc.isQueued
  total_le : s.scheduler.totalWaiters ≤ limits.maxTotalWaiters
  queue_le : s.scheduler.queue.length ≤ limits.maxDistinctQueue
  cache : CacheFits limits s.scheduler.cache s.scheduler.cacheBytes

section Counts
variable {p : Pc V → Bool} {c : Nat} {old new : Call V}

/-- Two counts that differ at one place. -/
theorem countP_range_update {a b : Nat → Bool} {n : Nat} (hc : c < n) (h : ∀ i, i ≠ c → a i = b i) :
    (List.range n).countP a + (b c).toNat = (List.range n).countP b + (a c).toNat := by
  induction n with
  | zero => cases hc
  | succ n ih =>
    rw [List.range_succ, List.countP_append, List.countP_append, List.countP_singleton,
      List.countP_singleton]
    rcases Nat.lt_succ_iff_lt_or_eq.mp hc with hlt | rfl
    · have hn := h n (Nat.ne_of_gt hlt)
      have ih' := ih hlt
      rw [hn]
      omega
    · have hsame : (List.range c).countP a = (List.range c).countP b := by
        refine List.countP_congr fun i hi => ?_
        rw [h i (Nat.ne_of_lt (List.mem_range.mp hi))]
      rw [hsame]
      cases ha : a c <;> cases hb : b c <;> simp

theorem System.count_congr (hn : t.next = s.next)
    (hpc : ∀ i, (t.calls i).map Call.pc = (s.calls i).map Call.pc) : t.count p = s.count p := by
  have hany : ∀ (u : System V) i, ((u.calls i).any fun call => p call.pc) =
      ((u.calls i).map Call.pc).any p := by
    intro u i
    cases u.calls i <;> rfl
  unfold System.count
  rw [hn]
  refine List.countP_congr fun i _ => ?_
  rw [hany, hany, hpc]

/-- One call moves on. -/
theorem System.count_moved (hn : t.next = s.next) (hlt : c < s.next) (hc : s.calls c = some old)
    (hc' : t.calls c = some new)
    (ho : ∀ i, i ≠ c → (t.calls i).map Call.pc = (s.calls i).map Call.pc) :
    t.count p + (p old.pc).toNat = s.count p + (p new.pc).toNat := by
  have hany : ∀ (u : System V) i, ((u.calls i).any fun call => p call.pc) =
      ((u.calls i).map Call.pc).any p := by
    intro u i
    cases u.calls i <;> rfl
  have h := countP_range_update (a := fun i => (t.calls i).any fun call => p call.pc)
    (b := fun i => (s.calls i).any fun call => p call.pc) hlt fun i hi => by
      simp only [hany, ho i hi]
  simp only [hc, hc', Option.any_some] at h
  rw [System.count, System.count, hn]
  exact h

theorem System.count_arrive (u : Scheduler V) (call : Call V) :
    ({ s with scheduler := u }.arrive call).count p = s.count p + (p call.pc).toNat := by
  unfold System.count
  change (List.range (s.next + 1)).countP (fun c =>
    (Function.update s.calls s.next (some call) c).any fun call => p call.pc) = _
  rw [List.range_succ, List.countP_append, List.countP_singleton, Function.update_self]
  congr 1
  · refine List.countP_congr fun i hi => ?_
    rw [Function.update_of_ne (Nat.ne_of_lt (List.mem_range.mp hi))]
  · split_ifs with hb
    · exact (Bool.toNat_eq_one.mpr hb).symm
    · exact (Bool.toNat_eq_zero.mpr (Bool.not_eq_true _ ▸ hb)).symm

theorem pc_notifyAll (s : System V) (i : Nat) :
    (s.notifyAll.calls i).map Call.pc = (s.calls i).map Call.pc := by
  simp only [System.notifyAll, Option.map_map]
  rfl

/-- Nobody follows a flight that is not there. -/
theorem System.Linked.count_follows (h : s.Linked) {f : Nat} (hf : s.scheduler.flights f = none) :
    s.count (Pc.follows f) = 0 := by
  refine List.countP_eq_zero.mpr fun c _ hany => ?_
  cases hc : s.calls c with
  | none =>
    rw [hc] at hany
    cases hany
  | some call =>
  rw [hc, Option.any_some] at hany
  have htarget : call.pc = .following f := by
    cases hpc : call.pc <;> simp_all [Pc.follows, Pc.target]
  obtain ⟨st, hst, _⟩ := h.following c call f hc htarget
  rw [Scheduler.shape, hf] at hst
  cases hst

end Counts

section Steps
variable {c f : Nat} {call : Call V}

/-- A move that leaves the followers alone. -/
theorem System.Accounted.settled (h : s.Accounted limits)
    (hw : t.scheduler.waiters = s.scheduler.waiters)
    (hf : ∀ f, t.count (Pc.follows f) = s.count (Pc.follows f))
    (hfol : t.count Pc.isFollowing = s.count Pc.isFollowing)
    (hq : t.scheduler.queue.length = t.count Pc.isQueued)
    (ht : t.scheduler.totalWaiters + s.count Pc.isQueued =
      s.scheduler.totalWaiters + t.count Pc.isQueued)
    (hle : t.scheduler.totalWaiters ≤ s.scheduler.totalWaiters)
    (hcache : CacheFits limits t.scheduler.cache t.scheduler.cacheBytes) : t.Accounted limits := by
  have htotal := h.total
  have hqueued := h.queued
  refine ⟨fun f n hn => ?_, ?_, hq, hle.trans h.total_le, ?_, hcache⟩
  · rw [hw] at hn
    rw [hf]
    exact h.joined f n hn
  · omega
  · have := h.queue_le
    omega

/-- A flight's update that keeps its waiters. -/
theorem Scheduler.waiters_map {u v : Scheduler V} {g : Flight V → Flight V}
    (hg : ∀ flight, (g flight).joinedWaiters = flight.joinedWaiters)
    (hv : v.flights = Function.update u.flights c ((u.flights c).map g)) : v.waiters = u.waiters := by
  funext f
  unfold Scheduler.waiters
  rw [hv]
  by_cases hf : f = c
  · rw [hf, Function.update_self, Option.map_map]
    cases u.flights c with
    | none => rfl
    | some flight => exact congrArg some (hg flight)
  · rw [Function.update_of_ne hf]

/-- What `setCall` after a notification moves. -/
theorem System.count_notified {u : System V} {w : Call V} {p : Pc V → Bool} (hlt : c < u.next)
    (hc : u.calls c = some call) :
    (u.notifyAll.setCall c w).count p + (p call.pc).toNat = u.count p + (p w.pc).toNat := by
  refine System.count_moved rfl hlt hc (Function.update_self ..) fun i hi => ?_
  change (Function.update u.notifyAll.calls c (some w) i).map Call.pc = _
  rw [Function.update_of_ne hi, pc_notifyAll]

theorem System.count_setCall {u : System V} {w : Call V} {p : Pc V → Bool} (hlt : c < u.next)
    (hc : u.calls c = some call) :
    (u.setCall c w).count p + (p call.pc).toNat = u.count p + (p w.pc).toNat := by
  refine System.count_moved rfl hlt hc (Function.update_self ..) fun i hi => ?_
  change (Function.update u.calls c (some w) i).map Call.pc = _
  rw [Function.update_of_ne hi]

/-- A queued leader gives up. -/
theorem System.Accounted.retire (h : s.Accounted limits) {u : Scheduler V} {failure : Failure}
    {r : Except CallError (SchedulerReceipt V)} (hlt : c < s.next) (hc : s.calls c = some call)
    (hp : call.pc = .queued) (hk : call.key ∈ s.scheduler.queue)
    (hq : u.queue = s.scheduler.queue) (hw : u.flights = s.scheduler.flights)
    (ht : u.totalWaiters = s.scheduler.totalWaiters) (hcache : u.cache = s.scheduler.cache)
    (hbytes : u.cacheBytes = s.scheduler.cacheBytes) :
    (({ s with scheduler := u }.retire c call.key failure).setCall c
      { call with pc := .done r }).Accounted limits := by
  have hmoved : ∀ p : Pc V → Bool, (({ s with scheduler := u }.retire c call.key failure).setCall c
      { call with pc := .done r }).count p + (p .queued).toNat = s.count p + (p (.done r)).toNat := by
    intro p
    rw [← hp]
    exact System.count_notified (p := p) (w := { call with pc := .done r }) hlt hc
  have hlen := List.length_erase_add_one hk
  have hqueued := hmoved Pc.isQueued
  have hbefore := h.queued
  have htotal := h.total
  simp only [Pc.isQueued, Bool.toNat_true, Bool.toNat_false] at hqueued
  refine h.settled ?_ (fun f => hmoved (Pc.follows f)) (hmoved Pc.isFollowing) ?_ ?_ ?_ ?_
  · have hflights : (({ s with scheduler := u }.retire c call.key failure).setCall c
        { call with pc := .done r }).scheduler.flights = Function.update s.scheduler.flights c
          ((s.scheduler.flights c).map fun flight => { flight with state := .failed failure }) := by
      rw [← hw]
      rfl
    exact Scheduler.waiters_map (g := fun flight => { flight with state := .failed failure })
      (fun _ => rfl) hflights
  · change (u.queue.erase call.key).length = _
    rw [hq]
    omega
  · change u.totalWaiters - 1 + _ = _
    rw [ht]
    omega
  · change u.totalWaiters - 1 ≤ _
    omega
  · have hfits := h.cache
    rw [← hcache, ← hbytes] at hfits
    exact hfits

/-- The head of the queue takes the slot. -/
theorem System.Accounted.launch (h : s.Accounted limits) (hlt : c < s.next)
    (hc : s.calls c = some call) (hp : call.pc = .queued) (hk : call.key ∈ s.scheduler.queue) :
    (s.launch c call).Accounted limits := by
  have hmoved : ∀ p : Pc V → Bool,
      (s.launch c call).count p + (p .queued).toNat = s.count p + (p .launched).toNat := by
    intro p
    rw [← hp]
    exact System.count_setCall (p := p) (w := { call with pc := .launched }) hlt hc
  have hqueued := hmoved Pc.isQueued
  have hbefore := h.queued
  have htotal := h.total
  have hpos := List.length_pos_of_mem hk
  simp only [Pc.isQueued, Bool.toNat_true, Bool.toNat_false] at hqueued
  refine h.settled (Scheduler.waiters_map (g := fun flight => { flight with state := .running })
    (fun _ => rfl) rfl) (fun f => hmoved (Pc.follows f)) (hmoved Pc.isFollowing) ?_ ?_ ?_ h.cache
  · change s.scheduler.queue.tail.length = _
    rw [List.length_tail]
    omega
  · change s.scheduler.totalWaiters - 1 + _ = _
    omega
  · exact Nat.sub_le _ _

/-- A call moves on that neither joins, leaves nor queues. -/
theorem System.Accounted.stays (h : s.Accounted limits) {w : Call V} (hlt : c < s.next)
    (hc : s.calls c = some call) (hn : t.next = s.next) (hcalls : t.calls = (s.setCall c w).calls)
    (hs : t.scheduler = s.scheduler) (htarget : w.pc.target = call.pc.target)
    (hqueued : w.pc.isQueued = call.pc.isQueued) : t.Accounted limits := by
  have hmoved : ∀ p : Pc V → Bool, p w.pc = p call.pc → t.count p = s.count p := by
    intro p hp
    have hm := System.count_setCall (p := p) (w := w) hlt hc
    have ht : t.count p = (s.setCall c w).count p :=
      System.count_congr hn fun i => by rw [hcalls]
    rw [hp] at hm
    omega
  have hq := hmoved _ hqueued
  refine h.settled (by rw [hs]) (fun f => hmoved _ ?_) (hmoved _ ?_) ?_ ?_ ?_ ?_
  · unfold Pc.follows
    rw [htarget]
  · unfold Pc.isFollowing
    rw [htarget]
  · rw [hs, hq]
    exact h.queued
  · rw [hs, hq]
  · rw [hs]
  · rw [hs]
    exact h.cache

/-- A follower is over. -/
theorem System.Accounted.leave (h : s.Accounted limits) {r : Except CallError (SchedulerReceipt V)}
    (hlt : c < s.next) (hc : s.calls c = some call) (hp : call.pc = .following f) :
    (s.leave c f call r).Accounted limits := by
  have hmoved : ∀ p : Pc V → Bool,
      (s.leave c f call r).count p + (p (.following f)).toNat = s.count p + (p (.done r)).toNat := by
    intro p
    rw [← hp]
    exact System.count_notified (p := p) (w := { call with pc := .done r }) hlt hc
  have hfol := hmoved Pc.isFollowing
  have hqueued := hmoved Pc.isQueued
  have htotal := h.total
  have hmax := h.total_le
  simp only [Pc.isQueued, Pc.isFollowing, Pc.target, Option.isSome_some, Option.isSome_none,
    Bool.toNat_true, Bool.toNat_false] at hfol hqueued
  refine ⟨fun g n hn => ?_, ?_, ?_, ?_, h.queue_le, h.cache⟩
  · have hg := hmoved (Pc.follows g)
    by_cases hgf : g = f
    · subst hgf
      simp only [Scheduler.waiters, System.leave, System.setCall, System.notifyAll,
        Function.update_self, Option.map_map, Option.map_eq_some_iff] at hn
      obtain ⟨flight, hflight, hflightn⟩ := hn
      simp only [Function.comp_apply] at hflightn
      obtain ⟨hj, hle⟩ := h.joined g flight.joinedWaiters (by rw [Scheduler.waiters, hflight]; rfl)
      have hone : (Pc.follows g (Pc.following g : Pc V)).toNat = 1 := by simp [Pc.follows, Pc.target]
      have hzero : (Pc.follows g (Pc.done r : Pc V)).toNat = 0 := by simp [Pc.follows, Pc.target]
      omega
    · have hzero : (Pc.follows g (Pc.following f : Pc V)).toNat = 0 := by
        simp [Pc.follows, Pc.target, Ne.symm hgf]
      have hzero' : (Pc.follows g (Pc.done r : Pc V)).toNat = 0 := by simp [Pc.follows, Pc.target]
      have hold : s.scheduler.waiters g = some n := by
        rw [← hn]
        simp [Scheduler.waiters, System.leave, System.setCall, System.notifyAll, hgf]
      obtain ⟨hj, hle⟩ := h.joined g n hold
      omega
  · change s.scheduler.totalWaiters - 1 = _
    omega
  · change s.scheduler.queue.length = _
    have := h.queued
    omega
  · exact (Nat.sub_le _ _).trans hmax

/-- The slot holder's flight lands. -/
theorem System.Accounted.land (h : s.Accounted limits) {u : Scheduler V} {st : FlightState V}
    {r : Except CallError (SchedulerReceipt V)} (hlt : c < s.next) (hc : s.calls c = some call)
    (hp : call.pc.holds = true) (hq : u.queue = s.scheduler.queue)
    (hw : u.flights = s.scheduler.flights) (ht : u.totalWaiters = s.scheduler.totalWaiters)
    (hcache : CacheFits limits u.cache u.cacheBytes) : (s.land c call u st r).Accounted limits := by
  have hmoved : ∀ p : Pc V → Bool,
      (s.land c call u st r).count p + (p call.pc).toNat = s.count p + (p (.done r)).toNat :=
    fun p => System.count_notified (p := p) (w := { call with pc := .done r }) hlt hc
  have htarget : call.pc.target = none := by
    cases hpc : call.pc <;> simp_all [Pc.holds, Pc.target]
  have hidle : call.pc.isQueued = false := by
    cases hpc : call.pc <;> simp_all [Pc.holds, Pc.isQueued]
  have hqueued : (s.land c call u st r).count Pc.isQueued = s.count Pc.isQueued := by
    have hm := hmoved Pc.isQueued
    rw [hidle] at hm
    exact hm
  refine h.settled ?_ (fun f => ?_) ?_ ?_ ?_ ?_ hcache
  · have hflights : (s.land c call u st r).scheduler.flights = Function.update s.scheduler.flights c
        ((s.scheduler.flights c).map fun flight => { flight with state := st }) := by
      rw [← hw]
      rfl
    exact Scheduler.waiters_map (g := fun flight => { flight with state := st }) (fun _ => rfl) hflights
  · have hm := hmoved (Pc.follows f)
    simp only [Pc.follows, htarget] at hm
    exact hm
  · have hm := hmoved Pc.isFollowing
    simp only [Pc.isFollowing, htarget] at hm
    exact hm
  · change u.queue.length = _
    rw [hq, hqueued]
    exact h.queued
  · change u.totalWaiters + _ = _
    rw [ht, hqueued]
  · change u.totalWaiters ≤ _
    rw [ht]

/-- A call arrives. -/
theorem System.Accounted.arrived (h : s.Accounted limits) {u : Scheduler V}
    (hw : ∀ f n, u.waiters f = some n →
      n = s.count (Pc.follows f) + (call.pc.follows f).toNat ∧ n ≤ limits.maxWaitersPerKey)
    (ht : u.totalWaiters =
      s.scheduler.totalWaiters + call.pc.isFollowing.toNat + call.pc.isQueued.toNat)
    (hq : u.queue.length = s.scheduler.queue.length + call.pc.isQueued.toNat)
    (hle : u.totalWaiters ≤ limits.maxTotalWaiters) (hqle : u.queue.length ≤ limits.maxDistinctQueue)
    (hcache : CacheFits limits u.cache u.cacheBytes) :
    ({ s with scheduler := u }.arrive call).Accounted limits := by
  have htotal := h.total
  have hqueued := h.queued
  refine ⟨fun f n hn => ?_, ?_, ?_, hle, hqle, hcache⟩
  · rw [System.count_arrive]
    exact hw f n hn
  · rw [System.count_arrive, System.count_arrive]
    change u.totalWaiters = _
    omega
  · rw [System.count_arrive]
    change u.queue.length = _
    omega

/-- One turn of a queued leader's loop. -/
theorem System.Accounted.queuedTurn (h : s.Accounted limits) (hlt : c < s.next)
    (hc : s.calls c = some call) (hp : call.pc = .queued) (hk : call.key ∈ s.scheduler.queue)
    (now : Int) : (System.queuedTurn limits s c call now).Accounted limits := by
  unfold System.queuedTurn
  split_ifs
  · exact h.retire hlt hc hp hk rfl rfl rfl rfl rfl
  · exact h.launch hlt hc hp hk
  · exact h.stays hlt hc rfl rfl rfl rfl rfl

/-- A call that is told at once. -/
theorem System.Accounted.answered (h : s.Accounted limits) {u : Scheduler V} {key : PyStr}
    {joinedAt : Int} {r : Except CallError (SchedulerReceipt V)}
    (hf : u.flights = s.scheduler.flights) (ht : u.totalWaiters = s.scheduler.totalWaiters)
    (hq : u.queue = s.scheduler.queue) (hcache : CacheFits limits u.cache u.cacheBytes) :
    ({ s with scheduler := u }.arrive ⟨key, joinedAt, false, .done r⟩).Accounted limits := by
  refine h.arrived (fun f n hn => ?_) ht ?_ ?_ ?_ hcache
  · unfold Scheduler.waiters at hn
    rw [hf] at hn
    exact h.joined f n hn
  · rw [hq]
    rfl
  · rw [ht]
    exact h.total_le
  · rw [hq]
    exact h.queue_le

/-- A call arrives and goes on to its work or its first wait. -/
theorem System.Accounted.submit (h : s.Accounted limits) (hs : s.Sound) (key : PyStr)
    (joinedAt now : Int) :
    (System.submit limits codec s key joinedAt now).Accounted limits := by
  unfold System.submit
  by_cases hkey : key = []
  · rw [if_pos hkey]
    exact h.answered rfl rfl rfl h.cache
  rw [if_neg hkey]
  simp only [Scheduler.enter]
  set counted : Scheduler V := { s.scheduler with
    counters := { s.scheduler.counters with submitted := s.scheduler.counters.submitted + 1 } }
    with hcounted
  have hfits : CacheFits limits counted.cache counted.cacheBytes := h.cache
  have hpurged := hfits.purged joinedAt
  have hfresh : s.count (Pc.follows s.next) = 0 := by
    refine hs.linked.count_follows ?_
    cases hf : s.scheduler.flights s.next with
    | none => rfl
    | some flight => exact (hs.linked.shape_lt (Scheduler.shape_eq hf)).false.elim
  -- a new flight has no followers
  have hnew : ∀ (u : Scheduler V) (pc : Pc V) (st : FlightState V), pc.target = none →
      u.flights = Function.update s.scheduler.flights s.next (some ⟨key, st, 0⟩) → ∀ f n,
      u.waiters f = some n →
        n = s.count (Pc.follows f) + (pc.follows f).toNat ∧ n ≤ limits.maxWaitersPerKey := by
    intro u pc st hpc hu f n hn
    have hzero : (pc.follows f).toNat = 0 := by
      rw [Pc.follows, hpc]
      rfl
    rw [hzero, Nat.add_zero]
    unfold Scheduler.waiters at hn
    rw [hu] at hn
    by_cases hf : f = s.next
    · subst hf
      rw [Function.update_self] at hn
      cases hn
      exact ⟨hfresh.symm, Nat.zero_le _⟩
    · rw [Function.update_of_ne hf] at hn
      exact h.joined f n hn
  cases hcache : (counted.purgeExpired joinedAt).cache.lookup key with
  | some entry => exact h.answered rfl rfl rfl (hpurged.moved hcache)
  | none =>
    simp only
    cases hjoin : ((counted.purgeExpired joinedAt).active.lookup key).bind fun f =>
        ((counted.purgeExpired joinedAt).flights f).map (f, ·) with
    | some p =>
      obtain ⟨f, flight⟩ := p
      obtain ⟨f', hf, hfl⟩ := Option.bind_eq_some_iff.mp hjoin
      obtain ⟨fl, hfl, he⟩ := Option.map_eq_some_iff.mp hfl
      cases he
      simp only [Scheduler.join]
      split_ifs with hperkey hall
      · exact h.answered rfl rfl rfl hpurged
      · exact h.answered rfl rfl rfl hpurged
      · refine h.arrived (fun g n hn => ?_) ?_ rfl ?_ h.queue_le hpurged
        · have hflight : s.scheduler.flights f = some flight := hfl
          obtain ⟨hj, _⟩ := h.joined f flight.joinedWaiters (by rw [Scheduler.waiters, hflight]; rfl)
          by_cases hg : g = f
          · subst hg
            simp only [Scheduler.waiters, Scheduler.setFlight, Function.update_self, Option.map_some,
              Option.some.injEq] at hn
            have hone : (Pc.follows g (Pc.following g : Pc V)).toNat = 1 := by
              simp [Pc.follows, Pc.target]
            rw [hone]
            omega
          · have hzero : (Pc.follows g (Pc.following f : Pc V)).toNat = 0 := by
              simp [Pc.follows, Pc.target, Ne.symm hg]
            rw [hzero]
            refine h.joined g n ?_
            rw [← hn]
            simp only [Scheduler.waiters, Scheduler.setFlight, Function.update_of_ne hg]
            rfl
        · rfl
        · change s.scheduler.totalWaiters + 1 ≤ _
          have hall' : ¬ limits.maxTotalWaiters ≤ s.scheduler.totalWaiters := hall
          omega
    | none =>
      simp only [Scheduler.lead]
      split_ifs with hslot hfull hwaiters
      · exact h.arrived (hnew _ _ .running rfl rfl) rfl rfl h.total_le h.queue_le hpurged
      · exact h.answered rfl rfl rfl hpurged
      · exact h.answered rfl rfl rfl hpurged
      · have hfull' : ¬ limits.maxDistinctQueue ≤ s.scheduler.queue.length := hfull
        have hwaiters' : ¬ limits.maxTotalWaiters ≤ s.scheduler.totalWaiters := hwaiters
        have hlength : (s.scheduler.queue ++ [key]).length = s.scheduler.queue.length + 1 :=
          List.length_append
        refine System.Accounted.queuedTurn ?_ (Nat.lt_succ_self _) (Function.update_self ..) rfl
          (List.mem_append_right _ (List.mem_singleton_self key)) now
        refine h.arrived (hnew _ _ .queued rfl rfl) rfl hlength ?_ ?_ hpurged
        · change s.scheduler.totalWaiters + 1 ≤ _
          omega
        · change (s.scheduler.queue ++ [key]).length ≤ _
          omega

end Steps

/-- A queued leader's key is in the queue. -/
theorem System.Sound.key_mem (h : s.Sound) {c : Nat} {call : Call V} (hc : s.calls c = some call)
    (hp : call.pc = .queued) : call.key ∈ s.scheduler.queue := by
  obtain ⟨flight, hf, hk, hl⟩ := h.own hc (.inl hp)
  rw [hp] at hl
  refine (h.ordered.queue_mem _).mpr ⟨c, ?_⟩
  rw [Scheduler.shape_eq hf, hk, hl.queued]

/-- Every event keeps the accounts. -/
theorem System.Accounted.step (h : s.Accounted limits) (hs : s.Sound) {event : Event V}
    (ht : System.step limits codec s event = some t) : t.Accounted limits := by
  cases event with
  | submit key joinedAt now =>
    cases ht
    exact h.submit hs key joinedAt now
  | wake c now =>
    obtain ⟨call, hc, hw⟩ := Option.bind_eq_some_iff.mp ht
    have hlt := hs.linked.call_lt c call hc
    unfold System.wake at hw
    cases hp : call.pc with
    | following f =>
      rw [hp] at hw
      simp only at hw
      split_ifs at hw
      obtain ⟨flight, hf, rfl⟩ := Option.map_eq_some_iff.mp hw
      unfold System.followingTurn
      cases hr : System.followed? call flight now with
      | some r => exact h.leave hlt hc hp
      | none => exact h.stays hlt hc rfl rfl rfl rfl rfl
    | queued =>
      rw [hp] at hw
      cases hw
      exact h.queuedTurn hlt hc hp (hs.key_mem hc hp) now
    | launched => simp [hp] at hw
    | working ms => simp [hp] at hw
    | returning ms o => simp [hp] at hw
    | done r => simp [hp] at hw
  | cancel c e =>
    obtain ⟨call, hc, hw⟩ := Option.bind_eq_some_iff.mp ht
    have hlt := hs.linked.call_lt c call hc
    unfold System.cancel at hw
    cases hp : call.pc with
    | following f =>
      rw [hp] at hw
      cases hw
      exact h.leave hlt hc hp
    | queued =>
      rw [hp] at hw
      cases hw
      exact h.retire hlt hc hp (hs.key_mem hc hp) rfl rfl rfl rfl rfl
    | launched => simp [hp] at hw
    | working ms => simp [hp] at hw
    | returning ms o => simp [hp] at hw
    | done r => simp [hp] at hw
  | start c now =>
    obtain ⟨call, hc, hw⟩ := Option.bind_eq_some_iff.mp ht
    have hlt := hs.linked.call_lt c call hc
    unfold System.start at hw
    cases hp : call.pc <;> simp only [hp, reduceCtorEq, Option.some.injEq] at hw
    rw [← hw]
    refine h.stays (w := { call with pc := .working (waitMs call.joinedAt now) }) hlt hc rfl rfl rfl
      ?_ ?_
    · rw [hp]
      rfl
    · rw [hp]
      rfl
  | work c outcome =>
    obtain ⟨call, hc, hw⟩ := Option.bind_eq_some_iff.mp ht
    have hlt := hs.linked.call_lt c call hc
    unfold System.work at hw
    cases hp : call.pc with
    | working ms =>
      simp only [hp, Option.some.injEq] at hw
      rw [← hw]
      refine h.stays (w := { call with pc := .returning ms outcome }) hlt hc rfl rfl rfl ?_ ?_
      · rw [hp]
        rfl
      · rw [hp]
        rfl
    | launched => simp [hp] at hw
    | following f => simp [hp] at hw
    | queued => simp [hp] at hw
    | returning ms o => simp [hp] at hw
    | done r => simp [hp] at hw
  | finish c now =>
    obtain ⟨call, hc, hw⟩ := Option.bind_eq_some_iff.mp ht
    have hlt := hs.linked.call_lt c call hc
    -- the failure region, for work that raised and for a result that is no JSON
    have hfail : ∀ {ms : Nat} {outcome : Except Exn V}, call.pc = .returning ms outcome → ∀ e,
        (System.fail s c call ms e).Accounted limits :=
      fun hp e => h.land hlt hc (by rw [hp]; rfl) rfl rfl rfl h.cache
    unfold System.finish at hw
    cases hp : call.pc with
    | returning ms outcome =>
      cases outcome with
      | error e =>
        simp only [hp, Option.some.injEq] at hw
        rw [← hw]
        exact hfail hp e
      | ok value =>
        simp only [hp] at hw
        cases he : codec.encode value with
        | error e =>
          simp only [he, Option.some.injEq] at hw
          rw [← hw]
          exact hfail hp e
        | ok encoded =>
          simp only [he, Option.some.injEq] at hw
          rw [← hw]
          have hsame : ∀ u : Scheduler V, (u.cacheResult limits call.key encoded now).queue = u.queue ∧
              (u.cacheResult limits call.key encoded now).flights = u.flights ∧
              (u.cacheResult limits call.key encoded now).totalWaiters = u.totalWaiters := by
            intro u
            unfold Scheduler.cacheResult
            split_ifs <;> exact ⟨rfl, rfl, rfl⟩
          obtain ⟨h1, h2, h3⟩ := hsame (s.scheduler.purgeExpired now)
          exact h.land hlt hc (by rw [hp]; rfl) h1 h2 h3 ((h.cache.purged now).cached _ _ _)
    | launched => simp [hp] at hw
    | working ms => simp [hp] at hw
    | following f => simp [hp] at hw
    | queued => simp [hp] at hw
    | done r => simp [hp] at hw

theorem System.accounted_initial : (System.initial : System V).Accounted limits := by
  refine ⟨fun f n hn => ?_, rfl, rfl, Nat.zero_le _, Nat.zero_le _, ?_⟩
  · cases hn
  · exact ⟨rfl, List.nodup_nil, Nat.zero_le _, Int.natCast_nonneg _⟩

theorem System.accounted_of_reachable (h : (System.machine limits codec).Reachable s) :
    s.Accounted limits := by
  refine (h.invariant (I := fun s => (System.machine limits codec).Reachable s ∧ s.Accounted limits)
    ?_ ?_).2
  · rintro s rfl
    exact ⟨Machine.reachable_start rfl, System.accounted_initial⟩
  · intro s event t hs ht
    exact ⟨hs.1.next ht, hs.2.step (System.Reachable.sound_logged hs.1).1 ht⟩

/-- A cached result that a call is handed had not expired when the call read the clock. -/
theorem Scheduler.enter_hit {u : Scheduler V} {key : PyStr} {joinedAt : Int} {id : Nat} {value : V}
    (h : (u.enter limits codec key joinedAt id).1 = .hit value) : ∃ entry, (key, entry) ∈ u.cache ∧
      joinedAt < entry.expiresAt ∧ value = codec.decode entry.encoded := by
  simp only [Scheduler.enter] at h
  set counted : Scheduler V := { u with
    counters := { u.counters with submitted := u.counters.submitted + 1 } } with hcounted
  cases hcache : (counted.purgeExpired joinedAt).cache.lookup key with
  | some entry =>
    rw [hcache] at h
    have hm := mem_of_lookup_eq_some hcache
    refine ⟨entry, (List.mem_filter.mp hm).1, purgeExpired_fresh hm, ?_⟩
    exact (Entry.hit.inj h).symm
  | none =>
    rw [hcache] at h
    simp only at h
    cases hjoin : ((counted.purgeExpired joinedAt).active.lookup key).bind fun f =>
        ((counted.purgeExpired joinedAt).flights f).map (f, ·) with
    | some p =>
      rw [hjoin] at h
      simp only [Scheduler.join] at h
      split_ifs at h
    | none =>
      rw [hjoin] at h
      simp only [Scheduler.lead] at h
      split_ifs at h

/-- Every flight's followers are counted once over all flights. -/
theorem System.sum_waiters (hs : s.Sound) (h : s.Accounted limits) :
    ∑ f ∈ Finset.range s.next, (s.scheduler.waiters f).getD 0 = s.count Pc.isFollowing := by
  have heach : ∀ f, (s.scheduler.waiters f).getD 0 = s.count (Pc.follows f) := by
    intro f
    cases hf : s.scheduler.flights f with
    | none =>
      rw [hs.linked.count_follows hf, Scheduler.waiters, hf]
      rfl
    | some flight =>
      have hw : s.scheduler.waiters f = some flight.joinedWaiters := by
        rw [Scheduler.waiters, hf]
        rfl
      rw [hw]
      exact (h.joined f _ hw).1
  have hcount : ∀ n, ∑ f ∈ Finset.range s.next,
      (List.range n).countP (fun c => (s.calls c).any fun call => call.pc.follows f) =
        (List.range n).countP fun c => (s.calls c).any fun call => call.pc.isFollowing := by
    intro n
    induction n with
    | zero => simp
    | succ n ih =>
      simp only [List.range_succ, List.countP_append, List.countP_singleton, Finset.sum_add_distrib, ih]
      congr 1
      cases hc : s.calls n with
      | none => simp
      | some call =>
        simp only [Option.any_some]
        cases ht : call.pc.target with
        | none => simp [Pc.follows, Pc.isFollowing, ht]
        | some g =>
          have hg : g < s.next := by
            have hp : call.pc = .following g := by
              cases hpc : call.pc <;> simp_all [Pc.target]
            obtain ⟨st, hst, _⟩ := hs.linked.following n call g hc hp
            exact hs.linked.shape_lt hst
          simp [Pc.follows, Pc.isFollowing, ht, Finset.sum_ite_eq, hg]
  rw [Finset.sum_congr rfl fun f _ => heach f]
  exact hcount s.next

/-- The scheduler's accounts: the waiter total is the joined waiters of all flights and the accounted
queued leaders; a flight's joined waiters are the calls that follow it; the cache's byte count is the
sum of its entries' sizes; every limit holds; the cache holds only results of work that succeeded, and
no call is handed one that had expired when it read the clock; and the slot, the active flights, the
queue and the calls agree. -/
structure System.Balanced (limits : SchedulerLimits) (codec : Codec V) (s : System V) : Prop where
  total : s.scheduler.totalWaiters =
    ∑ f ∈ Finset.range s.next, (s.scheduler.waiters f).getD 0 + s.count Pc.isQueued
  total_le : s.scheduler.totalWaiters ≤ limits.maxTotalWaiters
  joined : ∀ f n, s.scheduler.waiters f = some n →
    n = s.count (Pc.follows f) ∧ n ≤ limits.maxWaitersPerKey
  queued : s.scheduler.queue.length = s.count Pc.isQueued
  queue_le : s.scheduler.queue.length ≤ limits.maxDistinctQueue
  cache : CacheFits limits s.scheduler.cache s.scheduler.cacheBytes
  succeeded : ∀ key entry, (key, entry) ∈ s.scheduler.cache → s.Published codec key entry.encoded
  fresh : ∀ key joinedAt value, (s.scheduler.enter limits codec key joinedAt s.next).1 = .hit value →
    ∃ entry, (key, entry) ∈ s.scheduler.cache ∧ joinedAt < entry.expiresAt ∧
      value = codec.decode entry.encoded
  sound : s.Sound

/-- In every reachable state the accounts balance. -/
theorem balanced_of_reachable (h : (System.machine limits codec).Reachable s) :
    s.Balanced limits codec := by
  obtain ⟨hs, hl⟩ := System.Reachable.sound_logged h
  have ha := System.accounted_of_reachable h
  refine ⟨?_, ha.total_le, ha.joined, ha.queued, ha.queue_le, ha.cache, hl.cached, ?_, hs⟩
  · rw [System.sum_waiters hs ha]
    exact ha.total
  · intro key joinedAt value hhit
    exact Scheduler.enter_hit hhit

/-- The accounts after a run with a timeout in the queue and one cached result of two bytes. -/
theorem balanced_hasty : ∃ s,
    (hastyEvents ++ latterEvents).foldlM (System.step hastyLimits emptyCodec) System.initial = some s ∧
      s.scheduler.cacheBytes = 2 ∧ s.Balanced hastyLimits emptyCodec :=
  ⟨_, rfl, rfl, balanced_of_reachable
    (System.reachable_run (hastyEvents ++ latterEvents) (Machine.reachable_start rfl) rfl)⟩

end Danus.Verify
