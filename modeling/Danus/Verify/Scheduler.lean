import Danus.Lib.Dict
import Danus.Lib.Machine
import Danus.Lib.Text
import Mathlib.Logic.Function.Basic

/-! The verifier's scheduler: one paid slot, distinct keys in a queue, exact duplicates joined to one
flight, and a bounded cache of results. One step is one region under the lock, or one event outside
it; times are in microseconds. -/
namespace Danus.Verify
open Python Machines

structure SchedulerLimits where
  maxDistinctQueue : Nat
  queueWait : Int
  maxWaitersPerKey : Nat
  maxTotalWaiters : Nat
  cacheMaxEntries : Nat
  cacheMaxBytes : Nat
  cacheTtl : Int
  positive : 0 < maxDistinctQueue ∧ 0 < queueWait ∧ 0 < maxWaitersPerKey ∧ 0 < maxTotalWaiters ∧
    0 < cacheMaxEntries ∧ 0 < cacheMaxBytes ∧ 0 < cacheTtl

/-- The reasons of a `SchedulerRejected`. -/
inductive Rejection where
  | perKeyWaitersFull | totalWaitersFull | distinctQueueFull | queueWaitTimeout
  deriving DecidableEq, Repr

def Rejection.reason : Rejection → String
  | .perKeyWaitersFull => "per_key_waiters_full"
  | .totalWaitersFull => "total_waiters_full"
  | .distinctQueueFull => "distinct_queue_full"
  | .queueWaitTimeout => "queue_wait_timeout"

def Rejection.detail : Rejection → String
  | .perKeyWaitersFull => "too many callers are already waiting for this verification"
  | .totalWaitersFull => "verification scheduler waiter capacity is full"
  | .distinctQueueFull => "verification scheduler distinct queue is full"
  | .queueWaitTimeout => "verification scheduler queue wait timed out"

/-- An exception that work or a wait raises: its type's name, its text, and whether `copy.copy`
copies it. -/
structure Exn where
  typeName : PyStr
  text : PyStr
  copies : Bool
  deriving DecidableEq

/-- `flight.error` -/
inductive Failure where
  | rejected (r : Rejection)
  | raised (e : Exn)
  deriving DecidableEq

/-- `_copy_error` -/
def copyError : Failure → Failure
  | .rejected r => .rejected r
  | .raised e =>
    if e.copies then .raised e
    else .raised ⟨"RuntimeError".toList, "scheduled verifier failed: ".toList ++ e.typeName, true⟩

/-- How a result becomes the bytes of a JSON object, and how these are read back. -/
structure Codec (V : Type) where
  encode : V → Except Exn (List Nat)
  decode : List Nat → V

/-- `flight.state`, with `flight.result` or `flight.error`, which are set together with it. -/
inductive FlightState (V : Type) where
  | queued | running
  | completed (result : V)
  | failed (error : Failure)

/-- A flight is named by the number of the call that leads it. -/
structure Flight (V : Type) where
  key : PyStr
  state : FlightState V
  joinedWaiters : Nat

structure CacheEntry where
  encoded : List Nat
  expiresAt : Int

structure Counters where
  submitted : Nat
  launched : Nat
  coalesced : Nat
  cacheHits : Nat
  rejected : Nat
  completed : Nat
  failed : Nat
  expired : Nat
  evicted : Nat

/-- The attributes of a `VerificationScheduler`, and its `_Flight` objects. -/
structure Scheduler (V : Type) where
  queue : List PyStr
  active : List (PyStr × Nat)
  flights : Nat → Option (Flight V)
  runningKey : Option PyStr
  totalWaiters : Nat
  cache : List (PyStr × CacheEntry)
  cacheBytes : Int
  counters : Counters

inductive Source where
  | launched | coalesced | cacheHit
  deriving DecidableEq, Repr

structure SchedulerReceipt (V : Type) where
  value : V
  source : Source
  key : PyStr
  waitMs : Nat

/-- What `execute` raises: `ValueError`, `SchedulerRejected`, `SchedulerWorkFailed`, or what its own
wait raised. -/
inductive CallError where
  | invalidKey
  | rejected (r : Rejection)
  | workFailed (cause : Failure) (source : Source) (key : PyStr) (waitMs : Nat)
  | cancelled (e : Exn)
  deriving DecidableEq

/-- `max(0, int((now - joined_at) * 1000))` -/
def waitMs (joinedAt now : Int) : Nat := ((now - joinedAt) / 1000).toNat

namespace Scheduler
variable {V : Type} (limits : SchedulerLimits) (s : Scheduler V)

/-- `_purge_expired_locked` -/
def purgeExpired (now : Int) : Scheduler V :=
  let expired := s.cache.filter fun p => p.2.expiresAt ≤ now
  { s with
    cache := s.cache.filter fun p => !decide (p.2.expiresAt ≤ now)
    cacheBytes := s.cacheBytes - (expired.map fun p => (p.2.encoded.length : Int)).sum
    counters := { s.counters with expired := s.counters.expired + expired.length } }

/-- The eviction loop of `_cache_result_locked`, oldest entry first, with the evictions so far. -/
def evict (limits : SchedulerLimits) :
    List (PyStr × CacheEntry) → Int → Nat → List (PyStr × CacheEntry) × Int × Nat
  | [], bytes, n => ([], bytes, n)
  | p :: rest, bytes, n =>
    if limits.cacheMaxEntries < (p :: rest).length ∨ (limits.cacheMaxBytes : Int) < bytes then
      evict limits rest (bytes - p.2.encoded.length) (n + 1)
    else (p :: rest, bytes, n)

/-- `_cache_result_locked` -/
def cacheResult (key : PyStr) (encoded : List Nat) (now : Int) : Scheduler V :=
  if limits.cacheMaxBytes < encoded.length then s
  else
    let old : Int := match s.cache.lookup key with
      | some entry => entry.encoded.length
      | none => 0
    let cache := eraseKey key s.cache ++ [(key, ⟨encoded, now + limits.cacheTtl⟩)]
    let kept := evict limits cache (s.cacheBytes - old + encoded.length) s.counters.evicted
    { s with
      cache := kept.1, cacheBytes := kept.2.1
      counters := { s.counters with evicted := kept.2.2 } }

def setFlight (f : Nat) (flight : Flight V) : Scheduler V :=
  { s with flights := Function.update s.flights f (some flight) }

/-- `_reject_locked` -/
def reject : Scheduler V := { s with counters := { s.counters with rejected := s.counters.rejected + 1 } }

end Scheduler

/-- What the first region of `execute` decides. -/
inductive Entry (V : Type) where
  | hit (value : V)
  | rejected (r : Rejection)
  | joined (f : Nat)
  | launched
  | queued

namespace Scheduler
variable {V : Type} (limits : SchedulerLimits) (codec : Codec V) (s : Scheduler V)

/-- The coalescing branch of `execute`. -/
def join (f : Nat) (flight : Flight V) : Entry V × Scheduler V :=
  if limits.maxWaitersPerKey ≤ flight.joinedWaiters then (.rejected .perKeyWaitersFull, s.reject)
  else if limits.maxTotalWaiters ≤ s.totalWaiters then (.rejected .totalWaitersFull, s.reject)
  else
    let joined := s.setFlight f { flight with joinedWaiters := flight.joinedWaiters + 1 }
    (.joined f, { joined with
      totalWaiters := s.totalWaiters + 1
      counters := { s.counters with coalesced := s.counters.coalesced + 1 } })

/-- The leader branch of `execute`, for the call numbered `id`. -/
def lead (key : PyStr) (id : Nat) : Entry V × Scheduler V :=
  let led := { s with active := s.active ++ [(key, id)] }
  if s.runningKey = none ∧ s.queue = [] then
    let launched := led.setFlight id ⟨key, .running, 0⟩
    (.launched, { launched with
      runningKey := some key
      counters := { s.counters with launched := s.counters.launched + 1 } })
  else if limits.maxDistinctQueue ≤ s.queue.length then (.rejected .distinctQueueFull, s.reject)
  else if limits.maxTotalWaiters ≤ s.totalWaiters then (.rejected .totalWaitersFull, s.reject)
  else
    let queued := led.setFlight id ⟨key, .queued, 0⟩
    (.queued, { queued with queue := s.queue ++ [key], totalWaiters := s.totalWaiters + 1 })

/-- The first region of `execute` up to its waits. -/
def enter (key : PyStr) (joinedAt : Int) (id : Nat) : Entry V × Scheduler V :=
  let counted := { s with counters := { s.counters with submitted := s.counters.submitted + 1 } }
  let purged := counted.purgeExpired joinedAt
  match purged.cache.lookup key with
  | some entry =>
    (.hit (codec.decode entry.encoded), { purged with
      cache := eraseKey key purged.cache ++ [(key, entry)]
      counters := { purged.counters with cacheHits := purged.counters.cacheHits + 1 } })
  | none =>
    match (purged.active.lookup key).bind fun f => (purged.flights f).map (f, ·) with
    | some (f, flight) => purged.join limits f flight
    | none => purged.lead limits key id

end Scheduler

/-- Where a call of `execute` is between its regions: waiting on another's flight, waiting for the
slot, holding it before, during and after its work, or over. -/
inductive Pc (V : Type) where
  | following (f : Nat)
  | queued
  | launched
  | working (waitMs : Nat)
  | returning (waitMs : Nat) (outcome : Except Exn V)
  | done (result : Except CallError (SchedulerReceipt V))

structure Call (V : Type) where
  key : PyStr
  joinedAt : Int
  notified : Bool
  pc : Pc V

/-- The scheduler and its calls, numbered in their order of arrival; `starts` lists the calls that
invoked their work, and `outcomes` what it came to. -/
structure System (V : Type) where
  scheduler : Scheduler V
  calls : Nat → Option (Call V)
  next : Nat
  starts : List Nat
  outcomes : Nat → Option (Except Exn V)

inductive Event (V : Type) where
  | submit (key : PyStr) (joinedAt now : Int)
  | wake (c : Nat) (now : Int)
  | cancel (c : Nat) (e : Exn)
  | start (c : Nat) (now : Int)
  | work (c : Nat) (outcome : Except Exn V)
  | finish (c : Nat) (now : Int)

namespace System
variable {V : Type} (limits : SchedulerLimits) (codec : Codec V) (s : System V)

def setCall (c : Nat) (call : Call V) : System V :=
  { s with calls := Function.update s.calls c (some call) }

/-- `notify_all`; the flag says nothing of a call that does not wait. -/
def notifyAll : System V :=
  { s with calls := fun c => (s.calls c).map fun call => { call with notified := true } }

/-- The end of a queued flight that never launched. -/
def retire (c : Nat) (key : PyStr) (failure : Failure) : System V :=
  let t := s.scheduler
  let failed : Flight V → Flight V := fun flight =>
    { flight with state := .failed failure }
  notifyAll { s with scheduler := { t with
    queue := t.queue.erase key
    totalWaiters := t.totalWaiters - 1
    flights := Function.update t.flights c ((t.flights c).map failed)
    active := if t.active.lookup key = some c then eraseKey key t.active else t.active } }

/-- The head of the queue takes the slot. -/
def launch (c : Nat) (call : Call V) : System V :=
  let t := s.scheduler
  let running : Flight V → Flight V := fun flight => { flight with state := .running }
  setCall { s with scheduler := { t with
    queue := t.queue.tail
    totalWaiters := t.totalWaiters - 1
    flights := Function.update t.flights c ((t.flights c).map running)
    runningKey := some call.key
    counters := { t.counters with launched := t.counters.launched + 1 } } } c
    { call with pc := .launched }

/-- One turn of the queued leader's loop. -/
def queuedTurn (c : Nat) (call : Call V) (now : Int) : System V :=
  if call.joinedAt + limits.queueWait - now ≤ 0 then
    setCall (retire { s with scheduler := s.scheduler.reject } c call.key
      (.rejected .queueWaitTimeout)) c { call with pc := .done (.error (.rejected .queueWaitTimeout)) }
  else if s.scheduler.runningKey = none ∧ s.scheduler.queue.head? = some call.key then
    launch s c call
  else setCall s c { call with notified := false }

/-- What a follower gets of a flight, once it is over. -/
def followed? (call : Call V) (flight : Flight V) (now : Int) :
    Option (Except CallError (SchedulerReceipt V)) :=
  match flight.state with
  | .completed value => some (.ok ⟨value, .coalesced, call.key, waitMs call.joinedAt now⟩)
  | .failed error => some
      (.error (.workFailed (copyError error) .coalesced call.key (waitMs call.joinedAt now)))
  | .queued | .running => none

/-- The `finally` of a follower, and its result. -/
def leave (c f : Nat) (call : Call V) (result : Except CallError (SchedulerReceipt V)) : System V :=
  let t := s.scheduler
  let left : Flight V → Flight V := fun flight =>
    { flight with joinedWaiters := flight.joinedWaiters - 1 }
  setCall (notifyAll { s with scheduler := { t with
    flights := Function.update t.flights f ((t.flights f).map left)
    totalWaiters := t.totalWaiters - 1 } }) c { call with pc := .done result }

/-- One turn of a follower's loop. -/
def followingTurn (c f : Nat) (call : Call V) (flight : Flight V) (now : Int) : System V :=
  match followed? call flight now with
  | some result => leave s c f call result
  | none => setCall s c { call with notified := false }

/-- The call numbered `s.next` arrives. -/
def arrive (call : Call V) : System V := setCall { s with next := s.next + 1 } s.next call

/-- `execute` up to its work or its first wait; `now` is the loop's own clock reading. -/
def submit (key : PyStr) (joinedAt now : Int) : System V :=
  if key = [] then arrive s ⟨key, joinedAt, false, .done (.error .invalidKey)⟩
  else
    let entered := s.scheduler.enter limits codec key joinedAt s.next
    let t := { s with scheduler := entered.2 }
    match entered.1 with
    | .hit value => arrive t ⟨key, joinedAt, false, .done (.ok ⟨value, .cacheHit, key, 0⟩)⟩
    | .rejected r => arrive t ⟨key, joinedAt, false, .done (.error (.rejected r))⟩
    | .joined f => arrive t ⟨key, joinedAt, false, .following f⟩
    | .launched => arrive t ⟨key, joinedAt, false, .launched⟩
    | .queued =>
      let call : Call V := ⟨key, joinedAt, false, .queued⟩
      queuedTurn limits (arrive t call) s.next call now

/-- `wait` returns: a follower's only when notified, a queued leader's also at its timeout. -/
def wake (c : Nat) (call : Call V) (now : Int) : Option (System V) :=
  match call.pc with
  | .following f =>
    if call.notified then (s.scheduler.flights f).map fun flight =>
      followingTurn s c f call flight now
    else none
  | .queued => some (queuedTurn limits s c call now)
  | _ => none

/-- `wait` raises. -/
def cancel (c : Nat) (call : Call V) (e : Exn) : Option (System V) :=
  match call.pc with
  | .following f => some (leave s c f call (.error (.cancelled e)))
  | .queued => some
      (setCall (retire s c call.key (.raised e)) c { call with pc := .done (.error (.cancelled e)) })
  | _ => none

/-- The slot holder invokes its work. -/
def start (c : Nat) (call : Call V) (now : Int) : Option (System V) :=
  match call.pc with
  | .launched => some (setCall { s with starts := s.starts ++ [c] } c
      { call with pc := .working (waitMs call.joinedAt now) })
  | _ => none

/-- The work returns or raises. -/
def work (c : Nat) (call : Call V) (outcome : Except Exn V) : Option (System V) :=
  match call.pc with
  | .working ms => some (setCall { s with outcomes := Function.update s.outcomes c (some outcome) } c
      { call with pc := .returning ms outcome })
  | _ => none

/-- The last region of a leader, whose flight ends in this state. -/
def land (c : Nat) (call : Call V) (t : Scheduler V) (state : FlightState V)
    (result : Except CallError (SchedulerReceipt V)) : System V :=
  let ended : Flight V → Flight V := fun flight => { flight with state := state }
  setCall (notifyAll { s with scheduler := { t with
    flights := Function.update t.flights c ((t.flights c).map ended)
    runningKey := if t.runningKey = some call.key then none else t.runningKey
    active := eraseKey call.key t.active } }) c { call with pc := .done result }

/-- The failure region of `execute`. -/
def fail (c : Nat) (call : Call V) (ms : Nat) (e : Exn) : System V :=
  let t := s.scheduler
  land s c call { t with counters := { t.counters with failed := t.counters.failed + 1 } }
    (.failed (.raised e)) (.error (.workFailed (.raised e) .launched call.key ms))

/-- The publication region of `execute`. -/
def publish (c : Nat) (call : Call V) (ms : Nat) (encoded : List Nat) (now : Int) : System V :=
  let t := (s.scheduler.purgeExpired now).cacheResult limits call.key encoded now
  let published := codec.decode encoded
  land s c call { t with counters := { t.counters with completed := t.counters.completed + 1 } }
    (.completed published) (.ok ⟨published, .launched, call.key, ms⟩)

/-- The end of a leader's call after its work. -/
def finish (c : Nat) (call : Call V) (now : Int) : Option (System V) :=
  match call.pc with
  | .returning ms (.error e) => some (fail s c call ms e)
  | .returning ms (.ok value) =>
    match codec.encode value with
    | .error e => some (fail s c call ms e)
    | .ok encoded => some (publish limits codec s c call ms encoded now)
  | _ => none

/-- One event; `none` where it cannot happen. -/
def step (event : Event V) : Option (System V) :=
  match event with
  | .submit key joinedAt now => some (submit limits codec s key joinedAt now)
  | .wake c now => (s.calls c).bind fun call => wake limits s c call now
  | .cancel c e => (s.calls c).bind fun call => cancel s c call e
  | .start c now => (s.calls c).bind fun call => start s c call now
  | .work c outcome => (s.calls c).bind fun call => work s c call outcome
  | .finish c now => (s.calls c).bind fun call => finish limits codec s c call now

/-- A new scheduler without calls. -/
def initial : System V where
  scheduler := ⟨[], [], fun _ => none, none, 0, [], 0, ⟨0, 0, 0, 0, 0, 0, 0, 0, 0⟩⟩
  calls := fun _ => none
  next := 0
  starts := []
  outcomes := fun _ => none

/-- Calls of `execute` on one scheduler, in any order of their events. -/
def machine : Machine (System V) (Event V) where
  start s := s = initial
  step s event t := step limits codec s event = some t

end System
end Danus.Verify
