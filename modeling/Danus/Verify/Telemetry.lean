import Danus.Lib.JsonScan
import Danus.Lib.Sha256
import Danus.Verify.Guarantees
import Mathlib.Data.Nat.Digits.Defs

/-! The scheduler's telemetry on a response: what the service puts into the headers, and what the gateway
reads from them. -/
namespace Danus.Verify
open Python Machines

/-- The scheduler's headers. -/
inductive SchedulerHeader where
  | source | key | wait | rejection
  deriving DecidableEq

/-- The names that service and gateway both use. -/
def SchedulerHeader.name : SchedulerHeader → String
  | .source => "X-Danus-Verify-Scheduler"
  | .key => "X-Danus-Verify-Key"
  | .wait => "X-Danus-Verify-Wait-Ms"
  | .rejection => "X-Danus-Verify-Rejection"

abbrev Headers : Type := List (SchedulerHeader × PyStr)

/-- What the service's handlers know of an exception. -/
inductive ExnKind where
  | http (status : Nat) (detail : PyStr)
  | exception
  | base

/-- What the endpoint answers: a result, an `HTTPException`, or nothing of its own. -/
inductive Response (V : Type) where
  | completed (headers : Headers) (value : V)
  | failed (status : Nat) (detail : PyStr) (headers : Headers)
  | raised

def Source.text : Source → PyStr
  | .launched => "launched".toList
  | .coalesced => "coalesced".toList
  | .cacheHit => "cache_hit".toList

/-- `_scheduler_headers` -/
def schedulerHeaders (source key : PyStr) (waitMs : Nat) (rejection : Option PyStr) : Headers :=
  [(.source, source), (.key, key), (.wait, natText waitMs)] ++
    (rejection.map fun reason => (.rejection, reason)).toList

/-- `_scheduler_key`, the `canonical_sha256` of its envelope -/
def schedulerKey (envelope : Json) : PyStr :=
  Sha256.hexdigest (Json.preimage (Json.compact false true) envelope)

theorem schedulerKey_isHexOf (envelope : Json) : isHexOf 64 (schedulerKey envelope) = true :=
  Sha256.hexdigest_isHexOf _

section Service
variable {V : Type} (kind : Exn → ExnKind)

/-- `_raise_scheduled_failure`; the `HTTPException`s that work raises have no headers of their own. -/
def raiseScheduledFailure (cause : Failure) (source : Source) (key : PyStr) (waitMs : Nat) : Response V :=
  let headers := schedulerHeaders source.text key waitMs none
  match cause with
  | .rejected r => .failed 429 r.detail.toList
      (headers ++ [(.rejection, r.reason.toList)])
  | .raised e =>
    match kind e with
    | .http status detail => .failed status detail headers
    | .exception => .failed 500 "verification scheduler leader failed".toList headers
    | .base => .raised

/-- `_run_scheduled_verification`, and what `verify` does with its receipt. -/
def respond (key : PyStr) : Except CallError (SchedulerReceipt V) → Response V
  | .ok receipt => .completed (schedulerHeaders receipt.source.text receipt.key receipt.waitMs none)
      receipt.value
  | .error (.rejected r) => .failed 429 r.detail.toList
      (schedulerHeaders "rejected".toList key 0 (some r.reason.toList))
  | .error (.workFailed cause source key waitMs) => raiseScheduledFailure kind cause source key waitMs
  | .error .invalidKey => .raised
  | .error (.cancelled _) => .raised

end Service

section Gateway

/-- `_VERIFY_SCHEDULER_WAIT_MAX_MS` -/
def waitMaxMs : Nat := 2147483647

/-- `_VERIFY_SCHEDULER_SOURCES` -/
def schedulerSources : List PyStr :=
  ["launched".toList, "coalesced".toList, "cache_hit".toList, "rejected".toList]

/-- `_VERIFY_SCHEDULER_REJECTIONS` -/
def schedulerRejections : List PyStr := ["per_key_waiters_full".toList, "total_waiters_full".toList,
  "distinct_queue_full".toList, "queue_wait_timeout".toList]

/-- What the gateway reads from the headers. -/
structure Parsed where
  outcome : PyStr
  source : PyStr
  requestKeySha256 : PyStr
  waitMs : Nat
  rejection : Option PyStr
  deriving DecidableEq

/-- `re.fullmatch(r"0|[1-9][0-9]{0,9}", wait)` -/
def isWait : PyStr → Bool
  | [] => false
  | c :: cs => (c == '0' && cs.isEmpty) || (isDigit c && c != '0' && cs.all isDigit && cs.length ≤ 9)

/-- The outcome that the gateway reports. -/
def schedulerOutcome (source : PyStr) (waitMs : Nat) : PyStr :=
  if source = "cache_hit".toList then "cache".toList
  else if source = "coalesced".toList then "coalesced".toList
  else if source = "rejected".toList then "rejected".toList
  else if 0 < waitMs then "queued".toList
  else "launched".toList

/-- `_parse_verify_scheduler_headers`, of headers that there are. -/
def parseVerifySchedulerHeaders (headers : Headers) (allowRejected : Bool) :
    Except PyStr (Option Parsed) :=
  let source := headers.lookup .source
  let key := headers.lookup .key
  let wait := headers.lookup .wait
  let rejection := headers.lookup .rejection
  if source = none ∧ key = none ∧ wait = none ∧ rejection = none then .ok none
  else
    match source, key, wait with
    | some source, some key, some wait =>
      let waitMs := digitsValue wait
      if source ∉ schedulerSources ∨ (source = "rejected".toList ∧ allowRejected = false) ∨
          isHexOf 64 key = false ∨ isWait wait = false then
        .error "verify service returned invalid scheduler headers".toList
      else if waitMaxMs < waitMs then
        .error "verify service returned invalid scheduler wait telemetry".toList
      else if source = "rejected".toList ∧ ((∀ r ∈ rejection, r ∉ schedulerRejections) ∨ waitMs ≠ 0) then
        .error "verify service returned inconsistent scheduler rejection telemetry".toList
      else if source ≠ "rejected".toList ∧ rejection ≠ none then
        .error ("verify service returned scheduler rejection telemetry for " ++
          "non-rejected work").toList
      else if source = "cache_hit".toList ∧ (waitMs ≠ 0 ∨ allowRejected = true) then
        .error "verify service returned inconsistent scheduler cache telemetry".toList
      else .ok (some ⟨schedulerOutcome source waitMs, source, key, waitMs, rejection⟩)
    | _, _, _ => .error "verify service returned invalid scheduler headers".toList

end Gateway

section Waits
variable {n : Nat}

theorem digitsValue_natText (n : Nat) : digitsValue (natText n) = n := by
  rw [natText, Nat.toList_repr]
  exact Nat.ofDigitChars_ten_toDigits

/-- A wait of at most ten digits is a wait for the gateway. -/
theorem isWait_natText (hn : n < 10 ^ 10) : isWait (natText n) = true := by
  rcases Nat.eq_zero_or_pos n with rfl | hpos
  · decide
  · have hlen : (natText n).length ≤ 10 := by
      rw [natText, Nat.toList_repr]
      exact Nat.toDigits_length 10 n 10 (by decide) hn
    have hhead := Json.natText_head hpos
    have hdigits := Json.natText_digits n
    cases hc : natText n with
    | nil =>
      rw [natText, Nat.toList_repr] at hc
      exact absurd hc Nat.toDigits_ne_nil
    | cons c cs =>
      rw [hc] at hlen hhead hdigits
      have hne : c ≠ '0' := fun he => hhead (by rw [he]; rfl)
      have hle : cs.length ≤ 9 := Nat.le_of_succ_le_succ hlen
      have hall : cs.all isDigit = true :=
        List.all_eq_true.mpr fun d hd => hdigits d (List.mem_cons_of_mem _ hd)
      simp [isWait, hdigits c List.mem_cons_self, hne, hall, hle]

end Waits

section Agreement
variable {V : Type} {limits : SchedulerLimits} {codec : Codec V} {s t : System V} {kind : Exn → ExnKind}
  {key : PyStr}

/-- The source, key, wait and rejection that an outcome of `execute` tells. -/
structure Told where
  source : PyStr
  key : PyStr
  waitMs : Nat
  rejection : Option PyStr
  deriving DecidableEq

/-- What is told of the outcome; a call with an empty key, or whose own wait raised, tells nothing. -/
def told (key : PyStr) : Except CallError (SchedulerReceipt V) → Option Told
  | .ok receipt => some ⟨receipt.source.text, receipt.key, receipt.waitMs, none⟩
  | .error (.rejected r) => some ⟨"rejected".toList, key, 0, some r.reason.toList⟩
  | .error (.workFailed (.rejected r) source k waitMs) =>
      some ⟨source.text, k, waitMs, some r.reason.toList⟩
  | .error (.workFailed (.raised _) source k waitMs) => some ⟨source.text, k, waitMs, none⟩
  | .error .invalidKey => none
  | .error (.cancelled _) => none

def Parsed.told (p : Parsed) : Told := ⟨p.source, p.requestKeySha256, p.waitMs, p.rejection⟩

/-- The gateway reads this from the response. -/
def Response.Reads (response : Response V) (expected : Told) : Prop :=
  match response with
  | .completed headers _ => ∃ p, parseVerifySchedulerHeaders headers false = .ok (some p) ∧ p.told = expected
  | .failed _ _ headers => ∃ p, parseVerifySchedulerHeaders headers true = .ok (some p) ∧ p.told = expected
  | .raised => False

/-- Not the failure of a follower whose flight gave up in the queue, nor of work that raised what is no
`Exception`, and no wait above the gateway's limit. -/
def Readable (kind : Exn → ExnKind) : Except CallError (SchedulerReceipt V) → Prop
  | .ok receipt => receipt.waitMs ≤ waitMaxMs
  | .error (.workFailed (.raised e) _ _ waitMs) => kind e ≠ .base ∧ waitMs ≤ waitMaxMs
  | .error (.workFailed (.rejected _) _ _ _) => False
  | .error _ => True

/-- Only the cache is told of as a hit, without a wait, and no failure is. -/
def Shaped : Except CallError (SchedulerReceipt V) → Prop
  | .ok receipt => receipt.source = .cacheHit → receipt.waitMs = 0
  | .error (.workFailed _ source _ _) => source ≠ .cacheHit
  | .error _ => True

/-- What the gateway makes of the headers, by what they say. -/
theorem parse_headers (source : PyStr) (hkey : isHexOf 64 key = true) (n : Nat) (rejection : Option PyStr)
    (allowRejected : Bool) :
    (∃ outcome, parseVerifySchedulerHeaders (schedulerHeaders source key n rejection) allowRejected =
      .ok (some ⟨outcome, source, key, n, rejection⟩)) ↔
    source ∈ schedulerSources ∧ n ≤ waitMaxMs ∧
      (source = "rejected".toList → allowRejected = true ∧ n = 0 ∧ ∃ r ∈ rejection, r ∈ schedulerRejections) ∧
      (source ≠ "rejected".toList → rejection = none) ∧
      (source = "cache_hit".toList → n = 0 ∧ allowRejected = false) := by
  have hlookup : (schedulerHeaders source key n rejection).lookup .source = some source ∧
      (schedulerHeaders source key n rejection).lookup .key = some key ∧
      (schedulerHeaders source key n rejection).lookup .wait = some (natText n) ∧
      (schedulerHeaders source key n rejection).lookup .rejection = rejection := by
    cases rejection <;> exact ⟨rfl, rfl, rfl, rfl⟩
  obtain ⟨hsource, hkeys, hwaits, hrejection⟩ := hlookup
  simp only [parseVerifySchedulerHeaders, hsource, hkeys, hwaits, hrejection, reduceCtorEq, false_and,
    if_false, digitsValue_natText, hkey, Bool.true_eq_false, false_or]
  constructor
  · rintro ⟨outcome, h⟩
    split_ifs at h with h1 h2 h3 h4 h5
    rw [not_or, not_or, not_not, not_and, Bool.not_eq_false] at h1
    rw [not_and, not_or, not_not] at h3
    rw [not_and, not_not] at h4
    rw [not_and, not_or, not_not, Bool.not_eq_true] at h5
    refine ⟨h1.1, Nat.le_of_not_lt h2, fun hs => ⟨h1.2.1 hs, (h3 hs).2, ?_⟩, h4, h5⟩
    have hr := (h3 hs).1
    push Not at hr
    exact hr
  · rintro ⟨hs, hn, hrej, hnone, hcache⟩
    have hwait : isWait (natText n) = true := isWait_natText (Nat.lt_of_le_of_lt hn (by decide))
    have h1 : ¬ (source ∉ schedulerSources ∨ (source = "rejected".toList ∧ allowRejected = false) ∨
        isWait (natText n) = false) := by
      rintro (h | ⟨h, h'⟩ | h)
      · exact h hs
      · rw [(hrej h).1] at h'
        cases h'
      · rw [hwait] at h
        cases h
    have h3 : ¬ (source = "rejected".toList ∧ ((∀ r ∈ rejection, r ∉ schedulerRejections) ∨ n ≠ 0)) := by
      rintro ⟨h, h' | h'⟩
      · obtain ⟨-, -, r, hr, hr'⟩ := hrej h
        exact h' r hr hr'
      · exact h' (hrej h).2.1
    have h4 : ¬ (source ≠ "rejected".toList ∧ rejection ≠ none) := fun h => h.2 (hnone h.1)
    have h5 : ¬ (source = "cache_hit".toList ∧ (n ≠ 0 ∨ allowRejected = true)) := by
      rintro ⟨h, h' | h'⟩
      · exact h' (hcache h).1
      · rw [(hcache h).2] at h'
        cases h'
    rw [if_neg h1, if_neg (Nat.not_lt.mpr hn), if_neg h3, if_neg h4, if_neg h5]
    exact ⟨_, rfl⟩

/-- Only one form of what the gateway accepts. -/
theorem parse_told {headers : Headers} {source : PyStr} {n : Nat} {rejection : Option PyStr}
    {allowRejected : Bool} :
    (∃ p, parseVerifySchedulerHeaders headers allowRejected = .ok (some p) ∧
      p.told = ⟨source, key, n, rejection⟩) ↔
    ∃ outcome, parseVerifySchedulerHeaders headers allowRejected =
      .ok (some ⟨outcome, source, key, n, rejection⟩) := by
  constructor
  · rintro ⟨⟨outcome, _, _, _, _⟩, hp, he⟩
    cases he
    exact ⟨outcome, hp⟩
  · rintro ⟨outcome, hp⟩
    exact ⟨_, hp, rfl⟩

theorem Source.text_mem (source : Source) : source.text ∈ schedulerSources ∧ source.text ≠ "rejected".toList ∧
    (source.text = "cache_hit".toList ↔ source = .cacheHit) := by
  cases source <;> decide

theorem Rejection.reason_mem (r : Rejection) : r.reason.toList ∈ schedulerRejections := by
  cases r <;> decide

/-- The gateway reads what the service tells, for outcomes of the shape that the scheduler gives. -/
theorem respond_reads {r : Except CallError (SchedulerReceipt V)} {expected : Told}
    (hkey : isHexOf 64 key = true) (hshape : Shaped r) (htold : told key r = some expected)
    (hown : expected.key = key) : (respond kind key r).Reads expected ↔ Readable kind r := by
  cases r with
  | ok receipt =>
    cases htold
    obtain ⟨hmem, hrej, hcache⟩ := receipt.source.text_mem
    simp only [] at hown
    rw [respond, Response.Reads, parse_told, hown, parse_headers _ hkey, Readable]
    refine ⟨fun h => h.2.1, fun h => ⟨hmem, h, fun he => absurd he hrej, fun _ => rfl, fun he => ?_⟩⟩
    exact ⟨hshape (hcache.mp he), rfl⟩
  | error e =>
    cases e with
    | invalidKey => cases htold
    | cancelled e => cases htold
    | rejected r =>
      cases htold
      rw [respond, Response.Reads, parse_told, parse_headers _ hkey]
      refine ⟨fun _ => trivial, fun _ => ⟨by decide, Nat.zero_le _, fun _ => ⟨rfl, rfl, ?_⟩, ?_, ?_⟩⟩
      · exact ⟨_, rfl, r.reason_mem⟩
      · exact fun h => absurd rfl h
      · intro h
        exact absurd h (by decide)
    | workFailed cause source k waitMs =>
      obtain ⟨hmem, hrej, hcache⟩ := source.text_mem
      cases cause with
      | rejected r =>
        cases htold
        refine ⟨fun h => ?_, fun h => h.elim⟩
        simp only [] at hown
        rw [respond, raiseScheduledFailure, Response.Reads] at h
        have hheaders : schedulerHeaders source.text k waitMs none ++ [(.rejection, r.reason.toList)] =
            schedulerHeaders source.text k waitMs (some r.reason.toList) := rfl
        rw [hheaders, parse_told, hown, parse_headers _ hkey] at h
        exact absurd (h.2.2.2.1 hrej) (Option.some_ne_none _)
      | raised e =>
        cases htold
        simp only [] at hown
        have hread : (∃ p, parseVerifySchedulerHeaders (schedulerHeaders source.text k waitMs none) true =
            .ok (some p) ∧ p.told = ⟨source.text, k, waitMs, none⟩) ↔ waitMs ≤ waitMaxMs := by
          rw [parse_told, hown, parse_headers _ hkey]
          refine ⟨fun h => h.2.1, fun h => ⟨hmem, h, fun he => absurd he hrej, fun _ => rfl, fun he => ?_⟩⟩
          exact absurd (hcache.mp he) hshape
        rw [respond, raiseScheduledFailure, Readable]
        cases hk : kind e with
        | http status detail => simpa [Response.Reads] using hread
        | exception => simpa [Response.Reads] using hread
        | base => simp [Response.Reads]

/-- Every move gives the outcomes their shape. -/
theorem Move.shaped (h : ∀ c call r, s.calls c = some call → call.pc = .done r → Shaped r)
    (hm : Move limits codec s t) :
    ∀ c call r, t.calls c = some call → call.pc = .done r → Shaped r := by
  have hupdate : ∀ {u : System V} {i : Nat} {call' : Call V} (notes : Bool), u.calls i = some call' →
      (∀ c, c ≠ i → u.calls c = (s.calls c).map fun call =>
        { call with notified := call.notified || notes }) →
      (∀ r, call'.pc = .done r → Shaped r) →
      ∀ c call r, u.calls c = some call → call.pc = .done r → Shaped r := by
    intro u i call' notes hi hrest hnew c call r hc hr
    by_cases hci : c = i
    · rw [hci, hi] at hc
      cases hc
      exact hnew r hr
    · rw [hrest c hci, Option.map_eq_some_iff] at hc
      obtain ⟨old, hold, rfl⟩ := hc
      exact h c old r hold hr
  have hdone : ∀ {r r' : Except CallError (SchedulerReceipt V)}, (Pc.done r : Pc V) = .done r' →
      Shaped r → Shaped r' := by
    rintro r r' he hr
    cases he
    exact hr
  cases hm with
  | answered _ _ ha =>
    refine hupdate false (Function.update_self ..) (fun i hi => update_notes hi) fun r hr => ?_
    refine hdone hr ?_
    cases ha with
    | invalid => trivial
    | rejected => trivial
    | hit => exact fun _ => rfl
  | joined => exact hupdate false (Function.update_self ..) (fun i hi => update_notes hi) (by simp)
  | launched => exact hupdate false (Function.update_self ..) (fun i hi => update_notes hi) (by simp)
  | queued => exact hupdate false (Function.update_self ..) (fun i hi => update_notes hi) (by simp)
  | timedOut => exact hupdate true (Function.update_self ..) (fun i hi => notify_notes hi) fun r hr => hdone hr trivial
  | abandoned => exact hupdate true (Function.update_self ..) (fun i hi => notify_notes hi) fun r hr => hdone hr trivial
  | popped => exact hupdate false (Function.update_self ..) (fun i hi => update_notes hi) (by simp)
  | waits hc hp => exact hupdate false (Function.update_self ..) (fun i hi => update_notes hi) (by simp [hp])
  | follows hc hp => exact hupdate false (Function.update_self ..) (fun i hi => update_notes hi) (by simp [hp])
  | left hc hp _ hr =>
    refine hupdate true (Function.update_self ..) (fun i hi => notify_notes hi) fun r' hr' => hdone hr' ?_
    cases followed_result hr with
    | value =>
      intro he
      cases he
    | failure =>
      intro he
      cases he
    | cancelled => trivial
  | gaveUp => exact hupdate true (Function.update_self ..) (fun i hi => notify_notes hi) fun r hr => hdone hr trivial
  | started => exact hupdate false (Function.update_self ..) (fun i hi => update_notes hi) (by simp)
  | worked => exact hupdate false (Function.update_self ..) (fun i hi => update_notes hi) (by simp)
  | failed =>
    refine hupdate true (Function.update_self ..) (fun i hi => notify_notes hi) fun r hr => hdone hr ?_
    intro he
    cases he
  | published =>
    refine hupdate true (Function.update_self ..) (fun i hi => notify_notes hi) fun r hr => hdone hr ?_
    intro he
    cases he

theorem shaped_of_reachable (h : (System.machine limits codec).Reachable s) :
    ∀ c call r, s.calls c = some call → call.pc = .done r → Shaped r := by
  refine (h.invariant (I := fun s => s.Sound ∧
    ∀ c call r, s.calls c = some call → call.pc = .done r → Shaped r) ?_ fun s event t hs ht => ?_).2
  · rintro s rfl
    exact ⟨System.sound_initial, fun c call r hc => by cases hc⟩
  · have hmoves := step_moves hs.1.ordered ht
    clear ht
    induction hmoves with
    | refl => exact hs
    | tail _ hm ih => exact ⟨hm.sound ih.1, hm.shaped ih.2⟩

/-- In every run, what the gateway reads from a response is what the scheduler told, for exactly the readable
outcomes. -/
theorem telemetry_agrees (kind : Exn → ExnKind) (h : (System.machine limits codec).Reachable s) {c : Nat}
    {call : Call V} {r : Except CallError (SchedulerReceipt V)} {expected : Told}
    (hc : s.calls c = some call) (hr : call.pc = .done r) (hkey : isHexOf 64 call.key = true)
    (htold : told call.key r = some expected) :
    (respond kind call.key r).Reads expected ↔ Readable kind r := by
  refine respond_reads hkey (shaped_of_reachable h c call r hc hr) htold ?_
  have hown := (scheduled_of_reachable h).1.own_key c call r hc hr
  cases r with
  | ok receipt =>
    cases htold
    exact hown.1
  | error e =>
    cases e with
    | invalidKey => cases htold
    | cancelled e => cases htold
    | rejected r =>
      cases htold
      rfl
    | workFailed cause source k waitMs =>
      cases cause <;> cases htold <;> exact hown.1

end Agreement

section Runs

def runningKey : PyStr := List.replicate 64 'a'

def queuedKey : PyStr := List.replicate 64 'b'

/-- Every exception is an ordinary one. -/
def plainKind : Exn → ExnKind := fun _ => .exception

/-- A single call works and returns. -/
def singleEvents : List (Event Unit) :=
  [.submit runningKey 0 0, .start 0 2000, .work 0 (.ok ()), .finish 0 12000]

theorem telemetry_agrees_single :
    ∃ s call r, singleEvents.foldlM (System.step hastyLimits emptyCodec) System.initial = some s ∧
      s.calls 0 = some call ∧ call.pc = .done r ∧
      ((respond plainKind call.key r).Reads ⟨"launched".toList, runningKey, 2, none⟩ ↔ Readable plainKind r) := by
  obtain ⟨s, hs⟩ : ∃ s,
      singleEvents.foldlM (System.step hastyLimits emptyCodec) System.initial = some s := ⟨_, rfl⟩
  have hreach : (System.machine hastyLimits emptyCodec).Reachable s :=
    System.reachable_run singleEvents (Machine.reachable_start rfl) hs
  cases hs
  exact ⟨_, _, _, rfl, rfl, rfl, telemetry_agrees plainKind hreach (c := 0) rfl rfl (by decide) rfl⟩

/-- While one key is at work, a call waits in the queue, a second one joins it, and both are woken after the
first one's deadline. -/
def timeoutEvents : List (Event Unit) :=
  [.submit runningKey 0 0, .submit queuedKey 0 0, .submit queuedKey 1 1, .start 0 2, .wake 1 10, .wake 2 11]

/-- The gateway does not accept the response to the follower of a flight that gave up in the queue. -/
theorem timeout_follower_unread :
    ¬ ∀ s, (System.machine hastyLimits emptyCodec).Reachable s → ∀ c call r expected,
      s.calls c = some call → call.pc = .done r → isHexOf 64 call.key = true →
      told call.key r = some expected → (respond plainKind call.key r).Reads expected := by
  intro h
  obtain ⟨s, hs⟩ : ∃ s,
      timeoutEvents.foldlM (System.step hastyLimits emptyCodec) System.initial = some s := ⟨_, rfl⟩
  have hreach : (System.machine hastyLimits emptyCodec).Reachable s :=
    System.reachable_run timeoutEvents (Machine.reachable_start rfl) hs
  cases hs
  have hread := h _ hreach 2 _ _ _ rfl rfl (by decide) rfl
  let r : Except CallError (SchedulerReceipt Unit) :=
    .error (.workFailed (.rejected .queueWaitTimeout) .coalesced queuedKey 0)
  have hunread : (respond plainKind queuedKey r).Reads
      ⟨"coalesced".toList, queuedKey, 0, some "queue_wait_timeout".toList⟩ → False :=
    (respond_reads (r := r) (by decide) (fun he => by cases he) rfl rfl).mp
  exact hunread hread

end Runs
end Danus.Verify
