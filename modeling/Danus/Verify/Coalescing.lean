import Danus.Verify.Soundness

/-! What the callers of the scheduler get, and in which order their work runs. -/
namespace Danus.Verify
open Python Machines

variable {V : Type} {limits : SchedulerLimits} {codec : Codec V} {s t : System V}

/-- The call's work runs or has run. -/
def Pc.begun : Pc V → Bool
  | .working _ | .returning _ _ => true
  | _ => false

/-- Work invoked for this key came to these bytes. -/
def System.Published (codec : Codec V) (s : System V) (key : PyStr) (bytes : List Nat) : Prop :=
  ∃ f call value, s.calls f = some call ∧ call.key = key ∧ f ∈ s.starts ∧
    s.outcomes f = some (.ok value) ∧ codec.encode value = .ok bytes

/-- Work invoked for this key failed so. -/
def System.WorkFailed (codec : Codec V) (s : System V) (key : PyStr) (e : Exn) : Prop :=
  ∃ f call outcome, s.calls f = some call ∧ call.key = key ∧ f ∈ s.starts ∧
    s.outcomes f = some outcome ∧ Failed codec outcome e

/-- A call that led a flight of this key gave it up in the queue, and never invoked its work. -/
def System.Abandoned (s : System V) (key : PyStr) (failure : Failure) : Prop :=
  ∃ f call, s.calls f = some call ∧ call.key = key ∧ f ∉ s.starts ∧
    s.scheduler.shape f = some (key, .failed failure) ∧
    ((failure = .rejected .queueWaitTimeout ∧
      call.pc = .done (.error (.rejected .queueWaitTimeout))) ∨
    ∃ e, failure = .raised e ∧ call.pc = .done (.error (.cancelled e)))

/-- A flight's state comes from work of its key, or from a leader that gave up. -/
def System.FlightJustified (codec : Codec V) (s : System V) (key : PyStr) : FlightState V → Prop
  | .completed value => ∃ bytes, value = codec.decode bytes ∧ s.Published codec key bytes
  | .failed failure =>
    (∃ e, failure = .raised e ∧ s.WorkFailed codec key e) ∨ s.Abandoned key failure
  | .queued | .running => True

/-- A value comes from work of the caller's own key; so does a work failure, unless it is that of a
flight whose leader gave up in the queue. -/
def System.Justified (codec : Codec V) (s : System V) (key : PyStr) :
    Except CallError (SchedulerReceipt V) → Prop
  | .ok receipt => receipt.key = key ∧
    ∃ bytes, receipt.value = codec.decode bytes ∧ s.Published codec key bytes
  | .error (.workFailed cause source k _) => k = key ∧
    ((∃ e, (cause = .raised e ∨ cause = copyError (.raised e)) ∧ s.WorkFailed codec key e) ∨
    (source = .coalesced ∧ ∃ failure, cause = copyError failure ∧ s.Abandoned key failure))
  | .error _ => True

/-- The log of invocations agrees with the calls, the flights and the cache. -/
structure System.Logged (codec : Codec V) (s : System V) : Prop where
  order : s.starts.Pairwise (· < ·)
  ahead : ∀ f ∈ s.starts, ∀ c call, s.calls c = some call →
    call.pc = .queued ∨ call.pc = .launched → f < c
  known : ∀ f ∈ s.starts, f < s.next
  begun : ∀ c call, s.calls c = some call → call.pc.begun = true → c ∈ s.starts
  logged : ∀ c o, s.outcomes c = some o → c ∈ s.starts
  working : ∀ c call ms, s.calls c = some call → call.pc = .working ms → s.outcomes c = none
  returned : ∀ c call ms o, s.calls c = some call → call.pc = .returning ms o →
    s.outcomes c = some o
  flights : ∀ f k st, s.scheduler.shape f = some (k, st) → s.FlightJustified codec k st
  cached : ∀ k entry, (k, entry) ∈ s.scheduler.cache → s.Published codec k entry.encoded
  results : ∀ c call r, s.calls c = some call → call.pc = .done r → s.Justified codec call.key r

/-- Calls keep their keys and their results, flights that are over stay as they are, and the log only
grows. -/
structure System.Grows (s t : System V) : Prop where
  calls : ∀ f call, s.calls f = some call → ∃ call', t.calls f = some call' ∧ call'.key = call.key ∧
    ∀ r, call.pc = .done r → call'.pc = .done r
  starts : ∀ f ∈ s.starts, f ∈ t.starts
  fresh : ∀ f ∈ t.starts, f ∈ s.starts ∨ ∃ call, s.calls f = some call ∧ call.pc = .launched
  outcomes : ∀ f o, s.outcomes f = some o → t.outcomes f = some o
  ended : ∀ f k st, s.scheduler.shape f = some (k, st) → st.live = false →
    t.scheduler.shape f = some (k, st)

section Growth
variable {key : PyStr}

theorem System.Published.grow (hg : s.Grows t) {bytes : List Nat}
    (h : s.Published codec key bytes) : t.Published codec key bytes := by
  obtain ⟨f, call, value, hc, hk, hs, ho, he⟩ := h
  obtain ⟨call', hc', hk', _⟩ := hg.calls f call hc
  exact ⟨f, call', value, hc', hk'.trans hk, hg.starts f hs, hg.outcomes f _ ho, he⟩

theorem System.WorkFailed.grow (hg : s.Grows t) {e : Exn} (h : s.WorkFailed codec key e) :
    t.WorkFailed codec key e := by
  obtain ⟨f, call, outcome, hc, hk, hs, ho, he⟩ := h
  obtain ⟨call', hc', hk', _⟩ := hg.calls f call hc
  exact ⟨f, call', outcome, hc', hk'.trans hk, hg.starts f hs, hg.outcomes f _ ho, he⟩

theorem System.Abandoned.grow (hg : s.Grows t) {failure : Failure} (h : s.Abandoned key failure) :
    t.Abandoned key failure := by
  obtain ⟨f, call, hc, hk, hs, hst, hd⟩ := h
  obtain ⟨call', hc', hk', hdone⟩ := hg.calls f call hc
  have hover : ∃ r, call.pc = .done r := by
    rcases hd with ⟨_, hp⟩ | ⟨e, _, hp⟩
    · exact ⟨_, hp⟩
    · exact ⟨_, hp⟩
  refine ⟨f, call', hc', hk'.trans hk, fun hm => ?_, hg.ended f _ _ hst rfl, ?_⟩
  · rcases hg.fresh f hm with hm | ⟨old, hold, hp⟩
    · exact hs hm
    · rw [hc] at hold
      cases hold
      obtain ⟨r, hr⟩ := hover
      rw [hp] at hr
      cases hr
  · rcases hd with ⟨hf, hp⟩ | ⟨e, hf, hp⟩
    · exact .inl ⟨hf, hdone _ hp⟩
    · exact .inr ⟨e, hf, hdone _ hp⟩

theorem System.FlightJustified.grow (hg : s.Grows t) {st : FlightState V}
    (h : s.FlightJustified codec key st) : t.FlightJustified codec key st := by
  cases st with
  | completed value =>
    obtain ⟨bytes, hv, hp⟩ := h
    exact ⟨bytes, hv, hp.grow hg⟩
  | failed failure =>
    rcases h with ⟨e, hf, hw⟩ | h
    · exact .inl ⟨e, hf, hw.grow hg⟩
    · exact .inr (h.grow hg)
  | queued => exact trivial
  | running => exact trivial

theorem System.Justified.grow (hg : s.Grows t) {r : Except CallError (SchedulerReceipt V)}
    (h : s.Justified codec key r) : t.Justified codec key r := by
  cases r with
  | ok receipt =>
    obtain ⟨hk, bytes, hv, hp⟩ := h
    exact ⟨hk, bytes, hv, hp.grow hg⟩
  | error e =>
    cases e with
    | workFailed cause source k ms =>
      obtain ⟨hk, ⟨e, hc, hw⟩ | ⟨hsrc, failure, hc, ha⟩⟩ := h
      · exact ⟨hk, .inl ⟨e, hc, hw.grow hg⟩⟩
      · exact ⟨hk, .inr ⟨hsrc, failure, hc, ha.grow hg⟩⟩
    | invalidKey => exact trivial
    | rejected _ => exact trivial
    | cancelled _ => exact trivial

/-- A follower gets what its flight came to. -/
theorem System.FlightJustified.followed {call : Call V} {flight : Flight V} {now : Int}
    {r : Except CallError (SchedulerReceipt V)} (h : s.FlightJustified codec call.key flight.state)
    (hr : System.followed? call flight now = some r) : s.Justified codec call.key r := by
  unfold System.followed? at hr
  cases hst : flight.state with
  | completed value =>
    rw [hst] at h hr
    cases hr
    exact ⟨rfl, h⟩
  | failed failure =>
    rw [hst] at h hr
    cases hr
    refine ⟨rfl, ?_⟩
    rcases h with ⟨e, rfl, hw⟩ | h
    · exact .inl ⟨e, .inr rfl, hw⟩
    · exact .inr ⟨rfl, failure, rfl, h⟩
  | queued => simp [hst] at hr
  | running => simp [hst] at hr

end Growth

section Updates
variable {c : Nat} {call' : Call V}

/-- One call moves that was not over. -/
theorem System.Grows.of (notes : Bool) (hc : t.calls c = some call')
    (hcalls : ∀ i, i ≠ c → t.calls i =
      (s.calls i).map fun call => { call with notified := call.notified || notes })
    (hold : ∀ call, s.calls c = some call → call'.key = call.key ∧ ∀ r, call.pc ≠ .done r)
    (hstarts : ∀ f, f ∈ t.starts ↔ f ∈ s.starts ∨
      (f = c ∧ ∃ call, s.calls c = some call ∧ call.pc = .launched ∧ t.starts ≠ s.starts))
    (hout : ∀ f o, s.outcomes f = some o → t.outcomes f = some o)
    (hended : ∀ f k st, s.scheduler.shape f = some (k, st) → st.live = false →
      t.scheduler.shape f = some (k, st)) : s.Grows t := by
  refine ⟨fun f call hf => ?_, fun f hf => (hstarts f).mpr (.inl hf), fun f hf => ?_, hout, hended⟩
  · by_cases hfc : f = c
    · subst hfc
      obtain ⟨hk, hnd⟩ := hold call hf
      exact ⟨call', hc, hk, fun r hr => (hnd r hr).elim⟩
    · refine ⟨{ call with notified := call.notified || notes }, ?_, rfl, fun r hr => hr⟩
      rw [hcalls f hfc, hf, Option.map_some]
  · rcases (hstarts f).mp hf with hf | ⟨rfl, call, hcall, hp, _⟩
    · exact .inl hf
    · exact .inr ⟨call, hcall, hp⟩

/-- The log after one call has moved without invoking its work. -/
theorem System.Logged.update (h : s.Logged codec) (notes : Bool) (hn : s.next ≤ t.next)
    (hc : t.calls c = some call')
    (hcalls : ∀ i, i ≠ c → t.calls i =
      (s.calls i).map fun call => { call with notified := call.notified || notes })
    (hold : ∀ call, s.calls c = some call → call'.key = call.key ∧ ∀ r, call.pc ≠ .done r)
    (hstarts : t.starts = s.starts)
    (hahead : call'.pc = .queued ∨ call'.pc = .launched → ∀ f ∈ s.starts, f < c)
    (hbegun : call'.pc.begun = true → c ∈ s.starts)
    (hout : ∀ i, i ≠ c → t.outcomes i = s.outcomes i)
    (houtc : ∀ o, s.outcomes c = some o → t.outcomes c = some o)
    (hlogged : ∀ o, t.outcomes c = some o → s.outcomes c = some o ∨ c ∈ s.starts)
    (hworking : ∀ ms, call'.pc ≠ .working ms)
    (hreturned : ∀ ms o, call'.pc = .returning ms o → t.outcomes c = some o)
    (hended : ∀ f k st, s.scheduler.shape f = some (k, st) → st.live = false →
      t.scheduler.shape f = some (k, st))
    (hflights : ∀ f k st, t.scheduler.shape f = some (k, st) →
      s.scheduler.shape f = some (k, st) ∨ t.FlightJustified codec k st)
    (hcache : ∀ k entry, (k, entry) ∈ t.scheduler.cache →
      (k, entry) ∈ s.scheduler.cache ∨ t.Published codec k entry.encoded)
    (hresult : s.Grows t → ∀ r, call'.pc = .done r → t.Justified codec call'.key r) :
    t.Logged codec := by
  have hg : s.Grows t := by
    refine .of notes hc hcalls hold (fun f => ?_) (fun f o ho => ?_) hended
    · rw [hstarts]
      simp
    · by_cases hfc : f = c
      · subst hfc
        exact houtc o ho
      · rw [hout f hfc]
        exact ho
  have back : ∀ i call, t.calls i = some call → i ≠ c → ∃ old, s.calls i = some old ∧
      old.pc = call.pc ∧ old.key = call.key := by
    intro i call hi hne
    rw [hcalls i hne] at hi
    obtain ⟨old, ho, rfl⟩ := Option.map_eq_some_iff.mp hi
    exact ⟨old, ho, rfl, rfl⟩
  refine ⟨?_, ?_, ?_, ?_, fun i o ho => ?_, ?_, ?_, fun f k st hf => ?_, fun k entry hm => ?_, ?_⟩
  · rw [hstarts]
    exact h.order
  · intro f hf i call hi hp
    rw [hstarts] at hf
    by_cases hic : i = c
    · subst hic
      rw [hc] at hi
      cases hi
      exact hahead hp f hf
    · obtain ⟨old, ho, hpc, _⟩ := back i call hi hic
      exact h.ahead f hf i old ho (hpc ▸ hp)
  · intro f hf
    rw [hstarts] at hf
    exact (h.known f hf).trans_le hn
  · intro i call hi hp
    rw [hstarts]
    by_cases hic : i = c
    · subst hic
      rw [hc] at hi
      cases hi
      exact hbegun hp
    · obtain ⟨old, ho, hpc, _⟩ := back i call hi hic
      exact h.begun i old ho (hpc ▸ hp)
  · rw [hstarts]
    by_cases hic : i = c
    · subst hic
      rcases hlogged o ho with ho | hm
      · exact h.logged i o ho
      · exact hm
    · rw [hout i hic] at ho
      exact h.logged i o ho
  · intro i call ms hi hp
    by_cases hic : i = c
    · subst hic
      rw [hc] at hi
      cases hi
      exact (hworking ms hp).elim
    · obtain ⟨old, ho, hpc, _⟩ := back i call hi hic
      rw [hout i hic]
      exact h.working i old ms ho (hpc.trans hp)
  · intro i call ms o hi hp
    by_cases hic : i = c
    · subst hic
      rw [hc] at hi
      cases hi
      exact hreturned ms o hp
    · obtain ⟨old, ho, hpc, _⟩ := back i call hi hic
      rw [hout i hic]
      exact h.returned i old ms o ho (hpc.trans hp)
  · rcases hflights f k st hf with hf | hj
    · exact (h.flights f k st hf).grow hg
    · exact hj
  · rcases hcache k entry hm with hm | hp
    · exact (h.cached k entry hm).grow hg
    · exact hp
  · intro i call r hi hp
    by_cases hic : i = c
    · subst hic
      rw [hc] at hi
      cases hi
      exact hresult hg r hp
    · obtain ⟨old, ho, hpc, hk⟩ := back i call hi hic
      rw [← hk]
      exact (h.results i old r ho (hpc.trans hp)).grow hg

end Updates
end Danus.Verify
