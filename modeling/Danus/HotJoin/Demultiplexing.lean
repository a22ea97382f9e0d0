import Danus.HotJoin.AppServer
import Mathlib.Data.List.Nodup

/-! Responses reach the call they belong to, a thread keeps its turn, and every notification is
accounted for, in whatever order the server's lines and the worker's threads come. -/
namespace Danus.HotJoin.AppServer
open Python Machines

section Tables
variable {κ ν : Type} [BEq κ] [LawfulBEq κ] [DecidableEq κ] {table : List (κ × ν)} {a key : κ} {value : ν}

theorem lookup_eraseKey : (eraseKey key table).lookup a = if a = key then none else table.lookup a := by
  have h : eraseKey key table = table.filter fun p => decide (p.1 ≠ key) := by
    unfold eraseKey
    congr
    funext p
    by_cases hp : p.1 = key <;> simp [hp]
  rw [h, lookup_filter_ne]

theorem lookup_put : (put key value table).lookup a = if a = key then some value else table.lookup a := by
  rw [put]
  split_ifs with h
  · rw [h, lookup_cons_self]
  · rw [lookup_cons_of_ne h, lookup_eraseKey, if_neg h]

end Tables

section Tracking
variable {t t' : Turns} {thread turn : PyStr} {b : Bool} {id : Identity}

/-- One identity is tracked, within the limit if it is new. -/
def Admits (t t' : Turns) (id : Identity) : Prop :=
  id ∈ t'.tracked ∧ (t'.tracked = t.tracked ∨
    t.tracked.length < maxTrackedTurnIdentities ∧ t'.tracked = id :: t.tracked)

theorem track_ok (h : t.track thread turn b = .ok t') :
    Admits t t' (thread, turn) ∧ t'.active = t.active ∧ t'.terminal = t.terminal ∧
      (b = false → t'.bindings = t.bindings) ∧
      (b = true → t.terminal.lookup (thread, turn) = none ∧
        (t.bindings.lookup thread = none ∨ t.bindings.lookup thread = some turn) ∧
        ∀ th, t'.bindings.lookup th = if th = thread then some turn else t.bindings.lookup th) := by
  unfold Turns.track at h
  by_cases hbound : b = true ∧ t.bindings.lookup thread ≠ none ∧ t.bindings.lookup thread ≠ some turn
  · rw [if_pos hbound] at h
    cases h
  by_cases hterminal : b = true ∧ (t.terminal.lookup (thread, turn)).isSome = true
  · rw [if_neg hbound, if_pos hterminal] at h
    cases h
  by_cases hlimit : (thread, turn) ∉ t.tracked ∧ maxTrackedTurnIdentities ≤ t.tracked.length
  · rw [if_neg hbound, if_neg hterminal, if_pos hlimit] at h
    cases h
  rw [if_neg hbound, if_neg hterminal, if_neg hlimit] at h
  obtain rfl := Except.ok.inj h
  refine ⟨?_, rfl, rfl, ?_, ?_⟩
  · by_cases hm : (thread, turn) ∈ t.tracked
    · exact ⟨by simpa only [if_pos hm], .inl (if_pos hm)⟩
    · have hlt : t.tracked.length < maxTrackedTurnIdentities := by
        by_contra hge
        exact hlimit ⟨hm, Nat.le_of_not_lt hge⟩
      refine ⟨?_, .inr ⟨hlt, if_neg hm⟩⟩
      simp only [if_neg hm]
      exact List.mem_cons_self
  · intro hb
    exact if_neg fun h => absurd (hb.symm.trans h.1) (by decide)
  · rintro rfl
    have hcases : t.bindings.lookup thread = none ∨ t.bindings.lookup thread = some turn := by
      by_contra hne
      rw [not_or] at hne
      exact hbound ⟨rfl, hne⟩
    refine ⟨?_, hcases, fun th => ?_⟩
    · cases hl : t.terminal.lookup (thread, turn) with
      | none => rfl
      | some snapshot => exact (hterminal ⟨rfl, by rw [hl]; rfl⟩).elim
    · rcases hcases with hn | hs
      · simp only [hn, and_self, if_true, lookup_put]
      · simp only [hs, reduceCtorEq, and_false, if_false]
        split_ifs with hth
        · rw [hth, hs]
        · rfl

/-- Nothing changes but that a turn may get tracked. -/
structure Quiet (t t' : Turns) : Prop where
  active : t'.active = t.active
  bindings : t'.bindings = t.bindings
  terminal : t'.terminal = t.terminal
  tracked : t'.tracked = t.tracked ∨ ∃ id, Admits t t' id

/-- A thread gets its turn, which is not terminal. -/
structure Activated (t t' : Turns) (thread turn : PyStr) : Prop where
  active : ∀ th, t'.active.lookup th = if th = thread then some turn else t.active.lookup th
  bindings : ∀ th, t'.bindings.lookup th = if th = thread then some turn else t.bindings.lookup th
  bound : t.bindings.lookup thread = none ∨ t.bindings.lookup thread = some turn
  terminal : t'.terminal = t.terminal
  fresh : t.terminal.lookup (thread, turn) = none
  tracked : Admits t t' (thread, turn)

/-- A turn ends. -/
structure Completed (t t' : Turns) (id : Identity) : Prop where
  active : ∀ th, t'.active.lookup th =
    if th = id.1 ∧ t.active.lookup id.1 = some id.2 then none else t.active.lookup th
  bindings : t'.bindings = t.bindings
  terminal : ∀ other, (t'.terminal.lookup other).isSome ↔ other = id ∨ (t.terminal.lookup other).isSome
  tracked : Admits t t' id

/-- What the handlers do to the turns. -/
inductive Move (t t' : Turns) : Prop where
  | quiet (h : Quiet t t')
  | activated (thread turn : PyStr) (h : Activated t t' thread turn)
  | completed (id : Identity) (h : Completed t t' id)

theorem Quiet.refl (t : Turns) : Quiet t t := ⟨rfl, rfl, rfl, .inl rfl⟩

theorem Move.refl (t : Turns) : Move t t := .quiet (Quiet.refl t)

theorem activate_ok {conflict : String} (h : t.activate thread turn conflict = .ok t') :
    Activated t t' thread turn := by
  unfold Turns.activate at h
  split_ifs at h
  cases htr : t.track thread turn true with
  | error e =>
    rw [htr] at h
    cases h
  | ok t₁ =>
    rw [htr] at h
    obtain rfl := Except.ok.inj h
    obtain ⟨hadmits, hactive, hterminal, _, hbind⟩ := track_ok htr
    obtain ⟨hfresh, hbound, hbindings⟩ := hbind rfl
    refine ⟨fun th => ?_, hbindings, hbound, hterminal, hfresh, hadmits⟩
    rw [← hactive]
    exact lookup_put

/-- Tracking without binding changes nothing else. -/
theorem track_quiet (h : t.track thread turn false = .ok t') : Quiet t t' := by
  obtain ⟨hadmits, hactive, hterminal, hbindings, _⟩ := track_ok h
  exact ⟨hactive, hbindings rfl, hterminal, .inr ⟨_, hadmits⟩⟩

theorem complete_ok {turn : Json} (h : t.complete id turn = .ok t') : Completed t t' id := by
  unfold Turns.complete at h
  cases htr : t.track id.1 id.2 false with
  | error e =>
    rw [htr] at h
    cases h
  | ok t₁ =>
    rw [htr] at h
    obtain rfl := Except.ok.inj h
    obtain ⟨hadmits, hactive, hterminal, hbindings, _⟩ := track_ok htr
    refine ⟨fun th => ?_, hbindings rfl, fun other => ?_, hadmits⟩
    · simp only [hactive]
      by_cases ha : t.active.lookup id.1 = some id.2
      · simp only [ha, if_true, lookup_eraseKey, and_true]
      · simp only [ha, if_false, and_false]
    · simp only [hterminal, lookup_put]
      split_ifs with ho <;> simp [ho]

/-- A turn's end is refused only where the turn is one too many to be tracked. -/
theorem complete_error {turn : Json} {e : Failure} (h : t.complete id turn = .error e) :
    id ∉ t.tracked ∧ maxTrackedTurnIdentities ≤ t.tracked.length := by
  unfold Turns.complete at h
  by_contra hne
  rw [not_and] at hne
  unfold Turns.track at h
  rw [if_neg (by simp), if_neg (by simp), if_neg fun hx => hne hx.1 hx.2] at h
  cases h

end Tracking

section Handlers
variable {t t' : Turns} {params : Object}

theorem ofTurns_move {result : Except Failure Turns} (h : ∀ t', result = .ok t' → Move t t') :
    Move t (Handled.ofTurns t params result).1 := by
  cases hr : result with
  | error e => exact Move.refl t
  | ok t' => exact h t' hr

theorem bind_ok {α β ε : Type} {x : Except ε α} {f : α → Except ε β} {b : β}
    (h : x.bind f = .ok b) : ∃ a, x = .ok a ∧ f a = .ok b := by
  cases hx : x with
  | error e =>
    rw [hx] at h
    cases h
  | ok a => exact ⟨a, rfl, by rwa [hx] at h⟩

theorem handleStarted_move (t : Turns) (params : Object) : Move t (handleStarted t params).1 := by
  refine ofTurns_move fun t' h => ?_
  obtain ⟨p, _, h⟩ := bind_ok h
  exact .activated _ _ (activate_ok h)

theorem handleCompleted_move (t : Turns) (params : Object) : Move t (handleCompleted t params).1 := by
  refine ofTurns_move fun t' h => ?_
  obtain ⟨p, _, h⟩ := bind_ok h
  exact .completed _ (complete_ok h)

/-- A turn that ends is terminal from then on, unless it is one too many to be tracked. -/
theorem handleCompleted_seen {id : Identity} {turn : Json} (h : completedTurn params = .ok (id, turn)) :
    ((handleCompleted t params).1.terminal.lookup id).isSome ∨
      (handleCompleted t params).1 = t ∧ id ∉ t.tracked ∧
        maxTrackedTurnIdentities ≤ t.tracked.length := by
  have hbind : handleCompleted t params = Handled.ofTurns t params (t.complete id turn) := by
    rw [handleCompleted, h]
    rfl
  rw [hbind]
  cases hc : t.complete id turn with
  | ok t' => exact .inl (((complete_ok hc).terminal id).mpr (.inl rfl))
  | error e => exact .inr ⟨rfl, complete_error hc⟩

theorem handleTokenUsage_move (t : Turns) (params : Object) : Move t (handleTokenUsage t params).1 := by
  unfold handleTokenUsage
  cases namedTurn params with
  | none => exact Move.refl t
  | some id =>
    cases htr : t.track id.1 id.2 false with
    | error e =>
      simp only [htr]
      exact Move.refl t
    | ok t₁ =>
      obtain ⟨hactive, hbindings, hterminal, htracked⟩ := track_quiet htr
      simp only [htr]
      cases usageOf t₁ id params with
      | none => exact .quiet ⟨hactive, hbindings, hterminal, htracked⟩
      | some usage => exact .quiet ⟨hactive, hbindings, hterminal, htracked⟩

theorem handleRerouted_move [Redaction] (t : Turns) (params : Object) :
    Move t (handleRerouted t params).1 := by
  unfold handleRerouted
  cases hr : (reroutedTurn params).bind fun id => (t.track id.1 id.2 false).map (id, ·) with
  | error e => exact Move.refl t
  | ok p =>
    obtain ⟨id, t₁⟩ := p
    obtain ⟨id', _, h⟩ := bind_ok hr
    cases htr : t.track id'.1 id'.2 false with
    | error e =>
      rw [htr] at h
      cases h
    | ok t₂ =>
      rw [htr] at h
      obtain ⟨rfl, rfl⟩ := Prod.mk.inj (Except.ok.inj h)
      obtain ⟨hactive, hbindings, hterminal, htracked⟩ := track_quiet htr
      exact .quiet ⟨hactive, hbindings, hterminal, htracked⟩

theorem observeItem_ok {completed : Bool} (h : t.observeItem completed params = .ok t') :
    t'.active = t.active ∧ t'.bindings = t.bindings ∧ t'.terminal = t.terminal ∧
      t'.tracked = t.tracked := by
  unfold Turns.observeItem at h
  split_ifs at h
  · obtain ⟨clientId, _, h⟩ := bind_ok h
    cases clientId with
    | none =>
      obtain rfl := Except.ok.inj h
      exact ⟨rfl, rfl, rfl, rfl⟩
    | some clientId =>
      simp only [Turns.observeClientId] at h
      split_ifs at h <;> obtain rfl := Except.ok.inj h <;> exact ⟨rfl, rfl, rfl, rfl⟩
  · obtain rfl := Except.ok.inj h
    exact ⟨rfl, rfl, rfl, rfl⟩

theorem handleItem_move (t : Turns) (completed : Bool) (params : Object) :
    Move t (handleItem t completed params).1 := by
  unfold handleItem
  cases ho : t.observeItem completed params with
  | error e => exact Move.refl t
  | ok t₁ =>
    obtain ⟨ha, hb, hterm, htr⟩ := observeItem_ok ho
    cases namedTurn params with
    | none => exact .quiet ⟨ha, hb, hterm, .inl htr⟩
    | some id =>
      cases htrack : t₁.track id.1 id.2 false with
      | error e =>
        simp only [htrack]
        exact .quiet ⟨ha, hb, hterm, .inl htr⟩
      | ok t₂ =>
        obtain ⟨hactive, hbindings, hterminal, htracked⟩ := track_quiet htrack
        simp only [htrack]
        refine .quiet ⟨hactive.trans ha, hbindings.trans hb, hterminal.trans hterm, ?_⟩
        rcases htracked with hsame | ⟨other, hin, hcases⟩
        · exact .inl (hsame.trans htr)
        · exact .inr ⟨other, hin, htr ▸ hcases⟩

theorem applyNotification_move [Redaction] (t : Turns) (method : PyStr) (params : Object) :
    Move t (applyNotification t method params).1 := by
  unfold applyNotification
  split_ifs
  · exact handleStarted_move t params
  · exact handleCompleted_move t params
  · exact handleTokenUsage_move t params
  · exact handleRerouted_move t params
  · exact handleItem_move t true params
  · exact handleItem_move t false params
  · exact Move.refl t

end Handlers

section Invariants
variable {t t' : Turns} {seen : Identity → Prop} {calls : List Call} {pending : List Nat} {nextId : Nat}
  {received : List Object}

/-- The active turn of a thread is the one it is bound to, and has not ended; a turn whose end was seen is
terminal, or one too many to be tracked. -/
structure TurnsSound (seen : Identity → Prop) (t : Turns) : Prop where
  bound : ∀ thread turn, t.active.lookup thread = some turn → t.bindings.lookup thread = some turn
  tracked : ∀ thread turn, t.active.lookup thread = some turn → (thread, turn) ∈ t.tracked
  ended : ∀ id : Identity, (t.terminal.lookup id).isSome → t.active.lookup id.1 ≠ some id.2
  seen : ∀ id, seen id → (t.terminal.lookup id).isSome ∨
    id ∉ t.tracked ∧ maxTrackedTurnIdentities ≤ t.tracked.length

/-- What is not tracked because the limit is reached stays so. -/
theorem excluded_of_tracked {id : Identity} (h : t'.tracked = t.tracked ∨ ∃ other, Admits t t' other)
    (hid : id ∉ t.tracked ∧ maxTrackedTurnIdentities ≤ t.tracked.length) :
    id ∉ t'.tracked ∧ maxTrackedTurnIdentities ≤ t'.tracked.length := by
  rcases h with hsame | ⟨other, _, hsame | ⟨hlt, _⟩⟩
  · rwa [hsame]
  · rwa [hsame]
  · omega

theorem mem_of_tracked {id : Identity} (h : t'.tracked = t.tracked ∨ ∃ other, Admits t t' other)
    (hid : id ∈ t.tracked) : id ∈ t'.tracked := by
  rcases h with hsame | ⟨other, _, hsame | ⟨_, hcons⟩⟩
  · rwa [hsame]
  · rwa [hsame]
  · rw [hcons]
    exact List.mem_cons_of_mem _ hid

theorem TurnsSound.move (h : TurnsSound seen t) (hm : Move t t') : TurnsSound seen t' := by
  cases hm with
  | quiet q =>
    refine ⟨?_, fun th tu ha => ?_, ?_, fun id hid => ?_⟩
    · rw [q.active, q.bindings]
      exact h.bound
    · exact mem_of_tracked q.tracked (h.tracked th tu (q.active ▸ ha))
    · rw [q.active, q.terminal]
      exact h.ended
    · rw [q.terminal]
      exact (h.seen id hid).imp_right (excluded_of_tracked q.tracked)
  | activated thread turn a =>
    refine ⟨fun th tu ha => ?_, fun th tu ha => ?_, fun id hid => ?_, fun id hid => ?_⟩
    · rw [a.active] at ha
      rw [a.bindings]
      split_ifs at ha ⊢
      · exact ha
      · exact h.bound th tu ha
    · rw [a.active] at ha
      split_ifs at ha with hth
      · obtain rfl := Option.some.inj ha
        exact hth ▸ a.tracked.1
      · exact mem_of_tracked (.inr ⟨_, a.tracked⟩) (h.tracked th tu ha)
    · rw [a.terminal] at hid
      rw [a.active]
      split_ifs with hth
      · rintro heq
        have hsame : id = (thread, turn) := Prod.ext hth (Option.some.inj heq).symm
        rw [hsame, a.fresh] at hid
        cases hid
      · exact h.ended id hid
    · rw [a.terminal]
      exact (h.seen id hid).imp_right (excluded_of_tracked (.inr ⟨_, a.tracked⟩))
  | completed id c =>
    have hsub : ∀ th tu, t'.active.lookup th = some tu → t.active.lookup th = some tu ∧
        ¬ (th = id.1 ∧ t.active.lookup id.1 = some id.2) := by
      intro th tu ha
      rw [c.active] at ha
      split_ifs at ha with hth
      exact ⟨ha, hth⟩
    refine ⟨fun th tu ha => ?_, fun th tu ha => ?_, fun other ho ha => ?_, fun other ho => ?_⟩
    · rw [c.bindings]
      exact h.bound th tu (hsub th tu ha).1
    · exact mem_of_tracked (.inr ⟨_, c.tracked⟩) (h.tracked th tu (hsub th tu ha).1)
    · obtain ⟨hold, hnot⟩ := hsub _ _ ha
      rcases (c.terminal other).mp ho with rfl | hterm
      · exact hnot ⟨rfl, hold⟩
      · exact h.ended other hterm hold
    · rcases h.seen other ho with hterm | hfull
      · exact .inl ((c.terminal other).mpr (.inr hterm))
      · exact .inr (excluded_of_tracked (.inr ⟨_, c.tracked⟩) hfull)

/-- A turn whose end was seen is not active. -/
theorem TurnsSound.inactive (h : TurnsSound seen t) {id : Identity} (hid : seen id) :
    t.active.lookup id.1 ≠ some id.2 := by
  rcases h.seen id hid with hterm | ⟨hnot, _⟩
  · exact h.ended id hterm
  · exact fun ha => hnot (h.tracked _ _ ha)

/-- A thread keeps the turn it is bound to. -/
theorem Move.bindings_kept (hm : Move t t') {thread turn : PyStr}
    (hb : t.bindings.lookup thread = some turn) : t'.bindings.lookup thread = some turn := by
  cases hm with
  | quiet q => rwa [q.bindings]
  | activated th tu a =>
    rw [a.bindings]
    split_ifs with hth
    · subst hth
      rcases a.bound with hn | hs
      · rw [hn] at hb
        cases hb
      · exact hs.symm.trans hb
    · exact hb
  | completed id c => rwa [c.bindings]

/-- Each call has its own request id; who waits has no answer; an answer is the response that carries the
call's id; and who has ended waits no more. -/
structure CallsSound (calls : List Call) (pending : List Nat) (nextId : Nat) (received : List Object) :
    Prop where
  ids : (calls.map (·.id)).Nodup
  fresh : ∀ call ∈ calls, call.id < nextId
  waiting : ∀ n ∈ pending, n < nextId ∧ ∀ call ∈ calls, call.id = n → call.answer = none
  own : ∀ call ∈ calls, ∀ line payload, call.answer = some (.response line payload) →
    ∃ message, received[line]? = some message ∧ responseOf message = some (.ok (call.id, payload))
  outcomes : ∀ call ∈ calls, ∀ o, call.outcome = some o → call.id ∉ pending ∧
    ((∃ a, call.answer = some a ∧ o = a.outcome) ∨ o = .raised ∨ o = .timedOut)

/-- A call that waits is neither answered nor ended. -/
theorem CallsSound.unanswered (h : CallsSound calls pending nextId received) {call : Call}
    (hc : call ∈ calls) (hp : call.id ∈ pending) : call.answer = none ∧ call.outcome = none := by
  refine ⟨(h.waiting call.id hp).2 call hc rfl, ?_⟩
  cases ho : call.outcome with
  | none => rfl
  | some o => exact ((h.outcomes call hc o ho).1 hp).elim

/-- Calls changed in their answers and outcomes only. -/
theorem ids_map {f : Call → Call} (hf : ∀ call, (f call).id = call.id) :
    (calls.map f).map (·.id) = calls.map (·.id) := by
  rw [List.map_map]
  exact List.map_congr_left fun call _ => hf call

theorem CallsSound.receive (h : CallsSound calls pending nextId received) (message : Object) :
    CallsSound calls pending nextId (received ++ [message]) := by
  refine ⟨h.ids, h.fresh, h.waiting, fun call hc line payload ha => ?_, h.outcomes⟩
  obtain ⟨m, hm, hr⟩ := h.own call hc line payload ha
  exact ⟨m, List.getElem?_append_left (List.getElem?_eq_some_iff.mp hm).1 ▸ hm, hr⟩

theorem CallsSound.register (h : CallsSound calls pending nextId received) (method : PyStr) :
    CallsSound (⟨nextId, method, none, none⟩ :: calls) (nextId :: pending) (nextId + 1) received := by
  have hlt : ∀ call ∈ calls, call.id ≠ nextId := fun call hc => Nat.ne_of_lt (h.fresh call hc)
  refine ⟨?_, ?_, ?_, ?_, ?_⟩
  · rw [List.map_cons, List.nodup_cons]
    refine ⟨fun hm => ?_, h.ids⟩
    obtain ⟨call, hc, he⟩ := List.mem_map.mp hm
    exact hlt call hc he
  · intro call hc
    rcases List.mem_cons.mp hc with rfl | hc
    · exact Nat.lt_succ_self _
    · exact Nat.lt_succ_of_lt (h.fresh call hc)
  · intro n hn
    refine ⟨?_, fun call hc he => ?_⟩
    · rcases List.mem_cons.mp hn with rfl | hn
      · exact Nat.lt_succ_self _
      · exact Nat.lt_succ_of_lt (h.waiting n hn).1
    · rcases List.mem_cons.mp hc with rfl | hold
      · rfl
      · rcases List.mem_cons.mp hn with hnew | hn
        · exact (hlt call hold (he.trans hnew)).elim
        · exact (h.waiting n hn).2 call hold he
  · intro call hc line payload ha
    rcases List.mem_cons.mp hc with rfl | hc
    · cases ha
    · exact h.own call hc line payload ha
  · intro call hc o ho
    rcases List.mem_cons.mp hc with rfl | hc
    · cases ho
    · obtain ⟨hnot, hcases⟩ := h.outcomes call hc o ho
      refine ⟨fun hm => ?_, hcases⟩
      rcases List.mem_cons.mp hm with he | hm
      · exact hlt call hc he
      · exact hnot hm

/-- Waiting calls are woken: each by a failure, or one by the last response. -/
theorem CallsSound.wake (h : CallsSound calls pending nextId received) {woken : Nat → Prop}
    [DecidablePred woken] {answer : Answer} {rest : List Nat} (hwoken : ∀ n, woken n → n ∈ pending)
    (hrest : ∀ n ∈ rest, n ∈ pending ∧ ¬ woken n)
    (hanswer : ∀ line payload, answer = .response line payload → ∃ message,
      received[line]? = some message ∧ ∀ n, woken n → responseOf message = some (.ok (n, payload))) :
    CallsSound (calls.map fun call => if woken call.id then { call with answer := some answer } else call)
      rest nextId received := by
  have hid : ∀ call : Call,
      (if woken call.id then { call with answer := some answer } else call).id = call.id := by
    intro call
    split_ifs <;> rfl
  refine ⟨?_, ?_, ?_, ?_, ?_⟩
  · rw [ids_map hid]
    exact h.ids
  · intro call' hc'
    obtain ⟨call, hc, rfl⟩ := List.mem_map.mp hc'
    rw [hid]
    exact h.fresh call hc
  · intro n hn
    obtain ⟨hp, hnot⟩ := hrest n hn
    refine ⟨(h.waiting n hp).1, fun call' hc' he => ?_⟩
    obtain ⟨call, hc, rfl⟩ := List.mem_map.mp hc'
    rw [hid] at he
    rw [if_neg (he ▸ hnot)]
    exact (h.waiting n hp).2 call hc he
  · intro call' hc' line payload ha
    obtain ⟨call, hc, rfl⟩ := List.mem_map.mp hc'
    rw [hid]
    split_ifs at ha with hw
    · obtain ⟨message, hm, hr⟩ := hanswer line payload (Option.some.inj ha)
      exact ⟨message, hm, hr call.id hw⟩
    · exact h.own call hc line payload ha
  · intro call' hc' o ho
    obtain ⟨call, hc, rfl⟩ := List.mem_map.mp hc'
    have houtcome : call.outcome = some o := by
      split_ifs at ho <;> exact ho
    obtain ⟨hnot, hcases⟩ := h.outcomes call hc o houtcome
    have hasleep : ¬ woken call.id := fun hw => hnot (hwoken _ hw)
    rw [if_neg hasleep]
    exact ⟨fun hm => hnot (hrest _ hm).1, hcases⟩

/-- A call ends: with its answer, or because it stops waiting. -/
theorem CallsSound.settle (h : CallsSound calls pending nextId received) {rest : List Nat}
    {f : Call → Call} (hrest : ∀ n ∈ rest, n ∈ pending)
    (hf : ∀ call ∈ calls, f call = call ∧ (call.outcome ≠ none → call.id ∉ rest) ∨
      ∃ o, f call = { call with outcome := some o } ∧ call.id ∉ rest ∧
        ((∃ a, call.answer = some a ∧ o = a.outcome) ∨ o = .raised ∨ o = .timedOut)) :
    CallsSound (calls.map f) rest nextId received := by
  have hkept : ∀ call ∈ calls, (f call).id = call.id ∧ (f call).answer = call.answer := by
    intro call hc
    rcases hf call hc with ⟨he, _⟩ | ⟨o, he, _⟩ <;> rw [he] <;> exact ⟨rfl, rfl⟩
  have hmap : (calls.map f).map (·.id) = calls.map (·.id) := by
    rw [List.map_map]
    exact List.map_congr_left fun call hc => (hkept call hc).1
  refine ⟨hmap ▸ h.ids, ?_, ?_, ?_, ?_⟩
  · intro call' hc'
    obtain ⟨call, hc, rfl⟩ := List.mem_map.mp hc'
    rw [(hkept call hc).1]
    exact h.fresh call hc
  · intro n hn
    refine ⟨(h.waiting n (hrest n hn)).1, fun call' hc' he => ?_⟩
    obtain ⟨call, hc, rfl⟩ := List.mem_map.mp hc'
    rw [(hkept call hc).1] at he
    rw [(hkept call hc).2]
    exact (h.waiting n (hrest n hn)).2 call hc he
  · intro call' hc' line payload ha
    obtain ⟨call, hc, rfl⟩ := List.mem_map.mp hc'
    rw [(hkept call hc).2] at ha
    rw [(hkept call hc).1]
    exact h.own call hc line payload ha
  · intro call' hc' o ho
    obtain ⟨call, hc, rfl⟩ := List.mem_map.mp hc'
    rw [(hkept call hc).1, (hkept call hc).2]
    rcases hf call hc with ⟨he, hnot⟩ | ⟨o', he, hnot, hcases⟩
    · rw [he] at ho
      exact ⟨hnot (by simp [ho]), (h.outcomes call hc o ho).2⟩
    · rw [he] at ho
      obtain rfl := Option.some.inj ho
      exact ⟨hnot, hcases⟩

/-- The notifications in the order they were processed, each under its number, and the window over
them. -/
structure NotesSound (seq : Nat) (processed : List Json) (window : Retention.Window Json Omissions) :
    Prop where
  length : processed.length = seq
  numbered : ∀ (i : Nat) (m : Json), processed[i]? = some m →
    ∃ items, m = .obj items ∧ items.lookup "_danus_seq".toList = some (.int (i + 1))
  accounts : Retention.Accounts retention Omissions.omit {} (fun m => (compactBytes m).length) processed
    window

variable {c : Client}

theorem append_calls (message : Object) : (c.append message).calls = c.calls := by
  rw [Client.append]

theorem append_pending (message : Object) : (c.append message).pending = c.pending := by
  rw [Client.append]

theorem append_nextId (message : Object) : (c.append message).nextId = c.nextId := by
  rw [Client.append]

theorem append_received (message : Object) : (c.append message).received = c.received := by
  rw [Client.append]

theorem append_turns (message : Object) : (c.append message).turns = c.turns := by
  rw [Client.append]

theorem notesSound_append (h : NotesSound c.seq c.processed c.window) (message : Object) :
    NotesSound (c.append message).seq (c.append message).processed (c.append message).window := by
  refine ⟨?_, fun i m hm => ?_, h.accounts.push _⟩
  · simp only [Client.append, List.length_append, h.length, List.length_singleton]
  · simp only [Client.append] at hm
    by_cases hi : i < c.processed.length
    · rw [List.getElem?_append_left hi] at hm
      exact h.numbered i m hm
    · rw [List.getElem?_append_right (Nat.le_of_not_lt hi)] at hm
      obtain ⟨hlast, rfl⟩ := List.getElem?_eq_some_iff.mp hm
      have hzero : i = c.seq := by
        rw [List.length_singleton] at hlast
        have hlen := h.length
        omega
      refine ⟨_, List.getElem_singleton _, ?_⟩
      rw [Json.lookup_setItem, if_pos rfl, hzero]

theorem callsSound_markClosed (h : CallsSound c.calls c.pending c.nextId c.received) (e : Failure) :
    CallsSound (c.markClosed e).calls (c.markClosed e).pending (c.markClosed e).nextId
      (c.markClosed e).received :=
  h.wake (fun _ hn => hn) (by simp [Client.markClosed]) nofun

theorem callsSound_leave (h : CallsSound c.calls c.pending c.nextId c.received) (id : Nat) {o : Outcome}
    (ho : o = .raised ∨ o = .timedOut) :
    CallsSound (c.leave id o).calls (c.leave id o).pending (c.leave id o).nextId
      (c.leave id o).received := by
  have hgone : id ∉ c.pending.filter (· != id) := by simp
  refine h.settle (fun n hn => (List.mem_filter.mp hn).1) fun call hc => ?_
  split_ifs with hend
  · exact .inr ⟨o, rfl, hend.1 ▸ hgone, .inr ho⟩
  · refine .inl ⟨rfl, fun hne hm => ?_⟩
    obtain ⟨o', ho'⟩ := Option.ne_none_iff_exists'.mp hne
    exact (h.outcomes call hc o' ho').1 (List.mem_filter.mp hm).1

theorem callsSound_finish (h : CallsSound c.calls c.pending c.nextId c.received) (id : Nat) :
    CallsSound (c.finish id).calls (c.finish id).pending (c.finish id).nextId (c.finish id).received := by
  refine h.settle (fun n hn => hn) fun call hc => ?_
  have hkeep : call.outcome ≠ none → call.id ∉ c.pending := by
    intro hne
    obtain ⟨o, ho⟩ := Option.ne_none_iff_exists'.mp hne
    exact (h.outcomes call hc o ho).1
  cases ha : call.answer with
  | none => exact .inl ⟨rfl, hkeep⟩
  | some answer =>
    simp only
    split_ifs
    · refine .inr ⟨answer.outcome, rfl, fun hm => ?_, .inl ⟨answer, rfl, rfl⟩⟩
      have hnone := (h.waiting call.id hm).2 call hc rfl
      rw [ha] at hnone
      cases hnone
    · exact .inl ⟨rfl, hkeep⟩

end Invariants

section Steps
variable [Redaction] {c : Client} {message : Object} {sent : Bool}

/-- The turn whose end a message reports. -/
def endedTurn (message : Object) : Option Identity :=
  match responseOf message, requestOf message, message.lookup "id".toList with
  | none, .ok (method, params), none =>
    if method = "turn/completed".toList then
      match completedTurn params with
      | .ok (id, _) => some id
      | .error _ => none
    else none
  | _, _, _ => none

/-- The turns whose end the server has reported. -/
def Client.Ended (c : Client) (id : Identity) : Prop := ∃ message ∈ c.received, endedTurn message = some id

/-- What the reader does with a message. -/
inductive Dispatched (c : Client) (message : Object) : Client → Prop where
  | refused : endedTurn message = none → Dispatched c message c
  | stopped (e : Failure) : endedTurn message = none → Dispatched c message (c.stop e)
  | orphaned : endedTurn message = none → Dispatched c message (c.append (orphan message))
  | answered (n : Nat) (payload : Payload) : endedTurn message = none → n ∈ c.pending →
      responseOf message = some (.ok (n, payload)) → Dispatched c message { c with
        pending := c.pending.filter (· != n)
        calls := c.calls.map fun call => if call.id = n then
          { call with answer := some (.response (c.received.length - 1) payload) } else call }
  | failed (method : PyStr) (params : Object) (e : Failure) : responseOf message = none →
      requestOf message = .ok (method, params) →
      Dispatched c message
        (Client.stop { c with turns := (applyNotification c.turns method params).1 } e)
  | noted (method : PyStr) (params items : Object) : responseOf message = none →
      requestOf message = .ok (method, params) →
      Dispatched c message
        (Client.append { c with turns := (applyNotification c.turns method params).1 } items)

theorem dispatched (c : Client) (message : Object) (sent : Bool) :
    Dispatched c message (c.dispatch message sent) := by
  unfold Client.dispatch
  cases hr : responseOf message with
  | some response =>
    have hend : endedTurn message = none := by
      unfold endedTurn
      rw [hr]
    cases response with
    | error e => exact .stopped e hend
    | ok p =>
      obtain ⟨id, payload⟩ := p
      cases hf : c.pending.find? fun n : Nat => (n : Int) == id with
      | none =>
        simp only [hf]
        exact .orphaned hend
      | some n =>
        have hn : (n : Int) = id := by simpa using List.find?_some hf
        simp only [hf]
        exact .answered n payload hend (List.mem_of_find?_eq_some hf) (hn ▸ hr)
  | none =>
    cases hq : requestOf message with
    | error e =>
      refine .stopped e ?_
      unfold endedTurn
      rw [hr, hq]
    | ok p =>
      obtain ⟨method, params⟩ := p
      cases hid : message.lookup "id".toList with
      | some v =>
        have hend : endedTurn message = none := by
          unfold endedTurn
          rw [hr, hq, hid]
        simp only
        split
        · split_ifs
          · exact .refused hend
          · exact .stopped _ hend
        · exact .stopped _ hend
        · exact absurd ‹some v = none› (by simp)
      | none =>
        cases hh : (applyNotification c.turns method params).2 with
        | error e =>
          simp only [hh]
          exact .failed method params e hr hq
        | ok shown =>
          simp only [hh]
          exact .noted method params _ hr hq

/-- A response goes to the call that waits under its id, a notification into the window. -/
theorem Dispatched.sound {c' : Client} (h : Dispatched c message c')
    (hcalls : CallsSound c.calls c.pending c.nextId c.received)
    (hlast : c.received.getLast? = some message) (hnotes : NotesSound c.seq c.processed c.window) :
    CallsSound c'.calls c'.pending c'.nextId c'.received ∧
      NotesSound c'.seq c'.processed c'.window := by
  cases h with
  | refused _ => exact ⟨hcalls, hnotes⟩
  | stopped e _ => exact ⟨callsSound_markClosed hcalls e, hnotes⟩
  | orphaned _ =>
    refine ⟨?_, notesSound_append hnotes _⟩
    rwa [append_calls, append_pending, append_nextId, append_received]
  | answered n payload _ hn hr =>
    refine ⟨@CallsSound.wake _ _ _ _ hcalls (· = n) _ _ _ ?_ ?_ ?_, hnotes⟩
    · rintro m rfl
      exact hn
    · intro m hm
      rw [List.mem_filter] at hm
      exact ⟨hm.1, by simpa using hm.2⟩
    · intro line payload' ha
      obtain ⟨rfl, rfl⟩ := Answer.response.inj ha
      refine ⟨message, ?_, fun m hm => ?_⟩
      · rw [← List.getLast?_eq_getElem?]
        exact hlast
      · rw [hm]
        exact hr
  | failed method params e _ _ => exact ⟨callsSound_markClosed hcalls e, hnotes⟩
  | noted method params items _ _ =>
    refine ⟨?_, notesSound_append hnotes _⟩
    rwa [append_calls, append_pending, append_nextId, append_received]

theorem Dispatched.received {c' : Client} (h : Dispatched c message c') : c'.received = c.received := by
  cases h with
  | orphaned | noted => rw [append_received]
  | _ => rfl

/-- A notification of a turn's end is handled as such. -/
theorem applyNotification_seen {t : Turns} {method : PyStr} {params : Object} {id : Identity}
    (hr : responseOf message = none) (hq : requestOf message = .ok (method, params))
    (he : endedTurn message = some id) :
    ((applyNotification t method params).1.terminal.lookup id).isSome ∨
      (applyNotification t method params).1 = t ∧ id ∉ t.tracked ∧
        maxTrackedTurnIdentities ≤ t.tracked.length := by
  unfold endedTurn at he
  rw [hr, hq] at he
  cases hid : message.lookup "id".toList with
  | some v =>
    rw [hid] at he
    cases he
  | none =>
    rw [hid] at he
    simp only at he
    split_ifs at he with hm
    have happly : applyNotification t method params = handleCompleted t params := by
      rw [applyNotification, if_neg (by rw [hm]; decide), if_pos hm]
    rw [happly]
    cases hc : completedTurn params with
    | error e =>
      rw [hc] at he
      cases he
    | ok ended =>
      obtain ⟨id', turn⟩ := ended
      rw [hc] at he
      obtain rfl := Option.some.inj he
      exact handleCompleted_seen hc

/-- What a message does to the turns; where it reports a turn's end, the client sees that end. -/
theorem Dispatched.turns {c' : Client} (h : Dispatched c message c') :
    Move c.turns c'.turns ∧ ∀ id, endedTurn message = some id →
      (c'.turns.terminal.lookup id).isSome ∨
      c'.turns = c.turns ∧ id ∉ c.turns.tracked ∧
        maxTrackedTurnIdentities ≤ c.turns.tracked.length := by
  have hquiet (hend : endedTurn message = none) : ∀ id, endedTurn message = some id →
      (c.turns.terminal.lookup id).isSome ∨
      c.turns = c.turns ∧ id ∉ c.turns.tracked ∧
        maxTrackedTurnIdentities ≤ c.turns.tracked.length := by
    intro id he
    rw [hend] at he
    cases he
  cases h with
  | refused hend => exact ⟨Move.refl _, hquiet hend⟩
  | stopped e hend => exact ⟨Move.refl _, hquiet hend⟩
  | orphaned hend =>
    rw [append_turns]
    exact ⟨Move.refl _, hquiet hend⟩
  | answered n payload hend _ _ => exact ⟨Move.refl _, hquiet hend⟩
  | failed method params e hr hq =>
    exact ⟨applyNotification_move c.turns method params, fun id he => applyNotification_seen hr hq he⟩
  | noted method params items hr hq =>
    rw [append_turns]
    exact ⟨applyNotification_move c.turns method params, fun id he => applyNotification_seen hr hq he⟩

/-- All of it. -/
structure Sound (c : Client) : Prop where
  calls : CallsSound c.calls c.pending c.nextId c.received
  turns : TurnsSound c.Ended c.turns
  notes : NotesSound c.seq c.processed c.window

theorem Sound.readLine (h : Sound c) (line : List Nat) : Sound (c.readLine line sent) := by
  have hstop (e : Failure) : Sound (c.stop e) := ⟨callsSound_markClosed h.calls e, h.turns, h.notes⟩
  unfold Client.readLine
  split_ifs
  · exact hstop _
  · cases strictJson line with
    | error e => exact hstop e
    | ok message =>
      have hd := dispatched { c with received := c.received ++ [message] } message sent
      obtain ⟨hc, hn⟩ := hd.sound (h.calls.receive message) List.getLast?_concat h.notes
      obtain ⟨hmove, hended⟩ := hd.turns
      refine ⟨hc, ?_, hn⟩
      have hmoved := h.turns.move hmove
      refine ⟨hmoved.bound, hmoved.tracked, hmoved.ended, fun id hid => ?_⟩
      obtain ⟨m, hm, he⟩ := hid
      rw [hd.received, List.mem_append, List.mem_singleton] at hm
      rcases hm with hm | rfl
      · exact hmoved.seen id ⟨m, hm, he⟩
      · rcases hended id he with hterm | ⟨hsame, hfull⟩
        · exact .inl hterm
        · rw [hsame]
          exact .inr hfull

omit [Redaction] in
theorem adopt_move (c : Client) (thread turn : PyStr) : Move c.turns (c.adopt thread turn).turns ∧
    (c.adopt thread turn) = { c with turns := (c.adopt thread turn).turns } := by
  unfold Client.adopt
  split
  · next turns h =>
    refine ⟨?_, rfl⟩
    obtain ⟨thread', _, h⟩ := bind_ok h
    obtain ⟨turn', _, h⟩ := bind_ok h
    exact .activated _ _ (activate_ok h)
  · exact ⟨Move.refl _, rfl⟩

theorem Sound.step (h : Sound c) (e : Event) : Sound (c.step e) := by
  cases e with
  | register method =>
    simp only [Client.step, Client.register]
    split_ifs
    · exact h
    · exact ⟨h.calls.register method, h.turns, h.notes⟩
  | sendFailed id => exact ⟨callsSound_leave h.calls id (.inl rfl), h.turns, h.notes⟩
  | line bytes sent =>
    simp only [Client.step]
    split_ifs
    · exact h.readLine bytes
    · exact h
  | eof =>
    simp only [Client.step]
    split_ifs
    · exact ⟨callsSound_markClosed h.calls _, h.turns, h.notes⟩
    · exact h
  | finish id => exact ⟨callsSound_finish h.calls id, h.turns, h.notes⟩
  | timeout id => exact ⟨callsSound_leave h.calls id (.inr rfl), h.turns, h.notes⟩
  | hostLost id =>
    exact ⟨callsSound_leave (callsSound_markClosed h.calls _) id (.inl rfl), h.turns, h.notes⟩
  | close failure => exact ⟨callsSound_markClosed h.calls failure, h.turns, h.notes⟩
  | adopt thread turn =>
    obtain ⟨hmove, heq⟩ := adopt_move c thread turn
    simp only [Client.step]
    rw [heq]
    have hmoved := h.turns.move hmove
    exact ⟨h.calls, ⟨hmoved.bound, hmoved.tracked, hmoved.ended, hmoved.seen⟩, h.notes⟩

omit [Redaction] in
theorem sound_initial : Sound {} where
  calls := ⟨List.nodup_nil, by simp, by simp, by simp, by simp⟩
  turns := ⟨nofun, nofun, nofun, by rintro id ⟨m, hm, _⟩; cases hm⟩
  notes := ⟨rfl, nofun, Retention.accounts_empty⟩

theorem sound_of_reachable (h : machine.Reachable c) : Sound c := by
  refine Machine.Reachable.invariant ?_ ?_ h
  · rintro _ rfl
    exact sound_initial
  · rintro c e _ hi rfl
    exact hi.step e

/-- What a client keeps: the answers and the ended calls, and the turns that threads are bound to. -/
structure Kept (c c' : Client) : Prop where
  answered : ∀ call ∈ c.calls, ∀ a, call.answer = some a →
    ∃ call' ∈ c'.calls, call'.id = call.id ∧ call'.answer = some a
  ended : ∀ call ∈ c.calls, call.outcome ≠ none → call ∈ c'.calls
  bound : ∀ thread turn, c.turns.bindings.lookup thread = some turn →
    c'.turns.bindings.lookup thread = some turn

omit [Redaction] in
theorem Kept.refl (c : Client) : Kept c c :=
  ⟨fun call hc _ ha => ⟨call, hc, rfl, ha⟩, fun _ hc _ => hc, fun _ _ hb => hb⟩

omit [Redaction] in
theorem Kept.trans {c₁ c₂ : Client} (h : Kept c c₁) (h' : Kept c₁ c₂) : Kept c c₂ where
  answered := by
    intro call hc a ha
    obtain ⟨call₁, hc₁, hid₁, ha₁⟩ := h.answered call hc a ha
    obtain ⟨call₂, hc₂, hid₂, ha₂⟩ := h'.answered call₁ hc₁ a ha₁
    exact ⟨call₂, hc₂, hid₂.trans hid₁, ha₂⟩
  ended := by
    intro call hc ho
    exact h'.ended call (h.ended call hc ho) ho
  bound := by
    intro thread turn hb
    exact h'.bound thread turn (h.bound thread turn hb)

omit [Redaction] in
/-- Calls changed one by one keep their ids and answers, and stay as they are once they ended. -/
theorem kept_of_map {c' : Client} {f : Call → Call} (hcalls : c'.calls = c.calls.map f)
    (hbound : c'.turns.bindings = c.turns.bindings)
    (hf : ∀ call ∈ c.calls, (f call).id = call.id ∧ (call.answer ≠ none → (f call).answer = call.answer) ∧
      (call.outcome ≠ none → f call = call)) : Kept c c' where
  answered := by
    intro call hc a ha
    obtain ⟨hid, hanswer, _⟩ := hf call hc
    refine ⟨f call, hcalls ▸ List.mem_map_of_mem hc, hid, ?_⟩
    rw [hanswer (by rw [ha]; exact Option.some_ne_none a), ha]
  ended := by
    intro call hc ho
    rw [hcalls, ← (hf call hc).2.2 ho]
    exact List.mem_map_of_mem hc
  bound := by
    intro thread turn hb
    rwa [hbound]

omit [Redaction] in
theorem kept_markClosed (h : CallsSound c.calls c.pending c.nextId c.received) (e : Failure) :
    Kept c (c.markClosed e) := by
  refine kept_of_map rfl rfl fun call hc => ?_
  by_cases hp : call.id ∈ c.pending
  · obtain ⟨ha, ho⟩ := h.unanswered hc hp
    rw [if_pos hp]
    exact ⟨rfl, fun hne => (hne ha).elim, fun hne => (hne ho).elim⟩
  · rw [if_neg hp]
    exact ⟨rfl, fun _ => rfl, fun _ => rfl⟩

omit [Redaction] in
theorem kept_stop (h : CallsSound c.calls c.pending c.nextId c.received) (e : Failure) :
    Kept c (c.stop e) :=
  ⟨(kept_markClosed h e).answered, (kept_markClosed h e).ended, (kept_markClosed h e).bound⟩

omit [Redaction] in
theorem kept_leave (c : Client) (id : Nat) (o : Outcome) : Kept c (c.leave id o) := by
  refine kept_of_map rfl rfl fun call hc => ?_
  split_ifs with hend
  · refine ⟨rfl, fun _ => rfl, fun hne => (hne ?_).elim⟩
    exact Option.isNone_iff_eq_none.mp hend.2
  · exact ⟨rfl, fun _ => rfl, fun _ => rfl⟩

omit [Redaction] in
theorem kept_finish (c : Client) (id : Nat) : Kept c (c.finish id) := by
  refine kept_of_map rfl rfl fun call hc => ?_
  split
  · split_ifs with hend
    · refine ⟨rfl, fun _ => rfl, fun hne => (hne ?_).elim⟩
      exact Option.isNone_iff_eq_none.mp hend.2
    · exact ⟨rfl, fun _ => rfl, fun _ => rfl⟩
  · exact ⟨rfl, fun _ => rfl, fun _ => rfl⟩

omit [Redaction] in
theorem kept_register (c : Client) (method : PyStr) : Kept c (c.register method) := by
  unfold Client.register
  split_ifs
  · exact Kept.refl c
  · exact ⟨fun call hc _ ha => ⟨call, List.mem_cons_of_mem _ hc, rfl, ha⟩,
      fun _ hc _ => List.mem_cons_of_mem _ hc, fun _ _ hb => hb⟩

omit [Redaction] in
/-- Where the turns alone moved. -/
theorem kept_of_move {c' : Client} (hcalls : c'.calls = c.calls) (hm : Move c.turns c'.turns) :
    Kept c c' :=
  ⟨fun call hc _ ha => ⟨call, hcalls ▸ hc, rfl, ha⟩, fun _ hc _ => hcalls ▸ hc,
    fun _ _ hb => hm.bindings_kept hb⟩

theorem Dispatched.kept {c' : Client} (hd : Dispatched c message c')
    (h : CallsSound c.calls c.pending c.nextId c.received) : Kept c c' := by
  obtain ⟨hmove, _⟩ := hd.turns
  cases hd with
  | refused _ => exact Kept.refl c
  | stopped e _ => exact kept_stop h e
  | orphaned _ => exact kept_of_move (append_calls _) hmove
  | answered n payload _ hn _ =>
    refine kept_of_map rfl rfl fun call hc => ?_
    split_ifs with hid
    · obtain ⟨ha, ho⟩ := h.unanswered hc (hid ▸ hn)
      exact ⟨rfl, fun hne => (hne ha).elim, fun hne => (hne ho).elim⟩
    · exact ⟨rfl, fun _ => rfl, fun _ => rfl⟩
  | failed method params e _ _ =>
    have hcalls : CallsSound c.calls c.pending c.nextId c.received := h
    exact ⟨(kept_stop hcalls e).answered, (kept_stop hcalls e).ended, fun _ _ hb => hmove.bindings_kept hb⟩
  | noted method params items _ _ => exact kept_of_move (append_calls _) hmove

theorem Sound.kept_step (h : Sound c) (e : Event) : Kept c (c.step e) := by
  cases e with
  | register method => exact kept_register c method
  | sendFailed id => exact kept_leave c id _
  | line bytes sent =>
    simp only [Client.step]
    split_ifs
    · unfold Client.readLine
      split_ifs
      · exact kept_stop h.calls _
      · cases strictJson bytes with
        | error e => exact kept_stop h.calls e
        | ok message =>
          have hd := dispatched { c with received := c.received ++ [message] } message sent
          obtain ⟨ha, he, hb⟩ := hd.kept (h.calls.receive message)
          exact ⟨ha, he, hb⟩
    · exact Kept.refl c
  | eof =>
    simp only [Client.step]
    split_ifs
    · exact kept_stop h.calls _
    · exact Kept.refl c
  | finish id => exact kept_finish c id
  | timeout id => exact kept_leave c id _
  | hostLost id => exact (kept_markClosed h.calls _).trans (kept_leave _ id _)
  | close failure => exact kept_markClosed h.calls failure
  | adopt thread turn =>
    obtain ⟨hmove, heq⟩ := adopt_move c thread turn
    simp only [Client.step]
    exact kept_of_move (by rw [heq]) hmove

/-- What a client keeps, it keeps for the rest of its life. -/
theorem kept_run (h : machine.Reachable c) (events : List Event) : Kept c (events.foldl Client.step c) := by
  induction events generalizing c with
  | nil => exact Kept.refl c
  | cons e events ih => exact ((sound_of_reachable h).kept_step e).trans (ih (h.next rfl))

/-- What holds of a client whatever was received and called. -/
structure Demultiplexed (c : Client) : Prop where
  /-- A call returns what a response with its own id brought. -/
  own : ∀ call ∈ c.calls, ∀ value, call.outcome = some (.returned value) →
    ∃ (line : Nat) (message : Object), c.received[line]? = some message ∧
      responseOf message = some (.ok (call.id, .result value)) ∧
      call.answer = some (.response line (.result value))
  /-- An error response that a call raises carries its id as well. -/
  ownError : ∀ call ∈ c.calls, ∀ value, call.outcome = some (.rpcError value) →
    ∃ (line : Nat) (message : Object), c.received[line]? = some message ∧
      responseOf message = some (.ok (call.id, .error value)) ∧
      call.answer = some (.response line (.error value))
  /-- No two calls consume the same response. -/
  once : ∀ a ∈ c.calls, ∀ b ∈ c.calls, ∀ line p q, a.answer = some (.response line p) →
    b.answer = some (.response line q) → a = b
  /-- A response whose call is over is nobody's. -/
  late : ∀ call ∈ c.calls, call.outcome ≠ none → ∀ (message : Object) payload sent,
    responseOf message = some (.ok (call.id, payload)) →
    c.dispatch message sent = c.append (orphan message)
  bound : ∀ thread turn, c.turns.active.lookup thread = some turn →
    c.turns.bindings.lookup thread = some turn
  ended : ∀ id : Identity, c.Ended id ∨ (c.turns.terminal.lookup id).isSome →
    c.turns.active.lookup id.1 ≠ some id.2
  numbered : c.processed.length = c.seq ∧ ∀ (i : Nat) (m : Json), c.processed[i]? = some m →
    ∃ items, m = .obj items ∧ items.lookup "_danus_seq".toList = some (.int (i + 1))
  /-- A notification is retained or in the tally of the omitted ones. -/
  accounted : ∃ out : List Json, c.window.omitted = out.foldl Omissions.omit {} ∧
    c.processed.Perm (out ++ c.window.kept.map Prod.fst) ∧
    c.window.omitted.count + c.window.kept.length = c.seq
  order : (c.window.kept.map Prod.fst).Sublist c.processed
  bytes : c.window.bytes = (c.window.kept.map fun p => (compactBytes p.1).length).sum
  limits : c.window.kept.length ≤ retention.count ∧ c.window.bytes ≤ retention.total

omit [Redaction] in
theorem omitted_count (out : List Json) (o : Omissions) :
    (out.foldl Omissions.omit o).count = o.count + out.length := by
  induction out generalizing o with
  | nil => rfl
  | cons m out ih =>
    have hone : (o.omit m).count = o.count + 1 := rfl
    rw [List.foldl_cons, ih, List.length_cons, hone]
    omega

omit [Redaction] in
/-- A call that returned got its answer from a response. -/
theorem Sound.answered (h : Sound c) {call : Call} (hc : call ∈ c.calls) {payload : Payload}
    {o : Outcome} (ho : call.outcome = some o)
    (hpayload : ∀ a : Answer, o = a.outcome → ∃ line, a = .response line payload)
    (hout : o ≠ .raised ∧ o ≠ .timedOut) :
    ∃ (line : Nat) (message : Object), c.received[line]? = some message ∧
      responseOf message = some (.ok (call.id, payload)) ∧
      call.answer = some (.response line payload) := by
  rcases (h.calls.outcomes call hc o ho).2 with ⟨a, ha, hoa⟩ | hr | ht
  · obtain ⟨line, rfl⟩ := hpayload a hoa
    obtain ⟨message, hm, hr⟩ := h.calls.own call hc line payload ha
    exact ⟨line, message, hm, hr, ha⟩
  · exact (hout.1 hr).elim
  · exact (hout.2 ht).elim

theorem Sound.demultiplexed (h : Sound c) : Demultiplexed c where
  own := by
    intro call hc value ho
    refine h.answered hc ho (fun a ha => ?_) ⟨nofun, nofun⟩
    cases a with
    | response line payload =>
      cases payload with
      | result v =>
        obtain rfl := Outcome.returned.inj ha
        exact ⟨line, rfl⟩
      | error v => cases ha
    | closed kind => cases ha
  ownError := by
    intro call hc value ho
    refine h.answered hc ho (fun a ha => ?_) ⟨nofun, nofun⟩
    cases a with
    | response line payload =>
      cases payload with
      | result v => cases ha
      | error v =>
        obtain rfl := Outcome.rpcError.inj ha
        exact ⟨line, rfl⟩
    | closed kind => cases ha
  once := by
    intro a ha b hb line p q hp hq
    obtain ⟨m, hm, hr⟩ := h.calls.own a ha line p hp
    obtain ⟨m', hm', hr'⟩ := h.calls.own b hb line q hq
    obtain rfl : m = m' := Option.some.inj (hm.symm.trans hm')
    have hpair := Except.ok.inj (Option.some.inj (hr.symm.trans hr'))
    have hid : a.id = b.id := Int.ofNat.inj (congrArg Prod.fst hpair)
    exact List.inj_on_of_nodup_map h.calls.ids ha hb hid
  late := by
    intro call hc ho message payload sent hr
    have hnone : c.pending.find? (fun n : Nat => (n : Int) == (call.id : Int)) = none := by
      rw [List.find?_eq_none]
      intro n hn he
      obtain ⟨o, hsome⟩ := Option.ne_none_iff_exists'.mp ho
      have hid : n = call.id := by simpa using he
      exact (h.calls.outcomes call hc o hsome).1 (hid ▸ hn)
    unfold Client.dispatch
    rw [hr]
    simp only [hnone]
  bound := h.turns.bound
  ended := by
    rintro id (hid | hid)
    · exact h.turns.inactive hid
    · exact h.turns.ended id hid
  numbered := ⟨h.notes.length, h.notes.numbered⟩
  accounted := by
    obtain ⟨out, hout, hperm⟩ := h.notes.accounts.tally
    refine ⟨out, hout, hperm, ?_⟩
    have hlen := hperm.length_eq
    rw [h.notes.length, List.length_append, List.length_map] at hlen
    rw [hout, omitted_count]
    simp only
    omega
  order := h.notes.accounts.order
  bytes := by
    rw [h.notes.accounts.bytes]
    exact congrArg List.sum (List.map_congr_left h.notes.accounts.sizes)
  limits := ⟨h.notes.accounts.count, h.notes.accounts.total⟩

/-- Whatever the server sends and however the callers, their timeouts and the reader interleave: a call
returns the response with its own id, which no other call gets; a thread keeps its one turn, which is not
active any more once it ended; and each notification is retained or counted. -/
theorem client_demultiplexes (h : machine.Reachable c) (events : List Event) :
    Demultiplexed c ∧ Kept c (events.foldl Client.step c) :=
  ⟨(sound_of_reachable h).demultiplexed, kept_run h events⟩

end Steps

/-- A call is answered, then a second response with its id comes and a turn starts. -/
def answeredRun : List Event :=
  let line (text : String) : Event := .line (encodeUtf8 text.toList) true
  [.register "turn/start".toList, line "\x7b\"id\": 1, \"result\": 5\x7d\n", .finish 1,
    line "\x7b\"id\": 1, \"result\": 6\x7d\n",
    line ("\x7b\"method\": \"turn/started\", \"params\": \x7b\"threadId\": \"a\", " ++
      "\"turn\": \x7b\"id\": \"b\", \"status\": \"inProgress\"\x7d\x7d\x7d\n")]

theorem client_demultiplexes_answered : let c := answeredRun.foldl (@Client.step ⟨id⟩) {}
    @Demultiplexed ⟨id⟩ c ∧ c.calls.map (·.id) = [1] ∧ c.seq = 2 ∧
      c.turns.active = [("a".toList, "b".toList)] := by
  let plain : Redaction := ⟨id⟩
  have hstart : machine.Reachable {} := Machine.reachable_start rfl
  have hrun := hstart.foldl (fun _ _ => rfl) answeredRun
  exact ⟨(@client_demultiplexes ⟨id⟩ _ hrun []).1, by decide +kernel, by decide +kernel, by decide +kernel⟩

end Danus.HotJoin.AppServer
