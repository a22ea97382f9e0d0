import Danus.HotJoin.TerminalReplays
import Danus.Lib.Machine

/-! The terminals of paid turns under any interleaving with the brokers: what a replay finds, and who closes the
messages of a turn that is recorded terminal. -/
namespace Danus.HotJoin
open Python Machines Checks

/-- The turn in whose history `reconcile_routing` finds the message of an open row. -/
def locatedTurn (row : Row) : Reading → Option Turn
  | .read (some turns) =>
    if row.delivery.accepted = true ∨
        row.delivery.state = .deliveryUnknown ∧ row.message.kind = .interrupt then none
    else
      match messageTurn turns (clientMessageId row.message.messageId) with
      | .ok (some turn) =>
        if row.delivery.turnId.getD [] ≠ [] ∧ row.delivery.turnId ≠ some turn.id then none else some turn
      | _ => none
  | _ => none

/-- The turn for which a broker's next receipt takes its message. -/
def Broker.takes (b : Broker) (answer : Answer) : Option (PyStr × PyStr) :=
  match b.pc with
  | .reconciling (row :: _) reading => (locatedTurn row reading).map fun turn => (b.threadId, turn.id)
  | .sent row activeTurn =>
    if (b.afterAnswer row activeTurn answer).state.accepted then some (b.threadId, activeTurn) else none
  | _ => none

/-- What a broker goes by when it has a message accepted by a turn: what its client saw of the turn's end, or the
history it had read. -/
inductive Look where
  | client (turnId : PyStr)
  | history (turnId status : PyStr)
  deriving DecidableEq

namespace Look

def turnId : Look → PyStr
  | .client turnId => turnId
  | .history turnId _ => turnId

/-- The status of the turn that has ended. -/
def status (ended : PyStr → Option PyStr) : Look → Option PyStr
  | .client turnId => ended turnId
  | .history _ status => some status

end Look

/-- The look that a broker takes after its next receipt. -/
def Broker.nextLook (b : Broker) (answer : Answer) : Option Look :=
  match b.pc with
  | .reconciling (row :: _) reading => (locatedTurn row reading).bind fun turn =>
    if turn.status = .inProgress then none else some (.history turn.id turn.status.text)
  | .sent row activeTurn =>
    if (b.afterAnswer row activeTurn answer).state.accepted then some (.client activeTurn) else none
  | _ => none

/-- The ledger of the paid turns and its messages, the brokers on it with what each looks at next, the turns that
the clients hold for active, and those that they have seen end. -/
structure Rounds where
  paid : PaidLedger
  messages : List Message
  brokers : List Broker
  looks : Nat → Option Look
  activeTurns : PyStr → Option PyStr
  ended : Nat → PyStr → PyStr → Option PyStr

/-- What the transactions on messages read of an intent. -/
def PaidIntent.row (i : PaidIntent) : RoundIntent :=
  ⟨i.clientId, i.target, i.binding.isSome, i.state, some i.threadId, i.turnId⟩

/-- The turn is recorded terminal. -/
def PaidLedger.terminal (l : PaidLedger) (threadId turnId : PyStr) : Bool :=
  l.intents.any fun i => decide (i.state = .completed ∧ i.threadId = threadId ∧ i.turnId = some turnId)

namespace Rounds
variable (s : Rounds)

/-- What the brokers work on. -/
def routing : Routing :=
  ⟨⟨s.messages, s.paid.deliveries, s.paid.intents.map (·.row), s.paid.workerThreads⟩, s.brokers,
    s.activeTurns, []⟩

/-- The messages after a transaction of theirs. -/
def withMessages (l : Ledger) : Rounds :=
  { s with messages := l.messages, paid := { s.paid with deliveries := l.deliveries } }

def committed (r : Except HotJoinError PaidLedger) : Rounds :=
  match r with
  | .ok l => { s with paid := l }
  | .error _ => s

def posted (r : Except HotJoinError Ledger) : Rounds :=
  match r with
  | .ok l => s.withMessages l
  | .error _ => s

/-- A broker's look after a receipt, and its `complete_turn` where the turn has ended. -/
def look (i : Nat) (b : Broker) (look : Look) (now : Nat) : Rounds :=
  let t := { s with looks := Function.update s.looks i none }
  match look.status (s.ended i b.threadId) with
  | none => t
  | some status =>
    match s.paid.completeDeliveries b.threadId look.turnId status now with
    | .ok l => { t with paid := l }
    | .error _ => { t with brokers := s.brokers.set i { b with pc := .stopped } }

/-- The next step of a broker. -/
def move (i : Nat) (b : Broker) (now leaseNs : Nat) (answer : Answer) : Rounds :=
  match b.pc, s.looks i with
  | .stopped, _ => s
  | _, some look => s.look i b look now
  | _, none =>
    let t := s.routing.move i b now leaseNs answer
    { s.withMessages t.ledger with
      brokers := t.brokers
      looks := Function.update s.looks i (b.nextLook answer) }

inductive Event where
  | enqueue (target body : PyStr) (clientId : Option PyStr) (fallback : Fallback) (kind : MessageKind)
      (fresh : Fresh) (now : Nat)
  | enqueueEncouragement (target note : PyStr) (clientId : Option PyStr) (fresh : Fresh) (now : Nat)
  | setThreadId (target threadId : PyStr)
  | clearThreadId (target expectedThreadId detail : PyStr)
  | rotateThreadId (target expectedThreadId reason : PyStr)
  | roundIntent (r : RoundRequest) (uuid : PyStr)
  | recordRoundIntent (clientId : PyStr) (state : IntentState) (turnId terminalStatus : Option PyStr)
      (expectedStates : Option (List IntentState))
  | recordRoundAttemptAudit (clientId payload : PyStr)
  | finalizeRound (clientId payload : PyStr) (t : Terminal) (now : Nat)
  | abandon (target threadId clientId : PyStr) (expectedState : IntentState) (reason : PyStr)
      (acknowledged : Bool)
  | cancel (target threadId clientId reason : PyStr)
  | turn (threadId : PyStr) (activeTurn : Option PyStr)
  | ended (broker : Nat) (threadId turnId status : PyStr)
  | start (target threadId owner : PyStr) (reading : Reading)
  | move (broker now leaseNs : Nat) (answer : Answer)
  | stop (broker : Nat)

variable [AppServer.Redaction]

def step : Event → Rounds
  | .enqueue target body clientId fallback kind fresh now =>
    s.posted ((HotJoin.enqueue s.routing.ledger target body clientId fallback kind fresh now).map Prod.snd)
  | .enqueueEncouragement target note clientId fresh now =>
    s.posted ((HotJoin.enqueueEncouragement s.routing.ledger target note clientId fresh now).map Prod.snd)
  | .setThreadId target threadId => s.committed (s.paid.setThreadId target threadId)
  | .clearThreadId target expected detail => s.committed (s.paid.clearThreadId target expected detail)
  | .rotateThreadId target expected reason => s.committed (s.paid.rotateThreadId target expected reason)
  | .roundIntent r uuid => s.committed ((s.paid.roundIntent r uuid).map Prod.snd)
  | .recordRoundIntent clientId state turnId terminalStatus expected =>
    s.committed (s.paid.recordRoundIntent clientId state turnId terminalStatus expected)
  | .recordRoundAttemptAudit clientId payload => s.committed (s.paid.recordRoundAttemptAudit clientId payload)
  | .finalizeRound clientId payload t now => s.committed (s.paid.finalizeRound clientId payload t now)
  | .abandon target threadId clientId expected reason acknowledged =>
    s.committed (s.paid.abandonRoundIntent target threadId clientId expected reason acknowledged)
  | .cancel target threadId clientId reason =>
    s.committed (s.paid.cancelPreparedRoundIntent target threadId clientId reason)
  | .turn threadId activeTurn =>
    { s with activeTurns := fun t => if t = threadId then activeTurn else s.activeTurns t }
  | .ended i threadId turnId status => { s with ended := fun j t u =>
      if j = i ∧ t = threadId ∧ u = turnId then some status else s.ended j t u }
  | .start target threadId owner reading => { s with
      brokers := s.brokers ++
        [⟨target, threadId, owner, .reconciling (recoveryForTarget s.routing.ledger target) reading⟩]
      looks := Function.update s.looks s.brokers.length none }
  | .move i now leaseNs answer =>
    match s.brokers[i]? with
    | some b => s.move i b now leaseNs answer
    | none => s
  | .stop i =>
    match s.brokers[i]? with
    | some b => { s with brokers := s.brokers.set i { b with pc := .stopped } }
    | none => s

omit [AppServer.Redaction] in
/-- A fresh project, without brokers. -/
def initial : Rounds := ⟨.initial, [], [], fun _ => none, fun _ => none, fun _ _ _ => none⟩

def machine : Machine Rounds Event where
  start s := s = initial
  step s event t := t = s.step event

/-- What closes the messages of every terminal turn: intents are completed by `finalize_round` alone; a broker that
had a message accepted is not stopped before its look when the turn is recorded terminal, its client has seen such
a turn end, and the history it reconciles by is no older than such a record. -/
def Fits : Event → Prop
  | .recordRoundIntent _ state _ _ _ => state ≠ .completed
  | .stop i => ∀ b ∈ s.brokers[i]?, ∀ look ∈ s.looks i, s.paid.terminal b.threadId look.turnId = false
  | .move i _ _ answer => ∀ b ∈ s.brokers[i]?,
    (∀ look ∈ s.looks i, look.status (s.ended i b.threadId) = none →
      s.paid.terminal b.threadId look.turnId = false) ∧
    (s.looks i = none → b.nextLook answer = none →
      ∀ p ∈ b.takes answer, s.paid.terminal p.1 p.2 = false)
  | _ => True

instance (s : Rounds) (event : Event) : Decidable (s.Fits event) := by
  cases event <;> unfold Fits <;> infer_instance

/-- The condition on every step of a run. -/
def Fitting : List Rounds → Event → Prop
  | s :: _, event => s.Fits event
  | [], _ => True

/-- A broker that goes on is about to look at this turn. -/
def InHand (threadId turnId : PyStr) (i : Nat) : Prop :=
  ∃ b look, s.brokers[i]? = some b ∧ b.pc ≠ .stopped ∧ b.threadId = threadId ∧ s.looks i = some look ∧
    look.turnId = turnId

end Rounds

variable {turn : Option (PyStr × PyStr)} {ds ds' ds'' : List Delivery} {l l' : Ledger} {m : Message}
  {row : Row} {b : Broker} {threadId turnId : PyStr} {now : Nat}

/-- The messages that are accepted after some transaction were so before, or this turn took them. -/
structure Takes (turn : Option (PyStr × PyStr)) (ds ds' : List Delivery) : Prop where
  ids : (ds.map (·.messageId)).Nodup → (ds'.map (·.messageId)).Nodup
  accepted : ∀ d ∈ ds', d.accepted = true →
    d ∈ ds ∨ ∃ p ∈ turn, d.threadId = some p.1 ∧ d.turnId = some p.2

namespace Takes

theorem refl (turn : Option (PyStr × PyStr)) (ds : List Delivery) : Takes turn ds ds :=
  ⟨id, fun _ hd _ => .inl hd⟩

theorem weaken (h : Takes none ds ds') : Takes turn ds ds' := by
  refine ⟨h.ids, fun d hd ha => ?_⟩
  rcases h.accepted d hd ha with hold | ⟨p, hp, _⟩
  · exact .inl hold
  · cases hp

theorem trans (h : Takes none ds ds') (h' : Takes turn ds' ds'') : Takes turn ds ds'' := by
  refine ⟨fun hn => h'.ids (h.ids hn), fun d hd ha => ?_⟩
  rcases h'.accepted d hd ha with hmid | hnew
  · exact h.weaken.accepted d hmid ha
  · exact .inr hnew

/-- Rows rewritten in place. -/
theorem update {p : Delivery → Bool} {f : Delivery → Delivery} (hid : ∀ d, (f d).messageId = d.messageId)
    (hf : ∀ d, p d = true → (f d).accepted = true →
      ∃ q ∈ turn, (f d).threadId = some q.1 ∧ (f d).turnId = some q.2) :
    Takes turn ds (Rows.update p f ds) := by
  refine ⟨fun hn => ?_, fun d hd ha => ?_⟩
  · rw [Rows.map_update fun d _ => hid d]
    exact hn
  · rcases Rows.mem_update_cases hd with ⟨hold, _⟩ | ⟨d, _, hp, rfl⟩
    · exact .inl hold
    · exact .inr (hf d hp ha)

end Takes

theorem admits_or {column value : Option PyStr} {v : PyStr} (h : admits column value = true)
    (hv : value = some v) : column.or value = some v := by
  subst hv
  cases column with
  | none => rfl
  | some c => simpa [admits] using h

/-- A receipt accepts a message for the turn that it names. -/
theorem recordInTx_takes {r : Record}
    (hr : r.state.accepted = true → ∃ p ∈ turn, r.threadId = some p.1 ∧ r.turnId = some p.2)
    (h : l.recordInTx r now = .ok l') : Takes turn l.deliveries l'.deliveries := by
  rw [recordInTx_ok h]
  refine Takes.update (fun _ => rfl) fun d hp ha => ?_
  obtain ⟨p, hturn, ht, hu⟩ := hr ha
  simp only [Record.hits, Bool.and_eq_true] at hp
  exact ⟨p, hturn, admits_or hp.1.2 ht, admits_or hp.2 hu⟩

/-- One that accepts none. -/
theorem recordInTx_quiet {r : Record} (hr : r.state.accepted = false) (h : l.recordInTx r now = .ok l') :
    Takes turn l.deliveries l'.deliveries := by
  refine recordInTx_takes (fun ha => ?_) h
  rw [hr] at ha
  cases ha

theorem foldlM_takes {f : Ledger → Delivery → Except HotJoinError Ledger}
    (hf : ∀ l d l', f l d = .ok l' → Takes none l.deliveries l'.deliveries) (ds : List Delivery)
    (h : ds.foldlM f l = .ok l') : Takes none l.deliveries l'.deliveries := by
  induction ds generalizing l with
  | nil =>
    cases h
    exact .refl none _
  | cons d ds ih =>
    rw [List.foldlM_cons, bind_ok] at h
    obtain ⟨mid, hmid, hrest⟩ := h
    exact (hf l d mid hmid).trans (ih hrest)

theorem completeTurn_takes {status : PyStr} (h : completeTurn l threadId turnId status now = .ok l') :
    Takes none l.deliveries l'.deliveries :=
  foldlM_takes (fun _ _ _ h => recordInTx_quiet rfl h) _ h

theorem claim_takes {c : ClaimArgs} {found : Option Row} (h : claim l c now = .ok (found, l')) :
    Takes none l.deliveries l'.deliveries := by
  unfold claim at h
  simp only [bind_ok] at h
  obtain ⟨_, _, mid, hmid, h⟩ := h
  have hexpired : Takes none l.deliveries mid.deliveries :=
    foldlM_takes (fun _ _ _ h => recordInTx_quiet rfl h) _ hmid
  split at h
  · cases h
    exact hexpired
  · split at h
    · cases h
      exact hexpired.trans (Takes.update (fun _ => rfl) fun _ _ ha => by cases ha)
    · cases h

theorem insert_takes (h : l.insert m = .ok l') : Takes none l.deliveries l'.deliveries := by
  unfold Ledger.insert at h
  split_ifs at h with hnew
  cases h
  rw [Bool.not_eq_true, Bool.or_eq_false_iff, List.any_eq_false, List.any_eq_false] at hnew
  refine ⟨fun hn => ?_, fun d hd ha => ?_⟩
  · rw [List.map_append, List.nodup_append]
    refine ⟨hn, by simp, fun a ha b hb => ?_⟩
    obtain ⟨d, hd, rfl⟩ := List.mem_map.mp ha
    rw [List.map_singleton, List.mem_singleton] at hb
    rw [hb]
    simpa using hnew.2 d hd
  · rcases List.mem_append.mp hd with hold | hnew
    · exact .inl hold
    · rw [List.mem_singleton.mp hnew] at ha
      cases ha

theorem enqueue_takes {target body : PyStr} {clientId : Option PyStr} {fallback : Fallback}
    {kind : MessageKind} {fresh : Fresh}
    (h : enqueue l target body clientId fallback kind fresh now = .ok (row, l')) :
    Takes none l.deliveries l'.deliveries := by
  unfold enqueue at h
  simp only [unless_ok, bind_ok] at h
  obtain ⟨_, _, _, _, _, clientId, _, h⟩ := h
  split at h
  · simp only [unless_ok, bind_ok, pure_ok, Prod.mk.injEq] at h
    obtain ⟨_, _, _, _, rfl⟩ := h
    exact .refl none _
  · simp only [bind_ok, pure_ok, Prod.mk.injEq] at h
    obtain ⟨mid, hmid, _, _, _, rfl⟩ := h
    exact insert_takes hmid

theorem enqueueEncouragement_takes {target note : PyStr} {clientId : Option PyStr} {fresh : Fresh}
    (h : enqueueEncouragement l target note clientId fresh now = .ok (row, l')) :
    Takes none l.deliveries l'.deliveries := by
  unfold enqueueEncouragement at h
  simp only [unless_ok, bind_ok] at h
  obtain ⟨_, _, _, _, _, clientId, _, _, _, h⟩ := h
  split at h
  · simp only [unless_ok, bind_ok, pure_ok, Prod.mk.injEq] at h
    obtain ⟨_, _, _, _, _, rfl⟩ := h
    exact .refl none _
  · simp only [bind_ok, pure_ok, Prod.mk.injEq] at h
    obtain ⟨mid, hmid, _, _, _, rfl⟩ := h
    exact insert_takes hmid

theorem reconcileRow_takes {reading : Reading} (h : reconcileRow l threadId reading row now = .ok l') :
    Takes ((locatedTurn row reading).map fun turn => (threadId, turn.id)) l.deliveries l'.deliveries := by
  have hsame : ∀ {turn l'}, (.ok l : Except HotJoinError Ledger) = .ok l' →
      Takes turn l.deliveries l'.deliveries := by
    rintro turn l' ⟨⟩
    exact .refl turn _
  unfold reconcileRow at h
  cases reading with
  | unread detail =>
    simp only at h
    split_ifs at h
    · exact recordInTx_quiet rfl h
    · exact hsame h
  | read turns =>
    simp only at h
    split_ifs at h with ha hu
    · refine Takes.weaken ?_
      unfold reconcileAccepted at h
      split at h
      · rw [bind_ok] at h
        obtain ⟨turns, _, h⟩ := h
        split at h
        · rw [ite_ok, pure_ok] at h
          rcases h with ⟨_, rfl⟩ | ⟨_, h⟩
          · exact .refl none _
          · exact completeTurn_takes h
        · exact hsame h
      · exact hsame h
    · exact hsame h
    · unfold reconcileOpen at h
      simp only [bind_ok] at h
      obtain ⟨turns', hturns, found, hfound, h⟩ := h
      cases turns with
      | none => cases hturns
      | some turns =>
        cases hturns
        have hopen : ¬ (row.delivery.accepted = true ∨
            row.delivery.state = .deliveryUnknown ∧ row.message.kind = .interrupt) := by
          rw [Delivery.accepted, DeliveryState.accepted, decide_eq_true_eq]
          exact not_or.mpr ⟨ha, hu⟩
        cases found with
        | none =>
          simp only [ite_ok, pure_ok] at h
          rcases h with ⟨_, rfl⟩ | ⟨_, h⟩
          · exact .refl _ _
          · exact recordInTx_quiet rfl h
        | some turn =>
          simp only [ite_ok, pure_ok] at h
          rcases h with ⟨_, rfl⟩ | ⟨hsame, h⟩
          · exact .refl _ _
          · refine recordInTx_takes (fun _ => ⟨(threadId, turn.id), ?_, rfl, rfl⟩) h
            simp only [locatedTurn, if_neg hopen, hfound, if_neg hsame, Option.map_some, Option.mem_some]

theorem Broker.afterAnswer_accepted {activeTurn : PyStr} {answer : Answer}
    (h : (b.afterAnswer row activeTurn answer).state.accepted = true) :
    (b.afterAnswer row activeTurn answer).threadId = some b.threadId ∧
      (b.afterAnswer row activeTurn answer).turnId = some activeTurn := by
  revert h
  unfold Broker.afterAnswer
  cases answer with
  | result found =>
    simp only
    split_ifs <;> exact fun _ => ⟨rfl, rfl⟩
  | rejected detail =>
    simp only
    split_ifs <;> intro h <;> cases h
  | lost detail =>
    intro h
    cases h

namespace Routing
variable {s : Routing} {i : Nat} {pc : Pc}

theorem moved_takes {r : Except HotJoinError Ledger} (hpc : pc ≠ .stopped)
    (hr : ∀ l, r = .ok l → Takes turn s.ledger.deliveries l.deliveries) :
    ∃ pc', (s.moved i b pc r).brokers = s.brokers.set i { b with pc := pc' } ∧
      (Takes none s.ledger.deliveries (s.moved i b pc r).ledger.deliveries ∨
        pc' ≠ .stopped ∧ Takes turn s.ledger.deliveries (s.moved i b pc r).ledger.deliveries) := by
  unfold Routing.moved
  split
  · next l => exact ⟨pc, rfl, .inr ⟨hpc, hr l rfl⟩⟩
  · exact ⟨.stopped, rfl, .inl (.refl none _)⟩

/-- A broker that takes a message goes on. -/
theorem move_takes (s : Routing) (i : Nat) (b : Broker) (hb : b.pc ≠ .stopped) (now leaseNs : Nat)
    (answer : Answer) :
    ∃ pc, (s.move i b now leaseNs answer).brokers = s.brokers.set i { b with pc := pc } ∧
      (Takes none s.ledger.deliveries (s.move i b now leaseNs answer).ledger.deliveries ∨
        pc ≠ .stopped ∧
          Takes (b.takes answer) s.ledger.deliveries (s.move i b now leaseNs answer).ledger.deliveries) := by
  have hsame : ∀ l, (.ok s.ledger : Except HotJoinError Ledger) = .ok l →
      Takes (b.takes answer) s.ledger.deliveries l.deliveries := by
    rintro l ⟨⟩
    exact .refl _ _
  unfold Routing.move
  cases hpc : b.pc with
  | reconciling rows reading =>
    cases rows with
    | nil => exact moved_takes nofun hsame
    | cons row rows =>
      refine moved_takes nofun fun l hl => ?_
      rw [Broker.takes, hpc]
      exact reconcileRow_takes hl
  | idle => exact moved_takes nofun hsame
  | observed activeTurn =>
    simp only
    split
    · next l hc =>
      refine moved_takes nofun ?_
      rintro _ ⟨⟩
      exact (claim_takes hc).weaken
    · next row l hc =>
      refine moved_takes nofun ?_
      rintro _ ⟨⟩
      exact (claim_takes hc).weaken
    · exact ⟨.stopped, rfl, .inl (.refl none _)⟩
  | claimed row activeTurn =>
    cases activeTurn with
    | none =>
      refine moved_takes nofun fun l hl => recordInTx_takes (fun ha => ?_) hl
      unfold Broker.withoutTurn at ha
      split_ifs at ha <;> cases ha
    | some activeTurn =>
      simp only
      split_ifs
      · exact moved_takes nofun fun l hl => recordInTx_quiet rfl hl
      · exact ⟨_, rfl, .inl (.refl none _)⟩
  | sent row activeTurn =>
    refine moved_takes nofun fun l hl => recordInTx_takes (fun ha => ?_) hl
    obtain ⟨ht, hu⟩ := Broker.afterAnswer_accepted ha
    refine ⟨(b.threadId, activeTurn), ?_, ht, hu⟩
    simp [Broker.takes, hpc, ha]
  | stopped => exact (hb hpc).elim

end Routing

/-- A look is at the turn that took the message. -/
theorem Broker.nextLook_turn {answer : Answer} {p : PyStr × PyStr} (hp : b.takes answer = some p) :
    p.1 = b.threadId ∧ ∀ look ∈ b.nextLook answer, look.turnId = p.2 := by
  unfold Broker.takes at hp
  unfold Broker.nextLook
  split at hp
  · next row rows reading hpc =>
    obtain ⟨turn, hturn, rfl⟩ := Option.map_eq_some_iff.mp hp
    refine ⟨rfl, fun look hlook => ?_⟩
    simp only [hturn, Option.bind_some] at hlook
    split_ifs at hlook
    · cases hlook
    · cases hlook
      rfl
  · next row activeTurn hpc =>
    split_ifs at hp with ha
    cases hp
    refine ⟨rfl, fun look hlook => ?_⟩
    simp only [ha, if_true] at hlook
    cases hlook
    rfl
  · cases hp

end Danus.HotJoin
