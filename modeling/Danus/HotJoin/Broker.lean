import Danus.HotJoin.Ledger
import Danus.Lib.Machine

/-! The brokers that route the messages of a hot-join ledger to the app-server threads, and the runs of
any number of them. -/
namespace Danus.HotJoin
open Python Machines

inductive TurnStatus where
  | inProgress | completed | interrupted | failed
  deriving DecidableEq, Repr

def TurnStatus.text : TurnStatus → PyStr
  | .inProgress => "inProgress".toList
  | .completed => "completed".toList
  | .interrupted => "interrupted".toList
  | .failed => "failed".toList

/-- A turn of `thread/read`, with the client ids of its user messages. -/
structure Turn where
  id : PyStr
  status : TurnStatus
  clientIds : List PyStr

/-- How `thread/read` went: the call failed, or it was answered; a malformed answer has no turns. -/
inductive Reading where
  | unread (detail : PyStr)
  | read (turns : Option (List Turn))

/-- `_direct_thread_turns` -/
def directThreadTurns : Option (List Turn) → Except HotJoinError (List Turn)
  | some turns => .ok turns
  | none => .error (.protocol "thread/read response has no direct turns list")

/-- `client_message_id` -/
def clientMessageId (messageId : PyStr) : PyStr := "danus-human:".toList ++ messageId

/-- `message_turn` -/
def messageTurn (turns : List Turn) (clientId : PyStr) : Except HotJoinError (Option Turn) :=
  match turns.filter fun t => decide (clientId ∈ t.clientIds) with
  | [] => .ok none
  | [t] => .ok (some t)
  | _ => .error (.protocol "client message id appears in multiple turns")

/-- `reconcile_routing` on a row that was accepted: its turn may have ended. -/
def reconcileAccepted (l : Ledger) (threadId : PyStr) (turns : Option (List Turn)) (delivery : Delivery)
    (now : Nat) : Except HotJoinError Ledger :=
  match delivery.turnId with
  | some (c :: cs) => do
    let turns ← directThreadTurns turns
    match turns.find? fun t => decide (t.id = c :: cs) with
    | some turn =>
      if turn.status = .inProgress then return l
      completeTurn l threadId (c :: cs) turn.status.text now
    | none => return l
  | _ => .ok l

/-- `reconcile_routing` on a row whose delivery is open: its user message may be in the history. -/
def reconcileOpen (l : Ledger) (threadId : PyStr) (turns : Option (List Turn)) (row : Row) (now : Nat) :
    Except HotJoinError Ledger := do
  let delivery := row.delivery
  let turns ← directThreadTurns turns
  match ← messageTurn turns (clientMessageId row.message.messageId) with
  | some turn =>
    -- another turn than the one recorded would violate the compare-and-set on the turn
    if delivery.turnId.getD [] ≠ [] ∧ delivery.turnId ≠ some turn.id then return l
    l.recordInTx ⟨row.message.messageId, .steerAccepted, some threadId, some turn.id,
      some "reconciled from thread/read userMessage.clientId".toList, some delivery.state,
      delivery.claimOwner⟩ now
  | none =>
    if delivery.state ≠ .routing then return l
    l.recordInTx ⟨row.message.messageId, .deliveryUnknown, some threadId, delivery.turnId,
      some "dispatch intent not found in authoritative thread history".toList, some .routing,
      delivery.claimOwner⟩ now

/-- What `reconcile_routing` makes of one recoverable row. -/
def reconcileRow (l : Ledger) (threadId : PyStr) (reading : Reading) (row : Row) (now : Nat) :
    Except HotJoinError Ledger :=
  let delivery := row.delivery
  match reading with
  | .unread detail =>
    if delivery.state = .routing then
      l.recordInTx ⟨row.message.messageId, .deliveryUnknown, some threadId, delivery.turnId,
        some ("reconciliation failed: ".toList ++ detail), some .routing, delivery.claimOwner⟩ now
    else .ok l
  | .read turns =>
    if delivery.state = .steerAccepted ∨ delivery.state = .interruptAccepted then
      reconcileAccepted l threadId turns delivery now
    else if delivery.state = .deliveryUnknown ∧ row.message.kind = .interrupt then .ok l
    else reconcileOpen l threadId turns row now

/-- A request to the app-server on behalf of a message. -/
inductive Rpc where
  | steer (threadId expectedTurnId input clientUserMessageId : PyStr)
  | interrupt (threadId turnId : PyStr)
  deriving DecidableEq

/-- How a request went: its result, whose `turnId` a steer attests; an error object; or the response
was lost or malformed. -/
inductive Answer where
  | result (turnId : Option PyStr)
  | rejected (detail : PyStr)
  | lost (detail : PyStr)

/-- Where a broker stands in `reconcile_routing` or in a turn of `_route_loop`. -/
inductive Pc where
  | reconciling (rows : List Row) (reading : Reading)
  | idle
  | observed (activeTurn : Option PyStr)
  | claimed (candidate : Row) (activeTurn : Option PyStr)
  | sent (candidate : Row) (activeTurn : PyStr)
  | stopped

structure Broker where
  target : PyStr
  threadId : PyStr
  owner : PyStr
  pc : Pc

namespace Broker
variable (b : Broker)

/-- The immutable binding of the candidate is not the thread and the turn the broker looks at. -/
def bindingGone (m : Message) (activeTurn : PyStr) : Bool :=
  (m.expectedThreadId.isSome || m.expectedTurnId.isSome) &&
    (m.expectedThreadId.getD [] == [] || m.expectedTurnId.getD [] == [] ||
      decide (m.fallback ≠ .fail) || decide (m.kind ≠ .message) ||
      decide (m.expectedThreadId ≠ some b.threadId) || decide (m.expectedTurnId ≠ some activeTurn))

/-- A receipt for the candidate, under the broker's claim. -/
def receipt (row : Row) (state : DeliveryState) (turnId : Option PyStr) (detail : Option PyStr) : Record :=
  ⟨row.message.messageId, state, some b.threadId, turnId, detail, some .routing, row.delivery.claimOwner⟩

/-- The candidate of a turn of the loop in which no turn is active. -/
def withoutTurn (row : Row) : Record :=
  if row.message.fallback = .fail ∨ row.message.kind = .interrupt then
    b.receipt row .failed none (some "target has no active turn".toList)
  else b.receipt row .queued none (some "waiting for next active turn".toList)

/-- The request for the candidate. -/
def request (m : Message) (activeTurn : PyStr) : Rpc :=
  if m.kind = .interrupt then .interrupt b.threadId activeTurn
  else .steer b.threadId activeTurn m.body (clientMessageId m.messageId)

/-- What is recorded of the request's answer. -/
def afterAnswer (row : Row) (activeTurn : PyStr) : Answer → Record
  | .result turnId =>
    if row.message.kind = .interrupt then
      b.receipt row .interruptAccepted (some activeTurn) (some "explicit owner interrupt accepted".toList)
    else if turnId = some activeTurn then b.receipt row .steerAccepted (some activeTurn) none
    else b.receipt row .deliveryUnknown (some activeTurn)
      (some "turn/steer did not attest the expected turn id".toList)
  | .rejected detail =>
    if row.message.fallback = .queue ∧ row.message.kind = .message then
      b.receipt row .queued none (some detail)
    else b.receipt row .failed none (some detail)
  | .lost detail => b.receipt row .deliveryUnknown (some activeTurn) (some detail)

end Broker

/-- A request that was sent, and the message it was sent for. -/
structure Submission where
  messageId : PyStr
  rpc : Rpc
  deriving DecidableEq

/-- The ledger, the brokers on it, the turns that the client holds for active, and what was sent. -/
structure Routing where
  ledger : Ledger
  brokers : List Broker
  activeTurns : PyStr → Option PyStr
  sent : List Submission

namespace Routing
variable (s : Routing)

/-- The next state of a broker, with the ledger after its transaction; where that raised, the broker
stops. -/
def moved (i : Nat) (b : Broker) (pc : Pc) (l : Except HotJoinError Ledger) : Routing :=
  match l with
  | .ok l => { s with ledger := l, brokers := s.brokers.set i { b with pc := pc } }
  | .error _ => { s with brokers := s.brokers.set i { b with pc := .stopped } }

/-- The next step of a broker: one read of the active turns, one transaction, or one request. -/
def move (i : Nat) (b : Broker) (now leaseNs : Nat) (answer : Answer) : Routing :=
  match b.pc with
  | .reconciling [] _ => s.moved i b .idle (.ok s.ledger)
  | .reconciling (row :: rows) reading =>
    s.moved i b (.reconciling rows reading) (reconcileRow s.ledger b.threadId reading row now)
  | .idle => s.moved i b (.observed (s.activeTurns b.threadId)) (.ok s.ledger)
  | .observed activeTurn =>
    match claim s.ledger ⟨b.target, b.owner, activeTurn.isSome, leaseNs, some b.threadId, activeTurn⟩ now with
    | .ok (none, l) => s.moved i b .idle (.ok l)
    | .ok (some row, l) => s.moved i b (.claimed row activeTurn) (.ok l)
    | .error e => s.moved i b .stopped (.error e)
  | .claimed row none => s.moved i b .idle (s.ledger.recordInTx (b.withoutTurn row) now)
  | .claimed row (some activeTurn) =>
    if b.bindingGone row.message activeTurn then
      s.moved i b .idle (s.ledger.recordInTx (b.receipt row .failed (some activeTurn)
        (some "exact-turn encouragement binding is no longer active".toList)) now)
    else { s with
      brokers := s.brokers.set i { b with pc := .sent row activeTurn }
      sent := s.sent ++ [⟨row.message.messageId, b.request row.message activeTurn⟩] }
  | .sent row activeTurn =>
    s.moved i b .idle (s.ledger.recordInTx (b.afterAnswer row activeTurn answer) now)
  | .stopped => s

/-- What happens to a ledger and its brokers. A turn that the client sees start or end, the paid-turn
intents, and a terminal snapshot for `complete_turn` (also the one a broker takes after a receipt) come
from outside. -/
inductive Event where
  | enqueue (target body : PyStr) (clientId : Option PyStr) (fallback : Fallback) (kind : MessageKind)
      (fresh : Fresh) (now : Nat)
  | enqueueEncouragement (target note : PyStr) (clientId : Option PyStr) (fresh : Fresh) (now : Nat)
  | intents (intents : List RoundIntent)
  | setThreadId (target threadId : PyStr)
  | removeThreadId (target expectedThreadId : PyStr)
  | completeTurn (threadId turnId status : PyStr) (now : Nat)
  | finalizeRound (clientId threadId turnId status : PyStr) (now : Nat)
  | turn (threadId : PyStr) (activeTurn : Option PyStr)
  | start (target threadId owner : PyStr) (reading : Reading)
  | move (broker now leaseNs : Nat) (answer : Answer)
  | stop (broker : Nat)

/-- The ledger after a transaction that may raise. -/
def committed (l : Except HotJoinError Ledger) : Routing :=
  match l with
  | .ok l => { s with ledger := l }
  | .error _ => s

def step : Event → Routing
  | .enqueue target body clientId fallback kind fresh now =>
    s.committed ((HotJoin.enqueue s.ledger target body clientId fallback kind fresh now).map Prod.snd)
  | .enqueueEncouragement target note clientId fresh now =>
    s.committed ((HotJoin.enqueueEncouragement s.ledger target note clientId fresh now).map Prod.snd)
  | .intents intents => { s with ledger := { s.ledger with intents := intents } }
  | .setThreadId target threadId => s.committed (HotJoin.setThreadId s.ledger target threadId)
  | .removeThreadId target expected => s.committed (HotJoin.removeThreadId s.ledger target expected)
  | .completeTurn threadId turnId status now =>
    s.committed (HotJoin.completeTurn s.ledger threadId turnId status now)
  | .finalizeRound clientId threadId turnId status now =>
    s.committed (HotJoin.finalizeRound s.ledger clientId threadId turnId status now)
  | .turn threadId activeTurn =>
    { s with activeTurns := fun t => if t = threadId then activeTurn else s.activeTurns t }
  | .start target threadId owner reading => { s with brokers := s.brokers ++
      [⟨target, threadId, owner, .reconciling (recoveryForTarget s.ledger target) reading⟩] }
  | .move i now leaseNs answer =>
    match s.brokers[i]? with
    | some b => s.move i b now leaseNs answer
    | none => s
  | .stop i =>
    match s.brokers[i]? with
    | some b => { s with brokers := s.brokers.set i { b with pc := .stopped } }
    | none => s

/-- An empty ledger without brokers. -/
def initial : Routing := ⟨⟨[], [], [], []⟩, [], fun _ => none, []⟩

def machine : Machine Routing Event where
  start s := s = initial
  step s event t := t = s.step event

end Routing
end Danus.HotJoin
