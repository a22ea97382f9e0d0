import Danus.Coordination.Policy
import Danus.HotJoin.AppServer
import Danus.HotJoin.Ledger

/-! The paid-turn half of the hot-join ledger: the intents of the workers, their threads, and the
receipts that close a coordination slot. -/
namespace Danus.HotJoin
open Python Coordination

/-- `_COORDINATION_SLOT_RE` -/
def isCoordinationSlot : PyStr → Bool
  | [] => false
  | c :: cs => isAlnumAscii c && decide (cs.length ≤ 127) &&
    cs.all fun c => isAlnumAscii c || c == '_' || c == '.' || c == ':' || c == '-'

/-- The three coordination columns of an intent, which are given together. -/
structure SlotBinding where
  slotId : PyStr
  generation : Nat
  lane : Lane
  deriving DecidableEq

/-- `_validate_coordination_binding` -/
def validateCoordinationBinding : Option SlotBinding → Except HotJoinError Unit
  | none => .ok ()
  | some b =>
    if isCoordinationSlot b.slotId = true ∧ 1 ≤ b.generation ∧ b.lane ≠ .observer then .ok ()
    else .error (.value "coordination slot, generation, and lane must be supplied exactly")

/-- A row of `round_intents`, without its times. -/
structure PaidIntent where
  clientId : PyStr
  target : PyStr
  threadId : PyStr
  promptSha256 : PyStr
  requestedModel : PyStr
  requestedEffort : PyStr
  binding : Option SlotBinding
  turnId : Option PyStr
  state : IntentState
  terminalStatus : Option PyStr
  deriving DecidableEq

/-- The coordination slot an intent is bound to. -/
def PaidIntent.slot (i : PaidIntent) : Option PyStr := i.binding.map (·.slotId)

/-- `state IN ('prepared','dispatching','started','delivery_unknown')` -/
def PaidIntent.unfinished (i : PaidIntent) : Bool := decide (i.state ≠ .completed ∧ i.state ≠ .failed)

inductive ThreadAction where
  | set | cleared | rotated | retiredCoordinationTerminal
  deriving DecidableEq, Repr

/-- A row of `worker_thread_events`. -/
structure ThreadEvent where
  seq : Nat
  target : PyStr
  action : ThreadAction
  threadId : PyStr
  detail : Option PyStr
  deriving DecidableEq

/-- A row of `round_audit_events` of kind `final`; nothing reads the attempts. -/
structure FinalAudit where
  clientId : PyStr
  payload : PyStr
  payloadSha256 : PyStr
  deriving DecidableEq

inductive OperatorAction where
  | cancelledNotDispatched | abandonedOutcomeUnknown
  deriving DecidableEq, Repr

/-- A row of `round_operator_events`. -/
structure OperatorEvent where
  seq : Nat
  action : OperatorAction
  clientId : PyStr
  target : PyStr
  threadId : PyStr
  priorState : IntentState
  reason : PyStr
  acknowledged : Bool
  deriving DecidableEq

/-- What a terminal receipt attests, of an intent and its final audit. -/
structure TerminalMaterial where
  binding : SlotBinding
  clientId : PyStr
  target : PyStr
  threadId : PyStr
  turnId : PyStr
  promptSha256 : PyStr
  requestedModel : PyStr
  requestedEffort : PyStr
  effectiveAdapterRc : Int
  disposition : PyStr
  terminalStatus : PyStr
  auditPayloadSha256 : PyStr
  threadRetirementEventSeq : Nat
  deriving DecidableEq

/-- A row of `round_terminal_receipts`. -/
structure TerminalReceipt where
  receiptSha256 : PyStr
  material : TerminalMaterial
  deriving DecidableEq

/-- What an operator receipt attests, of an intent and the operator's event. -/
structure OperatorMaterial where
  binding : SlotBinding
  clientId : PyStr
  target : PyStr
  threadId : PyStr
  turnId : Option PyStr
  promptSha256 : PyStr
  requestedModel : PyStr
  requestedEffort : PyStr
  operatorEventSeq : Nat
  operatorAction : OperatorAction
  priorState : IntentState
  acknowledged : Bool
  reasonSha256 : PyStr
  terminalStatus : PyStr
  coordinationOutcome : PyStr
  effectiveAdapterRc : Int
  disposition : PyStr
  deriving DecidableEq

/-- A row of `round_coordination_operator_receipts`. -/
structure OperatorReceipt where
  receiptSha256 : PyStr
  material : OperatorMaterial
  deriving DecidableEq

/-- The tables of the paid turns, the newest intent first, with the deliveries that a terminal also
writes; `round_events` is only appended to. -/
structure PaidLedger where
  intents : List PaidIntent
  workerThreads : List (PyStr × PyStr)
  threadEvents : List ThreadEvent
  audits : List FinalAudit
  terminalReceipts : List TerminalReceipt
  operatorEvents : List OperatorEvent
  operatorReceipts : List OperatorReceipt
  deliveries : List Delivery
  deriving DecidableEq

def IntentState.text : IntentState → PyStr
  | .prepared => "prepared".toList
  | .dispatching => "dispatching".toList
  | .started => "started".toList
  | .deliveryUnknown => "delivery_unknown".toList
  | .completed => "completed".toList
  | .failed => "failed".toList

def OperatorAction.text : OperatorAction → PyStr
  | .cancelledNotDispatched => "cancelled_not_dispatched".toList
  | .abandonedOutcomeUnknown => "abandoned_outcome_unknown".toList

/-- An entry of `_COORDINATION_OPERATOR_DISPOSITIONS`. -/
structure OperatorPolicy where
  terminalStatus : PyStr
  coordinationOutcome : PyStr
  effectiveAdapterRc : Int
  disposition : PyStr
  priorStates : List IntentState
  acknowledged : Bool

/-- `_COORDINATION_OPERATOR_DISPOSITIONS` -/
def OperatorAction.policy : OperatorAction → OperatorPolicy
  | .cancelledNotDispatched => {
    terminalStatus := "owner_cancelled_not_dispatched".toList
    coordinationOutcome := "operator_cancelled_not_dispatched".toList
    effectiveAdapterRc := 126
    disposition := "owner_cancelled_not_dispatched".toList
    priorStates := [.prepared]
    acknowledged := false }
  | .abandonedOutcomeUnknown => {
    terminalStatus := "owner_abandoned_outcome_unknown".toList
    coordinationOutcome := "operator_abandoned_outcome_unknown".toList
    effectiveAdapterRc := 126
    disposition := "owner_abandoned_outcome_unknown".toList
    priorStates := [.dispatching, .started, .deliveryUnknown]
    acknowledged := true }

/-- `_COORDINATION_TERMINAL_DISPOSITIONS` -/
def terminalDisposition (rc : Int) : Option PyStr :=
  [((0 : Int), "completed".toList), (123, "protocol_failure".toList), (124, "hard_timeout".toList),
    (125, "model_rerouted_or_unattested".toList), (130, "owner_stop".toList)].lookup rc

/-- `_terminal_receipt_material` and `_coordination_operator_receipt_material`, hashed. -/
def receiptDigest (fields : List (PyStr × Json)) : PyStr :=
  Sha256.hexdigest (Json.preimage (Json.compact true true) (.obj fields))

def SlotBinding.fields (b : SlotBinding) : List (PyStr × Json) :=
  [("coordination_slot_id".toList, .str b.slotId), ("coordination_generation".toList, .int b.generation),
    ("coordination_lane".toList, .str b.lane.text)]

def TerminalMaterial.digest (m : TerminalMaterial) : PyStr :=
  receiptDigest (m.binding.fields ++ [
    ("schema".toList, .str "danus.coordination-terminal-receipt.v1".toList),
    ("client_id".toList, .str m.clientId), ("target".toList, .str m.target),
    ("thread_id".toList, .str m.threadId), ("turn_id".toList, .str m.turnId),
    ("prompt_sha256".toList, .str m.promptSha256), ("requested_model".toList, .str m.requestedModel),
    ("requested_effort".toList, .str m.requestedEffort),
    ("effective_adapter_rc".toList, .int m.effectiveAdapterRc),
    ("disposition".toList, .str m.disposition), ("terminal_status".toList, .str m.terminalStatus),
    ("audit_payload_sha256".toList, .str m.auditPayloadSha256),
    ("thread_retirement_event_seq".toList, .int m.threadRetirementEventSeq)])

def OperatorMaterial.digest (m : OperatorMaterial) : PyStr :=
  receiptDigest (m.binding.fields ++ [
    ("schema".toList, .str "danus.coordination-operator-receipt.v1".toList),
    ("client_id".toList, .str m.clientId), ("target".toList, .str m.target),
    ("thread_id".toList, .str m.threadId), ("turn_id".toList, .ofOption m.turnId),
    ("prompt_sha256".toList, .str m.promptSha256), ("requested_model".toList, .str m.requestedModel),
    ("requested_effort".toList, .str m.requestedEffort),
    ("operator_event_seq".toList, .int m.operatorEventSeq),
    ("operator_action".toList, .str m.operatorAction.text),
    ("prior_state".toList, .str m.priorState.text),
    ("acknowledged_paid_outcome_unknown".toList, .int (if m.acknowledged then 1 else 0)),
    ("reason_sha256".toList, .str m.reasonSha256), ("terminal_status".toList, .str m.terminalStatus),
    ("coordination_outcome".toList, .str m.coordinationOutcome),
    ("effective_adapter_rc".toList, .int m.effectiveAdapterRc),
    ("disposition".toList, .str m.disposition)])

/-- `bytes.splitlines()` -/
def byteLinesFrom (line : List Nat) : List Nat → List (List Nat)
  | [] => if line = [] then [] else [line.reverse]
  | 13 :: 10 :: rest => line.reverse :: byteLinesFrom [] rest
  | b :: rest =>
    if b = 10 ∨ b = 13 then line.reverse :: byteLinesFrom [] rest else byteLinesFrom (b :: line) rest

def maxRoundAuditBytes : Nat := 8 * 1024 * 1024

/-- `_audit_material`: the digest of a payload whose lines are all JSON objects. -/
def auditMaterial (payload : PyStr) : Except HotJoinError PyStr :=
  let encoded := encodeUtf8 payload
  if encoded = [] ∨ maxRoundAuditBytes < encoded.length then
    .error (.hotJoin "round audit is empty or exceeds its hard byte limit")
  else if (byteLinesFrom [] encoded).all (fun line => (AppServer.strictJson line).toOption.isSome) then
    .ok (Sha256.hexdigest encoded)
  else .error (.protocol "invalid app-server JSONL")

/-- `value == i` of a JSON value that is no float. -/
def equalsInt (i : Int) : Json → Bool
  | .int j => decide (j = i)
  | .bool b => decide ((if b then 1 else 0) = i)
  | _ => false

/-- `value == s` -/
def equalsText (s : PyStr) : Json → Bool
  | .str t => decide (t = s)
  | _ => false

/-- What the header of a terminal audit has to bind. -/
structure AuditBinding where
  threadId : PyStr
  turnId : PyStr
  terminalStatus : PyStr
  requestedModel : PyStr
  requestedEffort : PyStr
  effectiveAdapterRc : Int
  disposition : PyStr

/-- `_validate_coordination_terminal_audit_header` -/
def validateAuditHeader (payload : PyStr) (b : AuditBinding) : Except HotJoinError Unit :=
  match byteLinesFrom [] (encodeUtf8 payload) with
  | [] => .error (.hotJoin "terminal coordination audit has no header")
  | line :: _ =>
    match AppServer.strictJson line with
    | .error _ => .error (.protocol "invalid app-server JSONL")
    | .ok header =>
      let texts := [("event".toList, "turn_completed".toList), ("thread_id".toList, b.threadId),
        ("turn_id".toList, b.turnId), ("status".toList, b.terminalStatus),
        ("requested_model".toList, b.requestedModel), ("requested_effort".toList, b.requestedEffort),
        ("coordination_disposition".toList, b.disposition)]
      if (header.lookup "terminal_observed".toList).any (fun v => match v with
            | .bool true => true
            | _ => false) &&
          texts.all (fun p => (header.lookup p.1).any (equalsText p.2)) &&
          (header.lookup "effective_adapter_rc".toList).any (equalsInt b.effectiveAdapterRc) then .ok ()
      else .error (.hotJoin "terminal coordination audit binding conflicts")

namespace PaidLedger
variable (l : PaidLedger)

/-- The ledger of a fresh project. -/
def initial : PaidLedger := ⟨[], [], [], [], [], [], [], []⟩

/-- `thread_id` -/
def thread? (target : PyStr) : Option PyStr := l.workerThreads.lookup target

def intent? (clientId : PyStr) : Option PaidIntent :=
  l.intents.find? fun i => decide (i.clientId = clientId)

/-- The intent of a coordination slot. -/
def bound? (slotId : PyStr) : Option PaidIntent :=
  l.intents.find? fun i => decide (i.slot = some slotId)

/-- The newest unfinished intent of a worker. -/
def unfinished? (target : PyStr) : Option PaidIntent :=
  l.intents.find? fun i => decide (i.target = target) && i.unfinished

/-- The next `worker_thread_events` row. -/
def threadEvent (target : PyStr) (action : ThreadAction) (threadId : PyStr) (detail : Option PyStr) :
    ThreadEvent := ⟨l.threadEvents.length + 1, target, action, threadId, detail⟩

/-- `set_thread_id` -/
def setThreadId (target threadId : PyStr) : Except HotJoinError PaidLedger :=
  if threadId = [] then .error (.value "empty thread id")
  else do
    validateTarget target
    return { l with
      workerThreads := (target, threadId) :: l.workerThreads.filter fun p => decide (p.1 ≠ target)
      threadEvents := l.threadEvents ++ [l.threadEvent target .set threadId none] }

variable [AppServer.Redaction]

/-- `_remove_thread_id` -/
def removeThreadId (target expectedThreadId detail : PyStr) (action : ThreadAction) :
    Except HotJoinError PaidLedger := do
  validateTarget target
  if expectedThreadId = [] then throw (.value "expected thread id is required")
  match l.thread? target with
  | none => throw (.hotJoin "worker has no persisted app-server thread")
  | some actual =>
    if actual ≠ expectedThreadId then
      throw (.stale "persisted app-server thread changed concurrently")
    if (l.unfinished? target).isSome then
      throw (.hotJoin "cannot clear thread with unfinished paid-turn intent")
    return { l with
      workerThreads := l.workerThreads.filter fun p => decide (p.1 ≠ target)
      threadEvents := l.threadEvents ++
        [l.threadEvent target action expectedThreadId (some (AppServer.Redaction.redact detail))] }

/-- `clear_thread_id` -/
def clearThreadId (target expectedThreadId detail : PyStr) : Except HotJoinError PaidLedger :=
  l.removeThreadId target expectedThreadId detail .cleared

/-- `rotate_thread_id` -/
def rotateThreadId (target expectedThreadId reason : PyStr) : Except HotJoinError PaidLedger :=
  if strip reason = [] then .error (.value "rotation reason is required")
  else l.removeThreadId target expectedThreadId (strip reason) .rotated

end PaidLedger

/-- What `round_intent` is asked for. -/
structure RoundRequest where
  target : PyStr
  threadId : PyStr
  promptSha256 : PyStr
  requestedModel : PyStr
  requestedEffort : PyStr
  binding : Option SlotBinding

/-- The intent is one for this request. -/
def RoundRequest.fits (r : RoundRequest) (i : PaidIntent) : Bool :=
  decide (i.target = r.target ∧ i.threadId = r.threadId ∧ i.promptSha256 = r.promptSha256 ∧
    i.requestedModel = r.requestedModel ∧ i.requestedEffort = r.requestedEffort ∧ i.binding = r.binding)

/-- The row that `round_intent` inserts. -/
def RoundRequest.prepared (r : RoundRequest) (uuid : PyStr) : PaidIntent where
  clientId := "danus-round:".toList ++ uuid
  target := r.target
  threadId := r.threadId
  promptSha256 := r.promptSha256
  requestedModel := r.requestedModel
  requestedEffort := r.requestedEffort
  binding := r.binding
  turnId := none
  state := .prepared
  terminalStatus := none

/-- What the checks before the transactions ask of a prompt digest, a model and an effort. -/
def checkPaidRequest (promptSha256 requestedModel requestedEffort : PyStr) : Except HotJoinError Unit :=
  if isHexOf 64 promptSha256 = false then .error (.value "round prompt digest must be lowercase SHA-256")
  else if requestedModel = [] ∨ requestedEffort = [] then
    .error (.value "round model and effort must be non-empty")
  else .ok ()

namespace PaidLedger
variable (l : PaidLedger)

/-- The insertion of `round_intent`, under the keys of its table. -/
def insertIntent (i : PaidIntent) : Except HotJoinError (PaidIntent × PaidLedger) :=
  if (l.intent? i.clientId).isSome ∨ (i.slot.bind l.bound?).isSome then .error .integrity
  else .ok (i, { l with intents := i :: l.intents })

/-- `round_intent` for a worker whose slot has no intent. -/
def openIntent (r : RoundRequest) (uuid : PyStr) : Except HotJoinError (PaidIntent × PaidLedger) :=
  match l.unfinished? r.target with
  | some row =>
    if r.fits row then .ok (row, l)
    else .error (.hotJoin ("unfinished paid-turn intent conflicts with current " ++
      "thread, prompt, model, effort, or coordination slot"))
  | none =>
    if l.operatorEvents.any fun e => decide (e.target = r.target ∧ e.threadId = r.threadId ∧
        e.action = .abandonedOutcomeUnknown) then
      .error (.hotJoin ("owner abandoned an outcome-unknown paid turn on this thread; " ++
        "reset or rotate the thread before starting another paid turn"))
    else l.insertIntent (r.prepared uuid)

/-- `round_intent` -/
def roundIntent (r : RoundRequest) (uuid : PyStr) : Except HotJoinError (PaidIntent × PaidLedger) := do
  validateTarget r.target
  if r.threadId = [] then throw (.value "empty thread id")
  checkPaidRequest r.promptSha256 r.requestedModel r.requestedEffort
  validateCoordinationBinding r.binding
  match r.binding.bind fun b => l.bound? b.slotId with
  | some row =>
    if r.fits row then return (row, l)
    else throw (.hotJoin "coordination slot conflicts with its durable paid-turn intent")
  | none => l.openIntent r uuid

/-- `UPDATE round_intents SET … WHERE client_id=?` of a row that was just read. -/
def updateIntent (clientId : PyStr) (f : PaidIntent → PaidIntent) : PaidLedger :=
  { l with intents := Rows.update (fun i => decide (i.clientId = clientId)) f l.intents }

/-- `record_round_intent` -/
def recordRoundIntent (clientId : PyStr) (state : IntentState) (turnId terminalStatus : Option PyStr)
    (expectedStates : Option (List IntentState)) : Except HotJoinError PaidLedger :=
  match l.intent? clientId with
  | none => .error (.unknown clientId)
  | some row =>
    if expectedStates.any (fun states => !states.contains row.state) then
      .error (.stale "round intent changed concurrently")
    else if row.binding ≠ none ∧ (state = .completed ∨ state = .failed) then
      .error (.hotJoin ("coordination-bound terminal intents require an exact " ++
        "finalize or operator receipt"))
    else if row.unfinished = false ∧ state ≠ row.state then
      .error (.stale "terminal paid-turn intent cannot be reactivated")
    else .ok (l.updateIntent clientId fun i => { i with
      state := state, turnId := turnId.or i.turnId, terminalStatus := terminalStatus })

/-- `record_round_attempt_audit`: the intent's state after an attempt without a terminal. -/
def recordRoundAttemptAudit (clientId payload : PyStr) : Except HotJoinError PaidLedger := do
  let _ ← auditMaterial payload
  match l.intent? clientId with
  | none => throw (.unknown clientId)
  | some row =>
    if row.state = .prepared then
      if row.binding = none then
        return l.updateIntent clientId fun i => { i with
          state := .failed, terminalStatus := some "not_dispatched".toList }
      else return l
    else if row.state ≠ .completed ∧ row.state ≠ .failed ∧ row.state ≠ .deliveryUnknown then
      return l.updateIntent clientId fun i => { i with state := .deliveryUnknown }
    else return l

end PaidLedger

/-- What `finalize_round` is given besides the intent and the payload. -/
structure Terminal where
  threadId : PyStr
  turnId : PyStr
  terminalStatus : PyStr
  effectiveAdapterRc : Option Int
  disposition : Option PyStr

/-- `_validate_terminal_disposition` of the two optional arguments, by whether the intent is bound. -/
def Terminal.adapter (t : Terminal) (bound : Bool) : Except HotJoinError (Option (Int × PyStr)) :=
  match t.effectiveAdapterRc, t.disposition with
  | some rc, some disposition =>
    if terminalDisposition rc = some disposition then .ok (some (rc, disposition))
    else .error (.value "terminal disposition does not match the adapter rc")
  | none, none =>
    if bound then
      .error (.hotJoin "coordination-bound terminal requires an exact adapter disposition")
    else .ok none
  | _, _ =>
    if bound then
      .error (.hotJoin "coordination-bound terminal requires an exact adapter disposition")
    else .error (.hotJoin "terminal adapter disposition is incomplete")

/-- The header that the terminal's audit has to have. -/
def Terminal.header (t : Terminal) (i : PaidIntent) (rc : Int) (disposition : PyStr) : AuditBinding where
  threadId := t.threadId
  turnId := t.turnId
  terminalStatus := t.terminalStatus
  requestedModel := i.requestedModel
  requestedEffort := i.requestedEffort
  effectiveAdapterRc := rc
  disposition := disposition

/-- The audit of a bound intent has that header. -/
def Terminal.checkHeader (t : Terminal) (i : PaidIntent) (adapter : Option (Int × PyStr))
    (payload : PyStr) : Except HotJoinError Unit :=
  match i.binding, adapter with
  | some _, some (rc, disposition) => validateAuditHeader payload (t.header i rc disposition)
  | _, _ => .ok ()

/-- The detail of the thread event that a coordination terminal leaves. -/
def retirementDetail (clientId : PyStr) : PyStr := "coordination_terminal:".toList ++ clientId

/-- The thread event retires exactly this intent's thread. -/
def ThreadEvent.retires (e : ThreadEvent) (i : PaidIntent) : Bool :=
  decide (e.target = i.target ∧ e.threadId = i.threadId ∧ e.action = .retiredCoordinationTerminal ∧
    e.detail = some (retirementDetail i.clientId))

namespace PaidLedger
variable (l : PaidLedger)

def threadEvent? (seq : Nat) : Option ThreadEvent := l.threadEvents.find? fun e => decide (e.seq = seq)

def operatorEvent? (seq : Nat) : Option OperatorEvent :=
  l.operatorEvents.find? fun e => decide (e.seq = seq)

/-- The message receipts of a terminal turn. -/
def completeDeliveries (threadId turnId status : PyStr) (now : Nat) : Except HotJoinError PaidLedger := do
  let messages ← completeTurn ⟨[], l.deliveries, [], []⟩ threadId turnId status now
  return { l with deliveries := messages.deliveries }

/-- The receipt of a bound terminal: the thread is retired with it. -/
def retireWithReceipt (i : PaidIntent) (b : SlotBinding) (t : Terminal) (rc : Int)
    (disposition auditDigest : PyStr) : Except HotJoinError PaidLedger :=
  if l.thread? i.target ≠ some t.threadId then
    .error (.hotJoin "coordination terminal cannot retire a conflicting thread")
  else
    let event := l.threadEvent i.target .retiredCoordinationTerminal t.threadId
      (some (retirementDetail i.clientId))
    let material : TerminalMaterial := {
      binding := b, clientId := i.clientId, target := i.target, threadId := t.threadId, turnId := t.turnId
      promptSha256 := i.promptSha256, requestedModel := i.requestedModel
      requestedEffort := i.requestedEffort, effectiveAdapterRc := rc, disposition := disposition
      terminalStatus := t.terminalStatus, auditPayloadSha256 := auditDigest
      threadRetirementEventSeq := event.seq }
    if l.terminalReceipts.any (fun r => decide (r.material.binding.slotId = b.slotId ∨
        r.material.clientId = i.clientId)) then .error .integrity
    else .ok { l with
      workerThreads := l.workerThreads.filter fun p => decide (p.1 ≠ i.target)
      threadEvents := l.threadEvents ++ [event]
      terminalReceipts := l.terminalReceipts ++ [⟨material.digest, material⟩] }

/-- A terminal that is replayed on a completed bound intent. -/
def replayTerminal (i : PaidIntent) (t : Terminal) (rc : Int) (disposition auditDigest : PyStr) :
    Except HotJoinError PaidLedger :=
  match l.terminalReceipts.find? fun r => decide (r.material.clientId = i.clientId) with
  | none => .error (.hotJoin "completed coordination turn is missing its terminal receipt")
  | some r =>
    if r.material.terminalStatus ≠ t.terminalStatus ∨ r.material.effectiveAdapterRc ≠ rc ∨
        r.material.disposition ≠ disposition ∨ r.material.auditPayloadSha256 ≠ auditDigest then
      .error (.hotJoin "terminal receipt replay conflicts")
    else if (l.thread? i.target).isSome = true ∨
        (l.threadEvent? r.material.threadRetirementEventSeq).any (·.retires i) = false then
      .error (.hotJoin "terminal receipt thread retirement conflicts")
    else .ok l

/-- The end of `finalize_round`, once its audit is canonical. -/
def closeIntent (i : PaidIntent) (t : Terminal) (adapter : Option (Int × PyStr)) (auditDigest : PyStr) :
    Except HotJoinError PaidLedger :=
  if i.unfinished then
    let closed := l.updateIntent i.clientId fun i => { i with
      state := .completed, turnId := some t.turnId, terminalStatus := some t.terminalStatus }
    match i.binding, adapter with
    | some b, some (rc, disposition) => closed.retireWithReceipt i b t rc disposition auditDigest
    | _, _ => .ok closed
  else
    match i.binding, adapter with
    | some _, some (rc, disposition) => l.replayTerminal i t rc disposition auditDigest
    | _, _ => .ok l

/-- The audit that `finalize_round` stores, or the one that is already canonical. -/
def canonicalAudit (clientId payload : PyStr) : FinalAudit :=
  ((l.audits.filter fun a => decide (a.clientId = clientId)).getLast?).getD
    ⟨clientId, payload, Sha256.hexdigest (encodeUtf8 payload)⟩

def storeAudit (a : FinalAudit) : PaidLedger :=
  { l with audits := if a ∈ l.audits then l.audits else l.audits ++ [a] }

/-- `finalize_round` -/
def finalizeRound (clientId payload : PyStr) (t : Terminal) (now : Nat) : Except HotJoinError PaidLedger := do
  let _ ← auditMaterial payload
  match l.intent? clientId with
  | none => throw (.unknown clientId)
  | some intent =>
    validateCoordinationBinding intent.binding
    let adapter ← t.adapter intent.binding.isSome
    if intent.threadId ≠ t.threadId ∨ intent.turnId ≠ none ∧ intent.turnId ≠ some t.turnId then
      throw (.hotJoin "terminal turn conflicts with durable paid-turn intent")
    if intent.state = .failed then
      throw (.hotJoin "a failed paid-turn intent cannot be finalized")
    let audit := l.canonicalAudit clientId payload
    let digest ← auditMaterial audit.payload
    if audit.payloadSha256 ≠ digest then
      throw (.hotJoin "canonical terminal audit digest conflicts")
    t.checkHeader intent adapter audit.payload
    let received ← (l.storeAudit audit).completeDeliveries t.threadId t.turnId t.terminalStatus now
    received.closeIntent intent t adapter digest

end PaidLedger

/-- The texts in which `abandon_round_intent` and `cancel_prepared_round_intent` differ. -/
structure OperatorTexts where
  reasonRequired : String
  reasonTooLong : String
  targetMismatch : String
  threadMismatch : String
  stateChanged : String

namespace PaidLedger
variable (l : PaidLedger)

/-- `_record_coordination_operator_receipt_in_tx`, of an intent that is now `failed`. -/
def recordOperatorReceipt (i : PaidIntent) (e : OperatorEvent) (terminalStatus : PyStr) :
    Except HotJoinError PaidLedger :=
  match i.binding with
  | none => .ok l
  | some b =>
    let policy := e.action.policy
    if e.priorState ∉ policy.priorStates ∨ e.acknowledged ≠ policy.acknowledged ∨
        terminalStatus ≠ policy.terminalStatus ∨ i.state ≠ .failed ∨
        i.terminalStatus ≠ some terminalStatus then
      .error (.hotJoin "coordination operator receipt conflicts with its terminal event")
    else
      let material : OperatorMaterial := {
        binding := b, clientId := i.clientId, target := i.target, threadId := i.threadId
        turnId := i.turnId, promptSha256 := i.promptSha256, requestedModel := i.requestedModel
        requestedEffort := i.requestedEffort, operatorEventSeq := e.seq, operatorAction := e.action
        priorState := e.priorState, acknowledged := e.acknowledged
        reasonSha256 := Sha256.hexdigest (encodeUtf8 e.reason), terminalStatus := terminalStatus
        coordinationOutcome := policy.coordinationOutcome
        effectiveAdapterRc := policy.effectiveAdapterRc, disposition := policy.disposition }
      if l.operatorReceipts.any (fun r => decide (r.material.binding.slotId = b.slotId ∨
          r.material.clientId = i.clientId ∨ r.material.operatorEventSeq = e.seq)) then
        .error .integrity
      else .ok { l with operatorReceipts := l.operatorReceipts ++ [⟨material.digest, material⟩] }

/-- An operator closes exactly the intent, thread and state that were read before. -/
def operatorClose (target threadId clientId : PyStr) (action : OperatorAction) (expectedState : IntentState)
    (reason : PyStr) (texts : OperatorTexts) : Except HotJoinError PaidLedger :=
  match l.intent? clientId with
  | none => .error (.unknown clientId)
  | some row =>
    if row.target ≠ target then .error (.stale texts.targetMismatch)
    else if row.threadId ≠ threadId then .error (.stale texts.threadMismatch)
    else if row.state ≠ expectedState then .error (.stale texts.stateChanged)
    else if l.operatorEvents.any (fun e => decide (e.clientId = clientId ∧ e.action = action)) then
      .error .integrity
    else
      let terminalStatus := action.policy.terminalStatus
      let close := fun i : PaidIntent =>
        { i with state := IntentState.failed, terminalStatus := some terminalStatus }
      let event : OperatorEvent := ⟨l.operatorEvents.length + 1, action, clientId, target, threadId,
        expectedState, reason, action.policy.acknowledged⟩
      let closed := { l.updateIntent clientId close with operatorEvents := l.operatorEvents ++ [event] }
      closed.recordOperatorReceipt (close row) event terminalStatus

variable [AppServer.Redaction]

/-- The checks of both operator actions on their arguments, and the reason they store. -/
def operatorReason (target threadId clientId reason : PyStr) (texts : OperatorTexts) :
    Except HotJoinError PyStr := do
  validateTarget target
  if threadId = [] ∨ 512 < threadId.length then throw (.value "exact thread id is required")
  if clientId = [] ∨ 200 < clientId.length then throw (.value "exact paid-turn client id is required")
  let cleaned := strip reason
  if cleaned = [] then throw (.value texts.reasonRequired)
  if 4096 < utf8Length cleaned then throw (.value texts.reasonTooLong)
  return AppServer.Redaction.redact cleaned

def abandonTexts : OperatorTexts where
  reasonRequired := "owner abandonment reason is required"
  reasonTooLong := "owner abandonment reason exceeds 4096 UTF-8 bytes"
  targetMismatch := "paid-turn target does not match the exact owner CAS"
  threadMismatch := "paid-turn thread does not match the exact owner CAS"
  stateChanged := "paid-turn state changed before owner abandonment"

def cancelTexts : OperatorTexts where
  reasonRequired := "prepared-intent cancellation reason is required"
  reasonTooLong := "prepared-intent cancellation reason exceeds 4096 UTF-8 bytes"
  targetMismatch := "prepared-intent target does not match exact owner CAS"
  threadMismatch := "prepared-intent thread does not match exact owner CAS"
  stateChanged := "prepared intent changed before owner cancellation"

/-- `abandon_round_intent` -/
def abandonRoundIntent (target threadId clientId : PyStr) (expectedState : IntentState) (reason : PyStr)
    (acknowledged : Bool) : Except HotJoinError PaidLedger :=
  if expectedState ∉ OperatorAction.abandonedOutcomeUnknown.policy.priorStates then
    .error (.value "expected state must be dispatching, started, or delivery_unknown")
  else do
    let cleaned ← operatorReason target threadId clientId reason abandonTexts
    if acknowledged = false then throw (.value "--acknowledge-paid-outcome-unknown is required")
    l.operatorClose target threadId clientId .abandonedOutcomeUnknown expectedState cleaned abandonTexts

/-- `cancel_prepared_round_intent` -/
def cancelPreparedRoundIntent (target threadId clientId reason : PyStr) : Except HotJoinError PaidLedger := do
  let cleaned ← operatorReason target threadId clientId reason cancelTexts
  l.operatorClose target threadId clientId .cancelledNotDispatched .prepared cleaned cancelTexts

end PaidLedger

/-- What a worker start asks the ledger about its slot. -/
structure SlotQuery where
  binding : SlotBinding
  target : PyStr
  promptSha256 : PyStr
  requestedModel : PyStr
  requestedEffort : PyStr
  threadId : Option PyStr

/-- The receipt that closes a slot. -/
inductive SlotReceipt where
  | terminal (r : TerminalReceipt)
  | operator (r : OperatorReceipt)
  deriving DecidableEq

def SlotReceipt.effectiveAdapterRc : SlotReceipt → Int
  | .terminal r => r.material.effectiveAdapterRc
  | .operator r => r.material.effectiveAdapterRc

/-- `coordination_outcome` -/
def SlotReceipt.outcome : SlotReceipt → PyStr
  | .terminal r => "terminal_rc_".toList ++ Json.intText r.material.effectiveAdapterRc
  | .operator r => r.material.coordinationOutcome

namespace PaidLedger
variable (l : PaidLedger)

/-- The operator receipt attests exactly this intent and event. -/
def operatorAttests (i : PaidIntent) (b : SlotBinding) (r : OperatorReceipt) (e : OperatorEvent) : Bool :=
  let policy := e.action.policy
  let expected : OperatorMaterial := {
    binding := b, clientId := i.clientId, target := i.target, threadId := i.threadId
    turnId := i.turnId, promptSha256 := i.promptSha256, requestedModel := i.requestedModel
    requestedEffort := i.requestedEffort, operatorEventSeq := e.seq, operatorAction := e.action
    priorState := e.priorState, acknowledged := e.acknowledged
    reasonSha256 := Sha256.hexdigest (encodeUtf8 e.reason)
    terminalStatus := i.terminalStatus.getD "None".toList
    coordinationOutcome := policy.coordinationOutcome
    effectiveAdapterRc := policy.effectiveAdapterRc, disposition := policy.disposition }
  decide (r.material = expected) &&
    decide (e.clientId = i.clientId ∧ e.target = i.target ∧ e.threadId = i.threadId ∧
      e.priorState ∈ policy.priorStates ∧ e.acknowledged = policy.acknowledged ∧
      i.terminalStatus = some policy.terminalStatus) &&
    decide (r.receiptSha256 = expected.digest)

/-- The lookup of a `failed` intent. -/
def operatorTerminal (i : PaidIntent) (b : SlotBinding) (threadId : Option PyStr) :
    Except HotJoinError SlotReceipt :=
  if threadId ≠ some i.threadId ∨ l.thread? i.target ≠ some i.threadId then
    .error (.hotJoin "operator-terminal coordination turn lost its thread mapping")
  else if l.terminalReceipts.any (fun r => decide (r.material.binding.slotId = b.slotId)) then
    .error (.hotJoin "failed coordination turn is missing its exact operator receipt")
  else
    match l.operatorReceipts.filter fun r => decide (r.material.binding.slotId = b.slotId) with
    | [r] =>
      match l.operatorEvent? r.material.operatorEventSeq with
      | none => .error (.hotJoin "coordination operator receipt lost its canonical event")
      | some e =>
        if operatorAttests i b r e then .ok (.operator r)
        else .error (.hotJoin "terminal coordination operator receipt binding conflicts")
    | _ => .error (.hotJoin "failed coordination turn is missing its exact operator receipt")

/-- The terminal receipt attests exactly this intent. -/
def terminalAttests (i : PaidIntent) (b : SlotBinding) (r : TerminalReceipt) : Bool :=
  let m := r.material
  let expected : TerminalMaterial := {
    binding := b, clientId := i.clientId, target := i.target, threadId := i.threadId
    turnId := i.turnId.getD "None".toList, promptSha256 := i.promptSha256
    requestedModel := i.requestedModel, requestedEffort := i.requestedEffort
    effectiveAdapterRc := m.effectiveAdapterRc, disposition := m.disposition
    terminalStatus := i.terminalStatus.getD "None".toList, auditPayloadSha256 := m.auditPayloadSha256
    threadRetirementEventSeq := m.threadRetirementEventSeq }
  decide (m = expected) && decide (terminalDisposition m.effectiveAdapterRc = some m.disposition) &&
    decide (r.receiptSha256 = expected.digest)

/-- The canonical final audit is the one that the receipt names, with the header it needs. -/
def auditAttests (i : PaidIntent) (m : TerminalMaterial) (a : FinalAudit) : Bool :=
  match auditMaterial a.payload with
  | .error _ => false
  | .ok digest => decide (digest = a.payloadSha256 ∧ digest = m.auditPayloadSha256) &&
    (validateAuditHeader a.payload ⟨i.threadId, i.turnId.getD "None".toList,
      i.terminalStatus.getD "None".toList, i.requestedModel, i.requestedEffort, m.effectiveAdapterRc,
      m.disposition⟩).toOption.isSome

/-- The lookup of a `completed` intent. -/
def completedTerminal (i : PaidIntent) (b : SlotBinding) (threadId : Option PyStr) :
    Except HotJoinError SlotReceipt :=
  match l.terminalReceipts.filter fun r => decide (r.material.binding.slotId = b.slotId) with
  | [r] =>
    if l.operatorReceipts.any (fun r => decide (r.material.binding.slotId = b.slotId)) then
      .error (.hotJoin "terminal coordination turn is missing its exact receipt")
    else if threadId ≠ none ∨ l.thread? i.target ≠ none then
      .error (.hotJoin "terminal coordination turn did not retire its thread mapping")
    else if terminalAttests i b r = false then
      .error (.hotJoin "terminal coordination receipt binding conflicts")
    else if (l.threadEvent? r.material.threadRetirementEventSeq).any (·.retires i) = false then
      .error (.hotJoin "terminal coordination receipt lacks exact thread retirement")
    else
      match l.audits.filter fun a => decide (a.clientId = i.clientId) with
      | [a] =>
        if auditAttests i r.material a then .ok (.terminal r)
        else .error (.hotJoin "terminal coordination audit digest conflicts")
      | _ => .error (.hotJoin "terminal coordination receipt lacks one canonical final audit")
  | _ => .error (.hotJoin "terminal coordination turn is missing its exact receipt")

/-- The lookup of an unfinished intent, which has no receipt yet. -/
def unfinishedTerminal (i : PaidIntent) (b : SlotBinding) (threadId : Option PyStr) :
    Except HotJoinError (Option SlotReceipt) :=
  if threadId ≠ some i.threadId ∨ l.thread? i.target ≠ some i.threadId then
    .error (.hotJoin "unfinished coordination turn lost its exact thread mapping")
  else if l.terminalReceipts.any (fun r => decide (r.material.binding.slotId = b.slotId)) ||
      l.operatorReceipts.any (fun r => decide (r.material.binding.slotId = b.slotId)) then
    .error (.hotJoin "unfinished coordination turn has an impossible terminal receipt")
  else .ok none

/-- `terminal_receipt_for_coordination_slot` -/
def terminalReceiptForSlot (q : SlotQuery) : Except HotJoinError (Option SlotReceipt) := do
  validateTarget q.target
  validateCoordinationBinding (some q.binding)
  checkPaidRequest q.promptSha256 q.requestedModel q.requestedEffort
  match l.bound? q.binding.slotId with
  | none => return none
  | some i =>
    if i.target ≠ q.target ∨ i.binding ≠ some q.binding ∨ i.promptSha256 ≠ q.promptSha256 ∨
        i.requestedModel ≠ q.requestedModel ∨ i.requestedEffort ≠ q.requestedEffort then
      throw (.hotJoin "coordination paid-turn intent binding conflicts with admission")
    match i.state with
    | .failed => (l.operatorTerminal i q.binding q.threadId).map some
    | .completed => (l.completedTerminal i q.binding q.threadId).map some
    | _ => l.unfinishedTerminal i q.binding q.threadId

end PaidLedger
end Danus.HotJoin
