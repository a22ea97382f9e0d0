import Danus.Coordination.Store
import Danus.HotJoin.PaidTurns
import Mathlib.Logic.Function.Basic

/-! The worker loop of a reasoning-first project, one durable step after another, over the
coordination store and the paid-turn ledger, with its owner's actions and its crashes. -/
namespace Danus.WorkerLoop
open Python Coordination HotJoin Machines

inductive Transport where
  | exec | appServer
  deriving DecidableEq, Repr

/-- `MODEL` and `REASONING_EFFORT` of the worker's role. -/
structure Role where
  model : PyStr
  effort : PyStr
  deriving DecidableEq

/-- A round of a worker process, from its admission on. -/
structure Round where
  transport : Transport
  role : Role
  admission : Admission

/-- A `codex exec` that was spawned, or a `turn/start` that was sent. -/
structure Launch where
  transport : Transport
  slotId : PyStr
  deriving DecidableEq

/-- What a worker process does next. `rc` is the return code of a round that has ended. -/
inductive Pc where
  | stopped
  | admitting (transport : Transport) (role : Role)
  | admitted (r : Round)
  | reading (r : Round) (rc : Option Int)
  | looking (r : Round) (rc : Option Int) (threadId : Option PyStr)
  | activating (r : Round)
  | spawning (r : Round)
  | running (r : Round)
  | preparing (r : Round)
  | mapped (r : Round) (pending : Option PaidIntent)
  | connecting (r : Round) (stored : Option PyStr)
  | persisting (r : Round) (threadId : PyStr)
  | intending (r : Round) (threadId : PyStr)
  | locating (r : Round) (i : PaidIntent)
  | dispatching (r : Round) (i : PaidIntent)
  | sending (r : Round) (i : PaidIntent)
  | awaiting (r : Round) (i : PaidIntent)
  | concluding (r : Round) (i : PaidIntent) (turnId : Option PyStr)
  | reconciling (r : Round) (outcome : PyStr)
  | completing (r : Round) (outcome : PyStr)
  | faulting (slotId : PyStr)

/-- What `turn/start` comes back with. -/
inductive StartAnswer where
  | turn (turnId : PyStr)
  | refused
  | lost

/-- What a step gets from outside: clocks, fresh ids, texts, and what App Server answers. -/
structure Outside where
  uuid : PyStr
  now : Stamp
  clock : Int
  nowNs : Nat
  prompt : PyStr
  entries : List Json
  rc : Int
  threadId : PyStr
  located : Option (PyStr × Bool)
  answer : StartAnswer
  terminal : Option PyStr
  payload : PyStr

namespace Round
variable (r : Round)

def slotId : PyStr := r.admission.slotId

def binding : SlotBinding := ⟨r.admission.slotId, r.admission.generation, r.admission.lane⟩

/-- `hashlib.sha256(prompt.encode("utf-8")).hexdigest()` -/
def promptSha256 : PyStr := Sha256.hexdigest (encodeUtf8 (r.admission.prompt.getD []))

/-- The receipt lookup of this round. -/
def query (worker : PyStr) (threadId : Option PyStr) : SlotQuery where
  binding := r.binding
  target := worker
  promptSha256 := r.admission.promptSha256.getD []
  requestedModel := r.role.model
  requestedEffort := r.role.effort
  threadId := threadId

/-- The paid intent of this round. -/
def request (worker threadId : PyStr) : RoundRequest where
  target := worker
  threadId := threadId
  promptSha256 := r.promptSha256
  requestedModel := r.role.model
  requestedEffort := r.role.effort
  binding := some r.binding

end Round

/-- `terminal_rc_{rc}` -/
def terminalOutcome (rc : Int) : PyStr := "terminal_rc_".toList ++ Json.intText rc

/-- The loop after `admit`: nothing to do yet, an exec slot of unknown outcome, or a round. -/
def afterAdmission (t : Transport) (role : Role) : StoreReply → Pc
  | .admission (some a) =>
    if t = .exec ∧ a.resumed = true ∧ (a.state = .active ∨ a.state = .ambiguous) then .stopped
    else .admitted ⟨t, role, a⟩
  | _ => .admitting t role

/-- The loop after `pin_prompt`. -/
def afterPin (r : Round) : StoreReply → Pc
  | .admission (some a) => .admitted { r with admission := a }
  | _ => .faulting r.slotId

/-- The loop after `activate`. -/
def afterActivation (r : Round) : StoreReply → Pc
  | .admission (some a) =>
    match r.transport with
    | .exec => .spawning { r with admission := a }
    | .appServer => .preparing { r with admission := a }
  | _ => .faulting r.slotId

/-- The loop after the receipt lookup at the start of a round, or at its end with `rc`. -/
def afterLookup (r : Round) (rc : Option Int) : Except HotJoinError (Option SlotReceipt) → Pc
  | .ok none =>
    match rc with
    | none => .activating r
    | some _ => .faulting r.slotId
  | .ok (some receipt) =>
    if (r.admission.state = .active ∨ r.admission.state = .ambiguous) ∧
        rc.all (fun rc => decide (rc = receipt.effectiveAdapterRc)) = true then
      .reconciling r receipt.outcome
    else .faulting r.slotId
  | .error _ => .faulting r.slotId

/-- Where an exception of the step, or a return before its effect, leads: to the end of the round
with `rc`, to its last audit, or to the fail-stop of the loop. -/
def Pc.raised (rc : Int) : Pc → Pc
  | .admitted r | .reading r _ | .looking r _ _ | .activating r | .reconciling r _ | .completing r _ =>
    .faulting r.slotId
  | .spawning r => .reconciling r (terminalOutcome rc)
  | .preparing r | .mapped r _ | .connecting r _ | .persisting r _ | .intending r _ | .dispatching r _ =>
    .reading r (some rc)
  | .locating r i | .sending r i | .awaiting r i => .concluding r i none
  | pc => pc

/-- The two ledgers, the process of every worker, and the paid launches so far, newest first. -/
structure System where
  db : Database
  ledger : PaidLedger
  procs : PyStr → Pc
  launches : List Launch

namespace System
variable (S : CoordinationStore) (s : System)

def goto (worker : PyStr) (pc : Pc) : System := { s with procs := Function.update s.procs worker pc }

/-- A call of the coordination store, and where its reply or its error leads. -/
def called (worker : PyStr) (call : StoreCall) (next : StoreReply → Pc) (raised : Pc) : System :=
  match S.perform call s.db with
  | (.ok reply, db) => { s with db := db }.goto worker (next reply)
  | (.error _, db) => { s with db := db }.goto worker raised

/-- A transaction of the paid-turn ledger, and where its commit or its error leads. -/
def recorded (worker : PyStr) (l : Except HotJoinError PaidLedger) (next raised : Pc) : System :=
  match l with
  | .ok l => { s with ledger := l }.goto worker next
  | .error _ => s.goto worker raised

/-- A paid launch for the round's slot. -/
def launch (worker : PyStr) (r : Round) (next : Pc) : System :=
  { s with launches := ⟨r.transport, r.slotId⟩ :: s.launches }.goto worker next

/-- The step of `run_round_app_server` that reads the thread's history for the intent's turn; a
prepared intent needs no history. -/
def locate (worker : PyStr) (r : Round) (i : PaidIntent) (located : Option (PyStr × Bool)) : System :=
  match if i.state = .prepared then none else located with
  | some (turnId, inProgress) =>
    if inProgress = true ∧ i.state ≠ .started then
      s.recorded worker
        (s.ledger.recordRoundIntent i.clientId .started (some turnId) none (some [i.state]))
        (.concluding r i (some turnId)) (.concluding r i (some turnId))
    else s.goto worker (.concluding r i (some turnId))
  | none =>
    match i.state with
    | .started | .deliveryUnknown => s.goto worker (.concluding r i none)
    | .dispatching =>
      -- an interrupted dispatch is never repeated
      s.recorded worker
        (s.ledger.recordRoundIntent i.clientId .deliveryUnknown none none (some [.dispatching]))
        (.concluding r i none) (.concluding r i none)
    | _ => s.goto worker (.dispatching r i)

/-- The intent after the answer to `turn/start`. -/
def answered (worker : PyStr) (r : Round) (i : PaidIntent) : StartAnswer → System
  | .turn turnId =>
    s.recorded worker
      (s.ledger.recordRoundIntent i.clientId .started (some turnId) none (some [.dispatching]))
      (.concluding r i (some turnId)) (.concluding r i (some turnId))
  | .refused =>
    s.recorded worker (s.ledger.recordRoundIntent i.clientId .failed none none (some [.dispatching]))
      (.concluding r i none) (.concluding r i none)
  | .lost =>
    s.recorded worker
      (s.ledger.recordRoundIntent i.clientId .deliveryUnknown none none (some [.dispatching]))
      (.concluding r i none) (.concluding r i none)

/-- `finalize_turn`: with a terminal snapshot of a known turn the round is finalized, else its
attempt is audited. -/
def conclude (worker : PyStr) (r : Round) (i : PaidIntent) (turnId : Option PyStr) (x : Outside) : System :=
  match turnId, x.terminal with
  | some turnId, some status =>
    s.recorded worker
      (s.ledger.finalizeRound i.clientId x.payload
        ⟨i.threadId, turnId, status, some x.rc, terminalDisposition x.rc⟩ x.nowNs)
      (.reading r (some x.rc)) (.concluding r i turnId)
  | _, _ =>
    s.recorded worker (s.ledger.recordRoundAttemptAudit i.clientId x.payload)
      (.reading r (some x.rc)) (.concluding r i turnId)

/-- The step of a worker's process. -/
def move (worker : PyStr) (x : Outside) : System :=
  match s.procs worker with
  | .stopped => s
  | .admitting t role =>
    s.called S worker (.admitWorker worker x.uuid x.now) (afterAdmission t role) .stopped
  | .admitted r =>
    match r.admission.prompt with
    | none =>
      s.called S worker (.pinPrompt r.slotId x.prompt) (afterPin r) (.faulting r.slotId)
    | some _ =>
      if r.admission.promptSha256 = some r.promptSha256 then
        match r.transport with
        | .exec => s.goto worker (.activating r)
        | .appServer => s.goto worker (.reading r none)
      else s.goto worker (.faulting r.slotId)
  | .reading r rc => s.goto worker (.looking r rc (s.ledger.thread? worker))
  | .looking r rc threadId =>
    s.goto worker (afterLookup r rc (s.ledger.terminalReceiptForSlot (r.query worker threadId)))
  | .activating r =>
    s.called S worker (.activate r.slotId x.now) (afterActivation r) (.faulting r.slotId)
  | .spawning r => s.launch worker r (.running r)
  | .running r => s.goto worker (.reconciling r (terminalOutcome x.rc))
  | .preparing r => s.goto worker (.mapped r (s.ledger.unfinished? worker))
  | .mapped r pending =>
    let stored := s.ledger.thread? worker
    if pending.all (fun i => stored.any fun threadId => (r.request worker threadId).fits i) then
      s.goto worker (.connecting r stored)
    else s.goto worker (.reading r (some 126))
  | .connecting r (some threadId) => s.goto worker (.intending r threadId)
  | .connecting r none => s.goto worker (.persisting r x.threadId)
  | .persisting r threadId =>
    s.recorded worker (s.ledger.setThreadId worker threadId) (.intending r threadId)
      (.reading r (some 123))
  | .intending r threadId =>
    match s.ledger.roundIntent (r.request worker threadId) x.uuid with
    | .ok (i, l) => { s with ledger := l }.goto worker (.locating r i)
    | .error _ => s.goto worker (.reading r (some 123))
  | .locating r i => s.locate worker r i x.located
  | .dispatching r i =>
    s.recorded worker (s.ledger.recordRoundIntent i.clientId .dispatching none none (some [i.state]))
      (.sending r i) (.concluding r i none)
  | .sending r i => s.launch worker r (.awaiting r i)
  | .awaiting r i => s.answered worker r i x.answer
  | .concluding r i turnId => s.conclude worker r i turnId x
  | .reconciling r outcome =>
    s.called S worker (.reconcileTerminalMemoryEntries r.slotId worker x.uuid x.entries x.now)
      (fun _ => .completing r outcome) (.faulting r.slotId)
  | .completing r outcome =>
    s.called S worker (.complete r.slotId outcome x.now x.clock)
      (fun _ => .admitting r.transport r.role) (.faulting r.slotId)
  | .faulting slotId =>
    s.called S worker (.markAmbiguous slotId x.clock) (fun _ => .stopped) .stopped

end System

/-- The owner's recovery actions on the paid-turn ledger. -/
inductive OwnerAction where
  | clear (target expectedThreadId detail : PyStr)
  | rotate (target expectedThreadId reason : PyStr)
  | abandon (target threadId clientId : PyStr) (expectedState : IntentState) (reason : PyStr)
      (acknowledged : Bool)
  | cancel (target threadId clientId reason : PyStr)

def OwnerAction.perform [AppServer.Redaction] (l : PaidLedger) : OwnerAction → Except HotJoinError PaidLedger
  | .clear target expected detail => l.clearThreadId target expected detail
  | .rotate target expected reason => l.rotateThreadId target expected reason
  | .abandon target threadId clientId expectedState reason acknowledged =>
    l.abandonRoundIntent target threadId clientId expectedState reason acknowledged
  | .cancel target threadId clientId reason => l.cancelPreparedRoundIntent target threadId clientId reason

end Danus.WorkerLoop

namespace Danus.Coordination

/-- The calls that only the worker loop makes. -/
def StoreCall.ofLoop : StoreCall → Bool
  | .admitWorker .. | .pinPrompt .. | .activate .. | .markAmbiguous .. | .complete ..
  | .reconcileTerminalMemoryEntries .. => true
  | _ => false

end Danus.Coordination

namespace Danus.WorkerLoop
open Python Coordination HotJoin Machines

/-- A worker process starts, takes a step, has a step raise, or crashes; the owner acts on the
paid-turn ledger; the broker writes message receipts; other parties call the coordination store. A
worker's process is started only where it has none, as the launcher's pid lock sees to. -/
inductive Event where
  | start (worker : PyStr) (transport : Transport) (role : Role)
  | move (worker : PyStr) (x : Outside)
  | raises (worker : PyStr) (rc : Int)
  | crash (worker : PyStr)
  | owner (action : OwnerAction)
  | deliver (deliveries : List Delivery)
  | store (call : StoreCall)

namespace System
variable (S : CoordinationStore) [AppServer.Redaction] (s : System)

def step : Event → System
  | .start worker transport role =>
    match s.procs worker with
    | .stopped => s.goto worker (.admitting transport role)
    | _ => s
  | .move worker x => s.move S worker x
  | .raises worker rc => s.goto worker ((s.procs worker).raised rc)
  | .crash worker => s.goto worker .stopped
  | .owner action =>
    match action.perform s.ledger with
    | .ok l => { s with ledger := l }
    | .error _ => s
  | .deliver deliveries => { s with ledger := { s.ledger with deliveries := deliveries } }
  | .store call => if call.ofLoop then s else { s with db := (S.perform call s.db).2 }

/-- A fresh project: no slot, no intent, no process. -/
def machine : Machine System Event where
  start s := S.machine.start s.db ∧ s.ledger = .initial ∧ s.procs = (fun _ => .stopped) ∧ s.launches = []
  step s event t := t = s.step S event

end System
end Danus.WorkerLoop
