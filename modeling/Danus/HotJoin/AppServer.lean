import Danus.Lib.Dict
import Danus.Lib.JsonRead
import Danus.Lib.Machine
import Danus.Lib.Retention
import Danus.Lib.Sha256
import Danus.Lib.Utf8

/-! `AppServerClient`: one reader of the server's lines, and callers that wait for their responses. -/
namespace Danus.HotJoin.AppServer
open Python Machines

def maxJsonlBytes : Nat := 8 * 1024 * 1024
def maxModelReroutesPerTurn : Nat := 8
def maxModelRerouteFieldBytes : Nat := 2048
def maxTrackedTurnIdentities : Nat := 16
def maxObservedClientIds : Nat := 4096

/-- The limits on the notifications that are retained. -/
def retention : Retention.Limits where
  item := 512 * 1024
  count := 20000
  total := 8 * 1024 * 1024
  item_le := by decide
  count_pos := by decide

/-- `redact_external_error` -/
class Redaction where
  redact : PyStr → PyStr

inductive FailureKind where
  | protocol | closed | hostLost
  deriving DecidableEq

/-- What the client raises. -/
structure Failure where
  kind : FailureKind
  message : PyStr
  deriving DecidableEq

abbrev Object : Type := List (PyStr × Json)

def protocol (message : String) : Failure := ⟨.protocol, message.toList⟩

/-- `table[key] = value` -/
def put {κ ν : Type} [BEq κ] (key : κ) (value : ν) (table : List (κ × ν)) : List (κ × ν) :=
  (key, value) :: eraseKey key table

/-- A turn of a thread. -/
abbrev Identity : Type := PyStr × PyStr

/-- `_exact_identity` -/
def exactIdentity (label : String) : Option Json → Except Failure PyStr
  | some (.str value) =>
    if value = [] then .error (protocol (label ++ " must be a nonempty string"))
    else if 512 < utf8Length value then .error (protocol (label ++ " exceeds hard limit"))
    else .ok value
  | _ => .error (protocol (label ++ " must be a nonempty string"))

/-- One side of a token usage; the optional field is last. -/
abbrev Breakdown : Type := List (PyStr × Nat)

structure TokenUsage where
  last : Breakdown
  total : Breakdown
  modelContextWindow : Option Json

def countOf : Option Json → Option Nat
  | some (.int i) => if 0 ≤ i then some i.toNat else none
  | _ => none

def requiredBreakdown : List PyStr := ["cachedInputTokens".toList, "inputTokens".toList,
  "outputTokens".toList, "reasoningOutputTokens".toList, "totalTokens".toList]

/-- `breakdown` of `_canonical_token_usage` -/
def breakdownOf : Option Json → Option Breakdown
  | some (.obj raw) =>
    (requiredBreakdown.mapM fun field => (countOf (raw.lookup field)).map (field, ·)).bind fun required =>
      match raw.lookup "cacheWriteInputTokens".toList with
      | none => some required
      | some v => (countOf (some v)).map fun n => required ++ [("cacheWriteInputTokens".toList, n)]
  | _ => none

/-- `_canonical_token_usage`; nothing where it raises. -/
def canonicalTokenUsage : Option Json → Option TokenUsage
  | some (.obj value) =>
    (breakdownOf (value.lookup "last".toList)).bind fun last =>
      (breakdownOf (value.lookup "total".toList)).bind fun total =>
        match value.lookup "modelContextWindow".toList with
        | none => some ⟨last, total, none⟩
        | some .null => some ⟨last, total, some .null⟩
        | some v => (countOf (some v)).map fun n => ⟨last, total, some (.int n)⟩
  | _ => none

def Breakdown.json (b : Breakdown) : Json := .obj (b.map fun p => (p.1, .int p.2))

def TokenUsage.json (u : TokenUsage) : Json :=
  .obj ([("last".toList, Breakdown.json u.last), ("total".toList, Breakdown.json u.total)] ++
    (match u.modelContextWindow with
      | some window => [("modelContextWindow".toList, window)]
      | none => []))

/-- Whether `token_usage_cumulative_total_changed` returns; it raises where the totals do not grow by the
last sample. -/
def growthConsistent (previous : Option TokenUsage) (current : TokenUsage) : Bool :=
  current.last.map Prod.fst == current.total.map Prod.fst &&
    match previous with
    | none => true
    | some previous =>
      previous.last.map Prod.fst == previous.total.map Prod.fst &&
        previous.total.map Prod.fst == current.total.map Prod.fst &&
          if current.total = previous.total then decide (current.last = previous.last)
          else current.total.all fun p =>
            p.2 == (previous.total.lookup p.1).getD 0 + (current.last.lookup p.1).getD 0

/-- The reroutes of one turn; of those past the limit their number, size and hashed bytes. -/
structure Reroutes where
  events : List Json := []
  omittedCount : Nat := 0
  omittedBytes : Nat := 0
  omittedHash : List Nat := []

/-- What the client knows of turns. -/
structure Turns where
  active : List Identity := []
  bindings : List Identity := []
  tracked : List Identity := []
  terminal : List (Identity × Json) := []
  tokenUsage : List (Identity × TokenUsage) := []
  modelReroutes : List (Identity × Reroutes) := []
  observedClientIds : List PyStr := []

/-- `_track_turn_identity_unlocked` -/
def Turns.track (t : Turns) (thread turn : PyStr) (bindThread : Bool) : Except Failure Turns :=
  let bound := t.bindings.lookup thread
  if bindThread ∧ bound ≠ none ∧ bound ≠ some turn then
    .error (protocol "app-server thread is already bound to another turn identity")
  else if bindThread ∧ (t.terminal.lookup (thread, turn)).isSome then
    .error (protocol "app-server terminal turn identity cannot be reactivated")
  else if (thread, turn) ∉ t.tracked ∧ maxTrackedTurnIdentities ≤ t.tracked.length then
    .error (protocol "app-server turn identity tracking exceeds hard limit")
  else .ok { t with
    bindings := if bindThread ∧ bound = none then put thread turn t.bindings else t.bindings
    tracked := if (thread, turn) ∈ t.tracked then t.tracked else (thread, turn) :: t.tracked }

/-- `_observe_client_id_unlocked` -/
def Turns.observeClientId (t : Turns) (clientId : PyStr) : Except Failure Turns :=
  if clientId ∈ t.observedClientIds then .ok t
  else if maxObservedClientIds ≤ t.observedClientIds.length then
    .error (protocol "app-server observed client-id tracking exceeds hard limit")
  else .ok { t with observedClientIds := clientId :: t.observedClientIds }

/-- A thread's turn becomes the active one: the end of `turn/started` and of `adopt_active_turn`. -/
def Turns.activate (t : Turns) (thread turn : PyStr) (conflict : String) : Except Failure Turns :=
  if t.active.lookup thread ≠ none ∧ t.active.lookup thread ≠ some turn then
    .error (protocol conflict)
  else (t.track thread turn true).map fun t => { t with active := put thread turn t.active }

/-- Eight bytes, big end first. -/
def lengthBytes (n : Nat) : List Nat := (List.range 8).reverse.map fun i => n / 256 ^ i % 256

def compactBytes (v : Json) : List Nat := v.preimage (Json.compact false false)

section Reroute
variable [Redaction]

/-- `_bounded_reroute_field` -/
def boundedRerouteField (value : PyStr) (redact : Bool) : Json :=
  let safe := if redact then Redaction.redact value else value
  let raw := encodeUtf8 safe
  if raw.length ≤ maxModelRerouteFieldBytes then .str safe
  else .obj [("omitted".toList, .bool true), ("bytes".toList, .int raw.length),
    ("sha256".toList, .str (Sha256.hexdigest raw))]

/-- `_record_model_reroute_unlocked` -/
def Reroutes.record (r : Reroutes) (thread turn fromModel reason toModel : PyStr) : Reroutes :=
  let fields := [("fromModel".toList, Redaction.redact fromModel, true),
    ("reason".toList, Redaction.redact reason, true), ("threadId".toList, thread, false),
    ("toModel".toList, Redaction.redact toModel, true), ("turnId".toList, turn, false)]
  let encoded := compactBytes (.obj (fields.map fun f => (f.1, .str f.2.1)))
  if maxModelReroutesPerTurn ≤ r.events.length then
    { r with
      omittedCount := r.omittedCount + 1
      omittedBytes := r.omittedBytes + encoded.length
      omittedHash := r.omittedHash ++ lengthBytes encoded.length ++ encoded }
  else { r with
    events := r.events ++ [.obj (fields.map fun f => (f.1, boundedRerouteField f.2.1 f.2.2))] }

/-- What a notification's handler leaves: the turns, and the parameters as they are retained or why the
reader stops. -/
abbrev Handled : Type := Turns × Except Failure Object

/-- The result of a step that keeps the parameters. -/
def Handled.ofTurns (t : Turns) (params : Object) : Except Failure Turns → Handled
  | .ok t' => (t', .ok params)
  | .error e => (t, .error e)

/-- The thread, the turn and its snapshot in a `turn/started` or `turn/completed`, whose status must be
one of these. -/
def turnOf (method : String) (statuses : List PyStr) (badStatus : String) (params : Object) :
    Except Failure (Identity × Json) :=
  match params.lookup "turn".toList with
  | some (.obj turn) => do
    let thread ← exactIdentity (method ++ " threadId") (params.lookup "threadId".toList)
    let id ← exactIdentity (method ++ " turn.id") (turn.lookup "id".toList)
    match turn.lookup "status".toList with
    | some (.str status) =>
      if status ∈ statuses then return ((thread, id), .obj turn)
      else throw (protocol badStatus)
    | _ => throw (protocol badStatus)
  | _ => throw (protocol (method ++ " notification is malformed"))

def startedTurn : Object → Except Failure (Identity × Json) :=
  turnOf "turn/started" ["inProgress".toList] "turn/started notification has a non-active status"

def completedTurn : Object → Except Failure (Identity × Json) :=
  turnOf "turn/completed" ["completed".toList, "interrupted".toList, "failed".toList]
    "turn/completed notification has a non-terminal status"

/-- `turn/started` -/
def handleStarted (t : Turns) (params : Object) : Handled :=
  Handled.ofTurns t params ((startedTurn params).bind fun p =>
    t.activate p.1.1 p.1.2 "turn/started conflicts with another active turn for this thread")

/-- The end of `turn/completed`. -/
def Turns.complete (t : Turns) (id : Identity) (turn : Json) : Except Failure Turns :=
  (t.track id.1 id.2 false).map fun t => { t with
    terminal := put id turn t.terminal
    active := if t.active.lookup id.1 = some id.2 then eraseKey id.1 t.active else t.active }

/-- `turn/completed` -/
def handleCompleted (t : Turns) (params : Object) : Handled :=
  Handled.ofTurns t params ((completedTurn params).bind fun p => t.complete p.1 p.2)

/-- The turn that telemetry is about, where the notification names one. -/
def namedTurn (params : Object) : Option Identity :=
  match exactIdentity "threadId" (params.lookup "threadId".toList),
    exactIdentity "turnId" (params.lookup "turnId".toList) with
  | .ok thread, .ok turn => some (thread, turn)
  | _, _ => none

/-- The usage that is recorded for a turn and retained, where there is one. -/
def usageOf (t : Turns) (id : Identity) (params : Object) : Option TokenUsage :=
  (canonicalTokenUsage (params.lookup "tokenUsage".toList)).filter
    (growthConsistent (t.tokenUsage.lookup id))

/-- `thread/tokenUsage/updated`: what is no usage is retained as unavailable. -/
def handleTokenUsage (t : Turns) (params : Object) : Handled :=
  let unavailable : Object := Json.setItem params
    ("tokenUsage".toList, .obj [("unavailable".toList, .bool true)])
  match namedTurn params with
  | none => (t, .ok unavailable)
  | some id =>
    match t.track id.1 id.2 false with
    | .error e => (t, .error e)
    | .ok t =>
      match usageOf t id params with
      | some usage => ({ t with tokenUsage := put id usage t.tokenUsage },
          .ok (Json.setItem params ("tokenUsage".toList, usage.json)))
      | none => (t, .ok unavailable)

/-- The fields of `model/rerouted`. -/
def rerouteFields : List PyStr :=
  ["fromModel".toList, "reason".toList, "threadId".toList, "toModel".toList, "turnId".toList]

/-- A text field; nothing where it is none. -/
def textField (params : Object) (name : PyStr) : Option PyStr :=
  match params.lookup name with
  | some (.str s) => some s
  | _ => none

/-- The turn of a `model/rerouted`, once its fields are checked. -/
def reroutedTurn (params : Object) : Except Failure Identity :=
  if rerouteFields.any fun name => (textField params name).isNone then
    .error (protocol "model/rerouted notification is malformed")
  else if rerouteFields.any fun name => textField params name = some [] then
    .error (protocol "model/rerouted notification has an empty field")
  else if textField params "reason".toList ≠ some "highRiskCyberActivity".toList then
    .error (protocol "model/rerouted notification has an unknown reason")
  else do
    let turn ← exactIdentity "model/rerouted turnId" (params.lookup "turnId".toList)
    let thread ← exactIdentity "model/rerouted threadId" (params.lookup "threadId".toList)
    return (thread, turn)

/-- `model/rerouted`: the shown parameters are redacted. -/
def handleRerouted (t : Turns) (params : Object) : Handled :=
  match (reroutedTurn params).bind fun id => (t.track id.1 id.2 false).map (id, ·) with
  | .error e => (t, .error e)
  | .ok (id, t) =>
    let field (name : PyStr) : PyStr := (textField params name).getD []
    let reroutes := ((t.modelReroutes.lookup id).getD {}).record id.1 id.2 (field "fromModel".toList)
      (field "reason".toList) (field "toModel".toList)
    let shown := ["fromModel".toList, "reason".toList, "toModel".toList].foldl
      (fun params name => Json.setItem params (name, .str (Redaction.redact (field name)))) params
    ({ t with modelReroutes := put id reroutes t.modelReroutes }, .ok shown)

/-- The client id of an owner's message in `item/completed`. -/
def ownerClientId (params : Object) : Except Failure (Option PyStr) :=
  match params.lookup "item".toList with
  | some (.obj item) =>
    if textField item "type".toList ≠ some "userMessage".toList then .ok none
    else do
      let _ ← exactIdentity "item/completed threadId" (params.lookup "threadId".toList)
      let _ ← exactIdentity "item/completed turnId" (params.lookup "turnId".toList)
      match item.lookup "clientId".toList with
      | none | some .null => return none
      | some clientId => (exactIdentity "userMessage clientId" (some clientId)).map some
  | _ => .ok none

/-- The turns once the client id of an item has been seen. -/
def Turns.observeItem (t : Turns) (completed : Bool) (params : Object) : Except Failure Turns :=
  if completed then (ownerClientId params).bind fun
    | some clientId => t.observeClientId clientId
    | none => .ok t
  else .ok t

/-- `item/started` and `item/completed`; a client id that was seen stays so where the turn is one too
many. -/
def handleItem (t : Turns) (completed : Bool) (params : Object) : Handled :=
  match t.observeItem completed params with
  | .error e => (t, .error e)
  | .ok t =>
    match namedTurn params with
    | some id => Handled.ofTurns t params (t.track id.1 id.2 false)
    | none => (t, .ok params)

/-- `_apply_notification_state_unlocked`, without the timing telemetry, which nothing here reads. -/
def applyNotification (t : Turns) (method : PyStr) (params : Object) : Handled :=
  if method = "turn/started".toList then handleStarted t params
  else if method = "turn/completed".toList then handleCompleted t params
  else if method = "thread/tokenUsage/updated".toList then handleTokenUsage t params
  else if method = "model/rerouted".toList then handleRerouted t params
  else if method = "item/completed".toList then handleItem t true params
  else if method = "item/started".toList then handleItem t false params
  else (t, .ok params)

/-- The tally of the notifications that are not retained: how many, how large, and the hashed bytes. -/
structure Omissions where
  count : Nat := 0
  bytes : Nat := 0
  hashed : List Nat := []

/-- `_omit_notification_unlocked` -/
def Omissions.omit (o : Omissions) (message : Json) : Omissions :=
  let encoded := compactBytes message
  ⟨o.count + 1, o.bytes + encoded.length, o.hashed ++ lengthBytes encoded.length ++ encoded⟩

/-- What a response brings: its result, or its error. -/
inductive Payload where
  | result (value : Json)
  | error (value : Json)

/-- What a waiting caller is woken with; a response is the one on the line of this number. -/
inductive Answer where
  | response (line : Nat) (payload : Payload)
  | closed (kind : FailureKind)

/-- How a call ended. -/
inductive Outcome where
  | returned (value : Json)
  | rpcError (value : Json)
  | raised
  | timedOut

/-- A call of `rpc` that got its request id. -/
structure Call where
  id : Nat
  method : PyStr
  answer : Option Answer := none
  outcome : Option Outcome := none

/-- The client; `received` are the messages its reader parsed, `processed` the notifications it took. -/
structure Client where
  nextId : Nat := 1
  pending : List Nat := []
  calls : List Call := []
  window : Retention.Window Json Omissions := ⟨[], 0, {}⟩
  seq : Nat := 0
  closed : Option Failure := none
  turns : Turns := {}
  reading : Bool := true
  received : List Object := []
  processed : List Json := []

/-- `_append_notification_unlocked` -/
def Client.append (c : Client) (message : Object) : Client :=
  let enriched := Json.obj (Json.setItem message ("_danus_seq".toList, .int (c.seq + 1)))
  { c with
    seq := c.seq + 1
    window := c.window.push retention Omissions.omit enriched (compactBytes enriched).length
    processed := c.processed ++ [enriched] }

/-- `_mark_closed`: every pending call is woken with the failure. -/
def Client.markClosed (c : Client) (e : Failure) : Client :=
  let kind := if e.kind = .hostLost then .hostLost else .closed
  { c with
    closed := some (c.closed.getD e)
    pending := []
    calls := c.calls.map fun call =>
      if call.id ∈ c.pending then { call with answer := some (.closed kind) } else call }

/-- The reader stops on an exception. -/
def Client.stop (c : Client) (e : Failure) : Client := { c.markClosed e with reading := false }

/-- The id and the payload of a message that has an id and a result or an error; it must have exactly one
of these and nothing of a request. -/
def responseOf (message : Object) : Option (Except Failure (Int × Payload)) :=
  match message.lookup "id".toList, message.lookup "result".toList, message.lookup "error".toList with
  | none, _, _ | some _, none, none => none
  | some id, result, error => some (
    let requested := (message.lookup "method".toList).isSome || (message.lookup "params".toList).isSome
    match result, error, requested, id with
    | some value, none, false, .int i => .ok (i, .result value)
    | none, some value, false, .int i => .ok (i, .error value)
    | some _, none, false, _ | none, some _, false, _ =>
      .error (protocol "app-server response id is not a non-boolean integer")
    | _, _, _, _ => .error (protocol "app-server response must contain exactly one of result/error"))

/-- The method and the parameters of a request or notification. -/
def requestOf (message : Object) : Except Failure (PyStr × Object) :=
  match message.lookup "method".toList, (message.lookup "params".toList).getD (.obj []) with
  | some (.str method), .obj params => .ok (method, params)
  | _, _ => .error (protocol "invalid app-server notification/request")

/-- A response that nobody waits for any more. -/
def orphan (message : Object) : Object :=
  [("method".toList, .str "danus/orphanResponse".toList), ("params".toList, .obj message)]

/-- `_dispatch`; the flag says whether the refusal of a server's request could be sent. -/
def Client.dispatch (c : Client) (message : Object) (sent : Bool) : Client :=
  match responseOf message with
  | some (.error e) => c.stop e
  | some (.ok (id, payload)) =>
    match c.pending.find? fun n : Nat => (n : Int) == id with
    | none => c.append (orphan message)
    | some n =>
      { c with
        pending := c.pending.filter (· != n)
        calls := c.calls.map fun call => if call.id = n then
          { call with answer := some (.response (c.received.length - 1) payload) } else call }
  | none =>
    match requestOf message with
    | .error e => c.stop e
    | .ok (method, params) =>
      match message.lookup "id".toList with
      | some (.int _) => if sent then c else c.stop ⟨.closed, "app-server is not running".toList⟩
      | some _ => c.stop (protocol "app-server request id is not a non-boolean integer")
      | none =>
        let handled := applyNotification c.turns method params
        let c := { c with turns := handled.1 }
        match handled.2 with
        | .error e => c.stop e
        | .ok params =>
          -- the handler changes the message's own parameters
          c.append (if (message.lookup "params".toList).isSome then
            Json.setItem message ("params".toList, .obj params) else message)

/-- `_strict_json`, with room for any nesting. -/
def strictJson (line : List Nat) : Except Failure Object :=
  match (decodeUtf8 line).bind fun text => Json.loads Json.strictHooks text.length text with
  | none => .error (protocol "invalid app-server JSONL")
  | some (.obj items) => .ok items
  | some _ => .error (protocol "app-server JSONL item is not an object")

/-- The reader takes one line. -/
def Client.readLine (c : Client) (line : List Nat) (sent : Bool) : Client :=
  if maxJsonlBytes < line.length ∨ line.getLast? ≠ some 10 then
    c.stop (protocol "app-server JSONL line exceeds hard limit")
  else
    match strictJson line with
    | .error e => c.stop e
    | .ok message => Client.dispatch { c with received := c.received ++ [message] } message sent

/-- `rpc` registers its request; a closed client raises. -/
def Client.register (c : Client) (method : PyStr) : Client :=
  if c.closed.isSome then c
  else { c with
    nextId := c.nextId + 1
    pending := c.nextId :: c.pending
    calls := ⟨c.nextId, method, none, none⟩ :: c.calls }

/-- A call ends in this way, and nothing waits for it any more. -/
def Client.leave (c : Client) (id : Nat) (outcome : Outcome) : Client :=
  { c with
    pending := c.pending.filter (· != id)
    calls := c.calls.map fun call =>
      if call.id = id ∧ call.outcome.isNone then { call with outcome := some outcome } else call }

/-- The outcome of a call that was woken. -/
def Answer.outcome : Answer → Outcome
  | .response _ (.result value) => .returned value
  | .response _ (.error value) => .rpcError value
  | .closed _ => .raised

/-- `rpc` returns or raises what it was woken with. -/
def Client.finish (c : Client) (id : Nat) : Client :=
  { c with calls := c.calls.map fun call =>
      match call.answer with
      | some answer =>
        if call.id = id ∧ call.outcome.isNone then { call with outcome := some answer.outcome } else call
      | none => call }

/-- `adopt_active_turn` -/
def Client.adopt (c : Client) (thread turn : PyStr) : Client :=
  match (do
    let thread ← exactIdentity "adopted active thread id" (some (.str thread))
    let turn ← exactIdentity "adopted active turn id" (some (.str turn))
    c.turns.activate thread turn "adopted active turn conflicts with another active turn") with
  | .ok turns => { c with turns := turns }
  | .error _ => c

/-- What the threads of a worker do to the client, in any order. -/
inductive Event where
  | register (method : PyStr)
  | sendFailed (id : Nat)
  | line (bytes : List Nat) (sent : Bool)
  | eof
  | finish (id : Nat)
  | timeout (id : Nat)
  | hostLost (id : Nat)
  | close (failure : Failure)
  | adopt (thread turn : PyStr)

def Client.step (c : Client) : Event → Client
  | .register method => c.register method
  | .sendFailed id => c.leave id .raised
  | .line bytes sent => if c.reading then c.readLine bytes sent else c
  | .eof => if c.reading then c.stop ⟨.closed, "app-server stdout reached EOF".toList⟩ else c
  | .finish id => c.finish id
  -- the deadline may be read before an answer comes and acted on after it
  | .timeout id => c.leave id .timedOut
  | .hostLost id =>
    (c.markClosed ⟨.hostLost, "app-server owned-child host exited unexpectedly".toList⟩).leave id .raised
  | .close failure => c.markClosed failure
  | .adopt thread turn => c.adopt thread turn

def machine : Machine Client Event where
  start c := c = {}
  step c e c' := c' = c.step e

end Reroute
end Danus.HotJoin.AppServer
