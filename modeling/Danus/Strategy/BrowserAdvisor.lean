import Danus.Lib.Machine
import Danus.Strategy.BrowserLedger

/-! The operations of a browser-advisor broker, one transaction each, and the runs of any number of
brokers on one ledger. -/
namespace Danus.Strategy
open Python Machines

/-- `str(uuid.uuid4())` -/
structure Uuid where
  text : PyStr
  shape : text.length = 36 ∧ ∀ c ∈ text, isHex c = true ∨ c = '-'

/-- A transaction on one request: a replay of what is recorded already, or an update of its row, which
is then read again. -/
def Ledger.transact (l : Ledger) (requestId : PyStr)
    (decide : Request → Except Refusal (Option Request)) : Except Refusal (Request × Ledger) :=
  match l.getInTx requestId with
  | .error e => .error e
  | .ok row =>
    match decide row with
    | .error e => .error e
    | .ok none => .ok (row, l)
    | .ok (some new) => ((l.set new).getInTx requestId).map fun row => (row, l.set new)

section Prepare
variable [Patterns]

/-- The arguments of `prepare`. -/
structure PrepareArgs where
  prompt : PyStr
  elaborationId : Option PyStr
  clientId : Option PyStr
  contextId : PyStr
  recommendationId : Option PyStr
  checkpointId : Option PyStr
  checkpointSha256 : Option PyStr
  checkpointBytes : Option Nat
  predecessorRequestId : Option PyStr
  predecessorUrl : Option PyStr

/-- What the project says of a call: of its recommendation, and of its checkpoint and the facts that
it names. -/
structure Authority where
  recommendation : Except Refusal Unit
  checkpoint : Except Refusal Unit

namespace PrepareArgs
variable (a : PrepareArgs)

def optSafeId (value : Option PyStr) (label : String) : Except Refusal Unit :=
  match value with
  | none => .ok ()
  | some value => safeId value label

/-- The checks of `_prepare_locked` before it opens the database: the prompt's number of bytes. -/
def validate : Except Refusal Nat := do
  let promptBytes ← validateText a.prompt "advisor prompt" (256 * 1024)
  assertNoSecret a.prompt "advisor prompt"
  optSafeId a.elaborationId "elaboration id"
  optSafeId a.clientId "client id"
  safeId a.contextId "context id"
  optSafeId a.recommendationId "recommendation id"
  optSafeId a.predecessorRequestId "predecessor request id"
  if a.predecessorRequestId.isNone ≠ a.predecessorUrl.isNone then
    throw (.value ("local continuation requires both predecessor request id and " ++
      "predecessor conversation URL; a new chat requires neither"))
  match a.predecessorUrl with
  | none => pure ()
  | some url => validateUrl url
  return promptBytes

/-- The predecessor and the digest of its conversation's URL. -/
def continues : Option (PyStr × PyStr) :=
  match a.predecessorRequestId, a.predecessorUrl with
  | some id, some url => some (id, sha256Text url)
  | _, _ => none

def checkpoint : Option (PyStr × PyStr × Nat) :=
  match a.checkpointId, a.checkpointSha256, a.checkpointBytes with
  | some id, some sha256, some bytes => some (id, sha256, bytes)
  | _, _, _ => none

def binding (projectDir : PyStr) (checkpoint : Option (PyStr × PyStr × Nat)) : PyStr :=
  bindingSha256 projectDir a.elaborationId a.contextId a.recommendationId checkpoint
    (sha256Text a.prompt) (utf8Length a.prompt) a.continues

/-- `prospective_binding` -/
def prospectiveBinding (projectDir : PyStr) : Option PyStr :=
  if a.checkpoint.isSome ∨
      (a.checkpointId = none ∧ a.checkpointSha256 = none ∧ a.checkpointBytes = none) then
    some (a.binding projectDir a.checkpoint)
  else none

/-- The row says what the arguments say. -/
def describes (binding : Option PyStr) (row : Request) : Bool :=
  binding == some row.bindingSha256 && row.promptSha256 == sha256Text a.prompt &&
    row.elaborationId == a.elaborationId && row.contextId == a.contextId &&
    row.recommendationId == a.recommendationId && some row.checkpointId == a.checkpointId &&
    some row.checkpointSha256 == a.checkpointSha256 && some row.checkpointBytes == a.checkpointBytes &&
    row.predecessor.map (fun p => (p.requestId, p.conversationUrlSha256)) == a.continues

/-- `_validate_prepare_checkpoint`: the checkpoint's identity, with what the project says of it. -/
def validateCheckpoint (authority : Except Refusal Unit) : Except Refusal (PyStr × PyStr × Nat) :=
  match a.checkpoint with
  | none =>
    .error (.state "new browser prepare requires exact checkpoint id, digest, and byte count")
  | some (id, sha256, bytes) => do
    if isHexOf 16 id = false then throw (.value "checkpoint id must be 16 lowercase hex characters")
    validateHash sha256 "checkpoint hash"
    if bytes = 0 ∨ 32 * 1024 < bytes then
      throw (.value "checkpoint byte count is outside its bounded range")
    authority
    return (id, sha256, bytes)

end PrepareArgs

/-- The first transaction of `_prepare_locked`: the request that the call repeats, if any. -/
def prepareReplay (l : Ledger) (a : PrepareArgs) (authority : Authority) :
    Except Refusal (Option Request) := do
  let _ ← a.validate
  let found ← match a.clientId, a.recommendationId, a.prospectiveBinding l.projectDir with
    | some clientId, _, _ => pure (l.requests.find? fun row => row.clientId = some clientId)
    | none, some recommendationId, _ =>
      pure (l.requests.find? fun row => row.recommendationId = some recommendationId)
    | none, none, some binding =>
      match l.requests.filter fun row => row.bindingSha256 = binding with
      | [] => pure none
      | [row] => pure (some row)
      | _ => throw (.conflict "advisor binding has multiple durable requests")
    | none, none, none => pure none
  match found with
  | none => return none
  | some row =>
    if ¬ (a.describes (a.prospectiveBinding l.projectDir) row ∧ row.prompt = a.prompt ∧
        row.promptBytes = utf8Length a.prompt) then
      throw (.conflict "existing advisor request belongs to different content")
    l.assertIntegrity row
    let _ ← a.validateCheckpoint authority.checkpoint
    l.assertLineage row false
    return some row

/-- The predecessor that a new request records, with its lineage root and depth. -/
def prepareLineage (l : Ledger) (a : PrepareArgs) :
    Except Refusal (Option (Predecessor × PyStr × Nat)) :=
  match a.continues with
  | none => .ok none
  | some (predecessorId, urlSha256) => do
    let predecessor ← l.getInTx predecessorId
    if predecessor.contextId ≠ a.contextId then
      throw (.conflict "predecessor belongs to a different advisor context")
    if predecessor.state.continuable = false then
      throw (.state ("predecessor must have a known terminal browser response; state " ++
        predecessor.state.name ++ " cannot be continued"))
    if predecessor.conversationUrlSha256 ≠ some urlSha256 then
      throw (.conflict "supplied conversation URL does not match predecessor")
    if predecessor.promptSha256 = sha256Text a.prompt then
      throw (.state ("a continuation must use a new evidence-specific prompt, " ++
        "not resend its predecessor prompt"))
    return some (⟨predecessorId, urlSha256, receiptSha256 predecessor, predecessor.state⟩,
      predecessor.lineageRootRequestId, predecessor.lineageDepth + 1)

/-- The row of a new request. -/
def PrepareArgs.row (a : PrepareArgs) (projectDir : PyStr) (checkpoint : PyStr × PyStr × Nat)
    (lineage : Option (Predecessor × PyStr × Nat)) (requestId : PyStr) (now : Nat) : Request where
  requestId := requestId
  clientId := a.clientId
  contextId := a.contextId
  recommendationId := a.recommendationId
  checkpointId := checkpoint.1
  checkpointSha256 := checkpoint.2.1
  checkpointBytes := checkpoint.2.2
  bindingSha256 := a.binding projectDir (some checkpoint)
  prompt := a.prompt
  promptSha256 := sha256Text a.prompt
  promptBytes := utf8Length a.prompt
  elaborationId := a.elaborationId
  predecessor := lineage.map fun p => p.1
  lineageRootRequestId := (lineage.map fun p => p.2.1).getD requestId
  lineageDepth := (lineage.map fun p => p.2.2).getD 0
  state := .prepared
  authorizationScope := none
  authorizationScopeSha256 := none
  authorizedNs := none
  preClickTokenSha256 := none
  dispatchAnchorSha256 := none
  uiMode := none
  conversationUrlSha256 := none
  replySha256 := none
  replyBytes := none
  stableSnapshots := none
  attested := false
  controlSignals := none
  terminalReasonSha256 := none
  terminalEvidenceSha256 := none
  terminalAcknowledgement := none
  terminalPriorState := none
  adoptedStrategy := none
  adoptedStrategySha256 := none
  adoptedNs := none
  createdNs := now
  updatedNs := now

/-- The unique indexes of `advisor_requests`. -/
def Ledger.collides (l : Ledger) (row : Request) : Bool :=
  l.requests.any fun other => other.requestId == row.requestId ||
    (row.clientId.isSome && other.clientId == row.clientId) ||
    (row.recommendationId.isSome && other.recommendationId == row.recommendationId) ||
    other.checkpointId == row.checkpointId

/-- The newest request that a query finds, as `ORDER BY created_ns DESC LIMIT 1` does. -/
def newest (rows : List Request) : Option Request :=
  rows.foldl (fun best row => match best with
    | none => some row
    | some b => if b.createdNs < row.createdNs then some row else some b) none

/-- The requests already there that the second transaction of `_prepare_locked` returns. -/
def prepareExisting (l : Ledger) (a : PrepareArgs) (binding : PyStr) :
    Except Refusal (Option Request) := do
  match a.clientId.bind fun id => l.requests.find? fun row => row.clientId = some id with
  | some row =>
    if a.describes (some binding) row = false then
      throw (.conflict "client id already belongs to different advisor content")
    l.assertLineage row false
    return some row
  | none => pure ()
  match a.recommendationId.bind fun id => l.requests.find? fun row => row.recommendationId = some id with
  | some row =>
    if a.describes (some binding) row = false then
      throw (.conflict ("coordinator recommendation already has a different " ++
        "browser-advisor request"))
    l.assertLineage row false
    return some row
  | none => pure ()
  match newest (l.requests.filter fun row => row.bindingSha256 = binding ∧ ¬ row.state.terminal) with
  | some row =>
    l.assertLineage row true
    return some row
  | none => return none

/-- The second transaction of `_prepare_locked`. -/
def prepareInsert (l : Ledger) (a : PrepareArgs) (authority : Authority) (requestId : Uuid)
    (now : Nat) : Except Refusal (Request × Ledger) := do
  let _ ← a.validate
  authority.recommendation
  let checkpoint ← a.validateCheckpoint authority.checkpoint
  match ← prepareExisting l a (a.binding l.projectDir (some checkpoint)) with
  | some row => return (row, l)
  | none =>
    match newest (l.requests.filter fun row =>
        row.promptSha256 = sha256Text a.prompt ∧ ¬ row.state.terminal) with
    | some row =>
      throw (.state ("the same prompt already has an active request in state " ++ row.state.name ++
        " under a different context binding"))
    | none => pure ()
    if l.requests.any fun row => row.promptSha256 == sha256Text a.prompt &&
        row.state == .ownerAbandonedOutcomeUnknown then
      throw (.state ("this exact prompt has an outcome-unknown prior submission and " ++
        "may never be fresh-sent again"))
    let lineage ← prepareLineage l a
    let row := a.row l.projectDir checkpoint lineage requestId.text now
    match row.predecessor with
    | none => pure ()
    | some _ => l.assertLineage row true
    if l.collides row then throw .integrity
    let inserted := { l with requests := l.requests ++ [row] }
    let row ← inserted.getInTx requestId.text
    return (row, inserted)

end Prepare

section Operations
variable [Patterns] (l : Ledger)

/-- `authorize` -/
def authorize (requestId promptSha256 scope : PyStr) (acknowledged : Bool) (now : Nat) :
    Except Refusal (Request × Ledger) := do
  validateHash promptSha256 "prompt hash"
  let _ ← validateText scope "authorization scope" 4096
  assertNoSecret scope "authorization scope"
  if !acknowledged then
    throw (.value "explicit acknowledgement of transmission to ChatGPT is required")
  l.transact requestId fun row => do
    l.assertLineage row true
    if row.promptSha256 ≠ promptSha256 then
      throw (.conflict "authorized prompt hash does not match")
    if row.state = .authorized then
      if row.authorizationScopeSha256 ≠ some (sha256Text scope) then
        throw (.conflict "authorization scope changed")
      return none
    if row.state ≠ .prepared then
      throw (.state ("cannot authorize request in state " ++ row.state.name))
    return some { row with
      state := .authorized
      authorizationScope := some scope
      authorizationScopeSha256 := some (sha256Text scope)
      authorizedNs := some now
      updatedNs := now }

/-- `validate_dispatch_row` -/
def validateDispatch (url : Option PyStr) (row : Request) : Except Refusal Unit := do
  l.assertIntegrity row
  l.assertLineage row true
  match row.predecessor, url with
  | some _, none => throw (.value ("local continuation dispatch requires the transient exact " ++
      "predecessor conversation URL"))
  | some p, some url =>
    if sha256Text url ≠ p.conversationUrlSha256 then
      throw (.conflict "dispatch conversation URL does not match predecessor")
  | none, some _ =>
    throw (.value "new-chat dispatch must not supply a predecessor conversation URL")
  | none, none => pure ()

/-- The first transaction of `_dispatch_started_locked`; a row that it returns in `dispatching` is
answered without a click. -/
def dispatchRead (requestId : PyStr) (url : Option PyStr) : Except Refusal Request := do
  match url with
  | none => pure ()
  | some url => validateUrl url
  let row ← l.getInTx requestId
  validateDispatch l url row
  if row.state ≠ .dispatching ∧ row.state ≠ .authorized then
    throw (.state ("cannot begin dispatch from state " ++ row.state.name ++
      "; ambiguous delivery is never retried automatically"))
  return row

/-- The second transaction of `_dispatch_started_locked` up to the anchor's write: the row, and the
bytes of its anchor. -/
def dispatchCas (requestId : PyStr) (url : Option PyStr) (authority : Authority) (token : Uuid) :
    Except Refusal (Request × List Nat) := do
  authority.recommendation
  authority.checkpoint
  let row ← l.getInTx requestId
  validateDispatch l url row
  if row.state ≠ .authorized then throw (.state "advisor request changed before dispatch CAS")
  let raw ← dispatchAnchorRaw row (sha256Text token.text)
  return (row, raw)

/-- The second transaction of `_dispatch_started_locked`. Its answer authorises the click. -/
def dispatchCommit (requestId : PyStr) (url : Option PyStr) (authority : Authority) (token : Uuid)
    (now : Nat) : Except Refusal (Request × Ledger) := do
  let (row, raw) ← dispatchCas l requestId url authority token
  let (anchorSha256, anchored) ← l.writeAnchorOnce requestId raw
  let dispatched := anchored.set { row with
    state := .dispatching
    preClickTokenSha256 := some (sha256Text token.text)
    dispatchAnchorSha256 := some anchorSha256
    updatedNs := now }
  let row ← dispatched.getInTx requestId
  return (row, dispatched)

/-- The ledger where `dispatch_started` died after so many bytes of its anchor, before the commit. -/
def dispatchTorn (requestId : PyStr) (url : Option PyStr) (authority : Authority) (token : Uuid)
    (written : Nat) : Except Refusal Ledger := do
  let (_, raw) ← dispatchCas l requestId url authority token
  let (_, anchored) ← l.writeAnchorOnce requestId (raw.take written)
  return anchored

/-- `submitted` -/
def submitted (requestId observedPromptSha256 uiMode : PyStr) (fullPromptObserved : Bool)
    (url : PyStr) (now : Nat) : Except Refusal (Request × Ledger) := do
  validateHash observedPromptSha256 "observed prompt hash"
  if uiMode ≠ "Pro".toList then
    throw (.value "browser advisor requires an observed UI mode of exactly 'Pro'")
  if !fullPromptObserved then
    throw (.value "the full submitted prompt must be observed in the conversation")
  validateUrl url
  l.transact requestId fun row => do
    l.assertDelivery row (sha256Text url) true
    if row.promptSha256 ≠ observedPromptSha256 then
      throw (.conflict "observed prompt hash does not match")
    if row.state = .submitted then
      if row.uiMode ≠ some uiMode ∨ row.conversationUrlSha256 ≠ some (sha256Text url) then
        throw (.conflict "submitted receipt changed")
      return none
    if row.state ≠ .dispatching ∧ row.state ≠ .deliveryUnknown then
      throw (.state ("cannot attest submission from state " ++ row.state.name))
    return some { row with
      state := .submitted
      uiMode := some uiMode
      conversationUrlSha256 := some (sha256Text url)
      updatedNs := now }

/-- The two ends of a response. -/
inductive Finish where
  | completed | needsUserInput
  deriving DecidableEq

def Finish.state : Finish → RequestState
  | .completed => .completed
  | .needsUserInput => .needsUserInput

/-- What the caller attests of a final response. -/
structure Attestation where
  response : PyStr
  observedPromptSha256 : PyStr
  uiMode : PyStr
  url : PyStr
  stableSnapshots : Int
  completionActionsObserved : Bool
  composerAvailable : Bool
  workingIndicatorAbsent : Bool

/-- The checks of `_finish` before its transaction, with `_validate_completion_attestation`. -/
def Attestation.validate (a : Attestation) : Except Refusal Unit := do
  let _ ← validateText a.response "advisor response" (512 * 1024)
  assertNoSecret a.response "advisor response"
  validateHash a.observedPromptSha256 "observed prompt hash"
  validateUrl a.url
  if a.uiMode ≠ "Pro".toList then
    throw (.value "final response was not observed in UI mode 'Pro'")
  if a.stableSnapshots < 2 then
    throw (.value "at least two stable full response snapshots are required")
  if !a.completionActionsObserved then throw (.value "final response actions were not observed")
  if !a.composerAvailable then throw (.value "composer was not available after the response")
  if !a.workingIndicatorAbsent then
    throw (.value "a working/streaming indicator was still present")

/-- `_finish`; `absent` is what the scan of global memory for the response says. -/
def finish (requestId : PyStr) (target : Finish) (a : Attestation) (absent : Except Refusal Unit)
    (now : Nat) : Except Refusal (Request × Ledger) := do
  a.validate
  absent
  let replySha256 := sha256Text a.response
  let signals := Patterns.controlSignals a.response
  l.transact requestId fun row => do
    l.assertDelivery row (sha256Text a.url) false
    if l.requests.any fun other => other.adoptedStrategySha256 == some replySha256 then
      throw (.conflict "browser output already exists as a durable adopted strategy")
    if row.promptSha256 ≠ a.observedPromptSha256 then
      throw (.conflict "observed prompt hash does not match")
    if row.state = target.state then
      if row.replySha256 ≠ some replySha256 ∨ row.replyBytes ≠ some (utf8Length a.response) ∨
          row.uiMode ≠ some a.uiMode ∨ row.conversationUrlSha256 ≠ some (sha256Text a.url) ∨
          row.stableSnapshots ≠ some a.stableSnapshots ∨ row.attested = false ∨
          row.controlSignals ≠ some signals then
        throw (.conflict "terminal advisor completion receipt changed")
      return none
    if row.state ≠ .submitted ∧ row.state ≠ .deliveryUnknown then
      throw (.state ("cannot record " ++ target.state.name ++ " response from state " ++
        row.state.name))
    l.assertDelivery row (sha256Text a.url) true
    if row.conversationUrlSha256 ≠ none ∧ row.conversationUrlSha256 ≠ some (sha256Text a.url) then
      throw (.conflict "conversation URL changed")
    return some { row with
      state := target.state
      uiMode := some a.uiMode
      conversationUrlSha256 := some (sha256Text a.url)
      replySha256 := some replySha256
      replyBytes := some (utf8Length a.response)
      stableSnapshots := some a.stableSnapshots
      attested := true
      controlSignals := some signals
      updatedNs := now }

/-- `recover` -/
def recover (requestId observation reason : PyStr) (now : Nat) : Except Refusal (Request × Ledger) := do
  if observation ≠ "unknown".toList then
    throw (.value ("recovery only records an unknown outcome; the same request can later be " ++
      "reconciled as submitted/completed/needs_user_input, never resent"))
  if reason ≠ [] then
    let _ ← validateText reason "recovery reason" 4096
    assertNoSecret reason "recovery reason"
  l.transact requestId fun row => do
    l.assertLineage row true
    if row.state = .deliveryUnknown then return none
    if row.state ≠ .dispatching ∧ row.state ≠ .submitted then
      throw (.state ("cannot mark delivery unknown from state " ++ row.state.name))
    return some { row with
      state := .deliveryUnknown
      updatedNs := now }

/-- The token that a pre-click failure presents is the one of the row's dispatch. -/
def tokenMatches (row : Request) (token : Option PyStr) : Bool :=
  match token with
  | none => false
  | some token => row.preClickTokenSha256 == some (sha256Text token)

/-- `fail_not_submitted` -/
def failNotSubmitted (requestId reason evidence : PyStr) (acknowledged : Bool)
    (token : Option PyStr) (now : Nat) : Except Refusal (Request × Ledger) := do
  let _ ← validateText reason "pre-submit failure reason" 4096
  let _ ← validateText evidence "before-click evidence" 4096
  assertNoSecret reason "pre-submit failure reason"
  assertNoSecret evidence "before-click evidence"
  if !acknowledged then
    throw (.value ("failed-not-submitted requires explicit acknowledgement that no " ++
      "browser action capable of submission occurred"))
  l.transact requestId fun row => do
    l.assertLineage row true
    if row.state = .failedNotSubmitted then
      if row.terminalReasonSha256 ≠ some (sha256Text reason) ∨
          row.terminalEvidenceSha256 ≠ some (sha256Text evidence) ∨
          row.terminalAcknowledgement ≠ some true then
        throw (.conflict "failed-not-submitted terminal receipt changed")
      if row.terminalPriorState = some .dispatching then
        PrepareArgs.optSafeId token "pre-click token"
        if tokenMatches row token = false then
          throw (.conflict "failed-not-submitted replay changed its pre-click binding")
      else if token ≠ none then
        throw (.conflict "failed-not-submitted replay added a pre-click binding")
      return none
    if row.state ≠ .authorized ∧ row.state ≠ .dispatching then
      throw (.state ("failed-not-submitted is valid only from authorized or a fresh dispatching " ++
        "transition before any submit-capable browser action; unknown/submitted outcomes must be " ++
        "reconciled, never downgraded"))
    if row.state = .authorized ∧ token ≠ none then
      throw (.value "authorized pre-submit failure must not supply a pre-click token")
    if row.state = .dispatching then
      PrepareArgs.optSafeId token "pre-click token"
      if tokenMatches row token = false then
        throw (.state ("dispatching failure requires the one-time pre-click token returned only by " ++
          "the fresh dispatch transition; a replay must be treated as unknown/recover-only"))
    return some { row with
      state := .failedNotSubmitted
      terminalReasonSha256 := some (sha256Text reason)
      terminalEvidenceSha256 := some (sha256Text evidence)
      terminalAcknowledgement := some true
      terminalPriorState := some row.state
      updatedNs := now }

/-- `abandon` -/
def abandon (requestId reason : PyStr) (acknowledged : Bool) (now : Nat) :
    Except Refusal (Request × Ledger) := do
  let _ ← validateText reason "abandon reason" 4096
  assertNoSecret reason "abandon reason"
  l.transact requestId fun row => do
    l.assertLineage row false
    if row.state = .abandoned ∨ row.state = .ownerAbandonedOutcomeUnknown then
      if row.terminalReasonSha256 ≠ some (sha256Text reason) ∨
          row.terminalAcknowledgement ≠ some acknowledged then
        throw (.conflict "abandon terminal receipt changed")
      return none
    if row.state = .completed ∨ row.state.terminal then
      throw (.state ("terminal advisor receipt " ++ row.state.name ++
        " must be preserved and cannot be abandoned"))
    if row.state.ambiguous ∧ !acknowledged then
      throw (.value ("abandoning a possibly submitted request requires explicit " ++
        "acknowledgement that delivery/outcome may be unknown"))
    return some { row with
      state := if row.state.ambiguous then .ownerAbandonedOutcomeUnknown else .abandoned
      terminalReasonSha256 := some (sha256Text reason)
      terminalAcknowledgement := some acknowledged
      terminalPriorState := some row.state
      updatedNs := now }

/-- The first transaction of `import_result`, with its checks of the response. -/
def importRead (requestId response : PyStr) : Except Refusal Request := do
  let responseBytes ← validateText response "advisor response" (512 * 1024)
  assertNoSecret response "advisor response"
  let row ← l.getInTx requestId
  l.assertLineage row false
  if row.state ≠ .completed ∧ row.state ≠ .imported ∧ row.state ≠ .adopted then
    throw (.state ("only a completed response can be imported, not " ++ row.state.name))
  if row.replySha256 ≠ some (sha256Text response) ∨ row.replyBytes ≠ some responseBytes ∨
      row.controlSignals ≠ some (Patterns.controlSignals response) then
    throw (.conflict "resupplied advisor response does not match the completed receipt")
  return row

omit [Patterns] in
/-- The second transaction of `import_result`, for a row that was completed. -/
def importCommit (requestId : PyStr) (now : Nat) : Except Refusal (Request × Ledger) :=
  l.transact requestId fun row => do
    l.assertLineage row false
    if row.state = .completed then
      return some { row with
        state := .imported
        updatedNs := now }
    if row.state ≠ .imported then
      throw (.state ("request changed to " ++ row.state.name ++ " during import"))
    return none

/-- `adopt` -/
def adopt (requestId strategy : PyStr) (acknowledged : Bool) (now : Nat) :
    Except Refusal (Request × Ledger) := do
  let _ ← validateText strategy "adopted strategy" (512 * 1024)
  assertNoSecret strategy "adopted strategy"
  let signals := Patterns.controlSignals strategy
  if signals ≠ [] then
    throw (.value ("adopted strategy still contains privileged control signals (" ++
      String.ofList (joinWith [','] signals) ++ "); synthesize mathematical strategy only"))
  if !acknowledged then
    throw (.value ("adoption requires explicit acknowledgement that the browser " ++
      "report was reviewed as untrusted content"))
  l.transact requestId fun row => do
    l.assertLineage row false
    if l.requests.any fun other => other.replySha256 == some (sha256Text strategy) then
      throw (.value ("adopted strategy must be an explicit reviewed synthesis, " ++
        "not the raw browser response from any advisor receipt"))
    if row.state = .adopted then
      if row.adoptedStrategySha256 ≠ some (sha256Text strategy) then
        throw (.conflict "adopted strategy changed")
      return none
    if row.state ≠ .imported then
      throw (.state ("only an imported report can be adopted, not " ++ row.state.name))
    return some { row with
      state := .adopted
      adoptedStrategy := some strategy
      adoptedStrategySha256 := some (sha256Text strategy)
      adoptedNs := some now
      updatedNs := now }

omit [Patterns] in
/-- `get` -/
def getRequest (requestId : PyStr) : Except Refusal Request := do
  let row ← l.getInTx requestId
  l.assertLineage row false
  return row

end Operations

/-- The provenance of browser-backed guidance, but for the constants of the transport. -/
structure Provenance where
  requestId : PyStr
  elaborationId : Option PyStr
  contextId : PyStr
  recommendationId : Option PyStr
  bindingSha256 : PyStr
  receiptSha256 : PyStr
  promptSha256 : PyStr
  replySha256 : Option PyStr
  adoptedStrategySha256 : Option PyStr
  checkpointId : PyStr
  checkpointSha256 : PyStr
  checkpointBytes : Nat
  deriving DecidableEq

/-- `expected` of `validate_adopted_master_guidance` -/
def expectedProvenance (row : Request) : Provenance where
  requestId := row.requestId
  elaborationId := row.elaborationId
  contextId := row.contextId
  recommendationId := row.recommendationId
  bindingSha256 := row.bindingSha256
  receiptSha256 := receiptSha256 row
  promptSha256 := row.promptSha256
  replySha256 := row.replySha256
  adoptedStrategySha256 := row.adoptedStrategySha256
  checkpointId := row.checkpointId
  checkpointSha256 := row.checkpointSha256
  checkpointBytes := row.checkpointBytes

/-- `validate_adopted_master_guidance` -/
def validateAdoptedMasterGuidance (l : Ledger) (provenance : Provenance) (evidence : PyStr) :
    Except Refusal Unit := do
  let _ ← validateText evidence "master guidance evidence" (512 * 1024)
  if provenance.requestId = [] then throw (.conflict "browser provenance has no request id")
  match l.requests.find? fun row => row.requestId = provenance.requestId with
  | none => throw (.conflict "browser provenance request is missing from this project")
  | some row =>
    if row.state ≠ .adopted then
      throw (.state "browser-backed master guidance requires an adopted receipt")
    if row.adoptedStrategy.map sha256Text = none ∨
        row.adoptedStrategy.map sha256Text ≠ row.adoptedStrategySha256 then
      throw (.conflict "adopted strategy storage failed integrity check")
    if provenance ≠ expectedProvenance row then
      throw (.conflict "browser provenance does not exactly match the adopted project receipt")
    if some (sha256Text evidence) ≠ row.adoptedStrategySha256 then
      throw (.conflict "master guidance evidence is not the adopted strategy synthesis")

/-- An operation on one request. -/
inductive Operation where
  | get
  | authorize (promptSha256 scope : PyStr) (acknowledged : Bool)
  | dispatchRead (url : Option PyStr)
  | dispatch (url : Option PyStr) (authority : Authority) (token : Uuid)
  | submitted (observedPromptSha256 uiMode : PyStr) (fullPromptObserved : Bool) (url : PyStr)
  | finish (target : Finish) (a : Attestation) (absent : Except Refusal Unit)
  | recover (observation reason : PyStr)
  | failNotSubmitted (reason evidence : PyStr) (acknowledged : Bool) (token : Option PyStr)
  | abandon (reason : PyStr) (acknowledged : Bool)
  | importRead (response : PyStr)
  | importCommit
  | adopt (strategy : PyStr) (acknowledged : Bool)

/-- The operation on this request at this time: the row that it answers with, and the ledger after
its commit. -/
def Operation.run [Patterns] (l : Ledger) (requestId : PyStr) (now : Nat) :
    Operation → Except Refusal (Request × Ledger)
  | .get => (Strategy.getRequest l requestId).map (·, l)
  | .authorize promptSha256 scope acknowledged =>
    Strategy.authorize l requestId promptSha256 scope acknowledged now
  | .dispatchRead url => (Strategy.dispatchRead l requestId url).map (·, l)
  | .dispatch url authority token => Strategy.dispatchCommit l requestId url authority token now
  | .submitted observed uiMode full url => Strategy.submitted l requestId observed uiMode full url now
  | .finish target a absent => Strategy.finish l requestId target a absent now
  | .recover observation reason => Strategy.recover l requestId observation reason now
  | .failNotSubmitted reason evidence acknowledged token =>
    Strategy.failNotSubmitted l requestId reason evidence acknowledged token now
  | .abandon reason acknowledged => Strategy.abandon l requestId reason acknowledged now
  | .importRead response => (Strategy.importRead l requestId response).map (·, l)
  | .importCommit => Strategy.importCommit l requestId now
  | .adopt strategy acknowledged => Strategy.adopt l requestId strategy acknowledged now

/-- `click_authorized` of the answer. -/
def Operation.clicks : Operation → Bool
  | .dispatch .. => true
  | _ => false

/-- The ledger, and the requests whose click `dispatch_started` has authorised, in order. -/
structure Advisor where
  ledger : Ledger
  clicked : List PyStr

/-- Where a call of `dispatch_started` dies: in its second transaction before the anchor's file is
there, after so many bytes of it and before the commit, or after the commit and before its answer. -/
inductive CrashPoint where
  | beforeAnchor | anchored (written : Nat) | committed

inductive Event where
  | «open»
  | prepareReplay (a : PrepareArgs) (authority : Authority)
  | prepare (a : PrepareArgs) (authority : Authority) (requestId : Uuid) (now : Nat)
  | operate (requestId : PyStr) (now : Nat) (op : Operation)
  | die (requestId : PyStr) (now : Nat) (url : Option PyStr) (authority : Authority) (token : Uuid)
      (point : CrashPoint)

/-- The ledger where a call of `dispatch_started` died. -/
def dispatchDies [Patterns] (l : Ledger) (requestId : PyStr) (now : Nat) (url : Option PyStr)
    (authority : Authority) (token : Uuid) : CrashPoint → Except Refusal Ledger
  | .beforeAnchor => (dispatchCas l requestId url authority token).map fun _ => l
  | .anchored written => dispatchTorn l requestId url authority token written
  | .committed => (dispatchCommit l requestId url authority token now).map Prod.snd

/-- The ledger after an event that does not raise, and the click that it authorises. -/
def Event.run [Patterns] (l : Ledger) : Event → Except Refusal (Ledger × List PyStr)
  | .open => l.open.map (·, [])
  | .prepareReplay a authority => (Strategy.prepareReplay l a authority).map fun _ => (l, [])
  | .prepare a authority requestId now =>
    (prepareInsert l a authority requestId now).map fun r => (r.2, [])
  | .operate requestId now op =>
    (op.run l requestId now).map fun r => (r.2, if op.clicks then [requestId] else [])
  | .die requestId now url authority token point =>
    (dispatchDies l requestId now url authority token point).map (·, [])

/-- Brokers on one ledger, in any order of their transactions; one that raises changes nothing. -/
def Advisor.step [Patterns] (s : Advisor) (event : Event) : Advisor :=
  match event.run s.ledger with
  | .error _ => s
  | .ok (l, clicked) => ⟨l, s.clicked ++ clicked⟩

/-- A new ledger. -/
def Advisor.initial (projectDir : PyStr) : Advisor := ⟨⟨projectDir, [], fun _ => none⟩, []⟩

def Advisor.machine [Patterns] (projectDir : PyStr) : Machine Advisor Event where
  start s := s = Advisor.initial projectDir
  step s event t := t = s.step event

end Danus.Strategy
