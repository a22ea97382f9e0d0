import Danus.Lib.JsonRead
import Danus.Lib.Rows
import Danus.Lib.Sha256

/-! The ledger of browser-advisor requests: its rows, the dispatch anchors outside the database, and
the checks that every read makes. -/
namespace Danus.Strategy
open Python

/-- What a broker raises: a `BrowserAdvisorConflict`, `BrowserAdvisorStateError`,
`BrowserAdvisorError`, `ValueError`, or the database's `IntegrityError`. -/
inductive Refusal where
  | conflict (message : String)
  | state (message : String)
  | advisor (message : String)
  | value (message : String)
  | integrity
  deriving DecidableEq

inductive RequestState where
  | prepared | authorized | dispatching | submitted | completed | needsUserInput | deliveryUnknown
  | imported | adopted | failedNotSubmitted | abandoned | ownerAbandonedOutcomeUnknown
  deriving DecidableEq, Repr

namespace RequestState

def name : RequestState → String
  | .prepared => "prepared"
  | .authorized => "authorized"
  | .dispatching => "dispatching"
  | .submitted => "submitted"
  | .completed => "completed"
  | .needsUserInput => "needs_user_input"
  | .deliveryUnknown => "delivery_unknown"
  | .imported => "imported"
  | .adopted => "adopted"
  | .failedNotSubmitted => "failed_not_submitted"
  | .abandoned => "abandoned"
  | .ownerAbandonedOutcomeUnknown => "owner_abandoned_outcome_unknown"

/-- `_AMBIGUOUS_STATES` -/
def ambiguous : RequestState → Bool
  | .dispatching | .submitted | .deliveryUnknown => true
  | _ => false

/-- `_CONTINUATION_PREDECESSOR_STATES` -/
def continuable : RequestState → Bool
  | .completed | .imported | .adopted | .needsUserInput => true
  | _ => false

/-- `_ACTIVE_CONVERSATION_STATES` -/
def inConversation : RequestState → Bool
  | .prepared | .authorized | .dispatching | .submitted | .deliveryUnknown
  | .ownerAbandonedOutcomeUnknown => true
  | _ => false

/-- `_TERMINAL_STATES` -/
def terminal : RequestState → Bool
  | .imported | .adopted | .failedNotSubmitted | .abandoned | .ownerAbandonedOutcomeUnknown
  | .needsUserInput => true
  | _ => false

end RequestState

/-- The request whose conversation a local continuation extends, as it was at its preparation. -/
structure Predecessor where
  requestId : PyStr
  conversationUrlSha256 : PyStr
  receiptSha256 : PyStr
  state : RequestState
  deriving DecidableEq

/-- A row of `advisor_requests`, of receipt schema 5; without a predecessor its lineage kind is
`new_chat`. The three attestation flags of a response are set together, to 1. -/
structure Request where
  requestId : PyStr
  clientId : Option PyStr
  contextId : PyStr
  recommendationId : Option PyStr
  checkpointId : PyStr
  checkpointSha256 : PyStr
  checkpointBytes : Nat
  bindingSha256 : PyStr
  prompt : PyStr
  promptSha256 : PyStr
  promptBytes : Nat
  elaborationId : Option PyStr
  predecessor : Option Predecessor
  lineageRootRequestId : PyStr
  lineageDepth : Nat
  state : RequestState
  authorizationScope : Option PyStr
  authorizationScopeSha256 : Option PyStr
  authorizedNs : Option Nat
  preClickTokenSha256 : Option PyStr
  dispatchAnchorSha256 : Option PyStr
  uiMode : Option PyStr
  conversationUrlSha256 : Option PyStr
  replySha256 : Option PyStr
  replyBytes : Option Nat
  stableSnapshots : Option Int
  attested : Bool
  controlSignals : Option (List PyStr)
  terminalReasonSha256 : Option PyStr
  terminalEvidenceSha256 : Option PyStr
  terminalAcknowledgement : Option Bool
  terminalPriorState : Option RequestState
  adoptedStrategy : Option PyStr
  adoptedStrategySha256 : Option PyStr
  adoptedNs : Option Nat
  createdNs : Nat
  updatedNs : Nat
  deriving DecidableEq

/-- `_sha256_text` -/
@[irreducible] def sha256Text (s : PyStr) : PyStr := Sha256.hexdigest (encodeUtf8 s)

/-- `hashlib.sha256(raw).hexdigest()` -/
@[irreducible] def sha256Bytes (raw : List Nat) : PyStr := Sha256.hexdigest raw

/-- `_SHA256_RE.fullmatch` -/
def isSha256 (s : PyStr) : Bool := isHexOf 64 s

theorem isSha256_sha256Text (s : PyStr) : isSha256 (sha256Text s) = true := by
  unfold sha256Text
  exact Sha256.hexdigest_isHexOf _

theorem isSha256_sha256Bytes (raw : List Nat) : isSha256 (sha256Bytes raw) = true := by
  unfold sha256Bytes
  exact Sha256.hexdigest_isHexOf _

def optText : Option PyStr → Json
  | none => .null
  | some s => .str s

def optNat : Option Nat → Json
  | none => .null
  | some n => .int n

/-- `_validate_utf8_text` of a text without lone surrogates: its number of bytes. -/
def validateText (value : PyStr) (label : String) (maxBytes : Nat) : Except Refusal Nat :=
  if strip value = [] then .error (.value (label ++ " must not be empty"))
  else if maxBytes < utf8Length value then
    .error (.value (label ++ " exceeds " ++ toString maxBytes ++ " UTF-8 bytes"))
  else .ok (utf8Length value)

/-- `_safe_optional_id` of a value that is given. -/
def safeId (value : PyStr) (label : String) : Except Refusal Unit := do
  let _ ← validateText value label 512
  if value.contains (Char.ofNat 0) then throw (.value (label ++ " contains NUL"))

/-- `_binding_sha256` -/
@[irreducible] def bindingSha256 (projectDir : PyStr) (elaborationId : Option PyStr)
    (contextId : PyStr) (recommendationId : Option PyStr) (checkpoint : Option (PyStr × PyStr × Nat))
    (promptSha256 : PyStr) (promptBytes : Nat) (predecessor : Option (PyStr × PyStr)) : PyStr :=
  let kind : PyStr := if predecessor = none then "new_chat".toList else "local_predecessor".toList
  let tail : List Json := [.str kind, optText (predecessor.map Prod.fst), optText (predecessor.map Prod.snd)]
  let head : List Json := [.str (sha256Text projectDir), optText elaborationId, .str contextId]
  let material : List Json := match checkpoint with
    | none =>
      if recommendationId = none then
        .str "browser-advisor-binding-v2".toList :: (head ++ (.str promptSha256 :: tail))
      else .str "browser-advisor-binding-v3".toList ::
        (head ++ (optText recommendationId :: .str promptSha256 :: tail))
    | some (checkpointId, checkpointSha256, checkpointBytes) =>
      .str "browser-advisor-binding-v4".toList :: (head ++ (optText recommendationId ::
        .str checkpointId :: .str checkpointSha256 :: .str (natText checkpointBytes) ::
        .str promptSha256 :: .str (natText promptBytes) :: tail))
  sha256Bytes ((Json.arr material).preimage (Json.compact false false))

/-- `_receipt_sha256` -/
@[irreducible] def receiptSha256 (row : Request) : PyStr :=
  let flag : Json := if row.attested then .int 1 else .null
  let state (s : RequestState) : Json := .str s.name.toList
  sha256Bytes ((Json.obj [("schema_version".toList, .int 5),
    ("transport".toList, .str "chatgpt_pro_browser".toList),
    ("request_id".toList, .str row.requestId), ("state".toList, state row.state),
    ("context_id".toList, .str row.contextId), ("binding_sha256".toList, .str row.bindingSha256),
    ("prompt_sha256".toList, .str row.promptSha256),
    ("authorization_scope_sha256".toList, optText row.authorizationScopeSha256),
    ("authorized_ns".toList, optNat row.authorizedNs),
    ("pre_click_token_sha256".toList, optText row.preClickTokenSha256),
    ("ui_mode".toList, optText row.uiMode),
    ("conversation_url_sha256".toList, optText row.conversationUrlSha256),
    ("reply_sha256".toList, optText row.replySha256), ("reply_bytes".toList, optNat row.replyBytes),
    ("stable_snapshots".toList, (row.stableSnapshots.map Json.int).getD .null),
    ("completion_actions_observed".toList, flag), ("composer_available".toList, flag),
    ("working_indicator_absent".toList, flag),
    ("terminal_reason_sha256".toList, optText row.terminalReasonSha256),
    ("terminal_evidence_sha256".toList, optText row.terminalEvidenceSha256),
    ("terminal_acknowledgement".toList,
      (row.terminalAcknowledgement.map fun b => Json.int (if b then 1 else 0)).getD .null),
    ("terminal_prior_state".toList, (row.terminalPriorState.map state).getD .null),
    ("adopted_strategy_sha256".toList, optText row.adoptedStrategySha256),
    ("lineage_kind".toList,
      .str (if row.predecessor = none then "new_chat".toList else "local_predecessor".toList)),
    ("predecessor_request_id".toList, optText (row.predecessor.map Predecessor.requestId)),
    ("predecessor_conversation_url_sha256".toList,
      optText (row.predecessor.map Predecessor.conversationUrlSha256)),
    ("predecessor_receipt_sha256".toList, optText (row.predecessor.map Predecessor.receiptSha256)),
    ("predecessor_state".toList, (row.predecessor.map fun p => state p.state).getD .null),
    ("lineage_root_request_id".toList, .str row.lineageRootRequestId),
    ("lineage_depth".toList, .int row.lineageDepth),
    ("recommendation_id".toList, optText row.recommendationId),
    ("checkpoint_id".toList, .str row.checkpointId),
    ("checkpoint_sha256".toList, .str row.checkpointSha256),
    ("checkpoint_bytes".toList, .int row.checkpointBytes),
    ("prompt_bytes".toList, .int row.promptBytes)]).preimage (Json.compact false true))

def maxDispatchAnchorBytes : Nat := 4096

/-- What the anchor of a dispatch says. -/
@[irreducible] def anchorText (row : Request) (tokenSha256 : PyStr) : List Nat :=
  (Json.obj [("schema_version".toList, .int 1), ("request_id".toList, .str row.requestId),
    ("binding_sha256".toList, .str row.bindingSha256), ("prompt_sha256".toList, .str row.promptSha256),
    ("authorization_scope_sha256".toList, optText row.authorizationScopeSha256),
    ("authorized_ns".toList, optNat row.authorizedNs),
    ("pre_click_token_sha256".toList, .str tokenSha256)]).preimage (Json.compact false true) ++ [10]

/-- `_dispatch_anchor_raw` -/
def dispatchAnchorRaw (row : Request) (tokenSha256 : PyStr) : Except Refusal (List Nat) :=
  if maxDispatchAnchorBytes < (anchorText row tokenSha256).length then
    .error (.advisor "advisor dispatch anchor exceeds its byte bound")
  else .ok (anchorText row tokenSha256)

/-- The database of one project, and the dispatch anchors beside it, by the request they are for. -/
structure Ledger where
  projectDir : PyStr
  requests : List Request
  anchors : PyStr → Option (List Nat)

namespace Ledger
variable (l : Ledger)

def request? (requestId : PyStr) : Option Request :=
  l.requests.find? fun row => row.requestId = requestId

/-- `_write_dispatch_anchor_once`: the digest, and the ledger with the new file. -/
def writeAnchorOnce (requestId : PyStr) (raw : List Nat) : Except Refusal (PyStr × Ledger) :=
  match l.anchors requestId with
  | some _ => .error (.state "advisor dispatch anchor already exists; Send cannot be reauthorized")
  | none => .ok (sha256Bytes raw,
      { l with anchors := fun id => if id = requestId then some raw else l.anchors id })

/-- `_assert_v5_request_integrity` -/
def assertIntegrity (row : Request) : Except Refusal Unit := do
  if row.promptSha256 ≠ sha256Text row.prompt ∨ row.promptBytes ≠ utf8Length row.prompt then
    throw (.conflict "checkpoint-bound request prompt integrity check failed")
  if isHexOf 16 row.checkpointId = false ∨ isSha256 row.checkpointSha256 = false ∨
      row.checkpointBytes = 0 ∨ 32 * 1024 < row.checkpointBytes then
    throw (.conflict "checkpoint-bound request identity is malformed")
  if row.bindingSha256 ≠ bindingSha256 l.projectDir row.elaborationId row.contextId
      row.recommendationId (some (row.checkpointId, row.checkpointSha256, row.checkpointBytes))
      row.promptSha256 row.promptBytes
      (row.predecessor.map fun p => (p.requestId, p.conversationUrlSha256)) then
    throw (.conflict "checkpoint-bound request binding integrity check failed")

/-- The states of a row that cannot have been dispatched. -/
def undispatched (row : Request) : Bool :=
  match row.state with
  | .prepared | .authorized | .abandoned => true
  | .failedNotSubmitted => row.terminalPriorState == some .authorized
  | _ => false

/-- `_assert_dispatch_anchor` -/
def assertAnchor (row : Request) : Except Refusal Unit :=
  match row.preClickTokenSha256 with
  | none =>
    if undispatched row = false then
      .error (.conflict "advisor state has no externally anchored pre-click token")
    else if l.anchors row.requestId ≠ none ∨ row.dispatchAnchorSha256 ≠ none then
      .error (.conflict "advisor dispatch anchor exists without a pre-click token")
    else .ok ()
  | some tokenSha256 =>
    if isSha256 tokenSha256 = false then
      .error (.value "pre-click token hash must be a lowercase SHA-256 digest")
    else if undispatched row = true then .error
      (.conflict "advisor pre-click token cannot be projected back to a pre-dispatch state")
    else
      match l.anchors row.requestId with
      | none => .error (.conflict "advisor dispatch anchor is missing")
      | some existing =>
        match dispatchAnchorRaw row tokenSha256 with
        | .error e => .error e
        | .ok expected =>
          if existing ≠ expected ∨ row.dispatchAnchorSha256 ≠ some (sha256Bytes existing) then
            .error (.conflict "advisor dispatch anchor differs from the durable request")
          else .ok ()

/-- `_get_in_tx` -/
def getInTx (requestId : PyStr) : Except Refusal Request :=
  match safeId requestId "request id" with
  | .error e => .error e
  | .ok _ =>
    match l.request? requestId with
    | none => .error (.advisor "unknown browser-advisor request")
    | some row =>
      match l.assertIntegrity row with
      | .error e => .error e
      | .ok _ => (l.assertAnchor row).map fun _ => row

/-- The first part of `_assert_lineage_in_tx`: what a row's own lineage fields must be. -/
def assertLineageFields (row : Request) : Except Refusal Unit := do
  match row.predecessor with
  | none =>
    if row.lineageRootRequestId ≠ row.requestId then
      throw (.conflict "new-chat lineage root is invalid")
    if row.lineageDepth ≠ 0 then throw (.conflict "new-chat lineage depth is invalid")
  | some p =>
    if p.requestId = [] then throw (.conflict "local continuation has no predecessor")
    if p.requestId = row.requestId then
      throw (.conflict "browser-advisor lineage cannot reference itself")
    if isSha256 p.conversationUrlSha256 = false then
      throw (.value "predecessor conversation URL hash must be a lowercase SHA-256 digest")
    if isSha256 p.receiptSha256 = false then
      throw (.value "predecessor receipt hash must be a lowercase SHA-256 digest")
    if p.state.continuable = false then
      throw (.conflict "predecessor state snapshot is not continuable")

/-- The second part: what the predecessor's own row must be now. -/
def assertPredecessor (row : Request) (p : Predecessor) : Except Refusal Unit := do
  let predecessor ← l.getInTx p.requestId
  if predecessor.contextId ≠ row.contextId then
    throw (.conflict "predecessor belongs to a different advisor context")
  if predecessor.state.continuable = false then
    throw (.state ("predecessor is not a known terminal response (" ++ predecessor.state.name ++ ")"))
  if predecessor.conversationUrlSha256 ≠ some p.conversationUrlSha256 then
    throw (.conflict "predecessor conversation URL binding changed")
  if predecessor.promptSha256 = row.promptSha256 then
    throw (.state ("a continuation must use a new evidence-specific prompt, not resend " ++
      "its predecessor prompt"))
  if row.lineageRootRequestId ≠ predecessor.lineageRootRequestId then
    throw (.conflict "continuation lineage root changed")
  if row.lineageDepth ≠ predecessor.lineageDepth + 1 then
    throw (.conflict "continuation lineage depth changed")

/-- The last part: nothing else extends the predecessor's conversation. -/
def assertHead (row : Request) (p : Predecessor) : Except Refusal Unit := do
  if l.requests.any fun other =>
      other.predecessor.map Predecessor.requestId == some p.requestId &&
      other.requestId != row.requestId && other.state != .failedNotSubmitted &&
      other.state != .abandoned then
    throw (.state ("predecessor already has another active, delivered, or " ++
      "outcome-unknown follow-up"))
  if l.requests.any fun other => other.requestId != row.requestId &&
      (other.conversationUrlSha256 == some p.conversationUrlSha256 ||
        other.predecessor.map Predecessor.conversationUrlSha256 == some p.conversationUrlSha256) &&
      other.state.inConversation then
    throw (.state ("the predecessor conversation already has an active or " ++
      "outcome-unknown intervention"))

/-- `_assert_lineage_in_tx` -/
def assertLineage (row : Request) (requireHead : Bool) : Except Refusal Unit := do
  assertLineageFields row
  match row.predecessor with
  | none => pure ()
  | some p =>
    l.assertPredecessor row p
    if requireHead then l.assertHead row p

/-- `_assert_delivery_conversation_in_tx` -/
def assertDelivery (row : Request) (urlSha256 : PyStr) (requireHead : Bool) : Except Refusal Unit := do
  l.assertLineage row requireHead
  match row.predecessor with
  | some p =>
    if p.conversationUrlSha256 ≠ urlSha256 then
      throw (.conflict "continuation did not use its predecessor conversation URL")
  | none =>
    if requireHead ∧ (l.requests.any fun other => other.requestId != row.requestId &&
        other.conversationUrlSha256 == some urlSha256) then
      throw (.conflict ("an existing ChatGPT conversation requires an explicit local " ++
        "predecessor; new-chat receipts cannot reuse it"))

/-- The ledger with one row replaced. -/
def set (row : Request) : Ledger := { l with requests := Rows.set Request.requestId row l.requests }

/-- The loop of `_initialize_dispatch_anchors`, over the rows still to check. -/
def initializeAnchors (l : Ledger) : List Request → Except Refusal Ledger
  | [] => .ok l
  | row :: rows =>
    match row.preClickTokenSha256 with
    | none =>
      if l.anchors row.requestId ≠ none then
        .error (.conflict "dispatch anchor exists without a committed pre-click token")
      else if row.dispatchAnchorSha256 ≠ none then
        .error (.conflict "dispatch anchor digest exists without a pre-click token")
      else initializeAnchors l rows
    | some tokenSha256 =>
      if isSha256 tokenSha256 = false then
        .error (.value "pre-click token hash must be a lowercase SHA-256 digest")
      else
        match dispatchAnchorRaw row tokenSha256 with
        | .error e => .error e
        | .ok raw =>
          let anchored := match l.anchors row.requestId with
            | none => l.writeAnchorOnce row.requestId raw
            | some existing =>
              if existing = raw then .ok (sha256Bytes existing, l)
              else .error (.conflict "legacy dispatch anchor differs from its durable request")
          match anchored with
          | .error e => .error e
          | .ok (anchorSha256, l) =>
            match row.dispatchAnchorSha256 with
            | none => initializeAnchors
                (l.set { row with dispatchAnchorSha256 := some anchorSha256 }) rows
            | some stored =>
              if stored ≠ anchorSha256 then
                .error (.conflict "dispatch anchor digest differs from the durable request")
              else initializeAnchors l rows

/-- `BrowserAdvisorBroker(project_dir)` on this ledger. -/
def «open» : Except Refusal Ledger := l.initializeAnchors l.requests

end Ledger

/-- What the patterns for credentials and control text, and `urlparse`, say of a text. -/
class Patterns where
  secretMarkers : PyStr → List PyStr
  controlSignals : PyStr → List PyStr
  isConversationUrl : PyStr → Bool

/-- `_validate_hash` -/
def validateHash (value : PyStr) (label : String) : Except Refusal Unit :=
  if isSha256 value then .ok () else .error (.value (label ++ " must be a lowercase SHA-256 digest"))

/-- `_assert_no_secret_material` -/
def assertNoSecret [Patterns] (value : PyStr) (label : String) : Except Refusal Unit :=
  let markers := Patterns.secretMarkers value
  if markers = [] then .ok ()
  else .error (.value (label ++ " contains credential-shaped material (" ++
    String.ofList (joinWith [','] markers) ++ "); refusing browser transmission or durable import"))

/-- `_validate_conversation_url` -/
def validateUrl [Patterns] (url : PyStr) : Except Refusal Unit := do
  let _ ← validateText url "conversation URL" 4096
  if !Patterns.isConversationUrl url then
    throw (.value "conversation URL must be an HTTPS chatgpt.com URL")

end Danus.Strategy
