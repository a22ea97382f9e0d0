import Danus.Lib.CodePoints
import Danus.Lib.Dict
import Danus.Lib.Intervals

/-! The telemetry of one turn: the items that start and complete, how long each kind of them takes, and
the token usage between them. -/
namespace Danus.HotJoin.Telemetry
open Python

/-- `MAX_TELEMETRY_ITEM_ID_BYTES` -/
def maxItemIdBytes : Nat := 512

/-- `MAX_TRACKED_ITEMS_PER_TURN` -/
def maxTrackedItems : Nat := 16384

def safeItemTypes : List PyStr := ["agentMessage", "collabAgentToolCall", "commandExecution",
  "contextCompaction", "dynamicToolCall", "enteredReviewMode", "exitedReviewMode", "fileChange",
  "hookPrompt", "imageGeneration", "imageView", "mcpToolCall", "plan", "reasoning", "sleep",
  "subAgentActivity", "userMessage", "webSearch"].map String.toList

def safeItemStatuses : List PyStr := ["completed", "declined", "failed", "inProgress"].map String.toList

inductive Category where
  | agentMessage | collabClose | collabOther | collabResume | collabSend | collabSpawn | collabWait
  | commandExecution | contextCompaction | dynamicTool | externalRetrieval | factRetrieval | fileChange
  | hookPrompt | imageGeneration | imageView | mcpToolOther | memorySearch | memoryWrite | otherItem
  | plan | reasoningItem | reviewMode | sleepWait | subagentActivity | userMessage | verification
  | verificationControl
  deriving DecidableEq, Repr

/-- `_DANUS_MCP_CATEGORIES` -/
def danusMcpCategories : List (PyStr × Category) := [
  ("fact_context".toList, .factRetrieval), ("fact_search".toList, .factRetrieval),
  ("fact_submit".toList, .verification), ("gm_add".toList, .memoryWrite),
  ("gm_get".toList, .memorySearch), ("gm_search".toList, .memorySearch),
  ("search_arxiv_theorems".toList, .externalRetrieval),
  ("verifier_control".toList, .verificationControl)]

/-- `_COLLAB_CATEGORIES` -/
def collabCategories : List (PyStr × Category) := [
  ("closeAgent".toList, .collabClose), ("close_agent".toList, .collabClose),
  ("resumeAgent".toList, .collabResume), ("resume_agent".toList, .collabResume),
  ("sendInput".toList, .collabSend), ("send_input".toList, .collabSend),
  ("spawnAgent".toList, .collabSpawn), ("spawn_agent".toList, .collabSpawn),
  ("wait".toList, .collabWait), ("wait_agent".toList, .collabWait)]

/-- `_ITEM_TYPE_CATEGORIES` -/
def itemTypeCategories : List (PyStr × Category) := [
  ("agentMessage".toList, .agentMessage), ("commandExecution".toList, .commandExecution),
  ("contextCompaction".toList, .contextCompaction), ("dynamicToolCall".toList, .dynamicTool),
  ("enteredReviewMode".toList, .reviewMode), ("exitedReviewMode".toList, .reviewMode),
  ("fileChange".toList, .fileChange), ("hookPrompt".toList, .hookPrompt),
  ("imageGeneration".toList, .imageGeneration), ("imageView".toList, .imageView),
  ("plan".toList, .plan), ("reasoning".toList, .reasoningItem), ("sleep".toList, .sleepWait),
  ("subAgentActivity".toList, .subagentActivity), ("userMessage".toList, .userMessage),
  ("webSearch".toList, .externalRetrieval)]

/-- `_RESUME_TRIGGER_CATEGORIES` -/
def resumeTriggerCategories : List Category := [.collabClose, .collabOther, .collabResume, .collabSend,
  .collabSpawn, .collabWait, .commandExecution, .contextCompaction, .dynamicTool, .externalRetrieval,
  .factRetrieval, .fileChange, .imageGeneration, .imageView, .mcpToolOther, .memorySearch, .memoryWrite,
  .sleepWait, .verification, .verificationControl]

/-- `_TOOL_OR_CONTROL_CATEGORIES` -/
def toolOrControlCategories : List Category := resumeTriggerCategories ++ [.reviewMode]

def waitCategories : List Category := [.collabWait, .sleepWait]

def memoryCategories : List Category := [.memorySearch, .memoryWrite]

def memoryWriteCategories : List Category := [.memoryWrite]

def retrievalCategories : List Category := [.externalRetrieval, .factRetrieval, .memorySearch]

/-- Why a summary is partial. -/
inductive Reason where
  | malformedItemStarted | conflictingItemStarted | itemStartedAfterCompletion
  | itemTrackingLimitReached | malformedItemCompleted | missingItemCompletedNotification
  | malformedItemCompletedTimestamp | terminalItemMissingCompletionTimestamp
  | itemTypeChangedDuringLifecycle | itemCompletionPrecedesStart | missingItemStartedNotification
  | invalidSpawnReceiverIdentity | missingSpawnReceiverList | terminalItemsUnavailable
  | malformedTerminalItem | itemStartedWithoutCompletion | turnDurationUnavailable
  | itemIntervalsExceedTurnDuration | internalItemTelemetryError | internalTerminalTelemetryError
  | tokenUsageNotificationUnavailable
  deriving DecidableEq, Repr

/-- The exceptions of a method, which its caller catches. -/
inductive Raised where
  | unicodeEncodeError | typeError
  deriving DecidableEq, Repr

/-- Whether a completion is notified or found in the terminal turn. -/
inductive Source where
  | notification | terminal
  deriving DecidableEq, Repr

/-- What a sample of the token usage is counted under. -/
inductive Trigger where
  | initialOrUnattributed
  | observedAfter (category : Category)
  | observedAfterMixedOrParallel
  deriving DecidableEq, Repr

/-- A text without surrogates. -/
def textOf : Option RawJson → Option PyStr
  | some (.str t) => CodeText.toStr? t
  | _ => none

/-- The type of `_item_identity`. -/
def itemType (item : RawJson) : Option PyStr :=
  match item.get? "type".toList with
  | some (.str t) =>
    if t = [] then none
    else some (((CodeText.toStr? t).filter (· ∈ safeItemTypes)).getD "other".toList)
  | _ => none

/-- `_item_identity`, which raises from an id that does not encode. -/
def itemIdentity (item : RawJson) : Except Raised (Option (PyStr × PyStr)) :=
  match item.get? "id".toList with
  | some (.str t) =>
    if t = [] then .ok none
    else
      match CodeText.toStr? t with
      | none => .error .unicodeEncodeError
      | some id =>
        .ok (if maxItemIdBytes < utf8Length id then none else (itemType item).map fun type => (id, type))
  | _ => .ok none

/-- A list or a `dict`, which no set can be asked for. -/
def unhashable : Option RawJson → Bool
  | some (.arr _) | some (.obj _) => true
  | _ => false

/-- `_item_category`, which raises from a server that has no hash. -/
def itemCategory (item : RawJson) : Except Raised Category :=
  if textOf (item.get? "type".toList) = some "mcpToolCall".toList then
    if unhashable (item.get? "server".toList) then .error .typeError
    else if textOf (item.get? "server".toList) = some "danus".toList then
      .ok (((textOf (item.get? "tool".toList)).bind fun tool => danusMcpCategories.lookup tool).getD .mcpToolOther)
    else .ok .mcpToolOther
  else if textOf (item.get? "type".toList) = some "collabAgentToolCall".toList then
    .ok (((textOf (item.get? "tool".toList)).bind fun tool => collabCategories.lookup tool).getD .collabOther)
  else .ok (((textOf (item.get? "type".toList)).bind fun type => itemTypeCategories.lookup type).getD .otherItem)

/-- `_item_status` -/
def itemStatus (item : RawJson) : PyStr :=
  ((textOf (item.get? "status".toList)).filter (· ∈ safeItemStatuses)).getD "observed".toList

/-- `_nonnegative_ms` -/
def nonnegativeMs : Option RawJson → Option Nat
  | some (.int i) => if 0 ≤ i then some i.toNat else none
  | _ => none

/-- `counts[key] = counts.get(key, 0) + 1` -/
def bump {α : Type} [DecidableEq α] (key : α) : List (α × Nat) → List (α × Nat)
  | [] => [(key, 1)]
  | (k, n) :: counts => if k = key then (k, n + 1) :: counts else (k, n) :: bump key counts

/-- `table[key] = value` -/
def put {α β : Type} [DecidableEq α] (key : α) (value : β) : List (α × β) → List (α × β)
  | [] => [(key, value)]
  | (k, v) :: table => if k = key then (key, value) :: table else (k, v) :: put key value table

/-- The counts of one usage sample, or their sums, by field. -/
abbrev Breakdown : Type := List (PyStr × Nat)

namespace Breakdown

/-- `breakdown.get(name, 0)` -/
def amount (b : Breakdown) (name : PyStr) : Nat := (b.lookup name).getD 0

/-- `set(a) == set(b)` -/
def SameFields (a b : Breakdown) : Prop :=
  (∀ name ∈ a.map Prod.fst, name ∈ b.map Prod.fst) ∧ ∀ name ∈ b.map Prod.fst, name ∈ a.map Prod.fst

instance (a b : Breakdown) : Decidable (SameFields a b) := inferInstanceAs (Decidable (_ ∧ _))

/-- `a == b`, of two that have the same fields. -/
def SameAmounts (a b : Breakdown) : Prop := ∀ name ∈ a.map Prod.fst, a.amount name = b.amount name

instance (a b : Breakdown) : Decidable (SameAmounts a b) :=
  inferInstanceAs (Decidable (∀ name ∈ a.map Prod.fst, _))

end Breakdown

/-- `_add_breakdown`; `none` is its `TelemetryError`. -/
def addBreakdown (aggregate : Option Breakdown) (increment : Breakdown) : Option Breakdown :=
  match aggregate with
  | none => some increment
  | some aggregate =>
    if aggregate.SameFields increment then
      some (aggregate.map fun f => (f.1, f.2 + increment.amount f.1))
    else none

/-- A usage notification: the last sample and the cumulative total. -/
structure Usage where
  last : Breakdown
  total : Breakdown
  deriving DecidableEq

/-- `token_usage_cumulative_total_changed`; `none` is its `TelemetryError`. -/
def tokenUsageCumulativeTotalChanged (previous : Option Usage) (current : Usage) : Option Bool :=
  if ¬ current.last.SameFields current.total then none
  else
    match previous with
    | none => some (current.last.any fun f => 0 < f.2)
    | some previous =>
      if ¬ previous.last.SameFields previous.total ∨ ¬ previous.total.SameFields current.total then none
      else if current.total.SameAmounts previous.total then
        if current.last.SameAmounts previous.last then some false else none
      else if current.total.all fun f =>
          previous.total.amount f.1 ≤ f.2 && f.2 - previous.total.amount f.1 = current.last.amount f.1 then
        some true
      else none

/-- `TurnReasoningBandwidth`. The intervals are listed under their categories as they come. -/
structure Bandwidth where
  starts : List (PyStr × Nat × PyStr) := []
  completedIds : List PyStr := []
  itemCounts : List (PyStr × Nat) := []
  operationCounts : List ((Category × PyStr) × Nat) := []
  intervals : List (Category × ℕ × ℕ) := []
  usageByResumeTrigger : List (Trigger × Breakdown) := []
  usageSampleCounts : List (Trigger × Nat) := []
  pendingResumeCategories : List Category := []
  degradationReasons : List Reason := []
  startedCount : Nat := 0
  completedNotificationCount : Nat := 0
  terminalRecoveredCount : Nat := 0
  missingStartCount : Nat := 0
  durationFallbackCount : Nat := 0
  duplicateStartCount : Nat := 0
  duplicateCompletionCount : Nat := 0
  malformedNotificationCount : Nat := 0
  compactionCount : Nat := 0
  branchSpawnCount : Nat := 0
  spawnedAgentCount : Nat := 0
  trackingLimitDropCount : Nat := 0

/-- How a method leaves the telemetry, and whether it raises there. -/
abbrev Outcome : Type := Except Bandwidth Bandwidth

namespace Bandwidth

def degrade (reason : Reason) (s : Bandwidth) : Bandwidth :=
  { s with degradationReasons := s.degradationReasons.insert reason }

/-- `len(self.starts) + len(self.completed_ids)` -/
def tracked (s : Bandwidth) : Nat := s.starts.length + s.completedIds.length

/-- An item over the tracking limit. -/
def dropItem (s : Bandwidth) : Bandwidth :=
  degrade .itemTrackingLimitReached { s with trackingLimitDropCount := s.trackingLimitDropCount + 1 }

/-- An item is tracked as started. -/
def addStart (id : PyStr) (started : Nat) (type : PyStr) (s : Bandwidth) : Bandwidth :=
  { s with starts := s.starts ++ [(id, started, type)], startedCount := s.startedCount + 1 }

/-- `observe_start` -/
def observeStart (item startedAt : RawJson) (s : Bandwidth) : Outcome :=
  match itemIdentity item with
  | .error _ => .error s
  | .ok identity =>
    match identity, nonnegativeMs (some startedAt) with
    | some (id, type), some started =>
      match s.starts.lookup id with
      | some previous =>
        let counted := { s with duplicateStartCount := s.duplicateStartCount + 1 }
        .ok (if previous = (started, type) then counted else counted.degrade .conflictingItemStarted)
      | none =>
        if id ∈ s.completedIds then
          .ok (degrade .itemStartedAfterCompletion
            { s with duplicateStartCount := s.duplicateStartCount + 1 })
        else if maxTrackedItems ≤ s.tracked then .ok s.dropItem
        else .ok (s.addStart id started type)
    | _, _ =>
      .ok (degrade .malformedItemStarted
        { s with malformedNotificationCount := s.malformedNotificationCount + 1 })

/-- The operation of a completion, and how it was observed. -/
def countOperation (category : Category) (status : PyStr) (source : Source) (s : Bandwidth) : Bandwidth :=
  let counted :=
    if category ∈ toolOrControlCategories ∨ category = .collabOther ∨ category = .subagentActivity then
      { s with operationCounts := bump (category, status) s.operationCounts }
    else s
  match source with
  | .notification =>
    { counted with completedNotificationCount := counted.completedNotificationCount + 1 }
  | .terminal =>
    degrade .missingItemCompletedNotification
      { counted with terminalRecoveredCount := counted.terminalRecoveredCount + 1 }

/-- `intervals_by_category[category].append((start, end))` -/
def addInterval (category : Category) (start stop : ℕ) (s : Bandwidth) : Bandwidth :=
  { s with intervals := s.intervals ++ [(category, start, stop)] }

/-- The interval of a completion: from its start, or else from its own duration. -/
def recordInterval (item : RawJson) (type : PyStr) (category : Category) (source : Source)
    (completed : Option Nat) (started : Option (Nat × PyStr)) (s : Bandwidth) : Bandwidth :=
  match completed, started with
  | none, _ =>
    match source with
    | .notification =>
      degrade .malformedItemCompletedTimestamp
        { s with malformedNotificationCount := s.malformedNotificationCount + 1 }
    | .terminal =>
      if started.isSome then s.degrade .terminalItemMissingCompletionTimestamp else s
  | some completed, some (startedMs, startedType) =>
    let typed := if startedType = type then s else s.degrade .itemTypeChangedDuringLifecycle
    if completed < startedMs then typed.degrade .itemCompletionPrecedesStart
    else typed.addInterval category startedMs completed
  | some completed, none =>
    let missing := degrade .missingItemStartedNotification
      { s with missingStartCount := s.missingStartCount + 1 }
    match nonnegativeMs (item.get? "durationMs".toList) with
    | some duration =>
      if duration ≤ completed then
        addInterval category (completed - duration) completed
          { missing with durationFallbackCount := missing.durationFallbackCount + 1 }
      else missing
    | none => missing

/-- One receiver of a spawn: its id, if it is valid. -/
def receiverOf : RawJson → Except Raised (Option PyStr)
  | .str t =>
    if t = [] then .ok none
    else
      match CodeText.toStr? t with
      | none => .error .unicodeEncodeError
      | some id => .ok (if utf8Length id ≤ maxItemIdBytes then some id else none)
  | _ => .ok none

/-- The agents that a completed spawn reports. -/
def countSpawn (item : RawJson) (s : Bandwidth) : Outcome :=
  let counted := { s with branchSpawnCount := s.branchSpawnCount + 1 }
  match item.get? "receiverThreadIds".toList with
  | some (.arr receivers) =>
    match receivers.mapM receiverOf with
    | .error _ => .error counted
    | .ok ids =>
      let valid := (ids.filterMap id).dedup
      let spawned := { counted with spawnedAgentCount := counted.spawnedAgentCount + valid.length }
      .ok (if valid.length = receivers.length then spawned
        else spawned.degrade .invalidSpawnReceiverIdentity)
  | _ => .ok (counted.degrade .missingSpawnReceiverList)

/-- The end of `observe_completion`: compactions, spawns, and what the next usage sample follows. -/
def finishCompletion (item : RawJson) (category : Category) (source : Source) (s : Bandwidth) : Outcome :=
  let compacted :=
    if category = .contextCompaction then { s with compactionCount := s.compactionCount + 1 } else s
  let spawned : Outcome :=
    if category = .collabSpawn ∧ itemStatus item = "completed".toList then compacted.countSpawn item
    else .ok compacted
  spawned.map fun t =>
    if source = .notification ∧ category ∈ resumeTriggerCategories then
      { t with pendingResumeCategories := t.pendingResumeCategories.insert category }
    else t

/-- An item under its id and its type. -/
def complete (id type : PyStr) (s : Bandwidth) : Bandwidth :=
  { s with completedIds := s.completedIds ++ [id], itemCounts := bump type s.itemCounts }

/-- `starts.pop(item_id, None)` -/
def popStart (id : PyStr) (s : Bandwidth) : Bandwidth := { s with starts := eraseKey id s.starts }

/-- `observe_completion` -/
def observeCompletion (item completedAt : RawJson) (source : Source) (s : Bandwidth) : Outcome :=
  match itemIdentity item with
  | .error _ => .error s
  | .ok none =>
    .ok (degrade .malformedItemCompleted { s with
      malformedNotificationCount := s.malformedNotificationCount + if source = .notification then 1 else 0 })
  | .ok (some (id, type)) =>
    if id ∈ s.completedIds then
      .ok { s with
        duplicateCompletionCount := s.duplicateCompletionCount + if source = .notification then 1 else 0 }
    else if s.starts.lookup id = none ∧ maxTrackedItems ≤ s.tracked then .ok s.dropItem
    else
      match itemCategory item with
      | .error _ => .error (s.complete id type)
      | .ok category =>
        let counted := (s.complete id type).countOperation category (itemStatus item) source
        finishCompletion item category source
          ((counted.popStart id).recordInterval item type category source
            (nonnegativeMs (some completedAt)) (s.starts.lookup id))

/-- What the next usage sample is counted under. -/
def trigger (s : Bandwidth) : Trigger :=
  match s.pendingResumeCategories with
  | [] => .initialOrUnattributed
  | [category] => .observedAfter category
  | _ => .observedAfterMixedOrParallel

/-- `observe_usage_growth` -/
def observeUsageGrowth (breakdown : Breakdown) (s : Bandwidth) : Outcome :=
  match addBreakdown (s.usageByResumeTrigger.lookup s.trigger) breakdown with
  | none => .error s
  | some sum =>
    .ok { s with
      usageByResumeTrigger := put s.trigger sum s.usageByResumeTrigger
      usageSampleCounts := bump s.trigger s.usageSampleCounts
      pendingResumeCategories := [] }

/-- One item of a terminal turn. -/
def reconcileItem (item : RawJson) (s : Bandwidth) : Outcome :=
  match itemIdentity item with
  | .error _ => .error s
  | .ok none => .ok (s.degrade .malformedTerminalItem)
  | .ok (some identity) =>
    if identity.1 ∈ s.completedIds then .ok s else s.observeCompletion item .null .terminal

/-- The items of a terminal turn; an exception ends the loop. -/
def reconcileItems : List RawJson → Bandwidth → Outcome
  | [], s => .ok s
  | item :: items, s => s.reconcileItem item >>= reconcileItems items

/-- `reconcile_terminal_items` -/
def reconcileTerminalItems (items : RawJson) (s : Bandwidth) : Outcome :=
  match items with
  | .arr items => reconcileItems items s
  | _ => .ok (s.degrade .terminalItemsUnavailable)

/-- `self.intervals_by_category.get(category, [])` -/
def intervalsOf (s : Bandwidth) (category : Category) : List (ℕ × ℕ) :=
  (s.intervals.filter fun p => p.1 = category).map Prod.snd

/-- `union` of `summary` -/
def union (s : Bandwidth) (categories : List Category) : ℕ :=
  Intervals.unionLength (categories.flatMap s.intervalsOf)

/-- The categories with intervals. -/
def measuredCategories (s : Bandwidth) : List Category := (s.intervals.map Prod.fst).dedup

end Bandwidth

/-- What `summary` returns, without the shares, which are floats. -/
structure Summary where
  finalityReasons : List Reason
  itemCounts : List (PyStr × Nat)
  completedCount : Nat
  incompleteStartedCount : Nat
  activeMsByCategory : List (Category × ℕ)
  toolOrControlUnionMs : ℕ
  waitUnionMs : ℕ
  memoryUnionMs : ℕ
  memoryWriteUnionMs : ℕ
  retrievalUnionMs : ℕ
  reasoningItemUnionMs : ℕ
  measuredItemUnionMs : ℕ
  nonToolResidualMs : Option ℕ
  unattributedResidualMs : Option ℕ
  usageGrowthTokensByResumeTrigger : List (Trigger × Breakdown)

/-- `finality` is `complete`. -/
def Summary.Complete (summary : Summary) : Prop := summary.finalityReasons = []

/-- `summary` -/
def Bandwidth.summary (turnDuration : RawJson) (s : Bandwidth) : Summary :=
  let duration := nonnegativeMs (some turnDuration)
  let toolUnion := s.union toolOrControlCategories
  let measuredUnion := s.union s.measuredCategories
  let exceeds := duration.any fun d => d < toolUnion || d < measuredUnion
  { finalityReasons := s.degradationReasons ++
      (if s.starts = [] then [] else [.itemStartedWithoutCompletion]) ++
      (if duration.isNone then [.turnDurationUnavailable] else []) ++
      (if exceeds then [.itemIntervalsExceedTurnDuration] else [])
    itemCounts := s.itemCounts
    completedCount := s.completedIds.length
    incompleteStartedCount := s.starts.length
    activeMsByCategory := s.measuredCategories.map fun category =>
      (category, Intervals.unionLength (s.intervalsOf category))
    toolOrControlUnionMs := toolUnion
    waitUnionMs := s.union waitCategories
    memoryUnionMs := s.union memoryCategories
    memoryWriteUnionMs := s.union memoryWriteCategories
    retrievalUnionMs := s.union retrievalCategories
    reasoningItemUnionMs := s.union [.reasoningItem]
    measuredItemUnionMs := measuredUnion
    nonToolResidualMs := duration.map fun d => d - min d toolUnion
    unattributedResidualMs := duration.map fun d => d - min d measuredUnion
    usageGrowthTokensByResumeTrigger := s.usageByResumeTrigger }

/-- What the client keeps of one turn. -/
structure Turn where
  bandwidth : Bandwidth := {}
  /-- The last usage that was accepted. -/
  usage : Option Usage := none

/-- What the client hears of one turn. -/
inductive Call where
  | itemStarted (item startedAt : RawJson)
  | itemCompleted (item completedAt : RawJson)
  /-- A usage notification, or nothing where `_canonical_token_usage` raises. -/
  | tokenUsage (usage : Option Usage)
  | terminalItems (items : RawJson)

/-- The handler of `item/started` and `item/completed`. -/
def handled : Outcome → Bandwidth
  | .ok s => s
  | .error s => Bandwidth.degrade .internalItemTelemetryError
      { s with malformedNotificationCount := s.malformedNotificationCount + 1 }

/-- The handler around `reconcile_terminal_items`. -/
def reconciled : Outcome → Bandwidth
  | .ok s => s
  | .error s => s.degrade .internalTerminalTelemetryError

namespace Turn

/-- A usage notification that is not accepted. -/
def rejectUsage (turn : Turn) (s : Bandwidth) : Turn :=
  { turn with bandwidth := s.degrade .tokenUsageNotificationUnavailable }

/-- The handler of `thread/tokenUsage/updated`. -/
def observeUsage (turn : Turn) (usage : Option Usage) : Turn :=
  match usage with
  | none => turn.rejectUsage turn.bandwidth
  | some current =>
    match tokenUsageCumulativeTotalChanged turn.usage current with
    | none => turn.rejectUsage turn.bandwidth
    | some false => { turn with usage := some current }
    | some true =>
      match turn.bandwidth.observeUsageGrowth current.last with
      | .error s => turn.rejectUsage s
      | .ok s => { bandwidth := s, usage := some current }

/-- One notification of the turn, or one look at its terminal items. -/
def step (turn : Turn) : Call → Turn
  | .itemStarted item startedAt =>
    { turn with bandwidth := handled (turn.bandwidth.observeStart item startedAt) }
  | .itemCompleted item completedAt =>
    { turn with bandwidth := handled (turn.bandwidth.observeCompletion item completedAt .notification) }
  | .tokenUsage usage => turn.observeUsage usage
  | .terminalItems items =>
    { turn with bandwidth := reconciled (turn.bandwidth.reconcileTerminalItems items) }

end Turn

end Danus.HotJoin.Telemetry
