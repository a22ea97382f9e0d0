import Danus.Coordination.Reviews

/-! Paid round slots: admission, prompt pinning, activation, ambiguity, completion. -/
namespace Danus.Coordination
open Python Transaction

structure Admission where
  slotId : PyStr
  worker : PyStr
  lane : Lane
  generation : Nat
  phase : Phase
  directive : PyStr
  task : PyStr
  taskSha256 : PyStr
  taskBytes : Nat
  prompt : Option PyStr
  promptSha256 : Option PyStr
  state : SlotState
  resumed : Bool
  phaseDeadlineAt : SqlReal
  hardTimeoutSeconds : Nat
  reviewId : Option PyStr
  designatedRootEntryId : Option PyStr

/-- `coordination_directive`, its error raised by the store. -/
def slotDirective (lane : Lane) (generation : Nat) (phase : Phase)
    (reviewId designatedRootEntryId : Option PyStr) : Except StoreError PyStr :=
  (coordinationDirective lane generation phase reviewId designatedRootEntryId).mapError .directive

namespace CoordinationStore
variable (S : CoordinationStore)

/-- `_admission` of a row joined with the project's deadline. -/
def admission (row : RoundSlot) (resumed : Bool) : StoreTx Admission := do
  let t ← look
  Tx.check (S.validateSlotTaskBinding t row)
  let directive ← Tx.check
    (slotDirective row.lane row.generation row.phase row.reviewId row.designatedRootEntryId)
  Tx.ensure (row.directive = directive) (.binding .directiveConflict)
  return {
    slotId := row.slotId, worker := row.worker, lane := row.lane, generation := row.generation
    phase := row.phase, directive := row.directive, task := row.task.getD []
    taskSha256 := row.taskSha256.getD [], taskBytes := row.taskBytes.getD 0
    prompt := row.prompt, promptSha256 := row.promptSha256, state := row.state, resumed
    phaseDeadlineAt := t.project.phaseDeadlineAt
    hardTimeoutSeconds := S.config.phaseTimeoutSeconds
    reviewId := row.reviewId, designatedRootEntryId := row.designatedRootEntryId }

/-- Whether the phase lets this worker's lane have a slot. -/
def laneEligible (t : Tables) (review : Option ObstacleReview) (worker : PyStr) : Bool :=
  if t.project.phase = .criticReview then
    S.workerLane worker == .critic &&
    match review with
    | none => false
    | some r => (r.state == .pending || r.state == .active) && r.criticWorker == worker &&
      r.generation == t.project.generation
  else decide (worker ∈ S.roster.lanes.map Prod.fst)

/-- The admission freeze of a task that is not frozen yet. -/
def freezeTask (row : GenerationTask) (observedAt : Stamp) : StoreTx Unit :=
  Tx.when (row.frozenAt = none) do
    let changed ← updateTasks (fun a => decide (a.key = row.key) && a.frozenAt.isNone)
      fun a => { a with frozenAt := observedAt }
    Tx.ensure (changed = 1) (.contradiction .admissionFreezeCas)

/-- The review a critic slot is admitted for starts with it. -/
def activateReview (review : ObstacleReview) (slotId : PyStr) (observedAt : Stamp) :
    StoreTx Unit := do
  let changed ← updateReviews
    (fun r => decide (r.reviewId = review.reviewId) &&
      (r.state == .pending && r.criticSlotId.isNone))
    fun r => { r with state := .active, criticSlotId := some slotId, activatedAt := observedAt }
  Tx.ensure (changed = 1) (.contradiction .criticAdmissionCas)

/-- The review update of `admit`, which only a critic review slot has. -/
def activateSlotReview (slotReview : Option ObstacleReview) (slotId : PyStr) (observedAt : Stamp) :
    StoreTx Unit :=
  match slotReview with
  | some review => activateReview review slotId observedAt
  | none => return ()

/-- The row `admit` inserts. -/
def preparedSlot (slotId worker : PyStr) (lane : Lane) (generation : Nat) (phase : Phase)
    (directive task : PyStr) (identity : PyStr × Nat) (slotReview : Option ObstacleReview)
    (createdAt : SqlReal) : RoundSlot where
  slotId := slotId
  worker := worker
  lane := lane
  generation := generation
  phase := phase
  state := .prepared
  directive := directive
  task := some task
  taskSha256 := some identity.1
  taskBytes := some identity.2
  promptTaskSha256 := none
  legacyTaskBinding := 0
  prompt := none
  promptSha256 := none
  createdAt := createdAt
  activatedAt := none
  terminalAt := none
  outcome := none
  reviewId := slotReview.map (·.reviewId)
  designatedRootEntryId := slotReview.map (·.rootEntryId)

/-- The end of `admit`: the worker's state, and the slot as it was written. -/
def admitted (slot : RoundSlot) (observedAt : Stamp) : StoreTx Admission := do
  writeWorkerState slot.worker slot.lane .admitted slot.generation slot.phase observedAt
  let t ← look
  let row ← Tx.fetched (t.slot? slot.slotId) (.contradiction .admittedDisappeared)
  S.admission row false

/-- The slot insertion of `admit`. -/
def reserveSlot (worker : PyStr) (lane : Lane) (uuid : PyStr) (slotReview : Option ObstacleReview)
    (observedAt : Stamp) : StoreTx Admission := do
  let t ← look
  let generation := t.project.generation
  let phase := t.project.phase
  let assignment ← Tx.fetched (t.task? worker generation) (.refusal .noTaskAssignment)
  let identity ← Tx.check (S.validateGenerationTaskRow assignment)
  Tx.ensure (assignment.lane = lane) (.contradiction .admissionLane)
  freezeTask assignment observedAt
  let directive ← Tx.check (slotDirective lane generation phase (slotReview.map (·.reviewId))
    (slotReview.map (·.rootEntryId)))
  let createdAt ← notNull observedAt
  let new := preparedSlot ("slot_".toList ++ uuid) worker lane generation phase directive
    assignment.task identity slotReview createdAt
  put fun t => { t with slots := t.slots ++ [new] }
  activateSlotReview slotReview new.slotId observedAt
  S.admitted new observedAt

/-- `admit` for a worker without an open slot. -/
def admitFresh (worker : PyStr) (lane : Lane) (uuid : PyStr) (observedAt : Stamp) :
    StoreTx (Option Admission) := do
  let t ← look
  let generation := t.project.generation
  let phase := t.project.phase
  let expired := observedAt.ge t.project.phaseDeadlineAt
  let review ← activeReview
  if S.laneEligible t review worker = false ∨ phase = .ownerActionRequired ∨ t.overlaid = true ∨
      expired = true then
    writeWorkerState worker lane (if expired then .phaseExpired else .waitingAdmission) generation
      phase observedAt
    return none
  else if (t.slots.any fun s => s.worker == worker && s.generation == generation &&
        s.phase == phase && s.state == .terminal) = true ∨
      S.config.maxPaidWorkers ≤ t.slots.countP (·.open) then
    writeWorkerState worker lane .waitingAdmission generation phase observedAt
    return none
  else
    let slotReview := if phase = .criticReview then review else none
    let result ← S.reserveSlot worker lane uuid slotReview observedAt
    return some result

/-- `admit` -/
def admitWorker (worker uuid : PyStr) (observedAt : Stamp) : StoreTx (Option Admission) := do
  validateIdentifier worker "worker"
  let lane := S.workerLane worker
  let t ← look
  match t.slots.find? fun s => s.worker == worker && s.open with
  | some existing =>
    if observedAt.ge t.project.phaseDeadlineAt = true ∧ existing.state = .prepared then
      S.terminalizeExpiredPrepared existing observedAt
      return none
    else
      writeWorkerState worker lane .admitted existing.generation existing.phase observedAt
      let result ← S.admission existing true
      return some result
  | none => S.admitFresh worker lane uuid observedAt

/-- `pin_prompt` -/
def pinPrompt (slotId prompt : PyStr) : StoreTx Admission := do
  validateIdentifier slotId "slot_id"
  Tx.ensure (prompt ≠ []) (.refusal .promptEmpty)
  Tx.ensure (utf8Length prompt ≤ maxPinnedPromptBytes) (.refusal .promptTooLong)
  let t ← look
  let row ← Tx.fetched ((t.slot? slotId).filter (·.open)) (.refusal .notPinnable)
  Tx.check (S.validateSlotTaskBinding t row)
  Tx.ensure (bindsSlot prompt row) (.refusal .promptUnbound)
  Tx.when (row.prompt = none) do
    let _ ← updateSlots (fun s => decide (s.slotId = slotId) && s.prompt.isNone) fun s => { s with
      prompt := some prompt, promptSha256 := some (Sha256.hexdigest (encodeUtf8 prompt))
      promptTaskSha256 := row.taskSha256 }
  let t ← look
  let joined ← Tx.fetched (t.slot? slotId) (.contradiction .pinDisappeared)
  S.admission joined row.prompt.isSome

/-- The transaction of `activate`; an expired slot commits its expiry and raises afterwards. -/
def activateBody (slotId : PyStr) (activatedAt : Stamp) :
    StoreTx (Except StoreError Admission) := do
  validateIdentifier slotId "slot_id"
  let t ← look
  let row ← Tx.fetched ((t.slot? slotId).filter (·.open)) (.refusal .notActivatable)
  Tx.check (S.validateSlotTaskBinding t row)
  Tx.ensure (row.prompt ≠ none ∧ row.promptSha256 ≠ none) (.refusal .noPinnedPrompt)
  if row.state = .prepared ∧ activatedAt.ge t.project.phaseDeadlineAt = true then
    S.terminalizeExpiredPrepared row activatedAt
    return .error (.refusal .deadlineExceeded)
  else
    Tx.when (row.state = .prepared) do
      let _ ← updateSlots (fun s => decide (s.slotId = slotId) && s.state == .prepared)
        fun s => { s with state := .active, activatedAt := activatedAt }
    let t ← look
    let joined ← Tx.fetched (t.slot? slotId) (.contradiction .activationDisappeared)
    let result ← S.admission joined (row.state != .prepared)
    return .ok result

/-- `mark_ambiguous` -/
def markAmbiguous (slotId : PyStr) (now : Stamp) : StoreTx Unit := do
  validateIdentifier slotId "slot_id"
  let t ← look
  let slot ← Tx.fetched ((t.slot? slotId).filter (·.open)) (.refusal .notAmbiguable)
  Tx.check (S.validateSlotTaskBinding t slot)
  let changed ← updateSlots (fun s => decide (s.slotId = slotId) && s.open)
    fun s => { s with state := .ambiguous }
  Tx.ensure (changed = 1) (.contradiction .ambiguousCas)
  writeWorkerState slot.worker slot.lane .ambiguous slot.generation slot.phase now

/-- The critic review's receipt of its terminal slot. -/
def recordReviewTerminal (slot : RoundSlot) (terminalAt : Stamp) : StoreTx Unit :=
  Tx.when (slot.phase = .criticReview ∧ slot.reviewId ≠ none) do
    let changed ← updateReviews
      (fun r => decide (some r.reviewId = slot.reviewId) &&
        (r.criticSlotId == some slot.slotId && (r.state == .active || r.state == .confirmed)))
      fun r => { r with terminalAt := r.terminalAt.or terminalAt }
    Tx.ensure (changed = 1) (.contradiction .reviewReceipt)

/-- The transaction of `complete`. -/
def completeBody (slotId outcome : PyStr) (terminalAt : Stamp) : StoreTx Unit := do
  validateIdentifier slotId "slot_id"
  Tx.ensure (outcome ≠ []) (.refusal .outcomeEmpty)
  Tx.ensure (utf8Length outcome ≤ maxOutcomeBytes) (.refusal .outcomeTooLong)
  let t ← look
  let slot ← Tx.fetched (t.slot? slotId) (.refusal .noSlot)
  Tx.check (S.validateSlotTaskBinding t slot)
  if slot.state = .terminal then
    Tx.ensure (slot.outcome = some outcome) (.refusal .outcomeConflict)
  else
    let _ ← updateSlots (fun s => decide (s.slotId = slotId)) fun s => { s with
      state := .terminal, terminalAt := terminalAt, outcome := some outcome }
    recordReviewTerminal slot terminalAt
    writeWorkerState slot.worker slot.lane .terminal slot.generation slot.phase terminalAt
    let _ ← S.advanceGenerationIfReady terminalAt

end CoordinationStore
end Danus.Coordination
