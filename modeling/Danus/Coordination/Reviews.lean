import Danus.Coordination.Tasks

/-! Slots as provenance, obstacle reviews, recommendations, and the advance of a generation. -/
namespace Danus.Coordination
open Python Transaction

def Tables.evidence? (t : Tables) (entryId : PyStr) : Option EvidenceEntry :=
  t.evidence.find? fun e => e.entryId = entryId

def Tables.review? (t : Tables) (reviewId : PyStr) : Option ObstacleReview :=
  t.reviews.find? fun r => r.reviewId = reviewId

def Tables.recommendation? (t : Tables) (recommendationId : PyStr) :
    Option AdvisorRecommendation :=
  t.recommendations.find? fun r => r.recommendationId = recommendationId

def Tables.resolution? (t : Tables) (recommendationId : PyStr) : Option RecommendationResolution :=
  t.resolutions.find? fun r => r.recommendationId = recommendationId

def Tables.candidate? (t : Tables) (candidateId : PyStr) : Option Candidate :=
  t.candidates.find? fun c => c.candidateId = candidateId

/-- `SELECT 1 FROM evidence_entries WHERE entry_id=? AND generation=? AND lane='root' …` -/
def Tables.rootEvidence (t : Tables) (entryId : PyStr) (generation : Nat) : Bool :=
  t.evidence.any fun e => e.entryId == entryId && e.generation == generation && e.lane == .root &&
    e.kind.isObstacle

/-- `state IN ('active','ambiguous','terminal')` -/
def RoundSlot.past (s : RoundSlot) : Bool := s.state != .prepared

/-- `obstacle_review_id` past its checks. -/
def obstacleReviewId (generation : Nat) (rootEntryId rootSlotId criticWorker : PyStr) : PyStr :=
  "review_".toList ++ Sha256.hexdigest (Json.preimage (Json.compact true true) (.obj [
    ("schema".toList, .str "danus_obstacle_review_v1".toList),
    ("generation".toList, .int generation),
    ("root_entry_id".toList, .str rootEntryId),
    ("root_slot_id".toList, .str rootSlotId),
    ("critic_worker".toList, .str criticWorker)]))

/-- The upsert of `_write_worker_state`. -/
def putWorker (w : WorkerState) (rows : List WorkerState) : List WorkerState :=
  if rows.any fun r => r.worker == w.worker then
    Rows.update (fun r => decide (r.worker = w.worker)) (fun _ => w) rows
  else rows ++ [w]

/-- `_write_worker_state` -/
def writeWorkerState (worker : PyStr) (lane : Lane) (state : AdmissionState) (generation : Nat)
    (phase : Phase) (now : Stamp) : StoreTx Unit := do
  let updatedAt ← notNull now
  let new : WorkerState := ⟨worker, lane, state, generation, phase, updatedAt⟩
  put fun t => { t with workers := putWorker new t.workers }

/-- `_active_review` -/
def activeReview : StoreTx (Option ObstacleReview) := do
  let t ← look
  match t.project.activeReviewId with
  | none => return none
  | some reviewId =>
    let review ← Tx.fetched ((t.review? reviewId).filter (·.live)) (.contradiction .reviewPointer)
    return some review

/-- The lanes of the terminal slots of the project's generation and phase. -/
def Tables.completedLanes (t : Tables) : List Lane :=
  (t.slots.filter fun s => s.generation == t.project.generation && s.phase == t.project.phase &&
    s.state == .terminal).map (·.lane)

namespace CoordinationStore
variable (S : CoordinationStore)

/-- `_canonical_paid_slot` -/
def canonicalPaidSlot (worker : PyStr) (slotId : Option PyStr) : StoreTx RoundSlot := do
  validateIdentifier worker "worker"
  Tx.when (slotId.isSome = true) (validateIdentifier (slotId.getD []) "slot_id")
  let t ← look
  let row ← Tx.fetched (t.slots.find? fun s => s.worker == worker && s.dispatched &&
    (slotId.isNone || some s.slotId == slotId)) (.refusal .noPaidSlot)
  Tx.ensure (row.generation = t.project.generation ∧ row.lane = S.workerLane worker)
    (.contradiction .slotNotCanonical)
  Tx.check (S.validateSlotTaskBinding t row)
  return row

/-- `_terminal_reconciliation_slot` -/
def terminalReconciliationSlot (worker slotId : PyStr) : StoreTx RoundSlot := do
  validateIdentifier worker "worker"
  validateIdentifier slotId "slot_id"
  let t ← look
  let row ← Tx.fetched (t.slots.find? fun s => s.worker == worker && s.slotId == slotId && s.past)
    (.refusal .noReconciliationSlot)
  Tx.ensure (row.lane = S.workerLane worker) (.contradiction .reconciliationRoster)
  Tx.ensure (row.state = .terminal ∨ row.generation = t.project.generation)
    (.contradiction .reconciliationGeneration)
  Tx.ensure (row.state ≠ .terminal ∨ row.generation ≤ t.project.generation)
    (.contradiction .reconciliationFuture)
  return row

/-- `_canonical_candidate_slot` -/
def canonicalCandidateSlot (worker slotId : PyStr) (requireCurrentGeneration : Bool) :
    StoreTx RoundSlot := do
  validateIdentifier worker "worker"
  validateIdentifier slotId "slot_id"
  let t ← look
  let row ← Tx.fetched (t.slots.find? fun s => s.worker == worker && s.slotId == slotId && s.past)
    (.refusal .noCandidateSlot)
  Tx.ensure (row.lane = S.workerLane worker ∧
      (requireCurrentGeneration = true → row.generation = t.project.generation))
    (.refusal .candidateGeneration)
  return row

/-- The evidence and the slot of a root review agree with each other and with the roster. -/
def canonicalRoot (t : Tables) (rootEntryId rootSlotId : PyStr) (generation : Nat) : Prop :=
  ∃ slot ∈ t.slot? rootSlotId, ∃ e ∈ t.evidence? rootEntryId,
    slot.lane = .root ∧ slot.worker = S.roster.root ∧ slot.generation = generation ∧
    e.slotId = rootSlotId ∧ e.generation = generation ∧ e.lane = .root ∧
    e.worker = S.roster.root ∧ e.kind.isObstacle = true

instance (t : Tables) (rootEntryId rootSlotId : PyStr) (generation : Nat) :
    Decidable (S.canonicalRoot t rootEntryId rootSlotId generation) :=
  match hs : t.slot? rootSlotId, he : t.evidence? rootEntryId with
  | some slot, some e =>
    decidable_of_iff (slot.lane = .root ∧ slot.worker = S.roster.root ∧
      slot.generation = generation ∧ e.slotId = rootSlotId ∧ e.generation = generation ∧
      e.lane = .root ∧ e.worker = S.roster.root ∧ e.kind.isObstacle = true)
      (by simp [canonicalRoot, hs, he])
  | none, _ => isFalse (by simp [canonicalRoot, hs])
  | some _, none => isFalse (by simp [canonicalRoot, he])

/-- The row `_ensure_review_for_root_locked` inserts. -/
def pendingReview (reviewId rootEntryId rootSlotId critic : PyStr) (generation : Nat)
    (createdAt : SqlReal) : ObstacleReview where
  reviewId := reviewId
  generation := generation
  rootEntryId := rootEntryId
  rootSlotId := rootSlotId
  criticWorker := critic
  criticSlotId := none
  confirmationEntryId := none
  state := .pending
  createdAt := createdAt
  activatedAt := none
  terminalAt := none

/-- The `INSERT` and the pointer update of `_ensure_review_for_root_locked`. -/
def designateReview (reviewId rootEntryId rootSlotId critic : PyStr) (generation : Nat)
    (createdAt : Stamp) : StoreTx Unit := do
  let at' ← notNull createdAt
  let new := pendingReview reviewId rootEntryId rootSlotId critic generation at'
  put fun t => { t with reviews := t.reviews ++ [new] }
  let t ← look
  Tx.ensure (t.project.generation = generation ∧ t.project.activeReviewId = none ∧
      t.project.recommendationId = none) (.contradiction .rootReviewCas)
  updateProject fun p => { p with activeReviewId := some reviewId, updatedAt := at' }

/-- `_ensure_review_for_root_locked` -/
def ensureReviewForRoot (rootEntryId rootSlotId : PyStr) (generation : Nat) (createdAt : Stamp) :
    StoreTx (Option PyStr) :=
  match S.roster.critic with
  | none => return none
  | some critic => do
    validateIdentifier rootEntryId "root_entry_id"
    validateIdentifier rootSlotId "root_slot_id"
    Tx.ensure (1 ≤ generation) (.refusal .reviewGeneration)
    validateIdentifier critic "critic_worker"
    let reviewId := obstacleReviewId generation rootEntryId rootSlotId critic
    let t ← look
    Tx.ensure (S.canonicalRoot t rootEntryId rootSlotId generation) (.refusal .reviewNotCanonical)
    match t.reviews.find? fun r => r.rootSlotId = rootSlotId with
    | some existing =>
      Tx.ensure (existing.reviewId = reviewId ∧ existing.generation = generation ∧
          existing.rootEntryId = rootEntryId ∧ existing.criticWorker = critic)
        (.refusal .reviewRedesignated)
      return some existing.reviewId
    | none =>
      Tx.ensure (t.reviews.any (·.live) = false) (.refusal .otherReviewLive)
      designateReview reviewId rootEntryId rootSlotId critic generation createdAt
      return some reviewId

/-- The lanes whose terminal slots let the phase end. -/
def phaseLanes (phase : Phase) : List Lane :=
  if phase = .criticReview then [.critic] else requiredLanes S.roster

/-- The transition of `_advance_generation_if_ready` into the critic review. -/
def enterCriticReview (review : ObstacleReview) (observedAt : Stamp) : StoreTx Unit := do
  let t ← look
  Tx.ensure (review.state = .pending ∧ review.generation = t.project.generation)
    (.contradiction .nonPendingReview)
  Tx.ensure (t.project.phase = .reasoning ∧ t.project.activeReviewId = some review.reviewId ∧
      t.project.recommendationId = none) (.contradiction .criticPhaseCas)
  let now ← notNull observedAt
  updateProject fun p => { p with
    phase := .criticReview, phaseStartedAt := now
    phaseDeadlineAt := now.add S.config.phaseTimeoutSeconds, updatedAt := now }

/-- The end of a critic review that confirmed nothing. -/
def failCriticReview (review : Option ObstacleReview) (observedAt : Stamp) : StoreTx Unit := do
  let review ← Tx.fetched (review.filter (·.state == .active)) (.contradiction .noActiveReview)
  let changed ← updateReviews
    (fun r => decide (r.reviewId = review.reviewId) &&
      (r.state == .active && r.confirmationEntryId.isNone))
    fun r => { r with state := .notConfirmed, terminalAt := observedAt }
  Tx.ensure (changed = 1) (.contradiction .reviewTerminalCas)

/-- The generation update of `_advance_generation_if_ready`. -/
def startGeneration (generation : Nat) (phase : Phase) (observedAt : Stamp) : StoreTx Unit := do
  let t ← look
  Tx.ensure (t.project.generation = generation ∧ t.project.phase = phase ∧
      t.project.recommendationId = none) (.contradiction .advanceCas)
  let now ← notNull observedAt
  updateProject fun p => { p with
    generation := generation + 1, phase := .reasoning, phaseStartedAt := now
    activeReviewId := none, phaseDeadlineAt := now.add S.config.phaseTimeoutSeconds
    updatedAt := now }

/-- `_advance_generation_if_ready` -/
def advanceGenerationIfReady (observedAt : Stamp) : StoreTx Bool := do
  let t ← look
  let generation := t.project.generation
  let phase := t.project.phase
  if phase = .ownerActionRequired ∨ t.overlaid = true then return false
  else if ¬ ∀ lane ∈ S.phaseLanes phase, lane ∈ t.completedLanes then return false
  else
    let review ← activeReview
    match phase, review with
    | .reasoning, some review =>
      S.enterCriticReview review observedAt
      return true
    | _, _ =>
      Tx.when (phase = .criticReview) (failCriticReview review observedAt)
      S.copyForwardGenerationTasks generation observedAt
      S.startGeneration generation phase observedAt
      return true

/-- `PREPARED_DEADLINE_OUTCOME` -/
def preparedDeadlineOutcome : PyStr := "phase_deadline_known_not_dispatched".toList

/-- `_terminalize_expired_prepared_locked` -/
def terminalizeExpiredPrepared (slot : RoundSlot) (observedAt : Stamp) : StoreTx Unit := do
  Tx.ensure (slot.state = .prepared) (.contradiction .notPrepared)
  let t ← look
  Tx.check (S.validateSlotTaskBinding t slot)
  let changed ← updateSlots
    (fun s => decide (s.slotId = slot.slotId) && s.state == .prepared)
    fun s => { s with
      state := .terminal, terminalAt := observedAt, outcome := some preparedDeadlineOutcome }
  Tx.ensure (changed = 1) (.contradiction .expiryCas)
  writeWorkerState slot.worker slot.lane .phaseExpiredNotDispatched slot.generation slot.phase
    observedAt
  let _ ← S.advanceGenerationIfReady observedAt

end CoordinationStore

/-- `_insert_evidence` -/
def insertEvidence (entryId : PyStr) (slot : RoundSlot) (worker : PyStr) (lane : Lane)
    (kind : EvidenceKind) (confirmsEntryId : Option PyStr) (createdAt : Stamp) : StoreTx Unit := do
  let t ← look
  match t.evidence? entryId with
  | none =>
    let at' ← notNull createdAt
    put fun t => { t with evidence := t.evidence ++ [⟨entryId, slot.generation, slot.slotId, worker,
      lane, kind, confirmsEntryId, at'⟩] }
  | some existing =>
    Tx.ensure (existing.generation = slot.generation ∧ existing.slotId = slot.slotId ∧
        existing.worker = worker ∧ existing.lane = lane ∧ existing.kind = kind ∧
        existing.confirmsEntryId = confirmsEntryId) (.refusal .evidenceConflict)

/-- What `_ensure_recommendation` asks before it looks at the recommendation pointer. -/
def Tables.recommendable (t : Tables) (reviewId rootEntryId criticEntryId : PyStr)
    (generation : Nat) : Bool :=
  (match t.review? reviewId with
    | none => false
    | some review => review.generation == generation && review.rootEntryId == rootEntryId &&
      review.confirmationEntryId == some criticEntryId && review.state == .confirmed) &&
  t.rootEvidence rootEntryId generation &&
  (t.evidence.any fun e => e.entryId == criticEntryId && e.generation == generation &&
    e.lane == .critic && e.kind == .criticConfirmation && e.confirmsEntryId == some rootEntryId) &&
  t.project.generation == generation && t.project.activeReviewId == some reviewId &&
  t.project.phase != .reasoning

/-- The new row and the owner gate of `_ensure_recommendation`. -/
def openRecommendation (uuid reviewId rootEntryId criticEntryId : PyStr) (generation : Nat)
    (createdAt : Stamp) : StoreTx PyStr := do
  let recommendationId := "recommendation_".toList ++ uuid
  let at' ← notNull createdAt
  put fun t => { t with recommendations := t.recommendations ++ [⟨recommendationId, generation,
    some reviewId, rootEntryId, criticEntryId, at'⟩] }
  let t ← look
  Tx.ensure (t.project.generation = generation ∧ t.project.phase = .criticReview ∧
      t.project.activeReviewId = some reviewId ∧ t.project.recommendationId = none)
    (.contradiction .recommendationCas)
  updateProject fun p => { p with
    phase := .ownerActionRequired, recommendationId := some recommendationId, updatedAt := at' }
  return recommendationId

/-- `_ensure_recommendation` -/
def ensureRecommendation (uuid reviewId rootEntryId criticEntryId : PyStr) (generation : Nat)
    (createdAt : Stamp) : StoreTx (Option PyStr) := do
  let t ← look
  if t.recommendable reviewId rootEntryId criticEntryId generation = true then
    match t.project.recommendationId with
    | some current =>
      match t.recommendation? current with
      | some existing =>
        if existing.reviewId = some reviewId ∧ existing.rootEntryId = rootEntryId ∧
            existing.criticEntryId = criticEntryId then return some current
        else return none
      | none => return none
    | none =>
      let recommendationId ←
        openRecommendation uuid reviewId rootEntryId criticEntryId generation createdAt
      return some recommendationId
  else return none

end Danus.Coordination
