import Danus.Coordination.Policy
import Danus.Lib.Tx

/-! The coordinator's SQLite schema: rows, tables, and the constraints every statement checks. -/
namespace Danus.Coordination
open Python Transaction

def twoLaneSchemaVersion : Nat := 7
def schemaVersion : Nat := 8
def maxPinnedPromptBytes : Nat := 131072
def maxTaskBytes : Nat := 131072
def maxOutcomeBytes : Nat := 512
def maxReconcileEntries : Nat := 10000

/-- A SQLite `REAL` that is not `NULL`; SQLite stores no NaN. Finite values are in ticks. -/
inductive SqlReal where
  | negInf
  | fin (t : Int)
  | posInf
  deriving DecidableEq, Repr

/-- A Python `float`: `none` is NaN, which SQLite binds as `NULL`. -/
abbrev Stamp : Type := Option SqlReal

namespace SqlReal

def le : SqlReal → SqlReal → Bool
  | .negInf, _ => true
  | _, .posInf => true
  | .fin a, .fin b => a ≤ b
  | _, _ => false

def add : SqlReal → Nat → SqlReal
  | .fin t, n => .fin (t + n)
  | r, _ => r

/-- `math.isfinite` -/
def isFinite : SqlReal → Bool
  | .fin _ => true
  | _ => false

end SqlReal

/-- `a >= b`, false for NaN. -/
def Stamp.ge (a : Stamp) (b : SqlReal) : Bool :=
  match a with
  | some a => b.le a
  | none => false

def Stamp.add (a : Stamp) (n : Nat) : Stamp := a.map (·.add n)

/-- `time.time() if now is None else float(now)`, with the wall clock in ticks. -/
def observe (now : Option Stamp) (clock : Int) : Stamp := now.getD (some (.fin clock))

inductive SlotState where
  | prepared | active | ambiguous | terminal
  deriving DecidableEq, Repr

inductive EvidenceKind where
  | obstacle | deadEnd | criticConfirmation
  deriving DecidableEq, Repr

inductive ReviewState where
  | pending | active | confirmed | notConfirmed | resolved
  deriving DecidableEq, Repr

inductive CandidateState where
  | observed | promising | rejected | selected | active | outcomeUnknown | terminal
  deriving DecidableEq, Repr

inductive Resolution where
  | adoptedMasterGuidance | continueWithoutAdvisor
  deriving DecidableEq, Repr

inductive OwnerResolution where
  | knownNoPromotion | abandonUnknown
  deriving DecidableEq, Repr

/-- The state column of `worker_states`. -/
inductive AdmissionState where
  | admitted | waitingAdmission | phaseExpired | phaseExpiredNotDispatched | ambiguous | terminal
  deriving DecidableEq, Repr

structure ProjectState where
  schemaVersion : Nat
  configDigest : PyStr
  rootWorker : PyStr
  criticWorker : Option PyStr
  generation : Nat
  phase : Phase
  phaseStartedAt : SqlReal
  phaseDeadlineAt : SqlReal
  recommendationId : Option PyStr
  activeReviewId : Option PyStr
  updatedAt : SqlReal
  deriving DecidableEq

structure RoundSlot where
  slotId : PyStr
  worker : PyStr
  lane : Lane
  generation : Nat
  phase : Phase
  state : SlotState
  directive : PyStr
  task : Option PyStr
  taskSha256 : Option PyStr
  taskBytes : Option Nat
  promptTaskSha256 : Option PyStr
  legacyTaskBinding : Nat
  prompt : Option PyStr
  promptSha256 : Option PyStr
  createdAt : SqlReal
  activatedAt : Option SqlReal
  terminalAt : Option SqlReal
  outcome : Option PyStr
  reviewId : Option PyStr
  designatedRootEntryId : Option PyStr
  deriving DecidableEq

structure WorkerState where
  worker : PyStr
  lane : Lane
  state : AdmissionState
  generation : Nat
  phase : Phase
  updatedAt : SqlReal
  deriving DecidableEq

structure EvidenceEntry where
  entryId : PyStr
  generation : Nat
  slotId : PyStr
  worker : PyStr
  lane : Lane
  kind : EvidenceKind
  confirmsEntryId : Option PyStr
  createdAt : SqlReal
  deriving DecidableEq

structure MemoryCursor where
  worker : PyStr
  stream : PyStr
  cursor : PyStr
  generation : Nat
  updatedAt : SqlReal
  deriving DecidableEq

/-- A recommendation row; its state and browser columns are fixed by `CHECK`s. -/
structure AdvisorRecommendation where
  recommendationId : PyStr
  generation : Nat
  reviewId : Option PyStr
  rootEntryId : PyStr
  criticEntryId : PyStr
  createdAt : SqlReal
  deriving DecidableEq

structure ObstacleReview where
  reviewId : PyStr
  generation : Nat
  rootEntryId : PyStr
  rootSlotId : PyStr
  criticWorker : PyStr
  criticSlotId : Option PyStr
  confirmationEntryId : Option PyStr
  state : ReviewState
  createdAt : SqlReal
  activatedAt : Option SqlReal
  terminalAt : Option SqlReal
  deriving DecidableEq

structure RecommendationResolution where
  resolutionId : PyStr
  recommendationId : PyStr
  generation : Nat
  resolution : Resolution
  ownerAcknowledgement : PyStr
  masterGuidanceEntryId : Option PyStr
  masterGuidanceRecordSha256 : Option PyStr
  browserRequestId : Option PyStr
  browserReceiptSha256 : Option PyStr
  createdAt : SqlReal
  deriving DecidableEq

structure Candidate where
  candidateId : PyStr
  generation : Nat
  slotId : Option PyStr
  candidateFactId : Option PyStr
  candidateFactIdentity : Option PyStr
  sourceId : Option PyStr
  contextDigest : Option PyStr
  worker : PyStr
  lane : Lane
  state : CandidateState
  outcome : Option CandidateOutcome
  createdAt : SqlReal
  updatedAt : SqlReal
  terminalAt : Option SqlReal
  ownerResolution : Option OwnerResolution
  ownerAcknowledgedUnknown : Option Bool
  candidateFactActiveAtResolution : Option Bool
  ownerResolvedAt : Option SqlReal
  deriving DecidableEq

structure GenerationTask where
  worker : PyStr
  generation : Nat
  lane : Lane
  task : PyStr
  taskSha256 : PyStr
  taskBytes : Nat
  stagedAt : SqlReal
  frozenAt : Option SqlReal
  deriving DecidableEq

structure Tables where
  project : ProjectState
  slots : List RoundSlot
  workers : List WorkerState
  evidence : List EvidenceEntry
  cursors : List MemoryCursor
  recommendations : List AdvisorRecommendation
  reviews : List ObstacleReview
  resolutions : List RecommendationResolution
  candidates : List Candidate
  tasks : List GenerationTask
  deriving DecidableEq

/-- `state IN ('prepared','active','ambiguous')` -/
def RoundSlot.open (s : RoundSlot) : Bool := s.state != .terminal

/-- `state IN ('active','ambiguous')` -/
def RoundSlot.dispatched (s : RoundSlot) : Bool := s.state == .active || s.state == .ambiguous

/-- `state IN ('pending','active','confirmed')` -/
def ObstacleReview.live (r : ObstacleReview) : Bool :=
  r.state == .pending || r.state == .active || r.state == .confirmed

/-- `state IN ('active','outcome_unknown')` -/
def Candidate.overlay (c : Candidate) : Bool := c.state == .active || c.state == .outcomeUnknown

/-- `kind IN ('obstacle','dead_end')` -/
def EvidenceKind.isObstacle (k : EvidenceKind) : Bool := k == .obstacle || k == .deadEnd

/-- `_lane_sql` -/
def laneSql (version : Nat) : List Lane :=
  if version = Coordination.schemaVersion then [.root, .critic, .explorer1, .explorer2]
  else [.root, .critic]

def RoundSlot.round (s : RoundSlot) : PyStr × Nat × Phase := (s.worker, s.generation, s.phase)

def GenerationTask.key (a : GenerationTask) : PyStr × Nat := (a.worker, a.generation)

/-- The primary keys, unique indexes, foreign keys and checks of the schema. -/
structure Tables.Valid (t : Tables) : Prop where
  generation_pos : 1 ≤ t.project.generation
  slotIds : (t.slots.map (·.slotId)).Nodup
  slotRounds : (t.slots.map (·.round)).Nodup
  openLanes : ((t.slots.filter (·.open)).map (·.lane)).Nodup
  slotChecks : ∀ s ∈ t.slots, s.lane ∈ laneSql t.project.schemaVersion ∧ 1 ≤ s.generation ∧
    s.legacyTaskBinding ≤ 1
  workerKeys : (t.workers.map (·.worker)).Nodup
  entryIds : (t.evidence.map (·.entryId)).Nodup
  entryLanes : ∀ e ∈ t.evidence, e.lane = .root ∨ e.lane = .critic
  cursorKeys : (t.cursors.map fun c => (c.worker, c.stream)).Nodup
  recommendationIds : (t.recommendations.map (·.recommendationId)).Nodup
  recommendationPairs : (t.recommendations.map fun r => (r.rootEntryId, r.criticEntryId)).Nodup
  reviewIds : (t.reviews.map (·.reviewId)).Nodup
  reviewRootEntries : (t.reviews.map (·.rootEntryId)).Nodup
  reviewRootSlots : (t.reviews.map (·.rootSlotId)).Nodup
  reviewCriticSlots : (t.reviews.filterMap (·.criticSlotId)).Nodup
  reviewConfirmations : (t.reviews.filterMap (·.confirmationEntryId)).Nodup
  reviewLive : (t.reviews.filter (·.live)).length ≤ 1
  reviewChecks : ∀ r ∈ t.reviews, 1 ≤ r.generation ∧ (∃ e ∈ t.evidence, e.entryId = r.rootEntryId) ∧
    (∃ s ∈ t.slots, s.slotId = r.rootSlotId) ∧
    (∀ c ∈ r.criticSlotId, ∃ s ∈ t.slots, s.slotId = c) ∧
    (∀ c ∈ r.confirmationEntryId, ∃ e ∈ t.evidence, e.entryId = c)
  resolutionIds : (t.resolutions.map (·.resolutionId)).Nodup
  resolutionRecommendations : (t.resolutions.map (·.recommendationId)).Nodup
  resolutionChecks : ∀ r ∈ t.resolutions, 1 ≤ r.generation ∧
    ∃ a ∈ t.recommendations, a.recommendationId = r.recommendationId
  candidateIds : (t.candidates.map (·.candidateId)).Nodup
  candidateOverlay : (t.candidates.filter (·.overlay)).length ≤ 1
  taskKeys : (t.tasks.map (·.key)).Nodup
  taskChecks : ∀ a ∈ t.tasks, 1 ≤ a.generation ∧ a.lane ∈ laneSql t.project.schemaVersion ∧
    0 < a.taskBytes ∧ a.taskBytes ≤ maxTaskBytes

/-- The same constraints as one conjunction, to decide them. -/
abbrev Tables.Checks (t : Tables) : Prop :=
  1 ≤ t.project.generation ∧ (t.slots.map (·.slotId)).Nodup ∧ (t.slots.map (·.round)).Nodup ∧
  ((t.slots.filter (·.open)).map (·.lane)).Nodup ∧
  (∀ s ∈ t.slots, s.lane ∈ laneSql t.project.schemaVersion ∧ 1 ≤ s.generation ∧
    s.legacyTaskBinding ≤ 1) ∧
  (t.workers.map (·.worker)).Nodup ∧ (t.evidence.map (·.entryId)).Nodup ∧
  (∀ e ∈ t.evidence, e.lane = .root ∨ e.lane = .critic) ∧
  (t.cursors.map fun c => (c.worker, c.stream)).Nodup ∧
  (t.recommendations.map (·.recommendationId)).Nodup ∧
  (t.recommendations.map fun r => (r.rootEntryId, r.criticEntryId)).Nodup ∧
  (t.reviews.map (·.reviewId)).Nodup ∧ (t.reviews.map (·.rootEntryId)).Nodup ∧
  (t.reviews.map (·.rootSlotId)).Nodup ∧ (t.reviews.filterMap (·.criticSlotId)).Nodup ∧
  (t.reviews.filterMap (·.confirmationEntryId)).Nodup ∧
  (t.reviews.filter (·.live)).length ≤ 1 ∧
  (∀ r ∈ t.reviews, 1 ≤ r.generation ∧ (∃ e ∈ t.evidence, e.entryId = r.rootEntryId) ∧
    (∃ s ∈ t.slots, s.slotId = r.rootSlotId) ∧
    (∀ c ∈ r.criticSlotId, ∃ s ∈ t.slots, s.slotId = c) ∧
    (∀ c ∈ r.confirmationEntryId, ∃ e ∈ t.evidence, e.entryId = c)) ∧
  (t.resolutions.map (·.resolutionId)).Nodup ∧ (t.resolutions.map (·.recommendationId)).Nodup ∧
  (∀ r ∈ t.resolutions, 1 ≤ r.generation ∧
    ∃ a ∈ t.recommendations, a.recommendationId = r.recommendationId) ∧
  (t.candidates.map (·.candidateId)).Nodup ∧ (t.candidates.filter (·.overlay)).length ≤ 1 ∧
  (t.tasks.map (·.key)).Nodup ∧
  (∀ a ∈ t.tasks, 1 ≤ a.generation ∧ a.lane ∈ laneSql t.project.schemaVersion ∧
    0 < a.taskBytes ∧ a.taskBytes ≤ maxTaskBytes)

theorem Tables.valid_iff (t : Tables) : t.Valid ↔ t.Checks := by
  constructor
  · rintro ⟨h1, h2, h3, h4, h5, h6, h7, h8, h9, h10, h11, h12, h13, h14, h15, h16, h17, h18, h19,
      h20, h21, h22, h23, h24, h25⟩
    exact ⟨h1, h2, h3, h4, h5, h6, h7, h8, h9, h10, h11, h12, h13, h14, h15, h16, h17, h18, h19,
      h20, h21, h22, h23, h24, h25⟩
  · rintro ⟨h1, h2, h3, h4, h5, h6, h7, h8, h9, h10, h11, h12, h13, h14, h15, h16, h17, h18, h19,
      h20, h21, h22, h23, h24, h25⟩
    exact ⟨h1, h2, h3, h4, h5, h6, h7, h8, h9, h10, h11, h12, h13, h14, h15, h16, h17, h18, h19,
      h20, h21, h22, h23, h24, h25⟩

set_option synthInstance.maxHeartbeats 100000 in
set_option synthInstance.maxSize 2000 in
instance : DecidablePred Tables.Valid := fun t =>
  decidable_of_iff t.Checks t.valid_iff.symm

/-- A database whose contents pass the schema. -/
abbrev Database : Type := {t : Tables // t.Valid}

end Danus.Coordination
