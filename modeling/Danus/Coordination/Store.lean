import Danus.Coordination.Candidates
import Danus.Lib.Machine

/-! Opening, status, and the calls a coordination database can receive, one transaction each. -/
namespace Danus.Coordination
open Python Transaction Machines

inductive FailStop where
  | taskAssignmentRequired | ownerResolutionRequired | paidRecoveryRequired | noNewPaidAdmission
  deriving DecidableEq

def FailStop.text : FailStop → String
  | .taskAssignmentRequired => "durable_task_assignment_required"
  | .ownerResolutionRequired => "owner_recommendation_resolution_required"
  | .paidRecoveryRequired => "phase_deadline_exceeded_paid_recovery_required"
  | .noNewPaidAdmission => "phase_deadline_exceeded_no_new_paid_admission"

structure ProjectStatus where
  generation : Nat
  phase : Phase
  rootWorker : PyStr
  criticWorker : Option PyStr
  explorerWorkers : List PyStr
  paidActive : Nat
  reservedAdmission : Nat
  waitingAdmission : Nat
  phaseDeadlineAt : SqlReal
  phaseDeadlineExceeded : Bool
  advisorReachable : Bool
  recommendationReady : Bool
  failStopReason : Option FailStop
  review : Option ObstacleReview
  recommendation : Option AdvisorRecommendation
  resolution : Option RecommendationResolution
  candidate : Option Candidate
  taskStaging : TaskStaging
  worker : Option (PyStr × Lane × Option AdmissionState)

/-- `ORDER BY created_at DESC, resolution_id DESC LIMIT 1` -/
def latestResolution : List RecommendationResolution → Option RecommendationResolution
  | [] => none
  | r :: rows =>
    match latestResolution rows with
    | none => some r
    | some s =>
      if s.createdAt.le r.createdAt = true ∧
          (s.createdAt = r.createdAt → Json.strLe s.resolutionId r.resolutionId = true) then some r
      else some s

def failStopReason (phase : Phase) (staged exceeded : Bool) (paidActive : Nat) : Option FailStop :=
  if phase = .ownerActionRequired then
    some (if staged then .ownerResolutionRequired else .taskAssignmentRequired)
  else if exceeded then
    some (if paidActive = 0 then .noNewPaidAdmission else .paidRecoveryRequired)
  else if staged then none
  else some .taskAssignmentRequired

namespace CoordinationStore
variable (S : CoordinationStore)

/-- `project_status` at wall-clock time `clock` -/
def projectStatus (worker : Option PyStr) (clock : Int) : StoreTx ProjectStatus := do
  let t ← look
  let project := t.project
  let exceeded := project.phaseDeadlineAt.le (.fin clock)
  let paidActive := t.slots.countP (·.dispatched)
  let recommendation := project.recommendationId.bind t.recommendation?
  let review ← activeReview
  let ready := recommendation.any fun r =>
    match openRecommendationProjection t r.recommendationId with
    | .ok _ => true
    | .error _ => false
  let taskStaging ← Tx.check (S.taskStagingProjection t t.stagingGeneration)
  Tx.when (worker.isSome = true) (validateIdentifier (worker.getD []) "worker")
  return {
    generation := project.generation, phase := project.phase, rootWorker := project.rootWorker
    criticWorker := project.criticWorker, explorerWorkers := S.roster.explorers, paidActive
    reservedAdmission := t.slots.countP (·.state == .prepared)
    waitingAdmission := t.workers.countP (·.state == .waitingAdmission)
    phaseDeadlineAt := project.phaseDeadlineAt, phaseDeadlineExceeded := exceeded
    advisorReachable := S.roster.critic.isSome, recommendationReady := ready
    failStopReason := failStopReason project.phase taskStaging.ready exceeded paidActive
    review, recommendation, resolution := latestResolution t.resolutions
    candidate := t.candidates.find? (·.overlay), taskStaging
    worker := worker.map fun w =>
      (w, S.workerLane w, (t.workers.find? fun r => r.worker = w).map (·.state)) }

/-- `paid_slot_provenance` -/
def paidSlotProvenance (worker : PyStr) : StoreTx (Option (PyStr × Nat × Lane)) := fun db =>
  match S.canonicalPaidSlot worker none db with
  | .ok (slot, _) => .ok (some (slot.slotId, slot.generation, slot.lane), db)
  | .error _ => .ok (none, db)

/-- The row `_initialize` inserts into an empty database. -/
def initialTables (clock : Int) : Tables where
  project := {
    schemaVersion := S.databaseSchemaVersion, configDigest := S.rosterDigest
    rootWorker := S.roster.root, criticWorker := S.roster.critic, generation := 1
    phase := .reasoning, phaseStartedAt := .fin clock
    phaseDeadlineAt := .fin (clock + S.config.phaseTimeoutSeconds), recommendationId := none
    activeReviewId := none, updatedAt := .fin clock }
  slots := []
  workers := []
  evidence := []
  cursors := []
  recommendations := []
  reviews := []
  resolutions := []
  candidates := []
  tasks := []

/-- `candidate_fact_identity` is `NULL`, not sixty-four characters, or not hexadecimal. -/
def invalidOverlay (c : Candidate) : Bool :=
  c.overlay && !(c.candidateFactIdentity.any (isHexOf 64))

/-- `_initialize` of an existing database at the current schema. -/
def openExisting : StoreTx Unit := do
  let t ← look
  Tx.ensure (t.project.configDigest = S.rosterDigest ∧ t.project.rootWorker = S.roster.root ∧
      t.project.criticWorker = S.roster.critic) (.refusal .configurationChanged)
  Tx.ensure (t.project.schemaVersion = twoLaneSchemaVersion ∨
      t.project.schemaVersion = Coordination.schemaVersion)
    (.refusal (.unsupportedSchema t.project.schemaVersion))
  Tx.ensure (¬ (t.project.schemaVersion = twoLaneSchemaVersion ∧ 2 < S.config.maxPaidWorkers))
    (.refusal .explorerSchema)
  Tx.ensure (t.candidates.any invalidOverlay = false) (.binding .overlayIdentity)
  Tx.check (S.auditTaskBindings t)

end CoordinationStore

/-- One call of the store; a time is `now`, or the wall clock where the caller gave none, and an
identifier is the `uuid4` the call would draw. -/
inductive StoreCall where
  | reopen
  | projectStatus (worker : Option PyStr) (clock : Int)
  | stagedTaskAssignments (generation : Option Nat)
  | stageTaskAssignment (worker task : PyStr) (now : Stamp)
  | admitWorker (worker uuid : PyStr) (now : Stamp)
  | pinPrompt (slotId prompt : PyStr)
  | activate (slotId : PyStr) (now : Stamp)
  | markAmbiguous (slotId : PyStr) (clock : Int)
  | complete (slotId outcome : PyStr) (now : Stamp) (clock : Int)
  | paidSlotProvenance (worker : PyStr)
  | validateMemoryPublication (worker slotId kind : PyStr) (confirmsEntryId : Option PyStr)
  | recordRootEvidence (worker kind entryId slotId : PyStr) (now : Stamp)
  | confirmRootEvidence (worker confirmsEntryId entryId slotId uuid : PyStr) (now : Stamp)
  | resolveRecommendation (request : ResolutionRequest) (now : Stamp)
  | validateOpenRecommendation (recommendationId : PyStr)
  | reconcileTerminalMemoryEntries (slotId worker uuid : PyStr) (entries : List Json) (now : Stamp)
  | setMemoryCursor (worker stream cursor : PyStr) (generation : Option Nat) (now : Stamp)
  | registerCandidate (worker receipt : PyStr) (identity : CandidateIdentity) (now : Stamp)
  | terminalizeCandidate (worker receipt slotId outcome : PyStr) (now : Stamp)
  | recordExactFactReuse (worker slotId candidateFactId candidateFactIdentity : PyStr)
      (sourceId : Option PyStr) (now : Stamp)
  | resolveCandidateOutcomeUnknown (receipt resolution : PyStr) (acknowledged factActive : Bool)
      (now : Stamp)
  | recordCandidate (worker candidateId state : PyStr) (generation : Option Nat) (now : Stamp)

inductive StoreReply where
  | done
  | status (s : ProjectStatus)
  | staging (s : TaskStaging)
  | staged (s : StagedReply)
  | admission (a : Option Admission)
  | provenance (p : Option (PyStr × Nat × Lane))
  | publication (p : PublicationReply)
  | evidence (e : EvidenceReply)
  | resolution (r : RecommendationResolution)
  | recommendation (r : AdvisorRecommendation)
  | reconciled (r : ReconcileReply)
  | cursor (c : MemoryCursor)
  | candidate (c : Candidate)

/-- A call's result and the database it leaves. -/
abbrev Outcome : Type := Except StoreError StoreReply × Database

/-- Run one transaction, and report its value. -/
def committed {α : Type} (f : α → StoreReply) (x : StoreTx α) (db : Database) : Outcome :=
  ((x.run db).1.map f, (x.run db).2)

/-- Run one transaction that may raise after its commit. -/
def committedThen {α : Type} (f : α → StoreReply) (x : StoreTx (Except StoreError α))
    (db : Database) : Outcome :=
  ((x.runThen db).1.map f, (x.runThen db).2)

namespace CoordinationStore
variable (S : CoordinationStore)

/-- `complete`: its transaction, then the status of the committed database. -/
def complete (slotId outcome : PyStr) (now : Stamp) (clock : Int) (db : Database) : Outcome :=
  match (S.completeBody slotId outcome now).run db with
  | (.error e, db') => (.error e, db')
  | (.ok _, db') => committed .status (S.projectStatus none clock) db'

/-- What a call does to a database. -/
def perform (call : StoreCall) (db : Database) : Outcome :=
  match call with
  | .reopen => committed (fun _ => .done) S.openExisting db
  | .projectStatus worker clock => committed .status (S.projectStatus worker clock) db
  | .stagedTaskAssignments generation => committed .staging (S.stagedTaskAssignments generation) db
  | .stageTaskAssignment worker task now =>
    committed .staged (S.stageTaskAssignment worker task now) db
  | .admitWorker worker uuid now => committed .admission (S.admitWorker worker uuid now) db
  | .pinPrompt slotId prompt => committed (.admission ∘ some) (S.pinPrompt slotId prompt) db
  | .activate slotId now => committedThen (.admission ∘ some) (S.activateBody slotId now) db
  | .markAmbiguous slotId clock =>
    committed (fun _ => .done) (S.markAmbiguous slotId (some (.fin clock))) db
  | .complete slotId outcome now clock => S.complete slotId outcome now clock db
  | .paidSlotProvenance worker => committed .provenance (S.paidSlotProvenance worker) db
  | .validateMemoryPublication worker slotId kind confirms =>
    committed .publication (S.validateMemoryPublication worker slotId kind confirms) db
  | .recordRootEvidence worker kind entryId slotId now =>
    committed .evidence (S.recordRootEvidence worker kind entryId slotId now) db
  | .confirmRootEvidence worker confirms entryId slotId uuid now =>
    committed .evidence (S.confirmRootEvidence worker confirms entryId slotId uuid now) db
  | .resolveRecommendation request now =>
    committed .resolution (S.resolveRecommendation request now) db
  | .validateOpenRecommendation recommendationId =>
    committed .recommendation (validateOpenRecommendation recommendationId) db
  | .reconcileTerminalMemoryEntries slotId worker uuid entries now =>
    committed .reconciled (S.reconcileTerminalMemoryEntries slotId worker uuid entries now) db
  | .setMemoryCursor worker stream cursor generation now =>
    committed .cursor (setMemoryCursor worker stream cursor generation now) db
  | .registerCandidate worker receipt identity now =>
    committedThen .candidate (S.registerCandidate worker receipt identity now) db
  | .terminalizeCandidate worker receipt slotId outcome now =>
    committedThen .candidate (S.terminalizeCandidate worker receipt slotId outcome now) db
  | .recordExactFactReuse worker slotId factId factIdentity sourceId now =>
    committedThen .candidate
      (S.recordExactFactReuse worker slotId factId factIdentity sourceId now) db
  | .resolveCandidateOutcomeUnknown receipt resolution acknowledged factActive now =>
    committedThen .candidate
      (S.resolveCandidateOutcomeUnknown receipt resolution acknowledged factActive now) db
  | .recordCandidate worker candidateId state generation now =>
    committed .candidate (S.recordCandidate worker candidateId state generation now) db

/-- The store as a machine: a fresh database, and one call after another. -/
def machine : Machine Database StoreCall where
  start db := ∃ clock, db.1 = S.initialTables clock
  step db call db' := (S.perform call db).2 = db'

end CoordinationStore
end Danus.Coordination
