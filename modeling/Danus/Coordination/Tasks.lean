import Danus.Coordination.Errors
import Danus.Coordination.Schema
import Danus.Lib.Rows

/-! Durable generation tasks and the bindings between tasks, slots and prompts. -/
namespace Danus.Coordination
open Python Transaction

/-- What a `CoordinationStore` holds besides its database. -/
structure CoordinationStore where
  config : CoordinationConfig
  roster : LaneRoster
  rosterDigest : PyStr
  lanes_le : roster.lanes.length ≤ config.maxPaidWorkers

abbrev StoreTx : Type → Type := Tx Database StoreError

/-- The contents the transaction sees. -/
def look : StoreTx Tables := fun db => .ok (db.1, db)

/-- One SQL write; the schema's constraints are checked on the result. -/
def put (f : Tables → Tables) : StoreTx Unit := Tx.write f .sqlite

/-- Bind a float to a `NOT NULL` column. -/
def notNull (value : Stamp) : StoreTx SqlReal := Tx.fetched value .sqlite

@[simp] theorem wp_look {Q : Tables → Database → Prop} {E : StoreError → Prop} {db : Database} :
    Tx.wp look Q E db ↔ Q db.1 db := Iff.rfl

@[simp] theorem wp_put {f : Tables → Tables} {Q : Unit → Database → Prop} {E : StoreError → Prop}
    {db : Database} : Tx.wp (put f) Q E db ↔
      (∀ h : (f db.1).Valid, Q () ⟨f db.1, h⟩) ∧ (¬ (f db.1).Valid → E .sqlite) := Tx.wp_write

@[simp] theorem wp_notNull {value : Stamp} {Q : SqlReal → Database → Prop} {E : StoreError → Prop}
    {db : Database} : Tx.wp (notNull value) Q E db ↔
      (∀ r, value = some r → Q r db) ∧ (value = none → E .sqlite) := Tx.wp_fetched

/-- One `UPDATE` of a table, with its row count. -/
def updateRows {α : Type} (rows : Tables → List α) (store : Tables → List α → Tables)
    (hit : α → Bool) (f : α → α) : StoreTx Nat := do
  let t ← look
  put fun t => store t (Rows.update hit f (rows t))
  return (rows t).countP hit

/-- `UPDATE generation_tasks` -/
def updateTasks : (GenerationTask → Bool) → (GenerationTask → GenerationTask) → StoreTx Nat :=
  updateRows (·.tasks) fun t tasks => { t with tasks := tasks }

/-- `UPDATE round_slots` -/
def updateSlots : (RoundSlot → Bool) → (RoundSlot → RoundSlot) → StoreTx Nat :=
  updateRows (·.slots) fun t slots => { t with slots := slots }

/-- `UPDATE obstacle_reviews` -/
def updateReviews : (ObstacleReview → Bool) → (ObstacleReview → ObstacleReview) → StoreTx Nat :=
  updateRows (·.reviews) fun t reviews => { t with reviews := reviews }

/-- `UPDATE candidates` -/
def updateCandidates : (Candidate → Bool) → (Candidate → Candidate) → StoreTx Nat :=
  updateRows (·.candidates) fun t candidates => { t with candidates := candidates }

/-- `UPDATE project_state`; callers check the `WHERE` clause. -/
def updateProject (f : ProjectState → ProjectState) : StoreTx Unit :=
  put fun t => { t with project := f t.project }

section Updates
variable {α κ : Type} {rows : Tables → List α} {store : Tables → List α → Tables}
  {hit : α → Bool} {f : α → α} {E : StoreError → Prop} {db : Database} {Q : Nat → Database → Prop}

theorem wp_updateRows : Tx.wp (updateRows rows store hit f) Q E db ↔
    (∀ h : (store db.1 (Rows.update hit f (rows db.1))).Valid,
      Q ((rows db.1).countP hit) ⟨_, h⟩) ∧
    (¬ (store db.1 (Rows.update hit f (rows db.1))).Valid → E .sqlite) := by
  simp [updateRows]

/-- An `UPDATE` that a primary key and its guard aim at one row replaces that row. -/
theorem wp_updateRow [DecidableEq κ] (k : α → κ) {r : α} (hn : ((rows db.1).map k).Nodup)
    (hr : r ∈ rows db.1) (hp : hit r = true) (hk : ∀ a ∈ rows db.1, hit a = true → k a = k r)
    (hf : k (f r) = k r) (hE : E .sqlite)
    (hQ : ∀ h : (store db.1 (Rows.set k (f r) (rows db.1))).Valid, Q 1 ⟨_, h⟩) :
    Tx.wp (updateRows rows store hit f) Q E db := by
  rw [wp_updateRows, Rows.count_one hn hr hp hk, Rows.update_eq_set hn hr hp hk hf]
  exact ⟨hQ, fun _ => hE⟩

/-- A guard on a keyed row hits only rows of that key. -/
theorem guarded_key [DecidableEq κ] {k : α → κ} {r : α} {q : α → Bool} {l : List α} :
    ∀ x ∈ l, (decide (k x = k r) && q x) = true → k x = k r := by
  intro _ _ h
  rw [Bool.and_eq_true, decide_eq_true_eq] at h
  exact h.1

end Updates

section Checks
variable {α β : Type} {x : Except StoreError α} {f : α → Except StoreError β} {e : StoreError}

/-- Raise unless the condition holds. -/
def require (c : Prop) [Decidable c] (e : StoreError) : Except StoreError Unit :=
  if c then .ok () else .error e

theorem require_ok {c : Prop} [Decidable c] {r : Unit} : require c e = .ok r ↔ c := by
  unfold require
  split <;> simp_all

theorem require_error {c : Prop} [Decidable c] {e' : StoreError} :
    require c e = .error e' ↔ ¬ c ∧ e' = e := by
  unfold require
  split <;> simp_all [eq_comm]

theorem except_bind_ok {b : β} : (x >>= f) = .ok b ↔ ∃ a, x = .ok a ∧ f a = .ok b := by
  cases x <;> simp [bind, Except.bind]

theorem except_bind_error :
    (x >>= f) = .error e ↔ x = .error e ∨ ∃ a, x = .ok a ∧ f a = .error e := by
  cases x <;> simp [bind, Except.bind]

theorem except_pure_ok {a b : α} : (pure a : Except StoreError α) = .ok b ↔ b = a := by
  change Except.ok a = _ ↔ _
  simp [eq_comm]

theorem except_pure_error {a : α} : ¬ (pure a : Except StoreError α) = .error e := by
  intro h
  cases h

/-- A check of every row, in order. -/
def checkAll (check : α → Except StoreError Unit) : List α → Except StoreError Unit
  | [] => .ok ()
  | a :: rows => do
    check a
    checkAll check rows

theorem checkAll_ok {check : α → Except StoreError Unit} {rows : List α} :
    checkAll check rows = .ok () ↔ ∀ a ∈ rows, check a = .ok () := by
  induction rows with
  | nil => simp [checkAll]
  | cons a rows ih =>
    rw [checkAll, except_bind_ok, List.forall_mem_cons]
    constructor
    · rintro ⟨u, ha, hr⟩
      exact ⟨ha, ih.mp hr⟩
    · rintro ⟨ha, hr⟩
      exact ⟨(), ha, ih.mpr hr⟩

/-- The check raises only binding errors. -/
def BindingOnly (x : Except StoreError α) : Prop := ∀ e, x = .error e → e.isBinding = true

theorem BindingOnly.require {c : Prop} [Decidable c] {b : BindingError} :
    BindingOnly (require c (.binding b)) := by
  intro e h
  rw [(require_error.mp h).2]
  rfl

theorem BindingOnly.error {b : BindingError} :
    BindingOnly (.error (.binding b) : Except StoreError α) := by
  rintro e ⟨⟩
  rfl

theorem BindingOnly.pure {a : α} : BindingOnly (pure a) := fun _ h => (except_pure_error h).elim

theorem BindingOnly.bind (hx : BindingOnly x) (hf : ∀ a, BindingOnly (f a)) :
    BindingOnly (x >>= f) := by
  intro e h
  rcases except_bind_error.mp h with h | ⟨a, _, h⟩
  · exact hx e h
  · exact hf a e h

theorem BindingOnly.checkAll {check : α → Except StoreError Unit} (h : ∀ a, BindingOnly (check a))
    (rows : List α) : BindingOnly (checkAll check rows) := by
  induction rows with
  | nil => exact fun _ h => (except_pure_error h).elim
  | cons a rows ih => exact .bind (h a) fun _ => ih

end Checks

/-- `_IDENTIFIER_RE.fullmatch` -/
def isIdentifier : PyStr → Bool
  | [] => false
  | c :: cs => isAlnumAscii c && cs.length ≤ 127 &&
    cs.all fun d => isAlnumAscii d || d == '_' || d == '.' || d == ':' || d == '-'

/-- `_validate_identifier` -/
def validateIdentifier (value : PyStr) (label : String) : StoreTx Unit :=
  Tx.ensure (isIdentifier value = true) (.refusal (.identifier label))

/-- `_task_identity` -/
def taskIdentity (task : PyStr) : Except StoreError (PyStr × Nat) := do
  require (strip task ≠ []) (.binding .taskEmpty)
  require (utf8Length task ≤ maxTaskBytes) (.binding .taskTooLong)
  return (Sha256.hexdigest (encodeUtf8 task), utf8Length task)

/-- `_task_identity` of a nullable column. -/
def slotTaskIdentity : Option PyStr → Except StoreError (PyStr × Nat)
  | some task => taskIdentity task
  | none => .error (.binding .taskEmpty)

namespace CoordinationStore
variable (S : CoordinationStore)

/-- `self._database_schema_version` -/
def databaseSchemaVersion : Nat :=
  if 2 < S.config.maxPaidWorkers then Coordination.schemaVersion else twoLaneSchemaVersion

/-- `_worker_lane` past its identifier check. -/
def workerLane (worker : PyStr) : Lane := S.roster.laneOf worker

/-- `_validate_generation_task_row` -/
def validateGenerationTaskRow (row : GenerationTask) : Except StoreError (PyStr × Nat) := do
  require (S.roster.lanes.lookup row.worker = some row.lane) (.binding .taskOutsideRoster)
  require (1 ≤ row.generation) (.binding .taskGeneration)
  let identity ← taskIdentity row.task
  require (row.taskSha256 = identity.1 ∧ row.taskBytes = identity.2) (.binding .taskBytes)
  require (row.stagedAt.isFinite = true ∧ ∀ f ∈ row.frozenAt, f.isFinite = true)
    (.binding .taskTimestamp)
  require (∀ f ∈ row.frozenAt, row.stagedAt.le f = true) (.binding .taskFreezePredatesStaging)
  return identity

end CoordinationStore

/-- The `generation_tasks` row of a worker and a generation. -/
def Tables.task? (t : Tables) (worker : PyStr) (generation : Nat) : Option GenerationTask :=
  t.tasks.find? fun a => a.key = (worker, generation)

/-- The `round_slots` row of a slot id. -/
def Tables.slot? (t : Tables) (slotId : PyStr) : Option RoundSlot :=
  t.slots.find? fun s => s.slotId = slotId

/-- `_prompt_binding_markers` -/
def promptBindingMarkers (slot : RoundSlot) : List PyStr :=
  ["coordination_slot_id=".toList ++ slot.slotId,
   "generation=".toList ++ natText slot.generation,
   "task_sha256=".toList ++ slot.taskSha256.getD "None".toList]

/-- Every binding marker of the slot is a line of the prompt. -/
def bindsSlot (prompt : PyStr) (slot : RoundSlot) : Prop :=
  ∀ m ∈ promptBindingMarkers slot, m ∈ splitlines prompt

instance (prompt : PyStr) (slot : RoundSlot) : Decidable (bindsSlot prompt slot) :=
  inferInstanceAs (Decidable (∀ m ∈ promptBindingMarkers slot, m ∈ splitlines prompt))

/-- The prompt half of `_validate_slot_task_binding_locked`. -/
def validatePrompt (slot : RoundSlot) (digest : PyStr) : Except StoreError Unit :=
  match slot.prompt with
  | none => do
    require (slot.promptSha256 = none ∧ slot.promptTaskSha256 = none) (.binding .partialPrompt)
    require (slot.dispatched = false) (.binding .dispatchedUnpinned)
  | some prompt => do
    require (prompt ≠ []) (.binding .invalidPrompt)
    require (utf8Length prompt ≤ maxPinnedPromptBytes ∧
        slot.promptSha256 = some (Sha256.hexdigest (encodeUtf8 prompt)) ∧
        slot.promptTaskSha256 = some digest ∧ bindsSlot prompt slot)
      (.binding .promptConflict)

namespace CoordinationStore
variable (S : CoordinationStore)

/-- `_validate_slot_task_binding_locked` -/
def validateSlotTaskBinding (t : Tables) (slot : RoundSlot) : Except StoreError Unit :=
  if slot.legacyTaskBinding = 1 then
    require (slot.state = .terminal ∧ slot.task = none ∧ slot.taskSha256 = none ∧
      slot.taskBytes = none ∧ slot.promptTaskSha256 = none) (.binding .legacyBinding)
  else do
    require (slot.legacyTaskBinding = 0) (.binding .bindingVersion)
    let identity ← slotTaskIdentity slot.task
    require (slot.taskSha256 = some identity.1 ∧ slot.taskBytes = some identity.2)
      (.binding .slotSnapshot)
    match t.task? slot.worker slot.generation with
    | none => .error (.binding .slotNoAssignment)
    | some assignment => do
      let _ ← S.validateGenerationTaskRow assignment
      require (assignment.lane = slot.lane ∧ some assignment.task = slot.task ∧
          assignment.taskSha256 = identity.1 ∧ assignment.taskBytes = identity.2 ∧
          assignment.frozenAt ≠ none) (.binding .slotConflict)
      validatePrompt slot identity.1

/-- The schema versions `_audit_task_bindings_locked` supports. -/
def supportedVersions : List Nat :=
  if 2 < S.config.maxPaidWorkers then [Coordination.schemaVersion]
  else [twoLaneSchemaVersion, Coordination.schemaVersion]

/-- The checks of one task row in the audit. -/
def auditTask (t : Tables) (row : GenerationTask) : Except StoreError Unit := do
  let _ ← S.validateGenerationTaskRow row
  require (row.generation ≤ t.project.generation + 1) (.binding .futureTask)
  require (¬ (row.generation = t.project.generation + 1 ∧ t.project.phase ≠ .ownerActionRequired))
    (.binding .strayFutureTask)

/-- `_audit_task_bindings_locked` -/
def auditTaskBindings (t : Tables) : Except StoreError Unit := do
  require (t.project.schemaVersion ∈ S.supportedVersions) (.binding .schemaInconsistent)
  checkAll (S.auditTask t) t.tasks
  checkAll (S.validateSlotTaskBinding t) t.slots

end CoordinationStore

/-- One row of the staging projection. -/
structure StagedTask where
  worker : PyStr
  lane : Lane
  generation : Nat
  taskSha256 : PyStr
  taskBytes : Nat
  frozen : Bool

structure TaskStaging where
  generation : Nat
  requiredWorkers : List PyStr
  assignments : List StagedTask
  missingWorkers : List PyStr

def TaskStaging.ready (p : TaskStaging) : Bool := p.missingWorkers.isEmpty

def GenerationTask.frozen (a : GenerationTask) : Bool := a.frozenAt.isSome

def GenerationTask.staged (a : GenerationTask) : StagedTask :=
  ⟨a.worker, a.lane, a.generation, a.taskSha256, a.taskBytes, a.frozen⟩

namespace CoordinationStore
variable (S : CoordinationStore)

/-- The assignments and the missing workers among the given lanes. -/
def stagedLanes (t : Tables) (generation : Nat) :
    List (PyStr × Lane) → Except StoreError (List StagedTask × List PyStr)
  | [] => .ok ([], [])
  | (worker, lane) :: rest =>
    match t.task? worker generation with
    | none => do
      let r ← stagedLanes t generation rest
      return (r.1, worker :: r.2)
    | some row => do
      let _ ← S.validateGenerationTaskRow row
      require (row.lane = lane) (.binding .taskLane)
      let r ← stagedLanes t generation rest
      return (row.staged :: r.1, r.2)

/-- `_task_staging_projection_locked` -/
def taskStagingProjection (t : Tables) (generation : Nat) : Except StoreError TaskStaging := do
  let r ← S.stagedLanes t generation S.roster.lanes
  require (∀ a ∈ t.tasks, a.generation = generation → a.worker ∈ S.roster.lanes.map Prod.fst)
    (.binding .taskUnexpectedWorker)
  return ⟨generation, S.roster.lanes.map Prod.fst, r.1, r.2⟩

end CoordinationStore

/-- The rows `_copy_forward_generation_tasks_locked` inserts, one for each lane. -/
def carriedTasks (t : Tables) (generation : Nat) (stagedAt : SqlReal) :
    List (PyStr × Lane) → Except StoreError (List GenerationTask)
  | [] => .ok []
  | (worker, lane) :: rest => do
    match t.task? worker generation with
    | none => .error (.contradiction .carryDisappeared)
    | some row => do
      let rows ← carriedTasks t generation stagedAt rest
      return ⟨worker, generation + 1, lane, row.task, row.taskSha256, row.taskBytes, stagedAt,
        none⟩ :: rows

/-- The project row's generation whose tasks are staged next. -/
def Tables.stagingGeneration (t : Tables) : Nat :=
  if t.project.phase = .ownerActionRequired then t.project.generation + 1 else t.project.generation

/-- `_active_candidate` finds an overlay. -/
def Tables.overlaid (t : Tables) : Bool := t.candidates.any (·.overlay)

/-- What `stage_task_assignment` returns. -/
structure StagedReply where
  worker : PyStr
  lane : Lane
  generation : Nat
  taskSha256 : PyStr
  taskBytes : Nat
  frozen : Bool
  replayed : Bool
  replaced : Bool

namespace CoordinationStore
variable (S : CoordinationStore)

/-- `staged_task_assignments` -/
def stagedTaskAssignments (generation : Option Nat) : StoreTx TaskStaging := do
  let t ← look
  let target := generation.getD t.stagingGeneration
  Tx.ensure (1 ≤ target ∧ target ≤ t.project.generation + 1) (.refusal .stagingHorizon)
  Tx.check (S.taskStagingProjection t target)

/-- The `UPDATE` of `stage_task_assignment`. -/
def replaceTask (new : GenerationTask) : StoreTx StagedReply := do
  let changed ← updateTasks (fun a => decide (a.key = new.key) && a.frozenAt.isNone) fun a => { a with
    lane := new.lane, task := new.task, taskSha256 := new.taskSha256, taskBytes := new.taskBytes
    stagedAt := new.stagedAt }
  Tx.ensure (changed = 1) (.contradiction .stageCas)
  return ⟨new.worker, new.lane, new.generation, new.taskSha256, new.taskBytes, false, false, true⟩

/-- The `INSERT` of `stage_task_assignment`. -/
def insertTask (new : GenerationTask) : StoreTx StagedReply := do
  put fun t => { t with tasks := t.tasks ++ [new] }
  return ⟨new.worker, new.lane, new.generation, new.taskSha256, new.taskBytes, false, false, false⟩

/-- `stage_task_assignment`, observed at `stagedAt`. -/
def stageTaskAssignment (worker task : PyStr) (stagedAt : Stamp) : StoreTx StagedReply := do
  validateIdentifier worker "worker"
  let lane := S.workerLane worker
  Tx.ensure (worker ∈ S.roster.lanes.map Prod.fst) (.refusal .unprotectedTask)
  let identity ← Tx.check (taskIdentity task)
  let at' ← Tx.fetched (stagedAt.filter (·.isFinite)) (.refusal .assignmentTimestamp)
  let t ← look
  Tx.ensure (t.overlaid = false) (.refusal .candidateFreezesTasks)
  let target := t.stagingGeneration
  let slotExists := t.slots.any fun s => s.worker == worker && s.generation == target
  let new : GenerationTask := ⟨worker, target, lane, task, identity.1, identity.2, at', none⟩
  match t.task? worker target with
  | some existing =>
    let _ ← Tx.check (S.validateGenerationTaskRow existing)
    if existing.lane = lane ∧ existing.task = task ∧ existing.taskSha256 = identity.1 ∧
        existing.taskBytes = identity.2 then
      return ⟨worker, lane, target, identity.1, identity.2, existing.frozen, true, false⟩
    else
      Tx.ensure (existing.frozen = false ∧ slotExists = false) (.refusal .taskFrozen)
      replaceTask new
  | none =>
    Tx.ensure (slotExists = false) (.contradiction .slotWithoutTask)
    insertTask new

/-- `_freeze_required_generation_tasks_locked` -/
def freezeRequiredGenerationTasks (generation : Nat) (frozenAt : Stamp) : StoreTx TaskStaging := do
  let t ← look
  let projection ← Tx.check (S.taskStagingProjection t generation)
  Tx.ensure (projection.ready = true)
    (.refusal (.stagingIncomplete generation projection.missingWorkers))
  let changed ← updateTasks (fun a => decide (a.generation = generation) && a.frozenAt.isNone)
    fun a => { a with frozenAt := frozenAt }
  Tx.ensure (changed = projection.assignments.countP fun a => !a.frozen) (.contradiction .freezeCas)
  let t ← look
  Tx.check (S.taskStagingProjection t generation)

/-- `_copy_forward_generation_tasks_locked` -/
def copyForwardGenerationTasks (generation : Nat) (stagedAt : Stamp) : StoreTx Unit := do
  let t ← look
  let source ← Tx.check (S.taskStagingProjection t generation)
  Tx.ensure (source.ready = true ∧ ∀ a ∈ source.assignments, a.frozen = true)
    (.contradiction .carryNotFrozen)
  Tx.ensure (∀ a ∈ t.tasks, a.generation ≠ generation + 1) (.contradiction .carryConflict)
  let at' ← notNull stagedAt
  let rows ← Tx.check (carriedTasks t generation at' S.roster.lanes)
  put fun t => { t with tasks := t.tasks ++ rows }

end CoordinationStore
end Danus.Coordination
