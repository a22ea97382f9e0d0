import Danus.Coordination.Store

/-! What the rows of a coordination database owe each other, whatever the calls were. -/
namespace Danus.Coordination
open Python Transaction

variable (S : CoordinationStore)

/-- A task row names a roster lane and carries the identity of its own text. -/
structure CoordinationStore.TaskBound (a : GenerationTask) : Prop where
  lane : (a.worker, a.lane) ∈ S.roster.lanes
  generation : 1 ≤ a.generation
  identity : taskIdentity a.task = .ok (a.taskSha256, a.taskBytes)

/-- Staging and freezing happened at finite times, in that order. -/
structure GenerationTask.Timely (a : GenerationTask) : Prop where
  staged : a.stagedAt.isFinite = true
  frozen : ∀ f ∈ a.frozenAt, f.isFinite = true
  order : ∀ f ∈ a.frozenAt, a.stagedAt.le f = true

/-- A pinned prompt is bounded, hashed, and names its slot, generation and task. -/
def RoundSlot.PromptSound (s : RoundSlot) : Prop :=
  match s.prompt with
  | none => s.promptSha256 = none ∧ s.promptTaskSha256 = none
  | some prompt => prompt ≠ [] ∧ utf8Length prompt ≤ maxPinnedPromptBytes ∧
    s.promptSha256 = some (Sha256.hexdigest (encodeUtf8 prompt)) ∧
    s.promptTaskSha256 = s.taskSha256 ∧ bindsSlot prompt s

/-- What a slot row owes to the roster and to itself. -/
structure CoordinationStore.SlotSound (s : RoundSlot) : Prop where
  lane : (s.worker, s.lane) ∈ S.roster.lanes
  legacy : s.legacyTaskBinding = 0
  directive : slotDirective s.lane s.generation s.phase s.reviewId s.designatedRootEntryId =
    .ok s.directive
  prompt : s.PromptSound

/-- The slot runs exactly this frozen task. -/
structure RoundSlot.Assigned (s : RoundSlot) (a : GenerationTask) : Prop where
  key : a.key = (s.worker, s.generation)
  lane : a.lane = s.lane
  task : s.task = some a.task
  taskSha256 : s.taskSha256 = some a.taskSha256
  taskBytes : s.taskBytes = some a.taskBytes
  frozen : a.frozenAt ≠ none

/-- The slot is an ordinary reasoning slot. -/
structure RoundSlot.InReasoning (s : RoundSlot) : Prop where
  phase : s.phase = .reasoning
  reviewId : s.reviewId = none
  designated : s.designatedRootEntryId = none

/-- The slot was admitted for exactly this review. -/
structure ObstacleReview.Reviews (r : ObstacleReview) (s : RoundSlot) : Prop where
  phase : s.phase = .criticReview
  lane : s.lane = .critic
  critic : r.criticSlotId = some s.slotId
  review : s.reviewId = some r.reviewId
  designated : s.designatedRootEntryId = some r.rootEntryId
  generation : s.generation = r.generation

/-- The evidence entry was written from this slot, in its lane. -/
structure RoundSlot.Wrote (s : RoundSlot) (e : EvidenceEntry) : Prop where
  slot : e.slotId = s.slotId
  worker : e.worker = s.worker
  lane : e.lane = s.lane
  generation : e.generation = s.generation
  content : (s.lane = .root ∧ e.kind.isObstacle = true ∧ e.confirmsEntryId = none) ∨
    (s.lane = .critic ∧ s.phase = .criticReview ∧ e.kind = .criticConfirmation ∧
      e.confirmsEntryId ≠ none ∧ e.confirmsEntryId = s.designatedRootEntryId)

/-- The root entry a review is about. -/
structure ObstacleReview.RootedAt (r : ObstacleReview) (e : EvidenceEntry) : Prop where
  entry : e.entryId = r.rootEntryId
  slot : e.slotId = r.rootSlotId
  generation : e.generation = r.generation
  lane : e.lane = .root

/-- The confirmation a review rests on, written from its critic slot. -/
structure ObstacleReview.ConfirmedBy (r : ObstacleReview) (s : RoundSlot) (e : EvidenceEntry) :
    Prop where
  entry : r.confirmationEntryId = some e.entryId
  slot : e.slotId = s.slotId
  generation : e.generation = r.generation
  lane : e.lane = .critic
  kind : e.kind = .criticConfirmation
  confirms : e.confirmsEntryId = some r.rootEntryId

/-- The slot and the confirmation a review has in its state. -/
def ObstacleReview.Shaped (r : ObstacleReview) (slots : List RoundSlot)
    (evidence : List EvidenceEntry) : Prop :=
  match r.state with
  | .pending => r.criticSlotId = none ∧ r.confirmationEntryId = none
  | .active | .notConfirmed => (∃ s ∈ slots, r.Reviews s) ∧ r.confirmationEntryId = none
  | .confirmed | .resolved => ∃ s ∈ slots, r.Reviews s ∧ ∃ e ∈ evidence, r.ConfirmedBy s e

/-- The review confirmed what the recommendation reports. -/
structure ObstacleReview.Backs (r : ObstacleReview) (a : AdvisorRecommendation) : Prop where
  review : a.reviewId = some r.reviewId
  root : a.rootEntryId = r.rootEntryId
  critic : r.confirmationEntryId = some a.criticEntryId
  generation : a.generation = r.generation
  state : r.state = .confirmed ∨ r.state = .resolved

/-- Every lane of the roster has finished the generation's reasoning. -/
def CoordinationStore.LanesDone (slots : List RoundSlot) (generation : Nat) : Prop :=
  ∀ w l, (w, l) ∈ S.roster.lanes → ∃ s ∈ slots, s.worker = w ∧ s.generation = generation ∧
    s.phase = .reasoning ∧ s.state = .terminal

/-- The records agree with each other: what every call keeps, in every order. -/
structure CoordinationStore.Coherent (t : Tables) : Prop where
  version : t.project.schemaVersion = S.databaseSchemaVersion
  configured : t.project.configDigest = S.rosterDigest ∧ t.project.rootWorker = S.roster.root ∧
    t.project.criticWorker = S.roster.critic
  task_bound : ∀ a ∈ t.tasks, S.TaskBound a
  task_horizon : ∀ a ∈ t.tasks, a.generation ≤ t.project.generation ∨
    (a.generation = t.project.generation + 1 ∧ t.project.phase = .ownerActionRequired)
  slot_sound : ∀ s ∈ t.slots, S.SlotSound s
  slot_task : ∀ s ∈ t.slots, ∃ a ∈ t.tasks, s.Assigned a
  slot_generation : ∀ s ∈ t.slots, s.generation ≤ t.project.generation
  open_current : ∀ s ∈ t.slots, s.open = true → s.generation = t.project.generation
  slot_phase : ∀ s ∈ t.slots, s.InReasoning ∨ ∃ r ∈ t.reviews, r.Reviews s
  lanes_done : t.project.phase ≠ .reasoning → S.LanesDone t.slots t.project.generation
  evidence_slot : ∀ e ∈ t.evidence, ∃ s ∈ t.slots, s.Wrote e
  review_critic : ∀ r ∈ t.reviews, S.roster.critic = some r.criticWorker
  review_root : ∀ r ∈ t.reviews, ∃ e ∈ t.evidence, r.RootedAt e
  review_shape : ∀ r ∈ t.reviews, r.Shaped t.slots t.evidence
  review_live : ∀ r ∈ t.reviews, r.live = true →
    t.project.activeReviewId = some r.reviewId ∧ r.generation = t.project.generation
  review_closed : ∀ r ∈ t.reviews, r.live = false → r.generation < t.project.generation
  pointer : ∀ i ∈ t.project.activeReviewId, ∃ r ∈ t.reviews, r.reviewId = i ∧ r.live = true
  reasoning_pending : t.project.phase = .reasoning →
    ∀ r ∈ t.reviews, r.live = true → r.state = .pending
  critic_review : t.project.phase = .criticReview →
    ∃ r ∈ t.reviews, t.project.activeReviewId = some r.reviewId ∧
      (r.state = .pending ∨ r.state = .active)
  owner_gate : t.project.phase = .ownerActionRequired →
    ∃ a ∈ t.recommendations, t.project.recommendationId = some a.recommendationId ∧
      a.generation = t.project.generation ∧
      ∃ r ∈ t.reviews, t.project.activeReviewId = some r.reviewId ∧ r.state = .confirmed ∧ r.Backs a
  no_recommendation : t.project.phase ≠ .ownerActionRequired → t.project.recommendationId = none
  recommendation_review : ∀ a ∈ t.recommendations, ∃ r ∈ t.reviews, r.Backs a
  overlay_identity : ∀ c ∈ t.candidates, CoordinationStore.invalidOverlay c = false

/-- Nothing in the database fails the audit for its time or for a missing prompt. -/
structure Tables.Audited (t : Tables) : Prop where
  timely : ∀ a ∈ t.tasks, a.Timely
  pinned : ∀ s ∈ t.slots, s.dispatched = true → s.prompt ≠ none

section Validators
variable {S} {a : GenerationTask} {s : RoundSlot} {t : Tables} {e : StoreError}

theorem taskIdentity_binding (task : PyStr) : BindingOnly (taskIdentity task) :=
  .bind .require fun _ => .bind .require fun _ => .pure

theorem slotTaskIdentity_binding (task : Option PyStr) : BindingOnly (slotTaskIdentity task) := by
  cases task with
  | none => exact .error
  | some task => exact taskIdentity_binding task

theorem CoordinationStore.validateGenerationTaskRow_ok {p : PyStr × Nat} :
    S.validateGenerationTaskRow a = .ok p ↔
      S.TaskBound a ∧ a.Timely ∧ p = (a.taskSha256, a.taskBytes) := by
  unfold validateGenerationTaskRow
  simp only [except_bind_ok, require_ok, except_pure_ok, exists_const]
  constructor
  · rintro ⟨hl, hg, i, hi, ⟨hs, hb⟩, ⟨hf, hfz⟩, ho, rfl⟩
    have hp : p = (a.taskSha256, a.taskBytes) := by simp [hs, hb]
    exact ⟨⟨mem_of_lookup_eq_some hl, hg, hp ▸ hi⟩, ⟨hf, hfz, ho⟩, hp⟩
  · rintro ⟨hb, ht, rfl⟩
    exact ⟨lookup_eq_some_of_nodup S.roster.lanes_workers_nodup hb.lane, hb.generation, _,
      hb.identity, ⟨rfl, rfl⟩, ⟨ht.staged, ht.frozen⟩, ht.order, rfl⟩

theorem CoordinationStore.validateGenerationTaskRow_binding (a : GenerationTask) :
    BindingOnly (S.validateGenerationTaskRow a) :=
  .bind .require fun _ => .bind .require fun _ => .bind (taskIdentity_binding _) fun _ =>
    .bind .require fun _ => .bind .require fun _ => .bind .require fun _ => .pure

theorem validatePrompt_binding (s : RoundSlot) (digest : PyStr) :
    BindingOnly (validatePrompt s digest) := by
  unfold validatePrompt
  cases s.prompt with
  | none => exact .bind .require fun _ => .require
  | some prompt => exact .bind .require fun _ => .require

theorem CoordinationStore.validateSlotTaskBinding_binding (t : Tables) (s : RoundSlot) :
    BindingOnly (S.validateSlotTaskBinding t s) := by
  unfold validateSlotTaskBinding
  split
  · exact .require
  · refine .bind .require fun _ => .bind ?_ fun _ => .bind .require fun _ => ?_
    · exact slotTaskIdentity_binding _
    · cases t.task? s.worker s.generation with
      | none => exact .error
      | some a =>
        exact .bind (S.validateGenerationTaskRow_binding a) fun _ => .bind .require fun _ =>
          validatePrompt_binding s _

theorem CoordinationStore.stagedLanes_binding (t : Tables) (generation : Nat)
    (lanes : List (PyStr × Lane)) : BindingOnly (S.stagedLanes t generation lanes) := by
  induction lanes with
  | nil => exact .pure
  | cons p lanes ih =>
    unfold stagedLanes
    cases t.task? p.1 generation with
    | none => exact .bind ih fun _ => .pure
    | some a =>
      exact .bind (S.validateGenerationTaskRow_binding a) fun _ => .bind .require fun _ =>
        .bind ih fun _ => .pure

theorem CoordinationStore.taskStagingProjection_binding (t : Tables) (generation : Nat) :
    BindingOnly (S.taskStagingProjection t generation) :=
  .bind (S.stagedLanes_binding t generation _) fun _ => .bind .require fun _ => .pure

/-- What a validated prompt says of its slot. -/
theorem validatePrompt_ok {digest : PyStr} (hs : s.PromptSound) (hd : s.taskSha256 = some digest) :
    validatePrompt s digest = .ok () ↔ (s.dispatched = true → s.prompt ≠ none) := by
  unfold validatePrompt
  unfold RoundSlot.PromptSound at hs
  cases hp : s.prompt with
  | none =>
    rw [hp] at hs
    simp [except_bind_ok, require_ok, hs]
  | some prompt =>
    rw [hp] at hs
    obtain ⟨h1, h2, h3, h4, h5⟩ := hs
    simp [except_bind_ok, require_ok, h1, h2, h3, h4, h5, hd]

/-- A slot of a coherent database passes its validation unless its task is untimely or it was
dispatched without a prompt. -/
theorem CoordinationStore.validateSlotTaskBinding_ok (hs : S.SlotSound s)
    (ha : t.task? s.worker s.generation = some a) (hb : S.TaskBound a) (h : s.Assigned a) :
    S.validateSlotTaskBinding t s = .ok () ↔
      a.Timely ∧ (s.dispatched = true → s.prompt ≠ none) := by
  have hi : slotTaskIdentity s.task = .ok (a.taskSha256, a.taskBytes) := by
    rw [h.task]
    exact hb.identity
  have hl : ¬ s.legacyTaskBinding = 1 := by simp [hs.legacy]
  rw [validateSlotTaskBinding, if_neg hl, ha, hi]
  simp only [except_bind_ok, require_ok, validateGenerationTaskRow_ok]
  constructor
  · rintro ⟨_, _, _, hp, _, _, _, ⟨_, ht, _⟩, _, _, hv⟩
    cases hp
    exact ⟨ht, (validatePrompt_ok hs.prompt h.taskSha256).mp hv⟩
  · rintro ⟨ht, hp⟩
    exact ⟨(), hs.legacy, _, rfl, (), ⟨h.taskSha256, h.taskBytes⟩, _, ⟨hb, ht, rfl⟩, (),
      ⟨h.lane, h.task.symm, rfl, rfl, h.frozen⟩, (validatePrompt_ok hs.prompt h.taskSha256).mpr hp⟩

end Validators
end Danus.Coordination
