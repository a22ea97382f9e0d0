import Danus.Coordination.Coherence

/-! The coordination protocol: what one call can change, row by row, and what every change keeps. -/
namespace Danus.Coordination
open Python Transaction

/-- A later version of a slot: the same reservation, never reopened. -/
structure RoundSlot.Continues (s s' : RoundSlot) : Prop where
  slotId : s'.slotId = s.slotId
  worker : s'.worker = s.worker
  lane : s'.lane = s.lane
  generation : s'.generation = s.generation
  phase : s'.phase = s.phase
  directive : s'.directive = s.directive
  legacy : s'.legacyTaskBinding = s.legacyTaskBinding
  task : s'.task = s.task
  taskSha256 : s'.taskSha256 = s.taskSha256
  taskBytes : s'.taskBytes = s.taskBytes
  reviewId : s'.reviewId = s.reviewId
  designated : s'.designatedRootEntryId = s.designatedRootEntryId
  opened : s'.open = true → s.open = true
  closed : s.state = .terminal → s'.state = .terminal
  sound : s.PromptSound → s'.PromptSound

theorem RoundSlot.Continues.refl (s : RoundSlot) : s.Continues s :=
  ⟨rfl, rfl, rfl, rfl, rfl, rfl, rfl, rfl, rfl, rfl, rfl, rfl, id, id, id⟩

/-- The life of a round slot after its reservation. -/
inductive SlotMove (calm : Prop) (s : RoundSlot) : RoundSlot → Prop where
  | pin {prompt : PyStr} : s.prompt = none → prompt ≠ [] →
      utf8Length prompt ≤ maxPinnedPromptBytes → bindsSlot prompt s →
      SlotMove calm s { s with
        prompt := some prompt, promptSha256 := some (Sha256.hexdigest (encodeUtf8 prompt))
        promptTaskSha256 := s.taskSha256 }
  | activate {at' : Option SqlReal} : s.state = .prepared → s.prompt ≠ none →
      SlotMove calm s { s with state := .active, activatedAt := at' }
  | ambiguous : s.open = true → (calm → s.state = .prepared → s.prompt ≠ none) →
      SlotMove calm s { s with state := .ambiguous }
  | finish {at' : Option SqlReal} {outcome : PyStr} : s.open = true →
      SlotMove calm s { s with state := .terminal, terminalAt := at', outcome := some outcome }

section Slots
variable {S : CoordinationStore} {calm : Prop} {s s' : RoundSlot} {a : GenerationTask}
  {r : ObstacleReview} {e : EvidenceEntry}

theorem RoundSlot.open_ne_terminal (h : s.open = true) : s.state ≠ .terminal := by
  simpa [RoundSlot.open] using h

theorem RoundSlot.not_open_iff : s.open = false ↔ s.state = .terminal := by
  cases hs : s.state <;> simp [RoundSlot.open, hs]

theorem SlotMove.continues (h : SlotMove calm s s') : s.Continues s' := by
  cases h with
  | pin hp hne hl hb =>
    exact ⟨rfl, rfl, rfl, rfl, rfl, rfl, rfl, rfl, rfl, rfl, rfl, rfl, id, id,
      fun _ => ⟨hne, hl, rfl, rfl, hb⟩⟩
  | activate hs hp =>
    refine ⟨rfl, rfl, rfl, rfl, rfl, rfl, rfl, rfl, rfl, rfl, rfl, rfl, fun _ => ?_, ?_, id⟩
    · simp [RoundSlot.open, hs]
    · simp [hs]
  | ambiguous ho hc =>
    refine ⟨rfl, rfl, rfl, rfl, rfl, rfl, rfl, rfl, rfl, rfl, rfl, rfl, fun _ => ho, ?_, id⟩
    intro ht
    exact (RoundSlot.open_ne_terminal ho ht).elim
  | finish ho =>
    exact ⟨rfl, rfl, rfl, rfl, rfl, rfl, rfl, rfl, rfl, rfl, rfl, rfl, fun _ => ho, fun _ => rfl, id⟩

/-- A calm move dispatches no slot without a prompt. -/
theorem SlotMove.pinned (hcalm : calm) (h : SlotMove calm s s')
    (hp : s.dispatched = true → s.prompt ≠ none) : s'.dispatched = true → s'.prompt ≠ none := by
  intro hd
  cases h with
  | pin => simp
  | activate _ hne => exact hne
  | ambiguous ho hne =>
    cases hst : s.state with
    | prepared => exact hne hcalm hst
    | active => exact hp (by simp [RoundSlot.dispatched, hst])
    | ambiguous => exact hp (by simp [RoundSlot.dispatched, hst])
    | terminal => exact (RoundSlot.open_ne_terminal ho hst).elim
  | finish => simp [RoundSlot.dispatched] at hd

namespace RoundSlot.Continues
variable (h : s.Continues s')
include h

theorem slotSound (hs : S.SlotSound s) : S.SlotSound s' where
  lane := by rw [h.worker, h.lane]; exact hs.lane
  legacy := h.legacy.trans hs.legacy
  directive := by
    rw [h.lane, h.generation, h.phase, h.reviewId, h.designated, h.directive]
    exact hs.directive
  prompt := h.sound hs.prompt

theorem assigned (hs : s.Assigned a) : s'.Assigned a where
  key := by rw [h.worker, h.generation]; exact hs.key
  lane := hs.lane.trans h.lane.symm
  task := h.task.trans hs.task
  taskSha256 := h.taskSha256.trans hs.taskSha256
  taskBytes := h.taskBytes.trans hs.taskBytes
  frozen := hs.frozen

theorem inReasoning (hs : s.InReasoning) : s'.InReasoning :=
  ⟨h.phase.trans hs.phase, h.reviewId.trans hs.reviewId, h.designated.trans hs.designated⟩

theorem reviews (hs : r.Reviews s) : r.Reviews s' where
  phase := h.phase.trans hs.phase
  lane := h.lane.trans hs.lane
  critic := by rw [h.slotId]; exact hs.critic
  review := h.reviewId.trans hs.review
  designated := h.designated.trans hs.designated
  generation := h.generation.trans hs.generation

theorem wrote (hs : s.Wrote e) : s'.Wrote e where
  slot := hs.slot.trans h.slotId.symm
  worker := hs.worker.trans h.worker.symm
  lane := hs.lane.trans h.lane.symm
  generation := hs.generation.trans h.generation.symm
  content := by rw [h.lane, h.phase, h.designated]; exact hs.content

theorem confirmedBy (hs : r.ConfirmedBy s e) : r.ConfirmedBy s' e :=
  ⟨hs.entry, hs.slot.trans h.slotId.symm, hs.generation, hs.lane, hs.kind, hs.confirms⟩

end RoundSlot.Continues

theorem ObstacleReview.Shaped.mono {slots slots' : List RoundSlot}
    {evidence evidence' : List EvidenceEntry}
    (hs : ∀ s ∈ slots, ∃ s' ∈ slots', s.Continues s') (he : ∀ e ∈ evidence, e ∈ evidence')
    (h : r.Shaped slots evidence) : r.Shaped slots' evidence' := by
  unfold ObstacleReview.Shaped at h ⊢
  have critic : (∃ s ∈ slots, r.Reviews s) → ∃ s ∈ slots', r.Reviews s := by
    rintro ⟨s, hm, hr⟩
    obtain ⟨s', hm', hc⟩ := hs s hm
    exact ⟨s', hm', hc.reviews hr⟩
  have confirmed : (∃ s ∈ slots, r.Reviews s ∧ ∃ e ∈ evidence, r.ConfirmedBy s e) →
      ∃ s ∈ slots', r.Reviews s ∧ ∃ e ∈ evidence', r.ConfirmedBy s e := by
    rintro ⟨s, hm, hr, e, hem, hc⟩
    obtain ⟨s', hm', hcs⟩ := hs s hm
    exact ⟨s', hm', hcs.reviews hr, e, he e hem, hcs.confirmedBy hc⟩
  cases hst : r.state <;> simp only [hst] at h ⊢
  · exact h
  · exact ⟨critic h.1, h.2⟩
  · exact confirmed h
  · exact ⟨critic h.1, h.2⟩
  · exact confirmed h

end Slots

/-- A review with other times. -/
def ObstacleReview.Retimed (r r' : ObstacleReview) : Prop :=
  ∃ a b, r' = { r with activatedAt := a, terminalAt := b }

theorem ObstacleReview.Retimed.refl (r : ObstacleReview) : r.Retimed r := ⟨_, _, rfl⟩

/-- A review with the same critic slot, confirmation and identity as another. -/
structure ObstacleReview.SameBinding (r r' : ObstacleReview) : Prop where
  reviewId : r'.reviewId = r.reviewId
  generation : r'.generation = r.generation
  root : r'.rootEntryId = r.rootEntryId
  rootSlot : r'.rootSlotId = r.rootSlotId
  worker : r'.criticWorker = r.criticWorker
  critic : r'.criticSlotId = r.criticSlotId
  confirmation : r'.confirmationEntryId = r.confirmationEntryId

namespace ObstacleReview.SameBinding
variable {r r' : ObstacleReview} {s : RoundSlot} {e : EvidenceEntry} (h : r.SameBinding r')
include h

theorem reviews (hr : r.Reviews s) : r'.Reviews s where
  phase := hr.phase
  lane := hr.lane
  critic := h.critic.trans hr.critic
  review := hr.review.trans (congrArg some h.reviewId.symm)
  designated := hr.designated.trans (congrArg some h.root.symm)
  generation := hr.generation.trans h.generation.symm

theorem rootedAt (hr : r.RootedAt e) : r'.RootedAt e :=
  ⟨hr.entry.trans h.root.symm, hr.slot.trans h.rootSlot.symm, hr.generation.trans h.generation.symm,
    hr.lane⟩

theorem confirmedBy (hr : r.ConfirmedBy s e) : r'.ConfirmedBy s e :=
  ⟨h.confirmation.trans hr.entry, hr.slot, hr.generation.trans h.generation.symm, hr.lane, hr.kind,
    hr.confirms.trans (congrArg some h.root.symm)⟩

/-- The slot and the confirmation of a state fit every state with the same ones. -/
theorem shaped {slots : List RoundSlot} {evidence : List EvidenceEntry}
    (hs : r'.state = r.state ∨ (r.state = .active ∧ r'.state = .notConfirmed) ∨
      (r.state = .confirmed ∧ r'.state = .resolved))
    (hr : r.Shaped slots evidence) : r'.Shaped slots evidence := by
  have critic : (∃ s ∈ slots, r.Reviews s) → ∃ s ∈ slots, r'.Reviews s := by
    rintro ⟨s, hm, hrs⟩
    exact ⟨s, hm, h.reviews hrs⟩
  have confirmed : (∃ s ∈ slots, r.Reviews s ∧ ∃ e ∈ evidence, r.ConfirmedBy s e) →
      ∃ s ∈ slots, r'.Reviews s ∧ ∃ e ∈ evidence, r'.ConfirmedBy s e := by
    rintro ⟨s, hm, hrs, e, he, hce⟩
    exact ⟨s, hm, h.reviews hrs, e, he, h.confirmedBy hce⟩
  have none_of : r.confirmationEntryId = none → r'.confirmationEntryId = none := h.confirmation.trans
  unfold ObstacleReview.Shaped at hr ⊢
  rcases hs with hs | ⟨h1, h2⟩ | ⟨h1, h2⟩
  · rw [hs]
    cases hst : r.state <;> simp only [hst] at hr ⊢
    · exact ⟨h.critic.trans hr.1, none_of hr.2⟩
    · exact ⟨critic hr.1, none_of hr.2⟩
    · exact confirmed hr
    · exact ⟨critic hr.1, none_of hr.2⟩
    · exact confirmed hr
  · simp only [h1, h2] at hr ⊢
    exact ⟨critic hr.1, none_of hr.2⟩
  · simp only [h1, h2] at hr ⊢
    exact confirmed hr

end ObstacleReview.SameBinding

theorem ObstacleReview.Retimed.sameBinding {r r' : ObstacleReview} (h : r.Retimed r') :
    r.SameBinding r' ∧ r'.state = r.state := by
  obtain ⟨a, b, rfl⟩ := h
  exact ⟨⟨rfl, rfl, rfl, rfl, rfl, rfl, rfl⟩, rfl⟩

/-- A task row that still binds the slots it is frozen for. -/
structure GenerationTask.Continues (a a' : GenerationTask) : Prop where
  key : a'.key = a.key
  lane : a'.lane = a.lane
  task : a'.task = a.task
  taskSha256 : a'.taskSha256 = a.taskSha256
  taskBytes : a'.taskBytes = a.taskBytes
  frozen : a'.frozenAt ≠ none

theorem GenerationTask.Continues.refl {a : GenerationTask} (h : a.frozenAt ≠ none) :
    a.Continues a := ⟨rfl, rfl, rfl, rfl, rfl, h⟩

namespace CoordinationStore.Coherent
variable {S : CoordinationStore} {t : Tables} (hc : S.Coherent t)
include hc

/-- Worker states and memory cursors bind nothing. -/
theorem book (workers : List WorkerState) (cursors : List MemoryCursor) :
    S.Coherent { t with workers := workers, cursors := cursors } := { hc with }

/-- Receipts bind only the identity of an overlay. -/
theorem withCandidates {candidates : List Candidate}
    (h : ∀ c ∈ candidates, CoordinationStore.invalidOverlay c = false) :
    S.Coherent { t with candidates := candidates } := { hc with overlay_identity := h }

theorem withTasks {tasks : List GenerationTask}
    (hb : ∀ a ∈ tasks, S.TaskBound a ∧ (a.generation ≤ t.project.generation ∨
      (a.generation = t.project.generation + 1 ∧ t.project.phase = .ownerActionRequired)))
    (hf : ∀ a ∈ t.tasks, a.frozenAt ≠ none → ∃ a' ∈ tasks, a.Continues a') :
    S.Coherent { t with tasks := tasks } := { hc with
  task_bound := fun a ha => (hb a ha).1
  task_horizon := fun a ha => (hb a ha).2
  slot_task := by
    intro s hs
    obtain ⟨a, ha, h⟩ := hc.slot_task s hs
    obtain ⟨a', ha', h'⟩ := hf a ha h.frozen
    refine ⟨a', ha', h'.key.trans h.key, h'.lane.trans h.lane, ?_, ?_, ?_, h'.frozen⟩
    · rw [h'.task]; exact h.task
    · rw [h'.taskSha256]; exact h.taskSha256
    · rw [h'.taskBytes]; exact h.taskBytes }

theorem withSlots {slots : List RoundSlot} (hto : ∀ s ∈ t.slots, ∃ s' ∈ slots, s.Continues s')
    (hfrom : ∀ s' ∈ slots, ∃ s ∈ t.slots, s.Continues s') :
    S.Coherent { t with slots := slots } := { hc with
  slot_sound := by
    intro s' hs'
    obtain ⟨s, hs, h⟩ := hfrom s' hs'
    exact h.slotSound (hc.slot_sound s hs)
  slot_task := by
    intro s' hs'
    obtain ⟨s, hs, h⟩ := hfrom s' hs'
    obtain ⟨a, ha, hsa⟩ := hc.slot_task s hs
    exact ⟨a, ha, h.assigned hsa⟩
  slot_generation := by
    intro s' hs'
    obtain ⟨s, hs, h⟩ := hfrom s' hs'
    exact h.generation ▸ hc.slot_generation s hs
  open_current := by
    intro s' hs' ho
    obtain ⟨s, hs, h⟩ := hfrom s' hs'
    exact h.generation.trans (hc.open_current s hs (h.opened ho))
  slot_phase := by
    intro s' hs'
    obtain ⟨s, hs, h⟩ := hfrom s' hs'
    rcases hc.slot_phase s hs with hp | ⟨r, hr, hp⟩
    · exact .inl (h.inReasoning hp)
    · exact .inr ⟨r, hr, h.reviews hp⟩
  lanes_done := by
    intro hp w l hw
    obtain ⟨s, hs, h1, h2, h3, h4⟩ := hc.lanes_done hp w l hw
    obtain ⟨s', hs', h⟩ := hto s hs
    exact ⟨s', hs', h.worker.trans h1, h.generation.trans h2, h.phase.trans h3, h.closed h4⟩
  evidence_slot := by
    intro e he
    obtain ⟨s, hs, hw⟩ := hc.evidence_slot e he
    obtain ⟨s', hs', h⟩ := hto s hs
    exact ⟨s', hs', h.wrote hw⟩
  review_shape := fun r hr => (hc.review_shape r hr).mono hto fun _ => id }

theorem slotMove {calm : Prop} {s s' : RoundSlot} (hn : (t.slots.map (·.slotId)).Nodup)
    (hs : s ∈ t.slots) (h : SlotMove calm s s') :
    S.Coherent { t with slots := Rows.set (·.slotId) s' t.slots } := by
  have hk : s.slotId = s'.slotId := h.continues.slotId.symm
  apply hc.withSlots
  · intro x hx
    exact Rows.exists_set_of_mem hn hs hk RoundSlot.Continues.refl h.continues hx
  · intro y hy
    exact Rows.exists_of_mem_set hs RoundSlot.Continues.refl h.continues hy

theorem retimeReviews {reviews : List ObstacleReview}
    (hto : ∀ r ∈ t.reviews, ∃ r' ∈ reviews, r.Retimed r')
    (hfrom : ∀ r' ∈ reviews, ∃ r ∈ t.reviews, r.Retimed r') :
    S.Coherent { t with reviews := reviews } := { hc with
  slot_phase := by
    intro s hs
    rcases hc.slot_phase s hs with hp | ⟨r, hr, hp⟩
    · exact .inl hp
    · obtain ⟨r', hr', h⟩ := hto r hr
      exact .inr ⟨r', hr', h.sameBinding.1.reviews hp⟩
  review_critic := by
    intro r' hr'
    obtain ⟨r, hr, a, b, rfl⟩ := hfrom r' hr'
    exact hc.review_critic r hr
  review_root := by
    intro r' hr'
    obtain ⟨r, hr, h⟩ := hfrom r' hr'
    obtain ⟨e, he, hre⟩ := hc.review_root r hr
    exact ⟨e, he, h.sameBinding.1.rootedAt hre⟩
  review_shape := by
    intro r' hr'
    obtain ⟨r, hr, h⟩ := hfrom r' hr'
    exact h.sameBinding.1.shaped (.inl h.sameBinding.2) (hc.review_shape r hr)
  review_live := by
    intro r' hr'
    obtain ⟨r, hr, a, b, rfl⟩ := hfrom r' hr'
    exact hc.review_live r hr
  review_closed := by
    intro r' hr'
    obtain ⟨r, hr, a, b, rfl⟩ := hfrom r' hr'
    exact hc.review_closed r hr
  pointer := by
    intro i hi
    obtain ⟨r, hr, hid, hl⟩ := hc.pointer i hi
    obtain ⟨_, hr', a, b, rfl⟩ := hto r hr
    exact ⟨_, hr', hid, hl⟩
  reasoning_pending := by
    intro hp r' hr'
    obtain ⟨r, hr, a, b, rfl⟩ := hfrom r' hr'
    exact hc.reasoning_pending hp r hr
  critic_review := by
    intro hp
    obtain ⟨r, hr, h⟩ := hc.critic_review hp
    obtain ⟨_, hr', a, b, rfl⟩ := hto r hr
    exact ⟨_, hr', h⟩
  owner_gate := by
    intro hp
    obtain ⟨x, hx, h1, h2, r, hr, h3, h4, h5⟩ := hc.owner_gate hp
    obtain ⟨_, hr', a, b, rfl⟩ := hto r hr
    exact ⟨x, hx, h1, h2, _, hr', h3, h4, h5.review, h5.root, h5.critic, h5.generation, h5.state⟩
  recommendation_review := by
    intro x hx
    obtain ⟨r, hr, h⟩ := hc.recommendation_review x hx
    obtain ⟨_, hr', a, b, rfl⟩ := hto r hr
    exact ⟨_, hr', h.review, h.root, h.critic, h.generation, h.state⟩ }

theorem phase_of_no_pointer (h : t.project.activeReviewId = none) :
    t.project.phase = .reasoning := by
  cases hp : t.project.phase with
  | reasoning => rfl
  | criticReview =>
    obtain ⟨r, _, hr, _⟩ := hc.critic_review hp
    simp [h] at hr
  | ownerActionRequired =>
    obtain ⟨_, _, _, _, r, _, hr, _⟩ := hc.owner_gate hp
    simp [h] at hr

/-- A live review is the one the project points at. -/
theorem live_unique (hn : (t.reviews.map (·.reviewId)).Nodup) {r r' : ObstacleReview}
    (hr : r ∈ t.reviews) (hr' : r' ∈ t.reviews) (hl : r.live = true) (hl' : r'.live = true) :
    r = r' := by
  apply Rows.eq_of_key hn hr hr'
  have h1 := (hc.review_live r hr hl).1
  have h2 := (hc.review_live r' hr' hl').1
  exact Option.some.inj (h1.symm.trans h2)

theorem withEvidence {e : EvidenceEntry} (hw : ∃ s ∈ t.slots, s.Wrote e) :
    S.Coherent { t with evidence := t.evidence ++ [e] } := { hc with
  evidence_slot := by
    intro x hx
    rcases List.mem_append.mp hx with hx | hx
    · exact hc.evidence_slot x hx
    · rw [List.mem_singleton.mp hx]
      exact hw
  review_root := by
    intro r hr
    obtain ⟨x, hx, h⟩ := hc.review_root r hr
    exact ⟨x, List.mem_append_left _ hx, h⟩
  review_shape := fun r hr => (hc.review_shape r hr).mono
    (fun s hs => ⟨s, hs, .refl s⟩) fun _ hx => List.mem_append_left _ hx }

/-- A reasoning slot joins the current generation. -/
theorem reserve {s : RoundSlot} (hs : S.SlotSound s) (hg : s.generation = t.project.generation)
    (ha : ∃ a ∈ t.tasks, s.Assigned a) (hp : s.InReasoning) :
    S.Coherent { t with slots := t.slots ++ [s] } := { hc with
  slot_sound := by simpa [or_imp, forall_and] using ⟨hc.slot_sound, hs⟩
  slot_task := by simpa [or_imp, forall_and] using ⟨hc.slot_task, ha⟩
  slot_generation := by simpa [or_imp, forall_and] using ⟨hc.slot_generation, hg.le⟩
  open_current := by simpa [or_imp, forall_and] using ⟨hc.open_current, fun _ => hg⟩
  slot_phase := by
    intro x hx
    rcases List.mem_append.mp hx with hx | hx
    · exact hc.slot_phase x hx
    · rw [List.mem_singleton.mp hx]
      exact .inl hp
  lanes_done := by
    intro h w l hw
    obtain ⟨x, hx, hd⟩ := hc.lanes_done h w l hw
    exact ⟨x, List.mem_append_left _ hx, hd⟩
  evidence_slot := by
    intro e he
    obtain ⟨x, hx, h⟩ := hc.evidence_slot e he
    exact ⟨x, List.mem_append_left _ hx, h⟩
  review_shape := fun r hr => (hc.review_shape r hr).mono
    (fun x hx => ⟨x, List.mem_append_left _ hx, .refl x⟩) fun _ => id }

/-- The critic slot of a pending review joins the critic review phase, and activates it. -/
theorem reserveCritic {s : RoundSlot} {r : ObstacleReview} {at' : Option SqlReal}
    (hn : (t.reviews.map (·.reviewId)).Nodup) (hph : t.project.phase = .criticReview)
    (hr : r ∈ t.reviews) (hst : r.state = .pending) (hs : S.SlotSound s)
    (hg : s.generation = t.project.generation) (ha : ∃ a ∈ t.tasks, s.Assigned a)
    (hp : ({ r with state := .active, criticSlotId := some s.slotId,
                    activatedAt := at' } : ObstacleReview).Reviews s) :
    S.Coherent { t with
      slots := t.slots ++ [s]
      reviews := Rows.set (·.reviewId) { r with
        state := .active, criticSlotId := some s.slotId, activatedAt := at' } t.reviews } := by
  have hl : r.live = true := by simp [ObstacleReview.live, hst]
  have hlive := hc.review_live r hr hl
  have hshape := hc.review_shape r hr
  simp only [ObstacleReview.Shaped, hst] at hshape
  set r' : ObstacleReview := { r with
    state := .active, criticSlotId := some s.slotId, activatedAt := at' } with hr'
  have hself : r' ∈ Rows.set (·.reviewId) r' t.reviews := Rows.mem_set_self hr rfl
  have keep : ∀ x ∈ t.reviews, x ≠ r → x ∈ Rows.set (·.reviewId) r' t.reviews := by
    intro x hx hne
    exact Rows.mem_set_of_ne hx fun he => hne (Rows.eq_of_key hn hx hr he)
  have split : ∀ x ∈ Rows.set (·.reviewId) r' t.reviews, x = r' ∨ x ∈ t.reviews := by
    intro x hx
    rcases Rows.mem_set_cases hx with h | h
    · exact .inl h
    · exact .inr h.1
  exact { hc with
    slot_sound := by simpa [or_imp, forall_and] using ⟨hc.slot_sound, hs⟩
    slot_task := by simpa [or_imp, forall_and] using ⟨hc.slot_task, ha⟩
    slot_generation := by simpa [or_imp, forall_and] using ⟨hc.slot_generation, hg.le⟩
    open_current := by simpa [or_imp, forall_and] using ⟨hc.open_current, fun _ => hg⟩
    slot_phase := by
      intro x hx
      rcases List.mem_append.mp hx with hx | hx
      · rcases hc.slot_phase x hx with h | ⟨y, hy, h⟩
        · exact .inl h
        · refine .inr ⟨y, keep y hy ?_, h⟩
          rintro rfl
          have := h.critic
          simp [hshape.1] at this
      · rw [List.mem_singleton.mp hx]
        exact .inr ⟨r', hself, hp⟩
    lanes_done := by
      intro h w l hw
      obtain ⟨x, hx, hd⟩ := hc.lanes_done h w l hw
      exact ⟨x, List.mem_append_left _ hx, hd⟩
    evidence_slot := by
      intro e he
      obtain ⟨x, hx, h⟩ := hc.evidence_slot e he
      exact ⟨x, List.mem_append_left _ hx, h⟩
    review_critic := by
      intro x hx
      rcases split x hx with rfl | hx
      · exact hc.review_critic r hr
      · exact hc.review_critic x hx
    review_root := by
      intro x hx
      rcases split x hx with rfl | hx
      · obtain ⟨e, he, h⟩ := hc.review_root r hr
        exact ⟨e, he, h.entry, h.slot, h.generation, h.lane⟩
      · exact hc.review_root x hx
    review_shape := by
      intro x hx
      rcases split x hx with rfl | hx
      · exact ⟨⟨s, List.mem_append_right _ (List.mem_singleton.mpr rfl), hp⟩, hshape.2⟩
      · exact (hc.review_shape x hx).mono
          (fun y hy => ⟨y, List.mem_append_left _ hy, .refl y⟩) fun _ => id
    review_live := by
      intro x hx hlx
      rcases split x hx with rfl | hx
      · exact hlive
      · exact hc.review_live x hx hlx
    review_closed := by
      intro x hx hlx
      rcases split x hx with rfl | hx
      · simp [hr', ObstacleReview.live] at hlx
      · exact hc.review_closed x hx hlx
    pointer := by
      intro i hi
      refine ⟨r', hself, ?_, rfl⟩
      exact Option.some.inj (hlive.1.symm.trans hi)
    reasoning_pending := by
      intro h
      simp [hph] at h
    critic_review := fun _ => ⟨r', hself, hlive.1, .inr rfl⟩
    owner_gate := by
      intro h
      simp [hph] at h
    recommendation_review := by
      intro a ha
      obtain ⟨y, hy, h⟩ := hc.recommendation_review a ha
      refine ⟨y, keep y hy ?_, h⟩
      rintro rfl
      rcases h.state with h | h <;> simp [hst] at h }

/-- A root entry of the current generation designates the project's one live review. -/
theorem designate {r : ObstacleReview} {updatedAt : SqlReal} (hst : r.state = .pending)
    (hs : r.criticSlotId = none) (hcf : r.confirmationEntryId = none)
    (hcr : S.roster.critic = some r.criticWorker) (he : ∃ e ∈ t.evidence, r.RootedAt e)
    (hg : r.generation = t.project.generation) (ha : t.project.activeReviewId = none) :
    S.Coherent { t with
      reviews := t.reviews ++ [r]
      project := { t.project with activeReviewId := some r.reviewId, updatedAt := updatedAt } } := by
  have hph := hc.phase_of_no_pointer ha
  have hl : r.live = true := by simp [ObstacleReview.live, hst]
  have hnone : ∀ x ∈ t.reviews, x.live = false := by
    intro x hx
    cases h : x.live with
    | false => rfl
    | true =>
      have := (hc.review_live x hx h).1
      simp [ha] at this
  have hself : r ∈ t.reviews ++ [r] := List.mem_append_right _ (List.mem_singleton.mpr rfl)
  have split : ∀ x ∈ t.reviews ++ [r], x ∈ t.reviews ∨ x = r := by simp
  exact { hc with
    slot_phase := by
      intro s hm
      rcases hc.slot_phase s hm with h | ⟨y, hy, h⟩
      · exact .inl h
      · exact .inr ⟨y, List.mem_append_left _ hy, h⟩
    review_critic := by
      intro x hx
      rcases split x hx with hx | rfl
      · exact hc.review_critic x hx
      · exact hcr
    review_root := by
      intro x hx
      rcases split x hx with hx | rfl
      · exact hc.review_root x hx
      · exact he
    review_shape := by
      intro x hx
      rcases split x hx with hx | rfl
      · exact hc.review_shape x hx
      · simp only [ObstacleReview.Shaped, hst]
        exact ⟨hs, hcf⟩
    review_live := by
      intro x hx hlx
      rcases split x hx with hx | rfl
      · simp [hnone x hx] at hlx
      · exact ⟨rfl, hg⟩
    review_closed := by
      intro x hx hlx
      rcases split x hx with hx | rfl
      · exact hc.review_closed x hx hlx
      · simp [hl] at hlx
    pointer := by
      rintro _ ⟨⟩
      exact ⟨r, hself, rfl, hl⟩
    reasoning_pending := by
      intro _ x hx hlx
      rcases split x hx with hx | rfl
      · simp [hnone x hx] at hlx
      · exact hst
    critic_review := by
      intro h
      simp [hph] at h
    owner_gate := by
      intro h
      simp [hph] at h
    recommendation_review := by
      intro a ha
      obtain ⟨y, hy, h⟩ := hc.recommendation_review a ha
      exact ⟨y, List.mem_append_left _ hy, h⟩ }

end CoordinationStore.Coherent
end Danus.Coordination
