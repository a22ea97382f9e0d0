import Danus.Coordination.Protocol

/-! The turns of the project row: into a critic review, into the owner gate, into the next
generation; and the steps a call takes. -/
namespace Danus.Coordination
open Python Transaction

namespace CoordinationStore.Coherent
variable {S : CoordinationStore} {t : Tables} (hc : S.Coherent t)
include hc

/-- The one worker of each lane has finished, so every lane has. -/
theorem lanesDone_of_completed (hp : t.project.phase = .reasoning)
    (h : ∀ lane ∈ requiredLanes S.roster, lane ∈ t.completedLanes) :
    S.LanesDone t.slots t.project.generation := by
  intro w l hw
  have hl : l ∈ t.completedLanes := h l (List.mem_map.mpr ⟨(w, l), hw, rfl⟩)
  simp only [Tables.completedLanes, List.mem_map, List.mem_filter, Bool.and_eq_true,
    beq_iff_eq] at hl
  obtain ⟨s, ⟨hs, ⟨hg, hph⟩, hst⟩, rfl⟩ := hl
  refine ⟨s, hs, ?_, hg, hph.trans hp, hst⟩
  exact S.roster.worker_of_lane (hc.slot_sound s hs).lane hw

/-- Where the lanes are done, an open slot of the generation is not a reasoning slot. -/
theorem open_not_reasoning (hv : t.Valid) (hd : S.LanesDone t.slots t.project.generation)
    {s : RoundSlot} (hs : s ∈ t.slots) (ho : s.open = true) : s.phase ≠ .reasoning := by
  intro hp
  have hg := hc.open_current s hs ho
  obtain ⟨x, hx, hw, hxg, hxp, hxt⟩ := hd s.worker s.lane (hc.slot_sound s hs).lane
  have he : s = x := by
    apply Rows.eq_of_key hv.slotRounds hs hx
    simp [RoundSlot.round, hw, hxg, hxp, hg, hp]
  subst he
  exact RoundSlot.open_ne_terminal ho hxt

/-- The reasoning phase of a pending review ends in its critic review. -/
theorem enterReview {r : ObstacleReview} {startedAt deadlineAt updatedAt : SqlReal}
    (hp : t.project.phase = .reasoning)
    (hd : ∀ lane ∈ requiredLanes S.roster, lane ∈ t.completedLanes) (hr : r ∈ t.reviews)
    (hst : r.state = .pending) (ha : t.project.activeReviewId = some r.reviewId) :
    S.Coherent { t with project := { t.project with
      phase := .criticReview, phaseStartedAt := startedAt, phaseDeadlineAt := deadlineAt
      updatedAt := updatedAt } } := { hc with
  task_horizon := by
    intro a ham
    rcases hc.task_horizon a ham with h | ⟨_, h⟩
    · exact .inl h
    · simp [hp] at h
  lanes_done := fun _ => hc.lanesDone_of_completed hp hd
  reasoning_pending := by
    intro h
    cases h
  critic_review := fun _ => ⟨r, hr, ha, .inl hst⟩
  owner_gate := by
    intro h
    cases h
  no_recommendation := fun _ => hc.no_recommendation (by simp [hp]) }

/-- The confirmed review opens its recommendation and the owner gate. -/
theorem confirm {r : ObstacleReview} {s : RoundSlot} {e : EvidenceEntry}
    {a : AdvisorRecommendation} {updatedAt : SqlReal}
    (hn : (t.reviews.map (·.reviewId)).Nodup) (hr : r ∈ t.reviews) (hst : r.state = .active)
    (hs : s ∈ t.slots) (hrs : r.Reviews s) (he : e ∈ t.evidence)
    (hce : ({ r with state := .confirmed,
                     confirmationEntryId := some e.entryId } : ObstacleReview).ConfirmedBy s e)
    (hb : ({ r with state := .confirmed,
                    confirmationEntryId := some e.entryId } : ObstacleReview).Backs a) :
    S.Coherent { t with
      reviews := Rows.set (·.reviewId) { r with
        state := .confirmed, confirmationEntryId := some e.entryId } t.reviews
      recommendations := t.recommendations ++ [a]
      project := { t.project with
        phase := .ownerActionRequired, recommendationId := some a.recommendationId
        updatedAt := updatedAt } } := by
  have hl : r.live = true := by simp [ObstacleReview.live, hst]
  have hlive := hc.review_live r hr hl
  set r' : ObstacleReview := { r with
    state := .confirmed, confirmationEntryId := some e.entryId } with hr'
  have hself : r' ∈ Rows.set (·.reviewId) r' t.reviews := Rows.mem_set_self hr rfl
  have keep : ∀ x ∈ t.reviews, x ≠ r → x ∈ Rows.set (·.reviewId) r' t.reviews := by
    intro x hx hne
    exact Rows.mem_set_of_ne hx fun he => hne (Rows.eq_of_key hn hx hr he)
  have split : ∀ x ∈ Rows.set (·.reviewId) r' t.reviews, x = r' ∨ x ∈ t.reviews := by
    intro x hx
    rcases Rows.mem_set_cases hx with h | h
    · exact .inl h
    · exact .inr h.1
  have hrs' : r'.Reviews s :=
    ⟨hrs.phase, hrs.lane, hrs.critic, hrs.review, hrs.designated, hrs.generation⟩
  have hph : t.project.phase ≠ .reasoning := by
    intro h
    have := hc.reasoning_pending h r hr hl
    simp [hst] at this
  exact { hc with
    task_horizon := by
      intro x hx
      rcases hc.task_horizon x hx with h | ⟨h, _⟩
      · exact .inl h
      · exact .inr ⟨h, rfl⟩
    slot_phase := by
      intro x hx
      rcases hc.slot_phase x hx with h | ⟨y, hy, h⟩
      · exact .inl h
      · by_cases hyr : y = r
        · subst hyr
          exact .inr ⟨r', hself, h.phase, h.lane, h.critic, h.review, h.designated, h.generation⟩
        · exact .inr ⟨y, keep y hy hyr, h⟩
    lanes_done := fun _ => hc.lanes_done hph
    review_critic := by
      intro x hx
      rcases split x hx with rfl | hx
      · exact hc.review_critic r hr
      · exact hc.review_critic x hx
    review_root := by
      intro x hx
      rcases split x hx with rfl | hx
      · obtain ⟨e, he, h⟩ := hc.review_root r hr
        exact ⟨e, he, h.entry, h.slot, h.generation, h.lane⟩
      · exact hc.review_root x hx
    review_shape := by
      intro x hx
      rcases split x hx with rfl | hx
      · exact ⟨s, hs, hrs', e, he, hce⟩
      · exact hc.review_shape x hx
    review_live := by
      intro x hx hlx
      rcases split x hx with rfl | hx
      · exact hlive
      · exact hc.review_live x hx hlx
    review_closed := by
      intro x hx hlx
      rcases split x hx with rfl | hx
      · simp [hr', ObstacleReview.live] at hlx
      · exact hc.review_closed x hx hlx
    pointer := by
      intro i hi
      refine ⟨r', hself, ?_, rfl⟩
      exact Option.some.inj (hlive.1.symm.trans hi)
    reasoning_pending := by
      intro h
      cases h
    critic_review := by
      intro h
      cases h
    owner_gate := fun _ => ⟨a, List.mem_append_right _ (List.mem_singleton.mpr rfl), rfl,
      hb.generation.trans hlive.2, r', hself, hlive.1, rfl, hb⟩
    no_recommendation := by
      intro h
      exact (h rfl).elim
    recommendation_review := by
      intro x hx
      rcases List.mem_append.mp hx with hx | hx
      · obtain ⟨y, hy, h⟩ := hc.recommendation_review x hx
        refine ⟨y, keep y hy ?_, h⟩
        rintro rfl
        rcases h.state with h | h <;> simp [hst] at h
      · rw [List.mem_singleton.mp hx]
        exact ⟨r', hself, hb⟩ }

/-- The next generation starts with its tasks in place, every slot terminal, and every review
closed. -/
theorem nextGeneration {tasks : List GenerationTask} {reviews : List ObstacleReview}
    {resolutions : List RecommendationResolution} {startedAt deadlineAt updatedAt : SqlReal}
    (hopen : ∀ s ∈ t.slots, s.open = false)
    (hb : ∀ a ∈ tasks, S.TaskBound a ∧ a.generation ≤ t.project.generation + 1)
    (hf : ∀ a ∈ t.tasks, a.frozenAt ≠ none → ∃ a' ∈ tasks, a.Continues a')
    (hto : ∀ r ∈ t.reviews, ∃ r' ∈ reviews, r.SameBinding r' ∧
      (r'.state = r.state ∨ (r.state = .confirmed ∧ r'.state = .resolved) ∨ r.state = .active))
    (hfrom : ∀ r' ∈ reviews, r'.live = false ∧ ∃ r ∈ t.reviews, r.SameBinding r' ∧
      (r'.state = r.state ∨ (r.state = .active ∧ r'.state = .notConfirmed) ∨
        (r.state = .confirmed ∧ r'.state = .resolved))) :
    S.Coherent { t with
      tasks := tasks, reviews := reviews, resolutions := resolutions
      project := { t.project with
        generation := t.project.generation + 1, phase := .reasoning, phaseStartedAt := startedAt
        phaseDeadlineAt := deadlineAt, recommendationId := none, activeReviewId := none
        updatedAt := updatedAt } } := { hc with
  task_bound := fun a ha => (hb a ha).1
  task_horizon := fun a ha => .inl (hb a ha).2
  slot_task := by
    intro s hs
    obtain ⟨a, ha, h⟩ := hc.slot_task s hs
    obtain ⟨a', ha', h'⟩ := hf a ha h.frozen
    refine ⟨a', ha', h'.key.trans h.key, h'.lane.trans h.lane, ?_, ?_, ?_, h'.frozen⟩
    · rw [h'.task]; exact h.task
    · rw [h'.taskSha256]; exact h.taskSha256
    · rw [h'.taskBytes]; exact h.taskBytes
  slot_generation := fun s hs => Nat.le_succ_of_le (hc.slot_generation s hs)
  open_current := by
    intro s hs ho
    simp [hopen s hs] at ho
  slot_phase := by
    intro s hs
    rcases hc.slot_phase s hs with h | ⟨r, hr, h⟩
    · exact .inl h
    · obtain ⟨r', hr', hb, _⟩ := hto r hr
      exact .inr ⟨r', hr', hb.reviews h⟩
  lanes_done := fun h => (h rfl).elim
  review_critic := by
    intro r' hr'
    obtain ⟨_, r, hr, hb, _⟩ := hfrom r' hr'
    exact hb.worker ▸ hc.review_critic r hr
  review_root := by
    intro r' hr'
    obtain ⟨_, r, hr, hb, _⟩ := hfrom r' hr'
    obtain ⟨e, he, h⟩ := hc.review_root r hr
    exact ⟨e, he, hb.rootedAt h⟩
  review_shape := by
    intro r' hr'
    obtain ⟨_, r, hr, hb, hst⟩ := hfrom r' hr'
    exact hb.shaped hst (hc.review_shape r hr)
  review_live := by
    intro r' hr' hl
    simp [(hfrom r' hr').1] at hl
  review_closed := by
    intro r' hr' _
    obtain ⟨_, r, hr, hb, _⟩ := hfrom r' hr'
    have hle : r.generation ≤ t.project.generation := by
      cases hl : r.live with
      | true => exact (hc.review_live r hr hl).2.le
      | false => exact (hc.review_closed r hr hl).le
    exact Nat.lt_succ_of_le (hb.generation ▸ hle)
  pointer := by
    rintro _ ⟨⟩
  reasoning_pending := by
    intro _ r' hr' hl
    simp [(hfrom r' hr').1] at hl
  critic_review := by
    intro h
    cases h
  owner_gate := by
    intro h
    cases h
  no_recommendation := fun _ => rfl
  recommendation_review := by
    intro a ha
    obtain ⟨r, hr, h⟩ := hc.recommendation_review a ha
    obtain ⟨r', hr', hb, hst⟩ := hto r hr
    refine ⟨r', hr', ?_, h.root.trans hb.root.symm, hb.confirmation.trans h.critic,
      h.generation.trans hb.generation.symm, ?_⟩
    · rw [hb.reviewId]
      exact h.review
    · rcases hst with hst | ⟨_, hst⟩ | hst
      · rw [hst]
        exact h.state
      · exact .inr hst
      · rcases h.state with h | h <;> simp [hst] at h }

end CoordinationStore.Coherent
end Danus.Coordination
