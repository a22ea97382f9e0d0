import Danus.Coordination.EvidenceRules

/-! What the owner's resolution does to a coherent database. -/
namespace Danus.Coordination
open Python Transaction

variable {S : CoordinationStore} {call : StoreCall} {calm : Prop} {t : Tables} {db : Database}

namespace CoordinationStore.Coherent
variable (hc : S.Coherent t) (hv : t.Valid)
include hc hv

/-- The current recommendation and the confirmed review behind it. -/
theorem current_recommendation {i : PyStr} {a : AdvisorRecommendation}
    (hp : t.project.phase = .ownerActionRequired) (hi : t.project.recommendationId = some i)
    (ha : t.recommendation? i = some a) :
    ∃ r ∈ t.reviews, r.Backs a ∧ r.state = .confirmed ∧
      t.project.activeReviewId = some r.reviewId ∧ a.generation = t.project.generation := by
  obtain ⟨x, hx, hxi, hxg, r, hr, hra, hst, hb⟩ := hc.owner_gate hp
  obtain ⟨ham, hai⟩ := hv.recommendation?_eq.mp ha
  obtain rfl : x = a := Rows.eq_of_key hv.recommendationIds hx ham
    (Option.some.inj (hxi.symm.trans (hi.trans (congrArg some hai.symm))))
  exact ⟨r, hr, hb, hst, hra, hxg⟩

omit hc in
theorem boundReview {a : AdvisorRecommendation} {r : ObstacleReview} (hr : r ∈ t.reviews)
    (hb : r.Backs a) (hst : r.state = .confirmed)
    (ha : t.project.activeReviewId = some r.reviewId) : t.boundReview a r.reviewId = true := by
  have hf : t.review? r.reviewId = some r := hv.review?_eq.mpr ⟨hr, rfl⟩
  simp [Tables.boundReview, hf, hst, hb.critic, hb.root, hb.generation, ha]

end CoordinationStore.Coherent

theorem recommendationResolutionId_refusal (q : ResolutionRequest) :
    RefusalOnly (recommendationResolutionId q) := by
  refine .bind .require fun _ => .bind .requireSome fun r => .bind .require fun _ =>
    .bind .require fun _ => .bind .require fun _ => .bind .require fun _ => .bind .require fun _ =>
      .bind ?_ fun _ => .pure
  cases r with
  | adoptedMasterGuidance => exact .require
  | continueWithoutAdvisor => exact .require

theorem recommendationResolutionId_ok {q : ResolutionRequest} {p : Resolution × PyStr}
    (h : recommendationResolutionId q = .ok p) : q.ownerAcknowledgement = q.recommendationId := by
  simp only [recommendationResolutionId, except_bind_ok, require_ok] at h
  obtain ⟨_, _, _, _, _, hack, _⟩ := h
  exact hack

/-- The owner's resolution closes the review, freezes the staged tasks, and starts the next
generation. -/
theorem resolve_rule (hc : S.Coherent db.1) {q : ResolutionRequest} {now : Stamp} :
    Tx.wp (S.resolveRecommendation q now)
      (fun _ db' => CallStep S (.resolveRecommendation q now) calm db db') (Benign False db.1)
      db := by
  simp only [CoordinationStore.resolveRecommendation, Tx.wp_bind, Tx.wp_check, wp_look]
  refine ⟨fun p hp => ?_, fun e he => (recommendationResolutionId_refusal q).benign he⟩
  have hack := recommendationResolutionId_ok hp
  cases hres : db.1.resolution? q.recommendationId with
  | some prior =>
    simp only [Tx.wp_bind, Tx.wp_ensure, Tx.wp_pure]
    exact ⟨fun _ => Changes.callStep .refl, fun _ => by simp⟩
  | none =>
    simp only [Tx.wp_bind, Tx.wp_fetched, Tx.wp_ensure]
    refine ⟨fun a ha => ⟨fun hcur => ⟨fun hslots => ⟨fun hfree => ?_, by simp⟩, by simp⟩, by simp⟩,
      by simp⟩
    obtain ⟨r, hr, hb, hst, hra, hg⟩ := hc.current_recommendation db.2 hcur.2.1 hcur.2.2 ha
    have hbound := CoordinationStore.Coherent.boundReview db.2 hr hb hst hra
    simp only [checkResolvedReview, Tx.wp_bind, wp_look, hb.review, Tx.wp_ensure]
    refine ⟨fun _ => ?_, fun hne => (hne hbound).elim⟩
    rw [hg] at hslots ⊢
    refine wp_freezeRequired hc.tasksBound (fun _ h => h)
      fun p' tasks htasks hbt htimely hlanes h => ?_
    have hl : r.live = true := by simp [ObstacleReview.live, hst]
    simp only [wp_notNull, wp_put, resolveReview, hb.review, Tx.wp_bind, Tx.wp_ensure]
    refine ⟨fun at' hat => ⟨fun h1 => ?_, by simp⟩, by simp⟩
    refine wp_updateRow (·.reviewId) h1.reviewIds hr (by simp [hst, hb.critic]) guarded_key rfl
      (by simp) fun h2 => ⟨fun _ => ?_, fun h => (h rfl).elim⟩
    simp only [CoordinationStore.releaseOwnerGate, updateProject, Tx.wp_bind, wp_look,
      Tx.wp_ensure, wp_notNull, wp_put, hg]
    refine ⟨fun _ => ⟨fun at₂ hat₂ => ⟨fun h3 => ⟨fun x _ => ?_, fun hnone => ?_⟩, by simp⟩,
      by simp⟩, fun hne => ?_⟩
    · obtain rfl : at' = at₂ := Option.some.inj (hat.symm.trans hat₂)
      refine ⟨db, .refl, .inr ?_⟩
      refine .resolve rfl hcur.2.1 hcur.2.2 hack hfree ?_ ⟨fun b hbm => ?_, fun b hbm hf => ?_⟩ ?_
        (hc.closedReviews_set db.2 hr hl { r with state := .resolved }
          ⟨rfl, rfl, rfl, rfl, rfl, rfl, rfl⟩ (.inr ⟨hst, rfl⟩)) fun b hbm => ?_
      · intro s hs
        cases ho : s.open with
        | false => rfl
        | true =>
          have := hslots s hs (hc.open_current s hs ho)
          exact (RoundSlot.open_ne_terminal ho this).elim
      · refine ⟨hbt b hbm, ?_⟩
        rw [htasks] at hbm
        rcases Rows.mem_update_cases hbm with ⟨hbm, _⟩ | ⟨x, hx, _, rfl⟩
        · exact (hc.task_horizon b hbm).elim Nat.le_succ_of_le fun h => h.1.le
        · exact (hc.task_horizon x hx).elim Nat.le_succ_of_le fun h => h.1.le
      · refine ⟨b, ?_, .refl hf⟩
        rw [htasks]
        exact Rows.mem_update_of_miss hbm (by simp [Option.isSome_iff_ne_none, hf])
      · intro w l hw
        obtain ⟨b, hbm, h1, h2, h3⟩ := hlanes (w, l) hw
        refine ⟨b, hbm, h1, h2, h3, ?_⟩
        rw [htasks] at hbm
        rcases Rows.mem_update_cases hbm with ⟨_, hm⟩ | ⟨x, _, _, rfl⟩
        · simpa [h3, Option.isSome_iff_ne_none] using hm
        · simp [hat]
      · by_cases hbg : b.generation = db.1.project.generation + 1
        · exact .inr (htimely b hbm hbg)
        · rw [htasks] at hbm
          rcases Rows.mem_update_cases hbm with ⟨hbm, _⟩ | ⟨x, _, hx, rfl⟩
          · exact .inl hbm
          · simp only [Bool.and_eq_true, decide_eq_true_eq] at hx
            exact (hbg hx.1).elim
    · rw [Rows.find_none] at hnone
      have := hnone _ (List.mem_append_right _ (List.mem_singleton.mpr rfl))
      simp at this
    · have hid := (db.2.recommendation?_eq.mp ha).2
      exact (hne ⟨trivial, hcur.2.1, hid ▸ hcur.2.2, hra.trans hb.review.symm⟩).elim

theorem openRecommendationProjection_benign (hc : S.Coherent t) (hv : t.Valid) {i : PyStr}
    {e : StoreError} (h : openRecommendationProjection t i = .error e) : Benign calm t e := by
  unfold openRecommendationProjection at h
  cases ha : t.recommendation? i with
  | none =>
    rw [ha] at h
    cases h
    simp
  | some a =>
    simp only [ha] at h
    rcases except_bind_error.mp h with h | ⟨_, _, h⟩
    · exact RefusalOnly.require.benign h
    rcases except_bind_error.mp h with h | ⟨_, hcur, h⟩
    · exact RefusalOnly.require.benign h
    obtain ⟨hg, hp, hi⟩ := require_ok.mp hcur
    obtain ⟨r, hr, hb, hst, hra, _⟩ := hc.current_recommendation hv hp hi ha
    have hbound := CoordinationStore.Coherent.boundReview hv hr hb hst hra
    rw [hb.review] at h
    rcases except_bind_error.mp h with h | ⟨_, ⟨⟩, h⟩
    · cases h
    rcases except_bind_error.mp h with h | ⟨_, _, h⟩
    · exact ((require_error.mp h).1 hra).elim
    rcases except_bind_error.mp h with h | ⟨_, _, h⟩
    · exact ((require_error.mp h).1 hbound).elim
    rcases except_bind_error.mp h with h | ⟨_, _, h⟩
    · exact RefusalOnly.require.benign h
    rcases except_bind_error.mp h with h | ⟨_, _, h⟩
    · exact RefusalOnly.require.benign h
    · cases h

/-- Reading the open recommendation changes nothing. -/
theorem validateOpenRecommendation_rule (hc : S.Coherent db.1) {i : PyStr} :
    Tx.wp (validateOpenRecommendation i) (fun _ db' => db' = db) (Benign calm db.1) db := by
  simp only [validateOpenRecommendation, Tx.wp_bind, wp_look, Tx.wp_check]
  exact wp_validateIdentifier (by simp) fun _ => ⟨fun _ _ => rfl,
    fun _ he => openRecommendationProjection_benign hc db.2 he⟩

end Danus.Coordination
