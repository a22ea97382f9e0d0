import Danus.Coordination.Phases

/-! A recommendation stays open until the owner resolves it, and is never open again after that. -/
namespace Danus.Coordination
open Python Transaction Machines

variable {S : CoordinationStore} {call : StoreCall} {calm : Prop} {t t' : Tables} {db db' : Database}
  {i : PyStr}

/-- The recommendation that the project waits for its owner with. -/
structure Tables.Open (t : Tables) (i : PyStr) : Prop where
  phase : t.project.phase = .ownerActionRequired
  current : t.project.recommendationId = some i

/-- The call resolves a recommendation. -/
def StoreCall.resolves : StoreCall → Bool
  | .resolveRecommendation .. => true
  | _ => false

/-- What is resolved is recorded as a recommendation, and is not the current one. -/
def Tables.Closed (t : Tables) : Prop :=
  ∀ r ∈ t.resolutions, t.project.recommendationId ≠ some r.recommendationId ∧
    ∃ a ∈ t.recommendations, a.recommendationId = r.recommendationId

/-- A change within the phase leaves recommendations and resolutions as they are. -/
theorem Change.recommendations (h : Change S call calm t t') :
    t'.recommendations = t.recommendations ∧ t'.resolutions = t.resolutions ∧
      t'.project.recommendationId = t.project.recommendationId := by
  cases h <;> exact ⟨rfl, rfl, rfl⟩

theorem Changes.recommendations (h : Changes S call calm db db') :
    db'.1.recommendations = db.1.recommendations ∧ db'.1.resolutions = db.1.resolutions ∧
      db'.1.project.recommendationId = db.1.project.recommendationId := by
  induction h with
  | refl => exact ⟨rfl, rfl, rfl⟩
  | tail _ hstep ih =>
    obtain ⟨ha, hr, hp⟩ := hstep.recommendations
    exact ⟨ha.trans ih.1, hr.trans ih.2.1, hp.trans ih.2.2⟩

/-- An open recommendation stays open, but for the owner's resolution. -/
theorem Turn.open (hc : S.Coherent t) (hv : t.Valid) (hcall : call.resolves = false)
    (h : Turn S call calm t t') (ho : t.Open i) : t'.Open i := by
  cases h with
  | enterReview hp => exact absurd (ho.phase.symm.trans hp) (by decide)
  | confirm hr hst =>
    -- no review is active while the project waits for its owner
    have hpoints := hc.points hv hr (by simp [ObstacleReview.live, hst])
    rcases hpoints.phase with ⟨_, hs⟩ | ⟨hp, _⟩ | ⟨_, hs⟩
    · rw [hst] at hs
      cases hs
    · exact absurd (ho.phase.symm.trans hp) (by decide)
    · rw [hst] at hs
      cases hs
  | advance hp => exact (hp ho.phase).elim
  | resolve hcall' =>
    rw [hcall'] at hcall
    cases hcall

theorem CallStep.open (hc : S.Coherent db.1) (hcall : call.resolves = false)
    (h : CallStep S call calm db db') (ho : db.1.Open i) : db'.1.Open i := by
  obtain ⟨u, hu, hl⟩ := h
  have hou : u.1.Open i := ⟨(Changes.frame hu).2.trans ho.phase, hu.recommendations.2.2.trans ho.current⟩
  rcases hl with rfl | ht
  · exact hou
  · exact ht.open (hu.coherent hc) u.2 hcall hou

/-- Only the owner's resolution records one. -/
theorem Turn.resolutions (hcall : call.resolves = false) (h : Turn S call calm t t') :
    t'.resolutions = t.resolutions := by
  cases h with
  | resolve hcall' =>
    rw [hcall'] at hcall
    cases hcall
  | _ => rfl

theorem CallStep.resolutions (hcall : call.resolves = false) (h : CallStep S call calm db db') :
    db'.1.resolutions = db.1.resolutions := by
  obtain ⟨u, hu, rfl | ht⟩ := h
  · exact hu.recommendations.2.1
  · exact (ht.resolutions hcall).trans hu.recommendations.2.1

/-- What is closed stays closed: a new recommendation has an id of its own. -/
theorem Turn.closed (hcall : call.resolves = false) (hv' : t'.Valid) (h : Turn S call calm t t')
    (hcl : t.Closed) : t'.Closed := by
  intro r hr
  rw [h.resolutions hcall] at hr
  obtain ⟨hne, a, ha, hid⟩ := hcl r hr
  cases h with
  | enterReview => exact ⟨hne, a, ha, hid⟩
  | @confirm _ _ _ new =>
    refine ⟨fun heq => ?_, a, List.mem_append_left _ ha, hid⟩
    have hnew := hv'.recommendationIds
    rw [List.map_append, List.nodup_append] at hnew
    refine hnew.2.2 a.recommendationId (List.mem_map_of_mem ha) new.recommendationId (by simp) ?_
    exact hid.trans (Option.some.inj heq).symm
  | advance => exact ⟨by simp, a, ha, hid⟩
  | resolve hcall' =>
    rw [hcall'] at hcall
    cases hcall

theorem CallStep.closed (hcall : call.resolves = false) (h : CallStep S call calm db db')
    (hcl : db.1.Closed) : db'.1.Closed := by
  obtain ⟨u, hu, hl⟩ := h
  obtain ⟨hua, hur, hup⟩ := hu.recommendations
  have hclu : u.1.Closed := by
    intro r hr
    rw [hur] at hr
    rw [hua, hup]
    exact hcl r hr
  rcases hl with rfl | ht
  · exact hclu
  · exact ht.closed hcall db'.2 hclu

/-- The resolution that a request asks for. -/
structure RecommendationResolution.Asked (r : RecommendationResolution) (q : ResolutionRequest) : Prop where
  recommendation : r.recommendationId = q.recommendationId
  resolution : resolution? q.resolution = some r.resolution
  request : r.browserRequestId = q.browserRequestId

/-- The current recommendation is resolved as it was asked for, and then there is none. -/
structure Tables.Resolves (q : ResolutionRequest) (t t' : Tables) : Prop where
  opened : t.Open q.recommendationId
  current : t'.project.recommendationId = none
  recommendations : t'.recommendations = t.recommendations
  kept : ∀ r ∈ t.resolutions, r ∈ t'.resolutions
  resolutions : ∀ r ∈ t'.resolutions, r ∈ t.resolutions ∨ r.Asked q

theorem recommendationResolutionId_resolution {q : ResolutionRequest} {p : Resolution × PyStr}
    (h : recommendationResolutionId q = .ok p) : resolution? q.resolution = some p.1 := by
  simp only [recommendationResolutionId, except_bind_ok, require_ok, except_pure_ok] at h
  obtain ⟨_, _, r, hr, _, _, _, _, _, _, _, _, _, _, _, _, rfl⟩ := h
  cases hq : resolution? q.resolution with
  | none =>
    rw [hq] at hr
    cases hr
  | some r' =>
    rw [hq] at hr
    cases hr
    rfl

theorem resolve_resolves (hc : S.Coherent db.1) {q : ResolutionRequest} {now : Stamp} :
    Tx.wp (S.resolveRecommendation q now) (fun _ db' => db' = db ∨ Tables.Resolves q db.1 db'.1)
      (fun _ => True) db := by
  simp only [CoordinationStore.resolveRecommendation, Tx.wp_bind, Tx.wp_check, wp_look]
  refine ⟨fun p hp => ?_, fun _ _ => trivial⟩
  have hres := recommendationResolutionId_resolution hp
  cases hprior : db.1.resolution? q.recommendationId with
  | some prior =>
    simp only [Tx.wp_bind, Tx.wp_ensure, Tx.wp_pure]
    exact ⟨fun _ => .inl trivial, fun _ => trivial⟩
  | none =>
    simp only [Tx.wp_bind, Tx.wp_fetched, Tx.wp_ensure]
    refine ⟨fun a ha => ⟨fun hcur => ⟨fun hslots => ⟨fun hfree => ?_, fun _ => trivial⟩,
      fun _ => trivial⟩, fun _ => trivial⟩, fun _ => trivial⟩
    obtain ⟨r, hr, hb, hst, hra, hg⟩ := hc.current_recommendation db.2 hcur.2.1 hcur.2.2 ha
    simp only [checkResolvedReview, Tx.wp_bind, wp_look, hb.review, Tx.wp_ensure]
    refine ⟨fun _ => ?_, fun _ => trivial⟩
    rw [hg] at hslots ⊢
    refine wp_freezeRequired hc.tasksBound (fun _ _ => trivial)
      fun p' tasks htasks hbt htimely hlanes h => ?_
    simp only [wp_notNull, wp_put, resolveReview, hb.review, Tx.wp_bind, Tx.wp_ensure, updateReviews,
      wp_updateRows, CoordinationStore.releaseOwnerGate, updateProject, wp_look]
    refine ⟨fun at' hat => ⟨fun h1 => ⟨fun h2 => ⟨fun _ => ⟨fun _ => ⟨fun at₂ hat₂ => ⟨fun h3 =>
      ⟨fun x _ => ?_, fun _ => trivial⟩, fun _ => trivial⟩, fun _ => trivial⟩, fun _ => trivial⟩,
        fun _ => trivial⟩, fun _ => trivial⟩, fun _ => trivial⟩, fun _ => trivial⟩
    refine .inr ⟨⟨hcur.2.1, hcur.2.2⟩, rfl, rfl, fun r' hr' => List.mem_append_left _ hr', fun r' hr' => ?_⟩
    rcases List.mem_append.mp hr' with hr' | hr'
    · exact .inl hr'
    · rw [List.mem_singleton.mp hr']
      exact .inr ⟨rfl, hres, rfl⟩

/-- What the owner's resolution does: nothing, or it resolves the current recommendation. -/
theorem perform_resolve (hc : S.Coherent db.1) (q : ResolutionRequest) (now : Stamp) :
    (S.perform (.resolveRecommendation q now) db).2 = db ∨
      Tables.Resolves q db.1 (S.perform (.resolveRecommendation q now) db).2.1 := by
  have hrun : (S.perform (.resolveRecommendation q now) db).2 =
      ((S.resolveRecommendation q now).run db).2 := rfl
  have hw : Tx.wp (S.resolveRecommendation q now)
      (fun _ db' => db' = db ∨ Tables.Resolves q db.1 db'.1) (fun _ => True) db := resolve_resolves hc
  rw [hrun]
  rcases Tx.wp_run hw with ⟨r, db', hr, hq⟩ | ⟨e, hr, _⟩
  · rw [hr]
    exact hq
  · rw [hr]
    exact .inl rfl

/-- The owner's resolution closes what it resolves. -/
theorem Tables.Resolves.closed {q : ResolutionRequest} (hc : S.Coherent t) (hcl : t.Closed)
    (h : Tables.Resolves q t t') : t'.Closed := by
  intro r hr
  refine ⟨by simp [h.current], ?_⟩
  rw [h.recommendations]
  rcases h.resolutions r hr with hr | hr
  · exact (hcl r hr).2
  · obtain ⟨a, ha, hi, _⟩ := hc.owner_gate h.opened.phase
    exact ⟨a, ha, (Option.some.inj (hi.symm.trans h.opened.current)).trans hr.recommendation.symm⟩

/-- What `validate_open_recommendation` accepts is open. -/
theorem open_of_projection {a : AdvisorRecommendation} (h : openRecommendationProjection t i = .ok a) :
    t.Open i := by
  unfold openRecommendationProjection at h
  cases ha : t.recommendation? i with
  | none =>
    rw [ha] at h
    cases h
  | some b =>
    rw [ha] at h
    simp only [except_bind_ok, require_ok] at h
    obtain ⟨_, _, _, hcur, _⟩ := h
    exact ⟨hcur.2.1, hcur.2.2⟩

theorem open_of_validate {r : StoreReply}
    (h : (S.perform (.validateOpenRecommendation i) db).1 = .ok r) : db.1.Open i := by
  have hw : Tx.wp (validateOpenRecommendation i) (fun _ _ => db.1.Open i) (fun _ => True) db := by
    simp only [validateOpenRecommendation, Tx.wp_bind, wp_look, Tx.wp_check, validateIdentifier,
      Tx.wp_ensure]
    exact ⟨fun _ => ⟨fun a ha => open_of_projection ha, fun _ _ => trivial⟩, fun _ => trivial⟩
  have hrun : (S.perform (.validateOpenRecommendation i) db).1 =
      ((validateOpenRecommendation i).run db).1.map StoreReply.recommendation := rfl
  rw [hrun] at h
  rcases Tx.wp_run hw with ⟨a, db', hr, ho⟩ | ⟨e, hr, _⟩
  · exact ho
  · rw [hr] at h
    cases h

end Danus.Coordination
