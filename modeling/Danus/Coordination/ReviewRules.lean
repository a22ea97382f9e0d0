import Danus.Coordination.TaskRules

/-! What the shared steps of the calls do to a coherent database: worker states, the active review,
and the advance of a generation. -/
namespace Danus.Coordination
open Python Transaction

variable {S : CoordinationStore} {call : StoreCall} {calm : Prop} {t : Tables} {db : Database}
  {E : StoreError → Prop}

/-- The pointer names a live review wherever it is set. -/
theorem wp_activeReview (hc : S.Coherent db.1) {Q : Option ObstacleReview → Database → Prop}
    (hn : db.1.project.activeReviewId = none → Q none db)
    (hs : ∀ r ∈ db.1.reviews, db.1.project.activeReviewId = some r.reviewId → r.live = true →
      Q (some r) db) : Tx.wp activeReview Q E db := by
  unfold activeReview
  rw [Tx.wp_bind, wp_look]
  cases hp : db.1.project.activeReviewId with
  | none => exact hn hp
  | some i =>
    obtain ⟨r, hr, hid, hl⟩ := hc.pointer i hp
    have hf : db.1.review? i = some r := db.2.review?_eq.mpr ⟨hr, hid⟩
    simp only [hf, Option.filter_some, hl, if_true, Tx.wp_bind, Tx.wp_fetched]
    refine ⟨?_, fun h => by cases h⟩
    rintro _ ⟨⟩
    exact hs r hr (by rw [hp, hid]) hl

/-- The state is one in which the next attempt starts a new generation. -/
structure CoordinationStore.EndsGeneration (S : CoordinationStore) (t : Tables) : Prop where
  phase : t.project.phase ≠ .ownerActionRequired
  free : t.overlaid = false
  lanes : ∀ lane ∈ S.phaseLanes t.project.phase, lane ∈ t.completedLanes
  unreviewed : t.project.phase = .reasoning → t.project.activeReviewId = none

namespace CoordinationStore.Coherent
variable (hc : S.Coherent t) (hv : t.Valid)
include hc

theorem live_of_generation {r : ObstacleReview} (hr : r ∈ t.reviews)
    (hg : r.generation = t.project.generation) : r.live = true := by
  cases hl : r.live with
  | true => rfl
  | false =>
    have := hc.review_closed r hr hl
    omega

/-- The review of a slot of the current generation is the live one, and has left its pending
state. -/
theorem review_of_current {r : ObstacleReview} {s : RoundSlot} (hr : r ∈ t.reviews)
    (hs : r.Reviews s) (hg : s.generation = t.project.generation) :
    r.live = true ∧ (r.state = .active ∨ r.state = .confirmed) := by
  have hl := hc.live_of_generation hr (hs.generation.symm.trans hg)
  refine ⟨hl, ?_⟩
  have hsh := hc.review_shape r hr
  cases hst : r.state with
  | pending =>
    simp only [ObstacleReview.Shaped, hst] at hsh
    simp [hs.critic] at hsh
  | active => exact .inl rfl
  | confirmed => exact .inr rfl
  | notConfirmed => simp [ObstacleReview.live, hst] at hl
  | resolved => simp [ObstacleReview.live, hst] at hl

include hv

/-- A lane that has finished the reasoning phase has its frozen task. -/
theorem done_task (hd : S.LanesDone t.slots t.project.generation) {p : PyStr × Lane}
    (hp : p ∈ S.roster.lanes) :
    ∃ a, t.task? p.1 t.project.generation = some a ∧ a.frozenAt ≠ none := by
  obtain ⟨s, hs, hw, hg, _, _⟩ := hd p.1 p.2 hp
  obtain ⟨a, ha, _, hsa⟩ := hc.slot_assignment hv hs
  rw [hw, hg] at ha
  exact ⟨a, ha, hsa.frozen⟩

/-- Where the reasoning lanes are done, an open slot is the live review's critic slot. -/
theorem open_reviews (hd : S.LanesDone t.slots t.project.generation) {s : RoundSlot}
    (hs : s ∈ t.slots) (ho : s.open = true) :
    ∃ r ∈ t.reviews, r.Reviews s ∧ r.live = true ∧ (r.state = .active ∨ r.state = .confirmed) := by
  rcases hc.slot_phase s hs with h | ⟨r, hr, h⟩
  · exact (hc.open_not_reasoning hv hd hs ho h.phase).elim
  · exact ⟨r, hr, h, hc.review_of_current hr h (hc.open_current s hs ho)⟩

omit hv in
theorem lanesDone (hp : t.project.phase ≠ .ownerActionRequired)
    (hl : ∀ lane ∈ S.phaseLanes t.project.phase, lane ∈ t.completedLanes) :
    S.LanesDone t.slots t.project.generation := by
  cases hph : t.project.phase with
  | reasoning =>
    refine hc.lanesDone_of_completed hph fun lane hm => hl lane ?_
    simpa [phaseLanes, hph] using hm
  | criticReview => exact hc.lanes_done (by simp [hph])
  | ownerActionRequired => exact (hp hph).elim

/-- A generation that may end has no open slot left. -/
theorem all_closed (he : S.EndsGeneration t) : ∀ s ∈ t.slots, s.open = false := by
  intro s hs
  cases ho : s.open with
  | false => rfl
  | true =>
    have hd := hc.lanesDone he.phase he.lanes
    obtain ⟨r, hr, hrs, hl, hst⟩ := hc.open_reviews hv hd hs ho
    exfalso
    cases hph : t.project.phase with
    | reasoning =>
      have h := (hc.review_live r hr hl).1
      simp [he.unreviewed hph] at h
    | criticReview =>
      have hcl := he.lanes .critic (by simp [phaseLanes, hph])
      simp only [Tables.completedLanes, List.mem_map, List.mem_filter, Bool.and_eq_true,
        beq_iff_eq] at hcl
      obtain ⟨x, ⟨hx, ⟨hxg, hxp⟩, hxt⟩, hxl⟩ := hcl
      have hw : s.worker = x.worker := by
        have h1 := (hc.slot_sound s hs).lane
        have h2 := (hc.slot_sound x hx).lane
        rw [hrs.lane] at h1
        rw [hxl] at h2
        exact S.roster.worker_of_lane h1 h2
      have hsx : s = x := by
        apply Rows.eq_of_key hv.slotRounds hs hx
        simp [RoundSlot.round, hw, hxg, hxp, hph, hrs.phase, hc.open_current s hs ho]
      subst hsx
      exact RoundSlot.open_ne_terminal ho hxt
    | ownerActionRequired => exact he.phase hph

/-- A critic lane that has finished its review phase leaves the live review active. -/
theorem review_active {r : ObstacleReview} (hph : t.project.phase = .criticReview)
    (hr : r ∈ t.reviews) (hl : r.live = true) (hcl : Lane.critic ∈ t.completedLanes) :
    r.state = .active := by
  simp only [Tables.completedLanes, List.mem_map, List.mem_filter, Bool.and_eq_true,
    beq_iff_eq] at hcl
  obtain ⟨s, ⟨hs, ⟨hg, hp⟩, _⟩, _⟩ := hcl
  rcases hc.slot_phase s hs with h | ⟨x, hx, h⟩
  · simp [h.phase, hph] at hp
  · have hcur := hc.review_of_current hx h hg
    obtain rfl := hc.live_unique hv.reviewIds hr hx hl hcur.1
    obtain ⟨y, hy, hya, hyst⟩ := hc.critic_review hph
    obtain rfl : r = y := by
      apply Rows.eq_of_key hv.reviewIds hx hy
      exact Option.some.inj ((hc.review_live r hx hl).1.symm.trans hya)
    rcases hcur.2 with h | h
    · exact h
    · rcases hyst with h' | h' <;> simp [h] at h'

omit hv in
/-- Without a live review the reviews are closed already. -/
theorem closedReviews_self (h : t.project.activeReviewId = none) :
    ClosedReviews t.reviews t.reviews := by
  refine ⟨fun r hr => ⟨r, hr, ⟨rfl, rfl, rfl, rfl, rfl, rfl, rfl⟩, .inl rfl⟩, fun r hr => ?_⟩
  refine ⟨?_, r, hr, ⟨rfl, rfl, rfl, rfl, rfl, rfl, rfl⟩, .inl rfl⟩
  cases hl : r.live with
  | false => rfl
  | true =>
    have := (hc.review_live r hr hl).1
    simp [h] at this

/-- Ending the one live review closes them all. -/
theorem closedReviews_set {r : ObstacleReview} (hr : r ∈ t.reviews) (hl : r.live = true)
    (r' : ObstacleReview) (hb : r.SameBinding r') (hst : (r.state = .active ∧ r'.state = .notConfirmed) ∨
      (r.state = .confirmed ∧ r'.state = .resolved)) :
    ClosedReviews t.reviews (Rows.set (·.reviewId) r' t.reviews) := by
  have hself : ∀ x : ObstacleReview, x.SameBinding x := fun x => ⟨rfl, rfl, rfl, rfl, rfl, rfl, rfl⟩
  have hk : r.reviewId = r'.reviewId := hb.reviewId.symm
  refine ⟨fun x hx => ?_, fun y hy => ?_⟩
  · by_cases hxr : x.reviewId = r'.reviewId
    · obtain rfl : x = r := Rows.eq_of_key hv.reviewIds hx hr (hxr.trans hk.symm)
      refine ⟨r', Rows.mem_set_self hr hk, hb, ?_⟩
      rcases hst with h | h
      · exact .inr (.inr h.1)
      · exact .inr (.inl h)
    · exact ⟨x, Rows.mem_set_of_ne hx hxr, hself x, .inl rfl⟩
  · rcases Rows.mem_set_cases hy with rfl | ⟨hy, hne⟩
    · refine ⟨?_, r, hr, hb, .inr hst⟩
      rcases hst with h | h <;> simp [ObstacleReview.live, h.2]
    · refine ⟨?_, y, hy, hself y, .inl rfl⟩
      cases hly : y.live with
      | false => rfl
      | true =>
        have hyr := hc.live_unique hv.reviewIds hy hr hly hl
        exact (hne (by rw [hyr, hk])).elim

omit hv in
theorem horizon (hp : t.project.phase ≠ .ownerActionRequired) :
    ∀ a ∈ t.tasks, a.generation ≤ t.project.generation := by
  intro a ha
  rcases hc.task_horizon a ha with h | ⟨_, h⟩
  · exact h
  · exact (hp h).elim

end CoordinationStore.Coherent

/-- The carried rows and the finished tasks are the next generation's tasks. -/
theorem CoordinationStore.TasksBound.nextTasks (hb : S.TasksBound t) (hv : t.Valid)
    (hz : ∀ a ∈ t.tasks, a.generation ≤ t.project.generation) {at' : SqlReal}
    {rows : List GenerationTask}
    (h : carriedTasks t t.project.generation at' S.roster.lanes = .ok rows) :
    S.NextTasks t (t.tasks ++ rows) := by
  refine ⟨fun a ha => ?_, fun a ha hf => ⟨a, List.mem_append_left _ ha, .refl hf⟩⟩
  rcases List.mem_append.mp ha with ha | ha
  · exact ⟨hb a ha, Nat.le_succ_of_le (hz a ha)⟩
  · obtain ⟨p, hp, x, hx, rfl⟩ := carriedTasks_ok h a ha
    have hxb := hb x (hv.task?_eq.mp hx).1
    exact ⟨⟨hp, Nat.succ_pos _, hxb.identity⟩, le_rfl⟩

/-- The carried rows restate every lane's frozen task. -/
theorem carriedTasks_carries (hv : t.Valid)
    (hdone : ∀ p ∈ S.roster.lanes,
      ∃ a, t.task? p.1 t.project.generation = some a ∧ a.frozenAt ≠ none)
    {at' : SqlReal} {rows : List GenerationTask}
    (h : carriedTasks t t.project.generation at' S.roster.lanes = .ok rows) :
    S.Carries t (t.tasks ++ rows) := by
  intro w l hw
  obtain ⟨a, ha, hm⟩ := carriedTasks_covers h (w, l) hw
  obtain ⟨b, hb, hf⟩ := hdone (w, l) hw
  obtain rfl : a = b := Option.some.inj (ha.symm.trans hb)
  obtain ⟨ham, hk⟩ := hv.task?_eq.mp ha
  exact ⟨a, ham, hk, hf, _, List.mem_append_right _ hm, rfl, rfl, rfl, rfl, rfl⟩

theorem carriedTasks_timely {g : Nat} {at' : SqlReal} {rows : List GenerationTask}
    (hat : at'.isFinite = true) (h : carriedTasks t g at' S.roster.lanes = .ok rows) :
    ∀ a ∈ rows, a.Timely := by
  intro a ha
  obtain ⟨p, _, x, _, rfl⟩ := carriedTasks_ok h a ha
  exact ⟨hat, by simp, by simp⟩

theorem wp_copyForward (calm : Prop) {observedAt : Stamp} {Q : Unit → Database → Prop} {g : Nat}
    (hb : S.TasksBound db.1)
    (hdone : ∀ p ∈ S.roster.lanes, ∃ a, db.1.task? p.1 g = some a ∧ a.frozenAt ≠ none)
    (hfree : ∀ a ∈ db.1.tasks, a.generation ≠ g + 1) (hE : ∀ e, Benign calm db.1 e → E e)
    (hQ : ∀ at' rows, observedAt = some at' → carriedTasks db.1 g at' S.roster.lanes = .ok rows →
      ∀ h : ({ db.1 with tasks := db.1.tasks ++ rows } : Tables).Valid,
      Q () ⟨{ db.1 with tasks := db.1.tasks ++ rows }, h⟩) :
    Tx.wp (S.copyForwardGenerationTasks g observedAt) Q E db := by
  simp only [CoordinationStore.copyForwardGenerationTasks, Tx.wp_bind, wp_look, Tx.wp_check,
    Tx.wp_ensure, wp_notNull, wp_put]
  refine ⟨fun p hp => ?_, fun e he => hE e (hb.staging_benign db.2 he)⟩
  obtain ⟨hassign, hready⟩ := CoordinationStore.taskStagingProjection_ok hp
  have hfrozen : p.ready = true ∧ ∀ a ∈ p.assignments, a.frozen = true := by
    refine ⟨hready.mpr fun q hq => (hdone q hq).imp fun a h => h.1, ?_⟩
    intro a ha
    rw [hassign, List.mem_filterMap] at ha
    obtain ⟨q, hq, hqa⟩ := ha
    obtain ⟨x, hx, hxf⟩ := hdone q hq
    rw [hx] at hqa
    cases hqa
    simpa [GenerationTask.staged, GenerationTask.frozen, Option.isSome_iff_ne_none] using hxf
  refine ⟨fun _ => ⟨fun _ => ⟨fun at' hat => ⟨fun rows hrows => ⟨fun h => ?_, fun _ => ?_⟩, ?_⟩,
    fun _ => hE _ (by simp)⟩, fun h => (h hfree).elim⟩, fun h => (h hfrozen).elim⟩
  · exact hQ at' rows hat hrows h
  · exact hE _ (by simp)
  · intro e he
    obtain ⟨rows, hrows⟩ := carriedTasks_total at'
      fun p hp => (hdone p hp).imp fun a h => h.1
    rw [hrows] at he
    cases he

/-- A calm call ends a generation only at a finite time. -/
def CoordinationStore.CalmAdvance (S : CoordinationStore) (calm : Prop) (t : Tables)
    (observedAt : Stamp) : Prop :=
  calm → S.EndsGeneration t → ∀ at' ∈ observedAt, at'.isFinite = true

theorem wp_startGeneration {g : Nat} {phase : Phase} {observedAt : Stamp}
    {Q : Unit → Database → Prop} (hg : db.1.project.generation = g)
    (hp : db.1.project.phase = phase) (hr : db.1.project.recommendationId = none) (hE : E .sqlite)
    (hQ : ∀ at', observedAt = some at' → ∀ db' : Database,
      db'.1 = { db.1 with project := { db.1.project with
        generation := g + 1, phase := .reasoning, phaseStartedAt := at', activeReviewId := none
        phaseDeadlineAt := at'.add S.config.phaseTimeoutSeconds, updatedAt := at' } } → Q () db') :
    Tx.wp (S.startGeneration g phase observedAt) Q E db := by
  simp only [CoordinationStore.startGeneration, updateProject, Tx.wp_bind, wp_look, Tx.wp_ensure,
    wp_notNull, wp_put]
  exact ⟨fun _ => ⟨fun at' hat => ⟨fun h => hQ at' hat _ rfl, fun _ => hE⟩, fun _ => hE⟩,
    fun h => (h ⟨hg, hp, hr⟩).elim⟩

/-- The carry and the start of the next generation, after its reviews have closed. -/
theorem wp_endGeneration (call : StoreCall) (hc : S.Coherent db.1) (he : S.EndsGeneration db.1) {observedAt : Stamp}
    (hcalm : S.CalmAdvance calm db.1 observedAt) {reviews : List ObstacleReview}
    (hcl : ClosedReviews db.1.reviews reviews)
    (h : ({ db.1 with reviews := reviews } : Tables).Valid) :
    Tx.wp (do
        S.copyForwardGenerationTasks db.1.project.generation observedAt
        S.startGeneration db.1.project.generation db.1.project.phase observedAt
        return true)
      (fun _ db' => Turn S call calm db.1 db'.1) (Benign calm db.1)
      ⟨{ db.1 with reviews := reviews }, h⟩ := by
  have hd := hc.lanesDone he.phase he.lanes
  have hz := hc.horizon he.phase
  rw [Tx.wp_bind]
  have hdone : ∀ p ∈ S.roster.lanes,
      ∃ a, db.1.task? p.1 db.1.project.generation = some a ∧ a.frozenAt ≠ none :=
    fun p hp => hc.done_task db.2 hd hp
  refine wp_copyForward calm hc.tasksBound hdone ?_
    (fun e h => h.back fun _ ha => ⟨ha.timely, ha.pinned⟩) ?_
  · intro a ha hg
    have := hz a ha
    omega
  · intro at' rows hat hrows h'
    rw [Tx.wp_bind]
    refine wp_startGeneration rfl rfl (hc.no_recommendation he.phase) (by simp) ?_
    rintro at₂ hat₂ db' hdb'
    obtain rfl : at' = at₂ := Option.some.inj (hat.symm.trans hat₂)
    have hnext := CoordinationStore.TasksBound.nextTasks
      (t := { db.1 with reviews := reviews }) hc.tasksBound h hz hrows
    have hcarry : S.Carries { db.1 with reviews := reviews } (db.1.tasks ++ rows) :=
      carriedTasks_carries h hdone hrows
    have hnone : db.1.project.recommendationId = none := hc.no_recommendation he.phase
    have hturn : Turn S call calm db.1 { db.1 with
        tasks := db.1.tasks ++ rows, reviews := reviews
        project := { db.1.project with
          generation := db.1.project.generation + 1, phase := .reasoning, phaseStartedAt := at'
          phaseDeadlineAt := at'.add S.config.phaseTimeoutSeconds, recommendationId := none
          activeReviewId := none, updatedAt := at' } } := by
      refine .advance he.phase he.free he.lanes (hc.all_closed db.2 he)
        ⟨hnext.bound, hnext.kept⟩ hcarry hcl ?_
      intro hcm ha a hm
      rcases List.mem_append.mp hm with hm | hm
      · exact ha.timely a hm
      · exact carriedTasks_timely (hcalm hcm he at' hat) hrows a hm
    rw [Tx.wp_pure, hdb']
    simpa only [hnone] using hturn

/-- An advance does nothing, or takes one turn. -/
theorem advance_rule (call : StoreCall) (hc : S.Coherent db.1) {observedAt : Stamp}
    (hcalm : S.CalmAdvance calm db.1 observedAt) :
    Tx.wp (S.advanceGenerationIfReady observedAt)
      (fun _ db' => db' = db ∨ Turn S call calm db.1 db'.1) (Benign calm db.1) db := by
  simp only [CoordinationStore.advanceGenerationIfReady, Tx.wp_bind, wp_look, Tx.wp_ite, Tx.wp_pure]
  refine ⟨fun _ => .inl trivial, fun h1 => ⟨fun _ => .inl trivial, fun h2 => ?_⟩⟩
  rw [not_or] at h1
  rw [not_not] at h2
  have hfree : db.1.overlaid = false := by simpa using h1.2
  apply wp_activeReview hc
  · intro hn
    have hph := hc.phase_of_no_pointer hn
    have he : S.EndsGeneration db.1 := ⟨h1.1, hfree, h2, fun _ => hn⟩
    have hw := wp_endGeneration call hc he hcalm (hc.closedReviews_self hn) db.2
    simp only [hph, Tx.wp_bind, Tx.wp_when] at hw ⊢
    exact ⟨by simp, fun _ => Tx.wp_mono hw (fun _ _ h => Tx.wp_mono h (fun _ _ h => Tx.wp_mono h
      (fun _ _ h => .inr h) fun _ h => h) fun _ h => h) fun _ h => h⟩
  · intro r hr ha hl
    have hlive := hc.review_live r hr hl
    cases hph : db.1.project.phase with
    | ownerActionRequired => exact (h1.1 hph).elim
    | reasoning =>
      have hst := hc.reasoning_pending hph r hr hl
      have hd : ∀ lane ∈ requiredLanes S.roster, lane ∈ db.1.completedLanes := by
        intro lane hm
        exact h2 lane (by simpa [CoordinationStore.phaseLanes, hph] using hm)
      simp only [CoordinationStore.enterCriticReview, updateProject, Tx.wp_bind, wp_look,
        Tx.wp_ensure, wp_notNull, wp_put, Tx.wp_pure]
      refine ⟨fun _ => ⟨fun _ => ⟨fun at' _ => ⟨fun h => .inr ?_, fun _ => by simp⟩, by simp⟩,
        fun h => (h ⟨hph, ha, hc.no_recommendation h1.1⟩).elim⟩, fun h => (h ⟨hst, hlive.2⟩).elim⟩
      exact .enterReview hph hfree hd hr hst ha
    | criticReview =>
      have hcl : Lane.critic ∈ db.1.completedLanes :=
        h2 .critic (by simp [CoordinationStore.phaseLanes, hph])
      have hst := hc.review_active db.2 hph hr hl hcl
      have he : S.EndsGeneration db.1 := ⟨h1.1, hfree, h2, fun h => by simp [hph] at h⟩
      have hcf : r.confirmationEntryId = none := by
        have h := hc.review_shape r hr
        simp only [ObstacleReview.Shaped, hst] at h
        exact h.2
      simp only [Tx.wp_when, Tx.wp_bind]
      refine ⟨fun _ => ?_, fun h => (h trivial).elim⟩
      unfold CoordinationStore.failCriticReview
      simp only [Tx.wp_bind, Tx.wp_fetched, Option.filter_some, hst, beq_self_eq_true, if_true]
      refine ⟨?_, by simp⟩
      rintro _ ⟨⟩
      refine wp_updateRow (·.reviewId) db.2.reviewIds hr (by simp [hst, hcf]) guarded_key rfl
        (by simp) fun h => ?_
      have hcl := hc.closedReviews_set db.2 hr hl
        { r with state := .notConfirmed, terminalAt := observedAt }
        ⟨rfl, rfl, rfl, rfl, rfl, rfl, rfl⟩ (.inl ⟨hst, rfl⟩)
      have hw := wp_endGeneration call hc he hcalm hcl h
      simp only [hph, Tx.wp_bind] at hw
      refine Tx.wp_ensure.mpr ⟨fun _ => ?_, fun h => (h rfl).elim⟩
      exact Tx.wp_mono hw (fun _ _ h => Tx.wp_mono h (fun _ _ h => Tx.wp_mono h
        (fun _ _ h => .inr h) fun _ h => h) fun _ h => h) fun _ h => h
/-- A call that ends with an attempted advance leaves its receipts as they were before it. -/
theorem Changes.advance {d : Database} {observedAt : Stamp} (hc : S.Coherent db.1)
    (h : Changes S call calm db d) (hcalm : S.CalmAdvance calm d.1 observedAt) :
    Tx.wp (S.advanceGenerationIfReady observedAt)
      (fun _ db' => CallStep S call calm db db' ∧ db'.1.candidates = d.1.candidates)
      (Benign calm db.1) d := by
  refine Tx.wp_mono (advance_rule call (h.coherent hc) hcalm) (fun _ db' h' => ?_)
    fun e he => he.back fun hcm ha => h.audited hcm ha
  refine ⟨⟨d, h, h'⟩, ?_⟩
  rcases h' with rfl | ht
  · rfl
  · exact ht.candidates

/-- The tables with this slot terminal. -/
def Tables.finished (t : Tables) (slotId : PyStr) : Tables :=
  let finish := fun s : RoundSlot => { s with state := .terminal }
  { t with slots := Rows.update (fun s => decide (s.slotId = slotId)) finish t.slots }

/-- The tables with this receipt terminal. -/
def Tables.settled (t : Tables) (receipt : PyStr) : Tables :=
  let settle := fun c : Candidate => { c with state := .terminal }
  { t with candidates := Rows.update (fun c => decide (c.candidateId = receipt)) settle t.candidates }

/-- Where a call attempts to end the generation: what its own receipt leaves, and its time. -/
def StoreCall.attempt (t : Tables) : StoreCall → Option (Tables × Stamp)
  | .admitWorker worker _ now =>
    ((t.slots.find? fun s => s.worker == worker && s.open).filter fun s =>
      s.state == .prepared && now.ge t.project.phaseDeadlineAt).map fun s =>
        (t.finished s.slotId, now)
  | .activate slotId now =>
    ((t.slot? slotId).filter fun s =>
      s.state == .prepared && now.ge t.project.phaseDeadlineAt).map fun s =>
        (t.finished s.slotId, now)
  | .complete slotId _ now _ =>
    ((t.slot? slotId).filter (·.open)).map fun s => (t.finished s.slotId, now)
  | .terminalizeCandidate _ receipt _ outcome now =>
    ((CandidateOutcome.ofText? outcome).filter candidateOutcomeReleases).map fun _ =>
      (t.settled receipt, now)
  | .resolveCandidateOutcomeUnknown receipt _ _ _ now => some (t.settled receipt, now)
  | _ => none

/-- The calls that commit a row the audit rejects: a slot marked ambiguous before its prompt is
pinned, and tasks carried forward at an infinite time. -/
inductive CoordinationStore.Disturbs (S : CoordinationStore) (t : Tables) : StoreCall → Prop where
  | unpinned {slotId : PyStr} {clock : Int} {s : RoundSlot} : t.slot? slotId = some s →
      s.state = .prepared → s.prompt = none → Disturbs S t (.markAmbiguous slotId clock)
  | endless {c : StoreCall} {t' : Tables} {at' : SqlReal} : c.attempt t = some (t', some at') →
      at'.isFinite = false → S.EndsGeneration t' → Disturbs S t c

/-- An attempt of a call that does not disturb the database is calm. -/
theorem CoordinationStore.calmAdvance_of_attempt {c : StoreCall} {t' t₂ : Tables} {now : Stamp}
    (hcalm : calm → ¬ S.Disturbs t c) (ha : c.attempt t = some (t', now))
    (h : S.EndsGeneration t₂ → S.EndsGeneration t') : S.CalmAdvance calm t₂ now := by
  intro hcm he at' hat
  cases hf : at'.isFinite with
  | true => rfl
  | false =>
    rw [Option.mem_def.mp hat] at ha
    exact (hcalm hcm (.endless ha hf (h he))).elim

theorem CoordinationStore.EndsGeneration.finished {s s' : RoundSlot} {t' : Tables}
    (hs : s ∈ t.slots) (hk : s.Continues s')
    (hslots : t'.slots = Rows.set (·.slotId) s' t.slots) (hp : t'.project = t.project)
    (hcd : t'.candidates = t.candidates) (h : S.EndsGeneration t') :
    S.EndsGeneration (t.finished s.slotId) where
  phase := by
    have := h.phase
    rwa [hp] at this
  free := by
    have := h.free
    rwa [Tables.overlaid, hcd] at this
  lanes := by
    intro lane hl
    have hm := h.lanes lane (by rw [hp]; exact hl)
    simp only [Tables.completedLanes, List.mem_map, List.mem_filter, Bool.and_eq_true,
      beq_iff_eq, hslots, hp] at hm ⊢
    obtain ⟨x, ⟨hx, hgp, hst⟩, rfl⟩ := hm
    rcases Rows.mem_set_cases hx with rfl | ⟨hx, hne⟩
    · refine ⟨{ s with state := .terminal }, ⟨Rows.mem_update_of_hit hs (by simp), ?_, rfl⟩,
        hk.lane.symm⟩
      rw [← hk.generation, ← hk.phase]
      exact hgp
    · refine ⟨x, ⟨Rows.mem_update_of_miss hx ?_, hgp, hst⟩, rfl⟩
      have : x.slotId ≠ s.slotId := fun he => hne (he.trans hk.slotId.symm)
      simpa using this
  unreviewed := by
    intro hph
    have := h.unreviewed (by rw [hp]; exact hph)
    rwa [hp] at this

theorem CoordinationStore.EndsGeneration.settled {t' : Tables} {receipt : PyStr}
    (hs : t'.slots = t.slots) (hp : t'.project = t.project)
    (hcd : ∀ c ∈ t.candidates, c.candidateId ≠ receipt → c ∈ t'.candidates)
    (h : S.EndsGeneration t') : S.EndsGeneration (t.settled receipt) where
  phase := by
    have := h.phase
    rwa [hp] at this
  free := by
    rw [Tables.overlaid, List.any_eq_false]
    intro c hc
    rcases Rows.mem_update_cases hc with ⟨hc, hne⟩ | ⟨x, _, _, rfl⟩
    · have := h.free
      rw [Tables.overlaid, List.any_eq_false] at this
      exact this c (hcd c hc (by simpa using hne))
    · simp [Candidate.overlay]
  lanes := by
    have := h.lanes
    simp only [Tables.completedLanes, hs, hp] at this
    exact this
  unreviewed := by
    have := h.unreviewed
    rwa [hp] at this

end Danus.Coordination
