import Danus.Coordination.RoundRules

/-! What evidence, its reviews and their recommendations do to a coherent database. -/
namespace Danus.Coordination
open Python Transaction

variable {S : CoordinationStore} {call : StoreCall} {calm : Prop} {t : Tables} {db : Database}
  {E : StoreError → Prop}

theorem wp_canonicalPaidSlot (hc : S.Coherent db.1) {worker : PyStr} {slotId : Option PyStr}
    {Q : RoundSlot → Database → Prop} (hE : ∀ e, Benign calm db.1 e → E e)
    (hQ : ∀ row ∈ db.1.slots, row.worker = worker → row.dispatched = true →
      (∀ i ∈ slotId, row.slotId = i) → row.generation = db.1.project.generation →
      row.lane = S.workerLane worker → Q row db) :
    Tx.wp (S.canonicalPaidSlot worker slotId) Q E db := by
  simp only [CoordinationStore.canonicalPaidSlot, Tx.wp_bind, Tx.wp_when, wp_look, Tx.wp_fetched,
    Tx.wp_ensure, Tx.wp_check, Tx.wp_pure]
  refine wp_validateIdentifier (fun e => hE _ (by simp)) fun _ => ?_
  have hrow : (∀ row, (db.1.slots.find? fun s => s.worker == worker && s.dispatched &&
        (slotId.isNone || some s.slotId == slotId)) = some row →
      (row.generation = db.1.project.generation ∧ row.lane = S.workerLane worker →
        (∀ u, S.validateSlotTaskBinding db.1 row = .ok u → Q row db) ∧
        ∀ e, S.validateSlotTaskBinding db.1 row = .error e → E e) ∧
      (¬ (row.generation = db.1.project.generation ∧ row.lane = S.workerLane worker) →
        E (.contradiction .slotNotCanonical))) := by
    intro row hf
    obtain ⟨hr, hp⟩ := Rows.mem_of_find hf
    simp only [Bool.and_eq_true, beq_iff_eq, Bool.or_eq_true, Option.isNone_iff_eq_none] at hp
    obtain ⟨⟨hw, hd⟩, hi⟩ := hp
    have ho : row.open = true := by
      cases hst : row.state <;> simp [RoundSlot.dispatched, RoundSlot.open, hst] at hd ⊢
    have hg := hc.open_current row hr ho
    have hl : row.lane = S.workerLane worker := by
      rw [← hw]
      exact (LaneRoster.mem_lanes_iff.mp (hc.slot_sound row hr).lane).1.symm
    refine ⟨fun _ => ⟨fun _ _ => hQ row hr hw hd ?_ hg hl, fun e he => ?_⟩,
      fun h => (h ⟨hg, hl⟩).elim⟩
    · rintro i hi'
      rcases hi with hi | hi
      · simp [hi] at hi'
      · exact Option.some.inj (hi.trans hi')
    · exact hE e (hc.validateSlot_benign db.2 hr he)
  refine ⟨fun _ => wp_validateIdentifier (fun e => hE _ (by simp)) fun _ => ?_, fun _ => ?_⟩
  · exact ⟨hrow, fun _ => hE _ (by simp)⟩
  · exact ⟨hrow, fun _ => hE _ (by simp)⟩

theorem wp_terminalReconciliationSlot (hc : S.Coherent db.1) {worker slotId : PyStr}
    {Q : RoundSlot → Database → Prop} (hE : ∀ e, Benign calm db.1 e → E e)
    (hQ : ∀ row ∈ db.1.slots, row.worker = worker → row.slotId = slotId → row.past = true →
      row.lane = S.workerLane worker → Q row db) :
    Tx.wp (S.terminalReconciliationSlot worker slotId) Q E db := by
  simp only [CoordinationStore.terminalReconciliationSlot, Tx.wp_bind, wp_look, Tx.wp_fetched,
    Tx.wp_ensure, Tx.wp_pure]
  refine wp_validateIdentifier (fun e => hE _ (by simp)) fun _ =>
    wp_validateIdentifier (fun e => hE _ (by simp)) fun _ =>
      ⟨fun row hf => ?_, fun _ => hE _ (by simp)⟩
  obtain ⟨hr, hp⟩ := Rows.mem_of_find hf
  simp only [Bool.and_eq_true, beq_iff_eq] at hp
  obtain ⟨⟨hw, hi⟩, hpast⟩ := hp
  have hl : row.lane = S.workerLane worker := by
    rw [← hw]
    exact (LaneRoster.mem_lanes_iff.mp (hc.slot_sound row hr).lane).1.symm
  have hcur : row.state = .terminal ∨ row.generation = db.1.project.generation := by
    cases ho : row.open with
    | true => exact .inr (hc.open_current row hr ho)
    | false => exact .inl (RoundSlot.not_open_iff.mp ho)
  refine ⟨fun _ => ⟨fun _ => ⟨fun _ => hQ row hr hw hi hpast hl, fun h => ?_⟩, fun h => ?_⟩,
    fun h => (h hl).elim⟩
  · exact (h (.inr (hc.slot_generation row hr))).elim
  · exact (h hcur).elim

/-- Evidence is inserted once; the entry that is there is the one asked for. -/
theorem wp_insertEvidence (S : CoordinationStore) (call : StoreCall) {entryId worker : PyStr} {slot : RoundSlot} {lane : Lane}
    {kind : EvidenceKind} {confirms : Option PyStr} {createdAt : Stamp}
    {Q : Unit → Database → Prop} (hcall : call.evidenceSlot = some slot.slotId)
    (hs : slot ∈ db.1.slots)
    (hw : ∀ at', slot.Wrote ⟨entryId, slot.generation, slot.slotId, worker, lane, kind, confirms, at'⟩)
    (hE : ∀ e, Benign calm db.1 e → E e)
    (hQ : ∀ evidence, ∀ h : ({ db.1 with evidence := evidence } : Tables).Valid,
      Changes S call calm db ⟨{ db.1 with evidence := evidence }, h⟩ →
      (∃ at', (⟨entryId, slot.generation, slot.slotId, worker, lane, kind, confirms, at'⟩ :
        EvidenceEntry) ∈ evidence) →
      Q () ⟨{ db.1 with evidence := evidence }, h⟩) :
    Tx.wp (insertEvidence entryId slot worker lane kind confirms createdAt) Q E db := by
  unfold insertEvidence
  rw [Tx.wp_bind, wp_look]
  cases hf : db.1.evidence? entryId with
  | none =>
    simp only [Tx.wp_bind, wp_notNull, wp_put]
    refine ⟨fun at' _ => ⟨fun h => hQ _ h ?_ ⟨at', by simp⟩, fun _ => hE _ (by simp)⟩,
      fun _ => hE _ (by simp)⟩
    exact .single (Change.evidence hcall ⟨slot, hs, hw at'⟩)
  | some x =>
    obtain ⟨hx, hid⟩ := db.2.evidence?_eq.mp hf
    rw [Tx.wp_ensure]
    refine ⟨fun h => hQ db.1.evidence db.2 .refl ⟨x.createdAt, ?_⟩, fun _ => hE _ (by simp)⟩
    obtain ⟨h1, h2, h3, h4, h5, h6⟩ := h
    rw [← hid, ← h1, ← h2, ← h3, ← h4, ← h5, ← h6]
    exact hx

/-- A designation does nothing, or designates a review; it loses its compare-and-set only to a root
slot of an earlier generation. -/
theorem ensureReview_rule (call : StoreCall) (calm : Prop) (hc : S.Coherent db.1) {rootEntryId rootSlotId : PyStr} {generation : Nat}
    {createdAt : Stamp} :
    Tx.wp (S.ensureReviewForRoot rootEntryId rootSlotId generation createdAt)
      (fun _ db' => Changes S call calm db db')
      (fun e => Benign calm db.1 e ∨
        (e = .contradiction .rootReviewCas ∧ generation ≠ db.1.project.generation)) db := by
  unfold CoordinationStore.ensureReviewForRoot
  cases hcr : S.roster.critic with
  | none => exact .refl
  | some critic =>
    simp only [Tx.wp_bind, wp_look, Tx.wp_ensure]
    refine wp_validateIdentifier (fun e => .inl (by simp)) fun _ =>
      wp_validateIdentifier (fun e => .inl (by simp)) fun _ => ⟨fun _ =>
        wp_validateIdentifier (fun e => .inl (by simp)) fun _ => ⟨fun hroot => ?_,
          fun _ => .inl (by simp)⟩, fun _ => .inl (by simp)⟩
    cases hf : db.1.reviews.find? fun r => r.rootSlotId = rootSlotId with
    | some existing =>
      simp only [Tx.wp_bind, Tx.wp_ensure, Tx.wp_pure]
      exact ⟨fun _ => .refl, fun _ => .inl (by simp)⟩
    | none =>
      simp only [Tx.wp_bind, Tx.wp_ensure, Tx.wp_pure, CoordinationStore.designateReview,
        updateProject, wp_notNull, wp_put, wp_look]
      refine ⟨fun hlive => ⟨fun at' _ => ⟨fun h => ⟨fun hcas => ⟨fun h' => ?_,
        fun _ => .inl (by simp)⟩, fun hcas => .inr ⟨trivial, ?_⟩⟩, fun _ => .inl (by simp)⟩,
        fun _ => .inl (by simp)⟩, fun _ => .inl (by simp)⟩
      · obtain ⟨slot, _, e, he, hsl, hsw, hsg, h1, h2, h3, h4, h5⟩ := hroot
        obtain ⟨he, hid⟩ := db.2.evidence?_eq.mp he
        exact .single (Change.designate
          (r := CoordinationStore.pendingReview _ rootEntryId rootSlotId critic generation at')
          rfl rfl rfl hcr ⟨e, he, hid, h1, h2, h3⟩ hcas.1.symm hcas.2.1)
      · intro hg
        have hnone : db.1.project.activeReviewId = none := by
          cases hp : db.1.project.activeReviewId with
          | none => rfl
          | some i =>
            obtain ⟨r, hr, _, hl⟩ := hc.pointer i hp
            rw [List.any_eq_false] at hlive
            exact (hlive r hr hl).elim
        have hph := hc.phase_of_no_pointer hnone
        exact hcas ⟨hg.symm, hnone, hc.no_recommendation (by simp [hph])⟩

namespace CoordinationStore.Coherent
variable (hc : S.Coherent t)
include hc

/-- A root entry is an obstacle. -/
theorem root_obstacle {e : EvidenceEntry} (he : e ∈ t.evidence) (hl : e.lane = .root) :
    e.kind.isObstacle = true := by
  obtain ⟨s, _, hw⟩ := hc.evidence_slot e he
  rcases hw.content with h | h
  · exact h.2.1
  · have := hw.lane.symm.trans hl
    simp [h.1] at this

theorem rootEvidence {r : ObstacleReview} (hr : r ∈ t.reviews) :
    t.rootEvidence r.rootEntryId r.generation = true := by
  obtain ⟨e, he, h⟩ := hc.review_root r hr
  rw [Tables.rootEvidence, List.any_eq_true]
  exact ⟨e, he, by simp [h.entry, h.generation, h.lane, hc.root_obstacle he h.lane]⟩

/-- The review a critic slot designates is the one it was admitted for. -/
theorem designated {r : ObstacleReview} {s : RoundSlot} {rootEntryId : PyStr} (hv : t.Valid)
    (hs : s ∈ t.slots) (h : t.designatedReview? s rootEntryId = some r) :
    r ∈ t.reviews ∧ r.Reviews s ∧ r.rootEntryId = rootEntryId ∧
      (r.state = .active ∨ r.state = .confirmed) := by
  unfold Tables.designatedReview? at h
  obtain ⟨hb, hd⟩ := Option.filter_eq_some_iff.mp h
  obtain ⟨i, hi, hri⟩ := Option.bind_eq_some_iff.mp hb
  obtain ⟨hr, rfl⟩ := hv.review?_eq.mp hri
  simp only [ObstacleReview.designates, Bool.and_eq_true, beq_iff_eq, Bool.or_eq_true] at hd
  refine ⟨hr, ?_, hd.1.2, hd.2⟩
  rcases hc.slot_phase s hs with hp | ⟨x, hx, hp⟩
  · simp [hp.reviewId] at hi
  · obtain rfl : x = r := Rows.eq_of_key hv.reviewIds hx hr
      (Option.some.inj (hp.review.symm.trans hi))
    exact hp

/-- A critic slot of the current generation finds its review. -/
theorem designated_of_current {s : RoundSlot} {rootEntryId : PyStr} (hv : t.Valid)
    (hs : s ∈ t.slots) (hg : s.generation = t.project.generation) (hr : s.reviewId ≠ none)
    (hd : s.designatedRootEntryId = some rootEntryId) :
    ∃ r, t.designatedReview? s rootEntryId = some r := by
  rcases hc.slot_phase s hs with hp | ⟨r, hrm, hp⟩
  · exact (hr hp.reviewId).elim
  · have hst := (hc.review_of_current hrm hp hg).2
    have hroot : r.rootEntryId = rootEntryId := Option.some.inj (hp.designated.symm.trans hd)
    have hf : t.review? r.reviewId = some r := hv.review?_eq.mpr ⟨hrm, rfl⟩
    refine ⟨r, ?_⟩
    rcases hst with h | h <;>
      simp [Tables.designatedReview?, ObstacleReview.designates, hp.review, hf, hp.critic, hroot, h]

/-- A live review other than a pending one leaves the reasoning phase behind. -/
theorem not_reasoning {r : ObstacleReview} (hr : r ∈ t.reviews) (hl : r.live = true)
    (hst : r.state ≠ .pending) : t.project.phase ≠ .reasoning :=
  fun h => hst (hc.reasoning_pending h r hr hl)

/-- The review the project points at, in the critic phase and behind the owner gate. -/
theorem pointed {r : ObstacleReview} (hv : t.Valid) (hr : r ∈ t.reviews)
    (ha : t.project.activeReviewId = some r.reviewId) :
    (t.project.phase = .criticReview → r.state = .pending ∨ r.state = .active) ∧
    (t.project.phase = .ownerActionRequired → r.state = .confirmed) := by
  refine ⟨fun hp => ?_, fun hp => ?_⟩
  · obtain ⟨x, hx, hxa, hst⟩ := hc.critic_review hp
    obtain rfl : x = r := Rows.eq_of_key hv.reviewIds hx hr
      (Option.some.inj (hxa.symm.trans ha))
    exact hst
  · obtain ⟨_, _, _, _, x, hx, hxa, hst, _⟩ := hc.owner_gate hp
    obtain rfl : x = r := Rows.eq_of_key hv.reviewIds hx hr
      (Option.some.inj (hxa.symm.trans ha))
    exact hst

end CoordinationStore.Coherent

/-- Confirming opens the recommendation of the review; replaying a confirmation changes nothing. -/
theorem confirm_rule (call : StoreCall) (calm : Prop) (hc : S.Coherent db.1) {slot : RoundSlot}
    {r : ObstacleReview} {e : EvidenceEntry} (lost : Contradiction) (uuid : PyStr)
    {entryId : PyStr} (createdAt : Stamp)
    (hs : slot ∈ db.1.slots) (hr : r ∈ db.1.reviews) (hrs : r.Reviews slot)
    (hst : r.state = .active ∨ r.state = .confirmed) (he : e ∈ db.1.evidence)
    (hw : slot.Wrote e) (hk : e.kind = .criticConfirmation)
    (hcf : e.confirmsEntryId = some r.rootEntryId) (hid : e.entryId = entryId) :
    Tx.wp (confirmOrReplay r entryId lost)
      (fun _ d => Tx.wp
        (ensureRecommendation uuid r.reviewId r.rootEntryId entryId slot.generation createdAt)
        (fun _ db' => db' = db ∨ Turn S call calm db.1 db'.1) (Benign calm db.1) d)
      (Benign calm db.1) db := by
  subst hid
  simp only [confirmOrReplay, confirmReview, Tx.wp_ite, Tx.wp_bind, Tx.wp_ensure]
  refine ⟨fun hact => ?_, fun hact => ⟨fun hconf => ?_, by simp⟩⟩
  · have hl : r.live = true := by simp [ObstacleReview.live, hact]
    have hlive := hc.review_live r hr hl
    have hph : db.1.project.phase = .criticReview := by
      cases hp : db.1.project.phase with
      | reasoning => exact (hc.not_reasoning hr hl (by simp [hact]) hp).elim
      | criticReview => rfl
      | ownerActionRequired =>
        have := (hc.pointed db.2 hr hlive.1).2 hp
        simp [hact] at this
    have hrec := hc.no_recommendation (by simp [hph])
    have hnone : r.confirmationEntryId = none := by
      have h := hc.review_shape r hr
      simp only [ObstacleReview.Shaped, hact] at h
      exact h.2
    refine wp_updateRow (·.reviewId) db.2.reviewIds hr (by simp [hact, hnone]) guarded_key rfl
      (by simp) fun h => ⟨fun _ => ?_, fun h => (h rfl).elim⟩
    set r' : ObstacleReview := { r with
      state := .confirmed, confirmationEntryId := some e.entryId } with hr'
    have hready : Tables.recommendable
        { db.1 with reviews := Rows.set (·.reviewId) r' db.1.reviews } r.reviewId r.rootEntryId
        e.entryId slot.generation = true := by
      have hfind : Tables.review? { db.1 with reviews := Rows.set (·.reviewId) r' db.1.reviews }
          r.reviewId = some r' := h.review?_eq.mpr ⟨Rows.mem_set_self hr rfl, rfl⟩
      have hroot : Tables.rootEvidence
          { db.1 with reviews := Rows.set (·.reviewId) r' db.1.reviews } r.rootEntryId
          slot.generation = true := hrs.generation ▸ hc.rootEvidence hr
      have hentry : (db.1.evidence.any fun x => x.entryId == e.entryId &&
          x.generation == slot.generation && x.lane == .critic && x.kind == .criticConfirmation &&
          x.confirmsEntryId == some r.rootEntryId) = true :=
        List.any_eq_true.mpr ⟨e, he, by simp [hw.generation, hw.lane, hrs.lane, hk, hcf]⟩
      simp only [Tables.recommendable, hfind, hroot, hentry]
      simp [hr', hrs.generation, hlive.1, hlive.2, hph]
    simp only [ensureRecommendation, Tx.wp_bind, wp_look, Tx.wp_ite, hrec,
      openRecommendation, updateProject, Tx.wp_ensure, wp_notNull, wp_put, Tx.wp_pure]
    refine ⟨fun _ => ?_, fun h => (h hready).elim⟩
    refine ⟨fun at' _ => ⟨fun h1 => ⟨fun _ => ⟨fun h2 => .inr ?_, by simp⟩, fun hcas => ?_⟩,
      by simp⟩, by simp⟩
    · exact .confirm (a := ⟨_, slot.generation, some r.reviewId, r.rootEntryId, e.entryId, at'⟩)
        hr hact hs hrs he
        ⟨rfl, hw.slot, hw.generation.trans hrs.generation, hw.lane.trans hrs.lane, hk, hcf⟩
        ⟨rfl, rfl, rfl, hrs.generation, .inl rfl⟩
    · exact (hcas ⟨hlive.2.symm.trans hrs.generation.symm, hph, hlive.1, trivial⟩).elim
  · simp only [ensureRecommendation, Tx.wp_bind, wp_look, Tx.wp_ite, Tx.wp_pure]
    refine ⟨fun hready => ?_, fun _ => .inl trivial⟩
    split
    · split
      · simp
      · simp
    · rename_i hp
      exfalso
      simp only [Tables.recommendable, Bool.and_eq_true, beq_iff_eq, bne_iff_ne] at hready
      obtain ⟨⟨_, ha⟩, hph⟩ := hready
      have hpt := hc.pointed db.2 hr ha
      cases hp' : db.1.project.phase with
      | reasoning => exact hph hp'
      | criticReview =>
        rcases hst with h | h
        · exact hact h
        · rcases hpt.1 hp' with h' | h' <;> simp [h] at h'
      | ownerActionRequired =>
        obtain ⟨a, _, h, _⟩ := hc.owner_gate hp'
        simp [hp] at h

theorem RoundSlot.Wrote.root {slot : RoundSlot} {worker entryId : PyStr} {kind : EvidenceKind}
    (hw : slot.worker = worker) (hl : slot.lane = .root) (hk : kind.isObstacle = true)
    (at' : SqlReal) :
    slot.Wrote ⟨entryId, slot.generation, slot.slotId, worker, .root, kind, none, at'⟩ :=
  ⟨rfl, hw.symm, hl.symm, rfl, .inl ⟨hl, hk, rfl⟩⟩

theorem RoundSlot.Wrote.critic {slot : RoundSlot} {worker entryId rootEntryId : PyStr}
    (hw : slot.worker = worker) (hl : slot.lane = .critic) (hp : slot.phase = .criticReview)
    (hd : slot.designatedRootEntryId = some rootEntryId) (at' : SqlReal) :
    slot.Wrote ⟨entryId, slot.generation, slot.slotId, worker, .critic, .criticConfirmation,
      some rootEntryId, at'⟩ :=
  ⟨rfl, hw.symm, hl.symm, rfl, .inr ⟨hl, hp, rfl, by simp, hd.symm⟩⟩

theorem obstacleKind?_isObstacle {text : PyStr} {kind : EvidenceKind}
    (h : obstacleKind? text = some kind) : kind.isObstacle = true := by
  unfold obstacleKind? at h
  split_ifs at h <;> cases h <;> rfl

/-- A call confirms with the evidence it has just written. -/
theorem Changes.confirm {d : Database} (hc : S.Coherent db.1) (h : Changes S call calm db d)
    {slot : RoundSlot} {r : ObstacleReview} {e : EvidenceEntry} {lost : Contradiction}
    {uuid entryId : PyStr} {createdAt : Stamp} (hs : slot ∈ d.1.slots) (hr : r ∈ d.1.reviews)
    (hrs : r.Reviews slot) (hst : r.state = .active ∨ r.state = .confirmed)
    (he : e ∈ d.1.evidence) (hw : slot.Wrote e) (hk : e.kind = .criticConfirmation)
    (hcf : e.confirmsEntryId = some r.rootEntryId) (hid : e.entryId = entryId) :
    Tx.wp (confirmOrReplay r entryId lost)
      (fun _ d' => Tx.wp
        (ensureRecommendation uuid r.reviewId r.rootEntryId entryId slot.generation createdAt)
        (fun _ db' => CallStep S call calm db db') (Benign calm db.1) d')
      (Benign calm db.1) d := by
  have back : ∀ e, Benign calm d.1 e → Benign calm db.1 e :=
    fun e he => he.back fun hcm ha => h.audited hcm ha
  refine Tx.wp_mono (confirm_rule call calm (h.coherent hc) lost uuid createdAt hs hr hrs hst he hw
    hk hcf hid) (fun _ d' hd => ?_) back
  exact Tx.wp_mono hd (fun _ db' h' => ⟨d, h, h'⟩) back

/-- Root evidence of a dispatched root slot, and the review it designates. -/
theorem recordRootEvidence_rule (hc : S.Coherent db.1) {worker kind entryId slotId : PyStr}
    {now : Stamp} :
    Tx.wp (S.recordRootEvidence worker kind entryId slotId now)
      (fun _ db' => CallStep S (.recordRootEvidence worker kind entryId slotId now) calm db db')
      (Benign calm db.1) db := by
  simp only [CoordinationStore.recordRootEvidence, Tx.wp_bind, Tx.wp_ensure, Tx.wp_fetched,
    Tx.wp_pure]
  refine wp_validateIdentifier (by simp) fun _ => ⟨fun hroot => ⟨fun k hk =>
    wp_validateIdentifier (by simp) fun _ => ?_, by simp⟩, by simp⟩
  refine wp_canonicalPaidSlot hc (fun _ h => h) fun slot hs hw _ hi hg hl => ?_
  obtain rfl := hi slotId rfl
  rw [hroot] at hl
  refine wp_insertEvidence S (.recordRootEvidence worker kind entryId slot.slotId now) rfl hs
    (.root hw hl (obstacleKind?_isObstacle hk)) (fun _ h => h)
    fun evidence h hch _ => ?_
  refine Tx.wp_mono (ensureReview_rule _ _ (hch.coherent hc))
    (fun _ _ h' => Changes.callStep (hch.trans h')) fun e he => ?_
  rcases he with he | ⟨_, hne⟩
  · exact he.back fun hcm ha => hch.audited hcm ha
  · exact (hne hg).elim

/-- A confirmation of the critic slot's own review. -/
theorem confirmRootEvidence_rule (hc : S.Coherent db.1)
    {worker rootEntryId entryId slotId uuid : PyStr} {now : Stamp} :
    Tx.wp (S.confirmRootEvidence worker rootEntryId entryId slotId uuid now)
      (fun _ db' => CallStep S (.confirmRootEvidence worker rootEntryId entryId slotId uuid now)
        calm db db')
      (Benign calm db.1) db := by
  simp only [CoordinationStore.confirmRootEvidence, Tx.wp_bind, Tx.wp_ensure, Tx.wp_fetched,
    Tx.wp_pure, wp_look]
  refine wp_validateIdentifier (by simp) fun _ => ⟨fun hcritic =>
    wp_validateIdentifier (by simp) fun _ => wp_validateIdentifier (by simp) fun _ => ?_, by simp⟩
  refine wp_canonicalPaidSlot hc (fun _ h => h) fun slot hs hw _ hi hg hl => ?_
  obtain rfl := hi slotId rfl
  rw [hcritic] at hl
  refine ⟨fun hslot => ⟨fun r hr => ?_, fun hnone => ?_⟩, by simp⟩
  · obtain ⟨hrm, hrs, rfl, hst⟩ := hc.designated db.2 hs hr
    refine ⟨fun _ => ?_, fun hne => ?_⟩
    · refine wp_insertEvidence S (.confirmRootEvidence worker r.rootEntryId entryId slot.slotId uuid
        now) rfl hs (.critic hw hl hslot.1 hslot.2.2) (fun _ h => h) fun evidence h hch hmem => ?_
      obtain ⟨at', he⟩ := hmem
      exact hch.confirm hc hs hrm hrs hst he (.critic hw hl hslot.1 hslot.2.2 at') rfl rfl rfl
    · exact (hne (hrs.generation ▸ hc.rootEvidence hrm)).elim
  · obtain ⟨r, hr⟩ := hc.designated_of_current db.2 hs hg hslot.2.1 hslot.2.2
    rw [hnone] at hr
    cases hr
theorem criticPublication_benign (hc : S.Coherent t) (hv : t.Valid) {slot : RoundSlot}
    {kind confirms : PyStr} {e : StoreError} (hs : slot ∈ t.slots)
    (hg : slot.generation = t.project.generation)
    (h : CoordinationStore.criticPublication t slot kind confirms = .error e) : Benign calm t e := by
  unfold CoordinationStore.criticPublication at h
  rcases except_bind_error.mp h with h | ⟨_, _, h⟩
  · exact RefusalOnly.require.benign h
  rcases except_bind_error.mp h with h | ⟨_, hd, h⟩
  · exact RefusalOnly.require.benign h
  obtain ⟨_, hr, hroot⟩ := require_ok.mp hd
  obtain ⟨r, hf⟩ := hc.designated_of_current hv hs hg hr hroot
  obtain ⟨hrm, _, _, hst⟩ := hc.designated hv hs hf
  have hshape := hc.review_shape r hrm
  rw [hf] at h
  exfalso
  rcases hst with hst | hst
  · simp only [ObstacleReview.Shaped, hst] at hshape
    simp [hst, hshape.2, require, bind, Except.bind, pure, Except.pure] at h
  · simp only [ObstacleReview.Shaped, hst] at hshape
    obtain ⟨_, _, _, x, _, hx⟩ := hshape
    simp [hst, hx.entry, require, bind, Except.bind, pure, Except.pure] at h

/-- Validating a publication changes nothing. -/
theorem validateMemoryPublication_rule (hc : S.Coherent db.1) {worker slotId kind : PyStr}
    {confirms : Option PyStr} :
    Tx.wp (S.validateMemoryPublication worker slotId kind confirms) (fun _ db' => db' = db)
      (Benign calm db.1) db := by
  simp only [CoordinationStore.validateMemoryPublication, Tx.wp_bind, Tx.wp_when, wp_look]
  have hslot : Tx.wp (S.canonicalPaidSlot worker (some slotId))
      (fun slot d => d = db ∧ slot ∈ db.1.slots ∧ slot.generation = db.1.project.generation)
      (Benign calm db.1) db :=
    wp_canonicalPaidSlot hc (fun _ h => h) fun slot hs _ _ _ hg _ => ⟨rfl, hs, hg⟩
  refine ⟨fun _ => wp_validateIdentifier (by simp) fun _ => Tx.wp_mono hslot ?_ fun _ h => h,
    fun _ => Tx.wp_mono hslot ?_ fun _ h => h⟩
  all_goals
    rintro slot d ⟨rfl, hs, hg⟩
    cases hl : slot.lane <;> cases confirms <;>
      simp only [Tx.wp_raise, Tx.wp_pure, Tx.wp_bind, Tx.wp_check, benign_refusal]
    exact ⟨fun _ _ => trivial, fun e he => criticPublication_benign hc d.2 hs hg he⟩

/-- What a matched memory entry says of its slot. -/
def MemoryIdentity.Fits (m : MemoryIdentity) (slot : RoundSlot) : Prop :=
  (slot.lane = .root ∧ m.kind.isObstacle = true ∧ m.confirmsEntryId = none) ∨
    (slot.lane = .critic ∧ m.kind = .criticConfirmation ∧ m.confirmsEntryId ≠ none)

theorem matchingMemoryEvidence_ok {entry : Json} {slot : RoundSlot} {m : MemoryIdentity}
    (h : matchingMemoryEvidence entry slot = .ok (some m)) : m.Fits slot := by
  unfold matchingMemoryEvidence at h
  split at h
  · split at h
    · cases h
    · cases h
    · simp only [Except.ok.injEq, Option.bind_eq_bind, Option.bind_eq_some_iff, guard] at h
      obtain ⟨kind, hk, entryId, _, author, _, _, _, links, _, provenance, _, _, _, _, _, h⟩ := h
      cases hl : slot.lane with
      | root =>
        simp only [hl, Option.some.injEq] at h
        subst h
        exact .inl ⟨hl, obstacleKind?_isObstacle hk, rfl⟩
      | critic =>
        simp only [hl, Option.bind_eq_some_iff, Option.some.injEq] at h
        obtain ⟨confirms, _, _, _, rfl⟩ := h
        exact .inr ⟨hl, rfl, by simp⟩
      | _ => simp [hl] at h
    · cases h
  · cases h

theorem matchingMemoryEvidence_error {entry : Json} {slot : RoundSlot} {e : StoreError}
    (h : matchingMemoryEvidence entry slot = .error e) : e = .typeError := by
  unfold matchingMemoryEvidence at h
  split at h
  · split at h <;> cases h <;> rfl
  · cases h

/-- Every identity of a batch comes from an entry that matches the slot. -/
theorem memoryIdentities_matched {slot : RoundSlot} {entries : List Json}
    {found identities : List MemoryIdentity}
    (h : memoryIdentities slot entries found = .ok identities) :
    ∀ m ∈ identities, m ∈ found ∨
      ∃ entry ∈ entries, matchingMemoryEvidence entry slot = .ok (some m) := by
  induction entries generalizing found with
  | nil =>
    cases h
    exact fun m hm => .inl hm
  | cons entry entries ih =>
    have later : ∀ {m : MemoryIdentity} {l : List MemoryIdentity},
        (m ∈ l ∨ ∃ e ∈ entries, matchingMemoryEvidence e slot = .ok (some m)) →
        m ∈ l ∨ ∃ e ∈ entry :: entries, matchingMemoryEvidence e slot = .ok (some m) := by
      rintro m l (h | ⟨e, he, hm⟩)
      · exact .inl h
      · exact .inr ⟨e, List.mem_cons_of_mem _ he, hm⟩
    unfold memoryIdentities at h
    obtain ⟨o, ho, h⟩ := except_bind_ok.mp h
    cases o with
    | none => exact fun m hm => later (ih h m hm)
    | some i =>
      simp only at h
      cases hp : found.find? fun f => f.entryId = i.entryId with
      | none =>
        rw [hp] at h
        intro m hm
        rcases ih h m hm with hm | hm
        · rcases List.mem_append.mp hm with hm | hm
          · exact .inl hm
          · rw [List.mem_singleton.mp hm]
            exact .inr ⟨entry, List.mem_cons_self, ho⟩
        · exact later (.inr hm)
      | some prior =>
        rw [hp] at h
        obtain ⟨_, _, h⟩ := except_bind_ok.mp h
        exact fun m hm => later (ih h m hm)

theorem memoryIdentities_benign {slot : RoundSlot} {entries : List Json}
    {found : List MemoryIdentity} {e : StoreError}
    (h : memoryIdentities slot entries found = .error e) : Benign calm t e := by
  induction entries generalizing found with
  | nil => cases h
  | cons entry entries ih =>
    unfold memoryIdentities at h
    rcases except_bind_error.mp h with h | ⟨o, _, h⟩
    · rw [matchingMemoryEvidence_error h]
      simp
    cases o with
    | none => exact ih h
    | some m =>
      simp only at h
      cases hp : found.find? fun f => f.entryId = m.entryId with
      | none =>
        rw [hp] at h
        exact ih h
      | some prior =>
        rw [hp] at h
        rcases except_bind_error.mp h with h | ⟨_, _, h⟩
        · exact RefusalOnly.require.benign h
        · exact ih h

/-- What a reconciliation can raise: only a root slot of an earlier generation loses its
designation's compare-and-set. -/
def Replayed (calm : Prop) (t : Tables) (slotId : PyStr) (e : StoreError) : Prop :=
  Benign calm t e ∨ (e = .contradiction .rootReviewCas ∧ ∃ slot ∈ t.slots,
    slot.slotId = slotId ∧ slot.lane = .root ∧ slot.generation ≠ t.project.generation)

/-- One matched entry, replayed from its slot. -/
theorem reconcileIdentity_rule (hc : S.Coherent db.1) {slot : RoundSlot} {worker uuid : PyStr}
    {now : Stamp} {m : MemoryIdentity} (hs : slot ∈ db.1.slots) (hw : slot.worker = worker)
    (hcall : call.evidenceSlot = some slot.slotId) (hm : m.Fits slot)
    (hph : slot.lane = .critic → slot.phase = .criticReview) :
    Tx.wp (S.reconcileIdentity slot worker uuid now m)
      (fun _ db' => CallStep S call calm db db') (Replayed calm db.1 slot.slotId) db := by
  simp only [CoordinationStore.reconcileIdentity, Tx.wp_bind, Tx.wp_ensure]
  refine ⟨fun hd => ?_, fun _ => .inl (by simp)⟩
  rcases hm with ⟨hl, hk, hcf⟩ | ⟨hl, hk, hcf⟩
  · rw [hl, hcf]
    refine wp_insertEvidence S call hcall hs (.root hw hl hk) (fun e h => .inl h)
      fun evidence h hch _ => ?_
    simp only [Tx.wp_bind, Tx.wp_pure]
    refine Tx.wp_mono (ensureReview_rule call calm (hch.coherent hc))
      (fun _ _ h' => Changes.callStep (hch.trans h')) fun e he => ?_
    rcases he with he | ⟨rfl, hne⟩
    · exact .inl (he.back fun hcm ha => hch.audited hcm ha)
    · exact .inr ⟨rfl, slot, hs, rfl, hl, hne⟩
  · obtain ⟨root, hroot⟩ := Option.ne_none_iff_exists'.mp hcf
    obtain ⟨_, hdes⟩ := hd hl
    rw [hroot] at hdes
    rw [hl, hk, hroot]
    refine wp_insertEvidence S call hcall hs (.critic hw hl (hph hl) hdes) (fun e h => .inl h)
      fun evidence h hch hmem => ?_
    simp only [Tx.wp_bind, wp_look, Tx.wp_fetched, Tx.wp_pure, Option.getD_some]
    refine ⟨fun r hr => ?_, fun _ => .inl (by simp)⟩
    obtain ⟨at', he⟩ := hmem
    obtain ⟨hrm, hrs, rfl, hst⟩ := (hch.coherent hc).designated h hs hr
    refine Tx.wp_mono (hch.confirm hc hs hrm hrs hst he (.critic hw hl (hph hl) hdes at')
      rfl rfl rfl) (fun _ _ hd => Tx.wp_mono hd (fun _ _ h => h) fun e he => .inl he)
      fun e he => .inl he

/-- A reconciliation replays at most one entry. -/
theorem reconcile_rule (hc : S.Coherent db.1) {slotId worker uuid : PyStr} {entries : List Json}
    {now : Stamp} :
    Tx.wp (S.reconcileTerminalMemoryEntries slotId worker uuid entries now)
      (fun _ db' => CallStep S (.reconcileTerminalMemoryEntries slotId worker uuid entries now)
        calm db db')
      (Replayed calm db.1 slotId) db := by
  simp only [CoordinationStore.reconcileTerminalMemoryEntries, Tx.wp_bind, Tx.wp_ensure,
    Tx.wp_check, Tx.wp_pure]
  refine ⟨fun _ => ?_, fun _ => .inl (by simp)⟩
  refine wp_terminalReconciliationSlot hc (fun _ h => .inl h) fun slot hs hw hi _ _ => ?_
  subst hi
  refine ⟨fun identities hids => ⟨fun hroot => ⟨fun hgen => ⟨fun hcrit => ⟨fun hexp => ?_,
    fun _ => .inl (by simp)⟩, fun _ => .inl (by simp)⟩, fun _ => .inl (by simp)⟩,
    fun _ => .inl (by simp)⟩, fun e he => .inl (memoryIdentities_benign he)⟩
  have hfits : ∀ m ∈ identities, m.Fits slot := by
    intro m hm
    rcases memoryIdentities_matched hids m hm with h | ⟨_, _, h⟩
    · cases h
    · exact matchingMemoryEvidence_ok h
  cases identities with
  | nil => exact Changes.callStep .refl
  | cons m rest =>
    have hm := hfits m List.mem_cons_self
    have hnil : rest = [] := by
      rcases hm with h | h
      · simpa using hroot h.1
      · simpa using hcrit h.1
    subst hnil
    simp only [CoordinationStore.reconcileIdentities, Tx.wp_bind, Tx.wp_pure]
    exact reconcileIdentity_rule hc hs hw rfl hm fun h => hgen h (by simp)
end Danus.Coordination
