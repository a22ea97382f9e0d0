import Danus.Coordination.Generations
import Danus.Coordination.Provenance

/-! How many paid slots a database has, and when one more is reserved. -/
namespace Danus.Coordination
open Python Transaction Machines

variable {S : CoordinationStore} {call : StoreCall} {calm : Prop} {t t' : Tables}
  {db db' : Database}

/-- The bounds on the slots of a database; a critic review slot is the critic's, for exactly one
review and its root entry, and while it is open that review is the current one. -/
structure CoordinationStore.SlotBounds (S : CoordinationStore) (t : Tables) : Prop where
  lanes : ∀ lane, (t.slots.countP fun s => s.open && s.lane == lane) ≤ 1
  total : t.slots.countP (·.open) ≤ S.config.maxPaidWorkers
  rounds : ∀ w g p, (t.slots.countP fun s => s.worker == w && s.generation == g && s.phase == p) ≤ 1
  review : ∀ s ∈ t.slots, s.phase = .criticReview →
    S.roster.critic = some s.worker ∧ s.lane = .critic ∧ ∃ r ∈ t.reviews,
      s.reviewId = some r.reviewId ∧ s.designatedRootEntryId = some r.rootEntryId ∧
      r.criticSlotId = some s.slotId ∧ r.generation = s.generation ∧
      (s.open = true → t.project.activeReviewId = some r.reviewId)

/-- The slot is one that the database reserves at this time: in its current round, before the
deadline, past the owner gate and every overlay, within the capacity, and in the critic review for
the pending review the project points at. -/
structure CoordinationStore.Reserved (S : CoordinationStore) (t : Tables) (now : Stamp)
    (s : RoundSlot) : Prop where
  state : s.state = .prepared
  lane : (s.worker, s.lane) ∈ S.roster.lanes
  current : s.generation = t.project.generation ∧ s.phase = t.project.phase
  gate : t.project.phase ≠ .ownerActionRequired
  unexpired : now.ge t.project.phaseDeadlineAt = false
  free : ∀ c ∈ t.candidates, c.state ≠ .active ∧ c.state ≠ .outcomeUnknown
  room : t.slots.countP (·.open) < S.config.maxPaidWorkers
  idle : ∀ x ∈ t.slots, x.worker = s.worker → x.state = .terminal ∧
    ¬ (x.generation = t.project.generation ∧ x.phase = t.project.phase)
  review : t.project.phase = .criticReview →
    S.roster.critic = some s.worker ∧ s.lane = .critic ∧ ∃ r ∈ t.reviews,
      t.project.activeReviewId = some r.reviewId ∧ r.state = .pending ∧
      s.reviewId = some r.reviewId ∧ s.designatedRootEntryId = some r.rootEntryId

theorem countP_le_one {α β : Type} {l : List α} {f : α → β} {p : α → Bool} {b : β}
    (hn : (l.map f).Nodup) (hp : ∀ a ∈ l, p a = true → f a = b) : l.countP p ≤ 1 := by
  induction l with
  | nil => simp
  | cons a l ih =>
    rw [List.map_cons, List.nodup_cons] at hn
    have ih' := ih hn.2 fun x hx => hp x (List.mem_cons_of_mem _ hx)
    by_cases ha : p a = true
    · have hz : l.countP p = 0 := by
        rw [List.countP_eq_zero]
        intro x hx hpx
        apply hn.1
        rw [hp a List.mem_cons_self ha, ← hp x (List.mem_cons_of_mem _ hx) hpx]
        exact List.mem_map_of_mem hx
      rw [List.countP_cons_of_pos ha, hz]
    · rwa [List.countP_cons_of_neg ha]

/-- The open slots are in different lanes of the roster. -/
theorem CoordinationStore.Coherent.open_le (hc : S.Coherent t) (hv : t.Valid) :
    t.slots.countP (·.open) ≤ S.roster.lanes.length := by
  have hsub : (t.slots.filter (·.open)).map (·.lane) ⊆ S.roster.lanes.map Prod.snd := by
    intro l hl
    obtain ⟨s, hs, rfl⟩ := List.mem_map.mp hl
    have hlane := (hc.slot_sound s (List.mem_filter.mp hs).1).lane
    exact List.mem_map.mpr ⟨(s.worker, s.lane), hlane, rfl⟩
  have hle := (List.subperm_of_subset hv.openLanes hsub).length_le
  simpa [List.countP_eq_length_filter] using hle

theorem CoordinationStore.Coherent.slotBounds (hc : S.Coherent t) (hv : t.Valid) :
    S.SlotBounds t := by
  refine ⟨fun lane => ?_, (hc.open_le hv).trans S.lanes_le, fun w g p => ?_, fun s hs hp => ?_⟩
  · have h := countP_le_one (p := fun s : RoundSlot => s.lane == lane) hv.openLanes
      fun s _ h => (beq_iff_eq.mp h : s.lane = lane)
    rw [List.countP_filter] at h
    simpa [Bool.and_comm] using h
  · refine countP_le_one (b := (w, g, p)) hv.slotRounds fun s _ h => ?_
    simp only [Bool.and_eq_true, beq_iff_eq] at h
    simp [RoundSlot.round, h]
  · rcases hc.slot_phase s hs with h | ⟨r, hr, h⟩
    · simp [h.phase] at hp
    · have hw : S.roster.critic = some s.worker := by
        have hlane := (hc.slot_sound s hs).lane
        rw [h.lane] at hlane
        have hcr := hc.review_critic r hr
        rw [hcr, S.roster.worker_of_lane hlane (LaneRoster.critic_mem hcr)]
      refine ⟨hw, h.lane, r, hr, h.review, h.designated, h.critic, h.generation.symm, fun ho => ?_⟩
      have hcur := hc.review_of_current hr h (hc.open_current s hs ho)
      exact (hc.review_live r hr hcur.1).1

/-- Only an admission adds a slot. -/
theorem CallStep.slot_from (hn : ∀ worker, ¬ call.Admits worker)
    (h : CallStep S call calm db db') :
    ∀ s ∈ db'.1.slots, ∃ s₀ ∈ db.1.slots, s₀.slotId = s.slotId := by
  have changes : ∀ u, Changes S call calm db u →
      ∀ s ∈ u.1.slots, ∃ s₀ ∈ db.1.slots, s₀.slotId = s.slotId := by
    intro u hu
    induction hu with
    | refl => exact fun s hs => ⟨s, hs, rfl⟩
    | @tail d d' _ hstep ih =>
      obtain ⟨t', hv'⟩ := d'
      cases hstep with
      | slot hx hm =>
        intro s hs
        rcases Rows.mem_set_cases hs with rfl | ⟨hs, _⟩
        · obtain ⟨s₀, hs₀, he⟩ := ih _ hx
          exact ⟨s₀, hs₀, he.trans hm.continues.slotId.symm⟩
        · exact ih s hs
      | reserve ha => exact (hn _ ha).elim
      | reserveCritic ha => exact (hn _ ha).elim
      | _ => exact ih
  obtain ⟨u, hu, rfl | ht⟩ := h
  · exact changes _ hu
  · rw [ht.keeps.1]
    exact changes u hu

/-- What follows the insertion of a slot leaves the slots as they are. -/
theorem activateSlotReview_slots {slotReview : Option ObstacleReview} {slotId : PyStr}
    {observedAt : Stamp} :
    Tx.wp (CoordinationStore.activateSlotReview slotReview slotId observedAt)
      (fun _ d => d.1.slots = db.1.slots) (fun _ => True) db := by
  cases slotReview with
  | none => exact rfl
  | some r =>
    simp only [CoordinationStore.activateSlotReview, CoordinationStore.activateReview, updateReviews,
      Tx.wp_bind, wp_updateRows, Tx.wp_ensure]
    exact ⟨fun _ => ⟨fun _ => trivial, fun _ => trivial⟩, fun _ => trivial⟩

theorem admission_slots {row : RoundSlot} {resumed : Bool} :
    Tx.wp (S.admission row resumed) (fun _ d => d.1.slots = db.1.slots) (fun _ => True) db := by
  simp only [CoordinationStore.admission, Tx.wp_bind, wp_look, Tx.wp_check, Tx.wp_ensure, Tx.wp_pure]
  simp

theorem admitted_slots {slot : RoundSlot} {observedAt : Stamp} :
    Tx.wp (S.admitted slot observedAt) (fun _ d => d.1.slots = db.1.slots) (fun _ => True) db := by
  rw [CoordinationStore.admitted, Tx.wp_bind]
  refine wp_writeWorkerState trivial fun _ workers _ hw => ?_
  simp only [Tx.wp_bind, wp_look, Tx.wp_fetched]
  exact ⟨fun row _ => admission_slots, fun _ => trivial⟩

/-- A reservation appends one slot of its worker, in the current round. -/
theorem reserveSlot_slots {worker uuid : PyStr} {lane : Lane} {slotReview : Option ObstacleReview}
    {observedAt : Stamp} :
    Tx.wp (S.reserveSlot worker lane uuid slotReview observedAt)
      (fun _ d => ∃ s : RoundSlot, d.1.slots = db.1.slots ++ [s] ∧ s.worker = worker ∧
        s.lane = lane ∧ s.state = .prepared ∧ s.generation = db.1.project.generation ∧
        s.phase = db.1.project.phase ∧ s.reviewId = slotReview.map (·.reviewId) ∧
        s.designatedRootEntryId = slotReview.map (·.rootEntryId)) (fun _ => True) db := by
  simp only [CoordinationStore.reserveSlot, Tx.wp_bind, wp_look, Tx.wp_fetched, Tx.wp_check,
    Tx.wp_ensure, wp_notNull, wp_put]
  refine ⟨fun row hrow => ⟨fun identity _ => ⟨fun _ => ?_, fun _ => trivial⟩, fun _ _ => trivial⟩,
    fun _ => trivial⟩
  refine wp_freezeTask (db.2.task?_eq.mp hrow).1 trivial fun tasks _ _ _ _ _ _ _ => ?_
  refine ⟨fun directive _ => ⟨fun at' _ => ⟨fun _ => ?_, fun _ => trivial⟩, fun _ => trivial⟩,
    fun _ _ => trivial⟩
  refine Tx.wp_mono activateSlotReview_slots (fun _ d hd => ?_) fun _ h => h
  refine Tx.wp_mono admitted_slots (fun _ d' hd' => ?_) fun _ h => h
  rw [hd', hd]
  exact ⟨_, rfl, rfl, rfl, rfl, rfl, rfl, rfl, rfl⟩

/-- A worker without an open slot gets none, or one that the database reserves. -/
theorem admitFresh_slots (hc : S.Coherent db.1) {worker uuid : PyStr} {observedAt : Stamp}
    (hop : db.1.slots.find? (fun s => s.worker == worker && s.open) = none) :
    Tx.wp (S.admitFresh worker (S.workerLane worker) uuid observedAt)
      (fun _ d => d.1.slots = db.1.slots ∨ ∃ s : RoundSlot, d.1.slots = db.1.slots ++ [s] ∧
        s.worker = worker ∧ S.Reserved db.1 observedAt s) (fun _ => True) db := by
  have hwait : ∀ state, Tx.wp
      (writeWorkerState worker (S.workerLane worker) state db.1.project.generation
        db.1.project.phase observedAt)
      (fun _ d => d.1.slots = db.1.slots ∨ ∃ s : RoundSlot, d.1.slots = db.1.slots ++ [s] ∧
        s.worker = worker ∧ S.Reserved db.1 observedAt s) (fun _ => True) db := fun state =>
    wp_writeWorkerState trivial fun _ workers _ _ => .inl rfl
  have hactive : Tx.wp activeReview (fun review d => d = db ∧ ∀ r ∈ review,
      r ∈ db.1.reviews ∧ r.live = true ∧ db.1.project.activeReviewId = some r.reviewId)
      (fun _ => True) db := by
    refine wp_activeReview hc (fun _ => ⟨rfl, by simp⟩) fun r hr ha hl => ⟨rfl, ?_⟩
    rintro _ ⟨⟩
    exact ⟨hr, hl, ha⟩
  simp only [CoordinationStore.admitFresh, Tx.wp_bind, wp_look]
  refine Tx.wp_mono hactive ?_ fun _ h => h
  rintro review _ ⟨rfl, hrev⟩
  simp only [Tx.wp_ite, Tx.wp_bind, Tx.wp_pure]
  refine ⟨fun _ => hwait _, fun h1 => ⟨fun _ => hwait _, fun h2 => ?_⟩⟩
  simp only [not_or, Bool.not_eq_false, Bool.not_eq_true, not_le] at h1 h2
  obtain ⟨hel, hgate, hover, hexp⟩ := h1
  obtain ⟨hdone, hroom⟩ := h2
  have hres := reserves_of_eligible hc hop hdone hgate (fun r hr => ⟨(hrev r hr).1, (hrev r hr).2.1⟩) hel
  refine Tx.wp_mono reserveSlot_slots ?_ fun _ h => h
  rintro _ d ⟨s, hd, hw, hl, hst, hg, hp, hr, he⟩
  refine .inr ⟨s, hd, hw, hst, ?_, ⟨hg, hp⟩, hgate, hexp, Tables.free_of_not_overlaid hover, hroom,
    fun x hx hxw => ?_, fun hph => ?_⟩
  · rw [hw, hl]
    exact hres.lane
  · have hclosed := Rows.find_none.mp hop x hx
    have hterminal : x.state = .terminal := by
      apply RoundSlot.state_of_closed
      simpa [hxw, hw] using hclosed
    refine ⟨hterminal, ?_⟩
    rintro ⟨hxg, hxp⟩
    rw [List.any_eq_false] at hdone
    apply hdone x hx
    simp [hxw, hw, hxg, hxp, hterminal]
  · rcases hres.review with ⟨_, h⟩ | ⟨r, hrm, hsome, hpending, _, hcl, _⟩
    · rw [hph] at h
      cases h
    · rw [if_pos hph] at hsome
      subst hsome
      rw [if_pos hph] at hr he
      have hcr := hc.review_critic r hrm
      have hlane := hres.lane
      rw [hcl] at hlane
      refine ⟨?_, hl.trans hcl, r, hrm, (hrev r rfl).2.2, hpending, hr, he⟩
      rw [hw, hcr, S.roster.worker_of_lane hlane (LaneRoster.critic_mem hcr)]

/-- An admission keeps the slots, or reserves one more for its worker. -/
theorem admit_slots (hc : S.Coherent db.1) {worker uuid : PyStr} {now : Stamp} :
    ∀ s ∈ (S.perform (.admitWorker worker uuid now) db).2.1.slots,
      (∃ s₀ ∈ db.1.slots, s₀.slotId = s.slotId) ∨ (s.worker = worker ∧ S.Reserved db.1 now s) := by
  have hw : Tx.wp (S.admitWorker worker uuid now)
      (fun _ d => ∀ s ∈ d.1.slots, (∃ s₀ ∈ db.1.slots, s₀.slotId = s.slotId) ∨
        (s.worker = worker ∧ S.Reserved db.1 now s)) (fun _ => True) db := by
    simp only [CoordinationStore.admitWorker, Tx.wp_bind, wp_look]
    refine wp_validateIdentifier (by simp) fun _ => ?_
    cases hf : db.1.slots.find? fun s => s.worker == worker && s.open with
    | none =>
      refine Tx.wp_mono (admitFresh_slots hc hf) ?_ fun _ h => h
      rintro _ d (hd | ⟨x, hd, hx⟩) s hs
      · rw [hd] at hs
        exact .inl ⟨s, hs, rfl⟩
      · rw [hd] at hs
        rcases List.mem_append.mp hs with hs | hs
        · exact .inl ⟨s, hs, rfl⟩
        · rw [List.mem_singleton.mp hs]
          exact .inr hx
    | some slot =>
      have hslot := (Rows.mem_of_find hf).1
      simp only [Tx.wp_ite, Tx.wp_bind, Tx.wp_pure]
      refine ⟨fun hx => ?_, fun hx => ?_⟩
      · -- the same expiry as an activation of the slot, which reserves nothing
        have hcall : (StoreCall.activate slot.slotId now).attempt db.1 =
            some (db.1.finished slot.slotId, now) := by
          simp [StoreCall.attempt, db.2.slot?_eq.mpr ⟨hslot, rfl⟩, hx.1, hx.2]
        refine Tx.wp_mono (expire_rule hc hslot hx.2 False.elim hcall) (fun _ d hd s hs => .inl ?_)
          fun _ _ => trivial
        refine hd.slot_from ?_ s hs
        rintro w ⟨_, _, h⟩
        cases h
      · refine wp_writeWorkerState trivial fun _ workers _ hw => ?_
        refine Tx.wp_mono admission_slots (fun _ d hd s hs => .inl ⟨s, ?_, rfl⟩) fun _ h => h
        rwa [hd] at hs
  simp only [CoordinationStore.perform, committed]
  rcases Tx.wp_run hw with ⟨a, d, hx, hq⟩ | ⟨_, hx, _⟩
  · rw [hx]
    exact hq
  · rw [hx]
    exact fun s hs => .inl ⟨s, hs, rfl⟩

/-- Along every run the slots stay within their bounds, and a slot that a call adds is one that
the call asked for and the database reserved. -/
theorem admissions_bounded (h : S.machine.Reachable db) :
    S.SlotBounds db.1 ∧ ∀ call, ∀ s ∈ (S.perform call db).2.1.slots,
      (∀ s₀ ∈ db.1.slots, s₀.slotId ≠ s.slotId) →
      ∃ uuid now, call = .admitWorker s.worker uuid now ∧ S.Reserved db.1 now s := by
  have hc := coherent_of_reachable h
  refine ⟨hc.slotBounds db.2, fun call s hs hnew => ?_⟩
  by_cases hcall : ∃ worker, call.Admits worker
  · obtain ⟨worker, uuid, now, rfl⟩ := hcall
    rcases admit_slots hc s hs with ⟨s₀, hs₀, he⟩ | ⟨rfl, hr⟩
    · exact (hnew s₀ hs₀ he).elim
    · exact ⟨uuid, now, rfl, hr⟩
  · rw [not_exists] at hcall
    obtain ⟨s₀, hs₀, he⟩ := (served hc).1.slot_from hcall s hs
    exact (hnew s₀ hs₀ he).elim

/-- The root's admission after both lanes were staged. -/
theorem admissions_bounded_root :
    let staged := pairStore.performAll pairDatabase (admitRoot.take 2)
    pairStore.SlotBounds staged.1 ∧ ∀ call, ∀ s ∈ (pairStore.perform call staged).2.1.slots,
      (∀ s₀ ∈ staged.1.slots, s₀.slotId ≠ s.slotId) →
      ∃ uuid now, call = .admitWorker s.worker uuid now ∧ pairStore.Reserved staged.1 now s :=
  admissions_bounded (reachable_performAll (Machine.reachable_start pair_start))

end Danus.Coordination
