import Danus.Coordination.ReviewRules

/-! What admission, pinning, activation, ambiguity and completion do to a coherent database. -/
namespace Danus.Coordination
open Python Transaction

variable {S : CoordinationStore} {call : StoreCall} {calm : Prop} {t : Tables} {db : Database}
  {E : StoreError → Prop}

/-- A slot of a coherent database has an admission unless the audit rejects it. -/
theorem wp_admission (hc : S.Coherent db.1) {row : RoundSlot} {resumed : Bool}
    {Q : Admission → Database → Prop} (hr : row ∈ db.1.slots)
    (hE : ∀ e, Benign calm db.1 e → E e) (hQ : ∀ a, Q a db) :
    Tx.wp (S.admission row resumed) Q E db := by
  have hd := (hc.slot_sound row hr).directive
  simp only [CoordinationStore.admission, Tx.wp_bind, wp_look, Tx.wp_check, Tx.wp_ensure, hd,
    Tx.wp_pure]
  refine ⟨fun _ _ => ⟨?_, by simp⟩, fun e he => hE e (hc.validateSlot_benign db.2 hr he)⟩
  rintro _ ⟨⟩
  exact ⟨fun _ => hQ _, fun h => (h rfl).elim⟩

/-- The expiry of a prepared slot finishes it, and attempts the advance. -/
theorem expire_rule (hc : S.Coherent db.1) {slot : RoundSlot} {observedAt : Stamp}
    (hs : slot ∈ db.1.slots) (hst : slot.state = .prepared)
    (hcalm : calm → ¬ S.Disturbs db.1 call)
    (ha : call.attempt db.1 = some (db.1.finished slot.slotId, observedAt)) :
    Tx.wp (S.terminalizeExpiredPrepared slot observedAt)
      (fun _ db' => CallStep S call calm db db') (Benign calm db.1) db := by
  have ho : slot.open = true := by simp [RoundSlot.open, hst]
  have hm : SlotMove calm slot { slot with
      state := .terminal, terminalAt := observedAt
      outcome := some CoordinationStore.preparedDeadlineOutcome } :=
    .finish ho
  simp only [CoordinationStore.terminalizeExpiredPrepared, Tx.wp_bind, wp_look, Tx.wp_check,
    Tx.wp_ensure, Tx.wp_pure]
  refine ⟨fun _ => ⟨fun _ _ => ?_, fun e he => hc.validateSlot_benign db.2 hs he⟩,
    fun h => (h hst).elim⟩
  refine wp_updateRow (·.slotId) db.2.slotIds hs (by simp [hst]) guarded_key rfl (by simp)
    fun h => ⟨fun _ => ?_, fun h => (h rfl).elim⟩
  refine wp_writeWorkerState (by simp) fun at' workers _ hw => ?_
  refine Tx.wp_mono (Changes.advance hc (.tail (.single (Change.slot hs hm)) (.book workers _)) ?_)
    (fun _ _ h => h.1) fun _ h => h
  exact CoordinationStore.calmAdvance_of_attempt hcalm ha
    (CoordinationStore.EndsGeneration.finished hs hm.continues rfl rfl rfl)

/-- The admission freeze leaves one row of the task's key, frozen unless the time is missing. -/
theorem wp_freezeTask {row : GenerationTask} {observedAt : Stamp} {Q : Unit → Database → Prop}
    (hr : row ∈ db.1.tasks) (hE : E .sqlite)
    (hQ : ∀ tasks a, a ∈ tasks → (∃ f, a = { row with frozenAt := f }) →
      (observedAt ≠ none → a.frozenAt ≠ none) → (∀ b ∈ tasks, b ∈ db.1.tasks ∨ b = a) →
      (∀ b ∈ db.1.tasks, b.frozenAt ≠ none → b ∈ tasks) →
      ∀ h : ({ db.1 with tasks := tasks } : Tables).Valid,
        Q () ⟨{ db.1 with tasks := tasks }, h⟩) :
    Tx.wp (CoordinationStore.freezeTask row observedAt) Q E db := by
  simp only [CoordinationStore.freezeTask, Tx.wp_when, Tx.wp_bind, Tx.wp_ensure]
  refine ⟨fun hf => ?_, fun hf => ?_⟩
  · refine wp_updateRow GenerationTask.key db.2.taskKeys hr (by simp [hf]) guarded_key rfl hE
      fun h => ⟨fun _ => ?_, fun h => (h rfl).elim⟩
    refine hQ _ { row with frozenAt := observedAt } (Rows.mem_set_self hr rfl) ⟨_, rfl⟩ id ?_ ?_ h
    · intro b hb
      rcases Rows.mem_set_cases hb with rfl | hb
      · exact .inr rfl
      · exact .inl hb.1
    · intro b hb hbf
      refine Rows.mem_set_of_ne hb fun hk => ?_
      obtain rfl : b = row := Rows.eq_of_key db.2.taskKeys hb hr hk
      exact hbf hf
  · exact hQ _ row hr ⟨_, rfl⟩ (fun _ => hf) (fun b hb => .inl hb) (fun b hb _ => hb) db.2

/-- A timely freeze is a change of tasks. -/
theorem Change.freeze (hc : S.Coherent t) {row a : GenerationTask} {tasks : List GenerationTask}
    (hr : row ∈ t.tasks) (ha : ∃ f, a = { row with frozenAt := f })
    (hfrom : ∀ b ∈ tasks, b ∈ t.tasks ∨ b = a)
    (hkept : ∀ b ∈ t.tasks, b.frozenAt ≠ none → b ∈ tasks) (ht : a.Timely) :
    Change S call calm t { t with tasks := tasks } := by
  obtain ⟨f, rfl⟩ := ha
  refine .tasks (fun b hb => ?_) (fun b hb hf => ⟨b, hkept b hb hf, .refl hf⟩) fun b hb => ?_
  · rcases hfrom b hb with hb | rfl
    · exact ⟨hc.task_bound b hb, hc.task_horizon b hb⟩
    · have hbr := hc.task_bound row hr
      exact ⟨⟨hbr.lane, hbr.generation, hbr.identity⟩, hc.task_horizon row hr⟩
  · rcases hfrom b hb with hb | rfl
    · exact .inl hb
    · exact .inr ht

/-- The admission a call ends with. -/
theorem Changes.admission (hc : S.Coherent db.1) {d : Database} {row : RoundSlot} {resumed : Bool}
    (h : Changes S call calm db d) (hr : row ∈ d.1.slots) :
    Tx.wp (S.admission row resumed) (fun _ db' => CallStep S call calm db db')
      (Benign calm db.1) d :=
  wp_admission (h.coherent hc) hr (fun _ he => he.back fun hcm ha => h.audited hcm ha)
    fun _ => h.callStep

/-- The call reads its slot back, and admits it. -/
theorem Changes.rejoin (hc : S.Coherent db.1) {d : Database} {slotId : PyStr} {resumed : Bool}
    {e : StoreError} {Q : Admission → Database → Prop} (h : Changes S call calm db d)
    (hs : ∃ row ∈ d.1.slots, row.slotId = slotId) (hQ : ∀ a d', CallStep S call calm db d' → Q a d') :
    (∀ joined, d.1.slot? slotId = some joined →
      Tx.wp (S.admission joined resumed) Q (Benign calm db.1) d) ∧
    (d.1.slot? slotId = none → Benign calm db.1 e) := by
  refine ⟨fun joined hj => Tx.wp_mono (h.admission hc (d.2.slot?_eq.mp hj).1) hQ fun _ h => h,
    fun hn => ?_⟩
  obtain ⟨row, hr, hk⟩ := hs
  rw [d.2.slot?_eq.mpr ⟨hr, hk⟩] at hn
  cases hn

/-- What a reservation starts from. -/
structure CoordinationStore.Reserves (S : CoordinationStore) (t : Tables) (worker : PyStr)
    (slotReview : Option ObstacleReview) : Prop where
  lane : (worker, S.workerLane worker) ∈ S.roster.lanes
  review : (slotReview = none ∧ t.project.phase = .reasoning) ∨
    ∃ r ∈ t.reviews, slotReview = some r ∧ r.state = .pending ∧
      t.project.phase = .criticReview ∧ S.workerLane worker = .critic ∧
      r.generation = t.project.generation

/-- The end of an admission: its slot is validated against its task before the commit. -/
theorem wp_reserved {d : Database} {slot : RoundSlot} {a : GenerationTask}
    {observedAt : Stamp} (hs : slot ∈ d.1.slots) (hsound : S.SlotSound slot) (ha : a ∈ d.1.tasks)
    (hbound : S.TaskBound a) (hass : slot.Assigned a)
    (h : a.Timely → Changes S call calm db d) :
    Tx.wp (S.admitted slot observedAt)
      (fun _ db' => CallStep S call calm db db') (Benign False db.1) d := by
  rw [CoordinationStore.admitted, Tx.wp_bind]
  refine wp_writeWorkerState (by simp) fun at' workers _ hw => ?_
  have hf : Tables.slot? ({ d.1 with workers := workers } : Tables) slot.slotId = some slot :=
    d.2.slot?_eq.mpr ⟨hs, rfl⟩
  have hta : Tables.task? ({ d.1 with workers := workers } : Tables) slot.worker slot.generation =
      some a := d.2.task?_eq.mpr ⟨ha, hass.key⟩
  simp only [Tx.wp_bind, wp_look, hf, Tx.wp_fetched, CoordinationStore.admission, Tx.wp_check,
    Tx.wp_ensure, Tx.wp_pure]
  refine ⟨?_, by simp⟩
  rintro _ ⟨⟩
  simp only [hsound.directive]
  refine ⟨fun _ hv => ⟨?_, by simp⟩, fun e he =>
    (S.validateSlotTaskBinding_binding _ slot).benign_false he⟩
  rintro _ ⟨⟩
  have ht := ((CoordinationStore.validateSlotTaskBinding_ok hsound hta hbound hass).mp hv).1
  exact ⟨fun _ => Changes.callStep ((h ht).tail (Change.book workers _)), fun h => (h rfl).elim⟩

theorem mapError_directive {lane : Lane} {generation : Nat} {phase : Phase}
    {reviewId rootEntryId : Option PyStr} {e : StoreError}
    (h : slotDirective lane generation phase reviewId rootEntryId = .error e) :
    ∃ d, e = .directive d := by
  unfold slotDirective at h
  cases hd : coordinationDirective lane generation phase reviewId rootEntryId with
  | ok x => simp [hd, Except.mapError] at h
  | error d =>
    simp only [hd, Except.mapError, Except.error.injEq] at h
    exact ⟨d, h.symm⟩

/-- A reservation freezes its task, inserts its slot, and activates the review it is for. -/
theorem reserve_rule (hc : S.Coherent db.1) {worker uuid : PyStr} {observedAt : Stamp}
    {slotReview : Option ObstacleReview} (hcall : call.Admits worker)
    (h : S.Reserves db.1 worker slotReview) :
    Tx.wp (S.reserveSlot worker (S.workerLane worker) uuid slotReview observedAt)
      (fun _ db' => CallStep S call calm db db') (Benign False db.1) db := by
  simp only [CoordinationStore.reserveSlot, Tx.wp_bind, wp_look, Tx.wp_fetched, Tx.wp_check,
    Tx.wp_ensure, wp_notNull, wp_put]
  refine ⟨fun row hrow => ⟨fun identity hid => ⟨fun hlane => ?_, fun hne => ?_⟩, fun e he => ?_⟩,
    fun _ => by simp⟩
  · obtain ⟨hr, hkey⟩ := db.2.task?_eq.mp hrow
    obtain ⟨hbound, _, rfl⟩ := CoordinationStore.validateGenerationTaskRow_ok.mp hid
    refine wp_freezeTask hr (by simp) fun tasks a ha haf hfz hfrom hkept hval => ?_
    refine ⟨fun directive hdir => ⟨fun at' hat => ⟨fun hval' => ?_, fun _ => by simp⟩,
      fun _ => by simp⟩, fun e he => ?_⟩
    · have hbound' : S.TaskBound a := by
        obtain ⟨f, rfl⟩ := haf
        exact ⟨hbound.lane, hbound.generation, hbound.identity⟩
      have hfza : a.frozenAt ≠ none := hfz (by simp [hat])
      obtain ⟨f, rfl⟩ := haf
      set slot := CoordinationStore.preparedSlot ("slot_".toList ++ uuid) worker
        (S.workerLane worker) db.1.project.generation db.1.project.phase directive row.task
        (row.taskSha256, row.taskBytes) slotReview at' with hslot
      have hsound : S.SlotSound slot := ⟨h.lane, rfl, hdir, rfl, rfl⟩
      have hass : slot.Assigned { row with frozenAt := f } := ⟨hkey, hlane, rfl, rfl, rfl, hfza⟩
      have hfreeze : ({ row with frozenAt := f } : GenerationTask).Timely →
          Changes S call calm db ⟨{ db.1 with tasks := tasks }, hval⟩ :=
        fun ht => .single (Change.freeze hc hr ⟨f, rfl⟩ hfrom hkept ht)
      rcases h.review with ⟨rfl, hph⟩ | ⟨r, hrm, rfl, hst, hph, hcl, hg⟩
      · simp only [CoordinationStore.activateSlotReview, Tx.wp_pure]
        refine wp_reserved (List.mem_append_right _ (List.mem_singleton.mpr rfl)) hsound ha hbound'
          hass fun ht => (hfreeze ht).tail ?_
        exact .reserve hcall hsound rfl ⟨_, ha, hass⟩ rfl ⟨hph, rfl, rfl⟩
      · have hshape := hc.review_shape r hrm
        simp only [ObstacleReview.Shaped, hst] at hshape
        simp only [CoordinationStore.activateSlotReview, CoordinationStore.activateReview,
          Tx.wp_bind, Tx.wp_ensure]
        refine wp_updateRow (·.reviewId) hval'.reviewIds hrm (by simp [hst, hshape.1]) guarded_key
          rfl (by simp) fun _ => ⟨fun _ => ?_, fun h => (h rfl).elim⟩
        refine wp_reserved (List.mem_append_right _ (List.mem_singleton.mpr rfl)) hsound ha hbound'
          hass fun ht => (hfreeze ht).tail ?_
        exact .reserveCritic hcall hsound rfl ⟨_, ha, hass⟩ rfl hph hrm hst
          ⟨hph, hcl, rfl, rfl, rfl, hg.symm⟩
    · obtain ⟨d, rfl⟩ := mapError_directive he
      simp
  · exact (hne ((hc.tasksBound.lane_eq (db.2.task?_eq.mp hrow).1
      (congrArg Prod.fst (db.2.task?_eq.mp hrow).2) h.lane))).elim
  · exact (S.validateGenerationTaskRow_binding row).benign_false he

/-- An eligible lane of a phase that admits can reserve its slot. -/
theorem reserves_of_eligible (hc : S.Coherent t) {worker : PyStr}
    {review : Option ObstacleReview} (hop : t.slots.find? (fun s => s.worker == worker && s.open) = none)
    (hdone : (t.slots.any fun s => s.worker == worker && s.generation == t.project.generation &&
      s.phase == t.project.phase && s.state == .terminal) = false)
    (hph : t.project.phase ≠ .ownerActionRequired)
    (hrev : ∀ r ∈ review, r ∈ t.reviews ∧ r.live = true)
    (hel : S.laneEligible t review worker = true) :
    S.Reserves t worker (if t.project.phase = .criticReview then review else none) := by
  unfold CoordinationStore.laneEligible at hel
  cases hp : t.project.phase with
  | ownerActionRequired => exact (hph hp).elim
  | reasoning =>
    simp only [hp, reduceCtorEq, if_false, decide_eq_true_eq, List.mem_map] at hel ⊢
    obtain ⟨⟨w, l⟩, hm, rfl⟩ := hel
    refine ⟨?_, .inl ⟨rfl, hp⟩⟩
    rw [CoordinationStore.workerLane, (LaneRoster.mem_lanes_iff.mp hm).1]
    exact hm
  | criticReview =>
    cases review with
    | none => simp [hp] at hel
    | some r =>
      simp only [hp, if_true, Bool.and_eq_true, beq_iff_eq, Bool.or_eq_true] at hel ⊢
      obtain ⟨hcl, ⟨hst, hw⟩, hg⟩ := hel
      obtain ⟨hr, hl⟩ := hrev r rfl
      have hlane : (worker, S.workerLane worker) ∈ S.roster.lanes :=
        LaneRoster.mem_lanes_iff.mpr ⟨rfl, by simp [hcl]⟩
      refine ⟨hlane, .inr ⟨r, hr, rfl, ?_, hp, hcl, hg⟩⟩
      rcases hst with h | h
      · exact h
      · -- the slot of an active review is either open or the lane's finished one
        have hshape := hc.review_shape r hr
        simp only [ObstacleReview.Shaped, h] at hshape
        obtain ⟨⟨s, hs, hrs⟩, _⟩ := hshape
        have hsl := (hc.slot_sound s hs).lane
        rw [hrs.lane] at hsl
        rw [hcl] at hlane
        have hsw : s.worker = worker := S.roster.worker_of_lane hsl hlane
        cases ho : s.open with
        | true =>
          have := Rows.find_none.mp hop s hs
          simp [hsw, ho] at this
        | false =>
          rw [List.any_eq_false] at hdone
          have := hdone s hs
          simp [hsw, hrs.generation, hg, hrs.phase, hp, RoundSlot.not_open_iff.mp ho] at this

/-- Whatever review is active is a live one. -/
theorem wp_activeReview_live (hc : S.Coherent db.1) {Q : Option ObstacleReview → Database → Prop}
    (hQ : ∀ review : Option ObstacleReview, (∀ r ∈ review, r ∈ db.1.reviews ∧ r.live = true) →
      Q review db) : Tx.wp activeReview Q E db := by
  refine wp_activeReview hc (fun _ => hQ none (by simp)) fun r hr _ hl => hQ (some r) ?_
  rintro _ ⟨⟩
  exact ⟨hr, hl⟩

/-- A worker without an open slot waits, or reserves one. -/
theorem admitFresh_rule (hc : S.Coherent db.1) {worker uuid : PyStr} {observedAt : Stamp}
    (hcall : call.Admits worker)
    (hop : db.1.slots.find? (fun s => s.worker == worker && s.open) = none) :
    Tx.wp (S.admitFresh worker (S.workerLane worker) uuid observedAt)
      (fun _ db' => CallStep S call calm db db') (Benign False db.1) db := by
  have hwait : ∀ state, Tx.wp
      (writeWorkerState worker (S.workerLane worker) state db.1.project.generation
        db.1.project.phase observedAt)
      (fun _ db' => CallStep S call calm db db') (Benign False db.1) db := fun state =>
    wp_writeWorkerState (by simp) fun _ workers _ _ =>
      Changes.callStep (.single (Change.book workers _))
  simp only [CoordinationStore.admitFresh, Tx.wp_bind, wp_look]
  refine wp_activeReview_live hc fun review hrev => ?_
  simp only [Tx.wp_ite, Tx.wp_bind, Tx.wp_pure]
  refine ⟨fun _ => hwait _, fun h1 => ⟨fun _ => hwait _, fun h2 => ?_⟩⟩
  simp only [not_or, Bool.not_eq_false, Bool.not_eq_true] at h1 h2
  exact reserve_rule hc hcall (reserves_of_eligible hc hop h2.1 h1.2.1 hrev h1.1)

/-- Admission, to a worker with or without an open slot. -/
theorem admit_rule (hc : S.Coherent db.1) {worker uuid : PyStr} {observedAt : Stamp}
    (hcalm : calm → ¬ S.Disturbs db.1 (.admitWorker worker uuid observedAt)) :
    Tx.wp (S.admitWorker worker uuid observedAt)
      (fun _ db' => CallStep S (.admitWorker worker uuid observedAt) calm db db')
      (Benign (calm ∧ (db.1.slots.any fun s => s.worker == worker && s.open) = true) db.1) db := by
  simp only [CoordinationStore.admitWorker, Tx.wp_bind, wp_look]
  refine wp_validateIdentifier (by simp) fun _ => ?_
  cases hf : db.1.slots.find? fun s => s.worker == worker && s.open with
  | none =>
    refine Tx.wp_mono (admitFresh_rule hc ⟨_, _, rfl⟩ hf) (fun _ _ h => h) fun e he => he.mono ?_
    rintro ⟨_, h⟩
    obtain ⟨s, hs, hso⟩ := List.any_eq_true.mp h
    simp [Rows.find_none.mp hf s hs] at hso
  | some slot =>
    obtain ⟨hs, hso⟩ := Rows.mem_of_find hf
    simp only [Tx.wp_ite, Tx.wp_bind, Tx.wp_pure]
    refine ⟨fun hx => ?_, fun hx => ?_⟩
    · refine Tx.wp_mono (expire_rule hc hs hx.2 hcalm ?_) (fun _ _ h => h)
        fun e he => he.mono And.left
      simp [StoreCall.attempt, hf, hx.1, hx.2]
    · refine wp_writeWorkerState (by simp) fun _ workers _ hw => ?_
      exact Tx.wp_mono (Changes.admission hc (.single (Change.book workers _)) hs)
        (fun _ _ h => h) fun e he => he.mono And.left

/-- Pinning binds a prompt to its slot once. -/
theorem pinPrompt_rule (hc : S.Coherent db.1) {slotId prompt : PyStr} :
    Tx.wp (S.pinPrompt slotId prompt) (fun _ db' => CallStep S call calm db db')
      (Benign calm db.1) db := by
  simp only [CoordinationStore.pinPrompt, Tx.wp_bind, wp_look]
  refine wp_validateIdentifier (by simp) fun _ => ?_
  simp only [Tx.wp_ensure, Tx.wp_fetched, Tx.wp_check, Tx.wp_when, Tx.wp_bind]
  refine ⟨fun hne => ⟨fun hlen => ⟨fun row hrow => ⟨fun _ _ => ⟨fun hb => ⟨fun hnone => ?_,
    fun _ => ?_⟩, by simp⟩, fun e he => ?_⟩, by simp⟩, by simp⟩, by simp⟩
  all_goals
    obtain ⟨hso, ho⟩ := Option.filter_eq_some_iff.mp hrow
    obtain ⟨hs, rfl⟩ := db.2.slot?_eq.mp hso
  · have hm : SlotMove calm row { row with
        prompt := some prompt, promptSha256 := some (Sha256.hexdigest (encodeUtf8 prompt))
        promptTaskSha256 := row.taskSha256 } := .pin hnone hne hlen hb
    refine wp_updateRow (·.slotId) db.2.slotIds hs (by simp [hnone]) guarded_key rfl (by simp)
      fun _ => ?_
    exact Changes.rejoin hc (.single (Change.slot hs hm)) ⟨_, Rows.mem_set_self hs rfl, rfl⟩
      fun _ _ h => h
  · exact Changes.rejoin hc .refl ⟨row, hs, rfl⟩ fun _ _ h => h
  · exact hc.validateSlot_benign db.2 hs he

/-- What a call raises after its commit is benign. -/
def Settled {α : Type} (calm : Prop) (t : Tables) (r : Except StoreError α) : Prop :=
  ∀ e, r = .error e → Benign calm t e

theorem settled_ok {α : Type} {a : α} : Settled calm t (.ok a) := by
  intro e he
  cases he

/-- Activation dispatches a pinned slot, or expires it. -/
theorem activate_rule (hc : S.Coherent db.1) {slotId : PyStr} {now : Stamp}
    (hcalm : calm → ¬ S.Disturbs db.1 (.activate slotId now)) :
    Tx.wp (S.activateBody slotId now)
      (fun r db' => CallStep S (.activate slotId now) calm db db' ∧ Settled calm db.1 r)
      (Benign calm db.1) db := by
  simp only [CoordinationStore.activateBody, Tx.wp_bind, wp_look]
  refine wp_validateIdentifier (by simp) fun _ => ?_
  simp only [Tx.wp_ensure, Tx.wp_fetched, Tx.wp_check, Tx.wp_ite, Tx.wp_when, Tx.wp_bind,
    Tx.wp_pure]
  refine ⟨fun row hrow => ⟨fun _ _ => ⟨fun hp => ⟨fun hx => ?_, fun hx => ⟨fun hst => ?_,
    fun hst => ?_⟩⟩, by simp⟩, fun e he => ?_⟩, by simp⟩
  all_goals
    obtain ⟨hso, ho⟩ := Option.filter_eq_some_iff.mp hrow
    obtain ⟨hs, rfl⟩ := db.2.slot?_eq.mp hso
  · refine Tx.wp_mono (expire_rule hc hs hx.1 hcalm ?_) (fun _ _ h => ⟨h, ?_⟩) fun _ h => h
    · simp [StoreCall.attempt, hso, hx.1, hx.2]
    · rintro _ ⟨⟩
      simp
  · refine wp_updateRow (·.slotId) db.2.slotIds hs (by simp [hst]) guarded_key rfl (by simp)
      fun _ => ?_
    exact Changes.rejoin hc (.single (Change.slot hs (.activate hst hp.1)))
      ⟨_, Rows.mem_set_self hs rfl, rfl⟩ fun _ _ h => ⟨h, settled_ok⟩
  · exact Changes.rejoin hc .refl ⟨row, hs, rfl⟩ fun _ _ h => ⟨h, settled_ok⟩
  · exact hc.validateSlot_benign db.2 hs he

/-- Ambiguity is recorded of any open slot, pinned or not. -/
theorem markAmbiguous_rule (hc : S.Coherent db.1) {slotId : PyStr} {clock : Int}
    (hcalm : calm → ¬ S.Disturbs db.1 (.markAmbiguous slotId clock)) :
    Tx.wp (CoordinationStore.markAmbiguous S slotId (some (.fin clock)))
      (fun _ db' => CallStep S (.markAmbiguous slotId clock) calm db db') (Benign calm db.1) db := by
  simp only [CoordinationStore.markAmbiguous, Tx.wp_bind, wp_look]
  refine wp_validateIdentifier (by simp) fun _ => ?_
  simp only [Tx.wp_ensure, Tx.wp_fetched, Tx.wp_check]
  refine ⟨fun row hrow => ⟨fun _ _ => ?_, fun e he => ?_⟩, by simp⟩
  all_goals
    obtain ⟨hso, ho⟩ := Option.filter_eq_some_iff.mp hrow
    obtain ⟨hs, rfl⟩ := db.2.slot?_eq.mp hso
  · refine wp_updateRow (·.slotId) db.2.slotIds hs (by simp [ho]) guarded_key rfl (by simp)
      fun _ => ⟨fun _ => ?_, fun h => (h rfl).elim⟩
    refine wp_writeWorkerState (by simp) fun _ workers _ _ => Changes.callStep ?_
    refine .tail (.single (Change.slot hs (.ambiguous ho ?_))) (.book workers _)
    intro hcm hst hp
    exact hcalm hcm (.unpinned hso hst hp)
  · exact hc.validateSlot_benign db.2 hs he

/-- The review of a finished critic slot keeps its terminal time. -/
theorem wp_recordReviewTerminal (call : StoreCall) {d : Database} {s s' : RoundSlot} {terminalAt : Stamp}
    {Q : Unit → Database → Prop} (hc : S.Coherent db.1) (hs : s ∈ db.1.slots)
    (ho : s.open = true) (hm : SlotMove calm s s')
    (hd : d.1 = { db.1 with slots := Rows.set (·.slotId) s' db.1.slots }) (hE : E .sqlite)
    (hQ : ∀ d' : Database, Changes S call calm db d' →
      (∃ reviews, d'.1 = { d.1 with reviews := reviews }) → Q () d') :
    Tx.wp (CoordinationStore.recordReviewTerminal s terminalAt) Q E d := by
  have hslot : Changes S call calm db d := .one (by rw [hd]; exact .slot hs hm)
  simp only [CoordinationStore.recordReviewTerminal, Tx.wp_when, Tx.wp_bind, Tx.wp_ensure]
  refine ⟨fun h => ?_, fun _ => hQ d hslot ⟨_, rfl⟩⟩
  rcases hc.slot_phase s hs with hp | ⟨r, hr, hrs⟩
  · exact (h.2 hp.reviewId).elim
  · have hst := (hc.review_of_current hr hrs (hc.open_current s hs ho)).2
    have hrd : r ∈ d.1.reviews := by rw [hd]; exact hr
    refine wp_updateRow (·.reviewId) d.2.reviewIds hrd ?_ ?_ rfl hE
      fun _ => ⟨fun _ => ?_, fun h => (h rfl).elim⟩
    · rcases hst with h | h <;> simp [hrs.review, hrs.critic, h]
    · intro x _ hx
      simp only [hrs.review, Option.some.injEq, Bool.and_eq_true, decide_eq_true_eq] at hx
      exact hx.1
    · refine hQ _ (hslot.tail (.retime (fun x hx => ?_) fun x hx => ?_)) ⟨_, rfl⟩
      · exact Rows.exists_set_of_mem d.2.reviewIds hrd rfl .refl ⟨_, _, rfl⟩ hx
      · exact Rows.exists_of_mem_set hrd .refl ⟨_, _, rfl⟩ hx

/-- Completion finishes the slot and its review's receipt, and attempts the advance. -/
theorem complete_rule (hc : S.Coherent db.1) {slotId outcome : PyStr} {now : Stamp} {clock : Int}
    (hcalm : calm → ¬ S.Disturbs db.1 (.complete slotId outcome now clock)) :
    Tx.wp (S.completeBody slotId outcome now)
      (fun _ db' => CallStep S (.complete slotId outcome now clock) calm db db')
      (Benign calm db.1) db := by
  simp only [CoordinationStore.completeBody, Tx.wp_bind, wp_look]
  refine wp_validateIdentifier (by simp) fun _ => ?_
  simp only [Tx.wp_ensure, Tx.wp_fetched, Tx.wp_check, Tx.wp_bind, Tx.wp_ite, Tx.wp_pure]
  refine ⟨fun _ => ⟨fun _ => ⟨fun slot hso => ⟨fun _ _ => ⟨fun _ => ⟨fun _ => ?_, by simp⟩,
    fun hst => ?_⟩, fun e he => ?_⟩, by simp⟩, by simp⟩, by simp⟩
  · exact Changes.callStep .refl
  all_goals
    obtain ⟨hs, rfl⟩ := db.2.slot?_eq.mp hso
  · have ho : slot.open = true := by simpa [RoundSlot.open] using hst
    have hm : SlotMove calm slot { slot with
        state := .terminal, terminalAt := now, outcome := some outcome } := .finish ho
    refine wp_updateRow (·.slotId) db.2.slotIds hs (by simp) (by simp) rfl (by simp) fun _ => ?_
    refine wp_recordReviewTerminal (.complete slot.slotId outcome now clock) hc hs ho hm rfl
      (by simp) fun d hd hdr => ?_
    obtain ⟨reviews, hdr⟩ := hdr
    have hproj : d.1.project = db.1.project := by rw [hdr]
    have hcand : d.1.candidates = db.1.candidates := by rw [hdr]
    refine wp_writeWorkerState (by simp) fun _ workers _ _ => ?_
    refine Tx.wp_mono (Changes.advance hc (hd.tail (.book workers _)) ?_) (fun _ _ h => h.1)
      fun _ h => h
    have hat : (StoreCall.complete slot.slotId outcome now clock).attempt db.1 =
        some (db.1.finished slot.slotId, now) := by simp [StoreCall.attempt, hso, ho]
    refine CoordinationStore.calmAdvance_of_attempt hcalm hat ?_
    exact CoordinationStore.EndsGeneration.finished hs hm.continues
      (congrArg Tables.slots hdr) hproj hcand
  · exact hc.validateSlot_benign db.2 hs he
end Danus.Coordination
