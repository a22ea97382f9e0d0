import Danus.Coordination.Admissions

/-! What becomes of one slot from call to call, and what the replies about a slot say of its row. -/
namespace Danus.Coordination
open Python Transaction

variable {S : CoordinationStore} {call : StoreCall} {calm : Prop} {db db' : Database}
  {s s' : RoundSlot}

/-- A later version of a slot, which was not put back before its activation. -/
structure RoundSlot.Lives (s s' : RoundSlot) : Prop extends s.Continues s' where
  dispatched : s.state ≠ .prepared → s'.state ≠ .prepared

theorem RoundSlot.Lives.refl (s : RoundSlot) : s.Lives s := ⟨.refl s, id⟩

theorem RoundSlot.Lives.trans {s'' : RoundSlot} (h : s.Lives s') (h' : s'.Lives s'') : s.Lives s'' where
  slotId := h'.slotId.trans h.slotId
  worker := h'.worker.trans h.worker
  lane := h'.lane.trans h.lane
  generation := h'.generation.trans h.generation
  phase := h'.phase.trans h.phase
  directive := h'.directive.trans h.directive
  legacy := h'.legacy.trans h.legacy
  task := h'.task.trans h.task
  taskSha256 := h'.taskSha256.trans h.taskSha256
  taskBytes := h'.taskBytes.trans h.taskBytes
  reviewId := h'.reviewId.trans h.reviewId
  designated := h'.designated.trans h.designated
  opened := fun ho => h.opened (h'.opened ho)
  closed := fun hc => h'.closed (h.closed hc)
  sound := fun hs => h'.sound (h.sound hs)
  dispatched := fun hp => h'.dispatched (h.dispatched hp)

theorem SlotMove.lives (h : SlotMove calm s s') : s.Lives s' := by
  refine ⟨h.continues, fun hp => ?_⟩
  cases h with
  | pin => exact hp
  | activate hs _ => exact (hp hs).elim
  | ambiguous => simp
  | finish => simp

/-- Every slot goes on living through a call. -/
theorem CallStep.slot_lives (h : CallStep S call calm db db') :
    ∀ s ∈ db.1.slots, ∃ s' ∈ db'.1.slots, s.Lives s' := by
  have changes : ∀ u, Changes S call calm db u →
      ∀ s ∈ db.1.slots, ∃ s' ∈ u.1.slots, s.Lives s' := by
    intro u hu
    induction hu with
    | refl => exact fun s hs => ⟨s, hs, .refl s⟩
    | @tail d d' _ hstep ih =>
      obtain ⟨t', hv'⟩ := d'
      intro s hs
      obtain ⟨x, hx, hl⟩ := ih s hs
      cases hstep with
      | @slot y y' hy hm =>
        by_cases he : x.slotId = y'.slotId
        · obtain rfl : x = y := Rows.eq_of_key d.2.slotIds hx hy (he.trans hm.continues.slotId)
          exact ⟨y', Rows.mem_set_self hy hm.continues.slotId.symm, hl.trans hm.lives⟩
        · exact ⟨x, Rows.mem_set_of_ne hx he, hl⟩
      | reserve => exact ⟨x, List.mem_append_left _ hx, hl⟩
      | reserveCritic => exact ⟨x, List.mem_append_left _ hx, hl⟩
      | _ => exact ⟨x, hx, hl⟩
  obtain ⟨u, hu, rfl | ht⟩ := h
  · exact changes _ hu
  · rw [ht.keeps.1]
    exact changes u hu

/-- A slot of a known id is the later version of the slot of that id. -/
theorem CallStep.slot_known (h : CallStep S call calm db db') (hs : s ∈ db.1.slots)
    (hs' : s' ∈ db'.1.slots) (he : s'.slotId = s.slotId) : s.Lives s' := by
  obtain ⟨x, hx, hl⟩ := h.slot_lives s hs
  rwa [Rows.eq_of_key db'.2.slotIds hs' hx (he.trans hl.slotId.symm)]

/-- What an admission says of the row it was made from. -/
structure Admission.Reads (a : Admission) (s : RoundSlot) (resumed : Bool) : Prop where
  slotId : a.slotId = s.slotId
  worker : a.worker = s.worker
  lane : a.lane = s.lane
  generation : a.generation = s.generation
  prompt : a.prompt = s.prompt
  promptSha256 : a.promptSha256 = s.promptSha256
  state : a.state = s.state
  resumed : a.resumed = resumed

theorem admission_reply {row : RoundSlot} {resumed : Bool} :
    Tx.wp (S.admission row resumed) (fun a d => d = db ∧ a.Reads row resumed) (fun _ => True) db := by
  simp only [CoordinationStore.admission, Tx.wp_bind, wp_look, Tx.wp_check, Tx.wp_ensure, Tx.wp_pure]
  refine ⟨fun _ _ => ⟨fun _ _ => ⟨fun _ => ⟨trivial, ?_⟩, fun _ => trivial⟩, fun _ _ => trivial⟩,
    fun _ _ => trivial⟩
  exact ⟨rfl, rfl, rfl, rfl, rfl, rfl, rfl, rfl⟩

/-- An admission replies with an open slot of the worker: one it found, or a new one. -/
def Admitted (worker : PyStr) (before after : Tables) (a : Admission) : Prop :=
  ∃ s ∈ after.slots, a.Reads s a.resumed ∧ s.worker = worker ∧ s.open = true ∧
    (a.resumed = true ∧ s ∈ before.slots ∨
      a.resumed = false ∧ ∀ x ∈ before.slots, x.slotId ≠ s.slotId)

theorem admitted_reply {slot : RoundSlot} {observedAt : Stamp} (hs : slot ∈ db.1.slots) :
    Tx.wp (S.admitted slot observedAt)
      (fun a d => d.1.slots = db.1.slots ∧ a.Reads slot false) (fun _ => True) db := by
  rw [CoordinationStore.admitted, Tx.wp_bind]
  refine wp_writeWorkerState trivial fun _ workers _ hw => ?_
  simp only [Tx.wp_bind, wp_look, Tx.wp_fetched]
  refine ⟨fun row hrow => ?_, fun _ => trivial⟩
  obtain rfl : row = slot := by
    obtain ⟨hm, he⟩ := hw.slot?_eq.mp hrow
    exact Rows.eq_of_key db.2.slotIds hm hs he
  refine Tx.wp_mono admission_reply ?_ fun _ h => h
  rintro a _ ⟨rfl, ha⟩
  exact ⟨rfl, ha⟩

theorem reserveSlot_reply {worker uuid : PyStr} {lane : Lane} {slotReview : Option ObstacleReview}
    {observedAt : Stamp} :
    Tx.wp (S.reserveSlot worker lane uuid slotReview observedAt)
      (fun a d => Admitted worker db.1 d.1 a) (fun _ => True) db := by
  simp only [CoordinationStore.reserveSlot, Tx.wp_bind, wp_look, Tx.wp_fetched, Tx.wp_check,
    Tx.wp_ensure, wp_notNull, wp_put]
  refine ⟨fun row hrow => ⟨fun identity _ => ⟨fun _ => ?_, fun _ => trivial⟩, fun _ _ => trivial⟩,
    fun _ => trivial⟩
  refine wp_freezeTask (db.2.task?_eq.mp hrow).1 trivial fun tasks _ _ _ _ _ _ _ => ?_
  refine ⟨fun directive _ => ⟨fun at' _ => ⟨fun hv => ?_, fun _ => trivial⟩, fun _ => trivial⟩,
    fun _ _ => trivial⟩
  refine Tx.wp_mono activateSlotReview_slots (fun _ d hd => ?_) fun _ h => h
  have hmem : CoordinationStore.preparedSlot ("slot_".toList ++ uuid) worker lane
      db.1.project.generation db.1.project.phase directive row.task identity slotReview at' ∈ d.1.slots := by
    rw [hd]
    exact List.mem_append_right _ (List.mem_singleton.mpr rfl)
  refine Tx.wp_mono (admitted_reply hmem) ?_ fun _ h => h
  rintro a d' ⟨hd', ha⟩
  refine ⟨_, by rw [hd']; exact hmem, by rw [ha.resumed]; exact ha, rfl, rfl, .inr ⟨ha.resumed, ?_⟩⟩
  intro x hx
  have hn := hv.slotIds
  rw [List.map_append, List.nodup_append] at hn
  exact hn.2.2 _ (List.mem_map_of_mem hx) _ (List.mem_map_of_mem (List.mem_singleton.mpr rfl))

theorem admit_reply (hc : S.Coherent db.1) {worker uuid : PyStr} {now : Stamp} {a : Admission}
    (h : S.perform (.admitWorker worker uuid now) db = (.ok (.admission (some a)), db')) :
    Admitted worker db.1 db'.1 a := by
  have hw : Tx.wp (S.admitWorker worker uuid now)
      (fun r d => ∀ a ∈ r, Admitted worker db.1 d.1 a) (fun _ => True) db := by
    have hnone : ∀ (lane : Lane) (state : AdmissionState) (generation : Nat) (phase : Phase),
        Tx.wp (writeWorkerState worker lane state generation phase now)
          (fun _ d => ∀ a ∈ (none : Option Admission), Admitted worker db.1 d.1 a) (fun _ => True) db :=
      fun _ _ _ _ => wp_writeWorkerState trivial fun _ _ _ _ => by simp
    simp only [CoordinationStore.admitWorker, Tx.wp_bind, wp_look]
    refine wp_validateIdentifier (by simp) fun _ => ?_
    cases hf : db.1.slots.find? fun s => s.worker == worker && s.open with
    | none =>
      simp only [CoordinationStore.admitFresh, Tx.wp_bind, wp_look]
      refine wp_activeReview_live hc fun review _ => ?_
      simp only [Tx.wp_ite, Tx.wp_bind, Tx.wp_pure]
      refine ⟨fun _ => hnone _ _ _ _, fun _ => ⟨fun _ => hnone _ _ _ _, fun _ => ?_⟩⟩
      refine Tx.wp_mono reserveSlot_reply ?_ fun _ h => h
      rintro a d ha _ ⟨⟩
      exact ha
    | some slot =>
      obtain ⟨hslot, hp⟩ := Rows.mem_of_find hf
      simp only [Bool.and_eq_true, beq_iff_eq] at hp
      simp only [Tx.wp_ite, Tx.wp_bind, Tx.wp_pure]
      refine ⟨fun _ => Tx.wp_always (fun _ _ => by simp) fun _ => trivial, fun _ => ?_⟩
      refine wp_writeWorkerState trivial fun _ workers _ hw => ?_
      refine Tx.wp_mono admission_reply ?_ fun _ h => h
      rintro a _ ⟨rfl, ha⟩ _ ⟨⟩
      exact ⟨slot, hslot, by rw [ha.resumed]; exact ha, hp.1, hp.2, .inl ⟨ha.resumed, hslot⟩⟩
  simp only [CoordinationStore.perform, committed] at h
  rcases Tx.wp_run hw with ⟨r, d, hx, hq⟩ | ⟨_, hx, _⟩
  · rw [hx] at h
    cases h
    exact hq a rfl
  · rw [hx] at h
    cases h

/-- Pinning replies about the slot it was asked for. -/
theorem pin_reply {slotId prompt : PyStr} {a : Admission}
    (h : S.perform (.pinPrompt slotId prompt) db = (.ok (.admission (some a)), db')) :
    a.slotId = slotId := by
  have hw : Tx.wp (S.pinPrompt slotId prompt) (fun a _ => a.slotId = slotId) (fun _ => True) db := by
    simp only [CoordinationStore.pinPrompt, Tx.wp_bind, wp_look]
    refine wp_validateIdentifier (by simp) fun _ => ?_
    simp only [Tx.wp_ensure, Tx.wp_fetched, Tx.wp_check, Tx.wp_when, Tx.wp_bind, updateSlots,
      wp_updateRows, Tx.wp_pure]
    have hjoin : ∀ (d : Database) (row : RoundSlot) (resumed : Bool), d.1.slot? slotId = some row →
        Tx.wp (S.admission row resumed) (fun a _ => a.slotId = slotId) (fun _ => True) d := by
      intro d row resumed hrow
      refine Tx.wp_mono admission_reply ?_ fun _ h => h
      rintro a _ ⟨-, ha⟩
      exact ha.slotId.trans (d.2.slot?_eq.mp hrow).2
    refine ⟨fun _ => ⟨fun _ => ⟨fun row _ => ⟨fun _ _ => ⟨fun _ => ⟨fun _ => ⟨fun hv => ?_, fun _ => trivial⟩,
      fun _ => ?_⟩, fun _ => trivial⟩, fun _ _ => trivial⟩, fun _ => trivial⟩, fun _ => trivial⟩,
      fun _ => trivial⟩
    · exact ⟨fun joined hj => hjoin ⟨_, hv⟩ joined _ hj, fun _ => trivial⟩
    · exact ⟨fun joined hj => hjoin db joined _ hj, fun _ => trivial⟩
  simp only [CoordinationStore.perform, committed] at h
  rcases Tx.wp_run hw with ⟨r, d, hx, hq⟩ | ⟨_, hx, _⟩
  · rw [hx] at h
    cases h
    exact hq
  · rw [hx] at h
    cases h

/-- Activation replies about the slot it was asked for, which is prepared no more. -/
theorem activate_reply {slotId : PyStr} {now : Stamp} {a : Admission}
    (h : S.perform (.activate slotId now) db = (.ok (.admission (some a)), db')) :
    a.slotId = slotId ∧ ∃ s ∈ db'.1.slots, s.slotId = slotId ∧ s.state ≠ .prepared := by
  have hw : Tx.wp (S.activateBody slotId now)
      (fun r d => ∀ a, r = .ok a → a.slotId = slotId ∧
        ∃ s ∈ d.1.slots, s.slotId = slotId ∧ s.state ≠ .prepared) (fun _ => True) db := by
    simp only [CoordinationStore.activateBody, Tx.wp_bind, wp_look]
    refine wp_validateIdentifier (by simp) fun _ => ?_
    simp only [Tx.wp_ensure, Tx.wp_fetched, Tx.wp_check, Tx.wp_ite, Tx.wp_when, Tx.wp_bind,
      Tx.wp_pure]
    have hjoin : ∀ (d : Database) (row : RoundSlot) (resumed : Bool), d.1.slot? slotId = some row →
        row.state ≠ .prepared →
        Tx.wp (S.admission row resumed) (fun a d => ∀ a', (.ok a : Except StoreError Admission) = .ok a' →
          a'.slotId = slotId ∧ ∃ s ∈ d.1.slots, s.slotId = slotId ∧ s.state ≠ .prepared)
          (fun _ => True) d := by
      intro d row resumed hrow hst
      obtain ⟨hm, hid⟩ := d.2.slot?_eq.mp hrow
      refine Tx.wp_mono admission_reply ?_ fun _ h => h
      rintro a _ ⟨rfl, ha⟩ _ ⟨⟩
      exact ⟨ha.slotId.trans hid, row, hm, hid, hst⟩
    refine ⟨fun row hrow => ⟨fun _ _ => ⟨fun _ => ⟨fun _ => ?_, fun _ => ⟨fun hst => ?_, fun hst => ?_⟩⟩,
      fun _ => trivial⟩, fun _ _ => trivial⟩, fun _ => trivial⟩
    all_goals
      obtain ⟨hso, ho⟩ := Option.filter_eq_some_iff.mp hrow
      obtain ⟨hs, rfl⟩ := db.2.slot?_eq.mp hso
    · exact Tx.wp_always (fun _ _ => by simp) fun _ => trivial
    · refine wp_updateRow (·.slotId) db.2.slotIds hs (by simp [hst]) guarded_key rfl (by simp)
        fun hv => ⟨fun joined hj => ?_, fun _ => trivial⟩
      refine hjoin ⟨_, hv⟩ joined _ hj ?_
      obtain ⟨hm, hid⟩ := hv.slot?_eq.mp hj
      rcases Rows.mem_set_cases hm with rfl | ⟨_, hne⟩
      · simp
      · exact (hne hid).elim
    · exact ⟨fun joined hj => hjoin db joined _ hj (by rwa [Option.some.inj (hj.symm.trans hso)]),
        fun _ => trivial⟩
  simp only [CoordinationStore.perform, committedThen] at h
  rcases Tx.wp_runThen hw with ⟨r, d, hx, hq⟩ | ⟨_, hx, _⟩
  · rw [hx] at h
    cases r with
    | error e => cases h
    | ok a' =>
      cases h
      exact hq _ rfl
  · rw [hx] at h
    cases h

end Danus.Coordination
