import Danus.Coordination.Admissions

/-! Which task a generation assigns to a worker, and that it stays the one its slots run. -/
namespace Danus.Coordination
open Python Transaction Machines

variable {S : CoordinationStore} {call : StoreCall} {calm : Prop} {t t' : Tables}
  {db db' : Database}

/-- The lane, the task bytes, their digest and their count that a generation assigns to a worker. -/
def Tables.assignment (t : Tables) (worker : PyStr) (generation : Nat) :
    Option (Lane × PyStr × PyStr × Nat) :=
  (t.task? worker generation).map fun a => (a.lane, a.task, a.taskSha256, a.taskBytes)

/-- The generation's task of the worker is settled: it was frozen, or a slot was admitted for it. -/
def Tables.Settles (t : Tables) (worker : PyStr) (generation : Nat) : Prop :=
  (∃ a ∈ t.tasks, a.key = (worker, generation) ∧ a.frozenAt ≠ none) ∨
    ∃ s ∈ t.slots, s.worker = worker ∧ s.generation = generation

/-- The slot runs the frozen task of its generation and lane. -/
def Tables.Runs (t : Tables) (s : RoundSlot) : Prop :=
  ∃ a ∈ t.tasks, a.key = (s.worker, s.generation) ∧ a.frozenAt ≠ none ∧ a.lane = s.lane ∧
    s.task = some a.task ∧ s.taskSha256 = some a.taskSha256 ∧ s.taskBytes = some a.taskBytes

theorem RoundSlot.Continues.trans {s s' s'' : RoundSlot} (h : s.Continues s')
    (h' : s'.Continues s'') : s.Continues s'' where
  slotId := h'.slotId.trans h.slotId
  worker := h'.worker.trans h.worker
  lane := h'.lane.trans h.lane
  generation := h'.generation.trans h.generation
  phase := h'.phase.trans h.phase
  directive := h'.directive.trans h.directive
  legacy := h'.legacy.trans h.legacy
  task := h'.task.trans h.task
  taskSha256 := h'.taskSha256.trans h.taskSha256
  taskBytes := h'.taskBytes.trans h.taskBytes
  reviewId := h'.reviewId.trans h.reviewId
  designated := h'.designated.trans h.designated
  opened := h.opened ∘ h'.opened
  closed := h'.closed ∘ h.closed
  sound := h'.sound ∘ h.sound

theorem GenerationTask.Continues.trans {a a' a'' : GenerationTask} (h : a.Continues a')
    (h' : a'.Continues a'') : a.Continues a'' where
  key := h'.key.trans h.key
  lane := h'.lane.trans h.lane
  task := h'.task.trans h.task
  taskSha256 := h'.taskSha256.trans h.taskSha256
  taskBytes := h'.taskBytes.trans h.taskBytes
  frozen := h'.frozen

/-- A frozen task survives every change. -/
theorem Change.tasks_continue (h : Change S call calm t t') :
    ∀ a ∈ t.tasks, a.frozenAt ≠ none → ∃ a' ∈ t'.tasks, a.Continues a' := by
  intro a ha hf
  cases h with
  | tasks _ hk _ => exact hk a ha hf
  | _ => exact ⟨a, ha, .refl hf⟩

theorem Turn.tasks_continue (h : Turn S call calm t t') :
    ∀ a ∈ t.tasks, a.frozenAt ≠ none → ∃ a' ∈ t'.tasks, a.Continues a' := by
  intro a ha hf
  cases h with
  | advance _ _ _ _ hn _ _ _ => exact hn.kept a ha hf
  | resolve _ _ _ _ _ _ hn _ _ _ => exact hn.kept a ha hf
  | _ => exact ⟨a, ha, .refl hf⟩

/-- One call keeps every frozen task and moves every slot along. -/
theorem CallStep.continue (h : CallStep S call calm db db') :
    (∀ a ∈ db.1.tasks, a.frozenAt ≠ none → ∃ a' ∈ db'.1.tasks, a.Continues a') ∧
    ∀ s ∈ db.1.slots, ∃ s' ∈ db'.1.slots, s.Continues s' := by
  have changes : ∀ u, Changes S call calm db u →
      (∀ a ∈ db.1.tasks, a.frozenAt ≠ none → ∃ a' ∈ u.1.tasks, a.Continues a') ∧
      ∀ s ∈ db.1.slots, ∃ s' ∈ u.1.slots, s.Continues s' := by
    intro u hu
    induction hu with
    | refl => exact ⟨fun a ha hf => ⟨a, ha, .refl hf⟩, fun s hs => ⟨s, hs, .refl s⟩⟩
    | tail _ hstep ih =>
      refine ⟨fun a ha hf => ?_, fun s hs => ?_⟩
      · obtain ⟨b, hb, hab⟩ := ih.1 a ha hf
        obtain ⟨c, hc, hbc⟩ := hstep.tasks_continue b hb hab.frozen
        exact ⟨c, hc, hab.trans hbc⟩
      · obtain ⟨x, hx, hsx⟩ := ih.2 s hs
        obtain ⟨y, hy, hxy⟩ := hstep.slots_continue (Subtype.property _) x hx
        exact ⟨y, hy, hsx.trans hxy⟩
  obtain ⟨u, hu, rfl | ht⟩ := h
  · exact changes _ hu
  · obtain ⟨htasks, hslots⟩ := changes u hu
    refine ⟨fun a ha hf => ?_, ?_⟩
    · obtain ⟨b, hb, hab⟩ := htasks a ha hf
      obtain ⟨c, hc, hbc⟩ := ht.tasks_continue b hb hab.frozen
      exact ⟨c, hc, hab.trans hbc⟩
    · rw [ht.keeps.1]
      exact hslots

theorem Tables.Valid.assignment_eq (hv : t.Valid) {a : GenerationTask} {w : PyStr} {g : Nat}
    (ha : a ∈ t.tasks) (hk : a.key = (w, g)) :
    t.assignment w g = some (a.lane, a.task, a.taskSha256, a.taskBytes) := by
  rw [Tables.assignment, hv.task?_eq.mpr ⟨ha, hk⟩, Option.map_some]

/-- A settled task is a frozen row. -/
theorem CoordinationStore.Coherent.settled_frozen (hc : S.Coherent t) {w : PyStr} {g : Nat}
    (h : t.Settles w g) : ∃ a ∈ t.tasks, a.key = (w, g) ∧ a.frozenAt ≠ none := by
  rcases h with h | ⟨s, hs, rfl, rfl⟩
  · exact h
  · obtain ⟨a, ha, hsa⟩ := hc.slot_task s hs
    exact ⟨a, ha, hsa.key, hsa.frozen⟩

/-- One call keeps what is settled. -/
theorem CallStep.settled (hc : S.Coherent db.1) (h : CallStep S call calm db db') {w : PyStr}
    {g : Nat} (hs : db.1.Settles w g) :
    db'.1.Settles w g ∧ db'.1.assignment w g = db.1.assignment w g := by
  obtain ⟨a, ha, hk, hf⟩ := hc.settled_frozen hs
  obtain ⟨a', ha', haa⟩ := h.continue.1 a ha hf
  have hk' : a'.key = (w, g) := haa.key.trans hk
  refine ⟨.inl ⟨a', ha', hk', haa.frozen⟩, ?_⟩
  rw [db.2.assignment_eq ha hk, db'.2.assignment_eq ha' hk', haa.lane, haa.task, haa.taskSha256,
    haa.taskBytes]

/-- A terminal slot was there before the call, in the same round. -/
theorem terminal_slot_from (hc : S.Coherent db.1) {s : RoundSlot}
    (hs : s ∈ (S.perform call db).2.1.slots) (ht : s.state = .terminal) :
    ∃ s₀ ∈ db.1.slots, s₀.worker = s.worker ∧ s₀.generation = s.generation := by
  have hstep : CallStep S call False db (S.perform call db).2 := (served hc).1
  have hfrom : ∃ s₀ ∈ db.1.slots, s₀.slotId = s.slotId := by
    by_cases hcall : ∃ worker, call.Admits worker
    · obtain ⟨worker, uuid, now, rfl⟩ := hcall
      rcases admit_slots hc s hs with h | ⟨_, hr⟩
      · exact h
      · have hst := hr.state
        rw [ht] at hst
        cases hst
    · rw [not_exists] at hcall
      exact hstep.slot_from hcall s hs
  obtain ⟨s₀, hs₀, hi⟩ := hfrom
  obtain ⟨x, hx, hcont⟩ := hstep.continue.2 s₀ hs₀
  have hxs : x = s := Rows.eq_of_key (S.perform call db).2.2.slotIds hx hs (hcont.slotId.trans hi)
  subst hxs
  exact ⟨s₀, hs₀, hcont.worker.symm, hcont.generation.symm⟩

/-- What the next generation starts with: the tasks of the finished one, byte for byte, or a
complete frozen set that the owner resolution installed. -/
structure CoordinationStore.Inherits (S : CoordinationStore) (d d' : Database) : Prop where
  next : d'.1.project.generation = d.1.project.generation + 1
  carried : d.1.project.phase ≠ .ownerActionRequired → ∀ w l, (w, l) ∈ S.roster.lanes →
    ∃ task digest count,
      d.1.assignment w d.1.project.generation = some (l, task, digest, count) ∧
      d'.1.assignment w d.1.project.generation = some (l, task, digest, count) ∧
      d'.1.assignment w (d.1.project.generation + 1) = some (l, task, digest, count)
  installed : d.1.project.phase = .ownerActionRequired →
    S.TasksFrozen d'.1.tasks (d.1.project.generation + 1)

/-- The turns that end a generation hand its tasks on. -/
theorem Turn.hands_on (h : Turn S call calm t t') :
    t'.project.generation = t.project.generation ∨
      (t'.project.generation = t.project.generation + 1 ∧
        ((t.project.phase ≠ .ownerActionRequired ∧ S.Carries t t'.tasks) ∨
          (t.project.phase = .ownerActionRequired ∧
            S.TasksFrozen t'.tasks (t.project.generation + 1)))) := by
  cases h with
  | enterReview => exact .inl rfl
  | confirm => exact .inl rfl
  | advance hp _ _ _ _ hcarry _ _ => exact .inr ⟨rfl, .inl ⟨hp, hcarry⟩⟩
  | resolve _ hp _ _ _ _ _ hfrozen _ _ => exact .inr ⟨rfl, .inr ⟨hp, hfrozen⟩⟩

theorem CoordinationStore.Coherent.lane_of_key (hc : S.Coherent t) {a : GenerationTask} {w : PyStr}
    {l : Lane} {g : Nat} (ha : a ∈ t.tasks) (hk : a.key = (w, g)) (hw : (w, l) ∈ S.roster.lanes) :
    a.lane = l := by
  have hb := (hc.task_bound a ha).lane
  rw [show a.worker = w from congrArg Prod.fst hk] at hb
  have h1 := lookup_eq_some_of_nodup S.roster.lanes_workers_nodup hb
  have h2 := lookup_eq_some_of_nodup S.roster.lanes_workers_nodup hw
  exact Option.some.inj (h1.symm.trans h2)

theorem inherits (hc : S.Coherent db.1) :
    (S.perform call db).2.1.project.generation = db.1.project.generation ∨
      S.Inherits db (S.perform call db).2 := by
  have hstep : CallStep S call False db (S.perform call db).2 := (served hc).1
  have hc' := hstep.coherent hc
  rcases hstep.advances hc with hsame | hadv
  · exact .inl hsame
  refine .inr ⟨hadv.next, fun hp w l hw => ?_, fun hp => ?_⟩
  all_goals
    obtain ⟨u, hu, hlast⟩ := id hstep
    have hug := hu.frame.1
    have hup := hu.frame.2
    rcases hlast with hlast | hturn
    · rw [hlast] at hadv
      have hnext := hadv.next
      omega
    rcases hturn.hands_on with hsame | ⟨_, ⟨hup', hcarry⟩ | ⟨hup', hfrozen⟩⟩
    · have hnext := hadv.next
      omega
  · obtain ⟨a, ha, hk, hf, a', ha', hk', hl', htask, hsha, hbytes⟩ := hcarry w l hw
    rw [hug] at hk hk'
    -- the lane's finished slot settled the task before the call
    obtain ⟨s, hs, hsw, _, hsg, _, hst⟩ := hadv.lanes w l hw
    obtain ⟨s₀, hs₀, hw₀, hg₀⟩ := terminal_slot_from hc hs hst
    have hsettled : db.1.Settles w db.1.project.generation :=
      .inr ⟨s₀, hs₀, hw₀.trans hsw, hg₀.trans hsg⟩
    have hkeep := (hstep.settled hc hsettled).2
    obtain ⟨b, hb, hab⟩ := hturn.tasks_continue a ha hf
    have hbl : b.lane = l := hc'.lane_of_key hb (hab.key.trans hk) hw
    have hcur := (S.perform call db).2.2.assignment_eq hb (hab.key.trans hk)
    rw [hbl, hab.task, hab.taskSha256, hab.taskBytes] at hcur
    have hnxt := (S.perform call db).2.2.assignment_eq ha' hk'
    rw [hl', htask, hsha, hbytes] at hnxt
    exact ⟨_, _, _, hkeep ▸ hcur, hcur, hnxt⟩
  · exact (hp (hup.symm.trans hup')).elim
  · exact (hup' (hup.trans hp)).elim
  · rwa [hug] at hfrozen

/-- Along every run: what an earlier database had settled is still assigned, every slot runs the
frozen task of its generation and lane, and the next generation inherits its tasks. -/
theorem tasks_bound_for_good {past : List Database}
    (h : S.machine.History (fun _ _ => True) (db :: past)) :
    (∀ d ∈ past, ∀ w g, d.1.Settles w g → db.1.assignment w g = d.1.assignment w g ∧
      db.1.assignment w g ≠ none) ∧
    (∀ s ∈ db.1.slots, db.1.Runs s) ∧
    ∀ call, (S.perform call db).2.1.project.generation = db.1.project.generation ∨
      S.Inherits db (S.perform call db).2 := by
  have hc := coherent_of_reachable h.reachable
  refine ⟨?_, fun s hs => ?_, fun call => inherits hc⟩
  · have kept : ∀ l, S.machine.History (fun _ _ => True) l → ∀ d ∈ l, ∀ d' ∈ l.head?,
        ∀ w g, d.1.Settles w g → d'.1.Settles w g ∧ d'.1.assignment w g = d.1.assignment w g := by
      intro l hl
      refine hl.invariant (I := fun l => ∀ d ∈ l, ∀ d' ∈ l.head?, ∀ w g, d.1.Settles w g →
        d'.1.Settles w g ∧ d'.1.assignment w g = d.1.assignment w g) ?_ ?_
      · rintro s _ d hd d' ⟨⟩ w g hs
        rw [List.mem_singleton.mp hd] at hs ⊢
        exact ⟨hs, rfl⟩
      · rintro s past call _ hp ih _ rfl d hd d' ⟨⟩ w g hs
        rcases List.mem_cons.mp hd with rfl | hd
        · exact ⟨hs, rfl⟩
        · obtain ⟨hs', he⟩ := ih d hd s rfl w g hs
          have hcs := coherent_of_reachable hp.reachable
          have hstep : CallStep S call False s (S.perform call s).2 := (served hcs).1
          obtain ⟨hs'', he'⟩ := hstep.settled hcs hs'
          exact ⟨hs'', he'.trans he⟩
    intro d hd w g hs
    obtain ⟨hs', he⟩ := kept _ h d (List.mem_cons_of_mem _ hd) db rfl w g hs
    obtain ⟨a, ha, hk, _⟩ := hc.settled_frozen hs'
    refine ⟨he, ?_⟩
    rw [db.2.assignment_eq ha hk]
    simp
  · obtain ⟨a, ha, hsa⟩ := hc.slot_task s hs
    exact ⟨a, ha, hsa.key, hsa.frozen, hsa.lane, hsa.task, hsa.taskSha256, hsa.taskBytes⟩

/-- The pair's run up to the root's admission. -/
theorem tasks_bound_for_good_pair :
    let left := (pairStore.perform (.stageTaskAssignment "root".toList "left".toList
      (some (.fin 1))) pairDatabase).2
    let both := (pairStore.perform (.stageTaskAssignment "critic".toList "right".toList
      (some (.fin 1))) left).2
    let admitted := (pairStore.perform (.admitWorker "root".toList "a".toList (some (.fin 2)))
      both).2
    (∀ d ∈ [both, left, pairDatabase], ∀ w g, d.1.Settles w g →
      admitted.1.assignment w g = d.1.assignment w g ∧ admitted.1.assignment w g ≠ none) ∧
    (∀ s ∈ admitted.1.slots, admitted.1.Runs s) ∧
    ∀ call, (pairStore.perform call admitted).2.1.project.generation =
        admitted.1.project.generation ∨
      pairStore.Inherits admitted (pairStore.perform call admitted).2 :=
  tasks_bound_for_good
    (.step (.step (.step (.start pair_start) trivial rfl) trivial rfl) trivial rfl)

end Danus.Coordination
