import Danus.Coordination.Steps
import Mathlib.Data.List.Perm.Basic

/-! What the task operations do to a coherent database, and what they can raise. -/
namespace Danus.Coordination
open Python Transaction

/-- The error contradicts no record, and a calm call raises no binding error on an audited
database. -/
structure Benign (calm : Prop) (t : Tables) (e : StoreError) : Prop where
  consistent : e.isContradiction = false
  bound : calm → t.Audited → e.isBinding = false

section Benign
variable {calm : Prop} {t : Tables}

@[simp] theorem benign_refusal {e : Refusal} : Benign calm t (.refusal e) ↔ True := by
  simp only [iff_true]
  exact ⟨rfl, fun _ _ => rfl⟩

@[simp] theorem benign_sqlite : Benign calm t .sqlite ↔ True := by
  simp only [iff_true]
  exact ⟨rfl, fun _ _ => rfl⟩

@[simp] theorem benign_directive {e : DirectiveError} : Benign calm t (.directive e) ↔ True := by
  simp only [iff_true]
  exact ⟨rfl, fun _ _ => rfl⟩

@[simp] theorem benign_typeError : Benign calm t .typeError ↔ True := by
  simp only [iff_true]
  exact ⟨rfl, fun _ _ => rfl⟩

@[simp] theorem benign_contradiction {e : Contradiction} :
    Benign calm t (.contradiction e) ↔ False := by
  simp only [iff_false]
  intro h
  cases h.consistent

theorem benign_of_binding {e : StoreError} (he : e.isBinding = true)
    (h : calm → t.Audited → False) : Benign calm t e := by
  refine ⟨?_, fun hc ha => (h hc ha).elim⟩
  cases e <;> simp_all

theorem Benign.mono {calm' : Prop} {e : StoreError} (h : Benign calm t e) (hi : calm' → calm) :
    Benign calm' t e := ⟨h.consistent, fun hc => h.bound (hi hc)⟩

theorem benign_false {e : StoreError} (h : e.isContradiction = false) : Benign False t e :=
  ⟨h, fun h => h.elim⟩

theorem BindingOnly.benign_false {α : Type} {x : Except StoreError α} {e : StoreError}
    (h : BindingOnly x) (he : x = .error e) : Benign False t e :=
  benign_of_binding (h e he) fun h => h.elim

/-- A later state of the same call excuses no more than its start. -/
theorem Benign.back {t' : Tables} {e : StoreError} (h : Benign calm t' e)
    (ha : calm → t.Audited → t'.Audited) : Benign calm t e :=
  ⟨h.consistent, fun hc hau => h.bound hc (ha hc hau)⟩

end Benign

/-- A check that raises only refusals. -/
def RefusalOnly {α : Type} (x : Except StoreError α) : Prop :=
  ∀ e, x = .error e → ∃ r, e = .refusal r

namespace RefusalOnly
variable {α β : Type} {x : Except StoreError α} {f : α → Except StoreError β}

theorem require {c : Prop} [Decidable c] {r : Refusal} : RefusalOnly (require c (.refusal r)) :=
  fun _ h => ⟨r, (require_error.mp h).2⟩

theorem requireSome {o : Option α} {r : Refusal} : RefusalOnly (requireSome o (.refusal r)) := by
  intro e h
  cases o with
  | none =>
    cases h
    exact ⟨r, rfl⟩
  | some a => cases h

theorem pure {a : α} : RefusalOnly (pure a) := fun _ h => (except_pure_error h).elim

theorem bind (hx : RefusalOnly x) (hf : ∀ a, RefusalOnly (f a)) : RefusalOnly (x >>= f) := by
  intro e h
  rcases except_bind_error.mp h with h | ⟨a, _, h⟩
  · exact hx e h
  · exact hf a e h

theorem benign {calm : Prop} {t : Tables} (hx : RefusalOnly x) {e : StoreError} (h : x = .error e) : Benign calm t e := by
  obtain ⟨r, rfl⟩ := hx e h
  simp

end RefusalOnly

variable {S : CoordinationStore} {call : StoreCall} {calm : Prop} {t : Tables} {db : Database}
  {E : StoreError → Prop}

theorem wp_validateIdentifier {value : PyStr} {label : String} {Q : Unit → Database → Prop}
    (hE : ∀ e, E (.refusal e)) (hQ : isIdentifier value = true → Q () db) :
    Tx.wp (validateIdentifier value label) Q E db := by
  rw [validateIdentifier, Tx.wp_ensure]
  exact ⟨hQ, fun _ => hE _⟩

theorem wp_writeWorkerState {worker : PyStr} {lane : Lane} {state : AdmissionState}
    {generation : Nat} {phase : Phase} {now : Stamp} {Q : Unit → Database → Prop} (hE : E .sqlite)
    (hQ : ∀ at' workers, now = some at' → ∀ h : ({ db.1 with workers := workers } : Tables).Valid,
      Q () ⟨{ db.1 with workers := workers }, h⟩) :
    Tx.wp (writeWorkerState worker lane state generation phase now) Q E db := by
  simp only [writeWorkerState, Tx.wp_bind, wp_notNull, wp_put]
  refine ⟨fun at' hat => ⟨fun h => hQ at' _ hat h, fun _ => hE⟩, fun _ => hE⟩

namespace Tables.Valid
variable (hv : t.Valid)
include hv

theorem task?_eq {w : PyStr} {g : Nat} {a : GenerationTask} :
    t.task? w g = some a ↔ a ∈ t.tasks ∧ a.key = (w, g) := Rows.find_key hv.taskKeys

theorem slot?_eq {i : PyStr} {s : RoundSlot} : t.slot? i = some s ↔ s ∈ t.slots ∧ s.slotId = i :=
  Rows.find_key hv.slotIds

theorem review?_eq {i : PyStr} {r : ObstacleReview} :
    t.review? i = some r ↔ r ∈ t.reviews ∧ r.reviewId = i := Rows.find_key hv.reviewIds

theorem evidence?_eq {i : PyStr} {e : EvidenceEntry} :
    t.evidence? i = some e ↔ e ∈ t.evidence ∧ e.entryId = i := Rows.find_key hv.entryIds

theorem recommendation?_eq {i : PyStr} {a : AdvisorRecommendation} :
    t.recommendation? i = some a ↔ a ∈ t.recommendations ∧ a.recommendationId = i :=
  Rows.find_key hv.recommendationIds

theorem candidate?_eq {i : PyStr} {c : Candidate} :
    t.candidate? i = some c ↔ c ∈ t.candidates ∧ c.candidateId = i :=
  Rows.find_key hv.candidateIds

end Tables.Valid

/-- The tasks of the database name roster lanes and carry their own identities. -/
def CoordinationStore.TasksBound (S : CoordinationStore) (t : Tables) : Prop :=
  ∀ a ∈ t.tasks, S.TaskBound a

namespace CoordinationStore.TasksBound
variable (hb : S.TasksBound t) (hv : t.Valid)
include hb

theorem validate_audited (hau : t.Audited) {a : GenerationTask} (ha : a ∈ t.tasks) :
    S.validateGenerationTaskRow a = .ok (a.taskSha256, a.taskBytes) :=
  CoordinationStore.validateGenerationTaskRow_ok.mpr ⟨hb a ha, hau.timely a ha, rfl⟩

/-- The lane a roster worker's task records. -/
theorem lane_eq {a : GenerationTask} {w : PyStr} {l : Lane} (ha : a ∈ t.tasks)
    (hw : a.worker = w) (hl : (w, l) ∈ S.roster.lanes) : a.lane = l := by
  have h := (hb a ha).lane
  rw [hw] at h
  have h1 := lookup_eq_some_of_nodup S.roster.lanes_workers_nodup h
  have h2 := lookup_eq_some_of_nodup S.roster.lanes_workers_nodup hl
  exact Option.some.inj (h1.symm.trans h2)

include hv

theorem stagedLanes_audited (ha : t.Audited) (g : Nat) {lanes : List (PyStr × Lane)}
    (hl : ∀ p ∈ lanes, p ∈ S.roster.lanes) : ∃ r, S.stagedLanes t g lanes = .ok r := by
  induction lanes with
  | nil => exact ⟨_, rfl⟩
  | cons p lanes ih =>
    obtain ⟨r, hr⟩ := ih fun q hq => hl q (List.mem_cons_of_mem _ hq)
    unfold stagedLanes
    cases hp : t.task? p.1 g with
    | none => exact ⟨_, by simp [hr, bind, Except.bind, pure, Except.pure]; rfl⟩
    | some a =>
      obtain ⟨hat, hk⟩ := hv.task?_eq.mp hp
      have hlane : a.lane = p.2 := hb.lane_eq hat (congrArg Prod.fst hk) (hl p List.mem_cons_self)
      exact ⟨_, by
        simp [hr, hb.validate_audited ha hat, hlane, require, bind, Except.bind, pure, Except.pure]
        rfl⟩

/-- On an audited database every staging projection succeeds. -/
theorem staging_audited (ha : t.Audited) (g : Nat) :
    ∃ p, S.taskStagingProjection t g = .ok p := by
  obtain ⟨r, hr⟩ := hb.stagedLanes_audited hv ha g fun p hp => hp
  have hw : ∀ a ∈ t.tasks, a.generation = g → a.worker ∈ S.roster.lanes.map Prod.fst := by
    intro a hm _
    exact List.mem_map.mpr ⟨_, (hb a hm).lane, rfl⟩
  refine ⟨⟨g, S.roster.lanes.map Prod.fst, r.1, r.2⟩, ?_⟩
  simp only [taskStagingProjection, except_bind_ok, require_ok, except_pure_ok]
  exact ⟨r, hr, (), hw, rfl⟩

theorem staging_benign {g : Nat} {e : StoreError} (h : S.taskStagingProjection t g = .error e) :
    Benign calm t e := by
  apply benign_of_binding (S.taskStagingProjection_binding t g e h)
  intro _ ha
  obtain ⟨p, hp⟩ := hb.staging_audited hv ha g
  rw [hp] at h
  cases h

end CoordinationStore.TasksBound

namespace CoordinationStore.Coherent
variable (hc : S.Coherent t) (hv : t.Valid)
include hc

theorem tasksBound : S.TasksBound t := hc.task_bound

include hv

/-- The frozen task of a slot is the one its lookup finds. -/
theorem slot_assignment {s : RoundSlot} (hs : s ∈ t.slots) :
    ∃ a, t.task? s.worker s.generation = some a ∧ S.TaskBound a ∧ s.Assigned a := by
  obtain ⟨a, ha, h⟩ := hc.slot_task s hs
  exact ⟨a, hv.task?_eq.mpr ⟨ha, h.key⟩, hc.task_bound a ha, h⟩

theorem validateSlot_pinned {s : RoundSlot} (hs : s ∈ t.slots)
    (h : S.validateSlotTaskBinding t s = .ok ()) : s.dispatched = true → s.prompt ≠ none := by
  obtain ⟨a, ha, hb, hsa⟩ := hc.slot_assignment hv hs
  exact ((CoordinationStore.validateSlotTaskBinding_ok (hc.slot_sound s hs) ha hb hsa).mp h).2

/-- On an audited database every slot passes its validation. -/
theorem validateSlot_audited (ha : t.Audited) {s : RoundSlot} (hs : s ∈ t.slots) :
    S.validateSlotTaskBinding t s = .ok () := by
  obtain ⟨a, hat, hb, hsa⟩ := hc.slot_assignment hv hs
  have hm := (hv.task?_eq.mp hat).1
  exact (CoordinationStore.validateSlotTaskBinding_ok (hc.slot_sound s hs) hat hb hsa).mpr
    ⟨ha.timely a hm, ha.pinned s hs⟩

theorem validateSlot_benign {s : RoundSlot} (hs : s ∈ t.slots) {e : StoreError}
    (h : S.validateSlotTaskBinding t s = .error e) : Benign calm t e := by
  apply benign_of_binding (S.validateSlotTaskBinding_binding t s e h)
  intro _ ha
  rw [hc.validateSlot_audited hv ha hs] at h
  cases h

end CoordinationStore.Coherent

/-- The rows and the missing workers a projection reports. -/
theorem CoordinationStore.stagedLanes_ok {g : Nat} {lanes : List (PyStr × Lane)}
    {r : List StagedTask × List PyStr} (h : S.stagedLanes t g lanes = .ok r) :
    r.1 = lanes.filterMap (fun p => (t.task? p.1 g).map GenerationTask.staged) ∧
      (r.2 = [] ↔ ∀ p ∈ lanes, ∃ a, t.task? p.1 g = some a) := by
  induction lanes generalizing r with
  | nil =>
    cases h
    simp
  | cons p lanes ih =>
    unfold stagedLanes at h
    cases hp : t.task? p.1 g with
    | none =>
      simp only [hp, except_bind_ok, except_pure_ok] at h
      obtain ⟨r', hr', rfl⟩ := h
      simp [hp, (ih hr').1]
    | some a =>
      simp only [hp, except_bind_ok, except_pure_ok] at h
      obtain ⟨_, _, _, _, r', hr', rfl⟩ := h
      simp [hp, (ih hr').1, (ih hr').2]

theorem CoordinationStore.taskStagingProjection_ok {g : Nat} {p : TaskStaging}
    (h : S.taskStagingProjection t g = .ok p) :
    p.assignments = S.roster.lanes.filterMap
        (fun p => (t.task? p.1 g).map GenerationTask.staged) ∧
      (p.ready = true ↔ ∀ q ∈ S.roster.lanes, ∃ a, t.task? q.1 g = some a) := by
  simp only [taskStagingProjection, except_bind_ok, require_ok, except_pure_ok] at h
  obtain ⟨r, hr, _, _, rfl⟩ := h
  have hl := stagedLanes_ok hr
  exact ⟨hl.1, by rw [← hl.2]; simp [TaskStaging.ready]⟩

/-- The freeze changes exactly the rows the projection counts as unfrozen. -/
theorem CoordinationStore.TasksBound.freeze_count (hb : S.TasksBound t) (hv : t.Valid) (g : Nat) :
    t.tasks.countP (fun a => decide (a.generation = g) && a.frozenAt.isNone) =
      (S.roster.lanes.filterMap (fun p => (t.task? p.1 g).map GenerationTask.staged)).countP
        fun a => !a.frozen := by
  rw [List.countP_filterMap]
  set hit : GenerationTask → Bool := fun a => decide (a.generation = g) && a.frozenAt.isNone
  set open' : PyStr × Lane → Bool := fun p =>
    (((t.task? p.1 g).map GenerationTask.staged).map fun a => !a.frozen).getD false with ho
  have hperm : ((t.tasks.filter hit).map (·.worker)).Perm
      ((S.roster.lanes.filter open').map Prod.fst) := by
    rw [List.perm_ext_iff_of_nodup]
    · intro w
      simp only [List.mem_map, List.mem_filter, hit, Bool.and_eq_true, decide_eq_true_eq]
      constructor
      · rintro ⟨a, ⟨ha, hg, hf⟩, rfl⟩
        refine ⟨(a.worker, a.lane), ⟨(hb a ha).lane, ?_⟩, rfl⟩
        have hta : t.task? a.worker g = some a :=
          hv.task?_eq.mpr ⟨ha, by simp [GenerationTask.key, hg]⟩
        simp only [ho, hta, Option.map_some, Option.getD_some, GenerationTask.staged,
          GenerationTask.frozen]
        cases hz : a.frozenAt <;> simp_all
      · rintro ⟨p, ⟨hp, hop⟩, rfl⟩
        cases hta : t.task? p.1 g with
        | none => simp [ho, hta] at hop
        | some a =>
          obtain ⟨ha, hk⟩ := hv.task?_eq.mp hta
          simp only [ho, hta, Option.map_some, Option.getD_some, GenerationTask.staged,
            GenerationTask.frozen] at hop
          refine ⟨a, ⟨ha, congrArg Prod.snd hk, ?_⟩, congrArg Prod.fst hk⟩
          cases hz : a.frozenAt <;> simp_all
    · have hn := hv.taskKeys
      have hsub : ((t.tasks.filter hit).map (·.key)).Nodup :=
        hn.sublist ((List.filter_sublist).map _)
      rw [List.nodup_map_iff_inj_on (List.Nodup.of_map _ hsub)]
      intro a ha b hb hab
      simp only [List.mem_filter, hit, Bool.and_eq_true, decide_eq_true_eq] at ha hb
      apply Rows.eq_of_key hv.taskKeys ha.1 hb.1
      simp [GenerationTask.key, hab, ha.2.1, hb.2.1]
    · exact S.roster.lanes_workers_nodup.sublist ((List.filter_sublist).map _)
  have hlen := hperm.length_eq
  simp only [List.length_map] at hlen
  rw [List.countP_eq_length_filter, hlen, ← List.countP_eq_length_filter]

/-- The carried rows restate the finished generation's tasks. -/
theorem carriedTasks_ok {g : Nat} {at' : SqlReal} {lanes : List (PyStr × Lane)}
    {rows : List GenerationTask} (h : carriedTasks t g at' lanes = .ok rows) :
    ∀ b ∈ rows, ∃ p ∈ lanes, ∃ a, t.task? p.1 g = some a ∧
      b = ⟨p.1, g + 1, p.2, a.task, a.taskSha256, a.taskBytes, at', none⟩ := by
  induction lanes generalizing rows with
  | nil =>
    cases h
    simp
  | cons p lanes ih =>
    unfold carriedTasks at h
    cases hp : t.task? p.1 g with
    | none => simp [hp] at h
    | some a =>
      simp only [hp, except_bind_ok, except_pure_ok] at h
      obtain ⟨rows', hr', rfl⟩ := h
      intro b hb
      rcases List.mem_cons.mp hb with rfl | hb
      · exact ⟨p, List.mem_cons_self, a, hp, rfl⟩
      · obtain ⟨q, hq, x, hx, rfl⟩ := ih hr' b hb
        exact ⟨q, List.mem_cons_of_mem _ hq, x, hx, rfl⟩

/-- Every lane's task is carried. -/
theorem carriedTasks_covers {g : Nat} {at' : SqlReal} {lanes : List (PyStr × Lane)}
    {rows : List GenerationTask} (h : carriedTasks t g at' lanes = .ok rows) :
    ∀ p ∈ lanes, ∃ a, t.task? p.1 g = some a ∧
      ⟨p.1, g + 1, p.2, a.task, a.taskSha256, a.taskBytes, at', none⟩ ∈ rows := by
  induction lanes generalizing rows with
  | nil => simp
  | cons p lanes ih =>
    unfold carriedTasks at h
    cases hp : t.task? p.1 g with
    | none => simp [hp] at h
    | some a =>
      simp only [hp, except_bind_ok, except_pure_ok] at h
      obtain ⟨rows', hr', rfl⟩ := h
      intro q hq
      rcases List.mem_cons.mp hq with rfl | hq
      · exact ⟨a, hp, List.mem_cons_self⟩
      · obtain ⟨x, hx, hm⟩ := ih hr' q hq
        exact ⟨x, hx, List.mem_cons_of_mem _ hm⟩

theorem carriedTasks_total {g : Nat} (at' : SqlReal) {lanes : List (PyStr × Lane)}
    (h : ∀ p ∈ lanes, ∃ a, t.task? p.1 g = some a) :
    ∃ rows, carriedTasks t g at' lanes = .ok rows := by
  induction lanes with
  | nil => exact ⟨_, rfl⟩
  | cons p lanes ih =>
    obtain ⟨a, ha⟩ := h p List.mem_cons_self
    obtain ⟨rows, hr⟩ := ih fun q hq => h q (List.mem_cons_of_mem _ hq)
    unfold carriedTasks
    exact ⟨_, by simp [ha, hr, bind, Except.bind, pure, Except.pure]; rfl⟩

/-- Every staged row was validated. -/
theorem stagedLanes_timely {g : Nat} {lanes : List (PyStr × Lane)}
    {r : List StagedTask × List PyStr} (h : S.stagedLanes t g lanes = .ok r) {p : PyStr × Lane}
    (hp : p ∈ lanes) {a : GenerationTask} (ha : t.task? p.1 g = some a) : a.Timely := by
  induction lanes generalizing r with
  | nil => cases hp
  | cons q lanes ih =>
    unfold CoordinationStore.stagedLanes at h
    cases hq : t.task? q.1 g with
    | none =>
      simp only [hq, except_bind_ok] at h
      obtain ⟨r', hr', _⟩ := h
      rcases List.mem_cons.mp hp with rfl | hp
      · rw [hq] at ha
        cases ha
      · exact ih hr' hp
    | some b =>
      simp only [hq, except_bind_ok] at h
      obtain ⟨i, hi, _, _, r', hr', _⟩ := h
      rcases List.mem_cons.mp hp with rfl | hp
      · obtain rfl : b = a := Option.some.inj (hq.symm.trans ha)
        exact (CoordinationStore.validateGenerationTaskRow_ok.mp hi).2.1
      · exact ih hr' hp

/-- A staging projection validates every task of its generation. -/
theorem CoordinationStore.TasksBound.staging_timely (hb : S.TasksBound t) (hv : t.Valid) {g : Nat}
    {p : TaskStaging} (h : S.taskStagingProjection t g = .ok p) {a : GenerationTask}
    (ha : a ∈ t.tasks) (hg : a.generation = g) : a.Timely := by
  simp only [taskStagingProjection, except_bind_ok] at h
  obtain ⟨r, hr, _⟩ := h
  exact stagedLanes_timely hr (hb a ha).lane
    (hv.task?_eq.mpr ⟨ha, by simp [GenerationTask.key, hg]⟩)

/-- The rows of a freeze: those that were frozen, and the others frozen now. -/
theorem wp_freezeRequired (hb : S.TasksBound db.1) {g : Nat} {frozenAt : Stamp}
    {Q : TaskStaging → Database → Prop} (hE : ∀ e, Benign False db.1 e → E e)
    (hQ : ∀ p tasks, tasks = Rows.update (fun a => decide (a.generation = g) && a.frozenAt.isNone)
        (fun a => { a with frozenAt := frozenAt }) db.1.tasks →
      S.TasksBound { db.1 with tasks := tasks } →
      (∀ a ∈ tasks, a.generation = g → a.Timely) →
      (∀ q ∈ S.roster.lanes, ∃ a ∈ tasks, a.worker = q.1 ∧ a.lane = q.2 ∧ a.generation = g) →
      ∀ h : ({ db.1 with tasks := tasks } : Tables).Valid,
        Q p ⟨{ db.1 with tasks := tasks }, h⟩) :
    Tx.wp (S.freezeRequiredGenerationTasks g frozenAt) Q E db := by
  simp only [CoordinationStore.freezeRequiredGenerationTasks, updateTasks, Tx.wp_bind, wp_look,
    Tx.wp_check, Tx.wp_ensure, wp_updateRows]
  refine ⟨fun p hp => ⟨fun hready => ⟨fun h => ⟨fun _ => ⟨fun p' hp' => ?_, fun e he => ?_⟩,
    fun hne => ?_⟩, fun _ => hE _ (by simp)⟩, fun _ => hE _ (by simp)⟩, fun e he => ?_⟩
  · have hbound : S.TasksBound { db.1 with
        tasks := Rows.update (fun a => decide (a.generation = g) && a.frozenAt.isNone)
          (fun a => { a with frozenAt := frozenAt }) db.1.tasks } := by
      intro a ha
      rcases Rows.mem_update_cases ha with ⟨ha, _⟩ | ⟨x, hx, _, rfl⟩
      · exact hb a ha
      · exact ⟨(hb x hx).lane, (hb x hx).generation, (hb x hx).identity⟩
    refine hQ p' _ rfl hbound (fun a ha hg => hbound.staging_timely h hp' ha hg) (fun q hq => ?_) h
    obtain ⟨a, ha⟩ := (CoordinationStore.taskStagingProjection_ok hp).2.mp hready q hq
    obtain ⟨ha, hk⟩ := db.2.task?_eq.mp ha
    have hl : a.lane = q.2 := hb.lane_eq ha (congrArg Prod.fst hk) hq
    cases hf : a.frozenAt with
    | none =>
      refine ⟨{ a with frozenAt := frozenAt }, Rows.mem_update_of_hit ha ?_, congrArg Prod.fst hk,
        hl, congrArg Prod.snd hk⟩
      have hg : a.generation = g := congrArg Prod.snd hk
      simp [hf, hg]
    | some f =>
      exact ⟨a, Rows.mem_update_of_miss ha (by simp [hf]), congrArg Prod.fst hk, hl,
        congrArg Prod.snd hk⟩
  · exact hE e ((S.taskStagingProjection_binding _ g).benign_false he)
  · have := (CoordinationStore.taskStagingProjection_ok hp).1
    rw [this] at hne
    exact (hne (hb.freeze_count db.2 g)).elim
  · exact hE e ((S.taskStagingProjection_binding _ g).benign_false he)

/-- Staging inserts or replaces one unfrozen task of the generation being staged. -/
theorem stage_rule (hc : S.Coherent db.1) {worker task : PyStr} {now : Stamp} :
    Tx.wp (S.stageTaskAssignment worker task now)
      (fun _ db' => CallStep S (.stageTaskAssignment worker task now) calm db db')
      (Benign False db.1) db := by
  simp only [CoordinationStore.stageTaskAssignment, Tx.wp_bind, wp_look, Tx.wp_ensure, Tx.wp_check,
    Tx.wp_fetched]
  refine wp_validateIdentifier (by simp) fun _ => ⟨fun hworker => ⟨fun identity hid =>
    ⟨fun at' hat => ⟨fun _ => ?_, by simp⟩, by simp⟩, fun e he =>
    (taskIdentity_binding task).benign_false he⟩, by simp⟩
  set target := db.1.stagingGeneration with htarget
  have hlane : (worker, S.workerLane worker) ∈ S.roster.lanes := by
    obtain ⟨⟨w, l⟩, hm, rfl⟩ := List.mem_map.mp hworker
    rw [CoordinationStore.workerLane, (LaneRoster.mem_lanes_iff.mp hm).1]
    exact hm
  have hfin : at'.isFinite = true := (Option.filter_eq_some_iff.mp hat).2
  have hbound : S.TaskBound ⟨worker, target, S.workerLane worker, task, identity.1, identity.2, at',
      none⟩ := by
    refine ⟨hlane, ?_, hid⟩
    have := db.2.generation_pos
    simp only [htarget, Tables.stagingGeneration]
    split <;> omega
  have hhor : target ≤ db.1.project.generation ∨
      (target = db.1.project.generation + 1 ∧ db.1.project.phase = .ownerActionRequired) := by
    simp only [htarget, Tables.stagingGeneration]
    split
    · exact .inr ⟨rfl, ‹_›⟩
    · exact .inl le_rfl
  have htimely : GenerationTask.Timely ⟨worker, target, S.workerLane worker, task, identity.1,
      identity.2, at', none⟩ := ⟨hfin, by simp, by simp⟩
  cases hf : db.1.task? worker target with
  | none =>
    simp only [Tx.wp_bind, Tx.wp_ensure, CoordinationStore.insertTask, wp_put, Tx.wp_pure]
    refine ⟨fun _ => ⟨fun h => Changes.callStep (.single (Change.tasks (fun a ha => ?_)
      (fun a ha hz => ⟨a, List.mem_append_left _ ha, .refl hz⟩) fun a ha => ?_)), by simp⟩,
      fun hs => ?_⟩
    · rcases List.mem_append.mp ha with ha | ha
      · exact ⟨hc.task_bound a ha, hc.task_horizon a ha⟩
      · rw [List.mem_singleton.mp ha]
        exact ⟨hbound, hhor⟩
    · rcases List.mem_append.mp ha with ha | ha
      · exact .inl ha
      · rw [List.mem_singleton.mp ha]
        exact .inr htimely
    · -- a slot of this worker and generation would have its frozen task
      simp only [Bool.not_eq_false, List.any_eq_true, Bool.and_eq_true, beq_iff_eq] at hs
      obtain ⟨s, hsm, hw, hg⟩ := hs
      obtain ⟨a, ha, hsa⟩ := hc.slot_task s hsm
      rw [db.2.task?_eq.mpr ⟨ha, by rw [hsa.key, hw, hg]⟩] at hf
      cases hf
  | some x =>
    obtain ⟨hx, hk⟩ := db.2.task?_eq.mp hf
    simp only [Tx.wp_bind, Tx.wp_check, Tx.wp_ite, Tx.wp_ensure,
      CoordinationStore.replaceTask, Tx.wp_pure]
    refine ⟨fun _ _ => ⟨fun _ => Changes.callStep .refl, fun _ => ⟨fun hfree => ?_, by simp⟩⟩,
      fun e he => (S.validateGenerationTaskRow_binding x).benign_false he⟩
    have hxf : x.frozenAt = none := by simpa [GenerationTask.frozen] using hfree.1
    have hxw : x.worker = worker := congrArg Prod.fst hk
    have hxg : x.generation = target := congrArg Prod.snd hk
    refine wp_updateRow GenerationTask.key db.2.taskKeys hx ?_ ?_ rfl (by simp)
      fun h => ⟨fun _ => Changes.callStep (.single (Change.tasks (fun a ha => ?_) (fun a ha hz => ?_)
        fun a ha => ?_)), fun h => (h rfl).elim⟩
    · simp [hxf, GenerationTask.key, hxw, hxg]
    · intro a _ ha
      simp only [Bool.and_eq_true, decide_eq_true_eq] at ha
      exact ha.1.trans hk.symm
    · rcases Rows.mem_set_cases ha with rfl | ⟨ha, _⟩
      · subst hxw
        rw [← hxg] at hbound hhor
        exact ⟨⟨hbound.lane, hbound.generation, hbound.identity⟩, hhor⟩
      · exact ⟨hc.task_bound a ha, hc.task_horizon a ha⟩
    · refine ⟨a, Rows.mem_set_of_ne ha fun hak => ?_, .refl hz⟩
      obtain rfl : a = x := Rows.eq_of_key db.2.taskKeys ha hx hak
      exact hz hxf
    · rcases Rows.mem_set_cases ha with rfl | ⟨ha, _⟩
      · exact .inr ⟨hfin, by simp [hxf], by simp [hxf]⟩
      · exact .inl ha

/-- Reading the staging changes nothing. -/
theorem stagedTaskAssignments_rule (hc : S.Coherent db.1) {generation : Option Nat} :
    Tx.wp (S.stagedTaskAssignments generation) (fun _ db' => db' = db) (Benign calm db.1) db := by
  simp only [CoordinationStore.stagedTaskAssignments, Tx.wp_bind, wp_look, Tx.wp_ensure,
    Tx.wp_check]
  exact ⟨fun _ => ⟨fun _ _ => trivial, fun _ he => hc.tasksBound.staging_benign db.2 he⟩, by simp⟩

end Danus.Coordination
