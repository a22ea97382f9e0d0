import Danus.Coordination.CandidateRules

/-! Every call of the store, and every run of calls, on a coherent database. -/
namespace Danus.Coordination
open Python Transaction Machines

variable {S : CoordinationStore} {call : StoreCall} {calm : Prop} {t : Tables} {db db' : Database}

/-- The calls that freeze or stage tasks, and refuse the ones the audit would reject. -/
def StoreCall.stages (t : Tables) : StoreCall → Bool
  | .stageTaskAssignment .. | .resolveRecommendation .. => true
  | .admitWorker worker _ _ => !t.slots.any fun s => s.worker == worker && s.open
  | _ => false

/-- The replay of a root slot's memory after its generation has ended. -/
def StoreCall.ReplaysStaleRoot (t : Tables) : StoreCall → Prop
  | .reconcileTerminalMemoryEntries slotId _ _ _ _ => ∃ slot ∈ t.slots,
    slot.slotId = slotId ∧ slot.lane = .root ∧ slot.generation ≠ t.project.generation
  | _ => False

/-- What a call can raise on a coherent database. -/
structure Excused (calm : Prop) (call : StoreCall) (t : Tables) (e : StoreError) : Prop where
  consistent : e.isContradiction = true →
    e = .contradiction .rootReviewCas ∧ call.ReplaysStaleRoot t
  bound : calm → t.Audited → call.stages t = false → e.isBinding = false

theorem Benign.excused {e : StoreError} (h : Benign (calm ∧ call.stages t = false) t e) :
    Excused calm call t e := by
  refine ⟨fun hx => ?_, fun hcm ha hs => h.bound ⟨hcm, hs⟩ ha⟩
  rw [h.consistent] at hx
  cases hx

theorem Replayed.excused {slotId worker uuid : PyStr} {entries : List Json} {now : Stamp}
    {e : StoreError} (h : Replayed calm t slotId e) :
    Excused calm (.reconcileTerminalMemoryEntries slotId worker uuid entries now) t e := by
  rcases h with h | ⟨rfl, h⟩
  · exact (h.mono And.left).excused
  · exact ⟨fun _ => ⟨rfl, h⟩, fun _ _ _ => rfl⟩

theorem CoordinationStore.auditTaskBindings_binding (S : CoordinationStore) (t : Tables) :
    BindingOnly (S.auditTaskBindings t) := by
  refine .bind .require fun _ => .bind (.checkAll (fun a => ?_) _) fun _ =>
    .checkAll (S.validateSlotTaskBinding_binding t) _
  exact .bind (S.validateGenerationTaskRow_binding a) fun _ => .bind .require fun _ => .require

/-- A coherent database passes the audit unless a task is untimely or a slot was dispatched
without its prompt. -/
theorem CoordinationStore.Coherent.audit_iff (hc : S.Coherent t) (hv : t.Valid) :
    S.auditTaskBindings t = .ok () ↔ t.Audited := by
  have hver : t.project.schemaVersion ∈ S.supportedVersions := by
    rw [hc.version, supportedVersions, databaseSchemaVersion]
    split <;> simp
  simp only [auditTaskBindings, except_bind_ok, require_ok, checkAll_ok]
  constructor
  · rintro ⟨_, _, _, ht, hs⟩
    refine ⟨fun a ha => ?_, fun s hsm => hc.validateSlot_pinned hv hsm (hs s hsm)⟩
    have h := checkAll_ok.mp ht a ha
    simp only [auditTask, except_bind_ok] at h
    obtain ⟨_, hok, _⟩ := h
    exact (validateGenerationTaskRow_ok.mp hok).2.1
  · intro ha
    refine ⟨(), hver, (), checkAll_ok.mpr fun a ham => ?_,
      fun s hs => hc.validateSlot_audited hv ha hs⟩
    simp only [auditTask, except_bind_ok, require_ok]
    refine ⟨_, hc.tasksBound.validate_audited ha ham, (), ?_, ?_⟩
    · rcases hc.task_horizon a ham with h | h
      · omega
      · omega
    · rintro ⟨hg, hp⟩
      rcases hc.task_horizon a ham with h | h
      · omega
      · exact hp h.2

/-- Opening a database changes nothing, and only the audit refuses a coherent one. -/
theorem openExisting_rule (hc : S.Coherent db.1) :
    Tx.wp S.openExisting (fun _ d => d = db) (fun e => e.isBinding = true ∧ ¬ db.1.Audited) db := by
  have hver : db.1.project.schemaVersion = twoLaneSchemaVersion ∨
      db.1.project.schemaVersion = Coordination.schemaVersion := by
    rw [hc.version, CoordinationStore.databaseSchemaVersion]
    split <;> simp
  have hlanes : ¬ (db.1.project.schemaVersion = twoLaneSchemaVersion ∧
      2 < S.config.maxPaidWorkers) := by
    rintro ⟨h, hm⟩
    rw [hc.version, CoordinationStore.databaseSchemaVersion, if_pos hm] at h
    cases h
  have hov : db.1.candidates.any CoordinationStore.invalidOverlay = false := by
    simpa [List.any_eq_false] using hc.overlay_identity
  simp only [CoordinationStore.openExisting, Tx.wp_bind, wp_look, Tx.wp_ensure, Tx.wp_check]
  refine ⟨fun _ => ⟨fun _ => ⟨fun _ => ⟨fun _ => ⟨fun _ _ => trivial, fun e he => ?_⟩,
    fun h => (h hov).elim⟩, fun h => (h hlanes).elim⟩, fun h => (h hver).elim⟩,
    fun h => (h hc.configured).elim⟩
  refine ⟨S.auditTaskBindings_binding _ e he, fun ha => ?_⟩
  rw [(hc.audit_iff db.2).mpr ha] at he
  cases he

theorem projectStatus_rule (hc : S.Coherent db.1) {worker : Option PyStr} {clock : Int} :
    Tx.wp (S.projectStatus worker clock) (fun _ d => d = db) (Benign calm db.1) db := by
  simp only [CoordinationStore.projectStatus, Tx.wp_bind, wp_look]
  refine wp_activeReview_live hc fun review _ => ?_
  simp only [Tx.wp_check, Tx.wp_when, Tx.wp_pure]
  refine ⟨fun _ _ => ⟨fun _ => wp_validateIdentifier (by simp) fun _ => rfl, fun _ => trivial⟩,
    fun e he => hc.tasksBound.staging_benign db.2 he⟩

/-- What one call does to a coherent database, and what it can raise. -/
def Served (S : CoordinationStore) (call : StoreCall) (calm : Prop) (db : Database)
    (o : Outcome) : Prop :=
  CallStep S call calm db o.2 ∧ ∀ e, o.1 = .error e → Excused calm call db.1 e

theorem Served.same {r : Except StoreError StoreReply}
    (h : ∀ e, r = .error e → Excused calm call db.1 e) : Served S call calm db (r, db) :=
  ⟨Changes.callStep .refl, h⟩

theorem served_committed {α : Type} {f : α → StoreReply} {x : StoreTx α}
    (h : Tx.wp x (fun _ db' => CallStep S call calm db db') (Excused calm call db.1) db) :
    Served S call calm db (committed f x db) := by
  unfold committed
  rcases Tx.wp_run h with ⟨a, d, hx, hq⟩ | ⟨e, hx, he⟩
  · rw [hx]
    exact ⟨hq, by simp [Except.map]⟩
  · rw [hx]
    refine .same fun e' h' => ?_
    cases h'
    exact he

theorem served_read {α : Type} {f : α → StoreReply} {x : StoreTx α}
    (h : Tx.wp x (fun _ db' => db' = db) (Excused calm call db.1) db) :
    Served S call calm db (committed f x db) := by
  refine served_committed (Tx.wp_mono h ?_ fun _ => id)
  rintro _ _ rfl
  exact Changes.callStep .refl

theorem served_committedThen {α : Type} {f : α → StoreReply} {x : StoreTx (Except StoreError α)}
    (h : Tx.wp x (fun r db' => CallStep S call calm db db' ∧ Settled calm db.1 r)
      (Benign calm db.1) db) :
    Served S call calm db (committedThen f x db) := by
  unfold committedThen
  rcases Tx.wp_runThen h with ⟨r, d, hx, hq, hr⟩ | ⟨e, hx, he⟩
  · rw [hx]
    refine ⟨hq, fun e he => ?_⟩
    cases r with
    | ok a => cases he
    | error e' =>
      cases he
      exact ((hr e rfl).mono And.left).excused
  · rw [hx]
    refine .same fun e' h' => ?_
    cases h'
    exact (he.mono And.left).excused

/-- A completion commits first, and then reads the status of what it committed. -/
theorem served_complete (hc : S.Coherent db.1) {slotId outcome : PyStr} {now : Stamp} {clock : Int}
    (hcalm : calm → ¬ S.Disturbs db.1 (.complete slotId outcome now clock)) :
    Served S (.complete slotId outcome now clock) calm db
      (S.complete slotId outcome now clock db) := by
  unfold CoordinationStore.complete
  rcases Tx.wp_run (complete_rule hc hcalm) with ⟨a, d, hx, hq⟩ | ⟨e, hx, he⟩
  · rw [hx]
    have hd := hq.coherent hc
    simp only [committed]
    rcases Tx.wp_run (projectStatus_rule hd) with ⟨s, d', hy, rfl⟩ | ⟨e, hy, he⟩
    · rw [hy]
      exact ⟨hq, by simp [Except.map]⟩
    · rw [hy]
      refine ⟨hq, fun e' h' => ?_⟩
      cases h'
      exact ((he.back fun hcm ha => hq.audited hcm ha).mono And.left).excused
  · rw [hx]
    refine .same fun e' h' => ?_
    cases h'
    exact (he.mono And.left).excused

/-- Every call steps the database, and raises only what it may. -/
theorem perform_rule (hc : S.Coherent db.1) (hcalm : calm → ¬ S.Disturbs db.1 call) :
    Served S call calm db (S.perform call db) := by
  have benign : ∀ e, Benign calm db.1 e → Excused calm call db.1 e :=
    fun _ h => (h.mono And.left).excused
  cases call with
  | reopen =>
    refine served_read (Tx.wp_mono (openExisting_rule hc) (fun _ _ => id) fun e he => benign e ?_)
    exact benign_of_binding he.1 fun _ => he.2
  | projectStatus worker clock =>
    exact served_read (Tx.wp_mono (projectStatus_rule hc) (fun _ _ => id) benign)
  | stagedTaskAssignments generation =>
    exact served_read (Tx.wp_mono (stagedTaskAssignments_rule hc) (fun _ _ => id) benign)
  | stageTaskAssignment worker task now =>
    refine served_committed (Tx.wp_mono (stage_rule hc) (fun _ _ => id) fun e he => ?_)
    exact (he.mono fun h => by simp [StoreCall.stages] at h).excused
  | admitWorker worker uuid now =>
    refine served_committed (Tx.wp_mono (admit_rule hc hcalm) (fun _ _ => id) fun e he => ?_)
    refine (he.mono fun h => ⟨h.1, ?_⟩).excused
    simpa [StoreCall.stages] using h.2
  | pinPrompt slotId prompt =>
    exact served_committed (Tx.wp_mono (pinPrompt_rule hc) (fun _ _ => id) benign)
  | activate slotId now => exact served_committedThen (activate_rule hc hcalm)
  | markAmbiguous slotId clock =>
    exact served_committed (Tx.wp_mono (markAmbiguous_rule hc hcalm) (fun _ _ => id) benign)
  | complete slotId outcome now clock => exact served_complete hc hcalm
  | paidSlotProvenance worker =>
    refine served_read ?_
    unfold Tx.wp CoordinationStore.paidSlotProvenance
    cases S.canonicalPaidSlot worker none db <;> exact rfl
  | validateMemoryPublication worker slotId kind confirms =>
    exact served_read (Tx.wp_mono (validateMemoryPublication_rule hc) (fun _ _ => id) benign)
  | recordRootEvidence worker kind entryId slotId now =>
    exact served_committed (Tx.wp_mono (recordRootEvidence_rule hc) (fun _ _ => id) benign)
  | confirmRootEvidence worker confirms entryId slotId uuid now =>
    exact served_committed (Tx.wp_mono (confirmRootEvidence_rule hc) (fun _ _ => id) benign)
  | resolveRecommendation request now =>
    refine served_committed (Tx.wp_mono (resolve_rule hc) (fun _ _ => id) fun e he => ?_)
    exact (he.mono fun h => by simp [StoreCall.stages] at h).excused
  | validateOpenRecommendation recommendationId =>
    exact served_read (Tx.wp_mono (validateOpenRecommendation_rule hc) (fun _ _ => id) benign)
  | reconcileTerminalMemoryEntries slotId worker uuid entries now =>
    exact served_committed (Tx.wp_mono (reconcile_rule hc) (fun _ _ => id) fun _ h => h.excused)
  | setMemoryCursor worker stream cursor generation now =>
    exact served_committed (Tx.wp_mono setMemoryCursor_rule (fun _ _ => id) benign)
  | registerCandidate worker receipt identity now => exact served_committedThen (register_rule hc)
  | terminalizeCandidate worker receipt slotId outcome now =>
    exact served_committedThen (terminalize_rule hc hcalm)
  | recordExactFactReuse worker slotId factId factIdentity sourceId now =>
    exact served_committedThen (reuse_rule hc)
  | resolveCandidateOutcomeUnknown receipt resolution acknowledged factActive now =>
    exact served_committedThen (resolveCandidate_rule hc hcalm)
  | recordCandidate worker candidateId state generation now =>
    exact served_committed (Tx.wp_mono recordCandidate_rule (fun _ _ => id) benign)

/-- What holds of every call, whether or not it disturbs. -/
theorem served (hc : S.Coherent db.1) : Served S call False db (S.perform call db) :=
  perform_rule hc False.elim

/-- A fresh database is coherent and passes the audit. -/
theorem coherent_initial {clock : Int} (h : db.1 = S.initialTables clock) :
    S.Coherent db.1 ∧ db.1.Audited := by
  rw [h]
  constructor
  · constructor <;> simp [CoordinationStore.initialTables]
  · constructor <;> simp [CoordinationStore.initialTables]

/-- The step of a run, from a coherent database. -/
theorem machine_step (hc : S.Coherent db.1) (hcalm : calm → ¬ S.Disturbs db.1 call) {db' : Database}
    (h : S.machine.step db call db') : CallStep S call calm db db' := by
  have hs := (perform_rule hc hcalm).1
  rwa [show (S.perform call db).2 = db' from h] at hs

/-- Every database of every run is coherent. -/
theorem coherent_of_reachable (h : S.machine.Reachable db) : S.Coherent db.1 := by
  refine h.invariant (I := fun d => S.Coherent d.1) ?_ ?_
  · rintro d ⟨clock, hd⟩
    exact (coherent_initial hd).1
  · intro d call d' hc hs
    have hstep : CallStep S call False d d' := machine_step hc False.elim hs
    exact hstep.coherent hc

/-- No step of the run commits a row the audit rejects. -/
def CoordinationStore.Undisturbed (S : CoordinationStore) (past : List Database)
    (call : StoreCall) : Prop :=
  ∀ db ∈ past.head?, ¬ S.Disturbs db.1 call

/-- Every database of an undisturbed run passes the audit. -/
theorem audited_of_undisturbed (h : S.machine.Reaches S.Undisturbed db) :
    S.Coherent db.1 ∧ db.1.Audited := by
  refine h.invariant (I := fun d => S.Coherent d.1 ∧ d.1.Audited) ?_ ?_
  · rintro d ⟨clock, hd⟩
    exact coherent_initial hd
  · rintro d past call d' ⟨hc, ha⟩ hu hs
    have hstep : CallStep S call True d d' := machine_step hc (fun _ => hu d rfl) hs
    exact ⟨hstep.coherent hc, hstep.audited trivial ha⟩

end Danus.Coordination
