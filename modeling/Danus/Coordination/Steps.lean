import Danus.Coordination.Turns
import Mathlib.Logic.Relation

/-! One call as a sequence of changes within the phase and at most one turn of the project row. -/
namespace Danus.Coordination
open Python Transaction

/-- A call inserts a receipt row. -/
inductive NewCandidate (S : CoordinationStore) (call : StoreCall) (t : Tables) :
    Candidate → Prop where
  | register {worker receipt : PyStr} {c : CandidateIdentity} {now : Stamp} {slot : RoundSlot}
      {at' : SqlReal} : call = .registerCandidate worker receipt c now →
      candidateReceiptId c = .ok receipt → t.overlaid = false →
      NewCandidate S call t (receiptRow receipt c slot worker .active none at' none)
  | reuse {worker receipt : PyStr} {c : CandidateIdentity} {slot : RoundSlot} {at' : SqlReal} :
      NewCandidate S call t (receiptRow receipt c slot worker .terminal (some .correct) at' (some at'))
  | record {worker candidateId : PyStr} {state : PyStr} {s : CandidateState} {at' : SqlReal} :
      recordedState? state = some s →
      NewCandidate S call t
        (recordedRow candidateId t.project.generation worker (S.workerLane worker) s at')

/-- The call is a `record_candidate` whose arguments pass its checks. -/
def StoreCall.Records (call : StoreCall) (current : Nat) (worker candidateId : PyStr)
    (s : CandidateState) (at' : SqlReal) : Prop :=
  ∃ state generation, call = .recordCandidate worker candidateId state generation (some at') ∧
    isIdentifier worker = true ∧ isIdentifier candidateId = true ∧
    recordedState? state = some s ∧ generation.getD current = current

/-- A call changes a receipt row. -/
inductive CandidateMove (S : CoordinationStore) (call : StoreCall) (t : Tables) (row : Candidate) :
    Candidate → Prop where
  | finish {worker receipt slotId outcome : PyStr} {now : Stamp} {o : CandidateOutcome}
      {at' : SqlReal} : call = .terminalizeCandidate worker receipt slotId outcome now →
      CandidateOutcome.ofText? outcome = some o → row.candidateId = receipt →
      row.worker = worker → row.slotId = some slotId → row.state = .active →
      CandidateMove S call t row { row with
        state := if (o != .outcomeUnknown) = true then .terminal else .outcomeUnknown
        outcome := some o, updatedAt := at'
        terminalAt := if (o != .outcomeUnknown) = true then some at' else none }
  | release {receipt resolution : PyStr} {factActive : Bool} {now : Stamp} {r : OwnerResolution}
      {at' : SqlReal} :
      call = .resolveCandidateOutcomeUnknown receipt resolution true factActive now →
      ownerResolution? resolution = some r → row.candidateId = receipt → row.overlay = true →
      CandidateMove S call t row { row with
        state := .terminal, outcome := some .outcomeUnknown, updatedAt := at'
        terminalAt := some at', ownerResolution := some r, ownerAcknowledgedUnknown := some true
        candidateFactActiveAtResolution := some factActive, ownerResolvedAt := some at' }
  | record {worker candidateId : PyStr} {s : CandidateState} {at' : SqlReal} :
      call.Records t.project.generation worker candidateId s at' →
      row.recordable candidateId t.project.generation worker (S.workerLane worker) = true →
      CandidateMove S call t row { row with state := s, updatedAt := at' }

/-- The slot a call writes evidence from. -/
def StoreCall.evidenceSlot : StoreCall → Option PyStr
  | .recordRootEvidence _ _ _ slotId _ => some slotId
  | .confirmRootEvidence _ _ _ slotId _ _ => some slotId
  | .reconcileTerminalMemoryEntries slotId _ _ _ _ => some slotId
  | _ => none

/-- The call asks for a slot of this worker. -/
def StoreCall.Admits (call : StoreCall) (worker : PyStr) : Prop :=
  ∃ uuid now, call = .admitWorker worker uuid now

/-- What a call can change while the generation and the phase stay. `calm` says that the call is
not one of those that leave a row the audit rejects. -/
inductive Change (S : CoordinationStore) (call : StoreCall) (calm : Prop) (t : Tables) :
    Tables → Prop where
  | book (workers : List WorkerState) (cursors : List MemoryCursor) :
      Change S call calm t { t with workers := workers, cursors := cursors }
  | tasks {tasks : List GenerationTask} :
      (∀ a ∈ tasks, S.TaskBound a ∧ (a.generation ≤ t.project.generation ∨
        (a.generation = t.project.generation + 1 ∧ t.project.phase = .ownerActionRequired))) →
      (∀ a ∈ t.tasks, a.frozenAt ≠ none → ∃ a' ∈ tasks, a.Continues a') →
      (∀ a ∈ tasks, a ∈ t.tasks ∨ a.Timely) →
      Change S call calm t { t with tasks := tasks }
  | slot {s s' : RoundSlot} : s ∈ t.slots → SlotMove calm s s' →
      Change S call calm t { t with slots := Rows.set (·.slotId) s' t.slots }
  | retime {reviews : List ObstacleReview} :
      (∀ r ∈ t.reviews, ∃ r' ∈ reviews, r.Retimed r') →
      (∀ r' ∈ reviews, ∃ r ∈ t.reviews, r.Retimed r') →
      Change S call calm t { t with reviews := reviews }
  | reserve {s : RoundSlot} : call.Admits s.worker → S.SlotSound s → s.generation = t.project.generation →
      (∃ a ∈ t.tasks, s.Assigned a) → s.state = .prepared → s.InReasoning →
      Change S call calm t { t with slots := t.slots ++ [s] }
  | reserveCritic {s : RoundSlot} {r : ObstacleReview} {at' : Option SqlReal} :
      call.Admits s.worker → S.SlotSound s → s.generation = t.project.generation → (∃ a ∈ t.tasks, s.Assigned a) →
      s.state = .prepared → t.project.phase = .criticReview → r ∈ t.reviews →
      r.state = .pending →
      ({ r with state := .active, criticSlotId := some s.slotId,
                activatedAt := at' } : ObstacleReview).Reviews s →
      Change S call calm t { t with
        slots := t.slots ++ [s]
        reviews := Rows.set (·.reviewId) { r with
          state := .active, criticSlotId := some s.slotId, activatedAt := at' } t.reviews }
  | evidence {e : EvidenceEntry} : call.evidenceSlot = some e.slotId → (∃ s ∈ t.slots, s.Wrote e) →
      Change S call calm t { t with evidence := t.evidence ++ [e] }
  | designate {r : ObstacleReview} {updatedAt : SqlReal} : r.state = .pending →
      r.criticSlotId = none → r.confirmationEntryId = none →
      S.roster.critic = some r.criticWorker → (∃ e ∈ t.evidence, r.RootedAt e) →
      r.generation = t.project.generation → t.project.activeReviewId = none →
      Change S call calm t { t with
        reviews := t.reviews ++ [r]
        project := { t.project with activeReviewId := some r.reviewId, updatedAt := updatedAt } }
  | newCandidate {c : Candidate} : NewCandidate S call t c →
      Change S call calm t { t with candidates := t.candidates ++ [c] }
  | candidate {c c' : Candidate} : c ∈ t.candidates → CandidateMove S call t c c' →
      Change S call calm t { t with candidates := Rows.set (·.candidateId) c' t.candidates }

/-- Every task of a generation is in place and frozen. -/
def CoordinationStore.TasksFrozen (S : CoordinationStore) (tasks : List GenerationTask)
    (generation : Nat) : Prop :=
  ∀ w l, (w, l) ∈ S.roster.lanes →
    ∃ a ∈ tasks, a.worker = w ∧ a.lane = l ∧ a.generation = generation ∧ a.frozenAt ≠ none

/-- The next generation runs the finished one's frozen tasks, lane by lane. -/
def CoordinationStore.Carries (S : CoordinationStore) (t : Tables)
    (tasks : List GenerationTask) : Prop :=
  ∀ w l, (w, l) ∈ S.roster.lanes → ∃ a ∈ t.tasks, a.key = (w, t.project.generation) ∧
    a.frozenAt ≠ none ∧ ∃ a' ∈ tasks, a'.key = (w, t.project.generation + 1) ∧ a'.lane = l ∧
      a'.task = a.task ∧ a'.taskSha256 = a.taskSha256 ∧ a'.taskBytes = a.taskBytes

/-- The tasks of a finished generation and those of the next one. -/
structure CoordinationStore.NextTasks (S : CoordinationStore) (t : Tables)
    (tasks : List GenerationTask) : Prop where
  bound : ∀ a ∈ tasks, S.TaskBound a ∧ a.generation ≤ t.project.generation + 1
  kept : ∀ a ∈ t.tasks, a.frozenAt ≠ none → ∃ a' ∈ tasks, a.Continues a'

/-- The reviews of a finished generation: the same ones, closed. -/
structure ClosedReviews (reviews reviews' : List ObstacleReview) : Prop where
  kept : ∀ r ∈ reviews, ∃ r' ∈ reviews', r.SameBinding r' ∧
    (r'.state = r.state ∨ (r.state = .confirmed ∧ r'.state = .resolved) ∨ r.state = .active)
  closed : ∀ r' ∈ reviews', r'.live = false ∧ ∃ r ∈ reviews, r.SameBinding r' ∧
    (r'.state = r.state ∨ (r.state = .active ∧ r'.state = .notConfirmed) ∨
      (r.state = .confirmed ∧ r'.state = .resolved))

/-- The turns of the project row. -/
inductive Turn (S : CoordinationStore) (call : StoreCall) (calm : Prop) (t : Tables) :
    Tables → Prop where
  | enterReview {r : ObstacleReview} {at' deadlineAt : SqlReal} :
      t.project.phase = .reasoning → t.overlaid = false →
      (∀ lane ∈ requiredLanes S.roster, lane ∈ t.completedLanes) → r ∈ t.reviews →
      r.state = .pending → t.project.activeReviewId = some r.reviewId →
      Turn S call calm t { t with project := { t.project with
        phase := .criticReview, phaseStartedAt := at', phaseDeadlineAt := deadlineAt
        updatedAt := at' } }
  | confirm {r : ObstacleReview} {s : RoundSlot} {e : EvidenceEntry} {a : AdvisorRecommendation}
      {updatedAt : SqlReal} :
      r ∈ t.reviews → r.state = .active → s ∈ t.slots → r.Reviews s → e ∈ t.evidence →
      ({ r with state := .confirmed,
                confirmationEntryId := some e.entryId } : ObstacleReview).ConfirmedBy s e →
      ({ r with state := .confirmed,
                confirmationEntryId := some e.entryId } : ObstacleReview).Backs a →
      Turn S call calm t { t with
        reviews := Rows.set (·.reviewId) { r with
          state := .confirmed, confirmationEntryId := some e.entryId } t.reviews
        recommendations := t.recommendations ++ [a]
        project := { t.project with
          phase := .ownerActionRequired, recommendationId := some a.recommendationId
          updatedAt := updatedAt } }
  | advance {tasks : List GenerationTask} {reviews : List ObstacleReview}
      {at' deadlineAt : SqlReal} :
      t.project.phase ≠ .ownerActionRequired → t.overlaid = false →
      (∀ lane ∈ S.phaseLanes t.project.phase, lane ∈ t.completedLanes) →
      (∀ s ∈ t.slots, s.open = false) → S.NextTasks t tasks → S.Carries t tasks →
      ClosedReviews t.reviews reviews → (calm → t.Audited → ∀ a ∈ tasks, a.Timely) →
      Turn S call calm t { t with
        tasks := tasks, reviews := reviews
        project := { t.project with
          generation := t.project.generation + 1, phase := .reasoning, phaseStartedAt := at'
          phaseDeadlineAt := deadlineAt, recommendationId := none, activeReviewId := none
          updatedAt := at' } }
  | resolve {q : ResolutionRequest} {now : Stamp} {tasks : List GenerationTask}
      {reviews : List ObstacleReview} {resolutions : List RecommendationResolution}
      {at' deadlineAt : SqlReal} : call = .resolveRecommendation q now →
      t.project.phase = .ownerActionRequired →
      t.project.recommendationId = some q.recommendationId →
      q.ownerAcknowledgement = q.recommendationId → t.overlaid = false →
      (∀ s ∈ t.slots, s.open = false) → S.NextTasks t tasks →
      S.TasksFrozen tasks (t.project.generation + 1) → ClosedReviews t.reviews reviews →
      (∀ a ∈ tasks, a ∈ t.tasks ∨ a.Timely) →
      Turn S call calm t { t with
        tasks := tasks, reviews := reviews, resolutions := resolutions
        project := { t.project with
          generation := t.project.generation + 1, phase := .reasoning, phaseStartedAt := at'
          phaseDeadlineAt := deadlineAt, recommendationId := none, activeReviewId := none
          updatedAt := at' } }

variable {S : CoordinationStore} {call : StoreCall} {calm : Prop} {t t' : Tables}

theorem NewCandidate.invalidOverlay {c : Candidate} (h : NewCandidate S call t c) :
    CoordinationStore.invalidOverlay c = false := by
  cases h with
  | register _ hid _ =>
    unfold candidateReceiptId at hid
    simp only [except_bind_ok, require_ok] at hid
    obtain ⟨_, _, _, _, _, _, _, hi, _⟩ := hid
    simp [CoordinationStore.invalidOverlay, receiptRow, hi]
  | reuse => simp [CoordinationStore.invalidOverlay, Candidate.overlay, receiptRow]
  | record hs =>
    unfold recordedState? at hs
    split_ifs at hs <;> cases hs <;>
      simp [CoordinationStore.invalidOverlay, Candidate.overlay, recordedRow]

theorem StoreCall.Records.state {current : Nat} {worker candidateId : PyStr} {s : CandidateState}
    {at' : SqlReal} (h : call.Records current worker candidateId s at') :
    s ≠ .active ∧ s ≠ .outcomeUnknown ∧ s ≠ .terminal := by
  obtain ⟨state, _, _, _, _, hs, _⟩ := h
  unfold recordedState? at hs
  split_ifs at hs <;> cases hs <;> simp

theorem CandidateMove.candidateId {c c' : Candidate} (h : CandidateMove S call t c c') :
    c'.candidateId = c.candidateId := by
  cases h <;> rfl

theorem CandidateMove.invalidOverlay {c c' : Candidate} (h : CandidateMove S call t c c')
    (hv : CoordinationStore.invalidOverlay c = false) :
    CoordinationStore.invalidOverlay c' = false := by
  cases h with
  | finish _ _ _ _ _ hst =>
    simp only [CoordinationStore.invalidOverlay, Candidate.overlay, hst, beq_self_eq_true,
      Bool.true_or, Bool.true_and] at hv ⊢
    simp [hv]
  | release => simp [CoordinationStore.invalidOverlay, Candidate.overlay]
  | record hs _ => simp [CoordinationStore.invalidOverlay, Candidate.overlay, hs.state]

/-- Every change within a phase keeps the records coherent. -/
theorem Change.coherent (hv : t.Valid) (hc : S.Coherent t) (h : Change S call calm t t') :
    S.Coherent t' := by
  cases h with
  | book workers cursors => exact hc.book workers cursors
  | tasks hb hf _ => exact hc.withTasks hb hf
  | slot hs hm => exact hc.slotMove hv.slotIds hs hm
  | retime hto hfrom => exact hc.retimeReviews hto hfrom
  | reserve _ hs hg ha _ hp => exact hc.reserve hs hg ha hp
  | reserveCritic _ hs hg ha _ hph hr hst hp =>
    exact hc.reserveCritic hv.reviewIds hph hr hst hs hg ha hp
  | evidence _ hw => exact hc.withEvidence hw
  | designate hst hs hcf hcr he hg ha => exact hc.designate hst hs hcf hcr he hg ha
  | newCandidate hn =>
    apply hc.withCandidates
    intro c hm
    rcases List.mem_append.mp hm with hm | hm
    · exact hc.overlay_identity c hm
    · rw [List.mem_singleton.mp hm]
      exact hn.invalidOverlay
  | candidate hm hmove =>
    apply hc.withCandidates
    intro c hm'
    rcases Rows.mem_set_cases hm' with rfl | hm'
    · exact hmove.invalidOverlay (hc.overlay_identity _ hm)
    · exact hc.overlay_identity c hm'.1

/-- Every turn keeps the records coherent. -/
theorem Turn.coherent (hv : t.Valid) (hc : S.Coherent t) (h : Turn S call calm t t') :
    S.Coherent t' := by
  cases h with
  | enterReview hp _ hd hr hst ha => exact hc.enterReview hp hd hr hst ha
  | confirm hr hst hs hrs he hce hb => exact hc.confirm hv.reviewIds hr hst hs hrs he hce hb
  | advance _ _ _ ho ht _ hr _ => exact hc.nextGeneration ho ht.bound ht.kept hr.kept hr.closed
  | resolve _ _ _ _ _ ho ht _ hr _ => exact hc.nextGeneration ho ht.bound ht.kept hr.kept hr.closed

/-- A calm change leaves nothing the audit rejects. -/
theorem Change.audited (hcalm : calm) (ha : t.Audited) (h : Change S call calm t t') :
    t'.Audited := by
  cases h with
  | tasks _ _ ht =>
    refine ⟨fun a hm => ?_, ha.pinned⟩
    rcases ht a hm with hm | hm
    · exact ha.timely a hm
    · exact hm
  | slot hs hm =>
    refine ⟨ha.timely, fun x hx hd => ?_⟩
    rcases Rows.mem_set_cases hx with rfl | ⟨hx, _⟩
    · exact hm.pinned hcalm (ha.pinned _ hs) hd
    · exact ha.pinned x hx hd
  | reserve _ _ _ _ hst _ =>
    refine ⟨ha.timely, fun x hx hd => ?_⟩
    rcases List.mem_append.mp hx with hx | hx
    · exact ha.pinned x hx hd
    · rw [List.mem_singleton.mp hx] at hd
      simp [RoundSlot.dispatched, hst] at hd
  | reserveCritic _ _ _ _ hst _ _ _ _ =>
    refine ⟨ha.timely, fun x hx hd => ?_⟩
    rcases List.mem_append.mp hx with hx | hx
    · exact ha.pinned x hx hd
    · rw [List.mem_singleton.mp hx] at hd
      simp [RoundSlot.dispatched, hst] at hd
  | _ => exact ⟨ha.timely, ha.pinned⟩

theorem Turn.audited (hcalm : calm) (ha : t.Audited) (h : Turn S call calm t t') :
    t'.Audited := by
  cases h with
  | advance _ _ _ _ _ _ _ ht => exact ⟨ht hcalm ha, ha.pinned⟩
  | resolve _ _ _ _ _ _ _ _ _ ht =>
    refine ⟨fun a hm => ?_, ha.pinned⟩
    rcases ht a hm with hm | hm
    · exact ha.timely a hm
    · exact hm
  | _ => exact ⟨ha.timely, ha.pinned⟩

/-- A change within a phase keeps the generation and the phase. -/
theorem Change.frame (h : Change S call calm t t') :
    t'.project.generation = t.project.generation ∧ t'.project.phase = t.project.phase := by
  cases h <;> exact ⟨rfl, rfl⟩

/-- No turn touches a receipt. -/
theorem Turn.candidates (h : Turn S call calm t t') : t'.candidates = t.candidates := by
  cases h <;> rfl

/-- Databases as the changes of one call leave them. -/
def Changes (S : CoordinationStore) (call : StoreCall) (calm : Prop) :
    Database → Database → Prop :=
  Relation.ReflTransGen fun d d' => Change S call calm d.1 d'.1

variable {d d' d'' : Database}

theorem Changes.coherent (hc : S.Coherent d.1) (h : Changes S call calm d d') :
    S.Coherent d'.1 := by
  induction h with
  | refl => exact hc
  | tail _ hs ih => exact hs.coherent (Subtype.property _) ih

theorem Changes.audited (hcalm : calm) (ha : d.1.Audited) (h : Changes S call calm d d') :
    d'.1.Audited := by
  induction h with
  | refl => exact ha
  | tail _ hs ih => exact hs.audited hcalm ih

theorem Changes.frame (h : Changes S call calm d d') :
    d'.1.project.generation = d.1.project.generation ∧
      d'.1.project.phase = d.1.project.phase := by
  induction h with
  | refl => exact ⟨rfl, rfl⟩
  | tail _ hs ih => exact ⟨hs.frame.1.trans ih.1, hs.frame.2.trans ih.2⟩

theorem Changes.one (h : Change S call calm d.1 d'.1) : Changes S call calm d d' :=
  Relation.ReflTransGen.single h

/-- What one committed call does: changes within the phase, then at most one turn. -/
def CallStep (S : CoordinationStore) (call : StoreCall) (calm : Prop) (d d' : Database) : Prop :=
  ∃ u, Changes S call calm d u ∧ (d' = u ∨ Turn S call calm u.1 d'.1)

theorem Changes.callStep (h : Changes S call calm d d') : CallStep S call calm d d' :=
  ⟨d', h, .inl rfl⟩

theorem CallStep.coherent (hc : S.Coherent d.1) (h : CallStep S call calm d d') :
    S.Coherent d'.1 := by
  obtain ⟨u, hu, rfl | ht⟩ := h
  · exact hu.coherent hc
  · exact ht.coherent u.2 (hu.coherent hc)

theorem CallStep.audited (hcalm : calm) (ha : d.1.Audited) (h : CallStep S call calm d d') :
    d'.1.Audited := by
  obtain ⟨u, hu, rfl | ht⟩ := h
  · exact hu.audited hcalm ha
  · exact ht.audited hcalm (hu.audited hcalm ha)

end Danus.Coordination
