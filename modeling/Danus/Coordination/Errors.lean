import Danus.Coordination.Policy

/-! What the coordinator raises, by the kind of failure, with its texts. -/
namespace Danus.Coordination
open Python

/-- A durable task, slot or prompt binding that fails its own validation. -/
inductive BindingError where
  | taskEmpty | taskTooLong | taskOutsideRoster | taskGeneration | taskBytes | taskTimestamp
  | taskFreezePredatesStaging | legacyBinding | bindingVersion | slotSnapshot | slotNoAssignment
  | slotConflict | partialPrompt | dispatchedUnpinned | invalidPrompt | promptConflict
  | schemaInconsistent | futureTask | strayFutureTask | taskLane | taskUnexpectedWorker
  | directiveConflict | overlayIdentity

def BindingError.message : BindingError → String
  | .taskEmpty => "task assignment must be non-empty text"
  | .taskTooLong => "task assignment exceeds its hard limit"
  | .taskOutsideRoster => "generation task is outside the protected paid-lane roster"
  | .taskGeneration => "generation task has an invalid generation"
  | .taskBytes => "generation task bytes do not match their durable identity"
  | .taskTimestamp => "generation task has an invalid timestamp"
  | .taskFreezePredatesStaging => "generation task freeze predates its durable staging"
  | .legacyBinding => "legacy task binding is not an exact terminal migration"
  | .bindingVersion => "round slot has an invalid task-binding version"
  | .slotSnapshot => "round slot task snapshot failed its durable hash"
  | .slotNoAssignment => "round slot has no matching durable generation task"
  | .slotConflict => "round slot conflicts with its durable generation task"
  | .partialPrompt => "round slot has a partial generated-prompt binding"
  | .dispatchedUnpinned => "dispatched round slot has no pinned prompt"
  | .invalidPrompt => "round slot has an invalid pinned prompt"
  | .promptConflict => "round slot prompt conflicts with its task/slot/generation binding"
  | .schemaInconsistent => "coordination task-binding schema version is inconsistent"
  | .futureTask => "generation task targets an impossible future generation"
  | .strayFutureTask => "future generation task exists outside owner-action staging"
  | .taskLane => "generation task lane conflicts with the protected roster"
  | .taskUnexpectedWorker => "generation task includes a worker outside the paid roster"
  | .directiveConflict => "paid slot directive conflicts with protected identity"
  | .overlayIdentity => "active candidate has no canonical full fact identity"

/-- Rows or pointers that contradict each other, and compare-and-sets that lost. -/
inductive Contradiction where
  | slotWithoutTask | stageCas | freezeCas | carryNotFrozen | carryConflict | carryDisappeared
  | slotNotCanonical | reconciliationRoster | reconciliationGeneration | reconciliationFuture
  | reviewPointer | rootReviewCas | notPrepared | expiryCas | admissionLane | admissionFreezeCas
  | criticAdmissionCas | admittedDisappeared | pinDisappeared | activationDisappeared
  | ambiguousCas | nonPendingReview | criticPhaseCas | noActiveReview | reviewTerminalCas
  | advanceCas | reviewReceipt | publicationReview | confirmedUnnamed | activeNamed
  | confirmationReview | confirmationRoot | confirmationCas | recommendationCas
  | reconcileReviewCas | recommendationUnbound | recommendationReviewNotReady
  | resolutionUnbound | legacyPointer | resolveReviewCas | resolveProjectCas
  | resolutionDisappeared | registeredDisappeared | terminalDisappeared | reuseDisappeared
  | resolvedDisappeared

def Contradiction.message : Contradiction → String
  | .slotWithoutTask => "round slot exists without its durable task assignment"
  | .stageCas => "task assignment replacement lost its CAS"
  | .freezeCas => "generation task freeze lost its exact CAS"
  | .carryNotFrozen => "completed generation has no exact frozen task set to carry forward"
  | .carryConflict => "automatic generation advance found conflicting future tasks"
  | .carryDisappeared => "completed generation task disappeared during carry-forward"
  | .slotNotCanonical => "paid slot is not in the current canonical phase"
  | .reconciliationRoster => "terminal-reconciliation slot is outside the canonical roster"
  | .reconciliationGeneration =>
    "live terminal-reconciliation slot is outside the current generation"
  | .reconciliationFuture => "terminal-reconciliation slot is from an impossible future generation"
  | .reviewPointer => "active obstacle review pointer is inconsistent"
  | .rootReviewCas => "root review pointer transition lost its CAS"
  | .notPrepared => "only a prepared slot is expiry-terminalizable"
  | .expiryCas => "prepared slot expiry transition lost its CAS"
  | .admissionLane => "current generation task lane conflicts with admission"
  | .admissionFreezeCas => "generation task admission freeze lost its CAS"
  | .criticAdmissionCas => "critic review admission lost its CAS"
  | .admittedDisappeared => "admitted round slot disappeared"
  | .pinDisappeared => "round slot disappeared while pinning prompt"
  | .activationDisappeared => "round slot disappeared during activation"
  | .ambiguousCas => "round slot is not ambiguity-preservable"
  | .nonPendingReview => "reasoning phase has a non-pending obstacle review"
  | .criticPhaseCas => "critic review phase transition lost its CAS"
  | .noActiveReview => "terminal critic review has no exact active review"
  | .reviewTerminalCas => "unconfirmed critic review terminal transition lost its CAS"
  | .advanceCas => "generation advance lost its CAS"
  | .reviewReceipt => "critic review terminal receipt conflicts with review identity"
  | .publicationReview => "critic confirmation conflicts with the active designated review"
  | .confirmedUnnamed => "confirmed critic review has no canonical confirmation"
  | .activeNamed => "active critic review already names a confirmation"
  | .confirmationReview => "critic confirmation conflicts with the durable designated review"
  | .confirmationRoot => "critic confirmation must name exact current-generation root evidence"
  | .confirmationCas => "critic review confirmation lost its CAS"
  | .recommendationCas => "recommendation phase transition lost its CAS"
  | .reconcileReviewCas => "terminal critic confirmation lost its review CAS"
  | .recommendationUnbound => "recommendation is not bound to one active durable review"
  | .recommendationReviewNotReady => "recommendation durable review binding is not ready"
  | .resolutionUnbound => "recommendation is not bound to one confirmed durable review"
  | .legacyPointer => "legacy recommendation has an inconsistent active review pointer"
  | .resolveReviewCas => "recommendation review resolution lost its CAS"
  | .resolveProjectCas => "recommendation owner resolution lost its project CAS"
  | .resolutionDisappeared => "recommendation resolution disappeared"
  | .registeredDisappeared => "registered candidate disappeared"
  | .terminalDisappeared => "terminal candidate disappeared"
  | .reuseDisappeared => "exact-reuse receipt disappeared"
  | .resolvedDisappeared => "owner-resolved candidate disappeared"

/-- A request refused for its arguments or for the state it found. -/
inductive Refusal where
  | identifier (label : String) | sha256 (label : String) | candidateFactId | sourceId
  | candidateFactIdentity | contextDigest | reviewGeneration | resolutionUnsupported
  | ownerAcknowledgement | guidanceEntryId | continueBindsGuidance | guidanceIncomplete
  | configurationChanged | unsupportedSchema (version : Nat) | explorerSchema | stagingHorizon
  | unprotectedTask | assignmentTimestamp | candidateFreezesTasks | taskFrozen
  | stagingIncomplete (generation : Nat) (missing : List PyStr) | noTaskAssignment | noPaidSlot
  | noReconciliationSlot | noCandidateSlot | candidateGeneration | rootConfirmationLink
  | criticLinkKind | designatedSlot | explorerLink | reviewNotCanonical | reviewRedesignated
  | otherReviewLive | promptEmpty | promptTooLong | notPinnable | promptUnbound | notActivatable
  | noPinnedPrompt | deadlineExceeded | notAmbiguable | outcomeEmpty | outcomeTooLong | noSlot
  | outcomeConflict | noRecommendation | recommendationResolved | recommendationNotCurrent
  | recommendationOpenSlots | recommendationOverlay | onlyRoot | onlyCritic | otherConfirmation
  | resolutionConflict | ownerRequirement | resumeOpenSlots | resumeOverlay | evidenceConflict
  | batchTooLong | memoryConflict | rootAmbiguous | genericConfirmation | criticAmbiguous
  | explorerMemory | designatedRoot | noDesignatedReview | cursorGeneration | receiptUnbound
  | overlayActive | receiptConflict | outcomeUnsupported | notTerminalizable | ownerRequired
  | terminalConflict | reuseConflict | ownerResolutionUnsupported | unknownUnacknowledged
  | activeNoPromotion | noReceipt | sourceSlotOpen | ownerConflict | knownTerminal
  | candidateState | recordGeneration | candidateIdConflict

def Refusal.message : Refusal → String
  | .identifier label => label ++ " is not a bounded identifier"
  | .sha256 label => label ++ " must be 64 lowercase hex"
  | .candidateFactId => "candidate_fact_id must be 16 lowercase hex"
  | .sourceId => "source_id must be null or 16 lowercase hex"
  | .candidateFactIdentity => "candidate_fact_identity must be 64 lowercase hex"
  | .contextDigest => "context_digest must be 64 lowercase hex"
  | .reviewGeneration => "review generation must be positive"
  | .resolutionUnsupported => "recommendation resolution is unsupported"
  | .ownerAcknowledgement => "owner acknowledgement must exactly equal the recommendation id"
  | .guidanceEntryId => "master guidance entry id must be 16 lowercase hex"
  | .continueBindsGuidance =>
    "continue-without-advisor cannot bind master guidance or browser receipt"
  | .guidanceIncomplete =>
    "adopted master guidance requires exact entry/digest and complete browser receipt"
  | .configurationChanged => "project coordination configuration changed after initialization"
  | .unsupportedSchema v => "unsupported coordination schema version " ++ toString v
  | .explorerSchema => "coordination schema v7 cannot represent explorer lanes"
  | .stagingHorizon => "task-staging generation is outside the durable horizon"
  | .unprotectedTask => "only protected paid-lane workers have durable task assignments"
  | .assignmentTimestamp => "task assignment timestamp is invalid"
  | .candidateFreezesTasks => "active candidate freezes durable task assignment"
  | .taskFrozen => "durable task assignment is frozen for this generation"
  | .stagingIncomplete g missing => "generation " ++ toString g ++ " task staging is incomplete: " ++
    String.ofList (joinWith ", ".toList missing)
  | .noTaskAssignment => "current generation has no durable task assignment for worker"
  | .noPaidSlot => "worker has no matching canonical paid slot"
  | .noReconciliationSlot => "worker has no exact terminal-reconciliation slot"
  | .noCandidateSlot => "candidate has no matching canonical slot"
  | .candidateGeneration => "candidate slot is not in the canonical generation"
  | .rootConfirmationLink => "root publications cannot carry critic confirmation links"
  | .criticLinkKind => "critic confirmation links require obstacle/dead_end evidence"
  | .designatedSlot => "critic confirmation requires its exact designated review slot"
  | .explorerLink => "explorer publications cannot confirm root evidence"
  | .reviewNotCanonical => "root review identity is not canonical evidence"
  | .reviewRedesignated => "root slot already designated a different obstacle review"
  | .otherReviewLive => "another obstacle review is already live for this project"
  | .promptEmpty => "pinned prompt must be non-empty"
  | .promptTooLong => "pinned prompt exceeds its hard limit"
  | .notPinnable => "round slot is not prompt-pinnable"
  | .promptUnbound => "pinned prompt does not bind exact slot/generation/task identity"
  | .notActivatable => "round slot is not activatable"
  | .noPinnedPrompt => "round slot has no pinned prompt"
  | .deadlineExceeded => "phase deadline exceeded before paid slot activation"
  | .notAmbiguable => "round slot is not ambiguity-preservable"
  | .outcomeEmpty => "round outcome must be non-empty"
  | .outcomeTooLong => "round outcome exceeds its hard limit"
  | .noSlot => "round slot does not exist"
  | .outcomeConflict => "round terminal outcome conflicts"
  | .noRecommendation => "recommendation does not exist"
  | .recommendationResolved => "recommendation is already resolved"
  | .recommendationNotCurrent =>
    "recommendation is not the current open owner-action requirement"
  | .recommendationOpenSlots => "recommendation generation has nonterminal paid slots"
  | .recommendationOverlay => "recommendation generation has an active candidate overlay"
  | .onlyRoot => "only root may record obstacle/dead_end evidence"
  | .onlyCritic => "only critic may confirm root evidence"
  | .otherConfirmation => "critic review already has another confirmation"
  | .resolutionConflict => "recommendation already has a conflicting owner resolution"
  | .ownerRequirement => "recommendation is not the current owner-action requirement"
  | .resumeOpenSlots => "all recommendation-generation slots must be terminal before resume"
  | .resumeOverlay => "candidate overlay must be terminal before recommendation resume"
  | .evidenceConflict => "evidence entry id conflicts with prior state"
  | .batchTooLong => "memory reconciliation batch exceeds its hard limit"
  | .memoryConflict => "terminal memory entry id has conflicting evidence identity"
  | .rootAmbiguous =>
    "root slot has multiple obstacle entries; review designation is ambiguous"
  | .genericConfirmation => "generic critic confirmation cannot create a recommendation"
  | .criticAmbiguous => "critic review has multiple confirmations; designation is ambiguous"
  | .explorerMemory => "explorer memory cannot enter obstacle-review evidence"
  | .designatedRoot => "critic confirmation does not match its designated root entry"
  | .noDesignatedReview => "terminal critic confirmation has no active designated review"
  | .cursorGeneration => "memory cursor generation is not current"
  | .receiptUnbound => "candidate receipt does not bind its exact identity"
  | .overlayActive => "another candidate overlay is already active"
  | .receiptConflict => "candidate receipt conflicts with prior coordination state"
  | .outcomeUnsupported => "candidate outcome is unsupported"
  | .notTerminalizable => "candidate is not terminalizable by this slot"
  | .ownerRequired => "outcome-unknown candidate requires explicit owner resolution"
  | .terminalConflict => "candidate terminal outcome conflicts"
  | .reuseConflict => "exact-reuse receipt conflicts with prior candidate state"
  | .ownerResolutionUnsupported => "candidate owner resolution is unsupported"
  | .unknownUnacknowledged => "owner must acknowledge that the paid candidate outcome is unknown"
  | .activeNoPromotion => "known-no-promotion cannot resolve an active candidate fact"
  | .noReceipt => "candidate receipt does not exist"
  | .sourceSlotOpen =>
    "candidate source slot is not terminal; first fail-stop and reconcile the paid turn"
  | .ownerConflict => "candidate owner resolution conflicts"
  | .knownTerminal => "a known terminal candidate does not need owner resolution"
  | .candidateState => "candidate state is invalid"
  | .recordGeneration => "candidate generation is not current"
  | .candidateIdConflict => "candidate id conflicts with prior state"

/-- A `CoordinationError`, a `TypeError` of a set lookup, or SQLite's `IntegrityError`. -/
inductive StoreError where
  | binding (e : BindingError)
  | contradiction (e : Contradiction)
  | refusal (e : Refusal)
  | directive (e : DirectiveError)
  | typeError
  | sqlite

def StoreError.message : StoreError → String
  | .binding e => e.message
  | .contradiction e => e.message
  | .refusal e => e.message
  | .directive e => e.message
  | .typeError => "unhashable type"
  | .sqlite => "constraint failed"

/-- The error reports a record that contradicts itself. -/
@[simp] def StoreError.isContradiction : StoreError → Bool
  | .contradiction _ => true
  | _ => false

/-- The error reports a durable binding that fails its validation. -/
@[simp] def StoreError.isBinding : StoreError → Bool
  | .binding _ => true
  | _ => false

end Danus.Coordination
