import Danus.Coordination.Evidence

/-! The candidate overlay: receipts that freeze paid admission while a verify call is out. -/
namespace Danus.Coordination
open Python Transaction

/-- The identity a candidate receipt binds. -/
structure CandidateIdentity where
  slotId : PyStr
  candidateFactId : PyStr
  candidateFactIdentity : PyStr
  sourceId : Option PyStr
  contextDigest : PyStr
  deriving DecidableEq

/-- `candidate_receipt_id` -/
def candidateReceiptId (c : CandidateIdentity) : Except StoreError PyStr := do
  require (isIdentifier c.slotId = true) (.refusal (.identifier "slot_id"))
  require (isHexOf 16 c.candidateFactId = true) (.refusal .candidateFactId)
  require (optionalHex 16 c.sourceId) (.refusal .sourceId)
  require (isHexOf 64 c.candidateFactIdentity = true) (.refusal .candidateFactIdentity)
  require (isHexOf 64 c.contextDigest = true) (.refusal .contextDigest)
  return Sha256.hexdigest (Json.preimage (Json.compact true true) (.obj [
    ("schema".toList, .str "danus_reasoning_candidate_receipt_v2".toList),
    ("slot_id".toList, .str c.slotId),
    ("candidate_fact_id".toList, .str c.candidateFactId),
    ("candidate_fact_identity".toList, .str c.candidateFactIdentity),
    ("source_id".toList, .ofOption c.sourceId),
    ("context_digest".toList, .str c.contextDigest)]))

/-- The context digest of a reuse receipt. -/
def reuseContextDigest (slotId candidateFactId candidateFactIdentity : PyStr)
    (sourceId : Option PyStr) : PyStr :=
  Sha256.hexdigest (Json.preimage (Json.compact false false) (.arr [
    .str "active_exact_fact_reuse_v1".toList, .str slotId, .str candidateFactId,
    .str candidateFactIdentity, .ofOption sourceId]))

/-- The receipt row binds exactly this identity, slot generation, worker and lane. -/
def Candidate.binds (row : Candidate) (c : CandidateIdentity) (slot : RoundSlot)
    (worker : PyStr) : Prop :=
  row.generation = slot.generation ∧ row.slotId = some c.slotId ∧
    row.candidateFactId = some c.candidateFactId ∧
    row.candidateFactIdentity = some c.candidateFactIdentity ∧ row.sourceId = c.sourceId ∧
    row.contextDigest = some c.contextDigest ∧ row.worker = worker ∧ row.lane = slot.lane

instance (row : Candidate) (c : CandidateIdentity) (slot : RoundSlot) (worker : PyStr) :
    Decidable (row.binds c slot worker) :=
  inferInstanceAs (Decidable (_ ∧ _ ∧ _ ∧ _ ∧ _ ∧ _ ∧ _ ∧ _))

/-- A new receipt row of this identity. -/
def receiptRow (receipt : PyStr) (c : CandidateIdentity) (slot : RoundSlot) (worker : PyStr)
    (state : CandidateState) (outcome : Option CandidateOutcome) (at' : SqlReal)
    (terminalAt : Option SqlReal) : Candidate where
  candidateId := receipt
  generation := slot.generation
  slotId := some c.slotId
  candidateFactId := some c.candidateFactId
  candidateFactIdentity := some c.candidateFactIdentity
  sourceId := c.sourceId
  contextDigest := some c.contextDigest
  worker := worker
  lane := slot.lane
  state := state
  outcome := outcome
  createdAt := at'
  updatedAt := at'
  terminalAt := terminalAt
  ownerResolution := none
  ownerAcknowledgedUnknown := none
  candidateFactActiveAtResolution := none
  ownerResolvedAt := none

/-- `resolution in {"known_no_promotion", "abandon_unknown"}` -/
def ownerResolution? (text : PyStr) : Option OwnerResolution :=
  if text = "known_no_promotion".toList then some .knownNoPromotion
  else if text = "abandon_unknown".toList then some .abandonUnknown
  else none

/-- `state in {"observed", "promising", "rejected", "selected"}` -/
def recordedState? (text : PyStr) : Option CandidateState :=
  if text = "observed".toList then some .observed
  else if text = "promising".toList then some .promising
  else if text = "rejected".toList then some .rejected
  else if text = "selected".toList then some .selected
  else none

/-- The upsert of `record_candidate` changes this row. -/
def Candidate.recordable (row : Candidate) (candidateId : PyStr) (generation : Nat)
    (worker : PyStr) (lane : Lane) : Bool :=
  row.candidateId == candidateId && row.generation == generation && row.worker == worker &&
    row.lane == lane

/-- The row `record_candidate` inserts. -/
def recordedRow (candidateId : PyStr) (generation : Nat) (worker : PyStr) (lane : Lane)
    (state : CandidateState) (at' : SqlReal) : Candidate where
  candidateId := candidateId
  generation := generation
  slotId := none
  candidateFactId := none
  candidateFactIdentity := none
  sourceId := none
  contextDigest := none
  worker := worker
  lane := lane
  state := state
  outcome := none
  createdAt := at'
  updatedAt := at'
  terminalAt := none
  ownerResolution := none
  ownerAcknowledgedUnknown := none
  candidateFactActiveAtResolution := none
  ownerResolvedAt := none

/-- The upsert of `set_memory_cursor`. -/
def putCursor (c : MemoryCursor) (rows : List MemoryCursor) : List MemoryCursor :=
  if rows.any fun r => r.worker == c.worker && r.stream == c.stream then
    Rows.update (fun r => r.worker == c.worker && r.stream == c.stream) (fun _ => c) rows
  else rows ++ [c]

/-- The source slot of an overlay row is terminal. -/
def Tables.sourceTerminal (t : Tables) (row : Candidate) : Bool :=
  match row.slotId.bind t.slot? with
  | some slot => slot.state == .terminal
  | none => false

namespace CoordinationStore
variable (S : CoordinationStore)

/-- The slot a new receipt needs, or the one a replayed receipt names. -/
def receiptSlot (worker slotId : PyStr) (existing : Option Candidate) (current : Bool) :
    StoreTx RoundSlot :=
  match existing with
  | none => S.canonicalPaidSlot worker (some slotId)
  | some _ => S.canonicalCandidateSlot worker slotId current

end CoordinationStore

/-- The new receipt of `register_candidate`, or the check of the one it replays. -/
def registerReceipt (receipt : PyStr) (c : CandidateIdentity) (slot : RoundSlot) (worker : PyStr)
    (registeredAt : Stamp) : Option Candidate → StoreTx Unit
  | none => do
    let t ← look
    Tx.ensure (t.overlaid = false) (.refusal .overlayActive)
    let at' ← notNull registeredAt
    let row := receiptRow receipt c slot worker .active none at' none
    put fun t => { t with candidates := t.candidates ++ [row] }
  | some row =>
    Tx.ensure (row.binds c slot worker ∧ (row.overlay = true ∨ row.state = .terminal))
      (.refusal .receiptConflict)

/-- The new receipt of `record_exact_fact_reuse`, or the check of the one it replays. -/
def reuseReceipt (receipt : PyStr) (c : CandidateIdentity) (slot : RoundSlot) (worker : PyStr)
    (recordedAt : Stamp) : Option Candidate → StoreTx Unit
  | none => do
    let at' ← notNull recordedAt
    let row := receiptRow receipt c slot worker .terminal (some .correct) at' (some at')
    put fun t => { t with candidates := t.candidates ++ [row] }
  | some row =>
    Tx.ensure (row.binds c slot worker ∧ row.state = .terminal ∧ row.outcome = some .correct)
      (.refusal .reuseConflict)

/-- The receipt a call ends with; one that is gone raises after the commit. -/
def finalReceipt (receipt : PyStr) (lost : Contradiction) :
    StoreTx (Except StoreError Candidate) := do
  let t ← look
  return requireSome (t.candidate? receipt) (.contradiction lost)

namespace CoordinationStore
variable (S : CoordinationStore)

/-- `register_candidate`; the returned row is the one its projection shows. -/
def registerCandidate (worker receipt : PyStr) (c : CandidateIdentity) (registeredAt : Stamp) :
    StoreTx (Except StoreError Candidate) := do
  let expected ← Tx.check (candidateReceiptId c)
  Tx.ensure (receipt = expected) (.refusal .receiptUnbound)
  let t ← look
  let existing := t.candidate? receipt
  let slot ← S.receiptSlot worker c.slotId existing (existing.all (·.state != .terminal))
  registerReceipt receipt c slot worker registeredAt existing
  finalReceipt receipt .registeredDisappeared

end CoordinationStore

/-- The `UPDATE` of `terminalize_candidate` on an active receipt. -/
def finishCandidate (receipt : PyStr) (outcome : CandidateOutcome) (terminalAt : Stamp) :
    StoreTx Unit := do
  let at' ← notNull terminalAt
  let terminal := outcome != .outcomeUnknown
  let _ ← updateCandidates (fun c => decide (c.candidateId = receipt) && c.state == .active)
    fun c => { c with
      state := if terminal then .terminal else .outcomeUnknown, outcome := some outcome
      updatedAt := at', terminalAt := if terminal then some at' else none }

/-- What `terminalize_candidate` does with the receipt in its state. -/
def terminalizeReceipt (row : Candidate) (outcome : CandidateOutcome) (terminalAt : Stamp) :
    StoreTx Unit :=
  if row.state = .outcomeUnknown then
    Tx.ensure (outcome = .outcomeUnknown ∧ row.outcome = some outcome) (.refusal .ownerRequired)
  else if row.state = .terminal then
    Tx.ensure (row.outcome = some outcome) (.refusal .terminalConflict)
  else finishCandidate row.candidateId outcome terminalAt

namespace CoordinationStore
variable (S : CoordinationStore)

/-- `terminalize_candidate` -/
def terminalizeCandidate (worker receipt slotId outcome : PyStr) (terminalAt : Stamp) :
    StoreTx (Except StoreError Candidate) := do
  Tx.ensure (isHexOf 64 receipt = true) (.refusal (.sha256 "candidate_receipt_id"))
  let outcome ← Tx.fetched (CandidateOutcome.ofText? outcome) (.refusal .outcomeUnsupported)
  let t ← look
  let row := t.candidate? receipt
  let _ ← S.canonicalCandidateSlot worker slotId (row.all (·.state != .terminal))
  let row ← Tx.fetched (row.filter fun r => r.worker == worker && r.slotId == some slotId &&
    (r.overlay || r.state == .terminal)) (.refusal .notTerminalizable)
  terminalizeReceipt row outcome terminalAt
  Tx.when (candidateOutcomeReleases outcome = true) do
    let _ ← S.advanceGenerationIfReady terminalAt
  finalReceipt receipt .terminalDisappeared

/-- `record_exact_fact_reuse` -/
def recordExactFactReuse (worker slotId candidateFactId candidateFactIdentity : PyStr)
    (sourceId : Option PyStr) (recordedAt : Stamp) : StoreTx (Except StoreError Candidate) := do
  validateIdentifier slotId "slot_id"
  let c : CandidateIdentity := ⟨slotId, candidateFactId, candidateFactIdentity, sourceId,
    reuseContextDigest slotId candidateFactId candidateFactIdentity sourceId⟩
  let receipt ← Tx.check (candidateReceiptId c)
  let t ← look
  let existing := t.candidate? receipt
  let slot ← S.receiptSlot worker slotId existing false
  reuseReceipt receipt c slot worker recordedAt existing
  finalReceipt receipt .reuseDisappeared

end CoordinationStore

/-- The owner's `UPDATE` of an overlay receipt. -/
def releaseCandidate (receipt : PyStr) (resolution : OwnerResolution) (factActive : Bool)
    (resolvedAt : Stamp) : StoreTx Unit := do
  let at' ← notNull resolvedAt
  let _ ← updateCandidates (fun c => decide (c.candidateId = receipt) && c.overlay)
    fun c => { c with
      state := .terminal, outcome := some .outcomeUnknown, updatedAt := at'
      terminalAt := some at', ownerResolution := some resolution
      ownerAcknowledgedUnknown := some true, candidateFactActiveAtResolution := some factActive
      ownerResolvedAt := some at' }

/-- What the owner's resolution does with the receipt in its state. -/
def resolveReceipt (row : Candidate) (resolution : OwnerResolution) (factActive : Bool)
    (resolvedAt : Stamp) : StoreTx Unit :=
  if row.overlay = true then releaseCandidate row.candidateId resolution factActive resolvedAt
  else if row.state = .terminal ∧ row.ownerResolution ≠ none then
    Tx.ensure (row.ownerResolution = some resolution ∧
        row.ownerAcknowledgedUnknown = some true ∧
        row.candidateFactActiveAtResolution.getD false = factActive) (.refusal .ownerConflict)
  else Tx.raise (.refusal .knownTerminal)

/-- The upsert of `record_candidate`. -/
def recordReceipt (new : Candidate) : Option Candidate → StoreTx Unit
  | none => put fun t => { t with candidates := t.candidates ++ [new] }
  | some _ => do
    let _ ← updateCandidates (·.recordable new.candidateId new.generation new.worker new.lane)
      fun c => { c with state := new.state, updatedAt := new.updatedAt }

namespace CoordinationStore
variable (S : CoordinationStore)

/-- `resolve_candidate_outcome_unknown` -/
def resolveCandidateOutcomeUnknown (receipt resolution : PyStr) (acknowledged factActive : Bool)
    (resolvedAt : Stamp) : StoreTx (Except StoreError Candidate) := do
  Tx.ensure (isHexOf 64 receipt = true) (.refusal (.sha256 "candidate_receipt_id"))
  let resolution ← Tx.fetched (ownerResolution? resolution) (.refusal .ownerResolutionUnsupported)
  Tx.ensure (acknowledged = true) (.refusal .unknownUnacknowledged)
  Tx.ensure (¬ (resolution = .knownNoPromotion ∧ factActive = true)) (.refusal .activeNoPromotion)
  let t ← look
  let row ← Tx.fetched (t.candidate? receipt) (.refusal .noReceipt)
  Tx.ensure (row.overlay = true → t.sourceTerminal row = true) (.refusal .sourceSlotOpen)
  resolveReceipt row resolution factActive resolvedAt
  let _ ← S.advanceGenerationIfReady resolvedAt
  finalReceipt receipt .resolvedDisappeared

/-- `record_candidate` -/
def recordCandidate (worker candidateId state : PyStr) (generation : Option Nat)
    (observedAt : Stamp) : StoreTx Candidate := do
  validateIdentifier worker "worker"
  validateIdentifier candidateId "candidate_id"
  let state ← Tx.fetched (recordedState? state) (.refusal .candidateState)
  let lane := S.workerLane worker
  let t ← look
  let target := generation.getD t.project.generation
  Tx.ensure (target = t.project.generation) (.refusal .recordGeneration)
  let at' ← notNull observedAt
  recordReceipt (recordedRow candidateId target worker lane state at') (t.candidate? candidateId)
  let t ← look
  Tx.fetched ((t.candidate? candidateId).filter fun r => r.generation == target &&
    r.worker == worker && r.lane == lane) (.refusal .candidateIdConflict)

end CoordinationStore

/-- `set_memory_cursor` -/
def setMemoryCursor (worker stream cursor : PyStr) (generation : Option Nat) (observedAt : Stamp) :
    StoreTx MemoryCursor := do
  validateIdentifier worker "worker"
  validateIdentifier stream "stream"
  validateIdentifier cursor "cursor"
  let t ← look
  let target := generation.getD t.project.generation
  Tx.ensure (target = t.project.generation) (.refusal .cursorGeneration)
  let at' ← notNull observedAt
  let new : MemoryCursor := ⟨worker, stream, cursor, target, at'⟩
  put fun t => { t with cursors := putCursor new t.cursors }
  return new

end Danus.Coordination
