import Danus.Coordination.Rounds

/-! Root evidence, critic confirmations, their replay from global memory, and the owner's
resolution of a recommendation. -/
namespace Danus.Coordination
open Python Transaction

/-- `kind in {"obstacle", "dead_end"}` -/
def obstacleKind? (kind : PyStr) : Option EvidenceKind :=
  if kind = "obstacle".toList then some .obstacle
  else if kind = "dead_end".toList then some .deadEnd
  else none

/-- What a registered evidence entry reports. -/
structure EvidenceReply where
  entryId : PyStr
  generation : Nat
  slotId : PyStr
  worker : PyStr
  lane : Lane
  kind : EvidenceKind
  confirmsEntryId : Option PyStr
  reviewId : Option PyStr
  recommendationId : Option PyStr

/-- What `validate_memory_publication` returns. -/
structure PublicationReply where
  slotId : PyStr
  generation : Nat
  lane : Lane
  phase : Phase
  reviewId : Option PyStr
  designatedRootEntryId : Option PyStr
  boundedReviewRecord : Bool
  requiresExistingReplay : Bool
  registeredEntryId : Option PyStr

namespace CoordinationStore
variable (S : CoordinationStore)

/-- `record_root_evidence` -/
def recordRootEvidence (worker kind entryId slotId : PyStr) (createdAt : Stamp) :
    StoreTx EvidenceReply := do
  validateIdentifier worker "worker"
  Tx.ensure (S.workerLane worker = .root) (.refusal .onlyRoot)
  let kind ← Tx.fetched (obstacleKind? kind) (.refusal .onlyRoot)
  validateIdentifier entryId "entry_id"
  let slot ← S.canonicalPaidSlot worker (some slotId)
  insertEvidence entryId slot worker .root kind none createdAt
  let reviewId ← S.ensureReviewForRoot entryId slot.slotId slot.generation createdAt
  return ⟨entryId, slot.generation, slot.slotId, worker, .root, kind, none, reviewId, none⟩

end CoordinationStore

/-- A critic slot's review, as `confirm_root_evidence` and reconciliation require it. -/
def ObstacleReview.designates (r : ObstacleReview) (slot : RoundSlot) (rootEntryId : PyStr) : Bool :=
  r.criticSlotId == some slot.slotId && r.rootEntryId == rootEntryId &&
    (r.state == .active || r.state == .confirmed)

def Tables.designatedReview? (t : Tables) (slot : RoundSlot) (rootEntryId : PyStr) :
    Option ObstacleReview :=
  (slot.reviewId.bind t.review?).filter (·.designates slot rootEntryId)

/-- The `UPDATE` that confirms an active review. -/
def confirmReview (review : ObstacleReview) (criticEntryId : PyStr) : StoreTx Nat :=
  updateReviews
    (fun r => decide (r.reviewId = review.reviewId) &&
      (r.state == .active && r.confirmationEntryId.isNone))
    fun r => { r with state := .confirmed, confirmationEntryId := some criticEntryId }

/-- Confirm an active review, or check that a confirmed one names this entry. -/
def confirmOrReplay (review : ObstacleReview) (criticEntryId : PyStr) (lost : Contradiction) :
    StoreTx Unit :=
  if review.state = .active then do
    let changed ← confirmReview review criticEntryId
    Tx.ensure (changed = 1) (.contradiction lost)
  else Tx.ensure (review.confirmationEntryId = some criticEntryId) (.refusal .otherConfirmation)

namespace CoordinationStore
variable (S : CoordinationStore)

/-- `confirm_root_evidence` -/
def confirmRootEvidence (worker rootEntryId entryId slotId uuid : PyStr) (createdAt : Stamp) :
    StoreTx EvidenceReply := do
  validateIdentifier worker "worker"
  Tx.ensure (S.workerLane worker = .critic) (.refusal .onlyCritic)
  validateIdentifier rootEntryId "confirms_entry_id"
  validateIdentifier entryId "entry_id"
  let slot ← S.canonicalPaidSlot worker (some slotId)
  Tx.ensure (slot.phase = .criticReview ∧ slot.reviewId ≠ none ∧
      slot.designatedRootEntryId = some rootEntryId) (.refusal .designatedSlot)
  let t ← look
  let review ← Tx.fetched (t.designatedReview? slot rootEntryId)
    (.contradiction .confirmationReview)
  Tx.ensure (t.rootEvidence rootEntryId slot.generation = true) (.contradiction .confirmationRoot)
  insertEvidence entryId slot worker .critic .criticConfirmation (some rootEntryId) createdAt
  confirmOrReplay review entryId .confirmationCas
  let recommendationId ←
    ensureRecommendation uuid review.reviewId rootEntryId entryId slot.generation createdAt
  return ⟨entryId, slot.generation, slot.slotId, worker, .critic, .criticConfirmation,
    some rootEntryId, some review.reviewId, recommendationId⟩

/-- The critic branch of `validate_memory_publication`: the registered confirmation, if any. -/
def criticPublication (t : Tables) (slot : RoundSlot) (kind confirmsEntryId : PyStr) :
    Except StoreError (Option PyStr) := do
  require ((obstacleKind? kind).isSome = true) (.refusal .criticLinkKind)
  require (slot.phase = .criticReview ∧ slot.reviewId ≠ none ∧
    slot.designatedRootEntryId = some confirmsEntryId) (.refusal .designatedSlot)
  match t.designatedReview? slot confirmsEntryId with
  | none => .error (.contradiction .publicationReview)
  | some review => do
    require (review.state ≠ .confirmed ∨ review.confirmationEntryId ≠ none)
      (.contradiction .confirmedUnnamed)
    require (review.state = .confirmed ∨ review.confirmationEntryId = none)
      (.contradiction .activeNamed)
    return review.confirmationEntryId

/-- `validate_memory_publication` -/
def validateMemoryPublication (worker slotId kind : PyStr) (confirmsEntryId : Option PyStr) :
    StoreTx PublicationReply := do
  Tx.when (confirmsEntryId.isSome = true)
    (validateIdentifier (confirmsEntryId.getD []) "confirms_entry_id")
  let slot ← S.canonicalPaidSlot worker (some slotId)
  let t ← look
  let reply := fun (sensitive : Bool) (registered : Option PyStr) =>
    (⟨slot.slotId, slot.generation, slot.lane, slot.phase, slot.reviewId,
      slot.designatedRootEntryId, sensitive, registered.isSome, registered⟩ : PublicationReply)
  match slot.lane, confirmsEntryId with
  | .root, some _ => Tx.raise (.refusal .rootConfirmationLink)
  | .root, none =>
    let sensitive := (obstacleKind? kind).isSome
    let prior := (t.reviews.find? fun r => r.rootSlotId = slot.slotId).map (·.rootEntryId)
    return reply sensitive (if sensitive then prior else none)
  | .critic, some entryId =>
    let registered ← Tx.check (criticPublication t slot kind entryId)
    return reply true registered
  | _, some _ => Tx.raise (.refusal .explorerLink)
  | _, none => return reply false none

end CoordinationStore

/-- The evidence identity a memory entry has for a slot. -/
structure MemoryIdentity where
  entryId : PyStr
  kind : EvidenceKind
  confirmsEntryId : Option PyStr
  deriving DecidableEq

/-- The provenance link of a memory entry is exactly the slot's. -/
def provenanceMatches (provenance : Json) (slot : RoundSlot) : Bool :=
  match provenance with
  | .obj _ =>
    provenance.keys.all (fun k => k == "slot_id".toList || k == "generation".toList ||
      k == "lane".toList) &&
    (match provenance.get? "slot_id".toList with
      | some (.str s) => s == slot.slotId
      | _ => false) &&
    (match provenance.get? "generation".toList with
      | some (.int g) => g == slot.generation
      | _ => false) &&
    (match provenance.get? "lane".toList with
      | some (.str l) => l == slot.lane.text
      | _ => false)
  | _ => false

/-- The text of a field, where it is one. -/
def textField (entry : Json) (key : String) : Option PyStr :=
  match entry.get? key.toList with
  | some (.str s) => some s
  | _ => none

/-- `_matching_memory_evidence`; a kind that cannot be hashed raises. -/
def matchingMemoryEvidence (entry : Json) (slot : RoundSlot) :
    Except StoreError (Option MemoryIdentity) :=
  match entry with
  | .obj _ =>
    match entry.get? "kind".toList with
    | some (.arr _) | some (.obj _) => .error .typeError
    | some (.str kindText) => .ok do
      let kind ← obstacleKind? kindText
      let entryId ← textField entry "id"
      let author ← textField entry "author"
      guard (author = slot.worker)
      let links ← entry.get? "links".toList
      let provenance ← links.get? "coordination".toList
      guard (provenanceMatches provenance slot = true)
      guard (isIdentifier entryId = true)
      match slot.lane with
      | .root => some ⟨entryId, kind, none⟩
      | .critic => do
        let confirms ← textField links "confirms_entry_id"
        guard (isIdentifier confirms = true)
        some ⟨entryId, .criticConfirmation, some confirms⟩
      | _ => none
    | _ => .ok none
  | _ => .ok none

/-- The identities of a batch by entry id, in order. -/
def memoryIdentities (slot : RoundSlot) :
    List Json → List MemoryIdentity → Except StoreError (List MemoryIdentity)
  | [], found => .ok found
  | entry :: entries, found => do
    match ← matchingMemoryEvidence entry slot with
    | none => memoryIdentities slot entries found
    | some identity =>
      match found.find? fun f => f.entryId = identity.entryId with
      | none => memoryIdentities slot entries (found ++ [identity])
      | some prior => do
        require (prior = identity) (.refusal .memoryConflict)
        memoryIdentities slot entries found

/-- What `reconcile_terminal_memory_entries` returns. -/
structure ReconcileReply where
  slotId : PyStr
  generation : Nat
  lane : Lane
  acceptedEntryIds : List PyStr
  reviewId : Option PyStr
  recommendationId : Option PyStr

namespace CoordinationStore
variable (S : CoordinationStore)

/-- One matched entry of a reconciliation: the review and the recommendation it leads to. -/
def reconcileIdentity (slot : RoundSlot) (worker uuid : PyStr) (reconciledAt : Stamp)
    (identity : MemoryIdentity) : StoreTx (Option PyStr × Option PyStr) := do
  Tx.ensure (slot.lane = .critic → slot.reviewId ≠ none ∧
      slot.designatedRootEntryId = identity.confirmsEntryId) (.refusal .designatedRoot)
  insertEvidence identity.entryId slot worker slot.lane identity.kind identity.confirmsEntryId
    reconciledAt
  match slot.lane with
  | .root =>
    let reviewId ← S.ensureReviewForRoot identity.entryId slot.slotId slot.generation reconciledAt
    return (reviewId, none)
  | .critic =>
    let t ← look
    let rootEntryId := identity.confirmsEntryId.getD []
    let review ← Tx.fetched (t.designatedReview? slot rootEntryId) (.refusal .noDesignatedReview)
    confirmOrReplay review identity.entryId .reconcileReviewCas
    let recommendationId ← ensureRecommendation uuid review.reviewId rootEntryId identity.entryId
      slot.generation reconciledAt
    return (some review.reviewId, recommendationId)
  | _ => Tx.raise (.refusal .explorerMemory)

/-- The matched entries in order; the last one's review and recommendation are reported. -/
def reconcileIdentities (slot : RoundSlot) (worker uuid : PyStr) (reconciledAt : Stamp) :
    List MemoryIdentity → Option PyStr × Option PyStr → StoreTx (Option PyStr × Option PyStr)
  | [], last => return last
  | identity :: rest, _ => do
    let next ← S.reconcileIdentity slot worker uuid reconciledAt identity
    reconcileIdentities slot worker uuid reconciledAt rest next

/-- `reconcile_terminal_memory_entries` -/
def reconcileTerminalMemoryEntries (slotId worker uuid : PyStr) (entries : List Json)
    (reconciledAt : Stamp) : StoreTx ReconcileReply := do
  Tx.ensure (entries.length ≤ maxReconcileEntries) (.refusal .batchTooLong)
  let slot ← S.terminalReconciliationSlot worker slotId
  let identities ← Tx.check (memoryIdentities slot entries [])
  Tx.ensure (slot.lane = .root → identities.length ≤ 1) (.refusal .rootAmbiguous)
  Tx.ensure (slot.lane = .critic → identities ≠ [] → slot.phase = .criticReview)
    (.refusal .genericConfirmation)
  Tx.ensure (slot.lane = .critic → identities.length ≤ 1) (.refusal .criticAmbiguous)
  Tx.ensure (slot.lane = .root ∨ slot.lane = .critic ∨ identities = []) (.refusal .explorerMemory)
  let last ← S.reconcileIdentities slot worker uuid reconciledAt identities (none, none)
  return ⟨slot.slotId, slot.generation, slot.lane, identities.map (·.entryId), last.1, last.2⟩

end CoordinationStore

/-- The arguments that name an owner's resolution. -/
structure ResolutionRequest where
  recommendationId : PyStr
  resolution : PyStr
  ownerAcknowledgement : PyStr
  masterGuidanceEntryId : Option PyStr
  masterGuidanceRecordSha256 : Option PyStr
  browserRequestId : Option PyStr
  browserReceiptSha256 : Option PyStr

/-- `resolution in RECOMMENDATION_RESOLUTIONS` -/
def resolution? (text : PyStr) : Option Resolution :=
  if text = "adopted_master_guidance".toList then some .adoptedMasterGuidance
  else if text = "continue_without_advisor".toList then some .continueWithoutAdvisor
  else none

def Resolution.text : Resolution → PyStr
  | .adoptedMasterGuidance => "adopted_master_guidance".toList
  | .continueWithoutAdvisor => "continue_without_advisor".toList

/-- `re.fullmatch(r"[0-9a-f]{n}", value)` of a value that may be absent. -/
def optionalHex (n : Nat) (value : Option PyStr) : Prop := ∀ v ∈ value, isHexOf n v = true

instance (n : Nat) (value : Option PyStr) : Decidable (optionalHex n value) :=
  inferInstanceAs (Decidable (∀ v, v ∈ value → isHexOf n v = true))

/-- The guidance and receipt fields each resolution may carry. -/
def requireGuidance (q : ResolutionRequest) : Resolution → Except StoreError Unit
  | .continueWithoutAdvisor =>
    require (q.masterGuidanceEntryId = none ∧ q.masterGuidanceRecordSha256 = none ∧
      q.browserRequestId = none ∧ q.browserReceiptSha256 = none) (.refusal .continueBindsGuidance)
  | .adoptedMasterGuidance =>
    require (q.masterGuidanceEntryId ≠ none ∧ q.masterGuidanceRecordSha256 ≠ none ∧
      q.browserRequestId.isNone = q.browserReceiptSha256.isNone) (.refusal .guidanceIncomplete)

/-- A value, or this refusal. -/
def requireSome {α : Type} (value : Option α) (e : StoreError) : Except StoreError α :=
  match value with
  | some a => .ok a
  | none => .error e

/-- `recommendation_resolution_id` -/
def recommendationResolutionId (q : ResolutionRequest) :
    Except StoreError (Resolution × PyStr) := do
  require (isIdentifier q.recommendationId = true) (.refusal (.identifier "recommendation_id"))
  let resolution ← requireSome (resolution? q.resolution) (.refusal .resolutionUnsupported)
  require (q.ownerAcknowledgement = q.recommendationId) (.refusal .ownerAcknowledgement)
  require (optionalHex 16 q.masterGuidanceEntryId) (.refusal .guidanceEntryId)
  require (optionalHex 64 q.masterGuidanceRecordSha256)
    (.refusal (.sha256 "master guidance record digest"))
  require (optionalHex 64 q.browserReceiptSha256) (.refusal (.sha256 "browser receipt digest"))
  require (∀ b ∈ q.browserRequestId, isIdentifier b = true)
    (.refusal (.identifier "browser_request_id"))
  requireGuidance q resolution
  return (resolution, "resolution_".toList ++
    Sha256.hexdigest (Json.preimage (Json.compact true true) (.obj [
      ("schema".toList, .str "danus_recommendation_resolution_v1".toList),
      ("recommendation_id".toList, .str q.recommendationId),
      ("resolution".toList, .str resolution.text),
      ("owner_acknowledgement".toList, .str q.ownerAcknowledgement),
      ("master_guidance_entry_id".toList, .ofOption q.masterGuidanceEntryId),
      ("master_guidance_record_sha256".toList, .ofOption q.masterGuidanceRecordSha256),
      ("browser_request_id".toList, .ofOption q.browserRequestId),
      ("browser_receipt_sha256".toList, .ofOption q.browserReceiptSha256)])))

/-- A stored resolution is the one this request asks for. -/
def RecommendationResolution.answers (r : RecommendationResolution) (q : ResolutionRequest)
    (resolution : Resolution) (resolutionId : PyStr) : Prop :=
  r.resolutionId = resolutionId ∧ r.recommendationId = q.recommendationId ∧
    r.resolution = resolution ∧ r.ownerAcknowledgement = q.ownerAcknowledgement ∧
    r.masterGuidanceEntryId = q.masterGuidanceEntryId ∧
    r.masterGuidanceRecordSha256 = q.masterGuidanceRecordSha256 ∧
    r.browserRequestId = q.browserRequestId ∧ r.browserReceiptSha256 = q.browserReceiptSha256

instance (r : RecommendationResolution) (q : ResolutionRequest) (resolution : Resolution)
    (resolutionId : PyStr) : Decidable (r.answers q resolution resolutionId) :=
  inferInstanceAs (Decidable (_ ∧ _ ∧ _ ∧ _ ∧ _ ∧ _ ∧ _ ∧ _))

/-- A recommendation's review is confirmed, its own, and the project's active one. -/
def Tables.boundReview (t : Tables) (recommendation : AdvisorRecommendation) (reviewId : PyStr) :
    Bool :=
  match t.review? reviewId with
  | none => false
  | some review => review.state == .confirmed &&
    review.confirmationEntryId == some recommendation.criticEntryId &&
    review.rootEntryId == recommendation.rootEntryId &&
    review.generation == recommendation.generation && t.project.activeReviewId == some reviewId

/-- The review checks of `resolve_recommendation`. -/
def checkResolvedReview (recommendation : AdvisorRecommendation) : StoreTx Unit := do
  let t ← look
  match recommendation.reviewId with
  | some reviewId =>
    Tx.ensure (t.boundReview recommendation reviewId = true) (.contradiction .resolutionUnbound)
  | none => Tx.ensure (t.project.activeReviewId = none) (.contradiction .legacyPointer)

/-- The review leaves its confirmed state with its recommendation. -/
def resolveReview (recommendation : AdvisorRecommendation) : StoreTx Unit :=
  match recommendation.reviewId with
  | none => return ()
  | some reviewId => do
    let changed ← updateReviews
      (fun r => decide (r.reviewId = reviewId) && (r.state == .confirmed &&
        r.confirmationEntryId == some recommendation.criticEntryId))
      fun r => { r with state := .resolved }
    Tx.ensure (changed = 1) (.contradiction .resolveReviewCas)

namespace CoordinationStore
variable (S : CoordinationStore)

/-- The owner's release of the project into the next generation. -/
def releaseOwnerGate (recommendation : AdvisorRecommendation) (resolvedAt : Stamp) :
    StoreTx Unit := do
  let t ← look
  Tx.ensure (t.project.generation = recommendation.generation ∧
      t.project.phase = .ownerActionRequired ∧
      t.project.recommendationId = some recommendation.recommendationId ∧
      t.project.activeReviewId = recommendation.reviewId) (.contradiction .resolveProjectCas)
  let now ← notNull resolvedAt
  updateProject fun p => { p with
    generation := recommendation.generation + 1, phase := .reasoning, phaseStartedAt := now
    phaseDeadlineAt := now.add S.config.phaseTimeoutSeconds, recommendationId := none
    activeReviewId := none, updatedAt := now }

/-- `resolve_recommendation` -/
def resolveRecommendation (q : ResolutionRequest) (resolvedAt : Stamp) :
    StoreTx RecommendationResolution := do
  let (resolution, resolutionId) ← Tx.check (recommendationResolutionId q)
  let t ← look
  match t.resolution? q.recommendationId with
  | some prior =>
    Tx.ensure (prior.answers q resolution resolutionId) (.refusal .resolutionConflict)
    return prior
  | none =>
    let recommendation ← Tx.fetched (t.recommendation? q.recommendationId)
      (.refusal .noRecommendation)
    let generation := recommendation.generation
    Tx.ensure (t.project.generation = generation ∧ t.project.phase = .ownerActionRequired ∧
        t.project.recommendationId = some q.recommendationId) (.refusal .ownerRequirement)
    Tx.ensure (∀ s ∈ t.slots, s.generation = generation → s.state = .terminal)
      (.refusal .resumeOpenSlots)
    Tx.ensure (t.overlaid = false) (.refusal .resumeOverlay)
    checkResolvedReview recommendation
    let _ ← S.freezeRequiredGenerationTasks (generation + 1) resolvedAt
    let createdAt ← notNull resolvedAt
    let new : RecommendationResolution := ⟨resolutionId, q.recommendationId, generation, resolution,
      q.ownerAcknowledgement, q.masterGuidanceEntryId, q.masterGuidanceRecordSha256,
      q.browserRequestId, q.browserReceiptSha256, createdAt⟩
    put fun t => { t with resolutions := t.resolutions ++ [new] }
    resolveReview recommendation
    S.releaseOwnerGate recommendation resolvedAt
    let t ← look
    Tx.fetched (t.resolutions.find? fun r => r.resolutionId = resolutionId)
      (.contradiction .resolutionDisappeared)

end CoordinationStore

/-- `_open_recommendation_projection_locked` -/
def openRecommendationProjection (t : Tables) (recommendationId : PyStr) :
    Except StoreError AdvisorRecommendation :=
  match t.recommendation? recommendationId with
  | none => .error (.refusal .noRecommendation)
  | some recommendation => do
    require (t.resolution? recommendationId = none) (.refusal .recommendationResolved)
    require (t.project.generation = recommendation.generation ∧
        t.project.phase = .ownerActionRequired ∧
        t.project.recommendationId = some recommendationId) (.refusal .recommendationNotCurrent)
    let reviewId ← requireSome recommendation.reviewId (.contradiction .recommendationUnbound)
    require (t.project.activeReviewId = some reviewId) (.contradiction .recommendationUnbound)
    require (t.boundReview recommendation reviewId = true)
      (.contradiction .recommendationReviewNotReady)
    require (∀ s ∈ t.slots, s.generation = recommendation.generation → s.state = .terminal)
      (.refusal .recommendationOpenSlots)
    require (t.overlaid = false) (.refusal .recommendationOverlay)
    return recommendation

/-- `validate_open_recommendation` -/
def validateOpenRecommendation (recommendationId : PyStr) : StoreTx AdvisorRecommendation := do
  validateIdentifier recommendationId "recommendation_id"
  let t ← look
  Tx.check (openRecommendationProjection t recommendationId)

end Danus.Coordination
