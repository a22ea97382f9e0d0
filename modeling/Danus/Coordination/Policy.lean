import Danus.Lib.Dict
import Danus.Lib.Json
import Danus.Lib.Sha256

/-! The pure policy of the reasoning-first coordinator: lanes, phases, directives, outcomes. -/
namespace Danus.Coordination
open Python

def maxDirectiveBytes : Nat := 2048

/-- The lane of a worker; `observer` is everybody outside the protected roster. -/
inductive Lane where
  | root | critic | explorer1 | explorer2 | observer
  deriving DecidableEq, Repr

def Lane.text : Lane → PyStr
  | .root => "root".toList
  | .critic => "critic".toList
  | .explorer1 => "explorer1".toList
  | .explorer2 => "explorer2".toList
  | .observer => "observer".toList

/-- `REASONING_PHASE`, `CRITIC_REVIEW_PHASE` and `OWNER_ACTION_REQUIRED_PHASE`. -/
inductive Phase where
  | reasoning | criticReview | ownerActionRequired
  deriving DecidableEq, Repr

def Phase.text : Phase → PyStr
  | .reasoning => "root_critic_reasoning".toList
  | .criticReview => "critic_obstacle_review".toList
  | .ownerActionRequired => "owner_action_required".toList

/-- `CANDIDATE_OUTCOMES` -/
inductive CandidateOutcome where
  | correct | wrong | needsContext | error | promotionUnknown | outcomeUnknown
  deriving DecidableEq, Repr

def CandidateOutcome.ofText? (s : PyStr) : Option CandidateOutcome :=
  if s = "correct".toList then some .correct
  else if s = "wrong".toList then some .wrong
  else if s = "needs_context".toList then some .needsContext
  else if s = "error".toList then some .error
  else if s = "promotion_unknown".toList then some .promotionUnknown
  else if s = "outcome_unknown".toList then some .outcomeUnknown
  else none

/-- Only a fully delivery-unknown verify keeps the overlay frozen. -/
def candidateOutcomeReleases (outcome : CandidateOutcome) : Bool := outcome != .outcomeUnknown

/-- The protected paid lanes of a project; `select_lane_roster` fills them from distinct workers,
with at most two explorers. -/
structure LaneRoster where
  root : PyStr
  critic : Option PyStr
  explorers : List PyStr
  workers_nodup : (root :: (critic.toList ++ explorers)).Nodup
  explorers_le : explorers.length ≤ 2

/-- `LaneRoster.lanes` -/
def LaneRoster.lanes (r : LaneRoster) : List (PyStr × Lane) :=
  (r.root, .root) ::
    (r.critic.toList.map (·, Lane.critic) ++ r.explorers.zip [Lane.explorer1, Lane.explorer2])

/-- `roster.lanes.get(worker, "observer")` -/
def LaneRoster.laneOf (r : LaneRoster) (worker : PyStr) : Lane :=
  (r.lanes.lookup worker).getD .observer

def requiredLanes (r : LaneRoster) : List Lane := r.lanes.map Prod.snd

/-- A reasoning-first `CoordinationConfig`, within the bounds `coordination_config` checks. -/
structure CoordinationConfig where
  maxPaidWorkers : Nat
  phaseTimeoutSeconds : Nat
  maxPaid_pos : 1 ≤ maxPaidWorkers
  maxPaid_le : maxPaidWorkers ≤ 4
  timeout_pos : 1 ≤ phaseTimeoutSeconds
  timeout_le : phaseTimeoutSeconds ≤ 2700

/-- The `CoordinationConfigError`s of `coordination_directive`. -/
inductive DirectiveError where
  | generationNotPositive
  | reviewIdentityMissing
  | reviewIdentityMisplaced
  | laneUnprotected
  | directiveTooLong
  deriving DecidableEq, Repr

def DirectiveError.message : DirectiveError → String
  | .generationNotPositive => "generation must be positive"
  | .reviewIdentityMissing => "critic review requires bounded exact review and root entry ids"
  | .reviewIdentityMisplaced => "review identity is valid only in the critic review phase"
  | .laneUnprotected => "only protected reasoning-first lanes receive paid directives"
  | .directiveTooLong => "coordination directive exceeds hard limit"

def criticReviewBody (reviewId rootEntryId : PyStr) : PyStr :=
  "Protected review_id=".toList ++ reviewId ++ "; designated_root_entry_id=".toList ++ rootEntryId ++
  List.flatMap String.toList
    [". Use this fresh paid round ", "only to retrieve that exact ", "root obstacle with ",
      "gm_get(entry_id="] ++ rootEntryId ++
  List.flatMap String.toList
    ["); omit project as a worker, ", "and never substitute ", "gm_search/BM25. If exact ",
      "lookup fails, is duplicate, ", "or is oversized, publish no ", "confirmation and terminate ",
      "inconclusive. Otherwise ", "stress-test it independently. ",
      "Confirm it only by publishing ", "one consolidated ", "obstacle/dead_end whose ",
      "links.confirms_entry_id is ", "exactly the designated root ", "entry id. A different id is ",
      "outside this review and must ", "not be confirmed."]

def rootBody : PyStr :=
  List.flatMap String.toList
    ["Use this paid round for ", "sustained first-principles ", "reasoning on the assigned ",
      "task. Prefer one coherent ", "deep route, persist ", "structural progress, and ",
      "report an obstacle only when ", "it is concrete."]

def criticBody : PyStr :=
  List.flatMap String.toList
    ["Independent-first critic ", "directive: derive your own ", "route before reading or ",
      "comparing root conclusions, ", "then stress-test the root's ",
      "structural claims and confirm ", "only an exact recorded ", "obstacle entry."]

def explorerBody : PyStr :=
  List.flatMap String.toList
    ["Independent explorer ", "directive: pursue an ", "alternate route, supporting ",
      "lemma, or counterexample ", "distinct from the root and ", "critic assignments. Publish ",
      "ordinary findings and submit ", "verifier-gated candidates ", "when warranted. You have no ",
      "obstacle-confirmation, ", "critic-review, ", "advisor-recommendation, or ",
      "owner-gate authority; never ", "use links.confirms_entry_id."]

/-- The lane-specific body, or the reason there is none. -/
def directiveBody (lane : Lane) (phase : Phase) (reviewId rootEntryId : Option PyStr) :
    Except DirectiveError PyStr :=
  if phase = .criticReview then
    match reviewId, rootEntryId with
    | some r, some e =>
      if lane ≠ .critic ∨ r = [] ∨ e = [] ∨ 128 < utf8Length r ∨ 128 < utf8Length e then
        .error .reviewIdentityMissing
      else .ok (criticReviewBody r e)
    | _, _ => .error .reviewIdentityMissing
  else if reviewId.isSome ∨ rootEntryId.isSome then .error .reviewIdentityMisplaced
  else match lane with
    | .root => .ok rootBody
    | .critic => .ok criticBody
    | .explorer1 | .explorer2 => .ok explorerBody
    | .observer => .error .laneUnprotected

/-- `coordination_directive` -/
def coordinationDirective (lane : Lane) (generation : Nat) (phase : Phase)
    (reviewId rootEntryId : Option PyStr) : Except DirectiveError PyStr :=
  if generation < 1 then .error .generationNotPositive
  else match directiveBody lane phase reviewId rootEntryId with
    | .error e => .error e
    | .ok body =>
      let directive := "Coordination lane=".toList ++ lane.text ++ "; generation=".toList ++
        natText generation ++ "; phase=".toList ++ phase.text ++ ". ".toList ++ body
      if maxDirectiveBytes < utf8Length directive then .error .directiveTooLong else .ok directive

section Roster
variable {r : LaneRoster} {worker : PyStr} {lane : Lane}

theorem LaneRoster.lanes_fst (r : LaneRoster) :
    r.lanes.map Prod.fst = r.root :: (r.critic.toList ++ r.explorers) := by
  have h := r.explorers_le
  unfold lanes
  generalize r.explorers = explorers at h ⊢
  match explorers, h with
  | [], _ | [_], _ | [_, _], _ => simp [Function.comp_def]

/-- No worker holds two lanes. -/
theorem LaneRoster.lanes_workers_nodup (r : LaneRoster) : (r.lanes.map Prod.fst).Nodup := by
  rw [r.lanes_fst]
  exact r.workers_nodup

/-- No lane has two workers. -/
theorem LaneRoster.lanes_nodup (r : LaneRoster) : (r.lanes.map Prod.snd).Nodup := by
  have h := r.explorers_le
  unfold lanes
  generalize r.explorers = explorers at h ⊢
  generalize r.critic = critic
  match critic, explorers, h with
  | none, [], _ | none, [_], _ | none, [_, _], _ => simp
  | some _, [], _ | some _, [_], _ | some _, [_, _], _ => simp

theorem LaneRoster.lane_ne_observer (h : (worker, lane) ∈ r.lanes) : lane ≠ .observer := by
  intro he
  subst he
  simp only [LaneRoster.lanes, List.mem_cons, List.mem_append, List.mem_map] at h
  rcases h with h | ⟨_, _, h⟩ | h
  · cases h
  · cases h
  · have := (List.of_mem_zip h).2
    simp at this

/-- A worker is in the roster with the lane `_worker_lane` finds for it, and nobody else is. -/
theorem LaneRoster.mem_lanes_iff : (worker, lane) ∈ r.lanes ↔ r.laneOf worker = lane ∧ lane ≠ .observer := by
  constructor
  · intro h
    refine ⟨?_, lane_ne_observer h⟩
    simp [laneOf, lookup_eq_some_of_nodup r.lanes_workers_nodup h]
  · rintro ⟨h, hne⟩
    unfold laneOf at h
    cases hl : r.lanes.lookup worker with
    | none => simp [hl] at h; exact (hne h.symm).elim
    | some l =>
      simp [hl] at h
      subst h
      exact mem_of_lookup_eq_some hl

theorem LaneRoster.worker_of_lane {w w' : PyStr} (h : (w, lane) ∈ r.lanes)
    (h' : (w', lane) ∈ r.lanes) : w = w' := by
  have hn := r.lanes_nodup
  have := List.inj_on_of_nodup_map hn h h' rfl
  exact congrArg Prod.fst this

theorem LaneRoster.critic_mem (h : r.critic = some worker) : (worker, Lane.critic) ∈ r.lanes := by
  simp [lanes, h]

end Roster

end Danus.Coordination
