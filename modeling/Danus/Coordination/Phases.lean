import Danus.Coordination.Audit

/-! The phase of the project, its review pointer and its recommendation agree in every reachable
database, and the branches for records that contradict each other stay unreached. -/
namespace Danus.Coordination
open Python Transaction Machines

/-- The review the project points at, and the phase its state belongs to. -/
structure Tables.Points (t : Tables) (r : ObstacleReview) : Prop where
  review : r ∈ t.reviews
  pointer : t.project.activeReviewId = some r.reviewId
  generation : r.generation = t.project.generation
  root : ∃ e ∈ t.evidence, r.RootedAt e
  phase : (t.project.phase = .reasoning ∧ r.state = .pending) ∨
    (t.project.phase = .criticReview ∧ (r.state = .pending ∨ r.state = .active)) ∨
    (t.project.phase = .ownerActionRequired ∧ r.state = .confirmed)

/-- Phase, review pointer and recommendation agree. -/
structure Tables.PhaseCoherent (t : Tables) : Prop where
  owner : t.project.phase = .ownerActionRequired ↔ t.project.recommendationId ≠ none
  recommendation : ∀ i ∈ t.project.recommendationId, ∃ a ∈ t.recommendations,
    a.recommendationId = i ∧ a.generation = t.project.generation ∧
      ∃ r, t.Points r ∧ r.state = .confirmed ∧ r.Backs a
  critic : t.project.phase = .criticReview →
    ∃ r, t.Points r ∧ (r.state = .pending ∨ r.state = .active)
  pointed : ∀ i ∈ t.project.activeReviewId, ∃ r, t.Points r
  unpointed : t.project.activeReviewId = none → t.project.phase = .reasoning
  one_live : ∀ r ∈ t.reviews, r.live = true → t.Points r
  live_unique : ∀ r ∈ t.reviews, ∀ r' ∈ t.reviews, r.live = true → r'.live = true → r = r'

variable {S : CoordinationStore} {t : Tables} {db : Database}

namespace CoordinationStore.Coherent
variable (hc : S.Coherent t) (hv : t.Valid)
include hc hv

/-- A live review is pointed at, and is in the state of its phase. -/
theorem points {r : ObstacleReview} (hr : r ∈ t.reviews) (hl : r.live = true) : t.Points r := by
  obtain ⟨hp, hg⟩ := hc.review_live r hr hl
  refine ⟨hr, hp, hg, hc.review_root r hr, ?_⟩
  cases hph : t.project.phase with
  | reasoning => exact .inl ⟨rfl, hc.reasoning_pending hph r hr hl⟩
  | criticReview =>
    obtain ⟨x, hx, hxp, hst⟩ := hc.critic_review hph
    have he : x = r := Rows.eq_of_key hv.reviewIds hx hr (Option.some.inj (hxp.symm.trans hp))
    exact .inr (.inl ⟨rfl, he ▸ hst⟩)
  | ownerActionRequired =>
    obtain ⟨_, _, _, _, x, hx, hxp, hst, _⟩ := hc.owner_gate hph
    have he : x = r := Rows.eq_of_key hv.reviewIds hx hr (Option.some.inj (hxp.symm.trans hp))
    exact .inr (.inr ⟨rfl, he ▸ hst⟩)

theorem phaseCoherent : t.PhaseCoherent where
  owner := by
    constructor
    · intro h
      obtain ⟨a, _, ha, _⟩ := hc.owner_gate h
      simp [ha]
    · intro h
      by_contra hp
      exact h (hc.no_recommendation hp)
  recommendation := by
    intro i hi
    have hp : t.project.phase = .ownerActionRequired := by
      by_contra hp
      rw [hc.no_recommendation hp] at hi
      cases hi
    obtain ⟨a, ha, hai, hg, r, hr, _, hst, hb⟩ := hc.owner_gate hp
    have hl : r.live = true := by simp [ObstacleReview.live, hst]
    exact ⟨a, ha, Option.some.inj (hai.symm.trans hi), hg, r, hc.points hv hr hl, hst, hb⟩
  critic := by
    intro hp
    obtain ⟨r, hr, _, hst⟩ := hc.critic_review hp
    have hl : r.live = true := by rcases hst with h | h <;> simp [ObstacleReview.live, h]
    exact ⟨r, hc.points hv hr hl, hst⟩
  pointed := by
    intro i hi
    obtain ⟨r, hr, _, hl⟩ := hc.pointer i hi
    exact ⟨r, hc.points hv hr hl⟩
  unpointed := hc.phase_of_no_pointer
  one_live := fun r hr hl => hc.points hv hr hl
  live_unique := fun r hr r' hr' hl hl' => hc.live_unique hv.reviewIds hr hr' hl hl'

end CoordinationStore.Coherent

/-- In every reachable database the pointers agree with the phase, and no call finds records that
contradict each other, but for the designation lost by the replay of a root slot whose generation
has ended. -/
theorem phase_coherent_of_reachable (h : S.machine.Reachable db) :
    db.1.PhaseCoherent ∧ ∀ call e, (S.perform call db).1 = .error e → e.isContradiction = true →
      e = .contradiction .rootReviewCas ∧ call.ReplaysStaleRoot db.1 := by
  have hc := coherent_of_reachable h
  refine ⟨hc.phaseCoherent db.2, fun call e he hx => ?_⟩
  exact ((served hc).2 e he).consistent hx

/-- The prompt that binds a slot of the first generation to its task. -/
def promptText (slotId task : String) : PyStr :=
  ("coordination_slot_id=" ++ slotId ++ "\ngeneration=1\ntask_sha256=").toList ++
    Sha256.hexdigest (encodeUtf8 task.toList)

/-- The root's slot reports an obstacle while the generation still reasons. -/
def obstacleReported : Database :=
  pairStore.performAll pairDatabase (admitRoot ++ [
    .pinPrompt "slot_a".toList (promptText "slot_a" "left"),
    .activate "slot_a".toList (some (.fin 3)),
    .recordRootEvidence "root".toList "obstacle".toList "e1".toList "slot_a".toList (some (.fin 4))])

theorem phase_coherent_of_reachable_reported : obstacleReported.1.PhaseCoherent :=
  (phase_coherent_of_reachable (reachable_performAll (Machine.reachable_start pair_start))).1

/-- A memory entry of the root about an obstacle, from this slot of the first generation. -/
def obstacleEntry (slotId entryId : String) : Json :=
  .obj [("kind".toList, .str "obstacle".toList), ("id".toList, .str entryId.toList),
    ("author".toList, .str "root".toList),
    ("links".toList, .obj [("coordination".toList, .obj [("slot_id".toList, .str slotId.toList),
      ("generation".toList, .int 1), ("lane".toList, .str "root".toList)])])]

/-- Both slots of the first generation ended, and the second one began. -/
def secondGeneration : Database :=
  pairStore.performAll pairDatabase (admitRoot ++ [
    .admitWorker "critic".toList "b".toList (some (.fin 2)),
    .complete "slot_a".toList "done".toList (some (.fin 3)) 3,
    .complete "slot_b".toList "done".toList (some (.fin 3)) 3])

/-- A pending review is pointed at in the reasoning phase, and the replay of an earlier root slot
loses its compare-and-set. -/
theorem reasoning_points_at_pending :
    (pairStore.machine.Reachable obstacleReported ∧ obstacleReported.1.project.phase = .reasoning ∧
      ∃ r ∈ obstacleReported.1.reviews, r.state = .pending ∧
        obstacleReported.1.project.activeReviewId = some r.reviewId ∧
        r.generation = obstacleReported.1.project.generation ∧
        ∃ e ∈ obstacleReported.1.evidence, e.entryId = r.rootEntryId ∧ e.lane = .root) ∧
    pairStore.machine.Reachable secondGeneration ∧
      (pairStore.perform (.reconcileTerminalMemoryEntries "slot_a".toList "root".toList "u".toList
        [obstacleEntry "slot_a" "e1"] (some (.fin 4))) secondGeneration).failure =
      some "root review pointer transition lost its CAS" := by
  refine ⟨⟨reachable_performAll (Machine.reachable_start pair_start), ?_⟩,
    reachable_performAll (Machine.reachable_start pair_start), ?_⟩
  all_goals decide +kernel

end Danus.Coordination
