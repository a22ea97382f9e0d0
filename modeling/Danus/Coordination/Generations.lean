import Danus.Coordination.Audit

/-! When a generation ends. -/
namespace Danus.Coordination
open Python Transaction Machines

variable {S : CoordinationStore} {call : StoreCall} {calm : Prop} {db db' : Database}

/-- The call ended the generation safely. The turn itself touches neither slots nor receipts, so
what is said of them in `d'` held when it was taken. -/
structure CoordinationStore.Advances (S : CoordinationStore) (d : Database) (call : StoreCall)
    (d' : Database) : Prop where
  next : d'.1.project.generation = d.1.project.generation + 1
  lanes : ∀ w l, (w, l) ∈ S.roster.lanes → ∃ s ∈ d'.1.slots, s.worker = w ∧ s.lane = l ∧
    s.generation = d.1.project.generation ∧ s.phase = .reasoning ∧ s.state = .terminal
  review : d.1.project.phase = .criticReview → ∃ s ∈ d'.1.slots, s.lane = .critic ∧
    s.generation = d.1.project.generation ∧ s.phase = .criticReview ∧ s.state = .terminal
  closed : ∀ s ∈ d'.1.slots, s.state = .terminal
  free : ∀ c ∈ d'.1.candidates, c.state ≠ .active ∧ c.state ≠ .outcomeUnknown
  owner : ∀ i ∈ d.1.project.recommendationId, ∃ q now, call = .resolveRecommendation q now ∧
    q.recommendationId = i ∧ q.ownerAcknowledgement = i ∧
    S.TasksFrozen d'.1.tasks (d.1.project.generation + 1)

theorem Change.recommendation {t t' : Tables} (h : Change S call calm t t') :
    t'.project.recommendationId = t.project.recommendationId := by
  cases h <;> rfl

theorem Changes.recommendation (h : Changes S call calm db db') :
    db'.1.project.recommendationId = db.1.project.recommendationId := by
  induction h with
  | refl => rfl
  | tail _ hs ih => exact hs.recommendation.trans ih

theorem RoundSlot.state_of_closed {s : RoundSlot} (h : s.open = false) : s.state = .terminal := by
  simpa [RoundSlot.open] using h

theorem Tables.free_of_not_overlaid {t : Tables} (h : t.overlaid = false) :
    ∀ c ∈ t.candidates, c.state ≠ .active ∧ c.state ≠ .outcomeUnknown := by
  simpa [Tables.overlaid, Candidate.overlay] using h

/-- A finished phase leaves a terminal reasoning slot in each lane. -/
theorem CoordinationStore.Coherent.lanes_terminal {t : Tables} (hc : S.Coherent t)
    (hd : S.LanesDone t.slots t.project.generation) {w : PyStr} {l : Lane}
    (hw : (w, l) ∈ S.roster.lanes) : ∃ s ∈ t.slots, s.worker = w ∧ s.lane = l ∧
      s.generation = t.project.generation ∧ s.phase = .reasoning ∧ s.state = .terminal := by
  obtain ⟨s, hs, rfl, hg, hp, hst⟩ := hd w l hw
  refine ⟨s, hs, rfl, ?_, hg, hp, hst⟩
  have h1 := lookup_eq_some_of_nodup S.roster.lanes_workers_nodup (hc.slot_sound s hs).lane
  have h2 := lookup_eq_some_of_nodup S.roster.lanes_workers_nodup hw
  exact Option.some.inj (h1.symm.trans h2)

/-- The turns that end a generation. -/
theorem Turn.advances (hc : S.Coherent db.1) (h : Turn S call calm db.1 db'.1) :
    db'.1.project.generation = db.1.project.generation ∨ S.Advances db call db' := by
  obtain ⟨t', hv'⟩ := db'
  cases h with
  | enterReview => exact .inl rfl
  | confirm => exact .inl rfl
  | advance hp hov hl ho _ _ _ _ =>
    have hd : S.LanesDone db.1.slots db.1.project.generation := by
      by_cases hph : db.1.project.phase = .reasoning
      · rw [CoordinationStore.phaseLanes, if_neg (by simp [hph])] at hl
        exact hc.lanesDone_of_completed hph hl
      · exact hc.lanes_done hph
    refine .inr ⟨rfl, fun w l hw => hc.lanes_terminal hd hw, fun hph => ?_,
      fun s hs => RoundSlot.state_of_closed (ho s hs), Tables.free_of_not_overlaid hov, ?_⟩
    · rw [CoordinationStore.phaseLanes, if_pos hph] at hl
      have hcr := hl .critic (List.mem_singleton.mpr rfl)
      simp only [Tables.completedLanes, List.mem_map, List.mem_filter, Bool.and_eq_true,
        beq_iff_eq] at hcr
      obtain ⟨s, ⟨hs, ⟨hg, hsp⟩, hst⟩, hlane⟩ := hcr
      exact ⟨s, hs, hlane, hg, hsp.trans hph, hst⟩
    · intro i hi
      rw [hc.no_recommendation hp] at hi
      cases hi
  | @resolve q now _ _ _ _ _ hcall hp hrec hack hov ho _ hfr _ _ =>
    refine .inr ⟨rfl, fun w l hw => hc.lanes_terminal (hc.lanes_done (by simp [hp])) hw, ?_,
      fun s hs => RoundSlot.state_of_closed (ho s hs), Tables.free_of_not_overlaid hov, ?_⟩
    · simp [hp]
    · intro i hi
      have hi' : q.recommendationId = i := Option.some.inj (hrec.symm.trans hi)
      exact ⟨q, now, hcall, hi', hack.trans hi', hfr⟩

theorem CallStep.advances (hc : S.Coherent db.1) (h : CallStep S call calm db db') :
    db'.1.project.generation = db.1.project.generation ∨ S.Advances db call db' := by
  obtain ⟨u, hu, rfl | ht⟩ := h
  · exact .inl hu.frame.1
  · rcases ht.advances (hu.coherent hc) with h | h
    · exact .inl (h.trans hu.frame.1)
    · refine .inr ⟨?_, ?_, ?_, h.closed, h.free, ?_⟩
      · rw [← hu.frame.1]
        exact h.next
      · rw [← hu.frame.1]
        exact h.lanes
      · rw [← hu.frame.1, ← hu.frame.2]
        exact h.review
      · rw [← hu.frame.1, ← hu.recommendation]
        exact h.owner

/-- Along every run the generation grows one by one, each time safely, and every open slot is of
the current generation. -/
theorem generation_advances_safely {past : List Database}
    (h : S.machine.History (fun _ _ => True) (db :: past)) :
    (∀ d ∈ past, d.1.project.generation ≤ db.1.project.generation) ∧
    (∀ s ∈ db.1.slots, s.open = true → s.generation = db.1.project.generation) ∧
    ∀ call, (S.perform call db).2.1.project.generation = db.1.project.generation ∨
      S.Advances db call (S.perform call db).2 := by
  have step : ∀ d : Database, S.machine.Reachable d → ∀ call,
      (S.perform call d).2.1.project.generation = d.1.project.generation ∨
        S.Advances d call (S.perform call d).2 := by
    intro d hd call
    have hc := coherent_of_reachable hd
    exact (served hc).1.advances hc
  refine ⟨?_, (coherent_of_reachable h.reachable).open_current, step db h.reachable⟩
  have grows : ∀ l, S.machine.History (fun _ _ => True) l →
      ∀ d ∈ l, ∀ d' ∈ l.head?, d.1.project.generation ≤ d'.1.project.generation := by
    intro l hl
    refine hl.invariant (I := fun l => ∀ d ∈ l, ∀ d' ∈ l.head?,
      d.1.project.generation ≤ d'.1.project.generation) ?_ ?_
    · rintro s _ d hd d' ⟨⟩
      rw [List.mem_singleton.mp hd]
    · rintro s past call _ hp ih _ rfl d hd d' ⟨⟩
      rcases List.mem_cons.mp hd with rfl | hd
      · exact le_rfl
      · have hle := ih d hd s rfl
        rcases step s hp.reachable call with h | h
        · exact hle.trans_eq h.symm
        · exact hle.trans (h.next ▸ Nat.le_succ _)
  exact fun d hd => grows _ h d (List.mem_cons_of_mem _ hd) db rfl

/-- The pair's first generation up to its last open slot. -/
def endingFirst : List StoreCall :=
  admitRoot ++ [
    .admitWorker "critic".toList "b".toList (some (.fin 2)),
    .complete "slot_a".toList "done".toList (some (.fin 3)) 3]

def lastOpen : Database := pairStore.performAll pairDatabase endingFirst

def endLast : StoreCall := .complete "slot_b".toList "done".toList (some (.fin 3)) 3

theorem lastOpen_ends : lastOpen.1.project.generation = 1 ∧
    (pairStore.perform endLast lastOpen).2.1.project.generation = 2 := by
  decide +kernel

/-- The completion of the last open slot begins the second generation. -/
theorem generation_advances_safely_second :
    (pairStore.perform endLast lastOpen).2.1.project.generation = 2 ∧
      (∀ d ∈ lastOpen :: (pairStore.trace pairDatabase [] endingFirst).tail,
        d.1.project.generation ≤ 2) ∧
      (∀ s ∈ lastOpen.1.slots, s.open = true → s.generation = 1) ∧
      pairStore.Advances lastOpen endLast (pairStore.perform endLast lastOpen).2 := by
  obtain ⟨hfirst, hsecond⟩ := lastOpen_ends
  have hbefore : pairStore.machine.History (fun _ _ => True)
      (lastOpen :: (pairStore.trace pairDatabase [] endingFirst).tail) := by
    rw [lastOpen, ← trace_cons]
    exact history_trace (.start pair_start) fun _ _ _ => trivial
  obtain ⟨_, hcurrent, hnext⟩ := generation_advances_safely hbefore
  obtain ⟨hgrown, _, _⟩ := generation_advances_safely (hbefore.step (i := endLast) trivial rfl)
  have hmoved : (pairStore.perform endLast lastOpen).2.1.project.generation ≠
      lastOpen.1.project.generation := by
    rw [hfirst, hsecond]
    decide
  exact ⟨hsecond, fun d hd => (hgrown d hd).trans_eq hsecond,
    fun s hs hopen => (hcurrent s hs hopen).trans hfirst, (hnext endLast).resolve_left hmoved⟩

end Danus.Coordination
