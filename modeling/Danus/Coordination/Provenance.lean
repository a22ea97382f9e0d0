import Danus.Coordination.Receipts

/-! Where the evidence behind a recommendation comes from, along the runs of the store. -/
namespace Danus.Coordination
open Python Transaction Machines

variable {S : CoordinationStore} {call : StoreCall} {calm : Prop} {t t' : Tables}
  {db db' : Database} {e : EvidenceEntry}

/-- The call replays a memory entry that matches the slot. -/
def StoreCall.Replays (call : StoreCall) (s : RoundSlot) : Prop :=
  ∃ worker uuid entries now, call = .reconcileTerminalMemoryEntries s.slotId worker uuid entries now ∧
    ∃ entry ∈ entries, ∃ m, matchingMemoryEvidence entry s = .ok (some m)

/-- A change keeps every slot, or moves it along. -/
theorem Change.slots_continue (hv : t.Valid) (h : Change S call calm t t') :
    ∀ s ∈ t.slots, ∃ s' ∈ t'.slots, s.Continues s' := by
  intro s hs
  cases h with
  | slot hx hm =>
    exact Rows.exists_set_of_mem hv.slotIds hx hm.continues.slotId.symm RoundSlot.Continues.refl
      hm.continues hs
  | reserve => exact ⟨s, List.mem_append_left _ hs, .refl s⟩
  | reserveCritic => exact ⟨s, List.mem_append_left _ hs, .refl s⟩
  | _ => exact ⟨s, hs, .refl s⟩

theorem Change.evidence_from (h : Change S call calm t t') (he : e ∈ t'.evidence) :
    e ∈ t.evidence ∨ call.evidenceSlot = some e.slotId := by
  cases h with
  | evidence hcall _ =>
    rcases List.mem_append.mp he with he | he
    · exact .inl he
    · rw [List.mem_singleton.mp he]
      exact .inr hcall
  | _ => exact .inl he

theorem Turn.keeps (h : Turn S call calm t t') : t'.slots = t.slots ∧ t'.evidence = t.evidence := by
  cases h <;> exact ⟨rfl, rfl⟩

theorem CallStep.slots_continue (h : CallStep S call calm db db') :
    ∀ s ∈ db.1.slots, ∃ s' ∈ db'.1.slots, s'.slotId = s.slotId ∧ s'.lane = s.lane := by
  have changes : ∀ u, Changes S call calm db u →
      ∀ s ∈ db.1.slots, ∃ s' ∈ u.1.slots, s'.slotId = s.slotId ∧ s'.lane = s.lane := by
    intro u hu s hs
    induction hu with
    | refl => exact ⟨s, hs, rfl, rfl⟩
    | tail _ hstep ih =>
      obtain ⟨x, hx, hi, hl⟩ := ih
      obtain ⟨y, hy, hc⟩ := hstep.slots_continue (Subtype.property _) x hx
      exact ⟨y, hy, hc.slotId.trans hi, hc.lane.trans hl⟩
  obtain ⟨u, hu, rfl | ht⟩ := h
  · exact changes _ hu
  · rw [ht.keeps.1]
    exact changes u hu

theorem CallStep.evidence_from (h : CallStep S call calm db db') (he : e ∈ db'.1.evidence) :
    e ∈ db.1.evidence ∨ call.evidenceSlot = some e.slotId := by
  have changes : ∀ u, Changes S call calm db u → e ∈ u.1.evidence →
      e ∈ db.1.evidence ∨ call.evidenceSlot = some e.slotId := by
    intro u hu
    induction hu with
    | refl => exact .inl
    | tail _ hstep ih =>
      intro he
      rcases hstep.evidence_from he with he | he
      · exact ih he
      · exact .inr he
  obtain ⟨u, hu, rfl | ht⟩ := h
  · exact changes _ hu he
  · exact changes u hu (ht.keeps.2 ▸ he)

/-- A direct record is written from a dispatched slot. -/
theorem recordRootEvidence_from (hc : S.Coherent db.1) {worker kind entryId slotId : PyStr}
    {now : Stamp} : Tx.wp (S.recordRootEvidence worker kind entryId slotId now)
      (fun _ _ => ∃ s ∈ db.1.slots, s.slotId = slotId ∧ s.dispatched = true) (fun _ => True) db := by
  simp only [CoordinationStore.recordRootEvidence, Tx.wp_bind, Tx.wp_ensure, Tx.wp_fetched]
  refine wp_validateIdentifier (by simp) fun _ => ⟨fun _ => ⟨fun _ _ =>
    wp_validateIdentifier (by simp) fun _ => ?_, by simp⟩, by simp⟩
  refine wp_canonicalPaidSlot hc (fun _ (_ : Benign False db.1 _) => trivial)
    fun s hs _ hd hi _ _ => ?_
  simp only [← Tx.wp_bind]
  exact Tx.wp_always (fun _ _ => ⟨s, hs, hi slotId rfl, hd⟩) (by simp)

theorem confirmRootEvidence_from (hc : S.Coherent db.1)
    {worker rootEntryId entryId slotId uuid : PyStr} {now : Stamp} :
    Tx.wp (S.confirmRootEvidence worker rootEntryId entryId slotId uuid now)
      (fun _ _ => ∃ s ∈ db.1.slots, s.slotId = slotId ∧ s.dispatched = true) (fun _ => True) db := by
  simp only [CoordinationStore.confirmRootEvidence, Tx.wp_bind]
  refine wp_validateIdentifier (by simp) fun _ => Tx.wp_ensure.mpr ⟨fun _ =>
    wp_validateIdentifier (by simp) fun _ => wp_validateIdentifier (by simp) fun _ => ?_, by simp⟩
  refine wp_canonicalPaidSlot hc (fun _ (_ : Benign False db.1 _) => trivial)
    fun s hs _ hd hi _ _ => ?_
  simp only [← Tx.wp_bind]
  exact Tx.wp_always (fun _ _ => ⟨s, hs, hi slotId rfl, hd⟩) (by simp)

/-- A replay that writes has an entry that matches its slot. -/
theorem reconcile_from (hc : S.Coherent db.1) {slotId worker uuid : PyStr} {entries : List Json}
    {now : Stamp} :
    Tx.wp (S.reconcileTerminalMemoryEntries slotId worker uuid entries now)
      (fun _ db' => db' = db ∨ ∃ s ∈ db.1.slots, s.slotId = slotId ∧
        ∃ entry ∈ entries, ∃ m, matchingMemoryEvidence entry s = .ok (some m))
      (fun _ => True) db := by
  simp only [CoordinationStore.reconcileTerminalMemoryEntries, Tx.wp_bind, Tx.wp_ensure,
    Tx.wp_check, Tx.wp_pure]
  refine ⟨fun _ => ?_, by simp⟩
  refine wp_terminalReconciliationSlot hc (fun _ (_ : Benign False db.1 _) => trivial)
    fun s hs _ hi _ _ => ?_
  refine ⟨fun identities hids => ⟨fun _ => ⟨fun _ => ⟨fun _ => ⟨fun _ => ?_, by simp⟩, by simp⟩,
    by simp⟩, by simp⟩, by simp⟩
  cases identities with
  | nil => exact .inl rfl
  | cons m rest =>
    refine Tx.wp_always (fun _ _ => .inr ⟨s, hs, hi, ?_⟩) (by simp)
    rcases memoryIdentities_matched hids m List.mem_cons_self with h | ⟨entry, he, h⟩
    · cases h
    · exact ⟨entry, he, m, h⟩

/-- A transaction that raised left the database as it was. -/
theorem committed_cases {α : Type} {f : α → StoreReply} {x : StoreTx α} {P : Database → Prop}
    (h : Tx.wp x (fun _ d => P d) (fun _ => True) db) :
    (committed f x db).2 = db ∨ P (committed f x db).2 := by
  unfold committed
  rcases Tx.wp_run h with ⟨a, d, hx, hq⟩ | ⟨_, hx, _⟩
  · rw [hx]
    exact .inr hq
  · rw [hx]
    exact .inl rfl

/-- What a call writes as evidence comes from a slot of its lane that was dispatched, or whose
memory the call replays. -/
theorem evidence_from (hc : S.Coherent db.1) (he : e ∈ (S.perform call db).2.1.evidence) :
    e ∈ db.1.evidence ∨ ∃ s ∈ db.1.slots, s.slotId = e.slotId ∧ s.lane = e.lane ∧
      (s.dispatched = true ∨ call.Replays s) := by
  have hstep : CallStep S call False db (S.perform call db).2 := (served hc).1
  rcases hstep.evidence_from he with h | hslot
  · exact .inl h
  have hlane : ∀ s ∈ db.1.slots, s.slotId = e.slotId → s.lane = e.lane := by
    intro s hs hi
    obtain ⟨w, hw, hwrote⟩ := (hstep.coherent hc).evidence_slot e he
    obtain ⟨s', hs', hi', hl'⟩ := hstep.slots_continue s hs
    have hsw : s' = w := Rows.eq_of_key (S.perform call db).2.2.slotIds hs' hw
      ((hi'.trans hi).trans hwrote.slot)
    rw [← hl', hsw, hwrote.lane]
  have unchanged : (S.perform call db).2 = db → e ∈ db.1.evidence := fun h => h ▸ he
  have dispatched : (∃ s ∈ db.1.slots, s.slotId = e.slotId ∧ s.dispatched = true) →
      ∃ s ∈ db.1.slots, s.slotId = e.slotId ∧ s.lane = e.lane ∧
        (s.dispatched = true ∨ call.Replays s) := by
    rintro ⟨s, hs, hi, hd⟩
    exact ⟨s, hs, hi, hlane s hs hi, .inl hd⟩
  cases call <;> simp only [StoreCall.evidenceSlot, reduceCtorEq, Option.some.injEq] at hslot
  case recordRootEvidence =>
    subst hslot
    exact (committed_cases (recordRootEvidence_from hc)).imp unchanged dispatched
  case confirmRootEvidence =>
    subst hslot
    exact (committed_cases (confirmRootEvidence_from hc)).imp unchanged dispatched
  case reconcileTerminalMemoryEntries =>
    subst hslot
    rcases committed_cases (reconcile_from hc) with h | h | ⟨s, hs, hi, hm⟩
    · exact .inl (unchanged h)
    · exact .inl (unchanged h)
    · exact .inr ⟨s, hs, hi, hlane s hs hi, .inr ⟨_, _, _, _, by rw [hi], hm⟩⟩

/-- Some database of the run shows the slot active or ambiguous. -/
def WasDispatched (run : List Database) (slotId : PyStr) : Prop :=
  ∃ d ∈ run, ∃ s ∈ d.1.slots, s.slotId = slotId ∧ s.dispatched = true

/-- Every replay of a root slot's memory is of a slot that was dispatched. -/
def CoordinationStore.ReplaysDispatched (past : List Database) (call : StoreCall) : Prop :=
  ∀ db ∈ past.head?, ∀ s ∈ db.1.slots, s.lane = .root → call.Replays s →
    WasDispatched past s.slotId

/-- The recommendation rests on a root entry from a dispatched root slot and on a confirmation
from the critic slot of exactly that entry's review. -/
def AdvisorRecommendation.Independent (a : AdvisorRecommendation) (run : List Database)
    (t : Tables) : Prop :=
  ∃ r ∈ t.reviews, r.Backs a ∧
    (∃ s ∈ t.slots, ∃ e ∈ t.evidence, s.Wrote e ∧ s.lane = .root ∧ s.generation = a.generation ∧
      e.entryId = a.rootEntryId ∧ s.slotId = r.rootSlotId ∧ WasDispatched run s.slotId) ∧
    ∃ s ∈ t.slots, ∃ e ∈ t.evidence, s.Wrote e ∧ r.Reviews s ∧ s.slotId ≠ r.rootSlotId ∧
      s.generation = a.generation ∧ e.entryId = a.criticEntryId ∧ e.kind = .criticConfirmation ∧
      e.confirmsEntryId = some a.rootEntryId

/-- The evidence of one id is one entry, and a slot of one id one slot. -/
theorem CoordinationStore.Coherent.writer {S : CoordinationStore} (hc : S.Coherent t) (hv : t.Valid)
    {s : RoundSlot} (hs : s ∈ t.slots) (he : e ∈ t.evidence) (hi : e.slotId = s.slotId) :
    s.Wrote e := by
  obtain ⟨w, hw, h⟩ := hc.evidence_slot e he
  rwa [Rows.eq_of_key hv.slotIds hs hw (hi.symm.trans h.slot)]

/-- On a coherent database every recommendation is independent, if its root slots were
dispatched. -/
theorem CoordinationStore.Coherent.independent {S : CoordinationStore} (hc : S.Coherent t)
    (hv : t.Valid) {run : List Database}
    (hd : ∀ e ∈ t.evidence, e.lane = .root → WasDispatched run e.slotId)
    {a : AdvisorRecommendation} (ha : a ∈ t.recommendations) : a.Independent run t := by
  obtain ⟨r, hr, hb⟩ := hc.recommendation_review a ha
  obtain ⟨e, he, hroot⟩ := hc.review_root r hr
  obtain ⟨w, hw, hwe⟩ := hc.evidence_slot e he
  have hlane : w.lane = .root := hwe.lane.symm.trans hroot.lane
  have hwi : w.slotId = r.rootSlotId := hwe.slot.symm.trans hroot.slot
  have hwg : w.generation = a.generation :=
    hwe.generation.symm.trans (hroot.generation.trans hb.generation.symm)
  have hshape := hc.review_shape r hr
  have hconf : ∃ s ∈ t.slots, r.Reviews s ∧ ∃ c ∈ t.evidence, r.ConfirmedBy s c := by
    rcases hb.state with h | h <;> simpa only [ObstacleReview.Shaped, h] using hshape
  obtain ⟨s, hs, hrs, c, hcm, hconf⟩ := hconf
  refine ⟨r, hr, hb, ⟨w, hw, e, he, hwe, hlane, hwg, ?_, hwi, ?_⟩, s, hs, c, hcm,
    hc.writer hv hs hcm hconf.slot, hrs, ?_, hrs.generation.trans hb.generation.symm, ?_,
    hconf.kind, ?_⟩
  · rw [hroot.entry, hb.root]
  · rw [← hwe.slot]
    exact hd e he hroot.lane
  · intro hi
    have hsw : s = w := Rows.eq_of_key hv.slotIds hs hw (hi.trans hwi.symm)
    have hcr := hrs.lane
    rw [hsw, hlane] at hcr
    cases hcr
  · exact Option.some.inj (hconf.entry.symm.trans hb.critic)
  · rw [hb.root]
    exact hconf.confirms

/-- Every recommendation of the run's last database is independent. -/
def AllIndependent (run : List Database) : Prop :=
  ∀ db ∈ run.head?, ∀ a ∈ db.1.recommendations, a.Independent run db.1

/-- In every run that replays only dispatched root slots, every recommendation has independent
provenance. -/
theorem recommendations_independent {run : List Database}
    (h : S.machine.History CoordinationStore.ReplaysDispatched run) : AllIndependent run := by
  have roots : ∀ l, S.machine.History CoordinationStore.ReplaysDispatched l →
      ∀ d ∈ l.head?, ∀ e ∈ d.1.evidence, e.lane = .root → WasDispatched l e.slotId := by
    intro l hl
    refine hl.invariant (I := fun l => ∀ d ∈ l.head?, ∀ e ∈ d.1.evidence, e.lane = .root →
      WasDispatched l e.slotId) ?_ ?_
    · rintro s ⟨clock, hs⟩ _ ⟨⟩ e he
      rw [hs] at he
      cases he
    · rintro s past call _ hp ih hok rfl _ ⟨⟩ e he hlane
      have later : ∀ i, WasDispatched (s :: past) i →
          WasDispatched ((S.perform call s).2 :: s :: past) i := by
        rintro i ⟨d, hd, h⟩
        exact ⟨d, List.mem_cons_of_mem _ hd, h⟩
      rcases evidence_from (coherent_of_reachable hp.reachable) he with
        he | ⟨x, hx, hi, hl, hd | hr⟩
      · exact later _ (ih s rfl e he hlane)
      · exact later _ ⟨s, List.mem_cons_self, x, hx, hi, hd⟩
      · rw [← hi]
        exact later _ (hok s rfl x hx (hl.trans hlane) hr)
  intro db hdb a ha
  exact (coherent_of_reachable (h.head_reachable hdb)).independent db.2 (roots _ h db hdb) ha

/-- The root's obstacle is recorded from its running slot, and confirmed in its review. -/
def recordedRun : List Database :=
  pairStore.trace pairDatabase [] (admitRoot ++ [
    .admitWorker "critic".toList "b".toList (some (.fin 2)),
    .pinPrompt "slot_a".toList (promptText "slot_a" "left"),
    .activate "slot_a".toList (some (.fin 3)),
    .recordRootEvidence "root".toList "obstacle".toList "e1".toList "slot_a".toList (some (.fin 4)),
    .complete "slot_a".toList "done".toList (some (.fin 5)) 5,
    .complete "slot_b".toList "done".toList (some (.fin 5)) 5,
    .admitWorker "critic".toList "c".toList (some (.fin 6)),
    .pinPrompt "slot_c".toList (promptText "slot_c" "right"),
    .activate "slot_c".toList (some (.fin 7)),
    .confirmRootEvidence "critic".toList "e1".toList "e2".toList "slot_c".toList "r".toList
      (some (.fin 8))])

theorem recommendations_independent_recorded : AllIndependent recordedRun := by
  refine recommendations_independent (S := pairStore) (history_trace (.start pair_start) ?_)
  intro call hcall l d _ s _ _ hr
  obtain ⟨_, _, _, _, rfl, _⟩ := hr
  simp [admitRoot] at hcall

/-- The root's slot ends before it was ever started, and its memory is replayed. -/
def replayedRun : List Database :=
  pairStore.trace pairDatabase [] (admitRoot ++ [
    .complete "slot_a".toList "done".toList (some (.fin 3)) 3,
    .reconcileTerminalMemoryEntries "slot_a".toList "root".toList "u".toList
      [obstacleEntry "slot_a" "e1"] (some (.fin 4)),
    .admitWorker "critic".toList "b".toList (some (.fin 5)),
    .complete "slot_b".toList "done".toList (some (.fin 5)) 5,
    .admitWorker "critic".toList "c".toList (some (.fin 6)),
    .pinPrompt "slot_c".toList (promptText "slot_c" "right"),
    .activate "slot_c".toList (some (.fin 7)),
    .confirmRootEvidence "critic".toList "e1".toList "e2".toList "slot_c".toList "r".toList
      (some (.fin 8))])

/-- Its recommendation becomes current, though no database of the run shows the slot of its root
entry active or ambiguous. -/
theorem recommended_undispatched :
    pairStore.machine.History (fun _ _ => True) replayedRun ∧
    (∃ d ∈ replayedRun.head?, d.1.project.phase = .ownerActionRequired ∧
      ∃ a ∈ d.1.recommendations, d.1.project.recommendationId = some a.recommendationId ∧
        ∃ e ∈ d.1.evidence, e.entryId = a.rootEntryId ∧ e.slotId = "slot_a".toList) ∧
    ∀ d ∈ replayedRun, ∀ s ∈ d.1.slots, s.slotId = "slot_a".toList → s.dispatched = false := by
  refine ⟨history_trace (.start pair_start) fun _ _ _ => trivial, ?_⟩
  decide +kernel

end Danus.Coordination
