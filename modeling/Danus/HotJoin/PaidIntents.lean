import Danus.HotJoin.PaidTurns

/-! The life of a paid-turn intent: it is bound once, and after its dispatch it is never prepared again. -/
namespace Danus.HotJoin
open Python

variable {l l' : PaidLedger} {i j : PaidIntent} {f : PaidIntent → PaidIntent} {clientId slotId : PyStr}

/-- A later version of an intent. -/
structure PaidIntent.Continues (i j : PaidIntent) : Prop where
  clientId : j.clientId = i.clientId
  target : j.target = i.target
  threadId : j.threadId = i.threadId
  promptSha256 : j.promptSha256 = i.promptSha256
  requestedModel : j.requestedModel = i.requestedModel
  requestedEffort : j.requestedEffort = i.requestedEffort
  binding : j.binding = i.binding
  dispatched : i.state ≠ .prepared → j.state ≠ .prepared

namespace PaidIntent.Continues

theorem refl (i : PaidIntent) : i.Continues i := ⟨rfl, rfl, rfl, rfl, rfl, rfl, rfl, id⟩

theorem trans {k : PaidIntent} (h : i.Continues j) (h' : j.Continues k) : i.Continues k where
  clientId := h'.clientId.trans h.clientId
  target := h'.target.trans h.target
  threadId := h'.threadId.trans h.threadId
  promptSha256 := h'.promptSha256.trans h.promptSha256
  requestedModel := h'.requestedModel.trans h.requestedModel
  requestedEffort := h'.requestedEffort.trans h.requestedEffort
  binding := h'.binding.trans h.binding
  dispatched := fun hi => h'.dispatched (h.dispatched hi)

theorem slot (h : i.Continues j) : j.slot = i.slot := by rw [PaidIntent.slot, h.binding, PaidIntent.slot]

end PaidIntent.Continues

/-- No two intents have a client id or a coordination slot in common. -/
structure PaidLedger.Keyed (l : PaidLedger) : Prop where
  clientIds : (l.intents.map (·.clientId)).Nodup
  slots : (l.intents.filterMap (·.slot)).Nodup

/-- What every transaction makes of the intents. -/
structure PaidLedger.Advances (l l' : PaidLedger) : Prop where
  keyed : l.Keyed → l'.Keyed
  rows : ∀ i ∈ l.intents, ∃ j ∈ l'.intents, i.Continues j

theorem PaidLedger.Advances.same (h : l'.intents = l.intents) : l.Advances l' := by
  refine ⟨fun hk => ⟨?_, ?_⟩, fun i hi => ⟨i, by rwa [h], .refl i⟩⟩
  · rw [h]
    exact hk.clientIds
  · rw [h]
    exact hk.slots

theorem PaidLedger.Advances.trans {l'' : PaidLedger} (h : l.Advances l') (h' : l'.Advances l'') :
    l.Advances l'' where
  keyed := fun hk => h'.keyed (h.keyed hk)
  rows := by
    intro i hi
    obtain ⟨j, hj, hij⟩ := h.rows i hi
    obtain ⟨k, hk, hjk⟩ := h'.rows j hj
    exact ⟨k, hk, hij.trans hjk⟩

theorem mem_bound (h : l.bound? slotId = some i) : i ∈ l.intents ∧ i.slot = some slotId := by
  obtain ⟨hm, hp⟩ := Rows.mem_of_find h
  exact ⟨hm, of_decide_eq_true hp⟩

theorem mem_intent (h : l.intent? clientId = some i) : i ∈ l.intents ∧ i.clientId = clientId := by
  obtain ⟨hm, hp⟩ := Rows.mem_of_find h
  exact ⟨hm, of_decide_eq_true hp⟩

namespace PaidLedger.Keyed
variable (hk : l.Keyed)
include hk

theorem eq_of_client (hi : i ∈ l.intents) (hj : j ∈ l.intents) (h : i.clientId = j.clientId) : i = j :=
  Rows.eq_of_key hk.clientIds hi hj h

/-- A coordination slot has one intent. -/
theorem eq_of_slot (hi : i ∈ l.intents) (hj : j ∈ l.intents) (hs : i.slot = some slotId)
    (hs' : j.slot = some slotId) : i = j := by
  have key : ∀ rows : List PaidIntent, (rows.filterMap (·.slot)).Nodup → i ∈ rows → j ∈ rows → i = j := by
    intro rows
    induction rows with
    | nil => intro _ hi _; cases hi
    | cons a rows ih =>
      intro hn hi hj
      have later : ∀ k ∈ rows, k.slot = some slotId → a.slot ≠ some slotId := by
        intro k hkm hks ha
        rw [List.filterMap_cons_some ha, List.nodup_cons] at hn
        exact hn.1 (List.mem_filterMap.mpr ⟨k, hkm, hks⟩)
      rcases List.mem_cons.mp hi with rfl | hi <;> rcases List.mem_cons.mp hj with rfl | hj
      · rfl
      · exact (later j hj hs' hs).elim
      · exact (later i ‹_› hs hs').elim
      · refine ih ?_ hi hj
        cases ha : a.slot with
        | none => rwa [List.filterMap_cons_none ha] at hn
        | some x =>
          rw [List.filterMap_cons_some ha, List.nodup_cons] at hn
          exact hn.2
  exact key _ hk.slots hi hj

theorem bound?_eq : l.bound? slotId = some i ↔ i ∈ l.intents ∧ i.slot = some slotId := by
  refine ⟨mem_bound, fun ⟨hi, hs⟩ => ?_⟩
  cases hf : l.bound? slotId with
  | none =>
    have := Rows.find_none.mp hf i hi
    simp [hs] at this
  | some j =>
    obtain ⟨hj, hjs⟩ := mem_bound hf
    rw [hk.eq_of_slot hi hj hs hjs]

theorem intent?_eq : l.intent? clientId = some i ↔ i ∈ l.intents ∧ i.clientId = clientId := by
  refine ⟨mem_intent, fun ⟨hi, hc⟩ => ?_⟩
  cases hf : l.intent? clientId with
  | none =>
    have := Rows.find_none.mp hf i hi
    simp [hc] at this
  | some j =>
    obtain ⟨hj, hjc⟩ := mem_intent hf
    rw [hk.eq_of_client hi hj (hc.trans hjc.symm)]

end PaidLedger.Keyed

/-- An update of one intent which keeps what it is bound to. -/
theorem updateIntent_advances (hf : ∀ i ∈ l.intents, i.clientId = clientId → i.Continues (f i)) :
    l.Advances (l.updateIntent clientId f) := by
  have hmap : ∀ {κ : Type} (g : PaidIntent → κ), (∀ i j, i.Continues j → g j = g i) →
      (l.updateIntent clientId f).intents.map g = l.intents.map g := by
    intro κ g hg
    rw [PaidLedger.updateIntent, Rows.update, List.map_map]
    refine List.map_congr_left fun i hi => ?_
    by_cases hc : i.clientId = clientId
    · simp [hc, hg i (f i) (hf i hi hc)]
    · simp [hc]
  refine ⟨fun hk => ⟨?_, ?_⟩, fun i hi => ?_⟩
  · rw [hmap (·.clientId) fun _ _ h => h.clientId]
    exact hk.clientIds
  · have hs := congrArg (List.filterMap id) (hmap (·.slot) fun _ _ h => h.slot)
    rw [List.filterMap_map, List.filterMap_map] at hs
    exact hs ▸ hk.slots
  · by_cases hc : i.clientId = clientId
    · exact ⟨f i, Rows.mem_update_of_hit hi (by simp [hc]), hf i hi hc⟩
    · exact ⟨i, Rows.mem_update_of_miss hi (by simp [hc]), .refl i⟩

theorem insertIntent_advances {row : PaidIntent} (h : l.insertIntent i = .ok (row, l')) :
    l.Advances l' ∧ row = i ∧ i ∈ l'.intents := by
  unfold PaidLedger.insertIntent at h
  split at h
  · cases h
  · rename_i hfree
    cases h
    rw [not_or] at hfree
    obtain ⟨hc, hs⟩ := hfree
    refine ⟨⟨fun hk => ⟨?_, ?_⟩, fun j hj => ⟨j, List.mem_cons_of_mem _ hj, .refl j⟩⟩, rfl, List.mem_cons_self⟩
    · rw [List.map_cons, List.nodup_cons]
      refine ⟨fun hm => ?_, hk.clientIds⟩
      obtain ⟨j, hj, he⟩ := List.mem_map.mp hm
      exact hc (by rw [hk.intent?_eq.mpr ⟨hj, he⟩]; rfl)
    · cases hslot : i.slot with
      | none =>
        rw [List.filterMap_cons_none hslot]
        exact hk.slots
      | some x =>
        rw [List.filterMap_cons_some hslot, List.nodup_cons]
        refine ⟨fun hm => ?_, hk.slots⟩
        obtain ⟨j, hj, he⟩ := List.mem_filterMap.mp hm
        exact hs (by rw [hslot, Option.bind_some, hk.bound?_eq.mpr ⟨hj, he⟩]; rfl)

theorem RoundRequest.fits_iff {r : RoundRequest} : r.fits i = true ↔ i.target = r.target ∧
    i.threadId = r.threadId ∧ i.promptSha256 = r.promptSha256 ∧ i.requestedModel = r.requestedModel ∧
    i.requestedEffort = r.requestedEffort ∧ i.binding = r.binding := decide_eq_true_iff

/-- `round_intent` returns an intent of the ledger for exactly its request. -/
theorem roundIntent_ok {r : RoundRequest} {uuid : PyStr} (h : l.roundIntent r uuid = .ok (i, l')) :
    l.Advances l' ∧ i ∈ l'.intents ∧ r.fits i = true := by
  unfold PaidLedger.roundIntent at h
  simp only [Checks.bind_ok, Checks.unless_ok] at h
  obtain ⟨_, _, _, _, _, _, _, h⟩ := h
  have hsame : l.Advances l := .same rfl
  cases hb : r.binding.bind fun b => l.bound? b.slotId with
  | some row =>
    rw [hb] at h
    simp only at h
    split at h
    · rename_i hfit
      cases h
      obtain ⟨b, _, hrow⟩ := Option.bind_eq_some_iff.mp hb
      exact ⟨hsame, (mem_bound hrow).1, hfit⟩
    · cases h
  | none =>
    rw [hb] at h
    simp only [PaidLedger.openIntent] at h
    split at h
    · rename_i row hu
      split at h
      · rename_i hfit
        cases h
        exact ⟨hsame, (Rows.mem_of_find hu).1, hfit⟩
      · cases h
    · split at h
      · cases h
      · obtain ⟨ha, rfl, hm⟩ := insertIntent_advances h
        exact ⟨ha, hm, RoundRequest.fits_iff.mpr ⟨rfl, rfl, rfl, rfl, rfl, rfl⟩⟩

/-- `record_round_intent` moves the row it has found, from a state that was expected. -/
theorem recordRoundIntent_ok {state : IntentState} {turnId terminalStatus : Option PyStr}
    {expected : Option (List IntentState)}
    (h : l.recordRoundIntent clientId state turnId terminalStatus expected = .ok l') :
    ∃ row, l.intent? clientId = some row ∧ (∀ states ∈ expected, row.state ∈ states) ∧
      (row.binding ≠ none → state ≠ .completed ∧ state ≠ .failed) ∧
      (row.unfinished = false → state = row.state) ∧
      l' = l.updateIntent clientId fun i => { i with
        state := state, turnId := turnId.or i.turnId, terminalStatus := terminalStatus } := by
  unfold PaidLedger.recordRoundIntent at h
  split at h
  · cases h
  · rename_i row hrow
    simp only [Checks.unless_error_ok] at h
    obtain ⟨he, hb, hu, h⟩ := h
    refine ⟨row, hrow, fun states hs => ?_, fun hne => ?_, fun huf => ?_, (by cases h; rfl)⟩
    · cases hs
      simpa using he
    · simp only [not_and, not_or] at hb
      exact hb hne
    · by_contra hne
      exact hu ⟨huf, hne⟩

/-- A recorded intent goes on, unless it is put back to be prepared. -/
theorem recordRoundIntent_advances {state : IntentState} {turnId terminalStatus : Option PyStr}
    {expected : Option (List IntentState)} (hst : state ≠ .prepared)
    (h : l.recordRoundIntent clientId state turnId terminalStatus expected = .ok l') : l.Advances l' := by
  obtain ⟨_, _, _, _, _, rfl⟩ := recordRoundIntent_ok h
  exact updateIntent_advances fun i _ _ => ⟨rfl, rfl, rfl, rfl, rfl, rfl, rfl, fun _ => hst⟩

theorem setThreadId_advances {target threadId : PyStr} (h : l.setThreadId target threadId = .ok l') :
    l.Advances l' := by
  unfold PaidLedger.setThreadId at h
  simp only [Checks.unless_error_ok, Checks.bind_ok] at h
  obtain ⟨_, _, _, h⟩ := h
  cases h
  exact .same rfl

theorem recordRoundAttemptAudit_advances {payload : PyStr}
    (h : l.recordRoundAttemptAudit clientId payload = .ok l') : l.Advances l' := by
  unfold PaidLedger.recordRoundAttemptAudit at h
  obtain ⟨_, _, h⟩ := Checks.bind_ok.mp h
  split at h
  · cases h
  · split at h
    · split at h
      · cases h
        exact updateIntent_advances fun i _ _ => ⟨rfl, rfl, rfl, rfl, rfl, rfl, rfl, fun _ => by simp⟩
      · cases h
        exact .same rfl
    · split at h
      · cases h
        exact updateIntent_advances fun i _ _ => ⟨rfl, rfl, rfl, rfl, rfl, rfl, rfl, fun _ => by simp⟩
      · cases h
        exact .same rfl

theorem retireWithReceipt_intents {b : SlotBinding} {t : Terminal} {rc : Int} {disposition digest : PyStr}
    (h : l.retireWithReceipt i b t rc disposition digest = .ok l') : l'.intents = l.intents := by
  unfold PaidLedger.retireWithReceipt at h
  simp only [Checks.unless_error_ok] at h
  obtain ⟨_, _, h⟩ := h
  cases h
  rfl

theorem replayTerminal_ok {t : Terminal} {rc : Int} {disposition digest : PyStr}
    (h : l.replayTerminal i t rc disposition digest = .ok l') : l' = l := by
  unfold PaidLedger.replayTerminal at h
  split at h
  · cases h
  · simp only [Checks.unless_error_ok] at h
    obtain ⟨_, _, h⟩ := h
    cases h
    rfl

theorem completeDeliveries_ok {threadId turnId status : PyStr} {now : Nat}
    (h : l.completeDeliveries threadId turnId status now = .ok l') :
    ∃ deliveries, l' = { l with deliveries := deliveries } := by
  obtain ⟨messages, _, h⟩ := Checks.bind_ok.mp h
  cases h
  exact ⟨_, rfl⟩

theorem closeIntent_advances {t : Terminal} {adapter : Option (Int × PyStr)} {digest : PyStr}
    (h : l.closeIntent i t adapter digest = .ok l') : l.Advances l' := by
  have hclose : l.Advances (l.updateIntent i.clientId fun i => { i with
      state := .completed, turnId := some t.turnId, terminalStatus := some t.terminalStatus }) :=
    updateIntent_advances fun i _ _ => ⟨rfl, rfl, rfl, rfl, rfl, rfl, rfl, fun _ => by simp⟩
  unfold PaidLedger.closeIntent at h
  split at h
  · simp only at h
    split at h
    · exact hclose.trans (.same (retireWithReceipt_intents h))
    · cases h
      exact hclose
  · split at h
    · rw [replayTerminal_ok h]
      exact .same rfl
    · cases h
      exact .same rfl

theorem finalizeRound_advances {payload : PyStr} {t : Terminal} {now : Nat}
    (h : l.finalizeRound clientId payload t now = .ok l') : l.Advances l' := by
  unfold PaidLedger.finalizeRound at h
  obtain ⟨_, _, h⟩ := Checks.bind_ok.mp h
  split at h
  · cases h
  · simp only [Checks.bind_ok, Checks.unless_ok] at h
    obtain ⟨_, _, adapter, _, _, _, digest, _, _, _, _, received, hrec, h⟩ := h
    refine PaidLedger.Advances.trans (.same ?_) (closeIntent_advances h)
    obtain ⟨_, rfl⟩ := completeDeliveries_ok hrec
    rfl

theorem recordOperatorReceipt_intents {e : OperatorEvent} {status : PyStr}
    (h : l.recordOperatorReceipt i e status = .ok l') : l'.intents = l.intents := by
  unfold PaidLedger.recordOperatorReceipt at h
  split at h
  · cases h
    rfl
  · simp only [Checks.unless_error_ok] at h
    obtain ⟨_, _, h⟩ := h
    cases h
    rfl

theorem operatorClose_advances {target threadId reason : PyStr} {action : OperatorAction}
    {expected : IntentState} {texts : OperatorTexts}
    (h : l.operatorClose target threadId clientId action expected reason texts = .ok l') : l.Advances l' := by
  unfold PaidLedger.operatorClose at h
  split at h
  · cases h
  · simp only [Checks.unless_error_ok] at h
    obtain ⟨_, _, _, _, h⟩ := h
    have hclose : l.Advances (l.updateIntent clientId fun i => { i with
        state := .failed, terminalStatus := some action.policy.terminalStatus }) :=
      updateIntent_advances fun i _ _ => ⟨rfl, rfl, rfl, rfl, rfl, rfl, rfl, fun _ => by simp⟩
    exact hclose.trans (.same ((recordOperatorReceipt_intents h).trans rfl))

section Owner
variable [AppServer.Redaction]

theorem removeThreadId_advances {target expected detail : PyStr} {action : ThreadAction}
    (h : l.removeThreadId target expected detail action = .ok l') : l.Advances l' := by
  unfold PaidLedger.removeThreadId at h
  simp only [Checks.bind_ok, Checks.unless_ok] at h
  obtain ⟨_, _, _, h⟩ := h
  split at h
  · cases h
  · simp only [Checks.unless_ok] at h
    obtain ⟨_, _, h⟩ := h
    cases h
    exact .same rfl

theorem abandon_advances {target threadId reason : PyStr} {expected : IntentState} {acknowledged : Bool}
    (h : l.abandonRoundIntent target threadId clientId expected reason acknowledged = .ok l') :
    l.Advances l' := by
  unfold PaidLedger.abandonRoundIntent at h
  simp only [Checks.unless_error_ok, Checks.bind_ok, Checks.unless_ok] at h
  obtain ⟨_, _, _, _, h⟩ := h
  exact operatorClose_advances h

theorem cancel_advances {target threadId reason : PyStr}
    (h : l.cancelPreparedRoundIntent target threadId clientId reason = .ok l') : l.Advances l' := by
  obtain ⟨_, _, h⟩ := Checks.bind_ok.mp h
  exact operatorClose_advances h

theorem clear_advances {target expected detail : PyStr}
    (h : l.clearThreadId target expected detail = .ok l') : l.Advances l' := removeThreadId_advances h

theorem rotate_advances {target expected reason : PyStr}
    (h : l.rotateThreadId target expected reason = .ok l') : l.Advances l' := by
  unfold PaidLedger.rotateThreadId at h
  exact removeThreadId_advances (Checks.unless_error_ok.mp h).2

end Owner
end Danus.HotJoin
