import Danus.HotJoin.FinalizedRounds

/-! Every run of the paid turns with their brokers: `finalize_round` is atomic and replayed without change, and no
message of a turn that is recorded terminal stays accepted. -/
namespace Danus.HotJoin
open Python Machines Checks

variable {l l' : PaidLedger} {i : PaidIntent} {t : Terminal}
  {clientId threadId turnId payload target : PyStr} {now : Nat}

namespace PaidLedger

theorem terminal_iff : l.terminal threadId turnId = true ↔
    ∃ i ∈ l.intents, i.state = .completed ∧ i.threadId = threadId ∧ i.turnId = some turnId := by
  simp [terminal, List.any_eq_true]

/-- A transaction on intents and threads that completes no intent. -/
structure Quiet (l l' : PaidLedger) : Prop where
  deliveries : l'.deliveries = l.deliveries
  keyed : l.Keyed → l'.Keyed
  numbered : l.Numbered → l'.Numbered
  completed : ∀ k ∈ l'.intents, k.state = .completed → k ∈ l.intents

namespace Quiet

theorem refl (l : PaidLedger) : l.Quiet l := ⟨rfl, id, id, fun _ hk _ => hk⟩

theorem sound (h : l.Quiet l') (hl : l.Sound) : l'.Sound where
  keyed := h.keyed hl.keyed
  distinct := by
    rw [Distinct, h.deliveries]
    exact hl.distinct
  numbered := h.numbered hl.numbered
  turned := fun k hk hs => hl.turned k (h.completed k hk hs) hs

theorem terminal (h : l.Quiet l') (ht : l'.terminal threadId turnId = true) :
    l.terminal threadId turnId = true := by
  rw [terminal_iff] at ht ⊢
  obtain ⟨k, hk, hs, hkt⟩ := ht
  exact ⟨k, h.completed k hk hs, hs, hkt⟩

end Quiet

theorem setThreadId_quiet (h : l.setThreadId target threadId = .ok l') : l.Quiet l' := by
  unfold setThreadId at h
  simp only [unless_error_ok, bind_ok] at h
  obtain ⟨_, _, _, h⟩ := h
  cases h
  exact ⟨rfl, fun hk => ⟨hk.clientIds, hk.slots⟩, fun hn => hn.snoc rfl rfl, fun _ hk _ => hk⟩

theorem roundIntent_quiet {r : RoundRequest} {uuid : PyStr} {row : PaidIntent}
    (h : l.roundIntent r uuid = .ok (row, l')) : l.Quiet l' := by
  have hkeyed := (roundIntent_ok h).1.keyed
  unfold roundIntent at h
  simp only [bind_ok, unless_ok] at h
  obtain ⟨_, _, _, _, _, _, _, h⟩ := h
  split at h
  · rw [ite_ok] at h
    rcases h with ⟨_, h⟩ | ⟨_, h⟩
    · cases h
      exact .refl l
    · cases h
  · unfold openIntent at h
    split at h
    · rw [ite_ok] at h
      rcases h with ⟨_, h⟩ | ⟨_, h⟩
      · cases h
        exact .refl l
      · cases h
    · rw [unless_error_ok] at h
      obtain ⟨_, h⟩ := h
      unfold insertIntent at h
      rw [unless_error_ok] at h
      obtain ⟨_, h⟩ := h
      cases h
      refine ⟨rfl, hkeyed, id, fun k hk hs => ?_⟩
      rcases List.mem_cons.mp hk with rfl | hk
      · cases hs
      · exact hk

/-- An intent moved to another state than `completed`. -/
theorem updateIntent_quiet {f : PaidIntent → PaidIntent} (hid : ∀ i, (f i).clientId = i.clientId)
    (hbinding : ∀ i, (f i).binding = i.binding) (hs : ∀ i, (f i).state ≠ .completed) :
    l.Quiet (l.updateIntent clientId f) := by
  refine ⟨rfl, fun hk => ⟨?_, ?_⟩, id, fun k hk hc => ?_⟩
  · unfold updateIntent
    rw [Rows.map_update fun i _ => hid i]
    exact hk.clientIds
  · have hslots : (l.updateIntent clientId f).intents.map (·.slot) = l.intents.map (·.slot) :=
      Rows.map_update fun i _ => by rw [PaidIntent.slot, hbinding, PaidIntent.slot]
    have hsame := congrArg (List.filterMap id) hslots
    rw [List.filterMap_map, List.filterMap_map] at hsame
    exact hsame ▸ hk.slots
  · rcases Rows.mem_update_cases hk with ⟨hold, _⟩ | ⟨k, _, _, rfl⟩
    · exact hold
    · exact (hs k hc).elim

theorem recordRoundIntent_quiet {state : IntentState} {turnId terminalStatus : Option PyStr}
    {expected : Option (List IntentState)} (hs : state ≠ .completed)
    (h : l.recordRoundIntent clientId state turnId terminalStatus expected = .ok l') : l.Quiet l' := by
  obtain ⟨_, _, _, _, _, rfl⟩ := recordRoundIntent_ok h
  exact updateIntent_quiet (fun _ => rfl) (fun _ => rfl) fun _ => hs

theorem recordRoundAttemptAudit_quiet (h : l.recordRoundAttemptAudit clientId payload = .ok l') :
    l.Quiet l' := by
  unfold recordRoundAttemptAudit at h
  obtain ⟨_, _, h⟩ := bind_ok.mp h
  split at h
  · cases h
  · simp only [ite_ok, pure_ok] at h
    rcases h with ⟨_, ⟨_, rfl⟩ | ⟨_, rfl⟩⟩ | ⟨_, ⟨_, rfl⟩ | ⟨_, rfl⟩⟩
    · exact updateIntent_quiet (fun _ => rfl) (fun _ => rfl) fun _ => nofun
    · exact .refl l
    · exact updateIntent_quiet (fun _ => rfl) (fun _ => rfl) fun _ => nofun
    · exact .refl l

theorem recordOperatorReceipt_quiet {e : OperatorEvent} {status : PyStr}
    (h : l.recordOperatorReceipt i e status = .ok l') : l.Quiet l' := by
  unfold recordOperatorReceipt at h
  split at h
  · cases h
    exact .refl l
  · simp only [unless_error_ok] at h
    obtain ⟨_, _, h⟩ := h
    cases h
    exact ⟨rfl, fun hk => ⟨hk.clientIds, hk.slots⟩, id, fun _ hk _ => hk⟩

theorem operatorClose_quiet {threadId reason : PyStr} {action : OperatorAction} {expected : IntentState}
    {texts : OperatorTexts}
    (h : l.operatorClose target threadId clientId action expected reason texts = .ok l') : l.Quiet l' := by
  unfold operatorClose at h
  split at h
  · cases h
  · simp only [unless_error_ok] at h
    obtain ⟨_, _, _, _, h⟩ := h
    have hclosed : l.Quiet (l.updateIntent clientId fun i => { i with
        state := .failed, terminalStatus := some action.policy.terminalStatus }) :=
      updateIntent_quiet (fun _ => rfl) (fun _ => rfl) fun _ => nofun
    have hreceipt := recordOperatorReceipt_quiet h
    exact ⟨hreceipt.deliveries, fun hk => hreceipt.keyed ⟨(hclosed.keyed hk).clientIds, (hclosed.keyed hk).slots⟩,
      hreceipt.numbered, fun k hk hs => hclosed.completed k (hreceipt.completed k hk hs) hs⟩

section Owner
variable [AppServer.Redaction]

theorem removeThreadId_quiet {expected detail : PyStr} {action : ThreadAction}
    (h : l.removeThreadId target expected detail action = .ok l') : l.Quiet l' := by
  unfold removeThreadId at h
  simp only [bind_ok, unless_ok] at h
  obtain ⟨_, _, _, h⟩ := h
  split at h
  · cases h
  · simp only [unless_ok] at h
    obtain ⟨_, _, h⟩ := h
    cases h
    exact ⟨rfl, fun hk => ⟨hk.clientIds, hk.slots⟩, fun hn => hn.snoc rfl rfl, fun _ hk _ => hk⟩

theorem rotateThreadId_quiet {expected reason : PyStr}
    (h : l.rotateThreadId target expected reason = .ok l') : l.Quiet l' := by
  unfold rotateThreadId at h
  exact removeThreadId_quiet (unless_error_ok.mp h).2

theorem abandon_quiet {threadId reason : PyStr} {expected : IntentState} {acknowledged : Bool}
    (h : l.abandonRoundIntent target threadId clientId expected reason acknowledged = .ok l') :
    l.Quiet l' := by
  unfold abandonRoundIntent at h
  simp only [unless_error_ok, bind_ok, unless_ok] at h
  obtain ⟨_, _, _, _, h⟩ := h
  exact operatorClose_quiet h

theorem cancel_quiet {threadId reason : PyStr}
    (h : l.cancelPreparedRoundIntent target threadId clientId reason = .ok l') : l.Quiet l' := by
  obtain ⟨_, _, h⟩ := bind_ok.mp h
  exact operatorClose_quiet h

end Owner

/-- A terminal completes the intent of one turn, whose messages have their receipts. -/
theorem finalizeRound_settles (hl : l.Sound) (h : l.finalizeRound clientId payload t now = .ok l') :
    l'.Sound ∧ (∀ d ∈ l'.deliveries, d.accepted = true → d ∈ l.deliveries) ∧
      (∀ d ∈ l'.deliveries, d.held t.threadId t.turnId = false) ∧
      ∀ threadId turnId, l'.terminal threadId turnId = true →
        l.terminal threadId turnId = true ∨ threadId = t.threadId ∧ turnId = t.turnId := by
  obtain ⟨i, j, adapter, hadm, hclosed⟩ := finalizeRound_ok hl h
  have hthread : j.threadId = t.threadId := hclosed.continues.threadId.trans hadm.thread
  refine ⟨⟨(finalizeRound_advances h).keyed hl.keyed, ?_, hclosed.numbered, fun k hk hs => ?_⟩,
    fun d hd ha => ?_, hclosed.deliveries ▸ closeTurn_not_held, fun threadId turnId ht => ?_⟩
  · rw [Distinct, hclosed.deliveries, PaidLedger.received, closeTurn_ids]
    exact hl.distinct
  · rcases hclosed.intents k hk with hold | rfl
    · exact hl.turned k hold hs
    · rw [hclosed.turn]
      exact Option.some_ne_none _
  · exact closeTurn_accepted (hclosed.deliveries ▸ hd) ha
  · obtain ⟨k, hk, hs, hkt, hku⟩ := terminal_iff.mp ht
    rcases hclosed.intents k hk with hold | rfl
    · exact .inl (terminal_iff.mpr ⟨k, hold, hs, hkt, hku⟩)
    · rw [hclosed.turn] at hku
      exact .inr ⟨hkt.symm.trans hthread, (Option.some.inj hku).symm⟩

end PaidLedger

namespace Rounds
variable {s u : Rounds} {b : Broker} {j : Nat}

/-- Sound tables, and each accepted message of a terminal turn in the hand of a broker. -/
structure Inv (s : Rounds) : Prop where
  sound : s.paid.Sound
  hands : ∀ d ∈ s.paid.deliveries, ∀ threadId turnId, d.held threadId turnId = true →
    s.paid.terminal threadId turnId = true → ∃ i, s.InHand threadId turnId i

theorem inv_initial : initial.Inv where
  sound := ⟨⟨List.nodup_nil, List.nodup_nil⟩, List.nodup_nil, fun _ he => (List.not_mem_nil he).elim,
    fun _ hi => (List.not_mem_nil hi).elim⟩
  hands := fun _ hd => (List.not_mem_nil hd).elim

/-- Brokers that stand where they stood. -/
theorem InHand.keep (hb : u.brokers[j]? = s.brokers[j]?) (hl : u.looks j = s.looks j)
    (h : s.InHand threadId turnId j) : u.InHand threadId turnId j := by
  obtain ⟨b, look, hj, hpc, ht, hlook, hu⟩ := h
  exact ⟨b, look, hb.trans hj, hpc, ht, hl.trans hlook, hu⟩

/-- A step that accepts nothing and ends no turn, with all brokers in place. -/
theorem Inv.keep (h : s.Inv) (hsound : u.paid.Sound)
    (hd : ∀ d ∈ u.paid.deliveries, d.accepted = true → d ∈ s.paid.deliveries)
    (ht : ∀ threadId turnId, u.paid.terminal threadId turnId = true →
      s.paid.terminal threadId turnId = true)
    (hh : ∀ threadId turnId j, s.InHand threadId turnId j → u.InHand threadId turnId j) : u.Inv := by
  refine ⟨hsound, fun d hm threadId turnId hheld hterm => ?_⟩
  obtain ⟨j, hj⟩ := h.hands d (hd d hm (Delivery.held_iff.mp hheld).1) threadId turnId hheld
    (ht threadId turnId hterm)
  exact ⟨j, hh threadId turnId j hj⟩

theorem Inv.committed (h : s.Inv) {r : Except HotJoinError PaidLedger}
    (hr : ∀ l, r = .ok l → s.paid.Quiet l) : (s.committed r).Inv := by
  unfold Rounds.committed
  split
  · next l =>
    have hquiet := hr l rfl
    exact h.keep (hquiet.sound h.sound) (fun d hd _ => hquiet.deliveries ▸ hd) (fun _ _ => hquiet.terminal)
      fun _ _ _ hj => hj.keep rfl rfl
  · exact h

/-- The tables of the paid turns are sound with other deliveries of distinct messages. -/
theorem sound_withMessages (h : s.paid.Sound) {turn : Option (PyStr × PyStr)} {ledger : Ledger}
    (hd : Takes turn s.paid.deliveries ledger.deliveries) : (s.withMessages ledger).paid.Sound :=
  ⟨⟨h.keyed.clientIds, h.keyed.slots⟩, hd.ids h.distinct, h.numbered, h.turned⟩

theorem Takes.none_mem {ds ds' : List Delivery} (h : Takes none ds ds') {d : Delivery} (hd : d ∈ ds')
    (ha : d.accepted = true) : d ∈ ds := by
  rcases h.accepted d hd ha with hold | ⟨p, hp, _⟩
  · exact hold
  · cases hp

theorem Inv.posted (h : s.Inv) {r : Except HotJoinError Ledger}
    (hr : ∀ l, r = .ok l → Takes none s.paid.deliveries l.deliveries) : (s.posted r).Inv := by
  unfold Rounds.posted
  split
  · next l =>
    have htakes := hr l rfl
    exact h.keep (sound_withMessages h.sound htakes) (fun d hd ha => Takes.none_mem htakes hd ha)
      (fun _ _ ht => ht) fun _ _ _ hj => hj.keep rfl rfl
  · exact h

theorem Inv.finalized (h : s.Inv) (clientId payload : PyStr) (t : Terminal) (now : Nat) :
    (s.committed (s.paid.finalizeRound clientId payload t now)).Inv := by
  unfold Rounds.committed
  split
  · next l hl =>
    obtain ⟨hsound, hkept, hfree, hterm⟩ := PaidLedger.finalizeRound_settles h.sound hl
    refine ⟨hsound, fun d hd threadId turnId hheld ht => ?_⟩
    rcases hterm threadId turnId ht with hold | ⟨rfl, rfl⟩
    · obtain ⟨i, hi⟩ := h.hands d (hkept d hd (Delivery.held_iff.mp hheld).1) threadId turnId hheld hold
      exact ⟨i, hi.keep rfl rfl⟩
    · rw [hfree d hd] at hheld
      cases hheld
  · exact h

/-- The look of a broker ends its turn's messages, where the turn has ended. -/
theorem look_eq (h : s.paid.Sound) {i : Nat} {look : Look} {status : PyStr}
    (hs : look.status (s.ended i b.threadId) = some status) :
    s.look i b look now = { s with
      looks := Function.update s.looks i none
      paid := s.paid.closeTurn b.threadId look.turnId status now } := by
  unfold Rounds.look
  rw [hs]
  simp only [PaidLedger.completeDeliveries_eq h.distinct]

theorem move_look {i leaseNs : Nat} {answer : Answer} {look : Look} (hpc : b.pc ≠ .stopped)
    (hlook : s.looks i = some look) : s.move i b now leaseNs answer = s.look i b look now := by
  unfold Rounds.move
  rw [hlook]
  cases h : b.pc with
  | stopped => exact (hpc h).elim
  | _ => rfl

/-- What a broker has in hand it closes with its next step. -/
theorem InHand.closes (h : s.paid.Sound) {i leaseNs : Nat} {answer : Answer} (hi : s.InHand threadId turnId i)
    (ht : s.paid.terminal threadId turnId = true)
    (hfits : ∀ b ∈ s.brokers[i]?, ∀ look ∈ s.looks i, look.status (s.ended i b.threadId) = none →
      s.paid.terminal b.threadId look.turnId = false) :
    ∃ b ∈ s.brokers[i]?, ∀ d ∈ (s.move i b now leaseNs answer).paid.deliveries,
      d.held threadId turnId = false := by
  obtain ⟨b, look, hb, hpc, rfl, hlook, rfl⟩ := hi
  refine ⟨b, hb, fun d hd => ?_⟩
  obtain ⟨status, hstatus⟩ : ∃ status, look.status (s.ended i b.threadId) = some status := by
    cases hs : look.status (s.ended i b.threadId) with
    | none =>
      rw [hfits b hb look hlook hs] at ht
      cases ht
    | some status => exact ⟨status, rfl⟩
  rw [move_look hpc hlook, look_eq h hstatus] at hd
  exact PaidLedger.closeTurn_not_held d hd

/-- The brokers but one stand where they stood. -/
theorem InHand.other {i : Nat} {b' : Broker} {look : Option Look} (hij : j ≠ i)
    (hb : u.brokers = s.brokers.set i b') (hl : u.looks = Function.update s.looks i look)
    (h : s.InHand threadId turnId j) : u.InHand threadId turnId j := by
  refine h.keep ?_ ?_
  · rw [hb, List.getElem?_set_ne hij.symm]
  · rw [hl, Function.update_of_ne hij]

/-- The look of a broker, which needs to have seen the end of a terminal turn. -/
theorem Inv.look (h : s.Inv) {i : Nat} {look : Look} (hb : s.brokers[i]? = some b)
    (hlook : s.looks i = some look) (hfits : look.status (s.ended i b.threadId) = none →
      s.paid.terminal b.threadId look.turnId = false) : (s.look i b look now).Inv := by
  have hself : ∀ {threadId turnId}, s.InHand threadId turnId i → threadId = b.threadId ∧ turnId = look.turnId := by
    rintro threadId turnId ⟨b', look', hb', _, rfl, hlook', rfl⟩
    rw [hb] at hb'
    rw [hlook] at hlook'
    cases hb'
    cases hlook'
    exact ⟨rfl, rfl⟩
  cases hs : look.status (s.ended i b.threadId) with
  | none =>
    have hsame : s.look i b look now = { s with looks := Function.update s.looks i none } := by
      unfold Rounds.look
      rw [hs]
    rw [hsame]
    refine ⟨h.sound, fun d hd threadId turnId hheld ht => ?_⟩
    obtain ⟨j, hj⟩ := h.hands d hd threadId turnId hheld ht
    by_cases hij : j = i
    · obtain ⟨rfl, rfl⟩ := hself (hij ▸ hj)
      have hnot := hfits hs
      rw [show s.paid.terminal b.threadId look.turnId = true from ht] at hnot
      cases hnot
    · exact ⟨j, InHand.keep (s := s) rfl (Function.update_of_ne hij _ _) hj⟩
  | some status =>
    rw [look_eq h.sound hs]
    refine ⟨⟨⟨h.sound.keyed.clientIds, h.sound.keyed.slots⟩, ?_, h.sound.numbered, h.sound.turned⟩,
      fun d hd threadId turnId hheld ht => ?_⟩
    · rw [PaidLedger.Distinct, PaidLedger.closeTurn_ids]
      exact h.sound.distinct
    · obtain ⟨j, hj⟩ := h.hands d (PaidLedger.closeTurn_accepted hd (Delivery.held_iff.mp hheld).1) threadId
        turnId hheld ht
      by_cases hij : j = i
      · obtain ⟨rfl, rfl⟩ := hself (hij ▸ hj)
        rw [PaidLedger.closeTurn_not_held d hd] at hheld
        cases hheld
      · exact ⟨j, InHand.keep (s := s) rfl (Function.update_of_ne hij _ _) hj⟩

/-- A broker's step on the messages: where it has one accepted by a terminal turn, it looks next. -/
theorem Inv.routed (h : s.Inv) {i leaseNs : Nat} {answer : Answer} (hb : s.brokers[i]? = some b)
    (hpc : b.pc ≠ .stopped) (hlook : s.looks i = none)
    (hfits : b.nextLook answer = none → ∀ p ∈ b.takes answer, s.paid.terminal p.1 p.2 = false) :
    (s.move i b now leaseNs answer).Inv := by
  obtain ⟨pc, hset, htakes⟩ := s.routing.move_takes i b hpc now leaseNs answer
  have hmove : s.move i b now leaseNs answer =
      { s.withMessages (s.routing.move i b now leaseNs answer).ledger with
        brokers := (s.routing.move i b now leaseNs answer).brokers
        looks := Function.update s.looks i (b.nextLook answer) } := by
    unfold Rounds.move
    rw [hlook]
    cases h : b.pc with
    | stopped => exact (hpc h).elim
    | _ => rfl
  rw [hmove]
  have hkept : ∀ {threadId turnId}, (∃ j, s.InHand threadId turnId j) → ∃ j,
      { s.withMessages (s.routing.move i b now leaseNs answer).ledger with
        brokers := (s.routing.move i b now leaseNs answer).brokers
        looks := Function.update s.looks i (b.nextLook answer) : Rounds }.InHand threadId turnId j := by
    rintro threadId turnId ⟨j, hj⟩
    refine ⟨j, InHand.other (i := i) ?_ hset rfl hj⟩
    rintro rfl
    obtain ⟨_, _, _, _, _, hl, _⟩ := hj
    rw [hlook] at hl
    cases hl
  rcases htakes with htakes | ⟨hgoes, htakes⟩
  · exact ⟨sound_withMessages h.sound htakes, fun d hd threadId turnId hheld ht =>
      hkept (h.hands d (Takes.none_mem htakes hd (Delivery.held_iff.mp hheld).1) threadId turnId hheld ht)⟩
  · refine ⟨sound_withMessages h.sound htakes, fun d hd threadId turnId hheld ht => ?_⟩
    obtain ⟨ha, hthread, hturn⟩ := Delivery.held_iff.mp hheld
    rcases htakes.accepted d hd ha with hold | ⟨p, hp, hpt, hpu⟩
    · exact hkept (h.hands d hold threadId turnId hheld ht)
    · obtain rfl : threadId = p.1 := Option.some.inj (hthread.symm.trans hpt)
      obtain rfl : turnId = p.2 := Option.some.inj (hturn.symm.trans hpu)
      obtain ⟨hpb, hlooks⟩ := Broker.nextLook_turn hp
      cases hnext : b.nextLook answer with
      | none =>
        have hnot := hfits hnext p hp
        rw [show s.paid.terminal p.1 p.2 = true from ht] at hnot
        cases hnot
      | some look =>
        refine ⟨i, { b with pc := pc }, look, ?_, hgoes, hpb.symm, Function.update_self _ _ _,
          hlooks look hnext⟩
        show (s.routing.move i b now leaseNs answer).brokers[i]? = _
        rw [hset]
        exact List.getElem?_set_self (List.getElem?_eq_some_iff.mp hb).1

section Runs
variable [AppServer.Redaction]

theorem Inv.step (h : s.Inv) {event : Event} (hf : s.Fits event) : (s.step event).Inv := by
  have hsnd : ∀ {α β : Type} {r : Except HotJoinError (α × β)} {y : β}, r.map Prod.snd = .ok y →
      ∃ x, r = .ok (x, y) := by
    intro α β r y hr
    obtain ⟨⟨x, y'⟩, hxy, rfl⟩ := map_ok.mp hr
    exact ⟨x, hxy⟩
  cases event with
  | enqueue target body clientId fallback kind fresh now =>
    refine h.posted fun l hl => ?_
    obtain ⟨row, hrow⟩ := hsnd hl
    exact enqueue_takes hrow
  | enqueueEncouragement target note clientId fresh now =>
    refine h.posted fun l hl => ?_
    obtain ⟨row, hrow⟩ := hsnd hl
    exact enqueueEncouragement_takes hrow
  | setThreadId target threadId => exact h.committed fun _ hl => PaidLedger.setThreadId_quiet hl
  | clearThreadId target expected detail => exact h.committed fun _ hl => PaidLedger.removeThreadId_quiet hl
  | rotateThreadId target expected reason => exact h.committed fun _ hl => PaidLedger.rotateThreadId_quiet hl
  | roundIntent r uuid =>
    refine h.committed fun l hl => ?_
    obtain ⟨row, hrow⟩ := hsnd hl
    exact PaidLedger.roundIntent_quiet hrow
  | recordRoundIntent clientId state turnId terminalStatus expected =>
    exact h.committed fun _ hl => PaidLedger.recordRoundIntent_quiet hf hl
  | recordRoundAttemptAudit clientId payload =>
    exact h.committed fun _ hl => PaidLedger.recordRoundAttemptAudit_quiet hl
  | finalizeRound clientId payload t now => exact h.finalized clientId payload t now
  | abandon target threadId clientId expected reason acknowledged =>
    exact h.committed fun _ hl => PaidLedger.abandon_quiet hl
  | cancel target threadId clientId reason => exact h.committed fun _ hl => PaidLedger.cancel_quiet hl
  | turn threadId activeTurn =>
    exact h.keep h.sound (fun _ hd _ => hd) (fun _ _ ht => ht) fun _ _ _ hj => hj.keep rfl rfl
  | ended i threadId turnId status =>
    exact h.keep h.sound (fun _ hd _ => hd) (fun _ _ ht => ht) fun _ _ _ hj => hj.keep rfl rfl
  | start target threadId owner reading =>
    refine h.keep h.sound (fun _ hd _ => hd) (fun _ _ ht => ht) fun threadId turnId j hj => ?_
    have hlt : j < s.brokers.length := by
      obtain ⟨b, _, hb, _⟩ := hj
      exact (List.getElem?_eq_some_iff.mp hb).1
    exact hj.keep (List.getElem?_append_left hlt) (Function.update_of_ne (Nat.ne_of_lt hlt) _ _)
  | move i now leaseNs answer =>
    simp only [Rounds.step]
    cases hb : s.brokers[i]? with
    | none => exact h
    | some b =>
      obtain ⟨hend, hnext⟩ := hf b hb
      show (s.move i b now leaseNs answer).Inv
      by_cases hpc : b.pc = .stopped
      · simp only [Rounds.move, hpc]
        exact h
      · cases hlook : s.looks i with
        | some look =>
          rw [move_look hpc hlook]
          exact h.look hb hlook (hend look hlook)
        | none => exact h.routed hb hpc hlook (hnext hlook)
  | stop i =>
    simp only [Rounds.step]
    cases hb : s.brokers[i]? with
    | none => exact h
    | some b =>
      refine ⟨h.sound, fun d hd threadId turnId hheld ht => ?_⟩
      obtain ⟨j, hj⟩ := h.hands d hd threadId turnId hheld ht
      by_cases hij : j = i
      · obtain ⟨b', look, hb', _, rfl, hlook, rfl⟩ := hj
        rw [hij] at hb' hlook
        have hnot := hf b' hb' look hlook
        rw [show s.paid.terminal b'.threadId look.turnId = true from ht] at hnot
        cases hnot
      · exact ⟨j, hj.keep (List.getElem?_set_ne (Ne.symm hij)) rfl⟩

theorem history_inv {run : List Rounds} (h : machine.History Fitting run) : ∀ s ∈ run.head?, s.Inv := by
  induction h with
  | start hs =>
    rintro s ⟨⟩
    rw [hs]
    exact inv_initial
  | step _ hf hstep ih =>
    rintro t ⟨⟩
    rw [hstep]
    exact (ih _ rfl).step hf

end Runs
end Rounds

/-- `finalize_round`, with the audit event that it answers with. -/
def PaidLedger.finalize (l : PaidLedger) (clientId payload : PyStr) (t : Terminal) (now : Nat) :
    Except HotJoinError (Option FinalAudit × PaidLedger) := do
  let l ← l.finalizeRound clientId payload t now
  return (l.finalAudit? clientId, l)

theorem PaidLedger.finalize_ok {audit : Option FinalAudit} : l.finalize clientId payload t now = .ok (audit, l') ↔
    l.finalizeRound clientId payload t now = .ok l' ∧ l'.finalAudit? clientId = audit := by
  unfold finalize
  rw [bind_ok]
  constructor
  · rintro ⟨l, hl, h⟩
    cases h
    exact ⟨hl, rfl⟩
  · rintro ⟨hl, rfl⟩
    exact ⟨l', hl, rfl⟩

theorem PaidLedger.finalize_error {e : HotJoinError} : l.finalize clientId payload t now = .error e ↔
    l.finalizeRound clientId payload t now = .error e := by
  unfold finalize
  cases l.finalizeRound clientId payload t now with
  | error e' => simp [bind, Except.bind]
  | ok l => simp [bind, Except.bind, pure, Except.pure]

/-- What `finalize_round` can tell another terminal of a completed intent from the first by: a coordination slot, the
thread or the turn, or data that is malformed by itself. -/
def PaidIntent.Tells (i : PaidIntent) (payload' : PyStr) (t t' : Terminal) : Prop :=
  i.binding ≠ none ∨ t'.threadId ≠ t.threadId ∨ t'.turnId ≠ t.turnId ∨
    (∃ e, t'.adapter false = .error e) ∨ ∃ e, auditMaterial payload' = .error e

namespace Rounds

section Properties
variable [AppServer.Redaction]

/-- `finalize_round` raises and changes nothing, or it commits; then the same call answers the same again and changes
nothing, and a call with another terminal raises where it can be told from the first. -/
structure Atomic (s : Rounds) : Prop where
  raised : ∀ clientId payload t now e, s.paid.finalize clientId payload t now = .error e →
    s.step (.finalizeRound clientId payload t now) = s
  replayed : ∀ clientId payload t now audit l, s.paid.finalize clientId payload t now = .ok (audit, l) →
    s.step (.finalizeRound clientId payload t now) = { s with paid := l } ∧
      ∀ now', l.finalize clientId payload t now' = .ok (audit, l)
  conflicting : ∀ clientId payload t now audit l, s.paid.finalize clientId payload t now = .ok (audit, l) →
    ∀ i, s.paid.intent? clientId = some i → ∀ payload' t' now', t' ≠ t →
      ((∃ e, l.finalize clientId payload' t' now' = .error e) ↔ i.Tells payload' t t')

/-- A message that a turn accepted and that is recorded terminal is closed by the next step of a broker. -/
def Settled (s : Rounds) : Prop :=
  ∀ d ∈ s.paid.deliveries, ∀ threadId turnId, d.held threadId turnId = true →
    s.paid.terminal threadId turnId = true → ∃ i, s.InHand threadId turnId i ∧
      ∀ now leaseNs answer, s.Fits (.move i now leaseNs answer) →
        ∀ e ∈ (s.step (.move i now leaseNs answer)).paid.deliveries, e.held threadId turnId = false

end Properties

variable {s : Rounds}

theorem Inv.settled [AppServer.Redaction] (h : s.Inv) : s.Settled := by
  intro d hd threadId turnId hheld ht
  obtain ⟨i, hi⟩ := h.hands d hd threadId turnId hheld ht
  refine ⟨i, hi, fun now leaseNs answer hfits => ?_⟩
  obtain ⟨b, hb, hclosed⟩ : ∃ b ∈ s.brokers[i]?, ∀ e ∈ (s.move i b now leaseNs answer).paid.deliveries,
      e.held threadId turnId = false :=
    hi.closes h.sound ht fun b hb look hlook => (hfits b hb).1 look hlook
  have hstep : s.step (.move i now leaseNs answer) = s.move i b now leaseNs answer := by
    simp only [Rounds.step]
    rw [show s.brokers[i]? = some b from hb]
  rw [hstep]
  exact hclosed

/-- A terminal that is refused is one that the replays leave out. -/
theorem conflict_iff {payload' : PyStr} {t' : Terminal} {now' : Nat} (hl : l.Sound)
    (h : l.finalizeRound clientId payload t now = .ok l') (hi : l.intent? clientId = some i) (ht : t' ≠ t) :
    (∃ e, l'.finalizeRound clientId payload' t' now' = .error e) ↔ i.Tells payload' t t' := by
  have hreplay : ∀ l'', l'.finalizeRound clientId payload' t' now' = .ok l'' ↔
      l'' = l' ∧ (∃ digest, auditMaterial payload' = .ok digest) ∧
        ∃ i, l.intent? clientId = some i ∧ PaidLedger.Repeats t t' i.binding.isSome :=
    fun _ => PaidLedger.finalizeRound_replay hl h
  have hfails : ∀ {α : Type} {x : Except HotJoinError α}, (∃ e, x = .error e) ↔ ¬ ∃ a, x = .ok a := by
    intro α x
    cases x <;> simp
  rw [hfails, PaidIntent.Tells, hfails, hfails]
  constructor
  · intro hne
    by_contra hnot
    simp only [not_or, ne_eq, not_not] at hnot
    obtain ⟨hb, hthread, hturn, hadapter, hpayload⟩ := hnot
    refine hne ⟨l', (hreplay l').mpr ⟨rfl, hpayload, i, hi, hthread, hturn, ?_, ?_⟩⟩
    · rw [hb]
      exact hadapter
    · rw [hb]
      nofun
  · rintro htell ⟨l'', hok⟩
    obtain ⟨rfl, hpayload, i', hi', hrep⟩ := (hreplay l'').mp hok
    rw [hi] at hi'
    cases hi'
    rcases htell with hb | hthread | hturn | hadapter | hbad
    · exact ht (hrep.bound (Option.isSome_iff_ne_none.mpr hb))
    · exact hthread hrep.thread
    · exact hturn hrep.turn
    · cases hb : i.binding with
      | none =>
        have hfits := hrep.adapter
        rw [hb] at hfits
        exact hadapter hfits
      | some b => exact ht (hrep.bound (by rw [hb]; rfl))
    · exact hbad hpayload

theorem Inv.atomic [AppServer.Redaction] (h : s.Inv) : s.Atomic where
  raised := by
    intro clientId payload t now e he
    simp only [Rounds.step, Rounds.committed, PaidLedger.finalize_error.mp he]
  replayed := by
    intro clientId payload t now audit l hl
    obtain ⟨hround, haudit⟩ := PaidLedger.finalize_ok.mp hl
    refine ⟨by simp only [Rounds.step, Rounds.committed, hround], fun now' => ?_⟩
    obtain ⟨i, _, adapter, hadm, _⟩ := PaidLedger.finalizeRound_ok h.sound hround
    exact PaidLedger.finalize_ok.mpr ⟨(PaidLedger.finalizeRound_replay h.sound hround).mpr ⟨rfl, hadm.usable, i,
      hadm.intent, rfl, rfl, ⟨adapter, hadm.fits⟩, fun _ => rfl⟩, haudit⟩
  conflicting := by
    intro clientId payload t now audit l hl i hi payload' t' now' ht
    obtain ⟨hround, _⟩ := PaidLedger.finalize_ok.mp hl
    simp only [PaidLedger.finalize_error]
    exact conflict_iff h.sound hround hi ht

end Rounds

/-- The state after some events, newest first. -/
def Rounds.after [AppServer.Redaction] : List Rounds.Event → Rounds
  | [] => .initial
  | event :: events => (after events).step event

/-- The states before it. -/
def Rounds.before [AppServer.Redaction] : List Rounds.Event → List Rounds
  | [] => []
  | _ :: events => after events :: before events

theorem Rounds.after_history [AppServer.Redaction] {ok : List Rounds → Rounds.Event → Prop}
    (events : List Rounds.Event)
    (h : ∀ event rest, event :: rest <:+ events → ok (after rest :: before rest) event) :
    machine.History ok (after events :: before events) := by
  induction events with
  | nil => exact .start rfl
  | cons event events ih =>
    refine .step (ih fun e rest hr => h e rest (hr.trans (List.suffix_cons event events))) ?_ rfl
    exact h event events (List.suffix_refl _)

theorem Rounds.after_fitting [AppServer.Redaction] (events : List Rounds.Event)
    (h : ∀ rest ∈ events.tails, ∀ event ∈ rest.head?, (after rest.tail).Fits event) :
    machine.History Fitting (after events :: before events) :=
  after_history events fun event rest hr => h (event :: rest) ((List.mem_tails _ _).mpr hr) event rfl

/-- Every run in which brokers are not stopped before they look at a terminal turn, and see that it has ended. -/
theorem rounds_settle [AppServer.Redaction] {s : Rounds} {past : List Rounds}
    (h : Rounds.machine.History Rounds.Fitting (s :: past)) : s.Atomic ∧ s.Settled := by
  have hinv := Rounds.history_inv h s rfl
  exact ⟨hinv.atomic, hinv.settled⟩

/-- The broker goes on. -/
def Pc.stands : Pc → Bool
  | .stopped => false
  | _ => true

/-- A round without a coordination slot. -/
def unboundRound : List Rounds.Event :=
  [.recordRoundIntent "danus-round:r".toList .started (some "e".toList) none none,
    .roundIntent ⟨"w".toList, "t".toList, List.replicate 64 'a', "m".toList, "low".toList, none⟩ "r".toList,
    .setThreadId "w".toList "t".toList]

def unboundTerminal (status : PyStr) : Terminal := ⟨"t".toList, "e".toList, status, none, none⟩

/-- A message is steered into its turn, which ends before the answer: the terminal comes before the receipt. -/
def lateReceipt : List Rounds.Event :=
  [.move 0 9 9 (.result (some "e".toList)),
    .finalizeRound "danus-round:r".toList "\x7b\x7d".toList (unboundTerminal "completed".toList) 8,
    .ended 0 "t".toList "e".toList "completed".toList,
    .move 0 7 9 (.lost []), .move 0 6 9 (.lost []), .move 0 5 9 (.lost []), .move 0 4 9 (.lost []),
    .enqueue "w".toList "hi".toList none .queue .message ⟨"m".toList, "c".toList⟩ 3,
    .start "w".toList "t".toList "o".toList (.read (some [])), .turn "t".toList (some "e".toList)] ++
  unboundRound

theorem rounds_settle_late : let _ : AppServer.Redaction := ⟨id⟩
    (Rounds.after lateReceipt).Atomic ∧ (Rounds.after lateReceipt).Settled := by
  intro plain
  exact rounds_settle (Rounds.after_fitting lateReceipt (by decide +kernel))

/-- A round without a coordination slot is finalized as completed and then as failed, and both are accepted; and where
the broker of that run is stopped before its look, the message stays accepted. -/
theorem terminal_overwritten_receipt_stranded : let _ : AppServer.Redaction := ⟨id⟩
    (Rounds.machine.Reachable (Rounds.after unboundRound) ∧ ∃ audit l,
      (Rounds.after unboundRound).paid.finalize "danus-round:r".toList "\x7b\x7d".toList
        (unboundTerminal "completed".toList) 4 = .ok (audit, l) ∧
      l.finalize "danus-round:r".toList "\x7b\x7d".toList (unboundTerminal "failed".toList) 5 =
        .ok (audit, l)) ∧
    Rounds.machine.Reachable (Rounds.after (.stop 0 :: lateReceipt)) ∧
      ¬ (Rounds.after (.stop 0 :: lateReceipt)).Settled := by
  intro plain
  have hrun := Rounds.after_fitting unboundRound (by decide +kernel)
  have hlate : Rounds.machine.History (fun _ _ => True) (Rounds.after (.stop 0 :: lateReceipt) ::
      Rounds.before (.stop 0 :: lateReceipt)) := Rounds.after_history _ fun _ _ _ => trivial
  have hsound := (Rounds.history_inv hrun _ rfl).sound
  have hfirst : ((Rounds.after unboundRound).paid.finalizeRound "danus-round:r".toList "\x7b\x7d".toList
      (unboundTerminal "completed".toList) 4).toOption.isSome = true ∧
      ∀ i ∈ (Rounds.after unboundRound).paid.intent? "danus-round:r".toList, i.binding = none := by
    decide +kernel
  obtain ⟨hcommits, hunbound⟩ := hfirst
  obtain ⟨l, hl⟩ := Option.isSome_iff_exists.mp hcommits
  have hround := ok_of_toOption hl
  refine ⟨⟨hrun.reachable, _, l, PaidLedger.finalize_ok.mpr ⟨hround, rfl⟩,
    PaidLedger.finalize_ok.mpr ⟨?_, rfl⟩⟩,
    hlate.reachable, fun h => ?_⟩
  · -- the intent has no slot, so nothing tells the second terminal from the first
    obtain ⟨i, _, _, hadm, _⟩ := PaidLedger.finalizeRound_ok hsound hround
    refine (PaidLedger.finalizeRound_replay hsound hround).mpr
      ⟨rfl, hadm.usable, i, hadm.intent, rfl, rfl, ?_, ?_⟩
    · rw [hunbound i hadm.intent]
      exact ⟨none, rfl⟩
    · rw [hunbound i hadm.intent]
      nofun
  · have hstate : (Rounds.after (.stop 0 :: lateReceipt)).paid.terminal "t".toList "e".toList = true ∧
        (∃ d ∈ (Rounds.after (.stop 0 :: lateReceipt)).paid.deliveries,
          d.held "t".toList "e".toList = true) ∧
        ∀ b ∈ (Rounds.after (.stop 0 :: lateReceipt)).brokers, b.pc.stands = false := by
      decide +kernel
    obtain ⟨ht, ⟨d, hd, hheld⟩, hstopped⟩ := hstate
    obtain ⟨i, ⟨b, look, hb, hpc, _⟩, _⟩ := h d hd _ _ hheld ht
    have hstop := hstopped b (List.mem_of_getElem? hb)
    cases hc : b.pc <;> simp [hc, Pc.stands] at hstop hpc

end Danus.HotJoin
