import Danus.HotJoin.FinalizedRounds
import Danus.HotJoin.Routes

/-! The reconciliation at a broker's start: which of the rows that an earlier broker left it settles. -/
namespace Danus.HotJoin
open Python Machines Checks

/-- `reconcile_routing` on one row, with the `complete_turn` after an acceptance by a turn that has ended. -/
def reconcile (l : Ledger) (threadId : PyStr) (reading : Reading) (row : Row) (now : Nat) :
    Except HotJoinError Ledger := do
  let l ← reconcileRow l threadId reading row now
  match locatedTurn row reading with
  | none => return l
  | some turn =>
    if turn.status = .inProgress then return l
    else completeTurn l threadId turn.id turn.status.text now

/-- The loop of `reconcile_routing` over the rows that it recovered. -/
def reconcileRows (l : Ledger) (threadId : PyStr) (reading : Reading) (rows : List Row) (now : Nat) :
    Except HotJoinError Ledger :=
  rows.foldlM (fun l row => reconcile l threadId reading row now) l

/-- `reconcile_routing` -/
def reconcileRouting (l : Ledger) (target threadId : PyStr) (reading : Reading) (now : Nat) :
    Except HotJoinError Ledger :=
  reconcileRows l threadId reading (recoveryForTarget l target) now

/-- What became of the message is not known. -/
def DeliveryState.pending (s : DeliveryState) : Bool := decide (s = .routing ∨ s = .deliveryUnknown)

/-- Bound to no other thread. -/
def Row.On (row : Row) (threadId : PyStr) : Prop :=
  row.delivery.threadId = none ∨ row.delivery.threadId = some threadId

/-- What the turns of the thread say of a message allows its row to be settled: it is in none of them, and the row
awaits no receipt on another thread; it is in the turn that the row names, if any; or it is in another one, and the
row is no claim. -/
inductive Row.FoundIn (row : Row) (threadId : PyStr) (turns : List Turn) : Prop
  | absent : messageTurn turns (clientMessageId row.message.messageId) = .ok none →
      (row.delivery.state = .routing → row.On threadId) → FoundIn row threadId turns
  | taken {turn : Turn} : messageTurn turns (clientMessageId row.message.messageId) = .ok (some turn) →
      row.delivery.turnId = none ∨ row.delivery.turnId = some turn.id → row.On threadId →
      FoundIn row threadId turns
  | elsewhere {turn : Turn} : messageTurn turns (clientMessageId row.message.messageId) = .ok (some turn) →
      row.delivery.turnId.getD [] ≠ [] → row.delivery.turnId ≠ some turn.id →
      row.delivery.state ≠ .routing → FoundIn row threadId turns

/-- The row can be settled on this thread by what was read of it. -/
def Row.Settles (row : Row) (threadId : PyStr) : Reading → Prop
  | .unread _ => row.delivery.state = .routing → row.On threadId
  | .read none => row.delivery.state.pending = false
  | .read (some turns) =>
    row.delivery.state = .routing ∨ row.delivery.state = .deliveryUnknown ∧ row.message.kind = .message →
      row.FoundIn threadId turns

/-- No message of the worker is claimed. -/
def Ledger.Unclaimed (l : Ledger) (target : PyStr) : Prop :=
  ∀ m ∈ l.messages, m.target = target → ∀ d ∈ l.deliveries, d.messageId = m.messageId → d.state ≠ .routing

variable {l l' l'' : Ledger} {d e : Delivery} {row : Row} {threadId messageId : PyStr} {now : Nat}
  {reading : Reading}

/-- What a step of the reconciliation leaves of the other messages. -/
structure Ledger.Spares (l l' : Ledger) (messageId : PyStr) : Prop where
  messages : l'.messages = l.messages
  ids : l'.deliveries.map (·.messageId) = l.deliveries.map (·.messageId)
  pending : ∀ d : Delivery, d.messageId ≠ messageId → d.state.pending = true →
    (d ∈ l'.deliveries ↔ d ∈ l.deliveries)

namespace Ledger.Spares

theorem refl (l : Ledger) (messageId : PyStr) : l.Spares l messageId := ⟨rfl, rfl, fun _ _ _ => Iff.rfl⟩

theorem trans (h : l.Spares l' messageId) (h' : l'.Spares l'' messageId) : l.Spares l'' messageId :=
  ⟨h'.messages.trans h.messages, h'.ids.trans h.ids,
    fun d hne hp => (h'.pending d hne hp).trans (h.pending d hne hp)⟩

theorem nodup (h : l.Spares l' messageId) (hn : (l.deliveries.map (·.messageId)).Nodup) :
    (l'.deliveries.map (·.messageId)).Nodup := h.ids ▸ hn

end Ledger.Spares

/-- The end of a turn changes no pending row. -/
theorem completeTurn_spares (hn : (l.deliveries.map (·.messageId)).Nodup)
    (threadId turnId status : PyStr) (now : Nat) :
    ∃ l', completeTurn l threadId turnId status now = .ok l' ∧ l'.messages = l.messages ∧
      l'.deliveries.map (·.messageId) = l.deliveries.map (·.messageId) ∧
      ∀ d : Delivery, d.state.pending = true → (d ∈ l'.deliveries ↔ d ∈ l.deliveries) := by
  refine ⟨_, Ledger.completeTurn_eq hn threadId turnId status now, rfl, Rows.map_update fun _ _ => rfl,
    fun d hp => ⟨fun hd => ?_, fun hd => Rows.mem_update_of_miss hd ?_⟩⟩
  · rcases Rows.mem_update_cases hd with ⟨hold, _⟩ | ⟨e, _, _, rfl⟩
    · exact hold
    · cases hp
  · rw [Bool.eq_false_iff]
    intro hheld
    have ha := (Delivery.held_iff.mp hheld).1
    simp only [Delivery.accepted, DeliveryState.accepted, DeliveryState.pending, decide_eq_true_eq] at ha hp
    rcases hp with hp | hp <;> rw [hp] at ha <;> simp at ha

/-- A receipt under the state and the owner that were read: it is refused exactly where the thread or the turn is
another one. -/
theorem recordInTx_row (now : Nat) (hn : (l.deliveries.map (·.messageId)).Nodup) (hd : d ∈ l.deliveries)
    {r : Record} (hid : r.messageId = d.messageId) (hs : r.expectedState = some d.state)
    (ho : r.expectedOwner = d.claimOwner) :
    ((admits d.threadId r.threadId = true ∧ admits d.turnId r.turnId = true) ∧
      ∃ l', l.recordInTx r now = .ok l' ∧ l.Spares l' r.messageId ∧
        ∀ e ∈ l'.deliveries, e.messageId = r.messageId → e.state = r.state) ∨
    (¬ (admits d.threadId r.threadId = true ∧ admits d.turnId r.turnId = true) ∧
      ∃ e, l.recordInTx r now = .error e) := by
  have hhit : r.hits d = true ↔ admits d.threadId r.threadId = true ∧ admits d.turnId r.turnId = true := by
    simp [Record.hits, hid, hs, ho]
  have honly : ∀ e ∈ l.deliveries, r.hits e = true → e = d := fun e he hp =>
    Rows.eq_of_key hn he hd ((Record.hits_id hp).trans hid)
  by_cases hfits : admits d.threadId r.threadId = true ∧ admits d.turnId r.turnId = true
  · left
    refine ⟨hfits, ?_⟩
    have hdhit := hhit.mpr hfits
    have hcount : l.deliveries.countP r.hits = 1 := Rows.count_one hn hd hdhit
      fun e he hp => congrArg _ (honly e he hp)
    rw [List.countP_eq_length_filter, List.length_eq_one_iff] at hcount
    obtain ⟨e, he⟩ := hcount
    refine ⟨{ l with deliveries := Rows.update r.hits (r.write now) l.deliveries },
      by rw [Ledger.recordInTx, he], ⟨rfl, Rows.map_update fun _ _ => rfl, fun e hne _ => ?_⟩,
      fun e he hide => ?_⟩
    · have hmiss : ∀ {x : Delivery}, x.messageId ≠ r.messageId → r.hits x = false := by
        intro x hx
        rw [Bool.eq_false_iff]
        exact fun hp => hx (Record.hits_id hp)
      refine ⟨fun hm => ?_, fun hm => Rows.mem_update_of_miss hm (hmiss hne)⟩
      rcases Rows.mem_update_cases hm with ⟨hold, _⟩ | ⟨x, _, hp, rfl⟩
      · exact hold
      · have hx : x.messageId = r.messageId := Record.hits_id hp
        exact (hne hx).elim
    · rcases Rows.mem_update_cases he with ⟨hold, hmiss⟩ | ⟨x, _, _, rfl⟩
      · rw [Rows.eq_of_key hn hold hd (hide.trans hid), hdhit] at hmiss
        cases hmiss
      · rfl
  · right
    refine ⟨hfits, .stale "delivery transition lost its claim or expected state", ?_⟩
    have hnone : l.deliveries.filter r.hits = [] := by
      rw [List.filter_eq_nil_iff]
      intro e he hp
      rw [honly e he hp] at hp
      exact hfits (hhit.mp hp)
    rw [Ledger.recordInTx, hnone]

theorem admits_some {column : Option PyStr} {v : PyStr} :
    admits column (some v) = true ↔ column = none ∨ column = some v := by
  cases column with
  | none => simp [admits]
  | some c => simp [admits]

theorem admits_self (column : Option PyStr) : admits column column = true := by
  cases column <;> simp [admits]

/-- What one row comes to: it is settled, or the reconciliation fails or leaves it claimed. -/
structure Settled (l l' : Ledger) (row : Row) : Prop where
  spares : l.Spares l' row.message.messageId
  done : ∀ d ∈ l'.deliveries, d.messageId = row.message.messageId → d.state ≠ .routing

/-- The row is one of the ledger as long as it is pending. -/
def Row.Current (row : Row) (l : Ledger) : Prop :=
  row.delivery.messageId = row.message.messageId ∧
    (row.delivery.state.pending = true → row.delivery ∈ l.deliveries) ∧
    ∀ d ∈ l.deliveries, d.messageId = row.message.messageId → d.state = .routing → row.delivery.state = .routing

theorem Row.Current.untouched (hc : row.Current l) (hs : row.delivery.state ≠ .routing) : Settled l l row :=
  ⟨.refl l _, fun d hd hid hr => hs (hc.2.2 d hd hid hr)⟩

/-- After the end of a turn. -/
theorem Settled.complete {turnId status : PyStr} (h : Settled l l' row)
    (hn : (l'.deliveries.map (·.messageId)).Nodup) :
    ∃ l'', completeTurn l' threadId turnId status now = .ok l'' ∧ Settled l l'' row := by
  obtain ⟨l'', hok, hmessages, hids, hpending⟩ := completeTurn_spares hn threadId turnId status now
  refine ⟨l'', hok, h.spares.trans ⟨hmessages, hids, fun d _ hp => hpending d hp⟩, fun d hd hid hs => ?_⟩
  have hp : d.state.pending = true := by rw [hs]; rfl
  exact h.done d ((hpending d hp).mp hd) hid hs

/-- A receipt for a pending row. -/
theorem record_settles (now : Nat) (hn : (l.deliveries.map (·.messageId)).Nodup) (hc : row.Current l)
    (hp : row.delivery.state.pending = true) {r : Record} (hid : r.messageId = row.message.messageId)
    (hs : r.expectedState = some row.delivery.state) (ho : r.expectedOwner = row.delivery.claimOwner)
    (ht : r.threadId = some threadId) (hstate : r.state ≠ .routing) :
    (row.On threadId ∧ admits row.delivery.turnId r.turnId = true ∧
      ∃ l', l.recordInTx r now = .ok l' ∧ Settled l l' row) ∨
    (¬ (row.On threadId ∧ admits row.delivery.turnId r.turnId = true) ∧
      ∃ e, l.recordInTx r now = .error e) := by
  have hon : admits row.delivery.threadId r.threadId = true ↔ row.On threadId := by
    rw [ht, admits_some, Row.On]
  rcases recordInTx_row now hn (hc.2.1 hp) (hid.trans hc.1.symm) hs ho with
    ⟨⟨hthread, hturn⟩, l', hok, hspares, hdone⟩ | ⟨hnot, e, herr⟩
  · refine .inl ⟨hon.mp hthread, hturn, l', hok, hid ▸ hspares, fun d hd hdid => ?_⟩
    rw [hdone d hd (hdid.trans hid.symm)]
    exact hstate
  · exact .inr ⟨fun h => hnot ⟨hon.mpr h.1, h.2⟩, e, herr⟩

theorem reconcile_none (hloc : locatedTurn row reading = none) :
    reconcile l threadId reading row now = reconcileRow l threadId reading row now := by
  unfold reconcile
  rw [hloc]
  cases reconcileRow l threadId reading row now <;> rfl

/-- A pending row against the turns of the thread. -/
theorem reconcile_open {turns : List Turn} (hn : (l.deliveries.map (·.messageId)).Nodup) (hc : row.Current l)
    (hp : row.delivery.state.pending = true)
    (ha : ¬ (row.delivery.state = .steerAccepted ∨ row.delivery.state = .interruptAccepted))
    (hi : ¬ (row.delivery.state = .deliveryUnknown ∧ row.message.kind = .interrupt))
    (hopen : row.delivery.state = .routing ∨
      row.delivery.state = .deliveryUnknown ∧ row.message.kind = .message) :
    (row.Settles threadId (.read (some turns)) ∧
      ∃ l', reconcile l threadId (.read (some turns)) row now = .ok l' ∧ Settled l l' row) ∨
    (¬ row.Settles threadId (.read (some turns)) ∧
      ((∃ e, reconcile l threadId (.read (some turns)) row now = .error e) ∨
        row.delivery.state = .routing ∧ reconcile l threadId (.read (some turns)) row now = .ok l)) := by
  have hsettles : row.Settles threadId (.read (some turns)) ↔ row.FoundIn threadId turns :=
    ⟨fun h => h hopen, fun h _ => h⟩
  have hrow : reconcileRow l threadId (.read (some turns)) row now =
      reconcileOpen l threadId (some turns) row now := by
    simp only [reconcileRow, if_neg ha, if_neg hi]
  have hnot : ¬ (row.delivery.accepted = true ∨
      row.delivery.state = .deliveryUnknown ∧ row.message.kind = .interrupt) := by
    rw [Delivery.accepted, DeliveryState.accepted, decide_eq_true_eq]
    exact not_or.mpr ⟨ha, hi⟩
  rw [hsettles]
  cases hfound : messageTurn turns (clientMessageId row.message.messageId) with
  | error e =>
    refine .inr ⟨fun h => ?_, .inl ⟨e, ?_⟩⟩
    · cases h <;> simp_all
    · rw [reconcile, hrow]
      simp [reconcileOpen, directThreadTurns, hfound, bind, Except.bind]
  | ok found =>
    cases found with
    | none =>
      have hloc : locatedTurn row (.read (some turns)) = none := by
        simp only [locatedTurn, if_neg hnot, hfound]
      rw [reconcile_none hloc, hrow]
      have hstep : reconcileOpen l threadId (some turns) row now =
          if row.delivery.state ≠ .routing then .ok l
          else l.recordInTx ⟨row.message.messageId, .deliveryUnknown, some threadId, row.delivery.turnId,
            some "dispatch intent not found in authoritative thread history".toList, some .routing,
            row.delivery.claimOwner⟩ now := by
        simp only [reconcileOpen, directThreadTurns, bind, Except.bind, hfound, pure, Except.pure]
      rw [hstep]
      by_cases hs : row.delivery.state = .routing
      · rw [if_neg (not_not.mpr hs)]
        rcases record_settles now hn hc hp
          (r := ⟨row.message.messageId, .deliveryUnknown, some threadId, row.delivery.turnId,
            some "dispatch intent not found in authoritative thread history".toList, some .routing,
            row.delivery.claimOwner⟩)
          rfl (by rw [hs]) rfl rfl (by simp) with ⟨hon, _, hok⟩ | ⟨hno, herr⟩
        · exact .inl ⟨.absent hfound fun _ => hon, hok⟩
        · refine .inr ⟨fun h => ?_, .inl herr⟩
          cases h with
          | absent _ hon => exact hno ⟨hon hs, admits_self _⟩
          | taken hf => rw [hfound] at hf; cases hf
          | elsewhere hf => rw [hfound] at hf; cases hf
      · rw [if_pos hs]
        exact .inl ⟨.absent hfound fun h => (hs h).elim, l, rfl, hc.untouched hs⟩
    | some turn =>
      by_cases hother : row.delivery.turnId.getD [] ≠ [] ∧ row.delivery.turnId ≠ some turn.id
      · have hloc : locatedTurn row (.read (some turns)) = none := by
          simp only [locatedTurn, if_neg hnot, hfound, if_pos hother]
        rw [reconcile_none hloc, hrow]
        have hstep : reconcileOpen l threadId (some turns) row now = .ok l := by
          simp only [reconcileOpen, directThreadTurns, bind, Except.bind, hfound, if_pos hother, pure,
            Except.pure]
        rw [hstep]
        by_cases hs : row.delivery.state = .routing
        · refine .inr ⟨fun h => ?_, .inr ⟨hs, rfl⟩⟩
          cases h with
          | absent hf => rw [hfound] at hf; cases hf
          | taken hf hturn =>
            rw [hfound] at hf
            cases hf
            rcases hturn with hturn | hturn
            · exact hother.1 (by rw [hturn]; rfl)
            · exact hother.2 hturn
          | elsewhere _ _ _ hclaim => exact hclaim hs
        · exact .inl ⟨.elsewhere hfound hother.1 hother.2 hs, l, rfl, hc.untouched hs⟩
      · have hloc : locatedTurn row (.read (some turns)) = some turn := by
          simp only [locatedTurn, if_neg hnot, hfound, if_neg hother]
        have hstep : reconcileOpen l threadId (some turns) row now =
            l.recordInTx ⟨row.message.messageId, .steerAccepted, some threadId, some turn.id,
              some "reconciled from thread/read userMessage.clientId".toList, some row.delivery.state,
              row.delivery.claimOwner⟩ now := by
          simp only [reconcileOpen, directThreadTurns, bind, Except.bind, hfound, if_neg hother]
        rcases record_settles now hn hc hp
          (r := ⟨row.message.messageId, .steerAccepted, some threadId, some turn.id,
            some "reconciled from thread/read userMessage.clientId".toList, some row.delivery.state,
            row.delivery.claimOwner⟩)
          rfl rfl rfl rfl (by simp) with ⟨hon, hturn, mid, hmid, hset⟩ | ⟨hno, e, herr⟩
        · refine .inl ⟨.taken hfound (admits_some.mp hturn) hon, ?_⟩
          unfold reconcile
          rw [hrow, hstep, hmid, hloc]
          show ∃ l', (if turn.status = .inProgress then pure mid
            else completeTurn mid threadId turn.id turn.status.text now) = .ok l' ∧ Settled l l' row
          by_cases hst : turn.status = .inProgress
          · rw [if_pos hst]
            exact ⟨mid, rfl, hset⟩
          · rw [if_neg hst]
            exact hset.complete (hset.spares.nodup hn)
        · refine .inr ⟨fun h => ?_, .inl ⟨e, ?_⟩⟩
          · cases h with
            | absent hf => rw [hfound] at hf; cases hf
            | taken hf hturn hon =>
              rw [hfound] at hf
              cases hf
              exact hno ⟨hon, admits_some.mpr hturn⟩
            | elsewhere hf hne hne' =>
              rw [hfound] at hf
              cases hf
              exact hother ⟨hne, hne'⟩
          · rw [reconcile, hrow, hstep, herr]
            rfl

/-- Each row is settled, or it stops the reconciliation or stays claimed. -/
theorem reconcile_row (threadId : PyStr) (now : Nat) (hn : (l.deliveries.map (·.messageId)).Nodup)
    (hc : row.Current l)
    (hfour : row.delivery.state.pending = true ∨ row.delivery.accepted = true) (hr : reading ≠ .read none) :
    (row.Settles threadId reading ∧ ∃ l', reconcile l threadId reading row now = .ok l' ∧ Settled l l' row) ∨
    (¬ row.Settles threadId reading ∧ ((∃ e, reconcile l threadId reading row now = .error e) ∨
      row.delivery.state = .routing ∧ reconcile l threadId reading row now = .ok l)) := by
  cases reading with
  | unread detail =>
    rw [reconcile_none rfl]
    simp only [reconcileRow, Row.Settles]
    by_cases hs : row.delivery.state = .routing
    · rw [if_pos hs]
      have hp : row.delivery.state.pending = true := by rw [hs]; rfl
      rcases record_settles now hn hc hp
        (r := ⟨row.message.messageId, .deliveryUnknown, some threadId, row.delivery.turnId,
          some ("reconciliation failed: ".toList ++ detail), some .routing, row.delivery.claimOwner⟩)
        rfl (by rw [hs]) rfl rfl (by simp) with ⟨hon, _, hok⟩ | ⟨hnot, herr⟩
      · exact .inl ⟨fun _ => hon, hok⟩
      · exact .inr ⟨fun h => hnot ⟨h hs, admits_self _⟩, .inl herr⟩
    · rw [if_neg hs]
      exact .inl ⟨fun h => (hs h).elim, l, rfl, hc.untouched hs⟩
  | read turns =>
    cases turns with
    | none => exact (hr rfl).elim
    | some turns =>
      by_cases ha : row.delivery.state = .steerAccepted ∨ row.delivery.state = .interruptAccepted
      · have hclaim : row.delivery.state ≠ .routing := by rcases ha with ha | ha <;> rw [ha] <;> decide
        have hloc : locatedTurn row (.read (some turns)) = none := by
          rw [locatedTurn, if_pos (.inl (by simpa [Delivery.accepted, DeliveryState.accepted] using ha))]
        rw [reconcile_none hloc]
        refine .inl ⟨fun h => ?_, ?_⟩
        · rcases ha with ha | ha <;> simp [ha] at h
        · simp only [reconcileRow, if_pos ha]
          unfold reconcileAccepted
          cases hturn : row.delivery.turnId with
          | none => exact ⟨l, rfl, hc.untouched hclaim⟩
          | some turnId =>
            cases turnId with
            | nil => exact ⟨l, rfl, hc.untouched hclaim⟩
            | cons c cs =>
              simp only [directThreadTurns, bind, Except.bind]
              cases turns.find? fun t => decide (t.id = c :: cs) with
              | none => exact ⟨l, rfl, hc.untouched hclaim⟩
              | some turn =>
                simp only
                by_cases hst : turn.status = .inProgress
                · rw [if_pos hst]
                  exact ⟨l, rfl, hc.untouched hclaim⟩
                · rw [if_neg hst]
                  exact (hc.untouched hclaim).complete hn
      · have hp : row.delivery.state.pending = true := by
          refine hfour.resolve_right fun h => ha ?_
          simpa [Delivery.accepted, DeliveryState.accepted] using h
        by_cases hi : row.delivery.state = .deliveryUnknown ∧ row.message.kind = .interrupt
        · have hclaim : row.delivery.state ≠ .routing := by rw [hi.1]; decide
          have hloc : locatedTurn row (.read (some turns)) = none := by
            rw [locatedTurn, if_pos (.inr hi)]
          rw [reconcile_none hloc]
          refine .inl ⟨fun h => ?_, l, by simp only [reconcileRow, if_neg ha, if_pos hi], hc.untouched hclaim⟩
          rcases h with h | ⟨_, h⟩
          · exact (hclaim h).elim
          · rw [hi.2] at h
            cases h
        · have hopen : row.delivery.state = .routing ∨
              row.delivery.state = .deliveryUnknown ∧ row.message.kind = .message := by
            simp only [DeliveryState.pending, decide_eq_true_eq] at hp
            refine hp.imp id fun hu => ⟨hu, ?_⟩
            cases hk : row.message.kind with
            | message => rfl
            | interrupt => exact (hi ⟨hu, hk⟩).elim
          exact reconcile_open hn hc hp ha hi hopen

theorem Row.Current.spared (hc : row.Current l) (hs : l.Spares l' messageId)
    (hne : row.message.messageId ≠ messageId) : row.Current l' := by
  refine ⟨hc.1, fun hp => (hs.pending _ (hc.1 ▸ hne) hp).mpr (hc.2.1 hp), fun d hd hid hr => ?_⟩
  have hp : d.state.pending = true := by rw [hr]; rfl
  exact hc.2.2 d ((hs.pending d (hid ▸ hne) hp).mp hd) hid hr

/-- What the loop over the rows comes to. -/
structure Reconciled (l : Ledger) (threadId : PyStr) (reading : Reading) (rows : List Row) (now : Nat) : Prop where
  messages : ∀ l', reconcileRows l threadId reading rows now = .ok l' → l'.messages = l.messages
  pending : ∀ l', reconcileRows l threadId reading rows now = .ok l' → ∀ d : Delivery,
    d.messageId ∉ rows.map (·.message.messageId) → d.state.pending = true → (d ∈ l'.deliveries ↔ d ∈ l.deliveries)
  settles : (∃ l', reconcileRows l threadId reading rows now = .ok l' ∧
    ∀ row ∈ rows, ∀ d ∈ l'.deliveries, d.messageId = row.message.messageId → d.state ≠ .routing) ↔
    ∀ row ∈ rows, row.Settles threadId reading

/-- A row that is spared by what happens before the loop reaches the other rows. -/
theorem Reconciled.pending_cons {mid : Ledger} {rows : List Row} (h : Reconciled mid threadId reading rows now)
    (hs : l.Spares mid row.message.messageId) (hok : reconcileRows mid threadId reading rows now = .ok l')
    (hd : d.messageId ∉ (row :: rows).map (·.message.messageId)) (hp : d.state.pending = true) :
    d ∈ l'.deliveries ↔ d ∈ l.deliveries := by
  rw [List.map_cons, List.mem_cons, not_or] at hd
  exact (h.pending l' hok d hd.2 hp).trans (hs.pending d hd.1 hp)

/-- The rows one after another: each is settled, and none is claimed at the end, exactly if every row can be. -/
theorem reconcile_rows (threadId : PyStr) (now : Nat) (rows : List Row)
    (hn : (l.deliveries.map (·.messageId)).Nodup) (hids : (rows.map (·.message.messageId)).Nodup)
    (hcur : ∀ row ∈ rows, row.Current l)
    (hfour : ∀ row ∈ rows, row.delivery.state.pending = true ∨ row.delivery.accepted = true)
    (hr : reading ≠ .read none) : Reconciled l threadId reading rows now := by
  induction rows generalizing l with
  | nil =>
    refine ⟨fun l' h => ?_, fun l' h d _ _ => ?_, fun _ r hm => (List.not_mem_nil hm).elim,
      fun _ => ⟨l, rfl, fun r hm => (List.not_mem_nil hm).elim⟩⟩
    · cases h
      rfl
    · cases h
      exact Iff.rfl
  | cons row rows ih =>
    rw [List.map_cons, List.nodup_cons] at hids
    have hlater : ∀ mid : Ledger, l.Spares mid row.message.messageId →
        Reconciled mid threadId reading rows now := by
      intro mid hs
      refine ih (hs.nodup hn) hids.2 (fun r hm => ?_) fun r hm => hfour r (List.mem_cons_of_mem _ hm)
      refine (hcur r (List.mem_cons_of_mem _ hm)).spared hs fun he => hids.1 ?_
      rw [← he]
      exact List.mem_map.mpr ⟨r, hm, rfl⟩
    have hcons : ∀ {x : Except HotJoinError Ledger}, reconcile l threadId reading row now = x →
        reconcileRows l threadId reading (row :: rows) now =
          x >>= fun mid => reconcileRows mid threadId reading rows now := by
      intro x hx
      rw [reconcileRows, List.foldlM_cons, hx]
      rfl
    rcases reconcile_row threadId now hn (hcur row List.mem_cons_self) (hfour row List.mem_cons_self) hr with
      ⟨hsettles, mid, hmid, hset⟩ | ⟨hnot, ⟨e, herr⟩ | ⟨hclaim, hsame⟩⟩
    · have hrest := hlater mid hset.spares
      have hstep : reconcileRows l threadId reading (row :: rows) now =
          reconcileRows mid threadId reading rows now := hcons hmid
      refine ⟨fun l' h => ?_, fun l' h d hd hp => ?_, ?_, fun hall => ?_⟩
      · rw [hstep] at h
        exact (hrest.messages l' h).trans hset.spares.messages
      · rw [hstep] at h
        exact hrest.pending_cons hset.spares h hd hp
      · rintro ⟨l', hl', hdone⟩ r hm
        rw [hstep] at hl'
        rcases List.mem_cons.mp hm with rfl | hm
        · exact hsettles
        · exact hrest.settles.mp ⟨l', hl', fun r hm => hdone r (List.mem_cons_of_mem _ hm)⟩ r hm
      · obtain ⟨l', hl', hdone⟩ := hrest.settles.mpr fun r hm => hall r (List.mem_cons_of_mem _ hm)
        refine ⟨l', hstep.trans hl', fun r hm d hd hid hs => ?_⟩
        rcases List.mem_cons.mp hm with rfl | hm
        · have hp : d.state.pending = true := by rw [hs]; rfl
          exact hset.done d ((hrest.pending l' hl' d (hid ▸ hids.1) hp).mp hd) hid hs
        · exact hdone r hm d hd hid hs
    · have hstep : reconcileRows l threadId reading (row :: rows) now = .error e := hcons herr
      refine ⟨fun l' h => ?_, fun l' h => ?_, ?_, fun h => (hnot (h row List.mem_cons_self)).elim⟩
      · rw [hstep] at h
        cases h
      · rw [hstep] at h
        cases h
      · rintro ⟨l', h, _⟩
        rw [hstep] at h
        cases h
    · have hself : l.Spares l row.message.messageId := .refl l _
      have hrest := hlater l hself
      have hstep : reconcileRows l threadId reading (row :: rows) now =
          reconcileRows l threadId reading rows now := hcons hsame
      refine ⟨fun l' h => ?_, fun l' h d hd hp => ?_, ?_, fun h => (hnot (h row List.mem_cons_self)).elim⟩
      · rw [hstep] at h
        exact hrest.messages l' h
      · rw [hstep] at h
        exact hrest.pending_cons hself h hd hp
      · rintro ⟨l', hl', hdone⟩
        rw [hstep] at hl'
        obtain ⟨hid, hmem, _⟩ := hcur row List.mem_cons_self
        have hp : row.delivery.state.pending = true := by rw [hclaim]; rfl
        have hstill := (hrest.pending l' hl' row.delivery (hid ▸ hids.1) hp).mpr (hmem hp)
        exact (hdone row List.mem_cons_self row.delivery hstill hid hclaim).elim

section Recovery
variable {target : PyStr}

theorem mem_recovery : row ∈ recoveryForTarget l target ↔ row.message ∈ l.messages ∧
    row.message.target = target ∧ l.delivery? row.message.messageId = some row.delivery ∧
    (row.delivery.state.pending = true ∨ row.delivery.accepted = true) := by
  have hstates : ∀ d : Delivery, (d.state = .routing ∨ d.state = .deliveryUnknown ∨ d.state = .steerAccepted ∨
      d.state = .interruptAccepted) ↔ d.state.pending = true ∨ d.accepted = true := by
    intro d
    simp [DeliveryState.pending, Delivery.accepted, DeliveryState.accepted, or_assoc]
  rw [recoveryForTarget, List.mem_mergeSort, List.mem_filterMap]
  simp only [List.mem_filter, decide_eq_true_eq, Option.bind_eq_some_iff, hstates]
  constructor
  · rintro ⟨m, ⟨hm, ht⟩, d, hd, hrow⟩
    split_ifs at hrow with hs
    cases hrow
    exact ⟨hm, ht, hd, hs⟩
  · rintro ⟨hm, ht, hd, hs⟩
    exact ⟨row.message, ⟨hm, ht⟩, row.delivery, hd, if_pos hs⟩

theorem recovery_ids (hn : (l.messages.map (·.messageId)).Nodup) :
    ((recoveryForTarget l target).map (·.message.messageId)).Nodup := by
  have hsub : ∀ (f : Message → Option Row), (∀ m row, f m = some row → row.message = m) →
      ∀ ms : List Message, ((ms.filterMap f).map (·.message.messageId)).Sublist (ms.map (·.messageId)) := by
    intro f hf ms
    induction ms with
    | nil => exact .slnil
    | cons m ms ih =>
      cases hm : f m with
      | none =>
        rw [List.filterMap_cons_none hm, List.map_cons]
        exact ih.cons _
      | some row =>
        rw [List.filterMap_cons_some hm, List.map_cons, List.map_cons, hf m row hm]
        exact ih.cons_cons _
  unfold recoveryForTarget
  refine (((List.mergeSort_perm _ _).map _).nodup_iff).mpr ?_
  refine ((hsub _ ?_ _).trans (List.filter_sublist.map _)).nodup hn
  intro m row hrow
  obtain ⟨d, _, hd⟩ := Option.bind_eq_some_iff.mp hrow
  split_ifs at hd
  cases hd
  rfl

/-- `reconcile_routing` on a sound ledger returns with no message of the worker claimed exactly if each row that it
recovers can be settled. -/
theorem reconcileRouting_iff (hl : l.Sound) (hr : reading ≠ .read none) :
    (∃ l', reconcileRouting l target threadId reading now = .ok l' ∧ l'.Unclaimed target) ↔
      ∀ row ∈ recoveryForTarget l target, row.Settles threadId reading := by
  have hcur : ∀ row ∈ recoveryForTarget l target, row.Current l := by
    intro row hrow
    obtain ⟨_, _, hd, _⟩ := mem_recovery.mp hrow
    obtain ⟨hmem, hid⟩ := (Rows.find_key hl.deliveryIds).mp hd
    exact ⟨hid, fun _ => hmem, fun d hdl hdid hs =>
      Rows.eq_of_key hl.deliveryIds hdl hmem (hdid.trans hid.symm) ▸ hs⟩
  have hrows := reconcile_rows threadId now (recoveryForTarget l target) hl.deliveryIds (recovery_ids hl.ids) hcur
    (fun row hrow => (mem_recovery.mp hrow).2.2.2) hr
  rw [← hrows.settles]
  refine exists_congr fun l' => and_congr_right fun hok => ?_
  have hmessages := hrows.messages l' hok
  have hpending := hrows.pending l' hok
  constructor
  · intro hun row hrow d hd hid
    obtain ⟨hm, ht, _⟩ := mem_recovery.mp hrow
    exact hun row.message (hmessages ▸ hm) ht d hd hid
  · intro hdone m hm ht d hd hid hs
    have hp : d.state.pending = true := by rw [hs]; rfl
    have hout : d.messageId ∉ (recoveryForTarget l target).map (·.message.messageId) := by
      intro hin
      obtain ⟨row, hrow, hrid⟩ := List.mem_map.mp hin
      exact hdone row hrow d hd hrid.symm hs
    have hold := (hpending d hout hp).mp hd
    refine hout (List.mem_map.mpr ⟨⟨m, d⟩, mem_recovery.mpr ⟨hmessages ▸ hm, ht, ?_, .inl hp⟩, hid.symm⟩)
    exact (Rows.find_key hl.deliveryIds).mpr ⟨hold, hid⟩

end Recovery

/-- In every reachable ledger, for every worker, thread and answer of `thread/read` with a list of turns, and for
every failed call: exactly the rows that can be settled on that thread are no obstacle. -/
theorem reconcile_settles {s : Routing} (h : Routing.machine.Reachable s) (target threadId : PyStr)
    {reading : Reading} (hr : reading ≠ .read none) (now : Nat) :
    (∃ l, reconcileRouting s.ledger target threadId reading now = .ok l ∧ l.Unclaimed target) ↔
      ∀ row ∈ recoveryForTarget s.ledger target, row.Settles threadId reading := by
  obtain ⟨_, hrun⟩ := h
  exact reconcileRouting_iff (Routing.history_safe hrun).sound hr

/-- A broker dies with a message claimed. -/
def claimedAndStopped : List Routing.Event :=
  [.stop 0, .move 0 4 9 (.lost []), .move 0 3 9 (.lost []), .move 0 2 9 (.lost []),
    .enqueue "w".toList "hi".toList none .queue .message ⟨"m".toList, "c".toList⟩ 1,
    .turn "t".toList (some "e".toList), .start "w".toList "t".toList "o".toList (.read (some [])),
    .setThreadId "w".toList "t".toList]

theorem reconcile_settles_same_thread :
    (∃ l, reconcileRouting (Routing.after claimedAndStopped).ledger "w".toList "t".toList (.read (some [])) 5 =
      .ok l ∧ l.Unclaimed "w".toList) ↔
    ∀ row ∈ recoveryForTarget (Routing.after claimedAndStopped).ledger "w".toList,
      row.Settles "t".toList (.read (some [])) :=
  reconcile_settles ⟨_, Routing.after_history claimedAndStopped fun _ _ _ => trivial⟩ _ _
    (show Reading.read (some []) ≠ .read none by intro h; cases h) 5

/-- The worker's thread is rotated before the next broker starts. -/
def rotatedAfterClaim : List Routing.Event :=
  [.setThreadId "w".toList "v".toList, .removeThreadId "w".toList "t".toList] ++ claimedAndStopped

theorem rotated_claim_stops_start :
    Routing.machine.Reachable (Routing.after rotatedAfterClaim) ∧
    ¬ ∃ l, reconcileRouting (Routing.after rotatedAfterClaim).ledger "w".toList "v".toList (.read (some [])) 5 =
      .ok l ∧ l.Unclaimed "w".toList := by
  have hrun : Routing.machine.History (fun _ _ => True) (Routing.after rotatedAfterClaim ::
      Routing.before rotatedAfterClaim) := Routing.after_history _ fun _ _ _ => trivial
  refine ⟨hrun.reachable, fun h => ?_⟩
  have hrow : ∃ m ∈ (Routing.after rotatedAfterClaim).ledger.messages, m.target = "w".toList ∧
      ∃ d ∈ (Routing.after rotatedAfterClaim).ledger.delivery? m.messageId,
        d.state = .routing ∧ d.threadId = some "t".toList := by
    decide +kernel
  obtain ⟨m, hm, ht, d, hd, hs, hthread⟩ := hrow
  have hp : d.state.pending = true := by rw [hs]; rfl
  have hread : Reading.read (some []) ≠ .read none := by
    intro heq
    cases heq
  have hsettles := (reconcileRouting_iff (Routing.history_safe hrun).sound hread).mp h ⟨m, d⟩
    (mem_recovery.mpr ⟨hm, ht, hd, .inl hp⟩) (.inl hs)
  have hon : (⟨m, d⟩ : Row).On "v".toList := by
    cases hsettles with
    | absent _ hon => exact hon hs
    | taken _ _ hon => exact hon
    | elsewhere _ _ _ hclaim => exact (hclaim hs).elim
  rw [Row.On, hthread] at hon
  revert hon
  decide

end Danus.HotJoin
