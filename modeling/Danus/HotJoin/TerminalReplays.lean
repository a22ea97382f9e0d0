import Danus.HotJoin.ExactTurn
import Danus.HotJoin.PaidIntents

/-! The terminal of a paid turn, once it is committed: which later terminals of the same intent are
replays of it. -/
namespace Danus.HotJoin
open Python Checks

variable {l l' : PaidLedger} {i j : PaidIntent} {d e : Delivery} {t t' : Terminal}
  {clientId threadId turnId status payload : PyStr} {now : Nat}

/-- A turn took the message, which awaits the turn's end. -/
def DeliveryState.accepted (s : DeliveryState) : Bool := decide (s = .steerAccepted ∨ s = .interruptAccepted)

def Delivery.accepted (d : Delivery) : Bool := d.state.accepted

/-- It was this turn. -/
def Delivery.held (threadId turnId : PyStr) (d : Delivery) : Bool :=
  d.accepted && decide (d.threadId = some threadId ∧ d.turnId = some turnId)

/-- What the end of its turn makes of a message. -/
def Delivery.complete (threadId turnId : PyStr) (detail : Option PyStr) (now : Nat) (d : Delivery) : Delivery :=
  { d with
    state := .turnCompleted
    claimOwner := none
    leaseUntilNs := none
    threadId := d.threadId.or (some threadId)
    turnId := d.turnId.or (some turnId)
    detail := detail
    updatedNs := now }

theorem Delivery.held_iff : d.held threadId turnId = true ↔
    d.accepted = true ∧ d.threadId = some threadId ∧ d.turnId = some turnId := by
  simp [Delivery.held]

namespace Ledger
variable {l : Ledger}

/-- The receipts of some accepted messages, each under its state. -/
theorem complete_rows (ds : List Delivery) (detail : Option PyStr) (hn : (l.deliveries.map (·.messageId)).Nodup)
    (hds : (ds.map (·.messageId)).Nodup)
    (hmem : ∀ d ∈ ds, d ∈ l.deliveries ∧ d.held threadId turnId = true) :
    ds.foldlM (fun l d => l.recordInTx ⟨d.messageId, .turnCompleted, some threadId, some turnId, detail,
      some d.state, none⟩ now) l =
    .ok { l with
      deliveries := Rows.update (fun d => decide (d.messageId ∈ ds.map (·.messageId)))
        (Delivery.complete threadId turnId detail now) l.deliveries } := by
  induction ds generalizing l with
  | nil =>
    rw [Rows.update_of_miss fun _ _ => by simp]
    rfl
  | cons d ds ih =>
    rw [List.map_cons, List.nodup_cons] at hds
    obtain ⟨hd, hheld⟩ := hmem d List.mem_cons_self
    obtain ⟨_, hthread, hturn⟩ := Delivery.held_iff.mp hheld
    let r : Record := ⟨d.messageId, .turnCompleted, some threadId, some turnId, detail, some d.state, none⟩
    have hhits : ∀ e ∈ l.deliveries, r.hits e = decide (e.messageId = d.messageId) := by
      intro e he
      by_cases hid : e.messageId = d.messageId
      · rw [Rows.eq_of_key hn he hd hid]
        simp [r, Record.hits, admits, hthread, hturn]
      · simp [r, Record.hits, hid]
    have hcount : l.deliveries.countP r.hits = 1 := Rows.count_one hn hd (by simp [hhits d hd])
      fun e he hp => Record.hits_id hp
    rw [List.countP_eq_length_filter, List.length_eq_one_iff] at hcount
    obtain ⟨e, he⟩ := hcount
    have hrecord : l.recordInTx r now =
        .ok { l with deliveries := Rows.update r.hits (r.write now) l.deliveries } := by
      rw [Ledger.recordInTx, he]
    have hids : (Rows.update r.hits (r.write now) l.deliveries).map (·.messageId) =
        l.deliveries.map (·.messageId) := Rows.map_update fun _ _ => rfl
    rw [List.foldlM_cons, hrecord]
    refine (ih (by rw [hids]; exact hn) hds.2 fun e he => ?_).trans ?_
    · obtain ⟨hel, hheld⟩ := hmem e (List.mem_cons_of_mem _ he)
      refine ⟨Rows.mem_update_of_miss hel ?_, hheld⟩
      rw [hhits e hel, decide_eq_false_iff_not]
      exact Rows.key_ne_of_notMem hds.1 he
    · -- a row that is already completed is not among the later ones
      congr 2
      rw [Rows.update, Rows.update, Rows.update, List.map_map]
      refine List.map_congr_left fun e he => ?_
      by_cases hid : e.messageId = d.messageId
      · simp [hhits e he, hid, Record.write, r, Delivery.complete, hds.1]
      · simp [hhits e he, hid]

/-- `complete_turn` closes exactly the messages that the turn holds. -/
theorem completeTurn_eq (hn : (l.deliveries.map (·.messageId)).Nodup) (threadId turnId status : PyStr)
    (now : Nat) : completeTurn l threadId turnId status now =
      .ok { l with
        deliveries := Rows.update (Delivery.held threadId turnId)
          (Delivery.complete threadId turnId (some ("turn terminal status=".toList ++ status)) now)
          l.deliveries } := by
  refine (complete_rows (l.deliveries.filter (Delivery.held threadId turnId)) _ hn ?_ fun d hd =>
    List.mem_filter.mp hd).trans ?_
  · exact (List.filter_sublist.map _).nodup hn
  · congr 2
    rw [Rows.update, Rows.update]
    refine List.map_congr_left fun d hd => ?_
    have hiff : d.messageId ∈ (l.deliveries.filter (Delivery.held threadId turnId)).map (·.messageId) ↔
        d.held threadId turnId = true := by
      refine ⟨fun hm => ?_, fun hh => List.mem_map_of_mem (List.mem_filter.mpr ⟨hd, hh⟩)⟩
      obtain ⟨e, he, hid⟩ := List.mem_map.mp hm
      obtain ⟨hel, hheld⟩ := List.mem_filter.mp he
      exact Rows.eq_of_key hn hel hd hid ▸ hheld
    simp only [hiff, Bool.decide_eq_true]

end Ledger

namespace PaidLedger

/-- `get_round_audit_events`, its newest row of kind `final`. -/
def finalAudit? (l : PaidLedger) (clientId : PyStr) : Option FinalAudit :=
  (l.audits.filter fun a => decide (a.clientId = clientId)).getLast?

/-- Under one digest a coordination terminal has its receipt, and its worker's thread is retired. -/
structure Retired (l : PaidLedger) (i : PaidIntent) (t : Terminal) (rc : Int) (disposition digest : PyStr) :
    Prop where
  receipt : ∃ r, l.terminalReceipts.find? (fun r => decide (r.material.clientId = i.clientId)) = some r ∧
    r.material.terminalStatus = t.terminalStatus ∧ r.material.effectiveAdapterRc = rc ∧
    r.material.disposition = disposition ∧ r.material.auditPayloadSha256 = digest ∧
    (l.threadEvent? r.material.threadRetirementEventSeq).any (·.retires i) = true
  thread : l.thread? i.target = none

theorem replayTerminal_iff {rc : Int} {disposition digest : PyStr} :
    l.replayTerminal i t rc disposition digest = .ok l' ↔ l' = l ∧ l.Retired i t rc disposition digest := by
  constructor
  · intro h
    refine ⟨replayTerminal_ok h, ?_⟩
    unfold replayTerminal at h
    split at h
    · cases h
    · next r hr =>
      simp only [unless_error_ok, not_or, not_not, Bool.not_eq_false] at h
      obtain ⟨⟨hs, hrc, hd, ha⟩, ⟨ht, hev⟩, _⟩ := h
      exact ⟨⟨r, hr, hs, hrc, hd, ha, hev⟩, by simpa using ht⟩
  · rintro ⟨rfl, ⟨r, hr, hs, hrc, hd, ha, hev⟩, ht⟩
    rw [replayTerminal, hr]
    simp [hs, hrc, hd, ha, ht, hev]

/-- A terminal on record is one terminal. -/
theorem Retired.unique {rc rc' : Int} {disposition disposition' digest digest' : PyStr}
    (h : l.Retired i t rc disposition digest) (h' : l.Retired i t' rc' disposition' digest') :
    t'.terminalStatus = t.terminalStatus ∧ rc' = rc ∧ disposition' = disposition := by
  obtain ⟨r, hr, hs, hrc, hd, _⟩ := h.receipt
  obtain ⟨r', hr', hs', hrc', hd', _⟩ := h'.receipt
  rw [hr] at hr'
  cases hr'
  exact ⟨hs'.symm.trans hs, hrc'.symm.trans hrc, hd'.symm.trans hd⟩

/-- The canonical audit stays the one that was stored. -/
theorem canonicalAudit_store (l : PaidLedger) (clientId payload payload' : PyStr) :
    (l.storeAudit (l.canonicalAudit clientId payload)).canonicalAudit clientId payload' =
      l.canonicalAudit clientId payload ∧
    l.canonicalAudit clientId payload ∈ (l.storeAudit (l.canonicalAudit clientId payload)).audits := by
  cases hlast : (l.audits.filter fun a => decide (a.clientId = clientId)).getLast? with
  | some a =>
    have ha : a ∈ l.audits := List.mem_of_mem_filter (List.mem_of_getLast? hlast)
    simp [canonicalAudit, storeAudit, hlast, ha]
  | none =>
    have hnone := List.getLast?_eq_none_iff.mp hlast
    have hnew : ∀ a ∈ l.audits, a.clientId ≠ clientId := by
      intro a ha hc
      have hm : a ∈ l.audits.filter fun a => decide (a.clientId = clientId) :=
        List.mem_filter.mpr ⟨ha, by simp [hc]⟩
      rw [hnone] at hm
      cases hm
    obtain ⟨a, ha, hclient⟩ : ∃ a, l.canonicalAudit clientId payload = a ∧ a.clientId = clientId :=
      ⟨_, by rw [canonicalAudit, hlast, Option.getD_none], rfl⟩
    have hstore : (l.storeAudit a).audits = l.audits ++ [a] := by
      rw [storeAudit, if_neg fun hm => hnew a hm hclient]
    have hfilter : (l.storeAudit a).audits.filter (fun a => decide (a.clientId = clientId)) = [a] := by
      rw [hstore, List.filter_append, hnone, List.nil_append, List.filter_cons_of_pos (by simp [hclient])]
      rfl
    rw [ha]
    refine ⟨?_, by rw [hstore]; exact List.mem_append_right _ List.mem_cons_self⟩
    rw [canonicalAudit, hfilter]
    rfl

/-- The row that an update by its client id leaves. -/
theorem intent?_update {f : PaidIntent → PaidIntent} (hf : ∀ i, (f i).clientId = i.clientId) :
    (l.updateIntent clientId f).intent? clientId = (l.intent? clientId).map f := by
  unfold intent? updateIntent Rows.update
  induction l.intents with
  | nil => rfl
  | cons i rows ih =>
    by_cases hi : i.clientId = clientId
    · simp [hi, hf]
    · simpa [hi] using ih

/-- The events of the threads are numbered in their order. -/
def Numbered (l : PaidLedger) : Prop := ∀ e ∈ l.threadEvents, e.seq ≤ l.threadEvents.length

theorem Numbered.snoc {event : ThreadEvent} (h : l.Numbered) (hs : event.seq = l.threadEvents.length + 1)
    (he : l'.threadEvents = l.threadEvents ++ [event]) : l'.Numbered := by
  intro e hm
  rw [he, List.length_append, List.length_singleton]
  rw [he] at hm
  rcases List.mem_append.mp hm with hold | hnew
  · exact (h e hold).trans (Nat.le_succ _)
  · rw [List.mem_singleton.mp hnew, hs]

theorem Numbered.find_snoc {event : ThreadEvent} (h : l.Numbered)
    (hs : event.seq = l.threadEvents.length + 1) :
    (l.threadEvents ++ [event]).find? (fun e => decide (e.seq = event.seq)) = some event := by
  have hold : l.threadEvents.find? (fun e => decide (e.seq = event.seq)) = none := by
    rw [List.find?_eq_none]
    intro e hm
    have hle := h e hm
    simp only [decide_eq_true_eq]
    omega
  rw [List.find?_append, hold, Option.none_or, List.find?_cons_of_pos (by simp)]

/-- The retirement of a worker's thread, under its receipt. -/
theorem retireWithReceipt_ok {b : SlotBinding} {rc : Int} {disposition digest : PyStr}
    (hn : l.Numbered) (hj : j.clientId = i.clientId ∧ j.target = i.target ∧ j.threadId = t.threadId)
    (h : l.retireWithReceipt i b t rc disposition digest = .ok l') :
    l'.Retired j t rc disposition digest ∧ l'.Numbered ∧ l'.intents = l.intents ∧
      l'.deliveries = l.deliveries ∧ l'.audits = l.audits := by
  unfold retireWithReceipt at h
  simp only [unless_error_ok] at h
  obtain ⟨_, hnew, h⟩ := h
  cases h
  obtain ⟨hid, htarget, hthread⟩ := hj
  rw [List.any_eq_true, not_exists] at hnew
  have hfind : ∀ r : TerminalReceipt, r.material.clientId = i.clientId →
      (l.terminalReceipts ++ [r]).find? (fun r => decide (r.material.clientId = j.clientId)) = some r := by
    intro r hr
    rw [List.find?_append, List.find?_eq_none.mpr fun r hr => ?_, Option.none_or,
      List.find?_cons_of_pos (by simp [hr, hid])]
    have hother := hnew r
    simp only [hr, true_and, decide_eq_true_eq, not_or] at hother
    simpa [hid] using hother.2
  refine ⟨⟨⟨_, hfind _ rfl, rfl, rfl, rfl, rfl, ?_⟩, ?_⟩, hn.snoc rfl rfl, rfl, rfl, rfl⟩
  · let event := l.threadEvent i.target .retiredCoordinationTerminal t.threadId
      (some (retirementDetail i.clientId))
    have hevent : (l.threadEvents ++ [event]).find? (fun e => decide (e.seq = event.seq)) = some event :=
      hn.find_snoc rfl
    refine (congrArg (Option.any (·.retires j)) hevent).trans ?_
    simp [event, threadEvent, ThreadEvent.retires, hid, htarget, hthread]
  · rw [thread?, htarget]
    exact lookup_filter_ne.trans (if_pos rfl)

/-- What the end of `finalize_round` leaves of an intent: it is completed by this turn, once a bound one has its
receipt. -/
structure Closed (l l' : PaidLedger) (i j : PaidIntent) (t : Terminal) (adapter : Option (Int × PyStr))
    (digest : PyStr) : Prop where
  deliveries : l'.deliveries = l.deliveries
  audits : l'.audits = l.audits
  intent : l'.intent? i.clientId = some j
  continues : i.Continues j
  completed : j.state = .completed
  turn : j.turnId = some t.turnId
  retired : ∀ b rc disposition, j.binding = some b → adapter = some (rc, disposition) →
    l'.Retired j t rc disposition digest
  numbered : l'.Numbered
  intents : ∀ k ∈ l'.intents, k ∈ l.intents ∨ k = j

/-- A completed intent carries its turn. -/
def Turned (l : PaidLedger) : Prop := ∀ i ∈ l.intents, i.state = .completed → i.turnId ≠ none

/-- A later terminal of an intent that is completed leaves all as it is, if it is the one on record. -/
theorem closeIntent_again {adapter : Option (Int × PyStr)} {digest : PyStr} (hu : i.unfinished ≠ true) :
    l.closeIntent i t adapter digest = .ok l' ↔ l' = l ∧ ∀ b rc disposition, i.binding = some b →
      adapter = some (rc, disposition) → l.Retired i t rc disposition digest := by
  have hsame : (∀ b rc disposition, i.binding = some b → adapter ≠ some (rc, disposition)) →
      ((Except.ok l : Except HotJoinError PaidLedger) = .ok l' ↔ l' = l ∧ ∀ b rc disposition,
        i.binding = some b → adapter = some (rc, disposition) → l.Retired i t rc disposition digest) := by
    intro hnone
    rw [Except.ok.injEq, eq_comm]
    exact ⟨fun h => ⟨h, fun b rc d hb ha => (hnone b rc d hb ha).elim⟩, And.left⟩
  unfold closeIntent
  rw [if_neg hu]
  cases hb : i.binding with
  | none =>
    rw [hb] at hsame
    exact hsame fun _ _ _ => nofun
  | some b =>
    rw [hb] at hsame
    cases adapter with
    | none => exact hsame fun _ _ _ _ => nofun
    | some p =>
      obtain ⟨rc, disposition⟩ := p
      simp only [replayTerminal_iff]
      refine and_congr_right fun _ => ⟨fun h _ _ _ _ ha => ?_, fun h => h b rc disposition rfl rfl⟩
      cases ha
      exact h

theorem closeIntent_ok {adapter : Option (Int × PyStr)} {digest : PyStr} (hk : l.Keyed) (hn : l.Numbered)
    (hi : l.intent? clientId = some i) (hthread : i.threadId = t.threadId)
    (hturn : i.state = .completed → i.turnId = some t.turnId) (hstate : i.state ≠ .failed)
    (h : l.closeIntent i t adapter digest = .ok l') : ∃ j, l.Closed l' i j t adapter digest := by
  obtain ⟨him, hid⟩ := mem_intent hi
  by_cases hu : i.unfinished = true
  · let close := fun i : PaidIntent => { i with
      state := .completed, turnId := some t.turnId, terminalStatus := some t.terminalStatus }
    have hclosed : (l.updateIntent i.clientId close).intent? i.clientId = some (close i) := by
      rw [intent?_update (f := close) fun _ => rfl, hid, hi]
      rfl
    have hnumbered : (l.updateIntent i.clientId close).Numbered := hn
    have hintents : ∀ k ∈ (l.updateIntent i.clientId close).intents, k ∈ l.intents ∨ k = close i := by
      intro k hkm
      rcases Rows.mem_update_cases hkm with ⟨hold, _⟩ | ⟨k, hold, hhit, rfl⟩
      · exact .inl hold
      · rw [hk.eq_of_client hold him (of_decide_eq_true hhit)]
        exact .inr rfl
    have hcontinues : i.Continues (close i) := ⟨rfl, rfl, rfl, rfl, rfl, rfl, rfl, fun _ => nofun⟩
    have hopen : (∀ b rc disposition, i.binding = some b → adapter ≠ some (rc, disposition)) →
        l' = l.updateIntent i.clientId close → ∃ j, l.Closed l' i j t adapter digest := by
      rintro hnone rfl
      exact ⟨close i, rfl, rfl, hclosed, hcontinues, rfl, rfl,
        fun b rc d hb ha => (hnone b rc d hb ha).elim, hn, hintents⟩
    unfold closeIntent at h
    rw [if_pos hu] at h
    cases hb : i.binding with
    | none =>
      simp only [hb, Except.ok.injEq] at h
      exact hopen (fun b rc d hb' => by simp [hb] at hb') h.symm
    | some b =>
      cases adapter with
      | none =>
        simp only [hb, Except.ok.injEq] at h
        exact hopen (fun _ _ _ _ => nofun) h.symm
      | some p =>
        obtain ⟨rc, disposition⟩ := p
        simp only [hb] at h
        obtain ⟨hretired, hnum, hint, hdel, haud⟩ :=
          retireWithReceipt_ok (i := i) (j := close i) hnumbered ⟨rfl, rfl, hthread⟩ h
        refine ⟨close i, hdel, haud, ?_, hcontinues, rfl, rfl, fun _ _ _ _ ha => ?_, hnum, ?_⟩
        · rw [intent?, hint]
          exact hclosed
        · cases ha
          exact hretired
        · rw [hint]
          exact hintents
  · have hdone : i.state = .completed := by
      simp only [PaidIntent.unfinished, decide_eq_true_eq, not_and, not_not] at hu
      by_contra hc
      exact hstate (hu hc)
    obtain ⟨rfl, hretired⟩ := (closeIntent_again hu).mp h
    exact ⟨i, rfl, rfl, by rw [hid, hi], .refl i, hdone, hturn hdone, hretired, hn, fun k hkm => .inl hkm⟩

/-- The checks of `finalize_round` on its payload, and on the intent that it finds. -/
structure Admits (l : PaidLedger) (clientId payload : PyStr) (t : Terminal) (i : PaidIntent)
    (adapter : Option (Int × PyStr)) : Prop where
  usable : ∃ digest, auditMaterial payload = .ok digest
  intent : l.intent? clientId = some i
  binding : validateCoordinationBinding i.binding = .ok ()
  fits : t.adapter i.binding.isSome = .ok adapter
  thread : i.threadId = t.threadId
  turn : i.turnId = none ∨ i.turnId = some t.turnId
  state : i.state ≠ .failed
  canonical : auditMaterial (l.canonicalAudit clientId payload).payload =
    .ok (l.canonicalAudit clientId payload).payloadSha256
  header : t.checkHeader i adapter (l.canonicalAudit clientId payload).payload = .ok ()

/-- One delivery for each message. -/
def Distinct (l : PaidLedger) : Prop := (l.deliveries.map (·.messageId)).Nodup

/-- A turn's messages have their receipts. -/
def closeTurn (l : PaidLedger) (threadId turnId status : PyStr) (now : Nat) : PaidLedger :=
  { l with
    deliveries := Rows.update (Delivery.held threadId turnId)
      (Delivery.complete threadId turnId (some ("turn terminal status=".toList ++ status)) now)
      l.deliveries }

theorem closeTurn_ids (l : PaidLedger) (threadId turnId status : PyStr) (now : Nat) :
    (l.closeTurn threadId turnId status now).deliveries.map (·.messageId) =
      l.deliveries.map (·.messageId) := Rows.map_update fun _ _ => rfl

theorem closeTurn_not_held : ∀ d ∈ (l.closeTurn threadId turnId status now).deliveries,
    d.held threadId turnId = false := by
  intro d hd
  rcases Rows.mem_update_cases hd with ⟨_, hmiss⟩ | ⟨d, _, _, rfl⟩
  · exact hmiss
  · rfl

/-- It accepts no message. -/
theorem closeTurn_accepted (hd : d ∈ (l.closeTurn threadId turnId status now).deliveries)
    (ha : d.accepted = true) : d ∈ l.deliveries := by
  rcases Rows.mem_update_cases hd with ⟨hold, _⟩ | ⟨d, _, _, rfl⟩
  · exact hold
  · cases ha

theorem completeDeliveries_eq (hd : l.Distinct) (threadId turnId status : PyStr) (now : Nat) :
    l.completeDeliveries threadId turnId status now = .ok (l.closeTurn threadId turnId status now) := by
  have hcomplete := Ledger.completeTurn_eq (l := ⟨[], l.deliveries, [], []⟩) hd threadId turnId status now
  unfold completeDeliveries
  rw [hcomplete]
  rfl

/-- The ledger between the audit and the intent of a terminal. -/
def received (l : PaidLedger) (clientId payload : PyStr) (t : Terminal) (now : Nat) : PaidLedger :=
  (l.storeAudit (l.canonicalAudit clientId payload)).closeTurn t.threadId t.turnId t.terminalStatus now

theorem finalizeRound_iff (hd : l.Distinct) : l.finalizeRound clientId payload t now = .ok l' ↔
    ∃ i adapter, l.Admits clientId payload t i adapter ∧ (l.received clientId payload t now).closeIntent
      i t adapter (l.canonicalAudit clientId payload).payloadSha256 = .ok l' := by
  unfold finalizeRound
  rw [bind_ok]
  cases hi : l.intent? clientId with
  | none =>
    simp only [throw_ok, and_false, exists_false, false_iff, not_exists, not_and]
    intro i adapter h
    rw [h.intent] at hi
    cases hi
  | some i =>
    have hreceived := completeDeliveries_eq (l := l.storeAudit (l.canonicalAudit clientId payload)) hd
      t.threadId t.turnId t.terminalStatus now
    simp only [unless_ok, bind_ok, hreceived]
    constructor
    · rintro ⟨usable, hu, _, hb, adapter, ha, hturn, hstate, digest, hd, hsha, _, hh, _, hr, h⟩
      rw [not_or, not_not, not_and_or, not_not, not_not] at hturn
      rw [not_not] at hsha
      subst hsha
      cases hr
      exact ⟨i, adapter, ⟨⟨usable, hu⟩, hi, hb, ha, hturn.1, hturn.2, hstate, hd, hh⟩, h⟩
    · rintro ⟨j, adapter, hadm, h⟩
      have hij := hadm.intent
      rw [hi] at hij
      cases hij
      obtain ⟨usable, hu⟩ := hadm.usable
      refine ⟨usable, hu, (), hadm.binding, adapter, hadm.fits, ?_, hadm.state, _, hadm.canonical,
        not_not.mpr rfl, (), hadm.header, _, rfl, h⟩
      rw [not_or, not_not, not_and_or, not_not, not_not]
      exact ⟨hadm.thread, hadm.turn⟩

/-- What holds of the ledger between the transactions. -/
structure Sound (l : PaidLedger) : Prop where
  keyed : l.Keyed
  distinct : l.Distinct
  numbered : l.Numbered
  turned : l.Turned

theorem finalizeRound_ok (hl : l.Sound) (h : l.finalizeRound clientId payload t now = .ok l') :
    ∃ i j adapter, l.Admits clientId payload t i adapter ∧ (l.received clientId payload t now).Closed l' i j
      t adapter (l.canonicalAudit clientId payload).payloadSha256 := by
  obtain ⟨i, adapter, hadm, hclose⟩ := (finalizeRound_iff hl.distinct).mp h
  have hturn : i.state = .completed → i.turnId = some t.turnId := fun hs =>
    hadm.turn.resolve_left (hl.turned i (mem_intent hadm.intent).1 hs)
  have hk : (l.received clientId payload t now).Keyed := ⟨hl.keyed.clientIds, hl.keyed.slots⟩
  obtain ⟨j, hclosed⟩ := closeIntent_ok hk hl.numbered hadm.intent hadm.thread hturn hadm.state hclose
  exact ⟨i, j, adapter, hadm, hclosed⟩

/-- The ledger after a terminal has nothing left to store for another one of the same turn. -/
theorem received_again {received : PaidLedger} {payload' : PyStr} {now' : Nat}
    (ha : received.audits = (l.storeAudit (l.canonicalAudit clientId payload)).audits)
    (hd : ∀ d ∈ received.deliveries, d.held t.threadId t.turnId = false) :
    received.canonicalAudit clientId payload' = l.canonicalAudit clientId payload ∧
      received.received clientId payload' t now' = received := by
  obtain ⟨hcanon, hmem⟩ := canonicalAudit_store l clientId payload payload'
  have hsame : received.canonicalAudit clientId payload' = l.canonicalAudit clientId payload := by
    rw [← hcanon, canonicalAudit, canonicalAudit, ha]
  refine ⟨hsame, ?_⟩
  rw [PaidLedger.received, closeTurn, hsame, storeAudit, ha, if_pos hmem, ← ha]
  simp only [Rows.update_of_miss hd]

/-- The other terminal is of the same turn, with a disposition that fits its return code; for a bound intent it is
the same one. -/
structure Repeats (t t' : Terminal) (bound : Bool) : Prop where
  thread : t'.threadId = t.threadId
  turn : t'.turnId = t.turnId
  adapter : ∃ adapter, t'.adapter bound = .ok adapter
  bound : bound = true → t' = t

theorem adapter_bound {adapter : Option (Int × PyStr)} (h : t.adapter true = .ok adapter) :
    ∃ rc disposition, adapter = some (rc, disposition) ∧ t.effectiveAdapterRc = some rc ∧
      t.disposition = some disposition := by
  unfold Terminal.adapter at h
  split at h
  · next rc disposition hrc hd =>
    rw [ite_ok] at h
    rcases h with ⟨_, h⟩ | ⟨_, h⟩
    · cases h
      exact ⟨rc, disposition, rfl, hrc, hd⟩
    · cases h
  · cases h
  · cases h

/-- Exactly these terminals are accepted as replays of a committed one, and they leave the ledger as it is. -/
theorem finalizeRound_replay {l'' : PaidLedger} {payload' : PyStr} {now' : Nat} (hl : l.Sound)
    (h : l.finalizeRound clientId payload t now = .ok l') :
    l'.finalizeRound clientId payload' t' now' = .ok l'' ↔
      l'' = l' ∧ (∃ digest, auditMaterial payload' = .ok digest) ∧
        ∃ i, l.intent? clientId = some i ∧ Repeats t t' i.binding.isSome := by
  obtain ⟨i, j, adapter, hadm, hclosed⟩ := finalizeRound_ok hl h
  have hid : i.clientId = clientId := (mem_intent hadm.intent).2
  have hintent : l'.intent? clientId = some j := hid ▸ hclosed.intent
  have hbinding := hclosed.continues.binding
  have hfree : ∀ d ∈ l'.deliveries, d.held t.threadId t.turnId = false :=
    hclosed.deliveries ▸ closeTurn_not_held
  have hdistinct : l'.Distinct := by
    rw [Distinct, hclosed.deliveries, received, closeTurn_ids]
    exact hl.distinct
  have hdone : j.unfinished ≠ true := by simp [PaidIntent.unfinished, hclosed.completed]
  have hagain : ∀ t' : Terminal, (∀ d ∈ l'.deliveries, d.held t'.threadId t'.turnId = false) →
      l'.canonicalAudit clientId payload' = l.canonicalAudit clientId payload ∧
        l'.received clientId payload' t' now' = l' := fun _ hd => received_again hclosed.audits hd
  rw [finalizeRound_iff hdistinct]
  constructor
  · rintro ⟨j', adapter', hadm', hclose⟩
    have hj := hadm'.intent
    rw [hintent] at hj
    cases hj
    have hthread : t'.threadId = t.threadId :=
      hadm'.thread.symm.trans (hclosed.continues.threadId.trans hadm.thread)
    have hturn : t'.turnId = t.turnId := by
      have hturn := hadm'.turn
      rw [hclosed.turn] at hturn
      exact Option.some.inj (hturn.resolve_left nofun).symm
    obtain ⟨hcanon, hsame⟩ := hagain t' (hthread ▸ hturn ▸ hfree)
    rw [hsame, hcanon, closeIntent_again hdone] at hclose
    obtain ⟨rfl, hretired⟩ := hclose
    have hadapter := hadm'.fits
    rw [hbinding] at hadapter
    refine ⟨rfl, hadm'.usable, i, hadm.intent, hthread, hturn, ⟨adapter', hadapter⟩, fun hb => ?_⟩
    obtain ⟨b, hb'⟩ := Option.isSome_iff_exists.mp hb
    have hfit := hadm.fits
    rw [hb] at hfit hadapter
    obtain ⟨rc, disposition, rfl, hrc, hdis⟩ := adapter_bound hfit
    obtain ⟨rc', disposition', rfl, hrc', hdis'⟩ := adapter_bound hadapter
    have hjb := hbinding.trans hb'
    obtain ⟨hstatus, rfl, rfl⟩ := (hclosed.retired b rc disposition hjb rfl).unique
      (hretired b rc' disposition' hjb rfl)
    cases t
    cases t'
    simp_all
  · rintro ⟨rfl, husable, i', hi', hrep⟩
    rw [hadm.intent] at hi'
    cases hi'
    obtain ⟨adapter', hadapter⟩ := hrep.adapter
    obtain ⟨hcanon, hsame⟩ := hagain t' (hrep.thread ▸ hrep.turn ▸ hfree)
    have hbound : ∀ b, i.binding = some b → t' = t ∧ adapter' = adapter := by
      intro b hb
      obtain rfl := hrep.bound (by rw [hb]; rfl)
      exact ⟨rfl, Except.ok.inj (hadapter.symm.trans hadm.fits)⟩
    refine ⟨j, adapter', ⟨husable, hintent, ?_, ?_, ?_, ?_, ?_, ?_, ?_⟩, ?_⟩
    · rw [hbinding]
      exact hadm.binding
    · rw [hbinding]
      exact hadapter
    · exact hclosed.continues.threadId.trans (hadm.thread.trans hrep.thread.symm)
    · rw [hclosed.turn, hrep.turn]
      exact .inr rfl
    · rw [hclosed.completed]
      nofun
    · rw [hcanon]
      exact hadm.canonical
    · rw [hcanon]
      cases hb : i.binding with
      | none => simp [Terminal.checkHeader, hbinding, hb]
      | some b =>
        obtain ⟨rfl, rfl⟩ := hbound b hb
        have hheader := hadm.header
        unfold Terminal.checkHeader Terminal.header at hheader ⊢
        rw [hb] at hheader
        rw [hbinding, hb, hclosed.continues.requestedModel, hclosed.continues.requestedEffort]
        exact hheader
    · rw [hsame, hcanon, closeIntent_again hdone]
      refine ⟨rfl, fun b rc disposition hb ha => ?_⟩
      obtain ⟨rfl, rfl⟩ := hbound b (hbinding.symm.trans hb)
      exact hclosed.retired b rc disposition hb ha

end PaidLedger
end Danus.HotJoin
