import Danus.HotJoin.Routes
import Danus.Lib.Dict
import Danus.Lib.Sorting

/-! A queued message on the thread its worker has is claimed in the worker's next turn, in the order of
enqueueing; one that is bound to an earlier thread is not. -/
namespace Danus.HotJoin
open Python Machines Checks

variable {l l' mid : Ledger} {m m' : Message} {d : Delivery} {c : ClaimArgs} {now : Nat}
  {target threadId turnId : PyStr}

namespace ClaimArgs

theorem earlier_total (a b : Message) : earlier a b = true ∨ earlier b a = true := by
  simp only [earlier, Bool.or_eq_true, Bool.and_eq_true, decide_eq_true_eq]
  rcases lt_trichotomy a.createdNs b.createdNs with h | h | h
  · exact .inl (.inl h)
  · rcases Json.strLe_total a.messageId b.messageId with hle | hle
    · exact .inl (.inr ⟨h, hle⟩)
    · exact .inr (.inr ⟨h.symm, hle⟩)
  · exact .inr (.inl h)

theorem earlier_trans {a b e : Message} (h : earlier a b = true) (h' : earlier b e = true) :
    earlier a e = true := by
  simp only [earlier, Bool.or_eq_true, Bool.and_eq_true, decide_eq_true_eq] at h h' ⊢
  rcases h with h | ⟨h, hle⟩
  · rcases h' with h' | ⟨h', _⟩
    · exact .inl (h.trans h')
    · exact .inl (h' ▸ h)
  · rcases h' with h' | ⟨h', hle'⟩
    · exact .inl (h ▸ h')
    · exact .inr ⟨h.trans h', Json.strLe_trans hle hle'⟩

/-- The first of a list comes before all of it. -/
theorem first_earlier {ms : List Message} (h : first ms = some m) (hm : m' ∈ ms) :
    earlier m m' = true := by
  cases ms with
  | nil => cases h
  | cons a ms =>
    have hfold : ∀ (ms : List Message) (a : Message), ∀ x ∈ a :: ms,
        earlier (ms.foldl (fun a b => if earlier a b then a else b) a) x = true := by
      intro ms
      induction ms with
      | nil =>
        intro a x hx
        rw [List.mem_singleton.mp hx]
        exact (earlier_total a a).elim id id
      | cons b ms ih =>
        intro a x hx
        rw [List.foldl_cons]
        have hnext := ih (if earlier a b then a else b)
        cases hab : earlier a b with
        | true =>
          simp only [hab, if_true] at hnext ⊢
          rcases List.mem_cons.mp hx with rfl | hx
          · exact hnext x List.mem_cons_self
          · rcases List.mem_cons.mp hx with rfl | hx
            · exact earlier_trans (hnext a List.mem_cons_self) hab
            · exact hnext x (List.mem_cons_of_mem _ hx)
        | false =>
          simp only [hab, Bool.false_eq_true, if_false] at hnext ⊢
          rcases List.mem_cons.mp hx with rfl | hx
          · have hba := (earlier_total b x).resolve_right (by simp [hab])
            exact earlier_trans (hnext b List.mem_cons_self) hba
          · exact hnext x hx
    cases h
    exact hfold ms a m' hm

theorem first_some {ms : List Message} (h : m ∈ ms) : ∃ m', first ms = some m' := by
  cases ms with
  | nil => cases h
  | cons a ms => exact ⟨_, rfl⟩

end ClaimArgs

/-- What the expiry of claims leaves of the deliveries. -/
structure Ledger.Expires (l l' : Ledger) (expired : List PyStr) : Prop where
  messages : l'.messages = l.messages
  ids : l'.deliveries.map (·.messageId) = l.deliveries.map (·.messageId)
  kept : ∀ d, d.messageId ∉ expired → (d ∈ l'.deliveries ↔ d ∈ l.deliveries)
  unknown : ∀ d ∈ l'.deliveries, d.messageId ∈ expired → d.state = .deliveryUnknown

/-- One expired claim: the statement hits the one row of its message. -/
theorem expire_one (now : Nat) {r : Record} (hr : ∀ e, r.hits e = decide (e.messageId = d.messageId))
    (hs : r.state = .deliveryUnknown) (hn : (l.deliveries.map (·.messageId)).Nodup) (hd : d ∈ l.deliveries) :
    ∃ l', l.recordInTx r now = .ok l' ∧ l.Expires l' [d.messageId] := by
  have hcount := Rows.count_one (p := r.hits) hn hd (by simp [hr]) fun e _ he => by simpa [hr] using he
  rw [List.countP_eq_length_filter, List.length_eq_one_iff] at hcount
  obtain ⟨e, he⟩ := hcount
  have hrecord : l.recordInTx r now =
      .ok { l with deliveries := Rows.update r.hits (r.write now) l.deliveries } := by
    rw [Ledger.recordInTx, he]
  refine ⟨_, hrecord, rfl, Rows.map_update fun _ _ => rfl, fun e hne => ?_, fun e he hid => ?_⟩
  · rw [List.mem_singleton] at hne
    constructor
    · intro hmem
      rcases Rows.mem_update_cases hmem with ⟨hold, _⟩ | ⟨x, _, hx, rfl⟩
      · exact hold
      · rw [hr] at hx
        exact (hne (of_decide_eq_true hx)).elim
    · intro hold
      exact Rows.mem_update_of_miss hold (by simpa [hr] using hne)
  · rcases Rows.mem_update_cases he with ⟨_, hmiss⟩ | ⟨x, _, _, rfl⟩
    · rw [hr, decide_eq_false_iff_not] at hmiss
      exact (hmiss (List.mem_singleton.mp hid)).elim
    · exact hs

theorem expire_all (now : Nat) (detail : Option PyStr) (ds : List Delivery)
    (hn : (l.deliveries.map (·.messageId)).Nodup)
    (hds : ∀ d ∈ ds, d.messageId ∈ l.deliveries.map (·.messageId)) :
    ∃ l', ds.foldlM (fun l d => l.recordInTx
        ⟨d.messageId, .deliveryUnknown, none, none, detail, none, none⟩ now) l = .ok l' ∧
      l.Expires l' (ds.map (·.messageId)) := by
  induction ds generalizing l with
  | nil => exact ⟨l, rfl, rfl, rfl, fun _ _ => Iff.rfl, fun _ _ h => by cases h⟩
  | cons d ds ih =>
    obtain ⟨e, he, hid⟩ := List.mem_map.mp (hds d List.mem_cons_self)
    obtain ⟨mid, hmid, hone⟩ := expire_one now
      (r := ⟨e.messageId, .deliveryUnknown, none, none, detail, none, none⟩)
      (fun e => by simp [Record.hits, admits]) rfl hn he
    rw [hid] at hmid hone
    obtain ⟨l', hl', hall⟩ := ih (hone.ids ▸ hn) fun d hd => hone.ids ▸ hds d (List.mem_cons_of_mem _ hd)
    refine ⟨l', ?_, hall.messages.trans hone.messages, hall.ids.trans hone.ids, fun e hne => ?_, fun e he hmem => ?_⟩
    · rw [List.foldlM_cons, hmid]
      exact hl'
    · rw [List.map_cons, List.mem_cons, not_or] at hne
      rw [hall.kept e hne.2, hone.kept e (by simpa using hne.1)]
    · by_cases hlater : e.messageId ∈ ds.map (·.messageId)
      · exact hall.unknown e he hlater
      · rw [List.map_cons, List.mem_cons] at hmem
        exact hone.unknown e ((hall.kept e hlater).mp he)
          (List.mem_singleton.mpr (hmem.resolve_right hlater))

/-- What a claim may select is the same after the expiry. -/
theorem expireClaims_selects (target : PyStr) (now : Nat) (hl : l.Sound) :
    ∃ mid, l.expireClaims target now = .ok mid ∧ mid.messages = l.messages ∧
      (mid.deliveries.map (·.messageId)).Nodup ∧
      ∀ c m d, ClaimArgs.selects c m d = true → (d ∈ mid.deliveries ↔ d ∈ l.deliveries) := by
  obtain ⟨mid, hmid, hex⟩ := expire_all now (some "broker lease expired after dispatch intent".toList)
    (l.deliveries.filter fun d =>
      d.expired now && l.messages.any fun m => decide (m.messageId = d.messageId ∧ m.target = target))
    hl.deliveryIds fun d hd => List.mem_map_of_mem (List.mem_of_mem_filter hd)
  refine ⟨mid, hmid, hex.messages, hex.ids ▸ hl.deliveryIds, fun c m d hs => ?_⟩
  simp only [ClaimArgs.selects, Bool.and_eq_true] at hs
  have hclaimable : d.state = .persisted ∨ d.state = .queued := by
    have hc := hs.1.1.2
    simp only [ClaimArgs.claimable, Bool.or_eq_true, Bool.and_eq_true, decide_eq_true_eq] at hc
    exact hc.imp id And.right
  by_cases hid : d.messageId ∈ (l.deliveries.filter fun d => d.expired now &&
      l.messages.any fun m => decide (m.messageId = d.messageId ∧ m.target = target)).map (·.messageId)
  · constructor
    · intro hd
      rw [hex.unknown d hd hid] at hclaimable
      rcases hclaimable with h | h <;> cases h
    · intro hd
      obtain ⟨e, he, heid⟩ := List.mem_map.mp hid
      obtain ⟨hel, hexp⟩ := List.mem_filter.mp he
      rw [Rows.eq_of_key hl.deliveryIds hel hd heid] at hexp
      simp only [Delivery.expired, Bool.and_eq_true, decide_eq_true_eq] at hexp
      rw [hexp.1.1] at hclaimable
      rcases hclaimable with h | h <;> cases h
  · exact hex.kept d hid

theorem ClaimArgs.hits_of_selects (h : c.selects m d = true) : c.hits m d = true := by
  simp only [ClaimArgs.selects, ClaimArgs.hits, Bool.and_eq_true] at h ⊢
  exact ⟨⟨h.1.1.1.1, h.1.1.2⟩, h.2⟩

/-- While some message may be claimed, a claim takes the first one of these. -/
theorem claim_first (hl : l.Sound) (ht : validateTarget c.target = .ok ()) (hm : m ∈ l.messages)
    (hd : d ∈ l.deliveries) (hs : c.selects m d = true) :
    ∃ row l', claim l c now = .ok (some row, l') ∧ row.message ∈ l.messages ∧
      ∀ m' ∈ l.messages, ∀ d' ∈ l.deliveries, c.selects m' d' = true →
        ClaimArgs.earlier row.message m' = true := by
  obtain ⟨mid, hmid, hmessages, hids, hsame⟩ := expireClaims_selects c.target now hl
  have hmem : ∀ m' ∈ l.messages, ∀ d' ∈ l.deliveries, c.selects m' d' = true →
      m' ∈ mid.messages.filter fun m => mid.deliveries.any fun d => c.selects m d := by
    intro m' hm' d' hd' hs'
    rw [List.mem_filter, hmessages]
    exact ⟨hm', List.any_eq_true.mpr ⟨d', (hsame c m' d' hs').mpr hd', hs'⟩⟩
  obtain ⟨m₀, h₀⟩ := ClaimArgs.first_some (hmem m hm d hd hs)
  obtain ⟨hin, hany⟩ := List.mem_filter.mp (first_mem h₀)
  obtain ⟨d₀, hd₀, hs₀⟩ := List.any_eq_true.mp hany
  have hcount := Rows.count_one (p := c.hits m₀) hids hd₀ (ClaimArgs.hits_of_selects hs₀) fun e _ he => by
    simp only [ClaimArgs.hits, ClaimArgs.selects, Bool.and_eq_true, decide_eq_true_eq] at he hs₀
    exact he.1.1.trans hs₀.1.1.1.1.symm
  rw [List.countP_eq_length_filter, List.length_eq_one_iff] at hcount
  obtain ⟨e, he⟩ := hcount
  have hclaim : claim l c now = .ok (some ⟨m₀, c.write now e⟩,
      { mid with deliveries := Rows.update (c.hits m₀) (c.write now) mid.deliveries }) := by
    simp only [claim, ht, hmid, bind, Except.bind, ClaimArgs.select, h₀, he, pure, Except.pure]
  exact ⟨_, _, hclaim, hmessages ▸ hin, fun m' hm' d' hd' hs' =>
    ClaimArgs.first_earlier h₀ (hmem m' hm' d' hd' hs')⟩

/-- What a broker that found a turn active claims. -/
def brokerClaim (target owner : PyStr) (leaseNs : Nat) (threadId turnId : PyStr) : ClaimArgs :=
  ⟨target, owner, true, leaseNs, some threadId, some turnId⟩

/-- A message queued until the next turn can be claimed by its worker's broker on the worker's thread in any
turn but the one that rejected it, and the broker's claim takes the first message that it can. -/
def Ledger.Serves (l : Ledger) : Prop :=
  ∀ m d, l.Queued m d → m.fallback = .queue →
    ∀ threadId, l.workerThreads.lookup m.target = some threadId →
      ∀ turnId, d.turnId ≠ some turnId → ∀ owner leaseNs now,
        (brokerClaim m.target owner leaseNs threadId turnId).selects m d = true ∧
        ∃ row l', claim l (brokerClaim m.target owner leaseNs threadId turnId) now = .ok (some row, l') ∧
          row.message ∈ l.messages ∧
          ∀ m' ∈ l.messages, ∀ d' ∈ l.deliveries,
            (brokerClaim m.target owner leaseNs threadId turnId).selects m' d' = true →
              ClaimArgs.earlier row.message m' = true

/-- Queued messages are bound to the threads of their workers. -/
def Ledger.Aligned (l : Ledger) : Prop :=
  ∀ m d, l.Queued m d → m.fallback = .queue →
    ∀ threadId, l.workerThreads.lookup m.target = some threadId →
      d.threadId = none ∨ d.threadId = some threadId

theorem Ledger.Aligned.serves (ha : l.Aligned) (hl : l.Sound) : l.Serves := by
  intro m d hq hf threadId ht turnId hturn owner leaseNs now
  have hs : (brokerClaim m.target owner leaseNs threadId turnId).selects m d = true := by
    have hthread := ha m d hq hf threadId ht
    have hbound : admits d.threadId (some threadId) = true := by
      rcases hthread with h | h <;> simp [admits, h]
    simp [ClaimArgs.selects, brokerClaim, ClaimArgs.claimable, hq.id, hq.state, hturn, hbound]
  exact ⟨hs, claim_first hl (hl.targets m hq.message) hq.message hq.delivery hs⟩

/-- What keeps queued messages on their workers' threads: a worker gets a thread only while its queued messages
are bound to no other one, and a broker with a message that may be queued is on its worker's thread. -/
def Routing.Fits (s : Routing) : Routing.Event → Prop
  | .setThreadId target threadId => ∀ m ∈ s.ledger.messages, ∀ d ∈ s.ledger.deliveries,
      ¬ (d.messageId = m.messageId ∧ d.state = .queued ∧ m.fallback = .queue ∧ m.target = target) ∨
        d.threadId = none ∨ d.threadId = some threadId
  | .move i _ _ _ => ∀ b ∈ s.brokers[i]?, ∀ row ∈ b.pc.candidate, row.message.fallback ≠ .queue ∨
      ∀ threadId ∈ s.ledger.workerThreads.lookup b.target, b.threadId = threadId
  | _ => True

instance (s : Routing) (event : Routing.Event) : Decidable (s.Fits event) := by
  cases event <;> unfold Routing.Fits <;> infer_instance

/-- The condition on every step of a run. -/
def Routing.Fitting : List Routing → Routing.Event → Prop
  | s :: _, event => s.Fits event
  | [], _ => True

namespace Ledger

theorem Aligned.calm (ha : l.Aligned) (h : l.Calm l') : l'.Aligned := by
  intro m d hq hf threadId ht
  exact ha m d (h.queued m d hq) hf threadId (h.threads _ _ ht)

end Ledger

namespace Routing
variable {s : Routing} {past : List Routing} {b : Broker} {i : Nat} {pc : Pc}

theorem committed_aligned (ha : s.ledger.Aligned) {r : Except HotJoinError Ledger}
    (hr : ∀ l, r = .ok l → l.Aligned) : (s.committed r).ledger.Aligned := by
  unfold Routing.committed
  split
  · next l => exact hr l rfl
  · exact ha

theorem moved_aligned (ha : s.ledger.Aligned) {r : Except HotJoinError Ledger}
    (hr : ∀ l, r = .ok l → l.Aligned) : (s.moved i b pc r).ledger.Aligned := by
  unfold Routing.moved
  split
  · next l => exact hr l rfl
  · exact ha

/-- A receipt on the thread of the message's worker. -/
theorem recorded_aligned (hl : s.ledger.Sound) (ha : s.ledger.Aligned) {r : Record} {now : Nat} {row : Row}
    (hrow : row.message ∈ s.ledger.messages) (hid : r.messageId = row.message.messageId)
    (hthread : r.threadId = some b.threadId)
    (hexact : r.state = .queued → row.message.fallback ≠ .fail)
    (hfits : row.message.fallback ≠ .queue ∨
      ∀ threadId ∈ s.ledger.workerThreads.lookup row.message.target, b.threadId = threadId) :
    (s.moved i b pc (s.ledger.recordInTx r now)).ledger.Aligned := by
  apply moved_aligned ha
  intro l h
  by_cases hq : r.state = .queued
  · have hnot : ∀ m ∈ s.ledger.messages, m.messageId = r.messageId → m.exact = false := by
      rw [hid]
      exact Broker.Backed.receipt_exact hl hrow (hexact hq)
    obtain ⟨hf, hqueued⟩ := recordInTx_queued hl hnot h
    intro m d hd hfall threadId ht
    have hm : m ∈ s.ledger.messages := by
      have hm := hd.message
      rw [recordInTx_ok h] at hm
      exact hm
    have ht' : s.ledger.workerThreads.lookup m.target = some threadId := by
      rw [recordInTx_ok h] at ht
      exact ht
    rcases hqueued m d hd with hold | ⟨hmid, hbound⟩
    · exact ha m d hold hfall threadId ht'
    · have he := Rows.eq_of_key hl.ids hm hrow (hmid.trans hid)
      rw [he] at hfall ht'
      have hmapped := hfits.resolve_left (not_not.mpr hfall) threadId ht'
      exact .inr ((hbound _ hthread).trans (congrArg some hmapped))
  · exact ha.calm (recordInTx_calm hl hq h)

theorem move_aligned (h : s.Safe past) (ha : s.ledger.Aligned) (hi : s.brokers[i]? = some b)
    (hfits : ∀ row ∈ b.pc.candidate, row.message.fallback ≠ .queue ∨
      ∀ threadId ∈ s.ledger.workerThreads.lookup b.target, b.threadId = threadId)
    (now leaseNs : Nat) (answer : Answer) : (s.move i b now leaseNs answer).ledger.Aligned := by
  have hb := h.brokers i b hi
  have hsame : ∀ l, (.ok s.ledger : Except HotJoinError Ledger) = .ok l → l.Aligned := by
    rintro l ⟨⟩
    exact ha
  unfold Routing.move
  cases hpc : b.pc with
  | reconciling rows reading =>
    cases rows with
    | nil => exact moved_aligned ha hsame
    | cons row rows => exact moved_aligned ha fun l hl => ha.calm (reconcileRow_calm h.sound hl)
  | idle => exact moved_aligned ha hsame
  | observed activeTurn =>
    simp only
    split
    · next l hc =>
      apply moved_aligned ha
      rintro _ ⟨⟩
      exact ha.calm (claim_calm h.sound hc).1
    · next row l hc =>
      apply moved_aligned ha
      rintro _ ⟨⟩
      exact ha.calm (claim_calm h.sound hc).1
    · apply moved_aligned ha
      rintro _ ⟨⟩
  | claimed row activeTurn =>
    have hrow : b.pc.candidate = some row := by
      rw [hpc]
      rfl
    obtain ⟨hm, htarget⟩ := hb.candidate row hrow
    have hfits' := hfits row hrow
    rw [← htarget] at hfits'
    cases activeTurn with
    | none =>
      refine recorded_aligned h.sound ha hm (Broker.withoutTurn_messageId row) ?_
        Broker.withoutTurn_queued hfits'
      simp only [Broker.withoutTurn]
      split <;> rfl
    | some activeTurn =>
      simp only
      split_ifs
      · exact recorded_aligned h.sound ha hm rfl rfl (fun hq => by cases hq) hfits'
      · exact ha
  | sent row activeTurn =>
    have hrow : b.pc.candidate = some row := by
      rw [hpc]
      rfl
    obtain ⟨hm, htarget⟩ := hb.candidate row hrow
    have hfits' := hfits row hrow
    rw [← htarget] at hfits'
    refine recorded_aligned h.sound ha hm (Broker.afterAnswer_messageId row answer) ?_
      Broker.afterAnswer_queued hfits'
    unfold Broker.afterAnswer
    cases answer with
    | result found =>
      simp only
      split_ifs <;> rfl
    | rejected detail =>
      simp only
      split_ifs <;> rfl
    | lost detail => rfl
  | stopped => exact ha

theorem step_aligned (h : s.Safe past) (ha : s.ledger.Aligned) {event : Event} (hf : s.Fits event) :
    (s.step event).ledger.Aligned := by
  cases event with
  | enqueue target body clientId fallback kind fresh now =>
    refine committed_aligned ha fun l hl => ?_
    obtain ⟨⟨row, l⟩, hr, rfl⟩ := map_ok.mp hl
    exact ha.calm (enqueue_calm h.sound hr)
  | enqueueEncouragement target note clientId fresh now =>
    refine committed_aligned ha fun l hl => ?_
    obtain ⟨⟨row, l⟩, hr, rfl⟩ := map_ok.mp hl
    exact ha.calm (enqueueEncouragement_calm h.sound hr).1
  | intents intents => exact ha.calm (h.sound.intents intents)
  | setThreadId target threadId =>
    refine committed_aligned ha fun l hl => ?_
    obtain ⟨_, hqueued, hthreads⟩ := setThreadId_follows h.sound hl
    intro m d hq hfall thread ht
    have hold := hqueued m d hq
    rcases hthreads m.target thread ht with hsame | ⟨htarget, rfl⟩
    · exact ha m d hold hfall thread hsame
    · have hthread := hf m hold.message d hold.delivery
      exact hthread.resolve_left (not_not.mpr ⟨hold.id, hold.state, hfall, htarget⟩)
  | removeThreadId target expected =>
    exact committed_aligned ha fun l hl => ha.calm (removeThreadId_calm h.sound hl)
  | completeTurn threadId turnId status now =>
    exact committed_aligned ha fun l hl => ha.calm (completeTurn_calm h.sound hl)
  | finalizeRound clientId threadId turnId status now =>
    exact committed_aligned ha fun l hl => ha.calm (finalizeRound_calm h.sound hl)
  | turn threadId activeTurn => exact ha
  | start target threadId owner reading => exact ha
  | move i now leaseNs answer =>
    simp only [Routing.step]
    cases hi : s.brokers[i]? with
    | none => exact ha
    | some b => exact move_aligned h ha hi (hf b hi) now leaseNs answer
  | stop i =>
    simp only [Routing.step]
    cases hi : s.brokers[i]? with
    | none => exact ha
    | some b => exact ha

end Routing

/-- In every run that moves no worker with queued messages to another thread, these can be claimed in the
worker's next turn, in the order of enqueueing. -/
theorem queued_not_stranded {s : Routing} {past : List Routing}
    (h : Routing.machine.History Routing.Fitting (s :: past)) : s.ledger.Serves := by
  have key : ∀ run, Routing.machine.History Routing.Fitting run → ∀ s past, run = s :: past →
      s.ledger.Aligned := by
    intro run hrun
    induction hrun with
    | start hs =>
      rintro s past ⟨⟩ m d hq
      rw [hs] at hq
      cases hq.message
    | step hpast hfits hstep ih =>
      rintro _ _ ⟨⟩
      rw [hstep]
      exact Routing.step_aligned (Routing.history_safe hpast) (ih _ _ rfl) hfits
  exact (key _ h _ _ rfl).serves (Routing.history_safe h).sound

/-- A message that comes when its worker has no turn is queued on the worker's thread. -/
def queuedOnThread : List Routing.Event :=
  let w := "w".toList
  let t := "t".toList
  [.move 0 5 9 (.lost []), .move 0 4 9 (.lost []), .move 0 3 9 (.lost []), .move 0 2 9 (.lost []),
    .enqueue w "hi".toList none .queue .message ⟨"m".toList, "c".toList⟩ 1,
    .start w t "o".toList (.read (some [])), .setThreadId w t]

/-- The round's terminal retires the thread, and the next round is on another one. -/
def retired : List Routing.Event :=
  let w := "w".toList
  let t := "t".toList
  [.turn "v".toList (some "u".toList), .start w "v".toList "p".toList (.read (some [])),
    .setThreadId w "v".toList, .finalizeRound "r".toList t "e".toList "completed".toList 6,
    .intents [⟨"r".toList, w, true, .started, some t, some "e".toList⟩], .stop 0] ++ queuedOnThread

theorem queued_not_stranded_once : (Routing.after queuedOnThread).ledger.Serves := by
  refine queued_not_stranded (Routing.after_history queuedOnThread ?_)
  have hfits : ∀ rest ∈ queuedOnThread.tails, ∀ event ∈ rest.head?, (Routing.after rest.tail).Fits event := by
    decide +kernel
  intro event rest hr
  exact hfits (event :: rest) ((List.mem_tails _ _).mpr hr) event rfl

/-- Queued on the retired thread, the message is claimed in no turn on the new one. -/
theorem queued_stranded :
    Routing.machine.History (fun _ _ => True) (Routing.after retired :: Routing.before retired) ∧
      ¬ (Routing.after retired).ledger.Serves := by
  refine ⟨Routing.after_history _ fun _ _ _ => trivial, fun h => ?_⟩
  have hmessage : ∃ m ∈ (Routing.after retired).ledger.messages,
      m.messageId = "m".toList ∧ m.target = "w".toList ∧ m.fallback = .queue := by
    decide +kernel
  have hdelivery : ∃ d ∈ (Routing.after retired).ledger.deliveries,
      d.messageId = "m".toList ∧ d.state = .queued ∧ d.threadId = some "t".toList ∧ d.turnId = none := by
    decide +kernel
  have hthread : (Routing.after retired).ledger.workerThreads.lookup "w".toList = some "v".toList := by
    decide +kernel
  obtain ⟨m, hm, hid, htarget, hfallback⟩ := hmessage
  obtain ⟨d, hd, hdid, hstate, hbound, hturn⟩ := hdelivery
  have hserved := (h m d ⟨hm, hd, hdid.trans hid.symm, hstate⟩ hfallback "v".toList
    (by rw [htarget]; exact hthread) "u".toList (by rw [hturn]; exact fun h => by cases h) [] 0 0).1
  simp only [ClaimArgs.selects, brokerClaim, Bool.and_eq_true] at hserved
  have hadmits := hserved.2
  rw [hbound] at hadmits
  revert hadmits
  decide

end Danus.HotJoin
