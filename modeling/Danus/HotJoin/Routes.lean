import Danus.HotJoin.ExactTurn

/-! The runs of a hot-join ledger with its brokers: what each broker goes by, and where encouragement may go. -/
namespace Danus.HotJoin
open Python Machines Checks

/-- The turn that a broker goes by. -/
def Pc.turn : Pc → Option PyStr
  | .observed activeTurn => activeTurn
  | .claimed _ activeTurn => activeTurn
  | .sent _ activeTurn => some activeTurn
  | _ => none

/-- The message that a broker has claimed. -/
def Pc.candidate : Pc → Option Row
  | .claimed row _ => some row
  | .sent row _ => some row
  | _ => none

/-- Before the newest state of the run a broker, idle then, found the turn active, and it has gone by this
turn since. -/
inductive Watched (i : Nat) (threadId turnId : PyStr) : List Routing → Prop
  | read {t u : Routing} {rest : List Routing} {b : Broker} : u.brokers[i]? = some b → b.pc = .idle →
      b.threadId = threadId → u.activeTurns threadId = some turnId → Watched i threadId turnId (t :: u :: rest)
  | wait {t u : Routing} {rest : List Routing} {b : Broker} : u.brokers[i]? = some b →
      b.pc.turn = some turnId → Watched i threadId turnId (u :: rest) →
      Watched i threadId turnId (t :: u :: rest)

structure Broker.Backed (l : Ledger) (run : List Routing) (i : Nat) (b : Broker) : Prop where
  watched : ∀ turnId, b.pc.turn = some turnId → Watched i b.threadId turnId run
  candidate : ∀ row, b.pc.candidate = some row → row.message ∈ l.messages ∧ row.message.target = b.target

/-- A sound ledger, and brokers that go by what they read and claimed. -/
structure Routing.Safe (past : List Routing) (s : Routing) : Prop where
  sound : s.ledger.Sound
  brokers : ∀ i (b : Broker), s.brokers[i]? = some b → b.Backed s.ledger (s :: past) i

variable {s t : Routing} {past : List Routing} {l l' : Ledger} {b : Broker} {i : Nat} {pc : Pc} {m : Message}
  {threadId turnId : PyStr}

/-- A broker that stands where it stood. -/
theorem Broker.Backed.next (h : b.Backed l (s :: past) i) (hi : s.brokers[i]? = some b)
    (hk : ∀ m ∈ l.messages, m ∈ l'.messages) : b.Backed l' (t :: s :: past) i := by
  refine ⟨fun turnId ht => ?_, fun row hr => ?_⟩
  · exact .wait hi ht (h.watched turnId ht)
  · obtain ⟨hm, htarget⟩ := h.candidate row hr
    exact ⟨hk _ hm, htarget⟩

/-- A broker that goes by no turn and holds no message. -/
theorem Broker.backed_of_none {run : List Routing} (ht : b.pc.turn = none) (hc : b.pc.candidate = none) :
    b.Backed l run i := by
  refine ⟨fun turnId h => ?_, fun row h => ?_⟩
  · rw [ht] at h
    cases h
  · rw [hc] at h
    cases h

namespace Routing

/-- A step that leaves the brokers where they are. -/
theorem Safe.keep (h : s.Safe past) (hb : t.brokers = s.brokers) (hl : s.ledger.Follows t.ledger) :
    t.Safe (s :: past) := by
  refine ⟨hl.sound, fun i b hi => ?_⟩
  rw [hb] at hi
  exact (h.brokers i b hi).next hi hl.kept

theorem Safe.committed (h : s.Safe past) {r : Except HotJoinError Ledger}
    (hr : ∀ l, r = .ok l → s.ledger.Follows l) : (s.committed r).Safe (s :: past) := by
  unfold Routing.committed
  split
  · next l => exact h.keep rfl (hr l rfl)
  · exact h.keep rfl h.sound.calm.toFollows

/-- A step of one broker. -/
theorem Safe.set (h : s.Safe past) (b' : Broker) (hl : s.ledger.Follows t.ledger)
    (hb : t.brokers = s.brokers.set i b') (hb' : b'.Backed t.ledger (t :: s :: past) i) :
    t.Safe (s :: past) := by
  refine ⟨hl.sound, fun j c hj => ?_⟩
  rw [hb, List.getElem?_set] at hj
  split_ifs at hj with hij
  · cases hj
    rw [← hij]
    exact hb'
  · exact (h.brokers j c hj).next hj hl.kept

theorem Safe.moved (h : s.Safe past) {r : Except HotJoinError Ledger}
    (hr : ∀ l, r = .ok l → s.ledger.Follows l ∧
      { b with pc := pc }.Backed l (s.moved i b pc r :: s :: past) i) :
    (s.moved i b pc r).Safe (s :: past) := by
  unfold Routing.moved at hr ⊢
  split
  · next l =>
    obtain ⟨hf, hb⟩ := hr l rfl
    exact h.set _ hf rfl hb
  · exact h.set _ h.sound.calm.toFollows rfl (Broker.backed_of_none rfl rfl)

/-- A broker's receipt ends its turn of the loop. -/
theorem Safe.recorded (h : s.Safe past) {r : Record} {now : Nat}
    (hr : r.state = .queued → ∀ m ∈ s.ledger.messages, m.messageId = r.messageId → m.exact = false) :
    (s.moved i b .idle (s.ledger.recordInTx r now)).Safe (s :: past) := by
  apply h.moved
  intro l hl
  refine ⟨?_, Broker.backed_of_none rfl rfl⟩
  by_cases hq : r.state = .queued
  · exact (recordInTx_queued h.sound (hr hq) hl).1
  · exact (recordInTx_calm h.sound hq hl).toFollows

end Routing

/-- The receipt of an exact message never queues it. -/
theorem Broker.Backed.receipt_exact (hl : l.Sound) {row : Row}
    (hb : row.message ∈ l.messages) (hfail : row.message.fallback ≠ .fail) :
    ∀ m ∈ l.messages, m.messageId = row.message.messageId → m.exact = false := by
  intro m hm hid
  have he := Rows.eq_of_key hl.ids hm hb hid
  cases hx : m.exact with
  | false => rfl
  | true =>
    rw [he] at hx hm
    exact (hfail (hl.exact _ hm hx).2.1).elim

theorem Broker.withoutTurn_queued {row : Row} (h : (b.withoutTurn row).state = .queued) :
    row.message.fallback ≠ .fail := by
  unfold Broker.withoutTurn at h
  split_ifs at h with hc
  · cases h
  · exact fun hf => hc (.inl hf)

theorem Broker.afterAnswer_queued {row : Row} {answer : Answer}
    (h : (b.afterAnswer row turnId answer).state = .queued) : row.message.fallback ≠ .fail := by
  unfold Broker.afterAnswer at h
  cases answer with
  | result found =>
    simp only at h
    split_ifs at h <;> cases h
  | rejected detail =>
    simp only at h
    split_ifs at h with hc
    · rw [hc.1]
      exact Fallback.noConfusion
    · cases h
  | lost detail => cases h

theorem Broker.withoutTurn_messageId (row : Row) :
    (b.withoutTurn row).messageId = row.message.messageId := by
  unfold Broker.withoutTurn
  split <;> rfl

theorem Broker.afterAnswer_messageId (row : Row) (answer : Answer) :
    (b.afterAnswer row turnId answer).messageId = row.message.messageId := by
  unfold Broker.afterAnswer
  cases answer with
  | result found =>
    simp only
    split_ifs <;> rfl
  | rejected detail =>
    simp only
    split_ifs <;> rfl
  | lost detail => rfl

namespace Routing

theorem Safe.move (h : s.Safe past) (hi : s.brokers[i]? = some b) (now leaseNs : Nat) (answer : Answer) :
    (s.move i b now leaseNs answer).Safe (s :: past) := by
  have hb := h.brokers i b hi
  have hsame : ∀ l, (.ok s.ledger : Except HotJoinError Ledger) = .ok l → s.ledger.Follows l := by
    rintro l ⟨⟩
    exact h.sound.calm.toFollows
  unfold Routing.move
  cases hpc : b.pc with
  | reconciling rows reading =>
    cases rows with
    | nil => exact h.moved fun l hl => ⟨hsame l hl, Broker.backed_of_none rfl rfl⟩
    | cons row rows =>
      exact h.moved fun l hl => ⟨(reconcileRow_calm h.sound hl).toFollows, Broker.backed_of_none rfl rfl⟩
  | idle =>
    refine h.moved fun l hl => ⟨hsame l hl, ⟨fun turnId ht => ?_, fun row hr => ?_⟩⟩
    · exact .read hi hpc rfl ht
    · cases hr
  | observed activeTurn =>
    simp only
    split
    · next l hc =>
      apply h.moved
      rintro _ ⟨⟩
      exact ⟨(claim_calm h.sound hc).1.toFollows, Broker.backed_of_none rfl rfl⟩
    · next row l hc =>
      obtain ⟨hcalm, hrow⟩ := claim_calm h.sound hc
      apply h.moved
      rintro _ ⟨⟩
      refine ⟨hcalm.toFollows, ⟨fun turnId ht => ?_, ?_⟩⟩
      · have hturn : b.pc.turn = some turnId := by
          rw [hpc]
          exact ht
        exact .wait hi hturn (hb.watched turnId hturn)
      · rintro _ ⟨⟩
        exact hrow row rfl
    · apply h.moved
      rintro _ ⟨⟩
  | claimed row activeTurn =>
    obtain ⟨hm, htarget⟩ := hb.candidate row (by rw [hpc]; rfl)
    cases activeTurn with
    | none =>
      refine h.recorded fun hq => ?_
      rw [Broker.withoutTurn_messageId]
      exact Broker.Backed.receipt_exact h.sound hm (Broker.withoutTurn_queued hq)
    | some activeTurn =>
      simp only
      split_ifs
      · refine h.recorded fun hq => ?_
        cases hq
      · refine h.set { b with pc := .sent row activeTurn } h.sound.calm.toFollows rfl
          ⟨fun turnId ht => ?_, ?_⟩
        · have hturn : b.pc.turn = some turnId := by
            rw [hpc]
            exact ht
          exact .wait hi hturn (hb.watched turnId hturn)
        · rintro _ ⟨⟩
          exact ⟨hm, htarget⟩
  | sent row activeTurn =>
    obtain ⟨hm, _⟩ := hb.candidate row (by rw [hpc]; rfl)
    refine h.recorded fun hq => ?_
    rw [Broker.afterAnswer_messageId]
    exact Broker.Backed.receipt_exact h.sound hm (Broker.afterAnswer_queued hq)
  | stopped => exact h.keep rfl h.sound.calm.toFollows

theorem Safe.step (h : s.Safe past) (event : Event) : (s.step event).Safe (s :: past) := by
  cases event with
  | enqueue target body clientId fallback kind fresh now =>
    refine h.committed fun l hl => ?_
    obtain ⟨⟨row, l⟩, hr, rfl⟩ := map_ok.mp hl
    exact (enqueue_calm h.sound hr).toFollows
  | enqueueEncouragement target note clientId fresh now =>
    refine h.committed fun l hl => ?_
    obtain ⟨⟨row, l⟩, hr, rfl⟩ := map_ok.mp hl
    exact (enqueueEncouragement_calm h.sound hr).1.toFollows
  | intents intents =>
    exact h.keep rfl (h.sound.intents intents).toFollows
  | setThreadId target threadId => exact h.committed fun l hl => (setThreadId_follows h.sound hl).1
  | removeThreadId target expected => exact h.committed fun l hl => (removeThreadId_calm h.sound hl).toFollows
  | completeTurn threadId turnId status now => exact h.committed fun l hl => (completeTurn_calm h.sound hl).toFollows
  | finalizeRound clientId threadId turnId status now =>
    exact h.committed fun l hl => (finalizeRound_calm h.sound hl).toFollows
  | turn threadId activeTurn => exact h.keep rfl h.sound.calm.toFollows
  | start target threadId owner reading =>
    refine ⟨h.sound, fun i b hi => ?_⟩
    rcases Nat.lt_or_ge i s.brokers.length with hlt | hge
    · have hold : s.brokers[i]? = some b := by
        rw [← hi]
        exact (List.getElem?_append_left hlt).symm
      exact (h.brokers i b hold).next hold fun _ hm => hm
    · have hb : b ∈ [(⟨target, threadId, owner,
          .reconciling (recoveryForTarget s.ledger target) reading⟩ : Broker)] := by
        apply List.mem_of_getElem? (i := i - s.brokers.length)
        rw [← hi]
        exact (List.getElem?_append_right hge).symm
      rw [List.mem_singleton] at hb
      subst hb
      exact Broker.backed_of_none rfl rfl
  | move i now leaseNs answer =>
    simp only [Routing.step]
    cases hi : s.brokers[i]? with
    | none => exact h.keep rfl h.sound.calm.toFollows
    | some b => exact h.move hi now leaseNs answer
  | stop i =>
    simp only [Routing.step]
    cases hi : s.brokers[i]? with
    | none => exact h.keep rfl h.sound.calm.toFollows
    | some b => exact h.set _ h.sound.calm.toFollows rfl (Broker.backed_of_none rfl rfl)

theorem initial_sound : initial.ledger.Sound where
  ids := .nil
  deliveryIds := .nil
  targets _ hm := by cases hm
  exact _ hm := by cases hm
  queued _ _ hq := by cases hq.message

theorem initial_safe : initial.Safe [] := ⟨initial_sound, fun i b hi => by cases hi⟩

variable {ok : List Routing → Event → Prop} {run : List Routing}

theorem history_safe (h : machine.History ok (s :: past)) : s.Safe past := by
  have key : ∀ run, machine.History ok run → ∀ s past, run = s :: past → s.Safe past := by
    intro run hrun
    induction hrun with
    | start hs =>
      rintro _ _ ⟨⟩
      rw [hs]
      exact initial_safe
    | step _ _ hstep ih =>
      rintro _ _ ⟨⟩
      rw [hstep]
      exact (ih _ _ rfl).step _
  exact key _ h _ _ rfl

/-- The state after some events, the newest first. -/
def after : List Event → Routing
  | [] => initial
  | event :: events => (after events).step event

/-- The states before it. -/
def before : List Event → List Routing
  | [] => []
  | _ :: events => after events :: before events

theorem after_history (events : List Event)
    (h : ∀ event rest, event :: rest <:+ events → ok (after rest :: before rest) event) :
    machine.History ok (after events :: before events) := by
  induction events with
  | nil => exact .start rfl
  | cons event events ih =>
    refine .step (ih fun e rest hr => h e rest (hr.trans (List.suffix_cons event events))) ?_ rfl
    exact h event events (List.suffix_refl _)

/-- What a step sends, a broker sends for the message it claimed. -/
theorem step_sent (s : Routing) (event : Event) :
    (s.step event).sent = s.sent ∨ ∃ (i : Nat) (b : Broker) (row : Row) (activeTurn : PyStr),
      s.brokers[i]? = some b ∧
      b.pc = .claimed row (some activeTurn) ∧ b.bindingGone row.message activeTurn = false ∧
      (s.step event).ledger = s.ledger ∧ (s.step event).sent = s.sent ++ [⟨row.message.messageId, b.request row.message activeTurn⟩] := by
  have hmoved : ∀ i b pc l, (s.moved i b pc l).sent = s.sent := by
    intro i b pc l
    unfold Routing.moved
    split <;> rfl
  have hcommitted : ∀ l, (s.committed l).sent = s.sent := by
    intro l
    unfold Routing.committed
    split <;> rfl
  cases event with
  | enqueue => exact .inl (hcommitted _)
  | enqueueEncouragement => exact .inl (hcommitted _)
  | setThreadId => exact .inl (hcommitted _)
  | removeThreadId => exact .inl (hcommitted _)
  | completeTurn => exact .inl (hcommitted _)
  | finalizeRound => exact .inl (hcommitted _)
  | intents => exact .inl rfl
  | turn => exact .inl rfl
  | start => exact .inl rfl
  | stop i =>
    left
    simp only [Routing.step]
    split <;> rfl
  | move i now leaseNs answer =>
    simp only [Routing.step]
    cases hi : s.brokers[i]? with
    | none => exact .inl rfl
    | some b =>
      simp only
      unfold Routing.move
      cases hpc : b.pc with
      | reconciling rows reading =>
        cases rows with
        | nil => exact .inl (hmoved _ _ _ _)
        | cons => exact .inl (hmoved _ _ _ _)
      | idle => exact .inl (hmoved _ _ _ _)
      | observed activeTurn =>
        left
        simp only
        split <;> exact hmoved _ _ _ _
      | claimed row activeTurn =>
        cases activeTurn with
        | none => exact .inl (hmoved _ _ _ _)
        | some activeTurn =>
          cases hgone : b.bindingGone row.message activeTurn with
          | true =>
            simp only [hgone, if_true]
            exact .inl (hmoved _ _ _ _)
          | false =>
            right
            exact ⟨i, b, row, activeTurn, hi, hpc, hgone, by simp [hgone], by simp [hgone]⟩
      | sent row activeTurn => exact .inl (hmoved _ _ _ _)
      | stopped => exact .inl rfl

end Routing

/-- A candidate whose binding stands is bound to the broker's thread and turn. -/
theorem Broker.binding_stands (h : b.bindingGone m turnId = false) (hx : m.exact = true) :
    m.kind = .message ∧ m.expectedThreadId = some b.threadId ∧ m.expectedTurnId = some turnId := by
  unfold Broker.bindingGone at h
  rw [Message.exact] at hx
  simp only [hx, Bool.true_and, Bool.or_eq_false_iff, decide_eq_false_iff_not, not_not] at h
  exact ⟨h.1.1.2, h.1.2, h.2⟩

/-- In every run, a message bound to a thread and a turn waits for no later turn; and whatever a step sends
for such a message is a steer of that turn on that thread, by a broker that found the turn active when its
turn of the loop began and has gone by it since. -/
theorem encouragement_exact_turn {ok : List Routing → Routing.Event → Prop} (event : Routing.Event)
    (h : Routing.machine.History ok (s :: past)) :
    (∀ m d, s.ledger.Queued m d → m.expectedThreadId = none ∧ m.expectedTurnId = none) ∧
    (∀ target note clientId fresh now row l,
      enqueueEncouragement s.ledger target note clientId fresh now = .ok (row, l) →
        row.message ∈ l.messages ∧ row.message.exact = true ∧ l.Sound) ∧
    ((s.step event).sent = s.sent ∨ ∃ messageId rpc, (s.step event).sent = s.sent ++ [⟨messageId, rpc⟩] ∧
      ∀ m ∈ (s.step event).ledger.messages, m.messageId = messageId → m.exact = true →
        ∃ threadId turnId, m.expectedThreadId = some threadId ∧ m.expectedTurnId = some turnId ∧
          rpc = .steer threadId turnId m.body (clientMessageId m.messageId) ∧
          ∃ i, Watched i threadId turnId (s :: past)) := by
  have hs := Routing.history_safe h
  refine ⟨fun m d hq => ?_, fun target note clientId fresh now row l hl => ?_, ?_⟩
  · have hx := hs.sound.queued m d hq
    rw [Message.exact, Bool.or_eq_false_iff] at hx
    exact ⟨Option.not_isSome_iff_eq_none.mp (by simp [hx.1]), Option.not_isSome_iff_eq_none.mp (by simp [hx.2])⟩
  · obtain ⟨hcalm, hm, hx⟩ := enqueueEncouragement_calm hs.sound hl
    exact ⟨hm, hx, hcalm.sound⟩
  · rcases Routing.step_sent s event with hsame | ⟨i, b, row, activeTurn, hi, hpc, hgone, hledger, hsent⟩
    · exact .inl hsame
    · refine .inr ⟨_, _, hsent, fun m hm hid hx => ?_⟩
      have hb := hs.brokers i b hi
      obtain ⟨hrow, _⟩ := hb.candidate row (by rw [hpc]; rfl)
      rw [hledger] at hm
      have he := Rows.eq_of_key hs.sound.ids hm hrow hid
      rw [he] at hx ⊢
      obtain ⟨hkind, hthread, hturn⟩ := Broker.binding_stands hgone hx
      refine ⟨b.threadId, activeTurn, hthread, hturn, ?_, i, hb.watched activeTurn (by rw [hpc]; rfl)⟩
      rw [Broker.request, if_neg]
      rw [hkind]
      exact MessageKind.noConfusion

/-- A turn starts, and the encouragement enqueued for it is claimed. -/
def encouraged : List Routing.Event :=
  let w := "w".toList
  let t := "t".toList
  let u := "u".toList
  [.move 0 5 9 (.lost []), .move 0 4 9 (.lost []), .move 0 3 9 (.lost []),
    .enqueueEncouragement w "go".toList none ⟨"m".toList, "c".toList⟩ 2,
    .start w t "o".toList (.read none), .turn t (some u),
    .intents [⟨"r".toList, w, false, .started, some t, some u⟩], .setThreadId w t]

theorem encouragement_exact_turn_sent :
    ∃ messageId rpc, ((Routing.after encouraged).step (.move 0 6 9 (.lost []))).sent =
        (Routing.after encouraged).sent ++ [⟨messageId, rpc⟩] ∧
      ∀ m ∈ ((Routing.after encouraged).step (.move 0 6 9 (.lost []))).ledger.messages,
        m.messageId = messageId → m.exact = true →
          ∃ threadId turnId, m.expectedThreadId = some threadId ∧ m.expectedTurnId = some turnId ∧
            rpc = .steer threadId turnId m.body (clientMessageId m.messageId) ∧
            ∃ i, Watched i threadId turnId (Routing.after encouraged :: Routing.before encouraged) := by
  have hrun : Routing.machine.History (fun _ _ => True)
      (Routing.after encouraged :: Routing.before encouraged) :=
    Routing.after_history encouraged fun _ _ _ => trivial
  rcases (encouragement_exact_turn (.move 0 6 9 (.lost [])) hrun).2.2 with h | h
  · exfalso
    have hlength := congrArg List.length h
    revert hlength
    decide +kernel
  · exact h

/-- The turn ends after the claim: the steer for it is sent all the same. -/
theorem encouragement_sent_late :
    Routing.machine.History (fun _ _ => True)
        (Routing.after (.turn "t".toList none :: encouraged) ::
          Routing.before (.turn "t".toList none :: encouraged)) ∧
      (Routing.after (.turn "t".toList none :: encouraged)).activeTurns "t".toList = none ∧
      (((Routing.after (.turn "t".toList none :: encouraged)).step (.move 0 6 9 (.lost []))).sent.map fun r =>
        match r.rpc with
        | .steer threadId turnId _ _ => (r.messageId, threadId, turnId)
        | .interrupt threadId turnId => ([], threadId, turnId)) =
          [("m".toList, "t".toList, "u".toList)] ∧
      ((Routing.after (.turn "t".toList none :: encouraged)).ledger.messages.map fun m =>
        (m.messageId, m.expectedThreadId, m.expectedTurnId)) =
          [("m".toList, some "t".toList, some "u".toList)] := by
  refine ⟨Routing.after_history _ fun _ _ _ => trivial, ?_, ?_, ?_⟩ <;> decide +kernel

end Danus.HotJoin
