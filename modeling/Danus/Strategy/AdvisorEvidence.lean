import Danus.Strategy.AdvisorDeaths
import Danus.Strategy.AdvisorWrites
import Mathlib.Logic.Relation

/-! Browser evidence is write-once: what a request has recorded stays, as long as no second submission
brings another conversation for a delivery that was marked unknown. -/
namespace Danus.Strategy
open Python Machines Checks

/-- The transitions of a request that the state machine's documentation has. -/
inductive Documented : RequestState → RequestState → Prop where
  | authorize : Documented .prepared .authorized
  | dispatch : Documented .authorized .dispatching
  | submit : Documented .dispatching .submitted
  | complete : Documented .submitted .completed
  | ask : Documented .submitted .needsUserInput
  | «import» : Documented .completed .imported
  | adopt : Documented .imported .adopted
  | fail {s} : s = .authorized ∨ s = .dispatching → Documented s .failedNotSubmitted
  | lose {s} : s = .dispatching ∨ s = .submitted → Documented s .deliveryUnknown
  | reconcile {t} : t = .submitted ∨ t = .completed ∨ t = .needsUserInput → Documented .deliveryUnknown t
  | give_up {s} : s = .dispatching ∨ s = .submitted ∨ s = .deliveryUnknown →
      Documented s .ownerAbandonedOutcomeUnknown
  | abandon {s} : s = .prepared ∨ s = .authorized → Documented s .abandoned

/-- A terminal state is left for import and adoption only. -/
inductive Documented.Stays : RequestState → RequestState → Prop where
  | refl {s} : Stays s s
  | imported : Stays .completed .imported
  | adopted {s} : s = .completed ∨ s = .imported → Stays s .adopted

namespace RequestState

/-- A response was recorded. -/
def answered : RequestState → Bool
  | .completed | .needsUserInput | .imported | .adopted => true
  | _ => false

/-- The request was closed without a response. -/
def closed : RequestState → Bool
  | .failedNotSubmitted | .abandoned | .ownerAbandonedOutcomeUnknown => true
  | _ => false

/-- No conversation can have been observed. -/
def unobserved : RequestState → Bool
  | .prepared | .authorized | .dispatching => true
  | _ => false

end RequestState

theorem Documented.stays {s t : RequestState} (h : Relation.ReflTransGen Documented s t)
    (hs : s = .completed ∨ s.terminal = true) : Documented.Stays s t := by
  induction h with
  | refl => exact .refl
  | tail _ hstep ih =>
    cases ih with
    | refl =>
      cases hstep with
      | «import» => exact .imported
      | adopt => exact .adopted (.inr rfl)
      | fail h => rcases h with rfl | rfl <;> simp [RequestState.terminal] at hs
      | lose h => rcases h with rfl | rfl <;> simp [RequestState.terminal] at hs
      | give_up h => rcases h with rfl | rfl | rfl <;> simp [RequestState.terminal] at hs
      | abandon h => rcases h with rfl | rfl <;> simp [RequestState.terminal] at hs
      | _ => simp [RequestState.terminal] at hs
    | imported =>
      cases hstep with
      | adopt => exact .adopted (.inl rfl)
      | fail h => rcases h with h | h <;> cases h
      | lose h => rcases h with h | h <;> cases h
      | give_up h => rcases h with h | h | h <;> cases h
      | abandon h => rcases h with h | h <;> cases h
    | adopted h =>
      cases hstep with
      | fail h => rcases h with h | h <;> cases h
      | lose h => rcases h with h | h <;> cases h
      | give_up h => rcases h with h | h | h <;> cases h
      | abandon h => rcases h with h | h <;> cases h

/-- A recorded value is there later, and the same. -/
def Once {α : Type} (old new : Option α) : Prop := ∀ v, old = some v → new = some v

theorem Once.refl {α : Type} (a : Option α) : Once a a := fun _ h => h

theorem Once.trans {α : Type} {a b c : Option α} (h : Once a b) (h' : Once b c) : Once a c :=
  fun v hv => h' v (h v hv)

theorem Once.of_none {α : Type} {a b : Option α} (h : a = none) : Once a b := by
  intro v hv
  rw [h] at hv
  cases hv

/-- The evidence of a request that a run leaves as it is. -/
structure Kept (old new : Request) : Prop where
  binding : new.bindingSha256 = old.bindingSha256
  scope : Once old.authorizationScopeSha256 new.authorizationScopeSha256
  token : Once old.preClickTokenSha256 new.preClickTokenSha256
  url : Once old.conversationUrlSha256 new.conversationUrlSha256
  reply : Once old.replySha256 new.replySha256
  reason : Once old.terminalReasonSha256 new.terminalReasonSha256
  strategy : Once old.adoptedStrategySha256 new.adoptedStrategySha256

theorem Kept.refl (row : Request) : Kept row row :=
  ⟨rfl, .refl _, .refl _, .refl _, .refl _, .refl _, .refl _⟩

theorem Kept.trans {a b c : Request} (h : Kept a b) (h' : Kept b c) : Kept a c :=
  ⟨h'.binding.trans h.binding, h.scope.trans h'.scope, h.token.trans h'.token, h.url.trans h'.url,
    h.reply.trans h'.reply, h.reason.trans h'.reason, h.strategy.trans h'.strategy⟩

/-- Nothing is recorded before the state that records it. -/
structure Request.Timely (row : Request) : Prop where
  scope : row.state = .prepared → row.authorizationScopeSha256 = none
  token : row.state = .prepared ∨ row.state = .authorized → row.preClickTokenSha256 = none
  url : row.state.unobserved = true → row.conversationUrlSha256 = none
  reply : row.state.answered = false → row.replySha256 = none
  reason : row.state.closed = false → row.terminalReasonSha256 = none
  strategy : row.state ≠ .adopted → row.adoptedStrategySha256 = none

/-- No second submission brings another conversation for a delivery that was marked unknown. -/
def Ledger.Steady (l : Ledger) : Event → Prop
  | .operate requestId _ (.submitted _ _ _ url) => ∀ row ∈ l.requests, row.requestId = requestId →
      row.state = .deliveryUnknown → row.conversationUrlSha256 = none ∨
        row.conversationUrlSha256 = some (sha256Text url)
  | _ => True

section Writes
variable {l : Ledger} {old new : Request} {op : Operation}

theorem Ledger.Writes.documented (h : l.Writes old op new) : Documented old.state new.state := by
  cases h with
  | authorize _ hs => exact hs ▸ .authorize
  | dispatch _ _ _ hs => exact hs ▸ .dispatch
  | submitted _ hs =>
    rcases hs with hs | hs
    · exact hs ▸ .submit
    · exact hs ▸ .reconcile (.inl rfl)
  | @finish target _ _ _ _ _ _ _ hs _ =>
    cases target with
    | completed =>
      rcases hs with hs | hs
      · exact hs ▸ .complete
      · exact hs ▸ .reconcile (.inr (.inl rfl))
    | needsUserInput =>
      rcases hs with hs | hs
      · exact hs ▸ .ask
      · exact hs ▸ .reconcile (.inr (.inr rfl))
  | recover _ hs => exact .lose hs
  | failNotSubmitted _ hs => exact .fail hs
  | abandon _ hs =>
    cases hst : old.state with
    | prepared => exact .abandon (.inl rfl)
    | authorized => exact .abandon (.inr rfl)
    | dispatching => exact .give_up (.inl rfl)
    | submitted => exact .give_up (.inr (.inl rfl))
    | deliveryUnknown => exact .give_up (.inr (.inr rfl))
    | _ => simp [hst, RequestState.ambiguous] at hs
  | importCommit _ hs => exact hs ▸ .import
  | adopt _ _ hs => exact hs ▸ .adopt

theorem Ledger.Writes.timely (h : l.Writes old op new) (ht : old.Timely) : new.Timely := by
  cases h with
  | authorize _ hs =>
    exact {
      scope := fun h => by cases h
      token := fun _ => ht.token (.inl hs)
      url := fun _ => ht.url (by rw [hs]; rfl)
      reply := fun _ => ht.reply (by rw [hs]; rfl)
      reason := fun _ => ht.reason (by rw [hs]; rfl)
      strategy := fun _ => ht.strategy (by simp [hs]) }
  | dispatch _ _ _ hs =>
    exact {
      scope := fun h => by cases h
      token := fun h => by rcases h with h | h <;> cases h
      url := fun _ => ht.url (by rw [hs]; rfl)
      reply := fun _ => ht.reply (by rw [hs]; rfl)
      reason := fun _ => ht.reason (by rw [hs]; rfl)
      strategy := fun _ => ht.strategy (by simp [hs]) }
  | submitted _ hs =>
    exact {
      scope := fun h => by cases h
      token := fun h => by rcases h with h | h <;> cases h
      url := fun h => by cases h
      reply := fun _ => ht.reply (by rcases hs with hs | hs <;> rw [hs] <;> rfl)
      reason := fun _ => ht.reason (by rcases hs with hs | hs <;> rw [hs] <;> rfl)
      strategy := fun _ => ht.strategy (by rcases hs with hs | hs <;> simp [hs]) }
  | @finish target _ _ _ _ _ _ _ hs _ =>
    exact {
      scope := fun h => by cases target <;> cases h
      token := fun h => by cases target <;> rcases h with h | h <;> cases h
      url := fun h => by cases target <;> cases h
      reply := fun h => by cases target <;> cases h
      reason := fun _ => ht.reason (by rcases hs with hs | hs <;> rw [hs] <;> rfl)
      strategy := fun _ => ht.strategy (by rcases hs with hs | hs <;> simp [hs]) }
  | recover _ hs =>
    exact {
      scope := fun h => by cases h
      token := fun h => by rcases h with h | h <;> cases h
      url := fun h => by cases h
      reply := fun _ => ht.reply (by rcases hs with hs | hs <;> rw [hs] <;> rfl)
      reason := fun _ => ht.reason (by rcases hs with hs | hs <;> rw [hs] <;> rfl)
      strategy := fun _ => ht.strategy (by rcases hs with hs | hs <;> simp [hs]) }
  | failNotSubmitted _ hs =>
    exact {
      scope := fun h => by cases h
      token := fun h => by rcases h with h | h <;> cases h
      url := fun h => by cases h
      reply := fun _ => ht.reply (by rcases hs with hs | hs <;> rw [hs] <;> rfl)
      reason := fun h => by cases h
      strategy := fun _ => ht.strategy (by rcases hs with hs | hs <;> simp [hs]) }
  | abandon _ hs =>
    have hfrom : old.state.answered = false := by
      cases hst : old.state <;> simp_all [RequestState.ambiguous, RequestState.answered]
    have hnot : old.state ≠ .adopted := by
      intro he
      rw [he] at hfrom
      cases hfrom
    exact {
      scope := fun h => by cases hb : old.state.ambiguous <;> simp [hb] at h
      token := fun h => by cases hb : old.state.ambiguous <;> simp [hb] at h
      url := fun h => by cases hb : old.state.ambiguous <;> simp [hb, RequestState.unobserved] at h
      reply := fun _ => ht.reply hfrom
      reason := fun h => by cases hb : old.state.ambiguous <;> simp [hb, RequestState.closed] at h
      strategy := fun _ => ht.strategy hnot }
  | importCommit _ hs =>
    exact {
      scope := fun h => by cases h
      token := fun h => by rcases h with h | h <;> cases h
      url := fun h => by cases h
      reply := fun h => by cases h
      reason := fun _ => ht.reason (by rw [hs]; rfl)
      strategy := fun _ => ht.strategy (by simp [hs]) }
  | adopt _ _ hs =>
    exact {
      scope := fun h => by cases h
      token := fun h => by rcases h with h | h <;> cases h
      url := fun h => by cases h
      reply := fun h => by cases h
      reason := fun _ => ht.reason (by rw [hs]; rfl)
      strategy := fun h => (h rfl).elim }

/-- A write keeps what is recorded, a submission if it brings the recorded conversation. -/
theorem Ledger.Writes.kept (h : l.Writes old op new) (ht : old.Timely)
    (hurl : ∀ observed uiMode full url, op = .submitted observed uiMode full url →
      old.state = .deliveryUnknown → old.conversationUrlSha256 = none ∨
        old.conversationUrlSha256 = some (sha256Text url)) : Kept old new := by
  have hsame : ∀ {url : PyStr}, old.conversationUrlSha256 = none ∨
      old.conversationUrlSha256 = some (sha256Text url) →
        Once old.conversationUrlSha256 (some (sha256Text url)) := by
    rintro url (hn | hs)
    · exact .of_none hn
    · rw [hs]
      exact .refl _
  have hkept := Kept.refl old
  cases h with
  | authorize _ hs => exact { hkept with scope := .of_none (ht.scope hs) }
  | dispatch _ _ _ hs => exact { hkept with token := .of_none (ht.token (.inr hs)) }
  | submitted _ hs =>
    refine { hkept with url := hsame ?_ }
    rcases hs with hs | hs
    · exact .inl (ht.url (by rw [hs]; rfl))
    · exact hurl _ _ _ _ rfl hs
  | finish _ _ _ hs hconversation =>
    refine { hkept with url := hsame hconversation, reply := .of_none (ht.reply ?_) }
    rcases hs with hs | hs <;> rw [hs] <;> rfl
  | recover _ _ => exact ⟨rfl, hkept.scope, hkept.token, hkept.url, hkept.reply, hkept.reason, hkept.strategy⟩
  | failNotSubmitted _ hs =>
    refine { hkept with reason := .of_none (ht.reason ?_) }
    rcases hs with hs | hs <;> rw [hs] <;> rfl
  | abandon _ hs =>
    refine { hkept with reason := .of_none (ht.reason ?_) }
    rcases hs with hs | hs | hs
    · cases hst : old.state <;> simp_all [RequestState.ambiguous, RequestState.closed]
    · rw [hs]
      rfl
    · rw [hs]
      rfl
  | importCommit _ _ => exact ⟨rfl, hkept.scope, hkept.token, hkept.url, hkept.reply, hkept.reason, hkept.strategy⟩
  | adopt _ _ hs =>
    exact { hkept with strategy := .of_none (ht.strategy (by simp [hs])) }

end Writes
section Runs
variable [Patterns] {projectDir : PyStr} {s : Advisor} {past : List Advisor}

/-- One step's row of a request. -/
theorem Advisor.step_row (hs : s.Safe) (ht : ∀ row ∈ s.ledger.requests, row.Timely) (event : Event)
    {row : Request} (hrow : row ∈ s.ledger.requests) :
    ∃ row' ∈ (s.step event).ledger.requests, row'.requestId = row.requestId ∧
      (row'.state = row.state ∨ Documented row.state row'.state) ∧
      (s.ledger.Steady event → Kept row row') := by
  rcases Advisor.step_changes hs event with he | ⟨a, authority, requestId, now, new, _, _, he⟩ |
    ⟨requestId, op, hop, old, new, hold, hw, he⟩
  · exact ⟨row, he ▸ hrow, rfl, .inl rfl, fun _ => .refl row⟩
  · refine ⟨row, ?_, rfl, .inl rfl, fun _ => .refl row⟩
    rw [he]
    exact List.mem_append_left _ hrow
  · obtain ⟨hmem, hid⟩ := getInTx_mem hold
    have hkey : old.requestId = new.requestId := (congrArg Request.requestId hw.identity :).symm
    rw [he]
    apply Rows.exists_set_of_mem hs.ledger.requestIds hmem hkey
      (R := fun row row' => row'.requestId = row.requestId ∧
        (row'.state = row.state ∨ Documented row.state row'.state) ∧ (s.ledger.Steady event → Kept row row'))
    · exact fun row => ⟨rfl, .inl rfl, fun _ => .refl row⟩
    · refine ⟨hkey.symm, .inr hw.documented, fun hsteady => hw.kept (ht old hmem) ?_⟩
      rintro observed uiMode full url rfl hunknown
      cases hop
      exact hsteady old hmem hid hunknown
    · exact hrow

theorem Advisor.step_timely (hs : s.Safe) (ht : ∀ row ∈ s.ledger.requests, row.Timely) (event : Event) :
    ∀ row ∈ (s.step event).ledger.requests, row.Timely := by
  intro row hrow
  rcases Advisor.step_changes hs event with he | ⟨a, authority, requestId, now, new, _, hi, he⟩ |
    ⟨requestId, op, _, old, new, hold, hw, he⟩
  · exact ht row (he ▸ hrow)
  · rw [he] at hrow
    rcases List.mem_append.mp hrow with hrow | hrow
    · exact ht row hrow
    · obtain ⟨_, _, _, _, _, hnew⟩ := hi.made
      rw [List.mem_singleton.mp hrow, hnew]
      exact ⟨fun _ => rfl, fun _ => rfl, fun _ => rfl, fun _ => rfl, fun _ => rfl, fun _ => rfl⟩
  · rw [he] at hrow
    rcases Rows.mem_set_cases hrow with rfl | ⟨hrow, _⟩
    · exact hw.timely (ht old (getInTx_mem hold).1)
    · exact ht row hrow

theorem Advisor.timely_of_reachable (h : (Advisor.machine projectDir).Reachable s) :
    ∀ row ∈ s.ledger.requests, row.Timely := by
  have key : s.Safe ∧ ∀ row ∈ s.ledger.requests, row.Timely := by
    apply h.invariant (I := fun s => s.Safe ∧ ∀ row ∈ s.ledger.requests, row.Timely)
    · rintro s rfl
      exact ⟨Advisor.initial_safe, fun row hrow => by cases hrow⟩
    · rintro s event t ⟨hs, ht⟩ rfl
      refine ⟨?_, Advisor.step_timely hs ht event⟩
      rcases Advisor.step_cases hs event with he | ⟨l', clicked, hstep, he⟩
      · rw [he]
        exact hs
      · rw [he]
        exact hs.step hstep
  exact key.2

/-- The condition on every step of a run. -/
def Advisor.Steadily : List Advisor → Event → Prop
  | s :: _, event => s.ledger.Steady event
  | [], _ => True

/-- In every run in which no second submission brings another conversation for a delivery that was marked
unknown, what a request has recorded stays, and its state goes the documented ways only. -/
theorem evidence_write_once (h : (Advisor.machine projectDir).History Advisor.Steadily (s :: past)) :
    (∀ u ∈ s :: past, ∀ row ∈ u.ledger.requests, ∃ row' ∈ s.ledger.requests,
      row'.requestId = row.requestId ∧ Kept row row' ∧
      Relation.ReflTransGen Documented row.state row'.state ∧
      (row.state = .completed ∨ row.state.terminal = true → Documented.Stays row.state row'.state)) ∧
    ∀ event, ∀ row ∈ s.ledger.requests, ∃ row' ∈ (s.step event).ledger.requests,
      row'.requestId = row.requestId ∧ (row'.state = row.state ∨ Documented row.state row'.state) := by
  constructor
  · have key : ∀ run, (Advisor.machine projectDir).History Advisor.Steadily run → ∀ s past, run = s :: past →
        ∀ u ∈ s :: past, ∀ row ∈ u.ledger.requests, ∃ row' ∈ s.ledger.requests,
          row'.requestId = row.requestId ∧ Kept row row' ∧
          Relation.ReflTransGen Documented row.state row'.state := by
      intro run hrun
      induction hrun with
      | start _ =>
        rintro s past ⟨⟩ u hu row hrow
        rw [List.mem_singleton.mp hu] at hrow
        exact ⟨row, hrow, rfl, .refl row, .refl⟩
      | @step s' t past' event hp hok hstep ih =>
        rintro _ _ ⟨⟩ u hu row hrow
        rcases List.mem_cons.mp hu with rfl | hu
        · exact ⟨row, hrow, rfl, .refl row, .refl⟩
        · obtain ⟨mid, hmid, hid, hkept, htrans⟩ := ih _ _ rfl u hu row hrow
          have hreach := hp.reachable
          obtain ⟨row', hrow', hid', hstate, hkept'⟩ := Advisor.step_row
            (Advisor.safe_of_reachable hreach) (Advisor.timely_of_reachable hreach) event hmid
          have hstep : t = s'.step event := hstep
          rw [← hstep] at hrow'
          refine ⟨row', hrow', hid'.trans hid, hkept.trans (hkept' hok), ?_⟩
          rcases hstate with hsame | hdoc
          · rw [hsame]
            exact htrans
          · exact htrans.tail hdoc
    intro u hu row hrow
    obtain ⟨row', hrow', hid, hkept, htrans⟩ := key _ h _ _ rfl u hu row hrow
    exact ⟨row', hrow', hid, hkept, htrans, fun hs => Documented.stays htrans hs⟩
  · intro event row hrow
    have hreach := h.reachable
    obtain ⟨row', hrow', hid, hstate, _⟩ := Advisor.step_row
      (Advisor.safe_of_reachable hreach) (Advisor.timely_of_reachable hreach) event hrow
    exact ⟨row', hrow', hid, hstate⟩

end Runs

/-- Whether a text begins as the URL of a conversation does. -/
def askUrl (url : PyStr) : Bool := "https://chatgpt.com/".toList.isPrefixOf url

/-- The request from its dispatch on, with the conversation that was observed. -/
def askDelivered (state : RequestState) (seen : Option PyStr) : Request :=
  { askAuthorized.dispatched (sha256Text askToken.text) askAnchor 0 with
    state := state
    uiMode := seen.map fun _ => "Pro".toList
    conversationUrlSha256 := seen.map sha256Text }

/-- The ledger of the dispatched request, with its anchor. -/
def Ledger.askDelivered (state : RequestState) (seen : Option PyStr) : Ledger :=
  ⟨[], [Strategy.askDelivered state seen], fun id => if id = askId.text then some askAnchor else none⟩

theorem delivered_read (state : RequestState) (seen : Option PyStr) (hs : state.ambiguous = true) :
    (Ledger.askDelivered state seen).getInTx askId.text = .ok (askDelivered state seen) := by
  refine getInTx_ok.mpr ⟨by decide, ?_, ?_, ?_⟩
  · simp [Ledger.request?, Ledger.askDelivered, Strategy.askDelivered, Request.dispatched, askAuthorized, asked,
      PrepareArgs.row]
  · exact asked_integrity
  · have hraw : dispatchAnchorRaw (askDelivered state seen) (sha256Text askToken.text) = .ok askAnchor := by
      have htext : anchorText (askDelivered state seen) (sha256Text askToken.text) = askAnchor := by
        unfold askAnchor anchorText
        rfl
      rw [← htext]
      exact dispatchAnchorRaw_ok askId rfl binding_isSha256 (isSha256_sha256Text _) (isSha256_sha256Text _) rfl
        (isSha256_sha256Text _) rfl (by decide)
    refine assertAnchor_ok.mpr (.inr ⟨_, askAnchor, rfl, isSha256_sha256Text _, ?_, ?_, hraw, rfl⟩)
    · cases state <;> first | rfl | cases hs
    · show (if askId.text = askId.text then some askAnchor else none) = some askAnchor
      exact if_pos rfl

theorem delivered_set {state state' : RequestState} {seen seen' : Option PyStr} :
    (Ledger.askDelivered state seen).set (askDelivered state' seen') = .askDelivered state' seen' := by
  simp [Ledger.set, Ledger.askDelivered, Rows.set, Rows.update, Strategy.askDelivered, Request.dispatched]

theorem asked_dispatched : dispatchCommit (.single askAuthorized) askId.text none vouched askToken 0 =
    .ok (askDelivered .dispatching none, .askDelivered .dispatching none) := by
  unfold dispatchCommit
  have hset : ((Ledger.single askAuthorized).anchored askId.text askAnchor).set
      (askDelivered .dispatching none) = .askDelivered .dispatching none := by
    simp [Ledger.set, Ledger.anchored, Ledger.single, Ledger.askDelivered, Rows.set, Rows.update,
      Strategy.askDelivered, Request.dispatched]
  refine bind_ok.mpr ⟨_, asked_cas, bind_ok.mpr ⟨_, writeAnchorOnce_none rfl, ?_⟩⟩
  refine bind_ok.mpr ⟨askDelivered .dispatching none, ?_, ?_⟩
  · exact (congrArg (Ledger.getInTx · askId.text) hset).trans (delivered_read _ _ rfl)
  · exact congrArg (fun l => Except.ok (askDelivered .dispatching none, l)) hset

theorem delivered_submitted {state : RequestState} {seen : Option PyStr} {url : PyStr}
    (hs : state = .dispatching ∨ state = .deliveryUnknown)
    (hurl : @validateUrl (plainUrls askUrl) url = .ok ()) :
    @submitted (plainUrls askUrl) (.askDelivered state seen) askId.text (sha256Text "p".toList) "Pro".toList
      true url 0 = .ok (askDelivered .submitted (some url), .askDelivered .submitted (some url)) := by
  unfold submitted
  refine bind_ok.mpr ⟨(), ?_, ?_⟩
  · unfold validateHash
    rw [if_pos (isSha256_sha256Text _)]
  · refine unless_ok.mpr ⟨by simp, unless_ok.mpr ⟨by simp, bind_ok.mpr ⟨(), hurl, ?_⟩⟩⟩
    have hread := delivered_read state seen (by rcases hs with rfl | rfl <;> rfl)
    refine transact_ok.mpr ⟨_, hread, .inr ⟨askDelivered .submitted (some url), ?_, ?_, delivered_set.symm⟩⟩
    · have hdelivery : (Ledger.askDelivered state seen).assertDelivery (askDelivered state seen)
          (sha256Text url) true = .ok () := by
        unfold Ledger.assertDelivery
        refine bind_ok.mpr ⟨(), rfl, ?_⟩
        simp [Ledger.askDelivered, Strategy.askDelivered, Request.dispatched, askAuthorized, asked,
          PrepareArgs.row]
        rfl
      refine bind_ok.mpr ⟨(), hdelivery, unless_ok.mpr ⟨by simp [Strategy.askDelivered, Request.dispatched,
        askAuthorized, asked, PrepareArgs.row, askArgs], ?_⟩⟩
      rcases hs with rfl | rfl <;> rfl
    · rw [delivered_set]
      exact delivered_read _ _ rfl

theorem delivered_recovered {url : PyStr} :
    @recover (plainUrls askUrl) (.askDelivered .submitted (some url)) askId.text "unknown".toList [] 0 =
      .ok (askDelivered .deliveryUnknown (some url), .askDelivered .deliveryUnknown (some url)) := by
  unfold recover
  refine unless_ok.mpr ⟨by simp, ?_⟩
  rw [if_neg (by simp)]
  refine transact_ok.mpr ⟨_, delivered_read _ _ rfl, .inr ⟨askDelivered .deliveryUnknown (some url), rfl, ?_,
    delivered_set.symm⟩⟩
  rw [delivered_set]
  exact delivered_read _ _ rfl

/-- The observed conversation, and another one. -/
def firstUrl : PyStr := "https://chatgpt.com/c/a".toList
def secondUrl : PyStr := "https://chatgpt.com/c/b".toList

def askSubmission (url : PyStr) : Event :=
  .operate askId.text 0 (.submitted (sha256Text "p".toList) "Pro".toList true url)

theorem url_ok {url : PyStr} (h : url = firstUrl ∨ url = secondUrl) :
    @validateUrl (plainUrls askUrl) url = .ok () := by
  rcases h with rfl | rfl <;> rfl

theorem ask_submits {state : RequestState} {url : PyStr} (seen : Option PyStr) (clicked : List PyStr)
    (hs : state = .dispatching ∨ state = .deliveryUnknown) (h : url = firstUrl ∨ url = secondUrl) :
    @Advisor.step (plainUrls askUrl) ⟨.askDelivered state seen, clicked⟩ (askSubmission url) =
      ⟨.askDelivered .submitted (some url), clicked ++ []⟩ :=
  @Advisor.step_of_run (plainUrls askUrl) _ _ _ _
    (map_ok.mpr ⟨_, delivered_submitted hs (url_ok h), rfl⟩)

/-- The request is dispatched and observed in its conversation. -/
theorem submitted_history : (@Advisor.machine (plainUrls askUrl) []).History
    (@Advisor.Steadily) [⟨.askDelivered .submitted (some firstUrl), [askId.text]⟩,
      ⟨.askDelivered .dispatching none, [askId.text]⟩, askState, ⟨.single asked, []⟩, Advisor.initial []] := by
  obtain ⟨h1, h2⟩ := asked_steps askUrl
  have h3 : @Advisor.step (plainUrls askUrl) askState (.operate askId.text 0 (.dispatch none vouched askToken)) =
      ⟨.askDelivered .dispatching none, [askId.text]⟩ :=
    @Advisor.step_of_run (plainUrls askUrl) _ _ _ _ (map_ok.mpr ⟨_, asked_dispatched, rfl⟩)
  have h4 := ask_submits none [askId.text] (.inl rfl) (.inl (rfl : firstUrl = firstUrl))
  refine .step (.step (.step (.step (.start rfl) ?_ h1.symm) ?_ h2.symm) ?_ h3.symm) ?_ h4.symm
  · trivial
  · trivial
  · trivial
  · intro row hrow _ hs
    rw [List.mem_singleton.mp hrow] at hs
    cases hs

/-- A dispatch has died before its anchor, another broker has clicked, and the click was observed: no event
clicks the request a second time. -/
theorem one_send_per_request_dispatched : ∃ past,
    (@Advisor.machine (plainUrls askUrl) []).History (fun _ _ => True)
      (⟨.askDelivered .submitted (some firstUrl), [askId.text]⟩ ::
        ⟨.askDelivered .dispatching none, [askId.text]⟩ :: askState :: askState :: past) ∧
    (∃ row ∈ askState.ledger.requests, row.requestId = askId.text ∧
      ∀ other ∈ askState.ledger.requests, other.prompt = row.prompt → other ≠ row →
        other.state.ambiguous = false) ∧
    ∀ event, (@Advisor.step (plainUrls askUrl) ⟨.askDelivered .submitted (some firstUrl), [askId.text]⟩
      event).clicked.count askId.text = 1 := by
  obtain ⟨h1, h2⟩ := asked_steps askUrl
  have hdies : @dispatchDies (plainUrls askUrl) askState.ledger askId.text 0 none vouched askToken .beforeAnchor =
      .ok askState.ledger := map_ok.mpr ⟨_, asked_cas, rfl⟩
  have h3 : @Advisor.step (plainUrls askUrl) askState (.die askId.text 0 none vouched askToken .beforeAnchor) =
      askState := by
    rw [@Advisor.step_of_run (plainUrls askUrl) _ _ _ _ (@run_die (plainUrls askUrl) _ _ _ _ _ _ _ _ hdies)]
    exact congrArg (Advisor.mk _) (List.append_nil _)
  have hdispatch : @Event.run (plainUrls askUrl) askState.ledger
      (.operate askId.text 0 (.dispatch none vouched askToken)) =
      .ok (.askDelivered .dispatching none, [askId.text]) := map_ok.mpr ⟨_, asked_dispatched, rfl⟩
  have h4 : @Advisor.step (plainUrls askUrl) askState (.operate askId.text 0 (.dispatch none vouched askToken)) =
      ⟨.askDelivered .dispatching none, [askId.text]⟩ := @Advisor.step_of_run (plainUrls askUrl) _ _ _ _ hdispatch
  have h5 : @Advisor.step (plainUrls askUrl) ⟨.askDelivered .dispatching none, [askId.text]⟩
      (askSubmission firstUrl) = ⟨.askDelivered .submitted (some firstUrl), [askId.text]⟩ :=
    ask_submits none [askId.text] (.inl rfl) (.inl rfl)
  have hauthorized : (@Advisor.machine (plainUrls askUrl) []).History (fun _ _ => True)
      [askState, askState, ⟨.single asked, []⟩, Advisor.initial []] :=
    .step (.step (.step (.start rfl) trivial h1.symm) trivial h2.symm) trivial h3.symm
  have hsubmitted := (hauthorized.step trivial h4.symm).step trivial h5.symm
  refine ⟨_, hsubmitted, ?_, fun event => ?_⟩
  · obtain ⟨row, hrow, hid, hother, _⟩ := (@one_send_per_request _ (plainUrls askUrl) _ _ hauthorized).2.2.2
      _ _ _ hdispatch askId.text (List.mem_singleton_self _)
    exact ⟨row, hrow, hid, hother⟩
  · have hnodup := (@one_send_per_request _ (plainUrls askUrl) _ _
      (hsubmitted.step (i := event) trivial rfl)).1
    have hsafe := @Advisor.safe_of_reachable _ (plainUrls askUrl) _ hsubmitted.reachable
    refine List.count_eq_one_of_mem hnodup ?_
    rcases @Advisor.step_cases _ (plainUrls askUrl) hsafe event with he | ⟨l', clicked, _, he⟩ <;> rw [he]
    · exact List.mem_singleton_self _
    · exact List.mem_append_left _ (List.mem_singleton_self _)

theorem evidence_write_once_submitted : ∃ row ∈ (Ledger.askDelivered .submitted (some firstUrl)).requests,
    row.requestId = askId.text ∧ Kept asked row := by
  obtain ⟨row, hrow, hid, hkept, _⟩ := (@evidence_write_once (plainUrls askUrl) _ _ _ submitted_history).1
    ⟨.single asked, []⟩ (by simp) asked List.mem_cons_self
  exact ⟨row, hrow, hid, hkept⟩

/-- After the delivery is marked unknown, another submission replaces the conversation. -/
theorem resubmitted_elsewhere : ∃ past,
    (@Advisor.machine (plainUrls askUrl) []).History (fun _ _ => True)
      (⟨.askDelivered .submitted (some secondUrl), [askId.text]⟩ ::
        ⟨.askDelivered .deliveryUnknown (some firstUrl), [askId.text]⟩ :: past) ∧
    (Ledger.askDelivered .deliveryUnknown (some firstUrl)).requests =
      [askDelivered .deliveryUnknown (some firstUrl)] ∧
    (Ledger.askDelivered .submitted (some secondUrl)).requests = [askDelivered .submitted (some secondUrl)] ∧
    (askDelivered .deliveryUnknown (some firstUrl)).conversationUrlSha256 = some (sha256Text firstUrl) ∧
    (askDelivered .submitted (some secondUrl)).conversationUrlSha256 = some (sha256Text secondUrl) ∧
    sha256Text firstUrl ≠ sha256Text secondUrl := by
  have h5 : @Advisor.step (plainUrls askUrl) ⟨.askDelivered .submitted (some firstUrl), [askId.text]⟩
      (.operate askId.text 0 (.recover "unknown".toList [])) =
        ⟨.askDelivered .deliveryUnknown (some firstUrl), [askId.text]⟩ :=
    @Advisor.step_of_run (plainUrls askUrl) _ _ _ _ (map_ok.mpr ⟨_, delivered_recovered, rfl⟩)
  have h6 := ask_submits (some firstUrl) [askId.text] (.inr rfl)
    (.inr (rfl : secondUrl = secondUrl))
  refine ⟨_, .step (.step (submitted_history.weaken fun _ _ _ => trivial) trivial h5.symm) trivial h6.symm,
    rfl, rfl, rfl, rfl, ?_⟩
  decide +kernel

end Danus.Strategy
