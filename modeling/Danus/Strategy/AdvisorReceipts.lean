import Danus.Strategy.AdvisorHeads
import Danus.Strategy.AdvisorReplays

/-! Receipts of browser requests: the call that brought a request to its state answers the same again, over
every run of any number of brokers. -/
namespace Danus.Strategy
open Python Machines Checks

section Receipts
variable [Patterns] {projectDir id : PyStr} {l l' : Ledger} {s : Advisor} {row old new : Request} {c c' : Call}
  {absent : PyStr → Except Refusal Unit} {now : Nat} {op : Operation}

/-- Nothing that came later stands in the way of a repetition: the scan of global memory still finds no
response, no dispatch of an authorised request has died with its anchor written, and the predecessor of a
request that failed before its submission has no live follow-up. -/
def Call.Undisturbed (l : Ledger) (row : Request) (absent : PyStr → Except Refusal Unit) : Call → Prop
  | .authorize .. => l.anchors row.requestId = none
  | .finish _ a => absent a.response = .ok ()
  | .failNotSubmitted .. => ∀ p, row.predecessor = some p → ∀ other ∈ l.requests,
    other.predecessor.map Predecessor.requestId = some p.requestId → other.live = false
  | _ => True

theorem Call.Recorded.settles (h : c.Recorded row) : c.method.Settles row.state := by
  cases c with
  | finish target => cases target <;> exact h.1
  | _ => exact h.1

/-- What a read and the checks of a repetition find, they find in an undisturbed ledger, and only there. -/
theorem Advisor.Sound.admitted_iff (hs : s.Sound) (absent : PyStr → Except Refusal Unit)
    (hrow : row ∈ s.ledger.requests) (hr : c.Recorded row) :
    s.ledger.getInTx row.requestId = .ok row ∧ c.Admitted s.ledger row absent ↔
      c.Undisturbed s.ledger row absent := by
  have hl := hs.assertLineage hrow
  cases c with
  | authorize =>
    have hlin : s.ledger.assertLineage row true = .ok () := assertLineage_head_iff.mpr
      ⟨hl, fun p hp => hs.head_active hrow (by rw [hr.1]; rfl) hp⟩
    refine ⟨fun h => ?_, fun h => ⟨hs.read hrow fun _ => h, hlin⟩⟩
    rcases assertAnchor_ok.mp (getInTx_ok.mp h.1).2.2.2 with ⟨_, _, hnone, _⟩ | ⟨_, _, _, _, hu, _⟩
    · exact hnone
    · unfold Ledger.undispatched at hu
      rw [hr.1] at hu
      cases hu
  | submitted observed uiMode full url =>
    obtain ⟨hstate, _, _, hurl, hp⟩ := hr
    have hactive : row.state.inConversation = true := by rw [hstate]; rfl
    have hlin := assertLineage_head_iff.mpr ⟨hl, fun p hp => hs.head_active hrow hactive hp⟩
    have hread := hs.read hrow fun h => by rw [hstate] at h; cases h
    exact ⟨fun _ => trivial, fun _ => ⟨hread, assertDelivery_of hlin hp fun hnone _ =>
      hs.chat_alone hrow hactive hnone hurl⟩⟩
  | finish target a =>
    obtain ⟨hstate, _, ⟨hreply, _⟩, hp⟩ := hr
    have hread := hs.read hrow fun h => by
      rw [hstate] at h
      cases target <;> cases h
    refine ⟨fun h => h.2.1, fun h => ⟨hread, h, assertDelivery_of hl hp fun _ hf => by (cases hf), ?_⟩⟩
    intro other ho hadopted
    exact hs.apart.apart other ho _ hadopted (mem_replies.mpr ⟨row, hrow, hreply⟩)
  | failNotSubmitted =>
    have hdead : row.live = false := by simp [Request.live, hr.1]
    have hread := hs.read hrow fun h => by rw [hr.1] at h; cases h
    constructor
    · intro h p hp
      exact (hs.head_closed hrow hdead hp).mp ((assertLineage_head_iff.mp h.2).2 p hp)
    · intro h
      exact ⟨hread, assertLineage_head_iff.mpr
        ⟨hl, fun p hp => (hs.head_closed hrow hdead hp).mpr (h p hp)⟩⟩
  | abandon =>
    have hread := hs.read hrow fun h => by
      rcases hr.1 with hstate | hstate <;> rw [hstate] at h <;> cases h
    exact ⟨fun _ => trivial, fun _ => ⟨hread, hl⟩⟩
  | importResult =>
    have hread := hs.read hrow fun h => by rw [hr.1] at h; cases h
    exact ⟨fun _ => trivial, fun _ => ⟨hread, hl⟩⟩
  | adopt strategy =>
    have hread := hs.read hrow fun h => by rw [hr.1] at h; cases h
    refine ⟨fun _ => trivial, fun _ => ⟨hread, hl, fun other ho hreply => ?_⟩⟩
    exact hs.apart.apart row hrow _ hr.2 (mem_replies.mpr ⟨other, ho, hreply⟩)

omit [Patterns] in
theorem tokenMatches_eq {token : Option PyStr} (h : tokenMatches row token = true) :
    row.preClickTokenSha256 = token.map sha256Text := by
  cases token with
  | none => cases h
  | some token => exact beq_iff_eq.mp h

/-- An attestation that passes its checks saw the end of the response. -/
theorem attestation_flags {a : Attestation} (h : a.validate = .ok ()) :
    a.completionActionsObserved = true ∧ a.composerAvailable = true ∧ a.workingIndicatorAbsent = true := by
  unfold Attestation.validate at h
  simp only [↓Checks.bind_ok, ↓unless_ok, unless_throw_ok] at h
  obtain ⟨_, _, _, _, _, _, _, _, _, _, h1, h2, h3, _⟩ := h
  exact ⟨by simpa using h1, by simpa using h2, by simpa using h3⟩

/-- Calls of one method whose arguments one row records are the same but for texts of one digest. -/
theorem Call.Recorded.same (hv : c.Valid) (hr : c.Recorded row) (hv' : c'.Valid) (hr' : c'.Recorded row)
    (hm : c'.method = c.method) : c'.Same c := by
  have hsha : ∀ {x y : PyStr} {o : Option PyStr}, o = some x → o = some y → x = y :=
    fun hx hy => Option.some.inj (hx.symm.trans hy)
  cases c with
  | authorize =>
    cases c' with
    | authorize => exact ⟨hr'.2.1.symm.trans hr.2.1, hsha hr'.2.2 hr.2.2, hv'.2.2.2.trans hv.2.2.2.symm⟩
    | finish target => cases target <;> cases hm
    | _ => cases hm
  | submitted =>
    cases c' with
    | submitted =>
      exact ⟨hr'.2.1.symm.trans hr.2.1, hv'.2.1.trans hv.2.1.symm, hv'.2.2.1.trans hv.2.2.1.symm,
        hsha hr'.2.2.2.1 hr.2.2.2.1⟩
    | finish target => cases target <;> cases hm
    | _ => cases hm
  | finish target a =>
    cases c' with
    | finish target' a' =>
      have ht : target' = target := by cases target <;> cases target' <;> first | rfl | cases hm
      obtain ⟨_, hp, ⟨h1, h2, h3, h4, h5, _⟩, _⟩ := hr
      obtain ⟨_, hp', ⟨h1', h2', h3', h4', h5', _⟩, _⟩ := hr'
      refine ⟨ht, hsha h1' h1, hsha h4' h4, ?_⟩
      have hf := attestation_flags hv
      have hf' := attestation_flags hv'
      have hsnap : a'.stableSnapshots = a.stableSnapshots := Option.some.inj (h5'.symm.trans h5)
      rw [Attestation.mk.injEq]
      exact ⟨rfl, hp'.symm.trans hp, hsha h3' h3, rfl, hsnap, hf'.1.trans hf.1.symm,
        hf'.2.1.trans hf.2.1.symm, hf'.2.2.trans hf.2.2.symm⟩
    | _ => cases target <;> cases hm
  | failNotSubmitted reason evidence acknowledged token =>
    cases c' with
    | failNotSubmitted reason' evidence' acknowledged' token' =>
      obtain ⟨_, ⟨h1, h2, _⟩, ht⟩ := hr
      obtain ⟨_, ⟨h1', h2', _⟩, ht'⟩ := hr'
      refine ⟨hsha h1' h1, hsha h2' h2, hv'.2.2.2.2.trans hv.2.2.2.2.symm, ?_⟩
      unfold Request.RecordsToken at ht ht'
      by_cases hprior : row.terminalPriorState = some .dispatching
      · rw [if_pos hprior] at ht ht'
        exact (tokenMatches_eq ht'.2).symm.trans (tokenMatches_eq ht.2)
      · rw [if_neg hprior] at ht ht'
        rw [ht, ht']
    | finish target => cases target <;> cases hm
    | _ => cases hm
  | abandon =>
    cases c' with
    | abandon => exact ⟨hsha hr'.2.1 hr.2.1, Option.some.inj (hr'.2.2.symm.trans hr.2.2)⟩
    | finish target => cases target <;> cases hm
    | _ => cases hm
  | importResult =>
    cases c' with
    | importResult => exact hsha hr'.2.1 hr.2.1
    | finish target => cases target <;> cases hm
    | _ => cases hm
  | adopt =>
    cases c' with
    | adopt => exact ⟨hsha hr'.2 hr.2, hv'.2.2.2.trans hv.2.2.2.symm⟩
    | finish target => cases target <;> cases hm
    | _ => cases hm

omit [Patterns] in
/-- An operation that writes changes the state of its request. -/
theorem Ledger.Writes.moves (h : l.Writes old op new) : new.state ≠ old.state := by
  cases h with
  | authorize _ hs => simp [hs]
  | dispatch _ _ _ hs => simp [hs, Request.dispatched]
  | submitted _ hs => rcases hs with hs | hs <;> simp [hs]
  | @finish target _ _ _ _ _ _ _ hs _ => cases target <;> rcases hs with hs | hs <;> simp [hs, Finish.state]
  | recover _ hs => rcases hs with hs | hs <;> simp [hs]
  | failNotSubmitted _ hs => rcases hs with hs | hs <;> simp [hs]
  | abandon _ hs =>
    rcases hs with hs | hs | hs
    · cases hst : old.state <;> simp_all [RequestState.ambiguous]
    · simp [hs, RequestState.ambiguous]
    · simp [hs, RequestState.ambiguous]
  | importCommit _ hs => simp [hs]
  | adopt _ _ hs => simp [hs]

omit [Patterns] in
/-- A transaction that changes the state of its request leaves the row that it decided on. -/
theorem transact_brings {decide : Request → Except Refusal (Option Request)} {out : Request × Ledger}
    (h : l.transact id decide = .ok out) (hold : l.request? id = some old) (hne : old.state ≠ out.1.state)
    {P : Request → Prop}
    (hd : ∀ new, decide old = .ok (some new) → new.requestId = old.requestId ∧ P new) :
    P out.1 ∧ out.2.request? id = some out.1 := by
  obtain ⟨row, hg, ⟨_, rfl⟩ | ⟨new, hnew, hread, hl⟩⟩ := transact_ok.mp h
  · have hrow := (getInTx_ok.mp hg).2.1
    rw [hold] at hrow
    exact (hne (congrArg Request.state (Option.some.inj hrow))).elim
  · have hrow := (getInTx_ok.mp hg).2.1
    obtain rfl : old = row := Option.some.inj (hold.symm.trans hrow)
    obtain ⟨hid, hP⟩ := hd new hnew
    have hset : (l.set new).request? id = some new := by
      rw [request?_set, if_pos (hid.trans (getInTx_mem hg).2), hold]
      rfl
    have hout : (l.set new).request? id = some out.1 := (getInTx_ok.mp hread).2.1
    obtain rfl : new = out.1 := Option.some.inj (hset.symm.trans hout)
    exact ⟨hP, hl ▸ hset⟩

/-- What an import has read of its request before it commits. -/
def Request.Answers (row : Request) (response : PyStr) : Prop :=
  (Call.importResult response).Valid ∧ row.replySha256 = some (sha256Text response) ∧
    row.replyBytes = some (utf8Length response) ∧
    row.controlSignals = some (Patterns.controlSignals response)

/-- The commit that brings a request to a state records the arguments of its call. -/
theorem commit_recorded (h : (c.commit absent).run l id now = .ok (row, l'))
    (hold : l.request? id = some old) (hne : old.state ≠ row.state)
    (himport : ∀ response, c = .importResult response → old.Answers response) :
    (c.Valid ∧ c.Recorded row) ∧ l'.request? id = some row := by
  cases c with
  | authorize promptSha256 scope acknowledged =>
    change authorize l id promptSha256 scope acknowledged now = .ok (row, l') at h
    unfold authorize at h
    simp only [↓Checks.bind_ok, ↓unless_ok] at h
    obtain ⟨_, hhash, n, htext, _, hsecret, hack, h⟩ := h
    obtain ⟨hr, hrow⟩ := transact_brings h hold hne
      (P := (Call.authorize promptSha256 scope acknowledged).Recorded) fun new hd => by
        obtain ⟨_, _, hd⟩ := Checks.bind_ok.mp hd
        obtain ⟨hp, hd⟩ := unless_ok.mp hd
        simp only [ite_ok, bind_throw_ok, pure_ok, reduceCtorEq, and_false, false_or, Option.some.injEq] at hd
        obtain ⟨_, _, rfl⟩ := hd
        exact ⟨rfl, rfl, not_not.mp hp, rfl⟩
    exact ⟨⟨⟨hhash, ⟨n, htext⟩, hsecret, by simpa using hack⟩, hr⟩, hrow⟩
  | submitted observed uiMode full url =>
    change submitted l id observed uiMode full url now = .ok (row, l') at h
    unfold submitted at h
    simp only [↓Checks.bind_ok, ↓unless_ok] at h
    obtain ⟨_, hhash, hmode, hfull, _, hurl, h⟩ := h
    obtain ⟨hr, hrow⟩ := transact_brings h hold hne
      (P := (Call.submitted observed uiMode full url).Recorded) fun new hd => by
        obtain ⟨_, hl, hd⟩ := Checks.bind_ok.mp hd
        obtain ⟨hp, hd⟩ := unless_ok.mp hd
        simp only [ite_ok, bind_throw_ok, pure_ok, reduceCtorEq, and_false, false_or, Option.some.injEq] at hd
        obtain ⟨_, _, rfl⟩ := hd
        exact ⟨rfl, rfl, not_not.mp hp, rfl, rfl, assertDelivery_url hl⟩
    exact ⟨⟨⟨hhash, not_not.mp hmode, by simpa using hfull, hurl⟩, hr⟩, hrow⟩
  | finish target a =>
    change finish l id target a (absent a.response) now = .ok (row, l') at h
    simp only [finish, Checks.bind_ok] at h
    obtain ⟨_, hv, _, _, h⟩ := h
    obtain ⟨hr, hrow⟩ := transact_brings h hold hne
      (P := (Call.finish target a).Recorded) fun new hd => by
        obtain ⟨_, hl, hd⟩ := Checks.bind_ok.mp hd
        obtain ⟨_, hd⟩ := unless_ok.mp hd
        obtain ⟨hp, hd⟩ := unless_ok.mp hd
        simp only [ite_ok, bind_throw_ok, pure_ok, reduceCtorEq, and_false, false_or] at hd
        obtain ⟨_, _, hd⟩ := hd
        simp only [↓Checks.bind_ok, ↓unless_ok, pure_ok, Option.some.injEq] at hd
        obtain ⟨_, _, _, rfl⟩ := hd
        exact ⟨rfl, rfl, not_not.mp hp, ⟨rfl, rfl, rfl, rfl, rfl, rfl, rfl⟩, assertDelivery_url hl⟩
    exact ⟨⟨hv, hr⟩, hrow⟩
  | failNotSubmitted reason evidence acknowledged token =>
    change failNotSubmitted l id reason evidence acknowledged token now = .ok (row, l') at h
    unfold failNotSubmitted at h
    simp only [↓Checks.bind_ok, ↓unless_ok] at h
    obtain ⟨n, htext, m, htext', _, hsecret, _, hsecret', hack, h⟩ := h
    obtain ⟨hr, hrow⟩ := transact_brings h hold hne
      (P := (Call.failNotSubmitted reason evidence acknowledged token).Recorded) fun new hd => by
        obtain ⟨_, _, hd⟩ := Checks.bind_ok.mp hd
        rcases ite_ok.mp hd with ⟨_, hd⟩ | ⟨_, hd⟩
        · simp only [↓unless_ok] at hd
          rcases ite_ok.mp hd.2 with ⟨_, hd⟩ | ⟨_, hd⟩
          · simp [↓Checks.bind_ok, ↓unless_ok, pure_ok] at hd
          · simp [↓unless_ok, pure_ok] at hd
        · obtain ⟨hs, hd⟩ := unless_ok.mp hd
          obtain ⟨hauthorized, hd⟩ := unless_ok.mp hd
          rcases ite_ok.mp hd with ⟨hdispatching, hd⟩ | ⟨hother, hd⟩
          · simp only [↓Checks.bind_ok, ↓unless_ok, pure_ok, Option.some.injEq] at hd
            obtain ⟨_, hsafe, hmatch, rfl⟩ := hd
            refine ⟨rfl, rfl, ⟨rfl, rfl, rfl⟩, ?_⟩
            unfold Request.RecordsToken
            rw [if_pos (congrArg some hdispatching)]
            have hmatch : tokenMatches old token = true := by simpa using hmatch
            exact ⟨hsafe, hmatch⟩
          · have hstate : old.state = .authorized := by tauto
            simp only [pure_ok, Option.some.injEq] at hd
            subst hd
            refine ⟨rfl, rfl, ⟨rfl, rfl, rfl⟩, ?_⟩
            unfold Request.RecordsToken
            rw [if_neg fun he => hother (Option.some.inj he)]
            by_contra htoken
            exact hauthorized ⟨hstate, htoken⟩
    exact ⟨⟨⟨⟨n, htext⟩, ⟨m, htext'⟩, hsecret, hsecret', by simpa using hack⟩, hr⟩, hrow⟩
  | abandon reason acknowledged =>
    change abandon l id reason acknowledged now = .ok (row, l') at h
    simp only [abandon, Checks.bind_ok] at h
    obtain ⟨n, htext, _, hsecret, h⟩ := h
    obtain ⟨hr, hrow⟩ := transact_brings h hold hne
      (P := (Call.abandon reason acknowledged).Recorded) fun new hd => by
        obtain ⟨_, _, hd⟩ := Checks.bind_ok.mp hd
        simp only [ite_ok, bind_throw_ok, pure_ok, reduceCtorEq, and_false, false_or, Option.some.injEq] at hd
        obtain ⟨_, _, _, rfl⟩ := hd
        refine ⟨rfl, ?_, rfl, rfl⟩
        by_cases hamb : old.state.ambiguous
        · exact .inr (if_pos hamb)
        · exact .inl (if_neg hamb)
    exact ⟨⟨⟨⟨n, htext⟩, hsecret⟩, hr⟩, hrow⟩
  | importResult response =>
    obtain ⟨hv, hreply⟩ := himport response rfl
    obtain ⟨hr, hrow⟩ := transact_brings (show l.transact id _ = .ok (row, l') from h) hold hne
      (P := (Call.importResult response).Recorded) fun new hd => by
        obtain ⟨_, _, hd⟩ := Checks.bind_ok.mp hd
        simp only [ite_ok, bind_throw_ok, pure_ok, reduceCtorEq, and_false, or_false, Option.some.injEq] at hd
        obtain ⟨_, rfl⟩ := hd
        exact ⟨rfl, rfl, hreply⟩
    exact ⟨⟨hv, hr⟩, hrow⟩
  | adopt strategy acknowledged =>
    change adopt l id strategy acknowledged now = .ok (row, l') at h
    unfold adopt at h
    simp only [↓Checks.bind_ok, ↓unless_ok] at h
    obtain ⟨n, htext, _, hsecret, hsignals, hack, h⟩ := h
    obtain ⟨hr, hrow⟩ := transact_brings h hold hne
      (P := (Call.adopt strategy acknowledged).Recorded) fun new hd => by
        obtain ⟨_, _, hd⟩ := Checks.bind_ok.mp hd
        obtain ⟨_, hd⟩ := unless_ok.mp hd
        simp only [ite_ok, bind_throw_ok, pure_ok, reduceCtorEq, and_false, false_or, Option.some.injEq] at hd
        obtain ⟨_, _, rfl⟩ := hd
        exact ⟨rfl, rfl, rfl⟩
    exact ⟨⟨⟨⟨n, htext⟩, hsecret, not_not.mp hsignals, by simpa using hack⟩, hr⟩, hrow⟩

/-- What an event of any broker makes of one request. -/
theorem Advisor.step_request? (hs : s.Safe) (hold : s.ledger.request? id = some old) (event : Event) :
    (s.step event).ledger.request? id = some old ∨
    ∃ op new, s.ledger.Writes old op new ∧ (s.step event).ledger.request? id = some new := by
  rcases Advisor.step_changes hs event with he | ⟨a, authority, requestId, now, row, _, _, he⟩ |
    ⟨requestId, op, _, first, new, hfirst, hw, he⟩
  · left
    unfold Ledger.request? at hold ⊢
    rw [he, hold]
  · left
    unfold Ledger.request? at hold ⊢
    rw [he, List.find?_append, hold]
    rfl
  · have hset : (s.step event).ledger.request? id = (s.ledger.set new).request? id := by
      unfold Ledger.request?
      rw [he]
      rfl
    rw [hset, request?_set, hold]
    obtain ⟨hmem, hid⟩ := getInTx_mem hfirst
    by_cases hkey : new.requestId = id
    · have hfound := (getInTx_ok.mp hfirst).2.1
      have hsame : requestId = id := hid.symm.trans ((congrArg Request.requestId hw.identity :).symm.trans hkey)
      rw [hsame, hold] at hfound
      obtain rfl := Option.some.inj hfound
      exact .inr ⟨op, new, hw, if_pos hkey⟩
    · exact .inl (if_neg hkey)

/-- A call of `import_result` has found its request completed and has not committed yet. -/
inductive Importing (projectDir id response : PyStr) : Advisor → Prop where
  | read {s : Advisor} {row : Request} : (Advisor.machine projectDir).Reachable s →
      importRead s.ledger id response = .ok row → row.state = .completed → Importing projectDir id response s
  | wait {s : Advisor} (event : Event) : Importing projectDir id response s →
      Importing projectDir id response (s.step event)

/-- A run in which the call has brought its request to the state of this row, where it has been since. -/
inductive Brought (projectDir id : PyStr) (c : Call) (row : Request) : Advisor → Prop where
  | made {s : Advisor} {absent : PyStr → Except Refusal Unit} {now : Nat} {old : Request} {l' : Ledger} :
      (Advisor.machine projectDir).Reachable s →
      (∀ response, c = .importResult response → Importing projectDir id response s) →
      s.ledger.request? id = some old → (c.commit absent).run s.ledger id now = .ok (row, l') →
      old.state ≠ row.state → Brought projectDir id c row (s.step (.operate id now (c.commit absent)))
  | stays {s : Advisor} {current : Request} (event : Event) : Brought projectDir id c row s →
      (s.step event).ledger.request? id = some current → current.state = row.state →
      Brought projectDir id c row (s.step event)

/-- While an import waits, its request keeps the response that was read. -/
theorem Importing.answers {response : PyStr} (h : Importing projectDir id response s) :
    (Advisor.machine projectDir).Reachable s ∧ ∃ row, s.ledger.request? id = some row ∧
      (row.state = .completed ∨ row.state = .imported ∨ row.state = .adopted) ∧ row.Answers response := by
  induction h with
  | read hreach hread hs =>
    obtain ⟨hv, hg, _, hstates, hreply⟩ := importRead_ok hread
    exact ⟨hreach, _, (getInTx_ok.mp hg).2.1, hstates, hv, hreply⟩
  | @wait s event _ ih =>
    obtain ⟨hreach, row, hrow, hstates, hv, hreply⟩ := ih
    refine ⟨hreach.next rfl, ?_⟩
    rcases Advisor.step_request? (Advisor.safe_of_reachable hreach) hrow event with he | ⟨op, new, hw, he⟩
    · exact ⟨row, he, hstates, hv, hreply⟩
    · refine ⟨new, he, ?_⟩
      cases hw with
      | importCommit => exact ⟨.inr (.inl rfl), hv, hreply⟩
      | adopt => exact ⟨.inr (.inr rfl), hv, hreply⟩
      | authorize _ hs => simp [hs] at hstates
      | dispatch _ _ _ hs => simp [hs] at hstates
      | submitted _ hs => rcases hs with hs | hs <;> simp [hs] at hstates
      | finish _ _ _ hs _ => rcases hs with hs | hs <;> simp [hs] at hstates
      | recover _ hs => rcases hs with hs | hs <;> simp [hs] at hstates
      | failNotSubmitted _ hs => rcases hs with hs | hs <;> simp [hs] at hstates
      | abandon _ hs =>
        rcases hs with hs | hs | hs
        · rcases hstates with hst | hst | hst <;> rw [hst] at hs <;> cases hs
        · simp [hs] at hstates
        · simp [hs] at hstates

/-- The request stays what the call recorded of it. -/
theorem Brought.recorded (h : Brought projectDir id c row s) :
    (Advisor.machine projectDir).Reachable s ∧ (c.Valid ∧ c.Recorded row) ∧ s.ledger.request? id = some row := by
  induction h with
  | @made s absent now old l' hreach himport hold hrun hne =>
    obtain ⟨hrecorded, hrow⟩ := commit_recorded hrun hold hne fun response hc => by
      obtain ⟨_, current, hcurrent, _, hanswers⟩ := (himport response hc).answers
      rw [hold] at hcurrent
      exact Option.some.inj hcurrent ▸ hanswers
    have hstep : (s.step (.operate id now (c.commit absent))).ledger = l' := by
      have hevent : (Event.operate id now (c.commit absent)).run s.ledger =
          .ok (l', if (c.commit absent).clicks then [id] else []) := map_ok.mpr ⟨(row, l'), hrun, rfl⟩
      rw [Advisor.step_of_run hevent]
    exact ⟨hreach.next rfl, hrecorded, hstep ▸ hrow⟩
  | @stays s current event _ hcurrent hstate ih =>
    obtain ⟨hreach, hrecorded, hrow⟩ := ih
    refine ⟨hreach.next rfl, hrecorded, ?_⟩
    rcases Advisor.step_request? (Advisor.safe_of_reachable hreach) hrow event with he | ⟨op, new, hw, he⟩
    · exact he
    · rw [hcurrent] at he
      exact (hw.moves (Option.some.inj he ▸ hstate)).elim

/-- A call that returns has read its request. -/
theorem run_reads {out : Request × Ledger} (h : c.run l id now absent = .ok out) :
    ∃ row, l.getInTx id = .ok row := by
  have hcommit : (c.commit absent).run l id now = .ok out → ∃ row, l.getInTx id = .ok row := operate_reads
  cases c with
  | importResult response =>
    obtain ⟨row, hread, _⟩ := Checks.bind_ok.mp h
    exact ⟨row, (importRead_ok hread).2.1⟩
  | _ => exact hcommit h

theorem Brought.read_of_run {out : Request × Ledger} (h : Brought projectDir id c row s)
    (hrun : c'.run s.ledger id now absent = .ok out) : s.ledger.getInTx id = .ok row := by
  obtain ⟨row', hg⟩ := run_reads hrun
  rw [hg, ← Option.some.inj (h.recorded.2.2.symm.trans (getInTx_ok.mp hg).2.1)]

/-- Repeating the call returns its row and changes nothing exactly where the ledger is undisturbed. -/
theorem Brought.replays (h : Brought projectDir id c row s) :
    c.run s.ledger id now absent = .ok (row, s.ledger) ↔ c.Undisturbed s.ledger row absent := by
  obtain ⟨hreach, ⟨hv, hr⟩, hrow⟩ := h.recorded
  obtain ⟨hmem, hid⟩ := request?_mem hrow
  have hadmitted := (Advisor.sound_of_reachable hreach).admitted_iff absent hmem hr
  rw [hid] at hadmitted
  constructor
  · intro hrun
    have hg := h.read_of_run hrun
    exact hadmitted.mp ⟨hg, (Call.run_settled hg hr.settles hrun).2.1⟩
  · intro hu
    obtain ⟨hg, ha⟩ := hadmitted.mpr hu
    exact Call.run_again hg hv hr ha

/-- What an import reads first, where its repetition's transactions go through. -/
theorem importRead_of_run {response : PyStr} {out : Request × Ledger} (hg : l.getInTx id = .ok row)
    (hrun : (Call.importResult response).run l id now absent = .ok out) : importRead l id response = .ok row := by
  obtain ⟨row', hread, _⟩ := Checks.bind_ok.mp hrun
  rwa [← Except.ok.inj ((importRead_ok hread).2.1.symm.trans hg)]

/-- As long as a request is where a call has brought it, its row is the one that the call answered with;
repeating the call returns this row, with these totals where it is an import, and changes neither ledger exactly
where the broker's ledger is undisturbed and the spend ledger, read as UTF-8, holds the import's record and these
totals; and a call of the same method that returns is the same call, but for texts of one digest, with the same
row. -/
theorem replay_exact (h : Brought projectDir id c row s) (now : Nat) (absent : PyStr → Except Refusal Unit)
    (books : Books) (totals : Option Spend.Summary) :
    s.ledger.request? id = some row ∧
    (c.answer books s.ledger id now absent = .ok ⟨row, s.ledger, books.spend.file, totals⟩ ↔
      c.Undisturbed s.ledger row absent ∧ c.Booked books id totals) ∧
    ∀ (c' : Call) (out : Answer), c'.method = c.method → c'.answer books s.ledger id now absent = .ok out →
      c'.Same c ∧ out.row = row ∧ out.ledger = s.ledger := by
  obtain ⟨_, ⟨hv, hr⟩, hrow⟩ := h.recorded
  refine ⟨hrow, ?_, fun c' out hm hanswer => ?_⟩
  · have hagain : c.run s.ledger id now absent = .ok (row, s.ledger) →
        (c.answer books s.ledger id now absent = .ok ⟨row, s.ledger, books.spend.file, totals⟩ ↔
          c.Booked books id totals) := by
      intro hrun
      have hg := h.read_of_run hrun
      have hne : id ≠ [] := by
        rintro rfl
        cases (getInTx_ok.mp hg).1
      exact Call.answer_again (request?_mem hrow).2 hne (fun response hc => importRead_of_run hg (hc ▸ hrun)) hrun
    constructor
    · intro hanswer
      have hrun := Call.run_of_answer hanswer
      exact ⟨h.replays.mp hrun, (hagain hrun).mp hanswer⟩
    · rintro ⟨hu, hbooked⟩
      exact (hagain (h.replays.mpr hu)).mpr hbooked
  · have hrun := Call.run_of_answer hanswer
    obtain ⟨_, _, hr', hout⟩ := Call.run_settled (h.read_of_run hrun) (hm ▸ hr.settles) hrun
    obtain ⟨hrow', hledger⟩ := Prod.mk.inj hout
    exact ⟨hr.same hv (Call.run_settled (h.read_of_run hrun) (hm ▸ hr.settles) hrun).1 hr' hm, hrow', hledger⟩

end Receipts

/-- The spend ledger of a project that has consulted no one. -/
def noBooks : Books where
  floats := Spend.noFloats
  py := Spend.depth
  spend := ⟨[], []⟩
  written := Machine.reachable_start rfl
  tsUtc := "2025-01-01T00:00:00+00:00".toList
  seconds := .finite "0.0".toList (by decide +kernel)
  room := by decide
  finite := rfl

/-- The authorisation of the request, once more. -/
theorem replay_exact_ask : @Call.answer (plainUrls askUrl) noBooks (.single askAuthorized) askId.text 1
    (fun _ => .ok ()) (.authorize (sha256Text "p".toList) "s".toList true) =
      .ok ⟨askAuthorized, .single askAuthorized, [], none⟩ := by
  obtain ⟨h1, h2⟩ := asked_steps askUrl
  have hreach : (@Advisor.machine (plainUrls askUrl) []).Reachable ⟨.single asked, []⟩ :=
    (Machine.reachable_start rfl).next h1.symm
  have hbrought : @Brought (plainUrls askUrl) [] askId.text
      (.authorize (sha256Text "p".toList) "s".toList true) askAuthorized askState := by
    rw [← h2]
    refine @Brought.made (plainUrls askUrl) _ _ _ _ _ (fun _ => .ok ()) 0 asked _ hreach
      (fun response hc => by cases hc) rfl (asked_authorized askUrl) (by decide)
  exact (@replay_exact (plainUrls askUrl) _ _ _ _ _ hbrought 1 (fun _ => .ok ()) noBooks none).2.1.mpr
    ⟨rfl, Eq.refl (none : Option Spend.Summary)⟩

section Siblings

/-- The request answered, waiting for its owner. -/
def answered : Request :=
  { askDelivered .submitted (some firstUrl) with
    state := .needsUserInput
    replySha256 := some (sha256Text "a".toList)
    replyBytes := some 1
    stableSnapshots := some 2
    attested := true
    controlSignals := some [] }

def answer : Attestation :=
  ⟨"a".toList, sha256Text "p".toList, "Pro".toList, firstUrl, 2, true, true, true⟩

/-- The ledger of the answered request and of requests that follow it. -/
def Ledger.followed (rest : List Request) : Ledger :=
  ⟨[], answered :: rest, fun id => if id = askId.text then some askAnchor else none⟩

theorem answered_read (rest : List Request) : (Ledger.followed rest).getInTx askId.text = .ok answered := by
  have hread := getInTx_ok.mp (delivered_read .submitted (some firstUrl) rfl)
  refine getInTx_ok.mpr ⟨hread.1, ?_, hread.2.2.1, ?_⟩
  · simp [Ledger.request?, Ledger.followed, answered, askDelivered, Request.dispatched, askAuthorized, asked,
      PrepareArgs.row]
  · rcases assertAnchor_ok.mp hread.2.2.2 with ⟨hnone, _⟩ | ⟨t, raw, ht, hsha, _, hanchor, hraw, hd⟩
    · cases hnone
    · have htext : anchorText answered t = anchorText (askDelivered .submitted (some firstUrl)) t := by
        unfold anchorText
        rfl
      unfold dispatchAnchorRaw at hraw
      rw [← htext] at hraw
      exact assertAnchor_ok.mpr (.inr ⟨t, raw, ht, hsha, rfl, hanchor, hraw, hd⟩)

theorem answer_valid : @Attestation.validate (plainUrls askUrl) answer = .ok () := by
  have hhash : validateHash answer.observedPromptSha256 "observed prompt hash" = .ok () := by
    unfold validateHash
    exact if_pos (isSha256_sha256Text _)
  unfold Attestation.validate
  refine Checks.bind_ok.mpr ⟨1, rfl, Checks.bind_ok.mpr ⟨(), rfl, Checks.bind_ok.mpr ⟨(), hhash, ?_⟩⟩⟩
  exact Checks.bind_ok.mpr ⟨(), url_ok (.inl rfl), rfl⟩

theorem delivered_answered : @finish (plainUrls askUrl) (.askDelivered .submitted (some firstUrl)) askId.text
    .needsUserInput answer (.ok ()) 0 = .ok (answered, .followed []) := by
  have hset : (Ledger.askDelivered .submitted (some firstUrl)).set answered = .followed [] := by
    simp [Ledger.set, Ledger.askDelivered, Rows.set, Rows.update, answered, askDelivered, Request.dispatched,
      Ledger.followed]
  have hdelivery : ∀ head, (Ledger.askDelivered .submitted (some firstUrl)).assertDelivery
      (askDelivered .submitted (some firstUrl)) (sha256Text firstUrl) head = .ok () := by
    intro head
    refine assertDelivery_of (by cases head <;> rfl) (fun p hp => by cases hp) fun _ _ other ho hne => ?_
    rw [List.mem_singleton.mp ho] at hne
    exact (hne rfl).elim
  unfold finish
  refine Checks.bind_ok.mpr ⟨(), answer_valid, Checks.bind_ok.mpr ⟨(), rfl, ?_⟩⟩
  refine transact_ok.mpr ⟨_, delivered_read _ _ rfl, .inr ⟨answered, ?_, ?_, hset.symm⟩⟩
  · refine Checks.bind_ok.mpr ⟨(), hdelivery false, unless_ok.mpr ⟨by decide, unless_ok.mpr ⟨not_not.mpr rfl, ?_⟩⟩⟩
    refine ite_ok.mpr (.inr ⟨by decide, unless_ok.mpr ⟨by decide, ?_⟩⟩)
    refine Checks.bind_ok.mpr ⟨(), hdelivery true, unless_ok.mpr ⟨fun h => h.2 rfl, rfl⟩⟩
  · rw [hset]
    exact answered_read []

/-- No text of the plan is the reply. -/
theorem answered_plan_passes :
    (rejectRawProjectTextLocked (Ledger.followed []).replies planPublication.fields).toBool = true := by
  decide +kernel

theorem planned_check : planPublication.check (Ledger.followed []) = .ok () := by
  have hg : planPublication.checkGuidance (Ledger.followed []) = .ok () := rfl
  have hpasses := answered_plan_passes
  cases hraw : rejectRawProjectTextLocked (Ledger.followed []).replies planPublication.fields with
  | error e =>
    rw [hraw] at hpasses
    cases hpasses
  | ok _ => simp only [Publication.check, hg, hraw]

/-- Nothing is found in an empty global memory. -/
theorem answer_absent : assertDigestAbsentFromGlobalMemory ⟨1000, 1000⟩ Core.GlobalMemory.empty.channels
    (sha256Text answer.response) = .ok () := by
  have hscan : ∀ digest, scanChannels ⟨1000, 1000⟩ Core.GlobalMemory.empty.channels digest scanOrder = .ok () :=
    fun _ => rfl
  unfold assertDigestAbsentFromGlobalMemory
  refine Checks.bind_ok.mpr ⟨(), ?_, ?_⟩
  · unfold validateHash
    exact if_pos (isSha256_sha256Text _)
  · rw [hscan]

/-- The project whose request is answered. -/
def answeredProject : Project := ⟨⟨.followed [], [askId.text]⟩, .empty, none⟩

def planRun : List ProjectEvent := [.check planPublication, .commit 0]

/-- The plan is appended after the answer. -/
def plannedProject : Project := planRun.foldl (@Project.step (plainUrls askUrl) ⟨1000, 1000⟩) answeredProject

/-- An event of a broker goes on in a project whose fence is free. -/
theorem project_broker {s t : Advisor} {event : Event} (outside : event.finishes = false)
    (hs : (@Project.machine (plainUrls askUrl) ⟨1000, 1000⟩ []).Reachable ⟨s, .empty, none⟩)
    (ht : @Advisor.step (plainUrls askUrl) s event = t) :
    (@Project.machine (plainUrls askUrl) ⟨1000, 1000⟩ []).Reachable ⟨t, .empty, none⟩ :=
  hs.next (i := .broker event outside) (congrArg (Project.mk · .empty none) ht.symm)

/-- The completion scans under the fence, and commits. -/
theorem project_answered : (@Project.machine (plainUrls askUrl) ⟨1000, 1000⟩ []).Reachable answeredProject := by
  obtain ⟨h1, h2⟩ := asked_steps askUrl
  have h3 : @Advisor.step (plainUrls askUrl) askState (.operate askId.text 0 (.dispatch none vouched askToken)) =
      ⟨.askDelivered .dispatching none, [askId.text]⟩ :=
    @Advisor.step_of_run (plainUrls askUrl) _ _ _ _ (map_ok.mpr ⟨_, asked_dispatched, rfl⟩)
  have h4 : @Advisor.step (plainUrls askUrl) ⟨.askDelivered .dispatching none, [askId.text]⟩
      (askSubmission firstUrl) = ⟨.askDelivered .submitted (some firstUrl), [askId.text]⟩ :=
    ask_submits none [askId.text] (.inl rfl) (.inl rfl)
  have h5 : @Advisor.step (plainUrls askUrl) ⟨.askDelivered .submitted (some firstUrl), [askId.text]⟩
      (.operate askId.text 0 (.finish .needsUserInput answer (.ok ()))) = ⟨.followed [], [askId.text]⟩ :=
    @Advisor.step_of_run (plainUrls askUrl) _ _ _ _ (map_ok.mpr ⟨_, delivered_answered, rfl⟩)
  have hstart : (@Project.machine (plainUrls askUrl) ⟨1000, 1000⟩ []).Reachable ⟨.initial [], .empty, none⟩ :=
    Machine.reachable_start rfl
  have hsubmitted := project_broker rfl (project_broker rfl (project_broker rfl (project_broker rfl hstart h1) h2)
    h3) h4
  have hscan : @Project.step (plainUrls askUrl) ⟨1000, 1000⟩
      ⟨⟨.askDelivered .submitted (some firstUrl), [askId.text]⟩, .empty, none⟩
      (.scan askId.text .needsUserInput answer) =
      ⟨⟨.askDelivered .submitted (some firstUrl), [askId.text]⟩, .empty,
        some (.finishing askId.text .needsUserInput answer)⟩ := by
    simp only [Project.step, Project.scan, answer_absent]
  have hcommit : @Project.step (plainUrls askUrl) ⟨1000, 1000⟩
      ⟨⟨.askDelivered .submitted (some firstUrl), [askId.text]⟩, .empty,
        some (.finishing askId.text .needsUserInput answer)⟩ (.commit 0) = answeredProject := by
    simp only [Project.step, Project.commit, h5, answeredProject]
  exact (hsubmitted.next hscan.symm).next hcommit.symm

/-- The request is answered under the fence, and the plan is appended after it: none of its texts is the reply. -/
theorem raw_output_never_durable_answered : plannedProject.advisor.ledger.requests = [answered] ∧
    plannedProject.memory.accepted = [⟨.plan, deepPlan.call, deepPlan.ts⟩] ∧
    ∀ s ∈ callTexts deepPlan.call, answered.replySha256 ≠ some (sha256Text s) := by
  have hr : (@Project.machine (plainUrls askUrl) ⟨1000, 1000⟩ []).Reachable plannedProject :=
    project_answered.foldl (fun _ _ => rfl) planRun
  have haccepted : plannedProject.memory.accepted = [⟨.plan, deepPlan.call, deepPlan.ts⟩] := by
    rw [plannedProject, planRun, List.foldl_cons, List.foldl_cons, List.foldl_nil]
    exact @Project.check_commit (plainUrls askUrl) _ answeredProject _ _ rfl planned_check deepPlan_entry 0
  have hrequests : plannedProject.advisor.ledger.requests = [answered] := by
    rw [plannedProject, planRun, List.foldl_cons, List.foldl_cons, List.foldl_nil]
    have hcheck : @Project.step (plainUrls askUrl) ⟨1000, 1000⟩ answeredProject (.check planPublication) =
        ⟨answeredProject.advisor, .empty, some (.appending planPublication)⟩ := by
      simp only [Project.step, Project.check, answeredProject, planned_check]
    rw [hcheck]
    simp only [Project.step, Project.commit]
    cases Core.GlobalMemory.empty.append ⟨1000, 1000⟩ planPublication.call planPublication.ts <;> rfl
  refine ⟨hrequests, haccepted, fun s hs => ?_⟩
  have htexts := (@raw_output_never_durable (plainUrls askUrl) _ _ _ hr).2.1
  rw [haccepted, hrequests] at htexts
  exact htexts ⟨.plan, deepPlan.call, deepPlan.ts⟩ (List.mem_singleton_self _) s hs answered
    (List.mem_singleton_self _)

/-- A follow-up of the answered request, with its own prompt and checkpoint. -/
def followArgs (prompt : PyStr) (n : Char) : PrepareArgs :=
  ⟨prompt, none, none, "c".toList, none, some (List.replicate 16 n), some (List.replicate 64 '0'), some 1,
    some askId.text, some firstUrl⟩

def follow (prompt : PyStr) (n : Char) (id : Uuid) : Request :=
  (followArgs prompt n).row [] (List.replicate 16 n, List.replicate 64 '0', 1)
    (some (⟨askId.text, sha256Text firstUrl, receiptSha256 answered, .needsUserInput⟩, askId.text, 1)) id.text 0

theorem receipt_isSha256 (row : Request) : isSha256 (receiptSha256 row) = true := by
  unfold receiptSha256
  exact isSha256_sha256Bytes _

/-- A follow-up is prepared beside follow-ups that have failed. -/
theorem follow_prepared {prompt : PyStr} {n : Char} {id : Uuid} {rest : List Request} {bytes : Nat}
    (hv : @PrepareArgs.validate (plainUrls askUrl) (followArgs prompt n) = .ok bytes)
    (hn : (followArgs prompt n).validateCheckpoint (.ok ()) =
      .ok (List.replicate 16 n, List.replicate 64 '0', 1))
    (hprompt : sha256Text "p".toList ≠ sha256Text prompt)
    (hfailed : ∀ r ∈ rest, r.state = .failedNotSubmitted)
    (hfresh : (Ledger.followed rest).collides (follow prompt n id) = false)
    (hread : (Ledger.followed (rest ++ [follow prompt n id])).getInTx id.text = .ok (follow prompt n id)) :
    @prepareInsert (plainUrls askUrl) (.followed rest) (followArgs prompt n) vouched id 0 =
      .ok (follow prompt n id, .followed (rest ++ [follow prompt n id])) := by
  have hclosed : ∀ r ∈ (Ledger.followed rest).requests, r.state.terminal = true := by
    intro r hr
    rcases List.mem_cons.mp hr with rfl | hr
    · rfl
    · rw [hfailed r hr]
      rfl
  have hnone : ∀ q : Request → Prop, [DecidablePred q] →
      (Ledger.followed rest).requests.filter (fun row => q row ∧ ¬ row.state.terminal) = [] := by
    intro q _
    rw [List.filter_eq_nil_iff]
    intro r hr
    simp [hclosed r hr]
  have hexisting : ∀ binding, prepareExisting (.followed rest) (followArgs prompt n) binding = .ok none := by
    intro binding
    unfold prepareExisting
    have hclient : (followArgs prompt n).clientId = none := rfl
    have hrecommendation : (followArgs prompt n).recommendationId = none := rfl
    simp only [hclient, hrecommendation, Option.bind_none]
    rw [hnone]
    rfl
  have hknown : ¬ ((Ledger.followed rest).requests.any fun row =>
      row.promptSha256 == sha256Text (followArgs prompt n).prompt &&
        row.state == .ownerAbandonedOutcomeUnknown) = true := by
    rw [Bool.not_eq_true, List.any_eq_false]
    intro r hr
    rcases List.mem_cons.mp hr with rfl | hr
    · simp [answered]
    · simp [hfailed r hr]
  have hlineage : prepareLineage (.followed rest) (followArgs prompt n) =
      .ok (some (⟨askId.text, sha256Text firstUrl, receiptSha256 answered, .needsUserInput⟩, askId.text, 1)) := by
    unfold prepareLineage
    refine Checks.bind_ok.mpr ⟨answered, answered_read rest, unless_ok.mpr ⟨not_not.mpr rfl, ?_⟩⟩
    exact unless_ok.mpr ⟨by decide, unless_ok.mpr ⟨not_not.mpr rfl, unless_ok.mpr ⟨hprompt, rfl⟩⟩⟩
  have hquiet : ∀ r ∈ (Ledger.followed rest).requests, r.state.inConversation = false ∧
      (r.predecessor ≠ none → r.live = false) := by
    intro r hr
    rcases List.mem_cons.mp hr with rfl | hr
    · exact ⟨rfl, fun h => (h rfl).elim⟩
    · rw [hfailed r hr]
      exact ⟨rfl, fun _ => by simp [Request.live, hfailed r hr]⟩
  have hhead : (Ledger.followed rest).assertLineage (follow prompt n id) true = .ok () := by
    refine assertLineage_head_iff.mpr ⟨?_, fun p hp => assertHead_iff.mpr ⟨fun other ho _ hid => ?_, ?_⟩⟩
    · unfold Ledger.assertLineage Ledger.assertLineageFields
      have hid : askId.text ≠ id.text := fun he =>
        (collides_false hfresh answered List.mem_cons_self).1 he
      refine Checks.bind_ok.mpr ⟨(), ?_, Checks.bind_ok.mpr ⟨(), ?_, rfl⟩⟩
      · refine unless_ok.mpr ⟨by decide, unless_ok.mpr ⟨hid, unless_ok.mpr ⟨?_, unless_ok.mpr ⟨?_, rfl⟩⟩⟩⟩
        · simp [isSha256_sha256Text]
        · simp [receipt_isSha256]
      · unfold Ledger.assertPredecessor
        refine Checks.bind_ok.mpr ⟨answered, answered_read rest, unless_ok.mpr ⟨not_not.mpr rfl, ?_⟩⟩
        refine unless_ok.mpr ⟨by decide, unless_ok.mpr ⟨not_not.mpr rfl, unless_ok.mpr ⟨hprompt, ?_⟩⟩⟩
        exact unless_ok.mpr ⟨not_not.mpr rfl, unless_throw_ok.mpr ⟨not_not.mpr rfl, rfl⟩⟩
    · refine (hquiet other ho).2 fun hnone => ?_
      rw [hnone] at hid
      cases hid
    · exact fun other ho _ _ => (hquiet other ho).1
  unfold prepareInsert
  refine Checks.bind_ok.mpr ⟨bytes, hv, Checks.bind_ok.mpr ⟨(), rfl, Checks.bind_ok.mpr ⟨_, hn, ?_⟩⟩⟩
  refine Checks.bind_ok.mpr ⟨none, hexisting _, ?_⟩
  have hprompts := hnone fun row => row.promptSha256 = sha256Text (followArgs prompt n).prompt
  dsimp only
  rw [hprompts]
  refine unless_ok.mpr ⟨hknown, Checks.bind_ok.mpr ⟨_, hlineage, ?_⟩⟩
  refine Checks.bind_ok.mpr ⟨(), hhead, unless_ok.mpr ⟨by rw [Bool.not_eq_true]; exact hfresh, ?_⟩⟩
  exact Checks.bind_ok.mpr ⟨_, hread, rfl⟩

def firstId : Uuid := ⟨"00000000-0000-4000-8000-000000000011".toList, by decide⟩

def secondId : Uuid := ⟨"00000000-0000-4000-8000-000000000012".toList, by decide⟩

/-- A follow-up that was never dispatched is read as it is. -/
theorem follow_read {prompt : PyStr} {n : Char} {id : Uuid} {row : Request} {rest : List Request}
    (hn : isHexOf 16 (List.replicate 16 n) = true) (hne : id.text ≠ askId.text)
    (hidentity : row.identity = (follow prompt n id).identity)
    (hfind : (Ledger.followed rest).request? id.text = some row)
    (htoken : row.preClickTokenSha256 = none) (hstate : Ledger.undispatched row = true)
    (hdigest : row.dispatchAnchorSha256 = none) : (Ledger.followed rest).getInTx id.text = .ok row := by
  have hid : row.requestId = id.text := (congrArg Request.requestId hidentity :)
  refine getInTx_ok.mpr ⟨safeId_uuid id, hfind, ?_, ?_⟩
  · have hsame : (Ledger.followed rest).assertIntegrity row.identity =
        (Ledger.followed rest).assertIntegrity (follow prompt n id).identity := by rw [hidentity]
    refine Eq.trans (b := (Ledger.followed rest).assertIntegrity row.identity) rfl (hsame.trans ?_)
    unfold Ledger.assertIntegrity
    rw [if_neg, if_neg, if_neg]
    · rfl
    · exact not_not.mpr rfl
    · rintro (h | h)
      · exact absurd (hn.symm.trans h) (by decide)
      · have hfixed : ¬ (isSha256 (List.replicate 64 '0') = false ∨ (1 : Nat) = 0 ∨ 32 * 1024 < 1) := by decide
        exact hfixed h
    · simp [Request.identity, follow, PrepareArgs.row]
  · exact assertAnchor_ok.mpr (.inl ⟨htoken, hstate, by rw [hid]; exact if_neg hne, hdigest⟩)

/-- The first follow-up, authorised and then failed before its submission, and a second one. -/
def firstFollow : Request := follow "q".toList '1' firstId

def firstFailed : Request :=
  { firstFollow.authorized "s".toList 0 with
    state := .failedNotSubmitted
    terminalReasonSha256 := some (sha256Text "x".toList)
    terminalEvidenceSha256 := some (sha256Text "e".toList)
    terminalAcknowledgement := some true
    terminalPriorState := some .authorized
    updatedNs := 0 }

def secondFollow : Request := follow "r".toList '2' secondId

def firstFailure : Call := .failNotSubmitted "x".toList "e".toList true none

theorem first_read {row : Request} {rest : List Request} (hidentity : row.identity = firstFollow.identity)
    (htoken : row.preClickTokenSha256 = none) (hstate : Ledger.undispatched row = true)
    (hdigest : row.dispatchAnchorSha256 = none) :
    (Ledger.followed (row :: rest)).getInTx firstId.text = .ok row := by
  have hid : row.requestId = firstId.text := (congrArg Request.requestId hidentity :)
  have hroot : answered.requestId ≠ firstId.text := by decide
  refine follow_read (by decide) (by decide) hidentity ?_ htoken hstate hdigest
  simp [Ledger.request?, Ledger.followed, hroot, hid]

theorem followed_set {row row' : Request} (h : row.identity = firstFollow.identity)
    (h' : row'.identity = firstFollow.identity) : (Ledger.followed [row]).set row' = .followed [row'] := by
  have hid : row.requestId = firstId.text := (congrArg Request.requestId h :)
  have hid' : row'.requestId = firstId.text := (congrArg Request.requestId h' :)
  have hroot : answered.requestId ≠ firstId.text := by decide
  simp [Ledger.set, Ledger.followed, Rows.set, Rows.update, hid, hid', hroot]

/-- The runs in which the request is answered, and its first follow-up prepared, authorised and failed. -/
theorem first_failed : ∃ s : Advisor, s.ledger = .followed [firstFailed] ∧
    @Brought (plainUrls askUrl) [] firstId.text firstFailure firstFailed s := by
  have hlineage : ∀ (s : Advisor) (row : Request), (@Advisor.machine (plainUrls askUrl) []).Reachable s →
      row ∈ s.ledger.requests → row.state.inConversation = true → s.ledger.assertLineage row true = .ok () := by
    intro s row hreach hrow hactive
    have hs := @Advisor.sound_of_reachable (plainUrls askUrl) _ _ hreach
    exact assertLineage_head_iff.mpr ⟨hs.assertLineage hrow, fun p hp => hs.head_active hrow hactive hp⟩
  have h4 := submitted_history.reachable
  have h5 : @Advisor.step (plainUrls askUrl) ⟨.askDelivered .submitted (some firstUrl), [askId.text]⟩
      (.operate askId.text 0 (.finish .needsUserInput answer (.ok ()))) = ⟨.followed [], [askId.text] ++ []⟩ :=
    @Advisor.step_of_run (plainUrls askUrl) _ _ _ _ (map_ok.mpr ⟨_, delivered_answered, rfl⟩)
  have h6 : @Advisor.step (plainUrls askUrl) ⟨.followed [], [askId.text]⟩
      (.prepare (followArgs "q".toList '1') vouched firstId 0) = ⟨.followed [firstFollow], [askId.text] ++ []⟩ := by
    refine @Advisor.step_of_run (plainUrls askUrl) _ _ _ _ (@run_prepare (plainUrls askUrl) _ _ _ _ _ _
      (@follow_prepared "q".toList '1' firstId [] 1 (by rfl) (by rfl) (by decide +kernel) (fun r hr => by cases hr)
        (by decide) ?_))
    exact first_read rfl rfl rfl rfl
  have h7 : @Advisor.step (plainUrls askUrl) ⟨.followed [firstFollow], [askId.text]⟩
      (.operate firstId.text 0 (.authorize (sha256Text "q".toList) "s".toList true)) =
        ⟨.followed [firstFollow.authorized "s".toList 0], [askId.text] ++ []⟩ := by
    have hset := @followed_set firstFollow (firstFollow.authorized "s".toList 0) rfl rfl
    have hrun := @authorize_prepared (plainUrls askUrl) (.followed [firstFollow]) firstId.text "s".toList
      firstFollow (firstFollow.authorized "s".toList 0) 1 0 (first_read rfl rfl rfl rfl)
      (hlineage _ firstFollow (h6 ▸ (h5 ▸ h4.next rfl).next rfl) (by simp [Ledger.followed]) rfl) rfl
      (isSha256_sha256Text _) rfl rfl (hset ▸ first_read rfl rfl rfl rfl)
    rw [hset] at hrun
    exact @Advisor.step_of_run (plainUrls askUrl) _ _ _ _ (@run_authorize (plainUrls askUrl) _ _ _ _ _ _ _ hrun)
  have hreach := (h4.next h5.symm).next h6.symm |>.next h7.symm
  have hread := @first_read (firstFollow.authorized "s".toList 0) [] rfl rfl rfl rfl
  have hfails : @failNotSubmitted (plainUrls askUrl) (.followed [firstFollow.authorized "s".toList 0])
      firstId.text "x".toList "e".toList true none 0 = .ok (firstFailed, .followed [firstFailed]) := by
    have hset := @followed_set (firstFollow.authorized "s".toList 0) firstFailed rfl rfl
    have hl := hlineage _ (firstFollow.authorized "s".toList 0) hreach (by simp [Ledger.followed]) rfl
    unfold failNotSubmitted
    refine Checks.bind_ok.mpr ⟨1, rfl, Checks.bind_ok.mpr ⟨1, rfl, Checks.bind_ok.mpr ⟨(), rfl, ?_⟩⟩⟩
    refine Checks.bind_ok.mpr ⟨(), rfl, unless_ok.mpr ⟨by decide, ?_⟩⟩
    refine transact_ok.mpr ⟨_, hread, .inr ⟨firstFailed, ?_, hset ▸ first_read rfl rfl rfl rfl, hset.symm⟩⟩
    exact Checks.bind_ok.mpr ⟨(), hl, rfl⟩
  have hevent : (@Event.run (plainUrls askUrl) (.followed [firstFollow.authorized "s".toList 0])
      (.operate firstId.text 0 (firstFailure.commit fun _ => .ok ()))) = .ok (.followed [firstFailed], []) :=
    map_ok.mpr ⟨_, hfails, rfl⟩
  refine ⟨_, ?_, @Brought.made (plainUrls askUrl) _ _ firstFailure firstFailed _ (fun _ => .ok ()) 0
    (firstFollow.authorized "s".toList 0) (.followed [firstFailed]) hreach (fun response hc => by cases hc)
    (getInTx_ok.mp hread).2.1 hfails (by decide)⟩
  exact congrArg Advisor.ledger (@Advisor.step_of_run (plainUrls askUrl) _ _ _ _ hevent)

/-- Beside the failed follow-up, another one is prepared. -/
theorem second_prepared : ∃ s, s.ledger = .followed [firstFailed, secondFollow] ∧
    @Brought (plainUrls askUrl) [] firstId.text firstFailure firstFailed s := by
  obtain ⟨s, hl, hbrought⟩ := first_failed
  have hread : (Ledger.followed [firstFailed, secondFollow]).getInTx secondId.text = .ok secondFollow := by
    refine follow_read (by decide) (by decide) rfl ?_ rfl rfl rfl
    have hroot : answered.requestId ≠ secondId.text := by decide
    have hfirst : firstFailed.requestId ≠ secondId.text := by decide
    have hsecond : secondFollow.requestId = secondId.text := rfl
    simp [Ledger.request?, Ledger.followed, hroot, hfirst, hsecond]
  have hprepared := @follow_prepared "r".toList '2' secondId [firstFailed] 1 (by rfl) (by rfl) (by decide +kernel)
    (fun r hr => by rw [List.mem_singleton.mp hr]; rfl) (by decide) hread
  have hevent : @Event.run (plainUrls askUrl) s.ledger (.prepare (followArgs "r".toList '2') vouched secondId 0) =
      .ok (.followed [firstFailed, secondFollow], []) := by
    rw [hl]
    exact @run_prepare (plainUrls askUrl) _ _ _ _ _ _ hprepared
  have hstep : (@Advisor.step (plainUrls askUrl) s (.prepare (followArgs "r".toList '2') vouched secondId 0)).ledger =
      .followed [firstFailed, secondFollow] :=
    congrArg Advisor.ledger (@Advisor.step_of_run (plainUrls askUrl) _ _ _ _ hevent)
  refine ⟨_, hstep, @Brought.stays (plainUrls askUrl) _ _ _ _ _ firstFailed _ hbrought ?_ rfl⟩
  rw [hstep]
  exact (getInTx_ok.mp (@first_read firstFailed [secondFollow] rfl rfl rfl rfl)).2.1

/-- The answered request and its two follow-ups are one lineage, and of the follow-ups the failed one is not
live. -/
theorem lineages_sound_followed : ∃ s, (@Advisor.machine (plainUrls askUrl) []).Reachable s ∧
    s.ledger.requests = [answered, firstFailed, secondFollow] ∧
    secondFollow.lineageRootRequestId = answered.lineageRootRequestId ∧
    secondFollow.lineageDepth = answered.lineageDepth + 1 ∧
    ∀ other ∈ s.ledger.requests, other.predecessor.map Predecessor.requestId = some askId.text →
      other.state ≠ .failedNotSubmitted → other.state ≠ .abandoned → other = secondFollow := by
  obtain ⟨s, hl, hbrought⟩ := second_prepared
  have hreach := (@Brought.recorded (plainUrls askUrl) _ _ _ _ _ hbrought).1
  have hrequests : s.ledger.requests = [answered, firstFailed, secondFollow] := by
    rw [hl]
    rfl
  obtain ⟨_, hfollows, hheads, _⟩ := @lineages_sound (plainUrls askUrl) _ _ hreach
  have hsecond : secondFollow.predecessor.map Predecessor.requestId = some askId.text := rfl
  have hchain : secondFollow.lineageRootRequestId = answered.lineageRootRequestId ∧
      secondFollow.lineageDepth = answered.lineageDepth + 1 := by
    rcases hfollows [answered, firstFailed] secondFollow [] hrequests with
      ⟨hnone, _⟩ | ⟨p, hp, q, hq, hid, _, hroot, hdepth⟩
    · cases hnone
    · rw [hp] at hsecond
      have hfirst : q.requestId = askId.text := hid.trans (Option.some.inj hsecond)
      rcases List.mem_pair.mp hq with rfl | rfl
      · exact ⟨hroot.symm, hdepth⟩
      · exact absurd hfirst (by decide)
  refine ⟨s, hreach, hrequests, hchain.1, hchain.2, fun other ho hp h1 h2 => ?_⟩
  exact hheads other ho secondFollow (by rw [hrequests]; simp) askId.text hp hsecond h1 h2 (by decide)
    (by decide)

/-- Once the failed follow-up's predecessor is followed by another request, repeating the call that recorded the
failure raises. -/
theorem failed_sibling_superseded : ∃ s, @Brought (plainUrls askUrl) [] firstId.text firstFailure firstFailed s ∧
    ∃ e, @Call.run (plainUrls askUrl) s.ledger firstId.text 1 (fun _ => .ok ()) firstFailure = .error e := by
  obtain ⟨s, hl, hlater⟩ := second_prepared
  refine ⟨s, hlater, ?_⟩
  cases hrun : @Call.run (plainUrls askUrl) s.ledger firstId.text 1 (fun _ => .ok ()) firstFailure with
  | error e => exact ⟨e, rfl⟩
  | ok out =>
    have hg := @Brought.read_of_run (plainUrls askUrl) _ _ _ _ _ _ _ _ _ hlater hrun
    have hsettles : firstFailure.method.Settles firstFailed.state := rfl
    have hsettled := @Call.run_settled (plainUrls askUrl) _ _ _ _ _ _ firstFailure hg hsettles hrun
    rw [hsettled.2.2.2] at hrun
    have hfree := (@Brought.replays (plainUrls askUrl) _ _ _ _ _ _ _ hlater).mp hrun
    have hdead := hfree _ rfl secondFollow (by rw [hl]; simp [Ledger.followed]) rfl
    cases hdead

end Siblings
end Danus.Strategy
