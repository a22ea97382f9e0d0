import Danus.Strategy.AdvisorRuns

/-! What each operation of a broker writes into the row of its request, and what it has checked before. -/
namespace Danus.Strategy
open Python Machines Checks

/-- The row that an operation leaves of a row, at some time. -/
inductive Ledger.Writes (l : Ledger) (old : Request) : Operation → Request → Prop where
  | authorize {promptSha256 scope : PyStr} {acknowledged : Bool} {now : Nat} :
      l.assertLineage old true = .ok () → old.state = .prepared →
      Writes l old (.authorize promptSha256 scope acknowledged) { old with
        state := .authorized
        authorizationScope := some scope
        authorizationScopeSha256 := some (sha256Text scope)
        authorizedNs := some now
        updatedNs := now }
  | dispatch {url : Option PyStr} {authority : Authority} {token : Uuid} {raw : List Nat} {now : Nat} :
      authority.recommendation = .ok () → authority.checkpoint = .ok () →
      l.assertLineage old true = .ok () → old.state = .authorized →
      Writes l old (.dispatch url authority token) (old.dispatched (sha256Text token.text) raw now)
  | submitted {observed uiMode url : PyStr} {full : Bool} {now : Nat} :
      l.assertDelivery old (sha256Text url) true = .ok () →
      old.state = .dispatching ∨ old.state = .deliveryUnknown →
      Writes l old (.submitted observed uiMode full url) { old with
        state := .submitted
        uiMode := some uiMode
        conversationUrlSha256 := some (sha256Text url)
        updatedNs := now }
  | finish {target : Finish} {a : Attestation} {absent : Except Refusal Unit} {signals : List PyStr}
      {now : Nat} :
      absent = .ok () → l.assertDelivery old (sha256Text a.url) true = .ok () →
      (∀ other ∈ l.requests, other.adoptedStrategySha256 ≠ some (sha256Text a.response)) →
      old.state = .submitted ∨ old.state = .deliveryUnknown →
      old.conversationUrlSha256 = none ∨ old.conversationUrlSha256 = some (sha256Text a.url) →
      Writes l old (.finish target a absent) { old with
        state := target.state
        uiMode := some a.uiMode
        conversationUrlSha256 := some (sha256Text a.url)
        replySha256 := some (sha256Text a.response)
        replyBytes := some (utf8Length a.response)
        stableSnapshots := some a.stableSnapshots
        attested := true
        controlSignals := some signals
        updatedNs := now }
  | recover {observation reason : PyStr} {now : Nat} :
      l.assertLineage old true = .ok () → old.state = .dispatching ∨ old.state = .submitted →
      Writes l old (.recover observation reason) { old with
        state := .deliveryUnknown
        updatedNs := now }
  | failNotSubmitted {reason evidence : PyStr} {acknowledged : Bool} {token : Option PyStr} {now : Nat} :
      l.assertLineage old true = .ok () → old.state = .authorized ∨ old.state = .dispatching →
      Writes l old (.failNotSubmitted reason evidence acknowledged token) { old with
        state := .failedNotSubmitted
        terminalReasonSha256 := some (sha256Text reason)
        terminalEvidenceSha256 := some (sha256Text evidence)
        terminalAcknowledgement := some true
        terminalPriorState := some old.state
        updatedNs := now }
  | abandon {reason : PyStr} {acknowledged : Bool} {now : Nat} :
      l.assertLineage old false = .ok () →
      old.state.ambiguous = true ∨ old.state = .prepared ∨ old.state = .authorized →
      Writes l old (.abandon reason acknowledged) { old with
        state := if old.state.ambiguous then .ownerAbandonedOutcomeUnknown else .abandoned
        terminalReasonSha256 := some (sha256Text reason)
        terminalAcknowledgement := some acknowledged
        terminalPriorState := some old.state
        updatedNs := now }
  | importCommit {now : Nat} :
      l.assertLineage old false = .ok () → old.state = .completed →
      Writes l old .importCommit { old with
        state := .imported
        updatedNs := now }
  | adopt {strategy : PyStr} {acknowledged : Bool} {now : Nat} :
      l.assertLineage old false = .ok () →
      (∀ other ∈ l.requests, other.replySha256 ≠ some (sha256Text strategy)) → old.state = .imported →
      Writes l old (.adopt strategy acknowledged) { old with
        state := .adopted
        adoptedStrategy := some strategy
        adoptedStrategySha256 := some (sha256Text strategy)
        adoptedNs := some now
        updatedNs := now }

/-- One request's row is rewritten as its operation does it. -/
def Ledger.Rewrites (l : Ledger) (requestId : PyStr) (op : Operation) (l' : Ledger) : Prop :=
  ∃ old new, l.getInTx requestId = .ok old ∧ l.Writes old op new ∧
    l'.requests = Rows.set Request.requestId new l.requests

section Operations
variable [Patterns] {l l' : Ledger} {requestId : PyStr} {now : Nat} {out : Request × Ledger} {op : Operation}
  {old new : Request}

omit [Patterns] in
theorem transact_rewrites {decide : Request → Except Refusal (Option Request)}
    (h : l.transact requestId decide = .ok out)
    (hd : ∀ old new, decide old = .ok (some new) → l.Writes old op new) :
    out.2 = l ∨ l.Rewrites requestId op out.2 := by
  obtain ⟨old, hold, ⟨_, rfl⟩ | ⟨new, hnew, _, hl⟩⟩ := transact_ok.mp h
  · exact .inl rfl
  · exact .inr ⟨old, new, hold, hd old new hnew, by rw [hl]; rfl⟩

omit [Patterns] in
/-- The row that an operation writes has the ids of the row it found. -/
theorem Ledger.Writes.identity (h : l.Writes old op new) : new.identity = old.identity := by
  cases h <;> rfl

omit [Patterns] in
theorem any_false {p : Request → Bool} {rows : List Request} (h : ¬ rows.any p = true) :
    ∀ row ∈ rows, p row = false := by
  rw [Bool.not_eq_true, List.any_eq_false] at h
  intro row hrow
  exact Bool.eq_false_iff.mpr (h row hrow)

/-- A successful operation changes nothing, or rewrites its request's row. -/
theorem operate_rewrites (h : op.run l requestId now = .ok out) :
    out.2.requests = l.requests ∨ l.Rewrites requestId op out.2 := by
  have hkeep : out.2 = l ∨ l.Rewrites requestId op out.2 →
      out.2.requests = l.requests ∨ l.Rewrites requestId op out.2 := by
    rintro (he | hw)
    · exact .inl (by rw [he])
    · exact .inr hw
  cases op with
  | get =>
    obtain ⟨_, _, rfl⟩ := map_ok.mp h
    exact .inl rfl
  | dispatchRead _ =>
    obtain ⟨_, _, rfl⟩ := map_ok.mp h
    exact .inl rfl
  | importRead _ =>
    obtain ⟨_, _, rfl⟩ := map_ok.mp h
    exact .inl rfl
  | authorize promptSha256 scope acknowledged =>
    apply hkeep
    change authorize l requestId promptSha256 scope acknowledged now = .ok out at h
    unfold authorize at h
    simp only [↓bind_ok, ↓unless_ok] at h
    obtain ⟨_, _, _, _, _, _, _, h⟩ := h
    apply transact_rewrites h
    intro old new hd
    simp only [↓bind_ok, ↓unless_ok] at hd
    simp only [ite_ok, bind_throw_ok, pure_ok, reduceCtorEq, and_false, false_or,
      Option.some.injEq] at hd
    obtain ⟨_, hl, _, _, hs, rfl⟩ := hd
    exact .authorize hl (Decidable.not_not.mp hs)
  | dispatch url authority token =>
    change dispatchCommit l requestId url authority token now = .ok out at h
    unfold dispatchCommit dispatchCas at h
    simp only [↓bind_ok, ↓unless_ok, pure_ok, Prod.exists, Prod.mk.injEq] at h
    obtain ⟨_, raw, ⟨_, hr, _, hc, old, hold, _, hv, hs, _, _, rfl, rfl⟩, digest, anchored, hw, r, _, rfl⟩ := h
    obtain ⟨_, hw⟩ := writeAnchorOnce_ok hw
    obtain ⟨rfl, rfl⟩ := Prod.mk.inj hw
    unfold validateDispatch at hv
    obtain ⟨_, _, hv⟩ := bind_ok.mp hv
    obtain ⟨_, hl, _⟩ := bind_ok.mp hv
    exact .inr ⟨old, _, hold, .dispatch hr hc hl (Decidable.not_not.mp hs), rfl⟩
  | submitted observed uiMode full url =>
    apply hkeep
    change submitted l requestId observed uiMode full url now = .ok out at h
    unfold submitted at h
    simp only [↓bind_ok, ↓unless_ok] at h
    obtain ⟨_, _, _, _, _, _, h⟩ := h
    apply transact_rewrites h
    intro old new hd
    simp only [↓bind_ok, ↓unless_ok] at hd
    simp only [ite_ok, bind_throw_ok, pure_ok, reduceCtorEq, and_false, false_or,
      Option.some.injEq] at hd
    obtain ⟨_, hl, _, _, hs, rfl⟩ := hd
    exact .submitted hl (either_of hs)
  | finish target a absent =>
    apply hkeep
    change finish l requestId target a absent now = .ok out at h
    simp only [finish, bind_ok] at h
    obtain ⟨_, _, _, habsent, h⟩ := h
    apply transact_rewrites h
    intro old new hd
    simp only [↓bind_ok, ↓unless_ok] at hd
    simp only [ite_ok, bind_throw_ok, pure_ok, reduceCtorEq, and_false, false_or] at hd
    obtain ⟨_, _, hadopted, _, _, hs, hd⟩ := hd
    simp only [↓bind_ok, ↓unless_ok, pure_ok, Option.some.injEq] at hd
    obtain ⟨_, hl, hurl, rfl⟩ := hd
    refine .finish habsent hl (fun other ho => ?_) (either_of hs) (by tauto)
    simpa using any_false hadopted other ho
  | recover observation reason =>
    apply hkeep
    change recover l requestId observation reason now = .ok out at h
    unfold recover at h
    simp only [↓unless_ok] at h
    obtain ⟨_, h⟩ := h
    have ht : ∀ old new : Request, ((do
        l.assertLineage old true
        if old.state = .deliveryUnknown then return none
        if old.state ≠ .dispatching ∧ old.state ≠ .submitted then
          throw (.state ("cannot mark delivery unknown from state " ++ old.state.name))
        return some { old with state := .deliveryUnknown, updatedNs := now }) :
        Except Refusal (Option Request)) = .ok (some new) →
          l.Writes old (.recover observation reason) new := by
      intro old new hd
      simp only [↓bind_ok] at hd
      simp only [ite_ok, bind_throw_ok, pure_ok, reduceCtorEq, and_false, false_or,
        Option.some.injEq] at hd
      obtain ⟨_, hl, _, hs, rfl⟩ := hd
      exact .recover hl (either_of hs)
    rcases ite_ok.mp h with ⟨_, h⟩ | ⟨_, h⟩
    · simp only [↓bind_ok] at h
      obtain ⟨_, _, _, _, h⟩ := h
      exact transact_rewrites h ht
    · exact transact_rewrites h ht
  | failNotSubmitted reason evidence acknowledged token =>
    apply hkeep
    change failNotSubmitted l requestId reason evidence acknowledged token now = .ok out at h
    unfold failNotSubmitted at h
    simp only [↓bind_ok, ↓unless_ok] at h
    obtain ⟨_, _, _, _, _, _, _, _, _, h⟩ := h
    apply transact_rewrites h
    intro old new hd
    simp only [↓bind_ok] at hd
    obtain ⟨_, hl, hd⟩ := hd
    rcases ite_ok.mp hd with ⟨_, hd⟩ | ⟨_, hd⟩
    · simp only [↓unless_ok] at hd
      rcases ite_ok.mp hd.2 with ⟨_, hd⟩ | ⟨_, hd⟩
      · simp [↓bind_ok, ↓unless_ok, pure_ok] at hd
      · simp [↓unless_ok, pure_ok] at hd
    · simp only [↓unless_ok] at hd
      obtain ⟨hs, _, hd⟩ := hd
      have hs : old.state = .authorized ∨ old.state = .dispatching := either_of hs
      rcases ite_ok.mp hd with ⟨_, hd⟩ | ⟨_, hd⟩
      · simp only [↓bind_ok, ↓unless_ok, pure_ok, Option.some.injEq] at hd
        obtain ⟨_, _, _, rfl⟩ := hd
        exact .failNotSubmitted hl hs
      · simp only [pure_ok, Option.some.injEq] at hd
        subst hd
        exact .failNotSubmitted hl hs
  | abandon reason acknowledged =>
    apply hkeep
    change abandon l requestId reason acknowledged now = .ok out at h
    simp only [abandon, bind_ok] at h
    obtain ⟨_, _, _, _, h⟩ := h
    apply transact_rewrites h
    intro old new hd
    simp only [↓bind_ok] at hd
    simp only [ite_ok, bind_throw_ok, pure_ok, reduceCtorEq, and_false, false_or,
      Option.some.injEq] at hd
    obtain ⟨_, hl, _, hs, _, rfl⟩ := hd
    refine .abandon hl ?_
    cases hb : old.state.ambiguous with
    | true => exact .inl rfl
    | false => exact .inr (waiting_of hs hb)
  | importCommit =>
    apply hkeep
    apply transact_rewrites (show l.transact requestId _ = .ok out from h)
    intro old new hd
    simp only [↓bind_ok] at hd
    simp only [ite_ok, bind_throw_ok, pure_ok, reduceCtorEq, and_false, or_false,
      Option.some.injEq] at hd
    obtain ⟨_, hl, hs, rfl⟩ := hd
    exact .importCommit hl hs
  | adopt strategy acknowledged =>
    apply hkeep
    change adopt l requestId strategy acknowledged now = .ok out at h
    unfold adopt at h
    simp only [↓bind_ok, ↓unless_ok] at h
    obtain ⟨_, _, _, _, _, _, h⟩ := h
    apply transact_rewrites h
    intro old new hd
    simp only [↓bind_ok, ↓unless_ok] at hd
    simp only [ite_ok, bind_throw_ok, pure_ok, reduceCtorEq, and_false, false_or,
      Option.some.injEq] at hd
    obtain ⟨_, hl, hreply, _, hs, rfl⟩ := hd
    refine .adopt hl (fun other ho => ?_) (Decidable.not_not.mp hs)
    simpa using any_false hreply other ho

end Operations

section Prepare
variable [Patterns] {l l' : Ledger} {a : PrepareArgs} {authority : Authority} {requestId : Uuid} {now : Nat}
  {out : Request × Ledger} {clicked : List PyStr}

/-- A new request, with what its preparation has checked. -/
structure Ledger.Inserted (l : Ledger) (a : PrepareArgs) (authority : Authority) (row : Request) : Prop where
  recommendation : authority.recommendation = .ok ()
  checkpoint : authority.checkpoint = .ok ()
  made : ∃ checkpoint lineage, ∃ requestId : Uuid, ∃ now, prepareLineage l a = .ok lineage ∧
    row = a.row l.projectDir checkpoint lineage requestId.text now
  head : row.predecessor ≠ none → l.assertLineage row true = .ok ()
  fresh : l.collides row = false

omit [Patterns] in
theorem validateCheckpoint_ok {cp : Except Refusal Unit} {found : PyStr × PyStr × Nat}
    (h : a.validateCheckpoint cp = .ok found) : cp = .ok () ∧ a.checkpoint = some found := by
  unfold PrepareArgs.validateCheckpoint at h
  split at h
  · cases h
  · next hcheckpoint =>
    simp only [↓bind_ok, ↓unless_ok, pure_ok] at h
    obtain ⟨_, _, _, _, _, hcp, rfl⟩ := h
    exact ⟨hcp, hcheckpoint⟩

theorem prepareInsert_inserted (h : prepareInsert l a authority requestId now = .ok out) :
    out.2 = l ∨ ∃ row, l.Inserted a authority row ∧ out.2 = { l with requests := l.requests ++ [row] } := by
  unfold prepareInsert at h
  obtain ⟨_, _, h⟩ := bind_ok.mp h
  obtain ⟨_, hrecommendation, h⟩ := bind_ok.mp h
  obtain ⟨checkpoint, hcheckpoint, h⟩ := bind_ok.mp h
  obtain ⟨existing, _, h⟩ := bind_ok.mp h
  cases existing with
  | some row =>
    simp only [pure_ok] at h
    exact .inl (by rw [← h])
  | none =>
    dsimp only at h
    split at h
    · exact (bind_throw_ok.mp h).elim
    · simp only [↓unless_ok, ↓bind_ok] at h
      obtain ⟨_, lineage, hlineage, h⟩ := h
      have hmade : ∃ checkpoint lineage, ∃ id : Uuid, ∃ n, prepareLineage l a = .ok lineage ∧
          a.row l.projectDir checkpoint lineage requestId.text now =
            a.row l.projectDir checkpoint lineage id.text n := ⟨checkpoint, _, requestId, now, hlineage, rfl⟩
      cases hp : (a.row l.projectDir checkpoint lineage requestId.text now).predecessor with
      | none =>
        simp only [hp, ↓unless_ok, ↓bind_ok, pure_ok] at h
        obtain ⟨hc, r, _, rfl⟩ := h
        exact .inr ⟨_, ⟨hrecommendation, (validateCheckpoint_ok hcheckpoint).1,
          ⟨checkpoint, lineage, requestId, now, hlineage, rfl⟩, fun hne => (hne hp).elim, by simpa using hc⟩, rfl⟩
      | some p =>
        simp only [hp, ↓unless_ok, ↓bind_ok, pure_ok] at h
        obtain ⟨_, hl, hc, r, _, rfl⟩ := h
        exact .inr ⟨_, ⟨hrecommendation, (validateCheckpoint_ok hcheckpoint).1,
          ⟨checkpoint, lineage, requestId, now, hlineage, rfl⟩, fun _ => hl, by simpa using hc⟩, rfl⟩

/-- The operation that an event commits on a request, also where its answer is lost. -/
inductive Event.Operates : Event → PyStr → Operation → Prop where
  | operate {requestId : PyStr} {now : Nat} {op : Operation} :
      Operates (.operate requestId now op) requestId op
  | die {requestId : PyStr} {now : Nat} {url : Option PyStr} {authority : Authority} {token : Uuid} :
      Operates (.die requestId now url authority token .committed) requestId (.dispatch url authority token)

/-- A successful event leaves the rows as they are, inserts one, or rewrites one. -/
theorem run_changes {event : Event} (hc : l.Coherent) (h : event.run l = .ok (l', clicked)) :
    l'.requests = l.requests ∨
    (∃ a authority requestId now row, event = .prepare a authority requestId now ∧
      l.Inserted a authority row ∧ l'.requests = l.requests ++ [row]) ∨
    ∃ requestId op, event.Operates requestId op ∧ l.Rewrites requestId op l' := by
  cases event with
  | «open» =>
    obtain ⟨l₁, ho, he⟩ := map_ok.mp h
    obtain ⟨rfl, rfl⟩ := Prod.mk.inj he
    rw [open_ok hc ho]
    exact .inl rfl
  | prepareReplay a authority =>
    obtain ⟨_, _, he⟩ := map_ok.mp h
    obtain ⟨rfl, rfl⟩ := Prod.mk.inj he
    exact .inl rfl
  | prepare a authority requestId now =>
    obtain ⟨r, hr, he⟩ := map_ok.mp h
    obtain ⟨rfl, rfl⟩ := Prod.mk.inj he
    rcases prepareInsert_inserted hr with hl | ⟨row, hi, hl⟩
    · exact .inl (by rw [hl])
    · exact .inr (.inl ⟨a, authority, requestId, now, row, rfl, hi, by rw [hl]⟩)
  | operate requestId now op =>
    obtain ⟨r, hr, he⟩ := map_ok.mp h
    obtain ⟨rfl, rfl⟩ := Prod.mk.inj he
    rcases operate_rewrites hr with hl | hw
    · exact .inl hl
    · exact .inr (.inr ⟨requestId, op, .operate, hw⟩)
  | die requestId now url authority token point =>
    obtain ⟨l₁, hd, he⟩ := map_ok.mp h
    obtain ⟨rfl, rfl⟩ := Prod.mk.inj he
    cases point with
    | beforeAnchor =>
      obtain ⟨_, _, rfl⟩ := map_ok.mp hd
      exact .inl rfl
    | anchored written =>
      change dispatchTorn l requestId url authority token written = .ok l₁ at hd
      unfold dispatchTorn dispatchCas at hd
      simp only [↓bind_ok, ↓unless_ok, pure_ok, Prod.exists, Prod.mk.injEq] at hd
      obtain ⟨_, _, _, _, _, hw, rfl⟩ := hd
      obtain ⟨_, hw⟩ := writeAnchorOnce_ok hw
      obtain ⟨rfl, rfl⟩ := Prod.mk.inj hw
      exact .inl rfl
    | committed =>
      obtain ⟨r, hr, rfl⟩ := map_ok.mp hd
      have hop : (Operation.dispatch url authority token).run l requestId now = .ok r := hr
      rcases operate_rewrites hop with hl | hw
      · exact .inl hl
      · exact .inr (.inr ⟨requestId, _, .die, hw⟩)

end Prepare

section Runs
variable [Patterns] {projectDir : PyStr} {s : Advisor}

/-- What an event of any broker makes of the rows. -/
theorem Advisor.step_changes (hs : s.Safe) (event : Event) :
    (s.step event).ledger.requests = s.ledger.requests ∨
    (∃ a authority requestId now row, event = .prepare a authority requestId now ∧
      s.ledger.Inserted a authority row ∧ (s.step event).ledger.requests = s.ledger.requests ++ [row]) ∨
    ∃ requestId op, event.Operates requestId op ∧ s.ledger.Rewrites requestId op (s.step event).ledger := by
  unfold Advisor.step
  cases hr : event.run s.ledger with
  | error e => exact .inl rfl
  | ok out => exact run_changes hs.ledger hr

end Runs
end Danus.Strategy
