import Danus.Lib.Checks
import Danus.Strategy.BrowserAdvisor

/-! What one operation of a broker can do to the ledger. -/
namespace Danus.Strategy
open Python Machines Checks

theorem waiting_of {s : RequestState} (h : ¬ (s = .completed ∨ s.terminal = true))
    (ha : s.ambiguous = false) : s = .prepared ∨ s = .authorized := by
  cases s <;> simp_all [RequestState.ambiguous, RequestState.terminal]

theorem either_of {α : Type} {a x y : α} (h : ¬ (a ≠ x ∧ a ≠ y)) : a = x ∨ a = y := by
  tauto

/-- The transitions of a request other than its dispatch. -/
inductive Advances : RequestState → RequestState → Prop where
  | authorize : Advances .prepared .authorized
  | attest {s} : s = .dispatching ∨ s = .deliveryUnknown → Advances s .submitted
  | finish {s} (target : Finish) : s = .submitted ∨ s = .deliveryUnknown → Advances s target.state
  | recover {s} : s = .dispatching ∨ s = .submitted → Advances s .deliveryUnknown
  | fail {s} : s = .authorized ∨ s = .dispatching → Advances s .failedNotSubmitted
  | abandon {s} : s = .prepared ∨ s = .authorized → Advances s .abandoned
  | give_up {s} : s.ambiguous = true → Advances s .ownerAbandonedOutcomeUnknown
  | «import» : Advances .completed .imported
  | adopt : Advances .imported .adopted

/-- The part of a row that its preparation fixes. -/
def Request.identity (row : Request) : Request :=
  { row with
    state := .prepared
    authorizationScope := none
    authorizationScopeSha256 := none
    authorizedNs := none
    preClickTokenSha256 := none
    dispatchAnchorSha256 := none
    uiMode := none
    conversationUrlSha256 := none
    replySha256 := none
    replyBytes := none
    stableSnapshots := none
    attested := false
    controlSignals := none
    terminalReasonSha256 := none
    terminalEvidenceSha256 := none
    terminalAcknowledgement := none
    terminalPriorState := none
    adoptedStrategy := none
    adoptedStrategySha256 := none
    adoptedNs := none
    updatedNs := 0 }

/-- The ledger with the anchor of a request written. -/
def Ledger.anchored (l : Ledger) (requestId : PyStr) (raw : List Nat) : Ledger :=
  { l with anchors := fun id => if id = requestId then some raw else l.anchors id }

/-- The row of a dispatched request. -/
def Request.dispatched (row : Request) (tokenSha256 : PyStr) (raw : List Nat) (now : Nat) : Request :=
  { row with
    state := .dispatching
    preClickTokenSha256 := some tokenSha256
    dispatchAnchorSha256 := some (sha256Bytes raw)
    updatedNs := now }

/-- A row and its successor under one operation that is not a dispatch. -/
structure Moves (old new : Request) : Prop where
  identity : new.identity = old.identity
  state : Advances old.state new.state

section
variable {l l' : Ledger} {row new r : Request} {requestId : PyStr}

theorem getInTx_ok : l.getInTx requestId = .ok row ↔
    safeId requestId "request id" = .ok () ∧ l.request? requestId = some row ∧
      l.assertIntegrity row = .ok () ∧ l.assertAnchor row = .ok () := by
  unfold Ledger.getInTx
  cases hs : safeId requestId "request id" with
  | error e => simp
  | ok _ =>
    cases hf : l.request? requestId with
    | none => simp
    | some found =>
      dsimp only
      cases hi : l.assertIntegrity found with
      | error e =>
        simp only [reduceCtorEq, Option.some.injEq, false_iff, not_and]
        rintro _ rfl h
        simp [hi] at h
      | ok _ =>
        simp only [map_ok, true_and, Option.some.injEq]
        constructor
        · rintro ⟨_, ha, rfl⟩
          exact ⟨rfl, hi, ha⟩
        · rintro ⟨rfl, _, ha⟩
          exact ⟨(), ha, rfl⟩

theorem request?_mem (h : l.request? requestId = some row) :
    row ∈ l.requests ∧ row.requestId = requestId := by
  unfold Ledger.request? at h
  simpa using Rows.mem_of_find h

theorem getInTx_mem (h : l.getInTx requestId = .ok row) :
    row ∈ l.requests ∧ row.requestId = requestId := request?_mem (getInTx_ok.mp h).2.1

theorem transact_ok {decide : Request → Except Refusal (Option Request)} {out : Request × Ledger} :
    l.transact requestId decide = .ok out ↔ ∃ row, l.getInTx requestId = .ok row ∧
      ((decide row = .ok none ∧ out = (row, l)) ∨
        ∃ new, decide row = .ok (some new) ∧
          (l.set new).getInTx requestId = .ok out.1 ∧ out.2 = l.set new) := by
  unfold Ledger.transact
  cases hg : l.getInTx requestId with
  | error e => simp
  | ok row =>
    dsimp only
    cases hd : decide row with
    | error e => simp [hd]
    | ok o =>
      cases o with
      | none => simp [hd, eq_comm]
      | some new =>
        dsimp only
        simp only [map_ok, Except.ok.injEq]
        constructor
        · rintro ⟨r, hr, rfl⟩
          exact ⟨row, rfl, .inr ⟨new, hd, hr, rfl⟩⟩
        · rintro ⟨row', rfl, ⟨h, _⟩ | ⟨new', h, hr, hl⟩⟩
          · simp [hd] at h
          · have he : new = new' := by simpa [hd] using h
            subst he
            exact ⟨out.1, hr, by rw [← hl]⟩

/-- A successful operation that is not a dispatch leaves the ledger as it is, or replaces the row of
its request by a successor that passes the checks of a read. -/
def Ledger.Updates (l : Ledger) (requestId : PyStr) (l' : Ledger) : Prop :=
  l' = l ∨ ∃ old new, l.getInTx requestId = .ok old ∧ Moves old new ∧ l' = l.set new ∧
    ∃ r, l'.getInTx requestId = .ok r

theorem transact_updates {decide : Request → Except Refusal (Option Request)}
    {out : Request × Ledger} (h : l.transact requestId decide = .ok out)
    (hd : ∀ old new, decide old = .ok (some new) → Moves old new) :
    l.Updates requestId out.2 := by
  obtain ⟨old, hold, ⟨_, rfl⟩ | ⟨new, hnew, hr, hl⟩⟩ := transact_ok.mp h
  · exact .inl rfl
  · exact .inr ⟨old, new, hold, hd old new hnew, hl, out.1, by rw [hl]; exact hr⟩

end

section Operations
variable [Patterns] {l : Ledger} {requestId : PyStr} {now : Nat} {out : Request × Ledger}

theorem authorize_updates {promptSha256 scope : PyStr} {acknowledged : Bool}
    (h : authorize l requestId promptSha256 scope acknowledged now = .ok out) :
    l.Updates requestId out.2 := by
  unfold authorize at h
  simp only [↓bind_ok, ↓unless_ok] at h
  obtain ⟨_, _, _, _, _, _, _, h⟩ := h
  apply transact_updates h
  intro old new hd
  simp only [↓bind_ok, ↓unless_ok] at hd
  simp only [ite_ok, bind_throw_ok, pure_ok, reduceCtorEq, and_false, false_or,
    Option.some.injEq] at hd
  obtain ⟨_, _, _, _, hs, rfl⟩ := hd
  exact ⟨rfl, by simpa [Decidable.not_not.mp hs] using Advances.authorize⟩

theorem submitted_updates {observed uiMode url : PyStr} {full : Bool}
    (h : submitted l requestId observed uiMode full url now = .ok out) :
    l.Updates requestId out.2 := by
  unfold submitted at h
  simp only [↓bind_ok, ↓unless_ok] at h
  obtain ⟨_, _, _, _, _, _, h⟩ := h
  apply transact_updates h
  intro old new hd
  simp only [↓bind_ok, ↓unless_ok] at hd
  simp only [ite_ok, bind_throw_ok, pure_ok, reduceCtorEq, and_false, false_or,
    Option.some.injEq] at hd
  obtain ⟨_, _, _, _, hs, rfl⟩ := hd
  exact ⟨rfl, .attest (either_of hs)⟩

theorem finish_updates {target : Finish} {a : Attestation} {absent : Except Refusal Unit}
    (h : finish l requestId target a absent now = .ok out) : l.Updates requestId out.2 := by
  simp only [finish, bind_ok] at h
  obtain ⟨_, _, _, _, h⟩ := h
  apply transact_updates h
  intro old new hd
  simp only [↓bind_ok, ↓unless_ok] at hd
  simp only [ite_ok, bind_throw_ok, pure_ok, reduceCtorEq, and_false, false_or] at hd
  obtain ⟨_, _, _, _, _, hs, hd⟩ := hd
  simp only [↓bind_ok, ↓unless_ok, pure_ok, Option.some.injEq] at hd
  obtain ⟨_, _, _, rfl⟩ := hd
  exact ⟨rfl, .finish target (either_of hs)⟩

theorem recover_updates {observation reason : PyStr}
    (h : recover l requestId observation reason now = .ok out) : l.Updates requestId out.2 := by
  unfold recover at h
  simp only [↓unless_ok] at h
  obtain ⟨_, h⟩ := h
  have ht : ∀ old new : Request, ((do
      l.assertLineage old true
      if old.state = .deliveryUnknown then return none
      if old.state ≠ .dispatching ∧ old.state ≠ .submitted then
        throw (.state ("cannot mark delivery unknown from state " ++ old.state.name))
      return some { old with state := .deliveryUnknown, updatedNs := now }) :
      Except Refusal (Option Request)) = .ok (some new) → Moves old new := by
    intro old new hd
    simp only [↓bind_ok] at hd
    simp only [ite_ok, bind_throw_ok, pure_ok, reduceCtorEq, and_false, false_or,
      Option.some.injEq] at hd
    obtain ⟨_, _, _, hs, rfl⟩ := hd
    exact ⟨rfl, .recover (either_of hs)⟩
  rcases ite_ok.mp h with ⟨_, h⟩ | ⟨_, h⟩
  · simp only [↓bind_ok] at h
    obtain ⟨_, _, _, _, h⟩ := h
    exact transact_updates h ht
  · exact transact_updates h ht

theorem failNotSubmitted_updates {reason evidence : PyStr} {acknowledged : Bool}
    {token : Option PyStr}
    (h : failNotSubmitted l requestId reason evidence acknowledged token now = .ok out) :
    l.Updates requestId out.2 := by
  unfold failNotSubmitted at h
  simp only [↓bind_ok, ↓unless_ok] at h
  obtain ⟨_, _, _, _, _, _, _, _, _, h⟩ := h
  apply transact_updates h
  intro old new hd
  simp only [↓bind_ok] at hd
  obtain ⟨_, _, hd⟩ := hd
  rcases ite_ok.mp hd with ⟨_, hd⟩ | ⟨_, hd⟩
  · simp only [↓unless_ok] at hd
    rcases ite_ok.mp hd.2 with ⟨_, hd⟩ | ⟨_, hd⟩
    · simp [↓bind_ok, ↓unless_ok, pure_ok] at hd
    · simp [↓unless_ok, pure_ok] at hd
  · simp only [↓unless_ok] at hd
    obtain ⟨hs, _, hd⟩ := hd
    have hs : old.state = .authorized ∨ old.state = .dispatching := either_of hs
    rcases ite_ok.mp hd with ⟨_, hd⟩ | ⟨_, hd⟩
    · simp only [↓bind_ok, ↓unless_ok, pure_ok, Option.some.injEq] at hd
      obtain ⟨_, _, _, rfl⟩ := hd
      exact ⟨rfl, .fail hs⟩
    · simp only [pure_ok, Option.some.injEq] at hd
      subst hd
      exact ⟨rfl, .fail hs⟩

theorem abandon_updates {reason : PyStr} {acknowledged : Bool}
    (h : abandon l requestId reason acknowledged now = .ok out) : l.Updates requestId out.2 := by
  simp only [abandon, bind_ok] at h
  obtain ⟨_, _, _, _, h⟩ := h
  apply transact_updates h
  intro old new hd
  simp only [↓bind_ok] at hd
  simp only [ite_ok, bind_throw_ok, pure_ok, reduceCtorEq, and_false, false_or,
    Option.some.injEq] at hd
  obtain ⟨_, _, ha, hs, _, rfl⟩ := hd
  refine ⟨rfl, ?_⟩
  cases hb : old.state.ambiguous with
  | true => simpa [hb] using Advances.give_up hb
  | false =>
    simpa [hb] using Advances.abandon (waiting_of hs hb)

omit [Patterns] in
theorem importCommit_updates (h : importCommit l requestId now = .ok out) :
    l.Updates requestId out.2 := by
  apply transact_updates h
  intro old new hd
  simp only [↓bind_ok] at hd
  simp only [ite_ok, bind_throw_ok, pure_ok, reduceCtorEq, and_false, or_false,
    Option.some.injEq] at hd
  obtain ⟨_, _, hs, rfl⟩ := hd
  exact ⟨rfl, by simpa [hs] using Advances.import⟩

theorem adopt_updates {strategy : PyStr} {acknowledged : Bool}
    (h : adopt l requestId strategy acknowledged now = .ok out) : l.Updates requestId out.2 := by
  unfold adopt at h
  simp only [↓bind_ok, ↓unless_ok] at h
  obtain ⟨_, _, _, _, _, _, h⟩ := h
  apply transact_updates h
  intro old new hd
  simp only [↓bind_ok, ↓unless_ok] at hd
  simp only [ite_ok, bind_throw_ok, pure_ok, reduceCtorEq, and_false, false_or,
    Option.some.injEq] at hd
  obtain ⟨_, _, _, _, hs, rfl⟩ := hd
  exact ⟨rfl, by simpa [Decidable.not_not.mp hs] using Advances.adopt⟩

omit [Patterns] in
theorem writeAnchorOnce_ok {raw : List Nat} {r : PyStr × Ledger}
    (h : l.writeAnchorOnce requestId raw = .ok r) :
    l.anchors requestId = none ∧ r = (sha256Bytes raw, l.anchored requestId raw) := by
  unfold Ledger.writeAnchorOnce at h
  cases ha : l.anchors requestId with
  | some _ => simp [ha] at h
  | none =>
    simp only [ha, Except.ok.injEq] at h
    exact ⟨rfl, h.symm⟩

omit [Patterns] in
/-- A dispatch that returns has found its request authorised and without an anchor, has written the
anchor, and has left the row dispatching. -/
theorem dispatchCommit_ok {url : Option PyStr} {authority : Authority} {token : Uuid}
    (h : dispatchCommit l requestId url authority token now = .ok out) :
    ∃ old raw, l.getInTx requestId = .ok old ∧ old.state = .authorized ∧
      l.anchors requestId = none ∧
      out.2 = (l.anchored requestId raw).set (old.dispatched (sha256Text token.text) raw now) ∧
      out.2.getInTx requestId = .ok out.1 := by
  unfold dispatchCommit dispatchCas at h
  simp only [↓bind_ok, ↓unless_ok, pure_ok, Prod.exists, Prod.mk.injEq] at h
  obtain ⟨_, raw, ⟨_, _, _, _, old, hold, _, _, hs, _, _, rfl, rfl⟩, digest, anchored, hw, r, hr, rfl⟩ := h
  obtain ⟨hn, hw⟩ := writeAnchorOnce_ok hw
  obtain ⟨rfl, rfl⟩ := Prod.mk.inj hw
  exact ⟨old, _, hold, Decidable.not_not.mp hs, hn, rfl, hr⟩

end Operations

section Prepare
variable [Patterns] {l : Ledger} {a : PrepareArgs} {authority : Authority} {requestId : Uuid}
  {now : Nat} {out : Request × Ledger}

/-- What the insertion of a new request has found. -/
structure Inserts (l : Ledger) (row : Request) : Prop where
  state : row.state = .prepared
  prompt : row.promptSha256 = sha256Text row.prompt
  active : ∀ other ∈ l.requests, other.promptSha256 = row.promptSha256 →
    other.state.terminal = true ∧ other.state ≠ .ownerAbandonedOutcomeUnknown
  fresh : l.collides row = false
  predecessor : ∀ p, row.predecessor = some p →
    ∃ q ∈ l.requests, q.requestId = p.requestId ∧ q.state.continuable = true

omit [Patterns] in
/-- A fold whose steps all return something ends with nothing only on no rows. -/
theorem foldl_none {f : Option Request → Request → Option Request} (hf : ∀ o r, f o r ≠ none)
    {rows : List Request} (h : rows.foldl f none = none) : rows = [] := by
  induction rows using List.reverseRecOn with
  | nil => rfl
  | append_singleton rows row _ =>
    rw [List.foldl_append, List.foldl_cons, List.foldl_nil] at h
    exact (hf _ _ h).elim

omit [Patterns] in
theorem newest_none {rows : List Request} (h : newest rows = none) : rows = [] := by
  refine foldl_none ?_ h
  intro o r
  cases o with
  | none => simp
  | some b => dsimp only; split <;> simp

omit [Patterns] in
/-- A new request continues a conversation whose response is known. -/
theorem prepareLineage_ok {lineage : Option (Predecessor × PyStr × Nat)}
    (h : prepareLineage l a = .ok lineage) : ∀ p, lineage.map (fun x => x.1) = some p →
      ∃ q ∈ l.requests, q.requestId = p.requestId ∧ q.state.continuable = true := by
  intro p hp
  unfold prepareLineage at h
  cases hc : a.continues with
  | none =>
    rw [hc] at h
    simp only [Except.ok.injEq] at h
    rw [← h] at hp
    cases hp
  | some c =>
    rw [hc] at h
    simp only [↓bind_ok, ↓unless_ok, pure_ok] at h
    obtain ⟨q, hq, _, hs, _, _, rfl⟩ := h
    obtain ⟨hm, hid⟩ := getInTx_mem hq
    simp only [Option.map_some, Option.some.injEq] at hp
    subst hp
    exact ⟨q, hm, hid, by simpa using hs⟩

theorem prepareInsert_ok (h : prepareInsert l a authority requestId now = .ok out) :
    out.2 = l ∨ ∃ row, Inserts l row ∧ out.2 = { l with requests := l.requests ++ [row] } ∧
      out.2.getInTx row.requestId = .ok out.1 := by
  unfold prepareInsert at h
  obtain ⟨_, _, h⟩ := bind_ok.mp h
  obtain ⟨_, _, h⟩ := bind_ok.mp h
  obtain ⟨checkpoint, _, h⟩ := bind_ok.mp h
  obtain ⟨existing, _, h⟩ := bind_ok.mp h
  cases existing with
  | some row =>
    simp only [pure_ok] at h
    exact .inl (by rw [← h])
  | none =>
    dsimp only at h
    cases hn : newest (l.requests.filter fun row =>
        row.promptSha256 = sha256Text a.prompt ∧ ¬ row.state.terminal) with
    | some row =>
      rw [hn] at h
      exact (bind_throw_ok.mp h).elim
    | none =>
      rw [hn] at h
      simp only [↓unless_ok, ↓bind_ok] at h
      obtain ⟨ha, lineage, hlineage, h⟩ := h
      have hfresh : l.collides (a.row l.projectDir checkpoint lineage requestId.text now) = false ∧
          ∃ r, ({ l with requests := l.requests ++
              [a.row l.projectDir checkpoint lineage requestId.text now] } : Ledger).getInTx
                requestId.text = .ok r ∧ (r, { l with requests := l.requests ++
              [a.row l.projectDir checkpoint lineage requestId.text now] }) = out := by
        cases hp : (a.row l.projectDir checkpoint lineage requestId.text now).predecessor with
        | none =>
          simp only [hp, ↓unless_ok, ↓bind_ok, pure_ok] at h
          exact ⟨by simpa using h.1, h.2⟩
        | some p =>
          simp only [hp, ↓unless_ok, ↓bind_ok, pure_ok] at h
          obtain ⟨_, _, hc, h⟩ := h
          exact ⟨by simpa using hc, h⟩
      obtain ⟨hc, r, hr, rfl⟩ := hfresh
      refine .inr ⟨_, ⟨rfl, rfl, ?_, hc, prepareLineage_ok hlineage⟩, rfl, hr⟩
      intro other ho hsame
      have hsame : other.promptSha256 = sha256Text a.prompt := hsame
      constructor
      · have := newest_none hn
        rw [List.filter_eq_nil_iff] at this
        simpa [hsame] using this other ho
      · intro hs
        apply ha
        rw [List.any_eq_true]
        exact ⟨other, ho, by simp [hsame, hs]⟩

end Prepare
end Danus.Strategy
