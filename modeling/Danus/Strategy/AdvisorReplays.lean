import Danus.Strategy.AdvisorLineage
import Danus.Strategy.SpendLedger

/-! What a call of a broker that returns has found recorded, and what it answers once more. -/
namespace Danus.Strategy
open Python Machines Checks

/-- A call that brings a request to a state which records it, with its arguments. -/
inductive Call where
  | authorize (promptSha256 scope : PyStr) (acknowledged : Bool)
  | submitted (observedPromptSha256 uiMode : PyStr) (fullPromptObserved : Bool) (url : PyStr)
  | finish (target : Finish) (a : Attestation)
  | failNotSubmitted (reason evidence : PyStr) (acknowledged : Bool) (token : Option PyStr)
  | abandon (reason : PyStr) (acknowledged : Bool)
  | importResult (response : PyStr)
  | adopt (strategy : PyStr) (acknowledged : Bool)

inductive Method where
  | authorize | submitted | complete | needsInput | failNotSubmitted | abandon | importResult | adopt
  deriving DecidableEq

def Call.method : Call → Method
  | .authorize .. => .authorize
  | .submitted .. => .submitted
  | .finish .completed _ => .complete
  | .finish .needsUserInput _ => .needsInput
  | .failNotSubmitted .. => .failNotSubmitted
  | .abandon .. => .abandon
  | .importResult _ => .importResult
  | .adopt .. => .adopt

/-- The states that the calls of a method bring a request to. -/
def Method.Settles (s : RequestState) : Method → Prop
  | .authorize => s = .authorized
  | .submitted => s = .submitted
  | .complete => s = .completed
  | .needsInput => s = .needsUserInput
  | .failNotSubmitted => s = .failedNotSubmitted
  | .abandon => s = .abandoned ∨ s = .ownerAbandonedOutcomeUnknown
  | .importResult => s = .imported
  | .adopt => s = .adopted

section Calls
variable [Patterns]

/-- The transactions of `import_result`, one after the other. -/
def importTransactions (l : Ledger) (requestId response : PyStr) (now : Nat) :
    Except Refusal (Request × Ledger) := do
  let row ← importRead l requestId response
  let imported : Except Refusal Ledger :=
    if row.state = .completed then (importCommit l requestId now).map Prod.snd else pure l
  let l ← imported
  (l.getInTx requestId).map (·, l)

/-- The transactions of the call on this request at this time, where the scan of global memory says this of a
text. -/
def Call.run (l : Ledger) (requestId : PyStr) (now : Nat) (absent : PyStr → Except Refusal Unit) :
    Call → Except Refusal (Request × Ledger)
  | .authorize promptSha256 scope acknowledged =>
    Strategy.authorize l requestId promptSha256 scope acknowledged now
  | .submitted observed uiMode full url => Strategy.submitted l requestId observed uiMode full url now
  | .finish target a => Strategy.finish l requestId target a (absent a.response) now
  | .failNotSubmitted reason evidence acknowledged token =>
    Strategy.failNotSubmitted l requestId reason evidence acknowledged token now
  | .abandon reason acknowledged => Strategy.abandon l requestId reason acknowledged now
  | .importResult response => Strategy.importTransactions l requestId response now
  | .adopt strategy acknowledged => Strategy.adopt l requestId strategy acknowledged now

/-- The transaction of the call that commits the new state of its request. -/
def Call.commit (absent : PyStr → Except Refusal Unit) : Call → Operation
  | .authorize promptSha256 scope acknowledged => .authorize promptSha256 scope acknowledged
  | .submitted observed uiMode full url => .submitted observed uiMode full url
  | .finish target a => .finish target a (absent a.response)
  | .failNotSubmitted reason evidence acknowledged token =>
    .failNotSubmitted reason evidence acknowledged token
  | .abandon reason acknowledged => .abandon reason acknowledged
  | .importResult _ => .importCommit
  | .adopt strategy acknowledged => .adopt strategy acknowledged

/-- The arguments pass their own checks. -/
def Call.Valid : Call → Prop
  | .authorize promptSha256 scope acknowledged => validateHash promptSha256 "prompt hash" = .ok () ∧
    (∃ n, validateText scope "authorization scope" 4096 = .ok n) ∧
    assertNoSecret scope "authorization scope" = .ok () ∧ acknowledged = true
  | .submitted observed uiMode full url => validateHash observed "observed prompt hash" = .ok () ∧
    uiMode = "Pro".toList ∧ full = true ∧ validateUrl url = .ok ()
  | .finish _ a => a.validate = .ok ()
  | .failNotSubmitted reason evidence acknowledged _ =>
    (∃ n, validateText reason "pre-submit failure reason" 4096 = .ok n) ∧
    (∃ n, validateText evidence "before-click evidence" 4096 = .ok n) ∧
    assertNoSecret reason "pre-submit failure reason" = .ok () ∧
    assertNoSecret evidence "before-click evidence" = .ok () ∧ acknowledged = true
  | .abandon reason _ => (∃ n, validateText reason "abandon reason" 4096 = .ok n) ∧
    assertNoSecret reason "abandon reason" = .ok ()
  | .importResult response => (∃ n, validateText response "advisor response" (512 * 1024) = .ok n) ∧
    assertNoSecret response "advisor response" = .ok ()
  | .adopt strategy acknowledged => (∃ n, validateText strategy "adopted strategy" (512 * 1024) = .ok n) ∧
    assertNoSecret strategy "adopted strategy" = .ok () ∧ Patterns.controlSignals strategy = [] ∧
    acknowledged = true

/-- The token that a replayed pre-click failure must present. -/
def Request.RecordsToken (row : Request) (token : Option PyStr) : Prop :=
  if row.terminalPriorState = some .dispatching then
    PrepareArgs.optSafeId token "pre-click token" = .ok () ∧ tokenMatches row token = true
  else token = none

/-- The row is in the state that the call brings it to, and records the call's arguments. -/
def Call.Recorded (row : Request) : Call → Prop
  | .authorize promptSha256 scope _ => row.state = .authorized ∧ row.promptSha256 = promptSha256 ∧
    row.authorizationScopeSha256 = some (sha256Text scope)
  | .submitted observed uiMode _ url => row.state = .submitted ∧ row.promptSha256 = observed ∧
    row.uiMode = some uiMode ∧ row.conversationUrlSha256 = some (sha256Text url) ∧
    ∀ p, row.predecessor = some p → p.conversationUrlSha256 = sha256Text url
  | .finish target a => row.state = target.state ∧ row.promptSha256 = a.observedPromptSha256 ∧
    (row.replySha256 = some (sha256Text a.response) ∧ row.replyBytes = some (utf8Length a.response) ∧
      row.uiMode = some a.uiMode ∧ row.conversationUrlSha256 = some (sha256Text a.url) ∧
      row.stableSnapshots = some a.stableSnapshots ∧ row.attested = true ∧
      row.controlSignals = some (Patterns.controlSignals a.response)) ∧
    ∀ p, row.predecessor = some p → p.conversationUrlSha256 = sha256Text a.url
  | .failNotSubmitted reason evidence _ token => row.state = .failedNotSubmitted ∧
    (row.terminalReasonSha256 = some (sha256Text reason) ∧
      row.terminalEvidenceSha256 = some (sha256Text evidence) ∧ row.terminalAcknowledgement = some true) ∧
    row.RecordsToken token
  | .abandon reason acknowledged =>
    (row.state = .abandoned ∨ row.state = .ownerAbandonedOutcomeUnknown) ∧
    row.terminalReasonSha256 = some (sha256Text reason) ∧ row.terminalAcknowledgement = some acknowledged
  | .importResult response => row.state = .imported ∧ row.replySha256 = some (sha256Text response) ∧
    row.replyBytes = some (utf8Length response) ∧
    row.controlSignals = some (Patterns.controlSignals response)
  | .adopt strategy _ => row.state = .adopted ∧ row.adoptedStrategySha256 = some (sha256Text strategy)

/-- What a repetition of the call asks of the ledger and of global memory. -/
def Call.Admitted (l : Ledger) (row : Request) (absent : PyStr → Except Refusal Unit) : Call → Prop
  | .authorize .. => l.assertLineage row true = .ok ()
  | .submitted _ _ _ url => l.assertDelivery row (sha256Text url) true = .ok ()
  | .finish _ a => absent a.response = .ok () ∧ l.assertDelivery row (sha256Text a.url) false = .ok () ∧
    ∀ other ∈ l.requests, other.adoptedStrategySha256 ≠ some (sha256Text a.response)
  | .failNotSubmitted .. => l.assertLineage row true = .ok ()
  | .abandon .. => l.assertLineage row false = .ok ()
  | .importResult _ => l.assertLineage row false = .ok ()
  | .adopt strategy _ => l.assertLineage row false = .ok () ∧
    ∀ other ∈ l.requests, other.replySha256 ≠ some (sha256Text strategy)

/-- The same call, but for texts of the same digest. -/
def Call.Same : Call → Call → Prop
  | .authorize p s a, .authorize p' s' a' => p = p' ∧ sha256Text s = sha256Text s' ∧ a = a'
  | .submitted o m f u, .submitted o' m' f' u' =>
    o = o' ∧ m = m' ∧ f = f' ∧ sha256Text u = sha256Text u'
  | .finish t a, .finish t' a' => t = t' ∧ sha256Text a.response = sha256Text a'.response ∧
    sha256Text a.url = sha256Text a'.url ∧
    { a with response := [], url := [] } = { a' with response := [], url := [] }
  | .failNotSubmitted r e a t, .failNotSubmitted r' e' a' t' => sha256Text r = sha256Text r' ∧
    sha256Text e = sha256Text e' ∧ a = a' ∧ t.map sha256Text = t'.map sha256Text
  | .abandon r a, .abandon r' a' => sha256Text r = sha256Text r' ∧ a = a'
  | .importResult r, .importResult r' => sha256Text r = sha256Text r'
  | .adopt s a, .adopt s' a' => sha256Text s = sha256Text s' ∧ a = a'
  | _, _ => False

end Calls

section Answers
variable [Patterns] {l : Ledger} {id : PyStr} {now : Nat} {absent : PyStr → Except Refusal Unit}
  {row : Request} {out : Request × Ledger} {c c' : Call}

omit [Patterns] in
theorem validateText_ok {value : PyStr} {label : String} {maxBytes n : Nat} :
    validateText value label maxBytes = .ok n →  n = utf8Length value := by
  unfold validateText
  simp only [unless_error_ok, Except.ok.injEq]
  exact fun h => h.2.2.symm

omit [Patterns] in
theorem assertDelivery_url {u : PyStr} {head : Bool} (h : l.assertDelivery row u head = .ok ()) :
    ∀ p, row.predecessor = some p → p.conversationUrlSha256 = u := by
  intro p hp
  unfold Ledger.assertDelivery at h
  obtain ⟨_, _, h⟩ := Checks.bind_ok.mp h
  rw [hp] at h
  by_contra hne
  simp only [if_pos hne] at h
  exact throw_ok.mp h

omit [Patterns] in
/-- A replay of a transaction answers with the row that it found. -/
theorem transact_again {decide : Request → Except Refusal (Option Request)}
    (hg : l.getInTx id = .ok row) (hd : decide row = .ok none) : l.transact id decide = .ok (row, l) :=
  transact_ok.mpr ⟨row, hg, .inl ⟨hd, rfl⟩⟩

omit [Patterns] in
/-- A transaction that can only replay changes nothing. -/
theorem transact_settled {decide : Request → Except Refusal (Option Request)} {P : Prop}
    (hg : l.getInTx id = .ok row) (h : l.transact id decide = .ok out)
    (hd : ∀ o, decide row = .ok o → o = none ∧ P) : P ∧ out = (row, l) := by
  obtain ⟨row', hg', ⟨hnone, rfl⟩ | ⟨new, hsome, _⟩⟩ := transact_ok.mp h
  · obtain rfl : row = row' := Except.ok.inj (hg.symm.trans hg')
    exact ⟨(hd none hnone).2, rfl⟩
  · obtain rfl : row = row' := Except.ok.inj (hg.symm.trans hg')
    cases (hd _ hsome).1

theorem authorize_settled {promptSha256 scope : PyStr} {acknowledged : Bool} (hg : l.getInTx id = .ok row)
    (hs : row.state = .authorized)
    (h : authorize l id promptSha256 scope acknowledged now = .ok out) :
    (Call.authorize promptSha256 scope acknowledged).Valid ∧ l.assertLineage row true = .ok () ∧
      (Call.authorize promptSha256 scope acknowledged).Recorded row ∧ out = (row, l) := by
  unfold authorize at h
  simp only [↓Checks.bind_ok, ↓unless_ok] at h
  obtain ⟨_, hhash, n, htext, _, hsecret, hack, h⟩ := h
  refine ⟨⟨hhash, ⟨n, htext⟩, hsecret, by simpa using hack⟩, ?_⟩
  rw [← and_assoc]
  refine transact_settled hg h fun o hd => ?_
  obtain ⟨_, hl, hd⟩ := Checks.bind_ok.mp hd
  obtain ⟨hp, hd⟩ := unless_ok.mp hd
  rw [if_pos hs] at hd
  obtain ⟨hscope, hd⟩ := unless_ok.mp hd
  exact ⟨(pure_ok.mp hd).symm, hl, hs, not_not.mp hp, not_not.mp hscope⟩

theorem authorize_again {promptSha256 scope : PyStr} {acknowledged : Bool} (hg : l.getInTx id = .ok row)
    (hv : (Call.authorize promptSha256 scope acknowledged).Valid)
    (hr : (Call.authorize promptSha256 scope acknowledged).Recorded row)
    (hl : l.assertLineage row true = .ok ()) :
    authorize l id promptSha256 scope acknowledged now = .ok (row, l) := by
  obtain ⟨hhash, ⟨n, htext⟩, hsecret, rfl⟩ := hv
  obtain ⟨hs, hp, hscope⟩ := hr
  unfold authorize
  refine Checks.bind_ok.mpr ⟨(), hhash, Checks.bind_ok.mpr ⟨n, htext, Checks.bind_ok.mpr ⟨(), hsecret, ?_⟩⟩⟩
  refine unless_ok.mpr ⟨by simp, transact_again hg (Checks.bind_ok.mpr ⟨(), hl, ?_⟩)⟩
  simp [hs, hp, hscope, pure, Except.pure]

theorem submitted_settled {observed uiMode url : PyStr} {full : Bool} (hg : l.getInTx id = .ok row)
    (hs : row.state = .submitted) (h : submitted l id observed uiMode full url now = .ok out) :
    (Call.submitted observed uiMode full url).Valid ∧ l.assertDelivery row (sha256Text url) true = .ok () ∧
      (Call.submitted observed uiMode full url).Recorded row ∧ out = (row, l) := by
  unfold submitted at h
  simp only [↓Checks.bind_ok, ↓unless_ok] at h
  obtain ⟨_, hhash, hmode, hfull, _, hurl, h⟩ := h
  refine ⟨⟨hhash, not_not.mp hmode, by simpa using hfull, hurl⟩, ?_⟩
  rw [← and_assoc]
  refine transact_settled hg h fun o hd => ?_
  obtain ⟨_, hl, hd⟩ := Checks.bind_ok.mp hd
  obtain ⟨hp, hd⟩ := unless_ok.mp hd
  rw [if_pos hs] at hd
  obtain ⟨hsame, hd⟩ := unless_ok.mp hd
  obtain ⟨hm, hu⟩ := not_or.mp hsame
  exact ⟨(pure_ok.mp hd).symm, hl, hs, not_not.mp hp, not_not.mp hm, not_not.mp hu, assertDelivery_url hl⟩

theorem submitted_again {observed uiMode url : PyStr} {full : Bool} (hg : l.getInTx id = .ok row)
    (hv : (Call.submitted observed uiMode full url).Valid)
    (hr : (Call.submitted observed uiMode full url).Recorded row)
    (hl : l.assertDelivery row (sha256Text url) true = .ok ()) :
    submitted l id observed uiMode full url now = .ok (row, l) := by
  obtain ⟨hhash, hmode, rfl, hurl⟩ := hv
  obtain ⟨hs, hp, hm, hu, _⟩ := hr
  unfold submitted
  refine Checks.bind_ok.mpr ⟨(), hhash, unless_ok.mpr ⟨not_not.mpr hmode, unless_ok.mpr ⟨by simp, ?_⟩⟩⟩
  refine Checks.bind_ok.mpr ⟨(), hurl, transact_again hg (Checks.bind_ok.mpr ⟨(), hl, ?_⟩)⟩
  simp [hs, hp, hm, hu, pure, Except.pure]

theorem finish_settled {target : Finish} {a : Attestation} (hg : l.getInTx id = .ok row)
    (hs : row.state = target.state) (h : finish l id target a (absent a.response) now = .ok out) :
    a.validate = .ok () ∧ (Call.finish target a).Admitted l row absent ∧
      (Call.finish target a).Recorded row ∧ out = (row, l) := by
  simp only [finish, Checks.bind_ok] at h
  obtain ⟨_, hv, _, habsent, h⟩ := h
  refine ⟨hv, ?_⟩
  rw [← and_assoc]
  refine transact_settled hg h fun o hd => ?_
  obtain ⟨_, hl, hd⟩ := Checks.bind_ok.mp hd
  obtain ⟨hadopted, hd⟩ := unless_ok.mp hd
  obtain ⟨hp, hd⟩ := unless_ok.mp hd
  rw [if_pos hs] at hd
  obtain ⟨hsame, hd⟩ := unless_ok.mp hd
  simp only [not_or, not_not, Bool.not_eq_false] at hsame
  have hother : ∀ other ∈ l.requests, other.adoptedStrategySha256 ≠ some (sha256Text a.response) := by
    intro other ho
    simpa using any_false hadopted other ho
  exact ⟨(pure_ok.mp hd).symm, ⟨habsent, hl, hother⟩, hs, not_not.mp hp, hsame, assertDelivery_url hl⟩

theorem finish_again {target : Finish} {a : Attestation} (hg : l.getInTx id = .ok row)
    (hv : a.validate = .ok ()) (hr : (Call.finish target a).Recorded row)
    (ha : (Call.finish target a).Admitted l row absent) :
    finish l id target a (absent a.response) now = .ok (row, l) := by
  obtain ⟨habsent, hl, hother⟩ := ha
  obtain ⟨hs, hp, ⟨h1, h2, h3, h4, h5, h6, h7⟩, _⟩ := hr
  have hnone : ¬ (l.requests.any fun other =>
      other.adoptedStrategySha256 == some (sha256Text a.response)) = true := by
    simpa using hother
  unfold finish
  refine Checks.bind_ok.mpr ⟨(), hv, Checks.bind_ok.mpr ⟨(), habsent, transact_again hg (Checks.bind_ok.mpr ⟨(), hl, ?_⟩)⟩⟩
  refine unless_ok.mpr ⟨hnone, unless_ok.mpr ⟨not_not.mpr hp, ?_⟩⟩
  simp [hs, h1, h2, h3, h4, h5, h6, h7, pure, Except.pure]

theorem failNotSubmitted_settled {reason evidence : PyStr} {acknowledged : Bool} {token : Option PyStr}
    (hg : l.getInTx id = .ok row) (hs : row.state = .failedNotSubmitted)
    (h : failNotSubmitted l id reason evidence acknowledged token now = .ok out) :
    (Call.failNotSubmitted reason evidence acknowledged token).Valid ∧ l.assertLineage row true = .ok () ∧
      (Call.failNotSubmitted reason evidence acknowledged token).Recorded row ∧ out = (row, l) := by
  unfold failNotSubmitted at h
  simp only [↓Checks.bind_ok, ↓unless_ok] at h
  obtain ⟨n, htext, m, htext', _, hsecret, _, hsecret', hack, h⟩ := h
  refine ⟨⟨⟨n, htext⟩, ⟨m, htext'⟩, hsecret, hsecret', by simpa using hack⟩, ?_⟩
  rw [← and_assoc]
  refine transact_settled hg h fun o hd => ?_
  obtain ⟨_, hl, hd⟩ := Checks.bind_ok.mp hd
  rw [if_pos hs] at hd
  obtain ⟨hsame, hd⟩ := unless_ok.mp hd
  simp only [not_or, not_not] at hsame
  have htoken : o = none ∧ row.RecordsToken token := by
    unfold Request.RecordsToken
    by_cases hprior : row.terminalPriorState = some .dispatching
    · rw [if_pos hprior] at hd ⊢
      obtain ⟨_, hsafe, hd⟩ := Checks.bind_ok.mp hd
      obtain ⟨hmatch, hd⟩ := unless_ok.mp hd
      exact ⟨(pure_ok.mp hd).symm, hsafe, by simpa using hmatch⟩
    · rw [if_neg hprior] at hd ⊢
      obtain ⟨hnone, hd⟩ := unless_ok.mp hd
      exact ⟨(pure_ok.mp hd).symm, not_not.mp hnone⟩
  exact ⟨htoken.1, hl, hs, hsame, htoken.2⟩

theorem failNotSubmitted_again {reason evidence : PyStr} {acknowledged : Bool} {token : Option PyStr}
    (hg : l.getInTx id = .ok row)
    (hv : (Call.failNotSubmitted reason evidence acknowledged token).Valid)
    (hr : (Call.failNotSubmitted reason evidence acknowledged token).Recorded row)
    (hl : l.assertLineage row true = .ok ()) :
    failNotSubmitted l id reason evidence acknowledged token now = .ok (row, l) := by
  obtain ⟨⟨n, htext⟩, ⟨m, htext'⟩, hsecret, hsecret', rfl⟩ := hv
  obtain ⟨hs, ⟨h1, h2, h3⟩, htoken⟩ := hr
  unfold failNotSubmitted
  refine Checks.bind_ok.mpr ⟨n, htext, Checks.bind_ok.mpr ⟨m, htext', Checks.bind_ok.mpr ⟨(), hsecret, ?_⟩⟩⟩
  refine Checks.bind_ok.mpr ⟨(), hsecret', unless_ok.mpr ⟨by simp, transact_again hg (Checks.bind_ok.mpr ⟨(), hl, ?_⟩)⟩⟩
  rw [if_pos hs]
  refine unless_ok.mpr ⟨by simp [h1, h2, h3], ?_⟩
  unfold Request.RecordsToken at htoken
  by_cases hprior : row.terminalPriorState = some .dispatching
  · rw [if_pos hprior] at htoken ⊢
    exact Checks.bind_ok.mpr ⟨(), htoken.1, unless_ok.mpr ⟨by simp [htoken.2], rfl⟩⟩
  · rw [if_neg hprior] at htoken ⊢
    exact unless_ok.mpr ⟨not_not.mpr htoken, rfl⟩

theorem abandon_settled {reason : PyStr} {acknowledged : Bool} (hg : l.getInTx id = .ok row)
    (hs : row.state = .abandoned ∨ row.state = .ownerAbandonedOutcomeUnknown)
    (h : abandon l id reason acknowledged now = .ok out) :
    (Call.abandon reason acknowledged).Valid ∧ l.assertLineage row false = .ok () ∧
      (Call.abandon reason acknowledged).Recorded row ∧ out = (row, l) := by
  simp only [abandon, Checks.bind_ok] at h
  obtain ⟨n, htext, _, hsecret, h⟩ := h
  refine ⟨⟨⟨n, htext⟩, hsecret⟩, ?_⟩
  rw [← and_assoc]
  refine transact_settled hg h fun o hd => ?_
  obtain ⟨_, hl, hd⟩ := Checks.bind_ok.mp hd
  rw [if_pos hs] at hd
  obtain ⟨hsame, hd⟩ := unless_ok.mp hd
  simp only [not_or, not_not] at hsame
  exact ⟨(pure_ok.mp hd).symm, hl, hs, hsame⟩

theorem abandon_again {reason : PyStr} {acknowledged : Bool} (hg : l.getInTx id = .ok row)
    (hv : (Call.abandon reason acknowledged).Valid) (hr : (Call.abandon reason acknowledged).Recorded row)
    (hl : l.assertLineage row false = .ok ()) : abandon l id reason acknowledged now = .ok (row, l) := by
  obtain ⟨⟨n, htext⟩, hsecret⟩ := hv
  obtain ⟨hs, h1, h2⟩ := hr
  unfold abandon
  refine Checks.bind_ok.mpr ⟨n, htext, Checks.bind_ok.mpr ⟨(), hsecret, transact_again hg (Checks.bind_ok.mpr ⟨(), hl, ?_⟩)⟩⟩
  rw [if_pos hs]
  exact unless_ok.mpr ⟨by simp [h1, h2], rfl⟩

/-- The first transaction of an import finds the response that the completion recorded. -/
theorem importRead_ok {response : PyStr} (h : importRead l id response = .ok row) :
    (Call.importResult response).Valid ∧ l.getInTx id = .ok row ∧ l.assertLineage row false = .ok () ∧
      (row.state = .completed ∨ row.state = .imported ∨ row.state = .adopted) ∧
      row.replySha256 = some (sha256Text response) ∧ row.replyBytes = some (utf8Length response) ∧
      row.controlSignals = some (Patterns.controlSignals response) := by
  unfold importRead at h
  simp only [↓Checks.bind_ok, ↓unless_ok, pure_ok] at h
  obtain ⟨n, htext, _, hsecret, row', hg, _, hl, hs, hsame, rfl⟩ := h
  simp only [not_or, not_not, validateText_ok htext] at hsame
  exact ⟨⟨⟨n, htext⟩, hsecret⟩, hg, hl, by tauto, hsame⟩

theorem importTransactions_settled {response : PyStr} (hg : l.getInTx id = .ok row) (hs : row.state = .imported)
    (h : importTransactions l id response now = .ok out) :
    (Call.importResult response).Valid ∧ l.assertLineage row false = .ok () ∧
      (Call.importResult response).Recorded row ∧ out = (row, l) := by
  obtain ⟨row', hread, h⟩ := Checks.bind_ok.mp h
  obtain ⟨hv, hg', hl, _, hreply⟩ := importRead_ok hread
  obtain rfl : row = row' := Except.ok.inj (hg.symm.trans hg')
  obtain ⟨l', hl', h⟩ := Checks.bind_ok.mp h
  rw [if_neg (by rw [hs]; decide)] at hl'
  obtain rfl : l = l' := pure_ok.mp hl'
  obtain ⟨row', hg'', rfl⟩ := map_ok.mp h
  obtain rfl : row = row' := Except.ok.inj (hg.symm.trans hg'')
  exact ⟨hv, hl, ⟨hs, hreply⟩, rfl⟩

theorem importTransactions_again {response : PyStr} (hg : l.getInTx id = .ok row)
    (hv : (Call.importResult response).Valid) (hr : (Call.importResult response).Recorded row)
    (hl : l.assertLineage row false = .ok ()) : importTransactions l id response now = .ok (row, l) := by
  obtain ⟨⟨n, htext⟩, hsecret⟩ := hv
  obtain ⟨hs, h1, h2, h3⟩ := hr
  have hn := validateText_ok htext
  have hread : importRead l id response = .ok row := by
    unfold importRead
    refine Checks.bind_ok.mpr ⟨n, htext, Checks.bind_ok.mpr ⟨(), hsecret, Checks.bind_ok.mpr ⟨row, hg, Checks.bind_ok.mpr ⟨(), hl, ?_⟩⟩⟩⟩
    simp [hs, h1, h2, h3, hn, pure, Except.pure]
  unfold importTransactions
  refine Checks.bind_ok.mpr ⟨row, hread, Checks.bind_ok.mpr ⟨l, ?_, ?_⟩⟩
  · rw [if_neg (by rw [hs]; decide)]
    rfl
  · exact map_ok.mpr ⟨row, hg, rfl⟩

theorem adopt_settled {strategy : PyStr} {acknowledged : Bool} (hg : l.getInTx id = .ok row)
    (hs : row.state = .adopted) (h : adopt l id strategy acknowledged now = .ok out) :
    (Call.adopt strategy acknowledged).Valid ∧ (Call.adopt strategy acknowledged).Admitted l row absent ∧
      (Call.adopt strategy acknowledged).Recorded row ∧ out = (row, l) := by
  unfold adopt at h
  simp only [↓Checks.bind_ok, ↓unless_ok] at h
  obtain ⟨n, htext, _, hsecret, hsignals, hack, h⟩ := h
  refine ⟨⟨⟨n, htext⟩, hsecret, not_not.mp hsignals, by simpa using hack⟩, ?_⟩
  rw [← and_assoc]
  refine transact_settled hg h fun o hd => ?_
  obtain ⟨_, hl, hd⟩ := Checks.bind_ok.mp hd
  obtain ⟨hreply, hd⟩ := unless_ok.mp hd
  rw [if_pos hs] at hd
  obtain ⟨hsame, hd⟩ := unless_ok.mp hd
  have hother : ∀ other ∈ l.requests, other.replySha256 ≠ some (sha256Text strategy) := by
    intro other ho
    simpa using any_false hreply other ho
  exact ⟨(pure_ok.mp hd).symm, ⟨hl, hother⟩, hs, not_not.mp hsame⟩

theorem adopt_again {strategy : PyStr} {acknowledged : Bool} (hg : l.getInTx id = .ok row)
    (hv : (Call.adopt strategy acknowledged).Valid) (hr : (Call.adopt strategy acknowledged).Recorded row)
    (ha : (Call.adopt strategy acknowledged).Admitted l row absent) :
    adopt l id strategy acknowledged now = .ok (row, l) := by
  obtain ⟨⟨n, htext⟩, hsecret, hsignals, rfl⟩ := hv
  obtain ⟨hs, hsame⟩ := hr
  obtain ⟨hl, hother⟩ := ha
  have hnone : ¬ (l.requests.any fun other => other.replySha256 == some (sha256Text strategy)) = true := by
    simpa using hother
  unfold adopt
  refine Checks.bind_ok.mpr ⟨n, htext, Checks.bind_ok.mpr ⟨(), hsecret, unless_ok.mpr ⟨not_not.mpr hsignals, ?_⟩⟩⟩
  refine unless_ok.mpr ⟨by simp, transact_again hg (Checks.bind_ok.mpr ⟨(), hl, unless_ok.mpr ⟨hnone, ?_⟩⟩)⟩
  simp [hs, hsame, pure, Except.pure]

/-- On a request that the call's method has settled, a call that returns is admitted, finds its arguments
recorded, and changes nothing. -/
theorem Call.run_settled (hg : l.getInTx id = .ok row) (hs : c.method.Settles row.state)
    (h : c.run l id now absent = .ok out) :
    c.Valid ∧ c.Admitted l row absent ∧ c.Recorded row ∧ out = (row, l) := by
  cases c with
  | authorize => exact authorize_settled hg hs h
  | submitted => exact submitted_settled hg hs h
  | finish target a => cases target <;> exact finish_settled hg hs h
  | failNotSubmitted => exact failNotSubmitted_settled hg hs h
  | abandon => exact abandon_settled hg hs h
  | importResult => exact importTransactions_settled hg hs h
  | adopt => exact adopt_settled hg hs h

theorem Call.run_again (hg : l.getInTx id = .ok row) (hv : c.Valid) (hr : c.Recorded row)
    (ha : c.Admitted l row absent) : c.run l id now absent = .ok (row, l) := by
  cases c with
  | authorize => exact authorize_again hg hv hr ha
  | submitted => exact submitted_again hg hv hr ha
  | finish => exact finish_again hg hv hr ha
  | failNotSubmitted => exact failNotSubmitted_again hg hv hr ha
  | abandon => exact abandon_again hg hv hr ha
  | importResult => exact importTransactions_again hg hv hr ha
  | adopt => exact adopt_again hg hv hr ha

end Answers

section Books

/-- The project's spend ledger, which calls and deaths of calls have written, with what an import reads beside
it: the clock, and the seconds that its request took. -/
structure Books where
  floats : Spend.Floats
  py : Core.Interpreter
  spend : Spend.Ledger
  written : (Spend.machine floats py).Reachable spend
  tsUtc : PyStr
  seconds : PyFloat
  room : 0 < py.dumpsDepth
  finite : (Json.float seconds).finiteNumbers = true

/-- `_envelope`, of which `_record` reads these fields. -/
def envelopeOf (row : Request) (seconds : PyFloat) : List (PyStr × Json) :=
  [("transport".toList, .str "chatgpt_pro_browser".toList), ("model".toList, .null),
    ("ui_mode".toList, .str "Pro".toList), ("effort".toList, .null),
    ("attempt".toList, .str "owner-mediated-browser-ui".toList), ("status".toList, .str "completed".toList),
    ("seconds".toList, .float seconds), ("usage".toList, .null),
    ("billing_basis".toList, .str "subscription".toList), ("cost_usd".toList, .null),
    ("request_id".toList, .str row.requestId)]

theorem envelopeOf_keys (row : Request) (seconds : PyFloat) :
    (Json.obj (envelopeOf row seconds)).distinctKeys = true := by
  have hnames : ["transport".toList, "model".toList, "ui_mode".toList, "effort".toList, "attempt".toList,
      "status".toList, "seconds".toList, "usage".toList, "billing_basis".toList, "cost_usd".toList,
      "request_id".toList].Nodup := by decide
  exact (Json.distinct_obj _).mpr ⟨hnames, by simp [envelopeOf, Json.distinctKeys]⟩

/-- The call of `log_spend_summary` for an import. -/
def Books.call (books : Books) (row : Request) : Spend.Call where
  tsUtc := books.tsUtc
  envelope := envelopeOf row books.seconds
  keys := envelopeOf_keys row books.seconds

/-- What a call raises: of the broker, or of the spend ledger. -/
inductive CallRefusal where
  | broker (reason : Refusal)
  | spend (reason : Spend.Refusal)

/-- What a call answers with, and the two ledgers after it; an import's envelope has the totals. -/
structure Answer where
  row : Request
  ledger : Ledger
  file : List Nat
  totals : Option Spend.Summary

variable [Patterns]

/-- `import_result`: the spend ledger is written between its first transaction and its second. -/
def importResult (books : Books) (l : Ledger) (requestId response : PyStr) (now : Nat) :
    Except CallRefusal Answer := do
  let row ← (importRead l requestId response).mapError .broker
  let (file, totals) ← (Spend.logSpendSummary books.floats books.py books.spend.file (books.call row)).mapError .spend
  let (row, l) ← (importTransactions l requestId response now).mapError .broker
  return ⟨row, l, file, some totals⟩

/-- The call as its caller sees it. -/
def Call.answer (books : Books) (l : Ledger) (requestId : PyStr) (now : Nat)
    (absent : PyStr → Except Refusal Unit) : Call → Except CallRefusal Answer
  | .importResult response => Strategy.importResult books l requestId response now
  | c => ((c.run l requestId now absent).mapError .broker).map fun out => ⟨out.1, out.2, books.spend.file, none⟩

/-- The spend ledger is UTF-8, has the import's record, and has these totals. -/
def Call.Booked (books : Books) (id : PyStr) (totals : Option Spend.Summary) : Call → Prop
  | .importResult _ => ∃ records, Spend.ledgerRecords books.spend.file = some records ∧
      (∃ item ∈ records, Spend.requestId item = some id) ∧ totals = some (Spend.summary books.floats records)
  | _ => totals = none

variable {l : Ledger} {id : PyStr} {now : Nat} {absent : PyStr → Except Refusal Unit} {row : Request}
  {books : Books} {c : Call} {out : Answer} {totals : Option Spend.Summary}

omit [Patterns] in
theorem mapError_ok {ε ε' α : Type} {f : ε → ε'} {x : Except ε α} {a : α} :
    x.mapError f = .ok a ↔ x = .ok a := by
  cases x <;> simp [Except.mapError]

/-- The record of an import. -/
def Books.record (books : Books) (row : Request) : Json :=
  .obj [("ts_utc".toList, .str books.tsUtc), ("request_id".toList, .str row.requestId),
    ("transport".toList, .str "chatgpt_pro_browser".toList), ("model".toList, .null),
    ("ui_mode".toList, .str "Pro".toList), ("effort".toList, .null),
    ("attempt".toList, .str "owner-mediated-browser-ui".toList), ("status".toList, .str "completed".toList),
    ("input_tokens".toList, .null), ("output_tokens".toList, .null), ("reasoning_tokens".toList, .null),
    ("billing_basis".toList, .str "subscription".toList), ("cost_usd".toList, .null),
    ("seconds".toList, .float books.seconds)]

omit [Patterns] in
theorem Books.requestId_record : Spend.requestId (books.record row) = some row.requestId := rfl

omit [Patterns] in
/-- An import's record can be written. -/
theorem Books.call_record (hid : row.requestId ≠ []) :
    (books.call row).record books.floats books.py = .ok (books.record row) := by
  have hrecord : Spend.recordOf books.floats (books.call row).tsUtc (books.call row).envelope =
      .ok (books.record row) := by
    have hrequest : Spend.requestIdOf (.str row.requestId) = .ok (.str row.requestId) := if_neg hid
    unfold Spend.recordOf
    refine Checks.bind_ok.mpr ⟨[], rfl, Checks.bind_ok.mpr ⟨.str row.requestId, hrequest, ?_⟩⟩
    exact Checks.bind_ok.mpr ⟨.str "subscription".toList, rfl, rfl⟩
  have hroom := books.room
  have hfinite := books.finite
  unfold Spend.Call.record
  rw [hrecord]
  dsimp only
  rw [if_neg, if_neg]
  · have hnumbers : (books.record row).finiteNumbers = true := by
      unfold Books.record
      cases hs : books.seconds with
      | finite => rfl
      | infinite =>
        rw [hs] at hfinite
        cases hfinite
      | nan =>
        rw [hs] at hfinite
        cases hfinite
    rw [hnumbers]
    decide
  · simp [Books.record, Json.nesting, Json.nestingFields]
    omega

omit [Patterns] in
/-- `log_spend_summary` leaves the spend ledger of an import as it is where the import's record is in it. -/
theorem Books.spend_iff (hid : row.requestId ≠ []) {total : Spend.Summary} :
    Spend.logSpendSummary books.floats books.py books.spend.file (books.call row) = .ok (books.spend.file, total) ↔
      ∃ records, Spend.ledgerRecords books.spend.file = some records ∧
        (∃ item ∈ records, Spend.requestId item = some row.requestId) ∧
        total = Spend.summary books.floats records := by
  have hduplicate : ∀ records, Spend.isDuplicate (books.record row) records = true ↔
      ∃ item ∈ records, Spend.requestId item = some row.requestId := by
    intro records
    rw [Spend.isDuplicate_iff, Books.requestId_record]
    exact ⟨fun ⟨_, he, hitem⟩ => Option.some.inj he ▸ hitem, fun hitem => ⟨_, rfl, hitem⟩⟩
  unfold Spend.logSpendSummary
  rw [Books.call_record hid]
  dsimp only
  cases Spend.ledgerRecords books.spend.file with
  | none => simp
  | some records =>
    dsimp only
    by_cases hd : Spend.isDuplicate (books.record row) records = true
    · rw [if_pos hd]
      have hitem := (hduplicate records).mp hd
      constructor
      · intro h
        exact ⟨records, rfl, hitem, (Prod.mk.inj (Except.ok.inj h)).2.symm⟩
      · rintro ⟨_, he, _, rfl⟩
        rw [Option.some.inj he]
    · rw [if_neg hd]
      have hlonger : Core.appendJsonl books.spend.file (books.record row) ≠ books.spend.file := by
        intro he
        have hline : Core.entryLine (books.record row) = [] := List.append_right_eq_self.mp he
        rw [Core.entryLine, encodeUtf8_append] at hline
        cases (List.append_eq_nil_iff.mp hline).2
      constructor
      · intro h
        exact (hlonger (Prod.mk.inj (Except.ok.inj h)).1).elim
      · rintro ⟨_, he, hitem, _⟩
        exact (hd ((hduplicate records).mpr (Option.some.inj he ▸ hitem))).elim

/-- What the call answers with, its transactions answer with. -/
theorem Call.run_of_answer (h : c.answer books l id now absent = .ok out) :
    c.run l id now absent = .ok (out.row, out.ledger) := by
  have hplain : ((c.run l id now absent).mapError CallRefusal.broker).map
      (fun out => (⟨out.1, out.2, books.spend.file, none⟩ : Answer)) = .ok out →
      c.run l id now absent = .ok (out.row, out.ledger) := by
    intro h
    obtain ⟨_, hrun, rfl⟩ := Checks.map_ok.mp h
    exact mapError_ok.mp hrun
  cases c with
  | importResult response =>
    obtain ⟨_, _, h⟩ := Checks.bind_ok.mp h
    obtain ⟨⟨file, totals⟩, _, h⟩ := Checks.bind_ok.mp h
    obtain ⟨⟨row, l'⟩, hrun, h⟩ := Checks.bind_ok.mp h
    cases h
    exact mapError_ok.mp hrun
  | _ => exact hplain h

/-- A repetition that its transactions answer is answered so, with both ledgers as they were, exactly where the
spend ledger is readable and has its record. -/
theorem Call.answer_again (hid : row.requestId = id) (hne : id ≠ [])
    (hread : ∀ response, c = .importResult response → importRead l id response = .ok row)
    (hrun : c.run l id now absent = .ok (row, l)) :
    c.answer books l id now absent = .ok ⟨row, l, books.spend.file, totals⟩ ↔ c.Booked books id totals := by
  have hplain : ((c.run l id now absent).mapError CallRefusal.broker).map
      (fun out => (⟨out.1, out.2, books.spend.file, none⟩ : Answer)) =
        .ok ⟨row, l, books.spend.file, totals⟩ ↔ totals = none := by
    rw [hrun]
    simp [Except.mapError, Except.map, eq_comm]
  cases c with
  | importResult response =>
    have hread := hread response rfl
    have hspend := fun total => @Books.spend_iff row books (hid ▸ hne) total
    rw [hid] at hspend
    constructor
    · intro h
      obtain ⟨row', hread', h⟩ := Checks.bind_ok.mp h
      obtain rfl : row = row' := Except.ok.inj (hread.symm.trans (mapError_ok.mp hread'))
      obtain ⟨⟨file, total⟩, hlog, h⟩ := Checks.bind_ok.mp h
      obtain ⟨_, _, h⟩ := Checks.bind_ok.mp h
      cases h
      obtain ⟨records, hrecords, hitem, htotal⟩ := (hspend total).mp (mapError_ok.mp hlog)
      exact ⟨records, hrecords, hitem, congrArg some htotal⟩
    · rintro ⟨records, hrecords, hitem, rfl⟩
      refine Checks.bind_ok.mpr ⟨row, mapError_ok.mpr hread, Checks.bind_ok.mpr ⟨_, mapError_ok.mpr
        ((hspend _).mpr ⟨records, hrecords, hitem, rfl⟩), Checks.bind_ok.mpr ⟨_, mapError_ok.mpr hrun, rfl⟩⟩⟩
  | _ => exact hplain

end Books
end Danus.Strategy
