import Danus.Coordination.Recommendations
import Danus.Strategy.AdvisorEvidence

/-! The owner's `resolve-recommendation` beside the brokers: two databases, and one project fence that
preparation, dispatch and resolution hold from their checks to their commit. -/
namespace Danus.Orchestration
open Python Machines Checks Danus.Coordination
open Danus.Strategy (Advisor Authority Ledger Operation Patterns Provenance Request expectedProvenance sha256Text
  validateAdoptedMasterGuidance)

/-- `_RECOMMENDATION_RELEASE_SAFE_STATES` -/
def releaseSafe : Strategy.RequestState → Bool
  | .imported | .adopted | .failedNotSubmitted | .abandoned | .ownerAbandonedOutcomeUnknown
  | .needsUserInput => true
  | _ => false

/-- `_validate_prepare_recommendation` of a reasoning-first project. -/
def validatePrepareRecommendation (S : CoordinationStore) (db : Database) :
    Option PyStr → Except Strategy.Refusal Unit
  | none => .error (.state ("reasoning-first browser prepare requires an exact current " ++
      "recommendation id"))
  | some recommendationId =>
    match (S.perform (.validateOpenRecommendation recommendationId) db).1 with
    | .ok _ => .ok ()
    | .error _ => .error (.state ("browser prepare recommendation is not the exact current open " ++
        "recommendation"))

/-- `recommendation_request` -/
def recommendationRequest (l : Ledger) (recommendationId : PyStr) :
    Except Strategy.Refusal (Option Request) :=
  match l.requests.filter fun row => row.recommendationId = some recommendationId with
  | [] => .ok none
  | [row] => .ok (some row)
  | _ => .error (.conflict "recommendation has multiple browser-advisor requests")

/-- `assert_recommendation_releasable` -/
def assertRecommendationReleasable (l : Ledger) (recommendationId : PyStr) :
    Except Strategy.Refusal Unit := do
  match ← recommendationRequest l recommendationId with
  | none => return ()
  | some row =>
    if releaseSafe row.state = false then
      throw (.state ("recommendation browser request must reach an explicit release-safe state " ++
        "before paid reasoning resumes (state=" ++ row.state.name ++ ")"))

/-- The arguments of `do_resolve_recommendation`. -/
structure ResolveArgs where
  recommendationId : PyStr
  resolution : PyStr
  acknowledgeRecommendationId : PyStr
  acknowledgeResumePaidReasoning : Bool
  masterGuidanceEntryId : Option PyStr

/-- What the command reads of the guidance record in global memory: its kind, the recommendation it
links, the digest of its canonical text, and its provenance if that is the browser's. -/
structure Guidance where
  kind : PyStr
  recommendationId : Option PyStr
  recordSha256 : PyStr
  evidence : PyStr
  provenance : Option Provenance

namespace ResolveArgs
variable (a : ResolveArgs)

def continues : Prop := a.resolution = "continue-without-advisor".toList

def adopts : Prop := a.resolution = "adopted-master-guidance".toList

instance : Decidable a.continues := inferInstanceAs (Decidable (_ = _))

instance : Decidable a.adopts := inferInstanceAs (Decidable (_ = _))

/-- `resolution.replace("-", "_")` -/
def normalized : PyStr :=
  a.resolution.map fun c => if c = '-' then '_' else c

/-- What is asked of the store without a browser's receipt. -/
def request (recordSha256 browserRequestId browserReceiptSha256 : Option PyStr) : ResolutionRequest :=
  ⟨a.recommendationId, a.normalized, a.acknowledgeRecommendationId, a.masterGuidanceEntryId,
    recordSha256, browserRequestId, browserReceiptSha256⟩

/-- What the guidance adds to the request; `none` where the command exits. -/
def withGuidance (l : Ledger) (guidance : Guidance) : Option ResolutionRequest :=
  if guidance.kind = "master_guidance".toList ∧
      guidance.recommendationId = some a.recommendationId then
    match guidance.provenance with
    | none => some (a.request (some guidance.recordSha256) none none)
    | some provenance =>
      if provenance.recommendationId = some a.recommendationId then
        match validateAdoptedMasterGuidance l provenance guidance.evidence with
        | .ok _ => some (a.request (some guidance.recordSha256) (some provenance.requestId)
            (some provenance.receiptSha256))
        | .error _ => none
      else none
  else none

/-- The checks of `do_resolve_recommendation` up to its commit, with what global memory has under the
guidance's id: `none` where the command exits, or finds its resolution recorded already. -/
def check (db : Database) (l : Ledger) (guidance : Option Guidance) : Option ResolutionRequest :=
  if a.acknowledgeRecommendationId = a.recommendationId ∧ a.acknowledgeResumePaidReasoning = true ∧
      (a.continues ∧ a.masterGuidanceEntryId = none ∨ a.adopts ∧ a.masterGuidanceEntryId ≠ none) ∧
      db.1.resolution? a.recommendationId = none then
    if a.continues then
      match assertRecommendationReleasable l a.recommendationId with
      | .ok _ => some (a.request none none none)
      | .error _ => none
    else guidance.bind (a.withGuidance l)
  else none

end ResolveArgs

/-- A holder of the project fence between its checks and its commit. -/
inductive Fenced where
  | browser (event : Strategy.Event)
  | resolve (q : ResolutionRequest)

structure World where
  store : Database
  advisor : Advisor
  fence : Option Fenced

/-- The event of a broker commits under the fence, with a recommendation checked before. -/
def needsFence : Strategy.Event → Bool
  | .prepare .. | .operate _ _ (.dispatch ..) | .die .. => true
  | _ => false

/-- The event with this verdict on its recommendation. -/
def withVerdict (verdict : Except Strategy.Refusal Unit) : Strategy.Event → Strategy.Event
  | .prepare a authority requestId now =>
    .prepare a { authority with recommendation := verdict } requestId now
  | .operate requestId now (.dispatch url authority token) =>
    .operate requestId now (.dispatch url { authority with recommendation := verdict } token)
  | .die requestId now url authority token point =>
    .die requestId now url { authority with recommendation := verdict } token point
  | event => event

/-- The recommendation of the event: of the new request, or of the one that is dispatched. -/
def recommendationOf (l : Ledger) : Strategy.Event → Option PyStr
  | .prepare a _ _ _ => a.recommendationId
  | .operate requestId _ _ | .die requestId _ _ _ _ _ =>
    (l.requests.find? fun row => row.requestId = requestId).bind Request.recommendationId
  | _ => none

/-- A step of any process: `enter` and `resolve` take the fence and make the checks, `commit` commits
and releases it, `drop` is the death of its holder. -/
inductive Event where
  | enter (event : Strategy.Event)
  | resolve (a : ResolveArgs) (guidance : Option Guidance)
  | commit (now : Stamp)
  | drop
  | browser (event : Strategy.Event) (free : needsFence event = false)
  | call (c : StoreCall) (other : c.resolves = false)

namespace World
variable [Patterns] (S : CoordinationStore) (w : World)

def commit (now : Stamp) : World :=
  match w.fence with
  | none => w
  | some (.browser event) => { w with advisor := w.advisor.step event, fence := none }
  | some (.resolve q) =>
    { w with store := (S.perform (.resolveRecommendation q now) w.store).2, fence := none }

def step : Event → World
  | .enter event =>
    if w.fence.isNone ∧ needsFence event = true then
      { w with fence := some (.browser (withVerdict (validatePrepareRecommendation S w.store
          (recommendationOf w.advisor.ledger event)) event)) }
    else w
  | .resolve a guidance =>
    if w.fence.isNone then
      { w with fence := (a.check w.store w.advisor.ledger guidance).map Fenced.resolve }
    else w
  | .commit now => w.commit S now
  | .drop => { w with fence := none }
  | .browser event _ => { w with advisor := w.advisor.step event }
  | .call c _ => { w with store := (S.perform c w.store).2 }

end World

/-- The processes over both databases, from a new project. -/
def machine [Patterns] (S : CoordinationStore) (projectDir : PyStr) : Machine World Event where
  start w := S.machine.start w.store ∧ w.advisor = Advisor.initial projectDir ∧ w.fence = none
  step w event w' := w.step S event = w'

section Rows
variable {l l' : Ledger} {old new : Request} {op : Operation}

/-- What an operation writes keeps the recommendation, a release-safe state, and adoption. -/
structure Follows (old new : Request) : Prop where
  requestId : new.requestId = old.requestId
  recommendationId : new.recommendationId = old.recommendationId
  releaseSafe : releaseSafe old.state = true → Orchestration.releaseSafe new.state = true
  adopted : old.state = .adopted → new.state = .adopted

theorem Follows.refl (row : Request) : Follows row row := ⟨rfl, rfl, id, id⟩

/-- Nothing but adoption leaves a release-safe state. -/
theorem writes_follows (h : l.Writes old op new) : Follows old new := by
  refine ⟨(congrArg Request.requestId h.identity :), (congrArg Request.recommendationId h.identity :),
    fun hs => ?_, fun hs => ?_⟩
  · cases h with
    | authorize _ h | dispatch _ _ _ h | importCommit _ h => simp [h, releaseSafe] at hs
    | submitted _ h | recover _ h | failNotSubmitted _ h => rcases h with h | h <;> simp [h, releaseSafe] at hs
    | finish _ _ _ h _ => rcases h with h | h <;> simp [h, releaseSafe] at hs
    | abandon _ h =>
      cases hst : old.state <;> simp [hst, releaseSafe, Strategy.RequestState.ambiguous] at hs h
    | adopt _ _ _ => rfl
  · cases h with
    | authorize _ h | dispatch _ _ _ h | importCommit _ h => simp [h] at hs
    | submitted _ h | recover _ h | failNotSubmitted _ h => rcases h with h | h <;> simp [h] at hs
    | finish _ _ _ h _ => rcases h with h | h <;> simp [h] at hs
    | abandon _ h => simp [hs, Strategy.RequestState.ambiguous] at h
    | adopt _ _ _ => rfl

/-- Every row is followed, and every row follows another or is new. -/
structure Moves (event : Strategy.Event) (l l' : Ledger) : Prop where
  kept : ∀ old ∈ l.requests, ∃ new ∈ l'.requests, Follows old new
  origin : ∀ new ∈ l'.requests, (∃ old ∈ l.requests, Follows old new) ∨
    ∃ a authority requestId now, event = .prepare a authority requestId now ∧
      authority.recommendation = .ok () ∧ new.recommendationId = a.recommendationId

theorem step_moves [Patterns] {s : Advisor} (hs : s.Safe) (event : Strategy.Event) :
    Moves event s.ledger (s.step event).ledger := by
  rcases s.step_changes hs event with he | ⟨a, authority, requestId, now, row, rfl, hi, he⟩ |
    ⟨requestId, op, _, old, new, hold, hw, he⟩
  · refine ⟨fun old h => ⟨old, he ▸ h, .refl old⟩, fun new h => .inl ⟨new, ?_, .refl new⟩⟩
    rw [he] at h
    exact h
  · refine ⟨fun old h => ⟨old, ?_, .refl old⟩, fun new h => ?_⟩
    · rw [he]
      exact List.mem_append_left _ h
    · rw [he] at h
      rcases List.mem_append.mp h with h | h
      · exact .inl ⟨new, h, .refl new⟩
      · obtain ⟨_, _, _, _, _, hmade⟩ := hi.made
        rw [List.mem_singleton.mp h]
        exact .inr ⟨a, authority, requestId, now, rfl, hi.recommendation, by rw [hmade]; rfl⟩
  · have hf := writes_follows hw
    have hm := Strategy.getInTx_mem hold
    refine ⟨fun x hx => ?_, fun x hx => ?_⟩
    · rw [he]
      exact Rows.exists_set_of_mem hs.ledger.requestIds hm.1 hf.requestId.symm Follows.refl hf hx
    · rw [he] at hx
      rcases Rows.mem_set_cases hx with rfl | ⟨hx, _⟩
      · exact .inl ⟨old, hm.1, hf⟩
      · exact .inl ⟨x, hx, .refl x⟩

theorem step_safe [Patterns] {s : Advisor} (hs : s.Safe) (event : Strategy.Event) :
    (s.step event).Safe := by
  rcases Advisor.step_cases hs event with he | ⟨l', clicked, hstep, he⟩
  · rw [he]
    exact hs
  · rw [he]
    exact hs.step hstep

/-- A click is authorised by a dispatch whose recommendation passed, of a request of the ledger. -/
theorem step_clicked [Patterns] {s : Advisor} (event : Strategy.Event) :
    (s.step event).clicked = s.clicked ∨ ∃ requestId now url authority token,
      event = .operate requestId now (.dispatch url authority token) ∧
      (s.step event).clicked = s.clicked ++ [requestId] ∧ authority.recommendation = .ok () ∧
      ∃ row ∈ s.ledger.requests, row.requestId = requestId := by
  unfold Advisor.step
  cases hr : event.run s.ledger with
  | error e => exact .inl rfl
  | ok out =>
    cases event with
    | operate requestId now op =>
      obtain ⟨r, hop, rfl⟩ := map_ok.mp hr
      cases op with
      | dispatch url authority token =>
        change Strategy.dispatchCommit s.ledger requestId url authority token now = .ok r at hop
        unfold Strategy.dispatchCommit Strategy.dispatchCas at hop
        simp only [↓bind_ok, ↓unless_ok, pure_ok, Prod.exists, Prod.mk.injEq] at hop
        obtain ⟨_, _, ⟨_, hrec, _, _, old, hold, _⟩, _⟩ := hop
        exact .inr ⟨requestId, now, url, authority, token, rfl, rfl, hrec, old,
          Strategy.getInTx_mem hold⟩
      | _ => exact .inl (List.append_nil _)
    | «open» | prepareReplay | prepare | die =>
      obtain ⟨_, _, rfl⟩ := map_ok.mp hr
      exact .inl (List.append_nil _)

end Rows

/-- The requests of a recommendation are as its resolution needs them: release-safe where the owner
continues without the advisor, and the adopted one where guidance names it. -/
structure Released (l : Ledger) (recommendationId : PyStr) (resolution : Option Resolution)
    (request : Option PyStr) : Prop where
  continued : resolution = some .continueWithoutAdvisor → ∀ row ∈ l.requests,
    row.recommendationId = some recommendationId → releaseSafe row.state = true
  adopted : ∀ requestId, request = some requestId → ∃ row ∈ l.requests, row.requestId = requestId ∧
    row.recommendationId = some recommendationId ∧ row.state = .adopted

/-- The event of a broker that holds the fence passed only with an open recommendation. -/
def Guarded (w : World) : Strategy.Event → Prop
  | .prepare a authority _ _ => authority.recommendation = .ok () →
      ∃ i, a.recommendationId = some i ∧ w.store.1.Open i
  | .operate requestId _ (.dispatch _ authority _) | .die requestId _ _ authority _ _ =>
    authority.recommendation = .ok () → ∀ row ∈ w.advisor.ledger.requests, row.requestId = requestId →
      ∃ i, row.recommendationId = some i ∧ w.store.1.Open i
  | _ => True

/-- What the holder of the fence has checked still holds. -/
def World.Holds (w : World) : Fenced → Prop
  | .browser event => Guarded w event
  | .resolve q => Released w.advisor.ledger q.recommendationId (resolution? q.resolution)
      q.browserRequestId

section Invariant
variable [Patterns] {S : CoordinationStore} {projectDir : PyStr} {w : World}

structure Inv (S : CoordinationStore) (w : World) : Prop where
  coherent : S.Coherent w.store.1
  safe : w.advisor.Safe
  closed : w.store.1.Closed
  released : ∀ r ∈ w.store.1.resolutions,
    Released w.advisor.ledger r.recommendationId (some r.resolution) r.browserRequestId
  fence : ∀ f ∈ w.fence, w.Holds f

omit [Patterns] in
/-- What an event of a broker leaves released, if it prepares no request of the recommendation. -/
theorem Released.moves {event : Strategy.Event} {l l' : Ledger} {i : PyStr}
    {resolution : Option Resolution} {request : Option PyStr} (hm : Moves event l l')
    (h : Released l i resolution request)
    (hnew : ∀ a authority requestId now, event = .prepare a authority requestId now →
      authority.recommendation = .ok () → a.recommendationId ≠ some i) :
    Released l' i resolution request where
  continued hres new hn hi := by
    rcases hm.origin new hn with ⟨old, ho, hf⟩ | ⟨a, authority, requestId, now, rfl, hrec, ha⟩
    · exact hf.releaseSafe (h.continued hres old ho (hf.recommendationId.symm.trans hi))
    · exact (hnew a authority requestId now rfl hrec (ha.symm.trans hi)).elim
  adopted requestId hreq := by
    obtain ⟨old, ho, hid, hi, hst⟩ := h.adopted requestId hreq
    obtain ⟨new, hn, hf⟩ := hm.kept old ho
    exact ⟨new, hn, hf.requestId.trans hid, hf.recommendationId.trans hi, hf.adopted hst⟩

omit [Patterns] in
theorem Guarded.mono {w w' : World} {event : Strategy.Event} (h : Guarded w event)
    (ho : ∀ i, w.store.1.Open i → w'.store.1.Open i)
    (hr : ∀ new ∈ w'.advisor.ledger.requests, ∃ old ∈ w.advisor.ledger.requests, Follows old new) :
    Guarded w' event := by
  have hrows : ∀ requestId, (∀ row ∈ w.advisor.ledger.requests, row.requestId = requestId →
      ∃ i, row.recommendationId = some i ∧ w.store.1.Open i) →
      ∀ row ∈ w'.advisor.ledger.requests, row.requestId = requestId →
        ∃ i, row.recommendationId = some i ∧ w'.store.1.Open i := by
    intro requestId hall new hn hid
    obtain ⟨old, hold, hf⟩ := hr new hn
    obtain ⟨i, hi, hopen⟩ := hall old hold (hf.requestId.symm.trans hid)
    exact ⟨i, hf.recommendationId.trans hi, ho i hopen⟩
  cases event with
  | prepare a authority requestId now =>
    intro hrec
    obtain ⟨i, hi, hopen⟩ := h hrec
    exact ⟨i, hi, ho i hopen⟩
  | operate requestId now op =>
    cases op with
    | dispatch url authority token => exact fun hrec => hrows requestId (h hrec)
    | _ => trivial
  | die requestId now url authority token point => exact fun hrec => hrows requestId (h hrec)
  | _ => trivial

/-- An event of a broker that holds no fence keeps what is checked and what is released. -/
theorem Inv.browser (h : Inv S w) {event : Strategy.Event} (hf : needsFence event = false) :
    Inv S { w with advisor := w.advisor.step event } := by
  have hm := step_moves h.safe event
  have hnew : ∀ a authority requestId now, event ≠ .prepare a authority requestId now := by
    rintro a authority requestId now rfl
    cases hf
  refine ⟨h.coherent, step_safe h.safe event, h.closed, fun r hr => (h.released r hr).moves hm
    fun a authority requestId now he => (hnew _ _ _ _ he).elim, fun f hfen => ?_⟩
  cases f with
  | browser e =>
    refine (h.fence _ hfen : Guarded w e).mono (fun _ => id) fun new hn => ?_
    rcases hm.origin new hn with ho | ⟨_, _, _, _, he, _⟩
    · exact ho
    · exact (hnew _ _ _ _ he).elim
  | resolve q =>
    exact (h.fence _ hfen : Released _ _ _ _).moves hm
      fun a authority requestId now he => (hnew _ _ _ _ he).elim

omit [Patterns] in
/-- A call of the store but for the owner's resolution keeps them too. -/
theorem Inv.call (h : Inv S w) {c : StoreCall} (hc : c.resolves = false) :
    Inv S { w with store := (S.perform c w.store).2 } := by
  have hstep : CallStep S c False w.store (S.perform c w.store).2 :=
    machine_step h.coherent False.elim rfl
  refine ⟨hstep.coherent h.coherent, h.safe, hstep.closed hc h.closed, ?_, ?_⟩
  · intro r hr
    rw [hstep.resolutions hc] at hr
    exact h.released r hr
  · intro f hf
    cases f with
    | browser e =>
      exact (h.fence _ hf : Guarded w e).mono (fun i ho => hstep.open h.coherent hc ho)
        fun new hn => ⟨new, hn, .refl new⟩
    | resolve q => exact h.fence _ hf

omit [Patterns] in
theorem validatePrepare_open {db : Database} {i : Option PyStr}
    (h : validatePrepareRecommendation S db i = .ok ()) : ∃ j, i = some j ∧ db.1.Open j := by
  cases i with
  | none => cases h
  | some j =>
    unfold validatePrepareRecommendation at h
    cases hp : (S.perform (.validateOpenRecommendation j) db).1 with
    | error e => simp [hp] at h
    | ok r => exact ⟨j, rfl, open_of_validate hp⟩

omit [Patterns] in
/-- The checks under the fence establish what its holder relies on. -/
theorem Inv.guarded (h : Inv S w) (event : Strategy.Event) :
    Guarded w (withVerdict (validatePrepareRecommendation S w.store
      (recommendationOf w.advisor.ledger event)) event) := by
  have hrows : ∀ requestId, validatePrepareRecommendation S w.store ((w.advisor.ledger.requests.find?
      fun row => row.requestId = requestId).bind Request.recommendationId) = .ok () →
      ∀ row ∈ w.advisor.ledger.requests, row.requestId = requestId →
        ∃ i, row.recommendationId = some i ∧ w.store.1.Open i := by
    intro requestId hok row hrow hid
    obtain ⟨j, hj, ho⟩ := validatePrepare_open hok
    obtain ⟨found, hfound, hfj⟩ := Option.bind_eq_some_iff.mp hj
    have hsame : found = row := Rows.eq_of_key h.safe.ledger.requestIds (List.mem_of_find?_eq_some hfound)
      hrow (Eq.trans (by simpa using List.find?_some hfound) hid.symm)
    exact ⟨j, hsame ▸ hfj, ho⟩
  cases event with
  | prepare a authority requestId now => exact fun hok => validatePrepare_open hok
  | operate requestId now op =>
    cases op with
    | dispatch url authority token => exact fun hok => hrows requestId hok
    | _ => trivial
  | die requestId now url authority token point => exact fun hok => hrows requestId hok
  | _ => trivial

omit [Patterns] in
theorem assertReleasable_ok {l : Ledger} {i : PyStr} (h : assertRecommendationReleasable l i = .ok ()) :
    ∀ row ∈ l.requests, row.recommendationId = some i → releaseSafe row.state = true := by
  intro row hrow hi
  have hm : row ∈ l.requests.filter fun row => row.recommendationId = some i :=
    List.mem_filter.mpr ⟨hrow, by simpa using hi⟩
  unfold assertRecommendationReleasable recommendationRequest at h
  cases hf : l.requests.filter fun row => row.recommendationId = some i with
  | nil =>
    rw [hf] at hm
    cases hm
  | cons found rest =>
    rw [hf] at hm h
    cases rest with
    | nil =>
      have hs : (if releaseSafe found.state = false then throw _ else pure ()) =
          (Except.ok () : Except Strategy.Refusal Unit) := h
      rw [List.mem_singleton.mp hm]
      cases hsafe : releaseSafe found.state with
      | true => rfl
      | false =>
        rw [if_pos hsafe] at hs
        cases hs
    | cons _ _ => cases h

omit [Patterns] in
theorem validateAdopted_ok [Patterns] {l : Ledger} {p : Provenance} {evidence : PyStr}
    (h : validateAdoptedMasterGuidance l p evidence = .ok ()) :
    ∃ row ∈ l.requests, row.requestId = p.requestId ∧ row.recommendationId = p.recommendationId ∧
      row.state = .adopted := by
  unfold validateAdoptedMasterGuidance at h
  simp only [↓bind_ok, ↓unless_ok] at h
  obtain ⟨_, _, _, h⟩ := h
  cases hf : l.requests.find? fun row => row.requestId = p.requestId with
  | none =>
    rw [hf] at h
    cases h
  | some row =>
    rw [hf] at h
    simp only [↓unless_ok] at h
    obtain ⟨hst, _, hp, _⟩ := h
    have hp : p = expectedProvenance row := Decidable.not_not.mp hp
    refine ⟨row, List.mem_of_find?_eq_some hf, by simpa using List.find?_some hf, ?_,
      Decidable.not_not.mp hst⟩
    rw [hp]
    rfl

/-- What the command checks before its commit. -/
theorem check_released {db : Database} {l : Ledger} {a : ResolveArgs} {guidance : Option Guidance}
    {q : ResolutionRequest} (h : a.check db l guidance = some q) :
    Released l q.recommendationId (resolution? q.resolution) q.browserRequestId := by
  unfold ResolveArgs.check at h
  split_ifs at h with hacc hcont
  · cases hr : assertRecommendationReleasable l a.recommendationId with
    | error e =>
      rw [hr] at h
      cases h
    | ok u =>
      rw [hr] at h
      cases h
      exact ⟨fun _ => assertReleasable_ok hr, fun requestId hreq => by cases hreq⟩
  · have hadopts : a.adopts := by
      rcases hacc.2.2.1 with ⟨hc, _⟩ | ⟨ha, _⟩
      · exact (hcont hc).elim
      · exact ha
    have hres : resolution? a.normalized ≠ some .continueWithoutAdvisor := by
      rw [ResolveArgs.normalized, show a.resolution = "adopted-master-guidance".toList from hadopts]
      decide
    obtain ⟨g, _, hg⟩ := Option.bind_eq_some_iff.mp h
    unfold ResolveArgs.withGuidance at hg
    split_ifs at hg with hlink
    cases hp : g.provenance with
    | none =>
      rw [hp] at hg
      cases hg
      exact ⟨fun hc => (hres hc).elim, fun requestId hreq => by cases hreq⟩
    | some p =>
      rw [hp] at hg
      dsimp only at hg
      split_ifs at hg with hrec
      cases hv : validateAdoptedMasterGuidance l p g.evidence with
      | error e =>
        rw [hv] at hg
        cases hg
      | ok u =>
        rw [hv] at hg
        cases hg
        refine ⟨fun hc => (hres hc).elim, fun requestId hreq => ?_⟩
        cases hreq
        obtain ⟨row, hrow, hid, hi, hst⟩ := validateAdopted_ok hv
        exact ⟨row, hrow, hid, hi.trans hrec, hst⟩

/-- The commit under the fence keeps the invariant. -/
theorem Inv.commit (h : Inv S w) (now : Stamp) : Inv S (w.commit S now) := by
  unfold World.commit
  cases hf : w.fence with
  | none => exact h
  | some f =>
    cases f with
    | browser event =>
      have hg : Guarded w event := h.fence _ hf
      refine ⟨h.coherent, step_safe h.safe event, h.closed, fun r hr => ?_, fun f hf' => by cases hf'⟩
      refine (h.released r hr).moves (step_moves h.safe event) ?_
      rintro a authority requestId now' rfl hrec hi
      obtain ⟨i, hai, hopen⟩ := hg hrec
      exact (h.closed r hr).1 (hopen.current.trans (hai.symm.trans hi))
    | resolve q =>
      have hstep : CallStep S (.resolveRecommendation q now) False w.store
          (S.perform (.resolveRecommendation q now) w.store).2 := machine_step h.coherent False.elim rfl
      have hrel : Released w.advisor.ledger q.recommendationId (resolution? q.resolution)
          q.browserRequestId := h.fence _ hf
      rcases perform_resolve h.coherent q now with he | hres
      · dsimp only
        rw [he]
        exact ⟨h.coherent, h.safe, h.closed, h.released, fun f hf' => by cases hf'⟩
      · refine ⟨hstep.coherent h.coherent, h.safe, hres.closed h.coherent h.closed, fun r hr => ?_,
          fun f hf' => by cases hf'⟩
        rcases hres.resolutions r hr with hr | hr
        · exact h.released r hr
        · rw [← hr.recommendation, ← hr.request, hr.resolution] at hrel
          exact hrel

/-- Every step keeps the invariant. -/
theorem Inv.step (h : Inv S w) (e : Event) : Inv S (w.step S e) := by
  cases e with
  | enter event =>
    simp only [World.step]
    split_ifs
    · refine ⟨h.coherent, h.safe, h.closed, h.released, fun f hf => ?_⟩
      cases hf
      exact h.guarded event
    · exact h
  | resolve a guidance =>
    simp only [World.step]
    split_ifs
    · refine ⟨h.coherent, h.safe, h.closed, h.released, fun f hf => ?_⟩
      obtain ⟨q, hq, rfl⟩ := Option.map_eq_some_iff.mp hf
      exact check_released hq
    · exact h
  | commit now => exact h.commit now
  | drop => exact ⟨h.coherent, h.safe, h.closed, h.released, fun f hf => by cases hf⟩
  | browser event free => exact h.browser free
  | call c other => exact h.call other

theorem inv_of_reachable (h : (machine S projectDir).Reachable w) : Inv S w := by
  refine h.invariant ?_ ?_
  · rintro w ⟨⟨clock, hdb⟩, hadvisor, hfence⟩
    have hnone : w.store.1.resolutions = [] := by simp [hdb, CoordinationStore.initialTables]
    refine ⟨(coherent_initial hdb).1, hadvisor ▸ Strategy.Advisor.initial_safe, ?_, ?_, ?_⟩
    · intro r hr
      rw [hnone] at hr
      cases hr
    · intro r hr
      rw [hnone] at hr
      cases hr
    · intro f hf
      rw [hfence] at hf
      cases hf
  · rintro w e w' hw rfl
    exact hw.step e

/-- No recorded resolution is lost. -/
theorem Inv.resolutions_kept (h : Inv S w) (e : Event) :
    ∀ r ∈ w.store.1.resolutions, r ∈ (w.step S e).store.1.resolutions := by
  intro r hr
  cases e with
  | enter event =>
    simp only [World.step]
    split_ifs <;> exact hr
  | resolve a guidance =>
    simp only [World.step]
    split_ifs <;> exact hr
  | commit now =>
    simp only [World.step, World.commit]
    split
    · exact hr
    · exact hr
    · rename_i q _
      rcases perform_resolve h.coherent q now with he | hres
      · dsimp only
        rw [he]
        exact hr
      · exact hres.kept r hr
  | drop => exact hr
  | browser event free => exact hr
  | call c other =>
    have hstep : CallStep S c False w.store (S.perform c w.store).2 :=
      machine_step h.coherent False.elim rfl
    change r ∈ (S.perform c w.store).2.1.resolutions
    rw [hstep.resolutions other]
    exact hr

/-- A click that a step authorises is of a request whose recommendation is open. -/
theorem Inv.clicked (h : Inv S w) (e : Event) : (w.step S e).advisor.clicked = w.advisor.clicked ∨
    ∃ row ∈ w.advisor.ledger.requests, ∃ i,
      (w.step S e).advisor.clicked = w.advisor.clicked ++ [row.requestId] ∧
      row.recommendationId = some i ∧ w.store.1.Open i := by
  cases e with
  | enter event =>
    simp only [World.step]
    split_ifs <;> exact .inl rfl
  | resolve a guidance =>
    simp only [World.step]
    split_ifs <;> exact .inl rfl
  | commit now =>
    simp only [World.step, World.commit]
    cases hf : w.fence with
    | none => exact .inl rfl
    | some f =>
      cases f with
      | resolve q => exact .inl rfl
      | browser event =>
        rcases step_clicked event with he | ⟨requestId, now', url, authority, token, rfl, hc, hrec,
          row, hrow, hid⟩
        · exact .inl he
        · have hg : Guarded w (.operate requestId now' (.dispatch url authority token)) := h.fence _ hf
          obtain ⟨i, hi, ho⟩ := hg hrec row hrow hid
          exact .inr ⟨row, hrow, i, by rw [hid]; exact hc, hi, ho⟩
  | drop => exact .inl rfl
  | browser event free =>
    rcases step_clicked event with he | ⟨_, _, _, _, _, rfl, _⟩
    · exact .inl he
    · cases free
  | call c other => exact .inl rfl

/-- A step makes no request of a recommendation that is resolved. -/
theorem Inv.no_new_request (h : Inv S w) (e : Event) {r : RecommendationResolution}
    (hr : r ∈ w.store.1.resolutions) : ∀ new ∈ (w.step S e).advisor.ledger.requests,
      new.recommendationId = some r.recommendationId →
        ∃ old ∈ w.advisor.ledger.requests, old.requestId = new.requestId := by
  have hsame : ∀ new ∈ w.advisor.ledger.requests, new.recommendationId = some r.recommendationId →
      ∃ old ∈ w.advisor.ledger.requests, old.requestId = new.requestId :=
    fun new hn _ => ⟨new, hn, rfl⟩
  have hmoves : ∀ event, (∀ a authority requestId now, event = .prepare a authority requestId now →
      authority.recommendation = .ok () → a.recommendationId ≠ some r.recommendationId) →
      ∀ new ∈ (w.advisor.step event).ledger.requests, new.recommendationId = some r.recommendationId →
        ∃ old ∈ w.advisor.ledger.requests, old.requestId = new.requestId := by
    intro event hno new hn hi
    rcases (step_moves h.safe event).origin new hn with ⟨old, ho, hf⟩ | ⟨a, authority, id, now, he, hrec, ha⟩
    · exact ⟨old, ho, hf.requestId.symm⟩
    · exact (hno a authority id now he hrec (ha.symm.trans hi)).elim
  cases e with
  | enter event =>
    simp only [World.step]
    split_ifs <;> exact hsame
  | resolve a guidance =>
    simp only [World.step]
    split_ifs <;> exact hsame
  | commit now =>
    simp only [World.step, World.commit]
    cases hf : w.fence with
    | none => exact hsame
    | some f =>
      cases f with
      | resolve q => exact hsame
      | browser event =>
        refine hmoves event ?_
        rintro a authority requestId now' rfl hrec hi
        have hg : Guarded w (.prepare a authority requestId now') := h.fence _ hf
        obtain ⟨i, hai, hopen⟩ := hg hrec
        exact (h.closed r hr).1 (hopen.current.trans (hai.symm.trans hi))
  | drop => exact hsame
  | browser event free =>
    refine hmoves event ?_
    rintro a authority requestId now rfl
    cases free
  | call c other => exact hsame

end Invariant

section Main
variable [Patterns] {S : CoordinationStore} {projectDir : PyStr} {w : World}

/-- In every reachable state: a click is authorised only of a request whose recommendation is open and
not resolved; and a recorded resolution stays, lets no step make a request of its recommendation, and,
where the owner continues without the advisor or with a browser's guidance, finds the request in a
release-safe state, the guidance naming exactly the adopted one. -/
theorem resolution_excludes_browser_work (h : (machine S projectDir).Reachable w) :
    (∀ e, (w.step S e).advisor.clicked = w.advisor.clicked ∨
      ∃ row ∈ w.advisor.ledger.requests, ∃ i,
        (w.step S e).advisor.clicked = w.advisor.clicked ++ [row.requestId] ∧
        row.recommendationId = some i ∧ w.store.1.Open i ∧ w.store.1.resolution? i = none) ∧
    ∀ r ∈ w.store.1.resolutions,
      (∀ e, r ∈ (w.step S e).store.1.resolutions) ∧
      (r.resolution = .continueWithoutAdvisor ∨ r.browserRequestId ≠ none →
        ∀ row ∈ w.advisor.ledger.requests, row.recommendationId = some r.recommendationId →
          releaseSafe row.state = true) ∧
      (∀ requestId, r.browserRequestId = some requestId → ∃ row ∈ w.advisor.ledger.requests,
        row.requestId = requestId ∧ row.state = .adopted ∧
        ∀ other ∈ w.advisor.ledger.requests,
          other.recommendationId = some r.recommendationId ↔ other = row) ∧
      ∀ e, ∀ new ∈ (w.step S e).advisor.ledger.requests,
        new.recommendationId = some r.recommendationId →
          ∃ old ∈ w.advisor.ledger.requests, old.requestId = new.requestId := by
  have hi := inv_of_reachable h
  -- the unique index on the recommendation
  have hone : ∀ r ∈ w.store.1.resolutions, ∀ requestId, r.browserRequestId = some requestId →
      ∃ row ∈ w.advisor.ledger.requests, row.requestId = requestId ∧ row.state = .adopted ∧
        ∀ other ∈ w.advisor.ledger.requests,
          other.recommendationId = some r.recommendationId ↔ other = row := by
    intro r hr requestId hreq
    obtain ⟨row, hrow, hid, hrec, hst⟩ := (hi.released r hr).adopted requestId hreq
    refine ⟨row, hrow, hid, hst, fun other ho => ⟨fun hother => ?_, fun he => he ▸ hrec⟩⟩
    exact hi.safe.ledger.recommendationIds other ho row hrow ⟨by simp [hother], hother.trans hrec.symm⟩
  refine ⟨fun e => ?_, fun r hr => ⟨fun e => hi.resolutions_kept e r hr, ?_, hone r hr,
    fun e => hi.no_new_request e hr⟩⟩
  · rcases hi.clicked e with he | ⟨row, hrow, i, hc, hrec, ho⟩
    · exact .inl he
    · refine .inr ⟨row, hrow, i, hc, hrec, ho, ?_⟩
      cases hres : w.store.1.resolution? i with
      | none => rfl
      | some r =>
        have hid : r.recommendationId = i := by simpa using List.find?_some hres
        exact ((hi.closed r (List.mem_of_find?_eq_some hres)).1 (hid ▸ ho.current)).elim
  · rintro (hres | hreq) row hrow hrec
    · exact (hi.released r hr).continued (congrArg some hres) row hrow hrec
    · obtain ⟨requestId, hreq⟩ := Option.ne_none_iff_exists'.mp hreq
      obtain ⟨adopted, _, _, hst, hall⟩ := hone r hr requestId hreq
      rw [(hall row hrow).mp hrec, hst]
      rfl

end Main

/-- The pair's review confirms an obstacle, its last slot ends, and the owner stages the next tasks. -/
def confirmedCalls : List Event :=
  [.call (.stageTaskAssignment "root".toList "left".toList (some (.fin 1))) rfl,
    .call (.stageTaskAssignment "critic".toList "right".toList (some (.fin 1))) rfl,
    .call (.admitWorker "root".toList "a".toList (some (.fin 2))) rfl,
    .call (.admitWorker "critic".toList "b".toList (some (.fin 2))) rfl,
    .call (.pinPrompt "slot_a".toList (promptText "slot_a" "left")) rfl,
    .call (.activate "slot_a".toList (some (.fin 3))) rfl,
    .call (.recordRootEvidence "root".toList "obstacle".toList "e1".toList "slot_a".toList
      (some (.fin 4))) rfl,
    .call (.complete "slot_a".toList "done".toList (some (.fin 5)) 5) rfl,
    .call (.complete "slot_b".toList "done".toList (some (.fin 5)) 5) rfl,
    .call (.admitWorker "critic".toList "c".toList (some (.fin 6))) rfl,
    .call (.pinPrompt "slot_c".toList (promptText "slot_c" "right")) rfl,
    .call (.activate "slot_c".toList (some (.fin 7))) rfl,
    .call (.confirmRootEvidence "critic".toList "e1".toList "e2".toList "slot_c".toList "r".toList
      (some (.fin 8))) rfl,
    .call (.complete "slot_c".toList "done".toList (some (.fin 9)) 9) rfl,
    .call (.stageTaskAssignment "root".toList "left".toList (some (.fin 9))) rfl,
    .call (.stageTaskAssignment "critic".toList "right".toList (some (.fin 9))) rfl]

/-- A broker asks the recommendation, clicks, imports the response and adopts a strategy of the owner's; the
owner resolves the recommendation with it. -/
def advisedCalls : List Event :=
  [.enter (.prepare { Strategy.askArgs with recommendationId := some "recommendation_r".toList } Strategy.vouched
      Strategy.askId 0),
    .commit none,
    .browser (.operate Strategy.askId.text 0 (.authorize (sha256Text "p".toList) "s".toList true)) rfl,
    .enter (.operate Strategy.askId.text 0 (.dispatch none Strategy.vouched Strategy.askToken)),
    .commit none,
    .browser (Strategy.askSubmission Strategy.firstUrl) rfl,
    .browser (.operate Strategy.askId.text 0 (.finish .completed
      ⟨"a".toList, sha256Text "p".toList, "Pro".toList, Strategy.firstUrl, 2, true, true, true⟩ (.ok ()))) rfl,
    .browser (.operate Strategy.askId.text 0 (.importRead "a".toList)) rfl,
    .browser (.operate Strategy.askId.text 0 .importCommit) rfl,
    .browser (.operate Strategy.askId.text 0 (.adopt "b".toList true)) rfl]

def advised : World :=
  (confirmedCalls ++ advisedCalls).foldl (@World.step (Strategy.plainUrls Strategy.askUrl) pairStore)
    ⟨pairDatabase, Advisor.initial [], none⟩

/-- The adopted strategy, as global memory has it. -/
def adoptedGuidance : Option Guidance :=
  advised.advisor.ledger.requests.head?.map fun row => ⟨"master_guidance".toList, some "recommendation_r".toList,
    List.replicate 64 '0', "b".toList, some (expectedProvenance row)⟩

/-- The world in which the recommendation is resolved with the strategy adopted from its one request. -/
def guided : World :=
  [Event.resolve ⟨"recommendation_r".toList, "adopted-master-guidance".toList, "recommendation_r".toList, true,
      some (List.replicate 16 '0')⟩ adoptedGuidance,
    .commit (some (.fin 10))].foldl (@World.step (Strategy.plainUrls Strategy.askUrl) pairStore) advised

/-- After the adoption no step clicks a request of a resolved recommendation; the resolution with the adopted
guidance names the adopted request, the only one of its recommendation, and no step takes it back or makes
another request of it. -/
theorem resolution_excludes_browser_work_guided :
    (∀ e, (@World.step (Strategy.plainUrls Strategy.askUrl) pairStore guided e).advisor.clicked =
        guided.advisor.clicked ∨
      ∃ row ∈ guided.advisor.ledger.requests, ∃ i, row.recommendationId = some i ∧
        guided.store.1.Open i ∧ guided.store.1.resolution? i = none) ∧
    ∀ r ∈ guided.store.1.resolutions,
      (∀ requestId, r.browserRequestId = some requestId → ∃ row ∈ guided.advisor.ledger.requests,
        row.requestId = requestId ∧ row.state = .adopted ∧
          ∀ other ∈ guided.advisor.ledger.requests,
            other.recommendationId = some r.recommendationId ↔ other = row) ∧
      ∀ e, r ∈ (@World.step (Strategy.plainUrls Strategy.askUrl) pairStore guided e).store.1.resolutions ∧
        ∀ new ∈ (@World.step (Strategy.plainUrls Strategy.askUrl) pairStore guided e).advisor.ledger.requests,
          new.recommendationId = some r.recommendationId →
            ∃ old ∈ guided.advisor.ledger.requests, old.requestId = new.requestId := by
  have hstart : (@machine (Strategy.plainUrls Strategy.askUrl) pairStore []).start
      ⟨pairDatabase, Advisor.initial [], none⟩ := ⟨pair_start, rfl, rfl⟩
  have hreach : (@machine (Strategy.plainUrls Strategy.askUrl) pairStore []).Reachable guided :=
    ((Machine.reachable_start hstart).foldl (fun _ _ => rfl) (confirmedCalls ++ advisedCalls)).foldl
      (fun _ _ => rfl) _
  have hsound := @resolution_excludes_browser_work (Strategy.plainUrls Strategy.askUrl) pairStore [] guided hreach
  refine ⟨fun e => ?_, fun r hr => ?_⟩
  · rcases hsound.1 e with he | ⟨row, hrow, i, _, hi, hopen, hnone⟩
    · exact .inl he
    · exact .inr ⟨row, hrow, i, hi, hopen, hnone⟩
  · obtain ⟨hkept, _, hadopted, hnew⟩ := hsound.2 r hr
    exact ⟨hadopted, fun e => ⟨hkept e, hnew e⟩⟩

end Danus.Orchestration
