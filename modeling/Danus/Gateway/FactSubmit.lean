import Danus.Coordination.Receipts

/-! A `fact_submit` call between the candidate overlay and the fact graph: each store has its own lock,
and the owner may resolve the candidate while the call is still running. -/
namespace Danus.Gateway
open Python Machines Danus.Coordination

/-- How far a call is that has registered its candidate. -/
inductive Stage where
  | verifying | accepted
  deriving DecidableEq

/-- A `fact_submit` call that is running. -/
structure Submission where
  receipt : PyStr
  identity : CandidateIdentity
  stage : Stage

/-- The coordination store, the active facts of the graph with their full identities, and the calls
that are running. -/
structure World where
  store : Database
  graph : List (PyStr × PyStr)
  running : List Submission

/-- The owner's resolution, which only `do_resolve_candidate` asks for. -/
def resolvesCandidate : StoreCall → Bool
  | .resolveCandidateOutcomeUnknown .. => true
  | _ => false

/-- What happens: a step of a running call, by its number, or a step of any other process. -/
inductive Event where
  | submit (worker : PyStr) (identity : CandidateIdentity) (now : Stamp)
  | verdict (i : Nat) (correct : Bool)
  | promote (i : Nat) (refused : Bool)
  | die (i : Nat)
  | call (c : StoreCall) (other : resolvesCandidate c = false)
  | addFact (factId identity : PyStr)
  | revoke (factId : PyStr)
  | resolveCandidate (receipt outcome : PyStr) (acknowledged : Bool) (now : Stamp)

/-- `_add_unlocked`, which writes nothing where the id is active already. -/
def addFact (graph : List (PyStr × PyStr)) (factId identity : PyStr) : List (PyStr × PyStr) :=
  match graph.lookup factId with
  | none => graph ++ [(factId, identity)]
  | some _ => graph

/-- `outcome.replace("-", "_")` of a supported outcome. -/
def ownerOutcome? (outcome : PyStr) : Option PyStr :=
  if outcome = "known-no-promotion".toList then some "known_no_promotion".toList
  else if outcome = "abandon-unknown".toList then some "abandon_unknown".toList
  else none

/-- The activity that `do_resolve_candidate` attests, under the lock of the graph: the one of the prior
resolution, or else what the graph says now. -/
def factActive? (graph : List (PyStr × PyStr)) (row : Candidate) : Option Bool :=
  if row.ownerResolution ≠ none then row.candidateFactActiveAtResolution
  else
    match row.candidateFactId, row.candidateFactIdentity with
    | some factId, some identity =>
      if isHexOf 64 identity = true then some (decide (graph.lookup factId = some identity)) else none
    | _, _ => none

namespace World
variable (S : CoordinationStore) (w : World)

/-- `fact_submit` up to its verification: it goes on where its receipt is active. -/
def submit (worker : PyStr) (identity : CandidateIdentity) (now : Stamp) : World :=
  match candidateReceiptId identity with
  | .error _ => w
  | .ok receipt =>
    let o := S.perform (.registerCandidate worker receipt identity now) w.store
    if o.failure = none ∧ (o.2.1.candidate? receipt).any (·.state == .active) = true then
      { w with store := o.2, running := w.running ++ [⟨receipt, identity, .verifying⟩] }
    else { w with store := o.2 }

/-- The verification ends; a rejected candidate has nothing to write. -/
def verdict (i : Nat) (correct : Bool) : World :=
  if correct = true then
    { w with running := w.running.modify i fun sub => { sub with stage := .accepted } }
  else { w with running := w.running.eraseIdx i }

/-- `add_if_context_unchanged` of an accepted candidate, the last that the call writes to the graph;
it is refused where the context has changed or the graph cannot take the fact. -/
def promote (i : Nat) (refused : Bool) : World :=
  match w.running[i]? with
  | some sub =>
    if sub.stage = .accepted then
      { w with
        graph := if refused = true then w.graph else
          addFact w.graph sub.identity.candidateFactId sub.identity.candidateFactIdentity
        running := w.running.eraseIdx i }
    else w
  | none => w

/-- `do_resolve_candidate` -/
def resolveCandidate (receipt outcome : PyStr) (acknowledged : Bool) (now : Stamp) : World :=
  match ownerOutcome? outcome, w.store.1.candidate? receipt with
  | some resolution, some row =>
    match factActive? w.graph row with
    | some active =>
      if acknowledged = true then
        { w with store := (S.perform (.resolveCandidateOutcomeUnknown receipt resolution true active
            now) w.store).2 }
      else w
    | none => w
  | _, _ => w

def step : Event → World
  | .submit worker identity now => w.submit S worker identity now
  | .verdict i correct => w.verdict i correct
  | .promote i refused => w.promote i refused
  | .die i => { w with running := w.running.eraseIdx i }
  | .call c _ => { w with store := (S.perform c w.store).2 }
  | .addFact factId identity => { w with graph := Gateway.addFact w.graph factId identity }
  | .revoke factId => { w with graph := w.graph.filter fun f => f.1 != factId }
  | .resolveCandidate receipt outcome acknowledged now =>
    w.resolveCandidate S receipt outcome acknowledged now

/-- The step writes the fact of a call whose candidate is resolved as known not to be promoted. -/
def lateWrite : Event → Bool
  | .promote i false =>
    match w.running[i]? with
    | some sub => decide (sub.stage = .accepted) &&
        (w.store.1.candidate? sub.receipt).any (fun row =>
          decide (row.ownerResolution = some .knownNoPromotion)) &&
        (w.graph.lookup sub.identity.candidateFactId).isNone
    | none => false
  | _ => false

/-- What a resolution made in between says of the candidate's fact is what the graph says then. -/
def Attests (w w' : World) : Prop :=
  ∀ row' ∈ w'.store.1.candidates, ∀ active, row'.candidateFactActiveAtResolution = some active →
    (∃ row ∈ w.store.1.candidates, row.candidateId = row'.candidateId ∧
      row.candidateFactActiveAtResolution = some active) ∨
    ∃ factId identity, row'.candidateFactId = some factId ∧
      row'.candidateFactIdentity = some identity ∧
      (active = true ↔ w'.graph.lookup factId = some identity)

/-- The owner resolves a candidate as known not to be promoted only when no call that registered it is
still running. -/
def Settled : Event → Prop
  | .resolveCandidate receipt outcome _ _ => outcome = "known-no-promotion".toList →
      ∀ sub ∈ w.running, sub.receipt ≠ receipt
  | _ => True

end World

/-- The processes over the two stores, from a fresh coordination store. -/
def machine (S : CoordinationStore) : Machine World Event where
  start w := S.machine.start w.store ∧ w.running = []
  step w e w' := w.step S e = w'

/-- The steps of a run are settled. -/
def SettledRun (past : List World) (e : Event) : Prop := ∀ w ∈ past.head?, w.Settled e

section Rows
variable {S : CoordinationStore} {call : StoreCall} {calm : Prop} {t t' t'' : Tables}
  {db db' : Database}

/-- Where a receipt row of one call comes from: it is new and unresolved, or an earlier row with the same
resolution, or one that this call resolves. -/
inductive Origin (call : StoreCall) (t : Tables) (c' : Candidate) : Prop where
  | fresh : c'.ownerResolution = none → c'.candidateFactActiveAtResolution = none →
      (c'.overlay = true → resolvesCandidate call = false) → Origin call t c'
  | kept {c : Candidate} : c ∈ t.candidates → c.candidateId = c'.candidateId →
      c'.candidateFactId = c.candidateFactId → c'.candidateFactIdentity = c.candidateFactIdentity →
      c'.ownerResolution = c.ownerResolution →
      c'.candidateFactActiveAtResolution = c.candidateFactActiveAtResolution →
      (c'.overlay = true → c.overlay = true) → Origin call t c'
  | resolved {c : Candidate} {resolution : PyStr} {active : Bool} {now : Stamp} {r : OwnerResolution} :
      c ∈ t.candidates → c.candidateId = c'.candidateId → c'.candidateFactId = c.candidateFactId →
      c'.candidateFactIdentity = c.candidateFactIdentity → c.overlay = true →
      call = .resolveCandidateOutcomeUnknown c.candidateId resolution true active now →
      ownerResolution? resolution = some r → c'.ownerResolution = some r →
      c'.candidateFactActiveAtResolution = some active → c'.overlay = false → Origin call t c'

theorem Origin.refl {c : Candidate} (h : c ∈ t.candidates) : Origin call t c :=
  .kept h rfl rfl rfl rfl rfl id

theorem NewCandidate.origin {c : Candidate} (h : NewCandidate S call t c) : Origin call t c := by
  cases h with
  | register hc _ _ => exact .fresh rfl rfl fun _ => by rw [hc]; rfl
  | reuse => exact .fresh rfl rfl fun h => by simp [Candidate.overlay, receiptRow] at h
  | record hs =>
    refine .fresh rfl rfl fun h => ?_
    unfold recordedState? at hs
    split_ifs at hs <;> cases hs <;> simp [Candidate.overlay, recordedRow] at h

theorem CandidateMove.origin {c c' : Candidate} (hm : c ∈ t.candidates)
    (h : CandidateMove S call t c c') : Origin call t c' := by
  cases h with
  | finish _ _ _ _ _ hst =>
    exact .kept hm rfl rfl rfl rfl rfl fun _ => by simp [Candidate.overlay, hst]
  | release hc hr hid ho =>
    subst hid
    exact .resolved hm rfl rfl rfl ho hc hr rfl rfl (by simp [Candidate.overlay])
  | record hrec _ =>
    refine .kept hm rfl rfl rfl rfl rfl fun h => ?_
    simp [Candidate.overlay, hrec.state] at h

/-- One change of a call after the others. -/
theorem Origin.trans {c'' : Candidate} (h : ∀ c' ∈ t'.candidates, Origin call t c')
    (h' : Origin call t' c'') : Origin call t c'' := by
  cases h' with
  | fresh hr ha ho => exact .fresh hr ha ho
  | @kept c' hm hid hf hi hr ha ho =>
    cases h c' hm with
    | fresh hr' ha' ho' => exact .fresh (hr.trans hr') (ha.trans ha') fun h => ho' (ho h)
    | kept hm' hid' hf' hi' hr' ha' ho' =>
      exact .kept hm' (hid'.trans hid) (hf.trans hf') (hi.trans hi') (hr.trans hr') (ha.trans ha')
        fun h => ho' (ho h)
    | resolved hm' hid' hf' hi' hov hc hres hr' ha' ho' =>
      refine .resolved hm' (hid'.trans hid) (hf.trans hf') (hi.trans hi') hov hc hres (hr.trans hr')
        (ha.trans ha') ?_
      cases hx : c''.overlay with
      | false => rfl
      | true => simp [ho hx] at ho'
  | @resolved c' resolution active now r hm hid hf hi hov hc hres hr ha ho =>
    cases h c' hm with
    | fresh _ _ ho' =>
      have hother := ho' hov
      rw [hc] at hother
      cases hother
    | kept hm' hid' hf' hi' _ _ ho' =>
      rw [← hid'] at hc
      exact .resolved hm' (hid'.trans hid) (hf.trans hf') (hi.trans hi') (ho' hov) hc hres hr ha ho
    | resolved _ _ _ _ _ _ _ _ _ ho' => simp [hov] at ho'

theorem Change.origin (h : Change S call calm t t') : ∀ c' ∈ t'.candidates, Origin call t c' := by
  cases h with
  | newCandidate hn =>
    intro c' hm
    rcases List.mem_append.mp hm with hm | hm
    · exact .refl hm
    · rw [List.mem_singleton.mp hm]
      exact NewCandidate.origin hn
  | candidate hm hmove =>
    intro c' hm'
    rcases Rows.mem_set_cases hm' with rfl | hm'
    · exact CandidateMove.origin hm hmove
    · exact .refl hm'.1
  | _ => exact fun c' hm => .refl hm

theorem Changes.origin (h : Changes S call calm db db') :
    ∀ c' ∈ db'.1.candidates, Origin call db.1 c' := by
  induction h with
  | refl => exact fun c' hm => .refl hm
  | tail _ hstep ih => exact fun c' hm => Origin.trans ih (Change.origin hstep c' hm)

/-- Every receipt row after a call has an origin before it. -/
theorem CallStep.origin (h : CallStep S call calm db db') :
    ∀ c' ∈ db'.1.candidates, Origin call db.1 c' := by
  obtain ⟨u, hu, rfl | ht⟩ := h
  · exact Changes.origin hu
  · rw [ht.candidates]
    exact Changes.origin hu

end Rows

section Invariant
variable {S : CoordinationStore} {w : World} {call : StoreCall}

/-- A receipt that freezes paid admission is not resolved, and no candidate whose call is running is
resolved as known not to be promoted. -/
structure Inv (S : CoordinationStore) (w : World) : Prop where
  coherent : S.Coherent w.store.1
  unresolved : ∀ c ∈ w.store.1.candidates, c.overlay = true → c.ownerResolution = none
  running : ∀ sub ∈ w.running, ∀ c ∈ w.store.1.candidates, c.candidateId = sub.receipt →
    c.ownerResolution ≠ some .knownNoPromotion

/-- Where the rows after a call come from. -/
theorem Inv.origin (h : Inv S w) (call : StoreCall) :
    ∀ c' ∈ (S.perform call w.store).2.1.candidates, Origin call w.store.1 c' := by
  have hstep : CallStep S call False w.store (S.perform call w.store).2 :=
    machine_step h.coherent False.elim rfl
  exact CallStep.origin hstep

/-- A call keeps the invariant, where no running call's candidate is resolved by it as known not to be
promoted. -/
theorem Inv.perform (h : Inv S w)
    (hs : ∀ receipt resolution active now, call =
      .resolveCandidateOutcomeUnknown receipt resolution true active now →
        ownerResolution? resolution = some .knownNoPromotion →
          ∀ sub ∈ w.running, sub.receipt ≠ receipt) :
    Inv S { w with store := (S.perform call w.store).2 } where
  coherent := by
    have hstep : CallStep S call False w.store (S.perform call w.store).2 :=
      machine_step h.coherent False.elim rfl
    exact hstep.coherent h.coherent
  unresolved c' hm ho := by
    cases h.origin call c' hm with
    | fresh hr _ _ => exact hr
    | kept hm' _ _ _ hr _ hov => exact hr.trans (h.unresolved _ hm' (hov ho))
    | resolved _ _ _ _ _ _ _ _ _ hov => simp [hov] at ho
  running sub hsub c' hm hid := by
    cases h.origin call c' hm with
    | fresh hr _ _ => simp [hr]
    | kept hm' hid' _ _ hr _ _ =>
      rw [hr]
      exact h.running sub hsub _ hm' (hid'.trans hid)
    | @resolved c resolution active now r hm' hid' _ _ _ hc hres hr _ _ =>
      rw [hr]
      rintro ⟨⟩
      exact hs _ _ _ _ hc hres sub hsub (hid.symm.trans hid'.symm)

/-- Fewer running calls, at any stage. -/
theorem Inv.fewer {graph : List (PyStr × PyStr)} {running : List Submission} (h : Inv S w)
    (hr : ∀ sub ∈ running, ∃ old ∈ w.running, old.receipt = sub.receipt) :
    Inv S ⟨w.store, graph, running⟩ where
  coherent := h.coherent
  unresolved := h.unresolved
  running sub hsub c hm hid := by
    obtain ⟨old, hold, he⟩ := hr sub hsub
    exact h.running old hold c hm (hid.trans he.symm)

theorem Inv.erase {graph : List (PyStr × PyStr)} (h : Inv S w) (i : Nat) :
    Inv S ⟨w.store, graph, w.running.eraseIdx i⟩ :=
  h.fewer fun sub hsub => ⟨sub, List.mem_of_mem_eraseIdx hsub, rfl⟩

theorem Inv.submit (h : Inv S w) (worker : PyStr) (identity : CandidateIdentity) (now : Stamp) :
    Inv S (w.submit S worker identity now) := by
  unfold World.submit
  cases candidateReceiptId identity with
  | error e => exact h
  | ok receipt =>
    have hp : Inv S { w with store :=
        (S.perform (.registerCandidate worker receipt identity now) w.store).2 } :=
      h.perform fun _ _ _ _ hc => by cases hc
    dsimp only
    split_ifs with hact
    · refine ⟨hp.coherent, hp.unresolved, fun sub hsub c hm hid => ?_⟩
      rcases List.mem_append.mp hsub with hsub | hsub
      · exact hp.running sub hsub c hm hid
      · -- the call goes on only where its receipt is active, so nobody has resolved it
        rw [List.mem_singleton.mp hsub] at hid
        have hrow := (S.perform (.registerCandidate worker receipt identity now)
          w.store).2.2.candidate?_eq.mpr ⟨hm, hid⟩
        rw [hrow, Option.any_some, beq_iff_eq] at hact
        rw [hp.unresolved c hm (by simp [Candidate.overlay, hact.2])]
        simp
    · exact hp

theorem Inv.resolveCandidate (h : Inv S w) {receipt outcome : PyStr} (acknowledged : Bool) (now : Stamp)
    (hs : outcome = "known-no-promotion".toList → ∀ sub ∈ w.running, sub.receipt ≠ receipt) :
    Inv S (w.resolveCandidate S receipt outcome acknowledged now) := by
  unfold World.resolveCandidate
  split
  · rename_i resolution row hout hrow
    split
    · split_ifs
      · refine h.perform fun receipt' resolution' active' now' hc hres => ?_
        cases hc
        refine hs ?_
        unfold ownerOutcome? at hout
        split_ifs at hout with h1 h2
        · exact h1
        · cases hout
          exact absurd hres (by decide)
      · exact h
    · exact h
  · exact h

/-- Every settled step keeps the invariant. -/
theorem Inv.step (h : Inv S w) {e : Event} (hs : w.Settled e) : Inv S (w.step S e) := by
  cases e with
  | submit worker identity now => exact h.submit worker identity now
  | verdict i correct =>
    simp only [World.step, World.verdict]
    split_ifs
    · refine h.fewer fun sub hsub => ?_
      obtain ⟨j, hj⟩ := List.mem_iff_getElem?.mp hsub
      rw [List.getElem?_modify] at hj
      cases hold : w.running[j]? with
      | none => simp [hold] at hj
      | some old =>
        refine ⟨old, List.mem_of_getElem? hold, ?_⟩
        rw [hold] at hj
        cases hj
        split_ifs <;> rfl
    · exact h.erase i
  | promote i refused =>
    simp only [World.step, World.promote]
    split
    · split_ifs
      · exact h.erase i
      · exact h.erase i
      · exact h
    · exact h
  | die i => exact h.erase i
  | call c other =>
    refine h.perform fun _ _ _ _ hc => ?_
    rw [hc] at other
    cases other
  | addFact factId identity => exact h.fewer fun sub hsub => ⟨sub, hsub, rfl⟩
  | revoke factId => exact h.fewer fun sub hsub => ⟨sub, hsub, rfl⟩
  | resolveCandidate receipt outcome acknowledged now => exact h.resolveCandidate acknowledged now hs

/-- The invariant holds along every settled run. -/
theorem inv_of_settled (h : (machine S).Reaches SettledRun w) : Inv S w := by
  refine h.invariant ?_ ?_
  · rintro w ⟨⟨clock, hdb⟩, hrun⟩
    refine ⟨(coherent_initial hdb).1, ?_, ?_⟩
    · simp [hdb, CoordinationStore.initialTables]
    · simp [hrun]
  · rintro w past e w' hw hs rfl
    exact hw.step (hs w rfl)

/-- Under the invariant no write is late. -/
theorem Inv.not_late (h : Inv S w) (e : Event) : w.lateWrite e = false := by
  unfold World.lateWrite
  split
  · split
    · rename_i sub hsub
      cases hrow : w.store.1.candidate? sub.receipt with
      | none => simp
      | some row =>
        obtain ⟨hm, hid⟩ := w.store.2.candidate?_eq.mp hrow
        have hno := h.running sub (List.mem_of_getElem? hsub) row hm hid
        simp [hno]
    · rfl
  · rfl

/-- What the owner's resolution attests, it reads from the graph. -/
theorem Inv.attests (h : Inv S w) (e : Event) : w.Attests (w.step S e) := by
  have hcall : ∀ call, (resolvesCandidate call = false) → ∀ w' : World,
      w'.store = (S.perform call w.store).2 → w.Attests w' := by
    intro call hother w' hst row' hm active hact
    rw [hst] at hm
    cases h.origin call row' hm with
    | fresh _ ha _ => simp [ha] at hact
    | kept hm' hid _ _ _ ha _ => exact .inl ⟨_, hm', hid, ha ▸ hact⟩
    | resolved _ _ _ _ _ hc =>
      rw [hc] at hother
      cases hother
  have hsame : ∀ w' : World, w'.store = w.store → w.Attests w' := by
    intro w' hst row' hm active hact
    rw [hst] at hm
    exact .inl ⟨row', hm, rfl, hact⟩
  cases e with
  | submit worker identity now =>
    simp only [World.step, World.submit]
    split
    · exact hsame _ rfl
    · split_ifs
      · exact hcall _ rfl _ rfl
      · exact hcall _ rfl _ rfl
  | verdict i correct =>
    refine hsame _ ?_
    simp only [World.step, World.verdict]
    split_ifs <;> rfl
  | promote i refused =>
    refine hsame _ ?_
    simp only [World.step, World.promote]
    split
    · split_ifs <;> rfl
    · rfl
  | die i => exact hsame _ rfl
  | call c other => exact hcall c other _ rfl
  | addFact factId identity => exact hsame _ rfl
  | revoke factId => exact hsame _ rfl
  | resolveCandidate receipt outcome acknowledged now =>
    simp only [World.step, World.resolveCandidate]
    split
    · rename_i resolution row hout hrow
      split
      · rename_i active hactive
        split_ifs
        · intro row' hm active' hact
          cases h.origin _ row' hm with
          | fresh _ ha _ => simp [ha] at hact
          | kept hm' hid _ _ _ ha _ => exact .inl ⟨_, hm', hid, ha ▸ hact⟩
          | @resolved c resolution' active'' now' r hm' hid hf hi hov hc _ _ ha _ =>
            -- the row that is resolved is the one whose fact was looked up
            cases hc
            obtain rfl : c = row := Option.some.inj
              ((w.store.2.candidate?_eq.mpr ⟨hm', rfl⟩).symm.trans hrow)
            rw [ha, Option.some.injEq] at hact
            subst hact
            rw [factActive?, if_neg (not_not.mpr (h.unresolved c hm' hov))] at hactive
            right
            split at hactive
            · rename_i factId identity hfact hident
              split_ifs at hactive
              rw [Option.some.injEq] at hactive
              refine ⟨factId, identity, hf.trans hfact, hi.trans hident, ?_⟩
              rw [← hactive, decide_eq_true_iff]
            · cases hactive
        · exact hsame _ rfl
      · exact hsame _ rfl
    · exact hsame _ rfl

end Invariant

variable {S : CoordinationStore} {w : World}

/-- In every run where the owner resolves a candidate as known not to be promoted only while no call that
registered it is running, no call ever writes the fact of a candidate so resolved, and what a resolution
attests of the fact is what the graph says at the resolution. -/
theorem known_no_promotion_final (h : (machine S).Reaches SettledRun w) (e : Event) :
    w.lateWrite e = false ∧ w.Attests (w.step S e) :=
  ⟨(inv_of_settled h).not_late e, (inv_of_settled h).attests e⟩

/-- The pair's stores when they are created, with an empty graph. -/
def pairWorld : World := ⟨pairDatabase, [], []⟩

/-- The root's call dies after it has registered its candidate, and its slot ends. -/
def abandonedRun : List Event :=
  [.call (.stageTaskAssignment "root".toList "left".toList (some (.fin 1))) rfl,
    .call (.stageTaskAssignment "critic".toList "right".toList (some (.fin 1))) rfl,
    .call (.admitWorker "root".toList "a".toList (some (.fin 2))) rfl,
    .call (.pinPrompt "slot_a".toList (promptText "slot_a" "left")) rfl,
    .call (.activate "slot_a".toList (some (.fin 3))) rfl,
    .submit "root".toList candidateIdentity (some (.fin 4)),
    .die 0,
    .call (.complete "slot_a".toList "completed".toList (some (.fin 5)) 5) rfl]

def abandoned : World := abandonedRun.foldl (World.step pairStore) pairWorld

def resolvedLast : World :=
  abandoned.step pairStore
    (.resolveCandidate candidateReceipt "known-no-promotion".toList true (some (.fin 6)))

theorem resolvedLast_row : ∃ row ∈ resolvedLast.store.1.candidates,
    row.candidateId = candidateReceipt ∧ row.ownerResolution = some .knownNoPromotion ∧
    row.candidateFactActiveAtResolution = some false := by
  decide +kernel

/-- The owner resolves the candidate of the call that died. -/
theorem known_no_promotion_final_abandoned :
    (∃ row ∈ resolvedLast.store.1.candidates, row.candidateId = candidateReceipt ∧
      row.ownerResolution = some .knownNoPromotion ∧
      row.candidateFactActiveAtResolution = some false) ∧
    abandoned.Attests resolvedLast ∧
    ∀ e, resolvedLast.lateWrite e = false ∧ resolvedLast.Attests (resolvedLast.step pairStore e) := by
  have hnone : abandoned.running = [] := by
    simp only [abandoned, abandonedRun, List.foldl_cons, List.foldl_nil, World.step, World.submit,
      pairWorld]
    split
    · rfl
    · split_ifs <;> rfl
  have hstart : (machine pairStore).Reaches SettledRun pairWorld := ⟨[], .start ⟨pair_start, rfl⟩⟩
  have habandoned : (machine pairStore).Reaches SettledRun abandoned := by
    refine hstart.foldl (f := World.step pairStore) (fun _ _ => rfl) abandonedRun
      fun e he l w _ => ?_
    simp only [abandonedRun, List.mem_cons, List.not_mem_nil, or_false] at he
    rcases he with rfl | rfl | rfl | rfl | rfl | rfl | rfl | rfl <;> exact True.intro
  have hstep : ∀ {w w' : World} {e : Event}, w.step pairStore e = w' → w.Settled e →
      (machine pairStore).Reaches SettledRun w → (machine pairStore).Reaches SettledRun w' := by
    rintro w w' e hw hs ⟨past, h⟩
    refine ⟨_, h.step (i := e) ?_ hw⟩
    rintro _ ⟨⟩
    exact hs
  have hresolved : (machine pairStore).Reaches SettledRun resolvedLast := by
    refine hstep rfl (fun _ sub hsub => ?_) habandoned
    rw [hnone] at hsub
    cases hsub
  exact ⟨resolvedLast_row, (known_no_promotion_final habandoned _).2, known_no_promotion_final hresolved⟩

/-- The root's call is still verifying when its slot is completed and the owner resolves its candidate;
then its verification ends. -/
def lateRun : List Event :=
  [.call (.stageTaskAssignment "root".toList "left".toList (some (.fin 1))) rfl,
    .call (.stageTaskAssignment "critic".toList "right".toList (some (.fin 1))) rfl,
    .call (.admitWorker "root".toList "a".toList (some (.fin 2))) rfl,
    .call (.pinPrompt "slot_a".toList (promptText "slot_a" "left")) rfl,
    .call (.activate "slot_a".toList (some (.fin 3))) rfl,
    .submit "root".toList candidateIdentity (some (.fin 4)),
    .call (.complete "slot_a".toList "completed".toList (some (.fin 5)) 5) rfl,
    .resolveCandidate candidateReceipt "known-no-promotion".toList true (some (.fin 6)),
    .verdict 0 true]

def resolvedEarly : World := lateRun.foldl (World.step pairStore) pairWorld

/-- A call that outlives its slot writes the fact of its candidate after the owner has resolved it as
known not to be promoted. -/
theorem late_write : ¬ ∀ (S : CoordinationStore) (w : World), (machine S).Reachable w →
    ∀ e, w.lateWrite e = false := by
  intro hall
  have hstart : (machine pairStore).Reachable pairWorld :=
    Machine.reachable_start ⟨pair_start, rfl⟩
  have hr : (machine pairStore).Reachable resolvedEarly := hstart.foldl (fun _ _ => rfl) lateRun
  have hlate : resolvedEarly.lateWrite (.promote 0 false) = true := by decide +kernel
  have hno := hall pairStore resolvedEarly hr (.promote 0 false)
  rw [hlate] at hno
  cases hno

end Danus.Gateway
