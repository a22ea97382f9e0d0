import Danus.Strategy.AdvisorRuns

/-! What a dispatch that died leaves of every other request, and of its own. -/
namespace Danus.Strategy
open Python Machines Checks

/-- `l'` is `l` but for the anchor of one request, which may also have been dispatched in it. -/
structure Ledger.Alike (id : PyStr) (l l' : Ledger) : Prop where
  projectDir : l'.projectDir = l.projectDir
  anchors : ∀ j, j ≠ id → l'.anchors j = l.anchors j
  request? : ∀ j, j ≠ id → l'.request? j = l.request? j
  scans : ∀ p : Request → Bool, (∀ row tokenSha256 raw now, row.state = .authorized →
    p (row.dispatched tokenSha256 raw now) = p row) → l'.requests.any p = l.requests.any p

/-- Two computations with the same answer, whose ledgers are still alike. -/
inductive Same (id : PyStr) : Except Refusal (Request × Ledger) → Except Refusal (Request × Ledger) → Prop where
  | raises (e : Refusal) : Same id (.error e) (.error e)
  | answers {l l' : Ledger} (row : Request) : l.Alike id l' → Same id (.ok (row, l')) (.ok (row, l))

section Same
variable {α : Type} {id : PyStr} {x y x' y' : Except Refusal (Request × Ledger)} {z : Except Refusal α}
  {f g : α → Except Refusal (Request × Ledger)} {c : Prop} {e : Refusal} {l l' : Ledger}

theorem Same.bind (h : ∀ a, Same id (f a) (g a)) : Same id (z >>= f) (z >>= g) := by
  cases z with
  | error e => exact .raises e
  | ok a => exact h a

theorem Same.unless [Decidable c] (h : Same id x y) :
    Same id (if c then (throw e : Except Refusal α) >>= f else x)
      (if c then (throw e : Except Refusal α) >>= g else y) := by
  by_cases hc : c
  · simp only [hc, if_true]
    exact .raises e
  · simpa only [hc, if_false] using h

theorem Same.ite [Decidable c] (h : Same id x y) (h' : Same id x' y') :
    Same id (if c then x else x') (if c then y else y') := by
  by_cases hc : c
  · simpa only [hc, if_true] using h
  · simpa only [hc, if_false] using h'

theorem Same.read (h : l.Alike id l') (r : Except Refusal Request) :
    Same id (r.map (·, l')) (r.map (·, l)) := by
  cases r with
  | error e => exact .raises e
  | ok row => exact .answers row h

end Same

section Frame
variable {id j : PyStr} {l l' : Ledger} {row new : Request}

theorem assertIntegrity_congr (h : l'.projectDir = l.projectDir) :
    l'.assertIntegrity row = l.assertIntegrity row := by
  unfold Ledger.assertIntegrity
  rw [h]

theorem getInTx_congr (hd : l'.projectDir = l.projectDir) (ha : l'.anchors j = l.anchors j)
    (hr : l'.request? j = l.request? j) : l'.getInTx j = l.getInTx j := by
  unfold Ledger.getInTx
  rw [hr]
  cases hf : l.request? j with
  | none => rfl
  | some row =>
    have hid := (request?_mem hf).2
    have hanchor : l'.assertAnchor row = l.assertAnchor row := assertAnchor_congr (hid.symm ▸ ha)
    simp only [assertIntegrity_congr hd, hanchor]

theorem Ledger.Alike.getInTx (h : l.Alike id l') (hj : j ≠ id) : l'.getInTx j = l.getInTx j :=
  getInTx_congr h.projectDir (h.anchors j hj) (h.request? j hj)

theorem request?_set : (l.set new).request? j =
    if new.requestId = j then (l.request? j).map fun _ => new else l.request? j := by
  unfold Ledger.request? Ledger.set Rows.set Rows.update
  induction l.requests with
  | nil => simp
  | cons row rows ih =>
    rw [List.map_cons, List.find?_cons, ih, List.find?_cons]
    by_cases hk : row.requestId = new.requestId
    · by_cases hj : new.requestId = j
      · simp [hk, hj]
      · simp [hk, hj]
    · by_cases hj : new.requestId = j
      · simp [hj, hj ▸ hk]
      · simp [hk, hj]

/-- A condition on the rows of an updated table, as a condition on the rows before it. -/
theorem any_set {p : Request → Bool} : (l.set new).requests.any p =
    l.requests.any fun row => if row.requestId = new.requestId then p new else p row := by
  unfold Ledger.set Rows.set Rows.update
  rw [List.any_map]
  congr 1
  funext row
  by_cases hk : row.requestId = new.requestId
  · simp [hk]
  · simp [hk]

theorem Ledger.Alike.set (h : l.Alike id l') : (l.set new).Alike id (l'.set new) where
  projectDir := h.projectDir
  anchors := h.anchors
  request? := by
    intro j hj
    rw [request?_set, request?_set, h.request? j hj]
  scans := by
    intro p hp
    rw [any_set, any_set]
    apply h.scans
    intro row tokenSha256 raw now hs
    change (if row.requestId = new.requestId then p new else p (row.dispatched tokenSha256 raw now)) = _
    rw [hp row tokenSha256 raw now hs]

theorem Ledger.Alike.anchored (h : l.Alike id l') {raw : List Nat} :
    (l.anchored j raw).Alike id (l'.anchored j raw) where
  projectDir := h.projectDir
  anchors := by
    intro i hi
    unfold Ledger.anchored
    simp only [h.anchors i hi]
  request? := h.request?
  scans := h.scans

theorem Ledger.Alike.reread (h : l.Alike id l') (hj : j ≠ id) :
    Same id ((l'.getInTx j).map (·, l')) ((l.getInTx j).map (·, l)) := by
  rw [h.getInTx hj]
  exact .read h _

theorem Ledger.Alike.transact (h : l.Alike id l') (hj : j ≠ id)
    {decide decide' : Request → Except Refusal (Option Request)}
    (hd : ∀ row, l.getInTx j = .ok row → decide' row = decide row) :
    Same id (l'.transact j decide') (l.transact j decide) := by
  unfold Ledger.transact
  rw [h.getInTx hj]
  cases hg : l.getInTx j with
  | error e => exact .raises e
  | ok row =>
    dsimp only
    rw [hd row hg]
    cases hr : decide row with
    | error e => exact .raises e
    | ok o =>
      cases o with
      | none => exact .answers row h
      | some new =>
        dsimp only
        rw [h.set.getInTx hj]
        exact .read h.set _

/-- What a row's lineage check sees is the same in both ledgers. -/
theorem Ledger.Alike.assertLineage (h : l.Alike id l') {requireHead : Bool}
    (hp : ∀ p, row.predecessor = some p → p.requestId ≠ id) :
    l'.assertLineage row requireHead = l.assertLineage row requireHead := by
  unfold Ledger.assertLineage
  cases hr : row.predecessor with
  | none => rfl
  | some p =>
    have hpre : l'.assertPredecessor row p = l.assertPredecessor row p := by
      unfold Ledger.assertPredecessor
      rw [h.getInTx (hp p hr)]
    have hhead : l'.assertHead row p = l.assertHead row p := by
      unfold Ledger.assertHead
      rw [h.scans, h.scans]
      · intro row token raw now hs
        simp only [Request.dispatched, hs]
        rfl
      · intro row token raw now hs
        simp only [Request.dispatched, hs]
        rfl
    simp only [hpre, hhead]

theorem Ledger.Alike.assertDelivery (h : l.Alike id l') {requireHead : Bool} {urlSha256 : PyStr}
    (hp : ∀ p, row.predecessor = some p → p.requestId ≠ id) :
    l'.assertDelivery row urlSha256 requireHead = l.assertDelivery row urlSha256 requireHead := by
  unfold Ledger.assertDelivery
  rw [h.assertLineage hp, h.scans]
  intro row token raw now hs
  simp [Request.dispatched]

end Frame

section Operations
variable [Patterns] {id j : PyStr} {l l' : Ledger} {now : Nat}

/-- An operation on another request gives the same answer in both ledgers. -/
theorem Ledger.Alike.operate (h : l.Alike id l') (hj : j ≠ id)
    (hp : ∀ row, l.getInTx j = .ok row → ∀ p, row.predecessor = some p → p.requestId ≠ id)
    (op : Operation) : Same id (op.run l' j now) (op.run l j now) := by
  have hlin : ∀ row, l.getInTx j = .ok row → ∀ head,
      l'.assertLineage row head = l.assertLineage row head :=
    fun row hrow head => h.assertLineage (hp row hrow)
  have hval : ∀ row, l.getInTx j = .ok row → ∀ url,
      validateDispatch l' url row = validateDispatch l url row := by
    intro row hrow url
    unfold validateDispatch
    rw [assertIntegrity_congr h.projectDir, hlin row hrow]
  have hdel : ∀ row, l.getInTx j = .ok row → ∀ url head,
      l'.assertDelivery row url head = l.assertDelivery row url head :=
    fun row hrow url head => h.assertDelivery (hp row hrow)
  cases op with
  | get =>
    have he : Strategy.getRequest l' j = Strategy.getRequest l j := by
      unfold Strategy.getRequest
      rw [h.getInTx hj]
      cases hg : l.getInTx j with
      | error e => rfl
      | ok row => simp only [Bind.bind, Except.bind, hlin row hg]
    change Same id ((Strategy.getRequest l' j).map (·, l')) ((Strategy.getRequest l j).map (·, l))
    rw [he]
    exact .read h _
  | authorize promptSha256 scope acknowledged =>
    refine Same.bind fun _ => Same.bind fun _ => Same.bind fun _ => Same.unless (h.transact hj ?_)
    intro row hrow
    rw [hlin row hrow]
  | dispatchRead url =>
    have he : Strategy.dispatchRead l' j url = Strategy.dispatchRead l j url := by
      unfold Strategy.dispatchRead
      rw [h.getInTx hj]
      cases hg : l.getInTx j with
      | error e => rfl
      | ok row => simp only [Bind.bind, Except.bind, hval row hg]
    change Same id ((Strategy.dispatchRead l' j url).map (·, l'))
      ((Strategy.dispatchRead l j url).map (·, l))
    rw [he]
    exact .read h _
  | dispatch url authority token =>
    have hcas : dispatchCas l' j url authority token = dispatchCas l j url authority token := by
      unfold dispatchCas
      rw [h.getInTx hj]
      cases hg : l.getInTx j with
      | error e => rfl
      | ok row => simp only [Bind.bind, Except.bind, hval row hg]
    change Same id (dispatchCommit l' j url authority token now) (dispatchCommit l j url authority token now)
    unfold dispatchCommit
    rw [hcas]
    refine Same.bind fun cas => ?_
    unfold Ledger.writeAnchorOnce
    rw [h.anchors j hj]
    cases l.anchors j with
    | some _ => exact .raises _
    | none =>
      exact h.anchored.set.reread hj
  | submitted observed uiMode full url =>
    refine Same.bind fun _ => Same.unless (Same.unless (Same.bind fun _ => h.transact hj ?_))
    intro row hrow
    rw [hdel row hrow]
  | finish target a absent =>
    refine Same.bind fun _ => Same.bind fun _ => h.transact hj ?_
    intro row hrow
    rw [hdel row hrow, hdel row hrow, h.scans]
    intro row token raw now hs
    rfl
  | recover observation reason =>
    have ht := h.transact hj (fun row hrow => congrArg (· >>= fun _ =>
      if row.state = .deliveryUnknown then pure none
      else if row.state ≠ .dispatching ∧ row.state ≠ .submitted then
        throw (.state ("cannot mark delivery unknown from state " ++ row.state.name))
      else pure (some { row with state := .deliveryUnknown, updatedNs := now })) (hlin row hrow true))
    exact Same.unless (Same.ite (Same.bind fun _ => Same.bind fun _ => ht) ht)
  | failNotSubmitted reason evidence acknowledged token =>
    refine Same.bind fun _ => Same.bind fun _ => Same.bind fun _ => Same.bind fun _ =>
      Same.unless (h.transact hj ?_)
    intro row hrow
    rw [hlin row hrow]
  | abandon reason acknowledged =>
    refine Same.bind fun _ => Same.bind fun _ => h.transact hj ?_
    intro row hrow
    rw [hlin row hrow]
  | importRead response =>
    have he : Strategy.importRead l' j response = Strategy.importRead l j response := by
      unfold Strategy.importRead
      rw [h.getInTx hj]
      cases hg : l.getInTx j with
      | error e => rfl
      | ok row => simp only [Bind.bind, Except.bind, hlin row hg]
    change Same id ((Strategy.importRead l' j response).map (·, l'))
      ((Strategy.importRead l j response).map (·, l))
    rw [he]
    exact .read h _
  | importCommit =>
    refine h.transact hj ?_
    intro row hrow
    rw [hlin row hrow]
  | adopt strategy acknowledged =>
    refine Same.bind fun _ => Same.bind fun _ => Same.unless (Same.unless (h.transact hj ?_))
    intro row hrow
    rw [hlin row hrow, h.scans]
    intro row token raw now hs
    rfl

end Operations

section Deaths
variable {id : PyStr} {l l' : Ledger} {row old new : Request} {raw : List Nat} {tokenSha256 : PyStr}
  {now : Nat}

theorem alike_refl : l.Alike id l := ⟨rfl, fun _ _ => rfl, fun _ _ => rfl, fun _ _ => rfl⟩

theorem alike_anchored : l.Alike id (l.anchored id raw) :=
  ⟨rfl, fun _ hj => anchored_anchors_of_ne hj, fun _ _ => rfl, fun _ _ => rfl⟩

theorem alike_dispatched (hc : l.Coherent) (hmem : old ∈ l.requests) (hs : old.state = .authorized) :
    l.Alike old.requestId
      ((l.anchored old.requestId raw).set (old.dispatched tokenSha256 raw now)) where
  projectDir := rfl
  anchors := fun _ hj => anchored_anchors_of_ne hj
  request? := by
    intro j hj
    rw [request?_set]
    have hne : (old.dispatched tokenSha256 raw now).requestId ≠ j := fun he => hj he.symm
    rw [if_neg hne]
    rfl
  scans := by
    intro p hp
    have hany : (Rows.set Request.requestId (old.dispatched tokenSha256 raw now) l.requests).any p =
        l.requests.any p := by
      unfold Rows.set Rows.update
      rw [List.any_map, Bool.eq_iff_iff, List.any_eq_true, List.any_eq_true]
      refine exists_congr fun r => and_congr_right fun hr => ?_
      by_cases hk : r.requestId = old.requestId
      · have he : r = old := hc.same hr hmem hk
        subst he
        have hkey : (decide (r.requestId = (r.dispatched tokenSha256 raw now).requestId)) = true :=
          decide_eq_true rfl
        rw [Function.comp_apply, if_pos hkey, hp r tokenSha256 raw now hs]
      · simp [Request.dispatched, hk]
    exact hany

/-- The row that an acknowledged abandonment leaves. -/
def Request.abandoned (row : Request) (reasonSha256 : PyStr) (now : Nat) : Request :=
  { row with
    state := if row.state.ambiguous then .ownerAbandonedOutcomeUnknown else .abandoned
    terminalReasonSha256 := some reasonSha256
    terminalAcknowledgement := some true
    terminalPriorState := some row.state
    updatedNs := now }

/-- What an abandonment makes of a row that a read accepts, a read accepts. -/
theorem read_abandoned {reasonSha256 : PyStr} (hg : l.getInTx id = .ok row)
    (hs : row.state = .authorized ∨ row.state = .dispatching) :
    (l.set (row.abandoned reasonSha256 now)).getInTx id = .ok (row.abandoned reasonSha256 now) := by
  generalize hnew : row.abandoned reasonSha256 now = new
  replace hnew := hnew.symm
  unfold Request.abandoned at hnew
  obtain ⟨hid, hf, hi, ha⟩ := getInTx_ok.mp hg
  have hrow := (request?_mem hf).2
  have hnewid : new.requestId = id := by rw [hnew]; exact hrow
  have hraw : ∀ t, dispatchAnchorRaw new t = dispatchAnchorRaw row t := by
    intro t
    unfold dispatchAnchorRaw anchorText
    rw [hnew]
  refine getInTx_ok.mpr ⟨hid, ?_, ?_, ?_⟩
  · rw [request?_set, if_pos hnewid, hf]
    rfl
  · have hsame : (l.set new).assertIntegrity new = l.assertIntegrity row := by
      unfold Ledger.assertIntegrity
      rw [hnew]
      rfl
    rw [hsame, hi]
  · have hsame : (l.set new).assertAnchor new = l.assertAnchor new := rfl
    rw [hsame]
    apply assertAnchor_ok.mpr
    simp only [hraw]
    rcases assertAnchor_ok.mp ha with ⟨ht, hu, hn, hd⟩ | ⟨t, raw, ht, hsha, hu, hn, hr, hd⟩
    · refine .inl ⟨by rw [hnew]; exact ht, ?_, by rw [hnewid, ← hrow]; exact hn, by rw [hnew]; exact hd⟩
      rcases hs with hs | hs
      · rw [hnew]; simp [Ledger.undispatched, hs, RequestState.ambiguous]
      · simp [Ledger.undispatched, hs] at hu
    · refine .inr ⟨t, raw, by rw [hnew]; exact ht, hsha, ?_, by rw [hnewid, ← hrow]; exact hn, hr,
        by rw [hnew]; exact hd⟩
      rcases hs with hs | hs
      · simp [Ledger.undispatched, hs] at hu
      · rw [hnew]; simp [Ledger.undispatched, hs, RequestState.ambiguous]

/-- An owner can end a request that was authorised, or whose dispatch was recorded. -/
theorem abandon_ends [Patterns] {reason : PyStr} {n : Nat} (hg : l.getInTx id = .ok row)
    (hl : l.assertLineage row false = .ok ())
    (hs : row.state = .authorized ∨ row.state = .dispatching)
    (htext : validateText reason "abandon reason" 4096 = .ok n)
    (hsecret : assertNoSecret reason "abandon reason" = .ok ()) :
    ∃ r l₁, abandon l id reason true now = .ok (r, l₁) ∧ r.state.terminal = true := by
  have hread : (l.set (row.abandoned (sha256Text reason) now)).getInTx id =
      .ok (row.abandoned (sha256Text reason) now) := read_abandoned hg hs
  refine ⟨row.abandoned (sha256Text reason) now, l.set (row.abandoned (sha256Text reason) now), ?_, ?_⟩
  · unfold abandon
    simp only [htext, hsecret, Bind.bind, Except.bind]
    apply transact_ok.mpr
    refine ⟨row, hg, .inr ⟨_, ?_, hread, rfl⟩⟩
    rcases hs with hs | hs
    · simp [hl, hs, Request.abandoned, RequestState.terminal, RequestState.ambiguous, pure, Except.pure]
    · simp [hl, hs, Request.abandoned, RequestState.terminal, RequestState.ambiguous, pure, Except.pure]
  · rcases hs with hs | hs
    · simp [hs, Request.abandoned, RequestState.terminal, RequestState.ambiguous]
    · simp [hs, Request.abandoned, RequestState.terminal, RequestState.ambiguous]

/-- A stranded request is refused by every read. -/
theorem Ledger.Stranded.refused (hn : (l.requests.map Request.requestId).Nodup)
    (hmem : row ∈ l.requests) (hs : l.Stranded row) {r : Request} :
    ¬ l.getInTx row.requestId = .ok r := by
  intro hg
  have hm := getInTx_mem hg
  have he : r = row := Rows.eq_of_key hn hm.1 hmem hm.2
  subst he
  rcases assertAnchor_ok.mp (getInTx_ok.mp hg).2.2.2 with ⟨_, _, ha, _⟩ | ⟨_, _, ht, _⟩
  · exact hs.2.2.2 ha
  · rw [hs.2.1] at ht
    cases ht

/-- The request can never be dispatched: its authorisation is spent, or it is stranded. -/
def Ledger.Closed (l : Ledger) (id : PyStr) : Prop :=
  ∃ row ∈ l.requests, row.requestId = id ∧
    (l.Stranded row ∨ (row.state ≠ .prepared ∧ row.state ≠ .authorized))

theorem Ledger.Stranded.step {clicked : List PyStr} (hc : l.Coherent) (hmem : row ∈ l.requests)
    (hs : l.Stranded row) (h : l.Step l' clicked) : row ∈ l'.requests ∧ l'.Stranded row := by
  have hrep : ∀ old new, l.Replaces l' old new → row ∈ l'.requests ∧ l'.Stranded row := by
    intro old new hr
    have hne : row.requestId ≠ old.requestId := by
      intro he
      exact hs.refused hc.requestIds hmem (he ▸ hr.found)
    have hstr : l'.Stranded row := by
      unfold Ledger.Stranded
      rw [hr.anchors _ hne]
      exact hs
    refine ⟨?_, hstr⟩
    rw [hr.requests]
    exact Rows.mem_set_of_ne hmem (by rwa [hr.key])
  cases h with
  | same => exact ⟨hmem, hs⟩
  | @torn old raw hold hfound _ =>
    have hne : row.requestId ≠ old.requestId := by
      intro he
      exact hs.refused hc.requestIds hmem (he ▸ hfound)
    refine ⟨hmem, ?_⟩
    unfold Ledger.Stranded
    rw [anchored_anchors_of_ne hne]
    exact hs
  | insert _ _ => exact ⟨List.mem_append_left _ hmem, hs⟩
  | update hr => exact hrep _ _ hr
  | dispatch hr _ _ _ _ => exact hrep _ _ hr

theorem Ledger.Closed.step {clicked : List PyStr} (hc : l.Coherent) (hcl : l.Closed id)
    (h : l.Step l' clicked) : l'.Closed id ∧ id ∉ clicked := by
  obtain ⟨row, hrow, hid, hs | ⟨hp, ha⟩⟩ := hcl
  · obtain ⟨hrow', hs'⟩ := hs.step hc hrow h
    refine ⟨⟨row, hrow', hid, .inl hs'⟩, ?_⟩
    intro hclick
    obtain ⟨_, old, _, hr, hkey, _⟩ := h.click hclick
    exact hs.refused hc.requestIds hrow ((hkey.trans hid.symm) ▸ hr.found)
  · obtain ⟨row', hrow', hf⟩ := h.follows hc hrow
    refine ⟨⟨row', hrow', (congrArg Request.requestId hf.identity :).trans hid, .inr (hf.spent hp ha)⟩, ?_⟩
    intro hclick
    obtain ⟨_, old, _, hr, hkey, hauth, _⟩ := h.click hclick
    have he : row = old := hc.same hrow hr.mem (hid.trans hkey.symm)
    exact ha (he ▸ hauth)

end Deaths

section Others
variable [Patterns] {id j i : PyStr} {l l' : Ledger} {now : Nat} {out : Request × Ledger}

omit [Patterns] in
theorem Ledger.Updates.others (h : l.Updates j l') (hi : i ≠ j) : l'.request? i = l.request? i := by
  rcases h with rfl | ⟨old, new, hold, hm, rfl, _⟩
  · rfl
  · have hk : new.requestId = j := (congrArg Request.requestId hm.identity :).trans (getInTx_mem hold).2
    rw [request?_set, if_neg]
    rw [hk]
    exact hi.symm

/-- An operation changes no row but its own. -/
theorem operate_others {op : Operation} (h : op.run l j now = .ok out) (hi : i ≠ j) :
    out.2.request? i = l.request? i := by
  cases op with
  | get =>
    obtain ⟨_, _, rfl⟩ := map_ok.mp h
    rfl
  | authorize _ _ _ => exact (authorize_updates h).others hi
  | dispatchRead _ =>
    obtain ⟨_, _, rfl⟩ := map_ok.mp h
    rfl
  | dispatch url authority token =>
    obtain ⟨old, raw, hold, _, _, hl, _⟩ := dispatchCommit_ok h
    rw [hl, request?_set, if_neg]
    · rfl
    · intro he
      exact hi (he.symm.trans (getInTx_mem hold).2)
  | submitted _ _ _ _ => exact (submitted_updates h).others hi
  | finish _ _ _ => exact (finish_updates h).others hi
  | recover _ _ => exact (recover_updates h).others hi
  | failNotSubmitted _ _ _ _ => exact (failNotSubmitted_updates h).others hi
  | abandon _ _ => exact (abandon_updates h).others hi
  | importRead _ =>
    obtain ⟨_, _, rfl⟩ := map_ok.mp h
    rfl
  | importCommit => exact (importCommit_updates h).others hi
  | adopt _ _ => exact (adopt_updates h).others hi

/-- Calls on requests, in order, of brokers that are open already; one that raises changes nothing. -/
def answers (l : Ledger) : List (PyStr × Nat × Operation) → List (Except Refusal Request)
  | [] => []
  | (j, now, op) :: calls =>
    match op.run l j now with
    | .error e => .error e :: answers l calls
    | .ok (row, l) => .ok row :: answers l calls

/-- Calls on other requests get the same answers in both ledgers. -/
theorem answers_alike {calls : List (PyStr × Nat × Operation)} (h : l.Alike id l') (hc : l.Coherent)
    (hid : ∃ old, l.request? id = some old ∧ old.state = .authorized)
    (hcalls : ∀ call ∈ calls, call.1 ≠ id) : answers l' calls = answers l calls := by
  induction calls generalizing l l' with
  | nil => rfl
  | cons call calls ih =>
    obtain ⟨j, now, op⟩ := call
    have hj : j ≠ id := hcalls _ List.mem_cons_self
    have hrest : ∀ call ∈ calls, call.1 ≠ id := fun c hcm => hcalls c (List.mem_cons_of_mem _ hcm)
    obtain ⟨old, hold, hauth⟩ := hid
    have hp : ∀ row, l.getInTx j = .ok row → ∀ p, row.predecessor = some p → p.requestId ≠ id := by
      intro row hrow p hpre he
      obtain ⟨q, hq, hqid, _, hqa⟩ := hc.lineage row (getInTx_mem hrow).1 p hpre
      have hmo := request?_mem hold
      have hqo : q = old := hc.same hq hmo.1 (by rw [hqid, he, hmo.2])
      exact hqa (hqo ▸ hauth)
    have hsame : Same id (op.run l' j now) (op.run l j now) := h.operate hj hp op
    unfold answers
    generalize hx : op.run l' j now = x at hsame
    generalize hy : op.run l j now = y at hsame
    cases hsame with
    | raises e => exact congrArg _ (ih h hc ⟨old, hold, hauth⟩ hrest)
    | answers row hal =>
      refine congrArg _ (ih hal ?_ ⟨old, ?_, hauth⟩ hrest)
      · exact (operate_step hy).coherent hc
      · exact (operate_others hy hj.symm).trans hold

omit [Patterns] in
theorem transact_reads {decide : Request → Except Refusal (Option Request)}
    (h : l.transact j decide = .ok out) : ∃ row, l.getInTx j = .ok row := by
  obtain ⟨row, hrow, _⟩ := transact_ok.mp h
  exact ⟨row, hrow⟩

/-- An operation that returns has read its request. -/
theorem operate_reads {op : Operation} (h : op.run l j now = .ok out) :
    ∃ row, l.getInTx j = .ok row := by
  cases op with
  | get =>
    obtain ⟨_, h, _⟩ := map_ok.mp h
    obtain ⟨row, hrow, _⟩ := bind_ok.mp h
    exact ⟨row, hrow⟩
  | authorize _ _ _ =>
    obtain ⟨_, _, h⟩ := bind_ok.mp h
    obtain ⟨_, _, h⟩ := bind_ok.mp h
    obtain ⟨_, _, h⟩ := bind_ok.mp h
    exact transact_reads (unless_ok.mp h).2
  | dispatchRead url =>
    obtain ⟨_, h, _⟩ := map_ok.mp h
    cases url with
    | none =>
      obtain ⟨row, hrow, _⟩ := bind_ok.mp h
      exact ⟨row, hrow⟩
    | some url =>
      obtain ⟨_, _, h⟩ := bind_ok.mp h
      obtain ⟨row, hrow, _⟩ := bind_ok.mp h
      exact ⟨row, hrow⟩
  | dispatch _ _ _ =>
    obtain ⟨row, _, hrow, _⟩ := dispatchCommit_ok h
    exact ⟨row, hrow⟩
  | submitted _ _ _ _ =>
    obtain ⟨_, _, h⟩ := bind_ok.mp h
    obtain ⟨_, _, h⟩ := bind_ok.mp (unless_ok.mp (unless_ok.mp h).2).2
    exact transact_reads h
  | finish _ _ _ =>
    obtain ⟨_, _, h⟩ := bind_ok.mp h
    obtain ⟨_, _, h⟩ := bind_ok.mp h
    exact transact_reads h
  | recover _ _ =>
    rcases ite_ok.mp (unless_ok.mp h).2 with ⟨_, h⟩ | ⟨_, h⟩
    · obtain ⟨_, _, h⟩ := bind_ok.mp h
      obtain ⟨_, _, h⟩ := bind_ok.mp h
      exact transact_reads h
    · exact transact_reads h
  | failNotSubmitted _ _ _ _ =>
    obtain ⟨_, _, h⟩ := bind_ok.mp h
    obtain ⟨_, _, h⟩ := bind_ok.mp h
    obtain ⟨_, _, h⟩ := bind_ok.mp h
    obtain ⟨_, _, h⟩ := bind_ok.mp h
    exact transact_reads (unless_ok.mp h).2
  | abandon _ _ =>
    obtain ⟨_, _, h⟩ := bind_ok.mp h
    obtain ⟨_, _, h⟩ := bind_ok.mp h
    exact transact_reads h
  | importRead _ =>
    obtain ⟨_, h, _⟩ := map_ok.mp h
    obtain ⟨_, _, h⟩ := bind_ok.mp h
    obtain ⟨_, _, h⟩ := bind_ok.mp h
    obtain ⟨row, hrow, _⟩ := bind_ok.mp h
    exact ⟨row, hrow⟩
  | importCommit => exact transact_reads h
  | adopt _ _ =>
    obtain ⟨_, _, h⟩ := bind_ok.mp h
    obtain ⟨_, _, h⟩ := bind_ok.mp h
    exact transact_reads (unless_ok.mp (unless_ok.mp h).2).2

end Others
end Danus.Strategy
