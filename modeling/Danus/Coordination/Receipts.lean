import Danus.Coordination.Phases

/-! The life of a candidate receipt along the runs of the store, and the one call that cuts it
short. -/
namespace Danus.Coordination
open Python Transaction Machines

variable {S : CoordinationStore} {call : StoreCall} {calm : Prop} {t : Tables} {db db' : Database}
  {c c' : Candidate}

/-- The row freezes paid admission, or reports how its verification ended. -/
def Candidate.receipted (c : Candidate) : Bool := c.overlay || c.state == .terminal

/-- What a call may make of a receipted row: nothing, the outcome its own slot reports, or the
owner's release of a candidate whose outcome is unknown. -/
inductive Candidate.Passes (call : StoreCall) (c : Candidate) : Candidate → Prop where
  | keep : Passes call c c
  | finish {slotId outcome : PyStr} {now : Stamp} {c' : Candidate} : c.state = .active →
      c.slotId = some slotId → call = .terminalizeCandidate c.worker c.candidateId slotId outcome now →
      c'.candidateId = c.candidateId → c'.state = .terminal ∨ c'.state = .outcomeUnknown →
      Passes call c c'
  | release {resolution : PyStr} {factActive : Bool} {now : Stamp} {c' : Candidate} :
      c.overlay = true →
      call = .resolveCandidateOutcomeUnknown c.candidateId resolution true factActive now →
      c'.candidateId = c.candidateId → c'.state = .terminal → c'.outcome = some .outcomeUnknown →
      Passes call c c'

/-- Every receipted row passes the call. -/
def Lifecycle (call : StoreCall) (t t' : Tables) : Prop :=
  ∀ c ∈ t.candidates, c.receipted = true → ∃ c' ∈ t'.candidates, c.Passes call c'

/-- No `record_candidate` of this call hits the row. -/
def CoordinationStore.Spares (S : CoordinationStore) (call : StoreCall) (current : Nat)
    (c : Candidate) : Prop :=
  ∀ worker candidateId s at', call.Records current worker candidateId s at' →
    c.recordable candidateId current worker (S.workerLane worker) = false

/-- The call spares every receipted row. -/
def CoordinationStore.SparesReceipts (S : CoordinationStore) (call : StoreCall) (t : Tables) : Prop :=
  ∀ c ∈ t.candidates, c.receipted = true → S.Spares call t.project.generation c

theorem Candidate.Passes.candidateId (h : c.Passes call c') : c'.candidateId = c.candidateId := by
  cases h with
  | keep => rfl
  | finish _ _ _ h _ => exact h
  | release _ _ h _ _ => exact h

theorem Candidate.receipted_of_state (h : c.state = .terminal ∨ c.state = .outcomeUnknown) :
    c.receipted = true := by
  rcases h with h | h <;> simp [Candidate.receipted, Candidate.overlay, h]

/-- A row that passed is still receipted. -/
theorem Candidate.Passes.receipted (h : c.Passes call c') (hc : c.receipted = true) :
    c'.receipted = true := by
  cases h with
  | keep => exact hc
  | finish _ _ _ _ h => exact Candidate.receipted_of_state h
  | release _ _ _ h _ => exact Candidate.receipted_of_state (.inl h)

/-- A call moves a row it spares at most once, as its receipt allows. -/
theorem Candidate.Passes.move {c'' : Candidate} (h : c.Passes call c')
    (hm : CandidateMove S call t c' c'') (hs : S.Spares call t.project.generation c) :
    c.Passes call c'' := by
  cases h with
  | keep =>
    cases hm with
    | @finish worker receipt slotId outcome now o at' hcall _ hid hw hslot hst =>
      subst hid hw
      refine .finish hst hslot hcall rfl ?_
      cases (o != .outcomeUnknown) <;> simp
    | release hcall _ hid hov =>
      subst hid
      exact .release hov hcall rfl rfl rfl
    | record hrec hhit =>
      rw [hs _ _ _ _ hrec] at hhit
      cases hhit
  | finish hst hslot hcall hid hst' =>
    cases hm with
    | finish _ _ _ _ _ h => simp [h] at hst'
    | release h =>
      rw [h] at hcall
      cases hcall
    | record h =>
      obtain ⟨_, _, h, _⟩ := h
      rw [h] at hcall
      cases hcall
  | release hov hcall hid hst' hout =>
    cases hm with
    | finish h =>
      rw [h] at hcall
      cases hcall
    | release _ _ _ h => simp [Candidate.overlay, hst'] at h
    | record h =>
      obtain ⟨_, _, h, _⟩ := h
      rw [h] at hcall
      cases hcall

/-- A change of a call that spares the receipts continues their lives. -/
theorem Change.lifecycle {t₀ t' : Tables} (hv : t.Valid) (h : Change S call calm t t')
    (hg : t.project.generation = t₀.project.generation) (hs : S.SparesReceipts call t₀)
    (hl : Lifecycle call t₀ t) : Lifecycle call t₀ t' := by
  intro c hc hr
  obtain ⟨x, hx, hp⟩ := hl c hc hr
  cases h with
  | newCandidate _ => exact ⟨x, List.mem_append_left _ hx, hp⟩
  | @candidate y y' hy hm =>
    by_cases he : x = y
    · subst he
      refine ⟨y', Rows.mem_set_self hy hm.candidateId.symm, hp.move hm ?_⟩
      rw [hg]
      exact hs c hc hr
    · refine ⟨x, Rows.mem_set_of_ne hx fun hk => he ?_, hp⟩
      exact Rows.eq_of_key hv.candidateIds hx hy (hk.trans hm.candidateId)
  | _ => exact ⟨x, hx, hp⟩

theorem Changes.lifecycle (hs : S.SparesReceipts call db.1) (h : Changes S call calm db db') :
    Lifecycle call db.1 db'.1 := by
  induction h with
  | refl => exact fun c hc _ => ⟨c, hc, .keep⟩
  | tail hd hstep ih => exact hstep.lifecycle (Subtype.property _) (Changes.frame hd).1 hs ih

theorem CallStep.lifecycle (hs : S.SparesReceipts call db.1) (h : CallStep S call calm db db') :
    Lifecycle call db.1 db'.1 := by
  obtain ⟨u, hu, rfl | ht⟩ := h
  · exact hu.lifecycle hs
  · rw [Lifecycle, ht.candidates]
    exact hu.lifecycle hs

/-- A row may give way to one of its id that freezes nothing. -/
theorem Tables.Valid.unfreeze (hv : t.Valid) (hov : c'.overlay = false) :
    ({ t with candidates := Rows.set (·.candidateId) c' t.candidates } : Tables).Valid := { hv with
  candidateIds := by
    rw [Rows.map_key_set]
    exact hv.candidateIds
  candidateOverlay := by
    refine le_trans ?_ hv.candidateOverlay
    rw [← List.countP_eq_length_filter, ← List.countP_eq_length_filter, Rows.set, Rows.update,
      List.countP_map]
    apply List.countP_mono_left
    intro x _ hx
    by_cases hk : x.candidateId = c'.candidateId
    · simp [hk, hov] at hx
    · simpa [hk] using hx }

/-- A `record_candidate` that hits a row commits. -/
theorem record_commits {worker candidateId : PyStr} {s : CandidateState} {at' : SqlReal}
    (hc : c ∈ db.1.candidates) (h : call.Records db.1.project.generation worker candidateId s at')
    (hhit : c.recordable candidateId db.1.project.generation worker (S.workerLane worker) = true) :
    ∃ c' ∈ (S.perform call db).2.1.candidates, c'.candidateId = c.candidateId ∧ c'.state = s := by
  have hst := h.state
  obtain ⟨state, generation, rfl, hw, hi, hs, hg⟩ := h
  have hkey := hhit
  simp only [Candidate.recordable, Bool.and_eq_true, beq_iff_eq] at hkey
  obtain ⟨⟨⟨rfl, hgen⟩, rfl⟩, hlane⟩ := hkey
  have hf : db.1.candidate? c.candidateId = some c := db.2.candidate?_eq.mpr ⟨hc, rfl⟩
  set new : Candidate := { c with state := s, updatedAt := at' } with hnew
  have hov : new.overlay = false := by simp [hnew, Candidate.overlay, hst]
  have hmem : new ∈ Rows.set (·.candidateId) new db.1.candidates := Rows.mem_set_self hc rfl
  have hvalid := db.2.unfreeze hov
  have hone : ∀ x ∈ db.1.candidates, x.recordable c.candidateId db.1.project.generation c.worker
      (S.workerLane c.worker) = true → x.candidateId = c.candidateId := by
    intro x _ hx
    simp only [Candidate.recordable, Bool.and_eq_true, beq_iff_eq] at hx
    exact hx.1.1.1
  have hw' : Tx.wp (S.recordCandidate c.worker c.candidateId state generation (some at'))
      (fun _ d => new ∈ d.1.candidates) (fun _ => False) db := by
    simp only [CoordinationStore.recordCandidate, Tx.wp_bind, wp_look, Tx.wp_ensure, Tx.wp_fetched,
      wp_notNull, validateIdentifier]
    refine ⟨fun _ => ⟨fun _ => ⟨fun s' hs' => ⟨fun _ => ⟨fun a ha => ?_, by simp⟩,
      fun h => (h hg).elim⟩, by simp [hs]⟩, fun h => (h hi).elim⟩, fun h => (h hw).elim⟩
    cases ha
    cases hs.symm.trans hs'
    rw [hg, hf]
    simp only [recordReceipt, Tx.wp_bind, Tx.wp_pure, recordedRow]
    refine wp_updateRows.mpr ?_
    rw [Rows.update_eq_set db.2.candidateIds hc hhit hone rfl]
    refine ⟨fun _ => ⟨fun _ _ => hmem, fun hnone => ?_⟩, fun hn => hn hvalid⟩
    have hfound := hvalid.candidate?_eq.mpr ⟨hmem, rfl⟩
    rw [show Tables.candidate? _ c.candidateId = some new from hfound] at hnone
    simp [hnew, hgen, hlane] at hnone
  simp only [CoordinationStore.perform, committed]
  rcases Tx.wp_run hw' with ⟨a, d, hx, hq⟩ | ⟨_, _, h⟩
  · rw [hx]
    exact ⟨new, hq, rfl, rfl⟩
  · exact h.elim

/-- A step keeps the life of every receipt exactly where it spares them. -/
theorem lifecycle_iff (hc : S.Coherent db.1) :
    Lifecycle call db.1 (S.perform call db).2.1 ↔ S.SparesReceipts call db.1 := by
  constructor
  · intro hl c hm hr worker candidateId s at' hrec
    cases hhit : c.recordable candidateId db.1.project.generation worker (S.workerLane worker) with
    | false => rfl
    | true =>
      obtain ⟨x, hx, hid, hst⟩ := record_commits hm hrec hhit
      obtain ⟨y, hy, hp⟩ := hl c hm hr
      have he : x = y := Rows.eq_of_key (S.perform call db).2.2.candidateIds hx hy
        (hid.trans hp.candidateId.symm)
      subst he
      have hy' := hp.receipted hr
      obtain ⟨h1, h2, h3⟩ := hrec.state
      subst hst
      simp [Candidate.receipted, Candidate.overlay, h1, h2, h3] at hy'
  · intro hs
    exact (served hc).1.lifecycle hs

/-- Every step of the run spares the receipts. -/
def CoordinationStore.RunSpares (S : CoordinationStore) (past : List Database)
    (call : StoreCall) : Prop :=
  ∀ db ∈ past.head?, S.SparesReceipts call db.1

/-- Along every run whose steps spare the receipts, a terminal receipt stays as it is, and the
next step lets a row that freezes admission out of that state only by its slot's outcome or the
owner's release, exactly where it spares the receipts too. -/
theorem receipts_live_out {past : List Database}
    (h : S.machine.History S.RunSpares (db :: past)) :
    (∀ d ∈ past, ∀ c ∈ d.1.candidates, c.state = .terminal → c ∈ db.1.candidates) ∧
    ∀ call, Lifecycle call db.1 (S.perform call db).2.1 ↔ S.SparesReceipts call db.1 := by
  refine ⟨?_, fun call => lifecycle_iff (coherent_of_reachable h.reachable)⟩
  have stays : ∀ l, S.machine.History S.RunSpares l →
      ∀ d ∈ l, ∀ d' ∈ l.head?, ∀ c ∈ d.1.candidates, c.state = .terminal → c ∈ d'.1.candidates := by
    intro l hl
    refine hl.invariant (I := fun l => ∀ d ∈ l, ∀ d' ∈ l.head?, ∀ c ∈ d.1.candidates,
      c.state = .terminal → c ∈ d'.1.candidates) ?_ ?_
    · rintro s _ d hd d' ⟨⟩ c hc _
      rwa [List.mem_singleton.mp hd] at hc
    · rintro s past call _ hp ih hsp rfl d hd d' ⟨⟩ c hc hst
      rcases List.mem_cons.mp hd with rfl | hd
      · exact hc
      · have hlife := (lifecycle_iff (coherent_of_reachable hp.reachable)).mpr (hsp s rfl)
        obtain ⟨c', hc', hpass⟩ := hlife c (ih d hd s rfl c hc hst)
          (Candidate.receipted_of_state (.inl hst))
        cases hpass with
        | keep => exact hc'
        | finish h => simp [hst] at h
        | release h => simp [Candidate.overlay, hst] at h
  exact fun d hd => stays _ h d (List.mem_cons_of_mem _ hd) db rfl

/-- A candidate fact out for verification from the root's slot. -/
def candidateIdentity : CandidateIdentity where
  slotId := "slot_a".toList
  candidateFactId := List.replicate 16 '0'
  candidateFactIdentity := List.replicate 64 '1'
  sourceId := none
  contextDigest := List.replicate 64 '2'

def candidateReceipt : PyStr := (candidateReceiptId candidateIdentity).toOption.getD []

/-- The root's slot registers its candidate. -/
def registering : List StoreCall :=
  admitRoot ++ [
    .pinPrompt "slot_a".toList (promptText "slot_a" "left"),
    .activate "slot_a".toList (some (.fin 3)),
    .registerCandidate "root".toList candidateReceipt candidateIdentity (some (.fin 4))]

/-- The root's slot has registered its candidate. -/
def verifying : Database := pairStore.performAll pairDatabase registering

/-- The verification ends. -/
def settling : List StoreCall :=
  registering ++ [.terminalizeCandidate "root".toList candidateReceipt "slot_a".toList
    "wrong".toList (some (.fin 5))]

def settled : Database := pairStore.performAll pairDatabase settling

theorem verifying_overlaid : verifying.1.overlaid = true := by decide +kernel

theorem settled_row : ∃ c ∈ settled.1.candidates, c.candidateId = candidateReceipt ∧
    c.state = .terminal := by
  decide +kernel

/-- A receipt lives out: it freezes admission while its fact is verified, and it is terminal from
then on, also when its slot is completed. -/
theorem receipts_live_out_settled :
    let ended := (pairStore.perform (.complete "slot_a".toList "done".toList (some (.fin 6)) 6)
      settled).2
    verifying.1.overlaid = true ∧
      (∃ c ∈ settled.1.candidates, c.candidateId = candidateReceipt ∧ c.state = .terminal ∧
        c ∈ ended.1.candidates) ∧
      ∀ call, Lifecycle call ended.1 (pairStore.perform call ended).2.1 ↔
        pairStore.SparesReceipts call ended.1 := by
  obtain ⟨c, hc, hid, hterminal⟩ := settled_row
  have hsettled : pairStore.machine.History pairStore.RunSpares
      (settled :: (pairStore.trace pairDatabase [] settling).tail) := by
    rw [settled, ← trace_cons]
    refine history_trace (.start pair_start) ?_
    rintro call hcall l db _ c _ _ worker candidateId s at' ⟨_, _, rfl, _⟩
    simp [settling, registering, admitRoot] at hcall
  have hended : pairStore.RunSpares (settled :: (pairStore.trace pairDatabase [] settling).tail)
      (.complete "slot_a".toList "done".toList (some (.fin 6)) 6) := by
    rintro db _ c _ _ worker candidateId s at' ⟨_, _, h, _⟩
    cases h
  obtain ⟨hstays, hlife⟩ := receipts_live_out (hsettled.step hended rfl)
  exact ⟨verifying_overlaid, ⟨c, hc, hid, hterminal, hstays settled List.mem_cons_self c hc hterminal⟩, hlife⟩

/-- One `record_candidate` with the receipt's own id releases the freeze. -/
theorem record_releases_freeze :
    let call : StoreCall := .recordCandidate "root".toList candidateReceipt "rejected".toList none
      (some (.fin 5))
    pairStore.machine.Reachable verifying ∧ verifying.1.overlaid = true ∧
      (pairStore.perform call verifying).failure = none ∧
      (pairStore.perform call verifying).2.1.overlaid = false := by
  refine ⟨reachable_performAll (Machine.reachable_start pair_start), ?_⟩
  decide +kernel

end Danus.Coordination
