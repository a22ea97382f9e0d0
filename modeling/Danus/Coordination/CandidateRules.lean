import Danus.Coordination.OwnerRules

/-! What candidate receipts do to a coherent database. -/
namespace Danus.Coordination
open Python Transaction

variable {S : CoordinationStore} {call : StoreCall} {calm : Prop} {t : Tables} {db : Database}
  {E : StoreError → Prop}

theorem candidateReceiptId_refusal (c : CandidateIdentity) : RefusalOnly (candidateReceiptId c) :=
  .bind .require fun _ => .bind .require fun _ => .bind .require fun _ => .bind .require fun _ =>
    .bind .require fun _ => .pure

theorem wp_canonicalCandidateSlot {worker slotId : PyStr} {current : Bool}
    {Q : RoundSlot → Database → Prop} (hE : ∀ r, E (.refusal r))
    (hQ : ∀ slot ∈ db.1.slots, Q slot db) :
    Tx.wp (S.canonicalCandidateSlot worker slotId current) Q E db := by
  simp only [CoordinationStore.canonicalCandidateSlot, Tx.wp_bind, wp_look, Tx.wp_fetched,
    Tx.wp_ensure, Tx.wp_pure]
  exact wp_validateIdentifier hE fun _ => wp_validateIdentifier hE fun _ =>
    ⟨fun slot hf => ⟨fun _ => hQ slot (Rows.mem_of_find hf).1, fun _ => hE _⟩, fun _ => hE _⟩

theorem wp_receiptSlot (hc : S.Coherent db.1) {worker slotId : PyStr} {existing : Option Candidate}
    {current : Bool} {Q : RoundSlot → Database → Prop} (hE : ∀ e, Benign calm db.1 e → E e)
    (hQ : ∀ slot ∈ db.1.slots, Q slot db) :
    Tx.wp (S.receiptSlot worker slotId existing current) Q E db := by
  unfold CoordinationStore.receiptSlot
  cases existing with
  | none => exact wp_canonicalPaidSlot hc hE fun slot hs _ _ _ _ _ => hQ slot hs
  | some row => exact wp_canonicalCandidateSlot (fun r => hE _ (by simp)) hQ

/-- The receipt a call has just read or written is there. -/
theorem wp_finalReceipt {d : Database} {receipt : PyStr} {lost : Contradiction}
    {Q : Except StoreError Candidate → Database → Prop}
    (hm : ∃ c ∈ d.1.candidates, c.candidateId = receipt)
    (hQ : ∀ r : Except StoreError Candidate, Settled calm t r → Q r d) :
    Tx.wp (finalReceipt receipt lost) Q E d := by
  obtain ⟨c, hc, hid⟩ := hm
  simp only [finalReceipt, Tx.wp_bind, wp_look, Tx.wp_pure, d.2.candidate?_eq.mpr ⟨hc, hid⟩]
  exact hQ _ settled_ok

/-- A registration inserts an active receipt where no overlay is. -/
theorem register_rule (hc : S.Coherent db.1) {worker receipt : PyStr} {c : CandidateIdentity}
    {now : Stamp} :
    Tx.wp (S.registerCandidate worker receipt c now)
      (fun r db' => CallStep S (.registerCandidate worker receipt c now) calm db db' ∧
        Settled calm db.1 r)
      (Benign calm db.1) db := by
  simp only [CoordinationStore.registerCandidate, Tx.wp_bind, wp_look, Tx.wp_check, Tx.wp_ensure]
  refine ⟨fun i hid => ⟨fun hi => ?_, by simp⟩, fun e he => (candidateReceiptId_refusal c).benign he⟩
  subst hi
  refine wp_receiptSlot hc (fun _ h => h) fun slot hs => ?_
  cases hf : db.1.candidate? receipt with
  | none =>
    simp only [registerReceipt, Tx.wp_bind, wp_look, Tx.wp_ensure, wp_notNull, wp_put]
    refine ⟨fun hfree => ⟨fun at' _ => ⟨fun h => ?_, by simp⟩, by simp⟩, by simp⟩
    refine wp_finalReceipt ⟨_, List.mem_append_right _ (List.mem_singleton.mpr rfl), rfl⟩
      fun r hr => ⟨?_, hr⟩
    exact Changes.callStep (.single (Change.newCandidate (.register rfl hid hfree)))
  | some row =>
    obtain ⟨hm, hk⟩ := db.2.candidate?_eq.mp hf
    simp only [registerReceipt, Tx.wp_ensure]
    exact ⟨fun _ => wp_finalReceipt ⟨row, hm, hk⟩ fun r hr => ⟨Changes.callStep .refl, hr⟩, by simp⟩

/-- The reuse of an active fact inserts a terminal receipt. -/
theorem reuse_rule (hc : S.Coherent db.1) {worker slotId factId factIdentity : PyStr}
    {sourceId : Option PyStr} {now : Stamp} :
    Tx.wp (S.recordExactFactReuse worker slotId factId factIdentity sourceId now)
      (fun r db' => CallStep S (.recordExactFactReuse worker slotId factId factIdentity sourceId now)
        calm db db' ∧ Settled calm db.1 r)
      (Benign calm db.1) db := by
  simp only [CoordinationStore.recordExactFactReuse, Tx.wp_bind, wp_look, Tx.wp_check]
  refine wp_validateIdentifier (by simp) fun _ => ⟨fun receipt hid => ?_,
    fun e he => (candidateReceiptId_refusal _).benign he⟩
  refine wp_receiptSlot hc (fun _ h => h) fun slot hs => ?_
  cases hf : db.1.candidate? receipt with
  | none =>
    simp only [reuseReceipt, Tx.wp_bind, wp_notNull, wp_put]
    refine ⟨fun at' _ => ⟨fun h => ?_, by simp⟩, by simp⟩
    refine wp_finalReceipt ⟨_, List.mem_append_right _ (List.mem_singleton.mpr rfl), rfl⟩
      fun r hr => ⟨?_, hr⟩
    exact Changes.callStep (.single (Change.newCandidate .reuse))
  | some row =>
    obtain ⟨hm, hk⟩ := db.2.candidate?_eq.mp hf
    simp only [reuseReceipt, Tx.wp_ensure]
    exact ⟨fun _ => wp_finalReceipt ⟨row, hm, hk⟩ fun r hr => ⟨Changes.callStep .refl, hr⟩, by simp⟩

/-- The end of a call that may release the overlay: an attempted advance and its receipt. -/
theorem wp_release (hc : S.Coherent db.1) {d : Database} {row : Candidate} {now : Stamp}
    {lost : Contradiction} (h : Changes S call calm db d) (hs : d.1.slots = db.1.slots)
    (hp : d.1.project = db.1.project)
    (hcd : ∀ c ∈ db.1.candidates, c.candidateId ≠ row.candidateId → c ∈ d.1.candidates)
    (hm : ∃ c ∈ d.1.candidates, c.candidateId = row.candidateId)
    (hcalm : calm → ¬ S.Disturbs db.1 call)
    (ha : call.attempt db.1 = some (db.1.settled row.candidateId, now)) :
    Tx.wp (S.advanceGenerationIfReady now)
      (fun _ d' => Tx.wp (finalReceipt row.candidateId lost)
        (fun r db' => CallStep S call calm db db' ∧ Settled calm db.1 r) (Benign calm db.1) d')
      (Benign calm db.1) d := by
  refine Tx.wp_mono (h.advance hc (CoordinationStore.calmAdvance_of_attempt hcalm ha
    (CoordinationStore.EndsGeneration.settled hs hp hcd))) (fun _ d' hd' => ?_) fun _ h => h
  refine wp_finalReceipt ?_ fun r hr => ⟨hd'.1, hr⟩
  rw [hd'.2]
  exact hm

/-- A terminalization finishes its active receipt, and attempts the advance. -/
theorem terminalize_rule (hc : S.Coherent db.1) {worker receipt slotId outcome : PyStr}
    {now : Stamp}
    (hcalm : calm → ¬ S.Disturbs db.1 (.terminalizeCandidate worker receipt slotId outcome now)) :
    Tx.wp (S.terminalizeCandidate worker receipt slotId outcome now)
      (fun r db' => CallStep S (.terminalizeCandidate worker receipt slotId outcome now) calm
        db db' ∧ Settled calm db.1 r)
      (Benign calm db.1) db := by
  simp only [CoordinationStore.terminalizeCandidate, Tx.wp_bind, wp_look, Tx.wp_ensure,
    Tx.wp_fetched]
  refine ⟨fun _ => ⟨fun o ho => wp_canonicalCandidateSlot (by simp) fun slot _ => ⟨fun row hrow => ?_,
    by simp⟩, by simp⟩, by simp⟩
  obtain ⟨hf, hb⟩ := Option.filter_eq_some_iff.mp hrow
  obtain ⟨hr, rfl⟩ := db.2.candidate?_eq.mp hf
  simp only [Bool.and_eq_true, beq_iff_eq, Bool.or_eq_true] at hb
  obtain ⟨⟨hw, hsl⟩, hst⟩ := hb
  have hend : ∀ d : Database, Changes S
      (.terminalizeCandidate worker row.candidateId slotId outcome now) calm db d →
      d.1.slots = db.1.slots → d.1.project = db.1.project →
      (∀ c ∈ db.1.candidates, c.candidateId ≠ row.candidateId → c ∈ d.1.candidates) →
      (∃ c ∈ d.1.candidates, c.candidateId = row.candidateId) →
      (candidateOutcomeReleases o = true → Tx.wp (S.advanceGenerationIfReady now)
        (fun _ d' => Tx.wp (finalReceipt row.candidateId .terminalDisappeared)
          (fun r db' => CallStep S
            (.terminalizeCandidate worker row.candidateId slotId outcome now) calm db db' ∧
            Settled calm db.1 r) (Benign calm db.1) d') (Benign calm db.1) d) ∧
      (¬ candidateOutcomeReleases o = true →
        Tx.wp (finalReceipt row.candidateId .terminalDisappeared)
          (fun r db' => CallStep S
            (.terminalizeCandidate worker row.candidateId slotId outcome now) calm db db' ∧
            Settled calm db.1 r) (Benign calm db.1) d) := by
    intro d h hs hp hcd hm
    refine ⟨fun hrel => wp_release hc h hs hp hcd hm hcalm ?_, fun _ =>
      wp_finalReceipt hm fun r hr => ⟨h.callStep, hr⟩⟩
    simp [StoreCall.attempt, ho, hrel]
  have hsame := hend db .refl rfl rfl (fun _ hc _ => hc) ⟨row, hr, rfl⟩
  simp only [terminalizeReceipt, Tx.wp_ite, Tx.wp_ensure, Tx.wp_bind, Tx.wp_when, Tx.wp_pure]
  refine ⟨fun _ => ⟨fun _ => hsame, by simp⟩, fun hu => ⟨fun _ => ⟨fun _ => hsame, by simp⟩,
    fun ht => ?_⟩⟩
  have hact : row.state = .active := by
    rcases hst with h | h
    · simpa [Candidate.overlay, hu] using h
    · exact (ht h).elim
  simp only [finishCandidate, Tx.wp_bind, wp_notNull, Tx.wp_pure]
  refine ⟨fun at' _ => ?_, by simp⟩
  refine wp_updateRow (·.candidateId) db.2.candidateIds hr (by simp [hact]) guarded_key rfl
    (by simp) fun h => ?_
  exact hend _ (.single (Change.candidate hr (.finish rfl ho rfl hw hsl hact))) rfl rfl
    (fun _ hc hne => Rows.mem_set_of_ne hc hne) ⟨_, Rows.mem_set_self hr rfl, rfl⟩

/-- The owner's resolution releases its overlay receipt, and attempts the advance. -/
theorem resolveCandidate_rule (hc : S.Coherent db.1) {receipt resolution : PyStr}
    {acknowledged factActive : Bool} {now : Stamp}
    (hcalm : calm → ¬ S.Disturbs db.1
      (.resolveCandidateOutcomeUnknown receipt resolution acknowledged factActive now)) :
    Tx.wp (S.resolveCandidateOutcomeUnknown receipt resolution acknowledged factActive now)
      (fun r db' => CallStep S
        (.resolveCandidateOutcomeUnknown receipt resolution acknowledged factActive now) calm
        db db' ∧ Settled calm db.1 r)
      (Benign calm db.1) db := by
  simp only [CoordinationStore.resolveCandidateOutcomeUnknown, Tx.wp_bind, wp_look, Tx.wp_ensure,
    Tx.wp_fetched]
  refine ⟨fun _ => ⟨fun o ho => ⟨fun hack => ⟨fun _ => ⟨fun row hf => ⟨fun _ => ?_, by simp⟩,
    by simp⟩, by simp⟩, by simp⟩, by simp⟩, by simp⟩
  subst hack
  obtain ⟨hr, rfl⟩ := db.2.candidate?_eq.mp hf
  simp only [resolveReceipt, releaseCandidate, Tx.wp_ite, Tx.wp_ensure, Tx.wp_raise, Tx.wp_bind,
    wp_notNull, Tx.wp_pure]
  refine ⟨fun hov => ⟨fun at' _ => ?_, by simp⟩, fun _ => ⟨fun _ => ⟨fun _ => ?_, by simp⟩,
    by simp⟩⟩
  · refine wp_updateRow (·.candidateId) db.2.candidateIds hr (by simp [hov]) guarded_key rfl
      (by simp) fun h => ?_
    exact wp_release hc (.single (Change.candidate hr (.release rfl ho rfl hov))) rfl rfl
      (fun _ hc hne => Rows.mem_set_of_ne hc hne) ⟨_, Rows.mem_set_self hr rfl, rfl⟩ hcalm rfl
  · exact wp_release hc .refl rfl rfl (fun _ hc _ => hc) ⟨row, hr, rfl⟩ hcalm rfl

/-- Recording inserts a row, or changes the state of the one that is there. -/
theorem recordCandidate_rule {worker candidateId state : PyStr}
    {generation : Option Nat} {now : Stamp} :
    Tx.wp (S.recordCandidate worker candidateId state generation now)
      (fun _ db' => CallStep S (.recordCandidate worker candidateId state generation now) calm
        db db')
      (Benign calm db.1) db := by
  simp only [CoordinationStore.recordCandidate, Tx.wp_bind, wp_look, Tx.wp_ensure, Tx.wp_fetched,
    wp_notNull]
  refine wp_validateIdentifier (by simp) fun hw => wp_validateIdentifier (by simp) fun hi =>
    ⟨fun s hs => ⟨fun hg => ⟨fun at' hat => ?_, by simp⟩, by simp⟩, by simp⟩
  subst hat
  rw [hg]
  cases hf : db.1.candidate? candidateId with
  | none =>
    simp only [recordReceipt, wp_put]
    refine ⟨fun h => ⟨fun _ _ => ?_, by simp⟩, by simp⟩
    exact Changes.callStep (.single (Change.newCandidate (.record hs)))
  | some row =>
    obtain ⟨hr, rfl⟩ := db.2.candidate?_eq.mp hf
    simp only [recordReceipt, Tx.wp_bind, Tx.wp_pure]
    have hkey : ∀ c ∈ db.1.candidates, c.recordable row.candidateId db.1.project.generation worker
        (S.workerLane worker) = true → c.candidateId = row.candidateId := by
      intro c _ h
      simp only [Candidate.recordable, Bool.and_eq_true, beq_iff_eq] at h
      exact h.1.1.1
    cases hrec : row.recordable row.candidateId db.1.project.generation worker
        (S.workerLane worker) with
    | true =>
      refine wp_updateRow (·.candidateId) db.2.candidateIds hr hrec hkey rfl (by simp)
        fun h => ⟨fun _ _ => ?_, by simp⟩
      exact Changes.callStep (.single (Change.candidate hr (.record ⟨_, _, rfl, hw, hi, hs, hg⟩ hrec)))
    | false =>
      refine wp_updateRows.mpr ⟨fun h => ⟨fun _ _ => ?_, by simp⟩, by simp⟩
      have hmiss : ∀ c ∈ db.1.candidates, c.recordable row.candidateId db.1.project.generation
          worker (S.workerLane worker) = false := by
        intro c hcm
        cases h : c.recordable row.candidateId db.1.project.generation worker
            (S.workerLane worker) with
        | false => rfl
        | true =>
          obtain rfl : c = row := Rows.eq_of_key db.2.candidateIds hcm hr (hkey c hcm h)
          rw [hrec] at h
          cases h
      have hdb : (⟨_, h⟩ : Database) = db :=
        Subtype.ext (congrArg (fun x => { db.1 with candidates := x }) (Rows.update_of_miss hmiss))
      rw [hdb]
      exact Changes.callStep .refl

/-- Cursors are book-keeping. -/
theorem setMemoryCursor_rule {worker stream cursor : PyStr} {generation : Option Nat} {now : Stamp} :
    Tx.wp (setMemoryCursor worker stream cursor generation now)
      (fun _ db' => CallStep S call calm db db') (Benign calm db.1) db := by
  simp only [setMemoryCursor, Tx.wp_bind, wp_look, Tx.wp_ensure, wp_notNull, wp_put, Tx.wp_pure]
  exact wp_validateIdentifier (by simp) fun _ => wp_validateIdentifier (by simp) fun _ =>
    wp_validateIdentifier (by simp) fun _ => ⟨fun _ => ⟨fun _ _ => ⟨fun _ =>
      Changes.callStep (.single (Change.book _ _)), by simp⟩, by simp⟩, by simp⟩

end Danus.Coordination
