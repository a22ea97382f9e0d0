import Danus.Coordination.Assignments
import Danus.Coordination.Generations
import Danus.Coordination.Recommendations
import Danus.Coordination.SlotLife

/-! What the store has recorded stays on record: no call takes a row back, and none tells a row's story backwards. -/
namespace Danus.Coordination
open Python Transaction Machines

variable {S : CoordinationStore} {call : StoreCall} {calm : Prop} {t t' : Tables} {db db' : Database}

/-- A review in the first state can come to the second one. -/
def ReviewState.leads : ReviewState → ReviewState → Bool
  | .pending, _ => true
  | .active, .pending => false
  | .active, _ => true
  | .confirmed, .confirmed | .confirmed, .resolved => true
  | .confirmed, _ => false
  | .notConfirmed, x => x == .notConfirmed
  | .resolved, x => x == .resolved

theorem ReviewState.leads_refl (a : ReviewState) : a.leads a = true := by
  cases a <;> rfl

theorem ReviewState.leads_trans {a b c : ReviewState} (h : a.leads b = true) (h' : b.leads c = true) :
    a.leads c = true := by
  revert h h'
  cases a <;> cases b <;> cases c <;> decide

/-- A later version of a review: the same question to the same critic, further on. -/
structure ObstacleReview.Proceeds (r r' : ObstacleReview) : Prop where
  reviewId : r'.reviewId = r.reviewId
  generation : r'.generation = r.generation
  root : r'.rootEntryId = r.rootEntryId
  rootSlot : r'.rootSlotId = r.rootSlotId
  worker : r'.criticWorker = r.criticWorker
  critic : ∀ s, r.criticSlotId = some s → r'.criticSlotId = some s
  confirmation : ∀ e, r.confirmationEntryId = some e → r'.confirmationEntryId = some e
  state : r.state.leads r'.state = true

theorem ObstacleReview.Proceeds.refl (r : ObstacleReview) : r.Proceeds r :=
  ⟨rfl, rfl, rfl, rfl, rfl, fun _ => id, fun _ => id, r.state.leads_refl⟩

theorem ObstacleReview.Proceeds.trans {r r' r'' : ObstacleReview} (h : r.Proceeds r') (h' : r'.Proceeds r'') :
    r.Proceeds r'' where
  reviewId := h'.reviewId.trans h.reviewId
  generation := h'.generation.trans h.generation
  root := h'.root.trans h.root
  rootSlot := h'.rootSlot.trans h.rootSlot
  worker := h'.worker.trans h.worker
  critic := fun s hs => h'.critic s (h.critic s hs)
  confirmation := fun e he => h'.confirmation e (h.confirmation e he)
  state := ReviewState.leads_trans h.state h'.state

theorem ObstacleReview.SameBinding.proceeds {r r' : ObstacleReview} (h : r.SameBinding r')
    (hs : r.state.leads r'.state = true) : r.Proceeds r' :=
  ⟨h.reviewId, h.generation, h.root, h.rootSlot, h.worker, fun _ => h.critic.trans, fun _ => h.confirmation.trans, hs⟩

/-- A later version of a receipt: the same candidate of the same worker and slot. -/
structure Candidate.Proceeds (c c' : Candidate) : Prop where
  candidateId : c'.candidateId = c.candidateId
  generation : c'.generation = c.generation
  slot : c'.slotId = c.slotId
  worker : c'.worker = c.worker
  lane : c'.lane = c.lane
  fact : c'.candidateFactId = c.candidateFactId ∧ c'.candidateFactIdentity = c.candidateFactIdentity
  source : c'.sourceId = c.sourceId ∧ c'.contextDigest = c.contextDigest
  createdAt : c'.createdAt = c.createdAt

theorem Candidate.Proceeds.refl (c : Candidate) : c.Proceeds c :=
  ⟨rfl, rfl, rfl, rfl, rfl, ⟨rfl, rfl⟩, ⟨rfl, rfl⟩, rfl⟩

theorem Candidate.Proceeds.trans {c c' c'' : Candidate} (h : c.Proceeds c') (h' : c'.Proceeds c'') :
    c.Proceeds c'' where
  candidateId := h'.candidateId.trans h.candidateId
  generation := h'.generation.trans h.generation
  slot := h'.slot.trans h.slot
  worker := h'.worker.trans h.worker
  lane := h'.lane.trans h.lane
  fact := ⟨h'.fact.1.trans h.fact.1, h'.fact.2.trans h.fact.2⟩
  source := ⟨h'.source.1.trans h.source.1, h'.source.2.trans h.source.2⟩
  createdAt := h'.createdAt.trans h.createdAt

theorem CandidateMove.proceeds {c c' : Candidate} (h : CandidateMove S call t c c') : c.Proceeds c' := by
  cases h <;> exact ⟨rfl, rfl, rfl, rfl, rfl, ⟨rfl, rfl⟩, ⟨rfl, rfl⟩, rfl⟩

/-- The tables after some more calls: what is written once stays as it is, and what has a life goes on with it. -/
structure Archived (t t' : Tables) : Prop where
  generation : t.project.generation ≤ t'.project.generation
  evidence : t.evidence <+: t'.evidence
  recommendations : t.recommendations <+: t'.recommendations
  resolutions : ∀ r ∈ t.resolutions, r ∈ t'.resolutions
  tasks : ∀ a ∈ t.tasks, a.frozenAt ≠ none → ∃ a' ∈ t'.tasks, a.Continues a'
  slots : ∀ s ∈ t.slots, ∃ s' ∈ t'.slots, s.Lives s'
  reviews : ∀ r ∈ t.reviews, ∃ r' ∈ t'.reviews, r.Proceeds r'
  candidates : ∀ c ∈ t.candidates, ∃ c' ∈ t'.candidates, c.Proceeds c'

theorem Archived.refl (t : Tables) : Archived t t where
  generation := le_rfl
  evidence := List.prefix_refl _
  recommendations := List.prefix_refl _
  resolutions := fun _ hr => hr
  tasks := fun a ha hf => ⟨a, ha, .refl hf⟩
  slots := fun s hs => ⟨s, hs, .refl s⟩
  reviews := fun r hr => ⟨r, hr, .refl r⟩
  candidates := fun c hc => ⟨c, hc, .refl c⟩

theorem Archived.trans {t'' : Tables} (h : Archived t t') (h' : Archived t' t'') : Archived t t'' where
  generation := h.generation.trans h'.generation
  evidence := h.evidence.trans h'.evidence
  recommendations := h.recommendations.trans h'.recommendations
  resolutions := fun r hr => h'.resolutions r (h.resolutions r hr)
  tasks := by
    intro a ha hf
    obtain ⟨b, hb, hab⟩ := h.tasks a ha hf
    obtain ⟨c, hc, hbc⟩ := h'.tasks b hb hab.frozen
    exact ⟨c, hc, hab.trans hbc⟩
  slots := by
    intro s hs
    obtain ⟨x, hx, hsx⟩ := h.slots s hs
    obtain ⟨y, hy, hxy⟩ := h'.slots x hx
    exact ⟨y, hy, hsx.trans hxy⟩
  reviews := by
    intro r hr
    obtain ⟨x, hx, hrx⟩ := h.reviews r hr
    obtain ⟨y, hy, hxy⟩ := h'.reviews x hx
    exact ⟨y, hy, hrx.trans hxy⟩
  candidates := by
    intro c hc
    obtain ⟨x, hx, hcx⟩ := h.candidates c hc
    obtain ⟨y, hy, hxy⟩ := h'.candidates x hx
    exact ⟨y, hy, hcx.trans hxy⟩

/-- What a change within the phase leaves of the append-only rows and of those that live on. -/
theorem Change.rows (hv : t.Valid) (hc : S.Coherent t) (h : Change S call calm t t') :
    t.evidence <+: t'.evidence ∧ (∀ r ∈ t.reviews, ∃ r' ∈ t'.reviews, r.Proceeds r') ∧
    ∀ c ∈ t.candidates, ∃ c' ∈ t'.candidates, c.Proceeds c' := by
  have hreviews : ∀ r ∈ t.reviews, ∃ r' ∈ t.reviews, r.Proceeds r' := fun r hr => ⟨r, hr, .refl r⟩
  have hcandidates : ∀ c ∈ t.candidates, ∃ c' ∈ t.candidates, c.Proceeds c' := fun c hc => ⟨c, hc, .refl c⟩
  cases h with
  | retime hto _ =>
    refine ⟨List.prefix_refl _, fun r hr => ?_, hcandidates⟩
    obtain ⟨_, hr', a, b, rfl⟩ := hto r hr
    exact ⟨_, hr', rfl, rfl, rfl, rfl, rfl, fun _ => id, fun _ => id, r.state.leads_refl⟩
  | @reserveCritic _ r _ _ _ _ _ _ _ hr hst _ =>
    refine ⟨List.prefix_refl _, fun x hx => ?_, hcandidates⟩
    -- a pending review has neither a critic slot nor a confirmation
    have hshape := hc.review_shape r hr
    rw [ObstacleReview.Shaped, hst] at hshape
    refine Rows.exists_set_of_mem hv.reviewIds hr rfl .refl ?_ hx
    refine ⟨rfl, rfl, rfl, rfl, rfl, fun s hs => ?_, fun _ => id, ?_⟩
    · rw [hshape.1] at hs
      cases hs
    · rw [hst]
      rfl
  | evidence => exact ⟨List.prefix_append _ _, hreviews, hcandidates⟩
  | designate =>
    exact ⟨List.prefix_refl _, fun r hr => ⟨r, List.mem_append_left _ hr, .refl r⟩, hcandidates⟩
  | newCandidate =>
    exact ⟨List.prefix_refl _, hreviews, fun c hc => ⟨c, List.mem_append_left _ hc, .refl c⟩⟩
  | candidate hrow hm =>
    refine ⟨List.prefix_refl _, hreviews, fun x hx => ?_⟩
    exact Rows.exists_set_of_mem hv.candidateIds hrow hm.proceeds.candidateId.symm .refl hm.proceeds hx
  | _ => exact ⟨List.prefix_refl _, hreviews, hcandidates⟩

/-- The reviews of a finished generation proceed to their ends. -/
theorem ClosedReviews.proceed (hv : t.Valid) {reviews : List ObstacleReview}
    (h : ClosedReviews t.reviews reviews) : ∀ r ∈ t.reviews, ∃ r' ∈ reviews, r.Proceeds r' := by
  intro r hr
  obtain ⟨r', hr', hb, _⟩ := h.kept r hr
  obtain ⟨_, x, hx, hbx, hst⟩ := h.closed r' hr'
  obtain rfl : x = r := Rows.eq_of_key hv.reviewIds hx hr (hbx.reviewId.symm.trans hb.reviewId)
  refine ⟨r', hr', hb.proceeds ?_⟩
  rcases hst with hs | ⟨hs, hs'⟩ | ⟨hs, hs'⟩
  · rw [hs]
    exact x.state.leads_refl
  · rw [hs, hs']
    rfl
  · rw [hs, hs']
    rfl

/-- And what a turn leaves of them. -/
theorem Turn.rows (hv : t.Valid) (hc : S.Coherent t) (h : Turn S call calm t t') :
    t'.evidence = t.evidence ∧ t.recommendations <+: t'.recommendations ∧
    ∀ r ∈ t.reviews, ∃ r' ∈ t'.reviews, r.Proceeds r' := by
  cases h with
  | enterReview => exact ⟨rfl, List.prefix_refl _, fun r hr => ⟨r, hr, .refl r⟩⟩
  | @confirm r _ _ _ _ hr hst =>
    refine ⟨rfl, List.prefix_append _ _, fun x hx => ?_⟩
    -- an active review has no confirmation yet
    have hshape := hc.review_shape r hr
    rw [ObstacleReview.Shaped, hst] at hshape
    refine Rows.exists_set_of_mem hv.reviewIds hr rfl .refl ?_ hx
    refine ⟨rfl, rfl, rfl, rfl, rfl, fun _ => id, fun e he => ?_, ?_⟩
    · rw [hshape.2] at he
      cases he
    · rw [hst]
      rfl
  | advance _ _ _ _ _ _ hclosed _ => exact ⟨rfl, List.prefix_refl _, hclosed.proceed hv⟩
  | resolve _ _ _ _ _ _ _ _ hclosed _ => exact ⟨rfl, List.prefix_refl _, hclosed.proceed hv⟩

theorem Changes.rows (hc : S.Coherent db.1) (h : Changes S call calm db db') :
    db.1.evidence <+: db'.1.evidence ∧ (∀ r ∈ db.1.reviews, ∃ r' ∈ db'.1.reviews, r.Proceeds r') ∧
    ∀ c ∈ db.1.candidates, ∃ c' ∈ db'.1.candidates, c.Proceeds c' := by
  induction h with
  | refl => exact ⟨List.prefix_refl _, fun r hr => ⟨r, hr, .refl r⟩, fun c hc => ⟨c, hc, .refl c⟩⟩
  | @tail d d' hd hstep ih =>
    obtain ⟨hevidence, hreviews, hcandidates⟩ := hstep.rows d.2 (Changes.coherent hc hd)
    refine ⟨ih.1.trans hevidence, fun r hr => ?_, fun c hc => ?_⟩
    · obtain ⟨x, hx, hrx⟩ := ih.2.1 r hr
      obtain ⟨y, hy, hxy⟩ := hreviews x hx
      exact ⟨y, hy, hrx.trans hxy⟩
    · obtain ⟨x, hx, hcx⟩ := ih.2.2 c hc
      obtain ⟨y, hy, hxy⟩ := hcandidates x hx
      exact ⟨y, hy, hcx.trans hxy⟩

/-- No call takes a resolution back. -/
theorem perform_resolutions (hc : S.Coherent db.1) (call : StoreCall) :
    ∀ r ∈ db.1.resolutions, r ∈ (S.perform call db).2.1.resolutions := by
  intro r hr
  by_cases hcall : call.resolves = false
  · rw [(served hc).1.resolutions hcall]
    exact hr
  · cases call with
    | resolveRecommendation q now =>
      rcases perform_resolve hc q now with he | h
      · rw [he]
        exact hr
      · exact h.kept r hr
    | _ => exact absurd rfl hcall

/-- One call archives. -/
theorem perform_archives (hc : S.Coherent db.1) (call : StoreCall) : Archived db.1 (S.perform call db).2.1 := by
  have hstep : CallStep S call False db (S.perform call db).2 := (served hc).1
  have hgeneration : db.1.project.generation ≤ (S.perform call db).2.1.project.generation := by
    rcases hstep.advances hc with h | h
    · exact h.ge
    · rw [h.next]
      exact Nat.le_succ _
  have hrows : db.1.evidence <+: (S.perform call db).2.1.evidence ∧
      db.1.recommendations <+: (S.perform call db).2.1.recommendations ∧
      (∀ r ∈ db.1.reviews, ∃ r' ∈ (S.perform call db).2.1.reviews, r.Proceeds r') ∧
      ∀ c ∈ db.1.candidates, ∃ c' ∈ (S.perform call db).2.1.candidates, c.Proceeds c' := by
    obtain ⟨u, hu, hlast⟩ := hstep
    obtain ⟨hevidence, hreviews, hcandidates⟩ := Changes.rows hc hu
    have hsame := (Changes.recommendations hu).1
    rcases hlast with he | ht
    · rw [he, hsame]
      exact ⟨hevidence, List.prefix_refl _, hreviews, hcandidates⟩
    · obtain ⟨hevidence', hrecommendations, hreviews'⟩ := ht.rows u.2 (Changes.coherent hc hu)
      rw [hsame] at hrecommendations
      refine ⟨hevidence' ▸ hevidence, hrecommendations, fun r hr => ?_, ?_⟩
      · obtain ⟨x, hx, hrx⟩ := hreviews r hr
        obtain ⟨y, hy, hxy⟩ := hreviews' x hx
        exact ⟨y, hy, hrx.trans hxy⟩
      · rw [ht.candidates]
        exact hcandidates
  exact {
    generation := hgeneration
    evidence := hrows.1
    recommendations := hrows.2.1
    resolutions := perform_resolutions hc call
    tasks := hstep.continue.1
    slots := hstep.slot_lives
    reviews := hrows.2.2.1
    candidates := hrows.2.2.2 }

/-- Along every run the store only adds to its record: evidence and recommendations are appended, resolutions and
frozen tasks stay, slots and reviews keep what they are bound to and never go back, and so do the bindings of a
receipt. -/
theorem record_only_grows {past : List Database} (h : S.machine.History (fun _ _ => True) (db :: past)) :
    ∀ d ∈ past, Archived d.1 db.1 := by
  have grows : ∀ l, S.machine.History (fun _ _ => True) l → ∀ d ∈ l, ∀ d' ∈ l.head?, Archived d.1 d'.1 := by
    intro l hl
    refine hl.invariant (I := fun l => ∀ d ∈ l, ∀ d' ∈ l.head?, Archived d.1 d'.1) ?_ ?_
    · rintro s _ d hd d' ⟨⟩
      rw [List.mem_singleton.mp hd]
      exact .refl _
    · rintro s past call _ hp ih _ rfl d hd d' ⟨⟩
      rcases List.mem_cons.mp hd with rfl | hd
      · exact .refl _
      · exact (ih d hd s rfl).trans (perform_archives (coherent_of_reachable hp.reachable) call)
  exact fun d hd => grows _ h d (List.mem_cons_of_mem _ hd) db rfl

/-- The run that records an obstacle and its confirmation, and recommends the advisor. -/
theorem record_only_grows_recorded : ∃ db past, recordedRun = db :: past ∧
    ∀ d ∈ past, Archived d.1 db.1 := by
  have hrun : pairStore.machine.History (fun _ _ => True) recordedRun :=
    history_trace (.start pair_start) fun _ _ _ => trivial
  cases hlist : recordedRun with
  | nil =>
    rw [recordedRun, admitRoot] at hlist
    cases hlist
  | cons db past =>
    rw [hlist] at hrun
    exact ⟨db, past, rfl, record_only_grows hrun⟩

end Danus.Coordination
