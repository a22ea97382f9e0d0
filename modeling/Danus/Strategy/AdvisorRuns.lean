import Danus.Strategy.AdvisorSafety

/-! One Send per browser request, over every run of any number of brokers. -/
namespace Danus.Strategy
open Python Machines

/-- A row and what a run has made of it. -/
structure Follows (old new : Request) : Prop where
  identity : new.identity = old.identity
  spent : old.state ≠ .prepared → old.state ≠ .authorized → new.state ≠ .prepared ∧ new.state ≠ .authorized
  given_up : old.state = .ownerAbandonedOutcomeUnknown → new.state = .ownerAbandonedOutcomeUnknown

theorem Follows.refl (row : Request) : Follows row row := ⟨rfl, fun h1 h2 => ⟨h1, h2⟩, id⟩

theorem Follows.trans {a b c : Request} (h1 : Follows a b) (h2 : Follows b c) : Follows a c where
  identity := h2.identity.trans h1.identity
  spent := fun hp ha => h2.spent (h1.spent hp ha).1 (h1.spent hp ha).2
  given_up := fun h => h2.given_up (h1.given_up h)

section Steps
variable {l l' : Ledger} {old new row : Request} {clicked : List PyStr}

theorem Ledger.Replaces.follows (h : l.Replaces l' old new) (hc : l.Coherent)
    (hrow : row ∈ l.requests) : ∃ row' ∈ l'.requests, Follows row row' := by
  rw [h.requests]
  exact Rows.exists_set_of_mem hc.requestIds h.mem h.key.symm Follows.refl
    ⟨h.identity, h.spent, fun hg => (h.live hg).elim⟩ hrow

/-- No step loses a row. -/
theorem Ledger.Step.follows (h : l.Step l' clicked) (hc : l.Coherent) (hrow : row ∈ l.requests) :
    ∃ row' ∈ l'.requests, Follows row row' := by
  cases h with
  | same => exact ⟨row, hrow, .refl row⟩
  | torn => exact ⟨row, hrow, .refl row⟩
  | insert => exact ⟨row, List.mem_append_left _ hrow, .refl row⟩
  | update hr => exact hr.follows hc hrow
  | dispatch hr => exact hr.follows hc hrow

/-- A click is authorised for an authorised row only, and only for one. -/
theorem Ledger.Step.click {id : PyStr} (h : l.Step l' clicked) (hid : id ∈ clicked) :
    clicked = [id] ∧ ∃ old new, l.Replaces l' old new ∧ old.requestId = id ∧
      old.state = .authorized ∧ new.state = .dispatching := by
  cases h with
  | dispatch hr hs hd hsub hlen =>
    have he : id = _ := List.mem_singleton.mp (hsub hid)
    refine ⟨?_, _, _, hr, he.symm, hs, hd⟩
    rcases clicked with _ | ⟨first, _ | ⟨second, rest⟩⟩
    · cases hid
    · rw [List.mem_singleton.mp hid]
    · simp at hlen
  | _ => cases hid

end Steps

/-- The ledger is coherent, and the requests that were clicked are different ones whose authorisation
is spent. -/
structure Advisor.Safe (s : Advisor) : Prop where
  ledger : s.ledger.Coherent
  clicked : s.clicked.Nodup
  spent : ∀ id ∈ s.clicked, ∃ row ∈ s.ledger.requests, row.requestId = id ∧
    row.state ≠ .prepared ∧ row.state ≠ .authorized

theorem Advisor.initial_safe {projectDir : PyStr} : (Advisor.initial projectDir).Safe where
  ledger := by constructor <;> simp [Advisor.initial, Unique]
  clicked := List.nodup_nil
  spent := by simp [Advisor.initial]

section Runs
variable {s t : Advisor} {l' : Ledger} {clicked : List PyStr}

theorem Advisor.Safe.step (hs : s.Safe) (h : s.ledger.Step l' clicked) :
    (⟨l', s.clicked ++ clicked⟩ : Advisor).Safe where
  ledger := h.coherent hs.ledger
  clicked := by
    rw [List.nodup_append]
    refine ⟨hs.clicked, ?_, ?_⟩
    · cases hc : clicked with
      | nil => exact List.nodup_nil
      | cons id rest =>
        have hid : id ∈ clicked := by rw [hc]; exact List.mem_cons_self
        rw [← hc, (h.click hid).1]
        exact List.nodup_singleton _
    · intro id hid id' hid' he
      obtain ⟨_, old, _, hr, hkey, hauth, _⟩ := h.click hid'
      obtain ⟨row, hrow, hrid, _, hna⟩ := hs.spent id hid
      have hsame : row = old := hs.ledger.same hrow hr.mem (by rw [hrid, hkey, he])
      exact hna (hsame ▸ hauth)
  spent := by
    intro id hid
    rcases List.mem_append.mp hid with hid | hid
    · obtain ⟨row, hrow, hrid, hp, ha⟩ := hs.spent id hid
      obtain ⟨row', hrow', hf⟩ := h.follows hs.ledger hrow
      exact ⟨row', hrow', (congrArg Request.requestId hf.identity :).trans hrid, hf.spent hp ha⟩
    · obtain ⟨_, old, new, hr, hkey, _, hd⟩ := h.click hid
      exact ⟨new, hr.new_mem, hr.key.trans hkey, by rw [hd]; simp, by rw [hd]; simp⟩

variable [Patterns] {projectDir : PyStr}

/-- What an event that raises or returns does to the state. -/
theorem Advisor.step_cases (hs : s.Safe) (event : Event) : s.step event = s ∨
    ∃ l' clicked, s.ledger.Step l' clicked ∧ s.step event = ⟨l', s.clicked ++ clicked⟩ := by
  unfold Advisor.step
  cases hr : event.run s.ledger with
  | error e => exact .inl rfl
  | ok out => exact .inr ⟨out.1, out.2, run_step hs.ledger hr, rfl⟩

theorem Advisor.safe_of_reachable (h : (Advisor.machine projectDir).Reachable s) : s.Safe := by
  apply h.invariant
  · rintro s rfl
    exact Advisor.initial_safe
  · rintro s event t hs rfl
    rcases Advisor.step_cases hs event with he | ⟨l', clicked, hstep, he⟩
    · rw [he]
      exact hs
    · rw [he]
      exact hs.step hstep

/-- A row of any state that a run has visited is still there, as the run has made it. -/
theorem Advisor.history_follows {u : Advisor} {past : List Advisor} {row : Request}
    {ok : List Advisor → Event → Prop} (h : (Advisor.machine projectDir).History ok (s :: past))
    (hu : u ∈ s :: past) (hrow : row ∈ u.ledger.requests) :
    ∃ row' ∈ s.ledger.requests, Follows row row' := by
  generalize hl : s :: past = visited at h
  induction h generalizing s past with
  | start _ =>
    obtain ⟨rfl, rfl⟩ := List.cons.inj hl
    rw [List.mem_singleton.mp hu] at hrow
    exact ⟨row, hrow, .refl row⟩
  | @step s' t past' event hp _ hstep ih =>
    obtain ⟨rfl, rfl⟩ := List.cons.inj hl
    rcases List.mem_cons.mp hu with rfl | hu
    · exact ⟨row, hrow, .refl row⟩
    · obtain ⟨row', hrow', hf⟩ := ih hu rfl
      have hsafe := Advisor.safe_of_reachable hp.reachable
      have hstep : s = s'.step event := hstep
      rcases Advisor.step_cases hsafe event with he | ⟨l', clicked, hst, he⟩
      · exact ⟨row', by rw [hstep, he]; exact hrow', hf⟩
      · obtain ⟨row'', hrow'', hf'⟩ := hst.follows hsafe.ledger hrow'
        exact ⟨row'', by rw [hstep, he]; exact hrow'', hf.trans hf'⟩

omit [Patterns] in
/-- Rows of one prompt have one digest of it. -/
theorem Ledger.Coherent.promptSha256 {l : Ledger} (hl : l.Coherent) {row : Request}
    (h : row ∈ l.requests) : row.promptSha256 = sha256Text row.prompt := by
  have hi := (hl.sound row h).1
  unfold Ledger.assertIntegrity at hi
  simp only [Checks.unless_ok] at hi
  by_contra hne
  exact hi.1 (.inl hne)

/-- In every run of any number of brokers: no request is clicked twice; requests share no id, no
client, no recommendation and no checkpoint; at most one request of a prompt is still open; and a
click for a prompt is authorised only while no other request of it may have been delivered, and
never after the outcome of one was given up. -/
theorem one_send_per_request {past : List Advisor}
    (h : (Advisor.machine projectDir).History (fun _ _ => True) (s :: past)) :
    s.clicked.Nodup ∧
    (s.ledger.requests.map Request.requestId).Nodup ∧
    (∀ a ∈ s.ledger.requests, ∀ b ∈ s.ledger.requests,
      (a.clientId ≠ none ∧ a.clientId = b.clientId) ∨
      (a.recommendationId ≠ none ∧ a.recommendationId = b.recommendationId) ∨
      a.checkpointId = b.checkpointId ∨
      (a.prompt = b.prompt ∧ a.state.terminal = false ∧ b.state.terminal = false) → a = b) ∧
    ∀ (event : Event) (l' : Ledger) (clicked : List PyStr), event.run s.ledger = .ok (l', clicked) → ∀ id ∈ clicked,
      ∃ row ∈ s.ledger.requests, row.requestId = id ∧
        (∀ other ∈ s.ledger.requests, other.prompt = row.prompt → other ≠ row →
          other.state.ambiguous = false) ∧
        ∀ u ∈ s :: past, ∀ other ∈ u.ledger.requests, other.prompt = row.prompt →
          other.state ≠ .ownerAbandonedOutcomeUnknown := by
  have hs := Advisor.safe_of_reachable h.reachable
  have hl := hs.ledger
  refine ⟨hs.clicked, hl.requestIds, ?_, ?_⟩
  · rintro a ha b hb (hab | hab | hab | ⟨hp, hta, htb⟩)
    · exact hl.clientIds a ha b hb hab
    · exact hl.recommendationIds a ha b hb hab
    · exact hl.checkpointIds a ha b hb hab
    · exact hl.active a ha b hb ⟨by rw [hl.promptSha256 ha, hl.promptSha256 hb, hp], hta, htb⟩
  · intro event l' clicked hrun id hid
    obtain ⟨_, row, _, hr, hkey, hauth, _⟩ := (run_step hl hrun).click hid
    have hopen : row.state.terminal = false := by rw [hauth]; rfl
    have hsha : ∀ other ∈ s.ledger.requests, other.prompt = row.prompt →
        other.promptSha256 = row.promptSha256 := by
      intro other ho hp
      rw [hl.promptSha256 ho, hl.promptSha256 hr.mem, hp]
    refine ⟨row, hr.mem, hkey, ?_, ?_⟩
    · intro other ho hp hne
      by_contra ha
      have ht : other.state.terminal = false := by
        cases hst : other.state <;> simp_all [RequestState.ambiguous, RequestState.terminal]
      exact hne (hl.active other ho row hr.mem ⟨hsha other ho hp, ht, hopen⟩)
    · intro u hu other ho hp hg
      obtain ⟨other', ho', hf⟩ := Advisor.history_follows h hu ho
      have hp' : other'.prompt = row.prompt :=
        (congrArg Request.prompt hf.identity :).trans hp
      have ht := hl.given_up other' ho' row hr.mem (hsha other' ho' hp') (hf.given_up hg)
      rw [hopen] at ht
      cases ht

end Runs
end Danus.Strategy
