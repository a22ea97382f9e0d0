import Danus.Strategy.AdvisorRules

/-! One Send per request: what holds of every ledger that brokers can reach. -/
namespace Danus.Strategy
open Python Machines Checks

section Ledgers
variable {l l' : Ledger} {row old new : Request} {requestId : PyStr}

theorem assertAnchor_ok : l.assertAnchor row = .ok () ↔
    (row.preClickTokenSha256 = none ∧ Ledger.undispatched row = true ∧ l.anchors row.requestId = none ∧
      row.dispatchAnchorSha256 = none) ∨
    ∃ tokenSha256 raw, row.preClickTokenSha256 = some tokenSha256 ∧ isSha256 tokenSha256 = true ∧
      Ledger.undispatched row = false ∧ l.anchors row.requestId = some raw ∧
      dispatchAnchorRaw row tokenSha256 = .ok raw ∧
      row.dispatchAnchorSha256 = some (sha256Bytes raw) := by
  unfold Ledger.assertAnchor
  cases row.preClickTokenSha256 with
  | none => simp [unless_error_ok]
  | some tokenSha256 =>
    simp only [reduceCtorEq, false_and, false_or, Option.some.injEq, ↓existsAndEq, true_and,
      unless_error_ok]
    cases ha : l.anchors row.requestId with
    | none => simp
    | some existing =>
      cases hr : dispatchAnchorRaw row tokenSha256 with
      | error e => simp
      | ok expected =>
        simp only [unless_error_ok, Option.some.injEq, Except.ok.injEq]
        constructor
        · rintro ⟨h1, h2, h3, _⟩
          push Not at h3
          exact ⟨expected, by simpa using h1, by simpa using h2, h3.1, rfl, h3.1 ▸ h3.2⟩
        · rintro ⟨raw, h1, h2, rfl, rfl, h3⟩
          exact ⟨by simp [h1], by simp [h2], by simp [h3], trivial⟩

/-- The row of a dispatch that died with its anchor written. -/
def Ledger.Stranded (l : Ledger) (row : Request) : Prop :=
  row.state = .authorized ∧ row.preClickTokenSha256 = none ∧ row.dispatchAnchorSha256 = none ∧
    l.anchors row.requestId ≠ none

/-- A row that a read accepts, or whose dispatch died. -/
def Ledger.Sound (l : Ledger) (row : Request) : Prop :=
  l.assertIntegrity row = .ok () ∧ (l.assertAnchor row = .ok () ∨ l.Stranded row)

/-- Rows that `R` relates are the same row. -/
def Unique (R : Request → Request → Prop) (rows : List Request) : Prop :=
  ∀ a ∈ rows, ∀ b ∈ rows, R a b → a = b

/-- What holds of every ledger that brokers reach. -/
structure Ledger.Coherent (l : Ledger) : Prop where
  requestIds : (l.requests.map Request.requestId).Nodup
  clientIds : Unique (fun a b => a.clientId ≠ none ∧ a.clientId = b.clientId) l.requests
  recommendationIds :
    Unique (fun a b => a.recommendationId ≠ none ∧ a.recommendationId = b.recommendationId) l.requests
  checkpointIds : Unique (fun a b => a.checkpointId = b.checkpointId) l.requests
  active : Unique (fun a b => a.promptSha256 = b.promptSha256 ∧ a.state.terminal = false ∧
    b.state.terminal = false) l.requests
  given_up : ∀ a ∈ l.requests, ∀ b ∈ l.requests, a.promptSha256 = b.promptSha256 →
    a.state = .ownerAbandonedOutcomeUnknown → b.state.terminal = true
  sound : ∀ row ∈ l.requests, l.Sound row
  lineage : ∀ row ∈ l.requests, ∀ p, row.predecessor = some p →
    ∃ q ∈ l.requests, q.requestId = p.requestId ∧ q.state ≠ .prepared ∧ q.state ≠ .authorized

theorem Ledger.Coherent.same (h : l.Coherent) {a b : Request} (ha : a ∈ l.requests)
    (hb : b ∈ l.requests) (he : a.requestId = b.requestId) : a = b :=
  Rows.eq_of_key h.requestIds ha hb he

theorem Unique.set {R : Request → Request → Prop} {rows : List Request} (h : Unique R rows)
    (hold : old ∈ rows) (hk : old.requestId = new.requestId) (hl : ∀ b, R new b → R old b)
    (hr : ∀ a, R a new → R a old) : Unique R (Rows.set Request.requestId new rows) := by
  intro a ha b hb hR
  rcases Rows.mem_set_cases ha with hna | ⟨ha, hka⟩
  · rcases Rows.mem_set_cases hb with hnb | ⟨hb, hkb⟩
    · exact hna.trans hnb.symm
    · have he := h old hold b hb (hl b (hna ▸ hR))
      exact (hkb (he ▸ hk)).elim
  · rcases Rows.mem_set_cases hb with hnb | ⟨hb, hkb⟩
    · have he := h a ha old hold (hr a (hnb ▸ hR))
      exact (hka (he ▸ hk)).elim
    · exact h a ha b hb hR

theorem Unique.append {R : Request → Request → Prop} {rows : List Request} (h : Unique R rows)
    (hn : ∀ a ∈ rows, ¬ R a new ∧ ¬ R new a) : Unique R (rows ++ [new]) := by
  intro a ha b hb hR
  rcases List.mem_append.mp ha with ha | ha
  · rcases List.mem_append.mp hb with hb | hb
    · exact h a ha b hb hR
    · exact ((hn a ha).1 (List.mem_singleton.mp hb ▸ hR)).elim
  · rcases List.mem_append.mp hb with hb | hb
    · exact ((hn b hb).2 (List.mem_singleton.mp ha ▸ hR)).elim
    · exact (List.mem_singleton.mp ha).trans (List.mem_singleton.mp hb).symm

/-- One row is replaced by a successor that a read accepts; only its own anchor may change. -/
structure Ledger.Replaces (l l' : Ledger) (old new : Request) : Prop where
  mem : old ∈ l.requests
  found : l.getInTx old.requestId = .ok old
  identity : new.identity = old.identity
  terminal : old.state.terminal = true → new.state.terminal = true
  given_up : new.state = .ownerAbandonedOutcomeUnknown → old.state.terminal = false
  live : old.state ≠ .ownerAbandonedOutcomeUnknown
  spent : old.state ≠ .prepared → old.state ≠ .authorized →
    new.state ≠ .prepared ∧ new.state ≠ .authorized
  requests : l'.requests = Rows.set Request.requestId new l.requests
  projectDir : l'.projectDir = l.projectDir
  anchors : ∀ id, id ≠ old.requestId → l'.anchors id = l.anchors id
  read : ∃ r, l'.getInTx old.requestId = .ok r

namespace Ledger.Replaces
variable (h : l.Replaces l' old new)
include h

theorem key : new.requestId = old.requestId := (congrArg Request.requestId h.identity :)

theorem promptSha256 : new.promptSha256 = old.promptSha256 :=
  (congrArg Request.promptSha256 h.identity :)

theorem mem_cases {a : Request} (ha : a ∈ l'.requests) :
    a = new ∨ (a ∈ l.requests ∧ a.requestId ≠ old.requestId) := by
  rw [h.requests] at ha
  rw [← h.key]
  exact Rows.mem_set_cases ha

theorem new_mem : new ∈ l'.requests := by
  rw [h.requests]
  exact Rows.mem_set_self h.mem h.key.symm

theorem requestIds (hc : l.Coherent) : (l'.requests.map Request.requestId).Nodup := by
  rw [h.requests, Rows.map_key_set]
  exact hc.requestIds

/-- The successor is the row that the read after the update finds. -/
theorem accepted (hc : l.Coherent) : l'.assertIntegrity new = .ok () ∧ l'.assertAnchor new = .ok () := by
  obtain ⟨r, hr⟩ := h.read
  have hm := getInTx_mem hr
  have he : r = new := Rows.eq_of_key (h.requestIds hc) hm.1 h.new_mem (hm.2.trans h.key.symm)
  obtain ⟨_, _, hi, ha⟩ := getInTx_ok.mp hr
  exact he ▸ ⟨hi, ha⟩

theorem sound_other {a : Request} (hne : a.requestId ≠ old.requestId) (ha : l.Sound a) :
    l'.Sound a := by
  have hanchor := h.anchors a.requestId hne
  have hi : l'.assertIntegrity a = l.assertIntegrity a := by
    unfold Ledger.assertIntegrity
    rw [h.projectDir]
  have haa : l'.assertAnchor a = l.assertAnchor a := by
    unfold Ledger.assertAnchor
    rw [hanchor]
  unfold Ledger.Sound Ledger.Stranded
  rw [hi, haa, hanchor]
  exact ha

theorem given_up_terminal (hc : l.Coherent) : ∀ a ∈ l'.requests, ∀ b ∈ l'.requests,
    a.promptSha256 = b.promptSha256 → a.state = .ownerAbandonedOutcomeUnknown →
      b.state.terminal = true := by
  intro a ha b hb hs hg
  rcases h.mem_cases ha with rfl | ⟨ha, hna⟩
  · rcases h.mem_cases hb with rfl | ⟨hb, hnb⟩
    · rw [hg]; rfl
    · have hs' : old.promptSha256 = b.promptSha256 := h.promptSha256.symm.trans hs
      by_contra hb'
      have he := hc.active old h.mem b hb ⟨hs', h.given_up hg, by simpa using hb'⟩
      exact hnb (by rw [he])
  · rcases h.mem_cases hb with rfl | ⟨hb, _⟩
    · exact h.terminal (hc.given_up a ha old h.mem (hs.trans h.promptSha256) hg)
    · exact hc.given_up a ha b hb hs hg

theorem predecessor : new.predecessor = old.predecessor :=
  (congrArg Request.predecessor h.identity :)

theorem lineage (hc : l.Coherent) : ∀ row ∈ l'.requests, ∀ p, row.predecessor = some p →
    ∃ q ∈ l'.requests, q.requestId = p.requestId ∧ q.state ≠ .prepared ∧ q.state ≠ .authorized := by
  have key : ∀ row ∈ l.requests, ∀ p, row.predecessor = some p →
      ∃ q ∈ l'.requests, q.requestId = p.requestId ∧ q.state ≠ .prepared ∧ q.state ≠ .authorized := by
    intro row hrow p hp
    obtain ⟨q, hq, hid, hqp, hqa⟩ := hc.lineage row hrow p hp
    by_cases he : q.requestId = old.requestId
    · have hqo : q = old := hc.same hq h.mem he
      subst hqo
      exact ⟨new, h.new_mem, h.key.trans hid, h.spent hqp hqa⟩
    · refine ⟨q, ?_, hid, hqp, hqa⟩
      rw [h.requests]
      exact Rows.mem_set_of_ne hq (by rwa [h.key])
  intro row hrow p hp
  rcases h.mem_cases hrow with rfl | ⟨hrow, _⟩
  · exact key old h.mem p (h.predecessor ▸ hp)
  · exact key row hrow p hp

theorem coherent (hc : l.Coherent) : l'.Coherent where
  lineage := h.lineage hc
  requestIds := h.requestIds hc
  clientIds := by
    have he : new.clientId = old.clientId := (congrArg Request.clientId h.identity :)
    rw [h.requests]
    exact hc.clientIds.set h.mem h.key.symm (by simp [he]) (by simp [he])
  recommendationIds := by
    have he : new.recommendationId = old.recommendationId :=
      (congrArg Request.recommendationId h.identity :)
    rw [h.requests]
    exact hc.recommendationIds.set h.mem h.key.symm (by simp [he]) (by simp [he])
  checkpointIds := by
    have he : new.checkpointId = old.checkpointId := (congrArg Request.checkpointId h.identity :)
    rw [h.requests]
    exact hc.checkpointIds.set h.mem h.key.symm (by simp [he]) (by simp [he])
  active := by
    have ht : new.state.terminal = false → old.state.terminal = false := by
      intro hn
      by_contra ho
      simp [h.terminal (by simpa using ho)] at hn
    rw [h.requests]
    refine hc.active.set h.mem h.key.symm ?_ ?_
    · rintro b ⟨hs, hn, hb⟩
      exact ⟨h.promptSha256.symm.trans hs, ht hn, hb⟩
    · rintro a ⟨hs, ha, hn⟩
      exact ⟨hs.trans h.promptSha256, ha, ht hn⟩
  given_up := h.given_up_terminal hc
  sound := by
    intro a ha
    rcases h.mem_cases ha with rfl | ⟨ha, hne⟩
    · exact ⟨(h.accepted hc).1, .inl (h.accepted hc).2⟩
    · exact h.sound_other hne (hc.sound a ha)

end Ledger.Replaces

end Ledgers

/-- What a successful event does to a ledger, and the clicks that it authorises. -/
inductive Ledger.Step (l : Ledger) : Ledger → List PyStr → Prop where
  | same : Step l l []
  | torn {old raw} : old ∈ l.requests → l.getInTx old.requestId = .ok old →
      old.state = .authorized → Step l (l.anchored old.requestId raw) []
  | insert {row r} : Inserts l row →
      ({ l with requests := l.requests ++ [row] } : Ledger).getInTx row.requestId = .ok r →
      Step l { l with requests := l.requests ++ [row] } []
  | update {l' old new} : l.Replaces l' old new → Step l l' []
  | dispatch {l' old new clicked} : l.Replaces l' old new → old.state = .authorized →
      new.state = .dispatching → clicked ⊆ [old.requestId] → clicked.length ≤ 1 → Step l l' clicked

section Steps
variable {l l' : Ledger} {row old new r : Request} {requestId : PyStr} {clicked : List PyStr}

theorem collides_false (h : l.collides row = false) : ∀ other ∈ l.requests,
    other.requestId ≠ row.requestId ∧ (row.clientId ≠ none → other.clientId ≠ row.clientId) ∧
      (row.recommendationId ≠ none → other.recommendationId ≠ row.recommendationId) ∧
      other.checkpointId ≠ row.checkpointId := by
  intro other ho
  unfold Ledger.collides at h
  rw [List.any_eq_false] at h
  have := h other ho
  simp only [Bool.or_eq_true, Bool.and_eq_true, beq_iff_eq, Option.isSome_iff_ne_none] at this
  tauto

/-- A read of the request just inserted finds it. -/
theorem read_inserted (hfresh : l.collides row = false)
    (hr : ({ l with requests := l.requests ++ [row] } : Ledger).getInTx row.requestId = .ok r) :
    r = row := by
  have hm := getInTx_mem hr
  rcases List.mem_append.mp hm.1 with ha | ha
  · exact ((collides_false hfresh r ha).1 hm.2).elim
  · exact List.mem_singleton.mp ha

theorem Inserts.coherent (h : Inserts l row) (hc : l.Coherent)
    (hr : ({ l with requests := l.requests ++ [row] } : Ledger).getInTx row.requestId = .ok r) :
    ({ l with requests := l.requests ++ [row] } : Ledger).Coherent where
  lineage := by
    intro a ha p hp
    have key : ∃ q ∈ l.requests, q.requestId = p.requestId ∧ q.state ≠ .prepared ∧
        q.state ≠ .authorized := by
      rcases List.mem_append.mp ha with ha | ha
      · exact hc.lineage a ha p hp
      · rw [List.mem_singleton.mp ha] at hp
        obtain ⟨q, hq, hid, hqs⟩ := h.predecessor p hp
        exact ⟨q, hq, hid, by rintro he; simp [he, RequestState.continuable] at hqs,
          by rintro he; simp [he, RequestState.continuable] at hqs⟩
    obtain ⟨q, hq, hrest⟩ := key
    exact ⟨q, List.mem_append_left _ hq, hrest⟩
  requestIds := by
    rw [List.map_append, List.map_singleton, List.nodup_append]
    refine ⟨hc.requestIds, List.nodup_singleton _, ?_⟩
    intro id hid id' hid' he
    obtain ⟨other, ho, rfl⟩ := List.mem_map.mp hid
    exact (collides_false h.fresh other ho).1 (he.trans (List.mem_singleton.mp hid'))
  clientIds := by
    refine hc.clientIds.append ?_
    intro a ha
    have := (collides_false h.fresh a ha).2.1
    grind
  recommendationIds := by
    refine hc.recommendationIds.append ?_
    intro a ha
    have := (collides_false h.fresh a ha).2.2.1
    grind
  checkpointIds := by
    refine hc.checkpointIds.append ?_
    intro a ha
    have := (collides_false h.fresh a ha).2.2.2
    grind
  active := by
    refine hc.active.append ?_
    intro a ha
    constructor
    · rintro ⟨hs, ht, _⟩
      simp [(h.active a ha hs).1] at ht
    · rintro ⟨hs, _, ht⟩
      simp [(h.active a ha hs.symm).1] at ht
  given_up := by
    intro a ha b hb hs hg
    rcases List.mem_append.mp ha with ha | ha
    · rcases List.mem_append.mp hb with hb | hb
      · exact hc.given_up a ha b hb hs hg
      · have he := List.mem_singleton.mp hb
        exact ((h.active a ha (he ▸ hs)).2 hg).elim
    · have he := List.mem_singleton.mp ha
      rw [he, h.state] at hg
      cases hg
  sound := by
    intro a ha
    rcases List.mem_append.mp ha with ha | ha
    · exact hc.sound a ha
    · have he := List.mem_singleton.mp ha
      have hrow := read_inserted h.fresh hr
      obtain ⟨_, _, hi, haa⟩ := getInTx_ok.mp hr
      rw [he, ← hrow]
      exact ⟨hi, .inl haa⟩

theorem anchored_anchors_self {raw : List Nat} : (l.anchored requestId raw).anchors requestId = some raw := by
  simp [Ledger.anchored]

theorem anchored_anchors_of_ne {raw : List Nat} {id : PyStr} (h : id ≠ requestId) :
    (l.anchored requestId raw).anchors id = l.anchors id := by
  simp [Ledger.anchored, h]

theorem assertAnchor_congr (h : l'.anchors row.requestId = l.anchors row.requestId) :
    l'.assertAnchor row = l.assertAnchor row := by
  unfold Ledger.assertAnchor
  rw [h]

/-- An anchor whose commit never came strands its own request. -/
theorem stranded_of_torn {raw : List Nat} (hold : l.getInTx old.requestId = .ok old)
    (hs : old.state = .authorized) : (l.anchored old.requestId raw).Stranded old := by
  have ha := (getInTx_ok.mp hold).2.2.2
  rcases assertAnchor_ok.mp ha with ⟨ht, _, _, hd⟩ | ⟨_, _, _, _, hu, _⟩
  · exact ⟨hs, ht, hd, by simp [anchored_anchors_self]⟩
  · simp [Ledger.undispatched, hs] at hu

theorem torn_coherent {raw : List Nat} (hc : l.Coherent) (hmem : old ∈ l.requests)
    (hold : l.getInTx old.requestId = .ok old) (hs : old.state = .authorized) :
    (l.anchored old.requestId raw).Coherent where
  lineage := hc.lineage
  requestIds := hc.requestIds
  clientIds := hc.clientIds
  recommendationIds := hc.recommendationIds
  checkpointIds := hc.checkpointIds
  active := hc.active
  given_up := hc.given_up
  sound := by
    intro row hrow
    obtain ⟨hi, ha⟩ := hc.sound row hrow
    refine ⟨hi, ?_⟩
    by_cases he : row.requestId = old.requestId
    · have hr : row = old := hc.same hrow hmem he
      subst hr
      exact .inr (stranded_of_torn hold hs)
    · have hanchor : (l.anchored old.requestId raw).anchors row.requestId = l.anchors row.requestId :=
        anchored_anchors_of_ne he
      unfold Ledger.Stranded
      rw [assertAnchor_congr hanchor, hanchor]
      exact ha

theorem Ledger.Step.coherent (h : l.Step l' clicked) (hc : l.Coherent) : l'.Coherent := by
  cases h with
  | same => exact hc
  | torn hmem hold hs => exact torn_coherent hc hmem hold hs
  | insert hi hr => exact hi.coherent hc hr
  | update hr => exact hr.coherent hc
  | dispatch hr _ _ _ _ => exact hr.coherent hc

/-- Opening a broker on a ledger without stranded rows changes nothing. -/
theorem initializeAnchors_of_anchored {rows : List Request}
    (h : ∀ row ∈ rows, l.assertAnchor row = .ok ()) : l.initializeAnchors rows = .ok l := by
  induction rows with
  | nil => rfl
  | cons row rows ih =>
    have hrest := ih fun r hr => h r (List.mem_cons_of_mem _ hr)
    rcases assertAnchor_ok.mp (h row List.mem_cons_self) with
      ⟨ht, _, ha, hd⟩ | ⟨tokenSha256, raw, ht, hsha, _, ha, hraw, hd⟩
    · simp [Ledger.initializeAnchors, ht, ha, hd, hrest]
    · simp [Ledger.initializeAnchors, ht, hsha, ha, hraw, hd, hrest]

theorem initializeAnchors_stranded {rows : List Request} (hrow : row ∈ rows) (hs : l.Stranded row)
    (h : ∀ row ∈ rows, l.Sound row) : ∃ e, l.initializeAnchors rows = .error e := by
  induction rows with
  | nil => cases hrow
  | cons first rows ih =>
    rcases (h first List.mem_cons_self).2 with hfirst | ⟨_, ht, _, ha⟩
    · rcases List.mem_cons.mp hrow with rfl | hrow
      · rcases assertAnchor_ok.mp hfirst with ⟨_, _, ha, _⟩ | ⟨_, _, ht, _⟩
        · exact (hs.2.2.2 ha).elim
        · rw [hs.2.1] at ht
          cases ht
      · obtain ⟨e, he⟩ := ih hrow fun r hr => h r (List.mem_cons_of_mem _ hr)
        refine ⟨e, ?_⟩
        rcases assertAnchor_ok.mp hfirst with
          ⟨ht, _, ha, hd⟩ | ⟨tokenSha256, raw, ht, hsha, _, ha, hraw, hd⟩
        · simp [Ledger.initializeAnchors, ht, ha, hd, he]
        · simp [Ledger.initializeAnchors, ht, hsha, ha, hraw, hd, he]
    · exact ⟨_, by rw [Ledger.initializeAnchors, ht]; simp [ha]; rfl⟩

theorem open_ok (hc : l.Coherent) (h : l.open = .ok l') : l' = l := by
  by_cases ha : ∀ row ∈ l.requests, l.assertAnchor row = .ok ()
  · rw [Ledger.open, initializeAnchors_of_anchored ha] at h
    exact (Except.ok.inj h).symm
  · push Not at ha
    obtain ⟨row, hrow, hne⟩ := ha
    have hs : l.Stranded row := (hc.sound row hrow).2.resolve_left hne
    obtain ⟨e, he⟩ := initializeAnchors_stranded hrow hs hc.sound
    rw [Ledger.open, he] at h
    cases h

theorem Advances.terminal {s t : RequestState} (h : Advances s t) (hs : s.terminal = true) :
    t.terminal = true := by
  cases h with
  | attest h => rcases h with rfl | rfl <;> cases hs
  | finish _ h => rcases h with rfl | rfl <;> cases hs
  | recover h => rcases h with rfl | rfl <;> cases hs
  | fail => rfl
  | abandon => rfl
  | give_up => rfl
  | authorize => cases hs
  | «import» => rfl
  | adopt => rfl

theorem Advances.given_up {s : RequestState} (h : Advances s .ownerAbandonedOutcomeUnknown) :
    s.terminal = false := by
  generalize ht : RequestState.ownerAbandonedOutcomeUnknown = t at h
  cases h with
  | give_up ha => cases s <;> simp_all [RequestState.ambiguous, RequestState.terminal]
  | finish target _ => cases target <;> cases ht
  | _ => cases ht

theorem Advances.live {s t : RequestState} (h : Advances s t) : s ≠ .ownerAbandonedOutcomeUnknown := by
  rintro rfl
  generalize hs : RequestState.ownerAbandonedOutcomeUnknown = s at h
  cases h with
  | attest h => rcases h with rfl | rfl <;> cases hs
  | finish _ h => rcases h with rfl | rfl <;> cases hs
  | recover h => rcases h with rfl | rfl <;> cases hs
  | fail h => rcases h with rfl | rfl <;> cases hs
  | abandon h => rcases h with rfl | rfl <;> cases hs
  | give_up h => rw [← hs] at h; cases h
  | _ => cases hs

theorem Advances.spent {s t : RequestState} (h : Advances s t) (hp : s ≠ .prepared)
    (ha : s ≠ .authorized) : t ≠ .prepared ∧ t ≠ .authorized := by
  cases h with
  | authorize => exact (hp rfl).elim
  | finish target _ => cases target <;> exact ⟨by simp [Finish.state], by simp [Finish.state]⟩
  | _ => exact ⟨by simp, by simp⟩

theorem getInTx_self (h : l.getInTx requestId = .ok old) : l.getInTx old.requestId = .ok old := by
  rw [(getInTx_mem h).2]
  exact h

theorem Ledger.Updates.step (h : l.Updates requestId l') : l.Step l' [] := by
  rcases h with rfl | ⟨old, new, hold, hm, rfl, r, hr⟩
  · exact .same
  · obtain ⟨hmem, hid⟩ := getInTx_mem hold
    exact .update {
      mem := hmem
      found := getInTx_self hold
      identity := hm.identity
      terminal := hm.state.terminal
      given_up := fun hg => Advances.given_up (hg ▸ hm.state)
      live := hm.state.live
      spent := hm.state.spent
      requests := rfl
      projectDir := rfl
      anchors := fun _ _ => rfl
      read := ⟨r, hid.symm ▸ hr⟩ }

end Steps

section Runs
variable [Patterns] {l l' : Ledger} {requestId : PyStr} {now : Nat} {out : Request × Ledger}
  {url : Option PyStr} {authority : Authority} {token : Uuid} {clicked : List PyStr}

omit [Patterns] in
/-- The step of a dispatch, with the click that it authorises or without it. -/
theorem dispatch_step (h : dispatchCommit l requestId url authority token now = .ok out)
    (hc : clicked = [] ∨ clicked = [requestId]) : l.Step out.2 clicked := by
  obtain ⟨old, raw, hold, hs, _, hl, hread⟩ := dispatchCommit_ok h
  obtain ⟨hmem, hid⟩ := getInTx_mem hold
  have hr : l.Replaces out.2 old (old.dispatched (sha256Text token.text) raw now) := {
      mem := hmem
      found := getInTx_self hold
      identity := rfl
      terminal := fun ht => by rw [hs] at ht; cases ht
      given_up := fun hg => by cases hg
      live := by rw [hs]; simp
      spent := fun _ ha => (ha hs).elim
      requests := by rw [hl]; rfl
      projectDir := by rw [hl]; rfl
      anchors := fun id hne => by
        rw [hl]
        exact anchored_anchors_of_ne (by rwa [hid] at hne)
      read := ⟨out.1, hid.symm ▸ hread⟩ }
  refine .dispatch hr hs rfl ?_ ?_
  · rcases hc with rfl | rfl
    · exact List.nil_subset _
    · rw [hid]
      exact List.Subset.refl _
  · rcases hc with rfl | rfl <;> simp

omit [Patterns] in
theorem torn_step {written : Nat} (h : dispatchTorn l requestId url authority token written = .ok l') :
    l.Step l' [] := by
  unfold dispatchTorn dispatchCas at h
  simp only [↓bind_ok, ↓unless_ok, pure_ok, Prod.exists, Prod.mk.injEq] at h
  obtain ⟨_, _, ⟨_, _, _, _, old, hold, _, _, hs, _, _, rfl, rfl⟩, _, _, hw, rfl⟩ := h
  obtain ⟨_, hw⟩ := writeAnchorOnce_ok hw
  obtain ⟨rfl, rfl⟩ := Prod.mk.inj hw
  have hid := (getInTx_mem hold).2
  rw [← hid] at hold ⊢
  exact .torn (getInTx_mem hold).1 hold (Decidable.not_not.mp hs)

theorem operate_step {op : Operation} (h : op.run l requestId now = .ok out) :
    l.Step out.2 (if op.clicks then [requestId] else []) := by
  cases op with
  | get =>
    obtain ⟨_, _, rfl⟩ := map_ok.mp h
    exact .same
  | authorize _ _ _ => exact (authorize_updates h).step
  | dispatchRead _ =>
    obtain ⟨_, _, rfl⟩ := map_ok.mp h
    exact .same
  | dispatch url authority token => exact dispatch_step h (.inr rfl)
  | submitted _ _ _ _ => exact (submitted_updates h).step
  | finish _ _ _ => exact (finish_updates h).step
  | recover _ _ => exact (recover_updates h).step
  | failNotSubmitted _ _ _ _ => exact (failNotSubmitted_updates h).step
  | abandon _ _ => exact (abandon_updates h).step
  | importRead _ =>
    obtain ⟨_, _, rfl⟩ := map_ok.mp h
    exact .same
  | importCommit => exact (importCommit_updates h).step
  | adopt _ _ => exact (adopt_updates h).step

/-- Everything that an event of any broker can do. -/
theorem run_step {event : Event} (hc : l.Coherent) (h : event.run l = .ok (l', clicked)) :
    l.Step l' clicked := by
  cases event with
  | «open» =>
    obtain ⟨l₁, ho, he⟩ := map_ok.mp h
    obtain ⟨rfl, rfl⟩ := Prod.mk.inj he
    rw [open_ok hc ho]
    exact .same
  | prepareReplay a authority =>
    obtain ⟨_, _, he⟩ := map_ok.mp h
    obtain ⟨rfl, rfl⟩ := Prod.mk.inj he
    exact .same
  | prepare a authority requestId now =>
    obtain ⟨r, hr, he⟩ := map_ok.mp h
    obtain ⟨rfl, rfl⟩ := Prod.mk.inj he
    rcases prepareInsert_ok hr with hl | ⟨row, hi, hl, hread⟩
    · rw [hl]
      exact .same
    · rw [hl] at hread ⊢
      exact .insert hi hread
  | operate requestId now op =>
    obtain ⟨r, hr, he⟩ := map_ok.mp h
    obtain ⟨rfl, rfl⟩ := Prod.mk.inj he
    exact operate_step hr
  | die requestId now url authority token point =>
    obtain ⟨l₁, hd, he⟩ := map_ok.mp h
    obtain ⟨rfl, rfl⟩ := Prod.mk.inj he
    cases point with
    | beforeAnchor =>
      obtain ⟨_, _, rfl⟩ := map_ok.mp hd
      exact .same
    | anchored written => exact torn_step hd
    | committed =>
      obtain ⟨r, hr, rfl⟩ := map_ok.mp hd
      exact dispatch_step hr (.inl rfl)

end Runs
end Danus.Strategy
