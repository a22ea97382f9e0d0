import Danus.Strategy.AdvisorEvidence

/-! Conversation lineages: the requests form a forest, only one of a lineage may be under way, and lineages
share no conversation. -/
namespace Danus.Strategy
open Python Machines Checks

/-- A follow-up and the request it follows, which has its response. -/
structure Extends (row : Request) (p : Predecessor) (q : Request) : Prop where
  id : q.requestId = p.requestId
  context : q.contextId = row.contextId
  root : row.lineageRootRequestId = q.lineageRootRequestId
  depth : row.lineageDepth = q.lineageDepth + 1
  continuable : q.state.continuable = true
  url : q.conversationUrlSha256 = some p.conversationUrlSha256

/-- Not in a state in which the request was certainly never delivered. -/
def Request.live (row : Request) : Bool :=
  row.state != .failedNotSubmitted && row.state != .abandoned

/-- The request is about this conversation: it was observed in it, or it follows a request that was. -/
def Request.converses (row : Request) (urlSha256 : PyStr) : Prop :=
  row.conversationUrlSha256 = some urlSha256 ∨
    row.predecessor.map Predecessor.conversationUrlSha256 = some urlSha256

/-- Two live follow-ups of one request. -/
def Rivals (a b : Request) : Prop :=
  a.live = true ∧ b.live = true ∧ ∃ id, a.predecessor.map Predecessor.requestId = some id ∧
    b.predecessor.map Predecessor.requestId = some id

structure Lineage (rows : List Request) : Prop where
  roots : ∀ row ∈ rows, row.predecessor = none →
    row.lineageRootRequestId = row.requestId ∧ row.lineageDepth = 0
  follows : ∀ earlier row later, rows = earlier ++ row :: later → ∀ p, row.predecessor = some p →
    ∃ q ∈ earlier, Extends row p q
  heads : Unique Rivals rows
  urls : ∀ a ∈ rows, ∀ b ∈ rows, ∀ urlSha256, a.conversationUrlSha256 = some urlSha256 →
    b.conversationUrlSha256 = some urlSha256 → a.lineageRootRequestId = b.lineageRootRequestId

section Forest
variable {rows : List Request} {a b row : Request} {p : Predecessor} {urlSha256 : PyStr}

theorem live_of_continuable (h : row.state.continuable = true) : row.live = true := by
  unfold Request.live
  cases hs : row.state <;> simp_all [RequestState.continuable]

theorem live_of_inConversation (h : row.state.inConversation = true) : row.live = true := by
  unfold Request.live
  cases hs : row.state <;> simp_all [RequestState.inConversation]

theorem not_continuable (h : row.state.inConversation = true) : row.state.continuable = false := by
  cases hs : row.state <;> simp_all [RequestState.inConversation, RequestState.continuable]

theorem Lineage.predecessor (h : Lineage rows) (hrow : row ∈ rows) (hp : row.predecessor = some p) :
    ∃ q ∈ rows, Extends row p q := by
  obtain ⟨earlier, later, he⟩ := List.append_of_mem hrow
  obtain ⟨q, hq, hext⟩ := h.follows earlier row later he p hp
  exact ⟨q, he ▸ List.mem_append_left _ hq, hext⟩

/-- Live requests of one lineage and one depth are the same. -/
theorem Lineage.same_depth (h : Lineage rows) (hn : (rows.map Request.requestId).Nodup) (n : Nat) :
    ∀ a ∈ rows, ∀ b ∈ rows, a.live = true → b.live = true →
      a.lineageRootRequestId = b.lineageRootRequestId → a.lineageDepth = n → b.lineageDepth = n → a = b := by
  induction n with
  | zero =>
    intro a ha b hb _ _ hroot hda hdb
    have hnone : ∀ row ∈ rows, row.lineageDepth = 0 → row.predecessor = none := by
      intro row hrow hd
      cases hp : row.predecessor with
      | none => rfl
      | some p =>
        obtain ⟨q, _, hext⟩ := h.predecessor hrow hp
        have hdepth := hext.depth
        omega
    have hra := (h.roots a ha (hnone a ha hda)).1
    have hrb := (h.roots b hb (hnone b hb hdb)).1
    exact Rows.eq_of_key hn ha hb (hra.symm.trans (hroot.trans hrb))
  | succ n ih =>
    intro a ha b hb hla hlb hroot hda hdb
    have hsome : ∀ row ∈ rows, row.lineageDepth = n + 1 → ∃ p, row.predecessor = some p := by
      intro row hrow hd
      cases hp : row.predecessor with
      | none =>
        have hdepth := (h.roots row hrow hp).2
        omega
      | some p => exact ⟨p, rfl⟩
    obtain ⟨pa, hpa⟩ := hsome a ha hda
    obtain ⟨pb, hpb⟩ := hsome b hb hdb
    obtain ⟨qa, hqa, hexta⟩ := h.predecessor ha hpa
    obtain ⟨qb, hqb, hextb⟩ := h.predecessor hb hpb
    have hq : qa = qb := by
      apply ih qa hqa qb hqb (live_of_continuable hexta.continuable) (live_of_continuable hextb.continuable)
      · exact hexta.root.symm.trans (hroot.trans hextb.root)
      · have hdepth := hexta.depth
        omega
      · have hdepth := hextb.depth
        omega
    refine h.heads a ha b hb ⟨hla, hlb, pa.requestId, by rw [hpa]; rfl, ?_⟩
    rw [hpb, Option.map_some, ← hextb.id, ← hq, hexta.id]

/-- Above every request, its lineage has an answered one at every depth. -/
theorem Lineage.ancestor (h : Lineage rows) (n : Nat) : ∀ row ∈ rows, row.lineageDepth = n → ∀ i < n,
    ∃ q ∈ rows, q.lineageRootRequestId = row.lineageRootRequestId ∧ q.lineageDepth = i ∧
      q.state.continuable = true := by
  induction n with
  | zero =>
    intro row _ _ i hi
    omega
  | succ n ih =>
    intro row hrow hd i hi
    cases hp : row.predecessor with
    | none =>
      have hdepth := (h.roots row hrow hp).2
      omega
    | some p =>
      obtain ⟨q, hq, hext⟩ := h.predecessor hrow hp
      have hdepth := hext.depth
      rcases Nat.lt_or_eq_of_le (Nat.lt_succ_iff.mp hi) with hlt | he
      · obtain ⟨r, hr, hroot, hrest⟩ := ih q hq (by omega) i hlt
        exact ⟨r, hr, hroot.trans hext.root.symm, hrest⟩
      · exact ⟨q, hq, hext.root.symm, by omega, hext.continuable⟩

/-- One request of a lineage at most is under way. -/
theorem Lineage.one_active (h : Lineage rows) (hn : (rows.map Request.requestId).Nodup) (ha : a ∈ rows)
    (hb : b ∈ rows) (hroot : a.lineageRootRequestId = b.lineageRootRequestId)
    (hsa : a.state.inConversation = true) (hsb : b.state.inConversation = true) : a = b := by
  have hnot : ∀ a ∈ rows, ∀ b ∈ rows, a.lineageRootRequestId = b.lineageRootRequestId →
      a.state.inConversation = true → ¬ a.lineageDepth < b.lineageDepth := by
    intro a ha b hb hroot hsa hlt
    obtain ⟨q, hq, hqroot, hqdepth, hqs⟩ := h.ancestor b.lineageDepth b hb rfl a.lineageDepth hlt
    have he : q = a := h.same_depth hn a.lineageDepth q hq a ha (live_of_continuable hqs)
      (live_of_inConversation hsa) (hqroot.trans hroot.symm) hqdepth rfl
    rw [he, not_continuable hsa] at hqs
    cases hqs
  have hdepth : b.lineageDepth = a.lineageDepth := by
    have h1 := hnot a ha b hb hroot hsa
    have h2 := hnot b hb a ha hroot.symm hsb
    omega
  exact h.same_depth hn a.lineageDepth a ha b hb (live_of_inConversation hsa) (live_of_inConversation hsb)
    hroot rfl hdepth

/-- The requests about one conversation are of one lineage. -/
theorem Lineage.conversation_root (h : Lineage rows) (ha : a ∈ rows) (hb : b ∈ rows)
    (hca : a.converses urlSha256) (hcb : b.converses urlSha256) :
    a.lineageRootRequestId = b.lineageRootRequestId := by
  have hobserved : ∀ row ∈ rows, row.converses urlSha256 → ∃ q ∈ rows,
      q.conversationUrlSha256 = some urlSha256 ∧ row.lineageRootRequestId = q.lineageRootRequestId := by
    rintro row hrow (hu | hu)
    · exact ⟨row, hrow, hu, rfl⟩
    · obtain ⟨p, hp, hpu⟩ := Option.map_eq_some_iff.mp hu
      obtain ⟨q, hq, hext⟩ := h.predecessor hrow hp
      exact ⟨q, hq, hext.url.trans (congrArg some hpu), hext.root⟩
  obtain ⟨qa, hqa, hua, hra⟩ := hobserved a ha hca
  obtain ⟨qb, hqb, hub, hrb⟩ := hobserved b hb hcb
  exact hra.trans ((h.urls qa hqa qb hqb urlSha256 hua hub).trans hrb.symm)

end Forest

section Steps
variable {l : Ledger} {a : PrepareArgs} {authority : Authority} {old new row : Request} {op : Operation}

theorem prepareLineage_cases {lineage : Option (Predecessor × PyStr × Nat)}
    (h : prepareLineage l a = .ok lineage) : lineage = none ∨
      ∃ p q, q ∈ l.requests ∧ lineage = some (p, q.lineageRootRequestId, q.lineageDepth + 1) ∧
        q.requestId = p.requestId ∧ q.contextId = a.contextId ∧ q.state.continuable = true ∧
        q.conversationUrlSha256 = some p.conversationUrlSha256 := by
  unfold prepareLineage at h
  cases hc : a.continues with
  | none =>
    rw [hc] at h
    cases h
    exact .inl rfl
  | some c =>
    rw [hc] at h
    simp only [↓bind_ok, ↓unless_ok, pure_ok] at h
    obtain ⟨q, hq, hcontext, hs, hurl, _, rfl⟩ := h
    obtain ⟨hm, hid⟩ := getInTx_mem hq
    exact .inr ⟨_, q, hm, rfl, hid, not_not.mp hcontext, by simpa using hs, not_not.mp hurl⟩

theorem assertLineage_head {p : Predecessor} (h : l.assertLineage row true = .ok ())
    (hp : row.predecessor = some p) : ∀ other ∈ l.requests, other.requestId ≠ row.requestId →
      other.predecessor.map Predecessor.requestId = some p.requestId → other.live = false := by
  intro other ho hne hop
  unfold Ledger.assertLineage at h
  obtain ⟨_, _, h⟩ := bind_ok.mp h
  rw [hp] at h
  obtain ⟨_, _, h⟩ := bind_ok.mp h
  rw [if_pos rfl] at h
  unfold Ledger.assertHead at h
  rw [unless_ok] at h
  have hmiss := any_false h.1 other ho
  rw [hop] at hmiss
  simpa [hne, Request.live] using hmiss

theorem Ledger.Inserted.lineage (h : l.Inserted a authority row) (hl : Lineage l.requests) :
    Lineage (l.requests ++ [row]) := by
  obtain ⟨checkpoint, lineage, requestId, now, hlineage, hrow⟩ := h.made
  have hcases := prepareLineage_cases hlineage
  have hurl : row.conversationUrlSha256 = none := by rw [hrow]; rfl
  refine ⟨fun r hr hp => ?_, fun earlier r later he p hp => ?_, ?_, fun x hx y hy u hux huy => ?_⟩
  · rcases List.mem_append.mp hr with hr | hr
    · exact hl.roots r hr hp
    · rw [List.mem_singleton.mp hr] at hp ⊢
      rcases hcases with hnone | ⟨p, q, _, hsome, _⟩
      · rw [hrow, hnone]
        exact ⟨rfl, rfl⟩
      · rw [hrow, hsome] at hp
        cases hp
  · rcases List.eq_nil_or_concat later with hlast | ⟨front, last, hlast⟩
    · rw [hlast] at he
      obtain ⟨hearlier, hnew⟩ := List.append_inj' he rfl
      have hr : row = r := List.singleton_inj.mp hnew
      rcases hcases with hnone | ⟨p', q, hq, hsome, hid, hcontext, hs, hu⟩
      · rw [← hr, hrow, hnone] at hp
        cases hp
      · rw [← hr, hrow, hsome] at hp
        cases hp
        refine ⟨q, hearlier ▸ hq, ?_⟩
        rw [← hr, hrow, hsome]
        exact ⟨hid, hcontext, rfl, rfl, hs, hu⟩
    · rw [hlast, List.concat_eq_append, ← List.cons_append, ← List.append_assoc] at he
      exact hl.follows earlier r front (List.append_inj' he rfl).1 p hp
  · refine hl.heads.append fun other ho => ?_
    have hfresh := (collides_false h.fresh other ho).1
    have hdead : ∀ id, row.predecessor.map Predecessor.requestId = some id →
        other.predecessor.map Predecessor.requestId = some id → other.live = false := by
      intro id hid hoid
      obtain ⟨p, hp, hpid⟩ := Option.map_eq_some_iff.mp hid
      have hhead := h.head (by rw [hp]; exact fun h => by cases h)
      exact assertLineage_head hhead hp other ho hfresh (hoid.trans (congrArg some hpid.symm))
    constructor
    · rintro ⟨hlive, _, id, hoid, hid⟩
      rw [hdead id hid hoid] at hlive
      cases hlive
    · rintro ⟨_, hlive, id, hid, hoid⟩
      rw [hdead id hid hoid] at hlive
      cases hlive
  · have hold : ∀ z ∈ l.requests ++ [row], z.conversationUrlSha256 = some u → z ∈ l.requests := by
      intro z hz huz
      rcases List.mem_append.mp hz with hz | hz
      · exact hz
      · rw [List.mem_singleton.mp hz, hurl] at huz
        cases huz
    exact hl.urls x (hold x hx hux) y (hold y hy huy) u hux huy

theorem Ledger.Writes.live (h : l.Writes old op new) : old.live = true := by
  unfold Request.live
  cases h with
  | authorize _ hs => simp [hs]
  | dispatch _ _ _ hs => simp [hs]
  | submitted _ hs => rcases hs with hs | hs <;> simp [hs]
  | finish _ _ _ hs _ => rcases hs with hs | hs <;> simp [hs]
  | recover _ hs => rcases hs with hs | hs <;> simp [hs]
  | failNotSubmitted _ hs => rcases hs with hs | hs <;> simp [hs]
  | abandon _ hs =>
    rcases hs with hs | hs | hs
    · cases hst : old.state <;> simp_all [RequestState.ambiguous]
    · simp [hs]
    · simp [hs]
  | importCommit _ hs => simp [hs]
  | adopt _ _ hs => simp [hs]

/-- An answered request stays answered, in its conversation. -/
theorem Ledger.Writes.continuable (h : l.Writes old op new) (hc : old.state.continuable = true) :
    new.state.continuable = true ∧ new.conversationUrlSha256 = old.conversationUrlSha256 := by
  cases h with
  | authorize _ hs => simp [hs, RequestState.continuable] at hc
  | dispatch _ _ _ hs => simp [hs, RequestState.continuable] at hc
  | submitted _ hs => rcases hs with hs | hs <;> simp [hs, RequestState.continuable] at hc
  | finish _ _ _ hs _ => rcases hs with hs | hs <;> simp [hs, RequestState.continuable] at hc
  | recover _ hs => rcases hs with hs | hs <;> simp [hs, RequestState.continuable] at hc
  | failNotSubmitted _ hs => rcases hs with hs | hs <;> simp [hs, RequestState.continuable] at hc
  | abandon _ hs =>
    rcases hs with hs | hs | hs
    · cases hst : old.state <;> simp_all [RequestState.ambiguous, RequestState.continuable]
    · simp [hs, RequestState.continuable] at hc
    · simp [hs, RequestState.continuable] at hc
  | importCommit _ hs => exact ⟨rfl, rfl⟩
  | adopt _ _ hs => exact ⟨rfl, rfl⟩

/-- A conversation is recorded after the check of its delivery only. -/
theorem Ledger.Writes.url (h : l.Writes old op new) : new.conversationUrlSha256 = old.conversationUrlSha256 ∨
    ∃ u, new.conversationUrlSha256 = some u ∧ l.assertDelivery old u true = .ok () := by
  cases h with
  | submitted hl _ => exact .inr ⟨_, rfl, hl⟩
  | finish _ hl _ _ _ => exact .inr ⟨_, rfl, hl⟩
  | _ => exact .inl rfl

/-- A delivery in a conversation that another request was observed in is of that request's lineage. -/
theorem assertDelivery_root {u : PyStr} (hl : Lineage l.requests) (hrow : row ∈ l.requests)
    (h : l.assertDelivery row u true = .ok ()) : ∀ b ∈ l.requests, b.requestId ≠ row.requestId →
      b.conversationUrlSha256 = some u → row.lineageRootRequestId = b.lineageRootRequestId := by
  intro b hb hne hu
  unfold Ledger.assertDelivery at h
  obtain ⟨_, _, h⟩ := bind_ok.mp h
  cases hp : row.predecessor with
  | none =>
    rw [hp] at h
    by_contra _
    have hany : ¬ (true = true ∧ (l.requests.any fun other => other.requestId != row.requestId &&
        other.conversationUrlSha256 == some u) = true) := by
      intro hc
      rw [if_pos hc] at h
      exact throw_ok.mp h
    have hmiss := any_false (fun hc => hany ⟨rfl, hc⟩) b hb
    simp [hne, hu] at hmiss
  | some p =>
    rw [hp] at h
    have hpu : p.conversationUrlSha256 = u := by
      by_contra hc
      simp only [if_pos hc] at h
      exact throw_ok.mp h
    obtain ⟨q, hq, hext⟩ := hl.predecessor hrow hp
    exact hext.root.trans (hl.urls q hq b hb u (hext.url.trans (congrArg some hpu)) hu)

theorem Ledger.Writes.lineage (h : l.Writes old op new) (hc : l.Coherent) (hold : old ∈ l.requests)
    (hl : Lineage l.requests) : Lineage (Rows.set Request.requestId new l.requests) := by
  have hkey : old.requestId = new.requestId := (congrArg Request.requestId h.identity :).symm
  have hpre : new.predecessor = old.predecessor := (congrArg Request.predecessor h.identity :)
  have hroot : new.lineageRootRequestId = old.lineageRootRequestId :=
    (congrArg Request.lineageRootRequestId h.identity :)
  have hdepth : new.lineageDepth = old.lineageDepth := (congrArg Request.lineageDepth h.identity :)
  have hcontext : new.contextId = old.contextId := (congrArg Request.contextId h.identity :)
  -- what the replacement makes of one row
  have hrow : ∀ x ∈ l.requests, (if decide (x.requestId = new.requestId) = true then new else x) = new ∧ x = old ∨
      (if decide (x.requestId = new.requestId) = true then new else x) = x := by
    intro x hx
    by_cases he : x.requestId = new.requestId
    · exact .inl ⟨by simp [he], hc.same hx hold (he.trans hkey.symm)⟩
    · exact .inr (by simp [he])
  have hnew : ∀ b ∈ l.requests, b.requestId ≠ new.requestId → ∀ u, new.conversationUrlSha256 = some u →
      b.conversationUrlSha256 = some u → new.lineageRootRequestId = b.lineageRootRequestId := by
    intro b hb hne u hnu hbu
    rw [hroot]
    rcases h.url with hsame | ⟨u', hu', hdelivery⟩
    · exact hl.urls old hold b hb u (hsame.symm.trans hnu) hbu
    · have he : u' = u := Option.some.inj (hu'.symm.trans hnu)
      rw [he] at hdelivery
      exact assertDelivery_root hl hold hdelivery b hb (by rwa [hkey]) hbu
  refine ⟨fun r hr hp => ?_, fun earlier r later he p hp => ?_, ?_, fun x hx y hy u hux huy => ?_⟩
  · rcases Rows.mem_set_cases hr with rfl | ⟨hr, _⟩
    · rw [hroot, hdepth, ← hkey]
      exact hl.roots old hold (hpre ▸ hp)
    · exact hl.roots r hr hp
  · unfold Rows.set Rows.update at he
    obtain ⟨before, rest, hrows, hearlier, hrest⟩ := List.map_eq_append_iff.mp he
    obtain ⟨x, after, hrest', hx, _⟩ := List.map_eq_cons_iff.mp hrest
    have hxmem : x ∈ l.requests := by
      rw [hrows, hrest']
      exact List.mem_append_right _ List.mem_cons_self
    have hfields : r.predecessor = x.predecessor ∧ r.lineageRootRequestId = x.lineageRootRequestId ∧
        r.lineageDepth = x.lineageDepth ∧ r.contextId = x.contextId := by
      rcases hrow x hxmem with ⟨hnewrow, rfl⟩ | hsame
      · rw [← hx, hnewrow]
        exact ⟨hpre, hroot, hdepth, hcontext⟩
      · rw [← hx, hsame]
        exact ⟨rfl, rfl, rfl, rfl⟩
    obtain ⟨q, hq, hext⟩ := hl.follows before x after (by rw [hrows, hrest']) p (hfields.1 ▸ hp)
    have hqmem : q ∈ l.requests := by
      rw [hrows]
      exact List.mem_append_left _ hq
    refine ⟨_, hearlier ▸ List.mem_map_of_mem hq, ?_⟩
    rcases hrow q hqmem with ⟨hnewrow, rfl⟩ | hsame
    · rw [hnewrow]
      obtain ⟨hcontinuable, hurl⟩ := h.continuable hext.continuable
      exact ⟨hkey.symm.trans hext.id, hcontext.trans (hext.context.trans hfields.2.2.2.symm),
        hfields.2.1.trans (hext.root.trans hroot.symm), by rw [hfields.2.2.1, hext.depth, hdepth],
        hcontinuable, hurl.trans hext.url⟩
    · rw [hsame]
      exact ⟨hext.id, hext.context.trans hfields.2.2.2.symm, hfields.2.1.trans hext.root,
        by rw [hfields.2.2.1, hext.depth], hext.continuable, hext.url⟩
  · refine hl.heads.set hold hkey ?_ ?_
    · rintro b ⟨_, hb, id, hid, hbid⟩
      exact ⟨h.live, hb, id, hpre ▸ hid, hbid⟩
    · rintro b ⟨hb, _, id, hbid, hid⟩
      exact ⟨hb, h.live, id, hbid, hpre ▸ hid⟩
  · rcases Rows.mem_set_cases hx with hxn | ⟨hx', hnx⟩
    · rw [hxn] at hux ⊢
      rcases Rows.mem_set_cases hy with hyn | ⟨hy', hny⟩
      · rw [hyn]
      · exact hnew y hy' hny u hux huy
    · rcases Rows.mem_set_cases hy with hyn | ⟨hy', _⟩
      · rw [hyn] at huy ⊢
        exact (hnew x hx' hnx u huy hux).symm
      · exact hl.urls x hx' y hy' u hux huy

end Steps

section Runs
variable [Patterns] {projectDir : PyStr} {s : Advisor}

theorem Advisor.lineage_of_reachable (h : (Advisor.machine projectDir).Reachable s) :
    s.Safe ∧ Lineage s.ledger.requests := by
  apply h.invariant (I := fun s => s.Safe ∧ Lineage s.ledger.requests)
  · rintro s rfl
    refine ⟨Advisor.initial_safe, fun row hrow => by (cases hrow), fun earlier row later he => ?_,
      fun a ha => by (cases ha), fun a ha => by (cases ha)⟩
    cases earlier <;> cases he
  · rintro s event t ⟨hs, hl⟩ rfl
    constructor
    · rcases Advisor.step_cases hs event with he | ⟨l', clicked, hstep, he⟩
      · rw [he]
        exact hs
      · rw [he]
        exact hs.step hstep
    · rcases Advisor.step_changes hs event with he | ⟨a, authority, requestId, now, row, _, hi, he⟩ |
        ⟨requestId, op, _, old, new, hold, hw, he⟩
      · rw [he]
        exact hl
      · rw [he]
        exact hi.lineage hl
      · rw [he]
        exact hw.lineage hs.ledger (getInTx_mem hold).1 hl

/-- In every reachable ledger: a request without a predecessor is its own lineage's root; any other follows an
earlier request of its context and lineage, one deeper than this; a request has one live follow-up at most; one
request at most about a conversation is under way; and requests of different lineages were observed in
different conversations. -/
theorem lineages_sound (h : (Advisor.machine projectDir).Reachable s) :
    (s.ledger.requests.map Request.requestId).Nodup ∧
    (∀ earlier row later, s.ledger.requests = earlier ++ row :: later →
      row.predecessor = none ∧ row.lineageRootRequestId = row.requestId ∧ row.lineageDepth = 0 ∨
      ∃ p, row.predecessor = some p ∧ ∃ q ∈ earlier, q.requestId = p.requestId ∧
        q.contextId = row.contextId ∧ q.lineageRootRequestId = row.lineageRootRequestId ∧
        row.lineageDepth = q.lineageDepth + 1) ∧
    (∀ a ∈ s.ledger.requests, ∀ b ∈ s.ledger.requests, ∀ id,
      a.predecessor.map Predecessor.requestId = some id → b.predecessor.map Predecessor.requestId = some id →
      a.state ≠ .failedNotSubmitted → a.state ≠ .abandoned → b.state ≠ .failedNotSubmitted →
      b.state ≠ .abandoned → a = b) ∧
    (∀ urlSha256, ∀ a ∈ s.ledger.requests, ∀ b ∈ s.ledger.requests, a.converses urlSha256 →
      b.converses urlSha256 → a.state.inConversation = true → b.state.inConversation = true → a = b) ∧
    ∀ a ∈ s.ledger.requests, ∀ b ∈ s.ledger.requests, a.lineageRootRequestId ≠ b.lineageRootRequestId →
      a.conversationUrlSha256 ≠ none → a.conversationUrlSha256 ≠ b.conversationUrlSha256 := by
  obtain ⟨hs, hl⟩ := Advisor.lineage_of_reachable h
  refine ⟨hs.ledger.requestIds, fun earlier row later he => ?_, fun a ha b hb id hpa hpb ha1 ha2 hb1 hb2 => ?_,
    fun urlSha256 a ha b hb hca hcb hsa hsb => ?_, fun a ha b hb hroot hne hsame => ?_⟩
  · cases hp : row.predecessor with
    | none =>
      have hrow : row ∈ s.ledger.requests := by
        rw [he]
        exact List.mem_append_right _ List.mem_cons_self
      exact .inl ⟨rfl, hl.roots row hrow hp⟩
    | some p =>
      obtain ⟨q, hq, hext⟩ := hl.follows earlier row later he p hp
      exact .inr ⟨p, rfl, q, hq, hext.id, hext.context, hext.root.symm, hext.depth⟩
  · exact hl.heads a ha b hb ⟨by simp [Request.live, ha1, ha2], by simp [Request.live, hb1, hb2], id, hpa, hpb⟩
  · exact hl.one_active hs.ledger.requestIds ha hb (hl.conversation_root ha hb hca hcb) hsa hsb
  · obtain ⟨u, hu⟩ := Option.ne_none_iff_exists'.mp hne
    exact hroot (hl.urls a ha b hb u hu (hsame ▸ hu))

end Runs

end Danus.Strategy
