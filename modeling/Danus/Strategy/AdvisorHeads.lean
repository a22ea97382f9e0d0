import Danus.Strategy.AdvisorLineage
import Danus.Strategy.RawOutput

/-! What the checks of a request's lineage find in every ledger that brokers can reach. -/
namespace Danus.Strategy
open Python Machines Checks

/-- What the checks of a request's own lineage and of its predecessor find in every ledger. -/
structure Traced (rows : List Request) : Prop where
  ids : ∀ row ∈ rows, safeId row.requestId "request id" = .ok ()
  fields : ∀ row ∈ rows, Ledger.assertLineageFields row = .ok ()
  prompts : ∀ row ∈ rows, ∀ p, row.predecessor = some p → ∀ q ∈ rows, q.requestId = p.requestId →
    q.promptSha256 ≠ row.promptSha256

section Rows
variable {l : Ledger} {a : PrepareArgs} {authority : Authority} {old new row : Request} {op : Operation}

theorem utf8Length_ascii {s : PyStr} (h : ∀ c ∈ s, c.toNat < 0x80) : utf8Length s = s.length := by
  induction s with
  | nil => rfl
  | cons c s ih =>
    rw [Json.utf8Length_cons_ascii (h c List.mem_cons_self), ih fun d hd => h d (List.mem_cons_of_mem _ hd),
      List.length_cons]

theorem safeId_uuid (id : Uuid) : safeId id.text "request id" = .ok () := by
  obtain ⟨hlen, hchars⟩ := id.shape
  have hcode : ∀ c ∈ id.text, 33 ≤ c.toNat ∧ c.toNat < 127 := by
    intro c hc
    rcases hchars c hc with h | rfl
    · have hb : (48 ≤ c.toNat ∧ c.toNat ≤ 57) ∨ (97 ≤ c.toNat ∧ c.toNat ≤ 102) := by
        simpa [isHex, Char.le_def, UInt32.le_iff_toNat_le] using h
      omega
    · decide
  have hstrip : strip id.text = id.text := by
    refine strip_of_noSpace fun c hc => ?_
    have hb := hcode c hc
    simp only [isSpace, Bool.or_eq_false_iff, Bool.and_eq_false_iff, decide_eq_false_iff_not, beq_eq_false_iff_ne]
    omega
  have hbytes : utf8Length id.text = 36 := by
    rw [← hlen]
    exact utf8Length_ascii fun c hc => by have hb := hcode c hc; omega
  have hne : id.text ≠ [] := by
    intro he
    rw [he] at hlen
    cases hlen
  have hnul : id.text.contains (Char.ofNat 0) = false := by
    by_contra hm
    have hb := hcode _ (List.contains_iff_mem.mp (by simpa using hm))
    exact absurd hb.1 (by decide)
  unfold safeId validateText
  rw [hstrip, if_neg hne, if_neg (by omega)]
  refine Checks.bind_ok.mpr ⟨_, rfl, ?_⟩
  rw [hnul]
  rfl

theorem assertLineageFields_identity (h : new.identity = old.identity) :
    Ledger.assertLineageFields new = Ledger.assertLineageFields old := by
  show Ledger.assertLineageFields new.identity = Ledger.assertLineageFields old.identity
  rw [h]

theorem assertLineage_fields {head : Bool} (h : l.assertLineage row head = .ok ()) :
    Ledger.assertLineageFields row = .ok () := by
  obtain ⟨_, hf, _⟩ := Checks.bind_ok.mp h
  exact hf

theorem assertLineage_prompt {head : Bool} {p : Predecessor} (h : l.assertLineage row head = .ok ())
    (hp : row.predecessor = some p) : ∃ q ∈ l.requests, q.requestId = p.requestId ∧
      q.promptSha256 ≠ row.promptSha256 := by
  unfold Ledger.assertLineage at h
  obtain ⟨_, _, h⟩ := Checks.bind_ok.mp h
  rw [hp] at h
  obtain ⟨_, h, _⟩ := Checks.bind_ok.mp h
  unfold Ledger.assertPredecessor at h
  simp only [↓Checks.bind_ok, ↓unless_ok] at h
  obtain ⟨q, hq, _, _, _, hne, _⟩ := h
  obtain ⟨hmem, hid⟩ := getInTx_mem hq
  exact ⟨q, hmem, hid, hne⟩

theorem Ledger.Inserted.traced (h : l.Inserted a authority row)
    (hn : (l.requests.map Request.requestId).Nodup) (hl : Lineage l.requests) (ht : Traced l.requests) :
    Traced (l.requests ++ [row]) := by
  obtain ⟨checkpoint, lineage, requestId, now, hlineage, hrow⟩ := h.made
  have hfields : Ledger.assertLineageFields row = .ok () := by
    by_cases hp : row.predecessor = none
    · have hnone : lineage = none := by
        rw [hrow] at hp
        exact Option.map_eq_none_iff.mp hp
      rw [hrow, hnone]
      unfold Ledger.assertLineageFields
      exact unless_ok.mpr ⟨not_not.mpr rfl, unless_throw_ok.mpr ⟨not_not.mpr rfl, rfl⟩⟩
    · exact assertLineage_fields (h.head hp)
  refine ⟨fun r hr => ?_, fun r hr => ?_, fun r hr p hp q hq hid => ?_⟩
  · rcases List.mem_append.mp hr with hr | hr
    · exact ht.ids r hr
    · rw [List.mem_singleton.mp hr, hrow]
      exact safeId_uuid requestId
  · rcases List.mem_append.mp hr with hr | hr
    · exact ht.fields r hr
    · rw [List.mem_singleton.mp hr]
      exact hfields
  · rcases List.mem_append.mp hr with hr | hr
    · obtain ⟨q', hq', hext⟩ := hl.predecessor hr hp
      rcases List.mem_append.mp hq with hq | hq
      · exact ht.prompts r hr p hp q hq hid
      · rw [List.mem_singleton.mp hq] at hid
        exact ((collides_false h.fresh q' hq').1 (hext.id.trans hid.symm)).elim
    · rw [List.mem_singleton.mp hr] at hp ⊢
      have hhead := h.head (by rw [hp]; exact fun h => by cases h)
      obtain ⟨q', hq', hid', hne⟩ := assertLineage_prompt hhead hp
      rcases List.mem_append.mp hq with hq | hq
      · rwa [Rows.eq_of_key hn hq hq' (hid.trans hid'.symm)]
      · rw [List.mem_singleton.mp hq] at hid
        exact ((collides_false h.fresh q' hq').1 (hid'.trans hid.symm)).elim

theorem Ledger.Writes.traced (h : l.Writes old op new) (hold : old ∈ l.requests) (ht : Traced l.requests) :
    Traced (Rows.set Request.requestId new l.requests) := by
  -- every row has the identity of a row that was there
  have hrow : ∀ r ∈ Rows.set Request.requestId new l.requests, ∃ r' ∈ l.requests, r.identity = r'.identity := by
    intro r hr
    rcases Rows.mem_set_cases hr with rfl | ⟨hr, _⟩
    · exact ⟨old, hold, h.identity⟩
    · exact ⟨r, hr, rfl⟩
  refine ⟨fun r hr => ?_, fun r hr => ?_, fun r hr p hp q hq hid => ?_⟩
  · obtain ⟨r', hr', he⟩ := hrow r hr
    have hid : r.requestId = r'.requestId := (congrArg Request.requestId he :)
    rw [hid]
    exact ht.ids r' hr'
  · obtain ⟨r', hr', he⟩ := hrow r hr
    rw [assertLineageFields_identity he]
    exact ht.fields r' hr'
  · obtain ⟨r', hr', he⟩ := hrow r hr
    obtain ⟨q', hq', heq⟩ := hrow q hq
    have hr2 : r'.predecessor = some p := (congrArg Request.predecessor he :).symm.trans hp
    have hq2 : q'.requestId = p.requestId := (congrArg Request.requestId heq :).symm.trans hid
    have hprompt : r.promptSha256 = r'.promptSha256 := (congrArg Request.promptSha256 he :)
    have hprompt' : q.promptSha256 = q'.promptSha256 := (congrArg Request.promptSha256 heq :)
    rw [hprompt, hprompt']
    exact ht.prompts r' hr' p hr2 q' hq' hq2

end Rows

/-- What every run of brokers keeps of the ledger. -/
structure Advisor.Sound (s : Advisor) : Prop where
  safe : s.Safe
  lineage : Lineage s.ledger.requests
  traced : Traced s.ledger.requests
  apart : s.ledger.Apart

section Runs
variable [Patterns] {projectDir : PyStr} {s : Advisor} {row : Request}

theorem Advisor.sound_of_reachable (h : (Advisor.machine projectDir).Reachable s) : s.Sound := by
  have key : s.Safe ∧ Lineage s.ledger.requests ∧ Traced s.ledger.requests ∧ s.ledger.Apart := by
    apply h.invariant (I := fun s => s.Safe ∧ Lineage s.ledger.requests ∧ Traced s.ledger.requests ∧ s.ledger.Apart)
    · rintro s rfl
      refine ⟨Advisor.initial_safe, ⟨fun row hrow => by (cases hrow), fun earlier row later he => ?_,
        fun a ha => by (cases ha), fun a ha => by (cases ha)⟩, ⟨?_, ?_, ?_⟩, ?_, ?_⟩
      · cases earlier <;> cases he
      all_goals
        intro row hrow
        cases hrow
    · rintro s event t ⟨hs, hl, ht, ha⟩ rfl
      refine ⟨hs.next event, ?_, ?_, (Advisor.step_apart hs ha event).1⟩
      all_goals
        rcases Advisor.step_changes hs event with he | ⟨a, authority, requestId, now, row, _, hi, he⟩ |
          ⟨requestId, op, _, old, new, hold, hw, he⟩
      · rw [he]
        exact hl
      · rw [he]
        exact hi.lineage hl
      · rw [he]
        exact hw.lineage hs.ledger (getInTx_mem hold).1 hl
      · rw [he]
        exact ht
      · rw [he]
        exact hi.traced hs.ledger.requestIds hl ht
      · rw [he]
        exact hw.traced (getInTx_mem hold).1 ht
  exact ⟨key.1, key.2.1, key.2.2.1, key.2.2.2⟩

omit [Patterns] in
/-- A read finds every request but one whose dispatch has died. -/
theorem Advisor.Sound.read (hs : s.Sound) (hrow : row ∈ s.ledger.requests)
    (ha : row.state = .authorized → s.ledger.anchors row.requestId = none) :
    s.ledger.getInTx row.requestId = .ok row := by
  obtain ⟨hi, hanchor⟩ := hs.safe.ledger.sound row hrow
  refine getInTx_ok.mpr ⟨hs.traced.ids row hrow, ?_, hi, ?_⟩
  · exact (Rows.find_key hs.safe.ledger.requestIds).mpr ⟨hrow, rfl⟩
  · rcases hanchor with hanchor | ⟨hstate, _, _, hne⟩
    · exact hanchor
    · exact (hne (ha hstate)).elim

omit [Patterns] in
/-- The lineage of every request stays coherent. -/
theorem Advisor.Sound.assertLineage (hs : s.Sound) (hrow : row ∈ s.ledger.requests) :
    s.ledger.assertLineage row false = .ok () := by
  unfold Ledger.assertLineage
  refine Checks.bind_ok.mpr ⟨(), hs.traced.fields row hrow, ?_⟩
  cases hp : row.predecessor with
  | none => rfl
  | some p =>
    obtain ⟨q, hq, hext⟩ := hs.lineage.predecessor hrow hp
    have hread := hs.read hq fun hstate => by
      have hc := hext.continuable
      rw [hstate] at hc
      cases hc
    refine Checks.bind_ok.mpr ⟨(), ?_, rfl⟩
    unfold Ledger.assertPredecessor
    refine Checks.bind_ok.mpr ⟨q, hext.id ▸ hread, unless_ok.mpr ⟨not_not.mpr hext.context, ?_⟩⟩
    refine unless_ok.mpr ⟨by simp [hext.continuable], unless_ok.mpr ⟨not_not.mpr hext.url, ?_⟩⟩
    refine unless_ok.mpr ⟨hs.traced.prompts row hrow p hp q hq hext.id, ?_⟩
    exact unless_ok.mpr ⟨not_not.mpr hext.root, unless_throw_ok.mpr ⟨not_not.mpr hext.depth, rfl⟩⟩

end Runs

section Heads
variable {l : Ledger} {s : Advisor} {row : Request} {p : Predecessor}

theorem assertHead_iff : l.assertHead row p = .ok () ↔
    (∀ other ∈ l.requests, other.requestId ≠ row.requestId →
      other.predecessor.map Predecessor.requestId = some p.requestId → other.live = false) ∧
    ∀ other ∈ l.requests, other.requestId ≠ row.requestId → other.converses p.conversationUrlSha256 →
      other.state.inConversation = false := by
  unfold Ledger.assertHead
  rw [unless_ok, unless_throw_ok]
  constructor
  · rintro ⟨hrivals, hactive, _⟩
    refine ⟨fun other ho hne hp => ?_, fun other ho hne hc => ?_⟩
    · have hmiss := any_false hrivals other ho
      rw [hp] at hmiss
      simpa [hne, Request.live] using hmiss
    · have hmiss := any_false hactive other ho
      rcases hc with hc | hc
      · simpa [hne, hc] using hmiss
      · rw [hc] at hmiss
        simpa [hne] using hmiss
  · rintro ⟨hrivals, hactive⟩
    refine ⟨fun hany => ?_, fun hany => ?_, rfl⟩
    · obtain ⟨other, ho, hh⟩ := List.any_eq_true.mp hany
      simp only [Bool.and_eq_true, beq_iff_eq, bne_iff_ne] at hh
      have hdead := hrivals other ho hh.1.1.2 hh.1.1.1
      simp [Request.live, hh.1.2, hh.2] at hdead
    · obtain ⟨other, ho, hh⟩ := List.any_eq_true.mp hany
      simp only [Bool.and_eq_true, Bool.or_eq_true, beq_iff_eq, bne_iff_ne] at hh
      rw [hactive other ho hh.1.1 hh.1.2] at hh
      cases hh.2

theorem assertLineage_head_iff : l.assertLineage row true = .ok () ↔
    l.assertLineage row false = .ok () ∧ ∀ p, row.predecessor = some p → l.assertHead row p = .ok () := by
  constructor
  · intro h
    refine ⟨assertLineage_without_head h, fun p hp => ?_⟩
    unfold Ledger.assertLineage at h
    obtain ⟨_, _, h⟩ := Checks.bind_ok.mp h
    rw [hp] at h
    obtain ⟨_, _, h⟩ := Checks.bind_ok.mp h
    rwa [if_pos rfl] at h
  · rintro ⟨h, hhead⟩
    unfold Ledger.assertLineage at h ⊢
    obtain ⟨_, hf, h⟩ := Checks.bind_ok.mp h
    refine Checks.bind_ok.mpr ⟨(), hf, ?_⟩
    cases hp : row.predecessor with
    | none => rfl
    | some p =>
      rw [hp] at h
      obtain ⟨_, hpre, _⟩ := Checks.bind_ok.mp h
      refine Checks.bind_ok.mpr ⟨(), hpre, ?_⟩
      rw [if_pos rfl]
      exact hhead p hp

theorem assertDelivery_of {u : PyStr} {head : Bool} (hl : l.assertLineage row head = .ok ())
    (hu : ∀ p, row.predecessor = some p → p.conversationUrlSha256 = u)
    (hnew : row.predecessor = none → head = true → ∀ other ∈ l.requests, other.requestId ≠ row.requestId →
      other.conversationUrlSha256 ≠ some u) : l.assertDelivery row u head = .ok () := by
  unfold Ledger.assertDelivery
  refine Checks.bind_ok.mpr ⟨(), hl, ?_⟩
  cases hp : row.predecessor with
  | some p => exact unless_throw_ok.mpr ⟨not_not.mpr (hu p hp), rfl⟩
  | none =>
    refine unless_throw_ok.mpr ⟨fun hany => ?_, rfl⟩
    obtain ⟨other, ho, hh⟩ := List.any_eq_true.mp hany.2
    simp only [Bool.and_eq_true, beq_iff_eq, bne_iff_ne] at hh
    exact hnew hp hany.1 other ho hh.1 hh.2

/-- A request under way is the head of its conversation. -/
theorem Advisor.Sound.head_active (hs : s.Sound) (hrow : row ∈ s.ledger.requests)
    (hactive : row.state.inConversation = true) (hp : row.predecessor = some p) :
    s.ledger.assertHead row p = .ok () := by
  refine assertHead_iff.mpr ⟨fun other ho hne hid => ?_, fun other ho hne hc => ?_⟩
  · by_contra hlive
    have hrivals : Rivals other row := ⟨by simpa using hlive, live_of_inConversation hactive,
      p.requestId, hid, by rw [hp]; rfl⟩
    exact hne (congrArg Request.requestId (hs.lineage.heads other ho row hrow hrivals))
  · by_contra hstate
    have hc' : row.converses p.conversationUrlSha256 := .inr (by rw [hp]; rfl)
    have hsame := hs.lineage.one_active hs.safe.ledger.requestIds ho hrow
      (hs.lineage.conversation_root ho hrow hc hc') (by simpa using hstate) hactive
    exact hne (congrArg Request.requestId hsame)

/-- The predecessor's conversation has moved on exactly where the predecessor has a live follow-up. -/
theorem Advisor.Sound.head_closed (hs : s.Sound) (hrow : row ∈ s.ledger.requests) (hdead : row.live = false)
    (hp : row.predecessor = some p) : s.ledger.assertHead row p = .ok () ↔
      ∀ other ∈ s.ledger.requests, other.predecessor.map Predecessor.requestId = some p.requestId →
        other.live = false := by
  have hn := hs.safe.ledger.requestIds
  rw [assertHead_iff]
  constructor
  · rintro ⟨hrivals, _⟩ other ho hid
    by_cases hne : other.requestId = row.requestId
    · rw [hs.safe.ledger.same ho hrow hne]
      exact hdead
    · exact hrivals other ho hne hid
  · intro hrivals
    refine ⟨fun other ho _ hid => hrivals other ho hid, fun other ho _ hc => ?_⟩
    by_contra hstate
    rw [Bool.not_eq_false] at hstate
    have hlive := live_of_inConversation hstate
    obtain ⟨q, hq, hext⟩ := hs.lineage.predecessor hrow hp
    have hlq := live_of_continuable hext.continuable
    have hroot : other.lineageRootRequestId = q.lineageRootRequestId :=
      hs.lineage.conversation_root ho hq hc (.inl hext.url)
    -- above the predecessor the other request would be answered already
    have hdeep : q.lineageDepth < other.lineageDepth := by
      by_contra hle
      obtain ⟨r, hr, hrroot, hrdepth, hrs⟩ : ∃ r ∈ s.ledger.requests,
          r.lineageRootRequestId = q.lineageRootRequestId ∧ r.lineageDepth = other.lineageDepth ∧
            r.state.continuable = true := by
        rcases Nat.lt_or_eq_of_le (Nat.le_of_not_lt hle) with hlt | he
        · exact hs.lineage.ancestor q.lineageDepth q hq rfl _ hlt
        · exact ⟨q, hq, rfl, he.symm, hext.continuable⟩
      have he : r = other := hs.lineage.same_depth hn _ r hr other ho (live_of_continuable hrs) hlive
        (hrroot.trans hroot.symm) hrdepth rfl
      rw [he, not_continuable hstate] at hrs
      cases hrs
    -- and below it, its lineage passes through a live follow-up of the predecessor
    obtain ⟨c, hcm, hcroot, hcdepth, hclive⟩ : ∃ c ∈ s.ledger.requests,
        c.lineageRootRequestId = q.lineageRootRequestId ∧ c.lineageDepth = q.lineageDepth + 1 ∧
          c.live = true := by
      rcases Nat.lt_or_eq_of_le (Nat.succ_le_of_lt hdeep) with hlt | he
      · obtain ⟨c, hcm, hcroot, hcdepth, hcs⟩ :=
          hs.lineage.ancestor other.lineageDepth other ho rfl (q.lineageDepth + 1) hlt
        exact ⟨c, hcm, hcroot.trans hroot, hcdepth, live_of_continuable hcs⟩
      · exact ⟨other, ho, hroot, he.symm, hlive⟩
    cases hpc : c.predecessor with
    | none =>
      have hzero := (hs.lineage.roots c hcm hpc).2
      omega
    | some pc =>
      obtain ⟨qc, hqc, hextc⟩ := hs.lineage.predecessor hcm hpc
      have hdepth := hextc.depth
      have he : qc = q := hs.lineage.same_depth hn _ qc hqc q hq (live_of_continuable hextc.continuable) hlq
        (hextc.root.symm.trans hcroot) (by omega) rfl
      have hid : pc.requestId = p.requestId := by rw [← hextc.id, he, hext.id]
      have hdeadc := hrivals c hcm (by rw [hpc, Option.map_some, hid])
      rw [hdeadc] at hclive
      cases hclive

/-- No other request was observed in the conversation of a new chat that is under way. -/
theorem Advisor.Sound.chat_alone (hs : s.Sound) (hrow : row ∈ s.ledger.requests)
    (hactive : row.state.inConversation = true) (hp : row.predecessor = none) {u : PyStr}
    (hu : row.conversationUrlSha256 = some u) : ∀ other ∈ s.ledger.requests,
      other.requestId ≠ row.requestId → other.conversationUrlSha256 ≠ some u := by
  intro other ho hne hou
  have hroot := hs.lineage.urls other ho row hrow u hou hu
  have hn := hs.safe.ledger.requestIds
  obtain ⟨hself, hdepth⟩ := hs.lineage.roots row hrow hp
  cases hop : other.predecessor with
  | none => exact hne ((hs.lineage.roots other ho hop).1.symm.trans (hroot.trans hself))
  | some po =>
    obtain ⟨q, _, hext⟩ := hs.lineage.predecessor ho hop
    have hpos := hext.depth
    obtain ⟨r, hr, hrroot, hrdepth, hrs⟩ :=
      hs.lineage.ancestor other.lineageDepth other ho rfl 0 (by omega)
    have he : r = row := hs.lineage.same_depth hn 0 r hr row hrow (live_of_continuable hrs)
      (live_of_inConversation hactive) (hrroot.trans hroot) hrdepth hdepth
    rw [he, not_continuable hactive] at hrs
    cases hrs

end Heads

end Danus.Strategy
