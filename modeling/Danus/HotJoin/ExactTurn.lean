import Danus.HotJoin.Broker
import Danus.Lib.Dict

/-! What a transaction on a hot-join ledger leaves: no message is lost, a message bound to one turn is never
queued, and a message is queued only by a broker's receipt. -/
namespace Danus.HotJoin
open Python Machines Checks

/-- Bound to a thread and a turn. -/
def Message.exact (m : Message) : Bool := m.expectedThreadId.isSome || m.expectedTurnId.isSome

/-- A message whose delivery waits for the next turn. -/
structure Ledger.Queued (l : Ledger) (m : Message) (d : Delivery) : Prop where
  message : m ∈ l.messages
  delivery : d ∈ l.deliveries
  id : d.messageId = m.messageId
  state : d.state = .queued

structure Ledger.Sound (l : Ledger) : Prop where
  ids : (l.messages.map (·.messageId)).Nodup
  deliveryIds : (l.deliveries.map (·.messageId)).Nodup
  targets : ∀ m ∈ l.messages, validateTarget m.target = .ok ()
  exact : ∀ m ∈ l.messages, m.exact = true → m.kind = .message ∧ m.fallback = .fail ∧
    ∃ threadId turnId, m.expectedThreadId = some threadId ∧ m.expectedTurnId = some turnId
  queued : ∀ m d, l.Queued m d → m.exact = false

variable {l l' l'' : Ledger} {m : Message} {d : Delivery} {row : Row} {now : Nat}
  {target threadId turnId : PyStr}

/-- What every transaction leaves. -/
structure Ledger.Follows (l l' : Ledger) : Prop where
  kept : ∀ m ∈ l.messages, m ∈ l'.messages
  sound : l'.Sound

/-- A transaction that queues no message, and maps no worker to another thread. -/
structure Ledger.Calm (l l' : Ledger) : Prop extends l.Follows l' where
  queued : ∀ m d, l'.Queued m d → l.Queued m d
  threads : ∀ target threadId, l'.workerThreads.lookup target = some threadId →
    l.workerThreads.lookup target = some threadId

namespace Ledger

theorem Sound.calm (h : l.Sound) : l.Calm l :=
  ⟨⟨fun _ hm => hm, h⟩, fun _ _ hq => hq, fun _ _ ht => ht⟩

theorem Calm.trans (h : l.Calm l') (h' : l'.Calm l'') : l.Calm l'' :=
  ⟨⟨fun m hm => h'.kept m (h.kept m hm), h'.sound⟩, fun m d hq => h.queued m d (h'.queued m d hq),
    fun target threadId ht => h.threads target threadId (h'.threads target threadId ht)⟩

/-- Only threads and intents changed. -/
theorem Sound.same (h : l.Sound) (l' : Ledger) (hm : l'.messages = l.messages) (hd : l'.deliveries = l.deliveries) :
    l.Follows l' ∧ ∀ m d, l'.Queued m d → l.Queued m d := by
  have hq : ∀ m d, l'.Queued m d → l.Queued m d := by
    intro m d hq
    exact ⟨hm ▸ hq.message, hd ▸ hq.delivery, hq.id, hq.state⟩
  exact ⟨⟨fun m h => hm ▸ h, hm ▸ h.ids, hd ▸ h.deliveryIds, hm ▸ h.targets, hm ▸ h.exact,
    fun m d h' => h.queued m d (hq m d h')⟩, hq⟩

theorem Sound.intents (h : l.Sound) (intents : List RoundIntent) : l.Calm { l with intents := intents } := by
  obtain ⟨hf, hq⟩ := h.same { l with intents := intents } rfl rfl
  exact ⟨hf, hq, fun _ _ ht => ht⟩

/-- A worker loses its thread. -/
theorem Sound.unmap (h : l.Sound) (target : PyStr) :
    l.Calm { l with workerThreads := l.workerThreads.filter fun p => decide (p.1 ≠ target) } := by
  obtain ⟨hf, hq⟩ := h.same
    { l with workerThreads := l.workerThreads.filter fun p => decide (p.1 ≠ target) } rfl rfl
  refine ⟨hf, hq, fun worker threadId ht => ?_⟩
  rw [lookup_filter_ne] at ht
  split_ifs at ht
  exact ht

variable {p : Delivery → Bool} {f : Delivery → Delivery}

/-- Deliveries rewritten in place, as long as no exact message gets queued. -/
theorem Sound.rewrite (h : l.Sound) (hf : ∀ d, (f d).messageId = d.messageId)
    (hq : ∀ m d, m ∈ l.messages → d ∈ l.deliveries → p d = true → d.messageId = m.messageId →
      (f d).state = .queued → m.exact = false) :
    l.Follows { l with deliveries := Rows.update p f l.deliveries } := by
  refine ⟨fun _ hm => hm, h.ids, ?_, h.targets, h.exact, fun m d hd => ?_⟩
  · rw [Rows.map_update fun d _ => hf d]
    exact h.deliveryIds
  · rcases Rows.mem_update_cases hd.delivery with ⟨hold, _⟩ | ⟨d, hold, hp, rfl⟩
    · exact h.queued m d ⟨hd.message, hold, hd.id, hd.state⟩
    · exact hq m d hd.message hold hp ((hf d).symm.trans hd.id) hd.state

theorem Sound.rewrite_calm (h : l.Sound) (hf : ∀ d, (f d).messageId = d.messageId)
    (hq : ∀ d, (f d).state ≠ .queued) :
    l.Calm { l with deliveries := Rows.update p f l.deliveries } := by
  refine ⟨h.rewrite hf fun m d _ _ _ _ hs => (hq d hs).elim, fun m d hd => ?_, fun _ _ ht => ht⟩
  rcases Rows.mem_update_cases hd.delivery with ⟨hold, _⟩ | ⟨d, _, _, rfl⟩
  · exact ⟨hd.message, hold, hd.id, hd.state⟩
  · exact (hq d hd.state).elim

end Ledger

theorem Record.hits_id {r : Record} (h : r.hits d = true) : d.messageId = r.messageId := by
  simp only [Record.hits, Bool.and_eq_true, decide_eq_true_eq] at h
  exact h.1.1.1.1

theorem recordInTx_ok {r : Record} (h : l.recordInTx r now = .ok l') :
    l' = { l with deliveries := Rows.update r.hits (r.write now) l.deliveries } := by
  unfold Ledger.recordInTx at h
  split at h
  · cases h
    rfl
  · cases h

theorem recordInTx_calm {r : Record} (hl : l.Sound) (hs : r.state ≠ .queued)
    (h : l.recordInTx r now = .ok l') : l.Calm l' := by
  rw [recordInTx_ok h]
  exact hl.rewrite_calm (fun _ => rfl) fun _ => hs

/-- A message that is queued now was queued before, or it is the one the receipt is about. -/
theorem recordInTx_queued {r : Record} (hl : l.Sound)
    (hr : ∀ m ∈ l.messages, m.messageId = r.messageId → m.exact = false)
    (h : l.recordInTx r now = .ok l') :
    l.Follows l' ∧ ∀ m d, l'.Queued m d → l.Queued m d ∨
      m.messageId = r.messageId ∧ ∀ threadId, r.threadId = some threadId → d.threadId = some threadId := by
  rw [recordInTx_ok h]
  have hid : ∀ {m : Message} {d}, r.hits d = true → d.messageId = m.messageId →
      m.messageId = r.messageId := fun hp hd => hd.symm.trans (Record.hits_id hp)
  refine ⟨hl.rewrite (fun _ => rfl) fun m d hm _ hp hd _ => hr m hm (hid hp hd), fun m d hd => ?_⟩
  rcases Rows.mem_update_cases hd.delivery with ⟨hold, _⟩ | ⟨d, hold, hp, rfl⟩
  · exact .inl ⟨hd.message, hold, hd.id, hd.state⟩
  · refine .inr ⟨hid hp hd.id, fun threadId ht => ?_⟩
    simp only [Record.hits, Bool.and_eq_true] at hp
    have hadmits := hp.1.2
    rw [ht] at hadmits
    show d.threadId.or r.threadId = _
    cases hthread : d.threadId with
    | none => exact ht
    | some bound =>
      rw [hthread] at hadmits
      simpa [admits] using hadmits

/-- One transaction that records several deliveries. -/
theorem foldlM_calm {f : Ledger → Delivery → Except HotJoinError Ledger}
    (hf : ∀ l d l', l.Sound → f l d = .ok l' → l.Calm l') (ds : List Delivery) (hl : l.Sound)
    (h : ds.foldlM f l = .ok l') : l.Calm l' := by
  induction ds generalizing l with
  | nil =>
    rw [List.foldlM_nil, pure_ok] at h
    subst h
    exact hl.calm
  | cons d ds ih =>
    rw [List.foldlM_cons, bind_ok] at h
    obtain ⟨mid, hmid, hrest⟩ := h
    have h1 := hf l d mid hl hmid
    exact h1.trans (ih h1.sound hrest)

theorem expireClaims_calm (hl : l.Sound) (h : l.expireClaims target now = .ok l') : l.Calm l' := by
  refine foldlM_calm (fun l d l' hl h => ?_) _ hl h
  exact recordInTx_calm hl (fun hs => by cases hs) h

theorem completeTurn_calm {status : PyStr} (hl : l.Sound)
    (h : completeTurn l threadId turnId status now = .ok l') : l.Calm l' := by
  refine foldlM_calm (fun l d l' hl h => ?_) _ hl h
  exact recordInTx_calm hl (fun hs => by cases hs) h

/-- The selection's order: no message of the list is earlier than its first one. -/
theorem first_mem {ms : List Message} (h : ClaimArgs.first ms = some m) : m ∈ ms := by
  cases ms with
  | nil => cases h
  | cons a ms =>
    have hfold : ∀ (ms : List Message) (a : Message),
        ms.foldl (fun a b => if ClaimArgs.earlier a b then a else b) a ∈ a :: ms := by
      intro ms
      induction ms with
      | nil =>
        intro a
        exact List.mem_cons_self
      | cons b ms ih =>
        intro a
        rw [List.foldl_cons]
        have hm := ih (if ClaimArgs.earlier a b then a else b)
        split_ifs at hm ⊢
        · rcases List.mem_cons.mp hm with he | hm
          · rw [he]
            exact List.mem_cons_self
          · exact List.mem_cons_of_mem _ (List.mem_cons_of_mem _ hm)
        · exact List.mem_cons_of_mem _ hm
    cases h
    exact hfold ms a

/-- A claim takes a message of its worker. -/
theorem claim_calm {c : ClaimArgs} {found : Option Row} (hl : l.Sound)
    (h : claim l c now = .ok (found, l')) :
    l.Calm l' ∧ ∀ row ∈ found, row.message ∈ l'.messages ∧ row.message.target = c.target := by
  unfold claim at h
  rw [bind_ok] at h
  obtain ⟨_, _, h⟩ := h
  rw [bind_ok] at h
  obtain ⟨mid, hmid, h⟩ := h
  have hcalm := expireClaims_calm hl hmid
  cases hs : c.select mid with
  | none =>
    rw [hs] at h
    simp only [pure_ok, Prod.mk.injEq] at h
    obtain ⟨rfl, rfl⟩ := h
    exact ⟨hcalm, by rintro row ⟨⟩⟩
  | some m =>
    rw [hs] at h
    simp only at h
    have hm := List.mem_filter.mp (first_mem hs)
    split at h
    · next d _ =>
      simp only [pure_ok, Prod.mk.injEq] at h
      obtain ⟨rfl, rfl⟩ := h
      refine ⟨hcalm.trans (hcalm.sound.rewrite_calm (fun _ => rfl) fun _ hs => by cases hs), ?_⟩
      rintro row ⟨⟩
      refine ⟨hm.1, ?_⟩
      obtain ⟨d, _, hd⟩ := List.any_eq_true.mp hm.2
      simp only [ClaimArgs.selects, Bool.and_eq_true, decide_eq_true_eq] at hd
      exact hd.1.1.1.2
    · simp only [throw_ok] at h

theorem insert_calm (hl : l.Sound) (ht : validateTarget m.target = .ok ())
    (hm : m.exact = true → m.kind = .message ∧ m.fallback = .fail ∧
      ∃ threadId turnId, m.expectedThreadId = some threadId ∧ m.expectedTurnId = some turnId)
    (h : l.insert m = .ok l') : l.Calm l' ∧ m ∈ l'.messages := by
  unfold Ledger.insert at h
  split_ifs at h with hnew
  cases h
  rw [Bool.not_eq_true, Bool.or_eq_false_iff, List.any_eq_false, List.any_eq_false] at hnew
  have hmessages : ∀ row ∈ l.messages, row.messageId ≠ m.messageId := by
    intro row hr
    simpa using hnew.1 row hr
  have hdeliveries : ∀ d ∈ l.deliveries, d.messageId ≠ m.messageId := by
    intro d hd
    simpa using hnew.2 d hd
  have hq : ∀ row d, Ledger.Queued { l with
      messages := l.messages ++ [m]
      deliveries := l.deliveries ++
        [⟨m.messageId, .persisted, none, none, 0, none, none, none, m.createdNs⟩] } row d →
      l.Queued row d := by
    intro row d hd
    rcases List.mem_append.mp hd.delivery with hold | hnew
    · refine ⟨?_, hold, hd.id, hd.state⟩
      rcases List.mem_append.mp hd.message with hr | hr
      · exact hr
      · rw [List.mem_singleton] at hr
        exact (hdeliveries d hold (hd.id.trans (congrArg _ hr))).elim
    · have hs := hd.state
      rw [List.mem_singleton.mp hnew] at hs
      cases hs
  refine ⟨⟨⟨fun row hr => List.mem_append_left _ hr, ?_, ?_, fun row hr => ?_, fun row hr => ?_,
    fun row d hd => hl.queued row d (hq row d hd)⟩, hq, fun _ _ ht => ht⟩, List.mem_append_right _ (List.mem_singleton.mpr rfl)⟩
  · rw [List.map_append, List.nodup_append]
    refine ⟨hl.ids, by simp, fun a ha b hb => ?_⟩
    obtain ⟨row, hr, rfl⟩ := List.mem_map.mp ha
    rw [List.map_singleton, List.mem_singleton] at hb
    rw [hb]
    exact hmessages row hr
  · rw [List.map_append, List.nodup_append]
    refine ⟨hl.deliveryIds, by simp, fun a ha b hb => ?_⟩
    obtain ⟨d, hd, rfl⟩ := List.mem_map.mp ha
    rw [List.map_singleton, List.mem_singleton] at hb
    rw [hb]
    exact hdeliveries d hd
  · rcases List.mem_append.mp hr with hr | hr
    · exact hl.targets row hr
    · rw [List.mem_singleton.mp hr]
      exact ht
  · rcases List.mem_append.mp hr with hr | hr
    · exact hl.exact row hr
    · rw [List.mem_singleton.mp hr]
      exact hm

theorem get_mem {messageId : PyStr} (h : l.get messageId = .ok row) :
    row.message ∈ l.messages ∧ row.message.messageId = messageId := by
  unfold Ledger.get at h
  split at h
  · next m d hm _ =>
    cases h
    have hf := Rows.mem_of_find hm
    exact ⟨hf.1, of_decide_eq_true hf.2⟩
  · cases h

theorem enqueue_calm {body : PyStr} {clientId : Option PyStr} {fallback : Fallback} {kind : MessageKind}
    {fresh : Fresh} (hl : l.Sound)
    (h : enqueue l target body clientId fallback kind fresh now = .ok (row, l')) : l.Calm l' := by
  unfold enqueue at h
  rw [bind_ok] at h
  obtain ⟨_, htarget, h⟩ := h
  simp only [unless_ok, bind_ok] at h
  obtain ⟨_, _, _, clientId, _, h⟩ := h
  split at h
  · simp only [unless_ok, bind_ok, pure_ok, Prod.mk.injEq] at h
    obtain ⟨_, _, _, _, rfl⟩ := h
    exact hl.calm
  · simp only [bind_ok, pure_ok, Prod.mk.injEq] at h
    obtain ⟨mid, hmid, _, _, _, rfl⟩ := h
    refine (insert_calm hl htarget ?_ hmid).1
    rintro ⟨⟩

/-- What `enqueue_encouragement` answers with is bound to a thread and a turn, and in the ledger. -/
theorem enqueueEncouragement_calm {note : PyStr} {clientId : Option PyStr} {fresh : Fresh}
    (hl : l.Sound)
    (h : enqueueEncouragement l target note clientId fresh now = .ok (row, l')) :
    l.Calm l' ∧ row.message ∈ l'.messages ∧ row.message.exact = true := by
  unfold enqueueEncouragement at h
  rw [bind_ok] at h
  obtain ⟨_, htarget, h⟩ := h
  rw [bind_ok] at h
  obtain ⟨body, _, h⟩ := h
  simp only [unless_ok, bind_ok] at h
  obtain ⟨_, clientId, _, turn, _, h⟩ := h
  split at h
  · next existing hfind =>
    simp only [unless_ok, bind_ok, pure_ok, Prod.mk.injEq] at h
    obtain ⟨hbound, _, row', hget, rfl, rfl⟩ := h
    obtain ⟨hmem, hid⟩ := get_mem hget
    have he : row'.message = existing :=
      Rows.eq_of_key hl.ids hmem (Rows.mem_of_find hfind).1 hid
    refine ⟨hl.calm, hmem, ?_⟩
    rw [he, Message.exact]
    cases ht : existing.expectedThreadId with
    | none => exact (hbound (.inl ht)).elim
    | some threadId => rfl
  · simp only [bind_ok, pure_ok, Prod.mk.injEq] at h
    obtain ⟨mid, hmid, row', hget, rfl, rfl⟩ := h
    obtain ⟨hcalm, hnew⟩ := insert_calm hl htarget (fun _ => ⟨rfl, rfl, _, _, rfl, rfl⟩) hmid
    obtain ⟨hmem, hid⟩ := get_mem hget
    have he := Rows.eq_of_key hcalm.sound.ids hmem hnew hid
    refine ⟨hcalm, hmem, ?_⟩
    rw [he]
    rfl

/-- A worker gets a thread. -/
theorem setThreadId_follows (hl : l.Sound) (h : setThreadId l target threadId = .ok l') :
    l.Follows l' ∧ (∀ m d, l'.Queued m d → l.Queued m d) ∧
      ∀ worker thread, l'.workerThreads.lookup worker = some thread →
        l.workerThreads.lookup worker = some thread ∨ worker = target ∧ thread = threadId := by
  unfold setThreadId at h
  rw [unless_ok, bind_ok] at h
  obtain ⟨_, _, _, h⟩ := h
  rw [pure_ok] at h
  subst h
  obtain ⟨hf, hq⟩ := hl.same
    { l with workerThreads := (target, threadId) :: l.workerThreads.filter fun p => decide (p.1 ≠ target) }
    rfl rfl
  refine ⟨hf, hq, fun worker thread ht => ?_⟩
  rw [List.lookup_cons] at ht
  split at ht
  · next he =>
    cases ht
    exact .inr ⟨beq_iff_eq.mp he, rfl⟩
  · rw [lookup_filter_ne] at ht
    split_ifs at ht
    exact .inl ht

theorem removeThreadId_calm (hl : l.Sound) (h : removeThreadId l target threadId = .ok l') :
    l.Calm l' := by
  unfold removeThreadId at h
  rw [bind_ok] at h
  obtain ⟨_, _, h⟩ := h
  rw [unless_ok] at h
  obtain ⟨_, h⟩ := h
  split at h
  · rw [throw_ok] at h
    exact h.elim
  · rw [unless_ok, unless_ok, pure_ok] at h
    obtain ⟨_, _, rfl⟩ := h
    exact hl.unmap target

theorem retireThread_calm (hl : l.Sound) (h : retireThread l target threadId = .ok l') : l.Calm l' := by
  unfold retireThread at h
  rw [unless_error_ok] at h
  obtain ⟨_, h⟩ := h
  cases h
  exact hl.unmap target

theorem finalizeRound_calm {clientId status : PyStr} (hl : l.Sound)
    (h : finalizeRound l clientId threadId turnId status now = .ok l') : l.Calm l' := by
  unfold finalizeRound at h
  split at h
  · rw [throw_ok] at h
    exact h.elim
  · next intent _ =>
    rw [unless_ok, unless_ok, bind_ok] at h
    obtain ⟨_, _, mid, hmid, h⟩ := h
    have hcalm := completeTurn_calm hl hmid
    rw [ite_ok, pure_ok] at h
    rcases h with ⟨_, rfl⟩ | ⟨_, h⟩
    · exact hcalm
    · have hsame : l.Calm { mid with
          intents := Rows.update (fun i => decide (i.clientId = clientId))
            (fun i => { i with state := .completed, turnId := some turnId }) mid.intents } :=
        hcalm.trans (hcalm.sound.intents _)
      rw [ite_ok, pure_ok] at h
      rcases h with ⟨_, h⟩ | ⟨_, rfl⟩
      · exact hsame.trans (retireThread_calm hsame.sound h)
      · exact hsame

theorem reconcileRow_calm {reading : Reading} (hl : l.Sound)
    (h : reconcileRow l threadId reading row now = .ok l') : l.Calm l' := by
  unfold reconcileRow at h
  have hsame : ∀ {l'}, (.ok l : Except HotJoinError Ledger) = .ok l' → l.Calm l' := by
    rintro l' ⟨⟩
    exact hl.calm
  cases reading with
  | unread detail =>
    simp only at h
    split_ifs at h
    · exact recordInTx_calm hl (fun hs => by cases hs) h
    · exact hsame h
  | read turns =>
    simp only at h
    split_ifs at h
    · unfold reconcileAccepted at h
      split at h
      · rw [bind_ok] at h
        obtain ⟨turns, _, h⟩ := h
        split at h
        · rw [ite_ok, pure_ok] at h
          rcases h with ⟨_, rfl⟩ | ⟨_, h⟩
          · exact hl.calm
          · exact completeTurn_calm hl h
        · exact hsame h
      · exact hsame h
    · exact hsame h
    · unfold reconcileOpen at h
      simp only [bind_ok] at h
      obtain ⟨turns, _, found, _, h⟩ := h
      cases found with
      | none =>
        simp only [ite_ok, pure_ok] at h
        rcases h with ⟨_, rfl⟩ | ⟨_, h⟩
        · exact hl.calm
        · exact recordInTx_calm hl (fun hs => by cases hs) h
      | some turn =>
        simp only [ite_ok, pure_ok] at h
        rcases h with ⟨_, rfl⟩ | ⟨_, h⟩
        · exact hl.calm
        · exact recordInTx_calm hl (fun hs => by cases hs) h

end Danus.HotJoin
