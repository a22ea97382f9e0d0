import Danus.Coordination.SlotLife
import Danus.Execution.WorkerLoop
import Danus.HotJoin.PaidIntents

/-! A coordination slot is launched once, unless App Server takes over a slot that `codex exec` was
spawned for. -/
namespace Danus.WorkerLoop
open Python Coordination HotJoin Machines

variable {S : CoordinationStore} {s t : System} {worker other : PyStr} {r : Round} {slotId : PyStr}

namespace System

/-- The slot was launched, over this transport. -/
def Launched (s : System) (transport : Transport) (slotId : PyStr) : Prop :=
  (⟨transport, slotId⟩ : Launch) ∈ s.launches

/-- No open slot of the worker has had a `codex exec`. -/
def ExecFree (s : System) (worker : PyStr) : Prop :=
  ∀ x ∈ s.db.1.slots, x.worker = worker → x.open = true → ¬ s.Launched .exec x.slotId

/-- The slot is the worker's. -/
def Holds (s : System) (worker slotId : PyStr) : Prop :=
  ∃ x ∈ s.db.1.slots, x.slotId = slotId ∧ x.worker = worker

/-- The slot is not prepared any more. -/
def Activated (s : System) (slotId : PyStr) : Prop :=
  ∃ x ∈ s.db.1.slots, x.slotId = slotId ∧ x.state ≠ .prepared

/-- The intent is in the ledger, for this slot. -/
def Intended (s : System) (clientId slotId : PyStr) : Prop :=
  ∃ i ∈ s.ledger.intents, i.clientId = clientId ∧ i.slot = some slotId

/-- The slot's intent was dispatched. -/
def Dispatched (s : System) (slotId : PyStr) : Prop :=
  ∃ i ∈ s.ledger.intents, i.slot = some slotId ∧ i.state ≠ .prepared

/-- A step that a worker's process survives: what it relies on stays, and nothing is launched for a
slot of the worker. -/
structure Keeps (s t : System) (worker : PyStr) : Prop where
  slots : ∀ x ∈ s.db.1.slots, ∃ y ∈ t.db.1.slots, x.Lives y
  known : ∀ x ∈ s.db.1.slots, ∀ y ∈ t.db.1.slots, y.slotId = x.slotId → x.Lives y
  intents : ∀ i ∈ s.ledger.intents, ∃ j ∈ t.ledger.intents, i.Continues j
  launches : ∀ l ∈ t.launches, l ∈ s.launches ∨ ∀ y ∈ t.db.1.slots, y.slotId = l.slotId → y.worker ≠ worker

end System

/-- What a round relies on: its slot is the worker's, and over App Server no `codex exec` came first. -/
structure Round.Held (s : System) (worker : PyStr) (r : Round) : Prop where
  holds : s.Holds worker r.slotId
  execFree : r.transport = .appServer → s.ExecFree worker ∧ ¬ s.Launched .exec r.slotId

/-- Nothing was launched for the round's slot. -/
def Round.Unlaunched (s : System) (r : Round) : Prop := ∀ transport, ¬ s.Launched transport r.slotId

/-- What each place of the loop relies on. -/
def Pc.Safe (s : System) (worker : PyStr) : Pc → Prop
  | .stopped | .faulting _ => True
  | .admitting transport _ => transport = .appServer → s.ExecFree worker
  | .admitted r | .activating r => r.Held s worker ∧ (r.transport = .exec → r.Unlaunched s)
  | .reading r _ | .looking r _ _ => r.Held s worker ∧ r.transport = .appServer
  | .spawning r => r.Held s worker ∧ r.transport = .exec ∧ r.Unlaunched s ∧ s.Activated r.slotId
  | .preparing r | .mapped r _ | .connecting r _ | .persisting r _ | .intending r _ =>
    r.Held s worker ∧ r.transport = .appServer ∧ s.Activated r.slotId
  | .locating r i => r.Held s worker ∧ r.transport = .appServer ∧ s.Activated r.slotId ∧
    s.Intended i.clientId r.slotId
  | .dispatching r i => r.Held s worker ∧ r.transport = .appServer ∧ s.Activated r.slotId ∧
    s.Intended i.clientId r.slotId ∧ (i.state = .prepared ∨ i.unfinished = false)
  | .sending r _ => r.Held s worker ∧ r.transport = .appServer ∧ r.Unlaunched s ∧ s.Activated r.slotId ∧
    s.Dispatched r.slotId
  | .awaiting r _ | .concluding r _ _ => r.Held s worker ∧ r.transport = .appServer
  | .running r | .reconciling r _ | .completing r _ => r.Held s worker

/-- What holds in every state of every run. -/
structure System.Safe (S : CoordinationStore) (s : System) : Prop where
  coherent : S.Coherent s.db.1
  keyed : s.ledger.Keyed
  launched : ∀ l ∈ s.launches, s.Activated l.slotId
  sent : ∀ slotId, s.Launched .appServer slotId → s.Dispatched slotId
  once : (s.launches.map (·.slotId)).Nodup
  procs : ∀ worker, (s.procs worker).Safe s worker

namespace System.Keeps
variable (h : s.Keeps t worker)
include h

theorem holds (hs : s.Holds worker slotId) : t.Holds worker slotId := by
  obtain ⟨x, hx, rfl, hw⟩ := hs
  obtain ⟨y, hy, hl⟩ := h.slots x hx
  exact ⟨y, hy, hl.slotId, hl.worker.trans hw⟩

theorem activated (hs : s.Activated slotId) : t.Activated slotId := by
  obtain ⟨x, hx, rfl, hst⟩ := hs
  obtain ⟨y, hy, hl⟩ := h.slots x hx
  exact ⟨y, hy, hl.slotId, hl.dispatched hst⟩

theorem intended {clientId : PyStr} (hs : s.Intended clientId slotId) : t.Intended clientId slotId := by
  obtain ⟨i, hi, hc, hsl⟩ := hs
  obtain ⟨j, hj, hl⟩ := h.intents i hi
  exact ⟨j, hj, hl.clientId.trans hc, hl.slot.trans hsl⟩

theorem dispatched (hs : s.Dispatched slotId) : t.Dispatched slotId := by
  obtain ⟨i, hi, hsl, hst⟩ := hs
  obtain ⟨j, hj, hl⟩ := h.intents i hi
  exact ⟨j, hj, hl.slot.trans hsl, hl.dispatched hst⟩

/-- A slot of the worker has only the launches it had before. -/
theorem launched_back {transport : Transport} (hs : s.Holds worker slotId)
    (hl : t.Launched transport slotId) : s.Launched transport slotId := by
  rcases h.launches _ hl with hm | hother
  · exact hm
  · obtain ⟨y, hy, hid, hw⟩ := h.holds hs
    exact (hother y hy hid hw).elim

theorem execFree (hsafe : ∀ l ∈ s.launches, s.Activated l.slotId) (he : s.ExecFree worker) :
    t.ExecFree worker := by
  intro y hy hw ho hl
  rcases h.launches _ hl with hm | hother
  · obtain ⟨x, hx, hid, _⟩ := hsafe _ hm
    have hlives := h.known x hx y hy hid.symm
    refine he x hx (hlives.worker.symm.trans hw) (hlives.opened ho) ?_
    rw [hid]
    exact hm
  · exact hother y hy rfl hw

theorem held (hsafe : ∀ l ∈ s.launches, s.Activated l.slotId) (hr : r.Held s worker) :
    r.Held t worker where
  holds := h.holds hr.holds
  execFree := fun ht => ⟨h.execFree hsafe (hr.execFree ht).1,
    fun hl => (hr.execFree ht).2 (h.launched_back hr.holds hl)⟩

theorem unlaunched (hr : r.Held s worker) (hu : r.Unlaunched s) : r.Unlaunched t :=
  fun transport hl => hu transport (h.launched_back hr.holds hl)

/-- A process that does not move stays safe. -/
theorem safe (hsafe : ∀ l ∈ s.launches, s.Activated l.slotId) {pc : Pc} (hp : pc.Safe s worker) :
    pc.Safe t worker := by
  cases pc with
  | stopped => trivial
  | faulting => trivial
  | admitting => exact fun ht => h.execFree hsafe (hp ht)
  | admitted => exact ⟨h.held hsafe hp.1, fun ht => h.unlaunched hp.1 (hp.2 ht)⟩
  | activating => exact ⟨h.held hsafe hp.1, fun ht => h.unlaunched hp.1 (hp.2 ht)⟩
  | reading => exact ⟨h.held hsafe hp.1, hp.2⟩
  | looking => exact ⟨h.held hsafe hp.1, hp.2⟩
  | spawning => exact ⟨h.held hsafe hp.1, hp.2.1, h.unlaunched hp.1 hp.2.2.1, h.activated hp.2.2.2⟩
  | preparing => exact ⟨h.held hsafe hp.1, hp.2.1, h.activated hp.2.2⟩
  | mapped => exact ⟨h.held hsafe hp.1, hp.2.1, h.activated hp.2.2⟩
  | connecting => exact ⟨h.held hsafe hp.1, hp.2.1, h.activated hp.2.2⟩
  | persisting => exact ⟨h.held hsafe hp.1, hp.2.1, h.activated hp.2.2⟩
  | intending => exact ⟨h.held hsafe hp.1, hp.2.1, h.activated hp.2.2⟩
  | locating => exact ⟨h.held hsafe hp.1, hp.2.1, h.activated hp.2.2.1, h.intended hp.2.2.2⟩
  | dispatching =>
    exact ⟨h.held hsafe hp.1, hp.2.1, h.activated hp.2.2.1, h.intended hp.2.2.2.1, hp.2.2.2.2⟩
  | sending =>
    exact ⟨h.held hsafe hp.1, hp.2.1, h.unlaunched hp.1 hp.2.2.1, h.activated hp.2.2.2.1,
      h.dispatched hp.2.2.2.2⟩
  | awaiting => exact ⟨h.held hsafe hp.1, hp.2⟩
  | concluding => exact ⟨h.held hsafe hp.1, hp.2⟩
  | running => exact h.held hsafe hp
  | reconciling => exact h.held hsafe hp
  | completing => exact h.held hsafe hp

end System.Keeps

/-- A step without a launch, whose ledgers go on. -/
structure System.Quiet (S : CoordinationStore) (s t : System) : Prop where
  coherent : S.Coherent t.db.1
  slots : ∀ x ∈ s.db.1.slots, ∃ y ∈ t.db.1.slots, x.Lives y
  known : ∀ x ∈ s.db.1.slots, ∀ y ∈ t.db.1.slots, y.slotId = x.slotId → x.Lives y
  ledger : s.ledger.Advances t.ledger
  launches : t.launches = s.launches

namespace System.Quiet

theorem keeps (h : s.Quiet S t) (worker : PyStr) : s.Keeps t worker where
  slots := h.slots
  known := h.known
  intents := h.ledger.rows
  launches := fun _ hl => .inl (by rwa [h.launches] at hl)

/-- A quiet step keeps the system safe, where each process stayed or moved to a safe place. -/
theorem safe (h : s.Quiet S t) (hs : s.Safe S)
    (hp : ∀ worker, t.procs worker = s.procs worker ∨ (t.procs worker).Safe t worker) : t.Safe S where
  coherent := h.coherent
  keyed := h.ledger.keyed hs.keyed
  launched := by
    rw [h.launches]
    exact fun l hl => (h.keeps l.slotId).activated (hs.launched l hl)
  sent := by
    intro slotId hl
    rw [Launched, h.launches] at hl
    exact (h.keeps slotId).dispatched (hs.sent slotId hl)
  once := by
    rw [h.launches]
    exact hs.once
  procs := by
    intro worker
    rcases hp worker with he | he
    · rw [he]
      exact (h.keeps worker).safe hs.launched (hs.procs worker)
    · exact he

/-- Only the ledger moved. -/
theorem of_ledger (hs : s.Safe S) (hdb : t.db = s.db) (hl : s.ledger.Advances t.ledger)
    (hx : t.launches = s.launches) : s.Quiet S t where
  coherent := by
    rw [hdb]
    exact hs.coherent
  slots := by
    rw [hdb]
    exact fun x hx => ⟨x, hx, .refl x⟩
  known := by
    rw [hdb]
    intro x hx y hy he
    rw [Rows.eq_of_key s.db.2.slotIds hy hx he]
    exact .refl x
  ledger := hl
  launches := hx

/-- One call of the store. -/
theorem of_call (hs : s.Safe S) {call : StoreCall} (hdb : t.db = (S.perform call s.db).2)
    (hl : t.ledger = s.ledger) (hx : t.launches = s.launches) : s.Quiet S t := by
  have hstep : CallStep S call False s.db (S.perform call s.db).2 := (served hs.coherent).1
  rw [← hdb] at hstep
  exact ⟨hstep.coherent hs.coherent, hstep.slot_lives, fun x hx y hy he => hstep.slot_known hx hy he,
    .same (by rw [hl]), hx⟩

end System.Quiet

namespace System

/-- Where a process goes changes nothing that a process relies on. -/
theorem goto_keeps {pc : Pc} : s.Keeps (s.goto other pc) worker where
  slots := fun x hx => ⟨x, hx, .refl x⟩
  known := by
    intro x hx y hy he
    rw [Rows.eq_of_key s.db.2.slotIds hy hx he]
    exact .refl x
  intents := fun i hi => ⟨i, hi, .refl i⟩
  launches := fun _ hl => .inl hl

/-- After a quiet step the process goes to a safe place. -/
theorem Quiet.goto (h : s.Quiet S t) (hs : s.Safe S) (ht : t.procs = s.procs) {pc : Pc}
    (hpc : pc.Safe t worker) : (t.goto worker pc).Safe S := by
  have hq : s.Quiet S (t.goto worker pc) := ⟨h.coherent, h.slots, h.known, h.ledger, h.launches⟩
  have hlaunched : ∀ l ∈ t.launches, t.Activated l.slotId := by
    rw [h.launches]
    exact fun l hl => (h.keeps l.slotId).activated (hs.launched l hl)
  refine hq.safe hs fun w => ?_
  by_cases he : w = worker
  · subst he
    have hpc' : (t.goto w pc).procs w = pc := Function.update_self ..
    rw [hpc']
    exact .inr (goto_keeps.safe hlaunched hpc)
  · refine .inl (Eq.trans ?_ (congrFun ht w))
    exact Function.update_of_ne he ..

theorem Safe.goto (hs : s.Safe S) {pc : Pc} (hpc : pc.Safe s worker) : (s.goto worker pc).Safe S :=
  (Quiet.of_ledger hs rfl (.same rfl) rfl).goto hs rfl hpc

/-- A call of the store leads to a safe place. -/
theorem Safe.called (hs : s.Safe S) {call : StoreCall} {next : StoreReply → Pc} {raised : Pc}
    (hnext : ∀ reply db, S.perform call s.db = (.ok reply, db) → s.Keeps { s with db := db } worker →
      (next reply).Safe { s with db := db } worker)
    (hraised : ∀ db, s.Keeps { s with db := db } worker → raised.Safe { s with db := db } worker) :
    (s.called S worker call next raised).Safe S := by
  have hq : s.Quiet S { s with db := (S.perform call s.db).2 } := .of_call hs rfl rfl rfl
  unfold System.called
  cases hp : S.perform call s.db with
  | mk result db =>
    rw [hp] at hq
    cases result with
    | ok reply => exact hq.goto hs rfl (hnext reply db hp (hq.keeps worker))
    | error => exact hq.goto hs rfl (hraised db (hq.keeps worker))

/-- A transaction of the ledger leads to a safe place. -/
theorem Safe.recorded (hs : s.Safe S) {l : Except HotJoinError PaidLedger} {next raised : Pc}
    (hadv : ∀ l', l = .ok l' → s.ledger.Advances l')
    (hnext : ∀ l', l = .ok l' → s.Keeps { s with ledger := l' } worker →
      next.Safe { s with ledger := l' } worker)
    (hraised : raised.Safe s worker) : (s.recorded worker l next raised).Safe S := by
  unfold System.recorded
  cases hl : l with
  | error => exact hs.goto hraised
  | ok l' =>
    have hq : s.Quiet S { s with ledger := l' } := .of_ledger hs rfl (hadv l' hl) rfl
    exact hq.goto hs rfl (hnext l' hl (hq.keeps worker))

/-- A round of App Server goes on to its last audit. -/
theorem Safe.recorded_concluding (hs : s.Safe S) {l : Except HotJoinError PaidLedger} {i : PaidIntent}
    {turnId : Option PyStr} (hadv : ∀ l', l = .ok l' → s.ledger.Advances l') (hr : r.Held s worker)
    (ht : r.transport = .appServer) :
    (s.recorded worker l (.concluding r i turnId) (.concluding r i turnId)).Safe S :=
  hs.recorded hadv (fun _ _ hk => ⟨hk.held hs.launched hr, ht⟩) ⟨hr, ht⟩

/-- The paid launch of a slot that had none. -/
theorem Safe.launch (hs : s.Safe S) {next : Pc} (hr : r.Held s worker) (hu : r.Unlaunched s)
    (ha : s.Activated r.slotId) (hd : r.transport = .appServer → s.Dispatched r.slotId)
    (hn : r.Held (s.launch worker r next) worker → next.Safe (s.launch worker r next) worker) :
    (s.launch worker r next).Safe S := by
  obtain ⟨x, hx, hid, hw⟩ := hr.holds
  have hkeeps : ∀ w, w ≠ worker → s.Keeps (s.launch worker r next) w := by
    intro w hne
    refine ⟨fun y hy => ⟨y, hy, .refl y⟩, fun y hy z hz he => ?_, fun i hi => ⟨i, hi, .refl i⟩, ?_⟩
    · rw [Rows.eq_of_key s.db.2.slotIds hz hy he]
      exact .refl y
    · intro l hl
      rcases List.mem_cons.mp hl with rfl | hl
      · refine .inr fun y hy he hyw => hne ?_
        rw [← hyw, Rows.eq_of_key s.db.2.slotIds hy hx (he.trans hid.symm), hw]
      · exact .inl hl
  have hheld : r.Held (s.launch worker r next) worker := by
    refine ⟨hr.holds, fun ht => ?_⟩
    have hexec : ∀ y, (s.launch worker r next).Launched .exec y → s.Launched .exec y := by
      intro y hl
      rcases List.mem_cons.mp hl with he | hl
      · rw [ht] at he
        cases he
      · exact hl
    exact ⟨fun y hy hyw ho hl => (hr.execFree ht).1 y hy hyw ho (hexec _ hl),
      fun hl => (hr.execFree ht).2 (hexec _ hl)⟩
  refine ⟨hs.coherent, hs.keyed, fun l hl => ?_, fun slotId hl => ?_, ?_, fun w => ?_⟩
  · rcases List.mem_cons.mp hl with rfl | hl
    · exact ha
    · exact hs.launched l hl
  · rcases List.mem_cons.mp hl with he | hl
    · obtain ⟨ht, rfl⟩ := Launch.mk.inj he
      exact hd ht.symm
    · exact hs.sent slotId hl
  · refine List.nodup_cons.mpr ⟨fun hm => ?_, hs.once⟩
    obtain ⟨⟨transport, _⟩, hl, rfl⟩ := List.mem_map.mp hm
    exact hu transport hl
  · by_cases he : w = worker
    · subst he
      have hpc : (s.launch w r next).procs w = next := Function.update_self ..
      rw [hpc]
      exact hn hheld
    · have hpc : (s.launch worker r next).procs w = s.procs w := Function.update_of_ne he ..
      rw [hpc]
      exact (hkeeps w he).safe hs.launched (hs.procs w)

end System

theorem Round.Held.of_slot {r' : Round} (h : r.Held s worker) (ht : r'.transport = r.transport)
    (hid : r'.slotId = r.slotId) : r'.Held s worker := by
  refine ⟨by rw [hid]; exact h.holds, fun ha => ?_⟩
  rw [hid]
  exact h.execFree (ht.symm.trans ha)

theorem Round.Unlaunched.of_slot {r' : Round} (h : r.Unlaunched s) (hid : r'.slotId = r.slotId) :
    r'.Unlaunched s := by
  rw [Round.Unlaunched, hid]
  exact h

/-- An admission leads to a round on a slot of the worker; over `codex exec` it was never launched. -/
theorem afterAdmission_safe (hs : s.Safe S) {transport : Transport} {role : Role} {uuid : PyStr} {now : Stamp}
    {reply : StoreReply} {db : Database} (h : S.perform (.admitWorker worker uuid now) s.db = (.ok reply, db))
    (hk : s.Keeps { s with db := db } worker) (hf : transport = .appServer → s.ExecFree worker) :
    (afterAdmission transport role reply).Safe { s with db := db } worker := by
  have hfree (ht : transport = .appServer) := hk.execFree hs.launched (hf ht)
  unfold afterAdmission
  split
  · rename_i a
    split
    · trivial
    · rename_i hnew
      obtain ⟨x, hx, hreads, hw, ho, horigin⟩ := admit_reply hs.coherent h
      have hid : x.slotId = a.slotId := hreads.slotId.symm
      refine ⟨⟨⟨x, hx, hid, hw⟩, fun ht => ⟨hfree ht, ?_⟩⟩, fun ht other hl => ?_⟩
      · intro hl
        rw [Round.slotId, ← hid] at hl
        exact hfree ht x hx hw ho hl
      · obtain ⟨y, hy, hyid, hyst⟩ := hs.launched _ hl
        rcases horigin with ⟨hres, hbefore⟩ | ⟨_, hfresh⟩
        · obtain rfl : y = x := Rows.eq_of_key s.db.2.slotIds hy hbefore (hyid.trans hid.symm)
          refine hnew ⟨ht, hres, ?_⟩
          rw [hreads.state]
          cases hst : y.state with
          | prepared => exact (hyst hst).elim
          | active => exact .inl rfl
          | ambiguous => exact .inr rfl
          | terminal => exact (RoundSlot.open_ne_terminal ho hst).elim
        · exact hfresh y hy (hyid.trans hid.symm)
  · exact hfree

/-- The dispatch of an intent that was prepared leaves its slot unlaunched so far. -/
theorem dispatch_safe (hs : s.Safe S) {i : PaidIntent} {l : PaidLedger}
    (hp : (Pc.dispatching r i).Safe s worker)
    (h : s.ledger.recordRoundIntent i.clientId .dispatching none none (some [i.state]) = .ok l)
    (hk : s.Keeps { s with ledger := l } worker) :
    (Pc.sending r i).Safe { s with ledger := l } worker := by
  obtain ⟨hr, ht, hact, ⟨i', hi', hc, hslot⟩, hst⟩ := hp
  obtain ⟨row, hrow, hexp, _, hterm, rfl⟩ := recordRoundIntent_ok h
  obtain ⟨hm, hcl⟩ := mem_intent hrow
  have hstate : row.state = i.state := by simpa using hexp _ rfl
  have hprep : row.state = .prepared := by
    rcases hst with hst | hst
    · exact hstate.trans hst
    · have huf : row.unfinished = false := by rw [PaidIntent.unfinished, hstate]; exact hst
      have := hterm huf
      rw [PaidIntent.unfinished, ← this] at huf
      simp at huf
  obtain rfl : i' = row := hs.keyed.eq_of_client hi' hm (hc.trans hcl.symm)
  have hun : r.Unlaunched s := by
    intro transport hl
    cases transport with
    | exec => exact (hr.execFree ht).2 hl
    | appServer =>
      obtain ⟨j, hj, hjs, hjst⟩ := hs.sent _ hl
      rw [hs.keyed.eq_of_slot hj hi' hjs hslot] at hjst
      exact hjst hprep
  refine ⟨hk.held hs.launched hr, ht, hk.unlaunched hr hun, hk.activated hact, ?_⟩
  exact ⟨_, Rows.mem_update_of_hit hm (by simp [hcl]), hslot, by simp⟩

/-- An exception leads to a safe place. -/
theorem Pc.Safe.raised {pc : Pc} {rc : Int} (hp : pc.Safe s worker) : (pc.raised rc).Safe s worker := by
  cases pc with
  | spawning => exact hp.1
  | preparing => exact ⟨hp.1, hp.2.1⟩
  | mapped => exact ⟨hp.1, hp.2.1⟩
  | connecting => exact ⟨hp.1, hp.2.1⟩
  | persisting => exact ⟨hp.1, hp.2.1⟩
  | intending => exact ⟨hp.1, hp.2.1⟩
  | dispatching => exact ⟨hp.1, hp.2.1⟩
  | locating => exact ⟨hp.1, hp.2.1⟩
  | sending => exact ⟨hp.1, hp.2.1⟩
  | stopped => trivial
  | faulting => trivial
  | admitted => trivial
  | reading => trivial
  | looking => trivial
  | activating => trivial
  | reconciling => trivial
  | completing => trivial
  | admitting => exact hp
  | running => exact hp
  | awaiting => exact hp
  | concluding => exact hp

namespace System

theorem Safe.locate (hs : s.Safe S) {i : PaidIntent} {located : Option (PyStr × Bool)}
    (hp : (Pc.locating r i).Safe s worker) : (s.locate worker r i located).Safe S := by
  obtain ⟨hr, ht, hact, hint⟩ := hp
  have hconclude : ∀ turnId, (Pc.concluding r i turnId).Safe s worker := fun _ => ⟨hr, ht⟩
  unfold System.locate
  split
  · split
    · exact hs.recorded_concluding (fun _ h => recordRoundIntent_advances (by simp) h) hr ht
    · exact hs.goto (hconclude _)
  · cases hst : i.state with
    | prepared => exact hs.goto ⟨hr, ht, hact, hint, .inl hst⟩
    | completed => exact hs.goto ⟨hr, ht, hact, hint, .inr (by simp [PaidIntent.unfinished, hst])⟩
    | failed => exact hs.goto ⟨hr, ht, hact, hint, .inr (by simp [PaidIntent.unfinished, hst])⟩
    | started => exact hs.goto (hconclude _)
    | deliveryUnknown => exact hs.goto (hconclude _)
    | dispatching =>
      exact hs.recorded_concluding (fun _ h => recordRoundIntent_advances (by simp) h) hr ht

theorem Safe.answered (hs : s.Safe S) {i : PaidIntent} {answer : StartAnswer}
    (hr : r.Held s worker) (ht : r.transport = .appServer) : (s.answered worker r i answer).Safe S := by
  cases answer <;>
    exact hs.recorded_concluding (fun _ h => recordRoundIntent_advances (by simp) h) hr ht

theorem Safe.conclude (hs : s.Safe S) {i : PaidIntent} {turnId : Option PyStr} {x : Outside}
    (hr : r.Held s worker) (ht : r.transport = .appServer) : (s.conclude worker r i turnId x).Safe S := by
  unfold System.conclude
  split
  · exact hs.recorded (fun _ h => finalizeRound_advances h) (fun _ _ hk => ⟨hk.held hs.launched hr, ht⟩)
      ⟨hr, ht⟩
  · exact hs.recorded (fun _ h => recordRoundAttemptAudit_advances h)
      (fun _ _ hk => ⟨hk.held hs.launched hr, ht⟩) ⟨hr, ht⟩

/-- Every step of a process leads to a safe place. -/
theorem Safe.move (hs : s.Safe S) (x : Outside) : (s.move S worker x).Safe S := by
  have hp := hs.procs worker
  unfold System.move
  split <;> rename_i hpc <;> rw [hpc] at hp
  · exact hs
  · exact hs.called (fun reply db h hk => afterAdmission_safe hs h hk hp) fun _ _ => trivial
  · rename_i r
    split
    · refine hs.called (fun reply db h hk => ?_) fun _ _ => trivial
      unfold afterPin
      split
      · rename_i a
        have hid := pin_reply h
        have hr : Round.Held { s with db := db } worker { r with admission := a } :=
          (hk.held hs.launched hp.1).of_slot rfl hid
        exact ⟨hr, fun ht => (hk.unlaunched hp.1 (hp.2 ht)).of_slot hid⟩
      · trivial
    · split
      · split
        · exact hs.goto hp
        · rename_i ht
          exact hs.goto ⟨hp.1, ht⟩
      · exact hs.goto trivial
  · exact hs.goto hp
  · refine hs.goto ?_
    unfold afterLookup
    split
    · split
      · exact ⟨hp.1, fun ht => by rw [hp.2] at ht; cases ht⟩
      · trivial
    · split
      · exact hp.1
      · trivial
    · trivial
  · rename_i r
    refine hs.called (fun reply db h hk => ?_) fun _ _ => trivial
    unfold afterActivation
    split
    · rename_i a
      obtain ⟨hid, hact⟩ := activate_reply h
      have hr : Round.Held { s with db := db } worker { r with admission := a } :=
        (hk.held hs.launched hp.1).of_slot rfl hid
      have hact' : System.Activated { s with db := db } (Round.slotId { r with admission := a }) := by
        obtain ⟨y, hy, hyid, hst⟩ := hact
        exact ⟨y, hy, hyid.trans hid.symm, hst⟩
      split
      · rename_i ht
        exact ⟨hr, ht, (hk.unlaunched hp.1 (hp.2 ht)).of_slot hid, hact'⟩
      · rename_i ht
        exact ⟨hr, ht, hact'⟩
    · trivial
  · exact hs.launch hp.1 hp.2.2.1 hp.2.2.2 (fun ht => by rw [hp.2.1] at ht; cases ht) id
  · exact hs.goto hp
  · exact hs.goto hp
  · dsimp only
    split
    · exact hs.goto hp
    · exact hs.goto ⟨hp.1, hp.2.1⟩
  · exact hs.goto hp
  · exact hs.goto hp
  · refine hs.recorded (fun _ h => setThreadId_advances h) (fun _ _ hk => ?_) ⟨hp.1, hp.2.1⟩
    exact ⟨hk.held hs.launched hp.1, hp.2.1, hk.activated hp.2.2⟩
  · split
    · rename_i r _ i l h
      obtain ⟨hadv, hi, hfit⟩ := roundIntent_ok h
      have hq : s.Quiet S { s with ledger := l } := .of_ledger hs rfl hadv rfl
      have hk := hq.keeps worker
      refine hq.goto hs rfl ⟨hk.held hs.launched hp.1, hp.2.1, hk.activated hp.2.2, i, hi, rfl, ?_⟩
      rw [PaidIntent.slot, (RoundRequest.fits_iff.mp hfit).2.2.2.2.2]
      rfl
    · exact hs.goto ⟨hp.1, hp.2.1⟩
  · exact hs.locate hp
  · exact hs.recorded (fun _ h => recordRoundIntent_advances (by simp) h)
      (fun _ h hk => dispatch_safe hs hp h hk) ⟨hp.1, hp.2.1⟩
  · exact hs.launch hp.1 hp.2.2.1 hp.2.2.2.1 (fun _ => hp.2.2.2.2) fun hr => ⟨hr, hp.2.1⟩
  · exact hs.answered hp.1 hp.2
  · exact hs.conclude hp.1 hp.2
  · exact hs.called (fun _ _ _ hk => hk.held hs.launched hp) fun _ _ => trivial
  · refine hs.called (fun _ _ _ hk ht => hk.execFree hs.launched (hp.execFree ht).1) fun _ _ => trivial
  · exact hs.called (fun _ _ _ _ => trivial) fun _ _ => trivial

/-- No App Server process starts for a worker whose open slot `codex exec` was spawned for. -/
def Unmixed (past : List System) : Event → Prop
  | .start worker .appServer _ => ∀ s ∈ past.head?, s.ExecFree worker
  | _ => True

section Runs
variable [AppServer.Redaction]

theorem Safe.owner (hs : s.Safe S) (action : OwnerAction) : (s.step S (.owner action)).Safe S := by
  have hadv : ∀ l, action.perform s.ledger = .ok l → s.ledger.Advances l := by
    intro l h
    cases action with
    | clear => exact clear_advances h
    | rotate => exact rotate_advances h
    | abandon => exact abandon_advances h
    | cancel => exact cancel_advances h
  simp only [System.step]
  cases hl : action.perform s.ledger with
  | error => exact hs
  | ok l =>
    have hq : s.Quiet S { s with ledger := l } := .of_ledger hs rfl (hadv l hl) rfl
    exact hq.safe hs fun _ => .inl rfl

/-- Every step keeps the system safe. -/
theorem Safe.step (hs : s.Safe S) {past : List System} {event : Event} (hok : Unmixed (s :: past) event) :
    (s.step S event).Safe S := by
  cases event with
  | start worker transport role =>
    simp only [System.step]
    split
    · have hpc : (Pc.admitting transport role).Safe s worker := by
        intro ht
        subst ht
        exact hok s rfl
      exact hs.goto hpc
    · exact hs
  | move worker x => exact hs.move x
  | raises worker rc => exact hs.goto (hs.procs worker).raised
  | crash worker => exact hs.goto trivial
  | owner action => exact hs.owner action
  | deliver deliveries =>
    have hq : s.Quiet S { s with ledger := { s.ledger with deliveries := deliveries } } :=
      .of_ledger hs rfl (.same rfl) rfl
    exact hq.safe hs fun _ => .inl rfl
  | store call =>
    simp only [System.step]
    split
    · exact hs
    · have hq : s.Quiet S { s with db := (S.perform call s.db).2 } := .of_call hs rfl rfl rfl
      exact hq.safe hs fun _ => .inl rfl

/-- A fresh project is safe. -/
theorem Safe.initial (h : (machine S).start s) : s.Safe S := by
  obtain ⟨⟨clock, hdb⟩, hl, hp, hx⟩ := h
  refine ⟨(coherent_initial hdb).1, ?_, ?_, ?_, ?_, fun worker => ?_⟩
  · rw [hl]
    exact ⟨List.nodup_nil, List.nodup_nil⟩
  · simp [hx]
  · simp [Launched, hx]
  · simp [hx]
  · rw [hp]
    trivial

/-- In every run in which App Server takes over no slot from `codex exec`, every coordination slot
has at most one paid launch. -/
theorem paid_launch_once {past : List System} (h : (machine S).History Unmixed (s :: past)) :
    ∀ u ∈ s :: past, (u.launches.map (·.slotId)).Nodup := by
  have hsafe : ∀ u ∈ s :: past, u.Safe S := by
    refine h.invariant (I := fun l => ∀ u ∈ l, u.Safe S) ?_ ?_
    · rintro u hu v hv
      rw [List.mem_singleton.mp hv]
      exact .initial hu
    · rintro u past event t _ ih hok rfl v hv
      rcases List.mem_cons.mp hv with rfl | hv
      · exact (ih u List.mem_cons_self).step hok
      · exact ih v hv
  exact fun u hu => (hsafe u hu).once

/-- A run goes on along events that the condition admits everywhere. -/
theorem reaches_foldl (hs : (machine S).Reaches Unmixed s) (events : List Event)
    (h : ∀ event ∈ events, ∀ past, Unmixed past event) :
    (machine S).Reaches Unmixed (events.foldl (step S) s) := by
  induction events generalizing s with
  | nil => exact hs
  | cons event events ih =>
    obtain ⟨past, hp⟩ := hs
    exact ih ⟨s :: past, .step hp (h event List.mem_cons_self _) rfl⟩
      fun e he => h e (List.mem_cons_of_mem _ he)

end Runs

/-- A project of two lanes, before anything has happened. -/
def pairSystem : System := ⟨pairDatabase, .initial, fun _ => .stopped, []⟩

theorem pairSystem_start [AppServer.Redaction] : (machine pairStore).start pairSystem :=
  ⟨pair_start, rfl, rfl, rfl⟩

/-- What a step gets where nothing from outside matters to it. -/
def quiet : Outside where
  uuid := "a".toList
  now := some (.fin 3)
  clock := 3
  nowNs := 0
  prompt := promptText "slot_a" "left"
  entries := []
  rc := 0
  threadId := "thread".toList
  located := none
  answer := .lost
  terminal := none
  payload := []

def rootRole : Role := ⟨"model".toList, "high".toList⟩

/-- The root's worker admits its slot, pins and activates it, and spawns `codex exec`. -/
def execSpawned : List Event :=
  [.store (.stageTaskAssignment "root".toList "left".toList (some (.fin 1))),
    .store (.stageTaskAssignment "critic".toList "right".toList (some (.fin 1))),
    .start "root".toList .exec rootRole] ++ List.replicate 5 (.move "root".toList quiet)

/-- The worker crashes, and is started again over App Server. -/
def takenOver : List Event :=
  execSpawned ++ [.crash "root".toList, .start "root".toList .appServer rootRole] ++
    List.replicate 13 (.move "root".toList quiet)

theorem paid_launch_once_exec :
    ((execSpawned.foldl (@step pairStore ⟨id⟩) pairSystem).launches.map (·.slotId)).Nodup := by
  let plain : AppServer.Redaction := ⟨id⟩
  have hs : (machine pairStore).Reaches Unmixed (execSpawned.foldl (step pairStore) pairSystem) := by
    refine reaches_foldl ⟨[], .start pairSystem_start⟩ execSpawned fun event he past => ?_
    have hall : execSpawned.all (fun e => match e with | .start _ .appServer _ => false | _ => true) = true := rfl
    have hne := List.all_eq_true.mp hall event he
    cases event with
    | start worker transport role =>
      cases transport with
      | exec => trivial
      | appServer => cases hne
    | _ => trivial
  obtain ⟨past, hp⟩ := hs
  exact paid_launch_once hp _ List.mem_cons_self

/-- App Server sends a paid turn for the slot whose `codex exec` was lost. -/
theorem taken_over_launched_twice :
    let s := takenOver.foldl (@step pairStore ⟨id⟩) pairSystem
    (@machine pairStore ⟨id⟩).Reachable s ∧
      s.launches = [⟨.appServer, "slot_a".toList⟩, ⟨.exec, "slot_a".toList⟩] := by
  let plain : AppServer.Redaction := ⟨id⟩
  refine ⟨(Machine.reachable_start pairSystem_start).foldl (fun _ _ => rfl) takenOver, ?_⟩
  decide +kernel

end System
end Danus.WorkerLoop
