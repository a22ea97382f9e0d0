import Danus.Execution.OwnedChild

/-! The group of a paid child is swept while its host still holds the process id. -/
namespace Danus.OwnedChild
open Machines

variable {w w' : World}

/-- What holds in every run. -/
structure Sound (w : World) : Prop where
  early : w.host = .starting ∨ w.host = .armed → w.child = .unborn
  unborn : w.child = .unborn → w.members = []
  exited : w.host = .terminating true → ∃ code, w.child = .exited code
  settled : w.host = .settled 0 → w.child = .reaped 0
  receipt : w.receipt = some 0 → w.child = .reaped 0
  status : w.host ≠ .ended 0
  observed : w.worker = .observed ∨ w.worker = .swept ∨ w.worker = .reaped → w.host.Over
  sweeping : w.worker = .swept ∨ w.worker = .reaped → w.swept = true
  swept : w.swept = true → w.members = [] ∧ w.host.Over
  returncode : ∀ v, w.returncode = some v → v ≠ 0 ∧ w.swept = true
  reaped : w.worker = .reaped → w.returncode ≠ none
  actual : w.actualReturncode = some 0 → w.child = .reaped 0
  returned : ∀ v ∈ w.returned, w.swept = true ∧ (v = 0 → w.child = .reaped 0)
  released : w.released = true → w.worker = .dead ∨ w.swept = true

theorem sound_start : Sound {} where
  early _ := rfl
  unborn _ := rfl
  exited := nofun
  settled := nofun
  receipt := nofun
  status := nofun
  observed := by rintro (h | h | h) <;> cases h
  sweeping := by rintro (h | h) <;> cases h
  swept := nofun
  returncode := nofun
  reaped := nofun
  actual := nofun
  returned := nofun
  released := nofun

/-- The host goes on to another place of its program. -/
theorem Sound.moveHost (h : Sound w) {host : Host} (hover : ¬ w.host.Over)
    (hearly : host = .starting ∨ host = .armed → w.child = .unborn)
    (hexited : host = .terminating true → ∃ code, w.child = .exited code)
    (hsettled : host = .settled 0 → w.child = .reaped 0) (hstatus : host ≠ .ended 0) :
    Sound { w with host := host } where
  early := hearly
  unborn := h.unborn
  exited := hexited
  settled := hsettled
  receipt := h.receipt
  status := hstatus
  observed hw := (hover (h.observed hw)).elim
  sweeping := h.sweeping
  swept hs := (hover (h.swept hs).2).elim
  returncode := h.returncode
  reaped := h.reaped
  actual := h.actual
  returned := h.returned
  released := h.released

theorem not_over_of_eq {host : Host} (hw : w.host = host) (hne : ∀ status, host ≠ .ended status) :
    ¬ w.host.Over := by
  rintro ⟨status, hs⟩
  exact hne status (hw.symm.trans hs)

/-- A group SIGKILL leaves the codes that were reaped. -/
theorem killGroup_child : (w.killGroup.child = .reaped 0 ↔ w.child = .reaped 0) ∧
    (w.killGroup.child = .unborn ↔ w.child = .unborn) := by
  unfold World.killGroup
  constructor <;> split_ifs with hl <;> simp [hl]

theorem sound_host (h : Sound w) (hs : HostStep w w') : Sound w' := by
  cases hs with
  | refuse hw =>
    refine h.moveHost (not_over_of_eq hw nofun) (by rintro (he | he) <;> cases he) nofun nofun ?_
    simp
  | arm hw => exact h.moveHost (not_over_of_eq hw nofun) (fun _ => h.early (.inl hw)) nofun nofun nofun
  | execFails hw =>
    have hover := not_over_of_eq hw nofun
    have hm := @Sound.moveHost _ h (.ended 127) hover (by rintro (he | he) <;> cases he) nofun nofun (by simp)
    exact { hm with receipt := by simp }
  | spawn hw =>
    have hover := not_over_of_eq hw nofun
    have hborn : w.child = .unborn := h.early (.inr hw)
    have hnot : ¬ w.child = .reaped 0 := by simp [hborn]
    exact {
      early := by rintro (he | he) <;> cases he
      unborn := nofun
      exited := nofun
      settled := nofun
      receipt := fun hr => (hnot (h.receipt hr)).elim
      status := nofun
      observed := fun hw' => (hover (h.observed hw')).elim
      sweeping := h.sweeping
      swept := fun hs => (hover (h.swept hs).2).elim
      returncode := h.returncode
      reaped := h.reaped
      actual := fun ha => (hnot (h.actual ha)).elim
      returned := fun v hv => ⟨(h.returned v hv).1, fun hz => (hnot ((h.returned v hv).2 hz)).elim⟩
      released := h.released }
  | seeExit code hw hc =>
    exact h.moveHost (not_over_of_eq hw nofun) (by rintro (he | he) <;> cases he) (fun _ => ⟨code, hc⟩)
      nofun nofun
  | seeStop hw _ =>
    exact h.moveHost (not_over_of_eq hw nofun) (by rintro (he | he) <;> cases he) nofun nofun nofun
  | seeEof hw _ =>
    exact h.moveHost (not_over_of_eq hw nofun) (by rintro (he | he) <;> cases he) nofun nofun nofun
  | monitorFails leaderExited hw hc =>
    refine h.moveHost (not_over_of_eq hw nofun) (by rintro (he | he) <;> cases he) (fun he => hc ?_)
      nofun nofun
    exact Host.terminating.inj he
  | noticeExit code hw hc =>
    exact h.moveHost (not_over_of_eq hw nofun) (by rintro (he | he) <;> cases he) (fun _ => ⟨code, hc⟩)
      nofun nofun
  | reap code hw hc =>
    have hover := not_over_of_eq hw nofun
    have hnot : ¬ w.child = .reaped 0 := by simp [hc]
    exact {
      early := by rintro (he | he) <;> cases he
      unborn := nofun
      exited := nofun
      settled := fun he => by rw [Host.settled.inj he]
      receipt := fun hr => (hnot (h.receipt hr)).elim
      status := nofun
      observed := fun hw' => (hover (h.observed hw')).elim
      sweeping := h.sweeping
      swept := fun hs => (hover (h.swept hs).2).elim
      returncode := h.returncode
      reaped := h.reaped
      actual := fun ha => (hnot (h.actual ha)).elim
      returned := fun v hv => ⟨(h.returned v hv).1, fun hz => (hnot ((h.returned v hv).2 hz)).elim⟩
      released := h.released }
  | graceEnds hw =>
    exact h.moveHost (not_over_of_eq hw nofun) (by rintro (he | he) <;> cases he) nofun
      (fun he => absurd (Host.settled.inj he) (by decide)) nofun
  | report rc hw =>
    have hover := not_over_of_eq hw nofun
    have hm := @Sound.moveHost _ h .reported hover (by rintro (he | he) <;> cases he) nofun nofun nofun
    refine { hm with receipt := fun hr => h.settled ?_ }
    rw [hw, Option.some.inj hr]
  | killGroup hw =>
    have hover := not_over_of_eq hw nofun
    exact {
      early := by rintro (he | he) <;> cases he
      unborn := fun _ => rfl
      exited := nofun
      settled := nofun
      receipt := fun hr => killGroup_child.1.mpr (h.receipt hr)
      status := fun he => absurd (Host.ended.inj he) (by decide)
      observed := fun _ => ⟨_, rfl⟩
      sweeping := fun _ => rfl
      swept := fun _ => ⟨rfl, _, rfl⟩
      returncode := fun v hv => ⟨(h.returncode v hv).1, rfl⟩
      reaped := h.reaped
      actual := fun ha => killGroup_child.1.mpr (h.actual ha)
      returned := fun v hv => ⟨rfl, fun hz => killGroup_child.1.mpr ((h.returned v hv).2 hz)⟩
      released := fun _ => .inr rfl }

/-- The worker reads no zero that the host did not write. -/
theorem Sound.capture (h : Sound w) : Sound w.capture := by
  unfold World.capture
  split_ifs
  · refine { h with actual := fun ha => ?_ }
    cases hr : w.receipt with
    | none => exact h.actual (by simpa [hr] using ha)
    | some value =>
      by_cases hrange : -255 ≤ value ∧ value ≤ 255
      · have hzero : value = 0 := by simpa [hr, Option.filter, hrange] using ha
        exact h.receipt (hr.trans (congrArg some hzero))
      · have hactual : w.actualReturncode = some 0 := by
          simpa [hr, Option.filter, hrange] using ha
        exact h.actual hactual
  · exact h

theorem capture_frame (w : World) : w.capture.worker = w.worker ∧ w.capture.returncode = w.returncode ∧
    w.capture.swept = w.swept ∧ w.capture.child = w.child ∧ w.capture.returned = w.returned := by
  unfold World.capture
  split_ifs <;> exact ⟨rfl, rfl, rfl, rfl, rfl⟩

/-- A code of zero is the child's own. -/
theorem Sound.zero_code (h : Sound w) (hz : w.ownedChildReturncode = some 0) : w.child = .reaped 0 := by
  unfold World.ownedChildReturncode at hz
  cases ha : w.actualReturncode with
  | some v =>
    rw [ha, Option.some_or] at hz
    exact h.actual (ha.trans hz)
  | none =>
    rw [ha, Option.none_or] at hz
    exact ((h.returncode 0 hz).1 rfl).elim

/-- A call of `stop_owned_child` returns after the sweep. -/
theorem Sound.returns (h : Sound w) {value : Int} (hswept : w.swept = true)
    (hv : value = 0 → w.child = .reaped 0) : Sound { w with returned := value :: w.returned } := by
  refine { h with returned := fun v hm => ?_ }
  rcases List.mem_cons.mp hm with rfl | hm
  · exact ⟨hswept, hv⟩
  · exact h.returned v hm

/-- The worker is somewhere else than in the middle of a stop. -/
theorem Sound.moveWorker (h : Sound w) {worker : Worker} {lease : Bool}
    (hplace : worker = .idle ∨ worker = .polling ∨ worker = .dead)
    (hdead : w.worker = .dead → worker = .dead) : Sound { w with lease := lease, worker := worker } where
  early := h.early
  unborn := h.unborn
  exited := h.exited
  settled := h.settled
  receipt := h.receipt
  status := h.status
  observed := by
    rintro hw
    rcases hplace with rfl | rfl | rfl <;> rcases hw with hw | hw | hw <;> cases hw
  sweeping := by
    rintro hw
    rcases hplace with rfl | rfl | rfl <;> rcases hw with hw | hw <;> cases hw
  swept := h.swept
  returncode := h.returncode
  reaped := by
    rintro rfl
    rcases hplace with hw | hw | hw <;> cases hw
  actual := h.actual
  returned := h.returned
  released := fun hr => (h.released hr).imp_left hdead

theorem sound_worker (h : Sound w) (hs : WorkerStep w w') : Sound w' := by
  cases hs with
  | stop hw _ =>
    refine h.moveWorker (.inr (.inl rfl)) fun hd => ?_
    rw [hw] at hd
    cases hd
  | stopAgain hw hne =>
    have hc := h.capture
    obtain ⟨hworker, hcode, hswept, hchild, _⟩ := capture_frame w
    obtain ⟨v, hv⟩ := Option.ne_none_iff_exists'.mp hne
    have hs : w.capture.swept = true := hswept.trans (h.returncode v hv).2
    obtain ⟨value, hvalue⟩ : ∃ value, w.capture.ownedChildReturncode = some value := by
      unfold World.ownedChildReturncode
      rw [hcode, hv]
      cases w.capture.actualReturncode with
      | none => exact ⟨v, rfl⟩
      | some a => exact ⟨a, rfl⟩
    have hr := @Sound.returns _ hc (w.capture.ownedChildReturncode.getD 0) hs fun hz =>
      hc.zero_code (by rw [hvalue] at hz ⊢; exact congrArg some hz)
    have hm := @Sound.moveWorker _ hr w.capture.worker false (.inl (hworker.trans hw)) (fun hd => hd)
    rw [(capture_frame w).2.2.2.2] at hm
    exact hm
  | observe hw hover =>
    exact { h with
      observed := fun _ => hover
      sweeping := by rintro (he | he) <;> cases he
      reaped := nofun
      released := fun hr => (h.released hr).imp_left fun hd => by rw [hw] at hd; cases hd }
  | timeout hw =>
    refine h.moveWorker (.inl rfl) fun hd => ?_
    rw [hw] at hd
    cases hd
  | sweep hw =>
    have hover := h.observed (.inl hw)
    exact {
      early := fun he => killGroup_child.2.mpr (h.early he)
      unborn := fun _ => rfl
      exited := fun he => (not_over_of_eq he nofun hover).elim
      settled := fun he => (not_over_of_eq he nofun hover).elim
      receipt := fun hr => killGroup_child.1.mpr (h.receipt hr)
      status := h.status
      observed := fun _ => hover
      sweeping := fun _ => rfl
      swept := fun _ => ⟨rfl, hover⟩
      returncode := fun v hv => ⟨(h.returncode v hv).1, rfl⟩
      reaped := nofun
      actual := fun ha => killGroup_child.1.mpr (h.actual ha)
      returned := fun v hv => ⟨rfl, fun hz => killGroup_child.1.mpr ((h.returned v hv).2 hz)⟩
      released := fun _ => .inr rfl }
  | wait status hw he =>
    have hswept := h.sweeping (.inl hw)
    exact { h with
      observed := fun _ => ⟨status, he⟩
      sweeping := fun _ => hswept
      returncode := by
        rintro v hv
        obtain rfl := Option.some.inj hv
        exact ⟨fun hz => h.status (hz ▸ he), hswept⟩
      reaped := nofun
      released := fun _ => .inr hswept }
  | result value hw hv =>
    have hc := h.capture
    obtain ⟨hworker, _, hswept, _, hreturned⟩ := capture_frame w
    have hs : w.capture.swept = true := hswept.trans (h.sweeping (.inr hw))
    have hr := @Sound.returns _ hc value hs fun hz => hc.zero_code (hz ▸ hv)
    have hm := @Sound.moveWorker _ hr .idle w.capture.lease (.inl rfl) fun hd => by
      rw [show w.capture.worker = .reaped from hworker.trans hw] at hd
      cases hd
    rw [hreturned] at hm
    exact hm
  | omitted hw _ =>
    have hworker := (capture_frame w).1
    refine @Sound.moveWorker _ h.capture .idle w.capture.lease (.inl rfl) fun hd => ?_
    rw [hworker, hw] at hd
    cases hd
  | die _ => exact h.moveWorker (.inr (.inr rfl)) fun _ => rfl

theorem sound_step (h : Sound w) {e : Event} (hs : Step w e w') : Sound w' := by
  cases hs with
  | host hs => exact sound_host h hs
  | worker hs => exact sound_worker h hs
  | caught s _ _ _ => exact { h with }
  | early s hc hw =>
    refine h.moveHost (not_over_of_eq hw nofun) (by rintro (he | he) <;> cases he) nofun nofun fun he => ?_
    have hz := Host.ended.inj he
    rcases hc with rfl | rfl | rfl <;> cases hz
  | ignored => exact h
  | fatal n hover =>
    refine h.moveHost hover (by rintro (he | he) <;> cases he) nofun nofun fun he => ?_
    have hz : -((n : Int) + 1) = 0 := Host.ended.inj he
    omega
  | childExits code hl =>
    have hnot : ¬ w.child = .reaped 0 := by simp [hl]
    exact { h with
      early := fun he => by rw [h.early he] at hl; cases hl
      unborn := nofun
      exited := fun _ => ⟨code, rfl⟩
      settled := fun he => (hnot (h.settled he)).elim
      receipt := fun hr => (hnot (h.receipt hr)).elim
      swept := fun hs => ⟨by rw [(h.swept hs).1]; rfl, (h.swept hs).2⟩
      actual := fun ha => (hnot (h.actual ha)).elim
      returned := fun v hv => ⟨(h.returned v hv).1, fun hz => (hnot ((h.returned v hv).2 hz)).elim⟩ }
  | fork p pid hp =>
    exact { h with
      unborn := fun hb => by rw [h.unborn hb] at hp; cases hp
      swept := fun hs => by rw [(h.swept hs).1] at hp; cases hp }
  | memberExits pid =>
    exact { h with
      unborn := fun hb => by rw [h.unborn hb]; rfl
      swept := fun hs => ⟨by rw [(h.swept hs).1]; rfl, (h.swept hs).2⟩ }
  | adopted hd _ => exact { h with released := fun _ => .inl hd }

theorem sound_of_reachable (h : machine.Reachable w) : Sound w := by
  refine Machine.Reachable.invariant ?_ ?_ h
  · rintro _ rfl
    exact sound_start
  · intro w e w' hw hs
    exact sound_step hw hs

/-- No signal that the host does not handle. -/
def Event.Handled : Event → Prop
  | .signal (.fatal _) => False
  | _ => True

/-- Until such a signal comes, the host ends with its whole group. -/
theorem empty_step (hw : Sound w) (h : w.host.Over → w.members = []) {e : Event} (he : e.Handled)
    (hs : Step w e w') : w'.host.Over → w'.members = [] := by
  intro hover
  cases hs with
  | host hs =>
    cases hs with
    | refuse hp => exact hw.unborn (hw.early (.inl hp))
    | execFails hp => exact hw.unborn (hw.early (.inr hp))
    | killGroup _ => rfl
    | spawn _ => obtain ⟨_, hx⟩ := hover; cases hx
    | arm _ => obtain ⟨_, hx⟩ := hover; cases hx
    | seeExit _ _ _ => obtain ⟨_, hx⟩ := hover; cases hx
    | seeStop _ _ => obtain ⟨_, hx⟩ := hover; cases hx
    | seeEof _ _ => obtain ⟨_, hx⟩ := hover; cases hx
    | monitorFails _ _ _ => obtain ⟨_, hx⟩ := hover; cases hx
    | noticeExit _ _ _ => obtain ⟨_, hx⟩ := hover; cases hx
    | reap _ _ _ => obtain ⟨_, hx⟩ := hover; cases hx
    | graceEnds _ => obtain ⟨_, hx⟩ := hover; cases hx
    | report _ _ => obtain ⟨_, hx⟩ := hover; cases hx
  | worker hs =>
    have hframe : (w'.host = w.host ∧ w'.members = w.members) ∨ w'.members = [] := by
      cases hs with
      | sweep _ => exact .inr rfl
      | stopAgain _ _ =>
        left
        simp only [World.capture]
        split_ifs <;> exact ⟨rfl, rfl⟩
      | result _ _ _ =>
        left
        simp only [World.capture]
        split_ifs <;> exact ⟨rfl, rfl⟩
      | omitted _ _ =>
        left
        simp only [World.capture]
        split_ifs <;> exact ⟨rfl, rfl⟩
      | _ => exact .inl ⟨rfl, rfl⟩
    rcases hframe with ⟨hhost, hmembers⟩ | hnone
    · rw [hmembers]
      exact h (hhost ▸ hover)
    · exact hnone
  | caught s _ _ hnot => exact (hnot hover).elim
  | early s _ hp => exact hw.unborn (hw.early (.inl hp))
  | ignored => exact h hover
  | fatal n _ => exact he.elim
  | childExits code _ =>
    have hnone := h hover
    simp only [hnone, List.erase_nil]
  | fork p pid hp =>
    rw [h hover] at hp
    cases hp
  | memberExits pid =>
    have hnone := h hover
    simp only [hnone, List.erase_nil]
  | adopted _ _ => exact h hover

/-- What a worker may rely on. -/
structure Fenced (w : World) : Prop where
  /-- A stop returns once the host has ended and its group was swept. -/
  stopped : ∀ value ∈ w.returned, w.host.Over ∧ w.swept = true ∧ w.members = []
  /-- While the worker lives, the host's process id is held up to the sweep. -/
  held : w.released = true → w.worker = .dead ∨ w.swept = true ∧ w.members = []
  /-- A returned zero is the exit of the child itself. -/
  honest : 0 ∈ w.returned → w.child = .reaped 0

/-- Whatever the order in which the child, its descendants, the worker and the host end: the group is
swept before a stop returns, and as long as no signal comes that the host does not handle, the host never
ends with a member of the group left. -/
theorem owned_child_fenced (h : machine.Reachable w) : Fenced w ∧
    (machine.Reaches (fun _ e => e.Handled) w → w.host.Over → w.members = []) := by
  have hw := sound_of_reachable h
  refine ⟨⟨fun value hv => ?_, fun hr => ?_, fun hz => (hw.returned 0 hz).2 rfl⟩, fun hr => ?_⟩
  · have hswept := (hw.returned value hv).1
    exact ⟨(hw.swept hswept).2, hswept, (hw.swept hswept).1⟩
  · exact (hw.released hr).imp_right fun hs => ⟨hs, (hw.swept hs).1⟩
  · have hboth : Sound w ∧ (w.host.Over → w.members = []) := by
      refine Machine.Reaches.invariant (I := fun w => Sound w ∧ (w.host.Over → w.members = [])) ?_ ?_ hr
      · rintro _ rfl
        exact ⟨sound_start, fun _ => rfl⟩
      · rintro w past e w' ⟨hsound, hempty⟩ he hs
        exact ⟨sound_step hsound hs, empty_step hsound hempty he hs⟩
    exact hboth.2

/-- The child has exited and the worker has stopped its host. -/
def stopped : World :=
  { worker := .idle, lease := false, returncode := some sigkill, statusOpen := false
    actualReturncode := some 0, returned := [0], host := .ended sigkill, receipt := some 0
    child := .reaped 0, members := [], swept := true, released := true }

theorem stopped_reached : machine.Reaches (fun _ e => e.Handled) stopped := by
  have h0 : machine.History (fun _ e => e.Handled) [({} : World)] := .start rfl
  have h1 := h0.step (i := Event.host) trivial (Step.host (.arm rfl))
  have h2 := h1.step (i := Event.host) trivial (Step.host (.spawn rfl))
  have h3 := h2.step (i := Event.child) trivial (Step.childExits 0 rfl)
  have h4 := h3.step (i := Event.host) trivial (Step.host (.seeExit 0 rfl rfl))
  have h5 := h4.step (i := Event.host) trivial (Step.host (.reap 0 rfl rfl))
  have h6 := h5.step (i := Event.host) trivial (Step.host (.report 0 rfl))
  have h7 := h6.step (i := Event.host) trivial (Step.host (.killGroup rfl))
  have h8 := h7.step (i := Event.worker) trivial (Step.worker (.stop rfl rfl))
  have h9 := h8.step (i := Event.worker) trivial (Step.worker (.observe rfl ⟨_, rfl⟩))
  have h10 := h9.step (i := Event.worker) trivial (Step.worker (.sweep rfl))
  have h11 := h10.step (i := Event.worker) trivial (Step.worker (.wait sigkill rfl rfl))
  exact ⟨_, h11.step (i := Event.worker) trivial (Step.worker (.result 0 rfl rfl))⟩

theorem owned_child_fenced_stopped : Fenced stopped ∧ stopped.members = [] :=
  ⟨(owned_child_fenced stopped_reached.reachable).1,
    (owned_child_fenced stopped_reached.reachable).2 stopped_reached ⟨_, rfl⟩⟩

/-- SIGQUIT ends the host and leaves the child. -/
theorem quit_leaves_child :
    ¬ ∀ w, machine.Reachable w → w.child ≠ .unborn → w.host.Over → w.members = [] := by
  intro hall
  have h0 : machine.Reachable {} := Machine.reachable_start rfl
  have h1 := h0.next (Step.host (.arm rfl))
  have h2 := h1.next (Step.host (.spawn rfl))
  have h3 := h2.next (Step.fatal 2 (by rintro ⟨_, he⟩; cases he))
  have hnone := hall _ h3 nofun ⟨_, rfl⟩
  cases hnone

end Danus.OwnedChild
