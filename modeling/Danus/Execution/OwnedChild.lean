import Danus.Lib.Machine

/-! A paid child under its host: the worker that holds the lease, the host that holds the process group,
and the processes of the group. -/
namespace Danus.OwnedChild
open Machines

/-- Signals a host may get, SIGKILL apart. -/
inductive Signal where
  | term | int | hup
  /-- SIGPIPE and SIGXFSZ, which Python ignores, and those whose default is to do nothing. -/
  | ignored
  /-- A signal that nothing handles and whose default is to terminate; its number is one more. -/
  | fatal (n : Nat)
  deriving DecidableEq

/-- What a process that dies of a signal reports. -/
def Signal.status : Signal → Int
  | .term => -15
  | .int => -2
  | .hup => -1
  | .ignored => 0
  | .fatal n => -((n : Int) + 1)

/-- The handlers of `main` -/
def Signal.Caught (s : Signal) : Prop := s = .term ∨ s = .int ∨ s = .hup

def sigkill : Int := -9

/-- Where the host stands. -/
inductive Host where
  | starting
  /-- The handlers are set, the child is not started. -/
  | armed
  | polling
  /-- `_stop_own_group` has sent its TERM. -/
  | terminating (leaderExited : Bool)
  /-- `child_rc` -/
  | settled (rc : Int)
  | reported
  | ended (status : Int)
  deriving DecidableEq

inductive Child where
  | unborn | live
  | exited (code : Int)
  | reaped (code : Int)
  deriving DecidableEq

/-- Where the worker stands in `stop_owned_child`. -/
inductive Worker where
  | idle | polling | observed | swept | reaped | dead
  deriving DecidableEq

/-- A process of the group other than the host. -/
inductive Member where
  | child
  | descendant (pid : Nat)
  deriving DecidableEq

/-- `released` is the host's process id; `swept` is set by a group SIGKILL that found the host ended or
ended it. -/
structure World where
  worker : Worker := .idle
  lease : Bool := true
  returncode : Option Int := none
  statusOpen : Bool := true
  actualReturncode : Option Int := none
  returned : List Int := []
  host : Host := .starting
  stopRequested : Bool := false
  receipt : Option Int := none
  child : Child := .unborn
  members : List Member := []
  swept : Bool := false
  released : Bool := false

def Host.Over (h : Host) : Prop := ∃ status, h = .ended status

/-- Every process of the group but the host gets SIGKILL. -/
def World.killGroup (w : World) : World :=
  { w with
    members := []
    child := if w.child = .live then .exited sigkill else w.child
    swept := true }

/-- `_capture_actual_returncode` -/
def World.capture (w : World) : World :=
  if w.statusOpen then
    { w with
      statusOpen := false
      actualReturncode :=
        (w.receipt.filter fun value => -255 ≤ value && value ≤ 255).or w.actualReturncode }
  else w

/-- `owned_child_returncode` -/
def World.ownedChildReturncode (w : World) : Option Int := w.actualReturncode.or w.returncode

/-- Who moves. -/
inductive Event where
  | worker | host | init
  | signal (s : Signal)
  | child | member

/-- One step of `owned_child_host.main` -/
inductive HostStep (w : World) : World → Prop where
  | refuse : w.host = .starting → HostStep w { w with host := .ended 126 }
  | arm : w.host = .starting → HostStep w { w with host := .armed }
  | execFails : w.host = .armed → HostStep w { w with receipt := some 127, host := .ended 127 }
  | spawn : w.host = .armed → HostStep w { w with child := .live, members := [.child], host := .polling }
  | seeExit (code : Int) : w.host = .polling → w.child = .exited code →
      HostStep w { w with host := .terminating true }
  | seeStop : w.host = .polling → w.stopRequested = true → HostStep w { w with host := .terminating false }
  | seeEof : w.host = .polling → w.lease = false → HostStep w { w with host := .terminating false }
  /-- The monitor raises; the leader is looked at once more. -/
  | monitorFails (leaderExited : Bool) : w.host = .polling →
      (leaderExited = true → ∃ code, w.child = .exited code) →
      HostStep w { w with host := .terminating leaderExited }
  | noticeExit (code : Int) : w.host = .terminating false → w.child = .exited code →
      HostStep w { w with host := .terminating true }
  | reap (code : Int) : w.host = .terminating true → w.child = .exited code →
      HostStep w { w with child := .reaped code, host := .settled code }
  | graceEnds : w.host = .terminating false → HostStep w { w with host := .settled sigkill }
  /-- Nobody may be left to read it. -/
  | report (rc : Int) : w.host = .settled rc → HostStep w { w with receipt := some rc, host := .reported }
  | killGroup : w.host = .reported → HostStep w { w.killGroup with host := .ended sigkill }

/-- One step of `stop_owned_child` in the worker, or the worker's death. -/
inductive WorkerStep (w : World) : World → Prop where
  | stop : w.worker = .idle → w.returncode = none →
      WorkerStep w { w with lease := false, worker := .polling }
  | stopAgain : w.worker = .idle → w.returncode ≠ none →
      WorkerStep w { w.capture with
        lease := false
        returned := (w.capture.ownedChildReturncode.getD 0) :: w.returned }
  | observe : w.worker = .polling → w.host.Over → WorkerStep w { w with worker := .observed }
  | timeout : w.worker = .polling → WorkerStep w { w with worker := .idle }
  | sweep : w.worker = .observed → WorkerStep w { w.killGroup with worker := .swept }
  | wait (status : Int) : w.worker = .swept → w.host = .ended status →
      WorkerStep w { w with returncode := some status, released := true, worker := .reaped }
  | result (value : Int) : w.worker = .reaped → w.capture.ownedChildReturncode = some value →
      WorkerStep w { w.capture with returned := value :: w.returned, worker := .idle }
  | omitted : w.worker = .reaped → w.capture.ownedChildReturncode = none →
      WorkerStep w { w.capture with worker := .idle }
  | die : w.worker ≠ .dead → WorkerStep w { w with lease := false, worker := .dead }

inductive Step (w : World) : Event → World → Prop where
  | host {w' : World} : HostStep w w' → Step w .host w'
  | worker {w' : World} : WorkerStep w w' → Step w .worker w'
  | caught (s : Signal) : s.Caught → w.host ≠ .starting → ¬ w.host.Over →
      Step w (.signal s) { w with stopRequested := true }
  | early (s : Signal) : s.Caught → w.host = .starting →
      Step w (.signal s) { w with host := .ended s.status }
  | ignored : Step w (.signal .ignored) w
  | fatal (n : Nat) : ¬ w.host.Over →
      Step w (.signal (.fatal n)) { w with host := .ended (Signal.fatal n).status }
  | childExits (code : Int) : w.child = .live →
      Step w .child { w with child := .exited code, members := w.members.erase .child }
  | fork (p : Member) (pid : Nat) : p ∈ w.members →
      Step w .member { w with members := .descendant pid :: w.members }
  | memberExits (pid : Nat) : Step w .member { w with members := w.members.erase (.descendant pid) }
  /-- The host of a dead worker is reaped by init. -/
  | adopted : w.worker = .dead → w.host.Over → Step w .init { w with released := true }

/-- The worker has just spawned the host. -/
def machine : Machine World Event where
  start w := w = {}
  step := Step

end Danus.OwnedChild
