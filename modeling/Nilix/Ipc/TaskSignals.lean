import Nilix.Ipc.WaitQueue

/-!
# Signals of a task

The part of a task that signals read and write, the two pending sets a task has, and what sending a
signal does to the task it was sent to.

A signal that was sent to a process is pending for the whole thread group and *chosen* for one of its
members.  `pendingBits` is everything a task could act on; `waitPendingBits` leaves out the group
signals that are chosen for another member, and only these interrupt a wait.
-/

namespace Nilix.Ipc

/-! ## Signals and dispositions -/

/-- A signal; the signal with number `n + 1` has the bit `n`. -/
structure Signal where
  index : Fin 64
  deriving DecidableEq

namespace Signal

def sigkill : Signal := ⟨8⟩
def sigusr1 : Signal := ⟨9⟩
def sigusr2 : Signal := ⟨11⟩
def sigchld : Signal := ⟨16⟩
def sigcont : Signal := ⟨17⟩
def sigstop : Signal := ⟨18⟩
def sigtstp : Signal := ⟨19⟩
def sigttin : Signal := ⟨20⟩
def sigttou : Signal := ⟨21⟩

variable (signal : Signal)

/-- The bit of a signal in a pending set. -/
def bit : UInt64 := 1 <<< UInt64.ofNat signal.index.val

/-- The signals that stop a task. -/
def isStop : Bool :=
  signal = sigstop || signal = sigtstp || signal = sigttin || signal = sigttou

def isContinue : Bool := signal = sigcont

/-- The signals that no handler and no mask holds back. -/
def isUncatchable : Bool := signal = sigkill || signal = sigstop

end Signal

/-- The default actions. -/
inductive SignalAction
  | terminate
  | stop
  | continue
  | ignore
  deriving DecidableEq

/-- The default action of a signal. -/
def defaultAction (signal : Signal) : SignalAction :=
  if signal.isContinue then .continue
  else if signal.isStop then .stop
  else if signal = .sigchld then .ignore
  else .terminate

/-- The handler of a signal, as it stands in the table: `0` asks for the default action and `1` for
none. -/
structure SigAction where
  handler : UInt64

def sigDfl : UInt64 := 0
def sigIgn : UInt64 := 1

/-- Whether a handler of the program is installed. -/
def SigAction.isHandler (sa : SigAction) : Bool := sa.handler != sigDfl && sa.handler != sigIgn

/-- What happens to a signal under a table of actions. -/
inductive Disposition
  | handler
  | default (action : SignalAction)
  | ignored
  deriving DecidableEq

/-- The disposition of a signal; those that cannot be caught take their default action. -/
def resolveDisposition (sigactions : Signal → SigAction) (signal : Signal) : Disposition :=
  if signal.isUncatchable then .default (defaultAction signal)
  else if (sigactions signal).isHandler then .handler
  else if (sigactions signal).handler = sigIgn then .ignored
  else .default (defaultAction signal)

/-- The mask of the signals that cannot be caught. -/
def uncatchableMask : UInt64 := Signal.sigkill.bit ||| Signal.sigstop.bit

/-- Whether a delivery acts on a signal: a handler runs unless one is running already, and a default
action that stops or terminates is always taken. -/
def actionable (inHandler : Bool) (sigactions : Signal → SigAction) (signal : Signal) : Bool :=
  match resolveDisposition sigactions signal with
  | .handler => !inHandler
  | .default .terminate => true
  | .default .stop => true
  | _ => false

/-- The lowest pending signal, not blocked, that a delivery acts on. -/
def selectForDelivery (pending blocked : UInt64) (inHandler : Bool)
    (sigactions : Signal → SigAction) : Option Signal :=
  let candidates := pending &&& ~~~(blocked &&& ~~~uncatchableMask)
  ((List.finRange 64).map Signal.mk).find? fun signal =>
    candidates &&& signal.bit != 0 && actionable inHandler sigactions signal

/-- Whether a signal that can be caught waits for delivery. -/
def signalIsDeliverable (pending blocked : UInt64) (inHandler : Bool)
    (sigactions : Signal → SigAction) : Bool :=
  (selectForDelivery (pending &&& ~~~uncatchableMask) blocked inHandler sigactions).isSome

/-! ## Tasks -/

/-- The scheduler states. -/
inductive ProcessState
  | provisioning
  | ready
  | running
  | blocked
  | stopped
  | sleeping
  | zombie
  | terminated
  deriving DecidableEq

/-- What a thread group shares. -/
structure ThreadGroup where
  /-- The signals sent to the group that no member has taken. -/
  sharedPending : UInt64
  exiting : Bool
  execDraining : Bool

/-- The fields of a task that waits and signals use. -/
structure Process where
  state : ProcessState
  /-- Whether job control holds the task. -/
  stopped : Bool
  onCpu : Bool
  generation : UInt64
  /-- The thread group of the task. -/
  threadGroup : ℕ
  groupLive : Bool
  pendingKill : Bool
  execHandoff : Bool
  /-- The signals sent to this task, and the group signals it claimed. -/
  pendingSignals : UInt64
  groupClaimed : UInt64
  /-- The group signals this task was chosen for. -/
  sharedChosen : UInt64
  /-- The mask of the task. -/
  blocked : UInt64
  inSignalHandler : Bool
  sigactions : Signal → SigAction
  /-- The generation of the wait that timed out, packed; `0` for none. -/
  wqTimeoutMarker : UInt64
  /-- The timed wait the task is in; `0` for none. -/
  activeWaitSeq : UInt64

namespace Process

variable (proc : Process) (group : ThreadGroup)

/-- Everything the task could act on. -/
def pendingBits : UInt64 :=
  proc.pendingSignals ||| group.sharedPending

/-- What interrupts a wait of the task. -/
def waitPendingBits : UInt64 :=
  proc.pendingSignals ||| (group.sharedPending &&& proc.sharedChosen)

/-- A fatal exit was posted, or an exec was handed to this task. -/
def waitAbortLocked : Bool := proc.pendingKill || proc.execHandoff

/-- Whether a signal ends the waits of the task. -/
def hasDeliverableSignal : Bool :=
  signalIsDeliverable (proc.waitPendingBits group) proc.blocked proc.inSignalHandler
    proc.sigactions

/-- Whether a task that is about to block has to give up. -/
def shouldAbortPendingBlock : Bool :=
  proc.waitAbortLocked || proc.hasDeliverableSignal group

def enterReady : Process := { proc with state := .ready }

def enterBlocked : Process := { proc with state := .blocked }

/-- Drop a signal from the set of the task and from that of its group. -/
def discardPending (signal : Signal) (p : Process × ThreadGroup) : Process × ThreadGroup :=
  ({ p.1 with
      pendingSignals := p.1.pendingSignals &&& ~~~signal.bit
      groupClaimed := p.1.groupClaimed &&& ~~~signal.bit },
    { p.2 with sharedPending := p.2.sharedPending &&& ~~~signal.bit })

/-- Post a fatal exit and make a parked task runnable. -/
def requestProcessExitLocked : Process :=
  if proc.state = .zombie ∨ proc.state = .terminated then proc
  else
    let activelyRunning := proc.onCpu && (proc.state = .running || proc.state = .ready)
    let needsReady := proc.state != .provisioning && !activelyRunning && proc.state != .ready
    let posted := { proc with pendingKill := true }
    { (if needsReady || (proc.state = .ready && proc.stopped) then posted.enterReady else posted) with
      stopped := false }

/-- Stop a task for job control, unless a fatal exit or an exec goes first. -/
def tryMarkJobControlStoppedLocked : Bool × Process :=
  if proc.pendingKill || proc.execHandoff || group.execDraining then (false, proc)
  else (true, { proc with stopped := true })

/-- Resume a task that job control stopped; a blocked one runs only to abort its wait. -/
def resumeJobControlLocked : Process :=
  if proc.state = .zombie ∨ proc.state = .terminated then proc
  else if !proc.stopped && proc.state != .stopped then proc
  else
    let makeReady := proc.state = .ready || proc.state = .stopped ||
      (proc.state = .blocked && proc.shouldAbortPendingBlock group)
    { (if makeReady then proc.enterReady else proc) with stopped := false }

end Process

/-! ## Sending a signal -/

/-- Whether a signal was sent to a task or to its process. -/
inductive SignalScope
  | process
  | thread
  deriving DecidableEq

/-- What the sender does for the rest of the group after it has released the task. -/
structure SendFollowUp where
  /-- Choose another member for the pending group signals. -/
  retarget : Bool
  /-- Carry a stop (`false`) or a resume (`true`) to the other members. -/
  groupJobControl : Option Bool

namespace Process

/-- Queue a signal: for the group, with this member chosen for it, or for the task. -/
def queueSignal (scope : SignalScope) (signal : Signal) (p : Process × ThreadGroup) :
    Process × ThreadGroup :=
  match scope with
  | .process =>
    ({ p.1 with sharedChosen := p.1.sharedChosen ||| signal.bit },
      { p.2 with sharedPending := p.2.sharedPending ||| signal.bit })
  | .thread =>
    ({ p.1 with
        pendingSignals := p.1.pendingSignals ||| signal.bit
        groupClaimed := p.1.groupClaimed &&& ~~~signal.bit }, p.2)

/-- A signal that continues discards the pending stops, and a stop the pending continue. -/
def discardOpposite (signal : Signal) (p : Process × ThreadGroup) : Process × ThreadGroup :=
  if signal.isContinue then
    discardPending .sigttou (discardPending .sigttin (discardPending .sigtstp
      (discardPending .sigstop p)))
  else if signal.isStop then discardPending .sigcont p
  else p

/-- Act on the disposition of a queued signal.  A blocked task is made ready for a handler when *any*
pending signal of the task or its group is deliverable. -/
def actOnDisposition (signal : Signal) (p : Process × ThreadGroup) :
    (Process × ThreadGroup) × Option Bool :=
  match resolveDisposition p.1.sigactions signal with
  | .handler =>
    let shouldWake := signalIsDeliverable (p.1.pendingBits p.2) p.1.blocked p.1.inSignalHandler
      p.1.sigactions
    (if shouldWake && p.1.state = .blocked && !p.1.stopped then (p.1.enterReady, p.2) else p, none)
  | .ignored => (discardPending signal p, none)
  | .default action =>
    if p.1.blocked &&& signal.bit != 0 && uncatchableMask &&& signal.bit = 0 then (p, none)
    else
      match action with
      | .terminate => ((p.1.requestProcessExitLocked, p.2), none)
      | .stop =>
        let marked := p.1.tryMarkJobControlStoppedLocked p.2
        (discardPending signal (marked.2, p.2), if marked.1 then some false else none)
      | .continue => (discardPending signal p, none)
      | .ignore => (discardPending signal p, none)

/-- The section of a send under the lock of the task. -/
def sendSignalInner (scope : SignalScope) (signal : Signal) (proc : Process) (group : ThreadGroup) :
    (Process × ThreadGroup) × SendFollowUp :=
  if proc.state = .zombie ∨ proc.state = .terminated then ((proc, group), ⟨false, none⟩)
  else
    let queued := discardOpposite signal (queueSignal scope signal (proc, group))
    let acted := actOnDisposition signal queued
    let p := acted.1
    let resumed :=
      if signal.isContinue then ((p.1.resumeJobControlLocked p.2, p.2), some true)
      else (p, acted.2)
    let cannotTake := resumed.1.1.blocked &&& signal.bit != 0 ||
      (resumed.1.1.inSignalHandler &&
        resolveDisposition proc.sigactions signal = .handler)
    if scope = .process && resumed.1.2.sharedPending &&& signal.bit != 0 && cannotTake then
      (({ resumed.1.1 with sharedChosen := resumed.1.1.sharedChosen &&& ~~~signal.bit },
        resumed.1.2), ⟨true, resumed.2⟩)
    else (resumed.1, ⟨false, resumed.2⟩)

/-- The section of a retarget under the lock of a member: whether the member was chosen for the
`pending` group signals, and the member after it.  A member that was chosen is made ready when it is
blocked. -/
def retargetSharedSignals (pending : UInt64) (proc : Process) : Bool × Process :=
  if !proc.groupLive || proc.pendingKill || proc.state = .provisioning || proc.state = .zombie ||
      proc.state = .terminated || proc.inSignalHandler || pending &&& ~~~proc.blocked = 0 then
    (false, proc)
  else
    let chosen := { proc with sharedChosen := proc.sharedChosen ||| (pending &&& ~~~proc.blocked) }
    (true, if proc.state = .blocked && !proc.stopped then chosen.enterReady else chosen)

/-- The section of a group-wide stop or resume under the lock of a member. -/
def propagateGroupJobControl (resume : Bool) (group : ThreadGroup) (proc : Process) : Process :=
  if proc.state = .provisioning ∨ proc.state = .zombie ∨ proc.state = .terminated then proc
  else if resume then proc.resumeJobControlLocked group
  else (proc.tryMarkJobControlStoppedLocked group).2

end Process

end Nilix.Ipc
