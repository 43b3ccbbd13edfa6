import Nilix.Ipc.TaskSignals

/-!
# Waiting on a queue, step by step

Tasks wait on one queue in two ways: `try_prepare_to_wait_with_capacity` followed by `finish_wait`, and
`try_prepare_with_timeout_after` followed by `finish_prepared`.  Each section under the lock of the
queue and each look at a task under its own lock is one step, so the wakers, the timer and the senders
of signals come in between.

A task becomes runnable by a waker, which takes its entry off the queue, or by the timer or a sender,
which leave the entry to the task itself.
-/

namespace Nilix.Ipc

open Function

/-! ## Entries and markers -/

/-- An entry of the queue: the task and the stamp of its wait. -/
abbrev WaitQueueEntry := ProcessId × UInt64

/-- The bit that tells the generation of a process from the number of a wait. -/
def processGenTag : UInt64 := (1 : UInt64) <<< 63

def stampProcessGeneration (processGen : UInt64) : UInt64 :=
  (processGen &&& ~~~processGenTag) ||| processGenTag

def isProcessGenerationStamp (entryGen : UInt64) : Bool := entryGen &&& processGenTag != 0

def unstampProcessGeneration (entryGen : UInt64) : UInt64 := entryGen &&& ~~~processGenTag

def packTimeoutMarker (generation : UInt64) : UInt64 := (generation <<< 1) ||| 1

/-- Whether a marker says that the wait with this generation timed out. -/
def consumeTimeoutMarker (raw expected : UInt64) : Bool :=
  if raw &&& 1 = 0 then false else raw >>> 1 = expected

/-- A timer of a wait. -/
structure TimedWaiter where
  pid : ProcessId
  seq : UInt64
  generation : UInt64
  deriving DecidableEq

/-- The claim of a task on its armed wait. -/
structure WaitTicket where
  generation : UInt64
  waitSeq : Option UInt64
  /-- Only a kill or an exec handoff ends the wait, no signal. -/
  killable : Bool
  deriving DecidableEq

/-- How a task waits: with `finish_wait` or with `finish_prepared`. -/
inductive Wait
  | plain
  | prepared (ticket : WaitTicket)
  deriving DecidableEq

/-- Where a task stands in a wait on the queue. -/
inductive WaitPhase
  /-- Not in a wait on this queue: not started, or returned. -/
  | idle
  /-- The number of the wait is drawn; the task looks whether the queue is closed. -/
  | preparing (ticket : WaitTicket)
  /-- The queue was open; the task takes its lock. -/
  | arming (ticket : WaitTicket)
  /-- Queued and blocked; the caller has not finished the wait yet. -/
  | armed (wait : Wait)
  /-- `block_until_resolved` looks at the scheduler state. -/
  | loopState (wait : Wait)
  /-- The task was still blocked; the loop asks for a kill or an exec handoff. -/
  | loopAbort (wait : Wait)
  /-- There was none; the loop asks for a signal. -/
  | loopSignal (wait : Wait)
  /-- The timer of the wait is cancelled. -/
  | cancelTimer (ticket : WaitTicket) (seq : UInt64)
  /-- The task is taken out of its timed wait. -/
  | clearSeq (ticket : WaitTicket) (seq : UInt64)
  /-- The final check asks for a kill or an exec handoff. -/
  | checkAbort (wait : Wait)
  /-- The final check asks for a signal. -/
  | checkSignal (wait : Wait)
  /-- The final check asks for the timeout of this wait. -/
  | checkTimeout (ticket : WaitTicket)
  /-- `finish_wait` takes the entry back. -/
  | cancelling
  /-- `finish_prepared` takes the entry back after an interruption. -/
  | removeInterrupted (ticket : WaitTicket)
  /-- The entry is gone; a timeout of this wait is dropped. -/
  | consumeInterrupted (ticket : WaitTicket)
  /-- `finish_prepared` takes the entry back after a timeout. -/
  | removeTimedOut (ticket : WaitTicket)
  deriving DecidableEq

/-- The queue, the timers, the tasks, and where each task stands. -/
structure WaitWorld where
  waiters : List WaitQueueEntry
  closed : Bool
  /-- The number of the next wait of this queue. -/
  waitGeneration : UInt64
  /-- The number of the next timed wait of any queue. -/
  nextWaitSeq : UInt64
  /-- The timed waits that are registered. -/
  timedWaiters : List TimedWaiter
  /-- The copies of expired timers that the timer tick has not acted on. -/
  expired : List TimedWaiter
  proc : ProcessId → Process
  group : ℕ → ThreadGroup
  phase : ProcessId → WaitPhase

namespace WaitWorld

variable (w : WaitWorld) (pid : ProcessId)

/-- The group of a task. -/
def groupOf : ThreadGroup := w.group (w.proc pid).threadGroup

/-- A task is queued. -/
def Queued : Prop := pid ∈ w.waiters.map Prod.fst

instance (w : WaitWorld) (pid : ProcessId) : Decidable (w.Queued pid) :=
  inferInstanceAs (Decidable (_ ∈ _))

def setProc (proc : Process) : WaitWorld :=
  { w with proc := update w.proc pid proc }

def goto (phase : WaitPhase) : WaitWorld :=
  { w with phase := update w.phase pid phase }

def hasDeliverableSignal (w : WaitWorld) (pid : ProcessId) : Bool :=
  (w.proc pid).hasDeliverableSignal (w.groupOf pid)

def shouldAbortPendingBlock (w : WaitWorld) (pid : ProcessId) : Bool :=
  (w.proc pid).shouldAbortPendingBlock (w.groupOf pid)

def waitShouldAbort : Bool := (w.proc pid).waitAbortLocked

/-! ## Arming a wait -/

/-- Put a task at the end of the queue with a stamp; an entry it still has is stamped anew. -/
def enqueue (pid : ProcessId) (stamp : UInt64) : List WaitQueueEntry → List WaitQueueEntry
  | [] => [(pid, stamp)]
  | e :: waiters => if e.1 = pid then (pid, stamp) :: waiters else e :: enqueue pid stamp waiters

/-- `try_prepare_to_wait_with_capacity`; `room` says whether the queue has space for an entry. -/
def tryPrepareToWaitWithCapacity (room : Bool) : WaitWorld :=
  if w.closed || w.shouldAbortPendingBlock pid then w
  else if ¬ w.Queued pid ∧ room = false then w
  else
    let stamped := { w with
      waiters := enqueue pid (stampProcessGeneration (w.proc pid).generation) w.waiters }
    (stamped.setProc pid (w.proc pid).enterBlocked).goto pid (.armed .plain)

/-- The start of `try_prepare_with_timeout_after`: the numbers of the wait are drawn. -/
def beginPrepare (timed killable : Bool) : WaitWorld :=
  let ticket : WaitTicket :=
    ⟨w.waitGeneration, if timed then some w.nextWaitSeq else none, killable⟩
  { w with
    waitGeneration := w.waitGeneration + 1
    nextWaitSeq := if timed then w.nextWaitSeq + 1 else w.nextWaitSeq }.goto pid (.preparing ticket)

/-- Whether an arm gives up: a killable wait does so for no signal. -/
def armMustAbort (killable : Bool) : Bool :=
  if killable then w.waitShouldAbort pid else w.shouldAbortPendingBlock pid

/-- Register the timer of a wait, in place of an older one of the task. -/
def registerTimer (timer : TimedWaiter) : List TimedWaiter → List TimedWaiter
  | [] => [timer]
  | t :: timers => if t.pid = timer.pid then timer :: timers else t :: registerTimer timer timers

/-- The section of `try_prepare_inner` under the lock of the queue: `room` and `timerRoom` say whether
an entry and a timer find space, `checked` whether the condition of the caller still asks for a
wait. -/
def arm (ticket : WaitTicket) (room checked timerRoom : Bool) : WaitWorld :=
  if ¬ w.Queued pid ∧ room = false then w.goto pid (.preparing ticket)
  else if checked = false then w.goto pid .idle
  else if ticket.waitSeq.isSome ∧ pid ∉ w.timedWaiters.map TimedWaiter.pid ∧ timerRoom = false then
    w.goto pid (.preparing ticket)
  else if w.armMustAbort pid ticket.killable then w.goto pid .idle
  else
    let proc := { w.proc pid with
      wqTimeoutMarker := 0
      activeWaitSeq := ticket.waitSeq.getD (w.proc pid).activeWaitSeq }
    let timers := match ticket.waitSeq with
      | some seq => registerTimer ⟨pid, seq, ticket.generation⟩ w.timedWaiters
      | none => w.timedWaiters
    ({ w with
        waiters := enqueue pid ticket.generation w.waiters
        timedWaiters := timers }.setProc pid proc.enterBlocked).goto pid (.armed (.prepared ticket))

/-! ## Taking an entry back -/

def removeWaiterExact (generation : UInt64) : WaitWorld :=
  { w with waiters := w.waiters.filter fun e => e.1 != pid || e.2 != generation }

/-- `cancel_wait`: take the first entry of the task back and undo its block. -/
def cancelWait : WaitWorld :=
  if w.Queued pid then
    let removed := { w with waiters := w.waiters.eraseP fun e => e.1 = pid }
    if (w.proc pid).state = .blocked then removed.setProc pid (w.proc pid).enterReady else removed
  else w

/-- `consume_timeout_flag`: the marker is cleared. -/
def clearTimeoutMarker : WaitWorld :=
  w.setProc pid { w.proc pid with wqTimeoutMarker := 0 }

/-! ## Finishing a wait -/

/-- Where a wait goes on once `block_until_resolved` returned. -/
def resolved : Wait → WaitPhase
  | .plain => .checkAbort .plain
  | .prepared ticket =>
    match ticket.waitSeq with
    | some seq => .cancelTimer ticket seq
    | none => .checkAbort (.prepared ticket)

/-- Whether a wait is killable; `finish_wait` has no such waits. -/
def killable : Wait → Bool
  | .plain => false
  | .prepared ticket => ticket.killable

/-- Where an interrupted wait takes its entry back. -/
def interrupted : Wait → WaitPhase
  | .plain => .cancelling
  | .prepared ticket => .removeInterrupted ticket

/-- Where a wait goes on when nothing interrupted it: `finish_wait` returns. -/
def uninterrupted : Wait → WaitPhase
  | .plain => .idle
  | .prepared ticket => .checkTimeout ticket

/-- The next step of a task in `finish_wait` or `finish_prepared`. -/
def step : WaitWorld :=
  match w.phase pid with
  | .preparing ticket => w.goto pid (if w.closed then .idle else .arming ticket)
  | .loopState wait =>
    w.goto pid (if (w.proc pid).state = .blocked then .loopAbort wait else resolved wait)
  | .loopAbort wait =>
    w.goto pid (if w.waitShouldAbort pid then resolved wait
      else if killable wait then .loopState wait else .loopSignal wait)
  | .loopSignal wait =>
    w.goto pid (if w.hasDeliverableSignal pid then resolved wait else .loopState wait)
  | .cancelTimer ticket seq =>
    { w with timedWaiters := w.timedWaiters.filter fun t => t.pid != pid || t.seq != seq }.goto pid
      (.clearSeq ticket seq)
  | .clearSeq ticket seq =>
    let proc := if (w.proc pid).activeWaitSeq = seq then { w.proc pid with activeWaitSeq := 0 }
      else w.proc pid
    (w.setProc pid proc).goto pid (.checkAbort (.prepared ticket))
  | .checkAbort wait =>
    w.goto pid (if w.waitShouldAbort pid then interrupted wait
      else if killable wait then uninterrupted wait else .checkSignal wait)
  | .checkSignal wait =>
    w.goto pid (if w.hasDeliverableSignal pid then interrupted wait else uninterrupted wait)
  | .checkTimeout ticket =>
    (w.clearTimeoutMarker pid).goto pid
      (if consumeTimeoutMarker (w.proc pid).wqTimeoutMarker ticket.generation then
        .removeTimedOut ticket else .idle)
  | .cancelling => (w.cancelWait pid).goto pid .idle
  | .removeInterrupted ticket =>
    (w.removeWaiterExact pid ticket.generation).goto pid (.consumeInterrupted ticket)
  | .consumeInterrupted _ => (w.clearTimeoutMarker pid).goto pid .idle
  | .removeTimedOut ticket => (w.removeWaiterExact pid ticket.generation).goto pid .idle
  | .idle => w
  | .arming _ => w
  | .armed _ => w

/-! ## Wakers and timers -/

/-- Whether a waker readies the task of an entry: it is blocked, and a stamp of a process generation
names the process that has the number now. -/
def wakeable (entry : WaitQueueEntry) (proc : Process) : Bool :=
  proc.state = .blocked &&
    (!isProcessGenerationStamp entry.2 || unstampProcessGeneration entry.2 = proc.generation)

/-- `wake_one`: take entries off the front until a task was readied. -/
def wakeOne (proc : ProcessId → Process) :
    List WaitQueueEntry → Option ProcessId × List WaitQueueEntry × (ProcessId → Process)
  | [] => (none, [], proc)
  | e :: waiters =>
    if wakeable e (proc e.1) then
      (some e.1, waiters, update proc e.1 (proc e.1).enterReady)
    else wakeOne proc waiters

/-- `wake_n`: take entries off the front until `n` tasks were readied. -/
def wakeN : ℕ → (ProcessId → Process) → List WaitQueueEntry →
    List WaitQueueEntry × (ProcessId → Process)
  | 0, proc, waiters => (waiters, proc)
  | _ + 1, proc, [] => ([], proc)
  | n + 1, proc, e :: waiters =>
    if wakeable e (proc e.1) then
      wakeN n (update proc e.1 (proc e.1).enterReady) waiters
    else wakeN (n + 1) proc waiters

/-- `wake_all`: take all entries off. -/
def wakeAll : (ProcessId → Process) → List WaitQueueEntry → ProcessId → Process
  | proc, [] => proc
  | proc, e :: waiters =>
    if wakeable e (proc e.1) then
      wakeAll (update proc e.1 (proc e.1).enterReady) waiters
    else wakeAll proc waiters

/-- `wake_specific_if`: take the first entry of one task off. -/
def wakeSpecificIf (stillWanted : Bool) : WaitWorld :=
  if stillWanted = false then w
  else
    match w.waiters.find? fun e => e.1 = pid with
    | none => w
    | some e =>
      let removed := { w with waiters := w.waiters.eraseP fun e => e.1 = pid }
      if wakeable e (w.proc pid) then removed.setProc pid (w.proc pid).enterReady else removed

/-- `wq_timeout_wake_by_seq`: ready the task if it is blocked in the timed wait of this timer. -/
def wqTimeoutWakeBySeq (proc : Process) (timer : TimedWaiter) : Process :=
  if proc.activeWaitSeq = timer.seq ∧ proc.state = .blocked then
    { proc with
      wqTimeoutMarker := packTimeoutMarker timer.generation
      activeWaitSeq := 0 }.enterReady
  else proc

/-! ## Runs -/

/-- The steps of tasks, wakers, the timer and senders. -/
inductive Event
  | prepareToWait (pid : ProcessId) (room : Bool)
  | beginPrepare (pid : ProcessId) (timed killable : Bool)
  | arm (pid : ProcessId) (room checked timerRoom : Bool)
  /-- The caller found its condition true after it had armed the wait. -/
  | cancel (pid : ProcessId)
  | finish (pid : ProcessId)
  | step (pid : ProcessId)
  | wakeOne
  | wakeN (n : ℕ)
  | wakeAll
  | wakeSpecificIf (pid : ProcessId) (stillWanted : Bool)
  /-- The store of `close`, which goes on with `wakeAll`. -/
  | close
  /-- The timer tick copies an expired timer. -/
  | expire (timer : TimedWaiter)
  /-- The timer tick acts on a copy. -/
  | timeout (timer : TimedWaiter)
  | sendSignal (pid : ProcessId) (scope : SignalScope) (signal : Signal)
  /-- A sender that lets another member take the group signals comes to a member. -/
  | retarget (pid : ProcessId) (pending : UInt64)
  /-- A sender that carries a stop or a resume to its group comes to a member. -/
  | jobControl (pid : ProcessId) (resume : Bool)
  /-- Anything else the kernel does to a task: the scheduler, the delivery of a signal, a new mask,
  other waits of the task, a fatal exit, an exec handoff. -/
  | kernel (pid : ProcessId) (proc : Process)
  | kernelGroup (group : ℕ) (data : ThreadGroup)
  /-- A timed wait on another queue draws its number. -/
  | allocWaitSeq

/-- Run one event; a step that is not due leaves the world as it is. -/
def exec : Event → WaitWorld
  | .prepareToWait pid room =>
    if w.phase pid = .idle then w.tryPrepareToWaitWithCapacity pid room else w
  | .beginPrepare pid timed killable =>
    if w.phase pid = .idle ∧ w.closed = false then w.beginPrepare pid timed killable else w
  | .arm pid room checked timerRoom =>
    match w.phase pid with
    | .arming ticket => w.arm pid ticket room checked timerRoom
    | _ => w
  | .cancel pid =>
    match w.phase pid with
    | .armed _ => (w.cancelWait pid).goto pid .idle
    | _ => w
  | .finish pid =>
    match w.phase pid with
    | .armed wait => w.goto pid (.loopState wait)
    | _ => w
  | .step pid => w.step pid
  | .wakeOne =>
    { w with waiters := (wakeOne w.proc w.waiters).2.1, proc := (wakeOne w.proc w.waiters).2.2 }
  | .wakeN n => { w with waiters := (wakeN n w.proc w.waiters).1, proc := (wakeN n w.proc w.waiters).2 }
  | .wakeAll => { w with waiters := [], proc := wakeAll w.proc w.waiters }
  | .wakeSpecificIf pid stillWanted => w.wakeSpecificIf pid stillWanted
  | .close => { w with closed := true }
  | .expire timer => if timer ∈ w.timedWaiters then { w with expired := timer :: w.expired } else w
  | .timeout timer =>
    if timer ∈ w.expired then
      { w with
        timedWaiters := w.timedWaiters.filter fun t => t.pid != timer.pid || t.seq != timer.seq
        expired := w.expired.erase timer }.setProc timer.pid
          (wqTimeoutWakeBySeq (w.proc timer.pid) timer)
    else w
  | .sendSignal pid scope signal =>
    let sent := (Process.sendSignalInner scope signal (w.proc pid) (w.groupOf pid)).1
    { w with group := update w.group (w.proc pid).threadGroup sent.2 }.setProc pid sent.1
  | .retarget pid pending => w.setProc pid ((w.proc pid).retargetSharedSignals pending).2
  | .jobControl pid resume =>
    w.setProc pid ((w.proc pid).propagateGroupJobControl resume (w.groupOf pid))
  | .kernel pid proc => w.setProc pid proc
  | .kernelGroup group data => { w with group := update w.group group data }
  | .allocWaitSeq => { w with nextWaitSeq := w.nextWaitSeq + 1 }

/-- A queue nobody waits on, over any tasks, groups and timers. -/
def start (proc : ProcessId → Process) (group : ℕ → ThreadGroup)
    (timedWaiters : List TimedWaiter) (waitGeneration nextWaitSeq : UInt64) : WaitWorld where
  waiters := []
  closed := false
  waitGeneration := waitGeneration
  nextWaitSeq := nextWaitSeq
  timedWaiters := timedWaiters
  expired := []
  proc := proc
  group := group
  phase := fun _ => .idle

/-- The world after a sequence of events. -/
def run (events : List Event) : WaitWorld := events.foldl exec w

end WaitWorld

end Nilix.Ipc
