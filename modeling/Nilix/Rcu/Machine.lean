import Nilix.Foundation.Machine
import Nilix.Rcu.CallbackPool
import Nilix.Rcu.Epochs

/-!
# The CPUs that run RCU

`kernel/kernel_core/rcu.rs`, one atomic access at a time.  A *context* is a task or an interrupt handler:
it is in the middle of one operation of RCU (its `Frame` is the program counter), below which there may
be drains that are running a callback.  Every CPU has a stack of contexts, the interrupted ones below; the
top one takes the steps.  A task that is alone on its CPU can be taken off the CPU, and put on another
one later, when the CPU's preemption count is zero.  A failed assertion of the source leaves its context
in `Frame.panicked`.
-/

namespace Nilix.Rcu

open Function

/-- Which operation publishes a quiescent state, scans the CPUs or drains the callbacks. -/
inductive Caller where
  | quiescentState
  | timerTick
  | poll
  | synchronize (target : ℕ)
deriving DecidableEq

/-- Which operation allocates an epoch; `call_rcu_class` holds the lock of the pool then. -/
inductive Allocator where
  | synchronizeRcu
  | callRcu (slotIndex callback : ℕ) (args : ℕ × ℕ)
deriving DecidableEq

/-- The locals of `drain_callbacks_inner`. -/
structure Drain where
  caller : Caller
  doneEpoch : ℕ
  maxCallbacks : ℕ
  count : ℕ
deriving DecidableEq

/-- Where a context is in its operation, with the locals. -/
inductive Frame where
  | idle
  | panicked
  -- `rcu_read_lock`: the CPU was sampled; preemption is disabled on it
  | lockDisable (cpu : ℕ)
  | lockCount
  -- `rcu_read_unlock`
  | unlockLoad (cpu : ℕ)
  | unlockStore (cpu epoch : ℕ)
  | unlockEnable (cpu : ℕ)
  -- `rcu_quiescent_state`
  | quiescentCpu (caller : Caller)
  | quiescentReaders (caller : Caller) (cpu : ℕ)
  | quiescentLoad (caller : Caller)
  | quiescentCpuAgain (caller : Caller) (epoch : ℕ)
  | quiescentStore (caller : Caller) (epoch cpu : ℕ)
  -- `call_rcu_class` and `try_allocate_epoch`
  | callLock (kind : CallbackClass) (slotIndex callback : ℕ) (args : ℕ × ℕ)
  | allocateLoad (allocator : Allocator)
  | allocateExchange (allocator : Allocator) (current : ℕ)
  | callEnqueue (slotIndex target callback : ℕ) (args : ℕ × ℕ)
  | callCount
  -- `highest_quiescent_epoch`
  | scanGlobal (caller : Caller)
  | scanMask (caller : Caller) (global : ℕ)
  | scan (caller : Caller) (global safe : ℕ) (online : List ℕ)
  | scanMissing (caller : Caller) (global : ℕ)
  -- the raise of `COMPLETED_EPOCH`
  | complete (caller : Caller) (epoch : ℕ)
  | loadCompleted
  | loadBudget (completed : ℕ)
  -- `drain_callbacks`
  | acquire (drain : Drain)
  | pop (drain : Drain)
  | finish (drain : Drain) (slotIndex : ℕ)
  | uncount (drain : Drain)
  | release (drain : Drain)
deriving DecidableEq

/-- A task or an interrupt handler. -/
structure Context where
  frame : Frame
  /-- The drains whose callback is running, the innermost first, with the slot of the callback. -/
  suspended : List (Drain × ℕ)
  /-- How many read-side sections it is in. -/
  depth : ℕ
deriving DecidableEq

/-- A context that has done nothing yet. -/
def Context.new : Context := ⟨.idle, [], 0⟩

/-- What the end of a grace period allows: the start of a callback, or the return of `synchronize_rcu`,
with the epoch that it waited for. -/
inductive Observation where
  | callbackStarts (target : ℕ)
  | synchronizeReturns (target : ℕ)
deriving DecidableEq

/-- What the contexts share. -/
structure Shared where
  epochs : Epochs
  /-- `preempt_count` of a CPU. -/
  preemptCount : ℕ → ℕ
  /-- `CALLBACKS`, and whether its lock is held. -/
  callbacks : CallbackPool
  callbacksLocked : Bool
  /-- `CALLBACK_COUNT`. -/
  callbackCount : ℕ
  /-- `DRAIN_OWNER`. -/
  drainOwner : Bool
  log : List Observation

/-- The shared state at boot. -/
def Shared.boot : Shared := ⟨.boot, fun _ => 0, .new, false, 0, false, []⟩

def callbackDrainBudget (backlog : ℕ) : ℕ :=
  if 1024 ≤ backlog then 256 else if 256 ≤ backlog then 64 else 16

/-- The online CPUs in the order of `trailing_zeros`, CPU 0 when the mask is empty. -/
def onlineCpus (e : Epochs) : List ℕ :=
  let online := (List.range maxCpus).filter e.online
  if online.isEmpty then [0] else online

/-- Where `rcu_quiescent_state` returns to. -/
def Caller.afterQuiescent : Caller → Frame
  | .quiescentState => .idle
  | .timerTick => .scanGlobal .timerTick
  | .poll => .idle
  | .synchronize target => .scanGlobal (.synchronize target)

/-- Where the scan of the CPUs returns to: the loop of `synchronize_rcu` scans again. -/
def Caller.afterScan (caller : Caller) (safe : ℕ) : Frame :=
  match caller with
  | .synchronize target =>
    if target ≤ safe then .complete (.synchronize target) target
    else .scanGlobal (.synchronize target)
  | caller => .complete caller safe

/-- What follows the raise of `COMPLETED_EPOCH`, which is at `completed` now. -/
def Caller.afterComplete (caller : Caller) (completed : ℕ) : Frame :=
  match caller with
  | .synchronize target => .acquire ⟨.synchronize target, completed, usizeMax, 0⟩
  | .poll => .loadCompleted
  | _ => .idle

namespace Shared

/-- The end of a drain, which is the end of `poll` or of `synchronize_rcu`. -/
def endDrain (g : Shared) (drain : Drain) : Shared :=
  match drain.caller with
  | .synchronize target =>
    { g with drainOwner := false, log := .synchronizeReturns target :: g.log }
  | _ => { g with drainOwner := false }

/-- The next step of a context on a CPU. -/
def step (g : Shared) (cpu : ℕ) (ctx : Context) : Shared × Context :=
  let goto (frame : Frame) : Context := { ctx with frame }
  match ctx.frame with
  | .idle => (g, ctx)
  | .panicked => (g, ctx)
  | .lockDisable cpu' =>
    -- `rcu_preempt_disable_stable_cpu`: a task that has migrated undoes its count on the CPU that it
    -- sampled, which could only have kept others there, and samples again; readers run on online CPUs
    if cpu' ≠ cpu then (g, goto (.lockDisable cpu))
    else if g.epochs.online cpu then
      ({ g with preemptCount := update g.preemptCount cpu (g.preemptCount cpu + 1) },
        goto .lockCount)
    else (g, ctx)
  | .lockCount =>
    ({ g with epochs := g.epochs.enter cpu }, { ctx with frame := .idle, depth := ctx.depth + 1 })
  | .unlockLoad cpu' => (g, goto (.unlockStore cpu' g.epochs.globalEpoch))
  | .unlockStore cpu' epoch =>
    ({ g with epochs := g.epochs.publish cpu' epoch }, goto (.unlockEnable cpu'))
  | .unlockEnable cpu' =>
    ({ g with preemptCount := update g.preemptCount cpu' (g.preemptCount cpu' - 1) },
      goto .idle)
  | .quiescentCpu caller => (g, goto (.quiescentReaders caller cpu))
  | .quiescentReaders caller cpu' =>
    (g, goto (if g.epochs.readers cpu' = 0 then .quiescentLoad caller else caller.afterQuiescent))
  | .quiescentLoad caller => (g, goto (.quiescentCpuAgain caller g.epochs.globalEpoch))
  | .quiescentCpuAgain caller epoch => (g, goto (.quiescentStore caller epoch cpu))
  | .quiescentStore caller epoch cpu' =>
    ({ g with epochs := g.epochs.publish cpu' epoch }, goto caller.afterQuiescent)
  | .callLock kind slotIndex callback args =>
    if g.callbacksLocked then (g, ctx)
    else if slotIndex < callbackCapacity ∧ (g.callbacks.slots slotIndex).kind = kind then
      ({ g with callbacksLocked := true }, goto (.allocateLoad (.callRcu slotIndex callback args)))
    else ({ g with callbacksLocked := true }, goto .panicked)
  | .allocateLoad allocator =>
    let current := g.epochs.globalEpoch
    (g, goto (if current + 1 ≤ usizeMax then .allocateExchange allocator current else .panicked))
  | .allocateExchange allocator current =>
    if g.epochs.globalEpoch = current then
      ({ g with epochs := g.epochs.allocate },
        goto (match allocator with
          | .synchronizeRcu => .quiescentCpu (.synchronize (current + 1))
          | .callRcu slotIndex callback args => .callEnqueue slotIndex (current + 1) callback args))
    else (g, goto (.allocateLoad allocator))
  | .callEnqueue slotIndex target callback args =>
    match g.callbacks.enqueueReserved slotIndex target callback args with
    | some callbacks => ({ g with callbacks }, goto .callCount)
    | none => (g, goto .panicked)
  | .callCount =>
    ({ g with callbackCount := g.callbackCount + 1, callbacksLocked := false }, goto .idle)
  | .scanGlobal caller => (g, goto (.scanMask caller g.epochs.globalEpoch))
  | .scanMask caller global => (g, goto (.scan caller global global (onlineCpus g.epochs)))
  | .scan caller global safe online =>
    match online with
    | [] => (g, goto (caller.afterScan safe))
    | cpu' :: online =>
      (g, goto (if cpu' < maxCpus then .scan caller global (min safe (g.epochs.rcuEpoch cpu')) online
        else .scanMissing caller global))
  | .scanMissing caller global => (g, goto (caller.afterScan (min g.epochs.completedEpoch global)))
  | .complete caller epoch =>
    let completed := max g.epochs.completedEpoch epoch
    ({ g with epochs := g.epochs.complete epoch }, goto (caller.afterComplete completed))
  | .loadCompleted => (g, goto (.loadBudget g.epochs.completedEpoch))
  | .loadBudget completed =>
    (g, goto (.acquire ⟨.poll, completed, callbackDrainBudget g.callbackCount, 0⟩))
  | .acquire drain =>
    -- `poll` gives up when another drain is active, `synchronize_rcu` spins
    if g.drainOwner then (g, goto (if drain.caller = .poll then .idle else .acquire drain))
    else ({ g with drainOwner := true }, goto (.pop drain))
  | .pop drain =>
    if drain.count < drain.maxCallbacks then
      if g.callbacksLocked then (g, ctx)
      else
        match g.callbacks.popReady drain.doneEpoch with
        | none => (g, goto .panicked)
        | some none => (g, goto (.release drain))
        | some (some (ready, callbacks)) =>
          ({ g with callbacks, log := .callbackStarts ready.targetEpoch :: g.log },
            { ctx with frame := .idle, suspended := (drain, ready.slotIndex) :: ctx.suspended })
    else (g, goto (.release drain))
  | .finish drain slotIndex =>
    if g.callbacksLocked then (g, ctx)
    else
      match g.callbacks.finishRunning slotIndex with
      | some callbacks => ({ g with callbacks }, goto (.uncount drain))
      | none => (g, goto .panicked)
  | .uncount drain =>
    ({ g with callbackCount := g.callbackCount - 1 },
      goto (if g.callbackCount = 0 then .panicked else .pop { drain with count := drain.count + 1 }))
  | .release drain => (g.endDrain drain, goto .idle)

end Shared

/-! ## The operations -/

/-- What a context can call while it is in no operation, or from a callback. -/
inductive Operation where
  | rcuReadLock
  | rcuReadUnlock
  | rcuQuiescentState
  | rcuTimerTick
  | synchronizeRcu
  | callRcu (slotIndex callback : ℕ) (args : ℕ × ℕ)
  | callRcuStack (slotIndex pid callback : ℕ) (args : ℕ × ℕ)
  | poll
  | tryReserveCallback
  | tryReserveStackCallback (pid : ℕ)
  | dropPermit (slotIndex : ℕ)
  | quarantineRunningStackCallback (pid : ℕ)
deriving DecidableEq

namespace Shared

/-- A change of the pool under its lock. -/
def withCallbacks (g : Shared) (change : CallbackPool → CallbackPool) : Shared :=
  if g.callbacksLocked then g else { g with callbacks := change g.callbacks }

/-- The first step of an operation.  Each unlock has its lock. -/
def start (g : Shared) (cpu : ℕ) (ctx : Context) : Operation → Shared × Context
  | .rcuReadLock => (g, { ctx with frame := .lockDisable cpu })
  | .rcuReadUnlock =>
    if ctx.depth = 0 then (g, ctx)
    else
      ({ g with epochs := g.epochs.leave cpu },
        { ctx with
          depth := ctx.depth - 1
          frame := if g.epochs.readers cpu - 1 = 0 then .unlockLoad cpu else .unlockEnable cpu })
  | .rcuQuiescentState => (g, { ctx with frame := .quiescentCpu .quiescentState })
  | .rcuTimerTick => (g, { ctx with frame := .quiescentCpu .timerTick })
  | .synchronizeRcu => (g, { ctx with frame := .allocateLoad .synchronizeRcu })
  | .callRcu slotIndex callback args =>
    (g, { ctx with frame := .callLock .general slotIndex callback args })
  | .callRcuStack slotIndex pid callback args =>
    if 0 < pid ∧ pid ≤ stackCallbackCapacity ∧ slotIndex = pid - 1 then
      (g, { ctx with frame := .callLock .kernelStack slotIndex callback args })
    else (g, { ctx with frame := .panicked })
  | .poll => (g, { ctx with frame := .scanGlobal .poll })
  | .tryReserveCallback =>
    (g.withCallbacks fun p =>
      (p.reserveInRange .general stackCallbackCapacity callbackCapacity).1, ctx)
  | .tryReserveStackCallback pid =>
    if pid = 0 ∨ stackCallbackCapacity < pid then (g, ctx)
    else (g.withCallbacks fun p => (p.reserveExact .kernelStack (pid - 1)).1, ctx)
  | .dropPermit slotIndex =>
    (g.withCallbacks fun p => ((p.releaseReserved slotIndex).map (·.1)).getD p, ctx)
  | .quarantineRunningStackCallback pid =>
    if pid = 0 ∨ stackCallbackCapacity < pid then (g, { ctx with frame := .panicked })
    else (g.withCallbacks fun p => (p.quarantineRunningStack (pid - 1)).1, ctx)

end Shared

/-! ## Runs -/

/-- The CPUs, and the tasks that are on no CPU. -/
structure Machine where
  shared : Shared
  stack : ℕ → List Context
  waiting : List Context

/-- What can happen next. -/
inductive Event where
  | start (cpu : ℕ) (operation : Operation)
  | step (cpu : ℕ)
  | callbackReturns (cpu : ℕ)
  | irqEnter (cpu : ℕ)
  | irqExit (cpu : ℕ)
  | spawn
  | preempt (cpu : ℕ)
  | dispatch (cpu index : ℕ)
  | markCpuOnline (cpu : ℕ)
deriving DecidableEq

namespace Machine

/-- The machine at boot. -/
def boot : Machine := ⟨.boot, fun _ => [], []⟩

/-- The top context of a CPU takes a step. -/
def onTop (m : Machine) (cpu : ℕ) (f : Shared → Context → Shared × Context) : Machine :=
  match m.stack cpu with
  | [] => m
  | ctx :: below =>
    let (shared, ctx) := f m.shared ctx
    { m with shared, stack := update m.stack cpu (ctx :: below) }

/-- An event; one that cannot happen changes nothing. -/
def exec (m : Machine) : Event → Machine
  | .start cpu operation =>
    m.onTop cpu fun g ctx => if ctx.frame = .idle then g.start cpu ctx operation else (g, ctx)
  | .step cpu => m.onTop cpu fun g ctx => g.step cpu ctx
  | .callbackReturns cpu =>
    m.onTop cpu fun g ctx =>
      match ctx.frame, ctx.suspended with
      | .idle, (drain, slotIndex) :: suspended =>
        (g, { ctx with frame := .finish drain slotIndex, suspended })
      | _, _ => (g, ctx)
  | .irqEnter cpu => { m with stack := update m.stack cpu (.new :: m.stack cpu) }
  | .irqExit cpu =>
    match m.stack cpu with
    | ⟨.idle, [], 0⟩ :: below => { m with stack := update m.stack cpu below }
    | _ => m
  | .spawn => { m with waiting := .new :: m.waiting }
  | .preempt cpu =>
    match m.stack cpu with
    | [ctx] =>
      if m.shared.preemptCount cpu = 0 then
        { m with stack := update m.stack cpu [], waiting := ctx :: m.waiting }
      else m
    | _ => m
  | .dispatch cpu index =>
    match m.stack cpu, m.waiting[index]? with
    | [], some ctx =>
      { m with
        stack := update m.stack cpu [ctx]
        waiting := m.waiting.eraseIdx index }
    | _, _ => m
  | .markCpuOnline cpu =>
    { m with shared := { m.shared with epochs := m.shared.epochs.markOnline cpu } }

/-- The machine after a run from boot. -/
def run (events : List Event) : Machine := events.foldl exec boot

end Machine

end Nilix.Rcu
