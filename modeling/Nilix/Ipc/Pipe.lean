import Nilix.Foundation.Machine
import Nilix.Ipc.PipeInner
import Nilix.Ipc.WaitQueue

/-!
# Pipes under concurrent readers and writers

The calls of a pipe run in tasks, and a task works in sections: what it does under the lock of the
pipe, or one operation on a wait queue, is one step, and the steps of different tasks interleave in
any order.  `Phase` says which section of which call comes next, `PipeWorld` is the pipe with all
its tasks, and `PipeWorld.exec` makes one step.

A signal is directed at one task.  It stays pending until the task has returned from its call,
unless it is discarded: `send_signal_inner` drops a pending stop signal for `SIGCONT`, and a pending
`SIGCONT` for a stop signal, whatever the task is doing.

The world also keeps the history that the contract of a pipe speaks about: which bytes were accepted
from which call, which were delivered, and what the pipe was like whenever a read decided to return
zero.
-/

namespace Nilix.Ipc

open Function

/-! ## Calls -/

/-- The two ends of a pipe, and with them its two wait queues. -/
inductive PipeEndType
  | read
  | write
  deriving DecidableEq

/-- A call of `read`, or of `read_with_commit` when it is `transactional`. -/
structure ReadCall where
  transactional : Bool
  /-- The length of the destination. -/
  dst : ℕ
  nonblock : Bool
  deriving DecidableEq

/-- A call of `write`; the number tells it from the other calls of the history. -/
structure WriteCall where
  id : ℕ
  src : List UInt8
  nonblock : Bool
  deriving DecidableEq

/-- A short write is all or nothing. -/
def WriteCall.atomic (call : WriteCall) : Bool := call.src.length ≤ PIPE_BUF

/-- The condition that a write waits for. -/
def WriteCall.room (call : WriteCall) (inner : PipeInner) : Prop :=
  if call.atomic then call.src.length ≤ inner.space else 0 < inner.space

instance (call : WriteCall) (inner : PipeInner) : Decidable (call.room inner) := by
  unfold WriteCall.room
  infer_instance

/-- The errors of a call on a pipe that is open and used by a task. -/
inductive PipeError
  | brokenPipe
  | wouldBlock
  | noMemory
  | interrupted
  deriving DecidableEq

/-- A read fails like the pipe does, or because its commit failed. -/
inductive PipeReadTransactionError
  | pipe (error : PipeError)
  | commit
  deriving DecidableEq

/-- What a read reports. -/
abbrev ReadResult := Except PipeReadTransactionError ℕ

/-- What a write reports. -/
abbrev WriteResult := Except PipeError ℕ

/-- A write that has to stop reports the bytes it has written, if there are any. -/
def shortWrite (total : ℕ) (error : PipeError) : WriteResult :=
  if 0 < total then .ok total else .error error

/-! ## Phases -/

/-- Which section of its call a task runs next. -/
inductive Phase
  /-- The task has made no call yet. -/
  | idle
  | readReturned (call : ReadCall) (result : ReadResult)
  | writeReturned (call : WriteCall) (result : WriteResult)
  /-- The top of the loop of a read, where a signal ends it. -/
  | readEnter (call : ReadCall) (waited : Bool)
  /-- The first look at the ring, under the lock. -/
  | readFirst (call : ReadCall) (waited : Bool)
  /-- The commit runs, without the lock, on the bytes copied out. -/
  | readCommit (call : ReadCall) (bytes : List UInt8)
  /-- Reserve capacity in the wait queue. -/
  | readReserve (call : ReadCall) (waited : Bool)
  /-- The second look at the ring, which arms the wait. -/
  | readSecond (call : ReadCall) (waited : Bool)
  /-- `finish_wait`: sleep until a wake or a signal. -/
  | readSleep (call : ReadCall)
  /-- The end of `finish_wait`, which takes the queue entry back after a signal. -/
  | readResume (call : ReadCall)
  /-- The wait was not armed. -/
  | readUnarmed (call : ReadCall) (waited : Bool)
  /-- Bytes were taken: wake all writers, then pass the wake on if the read has to. -/
  | readWakeWriters (call : ReadCall) (pass : Bool) (count : ℕ)
  /-- `pass_on_read_wake`, its look at the ring. -/
  | readPassOn (call : ReadCall) (result : ReadResult)
  /-- A wake of one reader before the read returns. -/
  | readWakeOne (call : ReadCall) (result : ReadResult)
  /-- The top of the loop of a write that has written `total` bytes. -/
  | writeEnter (call : WriteCall) (total : ℕ)
  | writeFirst (call : WriteCall) (total : ℕ)
  /-- Bytes were written: wake one reader. -/
  | writeWakeOne (call : WriteCall) (total : ℕ)
  | writeReserve (call : WriteCall) (total : ℕ)
  | writeSecond (call : WriteCall) (total : ℕ)
  | writeSleep (call : WriteCall) (total : ℕ)
  | writeResume (call : WriteCall) (total : ℕ)
  | writeUnarmed (call : WriteCall) (total : ℕ)
  deriving DecidableEq

namespace Phase

/-- The task is in no call. -/
def finished : Phase → Bool
  | idle | readReturned _ _ | writeReturned _ _ => true
  | _ => false

/-- The queue in which the task sleeps. -/
def sleepsOn : Phase → Option PipeEndType
  | readSleep _ => some .read
  | writeSleep _ _ => some .write
  | _ => none

/-- The queue that may hold an entry of the task. -/
def waitsOn : Phase → Option PipeEndType
  | readSleep _ | readResume _ => some .read
  | writeSleep _ _ | writeResume _ _ => some .write
  | _ => none

end Phase

/-! ## The world -/

/-- A pipe with the tasks that use it. -/
structure PipeWorld where
  inner : PipeInner
  /-- Open read ends. -/
  readers : ℕ
  /-- Open write ends. -/
  writers : ℕ
  /-- The wait queue of each end. -/
  waiters : PipeEndType → List ProcessId
  /-- The scheduler state of a task is `Blocked`. -/
  blocked : ProcessId → Bool
  /-- A signal or a kill is pending for the task. -/
  signalled : ProcessId → Bool
  phase : ProcessId → Phase
  /-- The write calls made so far. -/
  calls : List WriteCall
  /-- The chunks accepted into the ring, each with the number of its call. -/
  accepted : List (ℕ × List UInt8)
  /-- The bytes of each committed read. -/
  delivered : List (List UInt8)
  /-- Open write ends and buffered bytes whenever a read into a non-empty destination decided to
  return zero. -/
  zeros : List (ℕ × ℕ)

/-- What a step finds outside the pipe: whether the commit of a read succeeds, whether capacity for
a wait can be reserved, and whether the reserved capacity is still enough. -/
structure StepEnv where
  commit : Bool
  reserve : Bool
  capacity : Bool

/-- An environment in which nothing fails. -/
def StepEnv.benign : StepEnv := ⟨true, true, true⟩

namespace PipeWorld

/-- A new pipe: one end of each kind, and no call. -/
def new (capacity : ℕ) (h : 0 < capacity) : PipeWorld where
  inner := .new capacity h
  readers := 1
  writers := 1
  waiters := fun _ => []
  blocked := fun _ => false
  signalled := fun _ => false
  phase := fun _ => .idle
  calls := []
  accepted := []
  delivered := []
  zeros := []

variable (w : PipeWorld) (pid : ProcessId)

/-- The task goes on to another section. -/
@[simps]
def goto (phase : Phase) : PipeWorld :=
  { w with phase := update w.phase pid phase }

/-- `wake_one` on the queue of an end. -/
@[simps]
def wakeOne (side : PipeEndType) : PipeWorld :=
  let woken := WaitQueue.wakeOne (w.waiters side) w.blocked
  { w with
    waiters := update w.waiters side woken.1
    blocked := woken.2 }

/-- `wake_all` on the queue of an end. -/
@[simps]
def wakeAll (side : PipeEndType) : PipeWorld :=
  let woken := WaitQueue.wakeAll (w.waiters side) w.blocked
  { w with
    waiters := update w.waiters side woken.1
    blocked := woken.2 }

/-- `cancel_wait` on the queue of an end. -/
@[simps]
def cancelWait (side : PipeEndType) : PipeWorld :=
  let cancelled := WaitQueue.cancelWait (w.waiters side) w.blocked pid
  { w with
    waiters := update w.waiters side cancelled.1
    blocked := cancelled.2 }

variable (side : PipeEndType) (call : WriteCall) (total : ℕ) (env : StepEnv)

/-- Arm the wait on the queue of an end and go on with what that reports. -/
def arm (armed unarmed retry : Phase) : PipeWorld :=
  let armResult := WaitQueue.tryPrepareToWaitWithCapacity (w.waiters side) w.blocked
    (w.signalled pid) env.capacity pid
  let w' :=
    { w with
      waiters := update w.waiters side armResult.2.1
      blocked := armResult.2.2 }
  match armResult.1 with
  | .prepared true => w'.goto pid armed
  | .prepared false => w'.goto pid unarmed
  | .retryCapacity => w'.goto pid retry

/-- The task blocks with an entry in the queue of an end. -/
@[simps]
def sleep : PipeWorld :=
  { w with
    waiters := update w.waiters side
      (if pid ∈ w.waiters side then w.waiters side else w.waiters side ++ [pid])
    blocked := update w.blocked pid true }

/-- What arming does: a signal refuses it, the queue may lack room for the entry, or the task goes
to sleep. -/
lemma arm_cases (armed unarmed retry : Phase) :
    (w.signalled pid = true ∧ w.arm pid side env armed unarmed retry = w.goto pid unarmed) ∨
      (w.signalled pid = false ∧ w.arm pid side env armed unarmed retry = w.goto pid retry) ∨
      (w.signalled pid = false ∧
        w.arm pid side env armed unarmed retry = (w.sleep pid side).goto pid armed) := by
  unfold arm WaitQueue.tryPrepareToWaitWithCapacity
  cases hsig : w.signalled pid with
  | true => exact .inl ⟨rfl, by simp⟩
  | false =>
    refine .inr ?_
    by_cases hmem : pid ∈ w.waiters side
    · exact .inr ⟨rfl, by simp [hmem, sleep]⟩
    cases henv : env.capacity with
    | true => exact .inr ⟨rfl, by simp [hmem, sleep]⟩
    | false => exact .inl ⟨rfl, by simp [hmem]⟩

/-! ### Reading -/

/-- Keep the history of reads that return zero. -/
@[simps]
def noteZero (call : ReadCall) (count : ℕ) : PipeWorld :=
  { w with
    zeros := w.zeros ++ if count = 0 ∧ 0 < call.dst then [(w.writers, w.inner.len)] else [] }

/-- A read took bytes off the ring. -/
@[simps]
def deliver (call : ReadCall) (bytes : List UInt8) (inner : PipeInner) : PipeWorld :=
  { w.noteZero call bytes.length with
    inner := inner
    delivered := w.delivered ++ [bytes] }

/-- There are bytes that a new transaction can take. -/
def dataLeft : Bool := 0 < w.inner.len && !w.inner.readInflight

/-- A read found nothing to take: the end of the stream, an error, or go on with `block`. -/
def readEmpty (call : ReadCall) (block : PipeWorld) : PipeWorld :=
  if w.writers = 0 then (w.noteZero call 0).goto pid (.readReturned call (.ok 0))
  else if call.nonblock then w.goto pid (.readReturned call (.error (.pipe .wouldBlock)))
  else block

/-- One look of a read at the ring; with nothing to take it goes on with `block`. -/
def readLook (call : ReadCall) (waited : Bool) (block : PipeWorld) : PipeWorld :=
  if call.transactional then
    if w.dataLeft then
      match w.inner.beginReadTransaction call.dst with
      | some (bytes, inner) => { w with inner := inner }.goto pid (.readCommit call bytes)
      | none => w.goto pid (.readEnter call waited)
    else w.readEmpty pid call block
  else if 0 < w.inner.len then
    let taken := w.inner.read call.dst
    (w.deliver call taken.1 taken.2).goto pid (.readWakeWriters call waited taken.1.length)
  else w.readEmpty pid call block

/-- The commit of a transaction came back. -/
def readFinish (call : ReadCall) (bytes : List UInt8) (committed : Bool) : PipeWorld :=
  let inner := w.inner.finishReadTransaction bytes.length committed
  if committed then
    (w.deliver call bytes inner).goto pid (.readWakeWriters call true bytes.length)
  else { w with inner := inner }.goto pid (.readWakeOne call (.error .commit))

/-- A read that a signal ended passes its wake on if it has slept. -/
def readInterrupted (call : ReadCall) (waited : Bool) : PipeWorld :=
  if waited then w.goto pid (.readPassOn call (.error (.pipe .interrupted)))
  else w.goto pid (.readReturned call (.error (.pipe .interrupted)))

/-! ### Writing -/

/-- Put bytes of the call into the ring: how many, and the world after it. -/
def accept : ℕ × PipeWorld :=
  let written := w.inner.write (call.src.drop total)
  (written.1,
    { w with
      inner := written.2
      accepted := w.accepted ++ [(call.id, (call.src.drop total).take written.1)] })

/-- A write that has bytes left and finds no room stops, or goes on with `block`. -/
def writeBlocked (block : PipeWorld) : PipeWorld :=
  if call.nonblock then w.goto pid (.writeReturned call (shortWrite total .wouldBlock)) else block

/-- After a write put bytes into the ring and woke a reader. -/
def writeAfter (block : PipeWorld) : PipeWorld :=
  if total = call.src.length then w.goto pid (.writeReturned call (.ok total))
  else w.writeBlocked pid call total block

/-- The first look of a write at the ring. -/
def writeLook : PipeWorld :=
  if w.readers = 0 then w.goto pid (.writeReturned call (shortWrite total .brokenPipe))
  else if call.room w.inner then
    let accepted := w.accept call total
    accepted.2.goto pid (.writeWakeOne call (total + accepted.1))
  else w.writeBlocked pid call total (w.goto pid (.writeReserve call total))

/-- Arm the wait of a write. -/
def writeArm : PipeWorld :=
  w.arm pid .write env (.writeSleep call total) (.writeUnarmed call total) (.writeEnter call total)

/-- The second look of a write.  A long write wakes its reader under the lock and may then arm its
wait in the same section; a short one leaves the lock first. -/
def writeLookAndArm : PipeWorld :=
  if w.readers = 0 then w.goto pid (.writeReturned call (shortWrite total .brokenPipe))
  else if call.room w.inner then
    let accepted := w.accept call total
    if call.atomic then accepted.2.goto pid (.writeWakeOne call (total + accepted.1))
    else
      let woken := accepted.2.wakeOne .read
      woken.writeAfter pid call (total + accepted.1)
        (woken.writeArm pid call (total + accepted.1) env)
  else w.writeBlocked pid call total (w.writeArm pid call total env)

/-! ### Steps -/

/-- The section of a task that stands at the given phase.  A task that sleeps, or that is in no
call, has no section to run. -/
def advance : Phase → PipeWorld
  | .idle | .readReturned _ _ | .writeReturned _ _ => w
  | .readEnter call waited =>
    if w.signalled pid then w.readInterrupted pid call waited
    else w.goto pid (.readFirst call waited)
  | .readFirst call waited => w.readLook pid call waited (w.goto pid (.readReserve call waited))
  | .readCommit call bytes => w.readFinish pid call bytes env.commit
  | .readReserve call waited =>
    if env.reserve then w.goto pid (.readSecond call waited)
    else w.goto pid (.readReturned call (.error (.pipe .noMemory)))
  | .readSecond call waited =>
    w.readLook pid call waited
      (w.arm pid .read env (.readSleep call) (.readUnarmed call waited) (.readEnter call waited))
  | .readSleep call =>
    if w.blocked pid && !w.signalled pid then w else w.goto pid (.readResume call)
  | .readResume call =>
    (if w.signalled pid then w.cancelWait pid .read else w).goto pid (.readEnter call true)
  | .readUnarmed call waited =>
    if w.signalled pid then w.readInterrupted pid call waited
    else w.goto pid (.readEnter call waited)
  | .readWakeWriters call pass count =>
    (w.wakeAll .write).goto pid
      (if pass then .readPassOn call (.ok count) else .readReturned call (.ok count))
  | .readPassOn call result =>
    w.goto pid (if w.dataLeft then .readWakeOne call result else .readReturned call result)
  | .readWakeOne call result => (w.wakeOne .read).goto pid (.readReturned call result)
  | .writeEnter call total =>
    if call.src.length ≤ total then w.goto pid (.writeReturned call (.ok total))
    else if w.signalled pid then w.goto pid (.writeReturned call (shortWrite total .interrupted))
    else w.goto pid (.writeFirst call total)
  | .writeFirst call total => w.writeLook pid call total
  | .writeWakeOne call total =>
    (w.wakeOne .read).writeAfter pid call total
      ((w.wakeOne .read).goto pid (.writeReserve call total))
  | .writeReserve call total =>
    if env.reserve then w.goto pid (.writeSecond call total)
    else w.goto pid (.writeReturned call (shortWrite total .noMemory))
  | .writeSecond call total => w.writeLookAndArm pid call total env
  | .writeSleep call total =>
    if w.blocked pid && !w.signalled pid then w else w.goto pid (.writeResume call total)
  | .writeResume call total =>
    (if w.signalled pid then w.cancelWait pid .write else w).goto pid (.writeEnter call total)
  | .writeUnarmed call total =>
    if 0 < total then w.goto pid (.writeReturned call (.ok total))
    else if w.signalled pid then w.goto pid (.writeReturned call (.error .interrupted))
    else w.goto pid (.writeEnter call total)

end PipeWorld

/-- One event of a pipe. -/
inductive PipeOp
  /-- A task that is in no call starts a read. -/
  | read (pid : ProcessId) (call : ReadCall)
  /-- A task that is in no call starts a write. -/
  | write (pid : ProcessId) (src : List UInt8) (nonblock : Bool)
  /-- A task runs its next section. -/
  | run (pid : ProcessId) (env : StepEnv)
  /-- A signal or a kill reaches a task; it readies the task at once or leaves that to the task. -/
  | signal (pid : ProcessId) (ready : Bool)
  /-- A task that is in no call takes its pending signal. -/
  | deliver (pid : ProcessId)
  /-- The pending signal of a task is discarded. -/
  | discard (pid : ProcessId)
  | addReader
  | addWriter
  | closeRead
  | closeWrite

/-- The task of an event. -/
def PipeOp.task : PipeOp → Option ProcessId
  | .read pid _ | .write pid _ _ | .run pid _ | .signal pid _ | .deliver pid | .discard pid => some pid
  | .addReader | .addWriter | .closeRead | .closeWrite => none

namespace PipeWorld

variable (w : PipeWorld)

/-- Start a write: an empty one returns at once. -/
def startWrite (pid : ProcessId) (call : WriteCall) : PipeWorld :=
  { w with calls := w.calls ++ [call] }.goto pid
    (if call.src.isEmpty then .writeReturned call (.ok 0) else .writeEnter call 0)

/-- One step; an event that cannot happen changes nothing. -/
def exec : PipeOp → PipeWorld
  | .read pid call =>
    if (w.phase pid).finished then w.goto pid (.readEnter call false) else w
  | .write pid src nonblock =>
    if (w.phase pid).finished then w.startWrite pid ⟨w.calls.length, src, nonblock⟩ else w
  | .run pid env => w.advance pid env (w.phase pid)
  | .signal pid ready =>
    { w with
      signalled := update w.signalled pid true
      blocked := if ready then update w.blocked pid false else w.blocked }
  | .deliver pid =>
    if (w.phase pid).finished then
      { w with signalled := update w.signalled pid false }
    else w
  | .discard pid => { w with signalled := update w.signalled pid false }
  | .addReader => { w with readers := saturatingAdd w.readers 1 }
  | .addWriter => { w with writers := saturatingAdd w.writers 1 }
  | .closeRead => { w with readers := w.readers - 1 }.wakeAll .write
  | .closeWrite => { w with writers := w.writers - 1 }.wakeAll .read

/-- The world after a sequence of events. -/
def execAll (ops : List PipeOp) : PipeWorld := ops.foldl exec w

/-! ### What a step leaves alone -/

variable {w} {pid qid : ProcessId} (hne : qid ≠ pid)
include hne

lemma phase_arm_of_ne (side : PipeEndType) (env : StepEnv) (armed unarmed retry : Phase) :
    (w.arm pid side env armed unarmed retry).phase qid = w.phase qid := by
  rcases w.arm_cases pid side env armed unarmed retry with ⟨-, heq⟩ | ⟨-, heq⟩ | ⟨-, heq⟩ <;>
    simp [heq, hne]

lemma phase_readLook_of_ne (call : ReadCall) (waited : Bool) {block : PipeWorld}
    (hblock : block.phase qid = w.phase qid) :
    (w.readLook pid call waited block).phase qid = w.phase qid := by
  unfold readLook readEmpty
  repeat' split
  all_goals simp [hne, hblock]

/-- A section changes the phase of its own task only. -/
lemma phase_advance_of_ne (env : StepEnv) (phase : Phase) :
    (w.advance pid env phase).phase qid = w.phase qid := by
  cases phase with
  | readFirst call waited => exact phase_readLook_of_ne hne call waited (by simp [hne])
  | readSecond call waited =>
    exact phase_readLook_of_ne hne call waited (phase_arm_of_ne hne _ _ _ _ _)
  | writeSecond =>
    dsimp only [advance]
    unfold writeLookAndArm writeAfter writeBlocked writeArm
    dsimp only
    repeat' split
    all_goals first | exact phase_arm_of_ne hne _ _ _ _ _ | simp [hne, accept]
  | _ =>
    dsimp only [advance, readInterrupted, readFinish, writeLook, writeAfter, writeBlocked, accept]
    repeat' split
    all_goals simp [hne]

omit hne in
/-- An event of other tasks leaves the task where it is. -/
lemma phase_exec_of_ne {op : PipeOp} (hop : qid ∉ op.task) : (w.exec op).phase qid = w.phase qid := by
  have hne : ∀ pid, op.task = some pid → qid ≠ pid := by
    rintro pid htask rfl
    exact hop htask
  cases op with
  | run pid env => exact phase_advance_of_ne (hne pid rfl) env (w.phase pid)
  | read pid | write pid =>
    dsimp only [exec, startWrite]
    split <;> simp [hne pid rfl]
  | deliver =>
    dsimp only [exec]
    split <;> rfl
  | signal | discard | addReader | addWriter | closeRead | closeWrite => rfl

omit hne in
/-- A run of other tasks leaves the task where it is. -/
lemma phase_execAll_of_ne {ops : List PipeOp} (hops : ∀ op ∈ ops, qid ∉ op.task) :
    (w.execAll ops).phase qid = w.phase qid :=
  List.foldlRecOn (motive := fun v : PipeWorld => v.phase qid = w.phase qid) ops exec rfl
    fun _ h op hop => (phase_exec_of_ne (hops op hop)).trans h

end PipeWorld

end Nilix.Ipc
