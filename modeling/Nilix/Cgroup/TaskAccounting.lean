import Mathlib.Data.Finset.Card
import Nilix.Cgroup.Hierarchy
import Nilix.Foundation.Machine
import Nilix.Foundation.Tally

/-!
# Attaching, detaching and migrating tasks

`kernel/kernel_core/cgroup.rs`: every node counts the tasks of its subtree in `pids_current`.  The
operations change the counters of a whole chain one compare-exchange at a time while they hold the
lock of a task set, take back what they have charged when a limit is hit, and lower the counters of a
chain after a task has left.  A migration touches only the nodes above one of its two ends, and pins
both ends against deletion by a freeze.

The callers are threads that take one step at a time.  A step is a lock that is taken together with
what is then looked at, one compare-exchange, one load or one store; a lock is dropped with the last
action before it.
-/

namespace Nilix.Cg

open Function

abbrev TaskId := ℕ

/-- `CGROUP_TASK_CAPACITY`, which is `PID_MAX`. -/
def cgroupTaskCapacity : ℕ := 32768

/-- The nodes of a hierarchy, with the ones that have the PIDS controller. -/
structure CgroupTree where
  nodes : Finset Cgroup
  pids : Cgroup → Bool
  /-- The registry finds every node by its ID. -/
  registry : ℕ → Option Cgroup
  registry_eq_some_iff : ∀ id n, registry id = some n ↔ n ∈ nodes ∧ n.id = id
  parent_mem : ∀ n ∈ nodes, ∀ p, n.parent = some p → p ∈ nodes
  /-- `create_child` refuses a deeper node. -/
  depth_le : ∀ n ∈ nodes, n.depth ≤ maxCgroupDepth

/-! ## Counters and chains -/

/-- `try_increment_pids`: the next value of the counter. -/
def tryIncrementPids (current : ℕ) (limit : Option ℕ) : Option ℕ :=
  (checkedAdd current 1).bind fun next => if limit.any (· < next) then none else some next

/-- `decrement_pids`, which saturates. -/
def decrementPids (current : ℕ) : ℕ := current - 1

/-- The walk of `attach_task_impl` and `detach_task_impl` over the ancestors, with the slots left. -/
def collectParents : ℕ → Option Cgroup → List Cgroup
  | 0, _ => []
  | _, none => []
  | slots + 1, some node => node :: collectParents slots node.parent

/-- A node and the ancestors that `attach_task_impl` and `detach_task_impl` walk over. -/
def taskChain (node : Cgroup) : List Cgroup :=
  node :: collectParents (maxCgroupDepth + 1) node.parent

/-- The loop of `migration_exclusive_lengths` from an index of the target chain. -/
def migrationExclusiveFrom (source : List Cgroup) : ℕ → List Cgroup → Except CgroupError (ℕ × ℕ)
  | _, [] => .error .depthLimit
  | index, node :: rest =>
    match source.idxOf? node with
    | some sourceIndex => .ok (sourceIndex, index)
    | none => migrationExclusiveFrom source (index + 1) rest

def migrationExclusiveLengths (source target : List Cgroup) : Except CgroupError (ℕ × ℕ) :=
  migrationExclusiveFrom source 0 target

/-- The arguments of a migration between two nodes. -/
structure Migration where
  task : TaskId
  source : Cgroup
  target : Cgroup

/-- The parts of the two chains below the common ancestors. -/
structure ExclusiveChains where
  source : List Cgroup
  target : List Cgroup

namespace Migration

/-- The end that is frozen and locked first. -/
def first (m : Migration) : Cgroup := if m.source.id ≤ m.target.id then m.source else m.target

/-- The other end. -/
def second (m : Migration) : Cgroup := if m.source.id ≤ m.target.id then m.target else m.source

/-- The chains of `migrate_task_impl`, cut at the exclusive lengths. -/
def exclusive (m : Migration) : Except CgroupError ExclusiveChains := do
  let source ← collectCgroupAncestry m.source
  let target ← collectCgroupAncestry m.target
  let (sourceLen, targetLen) ← migrationExclusiveLengths source target
  return ⟨source.take sourceLen, target.take targetLen⟩

end Migration

/-! ## Threads -/

/-- `LockedMigrationOutcome`, without the backings. -/
inductive MigrationOutcome
  | retry
  | complete
  | failed (error : CgroupError)

/-- Where a caller stands. -/
inductive TaskPhase
  /-- No call is in progress; the last one returned this. -/
  | returned (result : Except CgroupError Unit)
  /-- `attach_task_impl` at the top of its loop. -/
  | attachTop (node : Cgroup) (task : TaskId)
  /-- It waits for the task set. -/
  | attachLock (node : Cgroup) (task : TaskId)
  /-- It holds the task set and takes the limits, one after the other. -/
  | attachLimits (node : Cgroup) (task : TaskId) (taken : List (Cgroup × Option ℕ))
      (todo : List Cgroup)
  /-- It charges the chain. -/
  | attachCharge (node : Cgroup) (task : TaskId) (charged : List Cgroup)
      (todo : List (Cgroup × Option ℕ))
  /-- `detach_task_impl` waits for the task set. -/
  | detachLock (node : Cgroup) (task : TaskId) (chain : List Cgroup)
  /-- An attach that failed or a detach lowers the counters that are left. -/
  | settle (node : Cgroup) (todo : List Cgroup) (result : Except CgroupError Unit)
  /-- `migrate_task_impl` looks up both nodes. -/
  | migrateLookup (task : TaskId) (fromId toId : ℕ)
  /-- It is at the top of its loop. -/
  | migrateValidate (m : Migration)
  /-- It holds the registry for reading and freezes the nodes. -/
  | freezeFirst (m : Migration)
  | freezeSecond (m : Migration)
  /-- The second node was frozen by someone else. -/
  | freezeUndo (m : Migration)
  /-- Both nodes are frozen; the task sets are locked next. -/
  | lockFirst (m : Migration) (x : ExclusiveChains)
  | lockSecond (m : Migration) (x : ExclusiveChains)
  /-- `migrate_task_locked` takes the limit of the next node of the target chain. -/
  | reserveLimit (m : Migration) (x : ExclusiveChains) (charged todo : List Cgroup)
  /-- It charges this node. -/
  | reserve (m : Migration) (x : ExclusiveChains) (charged : List Cgroup) (node : Cgroup)
      (limit : Option ℕ) (todo : List Cgroup)
  /-- It lowers the counters that are left. -/
  | settleMove (m : Migration) (todo : List Cgroup) (outcome : MigrationOutcome)
  /-- The freeze is dropped. -/
  | thawSecond (m : Migration) (outcome : MigrationOutcome)
  | thawFirst (m : Migration) (outcome : MigrationOutcome)
  /-- `delete_cgroup` waits for the registry. -/
  | deleteLock (id : ℕ)
  /-- It holds the registry for writing and is about to test the freeze. -/
  | deleteFrozen (node : Cgroup)
  | deleteMark (node : Cgroup)
  | deleteChildren (node : Cgroup)
  | deleteProcesses (node : Cgroup)
  | deletePinned (node : Cgroup)
  | deleteUnlink (node : Cgroup)
  /-- The deletion failed, and the flag is taken back. -/
  | deleteUnmark (node : Cgroup) (error : CgroupError)

/-- The hierarchy and its callers. -/
structure TaskWorld (ι : Type*) where
  /-- `CGROUP_REGISTRY`. -/
  registry : ℕ → Option Cgroup
  /-- The caller that holds the registry for writing. -/
  writer : Option ι
  /-- The callers that hold it for reading. -/
  readers : Finset ι
  children : Cgroup → Finset ℕ
  deleted : Cgroup → Bool
  /-- `membership_frozen`, with the migration that has set it. -/
  membershipFrozen : Cgroup → Option ι
  pidsMax : Cgroup → Option ℕ
  pidsCurrent : Cgroup → ℕ
  /-- The task set of a node, and the caller that holds its lock. -/
  processes : Cgroup → Finset TaskId
  processesLock : Cgroup → Option ι
  threads : ι → TaskPhase
  /-- Ghost: how often a task was attached and detached. -/
  attached : TaskId → ℕ
  detached : TaskId → ℕ

/-- The tasks of a hierarchy at the start, and the limits. -/
structure Population (T : CgroupTree) where
  processes : Cgroup → Finset TaskId
  mem_nodes : ∀ n, processes n ≠ ∅ → n ∈ T.nodes
  pidsMax : Cgroup → Option ℕ

/-- The number of tasks in the subtree of a node. -/
def subtreeTasks (T : CgroupTree) (processes : Cgroup → Finset TaskId) (n : Cgroup) : ℕ :=
  ∑ m ∈ T.nodes, if n ∈ m.ancestry then (processes m).card else 0

/-- The number of nodes that a task is attached to. -/
def placements (T : CgroupTree) (processes : Cgroup → Finset TaskId) (task : TaskId) : ℕ :=
  ∑ m ∈ T.nodes, if task ∈ processes m then 1 else 0

namespace TaskWorld

variable {ι : Type*} [DecidableEq ι]

variable (T : CgroupTree)

/-- All nodes are registered, every counter is exact, and nobody has begun. -/
def start (p : Population T) : TaskWorld ι where
  registry := T.registry
  writer := none
  readers := ∅
  children n := (T.nodes.filter fun m => m.parent = some n).image Cgroup.id
  deleted _ := false
  membershipFrozen _ := none
  pidsMax := p.pidsMax
  pidsCurrent := subtreeTasks T p.processes
  processes := p.processes
  processesLock _ := none
  threads _ := .returned (.ok ())
  attached _ := 0
  detached _ := 0

variable (w : TaskWorld ι) (t : ι) (env : StepEnv) (m : Migration)

def goto (phase : TaskPhase) : TaskWorld ι :=
  { w with threads := update w.threads t phase }

def lockProcesses (n : Cgroup) : TaskWorld ι :=
  { w with processesLock := update w.processesLock n (some t) }

def unlockProcesses (n : Cgroup) : TaskWorld ι :=
  { w with processesLock := update w.processesLock n none }

def setProcesses (n : Cgroup) (tasks : Finset TaskId) : TaskWorld ι :=
  { w with processes := update w.processes n tasks }

def setPidsCurrent (n : Cgroup) (count : ℕ) : TaskWorld ι :=
  { w with pidsCurrent := update w.pidsCurrent n count }

def setFrozen (n : Cgroup) (owner : Option ι) : TaskWorld ι :=
  { w with membershipFrozen := update w.membershipFrozen n owner }

def setDeleted (n : Cgroup) (flag : Bool) : TaskWorld ι :=
  { w with deleted := update w.deleted n flag }

def dropReader : TaskWorld ι :=
  { w with readers := w.readers.erase t }

def dropWriter : TaskWorld ι := { w with writer := none }

/-- The limit of a node that the chargers respect. -/
def pidsLimit (n : Cgroup) : Option ℕ :=
  if T.pids n then w.pidsMax n else none

/-- The answers to one step: whether the backing of a task set has to grow, whether the allocator or
the set refuses, and whether a node still has pinned charges. -/
structure StepEnv where
  grow : Bool
  refuse : Bool
  pinned : Bool

/-! ## Attach and detach -/

/-- `attach_task_impl` with the task set of the node at hand. -/
def stepAttachLock (node : Cgroup) (task : TaskId) : TaskWorld ι :=
  if w.processesLock node ≠ none then w
  else if w.deleted node then w.goto t (.returned (.error .notFound))
  else if task ∈ w.processes node then w.goto t (.returned (.error .taskAlreadyAttached))
  else if cgroupTaskCapacity < (w.processes node).card + 1 then
    w.goto t (.returned (.error .pidsLimitExceeded))
  else if env.grow then
    if env.refuse then w.goto t (.returned (.error .outOfMemory)) else w.goto t (.attachTop node task)
  else (w.lockProcesses t node).goto t (.attachLimits node task [] (taskChain node))

/-- Charge the next node, or insert the task when the chain is charged. -/
def stepAttachCharge (node : Cgroup) (task : TaskId) (charged : List Cgroup) :
    List (Cgroup × Option ℕ) → TaskWorld ι
  | (n, limit) :: todo =>
    match tryIncrementPids (w.pidsCurrent n) limit with
    | none => w.goto t (.settle node charged (.error .pidsLimitExceeded))
    | some next =>
      (w.setPidsCurrent n next).goto t (.attachCharge node task (charged ++ [n]) todo)
  | [] =>
    if env.refuse then w.goto t (.settle node charged (.error .outOfMemory))
    else
      ({ w.setProcesses node (insert task (w.processes node)) with
        attached := update w.attached task (w.attached task + 1) }.unlockProcesses
          node).goto t (.returned (.ok ()))

/-- `detach_task_impl` with the task set of the node at hand. -/
def stepDetachLock (node : Cgroup) (task : TaskId) (chain : List Cgroup) : TaskWorld ι :=
  if w.processesLock node ≠ none then w
  else if task ∉ w.processes node then w.goto t (.returned (.error .taskNotAttached))
  else
    ({ w.setProcesses node ((w.processes node).erase task) with
      detached := update w.detached task (w.detached task + 1) }.lockProcesses
        t node).goto t (.settle node chain (.ok ()))

/-! ## Migration -/

/-- The first section of `migrate_task_impl` under the registry. -/
def stepMigrateLookup (task : TaskId) (fromId toId : ℕ) : TaskWorld ι :=
  if w.writer ≠ none then w
  else
    match w.registry fromId, w.registry toId with
    | some source, some target =>
      if w.deleted source ∨ w.deleted target then w.goto t (.returned (.error .notFound))
      else if source = target then
        if w.processesLock source ≠ none then w
        else if task ∈ w.processes source then w.goto t (.returned (.ok ()))
        else w.goto t (.returned (.error .taskNotAttached))
      else w.goto t (.migrateValidate ⟨task, source, target⟩)
    | _, _ => w.goto t (.returned (.error .notFound))

/-- The validation at the top of the loop. -/
def stepMigrateValidate : TaskWorld ι :=
  if w.writer ≠ none then w
  else if w.registry m.source.id ≠ some m.source ∨ w.registry m.target.id ≠ some m.target ∨
      w.deleted m.source ∨ w.deleted m.target then w.goto t (.returned (.error .notFound))
  else { w with readers := insert t w.readers }.goto t (.freezeFirst m)

/-- The second compare-exchange of `CgroupMembershipFreeze::try_new`, and the chains after it. -/
def stepFreezeSecond : TaskWorld ι :=
  if w.membershipFrozen m.second ≠ none then w.goto t (.freezeUndo m)
  else
    ((w.setFrozen m.second (some t)).dropReader t).goto t
      (match m.exclusive with
      | .ok x => .lockFirst m x
      | .error e => .thawSecond m (.failed e))

/-- `migrate_task_locked` up to the first charge, with both task sets at hand. -/
def stepLockSecond (x : ExclusiveChains) : TaskWorld ι :=
  if w.processesLock m.second ≠ none then w
  else
    (w.lockProcesses t m.second).goto t
      (if m.task ∉ w.processes m.source then .settleMove m [] (.failed .taskNotAttached)
      else if m.task ∈ w.processes m.target then .settleMove m [] (.failed .taskAlreadyAttached)
      else if cgroupTaskCapacity < (w.processes m.target).card + 1 then
        .settleMove m [] (.failed .pidsLimitExceeded)
      else if env.grow then .settleMove m [] .retry
      else .reserveLimit m x [] x.target)

/-- Take the limit of the next node, or move the task when the target chain is charged. -/
def stepReserveLimit (x : ExclusiveChains) (charged : List Cgroup) : List Cgroup → TaskWorld ι
  | n :: todo => w.goto t (.reserve m x charged n (w.pidsLimit T n) todo)
  | [] =>
    if env.refuse then w.goto t (.settleMove m charged (.failed .outOfMemory))
    else
      ((w.setProcesses m.source ((w.processes m.source).erase m.task)).setProcesses m.target
        (insert m.task (w.processes m.target))).goto t (.settleMove m x.source .complete)

/-- The compare-exchange of `try_increment_pids` for a node of the target chain. -/
def stepReserve (x : ExclusiveChains) (charged : List Cgroup) (n : Cgroup) (limit : Option ℕ)
    (todo : List Cgroup) : TaskWorld ι :=
  match tryIncrementPids (w.pidsCurrent n) limit with
  | none => w.goto t (.settleMove m charged (.failed .pidsLimitExceeded))
  | some next => (w.setPidsCurrent n next).goto t (.reserveLimit m x (charged ++ [n]) todo)

/-- The end of one round of `migrate_task_impl`. -/
def afterThaw : MigrationOutcome → TaskPhase
  | .retry => if env.refuse then .returned (.error .outOfMemory) else .migrateValidate m
  | .complete => .returned (.ok ())
  | .failed e => .returned (.error e)

/-! ## Deletion -/

/-- `delete_cgroup` once it has the registry. -/
def stepDeleteLock (id : ℕ) : TaskWorld ι :=
  if w.writer ≠ none ∨ w.readers ≠ ∅ then w
  else
    match w.registry id with
    | none => w.goto t (.returned (.error .notFound))
    | some node => { w with writer := some t }.goto t (.deleteFrozen node)

/-- The end of a deletion, under the `children` lock of the parent. -/
def stepDeleteUnlink (node : Cgroup) : TaskWorld ι :=
  match node.parent with
  | none => w.goto t (.deleteUnmark node .notFound)
  | some parent =>
    if node.id ∉ w.children parent ∨ w.registry node.id = none then
      w.goto t (.deleteUnmark node .notFound)
    else
      { w with
        children := update w.children parent ((w.children parent).erase node.id)
        registry := update w.registry node.id none
        writer := none }.goto t (.returned (.ok ()))

/-! ## Steps and runs -/

/-- One step of a caller; one that waits for a lock changes nothing. -/
def step (w : TaskWorld ι) (t : ι) (env : StepEnv) : TaskWorld ι :=
  match w.threads t with
  | .returned _ => w
  | .attachTop node task =>
    if w.deleted node then w.goto t (.returned (.error .notFound))
    else w.goto t (.attachLock node task)
  | .attachLock node task => w.stepAttachLock t env node task
  | .attachLimits node task taken (n :: todo) =>
    w.goto t (.attachLimits node task (taken ++ [(n, w.pidsLimit T n)]) todo)
  | .attachLimits node task taken [] => w.goto t (.attachCharge node task [] taken)
  | .attachCharge node task charged todo => w.stepAttachCharge t env node task charged todo
  | .detachLock node task chain => w.stepDetachLock t node task chain
  | .settle node (n :: todo) result =>
    (w.setPidsCurrent n (decrementPids (w.pidsCurrent n))).goto t (.settle node todo result)
  | .settle node [] result => (w.unlockProcesses node).goto t (.returned result)
  | .migrateLookup task fromId toId => w.stepMigrateLookup t task fromId toId
  | .migrateValidate m => w.stepMigrateValidate t m
  | .freezeFirst m =>
    if w.membershipFrozen m.first ≠ none then (w.dropReader t).goto t (.returned (.error .busy))
    else (w.setFrozen m.first (some t)).goto t (.freezeSecond m)
  | .freezeSecond m => w.stepFreezeSecond t m
  | .freezeUndo m =>
    ((w.setFrozen m.first none).dropReader t).goto t (.returned (.error .busy))
  | .lockFirst m x =>
    if w.processesLock m.first ≠ none then w
    else (w.lockProcesses t m.first).goto t (.lockSecond m x)
  | .lockSecond m x => w.stepLockSecond t env m x
  | .reserveLimit m x charged todo => w.stepReserveLimit T t env m x charged todo
  | .reserve m x charged n limit todo => w.stepReserve t m x charged n limit todo
  | .settleMove m (n :: todo) outcome =>
    (w.setPidsCurrent n (decrementPids (w.pidsCurrent n))).goto t (.settleMove m todo outcome)
  | .settleMove m [] outcome =>
    ((w.unlockProcesses m.source).unlockProcesses m.target).goto t (.thawSecond m outcome)
  | .thawSecond m outcome => (w.setFrozen m.second none).goto t (.thawFirst m outcome)
  | .thawFirst m outcome => (w.setFrozen m.first none).goto t (afterThaw env m outcome)
  | .deleteLock id => w.stepDeleteLock t id
  | .deleteFrozen node =>
    if w.membershipFrozen node ≠ none then w.dropWriter.goto t (.returned (.error .notEmpty))
    else w.goto t (.deleteMark node)
  | .deleteMark node => (w.setDeleted node true).goto t (.deleteChildren node)
  | .deleteChildren node =>
    if w.children node ≠ ∅ then w.goto t (.deleteUnmark node .notEmpty)
    else w.goto t (.deleteProcesses node)
  | .deleteProcesses node =>
    if w.processesLock node ≠ none then w
    else if w.processes node ≠ ∅ then w.goto t (.deleteUnmark node .notEmpty)
    else w.goto t (.deletePinned node)
  | .deletePinned node =>
    if env.pinned then w.goto t (.deleteUnmark node .notEmpty)
    else w.goto t (.deleteUnlink node)
  | .deleteUnlink node => w.stepDeleteUnlink t node
  | .deleteUnmark node error =>
    (w.setDeleted node false).dropWriter.goto t (.returned (.error error))

/-- What can happen next. -/
inductive Event (ι : Type*)
  | attachTask (t : ι) (node : Cgroup) (task : TaskId)
  | detachTask (t : ι) (node : Cgroup) (task : TaskId)
  | migrateTask (t : ι) (task : TaskId) (fromId toId : ℕ)
  | deleteCgroup (t : ι) (id : ℕ)
  | step (t : ι) (env : StepEnv)
  /-- Someone changes `pids_max` of a node. -/
  | setPidsMax (node : Cgroup) (max : Option ℕ)

/-- A caller begins a call if it has none. -/
def begin (phase : TaskPhase) : TaskWorld ι :=
  match w.threads t with
  | .returned _ => w.goto t phase
  | _ => w

/-- Run one event; one that is not possible changes nothing.  Attach and detach are given a reference to
a node, which may have been deleted since. -/
def exec (w : TaskWorld ι) : Event ι → TaskWorld ι
  | .attachTask t node task => if node ∈ T.nodes then w.begin t (.attachTop node task) else w
  | .detachTask t node task =>
    if node ∈ T.nodes then w.begin t (.detachLock node task (taskChain node)) else w
  | .migrateTask t task fromId toId => w.begin t (.migrateLookup task fromId toId)
  | .deleteCgroup t id =>
    w.begin t (if id = 0 then .returned (.error .permissionDenied) else .deleteLock id)
  | .step t env => w.step T t env
  | .setPidsMax node max => { w with pidsMax := update w.pidsMax node max }

/-- The world after a sequence of events. -/
def run (events : List (Event ι)) : TaskWorld ι :=
  events.foldl (exec T) w

end TaskWorld

end Nilix.Cg
