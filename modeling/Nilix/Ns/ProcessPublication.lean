import Nilix.Ns.PidInvariant

/-!
# Publishing processes, and the death of a namespace init

A creator first maps its process in every namespace of the chain and then publishes the PCB while it
holds the `children` locks of these namespaces, root to leaf.  When the init of a namespace dies, the
task that tears it down latches `shutting_down` under the same lock, enumerates the members of the
subtree and posts an exit to each.  Creators and teardowns are threads that take one step at a time:
a step is a lock that is taken, a section under one lock, or a look at one shared value.

The table of processes holds references to PCBs, so that a PCB that a kill has resolved stays the same
when its PID is given to another process.
-/

namespace Nilix.Ns

open Nilix.Net Function

/-! ## Sources of a publication -/

/-- The loop of `PidPublicationSources::from_chain` below the root: the levels go up by one, and at most
`MAX_PID_NS_LEVEL` namespaces are kept. -/
def sourcesFrom (previous slots : ℕ) : List PidNamespaceMembership → Option (List PidNamespace)
  | [] => some []
  | m :: chain =>
    if m.ns.isRoot ∨ m.ns.level ≠ previous + 1 ∨ slots = 0 then none
    else (sourcesFrom m.ns.level (slots - 1) chain).map (m.ns :: ·)

def fromChain : List PidNamespaceMembership → Option (List PidNamespace)
  | [] => none
  | m :: chain => if m.ns.isRoot then sourcesFrom 0 maxPidNsLevel chain else none

/-! ## Threads -/

/-- The part of a PCB that publication and teardown use. -/
structure Pcb where
  pid : ℕ
  /-- The chain that the process was published with. -/
  chain : List PidNamespaceMembership
  /-- `pid_ns_chain`, which a teardown moves out. -/
  pidNsChain : List PidNamespaceMembership
  /-- The process has exited (`Zombie` or `Terminated`). -/
  exited : Bool
  pendingKill : Bool

/-- A teardown that has moved the chain out of the PCB of the dying process. -/
structure Teardown where
  dying : ℕ
  chain : List PidNamespaceMembership

/-- Where a thread stands. -/
inductive Thread
  | idle
  /-- A creator whose process is mapped. -/
  | assigned (pid : ℕ) (chain : List PidNamespaceMembership)
  /-- `with_live_publication`: the locks that are held, last one first, and those to come. -/
  | locking (pid : ℕ) (chain : List PidNamespaceMembership) (held rest : List PidNamespace)
  /-- The publication was refused; the mapping is to be taken back. -/
  | refused (pid : ℕ) (chain : List PidNamespaceMembership)
  /-- `handle_namespace_init_death` looks for the namespace whose init dies. -/
  | scanning (td : Teardown) (rest : List PidNamespaceMembership)
  /-- It was found; `mark_shutting_down` is next. -/
  | marking (td : Teardown) (ns : PidNamespace)
  /-- `mark_descendants_shutting_down` takes the children of `cur`. -/
  | descending (td : Teardown) (ns cur : PidNamespace) (stack : List PidNamespace)
  /-- It takes the next namespace off its stack. -/
  | descendants (td : Teardown) (ns : PidNamespace) (stack : List PidNamespace)
  /-- `get_cascade_kill_pids_fallible` takes the next namespace off its stack and reads its init. -/
  | walking (td : Teardown) (ns : PidNamespace) (stack : List PidNamespace) (pids : List ℕ)
  /-- It takes the members of `cur`. -/
  | members (td : Teardown) (ns cur : PidNamespace) (init : Option ℕ) (stack : List PidNamespace)
      (pids : List ℕ)
  /-- It takes the children of `cur`. -/
  | children (td : Teardown) (ns cur : PidNamespace) (stack : List PidNamespace) (pids : List ℕ)
  /-- The victims that are left. -/
  | killing (td : Teardown) (ns : PidNamespace) (victims : List ℕ)
  /-- `force_remote_kill` has resolved a victim to a PCB. -/
  | posting (td : Teardown) (ns : PidNamespace) (victim target : ℕ) (victims : List ℕ)
  /-- The chain of the dying process is to be detached. -/
  | detaching (td : Teardown)

/-- Who will detach a mapped process. -/
inductive Owner
  | thread (t : ℕ)
  | pcb (target : ℕ)

/-- The namespaces, the table and the threads. -/
structure PidWorld where
  ns : PidNsState
  /-- The registered children of a namespace. -/
  registry : PidNamespace → List PidNamespace
  /-- The thread that holds the `children` lock of a namespace. -/
  childrenLock : PidNamespace → Option ℕ
  /-- `PROCESS_TABLE`. -/
  table : ℕ → Option ℕ
  pcbs : ℕ → Pcb
  /-- The number of PCBs so far. -/
  pcbCount : ℕ
  threads : ℕ → Thread
  /-- Ghost: who will detach a mapped process. -/
  owner : ℕ → Option Owner
  /-- Ghost: the namespaces that `mark_shutting_down` has latched. -/
  latched : List PidNamespace
  /-- Ghost: the cascades that have come to their end, with the dying init. -/
  cascaded : List (PidNamespace × ℕ)
  /-- Ghost: the PCBs that a cascade posted an exit to. -/
  posted : List (PidNamespace × ℕ)

namespace PidWorld

/-- A PCB that does not exist. -/
def noPcb : Pcb := ⟨0, [], [], true, false⟩

/-- Only the root namespace, and no process. -/
def start : PidWorld where
  ns := .start
  registry _ := []
  childrenLock _ := none
  table _ := none
  pcbs _ := noPcb
  pcbCount := 0
  threads _ := .idle
  owner _ := none
  latched := []
  cascaded := []
  posted := []

variable (w : PidWorld)

def goto (t : ℕ) (thread : Thread) : PidWorld :=
  { w with threads := update w.threads t thread }

def setPcb (target : ℕ) (pcb : Pcb) : PidWorld :=
  { w with pcbs := update w.pcbs target pcb }

/-- Release the locks of a publication. -/
def release (held : List PidNamespace) : PidWorld :=
  { w with childrenLock := fun ns => if ns ∈ held then none else w.childrenLock ns }

/-- `request_process_exit_locked`, for a PCB that a kill reaches: nothing for a process that exited. -/
def requestProcessExitLocked (pcb : Pcb) : Pcb :=
  if pcb.exited then pcb else { pcb with pendingKill := true }

def isVisibleInNamespace (ns : PidNamespace) (chain : List PidNamespaceMembership) : Bool :=
  chain.any fun m => m.ns = ns

/-- Detach the process of a thread, which is idle then. -/
def detach (t pid : ℕ) : PidWorld :=
  { w with
    ns := w.ns.exec (.detachPidChain pid)
    owner := update w.owner pid none }.goto t .idle

/-- The insertion of a PCB at the end of `publish_process_with_pid_sources`. -/
def insertPcb (t pid : ℕ) (chain : List PidNamespaceMembership) : PidWorld :=
  { w with
    table := update w.table pid (some w.pcbCount)
    pcbs := update w.pcbs w.pcbCount ⟨pid, chain, chain, false, false⟩
    pcbCount := w.pcbCount + 1
    owner := update w.owner pid (some (.pcb w.pcbCount)) }.goto t .idle

/-- The answers to one step of a thread: whether the backing of the process table has to grow, whether
the allocator refuses, and which registered children are still referenced. -/
structure StepEnv where
  grow : Bool
  refuse : Bool
  alive : PidNamespace → Bool

/-- The live children of a namespace. -/
def liveChildren (env : StepEnv) (ns : PidNamespace) : List PidNamespace :=
  (w.registry ns).filter env.alive

/-- The steps of a creator.  With every lock taken it inserts the PCB, or starts again after the backing of
the process table has grown; a refused backing or a refused slot is `OutOfMemory`. -/
def stepLocking (env : StepEnv) (t pid : ℕ) (chain : List PidNamespaceMembership)
    (held : List PidNamespace) : List PidNamespace → PidWorld
  | ns :: rest =>
    if w.childrenLock ns ≠ none then w
    else if (w.ns.cells ns).shuttingDown then (w.release held).goto t (.refused pid chain)
    else { w with childrenLock := update w.childrenLock ns (some t) }.goto t
      (.locking pid chain (ns :: held) rest)
  | [] =>
    if env.refuse then (w.release held).goto t (.refused pid chain)
    else if env.grow then (w.release held).goto t (.assigned pid chain)
    else if w.table pid ≠ none then (w.release held).goto t (.refused pid chain)
    else (w.release held).insertPcb t pid chain

/-- One step of a thread; a step that waits for a lock changes nothing. -/
def step (t : ℕ) (env : StepEnv) : PidWorld :=
  match w.threads t with
  | .idle => w
  | .assigned pid chain =>
    match fromChain chain with
    | some sources => w.goto t (.locking pid chain [] sources)
    | none => w.goto t (.refused pid chain)
  | .locking pid chain held rest => w.stepLocking env t pid chain held rest
  | .refused pid _ => w.detach t pid
  | .scanning td [] => w.goto t (.detaching td)
  | .scanning td (m :: rest) =>
    if m.ns.isRoot = false ∧ (w.ns.cells m.ns).initGlobalPid = some td.dying then
      w.goto t (.marking td m.ns)
    else w.goto t (.scanning td rest)
  | .marking td ns =>
    if w.childrenLock ns ≠ none then w
    else if (w.ns.cells ns).shuttingDown then w.goto t (.detaching td)
    else
      { w with
        ns := w.ns.exec (.markShuttingDown ns)
        latched := ns :: w.latched }.goto t (.descending td ns ns [])
  | .descending td ns cur stack =>
    if w.childrenLock cur ≠ none then w
    else if env.refuse then w.goto t (.descendants td ns stack)
    else w.goto t (.descendants td ns ((w.liveChildren env cur).reverse ++ stack))
  | .descendants td ns [] => w.goto t (.walking td ns [ns] [])
  | .descendants td ns (cur :: stack) =>
    { w with ns := w.ns.exec (.markShuttingDown cur) }.goto t (.descending td ns cur stack)
  | .walking td ns [] pids => w.goto t (.killing td ns pids)
  | .walking td ns (cur :: stack) pids =>
    w.goto t (.members td ns cur (w.ns.cells cur).initGlobalPid stack pids)
  | .members td ns cur init stack pids =>
    if env.refuse then w.goto t (.detaching td)
    else
      let found := (w.ns.cells cur).pidByNs.iter.map Prod.snd
      w.goto t (.children td ns cur stack (pids ++ found.filter fun g => init ≠ some g))
  | .children td ns cur stack pids =>
    if w.childrenLock cur ≠ none then w
    else if env.refuse then w.goto t (.detaching td)
    else w.goto t (.walking td ns ((w.liveChildren env cur).reverse ++ stack) pids)
  | .killing td ns [] =>
    { w with cascaded := (ns, td.dying) :: w.cascaded }.goto t (.detaching td)
  | .killing td ns (victim :: victims) =>
    if victim = td.dying then w.goto t (.killing td ns victims)
    else
      match w.table victim with
      | none => w.goto t (.killing td ns victims)
      | some target => w.goto t (.posting td ns victim target victims)
  | .posting td ns _ target victims =>
    if isVisibleInNamespace ns (w.pcbs target).pidNsChain then
      { w.setPcb target (requestProcessExitLocked (w.pcbs target)) with
        posted := (ns, target) :: w.posted }.goto t (.killing td ns victims)
    else w.goto t (.killing td ns victims)
  | .detaching td => w.detach t td.dying

/-! ## Runs -/

/-- What can happen next. -/
inductive Event
  /-- `PidNamespace::new_child`. -/
  | newChild (parent : PidNamespace) (env : NewChildEnv)
  /-- A creator takes a PID whose slot is free and maps its process. -/
  | create (t : ℕ) (leaf : PidNamespace) (pid : ℕ) (env : PidCells.AssignEnv)
  | step (t : ℕ) (env : StepEnv)
  /-- A process exits but leaves its chain to the last member of its group. -/
  | exit (target : ℕ)
  /-- A thread begins the teardown of a process; the last live member of a group runs the cascade. -/
  | teardown (t target : ℕ) (lastLive : Bool)
  /-- A process that exited is taken out of the table. -/
  | reap (pid : ℕ)
  /-- Someone else asks a process to exit. -/
  | kill (target : ℕ)

/-- Run one event; one that is not possible changes nothing. -/
def exec (w : PidWorld) : Event → PidWorld
  | .newChild parent env =>
    if w.childrenLock parent ≠ none ∨ w.ns.live parent = false then w
    else
      let created := { w with ns := w.ns.exec (.newChild parent env) }
      match (w.ns.newChild parent env).2 with
      | .ok child =>
        { created with
          registry := update w.registry parent (w.registry parent ++ [child]) }
      | .error _ => created
  | .create t leaf pid env =>
    match w.threads t with
    | .idle =>
      if w.table pid ≠ none ∨ w.ns.assigned pid ≠ none then w
      else
        let ns := w.ns.exec (.assignPidChain leaf pid env)
        match ns.assigned pid with
        | some a =>
          { w with ns, owner := update w.owner pid (some (.thread t)) }.goto t
            (.assigned pid a.chain)
        | none => { w with ns }
    | _ => w
  | .step t env => w.step t env
  | .exit target => w.setPcb target { w.pcbs target with exited := true }
  | .teardown t target lastLive =>
    match w.threads t with
    | .idle =>
      let pcb := w.pcbs target
      if pcb.pidNsChain = [] then w
      else
        let td : Teardown := ⟨pcb.pid, pcb.pidNsChain⟩
        { w.setPcb target { pcb with exited := true, pidNsChain := [] } with
          owner := update w.owner pcb.pid (some (.thread t)) }.goto t
          (if lastLive then .scanning td td.chain else .detaching td)
    | _ => w
  | .reap pid =>
    match w.table pid with
    | some target =>
      if (w.pcbs target).exited then { w with table := update w.table pid none } else w
    | none => w
  | .kill target => w.setPcb target (requestProcessExitLocked (w.pcbs target))

/-- The world after a sequence of events. -/
def run (events : List Event) : PidWorld := events.foldl exec w

end PidWorld

end Nilix.Ns
