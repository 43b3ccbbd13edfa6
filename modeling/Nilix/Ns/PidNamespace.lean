import Nilix.Foundation.Pointwise
import Nilix.Net.Admitted

/-!
# PID namespaces

`kernel/kernel_core/pid_namespace.rs`: the tree of PID namespaces, the two PID maps of each, and the
assignment of one PID in every namespace from the root to a leaf.

A namespace is known by its ID and its parent, which never change; its maps, its counter and its init
are kept in a store.  The answers of the allocator are an argument of the calls that allocate.
-/

namespace Nilix.Ns

open Nilix.Net Function

def maxPidNsLevel : ℕ := 32

def pidPathSlots : ℕ := maxPidNsLevel + 1

def maxNsPid : ℕ := 116508

def maxPidNsCount : ℕ := 1024

def maxChildrenEntries : ℕ := maxPidNsCount - 1

/-- `PidNamespaceError`, as far as the modelled operations return it. -/
inductive PidNamespaceError where
  | pidExhausted
  | initAlreadySet
  | maxDepthExceeded
  | maxNamespaces
  | namespaceShuttingDown
  | namespaceIdOverflow
  | outOfMemory
  | mappingConflict
deriving DecidableEq

/-! ## The tree -/

/-- The part of a `PidNamespace` that places it in the tree. -/
inductive PidNamespace where
  | root
  | child (id : ℕ) (parent : PidNamespace)
deriving DecidableEq

namespace PidNamespace

def id : PidNamespace → ℕ
  | root => 0
  | child id _ => id

def parent : PidNamespace → Option PidNamespace
  | root => none
  | child _ parent => some parent

def level : PidNamespace → ℕ
  | root => 0
  | child _ parent => parent.level + 1

def isRoot (ns : PidNamespace) : Bool := ns.level == 0

/-- The namespaces from the root down to a namespace. -/
def path : PidNamespace → List PidNamespace
  | root => [root]
  | child id parent => parent.path ++ [child id parent]

end PidNamespace

/-- The loop of `assign_pid_chain` that collects the path, from the leaf up, with the number of slots
left. -/
def collectPath : ℕ → Option PidNamespace → Except PidNamespaceError (List PidNamespace)
  | _, none => .ok []
  | 0, some _ => .error .maxDepthExceeded
  | slots + 1, some ns => (collectPath slots ns.parent).map (ns :: ·)

/-! ## One namespace -/

/-- The part of a `PidNamespace` that changes. -/
structure PidCell where
  nextPid : ℕ
  pidByNs : AdmittedMap ℕ ℕ
  pidByGlobal : AdmittedMap ℕ ℕ
  initGlobalPid : Option ℕ
  shuttingDown : Bool

/-- `PreparedPidMappingCapacity`: the capacities of the prepared backings. -/
structure PreparedPidMappingCapacity where
  byGlobal : Option ℕ
  byNs : Option ℕ

/-- `RetiredPidMappingCapacity`: the capacities of the retired backings. -/
structure RetiredPidMappingCapacity where
  byGlobal : Option ℕ
  byNs : Option ℕ

variable (map : AdmittedMap ℕ ℕ)

def pidMappingGrowthTarget : Except PidNamespaceError (Option ℕ) :=
  if map.len < map.capacity then .ok none
  else
    match checkedAdd map.len 1 with
    | none => .error .outOfMemory
    | some required =>
      match checkedMul (max map.capacity 4) 2 with
      | none => .error .outOfMemory
      | some amortized => .ok (some (max required amortized))

/-- `PreparedAdmittedMapCapacity::try_new` for a growth target: the allocator refuses, or gives at least
what was asked. -/
def tryNewCapacity (slack : Option ℕ) : Option ℕ → Except PidNamespaceError (Option ℕ)
  | none => .ok none
  | some target =>
    match slack with
    | none => .error .outOfMemory
    | some extra => .ok (some (target + extra))

/-- The installation of a prepared backing in a full map: the map, and the capacity that it retires. -/
def installBacking (prepared : Option ℕ) : AdmittedMap ℕ ℕ × Option ℕ :=
  if map.len = map.capacity then
    match prepared.bind map.replaceBackingDeferred with
    | some map' => (map', some map.capacity)
    | none => (map, none)
  else (map, none)

/-- `restore_retired_deferred`, where there is something to restore. -/
def restoreBacking (retired : Option ℕ) : AdmittedMap ℕ ℕ :=
  match retired with
  | some capacity => (map.replaceBackingDeferred capacity).getD map
  | none => map

def takeEmptyCapacity : AdmittedMap ℕ ℕ :=
  if map.len ≠ 0 ∨ map.capacity = 0 then map else (map.replaceBackingDeferred 0).getD map

namespace PidCell

/-- The state of a new namespace. -/
def new : PidCell := ⟨1, .new, .new, none, false⟩

variable (c : PidCell) (globalPid : ℕ)

def prepareMappingCapacityDetached (slack : Option ℕ × Option ℕ) :
    Except PidNamespaceError PreparedPidMappingCapacity := do
  if c.pidByGlobal.len ≠ c.pidByNs.len then
    throw .mappingConflict
  let globalTarget ← pidMappingGrowthTarget c.pidByGlobal
  let nsTarget ← pidMappingGrowthTarget c.pidByNs
  let byGlobal ← tryNewCapacity slack.1 globalTarget
  let byNs ← tryNewCapacity slack.2 nsTarget
  return ⟨byGlobal, byNs⟩

def installPreparedMappingCapacity (prepared : PreparedPidMappingCapacity) :
    PidCell × RetiredPidMappingCapacity :=
  let (pidByGlobal, retiredGlobal) := installBacking c.pidByGlobal prepared.byGlobal
  let (pidByNs, retiredNs) := installBacking c.pidByNs prepared.byNs
  ({ c with pidByGlobal, pidByNs }, ⟨retiredGlobal, retiredNs⟩)

def restoreMappingCapacity (retired : RetiredPidMappingCapacity) : PidCell :=
  { c with
    pidByGlobal := restoreBacking c.pidByGlobal retired.byGlobal
    pidByNs := restoreBacking c.pidByNs retired.byNs }

def takeEmptyMappingCapacity : PidCell :=
  { c with
    pidByGlobal := takeEmptyCapacity c.pidByGlobal
    pidByNs := takeEmptyCapacity c.pidByNs }

/-- The two insertions of `alloc_pid_reserved` and of `attach_root_pid_reserved`. -/
def insertPair (globalPid nsPid : ℕ) : PidCell × Except PidNamespaceError Unit :=
  if c.pidByGlobal.containsKey globalPid || c.pidByNs.containsKey nsPid then
    (c, .error .mappingConflict)
  else
    match c.pidByGlobal.insertUniqueReserved globalPid nsPid with
    | none => (c, .error .outOfMemory)
    | some byGlobal =>
      match c.pidByNs.insertUniqueReserved nsPid globalPid with
      | none => ({ c with pidByGlobal := byGlobal.remove globalPid }, .error .outOfMemory)
      | some byNs => ({ c with pidByGlobal := byGlobal, pidByNs := byNs }, .ok ())

def allocPidReserved : PidCell × Except PidNamespaceError ℕ :=
  if c.shuttingDown then (c, .error .namespaceShuttingDown)
  else if maxNsPid < c.nextPid then (c, .error .pidExhausted)
  else
    match checkedAdd c.nextPid 1 with
    | none => (c, .error .pidExhausted)
    | some followingPid =>
      match c.insertPair globalPid c.nextPid with
      | (c', .error e) => (c', .error e)
      | (c', .ok ()) => ({ c' with nextPid := followingPid }, .ok c.nextPid)

/-- `attach_root_pid_reserved`, with the PID that the caller then records. -/
def attachRootPidReserved : PidCell × Except PidNamespaceError ℕ :=
  match c.insertPair globalPid globalPid with
  | (c', .error e) => (c', .error e)
  | (c', .ok ()) => (c', .ok globalPid)

def removePidReserved : PidCell :=
  match c.pidByGlobal.get globalPid with
  | some nsPid =>
    { c with
      pidByGlobal := c.pidByGlobal.remove globalPid
      pidByNs := c.pidByNs.remove nsPid }
  | none => c

def setInit : PidCell × Except PidNamespaceError Unit :=
  if c.initGlobalPid.isSome then (c, .error .initAlreadySet)
  else ({ c with initGlobalPid := some globalPid }, .ok ())

def clearInit : PidCell :=
  if c.initGlobalPid = some globalPid then { c with initGlobalPid := none } else c

end PidCell

/-! ## Chains -/

structure PidNamespaceMembership where
  ns : PidNamespace
  pid : ℕ
deriving DecidableEq

/-- The namespaces' states. -/
abbrev PidCells := PidNamespace → PidCell

/-- A namespace in which the process is mapped already, with the counter before (`mapped` and
`prior_next`). -/
structure MappedPid where
  ns : PidNamespace
  priorNext : Option ℕ
  pid : ℕ
deriving DecidableEq

/-- The allocation in one namespace. -/
def mapPid (ns : PidNamespace) (c : PidCell) (globalPid : ℕ) : PidCell × Except PidNamespaceError ℕ :=
  if ns.isRoot then c.attachRootPidReserved globalPid else c.allocPidReserved globalPid

namespace PidCells

/-- The loop that maps the process in every namespace, root first, up to the first failure. -/
def mapChain (globalPid : ℕ) :
    List PidNamespace → PidCells → PidCells × List MappedPid × Except PidNamespaceError Unit
  | [], s => (s, [], .ok ())
  | ns :: rest, s =>
    let priorNext := if ns.isRoot then none else some (s ns).nextPid
    match mapPid ns (s ns) globalPid with
    | (cell, .error e) => (update s ns cell, [], .error e)
    | (cell, .ok pid) =>
      let (s, mapped, result) := mapChain globalPid rest (update s ns cell)
      (s, ⟨ns, priorNext, pid⟩ :: mapped, result)

/-- The loop that makes the process the init of the namespaces in which it is PID 1. -/
def setInits (globalPid : ℕ) : List MappedPid → PidCells → PidCells × Except PidNamespaceError Unit
  | [], s => (s, .ok ())
  | m :: rest, s =>
    if m.pid ≠ 1 then setInits globalPid rest s
    else
      let (cell, result) := (s m.ns).setInit globalPid
      let s := update s m.ns cell
      -- the root keeps an init that it has
      if m.ns.isRoot then setInits globalPid rest s
      else
        match result with
        | .error e => (s, .error e)
        | .ok () => setInits globalPid rest s

/-- What the rollback does in a namespace in which the process is mapped. -/
def undo (globalPid : ℕ) (m : MappedPid) (c : PidCell) : PidCell :=
  let c := (c.clearInit globalPid).removePidReserved globalPid
  match m.priorNext with
  | some previous => { c with nextPid := previous }
  | none => c

/-- The `rollback` of `assign_pid_chain`. -/
def rollback (globalPid : ℕ) (mapped : List MappedPid)
    (retired : List (PidNamespace × RetiredPidMappingCapacity)) (s : PidCells) : PidCells :=
  let s := updateEach MappedPid.ns (undo globalPid) mapped.reverse s
  updateEach Prod.fst (fun r c => c.restoreMappingCapacity r.2) retired s

/-- The installation of the prepared backings, root first. -/
def installAll (prepared : List (PidNamespace × PreparedPidMappingCapacity)) (s : PidCells) :
    PidCells × List (PidNamespace × RetiredPidMappingCapacity) :=
  (updateEach Prod.fst (fun p c => (c.installPreparedMappingCapacity p.2).1) prepared s,
    prepared.map fun p => (p.1, ((s p.1).installPreparedMappingCapacity p.2).2))

/-- The answers of the allocator to one `assign_pid_chain`. -/
structure AssignEnv where
  chainReserved : Bool
  slack : PidNamespace → Option ℕ × Option ℕ

/-- The preparation of the backings, root first. -/
def prepareAll (env : AssignEnv) (s : PidCells) (path : List PidNamespace) :
    Except PidNamespaceError (List (PidNamespace × PreparedPidMappingCapacity)) :=
  path.mapM fun ns => do
    let prepared ← (s ns).prepareMappingCapacityDetached (env.slack ns)
    return (ns, prepared)

/-- The part of `assign_pid_chain` under the transaction lock. -/
def assignPrepared (s : PidCells) (path : List PidNamespace)
    (prepared : List (PidNamespace × PreparedPidMappingCapacity)) (globalPid : ℕ) :
    PidCells × Except PidNamespaceError (List PidNamespaceMembership) :=
  let (s, retired) := s.installAll prepared
  match s.mapChain globalPid path with
  | (s, mapped, .error e) => (rollback globalPid mapped retired s, .error e)
  | (s, mapped, .ok ()) =>
    match s.setInits globalPid mapped with
    | (s, .error e) => (rollback globalPid mapped retired s, .error e)
    | (s, .ok ()) => (s, .ok (mapped.map fun m => ⟨m.ns, m.pid⟩))

/-- `assign_pid_chain`.  No other writer runs between the preparation and the transaction, so that the
backings are still what was prepared and `prepared_mapping_capacity_is_current` has nothing to find. -/
def assignPidChain (s : PidCells) (env : AssignEnv) (leaf : PidNamespace) (globalPid : ℕ) :
    PidCells × Except PidNamespaceError (List PidNamespaceMembership) :=
  match collectPath pidPathSlots (some leaf) with
  | .error e => (s, .error e)
  | .ok upward =>
    if upward.getLast?.any PidNamespace.isRoot then
      if env.chainReserved then
        match s.prepareAll env upward.reverse with
        | .error e => (s, .error e)
        | .ok prepared => s.assignPrepared upward.reverse prepared globalPid
      else (s, .error .outOfMemory)
    else (s, .error .mappingConflict)

def detachPidChain (s : PidCells) (chain : List PidNamespaceMembership) (globalPid : ℕ) : PidCells :=
  updateEach PidNamespaceMembership.ns
    (fun _ c => ((c.clearInit globalPid).removePidReserved globalPid).takeEmptyMappingCapacity)
    chain s

end PidCells

/-! ## Runs -/

/-- A successful assignment: the leaf of the call, and the chain that it returned. -/
structure PidAssignment where
  leaf : PidNamespace
  chain : List PidNamespaceMembership
deriving DecidableEq

/-- The namespaces, with a record of what the calls returned. -/
structure PidNsState where
  cells : PidCells
  /-- The namespaces that exist. -/
  live : PidNamespace → Bool
  /-- `NEXT_NS_ID`. -/
  nextNsId : ℕ
  /-- `PID_NS_COUNT`. -/
  nsCount : ℕ
  /-- The number of registered children. -/
  children : PidNamespace → ℕ
  /-- The assigned processes. -/
  assigned : ℕ → Option PidAssignment
  /-- The local PIDs that successful assignments gave, by namespace. -/
  given : PidNamespace → List ℕ

/-- The answers of the allocator to one `new_child`: for the namespace, and for the parent's registry. -/
structure NewChildEnv where
  arc : Bool
  registry : Bool

/-- The calls. -/
inductive PidNsEvent where
  | newChild (parent : PidNamespace) (env : NewChildEnv)
  | assignPidChain (leaf : PidNamespace) (globalPid : ℕ) (env : PidCells.AssignEnv)
  | detachPidChain (globalPid : ℕ)
  | markShuttingDown (ns : PidNamespace)

namespace PidNsState

/-- Only the root namespace. -/
def start : PidNsState where
  cells _ := .new
  live ns := ns == .root
  nextNsId := 1
  nsCount := 1
  children _ := 0
  assigned _ := none
  given _ := []

variable (s : PidNsState)

/-- `PidNamespace::new_child`.  A failure after the count permit gives the permit back; the ID is
spent. -/
def newChild (parent : PidNamespace) (env : NewChildEnv) :
    PidNsState × Except PidNamespaceError PidNamespace :=
  if (s.cells parent).shuttingDown then (s, .error .namespaceShuttingDown)
  else if maxPidNsLevel ≤ parent.level then (s, .error .maxDepthExceeded)
  else if maxPidNsCount ≤ s.nsCount then (s, .error .maxNamespaces)
  else
    match checkedAdd s.nextNsId 1 with
    | none => (s, .error .namespaceIdOverflow)
    | some nextNsId =>
      let s' := { s with nextNsId }
      if env.arc then
        if maxChildrenEntries ≤ s.children parent then (s', .error .maxNamespaces)
        else if env.registry then
          let child := PidNamespace.child s.nextNsId parent
          ({ s' with
              cells := update s.cells child .new
              live := update s.live child true
              nsCount := s.nsCount + 1
              children := update s.children parent (s.children parent + 1) }, .ok child)
        else (s', .error .outOfMemory)
      else (s', .error .outOfMemory)

/-- `assign_pid_chain`, with the record of a success. -/
def assign (leaf : PidNamespace) (globalPid : ℕ) (env : PidCells.AssignEnv) :
    PidNsState × Except PidNamespaceError (List PidNamespaceMembership) :=
  match s.cells.assignPidChain env leaf globalPid with
  | (cells, .error e) => ({ s with cells }, .error e)
  | (cells, .ok chain) =>
    ({ s with
        cells
        assigned := update s.assigned globalPid (some ⟨leaf, chain⟩)
        given := updateEach PidNamespaceMembership.ns (fun m pids => m.pid :: pids) chain s.given },
      .ok chain)

/-- A call; calls on namespaces that do not exist, assignments of an assigned process and detachments
of one that is not change nothing. -/
def exec : PidNsEvent → PidNsState
  | .newChild parent env => if s.live parent then (s.newChild parent env).1 else s
  | .assignPidChain leaf globalPid env =>
    if s.live leaf ∧ s.assigned globalPid = none then (s.assign leaf globalPid env).1 else s
  | .detachPidChain globalPid =>
    match s.assigned globalPid with
    | none => s
    | some assignment =>
      { s with
        cells := s.cells.detachPidChain assignment.chain globalPid
        assigned := update s.assigned globalPid none }
  | .markShuttingDown ns =>
    if s.live ns then
      { s with cells := update s.cells ns { s.cells ns with shuttingDown := true } }
    else s

/-- The state after a run. -/
def run (events : List PidNsEvent) : PidNsState := events.foldl exec s

end PidNsState

end Nilix.Ns
