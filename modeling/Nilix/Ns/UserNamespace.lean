import Mathlib.Logic.Function.Basic
import Nilix.Foundation.Machine

/-!
# User namespaces

`kernel/kernel_core/user_namespace.rs`: the tree of user namespaces, their UID and GID maps, and the
translation of IDs up and down the tree.

A namespace is known by its ID and its parent, which never change; its maps are kept in a store.  A
call that sets a map first checks and then publishes under the lock of the table, so that calls for
one namespace, and for its parent, may interleave between the two parts.
-/

namespace Nilix.Ns

open Function

def maxUserNsLevel : ℕ := 32

def maxMappings : ℕ := 5

def maxUserNsCount : ℕ := 1024

inductive UserNsError where
  | maxDepthExceeded
  | maxNamespaces
  | tooManyMappings
  | invalidMapping
  | mappingAlreadySet
  | permissionDenied
  | namespaceIdOverflow
  | outOfMemory
deriving DecidableEq

inductive MappingKind where
  | uid
  | gid
deriving DecidableEq

/-! ## Mapping tables -/

structure UidGidMapping where
  nsId : ℕ
  hostId : ℕ
  count : ℕ
deriving DecidableEq

def rangesOverlap (startA countA startB countB : ℕ) : Bool :=
  let endA := saturatingAddU32 startA countA
  let endB := saturatingAddU32 startB countB
  decide (startA < endB) && decide (startB < endA)

/-- The first loop of `validate_mappings`, for one extent. -/
def validateExtent (m : UidGidMapping) : Except UserNsError Unit :=
  if m.count = 0 then .error .invalidMapping
  else if (checkedAddU32 m.nsId m.count).isNone then .error .invalidMapping
  else if (checkedAddU32 m.hostId m.count).isNone then .error .invalidMapping
  else .ok ()

/-- The second loop of `validate_mappings`, for one pair of extents. -/
def validatePair (a b : UidGidMapping) : Except UserNsError Unit :=
  if rangesOverlap a.nsId a.count b.nsId b.count then .error .invalidMapping
  else if rangesOverlap a.hostId a.count b.hostId b.count then .error .invalidMapping
  else .ok ()

/-- The second loop of `validate_mappings`: every extent against the later ones. -/
def validatePairs : List UidGidMapping → Except UserNsError Unit
  | [] => .ok ()
  | a :: rest => do
    rest.forM (validatePair a)
    validatePairs rest

def validateMappings (mappings : List UidGidMapping) : Except UserNsError Unit := do
  mappings.forM validateExtent
  validatePairs mappings

/-- A table that passed `validate_mappings`. -/
structure MappingTable where
  mappings : List UidGidMapping
  valid : validateMappings mappings = .ok ()

/-- The table of a namespace that was not configured. -/
def MappingTable.empty : MappingTable := ⟨[], rfl⟩

/-- The loop of `map_uid_to_ns` over the extents. -/
def scanToNs (parentId : ℕ) : List UidGidMapping → Option ℕ
  | [] => none
  | m :: rest => do
    let stop ← checkedAddU32 m.hostId m.count
    if m.hostId ≤ parentId ∧ parentId < stop then checkedAddU32 m.nsId (parentId - m.hostId)
    else scanToNs parentId rest

/-- The loop of `map_uid_from_ns` over the extents. -/
def scanFromNs (nsId : ℕ) : List UidGidMapping → Option ℕ
  | [] => none
  | m :: rest => do
    let stop ← checkedAddU32 m.nsId m.count
    if m.nsId ≤ nsId ∧ nsId < stop then checkedAddU32 m.hostId (nsId - m.nsId)
    else scanFromNs nsId rest

/-- The loop of `range_within_parent`. -/
def withinSome (start stop : ℕ) : List UidGidMapping → Bool
  | [] => false
  | pm :: rest =>
    match checkedAddU32 pm.nsId pm.count with
    | none => false
    | some pmEnd => if pm.nsId ≤ start ∧ stop ≤ pmEnd then true else withinSome start stop rest

def rangeWithinParent (parentMappings : List UidGidMapping) (parentIdStart count : ℕ) : Bool :=
  match checkedAddU32 parentIdStart count with
  | none => false
  | some parentIdEnd => withinSome parentIdStart parentIdEnd parentMappings

/-! ## Namespaces -/

/-- The part of a `UserNamespace` that never changes. -/
inductive UserNamespace where
  | root
  | child (id : ℕ) (parent : UserNamespace)
deriving DecidableEq

namespace UserNamespace

def isRoot : UserNamespace → Bool
  | root => true
  | child .. => false

def parent : UserNamespace → Option UserNamespace
  | root => none
  | child _ parent => some parent

/-- `level`, a `u8` that saturates. -/
def level : UserNamespace → ℕ
  | root => 0
  | child _ parent => min (parent.level + 1) 255

end UserNamespace

/-- The part of a `UserNamespace` that is written once. -/
structure NamespaceMaps where
  uidMap : MappingTable
  gidMap : MappingTable
  uidMapSet : Bool
  gidMapSet : Bool

namespace NamespaceMaps

/-- A child starts with unset maps. -/
def unset : NamespaceMaps := ⟨.empty, .empty, false, false⟩

/-- The maps of the root namespace are empty and fixed. -/
def root : NamespaceMaps := ⟨.empty, .empty, true, true⟩

/-- `uid_map` or `gid_map`. -/
def map (m : NamespaceMaps) : MappingKind → MappingTable
  | .uid => m.uidMap
  | .gid => m.gidMap

/-- `uid_map_set` or `gid_map_set`. -/
def isSet (m : NamespaceMaps) : MappingKind → Bool
  | .uid => m.uidMapSet
  | .gid => m.gidMapSet

/-- The table and the flag are written together. -/
def publish (m : NamespaceMaps) (kind : MappingKind) (table : MappingTable) : NamespaceMaps :=
  match kind with
  | .uid => { m with uidMap := table, uidMapSet := true }
  | .gid => { m with gidMap := table, gidMapSet := true }

end NamespaceMaps

/-- The maps of all namespaces. -/
abbrev Maps := UserNamespace → NamespaceMaps

/-- `map_uid_to_ns` and `map_gid_to_ns`: a host ID goes down the parent chain. -/
def mapIdToNs (maps : Maps) (kind : MappingKind) : UserNamespace → ℕ → Option ℕ
  | .root, hostId => some hostId
  | .child id parent, hostId => do
    let parentId ← mapIdToNs maps kind parent hostId
    scanToNs parentId ((maps (.child id parent)).map kind).mappings

/-- `map_uid_from_ns` and `map_gid_from_ns`: a namespace ID goes up the parent chain. -/
def mapIdFromNs (maps : Maps) (kind : MappingKind) : UserNamespace → ℕ → Option ℕ
  | .root, nsId => some nsId
  | .child id parent, nsId => do
    let parentId ← scanFromNs nsId ((maps (.child id parent)).map kind).mappings
    mapIdFromNs maps kind parent parentId

variable (maps : Maps) (ns : UserNamespace) (mappings : List UidGidMapping) (kind : MappingKind)

def mapUidToNs : UserNamespace → ℕ → Option ℕ := mapIdToNs maps .uid

def mapUidFromNs : UserNamespace → ℕ → Option ℕ := mapIdFromNs maps .uid

def mapGidToNs : UserNamespace → ℕ → Option ℕ := mapIdToNs maps .gid

def mapGidFromNs : UserNamespace → ℕ → Option ℕ := mapIdFromNs maps .gid

/-! ## Setting a map -/

def validateParentContainment : Except UserNsError Unit :=
  match ns.parent with
  | none => .ok ()
  | some parent =>
    if parent.isRoot then .ok ()
    else
      mappings.forM fun m =>
        if rangeWithinParent ((maps parent).map kind).mappings m.hostId m.count then .ok ()
        else .error .permissionDenied

/-- What a non-root writer may ask for: one extent with one ID, its own. -/
def mapsOwnId (callerId : ℕ) : List UidGidMapping → Bool
  | [m] => decide (m.count = 1 ∧ m.hostId = callerId)
  | _ => false

def ensureParentMappingAllowed (callerUserNs : UserNamespace) (callerId : ℕ)
    (callerIsNamespaceRoot callerIsHostRoot : Bool) : Except UserNsError Unit :=
  match ns.parent with
  | none => .error .permissionDenied
  | some parent =>
    if !callerIsHostRoot && decide (parent ≠ callerUserNs) then .error .permissionDenied
    else if !callerIsHostRoot && !callerIsNamespaceRoot && !mapsOwnId callerId mappings then
      .error .permissionDenied
    else validateParentContainment maps ns mappings kind

/-- The snapshot of a live caller. -/
structure Caller where
  userNs : UserNamespace
  euid : ℕ
  egid : ℕ

/-- `ensure_mapping_allowed`; there may be no live caller. -/
def ensureMappingAllowed : Option Caller → Except UserNsError Unit
  | none => .error .permissionDenied
  | some caller =>
    let callerId := match kind with
      | .uid => caller.euid
      | .gid => caller.egid
    ensureParentMappingAllowed maps ns mappings kind caller.userNs callerId (caller.euid = 0)
      (mapUidFromNs maps caller.userNs caller.euid = some 0)

/-- The first part of `set_mapping`, without the lock of the table. -/
def checkMapping (alreadySet : Bool) (mappings : List UidGidMapping) :
    Except UserNsError MappingTable :=
  if alreadySet then .error .mappingAlreadySet
  else if mappings.isEmpty then .error .invalidMapping
  else if maxMappings < mappings.length then .error .tooManyMappings
  else
    match h : validateMappings mappings with
    | .error e => .error e
    | .ok () => .ok ⟨mappings, h⟩

/-- The second part of `set_mapping`, with the lock: the flag decides once more. -/
def publishMapping (m : NamespaceMaps) (kind : MappingKind) (table : MappingTable) :
    Except UserNsError NamespaceMaps :=
  if m.isSet kind then .error .mappingAlreadySet else .ok (m.publish kind table)

/-! ## Runs -/

/-- A call between the two parts of `set_mapping`. -/
structure Writer where
  ns : UserNamespace
  kind : MappingKind
  table : MappingTable

/-- The namespaces of the system and the calls in progress. -/
structure UserNsState where
  maps : Maps
  /-- `NEXT_USER_NS_ID`. -/
  nextId : ℕ
  /-- `USER_NS_COUNT`. -/
  count : ℕ
  live : List UserNamespace
  writers : ℕ → Option Writer

namespace UserNsState

/-- The state at boot. -/
def boot : UserNsState where
  maps ns := if ns = .root then .root else .unset
  nextId := 1
  count := 1
  live := [.root]
  writers _ := none

variable (s : UserNsState)

/-- `new_child`; `allocated` says whether the heap and the allocator grant the object. -/
def newChild (parent : UserNamespace) (allocated : Bool) :
    UserNsState × Except UserNsError UserNamespace :=
  if maxUserNsLevel ≤ parent.level then (s, .error .maxDepthExceeded)
  else if maxUserNsCount ≤ s.count then (s, .error .maxNamespaces)
  else
    match checkedAdd s.nextId 1 with
    | none => (s, .error .namespaceIdOverflow)
    | some next =>
      if allocated then
        let child := .child s.nextId parent
        ({ s with
          maps := update s.maps child .unset
          nextId := next
          count := s.count + 1
          live := child :: s.live }, .ok child)
      else ({ s with nextId := next }, .error .outOfMemory)

/-- The last reference to a namespace goes away. -/
def drop (ns : UserNamespace) : UserNsState :=
  { s with count := s.count - 1, live := s.live.erase ns }

/-- A call that passed its permission check goes through the first part of `set_mapping`. -/
def beginSet (i : ℕ) (ns : UserNamespace) (kind : MappingKind) (mappings : List UidGidMapping)
    (allowed : Except UserNsError Unit) : UserNsState :=
  match allowed with
  | .error _ => s
  | .ok () =>
    match checkMapping ((s.maps ns).isSet kind) mappings with
    | .error _ => s
    | .ok table => { s with writers := update s.writers i (some ⟨ns, kind, table⟩) }

/-- A call ends with the second part of `set_mapping`. -/
def finishSet (i : ℕ) (writer : Writer) : UserNsState :=
  let s := { s with writers := update s.writers i none }
  match publishMapping (s.maps writer.ns) writer.kind writer.table with
  | .error _ => s
  | .ok m => { s with maps := update s.maps writer.ns m }

end UserNsState

/-- An event of a run. -/
inductive UserNsEvent where
  | newChild (parent : UserNamespace) (allocated : Bool)
  | drop (ns : UserNamespace)
  /-- `set_uid_map` or `set_gid_map`, up to the lock of the table. -/
  | setMap (i : ℕ) (ns : UserNamespace) (kind : MappingKind) (mappings : List UidGidMapping)
      (caller : Option Caller)
  /-- `set_uid_map_from_parent` or `set_gid_map_from_parent`, up to the lock of the table. -/
  | setMapFromParent (i : ℕ) (ns : UserNamespace) (kind : MappingKind)
      (mappings : List UidGidMapping) (callerUserNs : UserNamespace) (callerId : ℕ)
      (callerIsNamespaceRoot callerIsHostRoot : Bool)
  /-- The rest of a call that sets a map. -/
  | publish (i : ℕ)

namespace UserNsState

/-- One event; an event that cannot happen changes nothing. -/
def exec (s : UserNsState) : UserNsEvent → UserNsState
  | .newChild parent allocated =>
    if parent ∈ s.live then (s.newChild parent allocated).1 else s
  | .drop ns =>
    if ns ∈ s.live ∧ ns ≠ .root ∧ ∀ c ∈ s.live, c.parent ≠ some ns then s.drop ns else s
  | .setMap i ns kind mappings caller =>
    if ns ∈ s.live ∧ (s.writers i).isNone then
      s.beginSet i ns kind mappings (ensureMappingAllowed s.maps ns mappings kind caller)
    else s
  | .setMapFromParent i ns kind mappings callerUserNs callerId namespaceRoot hostRoot =>
    if ns ∈ s.live ∧ (s.writers i).isNone then
      s.beginSet i ns kind mappings (ensureParentMappingAllowed s.maps ns mappings kind callerUserNs
        callerId namespaceRoot hostRoot)
    else s
  | .publish i =>
    match s.writers i with
    | none => s
    | some writer => s.finishSet i writer

/-- A run. -/
def run (s : UserNsState) (events : List UserNsEvent) : UserNsState := events.foldl exec s

end UserNsState

end Nilix.Ns
