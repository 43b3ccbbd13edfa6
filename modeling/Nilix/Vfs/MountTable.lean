import Nilix.Vfs.Path
import Mathlib.Logic.Function.Basic

/-!
# The mount table

`kernel/vfs/operations.rs`: the calls that change the mounts of a namespace, `mount`, `umount` and
`pivot_root`, and the copy of a view for a new namespace.  `kernel/vfs/path.rs`: `prepare_pivot`.

A call sees the state of the file systems and the directories of its process at the time it runs,
which may be any; only the numbers of a file system and its root are fixed.  What a call has looked up
before it took the locks is given with it, and compared as the source does.  Allocations fail as the
caller of the model says.
-/

namespace Nilix.Vfs

open Function

def maxRootTransitions : ℕ := 256

/-- The file systems `now`, with the fixed numbers of `base`. -/
def World.at_ (base now : World) : World := { now with fsId := base.fsId, rootIno := base.rootIno }

/-- The ID of the parent of a mount. -/
def Mount.parentId (m : Mount) : Option ℕ := m.place.map fun e => e.1.id

namespace MountView

variable (v : MountView)

def empty : MountView := ⟨.empty, none, 0, [], fun _ _ h => nomatch h⟩

/-- `mounts.try_insert(mount.id, mount)`. -/
def put (m : Mount) : MountView where
  mounts := v.mounts.insert m.id m
  root := v.root
  epoch := v.epoch
  transitions := v.transitions
  keyed id m' h := by
    by_cases hid : id = m.id
    · subst hid
      rw [SortedAssoc.get?_insert_self] at h
      rw [Option.some.inj h]
    rw [SortedAssoc.get?_insert_of_ne hid] at h
    exact v.keyed id m' h

/-- `mounts.remove(id)`. -/
def remove (id : ℕ) : MountView where
  mounts := v.mounts.erase id
  root := v.root
  epoch := v.epoch
  transitions := v.transitions
  keyed id' m h := by
    by_cases hid : id' = id
    · rw [hid, SortedAssoc.get?_erase_self] at h
      cases h
    rw [SortedAssoc.get?_erase_of_ne hid] at h
    exact v.keyed id' m h

/-- The number of mounts. -/
def len : ℕ := v.mounts.entries.length

/-! ## A new mount -/

variable (w : World) (c : OperationContext) (newRoot putOld : ResolvedPath) (oldRootId : ℕ)
    (admits : ℕ → Bool)

/-- The checks of `insert_mount` on the directory that is to be covered. -/
def coverable : Option ResolvedPath → Except FsError Unit
  | some covered => do
    ensure (w.kind covered.inode = .dir) .notDir
    ensure (covered.inode.ino ≠ w.rootIno covered.mount.fs) .busy
  | none => ensure (v.root = none) .alreadyExists

/-- The checks of `insert_mount`. -/
def checkInsert (covered : Option ResolvedPath) (fs : FsRef) : Except FsError Unit := do
  ensure (v.len < maxMountsPerNs) .noMem
  v.coverable w covered
  ensure (w.kind (w.rootInode fs) = .dir) .notDir

/-- `insert_mount` after its checks. -/
def insertMount (id : ℕ) (fs : FsRef) : Option ResolvedPath → MountView
  | some covered => v.put (.covering id fs covered.mount covered.inode)
  | none => { v.put (.base id fs) with root := some id }

/-! ## `umount` -/

/-- The checks of `umount` on the target. -/
def checkRemove (target : ResolvedPath) : Except FsError Unit := do
  ensure (¬(some target.mount.id = v.root ∨ target.inode.ino ≠ w.rootIno target.mount.fs)) .busy
  ensure (∀ m ∈ v.values, m.parentId ≠ some target.mount.id) .busy
  ensure (v.mounts.get? target.mount.id ≠ none) .notFound

/-! ## `pivot_root` -/

/-- The check of `pivot_pair` that both paths are directories with search permission. -/
def checkDirectory (p : ResolvedPath) : Except FsError Unit := do
  let stat ← w.stat p.inode
  ensure (w.kind p.inode = .dir) .notDir
  ensure (c.permits stat = true) .permDenied

def found (walk : Walk) : Except FsError ResolvedPath := do
  match ← walk.result with
  | .found p => .ok p
  | .missing _ _ => .error .notFound

/-- `resolve` as all calls of this file use it. -/
def find (name : List Char) : Except FsError ResolvedPath :=
  found (resolve w v c name .empty .follow false)

def pivotPair (uid : ℕ) (newName oldName : List Char) :
    Except FsError (ResolvedPath × ResolvedPath) := do
  ensure (uid = 0) .notPermitted
  let root ← v.rootPath w
  let processRoot ← v.handlePath w c.root
  ensure (processRoot.same root = true) .notPermitted
  let newRoot ← v.find w c newName
  let putOld ← v.find w c oldName
  checkDirectory w c newRoot
  checkDirectory w c putOld
  ensure (¬(newRoot.mount.id = root.mount.id ∨ v.mounts.get? newRoot.mount.id = none ∨
    newRoot.inode.ino ≠ w.rootIno newRoot.mount.fs ∨ newRoot.mount.place = none ∨
    putOld.mount.id ≠ newRoot.mount.id ∨ putOld.same newRoot = true)) .invalid
  let beneath ← isBeneath w v newRoot true putOld
  ensure (beneath = true) .invalid
  ensure (∀ m ∈ v.values, m.point ≠ some (putOld.mount.id, putOld.inode)) .busy
  .ok (newRoot, putOld)

/-- Where a mount is attached after the pivot. -/
def pivotEdge (source : Mount) : Except FsError (ℕ × Inode) :=
  if source.id = oldRootId then .ok (newRoot.mount.id, putOld.inode) else okOr source.point .invalid

/-- One round of the inner loop of `prepare_pivot`; `admits` says for which mounts the allocations
succeed. -/
def pivotVisit (next : MountView) (source : Mount) : Except FsError MountView :=
  if next.mounts.get? source.id ≠ none then .ok next
  else do
    let (parentId, covered) ← pivotEdge newRoot putOld oldRootId source
    match next.mounts.get? parentId with
    | none => .ok next
    | some parent =>
      ensure (covered.fsId = w.fsId parent.fs) .crossDev
      ensure (admits source.id = true) .noMem
      .ok (next.put (.covering source.id source.fs parent covered))

/-- The inner loop of `prepare_pivot`. -/
def pivotPass (next : MountView) : Except FsError MountView :=
  v.values.foldlM (pivotVisit w newRoot putOld oldRootId admits) next

/-- The outer loop of `prepare_pivot`.  It ends after as many rounds as there are mounts, since a
round that adds none is an error. -/
def pivotRounds (w : World) (newRoot putOld : ResolvedPath) (oldRootId : ℕ) (admits : ℕ → Bool) :
    ℕ → MountView → Except FsError MountView
  | 0, next => .ok next
  | rounds + 1, next =>
    if next.len < v.len then do
      let passed ← v.pivotPass w newRoot putOld oldRootId admits next
      ensure (next.len ≠ passed.len) .invalid
      pivotRounds w newRoot putOld oldRootId admits rounds passed
    else .ok next

/-- `prepare_pivot` after it has got its epoch. -/
def preparePivot (newRoot putOld oldRoot : ResolvedPath) (epoch : ℕ) (admits : ℕ → Bool) :
    Except FsError MountView := do
  ensure (admits newRoot.mount.id = true) .noMem
  let first : MountView := { MountView.empty.put (.base newRoot.mount.id newRoot.mount.fs) with
    root := some newRoot.mount.id
    epoch := epoch
    transitions := v.transitions ++ [⟨epoch, oldRoot.identity, newRoot.identity⟩] }
  v.pivotRounds w newRoot putOld oldRoot.mount.id admits v.len first

end MountView

/-! ## The tables of all namespaces -/

/-- What a call knows about its process and its surroundings. -/
structure Call where
  now : World
  context : OperationContext
  uid : ℕ
  /-- An error of the hooks, allocations and rechecks that come before the view is looked at. -/
  early : Option FsError

/-- The checks and allocations that come first. -/
def Call.admitted (call : Call) : Except FsError Unit :=
  call.early.elim (.ok ()) .error

/-- The views of the namespaces, with `NEXT_MOUNT` and `NEXT_ROOT_EPOCH`. -/
structure MountTables where
  views : ℕ → Option MountView
  nextMount : ℕ
  nextEpoch : ℕ

namespace MountTables

variable (base : World) (s : MountTables)

variable (ns : ℕ) (v : MountView) (call : Call) (name : List Char) (fs : FsRef)

/-- A namespace has a new view. -/
def setView : MountTables :=
  { s with views := update s.views ns (some v) }

/-- The path is still the one that was looked up before. -/
def recheck (expected : ResolvedPath) (current : ResolvedPath) : Except FsError Unit :=
  ensure (current.same expected = true) .again

/-- `mount` up to `insert_mount`: the directory to be covered. -/
def prepareMount (expected : ResolvedPath) : Except FsError (Option ResolvedPath) := do
  ensure (call.uid = 0) .permDenied
  call.admitted
  let current ← v.find (base.at_ call.now) call.context name
  recheck expected current
  v.checkInsert (base.at_ call.now) (some current) fs
  .ok (some current)

/-- `trusted_context`: the root of the namespace, and all permissions. -/
def trustedContext (w : World) : Except FsError OperationContext := do
  let root ← v.rootPath w
  .ok ⟨some root, some root, fun _ => true, fun _ _ => true⟩

/-- `mount_in_namespace` up to `insert_mount`. -/
def prepareSetup : Except FsError (Option ResolvedPath) :=
  if name = ['/'] ∧ v.root = none then do
    call.admitted
    v.checkInsert (base.at_ call.now) none fs
    .ok none
  else do
    call.admitted
    let context ← trustedContext v (base.at_ call.now)
    let current ← v.find (base.at_ call.now) context name
    v.checkInsert (base.at_ call.now) (some current) fs
    .ok (some current)

/-- `Mount::try_new` and the insertion; the ID is used up also if the allocation fails. -/
def commitMount (allocates : Bool) (covered : Option ResolvedPath) :
    Except FsError Unit × MountTables :=
  if s.nextMount + 1 < 2 ^ 64 then
    if allocates then
      (.ok (), { s with nextMount := s.nextMount + 1 }.setView ns
        (v.insertMount s.nextMount fs covered))
    else (.error .noMem, { s with nextMount := s.nextMount + 1 })
  else (.error .noSpace, s)

/-- `umount_using`: the mount to be removed. -/
def prepareUmount (target : ResolvedPath) :
    Except FsError ℕ := do
  ensure (call.uid = 0) .permDenied
  call.admitted
  let current ← v.find (base.at_ call.now) call.context name
  recheck target current
  v.checkRemove (base.at_ call.now) target
  .ok target.mount.id

/-- `pivot_authorized` up to `prepare_pivot`, with the old root. -/
def checkPivot (newName oldName : List Char) (expectedNew expectedOld : ResolvedPath) :
    Except FsError (ResolvedPath × ResolvedPath × ResolvedPath) := do
  call.admitted
  let (newRoot, putOld) ←
    v.pivotPair (base.at_ call.now) call.context call.uid newName oldName
  recheck expectedNew newRoot
  recheck expectedOld putOld
  ensure (v.transitions.length < maxRootTransitions) .noMem
  let oldRoot ← v.rootPath (base.at_ call.now)
  .ok (newRoot, putOld, oldRoot)

/-- `prepare_pivot` and the replacement of the view; the epoch is used up also on failure. -/
def commitPivot (admits : ℕ → Bool) (newRoot putOld oldRoot : ResolvedPath) :
    Except FsError Unit × MountTables :=
  if s.nextEpoch + 1 < 2 ^ 64 then
    match v.preparePivot (base.at_ call.now) newRoot putOld oldRoot s.nextEpoch admits with
    | .error e => (.error e, { s with nextEpoch := s.nextEpoch + 1 })
    | .ok v' => (.ok (), { s with nextEpoch := s.nextEpoch + 1 }.setView ns v')
  else (.error .noMem, s)

end MountTables

/-- The calls; `ns` is the namespace of the caller. -/
inductive MountCall where
  /-- `mount`. -/
  | mount (ns : ℕ) (call : Call) (name : List Char) (fs : FsRef) (expected : ResolvedPath)
      (allocates : Bool)
  /-- `mount_in_namespace`. -/
  | setup (ns : ℕ) (call : Call) (name : List Char) (fs : FsRef) (allocates : Bool)
  | umount (ns : ℕ) (call : Call) (name : List Char) (target : ResolvedPath)
  | pivotRoot (ns : ℕ) (call : Call) (newName oldName : List Char)
      (expectedNew expectedOld : ResolvedPath) (admits : ℕ → Bool)
  /-- `NamespaceMountTable::try_new` for a namespace with a parent. -/
  | copy (child parent : ℕ) (allocates : Bool)
  /-- `remove_namespace_id`. -/
  | removeNamespace (ns : ℕ)

/-- The namespace whose view a call uses. -/
def MountCall.source : MountCall → ℕ
  | .mount ns .. => ns
  | .setup ns .. => ns
  | .umount ns .. => ns
  | .pivotRoot ns .. => ns
  | .copy _ parent _ => parent
  | .removeNamespace ns => ns

namespace MountTables

variable (base : World) (s : MountTables)

/-- A preparation, then the change. -/
def commit {α : Type} (prepared : Except FsError α) (change : α → Except FsError Unit × MountTables) :
    Except FsError Unit × MountTables :=
  match prepared with
  | .error e => (.error e, s)
  | .ok a => change a

/-- One call on a namespace that has a view. -/
def callView (v : MountView) : MountCall → Except FsError Unit × MountTables
  | .mount ns call name fs expected allocates =>
    s.commit (prepareMount base v call name fs expected) (s.commitMount ns v fs allocates)
  | .setup ns call name fs allocates =>
    s.commit (prepareSetup base v call name fs) (s.commitMount ns v fs allocates)
  | .umount ns call name target =>
    s.commit (prepareUmount base v call name target) fun id => (.ok (), s.setView ns (v.remove id))
  | .pivotRoot ns call newName oldName expectedNew expectedOld admits =>
    s.commit (checkPivot base v call newName oldName expectedNew expectedOld)
      fun (newRoot, putOld, oldRoot) => s.commitPivot base ns v call admits newRoot putOld oldRoot
  | .copy child _ allocates =>
    if s.views child ≠ none then (.ok (), s)
    else if allocates then (.ok (), s.setView child v)
    else (.error .noMem, s)
  | .removeNamespace ns => (.ok (), { s with views := update s.views ns none })

/-- One call. -/
def exec (e : MountCall) : Except FsError Unit × MountTables :=
  match s.views e.source with
  | none => (.error .notFound, s)
  | some v => s.callView base v e

/-- The state after a sequence of calls. -/
def run (calls : List MountCall) : MountTables :=
  calls.foldl (fun s e => (s.exec base e).2) s

/-- One namespace with one root mount. -/
def initial (fs : FsRef) : MountTables where
  views := update (fun _ => none) 0 (some (MountView.empty.insertMount 1 fs none))
  nextMount := 2
  nextEpoch := 1

end MountTables

end Nilix.Vfs
