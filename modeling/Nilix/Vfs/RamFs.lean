import Nilix.Foundation.Machine
import Nilix.Mm.FallibleMap
import Nilix.Vfs.Types
import Mathlib.Data.String.Basic

/-!
# The RAM file system

`kernel/vfs/ramfs.rs`: the inodes of one `RamFs`, and the calls that change its topology.  They run
under `RAMFS_TOPOLOGY_LOCK`, one after the other.  An inode is known by its number; every inode that
was published is kept, since a handle may still refer to it after its last name is gone.

A call first prepares everything that can fail, and only then changes the tree.  The preparation is a
function that returns a plan or an error; after it nothing but a failed assertion, `none`, stops the
commit.  What the allocator and the heap ledger answer is an argument, `Heap`.  Times, owners,
permissions and file contents are left out.  Link counts are natural numbers: a `u32` count overflows
only with more directories than the RAMFS heap class can hold.
-/

namespace Nilix.Vfs

open Function

/-- Inode numbers. -/
abbrev Ino := ℕ

/-- `DirectoryMap`: from names to inodes. -/
abbrev DirectoryMap := FallibleOrderedMap String Ino

inductive NodeKind where
  | file
  | dir (entries : DirectoryMap)
  | symlink (target : String)

/-- `ParentState`: the place of a directory, and its former parent once it is detached. -/
structure ParentState where
  parent : Ino
  name : String
  retained : Option Ino

structure RamFsInode where
  nlink : ℕ
  kind : NodeKind
  detached : Bool
  parent : Option ParentState

/-- The answers of the heap to one call. -/
structure Heap where
  /-- A slot for the deferred retirement of the call. -/
  defer : Bool
  /-- The new inode. -/
  inode : Bool
  /-- The name in a parent record. -/
  record : Bool
  /-- The edge to a new child. -/
  edge : Bool
  /-- The key of a new entry. -/
  key : Bool
  /-- The owner transfer of a directory that grows. -/
  transfer : Bool
  /-- The spare capacity of a backing beyond what was asked for, if there is a backing. -/
  backing : Option ℕ
  /-- The same, for a backing to compact a directory. -/
  compact : Option ℕ
  /-- The rounds of a subtree search before one of its reservations fails. -/
  search : ℕ

namespace RamFsInode

variable (n : RamFsInode)

def isDir : Bool :=
  match n.kind with
  | .dir _ => true
  | _ => false

def dirEntries : Option DirectoryMap :=
  match n.kind with
  | .dir entries => some entries
  | _ => none

def childCount : ℕ := n.dirEntries.elim 0 FallibleOrderedMap.len

def newDir : RamFsInode := ⟨2, .dir .new, false, none⟩

def newFile : RamFsInode := ⟨1, .file, false, none⟩

def newSymlink (target : String) : RamFsInode := ⟨1, .symlink target, false, none⟩

def incNlink : RamFsInode := { n with nlink := n.nlink + 1 }

/-- `dec_nlink`: a count of zero stays. -/
def decNlink : RamFsInode := { n with nlink := n.nlink - 1 }

/-- The inode with other directory entries. -/
def withEntries (entries : DirectoryMap) : RamFsInode :=
  { n with kind := .dir entries }

def ensureAttachedDir : Except Fault Unit := do
  ensure (n.isDir = true) (.error .notDir)
  ensure (n.detached = false) (.error .notFound)

end RamFsInode

/-! ## Directory maps -/

variable (heap : Heap) (entries : DirectoryMap)

/-- `PreparedDirectoryCapacity::try_new`: the capacity of the prepared backing. -/
def preparedDirectoryCapacity (required : ℕ) : Except Fault ℕ :=
  okOr (heap.backing.map (required + ·)) (.error .noSpace)

/-- `prepare_directory_insert`: the key, and a backing if the one in use is full. -/
def prepareDirectoryInsert : Except Fault (Option ℕ) := do
  ensure (heap.key = true) (.error .noSpace)
  let target ← okOr (checkedAdd entries.len 1) (.error .noSpace)
  if entries.capacity < target then
    let capacity ← preparedDirectoryCapacity heap target
    .ok (some capacity)
  else .ok none

/-- `install_admitted_backing`, where there is one; `none` if it is too small. -/
def installAdmittedBacking : Option ℕ → Option DirectoryMap
  | none => some entries
  | some capacity => entries.replaceBackingDeferred capacity

/-- `commit_directory_insert`: whether the entry is there now, and the directory. -/
def commitDirectoryInsert (backing : Option ℕ) (name : String) (child : Ino) :
    Option (Bool × DirectoryMap) := do
  let entries ← installAdmittedBacking entries backing
  match entries.insertUniqueReserved name child with
  | some inserted => some (true, inserted)
  | none => some (false, entries)

/-- `prepare_directory_compaction`: a backing without room for entries takes no heap. -/
def prepareDirectoryCompaction (target : ℕ) : Option ℕ :=
  if target = 0 then some 0 else heap.compact.map (target + ·)

/-- `commit_directory_remove`: the child that was named, and the directory without it. -/
def commitDirectoryRemove (name : String) (prepared : Option ℕ) :
    Option (Ino × DirectoryMap) := do
  let child ← entries.get name
  let entries ← installAdmittedBacking (entries.remove name) prepared
  some (child, entries)

/-! ## The file system -/

structure RamFs where
  inodes : Ino → Option RamFsInode
  nextIno : ℕ

/-- The number of the root inode. -/
def rootIno : Ino := 1

namespace RamFs

def tryNew : RamFs :=
  ⟨update (fun _ => none) rootIno (some RamFsInode.newDir), 2⟩

variable (fs : RamFs) (i : Ino)

def allocIno : Option (Ino × RamFs) :=
  (checkedAdd fs.nextIno 1).map fun next => (fs.nextIno, { fs with nextIno := next })

/-- An inode is changed in place. -/
def modify (f : RamFsInode → RamFsInode) : RamFs :=
  { fs with inodes := update fs.inodes i ((fs.inodes i).map f) }

/-- The entries of a directory are replaced. -/
def setEntries (entries : DirectoryMap) : RamFs :=
  fs.modify i fun n => n.withEntries entries

/-- A new inode becomes reachable. -/
def publish (n : RamFsInode) : RamFs :=
  { fs with inodes := update fs.inodes i (some n) }

/-- `downcast_inode`: a handle to an inode of the file system. -/
def downcastInode : Except Fault RamFsInode :=
  okOr (fs.inodes i) (.error .invalid)

/-- `edge.target()`. -/
def target : Except Fault RamFsInode := okOr (fs.inodes i) .panic

/-- `retain_detached`: a directory that lost its name keeps its former parent and is marked. -/
def retainDetached (parent child : Ino) : Option RamFs := do
  let n ← fs.inodes child
  if n.isDir = true then
    let record ← n.parent
    if record.retained = none then
      some (fs.modify child fun n =>
        { n with detached := true, parent := some { record with retained := some parent } })
    else none
  else some fs

/-! ## Creation -/

/-- The checks of `add_child`, with what it prepares, under `ensure_attached_dir`. -/
def prepareAddChild (heap : Heap) (parent : Ino) (name : String) (child : RamFsInode) :
    Except Fault (DirectoryMap × Option ℕ) := do
  let p ← fs.downcastInode parent
  p.ensureAttachedDir
  ensure (¬(name = "" ∨ name.utf8ByteSize > 255 ∨ '/' ∈ name.toList)) (.error .nameTooLong)
  ensure (¬(name = "." ∨ name = "..")) (.error .invalid)
  ensure (child.isDir = true → heap.record = true) (.error .noSpace)
  ensure (heap.edge = true) (.error .noMem)
  let entries ← okOr p.dirEntries (.error .notDir)
  ensure (entries.containsKey name = false) (.error .alreadyExists)
  let backing ← prepareDirectoryInsert heap entries
  ensure (heap.transfer = true) (.error .noSpace)
  .ok (entries, backing)

def addChild (heap : Heap) (parent : Ino) (name : String) (ino : Ino) (child : RamFsInode) :
    Except Fault Unit × RamFs :=
  match fs.prepareAddChild heap parent name child with
  | .error fault => (.error fault, fs)
  | .ok (entries, backing) =>
    match commitDirectoryInsert entries backing name ino with
    | none => (.error .panic, fs)
    | some (false, entries) => (.error (.error .noSpace), fs.setEntries parent entries)
    | some (true, entries) =>
      let record := if child.isDir then some ⟨parent, name, none⟩ else none
      (.ok (), (fs.setEntries parent entries).publish ino { child with parent := record })

/-- The part that `create` and `symlink` share: a number, an inode and its name. -/
def publishNew (heap : Heap) (parent : Ino) (name : String) (child : RamFsInode) :
    Except Fault Ino × RamFs :=
  match fs.allocIno with
  | none => (.error (.error .noSpace), fs)
  | some (ino, fs) =>
    if heap.inode = true then
      match fs.addChild heap parent name ino child with
      | (.error fault, fs) => (.error fault, fs)
      | (.ok (), fs) => (.ok ino, if child.isDir then fs.modify parent .incNlink else fs)
    else (.error (.error .noSpace), fs)

/-- The first checks of `create` and `symlink`. -/
def checkParent (heap : Heap) (parent : Ino) : Except Fault Unit := do
  ensure (heap.defer = true) (.error .noMem)
  let p ← fs.downcastInode parent
  ensure (p.isDir = true) (.error .notDir)

/-- `create`, of a directory or of a file. -/
def create (heap : Heap) (parent : Ino) (name : String) (isDir : Bool) : Except Fault Ino × RamFs :=
  match fs.checkParent heap parent with
  | .error fault => (.error fault, fs)
  | .ok () => fs.publishNew heap parent name (if isDir then .newDir else .newFile)

/-- The checks of a symlink target. -/
def checkTarget (target : String) : Except Fault Unit := do
  ensure (target ≠ "") (.error .invalid)
  ensure (target.utf8ByteSize < 4096) (.error .nameTooLong)

def symlink (heap : Heap) (parent : Ino) (name target : String) : Except Fault Ino × RamFs :=
  match fs.checkParent heap parent >>= fun _ => checkTarget target with
  | .error fault => (.error fault, fs)
  | .ok () => fs.publishNew heap parent name (.newSymlink target)

/-! ## Removal -/

/-- What `unlink` has found when it starts to remove the entry. -/
structure UnlinkPlan where
  entries : DirectoryMap
  current : Ino
  isDir : Bool
  compact : Option ℕ

/-- The checks of `unlink`. -/
def prepareUnlink (heap : Heap) (parent : Ino) (name : String) (expectedIno : Ino)
    (mustBeDir : Option Bool) : Except Fault UnlinkPlan := do
  ensure (heap.defer = true) (.error .noMem)
  let p ← fs.downcastInode parent
  ensure (p.isDir = true) (.error .notDir)
  ensure (¬(name = "." ∨ name = "..")) (.error .invalid)
  p.ensureAttachedDir
  let entries ← okOr p.dirEntries (.error .notDir)
  let current ← okOr (entries.get name) (.error .notFound)
  let node ← fs.target current
  ensure (current = expectedIno) (.error .permDenied)
  ensure (¬(mustBeDir = some true ∧ node.isDir = false)) (.error .notDir)
  ensure (¬(mustBeDir = some false ∧ node.isDir = true)) (.error .isDir)
  ensure (node.childCount = 0) (.error .notEmpty)
  ensure (1 ≤ entries.len) (.error .notFound)
  .ok ⟨entries, current, node.isDir, prepareDirectoryCompaction heap (entries.len - 1)⟩

/-- The removal itself. -/
def commitUnlink (parent : Ino) (name : String) (plan : UnlinkPlan) : Option RamFs := do
  let (removed, entries) ← commitDirectoryRemove plan.entries name plan.compact
  let fs := fs.setEntries parent entries
  let fs := if plan.isDir then fs.modify parent .decNlink else fs
  let fs := fs.modify removed .decNlink
  fs.retainDetached parent removed

/-- `unlink`; `rmdir` is `unlink` of what must be a directory. -/
def unlink (heap : Heap) (parent : Ino) (name : String) (expectedIno : Ino) (mustBeDir : Option Bool) :
    Except Fault Unit × RamFs :=
  match fs.prepareUnlink heap parent name expectedIno mustBeDir with
  | .error fault => (.error fault, fs)
  | .ok plan =>
    match fs.commitUnlink parent name plan with
    | none => (.error .panic, fs)
    | some fs => (.ok (), fs)

/-! ## Renaming -/

def verifyRenameIdentity (inode : Ino) (dest : Option Ino) (expectedSrcIno : Ino)
    (expectedDestIno : Option Ino) : Except Fault Unit := do
  ensure (inode = expectedSrcIno) (.error .permDenied)
  ensure (dest = expectedDestIno) (.error .permDenied)

inductive RenameDecision where
  | noOp
  | move
  | replace
deriving DecidableEq

/-- `rename_decide`; the destination comes with its inode. -/
def renameDecide (inode : Ino) (inodeIsDir : Bool) (dest : Option (Ino × RamFsInode))
    (noreplace : Bool) (oldParent newParent : Ino) : Except Fault RenameDecision :=
  match dest with
  | none => .ok .move
  | some (existing, node) =>
    if noreplace then .error (.error .alreadyExists)
    else if inode = existing then .ok .noOp
    else if existing = oldParent ∨ existing = newParent then .error (.error .invalid)
    else if node.isDir then
      if inodeIsDir = false then .error (.error .isDir)
      else if node.childCount ≠ 0 then .error (.error .notEmpty)
      else .ok .replace
    else if inodeIsDir then .error (.error .notDir)
    else .ok .replace

/-- The inodes that a directory names. -/
def children : List Ino :=
  ((fs.inodes i).bind RamFsInode.dirEntries).elim [] fun entries => entries.iter.map Prod.snd

/-- Whether an inode is a directory. -/
def isDirectory : Bool := (fs.inodes i).elim false RamFsInode.isDir

/-- The loop of `dir_subtree_contains_ino`: a round takes a directory from the stack, compares its
children and pushes those that are directories.  A reservation may fail in any round. -/
def searchSubtree (fs : RamFs) (targetIno : Ino) : ℕ → List Ino → Except Fault Bool
  | _, [] => .ok false
  | 0, _ :: _ => .error (.error .noSpace)
  | rounds + 1, node :: stack =>
    if targetIno ∈ fs.children node then .ok true
    else fs.searchSubtree targetIno rounds
      (((fs.children node).filter fs.isDirectory).reverse ++ stack)

def dirSubtreeContainsIno (heap : Heap) (root targetIno : Ino) : Except Fault Bool :=
  if root = targetIno then .ok true else fs.searchSubtree targetIno heap.search [root]

/-- What `rename` has found and prepared when it starts to change entries. -/
structure RenamePlan where
  oldEntries : DirectoryMap
  newEntries : DirectoryMap
  inode : Ino
  inodeIsDir : Bool
  dest : Option (Ino × RamFsInode)
  isMove : Bool
  newBacking : Option ℕ
  oldCompact : Option ℕ

/-- The destination of a rename, with its inode. -/
def renameDest (newEntries : DirectoryMap) (newName : String) :
    Except Fault (Option (Ino × RamFsInode)) :=
  match newEntries.get newName with
  | none => .ok none
  | some dest => do
    let node ← fs.target dest
    .ok (some (dest, node))

/-- The backing of a destination directory that gets another entry. -/
def prepareDestination (heap : Heap) (needed : Bool) (newEntries : DirectoryMap) :
    Except Fault (Option ℕ) :=
  if needed then do
    let target ← okOr (checkedAdd newEntries.len 1) (.error .noSpace)
    if newEntries.capacity < target then
      let capacity ← preparedDirectoryCapacity heap target
      .ok (some capacity)
    else .ok none
  else .ok none

/-- The two directories of a rename, with what the names stand for in them. -/
structure RenameView where
  oldEntries : DirectoryMap
  newEntries : DirectoryMap
  inode : Ino
  node : RamFsInode
  dest : Option (Ino × RamFsInode)

/-- The first part of `rename`: the names, the directories and the identities. -/
def lookupRename (heap : Heap) (oldParent : Ino) (oldName : String) (newParent : Ino) (newName : String)
    (expectedSrcIno : Ino) (expectedDestIno : Option Ino) :
    Except Fault RenameView := do
  ensure (heap.defer = true) (.error .noMem)
  let old ← fs.downcastInode oldParent
  let new ← fs.downcastInode newParent
  ensure (¬(oldName = "." ∨ oldName = ".." ∨ newName = "." ∨ newName = "..")) (.error .invalid)
  ensure (¬(newName = "" ∨ newName.utf8ByteSize > 255 ∨ '/' ∈ newName.toList ∨
    '\x00' ∈ newName.toList)) (.error .nameTooLong)
  old.ensureAttachedDir
  new.ensureAttachedDir
  let oldEntries ← okOr old.dirEntries (.error .notDir)
  let newEntries ← okOr new.dirEntries (.error .notDir)
  let inode ← okOr (oldEntries.get oldName) (.error .notFound)
  let dest ← fs.renameDest newEntries newName
  verifyRenameIdentity inode (dest.map Prod.fst) expectedSrcIno expectedDestIno
  let node ← fs.target inode
  .ok ⟨oldEntries, newEntries, inode, node, dest⟩

/-- Whether a directory would move below itself. -/
def movesBelowItself (heap : Heap) (view : RenameView) (oldParent newParent : Ino) :
    Except Fault Bool :=
  if view.node.isDir = true ∧ oldParent ≠ newParent then
    fs.dirSubtreeContainsIno heap view.inode newParent
  else .ok false

/-- The second part of `rename`: everything that takes memory. -/
def prepareMove (heap : Heap) (oldParent newParent : Ino) (view : RenameView) (isMove : Bool) :
    Except Fault RenamePlan := do
  let inside ← fs.movesBelowItself heap view oldParent newParent
  ensure (inside = false) (.error .invalid)
  ensure (view.node.isDir = true → heap.record = true) (.error .noSpace)
  ensure (isMove = true → heap.key = true) (.error .noSpace)
  let newBacking ← prepareDestination heap (isMove && oldParent ≠ newParent) view.newEntries
  ensure (¬(oldParent = newParent ∧ isMove = true) → 1 ≤ view.oldEntries.len) (.error .notFound)
  ensure (isMove = true → heap.transfer = true) (.error .noSpace)
  .ok
    { oldEntries := view.oldEntries
      newEntries := view.newEntries
      inode := view.inode
      inodeIsDir := view.node.isDir
      dest := view.dest
      isMove := isMove
      newBacking := newBacking
      oldCompact := if oldParent = newParent ∧ isMove = true then none
        else prepareDirectoryCompaction heap (view.oldEntries.len - 1) }

/-- The checks of `rename`, with what it prepares; `none` if there is nothing to do. -/
def prepareRename (heap : Heap) (oldParent : Ino) (oldName : String) (newParent : Ino)
    (newName : String) (noreplace : Bool) (expectedSrcIno : Ino) (expectedDestIno : Option Ino) :
    Except Fault (Option RenamePlan) := do
  let view ← fs.lookupRename heap oldParent oldName newParent newName expectedSrcIno expectedDestIno
  let decision ← renameDecide view.inode view.node.isDir view.dest noreplace oldParent newParent
  if decision = .noOp then .ok none
  else
    let plan ← fs.prepareMove heap oldParent newParent view (decision = .move)
    .ok (some plan)

/-- The source edge is entered at its destination: a new entry, or in place of the victim. -/
def placeSource (isMove : Bool) (entries : DirectoryMap) (backing : Option ℕ) (newName : String)
    (source : Ino) : Option (Option Ino × DirectoryMap) :=
  if isMove then
    match commitDirectoryInsert entries backing newName source with
    | some (true, entries) => some (none, entries)
    | _ => none
  else do
    let victim ← entries.get newName
    some (some victim, entries.modify newName fun _ => source)

/-- The entries of both directories are changed; the victim is returned. -/
def moveEdge (oldParent : Ino) (oldName : String) (newParent : Ino) (newName : String)
    (plan : RenamePlan) : Option (Option Ino × RamFs) := do
  let (source, oldEntries) ← commitDirectoryRemove plan.oldEntries oldName plan.oldCompact
  if oldParent = newParent then
    let (victim, entries) ← placeSource plan.isMove oldEntries none newName source
    some (victim, fs.setEntries oldParent entries)
  else
    let (victim, newEntries) ← placeSource plan.isMove plan.newEntries plan.newBacking newName source
    some (victim, (fs.setEntries oldParent oldEntries).setEntries newParent newEntries)

def renameApplyAccounting (oldParent newParent : Ino) (inodeIsDir : Bool)
    (victim : Option (Ino × RamFsInode)) : RamFs :=
  let fs := match victim with
    | none => fs
    | some (victim, node) =>
      let fs := if node.isDir then fs.modify newParent .decNlink else fs
      fs.modify victim .decNlink
  if inodeIsDir = true ∧ oldParent ≠ newParent then
    (fs.modify oldParent .decNlink).modify newParent .incNlink
  else fs

/-- The rename itself. -/
def commitRename (oldParent : Ino) (oldName : String) (newParent : Ino) (newName : String)
    (plan : RenamePlan) : Option RamFs := do
  let (victim, fs) ← fs.moveEdge oldParent oldName newParent newName plan
  let fs := if plan.inodeIsDir then
      fs.modify plan.inode fun n => { n with parent := some ⟨newParent, newName, none⟩ }
    else fs
  let fs ← match victim with
    | none => some fs
    | some victim => fs.retainDetached newParent victim
  some (fs.renameApplyAccounting oldParent newParent plan.inodeIsDir plan.dest)

def rename (heap : Heap) (oldParent : Ino) (oldName : String) (newParent : Ino) (newName : String)
    (noreplace : Bool) (expectedSrcIno : Ino) (expectedDestIno : Option Ino) :
    Except Fault Unit × RamFs :=
  match fs.prepareRename heap oldParent oldName newParent newName noreplace expectedSrcIno
      expectedDestIno with
  | .error fault => (.error fault, fs)
  | .ok none => (.ok (), fs)
  | .ok (some plan) =>
    match fs.commitRename oldParent oldName newParent newName plan with
    | none => (.error .panic, fs)
    | some fs => (.ok (), fs)

/-! ## Runs -/

/-- A call, with the answers of the heap to it. -/
inductive Call where
  | create (heap : Heap) (parent : Ino) (name : String) (isDir : Bool)
  | symlink (heap : Heap) (parent : Ino) (name target : String)
  | unlink (heap : Heap) (parent : Ino) (name : String) (expectedIno : Ino)
      (mustBeDir : Option Bool)
  | rename (heap : Heap) (oldParent : Ino) (oldName : String) (newParent : Ino) (newName : String)
      (noreplace : Bool) (expectedSrcIno : Ino) (expectedDestIno : Option Ino)

/-- A call runs: what stopped it, if anything, and the file system after it. -/
def exec : Call → Option Fault × RamFs
  | .create heap parent name isDir => outcome (fs.create heap parent name isDir)
  | .symlink heap parent name target => outcome (fs.symlink heap parent name target)
  | .unlink heap parent name expectedIno mustBeDir =>
    outcome (fs.unlink heap parent name expectedIno mustBeDir)
  | .rename heap oldParent oldName newParent newName noreplace expectedSrcIno expectedDestIno =>
    outcome (fs.rename heap oldParent oldName newParent newName noreplace expectedSrcIno
      expectedDestIno)
where
  /-- The fault of a result. -/
  outcome {α : Type} : Except Fault α × RamFs → Option Fault × RamFs
    | (.ok _, fs) => (none, fs)
    | (.error fault, fs) => (some fault, fs)

/-- The file system after a sequence of calls on a new one. -/
def run (calls : List Call) : RamFs := calls.foldl (fun fs call => (fs.exec call).2) tryNew

end RamFs

end Nilix.Vfs
