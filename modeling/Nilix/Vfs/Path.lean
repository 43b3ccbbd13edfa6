import Nilix.Foundation.SortedAssoc
import Nilix.Vfs.Types

/-!
# Mount views and the path walk

`kernel/vfs/path.rs`: mounts and the view that a namespace has of them, the step to the parent across
mount points, and `resolve`.  A call sees one view and one state of all file systems, `World`.

A path is kept as the list of its parts between slashes, which determines it.  The walk records, next
to its result, in which directories it has looked up a name and which symlinks it has followed.
Allocation failures, which only end a walk with an error, are left out.
-/

namespace Nilix.Vfs

/-- A component of a path. -/
abbrev Name := List Char

/-- An inode, as far as the walk compares it. -/
structure Inode where
  fsId : ℕ
  ino : ℕ
deriving DecidableEq

/-- `is_dir`, `is_symlink`, or neither. -/
inductive InodeKind where
  | dir
  | file
  | symlink
deriving DecidableEq

/-- `Stat`: what permissions and the length of a symlink are read from. -/
structure Stat where
  mode : ℕ
  uid : ℕ
  gid : ℕ
  size : ℕ

structure DirectoryParent where
  inode : Inode
  name : Name
  attached : Bool

/-- A file system object. -/
abbrev FsRef := ℕ

/-- All file systems in the state that a call sees. -/
structure World where
  fsId : FsRef → ℕ
  rootIno : FsRef → ℕ
  /-- `fs_type() == "proc"`. -/
  isProc : FsRef → Bool
  lookup : FsRef → Inode → Name → Except FsError Inode
  directoryParent : FsRef → Inode → Except FsError (Option DirectoryParent)
  kind : Inode → InodeKind
  stat : Inode → Except FsError Stat
  /-- The text of a symlink: what reading and decoding it return. -/
  readLink : Inode → Except FsError (List Char)

def World.rootInode (w : World) (fs : FsRef) : Inode := ⟨w.fsId fs, w.rootIno fs⟩

/-! ## Mounts -/

/-- `Mount`: without or with the directory that it covers in its parent mount. -/
inductive Mount where
  | base (id : ℕ) (fs : FsRef)
  | covering (id : ℕ) (fs : FsRef) (parent : Mount) (covered : Inode)
deriving DecidableEq

namespace Mount

def id : Mount → ℕ
  | base id _ => id
  | covering id _ _ _ => id

def fs : Mount → FsRef
  | base _ fs => fs
  | covering _ fs _ _ => fs

/-- `parent`, with `covered`: a mount has both or neither. -/
def place : Mount → Option (Mount × Inode)
  | base _ _ => none
  | covering _ _ parent covered => some (parent, covered)

/-- The ID of the parent mount, with the covered directory. -/
def point (m : Mount) : Option (ℕ × Inode) := m.place.map fun e => (e.1.id, e.2)

end Mount

structure ResolvedPath where
  mount : Mount
  inode : Inode
  epoch : ℕ
deriving DecidableEq

structure PathIdentity where
  mount : ℕ
  inode : Inode
deriving DecidableEq

/-- `PathIdentity::of`. -/
def ResolvedPath.identity (p : ResolvedPath) : PathIdentity := ⟨p.mount.id, p.inode⟩

def ResolvedPath.same (p q : ResolvedPath) : Bool := p.identity = q.identity

def Mount.root (m : Mount) (w : World) (epoch : ℕ) : ResolvedPath := ⟨m, w.rootInode m.fs, epoch⟩

structure RootTransition where
  epoch : ℕ
  old : PathIdentity
  new : PathIdentity

structure MountView where
  mounts : SortedAssoc ℕ Mount
  root : Option ℕ
  epoch : ℕ
  transitions : List RootTransition
  /-- Mounts are kept by their IDs. -/
  keyed : ∀ id m, mounts.get? id = some m → m.id = id

namespace MountView

variable (v : MountView) (w : World)

/-- `view.mounts.values()`. -/
def values : List Mount := v.mounts.entries.map Prod.snd

def rootPath : Except FsError ResolvedPath := do
  let id ← okOr v.root .notFound
  let m ← okOr (v.mounts.get? id) .notFound
  .ok (m.root w v.epoch)

/-- The mount that the view has under an ID, or the given one. -/
def current (m : Mount) : Mount := (v.mounts.get? m.id).getD m

def canonical (p : ResolvedPath) : Except FsError ResolvedPath :=
  if (v.current p.mount).fs ≠ p.mount.fs ∨ p.inode.fsId ≠ w.fsId (v.current p.mount).fs then
    .error .crossDev
  else .ok ⟨v.current p.mount, p.inode, v.epoch⟩

/-- Where a saved root is after the pivots that happened since. -/
def transfer (epoch : ℕ) (identity : PathIdentity) : PathIdentity :=
  v.transitions.foldl
    (fun identity t => if t.epoch > epoch ∧ t.old = identity then t.new else identity) identity

def handlePath (handle : Option ResolvedPath) :
    Except FsError ResolvedPath := do
  let original ← okOr handle .permDenied
  let identity := v.transfer original.epoch original.identity
  if identity ≠ original.identity then
    let root ← v.rootPath w
    if identity ≠ root.identity then .error .crossDev else .ok root
  else v.canonical w original

end MountView

/-- `FsContextState` and what else of an `OperationContext` the walk uses: the saved directories,
search permission, and the lookup hook. -/
structure OperationContext where
  root : Option ResolvedPath
  cwd : Option ResolvedPath
  permits : Stat → Bool
  hookFileLookup : Inode → Name → Bool

/-- Search permission on an inode. -/
def OperationContext.searches (c : OperationContext) (w : World) (i : Inode) : Except FsError Unit := do
  let stat ← w.stat i
  ensure (c.permits stat = true) .permDenied

def maxMountsPerNs : ℕ := 4096

def maxAncestors : ℕ := 4096

variable (text : List Char) (w : World) (v : MountView)

/-- The mount of a view that covers a directory: the first in the order of the IDs. -/
def MountView.crossing (p : ResolvedPath) : Option Mount :=
  v.values.find? fun m => m.point = some (p.mount.id, p.inode)

/-- The loop of `cross_down`. -/
def crossDownFor (w : World) (v : MountView) (c : OperationContext) (noXdev : Bool) :
    ℕ → ResolvedPath → Except FsError ResolvedPath
  | 0, _ => .error .symlinkLoop
  | rounds + 1, p =>
    match v.crossing p with
    | none => .ok p
    | some m => do
      ensure (noXdev = false) .crossDev
      c.searches w p.inode
      crossDownFor w v c noXdev rounds (m.root w v.epoch)

def crossDown (c : OperationContext) (noXdev : Bool) (p : ResolvedPath) :
    Except FsError ResolvedPath :=
  crossDownFor w v c noXdev maxMountsPerNs p

/-- The second half of `parent`: one step up within a file system. -/
def parentWithin (visible : Bool) (p : ResolvedPath) :
    Except FsError (Option (ResolvedPath × Name × Bool)) := do
  match ← w.directoryParent p.mount.fs p.inode with
  | none => .ok none
  | some observed =>
    if visible = true ∧ observed.attached = false then .error .notFound
    else .ok (some (⟨p.mount, observed.inode, v.epoch⟩, observed.name, observed.attached))

/-- The first half of `parent` at the root of a mount: the directory that the mount covers. -/
def parentAcross (boundary : ResolvedPath) (visible noXdev : Bool) (p : ResolvedPath) :
    Except FsError (Option (ResolvedPath × Name × Bool)) :=
  match p.mount.place with
  | none => .ok none
  | some (parent, covered) => do
    ensure (noXdev = false) .crossDev
    ensure (¬(visible = true ∧ v.mounts.get? p.mount.id = none)) .notFound
    let below ← v.canonical w ⟨parent, covered, v.epoch⟩
    if below.same boundary then .ok (some (below, [], true))
    else parentWithin w v visible below

def parent (boundary : ResolvedPath) (visible noXdev : Bool) (p : ResolvedPath) :
    Except FsError (Option (ResolvedPath × Name × Bool)) :=
  if p.same boundary then .ok none
  else do
    let p ← v.canonical w p
    if p.inode.ino = w.rootIno p.mount.fs then parentAcross w v boundary visible noXdev p
    else parentWithin w v visible p

/-- The loop of `is_beneath`. -/
def isBeneathFor (w : World) (v : MountView) (root : ResolvedPath) (visible : Bool) :
    ℕ → ResolvedPath → Except FsError Bool
  | 0, _ => .error .nameTooLong
  | rounds + 1, p =>
    if p.same root then .ok true
    else do
      match ← parent w v root visible false p with
      | none => .ok false
      | some (up, _, _) =>
        if up.same p then .error .invalid else isBeneathFor w v root visible rounds up

def isBeneath (root : ResolvedPath) (visible : Bool) (p : ResolvedPath) : Except FsError Bool :=
  isBeneathFor w v root visible maxAncestors p

/-! ## Paths -/

/-- The number of bytes of a text. -/
def textLen : ℕ := (text.map Char.utf8Size).sum

/-- The parts of a text between slashes. -/
def parts : List Name := text.splitOn '/'

/-- The number of bytes of the text with these parts. -/
def partsLen (segments : List Name) : ℕ := (segments.map textLen).sum + (segments.length - 1)

def validatePath : Except FsError Unit := do
  ensure (text ≠ []) .notFound
  ensure (textLen text ≤ 4096) .nameTooLong
  ensure ('\x00' ∉ text) .invalid

/-- `ResolveFlags`; `other` stands for bits outside the defined ones. -/
structure ResolveFlags where
  noXdev : Bool
  noMagiclinks : Bool
  noSymlinks : Bool
  beneath : Bool
  inRoot : Bool
  cached : Bool
  other : Bool

def ResolveFlags.empty : ResolveFlags := ⟨false, false, false, false, false, false, false⟩

inductive FinalLink where
  | follow
  | ret
  | reject
deriving DecidableEq

inductive Resolution where
  | found (path : ResolvedPath)
  | missing (parent : ResolvedPath) (name : Name)
deriving DecidableEq

/-- What a walk does that others could see. -/
inductive WalkEvent where
  | lookup (directory : Inode) (name : Name)
  | follow (link : Inode)

/-- The result of a walk, with what it has done. -/
structure Walk where
  result : Except FsError Resolution
  trace : List WalkEvent

/-- A walk that has done something before. -/
def Walk.after (walk : Walk) (events : List WalkEvent) : Walk := ⟨walk.result, events ++ walk.trace⟩

/-- The arguments of a call of `resolve` that do not change during the walk. -/
structure WalkArgs where
  world : World
  view : MountView
  context : OperationContext
  flags : ResolveFlags
  finalLink : FinalLink
  allowMissing : Bool
  boundary : ResolvedPath

/-- How a component ends: the walk is over, goes on from a path, or goes on with another text. -/
inductive Step where
  | done (result : Except FsError Resolution)
  | advance (next : ResolvedPath)
  | expand (next : ResolvedPath) (pending : List Name)

namespace WalkArgs

variable (a : WalkArgs)

/-- A `..` component. -/
def dotDot (current : ResolvedPath) : Except FsError ResolvedPath :=
  if current.same a.boundary then
    if a.flags.beneath then .error .crossDev else .ok current
  else do
    match ← parent a.world a.view a.boundary false a.flags.noXdev current with
    | some (up, _, _) => .ok up
    | none => if a.flags.beneath then .error .crossDev else .ok current

/-- What remains of the text behind a component. -/
def remainder (later : List Name) : List Name :=
  match later.dropWhile (· = []) with
  | [] => [[]]
  | rest => rest

/-- Where the text of a symlink starts: at the boundary, or where the link was found. -/
def linkStart (current next : ResolvedPath) (target : List Char) : Except FsError ResolvedPath :=
  if target.head? = some '/' then do
    ensure (a.flags.beneath = false) .crossDev
    ensure (¬(a.flags.noXdev = true ∧ next.mount.id ≠ a.boundary.mount.id)) .crossDev
    .ok a.boundary
  else .ok current

/-- A symlink is followed: the directory to go on from, and the new text. -/
def expandLink (current next : ResolvedPath) (later : List Name) :
    Except FsError (ResolvedPath × List Name) := do
  let stat ← a.world.stat next.inode
  ensure (stat.size ≤ 4096) .nameTooLong
  let target ← a.world.readLink next.inode
  validatePath target
  let start ← a.linkStart current next target
  let pending := if later = [] then parts target else parts target ++ remainder later
  ensure (partsLen pending ≤ 4096) .nameTooLong
  .ok (start, pending)

/-- What a name stands for, with the mounts on it; `none` if it is missing and may be. -/
def lookupName (current : ResolvedPath) (name : Name) (mayMiss : Bool) :
    Except FsError (Option ResolvedPath) :=
  match a.world.lookup current.mount.fs current.inode name with
  | .error .notFound => if mayMiss then .ok none else .error .notFound
  | .error e => .error e
  | .ok inode => do
    ensure (inode.fsId = a.world.fsId current.mount.fs) .crossDev
    let next ← crossDown a.world a.view a.context a.flags.noXdev ⟨current.mount, inode, a.view.epoch⟩
    .ok (some next)

/-- What the walk does with the path that a name stands for; `budget` more symlinks may be
followed.  A component is the last one, without a slash behind it, if no part follows. -/
def arrive (budget : ℕ) (current next : ResolvedPath) (later : List Name) : List WalkEvent × Step :=
  if a.world.kind next.inode = .symlink then
    if a.flags.noSymlinks || (a.flags.noMagiclinks && a.world.isProc next.mount.fs) then
      ([], .done (.error .symlinkLoop))
    else if later = [] ∧ a.finalLink = .ret then ([], .done (.ok (.found next)))
    else if later = [] ∧ a.finalLink = .reject then ([], .done (.error .symlinkLoop))
    else if budget = 0 then ([], .done (.error .symlinkLoop))
    else
      match a.expandLink current next later with
      | .error e => ([.follow next.inode], .done (.error e))
      | .ok (start, pending) => ([.follow next.inode], .expand start pending)
  else ([], .advance next)

/-- One round of the walk, at a component that is no empty part. -/
def component (budget : ℕ) (current : ResolvedPath) (name : Name) (later : List Name) :
    List WalkEvent × Step :=
  if a.world.kind current.inode ≠ .dir then ([], .done (.error .notDir))
  else match a.context.searches a.world current.inode with
  | .error e => ([], .done (.error e))
  | .ok () =>
    if textLen name > 255 then ([], .done (.error .nameTooLong))
    else if name = ['.'] then ([], .advance current)
    else if name = ['.', '.'] then
      match a.dotDot current with
      | .error e => ([], .done (.error e))
      | .ok up => ([], .advance up)
    else if a.context.hookFileLookup current.inode name = false then
      ([], .done (.error .permDenied))
    else
      match a.lookupName current name (a.allowMissing && later = []) with
      | .error e => ([.lookup current.inode name], .done (.error e))
      | .ok none => ([.lookup current.inode name], .done (.ok (.missing current name)))
      | .ok (some next) =>
        let (events, step) := a.arrive budget current next later
        (.lookup current.inode name :: events, step)

/-- The loop of `resolve` up to the next symlink that is followed. -/
def walkParts (budget : ℕ) (followed : ResolvedPath → List Name → Walk) :
    List Name → Bool → ResolvedPath → Walk
  | [], slash, current =>
    if slash = true ∧ a.world.kind current.inode ≠ .dir then ⟨.error .notDir, []⟩
    else ⟨.ok (.found current), []⟩
  | part :: later, _, current =>
    if part = [] then walkParts budget followed later true current
    else
      match a.component budget current part later with
      | (events, .done result) => ⟨result, events⟩
      | (events, .advance next) => (walkParts budget followed later false next).after events
      | (events, .expand next pending) => (followed next pending).after events

/-- The loop of `resolve`, with `budget` more symlinks to follow. -/
def walk : ℕ → List Name → ResolvedPath → Walk
  | 0, pending, current =>
    a.walkParts 0 (fun _ _ => ⟨.error .symlinkLoop, []⟩) pending false current
  | budget + 1, pending, current =>
    a.walkParts (budget + 1) (fun next pending => walk budget pending next) pending false current

end WalkArgs

/-- Whether the current directory is inside the root, where `resolve` asks for it. -/
def cwdInside (root cwd : ResolvedPath) (asked : Bool) : Except FsError Bool :=
  if asked then isBeneath w v root false cwd else .ok true

/-- The checks of `resolve`: the boundary, and where the walk starts. -/
def resolveStart (c : OperationContext) (input : List Char) (flags : ResolveFlags) :
    Except FsError (ResolvedPath × ResolvedPath) := do
  validatePath input
  ensure (¬(flags.other = true ∨ (flags.beneath = true ∧ flags.inRoot = true))) .invalid
  ensure (flags.cached = false) .again
  ensure (¬(flags.beneath = true ∧ input.head? = some '/')) .crossDev
  let root ← v.handlePath w c.root
  let cwd ← v.handlePath w c.cwd
  let confined := flags.beneath || flags.inRoot
  let inside ← cwdInside w v root cwd (input.head? ≠ some '/' || confined)
  ensure (inside = true) .permDenied
  let boundary := if confined then cwd else root
  .ok (boundary, if input.head? = some '/' then boundary else cwd)

/-- `resolve`: at most 40 symlinks are followed. -/
def resolve (c : OperationContext) (input : List Char) (flags : ResolveFlags) (finalLink : FinalLink)
    (allowMissing : Bool) : Walk :=
  match resolveStart w v c input flags with
  | .error e => ⟨.error e, []⟩
  | .ok (boundary, initial) =>
    WalkArgs.walk ⟨w, v, c, flags, finalLink, allowMissing, boundary⟩ 40 (parts input) initial

end Nilix.Vfs
