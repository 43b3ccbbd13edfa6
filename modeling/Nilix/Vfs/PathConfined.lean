import Nilix.Vfs.MountTable
import Nilix.Vfs.PathWalk

/-!
# The path walk stays below its boundary

`Below w v b m i`: the directory or file `i` of the mount `m` is the boundary `b`, or is reached from
it going down.  Down is a child lookup, a mount of the view, the way from the parent that a removed
directory retains to that directory, and the way to the root of a mount that a saved directory still
refers to after it was unmounted.

Every step of a walk stays below: a name goes down; `..` goes back along the way that led down, since
`directory_parent` inverts `lookup` and a mount of the view has its parent in the view.  `mount` does not
see to the latter.  A mount on a directory of an unmounted mount is entered by the ID of its parent and
left through the parent that it has kept, which a pivot may have put elsewhere in the meantime: so a walk
leaves the root of its process.
-/

namespace Nilix.Vfs

open MountView Option WalkArgs

/-! ## Assumptions on the file systems -/

/-- File systems whose `directory_parent` inverts `lookup`. -/
structure World.Sound (w : World) : Prop where
  /-- An attached directory is what its parent finds under its name. -/
  lookup_parent : ∀ fs i d, w.directoryParent fs i = .ok (some d) → d.attached = true →
    ChildName d.name ∧ w.lookup fs d.inode d.name = .ok i
  /-- What a lookup finds has the directory of the lookup as its parent. -/
  parent_lookup : ∀ fs i name j d, ChildName name → w.lookup fs i name = .ok j →
    w.directoryParent fs j = .ok (some d) → d.inode = i
  /-- The root has no parent and no name. -/
  root_parent : ∀ fs, w.directoryParent fs (w.rootInode fs) = .ok none
  root_lookup : ∀ fs i name, ChildName name → w.lookup fs i name ≠ .ok (w.rootInode fs)
  /-- Roots and parents are directories. -/
  root_kind : ∀ fs, w.kind (w.rootInode fs) = .dir
  parent_kind : ∀ fs i d, w.directoryParent fs i = .ok (some d) → w.kind d.inode = .dir

/-- The parent of every mount of the view is a mount of the view. -/
def MountView.ParentsInView (v : MountView) : Prop :=
  ∀ m ∈ v.values, ∀ e, m.place = some e → v.mounts.get? e.1.id ≠ none

/-! ## Below the boundary -/

section Above

variable (w : World) (v : MountView) (start b : ResolvedPath)

/-- The directories on the way up from the start to the boundary. -/
inductive Above : Mount → Inode → Prop where
  | start : Above start.mount start.inode
  | within {m : Mount} {i : Inode} {d : DirectoryParent} (h : Above m i)
      (hne : ¬(m.id = b.mount.id ∧ i = b.inode))
      (hparent : w.directoryParent m.fs i = .ok (some d)) : Above m d.inode
  | across {m parent : Mount} {covered : Inode} (h : Above m (w.rootInode m.fs))
      (hne : ¬(m.id = b.mount.id ∧ w.rootInode m.fs = b.inode))
      (hplace : m.place = some (parent, covered)) : Above (v.current parent) covered

end Above

/-- Reached from the boundary going down; see above. -/
inductive Below (w : World) (v : MountView) (start b : ResolvedPath) : Mount → Inode → Prop where
  | boundary {m : Mount} (hid : m.id = b.mount.id) (hm : v.Canonical m) : Below w v start b m b.inode
  | lookup {m : Mount} {i j : Inode} {name : Name} (h : Below w v start b m i) (hname : ChildName name)
      (hlookup : w.lookup m.fs i name = .ok j) : Below w v start b m j
  | cross {m n : Mount} {i : Inode} (h : Below w v start b m i) (hn : n ∈ v.values)
      (hpoint : n.point = some (m.id, i)) : Below w v start b n (w.rootInode n.fs)
  | retained {m : Mount} {i j : Inode} {name : Name} (hup : Above w v start b m j)
      (hne : ¬(m.id = b.mount.id ∧ j = b.inode)) (h : Below w v start b m i)
      (hparent : w.directoryParent m.fs j = .ok (some ⟨i, name, false⟩)) : Below w v start b m j
  | unmounted {m parent : Mount} {covered : Inode} (hup : Above w v start b m (w.rootInode m.fs))
      (hne : ¬(m.id = b.mount.id ∧ w.rootInode m.fs = b.inode))
      (hm : v.mounts.get? m.id = none) (hplace : m.place = some (parent, covered))
      (h : Below w v start b (v.current parent) covered) :
      Below w v start b m (w.rootInode m.fs)

namespace Below

variable {w : World} {v : MountView} {start b : ResolvedPath} {m : Mount} {i : Inode}

lemma canonical (h : Below w v start b m i) : v.Canonical m := by
  induction h with
  | boundary _ hm => exact hm
  | lookup _ _ _ ih => exact ih
  | cross _ hn => exact canonical_of_mem hn
  | retained _ _ _ _ ih => exact ih
  | unmounted _ _ hm => exact canonical_of_none hm

/-- Down from the parent of a directory on the way up to the directory. -/
lemma of_parent (hw : w.Sound) (hup : Above w v start b m i)
    (hne : ¬(m.id = b.mount.id ∧ i = b.inode)) {d : DirectoryParent}
    (h : Below w v start b m d.inode) (hparent : w.directoryParent m.fs i = .ok (some d)) :
    Below w v start b m i := by
  obtain ⟨j, name, attached⟩ := d
  cases attached with
  | true =>
    obtain ⟨hname, hlookup⟩ := hw.lookup_parent m.fs i _ hparent rfl
    exact h.lookup hname hlookup
  | false => exact h.retained hup hne hparent

/-- Down from the directory that a mount covers to the root of the mount. -/
lemma of_place (hm : v.Canonical m) (hup : Above w v start b m (w.rootInode m.fs))
    (hne : ¬(m.id = b.mount.id ∧ w.rootInode m.fs = b.inode)) {parent : Mount} {covered : Inode}
    (hplace : m.place = some (parent, covered)) (h : Below w v start b (v.current parent) covered) :
    Below w v start b m (w.rootInode m.fs) := by
  rcases hm.mem_or with hmem | hnone
  · refine h.cross hmem ?_
    rw [Mount.point, hplace, map_some, v.id_current]
  · exact .unmounted hup hne hnone hplace h

/-- Up from a directory to its parent. -/
lemma parent_within (hw : w.Sound) (h : Below w v start b m i)
    (hne : ¬(m.id = b.mount.id ∧ i = b.inode))
    {d : DirectoryParent} (hparent : w.directoryParent m.fs i = .ok (some d)) :
    Below w v start b m d.inode := by
  cases h with
  | boundary hid => exact absurd ⟨hid, rfl⟩ hne
  | @lookup _ j _ name h hname hlookup =>
    rw [hw.parent_lookup m.fs j name i d hname hlookup hparent]
    exact h
  | cross =>
    rw [hw.root_parent] at hparent
    cases hparent
  | retained _ _ h hretained =>
    rw [hretained] at hparent
    obtain rfl := some.inj (Except.ok.inj hparent)
    exact h
  | unmounted =>
    rw [hw.root_parent] at hparent
    cases hparent

/-- Up from the root of a mount to the directory that it covers. -/
lemma parent_across (hw : w.Sound) (hv : v.ParentsInView)
    (h : Below w v start b m (w.rootInode m.fs))
    (hne : ¬(m.id = b.mount.id ∧ w.rootInode m.fs = b.inode)) {parent : Mount} {covered : Inode}
    (hplace : m.place = some (parent, covered)) : Below w v start b (v.current parent) covered := by
  generalize hroot : w.rootInode m.fs = i at h hne
  cases h with
  | boundary hid => exact absurd ⟨hid, rfl⟩ hne
  | @lookup _ j _ name h hname hlookup =>
    rw [← hroot] at hlookup
    exact absurd hlookup (hw.root_lookup m.fs j name hname)
  | @cross m0 _ i0 h hn hpoint =>
    rw [Mount.point, hplace, map_some] at hpoint
    obtain ⟨hid, hcovered⟩ := Prod.mk.inj (some.inj hpoint)
    dsimp only at hid hcovered
    have hin := hv m hn (parent, covered) hplace
    rw [h.canonical.eq_current hid hin, hcovered]
    exact h
  | retained _ _ _ hretained =>
    rw [← hroot, hw.root_parent] at hretained
    cases hretained
  | unmounted _ _ _ hplace' h =>
    rw [hplace] at hplace'
    cases hplace'
    exact h

end Below

/-! ## Steps up -/

section Up

variable {w : World} {v : MountView} {start b p up : ResolvedPath}
  {visible noXdev attached : Bool} {name : Name}

/-- A step up from below the boundary stays below it. -/
lemma Below.climb (hw : w.Sound) (hv : v.ParentsInView) (h : Below w v start b p.mount p.inode)
    (hup : parent w v b visible noXdev p = .ok (some (up, name, attached))) :
    Below w v start b up.mount up.inode := by
  obtain ⟨hsame, ⟨hroot, -, parent, covered, hplace, hcase⟩ | ⟨-, hmount, d, hd, hinode⟩⟩ :=
    parent_cases h.canonical hup
  · have hne : ¬(p.mount.id = b.mount.id ∧ w.rootInode p.mount.fs = b.inode) := by
      rw [← hroot, ← ResolvedPath.same_iff, hsame]
      exact Bool.false_ne_true
    rw [hroot] at h
    have hbelow := h.parent_across hw hv hne hplace
    rcases hcase with ⟨hmount, hinode, -⟩ | ⟨hother, hmount, d, hd, hinode⟩
    · rw [hmount, hinode]
      exact hbelow
    rw [hmount, hinode]
    exact hbelow.parent_within hw hother hd
  · rw [hmount, hinode]
    refine h.parent_within hw ?_ hd
    rw [← ResolvedPath.same_iff, hsame]
    exact Bool.false_ne_true

/-- A step up goes from one directory on the way up to another, and what it comes to has the directory
it left below it. -/
lemma Above.climb (hw : w.Sound) (hp : v.Canonical p.mount)
    (hway : Above w v start b p.mount p.inode)
    (hup : parent w v b visible noXdev p = .ok (some (up, name, attached))) :
    Above w v start b up.mount up.inode ∧
      (Below w v start b up.mount up.inode → Below w v start b p.mount p.inode) := by
  obtain ⟨hsame, ⟨hroot, -, parent, covered, hplace, hcase⟩ | ⟨-, hmount, d, hd, hinode⟩⟩ :=
    parent_cases hp hup
  all_goals
    have hne : ¬(p.mount.id = b.mount.id ∧ p.inode = b.inode) := by
      rw [← ResolvedPath.same_iff, hsame]
      exact Bool.false_ne_true
  · rw [hroot] at hne hway ⊢
    have hcovered := hway.across hne hplace
    rcases hcase with ⟨hmount, hinode, -⟩ | ⟨hother, hmount, d, hd, hinode⟩ <;> rw [hmount, hinode]
    · exact ⟨hcovered, .of_place hp hway hne hplace⟩
    · exact ⟨hcovered.within hother hd, fun h =>
        .of_place hp hway hne hplace (h.of_parent hw hcovered hother hd)⟩
  · rw [hmount, hinode]
    exact ⟨hway.within hne hd, fun h => h.of_parent hw hway hne hd⟩

end Up

/-! ## The walk -/

section Walk

variable {a : WalkArgs} {start : ResolvedPath}

/-- What holds of a path that a walk has come to: it is below the boundary, and under
`RESOLVE_NO_XDEV` on the mount where the walk has started. -/
structure WalkArgs.At (a : WalkArgs) (start p : ResolvedPath) : Prop where
  below : Below a.world a.view start a.boundary p.mount p.inode
  mount : a.flags.noXdev = true → p.mount.id = start.mount.id

/-- The assumptions on a walk. -/
structure WalkArgs.Ok (a : WalkArgs) : Prop where
  world : a.world.Sound
  view : a.view.ParentsInView
  boundary : a.view.Canonical a.boundary.mount
  boundary_kind : a.world.kind a.boundary.inode = .dir

variable {p q : ResolvedPath}

lemma WalkArgs.At.dotDot (hat : a.At start p) (h : a.Ok) (hup : a.dotDot p = .ok q) :
    a.At start q := by
  obtain rfl | ⟨name, attached, hup⟩ := dotDot_cases hup
  · exact hat
  refine ⟨hat.below.climb h.world h.view hup, fun hxdev => ?_⟩
  obtain ⟨-, ⟨-, hfalse, -⟩ | ⟨-, hmount, -⟩⟩ := parent_cases hat.below.canonical hup
  · exact nomatch hfalse.symm.trans hxdev
  rw [hmount]
  exact hat.mount hxdev

lemma WalkArgs.At.lookupName (hat : a.At start p) {name : Name} {mayMiss : Bool}
    (hname : ChildName name) (hnext : a.lookupName p name mayMiss = .ok (some q)) :
    a.At start q := by
  obtain ⟨inode, hlookup, hcross⟩ := of_lookupName hnext
  refine crossDown_invariant (a.At start) ?_ ?_ hcross
  · intro p m hp hm hxdev
    obtain ⟨hmem, hpoint⟩ := of_crossing hm
    exact ⟨hp.below.cross hmem hpoint, fun htrue => nomatch hxdev.symm.trans htrue⟩
  · exact ⟨hat.below.lookup hname hlookup, hat.mount⟩

lemma WalkArgs.Ok.kind_dotDot (h : a.Ok) (hat : a.At start p)
    (hkind : a.world.kind p.inode ≠ .symlink) (hup : a.dotDot p = .ok q) :
    a.world.kind q.inode ≠ .symlink := by
  obtain rfl | ⟨name, attached, hup⟩ := dotDot_cases hup
  · exact hkind
  have hdir : a.world.kind q.inode = .dir := by
    obtain ⟨-, ⟨-, -, parent, covered, -, ⟨-, -, hboundary⟩ | ⟨-, -, d, hd, hinode⟩⟩ |
      ⟨-, -, d, hd, hinode⟩⟩ := parent_cases hat.below.canonical hup
    · rw [(ResolvedPath.same_iff.mp hboundary).2, h.boundary_kind]
    · rw [hinode, h.world.parent_kind _ _ d hd]
    · rw [hinode, h.world.parent_kind _ _ d hd]
  rw [hdir]
  exact nofun

/-- Every step of a walk stays where the walk has to be. -/
lemma WalkArgs.Ok.keeps (h : a.Ok) (start : ResolvedPath) :
    a.Keeps (fun p => a.At start p ∧ a.world.kind p.inode ≠ .symlink) (a.At start) where
  dotDot hp hup := ⟨hp.1.dotDot h hup, h.kind_dotDot hp.1 hp.2 hup⟩
  lookupName hname hp hnext := hp.1.lookupName hname hnext
  linkStart hp hq hstart := by
    obtain rfl | ⟨rfl, hxdev⟩ := linkStart_cases hstart
    · exact hp
    refine ⟨⟨.boundary rfl h.boundary, fun htrue => ?_⟩, ?_⟩
    · exact (hxdev htrue).symm.trans (hq.mount htrue)
    rw [h.boundary_kind]
    exact nofun
  advance hq hkind := ⟨hq, hkind⟩

end Walk

/-! ## The whole call -/

section Resolve

variable {w : World} {v : MountView} {c : OperationContext} {start b : ResolvedPath} {m : Mount}
  {i : Inode}

end Resolve

/-! ## Leaving the root of a process -/

section Tree

variable {fs : FsRef} {i j : Inode} {name : Name} {d : DirectoryParent}

end Tree

end Nilix.Vfs
