import Nilix.Vfs.RamFsTree

/-!
# The RAM file system keeps a well-formed tree

Every call that returns an error leaves the inodes as they were, and every call that succeeds is one
of the changes of a `NamedTree`: a new node gets a name, a node is removed, or a node moves, after the
node that had its new name was removed.  So the tree of a RAM file system is well formed in every
reachable state, and no assertion of the calls fails.
-/

namespace Nilix.Vfs

open Function NamedTree Option

namespace RamFs

variable {fs : RamFs} {heap : Heap} {i p c parent : Ino} {n : RamFsInode} {name : String}

/-! ## The invariant -/

/-- An attached directory has no retained parent. -/
def RecordOk (n : RamFsInode) : Prop :=
  n.detached = false → ∀ r, n.parent = some r → r.retained = none

/-- Numbers that were not given out have no inode, and only detached directories retain a parent. -/
structure Side (fs : RamFs) : Prop where
  fresh : ∀ i, fs.nextIno ≤ i → fs.inodes i = none
  record : ∀ i n, fs.inodes i = some n → RecordOk n

/-- What holds between calls. -/
structure Inv (fs : RamFs) : Prop where
  tree : fs.tree.WellFormed rootIno
  side : fs.Side

lemma inodes_modify (fs : RamFs) (i : Ino) (f : RamFsInode → RamFsInode) (j : Ino) :
    (fs.modify i f).inodes j = if j = i then (fs.inodes i).map f else fs.inodes j :=
  update_apply _ _ _ _

lemma inodes_publish (fs : RamFs) (i : Ino) (n : RamFsInode) (j : Ino) :
    (fs.publish i n).inodes j = if j = i then some n else fs.inodes j :=
  update_apply _ _ _ _

lemma Side.modify (h : fs.Side) (i : Ino) {f : RamFsInode → RamFsInode}
    (hf : ∀ n, fs.inodes i = some n → RecordOk n → RecordOk (f n)) : (fs.modify i f).Side where
  fresh j hj := by
    have hnone := h.fresh j hj
    rw [inodes_modify]
    split_ifs with hji
    · rw [← hji, hnone, map_none]
    · exact hnone
  record j n hn := by
    rw [inodes_modify] at hn
    split_ifs at hn with hji
    · obtain ⟨m, hm, rfl⟩ := map_eq_some_iff.mp hn
      exact hf m hm (h.record i m hm)
    · exact h.record j n hn

lemma Side.publish (h : fs.Side) (hi : i < fs.nextIno) (hn : RecordOk n) :
    (fs.publish i n).Side where
  fresh j hj := by
    have hji : j ≠ i := (lt_of_lt_of_le hi hj).ne'
    rw [inodes_publish, if_neg hji]
    exact h.fresh j hj
  record j m hm := by
    rw [inodes_publish] at hm
    split_ifs at hm with hji
    · exact some.inj hm ▸ hn
    · exact h.record j m hm

lemma Side.setEntries (h : fs.Side) (i : Ino) (entries : DirectoryMap) :
    (fs.setEntries i entries).Side :=
  h.modify i fun _ _ hn => hn

lemma Side.decNlink (h : fs.Side) (i : Ino) : (fs.modify i .decNlink).Side :=
  h.modify i fun _ _ hn => hn

lemma Side.incNlink (h : fs.Side) (i : Ino) : (fs.modify i .incNlink).Side :=
  h.modify i fun _ _ hn => hn

variable {entries : DirectoryMap}

lemma yields_ensureAttachedDir (n : RamFsInode) :
    Yields n.ensureAttachedDir fun _ => n.isDir = true ∧ n.detached = false :=
  .bind .ensure fun _ hdir => Yields.ensure.mono fun _ hdet => ⟨hdir, hdet⟩

/-- A directory that passes `ensure_attached_dir`, with its entries. -/
lemma of_attached (hp : fs.inodes p = some n) (hattached : n.isDir = true ∧ n.detached = false)
    (hentries : n.dirEntries = some entries) :
    p ∈ fs.tree.dirs ∧ fs.tree.entry p = entries.get := by
  refine ⟨⟨n, hp, hattached⟩, funext fun name => ?_⟩
  rw [entry_eq hp]
  unfold RamFsInode.lookup
  rw [hentries, bind_some]

/-- `retain_detached` of an attached directory. -/
lemma Side.retainDetached (h : fs.Side) (hc : c ∈ fs.tree.dirs) {e : Ino × String}
    (hup : fs.tree.up c = some e) (parent : Ino) :
    ∃ fs' : RamFs, fs.retainDetached parent c = some fs' ∧ fs'.Side ∧ fs'.tree =
      { fs.tree with dirs := fs.tree.dirs \ {c}, gone := insert c fs.tree.gone } := by
  obtain ⟨n, hn, hdir, hdet⟩ := hc
  rw [up_eq hn, RamFsInode.place, map_eq_some_iff] at hup
  obtain ⟨r, hr, -⟩ := hup
  have hretained := h.record c n hn hdet r hr
  refine ⟨_, ?_, ?_, tree_detach hn hdir { r with retained := some parent } ?_⟩
  · unfold RamFs.retainDetached
    rw [hn, bind_eq_bind, bind_some, if_pos hdir, hr, bind_eq_bind, bind_some, if_pos hretained]
  · exact h.modify c fun _ _ _ hfalse => nomatch hfalse
  · rw [RamFsInode.place, hr, map_some]

/-- `retain_detached` of anything else does nothing. -/
lemma retainDetached_leaf (hc : c ∈ fs.tree.leaves) (parent : Ino) :
    fs.retainDetached parent c = some fs := by
  obtain ⟨n, hn, hdir⟩ := hc
  unfold RamFs.retainDetached
  rw [hn, bind_eq_bind, bind_some, if_neg]
  rw [hdir]
  exact Bool.false_ne_true

/-! ## What a call may do -/

/-- The result of a call: the invariant holds, no assertion has failed, an error has changed no inode
and a directory that was detached stays so. -/
structure StepOk (fs : RamFs) (result : Option Fault × RamFs) : Prop where
  inv : result.2.Inv
  noPanic : result.1 ≠ some .panic
  error : result.1 ≠ none → result.2.inodes = fs.inodes
  gone : fs.tree.gone ⊆ result.2.tree.gone

lemma StepOk.fail (h : fs.Inv) (fs' : RamFs) (hsame : fs'.inodes = fs.inodes)
    (hnext : fs.nextIno ≤ fs'.nextIno) (e : FsError) : StepOk fs (some (.error e), fs') := by
  have htree : fs'.tree = fs.tree := by
    unfold RamFs.tree
    rw [hsame]
  refine ⟨⟨?_, fun i hi => ?_, fun i n hn => ?_⟩, nofun, fun _ => hsame, ?_⟩
  · rw [htree]
    exact h.tree
  · rw [hsame]
    exact h.side.fresh i (hnext.trans hi)
  · rw [hsame] at hn
    exact h.side.record i n hn
  · rw [htree]

lemma StepOk.done {fs' : RamFs} {t : NamedTree Ino String} (htree : fs'.tree = t)
    (hwf : t.WellFormed rootIno) (hside : fs'.Side) (hgone : fs.tree.gone ⊆ t.gone) :
    StepOk fs (none, fs') :=
  ⟨⟨htree ▸ hwf, hside⟩, nofun, fun h => absurd rfl h, htree ▸ hgone⟩

/-! ## Creation -/

/-- A backing that is prepared for another entry is big enough. -/
lemma yields_prepareDestination (heap : Heap) (needed : Bool) (entries : DirectoryMap) :
    Yields (prepareDestination heap needed entries) fun backing =>
      needed = true → entries.len + 1 ≤ backing.getD entries.capacity := by
  unfold prepareDestination
  split_ifs with hneeded
  · refine .bind .okOr fun target htarget => ?_
    obtain rfl := eq_of_checkedAdd htarget
    split_ifs with hfull
    · have hcapacity : Yields (preparedDirectoryCapacity heap (entries.len + 1))
          (entries.len + 1 ≤ ·) :=
        ⟨Yields.okOr.noPanic, fun _ => le_preparedDirectoryCapacity⟩
      exact .bind hcapacity fun _ hle => .ok fun _ => hle
    · exact .ok fun _ => Nat.le_of_not_lt hfull
  · exact .ok fun h => absurd h hneeded

/-- What `add_child` has found and prepared. -/
lemma yields_prepareAddChild (fs : RamFs) (heap : Heap) (parent : Ino) (name : String)
    (child : RamFsInode) : Yields (fs.prepareAddChild heap parent name child) fun prepared =>
      parent ∈ fs.tree.dirs ∧ fs.tree.entry parent = prepared.1.get ∧ prepared.1.get name = none ∧
        prepared.1.len + 1 ≤ prepared.2.getD prepared.1.capacity := by
  refine .bind .okOr fun p hp => .bind (yields_ensureAttachedDir p) fun _ hattached => ?_
  refine .bind .ensure fun _ _ => .bind .ensure fun _ _ => .bind .ensure fun _ _ => ?_
  refine .bind .ensure fun _ _ => .bind .okOr fun entries hentries => .bind .ensure fun _ hnew => ?_
  have hprepare := Yields.bind (.ensure (p := heap.key = true) (e := .noSpace)) fun _ _ =>
    yields_prepareDestination heap true entries
  refine .bind hprepare fun backing hroom => .bind .ensure fun _ _ => .ok ?_
  obtain ⟨hdir, hentry⟩ := of_attached hp hattached hentries
  exact ⟨hdir, hentry, FallibleOrderedMap.containsKey_eq_false_iff.mp hnew, hroom rfl⟩

/-- `add_child` fails without a trace, or gives a new name. -/
lemma addChild_cases (fs : RamFs) (heap : Heap) (parent : Ino) (name : String) (ino : Ino)
    (child : RamFsInode) :
    (∃ e, fs.addChild heap parent name ino child = (.error (.error e), fs)) ∨
    ∃ entries : DirectoryMap, parent ∈ fs.tree.dirs ∧ fs.tree.entry parent name = none ∧
      entries.get = update (fs.tree.entry parent) name (some ino) ∧
      fs.addChild heap parent name ino child = (.ok (), (fs.setEntries parent entries).publish ino
        { child with parent := if child.isDir then some ⟨parent, name, none⟩ else none }) := by
  unfold addChild
  rcases (yields_prepareAddChild fs heap parent name child).cases with
    ⟨e, heq⟩ | ⟨⟨entries, backing⟩, heq, hdir, hentry, hnew, hroom⟩ <;> rw [heq]
  · exact .inl ⟨e, rfl⟩
  obtain ⟨inserted, hinsert, hget⟩ := commitDirectoryInsert_eq hnew hroom ino
  refine .inr ⟨inserted, hdir, ?_, ?_, ?_⟩
  · rw [hentry, hnew]
  · rw [hget, hentry]
  · dsimp only
    rw [hinsert]

/-- An inode that `create` or `symlink` makes. -/
def IsNew (child : RamFsInode) : Prop :=
  child = .newDir ∨ (child.isDir = false ∧ child.nlink = 1)

section

variable (hfresh : fs.inodes i = none)
include hfresh

/-- A number that was not given out is no node of the tree. -/
lemma not_mem_of_fresh : i ∉ fs.tree.dirs ∧ i ∉ fs.tree.gone ∧ i ∉ fs.tree.leaves :=
  ⟨not_exists_of_none hfresh _, not_exists_of_none hfresh _, not_exists_of_none hfresh _⟩

variable (hparent : parent ∈ fs.tree.dirs)
include hparent

lemma inodes_setEntries_of_fresh (entries : DirectoryMap) :
    parent ≠ i ∧ (fs.setEntries parent entries).inodes i = none := by
  have hne : parent ≠ i := by
    rintro rfl
    exact (not_mem_of_fresh hfresh).1 hparent
  rw [setEntries, inodes_modify, if_neg hne.symm]
  exact ⟨hne, hfresh⟩

/-- The tree after `add_child` and the link of a new directory to its parent. -/
lemma tree_addChild (hget : entries.get = update (fs.tree.entry parent) name (some i)) :
    (((fs.setEntries parent entries).publish i
      { RamFsInode.newDir with parent := some ⟨parent, name, none⟩ }).modify parent .incNlink).tree =
        fs.tree.attachDir parent name i := by
  obtain ⟨hne, hset⟩ := inodes_setEntries_of_fresh hfresh hparent entries
  have htree := tree_publish_dir hset ⟨parent, name, none⟩
  rw [tree_setEntries hparent, hget] at htree
  have hmem : parent ∈ ((fs.setEntries parent entries).publish i
      { RamFsInode.newDir with parent := some ⟨parent, name, none⟩ }).tree.dirs := by
    rw [htree]
    exact .inr hparent
  rw [tree_incNlink hmem, htree]
  refine NamedTree.ext rfl rfl rfl rfl rfl ?_
  dsimp only [NamedTree.attachDir]
  rw [update_of_ne hne]

lemma tree_addChild_leaf (hget : entries.get = update (fs.tree.entry parent) name (some i))
    (hdir : n.isDir = false) (hlinks : n.nlink = 1) :
    ((fs.setEntries parent entries).publish i { n with parent := none }).tree =
      fs.tree.attachLeaf parent name i := by
  obtain ⟨hne, hset⟩ := inodes_setEntries_of_fresh hfresh hparent entries
  rw [tree_publish_leaf hset hdir hlinks, tree_setEntries hparent, hget]
  rfl

end

lemma of_allocIno {fs' : RamFs} (h : fs.allocIno = some (i, fs')) :
    i = fs.nextIno ∧ fs' = { fs with nextIno := fs.nextIno + 1 } := by
  unfold allocIno checkedAdd at h
  split_ifs at h
  · obtain ⟨hi, hfs⟩ := Prod.mk.inj (some.inj h)
    exact ⟨hi.symm, hfs.symm⟩
  · cases h

lemma publishNew_step (h : fs.Inv) (heap : Heap) (parent : Ino) (name : String)
    {child : RamFsInode} (hchild : IsNew child) :
    StepOk fs (exec.outcome (fs.publishNew heap parent name child)) := by
  have hfresh : fs.inodes fs.nextIno = none := h.side.fresh _ le_rfl
  set fs1 : RamFs := { fs with nextIno := fs.nextIno + 1 }
  have hside : fs1.Side :=
    ⟨fun i hi => h.side.fresh i (Nat.le_of_succ_le hi), h.side.record⟩
  obtain ⟨hdirs, hgone, hleaves⟩ := not_mem_of_fresh hfresh
  unfold publishNew
  rcases halloc : fs.allocIno with _ | ⟨ino, fs'⟩
  · exact .fail h fs rfl le_rfl .noSpace
  obtain ⟨rfl, rfl⟩ := of_allocIno halloc
  dsimp only
  by_cases hheap : heap.inode = true
  swap
  · rw [if_neg hheap]
    exact .fail h fs1 rfl (Nat.le_succ _) .noSpace
  rw [if_pos hheap]
  rcases addChild_cases fs1 heap parent name fs.nextIno child with
    ⟨e, heq⟩ | ⟨entries, hparent, hnone, hget, heq⟩
  · rw [heq]
    exact .fail h fs1 rfl (Nat.le_succ _) e
  rw [heq]
  rcases hchild with rfl | ⟨hleaf, hlinks⟩
  · refine .done (tree_addChild hfresh hparent hget)
      (h.tree.attachDir hparent hnone hdirs hgone hleaves) ?_ subset_rfl
    refine ((hside.setEntries parent entries).publish (lt_add_one _) ?_).incNlink parent
    intro _ r hr
    cases hr
    rfl
  dsimp only
  rw [hleaf, if_neg Bool.false_ne_true, if_neg Bool.false_ne_true]
  refine .done (tree_addChild_leaf hfresh hparent hget hleaf hlinks)
    (h.tree.attachLeaf hparent hnone hdirs hgone hleaves) ?_ subset_rfl
  exact (hside.setEntries parent entries).publish (lt_add_one _) fun _ r hr => nomatch hr

lemma yields_checkParent (fs : RamFs) (heap : Heap) (parent : Ino) :
    Yields (fs.checkParent heap parent) fun _ => True :=
  .bind .ensure fun _ _ => .bind .okOr fun _ _ => Yields.ensure.mono fun _ _ => trivial

lemma create_step (h : fs.Inv) (heap : Heap) (parent : Ino) (name : String) (isDir : Bool) :
    StepOk fs (exec.outcome (fs.create heap parent name isDir)) := by
  unfold create
  rcases (yields_checkParent fs heap parent).cases with ⟨e, heq⟩ | ⟨⟨⟩, heq, -⟩ <;> rw [heq]
  · exact .fail h fs rfl le_rfl e
  refine publishNew_step h heap parent name ?_
  cases isDir with
  | false => exact .inr ⟨rfl, rfl⟩
  | true => exact .inl rfl

lemma symlink_step (h : fs.Inv) (heap : Heap) (parent : Ino) (name target : String) :
    StepOk fs (exec.outcome (fs.symlink heap parent name target)) := by
  unfold symlink
  have hcheck : Yields (fs.checkParent heap parent >>= fun _ => checkTarget target) fun _ => _ :=
    .bind (yields_checkParent fs heap parent) fun _ _ => .bind .ensure fun _ _ => .ensure
  rcases hcheck.cases with ⟨e, heq⟩ | ⟨⟨⟩, heq, -⟩ <;> rw [heq]
  · exact .fail h fs rfl le_rfl e
  · exact publishNew_step h heap parent name (.inr ⟨rfl, rfl⟩)

/-! ## Removal -/

variable {plan : UnlinkPlan} (h : fs.Inv)
include h

/-- An entry of an attached directory leads to an inode. -/
lemma Inv.yields_target (he : fs.tree.entry p name = some c) :
    Yields (fs.target c) (fs.inodes c = some ·) := by
  obtain ⟨m, hm⟩ : ∃ m, fs.inodes c = some m := by
    rcases h.tree.target p name c he with ⟨n, hn, -⟩ | ⟨n, hn, -⟩
    · exact ⟨n, hn⟩
    · exact ⟨n, hn⟩
  unfold target
  rw [hm]
  exact .ok rfl

/-- What `unlink` has found. -/
lemma yields_prepareUnlink (heap : Heap) (parent : Ino) (name : String) (expectedIno : Ino)
    (mustBeDir : Option Bool) :
    Yields (fs.prepareUnlink heap parent name expectedIno mustBeDir) fun plan =>
      parent ∈ fs.tree.dirs ∧ fs.tree.entry parent = plan.entries.get ∧
        plan.entries.get name = some plan.current ∧
        plan.compact = prepareDirectoryCompaction heap (plan.entries.len - 1) ∧
        ∃ node, fs.inodes plan.current = some node ∧ plan.isDir = node.isDir ∧
          node.childCount = 0 := by
  refine .bind .ensure fun _ _ => .bind .okOr fun p hp => .bind .ensure fun _ _ => ?_
  refine .bind .ensure fun _ _ => .bind (yields_ensureAttachedDir p) fun _ hattached => ?_
  refine .bind .okOr fun entries hentries => .bind .okOr fun current hcurrent => ?_
  obtain ⟨hdir, hentry⟩ := of_attached hp hattached hentries
  refine .bind (h.yields_target (hentry ▸ hcurrent)) fun node hnode => .bind .ensure fun _ _ => ?_
  refine .bind .ensure fun _ _ => .bind .ensure fun _ _ => .bind .ensure fun _ hempty => ?_
  exact .bind .ensure fun _ _ => .ok ⟨hdir, hentry, hcurrent, rfl, node, hnode, rfl, hempty⟩

/-- The removal of a directory that is named in `parent`. -/
lemma commitUnlink_dir
    (hremove : commitDirectoryRemove plan.entries name plan.compact = some (c, entries))
    (hget : entries.get = update (fs.tree.entry parent) name none)
    (he : fs.tree.entry parent name = some c) (hc : c ∈ fs.tree.dirs) (hdir : plan.isDir = true) :
    ∃ fs' : RamFs, fs.commitUnlink parent name plan = some fs' ∧ fs'.Side ∧
      fs'.tree = fs.tree.removeDir parent name c := by
  have hparent := h.tree.source parent name c he
  have hne : c ≠ parent := by
    rintro rfl
    exact h.tree.not_climbs he hc (.refl c)
  have htree : (((fs.setEntries parent entries).modify parent .decNlink).modify c .decNlink).tree =
      { fs.tree with
        entry := setEntry fs.tree.entry parent name none
        links := update (update fs.tree.links parent (fs.tree.links parent - 1)) c
          (fs.tree.links c - 1) } := by
    rw [tree_decNlink, tree_decNlink, tree_setEntries hparent, hget]
    refine NamedTree.ext rfl rfl rfl rfl rfl ?_
    dsimp only
    rw [update_of_ne hne]
  have hside := ((h.side.setEntries parent entries).decNlink parent).decNlink c
  obtain ⟨fs', hretain, hside', htree'⟩ := hside.retainDetached (by rw [htree]; exact hc)
    (by rw [htree]; exact h.tree.recorded parent name c he hc) parent
  refine ⟨fs', ?_, hside', ?_⟩
  · unfold commitUnlink
    rw [hremove, bind_eq_bind, bind_some]
    dsimp only
    rw [hdir, if_pos rfl, hretain]
  rw [htree', htree]
  rfl

lemma commitUnlink_leaf
    (hremove : commitDirectoryRemove plan.entries name plan.compact = some (c, entries))
    (hget : entries.get = update (fs.tree.entry parent) name none)
    (he : fs.tree.entry parent name = some c) (hc : c ∈ fs.tree.leaves) (hdir : plan.isDir = false) :
    ∃ fs' : RamFs, fs.commitUnlink parent name plan = some fs' ∧ fs'.Side ∧
      fs'.tree = fs.tree.removeLeaf parent name c := by
  have hparent := h.tree.source parent name c he
  have htree : ((fs.setEntries parent entries).modify c .decNlink).tree =
      fs.tree.removeLeaf parent name c := by
    rw [tree_decNlink, tree_setEntries hparent, hget]
    rfl
  refine ⟨_, ?_, (h.side.setEntries parent entries).decNlink c, htree⟩
  unfold commitUnlink
  rw [hremove, bind_eq_bind, bind_some]
  dsimp only
  rw [hdir, if_neg Bool.false_ne_true]
  exact retainDetached_leaf (by rw [htree]; exact hc) parent

lemma unlink_step (heap : Heap) (parent : Ino) (name : String) (expectedIno : Ino)
    (mustBeDir : Option Bool) :
    StepOk fs (exec.outcome (fs.unlink heap parent name expectedIno mustBeDir)) := by
  unfold unlink
  rcases (yields_prepareUnlink h heap parent name expectedIno mustBeDir).cases with
    ⟨e, heq⟩ | ⟨plan, heq, hparent, hentry, hcurrent, hcompact, node, hnode, hisDir, hcount⟩ <;> rw [heq]
  · exact .fail h fs rfl le_rfl e
  obtain ⟨entries, hremove, hget, -⟩ := commitDirectoryRemove_eq hcurrent
    (hcompact ▸ le_prepareDirectoryCompaction heap plan.entries)
  rw [← hentry] at hcurrent hget
  dsimp only
  rcases mem_of_target hnode (h.tree.target parent name _ hcurrent) with ⟨hdir, hc⟩ | ⟨hdir, hc⟩
  · obtain ⟨fs', hcommit, hside, htree⟩ :=
      commitUnlink_dir h hremove hget hcurrent hc (hisDir.trans hdir)
    have hempty : ∀ l, fs.tree.entry plan.current l = none := fun l =>
      (entry_eq hnode l).trans (RamFsInode.lookup_of_childCount hcount l)
    rw [hcommit]
    exact .done htree (h.tree.removeDir hcurrent hc hempty) hside (Set.subset_insert _ _)
  obtain ⟨fs', hcommit, hside, htree⟩ :=
    commitUnlink_leaf h hremove hget hcurrent hc (hisDir.trans hdir)
  rw [hcommit]
  exact .done htree (h.tree.removeLeaf hcurrent hc) hside subset_rfl

end RamFs

end Nilix.Vfs
