import Nilix.Vfs.RamFsContract

/-!
# Renaming in the RAM file system

`rename` between attached directories: the search of the subtree of a directory that moves, what is
prepared before the first change, and the tree after the change.
-/

namespace Nilix.Vfs

open Function NamedTree List Option

namespace RamFs

variable {fs : RamFs} {heap : Heap} {p q c : Ino} {k l : String}

/-! ## The search -/

lemma mem_children (he : fs.tree.entry p k = some c) : c ∈ fs.children p := by
  obtain ⟨n, hn, hlookup⟩ := bind_eq_some_iff.mp he
  obtain ⟨entries, hentries, hget⟩ := bind_eq_some_iff.mp hlookup
  unfold children
  rw [hn, bind_some, hentries]
  exact mem_map.mpr ⟨(k, c), SortedAssoc.mem_entries.mpr hget, rfl⟩

lemma isDirectory_of_entry (he : fs.tree.entry p k = some c) : fs.isDirectory p = true := by
  obtain ⟨n, hn, hlookup⟩ := bind_eq_some_iff.mp he
  obtain ⟨entries, hentries, -⟩ := bind_eq_some_iff.mp hlookup
  unfold isDirectory
  rw [hn]
  exact RamFsInode.isDir_iff.mpr ⟨entries, hentries⟩

/-- A search that ends without a find has seen everything below the stack. -/
lemma searchSubtree_false {targetIno : Ino} {rounds : ℕ} {stack : List Ino}
    (h : fs.searchSubtree targetIno rounds stack = .ok false) {a d : Ino} (ha : a ∈ stack)
    (he : fs.tree.entry a k = some c) (hreach : Reaches fs.tree.entry c d) : d ≠ targetIno := by
  induction rounds generalizing stack a k c with
  | zero =>
    cases stack with
    | nil => cases ha
    | cons => cases h
  | succ rounds ih =>
    cases stack with
    | nil => cases ha
    | cons =>
      unfold searchSubtree at h
      split_ifs at h with hfound
      · cases h
      rcases mem_cons.mp ha with rfl | hrest
      · have hchild := mem_children he
        rcases Relation.ReflTransGen.cases_head hreach with rfl | ⟨x, ⟨m, hm⟩, hx⟩
        · rintro rfl
          exact hfound hchild
        -- the child has an entry, so it was pushed
        refine ih h (mem_append_left _ (mem_reverse.mpr ?_)) hm hx
        exact mem_filter.mpr ⟨hchild, isDirectory_of_entry hm⟩
      · exact ih h (mem_append_right _ hrest) he hreach

lemma dirSubtreeContainsIno_false (h : fs.dirSubtreeContainsIno heap c q = .ok false) :
    ¬Reaches fs.tree.entry c q := by
  unfold dirSubtreeContainsIno at h
  split_ifs at h with heq
  · cases h
  intro hreach
  rcases Relation.ReflTransGen.cases_head hreach with rfl | ⟨x, ⟨m, hm⟩, hx⟩
  · exact heq rfl
  · exact searchSubtree_false h (mem_singleton_self c) hm hx rfl

lemma noPanic_searchSubtree (fs : RamFs) (targetIno : Ino) (rounds : ℕ) (stack : List Ino) :
    NoPanic (fs.searchSubtree targetIno rounds stack) := by
  induction rounds generalizing stack with
  | zero => cases stack <;> exact nofun
  | succ rounds ih =>
    cases stack with
    | nil => exact nofun
    | cons =>
      unfold searchSubtree
      split_ifs
      · exact nofun
      · exact ih _

lemma yields_movesBelowItself (fs : RamFs) (heap : Heap) (view : RenameView) (p q : Ino) :
    Yields (fs.movesBelowItself heap view p q) fun inside => inside = false →
      view.node.isDir = true → p ≠ q → ¬Reaches fs.tree.entry view.inode q := by
  unfold movesBelowItself
  split_ifs with hcross
  · refine ⟨?_, fun inside hinside hfalse _ _ => dirSubtreeContainsIno_false (hfalse ▸ hinside)⟩
    unfold dirSubtreeContainsIno
    split_ifs
    · exact nofun
    · exact noPanic_searchSubtree fs q heap.search [view.inode]
  · exact .ok fun _ hisDir hpq => absurd ⟨hisDir, hpq⟩ hcross

/-! ## What is prepared -/

/-- The destination of a rename: free, or an inode of the same kind without children. -/
inductive DestOk (fs : RamFs) (newParent : Ino) (newName : String) (plan : RenamePlan) : Prop where
  | move (hmove : plan.isMove = true) (hdest : plan.dest = none)
      (hfree : plan.newEntries.get newName = none)
  | replace {victim : Ino} {node : RamFsInode} (hmove : plan.isMove = false)
      (hdest : plan.dest = some (victim, node)) (hget : plan.newEntries.get newName = some victim)
      (hnode : fs.inodes victim = some node) (hne : plan.inode ≠ victim)
      (hparent : victim ≠ newParent) (hkind : node.isDir = plan.inodeIsDir)
      (hempty : node.childCount = 0)

/-- What `rename` knows when it starts to change entries. -/
structure Ready (fs : RamFs) (oldParent : Ino) (oldName : String) (newParent : Ino)
    (newName : String) (plan : RenamePlan) : Prop where
  old_mem : oldParent ∈ fs.tree.dirs
  old_entry : fs.tree.entry oldParent = plan.oldEntries.get
  new_mem : newParent ∈ fs.tree.dirs
  new_entry : fs.tree.entry newParent = plan.newEntries.get
  inode : plan.oldEntries.get oldName = some plan.inode
  kind : ∃ node, fs.inodes plan.inode = some node ∧ plan.inodeIsDir = node.isDir
  dest : fs.DestOk newParent newName plan
  below : plan.inodeIsDir = true → oldParent ≠ newParent →
    ¬Reaches fs.tree.entry plan.inode newParent
  backing : plan.isMove = true → oldParent ≠ newParent →
    plan.newEntries.len + 1 ≤ plan.newBacking.getD plan.newEntries.capacity
  compact : plan.oldEntries.len - 1 ≤ plan.oldCompact.getD plan.oldEntries.capacity
  kept : oldParent = newParent → plan.isMove = true → plan.oldCompact = none

/-- The cases of `rename_decide`. -/
lemma yields_renameDecide (c : Ino) (inodeIsDir : Bool) (dest : Option (Ino × RamFsInode))
    (noreplace : Bool) (p q : Ino) :
    Yields (renameDecide c inodeIsDir dest noreplace p q) fun decision =>
      (decision = .move ∧ dest = none) ∨
      (decision = .noOp ∧ ∃ node, dest = some (c, node)) ∨
      (decision = .replace ∧ ∃ victim node, dest = some (victim, node) ∧ c ≠ victim ∧ victim ≠ q ∧
        node.isDir = inodeIsDir ∧ node.childCount = 0) := by
  unfold renameDecide
  rcases dest with _ | ⟨victim, node⟩
  · exact .ok (.inl ⟨rfl, rfl⟩)
  dsimp only
  split_ifs with hno hself hparents hdir hkind hcount hkind <;> try exact .error _
  · exact .ok (.inr (.inl ⟨rfl, node, hself ▸ rfl⟩))
  · refine .ok (.inr (.inr ⟨rfl, victim, node, rfl, hself, ?_, ?_, not_not.mp hcount⟩))
    · exact fun heq => hparents (.inr heq)
    · rw [hdir, Bool.not_eq_false] at *
      exact hkind.symm
  · refine .ok (.inr (.inr ⟨rfl, victim, node, rfl, hself, ?_, ?_, ?_⟩))
    · exact fun heq => hparents (.inr heq)
    · rw [Bool.not_eq_true] at hdir hkind
      rw [hdir, hkind]
    · unfold RamFsInode.childCount
      rcases hentries : node.dirEntries with _ | entries
      · rfl
      · exact absurd (RamFsInode.isDir_iff.mpr ⟨entries, hentries⟩) hdir

lemma Inv.yields_renameDest (h : fs.Inv) {newEntries : DirectoryMap}
    (hentries : fs.tree.entry q = newEntries.get) (l : String) :
    Yields (fs.renameDest newEntries l) fun dest => newEntries.get l = dest.map Prod.fst ∧
      ∀ victim node, dest = some (victim, node) → fs.inodes victim = some node := by
  unfold renameDest
  rcases hget : newEntries.get l with _ | victim
  · exact .ok ⟨rfl, nofun⟩
  refine .bind (h.yields_target (hentries ▸ hget)) fun node hnode => .ok ⟨rfl, fun _ _ heq => ?_⟩
  cases heq
  exact hnode

/-- What the first part of `rename` has found. -/
structure ViewOk (fs : RamFs) (oldParent : Ino) (oldName : String) (newParent : Ino)
    (newName : String) (view : RenameView) : Prop where
  old_mem : oldParent ∈ fs.tree.dirs
  old_entry : fs.tree.entry oldParent = view.oldEntries.get
  new_mem : newParent ∈ fs.tree.dirs
  new_entry : fs.tree.entry newParent = view.newEntries.get
  inode : view.oldEntries.get oldName = some view.inode
  node : fs.inodes view.inode = some view.node
  dest : view.newEntries.get newName = view.dest.map Prod.fst
  victim : ∀ victim node, view.dest = some (victim, node) → fs.inodes victim = some node

lemma yields_lookupRename (h : fs.Inv) (heap : Heap) (p : Ino) (k : String) (q : Ino) (l : String)
    (expectedSrcIno : Ino) (expectedDestIno : Option Ino) :
    Yields (fs.lookupRename heap p k q l expectedSrcIno expectedDestIno) (fs.ViewOk p k q l) := by
  refine .bind .ensure fun _ _ => .bind .okOr fun old hold => .bind .okOr fun new hnew => ?_
  refine .bind .ensure fun _ _ => .bind .ensure fun _ _ => ?_
  refine .bind (yields_ensureAttachedDir old) fun _ hattached => ?_
  refine .bind (yields_ensureAttachedDir new) fun _ hattached' => ?_
  refine .bind .okOr fun oldEntries hentries => .bind .okOr fun newEntries hentries' => ?_
  obtain ⟨hdir, hentry⟩ := of_attached hold hattached hentries
  obtain ⟨hdir', hentry'⟩ := of_attached hnew hattached' hentries'
  refine .bind .okOr fun inode hinode => .bind (h.yields_renameDest hentry' l) fun dest hdest => ?_
  refine .bind (.bind .ensure fun _ _ => .ensure) fun _ _ => ?_
  refine .bind (h.yields_target (hentry ▸ hinode)) fun node hnode => ?_
  exact .ok ⟨hdir, hentry, hdir', hentry', hinode, hnode, hdest.1, hdest.2⟩

lemma yields_prepareMove {view : RenameView} {isMove : Bool} (hview : fs.ViewOk p k q l view)
    (heap : Heap) (hdest : ∀ plan : RenamePlan, plan.newEntries = view.newEntries →
      plan.inode = view.inode → plan.inodeIsDir = view.node.isDir → plan.dest = view.dest →
      plan.isMove = isMove → fs.DestOk q l plan) :
    Yields (fs.prepareMove heap p q view isMove) (fs.Ready p k q l) := by
  refine .bind (yields_movesBelowItself fs heap view p q) fun inside hbelow => ?_
  refine .bind .ensure fun _ houtside => .bind .ensure fun _ _ => .bind .ensure fun _ _ => ?_
  refine .bind (yields_prepareDestination heap _ _) fun newBacking hbacking => ?_
  refine .bind .ensure fun _ _ => .bind .ensure fun _ _ => .ok ?_
  refine ⟨hview.old_mem, hview.old_entry, hview.new_mem, hview.new_entry, hview.inode,
    ⟨view.node, hview.node, rfl⟩, hdest _ rfl rfl rfl rfl rfl, hbelow houtside,
    fun hmove hpq => hbacking ?_, ?_, fun hpq hmove => if_pos ⟨hpq, hmove⟩⟩
  · rw [Bool.and_eq_true]
    exact ⟨hmove, decide_eq_true hpq⟩
  have hcap := len_le_capacity view.oldEntries
  dsimp only
  split_ifs
  · rw [getD_none]
    omega
  · exact le_prepareDirectoryCompaction heap view.oldEntries

/-- The preparation of a rename: one entry named twice, or a plan. -/
lemma yields_prepareRename (h : fs.Inv) (heap : Heap) (p : Ino) (k : String) (q : Ino) (l : String)
    (noreplace : Bool) (expectedSrcIno : Ino) (expectedDestIno : Option Ino) :
    Yields (fs.prepareRename heap p k q l noreplace expectedSrcIno expectedDestIno) fun found =>
      (found = none ∧ ∃ c, fs.tree.entry p k = some c ∧ fs.tree.entry q l = some c) ∨
        ∃ plan, found = some plan ∧ fs.Ready p k q l plan := by
  refine .bind (yields_lookupRename h heap p k q l expectedSrcIno expectedDestIno) fun view hview => ?_
  refine .bind (yields_renameDecide _ _ _ _ _ _) fun decision hdecision => ?_
  split_ifs with hnoOp
  · subst hnoOp
    refine .ok (.inl ⟨rfl, view.inode, ?_, ?_⟩)
    · rw [hview.old_entry, hview.inode]
    rcases hdecision with ⟨hmove, -⟩ | ⟨-, node, hdest⟩ | ⟨hreplace, -⟩
    · cases hmove
    · rw [hview.new_entry, hview.dest, hdest]
      rfl
    · cases hreplace
  refine .bind (yields_prepareMove hview heap fun plan hentries hinode hkind hdest hmove => ?_)
    fun plan hplan => .ok (.inr ⟨plan, rfl, hplan⟩)
  have hget := hview.dest
  rw [← hentries] at hget
  rcases hdecision with ⟨rfl, hnone⟩ | ⟨rfl, -⟩ |
    ⟨rfl, victim, node, hsome, hne, hparent, hnode, hempty⟩
  · rw [hnone] at hdest hget
    exact .move hmove hdest hget
  · exact absurd rfl hnoOp
  · rw [hsome] at hdest hget
    exact .replace hmove hdest hget (hview.victim victim node hsome) (hinode ▸ hne) hparent
      (hnode.trans hkind.symm) hempty

/-! ## The change -/

lemma placeSource_eq (isMove : Bool) (entries : DirectoryMap) (backing : Option ℕ) (l : String)
    (hmove : isMove = true → entries.get l = none ∧ entries.len + 1 ≤ backing.getD entries.capacity)
    (hreplace : isMove = false → entries.get l ≠ none) (c : Ino) :
    ∃ placed : DirectoryMap, placeSource isMove entries backing l c = some (entries.get l, placed) ∧
      placed.get = update entries.get l (some c) := by
  cases isMove with
  | true =>
    obtain ⟨hfree, hroom⟩ := hmove rfl
    obtain ⟨placed, hinsert, hget⟩ := commitDirectoryInsert_eq hfree hroom c
    refine ⟨placed, ?_, hget⟩
    unfold placeSource
    rw [if_pos rfl, hinsert, hfree]
  | false =>
    obtain ⟨victim, hvictim⟩ := ne_none_iff_exists'.mp (hreplace rfl)
    refine ⟨entries.modify l fun _ => c, ?_, ?_⟩
    · unfold placeSource
      rw [if_neg Bool.false_ne_true, hvictim]
      rfl
    funext k
    by_cases hk : k = l
    · rw [hk, update_self, FallibleOrderedMap.get_modify_self, hvictim, map_some]
    · rw [update_of_ne hk, FallibleOrderedMap.get_modify_of_ne hk]

namespace Ready

variable {plan : RenamePlan}

section

variable (h : fs.Ready p k q l plan)
include h

lemma entry_old : fs.tree.entry p k = some plan.inode := by
  rw [h.old_entry, h.inode]

lemma entry_new : fs.tree.entry q l = plan.dest.map Prod.fst := by
  rw [h.new_entry]
  cases h.dest with
  | move _ hdest hfree => rw [hfree, hdest, map_none]
  | replace _ hdest hget => rw [hget, hdest, map_some]

lemma ne : ¬(q = p ∧ l = k) := by
  rintro ⟨rfl, rfl⟩
  have hsame := h.entry_old.symm.trans h.entry_new
  cases h.dest with
  | move _ hdest =>
    rw [hdest] at hsame
    cases hsame
  | replace _ hdest _ _ hne =>
    rw [hdest] at hsame
    exact hne (some.inj hsame)

/-- A free destination has no victim, a destination in use has one. -/
lemma free_iff : plan.isMove = true ↔ fs.tree.entry q l = none := by
  rw [h.entry_new]
  cases h.dest with
  | move hmove hdest => exact iff_of_true hmove (by rw [hdest, map_none])
  | replace hmove hdest =>
    rw [hmove, hdest]
    exact iff_of_false Bool.false_ne_true nofun

/-- The entries of both directories are changed, and nothing else. -/
lemma moveEdge (hside : fs.Side) :
    ∃ fs' : RamFs, fs.moveEdge p k q l plan = some (plan.dest.map Prod.fst, fs') ∧ fs'.Side ∧
      fs'.tree = { fs.tree with entry := moveEntry fs.tree.entry p k q l plan.inode } := by
  obtain ⟨removed, hremove, hget, hlen, hcapacity⟩ := commitDirectoryRemove_eq h.inode h.compact
  rw [← h.old_entry] at hget
  have hfree := h.free_iff
  unfold RamFs.moveEdge
  rw [hremove, bind_eq_bind, bind_some]
  dsimp only
  by_cases hpq : p = q
  · subst hpq
    have hlk : l ≠ k := fun heq => h.ne ⟨rfl, heq⟩
    have hsame : removed.get l = fs.tree.entry p l := by rw [hget, update_of_ne hlk]
    obtain ⟨placed, hplace, hplaced⟩ := placeSource_eq plan.isMove removed none l
      (fun hmove => ⟨by rw [hsame, ← hfree]; exact hmove, by
        rw [getD_none, hcapacity, h.kept rfl hmove, getD_none, hlen]
        exact len_le_capacity plan.oldEntries⟩)
      (fun hmove => by rw [hsame, Ne, ← hfree, hmove]; exact Bool.false_ne_true) plan.inode
    refine ⟨fs.setEntries p placed, ?_, hside.setEntries p placed, ?_⟩
    · rw [if_pos rfl, hplace, hsame, h.entry_new]
      rfl
    rw [tree_setEntries h.old_mem, hplaced, hget]
    refine NamedTree.ext rfl rfl rfl ?_ rfl rfl
    unfold moveEntry setEntry
    rw [update_idem, update_self]
  · obtain ⟨placed, hplace, hplaced⟩ := placeSource_eq plan.isMove plan.newEntries plan.newBacking l
      (fun hmove => ⟨by rw [← h.new_entry, ← hfree]; exact hmove, h.backing hmove hpq⟩)
      (fun hmove => by rw [← h.new_entry, Ne, ← hfree, hmove]; exact Bool.false_ne_true) plan.inode
    have htree := tree_setEntries h.old_mem removed
    refine ⟨(fs.setEntries p removed).setEntries q placed, ?_,
      (hside.setEntries p removed).setEntries q placed, ?_⟩
    · rw [if_neg hpq, hplace, ← h.new_entry, h.entry_new]
      rfl
    rw [tree_setEntries (by rw [htree]; exact h.new_mem), htree, hplaced, hget, ← h.new_entry]
    refine NamedTree.ext rfl rfl rfl ?_ rfl rfl
    unfold moveEntry setEntry
    rw [update_of_ne (Ne.symm hpq)]

end

end Ready

/-- `rename_apply_accounting` without a victim. -/
lemma tree_account (hq : q ∈ fs.tree.dirs) (p : Ino) (isDir : Bool) :
    (fs.renameApplyAccounting p q isDir none).tree = { fs.tree with
        links := if isDir = true ∧ p ≠ q then
            update (update fs.tree.links p (fs.tree.links p - 1)) q (fs.tree.links q + 1)
          else fs.tree.links } := by
  unfold renameApplyAccounting
  split_ifs with hcross
  · have htree := tree_decNlink fs p
    rw [tree_incNlink (by rw [htree]; exact hq), htree]
    refine NamedTree.ext rfl rfl rfl rfl rfl ?_
    dsimp only
    rw [update_of_ne (Ne.symm hcross.2)]
  · rfl

lemma Side.account (h : fs.Side) (p q : Ino) (isDir : Bool) :
    (fs.renameApplyAccounting p q isDir none).Side := by
  unfold renameApplyAccounting
  split_ifs
  · exact (h.decNlink p).incNlink q
  · exact h

/-- `commit_rename` succeeds, and the tree is `t` then. -/
def Commits (fs : RamFs) (p : Ino) (k : String) (q : Ino) (l : String) (plan : RenamePlan)
    (t : NamedTree Ino String) : Prop :=
  ∃ fs' : RamFs, fs.commitRename p k q l plan = some fs' ∧ fs'.Side ∧ fs'.tree = t

lemma moveEntry_unset (entry : Ino → String → Option Ino) :
    moveEntry (setEntry entry q l none) p k q l c = moveEntry entry p k q l c := by
  funext q' l'
  unfold moveEntry
  simp only [setEntry_apply]
  split_ifs <;> rfl

namespace Ready

variable {plan : RenamePlan}

section

variable (h : fs.Ready p k q l plan)
include h

/-- The tree after the entries and the parent record of a directory were changed. -/
lemma placeDir (hside : fs.Side) (hc : plan.inode ∈ fs.tree.dirs) :
    ∃ fs1 : RamFs, fs.moveEdge p k q l plan = some (plan.dest.map Prod.fst, fs1) ∧
      (fs1.modify plan.inode fun n => { n with parent := some ⟨q, l, none⟩ }).Side ∧
      (fs1.modify plan.inode fun n => { n with parent := some ⟨q, l, none⟩ }).tree = { fs.tree with
          entry := moveEntry fs.tree.entry p k q l plan.inode
          up := update fs.tree.up plan.inode (some (q, l)) } := by
  obtain ⟨fs1, hedge, hside1, htree1⟩ := h.moveEdge hside
  refine ⟨fs1, hedge, hside1.modify plan.inode fun n _ _ _ r hr => ?_, ?_⟩
  · cases hr
    rfl
  · rw [tree_setParent (by rw [htree1]; exact hc), htree1]

lemma commit_moveDir (hside : fs.Side)
    (hc : plan.inode ∈ fs.tree.dirs) (hdir : plan.inodeIsDir = true) (hdest : plan.dest = none) :
    fs.Commits p k q l plan (fs.tree.moveDir p k q l plan.inode) := by
  obtain ⟨fs1, hedge, hside2, htree2⟩ := h.placeDir hside hc
  refine ⟨_, ?_, hside2.account p q true, ?_⟩
  · unfold commitRename
    rw [hedge, hdest, bind_eq_bind, bind_some]
    dsimp only
    rw [hdir, if_pos rfl]
    rfl
  rw [tree_account (by rw [htree2]; exact h.new_mem), htree2]
  refine NamedTree.ext rfl rfl rfl rfl rfl ?_
  dsimp only [NamedTree.moveDir]
  by_cases hpq : p = q
  · rw [if_pos hpq, if_neg fun hcross => hcross.2 hpq]
  · rw [if_neg hpq, if_pos ⟨rfl, hpq⟩]

lemma commit_replaceDir (hinv : fs.Inv)
    (hc : plan.inode ∈ fs.tree.dirs) (hdir : plan.inodeIsDir = true) {v : Ino} {node : RamFsInode}
    (hdest : plan.dest = some (v, node)) (hv : v ∈ fs.tree.dirs) (hvdir : node.isDir = true)
    (hne : plan.inode ≠ v) (hvq : v ≠ q) :
    fs.Commits p k q l plan ((fs.tree.removeDir q l v).moveDir p k q l plan.inode) := by
  have hnew : fs.tree.entry q l = some v := by
    rw [h.entry_new, hdest, map_some]
  obtain ⟨fs1, hedge, hside2, htree2⟩ := h.placeDir hinv.side hc
  obtain ⟨fs3, hretain, hside3, htree3⟩ := hside2.retainDetached (c := v) (by rw [htree2]; exact hv)
    (by
      rw [htree2]
      exact (update_of_ne hne.symm _ _).trans (hinv.tree.recorded q l v hnew hv)) q
  rw [htree2] at htree3
  have hside4 := (hside3.decNlink q).decNlink v
  have htree4 : ((fs3.modify q .decNlink).modify v .decNlink).tree = { fs.tree.removeDir q l v with
        entry := moveEntry fs.tree.entry p k q l plan.inode
        up := update fs.tree.up plan.inode (some (q, l)) } := by
    rw [tree_decNlink, tree_decNlink, htree3]
    refine NamedTree.ext rfl rfl rfl rfl rfl ?_
    dsimp only [NamedTree.removeDir]
    rw [update_of_ne hvq]
  refine ⟨_, ?_, hside4.account p q true, ?_⟩
  · unfold commitRename
    rw [hedge, hdest, bind_eq_bind, bind_some]
    dsimp only [map_some]
    rw [hdir, if_pos rfl, hretain, bind_eq_bind, bind_some]
    unfold renameApplyAccounting
    dsimp only
    rw [hvdir, if_pos rfl]
  rw [tree_account (by rw [htree4]; exact ⟨h.new_mem, Ne.symm hvq⟩), htree4]
  refine NamedTree.ext rfl rfl rfl ?_ rfl ?_
  · exact (moveEntry_unset fs.tree.entry).symm
  dsimp only [NamedTree.moveDir]
  by_cases hpq : p = q
  · rw [if_pos hpq, if_neg fun hcross => hcross.2 hpq]
  · rw [if_neg hpq, if_pos ⟨rfl, hpq⟩]

/-- An inode that is no directory moves to a free name. -/
lemma commit_moveLeaf (hside : fs.Side)
    (hdir : plan.inodeIsDir = false) (hdest : plan.dest = none) :
    fs.Commits p k q l plan (fs.tree.moveLeaf p k q l plan.inode) := by
  obtain ⟨fs1, hedge, hside1, htree1⟩ := h.moveEdge hside
  refine ⟨_, ?_, hside1.account p q false, ?_⟩
  · unfold commitRename
    rw [hedge, hdest, bind_eq_bind, bind_some]
    dsimp only
    rw [hdir, if_neg Bool.false_ne_true]
    rfl
  rw [tree_account (by rw [htree1]; exact h.new_mem), htree1]
  refine NamedTree.ext rfl rfl rfl rfl rfl ?_
  dsimp only [NamedTree.moveLeaf]
  rw [if_neg fun hcross => Bool.false_ne_true hcross.1]

/-- An inode that is no directory replaces another. -/
lemma commit_replaceLeaf (hside : fs.Side)
    (hdir : plan.inodeIsDir = false) {v : Ino} {node : RamFsInode}
    (hdest : plan.dest = some (v, node)) (hv : v ∈ fs.tree.leaves) (hvdir : node.isDir = false) :
    fs.Commits p k q l plan ((fs.tree.removeLeaf q l v).moveLeaf p k q l plan.inode) := by
  obtain ⟨fs1, hedge, hside1, htree1⟩ := h.moveEdge hside
  have htree2 := tree_decNlink fs1 v
  rw [htree1] at htree2
  refine ⟨_, ?_, (hside1.decNlink v).account p q false, ?_⟩
  · unfold commitRename
    rw [hedge, hdest, bind_eq_bind, bind_some]
    dsimp only [map_some]
    rw [hdir, if_neg Bool.false_ne_true, retainDetached_leaf (by rw [htree1]; exact hv) q,
      bind_eq_bind, bind_some]
    unfold renameApplyAccounting
    dsimp only
    rw [hvdir, if_neg Bool.false_ne_true]
  rw [tree_account (by rw [htree2]; exact h.new_mem), htree2]
  refine NamedTree.ext rfl rfl rfl ?_ rfl ?_
  · exact (moveEntry_unset fs.tree.entry).symm
  dsimp only [NamedTree.moveLeaf, NamedTree.removeLeaf]
  rw [if_neg fun hcross => Bool.false_ne_true hcross.1]

/-- The new directory does not lie below a directory that moves. -/
lemma not_climbs (hinv : fs.Inv) (hc : plan.inode ∈ fs.tree.dirs) :
    ¬Climbs fs.tree.parent q plan.inode := by
  by_cases hpq : p = q
  · rw [← hpq]
    exact hinv.tree.not_climbs h.entry_old hc
  obtain ⟨node, hnode, hkind⟩ := h.kind
  have hdir : plan.inodeIsDir = true := by
    obtain ⟨m, hm, hmdir, -⟩ := hc
    rw [hkind, ← some.inj (hm.symm.trans hnode), hmdir]
  exact fun hclimb => h.below hdir hpq (hinv.tree.reaches_of_climbs h.new_mem hclimb)

lemma commit (hinv : fs.Inv) : ∃ t, fs.Commits p k q l plan t ∧ t.WellFormed rootIno ∧
      t.entry = moveEntry fs.tree.entry p k q l plan.inode ∧ fs.tree.gone ⊆ t.gone := by
  obtain ⟨node, hnode, hkind⟩ := h.kind
  have hold := h.entry_old
  rcases mem_of_target hnode (hinv.tree.target p k _ hold) with ⟨hdir, hc⟩ | ⟨hdir, hc⟩
  · have hbelow := h.not_climbs hinv hc
    cases h.dest with
    | move _ hdest hfree =>
      rw [← h.new_entry] at hfree
      exact ⟨_, h.commit_moveDir hinv.side hc (hkind.trans hdir) hdest,
        hinv.tree.moveDir hold hc h.new_mem hfree hbelow, rfl, subset_rfl⟩
    | @replace v vnode _ hdest hget hvnode hne hvq hvkind hempty =>
      rw [← h.new_entry] at hget
      have hvdir : vnode.isDir = true := hvkind.trans (hkind.trans hdir)
      have hv : v ∈ fs.tree.dirs := by
        rcases mem_of_target hvnode (hinv.tree.target q l v hget) with ⟨-, hv⟩ | ⟨hleaf, -⟩
        · exact hv
        · exact nomatch hvdir.symm.trans hleaf
      have hvempty : ∀ m, fs.tree.entry v m = none := fun m =>
        (entry_eq hvnode m).trans (RamFsInode.lookup_of_childCount hempty m)
      have hremoved := hinv.tree.removeDir hget hv hvempty
      refine ⟨_, h.commit_replaceDir hinv hc (hkind.trans hdir) hdest hv hvdir hne hvq,
        hremoved.moveDir ?_ ⟨hc, hne⟩ ⟨h.new_mem, Ne.symm hvq⟩ setEntry_self hbelow,
        moveEntry_unset fs.tree.entry, Set.subset_insert v _⟩
      exact (setEntry_of_ne fun hat => h.ne ⟨hat.1.symm, hat.2.symm⟩).trans hold
  · cases h.dest with
    | move _ hdest hfree =>
      rw [← h.new_entry] at hfree
      exact ⟨_, h.commit_moveLeaf hinv.side (hkind.trans hdir) hdest,
        hinv.tree.moveLeaf hold hc h.new_mem hfree, rfl, subset_rfl⟩
    | @replace v vnode _ hdest hget hvnode hne hvq hvkind =>
      rw [← h.new_entry] at hget
      have hvdir : vnode.isDir = false := hvkind.trans (hkind.trans hdir)
      have hv : v ∈ fs.tree.leaves := by
        rcases mem_of_target hvnode (hinv.tree.target q l v hget) with ⟨htrue, -⟩ | ⟨-, hv⟩
        · exact nomatch htrue.symm.trans hvdir
        · exact hv
      have hremoved := hinv.tree.removeLeaf hget hv
      refine ⟨_, h.commit_replaceLeaf hinv.side (hkind.trans hdir) hdest hv hvdir,
        hremoved.moveLeaf ?_ hc h.new_mem setEntry_self, moveEntry_unset fs.tree.entry, subset_rfl⟩
      exact (setEntry_of_ne fun hat => h.ne ⟨hat.1.symm, hat.2.symm⟩).trans hold

/-- What lies below the inode that moves is not touched. -/
lemma walk_moveEntry (hinv : fs.Inv) (path : List String) :
    walk (moveEntry fs.tree.entry p k q l plan.inode) plan.inode path =
      walk fs.tree.entry plan.inode path := by
  refine walk_congr (fun d hreach => ?_) path
  -- a directory below the inode is neither the old nor the new parent
  have hout : ∀ r ∈ fs.tree.dirs, (plan.inode ∈ fs.tree.dirs → ¬Climbs fs.tree.parent r plan.inode) →
      d ≠ r := by
    rintro r hr hnot rfl
    have hclimb := hinv.tree.climbs_of_reaches hreach hr
    exact hnot (hinv.tree.mem_of_climbs hr hclimb) hclimb
  have hdp := hout p h.old_mem fun hc => hinv.tree.not_climbs h.entry_old hc
  have hdq := hout q h.new_mem fun hc => h.not_climbs hinv hc
  funext m
  unfold moveEntry
  rw [setEntry_of_ne fun hat => hdq hat.1, setEntry_of_ne fun hat => hdp hat.1]

end

end Ready

/-- What a rename that succeeds does to the entries: the inode named `k` in `p` is named `l` in `q`
afterwards and not `k` in `p` any more, no other entry changes, and every path from that inode leads
where it did before. -/
def Renamed (fs fs' : RamFs) (p : Ino) (k : String) (q : Ino) (l : String) : Prop :=
  ∃ c, fs.tree.entry p k = some c ∧ fs'.tree.entry q l = some c ∧
    (¬(q = p ∧ l = k) → fs'.tree.entry p k = none) ∧
    (∀ d m, ¬(d = p ∧ m = k) → ¬(d = q ∧ m = l) → fs'.tree.entry d m = fs.tree.entry d m) ∧
    ∀ path, walk fs'.tree.entry c path = walk fs.tree.entry c path

lemma rename_step (h : fs.Inv) (heap : Heap) (p : Ino) (k : String) (q : Ino) (l : String)
    (noreplace : Bool) (expectedSrcIno : Ino) (expectedDestIno : Option Ino) :
    StepOk fs (exec.outcome (fs.rename heap p k q l noreplace expectedSrcIno expectedDestIno)) ∧
      ((exec.outcome (fs.rename heap p k q l noreplace expectedSrcIno expectedDestIno)).1 = none →
        Renamed fs (fs.rename heap p k q l noreplace expectedSrcIno expectedDestIno).2 p k q l) := by
  unfold rename
  rcases (yields_prepareRename h heap p k q l noreplace expectedSrcIno expectedDestIno).cases with
    ⟨e, heq⟩ | ⟨found, heq, ⟨rfl, c, hp, hq⟩ | ⟨plan, rfl, hready⟩⟩ <;> rw [heq]
  · exact ⟨.fail h fs rfl le_rfl e, fun hnone => nomatch hnone⟩
  · refine ⟨.done rfl h.tree h.side subset_rfl, fun _ => ⟨c, hp, hq, fun hne => ?_, ?_, fun _ => rfl⟩⟩
    · exact absurd (h.tree.unique q l p k c hq hp) hne
    · exact fun _ _ _ _ => rfl
  obtain ⟨_, ⟨fs', hcommit, hside, rfl⟩, hwf, hentry, hgone⟩ := hready.commit h
  dsimp only
  rw [hcommit]
  refine ⟨.done rfl hwf hside hgone, fun _ => ⟨plan.inode, hready.entry_old, ?_⟩⟩
  rw [hentry]
  refine ⟨setEntry_self, fun _ => ?_, fun d m hold hnew => ?_, hready.walk_moveEntry h⟩
  · unfold moveEntry
    rw [setEntry_of_ne fun hat => hready.ne ⟨hat.1.symm, hat.2.symm⟩, setEntry_self]
  unfold moveEntry
  rw [setEntry_of_ne hnew, setEntry_of_ne hold]

/-! ## Runs -/

lemma tree_tryNew : tryNew.tree =
    { dirs := {rootIno}, gone := ∅, leaves := ∅, entry := fun _ _ => none, up := fun _ => none,
      links := update (fun _ => 0) rootIno 2 } := by
  rw [tryNew, tree_update ⟨fun _ => none, 0⟩]
  refine NamedTree.ext ?_ ?_ ?_ ?_ ?_ ?_
  · ext j
    change (if j = rootIno then _ else _) ↔ j = rootIno
    split_ifs with hj
    · exact iff_of_true ⟨rfl, rfl⟩ hj
    · exact iff_of_false (fun ⟨_, hn, _⟩ => nomatch hn) hj
  · refine Set.eq_empty_of_forall_notMem fun j hj => ?_
    change if j = rootIno then _ else _ at hj
    split_ifs at hj
    · exact nomatch hj.2
    · exact nomatch hj.choose_spec.1
  · refine Set.eq_empty_of_forall_notMem fun j hj => ?_
    change if j = rootIno then _ else _ at hj
    split_ifs at hj
    · cases hj
    · exact nomatch hj.choose_spec.1
  · exact update_eq_self_iff.mpr rfl
  · exact update_eq_self_iff.mpr rfl
  · rfl

lemma inodes_tryNew (i : Ino) :
    tryNew.inodes i = if i = rootIno then some RamFsInode.newDir else none := by
  unfold tryNew
  dsimp only
  rw [update_apply]

lemma inv_tryNew : tryNew.Inv := by
  refine ⟨?_, fun i hi => ?_, fun i n hn => ?_⟩
  · rw [tree_tryNew]
    refine
      { root_mem := rfl, root_up := rfl
        dirs_gone := Set.disjoint_empty _, dirs_leaves := Set.disjoint_empty _
        gone_leaves := Set.disjoint_empty _
        source := nofun, target := nofun, unique := nofun, recorded := nofun
        named := fun c hc hne => absurd hc hne
        climbs := fun c hc => hc ▸ .refl _
        finite := fun _ => Set.finite_empty.subset fun _ hk => hk rfl
        links_dir := ?_, links_leaf := fun c hc => absurd hc (Set.notMem_empty c) }
    rintro c rfl
    have hnone : subdirs ({rootIno} : Set Ino) (fun _ (_ : String) => none) rootIno = ∅ :=
      Set.eq_empty_of_forall_notMem fun _ ⟨_, _, hk⟩ => nomatch hk
    rw [hnone, Set.ncard_empty]
    dsimp only
    rw [update_self]
  · have hne : i ≠ rootIno := (lt_of_lt_of_le (Nat.lt_succ_self 1) hi).ne'
    rw [inodes_tryNew, if_neg hne]
  · rw [inodes_tryNew] at hn
    split_ifs at hn
    cases hn
    exact fun _ r hr => nomatch hr

lemma exec_step (h : fs.Inv) (call : Call) : StepOk fs (fs.exec call) := by
  cases call with
  | create heap parent name isDir => exact create_step h heap parent name isDir
  | symlink heap parent name target => exact symlink_step h heap parent name target
  | unlink heap parent name expectedIno mustBeDir =>
    exact unlink_step h heap parent name expectedIno mustBeDir
  | rename heap p k q l noreplace expectedSrcIno expectedDestIno =>
    exact (rename_step h heap p k q l noreplace expectedSrcIno expectedDestIno).1

lemma inv_run (calls : List Call) : (run calls).Inv :=
  foldlRecOn calls _ inv_tryNew fun _ h call _ => (exec_step h call).inv

lemma gone_run (calls more : List Call) :
    (run calls).tree.gone ⊆ (run (calls ++ more)).tree.gone := by
  induction more using reverseRecOn with
  | nil => rw [append_nil]
  | append_singleton more call ih =>
    have hlast : run (calls ++ (more ++ [call])) = ((run (calls ++ more)).exec call).2 := by
      unfold run
      rw [← append_assoc, foldl_append]
      rfl
    rw [hlast]
    exact ih.trans (exec_step (inv_run (calls ++ more)) call).gone

/-- The tree of a file system is in order.  Its attached directories are `tree.dirs`, the detached
ones `tree.gone`, files and symlinks `tree.leaves`. -/
structure TreeOk (fs : RamFs) : Prop where
  /-- An attached directory is named by one entry, which it records. -/
  named : ∀ d ∈ fs.tree.dirs, d ≠ rootIno → ∃ p k, p ∈ fs.tree.dirs ∧ fs.tree.entry p k = some d ∧
    fs.tree.up d = some (p, k) ∧ ∀ q l, fs.tree.entry q l = some d → q = p ∧ l = k
  /-- Following the parents comes to the root. -/
  climbs : ∀ d ∈ fs.tree.dirs, Climbs fs.tree.parent d rootIno
  /-- No directory lies below itself. -/
  acyclic : ∀ d ∈ fs.tree.dirs, ∀ p, fs.tree.parent d = some p → ¬Climbs fs.tree.parent p d
  detached_empty : ∀ d ∈ fs.tree.gone, ∀ k, fs.tree.entry d k = none
  links_dir : ∀ d ∈ fs.tree.dirs, fs.tree.links d = 2 + (subdirs fs.tree.dirs fs.tree.entry d).ncard
  links_leaf : ∀ c ∈ fs.tree.leaves, fs.tree.links c = (names fs.tree.entry c).ncard

/-- A call in a state: no assertion fails, an error leaves every inode as it was, and a rename that
succeeds moves one entry. -/
structure CallOk (fs : RamFs) (call : Call) : Prop where
  noPanic : (fs.exec call).1 ≠ some .panic
  error : (fs.exec call).1 ≠ none → (fs.exec call).2.inodes = fs.inodes
  renamed : ∀ heap p k q l noreplace expectedSrcIno expectedDestIno,
    call = .rename heap p k q l noreplace expectedSrcIno expectedDestIno →
      (fs.exec call).1 = none → Renamed fs (fs.exec call).2 p k q l

lemma Inv.treeOk (h : fs.Inv) : fs.TreeOk where
  named d hd hne := by
    obtain ⟨p, k, hup, he⟩ := h.tree.named d hd hne
    exact ⟨p, k, h.tree.source p k d he, he, hup, fun q l hq => h.tree.unique q l p k d hq he⟩
  climbs := h.tree.climbs
  acyclic d hd _ hp := (h.tree.climbs d hd).not_back h.tree.parent_root hp
  detached_empty _ hd := h.tree.gone_empty hd
  links_dir := h.tree.links_dir
  links_leaf := h.tree.links_leaf

lemma Inv.callOk (h : fs.Inv) (call : Call) : fs.CallOk call where
  noPanic := (exec_step h call).noPanic
  error := (exec_step h call).error
  renamed heap p k q l noreplace expectedSrcIno expectedDestIno hcall hnone := by
    subst hcall
    have hrenamed := (rename_step h heap p k q l noreplace expectedSrcIno expectedDestIno).2 hnone
    dsimp only [exec]
    generalize fs.rename heap p k q l _ _ _ = out at hrenamed ⊢
    rcases out with ⟨_ | _, fs'⟩ <;> exact hrenamed

/-- After every sequence of calls, with any answers of the heap: the tree is well formed, the next
call of any kind respects it, and a directory that is detached stays detached and empty from then
on. -/
theorem ramFs_keeps_tree (calls : List Call) :
    (run calls).TreeOk ∧ (∀ call, (run calls).CallOk call) ∧
      ∀ more, ∀ d ∈ (run calls).tree.gone, d ∈ (run (calls ++ more)).tree.gone ∧
        ∀ k, (run (calls ++ more)).tree.entry d k = none := by
  refine ⟨(inv_run calls).treeOk, fun call => (inv_run calls).callOk call, fun more d hd => ?_⟩
  have hgone := gone_run calls more hd
  exact ⟨hgone, (inv_run (calls ++ more)).tree.gone_empty hgone⟩

end RamFs

end Nilix.Vfs
