import Nilix.Foundation.NamedTree
import Nilix.Vfs.RamFs

/-!
# The tree of a RAM file system

The directory tree that the inodes of a `RamFs` make up (`RamFs.tree`), and what the parts of a call
do to it: entries, link counts, parent records and the mark of a detached directory are separate
components, and each part changes one of them.
-/

namespace Nilix.Vfs

open FallibleOrderedMap Function NamedTree Option

namespace RamFsInode

/-- What a directory names. -/
def lookup (n : RamFsInode) (name : String) : Option Ino := n.dirEntries.bind fun m => m.get name

/-- The place in the parent record. -/
def place (n : RamFsInode) : Option (Ino × String) := n.parent.map fun r => (r.parent, r.name)

/-- A directory is an inode with entries. -/
lemma isDir_iff {n : RamFsInode} : n.isDir = true ↔ ∃ entries, n.dirEntries = some entries := by
  unfold isDir dirEntries
  rcases n.kind with _ | entries | target
  · exact iff_of_false nofun nofun
  · exact iff_of_true rfl ⟨entries, rfl⟩
  · exact iff_of_false nofun nofun

/-- An empty directory names nothing. -/
lemma lookup_of_childCount {n : RamFsInode} (h : n.childCount = 0) (name : String) :
    n.lookup name = none := by
  unfold childCount at h
  unfold lookup
  rcases hkids : n.dirEntries with _ | entries
  · rfl
  rw [hkids] at h
  have hnil : entries.assoc.entries = [] := List.eq_nil_of_length_eq_zero h
  rcases hget : entries.get name with _ | c
  · exact hget
  have hmem := SortedAssoc.mem_entries.mpr hget
  rw [hnil] at hmem
  cases hmem

end RamFsInode

namespace RamFs

/-- The directory tree of a file system. -/
def tree (fs : RamFs) : NamedTree Ino String where
  dirs := {i | ∃ n, fs.inodes i = some n ∧ n.isDir = true ∧ n.detached = false}
  gone := {i | ∃ n, fs.inodes i = some n ∧ n.isDir = true ∧ n.detached = true}
  leaves := {i | ∃ n, fs.inodes i = some n ∧ n.isDir = false}
  entry i name := (fs.inodes i).bind fun n => n.lookup name
  up i := (fs.inodes i).bind RamFsInode.place
  links i := (fs.inodes i).elim 0 RamFsInode.nlink

variable {fs : RamFs} {i j p c : Ino} {n : RamFsInode} {name : String}

section

variable (hi : fs.inodes i = some n)
include hi

/-- The tree shows the names of an inode, -/
lemma entry_eq (name : String) : fs.tree.entry i name = n.lookup name := by
  change (fs.inodes i).bind _ = _
  rw [hi, bind_some]

/-- the place that it records, -/
lemma up_eq : fs.tree.up i = n.place := by
  change (fs.inodes i).bind _ = _
  rw [hi, bind_some]

/-- and its links. -/
lemma links_eq : fs.tree.links i = n.nlink := by
  change (fs.inodes i).elim _ _ = _
  rw [hi, elim_some]

/-- A live inode is a directory of the tree or a leaf, as its kind says. -/
lemma mem_of_target (hlive : i ∈ fs.tree.dirs ∨ i ∈ fs.tree.leaves) :
    (n.isDir = true ∧ i ∈ fs.tree.dirs) ∨ (n.isDir = false ∧ i ∈ fs.tree.leaves) := by
  rcases hlive with h | h
  · obtain ⟨m, hm, hdir, -⟩ := id h
    cases hi.symm.trans hm
    exact .inl ⟨hdir, h⟩
  obtain ⟨m, hm, hdir⟩ := id h
  cases hi.symm.trans hm
  exact .inr ⟨hdir, h⟩

end

/-! ## One inode changes -/

/-- Replacing the inode `i` of a file system. -/
lemma tree_update (fs : RamFs) (i : Ino) (n : RamFsInode) (next : ℕ) :
    (⟨update fs.inodes i (some n), next⟩ : RamFs).tree =
      { dirs := {j | if j = i then n.isDir = true ∧ n.detached = false else j ∈ fs.tree.dirs}
        gone := {j | if j = i then n.isDir = true ∧ n.detached = true else j ∈ fs.tree.gone}
        leaves := {j | if j = i then n.isDir = false else j ∈ fs.tree.leaves}
        entry := update fs.tree.entry i n.lookup
        up := update fs.tree.up i n.place
        links := update fs.tree.links i n.nlink } := by
  have hset : ∀ (P : RamFsInode → Prop) (j : Ino),
      (∃ m, update fs.inodes i (some n) j = some m ∧ P m) ↔
        if j = i then P n else ∃ m, fs.inodes j = some m ∧ P m := by
    intro P j
    by_cases hj : j = i
    · rw [if_pos hj, hj, update_self]
      exact ⟨fun ⟨m, hm, hp⟩ => some.inj hm ▸ hp, fun hp => ⟨n, rfl, hp⟩⟩
    · rw [if_neg hj, update_of_ne hj]
  unfold tree
  congr 1
  · exact Set.ext fun j => hset (fun m => m.isDir = true ∧ m.detached = false) j
  · exact Set.ext fun j => hset (fun m => m.isDir = true ∧ m.detached = true) j
  · exact Set.ext fun j => hset (fun m => m.isDir = false) j
  all_goals
    funext j
    by_cases hj : j = i
    · subst hj
      dsimp only
      rw [update_self, update_self]
      rfl
    dsimp only
    rw [update_of_ne hj, update_of_ne hj]

/-- A set that is told again whether `i` is in it. -/
lemma setOf_ite_eq {s : Set Ino} {P : Prop} (h : i ∈ s ↔ P) :
    {j | if j = i then P else j ∈ s} = s := by
  ext j
  change (if j = i then P else j ∈ s) ↔ j ∈ s
  split_ifs with hj
  · rw [hj, h]
  · rfl

/-- A change that leaves the kind of an inode shows in its names, its place and its links. -/
lemma tree_modify (hi : fs.inodes i = some n) (f : RamFsInode → RamFsInode)
    (hdir : (f n).isDir = n.isDir) (hdet : (f n).detached = n.detached) :
    (fs.modify i f).tree = { fs.tree with
        entry := update fs.tree.entry i (f n).lookup
        up := update fs.tree.up i (f n).place
        links := update fs.tree.links i (f n).nlink } := by
  have hmem : ∀ P : RamFsInode → Prop, (∃ m, fs.inodes i = some m ∧ P m) ↔ P n := fun P =>
    ⟨fun ⟨m, hm, hp⟩ => some.inj (hm.symm.trans hi) ▸ hp, fun hp => ⟨n, hi, hp⟩⟩
  unfold modify
  rw [hi, map_some, tree_update, hdir, hdet]
  congr 1
  · exact setOf_ite_eq (hmem fun m => m.isDir = true ∧ m.detached = false)
  · exact setOf_ite_eq (hmem fun m => m.isDir = true ∧ m.detached = true)
  · exact setOf_ite_eq (hmem fun m => m.isDir = false)

/-- New entries of a directory. -/
lemma tree_setEntries (hi : i ∈ fs.tree.dirs) (entries : DirectoryMap) :
    (fs.setEntries i entries).tree =
      { fs.tree with entry := update fs.tree.entry i entries.get } := by
  obtain ⟨n, hn, hdir, -⟩ := hi
  rw [setEntries, tree_modify hn (fun n => n.withEntries entries) hdir.symm rfl]
  refine NamedTree.ext rfl rfl rfl rfl ?_ ?_
  · exact update_eq_self_iff.mpr (up_eq hn).symm
  · exact update_eq_self_iff.mpr (links_eq hn).symm

/-- A change of an inode that concerns its link count only. -/
lemma tree_links (hi : fs.inodes i = some n) (f : RamFsInode → RamFsInode)
    (hf : f n = { n with nlink := (f n).nlink }) :
    (fs.modify i f).tree = { fs.tree with links := update fs.tree.links i (f n).nlink } := by
  rw [tree_modify hi f (by rw [hf]; rfl) (by rw [hf])]
  refine NamedTree.ext rfl rfl rfl ?_ ?_ rfl
  · refine update_eq_self_iff.mpr (funext fun name => ?_)
    rw [entry_eq hi, hf]
    rfl
  refine update_eq_self_iff.mpr ?_
  rw [up_eq hi, hf]
  rfl

/-- One link less. -/
lemma tree_decNlink (fs : RamFs) (i : Ino) : (fs.modify i .decNlink).tree =
      { fs.tree with links := update fs.tree.links i (fs.tree.links i - 1) } := by
  rcases hi : fs.inodes i with _ | n
  · have hsame : fs.modify i .decNlink = fs := by
      unfold modify
      rw [hi, map_none, ← hi, update_eq_self]
    have hzero : fs.tree.links i = 0 := by
      change (fs.inodes i).elim _ _ = _
      rw [hi, elim_none]
    rw [hsame]
    refine NamedTree.ext rfl rfl rfl rfl rfl ?_
    exact (update_eq_self_iff.mpr (by rw [hzero])).symm
  · rw [tree_links hi .decNlink rfl, links_eq hi]
    rfl

/-- One link more of a directory. -/
lemma tree_incNlink (hi : i ∈ fs.tree.dirs) : (fs.modify i .incNlink).tree =
      { fs.tree with links := update fs.tree.links i (fs.tree.links i + 1) } := by
  obtain ⟨n, hn, -, -⟩ := hi
  rw [tree_links hn .incNlink rfl, links_eq hn]
  rfl

/-- A directory records another place. -/
lemma tree_setParent (hi : i ∈ fs.tree.dirs) (r : ParentState) :
    (fs.modify i fun n => { n with parent := some r }).tree =
      { fs.tree with up := update fs.tree.up i (some (r.parent, r.name)) } := by
  obtain ⟨n, hn, -, -⟩ := hi
  rw [tree_modify hn (fun n => { n with parent := some r }) rfl rfl]
  refine NamedTree.ext rfl rfl rfl ?_ rfl ?_
  · refine update_eq_self_iff.mpr (funext fun name => ?_)
    rw [entry_eq hn]
    rfl
  · exact update_eq_self_iff.mpr (links_eq hn).symm

/-- A directory that is detached goes from the directories to the removed ones. -/
lemma tree_detach (hi : fs.inodes i = some n) (hdir : n.isDir = true) (r : ParentState)
    (hr : n.place = some (r.parent, r.name)) :
    (fs.modify i fun n => { n with detached := true, parent := some r }).tree =
      { fs.tree with dirs := fs.tree.dirs \ {i}, gone := insert i fs.tree.gone } := by
  unfold modify
  rw [hi, map_some, tree_update]
  refine NamedTree.ext ?_ ?_ ?_ ?_ ?_ ?_
  · ext j
    change (if j = i then _ else j ∈ fs.tree.dirs) ↔ j ∈ fs.tree.dirs ∧ j ≠ i
    split_ifs with hj
    · exact iff_of_false (fun h => nomatch h.2) fun h => h.2 hj
    · exact (and_iff_left hj).symm
  · ext j
    change (if j = i then _ else j ∈ fs.tree.gone) ↔ j = i ∨ j ∈ fs.tree.gone
    split_ifs with hj
    · exact iff_of_true ⟨hdir, rfl⟩ (.inl hj)
    · exact (or_iff_right hj).symm
  · refine setOf_ite_eq ⟨fun ⟨m, hm, hleaf⟩ => ?_, fun hleaf => ⟨n, hi, hleaf⟩⟩
    exact some.inj (hm.symm.trans hi) ▸ hleaf
  · refine update_eq_self_iff.mpr (funext fun name => ?_)
    rw [entry_eq hi]
    rfl
  · refine update_eq_self_iff.mpr ?_
    rw [up_eq hi]
    exact hr.symm
  · exact update_eq_self_iff.mpr (links_eq hi).symm

variable (hi : fs.inodes i = none)
include hi

/-- Nothing holds of an inode that was not published. -/
lemma not_exists_of_none (P : RamFsInode → Prop) : ¬∃ m, fs.inodes i = some m ∧ P m := by
  rintro ⟨m, hm, -⟩
  exact some_ne_none m (hm.symm.trans hi)

/-- A new directory is empty, has two links and records its place. -/
lemma tree_publish_dir (r : ParentState) :
    (fs.publish i { RamFsInode.newDir with parent := some r }).tree = { fs.tree with
        dirs := insert i fs.tree.dirs
        up := update fs.tree.up i (some (r.parent, r.name))
        links := update fs.tree.links i 2 } := by
  have hout := not_exists_of_none hi
  rw [publish, tree_update]
  refine NamedTree.ext ?_ ?_ ?_ ?_ rfl rfl
  · ext j
    change (if j = i then _ else j ∈ fs.tree.dirs) ↔ j = i ∨ j ∈ fs.tree.dirs
    split_ifs with hj
    · exact iff_of_true ⟨rfl, rfl⟩ (.inl hj)
    · exact (or_iff_right hj).symm
  · exact setOf_ite_eq (iff_of_false (hout _) fun h => nomatch h.2)
  · exact setOf_ite_eq (iff_of_false (hout _) nofun)
  · refine update_eq_self_iff.mpr (funext fun name => ?_)
    change _ = (fs.inodes i).bind _
    rw [hi]
    rfl

/-- A new file is a leaf with one link. -/
lemma tree_publish_leaf (hdir : n.isDir = false) (hlinks : n.nlink = 1) :
    (fs.publish i { n with parent := none }).tree = { fs.tree with
        leaves := insert i fs.tree.leaves
        links := update fs.tree.links i 1 } := by
  have hout := not_exists_of_none hi
  have hnot : ¬n.isDir = true := by
    rw [hdir]
    exact Bool.false_ne_true
  rw [publish, tree_update]
  refine NamedTree.ext ?_ ?_ ?_ ?_ ?_ ?_
  · exact setOf_ite_eq (iff_of_false (hout _) fun h => hnot h.1)
  · exact setOf_ite_eq (iff_of_false (hout _) fun h => hnot h.1)
  · ext j
    change (if j = i then _ else j ∈ fs.tree.leaves) ↔ j = i ∨ j ∈ fs.tree.leaves
    split_ifs with hj
    · exact iff_of_true hdir (.inl hj)
    · exact (or_iff_right hj).symm
  · refine update_eq_self_iff.mpr (funext fun name => ?_)
    have hnone : n.dirEntries = none := by
      rcases h : n.dirEntries with _ | entries
      · rfl
      · exact absurd (RamFsInode.isDir_iff.mpr ⟨entries, h⟩) hnot
    change n.dirEntries.bind _ = (fs.inodes i).bind _
    rw [hi, hnone]
    rfl
  · refine update_eq_self_iff.mpr ?_
    change _ = (fs.inodes i).bind _
    rw [hi]
    rfl
  · exact congrArg (update fs.tree.links i) hlinks

end RamFs

/-! ## Directory maps -/

section Directories

variable {entries : DirectoryMap} {name : String} {c : Ino} {backing : Option ℕ}

/-- A backing that is large enough is installed and leaves the entries. -/
lemma installAdmittedBacking_eq (entries : DirectoryMap) (backing : Option ℕ)
    (h : entries.len ≤ backing.getD entries.capacity) :
    ∃ installed : DirectoryMap, installAdmittedBacking entries backing = some installed ∧
      installed.assoc = entries.assoc ∧ installed.capacity = backing.getD entries.capacity := by
  rcases backing with _ | capacity
  · exact ⟨entries, rfl, rfl, rfl⟩
  · refine ⟨_, dif_pos h, rfl, rfl⟩

/-- An insertion for which there is room does not fail. -/
lemma commitDirectoryInsert_eq (hname : entries.get name = none)
    (hroom : entries.len + 1 ≤ backing.getD entries.capacity) (c : Ino) :
    ∃ inserted : DirectoryMap, commitDirectoryInsert entries backing name c = some (true, inserted) ∧
      inserted.get = update entries.get name (some c) := by
  obtain ⟨installed, hinstall, hassoc, hcapacity⟩ :=
    installAdmittedBacking_eq entries backing (Nat.le_of_succ_le hroom)
  have hget : installed.get = entries.get := funext (get_of_assoc hassoc)
  have hlen := len_of_assoc hassoc
  obtain ⟨inserted, hinsert, -, -⟩ := insertUniqueReserved_eq_some
    (m := installed) (k := name) (by rw [hget, hname]) (by omega) c
  refine ⟨inserted, ?_, ?_⟩
  · unfold commitDirectoryInsert
    rw [hinstall, bind_eq_bind, bind_some, hinsert]
  funext k
  by_cases hk : k = name
  · rw [hk, update_self]
    exact get_insertUniqueReserved_self hinsert
  · rw [update_of_ne hk, get_insertUniqueReserved_of_ne hinsert hk, hget]

/-- A removal whose compacted backing is large enough does not fail. -/
lemma commitDirectoryRemove_eq (hname : entries.get name = some c)
    (hroom : entries.len - 1 ≤ backing.getD entries.capacity) :
    ∃ removed : DirectoryMap, commitDirectoryRemove entries name backing = some (c, removed) ∧
      removed.get = update entries.get name none ∧ removed.len + 1 = entries.len ∧
      removed.capacity = backing.getD entries.capacity := by
  have hlen : (entries.remove name).len + 1 = entries.len := SortedAssoc.length_erase hname
  obtain ⟨removed, hinstall, hassoc, hcapacity⟩ :=
    installAdmittedBacking_eq (entries.remove name) backing
      (by change _ ≤ backing.getD entries.capacity; omega)
  refine ⟨removed, ?_, ?_, ?_, hcapacity⟩
  · unfold commitDirectoryRemove
    rw [hname, bind_eq_bind, bind_some, hinstall]
    rfl
  · funext k
    rw [get_of_assoc hassoc]
    by_cases hk : k = name
    · rw [hk, update_self, get_remove_self]
    · rw [update_of_ne hk, get_remove_of_ne hk]
  · rw [← hlen, len_of_assoc hassoc]

/-- The entries fit into their backing. -/
lemma len_le_capacity (entries : DirectoryMap) : entries.len ≤ entries.capacity :=
  entries.length_le

/-- A backing prepared for one entry less holds the entries that remain. -/
lemma le_prepareDirectoryCompaction (heap : Heap) (entries : DirectoryMap) :
    entries.len - 1 ≤ (prepareDirectoryCompaction heap (entries.len - 1)).getD entries.capacity := by
  have hcap := len_le_capacity entries
  unfold prepareDirectoryCompaction
  split_ifs with hzero
  · rw [getD_some]
    omega
  rcases heap.compact with _ | extra
  · rw [map_none, getD_none]
    omega
  rw [map_some, getD_some]
  omega

/-- A prepared capacity is at least the required one. -/
lemma le_preparedDirectoryCapacity {heap : Heap} {required capacity : ℕ}
    (h : preparedDirectoryCapacity heap required = .ok capacity) : required ≤ capacity := by
  rw [preparedDirectoryCapacity, okOr_eq_ok, map_eq_some_iff] at h
  obtain ⟨extra, -, rfl⟩ := h
  exact Nat.le_add_right required extra

end Directories

end Nilix.Vfs
