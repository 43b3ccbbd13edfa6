import Nilix.Foundation.Climb
import Nilix.Vfs.MountTable
import Nilix.Vfs.PathWalk

/-!
# The mounts of a view form a tree

`MountView.Tree` is what the mount table is to keep: parents in the same view, the root above every
mount, no directory covered twice, and every mount entered at the directory that it covers.
`MountView.Inv` is the invariant that carries it: every parent is, as an object, the mount of the view
with its ID, so that the parents of a mount are smaller than the mount.

`umount`, `pivot_root` and copies keep the invariant.  A new mount keeps it if and only if the directory
that it covers is on a mount of the view and is not covered yet, which the source does not check.
-/

namespace Nilix.Vfs

open SortedAssoc Option

/-! ## The contract -/

namespace MountView

/-- The ID of the parent of a mount of the view. -/
def parentOf (v : MountView) (id : ℕ) : Option ℕ := (v.mounts.get? id).bind Mount.parentId

/-- The mounts of a view form a tree whose mounts can be entered. -/
structure Tree (base : World) (v : MountView) : Prop where
  /-- Every mount except the root has its parent in the view. -/
  parent_mem : ∀ m ∈ v.values, v.root ≠ some m.id →
    ∃ id, m.parentId = some id ∧ v.mounts.get? id ≠ none
  /-- Following parents ends at the root. -/
  climbs : ∀ m ∈ v.values, ∃ root, v.root = some root ∧ v.parentOf root = none ∧
    Climbs v.parentOf m.id root
  /-- No two mounts cover the same directory. -/
  unique : ∀ m ∈ v.values, ∀ n ∈ v.values, ∀ point, m.point = some point →
    n.point = some point → m = n
  /-- A mount is entered at the directory that it covers. -/
  entered : ∀ m ∈ v.values, ∀ point, m.point = some point → ∀ now c (p : ResolvedPath),
    point = (p.mount.id, p.inode) → c.searches (base.at_ now) p.inode = .ok () →
    crossDown (base.at_ now) v c false p = .ok (m.root (base.at_ now) v.epoch)

/-- The invariant of a view. -/
structure Inv (base : World) (v : MountView) : Prop where
  /-- The mount without parent is the root. -/
  base_root : ∀ m ∈ v.values, m.place = none → v.root = some m.id
  /-- The root is a mount without parent. -/
  root_base : ∀ root, v.root = some root → ∃ m, v.mounts.get? root = some m ∧ m.place = none
  /-- The parent of a mount is a mount of the view, and the mount does not cover its root. -/
  parent_mem : ∀ m ∈ v.values, ∀ parent covered, m.place = some (parent, covered) →
    parent ∈ v.values ∧ covered.ino ≠ base.rootIno parent.fs
  /-- No two mounts cover the same directory. -/
  unique : ∀ m ∈ v.values, ∀ n ∈ v.values, ∀ point, m.point = some point →
    n.point = some point → m = n

variable {base : World} {v : MountView} {m n : Mount}

end MountView

namespace Mount

variable {m parent : Mount} {covered : Inode} {point : ℕ × Inode}

lemma parentId_eq (h : m.place = some (parent, covered)) : m.parentId = some parent.id := by
  rw [parentId, h, map_some]

lemma point_eq (h : m.place = some (parent, covered)) : m.point = some (parent.id, covered) := by
  rw [Mount.point, h, map_some]

/-- A mount with a covered directory has a parent. -/
lemma of_point (h : m.point = some point) :
    ∃ parent, m.place = some (parent, point.2) ∧ parent.id = point.1 := by
  obtain ⟨⟨parent, covered⟩, hplace, rfl⟩ := map_eq_some_iff.mp h
  exact ⟨parent, hplace, rfl⟩

lemma sizeOf_place (h : m.place = some (parent, covered)) : sizeOf parent < sizeOf m := by
  cases m with
  | base => exact nomatch h
  | covering =>
    cases h
    decreasing_tactic

end Mount

namespace MountView

variable {base : World} {v : MountView} {m n : Mount}

lemma Inv.parentOf_root (h : v.Inv base) {root : ℕ} (hroot : v.root = some root) :
    v.parentOf root = none := by
  obtain ⟨m, hm, hplace⟩ := h.root_base root hroot
  rw [parentOf, hm, bind_some, Mount.parentId, hplace, map_none]

lemma Inv.climbs (h : v.Inv base) (hm : m ∈ v.values) :
    ∃ root, v.root = some root ∧ v.parentOf root = none ∧ Climbs v.parentOf m.id root := by
  induction m with
  | base id =>
    have hroot := h.base_root _ hm rfl
    exact ⟨id, hroot, h.parentOf_root hroot, .refl id⟩
  | covering id fs parent covered ih =>
    obtain ⟨root, hroot, htop, hclimbs⟩ := ih (h.parent_mem _ hm parent covered rfl).1
    refine ⟨root, hroot, htop, hclimbs.head ?_⟩
    rw [parentOf, MountView.mem_values.mp hm, bind_some, Mount.parentId_eq rfl]

variable {p : ResolvedPath}

lemma Inv.crossing_eq (h : v.Inv base) (hm : m ∈ v.values)
    (hpoint : m.point = some (p.mount.id, p.inode)) : v.crossing p = some m := by
  have hsome : (v.crossing p).isSome = true :=
    List.find?_isSome.mpr ⟨m, hm, decide_eq_true hpoint⟩
  obtain ⟨n, hn⟩ := isSome_iff_exists.mp hsome
  obtain ⟨hmem, hpoint'⟩ := of_crossing hn
  rw [hn, h.unique m hm n hmem _ hpoint hpoint']

lemma Inv.crossing_root (h : v.Inv base) (hm : m ∈ v.values) (now : World) (epoch : ℕ) :
    v.crossing (m.root (base.at_ now) epoch) = none := by
  rcases hcross : v.crossing (m.root (base.at_ now) epoch) with _ | n
  · rfl
  obtain ⟨hn, hpoint⟩ := of_crossing hcross
  obtain ⟨parent, hplace, hid⟩ := Mount.of_point hpoint
  obtain ⟨hparent, hino⟩ := h.parent_mem n hn parent _ hplace
  rw [eq_of_id hparent hm hid] at hino
  exact absurd rfl hino

lemma Inv.tree (h : v.Inv base) : v.Tree base where
  parent_mem m hm hne := by
    rcases hplace : m.place with _ | ⟨parent, covered⟩
    · exact absurd (h.base_root m hm hplace) hne
    have hparent := (h.parent_mem m hm parent covered hplace).1
    refine ⟨parent.id, Mount.parentId_eq hplace, ?_⟩
    rw [MountView.mem_values.mp hparent]
    exact some_ne_none parent
  climbs m hm := h.climbs hm
  unique := h.unique
  entered m hm point hpoint now c p hp hsearch := by
    subst hp
    change crossDownFor (base.at_ now) v c false (4094 + 1 + 1) p = _
    unfold crossDownFor
    rw [h.crossing_eq hm hpoint]
    rw [hsearch]
    change crossDownFor (base.at_ now) v c false (4094 + 1) _ = _
    unfold crossDownFor
    rw [h.crossing_root hm now]

/-! ## New and removed mounts -/

lemma mem_values_put (hfresh : v.mounts.get? m.id = none) :
    n ∈ (v.put m).values ↔ n = m ∨ n ∈ v.values := by
  rw [mem_values, mem_values]
  change (v.mounts.insert m.id m).get? n.id = some n ↔ _
  by_cases hid : n.id = m.id
  · rw [hid, get?_insert_self, hfresh]
    constructor
    · exact fun h => .inl (some.inj h).symm
    rintro (rfl | h)
    · rfl
    · cases h
  rw [get?_insert_of_ne hid]
  constructor
  · exact .inr
  rintro (rfl | h)
  · exact absurd rfl hid
  · exact h

variable {id : ℕ}

lemma mem_values_remove : n ∈ (v.remove id).values ↔ n ∈ v.values ∧ n.id ≠ id := by
  rw [mem_values, mem_values]
  change (v.mounts.erase id).get? n.id = some n ↔ _
  by_cases hid : n.id = id
  · rw [hid, get?_erase_self]
    exact iff_of_false nofun fun h => h.2 rfl
  rw [get?_erase_of_ne hid]
  exact ⟨fun h => ⟨h, hid⟩, fun h => h.1⟩

/-- What `mount` should check of the directory that is to be covered: it is on a mount of the view,
and not covered yet. -/
def Uncovered (v : MountView) (covered : ResolvedPath) : Prop :=
  v.mounts.get? covered.mount.id ≠ none ∧
    ∀ m ∈ v.values, m.point ≠ some (covered.mount.id, covered.inode)

lemma Inv.put (h : v.Inv base) {fs : FsRef} (hfresh : v.mounts.get? id = none)
    (hcanonical : v.Canonical p.mount) (hp : v.Uncovered p)
    (hino : p.inode.ino ≠ base.rootIno p.mount.fs) :
    (v.put (.covering id fs p.mount p.inode)).Inv base := by
  have hmem : ∀ n, n ∈ (v.put (.covering id fs p.mount p.inode)).values ↔
      n = .covering id fs p.mount p.inode ∨ n ∈ v.values := fun n => mem_values_put hfresh
  have hparent : p.mount ∈ v.values := hcanonical.mem_or.resolve_right hp.1
  refine ⟨fun m hm hplace => ?_, fun root hroot => ?_, fun m hm parent covered hplace => ?_,
    fun m hm n hn point hpm hpn => ?_⟩
  · rcases (hmem m).mp hm with rfl | hm
    · cases hplace
    · exact h.base_root m hm hplace
  · obtain ⟨m, hget, hplace⟩ := h.root_base root hroot
    have hne : root ≠ id := by
      rintro rfl
      rw [hfresh] at hget
      cases hget
    refine ⟨m, ?_, hplace⟩
    exact (get?_insert_of_ne hne).trans hget
  · rcases (hmem m).mp hm with rfl | hm
    · cases hplace
      exact ⟨(hmem _).mpr (.inr hparent), hino⟩
    · obtain ⟨hin, hcovered⟩ := h.parent_mem m hm parent covered hplace
      exact ⟨(hmem parent).mpr (.inr hin), hcovered⟩
  · rcases (hmem m).mp hm with rfl | hm <;> rcases (hmem n).mp hn with rfl | hn
    · rfl
    · exact absurd (hpn.trans hpm.symm) (hp.2 n hn)
    · exact absurd (hpm.trans hpn.symm) (hp.2 m hm)
    · exact h.unique m hm n hn point hpm hpn

lemma Inv.putRoot (h : v.Inv base) (hroot : v.root = none) (id : ℕ) (fs : FsRef) :
    (v.insertMount id fs none).Inv base := by
  -- without a root there are no mounts
  have hempty : ∀ m, m ∉ v.values := by
    intro m hm
    obtain ⟨root, hsome, -⟩ := h.climbs hm
    rw [hroot] at hsome
    cases hsome
  have hfresh : v.mounts.get? id = none := by
    rcases hget : v.mounts.get? id with _ | m
    · rfl
    refine absurd (mem_values.mpr ?_) (hempty m)
    rw [v.keyed id m hget, hget]
  have hmem : ∀ n, n ∈ (v.insertMount id fs none).values ↔ n = .base id fs := by
    intro n
    refine (mem_values_put hfresh).trans ⟨fun hn => hn.resolve_right (hempty n), .inl⟩
  refine ⟨fun m hm _ => ?_, fun root hsome => ?_, fun m hm parent covered hplace => ?_,
    fun m hm n hn _ _ _ => ?_⟩
  · rw [(hmem m).mp hm]
    rfl
  · cases hsome
    exact ⟨.base id fs, get?_insert_self .., rfl⟩
  · rw [(hmem m).mp hm] at hplace
    cases hplace
  · rw [(hmem m).mp hm, (hmem n).mp hn]

/-- A mount without children that is not the root is removed. -/
lemma Inv.remove (h : v.Inv base) (hroot : v.root ≠ some id)
    (hleaf : ∀ m ∈ v.values, m.parentId ≠ some id) : (v.remove id).Inv base := by
  refine ⟨fun m hm hplace => ?_, fun root hsome => ?_, fun m hm parent covered hplace => ?_,
    fun m hm n hn => ?_⟩
  · exact h.base_root m (mem_values_remove.mp hm).1 hplace
  · obtain ⟨m, hget, hplace⟩ := h.root_base root hsome
    have hne : root ≠ id := by
      rintro rfl
      exact hroot hsome
    exact ⟨m, (get?_erase_of_ne hne).trans hget, hplace⟩
  · obtain ⟨hm, -⟩ := mem_values_remove.mp hm
    obtain ⟨hin, hcovered⟩ := h.parent_mem m hm parent covered hplace
    refine ⟨mem_values_remove.mpr ⟨hin, fun hid => ?_⟩, hcovered⟩
    exact hleaf m hm (hid ▸ Mount.parentId_eq hplace)
  · exact h.unique m (mem_values_remove.mp hm).1 n (mem_values_remove.mp hn).1

/-- A mount on a directory that is covered, or not on a mount of the view, breaks the tree. -/
lemma not_tree_put {fs : FsRef} (hfresh : v.mounts.get? id = none) (hroot : v.root ≠ some id)
    (hp : ¬v.Uncovered p) : ¬(v.put (.covering id fs p.mount p.inode)).Tree base := by
  intro h
  have hmem : ∀ n, n ∈ (v.put (.covering id fs p.mount p.inode)).values ↔
      n = .covering id fs p.mount p.inode ∨ n ∈ v.values := fun n => mem_values_put hfresh
  have hnew := (hmem (.covering id fs p.mount p.inode)).mpr (.inl rfl)
  refine hp ⟨fun hnone => ?_, fun n hn hpoint => ?_⟩
  · obtain ⟨parent, hparent, hin⟩ := h.parent_mem _ hnew hroot
    cases hparent
    by_cases hself : p.mount.id = id
    · -- the mount would be its own parent
      obtain ⟨root, hsome, htop, hclimbs⟩ := h.climbs _ hnew
      have hup : (v.put (.covering id fs p.mount p.inode)).parentOf id = some id := by
        change ((v.mounts.insert id _).get? id).bind Mount.parentId = some id
        rw [get?_insert_self, bind_some, Mount.parentId_eq rfl, hself]
      exact hclimbs.not_back htop hup (.refl id)
    · exact hin ((get?_insert_of_ne hself).trans hnone)
  · have hsame := h.unique _ hnew n ((hmem n).mpr (.inr hn)) _ (Mount.point_eq rfl) hpoint
    rw [← hsame] at hn
    exact nomatch hfresh.symm.trans (mem_values.mp hn)

end MountView

end Nilix.Vfs
