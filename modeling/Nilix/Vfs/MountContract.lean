import Nilix.Foundation.GuardedRun
import Nilix.Vfs.MountPivot

/-!
# The mount table over whole runs

Every call except `mount` and `mount_in_namespace` keeps the mounts of every view a tree.  These two
keep it exactly when the directory that they cover is on a mount of the caller's view and is not covered
yet.  `insert_mount` checks neither: a saved current directory may lie under a mount or on an unmounted
file system, and `resolve` does not enter mounts from there.
-/

namespace Nilix.Vfs

open Function Option

namespace MountTables

open MountView

/-! ## Preparations -/

section Prepare

variable {base : World} {v : MountView} {call : Call} {name : List Char} {fs : FsRef}

/-- What the checks of `insert_mount` ensure of the directory to be covered. -/
def Coverable (base : World) (v : MountView) : Option ResolvedPath → Prop
  | some p => v.Canonical p.mount ∧ p.inode.ino ≠ base.rootIno p.mount.fs
  | none => v.root = none

lemma canonical_of_find {w : World} {c : OperationContext} {p : ResolvedPath}
    (h : v.find w c name = .ok p) : v.Canonical p.mount := by
  obtain ⟨r, hr, h⟩ := bind_eq_ok h
  have hcanonical := canonical_of_resolve hr
  cases r with
  | found =>
    cases h
    exact hcanonical
  | missing => exact nomatch h

variable {covered : Option ResolvedPath}

lemma of_checkInsert (h : v.checkInsert (base.at_ call.now) covered fs = .ok ())
    (hcanonical : ∀ p ∈ covered, v.Canonical p.mount) : Coverable base v covered := by
  replace h := ok_of_check h
  obtain ⟨⟨⟩, hcovered, -⟩ := bind_eq_ok h
  cases covered with
  | none =>
    have hroot : v.root = none := ensure_eq_ok.mp hcovered
    exact hroot
  | some p =>
    obtain ⟨⟨⟩, -, hino⟩ := bind_eq_ok hcovered
    exact ⟨hcanonical p rfl, ensure_eq_ok.mp hino⟩

lemma coverable_of_prepareMount {expected : ResolvedPath}
    (h : prepareMount base v call name fs expected = .ok covered) : Coverable base v covered := by
  replace h := ok_of_check h
  replace h := ok_of_check h
  obtain ⟨current, hcurrent, h⟩ := bind_eq_ok h
  replace h := ok_of_check h
  obtain ⟨⟨⟩, hcheck, h⟩ := bind_eq_ok h
  cases h
  refine of_checkInsert hcheck fun p hp => ?_
  cases hp
  exact canonical_of_find hcurrent

lemma coverable_of_prepareSetup (h : prepareSetup base v call name fs = .ok covered) :
    Coverable base v covered := by
  unfold prepareSetup at h
  split_ifs at h
  · replace h := ok_of_check h
    obtain ⟨⟨⟩, hcheck, h⟩ := bind_eq_ok h
    cases h
    exact of_checkInsert hcheck nofun
  replace h := ok_of_check h
  obtain ⟨context, -, h⟩ := bind_eq_ok h
  obtain ⟨current, hcurrent, h⟩ := bind_eq_ok h
  obtain ⟨⟨⟩, hcheck, h⟩ := bind_eq_ok h
  cases h
  refine of_checkInsert hcheck fun p hp => ?_
  cases hp
  exact canonical_of_find hcurrent

/-- What the checks of `umount` ensure. -/
lemma of_prepareUmount {target : ResolvedPath} {id : ℕ}
    (h : prepareUmount base v call name target = .ok id) :
    v.root ≠ some id ∧ ∀ m ∈ v.values, m.parentId ≠ some id := by
  replace h := ok_of_check h
  replace h := ok_of_check h
  obtain ⟨current, -, h⟩ := bind_eq_ok h
  replace h := ok_of_check h
  obtain ⟨⟨⟩, hcheck, h⟩ := bind_eq_ok h
  cases h
  obtain ⟨⟨⟩, hroot, hcheck⟩ := bind_eq_ok hcheck
  obtain ⟨⟨⟩, hleaf, -⟩ := bind_eq_ok hcheck
  rw [ensure_eq_ok, not_or] at hroot
  exact ⟨fun heq => hroot.1 heq.symm, ensure_eq_ok.mp hleaf⟩

/-- What the checks of `pivot_root` ensure. -/
structure PivotReady (w : World) (v : MountView) (newRoot putOld oldRoot : ResolvedPath) : Prop where
  old_root : v.rootPath w = .ok oldRoot
  mount_ne : newRoot.mount.id ≠ oldRoot.mount.id
  new_mem : newRoot.mount ∈ v.values
  put_old : putOld.mount = newRoot.mount
  put_old_ne : putOld.same newRoot = false
  beneath : isBeneath w v newRoot true putOld = .ok true
  free : ∀ m ∈ v.values, m.point ≠ some (newRoot.mount.id, putOld.inode)

lemma of_checkPivot {newName oldName : List Char}
    {expectedNew expectedOld newRoot putOld oldRoot : ResolvedPath}
    (h : checkPivot base v call newName oldName expectedNew expectedOld =
      .ok (newRoot, putOld, oldRoot)) :
    v.pivotPair (base.at_ call.now) call.context call.uid newName oldName = .ok (newRoot, putOld) ∧
      v.rootPath (base.at_ call.now) = .ok oldRoot := by
  replace h := ok_of_check h
  obtain ⟨⟨newRoot', putOld'⟩, hpair, h⟩ := bind_eq_ok h
  replace h := ok_of_check h
  replace h := ok_of_check h
  replace h := ok_of_check h
  obtain ⟨oldRoot', holdRoot, h⟩ := bind_eq_ok h
  obtain ⟨rfl, hrest⟩ := Prod.mk.inj (Except.ok.inj h)
  cases hrest
  exact ⟨hpair, holdRoot⟩

lemma PivotReady.of_pivotPair {w : World} {c : OperationContext} {uid : ℕ}
    {newName oldName : List Char} {newRoot putOld oldRoot : ResolvedPath}
    (h : v.pivotPair w c uid newName oldName = .ok (newRoot, putOld))
    (holdRoot : v.rootPath w = .ok oldRoot) : PivotReady w v newRoot putOld oldRoot := by
  replace h := ok_of_check h
  obtain ⟨root, hroot, h⟩ := bind_eq_ok h
  obtain ⟨processRoot, -, h⟩ := bind_eq_ok h
  replace h := ok_of_check h
  obtain ⟨new, hnew, h⟩ := bind_eq_ok h
  obtain ⟨old, hold, h⟩ := bind_eq_ok h
  replace h := ok_of_check h
  replace h := ok_of_check h
  obtain ⟨⟨⟩, hcheck, h⟩ := bind_eq_ok h
  obtain ⟨beneath, hbeneath, h⟩ := bind_eq_ok h
  obtain ⟨⟨⟩, htrue, h⟩ := bind_eq_ok h
  obtain ⟨⟨⟩, hfree, h⟩ := bind_eq_ok h
  cases h
  rw [ensure_eq_ok] at hcheck htrue hfree
  rw [htrue] at hbeneath
  cases hroot.symm.trans holdRoot
  rw [not_or, not_or, not_or, not_or, not_or, not_not, not_not] at hcheck
  obtain ⟨hne, hin, -, -, hid, hsame⟩ := hcheck
  have hmem := (canonical_of_find hnew).mem_or.resolve_right hin
  have hmem' := (canonical_of_find hold).mem_or.resolve_right (hid ▸ hin)
  have hmount := eq_of_id hmem' hmem hid
  refine ⟨hroot, hne, hmem, hmount, by rwa [Bool.not_eq_true] at hsame, hbeneath, ?_⟩
  rw [← hid]
  exact hfree

end Prepare

/-! ## One call -/

/-- The invariant of all views; new mounts get new IDs. -/
structure Inv (base : World) (s : MountTables) : Prop where
  view : ∀ ns v, s.views ns = some v → v.Inv base
  fresh : ∀ ns v, s.views ns = some v → ∀ m ∈ v.values, m.id < s.nextMount

/-- The directory that a call would cover. -/
def covers (base : World) (v : MountView) : MountCall → Option ResolvedPath
  | .mount _ call name fs expected _ =>
    (prepareMount base v call name fs expected).toOption.join
  | .setup _ call name fs _ => (prepareSetup base v call name fs).toOption.join
  | _ => none

/-- If a call makes a mount, it covers a directory on a mount of the view that is not covered yet. -/
def Guarded (base : World) (s : MountTables) (e : MountCall) : Prop :=
  (s.exec base e).1 = .ok () → ∀ v, s.views e.source = some v → ∀ p, covers base v e = some p →
    v.Uncovered p

section Exec

variable {base : World} {s : MountTables} {ns : ℕ} {v v' : MountView}

lemma Inv.get?_nextMount (h : s.Inv base) (hv : s.views ns = some v) :
    v.mounts.get? s.nextMount = none := by
  rcases hget : v.mounts.get? s.nextMount with _ | m
  · rfl
  have hid := v.keyed s.nextMount m hget
  rw [← hid] at hget
  exact absurd hid (h.fresh ns v hv m (mem_values.mpr hget)).ne

lemma Inv.root_ne_nextMount (h : s.Inv base) (hv : s.views ns = some v) :
    v.root ≠ some s.nextMount := by
  intro hroot
  obtain ⟨m, hm, -⟩ := (h.view ns v hv).root_base _ hroot
  rw [h.get?_nextMount hv] at hm
  cases hm

lemma Inv.setView (h : s.Inv base) (next : MountTables) (hviews : next.views = s.views)
    (hnext : s.nextMount ≤ next.nextMount) (hv : v'.Inv base)
    (hfresh : ∀ m ∈ v'.values, m.id < next.nextMount) (ns : ℕ) : (next.setView ns v').Inv base := by
  have hcases : ∀ ns' v, (next.setView ns v').views ns' = some v → v = v' ∨ s.views ns' = some v := by
    intro ns' v hv
    change update next.views ns (some v') ns' = some v at hv
    rw [update_apply, hviews] at hv
    split_ifs at hv
    · exact .inl (some.inj hv).symm
    · exact .inr hv
  refine ⟨fun ns' v hv' => ?_, fun ns' v hv' m hm => ?_⟩
  · rcases hcases ns' v hv' with rfl | hv'
    · exact hv
    · exact h.view ns' v hv'
  rcases hcases ns' v hv' with rfl | hv'
  · exact hfresh m hm
  · exact (h.fresh ns' v hv' m hm).trans_le hnext

lemma Inv.of_views (h : s.Inv base) {next : MountTables} (hviews : next.views = s.views)
    (hnext : s.nextMount ≤ next.nextMount) : next.Inv base := by
  refine ⟨fun ns v hv => ?_, fun ns v hv m hm => ?_⟩
  · rw [hviews] at hv
    exact h.view ns v hv
  rw [hviews] at hv
  exact (h.fresh ns v hv m hm).trans_le hnext

variable {allocates : Bool}

lemma Inv.commitMount (h : s.Inv base) (hv : s.views ns = some v) {fs : FsRef}
    {covered : Option ResolvedPath} (hcovered : Coverable base v covered)
    (hguard : (s.commitMount ns v fs allocates covered).1 = .ok () →
      ∀ p, covered = some p → v.Uncovered p) :
    (s.commitMount ns v fs allocates covered).2.Inv base := by
  unfold MountTables.commitMount at hguard ⊢
  split_ifs at hguard ⊢
  · have hfresh := h.get?_nextMount hv
    have hnew : ∀ m, v.mounts.get? m.id = none → m.id = s.nextMount →
        ∀ n ∈ (v.put m).values, n.id < s.nextMount + 1 := by
      intro m hm hid n hn
      rcases (mem_values_put hm).mp hn with rfl | hn
      · rw [hid]
        exact lt_add_one _
      · exact (h.fresh ns v hv n hn).trans (lt_add_one _)
    let next : MountTables := { s with nextMount := s.nextMount + 1 }
    cases covered with
    | none =>
      refine h.setView next rfl (Nat.le_succ _) ((h.view ns v hv).putRoot hcovered s.nextMount fs) ?_ ns
      exact hnew (.base s.nextMount fs) hfresh rfl
    | some p =>
      refine h.setView next rfl (Nat.le_succ _) ?_ ?_ ns
      · exact (h.view ns v hv).put hfresh hcovered.1 (hguard rfl p rfl) hcovered.2
      · exact hnew (.covering s.nextMount fs p.mount p.inode) hfresh rfl
  · exact h.of_views rfl (Nat.le_succ _)
  · exact h

lemma Inv.commitPivot (h : s.Inv base) (hv : s.views ns = some v) {call : Call}
    {admits : ℕ → Bool} {newRoot putOld oldRoot : ResolvedPath}
    (hready : PivotReady (base.at_ call.now) v newRoot putOld oldRoot) :
    (s.commitPivot base ns v call admits newRoot putOld oldRoot).2.Inv base := by
  unfold MountTables.commitPivot
  split_ifs
  · split
    · exact h.of_views rfl le_rfl
    · rename_i v' hprepare
      obtain ⟨hrebuilt, -⟩ := Rebuilt.of_preparePivot hprepare
      have hino : putOld.inode.ino ≠ base.rootIno newRoot.mount.fs := by
        have hmem := hready.new_mem
        rw [← hready.put_old] at hmem ⊢
        change putOld.inode.ino ≠ (base.at_ call.now).rootIno putOld.mount.fs
        exact (h.view ns v hv).ino_ne_of_isBeneath hmem (congrArg Mount.id hready.put_old.symm)
          hready.put_old_ne hready.beneath
      refine h.setView { s with nextEpoch := s.nextEpoch + 1 } rfl le_rfl ?_ ?_ ns
      · exact (h.view ns v hv).rebuilt hrebuilt hready.new_mem hino hready.free
      intro m hm
      have hin : v.mounts.get? m.id ≠ none := by
        refine hrebuilt.mem_old ?_ ?_
        · rw [mem_values.mp hready.new_mem]
          exact some_ne_none _
        rw [mem_values.mp hm]
        exact some_ne_none _
      obtain ⟨old, hold⟩ := ne_none_iff_exists'.mp hin
      have hid := v.keyed m.id old hold
      rw [← hid] at hold ⊢
      exact h.fresh ns v hv old (mem_values.mpr hold)
  · exact h

lemma commit_ok {α : Type} {prepared : Except FsError α} {a : α} (h : prepared = .ok a)
    (change : α → Except FsError Unit × MountTables) : s.commit prepared change = change a := by
  rw [h]
  rfl

section

variable (h : s.Inv base)
include h

lemma Inv.commit {α : Type} {prepared : Except FsError α}
    {change : α → Except FsError Unit × MountTables}
    (hchange : ∀ a, prepared = .ok a → (change a).2.Inv base) :
    (s.commit prepared change).2.Inv base := by
  cases prepared with
  | error => exact h
  | ok a => exact hchange a rfl

lemma Inv.callView {e : MountCall} (hv : s.views e.source = some v)
    (hguard : (s.callView base v e).1 = .ok () → ∀ p, covers base v e = some p → v.Uncovered p) :
    (s.callView base v e).2.Inv base := by
  cases e with
  | mount =>
    refine h.commit fun covered hprepare => ?_
    refine h.commitMount hv (coverable_of_prepareMount hprepare) fun hok p hp => hguard ?_ p ?_
    · exact (congrArg Prod.fst (commit_ok hprepare _)).trans hok
    rw [covers, hprepare, hp]
    rfl
  | setup =>
    refine h.commit fun covered hprepare => ?_
    refine h.commitMount hv (coverable_of_prepareSetup hprepare) fun hok p hp => hguard ?_ p ?_
    · exact (congrArg Prod.fst (commit_ok hprepare _)).trans hok
    rw [covers, hprepare, hp]
    rfl
  | umount ns =>
    refine h.commit fun id hprepare => ?_
    obtain ⟨hroot, hleaf⟩ := of_prepareUmount hprepare
    refine h.setView s rfl le_rfl ((h.view ns v hv).remove hroot hleaf) (fun m hm => ?_) ns
    exact h.fresh ns v hv m (mem_values_remove.mp hm).1
  | pivotRoot =>
    refine h.commit fun checked hcheck => ?_
    obtain ⟨newRoot, putOld, oldRoot⟩ := checked
    obtain ⟨hpair, hroot⟩ := of_checkPivot hcheck
    exact h.commitPivot hv (PivotReady.of_pivotPair hpair hroot)
  | copy child parent =>
    dsimp only [MountTables.callView]
    split_ifs
    · exact h
    · exact h.setView s rfl le_rfl (h.view parent v hv) (h.fresh parent v hv) child
    · exact h
  | removeNamespace ns =>
    have hold : ∀ ns' v, update s.views ns none ns' = some v → s.views ns' = some v := by
      intro ns' v hv
      rw [update_apply] at hv
      split_ifs at hv
      exact hv
    exact ⟨fun ns' v hv => h.view ns' v (hold ns' v hv), fun ns' v hv => h.fresh ns' v (hold ns' v hv)⟩

lemma Inv.exec (e : MountCall) (hguard : s.Guarded base e) : (s.exec base e).2.Inv base := by
  unfold Guarded at hguard
  unfold MountTables.exec at hguard ⊢
  rcases hv : s.views e.source with _ | v
  · exact h
  rw [hv] at hguard
  exact h.callView hv fun hok => hguard hok v rfl

lemma uncovered_of_commit (hv : s.views ns = some v) {fs : FsRef} {p : ResolvedPath}
    {prepared : Except FsError (Option ResolvedPath)} (hp : prepared.toOption.join = some p)
    (hok : (s.commit prepared (s.commitMount ns v fs allocates)).1 = .ok ())
    (htree : ∀ ns' v', (s.commit prepared (s.commitMount ns v fs allocates)).2.views ns' = some v' →
      v'.Tree base) : v.Uncovered p := by
  cases prepared with
  | error => cases hp
  | ok covered =>
    obtain rfl : covered = some p := hp
    unfold commit commitMount at hok htree
    dsimp only at hok htree
    split_ifs at hok htree
    by_contra hcovered
    have hnew := htree ns (v.insertMount s.nextMount fs (some p)) (update_self ..)
    exact not_tree_put (h.get?_nextMount hv) (h.root_ne_nextMount hv) hcovered hnew

lemma Inv.guarded (e : MountCall)
    (htree : ∀ ns v, (s.exec base e).2.views ns = some v → v.Tree base) : s.Guarded base e := by
  intro hok v hv p hp
  unfold MountTables.exec at hok htree
  rw [hv] at hok htree
  cases e with
  | mount | setup => exact uncovered_of_commit h hv hp hok htree
  | umount | pivotRoot | copy | removeNamespace => exact nomatch hp

end

lemma inv_initial (base : World) (fs : FsRef) : (initial fs).Inv base := by
  have hempty : MountView.empty.Inv base :=
    ⟨nofun, fun _ h => (nomatch h), nofun, nofun⟩
  have hview : ∀ ns v, (initial fs).views ns = some v →
      v = MountView.empty.insertMount 1 fs none := by
    intro ns v hv
    change update (fun _ => none) 0 _ ns = some v at hv
    rw [update_apply] at hv
    split_ifs at hv
    exact (some.inj hv).symm
  refine ⟨fun ns v hv => ?_, fun ns v hv m hm => ?_⟩
  · rw [hview ns v hv]
    exact hempty.putRoot rfl 1 fs
  rw [hview ns v hv] at hm
  rw [List.mem_singleton.mp hm]
  exact Nat.lt_succ_self 1

end Exec

/-! ## Whole runs -/

/-- What a pivot makes of a view: the same mount IDs, the new root without parent, the old root at
`put_old`, and every other mount where it was. -/
structure Pivoted (v v' : MountView) (newRoot putOld oldRoot : ResolvedPath) : Prop where
  ids : ∀ id, v'.mounts.get? id ≠ none ↔ v.mounts.get? id ≠ none
  root : v'.root = some newRoot.mount.id
  new_root : ∃ m, v'.mounts.get? newRoot.mount.id = some m ∧ m.place = none
  old_root : ∃ m, v'.mounts.get? oldRoot.mount.id = some m ∧
    m.point = some (newRoot.mount.id, putOld.inode)
  other : ∀ m ∈ v.values, m.id ≠ newRoot.mount.id → m.id ≠ oldRoot.mount.id →
    ∃ m', v'.mounts.get? m.id = some m' ∧ m'.point = m.point ∧ m'.fs = m.fs

section Run

variable {base : World} {s : MountTables} {ns : ℕ} {v v' : MountView}

/-- The rebuilt mount of a mount that is not the new root. -/
lemma exists_replaced {w : World} {newRoot putOld : ResolvedPath}
    {oldRootId : ℕ} (h : Rebuilt w v newRoot putOld oldRootId v') (hlen : v.len ≤ v'.len)
    (hnew : newRoot.mount ∈ v.values) {m : Mount} (hm : m ∈ v.values)
    (hne : m.id ≠ newRoot.mount.id) :
    ∃ m' point, v'.mounts.get? m.id = some m' ∧ m'.point = some point ∧ m'.fs = m.fs ∧
      pivotEdge newRoot putOld oldRootId m = .ok point := by
  have hnone : ∀ n ∈ v.values, v.mounts.get? n.id ≠ none := by
    intro n hn
    rw [mem_values.mp hn]
    exact some_ne_none n
  obtain ⟨m', hm'⟩ := ne_none_iff_exists'.mp
    ((h.mem_iff hlen (hnone _ hnew) m.id).mpr (hnone m hm))
  have hid := v'.keyed m.id m' hm'
  have hmem : m' ∈ v'.values := mem_values.mpr (by rw [hid, hm'])
  obtain ⟨parent, -, covered, heq, hedge, -⟩ :=
    h.other_of_mem hmem (hid ▸ hne) (hid ▸ mem_values.mp hm)
  exact ⟨m', (parent.id, covered), hm', by rw [heq]; rfl, by rw [heq]; rfl, hedge⟩

variable {admits : ℕ → Bool}

lemma PivotReady.pivoted {w : World} {newRoot putOld oldRoot : ResolvedPath} {epoch : ℕ}
    (h : PivotReady w v newRoot putOld oldRoot)
    (hprepare : v.preparePivot w newRoot putOld oldRoot epoch admits = .ok v') :
    Pivoted v v' newRoot putOld oldRoot := by
  obtain ⟨hrebuilt, hlen⟩ := Rebuilt.of_preparePivot hprepare
  have hnew : v.mounts.get? newRoot.mount.id ≠ none := by
    rw [mem_values.mp h.new_mem]
    exact some_ne_none _
  refine ⟨hrebuilt.mem_iff hlen hnew, hrebuilt.root, ?_, ?_, fun m hm hne hold => ?_⟩
  · exact ⟨.base newRoot.mount.id newRoot.mount.fs, mem_values.mp hrebuilt.root_mem, rfl⟩
  · have hmem := (MountView.of_rootPath h.old_root).1
    obtain ⟨m, point, hm, hpoint, -, hedge⟩ := exists_replaced hrebuilt hlen h.new_mem hmem h.mount_ne.symm
    rw [pivotEdge, if_pos rfl] at hedge
    rw [← Except.ok.inj hedge] at hpoint
    exact ⟨m, hm, hpoint⟩
  · obtain ⟨m', point, hm', hpoint, hfs, hedge⟩ := exists_replaced hrebuilt hlen h.new_mem hm hne
    rw [pivotEdge, if_neg hold, okOr_eq_ok] at hedge
    exact ⟨m', hm', hpoint.trans hedge.symm, hfs⟩

/-- A pivot fails and changes no view, or it puts a pivoted view in the place of the old one. -/
lemma pivot_cases (call : Call) (newName oldName : List Char)
    (expectedNew expectedOld : ResolvedPath) :
    let r := s.exec base (.pivotRoot ns call newName oldName expectedNew expectedOld admits)
    (r.1 ≠ .ok () ∧ r.2.views = s.views) ∨
      r.1 = .ok () ∧ ∃ v v' newRoot putOld oldRoot, s.views ns = some v ∧
        v.pivotPair (base.at_ call.now) call.context call.uid newName oldName =
          .ok (newRoot, putOld) ∧
        v.rootPath (base.at_ call.now) = .ok oldRoot ∧
        r.2.views = update s.views ns (some v') ∧ Pivoted v v' newRoot putOld oldRoot := by
  unfold exec
  dsimp only [MountCall.source]
  rcases hv : s.views ns with _ | v
  · exact .inl ⟨nofun, rfl⟩
  dsimp only [callView]
  rcases hcheck : checkPivot base v call newName oldName expectedNew expectedOld with
    e | ⟨newRoot, putOld, oldRoot⟩
  · exact .inl ⟨nofun, rfl⟩
  obtain ⟨hpair, hroot⟩ := of_checkPivot hcheck
  dsimp only [commit, commitPivot]
  split_ifs
  · rcases hprepare : v.preparePivot (base.at_ call.now) newRoot putOld oldRoot s.nextEpoch admits
      with e | v'
    · exact .inl ⟨nofun, rfl⟩
    · exact .inr ⟨rfl, v, v', newRoot, putOld, oldRoot, rfl, hpair, hroot, rfl,
        (PivotReady.of_pivotPair hpair hroot).pivoted hprepare⟩
  · exact .inl ⟨nofun, rfl⟩

end Run

/-- In a run from one root mount the mounts of every view always form a tree if and only if every
mount that was made covers a directory which is on a mount of the view and not covered yet.  A
successful `pivot_root` keeps the mount IDs, makes the new root parentless, attaches the old root at
`put_old` and leaves every other mount where it was; a failed one changes no view.

The tree does not say that its directories still have a name: a process in a directory that was removed
can mount on it, and such a mount is in the tree although no path leads to it, to resolve or to unmount. -/
theorem mount_tables_tree (base : World) (fs : FsRef) (calls : List MountCall) :
    ((∀ done rest, calls = done ++ rest →
        ∀ ns v, ((initial fs).run base done).views ns = some v → v.Tree base) ↔
      ∀ done e rest, calls = done ++ e :: rest → ((initial fs).run base done).Guarded base e) ∧
    ∀ (s : MountTables) (ns : ℕ) (call : Call) (newName oldName : List Char)
      (expectedNew expectedOld : ResolvedPath) (admits : ℕ → Bool),
      ((s.exec base (.pivotRoot ns call newName oldName expectedNew expectedOld admits)).1 =
          .ok () →
        ∃ v v' newRoot putOld oldRoot, s.views ns = some v ∧
          v.pivotPair (base.at_ call.now) call.context call.uid newName oldName =
            .ok (newRoot, putOld) ∧
          v.rootPath (base.at_ call.now) = .ok oldRoot ∧
          (s.exec base (.pivotRoot ns call newName oldName expectedNew expectedOld admits)).2.views =
            update s.views ns (some v') ∧
          Pivoted v v' newRoot putOld oldRoot) ∧
      ((s.exec base (.pivotRoot ns call newName oldName expectedNew expectedOld admits)).1 ≠
          .ok () →
        (s.exec base (.pivotRoot ns call newName oldName expectedNew expectedOld admits)).2.views =
          s.views) := by
  refine ⟨?_, fun s ns call newName oldName expectedNew expectedOld admits => ?_⟩
  · exact good_iff_guarded (fun s h ns v hv => (h.view ns v hv).tree)
      (fun s e h hguard => h.exec e hguard) (fun s e h htree => h.guarded e htree) calls
      (inv_initial base fs)
  · rcases pivot_cases call newName oldName expectedNew expectedOld with ⟨hne, hviews⟩ | ⟨hok, hpivot⟩
    · exact ⟨fun hok => absurd hok hne, fun _ => hviews⟩
    · exact ⟨fun _ => hpivot, fun hne => absurd hok hne⟩

/-! ## A directory covered twice -/

/-- A file system whose root has the child `a`. -/
def childWorld : World where
  fsId fs := fs
  rootIno _ := 0
  isProc _ := false
  lookup fs i name := if i.ino = 0 ∧ name = ['a'] then .ok ⟨fs, 1⟩ else .error .notFound
  directoryParent fs i := if i.ino = 1 then .ok (some ⟨⟨fs, 0⟩, ['a'], true⟩) else .ok none
  kind _ := .dir
  stat _ := .ok ⟨0, 0, 0, 0⟩
  readLink _ := .error .invalid

/-- The root, and its child `a`, on the first mount. -/
def childPath (ino : ℕ) : ResolvedPath := ⟨.base 1 0, ⟨0, ino⟩, 0⟩

/-- A privileged process with the given current directory. -/
def callIn (cwd : ResolvedPath) : Call where
  now := childWorld
  context := ⟨some (childPath 0), some cwd, fun _ => true, fun _ _ => true⟩
  uid := 0
  early := none

/-- One process mounts on `a`; then another one, whose current directory is `a`, mounts on `.`. -/
def coverTwice : List MountCall :=
  [.mount 0 (callIn (childPath 0)) ['a'] 1 (childPath 1) true,
    .mount 0 (callIn (childPath 1)) ['.'] 2 (childPath 1) true]

/-- `a` is the directory that the second process has found as its current directory, and after both
calls the view has two mounts on it.  The second one is hidden while the first one stays. -/
theorem mount_covers_twice :
    (∃ v, (initial 0).views 0 = some v ∧ v.find childWorld (callIn (childPath 0)).context ['a'] =
      .ok (childPath 1)) ∧
    ∃ v, ((initial 0).run childWorld coverTwice).views 0 = some v ∧
      .covering 2 1 (.base 1 0) ⟨0, 1⟩ ∈ v.values ∧ .covering 3 2 (.base 1 0) ⟨0, 1⟩ ∈ v.values ∧
      ¬v.Tree childWorld := by
  refine ⟨⟨_, rfl, by decide +kernel⟩, ?_⟩
  have hviews : (((initial 0).run childWorld coverTwice).views 0).map values =
      some [.base 1 0, .covering 2 1 (.base 1 0) ⟨0, 1⟩, .covering 3 2 (.base 1 0) ⟨0, 1⟩] := by
    decide +kernel
  obtain ⟨v, hv, hvalues⟩ := map_eq_some_iff.mp hviews
  have hfirst : .covering 2 1 (.base 1 0) ⟨0, 1⟩ ∈ v.values := by
    rw [hvalues]
    decide
  have hsecond : .covering 3 2 (.base 1 0) ⟨0, 1⟩ ∈ v.values := by
    rw [hvalues]
    decide
  refine ⟨v, hv, hfirst, hsecond, fun htree => ?_⟩
  exact nomatch htree.unique _ hfirst _ hsecond (1, ⟨0, 1⟩) rfl rfl

end MountTables

end Nilix.Vfs
