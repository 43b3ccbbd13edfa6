import Nilix.Vfs.MountTree

/-!
# `pivot_root` rebuilds the tree

`prepare_pivot` builds the new view from the new root downwards, in passes over the old mounts.
`Rebuilt` is its loop invariant: what has been built so far is the new root, and mounts attached where
`pivotEdge` says, to mounts built before.
-/

namespace Nilix.Vfs

namespace MountView

/-- What `prepare_pivot` has built so far. -/
structure Rebuilt (w : World) (v : MountView) (newRoot putOld : ResolvedPath) (oldRootId : ℕ)
    (next : MountView) : Prop where
  root : next.root = some newRoot.mount.id
  root_mem : .base newRoot.mount.id newRoot.mount.fs ∈ next.values
  other : ∀ m ∈ next.values, m.id ≠ newRoot.mount.id → ∃ source ∈ v.values,
    ∃ parent ∈ next.values, ∃ covered, m = .covering source.id source.fs parent covered ∧
      pivotEdge newRoot putOld oldRootId source = .ok (parent.id, covered) ∧
      covered.fsId = w.fsId parent.fs

variable {w : World} {v next next' : MountView} {newRoot putOld : ResolvedPath} {oldRootId : ℕ}
  {admits : ℕ → Bool} {source : Mount}

/-- What one round of the inner loop does: nothing, or it attaches a mount. -/
lemma pivotVisit_cases (h : pivotVisit w newRoot putOld oldRootId admits next source = .ok next') :
    next' = next ∨ next.mounts.get? source.id = none ∧ ∃ parent ∈ next.values, ∃ covered,
      next' = next.put (.covering source.id source.fs parent covered) ∧
      pivotEdge newRoot putOld oldRootId source = .ok (parent.id, covered) ∧
      covered.fsId = w.fsId parent.fs := by
  unfold pivotVisit at h
  split_ifs at h with hbuilt
  · exact .inl (Except.ok.inj h).symm
  rw [not_not] at hbuilt
  obtain ⟨⟨parentId, covered⟩, hedge, h⟩ := bind_eq_ok h
  dsimp only at h
  rcases hget : next.mounts.get? parentId with _ | parent
  · rw [hget] at h
    exact .inl (Except.ok.inj h).symm
  rw [hget] at h
  obtain ⟨⟨⟩, hfs, h⟩ := bind_eq_ok h
  replace h := ok_of_check h
  have hid := next.keyed parentId parent hget
  rw [← hid] at hget hedge
  exact .inr ⟨hbuilt, parent, mem_values.mpr hget, covered, (Except.ok.inj h).symm, hedge,
    ensure_eq_ok.mp hfs⟩

lemma Rebuilt.visit (h : Rebuilt w v newRoot putOld oldRootId next) (hsource : source ∈ v.values)
    (hvisit : pivotVisit w newRoot putOld oldRootId admits next source = .ok next') :
    Rebuilt w v newRoot putOld oldRootId next' := by
  obtain rfl | ⟨hfresh, parent, hparent, covered, rfl, hedge, hfs⟩ := pivotVisit_cases hvisit
  · exact h
  have hmem : ∀ n, n ∈ (next.put (.covering source.id source.fs parent covered)).values ↔
      n = .covering source.id source.fs parent covered ∨ n ∈ next.values :=
    fun n => mem_values_put hfresh
  refine ⟨h.root, (hmem _).mpr (.inr h.root_mem), fun m hm hne => ?_⟩
  rcases (hmem m).mp hm with rfl | hm
  · exact ⟨source, hsource, parent, (hmem parent).mpr (.inr hparent), covered, rfl, hedge, hfs⟩
  obtain ⟨source', hsource', parent', hparent', rest⟩ := h.other m hm hne
  exact ⟨source', hsource', parent', (hmem parent').mpr (.inr hparent'), rest⟩

lemma len_le_visit (hvisit : pivotVisit w newRoot putOld oldRootId admits next source = .ok next') :
    next.len ≤ next'.len := by
  obtain rfl | ⟨hfresh, parent, -, covered, rfl, -⟩ := pivotVisit_cases hvisit
  · exact le_rfl
  have hlen := SortedAssoc.length_insert hfresh (.covering source.id source.fs parent covered)
  exact (Nat.le_succ _).trans hlen.ge

lemma Rebuilt.pass (h : Rebuilt w v newRoot putOld oldRootId next)
    (hpass : v.pivotPass w newRoot putOld oldRootId admits next = .ok next') :
    Rebuilt w v newRoot putOld oldRootId next' ∧ next.len ≤ next'.len := by
  refine invariant_of_foldlM
    (fun s => Rebuilt w v newRoot putOld oldRootId s ∧ next.len ≤ s.len) ?_ ⟨h, le_rfl⟩ hpass
  intro s source hsource s' hs hvisit
  exact ⟨hs.1.visit hsource hvisit, hs.2.trans (len_le_visit hvisit)⟩

/-- The outer loop keeps the invariant, and has built all mounts when it ends. -/
lemma Rebuilt.rounds {rounds : ℕ} (h : Rebuilt w v newRoot putOld oldRootId next)
    (hrounds : v.len ≤ next.len + rounds)
    (hloop : v.pivotRounds w newRoot putOld oldRootId admits rounds next = .ok next') :
    Rebuilt w v newRoot putOld oldRootId next' ∧ v.len ≤ next'.len := by
  induction rounds generalizing next with
  | zero =>
    cases hloop
    exact ⟨h, hrounds⟩
  | succ rounds ih =>
    unfold pivotRounds at hloop
    split_ifs at hloop with hless
    · obtain ⟨passed, hpass, hloop⟩ := bind_eq_ok hloop
      obtain ⟨⟨⟩, hmore, hloop⟩ := bind_eq_ok hloop
      rw [ensure_eq_ok] at hmore
      obtain ⟨hpassed, hle⟩ := h.pass hpass
      have hlt : next.len < passed.len := lt_of_le_of_ne hle hmore
      refine ih hpassed ?_ hloop
      omega
    cases hloop
    exact ⟨h, Nat.le_of_not_lt hless⟩

/-- What `prepare_pivot` returns. -/
lemma Rebuilt.of_preparePivot {oldRoot : ResolvedPath} {epoch : ℕ}
    (h : v.preparePivot w newRoot putOld oldRoot epoch admits = .ok next) :
    Rebuilt w v newRoot putOld oldRoot.mount.id next ∧ v.len ≤ next.len := by
  replace h := ok_of_check h
  refine Rebuilt.rounds ⟨rfl, List.mem_singleton_self _, fun m hm hne => ?_⟩ (by omega) h
  rw [List.mem_singleton.mp hm] at hne
  exact absurd rfl hne

/-! ## The result -/

section Result

variable {oldRoot : ResolvedPath} {m : Mount}

section

variable (h : Rebuilt w v newRoot putOld oldRootId next)
include h

lemma Rebuilt.mem_old
    (hnew : v.mounts.get? newRoot.mount.id ≠ none) {id : ℕ} (hid : next.mounts.get? id ≠ none) :
    v.mounts.get? id ≠ none := by
  obtain ⟨m, hm⟩ := Option.ne_none_iff_exists'.mp hid
  obtain rfl := next.keyed id m hm
  by_cases hne : m.id = newRoot.mount.id
  · rw [hne]
    exact hnew
  obtain ⟨source, hsource, parent, -, covered, rfl, -⟩ := h.other m (mem_values.mpr hm) hne
  change v.mounts.get? source.id ≠ none
  rw [mem_values.mp hsource]
  exact Option.some_ne_none source

lemma Rebuilt.mem_iff (hlen : v.len ≤ next.len)
    (hnew : v.mounts.get? newRoot.mount.id ≠ none) (id : ℕ) :
    next.mounts.get? id ≠ none ↔ v.mounts.get? id ≠ none :=
  ⟨h.mem_old hnew, SortedAssoc.get?_ne_none_of_length_le (fun _ => h.mem_old hnew) hlen⟩

/-- A mount of the new view that is not its root, with the mount of the old view that it replaces. -/
lemma Rebuilt.other_of_mem (hm : m ∈ next.values)
    (hne : m.id ≠ newRoot.mount.id) {old : Mount} (hold : v.mounts.get? m.id = some old) :
    ∃ parent ∈ next.values, ∃ covered, m = .covering old.id old.fs parent covered ∧
      pivotEdge newRoot putOld oldRootId old = .ok (parent.id, covered) ∧
      covered.fsId = w.fsId parent.fs := by
  obtain ⟨source, hsource, parent, hparent, covered, rfl, hedge, hfs⟩ := h.other m hm hne
  obtain rfl := Option.some.inj ((mem_values.mp hsource).symm.trans hold)
  exact ⟨parent, hparent, covered, rfl, hedge, hfs⟩

/-- A new mount has the file system of the mount that it replaces. -/
lemma Rebuilt.fs_eq
    (hnew : newRoot.mount ∈ v.values) (hm : m ∈ next.values) {old : Mount} (hold : old ∈ v.values)
    (hid : old.id = m.id) : m.fs = old.fs := by
  by_cases hne : m.id = newRoot.mount.id
  · rw [eq_of_id hm h.root_mem hne, eq_of_id hold hnew (hid.trans hne)]
    rfl
  have hget := mem_values.mp hold
  rw [hid] at hget
  obtain ⟨parent, -, covered, rfl, -⟩ := h.other_of_mem hm hne hget
  rfl

/-- A covered directory of the new view is where `pivotEdge` attaches the mount. -/
lemma Rebuilt.source_of_point
    (hm : m ∈ next.values) {point : ℕ × Inode} (hpoint : m.point = some point) :
    ∃ source ∈ v.values, source.id = m.id ∧ pivotEdge newRoot putOld oldRootId source = .ok point := by
  by_cases hid : m.id = newRoot.mount.id
  · rw [eq_of_id hm h.root_mem hid] at hpoint
    cases hpoint
  obtain ⟨source, hsource, parent, -, covered, rfl, hedge, -⟩ := h.other m hm hid
  cases hpoint
  exact ⟨source, hsource, rfl, hedge⟩

end

end Result

/-! ## The invariant -/

section Invariant

variable {base : World} {p b : ResolvedPath} {start m : Mount}

/-- The way up from a mount of the view passes smaller mounts of the view. -/
lemma Inv.of_onWayUp (h : v.Inv base) (hstart : start ∈ v.values) (hm : OnWayUp v start m) :
    m ∈ v.values ∧ sizeOf m ≤ sizeOf start := by
  induction hm with
  | start => exact ⟨hstart, le_rfl⟩
  | @up m parent covered _ hplace ih =>
    have hparent := (h.parent_mem m ih.1 parent covered hplace).1
    rw [canonical_of_mem hparent]
    exact ⟨hparent, (Mount.sizeOf_place hplace).le.trans ih.2⟩

/-- The root of a mount is not beneath another directory of this mount. -/
lemma Inv.ino_ne_of_isBeneath (h : v.Inv base) {visible : Bool} (hp : p.mount ∈ v.values)
    (hid : b.mount.id = p.mount.id) (hne : p.same b = false)
    (hbeneath : isBeneath w v b visible p = .ok true) : p.inode.ino ≠ w.rootIno p.mount.fs := by
  intro hino
  have hcanonical := canonical_of_mem hp
  change isBeneathFor w v b visible (4095 + 1) p = .ok true at hbeneath
  unfold isBeneathFor at hbeneath
  rw [hne, if_neg Bool.false_ne_true] at hbeneath
  obtain ⟨found, hfound, hbeneath⟩ := bind_eq_ok hbeneath
  rcases found with _ | ⟨up, name, attached⟩
  · cases hbeneath
  dsimp only at hbeneath
  split_ifs at hbeneath
  -- from the root of the mount one comes to its parent, which is smaller
  have hup : ∃ parent covered, p.mount.place = some (parent, covered) ∧ up.mount = v.current parent := by
    obtain ⟨-, ⟨-, -, parent, covered, hplace, ⟨hmount, -⟩ | ⟨-, hmount, -⟩⟩ | ⟨hother, -⟩⟩ :=
      parent_cases hcanonical hfound
    · exact ⟨parent, covered, hplace, hmount⟩
    · exact ⟨parent, covered, hplace, hmount⟩
    · exact absurd hino hother
  obtain ⟨parent, covered, hplace, hmount⟩ := hup
  have hparent := (h.parent_mem p.mount hp parent covered hplace).1
  rw [canonical_of_mem hparent] at hmount
  obtain ⟨m, hway, hmid⟩ :=
    exists_onWayUp_of_isBeneath (canonical_of_parent hcanonical hfound) .start hbeneath
  rw [hmount] at hway
  obtain ⟨hm, hsize⟩ := h.of_onWayUp hparent hway
  rw [eq_of_id hm hp (hmid.trans hid)] at hsize
  exact absurd (Mount.sizeOf_place hplace) (not_lt.mpr hsize)

lemma Inv.rebuilt (h : v.Inv base) (hnext : Rebuilt w v newRoot putOld oldRootId next)
    (hnew : newRoot.mount ∈ v.values) (hino : putOld.inode.ino ≠ base.rootIno newRoot.mount.fs)
    (hfree : ∀ m ∈ v.values, m.point ≠ some (newRoot.mount.id, putOld.inode)) : next.Inv base := by
  have hroot : ∀ m ∈ next.values, m.id = newRoot.mount.id →
      m = .base newRoot.mount.id newRoot.mount.fs :=
    fun m hm hid => eq_of_id hm hnext.root_mem hid
  refine ⟨fun m hm hplace => ?_, fun root hsome => ?_, fun m hm parent covered hplace => ?_,
    fun m hm n hn point hpm hpn => ?_⟩
  · by_cases hid : m.id = newRoot.mount.id
    · rw [hid]
      exact hnext.root
    · obtain ⟨source, -, parent, -, covered, rfl, -⟩ := hnext.other m hm hid
      cases hplace
  · cases hnext.root.symm.trans hsome
    exact ⟨.base newRoot.mount.id newRoot.mount.fs, mem_values.mp hnext.root_mem, rfl⟩
  · by_cases hid : m.id = newRoot.mount.id
    · rw [hroot m hm hid] at hplace
      cases hplace
    obtain ⟨source, hsource, parent', hparent, covered', rfl, hedge, -⟩ := hnext.other m hm hid
    cases hplace
    refine ⟨hparent, ?_⟩
    unfold pivotEdge at hedge
    split_ifs at hedge
    · obtain ⟨hnewId, rfl⟩ := Prod.mk.inj (Except.ok.inj hedge)
      rw [hroot _ hparent hnewId.symm]
      exact hino
    obtain ⟨old, hold, hid⟩ := Mount.of_point (okOr_eq_ok.mp hedge)
    obtain ⟨hmem, hcovered⟩ := h.parent_mem source hsource old _ hold
    rw [hnext.fs_eq hnew hparent hmem hid]
    exact hcovered
  · obtain ⟨source, hsource, hid, hedge⟩ := hnext.source_of_point hm hpm
    obtain ⟨source', hsource', hid', hedge'⟩ := hnext.source_of_point hn hpn
    refine eq_of_id hm hn ?_
    rw [← hid, ← hid']
    unfold pivotEdge at hedge hedge'
    split_ifs at hedge hedge' with hold hold' hold'
    · exact hold.trans hold'.symm
    · rw [← Except.ok.inj hedge, okOr_eq_ok] at hedge'
      exact absurd hedge' (hfree source' hsource')
    · rw [← Except.ok.inj hedge', okOr_eq_ok] at hedge
      exact absurd hedge (hfree source hsource)
    · rw [okOr_eq_ok] at hedge hedge'
      rw [h.unique source hsource source' hsource' point hedge hedge']

end Invariant

end MountView

end Nilix.Vfs
