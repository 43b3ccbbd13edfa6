import Nilix.Cap.Partition

/-!
# Forked capability tables

The child table of `try_clone_for_fork`, and the walk of `reconcile_refcounts_after_fork` over it:
neither faults, the child is partitioned without reservations, and it makes nothing live that was not
live in the parent.
-/

namespace Nilix.Cap

open List Option

namespace CapTableInner

/-! ## The copy and the free list of the child -/

/-- What a child inherits from a slot of its parent. -/
def inherited (slot : Option CapSlot) : Option CapSlot :=
  slot.filter fun s => s.entry.inheritsOnFork

/-- The copy loop fills the vacant tail of its destination with what is inherited. -/
lemma copyInherited_ok (src pre : List (Option CapSlot)) (dst : BoundedVec (Option CapSlot))
    (hdst : dst.values = pre ++ replicate src.length none) :
    ∃ dst', copyInherited pre.length src dst = .ok dst' ∧
      dst'.values = pre ++ src.map inherited := by
  induction src generalizing pre dst with
  | nil => exact ⟨dst, rfl, by simpa using hdst⟩
  | cons slot rest ih =>
    have hlen : (pre ++ [inherited slot]).length = pre.length + 1 := by simp
    -- The destination after this position has been settled one way or the other.
    have hnext : ∀ dst1 : BoundedVec (Option CapSlot),
        dst1.values = pre ++ [inherited slot] ++ replicate rest.length none →
        ∃ dst', copyInherited (pre.length + 1) rest dst1 = .ok dst' ∧
          dst'.values = pre ++ (slot :: rest).map inherited := by
      intro dst1 h1
      obtain ⟨dst', hok, hvalues⟩ := ih _ dst1 h1
      rw [hlen] at hok
      exact ⟨dst', hok, by rw [hvalues]; simp⟩
    have hskip : inherited slot = none →
        dst.values = pre ++ [inherited slot] ++ replicate rest.length none := by
      intro hnone
      rw [hdst, hnone, append_assoc]
      rfl
    cases slot with
    | none => exact hnext dst (hskip rfl)
    | some s =>
      rw [copyInherited]
      by_cases hinh : s.entry.inheritsOnFork = true
      · have hlt : pre.length < dst.values.length := by simp [hdst]
        have hs : inherited (some s) = some s := by simp [inherited, hinh]
        simp only [hinh, if_true, hlt]
        refine hnext (dst.set pre.length (some s)) ?_
        rw [BoundedVec.values_set, hdst, hs, set_append_right _ _ le_rfl]
        simp [replicate_succ]
      have hs : inherited (some s) = none := by simp [inherited, hinh]
      simp only [hinh]
      exact hnext dst (hskip hs)

/-- The body of the loop of `rebuild_free_list`. -/
private lemma pushVacant_ok (slots : List (Option CapSlot)) (l : List ℕ) (free : BoundedVec ℕ)
    (hl : ∀ i ∈ l, i < 2 ^ 16) (hroom : free.values.length + l.length ≤ free.capacity) :
    ∃ free', l.foldlM (fun free i => if (slots[i]?.join).isNone then pushWithin free (i % 2 ^ 16)
        else .ok free) free = .ok free' ∧ free'.capacity = free.capacity ∧
      free'.values = free.values ++ l.filter fun i => (slots[i]?.join).isNone := by
  induction l generalizing free with
  | nil => exact ⟨free, rfl, rfl, by simp⟩
  | cons i l ih =>
    rw [length_cons] at hroom
    have hrest : ∀ j ∈ l, j < 2 ^ 16 := fun j hj => hl j (mem_cons_of_mem _ hj)
    rw [foldlM_cons, filter_cons]
    by_cases hvacant : (slots[i]?.join).isNone = true
    · obtain ⟨free1, hpush, hv1, hc1⟩ :=
        BoundedVec.push?_eq_some (show free.values.length < free.capacity by omega) i
      obtain ⟨free2, hfold, hc2, hv2⟩ :=
        ih free1 hrest (by rw [hv1, hc1, length_append, length_singleton]; omega)
      have hmod : i % 2 ^ 16 = i := Nat.mod_eq_of_lt (hl i mem_cons_self)
      refine ⟨free2, ?_, hc2.trans hc1, ?_⟩
      · simp only [hvacant, if_true, pushWithin, hmod, hpush]
        exact hfold
      rw [hv2, hv1]
      simp [hvacant]
    · obtain ⟨free2, hfold, hc2, hv2⟩ := ih free hrest (by omega)
      refine ⟨free2, ?_, hc2, ?_⟩
      · simp only [hvacant]
        exact hfold
      rw [hv2]
      simp [hvacant]

variable {t : CapTableInner}

/-- `rebuild_free_list` does not fault when the backing has room for every slot: the free list is
then the list of the vacant indices. -/
lemma rebuildFreeList_ok (hlen : t.slots.values.length ≤ maxCapSlots)
    (hcap : t.slots.values.length ≤ t.free.capacity) :
    ∃ free, t.rebuildFreeList = .ok { t with free := free } ∧ free.capacity = t.free.capacity ∧
      free.values = (range t.slots.values.length).filter fun i =>
        (t.slots.values[i]?.join).isNone := by
  have hlt : ∀ i ∈ range t.slots.values.length, i < 2 ^ 16 := fun i hi =>
    ((mem_range.mp hi).trans_le hlen).trans (by decide)
  obtain ⟨free, hfold, hc, hv⟩ := pushVacant_ok t.slots.values _ t.free.clear hlt
    (by simpa [BoundedVec.clear] using hcap)
  refine ⟨free, ?_, hc, by simpa using hv⟩
  simp only [rebuildFreeList, hfold, ok_bind, pure_eq_ok]

/-- A free list of the vacant indices partitions a table without reservations. -/
lemma partitioned_of_vacant (hres : t.reservedAllocations = 0)
    (hlen : t.slots.values.length ≤ maxCapSlots) (hcap : t.slots.values.length ≤ t.free.capacity)
    (hfree : t.free.values = (range t.slots.values.length).filter fun i =>
      (t.slots.values[i]?.join).isNone) : Partitioned t [] := by
  refine ⟨SlotPartition.of_vacant ?_ ?_, hres, hlen, hcap⟩
  · rw [hfree]
    exact nodup_range.filter _
  intro i
  rw [hfree, mem_filter, mem_range]
  unfold occupied
  cases t.slots.values[i]?.join <;> simp

/-! ## The two operations -/

variable {tokens : List PreparedCapAllocation} (h : Partitioned t tokens)
include h

/-- `try_clone_for_fork` does not fault.  The child is partitioned without reservations, inherits the
generation counter, and makes nothing live. -/
lemma Partitioned.tryCloneForFork (env : ForkEnv) :
    t.tryCloneForFork env = .ok none ∨
      ∃ child, t.tryCloneForFork env = .ok (some child) ∧ Partitioned child [] ∧ Keeps t child := by
  unfold CapTableInner.tryCloneForFork
  extract_lets capacity
  have hcapacity : capacity = t.slots.values.length := min_eq_left h.slots_le
  split
  · rename_i c d _ _
    split_ifs with hadm
    · right
      obtain ⟨slots, hcopy, hslots⟩ := copyInherited_ok t.slots.values []
        ⟨replicate capacity none, c.1, by simpa using c.2⟩ (by simp only [hcapacity]; rfl)
      rw [nil_append] at hslots
      have hlen : slots.values.length = t.slots.values.length := by rw [hslots, length_map]
      have hd : slots.values.length ≤ d.1 := by rw [hlen, ← hcapacity]; exact d.2
      obtain ⟨free, hrebuild, hfcap, hfree⟩ := rebuildFreeList_ok
        (t := ⟨slots, ⟨[], d.1, Nat.zero_le _⟩, t.nextGeneration, 0⟩)
        (hlen.trans_le h.slots_le) hd
      have hpart : Partitioned ⟨slots, free, t.nextGeneration, 0⟩ [] :=
        partitioned_of_vacant rfl (hlen.trans_le h.slots_le) (hfcap ▸ hd) hfree
      have hkeeps : Keeps t ⟨slots, free, t.nextGeneration, 0⟩ := by
        refine ⟨rfl, fun i g hg => ?_⟩
        unfold liveGeneration at hg ⊢
        rw [hslots, getElem?_map] at hg
        obtain ⟨slot, hslot, rfl⟩ := map_eq_some_iff.mp hg
        obtain ⟨o, ho, hinh⟩ := map_eq_some_iff.mp (join_eq_some_iff.mp hslot)
        obtain ⟨rfl, -⟩ := filter_eq_some_iff.mp hinh
        rw [ho]
        rfl
      obtain ⟨hpart', hkeeps'⟩ := hpart.reclaimIfUnused
      refine ⟨_, ?_, hpart', hkeeps.trans hkeeps'⟩
      simp only [length_nil] at hcopy
      simp [hcopy, hrebuild]
    · exact .inl rfl
  · exact .inl rfl

lemma Partitioned.reconcileSlot (counts : List (CapId × ℕ)) {idx : ℕ}
    (hidx : idx < t.slots.values.length) :
    ∃ t', t.reconcileSlot counts idx = .ok t' ∧ Partitioned t' tokens ∧ Keeps t t' ∧
      t'.slots.values.length = t.slots.values.length := by
  unfold CapTableInner.reconcileSlot
  split
  · rename_i hnone
    rw [getElem?_eq_none_iff] at hnone
    omega
  · exact ⟨t, rfl, h, Keeps.refl t, rfl⟩
  · rename_i slot hslot
    split_ifs with hfd
    · extract_lets cid n
      split_ifs with hzero
      · obtain ⟨r, t', hrevoke, hpart, hkeeps, hlen⟩ := h.revokeRetainingCapacity cid
        refine ⟨t', ?_, hpart, hkeeps, hlen⟩
        simp [hrevoke]
      obtain ⟨hpart, hkeeps⟩ := h.replaceSlot hslot
        (show CapSlot.generation { slot with entry := { slot.entry with refcount := n } } =
          slot.generation from rfl)
      exact ⟨_, rfl, hpart, hkeeps, by simp⟩
    · exact ⟨t, rfl, h, Keeps.refl t, rfl⟩

/-- `reconcile_refcounts_after_fork` does not fault and makes nothing live. -/
lemma Partitioned.reconcileRefcountsAfterFork (counts : List (CapId × ℕ)) :
    ∃ t', t.reconcileRefcountsAfterFork counts = .ok t' ∧ Partitioned t' tokens ∧ Keeps t t' := by
  obtain ⟨t1, hfold, hpart, hkeeps, -⟩ := foldlM_ok_of_invariant
    (f := CapTableInner.reconcileSlot counts) (l := range t.slots.values.length)
    (fun s => Partitioned s tokens ∧ Keeps t s ∧ s.slots.values.length = t.slots.values.length)
    (fun s idx hidx hs => by
      obtain ⟨hpart, hkeeps, hlen⟩ := hs
      have hlt : idx < s.slots.values.length := hlen ▸ mem_range.mp hidx
      obtain ⟨s', hok, hpart', hkeeps', hlen'⟩ := hpart.reconcileSlot counts hlt
      exact ⟨s', hok, hpart', hkeeps.trans hkeeps', hlen'.trans hlen⟩)
    ⟨h, Keeps.refl t, rfl⟩
  obtain ⟨hpart', hkeeps'⟩ := hpart.reclaimIfUnused
  refine ⟨_, ?_, hpart', hkeeps.trans hkeeps'⟩
  simp [CapTableInner.reconcileRefcountsAfterFork, hfold]

end CapTableInner

end Nilix.Cap
