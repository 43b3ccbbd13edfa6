import Nilix.Cgroup.TaskAccounting
import Nilix.Foundation.Fallible

/-!
# Chains and subtrees

The chains that the task operations collect are the ancestries, a migration cuts the two chains at
their lowest common ancestor, and a task of a node counts for exactly the nodes of its ancestry.
-/

namespace Nilix.Cg

open Finset List Function

/-! ## Chains -/

lemma collectParents_eq {slots : ℕ} {c : Cgroup} (h : c.depth < slots) :
    collectParents slots (some c) = c.ancestry := by
  induction slots generalizing c with
  | zero => cases h
  | succ slots ih =>
    cases c with
    | root => cases slots <;> rfl
    | child id parent =>
      exact congrArg (Cgroup.child id parent :: ·) (ih (Nat.lt_of_succ_lt_succ h))

lemma collectCgroupAncestry_eq {c : Cgroup} (h : c.depth ≤ maxCgroupDepth) :
    collectCgroupAncestry c = .ok c.ancestry := collectAncestry_eq (Nat.lt_succ_of_le h)

/-- In a hierarchy of legal depth the walk reaches the root. -/
lemma taskChain_eq {c : Cgroup} (h : c.depth ≤ maxCgroupDepth) : taskChain c = c.ancestry := by
  cases c with
  | root => rfl
  | child id parent =>
    have hparent : parent.depth < maxCgroupDepth + 1 := by
      change parent.depth + 1 ≤ maxCgroupDepth at h
      omega
    exact congrArg (Cgroup.child id parent :: ·) (collectParents_eq hparent)

/-- A chain cut at an ancestor ends with the chain of the ancestor. -/
lemma cut_ancestry {c a : Cgroup} {before after : List Cgroup}
    (h : c.ancestry = before ++ a :: after) : a :: after = a.ancestry := by
  induction c generalizing before with
  | root =>
    cases before with
    | nil =>
      obtain ⟨rfl, rfl⟩ := cons.inj h
      rfl
    | cons b before =>
      have hnil : before ++ a :: after = [] := (cons.inj h).2.symm
      exact absurd (append_eq_nil_iff.mp hnil).2 (cons_ne_nil _ _)
  | child id parent ih =>
    cases before with
    | nil =>
      obtain ⟨rfl, rfl⟩ := cons.inj h
      rfl
    | cons => exact ih (cons.inj h).2

/-- What `index_of` finds cuts the list. -/
lemma cut_of_idxOf {l : List Cgroup} {a : Cgroup} {i : ℕ} (h : l.idxOf? a = some i) :
    l = l.take i ++ a :: l.drop (i + 1) := by
  obtain ⟨hi, ha, -⟩ := idxOf?_eq_some_iff.mp h
  rw [← ha, getElem_cons_drop hi, take_append_drop]

/-- The loop over the target chain stops at the first node of the source chain. -/
lemma migrationExclusiveFrom_eq_ok {source target : List Cgroup} {index a b : ℕ}
    (h : migrationExclusiveFrom source index target = .ok (a, b)) :
    ∃ before node after, target = before ++ node :: after ∧ b = index + before.length ∧
      source.idxOf? node = some a ∧ ∀ n ∈ before, n ∉ source := by
  induction target generalizing index with
  | nil => cases h
  | cons node rest ih =>
    unfold migrationExclusiveFrom at h
    split at h
    · rename_i sourceIndex hfound
      cases h
      exact ⟨[], node, rest, rfl, rfl, hfound, fun _ hn => nomatch hn⟩
    rename_i hnone
    obtain ⟨before, node', after, rfl, rfl, hfound, hbefore⟩ := ih h
    refine ⟨node :: before, node', after, rfl, ?_, hfound, ?_⟩
    · rw [length_cons]
      omega
    intro n hn
    rcases mem_cons.mp hn with rfl | hn
    · exact idxOf?_eq_none_iff.mp hnone
    · exact hbefore n hn

/-- The two parts below the common ancestors. -/
structure ExclusiveChains.Splits (x : ExclusiveChains) (m : Migration) (common : List Cgroup) :
    Prop where
  source : m.source.ancestry = x.source ++ common
  target : m.target.ancestry = x.target ++ common
  source_not_mem : ∀ n ∈ x.source, n ∉ m.target.ancestry
  target_not_mem : ∀ n ∈ x.target, n ∉ m.source.ancestry

/-- `migration_exclusive_lengths` cuts both chains at their lowest common ancestor. -/
lemma Migration.exclusive_splits {m : Migration} {x : ExclusiveChains}
    (hs : m.source.depth ≤ maxCgroupDepth) (ht : m.target.depth ≤ maxCgroupDepth)
    (h : m.exclusive = .ok x) : ∃ common, x.Splits m common := by
  unfold Migration.exclusive at h
  obtain ⟨_, hsource, h⟩ := bind_eq_ok h
  obtain ⟨_, htarget, h⟩ := bind_eq_ok h
  obtain ⟨⟨a, b⟩, hlengths, h⟩ := bind_eq_ok h
  cases (collectCgroupAncestry_eq hs).symm.trans hsource
  cases (collectCgroupAncestry_eq ht).symm.trans htarget
  cases h
  obtain ⟨before, node, after, htarget, hb, hfound, hbefore⟩ := migrationExclusiveFrom_eq_ok hlengths
  have hsource := cut_of_idxOf hfound
  rw [zero_add] at hb
  -- both chains end with the chain of the node where they meet
  rw [cut_ancestry hsource] at hsource
  rw [cut_ancestry htarget] at htarget
  have htake : m.target.ancestry.take b = before := by
    rw [htarget, hb, take_left]
  refine ⟨node.ancestry, ⟨hsource, ?_, ?_, ?_⟩⟩
  · dsimp only
    rw [htake]
    exact htarget
  · intro n hn hmem
    rw [htarget, mem_append] at hmem
    rcases hmem with hmem | hmem
    · exact hbefore n hmem (mem_of_mem_take hn)
    have hnodup := m.source.nodup_ancestry
    rw [hsource] at hnodup
    exact (nodup_append.mp hnodup).2.2 n hn n hmem rfl
  · intro n hn
    rw [htake] at hn
    exact hbefore n hn

/-! ## Tasks in a subtree -/

section Sums

variable {T : CgroupTree} {processes : Cgroup → Finset TaskId} {n : Cgroup} {task : TaskId}

lemma subtreeTasks_insert (hn : n ∈ T.nodes) (htask : task ∉ processes n) (k : Cgroup) :
    subtreeTasks T (update processes n (insert task (processes n))) k =
      subtreeTasks T processes k + n.ancestry.count k := by
  have hsum := sum_update_add hn
    (fun m (tasks : Finset TaskId) => if k ∈ m.ancestry then tasks.card else 0)
    processes (insert task (processes n))
  rw [card_insert_of_notMem htask] at hsum
  rw [n.nodup_ancestry.count]
  unfold subtreeTasks
  split_ifs at hsum ⊢ <;> omega

/-- Inserting a task takes its removal back. -/
lemma update_insert_erase (htask : task ∈ processes n) :
    let removed := update processes n ((processes n).erase task)
    update removed n (insert task (removed n)) = processes := by
  simp [htask]

/-- A task that leaves counted for every node above. -/
lemma subtreeTasks_erase (hn : n ∈ T.nodes) (htask : task ∈ processes n) (k : Cgroup) :
    subtreeTasks T (update processes n ((processes n).erase task)) k + n.ancestry.count k =
      subtreeTasks T processes k := by
  have habsent : task ∉ update processes n ((processes n).erase task) n := by simp
  have hinsert := subtreeTasks_insert hn habsent k
  rw [update_insert_erase htask] at hinsert
  exact hinsert.symm

lemma placements_insert (hn : n ∈ T.nodes) (htask : task ∉ processes n) (other : TaskId) :
    placements T (update processes n (insert task (processes n))) other =
      placements T processes other + if other = task then 1 else 0 := by
  have hsum := sum_update_add hn (fun _ (tasks : Finset TaskId) => if other ∈ tasks then 1 else 0)
    processes (insert task (processes n))
  unfold placements
  rcases eq_or_ne other task with rfl | hne
  · rw [if_neg htask, if_pos (mem_insert_self _ _)] at hsum
    rw [if_pos rfl]
    exact hsum
  simp only [mem_insert, hne, false_or] at hsum
  rw [if_neg hne]
  omega

lemma placements_erase (hn : n ∈ T.nodes) (htask : task ∈ processes n) (other : TaskId) :
    placements T (update processes n ((processes n).erase task)) other +
      (if other = task then 1 else 0) = placements T processes other := by
  have habsent : task ∉ update processes n ((processes n).erase task) n := by simp
  have hinsert := placements_insert hn habsent other
  rw [update_insert_erase htask] at hinsert
  exact hinsert.symm

end Sums

end Nilix.Cg
