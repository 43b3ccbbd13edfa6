import Mathlib.Tactic

/-!
# The cgroup hierarchy

`kernel/kernel_core/cgroup.rs`: a node is known by its ID and by its parent, which never change.  The
operations of the controllers walk from a node to the root.
-/

namespace Nilix.Cg

def maxCgroupDepth : ℕ := 8

def cgroupChainCapacity : ℕ := maxCgroupDepth + 1

/-- `CgroupError`, as far as the modelled operations return it. -/
inductive CgroupError where
  | notFound
  | permissionDenied
  | notEmpty
  | depthLimit
  | taskAlreadyAttached
  | taskNotAttached
  | pidsLimitExceeded
  | memoryLimitExceeded
  | busy
  | outOfMemory
deriving DecidableEq

/-- The part of a `CgroupNode` that places it in the hierarchy. -/
inductive Cgroup where
  | root
  | child (id : ℕ) (parent : Cgroup)
deriving DecidableEq

namespace Cgroup

/-- `id`; the root is 0. -/
def id : Cgroup → ℕ
  | root => 0
  | child id _ => id

def parent : Cgroup → Option Cgroup
  | root => none
  | child _ parent => some parent

def depth : Cgroup → ℕ
  | root => 0
  | child _ parent => parent.depth + 1

/-- The nodes from a node to the root. -/
def ancestry : Cgroup → List Cgroup
  | root => [root]
  | child id parent => child id parent :: parent.ancestry

lemma depth_le_of_mem_ancestry {c a : Cgroup} (h : a ∈ c.ancestry) : a.depth ≤ c.depth := by
  induction c with
  | root =>
    rw [List.mem_singleton.mp h]
  | child id parent ih =>
    rcases List.mem_cons.mp h with rfl | h
    · exact le_rfl
    · exact (ih h).trans (Nat.le_succ _)

lemma nodup_ancestry (c : Cgroup) : c.ancestry.Nodup := by
  induction c with
  | root => exact List.nodup_singleton _
  | child id parent ih =>
    refine List.nodup_cons.mpr ⟨fun hmem => ?_, ih⟩
    have hle := depth_le_of_mem_ancestry hmem
    change parent.depth + 1 ≤ parent.depth at hle
    omega

end Cgroup

/-- The loop of `collect_cgroup_ancestry`, with the number of slots left. -/
def collectAncestry : ℕ → Option Cgroup → Except CgroupError (List Cgroup)
  | _, none => .ok []
  | 0, some _ => .error .depthLimit
  | slots + 1, some node => (collectAncestry slots node.parent).map (node :: ·)

def collectCgroupAncestry (origin : Cgroup) : Except CgroupError (List Cgroup) :=
  collectAncestry cgroupChainCapacity (some origin)

/-- `collect_controller_chain`, for the nodes with a controller. -/
def collectControllerChain (controller : Cgroup → Bool) (origin : Cgroup) :
    Except CgroupError (List Cgroup) :=
  (collectCgroupAncestry origin).map fun chain => chain.filter controller

/-- Within the slots the walk collects the ancestry. -/
lemma collectAncestry_eq {slots : ℕ} {c : Cgroup} (h : c.depth < slots) :
    collectAncestry slots (some c) = .ok c.ancestry := by
  induction slots generalizing c with
  | zero => cases h
  | succ slots ih =>
    cases c with
    | root => cases slots <;> rfl
    | child id parent =>
      have hparent := ih (c := parent) (Nat.lt_of_succ_lt_succ h)
      unfold collectAncestry
      rw [show (Cgroup.child id parent).parent = some parent from rfl, hparent]
      rfl

end Nilix.Cg
