import Mathlib.Algebra.BigOperators.Group.Finset.Basic
import Mathlib.Algebra.Order.BigOperators.Group.Finset
import Mathlib.Data.Fintype.BigOperators
import Mathlib.Tactic

/-!
# Counters that run ahead of what they count

A family of counters is kept by threads that change one counter at a time.  In between, a thread has
raised some counters for an object that is not there yet, or has not yet lowered those of an object
that is gone.  This is the *surplus* of the thread, which its place in the code determines.  The
counters are *balanced* when each is what is there plus the surplus of all threads.
-/

namespace Nilix

open Finset Function

/-- Changing one summand of a sum, with the two summands on either side. -/
lemma sum_update_add {ι α : Type*} [DecidableEq ι] {s : Finset ι} {i : ι} (hi : i ∈ s)
    (g : ι → α → ℕ) (f : ι → α) (a : α) :
    ∑ j ∈ s, g j (update f i a j) + g i (f i) = ∑ j ∈ s, g j (f j) + g i a := by
  have hrest : ∑ j ∈ s.erase i, g j (update f i a j) = ∑ j ∈ s.erase i, g j (f j) := by
    refine sum_congr rfl fun j hj => ?_
    rw [update_of_ne (ne_of_mem_erase hj)]
  rw [← sum_erase_add s _ hi, ← sum_erase_add s (fun j => g j (f j)) hi, hrest, update_self]
  omega

variable {ι α κ : Type*} [Fintype ι]

/-- Each counter is what is there plus what the threads are ahead. -/
def Balanced (surplus : α → κ → ℕ) (threads : ι → α) (counter present : κ → ℕ) : Prop :=
  ∀ k, counter k = present k + ∑ t, surplus (threads t) k

namespace Balanced

variable {surplus : α → κ → ℕ} {threads : ι → α} {counter present : κ → ℕ}

section

variable (h : Balanced surplus threads counter present)
include h

/-- A counter is never below the surplus of one thread: lowering it on behalf of that thread does not
clip. -/
lemma surplus_le (t : ι) (k : κ) : surplus (threads t) k ≤ counter k := by
  rw [h k]
  have hone : surplus (threads t) k ≤ ∑ t, surplus (threads t) k :=
    single_le_sum (f := fun t => surplus (threads t) k) (fun _ _ => Nat.zero_le _) (mem_univ t)
  omega

/-- A counter is exact while no thread is ahead of it. -/
lemma eq_present {k : κ} (hnone : ∀ t, surplus (threads t) k = 0) : counter k = present k := by
  rw [h k, sum_eq_zero fun t _ => hnone t]
  rfl

/-- A step of one thread keeps the balance if it changes the counter, what is there and its own
surplus alike. -/
lemma step [DecidableEq ι] {t : ι} {thread : α} {counter' present' : κ → ℕ}
    (hstep : ∀ k, counter' k + present k + surplus (threads t) k =
      counter k + present' k + surplus thread k) :
    Balanced surplus (update threads t thread) counter' present' := by
  intro k
  have hsum := sum_update_add (mem_univ t) (fun _ a => surplus a k) threads thread
  have hk := h k
  have hs := hstep k
  omega

end

/-- Nobody is ahead at the start. -/
lemma of_idle (hcount : ∀ k, counter k = present k) (hidle : ∀ t k, surplus (threads t) k = 0) :
    Balanced surplus threads counter present := by
  intro k
  rw [hcount k, sum_eq_zero fun t _ => hidle t k]
  rfl

end Balanced

end Nilix
