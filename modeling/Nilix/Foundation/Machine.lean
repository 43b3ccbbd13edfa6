import Mathlib.Tactic

/-!
# Machine arithmetic on natural numbers

Rust's `usize`, `u32` and `u64` counters are modelled by natural numbers.  The operations below are
the checked and saturating ones of the 64-bit target; a model uses them wherever the source does.
-/

namespace Nilix

/-- `usize::MAX` (and `u64::MAX`) on the 64-bit target. -/
def usizeMax : ℕ := 2 ^ 64 - 1

/-- `u32::MAX`. -/
def u32Max : ℕ := 2 ^ 32 - 1

variable (a b : ℕ)

def saturatingAdd : ℕ := min (a + b) usizeMax

def checkedAdd : Option ℕ := if a + b ≤ usizeMax then some (a + b) else none

def checkedMul : Option ℕ := if a * b ≤ usizeMax then some (a * b) else none

/-- `u32::checked_add`. -/
def checkedAddU32 : Option ℕ := if a + b ≤ u32Max then some (a + b) else none

/-- `u32::saturating_add`. -/
def saturatingAddU32 : ℕ := min (a + b) u32Max

/-- A checked addition that succeeds is the addition, below the bound. -/
lemma checkedAddU32_eq_some_iff {a b c : ℕ} :
    checkedAddU32 a b = some c ↔ a + b ≤ u32Max ∧ a + b = c := by
  unfold checkedAddU32
  split_ifs with h
  · simp [h]
  · simp [h]

lemma saturatingAdd_eq_of_le {a b : ℕ} (h : a + b ≤ usizeMax) : saturatingAdd a b = a + b :=
  min_eq_left h

/-- A checked addition that succeeds gives the sum. -/
lemma eq_of_checkedAdd {a b c : ℕ} (h : checkedAdd a b = some c) : c = a + b := by
  unfold checkedAdd at h
  split_ifs at h
  exact (Option.some.inj h).symm

/-- A checked addition below the bound succeeds. -/
lemma checkedAdd_eq_some_of_le {a b : ℕ} (h : a + b ≤ usizeMax) :
    checkedAdd a b = some (a + b) := if_pos h

end Nilix
