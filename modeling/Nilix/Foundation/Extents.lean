import Mathlib.Data.PEquiv
import Mathlib.Tactic

/-!
# Extent tables

An extent translates the interval `[src, src + count)` to `[dst, dst + count)` by a shift.  A table of
extents whose intervals are disjoint on both sides is a partial bijection of the natural numbers, and
its inverse is the table with the two sides exchanged.
-/

namespace Nilix

open List

/-- An interval and where it goes. -/
structure Extent where
  src : ℕ
  dst : ℕ
  count : ℕ
deriving DecidableEq

namespace Extent

/-- The extent in the other direction. -/
def swap (e : Extent) : Extent := ⟨e.dst, e.src, e.count⟩

/-- The extent translates `x`. -/
def Covers (e : Extent) (x : ℕ) : Prop := e.src ≤ x ∧ x < e.src + e.count

instance (e : Extent) (x : ℕ) : Decidable (e.Covers x) := inferInstanceAs (Decidable (_ ∧ _))

/-- Where `x` goes. -/
def image (e : Extent) (x : ℕ) : ℕ := e.dst + (x - e.src)

/-- Two source intervals do not meet. -/
def Apart (e f : Extent) : Prop := ∀ x, e.Covers x → ¬ f.Covers x

/-- The image of `x` under the first extent that covers it. -/
def lookup : List Extent → ℕ → Option ℕ
  | [], _ => none
  | e :: table, x => if e.Covers x then some (e.image x) else lookup table x

/-- The intervals of a table are disjoint on both sides. -/
def IsTable (table : List Extent) : Prop :=
  table.Pairwise fun e f => e.Apart f ∧ e.swap.Apart f.swap

variable {table : List Extent}

/-- The table in the other direction. -/
lemma IsTable.swap (h : IsTable table) : IsTable (table.map Extent.swap) := by
  unfold IsTable at *
  rw [pairwise_map]
  exact h.imp fun hef => ⟨hef.2, hef.1⟩

end Extent

end Nilix
