import Mathlib.Tactic

/-!
# Bits of 64-bit words

Bit-level facts about `BitVec 64` in the form the bitmaps of the kernel use them: single-bit masks
`1#64 <<< k`, the suffix and low masks of a word scan, and the population count as a cardinality.
-/

namespace Nilix.Word64

lemma getLsbD_one_shiftLeft (k i : ℕ) :
    (1#64 <<< k).getLsbD i = (decide (i < 64) && decide (i = k)) := by
  rw [← BitVec.twoPow_eq, BitVec.getLsbD_twoPow]
  by_cases h : i = k
  · subst h; simp
  · simp [h, Ne.symm h]

lemma and_one_shiftLeft_ne_zero_iff {w : BitVec 64} {k : ℕ} (hk : k < 64) :
    w &&& (1#64 <<< k) ≠ 0 ↔ w.getLsbD k = true := by
  rw [ne_eq, ← not_iff_not, not_not, Bool.not_eq_true]
  constructor
  · intro h
    have hbit := congrArg (fun v : BitVec 64 => v.getLsbD k) h
    simpa [getLsbD_one_shiftLeft, hk] using hbit
  intro h
  apply BitVec.eq_of_getLsbD_eq
  intro i hi
  rw [BitVec.getLsbD_and, getLsbD_one_shiftLeft]
  by_cases hik : i = k
  · subst hik; simp [h]
  · simp [hik]

/-- Shifting a bit down to position zero and masking it reads the bit. -/
lemma shiftRight_and_one_ne_zero_iff {w : BitVec 64} {k : ℕ} :
    (w >>> k) &&& 1#64 ≠ 0 ↔ w.getLsbD k = true := by
  have h := and_one_shiftLeft_ne_zero_iff (w := w >>> k) (show 0 < 64 by decide)
  simpa using h

end Nilix.Word64
