import Mathlib.Data.BitVec
import Mathlib.Tactic

/-!
# Serial numbers

Serial numbers are words that count modulo their size and are compared by the sign of their
difference.  The comparison is right as long as the two counters are less than half of the size
apart.  `Serial.dist` is the distance of a word from an origin.
-/

namespace Nilix.Serial

variable {w : ℕ}

variable (a b : BitVec w)

/-- `a` comes before `b`. -/
def lt : Bool := (a - b).toInt < 0

/-- `a` does not come after `b`. -/
def le : Bool := (a - b).toInt ≤ 0

/-- `a` comes after `b`. -/
def gt : Bool := 0 < (a - b).toInt

/-- `a` does not come before `b`. -/
def ge : Bool := 0 ≤ (a - b).toInt

/-- How far `a` lies behind the origin. -/
def dist (origin a : BitVec w) : ℕ := (a - origin).toNat

/-- Two counters that are less than half of the size apart. -/
def Near (w x y : ℕ) : Prop := x < y + 2 ^ (w - 1) ∧ y < x + 2 ^ (w - 1)

/-- Counters in one interval of less than half of the size are near. -/
lemma near_of_le {x y lo hi : ℕ} (hx : lo ≤ x ∧ x ≤ hi) (hy : lo ≤ y ∧ y ≤ hi)
    (h : hi < lo + 2 ^ (w - 1)) : Near w x y := by
  unfold Near
  omega

/-- The sign of the difference of near counters is right. -/
lemma toInt_sub_add (hw : 0 < w) (origin : BitVec w) {x y : ℕ} (h : Near w x y) :
    ((origin + BitVec.ofNat w x) - (origin + BitVec.ofNat w y)).toInt = (x : ℤ) - y := by
  have hpow : (2 : ℤ) ^ w = 2 * 2 ^ (w - 1) := by
    rw [← pow_succ', Nat.sub_add_cancel hw]
  have hsub : (origin + BitVec.ofNat w x) - (origin + BitVec.ofNat w y) =
      BitVec.ofInt w ((x : ℤ) - y) := by
    rw [add_sub_add_left_eq_sub, ← BitVec.ofInt_natCast, ← BitVec.ofInt_natCast]
    apply BitVec.eq_of_toInt_eq
    rw [BitVec.toInt_sub, BitVec.toInt_ofInt, BitVec.toInt_ofInt, BitVec.toInt_ofInt]
    simp only [Int.bmod_sub_bmod, Int.sub_bmod_bmod]
  have hx : (x : ℤ) < y + 2 ^ (w - 1) := by exact_mod_cast h.1
  have hy : (y : ℤ) < x + 2 ^ (w - 1) := by exact_mod_cast h.2
  rw [hsub, BitVec.toInt_ofInt]
  apply Int.bmod_eq_of_le <;> push_cast <;> omega

section Offsets

variable (hw : 0 < w) (origin : BitVec w) {x y : ℕ} (h : Near w x y)
include hw h

lemma lt_add_iff : lt (origin + BitVec.ofNat w x) (origin + BitVec.ofNat w y) = true ↔ x < y := by
  rw [lt, decide_eq_true_iff, toInt_sub_add hw origin h]
  omega

lemma le_add_iff : le (origin + BitVec.ofNat w x) (origin + BitVec.ofNat w y) = true ↔ x ≤ y := by
  rw [le, decide_eq_true_iff, toInt_sub_add hw origin h]
  omega

lemma gt_add_iff : gt (origin + BitVec.ofNat w x) (origin + BitVec.ofNat w y) = true ↔ y < x := by
  rw [gt, decide_eq_true_iff, toInt_sub_add hw origin h]
  omega

lemma ge_add_iff : ge (origin + BitVec.ofNat w x) (origin + BitVec.ofNat w y) = true ↔ y ≤ x := by
  rw [ge, decide_eq_true_iff, toInt_sub_add hw origin h]
  omega

/-- Near counters are equal when their words are. -/
lemma add_ofNat_inj : origin + BitVec.ofNat w x = origin + BitVec.ofNat w y ↔ x = y := by
  constructor
  · intro heq
    have hint := toInt_sub_add hw origin h
    rw [heq, BitVec.sub_self, BitVec.toInt_zero] at hint
    omega
  rintro rfl
  rfl

end Offsets

/-- A word is its origin moved by its distance. -/
lemma add_dist (origin a : BitVec w) : origin + BitVec.ofNat w (dist origin a) = a := by
  rw [dist, BitVec.ofNat_toNat, BitVec.setWidth_eq, add_sub_cancel]

lemma dist_lt (origin a : BitVec w) : dist origin a < 2 ^ w := (a - origin).isLt

lemma dist_add_ofNat (origin : BitVec w) {x : ℕ} (hx : x < 2 ^ w) :
    dist origin (origin + BitVec.ofNat w x) = x := by
  rw [dist, add_sub_cancel_left, BitVec.toNat_ofNat, Nat.mod_eq_of_lt hx]

lemma add_ofNat_add (origin : BitVec w) (x y : ℕ) :
    origin + BitVec.ofNat w x + BitVec.ofNat w y = origin + BitVec.ofNat w (x + y) := by
  rw [add_assoc, BitVec.ofNat_add]

/-- Around the circle. -/
lemma dist_add_dist {a b : BitVec w} (h : a ≠ b) : dist a b + dist b a = 2 ^ w := by
  have hne : a.toNat ≠ b.toNat := fun heq => h (BitVec.eq_of_toNat_eq heq)
  have ha := a.isLt
  have hb := b.isLt
  rw [dist, dist, BitVec.toNat_sub, BitVec.toNat_sub]
  rcases Nat.lt_or_gt_of_ne hne with hlt | hgt
  · rw [Nat.mod_eq_sub_mod (by omega), Nat.mod_eq_of_lt (by omega), Nat.mod_eq_of_lt (by omega)]
    omega
  rw [Nat.mod_eq_of_lt (by omega), Nat.mod_eq_sub_mod (by omega), Nat.mod_eq_of_lt (by omega)]
  omega

/-- A word comes after its origin when it lies less than half of the size behind it. -/
lemma gt_iff_dist (hw : 0 < w) (origin a : BitVec w) :
    gt a origin = true ↔ 0 < dist origin a ∧ dist origin a < 2 ^ (w - 1) := by
  have hpow : 2 ^ w = 2 * 2 ^ (w - 1) := by
    rw [← pow_succ', Nat.sub_add_cancel hw]
  have hcast : ((2 ^ w : ℕ) : ℤ) = 2 * (2 ^ (w - 1) : ℕ) := by exact_mod_cast hpow
  have hlt := dist_lt origin a
  rw [gt, decide_eq_true_iff, BitVec.toInt_eq_toNat_cond]
  unfold dist at hlt ⊢
  split <;> omega

end Nilix.Serial
