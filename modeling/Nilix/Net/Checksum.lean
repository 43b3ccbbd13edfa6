import Mathlib.Data.Nat.ModEq
import Nilix.Net.Ipv4

/-!
# The Internet checksum

`compute_checksum` is the one's complement of a one's-complement sum.  Such sums have two zeros, and
the sum of a string that verifies is the second one, which a string of zeros does not reach.
-/

namespace Nilix.Net.Ipv4

open List

/-! ## One's-complement sums -/

/-- One's-complement addition of 16-bit words: the carry out of the top comes in at the bottom. -/
def onesAdd (a b : ℕ) : ℕ := if a + b < 2 ^ 16 then a + b else a + b - (2 ^ 16 - 1)

def onesSum (words : List ℕ) : ℕ := words.foldl onesAdd 0

/-- A sum reduced to one word.  The positive multiples of 65535 go to the second zero. -/
def endAround (n : ℕ) : ℕ := if n = 0 then 0 else (n - 1) % 65535 + 1

lemma endAround_add {w : ℕ} (n : ℕ) (hw : w < 2 ^ 16) :
    endAround (n + w) = onesAdd (endAround n) w := by
  unfold endAround onesAdd
  split_ifs <;> omega

lemma foldl_onesAdd {words : List ℕ} (h : ∀ w ∈ words, w < 2 ^ 16) (n : ℕ) :
    words.foldl onesAdd (endAround n) = endAround (n + words.sum) := by
  induction words generalizing n with
  | nil => rfl
  | cons w words ih =>
    rw [forall_mem_cons] at h
    rw [foldl_cons, ← endAround_add n h.1, ih h.2, sum_cons, add_assoc]

/-- The loop over the carries reduces the sum. -/
lemma toNat_foldCarry (sum : UInt32) : (foldCarry sum).toNat = endAround sum.toNat := by
  fun_induction foldCarry sum with
  | case1 sum h =>
    have hsmall : sum.toNat / 2 ^ 16 = 0 := by
      rw [← toNat_shiftRight_sixteen, h]
      rfl
    unfold endAround
    split_ifs <;> omega
  | case2 sum h ih =>
    rw [ih, toNat_addCarries]
    unfold endAround
    split_ifs <;> omega

/-! ## The words of a string -/

/-- The big-endian words of a byte string, with an odd last byte padded. -/
def words : List UInt8 → List ℕ
  | hi :: lo :: rest => (hi.toNat * 256 + lo.toNat) :: words rest
  | [last] => [last.toNat * 256]
  | [] => []

lemma lt_of_mem_words (d : List UInt8) : ∀ w ∈ words d, w < 2 ^ 16 := by
  induction d using words.induct with
  | case1 hi lo rest ih =>
    have hhi := hi.toNat_lt
    have hlo := lo.toNat_lt
    exact forall_mem_cons.mpr ⟨by omega, ih⟩
  | case2 last =>
    have hlast := last.toNat_lt
    simp only [words, mem_singleton, forall_eq]
    omega
  | case3 => simp [words]

lemma length_words (d : List UInt8) : (words d).length = (d.length + 1) / 2 := by
  induction d using words.induct with
  | case1 hi lo rest ih =>
    simp only [words, length_cons, ih]
    omega
  | _ => simp [words]

lemma sum_words_eq_zero_iff (d : List UInt8) : (words d).sum = 0 ↔ ∀ b ∈ d, b = 0 := by
  have hbyte : ∀ b : UInt8, b.toNat = 0 ↔ b = 0 := fun b => UInt8.toNat_inj (b := 0)
  induction d using words.induct with
  | case1 hi lo rest ih => simp [words, ih, hbyte, and_assoc]
  | _ => simp [words, hbyte]

/-- The wrapping loop adds up the words. -/
lemma toNat_sumWords (sum : UInt32) (d : List UInt8) :
    (sumWords sum d).toNat = (sum.toNat + (words d).sum) % 2 ^ 32 := by
  induction d using words.induct generalizing sum with
  | case1 hi lo rest ih =>
    have hhi := hi.toNat_lt
    have hlo := lo.toNat_lt
    rw [sumWords, ih, UInt32.toNat_add, UInt16.toNat_toUInt32, fromBeBytes, UInt16.toNat_ofNat',
      words, sum_cons]
    omega
  | case2 last =>
    have hlast := last.toNat_lt
    rw [sumWords, UInt32.toNat_add, UInt32.toNat_shiftLeft, UInt8.toNat_toUInt32, words,
      sum_singleton]
    simp only [UInt32.reduceToNat, Nat.reduceMod, Nat.shiftLeft_eq]
    omega
  | case3 => simp [sumWords, words, Nat.mod_eq_of_lt sum.toNat_lt]

variable {p : List UInt8}

lemma words_append (hp : Even p.length) (d : List UInt8) : words (p ++ d) = words p ++ words d := by
  induction p using words.induct with
  | case1 hi lo rest ih =>
    rw [length_cons, length_cons, Nat.even_add_one, Nat.even_add_one, not_not] at hp
    exact congrArg (_ :: ·) (ih hp)
  | case2 => simp at hp
  | case3 => rfl

lemma sumWords_append (hp : Even p.length) (sum : UInt32) (d : List UInt8) :
    sumWords sum (p ++ d) = sumWords (sumWords sum p) d := by
  apply UInt32.toNat_inj.mp
  rw [toNat_sumWords, toNat_sumWords, toNat_sumWords, words_append hp, sum_append, Nat.mod_add_mod,
    add_assoc]

/-! ## The laws -/

/-- Both loops of `calculate_checksum_with_pseudo` go on with one sum. -/
def calculateChecksumWithPseudo (pseudoHeader data : List UInt8) : UInt16 :=
  ~~~ (foldCarry (sumWords (sumWords 0 pseudoHeader) data)).toUInt16

variable {d : List UInt8} (hd : d.length ≤ 65535)
include hd

/-- The words of a string of this length do not wrap. -/
lemma toNat_computeChecksum :
    (computeChecksum d d.length).toNat = 65535 - endAround (words d).sum := by
  have hsum : (words d).sum ≤ (words d).length • 65535 :=
    sum_le_card_nsmul _ _ fun w hw => Nat.le_of_lt_succ (lt_of_mem_words d w hw)
  rw [length_words, smul_eq_mul] at hsum
  have hwrap : (words d).sum % 2 ^ 32 = (words d).sum := Nat.mod_eq_of_lt (by omega)
  have hword : endAround (words d).sum < 2 ^ 16 := by
    unfold endAround
    split_ifs <;> omega
  rw [computeChecksum, take_length, UInt16.toNat_not, UInt32.toNat_toUInt16, toNat_foldCarry,
    toNat_sumWords, UInt32.toNat_zero, zero_add, hwrap, Nat.mod_eq_of_lt hword]
  rfl

lemma computeChecksum_eq_zero_iff :
    computeChecksum d d.length = 0 ↔ (words d).sum ≠ 0 ∧ (words d).sum % 65535 = 0 := by
  rw [← UInt16.toNat_inj, toNat_computeChecksum hd, UInt16.toNat_zero]
  unfold endAround
  split_ifs with hzero
  · simp [hzero]
  · omega

omit hd

/-- A string with a word in its aligned field, stored as the header builder stores the checksum. -/
def withWord (pre : List UInt8) (w : UInt16) (post : List UInt8) : List UInt8 :=
  pre ++ (w >>> 8).toUInt8 :: (w &&& (0xff : UInt16)).toUInt8 :: post

lemma length_withWord (w w' : UInt16) (post : List UInt8) :
    (withWord p w post).length = (withWord p w' post).length := by
  simp [withWord]

lemma sum_words_withWord (hp : Even p.length) (w : UInt16) (post : List UInt8) :
    (words (withWord p w post)).sum = (words p).sum + w.toNat + (words post).sum := by
  have hw := w.toNat_lt
  have hhi : (w >>> 8).toUInt8.toNat = w.toNat / 256 % 256 := by
    rw [UInt16.toNat_toUInt8, UInt16.toNat_shiftRight, Nat.shiftRight_eq_div_pow]
    rfl
  have hlo : (w &&& (0xff : UInt16)).toUInt8.toNat = w.toNat % 256 := by
    rw [UInt16.toNat_toUInt8, UInt16.toNat_and]
    exact (congrArg (· % 256) (Nat.and_two_pow_sub_one_eq_mod w.toNat 8)).trans (Nat.mod_mod _ _)
  rw [withWord, words_append hp, sum_append, words, sum_cons, hhi, hlo]
  omega

/-- The Internet checksum laws.  A changed word of a string that verifies goes unnoticed exactly when it
changed by a multiple of 65535 and the string is not one of zeros now. -/
theorem checksum_laws :
    (∀ d : List UInt8, d.length ≤ 65535 →
      (computeChecksum d d.length).toNat = 65535 - onesSum (words d)) ∧
    (∀ pre post : List UInt8, Even pre.length → (withWord pre 0 post).length ≤ 65535 →
      let stored := withWord pre (computeChecksum (withWord pre 0 post) (withWord pre 0 post).length) post
      computeChecksum stored stored.length = 0) ∧
    (∀ (pre post : List UInt8) (w w' : UInt16), Even pre.length →
      (withWord pre w post).length ≤ 65535 →
      computeChecksum (withWord pre w post) (withWord pre w post).length = 0 →
      let changed := withWord pre w' post
      (computeChecksum changed changed.length = 0 ↔
        w.toNat ≡ w'.toNat [MOD 65535] ∧ ∃ b ∈ changed, b ≠ 0)) ∧
    (∀ p d : List UInt8, Even p.length →
      calculateChecksumWithPseudo p d = computeChecksum (p ++ d) (p ++ d).length) := by
  refine ⟨fun d hd => ?_, fun pre post hpre hlen => ?_, fun pre post w w' hpre hlen hzero => ?_,
    fun p d hp => ?_⟩
  · have hsum := foldl_onesAdd (lt_of_mem_words d) 0
    rw [zero_add] at hsum
    rw [toNat_computeChecksum hd, ← hsum]
    rfl
  · intro stored
    have hstored : stored.length ≤ 65535 := (length_withWord ..).trans_le hlen
    rw [computeChecksum_eq_zero_iff hstored, sum_words_withWord hpre, toNat_computeChecksum hlen,
      sum_words_withWord hpre, UInt16.toNat_zero]
    unfold endAround
    split_ifs <;> omega
  · intro changed
    have hchanged : changed.length ≤ 65535 := (length_withWord ..).trans_le hlen
    have hnonzero : (∃ b ∈ changed, b ≠ 0) ↔ (words changed).sum ≠ 0 := by
      rw [Ne, sum_words_eq_zero_iff]
      push Not
      rfl
    rw [computeChecksum_eq_zero_iff hlen, sum_words_withWord hpre] at hzero
    rw [computeChecksum_eq_zero_iff hchanged, hnonzero, sum_words_withWord hpre, Nat.ModEq]
    omega
  · rw [calculateChecksumWithPseudo, ← sumWords_append hp, computeChecksum, take_length]

/-- One word of ones verifies.  The word of zeros is congruent to it and does not verify. -/
theorem zero_word_rejected :
    computeChecksum (withWord [] 0xffff []) 2 = 0 ∧ 0xffff ≡ 0 [MOD 65535] ∧
      computeChecksum (withWord [] 0 []) 2 ≠ 0 := by
  decide +kernel

end Nilix.Net.Ipv4
