import Mathlib.Data.List.Rotate
import Mathlib.Tactic

/-!
# Copies in and out of a ring

A ring buffer of fixed size copies a run of elements chunk by chunk: a chunk ends where the run ends
or where the buffer ends, and the next chunk starts at the wrapped position.  `Ring.copyOut` and
`Ring.copyIn` are these two loops, and a run seen from its start is the rotated buffer:
`copyOut_eq` reads a prefix of it and `rotate_copyIn` overwrites a prefix of it.
-/

namespace Nilix.Ring

open List

variable {α : Type*}

/-- The loop that copies `n` elements out of the ring from position `pos`: the elements and the
position after them.  Every iteration copies at least one element, so `n` iterations suffice. -/
def copyOut (buffer : List α) : (fuel pos n : ℕ) → List α × ℕ
  | 0, pos, _ => ([], pos)
  | fuel + 1, pos, n =>
    if n = 0 then ([], pos)
    else
      let chunk := min n (buffer.length - pos)
      let rest := copyOut buffer fuel ((pos + chunk) % buffer.length) (n - chunk)
      ((buffer.drop pos).take chunk ++ rest.1, rest.2)

/-- The loop that copies `src` into the ring from position `pos`. -/
def copyIn : (fuel : ℕ) → (buffer : List α) → (pos : ℕ) → (src : List α) → List α
  | 0, buffer, _, _ => buffer
  | fuel + 1, buffer, pos, src =>
    if src.length = 0 then buffer
    else
      let chunk := min src.length (buffer.length - pos)
      copyIn fuel (buffer.take pos ++ src.take chunk ++ buffer.drop (pos + chunk))
        ((pos + chunk) % buffer.length) (src.drop chunk)

/-- The `len` elements of the ring that start at `pos`. -/
def window (buffer : List α) (pos len : ℕ) : List α := (buffer.rotate pos).take len

/-! ## Copying out -/

@[simp]
lemma copyOut_zero (buffer : List α) (fuel pos : ℕ) : copyOut buffer fuel pos 0 = ([], pos) := by
  cases fuel <;> simp [copyOut]

variable {fuel n : ℕ}

lemma copyOut_of_le (buffer : List α) (pos : ℕ) (hn : n ≠ 0) (hf : n ≤ fuel)
    (hle : pos + n ≤ buffer.length) :
    copyOut buffer fuel pos n = ((buffer.drop pos).take n, (pos + n) % buffer.length) := by
  obtain ⟨fuel, rfl⟩ : ∃ f, fuel = f + 1 := ⟨fuel - 1, by omega⟩
  have hchunk : min n (buffer.length - pos) = n := by omega
  simp [copyOut, hn, hchunk]

variable {buffer : List α} {pos : ℕ}

/-- The loop copies out a prefix of the rotated buffer and leaves at the position after it. -/
lemma copyOut_eq (hf : n ≤ fuel) (hpos : pos < buffer.length) (hn : n ≤ buffer.length) :
    copyOut buffer fuel pos n = (window buffer pos n, (pos + n) % buffer.length) := by
  have hrot : buffer.rotate pos = buffer.drop pos ++ buffer.take pos :=
    rotate_eq_drop_append_take hpos.le
  rcases Nat.eq_zero_or_pos n with rfl | hpos'
  · simp [window, Nat.mod_eq_of_lt hpos]
  rcases lt_or_ge buffer.length (pos + n) with hwrap | hfit
  · -- the first chunk runs to the end of the buffer, the second one starts at its beginning
    obtain ⟨fuel, rfl⟩ : ∃ f, fuel = f + 1 := ⟨fuel - 1, by omega⟩
    have hchunk : min n (buffer.length - pos) = buffer.length - pos := by omega
    have hsum : pos + (buffer.length - pos) = buffer.length := by omega
    have hrest := copyOut_of_le buffer 0 (n := n - (buffer.length - pos)) (by omega)
      (by omega : n - (buffer.length - pos) ≤ fuel) (by omega)
    have hend : (pos + n) % buffer.length = (0 + (n - (buffer.length - pos))) % buffer.length := by
      have hsplit : pos + n = (0 + (n - (buffer.length - pos))) + buffer.length := by omega
      rw [hsplit, Nat.add_mod_right]
    rw [copyOut, if_neg (by omega), hend]
    simp only [hchunk, hsum, Nat.mod_self, hrest, window, hrot, drop_zero, take_append, length_drop]
    congr 2
    · rw [take_of_length_le (by simp), take_of_length_le (by simp; omega)]
    · rw [take_take, Nat.min_eq_left (by omega)]
  · rw [copyOut_of_le buffer pos (by omega) hf hfit, window, hrot,
      take_append_of_le_length (by simp; omega)]

/-! ## Copying in -/

@[simp]
lemma copyIn_nil (fuel : ℕ) (buffer : List α) (pos : ℕ) : copyIn fuel buffer pos [] = buffer := by
  cases fuel <;> simp [copyIn]

variable {src : List α}

section

variable (hf : src.length ≤ fuel)
include hf

lemma copyIn_of_le (hle : pos + src.length ≤ buffer.length) :
    copyIn fuel buffer pos src = buffer.take pos ++ src ++ buffer.drop (pos + src.length) := by
  cases hsrc : src with
  | nil => simp
  | cons a rest =>
    rw [hsrc] at hf hle
    obtain ⟨fuel, rfl⟩ : ∃ f, fuel = f + 1 := ⟨fuel - 1, by simp at hf; omega⟩
    have hchunk : min (a :: rest).length (buffer.length - pos) = (a :: rest).length := by omega
    rw [copyIn, if_neg (by simp)]
    simp only [hchunk, take_length, drop_length, copyIn_nil]

variable (hpos : pos < buffer.length)
include hpos

/-- A run that goes past the end of the buffer is two chunks. -/
lemma copyIn_of_wrap (hlen : src.length ≤ buffer.length)
    (hwrap : buffer.length < pos + src.length) :
    copyIn fuel buffer pos src = src.drop (buffer.length - pos) ++
        (buffer.take pos).drop (src.length - (buffer.length - pos)) ++
        src.take (buffer.length - pos) := by
  obtain ⟨fuel, rfl⟩ : ∃ f, fuel = f + 1 := ⟨fuel - 1, by omega⟩
  have hchunk : min src.length (buffer.length - pos) = buffer.length - pos := by omega
  have hsum : pos + (buffer.length - pos) = buffer.length := by omega
  have hfirst : (buffer.take pos ++ src.take (buffer.length - pos)).length = buffer.length := by
    simp only [length_append, length_take]
    omega
  rw [copyIn, if_neg (by omega)]
  simp only [hchunk, hsum, Nat.mod_self, drop_length, append_nil]
  rw [copyIn_of_le (by simp; omega) (by rw [hfirst]; simp; omega)]
  have hcut : src.length - (buffer.length - pos) ≤ (buffer.take pos).length := by
    simp only [length_take]
    omega
  simp only [take_zero, nil_append, zero_add, length_drop]
  rw [drop_append_of_le_length hcut, append_assoc]

lemma length_copyIn (hlen : src.length ≤ buffer.length) :
    (copyIn fuel buffer pos src).length = buffer.length := by
  rcases lt_or_ge buffer.length (pos + src.length) with hwrap | hfit
  · rw [copyIn_of_wrap hf hpos hlen hwrap]
    simp only [length_append, length_drop, length_take]
    omega
  rw [copyIn_of_le hf hfit]
  simp only [length_append, length_drop, length_take]
  omega

/-- Seen from its start, the loop overwrites a prefix of the ring. -/
lemma rotate_copyIn (hlen : src.length ≤ buffer.length) :
    (copyIn fuel buffer pos src).rotate pos = src ++ (buffer.rotate pos).drop src.length := by
  have hlen' := length_copyIn hf hpos hlen
  rw [rotate_eq_drop_append_take (by omega), rotate_eq_drop_append_take hpos.le]
  rcases lt_or_ge buffer.length (pos + src.length) with hwrap | hfit
  · rw [copyIn_of_wrap hf hpos hlen hwrap]
    have hfront : (src.drop (buffer.length - pos) ++
        (buffer.take pos).drop (src.length - (buffer.length - pos))).length = pos := by
      simp only [length_append, length_drop, length_take]
      omega
    have hdrop : (buffer.drop pos).drop src.length = [] := by
      apply drop_of_length_le
      simp only [length_drop]
      omega
    rw [drop_left' hfront, take_left' hfront, drop_append, hdrop, nil_append,
      length_drop, ← append_assoc, take_append_drop]
  · rw [copyIn_of_le hf hfit]
    have hfront : (buffer.take pos).length = pos := by
      simp only [length_take]
      omega
    have hcut : src.length ≤ (buffer.drop pos).length := by
      simp only [length_drop]
      omega
    rw [append_assoc, drop_left' hfront, take_left' hfront, append_assoc,
      drop_append_of_le_length hcut, drop_drop]

end

/-! ## The window in use -/

variable {len : ℕ}

lemma length_window (hlen : len ≤ buffer.length) : (window buffer pos len).length = len := by
  simp only [window, length_take, length_rotate]
  omega

lemma window_take (hn : n ≤ len) : window buffer pos n = (window buffer pos len).take n := by
  rw [window, window, take_take, Nat.min_eq_left hn]

/-- Moving the start forward drops elements from the front. -/
lemma window_advance (pos : ℕ) (hn : n ≤ len) (hlen : len ≤ buffer.length) :
    window buffer ((pos + n) % buffer.length) (len - n) = (window buffer pos len).drop n := by
  have hcut : len - n ≤ ((buffer.rotate pos).drop n).length := by
    simp only [length_drop, length_rotate]
    omega
  rw [window, rotate_mod, ← rotate_rotate,
    rotate_eq_drop_append_take (by rw [length_rotate]; omega),
    take_append_of_le_length hcut, window, drop_take]

/-- Copying in behind the window appends to it. -/
lemma window_copyIn (pos : ℕ) (hf : src.length ≤ fuel) (hbuf : 0 < buffer.length)
    (hroom : len + src.length ≤ buffer.length) :
    window (copyIn fuel buffer ((pos + len) % buffer.length) src) pos (len + src.length) =
      window buffer pos len ++ src := by
  have hw : (pos + len) % buffer.length < buffer.length := Nat.mod_lt _ hbuf
  have hlen := length_copyIn hf hw (by omega)
  have hcopy := rotate_copyIn hf hw (by omega)
  set after := copyIn fuel buffer ((pos + len) % buffer.length) src
  have hmod : (pos + len) % buffer.length = (pos + len) % after.length := by rw [hlen]
  -- both sides agree after a further rotation by the length of the window
  have hrot : after.rotate pos =
      (buffer.rotate pos).take len ++ src ++ (buffer.rotate pos).drop (len + src.length) := by
    apply rotate_injective len
    have htake : ((buffer.rotate pos).take len).length = len := by
      simp only [length_take, length_rotate]
      omega
    have hcut : src.length ≤ ((buffer.rotate pos).drop len).length := by
      simp only [length_drop, length_rotate]
      omega
    have hsplit : ((buffer.rotate pos).take len ++
        (src ++ (buffer.rotate pos).drop (len + src.length))).rotate len =
        src ++ (buffer.rotate pos).drop (len + src.length) ++ (buffer.rotate pos).take len := by
      have h := rotate_append_length_eq ((buffer.rotate pos).take len)
        (src ++ (buffer.rotate pos).drop (len + src.length))
      rwa [htake] at h
    dsimp only
    rw [rotate_rotate, ← rotate_mod, ← hmod, hcopy, append_assoc, hsplit,
      rotate_mod, ← rotate_rotate,
      rotate_eq_drop_append_take (by rw [length_rotate]; omega),
      drop_append_of_le_length hcut, drop_drop, append_assoc]
  have hfront : ((buffer.rotate pos).take len ++ src).length = len + src.length := by
    simp only [length_append, length_take, length_rotate]
    omega
  rw [window, hrot, take_left' hfront, window]

/-! ## Single slots -/

lemma getElem?_window {i : ℕ} (hi : i < len) (hlen : len ≤ buffer.length) :
    (window buffer pos len)[i]? = buffer[(pos + i) % buffer.length]? := by
  have hrot : i < (buffer.rotate pos).length := by
    rw [length_rotate]
    omega
  have hmod : (pos + i) % buffer.length < buffer.length := Nat.mod_lt _ (by omega)
  rw [window, getElem?_take_of_lt hi, getElem?_eq_getElem hrot, getElem_rotate,
    getElem?_eq_getElem hmod]
  congr 2
  rw [add_comm]

/-- Slots of one round are different. -/
lemma slot_inj {i j : ℕ} (hi : i < n) (hj : j < n) (h : (pos + i) % n = (pos + j) % n) : i = j := by
  have hmod : i ≡ j [MOD n] := Nat.ModEq.add_left_cancel' pos h
  rw [Nat.ModEq, Nat.mod_eq_of_lt hi, Nat.mod_eq_of_lt hj] at hmod
  exact hmod

/-- Two rings of one size that agree on the slots of a window. -/
lemma window_congr {buffer' : List α} {pos' : ℕ} (hlen : len ≤ buffer.length)
    (hlen' : len ≤ buffer'.length)
    (h : ∀ i < len, buffer[(pos + i) % buffer.length]? = buffer'[(pos' + i) % buffer'.length]?) :
    window buffer pos len = window buffer' pos' len := by
  apply ext_getElem?
  intro i
  rcases lt_or_ge i len with hi | hi
  · rw [getElem?_window hi hlen, getElem?_window hi hlen', h i hi]
  rw [getElem?_eq_none (by rw [length_window hlen]; exact hi),
    getElem?_eq_none (by rw [length_window hlen']; exact hi)]

lemma window_set_of_ne {j : ℕ} (a : α) (hj : j < buffer.length) (hlen : len ≤ j) :
    window (buffer.set ((pos + j) % buffer.length) a) pos len = window buffer pos len := by
  have hset : (buffer.set ((pos + j) % buffer.length) a).length = buffer.length := length_set
  refine window_congr (by rw [hset]; omega) (by omega) fun i hi => ?_
  rw [hset, getElem?_set_ne]
  intro h
  have := slot_inj hj (by omega) h
  omega

lemma window_set_end (a : α) (hroom : len < buffer.length) :
    window (buffer.set ((pos + len) % buffer.length) a) pos (len + 1) =
      window buffer pos len ++ [a] := by
  have hset : (buffer.set ((pos + len) % buffer.length) a).length = buffer.length := length_set
  have hmod : (pos + len) % buffer.length < buffer.length := Nat.mod_lt _ (by omega)
  have hfront : (window buffer pos len).length = len := length_window hroom.le
  apply ext_getElem?
  intro i
  rcases Nat.lt_trichotomy i len with hi | rfl | hi
  · rw [getElem?_append_left (by rw [hfront]; exact hi),
      ← @window_set_of_ne _ buffer pos len len a hroom le_rfl,
      getElem?_window hi (by rw [hset]; omega), getElem?_window (by omega) (by rw [hset]; omega)]
  · rw [getElem?_append_right (by rw [hfront]), hfront, Nat.sub_self,
      getElem?_window (by omega) (by rw [hset]; omega), hset, getElem?_set_self hmod]
    rfl
  · rw [getElem?_eq_none (by rw [length_window (by rw [hset]; omega)]; omega),
      getElem?_eq_none (by rw [length_append, hfront, length_singleton]; omega)]

end Nilix.Ring
