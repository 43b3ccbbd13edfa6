import Mathlib.Tactic

/-!
# Pieces of a stream and buffers patched from them

`slice l a b` is the piece of a list between two positions.  A buffer for the positions from `s` on
is filled by patching pieces into it; `Agrees l s buf P` says that it has the list's values at all
positions that meet `P`, and `Agrees.patch` that patching a piece at its place adds the positions of
the piece.  A buffer that agrees everywhere is a piece itself (`Agrees.eq_slice`).
-/

namespace Nilix

open List

variable {α : Type*}

variable (l : List α)

/-- The piece of a list from position `a` up to position `b`. -/
def slice (a b : ℕ) : List α := (l.take b).drop a

lemma getElem?_slice (a b i : ℕ) : (slice l a b)[i]? = if a + i < b then l[a + i]? else none := by
  rw [slice, getElem?_drop, getElem?_take]

lemma length_slice {l : List α} {a b : ℕ} (hb : b ≤ l.length) : (slice l a b).length = b - a := by
  rw [slice, length_drop, length_take, min_eq_left hb]

lemma take_slice {l : List α} {a b n : ℕ} (h : a + n ≤ b) :
    (slice l a b).take n = slice l a (a + n) := by
  rw [slice, slice, take_drop, take_take, min_eq_left h]

lemma drop_slice (a b n : ℕ) : (slice l a b).drop n = slice l (a + n) b := by
  rw [slice, slice, drop_drop]

lemma take_append_slice {a b : ℕ} (h : a ≤ b) : l.take a ++ slice l a b = l.take b := by
  have htake : l.take a = (l.take b).take a := by rw [take_take, min_eq_left h]
  rw [slice, htake, take_append_drop]

lemma slice_append_slice {a b c : ℕ} (hab : a ≤ b) (hbc : b ≤ c) :
    slice l a b ++ slice l b c = slice l a c := by
  have h := take_append_slice l hbc
  have hdrop : (l.take b ++ slice l b c).drop a = (l.take b).drop a ++ slice l b c := by
    rcases le_total l.length b with hlen | hlen
    · have hnil : slice l b c = [] := by
        rw [slice, drop_eq_nil_iff, length_take]
        omega
      rw [hnil, append_nil, append_nil]
    · exact drop_append_of_le_length (by rw [length_take]; omega)
  rw [h] at hdrop
  exact hdrop.symm

/-- Overwrite a buffer with `src` from `offset` on, as far as the buffer goes. -/
def patch (buf : List α) (offset : ℕ) (src : List α) : List α :=
  if offset < buf.length then
    let len := min src.length (buf.length - offset)
    buf.take offset ++ src.take len ++ buf.drop (offset + len)
  else buf

lemma length_patch (buf : List α) (offset : ℕ) (src : List α) :
    (patch buf offset src).length = buf.length := by
  unfold patch
  split
  · simp only [length_append, length_take, length_drop]
    omega
  · rfl

lemma getElem?_patch {buf : List α} {offset i : ℕ} {src : List α} (hi : i < buf.length) :
    (patch buf offset src)[i]? =
      if offset ≤ i ∧ i < offset + src.length then src[i - offset]? else buf[i]? := by
  unfold patch
  split
  · rename_i hoffset
    rw [append_assoc, getElem?_append, getElem?_append]
    simp only [length_take, getElem?_take, getElem?_drop]
    have hmin : min offset buf.length = offset := min_eq_left hoffset.le
    rw [hmin]
    rcases lt_or_ge i offset with hlow | hge
    · rw [if_pos hlow, if_pos hlow, if_neg (by omega)]
    rw [if_neg (by omega)]
    rcases lt_or_ge i (offset + src.length) with hin | hout
    · rw [if_pos (by omega), if_pos (by omega), if_pos ⟨hge, hin⟩]
    rw [if_neg (by omega), if_neg (by omega)]
    congr 1
    omega
  · rw [if_neg (by omega)]

/-- The buffer for the positions from `s` on has the list's values at the positions that meet `P`. -/
def Agrees (s : ℕ) (buf : List α) (P : ℕ → Prop) : Prop :=
  ∀ i < buf.length, P (s + i) → buf[i]? = l[s + i]?

namespace Agrees

variable {l buf : List α} {s : ℕ} {P Q : ℕ → Prop}

/-- Nothing is promised. -/
lemma empty (l buf : List α) (s : ℕ) : Agrees l s buf fun _ => False := fun _ _ h => h.elim

variable (h : Agrees l s buf P)
include h

/-- Fewer positions. -/
lemma mono (hQ : ∀ x, Q x → P x) : Agrees l s buf Q :=
  fun i hi hq => h i hi (hQ _ hq)

/-- Patching a piece at its place. -/
lemma patch {a b : ℕ} (hs : s ≤ a) (hb : b ≤ l.length) :
    Agrees l s (patch buf (a - s) (slice l a b)) fun x => P x ∨ (a ≤ x ∧ x < b) := by
  intro i hi hx
  rw [length_patch] at hi
  rw [getElem?_patch hi, length_slice hb]
  split
  · rename_i hin
    rw [getElem?_slice, if_pos (by omega)]
    congr 1
    omega
  rename_i hout
  refine h i hi (hx.resolve_right fun hx => hout ?_)
  omega

lemma eq_slice (hall : ∀ x, s ≤ x → x < s + buf.length → P x) :
    buf = slice l s (s + buf.length) := by
  apply ext_getElem?
  intro i
  rw [getElem?_slice]
  rcases lt_or_ge i buf.length with hi | hi
  · rw [if_pos (by omega)]
    exact h i hi (hall _ (by omega) (by omega))
  · rw [if_neg (by omega), getElem?_eq_none hi]

end Agrees

end Nilix
