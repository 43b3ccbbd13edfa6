import Mathlib.Tactic

/-!
# Vectors with an explicit backing

A growable vector is its list of values together with the capacity of its backing.  `push?` appends
only within the backing, so a push that would have to allocate is visible as `none`; `rehouse` moves
the values to another backing.
-/

namespace Nilix

open List

/-- A vector and the capacity of its backing. -/
structure BoundedVec (α : Type*) where
  values : List α
  capacity : ℕ
  /-- A vector never holds more values than its backing has room for. -/
  length_le : values.length ≤ capacity

namespace BoundedVec

variable {α : Type*}

/-- The empty vector without a backing. -/
def empty : BoundedVec α := ⟨[], 0, le_rfl⟩

variable (v : BoundedVec α)

/-- Append within the backing; `none` when the push would have to allocate. -/
def push? (a : α) : Option (BoundedVec α) :=
  if h : v.values.length = v.capacity then none
  else some ⟨v.values ++ [a], v.capacity, by
    have := v.length_le
    simp only [length_append, length_singleton]
    omega⟩

/-- Move the values to a backing of another capacity; `none` when they do not fit. -/
def rehouse (capacity : ℕ) : Option (BoundedVec α) :=
  if h : v.values.length ≤ capacity then some ⟨v.values, capacity, h⟩ else none

/-- Overwrite one position. -/
def set (v : BoundedVec α) (i : ℕ) (a : α) : BoundedVec α :=
  ⟨v.values.set i a, v.capacity, by rw [length_set]; exact v.length_le⟩

/-- Remove all values and keep the backing. -/
def clear : BoundedVec α := ⟨[], v.capacity, Nat.zero_le _⟩

/-- Remove the last value and keep the backing. -/
def dropLast (v : BoundedVec α) : BoundedVec α :=
  ⟨v.values.dropLast, v.capacity, by
    have := v.length_le
    rw [length_dropLast]
    omega⟩

/-- Remove the first value and keep the backing. -/
def tail (v : BoundedVec α) : BoundedVec α :=
  ⟨v.values.tail, v.capacity, by
    have := v.length_le
    rw [length_tail]
    omega⟩

/-- Change every value in place. -/
def map (f : α → α) (v : BoundedVec α) : BoundedVec α :=
  ⟨v.values.map f, v.capacity, by simpa using v.length_le⟩

/-- Keep the values that meet `p` and the backing. -/
def filter (p : α → Bool) (v : BoundedVec α) : BoundedVec α :=
  ⟨v.values.filter p, v.capacity, (length_filter_le p _).trans v.length_le⟩

/-- Insert before position `i`, within the capacity. -/
def insert? (i : ℕ) (a : α) : Option (BoundedVec α) :=
  if h : v.values.length < v.capacity then
    some ⟨v.values.take i ++ a :: v.values.drop i, v.capacity, by
      simp only [length_append, length_take, length_cons, length_drop]
      omega⟩
  else none

lemma push?_values {v v' : BoundedVec α} {a : α} (h : v.push? a = some v') :
    v'.values = v.values ++ [a] := by
  unfold push? at h
  split at h
  · cases h
  · cases h; rfl

variable {v : BoundedVec α}

/-- With room in the backing a push succeeds and keeps the backing. -/
lemma push?_eq_some (h : v.values.length < v.capacity) (a : α) :
    ∃ v', v.push? a = some v' ∧ v'.values = v.values ++ [a] ∧ v'.capacity = v.capacity := by
  unfold push?
  rw [dif_neg h.ne]
  exact ⟨_, rfl, rfl, rfl⟩

lemma rehouse_values {v v' : BoundedVec α} {c : ℕ} (h : v.rehouse c = some v') :
    v'.values = v.values := by
  unfold rehouse at h
  split at h
  · cases h; rfl
  · cases h

/-- With room for it, an insertion succeeds. -/
lemma insert?_eq_some (h : v.values.length < v.capacity) (i : ℕ) (a : α) :
    ∃ v', v.insert? i a = some v' ∧ v'.values = v.values.take i ++ a :: v.values.drop i := by
  unfold insert?
  rw [dif_pos h]
  exact ⟨_, rfl, rfl⟩

/-- Values that fit can be moved. -/
lemma rehouse_eq_some {c : ℕ} (h : v.values.length ≤ c) :
    ∃ v', v.rehouse c = some v' ∧ v'.values = v.values ∧ v'.capacity = c := by
  unfold rehouse
  rw [dif_pos h]
  exact ⟨_, rfl, rfl, rfl⟩

@[simp] lemma values_set (v : BoundedVec α) (i : ℕ) (a : α) :
    (v.set i a).values = v.values.set i a := rfl

@[simp] lemma values_clear (v : BoundedVec α) : v.clear.values = [] := rfl

@[simp] lemma values_map (f : α → α) (v : BoundedVec α) : (v.map f).values = v.values.map f := rfl

@[simp] lemma values_filter (p : α → Bool) (v : BoundedVec α) :
    (v.filter p).values = v.values.filter p := rfl

@[simp] lemma values_tail (v : BoundedVec α) : v.tail.values = v.values.tail := rfl

end BoundedVec

section Insertion

variable {α : Type*} {R : α → α → Prop} {l : List α} {a : α} {p q : α → Bool}

/-- The first value that meets a condition depends on the values in the list alone. -/
lemma findIdx_congr_mem (h : ∀ x ∈ l, p x = q x) : l.findIdx p = l.findIdx q := by
  induction l with
  | nil => rfl
  | cons x l ih =>
    rw [findIdx_cons, findIdx_cons, h x mem_cons_self, ih fun y hy => h y (mem_cons_of_mem _ hy)]

/-- A value put before the first value of an ordered list that has to come after it. -/
lemma pairwise_insertAt (hl : l.Pairwise R) (hbefore : ∀ x ∈ l, p x = false → R x a)
    (hafter : ∀ x ∈ l, p x = true → R a x)
    (hmono : ∀ x ∈ l, ∀ y ∈ l, R x y → p x = true → p y = true) :
    (l.take (l.findIdx p) ++ a :: l.drop (l.findIdx p)).Pairwise R := by
  induction l with
  | nil => exact pairwise_singleton R a
  | cons x l ih =>
    obtain ⟨hx, hl⟩ := pairwise_cons.mp hl
    rw [findIdx_cons]
    cases hp : p x with
    | true =>
      refine pairwise_cons.mpr ⟨fun y hy => ?_, pairwise_cons.mpr ⟨hx, hl⟩⟩
      rcases mem_cons.mp hy with rfl | hmem
      · exact hafter _ mem_cons_self hp
      exact hafter y (mem_cons_of_mem _ hmem)
        (hmono x mem_cons_self y (mem_cons_of_mem _ hmem) (hx y hmem) hp)
    | false =>
      refine pairwise_cons.mpr ⟨fun y hy => ?_, ih hl
        (fun y hy => hbefore y (mem_cons_of_mem _ hy))
        (fun y hy => hafter y (mem_cons_of_mem _ hy))
        (fun y hy z hz => hmono y (mem_cons_of_mem _ hy) z (mem_cons_of_mem _ hz))⟩
      rcases mem_append.mp hy with hy | hy
      · exact hx y (mem_of_mem_take hy)
      rcases mem_cons.mp hy with rfl | hy
      · exact hbefore x mem_cons_self hp
      · exact hx y (mem_of_mem_drop hy)

end Insertion

end Nilix
