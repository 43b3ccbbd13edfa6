import Mathlib.Data.List.Count
import Mathlib.Data.List.Nodup
import Mathlib.Tactic

/-!
# Slot arenas

An arena is a list of optional entries with a stack of free indices.  Some indices are `held`: taken
off the free stack and not filled yet, so that they look vacant in the slots.  `SlotPartition` says
that the free indices, the occupied indices and the held indices partition the indices of the arena.
It is stated by counting, so that each rule below is about one index at a time.
-/

namespace Nilix

open List Option

variable {α : Type*}

/-- Whether the slot at an index exists and holds an entry. -/
def occupied (slots : List (Option α)) (i : ℕ) : Bool := (slots[i]?.join).isSome

variable {i : ℕ} {slots : List (Option α)}

lemma occupied_iff : occupied slots i = true ↔ ∃ a, slots[i]? = some (some a) := by
  unfold occupied
  rw [isSome_iff_exists]
  simp only [join_eq_some_iff]

lemma lt_length_of_occupied (h : occupied slots i = true) : i < slots.length := by
  obtain ⟨a, ha⟩ := occupied_iff.mp h
  exact (List.getElem?_eq_some_iff.mp ha).1

lemma occupied_set (hi : i < slots.length) (o : Option α) (j : ℕ) :
    occupied (slots.set i o) j = if i = j then o.isSome else occupied slots j := by
  unfold occupied
  rw [getElem?_set]
  split_ifs with hij
  · rfl
  · rfl

lemma occupied_append_none (slots : List (Option α)) (j : ℕ) :
    occupied (slots ++ [none]) j = occupied slots j := by
  unfold occupied
  rcases lt_trichotomy j slots.length with h | rfl | h
  · rw [getElem?_append_left h]
  · simp
  · rw [getElem?_eq_none (by simpa using h), getElem?_eq_none h.le]

/-- The free, the occupied and the held indices partition the indices of the arena. -/
def SlotPartition (slots : List (Option α)) (free held : List ℕ) : Prop :=
  ∀ i, free.count i + (occupied slots i).toNat + held.count i = if i < slots.length then 1 else 0

namespace SlotPartition

variable {slots : List (Option α)} {free held : List ℕ}

/-! ## Reading the partition -/

section

variable (h : SlotPartition slots free held)
include h

lemma mem_iff (i : ℕ) : i ∈ free ∨ occupied slots i = true ∨ i ∈ held ↔ i < slots.length := by
  have hi := h i
  constructor
  · intro hmem
    by_contra hlt
    rw [if_neg hlt] at hi
    rcases hmem with hfree | hocc | hheld
    · have := count_pos_iff.mpr hfree
      omega
    · exact hlt (lt_length_of_occupied hocc)
    · have := count_pos_iff.mpr hheld
      omega
  · intro hlt
    by_contra hnone
    simp only [not_or, Bool.not_eq_true] at hnone
    obtain ⟨hfree, hocc, hheld⟩ := hnone
    rw [if_pos hlt, hocc, count_eq_zero_of_not_mem hfree, count_eq_zero_of_not_mem hheld] at hi
    exact absurd hi (by decide)

lemma free_nodup : free.Nodup := by
  rw [nodup_iff_count_le_one]
  intro i
  have hi := h i
  split_ifs at hi <;> omega

lemma held_nodup : held.Nodup := by
  rw [nodup_iff_count_le_one]
  intro i
  have hi := h i
  split_ifs at hi <;> omega

end

variable {i : ℕ}

section

variable (h : SlotPartition slots free held)
include h

lemma of_mem_held (hi : i ∈ held) : i < slots.length ∧ occupied slots i = false ∧ i ∉ free := by
  have hpos := count_pos_iff.mpr hi
  have hlt : i < slots.length := (h.mem_iff i).mp (.inr (.inr hi))
  have hcount := h i
  rw [if_pos hlt] at hcount
  refine ⟨hlt, ?_, ?_⟩
  · rw [← Bool.not_eq_true]
    intro hocc
    rw [hocc, Bool.toNat_true] at hcount
    omega
  intro hfree
  have := count_pos_iff.mpr hfree
  omega

/-- An occupied index is neither free nor held. -/
lemma of_occupied (hi : occupied slots i = true) : i ∉ free ∧ i ∉ held := by
  have hcount := h i
  rw [hi, if_pos (lt_length_of_occupied hi)] at hcount
  simp only [Bool.toNat_true] at hcount
  constructor <;> intro hmem <;> have := count_pos_iff.mpr hmem <;> omega

/-- An index in range that is not free leaves room on the free stack. -/
lemma free_length_lt (hi : i < slots.length) (hfree : i ∉ free) : free.length < slots.length := by
  have hnd : (i :: free).Nodup := nodup_cons.mpr ⟨hfree, h.free_nodup⟩
  have hsub : i :: free ⊆ range slots.length := by
    intro j hj
    rw [mem_range]
    rcases mem_cons.mp hj with rfl | hj
    · exact hi
    · exact (h.mem_iff j).mp (.inl hj)
  have hle := (subperm_of_subset hnd hsub).length_le
  rw [length_range, length_cons] at hle
  exact hle

end

/-! ## Rules -/

lemma nil : SlotPartition ([] : List (Option α)) [] [] := by
  intro i
  simp [occupied]

/-- Only the multiset of held indices matters. -/
lemma perm_held {held' : List ℕ} (h : SlotPartition slots free held) (hp : held.Perm held') :
    SlotPartition slots free held' := by
  intro i
  rw [← hp.count_eq]
  exact h i

/-- Popping the free stack holds the popped index. -/
lemma take (h : SlotPartition slots (free ++ [i]) held) :
    SlotPartition slots free (held ++ [i]) := by
  intro j
  have hj := h j
  rw [count_append] at hj ⊢
  omega

section

variable (h : SlotPartition slots free held)
include h

/-- Growing by a vacant slot holds the new index. -/
lemma grow : SlotPartition (slots ++ [none]) free (held ++ [slots.length]) := by
  intro j
  have hj := h j
  rw [occupied_append_none, count_append, count_singleton, length_append, length_singleton]
  simp only [beq_iff_eq]
  split_ifs at hj ⊢ <;> omega

/-- Filling a held slot. -/
lemma fill (hi : i ∈ held) (a : α) : SlotPartition (slots.set i (some a)) free (held.erase i) := by
  obtain ⟨hlt, hvacant, -⟩ := h.of_mem_held hi
  intro j
  have hj := h j
  rw [occupied_set hlt, length_set, count_erase]
  have hpos := count_pos_iff.mpr hi
  rcases eq_or_ne i j with rfl | hne
  · rw [hvacant] at hj
    simp only [if_true, isSome_some, Bool.toNat_true, Bool.toNat_false, beq_self_eq_true]
      at hj ⊢
    omega
  simp only [hne, if_false, beq_iff_eq] at hj ⊢
  exact hj

/-- Returning a held index to the free stack. -/
lemma release (hi : i ∈ held) : SlotPartition slots (free ++ [i]) (held.erase i) := by
  intro j
  have hj := h j
  have hpos := count_pos_iff.mpr hi
  rw [count_append, count_singleton, count_erase]
  rcases eq_or_ne i j with rfl | hne
  · simp only [beq_self_eq_true, if_true]
    omega
  simp only [beq_iff_eq, hne, if_false]
  omega

/-- Vacating an occupied slot and returning its index to the free stack. -/
lemma vacate (hi : occupied slots i = true) :
    SlotPartition (slots.set i none) (free ++ [i]) held := by
  have hlt := lt_length_of_occupied hi
  intro j
  have hj := h j
  rw [occupied_set hlt, length_set, count_append, count_singleton]
  rcases eq_or_ne i j with rfl | hne
  · rw [hi] at hj
    simp only [beq_self_eq_true, if_true, isSome_none, Bool.toNat_true, Bool.toNat_false]
      at hj ⊢
    omega
  simp only [hne, if_false, beq_iff_eq] at hj ⊢
  omega

/-- Replacing the entry of an occupied slot. -/
lemma replace (hi : occupied slots i = true) (a : α) :
    SlotPartition (slots.set i (some a)) free held := by
  have hlt := lt_length_of_occupied hi
  intro j
  rw [occupied_set hlt, length_set]
  have hj := h j
  rcases eq_or_ne i j with rfl | hne
  · rw [hi] at hj
    simpa using hj
  · simpa [hne] using hj

end

/-- A free stack of exactly the vacant indices partitions an arena without held indices. -/
lemma of_vacant (hnd : free.Nodup)
    (hmem : ∀ i, i ∈ free ↔ i < slots.length ∧ occupied slots i = false) :
    SlotPartition slots free [] := by
  intro i
  rw [hnd.count]
  simp only [hmem i, count_nil]
  cases hocc : occupied slots i
  · simp
  have := lt_length_of_occupied hocc
  simp [this]

end SlotPartition

end Nilix
