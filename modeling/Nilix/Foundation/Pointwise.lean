import Mathlib.Logic.Function.Basic
import Mathlib.Tactic

/-!
# Updating a family point by point

A loop over a list of distinct keys that replaces the value of each key by a function of that value
alone: every key of the list is changed once, and nothing else is.

The second part is about members that hold marks: every mark is sound, and two members never hold
marks that clash.  A step that changes one member has to answer for the mark of that member only.
-/

namespace Nilix

open Function List

variable {ι α β : Type*} [DecidableEq ι]

/-- Change the value of the key of each element, one after the other. -/
def updateEach (key : β → ι) (f : β → α → α) (l : List β) (s : ι → α) : ι → α :=
  l.foldl (fun s x => Function.update s (key x) (f x (s (key x)))) s

lemma updateEach_cons (key : β → ι) (f : β → α → α) (x : β) (l : List β) (s : ι → α) :
    updateEach key f (x :: l) s =
      updateEach key f l (Function.update s (key x) (f x (s (key x)))) := rfl

variable {f : β → α → α} {key : β → ι}

/-- The other keys keep their value. -/
lemma updateEach_of_not_mem {l : List β} {s : ι → α} {i : ι} (h : i ∉ l.map key) :
    updateEach key f l s i = s i := by
  induction l generalizing s with
  | nil => rfl
  | cons x l ih =>
    rw [map_cons, mem_cons, not_or] at h
    rw [updateEach_cons, ih h.2, update_of_ne h.1]

/-- Every key of the list is changed once. -/
lemma updateEach_of_mem {l : List β} {s : ι → α} (hnodup : (l.map key).Nodup) {x : β} (hx : x ∈ l) :
    updateEach key f l s (key x) = f x (s (key x)) := by
  induction l generalizing s with
  | nil => cases hx
  | cons y l ih =>
    rw [map_cons, nodup_cons] at hnodup
    rw [updateEach_cons]
    rcases mem_cons.mp hx with rfl | hx
    · rw [updateEach_of_not_mem hnodup.1, update_self]
    have hne : key x ≠ key y := fun h => hnodup.1 (h ▸ mem_map_of_mem hx)
    rw [ih hnodup.2 hx, update_of_ne hne]

/-- A reading that no change touches is the same afterwards. -/
lemma read_updateEach {γ : Type*} (read : α → γ) (hread : ∀ x a, read (f x a) = read a) (l : List β)
    (s : ι → α) (i : ι) : read (updateEach key f l s i) = read (s i) := by
  induction l generalizing s with
  | nil => rfl
  | cons x l ih =>
    rw [updateEach_cons, ih]
    rcases eq_or_ne i (key x) with rfl | hne
    · rw [update_self, hread]
    · rw [update_of_ne hne]

/-- An entry of an updated partial map is the new one, or an old one of another key. -/
lemma update_eq_some_iff {f : ι → Option α} {i j : ι} {o : Option α} {a : α} :
    Function.update f i o j = some a ↔ j = i ∧ o = some a ∨ j ≠ i ∧ f j = some a := by
  rcases eq_or_ne j i with rfl | hne
  · simp
  · simp [hne]

/-! ## Marks -/

/-- Every mark that a member of the family holds is sound, and no two members hold marks that
clash. -/
structure Marked {γ : Type*} (mark : α → Option γ) (sound : γ → Prop) (clash : γ → γ → Prop)
    (s : ι → α) : Prop where
  sound : ∀ i x, mark (s i) = some x → sound x
  apart : ∀ i j x y, mark (s i) = some x → mark (s j) = some y → clash x y → i = j

namespace Marked

variable {γ : Type*} {mark : α → Option γ} {sound sound' : γ → Prop} {clash : γ → γ → Prop}
  {s : ι → α} {i : ι} {a : α}

/-- One member changes: its new mark is sound and clashes with no other, and the marks of the others
stay sound. -/
lemma update (h : Marked mark sound clash s) (hsymm : ∀ x y, clash x y → clash y x)
    (hown : ∀ x, mark a = some x → sound' x ∧ ∀ j ≠ i, ∀ y, mark (s j) = some y → ¬clash x y)
    (hkeep : ∀ j ≠ i, ∀ x, mark (s j) = some x → sound' x) :
    Marked mark sound' clash (Function.update s i a) := by
  have hmark : ∀ j x, mark (Function.update s i a j) = some x →
      j = i ∧ mark a = some x ∨ j ≠ i ∧ mark (s j) = some x := by
    intro j x hx
    rcases eq_or_ne j i with rfl | hne
    · exact .inl ⟨rfl, by simpa using hx⟩
    · exact .inr ⟨hne, by simpa [hne] using hx⟩
  refine ⟨fun j x hx => ?_, fun j k x y hx hy hclash => ?_⟩
  · rcases hmark j x hx with ⟨-, hx⟩ | ⟨hne, hx⟩
    · exact (hown x hx).1
    · exact hkeep j hne x hx
  rcases hmark j x hx with ⟨rfl, hx'⟩ | ⟨hj, hx'⟩ <;>
    rcases hmark k y hy with ⟨rfl, hy'⟩ | ⟨hk, hy'⟩
  · rfl
  · exact absurd hclash ((hown x hx').2 k hk y hy')
  · exact absurd (hsymm x y hclash) ((hown y hy').2 j hj x hx')
  · exact h.apart j k x y hx' hy' hclash

/-- One member drops its mark, or keeps it. -/
lemma update_of_eq_or_none (h : Marked mark sound clash s)
    (ha : mark a = mark (s i) ∨ mark a = none) : Marked mark sound clash (Function.update s i a) := by
  have hmark : ∀ j x, mark (Function.update s i a j) = some x → mark (s j) = some x := by
    intro j x hx
    rcases eq_or_ne j i with rfl | hne
    · rw [update_self] at hx
      rcases ha with ha | ha
      · exact ha.symm.trans hx
      · cases ha.symm.trans hx
    · rwa [update_of_ne hne] at hx
  exact ⟨fun j x hx => h.sound j x (hmark j x hx),
    fun j k x y hx hy => h.apart j k x y (hmark j x hx) (hmark k y hy)⟩

end Marked

end Nilix
