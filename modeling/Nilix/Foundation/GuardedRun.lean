import Mathlib.Data.List.Basic

/-!
# Runs whose steps meet a condition

A state machine `step` whose states are to be `Good`.  If an invariant implies `Good`, steps that meet
the condition `Guard` keep the invariant, and a step from the invariant that does not meet the condition
leads to a state that is not good, then the states of a run are all good if and only if its steps all
meet the condition.
-/

namespace Nilix

open List

variable {σ α : Type*} {step : σ → α → σ} {Inv Good : σ → Prop} {Guard : σ → α → Prop}

/-- The condition is exact for runs. -/
lemma good_iff_guarded (hgood : ∀ s, Inv s → Good s)
    (hstep : ∀ s a, Inv s → Guard s a → Inv (step s a))
    (hexact : ∀ s a, Inv s → Good (step s a) → Guard s a) (l : List α) {s : σ} (hs : Inv s) :
    (∀ done rest, l = done ++ rest → Good (done.foldl step s)) ↔
      ∀ done a rest, l = done ++ a :: rest → Guard (done.foldl step s) a := by
  induction l generalizing s with
  | nil =>
    constructor
    · intro _ done a rest h
      exact absurd h.symm (append_ne_nil_of_right_ne_nil done (cons_ne_nil a rest))
    intro _ done rest h
    obtain ⟨rfl, -⟩ := append_eq_nil_iff.mp h.symm
    exact hgood s hs
  | cons a l ih =>
    constructor
    · intro h
      have hguard : Guard s a := hexact s a hs (h [a] l rfl)
      have hrest := (ih (hstep s a hs hguard)).mp fun done rest heq =>
        h (a :: done) rest (congrArg (a :: ·) heq)
      rintro (_ | ⟨b, done⟩) c rest heq
      · obtain ⟨rfl, -⟩ := cons.inj heq
        exact hguard
      obtain ⟨rfl, htail⟩ := cons.inj heq
      exact hrest done c rest htail
    · intro h
      have hguard : Guard s a := h [] a l rfl
      have hrest := (ih (hstep s a hs hguard)).mpr fun done b rest heq =>
        h (a :: done) b rest (congrArg (a :: ·) heq)
      rintro (_ | ⟨b, done⟩) rest heq
      · exact hgood s hs
      obtain ⟨rfl, htail⟩ := cons.inj heq
      exact hrest done rest htail

end Nilix
