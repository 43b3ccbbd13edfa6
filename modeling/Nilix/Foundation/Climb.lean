import Mathlib.Logic.Function.Basic
import Mathlib.Logic.Relation

/-!
# Climbing a parent function

Nodes with at most one parent each, given by `up : α → Option α`.  `Climbs up a b` says that going up
from `a` one comes to `b`.  A node that climbs to a parentless root lies on no cycle,
and a node can be given a new parent without cutting anything off from the root
as long as the new parent does not lie below it (`Climbs.reparent`).
-/

namespace Nilix

open Function

variable {α : Type*} {up up' : α → Option α} {a b c p root : α}

/-- Going up from `a`, in any number of steps, comes to `b`. -/
def Climbs (up : α → Option α) (a b : α) : Prop :=
  Relation.ReflTransGen (fun x y => up x = some y) a b

namespace Climbs

@[refl] protected lemma refl (a : α) : Climbs up a a := Relation.ReflTransGen.refl

/-- One step up, and on from there. -/
lemma head (h : up a = some b) (hb : Climbs up b c) : Climbs up a c :=
  Relation.ReflTransGen.head h hb

/-- From a node without parent one comes nowhere else. -/
lemma eq_of_top (h : Climbs up a b) (htop : up a = none) : b = a := by
  rcases Relation.ReflTransGen.cases_head h with rfl | ⟨x, hx, -⟩
  · rfl
  rw [htop] at hx
  exact absurd hx (Option.some_ne_none x).symm

/-- A climb that is not over goes through the parent. -/
lemma of_up (h : Climbs up a c) (hup : up a = some b) (hne : a ≠ c) : Climbs up b c := by
  rcases Relation.ReflTransGen.cases_head h with rfl | ⟨x, hx, hrest⟩
  · exact absurd rfl hne
  cases hup.symm.trans hx
  exact hrest

/-- A climb only depends on the parents of the nodes it passes. -/
lemma congr (h : Climbs up a b) (hagree : ∀ x, Climbs up a x → x ≠ b → up' x = up x) :
    Climbs up' a b := by
  induction h using Relation.ReflTransGen.head_induction_on with
  | refl => exact .refl b
  | @head a x hstep hrest ih =>
    have hx : Climbs up' x b := ih fun y hy hne => hagree y (head hstep hy) hne
    by_cases hab : a = b
    · rw [hab]
    · exact head ((hagree a (.refl a) hab).trans hstep) hx

/-- A node that climbs to a root is on no cycle: its parent does not climb back to it. -/
lemma not_back (hroot : up root = none) (ha : Climbs up a root) (hup : up a = some b) :
    ¬Climbs up b a := by
  intro hback
  -- on a cycle everything above `a` climbs back to `a`, the root too
  have hcycle : ∀ x, Climbs up a x → Climbs up x a := by
    intro x hx
    induction hx with
    | refl => exact .refl a
    | @tail x y _ hstep ih =>
      by_cases hxa : x = a
      · rw [hxa] at hstep
        cases hup.symm.trans hstep
        exact hback
      · exact ih.of_up hstep hxa
  have htop : a = root := (hcycle root ha).eq_of_top hroot
  rw [htop, hroot] at hup
  exact Option.some_ne_none b hup.symm

variable [DecidableEq α]

/-- A node that does not climb to `c` climbs as before when the parent of `c` changes. -/
lemma update_of_not (h : Climbs up a b) (hno : ¬Climbs up a c) (v : Option α) :
    Climbs (update up c v) a b := by
  refine h.congr fun x hx _ => ?_
  rw [update_of_ne]
  rintro rfl
  exact hno hx

/-- `c` moves below `p`, which is not below `c`: whatever climbed to the root still does. -/
lemma reparent (ha : Climbs up a root) (hp : Climbs up p root) (hno : ¬Climbs up p c) :
    Climbs (update up c (some p)) a root := by
  have hp' := hp.update_of_not hno (some p)
  induction ha using Relation.ReflTransGen.head_induction_on with
  | refl => exact .refl root
  | @head a b hstep _ ih =>
    by_cases hac : a = c
    · rw [hac]
      exact head (update_self c (some p) up) hp'
    · exact head ((update_of_ne hac (some p) up).trans hstep) ih

end Climbs

end Nilix
