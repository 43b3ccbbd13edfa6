import Mathlib.Tactic

/-!
# Checks and loops that can fault

A check stops with an error (`ensure`, `okOr`); a sequence of checks that passed is taken apart by
`bind_eq_ok`.

A loop over a list whose body can stop with a fault is a `foldlM` in `Except`.  If the body keeps an
invariant and does not fault from the states that meet it, the loop does not fault and its result
meets the invariant.
-/

namespace Nilix

open List

variable {ε σ α : Type*} {β γ : Type}

@[simp] lemma ok_bind (a : β) (f : β → Except ε γ) : .ok a >>= f = f a := rfl

@[simp] lemma error_bind (e : ε) (f : β → Except ε γ) : .error e >>= f = .error e := rfl

@[simp] lemma pure_eq_ok {β : Type} (a : β) : (pure a : Except ε β) = .ok a := rfl

/-- A sequence that returns, part by part. -/
lemma bind_eq_ok {x : Except ε β} {f : β → Except ε γ} {b : γ} (h : x >>= f = .ok b) :
    ∃ a, x = .ok a ∧ f a = .ok b := by
  cases x with
  | error => cases h
  | ok a => exact ⟨a, rfl, h⟩

/-- What a passed check is followed by. -/
lemma ok_of_check {check : Except ε Unit} {f : Unit → Except ε β} {b : β}
    (h : check >>= f = .ok b) : f () = .ok b := by
  obtain ⟨⟨⟩, -, h⟩ := bind_eq_ok h
  exact h

lemma map_eq_ok {x : Except ε β} {f : β → γ} {b : γ} (h : x.map f = .ok b) :
    ∃ a, x = .ok a ∧ f a = b := by
  cases x with
  | error => cases h
  | ok a => exact ⟨a, rfl, Except.ok.inj h⟩

/-- A check that stops with `e` where it does not hold. -/
def ensure (p : Prop) [Decidable p] (e : ε) : Except ε Unit := if p then .ok () else .error e

lemma ensure_eq_ok {p : Prop} [Decidable p] {e : ε} {u : Unit} : ensure p e = .ok u ↔ p := by
  unfold ensure
  split_ifs with h
  · exact iff_of_true rfl h
  · exact iff_of_false nofun h

/-- `ok_or`: the value that is there, or the error `e`. -/
def okOr (o : Option α) (e : ε) : Except ε α := o.elim (.error e) .ok

lemma okOr_eq_ok {o : Option α} {e : ε} {a : α} : okOr o e = .ok a ↔ o = some a := by
  cases o with
  | none => exact iff_of_false nofun nofun
  | some => exact ⟨fun h => congrArg some (Except.ok.inj h), fun h => congrArg _ (Option.some.inj h)⟩

lemma forM_eq_ok_iff {f : α → Except ε Unit} {l : List α} :
    l.forM f = .ok () ↔ ∀ a ∈ l, f a = .ok () := by
  induction l with
  | nil => exact ⟨nofun, fun _ => rfl⟩
  | cons a l ih =>
    rw [forall_mem_cons, ← ih]
    change (f a >>= fun _ => l.forM f) = .ok () ↔ _
    constructor
    · intro h
      obtain ⟨⟨⟩, hfirst, hrest⟩ := bind_eq_ok h
      exact ⟨hfirst, hrest⟩
    rintro ⟨hfirst, hrest⟩
    rw [hfirst]
    exact hrest

/-- The invariant rule of a faulting loop: no fault, and the invariant at the end. -/
lemma foldlM_ok_of_invariant {f : σ → α → Except ε σ} (Inv : σ → Prop) {l : List α}
    (hstep : ∀ s, ∀ a ∈ l, Inv s → ∃ s', f s a = .ok s' ∧ Inv s') {s : σ} (hs : Inv s) :
    ∃ s', l.foldlM f s = .ok s' ∧ Inv s' := by
  induction l generalizing s with
  | nil => exact ⟨s, rfl, hs⟩
  | cons a l ih =>
    obtain ⟨s1, hf, hs1⟩ := hstep s a mem_cons_self hs
    obtain ⟨s2, hfold, hs2⟩ := ih (fun s b hb => hstep s b (mem_cons_of_mem _ hb)) hs1
    refine ⟨s2, ?_, hs2⟩
    rw [foldlM_cons, hf]
    exact hfold

/-- What every round of a faulting loop keeps holds at the end, if the loop does not fault. -/
lemma invariant_of_foldlM {f : σ → α → Except ε σ} (Inv : σ → Prop) {l : List α}
    (hstep : ∀ s, ∀ a ∈ l, ∀ s', Inv s → f s a = .ok s' → Inv s') {s s' : σ} (hs : Inv s)
    (h : l.foldlM f s = .ok s') : Inv s' := by
  induction l generalizing s with
  | nil =>
    cases h
    exact hs
  | cons a l ih =>
    rw [foldlM_cons] at h
    rcases hfirst : f s a with e | s1
    · rw [hfirst] at h
      cases h
    rw [hfirst] at h
    refine ih (fun s b hb => hstep s b (mem_cons_of_mem _ hb)) ?_ h
    exact hstep s a mem_cons_self s1 hs hfirst

end Nilix
