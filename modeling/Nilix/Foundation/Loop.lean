import Mathlib.Tactic

/-!
# Loops that leave with a result

A loop body is a function `σ → Iter σ ρ`: one iteration either continues with a new state or
leaves the loop with a result.  `Loop.run` iterates a body under a fuel bound, `Loop.Runs` is the
exact operational judgement (how many iterations, which result), and the two agree.
-/

namespace Nilix

/-- One iteration of a loop: continue in a new state, or leave with a result. -/
inductive Iter (σ ρ : Type*) where
  | next (s : σ)
  | done (r : ρ)

namespace Loop

variable {σ τ ρ π : Type*}

/-- Iterate `body` at most `fuel` times; `none` means that the fuel ran out. -/
def run (body : σ → Iter σ ρ) : ℕ → σ → Option ρ
  | 0, _ => none
  | fuel + 1, s =>
    match body s with
    | .next s' => run body fuel s'
    | .done r => some r

/-- `Runs body n s r`: started in `s`, the loop leaves in its `n`-th iteration with result `r`. -/
inductive Runs (body : σ → Iter σ ρ) : ℕ → σ → ρ → Prop
  | done {s : σ} {r : ρ} (h : body s = .done r) : Runs body 1 s r
  | next {n : ℕ} {s s' : σ} {r : ρ} (h : body s = .next s') (hr : Runs body n s' r) :
      Runs body (n + 1) s r

variable {r : ρ} {s : σ} {body : σ → Iter σ ρ} {n : ℕ}

/-- An exact run is reproduced by every fuel that is at least its length. -/
lemma Runs.run_eq_some (h : Runs body n s r) {fuel : ℕ} (hf : n ≤ fuel) :
    run body fuel s = some r := by
  induction h generalizing fuel with
  | done hb =>
    obtain ⟨f, rfl⟩ : ∃ f, fuel = f + 1 := ⟨fuel - 1, by omega⟩
    rw [run, hb]
  | next hb _ ih =>
    obtain ⟨f, rfl⟩ : ∃ f, fuel = f + 1 := ⟨fuel - 1, by omega⟩
    rw [run, hb]
    exact ih (by omega)

/-- A loop leaves in at most one way. -/
lemma Runs.unique {n' : ℕ} {r' : ρ} (h : Runs body n s r) (h' : Runs body n' s r') :
    n = n' ∧ r = r' := by
  induction h generalizing n' with
  | done hb =>
    rcases h' with hb' | ⟨hb', -⟩
    · exact ⟨rfl, by simpa [hb] using hb'⟩
    · simp [hb] at hb'
  | next hb _ ih =>
    rcases h' with hb' | ⟨hb', hr'⟩
    · simp [hb] at hb'
    rw [hb, Iter.next.injEq] at hb'
    subst hb'
    obtain ⟨rfl, rfl⟩ := ih hr'
    exact ⟨rfl, rfl⟩

/-- The progress rule.  If every iteration from a state satisfying `Inv` either leaves with a
result satisfying `Post` or continues with a smaller measure and `Inv` again, then the loop leaves
within `μ s + 1` iterations, and it does so with a result satisfying `Post`. -/
lemma Runs.of_measure (body : σ → Iter σ ρ) (Inv : σ → Prop) (Post : ρ → Prop) (μ : σ → ℕ)
    (hnext : ∀ s s', Inv s → body s = .next s' → Inv s' ∧ μ s' < μ s)
    (hdone : ∀ s r, Inv s → body s = .done r → Post r) (hs : Inv s) :
    ∃ n r, n ≤ μ s + 1 ∧ Runs body n s r ∧ Post r := by
  induction hk : μ s using Nat.strong_induction_on generalizing s with
  | _ k ih =>
    cases hb : body s with
    | next s' =>
      obtain ⟨hs', hlt⟩ := hnext s s' hs hb
      obtain ⟨n, r, hn, hr, hp⟩ := ih (μ s') (hk ▸ hlt) hs' rfl
      exact ⟨n + 1, r, by omega, .next hb hr, hp⟩
    | done r => exact ⟨1, r, by omega, .done hb, hdone s r hs hb⟩

/-- The divergence rule: a loop whose body always continues while an invariant holds never leaves. -/
lemma Runs.not_of_invariant (Inv : σ → Prop) (hnext : ∀ s, Inv s → ∃ s', body s = .next s' ∧ Inv s')
    (hs : Inv s) : ¬ Runs body n s r := by
  intro h
  induction h with
  | done hb =>
    obtain ⟨s', hb', -⟩ := hnext _ hs
    cases hb.symm.trans hb'
  | next hb _ ih =>
    obtain ⟨s', hb', hs'⟩ := hnext _ hs
    cases hb.symm.trans hb'
    exact ih hs'

/-- The simulation rule: bodies that keep a relation `R` between their states and leave together
have runs of the same length with results related by `Q`. -/
lemma Runs.simulate (body' : τ → Iter τ π) (R : σ → τ → Prop) (Q : ρ → π → Prop)
    (hnext : ∀ s t s', R s t → body s = .next s' → ∃ t', body' t = .next t' ∧ R s' t')
    (hdone : ∀ s t r, R s t → body s = .done r → ∃ p, body' t = .done p ∧ Q r p) {t : τ}
    (hst : R s t) (h : Runs body n s r) : ∃ p, Runs body' n t p ∧ Q r p := by
  induction h generalizing t with
  | done hb =>
    obtain ⟨p, hp, hq⟩ := hdone _ _ _ hst hb
    exact ⟨p, .done hp, hq⟩
  | next hb _ ih =>
    obtain ⟨t', ht', hR⟩ := hnext _ _ _ hst hb
    obtain ⟨p, hp, hq⟩ := ih hR
    exact ⟨p, .next ht' hp, hq⟩

end Loop

end Nilix
