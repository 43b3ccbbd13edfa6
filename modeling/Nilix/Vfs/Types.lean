import Nilix.Foundation.Fallible

/-!
# Errors of the file systems

`FsError` of `kernel/vfs/types.rs`, as far as the modelled file systems and the path walk return it,
and computations that end with a value, with an error or in a failed assertion.
-/

namespace Nilix.Vfs

inductive FsError where
  | notPermitted
  | notFound
  | notDir
  | isDir
  | alreadyExists
  | notSupported
  | invalid
  | noMem
  | permDenied
  | readOnly
  | noSpace
  | nameTooLong
  | notEmpty
  | busy
  | crossDev
  | symlinkLoop
  | again
deriving DecidableEq

/-- What stops a call: an error that is returned, or an assertion that fails. -/
inductive Fault where
  | error (e : FsError)
  | panic
deriving DecidableEq

/-- A computation that does not fail an assertion. -/
def NoPanic {α : Type} (x : Except Fault α) : Prop := x ≠ .error .panic

/-- No assertion fails, and a value that is returned meets `P`. -/
structure Yields {α : Type} (x : Except Fault α) (P : α → Prop) : Prop where
  noPanic : NoPanic x
  of_ok : ∀ a, x = .ok a → P a

namespace Yields

variable {α β : Type} {x : Except Fault α} {P : α → Prop}

protected lemma ok {a : α} (h : P a) : Yields (.ok a) P :=
  ⟨nofun, fun _ heq => Except.ok.inj heq ▸ h⟩

protected lemma error (e : FsError) : Yields (.error (.error e)) P := ⟨nofun, nofun⟩

protected lemma ensure {p : Prop} [Decidable p] {e : FsError} :
    Yields (ensure p (.error e)) fun _ => p := by
  unfold Nilix.ensure
  split_ifs with h
  · exact .ok h
  · exact .error e

protected lemma okOr {o : Option α} {e : FsError} : Yields (okOr o (.error e)) (o = some ·) := by
  cases o with
  | none => exact .error e
  | some => exact .ok rfl

protected lemma bind {f : α → Except Fault β} {Q : β → Prop} (hx : Yields x P)
    (hf : ∀ a, P a → Yields (f a) Q) : Yields (x >>= f) Q := by
  cases x with
  | error => exact ⟨fun h => hx.noPanic (congrArg _ (Except.error.inj h)), nofun⟩
  | ok a => exact hf a (hx.of_ok a rfl)

lemma mono {Q : α → Prop} (h : Yields x P) (hPQ : ∀ a, P a → Q a) : Yields x Q :=
  ⟨h.noPanic, fun a ha => hPQ a (h.of_ok a ha)⟩

lemma cases (h : Yields x P) : (∃ e, x = .error (.error e)) ∨ ∃ a, x = .ok a ∧ P a := by
  rcases x with (e | _) | a
  · exact .inl ⟨e, rfl⟩
  · exact absurd rfl h.noPanic
  · exact .inr ⟨a, rfl, h.of_ok a rfl⟩

end Yields

end Nilix.Vfs
