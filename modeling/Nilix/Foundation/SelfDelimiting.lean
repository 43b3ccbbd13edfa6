import Mathlib.Tactic

/-!
# Self-delimiting writers

A writer puts a value on the end of a string of symbols.  It is *self-delimiting* when a value and what
follows it can be told apart, so that a sequence of such writers determines every value that was
written.  A writer of a fixed width is self-delimiting when it is injective; the little-endian bytes of
an integer are the case that hashes and wire formats use.
-/

namespace Nilix

open List

variable {α β γ : Type*}

/-- What was written, and what follows, can be told apart. -/
def SelfDelimiting (write : α → List β) : Prop :=
  ∀ a b s t, write a ++ s = write b ++ t → a = b ∧ s = t

namespace SelfDelimiting

variable {write : α → List β}

/-- Nothing needs to follow. -/
lemma injective (h : SelfDelimiting write) : Function.Injective write := by
  intro a b hab
  exact (h a b [] [] (by rw [hab])).1

lemma append_iff (h : SelfDelimiting write) {a b : α} {s t : List β} :
    write a ++ s = write b ++ t ↔ a = b ∧ s = t :=
  ⟨h a b s t, fun ⟨hab, hst⟩ => by rw [hab, hst]⟩

/-- An injective writer of fixed width. -/
lemma of_length {n : ℕ} (hlen : ∀ a, (write a).length = n) (hinj : Function.Injective write) :
    SelfDelimiting write := by
  intro a b s t h
  obtain ⟨hab, hst⟩ := append_inj h ((hlen a).trans (hlen b).symm)
  exact ⟨hinj hab, hst⟩

/-- Writing an injective image. -/
lemma comp (h : SelfDelimiting write) {f : γ → α} (hf : Function.Injective f) :
    SelfDelimiting fun c => write (f c) := by
  intro a b s t hab
  obtain ⟨hfab, hst⟩ := h _ _ s t hab
  exact ⟨hf hfab, hst⟩

/-- Writing the elements of two lists of one length. -/
lemma flatMap (h : SelfDelimiting write) {l l' : List α} (hlen : l.length = l'.length)
    {s t : List β} (heq : l.flatMap write ++ s = l'.flatMap write ++ t) : l = l' ∧ s = t := by
  induction l generalizing l' with
  | nil =>
    cases l' with
    | nil => exact ⟨rfl, heq⟩
    | cons => cases hlen
  | cons a l ih =>
    cases l' with
    | nil => cases hlen
    | cons b =>
      rw [flatMap_cons, flatMap_cons, append_assoc, append_assoc] at heq
      obtain ⟨rfl, hrest⟩ := h a b _ _ heq
      obtain ⟨rfl, hst⟩ := ih (Nat.succ.inj hlen) hrest
      exact ⟨rfl, hst⟩

end SelfDelimiting

/-! ## Little-endian bytes -/

/-- The `n` low bytes of a number, low byte first. -/
def leBytes : ℕ → ℕ → List UInt8
  | 0, _ => []
  | n + 1, v => UInt8.ofNat (v % 256) :: leBytes n (v / 256)

lemma length_leBytes (n v : ℕ) : (leBytes n v).length = n := by
  induction n generalizing v with
  | zero => rfl
  | succ n ih => exact congrArg (· + 1) (ih (v / 256))

/-- The bytes determine a number that fits. -/
lemma leBytes_inj {n v v' : ℕ} (hv : v < 256 ^ n) (hv' : v' < 256 ^ n)
    (h : leBytes n v = leBytes n v') : v = v' := by
  induction n generalizing v v' with
  | zero =>
    rw [pow_zero] at hv hv'
    omega
  | succ n ih =>
    obtain ⟨hlow, hhigh⟩ := cons.inj h
    have hmod : v % 256 = v' % 256 := by
      have hnat := congrArg UInt8.toNat hlow
      rw [UInt8.toNat_ofNat', UInt8.toNat_ofNat'] at hnat
      omega
    have hdiv : v / 256 = v' / 256 := by
      rw [pow_succ] at hv hv'
      exact ih (Nat.div_lt_of_lt_mul (by omega)) (Nat.div_lt_of_lt_mul (by omega)) hhigh
    omega

/-- The bytes of a machine integer. -/
lemma selfDelimiting_leBytes {n : ℕ} {toNat : α → ℕ} (hinj : Function.Injective toNat)
    (hlt : ∀ a, toNat a < 256 ^ n) : SelfDelimiting fun a => leBytes n (toNat a) :=
  .of_length (fun a => length_leBytes n (toNat a)) fun a b h => hinj (leBytes_inj (hlt a) (hlt b) h)

end Nilix
