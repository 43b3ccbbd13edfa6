import Nilix.Foundation.BoundedVec
import Nilix.Foundation.Machine

/-!
# Aggregate-admitted vectors

`kernel/mm/admitted.rs`: a vector whose backing grows only through detached, heap-admitted
allocations.  The whole-heap ledger and the allocator are the environment: a `Grant` is their answer
to a request for detached backing of an exact capacity.  A refusal is `none`; a grant carries the
capacity `Vec::try_reserve_exact` really produced, which is at least the request.  Which of the
admission errors a refusal was is dropped by every modelled caller, so it is not kept.
-/

namespace Nilix

open Option

/-- The environment's answers to requests for detached backing of a given capacity. -/
abbrev Grant := (target : ℕ) → Option {c : ℕ // target ≤ c}

/-- `growth_target`: the amortised capacity for `required` elements. -/
def growthTarget (current required : ℕ) : Option ℕ :=
  if required ≤ current then some current
  else (checkedMul (max current 4) 2).map (max required)

lemma le_of_growthTarget {current required target : ℕ}
    (h : growthTarget current required = some target) : required ≤ target := by
  unfold growthTarget at h
  split at h
  · cases h; assumption
  obtain ⟨d, -, rfl⟩ := map_eq_some_iff.mp h
  exact le_max_left _ _

/-- `AdmittedVec<T>`: the live values and the capacity of their admitted backing. -/
abbrev AdmittedVec (α : Type*) := BoundedVec α

namespace AdmittedVec

variable {α : Type*}

def new : AdmittedVec α := BoundedVec.empty

instance : Inhabited (AdmittedVec α) := ⟨new⟩

variable (v : AdmittedVec α) (grant : Grant) (committed : Bool)

/-- `prepare_target`: detached backing of an exact capacity. -/
def prepareTarget (target : ℕ) : Option ℕ :=
  if target < v.values.length then none else (grant target).map Subtype.val

/-- `prepare_capacity_for`: `some none` when the live backing suffices, `some (some c)` for detached
backing of capacity `c`, `none` on failure.  The amortised request is retried at the exact size. -/
def prepareCapacityFor (additional : ℕ) :
    Option (Option ℕ) := do
  let required ← checkedAdd v.values.length additional
  if required ≤ v.capacity then some none
  else
    let preferred ← growthTarget v.capacity required
    match v.prepareTarget grant preferred with
    | some c => some (some c)
    | none => if preferred ≠ required then (v.prepareTarget grant required).map some else none

/-- `install_prepared`: the values move to the prepared backing.  `committed` is the answer of the
ledger to the conversion of the reservation into a charge. -/
def installPrepared (prepared : ℕ) : Option (AdmittedVec α) :=
  if v.values.length ≤ prepared ∧ committed then v.rehouse prepared else none

/-- The install step of a caller of `prepareCapacityFor`: nothing to do when the live backing was
found sufficient. -/
def installIfPrepared : Option ℕ → Option (AdmittedVec α)
  | none => some v
  | some prepared => v.installPrepared committed prepared

/-- `push_reserved`: append within the live capacity. -/
def pushReserved (a : α) : Option (AdmittedVec α) := v.push? a

def tryReserve (additional : ℕ) : Option (AdmittedVec α) :=
  (v.prepareCapacityFor grant additional).bind (v.installIfPrepared committed)

def tryPush (a : α) :
    Option (AdmittedVec α) := do
  let v' ← v.tryReserve grant committed 1
  v'.pushReserved a

/-- `try_copy_from_slice`: an admitted copy of exactly the given values. -/
def tryCopyFromSlice (source : List α) : Option (AdmittedVec α) :=
  if h : source.length = 0 then some ⟨source, 0, h.le⟩
  else match grant source.length with
    | none => none
    | some c => if committed then some ⟨source, c.1, c.2⟩ else none

variable {v v' : AdmittedVec α} {committed : Bool}

lemma installPrepared_values {prepared : ℕ} (h : v.installPrepared committed prepared = some v') :
    v'.values = v.values := by
  unfold installPrepared at h
  split_ifs at h
  exact BoundedVec.rehouse_values h

variable {prepared : Option ℕ}

lemma installIfPrepared_values (h : v.installIfPrepared committed prepared = some v') :
    v'.values = v.values := by
  cases prepared with
  | none => exact congrArg BoundedVec.values (some.inj h).symm
  | some => exact installPrepared_values h

variable {grant : Grant} {additional : ℕ}

lemma tryReserve_values (h : v.tryReserve grant committed additional = some v') :
    v'.values = v.values := by
  obtain ⟨prepared, -, hinstall⟩ := bind_eq_some_iff.mp h
  exact installIfPrepared_values hinstall

lemma le_of_prepareCapacityFor (h : v.prepareCapacityFor grant additional = some prepared) :
    v.values.length + additional ≤ prepared.getD v.capacity := by
  obtain ⟨required, hadd, h⟩ := bind_eq_some_iff.mp h
  have hrequired : required = v.values.length + additional := eq_of_checkedAdd hadd
  have hle : ∀ {target c : ℕ}, v.prepareTarget grant target = some c → target ≤ c := by
    intro target c hc
    unfold prepareTarget at hc
    split_ifs at hc
    obtain ⟨c', -, rfl⟩ := map_eq_some_iff.mp hc
    exact c'.2
  split_ifs at h with hfit
  · cases h
    simpa [hrequired] using hfit
  obtain ⟨preferred, hpref, h⟩ := bind_eq_some_iff.mp h
  have hgrow := le_of_growthTarget hpref
  split at h
  · rename_i c hc
    cases h
    exact hrequired ▸ hgrow.trans (hle hc)
  split_ifs at h
  obtain ⟨c, hc, rfl⟩ := map_eq_some_iff.mp h
  exact hrequired ▸ hle hc

/-- The new length of a successful preparation is a machine number. -/
lemma le_usizeMax_of_prepareCapacityFor (h : v.prepareCapacityFor grant additional = some prepared) :
    v.values.length + additional ≤ usizeMax := by
  obtain ⟨required, hadd, -⟩ := bind_eq_some_iff.mp h
  unfold checkedAdd at hadd
  split_ifs at hadd with hle
  exact hle

/-- The new length of a successful reservation is a machine number. -/
lemma le_usizeMax_of_tryReserve (h : v.tryReserve grant committed additional = some v') :
    v.values.length + additional ≤ usizeMax := by
  obtain ⟨prepared, hprepare, -⟩ := bind_eq_some_iff.mp h
  exact le_usizeMax_of_prepareCapacityFor hprepare

lemma le_capacity_of_tryReserve (h : v.tryReserve grant committed additional = some v') :
    v.values.length + additional ≤ v'.capacity := by
  obtain ⟨prepared, hprepare, hinstall⟩ := bind_eq_some_iff.mp h
  have hle := le_of_prepareCapacityFor hprepare
  cases prepared with
  | none =>
    cases hinstall
    exact hle
  | some c =>
    have hcap : v'.capacity = c := by
      change v.installPrepared committed c = some v' at hinstall
      unfold installPrepared at hinstall
      split_ifs at hinstall with hfits
      obtain ⟨v1, hv1, -, hcapacity⟩ := BoundedVec.rehouse_eq_some hfits.1
      cases hv1.symm.trans hinstall
      exact hcapacity
    rw [hcap]
    exact hle

lemma tryPush_eq_some (hroom : v.values.length < v.capacity) (hlen : v.values.length < usizeMax)
    (grant : Grant) (committed : Bool) (a : α) :
    ∃ v', v.tryPush grant committed a = some v' ∧ v'.values = v.values ++ [a] := by
  have hreserve : v.tryReserve grant committed 1 = some v := by
    unfold tryReserve prepareCapacityFor
    rw [checkedAdd_eq_some_of_le (by omega)]
    simp only [bind_eq_bind, bind_some]
    rw [if_pos (by omega)]
    rfl
  obtain ⟨v', hpush, hvalues, -⟩ := BoundedVec.push?_eq_some hroom a
  exact ⟨v', by rw [tryPush, hreserve]; exact hpush, hvalues⟩

lemma tryCopyFromSlice_values {source : List α}
    (h : tryCopyFromSlice grant committed source = some v) : v.values = source := by
  unfold tryCopyFromSlice at h
  split at h
  · cases h; rfl
  split at h
  · cases h
  split at h
  · cases h; rfl
  · cases h

end AdmittedVec

end Nilix
