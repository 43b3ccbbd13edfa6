import Nilix.Mm.AdmittedVec
import Nilix.Mm.FallibleMap

/-!
# Aggregate-admitted containers of the network stack

`kernel/net/src/admitted.rs`: growth is planned from the live length and capacity, backing is
prepared outside of any lock, and installing it moves the entries.  A plan carries the heap class of
the container it is made for and is installed only there, so the class is left out.
-/

namespace Nilix.Net

open Option

/-- The answers of the heap ledger and of the allocator during one growth: to requests for detached
backing, and to the conversion of the reservation into a charge. -/
structure AllocEnv where
  grant : Grant
  committed : Bool

structure CapacityPlan where
  required : ℕ
  preferred : ℕ

/-- `capacity_plan`: `none` is an arithmetic error, `some none` says the capacity suffices. -/
def capacityPlan (len capacity additional : ℕ) : Option (Option CapacityPlan) := do
  let required ← checkedAdd len additional
  if required ≤ capacity then some none
  else
    let preferred ← growthTarget capacity required
    some (some ⟨required, preferred⟩)

/-- `PreparedAdmittedMapCapacity::try_from_plan`, and that of vectors: the capacity of the detached
backing.  The amortised request is retried at the exact size. -/
def tryFromPlan (grant : Grant) (plan : CapacityPlan) : Option ℕ :=
  match grant plan.preferred with
  | some c => some c.1
  | none => if plan.preferred ≠ plan.required then (grant plan.required).map Subtype.val else none

/-- A plan asks for enough, and what is prepared from it suffices. -/
lemma le_of_tryFromPlan {len capacity additional c : ℕ} {plan : CapacityPlan} {grant : Grant}
    (hplan : capacityPlan len capacity additional = some (some plan))
    (h : tryFromPlan grant plan = some c) : plan.required ≤ c := by
  have hpreferred : plan.required ≤ plan.preferred := by
    unfold capacityPlan at hplan
    obtain ⟨required, -, hplan⟩ := bind_eq_some_iff.mp hplan
    split_ifs at hplan
    · cases some.inj hplan
    obtain ⟨preferred, hpref, heq⟩ := bind_eq_some_iff.mp hplan
    obtain rfl := some.inj (some.inj heq)
    exact le_of_growthTarget hpref
  unfold tryFromPlan at h
  split at h
  · rename_i c' _
    exact some.inj h ▸ hpreferred.trans c'.2
  split_ifs at h
  obtain ⟨c', -, rfl⟩ := map_eq_some_iff.mp h
  exact c'.2

lemma capacityPlan_cases {len capacity additional : ℕ} {o : Option CapacityPlan}
    (h : capacityPlan len capacity additional = some o) :
    (o = none ∧ len + additional ≤ capacity) ∨
      ∃ plan, o = some plan ∧ plan.required = len + additional ∧ capacity < len + additional := by
  unfold capacityPlan at h
  obtain ⟨required, hadd, h⟩ := bind_eq_some_iff.mp h
  have hrequired : required = len + additional := eq_of_checkedAdd hadd
  subst hrequired
  split_ifs at h with hle
  · exact .inl ⟨(some.inj h).symm, hle⟩
  obtain ⟨preferred, -, heq⟩ := bind_eq_some_iff.mp h
  exact .inr ⟨_, (some.inj heq).symm, rfl, Nat.lt_of_not_le hle⟩

/-- `AdmittedMap<K, V>`. -/
abbrev AdmittedMap (K V : Type) [LinearOrder K] := FallibleOrderedMap K V

namespace AdmittedMap

variable {K V : Type} [LinearOrder K]

variable (m : AdmittedMap K V)

def capacityPlanFor (additional : ℕ) : Option (Option CapacityPlan) :=
  capacityPlan m.len m.capacity additional

def installPreparedDeferred (committed : Bool) (prepared : ℕ) : Option (AdmittedMap K V) :=
  if prepared < m.len then none
  else if committed then m.replaceBackingDeferred prepared else none

def ensureCapacityFor (env : AllocEnv) (additional : ℕ) :
    Option (AdmittedMap K V) := do
  match ← capacityPlanFor m additional with
  | none => some m
  | some plan =>
    let prepared ← tryFromPlan env.grant plan
    installPreparedDeferred m env.committed prepared

lemma of_installPreparedDeferred {m m' : AdmittedMap K V} {committed : Bool} {prepared : ℕ}
    (h : installPreparedDeferred m committed prepared = some m') :
    m'.assoc = m.assoc ∧ m'.capacity = prepared := by
  unfold installPreparedDeferred at h
  split_ifs at h
  exact FallibleOrderedMap.of_replaceBackingDeferred h

/-- After a successful call there is room, and the entries are the same. -/
lemma of_ensureCapacityFor {m m' : AdmittedMap K V} {env : AllocEnv} {additional : ℕ}
    (h : ensureCapacityFor m env additional = some m') :
    m'.assoc = m.assoc ∧ m.len + additional ≤ m'.capacity := by
  unfold ensureCapacityFor at h
  obtain ⟨plan?, hplan, h⟩ := bind_eq_some_iff.mp h
  rcases capacityPlan_cases hplan with ⟨rfl, hle⟩ | ⟨plan, rfl, hrequired, -⟩
  · cases h
    exact ⟨rfl, hle⟩
  obtain ⟨prepared, hprepared, hinstall⟩ := bind_eq_some_iff.mp h
  obtain ⟨hassoc, hcapacity⟩ := of_installPreparedDeferred hinstall
  exact ⟨hassoc, hrequired ▸ hcapacity ▸ le_of_tryFromPlan hplan hprepared⟩

/-- `try_insert`: a present key is replaced, an absent one is added after growing. -/
def tryInsert (env : AllocEnv) (k : K) (v : V) : Option (AdmittedMap K V) :=
  if m.containsKey k then some (m.modify k fun _ => v)
  else do
    let m' ← ensureCapacityFor m env 1
    m'.insertUniqueReserved k v

end AdmittedMap

/-- `AdmittedVec::ensure_capacity_for`, without a namespace budget. -/
def ensureVecCapacityFor {α : Type} (v : AdmittedVec α) (env : AllocEnv) (additional : ℕ) :
    Option (AdmittedVec α) := do
  match ← capacityPlan v.values.length v.capacity additional with
  | none => some v
  | some plan =>
    let prepared ← tryFromPlan env.grant plan
    if prepared < v.values.length then none
    else if env.committed then v.rehouse prepared else none

/-- After a successful call there is room, and the values are the same. -/
lemma of_ensureVecCapacityFor {α : Type} {v v' : AdmittedVec α} {env : AllocEnv}
    {additional : ℕ} (h : ensureVecCapacityFor v env additional = some v') :
    v'.values = v.values ∧ v.values.length + additional ≤ v'.capacity := by
  obtain ⟨plan?, hplan, h⟩ := bind_eq_some_iff.mp h
  rcases capacityPlan_cases hplan with ⟨rfl, hle⟩ | ⟨plan, rfl, hrequired, -⟩
  · cases h
    exact ⟨rfl, hle⟩
  obtain ⟨prepared, hprepared, hinstall⟩ := bind_eq_some_iff.mp h
  have hle := le_of_tryFromPlan hplan hprepared
  split_ifs at hinstall with hshort hcommitted
  obtain ⟨v1, hv1, hvalues, hcapacity⟩ :=
    BoundedVec.rehouse_eq_some (Nat.le_of_not_lt hshort)
  cases hv1.symm.trans hinstall
  exact ⟨hvalues, by omega⟩

end Nilix.Net
