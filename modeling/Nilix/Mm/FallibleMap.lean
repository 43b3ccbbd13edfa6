import Nilix.Foundation.SortedAssoc

/-!
# Ordered maps that never grow by themselves

`kernel/mm/fallible_map.rs`: an ordered map in one key-sorted vector, with the capacity of its
backing.  An insertion uses the capacity that is there; the backing is replaced by a separate,
explicit step.  `binary_search_by` on strictly sorted entries finds the key, if it is there, and its
place otherwise.
-/

namespace Nilix

open SortedAssoc Function

/-- `FallibleOrderedMap<K, V>`. -/
structure FallibleOrderedMap (K V : Type*) [LinearOrder K] where
  assoc : SortedAssoc K V
  capacity : ℕ
  /-- A map never holds more entries than its backing has room for. -/
  length_le : assoc.entries.length ≤ capacity

namespace FallibleOrderedMap

variable {K V : Type*} [LinearOrder K]

def new : FallibleOrderedMap K V := ⟨.empty, 0, le_rfl⟩

variable (m : FallibleOrderedMap K V)

def len : ℕ := m.assoc.entries.length

/-- `iter`: the entries in ascending key order. -/
def iter : List (K × V) := m.assoc.entries

def get (m : FallibleOrderedMap K V) (k : K) : Option V := m.assoc.get? k

def containsKey (k : K) : Bool := (m.get k).isSome

/-- A write through `get_mut`: nothing happens where the key is absent. -/
def modify (k : K) (f : V → V) : FallibleOrderedMap K V :=
  ⟨m.assoc.adjust k f, m.capacity, by rw [SortedAssoc.length_adjust]; exact m.length_le⟩

/-- The map left by `remove`; the value it returns is `get`. -/
def remove (k : K) : FallibleOrderedMap K V :=
  ⟨m.assoc.erase k, m.capacity, (m.assoc.length_erase_le k).trans m.length_le⟩

/-- `insert_unique_reserved`: `none` on a duplicate key or without spare capacity. -/
def insertUniqueReserved (k : K) (v : V) : Option (FallibleOrderedMap K V) :=
  if hkey : m.get k = none then
    if hfull : m.len = m.capacity then none
    else some ⟨m.assoc.insert k v, m.capacity, by
      rw [SortedAssoc.length_insert hkey]
      exact lt_of_le_of_ne m.length_le hfull⟩
  else none

/-- `replace_backing_deferred`: the entries move to the prepared backing if they fit. -/
def replaceBackingDeferred (prepared : ℕ) : Option (FallibleOrderedMap K V) :=
  if h : m.len ≤ prepared then some ⟨m.assoc, prepared, h⟩ else none

variable {m : FallibleOrderedMap K V} {k : K} {v : V}

lemma containsKey_iff : m.containsKey k = true ↔ ∃ v, m.get k = some v :=
  Option.isSome_iff_exists

lemma containsKey_eq_false_iff : m.containsKey k = false ↔ m.get k = none := by
  rw [containsKey, ← Bool.not_eq_true, Option.not_isSome_iff_eq_none]

@[simp] lemma get_new (k : K) : (new : FallibleOrderedMap K V).get k = none := rfl

@[simp] lemma get_remove_self (m : FallibleOrderedMap K V) (k : K) : (m.remove k).get k = none :=
  m.assoc.get?_erase_self k

variable {k' : K}

lemma get_remove_of_ne (h : k' ≠ k) : (m.remove k).get k' = m.get k' :=
  get?_erase_of_ne h

/-- A removal of `k` leaves no entry for `k'`, if there was none or `k'` is `k` itself. -/
lemma get_remove_eq_none (h : k' ≠ k → m.get k' = none) : (m.remove k).get k' = none := by
  by_cases hk : k' = k
  · rw [hk, get_remove_self]
  · rw [get_remove_of_ne hk, h hk]

@[simp] lemma get_modify_self (m : FallibleOrderedMap K V) (k : K) (f : V → V) :
    (m.modify k f).get k = (m.get k).map f :=
  m.assoc.get?_adjust_self k f

lemma get_modify_of_ne {f : V → V} (h : k' ≠ k) : (m.modify k f).get k' = m.get k' :=
  get?_adjust_of_ne h

section Assoc

variable {m' : FallibleOrderedMap K V} {assoc : SortedAssoc K V}

lemma get_of_assoc (h : m'.assoc = m.assoc) (k : K) : m'.get k = m.get k := congrArg (get? · k) h

lemma len_of_assoc (h : m'.assoc = m.assoc) : m'.len = m.len := congrArg (·.entries.length) h

lemma get_of_insert (h : m'.assoc = assoc.insert k v) : m'.get k = some v :=
  (congrArg (get? · k) h).trans (get?_insert_self ..)

lemma get_of_insert_of_ne (h : m'.assoc = assoc.insert k v) (hne : k' ≠ k) :
    m'.get k' = assoc.get? k' :=
  (congrArg (get? · k') h).trans (get?_insert_of_ne hne)

lemma len_of_insert (hkey : m.get k = none) (h : m'.assoc = m.assoc.insert k v) :
    m'.len = m.len + 1 :=
  (congrArg (·.entries.length) h).trans (length_insert hkey v)

end Assoc

/-- An insertion succeeds exactly for an absent key with spare capacity. -/
lemma insertUniqueReserved_eq_some (hkey : m.get k = none) (hroom : m.len < m.capacity) (v : V) :
    ∃ m', m.insertUniqueReserved k v = some m' ∧ m'.assoc = m.assoc.insert k v ∧
      m'.capacity = m.capacity := by
  unfold insertUniqueReserved
  rw [dif_pos hkey, dif_neg hroom.ne]
  exact ⟨_, rfl, rfl, rfl⟩

variable {m' : FallibleOrderedMap K V}

section

variable (h : m.insertUniqueReserved k v = some m')
include h

lemma of_insertUniqueReserved :
    m.get k = none ∧ m.len < m.capacity ∧ m'.assoc = m.assoc.insert k v ∧
      m'.capacity = m.capacity := by
  unfold insertUniqueReserved at h
  split_ifs at h with hkey hfull
  cases h
  exact ⟨hkey, lt_of_le_of_ne m.length_le hfull, rfl, rfl⟩

lemma len_insertUniqueReserved : m'.len = m.len + 1 := by
  obtain ⟨hkey, -, hassoc, -⟩ := of_insertUniqueReserved h
  exact len_of_insert hkey hassoc

lemma get_insertUniqueReserved_of_ne (hne : k' ≠ k) : m'.get k' = m.get k' := by
  obtain ⟨-, -, hassoc, -⟩ := of_insertUniqueReserved h
  exact get_of_insert_of_ne hassoc hne

lemma get_insertUniqueReserved_self : m'.get k = some v := by
  obtain ⟨-, -, hassoc, -⟩ := of_insertUniqueReserved h
  exact get_of_insert hassoc

end

lemma ext_assoc {m : FallibleOrderedMap K V} (hassoc : m'.assoc = m.assoc)
    (hcapacity : m'.capacity = m.capacity) : m' = m := by
  obtain ⟨assoc, capacity, hle⟩ := m
  obtain ⟨assoc', capacity', hle'⟩ := m'
  subst hassoc hcapacity
  rfl

lemma remove_insertUniqueReserved (h : m.insertUniqueReserved k v = some m') : m'.remove k = m := by
  obtain ⟨hkey, -, hassoc, hcapacity⟩ := of_insertUniqueReserved h
  refine ext_assoc ?_ hcapacity
  change m'.assoc.erase k = m.assoc
  rw [hassoc, erase_insert hkey]

/-- What a successful replacement of the backing did. -/
lemma of_replaceBackingDeferred {prepared : ℕ} (h : m.replaceBackingDeferred prepared = some m') :
    m'.assoc = m.assoc ∧ m'.capacity = prepared := by
  unfold replaceBackingDeferred at h
  split_ifs at h
  cases h
  exact ⟨rfl, rfl⟩

/-! ## Room for a key -/

/-- The key is present, or there is spare capacity to insert it. -/
def RoomFor (m : FallibleOrderedMap K V) (k : K) : Prop := m.get k = none → m.len < m.capacity

lemma lt_capacity_of_remove (h : m.get k = some v) : (m.remove k).len < (m.remove k).capacity := by
  have hlen : (m.remove k).len + 1 = m.len := length_erase h
  have hle : m.len ≤ m.capacity := m.length_le
  have hcap : (m.remove k).capacity = m.capacity := rfl
  omega

lemma RoomFor.modify (h : m.RoomFor k') (f : V → V) : (m.modify k f).RoomFor k' := by
  intro hnone
  have hlen : (m.modify k f).len = m.len := m.assoc.length_adjust k f
  rw [hlen]
  refine h ?_
  by_cases hk : k' = k
  · subst hk
    simpa using hnone
  · rwa [get_modify_of_ne hk] at hnone

lemma RoomFor.remove (h : m.RoomFor k') (k : K) : (m.remove k).RoomFor k' := by
  intro hnone
  cases hget : m.get k' with
  | none => exact (m.assoc.length_erase_le k).trans_lt (h hget)
  | some =>
    by_cases hk : k' = k
    · exact lt_capacity_of_remove (hk ▸ hget)
    rw [get_remove_of_ne hk, hget] at hnone
    cases hnone

/-! ## Maps that hold the support of a function -/

section Represents

variable [DecidableEq V] {zero : V} {R : K → V}

/-- The map holds exactly the values of `R` that differ from `zero`. -/
def Represents (m : FallibleOrderedMap K V) (zero : V) (R : K → V) : Prop :=
  ∀ k, m.get k = if R k = zero then none else some (R k)

lemma represents_new : (new : FallibleOrderedMap K V).Represents zero fun _ => zero :=
  fun k => by rw [if_pos rfl, get_new]

section

variable (h : m.Represents zero R)
include h

lemma Represents.getD (k : K) : (m.get k).getD zero = R k := by
  rw [h k]
  split_ifs with hk
  · exact hk.symm
  · rfl

lemma Represents.get_eq_some (hk : R k ≠ zero) : m.get k = some (R k) := by
  rw [h k, if_neg hk]

lemma Represents.get_eq_none_iff : m.get k = none ↔ R k = zero := by
  rw [h k]
  split_ifs with hk <;> simp [hk]

lemma Represents.of_assoc {m' : FallibleOrderedMap K V}
    (hassoc : m'.assoc = m.assoc) : m'.Represents zero R := fun k => by
  have hget : m'.get k = m.get k := congrArg (fun a => a.get? k) hassoc
  rw [hget, h k]

lemma Represents.modify (hrow : R k ≠ zero) (hv : v ≠ zero) :
    (m.modify k fun _ => v).Represents zero (update R k v) := by
  intro k'
  by_cases hk : k' = k
  · subst hk
    rw [get_modify_self, h.get_eq_some hrow, update_self, if_neg hv, Option.map_some]
  · rw [get_modify_of_ne hk, update_of_ne hk, h k']

lemma Represents.prune (k : K) (f : V → V) :
    ((m.modify k f).remove k).Represents zero (update R k zero) := by
  intro k'
  by_cases hk : k' = k
  · subst hk
    rw [get_remove_self, update_self, if_pos rfl]
  · rw [get_remove_of_ne hk, get_modify_of_ne hk, update_of_ne hk, h k']

lemma Represents.insert {m' : FallibleOrderedMap K V}
    (hassoc : m'.assoc = m.assoc.insert k v) (hv : v ≠ zero) :
    m'.Represents zero (update R k v) := by
  intro k'
  by_cases hk : k' = k
  · subst hk
    rw [get_of_insert hassoc, update_self, if_neg hv]
  rw [get_of_insert_of_ne hassoc hk, update_of_ne hk]
  exact h k'

end

end Represents

end FallibleOrderedMap

end Nilix
