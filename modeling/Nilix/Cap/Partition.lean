import Nilix.Cap.Table
import Nilix.Foundation.Fallible
import Nilix.Foundation.SlotPartition

/-!
# The slot partition of a capability table

`Partitioned t tokens` relates a table to the reservations callers hold on it: free, occupied and
reserved indices partition the slots, the reservation counter is exact, and the free list has room
for every slot.  For each function of the table, one lemma says that from a partitioned table it does
not fault, keeps the table partitioned, and what it does to the live generations (`Carries`).
-/

namespace Nilix.Cap

open List Option

/-- `PreparedCapAllocation`: the identity an outstanding reservation owns. -/
structure PreparedCapAllocation where
  index : ℕ
  generation : ℕ
  deriving DecidableEq

def PreparedCapAllocation.capId (p : PreparedCapAllocation) : CapId :=
  CapId.fromParts p.index p.generation

namespace CapTableInner

/-- The table agrees with the reservations `tokens` that callers hold on it. -/
structure Partitioned (t : CapTableInner) (tokens : List PreparedCapAllocation) : Prop where
  /-- Free, occupied and reserved indices partition the slots. -/
  partition : SlotPartition t.slots.values t.free.values (tokens.map (·.index))
  /-- The reservation counter counts the reservations. -/
  reserved_eq : t.reservedAllocations = tokens.length
  /-- Slot indices fit in 16 bits. -/
  slots_le : t.slots.values.length ≤ maxCapSlots
  /-- The free list has room for every slot. -/
  free_capacity : t.slots.values.length ≤ t.free.capacity

/-- The generation of the entry at an index. -/
def liveGeneration (t : CapTableInner) (i : ℕ) : Option ℕ :=
  (t.slots.values[i]?.join).map CapSlot.generation

/-- Every live generation of `t'` was live in `t` at the same index, or is the one of the identifier
`issued` in between. -/
def Carries (t t' : CapTableInner) (issued : Option CapId) : Prop :=
  ∀ i g, t'.liveGeneration i = some g →
    t.liveGeneration i = some g ∨ issued = some (CapId.fromParts i g)

/-- What `exec` leaves of a slot. -/
def surviving (slot : Option CapSlot) : Option CapSlot := slot.filter fun s => s.entry.inheritsOnExec

/-- A step that neither consumes a generation nor makes anything live. -/
structure Keeps (t t' : CapTableInner) : Prop where
  nextGeneration_eq : t'.nextGeneration = t.nextGeneration
  live : ∀ i g, t'.liveGeneration i = some g → t.liveGeneration i = some g

lemma Keeps.refl (t : CapTableInner) : Keeps t t := ⟨rfl, fun _ _ h => h⟩

lemma Keeps.trans {t1 t2 t3 : CapTableInner} (h1 : Keeps t1 t2) (h2 : Keeps t2 t3) : Keeps t1 t3 :=
  ⟨h2.nextGeneration_eq.trans h1.nextGeneration_eq, fun i g h => h1.live i g (h2.live i g h)⟩

variable {t' t : CapTableInner}

lemma Keeps.carries (h : Keeps t t') (issued : Option CapId) : Carries t t' issued :=
  fun i g hg => .inl (h.live i g hg)

variable {i : ℕ}

lemma liveGeneration_of_set {o : Option CapSlot}
    (h : t'.slots.values = t.slots.values.set i o) (hi : i < t.slots.values.length) (j : ℕ) :
    t'.liveGeneration j = if i = j then o.map CapSlot.generation else t.liveGeneration j := by
  unfold liveGeneration
  rw [h, List.getElem?_set]
  split_ifs with hij
  · rfl
  · rfl

lemma liveGeneration_of_vacate (h : t'.slots.values = t.slots.values.set i none)
    (hi : i < t.slots.values.length) :
    ∀ j g, t'.liveGeneration j = some g → t.liveGeneration j = some g := by
  intro j g hg
  rw [liveGeneration_of_set h hi] at hg
  split_ifs at hg with hij
  · cases hg
  · exact hg

lemma lookupSlot_eq_some {id : CapId} {slot : CapSlot} :
    t.lookupSlot id = some slot ↔ id.isValid = true ∧
      t.slots.values[id.index]? = some (some slot) ∧ slot.generation = id.generation := by
  unfold lookupSlot
  by_cases hv : id.isValid = true
  · simp only [hv, if_true, true_and]
    split
    · rename_i s hs
      rw [hs]
      split_ifs with hg
      · constructor
        · intro h
          cases h
          exact ⟨rfl, hg⟩
        · rintro ⟨h, -⟩
          exact some.inj h
      constructor
      · intro h
        cases h
      rintro ⟨h, h'⟩
      obtain rfl := some.inj (some.inj h)
      exact absurd h' hg
    · rename_i hnone
      constructor
      · intro h
        cases h
      rintro ⟨h, -⟩
      exact absurd h (hnone slot)
  · simp [hv]

/-- `lookup` succeeds iff the identifier is valid and its generation is live at its index. -/
lemma lookup_isOk_iff {id : CapId} : (∃ entry, t.lookup id = .ok entry) ↔
      id.isValid = true ∧ t.liveGeneration id.index = some id.generation := by
  unfold lookup liveGeneration
  cases hlookup : t.lookupSlot id with
  | none =>
    constructor
    · rintro ⟨entry, h⟩
      cases h
    rintro ⟨hv, hg⟩
    obtain ⟨slot, hslot, hgen⟩ := map_eq_some_iff.mp hg
    have hsome := lookupSlot_eq_some.mpr ⟨hv, join_eq_some_iff.mp hslot, hgen⟩
    rw [hlookup] at hsome
    cases hsome
  | some slot =>
    obtain ⟨hv, hslot, hgen⟩ := lookupSlot_eq_some.mp hlookup
    constructor
    · intro _
      exact ⟨hv, by rw [hslot]; exact congrArg some hgen⟩
    intro _
    exact ⟨slot.entry, rfl⟩

namespace Partitioned

variable {t : CapTableInner} {tokens : List PreparedCapAllocation} {tok : PreparedCapAllocation}

/-- Giving a token back removes its index from the held ones. -/
lemma map_erase_perm (htok : tok ∈ tokens) :
    ((tokens.map (·.index)).erase tok.index).Perm ((tokens.erase tok).map (·.index)) := by
  have hperm := (perm_cons_erase htok).map (·.index)
  have herase := hperm.erase tok.index
  rwa [map_cons, erase_cons_head] at herase

variable {i : ℕ}

/-- A push of an index that is in range and not free stays within the backing of the free list. -/
lemma pushWithin_free (h : Partitioned t tokens) (hi : i < t.slots.values.length)
    (hfree : i ∉ t.free.values) :
    ∃ v, pushWithin t.free i = .ok v ∧ v.values = t.free.values ++ [i] ∧
      v.capacity = t.free.capacity := by
  have hroom : t.free.values.length < t.free.capacity :=
    lt_of_lt_of_le (h.partition.free_length_lt hi hfree) h.free_capacity
  obtain ⟨v, hpush, hvalues, hcap⟩ := BoundedVec.push?_eq_some hroom i
  refine ⟨v, ?_, hvalues, hcap⟩
  unfold pushWithin
  rw [hpush]

/-- Reclaiming keeps the partition: it only happens without occupied and reserved indices. -/
lemma reclaimIfUnused (h : Partitioned t tokens) :
    Partitioned t.reclaimIfUnused tokens ∧ Keeps t t.reclaimIfUnused := by
  unfold CapTableInner.reclaimIfUnused
  split_ifs with hused
  · exact ⟨h, Keeps.refl t⟩
  rw [not_or, not_not] at hused
  have hnil : tokens = [] := length_eq_zero_iff.mp (h.reserved_eq ▸ hused.1)
  subst hnil
  refine ⟨⟨SlotPartition.nil, h.reserved_eq, Nat.zero_le _, Nat.zero_le _⟩, rfl, ?_⟩
  intro i g hg
  simp [liveGeneration, BoundedVec.empty] at hg

lemma slot_reclaimIfUnused (i : ℕ) :
    t.reclaimIfUnused.slots.values[i]?.join = t.slots.values[i]?.join := by
  unfold CapTableInner.reclaimIfUnused
  split_ifs with hused
  · rfl
  cases hslot : t.slots.values[i]?.join with
  | none => rfl
  | some slot =>
    have hmem := mem_of_getElem? (join_eq_some_iff.mp hslot)
    exact absurd (.inr (any_eq_true.mpr ⟨_, hmem, rfl⟩)) hused

/-- The assertions on a reservation hold for every token. -/
lemma reservedVacant_of_mem (h : Partitioned t tokens) (htok : tok ∈ tokens) :
    t.reservedVacant tok.index = true ∧ tok.index < t.slots.values.length ∧
      tok.index ∉ t.free.values := by
  obtain ⟨hlt, hvacant, hfree⟩ := h.partition.of_mem_held (mem_map_of_mem htok)
  refine ⟨?_, hlt, hfree⟩
  have hpos : t.reservedAllocations ≠ 0 := by
    rw [h.reserved_eq]
    exact (length_pos_of_mem htok).ne'
  have hnone : t.slots.values[tok.index]? = some none := by
    rw [List.getElem?_eq_getElem hlt]
    cases hslot : t.slots.values[tok.index] with
    | none => rfl
    | some slot =>
      have hocc := occupied_iff.mpr ⟨slot, by rw [List.getElem?_eq_getElem hlt, hslot]⟩
      rw [hvacant] at hocc
      cases hocc
  simp [reservedVacant, hpos, hnone]

/-! ## Reservation, installation, cancellation -/

/-- The replacement prepared for a vector whose live backing is `live`: it, or the live backing, has
room for `n` elements. -/
def Sufficient (live n : ℕ) (prepared : Option ℕ) : Prop := n ≤ prepared.getD live

variable {n : ℕ}

/-- A preparation for at least `n` elements suffices for `n` elements. -/
lemma sufficient_of_prepareVec {grant : Grant} {live capacity : ℕ} {prepared : Option ℕ}
    (hle : n ≤ capacity) (h : prepareVec grant live n capacity = some prepared) :
    Sufficient live n prepared := by
  unfold prepareVec at h
  split_ifs at h with hlive
  · obtain ⟨c, -, rfl⟩ := map_eq_some_iff.mp h
    exact hle.trans c.2
  cases h
  exact Nat.le_of_not_lt hlive

lemma installIfPrepared_ok {α : Type*} {v : BoundedVec α} {prepared : Option ℕ}
    (hn : v.values.length < n) (hprep : Sufficient v.capacity n prepared) :
    ∃ v', installIfPrepared v prepared = .ok v' ∧ v'.values = v.values ∧ n ≤ v'.capacity := by
  cases prepared with
  | none => exact ⟨v, rfl, rfl, hprep⟩
  | some c =>
    have hc : n ≤ c := hprep
    obtain ⟨v', hre, hvalues, hcap⟩ := BoundedVec.rehouse_eq_some (hn.le.trans hc)
    refine ⟨v', ?_, hvalues, hcap ▸ hc⟩
    change installCapVec v c = .ok v'
    rw [installCapVec, hre]

/-- What a successful preparation guarantees about the two replacements. -/
lemma sufficient_of_prepareGrowth {env : GrowEnv} {capacity : ℕ} {a b : Option ℕ}
    (hle : n ≤ capacity) (h : t.prepareGrowth env n capacity = some (a, b)) :
    Sufficient t.slots.capacity n a ∧ Sufficient t.free.capacity n b := by
  unfold prepareGrowth at h
  split at h
  · cases h
  rename_i slots hslots
  obtain ⟨free, hfree, heq⟩ := map_eq_some_iff.mp h
  cases heq
  exact ⟨sufficient_of_prepareVec hle hslots, sufficient_of_prepareVec hle hfree⟩

section

variable (h : Partitioned t tokens)
include h

/-- The free list of a partitioned table is no longer than its slots. -/
lemma free_length_le : t.free.values.length ≤ t.slots.values.length := by
  have hsub : t.free.values ⊆ range t.slots.values.length := by
    intro i hi
    exact mem_range.mpr ((h.partition.mem_iff i).mp (.inl hi))
  have hle := (subperm_of_subset h.partition.free_nodup hsub).length_le
  rwa [length_range] at hle

variable (env : GrowEnv)

/-- The growth branch does not fault; when it succeeds, it appends one vacant slot and holds it. -/
lemma growSlot : (∃ e, t.growSlot env = .ok (.error e)) ∨
      ∃ t', t.growSlot env = .ok (.ok (t.slots.values.length, t')) ∧
        t'.slots.values = t.slots.values ++ [none] ∧ t'.free.values = t.free.values ∧
        t'.slots.values.length ≤ maxCapSlots ∧ t'.slots.values.length ≤ t'.free.capacity := by
  unfold CapTableInner.growSlot
  split_ifs with hfull
  · exact .inl ⟨_, rfl⟩
  rw [not_le] at hfull
  extract_lets newLen preferred prepared
  cases hprep : prepared with
  | none => exact .inl ⟨_, rfl⟩
  | some p =>
    obtain ⟨a, b⟩ := p
    have hspec : Sufficient t.slots.capacity newLen a ∧ Sufficient t.free.capacity newLen b := by
      simp only [prepared] at hprep
      split at hprep
      · rename_i q hq
        cases hprep
        exact sufficient_of_prepareGrowth (le_max_right _ _) hq
      split_ifs at hprep
      exact sufficient_of_prepareGrowth le_rfl hprep
    obtain ⟨slots, hs, hsv, hsc⟩ := installIfPrepared_ok (lt_add_one _) hspec.1
    obtain ⟨free, hf, hfv, hfc⟩ :=
      installIfPrepared_ok (Nat.lt_succ_of_le h.free_length_le) hspec.2
    obtain ⟨slots', hpush, hpv, -⟩ := BoundedVec.push?_eq_some
      (show slots.values.length < slots.capacity by rw [hsv]; exact hsc) none
    refine .inr ⟨{ t with slots := slots', free := free }, ?_, ?_, hfv, ?_, ?_⟩
    · have hmod : slots.values.length % 2 ^ 16 = t.slots.values.length := by
        rw [hsv]
        exact Nat.mod_eq_of_lt (hfull.trans (by decide))
      simp only [hs, hf, pushWithin, hpush, hmod, ok_bind, pure_eq_ok]
    · rw [hpv, hsv]
    · simpa [hpv, hsv] using hfull
    · have hlen : slots'.values.length = newLen := by simp [hpv, hsv, newLen]
      exact hlen.trans_le hfc

/-- Taking an index does not fault; a taken index is held, and no slot changes its entry. -/
lemma takeIndex :
    (∃ e, t.takeIndex env = .ok (.error e)) ∨ ∃ index t', t.takeIndex env = .ok (.ok (index, t')) ∧
        SlotPartition t'.slots.values t'.free.values (tokens.map (·.index) ++ [index]) ∧
        t'.slots.values.length ≤ maxCapSlots ∧ t'.slots.values.length ≤ t'.free.capacity ∧
        ∀ i, t'.liveGeneration i = t.liveGeneration i := by
  unfold CapTableInner.takeIndex
  cases hlast : t.free.values.getLast? with
  | none =>
    rcases h.growSlot env with ⟨e, he⟩ | ⟨t', ht', hslots, hfree, hlen, hcap⟩
    · exact .inl ⟨e, he⟩
    refine .inr ⟨_, t', ht', ?_, hlen, hcap, ?_⟩
    · rw [hslots, hfree]
      exact h.partition.grow
    intro i
    unfold liveGeneration
    rw [hslots]
    rcases lt_trichotomy i t.slots.values.length with hi | rfl | hi
    · rw [List.getElem?_append_left hi]
    · simp
    · rw [List.getElem?_eq_none (by simpa using hi), List.getElem?_eq_none hi.le]
  | some index =>
    refine .inr ⟨index, _, rfl, ?_, h.slots_le, h.free_capacity, fun i => rfl⟩
    have hfree : t.free.values = t.free.values.dropLast ++ [index] :=
      (dropLast_append_getLast? index hlast).symm
    have hpart := h.partition
    rw [hfree] at hpart
    exact hpart.take

/-- `reserve_allocation` does not fault.  A refusal leaves the table as it was; a grant holds a new
index under the next generation and makes nothing live. -/
lemma reserveAllocation : (∃ e, t.reserveAllocation env = .ok (.error e, t)) ∨
      ∃ index t', t.reserveAllocation env = .ok (.ok (index, t.nextGeneration), t') ∧
        Partitioned t' (tokens ++ [⟨index, t.nextGeneration⟩]) ∧
        t.nextGeneration < maxGeneration ∧ t'.nextGeneration = t.nextGeneration + 1 ∧
        ∀ i, t'.liveGeneration i = t.liveGeneration i := by
  unfold CapTableInner.reserveAllocation
  split_ifs with hgen
  · exact .inl ⟨_, rfl⟩
  rw [not_le] at hgen
  cases hadd : checkedAdd t.reservedAllocations 1 with
  | none => exact .inl ⟨_, rfl⟩
  | some n =>
    have hn : n = t.reservedAllocations + 1 := eq_of_checkedAdd hadd
    rcases h.takeIndex env with ⟨e, he⟩ | ⟨index, t', ht', hpart, hlen, hcap, hlive⟩
    · refine .inl ⟨e, ?_⟩
      simp [he]
    refine .inr ⟨index,
      { t' with nextGeneration := t.nextGeneration + 1, reservedAllocations := n },
      ?_, ⟨?_, ?_, hlen, hcap⟩, hgen, rfl, hlive⟩
    · simp [ht']
    · rw [map_append]
      exact hpart
    · rw [hn, h.reserved_eq, length_append, length_singleton]

/-- `install_reserved` of a token does not fault: the slot it owns becomes live under its
generation, and the token is spent. -/
lemma installReserved (htok : tok ∈ tokens) (entry : CapEntry) :
    ∃ t', t.installReserved tok.index tok.generation entry = .ok (tok.capId, t') ∧
      Partitioned t' (tokens.erase tok) ∧ t'.nextGeneration = t.nextGeneration ∧
      Carries t t' (some tok.capId) := by
  obtain ⟨hvacant, hlt, hfree⟩ := h.reservedVacant_of_mem htok
  refine ⟨{ t with
      slots := t.slots.set tok.index (some ⟨tok.generation, entry⟩)
      reservedAllocations := t.reservedAllocations - 1 }, ?_, ⟨?_, ?_, ?_, ?_⟩, rfl, ?_⟩
  · simp [CapTableInner.installReserved, hvacant, hfree, PreparedCapAllocation.capId]
  · exact (h.partition.fill (mem_map_of_mem htok) _).perm_held (map_erase_perm htok)
  · rw [length_erase_of_mem htok]
    exact congrArg (· - 1) h.reserved_eq
  · simpa using h.slots_le
  · simpa using h.free_capacity
  · intro i g hg
    rw [liveGeneration_of_set rfl hlt] at hg
    split_ifs at hg with hi
    · right
      rw [← hi, ← some.inj hg]
      rfl
    · exact .inl hg

/-- `cancel_reserved` of a token does not fault: its index is free again. -/
lemma cancelReserved (htok : tok ∈ tokens) :
    ∃ t', t.cancelReserved tok.index = .ok t' ∧ Partitioned t' (tokens.erase tok) ∧ Keeps t t' := by
  obtain ⟨hvacant, hlt, hfree⟩ := h.reservedVacant_of_mem htok
  obtain ⟨free, hpush, hvalues, hcap⟩ := h.pushWithin_free hlt hfree
  have hpart : Partitioned { t with free := free, reservedAllocations := t.reservedAllocations - 1 }
      (tokens.erase tok) := by
    refine ⟨?_, ?_, h.slots_le, ?_⟩
    · rw [hvalues]
      exact (h.partition.release (mem_map_of_mem htok)).perm_held (map_erase_perm htok)
    · rw [length_erase_of_mem htok]
      exact congrArg (· - 1) h.reserved_eq
    · exact hcap ▸ h.free_capacity
  have hfirst : Keeps t { t with free := free, reservedAllocations := t.reservedAllocations - 1 } :=
    ⟨rfl, fun i g hg => hg⟩
  obtain ⟨hpart', hkeeps⟩ := hpart.reclaimIfUnused
  refine ⟨_, ?_, hpart', hfirst.trans hkeeps⟩
  simp only [CapTableInner.cancelReserved, hvacant, Bool.not_true, Bool.false_eq_true, if_false,
    contains_eq_mem, hfree, decide_false, not_lt.mpr h.free_capacity, hpush, bind,
    Except.bind, pure, Except.pure]

/-- An allocation does not fault.  A refusal leaves the table as it was; otherwise the identifier
returned is made of a held index and the generation that was next. -/
def Allocates (t : CapTableInner) (tokens : List PreparedCapAllocation)
    (f : Except CapFault (Except CapError CapId × CapTableInner)) : Prop :=
  (∃ e, f = .ok (.error e, t)) ∨
    ∃ index t', f = .ok (.ok (CapId.fromParts index t.nextGeneration), t') ∧ index < maxCapSlots ∧
      Partitioned t' tokens ∧ t.nextGeneration < maxGeneration ∧
      t'.nextGeneration = t.nextGeneration + 1 ∧
      Carries t t' (some (CapId.fromParts index t.nextGeneration))

lemma allocate (entry : CapEntry) : Allocates t tokens (t.allocate env entry) := by
  rcases h.reserveAllocation env with ⟨e, he⟩ | ⟨index, t1, ht1, hpart1, hlt, hgen, hlive⟩
  · refine .inl ⟨e, ?_⟩
    simp [CapTableInner.allocate, he]
  have htok : (⟨index, t.nextGeneration⟩ : PreparedCapAllocation) ∈
      tokens ++ [⟨index, t.nextGeneration⟩] := by simp
  obtain ⟨t2, ht2, hpart2, hgen2, hcarries⟩ := hpart1.installReserved htok entry
  refine .inr ⟨index, t2, ?_, ?_, ?_, hlt, hgen2.trans hgen, ?_⟩
  · simp only [CapTableInner.allocate, ht1, ht2, ok_bind, pure_eq_ok]
    rfl
  · exact (hpart1.partition.of_mem_held (mem_map_of_mem htok)).1.trans_le hpart1.slots_le
  · have hperm : ((tokens ++ [(⟨index, t.nextGeneration⟩ : PreparedCapAllocation)]).erase
        ⟨index, t.nextGeneration⟩).Perm tokens := by
      have hcons := (perm_append_singleton
        (⟨index, t.nextGeneration⟩ : PreparedCapAllocation) tokens).erase
        ⟨index, t.nextGeneration⟩
      rwa [erase_cons_head] at hcons
    exact ⟨hpart2.partition.perm_held (hperm.map _), hpart2.reserved_eq.trans hperm.length_eq,
      hpart2.slots_le, hpart2.free_capacity⟩
  · intro i g hg
    rw [← hlive i]
    exact hcarries i g hg

end

/-! ## Revocation, reference counts and `exec` -/

variable {slot : CapSlot}

section

variable (h : Partitioned t tokens)
include h

/-- Vacating an occupied slot within the backing of the free list. -/
lemma vacateSlot (hslot : t.slots.values[i]? = some (some slot)) :
    ∃ free, pushWithin t.free (i % 2 ^ 16) = .ok free ∧
      Partitioned { t with slots := t.slots.set i none, free := free } tokens ∧
      Keeps t { t with slots := t.slots.set i none, free := free } := by
  have hocc : occupied t.slots.values i = true := occupied_iff.mpr ⟨slot, hslot⟩
  have hlt := lt_length_of_occupied hocc
  have hmod : i % 2 ^ 16 = i :=
    Nat.mod_eq_of_lt ((hlt.trans_le h.slots_le).trans (by decide))
  obtain ⟨free, hpush, hvalues, hcap⟩ := h.pushWithin_free hlt (h.partition.of_occupied hocc).1
  refine ⟨free, by rw [hmod]; exact hpush, ⟨?_, h.reserved_eq, ?_, ?_⟩, rfl, ?_⟩
  · rw [hvalues]
    exact h.partition.vacate hocc
  · simpa using h.slots_le
  · simpa [hcap] using h.free_capacity
  · exact liveGeneration_of_vacate rfl hlt

/-- Rewriting the entry of an occupied slot under its generation. -/
lemma replaceSlot {slot' : CapSlot}
    (hslot : t.slots.values[i]? = some (some slot)) (hgen : slot'.generation = slot.generation) :
    Partitioned { t with slots := t.slots.set i (some slot') } tokens ∧
      Keeps t { t with slots := t.slots.set i (some slot') } := by
  have hi : i < t.slots.values.length := (List.getElem?_eq_some_iff.mp hslot).1
  refine ⟨⟨?_, h.reserved_eq, ?_, ?_⟩, rfl, fun j g hg => ?_⟩
  · exact h.partition.replace (occupied_iff.mpr ⟨slot, hslot⟩) slot'
  · simpa using h.slots_le
  · simpa using h.free_capacity
  · rw [liveGeneration_of_set rfl hi] at hg
    split_ifs at hg with hij
    · subst hij
      unfold liveGeneration
      rw [hslot]
      simpa [hgen] using hg
    · exact hg

section

variable (id : CapId)

/-- `revoke_retaining_capacity` does not fault, keeps the number of slots and makes nothing live. -/
lemma revokeRetainingCapacity :
    ∃ r t', t.revokeRetainingCapacity id = .ok (r, t') ∧ Partitioned t' tokens ∧ Keeps t t' ∧
      t'.slots.values.length = t.slots.values.length := by
  unfold CapTableInner.revokeRetainingCapacity
  cases hlookup : t.lookupSlot id with
  | none => exact ⟨_, _, rfl, h, Keeps.refl t, rfl⟩
  | some slot =>
    obtain ⟨free, hpush, hpart, hkeeps⟩ := h.vacateSlot (lookupSlot_eq_some.mp hlookup).2.1
    refine ⟨.ok slot.entry, _, ?_, hpart, hkeeps, by simp⟩
    simp only [not_lt.mpr h.free_capacity, if_false, hpush, ok_bind, pure_eq_ok]

lemma revoke : ∃ r t', t.revoke id = .ok (r, t') ∧ Partitioned t' tokens ∧ Keeps t t' := by
  obtain ⟨r, t1, ht1, hpart1, hkeeps1, -⟩ := h.revokeRetainingCapacity id
  cases r with
  | error e =>
    refine ⟨.error e, t1, ?_, hpart1, hkeeps1⟩
    simp [CapTableInner.revoke, ht1]
  | ok entry =>
    obtain ⟨hpart2, hkeeps2⟩ := hpart1.reclaimIfUnused
    refine ⟨.ok entry, _, ?_, hpart2, hkeeps1.trans hkeeps2⟩
    simp [CapTableInner.revoke, ht1]

/-- Updating the entry an identifier resolves to makes nothing live. -/
lemma updateEntry (f : CapEntry → CapEntry) :
    Partitioned (t.updateEntry id f) tokens ∧ Keeps t (t.updateEntry id f) := by
  unfold CapTableInner.updateEntry
  cases hlookup : t.lookupSlot id with
  | none => exact ⟨h, Keeps.refl t⟩
  | some => exact h.replaceSlot (lookupSlot_eq_some.mp hlookup).2.1 rfl

lemma incrementRefcount :
    Partitioned (t.incrementRefcount id).2 tokens ∧ Keeps t (t.incrementRefcount id).2 := by
  unfold CapTableInner.incrementRefcount
  cases t.lookup id with
  | error => exact ⟨h, Keeps.refl t⟩
  | ok => exact h.updateEntry id _

lemma decrementRefcount :
    Partitioned (t.decrementRefcount id).2 tokens ∧ Keeps t (t.decrementRefcount id).2 := by
  unfold CapTableInner.decrementRefcount
  cases t.lookup id with
  | error => exact ⟨h, Keeps.refl t⟩
  | ok => exact h.updateEntry id fun e => e.decrementRefcount.2

end

/-- A critical section of `apply_cloexec` does not fault and makes nothing live.  It detaches an
entry, or it finds that all entries survive `exec` and changes nothing. -/
lemma applyCloexecStep :
    ∃ r t', t.applyCloexecStep = .ok (r, t') ∧ Partitioned t' tokens ∧ Keeps t t' ∧
      (r = none → t' = t ∧ ∀ slot, some slot ∈ t.slots.values → slot.entry.inheritsOnExec) ∧
      (r.isSome → ∃ i slot, t.slots.values[i]? = some (some slot) ∧
        slot.entry.inheritsOnExec = false ∧ t'.slots.values = t.slots.values.set i none) := by
  unfold CapTableInner.applyCloexecStep CapTableInner.takeCloexecSlot
  rw [if_neg (not_lt.mpr h.free_capacity)]
  extract_lets index
  cases hslot : t.slots.values[index]?.join with
  | none =>
    refine ⟨none, t, rfl, h, Keeps.refl t, fun _ => ⟨rfl, ?_⟩, fun hr => by cases hr⟩
    intro slot hmem
    by_contra hexec
    -- The search would have stopped at this slot, which is not vacant.
    have hlt : index < t.slots.values.length :=
      findIdx_lt_length_of_exists ⟨some slot, hmem, by simpa using hexec⟩
    have hfound : (t.slots.values[index]).any (fun s => !s.entry.inheritsOnExec) = true :=
      findIdx_getElem
    rw [List.getElem?_eq_getElem hlt, join_some] at hslot
    rw [hslot] at hfound
    cases hfound
  | some slot =>
    have hsome := join_eq_some_iff.mp hslot
    obtain ⟨hlt, hget⟩ := List.getElem?_eq_some_iff.mp hsome
    have hfound : (t.slots.values[index]).any (fun s => !s.entry.inheritsOnExec) = true :=
      findIdx_getElem
    rw [hget] at hfound
    obtain ⟨free, hpush, hpart, hkeeps⟩ := h.vacateSlot hsome
    refine ⟨some slot, _, ?_, hpart, hkeeps, fun hr => (by cases hr), fun _ =>
      ⟨index, slot, hsome, by simpa using hfound, rfl⟩⟩
    simp only [hpush, ok_bind, pure_eq_ok]

/-- An iteration of `apply_cloexec` takes an entry that does not survive, or ends the loop. -/
lemma applyCloexecBody :
    (∃ t', t.applyCloexecBody = .next t' ∧ Partitioned t' tokens ∧
      t'.slots.values.countP Option.isSome < t.slots.values.countP Option.isSome ∧
      ∀ i : ℕ, surviving t'.slots.values[i]?.join = surviving t.slots.values[i]?.join) ∨
    ∃ t', t.applyCloexecBody = .done (.ok t') ∧ Partitioned t' tokens ∧
      ∀ i : ℕ, t'.slots.values[i]?.join = surviving t.slots.values[i]?.join := by
  obtain ⟨_ | old, t', hok, hp, -, hnone, hsome⟩ := h.applyCloexecStep <;>
    rw [CapTableInner.applyCloexecBody, hok]
  · obtain ⟨rfl, hall⟩ := hnone rfl
    refine .inr ⟨_, rfl, hp.reclaimIfUnused.1, fun i => (slot_reclaimIfUnused i).trans ?_⟩
    cases hslot : t'.slots.values[i]?.join with
    | none => rfl
    | some slot =>
      simp [surviving, Option.filter, hall slot (mem_of_getElem? (join_eq_some_iff.mp hslot))]
  · obtain ⟨i, slot, hi, hexec, hset⟩ := hsome rfl
    obtain ⟨hlt, hget⟩ := List.getElem?_eq_some_iff.mp hi
    refine .inl ⟨t', rfl, hp, ?_, fun j => ?_⟩
    · have hpos : 0 < t.slots.values.countP Option.isSome :=
        countP_pos_iff.mpr ⟨some slot, mem_of_getElem? hi, rfl⟩
      rw [hset, countP_set hlt, hget]
      simp only [isSome_some, isSome_none, if_true, Bool.false_eq_true, if_false]
      omega
    · rw [hset, getElem?_set]
      split_ifs with hij
      · subst hij
        simp [hi, surviving, Option.filter, hexec]
      · rfl

/-- The sweep ends, and what it leaves of a slot is `surviving`. -/
lemma applyCloexec :
    ∃ n r, n ≤ t.slots.values.countP Option.isSome + 1 ∧
      Loop.Runs CapTableInner.applyCloexecBody n t r ∧ ∃ t', r = .ok t' ∧
        Partitioned t' tokens ∧
        ∀ i : ℕ, t'.slots.values[i]?.join = surviving t.slots.values[i]?.join := by
  refine Loop.Runs.of_measure _ (fun s => Partitioned s tokens ∧
    ∀ i : ℕ, surviving s.slots.values[i]?.join = surviving t.slots.values[i]?.join) _
    (fun s => s.slots.values.countP Option.isSome) ?_ ?_ ⟨h, fun _ => rfl⟩
  · rintro s s' ⟨hp, hs⟩ hb
    rcases hp.applyCloexecBody with ⟨s1, hb1, hp1, hlt, hs1⟩ | ⟨s1, hb1, -⟩ <;>
      cases hb1.symm.trans hb
    exact ⟨⟨hp1, fun i => (hs1 i).trans (hs i)⟩, hlt⟩
  · rintro s r ⟨hp, hs⟩ hb
    rcases hp.applyCloexecBody with ⟨s1, hb1, -⟩ | ⟨s1, hb1, hp1, hs1⟩ <;>
      cases hb1.symm.trans hb
    exact ⟨s1, rfl, hp1, fun i => (hs1 i).trans (hs i)⟩

lemma delegate (env : GrowEnv) (id : CapId) (mask : CapRights) (flags : CapFlags) :
    Allocates t tokens (t.delegate env id mask flags) := by
  unfold CapTableInner.delegate
  cases t.lookup id with
  | error e => exact .inl ⟨e, rfl⟩
  | ok =>
    dsimp only
    split_ifs
    · exact .inl ⟨_, rfl⟩
    · exact .inl ⟨_, rfl⟩
    · exact h.allocate env _

end

end Partitioned

end CapTableInner

end Nilix.Cap
