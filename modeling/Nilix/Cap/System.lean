import Mathlib.Logic.Relation
import Nilix.Cap.Fork

/-!
# Runs of capability tables

The system is a forest of tables: tables are created, their operations interleave in any order with
any number of outstanding reservations, and a table is forked into a child that lives on by itself.
`CapState` adds to a table what is outside it: the reservations its callers hold, and the history of
the identifiers it and its ancestors before the fork have issued.

From a well-formed state no operation faults, an identifier issued is new, and nothing else becomes
live.
-/

namespace Nilix.Cap

open Relation CapTableInner List

/-! ## One table -/

/-- A table, the reservations callers hold on it, and the identifiers issued so far by it or, before
the fork, by its ancestors. -/
structure CapState where
  inner : CapTableInner
  tokens : List PreparedCapAllocation
  issued : List CapId

/-- The atomic operations on a table: each runs under the table's lock.  `apply_cloexec` takes the
lock once for each slot and once more to reclaim, and other operations can run in between, so its
critical sections are operations of their own. -/
inductive CapOp
  | allocate (env : GrowEnv) (entry : CapEntry)
  | prepareAllocation (env : GrowEnv)
  | install (token : PreparedCapAllocation) (entry : CapEntry)
  | cancel (token : PreparedCapAllocation)
  | revoke (id : CapId)
  | delegate (env : GrowEnv) (id : CapId) (rightsMask : CapRights) (flags : CapFlags)
  | incrementRefcount (id : CapId)
  | decrementRefcount (id : CapId)
  | applyCloexecStep
  | reclaimIfUnusedOutsideLock
  | reconcileRefcountsAfterFork (childCounts : List (CapId × ℕ))

/-- Only the holder of a reservation can install or drop it. -/
def CapOp.Enabled (s : CapState) : CapOp → Prop
  | .install token _ => token ∈ s.tokens
  | .cancel token => token ∈ s.tokens
  | _ => True

namespace CapState

/-- The state after the table answered an allocation request. -/
def afterAllocation (s : CapState) : Except CapError CapId × CapTableInner → Option CapId × CapState
  | (.ok id, inner) => (some id, { s with inner := inner, issued := id :: s.issued })
  | (.error _, inner) => (none, { s with inner := inner })

/-- The execution of an operation: the identifier it issued, if any, and the state after it. -/
def exec (s : CapState) : CapOp → Except CapFault (Option CapId × CapState)
  | .allocate env entry => (s.inner.allocate env entry).map s.afterAllocation
  | .prepareAllocation env => (s.inner.reserveAllocation env).map fun
    | (.ok (index, generation), inner) =>
      (none, { s with inner := inner, tokens := s.tokens ++ [⟨index, generation⟩] })
    | (.error _, inner) => (none, { s with inner := inner })
  | .install token entry =>
    (s.inner.installReserved token.index token.generation entry).map fun (id, inner) =>
      (some id, ⟨inner, s.tokens.erase token, id :: s.issued⟩)
  | .cancel token => (s.inner.cancelReserved token.index).map fun inner =>
      (none, { s with inner := inner, tokens := s.tokens.erase token })
  | .revoke id => (s.inner.revoke id).map fun r => (none, { s with inner := r.2 })
  | .delegate env id mask flags => (s.inner.delegate env id mask flags).map s.afterAllocation
  | .incrementRefcount id => .ok (none, { s with inner := (s.inner.incrementRefcount id).2 })
  | .decrementRefcount id => .ok (none, { s with inner := (s.inner.decrementRefcount id).2 })
  | .applyCloexecStep => s.inner.applyCloexecStep.map fun r => (none, { s with inner := r.2 })
  | .reclaimIfUnusedOutsideLock =>
    .ok (none, { s with inner := s.inner.reclaimIfUnusedOutsideLock })
  | .reconcileRefcountsAfterFork counts =>
    (s.inner.reconcileRefcountsAfterFork counts).map fun inner =>
      (none, { s with inner := inner })

/-- The generations in use: of the identifiers issued and of the reservations. -/
def generations (s : CapState) : List ℕ :=
  s.issued.map CapId.generation ++ s.tokens.map (·.generation)

/-- The invariant of a table in a run. -/
structure WellFormed (s : CapState) : Prop where
  /-- The slots are partitioned. -/
  partitioned : Partitioned s.inner s.tokens
  /-- The counter stays within the 48 bits of an identifier. -/
  generation_le : s.inner.nextGeneration ≤ maxGeneration
  /-- No generation is used twice. -/
  nodup : s.generations.Nodup
  /-- Every generation in use is below the counter. -/
  older : ∀ g ∈ s.generations, g < s.inner.nextGeneration

namespace WellFormed

variable {s : CapState} {inner : CapTableInner}

/-- A step that issues and reserves nothing keeps the invariant. -/
lemma keep (h : WellFormed s) (hp : Partitioned inner s.tokens) (hk : Keeps s.inner inner) :
    WellFormed { s with inner := inner } where
  partitioned := hp
  generation_le := hk.nextGeneration_eq.trans_le h.generation_le
  nodup := h.nodup
  older g hg := hk.nextGeneration_eq ▸ h.older g hg

/-- The next generation may be used once the counter has moved past it. -/
lemma cons_next (h : WellFormed s) : (s.inner.nextGeneration :: s.generations).Nodup :=
  nodup_cons.mpr ⟨fun hmem => lt_irrefl _ (h.older _ hmem), h.nodup⟩

/-- A reservation under the next generation keeps the invariant. -/
lemma reserve (h : WellFormed s) {index : ℕ}
    (hp : Partitioned inner (s.tokens ++ [⟨index, s.inner.nextGeneration⟩]))
    (hlt : s.inner.nextGeneration < maxGeneration)
    (hnext : inner.nextGeneration = s.inner.nextGeneration + 1) :
    WellFormed
      { s with inner := inner, tokens := s.tokens ++ [⟨index, s.inner.nextGeneration⟩] } := by
  have hperm : (generations
      { s with inner := inner, tokens := s.tokens ++ [⟨index, s.inner.nextGeneration⟩] }).Perm
      (s.inner.nextGeneration :: s.generations) := by
    simp only [generations, map_append, map_cons, map_nil, ← append_assoc]
    exact perm_append_singleton _ _
  refine ⟨hp, hnext.trans_le hlt, hperm.nodup_iff.mpr h.cons_next, fun g hg => ?_⟩
  rw [hnext, Nat.lt_succ_iff]
  rcases mem_cons.mp (hperm.mem_iff.mp hg) with rfl | hg
  · exact le_rfl
  · exact (h.older g hg).le

variable {tok : PreparedCapAllocation} (h : WellFormed s)
include h

/-- The identifier of a reservation has the parts of the reservation. -/
lemma capId_parts (htok : tok ∈ s.tokens) :
    tok.capId.index = tok.index ∧ tok.capId.generation = tok.generation := by
  have hidx : tok.index < 2 ^ 16 :=
    ((h.partitioned.reservedVacant_of_mem htok).2.1.trans_le h.partitioned.slots_le).trans
      (by decide)
  have hgen : tok.generation ≤ maxGeneration :=
    (h.older _ (mem_append_right _ (mem_map_of_mem htok))).le.trans h.generation_le
  exact ⟨CapId.index_fromParts hidx hgen, CapId.generation_fromParts hidx hgen⟩

/-- The identifier of a reservation has not been issued. -/
lemma capId_not_mem_issued (htok : tok ∈ s.tokens) : tok.capId ∉ s.issued := by
  intro hmem
  have hdisj := disjoint_of_nodup_append h.nodup
  have hgen := mem_map_of_mem (f := CapId.generation) hmem
  rw [(h.capId_parts htok).2] at hgen
  exact hdisj hgen (mem_map_of_mem htok)

lemma drop (hp : Partitioned inner (s.tokens.erase tok)) (hk : Keeps s.inner inner) :
    WellFormed { s with inner := inner, tokens := s.tokens.erase tok } := by
  have hsub : (generations { s with inner := inner, tokens := s.tokens.erase tok }).Sublist
      s.generations :=
    Sublist.append_left (erase_sublist.map _) _
  refine ⟨hp, hk.nextGeneration_eq.trans_le h.generation_le, h.nodup.sublist hsub, ?_⟩
  exact fun g hg => hk.nextGeneration_eq ▸ h.older g (hsub.subset hg)

/-- Installing a reservation moves its generation to the identifiers issued. -/
lemma install (htok : tok ∈ s.tokens) (hp : Partitioned inner (s.tokens.erase tok))
    (hnext : inner.nextGeneration = s.inner.nextGeneration) :
    WellFormed ⟨inner, s.tokens.erase tok, tok.capId :: s.issued⟩ := by
  have hperm : (generations ⟨inner, s.tokens.erase tok, tok.capId :: s.issued⟩).Perm
      s.generations := by
    have htokens := (perm_cons_erase htok).map (·.generation)
    unfold generations
    rw [map_cons, (h.capId_parts htok).2]
    exact perm_middle.symm.trans (htokens.symm.append_left _)
  refine ⟨hp, hnext.trans_le h.generation_le, hperm.nodup_iff.mpr h.nodup, fun g hg => ?_⟩
  exact hnext ▸ h.older g (hperm.mem_iff.mp hg)

/-- An allocation uses the next generation for the identifier it issues. -/
lemma allocate {index : ℕ} (hindex : index < maxCapSlots) (hp : Partitioned inner s.tokens)
    (hlt : s.inner.nextGeneration < maxGeneration)
    (hnext : inner.nextGeneration = s.inner.nextGeneration + 1) :
    CapId.fromParts index s.inner.nextGeneration ∉ s.issued ∧ WellFormed { s with
        inner := inner
        issued := CapId.fromParts index s.inner.nextGeneration :: s.issued } := by
  have hgen : (CapId.fromParts index s.inner.nextGeneration).generation = s.inner.nextGeneration :=
    CapId.generation_fromParts (hindex.trans (by decide)) hlt.le
  have heq : generations { s with
        inner := inner
        issued := CapId.fromParts index s.inner.nextGeneration :: s.issued } =
      s.inner.nextGeneration :: s.generations := by
    simp only [generations, map_cons, hgen, cons_append]
  refine ⟨?_, hp, hnext.trans_le hlt, heq ▸ h.cons_next, ?_⟩
  · intro hmem
    have hold := h.older _ (mem_append_left _ (mem_map_of_mem hmem))
    exact absurd (hgen ▸ hold) (lt_irrefl _)
  intro g hg
  rw [hnext, Nat.lt_succ_iff]
  rw [heq] at hg
  rcases mem_cons.mp hg with rfl | hg
  · exact le_rfl
  · exact (h.older g hg).le

end WellFormed

/-- What every enabled operation does from a well-formed state: it does not fault, it keeps the
invariant, an identifier it issues is new and is recorded, and nothing else becomes live. -/
structure Outcome (s : CapState) (op : CapOp) (out : Option CapId) (s' : CapState) : Prop where
  exec_eq : s.exec op = .ok (out, s')
  wellFormed : WellFormed s'
  issued_eq : s'.issued = out.toList ++ s.issued
  new : ∀ id, out = some id → id ∉ s.issued
  carries : Carries s.inner s'.inner out

variable {op : CapOp} {s : CapState}

lemma Outcome.of_keeps (h : WellFormed s) {inner : CapTableInner}
    (hex : s.exec op = .ok (none, { s with inner := inner })) (hp : Partitioned inner s.tokens)
    (hk : Keeps s.inner inner) : Outcome s op none { s with inner := inner } :=
  ⟨hex, h.keep hp hk, rfl, nofun, hk.carries none⟩

/-- The outcome of an allocation request, given what the table answers. -/
lemma Outcome.of_allocation (h : WellFormed s)
    {f : Except CapFault (Except CapError CapId × CapTableInner)}
    (hex : s.exec op = f.map s.afterAllocation) (hf : Partitioned.Allocates s.inner s.tokens f) :
    ∃ out s', Outcome s op out s' := by
  rcases hf with ⟨e, rfl⟩ | ⟨index, t', rfl, hindex, hp, hlt, hnext, hcarries⟩
  · exact ⟨none, s, hex, h, rfl, nofun, (Keeps.refl _).carries none⟩
  obtain ⟨hnew, hwf⟩ := h.allocate hindex hp hlt hnext
  refine ⟨some (CapId.fromParts index s.inner.nextGeneration), _, hex, hwf, rfl, ?_, hcarries⟩
  rintro id ⟨⟩
  exact hnew

lemma exec_ok (h : WellFormed s) (hen : op.Enabled s) : ∃ out s', Outcome s op out s' := by
  have hpart := h.partitioned
  cases op with
  | allocate env entry => exact Outcome.of_allocation h rfl (hpart.allocate env entry)
  | delegate env id mask flags =>
    exact Outcome.of_allocation h rfl (hpart.delegate env id mask flags)
  | prepareAllocation env =>
    rcases hpart.reserveAllocation env with ⟨e, he⟩ | ⟨index, t', ht', hp, hlt, hnext, hlive⟩
    · refine ⟨none, _, Outcome.of_keeps h ?_ hpart (Keeps.refl _)⟩
      simp only [exec, he, Except.map]
    refine ⟨none, _, ?_, h.reserve hp hlt hnext, rfl, nofun, ?_⟩
    · simp only [exec, ht', Except.map]
    · exact fun i g hg => .inl (hlive i ▸ hg)
  | install token entry =>
    obtain ⟨t', ht', hp, hnext, hcarries⟩ := hpart.installReserved hen entry
    refine ⟨some token.capId, _, ?_, h.install hen hp hnext, rfl, ?_, hcarries⟩
    · simp only [exec, ht', Except.map]
    rintro id ⟨⟩
    exact h.capId_not_mem_issued hen
  | cancel =>
    obtain ⟨t', ht', hp, hk⟩ := hpart.cancelReserved hen
    refine ⟨none, _, ?_, h.drop hp hk, rfl, nofun, hk.carries none⟩
    simp only [exec, ht', Except.map]
  | revoke id =>
    obtain ⟨r, t', ht', hp, hk⟩ := hpart.revoke id
    refine ⟨none, _, Outcome.of_keeps h ?_ hp hk⟩
    simp only [exec, ht', Except.map]
  | incrementRefcount id =>
    obtain ⟨hp, hk⟩ := hpart.incrementRefcount id
    exact ⟨none, _, Outcome.of_keeps h rfl hp hk⟩
  | decrementRefcount id =>
    obtain ⟨hp, hk⟩ := hpart.decrementRefcount id
    exact ⟨none, _, Outcome.of_keeps h rfl hp hk⟩
  | applyCloexecStep =>
    obtain ⟨r, t', ht', hp, hk, -⟩ := hpart.applyCloexecStep
    refine ⟨none, _, Outcome.of_keeps h ?_ hp hk⟩
    simp only [exec, ht', Except.map]
  | reclaimIfUnusedOutsideLock =>
    obtain ⟨hp, hk⟩ := hpart.reclaimIfUnused
    exact ⟨none, _, Outcome.of_keeps h rfl hp hk⟩
  | reconcileRefcountsAfterFork counts =>
    obtain ⟨t', ht', hp, hk⟩ := hpart.reconcileRefcountsAfterFork counts
    refine ⟨none, _, Outcome.of_keeps h ?_ hp hk⟩
    simp only [exec, ht', Except.map]

/-- The outcome of an execution that is known to have happened. -/
lemma outcome_of_exec {s s' : CapState} (h : WellFormed s) (hen : op.Enabled s) {out : Option CapId}
    (hex : s.exec op = .ok (out, s')) : Outcome s op out s' := by
  obtain ⟨out1, s1, houtcome⟩ := exec_ok h hen
  have heq := houtcome.exec_eq.symm.trans hex
  cases heq
  exact houtcome

/-- An issued identifier that resolves after a step resolved before it. -/
lemma Outcome.lookup_of_lookup {s s' : CapState} {out : Option CapId} (h : WellFormed s)
    (ho : Outcome s op out s') {id : CapId} (hid : id ∈ s.issued)
    (hlookup : ∃ entry, s'.inner.lookup id = .ok entry) :
    ∃ entry, s.inner.lookup id = .ok entry := by
  obtain ⟨hvalid, hlive⟩ := lookup_isOk_iff.mp hlookup
  rcases ho.carries _ _ hlive with hold | hout
  · exact lookup_isOk_iff.mpr ⟨hvalid, hold⟩
  have hgen : id.generation ≤ maxGeneration :=
    (h.older _ (mem_append_left _ (mem_map_of_mem hid))).le.trans h.generation_le
  have hself : CapId.fromParts id.index id.generation = id :=
    CapId.ext_parts (CapId.index_fromParts id.index_lt hgen)
      (CapId.generation_fromParts id.index_lt hgen)
  rw [hself] at hout
  exact absurd hid (ho.new id hout)

end CapState

/-! ## Forests of tables -/

open CapState

/-- A table as its constructors leave it. -/
def Created (t : CapTableInner) : Prop :=
  (∃ capacity, t = withCapacity capacity) ∨
    ∃ env capacity, tryWithCapacity env capacity = some t

lemma partitioned_of_created {t : CapTableInner} (h : Created t) :
    Partitioned t [] ∧ t.nextGeneration = 1 := by
  -- Both constructors make every slot vacant and every index free.
  have hall : ∀ {n : ℕ} {slots : BoundedVec (Option CapSlot)} {free : BoundedVec ℕ},
      n ≤ maxCapSlots → slots.values = replicate n none → free.values = range n →
      n ≤ free.capacity → Partitioned ⟨slots, free, 1, 0⟩ [] := by
    intro n slots free hn hslots hfree hcap
    refine partitioned_of_vacant rfl ?_ ?_ ?_
    · simpa [hslots] using hn
    · simpa [hslots] using hcap
    · simp only [hslots, hfree, length_replicate]
      refine (filter_eq_self.mpr fun i hi => ?_).symm
      rw [getElem?_replicate]
      split_ifs <;> rfl
  rcases h with ⟨capacity, rfl⟩ | ⟨env, capacity, h⟩
  · exact ⟨hall (min_le_right _ _) rfl rfl le_rfl, rfl⟩
  unfold tryWithCapacity at h
  split at h
  · rename_i c d _ _
    cases h
    exact ⟨hall (min_le_right _ _) rfl rfl d.2, rfl⟩
  · cases h

/-- The tables of all processes. -/
abbrev Forest := List CapState

/-- One step of the forest: a new table, an operation on one table, or a fork. -/
inductive Forest.Step : Forest → Forest → Prop
  | create {F : Forest} {t : CapTableInner} (ht : Created t) : Step F (F ++ [⟨t, [], []⟩])
  | exec {F : Forest} {k : ℕ} {s s' : CapState} {op : CapOp} {out : Option CapId}
      (hk : F[k]? = some s) (hen : op.Enabled s) (hex : s.exec op = .ok (out, s')) :
      Step F (F.set k s')
  | fork {F : Forest} {k : ℕ} {s : CapState} {env : ForkEnv} {child : CapTableInner}
      (hk : F[k]? = some s) (hfork : s.inner.tryCloneForFork env = .ok (some child)) :
      Step F (F ++ [⟨child, [], s.issued⟩])

/-- The forests that runs from the empty forest reach. -/
def Forest.Reachable (F : Forest) : Prop := ReflTransGen Forest.Step [] F

/-- The child of a well-formed table is well-formed and keeps. -/
lemma wellFormed_of_fork {s : CapState} (h : WellFormed s) {env : ForkEnv}
    {child : CapTableInner} (hfork : s.inner.tryCloneForFork env = .ok (some child)) :
    WellFormed ⟨child, [], s.issued⟩ ∧ Keeps s.inner child := by
  rcases h.partitioned.tryCloneForFork env with hnone | ⟨c, hc, hp, hk⟩
  · rw [hnone] at hfork
    cases hfork
  rw [hc] at hfork
  obtain rfl := Option.some.inj (Except.ok.inj hfork)
  have hsub : (generations ⟨c, [], s.issued⟩).Sublist s.generations :=
    Sublist.append_left (nil_sublist _) _
  refine ⟨⟨hp, hk.nextGeneration_eq.trans_le h.generation_le, h.nodup.sublist hsub, ?_⟩, hk⟩
  exact fun g hg => hk.nextGeneration_eq ▸ h.older g (hsub.subset hg)

variable {F : Forest}

lemma wellFormed_of_step {F' : Forest} (h : ∀ s ∈ F, WellFormed s) (hstep : Forest.Step F F') :
    ∀ s ∈ F', WellFormed s := by
  cases hstep with
  | create ht =>
    obtain ⟨hp, hgen⟩ := partitioned_of_created ht
    intro s hs
    rcases mem_append.mp hs with hs | hs
    · exact h s hs
    obtain rfl := mem_singleton.mp hs
    exact ⟨hp, hgen.trans_le (by decide), nodup_nil, fun g hg => by cases hg⟩
  | exec hk hen hex =>
    intro s hs
    rcases mem_or_eq_of_mem_set hs with hs | rfl
    · exact h s hs
    · exact (outcome_of_exec (h _ (mem_of_getElem? hk)) hen hex).wellFormed
  | fork hk hfork =>
    intro s hs
    rcases mem_append.mp hs with hs | hs
    · exact h s hs
    obtain rfl := mem_singleton.mp hs
    exact (wellFormed_of_fork (h _ (mem_of_getElem? hk)) hfork).1

/-- The run lemma: every table of a reachable forest is well-formed. -/
lemma wellFormed_of_reachable (hF : F.Reachable) : ∀ s ∈ F, WellFormed s := by
  induction hF with
  | refl => exact fun s hs => by cases hs
  | tail _ hstep ih => exact wellFormed_of_step ih hstep

/-! ## Slots stay partitioned -/

/-- In every reachable forest, the free list, the occupied slots and the outstanding reservations of
each table partition its slot indices; the reservation counter is exact, indices fit in 16 bits and
the free list has room for every slot.  Hence no operation faults: no assertion fires and no push
allocates. -/
theorem slots_partitioned_of_reachable {F : Forest} (hF : F.Reachable) {s : CapState}
    (hs : s ∈ F) :
    s.inner.free.values.Nodup ∧ (s.tokens.map (·.index)).Nodup ∧
    (∀ i, i ∈ s.inner.free.values ∨ occupied s.inner.slots.values i = true ∨
      i ∈ s.tokens.map (·.index) ↔ i < s.inner.slots.values.length) ∧
    (∀ i ∈ s.tokens.map (·.index),
      occupied s.inner.slots.values i = false ∧ i ∉ s.inner.free.values) ∧
    (∀ i, occupied s.inner.slots.values i = true → i ∉ s.inner.free.values) ∧
    s.inner.reservedAllocations = s.tokens.length ∧
    s.inner.slots.values.length ≤ 65535 ∧
    s.inner.slots.values.length ≤ s.inner.free.capacity ∧
    (∀ op : CapOp, op.Enabled s → ∃ out s', s.exec op = .ok (out, s')) ∧
    ∀ env, ∃ child, s.inner.tryCloneForFork env = .ok child := by
  have h := wellFormed_of_reachable hF s hs
  have hp := h.partitioned
  refine ⟨hp.partition.free_nodup, hp.partition.held_nodup, hp.partition.mem_iff,
    fun i hi => (hp.partition.of_mem_held hi).2, fun i hi => (hp.partition.of_occupied hi).1,
    hp.reserved_eq, hp.slots_le, hp.free_capacity, ?_, ?_⟩
  · intro op hen
    obtain ⟨out, s', ho⟩ := exec_ok h hen
    exact ⟨out, s', ho.exec_eq⟩
  intro env
  rcases hp.tryCloneForFork env with hnone | ⟨child, hchild, -⟩
  · exact ⟨none, hnone⟩
  · exact ⟨some child, hchild⟩

/-- The forest of one fresh table of four slots in which one slot has been reserved. -/
def reservedForest : Forest :=
  [⟨{ withCapacity 4 with
      free := ⟨[0, 1, 2], 4, by decide⟩
      nextGeneration := 2
      reservedAllocations := 1 }, [⟨3, 1⟩], []⟩]

/-- The environment in which the heap refuses every request. -/
def GrowEnv.refusing : GrowEnv := ⟨fun _ => none, fun _ => none⟩

lemma reservedForest_reachable : reservedForest.Reachable := by
  have hcreate : Forest.Step [] [⟨withCapacity 4, [], []⟩] := .create (.inl ⟨4, rfl⟩)
  have hreserve : Forest.Step [⟨withCapacity 4, [], []⟩] reservedForest :=
    @Forest.Step.exec _ 0 _ _ (.prepareAllocation .refusing) _ rfl trivial rfl
  exact (ReflTransGen.single hcreate).tail hreserve

/-- With one reservation outstanding, installing it does not fault. -/
theorem slots_partitioned_of_reachable_reserved :
    reservedForest.Reachable ∧
    ∀ s ∈ reservedForest, s.tokens = [⟨3, 1⟩] ∧
      s.inner.reservedAllocations = s.tokens.length ∧
      ∃ out s', s.exec (.install ⟨3, 1⟩ (.new (.endpoint 7) 1)) = .ok (out, s') := by
  refine ⟨reservedForest_reachable, fun s hs => ?_⟩
  obtain ⟨-, -, -, -, -, hreserved, -, -, hexec, -⟩ :=
    slots_partitioned_of_reachable reservedForest_reachable hs
  have htokens : s.tokens = [⟨3, 1⟩] := by
    obtain rfl := mem_singleton.mp hs
    rfl
  refine ⟨htokens, hreserved, hexec _ ?_⟩
  rw [CapOp.Enabled, htokens]
  exact mem_singleton_self _

/-! ## The sweep at `exec` -/

/-- In every reachable forest the sweep of `apply_cloexec` ends without a fault, keeps the
reservations and leaves exactly the entries without `CLOEXEC`, each in its slot. -/
theorem applyCloexec_of_reachable {F : Forest} (hF : F.Reachable) {s : CapState} (hs : s ∈ F) :
    ∃ t', (∀ fuel, s.inner.slots.values.length < fuel → s.inner.applyCloexec fuel = some (.ok t')) ∧
      Partitioned t' s.tokens ∧
      ∀ i : ℕ, t'.slots.values[i]?.join = surviving s.inner.slots.values[i]?.join := by
  obtain ⟨n, _, hn, hruns, t', rfl, hleft⟩ :=
    (wellFormed_of_reachable hF s hs).partitioned.applyCloexec
  refine ⟨t', fun fuel hfuel => hruns.run_eq_some ?_, hleft⟩
  exact (hn.trans (Nat.succ_le_succ countP_le_length)).trans hfuel

/-- An endpoint that stays at `exec`, and one that does not. -/
def keptEntry : CapEntry := .new (.endpoint 7) 1

@[inherit_doc keptEntry]
def closedEntry : CapEntry := .withFlags (.endpoint 8) 1 .cloexec

/-- The fresh table after it has allocated an entry, and after a second one. -/
def keptState : CapState :=
  ⟨{ withCapacity 4 with
      slots := ⟨[none, none, none, some ⟨1, keptEntry⟩], 4, by decide⟩
      free := ⟨[0, 1, 2], 4, by decide⟩
      nextGeneration := 2 }, [], [.fromParts 3 1]⟩

@[inherit_doc keptState]
def sweptState : CapState :=
  ⟨{ withCapacity 4 with
      slots := ⟨[none, none, some ⟨2, closedEntry⟩, some ⟨1, keptEntry⟩], 4, by decide⟩
      free := ⟨[0, 1], 4, by decide⟩
      nextGeneration := 3 }, [], [.fromParts 2 2, .fromParts 3 1]⟩

/-- The sweep takes the second entry, in slot 2, and leaves the first one in slot 3. -/
theorem applyCloexec_of_reachable_swept :
    Forest.Reachable [sweptState] ∧ ∃ t', sweptState.inner.applyCloexec 5 = some (.ok t') ∧
      t'.slots.values[2]?.join = none ∧ t'.slots.values[3]?.join = some ⟨1, keptEntry⟩ := by
  have hcreate : Forest.Step [] [⟨withCapacity 4, [], []⟩] := .create (.inl ⟨4, rfl⟩)
  have hkept : Forest.Step [⟨withCapacity 4, [], []⟩] [keptState] :=
    @Forest.Step.exec _ 0 _ _ (.allocate .refusing keptEntry) _ rfl trivial rfl
  have hclosed : Forest.Step [keptState] [sweptState] :=
    @Forest.Step.exec _ 0 _ _ (.allocate .refusing closedEntry) _ rfl trivial rfl
  have hreachable : Forest.Reachable [sweptState] :=
    ((ReflTransGen.single hcreate).tail hkept).tail hclosed
  obtain ⟨t', hsweep, -, hleft⟩ := applyCloexec_of_reachable hreachable (mem_singleton_self _)
  exact ⟨hreachable, t', hsweep 5 (by decide), hleft 2, hleft 3⟩

/-! ## Identifiers do not come back -/

/-- `Descends (F, k) (F', j)`: a run leads from `F` to `F'`, and table `j` of `F'` is table `k` of
`F` or has been forked from it, directly or through its children, after `F`. -/
inductive Descends : Forest × ℕ → Forest × ℕ → Prop
  | refl (F : Forest) (k : ℕ) : Descends (F, k) (F, k)
  | same {F F' F'' : Forest} {k j : ℕ} (h : Descends (F, k) (F', j)) (hj : j < F'.length)
      (hstep : Forest.Step F' F'') : Descends (F, k) (F'', j)
  | child {F F' : Forest} {k j : ℕ} {s : CapState} {env : ForkEnv} {child : CapTableInner}
      (h : Descends (F, k) (F', j)) (hj : F'[j]? = some s)
      (hfork : s.inner.tryCloneForFork env = .ok (some child)) :
      Descends (F, k) (F' ++ [⟨child, [], s.issued⟩], F'.length)

/-- The later state of a table knows the identifiers issued earlier, and resolves none of them that
did not resolve earlier. -/
def Remembers (s s' : CapState) : Prop :=
  s.issued ⊆ s'.issued ∧ ∀ id ∈ s.issued, (∃ entry, s'.inner.lookup id = .ok entry) →
    ∃ entry, s.inner.lookup id = .ok entry

lemma Remembers.refl (s : CapState) : Remembers s s := ⟨fun _ h => h, fun _ _ h => h⟩

lemma Remembers.trans {s1 s2 s3 : CapState} (h1 : Remembers s1 s2) (h2 : Remembers s2 s3) :
    Remembers s1 s3 :=
  ⟨fun _ hid => h2.1 (h1.1 hid), fun id hid hl => h1.2 id hid (h2.2 id (h1.1 hid) hl)⟩

lemma remembers_of_step {F' : Forest} (h : ∀ s ∈ F, WellFormed s) (hstep : Forest.Step F F') {j : ℕ}
    {s' : CapState} (hj : j < F.length) (hs' : F'[j]? = some s') :
    ∃ s, F[j]? = some s ∧ Remembers s s' := by
  cases hstep with
  | create | fork =>
    rw [getElem?_append_left hj] at hs'
    exact ⟨s', hs', Remembers.refl s'⟩
  | @exec k s t op out hk hen hex =>
    rw [getElem?_set] at hs'
    split_ifs at hs' with hkj
    · subst hkj
      cases hs'
      have hwf := h s (mem_of_getElem? hk)
      have ho := outcome_of_exec hwf hen hex
      refine ⟨s, hk, ?_, fun id hid hl => ho.lookup_of_lookup hwf hid hl⟩
      rw [ho.issued_eq]
      exact subset_append_right _ _
    · exact ⟨s', hs', Remembers.refl s'⟩

/-- A child remembers what its parent knew at the fork. -/
lemma remembers_of_fork {s : CapState} (h : WellFormed s) {env : ForkEnv}
    {child : CapTableInner} (hfork : s.inner.tryCloneForFork env = .ok (some child)) :
    Remembers s ⟨child, [], s.issued⟩ := by
  refine ⟨fun _ hid => hid, fun id _ hl => ?_⟩
  obtain ⟨hvalid, hlive⟩ := lookup_isOk_iff.mp hl
  exact lookup_isOk_iff.mpr ⟨hvalid, (wellFormed_of_fork h hfork).2.live _ _ hlive⟩

/-- A table and everything forked from it remember; the forest stays well-formed. -/
lemma remembers_of_descends {p q : Forest × ℕ} (hd : Descends p q) (h : ∀ s ∈ p.1, WellFormed s) :
    (∀ s ∈ q.1, WellFormed s) ∧
      ∀ s', q.1[q.2]? = some s' → ∃ s, p.1[p.2]? = some s ∧ Remembers s s' := by
  induction hd with
  | refl => exact ⟨h, fun s' hs' => ⟨s', hs', Remembers.refl s'⟩⟩
  | same _ hj hstep ih =>
    obtain ⟨hwf, hrem⟩ := ih h
    refine ⟨wellFormed_of_step hwf hstep, fun s' hs' => ?_⟩
    obtain ⟨s1, hs1, hrem1⟩ := remembers_of_step hwf hstep hj hs'
    obtain ⟨s, hs, hrem0⟩ := hrem s1 hs1
    exact ⟨s, hs, hrem0.trans hrem1⟩
  | @child F F' k j s1 env child _ hj hfork ih =>
    obtain ⟨hwf, hrem⟩ := ih h
    refine ⟨wellFormed_of_step hwf (.fork hj hfork), fun s' hs' => ?_⟩
    rw [getElem?_concat_length] at hs'
    cases hs'
    obtain ⟨s, hs, hrem0⟩ := hrem s1 hj
    exact ⟨s, hs, hrem0.trans (remembers_of_fork (hwf s1 (mem_of_getElem? hj)) hfork)⟩

/-- No capability resurrection.  In every run, an identifier an operation issues differs from every
identifier issued before by that table or, before the fork, by its ancestors; and an issued
identifier that does not resolve in a table does not resolve in it later, nor in any table later
forked from it. -/
theorem no_resurrection_of_reachable {F : Forest} (hF : F.Reachable) {k : ℕ} {s : CapState}
    (hk : F[k]? = some s) :
    (∀ op out s', op.Enabled s → s.exec op = .ok (some out, s') →
      out ∉ s.issued ∧ s'.issued = out :: s.issued) ∧
    ∀ id ∈ s.issued, s.inner.lookup id = .error .invalidCapId →
      ∀ F' j s', Descends (F, k) (F', j) → F'[j]? = some s' →
        s'.inner.lookup id = .error .invalidCapId := by
  have hwf := wellFormed_of_reachable hF
  have hs := hwf s (mem_of_getElem? hk)
  constructor
  · intro op out s' hen hex
    have ho := outcome_of_exec hs hen hex
    exact ⟨ho.new out rfl, ho.issued_eq⟩
  intro id hid hfail F' j s' hd hs'
  obtain ⟨s0, hs0, -, hback⟩ := (remembers_of_descends hd hwf).2 s' hs'
  cases hk.symm.trans hs0
  cases hlookup : s'.inner.lookup id with
  | error =>
    unfold CapTableInner.lookup at hlookup
    split at hlookup
    · cases hlookup
    · exact hlookup.symm
  | ok entry =>
    obtain ⟨entry', hentry'⟩ := hback id hid ⟨entry, hlookup⟩
    rw [hfail] at hentry'
    cases hentry'

/-- The identifier of slot 3 under the first generation. -/
def firstId : CapId := CapId.fromParts 3 1

/-- A table of four slots that issued its first identifier. -/
def allocatedState : CapState :=
  ⟨⟨⟨[none, none, none, some ⟨1, .new (.endpoint 7) 1⟩], 4, by decide⟩,
    ⟨[0, 1, 2], 4, by decide⟩, 2, 0⟩, [], [firstId]⟩

/-- The table after it revoked that identifier and gave up its backing. -/
def revokedState : CapState := ⟨⟨.empty, .empty, 2, 0⟩, [], [firstId]⟩

lemma revokedState_reachable : Forest.Reachable [revokedState] := by
  have hcreate : Forest.Step [] [⟨withCapacity 4, [], []⟩] := .create (.inl ⟨4, rfl⟩)
  have hallocate : Forest.Step [⟨withCapacity 4, [], []⟩] [allocatedState] :=
    @Forest.Step.exec _ 0 _ _ (.allocate .refusing (.new (.endpoint 7) 1)) _ rfl trivial rfl
  have hrevoke : Forest.Step [allocatedState] [revokedState] :=
    @Forest.Step.exec _ 0 _ _ (.revoke firstId) _ rfl trivial rfl
  exact ((ReflTransGen.single hcreate).tail hallocate).tail hrevoke

/-- The revoked identifier was issued, does not resolve, and never will. -/
theorem no_resurrection_of_reachable_revoked :
    Forest.Reachable [revokedState] ∧ firstId ∈ revokedState.issued ∧
    revokedState.inner.lookup firstId = .error .invalidCapId ∧
    ∀ F' j s', Descends ([revokedState], 0) (F', j) → F'[j]? = some s' →
      s'.inner.lookup firstId = .error .invalidCapId :=
  ⟨revokedState_reachable, mem_singleton_self _, rfl,
    (no_resurrection_of_reachable revokedState_reachable rfl).2 firstId
      (mem_singleton_self _) rfl⟩

end Nilix.Cap
