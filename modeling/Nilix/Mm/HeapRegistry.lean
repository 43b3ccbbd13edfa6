import Nilix.Mm.HeapExact

/-!
# The registry of host users

`Registry ids leases` says that the registry counts exactly the leases that live owners hold.  With
exact books, the last lease of a slot is dropped only when nothing is charged to the slot any more,
so the assertions in `Drop for UidLease` hold, and owners are created and dropped without a fault.
-/

namespace Nilix.Mm

open Function List

/-- The leases that owners hold. -/
def leasesOf (owners : List HeapOwner) : List UidLease := owners.flatMap (·.uid.toList)

/-- The registry agrees with the leases that are held. -/
structure Registry (ids : Fin maxUidDomains → Option (ℕ × ℕ)) (leases : List UidLease) : Prop where
  /-- The count of a slot is the number of leases on it. -/
  count : ∀ slot, leases.countP (·.slot == slot) = ((ids slot).map Prod.snd).getD 0
  /-- A slot in use is leased. -/
  pos : ∀ slot uid n, ids slot = some (uid, n) → 0 < n
  /-- All leases on a slot are for its user. -/
  uid : ∀ slot uid n, ids slot = some (uid, n) → ∀ l ∈ leases, l.slot = slot → l.uid = uid

namespace Registry

variable {ids : Fin maxUidDomains → Option (ℕ × ℕ)} {L : List UidLease} {s : HeapState}

lemma perm {L' : List UidLease} (h : Registry ids L) (hL : L.Perm L') : Registry ids L' where
  count slot := (hL.countP_eq _).symm.trans (h.count slot)
  pos := h.pos
  uid slot uid n hn l hl := h.uid slot uid n hn l (hL.mem_iff.mpr hl)

variable {slot : Fin maxUidDomains}

/-- The slot chosen for a user is the user's own or unused. -/
lemma findSlot_spec {uid : ℕ} (h : findSlot ids uid = some slot) :
    (∃ n, ids slot = some (uid, n)) ∨ ids slot = none := by
  unfold findSlot at h
  rcases Option.or_eq_some_iff.mp h with hown | ⟨-, hfree⟩
  · have hany := find?_some hown
    obtain ⟨⟨key, n⟩, hentry, hkey⟩ := (Option.any_eq_true _ _).mp hany
    exact .inl ⟨n, by rw [hentry, ← beq_iff_eq.mp hkey]⟩
  have hnone := find?_some hfree
  exact .inr (Option.isNone_iff_eq_none.mp hnone)

lemma not_leased (h : Registry ids L) (hslot : ids slot = none) : ∀ l ∈ L, l.slot ≠ slot := by
  intro l hl heq
  have hcount := h.count slot
  rw [hslot] at hcount
  exact countP_eq_zero.mp hcount l hl (beq_iff_eq.mpr heq)

/-- One more lease on a slot that is the user's own or unused. -/
lemma cons (h : Registry ids L) {uid : ℕ}
    (hslot : (∃ n, ids slot = some (uid, n)) ∨ ids slot = none) :
    Registry (update ids slot (some (uid, ((ids slot).map Prod.snd).getD 0 + 1)))
      (⟨slot, uid⟩ :: L) where
  count slot' := by
    rw [countP_cons, h.count slot']
    by_cases heq : slot' = slot
    · rw [heq, update_self]
      simp
    rw [update_of_ne heq]
    simp [Ne.symm heq]
  pos slot' uid' n hn := by
    by_cases heq : slot' = slot
    · rw [heq, update_self] at hn
      obtain ⟨-, rfl⟩ := Prod.mk.inj (Option.some.inj hn)
      exact Nat.succ_pos _
    rw [update_of_ne heq] at hn
    exact h.pos slot' uid' n hn
  uid slot' uid' n hn l hl hls := by
    by_cases heq : slot' = slot
    · rw [heq, update_self] at hn
      obtain ⟨rfl, -⟩ := Prod.mk.inj (Option.some.inj hn)
      rcases mem_cons.mp hl with rfl | hl
      · rfl
      rcases hslot with ⟨m, hm⟩ | hnone
      · exact h.uid slot _ m hm l hl (hls.trans heq)
      · exact absurd (hls.trans heq) (h.not_leased hnone l hl)
    rw [update_of_ne heq] at hn
    rcases mem_cons.mp hl with rfl | hl
    · exact absurd hls.symm heq
    · exact h.uid slot' uid' n hn l hl hls

/-- `UidLease::acquire`: a refusal changes nothing, a success adds a lease. -/
lemma acquire (h : Registry s.identities L) (uid : ℕ) :
    (∃ e, UidLease.acquire uid s = (.error e, s)) ∨
      ∃ lease entry, UidLease.acquire uid s = (.ok lease, s.setIdentity lease.slot entry) ∧
        Registry (update s.identities lease.slot entry) (lease :: L) := by
  unfold UidLease.acquire
  cases hfind : findSlot s.identities uid with
  | none => exact .inl ⟨.uidDomainLimit, rfl⟩
  | some slot =>
    dsimp only
    unfold checkedAdd
    split_ifs
    · exact .inr ⟨⟨slot, uid⟩, _, rfl, h.cons (findSlot_spec hfind)⟩
    · exact .inl ⟨.arithmeticOverflow, rfl⟩

variable {lease : UidLease}

/-- The entry of a slot after one of its leases is dropped. -/
lemma tail {n : ℕ} (h : Registry ids (lease :: L))
    (hentry : ids lease.slot = some (lease.uid, n + 1)) :
    Registry (update ids lease.slot (if n = 0 then none else some (lease.uid, n))) L where
  count slot := by
    have hcount := h.count slot
    rw [countP_cons] at hcount
    by_cases heq : slot = lease.slot
    · rw [heq, update_self]
      rw [heq, hentry, beq_self_eq_true, if_pos rfl] at hcount
      have hn := Nat.succ.inj hcount
      rw [hn]
      split_ifs with hzero
      · exact hzero
      · rfl
    rw [update_of_ne heq, ← hcount]
    simp [Ne.symm heq]
  pos slot uid m hm := by
    by_cases heq : slot = lease.slot
    · rw [heq, update_self] at hm
      split_ifs at hm with hzero
      obtain ⟨-, rfl⟩ := Prod.mk.inj (Option.some.inj hm)
      exact pos_of_ne_zero hzero
    rw [update_of_ne heq] at hm
    exact h.pos slot uid m hm
  uid slot uid m hm l hl hls := by
    by_cases heq : slot = lease.slot
    · rw [heq, update_self] at hm
      split_ifs at hm
      obtain ⟨rfl, -⟩ := Prod.mk.inj (Option.some.inj hm)
      exact h.uid lease.slot _ _ hentry l (mem_cons_of_mem _ hl) (hls.trans heq)
    rw [update_of_ne heq] at hm
    exact h.uid slot uid m hm l (mem_cons_of_mem _ hl) hls

lemma entry_of_cons (h : Registry ids (lease :: L)) :
    ids lease.slot = some (lease.uid, L.countP (·.slot == lease.slot) + 1) := by
  have hcount := h.count lease.slot
  rw [countP_cons, beq_self_eq_true, if_pos rfl] at hcount
  cases hentry : ids lease.slot with
  | none =>
    rw [hentry] at hcount
    exact absurd hcount (Nat.succ_ne_zero _)
  | some entry =>
    obtain ⟨uid, n⟩ := entry
    rw [hentry] at hcount
    have huid := h.uid lease.slot uid n hentry lease mem_cons_self rfl
    rw [huid, hcount]
    rfl

/-- `Drop for UidLease` does not fault if nothing is charged to a slot without other leases. -/
lemma drop (h : Registry s.identities (lease :: L))
    (hidle : L.countP (·.slot == lease.slot) = 0 → (s.uidBudgets lease.slot).total = 0) :
    ∃ entry, lease.drop s = .ok (s.setIdentity lease.slot entry) ∧
      Registry (update s.identities lease.slot entry) L := by
  have hentry := h.entry_of_cons
  refine ⟨_, ?_, h.tail hentry⟩
  unfold UidLease.drop
  simp only [hentry, ne_eq, not_true_eq_false, Nat.succ_ne_zero, or_self, if_false,
    Nat.add_eq_right, Nat.add_sub_cancel]
  split_ifs with hzero hcharged
  · rfl
  · exact hcharged (hidle hzero)
  · rfl

end Registry

/-! ## The lifetime of owners -/

variable {s : HeapState} {owners : List HeapOwner} {R C S : List HeapHandle}

/-- The charge for an owner's own allocation. -/
def HeapOwner.allocation (o : HeapOwner) : HeapHandle := ⟨none, .coreProcess, o.allocationBytes⟩

section

variable (halive : ∀ x ∈ S, Alive owners x.owner)
include halive

/-- Nothing is charged to a slot that no live owner leases. -/
lemma Exact.idle (h : Exact s owners R C S) {slot : Fin maxUidDomains}
    (hslot : (leasesOf owners).countP (·.slot == slot) = 0) : (s.uidBudgets slot).total = 0 := by
  have hzero : held (leasesSlot slot) S = fun _ => 0 := by
    refine held_eq_zero fun x hx => ?_
    rw [Bool.eq_false_iff]
    intro hleases
    obtain ⟨o, ho, huid⟩ := (Option.any_eq_true _ _).mp hleases
    obtain ⟨lease, hlease, heq⟩ := (Option.any_eq_true _ _).mp huid
    have hmem : lease ∈ leasesOf owners :=
      mem_flatMap.mpr ⟨o, halive x hx o ho, Option.mem_toList.mpr hlease⟩
    exact countP_eq_zero.mp hslot lease hmem heq
  rw [h.uid slot, hzero]
  simp [Budget.ofHeld, total]

/-- Dropping the lease of an owner that is no longer live. -/
lemma Exact.dropLease {lease : Option UidLease} (h : Exact s owners R C S)
    (hreg : Registry s.identities (lease.toList ++ leasesOf owners)) :
    ∃ s', Mm.dropLease lease s = .ok s' ∧ Exact s' owners R C S ∧
      Registry s'.identities (leasesOf owners) := by
  cases lease with
  | none => exact ⟨s, rfl, h, hreg⟩
  | some =>
    obtain ⟨entry, hdrop, hreg'⟩ := Registry.drop hreg (h.idle halive)
    exact ⟨_, hdrop, { h with }, hreg'⟩

/-- Dropping an owner that no handle mentions any more. -/
lemma Exact.dropOwner {o : HeapOwner} (h : Exact s owners R (o.allocation :: C) S)
    (hreg : Registry s.identities (o.uid.toList ++ leasesOf owners)) :
    ∃ s', o.drop s = .ok s' ∧ Exact s' owners R C S ∧ Registry s'.identities (leasesOf owners) := by
  obtain ⟨s1, hs1, h1, hreg1⟩ := h.dropLease halive hreg
  have hcharge : Exact s1 owners R (o.allocation :: C) (o.allocation :: S) :=
    exact_cons_none.mpr h1
  obtain ⟨s2, hs2, h2, hframe⟩ := hcharge.dropCharge (alive_none owners)
  refine ⟨s2, ?_, h2, hframe.identities ▸ hreg1⟩
  unfold HeapOwner.drop
  rw [hs1]
  exact hs2

/-- A new owner, whose identity no live owner has, starts with an empty budget. -/
lemma Exact.consOwner {o : HeapOwner} (h : Exact s owners R C S) (hid : o.id ∉ owners.map (·.id)) :
    Exact (s.setOwnerBudget o.id Budget.new) (o :: owners) R C S := by
  have hne : ∀ o' ∈ owners, o'.id ≠ o.id := fun o' ho' heq => hid (heq ▸ mem_map_of_mem ho')
  have hzero : held (isOwner o.id) S = fun _ => 0 := by
    refine held_eq_zero fun x hx => ?_
    rw [Bool.eq_false_iff]
    intro hown
    obtain ⟨o', ho', heq⟩ := (Option.any_eq_true _ _).mp hown
    exact hne o' (halive x hx o' ho') (beq_iff_eq.mp heq)
  refine ⟨h.ledger, h.ledger_within, ?_, ?_, h.uid, h.uid_within⟩
  · intro o' ho'
    rcases mem_cons.mp ho' with rfl | ho'
    · rw [hzero, ← Budget.new_eq_ofHeld]
      exact update_self _ _ _
    · exact (update_of_ne (hne o' ho') _ _).trans (h.owner o' ho')
  intro o' ho'
  rcases mem_cons.mp ho' with rfl | ho'
  · rw [hzero]
    exact Budget.within_zero _
  · exact h.owner_within o' ho'

/-- Creating an owner: a failure gives the lease and all bytes back. -/
def Creates (owners : List HeapOwner) (R C S : List HeapHandle) (id : ℕ)
    (x : Except HeapFault (HeapOutcome HeapOwner)) : Prop :=
  (∃ e s', x = .ok (.error e, s') ∧ Exact s' owners R C S ∧
      Registry s'.identities (leasesOf owners)) ∨
    ∃ o s', x = .ok (.ok o, s') ∧ o.id = id ∧ Exact s' (o :: owners) R (o.allocation :: C) S ∧
      Registry s'.identities (leasesOf (o :: owners))

lemma Exact.tryNewWithUid (lease : Option UidLease) (h : Exact s owners R C S)
    (hreg : Registry s.identities (lease.toList ++ leasesOf owners)) {id : ℕ}
    (hid : id ∉ owners.map (·.id)) (arcBytes : ℕ) (arcOk : Bool) :
    Creates owners R C S id (HeapOwner.tryNewWithUid s lease id arcBytes arcOk) := by
  unfold HeapOwner.tryNewWithUid
  rcases h.tryReserveOwned (alive_none owners) .coreProcess arcBytes with
    ⟨e, he⟩ | ⟨s1, hs1, h1, hframe1⟩
  · obtain ⟨s2, hs2, h2, hreg2⟩ := h.dropLease halive hreg
    refine .inl ⟨e, s2, ?_, h2, hreg2⟩
    simp [he, hs2]
  obtain ⟨s2, hs2, h2, hframe2⟩ := (exact_cons_none.mp h1).commit
  have hreg2 : Registry s2.identities (lease.toList ++ leasesOf owners) :=
    (hframe1.trans hframe2).identities ▸ hreg
  cases arcOk with
  | true =>
    refine .inr ⟨⟨id, lease, arcBytes⟩, _, ?_, rfl,
      h2.consOwner (o := ⟨id, lease, arcBytes⟩) halive hid, hreg2⟩
    simp [hs1, hs2]
  | false =>
    obtain ⟨s3, hs3, h3, hreg3⟩ :=
      h2.dropOwner (o := ⟨id, lease, arcBytes⟩) halive hreg2
    refine .inl ⟨.allocationFailed, s3, ?_, h3, hreg3⟩
    simp [hs1, hs2, hs3]

end

/-- `HeapOwner::try_new_for_uid` and `HeapOwner::try_new`: a new owner of a host user, or of none. -/
def HeapOwner.tryNewFor (s : HeapState) (hostUid : Option ℕ) (id arcBytes : ℕ) (arcOk : Bool) :
    Except HeapFault (HeapOutcome HeapOwner) :=
  match hostUid with
  | none => HeapOwner.tryNew s id arcBytes arcOk
  | some uid => HeapOwner.tryNewForUid s uid id arcBytes arcOk

/-- Creating an owner, with or without a host user. -/
lemma Exact.tryNewFor (h : Exact s owners R C S) (halive : ∀ x ∈ S, Alive owners x.owner)
    (hreg : Registry s.identities (leasesOf owners)) {id : ℕ} (hid : id ∉ owners.map (·.id))
    (hostUid : Option ℕ) (arcBytes : ℕ) (arcOk : Bool) :
    Creates owners R C S id (HeapOwner.tryNewFor s hostUid id arcBytes arcOk) := by
  cases hostUid with
  | none => exact h.tryNewWithUid halive none hreg hid arcBytes arcOk
  | some uid =>
    unfold HeapOwner.tryNewFor HeapOwner.tryNewForUid
    rcases hreg.acquire uid with ⟨e, he⟩ | ⟨lease, entry, hok, hreg'⟩
    · refine .inl ⟨e, s, ?_, h, hreg⟩
      simp only [he]
    have h' : Exact (s.setIdentity lease.slot entry) owners R C S :=
      { h with }
    simp only [hok]
    exact h'.tryNewWithUid halive (some lease) hreg' hid arcBytes arcOk

end Nilix.Mm
