import Nilix.Mm.HeapAdmission

/-!
# Exact books

`held q handles` is how many bytes of each class the handles whose owner satisfies `q` account for.
`Exact` says that every cell of the ledger and of the budgets is exactly what three lists of handles
say: the reservations, the charges, and the stakes (whatever an owner is charged for).  From exact
books no function of `HeapAdmission` faults, a refusal changes nothing, and a success leaves books
that are exact for the handles after the call.
-/

namespace Nilix.Mm

open Function List

/-! ## Bytes held by handles -/

variable (q : Option HeapOwner → Bool)

/-- The bytes of each class held by the handles whose owner satisfies `q`. -/
def held (handles : List HeapHandle) : HeapClass → ℕ := fun c =>
  (handles.map fun h => if h.heapClass = c ∧ q h.owner = true then h.bytes else 0).sum

/-- The bytes of each class, whoever the owner is. -/
def byClass : List HeapHandle → HeapClass → ℕ := held fun _ => true

/-- The owners with a given identity. -/
def isOwner (id : ℕ) (owner : Option HeapOwner) : Bool := owner.any fun o => o.id == id

/-- The owners that lease a given slot. -/
def leasesSlot (slot : Fin maxUidDomains) (owner : Option HeapOwner) : Bool :=
  owner.any fun o => o.uid.any fun l => l.slot == slot

lemma held_cons (h : HeapHandle) (l : List HeapHandle) :
    held q (h :: l) = bump (held q l) h.heapClass (if q h.owner = true then h.bytes else 0) := by
  funext c
  unfold held bump
  rw [map_cons, sum_cons, add_comm, eq_comm]
  congr 1
  by_cases hc : c = h.heapClass
  · subst hc
    simp
  · simp [hc, Ne.symm hc]

lemma byClass_cons (h : HeapHandle) (l : List HeapHandle) :
    byClass (h :: l) = bump (byClass l) h.heapClass h.bytes := by
  unfold byClass
  rw [held_cons]
  rfl

lemma held_perm {l l' : List HeapHandle} (h : l.Perm l') : held q l = held q l' := by
  funext c
  exact (h.map _).sum_eq

/-- Two lists of handles that account for the same bytes, owner by owner. -/
def SameBytes (l l' : List HeapHandle) : Prop := ∀ q, held q l = held q l'

lemma SameBytes.of_perm {l l' : List HeapHandle} (h : l.Perm l') : SameBytes l l' :=
  fun q => held_perm q h

/-- A handle can be split in two of the same owner and class. -/
lemma SameBytes.split {m n total : ℕ} (hsum : m + n = total) (owner : Option HeapOwner)
    (c : HeapClass) (l : List HeapHandle) :
    SameBytes (⟨owner, c, total⟩ :: l) (⟨owner, c, n⟩ :: ⟨owner, c, m⟩ :: l) := by
  subst hsum
  intro q
  rw [held_cons, held_cons, held_cons, bump_bump]
  split_ifs <;> rfl

/-- A handle without an owner is in nobody's budget. -/
lemma held_cons_none {q : Option HeapOwner → Bool} (hq : q none = false) (c : HeapClass) (n : ℕ)
    (l : List HeapHandle) : held q (⟨none, c, n⟩ :: l) = held q l := by
  rw [held_cons, hq]
  exact bump_zero _ _

/-- Handles none of whose owners counts hold nothing. -/
lemma held_eq_zero {q : Option HeapOwner → Bool} {l : List HeapHandle}
    (h : ∀ x ∈ l, q x.owner = false) : held q l = fun _ => 0 := by
  induction l with
  | nil => rfl
  | cons x l ih =>
    rw [held_cons, h x mem_cons_self, ih fun y hy => h y (mem_cons_of_mem _ hy)]
    exact bump_zero _ _

/-! ## Exact books -/

/-- The cells are exactly what the reservations, the charges and the stakes say, within all limits.
`owners` are the live owners. -/
structure Exact (s : HeapState) (owners : List HeapOwner)
    (reservations charges stakes : List HeapHandle) : Prop where
  /-- The reserved half of the global and class cells is the reservations, the committed half the
  charges. -/
  ledger : s.ledger = Ledger.ofHeld (byClass charges) (byClass reservations)
  ledger_within : Ledger.Within (byClass charges) (byClass reservations)
  /-- The counters of an owner are its stakes. -/
  owner : ∀ o ∈ owners, s.ownerBudgets o.id = Budget.ofHeld (held (isOwner o.id) stakes)
  owner_within : ∀ o ∈ owners, Budget.Within ownerTier (held (isOwner o.id) stakes)
  /-- The counters of a host user are the stakes of its owners. -/
  uid : ∀ slot, s.uidBudgets slot = Budget.ofHeld (held (leasesSlot slot) stakes)
  uid_within : ∀ slot, Budget.Within uidTier (held (leasesSlot slot) stakes)

/-- The counters that reservations and releases leave alone. -/
structure Frame (s s' : HeapState) : Prop where
  published : s'.published = s.published
  identities : s'.identities = s.identities

lemma Frame.refl (s : HeapState) : Frame s s := ⟨rfl, rfl⟩

lemma Frame.trans {s1 s2 s3 : HeapState} (h1 : Frame s1 s2) (h2 : Frame s2 s3) : Frame s1 s3 :=
  ⟨h2.published.trans h1.published, h2.identities.trans h1.identities⟩

variable {s : HeapState} {owners : List HeapOwner} {R C S S' : List HeapHandle}

/-- Books depend on the lists only through the bytes. -/
lemma Exact.congr {R' C' : List HeapHandle} (h : Exact s owners R C S) (hR : byClass R = byClass R')
    (hC : byClass C = byClass C') (hS : SameBytes S S') : Exact s owners R' C' S' where
  ledger := hC ▸ hR ▸ h.ledger
  ledger_within := hC ▸ hR ▸ h.ledger_within
  owner o ho := hS (isOwner o.id) ▸ h.owner o ho
  owner_within o ho := hS (isOwner o.id) ▸ h.owner_within o ho
  uid slot := hS (leasesSlot slot) ▸ h.uid slot
  uid_within slot := hS (leasesSlot slot) ▸ h.uid_within slot

lemma Exact.perm (h : Exact s owners R C S) (hS : S.Perm S') : Exact s owners R C S' :=
  h.congr rfl rfl (SameBytes.of_perm hS)

variable {c : HeapClass} {n : ℕ}

lemma exact_cons_none : Exact s owners R C (⟨none, c, n⟩ :: S) ↔ Exact s owners R C S := by
  have howner : ∀ id, held (isOwner id) (⟨none, c, n⟩ :: S) = held (isOwner id) S :=
    fun id => held_cons_none rfl c n S
  have huid : ∀ slot, held (leasesSlot slot) (⟨none, c, n⟩ :: S) = held (leasesSlot slot) S :=
    fun slot => held_cons_none rfl c n S
  constructor
  · rintro ⟨h1, h2, h3, h4, h5, h6⟩
    simp only [howner, huid] at h3 h4 h5 h6
    exact ⟨h1, h2, h3, h4, h5, h6⟩
  rintro ⟨h1, h2, h3, h4, h5, h6⟩
  refine ⟨h1, h2, ?_, ?_, ?_, ?_⟩ <;> simp only [howner, huid] <;> assumption

/-! ## Owners -/

/-- What an owner's stake adds to the budget of an identity. -/
lemma held_isOwner_cons (o : HeapOwner) (id : ℕ) (c : HeapClass) (n : ℕ) :
    held (isOwner id) (⟨some o, c, n⟩ :: S) =
      bump (held (isOwner id) S) c (if o.id = id then n else 0) := by
  rw [held_cons]
  simp [isOwner]

/-- What an owner's stake adds to the budget of a slot. -/
lemma held_leasesSlot_cons (o : HeapOwner) (slot : Fin maxUidDomains) (c : HeapClass) (n : ℕ) :
    held (leasesSlot slot) (⟨some o, c, n⟩ :: S) = bump (held (leasesSlot slot) S) c
        (if (o.uid.any fun l => l.slot == slot) = true then n else 0) := by
  rw [held_cons]
  rfl

/-- The state with the budgets of `o` and of its host user written to what the stakes `S` say. -/
def HeapState.rebook (s : HeapState) (o : HeapOwner) (S : List HeapHandle) : HeapState :=
  match o.uid with
  | none => s.setOwnerBudget o.id (Budget.ofHeld (held (isOwner o.id) S))
  | some lease =>
    (s.setOwnerBudget o.id (Budget.ofHeld (held (isOwner o.id) S))).setUidBudget lease.slot
      (Budget.ofHeld (held (leasesSlot lease.slot) S))

lemma HeapState.rebook_parts (s : HeapState) (o : HeapOwner) (S : List HeapHandle) :
    (s.rebook o S).ledger = s.ledger ∧ Frame s (s.rebook o S) ∧ (s.rebook o S).ownerBudgets =
        update s.ownerBudgets o.id (Budget.ofHeld (held (isOwner o.id) S)) ∧
      ∀ slot, (s.rebook o S).uidBudgets slot =
        if (o.uid.any fun l => l.slot == slot) = true then
          Budget.ofHeld (held (leasesSlot slot) S) else s.uidBudgets slot := by
  unfold rebook
  cases huid : o.uid with
  | none => exact ⟨rfl, ⟨rfl, rfl⟩, rfl, fun slot => rfl⟩
  | some lease =>
    refine ⟨rfl, ⟨rfl, rfl⟩, rfl, fun slot => ?_⟩
    simp only [setUidBudget, setOwnerBudget, Option.any_some, beq_iff_eq]
    by_cases heq : slot = lease.slot
    · rw [heq, update_self, if_pos rfl]
    · rw [update_of_ne heq, if_neg (Ne.symm heq)]

/-- Rebooking for stakes that differ only by stakes of `o` gives exact books. -/
lemma Exact.rebook (h : Exact s owners R C S) (o : HeapOwner)
    (howner : ∀ id, id ≠ o.id → held (isOwner id) S = held (isOwner id) S')
    (huid : ∀ slot, (o.uid.any fun l => l.slot == slot) = false →
      held (leasesSlot slot) S = held (leasesSlot slot) S')
    (howner_within : ∀ o' ∈ owners, Budget.Within ownerTier (held (isOwner o'.id) S'))
    (huid_within : ∀ slot, Budget.Within uidTier (held (leasesSlot slot) S')) :
    Exact (s.rebook o S') owners R C S' := by
  obtain ⟨hledger, -, hbudgets, hslots⟩ := s.rebook_parts o S'
  refine ⟨hledger.trans h.ledger, h.ledger_within, ?_, howner_within, ?_, huid_within⟩
  · intro o' ho'
    rw [hbudgets]
    by_cases hid : o'.id = o.id
    · rw [hid, update_self]
    · rw [update_of_ne hid, h.owner o' ho', howner o'.id hid]
  intro slot
  rw [hslots]
  split_ifs with hany
  · rfl
  · rw [h.uid slot, huid slot (by simpa using hany)]

variable {o : HeapOwner}

lemma held_isOwner_cons_of_ne {id : ℕ} (hid : id ≠ o.id) (c : HeapClass) (n : ℕ) :
    held (isOwner id) (⟨some o, c, n⟩ :: S) = held (isOwner id) S := by
  rw [held_isOwner_cons, if_neg (Ne.symm hid), bump_zero]

/-- The stake of an owner that leases another slot does not matter. -/
lemma held_leasesSlot_cons_of_not {slot : Fin maxUidDomains}
    (hslot : (o.uid.any fun l => l.slot == slot) = false) (c : HeapClass) (n : ℕ) :
    held (leasesSlot slot) (⟨some o, c, n⟩ :: S) = held (leasesSlot slot) S := by
  rw [held_leasesSlot_cons, hslot]
  exact bump_zero _ _

/-- The state with the bytes added to the budgets of an owner and of its host user. -/
def HeapOwner.charge (o : HeapOwner) (s : HeapState) (c : HeapClass) (n : ℕ) : HeapState :=
  let s1 := s.setOwnerBudget o.id ((s.ownerBudgets o.id).add c n)
  match o.uid with
  | none => s1
  | some lease => s1.setUidBudget lease.slot ((s.uidBudgets lease.slot).add c n)

lemma HeapOwner.release_charge (o : HeapOwner) (s : HeapState) (c : HeapClass) (hn : n ≤ u32Max) :
    o.release (o.charge s c n) c n = .ok s := by
  unfold HeapOwner.release HeapOwner.charge HeapOwner.releaseLocal
  cases huid : o.uid with
  | none => simp [HeapState.setOwnerBudget, Budget.release_add _ c hn]
  | some =>
    simp [HeapState.setOwnerBudget, HeapState.setUidBudget, UidLease.release,
      Budget.release_add _ c hn]

/-- In any state, a reservation of an owner is refused and changes nothing, or charges its budgets. -/
lemma HeapOwner.reserve_cases (o : HeapOwner) (s : HeapState) (c : HeapClass) (n : ℕ) :
    (∃ e, o.reserve s c n = .ok (.error e, s)) ∨
      o.reserve s c n = .ok (.ok (), o.charge s c n) ∧
        (s.ownerBudgets o.id).Fits ownerTier c n ∧
        ∀ lease, o.uid = some lease → (s.uidBudgets lease.slot).Fits uidTier c n := by
  unfold HeapOwner.reserve HeapOwner.charge
  rcases (s.ownerBudgets o.id).reserve_cases ownerTier c n with ⟨e, he⟩ | ⟨hok, hfits⟩
  · exact .inl ⟨e, by simp [he, HeapState.setOwnerBudget]⟩
  cases huid : o.uid with
  | none => exact .inr ⟨by simp [hok], hfits, nofun⟩
  | some lease =>
    rcases (s.uidBudgets lease.slot).reserve_cases uidTier c n with ⟨e, he⟩ | ⟨hok', hfits'⟩
    · refine .inl ⟨e, ?_⟩
      simp [hok, UidLease.reserve, HeapState.setOwnerBudget, he, HeapState.setUidBudget,
        HeapOwner.releaseLocal, Budget.release_add _ c hfits.bytes_le]
    refine .inr ⟨?_, hfits, fun lease' hlease' => Option.some.inj hlease' ▸ hfits'⟩
    simp [hok, UidLease.reserve, HeapState.setOwnerBudget, hok', HeapState.setUidBudget]

/-- Charging an owner in rebooked books adds its stake. -/
lemma HeapState.charge_rebook (s : HeapState) (o : HeapOwner) (c : HeapClass) (n : ℕ) :
    o.charge (s.rebook o S) c n = s.rebook o (⟨some o, c, n⟩ :: S) := by
  unfold HeapOwner.charge rebook
  cases huid : o.uid with
  | none => simp [setOwnerBudget, held_isOwner_cons, Budget.ofHeld_add]
  | some =>
    simp [setOwnerBudget, setUidBudget, held_isOwner_cons, held_leasesSlot_cons, huid,
      Budget.ofHeld_add]

lemma Exact.rebook_self (ho : o ∈ owners) (h : Exact s owners R C S) : s.rebook o S = s := by
  unfold HeapState.rebook
  cases o.uid <;> simp [HeapState.setOwnerBudget, HeapState.setUidBudget, ← h.owner o ho, ← h.uid]

lemma Exact.releaseStake (ho : o ∈ owners) (h : Exact s owners R C (⟨some o, c, n⟩ :: S)) :
    ∃ s', o.release s c n = .ok s' ∧ Exact s' owners R C S ∧ Frame s s' := by
  have hwithin := h.owner_within o ho
  rw [held_isOwner_cons, if_pos rfl] at hwithin
  refine ⟨s.rebook o S, ?_, h.rebook o ?_ ?_ ?_ ?_, (s.rebook_parts o S).2.1⟩
  · have hrelease := o.release_charge (s.rebook o S) c (hwithin.bytes_le (by decide))
    rwa [s.charge_rebook, h.rebook_self ho] at hrelease
  · exact fun id hid => held_isOwner_cons_of_ne hid c n
  · exact fun slot hslot => held_leasesSlot_cons_of_not hslot c n
  · intro o' ho'
    have hw := h.owner_within o' ho'
    rw [held_isOwner_cons] at hw
    exact hw.of_bump
  · intro slot
    have hw := h.uid_within slot
    rw [held_leasesSlot_cons] at hw
    exact hw.of_bump

/-- Reserving for an owner: a refusal changes nothing, a success adds the stake. -/
lemma Exact.reserveStake (ho : o ∈ owners) (h : Exact s owners R C S) (c : HeapClass) (n : ℕ) :
    (∃ e, o.reserve s c n = .ok (.error e, s)) ∨
      ∃ s', o.reserve s c n = .ok (.ok (), s') ∧ Exact s' owners R C (⟨some o, c, n⟩ :: S) ∧
        Frame s s' := by
  rcases o.reserve_cases s c n with hfail | ⟨hok, hfits, huid⟩
  · exact .inl hfail
  have hcharge := s.charge_rebook (S := S) o c n
  rw [h.rebook_self ho] at hcharge
  rw [hcharge] at hok
  refine .inr ⟨_, hok, h.rebook o ?_ ?_ ?_ ?_, (s.rebook_parts o _).2.1⟩
  · exact fun id hid => (held_isOwner_cons_of_ne hid c n).symm
  · exact fun slot hslot => (held_leasesSlot_cons_of_not hslot c n).symm
  · intro o' ho'
    rw [held_isOwner_cons]
    split_ifs with hid
    · rw [← hid]
      exact (h.owner_within o ho).bump (h.owner o ho ▸ hfits)
    rw [bump_zero]
    exact h.owner_within o' ho'
  intro slot
  rw [held_leasesSlot_cons]
  split_ifs with hany
  · obtain ⟨lease, hlease, hslot⟩ := (Option.any_eq_true _ _).mp hany
    rw [← beq_iff_eq.mp hslot]
    exact (h.uid_within lease.slot).bump (h.uid lease.slot ▸ huid lease hlease)
  rw [bump_zero]
  exact h.uid_within slot

/-- The owner of a handle is live. -/
def Alive (owners : List HeapOwner) (owner : Option HeapOwner) : Prop :=
  ∀ o, owner = some o → o ∈ owners

lemma alive_none (owners : List HeapOwner) : Alive owners none := nofun

variable {owner : Option HeapOwner}

lemma Exact.releaseOwner (halive : Alive owners owner)
    (h : Exact s owners R C (⟨owner, c, n⟩ :: S)) :
    ∃ s', Mm.releaseOwner owner s c n = .ok s' ∧ Exact s' owners R C S ∧ Frame s s' := by
  cases owner with
  | none => exact ⟨s, rfl, exact_cons_none.mp h, Frame.refl s⟩
  | some o => exact h.releaseStake (halive o rfl)

lemma Exact.reserveOwner (halive : Alive owners owner) (h : Exact s owners R C S) (c : HeapClass)
    (n : ℕ) :
    (∃ e, Mm.reserveOwner owner s c n = .ok (.error e, s)) ∨
      ∃ s', Mm.reserveOwner owner s c n = .ok (.ok (), s') ∧
        Exact s' owners R C (⟨owner, c, n⟩ :: S) ∧ Frame s s' := by
  cases owner with
  | none => exact .inr ⟨s, rfl, exact_cons_none.mpr h, Frame.refl s⟩
  | some o => exact h.reserveStake (halive o rfl) c n

/-! ## Reservations -/

lemma Exact.setLedger (h : Exact s owners R C S) (R' C' : List HeapHandle)
    (hw : Ledger.Within (byClass C') (byClass R')) :
    Exact { s with ledger := Ledger.ofHeld (byClass C') (byClass R') } owners R' C' S :=
  ⟨rfl, hw, h.owner, h.owner_within, h.uid, h.uid_within⟩

/-- In any state, a refused reservation of an owner changes nothing, and a release gives a successful
one back. -/
lemma reserveOwner_cases (owner : Option HeapOwner) (s : HeapState) (c : HeapClass) (n : ℕ) :
    (∃ e, Mm.reserveOwner owner s c n = .ok (.error e, s)) ∨
      ∃ s', Mm.reserveOwner owner s c n = .ok (.ok (), s') ∧
        Mm.releaseOwner owner s' c n = .ok s := by
  cases owner with
  | none => exact .inr ⟨s, rfl, rfl⟩
  | some o =>
    rcases o.reserve_cases s c n with hfail | ⟨hok, hfits, -⟩
    · exact .inl hfail
    · exact .inr ⟨_, hok, o.release_charge s c hfits.bytes_le⟩

/-- The call does not fail-stop: it returns an error and changes nothing, or it succeeds. -/
def AllOrNothing {α : Type} (s : HeapState) (call : Except HeapFault (HeapOutcome α)) : Prop :=
  (∃ e, call = .ok (.error e, s)) ∨ ∃ a s', call = .ok (.ok a, s')

lemma allOrNothing_reserveOwnedPair (s : HeapState) (c : HeapClass) (n : ℕ)
    (owner : Option HeapOwner) : AllOrNothing s (Mm.reserveOwnedPair s c n owner) := by
  unfold Mm.reserveOwnedPair
  rcases reserveOwner_cases owner s c n with ⟨e, he⟩ | ⟨s1, hs1, hback⟩
  · exact .inl ⟨e, by simp [he]⟩
  rcases s1.ledger.reservePair_cases c n with ⟨e, he⟩ | ⟨-, hok⟩ | ⟨hok, -⟩
  · exact .inl ⟨e, by simp [hs1, he, hback]⟩
  all_goals exact .inr (by simp [hs1, hok])

section

variable (halive : Alive owners owner)
include halive

/-- `reserve_owned_pair`: a refusal changes nothing, a success reserves the bytes. -/
lemma Exact.reserveOwnedPair (h : Exact s owners R C S) (c : HeapClass) (n : ℕ) :
    (∃ e, Mm.reserveOwnedPair s c n owner = .ok (.error e, s)) ∨
      ∃ s', Mm.reserveOwnedPair s c n owner = .ok (.ok (), s') ∧
        Exact s' owners (⟨owner, c, n⟩ :: R) C (⟨owner, c, n⟩ :: S) ∧ Frame s s' := by
  rcases allOrNothing_reserveOwnedPair s c n owner with hfail | ⟨_, s', hs'⟩
  · exact .inl hfail
  refine .inr ⟨s', hs', ?_⟩
  unfold Mm.reserveOwnedPair at hs'
  rcases h.reserveOwner halive c n with ⟨e, he⟩ | ⟨s1, hs1, h1, hframe1⟩
  · simp [he] at hs'
  rcases Ledger.reservePair_ofHeld h1.ledger_within c n with ⟨e, he⟩ | ⟨hok, hw⟩
  · rw [← h1.ledger] at he
    obtain ⟨s2, hs2, -⟩ := h1.releaseOwner halive
    simp [hs1, he, hs2] at hs'
  rw [← h1.ledger, ← byClass_cons ⟨owner, c, n⟩ R] at hok
  rw [← byClass_cons ⟨owner, c, n⟩ R] at hw
  simp only [hs1, hok, ok_bind, pure_eq_ok, Except.ok.injEq, Prod.mk.injEq, true_and] at hs'
  rw [← hs']
  exact ⟨h1.setLedger _ _ hw, hframe1.published, hframe1.identities⟩

/-- `try_reserve_owned`: a refusal changes nothing, a success makes a reservation. -/
lemma Exact.tryReserveOwned (h : Exact s owners R C S) (c : HeapClass) (n : ℕ) :
    (∃ e, Mm.tryReserveOwned s c n owner = .ok (.error e, s)) ∨
      ∃ s', Mm.tryReserveOwned s c n owner = .ok (.ok ⟨owner, c, n⟩, s') ∧
        Exact s' owners (⟨owner, c, n⟩ :: R) C (⟨owner, c, n⟩ :: S) ∧ Frame s s' := by
  unfold Mm.tryReserveOwned
  split_ifs
  · exact .inl ⟨.notPublished, rfl⟩
  rcases h.reserveOwnedPair halive c n with ⟨e, he⟩ | ⟨s', hs', h', hframe⟩
  · exact .inl ⟨e, by simp [he, Except.map]⟩
  refine .inr ⟨s', ?_, h', hframe⟩
  simp [hs', Except.map]

/-- Releasing reserved bytes of an owner, on the ledger and on its stake. -/
lemma Exact.releaseReserved (h : Exact s owners (⟨owner, c, n⟩ :: R) C (⟨owner, c, n⟩ :: S)) :
    ∃ l s', s.ledger.releaseReservedPair c n = .ok l ∧
      Mm.releaseOwner owner { s with ledger := l } c n = .ok s' ∧ Exact s' owners R C S ∧
      Frame s s' := by
  have hwithin := h.ledger_within
  rw [byClass_cons] at hwithin
  obtain ⟨s', hs', h', hframe⟩ := (h.setLedger R C hwithin.of_reserved).releaseOwner halive
  refine ⟨_, s', ?_, hs', h', hframe.published, hframe.identities⟩
  rw [h.ledger, byClass_cons]
  exact Ledger.releaseReservedPair_ofHeld hwithin

/-- Releasing charged bytes of an owner, on the ledger and on its stake. -/
lemma Exact.releaseCommitted (h : Exact s owners R (⟨owner, c, n⟩ :: C) (⟨owner, c, n⟩ :: S)) :
    ∃ l s', s.ledger.releaseCommittedPair c n = .ok l ∧
      Mm.releaseOwner owner { s with ledger := l } c n = .ok s' ∧ Exact s' owners R C S ∧
      Frame s s' := by
  have hwithin := h.ledger_within
  rw [byClass_cons] at hwithin
  obtain ⟨s', hs', h', hframe⟩ := (h.setLedger R C hwithin.of_charged).releaseOwner halive
  refine ⟨_, s', ?_, hs', h', hframe.published, hframe.identities⟩
  rw [h.ledger, byClass_cons]
  exact Ledger.releaseCommittedPair_ofHeld hwithin

end

variable {r : HeapReservation}

lemma Exact.dropReservation (halive : Alive owners r.owner) (h : Exact s owners (r :: R) C (r :: S)) :
    ∃ s', HeapReservation.drop r s = .ok s' ∧ Exact s' owners R C S ∧ Frame s s' := by
  obtain ⟨l, s', hl, hs', h', hframe⟩ := h.releaseReserved halive
  refine ⟨s', ?_, h', hframe⟩
  simp [HeapReservation.drop, hl, hs']

/-- Resizing a reservation, up or down, successfully or not. -/
lemma Exact.resize (halive : Alive owners r.owner) (h : Exact s owners (r :: R) C (r :: S))
    (newBytes : ℕ) :
    ∃ res r' s', HeapReservation.resize r s newBytes = .ok (res, r', s') ∧
      r'.owner = r.owner ∧ Exact s' owners (r' :: R) C (r' :: S) ∧ Frame s s' := by
  obtain ⟨owner, c, bytes⟩ := r
  unfold HeapReservation.resize
  split_ifs with heq hlt
  · exact ⟨.ok (), _, s, rfl, rfl, h, Frame.refl s⟩
  · -- Growing: the additional bytes are reserved on their own and then merged.
    rcases h.reserveOwnedPair halive c (newBytes - bytes) with
      ⟨e, he⟩ | ⟨s', hs', h', hframe⟩
    · refine ⟨.error e, _, s, ?_, rfl, h, Frame.refl s⟩
      simp [he]
    have hsplit := SameBytes.split (Nat.add_sub_cancel' hlt.le) owner c
    refine ⟨.ok (), ⟨owner, c, newBytes⟩, s', ?_, rfl,
      h'.congr (hsplit R _).symm rfl fun q => (hsplit S q).symm, hframe⟩
    simp [hs']
  · -- Shrinking: the excess is split off and released.
    have hsplit := SameBytes.split (Nat.add_sub_cancel' (Nat.le_of_not_lt hlt)) owner c
    obtain ⟨l, s', hl, hs', h', hframe⟩ :=
      (h.congr (hsplit R _) rfl (hsplit S)).releaseReserved halive
    refine ⟨.ok (), ⟨owner, c, newBytes⟩, s', ?_, rfl, h', hframe⟩
    simp [hl, hs']

/-- Committing a reservation succeeds: its bytes move from the reserved to the committed halves. -/
lemma Exact.commit (h : Exact s owners (r :: R) C S) :
    ∃ s', HeapReservation.commit r s = .ok (.ok r, s') ∧ Exact s' owners R (r :: C) S ∧
      Frame s s' := by
  have hledger := h.ledger
  have hwithin := h.ledger_within
  rw [byClass_cons] at hledger hwithin
  have hcommit := Ledger.commitPair_ofHeld hwithin
  have hwithin' := hwithin.commit
  rw [← hledger, ← byClass_cons r C] at hcommit
  rw [← byClass_cons r C] at hwithin'
  refine ⟨_, ?_, h.setLedger _ _ hwithin', rfl, rfl⟩
  unfold HeapReservation.commit
  rw [hcommit]

/-! ## Charges and transfers -/

variable {ch : HeapCharge}

lemma Exact.dropCharge (halive : Alive owners ch.owner) (h : Exact s owners R (ch :: C) (ch :: S)) :
    ∃ s', HeapCharge.drop ch s = .ok s' ∧ Exact s' owners R C S ∧ Frame s s' := by
  obtain ⟨l, s', hl, hs', h', hframe⟩ := h.releaseCommitted halive
  refine ⟨s', ?_, h', hframe⟩
  simp [HeapCharge.drop, hl, hs']

lemma Exact.releaseAfterDeallocation (halive : Alive owners ch.owner)
    (h : Exact s owners R (ch :: C) (ch :: S)) (bytes : ℕ) :
    ∃ res ch' s', HeapCharge.releaseAfterDeallocation ch s bytes = .ok (res, ch', s') ∧
      ch'.owner = ch.owner ∧ Exact s' owners R (ch' :: C) (ch' :: S) ∧ Frame s s' := by
  obtain ⟨owner, c, n⟩ := ch
  unfold HeapCharge.releaseAfterDeallocation
  split_ifs with hlt
  · exact ⟨_, _, s, rfl, rfl, h, Frame.refl s⟩
  dsimp only at hlt
  have hsplit := SameBytes.split (Nat.sub_add_cancel (Nat.le_of_not_lt hlt)) owner c
  obtain ⟨l, s', hl, hs', h', hframe⟩ :=
    (h.congr rfl (hsplit C _) (hsplit S)).releaseCommitted halive
  refine ⟨.ok (), ⟨owner, c, n - bytes⟩, s', ?_, rfl, h', hframe⟩
  simp [hl, hs']

/-- Absorbing a reservation into a charge.  Owners with one identity are equal, so a reservation that
passes the check has the owner of the charge. -/
lemma Exact.absorb (halive : Alive owners r.owner)
    (hsame : sameOwner ch.owner r.owner = true → ch.owner = r.owner)
    (h : Exact s owners (r :: R) (ch :: C) (r :: ch :: S)) :
    ∃ res ch' s', HeapCharge.absorb ch r s = .ok (res, ch', s') ∧ ch'.owner = ch.owner ∧
      Exact s' owners R (ch' :: C) (ch' :: S) ∧ Frame s s' := by
  obtain ⟨s1, hs1, h1, hframe1⟩ := h.dropReservation halive
  unfold HeapCharge.absorb
  split_ifs with hbad
  · refine ⟨.error .corruptState, ch, s1, ?_, rfl, h1, hframe1⟩
    simp [hs1]
  simp only [not_or, not_not, Bool.not_eq_true', Bool.not_eq_false] at hbad
  obtain ⟨hclass, howner⟩ := hbad
  cases hadd : checkedAdd ch.bytes r.bytes with
  | none =>
    refine ⟨.error .arithmeticOverflow, ch, s1, ?_, rfl, h1, hframe1⟩
    simp [hs1]
  | some newTotal =>
    have hsum : ch.bytes + r.bytes = newTotal := (eq_of_checkedAdd hadd).symm
    have hsplit : ∀ l, SameBytes ({ ch with bytes := newTotal } :: l) (r :: ch :: l) := by
      intro l
      have hr : r = ⟨ch.owner, ch.heapClass, r.bytes⟩ := by
        rw [hsame howner, ← hclass]
      rw [hr]
      exact SameBytes.split hsum ch.owner ch.heapClass l
    obtain ⟨s2, hs2, h2, hframe2⟩ := h.commit
    refine ⟨.ok (), { ch with bytes := newTotal }, s2, ?_, rfl,
      h2.congr rfl (hsplit C _).symm fun q => (hsplit S q).symm, hframe2⟩
    simp [hs2]

/-- What a transfer charges its destination for. -/
def HeapOwnerTransfer.stakes (t : HeapOwnerTransfer) : List HeapHandle :=
  if t.armed then [⟨t.owner, t.heapClass, t.bytes⟩] else []

/-- Preparing a transfer: a refusal changes nothing, a success charges the destination. -/
lemma Exact.prepareOwnerTransfer (ch : HeapCharge) (halive : Alive owners owner)
    (h : Exact s owners R C S) :
    (∃ e, HeapCharge.prepareOwnerTransfer ch s owner = .ok (.error e, s)) ∨
      ∃ t s', HeapCharge.prepareOwnerTransfer ch s owner = .ok (.ok t, s') ∧
        t.previous = ch.owner ∧ t.owner = owner ∧ Exact s' owners R C (t.stakes ++ S) ∧
        Frame s s' := by
  unfold HeapCharge.prepareOwnerTransfer
  split_ifs
  · exact .inl ⟨_, rfl⟩
  · exact .inr ⟨_, s, rfl, rfl, rfl, h, Frame.refl s⟩
  · rcases h.reserveOwner halive ch.heapClass ch.bytes with ⟨e, he⟩ | ⟨s', hs', h', hframe⟩
    · refine .inl ⟨e, ?_⟩
      simp [he, Except.map]
    · refine .inr ⟨⟨ch.owner, owner, ch.heapClass, ch.bytes, true⟩, s', ?_, rfl, rfl, h', hframe⟩
      simp [hs', Except.map]

lemma Exact.dropTransfer {t : HeapOwnerTransfer} (halive : Alive owners t.owner)
    (h : Exact s owners R C (t.stakes ++ S)) :
    ∃ s', t.drop s = .ok s' ∧ Exact s' owners R C S ∧ Frame s s' := by
  unfold HeapOwnerTransfer.drop
  unfold HeapOwnerTransfer.stakes at h
  split_ifs at h ⊢
  · exact h.releaseOwner halive
  · exact ⟨s, rfl, h, Frame.refl s⟩

/-- Committing a transfer: the charge moves to the destination, whose stake is already there. -/
lemma Exact.commitTransfer {t : HeapOwnerTransfer} (halive : Alive owners t.owner)
    (hprevious : Alive owners t.previous)
    (hsame : sameOwner t.previous ch.owner = true → t.previous = ch.owner)
    (h : Exact s owners R (ch :: C) (t.stakes ++ ch :: S)) :
    ∃ res ch' s', t.commit ch s = .ok (res, ch', s') ∧
      (ch'.owner = ch.owner ∨ ch'.owner = t.owner) ∧
      Exact s' owners R (ch' :: C) (ch' :: S) ∧ Frame s s' := by
  obtain ⟨s1, hs1, h1, hframe1⟩ := h.dropTransfer halive
  unfold HeapOwnerTransfer.commit
  split_ifs with hbad harmed
  · refine ⟨.error .corruptState, ch, s1, ?_, .inl rfl, h1, hframe1⟩
    simp [hs1]
  · simp only [not_or, not_not, Bool.not_eq_true', Bool.not_eq_false] at hbad
    obtain ⟨hclass, hbytes, howner⟩ := hbad
    have hch : ch = ⟨t.previous, t.heapClass, t.bytes⟩ := by
      rw [hsame howner, hclass, hbytes]
    rw [HeapOwnerTransfer.stakes, if_pos harmed] at h
    have hperm : ([(⟨t.owner, t.heapClass, t.bytes⟩ : HeapHandle)] ++ ch :: S).Perm
        (⟨t.previous, t.heapClass, t.bytes⟩ :: { ch with owner := t.owner } :: S) := by
      rw [hch]
      exact Perm.swap _ _ _
    obtain ⟨s', hs', h', hframe⟩ := (h.perm hperm).releaseOwner hprevious
    refine ⟨.ok (), { ch with owner := t.owner }, s', ?_, .inr rfl, ?_, hframe⟩
    · simp [hs']
    refine h'.congr rfl ?_ fun q => rfl
    rw [byClass_cons, byClass_cons]
  · rw [HeapOwnerTransfer.stakes, if_neg harmed] at h
    exact ⟨.ok (), ch, s, rfl, .inl rfl, h, Frame.refl s⟩

/-! ## Refusals in any state -/

lemma AllOrNothing.map {s : HeapState} {α β : Type} {call : Except HeapFault (HeapOutcome α)}
    (h : AllOrNothing s call) (f : α → β) :
    AllOrNothing s (do let (r, s') ← call; return (r.map f, s')) := by
  rcases h with ⟨e, rfl⟩ | ⟨a, s', rfl⟩
  · exact .inl ⟨e, rfl⟩
  · exact .inr ⟨f a, s', rfl⟩

lemma allOrNothing_tryReserveOwned (s : HeapState) (c : HeapClass) (n : ℕ)
    (owner : Option HeapOwner) : AllOrNothing s (tryReserveOwned s c n owner) := by
  unfold tryReserveOwned
  split_ifs
  · exact .inl ⟨_, rfl⟩
  · exact (allOrNothing_reserveOwnedPair s c n owner).map _

lemma allOrNothing_prepareOwnerTransfer (ch : HeapCharge) (s : HeapState)
    (owner : Option HeapOwner) : AllOrNothing s (ch.prepareOwnerTransfer s owner) := by
  unfold HeapCharge.prepareOwnerTransfer
  split_ifs
  · exact .inl ⟨_, rfl⟩
  · exact .inr ⟨_, s, rfl⟩
  · refine AllOrNothing.map ?_ _
    exact (reserveOwner_cases owner s _ _).imp_right fun ⟨s', hs', _⟩ => ⟨(), s', hs'⟩

/-- Refusals leave no trace, in any state whose global cell fits its 32 bits.  A refused commit moves
nothing either, but the reservation it took is dropped; from exact books no commit is refused. -/
theorem refused_admission_leaves_no_trace (s : HeapState) (c : HeapClass) (n : ℕ)
    (owner : Option HeapOwner) (r : HeapReservation) (ch : HeapCharge)
    (hpacked : s.ledger.global.reserved ≤ u32Max) :
    AllOrNothing s (tryReserveOwned s c n owner) ∧
      AllOrNothing s (ch.prepareOwnerTransfer s owner) ∧
      (r.bytes < n → (∃ e, r.resize s n = .ok (.error e, r, s)) ∨
        ∃ s', r.resize s n = .ok (.ok (), { r with bytes := n }, s')) ∧
      (∀ e s', r.commit s = .ok (.error e, s') → r.drop s = .ok s') ∧
      ∀ owners R C S, Exact s owners (r :: R) C S → ∃ s', r.commit s = .ok (.ok r, s') := by
  refine ⟨allOrNothing_tryReserveOwned s c n owner, allOrNothing_prepareOwnerTransfer ch s owner,
    fun hlt => ?_, fun e s' hcommit => ?_, fun owners R C S h => ?_⟩
  · unfold HeapReservation.resize
    rw [if_neg hlt.ne', if_pos hlt]
    rcases allOrNothing_reserveOwnedPair s r.heapClass (n - r.bytes) r.owner with
      ⟨e, he⟩ | ⟨_, s', hs'⟩
    · exact .inl ⟨e, by simp [he]⟩
    · exact .inr ⟨s', by simp [hs']⟩
  · unfold HeapReservation.commit at hcommit
    rcases hpair : s.ledger.commitPair r.heapClass r.bytes with ⟨e' | u, l⟩
    · obtain rfl := Ledger.commitPair_refused hpacked hpair
      simp only [hpair] at hcommit
      obtain ⟨s1, hdrop, heq⟩ := bind_eq_ok hcommit
      cases heq
      exact hdrop
    · simp [hpair] at hcommit
  · obtain ⟨s', hs', -⟩ := h.commit
    exact ⟨s', hs'⟩

/-- The charges of the class for `exec` fill its share, and an owner and its host user hold nothing. -/
def execFull : HeapState where
  published := true
  ledger := ⟨⟨1048576, 0⟩, fun c => if c = .exec then ⟨1048576, 0⟩ else ⟨0, 0⟩⟩
  ownerBudgets := fun _ => .new
  uidBudgets := fun _ => .new
  identities := fun _ => none

@[inherit_doc execFull]
def leasedOwner : HeapOwner := ⟨1, some ⟨⟨0, by decide⟩, 1000⟩, 0⟩

/-- The owner, its host user and the global cell admit a page that the class refuses; all three give it
back. -/
theorem refused_exec_leaves_no_trace :
    ∃ e, tryReserveOwned execFull .exec 4096 (some leasedOwner) =
      .ok (.error e, execFull) := by
  have hrefused : (tryReserveOwned execFull .exec 4096 (some leasedOwner)).map
      (fun out => out.1.toOption.isSome) = .ok false := by decide +kernel
  rcases (refused_admission_leaves_no_trace execFull .exec 4096 (some leasedOwner)
    ⟨none, .exec, 0⟩ ⟨none, .exec, 0⟩ (Nat.zero_le _)).1 with herror | ⟨r, s', hok⟩
  · exact herror
  · rw [hok] at hrefused
    cases hrefused

/-- A commit refused because the committed half would overflow gives the reserved byte back. -/
theorem refused_commit_releases : ∃ s', HeapReservation.commit ⟨none, .coreProcess, 1⟩
      ⟨true, ⟨⟨u32Max, 1⟩, fun _ => ⟨0, 1⟩⟩, fun _ => .new, fun _ => .new, fun _ => none⟩ =
        .ok (.error .arithmeticOverflow, s') ∧ s'.ledger.global = ⟨u32Max, 0⟩ :=
  ⟨_, rfl, rfl⟩

end Nilix.Mm
