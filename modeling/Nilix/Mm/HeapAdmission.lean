import Nilix.Mm.HeapLedger

/-!
# Heap admission

`kernel/mm/heap_admission.rs` and `kernel/mm/heap_uid.rs`: owners, leases of host users, and the
handles (reservations, charges, owner transfers) through which every admitted byte is accounted.

Handles and owners are values; a handle is armed as long as it is live, so only a transfer, which can
be made without anything to move, keeps the flag.  A function that takes a handle by value returns
the state after the handle's `Drop` ran where the source drops it.  The counters of an owner are kept
in the state under the owner's identity.
-/

namespace Nilix.Mm

open Function

def maxUidDomains : ℕ := 64

structure UidLease where
  slot : Fin maxUidDomains
  uid : ℕ
  deriving DecidableEq

/-- `HeapOwner`: its identity, its lease and the bytes of the charge for its own allocation. -/
structure HeapOwner where
  id : ℕ
  uid : Option UidLease
  allocationBytes : ℕ
  deriving DecidableEq

/-- The fields of a live `HeapReservation` and of a live `HeapCharge`. -/
structure HeapHandle where
  owner : Option HeapOwner
  heapClass : HeapClass
  bytes : ℕ
  deriving DecidableEq

abbrev HeapReservation := HeapHandle

abbrev HeapCharge := HeapHandle

structure HeapOwnerTransfer where
  previous : Option HeapOwner
  owner : Option HeapOwner
  heapClass : HeapClass
  bytes : ℕ
  armed : Bool
  deriving DecidableEq

/-- The counters: the ledger, the budgets of the owners and of the host users, and the registry of
host users with the number of live owners of each. -/
structure HeapState where
  published : Bool
  ledger : Ledger
  ownerBudgets : ℕ → Budget
  uidBudgets : Fin maxUidDomains → Budget
  identities : Fin maxUidDomains → Option (ℕ × ℕ)

/-- The result of a fallible function that also changes the counters. -/
abbrev HeapOutcome (α : Type) := Except HeapAdmissionError α × HeapState

/-! ## Owners -/

def sameOwner : Option HeapOwner → Option HeapOwner → Bool
  | none, none => true
  | some a, some b => a.id == b.id
  | _, _ => false

namespace HeapState

/-- Write the budget of an owner. -/
def setOwnerBudget (s : HeapState) (id : ℕ) (b : Budget) : HeapState :=
  { s with ownerBudgets := update s.ownerBudgets id b }

/-- Write the budget of a host user. -/
def setUidBudget (s : HeapState) (slot : Fin maxUidDomains) (b : Budget) : HeapState :=
  { s with uidBudgets := update s.uidBudgets slot b }

/-- Write the registry entry of a slot. -/
def setIdentity (s : HeapState) (slot : Fin maxUidDomains) (entry : Option (ℕ × ℕ)) : HeapState :=
  { s with identities := update s.identities slot entry }

end HeapState

def UidLease.reserve (lease : UidLease) (s : HeapState) (c : HeapClass) (bytes : ℕ) :
    Except HeapFault (HeapOutcome Unit) := do
  let (r, b) ← (s.uidBudgets lease.slot).reserve uidTier c bytes
  return (r, s.setUidBudget lease.slot b)

def UidLease.release (lease : UidLease) (s : HeapState) (c : HeapClass) (bytes : ℕ) :
    Except HeapFault HeapState := do
  let b ← (s.uidBudgets lease.slot).release c bytes
  return s.setUidBudget lease.slot b

namespace HeapOwner

def releaseLocal (o : HeapOwner) (s : HeapState) (c : HeapClass) (bytes : ℕ) :
    Except HeapFault HeapState := do
  let b ← (s.ownerBudgets o.id).release c bytes
  return s.setOwnerBudget o.id b

def release (o : HeapOwner) (s : HeapState) (c : HeapClass) (bytes : ℕ) :
    Except HeapFault HeapState := do
  let s1 ← o.releaseLocal s c bytes
  match o.uid with
  | none => return s1
  | some lease => lease.release s1 c bytes

/-- `HeapOwner::reserve`: the gates of the owner, then those of its host user. -/
def reserve (o : HeapOwner) (s : HeapState) (c : HeapClass) (bytes : ℕ) :
    Except HeapFault (HeapOutcome Unit) := do
  let (r, b) ← (s.ownerBudgets o.id).reserve ownerTier c bytes
  let s1 := s.setOwnerBudget o.id b
  match r with
  | .error e => return (.error e, s1)
  | .ok () => match o.uid with
    | none => return (.ok (), s1)
    | some lease => do
      let (r', s2) ← lease.reserve s1 c bytes
      match r' with
      | .ok () => return (.ok (), s2)
      | .error e => do
        let s3 ← o.releaseLocal s2 c bytes
        return (.error e, s3)

end HeapOwner

/-- `owner.release(class, bytes)` where there is an owner. -/
def releaseOwner (owner : Option HeapOwner) (s : HeapState) (c : HeapClass) (bytes : ℕ) :
    Except HeapFault HeapState :=
  match owner with
  | none => .ok s
  | some o => o.release s c bytes

/-- `owner.reserve(class, bytes)` where there is an owner. -/
def reserveOwner (owner : Option HeapOwner) (s : HeapState) (c : HeapClass) (bytes : ℕ) :
    Except HeapFault (HeapOutcome Unit) :=
  match owner with
  | none => .ok (.ok (), s)
  | some o => o.reserve s c bytes

def reserveOwnedPair (s : HeapState) (c : HeapClass) (bytes : ℕ) (owner : Option HeapOwner) :
    Except HeapFault (HeapOutcome Unit) := do
  match ← reserveOwner owner s c bytes with
  | (.error e, s1) => return (.error e, s1)
  | (.ok (), s1) => do
    let (r, l) ← s1.ledger.reservePair c bytes
    let s2 := { s1 with ledger := l }
    match r with
    | .ok () => return (.ok (), s2)
    | .error e => do
      let s3 ← releaseOwner owner s2 c bytes
      return (.error e, s3)

def tryReserveOwned (s : HeapState) (c : HeapClass) (bytes : ℕ) (owner : Option HeapOwner) :
    Except HeapFault (HeapOutcome HeapReservation) :=
  if !s.published then .ok (.error .notPublished, s)
  else do
    let (r, s') ← reserveOwnedPair s c bytes owner
    return (r.map fun _ => ⟨owner, c, bytes⟩, s')

/-! ## Reservations -/

namespace HeapReservation

variable (r : HeapReservation) (s : HeapState)

/-- `Drop for HeapReservation`. -/
def drop : Except HeapFault HeapState := do
  let l ← s.ledger.releaseReservedPair r.heapClass r.bytes
  releaseOwner r.owner { s with ledger := l } r.heapClass r.bytes

/-- `HeapReservation::resize`: the reservation after the call is returned with the result. -/
def resize (newBytes : ℕ) :
    Except HeapFault (Except HeapAdmissionError Unit × HeapReservation × HeapState) :=
  if newBytes = r.bytes then .ok (.ok (), r, s)
  else if r.bytes < newBytes then do
    let (res, s') ← reserveOwnedPair s r.heapClass (newBytes - r.bytes) r.owner
    match res with
    | .ok () => return (.ok (), { r with bytes := newBytes }, s')
    | .error e => return (.error e, r, s')
  else do
    let l ← s.ledger.releaseReservedPair r.heapClass (r.bytes - newBytes)
    let s' ← releaseOwner r.owner { s with ledger := l } r.heapClass (r.bytes - newBytes)
    return (.ok (), { r with bytes := newBytes }, s')

/-- `HeapReservation::commit`: on an error the reservation is dropped. -/
def commit : Except HeapFault (HeapOutcome HeapCharge) :=
  match s.ledger.commitPair r.heapClass r.bytes with
  | (.ok (), l) => .ok (.ok ⟨r.owner, r.heapClass, r.bytes⟩, { s with ledger := l })
  | (.error e, l) => do
    let s' ← drop r { s with ledger := l }
    return (.error e, s')

end HeapReservation

/-! ## Charges and transfers -/

namespace HeapCharge

variable (ch : HeapCharge)

variable (s : HeapState)

/-- `Drop for HeapCharge`. -/
def drop : Except HeapFault HeapState := do
  let l ← s.ledger.releaseCommittedPair ch.heapClass ch.bytes
  releaseOwner ch.owner { s with ledger := l } ch.heapClass ch.bytes

def tryReserveMore (bytes : ℕ) : Except HeapFault (HeapOutcome HeapReservation) :=
  tryReserveOwned s ch.heapClass bytes ch.owner

/-- `HeapCharge::release_after_deallocation`: the charge after the call is returned. -/
def releaseAfterDeallocation (bytes : ℕ) :
    Except HeapFault (Except HeapAdmissionError Unit × HeapCharge × HeapState) :=
  if ch.bytes < bytes then .ok (.error .corruptState, ch, s)
  else do
    let l ← s.ledger.releaseCommittedPair ch.heapClass bytes
    let s' ← releaseOwner ch.owner { s with ledger := l } ch.heapClass bytes
    return (.ok (), { ch with bytes := ch.bytes - bytes }, s')

/-- `HeapCharge::absorb`: the reservation is consumed, and dropped on an error. -/
def absorb (r : HeapReservation) (s : HeapState) :
    Except HeapFault (Except HeapAdmissionError Unit × HeapCharge × HeapState) :=
  if r.heapClass ≠ ch.heapClass ∨ !sameOwner ch.owner r.owner then do
    let s' ← HeapReservation.drop r s
    return (.error .corruptState, ch, s')
  else match checkedAdd ch.bytes r.bytes with
    | none => do
      let s' ← HeapReservation.drop r s
      return (.error .arithmeticOverflow, ch, s')
    | some newTotal => do
      match ← HeapReservation.commit r s with
      | (.error e, s') => return (.error e, ch, s')
      | (.ok _, s') => return (.ok (), { ch with bytes := newTotal }, s')

def prepareOwnerTransfer (owner : Option HeapOwner) :
    Except HeapFault (HeapOutcome HeapOwnerTransfer) :=
  if ch.owner.isSome ∧ owner.isNone then .ok (.error .corruptState, s)
  else if sameOwner ch.owner owner then
    .ok (.ok ⟨ch.owner, owner, ch.heapClass, ch.bytes, false⟩, s)
  else do
    let (r, s') ← reserveOwner owner s ch.heapClass ch.bytes
    return (r.map fun _ => ⟨ch.owner, owner, ch.heapClass, ch.bytes, true⟩, s')

end HeapCharge

namespace HeapOwnerTransfer

/-- `Drop for HeapOwnerTransfer`. -/
def drop (t : HeapOwnerTransfer) (s : HeapState) : Except HeapFault HeapState :=
  if t.armed then releaseOwner t.owner s t.heapClass t.bytes else .ok s

/-- `HeapOwnerTransfer::commit`: the charge after the call is returned; the transfer is consumed. -/
def commit (t : HeapOwnerTransfer) (ch : HeapCharge) (s : HeapState) :
    Except HeapFault (Except HeapAdmissionError Unit × HeapCharge × HeapState) :=
  if t.heapClass ≠ ch.heapClass ∨ t.bytes ≠ ch.bytes ∨ !sameOwner t.previous ch.owner then do
    let s' ← t.drop s
    return (.error .corruptState, ch, s')
  else if t.armed then do
    let s' ← releaseOwner t.previous s t.heapClass t.bytes
    return (.ok (), { ch with owner := t.owner }, s')
  else .ok (.ok (), ch, s)

end HeapOwnerTransfer

/-! ## Leases and the lifetime of owners -/

/-- The slot `UidLease::acquire` chooses: the user's own, else the first unused one. -/
def findSlot (ids : Fin maxUidDomains → Option (ℕ × ℕ)) (uid : ℕ) : Option (Fin maxUidDomains) :=
  ((List.finRange maxUidDomains).find? fun i => (ids i).any fun e => e.1 == uid).or
    ((List.finRange maxUidDomains).find? fun i => (ids i).isNone)

def UidLease.acquire (uid : ℕ) (s : HeapState) : Except HeapAdmissionError UidLease × HeapState :=
  match findSlot s.identities uid with
  | none => (.error .uidDomainLimit, s)
  | some slot => match checkedAdd (((s.identities slot).map Prod.snd).getD 0) 1 with
    | none => (.error .arithmeticOverflow, s)
    | some count => (.ok ⟨slot, uid⟩, s.setIdentity slot (some (uid, count)))

/-- `Drop for UidLease`. -/
def UidLease.drop (lease : UidLease) (s : HeapState) : Except HeapFault HeapState :=
  match s.identities lease.slot with
  | none => .error .corruptRegistry
  | some (uid, count) =>
    if uid ≠ lease.uid ∨ count = 0 then .error .corruptRegistry
    else if count = 1 then
      if (s.uidBudgets lease.slot).total ≠ 0 then .error .corruptRegistry
      else .ok (s.setIdentity lease.slot none)
    else .ok (s.setIdentity lease.slot (some (uid, count - 1)))

/-- The `Drop` of an owner's lease, where it has one. -/
def dropLease (lease : Option UidLease) (s : HeapState) : Except HeapFault HeapState :=
  match lease with
  | none => .ok s
  | some l => l.drop s

/-- The `Drop` of the fields of a `HeapOwner`, in their order: the lease, then the charge for the
owner's own allocation. -/
def HeapOwner.drop (o : HeapOwner) (s : HeapState) : Except HeapFault HeapState := do
  let s1 ← dropLease o.uid s
  HeapCharge.drop ⟨none, .coreProcess, o.allocationBytes⟩ s1

/-- `HeapOwner::try_new_with_uid`: `arcBytes` is the charge for the allocation of an owner, and
`arcOk` tells whether `Arc::try_new` succeeded.  The identity of a new allocation is `id`. -/
def HeapOwner.tryNewWithUid (s : HeapState) (lease : Option UidLease) (id arcBytes : ℕ)
    (arcOk : Bool) : Except HeapFault (HeapOutcome HeapOwner) := do
  match ← tryReserveOwned s .coreProcess arcBytes none with
  | (.error e, s1) =>
    let s2 ← dropLease lease s1
    return (.error e, s2)
  | (.ok r, s1) => match ← HeapReservation.commit r s1 with
    | (.error e, s2) =>
      let s3 ← dropLease lease s2
      return (.error e, s3)
    | (.ok charge, s2) =>
      let owner : HeapOwner := ⟨id, lease, charge.bytes⟩
      if arcOk then return (.ok owner, s2.setOwnerBudget id Budget.new)
      else
        let s3 ← owner.drop s2
        return (.error .allocationFailed, s3)

def HeapOwner.tryNewForUid (s : HeapState) (hostUid id arcBytes : ℕ) (arcOk : Bool) :
    Except HeapFault (HeapOutcome HeapOwner) :=
  match UidLease.acquire hostUid s with
  | (.error e, s1) => .ok (.error e, s1)
  | (.ok lease, s1) => HeapOwner.tryNewWithUid s1 (some lease) id arcBytes arcOk

/-- `HeapOwner::try_new`, of the hosted harness. -/
def HeapOwner.tryNew (s : HeapState) (id arcBytes : ℕ) (arcOk : Bool) :
    Except HeapFault (HeapOutcome HeapOwner) :=
  HeapOwner.tryNewWithUid s none id arcBytes arcOk

end Nilix.Mm
