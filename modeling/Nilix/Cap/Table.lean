import Nilix.Cap.Types
import Nilix.Foundation.Loop
import Nilix.Mm.AdmittedVec

/-!
# Capability tables

`kernel/cap/lib.rs`, `CapTableInner` and the functions of `CapTable` that run under its lock.  Slots
are recycled through a stack of free indices, reservations take an index and a generation before
anything is published, and the whole backing of an unused table is dropped and regrown.

Each function returns `.error` with a `CapFault` where the source would panic or would have to
allocate in a `push` that its comments call allocation-free; otherwise the source's own result and
the table after the call.  The heap's answers to requests for backing are arguments (`Grant`).
-/

namespace Nilix.Cap

def defaultCapSlots : ℕ := 64

def maxCapSlots : ℕ := 65535

/-- `CapError`, the variants the table returns. -/
inductive CapError
  | invalidCapId
  | tableFull
  | delegationDenied
  | generationExhausted
  | outOfMemory
  deriving DecidableEq

/-- Ways in which a table function can leave its normal course. -/
inductive CapFault
  /-- The assertion of `install_cap_vec`. -/
  | backingTooSmall
  /-- The assertion of `install_reserved`. -/
  | corruptInstall
  /-- The assertion of `cancel_reserved`. -/
  | corruptRollback
  /-- The debug assertion that a reserved index is not in the free list. -/
  | reservedIndexFree
  /-- The debug assertion that the free list has room for every slot. -/
  | freeListCapacity
  /-- A push beyond the backing of its vector. -/
  | reallocation
  /-- An index expression out of range. -/
  | indexOutOfBounds

structure CapSlot where
  generation : ℕ
  entry : CapEntry
  deriving DecidableEq

/-- `CapTableInner`, without its heap charges. -/
structure CapTableInner where
  slots : BoundedVec (Option CapSlot)
  free : BoundedVec ℕ
  nextGeneration : ℕ
  reservedAllocations : ℕ

/-- The heap's answers to one attempt to prepare backing for the slots and for the free list. -/
structure GrowEnv where
  slots : Grant
  free : Grant

def capGrowthTarget (currentCapacity required : ℕ) : ℕ :=
  max (max defaultCapSlots (min maxCapSlots
    ((checkedMul currentCapacity 2).getD maxCapSlots))) required

def installCapVec {α : Type*} (live : BoundedVec α) (prepared : ℕ) :
    Except CapFault (BoundedVec α) :=
  match live.rehouse prepared with
  | some v => .ok v
  | none => .error .backingTooSmall

/-- The install step of a prepared replacement, absent when the live backing suffices. -/
def installIfPrepared {α : Type*} (live : BoundedVec α) : Option ℕ → Except CapFault (BoundedVec α)
  | none => .ok live
  | some prepared => installCapVec live prepared

/-- A push that has to stay within the backing. -/
def pushWithin {α : Type*} (v : BoundedVec α) (a : α) : Except CapFault (BoundedVec α) :=
  match v.push? a with
  | some v' => .ok v'
  | none => .error .reallocation

namespace CapTableInner

/-- `with_capacity`: every index is free, generations start at 1. -/
def withCapacity (capacity : ℕ) : CapTableInner where
  slots := ⟨List.replicate (min capacity maxCapSlots) none, min capacity maxCapSlots, by simp⟩
  free := ⟨List.range (min capacity maxCapSlots), min capacity maxCapSlots, by simp⟩
  nextGeneration := 1
  reservedAllocations := 0

variable (counts : List (CapId × ℕ)) (t : CapTableInner) (id : CapId) (env : GrowEnv)

/-- `try_with_capacity`: as `with_capacity`, on backing the heap has granted. -/
def tryWithCapacity (capacity : ℕ) : Option CapTableInner :=
  match env.slots (min capacity maxCapSlots), env.free (min capacity maxCapSlots) with
  | some c, some d => some
    { slots := ⟨List.replicate (min capacity maxCapSlots) none, c.1, by simpa using c.2⟩
      free := ⟨List.range (min capacity maxCapSlots), d.1, by simpa using d.2⟩
      nextGeneration := 1
      reservedAllocations := 0 }
  | _, _ => none

/-! ## Reservation -/

/-- One half of the closure `prepare_growth`: `some none` when the live backing has room for
`newLen` elements, else the replacement the heap granted. -/
def prepareVec (grant : Grant) (live newLen capacity : ℕ) : Option (Option ℕ) :=
  if live < newLen then (grant capacity).map fun c => some c.1 else some none

/-- The closure `prepare_growth` of `reserve_allocation`: the replacements for the vectors whose
backing is too small for one more slot, or `none` on failure. -/
def prepareGrowth (newLen capacity : ℕ) : Option (Option ℕ × Option ℕ) :=
  match prepareVec env.slots t.slots.capacity newLen capacity with
  | none => none
  | some slots => (prepareVec env.free t.free.capacity newLen capacity).map fun free =>
    (slots, free)

/-- The growth branch of `reserve_allocation`: the amortised request first, then the exact one. -/
def growSlot : Except CapFault (Except CapError (ℕ × CapTableInner)) :=
  if maxCapSlots ≤ t.slots.values.length then .ok (.error .tableFull)
  else
    let newLen := t.slots.values.length + 1
    let preferred := capGrowthTarget (max t.slots.capacity t.free.capacity) newLen
    let prepared := match t.prepareGrowth env newLen preferred with
      | some p => some p
      | none => if preferred ≠ newLen then t.prepareGrowth env newLen newLen else none
    match prepared with
    | none => .ok (.error .outOfMemory)
    | some (slotsPrepared, freePrepared) => do
      let slots ← installIfPrepared t.slots slotsPrepared
      let free ← installIfPrepared t.free freePrepared
      let slots' ← pushWithin slots none
      return .ok (slots.values.length % 2 ^ 16, { t with slots := slots', free := free })

/-- The choice of a slot index: pop the free stack, or grow. -/
def takeIndex : Except CapFault (Except CapError (ℕ × CapTableInner)) :=
  match t.free.values.getLast? with
  | some index => .ok (.ok (index, { t with free := t.free.dropLast }))
  | none => t.growSlot env

/-- `reserve_allocation`: an index and a generation that belong to the caller from now on.  On an
error the table is as it was. -/
def reserveAllocation : Except CapFault (Except CapError (ℕ × ℕ) × CapTableInner) :=
  if maxGeneration ≤ t.nextGeneration then .ok (.error .generationExhausted, t)
  else match checkedAdd t.reservedAllocations 1 with
    | none => .ok (.error .outOfMemory, t)
    | some nextReserved => do
      match ← t.takeIndex env with
      | .error e => return (.error e, t)
      | .ok (index, t') =>
        return (.ok (index, t.nextGeneration),
          { t' with nextGeneration := t.nextGeneration + 1, reservedAllocations := nextReserved })

/-- The condition the two assertions on a reservation check. -/
def reservedVacant (index : ℕ) : Bool :=
  t.reservedAllocations != 0 && t.slots.values[index]? == some none

/-- `reclaim_if_unused`: an unused table gives up its backing. -/
def reclaimIfUnused : CapTableInner :=
  if t.reservedAllocations ≠ 0 ∨ t.slots.values.any Option.isSome then t
  else { t with slots := .empty, free := .empty }

def installReserved (index generation : ℕ) (entry : CapEntry) :
    Except CapFault (CapId × CapTableInner) :=
  if !t.reservedVacant index then .error .corruptInstall
  else if t.free.values.contains index then .error .reservedIndexFree
  else .ok (CapId.fromParts index generation,
    { t with
      slots := t.slots.set index (some ⟨generation, entry⟩)
      reservedAllocations := t.reservedAllocations - 1 })

def cancelReserved (index : ℕ) : Except CapFault CapTableInner :=
  if !t.reservedVacant index then .error .corruptRollback
  else if t.free.values.contains index then .error .reservedIndexFree
  else if t.free.capacity < t.slots.values.length then .error .freeListCapacity
  else do
    let free ← pushWithin t.free index
    let t' := { t with free := free, reservedAllocations := t.reservedAllocations - 1 }
    return t'.reclaimIfUnused

/-- `allocate`: reserve and install. -/
def allocate (entry : CapEntry) :
    Except CapFault (Except CapError CapId × CapTableInner) := do
  match ← t.reserveAllocation env with
  | (.error e, t') => return (.error e, t')
  | (.ok (index, generation), t') =>
    let (id, t'') ← t'.installReserved index generation entry
    return (.ok id, t'')

/-! ## Lookup, revocation and delegation -/

/-- The slot an identifier resolves to. -/
def lookupSlot : Option CapSlot :=
  if id.isValid then
    match t.slots.values[id.index]? with
    | some (some slot) => if slot.generation = id.generation then some slot else none
    | _ => none
  else none

def lookup : Except CapError CapEntry :=
  match t.lookupSlot id with
  | some slot => .ok slot.entry
  | none => .error .invalidCapId

def revokeRetainingCapacity : Except CapFault (Except CapError CapEntry × CapTableInner) :=
  match t.lookupSlot id with
  | none => .ok (.error .invalidCapId, t)
  | some slot =>
    if t.free.capacity < t.slots.values.length then .error .freeListCapacity
    else do
      let free ← pushWithin t.free (id.index % 2 ^ 16)
      return (.ok slot.entry, { t with slots := t.slots.set id.index none, free := free })

def revoke :
    Except CapFault (Except CapError CapEntry × CapTableInner) := do
  match ← t.revokeRetainingCapacity id with
  | (.error e, t') => return (.error e, t')
  | (.ok entry, t') => return (.ok entry, t'.reclaimIfUnused)

def delegate (id : CapId) (rightsMask : CapRights) (flags : CapFlags) :
    Except CapFault (Except CapError CapId × CapTableInner) :=
  match t.lookup id with
  | .error e => .ok (.error e, t)
  | .ok source =>
    if source.flags.contains CapFlags.noxfer then .ok (.error .delegationDenied, t)
    else if source.object.isNamespace then .ok (.error .delegationDenied, t)
    else t.allocate env
      (CapEntry.withFlags source.object (source.rights.restrict rightsMask)
        (flags ||| source.flags))

/-- Overwrite the entry of the slot an identifier resolves to. -/
def updateEntry (f : CapEntry → CapEntry) : CapTableInner :=
  match t.lookupSlot id with
  | none => t
  | some slot => { t with slots := t.slots.set id.index (some { slot with entry := f slot.entry }) }

def incrementRefcount (t : CapTableInner) (id : CapId) : Except CapError Unit × CapTableInner :=
  match t.lookup id with
  | .error e => (.error e, t)
  | .ok _ => (.ok (), t.updateEntry id CapEntry.incrementRefcount)

/-- `decrement_refcount`: whether the caller has to revoke. -/
def decrementRefcount (t : CapTableInner) (id : CapId) : Except CapError Bool × CapTableInner :=
  match t.lookup id with
  | .error e => (.error e, t)
  | .ok entry =>
    (.ok entry.decrementRefcount.1, t.updateEntry id fun e => e.decrementRefcount.2)

/-! ## Exec and fork -/

/-- `take_cloexec_slot`: detach the first slot that does not survive `exec`. -/
def takeCloexecSlot : Except CapFault (Option CapSlot × CapTableInner) :=
  let index := t.slots.values.findIdx fun s => s.any fun slot => !slot.entry.inheritsOnExec
  match t.slots.values[index]?.join with
  | none => .ok (none, t)
  | some slot => do
    let free ← pushWithin t.free (index % 2 ^ 16)
    return (some slot, { t with slots := t.slots.set index none, free := free })

/-- One critical section of `apply_cloexec`: its debug assertion, then `take_cloexec_slot`. -/
def applyCloexecStep : Except CapFault (Option CapSlot × CapTableInner) :=
  if t.free.capacity < t.slots.values.length then .error .freeListCapacity else t.takeCloexecSlot

/-- `reclaim_if_unused_outside_lock`: the same effect on the table as `reclaim_if_unused`. -/
def reclaimIfUnusedOutsideLock : CapTableInner := t.reclaimIfUnused

/-- The loop body of `apply_cloexec`: the loop is left, and the backing reclaimed, when nothing is
left to detach. -/
def applyCloexecBody : Iter CapTableInner (Except CapFault CapTableInner) :=
  match t.applyCloexecStep with
  | .error fault => .done (.error fault)
  | .ok (none, t') => .done (.ok t'.reclaimIfUnusedOutsideLock)
  | .ok (some _, t') => .next t'

/-- `apply_cloexec` when no other operation runs between its critical sections; `none` when the fuel
does not suffice. -/
def applyCloexec (fuel : ℕ) : Option (Except CapFault CapTableInner) :=
  Loop.run applyCloexecBody fuel t

def rebuildFreeList : Except CapFault CapTableInner := do
  let free ← (List.range t.slots.values.length).foldlM
    (fun free i => if (t.slots.values[i]?.join).isNone then pushWithin free (i % 2 ^ 16)
      else .ok free)
    t.free.clear
  return { t with free := free }

/-- The copy loop of `try_clone_for_fork`, from source position `idx`. -/
def copyInherited : ℕ → List (Option CapSlot) → BoundedVec (Option CapSlot) →
    Except CapFault (BoundedVec (Option CapSlot))
  | _, [], dst => .ok dst
  | idx, none :: rest, dst => copyInherited (idx + 1) rest dst
  | idx, some slot :: rest, dst =>
    if slot.entry.inheritsOnFork then
      if idx < dst.values.length then copyInherited (idx + 1) rest (dst.set idx (some slot))
      else .error .indexOutOfBounds
    else copyInherited (idx + 1) rest dst

/-- The heap's and the ledger's answers to `try_clone_for_fork`. -/
structure ForkEnv extends GrowEnv where
  /-- Whether the reservations for the `Arc` and the conversions into charges succeeded. -/
  admitted : Bool

/-- `try_clone_for_fork`: `none` when the heap refused, else the child's table. -/
def tryCloneForFork (env : ForkEnv) : Except CapFault (Option CapTableInner) :=
  let capacity := min t.slots.values.length maxCapSlots
  match env.slots capacity, env.free capacity with
  | some c, some d => if env.admitted then do
      let slots ← copyInherited 0 t.slots.values
        ⟨List.replicate capacity none, c.1, by simpa using c.2⟩
      let child ← rebuildFreeList
        { slots := slots, free := ⟨[], d.1, Nat.zero_le _⟩,
          nextGeneration := t.nextGeneration, reservedAllocations := 0 }
      return some child.reclaimIfUnused
    else .ok none
  | _, _ => .ok none

/-- The binary search of the standard library over keys, from `base` over `size` elements. -/
def searchFrom (counts : List (CapId × ℕ)) (key : CapId) : ℕ → ℕ → ℕ → ℕ
  | 0, base, _ => base
  | fuel + 1, base, size =>
    if size ≤ 1 then base
    else
      let mid := base + size / 2
      let greater := match counts[mid]? with
        | some (k, _) => decide (key.raw < k.raw)
        | none => true
      searchFrom counts key fuel (if greater then base else mid) (size - size / 2)

/-- `child_counts.binary_search_by_key(&cid, ..)` and the count found, 0 when absent. -/
def childFdCount (key : CapId) : ℕ :=
  match counts[searchFrom counts key counts.length 0 counts.length]? with
  | some (k, n) => if k = key then n else 0
  | none => 0

/-- One iteration of `reconcile_refcounts_after_fork`. -/
def reconcileSlot (idx : ℕ) : Except CapFault CapTableInner :=
  match t.slots.values[idx]? with
  | none => .error .indexOutOfBounds
  | some none => .ok t
  | some (some slot) =>
    if slot.entry.object.isFdBacked then
      let cid := CapId.fromParts (idx % 2 ^ 16) slot.generation
      let childFdCount := childFdCount counts cid
      if childFdCount = 0 then do
        let (_, t') ← t.revokeRetainingCapacity cid
        return t'
      else .ok { t with
        slots := t.slots.set idx (some { slot with
          entry := { slot.entry with refcount := childFdCount } }) }
    else .ok t

def reconcileRefcountsAfterFork (counts : List (CapId × ℕ)) :
    Except CapFault CapTableInner := do
  let t' ← (List.range t.slots.values.length).foldlM (reconcileSlot counts) t
  return t'.reclaimIfUnused

end CapTableInner

end Nilix.Cap
