import Mathlib.Tactic

/-!
# The callback pool of RCU

`kernel/kernel_core/rcu.rs`, `CallbackPool`: a fixed arena of slots and a ring of the slot indices in
publication order.  A failed assertion of the source is `none`.  The ring is the list of its entries.
-/

namespace Nilix.Rcu

/-- `RCU_STACK_CALLBACK_CAPACITY`. -/
def stackCallbackCapacity : ℕ := 32768

/-- `RCU_GENERAL_CALLBACK_CAPACITY`. -/
def generalCallbackCapacity : ℕ := 256

/-- `RCU_CALLBACK_CAPACITY`. -/
def callbackCapacity : ℕ := stackCallbackCapacity + generalCallbackCapacity

inductive CallbackClass where
  | general
  | kernelStack
deriving DecidableEq

inductive CallbackState where
  | free
  | reserved
  | queued
  | running
  | quarantined
deriving DecidableEq

/-- `CallbackSlot`; a function is known by its address. -/
structure CallbackSlot where
  state : CallbackState
  kind : CallbackClass
  targetEpoch : ℕ
  callback : Option ℕ
  args : ℕ × ℕ

def CallbackSlot.empty : CallbackSlot := ⟨.free, .general, 0, none, (0, 0)⟩

/-- `ReadyCallback`, with the target epoch that `pop_ready` compared. -/
structure ReadyCallback where
  slotIndex : ℕ
  targetEpoch : ℕ
  callback : ℕ
  args : ℕ × ℕ

structure CallbackPool where
  slots : ℕ → CallbackSlot
  queue : List ℕ
  reserveCursor : ℕ
  stackSlots : ℕ

namespace CallbackPool

def new : CallbackPool := ⟨fun _ => .empty, [], 0, 0⟩

variable (p : CallbackPool) (kind : CallbackClass) (index : ℕ)

/-- The change of one slot. -/
def setSlot (slot : CallbackSlot) : CallbackPool :=
  { p with slots := Function.update p.slots index slot }

/-- A free slot becomes reserved for a class. -/
def takeSlot : CallbackPool :=
  { p.setSlot index { p.slots index with state := .reserved, kind } with
    stackSlots := if kind = .kernelStack then p.stackSlots + 1 else p.stackSlots }

/-- A slot becomes empty; `none` when the count of the stack slots would underflow. -/
def emptySlot : Option CallbackPool :=
  if (p.slots index).kind = .kernelStack then
    if p.stackSlots = 0 then none
    else some { p.setSlot index .empty with stackSlots := p.stackSlots - 1 }
  else some (p.setSlot index .empty)

def reserveInRange (rangeStart rangeEnd : ℕ) : CallbackPool × Option ℕ :=
  let rangeLen := rangeEnd - rangeStart
  let cursor := if rangeStart ≤ p.reserveCursor ∧ p.reserveCursor < rangeEnd then p.reserveCursor
    else rangeStart
  let candidates := (List.range rangeLen).map fun offset =>
    rangeStart + (cursor - rangeStart + offset) % rangeLen
  match candidates.find? fun index => (p.slots index).state == .free with
  | some index =>
    ({ p.takeSlot kind index with
        reserveCursor := rangeStart + (index - rangeStart + 1) % rangeLen }, some index)
  | none => (p, none)

def reserveExact : CallbackPool × Bool :=
  if callbackCapacity ≤ index ∨ (p.slots index).state ≠ .free then (p, false)
  else (p.takeSlot kind index, true)

def releaseReserved : Option (CallbackPool × Bool) :=
  if callbackCapacity ≤ index ∨ (p.slots index).state ≠ .reserved then some (p, false)
  else (p.emptySlot index).map fun p => (p, true)

def enqueueReserved (index targetEpoch callback : ℕ) (args : ℕ × ℕ) : Option CallbackPool :=
  if index < callbackCapacity ∧ (p.slots index).state = .reserved ∧
      p.queue.length < callbackCapacity then
    some { p.setSlot index ⟨.queued, (p.slots index).kind, targetEpoch, some callback, args⟩ with
      queue := p.queue ++ [index] }
  else none

/-- `pop_ready`: the inner `none` is a queue without a ready callback. -/
def popReady (doneEpoch : ℕ) : Option (Option (ReadyCallback × CallbackPool)) :=
  match p.queue with
  | [] => some none
  | index :: queue =>
    let slot := p.slots index
    if index < callbackCapacity ∧ slot.state = .queued then
      if doneEpoch < slot.targetEpoch then some none
      else
        match slot.callback with
        | none => none
        | some callback =>
          some (some (⟨index, slot.targetEpoch, callback, slot.args⟩,
            { p.setSlot index ⟨.running, slot.kind, 0, none, (0, 0)⟩ with queue }))
    else none

def finishRunning : Option CallbackPool :=
  if index < callbackCapacity then
    if (p.slots index).state = .quarantined then some p
    else if (p.slots index).state = .running then p.emptySlot index
    else none
  else none

def quarantineRunningStack : CallbackPool × Bool :=
  let slot := p.slots index
  if callbackCapacity ≤ index ∨ slot.state ≠ .running ∨ slot.kind ≠ .kernelStack then (p, false)
  else (p.setSlot index ⟨.quarantined, slot.kind, 0, none, (0, 0)⟩, true)

/-- A callback leaves the queue only when its target epoch is done. -/
lemma popReady_targetEpoch_le {p p' : CallbackPool} {doneEpoch : ℕ} {ready : ReadyCallback}
    (h : p.popReady doneEpoch = some (some (ready, p'))) : ready.targetEpoch ≤ doneEpoch := by
  unfold popReady at h
  split at h
  · cases h
  rename_i index queue hqueue
  dsimp only at h
  split_ifs at h with hvalid hlater
  · cases h
  split at h
  · cases h
  cases h
  exact not_lt.mp hlater

end CallbackPool

end Nilix.Rcu
