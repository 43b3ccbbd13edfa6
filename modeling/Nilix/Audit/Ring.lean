import Nilix.Audit.Event
import Nilix.Foundation.Machine
import Nilix.Foundation.Ring

/-!
# The audit ring

`AuditRing` keeps the last events in a buffer of fixed size.  A push evicts the oldest event of a full
ring and counts it, a drain takes all events out, and an export copies a batch from a cursor on without
changing the ring.
-/

namespace Nilix.Audit

def wrappingAdd (a b : ℕ) : ℕ := (a + b) % 2 ^ 64

def minHmacKeySize : ℕ := 16

def maxHmacKeySize : ℕ := 32

/-- `AuditError`, as far as `set_key` returns it. -/
inductive AuditError where
  | keyTooSmall
  | keyTooLarge
  | keyAlreadySet

structure AuditRing where
  buf : List (Option AuditEvent)
  /-- The slot of the oldest event. -/
  head : ℕ
  len : ℕ
  nextId : ℕ
  /-- The hash of the last event. -/
  prevHash : Digest
  droppedTotal : ℕ
  droppedSinceSnapshot : ℕ
  droppedPending : ℕ
  contentVersion : ℕ
  /-- The key, empty when none is set. -/
  hmacKey : List UInt8

namespace AuditRing

/-- `with_capacity`, when the backing is there. -/
def withCapacity (capacity : ℕ) : AuditRing where
  buf := List.replicate capacity none
  head := 0
  len := 0
  nextId := 0
  prevHash := zeroHash
  droppedTotal := 0
  droppedSinceSnapshot := 0
  droppedPending := 0
  contentVersion := 0
  hmacKey := []

variable (r : AuditRing)

/-- `HmacKey::is_set`. -/
def isKeySet : Bool := 0 < r.hmacKey.length

/-- The key that events are hashed with. -/
def key : Option (List UInt8) := if r.isKeySet then some r.hmacKey else none

def setKey (key : List UInt8) : Except AuditError AuditRing :=
  if key.length < minHmacKeySize then .error .keyTooSmall
  else if maxHmacKeySize < key.length then .error .keyTooLarge
  else if r.isKeySet then .error .keyAlreadySet
  else if r.nextId ≠ 0 ∨ r.len ≠ 0 ∨ r.droppedTotal ≠ 0 ∨ r.prevHash ≠ zeroHash then
    .error .keyAlreadySet
  else .ok { r with hmacKey := key, contentVersion := wrappingAdd r.contentVersion 1 }

/-! ## Push -/

/-- The eviction at the start of `push`. -/
def evict : AuditRing :=
  { r with
    droppedTotal := saturatingAdd r.droppedTotal 1
    droppedSinceSnapshot := saturatingAdd r.droppedSinceSnapshot 1
    droppedPending := saturatingAdd r.droppedPending 1
    buf := r.buf.set r.head none
    head := (r.head + 1) % r.buf.length
    len := r.len - 1 }

/-- The event with the metadata that `push` fills in. -/
def stamp (sha : List UInt8 → Digest) (r : AuditRing) (event : AuditEvent) : AuditEvent :=
  let event := { event with
    id := UInt64.ofNat r.nextId
    prevHash := r.prevHash
    dropped := UInt64.ofNat r.droppedPending }
  { event with
    hash :=
      if r.isKeySet then hashEventPrefixed sha event.prevHash event (some r.hmacKey)
      else hashEvent sha event.prevHash event }

/-- The insertion at the end of `push`. -/
def insertTail (event : AuditEvent) : AuditRing :=
  { r with
    nextId := wrappingAdd r.nextId 1
    droppedPending := 0
    prevHash := event.hash
    buf := r.buf.set ((r.head + r.len) % r.buf.length) (some event)
    len := r.len + 1
    contentVersion := wrappingAdd r.contentVersion 1 }

/-- The ring that `push` inserts into. -/
def makeRoom : AuditRing := if r.len = r.buf.length then r.evict else r

def push (sha : List UInt8 → Digest) (r : AuditRing) (event : AuditEvent) : AuditRing :=
  if r.buf = [] then r
  else r.makeRoom.insertTail (r.makeRoom.stamp sha event)

/-! ## Drain -/

/-- The event in the slot at an offset from the head. -/
def slot (offset : ℕ) : Option AuditEvent :=
  (r.buf[(r.head + offset) % r.buf.length]?).join

/-- The events in the ring, oldest first. -/
def contents : List AuditEvent := (List.range r.len).filterMap r.slot

/-- The copying loop of `drain_into`, for the slots from `offset` on. -/
def drainSlots (head : ℕ) : ℕ → ℕ → List (Option AuditEvent) →
    List AuditEvent × List (Option AuditEvent)
  | 0, _, buf => ([], buf)
  | left + 1, offset, buf =>
    match (buf[(head + offset) % buf.length]?).join with
    | some event =>
      let rest := drainSlots head left (offset + 1) (buf.set ((head + offset) % buf.length) none)
      (event :: rest.1, rest.2)
    | none => drainSlots head left (offset + 1) buf

/-- `AuditSnapshotMetadata`. -/
structure SnapshotMetadata where
  dropped : ℕ
  tailHash : Digest

/-- `drain_into` for an empty vector of the given capacity: the events, the metadata and the ring
after. -/
def drainInto (capacity : ℕ) : Option (List AuditEvent × SnapshotMetadata × AuditRing) :=
  if capacity < r.len then none
  else if (List.range r.len).any fun i => (r.slot i).isNone then none
  else
    let drained := drainSlots r.head r.len 0 r.buf
    let metadata : SnapshotMetadata := ⟨r.droppedSinceSnapshot, r.prevHash⟩
    let after := { r with droppedSinceSnapshot := 0, buf := drained.2 }
    if r.len ≠ 0 then
      some (drained.1, metadata,
        { after with
          head := (r.head + r.len) % r.buf.length
          len := 0
          contentVersion := wrappingAdd r.contentVersion 1 })
    else some (drained.1, metadata, after)

/-! ## Export -/

/-- `AuditExportPlan`. -/
structure ExportPlan where
  contentVersion : ℕ
  startOffset : ℕ
  eventCount : ℕ
  nextCursor : ℕ
  hasMore : Bool
  tailHash : Digest
  batchFirstPrevHash : Digest
  ringUsage : ℕ
  droppedSinceCursor : ℕ

/-- The ID of the oldest event, or the next ID. -/
def oldestId : ℕ :=
  if r.len = 0 ∨ r.buf.length = 0 then r.nextId
  else ((r.buf[r.head]?).join.map fun e => e.id.toNat).getD r.nextId

/-- The part of `export_plan` that all its results share. -/
def basePlan (cursor : ℕ) : ExportPlan where
  contentVersion := r.contentVersion
  startOffset := 0
  eventCount := 0
  nextCursor := cursor
  hasMore := false
  tailHash := r.prevHash
  batchFirstPrevHash := zeroHash
  ringUsage := if 0 < r.buf.length then r.len * 10000 / r.buf.length % 2 ^ 16 else 0
  droppedSinceCursor := if cursor < r.oldestId then r.oldestId - cursor else 0

/-- The end of `export_plan`: the batch from the first event with an ID from `startCursor` on. -/
def planFrom (plan : ExportPlan) (startCursor maxEvents : ℕ) : ExportPlan :=
  match (List.range r.len).find? fun i => (r.slot i).any fun e => startCursor ≤ e.id.toNat with
  | none => { plan with nextCursor := startCursor }
  | some startOffset =>
    let available := r.len - startOffset
    let toTake := min maxEvents available
    if toTake = 0 then { plan with nextCursor := startCursor }
    else
      match r.slot startOffset, r.slot (startOffset + toTake - 1) with
      | some first, some last =>
        { plan with
          startOffset := startOffset
          eventCount := toTake
          nextCursor := wrappingAdd last.id.toNat 1
          hasMore := toTake < available
          batchFirstPrevHash := if 0 < plan.droppedSinceCursor then zeroHash else first.prevHash }
      | _, _ => { plan with nextCursor := startCursor }

def exportPlan (cursor maxEvents : ℕ) : ExportPlan :=
  let plan := r.basePlan cursor
  if r.len = 0 ∨ r.buf.length = 0 then { plan with nextCursor := r.nextId }
  else if maxEvents = 0 then plan
  else if cursor < r.oldestId then r.planFrom plan r.oldestId maxEvents
  else if r.nextId ≤ cursor then { plan with nextCursor := r.nextId }
  else r.planFrom plan cursor maxEvents

/-- `copy_export_plan_into` for an empty vector of the given capacity; `none` is `false`. -/
def copyExportPlanInto (plan : ExportPlan) (capacity : ℕ) : Option (List AuditEvent) :=
  if r.contentVersion ≠ plan.contentVersion ∨ capacity < plan.eventCount then none
  else if (List.range plan.eventCount).any fun i => (r.slot (plan.startOffset + i)).isNone then none
  else some ((List.range plan.eventCount).filterMap fun i => r.slot (plan.startOffset + i))

/-- A batch: a plan with the events copied on the same state. -/
def exportBatch (cursor maxEvents : ℕ) : ExportPlan × Option (List AuditEvent) :=
  let plan := r.exportPlan cursor maxEvents
  (plan, r.copyExportPlanInto plan plan.eventCount)

end AuditRing

end Nilix.Audit
