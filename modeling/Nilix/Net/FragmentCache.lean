import Mathlib.Data.List.MinMax
import Nilix.Foundation.Loop
import Nilix.Net.FragmentQueue

/-!
# The fragment cache

`kernel/net/src/fragment.rs`: the cache of reassembly queues with its budgets per source, per
namespace and for the whole cache.  A call runs as a sequence of critical sections with local work
in between; each section is a function here, `processFragment` and `cleanupExpired` put them
together for a call that no other call interleaves with.

`clipped` is not a field of the source: it records whether a subtraction has clipped or wrapped.
-/

namespace Nilix.Net

/-! ## Limits and counters -/

def maxQueuesPerSrc : ℕ := 256

def globalMaxQueues : ℕ := 4096

def globalMaxFrags : ℕ := 32768

def globalMaxFragBytes : ℕ := 64 * 1024 * 1024

def maxQueuesPerNs : ℕ := globalMaxQueues / 4

def maxFragsPerNs : ℕ := globalMaxFrags / 4

def maxBytesPerNs : ℕ := globalMaxFragBytes / 4

def fragmentTransactionSlots : ℕ := 64

/-- The panics of the cache: its assertions and `expect`s. -/
inductive FragmentFault
  | detachedLostSlot
  | failedLostQueue
  | candidateLackedCapacity
  | sourceLackedCapacity
  | namespaceLackedCapacity
  | lostNamespaceRow
  | counterOverflow
  | ownerVanished
  deriving DecidableEq

/-- The event counters of `FragmentStats`. -/
inductive StatEvent
  | fragmentsReceived
  | reassembled
  | timeoutDrops
  | overlapDrops
  | queueLimitDrops
  | globalLimitDrops
  | rateLimitDrops
  | firstTooSmallDrops
  | tooLargeDrops
  deriving DecidableEq

structure FragmentStats where
  activeQueues : ℕ
  bufferedFragments : ℕ
  bufferedBytes : ℕ
  events : StatEvent → ℕ

@[ext] structure PerNsBudget where
  queues : ℕ
  frags : ℕ
  bytes : ℕ
  deriving DecidableEq

namespace PerNsBudget

/-- `PerNsBudget::default`. -/
def zero : PerNsBudget := ⟨0, 0, 0⟩

variable (e n : PerNsBudget)

/-- Add to the counters, each within its type. -/
def checkedAdd : Option PerNsBudget :=
  if e.queues + n.queues ≤ usizeMax ∧ e.frags + n.frags ≤ u32Max ∧ e.bytes + n.bytes ≤ usizeMax then
    some ⟨e.queues + n.queues, e.frags + n.frags, e.bytes + n.bytes⟩
  else none

/-- Subtract from the counters, saturating. -/
def sub : PerNsBudget :=
  ⟨e.queues - n.queues, e.frags - n.frags, e.bytes - n.bytes⟩

/-- A subtraction clips. -/
def clips : Bool := e.queues < n.queues || e.frags < n.frags || e.bytes < n.bytes

end PerNsBudget

/-- A source address in a namespace. -/
abbrev Source := ℕ ×ₗ ℕ

/-- The source of a key. -/
def FragmentKey.source (key : FragmentKey) : Source := toLex (key.netNsId, key.srcIp)

/-- `FragmentCache`.  A queue owner holds exactly one queue and is modelled by it. -/
structure FragmentCache where
  queues : AdmittedMap FragmentKey FragmentQueue
  perSrcCounts : AdmittedMap Source ℕ
  perNsCounts : AdmittedMap ℕ PerNsBudget
  transactionSlots : Fin fragmentTransactionSlots → Bool
  stats : FragmentStats
  clipped : Bool

/-- One fragment to be processed. -/
structure FragmentCall where
  key : FragmentKey
  offset : ℕ
  moreFragments : Bool
  payload : List UInt8
  nowMs : ℕ

/-- An atomic `fetch_sub` of a counter of `w` bits, which wraps. -/
def fetchSub (w a b : ℕ) : ℕ := (a + (2 ^ w - b % 2 ^ w)) % 2 ^ w

/-- An atomic `fetch_add` of a counter of `w` bits, which wraps. -/
def fetchAdd (w a b : ℕ) : ℕ := (a + b) % 2 ^ w

namespace FragmentCache

def new : FragmentCache :=
  ⟨.new, .new, .new, fun _ => false, ⟨0, 0, 0, fun _ => 0⟩, false⟩

variable (c : FragmentCache) (bytes : ℕ) (ns : ℕ)

/-- Record a subtraction that clipped. -/
def note (clips : Bool) : FragmentCache :=
  { c with clipped := c.clipped || clips }

/-- Count an event. -/
def count (e : StatEvent) : FragmentCache :=
  { c with stats := { c.stats with
      events := Function.update c.stats.events e (fetchAdd 64 (c.stats.events e) 1) } }

/-- The event that `record_drop_reason` counts. -/
def dropEvent : FragmentDropReason → Option StatEvent
  | .rateLimited => some .rateLimitDrops
  | .firstTooSmall => some .firstTooSmallDrops
  | .tooLarge => some .tooLargeDrops
  | .queueFragLimit | .queueByteLimit | .perSourceLimit | .perNsQueueLimit => some .queueLimitDrops
  | .globalQueueLimit | .globalFragLimit | .globalByteLimit | .perNsFragLimit | .perNsByteLimit =>
    some .globalLimitDrops
  | .overlap | .duplicate => some .overlapDrops
  | .timeout | .zeroLength => none

def recordDropReason (reason : FragmentDropReason) : FragmentCache :=
  match dropEvent reason with
  | some e => c.count e
  | none => c

/-! ## Namespace rows and source rows -/

def perNsPruneIfZero (m : AdmittedMap ℕ PerNsBudget) (ns : ℕ) : AdmittedMap ℕ PerNsBudget :=
  match m.get ns with
  | some e => if e.queues = 0 ∧ e.frags = 0 ∧ e.bytes = 0 then m.remove ns else m
  | none => m

/-- Take an amount out of a namespace row, saturating, and prune the row at zero. -/
def perNsRelease (n : PerNsBudget) : FragmentCache :=
  match c.perNsCounts.get ns with
  | some e =>
    { c with perNsCounts := perNsPruneIfZero (c.perNsCounts.modify ns fun _ => e.sub n) ns }.note
      (e.clips n)
  | none => { c with perNsCounts := perNsPruneIfZero c.perNsCounts ns }

def perNsReleaseQueue : FragmentCache := c.perNsRelease ns ⟨1, 0, 0⟩

def perNsReleaseFrags (ns n : ℕ) : FragmentCache := c.perNsRelease ns ⟨0, n, 0⟩

def perNsReleaseBytes (ns b : ℕ) : FragmentCache := c.perNsRelease ns ⟨0, 0, b⟩

/-- Add an amount to the namespace row of a live queue. -/
def perNsCharge (n : PerNsBudget) : Except FragmentFault FragmentCache :=
  match c.perNsCounts.get ns with
  | none => .error .lostNamespaceRow
  | some e => match e.checkedAdd n with
    | none => .error .counterOverflow
    | some e' => .ok { c with perNsCounts := c.perNsCounts.modify ns fun _ => e' }

def perNsChargeFrag : Except FragmentFault FragmentCache :=
  c.perNsCharge ns ⟨0, 1, 0⟩

def perNsChargeBytes (ns b : ℕ) : Except FragmentFault FragmentCache :=
  c.perNsCharge ns ⟨0, 0, b⟩

/-- `per_ns_charge_queue`: a namespace without a row gets one. -/
def perNsChargeQueue : Except FragmentFault FragmentCache :=
  if c.perNsCounts.containsKey ns then c.perNsCharge ns ⟨1, 0, 0⟩
  else match c.perNsCounts.insertUniqueReserved ns ⟨1, 0, 0⟩ with
    | none => .error .namespaceLackedCapacity
    | some m => .ok { c with perNsCounts := m }

/-- One queue less for a source, whose row is removed at zero. -/
def releaseSource (source : Source) : FragmentCache :=
  match c.perSrcCounts.get source with
  | none => c
  | some n =>
    let counts := c.perSrcCounts.modify source fun _ => n - 1
    { c with perSrcCounts := if n - 1 = 0 then counts.remove source else counts }.note (n < 1)

/-- One queue more for a source. -/
def chargeSource (source : Source) : Except FragmentFault FragmentCache :=
  match c.perSrcCounts.get source with
  | some n => match Nilix.checkedAdd n 1 with
    | none => .error .counterOverflow
    | some n' => .ok { c with perSrcCounts := c.perSrcCounts.modify source fun _ => n' }
  | none => match c.perSrcCounts.insertUniqueReserved source 1 with
    | none => .error .sourceLackedCapacity
    | some m => .ok { c with perSrcCounts := m }

/-! ## Cache counters -/

def tryReserveFragment : Option FragmentCache :=
  if c.stats.bufferedFragments < globalMaxFrags then
    some { c with stats := { c.stats with bufferedFragments := c.stats.bufferedFragments + 1 } }
  else none

def tryReserveBytes : Option FragmentCache :=
  let newVal := saturatingAdd c.stats.bufferedBytes bytes
  if newVal ≤ globalMaxFragBytes then
    some { c with stats := { c.stats with bufferedBytes := newVal } }
  else none

def releaseFragment : FragmentCache :=
  { c with stats := { c.stats with bufferedFragments := c.stats.bufferedFragments - 1 } }.note
    (c.stats.bufferedFragments < 1)

def releaseBytes : FragmentCache :=
  { c with stats := { c.stats with bufferedBytes := c.stats.bufferedBytes - bytes } }.note
    (c.stats.bufferedBytes < bytes)

/-- The three `fetch_sub`s when a queue goes. -/
def subtractQueue (frags bytes : ℕ) : FragmentCache :=
  { c with stats := { c.stats with
      activeQueues := fetchSub 32 c.stats.activeQueues 1
      bufferedFragments := fetchSub 32 c.stats.bufferedFragments frags
      bufferedBytes := fetchSub 64 c.stats.bufferedBytes bytes } }.note
    (c.stats.activeQueues < 1 || c.stats.bufferedFragments < frags || c.stats.bufferedBytes < bytes)

/-- The three `fetch_add`s when a queue is published. -/
def addQueue : FragmentCache :=
  { c with stats := { c.stats with
      activeQueues := fetchAdd 32 c.stats.activeQueues 1
      bufferedFragments := fetchAdd 32 c.stats.bufferedFragments 1
      bufferedBytes := fetchAdd 64 c.stats.bufferedBytes bytes } }

/-- What every site does that retires a queue: the source, the namespace and the cache give back the
queue, its fragments and its bytes. -/
def releaseQueue (key : FragmentKey) (frags bytes : ℕ) : FragmentCache :=
  ((((c.releaseSource key.source).perNsReleaseQueue key.netNsId).perNsReleaseFrags key.netNsId
    frags).perNsReleaseBytes key.netNsId bytes).subtractQueue frags bytes

/-- What publishing a queue does: the source, the namespace and the cache are charged for the queue,
its first fragment and its bytes. -/
def chargeQueue (key : FragmentKey) (bytes : ℕ) :
    Except FragmentFault FragmentCache := do
  let c1 ← c.chargeSource key.source
  let c2 ← c1.perNsChargeQueue key.netNsId
  let c3 ← c2.perNsChargeFrag key.netNsId
  let c4 ← c3.perNsChargeBytes key.netNsId bytes
  return c4.addQueue bytes

end FragmentCache

/-- `received_frags as u32`. -/
def FragmentQueue.fragCount (q : FragmentQueue) : ℕ := q.receivedFrags % 2 ^ 32

/-- `received_bytes as u64`. -/
def FragmentQueue.byteCount (q : FragmentQueue) : ℕ := q.receivedBytes

/-! ## Transactions -/

def transactionSlot (netNsId : ℕ) : Fin fragmentTransactionSlots :=
  let x0 := BitVec.ofNat 64 netNsId
  let x1 := x0 ^^^ (x0 >>> 32)
  let x2 := x1 ^^^ (x1 >>> 16)
  let x3 := x2 * 0x9E3779B9#64
  ⟨(x3 &&& 63#64).toNat, by
    rw [BitVec.toNat_and]
    exact Nat.lt_of_le_of_lt Nat.and_le_right (by decide)⟩

namespace FragmentCache

variable (c : FragmentCache) (key : FragmentKey)

/-- Hold or free a transaction slot. -/
def setSlot (slot : Fin fragmentTransactionSlots) (held : Bool) : FragmentCache :=
  { c with transactionSlots := Function.update c.transactionSlots slot held }

def tryTransaction (netNsId : ℕ) : Option FragmentCache :=
  if c.transactionSlots (transactionSlot netNsId) then none
  else some (c.setSlot (transactionSlot netNsId) true)

/-! ## The critical sections of a call -/

/-- The first section: an expired queue of the key is retired.  The flag tells whether it was. -/
def expireSection (nowMs : ℕ) : Bool × FragmentCache :=
  match c.queues.get key with
  | none => (false, c)
  | some owner =>
    if owner.isExpired nowMs then
      (true, (({ c with queues := c.queues.remove key }.releaseQueue key owner.fragCount
        owner.byteCount).count .timeoutDrops))
    else (false, c)

/-- What the section that detaches a queue leads to. -/
inductive DetachResult
  | absent
  | dropped (reason : FragmentDropReason)
  | detached (owner : FragmentQueue)

/-- A fragment that a section drops. -/
def dropped (c : FragmentCache) (reason : FragmentDropReason) :
    Except FragmentFault (DetachResult × FragmentCache) :=
  .ok (.dropped reason, c.recordDropReason reason)

/-- The section that reserves a fragment of an existing queue and detaches the queue. -/
def detachSection (call : FragmentCall) : Except FragmentFault (DetachResult × FragmentCache) :=
  let ns := call.key.netNsId
  let len := call.payload.length
  match c.queues.get call.key with
  | none => .ok (.absent, c)
  | some owner =>
    let row := (c.perNsCounts.get ns).getD .zero
    if maxFragsPerQueue ≤ owner.receivedFrags then c.dropped .queueFragLimit
    else if maxBytesPerQueue < saturatingAdd owner.receivedBytes len then c.dropped .queueByteLimit
    else if ns ≠ 0 ∧ maxFragsPerNs ≤ row.frags then c.dropped .perNsFragLimit
    else if ns ≠ 0 ∧ maxBytesPerNs < saturatingAdd row.bytes len then c.dropped .perNsByteLimit
    else match c.tryReserveFragment with
      | none => c.dropped .globalFragLimit
      | some c1 => do
        let c2 ← c1.perNsChargeFrag ns
        match c2.tryReserveBytes len with
        | none => (c2.releaseFragment.perNsReleaseFrags ns 1).dropped .globalByteLimit
        | some c3 =>
          let c4 ← c3.perNsChargeBytes ns len
          return (.detached owner, { c4 with queues := c4.queues.remove call.key })

/-- The section that retires a detached queue whose datagram is complete. -/
def completeSection (owner : FragmentQueue) : FragmentCache :=
  c.releaseQueue key owner.fragCount owner.byteCount

/-- Count what became of a complete datagram. -/
def finishPacket (packet : Option (List UInt8)) : FragmentCache :=
  c.count (if packet.isSome then .reassembled else .globalLimitDrops)

/-- The section that puts a detached queue back after a fragment was accepted. -/
def reattachSection (owner : FragmentQueue) : Except FragmentFault FragmentCache :=
  match c.queues.insertUniqueReserved key owner with
  | none => .error .detachedLostSlot
  | some queues => .ok { c with queues := queues }

/-- The reasons for which a queue is discarded with the fragment. -/
def discards : FragmentDropReason → Bool
  | .overlap | .duplicate | .firstTooSmall => true
  | _ => false

/-- The section after a fragment was rejected: its namespace charge is given back, and the queue is
discarded or put back.  `release_fragment` and `release_bytes` ran before it. -/
def failSection (call : FragmentCall) (owner : FragmentQueue) (reason : FragmentDropReason) :
    Except FragmentFault FragmentCache :=
  let ns := call.key.netNsId
  let c1 := (c.perNsReleaseFrags ns 1).perNsReleaseBytes ns call.payload.length
  if discards reason then
    .ok ((c1.releaseQueue call.key owner.fragCount owner.byteCount).recordDropReason reason)
  else match c1.queues.insertUniqueReserved call.key owner with
    | none => .error .failedLostQueue
    | some queues => .ok ({ c1 with queues := queues }.recordDropReason reason)

/-! ## Publishing a new queue -/

/-- The queue that is evicted for a new one. -/
structure Victim where
  key : FragmentKey
  frags : ℕ
  bytes : ℕ

/-- The plan for a new queue: the victim and the growth of the three maps. -/
structure Plan where
  victim : Option Victim
  queues : Option CapacityPlan
  perSrc : Option CapacityPlan
  perNs : Option CapacityPlan

/-- The oldest queue of a namespace. -/
def findVictim (netNsId : ℕ) : Option Victim :=
  ((c.queues.iter.filter fun e => e.1.netNsId = netNsId).argmin fun e => e.2.createdMs).map
    fun e => ⟨e.1, e.2.fragCount, e.2.byteCount⟩

/-- The victim that a new queue of the key needs, if it needs one. -/
def planVictim : Except FragmentDropReason (Option Victim) :=
  let row := (c.perNsCounts.get key.netNsId).getD .zero
  let needNs := key.netNsId ≠ 0 ∧ maxQueuesPerNs ≤ row.queues
  if needNs ∨ globalMaxQueues ≤ c.queues.len then
    match c.findVictim key.netNsId with
    | none => .error (if needNs then .perNsQueueLimit else .globalQueueLimit)
    | some v => .ok (some v)
  else .ok none

variable (victim : Option Victim)

/-- What a victim gives back. -/
def victimBudget : PerNsBudget :=
  (victim.map fun v => ⟨1, v.frags, v.bytes⟩).getD .zero

/-- The victim, if it is in a given namespace. -/
def victimIn (ns : ℕ) : Option Victim :=
  victim.filter fun v => v.key.netNsId = ns

/-- The queues a victim gives back to a source. -/
def victimOf (source : Source) : ℕ :=
  if victim.any fun v => v.key.source = source then 1 else 0

variable (call : FragmentCall) (env : CallEnv)

/-- The limits for a new queue of the call, after the victim is gone. -/
def checkLimits (victim : Option Victim) : Except FragmentDropReason Unit :=
  let ns := call.key.netNsId
  let len := call.payload.length
  let row := ((c.perNsCounts.get ns).getD .zero).sub (victimBudget (victimIn victim ns))
  let sourceCount := (c.perSrcCounts.get call.key.source).getD 0
  if ns ≠ 0 ∧ maxQueuesPerNs ≤ row.queues then .error .perNsQueueLimit
  else if ns ≠ 0 ∧ maxFragsPerNs ≤ row.frags then .error .perNsFragLimit
  else if ns ≠ 0 ∧ maxBytesPerNs < saturatingAdd row.bytes len then .error .perNsByteLimit
  else if globalMaxFrags ≤ c.stats.bufferedFragments - (victimBudget victim).frags then
    .error .globalFragLimit
  else if globalMaxFragBytes <
      saturatingAdd (c.stats.bufferedBytes - (victimBudget victim).bytes) len then
    .error .globalByteLimit
  else if maxQueuesPerSrc ≤ sourceCount - victimOf victim call.key.source then
    .error .perSourceLimit
  else .ok ()

/-- A subtraction in `checkLimits` clips. -/
def limitsClip : Bool :=
  ((c.perNsCounts.get key.netNsId).getD .zero).clips
      (victimBudget (victimIn victim key.netNsId)) ||
    c.stats.bufferedFragments < (victimBudget victim).frags ||
    c.stats.bufferedBytes < (victimBudget victim).bytes ||
    (c.perSrcCounts.get key.source).getD 0 < victimOf victim key.source

/-- The eviction frees the row of the victim's source. -/
def freesSource : Bool :=
  victim.any fun v => c.perSrcCounts.get v.key.source = some 1

/-- The eviction frees the row of the victim's namespace. -/
def freesNs : Bool :=
  victim.any fun v => (c.perNsCounts.get v.key.netNsId).any fun b => b.queues = 1

/-- The new queue needs room in the queue map. -/
def needsQueueRoom : Bool := victim.isNone

/-- The new queue needs room in the source map. -/
def needsSourceRoom : Bool :=
  !c.perSrcCounts.containsKey key.source && !c.freesSource victim

/-- The new queue needs room in the namespace map. -/
def needsNsRoom : Bool :=
  !c.perNsCounts.containsKey key.netNsId && !c.freesNs victim

/-- The growth of a map by one entry where it is needed; an arithmetic error is a queue limit. -/
def planRoom {K V : Type} [LinearOrder K] (m : AdmittedMap K V) (needed : Bool) :
    Except FragmentDropReason (Option CapacityPlan) :=
  if needed then
    match AdmittedMap.capacityPlanFor m 1 with
    | none => .error .globalQueueLimit
    | some plan => .ok plan
  else .ok none

/-- The growth of the three maps. -/
def planRooms :
    Except FragmentDropReason Plan := do
  let queues ← planRoom c.queues (needsQueueRoom victim)
  let perSrc ← planRoom c.perSrcCounts (c.needsSourceRoom key victim)
  let perNs ← planRoom c.perNsCounts (c.needsNsRoom key victim)
  return ⟨victim, queues, perSrc, perNs⟩

/-- The section that plans the publication of a new queue. -/
def planSection (c : FragmentCache) (call : FragmentCall) :
    Except FragmentDropReason Plan × FragmentCache :=
  if c.queues.containsKey call.key then (.error .duplicate, c)
  else match c.planVictim call.key with
    | .error reason => (.error reason, c)
    | .ok victim => match c.checkLimits call victim with
      | .error reason => (.error reason, c.note (c.limitsClip call.key victim))
      | .ok () => (c.planRooms call.key victim, c.note (c.limitsClip call.key victim))

/-- The answers of the allocator for the growth of the three maps. -/
structure IndexEnv where
  queues : AllocEnv
  perSrc : AllocEnv
  perNs : AllocEnv

/-- `FragmentIndexCapacity`: the capacities of the prepared backings. -/
structure IndexCapacity where
  queues : Option ℕ
  perSrc : Option ℕ
  perNs : Option ℕ

/-- Prepare the backing of one map. -/
def prepareRoom (env : AllocEnv) (plan : Option CapacityPlan) :
    Except FragmentDropReason (Option ℕ) :=
  match plan with
  | none => .ok none
  | some plan => match tryFromPlan env.grant plan with
    | none => .error .globalQueueLimit
    | some capacity => .ok (some capacity)

def prepare (env : IndexEnv) (plan : Plan) : Except FragmentDropReason IndexCapacity := do
  let queues ← prepareRoom env.queues plan.queues
  let perSrc ← prepareRoom env.perSrc plan.perSrc
  let perNs ← prepareRoom env.perNs plan.perNs
  return ⟨queues, perSrc, perNs⟩

/-- Install prepared backing where the live map still needs it; `none` is a queue limit. -/
def installRoom {K V : Type} [LinearOrder K] (m : AdmittedMap K V) (needed : Bool)
    (committed : Bool) (prepared : Option ℕ) : Option (AdmittedMap K V) :=
  if needed then
    match AdmittedMap.capacityPlanFor m 1 with
    | none => none
    | some none => some m
    | some (some plan) => match prepared.filter fun capacity => plan.required ≤ capacity with
      | none => none
      | some capacity => AdmittedMap.installPreparedDeferred m committed capacity
  else some m

/-- Install the prepared backings one after the other; what was installed before a failure stays. -/
def installRooms (env : IndexEnv) (capacity : IndexCapacity) :
    Except FragmentDropReason Unit × FragmentCache :=
  match installRoom c.queues (needsQueueRoom victim) env.queues.committed capacity.queues with
  | none => (.error .globalQueueLimit, c)
  | some queues =>
    let c1 := { c with queues := queues }
    match installRoom c1.perSrcCounts (c1.needsSourceRoom key victim) env.perSrc.committed
        capacity.perSrc with
    | none => (.error .globalQueueLimit, c1)
    | some perSrc =>
      let c2 := { c1 with perSrcCounts := perSrc }
      match installRoom c2.perNsCounts (c2.needsNsRoom key victim) env.perNs.committed
          capacity.perNs with
      | none => (.error .globalQueueLimit, c2)
      | some perNs => (.ok (), { c2 with perNsCounts := perNs })

/-- Evict the victim. -/
def evict : Except FragmentFault FragmentCache :=
  match victim with
  | none => .ok c
  | some v =>
    if c.queues.containsKey v.key then
      .ok ((({ c with queues := c.queues.remove v.key }.releaseQueue v.key v.frags v.bytes).count
        .timeoutDrops))
    else .error .ownerVanished

/-- Publish the new queue and charge it. -/
def publish (candidate : FragmentQueue) : Except FragmentFault FragmentCache :=
  match c.queues.insertUniqueReserved call.key candidate with
  | none => .error .candidateLackedCapacity
  | some queues => { c with queues := queues }.chargeQueue call.key call.payload.length

/-- The section that publishes a new queue. -/
def commitSection (candidate : FragmentQueue) (victim : Option Victim) (env : IndexEnv)
    (capacity : IndexCapacity) :
    Except FragmentFault (Except FragmentDropReason Unit × FragmentCache) :=
  if c.queues.containsKey call.key ∨ victim.any (fun v => !c.queues.containsKey v.key) then
    .ok (.error .duplicate, c.recordDropReason .duplicate)
  else match c.installRooms call.key victim env capacity with
    | (.error reason, c1) => .ok (.error reason, c1.recordDropReason reason)
    | (.ok (), c1) => do
      let c2 ← c1.evict victim
      let c3 ← c2.publish call candidate
      return (.ok (), c3)

/-! ## Whole calls -/

/-- The answers of the allocator during one call. -/
structure CallEnv where
  queue : AllocEnv
  insert : InsertEnv
  packet : Bool
  owner : AllocEnv
  index : IndexEnv

/-- The result of a call. -/
abbrev FragmentResult := Except FragmentDropReason (Option (List UInt8))

/-- `FragmentQueueOwner::try_new`. -/
def tryNewOwner (env : AllocEnv) (q : FragmentQueue) : Except FragmentDropReason FragmentQueue :=
  match (ensureVecCapacityFor AdmittedVec.new env 1).bind (·.pushReserved q) with
  | none => .error .queueByteLimit
  | some _ => .ok q

/-- What becomes of the first fragment of a datagram before the cache is looked at. -/
inductive Candidate
  | dropped (reason : FragmentDropReason)
  | complete (packet : Option (List UInt8))
  | ready (q : FragmentQueue)

/-- Build the queue of a first fragment. -/
def buildCandidate : Candidate :=
  match FragmentQueue.new env.queue call.nowMs with
  | .error reason => .dropped reason
  | .ok q => match q.insert env.insert call.offset call.moreFragments call.payload call.nowMs with
    | (.error reason, _) => .dropped reason
    | (.ok true, q') => .complete (q'.reassemble env.packet)
    | (.ok false, q') => match tryNewOwner env.owner q' with
      | .error reason => .dropped reason
      | .ok owner => .ready owner

def processNewFragment : Except FragmentFault (FragmentResult × FragmentCache) :=
  match buildCandidate call env with
  | .dropped reason => .ok (.error reason, c.recordDropReason reason)
  | .complete packet => .ok (.ok packet, c.finishPacket packet)
  | .ready candidate => match c.planSection call with
    | (.error reason, c1) => .ok (.error reason, c1.recordDropReason reason)
    | (.ok plan, c1) => match prepare env.index plan with
      | .error reason => .ok (.error reason, c1.recordDropReason reason)
      | .ok capacity => do
        let (res, c2) ← c1.commitSection call candidate plan.victim env.index capacity
        return (res.map fun _ => none, c2)

def processExistingFragment :
    Except FragmentFault (FragmentResult × FragmentCache) := do
  match ← c.detachSection call with
  | (.absent, c1) => c1.processNewFragment call env
  | (.dropped reason, c1) => return (.error reason, c1)
  | (.detached owner, c1) =>
    match owner.insert env.insert call.offset call.moreFragments call.payload call.nowMs with
    | (.ok true, owner') =>
      let packet := owner'.reassemble env.packet
      return (.ok packet, (c1.completeSection call.key owner').finishPacket packet)
    | (.ok false, owner') =>
      let c2 ← c1.reattachSection call.key owner'
      return (.ok none, c2)
    | (.error reason, owner') =>
      let c2 ← (c1.releaseFragment.releaseBytes call.payload.length).failSection call owner' reason
      return (.error reason, c2)

/-- A call with its permit: an expired queue of the key is retired first. -/
def runCall : Except FragmentFault (FragmentResult × FragmentCache) :=
  match c.expireSection call.key call.nowMs with
  | (true, c1) => .ok (.error .timeout, c1)
  | (false, c1) =>
    if c1.queues.containsKey call.key then c1.processExistingFragment call env
    else c1.processNewFragment call env

/-- The call for a header and payload. -/
def callOf (netNsId : ℕ) (header : Ipv4Header) (payload : List UInt8) (nowMs : ℕ) : FragmentCall :=
  ⟨FragmentKey.fromHeader netNsId header, header.fragmentOffset * 8, header.moreFragments, payload,
    nowMs⟩

def processFragment (netNsId : ℕ) (header : Ipv4Header) (payload : List UInt8) (nowMs : ℕ)
    (env : CallEnv) : Except FragmentFault (FragmentResult × FragmentCache) :=
  let c0 := c.count .fragmentsReceived
  match c0.tryTransaction netNsId with
  | none => .ok (.error .rateLimited, c0.count .rateLimitDrops)
  | some c1 => do
    let (r, c2) ← c1.runCall (callOf netNsId header payload nowMs) env
    return (r, c2.setSlot (transactionSlot netNsId) false)

/-- One iteration of the sweep: the first expired queue in key order is retired. -/
def cleanupBody (nowMs : ℕ) (s : ℕ × FragmentCache) : Iter (ℕ × FragmentCache) (ℕ × FragmentCache) :=
  match s.2.queues.iter.find? fun e => e.2.isExpired nowMs with
  | none => .done s
  | some (key, owner) => .next (saturatingAdd s.1 1,
      ({ s.2 with queues := s.2.queues.remove key }.releaseQueue key owner.fragCount
        owner.byteCount).count .timeoutDrops)

/-- `cleanup_expired`: the sweep needs all slots and gives them back.  It retires a queue in each
iteration, so the number of queues bounds it; `none` would mean that the bound did not suffice. -/
def cleanupExpired (nowMs : ℕ) : Option (ℕ × FragmentCache) :=
  if ∃ slot, c.transactionSlots slot = true then some (0, c)
  else
    let held := { c with transactionSlots := fun _ => true }
    (Loop.run (cleanupBody nowMs) (c.queues.len + 1) (0, held)).map fun (removed, c') =>
      (removed, { c' with transactionSlots := fun _ => false })

end FragmentCache

end Nilix.Net
