import Mathlib.Logic.Relation
import Nilix.Foundation.Tally
import Nilix.Net.FragmentAccounting

/-!
# Calls of the fragment cache in different lanes

Calls of `process_fragment` in different transaction lanes interleave between their critical
sections.  A lane holds the phase of its call: which section comes next, and what the call has taken
out of the cache.  While a call inserts its fragment, the queue it detached is in no map, and the
call relies on the map having kept room for it.

Nothing reserves that room: another lane plans and publishes with the length of the map, which does
not count detached queues.  `LaneWorld.Guarded` is the condition under which the room is left, and
with it no queue is ever lost; without it one is.
-/

namespace Nilix.Net

open Finset FallibleOrderedMap Function FragmentCache Option

/-! ## The phases of a call -/

/-- Where a call that holds its permit stands. -/
inductive Phase
  | entered (call : FragmentCall) (env : CallEnv)
  | routing (call : FragmentCall) (env : CallEnv)
  | existing (call : FragmentCall) (env : CallEnv)
  | detached (call : FragmentCall) (env : CallEnv) (owner : FragmentQueue)
  | completing (call : FragmentCall) (owner : FragmentQueue) (packet : Option (List UInt8))
  | finishing (packet : Option (List UInt8))
  | reattaching (call : FragmentCall) (owner : FragmentQueue)
  | releasingFragment (call : FragmentCall) (owner : FragmentQueue) (reason : FragmentDropReason)
  | releasingBytes (call : FragmentCall) (owner : FragmentQueue) (reason : FragmentDropReason)
  | failing (call : FragmentCall) (owner : FragmentQueue) (reason : FragmentDropReason)
  | building (call : FragmentCall) (env : CallEnv)
  | planning (call : FragmentCall) (env : CallEnv) (candidate : FragmentQueue)
  | preparing (call : FragmentCall) (env : CallEnv) (candidate : FragmentQueue) (plan : Plan)
  | committing (call : FragmentCall) (env : CallEnv) (candidate : FragmentQueue)
      (victim : Option Victim) (capacity : IndexCapacity)
  | dropping (reason : FragmentDropReason)
  | leaving

namespace Phase

/-- The key of the call, as long as the call still uses it. -/
def key? : Phase → Option FragmentKey
  | entered call _ | routing call _ | existing call _ | detached call _ _ | completing call _ _
  | reattaching call _ | releasingFragment call _ _ | releasingBytes call _ _ | failing call _ _
  | building call _ | planning call _ _ | preparing call _ _ _ | committing call _ _ _ _ =>
    some call.key
  | finishing _ | dropping _ | leaving => none

/-- The key of the queue that the call has detached. -/
def detachedKey? : Phase → Option FragmentKey
  | detached call _ _ | completing call _ _ | reattaching call _ | releasingFragment call _ _
  | releasingBytes call _ _ | failing call _ _ => some call.key
  | entered _ _ | routing _ _ | existing _ _ | finishing _ | building _ _ | planning _ _ _
  | preparing _ _ _ _ | committing _ _ _ _ _ | dropping _ | leaving => none

variable (call : FragmentCall) (env : CallEnv)

/-- After the section that detaches a queue. -/
def afterDetach : DetachResult → Phase
  | .absent => building call env
  | .dropped _ => leaving
  | .detached owner => detached call env owner

/-- After the fragment was inserted into the detached queue. -/
def afterInsert : Except FragmentDropReason Bool × FragmentQueue → Phase
  | (.ok true, owner) => completing call owner (owner.reassemble env.packet)
  | (.ok false, owner) => reattaching call owner
  | (.error reason, owner) => releasingFragment call owner reason

/-- After the candidate of a new queue was built. -/
def afterBuild : Candidate → Phase
  | .dropped reason => dropping reason
  | .complete packet => finishing packet
  | .ready candidate => planning call env candidate

/-- After the publication was planned. -/
def afterPlan (candidate : FragmentQueue) : Except FragmentDropReason Plan → Phase
  | .error reason => dropping reason
  | .ok plan => preparing call env candidate plan

/-- After the growth of the maps was prepared. -/
def afterPrepare (candidate : FragmentQueue) (victim : Option Victim) :
    Except FragmentDropReason IndexCapacity → Phase
  | .error reason => dropping reason
  | .ok capacity => committing call env candidate victim capacity

/-- One step of a call: one critical section, one access to the counters, or local work. -/
def step (c : FragmentCache) : Phase → Except FragmentFault (FragmentCache × Phase)
  | entered call env =>
    let (expired, c') := c.expireSection call.key call.nowMs
    .ok (c', if expired then leaving else routing call env)
  | routing call env =>
    .ok (c, if c.queues.containsKey call.key then existing call env else building call env)
  | existing call env => (c.detachSection call).map fun (r, c') => (c', afterDetach call env r)
  | detached call env owner => .ok (c, afterInsert call env
      (owner.insert env.insert call.offset call.moreFragments call.payload call.nowMs))
  | completing call owner packet => .ok (c.completeSection call.key owner, finishing packet)
  | finishing packet => .ok (c.finishPacket packet, leaving)
  | reattaching call owner => (c.reattachSection call.key owner).map fun c' => (c', leaving)
  | releasingFragment call owner reason => .ok (c.releaseFragment, releasingBytes call owner reason)
  | releasingBytes call owner reason =>
    .ok (c.releaseBytes call.payload.length, failing call owner reason)
  | failing call owner reason => (c.failSection call owner reason).map fun c' => (c', leaving)
  | building call env => .ok (c, afterBuild call env (buildCandidate call env))
  | planning call env candidate =>
    let (plan, c') := c.planSection call
    .ok (c', afterPlan call env candidate plan)
  | preparing call env candidate plan =>
    .ok (c, afterPrepare call env candidate plan.victim (prepare env.index plan))
  | committing call env candidate victim capacity =>
    (c.commitSection call candidate victim env.index capacity).map fun (_, c') => (c', leaving)
  | dropping reason => .ok (c.recordDropReason reason, leaving)
  | leaving => .ok (c, leaving)

end Phase

/-! ## Interleavings -/

/-- The cache and the calls in flight. -/
structure LaneWorld where
  cache : FragmentCache
  lanes : Fin fragmentTransactionSlots → Option Phase

/-- A call arrives, or the call in a lane takes its next step. -/
inductive LaneOp
  | enter (netNsId : ℕ) (header : Ipv4Header) (payload : List UInt8) (nowMs : ℕ) (env : CallEnv)
  | advance (slot : Fin fragmentTransactionSlots)

namespace LaneWorld

/-- No call, an empty cache. -/
def initial : LaneWorld := ⟨.new, fun _ => none⟩

variable (w : LaneWorld)

/-- A call arrives: it gets the permit of its lane, or it is dropped. -/
def enter (netNsId : ℕ) (call : FragmentCall) (env : CallEnv) : LaneWorld :=
  let c := w.cache.count .fragmentsReceived
  match c.tryTransaction netNsId with
  | none => { w with cache := c.count .rateLimitDrops }
  | some c' => ⟨c', update w.lanes (transactionSlot netNsId) (some (.entered call env))⟩

/-- The call in a lane takes a step; one that is done gives its permit back. -/
def advance (slot : Fin fragmentTransactionSlots) : Except FragmentFault LaneWorld :=
  match w.lanes slot with
  | none => .ok w
  | some .leaving => .ok ⟨w.cache.setSlot slot false, update w.lanes slot none⟩
  | some phase => (phase.step w.cache).map fun (c, phase') =>
      ⟨c, update w.lanes slot (some phase')⟩

/-- One operation; an error is a panic. -/
def exec : LaneOp → Except FragmentFault LaneWorld
  | .enter netNsId header payload nowMs env =>
    .ok (w.enter netNsId (callOf netNsId header payload nowMs) env)
  | .advance slot => w.advance slot

/-- One step of an interleaving. -/
def Step (w w' : LaneWorld) : Prop := ∃ op, w.exec op = .ok w'

/-- The worlds of all interleavings. -/
def Reachable : LaneWorld → Prop := Relation.ReflTransGen Step initial

/-- The number of queues a lane has detached: one or none. -/
def weight (lane : Option Phase) : ℕ := if lane.any (·.detachedKey?.isSome) then 1 else 0

/-- The number of detached queues. -/
def detachedCount : ℕ := ∑ slot, weight (w.lanes slot)

/-- There is room for every detached queue. -/
def HasSpare : Prop :=
  w.cache.queues.len + w.detachedCount ≤ w.cache.queues.capacity

instance (w : LaneWorld) : Decidable w.HasSpare := inferInstanceAs (Decidable (_ ≤ _))

/-- The next step of a lane is a commit without a victim that publishes its queue. -/
def publishes (slot : Fin fragmentTransactionSlots) : Bool :=
  match w.lanes slot with
  | some (.committing call env candidate none capacity) =>
    match w.cache.commitSection call candidate none env.index capacity with
    | .ok (.ok (), _) => true
    | _ => false
  | _ => false

/-- The operation leaves the detached queues their room: a queue is published without a victim only
if no queue is detached or there are more free slots than detached queues. -/
def Guarded : LaneOp → Prop
  | .enter .. => True
  | .advance slot => w.publishes slot = true →
      w.detachedCount = 0 ∨ w.cache.queues.len + w.detachedCount < w.cache.queues.capacity

instance (w : LaneWorld) (op : LaneOp) : Decidable (w.Guarded op) :=
  match op with
  | .enter .. => inferInstanceAs (Decidable True)
  | .advance _ => inferInstanceAs (Decidable (_ → _))

/-- The worlds of the interleavings whose operations are all guarded. -/
def GuardedReachable : LaneWorld → Prop :=
  Relation.ReflTransGen (fun w w' => ∃ op, w.Guarded op ∧ w.exec op = .ok w') initial

end LaneWorld

/-! ## Faults other than a lost queue -/

/-- The two assertions about detached queues. -/
def FragmentFault.losesQueue : FragmentFault → Bool
  | .detachedLostSlot | .failedLostQueue => true
  | _ => false

/-- A computation that loses no detached queue. -/
def Safe {α : Type} (x : Except FragmentFault α) : Prop :=
  ∀ fault, x = .error fault → fault.losesQueue = false

lemma Safe.ok {α : Type} (a : α) : Safe (.ok a) := nofun

lemma Safe.map {α β : Type} {x : Except FragmentFault α} (hx : Safe x) (f : α → β) :
    Safe (x.map f) := by
  cases x with
  | error fault => exact fun _ heq => Except.error.inj heq ▸ hx fault rfl
  | ok => exact ok _

/-- A computation that loses no detached queue, with what holds of its result. -/
structure Does {α : Type} (x : Except FragmentFault α) (P : α → Prop) : Prop where
  safe : Safe x
  of_ok : ∀ a, x = .ok a → P a

namespace Does

variable {α β : Type} {P : α → Prop} {Q : β → Prop}

lemma ok {a : α} (h : P a) : Does (.ok a) P := ⟨nofun, fun _ heq => Except.ok.inj heq ▸ h⟩

lemma error {fault : FragmentFault} (h : fault.losesQueue = false) : Does (.error fault) P :=
  ⟨fun _ heq => Except.error.inj heq ▸ h, nofun⟩

lemma bind {x : Except FragmentFault α} {f : α → Except FragmentFault β} (hx : Does x P)
    (hf : ∀ a, P a → Does (f a) Q) : Does (x >>= f) Q := by
  cases x with
  | error fault => exact error (hx.safe fault rfl)
  | ok a => exact hf a (hx.of_ok a rfl)

end Does

/-! ## What the sections do to the queues -/

namespace FragmentCache

variable {c c' : FragmentCache} {call : FragmentCall} {key : FragmentKey} {owner : FragmentQueue}

lemma queues_expireSection (c : FragmentCache) (key : FragmentKey) (nowMs : ℕ) :
    ((c.expireSection key nowMs).2.queues = c.queues ∨
        (c.expireSection key nowMs).2.queues = c.queues.remove key) ∧
      (c.expireSection key nowMs).2.transactionSlots = c.transactionSlots := by
  unfold expireSection
  split
  · exact ⟨.inl rfl, rfl⟩
  split
  · rw [count_queues, count_transactionSlots, releaseQueue_queues, releaseQueue_transactionSlots]
    exact ⟨.inr rfl, rfl⟩
  · exact ⟨.inl rfl, rfl⟩

lemma does_perNsCharge (ns : ℕ) (n : PerNsBudget) : Does (c.perNsCharge ns n) (SameQueues c) := by
  unfold perNsCharge
  split
  · exact .error rfl
  split
  · exact .error rfl
  · exact .ok ⟨rfl, rfl⟩

lemma does_perNsChargeQueue (ns : ℕ) : Does (c.perNsChargeQueue ns) (SameQueues c) := by
  unfold perNsChargeQueue
  split
  · exact does_perNsCharge _ _
  split
  · exact .error rfl
  · exact .ok ⟨rfl, rfl⟩

lemma does_chargeSource (source : Source) : Does (c.chargeSource source) (SameQueues c) := by
  unfold chargeSource
  split
  · split
    · exact .error rfl
    · exact .ok ⟨rfl, rfl⟩
  split
  · exact .error rfl
  · exact .ok ⟨rfl, rfl⟩

lemma sameQueues_of_tryReserveFragment (h : c.tryReserveFragment = some c') : SameQueues c c' := by
  unfold tryReserveFragment at h
  split_ifs at h
  cases h
  exact ⟨rfl, rfl⟩

lemma sameQueues_of_tryReserveBytes {bytes : ℕ} (h : c.tryReserveBytes bytes = some c') :
    SameQueues c c' := by
  unfold tryReserveBytes at h
  dsimp only at h
  split_ifs at h
  cases h
  exact ⟨rfl, rfl⟩

/-- A queue is detached, or the queues stay. -/
def DetachEffect (c : FragmentCache) (call : FragmentCall) (r : DetachResult) (c' : FragmentCache) :
    Prop :=
  c'.transactionSlots = c.transactionSlots ∧
    ((∃ owner, r = .detached owner ∧ c.queues.get call.key = some owner ∧
        c'.queues = c.queues.remove call.key) ∨
      (∀ owner, r ≠ .detached owner) ∧ c'.queues = c.queues)

lemma DetachEffect.does_dropped {c1 : FragmentCache} {reason : FragmentDropReason}
    (hsame : SameQueues c c1) : Does (c1.dropped reason) fun r => DetachEffect c call r.1 r.2 := by
  refine .ok ⟨?_, .inr ⟨nofun, ?_⟩⟩
  · rw [recordDropReason_transactionSlots, hsame.transactionSlots]
  · rw [recordDropReason_queues, hsame.queues]

lemma does_detachSection (call : FragmentCall) :
    Does (c.detachSection call) fun r => DetachEffect c call r.1 r.2 := by
  have hdropped : ∀ reason, Does (c.dropped reason) fun r => DetachEffect c call r.1 r.2 :=
    fun _ => DetachEffect.does_dropped ⟨rfl, rfl⟩
  unfold detachSection
  dsimp only
  split
  · exact .ok ⟨rfl, .inr ⟨nofun, rfl⟩⟩
  rename_i owner hget
  split
  · exact hdropped _
  split
  · exact hdropped _
  split
  · exact hdropped _
  split
  · exact hdropped _
  split
  · exact hdropped _
  rename_i c1 hc1
  refine .bind (does_perNsCharge _ _) fun c2 hc2 => ?_
  have hsame2 := (sameQueues_of_tryReserveFragment hc1).trans hc2
  split
  · exact DetachEffect.does_dropped
      (hsame2.trans ⟨(perNsRelease_frame ..).1, (perNsRelease_frame ..).2.1⟩)
  rename_i c3 hc3
  refine .bind (does_perNsCharge _ _) fun c4 hc4 => .ok ?_
  have hsame4 := (hsame2.trans (sameQueues_of_tryReserveBytes hc3)).trans hc4
  refine ⟨hsame4.transactionSlots, .inl ⟨owner, rfl, hget, ?_⟩⟩
  rw [hsame4.queues]

lemma of_reattachSection (h : c.reattachSection key owner = .ok c') :
    c.queues.insertUniqueReserved key owner = some c'.queues ∧
      c'.transactionSlots = c.transactionSlots := by
  unfold reattachSection at h
  split at h
  · cases h
  rename_i queues hinsert
  cases h
  exact ⟨hinsert, rfl⟩

/-- A rejected fragment takes its queue with it, or the queue is put back. -/
lemma of_failSection {reason : FragmentDropReason} (h : c.failSection call owner reason = .ok c') :
    (c'.queues = c.queues ∨ c.queues.insertUniqueReserved call.key owner = some c'.queues) ∧
      c'.transactionSlots = c.transactionSlots := by
  unfold failSection at h
  dsimp only at h
  obtain ⟨hqueues, hslots⟩ := c.sameQueues_perNsRelease call.key.netNsId 1 call.payload.length
  split at h
  · cases h
    rw [recordDropReason_queues, releaseQueue_queues, recordDropReason_transactionSlots,
      releaseQueue_transactionSlots]
    exact ⟨.inl hqueues, hslots⟩
  split at h
  · cases h
  rename_i queues hinsert
  cases h
  rw [recordDropReason_queues, recordDropReason_transactionSlots]
  rw [hqueues] at hinsert
  exact ⟨.inr hinsert, hslots⟩

lemma sameQueues_planSection (c : FragmentCache) (call : FragmentCall) :
    SameQueues c (c.planSection call).2 := by
  unfold planSection
  split
  · exact ⟨rfl, rfl⟩
  split
  · exact ⟨rfl, rfl⟩
  split <;> exact ⟨rfl, rfl⟩

/-- A map with the same entries whose backing grew, if at all, because it was full. -/
def Grown {K V : Type} [LinearOrder K] (m m' : AdmittedMap K V) : Prop :=
  m'.assoc = m.assoc ∧ (m'.capacity = m.capacity ∨ m.len = m.capacity ∧ m.len < m'.capacity)

lemma Grown.len_eq {K V : Type} [LinearOrder K] {m m' : AdmittedMap K V} (h : Grown m m') :
    m'.len = m.len := len_of_assoc h.1

lemma Grown.get_eq {K V : Type} [LinearOrder K] {m m' : AdmittedMap K V} (h : Grown m m') (k : K) :
    m'.get k = m.get k := get_of_assoc h.1 k

lemma grown_of_installRoom {K V : Type} [LinearOrder K] {m m' : AdmittedMap K V}
    {needed committed : Bool} {prepared : Option ℕ}
    (h : installRoom m needed committed prepared = some m') : Grown m m' := by
  obtain ⟨hassoc, hroom⟩ := of_installRoom h
  have hlen := len_of_assoc hassoc
  refine ⟨hassoc, ?_⟩
  unfold installRoom at h
  split at h
  · rename_i hneeded
    have hlt : m.len < m'.capacity := hlen ▸ hroom hneeded
    split at h
    · cases h
    · cases h
      exact .inl rfl
    · rename_i plan hplan
      rcases capacityPlan_cases hplan with ⟨hnone, -⟩ | ⟨plan', -, -, hfull⟩
      · cases hnone
      have hle : m.len ≤ m.capacity := m.length_le
      exact .inr ⟨by omega, hlt⟩
  · cases h
    exact .inl rfl

/-- Installing backings grows the queue map at most, and not at all for a replacement. -/
lemma grown_of_installRooms {victim : Option Victim} {env : IndexEnv} {capacity : IndexCapacity}
    {res : Except FragmentDropReason Unit}
    (h : c.installRooms key victim env capacity = (res, c')) :
    Grown c.queues c'.queues ∧ (∀ v, victim = some v → c'.queues = c.queues) := by
  unfold installRooms at h
  split at h
  · cases h
    exact ⟨⟨rfl, .inl rfl⟩, fun _ _ => rfl⟩
  rename_i queues hqueues
  have hgrown := grown_of_installRoom hqueues
  have hkeep : ∀ v, victim = some v → queues = c.queues := by
    rintro v rfl
    exact (some.inj hqueues).symm
  dsimp only at h
  split at h
  · cases h
    exact ⟨hgrown, hkeep⟩
  split at h
  · cases h
    exact ⟨hgrown, hkeep⟩
  cases h
  exact ⟨hgrown, hkeep⟩

lemma does_chargeQueue (key : FragmentKey) (bytes : ℕ) :
    Does (c.chargeQueue key bytes) (SameQueues c) :=
  .bind (does_chargeSource _) fun _ h1 => .bind (does_perNsChargeQueue _) fun _ h2 =>
    .bind (does_perNsCharge _ _) fun _ h3 => .bind (does_perNsCharge _ _) fun _ h4 =>
      .ok ((((h1.trans h2).trans h3).trans h4).trans ⟨rfl, rfl⟩)

lemma does_publish (call : FragmentCall) (candidate : FragmentQueue) :
    Does (c.publish call candidate) fun c' =>
      c.queues.insertUniqueReserved call.key candidate = some c'.queues ∧
        c'.transactionSlots = c.transactionSlots := by
  unfold publish
  split
  · exact .error rfl
  rename_i queues hinsert
  refine ⟨(does_chargeQueue _ _).safe, fun c' h => ?_⟩
  have hsame := (does_chargeQueue _ _).of_ok c' h
  rw [hsame.queues]
  exact ⟨hinsert, hsame.transactionSlots⟩

lemma does_evict (victim : Option Victim) : Does (c.evict victim) fun c' =>
    c'.transactionSlots = c.transactionSlots ∧ (victim = none ∧ c'.queues = c.queues ∨
      ∃ v q, victim = some v ∧ c.queues.get v.key = some q ∧
        c'.queues = c.queues.remove v.key) := by
  unfold evict
  split
  · exact .ok ⟨rfl, .inl ⟨rfl, rfl⟩⟩
  rename_i v
  split
  · rename_i hcontains
    obtain ⟨q, hget⟩ := containsKey_iff.mp hcontains
    refine .ok ⟨?_, .inr ⟨v, q, rfl, hget, ?_⟩⟩
    · rw [count_transactionSlots, releaseQueue_transactionSlots]
    · rw [count_queues, releaseQueue_queues]
  · exact .error rfl

/-- What a commit does to the queues: at most a growth, a new entry, or a replacement. -/
inductive CommitEffect (m : AdmittedMap FragmentKey FragmentQueue) (key : FragmentKey)
    (candidate : FragmentQueue) : Option Victim → Except FragmentDropReason Unit →
      AdmittedMap FragmentKey FragmentQueue → Prop
  | refused {victim : Option Victim} {reason : FragmentDropReason}
      {m' : AdmittedMap FragmentKey FragmentQueue} (hgrown : Grown m m') :
      CommitEffect m key candidate victim (.error reason) m'
  | published {m1 m' : AdmittedMap FragmentKey FragmentQueue} (hgrown : Grown m m1)
      (hinsert : m1.insertUniqueReserved key candidate = some m') :
      CommitEffect m key candidate none (.ok ()) m'
  | replaced {v : Victim} {q : FragmentQueue} {m' : AdmittedMap FragmentKey FragmentQueue}
      (hget : m.get v.key = some q)
      (hinsert : (m.remove v.key).insertUniqueReserved key candidate = some m') :
      CommitEffect m key candidate (some v) (.ok ()) m'

lemma does_commitSection (call : FragmentCall) (candidate : FragmentQueue) (victim : Option Victim)
    (env : IndexEnv) (capacity : IndexCapacity) :
    Does (c.commitSection call candidate victim env capacity) fun r =>
      CommitEffect c.queues call.key candidate victim r.1 r.2.queues ∧
        r.2.transactionSlots = c.transactionSlots := by
  unfold commitSection
  split
  · refine .ok ?_
    rw [recordDropReason_queues, recordDropReason_transactionSlots]
    exact ⟨.refused ⟨rfl, .inl rfl⟩, rfl⟩
  split
  · rename_i reason c1 hinstall
    refine .ok ?_
    rw [recordDropReason_queues, recordDropReason_transactionSlots]
    exact ⟨.refused (grown_of_installRooms hinstall).1,
      (of_installRooms hinstall).1.transactionSlots⟩
  rename_i c1 hinstall
  obtain ⟨hgrown, hkeep⟩ := grown_of_installRooms hinstall
  have hslots1 := (of_installRooms hinstall).1.transactionSlots
  refine .bind (does_evict victim) fun c2 ⟨hslots2, hevict⟩ => .bind (does_publish _ _)
    fun c3 ⟨hinsert, hslots3⟩ => .ok ⟨?_, hslots3.trans (hslots2.trans hslots1)⟩
  rcases hevict with ⟨rfl, hqueues⟩ | ⟨v, q, rfl, hget, hqueues⟩
  · exact .published hgrown (hqueues ▸ hinsert)
  · rw [hkeep v rfl] at hget hqueues
    exact .replaced hget (hqueues ▸ hinsert)

end FragmentCache

/-! ## What a step of a lane does to the queues -/

namespace Phase

open LaneWorld (weight)

variable {c c' : FragmentCache} {phase phase' : Phase} {key : FragmentKey}

lemma key?_of_detachedKey? (h : phase.detachedKey? = some key) : phase.key? = some key := by
  cases phase <;> first | exact h | cases h

/-- How a step changes the free slots of the queue map, the detached queue of the lane counted as
one that needs a slot: it takes none, it takes one of a backing that had to grow, or it publishes a
queue into a free slot. -/
inductive Spends (c : FragmentCache) (phase : Phase) (c' : FragmentCache) (phase' : Phase) : Prop
  | within (hle : c'.queues.len + weight (some phase') ≤ c.queues.len + weight (some phase))
      (hcapacity : c'.queues.capacity = c.queues.capacity)
  | grew (hfull : c.queues.len = c.queues.capacity)
      (hroom : c'.queues.len + weight (some phase') ≤ c'.queues.capacity)
  | published {call : FragmentCall} {env : CallEnv} {candidate : FragmentQueue}
      {capacity : IndexCapacity} {c1 : FragmentCache}
      (hphase : phase = committing call env candidate none capacity)
      (hcommit : c.commitSection call candidate none env.index capacity = .ok (.ok (), c1))
      (hlen : c'.queues.len + weight (some phase') = c.queues.len + weight (some phase) + 1)
      (hroom : c.queues.len < c.queues.capacity)
      (hcapacity : c'.queues.capacity = c.queues.capacity)

/-- What a step of a lane does to the queues: it touches no key but its own. -/
structure Effect (c : FragmentCache) (phase : Phase) (c' : FragmentCache) (phase' : Phase) :
    Prop where
  slots : c'.transactionSlots = c.transactionSlots
  key : phase'.key? = phase.key? ∨ phase'.key? = none
  others : ∀ k, phase.key? ≠ some k → c.queues.get k = none → c'.queues.get k = none
  detached : ∀ k, phase'.detachedKey? = some k →
    phase.detachedKey? = some k ∧ c'.queues = c.queues ∨ c'.queues.get k = none
  spends : Spends c phase c' phase'

lemma weight_le_of_keep (h : phase'.detachedKey? = phase.detachedKey? ∨ phase'.detachedKey? = none) :
    weight (some phase') ≤ weight (some phase) := by
  unfold weight
  rcases h with h | h <;> simp [h]

lemma Effect.keep (hsame : SameQueues c c') (hkey : phase'.key? = phase.key? ∨ phase'.key? = none)
    (hdetached : phase'.detachedKey? = phase.detachedKey? ∨ phase'.detachedKey? = none) :
    Effect c phase c' phase' where
  slots := hsame.transactionSlots
  key := hkey
  others k _ hk := by rw [hsame.queues, hk]
  detached k hk := by
    rcases hdetached with h | h
    · exact .inl ⟨h ▸ hk, hsame.queues⟩
    · cases h ▸ hk
  spends := by
    refine .within ?_ (by rw [hsame.queues])
    rw [hsame.queues]
    exact Nat.add_le_add_left (weight_le_of_keep hdetached) _

/-- A step that puts the detached queue of the lane back. -/
lemma Effect.attach {owner : FragmentQueue}
    (hslots : c'.transactionSlots = c.transactionSlots) (hdetached : phase.detachedKey? = some key)
    (hinsert : c.queues.insertUniqueReserved key owner = some c'.queues)
    (hkey : phase'.key? = none) (hdetached' : phase'.detachedKey? = none) :
    Effect c phase c' phase' := by
  obtain ⟨-, -, -, hcapacity⟩ := of_insertUniqueReserved hinsert
  refine ⟨hslots, .inr hkey, fun k hk hget => ?_, fun k hk => absurd (hdetached' ▸ hk) nofun,
    .within ?_ hcapacity⟩
  · have hne : k ≠ key := fun heq => hk (heq ▸ key?_of_detachedKey? hdetached)
    rw [get_insertUniqueReserved_of_ne hinsert hne, hget]
  rw [len_insertUniqueReserved hinsert]
  simp [weight, hdetached, hdetached']

/-- A step that removes the queue of the key and holds it, or drops it. -/
lemma Effect.remove (hslots : c'.transactionSlots = c.transactionSlots)
    (hkey : phase.key? = some key) (hqueues : c'.queues = c.queues.remove key)
    (hkey' : phase'.key? = phase.key? ∨ phase'.key? = none)
    (hdetached : ∀ k, phase'.detachedKey? = some k → k = key ∧ ∃ q, c.queues.get key = some q) :
    Effect c phase c' phase' := by
  refine ⟨hslots, hkey', fun k hk hget => ?_, fun k hk => .inr ?_, .within ?_ (by rw [hqueues]; rfl)⟩
  · have hne : k ≠ key := fun heq => hk (heq ▸ hkey)
    rw [hqueues, get_remove_of_ne hne]
    exact hget
  · rw [hqueues, (hdetached k hk).1, get_remove_self]
  · rw [hqueues]
    cases hd : phase'.detachedKey? with
    | none =>
      have hle : (c.queues.remove key).len ≤ c.queues.len := c.queues.assoc.length_erase_le key
      simp only [weight, any_some, hd, isSome_none, Bool.false_eq_true, if_false]
      omega
    | some k =>
      obtain ⟨-, q, hget⟩ := hdetached k hd
      have hlen : (c.queues.remove key).len + 1 = c.queues.len := SortedAssoc.length_erase hget
      simp only [weight, any_some, hd, isSome_some, if_true]
      omega

/-- A commit: the map may grow, and the queue takes a slot that was free or that of the victim. -/
lemma Effect.commit {call : FragmentCall} {env : CallEnv} {candidate : FragmentQueue}
    {victim : Option Victim} {capacity : IndexCapacity} {r : Except FragmentDropReason Unit}
    (h : c.commitSection call candidate victim env.index capacity = .ok (r, c')) :
    Effect c (committing call env candidate victim capacity) c' leaving := by
  obtain ⟨heffect, hslots⟩ := (does_commitSection ..).of_ok _ h
  generalize hqueues : c'.queues = m' at heffect
  refine ⟨hslots, .inr rfl, fun k hk hget => ?_, nofun, ?_⟩
  · have hne : k ≠ call.key := fun heq => hk (heq ▸ rfl)
    rw [hqueues]
    cases heffect with
    | refused hgrown => rw [hgrown.get_eq, hget]
    | published hgrown hinsert =>
      rw [get_insertUniqueReserved_of_ne hinsert hne, hgrown.get_eq, hget]
    | @replaced v q _ hv hinsert =>
      rw [get_insertUniqueReserved_of_ne hinsert hne]
      exact get_remove_eq_none fun _ => hget
  · cases heffect with
    | refused hgrown =>
      have hlen : c'.queues.len = c.queues.len := hqueues ▸ hgrown.len_eq
      rcases hgrown.2 with hcapacity | ⟨hfull, hroom⟩
      · exact .within hlen.le (hqueues ▸ hcapacity)
      refine .grew hfull ?_
      rw [hlen, hqueues]
      exact hroom.le
    | published hgrown hinsert =>
      obtain ⟨-, hroom, -, hcap⟩ := of_insertUniqueReserved hinsert
      have hlen : c'.queues.len = c.queues.len + 1 := by
        rw [hqueues, len_insertUniqueReserved hinsert, hgrown.len_eq]
      rw [hgrown.len_eq] at hroom
      rcases hgrown.2 with hcapacity | ⟨hfull, -⟩
      · exact .published rfl h hlen (hcapacity ▸ hroom) (hqueues ▸ hcap.trans hcapacity)
      refine .grew hfull ?_
      rw [hlen, hqueues, hcap]
      exact hroom
    | replaced hv hinsert =>
      obtain ⟨-, -, -, hcap⟩ := of_insertUniqueReserved hinsert
      have hlen : c'.queues.len = c.queues.len := by
        rw [hqueues, len_insertUniqueReserved hinsert]
        exact SortedAssoc.length_erase hv
      exact .within hlen.le (hqueues ▸ hcap)

lemma effect_of_step (h : phase.step c = .ok (c', phase')) : Effect c phase c' phase' := by
  have hrefl : SameQueues c c := ⟨rfl, rfl⟩
  cases phase with
  | entered call =>
    obtain ⟨hqueues, hslots⟩ := queues_expireSection c call.key call.nowMs
    cases hexpire : c.expireSection call.key call.nowMs with
    | mk expired =>
      rw [hexpire] at hqueues hslots
      simp only [step, hexpire] at h
      cases h
      rcases hqueues with hqueues | hqueues <;> cases expired
      · exact .keep ⟨hqueues, hslots⟩ (.inl rfl) (.inl rfl)
      · exact .keep ⟨hqueues, hslots⟩ (.inr rfl) (.inl rfl)
      · exact .remove hslots rfl hqueues (.inl rfl) nofun
      · exact .remove hslots rfl hqueues (.inr rfl) nofun
  | routing =>
    cases h
    split <;> exact .keep hrefl (.inl rfl) (.inl rfl)
  | existing call =>
    obtain ⟨⟨r, c1⟩, hdetach, heq⟩ := map_eq_ok h
    cases heq
    obtain ⟨hslots, ⟨owner, rfl, hget, hqueues⟩ | ⟨hr, hqueues⟩⟩ :=
      (does_detachSection call).of_ok _ hdetach
    · exact .remove hslots rfl hqueues (.inl rfl)
        fun k hk => ⟨(some.inj hk).symm, owner, hget⟩
    cases r with
    | absent => exact .keep ⟨hqueues, hslots⟩ (.inl rfl) (.inl rfl)
    | dropped => exact .keep ⟨hqueues, hslots⟩ (.inr rfl) (.inl rfl)
    | detached owner => exact absurd rfl (hr owner)
  | detached call env owner =>
    cases h
    cases hinsert : owner.insert env.insert call.offset call.moreFragments call.payload
        call.nowMs with
    | mk res =>
      rcases res with reason | done
      · exact .keep hrefl (.inl rfl) (.inl rfl)
      · cases done <;> exact .keep hrefl (.inl rfl) (.inl rfl)
  | completing =>
    cases h
    refine .keep ⟨?_, ?_⟩ (.inr rfl) (.inr rfl)
    · exact releaseQueue_queues ..
    · exact releaseQueue_transactionSlots ..
  | finishing =>
    cases h
    exact .keep ⟨rfl, rfl⟩ (.inr rfl) (.inr rfl)
  | reattaching =>
    obtain ⟨c1, hattach, heq⟩ := map_eq_ok h
    cases heq
    obtain ⟨hinsert, hslots⟩ := of_reattachSection hattach
    exact .attach hslots rfl hinsert rfl rfl
  | releasingFragment | releasingBytes =>
    cases h
    exact .keep ⟨rfl, rfl⟩ (.inl rfl) (.inl rfl)
  | failing =>
    obtain ⟨c1, hfail, heq⟩ := map_eq_ok h
    cases heq
    obtain ⟨hqueues | hinsert, hslots⟩ := of_failSection hfail
    · exact .keep ⟨hqueues, hslots⟩ (.inr rfl) (.inr rfl)
    · exact .attach hslots rfl hinsert rfl rfl
  | building call env =>
    cases h
    cases buildCandidate call env with
    | dropped | complete => exact .keep hrefl (.inr rfl) (.inl rfl)
    | ready => exact .keep hrefl (.inl rfl) (.inl rfl)
  | planning call =>
    have hsame := sameQueues_planSection c call
    cases hplan : c.planSection call with
    | mk plan =>
      rw [hplan] at hsame
      simp only [step, hplan] at h
      cases h
      cases plan with
      | error => exact .keep hsame (.inr rfl) (.inl rfl)
      | ok => exact .keep hsame (.inl rfl) (.inl rfl)
  | preparing call env candidate plan =>
    cases h
    cases prepare env.index plan with
    | error => exact .keep hrefl (.inr rfl) (.inl rfl)
    | ok => exact .keep hrefl (.inl rfl) (.inl rfl)
  | committing =>
    obtain ⟨⟨r, c1⟩, hcommit, heq⟩ := map_eq_ok h
    cases heq
    exact .commit hcommit
  | dropping =>
    cases h
    exact .keep ⟨recordDropReason_queues .., recordDropReason_transactionSlots ..⟩ (.inr rfl)
      (.inl rfl)
  | leaving =>
    cases h
    exact .keep hrefl (.inl rfl) (.inl rfl)

end Phase

/-! ## Guarded interleavings keep the room -/

namespace LaneWorld

variable {w w' : LaneWorld} {slot : Fin fragmentTransactionSlots} {phase : Phase}

/-- Counting the detached queues after one lane changed. -/
lemma detachedCount_update (c : FragmentCache) (w : LaneWorld) (slot : Fin fragmentTransactionSlots)
    (lane : Option Phase) :
    (LaneWorld.mk c (update w.lanes slot lane)).detachedCount + weight (w.lanes slot) =
      w.detachedCount + weight lane :=
  sum_update_add (mem_univ slot) (fun _ => weight) w.lanes lane

lemma weight_le_detachedCount (w : LaneWorld) (slot : Fin fragmentTransactionSlots) :
    weight (w.lanes slot) ≤ w.detachedCount := by
  exact single_le_sum (fun s _ => Nat.zero_le (weight (w.lanes s))) (mem_univ slot)

lemma publishes_iff : w.publishes slot = true ↔ ∃ call env candidate capacity c,
    w.lanes slot = some (.committing call env candidate none capacity) ∧
      w.cache.commitSection call candidate none env.index capacity = .ok (.ok (), c) := by
  constructor
  · intro h
    unfold publishes at h
    split at h
    · rename_i call env candidate capacity hlane
      split at h
      · rename_i c hcommit
        exact ⟨call, env, candidate, capacity, c, hlane, hcommit⟩
      · cases h
    · cases h
  · rintro ⟨call, env, candidate, capacity, c, hlane, hcommit⟩
    simp only [publishes, hlane, hcommit]

/-- What holds in every guarded interleaving. -/
structure Inv (w : LaneWorld) : Prop where
  /-- A lane with a call holds its permit. -/
  held : ∀ slot phase, w.lanes slot = some phase → w.cache.transactionSlots slot = true
  /-- The key of a call is one of its lane. -/
  own : ∀ slot phase key, w.lanes slot = some phase → phase.key? = some key →
    transactionSlot key.netNsId = slot
  /-- A detached queue is not in the map. -/
  absent : ∀ slot phase key, w.lanes slot = some phase → phase.detachedKey? = some key →
    w.cache.queues.get key = none
  /-- The map has room for the detached queues. -/
  spare : w.HasSpare

lemma inv_initial : initial.Inv where
  held _ _ h := absurd h nofun
  own _ _ _ h := absurd h nofun
  absent _ _ _ h := absurd h nofun
  spare := by
    have hcount : initial.detachedCount = 0 := sum_eq_zero fun _ _ => rfl
    unfold HasSpare
    rw [hcount]
    exact le_rfl

/-- A lane changes, and with it the cache: what has to hold of the lane and of the others. -/
lemma Inv.setLane {c : FragmentCache} {lane : Option Phase} (h : w.Inv)
    (hself : ∀ p, lane = some p → c.transactionSlots slot = true ∧
      (∀ key, p.key? = some key → transactionSlot key.netNsId = slot) ∧
      ∀ key, p.detachedKey? = some key → c.queues.get key = none)
    (hothers : ∀ s ≠ slot, ∀ p, w.lanes s = some p → c.transactionSlots s = true ∧
      ∀ key, p.detachedKey? = some key → c.queues.get key = none)
    (hspare : c.queues.len + w.detachedCount + weight lane ≤
      c.queues.capacity + weight (w.lanes slot)) :
    (LaneWorld.mk c (update w.lanes slot lane)).Inv := by
  have hlanes : ∀ s p, update w.lanes slot lane s = some p → c.transactionSlots s = true ∧
      (∀ key, p.key? = some key → transactionSlot key.netNsId = s) ∧
      ∀ key, p.detachedKey? = some key → c.queues.get key = none := by
    intro s p hp
    by_cases hs : s = slot
    · subst hs
      rw [update_self] at hp
      exact hself p hp
    rw [update_of_ne hs] at hp
    obtain ⟨hheld, habsent⟩ := hothers s hs p hp
    exact ⟨hheld, fun key => h.own s p key hp, habsent⟩
  refine ⟨fun s p hp => (hlanes s p hp).1, fun s p key hp => (hlanes s p hp).2.1 key,
    fun s p key hp => (hlanes s p hp).2.2 key, ?_⟩
  have hcount := detachedCount_update c w slot lane
  show c.queues.len + _ ≤ c.queues.capacity
  omega

lemma Inv.enter (h : w.Inv) (netNsId : ℕ) (header : Ipv4Header) (payload : List UInt8)
    (nowMs : ℕ) (env : CallEnv) :
    (w.enter netNsId (callOf netNsId header payload nowMs) env).Inv := by
  unfold LaneWorld.enter tryTransaction
  dsimp only
  rw [count_transactionSlots]
  cases hslot : w.cache.transactionSlots (transactionSlot netNsId) with
  | true => exact { h with }
  | false =>
    have hfree : w.lanes (transactionSlot netNsId) = none := by
      cases hlane : w.lanes (transactionSlot netNsId) with
      | none => rfl
      | some => cases hslot.symm.trans (h.held _ _ hlane)
    simp only [Bool.false_eq_true, if_false]
    refine h.setLane ?_ (fun s hs p hp => ⟨?_, fun key => h.absent s p key hp⟩) ?_
    · rintro p ⟨⟩
      refine ⟨update_self .., fun key hkey => ?_, nofun⟩
      cases hkey
      rfl
    · exact (update_of_ne hs ..).trans (h.held s p hp)
    · rw [hfree]
      exact Nat.add_le_add_right h.spare 0

lemma Inv.step (h : w.Inv) (hlane : w.lanes slot = some phase) {c : FragmentCache} {phase' : Phase}
    (hstep : phase.step w.cache = .ok (c, phase')) (hguard : w.Guarded (.advance slot)) :
    (LaneWorld.mk c (update w.lanes slot (some phase'))).Inv := by
  have heffect := Phase.effect_of_step hstep
  refine h.setLane ?_ (fun s hs p hp => ⟨?_, fun key hkey => ?_⟩) ?_
  · rintro p ⟨⟩
    refine ⟨?_, fun key hkey => ?_, fun key hkey => ?_⟩
    · rw [heffect.slots]
      exact h.held _ _ hlane
    · rcases heffect.key with hsame | hnone
      · exact h.own _ _ _ hlane (hsame ▸ hkey)
      · cases hnone.symm.trans hkey
    · rcases heffect.detached key hkey with ⟨hbefore, hqueues⟩ | hnone
      · rw [hqueues]
        exact h.absent _ _ _ hlane hbefore
      · exact hnone
  · rw [heffect.slots]
    exact h.held s p hp
  · refine heffect.others key (fun hown => hs ?_) (h.absent _ _ _ hp hkey)
    exact (h.own _ _ _ hp (Phase.key?_of_detachedKey? hkey)).symm.trans (h.own _ _ _ hlane hown)
  · have hweight := weight_le_detachedCount w slot
    have hspare : w.cache.queues.len + w.detachedCount ≤ w.cache.queues.capacity := h.spare
    rw [hlane] at hweight ⊢
    rcases heffect.spends with ⟨hle, hcapacity⟩ | ⟨hfull, hroom⟩ | ⟨hphase, hcommit, hlen, hroom, hcap⟩
    · omega
    · omega
    · have hpublishes : w.publishes slot = true :=
        publishes_iff.mpr ⟨_, _, _, _, _, hphase ▸ hlane, hcommit⟩
      have hspace := hguard hpublishes
      omega

lemma Inv.leave (h : w.Inv) (hlane : w.lanes slot = some .leaving) :
    (LaneWorld.mk (w.cache.setSlot slot false) (update w.lanes slot none)).Inv := by
  refine h.setLane (fun _ hp => nomatch hp)
    (fun s hs p hp => ⟨?_, fun key => h.absent s p key hp⟩) ?_
  · exact (update_of_ne hs ..).trans (h.held s p hp)
  rw [hlane]
  exact Nat.add_le_add_right h.spare 0

lemma Inv.advance (h : w.Inv) (hguard : w.Guarded (.advance slot))
    (hw : w.advance slot = .ok w') : w'.Inv := by
  unfold LaneWorld.advance at hw
  split at hw
  · exact Except.ok.inj hw ▸ h
  · rename_i hlane
    exact Except.ok.inj hw ▸ h.leave hlane
  · rename_i phase _ hlane
    obtain ⟨⟨c, phase'⟩, hstep, heq⟩ := map_eq_ok hw
    exact heq ▸ h.step hlane hstep hguard

lemma inv_of_guardedReachable (h : GuardedReachable w) : w.Inv := by
  induction h with
  | refl => exact inv_initial
  | tail _ hstep ih =>
    obtain ⟨op, hguard, hexec⟩ := hstep
    cases op with
    | enter netNsId header payload nowMs env =>
      exact Except.ok.inj hexec ▸ ih.enter netNsId header payload nowMs env
    | advance => exact ih.advance hguard hexec

/-- A lane that puts its queue back finds the key absent and a free slot. -/
lemma Inv.room (h : w.Inv) (hlane : w.lanes slot = some phase) {key : FragmentKey}
    (hkey : phase.detachedKey? = some key) :
    w.cache.queues.get key = none ∧ w.cache.queues.len < w.cache.queues.capacity := by
  have hweight := weight_le_detachedCount w slot
  have hone : weight (w.lanes slot) = 1 := by simp [weight, hlane, hkey]
  have hspare : w.cache.queues.len + w.detachedCount ≤ w.cache.queues.capacity := h.spare
  exact ⟨h.absent _ _ _ hlane hkey, by omega⟩

lemma Inv.safe_step (h : w.Inv) (hlane : w.lanes slot = some phase) :
    Safe (phase.step w.cache) := by
  cases phase with
  | existing call => exact (does_detachSection call).safe.map _
  | committing => exact (does_commitSection ..).safe.map _
  | reattaching call owner =>
    obtain ⟨hnone, hroom⟩ := h.room hlane rfl
    obtain ⟨m, hm, -⟩ := insertUniqueReserved_eq_some hnone hroom owner
    have hok : w.cache.reattachSection call.key owner = .ok { w.cache with queues := m } := by
      unfold reattachSection
      rw [hm]
    refine .map ?_ _
    rw [hok]
    exact .ok _
  | failing call owner =>
    obtain ⟨hnone, hroom⟩ := h.room hlane rfl
    obtain ⟨m, hm, -⟩ := insertUniqueReserved_eq_some hnone hroom owner
    refine .map ?_ _
    unfold failSection
    dsimp only
    split
    · exact .ok _
    rw [(sameQueues_perNsRelease ..).queues, hm]
    exact .ok _
  | entered | routing | detached | completing | finishing | releasingFragment | releasingBytes
  | building | planning | preparing | dropping | leaving => exact .ok _

lemma Inv.safe_exec (h : w.Inv) (op : LaneOp) : Safe (w.exec op) := by
  cases op with
  | enter => exact .ok _
  | advance slot =>
    show Safe (w.advance slot)
    unfold LaneWorld.advance
    split
    · exact .ok _
    · exact .ok _
    · rename_i phase _ hlane
      exact (h.safe_step hlane).map _

/-! ## Runs -/

/-- Run operations one after the other. -/
def run (w : LaneWorld) (ops : List LaneOp) : Except FragmentFault LaneWorld := ops.foldlM exec w

/-- Run operations one after the other as long as they are guarded. -/
def runGuarded (w : LaneWorld) (ops : List LaneOp) : Option LaneWorld :=
  ops.foldlM (fun w op => if w.Guarded op then (w.exec op).toOption else none) w

lemma reachable_of_run {ops : List LaneOp} (hw : Reachable w) (h : w.run ops = .ok w') :
    Reachable w' := by
  induction ops generalizing w with
  | nil => exact Except.ok.inj h ▸ hw
  | cons op ops ih =>
    obtain ⟨w1, hexec, hrun⟩ := bind_eq_ok h
    exact ih (hw.tail ⟨op, hexec⟩) hrun

lemma guardedReachable_of_run {ops : List LaneOp} (hw : GuardedReachable w)
    (h : w.runGuarded ops = some w') : GuardedReachable w' := by
  induction ops generalizing w with
  | nil => exact some.inj h ▸ hw
  | cons op ops ih =>
    obtain ⟨w1, hstep, hrun⟩ := bind_eq_some_iff.mp h
    dsimp only at hstep
    split_ifs at hstep with hguard
    cases hexec : w.exec op with
    | error =>
      rw [hexec] at hstep
      cases hstep
    | ok =>
      rw [hexec] at hstep
      cases hstep
      exact ih (hw.tail ⟨op, hguard, hexec⟩) hrun

/-- An allocator that grants every request exactly. -/
def exactAlloc : AllocEnv := ⟨fun target => some ⟨target, le_rfl⟩, true⟩

/-- The environment of a call without memory pressure. -/
def calmEnv : CallEnv :=
  ⟨exactAlloc, ⟨exactAlloc, true, exactAlloc⟩, true, exactAlloc,
    ⟨exactAlloc, exactAlloc, exactAlloc⟩⟩

/-- A call for the middle fragment of a datagram: eight bytes at an offset in units of eight. -/
def middleFragment (netNsId identification offset : ℕ) : LaneOp :=
  .enter netNsId ⟨1, 2, 17, identification, BitVec.ofNat 16 (0x2000 + offset)⟩
    (List.replicate 8 0) 0 calmEnv

/-- A call that publishes a queue, from its arrival to its departure. -/
def publishCall (netNsId identification : ℕ) : List LaneOp :=
  middleFragment netNsId identification 1 ::
    List.replicate 7 (.advance (transactionSlot netNsId))

/-- A call for a second fragment, up to the point where its detached queue has the fragment. -/
def detachCall (netNsId identification : ℕ) : List LaneOp :=
  middleFragment netNsId identification 2 ::
    List.replicate 4 (.advance (transactionSlot netNsId))

/-- In every interleaving that publishes new queues only into slots that no detached queue needs,
the map has room for every detached queue, and no detached queue is ever lost. -/
theorem no_queue_lost_of_guarded (h : GuardedReachable w) :
    w.HasSpare ∧ ∀ op, w.exec op ≠ .error .detachedLostSlot ∧ w.exec op ≠ .error .failedLostQueue := by
  have hinv := inv_of_guardedReachable h
  refine ⟨hinv.spare, fun op => ⟨fun hfault => ?_, fun hfault => ?_⟩⟩
  · exact absurd (hinv.safe_exec op _ hfault) (by decide)
  · exact absurd (hinv.safe_exec op _ hfault) (by decide)

/-- One queue is published and detached for its second fragment. -/
def detachedRun : List LaneOp := publishCall 0 0 ++ detachCall 0 0

theorem no_queue_lost_of_guarded_detached : ∃ w, GuardedReachable w ∧ w.detachedCount = 1 ∧
    w.HasSpare ∧ ∀ op, w.exec op ≠ .error .detachedLostSlot ∧ w.exec op ≠ .error .failedLostQueue := by
  cases hrun : initial.runGuarded detachedRun with
  | none =>
    have hsome : (initial.runGuarded detachedRun).isSome = true := by decide +kernel
    rw [hrun] at hsome
    cases hsome
  | some w =>
    have hcount : (initial.runGuarded detachedRun).map detachedCount = some 1 := by decide +kernel
    rw [hrun] at hcount
    have hreach := guardedReachable_of_run Relation.ReflTransGen.refl hrun
    exact ⟨w, hreach, some.inj hcount, no_queue_lost_of_guarded hreach⟩

/-- Eight queues fill the first backing; one of them is detached, and another namespace publishes
its queue into the slot that became free. -/
def takenSlot : List LaneOp :=
  (List.range 8).flatMap (publishCall 0) ++ detachCall 0 0 ++ publishCall 1 8

/-- The fault of a run. -/
def faultOf (r : Except FragmentFault LaneWorld) : Option FragmentFault :=
  match r with
  | .error fault => some fault
  | .ok _ => none

lemma eq_error_of_faultOf {r : Except FragmentFault LaneWorld} {fault : FragmentFault}
    (h : faultOf r = some fault) : r = .error fault := by
  cases r with
  | error => exact congrArg _ (some.inj h)
  | ok => cases h

lemma run_concat (ops : List LaneOp) (op : LaneOp) (h : w.run ops = .ok w') :
    w.run (ops ++ [op]) = w'.exec op := by
  have happend : w.run (ops ++ [op]) = w.run ops >>= fun w1 => w1.run [op] := List.foldlM_append
  rw [happend, h]
  show w'.exec op >>= pure = w'.exec op
  exact bind_pure _

/-- In an interleaving of two namespaces in different lanes a detached queue finds its slot taken. -/
theorem queue_lost : ∃ w, Reachable w ∧ ¬w.HasSpare ∧
    w.exec (.advance (transactionSlot 0)) = .error .detachedLostSlot := by
  cases hrun : initial.run takenSlot with
  | error =>
    have hnone : faultOf (initial.run takenSlot) = none := by decide +kernel
    rw [hrun] at hnone
    cases hnone
  | ok w =>
    have hspare : (initial.run takenSlot).toOption.map (fun w => decide w.HasSpare) =
        some false := by
      decide +kernel
    have hlost : faultOf (initial.run (takenSlot ++ [.advance (transactionSlot 0)])) =
        some .detachedLostSlot := by
      decide +kernel
    rw [hrun] at hspare
    rw [run_concat _ _ hrun] at hlost
    exact ⟨w, reachable_of_run Relation.ReflTransGen.refl hrun,
      of_decide_eq_false (some.inj hspare), eq_error_of_faultOf hlost⟩

end LaneWorld

end Nilix.Net
