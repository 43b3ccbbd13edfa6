import Mathlib.Data.Prod.Lex
import Mathlib.Data.List.Sort
import Nilix.Net.Admitted

/-!
# Fragment reassembly queues

`kernel/net/src/fragment.rs`: the queue that collects the fragments of one IPv4 datagram.  `insert`
checks a fragment against the rate limit, the limits of the queue, the fragments stored so far and
the list of holes; it commits only after every allocation succeeded.  Payloads are byte lists, and
offsets and lengths, which the source keeps in `u16`, are natural numbers with the source's checks.
-/

namespace Nilix.Net

/-! ## Limits -/

def fragTimeoutMs : ℕ := 30000

def maxPacketSize : ℕ := 65535

def maxFragsPerQueue : ℕ := 64

def maxBytesPerQueue : ℕ := 512 * 1024

def minL4HeaderBytes : ℕ := 8

def rateLimitTokens : ℕ := 128

def rateLimitWindowMs : ℕ := 1000

/-- `u16::MAX`. -/
def u16Max : ℕ := 65535

inductive FragmentDropReason
  | rateLimited
  | tooLarge
  | queueFragLimit
  | queueByteLimit
  | firstTooSmall
  | overlap
  | globalQueueLimit
  | globalFragLimit
  | globalByteLimit
  | perSourceLimit
  | timeout
  | zeroLength
  | duplicate
  | perNsQueueLimit
  | perNsFragLimit
  | perNsByteLimit

/-! ## Keys -/

/-- The fields of an `Ipv4Header` that reassembly reads.  Addresses are their big-endian values. -/
structure Ipv4Header where
  src : ℕ
  dst : ℕ
  protocol : ℕ
  identification : ℕ
  flagsFragment : BitVec 16

def Ipv4Header.moreFragments (h : Ipv4Header) : Bool := h.flagsFragment &&& 0x2000 ≠ 0

/-- `fragment_offset`, in units of eight bytes. -/
def Ipv4Header.fragmentOffset (h : Ipv4Header) : ℕ := (h.flagsFragment &&& 0x1fff).toNat

structure FragmentKey where
  netNsId : ℕ
  src : ℕ
  dst : ℕ
  protocol : ℕ
  identification : ℕ
  deriving DecidableEq

namespace FragmentKey

def fromHeader (netNsId : ℕ) (h : Ipv4Header) : FragmentKey :=
  ⟨netNsId, h.src, h.dst, h.protocol, h.identification⟩

def srcIp (key : FragmentKey) : ℕ := key.src

/-- The fields of a key in the order in which they are compared. -/
def toTuple (key : FragmentKey) : ℕ ×ₗ ℕ ×ₗ ℕ ×ₗ ℕ ×ₗ ℕ :=
  toLex (key.netNsId, toLex (key.src, toLex (key.dst, toLex (key.protocol, key.identification))))

lemma toTuple_injective : Function.Injective toTuple := by
  rintro ⟨a, b, c, d, e⟩ ⟨a', b', c', d', e'⟩ h
  simpa [toTuple] using h

/-- The derived order of the source: fields are compared one after the other. -/
instance : LinearOrder FragmentKey := LinearOrder.lift' toTuple toTuple_injective

end FragmentKey

/-! ## The rate limiter -/

structure RateLimiter where
  tokens : ℕ
  lastRefillMs : ℕ

def RateLimiter.new (nowMs : ℕ) : RateLimiter := ⟨rateLimitTokens, nowMs⟩

def RateLimiter.allow (r : RateLimiter) (cost nowMs : ℕ) : Bool × RateLimiter :=
  let elapsed := nowMs - r.lastRefillMs
  let refill := elapsed * rateLimitTokens % 2 ^ 64 / rateLimitWindowMs % 2 ^ 32
  let tokens := min (min (r.tokens + refill) u32Max) rateLimitTokens
  if cost ≤ tokens then (true, ⟨tokens - cost, nowMs⟩) else (false, ⟨tokens, nowMs⟩)

/-! ## Queues -/

/-- `FragmentHole`: the bytes from `start` up to, and without, `stop`. -/
structure FragmentHole where
  start : ℕ
  stop : ℕ

structure FragmentQueue where
  createdMs : ℕ
  expiresAtMs : ℕ
  totalLen : Option ℕ
  receivedFrags : ℕ
  receivedBytes : ℕ
  holes : AdmittedVec FragmentHole
  frags : AdmittedMap ℕ (List UInt8)
  haveFirst : Bool
  haveLast : Bool
  l4HeaderOk : Bool
  rateLimiter : RateLimiter

/-- The answers of the allocator during an insertion: for the new list of holes, for the copy of the
payload, and for the map of fragments. -/
structure InsertEnv where
  holes : AllocEnv
  payload : Bool
  frags : AllocEnv

namespace FragmentQueue

/-- `FragmentQueue::new`: one hole for the whole packet. -/
def new (env : AllocEnv) (nowMs : ℕ) : Except FragmentDropReason FragmentQueue :=
  match (ensureVecCapacityFor AdmittedVec.new env 1).bind
      (·.pushReserved (⟨0, u16Max⟩ : FragmentHole)) with
  | none => .error .queueByteLimit
  | some holes => .ok {
      createdMs := nowMs
      expiresAtMs := saturatingAdd nowMs fragTimeoutMs
      totalLen := none
      receivedFrags := 0
      receivedBytes := 0
      holes := holes
      frags := .new
      haveFirst := false
      haveLast := false
      l4HeaderOk := false
      rateLimiter := .new nowMs }

variable (holes : AdmittedVec FragmentHole) (q : FragmentQueue) (env : InsertEnv) (offset : ℕ)
    (moreFragments : Bool) (data : List UInt8) (nowMs : ℕ)

/-- The end of a stored fragment, with the conversions to `u16`. -/
def storedEnd : Except FragmentDropReason ℕ :=
  if u16Max < data.length then .error .tooLarge
  else if u16Max < offset + data.length then .error .tooLarge
  else .ok (offset + data.length)

/-- The loop that a last fragment runs: no stored fragment may reach beyond its end. -/
def checkBeyond (fragEnd : ℕ) : List (ℕ × List UInt8) → Except FragmentDropReason Unit
  | [] => .ok ()
  | (offset, data) :: rest => do
    let stop ← storedEnd offset data
    if fragEnd < stop then .error .overlap else checkBeyond fragEnd rest

/-- The overlap checks against the previous and the next stored fragment. -/
def checkNeighbours (frags : AdmittedMap ℕ (List UInt8)) (fragStart fragEnd : ℕ) :
    Except FragmentDropReason Unit := do
  match (frags.iter.filter fun e => e.1 ≤ fragStart).getLast? with
  | none => checkNext
  | some (offset, data) =>
    let stop ← storedEnd offset data
    if fragStart < stop then .error .overlap else checkNext
where
  /-- The next fragment may not start before the end. -/
  checkNext : Except FragmentDropReason Unit :=
    match frags.iter.find? fun e => fragStart ≤ e.1 with
    | none => .ok ()
    | some (offset, _) => if offset < fragEnd then .error .overlap else .ok ()

/-- Push a hole into reserved capacity. -/
def pushHole (start stop : ℕ) : Except FragmentDropReason (AdmittedVec FragmentHole) :=
  match holes.pushReserved ⟨start, stop⟩ with
  | none => .error .queueByteLimit
  | some holes' => .ok holes'

/-- Push a hole unless it is empty. -/
def pushGap (start stop : ℕ) : Except FragmentDropReason (AdmittedVec FragmentHole) :=
  if start < stop then pushHole holes start stop else .ok holes

/-- One hole of the hole algorithm, clipped to `maxEnd`: it is kept, split around the fragment, or
shows an overlap.  The flag tells whether the fragment was inside a hole. -/
def fillHole (fragStart fragEnd maxEnd : ℕ) (acc : AdmittedVec FragmentHole × Bool)
    (hole : FragmentHole) : Except FragmentDropReason (AdmittedVec FragmentHole × Bool) :=
  let holeEnd := min hole.stop maxEnd
  if maxEnd ≤ hole.start then .ok acc
  else if fragEnd ≤ hole.start ∨ holeEnd ≤ fragStart then do
    let holes ← pushHole acc.1 hole.start holeEnd
    return (holes, acc.2)
  else if fragStart < hole.start ∨ holeEnd < fragEnd then .error .overlap
  else do
    let holes ← pushGap acc.1 hole.start fragStart
    let holes ← pushGap holes fragEnd holeEnd
    return (holes, true)

/-- The hole algorithm; a fragment outside of all holes is a duplicate. -/
def fillHoles (env : AllocEnv) (fragStart fragEnd maxEnd : ℕ) :
    Except FragmentDropReason (AdmittedVec FragmentHole) :=
  match ensureVecCapacityFor AdmittedVec.new env (q.holes.values.length + 1) with
  | none => .error .queueByteLimit
  | some empty => do
    let (holes, covered) ← q.holes.values.foldlM (fillHole fragStart fragEnd maxEnd) (empty, false)
    if covered then .ok holes else .error .duplicate

/-- The holes in the order of their starts. -/
def sortHoles : AdmittedVec FragmentHole :=
  ⟨holes.values.insertionSort fun a b => a.start ≤ b.start, holes.capacity, by
    rw [List.length_insertionSort]
    exact holes.length_le⟩

/-- The checks of an insertion that depend on the fragment and on the stored fragments: the result is
the end of the fragment and the end to which holes are clipped. -/
def validate : Except FragmentDropReason (ℕ × ℕ) :=
  let fragEnd := offset + data.length
  if data.length = 0 then .error .zeroLength
  else if maxFragsPerQueue ≤ q.receivedFrags then .error .queueFragLimit
  else if maxBytesPerQueue < saturatingAdd q.receivedBytes data.length then .error .queueByteLimit
  else if u16Max < fragEnd then .error .tooLarge
  else if maxPacketSize < fragEnd then .error .tooLarge
  else if offset = 0 ∧ data.length < minL4HeaderBytes then .error .firstTooSmall
  else do
    if moreFragments then
      checkNeighbours q.frags offset fragEnd
      return (fragEnd, q.totalLen.getD u16Max)
    else
      checkBeyond fragEnd q.frags.iter
      checkNeighbours q.frags offset fragEnd
      return (fragEnd, fragEnd)

/-- The part of an insertion after the rate limiter: nothing is changed on an error. -/
def place : Except FragmentDropReason FragmentQueue := do
  let (fragEnd, maxEnd) ← q.validate offset moreFragments data
  let holes ← q.fillHoles env.holes offset fragEnd maxEnd
  if !env.payload then .error .queueByteLimit
  else match AdmittedMap.tryInsert q.frags env.frags offset data with
    | none => .error .queueByteLimit
    | some frags => return { q with
        totalLen := if moreFragments then q.totalLen else some fragEnd
        receivedFrags := q.receivedFrags + 1
        receivedBytes := q.receivedBytes + data.length
        holes := sortHoles holes
        frags := frags
        haveFirst := q.haveFirst || offset = 0
        haveLast := q.haveLast || !moreFragments
        l4HeaderOk := q.l4HeaderOk || offset = 0 }

def isComplete : Bool :=
  q.haveFirst && q.haveLast && q.l4HeaderOk && q.holes.values.isEmpty

/-- `insert`: whether the datagram is complete, and the queue after the call. -/
def insert : Except FragmentDropReason Bool × FragmentQueue :=
  if u16Max < data.length then (.error .tooLarge, q)
  else
    let (allowed, limiter) := q.rateLimiter.allow 1 nowMs
    let q1 := { q with rateLimiter := limiter }
    if !allowed then (.error .rateLimited, q1)
    else match q1.place env offset moreFragments data with
      | .error reason => (.error reason, q1)
      | .ok q2 => (.ok q2.isComplete, q2)

/-- Copy a fragment into the packet. -/
def copyFragment (buf : List UInt8) (offset : ℕ) (data : List UInt8) : List UInt8 :=
  buf.take offset ++ data ++ buf.drop (offset + data.length)

/-- The copy loop of `reassemble`. -/
def copyFragments (total : ℕ) : List (ℕ × List UInt8) → List UInt8 → Option (List UInt8)
  | [], buf => some buf
  | (offset, data) :: rest, buf =>
    if total < offset + data.length then none
    else copyFragments total rest (copyFragment buf offset data)

/-- `reassemble`; `granted` tells whether the packet buffer could be allocated. -/
def reassemble (granted : Bool) : Option (List UInt8) :=
  if !q.isComplete then none
  else match q.totalLen with
    | none => none
    | some total =>
      if maxPacketSize < total then none
      else if !granted then none
      else copyFragments total q.frags.iter (List.replicate total 0)

def isExpired : Bool := q.expiresAtMs ≤ nowMs

/-! ## What an insertion counts -/

lemma received_of_new {env : AllocEnv} {nowMs : ℕ} {q : FragmentQueue}
    (h : new env nowMs = .ok q) : q.receivedFrags = 0 ∧ q.receivedBytes = 0 := by
  unfold new at h
  split at h
  · cases h
  cases h
  exact ⟨rfl, rfl⟩

lemma received_of_place {q q' : FragmentQueue} {env : InsertEnv} {offset : ℕ}
    {moreFragments : Bool} {data : List UInt8} (h : q.place env offset moreFragments data = .ok q') :
    q'.receivedFrags = q.receivedFrags + 1 ∧ q'.receivedBytes = q.receivedBytes + data.length := by
  unfold place at h
  cases hv : q.validate offset moreFragments data with
  | error =>
    rw [hv] at h
    cases h
  | ok ends =>
    cases hf : q.fillHoles env.holes offset ends.1 ends.2 with
    | error =>
      simp only [hv, hf, bind, Except.bind] at h
      cases h
    | ok =>
      simp only [hv, hf, bind, Except.bind] at h
      split at h
      · cases h
      split at h
      · cases h
      cases h
      exact ⟨rfl, rfl⟩

/-- An accepted fragment is counted once, a rejected one is not. -/
lemma received_of_insert {res : Except FragmentDropReason Bool} {q' : FragmentQueue}
    (h : q.insert env offset moreFragments data nowMs = (res, q')) :
    (∃ b, res = .ok b ∧ q'.receivedFrags = q.receivedFrags + 1 ∧
        q'.receivedBytes = q.receivedBytes + data.length) ∨
      ∃ reason, res = .error reason ∧ q'.receivedFrags = q.receivedFrags ∧
        q'.receivedBytes = q.receivedBytes := by
  unfold insert at h
  split_ifs at h with hlarge
  · cases h
    exact .inr ⟨_, rfl, rfl, rfl⟩
  dsimp only at h
  split_ifs at h
  · cases h
    exact .inr ⟨_, rfl, rfl, rfl⟩
  split at h
  · cases h
    exact .inr ⟨_, rfl, rfl, rfl⟩
  rename_i q2 hplace
  cases h
  have hcounted := received_of_place hplace
  exact .inl ⟨_, rfl, hcounted⟩

end FragmentQueue

end Nilix.Net
