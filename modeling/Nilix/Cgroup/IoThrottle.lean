import Nilix.Cgroup.Hierarchy
import Nilix.Foundation.Loop
import Nilix.Foundation.Machine

/-!
# The I/O throttle of the cgroups

`kernel/kernel_core/cgroup.rs`, `io.max`: every node has a bucket of byte tokens and a bucket of IOPS
tokens.  `charge_io` walks the chain of the limited nodes twice: it first reads the buckets and
returns the latest deadline, and it charges every level only when no level asks for a wait.
-/

namespace Nilix.Cg

def ioBurstSecs : ℕ := 4

def nsPerSec : ℕ := 1000000000

/-- The `io.max` part of `CgroupLimits`; `set_limit` refuses a rate of zero. -/
structure IoLimits where
  ioMaxBytesPerSec : Option ℕ
  ioMaxIopsPerSec : Option ℕ
  bytes_pos : ∀ bps ∈ ioMaxBytesPerSec, 0 < bps
  iops_pos : ∀ iops ∈ ioMaxIopsPerSec, 0 < iops

/-- Whether `charge_io` counts a node as an active level. -/
def IoLimits.active (limits : IoLimits) : Bool :=
  limits.ioMaxBytesPerSec.isSome || limits.ioMaxIopsPerSec.isSome

inductive IoThrottleStatus where
  | unlimited
  | allowed
  | throttled (untilNs : ℕ)
deriving DecidableEq

structure IoBucketState where
  lastRefillNs : ℕ
  byteTokens : ℕ
  iopsTokens : ℕ
  throttleUntilNs : ℕ

def IoBucketState.new : IoBucketState := ⟨0, 0, 0, 0⟩

/-- A `u64::saturating_mul`. -/
def saturatingMul (a b : ℕ) : ℕ := min (a * b) usizeMax

/-- An `as u64` of a wider number. -/
def asU64 (n : ℕ) : ℕ := n % (usizeMax + 1)

/-- The wait for the missing byte tokens, rounded up. -/
def byteWaitNs (bps tokens bytes : ℕ) : ℕ :=
  asU64 (((bytes - tokens) * nsPerSec + (bps - 1)) / bps)

/-- The wait for one IOPS token. -/
def nanosPerIo (iops : ℕ) : ℕ := nsPerSec / max iops 1

namespace IoBucketState

/-- One token count of `refill`: the burst on the first refill, else the tokens clamped to the cap
and topped up by what the elapsed time earned. -/
def refillTokens (first : Bool) (elapsed rate burst cap tokens : ℕ) : ℕ :=
  if first then burst
  else
    let clamped := if cap < tokens then cap else tokens
    if 0 < elapsed ∧ clamped < cap then
      min cap (saturatingAdd clamped (asU64 (elapsed * rate / nsPerSec)))
    else clamped

variable (b : IoBucketState) (limits : IoLimits) (bytes nowNs : ℕ)

def refill (nowNs requestedBytes : ℕ) : IoBucketState :=
  let first := b.lastRefillNs == 0
  let elapsed := if first then 0 else nowNs - b.lastRefillNs
  { lastRefillNs := nowNs
    byteTokens :=
      match limits.ioMaxBytesPerSec with
      | some bps =>
        let burstCap := saturatingMul bps ioBurstSecs
        refillTokens first elapsed bps burstCap (max burstCap requestedBytes) b.byteTokens
      | none => usizeMax
    iopsTokens :=
      match limits.ioMaxIopsPerSec with
      | some iops =>
        let cap := saturatingMul iops ioBurstSecs
        refillTokens first elapsed iops cap cap b.iopsTokens
      | none => usizeMax
    throttleUntilNs :=
      if b.throttleUntilNs ≠ 0 ∧ b.throttleUntilNs ≤ nowNs then 0 else b.throttleUntilNs }

/-- Whether a bucket is in a throttle window. -/
def inWindow (nowNs : ℕ) : Bool :=
  b.throttleUntilNs ≠ 0 ∧ nowNs < b.throttleUntilNs

/-- The deadline that the missing tokens ask for, 0 when none are missing. -/
def deficitUntil : ℕ :=
  let byBytes :=
    match limits.ioMaxBytesPerSec with
    | some bps =>
      if b.byteTokens < bytes then saturatingAdd nowNs (byteWaitNs bps b.byteTokens bytes) else 0
    | none => 0
  match limits.ioMaxIopsPerSec with
  | some iops =>
    if b.iopsTokens = 0 then max byBytes (saturatingAdd nowNs (nanosPerIo iops)) else byBytes
  | none => byBytes

/-- The tokens that a charge takes: each budget that suffices pays, whatever the other does. -/
def pay (bytes : ℕ) : IoBucketState :=
  { b with
    byteTokens := if limits.ioMaxBytesPerSec.isSome ∧ bytes ≤ b.byteTokens then
      b.byteTokens - bytes else b.byteTokens
    iopsTokens := if limits.ioMaxIopsPerSec.isSome then b.iopsTokens - 1 else b.iopsTokens }

/-- `IoThrottleState::charge`: the bucket after, the status, and whether a throttle event is
counted. -/
def charge : IoBucketState × IoThrottleStatus × Bool :=
  let b := b.refill limits nowNs bytes
  if b.inWindow nowNs then (b, .throttled b.throttleUntilNs, false)
  else
    let throttleUntil := b.deficitUntil limits bytes nowNs
    if throttleUntil ≠ 0 then
      ({ b.pay limits bytes with throttleUntilNs := throttleUntil }, .throttled throttleUntil, true)
    else (b.pay limits bytes, .allowed, false)

/-- What the first phase of `charge_io` reads at one level: the deadline of the window the bucket is
in, else the one of the missing tokens.  The bucket is not refilled here. -/
def checkUntil : ℕ :=
  if b.inWindow nowNs then b.throttleUntilNs else b.deficitUntil limits bytes nowNs

end IoBucketState

/-- The part of a `CgroupNode` that the throttle uses. -/
structure IoNode where
  limits : IoLimits
  bucket : IoBucketState
  ioThrottleEvents : ℕ

/-- The second phase at one level. -/
def IoNode.charge (n : IoNode) (bytes nowNs : ℕ) : IoNode :=
  let (bucket, _, event) := n.bucket.charge n.limits bytes nowNs
  { n with bucket, ioThrottleEvents := if event then n.ioThrottleEvents + 1 else n.ioThrottleEvents }

/-- The nodes' throttles. -/
abbrev IoState := Cgroup → IoNode

namespace IoState

variable (controller : Cgroup → Bool) (s : IoState) (origin : Option Cgroup)

/-- The active levels of a chain. -/
def activeLevels (chain : List Cgroup) : List Cgroup :=
  chain.filter fun c => (s c).limits.active

/-- The first phase: the latest deadline over the active levels. -/
def overallThrottleUntil (bytes nowNs : ℕ) (levels : List Cgroup) : ℕ :=
  levels.foldl (fun overall c => max overall ((s c).bucket.checkUntil (s c).limits bytes nowNs)) 0

/-- The second phase: a charge at every active level. -/
def chargeLevels (bytes nowNs : ℕ) (levels : List Cgroup) : IoState :=
  levels.foldl (fun s c => Function.update s c ((s c).charge bytes nowNs)) s

/-- `charge_io`; `origin` is what `lookup_cgroup` found. -/
def chargeIo (bytes nowNs : ℕ) : IoState × IoThrottleStatus :=
  if bytes = 0 then (s, .allowed)
  else
    match origin with
    | none => (s, .unlimited)
    | some origin =>
      match collectControllerChain controller origin with
      | .error _ => (s, .throttled usizeMax)
      | .ok chain =>
        let levels := s.activeLevels chain
        if levels.isEmpty then (s, .unlimited)
        else
          let overall := s.overallThrottleUntil bytes nowNs levels
          if overall ≠ 0 then (s, .throttled overall)
          else (s.chargeLevels bytes nowNs levels, .allowed)

/-- One iteration of `wait_for_io_window`: `clock` gives `current_timestamp_ms` at each reading, the
state counts the readings. -/
def waitIteration (bytes : ℕ) (clock : ℕ → ℕ) :
    IoState × ℕ × ℕ → Iter (IoState × ℕ × ℕ) (IoState × IoThrottleStatus)
  | (s, nowNs, readings) =>
    match s.chargeIo controller origin bytes nowNs with
    | (s, .throttled _) =>
      let next := saturatingMul (clock readings) 1000000
      .next (s, max next (saturatingAdd nowNs 1000000), readings + 1)
    | (s, .allowed) => .done (s, .allowed)
    | (s, .unlimited) => .done (s, .allowed)

/-- `wait_for_io_window` returns, with a clock. -/
def WaitForIoWindowReturns (bytes : ℕ) (clock : ℕ → ℕ) : Prop :=
  ∃ n r, Loop.Runs (waitIteration controller origin bytes clock) n
    (s, saturatingMul (clock 0) 1000000, 1) r

end IoState

/-! ## Runs -/

/-- A call of `charge_io`, or a change of the limits of a node. -/
inductive IoEvent where
  | chargeIo (origin : Option Cgroup) (bytes nowNs : ℕ)
  | setLimit (node : Cgroup) (limits : IoLimits)

namespace IoState

/-- What an event does. -/
def exec (controller : Cgroup → Bool) (s : IoState) : IoEvent → IoState
  | .chargeIo origin bytes nowNs => (s.chargeIo controller origin bytes nowNs).1
  | .setLimit node limits => Function.update s node { s node with limits }

/-- The state after a run. -/
def run (controller : Cgroup → Bool) (s : IoState) (events : List IoEvent) : IoState :=
  events.foldl (exec controller) s

/-- Fresh nodes with their limits. -/
def fresh (limits : Cgroup → IoLimits) : IoState :=
  fun c => { limits := limits c, bucket := .new, ioThrottleEvents := 0 }

end IoState

end Nilix.Cg
