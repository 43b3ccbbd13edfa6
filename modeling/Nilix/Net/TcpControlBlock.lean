import Nilix.Foundation.Serial
import Nilix.Net.Admitted

/-!
# The control block of a TCP connection

The state of a connection, as far as sending, acknowledging and receiving data read or change it,
with the functions that look at it or change one aspect of it: the comparison of sequence numbers,
the send window, the retransmission timeout and the congestion window after an idle time.
-/

namespace Nilix.Net.Tcp

open Serial

/-! ## Sequence numbers -/

/-- A TCP sequence number. -/
abbrev Seq := BitVec 32

def seqLt (a b : Seq) : Bool := Serial.lt a b

def seqLe (a b : Seq) : Bool := Serial.le a b

def seqGt (a b : Seq) : Bool := Serial.gt a b

def seqGe (a b : Seq) : Bool := Serial.ge a b

/-- `seq_in_window`: within `[left, left + size)`. -/
def seqInWindow (seq left : Seq) (size : ℕ) : Bool :=
  let right := left + BitVec.ofNat 32 size
  if size = 0 then false
  else if seqLe left right then seqGe seq left && seqLt seq right
  else seqGe seq left || seqLt seq right

/-! ## Positions

The sequence numbers of a direction of a connection are positions of a stream of bytes, counted from
its first byte.  Comparisons of near positions are right. -/

/-- The sequence number of a position. -/
def seqAt (base : Seq) (pos : ℕ) : Seq := base + BitVec.ofNat 32 pos

variable (base : Seq)

lemma seqAt_add (x y : ℕ) :
    seqAt base x + BitVec.ofNat 32 y = seqAt base (x + y) := add_ofNat_add base x y

variable {x y : ℕ}

lemma dist_seqAt (hle : x ≤ y) (hlt : y < x + 2 ^ 31) :
    Serial.dist (seqAt base x) (seqAt base y) = y - x := by
  obtain ⟨d, rfl⟩ := Nat.exists_eq_add_of_le hle
  rw [← seqAt_add, dist_add_ofNat _ (by omega), Nat.add_sub_cancel_left]

/-- The distance to a position further left wraps around. -/
lemma le_dist_seqAt (hlt : x < y) (hnear : y < x + 2 ^ 31) :
    2 ^ 31 ≤ Serial.dist (seqAt base y) (seqAt base x) := by
  have hd := dist_seqAt base hlt.le hnear
  have hne : seqAt base x ≠ seqAt base y := by
    intro heq
    rw [heq, Serial.dist, BitVec.sub_self] at hd
    change 0 = _ at hd
    omega
  have hsum := dist_add_dist hne
  omega

section

variable (h : Serial.Near 32 x y)
include h

lemma seqLt_seqAt : seqLt (seqAt base x) (seqAt base y) = decide (x < y) := by
  rw [Bool.eq_iff_iff, decide_eq_true_iff]
  exact lt_add_iff (by decide) base h

lemma seqLe_seqAt : seqLe (seqAt base x) (seqAt base y) = decide (x ≤ y) := by
  rw [Bool.eq_iff_iff, decide_eq_true_iff]
  exact le_add_iff (by decide) base h

lemma seqGt_seqAt : seqGt (seqAt base x) (seqAt base y) = decide (y < x) := by
  rw [Bool.eq_iff_iff, decide_eq_true_iff]
  exact gt_add_iff (by decide) base h

lemma seqGe_seqAt : seqGe (seqAt base x) (seqAt base y) = decide (y ≤ x) := by
  rw [Bool.eq_iff_iff, decide_eq_true_iff]
  exact ge_add_iff (by decide) base h

lemma seqAt_inj :
    seqAt base x = seqAt base y ↔ x = y := add_ofNat_inj (by decide) base h

end

/-! ## Constants -/

def tcpEthernetMss : ℕ := 1460

def tcpMaxSendSize : ℕ := 64 * 1024

def tcpMaxSendBufferBytes : ℕ := 4 * 1024 * 1024

def tcpMaxRecvBufferBytes : ℕ := 256 * 1024

def tcpDefaultRcvWindowBytes : ℕ := 256 * 1024

def tcpOooMaxSegments : ℕ := 64

def tcpMaxWindowScale : ℕ := 14

def tcpMaxScaledWindow : ℕ := 65535 <<< tcpMaxWindowScale

def tcpMinRtoMs : ℕ := 1000

def tcpMaxRtoMs : ℕ := 120000

/-! ## The control block -/

inductive TcpState
  | closed
  | listen
  | synSent
  | synReceived
  | established
  | finWait1
  | finWait2
  | closeWait
  | closing
  | lastAck
  | timeWait
  deriving DecidableEq, Inhabited

def TcpState.canSend : TcpState → Bool
  | established | closeWait => true
  | _ => false

inductive TcpCongestionState
  | slowStart
  | congestionAvoidance
  | fastRecovery
  deriving DecidableEq, Inhabited

/-- `TcpSegment`: sent data that is kept until it is acknowledged. -/
structure TcpSegment where
  /-- The sequence number of the first byte. -/
  seq : Seq
  data : List UInt8
  sentAt : ℕ
  retransCount : ℕ
  sacked : Bool
  lost : Bool
  retransmitPending : Bool
  retransmitInFlight : Bool
  retransmitRequiresRto : Bool
  txRejectCount : ℕ
  retryNotBeforeMs : ℕ

/-- `OooSegment`: a contiguous range of data that was received out of order. -/
structure OooSegment where
  seq : Seq
  data : List UInt8
  /-- A FIN follows the data. -/
  fin : Bool

structure TcpControlBlock where
  state : TcpState
  /-- The oldest unacknowledged sequence number. -/
  sndUna : Seq
  /-- The next sequence number to send. -/
  sndNxt : Seq
  /-- The window that the peer advertises. -/
  sndWnd : ℕ
  cwnd : ℕ
  ssthresh : ℕ
  congestionState : TcpCongestionState
  sndMss : ℕ
  rtoMs : ℕ
  srttUs : ℕ
  rttvarUs : ℕ
  /-- Consecutive retransmissions. -/
  retries : ℕ
  /-- The segments that are not acknowledged. -/
  sendBuffer : AdmittedVec TcpSegment
  sendBufferBytes : ℕ
  /-- What the connection has charged to its namespace. -/
  nsChargedSendBytes : ℕ
  /-- The initial sequence number of the peer. -/
  irs : Seq
  /-- The next sequence number expected from the peer. -/
  rcvNxt : Seq
  rcvWnd : ℕ
  rcvWscale : ℕ
  wscaleRequested : Bool
  wscaleReceived : Bool
  /-- Received in order and not read yet. -/
  recvBuffer : List UInt8
  oooQueue : AdmittedVec OooSegment
  oooBytes : ℕ
  finReceived : Bool
  lastActivity : ℕ
  keepaliveProbesSent : ℕ
  /-- Counts the acknowledgements that made progress, as a `u64`. -/
  peerAckGeneration : ℕ
  deriving Inhabited

namespace TcpControlBlock

variable (tcb : TcpControlBlock)

def bytesInFlight : ℕ := (tcb.sndNxt - tcb.sndUna).toNat

def sendWindowAvailable : ℕ :=
  min tcb.sndWnd (max tcb.cwnd tcb.sndMss) - tcb.bytesInFlight

def effectiveRcvWscale : ℕ :=
  if tcb.wscaleRequested && tcb.wscaleReceived then tcb.rcvWscale else 0

end TcpControlBlock

/-- Addition on `u32` that stops at the largest value. -/
def saturatingAdd32 (a b : ℕ) : ℕ := min (a + b) u32Max

def encodeWindow (avail scale : ℕ) (avoidZero : Bool) : ℕ :=
  let shift := min scale tcpMaxWindowScale
  let window := avail >>> shift
  let window := if avoidZero && window == 0 && 0 < avail then 1 else window
  min window 65535

variable (tcb : TcpControlBlock)

def currentAdvWindow : ℕ :=
  let consumed := saturatingAdd32 tcb.recvBuffer.length tcb.oooBytes
  encodeWindow (tcb.rcvWnd - consumed) tcb.effectiveRcvWscale true

def decodeWindow (raw scale : ℕ) : ℕ := min (raw <<< min scale tcpMaxWindowScale) tcpMaxScaledWindow

def initialCwnd (smss : ℕ) : ℕ := min (4 * smss) (max (2 * smss) 4380)

/-- The loop of `validate_cwnd_after_idle`: halve the window once for each idle timeout. -/
def decayCwnd (floor : ℕ) : (rounds cwnd : ℕ) → ℕ
  | 0, cwnd => cwnd
  | rounds + 1, cwnd =>
    if cwnd ≤ floor then cwnd else decayCwnd floor rounds (max (cwnd / 2) floor)

def validateCwndAfterIdle (nowMs : ℕ) : TcpControlBlock :=
  if tcb.lastActivity = 0 ∨ tcb.rtoMs = 0 then tcb
  else if 0 < tcb.bytesInFlight then tcb
  else
    let idleMs := nowMs - tcb.lastActivity
    if idleMs < tcb.rtoMs then tcb
    else
      let idleRtos := idleMs / tcb.rtoMs
      let first := min tcb.cwnd (initialCwnd tcb.sndMss)
      let newCwnd :=
        if 1 < idleRtos ∧ tcb.ssthresh < first then
          decayCwnd (max (max tcb.ssthresh tcb.sndMss) 1) (idleRtos - 1) first
        else first
      if newCwnd < tcb.cwnd then
        { tcb with
          cwnd := newCwnd
          congestionState := if newCwnd ≤ tcb.ssthresh then .slowStart else tcb.congestionState }
      else tcb

/-- `update_rtt`: smooth the round-trip time and set the retransmission timeout from it. -/
def updateRtt (sampleUs : ℕ) : TcpControlBlock :=
  if sampleUs = 0 ∨ 600000000 < sampleUs then tcb
  else
    let first := tcb.srttUs = 0
    let rttErr := if sampleUs < tcb.srttUs then tcb.srttUs - sampleUs else sampleUs - tcb.srttUs
    let rttvarUs := if first then sampleUs / 2 else (3 * tcb.rttvarUs + rttErr) / 4
    let srttUs := if first then sampleUs else (7 * tcb.srttUs + sampleUs) / 8
    let rtoUs := saturatingAdd srttUs (max 100000 (min (4 * rttvarUs) usizeMax))
    { tcb with
      srttUs := srttUs
      rttvarUs := rttvarUs
      rtoMs := min (max (rtoUs / 1000) tcpMinRtoMs) tcpMaxRtoMs }

/-! ## The advertised window -/

lemma decodeWindow_eq {raw scale : ℕ} (hraw : raw ≤ 65535) (hscale : scale ≤ tcpMaxWindowScale) :
    decodeWindow raw scale = raw * 2 ^ scale := by
  rw [decodeWindow, min_eq_left hscale, tcpMaxScaledWindow, Nat.shiftLeft_eq, Nat.shiftLeft_eq]
  exact min_eq_left (Nat.mul_le_mul hraw (Nat.pow_le_pow_right (by decide) hscale))

/-- The free space in units of the scale; some free space is at least one unit. -/
lemma encodeWindow_eq {scale : ℕ} (avail : ℕ) (hscale : scale ≤ tcpMaxWindowScale) :
    encodeWindow avail scale true =
      if 0 < avail ∧ avail < 2 ^ scale then 1 else min (avail / 2 ^ scale) 65535 := by
  have hzero : avail / 2 ^ scale = 0 ↔ avail < 2 ^ scale := by simp [Nat.div_eq_zero_iff]
  by_cases hsmall : 0 < avail ∧ avail < 2 ^ scale
  · simp [encodeWindow, min_eq_left hscale, Nat.shiftRight_eq_div_pow, hsmall]
  · have hkeep : ¬ (avail < 2 ^ scale ∧ 0 < avail) := fun h => hsmall h.symm
    simp [encodeWindow, min_eq_left hscale, Nat.shiftRight_eq_div_pow, hzero, hsmall, hkeep]

/-- The space that is left for data of the peer. -/
def freeSpace : ℕ := tcb.rcvWnd - tcb.recvBuffer.length - tcb.oooBytes

/-- The window that the peer reads is within the free space, and less than a unit of the scale below
it unless the field is full. -/
def AdvertisesWithin : Prop :=
  let window := decodeWindow (currentAdvWindow tcb) tcb.effectiveRcvWscale
  window ≤ freeSpace tcb ∧
    (currentAdvWindow tcb = 65535 ∨ freeSpace tcb - window < 2 ^ tcb.effectiveRcvWscale)

/-- The advertised window is within the free space if and only if there is none or at least one unit
of the scale: less than a unit is advertised as a whole one, to avoid a window of zero. -/
theorem advertisesWithin_iff (tcb : TcpControlBlock) (hwnd : tcb.rcvWnd ≤ u32Max)
    (hscale : tcb.rcvWscale ≤ tcpMaxWindowScale)
    (hfits : tcb.recvBuffer.length + tcb.oooBytes ≤ tcb.rcvWnd) :
    AdvertisesWithin tcb ↔ freeSpace tcb = 0 ∨ 2 ^ tcb.effectiveRcvWscale ≤ freeSpace tcb := by
  have hscale' : tcb.effectiveRcvWscale ≤ tcpMaxWindowScale := by
    unfold TcpControlBlock.effectiveRcvWscale
    split <;> omega
  have hadv : currentAdvWindow tcb = encodeWindow (freeSpace tcb) tcb.effectiveRcvWscale true := by
    rw [currentAdvWindow, saturatingAdd32, min_eq_left (hfits.trans hwnd), freeSpace, Nat.sub_add_eq]
  have hwindow : decodeWindow (currentAdvWindow tcb) tcb.effectiveRcvWscale =
      currentAdvWindow tcb * 2 ^ tcb.effectiveRcvWscale :=
    decodeWindow_eq (min_le_right _ _) hscale'
  unfold AdvertisesWithin
  rw [hwindow, hadv, encodeWindow_eq (freeSpace tcb) hscale']
  have hunit : 0 < 2 ^ tcb.effectiveRcvWscale := Nat.two_pow_pos _
  generalize 2 ^ tcb.effectiveRcvWscale = unit at hunit ⊢
  generalize freeSpace tcb = free
  split_ifs with hsmall
  · -- the one unit that avoids a zero window is more than there is
    constructor
    · intro h
      omega
    · intro h
      omega
  · have hmul := Nat.div_mul_le_self free unit
    have hlt := Nat.lt_div_mul_add (a := free) hunit
    constructor
    · intro
      omega
    · intro
      refine ⟨(Nat.mul_le_mul_right _ (min_le_left _ _)).trans hmul, ?_⟩
      rcases le_total 65535 (free / unit) with hfull | hroom
      · exact .inl (min_eq_right hfull)
      · rw [min_eq_left hroom]
        omega

/-- The window of the source with its scale, and one free byte. -/
def oneByteFree : TcpControlBlock :=
  { (default : TcpControlBlock) with
    rcvWnd := tcpDefaultRcvWindowBytes
    rcvWscale := 3
    wscaleRequested := true
    wscaleReceived := true
    oooBytes := tcpDefaultRcvWindowBytes - 1 }

theorem advertisesWithin_eight_free :
    AdvertisesWithin { oneByteFree with oooBytes := tcpDefaultRcvWindowBytes - 8 } :=
  (advertisesWithin_iff _ (by decide) (by decide) (by decide)).mpr (by decide)

/-- Eight bytes are advertised where one is free. -/
theorem not_advertisesWithin_oneByteFree :
    oneByteFree.recvBuffer.length + oneByteFree.oooBytes ≤ oneByteFree.rcvWnd ∧
      decodeWindow (currentAdvWindow oneByteFree) oneByteFree.effectiveRcvWscale = 8 ∧
      freeSpace oneByteFree = 1 ∧ ¬ AdvertisesWithin oneByteFree := by
  unfold AdvertisesWithin
  decide

end Nilix.Net.Tcp
