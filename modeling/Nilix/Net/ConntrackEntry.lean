import Mathlib.Data.Prod.Lex
import Nilix.Foundation.Machine

/-!
# Connection tracking: flows and their state machines

`kernel/net/src/conntrack.rs`: the normalised flow key, the protocol states with their timeouts, the
tracked entry, and the transition functions.  Ingress runs the TCP machine with the handshake
evidence the entry has; egress runs it with the evidence that queueing the packet would add.

Times are `u64` milliseconds, identifiers and ports are numbers, and an address is the number its
four octets write, most significant first, so that the order of arrays is the order of numbers.
-/

namespace Nilix.Net.Ct

/-! ## Constants -/

def ctFlowChargeBytes : ℕ := 1024

/-- `CT_HEAP_BUDGET_BYTES`: the hard floor of the conntrack slot. -/
def ctHeapBudgetBytes : ℕ := 256 * 1024

def ctMaxEntries : ℕ := ctHeapBudgetBytes / ctFlowChargeBytes

def ctMaxEntriesPerNs : ℕ := ctMaxEntries / 4

def ctRootNs : ℕ := 0

def ctRootReserve : ℕ := ctMaxEntriesPerNs

def ctUdpStreamMs : ℕ := 2000

def ctIcmpTimeoutMs : ℕ := 30000

def ctUdpTimeoutUnrepliedMs : ℕ := 30000

def ctUdpTimeoutRepliedMs : ℕ := 180000

def ctSweepBudget : ℕ := 256

def ctCapacityPrepareRetries : ℕ := 16

def ipprotoIcmp : ℕ := 1

def ipprotoTcp : ℕ := 6

def ipprotoUdp : ℕ := 17

/-! ## Flow keys -/

structure FlowKey where
  netNsId : ℕ
  proto : ℕ
  ipLo : ℕ
  ipHi : ℕ
  portLo : ℕ
  portHi : ℕ
deriving DecidableEq

/-- The fields in the order the derived `Ord` compares them. -/
def FlowKey.fields (k : FlowKey) : ℕ ×ₗ ℕ ×ₗ ℕ ×ₗ ℕ ×ₗ ℕ ×ₗ ℕ :=
  toLex (k.netNsId, toLex (k.proto, toLex (k.ipLo, toLex (k.ipHi, toLex (k.portLo, k.portHi)))))

/-- The fields that order the keys determine them. -/
lemma FlowKey.fields_injective : Function.Injective FlowKey.fields := by
  rintro ⟨a1, a2, a3, a4, a5, a6⟩ ⟨b1, b2, b3, b4, b5, b6⟩ h
  simpa [FlowKey.fields] using h

instance : LinearOrder FlowKey := LinearOrder.lift' FlowKey.fields FlowKey.fields_injective

inductive ConntrackDir where
  | original
  | reply
deriving DecidableEq

/-- `FlowKey::from_packet`: both directions of a flow share one key. -/
def FlowKey.fromPacket (netNsId proto srcIp dstIp srcPort dstPort : ℕ) : FlowKey × ConntrackDir :=
  if toLex (srcIp, srcPort) ≤ toLex (dstIp, dstPort) then
    (⟨netNsId, proto, srcIp, dstIp, srcPort, dstPort⟩, .original)
  else (⟨netNsId, proto, dstIp, srcIp, dstPort, srcPort⟩, .reply)

/-! ## Protocol states -/

inductive TcpCtState where
  | none
  | synSent
  | synRecv
  | established
  | finWait
  | finWait2
  | closeWait
  | lastAck
  | timeWait
  | close
deriving DecidableEq

def TcpCtState.timeoutMs : TcpCtState → ℕ
  | .none => 10000
  | .synSent => 60000
  | .synRecv => 60000
  | .established => 7200000
  | .finWait => 60000
  | .finWait2 => 60000
  | .closeWait => 60000
  | .lastAck => 30000
  | .timeWait => 120000
  | .close => 10000

inductive UdpCtState where
  | unreplied
  | replied
deriving DecidableEq

def UdpCtState.timeoutMs : UdpCtState → ℕ
  | .unreplied => ctUdpTimeoutUnrepliedMs
  | .replied => ctUdpTimeoutRepliedMs

inductive IcmpCtState where
  | echoRequest
  | echoReply
deriving DecidableEq

inductive CtProtoState where
  | tcp (s : TcpCtState)
  | udp (s : UdpCtState)
  | icmp (s : IcmpCtState)
  | other
deriving DecidableEq

def CtProtoState.timeoutMs : CtProtoState → ℕ
  | .tcp s => s.timeoutMs
  | .udp s => s.timeoutMs
  | .icmp _ => ctIcmpTimeoutMs
  | .other => ctUdpTimeoutUnrepliedMs

/-- `matches!(state, CtProtoState::Udp(_))`. -/
def CtProtoState.isUdp : CtProtoState → Bool
  | .udp _ => true
  | _ => false

inductive CtDecision where
  | established
  | new
  | related
  | invalid
deriving DecidableEq

inductive TcpLocalHandshake where
  | none
  | synQueued
  | synAckQueued
  | complete
deriving DecidableEq

structure L4Meta where
  tcpFlags : UInt8
  payloadLen : ℕ
deriving DecidableEq

variable (l4 : L4Meta)

def L4Meta.isSyn : Bool := l4.tcpFlags &&& 0x02 != 0

def L4Meta.isAck : Bool := l4.tcpFlags &&& 0x10 != 0

def L4Meta.isFin : Bool := l4.tcpFlags &&& 0x01 != 0

def L4Meta.isRst : Bool := l4.tcpFlags &&& 0x04 != 0

/-! ## Entries -/

structure PendingEgress where
  token : ℕ
  newState : CtProtoState
  decision : CtDecision
  stateDir : ConntrackDir
  payloadLen : ℕ
  nowMs : ℕ
  tcpHandshake : TcpLocalHandshake
deriving DecidableEq

structure ConntrackEntry where
  key : FlowKey
  state : CtProtoState
  lastSeenMs : ℕ
  bytesOrig : ℕ
  bytesReply : ℕ
  packetsOrig : ℕ
  packetsReply : ℕ
  createdMs : ℕ
  seenReply : Bool
  initiatorDir : ConntrackDir
  tcpLocalHandshake : TcpLocalHandshake
  tcpGeneration : ℕ
  pendingEgress : Option PendingEgress
  localOrigin : Bool
deriving DecidableEq

namespace ConntrackEntry

def new (key : FlowKey) (state : CtProtoState) (nowMs : ℕ) (initiatorDir : ConntrackDir) :
    ConntrackEntry where
  key := key
  state := state
  lastSeenMs := nowMs
  bytesOrig := 0
  bytesReply := 0
  packetsOrig := 0
  packetsReply := 0
  createdMs := nowMs
  seenReply := false
  initiatorDir := initiatorDir
  tcpLocalHandshake := .none
  tcpGeneration := 0
  pendingEgress := none
  localOrigin := false

variable (e : ConntrackEntry) (dir : ConntrackDir)

def isExpired (nowMs : ℕ) : Bool :=
  e.state.timeoutMs < nowMs - e.lastSeenMs

def replaceable : Bool :=
  match e.state with
  | .tcp .established | .tcp .finWait | .tcp .finWait2 | .tcp .closeWait | .tcp .lastAck => false
  | .tcp _ => true
  | .udp .unreplied => true
  | .udp .replied => e.lastSeenMs - e.createdMs < ctUdpStreamMs
  | .icmp _ | .other => true

def updateStats (bytes nowMs : ℕ) : ConntrackEntry :=
  match dir with
  | .original =>
    { e with
      lastSeenMs := nowMs
      bytesOrig := saturatingAdd e.bytesOrig bytes
      packetsOrig := saturatingAdd e.packetsOrig 1 }
  | .reply =>
    { e with
      lastSeenMs := nowMs
      bytesReply := saturatingAdd e.bytesReply bytes
      packetsReply := saturatingAdd e.packetsReply 1
      seenReply := true }

/-- `pending_egress = Some(pending)`. -/
def withPending (pending : PendingEgress) (e : ConntrackEntry) : ConntrackEntry :=
  { e with pendingEgress := some pending }

/-- The direction of a packet relative to the initiator of the flow. -/
def stateDir : ConntrackDir :=
  if dir = e.initiatorDir then .original else .reply

/-- The counters of a packet leave the state, the evidence and the pending packet. -/
@[simp] lemma updateStats_frame (bytes nowMs : ℕ) :
    (e.updateStats dir bytes nowMs).state = e.state ∧
    (e.updateStats dir bytes nowMs).tcpLocalHandshake = e.tcpLocalHandshake ∧
    (e.updateStats dir bytes nowMs).tcpGeneration = e.tcpGeneration ∧
    (e.updateStats dir bytes nowMs).pendingEgress = e.pendingEgress := by
  cases dir <;> exact ⟨rfl, rfl, rfl, rfl⟩

end ConntrackEntry

/-! ## Transitions -/

/-- The state part of `tcp_transition`, for packets without RST. -/
def tcpNextState (state : TcpCtState) (localHandshake : TcpLocalHandshake) (dir : ConntrackDir)
    (l4 : L4Meta) : TcpCtState :=
  match state, dir with
  | .synSent, .reply =>
    if (localHandshake = .synQueued ∨ localHandshake = .synAckQueued) ∧ l4.isSyn ∧ l4.isAck then
      .synRecv
    else if localHandshake = .synQueued ∧ l4.isSyn ∧ ¬ l4.isAck then .synRecv
    else .synSent
  | .synRecv, .original =>
    if localHandshake = .complete ∧ l4.isAck ∧ ¬ l4.isSyn then .established else .synRecv
  | .established, .original => if l4.isFin then .finWait else .established
  | .established, .reply => if l4.isFin then .closeWait else .established
  | .finWait, .reply =>
    if l4.isFin ∧ l4.isAck then .timeWait
    else if l4.isFin then .lastAck
    else if l4.isAck then .finWait2
    else .finWait
  | .finWait2, .reply => if l4.isFin then .timeWait else .finWait2
  | .closeWait, .original => if l4.isFin then .lastAck else .closeWait
  | .lastAck, _ => if l4.isAck then .timeWait else .lastAck
  | state, _ => state

/-- The decision part of `tcp_transition`, from the states after and before. -/
def tcpDecision (newState state : TcpCtState) (l4 : L4Meta) : CtDecision :=
  let isPureSyn := l4.isSyn && !l4.isAck
  match newState, state with
  | .synSent, _ | .synRecv, _ => .new
  | .none, _ => .invalid
  | .close, .close | .timeWait, .timeWait => .invalid
  | .finWait, .finWait | .finWait2, .finWait2 | .closeWait, .closeWait | .lastAck, .lastAck =>
    if isPureSyn then .invalid else .established
  | _, _ => .established

/-- `tcp_transition`: RST is ignored, since its sequence number cannot be validated here. -/
def tcpTransition (state : TcpCtState) (localHandshake : TcpLocalHandshake) (dir : ConntrackDir)
    (l4 : L4Meta) : CtProtoState × CtDecision :=
  if l4.isRst then (.tcp state, .related)
  else
    let newState := tcpNextState state localHandshake dir l4
    (.tcp newState, tcpDecision newState state l4)

def udpTransition (state : UdpCtState) (dir : ConntrackDir) : CtProtoState × CtDecision :=
  let newState := match state, dir with
    | .unreplied, .reply => .replied
    | state, _ => state
  (.udp newState, match newState with
    | .unreplied => .new
    | .replied => .established)

def icmpTransition (state : IcmpCtState) (dir : ConntrackDir) : CtProtoState × CtDecision :=
  let newState := match state, dir with
    | .echoRequest, .reply => .echoReply
    | state, _ => state
  (.icmp newState, match newState with
    | .echoRequest => .new
    | .echoReply => .established)

variable (e : ConntrackEntry) (dir : ConntrackDir) (proto : ℕ)

/-- `transition_state_with_handshake`: a protocol that does not match the state fails closed. -/
def transitionStateWithHandshake (l4 : L4Meta) (tcpHandshake : TcpLocalHandshake) :
    CtProtoState × CtDecision :=
  match e.state with
  | .tcp s => if proto = ipprotoTcp then tcpTransition s tcpHandshake dir l4 else (e.state, .invalid)
  | .udp s => if proto = ipprotoUdp then udpTransition s dir else (e.state, .invalid)
  | .icmp s => if proto = ipprotoIcmp then icmpTransition s dir else (e.state, .invalid)
  | .other => (e.state, .invalid)

/-- `transition_state`: an ingress FIN is ignored, since only the socket can validate it. -/
def transitionState (l4 : L4Meta) : CtProtoState × CtDecision :=
  transitionStateWithHandshake e dir proto ⟨l4.tcpFlags &&& ~~~0x01, l4.payloadLen⟩
    e.tcpLocalHandshake

/-- `egress_tcp_handshake`: the evidence once this packet is queued. -/
def egressTcpHandshake (l4 : L4Meta) : TcpLocalHandshake :=
  if proto ≠ ipprotoTcp then e.tcpLocalHandshake
  else if l4.isSyn ∧ ¬ l4.isAck then
    match e.tcpLocalHandshake with
    | .none => .synQueued
    | committed => committed
  else if l4.isSyn ∧ l4.isAck then .synAckQueued
  else if l4.isAck ∧ ¬ l4.isSyn ∧ e.state = .tcp .synRecv ∧ dir = .original ∧
      e.tcpLocalHandshake = .synQueued then .complete
  else e.tcpLocalHandshake

/-- The state a packet without an entry creates; `none` for TCP that is not a pure SYN. -/
def initialState (l4 : L4Meta) : Option CtProtoState :=
  if proto = ipprotoTcp then if l4.isSyn ∧ ¬ l4.isAck then some (.tcp .synSent) else none
  else if proto = ipprotoUdp then some (.udp .unreplied)
  else if proto = ipprotoIcmp then some (.icmp .echoRequest)
  else some .other

end Nilix.Net.Ct
