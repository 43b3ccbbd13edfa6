import Nilix.Foundation.Loop
import Nilix.Net.RecvBudget
import Nilix.Net.TcpControlBlock

/-!
# Sending and acknowledging data

`SocketTable::tcp_send` cuts a payload into segments, keeps a copy of each for retransmission and
emits it; `handle_ack` drops the copies that are acknowledged.  Between the check of the quota and
the segmentation the whole payload is charged to the namespace, and afterwards the charge is
reconciled with what was really buffered.

Every allocation is answered by the environment, chunk by chunk, so that the segmentation can stop
after any of them.  The endpoints and the security hook are inputs.
-/

namespace Nilix.Net.Tcp

open Recv (NamespaceId Counts)

/-! ## Sockets and packets -/

inductive SocketType
  | stream
  | dgram
  deriving DecidableEq

inductive SocketProtocol
  | tcp
  | udp
  deriving DecidableEq

inductive LsmError
  | denied
  | internal

/-- The variants of `SocketError` that sending returns. -/
inductive SocketError
  | invalidType
  | closed
  | timeout
  | messageTooLarge
  | wouldBlock
  | invalidState
  | lsm (e : LsmError)
  | noMemory

/-- An IPv4 address and a port. -/
structure Endpoint where
  ip : BitVec 32
  port : BitVec 16

/-- The fields of a socket that sending reads; an endpoint is absent while its address or its port
is. -/
structure Socket where
  ty : SocketType
  proto : SocketProtocol
  closed : Bool
  netNsId : NamespaceId
  localEnd : Option Endpoint
  remoteEnd : Option Endpoint

def tcpFlagAck : BitVec 8 := 0x10

def tcpFlagPsh : BitVec 8 := 0x08

def tcpHeaderMinLen : ℕ := 20

/-- `WirePacket`: the fields of the serialised header, and the payload behind it. -/
structure WirePacket where
  src : Endpoint
  dst : Endpoint
  seqNum : Seq
  ackNum : Seq
  flags : BitVec 8
  window : ℕ
  payload : List UInt8

/-- `try_build_tcp_segment`; `admitted` is the answer to the request for the packet's backing. -/
def tryBuildTcpSegment (admitted : Bool) (src dst : Endpoint) (seqNum ackNum : Seq)
    (flags : BitVec 8) (window : ℕ) (payload : List UInt8) : Option WirePacket := do
  let segmentLen ← checkedAdd tcpHeaderMinLen payload.length
  if 65535 < segmentLen then none
  else if admitted then some ⟨src, dst, seqNum, ackNum, flags, window, payload⟩ else none

/-! ## The charge of the namespace -/

def maxSendBytesPerNs : ℕ := 64 * 1024 * 1024

/-- `expect` in `reconcile_ns_send`: the row of a namespace whose charge grows is missing. -/
inductive SendFault
  | slotNotPrepared

variable (counts : Counts) (nsId : NamespaceId)

/-- Set the row of a namespace, which is added if there is none. -/
def setRow (env : AllocEnv) (projected : ℕ) : Except SocketError Unit × Counts :=
  if (counts.get nsId).isSome then (.ok (), counts.modify nsId fun _ => projected)
  else match counts.ensureCapacityFor env 1 with
    | none => (.error .noMemory, counts)
    | some counts1 => match counts1.insertUniqueReserved nsId projected with
      | none => (.error .noMemory, counts1)
      | some counts2 => (.ok (), counts2)

def tryChargeNsSend (tcb : TcpControlBlock) (additional : ℕ) (env : AllocEnv) :
    Except SocketError Unit × Counts × TcpControlBlock :=
  if nsId = 0 ∨ additional = 0 then (.ok (), counts, tcb)
  else match checkedAdd ((counts.get nsId).getD 0) additional with
    | none => (.error .wouldBlock, counts, tcb)
    | some projected =>
      if maxSendBytesPerNs < projected then (.error .wouldBlock, counts, tcb)
      else match setRow counts nsId env projected with
        | (.error e, counts') => (.error e, counts', tcb)
        | (.ok (), counts') => (.ok (), counts',
            { tcb with nsChargedSendBytes := saturatingAdd tcb.nsChargedSendBytes additional })

def reconcileNsSend (tcb : TcpControlBlock) : Except SendFault (Counts × TcpControlBlock) :=
  let live := tcb.sendBufferBytes
  let charged := tcb.nsChargedSendBytes
  if nsId = 0 then .ok (counts, { tcb with nsChargedSendBytes := live })
  else if live = charged then .ok (counts, tcb)
  else if charged < live then
    match counts.get nsId with
    | none => .error .slotNotPrepared
    | some e => .ok (counts.modify nsId fun _ => saturatingAdd e (live - charged),
        { tcb with nsChargedSendBytes := live })
  else .ok (Recv.releaseRow counts nsId (charged - live), { tcb with nsChargedSendBytes := live })

/-! ## Segmentation -/

/-- The answers of the environment while one chunk is sent: to the slot of the packet in the list of
packets (twice: reserving it and pushing), to the backing of the packet, to the slot in the send
buffer and to the copy. -/
structure ChunkEnv where
  slot : AllocEnv
  packet : Bool
  queue : AllocEnv
  copy : AllocEnv
  push : AllocEnv

/-- What the segmentation reads. -/
structure SendCtx where
  src : Endpoint
  dst : Endpoint
  baseSeq : Seq
  ack : Seq
  advertisedWnd : ℕ
  nowMs : ℕ
  payload : List UInt8
  chunk : ℕ → ChunkEnv

/-- What the segmentation changes. -/
structure SendState where
  /-- The bytes of the payload that are buffered. -/
  offset : ℕ
  sendBuffer : AdmittedVec TcpSegment
  segments : AdmittedVec WirePacket

namespace SendCtx

variable (ctx : SendCtx)

variable (offset : ℕ)

/-- Where the chunk that starts at `offset` ends. -/
def stop : ℕ := min (offset + tcpEthernetMss) ctx.payload.length

def segPayload : List UInt8 := (ctx.payload.take (ctx.stop offset)).drop offset

/-- The sequence number of the chunk. -/
def seq : Seq := ctx.baseSeq + BitVec.ofNat 32 offset

/-- The flags of the chunk. -/
def flags : BitVec 8 :=
  tcpFlagAck ||| if ctx.segPayload offset ≠ [] ∧ ctx.stop offset = ctx.payload.length then tcpFlagPsh
    else 0

/-- The packet of the chunk. -/
def packet (offset : ℕ) : Option WirePacket :=
  tryBuildTcpSegment (ctx.chunk offset).packet ctx.src ctx.dst (ctx.seq offset) ctx.ack
    (ctx.flags offset) ctx.advertisedWnd (ctx.segPayload offset)

/-- The copy of the chunk that is kept for retransmission. -/
def segment (data : List UInt8) : TcpSegment where
  seq := ctx.seq offset
  data := data
  sentAt := ctx.nowMs
  retransCount := 0
  sacked := false
  lost := false
  retransmitPending := false
  retransmitInFlight := false
  retransmitRequiresRto := false
  txRejectCount := 0
  retryNotBeforeMs := 0

/-- One iteration of the segmentation: it leaves at the end of the payload and at every failure. -/
def sendChunk (s : SendState) : Iter SendState SendState :=
  let env := ctx.chunk s.offset
  if ctx.payload.length ≤ s.offset then .done s
  else match s.segments.tryReserve env.slot.grant env.slot.committed 1 with
    | none => .done s
    | some segments => match ctx.packet s.offset with
      | none => .done { s with segments := segments }
      | some packet => match ensureVecCapacityFor s.sendBuffer env.queue 1 with
        | none => .done { s with segments := segments }
        | some queue =>
          match AdmittedVec.tryCopyFromSlice env.copy.grant env.copy.committed
              (ctx.segPayload s.offset) with
          | none => .done { s with sendBuffer := queue, segments := segments }
          | some data => match queue.pushReserved (ctx.segment s.offset data.values) with
            | none => .done { s with sendBuffer := queue, segments := segments }
            | some sendBuffer =>
              match segments.tryPush env.push.grant env.push.committed packet with
              | none => .done { s with sendBuffer := sendBuffer, segments := segments }
              | some segments' => .next ⟨ctx.stop s.offset, sendBuffer, segments'⟩

/-- The segmentation; the fuel always suffices. -/
def sendLoop (s : SendState) : SendState :=
  (Loop.run ctx.sendChunk (ctx.payload.length + 1) s).getD s

end SendCtx

/-- What `tcp_send` leaves behind and returns. -/
structure SendOutcome where
  counts : Counts
  tcb : TcpControlBlock
  result : Except SocketError (ℕ × List WirePacket)

/-- The answers of the environment to a call of `tcp_send`. -/
structure SendEnv where
  lsm : Option LsmError
  nowMs : ℕ
  row : AllocEnv
  chunk : ℕ → ChunkEnv

/-- The part of `tcp_send` behind the charge: the segmentation, and the reconciliation with what it
buffered. -/
def segmentPayload (src dst : Endpoint) (nsId : NamespaceId) (counts : Counts)
    (tcb : TcpControlBlock) (payload : List UInt8) (env : SendEnv) :
    Except SendFault SendOutcome := do
  let ctx : SendCtx :=
    ⟨src, dst, tcb.sndNxt, tcb.rcvNxt, currentAdvWindow tcb, env.nowMs, payload, env.chunk⟩
  let s := ctx.sendLoop ⟨0, tcb.sendBuffer, .new⟩
  let tcb := { tcb with sendBuffer := s.sendBuffer }
  if s.offset = 0 then
    let (counts, tcb) ← reconcileNsSend counts nsId tcb
    .ok ⟨counts, tcb, .error .noMemory⟩
  else
    let tcb := { tcb with sendBufferBytes := saturatingAdd tcb.sendBufferBytes s.offset }
    let (counts, tcb) ← reconcileNsSend counts nsId tcb
    .ok ⟨counts,
      { tcb with
        sndNxt := ctx.baseSeq + BitVec.ofNat 32 s.offset
        lastActivity := env.nowMs },
      .ok (s.offset, s.segments.values)⟩

/-- `tcp_send` on a connection that exists. -/
def tcpSend (sock : Socket) (counts : Counts) (tcb : TcpControlBlock) (payload : List UInt8)
    (env : SendEnv) : Except SendFault SendOutcome :=
  let refuse (e : SocketError) : Except SendFault SendOutcome := .ok ⟨counts, tcb, .error e⟩
  if sock.ty ≠ .stream ∨ sock.proto ≠ .tcp then refuse .invalidType
  else if sock.closed then refuse .closed
  else if tcpMaxSendSize < payload.length then refuse .messageTooLarge
  else match sock.localEnd, sock.remoteEnd with
    | some src, some dst => match env.lsm with
      | some e => refuse (.lsm e)
      | none =>
        if !tcb.state.canSend then refuse .invalidState
        else if payload = [] then .ok ⟨counts, tcb, .ok (0, [])⟩
        else
          let tcb := validateCwndAfterIdle tcb env.nowMs
          if tcb.sendWindowAvailable < payload.length then .ok ⟨counts, tcb, .error .timeout⟩
          else match checkedAdd tcb.sendBufferBytes payload.length with
            | none => .ok ⟨counts, tcb, .error .wouldBlock⟩
            | some newTotal =>
              if tcpMaxSendBufferBytes < newTotal then .ok ⟨counts, tcb, .error .wouldBlock⟩
              else match tryChargeNsSend counts sock.netNsId tcb payload.length env.row with
                | (.error e, counts', tcb') => .ok ⟨counts', tcb', .error e⟩
                | (.ok (), counts', tcb') =>
                  segmentPayload src dst sock.netNsId counts' tcb' payload env
    | _, _ => refuse .invalidState

/-! ## Acknowledgements -/

structure AckUpdate where
  newlyAcked : ℕ
  duplicate : Bool

/-- The sequence number behind a segment. -/
def TcpSegment.endSeq (seg : TcpSegment) : Seq := seg.seq + BitVec.ofNat 32 seg.data.length

/-- The loop of `handle_ack` over the front of the send buffer, which is `segs`: it removes the
acknowledged segments and takes the first sample of the round-trip time that it can. -/
def removeAcked (ackNum : Seq) (nowMs : ℕ) :
    (segs : List TcpSegment) → (rttSampled : Bool) → TcpControlBlock → TcpControlBlock
  | [], _, tcb => tcb
  | seg :: segs, rttSampled, tcb =>
    if !seqGe ackNum seg.endSeq then tcb
    else
      let tcb := { tcb with
        sendBuffer := tcb.sendBuffer.tail
        sendBufferBytes := tcb.sendBufferBytes - seg.data.length }
      if !rttSampled && seg.retransCount == 0 then
        let rttUs := min ((nowMs - seg.sentAt) * 1000) usizeMax
        removeAcked ackNum nowMs segs true (updateRtt tcb rttUs)
      else removeAcked ackNum nowMs segs rttSampled tcb

def handleAck (tcb : TcpControlBlock) (ackNum : Seq) (nowMs : ℕ) : AckUpdate × TcpControlBlock :=
  if seqGt ackNum tcb.sndNxt then (⟨0, false⟩, tcb)
  else
    let tcb := { tcb with keepaliveProbesSent := 0, lastActivity := nowMs }
    if seqGt ackNum tcb.sndUna then
      let update : AckUpdate := ⟨(ackNum - tcb.sndUna).toNat, false⟩
      let tcb := { tcb with peerAckGeneration := (tcb.peerAckGeneration + 1) % 2 ^ 64 }
      let tcb := removeAcked ackNum nowMs tcb.sendBuffer.values false tcb
      (update, { tcb with sndUna := ackNum, retries := 0 })
    else (⟨0, ackNum == tcb.sndUna⟩, tcb)

end Nilix.Net.Tcp
