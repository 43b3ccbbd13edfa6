import Nilix.Foundation.Loop
import Nilix.Foundation.Patch
import Nilix.Net.TcpControlBlock

/-!
# Receiving data in the state `Established`

The receive path of `process_tcp_segment_inner` for an established connection: the checks of the
window and of the acknowledgement, the data in order, the out-of-order queue with its merging
insertion (`ooo_insert`) and its draining (`ooo_drain_contiguous`), the segments that overlap data
received before, and the FIN.

The answers of the allocator, of the security hook and of the gate of the namespace are the
environment.  What the acknowledgement does to the sending side is an input too; it leaves the
receiving side alone.  The packets that go back to the peer are not modelled.
-/

namespace Nilix.Net.Tcp

/-! ## The out-of-order queue -/

namespace OooSegment

variable (seg : OooSegment)

/-- The sequence number behind the data. -/
def dataEnd : Seq := seg.seq + BitVec.ofNat 32 seg.data.length

/-- The sequence number behind the data and the FIN. -/
def seqEnd : Seq := seg.dataEnd + if seg.fin then 1 else 0

end OooSegment

/-- The range that an insertion merges: `merged_start`, `merged_data_end` and `merged_fin_pos`. -/
structure MergeSpan where
  start : Seq
  dataEnd : Seq
  finPos : Option Seq
  deriving DecidableEq

namespace MergeSpan

variable (m : MergeSpan)

/-- `merged_seq_end`. -/
def seqEnd : Seq := m.dataEnd + if m.finPos.isSome then 1 else 0

variable (existing : OooSegment) (queue : List OooSegment)

/-- The segment overlaps the range or is next to it. -/
def touches : Bool :=
  seqLe m.start existing.seqEnd && seqLe existing.seq m.seqEnd

/-- `merged_fin_pos` after the segment. -/
def mergeFin : Option Seq :=
  if existing.fin then
    match m.finPos with
    | some current =>
      if seqLe current existing.dataEnd then some current else some existing.dataEnd
    | none => some existing.dataEnd
  else m.finPos

/-- The range after one segment of the queue. -/
def absorb : MergeSpan :=
  if !m.touches existing then m
  else
    let start := if seqLe existing.seq m.start then existing.seq else m.start
    let dataEnd := if seqGe existing.dataEnd m.dataEnd then existing.dataEnd else m.dataEnd
    match m.mergeFin existing with
    | some finPos => ⟨start, if seqLt finPos dataEnd then finPos else dataEnd, some finPos⟩
    | none => ⟨start, dataEnd, none⟩

/-- One step of a scan of the queue: the range after it, and whether the scan changed it. -/
def scanStep (acc : MergeSpan × Bool) (existing : OooSegment) : MergeSpan × Bool :=
  (acc.1.absorb existing, acc.2 || decide (acc.1.absorb existing ≠ acc.1))

/-- One scan of the queue. -/
def scan : MergeSpan × Bool := queue.foldl scanStep (m, false)

/-- Scan again as long as the range changes. -/
def mergeRound (m : MergeSpan) : Iter MergeSpan MergeSpan :=
  match m.scan queue with
  | (m', true) => .next m'
  | (m', false) => .done m'

/-- The complete range; every scan but the last moves an end of it, so the fuel suffices. -/
def mergeAll (m : MergeSpan) : MergeSpan :=
  (Loop.run (mergeRound queue) (2 ^ 32) m).getD m

/-- Copy the bytes of a segment into the payload of a range that starts at `start`. -/
def copyInto (start : Seq) (buf : List UInt8) (existing : OooSegment) : List UInt8 :=
  patch buf (existing.seq - start).toNat existing.data

/-- The bytes of the range: zeroes, the segments of the queue that touch the range in order, and
then the new segment. -/
def mergedData (seq : Seq) (data : List UInt8) : List UInt8 :=
  let mergedLen := (m.dataEnd - m.start).toNat
  let existing := (queue.filter m.touches).foldl (copyInto m.start) (List.replicate mergedLen 0)
  patch existing (seq - m.start).toNat data

end MergeSpan

/-- The answers of the environment to an insertion: to the copy of the payload, to the slot of the
queue and to the merged payload. -/
structure OooEnv where
  copy : AllocEnv
  queue : AllocEnv
  merged : Bool

/-- `expect` in `ooo_insert`: the slot of the merged segment is missing. -/
inductive OooFault
  | lostCapacity

variable (tcb : TcpControlBlock)

/-- The number of bytes of the window that are in use. -/
def TcpControlBlock.consumed : ℕ :=
  saturatingAdd32 (tcb.recvBuffer.length % 2 ^ 32) tcb.oooBytes

/-- The last part of `ooo_insert`: take the merged segments out of the queue and put the new one in
its place. -/
def replaceMerged (queue : AdmittedVec OooSegment) (m : MergeSpan) (newSeg : OooSegment) :
    Except OooFault (ℕ × TcpControlBlock) :=
  let removedBytes := (queue.values.filter m.touches).foldl
    (fun sum removed => saturatingAdd32 sum removed.data.length) 0
  let kept := queue.filter fun existing => !m.touches existing
  let pos := kept.values.findIdx fun s => seqGt s.seq newSeg.seq
  match kept.insert? pos newSeg with
  | none => .error .lostCapacity
  | some queue' => .ok (newSeg.data.length, { tcb with
      oooQueue := queue'
      oooBytes := saturatingAdd32 (tcb.oooBytes - removedBytes) newSeg.data.length })

/-- `ooo_insert` for a payload within the window, which is copied already. -/
def oooMerge (seq : Seq) (data : List UInt8) (fin : Bool) (env : OooEnv) :
    Except OooFault (ℕ × TcpControlBlock) :=
  let dataEnd := seq + BitVec.ofNat 32 data.length
  let m := MergeSpan.mergeAll tcb.oooQueue.values ⟨seq, dataEnd, if fin then some dataEnd else none⟩
  let overlaps := (tcb.oooQueue.values.filter m.touches).length
  let finalEntries := tcb.oooQueue.values.length - overlaps + 1
  if tcpOooMaxSegments < finalEntries then .ok (0, tcb)
  else
    let grown := if tcb.oooQueue.values.length < finalEntries then
      ensureVecCapacityFor tcb.oooQueue env.queue 1 else some tcb.oooQueue
    match grown with
    | none => .ok (0, tcb)
    | some queue =>
      if overlaps = 0 then
        replaceMerged { tcb with oooQueue := queue } queue m ⟨seq, data, fin⟩
      else if env.merged then
        replaceMerged { tcb with oooQueue := queue } queue m
          ⟨m.start, m.mergedData queue.values seq data, m.finPos.isSome⟩
      else .ok (0, { tcb with oooQueue := queue })

def oooInsert (seq : Seq) (data : List UInt8) (fin : Bool) (env : OooEnv) :
    Except OooFault (ℕ × TcpControlBlock) :=
  if data = [] ∧ fin = false then .ok (0, tcb)
  else
    let available := tcb.rcvWnd - tcb.consumed
    if available = 0 then .ok (0, tcb)
    else
      let (data, fin) :=
        if available < data.length % 2 ^ 32 then (data.take available, false) else (data, fin)
      match AdmittedVec.tryCopyFromSlice env.copy.grant env.copy.committed data with
      | none => .ok (0, tcb)
      | some copied => oooMerge tcb seq copied.values fin env

/-- Append what the segment at the front of the queue has behind `rcvNxt`; `none` is the `break` of
the loop. -/
def deliverFront (front : OooSegment) (extend : Bool) : Option (ℕ × TcpControlBlock) :=
  if seqGt front.dataEnd tcb.rcvNxt then
    let useful := front.data.drop (tcb.rcvNxt - front.seq).toNat
    let room := tcpMaxRecvBufferBytes - tcb.recvBuffer.length
    if room < useful.length then none
    else if extend then
      some (useful.length, { tcb with
        recvBuffer := tcb.recvBuffer ++ useful
        rcvNxt := tcb.rcvNxt + BitVec.ofNat 32 useful.length })
    else none
  else some (0, tcb)

/-- Remove all segments of the out-of-order queue. -/
def purgeOoo : TcpControlBlock :=
  { tcb with
    oooQueue := tcb.oooQueue.clear
    oooBytes := tcb.oooQueue.values.foldl (fun sum stale => sum - stale.data.length) tcb.oooBytes }

/-- The state after the FIN of the peer. -/
def TcpState.afterFin : TcpState → TcpState
  | established => closeWait
  | finWait1 => closing
  | finWait2 => timeWait
  | other => other

/-- The loop of `ooo_drain_contiguous` over the front of the queue, which is `queue`; `extend` are
the answers to the requests of `try_extend_from_slice`. -/
def drainLoop (extend : ℕ → Bool) :
    (queue : List OooSegment) → (delivered : ℕ) → TcpControlBlock → ℕ × TcpControlBlock
  | [], delivered, tcb => (delivered, tcb)
  | front :: rest, delivered, tcb =>
    if seqLe front.seq tcb.rcvNxt then
      match deliverFront tcb front (extend rest.length) with
      | none => (delivered, tcb)
      | some (usefulLen, tcb) =>
        let delivered := saturatingAdd32 delivered usefulLen
        let tcb := { tcb with
          oooQueue := tcb.oooQueue.tail
          oooBytes := tcb.oooBytes - front.data.length }
        if front.fin && front.dataEnd == tcb.rcvNxt then
          (delivered, purgeOoo { tcb with
            finReceived := true
            rcvNxt := tcb.rcvNxt + 1
            state := tcb.state.afterFin })
        else drainLoop extend rest delivered tcb
    else (delivered, tcb)

def oooDrainContiguous (extend : ℕ → Bool) : ℕ × TcpControlBlock :=
  drainLoop extend tcb.oooQueue.values 0 tcb

/-! ## Segments -/

/-- The fields of a segment that the receive path reads. -/
structure Segment where
  seqNum : Seq
  ackNum : Seq
  ack : Bool
  fin : Bool
  payload : List UInt8

namespace Segment

variable (seg : Segment)

/-- The sequence number behind the payload. -/
def dataEnd : Seq := seg.seqNum + BitVec.ofNat 32 seg.payload.length

/-- `segment_in_recv_window`: the first or the last position of the segment is in the window. -/
def inRecvWindow (rcvNxt : Seq) (rcvWnd : ℕ) : Bool :=
  let wnd := max rcvWnd 1
  let sequenceLen := seg.payload.length + if seg.fin then 1 else 0
  if u32Max < seg.payload.length then false
  else if u32Max < sequenceLen then false
  else seqInWindow seg.seqNum rcvNxt wnd ||
    (sequenceLen != 0 && seqInWindow (seg.seqNum + BitVec.ofNat 32 sequenceLen - 1) rcvNxt wnd)

def duplicatePayloadHasNewFin (rcvNxt : Seq) : Bool :=
  seg.fin && decide (seg.payload.length ≤ u32Max) && seg.dataEnd == rcvNxt

end Segment

/-- The answers of the environment to a segment: what the acknowledgement does to the sending side,
the security hook, the gate of the namespace, the requests for the buffer of data in order, and the
out-of-order queue. -/
structure SegmentEnv where
  acked : TcpControlBlock
  lsmDenied : Bool
  gate : Bool
  extend : Bool
  ooo : OooEnv
  drain : ℕ → Bool

/-- Other code changed what does not belong to the receiving side. -/
def TcpControlBlock.keepReceive (tcb other : TcpControlBlock) : TcpControlBlock :=
  { other with
    state := tcb.state
    irs := tcb.irs
    rcvNxt := tcb.rcvNxt
    rcvWnd := tcb.rcvWnd
    recvBuffer := tcb.recvBuffer
    oooQueue := tcb.oooQueue
    oooBytes := tcb.oooBytes
    finReceived := tcb.finReceived }

/-- How the part of the receive path for data ends: with a return, or at the part for a FIN, with
`fin_expected_seq`. -/
inductive DataStep
  | returned (tcb : TcpControlBlock)
  | fallThrough (tcb : TcpControlBlock) (finExpectedSeq : Option Seq)

variable (seg : Segment) (env : SegmentEnv)

/-- Data at `rcvNxt`. -/
def receiveInOrder : DataStep :=
  let available := tcb.rcvWnd - tcb.consumed
  if available < seg.payload.length % 2 ^ 32 then .returned tcb
  else if !env.gate then .returned tcb
  else if !env.extend then .returned tcb
  else
    let tcb := { tcb with
      recvBuffer := tcb.recvBuffer ++ seg.payload
      rcvNxt := tcb.rcvNxt + BitVec.ofNat 32 seg.payload.length }
    let finExpectedSeq := tcb.rcvNxt
    -- a FIN empties the queue, so nothing is drained before it
    let tcb := if seg.fin then tcb else (oooDrainContiguous tcb env.drain).2
    .fallThrough tcb (some finExpectedSeq)

/-- Data that starts before `rcvNxt`. -/
def receiveOverlap :
    Except OooFault DataStep := do
  let finish (tcb : TcpControlBlock) : DataStep :=
    if !seg.duplicatePayloadHasNewFin tcb.rcvNxt then .returned tcb else .fallThrough tcb none
  if seqGt seg.dataEnd tcb.rcvNxt then
    let useful := seg.payload.drop (tcb.rcvNxt - seg.seqNum).toNat
    if !env.gate then .ok (.returned tcb)
    else
      let (_, tcb) ← oooInsert tcb tcb.rcvNxt useful seg.fin env.ooo
      let (_, tcb) := oooDrainContiguous tcb env.drain
      .ok (if tcb.finReceived then .returned tcb else finish tcb)
  else .ok (finish tcb)

/-- The part of the receive path for data. -/
def receiveData : Except OooFault DataStep :=
  if seg.payload = [] then .ok (.fallThrough tcb none)
  else if env.lsmDenied then .ok (.returned tcb)
  else if seg.seqNum = tcb.rcvNxt then .ok (receiveInOrder tcb seg env)
  else if seqGt seg.seqNum tcb.rcvNxt then
    if !env.gate then .ok (.returned tcb)
    else (oooInsert tcb seg.seqNum seg.payload seg.fin env.ooo).map fun (_, tcb) => .returned tcb
  else receiveOverlap tcb seg env

/-- The part of the receive path for a FIN. -/
def receiveFin (finExpectedSeq : Option Seq) : TcpControlBlock :=
  let expectedFinPos := finExpectedSeq.getD tcb.rcvNxt
  if seg.dataEnd ≠ expectedFinPos then tcb
  else
    { purgeOoo { tcb with rcvNxt := expectedFinPos + 1, finReceived := true } with
      state := .closeWait }

/-- The arm of `process_tcp_segment_inner` for the state `Established`. -/
def receiveEstablished : Except OooFault TcpControlBlock :=
  let ackInRange := seqGe seg.ackNum tcb.sndUna && seqGe tcb.sndNxt seg.ackNum
  if !seg.ack then .ok tcb
  else if !seg.inRecvWindow tcb.rcvNxt tcb.rcvWnd then .ok tcb
  else if !ackInRange then .ok tcb
  else
    (receiveData (tcb.keepReceive env.acked) seg env).map fun
      | .returned tcb => tcb
      | .fallThrough tcb finExpectedSeq =>
        if seg.fin then receiveFin tcb seg finExpectedSeq else tcb

end Nilix.Net.Tcp
