import Nilix.Net.TcpSend

/-!
# The retransmission buffer

The send buffer of a connection against the history of the connection: the bytes that were sent and
how many of them are acknowledged.  In every run of sends and acknowledgements the buffer is a
contiguous run of segments that ends at `sndNxt` and begins at or before `sndUna`, and it holds the
bytes that were sent there.

The positions of the history are natural numbers, and the sequence numbers of the control block are
these positions behind the first sequence number of the connection; the comparison of sequence
numbers is right because less than half of their range is outstanding.
-/

namespace Nilix.Net.Tcp

open List Serial TcpSegment

open Recv (NamespaceId Counts)

/-! ## Chunks of the stream -/

/-- The sequence number of the first byte of a piece of the stream, and its bytes. -/
abbrev Chunk := Seq × List UInt8

/-- The chunk of a segment. -/
def TcpSegment.chunk (seg : TcpSegment) : Chunk := (seg.seq, seg.data)

@[simp]
lemma TcpSegment.snd_chunk (seg : TcpSegment) : seg.chunk.2 = seg.data := rfl

/-- The chunk of a packet. -/
def WirePacket.chunk (packet : WirePacket) : Chunk := (packet.seqNum, packet.payload)

/-- The bytes of a list of chunks. -/
def bytes (chunks : List Chunk) : List UInt8 := (chunks.map Prod.snd).flatten

/-- The first chunk starts at `first`, and every other one where the one before it ends. -/
def Contiguous : (first : Seq) → List Chunk → Prop
  | _, [] => True
  | first, (seq, data) :: rest => seq = first ∧ Contiguous (first + BitVec.ofNat 32 data.length) rest

@[simp]
lemma bytes_nil : bytes [] = [] := rfl

@[simp]
lemma bytes_cons (c : Chunk) (rest : List Chunk) : bytes (c :: rest) = c.2 ++ bytes rest := by
  simp [bytes]

@[simp]
lemma bytes_append (a b : List Chunk) : bytes (a ++ b) = bytes a ++ bytes b := by
  simp [bytes]

lemma contiguous_append {first : Seq} {a b : List Chunk} : Contiguous first (a ++ b) ↔
      Contiguous first a ∧ Contiguous (first + BitVec.ofNat 32 (bytes a).length) b := by
  induction a generalizing first with
  | nil => simp [Contiguous]
  | cons c rest ih =>
    rw [cons_append, Contiguous, Contiguous, ih, add_ofNat_add, bytes_cons,
      length_append, and_assoc]

/-! ## Segmentation -/

variable {payload : List UInt8}

lemma chunk_of_tryBuild {admitted : Bool} {src dst : Endpoint} {seqNum ackNum : Seq}
    {flags : BitVec 8} {window : ℕ} {packet : WirePacket}
    (h : tryBuildTcpSegment admitted src dst seqNum ackNum flags window payload = some packet) :
    packet.chunk = (seqNum, payload) := by
  obtain ⟨segmentLen, -, h⟩ := Option.bind_eq_some_iff.mp h
  split_ifs at h
  cases h
  rfl

namespace SendCtx

variable (ctx : SendCtx) {offset : ℕ}

lemma take_append_segPayload (h : offset ≤ ctx.payload.length) :
    ctx.payload.take offset ++ ctx.segPayload offset = ctx.payload.take (ctx.stop offset) := by
  have hle : offset ≤ ctx.stop offset := le_min le_self_add h
  have htake : ctx.payload.take offset = (ctx.payload.take (ctx.stop offset)).take offset := by
    rw [take_take, min_eq_left hle]
  rw [segPayload, htake]
  exact take_append_drop offset _

lemma length_segPayload (offset : ℕ) :
    (ctx.segPayload offset).length = ctx.stop offset - offset := by
  have hle : ctx.stop offset ≤ ctx.payload.length := min_le_right _ _
  rw [segPayload, length_drop, length_take, min_eq_left hle]

/-- The chunk at an offset inside the payload is not empty. -/
lemma segPayload_ne_nil (h : offset < ctx.payload.length) : ctx.segPayload offset ≠ [] := by
  have hlt : offset < ctx.stop offset := lt_min (Nat.lt_add_of_pos_right (by decide)) h
  rw [← length_pos_iff, length_segPayload]
  omega

/-- What one iteration of the segmentation does: it leaves without a change of the queues, or sends
the chunk at the offset. -/
lemma sendChunk_cases (s : SendState) : (∃ s', ctx.sendChunk s = .done s' ∧ s'.offset = s.offset ∧
      s'.sendBuffer.values = s.sendBuffer.values ∧ s'.segments.values = s.segments.values) ∨
    (∃ s' packet, ctx.sendChunk s = .next s' ∧ s.offset < ctx.payload.length ∧
      s'.offset = ctx.stop s.offset ∧
      s'.sendBuffer.values =
        s.sendBuffer.values ++ [ctx.segment s.offset (ctx.segPayload s.offset)] ∧
      s'.segments.values = s.segments.values ++ [packet] ∧
      packet.chunk = (ctx.seq s.offset, ctx.segPayload s.offset)) := by
  unfold sendChunk
  dsimp only
  split
  · exact .inl ⟨s, rfl, rfl, rfl, rfl⟩
  rename_i hlt
  split
  · exact .inl ⟨s, rfl, rfl, rfl, rfl⟩
  rename_i segments hreserve
  have hsegments := AdmittedVec.tryReserve_values hreserve
  split
  · exact .inl ⟨_, rfl, rfl, rfl, hsegments⟩
  rename_i packet hpacket
  split
  · exact .inl ⟨_, rfl, rfl, rfl, hsegments⟩
  rename_i queue hqueue
  have hvalues := of_ensureVecCapacityFor hqueue
  split
  · exact .inl ⟨_, rfl, rfl, hvalues.1, hsegments⟩
  rename_i data hdata
  split
  · exact .inl ⟨_, rfl, rfl, hvalues.1, hsegments⟩
  rename_i sendBuffer hpush
  -- the slot of the packet was reserved, so the push does not fail
  have hroom := AdmittedVec.le_capacity_of_tryReserve hreserve
  have hlen := AdmittedVec.le_usizeMax_of_tryReserve hreserve
  obtain ⟨segments', hpush', hvalues'⟩ := AdmittedVec.tryPush_eq_some
    (v := segments) (by rw [hsegments]; exact hroom) (by rw [hsegments]; exact hlen)
    (ctx.chunk s.offset).push.grant (ctx.chunk s.offset).push.committed packet
  rw [hpush']
  refine .inr ⟨_, packet, rfl, Nat.lt_of_not_le hlt, rfl, ?_, ?_, chunk_of_tryBuild hpacket⟩
  · rw [BoundedVec.push?_values hpush, hvalues.1, AdmittedVec.tryCopyFromSlice_values hdata]
  rw [hvalues', hsegments]

/-- The segmentation so far: new segments behind the buffer, which are the emitted packets, follow
each other, and hold the payload up to the offset. -/
structure Progress (buffer : List TcpSegment) (s : SendState) : Prop where
  offset_le : s.offset ≤ ctx.payload.length
  queued : ∃ news, s.sendBuffer.values = buffer ++ news ∧
    news.map TcpSegment.chunk = s.segments.values.map WirePacket.chunk ∧
    ∀ seg ∈ news, seg.data ≠ []
  contiguous : Contiguous ctx.baseSeq (s.segments.values.map WirePacket.chunk)
  bytes : bytes (s.segments.values.map WirePacket.chunk) = ctx.payload.take s.offset
  sized : ∀ packet ∈ s.segments.values, packet.payload.length ≤ ctx.stop 0
  first : ∀ packet ∈ s.segments.values.head?, packet.payload.length = ctx.stop 0

/-- Progress depends on the queues and the offset alone. -/
lemma Progress.congr {ctx : SendCtx} {buffer : List TcpSegment} {s s' : SendState}
    (h : ctx.Progress buffer s) (hoffset : s'.offset = s.offset)
    (hqueue : s'.sendBuffer.values = s.sendBuffer.values)
    (hsegments : s'.segments.values = s.segments.values) : ctx.Progress buffer s' :=
  ⟨hoffset ▸ h.offset_le, hqueue ▸ hsegments ▸ h.queued, hsegments ▸ h.contiguous,
    hsegments ▸ hoffset ▸ h.bytes, hsegments ▸ h.sized, hsegments ▸ h.first⟩

lemma Progress.next {ctx : SendCtx} {buffer : List TcpSegment} {s s' : SendState}
    {packet : WirePacket} (h : ctx.Progress buffer s) (hlt : s.offset < ctx.payload.length)
    (hoffset : s'.offset = ctx.stop s.offset) (hqueue : s'.sendBuffer.values =
      s.sendBuffer.values ++ [ctx.segment s.offset (ctx.segPayload s.offset)])
    (hsegments : s'.segments.values = s.segments.values ++ [packet])
    (hpacket : packet.chunk = (ctx.seq s.offset, ctx.segPayload s.offset)) :
    ctx.Progress buffer s' := by
  obtain ⟨news, hbuffer, hnews, hne⟩ := h.queued
  have hlen : packet.payload.length = ctx.stop s.offset - s.offset := by
    rw [← ctx.length_segPayload, ← (Prod.mk.inj hpacket).2]
  refine ⟨hoffset ▸ min_le_right _ _,
    ⟨news ++ [ctx.segment s.offset (ctx.segPayload s.offset)], ?_, ?_, ?_⟩, ?_, ?_, ?_, ?_⟩
  · rw [hqueue, hbuffer, append_assoc]
  · rw [hsegments, map_append, map_append, hnews, map_singleton, map_singleton, hpacket]
    rfl
  · intro seg hseg
    rcases mem_append.mp hseg with hold | hnew
    · exact hne seg hold
    rw [mem_singleton.mp hnew]
    exact ctx.segPayload_ne_nil hlt
  · rw [hsegments, map_append, contiguous_append, h.bytes, length_take, min_eq_left h.offset_le]
    refine ⟨h.contiguous, ?_⟩
    rw [map_singleton, hpacket]
    exact ⟨rfl, trivial⟩
  · rw [hsegments, map_append, bytes_append, h.bytes, map_singleton, hpacket, hoffset]
    simpa using ctx.take_append_segPayload h.offset_le
  · rw [hsegments, forall_mem_append, forall_mem_singleton, hlen, stop, stop]
    exact ⟨h.sized, by omega⟩
  · rw [hsegments]
    cases hold : s.segments.values with
    | cons =>
      have hfirst := h.first
      rw [hold] at hfirst
      exact hfirst
    | nil =>
      -- the first chunk is at the start of the payload
      have hbytes := h.bytes
      rw [hold, map_nil, bytes_nil, eq_comm, take_eq_nil_iff] at hbytes
      rintro _ ⟨⟩
      rw [hlen, hbytes.resolve_right (ne_nil_of_length_pos (by omega)), Nat.sub_zero]

/-- The segmentation ends, and what it leaves behind is progress. -/
lemma sendLoop_progress (buffer : AdmittedVec TcpSegment) :
    ctx.Progress buffer.values (ctx.sendLoop ⟨0, buffer, .new⟩) := by
  have hstart : ctx.Progress buffer.values ⟨0, buffer, .new⟩ :=
    ⟨Nat.zero_le _, ⟨[], by simp [AdmittedVec.new, BoundedVec.empty]⟩, trivial, rfl, nofun, nofun⟩
  obtain ⟨n, s, hn, hruns, hs⟩ := Loop.Runs.of_measure ctx.sendChunk (ctx.Progress buffer.values)
    (ctx.Progress buffer.values) (fun s => ctx.payload.length - s.offset)
    (fun s s' hs hnext => by
      rcases ctx.sendChunk_cases s with ⟨_, hdone, _⟩ | ⟨s1, packet, hs1, hlt, hoffset, hq, hsg, hp⟩
      · rw [hdone] at hnext
        cases hnext
      rw [hs1] at hnext
      cases hnext
      refine ⟨hs.next hlt hoffset hq hsg hp, ?_⟩
      have hmss : 0 < tcpEthernetMss := by decide
      rw [hoffset, SendCtx.stop]
      omega)
    (fun s s' hs hdone => by
      rcases ctx.sendChunk_cases s with ⟨s1, hs1, hoffset, hq, hsg⟩ | ⟨_, _, hnext, _⟩
      · rw [hs1] at hdone
        cases hdone
        exact hs.congr hoffset hq hsg
      rw [hnext] at hdone
      cases hdone)
    hstart
  rw [sendLoop, hruns.run_eq_some (by simpa using hn)]
  exact hs

end SendCtx

/-! ## One send -/

/-- Two control blocks with the same data in flight. -/
structure SameSend (tcb tcb' : TcpControlBlock) : Prop where
  sndUna : tcb'.sndUna = tcb.sndUna
  sndNxt : tcb'.sndNxt = tcb.sndNxt
  sendBuffer : tcb'.sendBuffer.values = tcb.sendBuffer.values
  sendBufferBytes : tcb'.sendBufferBytes = tcb.sendBufferBytes

/-- The namespace is charged for at least what is buffered; the root namespace is not charged. -/
def Funded (nsId : NamespaceId) (tcb : TcpControlBlock) : Prop :=
  nsId = 0 ∨ tcb.sendBufferBytes ≤ tcb.nsChargedSendBytes

/-- What a send does to the connection.  A refused one leaves the data in flight as it is.  A send
of `n` bytes emits and keeps the same consecutive chunks from `sndNxt` on, which hold exactly the
first `n` bytes of the payload, and moves `sndNxt` behind them. -/
def SendContract (tcb : TcpControlBlock) (payload : List UInt8) (tcb' : TcpControlBlock) :
    Except SocketError (ℕ × List WirePacket) → Prop
  | .error _ => SameSend tcb tcb'
  | .ok (n, packets) =>
    n ≤ payload.length ∧
    bytes (packets.map WirePacket.chunk) = payload.take n ∧
    Contiguous tcb.sndNxt (packets.map WirePacket.chunk) ∧
    tcb'.sndNxt = tcb.sndNxt + BitVec.ofNat 32 n ∧
    tcb'.sndUna = tcb.sndUna ∧
    tcb'.sendBufferBytes = tcb.sendBufferBytes + n ∧
    (n = 0 ∨ tcb'.sendBufferBytes ≤ tcpMaxSendBufferBytes) ∧
    ∃ news, tcb'.sendBuffer.values = tcb.sendBuffer.values ++ news ∧
      news.map TcpSegment.chunk = packets.map WirePacket.chunk ∧ ∀ seg ∈ news, seg.data ≠ []

/-- The first packet of a send holds what of the payload fits into an Ethernet frame, and no packet
holds more. -/
def Sized (payload : List UInt8) : Except SocketError (ℕ × List WirePacket) → Prop
  | .error _ => True
  | .ok (_, packets) =>
    (∀ packet ∈ packets, packet.payload.length ≤ min tcpEthernetMss payload.length) ∧
      ∀ packet ∈ packets.head?, packet.payload.length = min tcpEthernetMss payload.length

variable {tcb : TcpControlBlock}

/-- A send from a control block with the same data in flight. -/
lemma SendContract.congr {tcb1 tcb' : TcpControlBlock}
    {result : Except SocketError (ℕ × List WirePacket)} (hsame : SameSend tcb tcb1)
    (h : SendContract tcb1 payload tcb' result) : SendContract tcb payload tcb' result := by
  obtain ⟨huna, hnxt, hbuffer, hbytes⟩ := hsame
  cases result with
  | error =>
    obtain ⟨huna', hnxt', hbuffer', hbytes'⟩ := h
    exact ⟨huna'.trans huna, hnxt'.trans hnxt, hbuffer'.trans hbuffer, hbytes'.trans hbytes⟩
  | ok =>
    unfold SendContract at h ⊢
    rwa [← huna, ← hnxt, ← hbuffer, ← hbytes]

/-- The validation of the congestion window touches the congestion window alone. -/
lemma validateCwndAfterIdle_same (tcb : TcpControlBlock) (nowMs : ℕ) :
    SameSend tcb (validateCwndAfterIdle tcb nowMs) ∧
      (validateCwndAfterIdle tcb nowMs).nsChargedSendBytes = tcb.nsChargedSendBytes := by
  unfold validateCwndAfterIdle
  dsimp only
  split
  · exact ⟨⟨rfl, rfl, rfl, rfl⟩, rfl⟩
  split
  · exact ⟨⟨rfl, rfl, rfl, rfl⟩, rfl⟩
  split
  · exact ⟨⟨rfl, rfl, rfl, rfl⟩, rfl⟩
  split <;> split <;> exact ⟨⟨rfl, rfl, rfl, rfl⟩, rfl⟩

variable {nsId : NamespaceId}

/-- The charge changes nothing but the mirror of the charge, which covers the growth if the charge
is granted. -/
lemma tryChargeNsSend_cases (counts : Counts) (additional : ℕ) (env : AllocEnv)
    (hfund : Funded nsId tcb) :
    (∃ e counts', tryChargeNsSend counts nsId tcb additional env = (.error e, counts', tcb)) ∨
    (∃ counts' tcb', tryChargeNsSend counts nsId tcb additional env = (.ok (), counts', tcb') ∧
      SameSend tcb tcb' ∧
      (nsId = 0 ∨ saturatingAdd tcb.sendBufferBytes additional ≤ tcb'.nsChargedSendBytes)) := by
  unfold tryChargeNsSend
  split
  · rename_i hnone
    refine .inr ⟨_, tcb, rfl, ⟨rfl, rfl, rfl, rfl⟩, ?_⟩
    rcases hnone with hns | hzero
    · exact .inl hns
    refine hfund.imp_right fun h => ?_
    rw [hzero]
    exact (min_le_left _ _).trans h
  split
  · exact .inl ⟨_, _, rfl⟩
  split
  · exact .inl ⟨_, _, rfl⟩
  split
  · exact .inl ⟨_, _, rfl⟩
  refine .inr ⟨_, _, rfl, ⟨rfl, rfl, rfl, rfl⟩, hfund.imp_right fun h => ?_⟩
  exact min_le_min (Nat.add_le_add_right h _) le_rfl

/-- The reconciliation of a charge that covers what is buffered does not fault, and changes the
mirror alone. -/
lemma reconcileNsSend_ok (h : Funded nsId tcb) (counts : Counts) :
    ∃ counts' charged, reconcileNsSend counts nsId tcb =
        .ok (counts', { tcb with nsChargedSendBytes := charged }) ∧
      tcb.sendBufferBytes ≤ charged := by
  unfold reconcileNsSend
  dsimp only
  split
  · exact ⟨_, _, rfl, le_rfl⟩
  split
  · rename_i heq
    exact ⟨_, tcb.nsChargedSendBytes, rfl, heq.le⟩
  split
  · rename_i hns _ hlt
    exact absurd (h.resolve_left hns) (not_le.mpr hlt)
  · exact ⟨_, _, rfl, le_rfl⟩

lemma segmentPayload_spec (src dst : Endpoint) (counts : Counts)
    (env : SendEnv) (hcap : tcb.sendBufferBytes + payload.length ≤ tcpMaxSendBufferBytes)
    (hfund : nsId = 0 ∨ saturatingAdd tcb.sendBufferBytes payload.length ≤ tcb.nsChargedSendBytes) :
    ∃ out, segmentPayload src dst nsId counts tcb payload env = .ok out ∧
      SendContract tcb payload out.tcb out.result ∧ Funded nsId out.tcb ∧
      Sized payload out.result := by
  set ctx : SendCtx :=
    ⟨src, dst, tcb.sndNxt, tcb.rcvNxt, currentAdvWindow tcb, env.nowMs, payload, env.chunk⟩
    with hctx
  have hloop := ctx.sendLoop_progress tcb.sendBuffer
  set s := ctx.sendLoop ⟨0, tcb.sendBuffer, .new⟩ with hs
  obtain ⟨news, hqueue, hnews, hne⟩ := hloop.queued
  have hle : s.offset ≤ payload.length := hloop.offset_le
  have hsized : Sized payload (.ok (s.offset, s.segments.values)) := by
    have hstop : ctx.stop 0 = min tcpEthernetMss payload.length := by
      rw [SendCtx.stop, zero_add]
    rw [Sized, ← hstop]
    exact ⟨hloop.sized, hloop.first⟩
  unfold segmentPayload
  dsimp only
  rw [← hctx, ← hs]
  clear_value s
  have hmax : tcpMaxSendBufferBytes ≤ usizeMax := by decide
  have hsat : ∀ n ≤ payload.length,
      saturatingAdd tcb.sendBufferBytes n = tcb.sendBufferBytes + n := fun n hn =>
    saturatingAdd_eq_of_le (by omega)
  rw [hsat _ le_rfl] at hfund
  split
  · rename_i hzero
    -- nothing was buffered: the emitted packets are none, so the new segments are none
    have hbytes := hloop.bytes
    rw [hzero, take_zero] at hbytes
    have hnil : news = [] := by
      cases news with
      | nil => rfl
      | cons seg =>
        rw [← hnews, map_cons, bytes_cons] at hbytes
        exact absurd (append_eq_nil_iff.mp hbytes).1 (hne seg mem_cons_self)
    have hfunded : Funded nsId { tcb with sendBuffer := s.sendBuffer } :=
      hfund.imp_right fun h => le_self_add.trans h
    obtain ⟨counts', charged, hrec, hcharged⟩ := reconcileNsSend_ok hfunded counts
    rw [hrec]
    refine ⟨_, rfl, ⟨rfl, rfl, ?_, rfl⟩, .inr hcharged, trivial⟩
    rw [hqueue, hnil, append_nil]
  · have hfunded : Funded nsId { tcb with
        sendBuffer := s.sendBuffer
        sendBufferBytes := saturatingAdd tcb.sendBufferBytes s.offset } := by
      refine hfund.imp_right fun h => ?_
      change saturatingAdd tcb.sendBufferBytes s.offset ≤ tcb.nsChargedSendBytes
      rw [hsat _ hle]
      omega
    obtain ⟨counts', charged, hrec, hcharged⟩ := reconcileNsSend_ok hfunded counts
    rw [hrec]
    refine ⟨_, rfl, ⟨hle, hloop.bytes, hloop.contiguous, rfl, rfl, hsat _ hle, .inr ?_,
      news, hqueue, hnews, hne⟩, .inr hcharged, hsized⟩
    change saturatingAdd tcb.sendBufferBytes s.offset ≤ _
    rw [hsat _ hle]
    omega

lemma tcpSend_spec (sock : Socket) (counts : Counts) (payload : List UInt8) (env : SendEnv)
    (hfund : Funded sock.netNsId tcb) :
    ∃ out, tcpSend sock counts tcb payload env = .ok out ∧
      SendContract tcb payload out.tcb out.result ∧ Funded sock.netNsId out.tcb ∧
      Sized payload out.result := by
  have hsame : SameSend tcb tcb := ⟨rfl, rfl, rfl, rfl⟩
  unfold tcpSend
  dsimp only
  split
  · exact ⟨_, rfl, hsame, hfund, trivial⟩
  split
  · exact ⟨_, rfl, hsame, hfund, trivial⟩
  split
  · exact ⟨_, rfl, hsame, hfund, trivial⟩
  split
  swap
  · exact ⟨_, rfl, hsame, hfund, trivial⟩
  rename_i src dst _ _
  split
  · exact ⟨_, rfl, hsame, hfund, trivial⟩
  split
  · exact ⟨_, rfl, hsame, hfund, trivial⟩
  split
  · refine ⟨_, rfl, ⟨Nat.zero_le _, rfl, trivial, ?_, rfl, rfl, .inl rfl, [], ?_⟩, hfund,
      ⟨fun _ hmem => absurd hmem not_mem_nil, fun _ hmem => by cases hmem⟩⟩
    · change tcb.sndNxt = tcb.sndNxt + 0
      rw [add_zero]
    · simp
  obtain ⟨hsame', hcharged⟩ := validateCwndAfterIdle_same tcb env.nowMs
  generalize validateCwndAfterIdle tcb env.nowMs = tcb1 at hsame' hcharged ⊢
  have hfund1 : Funded sock.netNsId tcb1 := by
    rwa [Funded, hsame'.sendBufferBytes, hcharged]
  split
  · exact ⟨_, rfl, hsame', hfund1, trivial⟩
  split
  · exact ⟨_, rfl, hsame', hfund1, trivial⟩
  rename_i newTotal htotal
  have hnew : tcb1.sendBufferBytes + payload.length = newTotal := (eq_of_checkedAdd htotal).symm
  split
  · exact ⟨_, rfl, hsame', hfund1, trivial⟩
  rename_i hcap
  rcases tryChargeNsSend_cases counts payload.length env.row hfund1 with
    ⟨e, counts', hcharge⟩ | ⟨counts', tcb2, hcharge, hsame2, hfund2⟩
  · rw [hcharge]
    exact ⟨_, rfl, hsame', hfund1, trivial⟩
  rw [hcharge]
  rw [← hsame2.sendBufferBytes] at hnew hfund2
  obtain ⟨out, hout, hcontract, hfund', hsized⟩ :=
    segmentPayload_spec src dst counts' env (hnew.le.trans (Nat.le_of_not_lt hcap)) hfund2
  exact ⟨out, hout, (hcontract.congr hsame2).congr hsame', hfund', hsized⟩

/-! ## One acknowledgement -/

/-- What an acknowledgement does to the connection.  One that lies behind `sndUna` and not behind
`sndNxt` moves `sndUna` and removes exactly the segments that end at or before it; any other one
leaves the data in flight as it is. -/
def AckContract (tcb : TcpControlBlock) (ackNum : Seq) (tcb' : TcpControlBlock) : Prop :=
  if 0 < Serial.dist tcb.sndUna ackNum ∧ Serial.dist tcb.sndUna ackNum ≤ tcb.bytesInFlight then
    tcb'.sndUna = ackNum ∧ tcb'.sndNxt = tcb.sndNxt ∧
    tcb'.sendBuffer.values = tcb.sendBuffer.values.filter fun seg =>
      Serial.dist tcb.sndUna ackNum < Serial.dist tcb.sndUna seg.endSeq
  else SameSend tcb tcb'

/-- A new sample of the round-trip time touches the estimate and the timeout alone. -/
lemma updateRtt_eq (tcb : TcpControlBlock) (sampleUs : ℕ) :
    ∃ srttUs rttvarUs rtoMs, updateRtt tcb sampleUs =
      { tcb with srttUs := srttUs, rttvarUs := rttvarUs, rtoMs := rtoMs } := by
  unfold updateRtt
  split <;> exact ⟨_, _, _, rfl⟩

/-- The loop of an acknowledgement goes on behind the segment. -/
def ackedBy (ackNum : Seq) (seg : TcpSegment) : Bool := seqGe ackNum seg.endSeq

/-- The loop of an acknowledgement removes the longest acknowledged front of the buffer. -/
lemma removeAcked_spec (ackNum : Seq) (nowMs : ℕ) (segs : List TcpSegment) (rttSampled : Bool)
    (tcb : TcpControlBlock) (hsegs : tcb.sendBuffer.values = segs) :
    let tcb' := removeAcked ackNum nowMs segs rttSampled tcb
    tcb'.sendBuffer.values = segs.dropWhile (ackedBy ackNum) ∧
      tcb'.sendBufferBytes = tcb.sendBufferBytes -
        (bytes ((segs.takeWhile (ackedBy ackNum)).map chunk)).length ∧
      tcb'.sndNxt = tcb.sndNxt ∧ tcb'.nsChargedSendBytes = tcb.nsChargedSendBytes := by
  induction segs generalizing rttSampled tcb with
  | nil => exact ⟨hsegs, rfl, rfl, rfl⟩
  | cons seg segs ih =>
    rw [removeAcked]
    cases hge : ackedBy ackNum seg with
    | false =>
      rw [ackedBy] at hge
      simp [ackedBy, hge, hsegs]
    | true =>
      have htail : tcb.sendBuffer.tail.values = segs := by simp [hsegs]
      rw [dropWhile_cons_of_pos hge, takeWhile_cons_of_pos hge, map_cons,
        bytes_cons, length_append, Nat.sub_add_eq]
      rw [ackedBy] at hge
      simp only [hge, Bool.not_true, Bool.false_eq_true, if_false]
      split
      · obtain ⟨srttUs, rttvarUs, rtoMs, hrtt⟩ := updateRtt_eq { tcb with
          sendBuffer := tcb.sendBuffer.tail
          sendBufferBytes := tcb.sendBufferBytes - seg.data.length }
          (min ((nowMs - seg.sentAt) * 1000) usizeMax)
        rw [hrtt]
        exact ih _ _ htail
      · exact ih _ _ htail

/-- The end of a segment of a run lies within the run. -/
lemma endSeq_of_mem {base : Seq} {start : ℕ} {segs : List TcpSegment} {seg : TcpSegment}
    (hrun : Contiguous (seqAt base start) (segs.map TcpSegment.chunk)) (hseg : seg ∈ segs) :
    ∃ e, seg.endSeq = seqAt base e ∧ start ≤ e ∧
      e ≤ start + (bytes (segs.map TcpSegment.chunk)).length := by
  induction segs generalizing start with
  | nil => cases hseg
  | cons first segs ih =>
    obtain ⟨hfirst, hrest⟩ := hrun
    rw [seqAt_add] at hrest
    rw [map_cons, bytes_cons, length_append, snd_chunk]
    rcases mem_cons.mp hseg with rfl | hmem
    · refine ⟨start + seg.data.length, ?_, le_self_add, ?_⟩
      · rw [endSeq, hfirst, seqAt_add]
      · exact Nat.add_le_add_left le_self_add _
    obtain ⟨e, he, hlo, hhi⟩ := ih hrest hmem
    exact ⟨e, he, by omega, by omega⟩

/-- What the loop of an acknowledgement keeps of a run whose unacknowledged part, from the position
`acked` to the end `stop`, is shorter than half of the range of sequence numbers: exactly the
segments that end behind the position `ack`. -/
lemma dropWhile_ackedBy {base : Seq} {start acked ack stop : ℕ} {segs : List TcpSegment}
    (hrun : Contiguous (seqAt base start) (segs.map TcpSegment.chunk))
    (hstop : start + (bytes (segs.map TcpSegment.chunk)).length = stop)
    (hfirst : ∀ seg ∈ segs.head?, acked < start + seg.data.length)
    (hlo : acked ≤ ack) (hhi : ack ≤ stop) (hhalf : stop < acked + 2 ^ 31) :
    segs.dropWhile (ackedBy (seqAt base ack)) = segs.filter (fun seg =>
        Serial.dist (seqAt base acked) (seqAt base ack) <
          Serial.dist (seqAt base acked) seg.endSeq) ∧
      ∃ start', start' = start +
          (bytes ((segs.takeWhile (ackedBy (seqAt base ack))).map TcpSegment.chunk)).length ∧
        start' ≤ max start ack ∧
        ∀ seg ∈ (segs.dropWhile (ackedBy (seqAt base ack))).head?,
          ack < start' + seg.data.length := by
  have hdist : ∀ {seg : TcpSegment} {e : ℕ}, seg.endSeq = seqAt base e → acked < e → e ≤ stop →
      (Serial.dist (seqAt base acked) (seqAt base ack) <
        Serial.dist (seqAt base acked) seg.endSeq ↔ ack < e) := by
    intro seg e he hlt hle
    rw [he, dist_seqAt base hlo (by omega), dist_seqAt base hlt.le (by omega)]
    omega
  have hacked : ∀ {seg : TcpSegment} {e : ℕ}, seg.endSeq = seqAt base e → acked < e → e ≤ stop →
      (ackedBy (seqAt base ack) seg = true ↔ e ≤ ack) := by
    intro seg e he hlt hle
    rw [ackedBy, he]
    exact ge_add_iff (by decide) base (near_of_le ⟨hlo, hhi⟩ ⟨hlt.le, hle⟩ hhalf)
  induction segs generalizing start with
  | nil => exact ⟨rfl, start, rfl, le_max_left _ _, by simp⟩
  | cons seg segs ih =>
    obtain ⟨hseq, hrest⟩ := hrun
    rw [seqAt_add] at hrest
    rw [map_cons, bytes_cons, length_append, snd_chunk, ← add_assoc] at hstop
    have hlt : acked < start + seg.data.length := hfirst seg rfl
    have hend : seg.endSeq = seqAt base (start + seg.data.length) := by
      rw [endSeq, hseq, seqAt_add]
    rcases lt_or_ge ack (start + seg.data.length) with hkeep | hdrop
    · -- the first segment stays, and so do all behind it
      have hfalse : ackedBy (seqAt base ack) seg = false := by
        rw [← Bool.not_eq_true, hacked hend hlt (by omega)]
        omega
      rw [dropWhile_cons_of_neg (by simp [hfalse]), takeWhile_cons_of_neg (by simp [hfalse])]
      refine ⟨(filter_eq_self.mpr fun other hother => ?_).symm, start, rfl, le_max_left _ _,
        by simpa using hkeep⟩
      rcases mem_cons.mp hother with rfl | hmem
      · exact decide_eq_true ((hdist hend hlt (by omega)).mpr hkeep)
      obtain ⟨e, he, hle, hge⟩ := endSeq_of_mem hrest hmem
      exact decide_eq_true ((hdist he (by omega) (by omega)).mpr (by omega))
    · have htrue : ackedBy (seqAt base ack) seg = true := (hacked hend hlt (by omega)).mpr hdrop
      obtain ⟨hfilter, start', hstart', hle, hhead⟩ := ih hrest hstop fun other hother => by omega
      have hgone : ¬ Serial.dist (seqAt base acked) (seqAt base ack) <
          Serial.dist (seqAt base acked) seg.endSeq := by
        rw [hdist hend hlt (by omega)]
        omega
      rw [dropWhile_cons_of_pos htrue, takeWhile_cons_of_pos htrue,
        filter_cons_of_neg (by simpa using hgone), map_cons, bytes_cons,
        length_append, snd_chunk]
      exact ⟨hfilter, start', by omega, by omega, hhead⟩

/-- What `handle_ack` does, as far as the data in flight goes. -/
lemma handleAck_cases (tcb : TcpControlBlock) (ackNum : Seq) (nowMs : ℕ) :
    (seqGt ackNum tcb.sndNxt = false ∧ seqGt ackNum tcb.sndUna = true ∧
      let tcb' := (handleAck tcb ackNum nowMs).2
      tcb'.sndUna = ackNum ∧ tcb'.sndNxt = tcb.sndNxt ∧
      tcb'.sendBuffer.values = tcb.sendBuffer.values.dropWhile (ackedBy ackNum) ∧
      tcb'.sendBufferBytes = tcb.sendBufferBytes -
        (bytes ((tcb.sendBuffer.values.takeWhile (ackedBy ackNum)).map chunk)).length ∧
      tcb'.nsChargedSendBytes = tcb.nsChargedSendBytes) ∨
    ((seqGt ackNum tcb.sndNxt = true ∨ seqGt ackNum tcb.sndUna = false) ∧
      SameSend tcb (handleAck tcb ackNum nowMs).2 ∧
      (handleAck tcb ackNum nowMs).2.nsChargedSendBytes = tcb.nsChargedSendBytes) := by
  unfold handleAck
  dsimp only
  split
  · rename_i hnxt
    exact .inr ⟨.inl hnxt, ⟨rfl, rfl, rfl, rfl⟩, rfl⟩
  rename_i hnxt
  split
  · rename_i huna
    obtain ⟨hvalues, hbytes, hsndNxt, hcharged⟩ := removeAcked_spec ackNum nowMs
      tcb.sendBuffer.values false { tcb with
        keepaliveProbesSent := 0
        lastActivity := nowMs
        peerAckGeneration := (tcb.peerAckGeneration + 1) % 2 ^ 64 } rfl
    exact .inl ⟨Bool.eq_false_of_not_eq_true hnxt, huna, rfl, hsndNxt, hvalues, hbytes, hcharged⟩
  rename_i huna
  exact .inr ⟨.inr (Bool.eq_false_of_not_eq_true huna), ⟨rfl, rfl, rfl, rfl⟩, rfl⟩

/-! ## Runs -/

/-- A connection with its history. -/
structure SendWorld where
  sock : Socket
  counts : Counts
  tcb : TcpControlBlock
  /-- A send or a reconciliation faulted. -/
  panicked : Bool
  /-- The sequence number of the first byte of the history. -/
  base : Seq
  /-- All bytes that sends have accepted. -/
  sent : List UInt8
  /-- How far `sndUna` has moved. -/
  acked : ℕ

/-- The calls on a connection, and what other code does to it: it may change the rows, every other
field of the control block, and what is noted about the retransmission of a segment. -/
inductive SendOp
  | send (payload : List UInt8) (env : SendEnv)
  | ack (ackNum : Seq) (nowMs : ℕ)
  | reconcile
  | other (counts : Counts) (tcb : TcpControlBlock) (mark : TcpSegment → TcpSegment)

/-- The bytes that a send accepted. -/
def acceptedBytes (payload : List UInt8) : Except SocketError (ℕ × List WirePacket) → List UInt8
  | .error _ => []
  | .ok (n, _) => payload.take n

namespace SendWorld

/-- A connection without data in flight; every other field is arbitrary. -/
def start (sock : Socket) (counts : Counts) (tcb : TcpControlBlock) : SendWorld where
  sock := sock
  counts := counts
  tcb := { tcb with sndUna := tcb.sndNxt, sendBuffer := .new, sendBufferBytes := 0 }
  panicked := false
  base := tcb.sndNxt
  sent := []
  acked := 0

/-- The execution of one call. -/
def exec (w : SendWorld) : SendOp → SendWorld
  | .send payload env => match tcpSend w.sock w.counts w.tcb payload env with
    | .error _ => { w with panicked := true }
    | .ok out => { w with
        counts := out.counts
        tcb := out.tcb
        sent := w.sent ++ acceptedBytes payload out.result }
  | .ack ackNum nowMs =>
    let tcb := (handleAck w.tcb ackNum nowMs).2
    { w with tcb := tcb, acked := w.acked + Serial.dist w.tcb.sndUna tcb.sndUna }
  | .reconcile => match reconcileNsSend w.counts w.sock.netNsId w.tcb with
    | .error _ => { w with panicked := true }
    | .ok (counts, tcb) => { w with counts := counts, tcb := tcb }
  | .other counts tcb mark => { w with
      counts := counts
      tcb := { tcb with
        sndUna := w.tcb.sndUna
        sndNxt := w.tcb.sndNxt
        sendBuffer := w.tcb.sendBuffer.map fun seg =>
          { mark seg with seq := seg.seq, data := seg.data }
        sendBufferBytes := w.tcb.sendBufferBytes
        nsChargedSendBytes := w.tcb.nsChargedSendBytes } }

/-- The execution of a run. -/
def execAll (w : SendWorld) (ops : List SendOp) : SendWorld := ops.foldl exec w

/-- The chunks in the send buffer. -/
def chunks (w : SendWorld) : List Chunk := w.tcb.sendBuffer.values.map TcpSegment.chunk

/-- The retransmission buffer is safe: `sndUna` and `sndNxt` are the ends of the unacknowledged part
of the history, which is shorter than half of the range of sequence numbers, and the buffer is a
contiguous run of segments from a position at or before `sndUna` to `sndNxt` that holds the bytes
that were sent there.  No segment in it is acknowledged as a whole. -/
structure Safe (w : SendWorld) : Prop where
  panicked : w.panicked = false
  funded : Funded w.sock.netNsId w.tcb
  acked_le : w.acked ≤ w.sent.length
  outstanding : w.sent.length < w.acked + 2 ^ 31
  sndUna : w.tcb.sndUna = seqAt w.base w.acked
  sndNxt : w.tcb.sndNxt = seqAt w.base w.sent.length
  counted : w.tcb.sendBufferBytes = (bytes w.chunks).length
  retained : ∃ start ≤ w.acked, Contiguous (seqAt w.base start) w.chunks ∧
    bytes w.chunks = w.sent.drop start ∧
    ∀ seg ∈ w.tcb.sendBuffer.values.head?, w.acked < start + seg.data.length

namespace Safe

variable {w : SendWorld}

/-- The bytes in flight are the unacknowledged part of the history. -/
lemma bytesInFlight (h : w.Safe) : w.tcb.bytesInFlight = w.sent.length - w.acked := by
  have hdist := dist_seqAt w.base h.acked_le h.outstanding
  rwa [← h.sndUna, ← h.sndNxt] at hdist

lemma start (sock : Socket) (counts : Counts) (tcb : TcpControlBlock) :
    (SendWorld.start sock counts tcb).Safe where
  panicked := rfl
  funded := .inr (Nat.zero_le _)
  acked_le := le_rfl
  outstanding := by
    change 0 < 0 + 2 ^ 31
    decide
  sndUna := (add_zero _).symm
  sndNxt := (add_zero _).symm
  counted := rfl
  retained := ⟨0, le_rfl, trivial, rfl, fun _ hseg => by cases hseg⟩

variable (h : w.Safe)
include h

lemma congr {counts : Counts} {tcb : TcpControlBlock} (hsame : SameSend w.tcb tcb)
    (hfund : Funded w.sock.netNsId tcb) : Safe { w with counts := counts, tcb := tcb } where
  __ := h
  funded := hfund
  sndUna := hsame.sndUna.trans h.sndUna
  sndNxt := hsame.sndNxt.trans h.sndNxt
  counted := by
    rw [chunks, hsame.sendBuffer, hsame.sendBufferBytes]
    exact h.counted
  retained := by
    rw [chunks, hsame.sendBuffer]
    exact h.retained

lemma send (payload : List UInt8) (env : SendEnv) : (w.exec (.send payload env)).Safe := by
  obtain ⟨⟨counts, tcb, result⟩, hout, hcontract, hfund, -⟩ :=
    tcpSend_spec w.sock w.counts payload env h.funded
  rw [exec, hout]
  cases result with
  | error =>
    simp only [acceptedBytes, append_nil]
    exact h.congr hcontract hfund
  | ok r =>
    obtain ⟨n, packets⟩ := r
    obtain ⟨hle, hbytes, hrun, hnxt, huna, hcount, hcap, news, hbuffer, hnews, hne⟩ := hcontract
    obtain ⟨start, hstart, hcontig, hstored, hhead⟩ := h.retained
    have hlen : (payload.take n).length = n := by simpa using hle
    have hchunks : tcb.sendBuffer.values.map chunk =
        w.chunks ++ packets.map WirePacket.chunk := by
      rw [hbuffer, map_append, hnews, chunks]
    have hend : start + (bytes w.chunks).length = w.sent.length := by
      rw [hstored, length_drop]
      have := h.acked_le
      omega
    have htotal : (bytes (w.chunks ++ packets.map WirePacket.chunk)).length =
        (bytes w.chunks).length + n := by
      rw [bytes_append, hbytes, length_append, hlen]
    refine ⟨h.panicked, hfund, ?_, ?_, huna.trans h.sndUna, ?_, ?_, start, hstart, ?_, ?_, ?_⟩
    · simpa [acceptedBytes] using Nat.le_add_right_of_le h.acked_le
    · have hhalf := h.outstanding
      have hcounted := h.counted
      have hmax : tcpMaxSendBufferBytes < 2 ^ 31 := by decide
      simp only [acceptedBytes, length_append, hlen]
      rcases hcap with rfl | hcap <;> omega
    · simp only [acceptedBytes, length_append, hlen]
      rw [hnxt, h.sndNxt, seqAt_add]
    · change tcb.sendBufferBytes = (bytes (tcb.sendBuffer.values.map _)).length
      rw [hchunks, htotal, hcount, h.counted]
    · change Contiguous _ (tcb.sendBuffer.values.map _)
      rw [hchunks, contiguous_append, seqAt_add, hend, ← h.sndNxt]
      exact ⟨hcontig, hrun⟩
    · change bytes (tcb.sendBuffer.values.map _) = (w.sent ++ payload.take n).drop start
      have hinside : start ≤ w.sent.length := by omega
      rw [hchunks, bytes_append, hstored, hbytes, drop_append_of_le_length hinside]
    · change ∀ seg ∈ tcb.sendBuffer.values.head?, w.acked < start + seg.data.length
      intro seg hseg
      rw [hbuffer] at hseg
      cases hold : w.tcb.sendBuffer.values with
      | cons =>
        rw [hold] at hseg hhead
        exact hhead seg hseg
      | nil =>
        -- an empty buffer means that all that was sent is acknowledged
        have hempty : (bytes w.chunks).length = 0 := by simp [chunks, hold]
        have hpos : 0 < seg.data.length :=
          length_pos_iff.mpr (hne seg (mem_of_mem_head? (by simpa [hold] using hseg)))
        have := h.acked_le
        omega

/-- What `handle_ack` accepts. -/
lemma acceptable_iff (ackNum : Seq) :
    (seqGt ackNum w.tcb.sndNxt = false ∧ seqGt ackNum w.tcb.sndUna = true) ↔
      0 < Serial.dist w.tcb.sndUna ackNum ∧
        Serial.dist w.tcb.sndUna ackNum ≤ w.tcb.bytesInFlight := by
  have hle := h.acked_le
  have hhalf := h.outstanding
  rw [h.sndUna, h.sndNxt, h.bytesInFlight]
  have hack : ackNum = seqAt w.base (w.acked + Serial.dist (seqAt w.base w.acked) ackNum) := by
    rw [← seqAt_add, add_dist]
  have huna : seqGt ackNum (seqAt w.base w.acked) = true ↔ _ :=
    gt_iff_dist (by decide) (seqAt w.base w.acked) ackNum
  generalize Serial.dist (seqAt w.base w.acked) ackNum = d at hack huna ⊢
  rw [huna]
  rcases lt_or_ge d (2 ^ 31) with hd | hd
  · have hnxt : seqGt ackNum (seqAt w.base w.sent.length) = true ↔ w.sent.length < w.acked + d := by
      rw [hack]
      exact gt_add_iff (by decide) w.base ⟨by omega, by omega⟩
    rw [← Bool.not_eq_true, hnxt]
    omega
  constructor
  · rintro ⟨-, -, hlt⟩
    omega
  rintro ⟨-, hlt⟩
  omega

/-- What an accepted acknowledgement keeps: the segments that end behind it, which hold the rest of
the history from a position at or before it. -/
lemma kept {ackNum : Seq} (hin : Serial.dist w.tcb.sndUna ackNum ≤ w.tcb.bytesInFlight) :
    let segs := w.tcb.sendBuffer.values
    let kept := segs.dropWhile (ackedBy ackNum)
    let gone := segs.takeWhile (ackedBy ackNum)
    kept = segs.filter (fun seg =>
      Serial.dist w.tcb.sndUna ackNum < Serial.dist w.tcb.sndUna seg.endSeq) ∧
    (bytes (kept.map chunk)).length =
      w.tcb.sendBufferBytes - (bytes (gone.map chunk)).length ∧
    ∃ start ≤ w.acked + Serial.dist w.tcb.sndUna ackNum,
      Contiguous (seqAt w.base start) (kept.map chunk) ∧
      bytes (kept.map chunk) = w.sent.drop start ∧
      ∀ seg ∈ kept.head?, w.acked + Serial.dist w.tcb.sndUna ackNum < start + seg.data.length := by
  obtain ⟨start, hstart, hcontig, hstored, hhead⟩ := h.retained
  have hle := h.acked_le
  have hack : ackNum = seqAt w.base (w.acked + Serial.dist w.tcb.sndUna ackNum) := by
    rw [← seqAt_add, ← h.sndUna, add_dist]
  have hend : start + (bytes w.chunks).length = w.sent.length := by
    rw [hstored, length_drop]
    omega
  rw [h.bytesInFlight] at hin
  have hkeep := dropWhile_ackedBy hcontig hend hhead (Nat.le_add_right w.acked _)
    (by omega : w.acked + Serial.dist w.tcb.sndUna ackNum ≤ _) h.outstanding
  rw [← hack, ← h.sndUna] at hkeep
  obtain ⟨hfilter, start', hstart', hmax, hfirst⟩ := hkeep
  have hsplit : w.chunks =
      (w.tcb.sendBuffer.values.takeWhile (ackedBy ackNum)).map chunk ++
        (w.tcb.sendBuffer.values.dropWhile (ackedBy ackNum)).map chunk := by
    rw [← map_append, takeWhile_append_dropWhile, chunks]
  rw [hsplit, contiguous_append, seqAt_add, ← hstart'] at hcontig
  rw [hsplit, bytes_append] at hstored
  refine ⟨hfilter, ?_, start', by omega, hcontig.2, ?_, hfirst⟩
  · rw [h.counted, hsplit, bytes_append, length_append, Nat.add_sub_cancel_left]
  · rw [hstart', ← drop_drop, ← hstored, drop_left]

lemma ackContract (ackNum : Seq) (nowMs : ℕ) :
    AckContract w.tcb ackNum (handleAck w.tcb ackNum nowMs).2 := by
  unfold AckContract
  rcases handleAck_cases w.tcb ackNum nowMs with
    ⟨hnxt, huna, hsndUna, hsndNxt, hvalues, -, -⟩ | ⟨hrefused, hsame, -⟩
  · have hin := (h.acceptable_iff ackNum).mp ⟨hnxt, huna⟩
    rw [if_pos hin]
    exact ⟨hsndUna, hsndNxt, hvalues.trans (h.kept hin.2).1⟩
  rw [if_neg]
  · exact hsame
  rw [← h.acceptable_iff]
  rcases hrefused with hnxt | huna
  · simp [hnxt]
  · simp [huna]

lemma ack (ackNum : Seq) (nowMs : ℕ) : (w.exec (.ack ackNum nowMs)).Safe := by
  rw [exec]
  rcases handleAck_cases w.tcb ackNum nowMs with
    ⟨hnxt, huna, hsndUna, hsndNxt, hvalues, hbytes, hcharged⟩ | ⟨-, hsame, hcharged⟩
  · have hin := (h.acceptable_iff ackNum).mp ⟨hnxt, huna⟩
    obtain ⟨-, hcount, start, hstart, hcontig, hstored, hhead⟩ := h.kept hin.2
    have hle := hin.2
    rw [h.bytesInFlight] at hle
    have hacked := h.acked_le
    have hhalf := h.outstanding
    refine ⟨h.panicked, ?_, ?_, ?_, ?_, hsndNxt.trans h.sndNxt, ?_, ?_⟩
    · refine h.funded.imp_right fun hfund => ?_
      rw [hbytes, hcharged]
      exact (Nat.sub_le _ _).trans hfund
    · dsimp only
      rw [hsndUna]
      omega
    · dsimp only
      rw [hsndUna]
      omega
    · dsimp only
      rw [hsndUna, ← seqAt_add, ← h.sndUna, add_dist]
    · rw [chunks, hvalues, hbytes]
      exact hcount.symm
    · rw [chunks, hvalues, hsndUna]
      exact ⟨start, hstart, hcontig, hstored, hhead⟩
  · have hzero : Serial.dist w.tcb.sndUna (handleAck w.tcb ackNum nowMs).2.sndUna = 0 := by
      rw [hsame.sndUna, Serial.dist, BitVec.sub_self]
      rfl
    have hfund : Funded w.sock.netNsId (handleAck w.tcb ackNum nowMs).2 := by
      rw [Funded, hsame.sendBufferBytes, hcharged]
      exact h.funded
    rw [hzero, add_zero]
    exact h.congr hsame hfund

lemma exec (op : SendOp) : (w.exec op).Safe := by
  cases op with
  | send payload env => exact h.send payload env
  | ack ackNum nowMs => exact h.ack ackNum nowMs
  | reconcile =>
    obtain ⟨counts, charged, hrec, hcharged⟩ := reconcileNsSend_ok h.funded w.counts
    rw [SendWorld.exec, hrec]
    exact h.congr ⟨rfl, rfl, rfl, rfl⟩ (.inr hcharged)
  | other counts tcb mark =>
    obtain ⟨start, hstart, hcontig, hstored, hhead⟩ := h.retained
    have hchunks : (w.exec (.other counts tcb mark)).chunks = w.chunks := by
      simp only [SendWorld.exec, chunks, BoundedVec.values_map, map_map]
      rfl
    refine ⟨h.panicked, h.funded, h.acked_le, h.outstanding, h.sndUna, h.sndNxt, ?_, start, hstart,
      ?_, ?_, ?_⟩
    · rw [hchunks]
      exact h.counted
    · rw [hchunks]
      exact hcontig
    · rw [hchunks]
      exact hstored
    · intro seg hseg
      simp only [SendWorld.exec, BoundedVec.values_map, head?_map] at hseg
      obtain ⟨old, hold, rfl⟩ := Option.mem_map.mp hseg
      exact hhead old hold

lemma execAll (ops : List SendOp) : (w.execAll ops).Safe := by
  induction ops generalizing w with
  | nil => exact h
  | cons op ops ih => exact ih (h.exec op)

end Safe

/-- In every run of sends, with allocations that fail at any chunk, and of arbitrary
acknowledgements, the retransmission buffer is safe, and the next acknowledgement and the next send
keep their contracts. -/
theorem retransmission_buffer_safe (sock : Socket) (counts : Counts) (tcb : TcpControlBlock)
    (ops : List SendOp) :
    let w := (SendWorld.start sock counts tcb).execAll ops
    w.Safe ∧
    (∀ ackNum nowMs, AckContract w.tcb ackNum (handleAck w.tcb ackNum nowMs).2) ∧
    ∀ payload env, ∃ out, tcpSend w.sock w.counts w.tcb payload env = .ok out ∧
      SendContract w.tcb payload out.tcb out.result := by
  have hsafe : ((SendWorld.start sock counts tcb).execAll ops).Safe :=
    (Safe.start sock counts tcb).execAll ops
  refine ⟨hsafe, hsafe.ackContract, fun payload env => ?_⟩
  obtain ⟨out, hout, hcontract, -⟩ := tcpSend_spec _ _ payload env hsafe.funded
  exact ⟨out, hout, hcontract⟩

/-! ## The size of segments -/

/-- The retransmission that `apply_ack_and_cc` builds from the segment at an index of the send
buffer. -/
def retransmission (admitted : Bool) (src dst : Endpoint) (window : ℕ) (tcb : TcpControlBlock)
    (idx : ℕ) : Option WirePacket := do
  let seg ← tcb.sendBuffer.values[idx]?
  tryBuildTcpSegment admitted src dst seg.seq tcb.rcvNxt
    (tcpFlagAck ||| if seg.data ≠ [] then tcpFlagPsh else 0) window seg.data

/-- The segments in the send buffer hold at most `mss` bytes each. -/
def Small (mss : ℕ) (w : SendWorld) : Prop :=
  ∀ seg ∈ w.tcb.sendBuffer.values, seg.data.length ≤ mss

variable {w : SendWorld} {mss : ℕ}

lemma Small.exec (h : w.Small mss) (hsafe : w.Safe) {op : SendOp}
    (hop : ∀ payload env, op = .send payload env → min tcpEthernetMss payload.length ≤ mss) :
    (w.exec op).Small mss := by
  cases op with
  | send payload env =>
    obtain ⟨⟨counts, tcb, result⟩, hout, hcontract, -, hsized⟩ :=
      tcpSend_spec w.sock w.counts payload env hsafe.funded
    rw [SendWorld.exec, hout]
    intro seg hseg
    cases result with
    | error =>
      rw [SameSend.sendBuffer hcontract] at hseg
      exact h seg hseg
    | ok =>
      obtain ⟨-, -, -, -, -, -, -, news, hbuffer, hnews, -⟩ := hcontract
      rw [hbuffer] at hseg
      rcases mem_append.mp hseg with hold | hnew
      · exact h seg hold
      -- a new segment is the chunk of a packet
      have hchunk := mem_map_of_mem (f := chunk) hnew
      rw [hnews] at hchunk
      obtain ⟨packet, hpacket, heq⟩ := mem_map.mp hchunk
      rw [← (Prod.mk.inj heq).2]
      exact (hsized.1 packet hpacket).trans (hop payload env rfl)
  | ack ackNum nowMs =>
    intro seg hseg
    change seg ∈ (handleAck w.tcb ackNum nowMs).2.sendBuffer.values at hseg
    rcases handleAck_cases w.tcb ackNum nowMs with ⟨-, -, -, -, hvalues, -, -⟩ | ⟨-, hsame, -⟩
    · rw [hvalues] at hseg
      exact h seg ((dropWhile_sublist _).mem hseg)
    · rw [hsame.sendBuffer] at hseg
      exact h seg hseg
  | reconcile =>
    obtain ⟨counts, charged, hrec, -⟩ := reconcileNsSend_ok hsafe.funded w.counts
    rw [SendWorld.exec, hrec]
    exact h
  | other =>
    intro seg hseg
    simp only [SendWorld.exec, BoundedVec.values_map, mem_map] at hseg
    obtain ⟨old, hold, rfl⟩ := hseg
    exact h old hold

lemma Small.execAll (h : w.Small mss) (hsafe : w.Safe) {ops : List SendOp}
    (hops : ∀ payload env, .send payload env ∈ ops → min tcpEthernetMss payload.length ≤ mss) :
    (w.execAll ops).Small mss := by
  induction ops generalizing w with
  | nil => exact h
  | cons op ops ih =>
    refine ih (h.exec hsafe fun payload env heq => ?_) (hsafe.exec op) fun payload env hmem => ?_
    · exact hops payload env (heq ▸ mem_cons_self)
    · exact hops payload env (mem_cons_of_mem _ hmem)

/-- After every run of a connection, the packets of a send keep to the MSS of the peer if and only if
the MSS is not less than what fits of the payload into an Ethernet frame; and when all sends of the
run were so, the retransmissions keep to it too. -/
theorem mss_respected_iff (sock : Socket) (counts : Counts) (tcb : TcpControlBlock)
    (ops : List SendOp) :
    let w := (SendWorld.start sock counts tcb).execAll ops
    (∀ payload env, ∃ out, tcpSend w.sock w.counts w.tcb payload env = .ok out ∧
      ∀ n packets, out.result = .ok (n, packets) → packets ≠ [] →
        ((∀ packet ∈ packets, packet.payload.length ≤ w.tcb.sndMss) ↔
          min tcpEthernetMss payload.length ≤ w.tcb.sndMss)) ∧
    ((∀ payload env, .send payload env ∈ ops →
        min tcpEthernetMss payload.length ≤ w.tcb.sndMss) →
      ∀ admitted src dst window idx packet,
        retransmission admitted src dst window w.tcb idx = some packet →
        packet.payload.length ≤ w.tcb.sndMss) := by
  have hstart := Safe.start sock counts tcb
  have hsafe := hstart.execAll ops
  constructor
  · intro payload env
    obtain ⟨out, hout, -, -, hsized⟩ := tcpSend_spec _ _ payload env hsafe.funded
    refine ⟨out, hout, fun n packets hresult hne => ?_⟩
    rw [hresult] at hsized
    obtain ⟨first, hfirst⟩ := Option.isSome_iff_exists.mp (isSome_head?.mpr hne)
    constructor
    · intro hall
      rw [← hsized.2 first hfirst]
      exact hall first (mem_of_mem_head? hfirst)
    · intro hmss packet hpacket
      exact (hsized.1 packet hpacket).trans hmss
  · intro hops admitted src dst window idx packet hpacket
    obtain ⟨seg, hseg, hbuild⟩ := Option.bind_eq_some_iff.mp hpacket
    have hsmall (mss) : (SendWorld.start sock counts tcb).Small mss := fun _ hmem => by cases hmem
    rw [(Prod.mk.inj (chunk_of_tryBuild hbuild)).2]
    exact (hsmall _).execAll hstart hops seg (mem_of_getElem? hseg)

/-- A connection to a peer that sent no MSS option. -/
def noMssOption : SendWorld :=
  .start ⟨.stream, .tcp, false, 0, some ⟨1, 1⟩, some ⟨2, 2⟩⟩ .new
    { (default : TcpControlBlock) with
      state := .established, sndMss := 536, sndWnd := 1024, cwnd := 5360 }

/-- Every request is granted. -/
def granting : SendEnv :=
  let granted : AllocEnv := ⟨fun target => some ⟨target, le_rfl⟩, true⟩
  ⟨none, 0, granted, fun _ => ⟨granted, true, granted, granted, granted⟩⟩

/-- 600 bytes are sent, and retransmitted, in one segment to a peer that takes 536. -/
theorem six_hundred_in_one_segment :
    let payload := replicate 600 0
    let tcb := (noMssOption.exec (.send payload granting)).tcb
    noMssOption.tcb.sndMss = 536 ∧ tcb.sndMss = 536 ∧
    ((tcpSend noMssOption.sock noMssOption.counts noMssOption.tcb payload granting).toOption.bind
      (·.result.toOption)).map (·.2.map (·.payload.length)) = some [600] ∧
    (retransmission true ⟨1, 1⟩ ⟨2, 2⟩ 0 tcb 0).map (·.payload.length) = some 600 := by
  decide +kernel

end SendWorld

end Nilix.Net.Tcp
