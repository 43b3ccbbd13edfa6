import Nilix.Net.TcpPieces

/-!
# In-order delivery

A peer sends a fixed stream of bytes with one FIN at its end.  Its segments arrive in any split and
order, with duplicates and overlaps, and the application reads what is delivered.

The invariant says that the out-of-order queue holds separated pieces of the stream near `rcvNxt`,
with the right number of bytes.  The bound on this number is what keeps the queue near: a merged
segment can start before `rcvNxt` when the draining was interrupted by a failed allocation, but it
is never longer than the window.
-/

namespace Nilix.Net.Tcp

open TcpControlBlock Piece List Bool

/-- A bound on the distance of the positions of the queue from `rcvNxt`. -/
def reach : ℕ := 2 ^ 19

/-- The same receiving side, apart from the out-of-order queue. -/
structure SameRecv (tcb tcb' : TcpControlBlock) : Prop where
  state : tcb'.state = tcb.state
  irs : tcb'.irs = tcb.irs
  rcvNxt : tcb'.rcvNxt = tcb.rcvNxt
  rcvWnd : tcb'.rcvWnd = tcb.rcvWnd
  recvBuffer : tcb'.recvBuffer = tcb.recvBuffer
  finReceived : tcb'.finReceived = tcb.finReceived

/-- The sequence number of the first byte of the stream. -/
def TcpControlBlock.streamBase (tcb : TcpControlBlock) : Seq := tcb.irs + 1

lemma TcpControlBlock.streamBase_congr {tcb tcb' : TcpControlBlock} (h : tcb'.irs = tcb.irs) :
    tcb'.streamBase = tcb.streamBase := congrArg (· + 1) h

/-- The out-of-order queue holds the pieces, which are separated and near the position `n`. -/
structure Queued (stream : List UInt8) (n : ℕ) (tcb : TcpControlBlock) (pieces : List Piece) :
    Prop where
  values : tcb.oooQueue.values = pieces.map (Piece.toSeg tcb.streamBase stream)
  good : ∀ p ∈ pieces, p.Good stream.length
  separated : pieces.Pairwise fun a b => a.stop < b.start
  behind : ∀ p ∈ pieces, n ≤ p.start + reach
  ahead : ∀ p ∈ pieces, p.stop ≤ n + reach
  bytes : tcb.oooBytes = (pieces.map Piece.size).sum
  bytes_le : tcb.oooBytes ≤ tcb.rcvWnd
  wnd_le : tcb.rcvWnd ≤ tcpDefaultRcvWindowBytes

section Insert

variable {stream : List UInt8} {n : ℕ} {tcb : TcpControlBlock} {pieces : List Piece}
  {new m : Piece}

/-- The interval around `n` is short. -/
lemma reach_half (n : ℕ) : n + reach + 1 < (n - reach) + 2 ^ 31 := by
  unfold reach
  omega

/-- The pieces of the queue are in the interval around `n`. -/
lemma Queued.within (h : Queued stream n tcb pieces) :
    ∀ p ∈ pieces, p.Good stream.length ∧ p.Within (n - reach) (n + reach + 1) := by
  intro p hp
  have hbehind := h.behind p hp
  exact ⟨h.good p hp, by omega, Nat.add_le_add_right (h.ahead p hp) 1⟩

lemma foldl_saturatingAdd32 {base : Seq} {queue : List Piece}
    (hgood : ∀ p ∈ queue, p.Good stream.length) {sum : ℕ}
    (hle : sum + (queue.map Piece.size).sum ≤ u32Max) :
    (queue.map (Piece.toSeg base stream)).foldl
      (fun sum removed => saturatingAdd32 sum removed.data.length) sum =
      sum + (queue.map Piece.size).sum := by
  induction queue generalizing sum with
  | nil => rfl
  | cons p queue ih =>
    simp only [map_cons, sum_cons] at hle ⊢
    have hadd : saturatingAdd32 sum (p.toSeg base stream).data.length = sum + p.size := by
      rw [length_toSeg (hgood p mem_cons_self), saturatingAdd32, min_eq_left]
      omega
    rw [foldl_cons, hadd, ih (fun q hq => hgood q (mem_cons_of_mem _ hq)) (by omega), add_assoc]

/-- The sizes of the pieces that touch and of those that do not. -/
lemma sum_size_filter (m : Piece) (pieces : List Piece) :
    ((pieces.filter m.touches).map Piece.size).sum +
      ((pieces.filter fun p => !m.touches p).map Piece.size).sum =
      (pieces.map Piece.size).sum := by
  rw [← sum_append, ← map_append]
  exact ((filter_append_perm m.touches pieces).map Piece.size).sum_eq

lemma apart_of_not_touches {p : Piece} (h : m.touches p = false) :
    p.stop < m.start ∨ m.stop < p.start := by
  rw [Piece.touches, and_eq_false_iff, decide_eq_false_iff_not, decide_eq_false_iff_not] at h
  omega

/-- An insertion without a fault: the queue still holds separated pieces, old ones and ones that end
behind `n`. -/
def Inserts (stream : List UInt8) (n : ℕ) (tcb : TcpControlBlock) (pieces : List Piece)
    (result : Except OooFault (ℕ × TcpControlBlock)) : Prop :=
  ∃ r tcb', result = .ok (r, tcb') ∧ SameRecv tcb tcb' ∧
    ∃ pieces', Queued stream n tcb' pieces' ∧ ∀ p ∈ pieces', p ∈ pieces ∨ n < p.stop

variable (h : Queued stream n tcb pieces)
include h

lemma Inserts.stay (r : ℕ) : Inserts stream n tcb pieces (.ok (r, tcb)) :=
  ⟨r, tcb, rfl, ⟨rfl, rfl, rfl, rfl, rfl, rfl⟩, pieces, h, fun _ hp => .inl hp⟩

/-- The last part of an insertion: the pieces that touch the range give way to a piece inside it. -/
lemma replaceMerged_spec {queue : AdmittedVec OooSegment}
    (hqueue : queue.values = tcb.oooQueue.values)
    (hcap : (pieces.filter fun p => !m.touches p).length < queue.capacity)
    (hm : Piece.SpanInv stream (n - reach) (n + reach + 1) new pieces m) {q : Piece}
    (hq : q.Good stream.length) (hstart : m.start ≤ q.start) (hstop : q.stop ≤ m.stop)
    (hfresh : n < q.stop)
    (hsize : q.size ≤ new.size + ((pieces.filter m.touches).map Piece.size).sum)
    (hroom : tcb.oooBytes + new.size ≤ tcb.rcvWnd) :
    Inserts stream n tcb pieces
      (replaceMerged tcb queue (m.toSpan tcb.streamBase) (q.toSeg tcb.streamBase stream)) := by
  set base := tcb.streamBase
  have hhalf := reach_half n
  have hwithin := h.within
  have hqlt := hq.lt
  have hlo := hm.within.lo
  have hhi := hm.within.hi
  set kept := pieces.filter fun p => !m.touches p with hkept
  have hkeptmem : ∀ p ∈ kept, p ∈ pieces ∧ m.touches p = false := fun p hp => by
    simpa [hkept] using hp
  have hvalues : (queue.filter fun existing => !(m.toSpan base).touches existing).values =
      kept.map (Piece.toSeg base stream) := by
    rw [BoundedVec.values_filter, hqueue, h.values,
      filter_not_touches base hhalf hm hwithin]
  have htotal := sum_size_filter m pieces
  rw [← hkept] at htotal
  have hbytes := h.bytes
  have hmax : tcpDefaultRcvWindowBytes ≤ u32Max := by decide
  have hwnd := h.wnd_le
  have hremoved : ((queue.values.filter (m.toSpan base).touches).foldl
      (fun sum removed => saturatingAdd32 sum removed.data.length) 0) =
      ((pieces.filter m.touches).map Piece.size).sum := by
    rw [hqueue, h.values, filter_touches base hhalf hm hwithin,
      foldl_saturatingAdd32 (fun p hp => h.good p (mem_of_mem_filter hp)) (by omega),
      zero_add]
  have hplace : (kept.map (Piece.toSeg base stream)).findIdx (fun s =>
      seqGt s.seq (q.toSeg base stream).seq) =
      kept.findIdx fun p => decide (q.start < p.start) := by
    rw [findIdx_map]
    refine findIdx_congr_mem fun p hp => ?_
    obtain ⟨hgood, hplo, hphi⟩ := hwithin p (hkeptmem p hp).1
    have hplt := hgood.lt
    exact seqGt_seqAt _ (Serial.near_of_le ⟨hplo, by omega⟩ ⟨by omega, by omega⟩ hhalf)
  have hnewbytes : saturatingAdd32 (tcb.oooBytes - ((pieces.filter m.touches).map Piece.size).sum)
      (q.toSeg base stream).data.length = ((q.place kept).map Piece.size).sum := by
    rw [length_toSeg hq, saturatingAdd32, min_eq_left (by omega), sum_size_place]
    omega
  obtain ⟨queue', hinsert, hqueue'⟩ := BoundedVec.insert?_eq_some
    (v := queue.filter fun existing => !(m.toSpan base).touches existing)
    (by rw [hvalues, length_map]; exact hcap)
    (kept.findIdx fun p => decide (q.start < p.start)) (q.toSeg base stream)
  rw [replaceMerged, hremoved, hnewbytes, hvalues, hplace, hinsert]
  refine ⟨_, _, rfl, ⟨rfl, rfl, rfl, rfl, rfl, rfl⟩, q.place kept, ?_, ?_⟩
  · refine ⟨?_, ?_, ?_, ?_, ?_, rfl, ?_, h.wnd_le⟩
    · rw [hqueue', hvalues, Piece.place, map_append, map_cons, map_take, map_drop]
      rfl
    · exact forall_mem_place hq fun p hp => h.good p (hkeptmem p hp).1
    · refine separated_place (h.separated.sublist filter_sublist)
        (fun p hp => (h.good p (hkeptmem p hp).1).lt) hqlt fun p hp => ?_
      have hapart := apart_of_not_touches (hkeptmem p hp).2
      omega
    · exact forall_mem_place (by omega) fun p hp => h.behind p (hkeptmem p hp).1
    · exact forall_mem_place (by omega) fun p hp => h.ahead p (hkeptmem p hp).1
    · change ((q.place kept).map Piece.size).sum ≤ tcb.rcvWnd
      rw [sum_size_place]
      omega
  · exact forall_mem_place (.inr hfresh) fun p hp => .inl (hkeptmem p hp).1

/-- An insertion of a new piece, as far as it fits into the window. -/
lemma oooMerge_spec (hnew : new.Good stream.length) (hstart : n ≤ new.start)
    (hstop : new.stop ≤ n + reach) (hroom : tcb.oooBytes + new.size ≤ tcb.rcvWnd) (env : OooEnv) :
    Inserts stream n tcb pieces (oooMerge tcb (seqAt tcb.streamBase new.start)
      (slice stream new.start new.stop) new.fin env) := by
  set base := tcb.streamBase
  have hlt := hnew.lt
  have hhalf := reach_half n
  have hwithin : new.Within (n - reach) (n + reach + 1) := ⟨by omega, by omega⟩
  obtain ⟨m, hmerge, hm⟩ := exists_mergeAll base hhalf hnew hwithin h.within
  have hspan : (⟨seqAt base new.start, seqAt base new.stop,
      if new.fin then some (seqAt base new.stop) else none⟩ : MergeSpan) =
      new.toSpan base := rfl
  have hend : seqAt base new.start +
      BitVec.ofNat 32 (slice stream new.start new.stop).length = seqAt base new.stop := by
    rw [length_slice hnew.le, seqAt_add, Nat.add_sub_cancel' hlt.le]
  have htouch := filter_touches base hhalf hm h.within
  have hcount : (pieces.filter m.touches).length + (pieces.filter fun p => !m.touches p).length =
      pieces.length := by
    rw [← length_append]
    exact (filter_append_perm m.touches pieces).length_eq
  have hlen : tcb.oooQueue.values.length = pieces.length := by rw [h.values, length_map]
  have hcap := tcb.oooQueue.length_le
  have hnewstop := hm.spans.le_stop
  have hnewstart := hm.spans.start_le
  rw [oooMerge, hend, hspan, h.values, hmerge, htouch, length_map, length_map]
  dsimp only
  split
  · exact .stay h _
  split
  · exact .stay h _
  rename_i queue hgrown
  -- the queue has room for one more piece than it keeps
  have hqueue : queue.values = tcb.oooQueue.values ∧
      (pieces.filter fun p => !m.touches p).length < queue.capacity := by
    split_ifs at hgrown with hmore
    · obtain ⟨hvalues, hle⟩ := of_ensureVecCapacityFor hgrown
      exact ⟨hvalues, by omega⟩
    cases hgrown
    exact ⟨rfl, by omega⟩
  have hsame' : SameRecv tcb { tcb with oooQueue := queue } := ⟨rfl, rfl, rfl, rfl, rfl, rfl⟩
  have hqueued : Queued stream n { tcb with oooQueue := queue } pieces :=
    { h with values := hqueue.1.trans h.values }
  split
  · obtain ⟨r, tcb', hok, hsame2, hpieces⟩ := replaceMerged_spec hqueued rfl hqueue.2 hm hnew
      hnewstart hnewstop (by omega) le_self_add hroom
    exact ⟨r, tcb', hok, { hsame2 with }, hpieces⟩
  split
  · obtain ⟨r, tcb', hok, hsame2, hpieces⟩ := replaceMerged_spec hqueued rfl hqueue.2 hm hm.good
      le_rfl le_rfl (by omega) (hm.spans.size_le fun p hp => (h.good p hp).lt) hroom
    refine ⟨r, tcb', ?_, { hsame2 with }, hpieces⟩
    rw [← hok, hqueue.1, h.values, mergedData_eq base hhalf hm hnew h.within]
    congr 2
    cases hfin : m.fin <;> simp [Piece.toSpan, hfin]
  · exact ⟨_, _, rfl, hsame', pieces, hqueued, fun p hp => .inl hp⟩

/-- `ooo_insert` of a piece at or behind `rcvNxt`. -/
lemma oooInsert_spec (hfits : tcb.recvBuffer.length ≤ tcpMaxRecvBufferBytes)
    (hnew : new.Good stream.length) (hstart : n ≤ new.start) (hstop : new.stop ≤ n + reach)
    (env : OooEnv) :
    Inserts stream n tcb pieces (oooInsert tcb (seqAt tcb.streamBase new.start)
      (slice stream new.start new.stop) new.fin env) := by
  have hlt := hnew.lt
  have hle := hnew.le
  have hlen : (slice stream new.start new.stop).length = new.stop - new.start := length_slice hle
  have hdata : ¬ (slice stream new.start new.stop = [] ∧ new.fin = false) := by
    rintro ⟨hnil, -⟩
    rw [hnil] at hlen
    change 0 = _ at hlen
    omega
  have hconsumed : tcb.consumed = tcb.recvBuffer.length + tcb.oooBytes := by
    have hwnd := h.wnd_le
    have hbytes := h.bytes_le
    have hsum : tcpMaxRecvBufferBytes + tcpDefaultRcvWindowBytes ≤ u32Max := by decide
    have hu32 : u32Max < 2 ^ 32 := by decide
    rw [TcpControlBlock.consumed, Nat.mod_eq_of_lt (by omega), saturatingAdd32, min_eq_left]
    omega
  have hmod : (new.stop - new.start) % 2 ^ 32 = new.stop - new.start := by
    refine Nat.mod_eq_of_lt ?_
    unfold reach at hstop
    omega
  rw [oooInsert, if_neg hdata]
  dsimp only
  split
  · exact .stay h _
  rename_i havailable
  rw [hlen, hmod, hconsumed]
  rw [hconsumed] at havailable
  generalize havail : tcb.rcvWnd - (tcb.recvBuffer.length + tcb.oooBytes) = available at *
  by_cases htrim : available < new.stop - new.start
  · rw [if_pos htrim]
    split
    · exact .stay h _
    rename_i copied hcopied
    rw [AdmittedVec.tryCopyFromSlice_values hcopied, take_slice (by omega)]
    have htrimmed : (⟨new.start, new.start + available, false⟩ : Piece).Good stream.length :=
      ⟨by change new.start < new.start + available; omega,
        by change new.start + available ≤ _; omega, by simp⟩
    refine oooMerge_spec h htrimmed hstart ?_ ?_ env
    · change new.start + available ≤ _
      omega
    change tcb.oooBytes + (new.start + available - new.start) ≤ _
    omega
  · rw [if_neg htrim]
    split
    · exact .stay h _
    rename_i copied hcopied
    rw [AdmittedVec.tryCopyFromSlice_values hcopied]
    refine oooMerge_spec h hnew hstart hstop ?_ env
    rw [Piece.size]
    omega

end Insert

/-! ## The receiving side at a position -/

/-- The receiving side after the first `n` bytes of the stream: `rcvNxt` is at this position, or
behind the FIN if it was received, which happens only at the end of the stream; all pieces of the
queue end behind the position. -/
structure RecvAt (stream : List UInt8) (n : ℕ) (tcb : TcpControlBlock) : Prop where
  le : n ≤ stream.length
  fits : tcb.recvBuffer.length ≤ tcpMaxRecvBufferBytes
  rcvNxt : tcb.rcvNxt = seqAt tcb.streamBase (n + tcb.finReceived.toNat)
  fin : tcb.finReceived = true → n = stream.length ∧ tcb.state ≠ .established
  queue : ∃ pieces, Queued stream n tcb pieces ∧ ∀ p ∈ pieces, n < p.stop

/-- From the position `n` to the position `n'`, the bytes of the stream in between are delivered. -/
structure Delivers (stream : List UInt8) (n : ℕ) (tcb : TcpControlBlock) (n' : ℕ)
    (tcb' : TcpControlBlock) : Prop where
  le : n ≤ n'
  recvBuffer : tcb'.recvBuffer = tcb.recvBuffer ++ slice stream n n'
  irs : tcb'.irs = tcb.irs

section Receive

variable {stream : List UInt8} {n : ℕ} {tcb tcb' : TcpControlBlock} {pieces : List Piece}

lemma RecvAt.rcvNxt_eq (h : RecvAt stream n tcb) (hfin : tcb.finReceived = false) :
    tcb.rcvNxt = seqAt tcb.streamBase n := by
  rw [h.rcvNxt, hfin]
  rfl

/-- What is left of a part of the stream behind the position `n`. -/
lemma drop_slice_seqAt {base : Seq} {a b : ℕ} (hle : a ≤ n) (hnear : n < a + 2 ^ 31) :
    (slice stream a b).drop (seqAt base n - seqAt base a).toNat = slice stream n b := by
  have hdist : (seqAt base n - seqAt base a).toNat = n - a := dist_seqAt base hle hnear
  rw [hdist, drop_slice, Nat.add_sub_cancel' hle]

lemma Delivers.refl (hbuffer : tcb'.recvBuffer = tcb.recvBuffer) (hirs : tcb'.irs = tcb.irs) :
    Delivers stream n tcb n tcb' := by
  refine ⟨le_rfl, ?_, hirs⟩
  have hnil : slice stream n n = [] := by
    rw [slice, drop_eq_nil_iff]
    exact length_take_le _ _
  rw [hnil, append_nil, hbuffer]

lemma Delivers.length_le {n' : ℕ} (h : Delivers stream n tcb n' tcb') :
    tcb.recvBuffer.length ≤ tcb'.recvBuffer.length := by
  rw [h.recvBuffer]
  simp

lemma Delivers.trans {n1 n2 : ℕ} {tcb1 tcb2 : TcpControlBlock}
    (h1 : Delivers stream n tcb n1 tcb1) (h2 : Delivers stream n1 tcb1 n2 tcb2) :
    Delivers stream n tcb n2 tcb2 := by
  refine ⟨h1.le.trans h2.le, ?_, h2.irs.trans h1.irs⟩
  rw [h2.recvBuffer, h1.recvBuffer, append_assoc, slice_append_slice stream h1.le h2.le]

/-- Taking the first piece out of the queue, at a position at or behind its end. -/
lemma Queued.tail {p : Piece} {n' : ℕ} (h : Queued stream n tcb (p :: pieces)) (hle : n ≤ n')
    (hn' : n' ≤ max n p.stop) (hvalues : tcb'.oooQueue.values = tcb.oooQueue.values.tail)
    (hirs : tcb'.irs = tcb.irs) (hbytes : tcb'.oooBytes = tcb.oooBytes - p.size)
    (hwnd : tcb'.rcvWnd = tcb.rcvWnd) : Queued stream n' tcb' pieces := by
  obtain ⟨hfirst, hseparated⟩ := pairwise_cons.mp h.separated
  have hsum := h.bytes
  rw [map_cons, sum_cons] at hsum
  have hbytesle := h.bytes_le
  refine ⟨?_, fun q hq => h.good q (mem_cons_of_mem _ hq), hseparated, fun q hq => ?_,
    fun q hq => ?_, by omega, by omega, hwnd ▸ h.wnd_le⟩
  · rw [hvalues, h.values, streamBase_congr hirs]
    rfl
  · have hq1 := h.behind q (mem_cons_of_mem _ hq)
    have hq2 := hfirst q hq
    omega
  · have hq1 := h.ahead q (mem_cons_of_mem _ hq)
    omega

/-- What `deliverFront` does with a piece that starts at or before `rcvNxt`. -/
lemma deliverFront_cases (extend : Bool) {p : Piece} (h : Queued stream n tcb (p :: pieces))
    (hrcvNxt : tcb.rcvNxt = seqAt tcb.streamBase n) (hstart : p.start ≤ n) :
    (deliverFront tcb (p.toSeg tcb.streamBase stream) extend = none ∧ n < p.stop) ∨
    ∃ r tcb', deliverFront tcb (p.toSeg tcb.streamBase stream) extend = some (r, tcb') ∧
      Delivers stream n tcb (max n p.stop) tcb' ∧
      tcb'.rcvNxt = seqAt tcb.streamBase (max n p.stop) ∧
      tcb'.recvBuffer.length ≤ max tcb.recvBuffer.length tcpMaxRecvBufferBytes ∧
      tcb'.state = tcb.state ∧ tcb'.finReceived = tcb.finReceived ∧
      tcb'.oooQueue = tcb.oooQueue ∧ tcb'.oooBytes = tcb.oooBytes ∧ tcb'.rcvWnd = tcb.rcvWnd := by
  have hmem := mem_cons_self (a := p) (l := pieces)
  have hgood := h.good p hmem
  have hlt := hgood.lt
  have hbehind := h.behind p hmem
  have hahead := h.ahead p hmem
  have hreach : reach < 2 ^ 20 := by decide
  have hgt : seqGt (p.toSeg tcb.streamBase stream).dataEnd tcb.rcvNxt = decide (n < p.stop) := by
    rw [dataEnd_toSeg hgood, hrcvNxt]
    exact seqGt_seqAt _ ⟨by omega, by omega⟩
  rw [deliverFront, hgt]
  by_cases hmore : n < p.stop
  · have huseful : (p.toSeg tcb.streamBase stream).data.drop
        (tcb.rcvNxt - (p.toSeg tcb.streamBase stream).seq).toNat = slice stream n p.stop := by
      rw [hrcvNxt]
      exact drop_slice_seqAt hstart (by omega)
    have hlen : (slice stream n p.stop).length = p.stop - n := length_slice hgood.le
    have hmax : max n p.stop = p.stop := max_eq_right hmore.le
    rw [decide_eq_true hmore, if_pos rfl]
    dsimp only
    rw [huseful, hlen, hmax]
    split
    · exact .inl ⟨rfl, hmore⟩
    rename_i hroom
    split
    · refine .inr ⟨_, _, rfl, ⟨hmore.le, rfl, rfl⟩, ?_, ?_, rfl, rfl, rfl, rfl, rfl⟩
      · rw [hrcvNxt, seqAt_add, Nat.add_sub_cancel' hmore.le]
      · rw [length_append, hlen]
        omega
    · exact .inl ⟨rfl, hmore⟩
  · have hmax : max n p.stop = n := max_eq_left (Nat.le_of_not_lt hmore)
    rw [decide_eq_false hmore, if_neg (by decide), hmax]
    exact .inr ⟨_, _, rfl, .refl rfl rfl, hrcvNxt, le_max_left _ _, rfl, rfl, rfl, rfl, rfl⟩

lemma RecvAt.of_queued (h : Queued stream n tcb pieces) (hle : n ≤ stream.length)
    (hfits : tcb.recvBuffer.length ≤ tcpMaxRecvBufferBytes)
    (hrcvNxt : tcb.rcvNxt = seqAt tcb.streamBase n) (hfin : tcb.finReceived = false)
    (hfresh : ∀ p ∈ pieces, n < p.stop) : RecvAt stream n tcb := by
  refine ⟨hle, hfits, ?_, fun hf => ?_, pieces, h, hfresh⟩
  · rw [hrcvNxt, hfin]
    rfl
  rw [hfin] at hf
  cases hf

/-- Emptying the queue after the FIN at the end of the stream. -/
lemma RecvAt.purge (h : Queued stream n tcb pieces) (hn : n = stream.length)
    (hfits : tcb.recvBuffer.length ≤ tcpMaxRecvBufferBytes) (hqueue : tcb'.oooQueue.values = [])
    (hirs : tcb'.irs = tcb.irs) (hbytes : tcb'.oooBytes =
      tcb.oooQueue.values.foldl (fun sum stale => sum - stale.data.length) tcb.oooBytes)
    (hwnd : tcb'.rcvWnd = tcb.rcvWnd) (hbuffer : tcb'.recvBuffer = tcb.recvBuffer)
    (hfin : tcb'.finReceived = true) (hstate : tcb'.state ≠ .established)
    (hrcvNxt : tcb'.rcvNxt = seqAt tcb.streamBase (n + 1)) : RecvAt stream n tcb' := by
  have hfold : ∀ (queue : List Piece), (∀ p ∈ queue, p.Good stream.length) → ∀ sum : ℕ,
      (queue.map (Piece.toSeg tcb.streamBase stream)).foldl
        (fun sum stale => sum - stale.data.length) sum = sum - (queue.map Piece.size).sum := by
    intro queue
    induction queue with
    | nil => exact fun _ _ => rfl
    | cons p queue ih =>
      intro hgood sum
      rw [map_cons, foldl_cons, length_toSeg (hgood p mem_cons_self),
        ih (fun q hq => hgood q (mem_cons_of_mem _ hq)), map_cons, sum_cons,
        Nat.sub_add_eq]
  have hzero : tcb'.oooBytes = 0 := by
    rw [hbytes, h.values, hfold pieces h.good, h.bytes, Nat.sub_self]
  refine ⟨hn.le, hbuffer ▸ hfits, ?_, fun _ => ⟨hn, hstate⟩, [], ?_, nofun⟩
  · rw [hrcvNxt, hfin, streamBase_congr hirs]
    rfl
  refine ⟨hqueue, nofun, Pairwise.nil, nofun, nofun, hzero, ?_, hwnd ▸ h.wnd_le⟩
  rw [hzero]
  exact Nat.zero_le _

/-- The draining delivers bytes of the stream, and takes a FIN only at its end. -/
lemma drainLoop_spec (extend : ℕ → Bool) (h : Queued stream n tcb pieces)
    (hle : n ≤ stream.length) (hfits : tcb.recvBuffer.length ≤ tcpMaxRecvBufferBytes)
    (hrcvNxt : tcb.rcvNxt = seqAt tcb.streamBase n) (hfin : tcb.finReceived = false)
    (delivered : ℕ) :
    ∃ n', RecvAt stream n' (drainLoop extend tcb.oooQueue.values delivered tcb).2 ∧
      Delivers stream n tcb n' (drainLoop extend tcb.oooQueue.values delivered tcb).2 := by
  induction pieces generalizing n tcb delivered with
  | nil =>
    rw [h.values]
    exact ⟨n, .of_queued h hle hfits hrcvNxt hfin nofun, .refl rfl rfl⟩
  | cons p pieces ih =>
    have hmem := mem_cons_self (a := p) (l := pieces)
    obtain ⟨hfirst, -⟩ := pairwise_cons.mp h.separated
    have hgood := h.good p hmem
    have hlt := hgood.lt
    have hbehind := h.behind p hmem
    have hahead := h.ahead p hmem
    have hreach : reach < 2 ^ 20 := by decide
    have hlater : ∀ {x : ℕ}, x < p.stop → ∀ q ∈ p :: pieces, x < q.stop := by
      intro x hx q hq
      rcases mem_cons.mp hq with rfl | hq
      · exact hx
      have hq1 := hfirst q hq
      have hq2 := (h.good q (mem_cons_of_mem _ hq)).lt
      omega
    have hseq : seqLe (p.toSeg tcb.streamBase stream).seq tcb.rcvNxt = decide (p.start ≤ n) := by
      rw [hrcvNxt]
      exact seqLe_seqAt _ ⟨by omega, by omega⟩
    rw [h.values, map_cons, drainLoop, hseq]
    by_cases hstart : p.start ≤ n
    swap
    · rw [decide_eq_false hstart, if_neg (by decide)]
      exact ⟨n, .of_queued h hle hfits hrcvNxt hfin (hlater (by omega)), .refl rfl rfl⟩
    rw [decide_eq_true hstart, if_pos rfl]
    rcases deliverFront_cases (extend (pieces.map (Piece.toSeg tcb.streamBase stream)).length) h
        hrcvNxt hstart with
      ⟨hnone, hmore⟩ | ⟨r, tcb1, hsome, hdelivers, hnxt, hfits1, hstate, hfin1, hqueue, hbytes, hwnd⟩
    · rw [hnone]
      exact ⟨n, .of_queued h hle hfits hrcvNxt hfin (hlater hmore), .refl rfl rfl⟩
    rw [hsome]
    dsimp only
    have hbase := streamBase_congr hdelivers.irs
    have htail : Queued stream (max n p.stop) { tcb1 with
        oooQueue := tcb1.oooQueue.tail
        oooBytes := tcb1.oooBytes - (p.toSeg tcb.streamBase stream).data.length } pieces := by
      refine h.tail (le_max_left _ _) le_rfl ?_ hdelivers.irs ?_ hwnd
      · rw [hqueue]
        rfl
      rw [hbytes, length_toSeg hgood]
    have hle1 : max n p.stop ≤ stream.length := max_le hle hgood.le
    have hfits1' : tcb1.recvBuffer.length ≤ tcpMaxRecvBufferBytes := by omega
    have hvalues : tcb1.oooQueue.tail.values = pieces.map (Piece.toSeg tcb.streamBase stream) := by
      rw [hqueue, BoundedVec.values_tail, h.values]
      rfl
    split
    · rename_i hcond
      rw [and_eq_true, beq_iff_eq, dataEnd_toSeg hgood, hnxt] at hcond
      have hend : max n p.stop = stream.length := by
        have hpend := hgood.fin hcond.1
        omega
      refine ⟨max n p.stop, RecvAt.purge htail hend hfits1' rfl rfl rfl rfl rfl rfl ?_ ?_,
        hdelivers.le, hdelivers.recvBuffer, hdelivers.irs⟩
      · change tcb1.state.afterFin ≠ _
        cases tcb1.state <;> decide
      change tcb1.rcvNxt + 1 = seqAt tcb1.streamBase _
      rw [hnxt, hbase]
      exact seqAt_add _ _ 1
    · rw [← hbase] at hnxt
      obtain ⟨n', hrecv, hdel⟩ := ih htail hle1 hfits1' hnxt (hfin1.trans hfin)
        (saturatingAdd32 delivered r)
      rw [hvalues] at hrecv hdel
      refine ⟨n', hrecv, hdelivers.le.trans hdel.le, ?_, hdel.irs.trans hdelivers.irs⟩
      exact (hdelivers.trans { hdel with }).recvBuffer

/-- Draining at any time: with a received FIN the queue is empty. -/
lemma RecvAt.drain (h : RecvAt stream n tcb) (extend : ℕ → Bool) :
    ∃ n', RecvAt stream n' (oooDrainContiguous tcb extend).2 ∧
      Delivers stream n tcb n' (oooDrainContiguous tcb extend).2 ∧
      (tcb.finReceived = true → (oooDrainContiguous tcb extend).2.finReceived = true) := by
  obtain ⟨pieces, hqueued, hfresh⟩ := h.queue
  cases hfin : tcb.finReceived with
  | false =>
    obtain ⟨n', hrecv, hdel⟩ := drainLoop_spec extend hqueued h.le h.fits (h.rcvNxt_eq hfin) hfin 0
    exact ⟨n', hrecv, hdel, nofun⟩
  | true =>
    have hnil : pieces = [] := by
      by_contra hne
      obtain ⟨p, hp⟩ := exists_mem_of_ne_nil _ hne
      exact absurd (hqueued.good p hp).le (not_le.mpr ((h.fin hfin).1 ▸ hfresh p hp))
    have hdone : (oooDrainContiguous tcb extend).2 = tcb := by
      rw [oooDrainContiguous, hqueued.values, hnil]
      rfl
    rw [hdone]
    exact ⟨n, h, .refl rfl rfl, fun _ => hfin⟩

end Receive

/-! ## Segments of the peer -/

/-- A segment of the peer: the position of its first byte, its length, whether it carries the FIN,
and the acknowledgement. -/
structure PeerSegment where
  pos : ℕ
  len : ℕ
  fin : Bool
  ack : Bool
  ackNum : Seq

namespace PeerSegment

/-- The segment on the wire. -/
def toSegment (base : Seq) (stream : List UInt8) (seg : PeerSegment) : Segment where
  seqNum := seqAt base seg.pos
  ackNum := seg.ackNum
  ack := seg.ack
  fin := seg.fin
  payload := slice stream seg.pos (seg.pos + seg.len)

/-- The segment is consistent with the stream and fits into an IP packet, the FIN is at the end of
the stream, and its positions are less than half of the range of sequence numbers away from the
window that starts at the position `n`, on either side.  All segments inside the window are so, and
so are the duplicates of the last two gigabytes. -/
structure Consistent (stream : List UInt8) (n wnd : ℕ) (seg : PeerSegment) : Prop where
  le : seg.pos + seg.len ≤ stream.length
  len_le : seg.len ≤ 65535
  fin : seg.fin = true → seg.pos + seg.len = stream.length
  recent : n + max wnd 1 < seg.pos + 2 ^ 31
  near : seg.pos + seg.len + 1 < n + 2 ^ 31

instance (stream : List UInt8) (n wnd : ℕ) (seg : PeerSegment) :
    Decidable (seg.Consistent stream n wnd) :=
  decidable_of_iff (seg.pos + seg.len ≤ stream.length ∧ seg.len ≤ 65535 ∧
      (seg.fin = true → seg.pos + seg.len = stream.length) ∧ n + max wnd 1 < seg.pos + 2 ^ 31 ∧
      seg.pos + seg.len + 1 < n + 2 ^ 31)
    ⟨fun ⟨h1, h2, h3, h4, h5⟩ => ⟨h1, h2, h3, h4, h5⟩, fun ⟨h1, h2, h3, h4, h5⟩ => ⟨h1, h2, h3, h4, h5⟩⟩

section Window

variable {base : Seq} {stream : List UInt8} {n wnd : ℕ} {seg : PeerSegment}

lemma length_payload (h : seg.Consistent stream n wnd) :
    (seg.toSegment base stream).payload.length = seg.len := by
  change (slice stream seg.pos (seg.pos + seg.len)).length = _
  rw [length_slice h.le, Nat.add_sub_cancel_left]

lemma dataEnd_toSegment (h : seg.Consistent stream n wnd) :
    (seg.toSegment base stream).dataEnd = seqAt base (seg.pos + seg.len) := by
  rw [Segment.dataEnd, length_payload h]
  exact seqAt_add base seg.pos seg.len

/-- A position that is near the window is in it if it passes the check. -/
lemma lt_of_seqInWindow {x size : ℕ} (h : seqInWindow (seqAt base x) (seqAt base n) size = true)
    (hsize : size < 2 ^ 31) (hlo : n + size < x + 2 ^ 31) (hhi : x < n + 2 ^ 31) :
    x < n + size := by
  rw [seqInWindow, seqAt_add] at h
  split at h
  · cases h
  have hle : seqLe (seqAt base n) (seqAt base (n + size)) = true := by
    rw [seqLe_seqAt base ⟨by omega, by omega⟩]
    exact decide_eq_true le_self_add
  rw [if_pos hle, and_eq_true, seqLt_seqAt base ⟨by omega, by omega⟩, decide_eq_true_iff] at h
  exact h.2

/-- A segment that passes the check of the window ends near `rcvNxt`. -/
lemma le_of_inRecvWindow (hseg : seg.Consistent stream n wnd)
    (hwnd : wnd ≤ tcpDefaultRcvWindowBytes)
    (h : (seg.toSegment base stream).inRecvWindow (seqAt base n) wnd = true) :
    seg.pos + seg.len ≤ n + reach := by
  have hlen := hseg.len_le
  have hrecent := hseg.recent
  have hnear := hseg.near
  have hbound : max wnd 1 + 65536 ≤ reach := by
    have hdefault : tcpDefaultRcvWindowBytes + 65536 ≤ reach := by decide
    have hone : 1 + 65536 ≤ reach := by decide
    omega
  have hreach : reach < 2 ^ 31 := by decide
  have hcase : ∃ total, seg.len + (if (seg.toSegment base stream).fin then 1 else 0) = total ∧
      total ≤ seg.len + 1 ∧ seg.len ≤ total := by
    refine ⟨_, rfl, ?_⟩
    split <;> omega
  obtain ⟨total, htotal, hcase⟩ := hcase
  rw [Segment.inRecvWindow, length_payload hseg, htotal] at h
  split at h
  · cases h
  split at h
  · cases h
  rw [or_eq_true] at h
  rcases h with hfirst | hlast
  · have := lt_of_seqInWindow hfirst (by omega) hrecent (by omega)
    omega
  obtain ⟨hne, hlast⟩ := and_eq_true_iff.mp hlast
  have hpos : total ≠ 0 := by simpa using hne
  have hlastpos : (seg.toSegment base stream).seqNum + BitVec.ofNat 32 total - 1 =
      seqAt base (seg.pos + total - 1) := by
    obtain ⟨k, hk⟩ := Nat.exists_eq_succ_of_ne_zero hpos
    change seqAt base seg.pos + _ - 1 = _
    rw [seqAt_add, hk, Nat.succ_eq_add_one, Nat.add_sub_assoc (by omega), Nat.add_sub_cancel,
      ← add_assoc, ← seqAt_add]
    exact add_sub_cancel_right _ _
  rw [hlastpos] at hlast
  have := lt_of_seqInWindow hlast (by omega) (by omega) (by omega)
  omega

end Window

end PeerSegment

section Established

variable {stream : List UInt8} {n : ℕ} {tcb : TcpControlBlock} {pieces : List Piece}
  {seg : PeerSegment}

/-- The receiving side went on along the stream. -/
def Received (stream : List UInt8) (n : ℕ) (tcb tcb' : TcpControlBlock) : Prop :=
  ∃ n', RecvAt stream n' tcb' ∧ Delivers stream n tcb n' tcb'

variable {tcb' : TcpControlBlock}

/-- Only the queue can have changed. -/
lemma RecvAt.requeue (h : RecvAt stream n tcb) (hsame : SameRecv tcb tcb')
    (hqueue : ∃ pieces, Queued stream n tcb' pieces ∧ ∀ p ∈ pieces, n < p.stop) :
    RecvAt stream n tcb' := by
  refine ⟨h.le, hsame.recvBuffer ▸ h.fits, ?_, ?_, hqueue⟩
  · rw [hsame.rcvNxt, h.rcvNxt, hsame.finReceived, streamBase_congr hsame.irs]
  rw [hsame.finReceived, hsame.state]
  exact h.fin

lemma RecvAt.keepReceive (h : RecvAt stream n tcb) (other : TcpControlBlock) :
    RecvAt stream n (tcb.keepReceive other) := by
  obtain ⟨pieces, hqueued, hfresh⟩ := h.queue
  exact { h with queue := ⟨pieces, { hqueued with }, hfresh⟩ }

/-- The queue after some more bytes in order: it stays near. -/
lemma Queued.advance (h : Queued stream n tcb pieces) (hfresh : ∀ p ∈ pieces, n < p.stop) {k : ℕ}
    (hk : k ≤ 65535) (hqueue : tcb'.oooQueue = tcb.oooQueue) (hirs : tcb'.irs = tcb.irs)
    (hbytes : tcb'.oooBytes = tcb.oooBytes) (hwnd : tcb'.rcvWnd = tcb.rcvWnd) :
    Queued stream (n + k) tcb' pieces := by
  have hsum : ∀ p ∈ pieces, p.size ≤ tcpDefaultRcvWindowBytes := by
    intro p hp
    have hle : p.size ≤ (pieces.map Piece.size).sum :=
      single_le_sum (fun x _ => Nat.zero_le x) _ (mem_map_of_mem hp)
    have hbytes := h.bytes
    have hbytesle := h.bytes_le
    have hwndle := h.wnd_le
    omega
  refine ⟨?_, h.good, h.separated, fun p hp => ?_, fun p hp => ?_, hbytes.trans h.bytes, ?_,
    hwnd ▸ h.wnd_le⟩
  · rw [hqueue, h.values, streamBase_congr hirs]
  · have hsize := hsum p hp
    have hlt := (h.good p hp).lt
    have hend := hfresh p hp
    have hreach : tcpDefaultRcvWindowBytes + 65535 ≤ reach := by decide
    rw [Piece.size] at hsize
    omega
  · exact (h.ahead p hp).trans (by omega)
  · rw [hbytes, hwnd]
    exact h.bytes_le

/-- A FIN at the end of the stream, when all bytes are received. -/
lemma receiveFin_accept (h : Queued stream n tcb pieces) (hn : n = stream.length)
    (hfits : tcb.recvBuffer.length ≤ tcpMaxRecvBufferBytes)
    (hrcvNxt : tcb.rcvNxt = seqAt tcb.streamBase n) (wire : Segment) (finExpected : Option Seq)
    (hexpected : finExpected.getD tcb.rcvNxt = tcb.rcvNxt) (hend : wire.dataEnd = tcb.rcvNxt) :
    Received stream n tcb (receiveFin tcb wire finExpected) := by
  rw [receiveFin, hexpected]
  rw [if_neg (by simpa using hend)]
  refine ⟨n, RecvAt.purge h hn hfits rfl rfl rfl rfl rfl rfl ?_ ?_, .refl rfl rfl⟩
  · change TcpState.closeWait ≠ .established
    decide
  rw [hrcvNxt]
  exact seqAt_add _ _ 1

/-- A FIN that is not expected yet changes nothing, and one at `rcvNxt` is the end of the stream. -/
lemma receiveFin_spec {wnd : ℕ} (h : RecvAt stream n tcb) (hfin : tcb.finReceived = false)
    {n0 : ℕ} (hseg : seg.Consistent stream n0 wnd) (hsegfin : seg.fin = true)
    (hnear : Serial.Near 32 (seg.pos + seg.len) n) :
    Received stream n tcb (receiveFin tcb (seg.toSegment tcb.streamBase stream) none) := by
  obtain ⟨pieces, hqueued, -⟩ := h.queue
  have hrcvNxt := h.rcvNxt_eq hfin
  by_cases hend : (seg.toSegment tcb.streamBase stream).dataEnd = tcb.rcvNxt
  · have hpos : seg.pos + seg.len = n := by
      rwa [PeerSegment.dataEnd_toSegment hseg, hrcvNxt, seqAt_inj _ hnear] at hend
    exact receiveFin_accept hqueued (hpos ▸ hseg.fin hsegfin) h.fits hrcvNxt _ none rfl hend
  rw [receiveFin]
  rw [Option.getD_none, if_pos hend]
  exact ⟨n, h, .refl rfl rfl⟩

/-- How the part for data ends, with the part for a FIN behind it. -/
def DataStep.finish (wire : Segment) : DataStep → TcpControlBlock
  | .returned tcb => tcb
  | .fallThrough tcb finExpectedSeq =>
    if wire.fin then receiveFin tcb wire finExpectedSeq else tcb

/-- A FIN after data that was handled before `rcvNxt` reached the position `n`. -/
lemma finish_spec {n0 wnd n' : ℕ} (h : RecvAt stream n' tcb') (hdel : Delivers stream n tcb n' tcb')
    (hfin : tcb'.finReceived = false) (hseg : seg.Consistent stream n0 wnd)
    (hnear : Serial.Near 32 (seg.pos + seg.len) n') :
    Received stream n tcb
      ((DataStep.fallThrough tcb' none).finish (seg.toSegment tcb.streamBase stream)) := by
  have hbase := streamBase_congr hdel.irs
  rw [DataStep.finish]
  split
  · rename_i hsegfin
    obtain ⟨n1, hrecv, hdel1⟩ := receiveFin_spec h hfin hseg hsegfin hnear
    rw [hbase] at hrecv hdel1
    exact ⟨n1, hrecv, hdel.trans hdel1⟩
  · exact ⟨n', h, hdel⟩

variable (h : RecvAt stream n tcb)
include h

/-- Data at `rcvNxt`. -/
lemma receiveInOrder_spec {wnd : ℕ} (hfin : tcb.finReceived = false) (hwnd : tcb.rcvWnd = wnd)
    (hseg : seg.Consistent stream n wnd) (hpos : seg.pos = n) (env : SegmentEnv) :
    let wire := seg.toSegment tcb.streamBase stream
    let tcb' := (receiveInOrder tcb wire env).finish wire
    Received stream n tcb tcb' ∧ (tcb.consumed + seg.len ≤ wnd → env.gate = true →
      env.extend = true → tcb.recvBuffer.length + seg.len ≤ tcb'.recvBuffer.length) := by
  intro wire
  obtain ⟨pieces, hqueued, hfresh⟩ := h.queue
  have hstay : Received stream n tcb tcb := ⟨n, h, .refl rfl rfl⟩
  have hlen : wire.payload.length = seg.len :=
    PeerSegment.length_payload hseg
  have hlenle := hseg.len_le
  have hle := hseg.le
  have hrcvNxt := h.rcvNxt_eq hfin
  rw [receiveInOrder, hlen, Nat.mod_eq_of_lt (by omega)]
  split
  · exact ⟨hstay, fun hfits => by omega⟩
  rename_i havailable
  split
  · exact ⟨hstay, fun _ hgate => by simp_all⟩
  split
  · exact ⟨hstay, fun _ _ hextend => by simp_all⟩
  have hpayload : wire.payload = slice stream n (n + seg.len) := by
    rw [← hpos]
    rfl
  rw [hpayload]
  set tcb1 : TcpControlBlock := { tcb with
    recvBuffer := tcb.recvBuffer ++ slice stream n (n + seg.len)
    rcvNxt := tcb.rcvNxt + BitVec.ofNat 32 seg.len } with htcb1
  have hdel1 : Delivers stream n tcb (n + seg.len) tcb1 := ⟨le_self_add, rfl, rfl⟩
  have hqueued1 : Queued stream (n + seg.len) tcb1 pieces :=
    hqueued.advance hfresh hlenle rfl rfl rfl rfl
  have hrcvNxt1 : tcb1.rcvNxt = seqAt tcb1.streamBase (n + seg.len) := by
    change tcb.rcvNxt + _ = seqAt tcb.streamBase _
    rw [hrcvNxt, seqAt_add]
  have hlen1 : tcb1.recvBuffer.length = tcb.recvBuffer.length + seg.len := by
    rw [length_append, length_slice (by omega), Nat.add_sub_cancel_left]
  have hfits1 : tcb1.recvBuffer.length ≤ tcpMaxRecvBufferBytes := by
    have hwndle := hqueued.wnd_le
    have hwindow : tcpDefaultRcvWindowBytes = tcpMaxRecvBufferBytes := by decide
    have hu32 : tcpMaxRecvBufferBytes < 2 ^ 32 := by decide
    have hfits := h.fits
    have hconsumed : tcb.recvBuffer.length ≤ tcb.consumed := by
      rw [TcpControlBlock.consumed, Nat.mod_eq_of_lt (by omega), saturatingAdd32]
      exact le_min le_self_add (by change _ ≤ 2 ^ 32 - 1; omega)
    omega
  rw [DataStep.finish]
  cases hsegfin : wire.fin with
  | false =>
    simp only [false_eq_true, if_false]
    obtain ⟨n', hrecv, hdel⟩ := drainLoop_spec env.drain hqueued1 (by omega) hfits1 hrcvNxt1 hfin 0
    exact ⟨⟨n', hrecv, hdel1.trans hdel⟩, fun _ _ _ => hlen1 ▸ hdel.length_le⟩
  | true =>
    simp only [if_true]
    have hend : wire.dataEnd = tcb1.rcvNxt := by
      rw [PeerSegment.dataEnd_toSegment hseg, hpos]
      exact hrcvNxt1.symm
    obtain ⟨n', hrecv, hdel⟩ := receiveFin_accept hqueued1 (hpos ▸ hseg.fin hsegfin) hfits1 hrcvNxt1
      wire (some tcb1.rcvNxt) rfl hend
    exact ⟨⟨n', hrecv, hdel1.trans hdel⟩, fun _ _ _ => hlen1 ▸ hdel.length_le⟩

/-- An insertion at or behind `rcvNxt` leaves the position. -/
lemma RecvAt.oooInsert (new : Piece) (hnew : new.Good stream.length) (hstart : n ≤ new.start)
    (hstop : new.stop ≤ n + reach) (env : OooEnv) :
    ∃ r tcb', Tcp.oooInsert tcb (seqAt tcb.streamBase new.start)
        (slice stream new.start new.stop) new.fin env = .ok (r, tcb') ∧
      RecvAt stream n tcb' ∧ SameRecv tcb tcb' := by
  obtain ⟨pieces, hqueued, hfresh⟩ := h.queue
  obtain ⟨r, tcb', hok, hsame, pieces', hqueued', hpieces'⟩ :=
    oooInsert_spec hqueued h.fits hnew hstart hstop env
  exact ⟨r, tcb', hok, h.requeue hsame ⟨pieces', hqueued',
    fun p hp => (hpieces' p hp).elim (hfresh p) id⟩, hsame⟩

/-- Data that starts before `rcvNxt`. -/
lemma receiveOverlap_spec {wnd : ℕ} (hfin : tcb.finReceived = false)
    (hseg : seg.Consistent stream n wnd) (hpos : seg.pos < n)
    (hstop : seg.pos + seg.len ≤ n + reach) (env : SegmentEnv) :
    ∃ step, receiveOverlap tcb (seg.toSegment tcb.streamBase stream) env = .ok step ∧
      Received stream n tcb (step.finish (seg.toSegment tcb.streamBase stream)) := by
  set wire := seg.toSegment tcb.streamBase stream
  have hstay : Received stream n tcb tcb := ⟨n, h, .refl rfl rfl⟩
  have hle := hseg.le
  have hrecent := hseg.recent
  have hnear := hseg.near
  have hreach : reach < 2 ^ 20 := by decide
  have hrcvNxt := h.rcvNxt_eq hfin
  have hgt : seqGt wire.dataEnd tcb.rcvNxt =
      decide (n < seg.pos + seg.len) := by
    rw [PeerSegment.dataEnd_toSegment hseg, hrcvNxt]
    exact seqGt_seqAt _ ⟨by omega, by omega⟩
  rw [receiveOverlap, hgt]
  by_cases hmore : n < seg.pos + seg.len
  · rw [decide_eq_true hmore, if_pos rfl]
    dsimp only
    split
    · exact ⟨_, rfl, hstay⟩
    have huseful : wire.payload.drop
        (tcb.rcvNxt - wire.seqNum).toNat =
        slice stream n (seg.pos + seg.len) := by
      rw [hrcvNxt]
      exact drop_slice_seqAt hpos.le (by omega)
    obtain ⟨r, tcb1, hok, hrecv1, hsame⟩ := h.oooInsert
      ⟨n, seg.pos + seg.len, seg.fin⟩ ⟨hmore, hle, hseg.fin⟩ le_rfl hstop env.ooo
    rw [← hrcvNxt] at hok
    rw [huseful]
    have hok' : Tcp.oooInsert tcb tcb.rcvNxt (slice stream n (seg.pos + seg.len))
        wire.fin env.ooo = .ok (r, tcb1) := hok
    rw [hok']
    refine ⟨_, rfl, ?_⟩
    obtain ⟨pieces1, hqueued1, -⟩ := hrecv1.queue
    have hfin1 : tcb1.finReceived = false := hsame.finReceived.trans hfin
    have hrcvNxt1 := hrecv1.rcvNxt_eq hfin1
    obtain ⟨n', hrecv, hdel⟩ :=
      drainLoop_spec env.drain hqueued1 hrecv1.le hrecv1.fits hrcvNxt1 hfin1 0
    have hdel' : Delivers stream n tcb n' (oooDrainContiguous tcb1 env.drain).2 :=
      ⟨hdel.le, hsame.recvBuffer ▸ hdel.recvBuffer, hdel.irs.trans hsame.irs⟩
    split
    · exact ⟨n', hrecv, hdel'⟩
    rename_i hnofin
    split
    · exact ⟨n', hrecv, hdel'⟩
    rename_i hdup
    -- a FIN is at the end of the stream, so it is not before the position that was reached
    have hsegfin : seg.fin = true := by
      rw [not_eq_true, not_eq_false', Segment.duplicatePayloadHasNewFin,
        and_eq_true, and_eq_true] at hdup
      exact hdup.1.1
    have hend := hseg.fin hsegfin
    have hle' := hrecv.le
    have hge := hdel.le
    exact finish_spec hrecv hdel' (eq_false_of_not_eq_true hnofin) hseg ⟨by omega, by omega⟩
  · rw [decide_eq_false hmore, if_neg (by decide)]
    refine ⟨_, rfl, ?_⟩
    dsimp only
    split
    · exact hstay
    · exact finish_spec h (.refl rfl rfl) hfin hseg ⟨by omega, by omega⟩

/-- A segment of the peer on an established connection: no fault, and the receiving side goes on
along the stream. -/
lemma receiveEstablished_spec (hfin : tcb.finReceived = false)
    (hseg : seg.Consistent stream n tcb.rcvWnd) (env : SegmentEnv) :
    ∃ tcb', receiveEstablished tcb (seg.toSegment tcb.streamBase stream) env = .ok tcb' ∧
      Received stream n tcb tcb' := by
  have hstay : Received stream n tcb tcb := ⟨n, h, .refl rfl rfl⟩
  obtain ⟨pieces, hqueued, -⟩ := h.queue
  have hrcvNxt := h.rcvNxt_eq hfin
  have hrecent := hseg.recent
  have hnear := hseg.near
  rw [receiveEstablished]
  split
  · exact ⟨_, rfl, hstay⟩
  split
  · exact ⟨_, rfl, hstay⟩
  rename_i hwindow
  rw [not_eq_true, not_eq_false', hrcvNxt] at hwindow
  have hstop := PeerSegment.le_of_inRecvWindow hseg hqueued.wnd_le hwindow
  split
  · exact ⟨_, rfl, hstay⟩
  have h0 := h.keepReceive env.acked
  have hdel0 : Delivers stream n tcb n (tcb.keepReceive env.acked) := .refl rfl rfl
  have hfin0 : (tcb.keepReceive env.acked).finReceived = false := hfin
  have hrcvNxt0 : (tcb.keepReceive env.acked).rcvNxt = seqAt tcb.streamBase n := hrcvNxt
  have hwnd0 : (tcb.keepReceive env.acked).rcvWnd = tcb.rcvWnd := rfl
  have hbase0 : (tcb.keepReceive env.acked).streamBase = tcb.streamBase := rfl
  generalize tcb.keepReceive env.acked = tcb0 at h0 hdel0 hfin0 hrcvNxt0 hwnd0 hbase0 ⊢
  suffices hdata : ∃ step, receiveData tcb0 (seg.toSegment tcb.streamBase stream) env = .ok step ∧
      Received stream n tcb0 (step.finish (seg.toSegment tcb.streamBase stream)) by
    obtain ⟨step, hok, n', hrecv, hdel⟩ := hdata
    refine ⟨step.finish (seg.toSegment tcb.streamBase stream), ?_, n', hrecv, hdel0.trans hdel⟩
    rw [hok]
    cases step <;> rfl
  have hstay0 : Received stream n tcb0 tcb0 := ⟨n, h0, .refl rfl rfl⟩
  rw [receiveData]
  split
  · refine ⟨_, rfl, ?_⟩
    rw [← hbase0]
    exact finish_spec h0 (.refl rfl rfl) hfin0 hseg ⟨by omega, by omega⟩
  rename_i hpayload
  split
  · exact ⟨_, rfl, hstay0⟩
  have hnearpos : Serial.Near 32 seg.pos n := ⟨by omega, by omega⟩
  have hseq : (seg.toSegment tcb.streamBase stream).seqNum = seqAt tcb.streamBase seg.pos := rfl
  rw [hseq, hrcvNxt0, seqGt_seqAt _ hnearpos]
  split
  · rename_i hpos
    rw [seqAt_inj _ hnearpos] at hpos
    refine ⟨_, rfl, ?_⟩
    rw [← hbase0]
    exact (receiveInOrder_spec h0 hfin0 hwnd0 hseg hpos env).1
  rename_i hne
  rw [seqAt_inj _ hnearpos] at hne
  by_cases hlater : n < seg.pos
  · rw [decide_eq_true hlater, if_pos rfl]
    split
    · exact ⟨_, rfl, hstay0⟩
    have hlen : 0 < seg.len := by
      refine pos_of_ne_zero fun hzero => hpayload ?_
      rw [← length_eq_zero_iff, PeerSegment.length_payload hseg, hzero]
    obtain ⟨r, tcb', hok, hrecv, hsame⟩ := h0.oooInsert
      ⟨seg.pos, seg.pos + seg.len, seg.fin⟩ ⟨Nat.lt_add_of_pos_right hlen, hseg.le, hseg.fin⟩
      hlater.le hstop env.ooo
    rw [hbase0] at hok
    have hok' : Tcp.oooInsert tcb0 (seqAt tcb.streamBase seg.pos)
        (seg.toSegment tcb.streamBase stream).payload (seg.toSegment tcb.streamBase stream).fin
        env.ooo = .ok (r, tcb') := hok
    rw [hok']
    exact ⟨_, rfl, n, hrecv, .refl hsame.recvBuffer hsame.irs⟩
  · rw [decide_eq_false hlater, if_neg (by decide), ← hbase0]
    exact receiveOverlap_spec h0 hfin0 hseg (by omega) hstop env

end Established

/-! ## Runs -/

/-- A connection, the stream of the peer, and what the application has read. -/
structure RecvWorld where
  stream : List UInt8
  tcb : TcpControlBlock
  consumed : List UInt8
  /-- An insertion into the out-of-order queue faulted. -/
  panicked : Bool

/-- A segment of the peer, a read of the application with the answers to the requests of its draining,
and what other code does to the sending side of the connection. -/
inductive RecvOp
  | segment (seg : PeerSegment) (env : SegmentEnv)
  | read (count : ℕ) (drain : ℕ → Bool)
  | other (tcb : TcpControlBlock)

/-- The states in which `tcp_recv_with_commit` reads. -/
def TcpState.canReceive : TcpState → Bool
  | established | finWait1 | finWait2 | closeWait => true
  | _ => false

namespace RecvWorld

/-- An established connection without data; the window is as large as the source grants at most, and
every other field is arbitrary. -/
def start (stream : List UInt8) (tcb : TcpControlBlock) : RecvWorld where
  stream := stream
  tcb := { tcb with
    state := .established
    rcvNxt := tcb.irs + 1
    rcvWnd := min tcb.rcvWnd tcpDefaultRcvWindowBytes
    recvBuffer := []
    oooQueue := .new
    oooBytes := 0
    finReceived := false }
  consumed := []
  panicked := false

/-- All bytes that were delivered. -/
def delivered (w : RecvWorld) : List UInt8 := w.consumed ++ w.tcb.recvBuffer

/-- The execution of an event.  Segments arrive as long as the connection is established, and those
that are not consistent with the stream do not arrive.  A read drains the queue, since a request of an
earlier draining may have failed. -/
def exec (w : RecvWorld) : RecvOp → RecvWorld
  | .segment seg env =>
    if w.tcb.state = .established ∧ seg.Consistent w.stream w.delivered.length w.tcb.rcvWnd then
      match receiveEstablished w.tcb (seg.toSegment w.tcb.streamBase w.stream) env with
      | .error _ => { w with panicked := true }
      | .ok tcb => { w with tcb := tcb }
    else w
  | .read count drain =>
    if w.tcb.state.canReceive = true ∧ 0 < min count w.tcb.recvBuffer.length then
      { w with
        consumed := w.consumed ++ w.tcb.recvBuffer.take count
        tcb := (oooDrainContiguous
          { w.tcb with recvBuffer := w.tcb.recvBuffer.drop count } drain).2 }
    else w
  | .other tcb => { w with tcb := w.tcb.keepReceive tcb }

/-- The execution of a run. -/
def execAll (w : RecvWorld) (ops : List RecvOp) : RecvWorld := ops.foldl exec w

/-- What was delivered is the prefix of the stream up to `rcvNxt`, and a FIN was received only at the
end of the stream. -/
structure InOrder (w : RecvWorld) : Prop where
  inStream : w.delivered <+: w.stream
  rcvNxt : w.tcb.rcvNxt = w.tcb.irs + 1 + BitVec.ofNat 32 w.delivered.length +
    if w.tcb.finReceived then 1 else 0
  fin : w.tcb.finReceived = true → w.delivered = w.stream
  panicked : w.panicked = false

/-- The invariant of a run. -/
structure Inv (w : RecvWorld) : Prop where
  recv : RecvAt w.stream w.delivered.length w.tcb
  inStream : w.delivered <+: w.stream
  panicked : w.panicked = false

/-- From one moment to a later one: the same stream, nothing delivered is taken back, and a FIN stays
received. -/
structure Forward (w w' : RecvWorld) : Prop where
  stream : w'.stream = w.stream
  irs : w'.tcb.irs = w.tcb.irs
  delivered : w.delivered <+: w'.delivered
  fin : w.tcb.finReceived = true → w'.tcb.finReceived = true

lemma Forward.refl (w : RecvWorld) : Forward w w := ⟨rfl, rfl, prefix_rfl, id⟩

lemma Forward.trans {w1 w2 w3 : RecvWorld} (h : Forward w1 w2) (h' : Forward w2 w3) :
    Forward w1 w3 :=
  ⟨h'.stream.trans h.stream, h'.irs.trans h.irs, h.delivered.trans h'.delivered, h'.fin ∘ h.fin⟩

namespace Inv

variable {w : RecvWorld}

lemma start (stream : List UInt8) (tcb : TcpControlBlock) : (RecvWorld.start stream tcb).Inv where
  recv := by
    have hqueued : Queued stream 0 (RecvWorld.start stream tcb).tcb [] :=
      ⟨rfl, nofun, .nil, nofun, nofun, rfl, Nat.zero_le _, min_le_right _ _⟩
    exact .of_queued hqueued (Nat.zero_le _) (Nat.zero_le _) (add_zero _).symm rfl nofun
  inStream := nil_prefix
  panicked := rfl

/-- Delivering along the stream extends the delivered prefix. -/
lemma delivered_of_delivers (h : w.Inv) {tcb : TcpControlBlock} {n' : ℕ}
    (hdel : Delivers w.stream w.delivered.length w.tcb n' tcb) :
    w.consumed ++ tcb.recvBuffer = w.stream.take n' := by
  rw [hdel.recvBuffer, ← append_assoc]
  change w.delivered ++ _ = _
  conv_lhs => arg 1; rw [prefix_iff_eq_take.mp h.inStream]
  exact take_append_slice _ hdel.le

/-- The receiving side goes on along the stream. -/
lemma advance (h : w.Inv) {tcb : TcpControlBlock} {n' : ℕ} (hrecv : RecvAt w.stream n' tcb)
    (hdel : Delivers w.stream w.delivered.length w.tcb n' tcb)
    (hfin : w.tcb.finReceived = true → tcb.finReceived = true) :
    { w with tcb := tcb }.Inv ∧ Forward w { w with tcb := tcb } := by
  have hdelivered := h.delivered_of_delivers hdel
  have hlen : (w.consumed ++ tcb.recvBuffer).length = n' := by
    rw [hdelivered, length_take, min_eq_left hrecv.le]
  refine ⟨⟨?_, ?_, h.panicked⟩, rfl, hdel.irs, ?_, hfin⟩
  · change RecvAt w.stream (w.consumed ++ tcb.recvBuffer).length tcb
    rw [hlen]
    exact hrecv
  · change w.consumed ++ tcb.recvBuffer <+: w.stream
    rw [hdelivered]
    exact take_prefix _ _
  · change w.consumed ++ w.tcb.recvBuffer <+: w.consumed ++ tcb.recvBuffer
    rw [hdel.recvBuffer, ← append_assoc]
    exact prefix_append _ _

/-- The application takes bytes out of the buffer. -/
lemma take (h : w.Inv) (count : ℕ) :
    let w' := { w with
      consumed := w.consumed ++ w.tcb.recvBuffer.take count
      tcb := { w.tcb with recvBuffer := w.tcb.recvBuffer.drop count } }
    w'.Inv ∧ Forward w w' := by
  intro w'
  have hdelivered : w'.delivered = w.delivered := by
    change (w.consumed ++ w.tcb.recvBuffer.take count) ++ w.tcb.recvBuffer.drop count = _
    rw [append_assoc, take_append_drop, RecvWorld.delivered]
  obtain ⟨pieces, hqueued, hfresh⟩ := h.recv.queue
  refine ⟨⟨?_, ?_, h.panicked⟩, rfl, rfl, ?_, id⟩
  · rw [hdelivered]
    refine ⟨h.recv.le, ?_, h.recv.rcvNxt, h.recv.fin, pieces, { hqueued with }, hfresh⟩
    change (w.tcb.recvBuffer.drop count).length ≤ _
    rw [length_drop]
    exact (Nat.sub_le _ _).trans h.recv.fits
  · rw [hdelivered]
    exact h.inStream
  · rw [hdelivered]

/-- While the connection is established, no FIN was received. -/
lemma finReceived_eq_false (h : w.Inv) (hstate : w.tcb.state = .established) :
    w.tcb.finReceived = false := by
  rw [← not_eq_true]
  exact fun hfin => (h.recv.fin hfin).2 hstate

lemma exec (h : w.Inv) (op : RecvOp) : (w.exec op).Inv ∧ Forward w (w.exec op) := by
  cases op with
  | segment seg env =>
    rw [RecvWorld.exec]
    split
    · rename_i hallowed
      have hfin := h.finReceived_eq_false hallowed.1
      obtain ⟨tcb, hok, n', hrecv, hdel⟩ := receiveEstablished_spec h.recv hfin hallowed.2 env
      rw [hok]
      exact h.advance hrecv hdel fun hf => nomatch hfin.symm.trans hf
    · exact ⟨h, .refl w⟩
  | read count drain =>
    rw [RecvWorld.exec]
    split
    · obtain ⟨htaken, hforward⟩ := h.take count
      obtain ⟨n', hrecv, hdel, hfin⟩ := htaken.recv.drain drain
      obtain ⟨hinv, hdrained⟩ := htaken.advance hrecv hdel hfin
      exact ⟨hinv, hforward.trans hdrained⟩
    · exact ⟨h, .refl w⟩
  | other tcb =>
    refine ⟨⟨?_, h.inStream, h.panicked⟩, rfl, rfl, prefix_rfl, id⟩
    exact h.recv.keepReceive tcb

lemma execAll (h : w.Inv) (ops : List RecvOp) :
    (w.execAll ops).Inv ∧ Forward w (w.execAll ops) := by
  induction ops generalizing w with
  | nil => exact ⟨h, .refl w⟩
  | cons op ops ih =>
    obtain ⟨hinv, hforward⟩ := h.exec op
    obtain ⟨hinv', hforward'⟩ := ih hinv
    exact ⟨hinv', hforward.trans hforward'⟩

lemma inOrder (h : w.Inv) : w.InOrder := by
  refine ⟨h.inStream, ?_, fun hfin => ?_, h.panicked⟩
  · rw [h.recv.rcvNxt, ← seqAt_add]
    congr 1
    cases w.tcb.finReceived <;> rfl
  · exact h.inStream.eq_of_length (h.recv.fin hfin).1

end Inv

/-- In every run of segments of the peer, in any split and order, duplicated and overlapping, with
allocations that fail anywhere, and of reads of the application: what was delivered is always the
prefix of the stream up to `rcvNxt`, a FIN is received only when the whole stream was delivered, and
the next event does not take anything back. -/
theorem delivery_in_order (stream : List UInt8) (tcb : TcpControlBlock) (ops : List RecvOp) :
    let w := (RecvWorld.start stream tcb).execAll ops
    w.InOrder ∧ w.stream = stream ∧ w.tcb.irs = tcb.irs ∧ ∀ op, Forward w (w.exec op) := by
  obtain ⟨hinv, hforward⟩ := (Inv.start stream tcb).execAll ops
  exact ⟨hinv.inOrder, hforward.stream, hforward.irs, fun op => (hinv.exec op).2⟩

/-- In every run the buffer keeps to its bound, and the out-of-order queue holds separated pieces of
the stream that are not all delivered; `oooBytes` is their size and fits the window. -/
theorem recvAt_run (stream : List UInt8) (tcb : TcpControlBlock) (ops : List RecvOp) :
    let w := (RecvWorld.start stream tcb).execAll ops
    RecvAt w.stream w.delivered.length w.tcb :=
  ((Inv.start stream tcb).execAll ops).1.recv

/-! ## Which data in order is taken -/

/-- The segment passes the checks before the window, and every request for it is granted. -/
def admitted (tcb : TcpControlBlock) (seg : Segment) (env : SegmentEnv) : Bool :=
  seg.ack && seg.inRecvWindow tcb.rcvNxt tcb.rcvWnd && seqGe seg.ackNum tcb.sndUna &&
    seqGe tcb.sndNxt seg.ackNum && !env.lsmDenied && env.gate && env.extend

/-- Data at `rcvNxt` that passes the checks reaches the in-order path. -/
lemma receiveEstablished_of_admitted {tcb : TcpControlBlock} {seg : Segment} {env : SegmentEnv}
    (hadmitted : admitted tcb seg env = true) (hdata : seg.payload ≠ [])
    (hseq : seg.seqNum = (tcb.keepReceive env.acked).rcvNxt) :
    receiveEstablished tcb seg env =
      .ok ((receiveInOrder (tcb.keepReceive env.acked) seg env).finish seg) := by
  simp only [admitted, and_eq_true, not_eq_true'] at hadmitted
  obtain ⟨⟨⟨⟨⟨⟨hack, hwindow⟩, hlow⟩, hhigh⟩, hlsm⟩, -⟩, -⟩ := hadmitted
  simp only [receiveEstablished, receiveData, hack, hwindow, hlow, hhigh, hlsm, hdata, if_pos hseq]
  rfl

/-- In every run, data at `rcvNxt` is taken exactly when it fits beside all that is buffered, in
order or not; otherwise nothing is appended and `rcvNxt` stays. -/
theorem taken_iff_fits (stream : List UInt8) (tcb : TcpControlBlock) (ops : List RecvOp)
    (seg : PeerSegment) (env : SegmentEnv) :
    let w := (RecvWorld.start stream tcb).execAll ops
    let w' := w.exec (.segment seg env)
    w.tcb.state = .established → seg.Consistent w.stream w.delivered.length w.tcb.rcvWnd →
    seg.pos = w.delivered.length → 0 < seg.len →
    admitted w.tcb (seg.toSegment w.tcb.streamBase w.stream) env = true →
      w'.InOrder ∧ Forward w w' ∧ (w.delivered.length + seg.len ≤ w'.delivered.length ↔
        w.tcb.consumed + seg.len ≤ w.tcb.rcvWnd) ∧
      (w.tcb.rcvWnd < w.tcb.consumed + seg.len →
        w'.delivered = w.delivered ∧ w'.tcb.rcvNxt = w.tcb.rcvNxt) := by
  intro w w' hstate hseg hpos hlen hadmitted
  have hinv : w.Inv := ((Inv.start stream tcb).execAll ops).1
  obtain ⟨hinv', hforward⟩ := hinv.exec (.segment seg env)
  refine ⟨hinv'.inOrder, hforward, ?_⟩
  have hfin := hinv.finReceived_eq_false hstate
  set wire := seg.toSegment w.tcb.streamBase w.stream
  have hpayload : wire.payload.length = seg.len := PeerSegment.length_payload hseg
  have hdata : wire.payload ≠ [] := by
    rw [← length_pos_iff]
    omega
  have hseq : wire.seqNum = (w.tcb.keepReceive env.acked).rcvNxt := by
    change seqAt w.tcb.streamBase seg.pos = w.tcb.rcvNxt
    rw [hpos, hinv.recv.rcvNxt_eq hfin]
  have hw' : w' = { w with
      tcb := (receiveInOrder (w.tcb.keepReceive env.acked) wire env).finish wire } := by
    change (if _ then _ else _) = _
    rw [if_pos ⟨hstate, hseg⟩, receiveEstablished_of_admitted hadmitted hdata hseq]
  have hrefused : w.tcb.rcvWnd < w.tcb.consumed + seg.len →
      w'.delivered = w.delivered ∧ w'.tcb.rcvNxt = w.tcb.rcvNxt := by
    intro hfull
    rw [hw', receiveInOrder, hpayload, Nat.mod_eq_of_lt (by have := hseg.len_le; omega), if_pos (by
      change w.tcb.rcvWnd - w.tcb.consumed < _
      omega)]
    exact ⟨rfl, rfl⟩
  simp only [admitted, and_eq_true] at hadmitted
  obtain ⟨⟨-, hgate⟩, hextend⟩ := hadmitted
  have htaken := (receiveInOrder_spec (hinv.recv.keepReceive env.acked) hfin rfl hseg hpos env).2
  refine ⟨⟨fun h => ?_, fun h => ?_⟩, hrefused⟩
  · by_contra hfull
    rw [(hrefused (not_le.mp hfull)).1] at h
    omega
  · rw [hw', delivered, delivered, length_append, length_append, Nat.add_assoc,
      Nat.add_le_add_iff_left]
    exact htaken h hgate hextend

/-- Every request is granted. -/
def granting : SegmentEnv :=
  let granted : AllocEnv := ⟨fun target => some ⟨target, le_rfl⟩, true⟩
  ⟨default, false, true, true, ⟨granted, granted, true⟩, fun _ => true⟩

/-- Of the four bytes of the window, the last two came first. -/
def lastTwoFirst : RecvWorld :=
  (RecvWorld.start [1, 2, 3, 4] { (default : TcpControlBlock) with rcvWnd := 4 }).execAll
    [.segment ⟨2, 2, false, true, 0⟩ granting]

theorem first_two_taken :
    let w' := lastTwoFirst.exec (.segment ⟨0, 2, false, true, 0⟩ granting)
    w'.InOrder ∧ Forward lastTwoFirst w' ∧ (0 + 2 ≤ w'.delivered.length ↔ 2 + 2 ≤ 4) ∧
      (4 < 2 + 2 → w'.delivered = lastTwoFirst.delivered ∧
        w'.tcb.rcvNxt = lastTwoFirst.tcb.rcvNxt) :=
  taken_iff_fits _ _ _ ⟨0, 2, false, true, 0⟩ granting (by decide +kernel) (by decide +kernel)
    (by decide +kernel) (by decide) (by decide +kernel)

/-- The sequence numbers that a segment and the out-of-order queue cover. -/
def covered (tcb : TcpControlBlock) (seg : Segment) : List Seq :=
  (⟨seg.seqNum, seg.payload, seg.fin⟩ :: tcb.oooQueue.values).flatMap (fun s : OooSegment =>
    (range s.data.length).map fun i => s.seq + BitVec.ofNat 32 i) |>.dedup

/-- All four bytes are sent again, which is what the window holds, and they are refused. -/
theorem whole_window_refused :
    let w := lastTwoFirst
    let seg : PeerSegment := ⟨0, 4, false, true, 0⟩
    let wire := seg.toSegment w.tcb.streamBase w.stream
    let w' := w.exec (.segment seg granting)
    w.tcb.state = .established ∧ wire.seqNum = w.tcb.rcvNxt ∧ admitted w.tcb wire granting = true ∧
      w.tcb.recvBuffer.length + (covered w.tcb wire).length ≤ w.tcb.rcvWnd ∧
      w'.tcb.recvBuffer = [] ∧ w'.tcb.rcvNxt = w.tcb.rcvNxt := by
  decide +kernel

end RecvWorld

end Nilix.Net.Tcp
