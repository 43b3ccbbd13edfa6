import Nilix.Net.ConntrackEgress

/-!
# Connection tracking: concurrent calls

The calls of `kernel/net/src/conntrack.rs` as threads.  A call that takes the locks more than once is
a thread that stops between two of its sections, so that a run interleaves the sections of any number
of calls in any order.  The queue callback, the socket callback and the allocator answer as they
like.

A run keeps a log of what was observable: the entries that were published, the local packets that
were finalised, the handshakes that were confirmed, and the results of the calls.
-/

namespace Nilix.Net.Ct

/-- The answers of the allocator and of the callbacks during one section. -/
structure Env (E : Type) where
  entryAlloc : AllocEnv
  nsAlloc : AllocEnv
  vecAlloc : AllocEnv
  queue : Except E Unit
  ownerCommitted : Bool

/-- Where a call is, between two of its sections. -/
inductive Thread (E : Type) where
  | idle
  /-- `update_on_packet`, before its fast path. -/
  | packet (p : Packet)
  /-- `create_entry`, before its permit. -/
  | create (p : Packet)
  | createPlan (p : Packet) (initial : CtProtoState)
  | createPublish (p : Packet) (initial : CtProtoState) (preparedEntries preparedNs : Option ℕ)
  /-- An egress transaction, before its token. -/
  | egress (p : Packet)
  | egressLookup (p : Packet) (token : ℕ)
  | egressPermit (p : Packet) (token : ℕ)
  | egressPrepare (p : Packet) (token retries : ℕ) (preparedEntries preparedNs : Option ℕ)
  | egressReserve (p : Packet) (token : ℕ) (permit : Bool) (preparedEntries preparedNs : Option ℕ)
  /-- A reserved transaction, at the queue callback and after its answer. -/
  | egressQueue (p : Packet) (permit : Bool) (r : EgressReservation)
  | egressRollback (p : Packet) (permit : Bool) (r : EgressReservation) (error : E)
  | egressFinalize (p : Packet) (permit : Bool) (r : EgressReservation)
  | sweep (nowMs budget : ℕ)
  | sweepRemove (toRemove : List FlowKey)

/-- One line of the log. -/
inductive Mark (E : Type) where
  /-- An entry of the flow was published. -/
  | created (key : FlowKey)
  /-- A local packet of the flow was accepted by the queue and finalised, with the state of the entry
  it was finalised in and its direction from the initiator. -/
  | finalized (key : FlowKey) (l4 : L4Meta) (state : CtProtoState) (dir : ConntrackDir)
  /-- `commit_tcp_ingress_handshake` succeeded. -/
  | handshake (key : FlowKey)
  /-- `update_on_packet` returned. -/
  | updated (p : Packet) (result : CtUpdateResult)
  /-- An egress transaction ended. -/
  | egress (p : Packet) (result : CtEgressResult E)

/-- What a section leaves. -/
structure Section (E : Type) where
  table : ConntrackTable
  nextToken : ℕ
  thread : Thread E
  marks : List (Mark E)

/-- The mark of a publication, which the source counts in `entries_created`. -/
def createdMarks {E : Type} (t t' : ConntrackTable) (key : FlowKey) : List (Mark E) :=
  if t'.stats.entriesCreated = t.stats.entriesCreated then [] else [.created key]

/-- The mark of a local packet that is finalised in a table. -/
def finalizedMarks {E : Type} (t : ConntrackTable) (p : Packet) (r : EgressReservation) :
    List (Mark E) :=
  match t.entries.get r.key with
  | none => []
  | some e => e.pendingEgress.toList.map fun pending => .finalized r.key p.l4 e.state pending.stateDir

/-- Dropping the permit of a transaction, if it holds one. -/
def ConntrackTable.dropPermit (t : ConntrackTable) (permit : Bool) : ConntrackTable :=
  if permit then t.releasePermit else t

/-- The next section of a call. -/
def advance {E : Type} (t : ConntrackTable) (n : ℕ) (env : Env E) : Thread E → Section E
  | .idle => ⟨t, n, .idle, []⟩
  | .packet p =>
    match t.updateOnPacket p with
    | (t, some result) => ⟨t, n, .idle, [.updated p result]⟩
    | (t, none) => ⟨t, n, .create p, []⟩
  | .create p =>
    match t.createBegin p with
    | (t, .error result) => ⟨t, n, .idle, [.updated p result]⟩
    | (t, .ok initial) => ⟨t, n, .createPlan p initial, []⟩
  | .createPlan p initial =>
    match t.createPrepare p env.entryAlloc.grant env.nsAlloc.grant with
    | none => ⟨t.insertFailed.releasePermit, n, .idle, [.updated p (resourceRejection p.dir)]⟩
    | some (preparedEntries, preparedNs) =>
      ⟨t, n, .createPublish p initial preparedEntries preparedNs, []⟩
  | .createPublish p initial preparedEntries preparedNs =>
    let (t', result) := t.createPublish p initial env.entryAlloc.committed env.nsAlloc.committed
      preparedEntries preparedNs
    ⟨t'.releasePermit, n, .idle, .updated p result :: createdMarks t t' p.key⟩
  | .egress p =>
    match fetchEgressToken n with
    | (none, n) => ⟨t, n, .idle, [.egress p (.rejected tokenRejection)]⟩
    | (some token, n) => ⟨t, n, .egressLookup p token, []⟩
  | .egressLookup p token =>
    ⟨t, n, if t.needsCapacityTransaction p then .egressPermit p token
      else .egressReserve p token false none none, []⟩
  | .egressPermit p token =>
    match t.tryCapacityPermit with
    | none => ⟨t.insertFailed, n, .idle, [.egress p (.rejected (resourceRejection p.dir))]⟩
    | some t => ⟨t, n, .egressPrepare p token ctCapacityPrepareRetries none none, []⟩
  | .egressPrepare p _ 0 _ _ =>
    ⟨t.insertFailed.releasePermit, n, .idle, [.egress p (.rejected (resourceRejection p.dir))]⟩
  | .egressPrepare p token (retries + 1) preparedEntries preparedNs =>
    match t.egressPrepare p env.entryAlloc.grant env.nsAlloc.grant preparedEntries preparedNs with
    | .failed =>
      ⟨t.insertFailed.releasePermit, n, .idle, [.egress p (.rejected (resourceRejection p.dir))]⟩
    | .prepared => ⟨t, n, .egressReserve p token true preparedEntries preparedNs, []⟩
    | .again preparedEntries preparedNs =>
      ⟨t, n, .egressPrepare p token retries preparedEntries preparedNs, []⟩
  | .egressReserve p token permit preparedEntries preparedNs =>
    match t.egressReserve p token permit env.entryAlloc.committed env.nsAlloc.committed
      preparedEntries preparedNs with
    | (t, .error result) => ⟨t.dropPermit permit, n, .idle, [.egress p result]⟩
    | (t, .ok r) => ⟨t, n, .egressQueue p permit r, []⟩
  | .egressQueue p permit r =>
    match env.queue with
    | .error error => ⟨t, n, .egressRollback p permit r error, []⟩
    | .ok _ => ⟨t, n, .egressFinalize p permit r, []⟩
  | .egressRollback p permit r error =>
    match t.rollbackEgressReservation r with
    | (t, ok) =>
      ⟨t.dropPermit permit, n, .idle,
        [.egress p (if ok then .queueFailed error else .stateLost false)]⟩
  | .egressFinalize p permit r =>
    match t.finalizeEgressReservation r with
    | none => ⟨t.dropPermit permit, n, .idle, [.egress p (.stateLost true)]⟩
    | some (t', result) =>
      ⟨t'.dropPermit permit, n, .idle,
        .egress p (if env.ownerCommitted then .committed result else .queuedOwnerStale result) ::
          finalizedMarks t p r ++ createdMarks t t' r.key⟩
  | .sweep nowMs budget =>
    match t.sweepCollect env.vecAlloc nowMs budget with
    | none => ⟨t, n, .idle, []⟩
    | some toRemove => ⟨t, n, .sweepRemove toRemove, []⟩
  | .sweepRemove toRemove => ⟨(t.sweepRemove toRemove).1, n, .idle, []⟩

/-! ## Runs -/

/-- The table, the next egress token, the calls in progress and the log, newest line first. -/
structure World (E : Type) where
  table : ConntrackTable
  nextToken : ℕ
  threads : ℕ → Thread E
  log : List (Mark E)

/-- A call that needs more than one section. -/
inductive Call where
  | updateOnPacket (p : Packet)
  | egressTransaction (p : Packet)
  | sweep (nowMs budget : ℕ)

/-- The thread of a call that has just been made. -/
def Call.thread {E : Type} : Call → Thread E
  | .updateOnPacket p => .packet p
  | .egressTransaction p => .egress p
  | .sweep nowMs budget => .sweep nowMs budget

/-- An event of a run. -/
inductive Event (E : Type) where
  /-- An idle thread makes a call. -/
  | call (i : ℕ) (c : Call)
  /-- A thread runs its next section. -/
  | step (i : ℕ) (env : Env E)
  | commitTcpIngressHandshake (netNsId srcIp dstIp srcPort dstPort : ℕ)
  | commitTcpClose (key : FlowKey) (token : ConntrackTable.TcpCloseToken)
  | commitTcpIngressReset (netNsId srcIp dstIp srcPort dstPort : ℕ)
  | remove (key : FlowKey)
  | drainNs (nsId : ℕ)

/-- Whether a thread has no call in progress. -/
def Thread.isIdle {E : Type} : Thread E → Bool
  | .idle => true
  | _ => false

namespace World

variable {E : Type}

/-- The state at boot. -/
def start : World E := ⟨.new, 1, fun _ => .idle, []⟩

/-- A thread moves on by one section. -/
def apply (w : World E) (i : ℕ) (s : Section E) : World E :=
  ⟨s.table, s.nextToken, Function.update w.threads i s.thread, s.marks ++ w.log⟩

/-- One event. -/
def exec (w : World E) : Event E → World E
  | .call i c =>
    if (w.threads i).isIdle then { w with threads := Function.update w.threads i c.thread } else w
  | .step i env => w.apply i (advance w.table w.nextToken env (w.threads i))
  | .commitTcpIngressHandshake netNsId srcIp dstIp srcPort dstPort =>
    match w.table.commitTcpIngressHandshake netNsId srcIp dstIp srcPort dstPort with
    | (t, false) => { w with table := t }
    | (t, true) =>
      { w with
        table := t
        log := .handshake (FlowKey.fromPacket netNsId ipprotoTcp srcIp dstIp srcPort dstPort).1 ::
          w.log }
  | .commitTcpClose key token => { w with table := (w.table.commitTcpClose key token).1 }
  | .commitTcpIngressReset netNsId srcIp dstIp srcPort dstPort =>
    { w with
      table := (w.table.commitTcpIngressReset netNsId srcIp dstIp srcPort dstPort).1 }
  | .remove key => { w with table := (w.table.remove key).1 }
  | .drainNs nsId => { w with table := (w.table.drainNs nsId).1 }

/-- A run. -/
def run (w : World E) (events : List (Event E)) : World E := events.foldl exec w

end World

end Nilix.Net.Ct
