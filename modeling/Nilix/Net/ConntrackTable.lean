import Mathlib.Data.UInt
import Nilix.Net.Admitted
import Nilix.Net.ConntrackEntry

/-!
# Connection tracking: the table and its critical sections

`kernel/net/src/conntrack.rs`: the flows, the flow counts per namespace, the creation permit and the
statistics.  Each function below is one section the source runs under its locks; what happens between
two sections of a call, while no lock is held, is left to the interleaving.  Memory is prepared
outside of the locks, so a section gets the capacities of the prepared backings, if any.
-/

namespace Nilix.Net.Ct

structure ConntrackStats where
  entriesCreated : UInt64
  entriesDeleted : UInt64
  timeoutDeletes : UInt64
  insertFailed : UInt64
  invalidTransitions : UInt64
  evictions : UInt64
  currentEntries : UInt32
deriving DecidableEq

def ConntrackStats.new : ConntrackStats := ⟨0, 0, 0, 0, 0, 0, 0⟩

variable (entries : Entries) (ns : ℕ) (s : ConntrackStats)

/-- `insert_failed.fetch_add(1)`. -/
def ConntrackStats.noteInsertFailed : ConntrackStats :=
  { s with insertFailed := s.insertFailed + 1 }

/-- `invalid_transitions.fetch_add(1)`. -/
def ConntrackStats.noteInvalidTransition : ConntrackStats :=
  { s with invalidTransitions := s.invalidTransitions + 1 }

/-- A creation that takes a new slot. -/
def ConntrackStats.noteCreated : ConntrackStats :=
  { s with
    entriesCreated := s.entriesCreated + 1
    currentEntries := s.currentEntries + 1 }

/-- The removal of `n` flows. -/
def ConntrackStats.noteRemoved (n : ℕ) : ConntrackStats :=
  { s with
    entriesDeleted := s.entriesDeleted + UInt64.ofNat n
    currentEntries := s.currentEntries - UInt32.ofNat n }

/-- The removal of `n` flows that timed out. -/
def ConntrackStats.noteTimedOut (n : ℕ) : ConntrackStats :=
  { s.noteRemoved n with timeoutDeletes := s.timeoutDeletes + UInt64.ofNat n }

/-- The eviction of one flow. -/
def ConntrackStats.noteEvicted : ConntrackStats :=
  { s.noteRemoved 1 with evictions := s.evictions + 1 }

abbrev Entries := AdmittedMap FlowKey ConntrackEntry

/-- `ConntrackTable::ns_entry_counts`. -/
abbrev NsCounts := AdmittedMap ℕ ℕ

structure ConntrackTable where
  entries : Entries
  nsEntryCounts : NsCounts
  capacityPreparing : Bool
  stats : ConntrackStats

def ConntrackTable.new : ConntrackTable := ⟨.new, .new, false, .new⟩

structure CtUpdateResult where
  decision : CtDecision
  state : CtProtoState
  dir : ConntrackDir
  resourceExhausted : Bool
deriving DecidableEq

/-- `resource_rejection`; the same result is built where admission finds no slot. -/
def resourceRejection (dir : ConntrackDir) : CtUpdateResult := ⟨.invalid, .other, dir, true⟩

/-- The arguments of `update_on_packet` and of an egress transaction. -/
structure Packet where
  netNsId : ℕ
  proto : ℕ
  srcIp : ℕ
  dstIp : ℕ
  srcPort : ℕ
  dstPort : ℕ
  l4 : L4Meta
  nowMs : ℕ
deriving DecidableEq

/-- The flow of a packet. -/
def Packet.key (p : Packet) : FlowKey :=
  (FlowKey.fromPacket p.netNsId p.proto p.srcIp p.dstIp p.srcPort p.dstPort).1

/-- The direction of a packet along the normalised key. -/
def Packet.dir (p : Packet) : ConntrackDir :=
  (FlowKey.fromPacket p.netNsId p.proto p.srcIp p.dstIp p.srcPort p.dstPort).2

/-! ## Namespace counts and admission -/

def decNsEntryCountLocked (counts : NsCounts) (nsId : ℕ) : NsCounts :=
  match counts.get nsId with
  | none => counts
  | some c =>
    let counts := counts.modify nsId fun _ => c - 1
    if c - 1 = 0 then counts.remove nsId else counts

inductive Admission where
  | free
  | replace (victim : FlowKey)
  | full
deriving DecidableEq

/-- The order in which victims are taken: UDP streams last, local flows after remote ones, then the
oldest, then the least key. -/
abbrev Candidate := Bool ×ₗ Bool ×ₗ ℕ ×ₗ FlowKey

/-- The flow an entry offers as a victim in the scope of a namespace. -/
def victimCandidate (k : FlowKey) (e : ConntrackEntry) : Option Candidate :=
  if k.netNsId ≠ ns then none
  else
    let udpStream := e.state.isUdp && !e.replaceable
    if e.pendingEgress.isSome || (!e.replaceable && !udpStream) then none
    else some (toLex (udpStream, toLex (e.localOrigin, toLex (e.lastSeenMs, k))))

/-- One round of the victim scan. -/
def victimStep (best : Option Candidate) (flow : FlowKey × ConntrackEntry) : Option Candidate :=
  match victimCandidate ns flow.1 flow.2 with
  | none => best
  | some candidate =>
    match best with
    | none => some candidate
    | some old => if candidate < old then some candidate else some old

/-- The key a candidate stands for. -/
def Candidate.key (c : Candidate) : FlowKey := (ofLex (ofLex (ofLex c).2).2).2

def lruVictimInNsLocked : Option FlowKey :=
  (entries.iter.foldl (victimStep ns) none).map Candidate.key

/-- The namespace that must give up a flow for a new flow of `ns`, or `none` below every limit. -/
def admissionScope (nsCounts : NsCounts) (ns : ℕ) : Option ℕ :=
  let tableLen := entries.len
  let nsCount := (nsCounts.get ns).getD 0
  let rootCount := (nsCounts.get ctRootNs).getD 0
  let tenantTotal := tableLen - rootCount
  if ns ≠ ctRootNs ∧ (ctMaxEntriesPerNs ≤ nsCount ∨ ctMaxEntries - ctRootReserve ≤ tenantTotal) then
    some ns
  else if ctMaxEntries ≤ tableLen then some ctRootNs
  else none

def admissionLocked (nsCounts : NsCounts) (ns : ℕ) : Admission :=
  match admissionScope entries nsCounts ns with
  | none => .free
  | some scope =>
    match lruVictimInNsLocked entries scope with
    | some victim => .replace victim
    | none => .full

/-- Capacity for one more entry from a prepared backing, as every creation obtains it under the
locks: `none` is a resource rejection. -/
def installFor {K V : Type} [LinearOrder K] (m : AdmittedMap K V) (committed : Bool)
    (prepared : Option ℕ) : Option (AdmittedMap K V) := do
  match ← m.capacityPlanFor 1 with
  | none => some m
  | some plan =>
    let candidate ← prepared
    if candidate < plan.required then none else m.installPreparedDeferred committed candidate

/-- Capacity for the row of a namespace. -/
def installRow (counts : NsCounts) (ns : ℕ) (committed : Bool) (prepared : Option ℕ) :
    Option NsCounts :=
  if (counts.get ns).isSome then some counts else installFor counts committed prepared

namespace ConntrackTable

variable (t : ConntrackTable) (p : Packet)

/-- A rejected creation. -/
def insertFailed : ConntrackTable :=
  { t with stats := t.stats.noteInsertFailed }

/-- A packet that fits no state. -/
def invalidTransition : ConntrackTable :=
  { t with stats := t.stats.noteInvalidTransition }

/-- A write through the lock of one entry. -/
def modifyEntry (k : FlowKey) (f : ConntrackEntry → ConntrackEntry) : ConntrackTable :=
  { t with entries := t.entries.modify k f }

/-- `entries.remove` together with `dec_ns_entry_count`. -/
def removeFlow (k : FlowKey) : ConntrackTable :=
  { t with
    entries := t.entries.remove k
    nsEntryCounts := decNsEntryCountLocked t.nsEntryCounts k.netNsId }

/-- `try_capacity_permit`: `none` while another creator holds it. -/
def tryCapacityPermit : Option ConntrackTable :=
  if t.capacityPreparing then none else some { t with capacityPreparing := true }

/-- Dropping the permit. -/
def releasePermit : ConntrackTable := { t with capacityPreparing := false }

/-! ## Packets of tracked flows -/

/-- A live entry without pending egress processes an ingress packet. -/
def ingressUpdate (entry : ConntrackEntry) : ConntrackTable × CtUpdateResult :=
  let stateDir := entry.stateDir p.dir
  let (newState, decision) := transitionState entry stateDir p.proto p.l4
  if decision = .invalid then (t.invalidTransition, ⟨decision, entry.state, p.dir, false⟩)
  else
    (t.modifyEntry p.key fun e =>
      { e with state := newState }.updateStats stateDir p.l4.payloadLen p.nowMs,
      ⟨decision, newState, p.dir, false⟩)

/-- The fast path of `update_on_packet`: `none` sends the packet to `create_entry`. -/
def updateOnPacket : ConntrackTable × Option CtUpdateResult :=
  match t.entries.get p.key with
  | none => (t, none)
  | some entry =>
    if entry.pendingEgress.isSome then (t, some ⟨.invalid, entry.state, p.dir, false⟩)
    else if entry.isExpired p.nowMs then (t, none)
    else
      let (t, result) := t.ingressUpdate p entry
      (t, some result)

/-! ## `create_entry` -/

/-- Before any lock: the initial state, then the permit.  A result ends the call. -/
def createBegin : ConntrackTable × Except CtUpdateResult CtProtoState :=
  match initialState p.proto p.l4 with
  | none => (t.invalidTransition, .error ⟨.invalid, .tcp .none, p.dir, false⟩)
  | some initial =>
    match t.tryCapacityPermit with
    | none => (t.insertFailed, .error (resourceRejection p.dir))
    | some t => (t, .ok initial)

/-- The backings `create_entry` prepares from a snapshot: the outer `none` is an error. -/
def createPlans : Option (Option CapacityPlan × Option CapacityPlan) :=
  let existingLive := match t.entries.get p.key with
    | none => false
    | some e => e.pendingEgress.isSome || !e.isExpired p.nowMs
  if existingLive then some (none, none)
  else do
    let replacingExpired := (t.entries.get p.key).isSome
    let tableFull : Bool := ctMaxEntries ≤ t.entries.len
    let entryPlan ← if replacingExpired || tableFull then some none else t.entries.capacityPlanFor 1
    let nsPlan ← if t.nsEntryCounts.containsKey p.key.netNsId then some none
      else t.nsEntryCounts.capacityPlanFor 1
    some (entryPlan, nsPlan)

/-- A backing for a plan, if there is one to prepare: the outer `none` is a failed preparation. -/
def preparePlan (grant : Grant) : Option CapacityPlan → Option (Option ℕ)
  | none => some none
  | some plan => (tryFromPlan grant plan).map some

/-- The preparation of `create_entry`: capacities of the prepared backings. -/
def createPrepare (entryGrant nsGrant : Grant) :
    Option (Option ℕ × Option ℕ) := do
  let (entryPlan, nsPlan) ← t.createPlans p
  let preparedEntries ← preparePlan entryGrant entryPlan
  let preparedNs ← preparePlan nsGrant nsPlan
  some (preparedEntries, preparedNs)

/-- `evict_victim_locked`, for a victim. -/
def evictVictimLocked (victim : FlowKey) : Option ConntrackTable :=
  match t.entries.get victim with
  | none => none
  | some _ =>
    let t := t.removeFlow victim
    some { t with stats := t.stats.noteEvicted }

/-- The row of the namespace is charged after the flow is in place; a row that cannot be inserted
takes the flow back out. -/
def createCharge (initial : CtProtoState) : ConntrackTable × CtUpdateResult :=
  let ns := p.key.netNsId
  let publish (counts : NsCounts) : ConntrackTable × CtUpdateResult :=
    ({ t with nsEntryCounts := counts, stats := t.stats.noteCreated }, ⟨.new, initial, p.dir, false⟩)
  match t.nsEntryCounts.get ns with
  | some count => publish (t.nsEntryCounts.modify ns fun _ => count + 1)
  | none =>
    match t.nsEntryCounts.insertUniqueReserved ns 1 with
    | some counts => publish counts
    | none => ({ t with entries := t.entries.remove p.key }.insertFailed, resourceRejection p.dir)

/-- The last part of `create_entry`: capacity for the flow, its insertion and its charge. -/
def createInsert (initial : CtProtoState) (committed : Bool) (preparedEntries : Option ℕ) :
    ConntrackTable × CtUpdateResult :=
  if ctMaxEntries ≤ t.entries.len then (t.insertFailed, resourceRejection p.dir)
  else
    match installFor t.entries committed preparedEntries with
    | none => (t.insertFailed, resourceRejection p.dir)
    | some entries =>
      let entry := (ConntrackEntry.new p.key initial p.nowMs p.dir).updateStats .original
        p.l4.payloadLen p.nowMs
      match entries.insertUniqueReserved p.key entry with
      | none => ({ t with entries := entries }.insertFailed, resourceRejection p.dir)
      | some entries => { t with entries := entries }.createCharge p initial

/-- The middle part of `create_entry`, without an entry under the key: admission, capacity for the
namespace row, eviction. -/
def createAdmit (initial : CtProtoState) (entryCommitted nsCommitted : Bool)
    (preparedEntries preparedNs : Option ℕ) :
    ConntrackTable × CtUpdateResult :=
  let ns := p.key.netNsId
  let reject : ConntrackTable × CtUpdateResult := (t.insertFailed, resourceRejection p.dir)
  let admission := admissionLocked t.entries t.nsEntryCounts ns
  if admission = .full then reject
  else
    match installRow t.nsEntryCounts ns nsCommitted preparedNs with
    | none => reject
    | some counts =>
      let t := { t with nsEntryCounts := counts }
      match admission with
      | .replace victim =>
        match t.evictVictimLocked victim with
        | none => (t.insertFailed, resourceRejection p.dir)
        | some t => t.createInsert p initial entryCommitted preparedEntries
      | _ => t.createInsert p initial entryCommitted preparedEntries

/-- The write-locked section of `create_entry`; the permit is dropped on every return. -/
def createPublish (initial : CtProtoState) (entryCommitted nsCommitted : Bool)
    (preparedEntries preparedNs : Option ℕ) :
    ConntrackTable × CtUpdateResult :=
  match t.entries.get p.key with
  | none => t.createAdmit p initial entryCommitted nsCommitted preparedEntries preparedNs
  | some entry =>
    if entry.pendingEgress.isSome then (t, ⟨.invalid, entry.state, p.dir, false⟩)
    else if entry.isExpired p.nowMs then
      let t := t.removeFlow p.key
      { t with stats := t.stats.noteTimedOut 1 }.createAdmit p initial entryCommitted nsCommitted
        preparedEntries preparedNs
    else t.ingressUpdate p entry

/-! ## Confirmations by the socket -/

def commitTcpIngressHandshake (netNsId srcIp dstIp srcPort dstPort : ℕ) : ConntrackTable × Bool :=
  let key := (FlowKey.fromPacket netNsId ipprotoTcp srcIp dstIp srcPort dstPort).1
  match t.entries.get key with
  | none => (t, false)
  | some entry =>
    if entry.pendingEgress.isSome ∨ entry.state ≠ .tcp .synRecv ∨
        entry.tcpLocalHandshake ≠ .synAckQueued then (t, false)
    else
      (t.modifyEntry key fun e =>
        { e with state := .tcp .established, tcpLocalHandshake := .complete }, true)

/-- `TcpCloseToken`: the generation of a flow, a `NonZeroU64`. -/
abbrev TcpCloseToken := { generation : ℕ // generation ≠ 0 }

def tcpCloseToken (key : FlowKey) : Option TcpCloseToken :=
  match t.entries.get key with
  | none => none
  | some entry =>
    if entry.tcpLocalHandshake ≠ .complete then none
    else
      match entry.state with
      | .tcp _ => if h : entry.tcpGeneration ≠ 0 then some ⟨entry.tcpGeneration, h⟩ else none
      | _ => none

/-- The end of a connection is written over the state and over what a queued packet would set. -/
def endConnection (state : CtProtoState) (e : ConntrackEntry) : ConntrackEntry :=
  { e with
    state := state
    pendingEgress := e.pendingEgress.map fun pending => { pending with newState := state } }

def commitTcpClose (key : FlowKey) (token : TcpCloseToken) : ConntrackTable × Bool :=
  match t.entries.get key with
  | none => (t, false)
  | some entry =>
    if entry.tcpGeneration ≠ token.1 ∨ entry.state = .tcp .close then (t, false)
    else (t.modifyEntry key (endConnection (.tcp .timeWait)), true)

def commitTcpIngressReset (netNsId srcIp dstIp srcPort dstPort : ℕ) : ConntrackTable × Bool :=
  let key := (FlowKey.fromPacket netNsId ipprotoTcp srcIp dstIp srcPort dstPort).1
  match t.entries.get key with
  | none => (t, false)
  | some entry =>
    match entry.state with
    | .tcp _ => (t.modifyEntry key (endConnection (.tcp .close)), true)
    | _ => (t, false)

/-! ## Removal -/

def remove (key : FlowKey) : ConntrackTable × Bool :=
  match t.entries.get key with
  | none => (t, false)
  | some entry =>
    if entry.pendingEgress.isSome then (t, false)
    else
      let t := t.removeFlow key
      ({ t with stats := t.stats.noteRemoved 1 }, true)

/-- The scan of `sweep`, under the read lock. -/
def sweepScan (nowMs budget : ℕ) :
    List (FlowKey × ConntrackEntry) → AdmittedVec FlowKey → AdmittedVec FlowKey
  | [], toRemove => toRemove
  | (key, entry) :: rest, toRemove =>
    if budget ≤ toRemove.values.length then toRemove
    else if entry.pendingEgress.isNone && entry.isExpired nowMs then
      match toRemove.pushReserved key with
      | none => toRemove
      | some toRemove => sweepScan nowMs budget rest toRemove
    else sweepScan nowMs budget rest toRemove

/-- The first part of `sweep`: the keys to remove, or `none` without memory to hold them. -/
def sweepCollect (env : AllocEnv) (nowMs budget : ℕ) :
    Option (List FlowKey) := do
  let toRemove ← ensureVecCapacityFor (AdmittedVec.new : AdmittedVec FlowKey) env
    (min budget ctSweepBudget)
  some (sweepScan nowMs budget t.entries.iter toRemove).values

/-- One key of the second part of `sweep`: the flow is checked for pending egress once more. -/
def sweepOne (s : ConntrackTable × ℕ) (key : FlowKey) : ConntrackTable × ℕ :=
  match s.1.entries.get key with
  | none => s
  | some entry => if entry.pendingEgress.isNone then (s.1.removeFlow key, s.2 + 1) else s

/-- The second part of `sweep`, under the write lock. -/
def sweepRemove (toRemove : List FlowKey) : ConntrackTable × ℕ :=
  let (t, actuallyRemoved) := toRemove.foldl sweepOne (t, 0)
  if 0 < actuallyRemoved then ({ t with stats := t.stats.noteTimedOut actuallyRemoved },
    actuallyRemoved)
  else (t, 0)

/-- The next flow `drain_ns` removes. -/
def drainVictim (nsId : ℕ) : Option FlowKey :=
  (t.entries.iter.find? fun flow =>
    decide (flow.1.netNsId = nsId) && flow.2.pendingEgress.isNone).map Prod.fst

/-- The victim of a drain is a flow of the namespace without pending egress. -/
lemma of_drainVictim {t : ConntrackTable} {nsId : ℕ} {key : FlowKey}
    (h : t.drainVictim nsId = some key) :
    key.netNsId = nsId ∧ ∃ e, t.entries.get key = some e ∧ e.pendingEgress = none := by
  obtain ⟨⟨key', e⟩, hfind, rfl⟩ := Option.map_eq_some_iff.mp h
  have hcond := List.find?_some hfind
  rw [Bool.and_eq_true, decide_eq_true_eq, Option.isNone_iff_eq_none] at hcond
  exact ⟨hcond.1, e, SortedAssoc.mem_entries.mp (List.mem_of_find?_eq_some hfind), hcond.2⟩

/-- The loop of `drain_ns`, with the number of flows removed so far. -/
def drainLoop (t : ConntrackTable) (nsId removed : ℕ) : ConntrackTable × ℕ :=
  match h : t.drainVictim nsId with
  | none => (t, removed)
  | some key => drainLoop (t.removeFlow key) nsId (removed + 1)
termination_by t.entries.len
decreasing_by
  obtain ⟨-, e, he, -⟩ := of_drainVictim h
  have hlen : (t.entries.remove key).len + 1 = t.entries.len := SortedAssoc.length_erase he
  change (t.entries.remove key).len < t.entries.len
  omega

/-- `drain_ns`: the row is kept while a provisional flow of the namespace remains. -/
def drainNs (nsId : ℕ) : ConntrackTable × ℕ :=
  let (t, removed) := t.drainLoop nsId 0
  let provisionalRemains := t.entries.iter.any fun flow => flow.1.netNsId = nsId
  let t := if provisionalRemains then t
    else { t with nsEntryCounts := t.nsEntryCounts.remove nsId }
  (if 0 < removed then { t with stats := t.stats.noteRemoved removed } else t, removed)

end ConntrackTable

end Nilix.Net.Ct
