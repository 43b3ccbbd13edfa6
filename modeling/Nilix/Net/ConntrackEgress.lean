import Nilix.Net.ConntrackTable

/-!
# Connection tracking: egress transactions

`update_on_egress_transaction_with_commit`: a token is reserved under the locks, the device queue is
called without them, and the reservation is finalised or rolled back.  A new flow is published by the
reservation, with the flow it replaces detached until the queue has answered.
-/

namespace Nilix.Net.Ct

inductive CtEgressResult (E : Type) where
  | committed (result : CtUpdateResult)
  | rejected (result : CtUpdateResult)
  | queueFailed (error : E)
  | queuedOwnerStale (result : CtUpdateResult)
  | stateLost (queued : Bool)

inductive EgressVictimKind where
  | expired
  | evicted

structure DetachedEgressVictim where
  key : FlowKey
  entry : ConntrackEntry
  kind : EgressVictimKind

structure EgressReservation where
  key : FlowKey
  dir : ConntrackDir
  token : ℕ
  createdEntry : Bool
  victim : Option DetachedEgressVictim

/-- `NEXT_EGRESS_TOKEN.fetch_update`: the token, if there is one, and the next one. -/
def fetchEgressToken (next : ℕ) : Option ℕ × ℕ :=
  match checkedAdd next 1 with
  | none => (none, next)
  | some next' => (if next ≠ 0 then some next else none, next')

/-- The result of a transaction that gets no token. -/
def tokenRejection : CtUpdateResult := ⟨.invalid, .other, .original, true⟩

/-! ## Rows of the namespace counts -/

/-- One more flow in a row, inserting the row if it is absent; `false` if that fails. -/
def chargeRow (counts : NsCounts) (ns : ℕ) : NsCounts × Bool :=
  match counts.get ns with
  | some count =>
    match checkedAdd count 1 with
    | some next => (counts.modify ns fun _ => next, true)
    | none => (counts, false)
  | none =>
    match counts.insertUniqueReserved ns 1 with
    | some counts => (counts, true)
    | none => (counts, false)

/-- The second half of a replacement: the counts once the new flow is in place, and whether the
publication succeeded. -/
def publishCounts (counts : NsCounts) (requesterNs : ℕ) (victimNs : Option ℕ) : NsCounts × Bool :=
  match victimNs with
  | none => chargeRow counts requesterNs
  | some victimNs =>
    if victimNs = requesterNs then
      (counts, (counts.get requesterNs).any fun count => decide (0 < count))
    else
      match (counts.get victimNs).filter fun count => decide (0 < count) with
      | none => (counts, false)
      | some victimCount =>
        if (counts.get requesterNs).isNone ∧ victimCount = 1 then
          let counts := counts.remove victimNs
          match counts.insertUniqueReserved requesterNs 1 with
          | some counts => (counts, true)
          | none => (counts, false)
        else
          match chargeRow counts requesterNs with
          | (counts, false) => (counts, false)
          | (counts, true) =>
            if victimCount = 1 then (counts.remove victimNs, true)
            else
              match counts.get victimNs with
              | some count => (counts.modify victimNs fun _ => count - 1, true)
              | none => (counts, false)

/-- A row is set back to what it was. -/
def restoreRow (counts : NsCounts) (ns : ℕ) (before : Option ℕ) : NsCounts × Bool :=
  match before with
  | none => (counts.remove ns, true)
  | some before =>
    match counts.get ns with
    | some _ => (counts.modify ns fun _ => before, true)
    | none =>
      match counts.insertUniqueReserved ns before with
      | some counts => (counts, true)
      | none => (counts, false)

namespace ConntrackTable

variable {E : Type}

/-! ## Preparation -/

variable (counts : NsCounts) (key : FlowKey) (victim : Option FlowKey) (t : ConntrackTable)
    (r : EgressReservation) (p : Packet) (token : ℕ) (initial : CtProtoState)

/-- Whether a transaction needs the creation permit. -/
def needsCapacityTransaction : Bool :=
  match t.entries.get p.key with
  | none => true
  | some e => e.isExpired p.nowMs

/-- Whether a victim is a flow of the requester's namespace. -/
def victimInRequesterNs : Bool :=
  victim.any fun victim => decide (victim.netNsId = key.netNsId)

/-- A tenant that would hold more than its share once the victim is gone. -/
def overShare : Bool :=
  decide (key.netNsId ≠ ctRootNs ∧ ctMaxEntriesPerNs ≤
    (counts.get key.netNsId).getD 0 - (victimInRequesterNs key victim).toNat)

/-- Whether taking the victim out frees a namespace row. -/
def victimFreesNsRow : Bool :=
  (victim.bind fun victim => (counts.get victim.netNsId).map fun count => decide (count = 1)).getD
    false

/-- The backings one round of the preparation asks for: the outer `none` is an error. -/
def egressPlans : Option (Option CapacityPlan × Option CapacityPlan) :=
  let existingLive := match t.entries.get p.key with
    | none => false
    | some e => e.pendingEgress.isSome || !e.isExpired p.nowMs
  if existingLive then some (none, none)
  else
    -- An entry that is there and not live is expired without pending egress.
    let admission := if (t.entries.get p.key).isSome then .replace p.key
      else admissionLocked t.entries t.nsEntryCounts p.key.netNsId
    if admission = .full then some (none, none)
    else
      let victimPlan := match admission with
        | .replace victim => some victim
        | _ => none
      if overShare t.nsEntryCounts p.key victimPlan then some (none, none)
      else do
        let entryPlan ← if victimPlan.isNone then t.entries.capacityPlanFor 1 else some none
        let nsPlan ← if !t.nsEntryCounts.containsKey p.key.netNsId &&
            !victimFreesNsRow t.nsEntryCounts victimPlan then t.nsEntryCounts.capacityPlanFor 1
          else some none
        some (entryPlan, nsPlan)

/-- What one round of the preparation loop does. -/
inductive PrepareRound where
  | prepared
  | again (preparedEntries preparedNs : Option ℕ)
  | failed

/-- A prepared backing that is too small is replaced. -/
def reprepare (grant : Grant) (plan : Option CapacityPlan) (prepared : Option ℕ) :
    Option (Option ℕ) :=
  match plan with
  | none => some prepared
  | some plan => (tryFromPlan grant plan).map some

/-- The plan, unless the prepared backing suffices for it. -/
def neededPlan (plan : Option CapacityPlan) (prepared : Option ℕ) : Option CapacityPlan :=
  plan.filter fun plan => match prepared with
    | none => true
    | some capacity => decide (capacity < plan.required)

/-- One round of the preparation loop. -/
def egressPrepare (entryGrant nsGrant : Grant) (preparedEntries preparedNs : Option ℕ) : PrepareRound :=
  match t.egressPlans p with
  | none => .failed
  | some (entryPlan, nsPlan) =>
    let needEntries := neededPlan entryPlan preparedEntries
    let needNs := neededPlan nsPlan preparedNs
    if needEntries.isNone && needNs.isNone then .prepared
    else
      match reprepare entryGrant needEntries preparedEntries with
      | none => .failed
      | some preparedEntries =>
        match reprepare nsGrant needNs preparedNs with
        | none => .failed
        | some preparedNs => .again preparedEntries preparedNs

/-! ## Reservation -/

/-- The end of a section of a transaction: its result, or a reservation to settle. -/
abbrev Reserved (E : Type) := Except (CtEgressResult E) EgressReservation

/-- A rejection for want of resources. -/
def rejectEgress : ConntrackTable × Reserved E :=
  (t.insertFailed, .error (.rejected (resourceRejection p.dir)))

/-- The transition a local packet waits for on a live flow; a local RST closes the flow. -/
def egressPending (entry : ConntrackEntry) (p : Packet) (token : ℕ) : PendingEgress :=
  let stateDir := entry.stateDir p.dir
  let tcpHandshake := egressTcpHandshake entry stateDir p.proto p.l4
  let (newState, decision) :=
    transitionStateWithHandshake entry stateDir p.proto p.l4 tcpHandshake
  let newState := if p.proto = ipprotoTcp ∧ p.l4.isRst then .tcp .close else newState
  ⟨token, newState, decision, stateDir, p.l4.payloadLen, p.nowMs, tcpHandshake⟩

/-- The token on a live flow. -/
def reserveExisting (entry : ConntrackEntry) : ConntrackTable × Reserved E :=
  let pending := egressPending entry p token
  if pending.decision = .invalid then
    (t.invalidTransition, .error (.rejected ⟨pending.decision, entry.state, p.dir, false⟩))
  else
    (t.modifyEntry p.key (ConntrackEntry.withPending pending),
      .ok ⟨p.key, p.dir, token, false, none⟩)

/-- The flow a new flow replaces: the outer `none` says that admission is full. -/
def victimPlan (key : FlowKey) (replacingExpired : Bool) :
    Option (Option (FlowKey × EgressVictimKind)) :=
  if replacingExpired then some (some (key, .expired))
  else
    match admissionLocked t.entries t.nsEntryCounts key.netNsId with
    | .free => some none
    | .replace victim => some (some (victim, .evicted))
    | .full => none

/-- The provisional entry of a new flow. -/
def provisionalEntry : ConntrackEntry :=
  { ConntrackEntry.new p.key initial p.nowMs p.dir with localOrigin := true }.withPending
    ⟨token, initial, .new, .original, p.l4.payloadLen, p.nowMs,
      if p.proto = ipprotoTcp then .synQueued else .none⟩

/-- The namespace counts after the new flow is in place; a failure undoes the replacement. -/
def reserveCharge (victim : Option DetachedEgressVictim) : ConntrackTable × Reserved E :=
  let requesterNs := p.key.netNsId
  let victimNs := victim.map fun v => v.key.netNsId
  let requesterBefore := t.nsEntryCounts.get requesterNs
  let victimBefore := victimNs.bind t.nsEntryCounts.get
  match publishCounts t.nsEntryCounts requesterNs victimNs with
  | (counts, true) =>
    ({ t with nsEntryCounts := counts }, .ok ⟨p.key, p.dir, token, true, victim⟩)
  | (counts, false) =>
    let (counts, requesterRestoreOk) := restoreRow counts requesterNs requesterBefore
    let (counts, victimRestoreOk) := match victimNs with
      | none => (counts, true)
      | some victimNs => restoreRow counts victimNs victimBefore
    let entryRestoreOk := (t.entries.get p.key).isSome
    let entries := t.entries.remove p.key
    let (entries, victimEntryRestoreOk) := match victim with
      | none => (entries, true)
      | some v =>
        match entries.insertUniqueReserved v.key v.entry with
        | some entries => (entries, true)
        | none => (entries, false)
    let t := { t with entries := entries, nsEntryCounts := counts }
    if requesterRestoreOk && victimRestoreOk && entryRestoreOk && victimEntryRestoreOk then
      t.rejectEgress p
    else (t.insertFailed, .error (.stateLost false))

/-- The new flow in the place of the detached victim; a failure puts the victim back. -/
def reserveInsert (victim : Option DetachedEgressVictim) : ConntrackTable × Reserved E :=
  match t.entries.insertUniqueReserved p.key (provisionalEntry p token initial) with
  | some entries => { t with entries := entries }.reserveCharge p token victim
  | none =>
    match victim with
    | none => t.rejectEgress p
    | some v =>
      match t.entries.insertUniqueReserved v.key v.entry with
      | some entries => { t with entries := entries }.rejectEgress p
      | none => (t.insertFailed, .error (.stateLost false))

/-- The victim is taken out of the table, its namespace charge unchanged. -/
def reserveDetach (victimPlan : Option (FlowKey × EgressVictimKind)) : ConntrackTable × Reserved E :=
  match victimPlan with
  | none => t.reserveInsert p token initial none
  | some (victimKey, kind) =>
    match t.entries.get victimKey with
    | none => t.rejectEgress p
    | some entry =>
      { t with entries := t.entries.remove victimKey }.reserveInsert p token initial
        (some ⟨victimKey, entry, kind⟩)

/-- Capacity for the new flow, unless it takes the place of a victim. -/
def installSlot (entries : Entries) (victim : Option FlowKey) (committed : Bool)
    (prepared : Option ℕ) : Option Entries :=
  if victim.isNone then installFor entries committed prepared else some entries

/-- Capacity for the row of the new flow, unless it is there or the victim frees one. -/
def installEgressRow (committed : Bool) (prepared : Option ℕ) : Option NsCounts :=
  if !counts.containsKey key.netNsId && !victimFreesNsRow counts victim then
    installFor counts committed prepared
  else some counts

/-- A new flow, in the place of an expired one or under admission. -/
def reserveNew (replacingExpired permit : Bool) (entryCommitted nsCommitted : Bool)
    (preparedEntries preparedNs : Option ℕ) :
    ConntrackTable × Reserved E :=
  match initialState p.proto p.l4 with
  | none => (t.invalidTransition, .error (.rejected ⟨.invalid, .tcp .none, p.dir, false⟩))
  | some initial =>
    match t.victimPlan p.key replacingExpired with
    | none => t.rejectEgress p
    | some victimPlan =>
      let victimKey := victimPlan.map Prod.fst
      if overShare t.nsEntryCounts p.key victimKey then t.rejectEgress p
      else if !permit then t.rejectEgress p
      else
        match installSlot t.entries victimKey entryCommitted preparedEntries with
        | none => t.rejectEgress p
        | some entries =>
          let t := { t with entries := entries }
          match installEgressRow t.nsEntryCounts p.key victimKey nsCommitted preparedNs with
          | none => t.rejectEgress p
          | some counts =>
            { t with nsEntryCounts := counts }.reserveDetach p token initial victimPlan

/-- The locked section of an egress transaction. -/
def egressReserve (permit : Bool) (entryCommitted nsCommitted : Bool)
    (preparedEntries preparedNs : Option ℕ) :
    ConntrackTable × Reserved E :=
  match t.entries.get p.key with
  | none =>
    t.reserveNew p token false permit entryCommitted nsCommitted preparedEntries preparedNs
  | some entry =>
    if entry.pendingEgress.isSome then
      (t, .error (.rejected ⟨.invalid, entry.state, p.dir, false⟩))
    else if !entry.isExpired p.nowMs then t.reserveExisting p token entry
    else t.reserveNew p token true permit entryCommitted nsCommitted preparedEntries preparedNs

/-! ## Settlement -/

/-- `rollback_egress_reservation`; `false` is a lost state. -/
def rollbackEgressReservation : ConntrackTable × Bool :=
  match t.entries.get r.key with
  | none => (t, false)
  | some entry =>
    if entry.pendingEgress.map PendingEgress.token ≠ some r.token then (t, false)
    else if !r.createdEntry then
      (t.modifyEntry r.key fun e => { e with pendingEgress := none }, true)
    else
      let t := t.removeFlow r.key
      match r.victim with
      | none => (t, true)
      | some v =>
        match t.entries.insertUniqueReserved v.key v.entry with
        | none => (t, false)
        | some entries =>
          let (counts, ok) := chargeRow t.nsEntryCounts v.key.netNsId
          ({ t with entries := entries, nsEntryCounts := counts }, ok)

/-- The entry after its pending egress is published. -/
def finalizeEntry (pending : PendingEgress) (e : ConntrackEntry) : ConntrackEntry :=
  let e := { e with
    state := pending.newState
    tcpLocalHandshake := pending.tcpHandshake
    tcpGeneration :=
      if e.tcpGeneration = 0 ∧ pending.tcpHandshake ≠ TcpLocalHandshake.none then pending.token
      else e.tcpGeneration }
  { e.updateStats pending.stateDir pending.payloadLen pending.nowMs with pendingEgress := none }

/-- The statistics of a finalised reservation. -/
def finalizeStats (s : ConntrackStats) (r : EgressReservation) : ConntrackStats :=
  if !r.createdEntry then s
  else
    match r.victim.map DetachedEgressVictim.kind with
    | some .expired =>
      { s with
        entriesCreated := s.entriesCreated + 1
        timeoutDeletes := s.timeoutDeletes + 1
        entriesDeleted := s.entriesDeleted + 1 }
    | some .evicted =>
      { s with
        entriesCreated := s.entriesCreated + 1
        entriesDeleted := s.entriesDeleted + 1
        evictions := s.evictions + 1 }
    | none => s.noteCreated

/-- `finalize_egress_reservation`; `none` is a lost state. -/
def finalizeEgressReservation : Option (ConntrackTable × CtUpdateResult) :=
  match t.entries.get r.key with
  | none => none
  | some entry =>
    match entry.pendingEgress with
    | none => none
    | some pending =>
      if pending.token ≠ r.token then none
      else
        let t := t.modifyEntry r.key (finalizeEntry pending)
        some ({ t with stats := finalizeStats t.stats r },
          ⟨pending.decision, pending.newState, r.dir, false⟩)

end ConntrackTable

end Nilix.Net.Ct
