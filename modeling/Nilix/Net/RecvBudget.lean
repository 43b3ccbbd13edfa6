import Mathlib.Logic.Relation
import Nilix.Net.Admitted

/-!
# The receive budget of a network namespace

`kernel/net/src/socket.rs`: `per_ns_recv_bytes` counts the received bytes that the connections of a
namespace buffer.  A connection that is about to buffer a payload passes a gate, which also prepares
the row of its namespace; after the buffers changed, the row is reconciled with the connection's
footprint; teardown takes the connection's bytes out of the row.  Each of the three takes the lock of
the map for itself, so the steps of different connections interleave.

A reconciliation of an empty connection, and any reconciliation or teardown that brings the row to
zero, removes the row for all connections of the namespace.  `Guarded` is the condition under which
that is harmless.
-/

namespace Nilix.Net.Recv

open Option List FallibleOrderedMap

open Relation

/-! ## The accounting functions -/

/-- `NamespaceId`; the root namespace is 0. -/
abbrev NamespaceId := ℕ

def maxRecvBytesPerNs : ℕ := 16 * 1024 * 1024

/-- The fields of a `TcpControlBlock` that receive accounting uses. -/
structure TcpControlBlock where
  recvBufferLen : ℕ
  oooBytes : ℕ
  nsChargedRecvBytes : ℕ

/-- The errors of the gate. -/
inductive SocketError
  | wouldBlock
  | noMemory

/-- The `expect` in `reconcile_ns_recv`. -/
inductive RecvFault
  | slotNotPrepared

/-- `per_ns_recv_bytes`. -/
abbrev Counts := AdmittedMap NamespaceId ℕ

variable (c : Connection) (counts : Counts) (nsId : NamespaceId) (tcb : TcpControlBlock)

/-- The live footprint of a connection. -/
def TcpControlBlock.footprint : ℕ :=
  saturatingAdd tcb.recvBufferLen tcb.oooBytes

/-- The counter slot that the gate prepares. -/
def prepareRow (env : AllocEnv) : Except SocketError Unit × Counts :=
  if counts.containsKey nsId then (.ok (), counts)
  else match AdmittedMap.ensureCapacityFor counts env 1 with
    | none => (.error .noMemory, counts)
    | some counts1 => match counts1.insertUniqueReserved nsId 0 with
      | none => (.error .noMemory, counts1)
      | some counts2 => (.ok (), counts2)

def tryChargeNsRecvGate (growBy : ℕ) (env : AllocEnv) : Except SocketError Unit × Counts :=
  if nsId = 0 ∨ growBy = 0 then (.ok (), counts)
  else
    let live := (counts.get nsId).getD 0
    let charged := tcb.nsChargedRecvBytes
    let otherConns := live - charged
    let connAfter := saturatingAdd charged growBy
    match checkedAdd otherConns connAfter with
    | some projected =>
      if projected ≤ maxRecvBytesPerNs then prepareRow counts nsId env
      else (.error .wouldBlock, counts)
    | none => (.error .wouldBlock, counts)

/-- Take `n` bytes out of a row, which is removed at zero. -/
def releaseRow (n : ℕ) : Counts :=
  match counts.get nsId with
  | none => counts
  | some c => if c - n = 0 then counts.remove nsId else counts.modify nsId fun _ => c - n

def reconcileNsRecv : Except RecvFault (Counts × TcpControlBlock) :=
  let live := tcb.footprint
  let charged := tcb.nsChargedRecvBytes
  if nsId = 0 then .ok (counts, { tcb with nsChargedRecvBytes := live })
  else if live = charged then
    .ok (if live = 0 then counts.remove nsId else counts, tcb)
  else if charged < live then
    match counts.get nsId with
    | none => .error .slotNotPrepared
    | some e => .ok (counts.modify nsId fun _ => saturatingAdd e (live - charged),
        { tcb with nsChargedRecvBytes := live })
  else .ok (releaseRow counts nsId (charged - live), { tcb with nsChargedRecvBytes := live })

def unchargeNsRecvResidual (n : ℕ) : Counts :=
  if n = 0 ∨ nsId = 0 then counts else releaseRow counts nsId n

/-! ## Connections and their interleavings -/

/-- A connection: its namespace, its control block, and, between a gate that passed and the next
reconciliation, the footprint up to which its buffers may grow. -/
structure Connection where
  nsId : NamespaceId
  tcb : TcpControlBlock
  granted : Option ℕ

/-- The rows and the live connections. -/
structure World where
  counts : Counts
  conns : List Connection

/-- The steps of a connection, each under the connection's lock and taking the lock of the rows at
most once: the gate for a segment, a change of the buffers, a reconciliation, and the teardown. -/
inductive ConnOp
  | gate (growBy : ℕ) (env : AllocEnv)
  | mutate (recvBufferLen oooBytes : ℕ)
  | reconcile
  | teardown

/-- A step of the system: a new connection, or a step of a connection. -/
inductive Action
  | connect (nsId : NamespaceId)
  | conn (i : ℕ) (op : ConnOp)

/-- The footprint up to which the buffers of a connection may change: without a gate they do not
grow. -/
def Connection.limit : ℕ := c.granted.getD c.tcb.footprint

/-- The connection passed a gate for growth that is not yet reconciled. -/
def Connection.Pending : Prop := c.tcb.nsChargedRecvBytes < c.granted.getD 0

instance (c : Connection) : Decidable c.Pending := inferInstanceAs (Decidable (_ < _))

/-- A gate is passed at most once before the reconciliation, buffers stay within the limit, and a
connection is not torn down in the middle of a segment. -/
def ConnOp.Allowed : ConnOp → Prop
  | .gate _ _ => c.granted = none
  | .mutate recvBufferLen oooBytes => saturatingAdd recvBufferLen oooBytes ≤ c.limit
  | .reconcile => True
  | .teardown => c.granted = none

/-- A step of a connection: the rows after it, and the connection unless it is torn down. -/
def stepConn (c : Connection) : ConnOp → Except RecvFault (Counts × Option Connection)
  | .gate growBy env =>
    match tryChargeNsRecvGate counts c.nsId c.tcb growBy env with
    | (.ok (), counts') => .ok (counts', some { c with granted := some (c.tcb.footprint + growBy) })
    | (.error _, counts') => .ok (counts', some c)
  | .mutate recvBufferLen oooBytes =>
    .ok (counts, some { c with tcb := ⟨recvBufferLen, oooBytes, c.tcb.nsChargedRecvBytes⟩ })
  | .reconcile => (reconcileNsRecv counts c.nsId c.tcb).map fun (counts', tcb) =>
      (counts', some { c with tcb := tcb, granted := none })
  | .teardown => .ok (unchargeNsRecvResidual counts c.nsId c.tcb.nsChargedRecvBytes, none)

/-- The connections other than the one at `i`. -/
def siblings (conns : List Connection) (i : ℕ) : List Connection :=
  conns.take i ++ conns.drop (i + 1)

/-- Put what became of the connection at `i` in its place. -/
def replaceAt (conns : List Connection) (i : ℕ) (c : Option Connection) : List Connection :=
  conns.take i ++ (c.toList ++ conns.drop (i + 1))

namespace World

/-- The execution of a step; nothing happens for a connection that does not exist. -/
def exec (w : World) : Action → Except RecvFault World
  | .connect nsId => .ok { w with conns := ⟨nsId, ⟨0, 0, 0⟩, none⟩ :: w.conns }
  | .conn i op => match w.conns[i]? with
    | none => .ok w
    | some c => (stepConn w.counts c op).map fun (counts, c') => ⟨counts, replaceAt w.conns i c'⟩

lemma exec_conn_none {w : World} {i : ℕ} (h : w.conns[i]? = none) (op : ConnOp) :
    w.exec (.conn i op) = .ok w := by
  simp only [exec, h]

lemma exec_conn_some {w : World} {i : ℕ} {c : Connection} (h : w.conns[i]? = some c) (op : ConnOp) :
    w.exec (.conn i op) =
      (stepConn w.counts c op).map fun (counts, c') => ⟨counts, replaceAt w.conns i c'⟩ := by
  simp only [exec, h]

/-- The steps the source takes. -/
def Allowed (w : World) : Action → Prop
  | .connect _ => True
  | .conn i op => ∀ c ∈ w.conns[i]?, op.Allowed c

end World

/-! ## The condition -/

/-- No other connection of the namespace waits to reconcile growth that a gate admitted. -/
def NonePending (others : List Connection) : Prop :=
  ∀ c ∈ others, c.nsId = nsId → ¬ c.Pending

/-- A row is removed only when it is empty and no other connection relies on it, and no counter
saturates. -/
def ConnOp.Guarded (c : Connection) (others : List Connection) : ConnOp → Prop
  | .gate _ _ => True
  | .mutate _ _ => True
  | .reconcile => c.nsId ≠ 0 →
      (c.tcb.footprint = 0 → c.tcb.nsChargedRecvBytes = 0 →
        counts.get c.nsId = none ∨ counts.get c.nsId = some 0 ∧ NonePending c.nsId others) ∧
      (c.tcb.footprint < c.tcb.nsChargedRecvBytes →
        counts.get c.nsId = some (c.tcb.nsChargedRecvBytes - c.tcb.footprint) →
        NonePending c.nsId others) ∧
      (c.tcb.nsChargedRecvBytes < c.tcb.footprint →
        (counts.get c.nsId).getD 0 + (c.tcb.footprint - c.tcb.nsChargedRecvBytes) ≤ usizeMax)
  | .teardown => c.nsId ≠ 0 → 0 < c.tcb.nsChargedRecvBytes →
      counts.get c.nsId = some c.tcb.nsChargedRecvBytes → NonePending c.nsId others

/-- The condition on a step of the system. -/
def World.Guarded (w : World) : Action → Prop
  | .connect _ => True
  | .conn i op => ∀ c ∈ w.conns[i]?, op.Guarded w.counts c (siblings w.conns i)

instance (c : Connection) (op : ConnOp) : Decidable (op.Allowed c) := by
  cases op <;> unfold ConnOp.Allowed <;> infer_instance

instance (w : World) (a : Action) : Decidable (w.Allowed a) := by
  cases a <;> unfold World.Allowed <;> infer_instance

instance (nsId : NamespaceId) (others : List Connection) : Decidable (NonePending nsId others) := by
  unfold NonePending
  infer_instance

instance (counts : Counts) (c : Connection) (others : List Connection) (op : ConnOp) :
    Decidable (op.Guarded counts c others) := by
  cases op <;> unfold ConnOp.Guarded <;> infer_instance

instance (w : World) (a : Action) : Decidable (w.Guarded a) := by
  cases a <;> unfold World.Guarded <;> infer_instance

/-! ## The invariant -/

/-- The bytes that the connections of a namespace are charged for. -/
def chargedTo (conns : List Connection) : ℕ :=
  (conns.map fun c => if c.nsId = nsId then c.tcb.nsChargedRecvBytes else 0).sum

/-- The rows are exact, and a connection that waits to reconcile growth has a row. -/
structure Inv (counts : Counts) (conns : List Connection) : Prop where
  /-- A row is the sum of what the connections of its namespace are charged for. -/
  sum : ∀ nsId, nsId ≠ 0 → (counts.get nsId).getD 0 = chargedTo nsId conns
  /-- Growth that a gate admitted has a row to be added to. -/
  prepared : ∀ c ∈ conns, c.nsId ≠ 0 → c.Pending → counts.get c.nsId ≠ none
  /-- Without a gate a connection is charged for at least its footprint. -/
  bounded : ∀ c ∈ conns, c.tcb.footprint ≤ c.granted.getD c.tcb.nsChargedRecvBytes

lemma chargedTo_cons (c : Connection) (conns : List Connection) :
    chargedTo nsId (c :: conns) =
      (if c.nsId = nsId then c.tcb.nsChargedRecvBytes else 0) + chargedTo nsId conns := by
  unfold chargedTo
  rw [map_cons, sum_cons]

variable {counts : Counts}

lemma Inv.perm {conns conns' : List Connection} (h : Inv counts conns)
    (hperm : conns.Perm conns') : Inv counts conns' where
  sum nsId hns := (h.sum nsId hns).trans (hperm.map _).sum_eq
  prepared c hc := h.prepared c (hperm.mem_iff.mpr hc)
  bounded c hc := h.bounded c (hperm.mem_iff.mpr hc)

/-- A connection and its siblings are all connections. -/
lemma perm_siblings {conns : List Connection} {i : ℕ} {c : Connection}
    (h : conns[i]? = some c) : conns.Perm (c :: siblings conns i) := by
  obtain ⟨hlt, rfl⟩ := List.getElem?_eq_some_iff.mp h
  have hsplit : conns = conns.take i ++ conns[i] :: conns.drop (i + 1) := by
    rw [← drop_eq_getElem_cons hlt, take_append_drop]
  conv_lhs => rw [hsplit]
  exact perm_middle

lemma perm_replaceAt (conns : List Connection) (i : ℕ) (c : Option Connection) :
    (replaceAt conns i c).Perm (c.toList ++ siblings conns i) :=
  perm_append_comm_assoc _ _ _

/-! ## What the functions do to the rows -/

/-- Preparing a row leaves what the rows read, and a success leaves the row present. -/
lemma prepareRow_spec (counts : Counts) (nsId : NamespaceId) (env : AllocEnv) :
    (∀ ns, ns ≠ nsId → (prepareRow counts nsId env).2.get ns = counts.get ns) ∧
      ((prepareRow counts nsId env).2.get nsId = counts.get nsId ∨
        counts.get nsId = none ∧ (prepareRow counts nsId env).2.get nsId = some 0) ∧
      ((prepareRow counts nsId env).1 = .ok () →
        (prepareRow counts nsId env).2.get nsId ≠ none) := by
  unfold prepareRow
  split_ifs with hkey
  · refine ⟨fun _ _ => rfl, .inl rfl, fun _ => ?_⟩
    obtain ⟨v, hv⟩ := containsKey_iff.mp hkey
    rw [hv]
    exact some_ne_none v
  have hnone : counts.get nsId = none :=
    containsKey_eq_false_iff.mp (Bool.not_eq_true _ ▸ hkey)
  cases hensure : AdmittedMap.ensureCapacityFor counts env 1 with
  | none => exact ⟨fun _ _ => rfl, .inl rfl, nofun⟩
  | some counts1 =>
    obtain ⟨hassoc, -⟩ := AdmittedMap.of_ensureCapacityFor hensure
    dsimp only
    cases hinsert : counts1.insertUniqueReserved nsId 0 with
    | none => exact ⟨fun ns _ => get_of_assoc hassoc ns, .inl (get_of_assoc hassoc nsId), nofun⟩
    | some =>
      have hself := get_insertUniqueReserved_self hinsert
      refine ⟨fun ns hns => ?_, .inr ⟨hnone, hself⟩, fun _ => hself ▸ some_ne_none 0⟩
      exact (get_insertUniqueReserved_of_ne hinsert hns).trans (get_of_assoc hassoc ns)

/-- The gate leaves what the rows read; growth that it admits in a namespace has a row. -/
lemma tryChargeNsRecvGate_spec (counts : Counts) (nsId : NamespaceId) (tcb : TcpControlBlock)
    (growBy : ℕ) (env : AllocEnv) : let result := tryChargeNsRecvGate counts nsId tcb growBy env
    (∀ ns, ns ≠ nsId → result.2.get ns = counts.get ns) ∧
      (result.2.get nsId = counts.get nsId ∨ counts.get nsId = none ∧ result.2.get nsId = some 0) ∧
      (result.1 = .ok () → nsId ≠ 0 → growBy ≠ 0 → result.2.get nsId ≠ none) := by
  unfold tryChargeNsRecvGate
  split_ifs with hroot
  · exact ⟨fun _ _ => rfl, .inl rfl, fun _ hns hgrow => absurd hroot (not_or.mpr ⟨hns, hgrow⟩)⟩
  dsimp only
  cases checkedAdd ((counts.get nsId).getD 0 - tcb.nsChargedRecvBytes)
      (saturatingAdd tcb.nsChargedRecvBytes growBy) with
  | none => exact ⟨fun _ _ => rfl, .inl rfl, nofun⟩
  | some =>
    dsimp only
    split_ifs
    · obtain ⟨hother, hself, hok⟩ := prepareRow_spec counts nsId env
      exact ⟨hother, hself, fun h _ _ => hok h⟩
    · exact ⟨fun _ _ => rfl, .inl rfl, nofun⟩

lemma get_releaseRow_of_ne {nsId ns : NamespaceId} (h : ns ≠ nsId) (n : ℕ) :
    (releaseRow counts nsId n).get ns = counts.get ns := by
  unfold releaseRow
  cases counts.get nsId with
  | none => rfl
  | some =>
    dsimp only
    split_ifs
    · exact get_remove_of_ne h
    · exact get_modify_of_ne h

lemma getD_releaseRow (counts : Counts) (nsId : NamespaceId) (n : ℕ) :
    ((releaseRow counts nsId n).get nsId).getD 0 = (counts.get nsId).getD 0 - n := by
  unfold releaseRow
  cases hget : counts.get nsId with
  | none =>
    rw [getD_none, Nat.zero_sub]
    rw [hget, getD_none]
  | some =>
    dsimp only
    split_ifs with hzero
    · rw [get_remove_self, getD_none, getD_some, hzero]
    rw [get_modify_self, hget]
    rfl

/-- A release of what the row can pay removes the row only when it takes all of it. -/
lemma get_of_get_releaseRow_eq_none {nsId : NamespaceId} {n : ℕ}
    (h : (releaseRow counts nsId n).get nsId = none) (hpos : 0 < n)
    (hle : n ≤ (counts.get nsId).getD 0) : counts.get nsId = some n := by
  have hsub := getD_releaseRow counts nsId n
  rw [h, getD_none] at hsub
  cases hget : counts.get nsId with
  | none =>
    rw [hget, getD_none] at hle
    omega
  | some =>
    rw [hget, getD_some] at hsub hle
    congr 1
    omega

/-! ## The step lemma -/

section Step

variable {counts counts' : Counts} {c : Connection} {others : List Connection}

/-- A step of one connection that changes at most the row of its namespace. -/
lemma Inv.update (h : Inv counts (c :: others)) (o : Option Connection)
    (hother : ∀ ns, ns ≠ c.nsId → counts'.get ns = counts.get ns)
    (hrow : c.nsId ≠ 0 → (counts'.get c.nsId).getD 0 = chargedTo c.nsId (o.toList ++ others))
    (hnone : c.nsId ≠ 0 → counts'.get c.nsId = none → NonePending c.nsId (o.toList ++ others))
    (ho : ∀ c', o = some c' → c'.nsId = c.nsId ∧
      c'.tcb.footprint ≤ c'.granted.getD c'.tcb.nsChargedRecvBytes) :
    Inv counts' (o.toList ++ others) where
  sum ns hns := by
    by_cases heq : ns = c.nsId
    · subst heq
      exact hrow hns
    have hchargedTo : chargedTo ns (o.toList ++ others) = chargedTo ns (c :: others) := by
      rw [chargedTo_cons, if_neg (Ne.symm heq), zero_add]
      cases o with
      | none => rfl
      | some c' =>
        rw [toList_some, singleton_append, chargedTo_cons, (ho c' rfl).1,
          if_neg (Ne.symm heq), zero_add]
    rw [hother ns heq, hchargedTo]
    exact h.sum ns hns
  prepared c' hc' hns hpending := by
    by_cases heq : c'.nsId = c.nsId
    · intro hget
      rw [heq] at hns hget
      exact hnone hns hget c' hc' heq hpending
    rw [hother _ heq]
    rcases mem_append.mp hc' with hmem | hmem
    · exact absurd (ho c' (mem_toList.mp hmem)).1 heq
    · exact h.prepared c' (mem_cons_of_mem _ hmem) hns hpending
  bounded c' hc' := by
    rcases mem_append.mp hc' with hmem | hmem
    · exact (ho c' (mem_toList.mp hmem)).2
    · exact h.bounded c' (mem_cons_of_mem _ hmem)

/-- What the row of a connection's namespace reads. -/
lemma Inv.row (h : Inv counts (c :: others)) (hns : c.nsId ≠ 0) :
    (counts.get c.nsId).getD 0 = c.tcb.nsChargedRecvBytes + chargedTo c.nsId others := by
  rw [h.sum c.nsId hns, chargedTo_cons, if_pos rfl]

/-- What a connection with a changed control block adds to its namespace. -/
lemma chargedTo_some {nsId : NamespaceId} (c' : Connection) (hns : c'.nsId = nsId) :
    chargedTo nsId ((some c').toList ++ others) =
      c'.tcb.nsChargedRecvBytes + chargedTo nsId others := by
  rw [toList_some, singleton_append, chargedTo_cons, if_pos hns]

/-- If a connection has no row, its siblings do not wait for one. -/
lemma Inv.nonePending (h : Inv counts (c :: others)) (hns : c.nsId ≠ 0)
    (hget : counts.get c.nsId = none) : NonePending c.nsId others := by
  intro c' hc' heq hpending
  exact h.prepared c' (mem_cons_of_mem _ hc') (heq ▸ hns) hpending (heq ▸ hget)

/-- Nobody else waits, and the connection does not either. -/
lemma NonePending.cons {c' : Connection} (h : NonePending c.nsId others) (hc' : ¬ c'.Pending) :
    NonePending c.nsId ((some c').toList ++ others) := by
  intro x hx heq
  rcases mem_append.mp hx with hmem | hmem
  · rw [← some.inj (mem_toList.mp hmem)]
    exact hc'
  · exact h x hmem heq

section

variable (h : Inv counts (c :: others))
include h

lemma Inv.gate (hidle : c.granted = none) (growBy : ℕ) (env : AllocEnv) :
    ∃ counts' o, stepConn counts c (.gate growBy env) = .ok (counts', o) ∧
      Inv counts' (o.toList ++ others) := by
  have hspec := tryChargeNsRecvGate_spec counts c.nsId c.tcb growBy env
  rcases hgate : tryChargeNsRecvGate counts c.nsId c.tcb growBy env with ⟨res, counts'⟩
  rw [hgate] at hspec
  obtain ⟨hother, hself, hok⟩ := hspec
  have hbounded := h.bounded c mem_cons_self
  rw [hidle, getD_none] at hbounded
  have hreads : (counts'.get c.nsId).getD 0 = (counts.get c.nsId).getD 0 := by
    rcases hself with heq | ⟨hnone, hzero⟩
    · rw [heq]
    rw [hnone, hzero]
    rfl
  have hstays : counts'.get c.nsId = none → counts.get c.nsId = none := by
    intro hnone
    rcases hself with heq | ⟨hnone', -⟩
    · exact heq ▸ hnone
    · exact hnone'
  cases res with
  | error =>
    refine ⟨counts', some c, by simp only [stepConn, hgate], h.update (some c) hother ?_ ?_ ?_⟩
    · intro hns
      exact (hreads.trans (h.row hns)).trans (chargedTo_some _ rfl).symm
    · intro hns hnone
      refine (h.nonePending hns (hstays hnone)).cons ?_
      rw [Connection.Pending, hidle]
      exact Nat.not_lt_zero _
    · intro c' hc'
      rw [← some.inj hc', hidle]
      exact ⟨rfl, hbounded⟩
  | ok =>
    refine ⟨counts', some { c with granted := some (c.tcb.footprint + growBy) },
      by simp only [stepConn, hgate], h.update _ hother ?_ ?_ ?_⟩
    · intro hns
      exact (hreads.trans (h.row hns)).trans (chargedTo_some _ rfl).symm
    · intro hns hnone
      refine (h.nonePending hns (hstays hnone)).cons ?_
      -- Without a row the gate admitted no growth.
      have hgrow : growBy = 0 := by
        by_contra hgrow
        exact hok rfl hns hgrow hnone
      rw [Connection.Pending, getD_some, hgrow]
      exact not_lt.mpr hbounded
    · intro c' hc'
      rw [← some.inj hc']
      exact ⟨rfl, le_self_add⟩

lemma Inv.mutate {recvBufferLen oooBytes : ℕ}
    (hlimit : saturatingAdd recvBufferLen oooBytes ≤ c.limit) :
    Inv counts ((some { c with
      tcb := ⟨recvBufferLen, oooBytes, c.tcb.nsChargedRecvBytes⟩ }).toList ++ others) := by
  have hbounded := h.bounded c mem_cons_self
  refine h.update _ (fun _ _ => rfl) ?_ ?_ ?_
  · intro hns
    exact (h.row hns).trans (chargedTo_some _ rfl).symm
  · intro hns hnone
    refine (h.nonePending hns hnone).cons fun hpending => ?_
    exact h.prepared c mem_cons_self hns hpending hnone
  · intro c' hc'
    rw [← some.inj hc']
    refine ⟨rfl, hlimit.trans ?_⟩
    unfold Connection.limit
    cases hgranted : c.granted with
    | none =>
      rw [hgranted] at hbounded
      exact hbounded
    | some => exact le_rfl

/-- A connection whose footprint outgrew its charge passed a gate, so its row is there. -/
lemma Inv.get_of_grown (hns : c.nsId ≠ 0) (hgrown : c.tcb.nsChargedRecvBytes < c.tcb.footprint) :
    counts.get c.nsId ≠ none := by
  have hbounded := h.bounded c mem_cons_self
  refine h.prepared c mem_cons_self hns ?_
  unfold Connection.Pending
  cases hgranted : c.granted with
  | none =>
    rw [hgranted] at hbounded
    exact absurd hbounded (not_le.mpr hgrown)
  | some =>
    rw [hgranted] at hbounded
    exact hgrown.trans_le hbounded

end

/-- The row of the connection is exact for its footprint, the other rows are as they were. -/
structure Reconciled (counts counts' : Counts) (c : Connection) (others : List Connection) : Prop where
  other : ∀ ns, ns ≠ c.nsId → counts'.get ns = counts.get ns
  row : (counts'.get c.nsId).getD 0 = c.tcb.footprint + chargedTo c.nsId others
  none : counts'.get c.nsId = none → NonePending c.nsId others

variable (h : Inv counts (c :: others))
include h

/-- The `expect` in `reconcile_ns_recv` does not fire, the root namespace has no row, and a
reconciliation that meets the condition makes the row exact for the new charge. -/
lemma Inv.reconcile_spec :
    ∃ counts' tcb, reconcileNsRecv counts c.nsId c.tcb = .ok (counts', tcb) ∧
      tcb.footprint = c.tcb.footprint ∧ tcb.nsChargedRecvBytes = c.tcb.footprint ∧
      (c.nsId = 0 → counts' = counts) ∧ (c.nsId ≠ 0 → ConnOp.Guarded counts c others .reconcile →
        Reconciled counts counts' c others) := by
  unfold reconcileNsRecv
  dsimp only
  by_cases hroot : c.nsId = 0
  · rw [if_pos hroot]
    exact ⟨_, _, rfl, rfl, rfl, fun _ => rfl, fun hns => absurd hroot hns⟩
  have hrow := h.row hroot
  rw [if_neg hroot]
  split_ifs with heq hzero hgrown
  · -- The connection is empty: the row is removed.
    refine ⟨_, _, rfl, rfl, heq.symm, fun h0 => absurd h0 hroot, fun hns hguard => ?_⟩
    have hreads : (counts.get c.nsId).getD 0 = 0 ∧ NonePending c.nsId others := by
      rcases (hguard hns).1 hzero (heq ▸ hzero) with hnone | ⟨hsome, hpending⟩
      · exact ⟨by rw [hnone]; rfl, h.nonePending hns hnone⟩
      · exact ⟨by rw [hsome]; rfl, hpending⟩
    refine ⟨fun ns hne => get_remove_of_ne hne, ?_, fun _ => hreads.2⟩
    rw [get_remove_self, getD_none, heq, ← hrow, hreads.1]
  · exact ⟨_, _, rfl, rfl, heq.symm, fun h0 => absurd h0 hroot, fun hns _ =>
      ⟨fun _ _ => rfl, heq ▸ hrow, h.nonePending hns⟩⟩
  · -- The connection grew: the difference is added to its row.
    cases hget : counts.get c.nsId with
    | none => exact absurd hget (h.get_of_grown hroot hgrown)
    | some =>
      refine ⟨_, _, rfl, rfl, rfl, fun h0 => absurd h0 hroot, fun hns hguard => ?_⟩
      have hsum := (hguard hns).2.2 hgrown
      rw [hget, getD_some] at hrow hsum
      refine ⟨fun ns hne => get_modify_of_ne hne, ?_, fun hnone => ?_⟩
      · rw [get_modify_self, hget, map_some, getD_some,
          saturatingAdd_eq_of_le hsum, hrow]
        omega
      rw [get_modify_self, hget] at hnone
      exact absurd hnone (some_ne_none _)
  · -- The connection shrank: the difference is taken out of its row.
    refine ⟨_, _, rfl, rfl, rfl, fun h0 => absurd h0 hroot, fun hns hguard => ?_⟩
    have hlt : c.tcb.footprint < c.tcb.nsChargedRecvBytes :=
      lt_of_le_of_ne (Nat.le_of_not_lt hgrown) heq
    refine ⟨fun ns hne => get_releaseRow_of_ne hne _, ?_, fun hnone => ?_⟩
    · rw [getD_releaseRow, hrow]
      omega
    exact (hguard hns).2.1 hlt
      (get_of_get_releaseRow_eq_none hnone (Nat.sub_pos_of_lt hlt) (by omega))

lemma Inv.reconcile (hguard : ConnOp.Guarded counts c others .reconcile) :
    ∃ counts' o, stepConn counts c .reconcile = .ok (counts', o) ∧
      Inv counts' (o.toList ++ others) := by
  obtain ⟨counts', tcb, hok, hfootprint, hcharged, hroot, htenant⟩ := h.reconcile_spec
  refine ⟨counts', some { c with tcb := tcb, granted := none }, ?_, ?_⟩
  · unfold stepConn
    rw [hok]
    rfl
  have hself : ∀ c', some { c with tcb := tcb, granted := none } = some c' → c'.nsId = c.nsId ∧
      c'.tcb.footprint ≤ c'.granted.getD c'.tcb.nsChargedRecvBytes := by
    rintro c' ⟨⟩
    exact ⟨rfl, (hfootprint.trans hcharged.symm).le⟩
  by_cases hns : c.nsId = 0
  · rw [hroot hns]
    exact h.update _ (fun _ _ => rfl) (fun hne => absurd hns hne) (fun hne => absurd hns hne) hself
  · have hrow := htenant hns hguard
    refine h.update _ hrow.other (fun _ => ?_) (fun _ hget => ?_) hself
    · rw [hrow.row, ← hcharged]
      exact (chargedTo_some ⟨c.nsId, tcb, none⟩ rfl).symm
    · exact (hrow.none hget).cons (Nat.not_lt_zero _)

lemma Inv.teardown (hguard : ConnOp.Guarded counts c others .teardown) :
    Inv (unchargeNsRecvResidual counts c.nsId c.tcb.nsChargedRecvBytes) others := by
  unfold unchargeNsRecvResidual
  split_ifs with htrivial
  · refine h.update none (fun _ _ => rfl) (fun hns => ?_) (fun hns hget => ?_) nofun
    · rw [h.row hns, htrivial.resolve_right hns, zero_add]
      rfl
    · exact h.nonePending hns hget
  obtain ⟨hcharged, hns⟩ := not_or.mp htrivial
  have hrow := h.row hns
  refine h.update none (fun ns hne => get_releaseRow_of_ne hne _) (fun _ => ?_)
    (fun _ hget => ?_) nofun
  · rw [getD_releaseRow, hrow, Nat.add_sub_cancel_left]
    rfl
  have hpos := pos_of_ne_zero hcharged
  exact hguard hns hpos (get_of_get_releaseRow_eq_none hget hpos (by omega))

/-- The step lemma: a step of a connection that meets the condition does not fault and keeps the
rows exact. -/
lemma Inv.stepConn {op : ConnOp} (hallowed : op.Allowed c) (hguard : op.Guarded counts c others) :
    ∃ counts' o, Recv.stepConn counts c op = .ok (counts', o) ∧
      Inv counts' (o.toList ++ others) := by
  cases op with
  | gate growBy env => exact h.gate hallowed growBy env
  | mutate => exact ⟨_, _, rfl, h.mutate hallowed⟩
  | reconcile => exact h.reconcile hguard
  | teardown => exact ⟨_, none, rfl, h.teardown hguard⟩

end Step

/-! ## Runs -/

namespace World

/-- A step of the system that meets a condition. -/
def Step (P : World → Action → Prop) (w w' : World) : Prop := ∃ a, P w a ∧ w.exec a = .ok w'

/-- No connections and no rows. -/
def initial : World := ⟨.new, []⟩

/-- The worlds of all runs. -/
def Reachable (w : World) : Prop := ReflTransGen (Step Allowed) initial w

/-- The worlds of the runs all of whose steps meet the condition. -/
def GuardedReachable (w : World) : Prop :=
  ReflTransGen (Step fun w a => w.Allowed a ∧ w.Guarded a) initial w

variable {w : World}

lemma inv_connect (h : Inv w.counts w.conns) (nsId : NamespaceId) :
    Inv w.counts (⟨nsId, ⟨0, 0, 0⟩, none⟩ :: w.conns) where
  sum ns hns := by
    rw [chargedTo_cons, ite_self, zero_add]
    exact h.sum ns hns
  prepared := forall_mem_cons.mpr
    ⟨fun _ hpending => absurd hpending (Nat.not_lt_zero _), h.prepared⟩
  bounded := forall_mem_cons.mpr ⟨Nat.zero_le _, h.bounded⟩

/-- A step of the system that meets the condition does not fault and keeps the rows exact. -/
lemma inv_exec (h : Inv w.counts w.conns) {a : Action} (hallowed : w.Allowed a)
    (hguard : w.Guarded a) : ∃ w', w.exec a = .ok w' ∧ Inv w'.counts w'.conns := by
  cases a with
  | connect nsId => exact ⟨_, rfl, inv_connect h nsId⟩
  | conn i op =>
    cases hc : w.conns[i]? with
    | none => exact ⟨w, exec_conn_none hc op, h⟩
    | some c =>
      obtain ⟨counts', o, hstep, hinv⟩ :=
        (h.perm (perm_siblings hc)).stepConn (hallowed c hc) (hguard c hc)
      refine ⟨⟨counts', replaceAt w.conns i o⟩, ?_, hinv.perm (perm_replaceAt _ _ _).symm⟩
      rw [exec_conn_some hc, hstep]
      rfl

lemma inv_of_guardedReachable (h : GuardedReachable w) : Inv w.counts w.conns := by
  induction h with
  | refl => exact ⟨fun _ _ => rfl, nofun, nofun⟩
  | tail _ hstep ih =>
    obtain ⟨a, ⟨hallowed, hguard⟩, hexec⟩ := hstep
    obtain ⟨w', hw', hinv⟩ := inv_exec ih hallowed hguard
    rw [hw'] at hexec
    exact Except.ok.inj hexec ▸ hinv

/-- Run a list of steps as long as they meet a condition. -/
def run (P : World → Action → Prop) [∀ w a, Decidable (P w a)] (w : World) :
    List Action → Option World
  | [] => some w
  | a :: as =>
    if P w a then
      match w.exec a with
      | .ok w' => run P w' as
      | .error _ => none
    else none

lemma reachable_of_run {P : World → Action → Prop} [∀ w a, Decidable (P w a)] {w0 w w' : World}
    (as : List Action) (hw : ReflTransGen (Step P) w0 w) (h : run P w as = some w') :
    ReflTransGen (Step P) w0 w' := by
  induction as generalizing w with
  | nil => exact some.inj h ▸ hw
  | cons a as ih =>
    unfold run at h
    split_ifs at h with hp
    cases hexec : w.exec a with
    | error =>
      rw [hexec] at h
      cases h
    | ok =>
      rw [hexec] at h
      exact ih (hw.tail ⟨a, hp, hexec⟩) h

/-- In every run whose steps meet the condition, the row of a namespace is the sum of the charges of
its connections, and the `expect` of a reconciliation does not fire. -/
theorem recv_rows_exact_of_guarded {w : World} (h : GuardedReachable w) :
    (∀ nsId, nsId ≠ 0 → (w.counts.get nsId).getD 0 = chargedTo nsId w.conns) ∧
      ∀ i, ∃ w', w.exec (.conn i .reconcile) = .ok w' := by
  have hinv := inv_of_guardedReachable h
  refine ⟨hinv.sum, fun i => ?_⟩
  cases hc : w.conns[i]? with
  | none => exact ⟨w, exec_conn_none hc _⟩
  | some =>
    obtain ⟨counts', tcb, hok, -⟩ := (hinv.perm (perm_siblings hc)).reconcile_spec
    rw [exec_conn_some hc, stepConn, hok]
    exact ⟨_, rfl⟩

/-- An allocator that always succeeds. -/
def plenty : AllocEnv := ⟨fun target => some ⟨target, le_rfl⟩, true⟩

/-- Two connections of one namespace, the first of which buffers 100 bytes. -/
def bufferedActions : List Action :=
  [.connect 1, .connect 1, .conn 1 (.gate 100 plenty), .conn 1 (.mutate 100 0),
    .conn 1 .reconcile]

/-- What `bufferedActions` lead to. -/
def bufferedWorld : World :=
  (run (fun w a => w.Allowed a ∧ w.Guarded a) initial bufferedActions).getD initial

theorem recv_rows_exact_of_guarded_buffered :
    GuardedReachable bufferedWorld ∧ chargedTo 1 bufferedWorld.conns = 100 ∧
      (bufferedWorld.counts.get 1).getD 0 = chargedTo 1 bufferedWorld.conns := by
  have hreach : GuardedReachable bufferedWorld :=
    reachable_of_run bufferedActions ReflTransGen.refl rfl
  exact ⟨hreach, rfl, (recv_rows_exact_of_guarded hreach).1 1 (by decide)⟩

/-- The second connection, which is empty, is reconciled. -/
def resetWorld : World :=
  (run Allowed initial (bufferedActions ++ [.conn 0 .reconcile])).getD initial

/-- The second connection is reconciled between the gate and the reconciliation of the first. -/
def lostRowWorld : World :=
  (run Allowed initial
    [.connect 1, .connect 1, .conn 1 (.gate 100 plenty), .conn 0 .reconcile,
      .conn 1 (.mutate 100 0)]).getD initial

/-- The reconciliation of an empty connection resets the row of its siblings, and removes the row
that a sibling's gate has prepared. -/
theorem recv_rows_not_exact :
    (Reachable resetWorld ∧ (resetWorld.counts.get 1).getD 0 = 0 ∧
        chargedTo 1 resetWorld.conns = 100) ∧
      Reachable lostRowWorld ∧
      lostRowWorld.exec (.conn 1 .reconcile) = .error .slotNotPrepared :=
  ⟨⟨reachable_of_run (bufferedActions ++ [.conn 0 .reconcile]) ReflTransGen.refl rfl, rfl, rfl⟩,
    reachable_of_run [.connect 1, .connect 1, .conn 1 (.gate 100 plenty), .conn 0 .reconcile,
      .conn 1 (.mutate 100 0)] ReflTransGen.refl rfl, rfl⟩

end World

end Nilix.Net.Recv
