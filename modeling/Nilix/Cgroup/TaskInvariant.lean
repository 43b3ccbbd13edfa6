import Nilix.Cgroup.TaskChains

/-!
# The invariant of the task counters

The counter of a node is the number of tasks in its subtree plus what the callers in the middle of an
operation are ahead; the chains that a caller has charged or has yet to release are in its place in the
code.  The rest of the invariant says who may rely on what: a caller in the middle of an attach owns the
task set of a registered node, a migration owns the freeze of both of its ends, and a deletion that
has looked at the task set has sealed the node against both.
-/

namespace Nilix.Cg

open Function

/-! ## What a phase says -/

namespace TaskPhase

/-- How far a caller is ahead on a counter: what it has charged for a task that is not there yet, or has
yet to release for one that is gone. -/
def surplus : TaskPhase → Cgroup → ℕ
  | .attachCharge _ _ charged _, n => charged.count n
  | .settle _ todo _, n => todo.count n
  | .reserveLimit _ _ charged _, n => charged.count n
  | .reserve _ _ charged _ _ _, n => charged.count n
  | .settleMove _ todo _, n => todo.count n
  | _, _ => 0

/-- The node whose task set a caller holds in order to insert a task. -/
def attaching : TaskPhase → Option Cgroup
  | .attachLimits node _ _ _ => some node
  | .attachCharge node _ _ _ => some node
  | _ => none

/-- No call is in progress. -/
def idle : TaskPhase → Bool
  | .returned _ => true
  | _ => false

end TaskPhase

/-- A node is one of the two ends of a migration. -/
def Migration.IsEnd (m : Migration) (n : Cgroup) : Prop := n = m.source ∨ n = m.target

variable {m : Migration}

lemma Migration.isEnd_iff {n : Cgroup} : m.IsEnd n ↔ n = m.first ∨ n = m.second := by
  unfold Migration.IsEnd Migration.first Migration.second
  split_ifs
  · rfl
  · exact or_comm

/-- A migration between two different nodes of the hierarchy. -/
structure Migration.Valid (m : Migration) (T : CgroupTree) : Prop where
  source : m.source ∈ T.nodes
  target : m.target ∈ T.nodes
  ne : m.source ≠ m.target

lemma Migration.Valid.second_ne_first {T : CgroupTree} (h : m.Valid T) : m.second ≠ m.first := by
  unfold Migration.first Migration.second
  split_ifs
  · exact h.ne.symm
  · exact h.ne

/-- A migration that has the first of its ends and takes the second has both. -/
lemma Migration.Valid.update_second {T : CgroupTree} (h : m.Valid T) {ι : Type*}
    {f : Cgroup → Option ι} {t : ι} (hfirst : f m.first = some t) (n : Cgroup) (hn : m.IsEnd n) :
    update f m.second (some t) n = some t := by
  rcases Migration.isEnd_iff.mp hn with rfl | rfl
  · rw [update_of_ne h.second_ne_first.symm]
    exact hfirst
  · rw [update_self]

namespace TaskWorld

variable {ι : Type*}

/-! ## What a caller relies on -/

/-- The registry finds a node. -/
def Registered (w : TaskWorld ι) (n : Cgroup) : Prop := w.registry n.id = some n

/-- A node that no task can get onto any more. -/
structure Sealed (w : TaskWorld ι) (n : Cgroup) : Prop where
  deleted : w.deleted n = true
  empty : w.processes n = ∅
  thawed : w.membershipFrozen n = none
  unclaimed : ∀ t, (w.threads t).attaching ≠ some n

/-- An attach holds the task set of its node. -/
structure Attaching (T : CgroupTree) (w : TaskWorld ι) (t : ι) (node : Cgroup) (task : TaskId) :
    Prop where
  mem : node ∈ T.nodes
  registered : w.Registered node
  lock : w.processesLock node = some t
  absent : task ∉ w.processes node

/-- A migration holds the registry for reading. -/
structure Reading (T : CgroupTree) (w : TaskWorld ι) (t : ι) (m : Migration) : Prop where
  valid : m.Valid T
  reader : t ∈ w.readers
  registered : ∀ n, m.IsEnd n → w.Registered n

/-- A migration has frozen both of its ends. -/
structure Frozen (T : CgroupTree) (w : TaskWorld ι) (t : ι) (m : Migration) : Prop where
  valid : m.Valid T
  frozen : ∀ n, m.IsEnd n → w.membershipFrozen n = some t
  registered : ∀ n, m.IsEnd n → w.Registered n

/-- A migration holds both task sets, and the task can be moved. -/
structure Moving (T : CgroupTree) (w : TaskWorld ι) (t : ι) (m : Migration) (x : ExclusiveChains) :
    Prop extends Frozen T w t m where
  exclusive : m.exclusive = .ok x
  lock : ∀ n, m.IsEnd n → w.processesLock n = some t
  present : m.task ∈ w.processes m.source
  absent : m.task ∉ w.processes m.target

/-- A deletion holds the registry for writing. -/
structure Deleting (w : TaskWorld ι) (t : ι) (node : Cgroup) : Prop where
  writer : w.writer = some t
  registered : w.Registered node

/-- What holds of a caller at each place. -/
def ThreadOk (T : CgroupTree) (w : TaskWorld ι) (t : ι) : TaskPhase → Prop
  | .returned _ | .migrateLookup _ _ _ | .deleteLock _ => True
  | .attachTop node _ | .attachLock node _ => node ∈ T.nodes
  | .attachLimits node task taken todo =>
    w.Attaching T t node task ∧ taken.map Prod.fst ++ todo = node.ancestry
  | .attachCharge node task charged todo =>
    w.Attaching T t node task ∧ charged ++ todo.map Prod.fst = node.ancestry
  | .detachLock node _ chain => node ∈ T.nodes ∧ chain = node.ancestry
  | .settle node _ _ => w.processesLock node = some t
  | .migrateValidate m => m.Valid T
  | .freezeFirst m => w.Reading T t m
  | .freezeSecond m => w.Reading T t m ∧ w.membershipFrozen m.first = some t
  | .freezeUndo m => w.Reading T t m ∧ w.membershipFrozen m.first = some t
  | .lockFirst m x => w.Frozen T t m ∧ m.exclusive = .ok x
  | .lockSecond m x => w.Frozen T t m ∧ m.exclusive = .ok x ∧ w.processesLock m.first = some t
  | .reserveLimit m x charged todo => w.Moving T t m x ∧ charged ++ todo = x.target
  | .reserve m x charged n _ todo => w.Moving T t m x ∧ charged ++ n :: todo = x.target
  | .settleMove m todo _ =>
    w.Frozen T t m ∧ (∀ n, m.IsEnd n → w.processesLock n = some t) ∧
      ∀ n ∈ todo, ¬ (n ∈ m.source.ancestry ∧ n ∈ m.target.ancestry)
  | .thawSecond m _ => w.Frozen T t m
  | .thawFirst m _ => m.Valid T ∧ w.membershipFrozen m.first = some t
  | .deleteFrozen node | .deleteUnmark node _ => w.Deleting t node
  | .deleteMark node => w.Deleting t node ∧ w.membershipFrozen node = none
  | .deleteChildren node | .deleteProcesses node =>
    w.Deleting t node ∧ w.membershipFrozen node = none ∧ w.deleted node = true
  | .deletePinned node | .deleteUnlink node => w.Deleting t node ∧ w.Sealed node

/-- What holds of the registry, the flags and the task sets. -/
structure Shape (T : CgroupTree) (w : TaskWorld ι) : Prop where
  registry : ∀ id n, w.registry id = some n → n ∈ T.nodes ∧ n.id = id
  /-- A task is attached to a registered node only. -/
  attached : ∀ n, w.processes n ≠ ∅ → w.Registered n
  /-- A node of the hierarchy that is not registered any more has its flag set. -/
  removed : ∀ n ∈ T.nodes, ¬ w.Registered n → w.deleted n = true
  exclusive : w.writer ≠ none → w.readers = ∅

/-- What holds in every reached world. -/
structure Inv [Fintype ι] (T : CgroupTree) (p : Population T) (w : TaskWorld ι) : Prop where
  shape : w.Shape T
  threads : ∀ t, w.ThreadOk T t (w.threads t)
  balanced : Balanced TaskPhase.surplus w.threads w.pidsCurrent (subtreeTasks T w.processes)
  placed : ∀ task, placements T w.processes task + w.detached task =
    placements T p.processes task + w.attached task

lemma Inv.start [Fintype ι] (T : CgroupTree) (p : Population T) :
    (start T p : TaskWorld ι).Inv T p where
  shape :=
    { registry := fun id n h => (T.registry_eq_some_iff id n).mp h
      attached := fun n h => (T.registry_eq_some_iff n.id n).mpr ⟨p.mem_nodes n h, rfl⟩
      removed := fun n hn h => absurd ((T.registry_eq_some_iff n.id n).mpr ⟨hn, rfl⟩) h
      exclusive := fun h => absurd rfl h }
  threads _ := trivial
  balanced := .of_idle (fun _ => rfl) fun _ _ => rfl
  placed _ := rfl

/-! ## What a step may touch -/

/-- What a step of the caller `t` to a phase may change. -/
structure Touches [DecidableEq ι] (w w' : TaskWorld ι) (t : ι) (phase : TaskPhase) : Prop where
  moved : w'.threads = update w.threads t phase
  /-- The locks and the freezes of the others stay, and so do the task sets that they hold. -/
  lock : ∀ n u, u ≠ t → w.processesLock n = some u → w'.processesLock n = some u
  processes : ∀ n u, u ≠ t → w.processesLock n = some u → w'.processes n = w.processes n
  frozen : ∀ n u, u ≠ t → w.membershipFrozen n = some u → w'.membershipFrozen n = some u
  readers : ∀ u, u ≠ t → u ∈ w.readers → u ∈ w'.readers
  writer : ∀ u, u ≠ t → w.writer = some u → w'.writer = some u
  /-- Nothing is frozen under a writer. -/
  thawed : w.writer ≠ none → ∀ n, w.membershipFrozen n = none → w'.membershipFrozen n = none
  /-- Only the writer marks a node, and it removes a sealed node only. -/
  deleted : ∀ u, u ≠ t → w.writer = some u → w'.deleted = w.deleted
  registered : ∀ n, w.Registered n → w'.Registered n ∨ w.writer = some t ∧ w.Sealed n
  /-- No task gets onto a sealed node, and no attach begins there. -/
  stillEmpty : ∀ n, w.Sealed n → w'.processes n = ∅
  unclaimed : ∀ n, w.Sealed n → phase.attaching ≠ some n

section Touches

variable [DecidableEq ι] {T : CgroupTree} {w w' : TaskWorld ι} {t u : ι} {phase : TaskPhase}

/-- A caller that returns touches nothing; the other steps differ from this in a few places. -/
lemma Touches.idle (w : TaskWorld ι) (t : ι) :
    Touches w (w.goto t (.returned (.ok ()))) t (.returned (.ok ())) where
  moved := rfl
  lock _ _ _ h := h
  processes _ _ _ _ := rfl
  frozen _ _ _ h := h
  readers _ _ h := h
  writer _ _ h := h
  thawed _ _ h := h
  deleted _ _ _ := rfl
  registered _ h := .inl h
  stillEmpty _ h := h.empty
  unclaimed _ _ h := nomatch h

lemma Touches.others (h : Touches w w' t phase) (hu : u ≠ t) : w'.threads u = w.threads u := by
  rw [h.moved, update_of_ne hu]

variable {node : Cgroup}

lemma Touches.attaching (h : Touches w w' t phase) (hu : u ≠ t) {task : TaskId}
    (hclaim : (w.threads u).attaching = some node) (hok : w.Attaching T u node task) :
    w'.Attaching T u node task where
  mem := hok.mem
  registered := (h.registered node hok.registered).resolve_right fun hsealed =>
    hsealed.2.unclaimed u hclaim
  lock := h.lock node u hu hok.lock
  absent := by
    rw [h.processes node u hu hok.lock]
    exact hok.absent

variable {m : Migration}

section

variable (h : Touches w w' t phase)
include h

lemma Touches.reading (hshape : w.Shape T) (hu : u ≠ t)
    (hok : w.Reading T u m) : w'.Reading T u m where
  valid := hok.valid
  reader := h.readers u hu hok.reader
  registered n hn := (h.registered n (hok.registered n hn)).resolve_right fun hsealed => by
    have hempty := hshape.exclusive (by rw [hsealed.1]; exact Option.some_ne_none t)
    have hreader := hok.reader
    rw [hempty] at hreader
    exact absurd hreader (Finset.notMem_empty u)

lemma Touches.frozenKept (hu : u ≠ t) (hok : w.Frozen T u m) : w'.Frozen T u m where
  valid := hok.valid
  frozen n hn := h.frozen n u hu (hok.frozen n hn)
  registered n hn := (h.registered n (hok.registered n hn)).resolve_right fun hsealed => by
    cases hsealed.2.thawed.symm.trans (hok.frozen n hn)

lemma Touches.moving (hu : u ≠ t) {x : ExclusiveChains}
    (hok : w.Moving T u m x) : w'.Moving T u m x where
  toFrozen := h.frozenKept hu hok.toFrozen
  exclusive := hok.exclusive
  lock n hn := h.lock n u hu (hok.lock n hn)
  present := by
    rw [h.processes _ u hu (hok.lock _ (.inl rfl))]
    exact hok.present
  absent := by
    rw [h.processes _ u hu (hok.lock _ (.inr rfl))]
    exact hok.absent

lemma Touches.deleting (hu : u ≠ t) (hok : w.Deleting u node) : w'.Deleting u node where
  writer := h.writer u hu hok.writer
  registered := (h.registered node hok.registered).resolve_right fun hsealed => by
    cases hok.writer.symm.trans hsealed.1
    exact hu rfl

/-- Under a writer, the nodes that are not frozen stay so. -/
lemma Touches.thawedKept (hok : w.Deleting u node)
    (hthawed : w.membershipFrozen node = none) : w'.membershipFrozen node = none := by
  refine h.thawed ?_ node hthawed
  rw [hok.writer]
  exact Option.some_ne_none u

lemma Touches.sealedKept (hu : u ≠ t) (hok : w.Deleting u node)
    (hsealed : w.Sealed node) : w'.Sealed node where
  deleted := by
    rw [h.deleted u hu hok.writer]
    exact hsealed.deleted
  empty := h.stillEmpty node hsealed
  thawed := h.thawedKept hok hsealed.thawed
  unclaimed v := by
    rcases eq_or_ne v t with rfl | hv
    · rw [h.moved, update_self]
      exact h.unclaimed node hsealed
    rw [h.others hv]
    exact hsealed.unclaimed v

/-- A caller that does not move keeps what holds of it. -/
lemma Touches.threadOk (hshape : w.Shape T) (hu : u ≠ t)
    (hok : w.ThreadOk T u (w.threads u)) : w'.ThreadOk T u (w'.threads u) := by
  rw [h.others hu]
  cases hphase : w.threads u <;> rw [hphase] at hok
  case returned | migrateLookup | deleteLock => trivial
  case attachTop | attachLock | detachLock | migrateValidate => exact hok
  case attachLimits | attachCharge => exact ⟨h.attaching hu (by rw [hphase]; rfl) hok.1, hok.2⟩
  case settle node todo result => exact h.lock node u hu hok
  case freezeFirst => exact h.reading hshape hu hok
  case freezeSecond | freezeUndo => exact ⟨h.reading hshape hu hok.1, h.frozen _ u hu hok.2⟩
  case lockFirst => exact ⟨h.frozenKept hu hok.1, hok.2⟩
  case lockSecond => exact ⟨h.frozenKept hu hok.1, hok.2.1, h.lock _ u hu hok.2.2⟩
  case reserveLimit | reserve => exact ⟨h.moving hu hok.1, hok.2⟩
  case settleMove =>
    exact ⟨h.frozenKept hu hok.1, fun n hn => h.lock n u hu (hok.2.1 n hn), hok.2.2⟩
  case thawSecond => exact h.frozenKept hu hok
  case thawFirst => exact ⟨hok.1, h.frozen _ u hu hok.2⟩
  case deleteFrozen | deleteUnmark => exact h.deleting hu hok
  case deleteMark => exact ⟨h.deleting hu hok.1, h.thawedKept hok.1 hok.2⟩
  case deleteChildren | deleteProcesses =>
    refine ⟨h.deleting hu hok.1, h.thawedKept hok.1 hok.2.1, ?_⟩
    rw [h.deleted u hu hok.1.writer]
    exact hok.2.2
  case deletePinned | deleteUnlink => exact ⟨h.deleting hu hok.1, h.sealedKept hu hok.1 hok.2⟩

end

end Touches

/-- Changing an entry that is free or one's own leaves the entries of the others. -/
lemma update_others {ι : Type*} {f : Cgroup → Option ι} {t : ι} {n : Cgroup} {o : Option ι}
    (hfree : ∀ u, f n = some u → u = t) (k : Cgroup) (u : ι) (hu : u ≠ t) (hk : f k = some u) :
    update f n o k = some u := by
  rcases eq_or_ne k n with rfl | hne
  · exact absurd (hfree u hk) hu
  rw [update_of_ne hne]
  exact hk

/-! ## One step -/

section Step

variable [Fintype ι] [DecidableEq ι] {T : CgroupTree} {p : Population T} {w v : TaskWorld ι} {t : ι}
  {old phase : TaskPhase}

omit [DecidableEq ι] in
/-- What the invariant says of a caller that is at a phase. -/
lemma Inv.at_phase (h : w.Inv T p) (hphase : w.threads t = phase) : w.ThreadOk T t phase :=
  hphase ▸ h.threads t

omit [DecidableEq ι] in
/-- A counter that a caller has yet to lower is not zero. -/
lemma Inv.pidsCurrent_pos (h : w.Inv T p) (hphase : w.threads t = phase) {n : Cgroup}
    (hn : 0 < phase.surplus n) : 0 < w.pidsCurrent n := by
  have hle := h.balanced.surplus_le t n
  rw [hphase] at hle
  exact hn.trans_le hle

/-- A step keeps the invariant if it touches what it may, and balances its counters. -/
lemma Inv.advance (h : w.Inv T p) (hphase : w.threads t = old)
    (htouch : Touches w (v.goto t phase) t phase) (hself : (v.goto t phase).ThreadOk T t phase)
    (hshape : (v.goto t phase).Shape T)
    (hcount : ∀ k, v.pidsCurrent k + subtreeTasks T w.processes k + old.surplus k =
      w.pidsCurrent k + subtreeTasks T v.processes k + phase.surplus k)
    (hplaced : ∀ task, placements T v.processes task + v.detached task =
      placements T p.processes task + v.attached task) : (v.goto t phase).Inv T p where
  shape := hshape
  threads u := by
    rcases eq_or_ne u t with rfl | hu
    · rw [htouch.moved, update_self]
      exact hself
    · exact htouch.threadOk h.shape hu (h.threads u)
  balanced := by
    subst hphase
    rw [htouch.moved]
    exact h.balanced.step hcount
  placed := hplaced

/-- A step that changes neither counters nor task sets. -/
lemma Inv.quiet (h : w.Inv T p) (hphase : w.threads t = old)
    (htouch : Touches w (v.goto t phase) t phase) (hself : (v.goto t phase).ThreadOk T t phase)
    (hshape : (v.goto t phase).Shape T) (hsurplus : phase.surplus = old.surplus)
    (hsame : (v.pidsCurrent, v.processes, v.attached, v.detached) =
      (w.pidsCurrent, w.processes, w.attached, w.detached)) : (v.goto t phase).Inv T p := by
  simp only [Prod.mk.injEq] at hsame
  obtain ⟨hcurrent, hproc, hatt, hdet⟩ := hsame
  refine h.advance hphase htouch hself hshape (fun k => ?_) fun task => ?_
  · rw [hcurrent, hproc, hsurplus]
  rw [hproc, hatt, hdet]
  exact h.placed task

/-- A step that changes nothing but the place of the caller. -/
lemma Inv.goto (h : w.Inv T p) (hphase : w.threads t = old)
    (hself : (w.goto t phase).ThreadOk T t phase) (hsurplus : phase.surplus = old.surplus)
    (hclaim : ∀ n, phase.attaching = some n → old.attaching = some n) :
    (w.goto t phase).Inv T p := by
  have hunclaimed : ∀ n, w.Sealed n → phase.attaching ≠ some n := by
    intro n hsealed hn
    refine hsealed.unclaimed t ?_
    rw [hphase]
    exact hclaim n hn
  exact h.quiet hphase { Touches.idle w t with moved := rfl, unclaimed := hunclaimed } hself
    { h.shape with } hsurplus rfl

end Step

end TaskWorld

end Nilix.Cg
