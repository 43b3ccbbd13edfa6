import Nilix.Ns.ProcessPublication

/-!
# No survivor of a namespace init

`mark_shutting_down` takes the `children` lock of the namespace, and so does every publication below
it.  So at the latch no publication is between its look at the flag and its insertion, and no later
one gets past the flag: the PCBs of a latched namespace only become fewer.  The enumeration that
follows finds the mapping of each that is alive, and every one that is found gets its exit request or
is gone.  A kill checks the chain of the PCB it has resolved, so a PID that was given to another process
does no harm.
-/

namespace Nilix.Ns

open PidNsState Function Nilix.Net PidCell PidCells List Option

/-! ## The latch of a namespace -/

namespace PidNsState

variable {s : PidNsState}

lemma shuttingDown_assign (h : s.Inv) {leaf : PidNamespace} {globalPid : ℕ} {env : AssignEnv}
    (hfree : s.assigned globalPid = none) (n : PidNamespace) :
    (((s.assign leaf globalPid env).1).cells n).shuttingDown = (s.cells n).shuttingDown := by
  rcases h.assign_cases leaf env hfree with ⟨e, heq⟩ | ⟨cells, chain, heq, henters⟩ <;> rw [heq]
  rcases henters.mem_or n with ⟨m, hm, rfl⟩ | hn
  · exact (henters.entered m hm).shuttingDown
  · exact congrArg shuttingDown (henters.others n hn)

lemma shuttingDown_detachPidChain (s : PidCells) (chain : List PidNamespaceMembership)
    (globalPid : ℕ) (n : PidNamespace) :
    (s.detachPidChain chain globalPid n).shuttingDown = (s n).shuttingDown := by
  refine read_updateEach shuttingDown (fun _ c => ?_) chain s n
  unfold takeEmptyMappingCapacity removePidReserved clearInit
  split_ifs <;> split <;> rfl

lemma shuttingDown_exec (h : s.Inv) (event : PidNsEvent) {n : PidNamespace}
    (hdown : (s.cells n).shuttingDown = true) : ((s.exec event).cells n).shuttingDown = true := by
  cases event with
  | newChild parent env =>
    dsimp only [exec]
    split_ifs
    · rw [(h.cells_newChild parent env).1]
      exact hdown
    · exact hdown
  | assignPidChain =>
    dsimp only [exec]
    split_ifs with hcall
    · rw [shuttingDown_assign h hcall.2]
      exact hdown
    · exact hdown
  | detachPidChain =>
    dsimp only [exec]
    split
    · exact hdown
    rw [shuttingDown_detachPidChain]
    exact hdown
  | markShuttingDown ns =>
    dsimp only [exec]
    split_ifs
    · dsimp only
      rcases eq_or_ne n ns with rfl | hne
      · rw [update_self]
      rw [update_of_ne hne]
      exact hdown
    · exact hdown

variable {pid : ℕ}

/-- Marking a namespace in which a process is mapped sets its flag. -/
lemma shuttingDown_mark (h : s.Inv) {n : PidNamespace} {g : ℕ}
    (hmapped : (s.cells n).pidByGlobal.get g = some pid) :
    ((s.exec (.markShuttingDown n)).cells n).shuttingDown = true := by
  have hlive : s.live n = true := by
    by_contra hdead
    rw [(h.untouched n (Bool.not_eq_true _ |>.mp hdead)).1] at hmapped
    cases hmapped
  dsimp only [exec]
  rw [if_pos hlive]
  dsimp only
  rw [update_self]

/-! ## Who is assigned -/

/-- A call that is neither an assignment nor a detachment leaves the assigned processes. -/
lemma assigned_newChild (h : s.Inv) (parent : PidNamespace) (env : NewChildEnv) :
    (s.exec (.newChild parent env)).assigned = s.assigned := by
  dsimp only [exec]
  split_ifs
  · exact (h.cells_newChild parent env).2.2
  · rfl

lemma assigned_mark (s : PidNsState) (ns : PidNamespace) :
    (s.exec (.markShuttingDown ns)).assigned = s.assigned := by
  dsimp only [exec]
  split_ifs <;> rfl

lemma assigned_assign_of_ne (s : PidNsState) (leaf : PidNamespace) (env : AssignEnv) {pid' : ℕ}
    (hne : pid' ≠ pid) :
    (s.exec (.assignPidChain leaf pid env)).assigned pid' = s.assigned pid' := by
  dsimp only [exec]
  split_ifs
  · unfold assign
    cases hassign : s.cells.assignPidChain env leaf pid with
    | mk cells result =>
      cases result with
      | error => rfl
      | ok => exact update_of_ne hne _ _
  · rfl

lemma assigned_detach_of_ne (s : PidNsState) {pid' : ℕ} (hne : pid' ≠ pid) :
    (s.exec (.detachPidChain pid)).assigned pid' = s.assigned pid' := by
  dsimp only [exec]
  split
  · rfl
  · exact update_of_ne hne _ _

end PidNsState

/-! ## The sources of a publication -/

variable {chain : List PidNamespaceMembership}

lemma map_ns_of_sourcesFrom {previous slots : ℕ}
    {sources : List PidNamespace} (h : sourcesFrom previous slots chain = some sources) :
    chain.map PidNamespaceMembership.ns = sources := by
  induction chain generalizing previous slots sources with
  | nil => exact some.inj h
  | cons m chain ih =>
    unfold sourcesFrom at h
    split_ifs at h
    obtain ⟨rest, hrest, rfl⟩ := map_eq_some_iff.mp h
    rw [map_cons, ih hrest]

/-- The sources are the namespaces of the chain below the root. -/
lemma map_ns_of_fromChain {sources : List PidNamespace} (h : fromChain chain = some sources) :
    chain.map PidNamespaceMembership.ns = .root :: sources := by
  cases chain with
  | nil => cases h
  | cons =>
    dsimp only [fromChain] at h
    split_ifs at h with hroot
    rw [map_cons, PidNamespace.isRoot_iff.mp hroot, map_ns_of_sourcesFrom h]

namespace PidWorld

/-! ## The contract -/

/-- The exit of a process was requested, or the process has exited. -/
def ExitRequested (pcb : Pcb) : Prop := pcb.pendingKill = true ∨ pcb.exited = true

/-- A process was published in a namespace or below it. -/
def InNamespace (ns : PidNamespace) (pcb : Pcb) : Prop :=
  ns ∈ pcb.chain.map PidNamespaceMembership.ns

/-- What a cascade guarantees. -/
structure NoSurvivor (w : PidWorld) : Prop where
  /-- After the last kill of a cascade, every process of the namespace that is in the table, other than
  the dying init, has its exit requested. -/
  requested : ∀ ns dying, (ns, dying) ∈ w.cascaded → ∀ pid target, w.table pid = some target →
    InNamespace ns (w.pcbs target) → pid ≠ dying → ExitRequested (w.pcbs target)
  /-- A cascade requests the exit of processes of its namespace only. -/
  confined : ∀ ns target, (ns, target) ∈ w.posted → InNamespace ns (w.pcbs target)

/-! ## The invariant -/

variable (w : PidWorld)

/-- A process is mapped with a chain. -/
def Mapped (pid : ℕ) (chain : List PidNamespaceMembership) : Prop :=
  ∃ leaf, w.ns.assigned pid = some ⟨leaf, chain⟩

/-- A thread will detach a process that is mapped with a chain. -/
def Owned (t pid : ℕ) (chain : List PidNamespaceMembership) : Prop :=
  w.owner pid = some (.thread t) ∧ w.Mapped pid chain

/-- All processes of a namespace have their exit requested, but for the listed ones. -/
def Doomed (ns : PidNamespace) (dying : ℕ) (pids : List ℕ) : Prop :=
  ∀ pid target, w.table pid = some target → InNamespace ns (w.pcbs target) → pid ≠ dying →
    ExitRequested (w.pcbs target) ∨ pid ∈ pids

/-- A thread runs the cascade of a namespace that it has latched. -/
structure Cascading (w : PidWorld) (t : ℕ) (td : Teardown) (ns : PidNamespace) : Prop where
  owned : w.Owned t td.dying td.chain
  init : ⟨ns, 1⟩ ∈ td.chain
  latched : ns ∈ w.latched

/-- What holds of a thread at each place. -/
def ThreadOk (t : ℕ) : Thread → Prop
  | .idle => True
  | .assigned pid chain | .refused pid chain => w.Owned t pid chain
  | .locking pid chain held rest =>
    w.Owned t pid chain ∧ fromChain chain = some (held.reverse ++ rest) ∧
      ∀ ns ∈ held, w.childrenLock ns = some t ∧ ns ∉ w.latched
  | .scanning td _ | .detaching td => w.Owned t td.dying td.chain
  | .marking td ns => w.Owned t td.dying td.chain ∧ ⟨ns, 1⟩ ∈ td.chain ∧ ns.isRoot = false
  | .descending td ns _ _ | .descendants td ns _ => w.Cascading t td ns
  | .walking td ns stack pids | .children td ns _ stack pids =>
    w.Cascading t td ns ∧ (ns ∈ stack ∨ w.Doomed ns td.dying pids)
  | .members td ns cur init stack pids =>
    w.Cascading t td ns ∧ (cur = ns → ∀ g, init = some g → g = td.dying) ∧
      (cur = ns ∨ ns ∈ stack ∨ w.Doomed ns td.dying pids)
  | .killing td ns victims => w.Cascading t td ns ∧ w.Doomed ns td.dying victims
  | .posting td ns victim target victims =>
    w.Cascading t td ns ∧ w.Doomed ns td.dying (victim :: victims) ∧
      ∀ o, w.table victim = some o → InNamespace ns (w.pcbs o) → o = target

/-- What holds of a PCB. -/
structure PcbOk (w : PidWorld) (target : ℕ) : Prop where
  /-- A PCB that has its chain is the owner of the mapping. -/
  attached : (w.pcbs target).pidNsChain ≠ [] →
    (w.pcbs target).pidNsChain = (w.pcbs target).chain ∧
      w.owner (w.pcbs target).pid = some (.pcb target) ∧
      w.Mapped (w.pcbs target).pid (w.pcbs target).chain
  /-- A process that has not exited has its chain. -/
  live : (w.pcbs target).exited = false → (w.pcbs target).pidNsChain ≠ []

/-- What holds in every reached world. -/
structure Inv (w : PidWorld) : Prop where
  ns : w.ns.Inv
  threads : ∀ t, w.ThreadOk t (w.threads t)
  pcbs : ∀ target, w.PcbOk target
  fresh : ∀ target, w.pcbCount ≤ target → w.pcbs target = noPcb
  table : ∀ pid target, w.table pid = some target → (w.pcbs target).pid = pid
  bounded : ∀ pid target, w.table pid = some target → target < w.pcbCount
  latched : ∀ ns ∈ w.latched, (w.ns.cells ns).shuttingDown = true ∧ ns.isRoot = false
  cascaded : ∀ ns dying, (ns, dying) ∈ w.cascaded → ns ∈ w.latched ∧ w.Doomed ns dying []
  posted : ∀ ns target, (ns, target) ∈ w.posted →
    target < w.pcbCount ∧ InNamespace ns (w.pcbs target)

lemma Inv.noSurvivor {w : PidWorld} (h : w.Inv) : NoSurvivor w where
  requested ns dying hmem pid target htable hin hne := by
    rcases (h.cascaded ns dying hmem).2 pid target htable hin hne with hreq | hnil
    · exact hreq
    · cases hnil
  confined ns target hmem := (h.posted ns target hmem).2

lemma Inv.start : PidWorld.start.Inv where
  ns := PidNsState.Inv.start
  threads _ := trivial
  pcbs _ := ⟨fun h => absurd rfl h, fun h => nomatch h⟩
  fresh _ _ := rfl
  table _ _ h := nomatch h
  bounded _ _ h := nomatch h
  latched _ h := nomatch h
  cascaded _ _ h := nomatch h
  posted _ _ h := nomatch h

/-- A latched namespace stays marked. -/
lemma Inv.latched_exec {w : PidWorld} (h : w.Inv) (event : PidNsEvent) :
    ∀ ns ∈ w.latched, ((w.ns.exec event).cells ns).shuttingDown = true ∧ ns.isRoot = false :=
  fun ns hns => ⟨shuttingDown_exec h.ns event (h.latched ns hns).1, (h.latched ns hns).2⟩

/-- The PCB of a process in the table. -/
lemma Inv.slot {w : PidWorld} (h : w.Inv) (pid target : ℕ) (ht : w.table pid = some target) :
    (w.pcbs target).pid = pid ∧ target < w.pcbCount :=
  ⟨h.table pid target ht, h.bounded pid target ht⟩

/-! ## What a thread relies on -/

/-- The world changed, but nothing that a thread relies on.  In a latched namespace the processes only
become fewer. -/
structure Keeps (w w' : PidWorld) (t : ℕ) : Prop where
  owned : ∀ pid chain, w.Owned t pid chain → w'.Owned t pid chain
  lock : ∀ ns, w.childrenLock ns = some t → w'.childrenLock ns = some t
  latched : ∀ ns ∈ w.latched, ns ∈ w'.latched
  latchedFree : ∀ ns ∈ w'.latched, ns ∈ w.latched ∨ w.childrenLock ns = none
  fewer : ∀ ns ∈ w.latched, ∀ pid target, w'.table pid = some target →
    InNamespace ns (w'.pcbs target) → w.table pid = some target ∧
      InNamespace ns (w.pcbs target) ∧ (ExitRequested (w.pcbs target) → ExitRequested (w'.pcbs target))

section Keeps

variable {w w' : PidWorld} {t : ℕ}

/-- The processes of a latched namespace stay doomed. -/
lemma Keeps.doomed (h : Keeps w w' t) {ns : PidNamespace} (hlatched : ns ∈ w.latched) {dying : ℕ}
    {pids : List ℕ} (hdoomed : w.Doomed ns dying pids) : w'.Doomed ns dying pids := by
  intro pid target htable hin hne
  obtain ⟨htable, hin, hreq⟩ := h.fewer ns hlatched pid target htable hin
  exact (hdoomed pid target htable hin hne).imp_left hreq

lemma Keeps.cascading (h : Keeps w w' t) {td : Teardown} {ns : PidNamespace}
    (hc : w.Cascading t td ns) : w'.Cascading t td ns :=
  ⟨h.owned _ _ hc.owned, hc.init, h.latched ns hc.latched⟩

/-- A thread that does not move keeps what holds of it. -/
lemma Keeps.threadOk (h : Keeps w w' t) {thread : Thread} (hok : w.ThreadOk t thread) :
    w'.ThreadOk t thread := by
  cases thread with
  | idle => trivial
  | assigned _ _ | refused _ _ | scanning _ _ | detaching _ => exact h.owned _ _ hok
  | locking =>
    refine ⟨h.owned _ _ hok.1, hok.2.1, fun ns hns => ?_⟩
    obtain ⟨hlock, hnot⟩ := hok.2.2 ns hns
    refine ⟨h.lock ns hlock, fun hlatched => ?_⟩
    rcases h.latchedFree ns hlatched with hlatched | hfree
    · exact hnot hlatched
    · cases hfree.symm.trans hlock
  | marking => exact ⟨h.owned _ _ hok.1, hok.2⟩
  | descending _ _ _ _ | descendants _ _ _ => exact h.cascading hok
  | walking _ _ _ _ | children _ _ _ _ _ =>
    exact ⟨h.cascading hok.1, hok.2.imp_right (h.doomed hok.1.latched)⟩
  | members =>
    refine ⟨h.cascading hok.1, hok.2.1, hok.2.2.imp_right fun hrest => ?_⟩
    exact hrest.imp_right (h.doomed hok.1.latched)
  | killing => exact ⟨h.cascading hok.1, h.doomed hok.1.latched hok.2⟩
  | posting td ns victim =>
    refine ⟨h.cascading hok.1, h.doomed hok.1.latched hok.2.1, fun o htable hin => ?_⟩
    obtain ⟨htable, hin, -⟩ := h.fewer ns hok.1.latched victim o htable hin
    exact hok.2.2 o htable hin

lemma Keeps.refl (w : PidWorld) (t : ℕ) : Keeps w w t where
  owned _ _ h := h
  lock _ h := h
  latched _ h := h
  latchedFree _ h := .inl h
  fewer _ _ _ _ ht hin := ⟨ht, hin, id⟩

lemma Keeps.of_same (howner : w'.owner = w.owner) (hassigned : w'.ns.assigned = w.ns.assigned)
    (hlock : w'.childrenLock = w.childrenLock) (hlatched : w'.latched = w.latched)
    (htable : w'.table = w.table) (hpcbs : w'.pcbs = w.pcbs) : Keeps w w' t where
  owned pid chain h := by
    unfold Owned Mapped
    rw [howner, hassigned]
    exact h
  lock ns h := by rw [hlock, h]
  latched ns h := by rw [hlatched]; exact h
  latchedFree ns h := .inl (hlatched ▸ h)
  fewer ns _ pid target ht hin := by
    rw [htable] at ht
    rw [hpcbs] at hin ⊢
    exact ⟨ht, hin, id⟩

/-- What has to be shown of a step in which at most the thread `t` moves. -/
structure Advance (w w' : PidWorld) (t : ℕ) : Prop where
  others : ∀ t', t' ≠ t → w'.threads t' = w.threads t' ∧ Keeps w w' t'
  self : w'.ThreadOk t (w'.threads t)
  ns : w'.ns.Inv
  pcbs : ∀ target, w'.PcbOk target
  fresh : ∀ target, w'.pcbCount ≤ target → w'.pcbs target = noPcb
  table : ∀ pid target, w'.table pid = some target →
    (w'.pcbs target).pid = pid ∧ target < w'.pcbCount
  latched : ∀ ns ∈ w'.latched, (w'.ns.cells ns).shuttingDown = true ∧ ns.isRoot = false
  cascaded : ∀ ns dying, (ns, dying) ∈ w'.cascaded →
    (ns, dying) ∈ w.cascaded ∨ (ns ∈ w'.latched ∧ w'.Doomed ns dying [])
  posted : ∀ ns target, (ns, target) ∈ w'.posted →
    target < w'.pcbCount ∧ InNamespace ns (w'.pcbs target)

/-- The case of no change, from which the steps take what they leave alone. -/
lemma Inv.stays (h : w.Inv) (t : ℕ) : Advance w w t :=
  ⟨fun t' _ => ⟨rfl, .refl w t'⟩, h.threads t, h.ns, h.pcbs, h.fresh, h.slot, h.latched,
    fun _ _ hmem => .inl hmem, h.posted⟩

lemma Inv.advance (h : w.Inv) (ha : Advance w w' t) : w'.Inv where
  ns := ha.ns
  threads t' := by
    rcases eq_or_ne t' t with rfl | hne
    · exact ha.self
    rw [(ha.others t' hne).1]
    exact (ha.others t' hne).2.threadOk (h.threads t')
  pcbs := ha.pcbs
  fresh := ha.fresh
  table pid target ht := (ha.table pid target ht).1
  bounded pid target ht := (ha.table pid target ht).2
  latched := ha.latched
  cascaded ns dying hmem := by
    rcases ha.cascaded ns dying hmem with hold | hnew
    · -- any other thread sees the namespaces that are latched
      have hkeeps := (ha.others (t + 1) (Nat.succ_ne_self t)).2
      obtain ⟨hlatched, hdoomed⟩ := h.cascaded ns dying hold
      exact ⟨hkeeps.latched ns hlatched, hkeeps.doomed hlatched hdoomed⟩
    · exact hnew
  posted := ha.posted

lemma PcbOk.of_same {target : ℕ} (h : w.PcbOk target) (howner : w'.owner = w.owner)
    (hassigned : w'.ns.assigned = w.ns.assigned) (hpcbs : w'.pcbs target = w.pcbs target) :
    w'.PcbOk target where
  attached hne := by
    unfold Mapped
    rw [hpcbs] at hne ⊢
    rw [howner, hassigned]
    exact h.attached hne
  live hexited := by
    rw [hpcbs] at hexited ⊢
    exact h.live hexited

variable {v : PidWorld} {thread : Thread}

/-- Moving one thread concerns no other. -/
lemma others_goto (hthreads : v.threads = w.threads) (hkeeps : ∀ t', t' ≠ t → Keeps w v t') (t' : ℕ)
    (hne : t' ≠ t) : (v.goto t thread).threads t' = w.threads t' ∧ Keeps w (v.goto t thread) t' := by
  have hk := hkeeps t' hne
  refine ⟨?_, hk.owned, hk.lock, hk.latched, hk.latchedFree, hk.fewer⟩
  rw [← hthreads]
  exact update_of_ne hne _ _

/-- What holds of a thread does not depend on where the threads are. -/
lemma self_goto (hok : v.ThreadOk t thread) :
    (v.goto t thread).ThreadOk t ((v.goto t thread).threads t) := by
  have hsame : Keeps v (v.goto t thread) t := .of_same rfl rfl rfl rfl rfl rfl
  change (v.goto t thread).ThreadOk t (update v.threads t thread t)
  rw [update_self]
  exact hsame.threadOk hok

lemma Inv.goto (h : w.Inv) (hok : w.ThreadOk t thread) : (w.goto t thread).Inv :=
  h.advance { h.stays t with
    others := others_goto rfl fun t' _ => .refl w t'
    self := self_goto hok
    pcbs := fun o => (h.pcbs o).of_same rfl rfl rfl }

/-- At most one process has another owner or another mapping than before. -/
structure Moved (w w' : PidWorld) (pid : ℕ) : Prop where
  owner : ∀ pid', pid' ≠ pid → w'.owner pid' = w.owner pid'
  assigned : ∀ pid', pid' ≠ pid → w'.ns.assigned pid' = w.ns.assigned pid'

/-- What anyone owns who did not own that process stays with it. -/
lemma Moved.keep {pid pid' : ℕ} {x : Owner}
    (h : Moved w w' pid) (hx : w.owner pid = some x → w.ns.assigned pid = none)
    (ho : w.owner pid' = some x) (hm : w.Mapped pid' chain) :
    w'.owner pid' = some x ∧ w'.Mapped pid' chain := by
  obtain ⟨leaf, ha⟩ := hm
  have hne : pid' ≠ pid := by
    rintro rfl
    cases (hx ho).symm.trans ha
  exact ⟨(h.owner pid' hne).trans ho, leaf, (h.assigned pid' hne).trans ha⟩

lemma PcbOk.of_moved {target pid : ℕ} (h : w.PcbOk target) (hmoved : Moved w w' pid)
    (hx : w.owner pid = some (.pcb target) → w.ns.assigned pid = none)
    (hpcbs : w'.pcbs target = w.pcbs target) : w'.PcbOk target := by
  refine ⟨fun hattached => ?_, fun hlive => ?_⟩
  · rw [hpcbs] at hattached ⊢
    obtain ⟨heq, ho, hm⟩ := h.attached hattached
    exact ⟨heq, hmoved.keep hx ho hm⟩
  rw [hpcbs] at hlive ⊢
  exact h.live hlive

end Keeps

/-! ## The steps of a creator -/

section Steps

variable {w : PidWorld} {t : ℕ} {held : List PidNamespace}

/-- The locks of a publication are its own: a release concerns no other thread. -/
lemma keeps_release {t' : ℕ} (hne : t' ≠ t) (hheld : ∀ ns ∈ held, w.childrenLock ns = some t) :
    Keeps w (w.release held) t' where
  __ := Keeps.refl w t'
  lock ns h := by
    have hnot : ns ∉ held := fun hmem => hne (some.inj (h.symm.trans (hheld ns hmem)))
    exact (if_neg hnot).trans h

variable {thread : Thread}

lemma Inv.release (h : w.Inv) (hheld : ∀ ns ∈ held, w.childrenLock ns = some t)
    (hok : (w.release held).ThreadOk t thread) : ((w.release held).goto t thread).Inv :=
  h.advance { h.stays t with
    others := others_goto rfl fun _ hne => keeps_release hne hheld
    self := self_goto hok
    pcbs := fun o => (h.pcbs o).of_same rfl rfl rfl }

variable {chain : List PidNamespaceMembership} {ns : PidNamespace} {pid : ℕ}

/-- A creator takes the lock of a namespace that is not shutting down. -/
lemma Inv.acquire (h : w.Inv) {rest : List PidNamespace}
    (hok : w.ThreadOk t (.locking pid chain held (ns :: rest))) (hfree : w.childrenLock ns = none)
    (hlive : (w.ns.cells ns).shuttingDown = false) :
    ({ w with childrenLock := update w.childrenLock ns (some t) }.goto t
      (.locking pid chain (ns :: held) rest)).Inv := by
  obtain ⟨howned, hsources, hheld⟩ := hok
  -- a lock that a thread holds is another one
  have hother : ∀ ns' t', w.childrenLock ns' = some t' →
      update w.childrenLock ns (some t) ns' = some t' := by
    intro ns' t' hlock
    have hne : ns' ≠ ns := by
      rintro rfl
      cases hfree.symm.trans hlock
    rw [update_of_ne hne]
    exact hlock
  refine h.advance { h.stays t with
    others := others_goto rfl fun t' _ => ?_
    self := ?_
    pcbs := fun o => (h.pcbs o).of_same rfl rfl rfl }
  · exact { Keeps.refl w t' with lock := fun ns' => hother ns' t' }
  refine self_goto ⟨howned, by simpa using hsources, fun ns' hns' => ?_⟩
  rcases mem_cons.mp hns' with rfl | hns'
  · refine ⟨update_self _ _ _, fun hlatched => ?_⟩
    rw [(h.latched ns' hlatched).1] at hlive
    cases hlive
  · exact ⟨hother ns' t (hheld ns' hns').1, (hheld ns' hns').2⟩

/-- A creator that holds all its locks publishes the PCB: none of its namespaces is latched. -/
lemma Inv.publish (h : w.Inv) (hok : w.ThreadOk t (.locking pid chain held [])) :
    ((w.release held).insertPcb t pid chain).Inv := by
  obtain ⟨⟨howner, leaf, hassigned⟩, hsources, hheld⟩ := hok
  rw [append_nil] at hsources
  have hpath := map_ns_of_fromChain hsources
  have hout : ∀ ns ∈ w.latched, ns ∉ chain.map PidNamespaceMembership.ns := by
    intro ns hlatched hmem
    rw [hpath, mem_cons, mem_reverse] at hmem
    rcases hmem with rfl | hmem
    · exact absurd (h.latched _ hlatched).2 (by decide)
    · exact (hheld ns hmem).2 hlatched
  have hchain : chain ≠ [] := by
    rintro rfl
    cases hpath
  -- the other PCBs
  set v := (w.release held).insertPcb t pid chain
  have hpcbs : ∀ target, target ≠ w.pcbCount → v.pcbs target = w.pcbs target :=
    fun target hne => update_of_ne hne _ _
  have hnew : v.pcbs w.pcbCount = ⟨pid, chain, chain, false, false⟩ := update_self _ _ _
  have hslots : ∀ pid' target, v.table pid' = some target →
      (pid' = pid ∧ target = w.pcbCount) ∨ (w.table pid' = some target ∧ target ≠ w.pcbCount) := by
    intro pid' target ht
    rcases update_eq_some_iff.mp ht with ⟨hpid, ht⟩ | ⟨-, ht⟩
    · exact .inl ⟨hpid, (some.inj ht).symm⟩
    · exact .inr ⟨ht, (h.bounded pid' target ht).ne⟩
  have hmoved : Moved w v pid := ⟨fun _ hne => update_of_ne hne _ _, fun _ _ => rfl⟩
  have hmine : ∀ x, x ≠ .thread t → w.owner pid = some x → w.ns.assigned pid = none :=
    fun x hx ho => absurd (some.inj (ho.symm.trans howner)) hx
  refine h.advance (t := t) ⟨others_goto rfl fun t' hne => ?_, self_goto trivial, h.ns, ?_, ?_, ?_,
    h.latched, fun _ _ hmem => .inl hmem, ?_⟩
  · refine { keeps_release hne fun ns hns => (hheld ns hns).1 with
      owned := fun pid' chain' ho => ?_, fewer := ?_ }
    · exact hmoved.keep (hmine _ fun heq => hne (Owner.thread.inj heq)) ho.1 ho.2
    intro ns hlatched pid' target ht hin
    rcases hslots pid' target ht with ⟨rfl, rfl⟩ | ⟨ht, htarget⟩
    · change InNamespace ns (update w.pcbs w.pcbCount _ w.pcbCount) at hin
      rw [update_self] at hin
      exact absurd hin (hout ns hlatched)
    have hsame := hpcbs target htarget
    exact ⟨ht, hsame ▸ hin, fun hreq => hsame.symm ▸ hreq⟩
  · intro target
    rcases eq_or_ne target w.pcbCount with rfl | hne
    · refine ⟨fun _ => ?_, fun _ => ?_⟩
      · rw [hnew]
        exact ⟨rfl, update_self _ _ _, leaf, hassigned⟩
      · rw [hnew]
        exact hchain
    · exact (h.pcbs target).of_moved hmoved (hmine _ nofun) (hpcbs target hne)
  · intro target hle
    rw [hpcbs target (ne_of_gt hle)]
    exact h.fresh target (Nat.le_of_succ_le hle)
  · intro pid' target ht
    rcases hslots pid' target ht with ⟨rfl, rfl⟩ | ⟨ht, htarget⟩
    · rw [hnew]
      exact ⟨rfl, lt_add_one _⟩
    rw [hpcbs target htarget]
    exact ⟨h.table pid' target ht, Nat.lt_succ_of_lt (h.bounded pid' target ht)⟩
  · intro ns target hmem
    obtain ⟨hlt, hin⟩ := h.posted ns target hmem
    rw [hpcbs target hlt.ne]
    exact ⟨Nat.lt_succ_of_lt hlt, hin⟩

lemma Inv.detach (h : w.Inv) (howned : w.Owned t pid chain) : (w.detach t pid).Inv := by
  have hmoved : Moved w (w.detach t pid) pid :=
    ⟨fun _ hne => update_of_ne hne _ _, fun _ hne => w.ns.assigned_detach_of_ne hne⟩
  have hmine : ∀ x, x ≠ .thread t → w.owner pid = some x → w.ns.assigned pid = none :=
    fun x hx ho => absurd (some.inj (ho.symm.trans howned.1)) hx
  refine h.advance { h.stays t with
    others := others_goto rfl fun t' hne => ?_
    self := self_goto trivial
    ns := h.ns.exec (.detachPidChain pid)
    pcbs := fun target => ?_
    latched := h.latched_exec _ }
  · refine { Keeps.refl w t' with owned := fun pid' chain' ho => ?_ }
    exact hmoved.keep (hmine _ fun heq => hne (Owner.thread.inj heq)) ho.1 ho.2
  · exact (h.pcbs target).of_moved hmoved (hmine _ nofun) rfl

lemma Inv.stepLocking (h : w.Inv) (env : StepEnv) {rest : List PidNamespace}
    (hok : w.ThreadOk t (.locking pid chain held rest)) :
    (w.stepLocking env t pid chain held rest).Inv := by
  have hheld : ∀ ns ∈ held, w.childrenLock ns = some t := fun ns hns => (hok.2.2 ns hns).1
  cases rest with
  | nil =>
    dsimp only [PidWorld.stepLocking]
    split_ifs
    · exact h.release hheld hok.1
    · exact h.release hheld hok.1
    · exact h.release hheld hok.1
    · exact h.publish hok
  | cons =>
    dsimp only [PidWorld.stepLocking]
    split_ifs with hlock hdown
    · exact h
    · exact h.release hheld hok.1
    · exact h.acquire hok (not_not.mp hlock) (Bool.not_eq_true _ |>.mp hdown)

/-! ## The steps of a cascade -/

variable {td : Teardown}

/-- The init of a namespace has local PID 1 in its chain. -/
lemma Inv.mem_chain_of_init (h : w.Inv) (howned : w.Owned t td.dying td.chain)
    (hinit : (w.ns.cells ns).initGlobalPid = some td.dying) : ⟨ns, 1⟩ ∈ td.chain := by
  obtain ⟨-, leaf, ha⟩ := howned
  obtain ⟨a, ha', hmem⟩ := h.ns.visible ns td.dying 1 (h.ns.init ns td.dying hinit)
  cases ha.symm.trans ha'
  exact hmem

/-- As long as a cascade runs, its namespace has no other init. -/
lemma Inv.init_eq_dying (h : w.Inv) (hc : w.Cascading t td ns) {g : ℕ}
    (hinit : (w.ns.cells ns).initGlobalPid = some g) : g = td.dying := by
  obtain ⟨-, leaf, ha⟩ := hc.owned
  have hdying := (h.ns.inverse ns 1 td.dying).mpr (h.ns.mapped td.dying _ ha _ hc.init)
  have hg := (h.ns.inverse ns 1 g).mpr (h.ns.init ns g hinit)
  exact some.inj (hg.symm.trans hdying)

/-- `mark_shutting_down` with the lock of the namespace free: no publication is in between. -/
lemma Inv.mark (h : w.Inv) (hok : w.ThreadOk t (.marking td ns)) (hfree : w.childrenLock ns = none) :
    ({ w with
        ns := w.ns.exec (.markShuttingDown ns)
        latched := ns :: w.latched }.goto t (.descending td ns ns [])).Inv := by
  obtain ⟨howned, hinit, hroot⟩ := hok
  have hassigned := w.ns.assigned_mark ns
  have hkeeps : ∀ t', Keeps w { w with ns := w.ns.exec (.markShuttingDown ns) } t' := fun t' =>
    .of_same rfl hassigned rfl rfl rfl rfl
  refine h.advance { h.stays t with
    others := others_goto rfl fun t' _ => ?_
    self := self_goto ⟨(hkeeps t).owned _ _ howned, hinit, mem_cons_self⟩
    ns := h.ns.exec (.markShuttingDown ns)
    pcbs := fun target => (h.pcbs target).of_same rfl hassigned rfl
    latched := fun ns' hl => ?_
    cascaded := fun _ _ hmem => .inl hmem }
  · refine { hkeeps t' with
      latched := fun _ hl => mem_cons_of_mem _ hl
      latchedFree := fun ns' hl => ?_ }
    rcases mem_cons.mp hl with rfl | hl
    · exact .inr hfree
    · exact .inl hl
  rcases mem_cons.mp hl with rfl | hl
  · obtain ⟨-, leaf, ha⟩ := howned
    exact ⟨shuttingDown_mark h.ns (h.ns.mapped td.dying _ ha _ hinit), hroot⟩
  · exact h.latched_exec _ ns' hl

/-- An event of the namespaces that leaves every process its chain. -/
lemma Inv.nsEvent (h : w.Inv) {event : PidNsEvent}
    (hassigned : (w.ns.exec event).assigned = w.ns.assigned)
    (registry : PidNamespace → List PidNamespace) (hok : w.ThreadOk t thread) :
    let w' := { w with ns := w.ns.exec event, registry }
    w'.Inv ∧ w'.ThreadOk t thread := by
  have hkeeps : ∀ t', Keeps w { w with ns := w.ns.exec event, registry } t' :=
    fun t' => .of_same rfl hassigned rfl rfl rfl rfl
  refine ⟨h.advance { h.stays t with
    others := fun t' _ => ⟨rfl, hkeeps t'⟩
    self := (hkeeps t).threadOk (h.threads t)
    ns := h.ns.exec event
    pcbs := fun target => (h.pcbs target).of_same rfl hassigned rfl
    latched := h.latched_exec _ }, (hkeeps t).threadOk hok⟩

/-- The members of a namespace are the processes of it that are alive, and perhaps others. -/
lemma Inv.doomed_members (h : w.Inv) (ns : PidNamespace) {dying : ℕ} {init : Option ℕ}
    (hinit : ∀ g, init = some g → g = dying) (pids : List ℕ) :
    w.Doomed ns dying (pids ++
      ((w.ns.cells ns).pidByNs.iter.map Prod.snd).filter fun g => init ≠ some g) := by
  intro pid target htable hin hne
  cases hexited : (w.pcbs target).exited with
  | true => exact .inl (.inr hexited)
  | false =>
    right
    obtain ⟨-, -, leaf, ha⟩ := (h.pcbs target).attached ((h.pcbs target).live hexited)
    rw [h.table pid target htable] at ha
    obtain ⟨m, hm, rfl⟩ := mem_map.mp hin
    -- the process is mapped in the namespace, with some local PID
    have hlocal := (h.ns.inverse m.ns m.pid pid).mpr (h.ns.mapped pid _ ha m hm)
    refine mem_append_right _ (mem_filter.mpr ⟨?_, ?_⟩)
    · exact mem_map.mpr ⟨(m.pid, pid), SortedAssoc.mem_entries.mpr hlocal, rfl⟩
    · exact decide_eq_true fun heq => hne (hinit pid heq)

/-! ## Changes of a PCB -/

/-- A PCB is changed but keeps its identity; a request is not taken back. -/
structure Marked (pcb pcb' : Pcb) : Prop where
  pid : pcb'.pid = pcb.pid
  chain : pcb'.chain = pcb.chain
  pidNsChain : pcb'.pidNsChain = pcb.pidNsChain
  exited : pcb'.exited = false → pcb.exited = false
  requested : ExitRequested pcb → ExitRequested pcb'

lemma marked_exit (pcb : Pcb) : Marked pcb { pcb with exited := true } :=
  ⟨rfl, rfl, rfl, (fun h => nomatch h), fun _ => .inr rfl⟩

lemma marked_request (pcb : Pcb) : Marked pcb (requestProcessExitLocked pcb) := by
  unfold requestProcessExitLocked
  split_ifs with hexited
  · exact ⟨rfl, rfl, rfl, id, id⟩
  · exact ⟨rfl, rfl, rfl, id, fun _ => .inl rfl⟩

lemma exitRequested_request (pcb : Pcb) : ExitRequested (requestProcessExitLocked pcb) := by
  unfold requestProcessExitLocked
  split_ifs with hexited
  · exact .inr hexited
  · exact .inl rfl

variable {pcb : Pcb} {target : ℕ}

lemma marked_setPcb (hm : Marked (w.pcbs target) pcb) (o : ℕ) :
    Marked (w.pcbs o) ((w.setPcb target pcb).pcbs o) := by
  unfold setPcb
  rcases eq_or_ne o target with rfl | hne
  · dsimp only
    rw [update_self]
    exact hm
  dsimp only
  rw [update_of_ne hne]
  exact ⟨rfl, rfl, rfl, id, id⟩

lemma Marked.inNamespace_iff {pcb' : Pcb} (h : Marked pcb pcb') (ns : PidNamespace) :
    InNamespace ns pcb' ↔ InNamespace ns pcb := by
  unfold InNamespace
  rw [h.chain]

lemma keeps_setPcb (hm : Marked (w.pcbs target) pcb) (t : ℕ) : Keeps w (w.setPcb target pcb) t where
  __ := Keeps.refl w t
  fewer ns _ _ o ht hin :=
    ⟨ht, ((marked_setPcb hm o).inNamespace_iff ns).mp hin, (marked_setPcb hm o).requested⟩

variable (h : w.Inv)
include h

lemma Inv.setPcb (hm : Marked (w.pcbs target) pcb) (hfresh : w.pcbCount ≤ target → pcb = noPcb) :
    (w.setPcb target pcb).Inv := by
  have hmarked := marked_setPcb hm
  refine h.advance (t := 0) ⟨fun t' _ => ⟨rfl, keeps_setPcb hm t'⟩,
    (keeps_setPcb hm 0).threadOk (h.threads 0), h.ns, fun o => ⟨?_, ?_⟩, ?_, ?_, h.latched,
    fun _ _ hmem => .inl hmem, ?_⟩
  · intro hattached
    rw [(hmarked o).pidNsChain] at hattached ⊢
    rw [(hmarked o).pid, (hmarked o).chain]
    exact (h.pcbs o).attached hattached
  · intro hlive
    rw [(hmarked o).pidNsChain]
    exact (h.pcbs o).live ((hmarked o).exited hlive)
  · intro o hle
    rcases eq_or_ne o target with rfl | hne
    · exact (update_self _ _ _).trans (hfresh hle)
    · exact (update_of_ne hne _ _).trans (h.fresh o hle)
  · intro pid o ht
    rw [(hmarked o).pid]
    exact h.slot pid o ht
  · intro ns o hmem
    rw [(hmarked o).inNamespace_iff]
    exact h.posted ns o hmem

/-- A request does nothing to a PCB that was never published. -/
lemma Inv.request_fresh (hle : w.pcbCount ≤ target) :
    requestProcessExitLocked (w.pcbs target) = noPcb := by
  rw [h.fresh target hle]
  rfl

/-- A kill that has resolved its victim: the PCB that it posts to is the only one in question. -/
lemma Inv.post {victim : ℕ} {victims : List ℕ}
    (hok : w.ThreadOk t (.posting td ns victim target victims))
    (hvisible : isVisibleInNamespace ns (w.pcbs target).pidNsChain = true) :
    ({ w.setPcb target (requestProcessExitLocked (w.pcbs target)) with
        posted := (ns, target) :: w.posted }.goto t (.killing td ns victims)).Inv := by
  have hm := marked_request (w.pcbs target)
  have h1 := h.setPcb hm h.request_fresh
  obtain ⟨hc, hdoomed, hunique⟩ := (keeps_setPcb hm t).threadOk hok
  -- the PCB is one of the namespace
  have hattached : (w.pcbs target).pidNsChain ≠ [] := by
    intro hnil
    rw [hnil] at hvisible
    cases hvisible
  have hlt : target < w.pcbCount := by
    by_contra hle
    rw [h.fresh target (Nat.le_of_not_lt hle)] at hattached
    exact hattached rfl
  have hin : InNamespace ns (w.pcbs target) := by
    rw [((h.pcbs target).attached hattached).1] at hvisible
    obtain ⟨m, hmem, hns⟩ := any_eq_true.mp hvisible
    exact mem_map.mpr ⟨m, hmem, of_decide_eq_true hns⟩
  refine h1.advance { h1.stays t with
    others := others_goto rfl fun t' _ => { Keeps.refl _ t' with }
    self := self_goto ⟨{ hc with }, fun pid o htable hin' hne => ?_⟩
    pcbs := fun o => (h1.pcbs o).of_same rfl rfl rfl
    posted := ?_ }
  · rcases hdoomed pid o htable hin' hne with hreq | hmem
    · exact .inl hreq
    · rcases mem_cons.mp hmem with rfl | hmem
      · have ho : o = target := hunique o htable hin'
        subst ho
        left
        change ExitRequested (update w.pcbs o _ o)
        rw [update_self]
        exact exitRequested_request _
      · exact .inr hmem
  · intro ns' o hmem
    rcases mem_cons.mp hmem with heq | hmem
    · cases heq
      exact ⟨hlt, ((marked_setPcb hm target).inNamespace_iff ns).mpr hin⟩
    · exact h1.posted ns' o hmem

/-- A kill whose victim is not visible any more: it has exited, or is no process of the namespace. -/
lemma Inv.doomed_of_not_visible {victim : ℕ} {victims : List ℕ}
    (hok : w.ThreadOk t (.posting td ns victim target victims))
    (hvisible : isVisibleInNamespace ns (w.pcbs target).pidNsChain = false) :
    w.ThreadOk t (.killing td ns victims) := by
  obtain ⟨hc, hdoomed, hunique⟩ := hok
  refine ⟨hc, fun pid o htable hin hne => ?_⟩
  rcases hdoomed pid o htable hin hne with hreq | hmem
  · exact .inl hreq
  rcases mem_cons.mp hmem with rfl | hmem
  · obtain rfl := hunique o htable hin
    cases hexited : (w.pcbs o).exited with
    | true => exact .inl (.inr hexited)
    | false =>
      obtain ⟨m, hm, hns⟩ := mem_map.mp hin
      rw [((h.pcbs o).attached ((h.pcbs o).live hexited)).1] at hvisible
      exact absurd hvisible (Bool.not_eq_false _ |>.mpr
        (any_eq_true.mpr ⟨m, hm, decide_eq_true hns⟩))
  · exact .inr hmem

lemma Inv.finishCascade (hok : w.ThreadOk t (.killing td ns [])) :
    ({ w with cascaded := (ns, td.dying) :: w.cascaded }.goto t (.detaching td)).Inv := by
  refine h.advance { h.stays t with
    others := others_goto rfl fun t' _ => { Keeps.refl w t' with }
    self := self_goto hok.1.owned
    pcbs := fun o => (h.pcbs o).of_same rfl rfl rfl
    cascaded := fun ns' dying hmem => ?_ }
  rcases mem_cons.mp hmem with heq | hmem
  · cases heq
    exact .inr ⟨hok.1.latched, hok.2⟩
  · exact .inl hmem

/-! ## Runs -/

lemma Inv.step (t : ℕ) (env : StepEnv) : (w.step t env).Inv := by
  have hok := h.threads t
  unfold PidWorld.step
  generalize w.threads t = thread at hok
  cases thread with
  | idle => exact h
  | assigned pid chain =>
    dsimp only
    cases hsources : fromChain chain with
    | none => exact h.goto hok
    | some => exact h.goto ⟨hok, hsources, fun _ hns => nomatch hns⟩
  | locking =>
    exact h.stepLocking env hok
  | refused | detaching =>
    exact h.detach hok
  | scanning td rest =>
    cases rest with
    | nil => exact h.goto hok
    | cons =>
      dsimp only
      split_ifs with hinit
      · exact h.goto ⟨hok, h.mem_chain_of_init hok hinit.2, hinit.1⟩
      · exact h.goto hok
  | marking =>
    dsimp only
    split_ifs with hlock hdown
    · exact h
    · exact h.goto hok.1
    · exact h.mark hok (not_not.mp hlock)
  | descending =>
    dsimp only
    split_ifs
    · exact h
    · exact h.goto hok
    · exact h.goto hok
  | descendants td ns stack =>
    cases stack with
    | nil => exact h.goto ⟨hok, .inl mem_cons_self⟩
    | cons cur =>
      obtain ⟨hmarked, hok⟩ := h.nsEvent (w.ns.assigned_mark cur) w.registry hok
      exact hmarked.goto hok
  | walking td ns stack =>
    cases stack with
    | nil => exact h.goto ⟨hok.1, hok.2.resolve_left not_mem_nil⟩
    | cons =>
      refine h.goto ⟨hok.1, ?_, ?_⟩
      · rintro rfl g hinit
        exact h.init_eq_dying hok.1 hinit
      rcases hok.2 with hmem | hdoomed
      · rcases mem_cons.mp hmem with rfl | hmem
        · exact .inl rfl
        · exact .inr (.inl hmem)
      · exact .inr (.inr hdoomed)
  | members td ns cur init stack pids =>
    split_ifs
    · exact h.goto hok.1.owned
    refine h.goto ⟨hok.1, ?_⟩
    rcases hok.2.2 with rfl | hmem | hdoomed
    · exact .inr (h.doomed_members cur (hok.2.1 rfl) pids)
    · exact .inl hmem
    · refine .inr fun pid target htable hin hne => ?_
      exact (hdoomed pid target htable hin hne).imp_right (mem_append_left _)
  | children =>
    dsimp only
    split_ifs
    · exact h
    · exact h.goto hok.1.owned
    · exact h.goto ⟨hok.1, hok.2.imp_left (mem_append_right _)⟩
  | killing td ns victims =>
    cases victims with
    | nil => exact h.finishCascade hok
    | cons victim =>
      dsimp only
      split_ifs with hdying
      · refine h.goto ⟨hok.1, fun pid target htable hin hne => ?_⟩
        refine (hok.2 pid target htable hin hne).imp_right fun hmem => ?_
        exact (mem_cons.mp hmem).resolve_left fun heq => hne (heq.trans hdying)
      cases htable : w.table victim with
      | none =>
        refine h.goto ⟨hok.1, fun pid target htable' hin hne => ?_⟩
        refine (hok.2 pid target htable' hin hne).imp_right fun hmem => ?_
        refine (mem_cons.mp hmem).resolve_left fun heq => ?_
        rw [heq, htable] at htable'
        cases htable'
      | some =>
        refine h.goto ⟨hok.1, hok.2, fun o ho _ => ?_⟩
        exact some.inj (ho.symm.trans htable)
  | posting =>
    dsimp only
    split_ifs with hvisible
    · exact h.post hok hvisible
    · exact h.goto (h.doomed_of_not_visible hok (Bool.not_eq_true _ |>.mp hvisible))

/-- An assignment, with the thread as the owner of the process or without one. -/
lemma Inv.assign (hfree : w.ns.assigned pid = none) (leaf : PidNamespace) (env : AssignEnv)
    {owner : ℕ → Option Owner} (howner : ∀ pid', pid' ≠ pid → owner pid' = w.owner pid')
    {v : PidWorld} (hv : v = { w with
      ns := w.ns.exec (.assignPidChain leaf pid env)
      owner := owner }) (hself : v.ThreadOk t thread) : (v.goto t thread).Inv := by
  have hmoved : Moved w v pid := by
    rw [hv]
    exact ⟨howner, fun _ hne => w.ns.assigned_assign_of_ne leaf env hne⟩
  subst hv
  refine h.advance { h.stays t with
    others := others_goto rfl fun t' _ => ?_
    self := self_goto hself
    ns := h.ns.exec (.assignPidChain leaf pid env)
    pcbs := fun target => ?_
    latched := h.latched_exec _ }
  · exact { Keeps.refl w t' with owned := fun _ _ ho => hmoved.keep (fun _ => hfree) ho.1 ho.2 }
  have hok := (h.pcbs target).of_moved hmoved (fun _ => hfree) rfl
  exact ⟨hok.attached, hok.live⟩

lemma Inv.create (ht : w.threads t = .idle) (leaf : PidNamespace) (env : AssignEnv)
    (hfree : w.ns.assigned pid = none) : (w.exec (.create t leaf pid env)).Inv := by
  dsimp only [PidWorld.exec]
  rw [ht]
  dsimp only
  split_ifs
  · exact h
  split
  · rename_i a ha
    exact h.assign hfree leaf env (fun _ hne => update_of_ne hne _ _) rfl
      ⟨update_self _ _ _, a.leaf, ha⟩
  have hinv : ({ w with ns := w.ns.exec (.assignPidChain leaf pid env) }.goto t .idle).Inv :=
    h.assign hfree leaf env (fun _ _ => rfl) rfl trivial
  rwa [PidWorld.goto, ← ht, update_eq_self] at hinv

/-- A thread begins the teardown of a process and takes its chain over. -/
lemma Inv.teardown (hattached : (w.pcbs target).pidNsChain ≠ [])
    (hthread : ∀ w' : PidWorld, w'.Owned t (w.pcbs target).pid (w.pcbs target).pidNsChain →
      w'.ThreadOk t thread) :
    ({ w.setPcb target { w.pcbs target with exited := true, pidNsChain := [] } with
        owner := update w.owner (w.pcbs target).pid (some (.thread t)) }.goto t
      thread).Inv := by
  obtain ⟨hchain, howner, hmapped⟩ := (h.pcbs target).attached hattached
  set v : PidWorld := { w.setPcb target { w.pcbs target with exited := true, pidNsChain := [] } with
    owner := update w.owner (w.pcbs target).pid (some (.thread t)) }
  have hself : v.pcbs target = { w.pcbs target with exited := true, pidNsChain := [] } :=
    update_self _ _ _
  have hother : ∀ o, o ≠ target → v.pcbs o = w.pcbs o := fun o hne => update_of_ne hne _ _
  have hkept : ∀ o, (v.pcbs o).pid = (w.pcbs o).pid ∧ (v.pcbs o).chain = (w.pcbs o).chain ∧
      (ExitRequested (w.pcbs o) → ExitRequested (v.pcbs o)) := by
    intro o
    rcases eq_or_ne o target with rfl | hne
    · rw [hself]
      exact ⟨rfl, rfl, fun _ => .inr rfl⟩
    rw [hother o hne]
    exact ⟨rfl, rfl, id⟩
  have hin : ∀ ns o, InNamespace ns (v.pcbs o) ↔ InNamespace ns (w.pcbs o) := by
    intro ns o
    unfold InNamespace
    rw [(hkept o).2.1]
  -- a process that someone else owns is another one
  have hmoved : Moved w v (w.pcbs target).pid :=
    ⟨fun _ hne => update_of_ne hne _ _, fun _ _ => rfl⟩
  have hmine : ∀ x, x ≠ .pcb target → w.owner (w.pcbs target).pid = some x →
      w.ns.assigned (w.pcbs target).pid = none :=
    fun x hx ho => absurd (some.inj (ho.symm.trans howner)) hx
  refine h.advance { h.stays t with
    others := others_goto rfl fun t' _ => { Keeps.refl w t' with
      owned := fun _ _ ho => hmoved.keep (hmine _ nofun) ho.1 ho.2
      fewer := fun ns _ pid o ht hmem => ⟨ht, (hin ns o).mp hmem, (hkept o).2.2⟩ }
    self := self_goto (hthread v ⟨update_self _ _ _, hchain ▸ hmapped⟩)
    pcbs := fun o => ?_
    fresh := fun o hle => ?_
    table := fun pid o ht => ?_
    cascaded := fun _ _ hmem => .inl hmem
    posted := fun ns o hmem => ?_ }
  · rcases eq_or_ne o target with rfl | hne
    · have hok : v.PcbOk o := by
        constructor <;> simp [hself]
      exact ⟨hok.attached, hok.live⟩
    · have hok := (h.pcbs o).of_moved hmoved (hmine _ fun heq => hne (Owner.pcb.inj heq))
        (hother o hne)
      exact ⟨hok.attached, hok.live⟩
  · have hne : o ≠ target := by
      rintro rfl
      rw [h.fresh o hle] at hattached
      exact hattached rfl
    exact (hother o hne).trans (h.fresh o hle)
  · exact ⟨(hkept o).1.trans (h.table pid o ht), h.bounded pid o ht⟩
  · exact ⟨(h.posted ns o hmem).1, (hin ns o).mpr (h.posted ns o hmem).2⟩

lemma Inv.reap (pid : ℕ) : Inv { w with table := update w.table pid none } := by
  have hslot : ∀ pid' target, update w.table pid none pid' = some target →
      w.table pid' = some target := by
    intro pid' target ht
    rcases update_eq_some_iff.mp ht with ⟨-, ht⟩ | ⟨-, ht⟩
    · cases ht
    · exact ht
  have hkeeps : ∀ t', Keeps w { w with table := update w.table pid none } t' := fun t' =>
    { Keeps.refl w t' with fewer := fun _ _ pid' o ht hin => ⟨hslot pid' o ht, hin, id⟩ }
  exact h.advance { h.stays 0 with
    others := fun t' _ => ⟨rfl, hkeeps t'⟩
    self := (hkeeps 0).threadOk (h.threads 0)
    pcbs := fun o => (h.pcbs o).of_same rfl rfl rfl
    table := fun pid' target ht => h.slot pid' target (hslot pid' target ht)
    cascaded := fun _ _ hmem => .inl hmem }

lemma Inv.exec (e : Event) : (w.exec e).Inv := by
  cases e with
  | newChild parent env =>
    dsimp only [PidWorld.exec]
    split_ifs
    · exact h
    have hassigned := assigned_newChild h.ns parent env
    split
    · exact (h.nsEvent hassigned _ (h.threads 0)).1
    · exact (h.nsEvent hassigned w.registry (h.threads 0)).1
  | create t leaf pid env =>
    by_cases hidle : w.threads t = .idle
    · by_cases hfree : w.ns.assigned pid = none
      · exact h.create hidle leaf env hfree
      · dsimp only [PidWorld.exec]
        rw [hidle]
        rw [if_pos (.inr hfree)]
        exact h
    dsimp only [PidWorld.exec]
    split
    · exact absurd (by assumption) hidle
    · exact h
  | step t env => exact h.step t env
  | exit target =>
    refine h.setPcb (marked_exit _) fun hle => ?_
    rw [h.fresh target hle]
    rfl
  | kill => exact h.setPcb (marked_request _) h.request_fresh
  | teardown =>
    dsimp only [PidWorld.exec]
    split
    · split_ifs with hnil hlast
      · exact h
      · exact h.teardown hnil fun _ howned => howned
      · exact h.teardown hnil fun _ howned => howned
    · exact h
  | reap pid =>
    dsimp only [PidWorld.exec]
    split
    · split_ifs
      · exact h.reap pid
      · exact h
    · exact h

end Steps

/-- Under every interleaving of creators, of `new_child`, of exits and of cascades: after the last kill
of a cascade no process of the namespace is left without an exit request, and no other process got
one. -/
theorem noSurvivor_run_start (events : List Event) : NoSurvivor (start.run events) :=
  Inv.noSurvivor (foldlRecOn events exec Inv.start fun _ h e _ => h.exec e)

-- The init of a namespace, PID 7, dies while PID 8 lives there: one kill, then the cascade is over.
example :
    let go : Event := .step 0 ⟨false, false, fun _ => true⟩
    let child : PidNamespace := .child 1 .root
    let publish (pid : ℕ) : List Event :=
      [.create 0 child pid ⟨true, fun _ => (some 0, some 0)⟩, go, go, go]
    let w := start.run ([.newChild .root ⟨true, true⟩] ++ publish 7 ++ publish 8 ++
      [.teardown 0 0 true] ++ replicate 12 go)
    w.cascaded = [(child, 7)] ∧ w.table 8 = some 1 ∧ (w.pcbs 1).pendingKill = true ∧
      w.posted = [(child, 1)] := by
  decide +kernel

/-- A PCB in a namespace is what its PID there stands for. -/
lemma Inv.of_mem_chain {w : PidWorld} (h : w.Inv) {o : ℕ} {m : PidNamespaceMembership}
    (hm : m ∈ (w.pcbs o).pidNsChain) :
    (w.ns.cells m.ns).pidByNs.get m.pid = some (w.pcbs o).pid ∧
      w.owner (w.pcbs o).pid = some (.pcb o) := by
  obtain ⟨hchain, howner, leaf, hassigned⟩ := (h.pcbs o).attached (ne_nil_of_mem hm)
  exact ⟨(h.ns.inverse _ _ _).mpr (h.ns.mapped _ _ hassigned m (hchain ▸ hm)), howner⟩

/-- Under every interleaving, different processes have different PIDs in every namespace that sees
both, and a process that has not exited keeps its PIDs in all its namespaces. -/
theorem chains_disjoint (events : List Event) :
    let w := start.run events
    (Pairwise fun o o' => (w.pcbs o).pidNsChain.Disjoint (w.pcbs o').pidNsChain) ∧
      ∀ o, (w.pcbs o).exited = false → (w.pcbs o).pidNsChain = (w.pcbs o).chain := by
  intro w
  have h : w.Inv := foldlRecOn events exec Inv.start fun _ h e _ => h.exec e
  refine ⟨fun o o' hne m hm hm' => ?_, fun o ho => ((h.pcbs o).attached ((h.pcbs o).live ho)).1⟩
  obtain ⟨hpid, howner⟩ := h.of_mem_chain hm
  obtain ⟨hpid', howner'⟩ := h.of_mem_chain hm'
  rw [← some.inj (hpid.symm.trans hpid'), howner] at howner'
  exact hne (Owner.pcb.inj (some.inj howner'))

end PidWorld

end Nilix.Ns
