import Nilix.Cgroup.TaskInvariant

/-!
# Every step keeps the invariant of the task counters

A charge and a release change one
counter and the surplus of the caller alike; the insertion of a task turns the whole surplus of an
attach into a task of the subtrees, and a removal does the opposite.
-/

namespace Nilix.Cg

open Finset Function List Option

/-! ## Counters -/

/-- A charge that succeeds adds one and respects the limit. -/
lemma tryIncrementPids_eq_some {current next : ℕ} {limit : Option ℕ}
    (h : tryIncrementPids current limit = some next) :
    next = current + 1 ∧ ∀ max, limit = some max → next ≤ max := by
  unfold tryIncrementPids checkedAdd at h
  split_ifs at h
  · change (if limit.any (· < current + 1) then none else some (current + 1)) = some next at h
    split_ifs at h with hlimit
    cases h
    refine ⟨rfl, ?_⟩
    rintro max rfl
    simpa using hlimit
  · cases h

/-- A charge changes the counter and the charged list of the caller alike. -/
lemma update_succ_balance (f : Cgroup → ℕ) (n k : Cgroup) (tasks : ℕ) (charged : List Cgroup) :
    update f n (f n + 1) k + tasks + charged.count k = f k + tasks + (charged ++ [n]).count k := by
  rw [count_append]
  rcases eq_or_ne k n with rfl | hne
  · rw [update_self, count_singleton_self]
    omega
  rw [update_of_ne hne, count_singleton, if_neg]
  · rfl
  · simpa using hne.symm

/-- A release lowers one counter by one. -/
lemma update_decrement_apply {f : Cgroup → ℕ} {n : Cgroup} (hpos : 0 < f n) (k : Cgroup) :
    update f n (decrementPids (f n)) k + [n].count k = f k := by
  unfold decrementPids
  rcases eq_or_ne k n with rfl | hne
  · rw [update_self, count_singleton_self]
    omega
  rw [update_of_ne hne, count_singleton, if_neg]
  · rfl
  · simpa using hne.symm

namespace TaskWorld

variable {ι : Type*} [Fintype ι] [DecidableEq ι] {T : CgroupTree} {p : Population T}
  {w : TaskWorld ι} {t : ι}

/-! ## Attach and detach -/

variable {node : Cgroup} {task : TaskId}

/-- An attach takes the task set of a node that is not marked, and so registered. -/
lemma Inv.stepAttachLock (h : w.Inv T p) (env : StepEnv)
    (hphase : w.threads t = .attachLock node task) :
    (w.stepAttachLock t env node task).Inv T p := by
  have hok : node ∈ T.nodes := h.at_phase hphase
  unfold TaskWorld.stepAttachLock
  split_ifs with hlock hdel htask hfull hgrow hrefuse
  · exact h
  · exact h.goto hphase trivial rfl nofun
  · exact h.goto hphase trivial rfl nofun
  · exact h.goto hphase trivial rfl nofun
  · exact h.goto hphase trivial rfl nofun
  · exact h.goto hphase hok rfl nofun
  · have hfree := not_not.mp hlock
    have hreg : w.Registered node := by
      by_contra hnot
      exact hdel (h.shape.removed node hok hnot)
    refine h.quiet hphase ?_ ⟨⟨hok, hreg, update_self .., htask⟩, ?_⟩
      { h.shape with } rfl rfl
    · refine { Touches.idle w t with
        moved := rfl, lock := update_others fun u hu => ?_
        unclaimed := fun n hsealed hn => ?_ }
      · cases hfree.symm.trans hu
      · cases hn
        exact hdel hsealed.deleted
    · exact taskChain_eq (T.depth_le node hok)

variable {charged : List Cgroup}

/-- A charge raises the surplus of the attach; after the last one the task is there. -/
lemma Inv.stepAttachCharge (h : w.Inv T p) (env : StepEnv) {todo : List (Cgroup × Option ℕ)}
    (hphase : w.threads t = .attachCharge node task charged todo) :
    (w.stepAttachCharge t env node task charged todo).Inv T p := by
  obtain ⟨hatt, hchain⟩ := h.at_phase hphase
  cases todo with
  | cons entry =>
    obtain ⟨n, limit⟩ := entry
    dsimp only [TaskWorld.stepAttachCharge]
    split
    · exact h.goto hphase hatt.lock rfl nofun
    rename_i next hnext
    obtain ⟨rfl, -⟩ := tryIncrementPids_eq_some hnext
    refine h.advance hphase ?_ ⟨{ hatt with }, ?_⟩ { h.shape with } (fun k => ?_) h.placed
    · refine { Touches.idle w t with
        moved := rfl
        unclaimed := fun k hsealed hk => hsealed.unclaimed t ?_ }
      rw [hphase]
      exact hk
    · rw [append_assoc]
      exact hchain
    · exact update_succ_balance w.pidsCurrent n k _ charged
  | nil =>
    rw [map_nil, append_nil] at hchain
    dsimp only [TaskWorld.stepAttachCharge]
    split_ifs
    · exact h.goto hphase hatt.lock rfl nofun
    refine h.advance hphase ?_ trivial ?_ (fun k => ?_) fun other => ?_
    · refine { Touches.idle w t with
        moved := rfl, unclaimed := nofun
        lock := update_others fun u hu => ?_
        processes := fun n u hu hn => ?_
        stillEmpty := fun n hsealed => ?_ }
      · exact (some.inj (hatt.lock.symm.trans hu)).symm
      · refine update_of_ne ?_ _ _
        rintro rfl
        exact hu (some.inj (hn.symm.trans hatt.lock))
      · refine (update_of_ne ?_ _ _).trans hsealed.empty
        rintro rfl
        exact hsealed.unclaimed t (by rw [hphase]; rfl)
    · refine { h.shape with attached := fun n hn => ?_ }
      rcases eq_or_ne n node with rfl | hne
      · exact hatt.registered
      refine h.shape.attached n fun hempty => hn ?_
      exact (update_of_ne hne _ _).trans hempty
    · have hsum := subtreeTasks_insert hatt.mem hatt.absent k
      change w.pidsCurrent k + subtreeTasks T w.processes k + charged.count k =
        w.pidsCurrent k + subtreeTasks T (update w.processes node _) k + 0
      rw [hchain]
      omega
    · have hsum := placements_insert hatt.mem hatt.absent other
      have hplaced := h.placed other
      change placements T (update w.processes node _) other + w.detached other =
        placements T p.processes other + update w.attached task _ other
      rw [hsum]
      rcases eq_or_ne other task with rfl | hne
      · rw [update_self, if_pos rfl]
        omega
      rw [update_of_ne hne, if_neg hne]
      omega

/-- A removed task becomes the surplus of the detach. -/
lemma Inv.stepDetachLock (h : w.Inv T p) {chain : List Cgroup}
    (hphase : w.threads t = .detachLock node task chain) :
    (w.stepDetachLock t node task chain).Inv T p := by
  obtain ⟨hmem, rfl⟩ := h.at_phase hphase
  unfold TaskWorld.stepDetachLock
  split_ifs with hlock htask
  · exact h
  · have hfree := not_not.mp hlock
    refine h.advance hphase ?_ (update_self ..) ?_ (fun k => ?_) fun other => ?_
    · refine { Touches.idle w t with
        moved := rfl, unclaimed := nofun
        lock := update_others fun u hu => ?_
        processes := fun n u hu hn => ?_
        stillEmpty := fun n hsealed => ?_ }
      · cases hfree.symm.trans hu
      · refine update_of_ne ?_ _ _
        rintro rfl
        cases hfree.symm.trans hn
      · refine (update_of_ne ?_ _ _).trans hsealed.empty
        rintro rfl
        rw [hsealed.empty] at htask
        exact notMem_empty _ htask
    · refine { h.shape with attached := fun n hn => ?_ }
      rcases eq_or_ne n node with rfl | hne
      · exact h.shape.attached n (ne_empty_of_mem htask)
      refine h.shape.attached n fun hempty => hn ?_
      exact (update_of_ne hne _ _).trans hempty
    · have hsum := subtreeTasks_erase hmem htask k
      change w.pidsCurrent k + subtreeTasks T w.processes k + 0 =
        w.pidsCurrent k + subtreeTasks T (update w.processes node _) k + node.ancestry.count k
      omega
    · have hsum := placements_erase hmem htask other
      have hplaced := h.placed other
      change placements T (update w.processes node _) other +
        update w.detached task _ other = placements T p.processes other + w.attached other
      rcases eq_or_ne other task with rfl | hne
      · rw [update_self]
        rw [if_pos rfl] at hsum
        omega
      rw [update_of_ne hne]
      rw [if_neg hne] at hsum
      omega
  · exact h.goto hphase trivial rfl nofun

variable {n : Cgroup} {todo : List Cgroup} {old phase : TaskPhase}

/-- Lowering the next counter, for a caller whose surplus is the list of the counters to lower. -/
lemma Inv.release (h : w.Inv T p) (hphase : w.threads t = old)
    (hold : ∀ k, old.surplus k = (n :: todo).count k) (hnew : ∀ k, phase.surplus k = todo.count k)
    (hself : ((w.setPidsCurrent n (decrementPids (w.pidsCurrent n))).goto t phase).ThreadOk T t phase)
    (hclaim : ∀ k, phase.attaching ≠ some k) :
    ((w.setPidsCurrent n (decrementPids (w.pidsCurrent n))).goto t phase).Inv T p := by
  have hpos : 0 < w.pidsCurrent n := by
    apply h.pidsCurrent_pos hphase
    rw [hold, count_cons_self]
    exact Nat.succ_pos _
  refine h.advance hphase
    { Touches.idle w t with moved := rfl, unclaimed := fun k _ => hclaim k } hself
    { h.shape with } (fun k => ?_) h.placed
  have hlower := update_decrement_apply hpos k
  rw [hold, hnew, ← singleton_append, count_append]
  change update w.pidsCurrent n _ k + _ + _ = _
  change _ = w.pidsCurrent k + subtreeTasks T w.processes k + _
  omega

/-- The task set is unlocked when nothing is left to release. -/
lemma Inv.stepSettleNil (h : w.Inv T p) {result : Except CgroupError Unit}
    (hphase : w.threads t = .settle node [] result) :
    ((w.unlockProcesses node).goto t (.returned result)).Inv T p := by
  have hlock : w.processesLock node = some t := h.at_phase hphase
  refine h.quiet hphase { Touches.idle w t with moved := rfl, lock := update_others fun u hu => ?_ }
    trivial { h.shape with } rfl rfl
  exact (some.inj (hlock.symm.trans hu)).symm

/-! ## Migration -/

/-- The lookup of the two ends changes nothing but the place of the caller. -/
lemma Inv.stepMigrateLookup (h : w.Inv T p) {fromId toId : ℕ}
    (hphase : w.threads t = .migrateLookup task fromId toId) :
    (w.stepMigrateLookup t task fromId toId).Inv T p := by
  unfold TaskWorld.stepMigrateLookup
  split_ifs
  · exact h
  split
  · rename_i source target hsource htarget
    split_ifs with hdel hsame
    · exact h.goto hphase trivial rfl nofun
    · exact h
    · exact h.goto hphase trivial rfl nofun
    · exact h.goto hphase trivial rfl nofun
    · refine h.goto hphase ⟨?_, ?_, hsame⟩ rfl nofun
      · exact (h.shape.registry fromId source hsource).1
      · exact (h.shape.registry toId target htarget).1
  · exact h.goto hphase trivial rfl nofun

variable {m : Migration}

/-- A migration reads the registry while both of its ends are in it. -/
lemma Inv.stepMigrateValidate (h : w.Inv T p) (hphase : w.threads t = .migrateValidate m) :
    (w.stepMigrateValidate t m).Inv T p := by
  have hvalid : m.Valid T := h.at_phase hphase
  unfold TaskWorld.stepMigrateValidate
  split_ifs with hwriter hgone
  · exact h
  · exact h.goto hphase trivial rfl nofun
  · have hwriter := not_not.mp hwriter
    rw [not_or, not_or] at hgone
    refine h.quiet hphase
      { Touches.idle w t with
        moved := rfl, unclaimed := nofun
        readers := fun u _ hu => mem_insert_of_mem hu } ?_ ?_
      rfl rfl
    · refine ⟨hvalid, mem_insert_self _ _, ?_⟩
      rintro n (rfl | rfl)
      · exact not_not.mp hgone.1
      · exact not_not.mp hgone.2.1
    · exact { h.shape with exclusive := fun hne => absurd hwriter hne }

omit [Fintype ι] in
/-- The end of a reading leaves the registry. -/
lemma Shape.dropReader (h : w.Shape T) (t : ι) : (w.dropReader t).Shape T where
  __ := h
  exclusive hne := by
    change w.readers.erase t = ∅
    rw [h.exclusive hne, erase_empty]

omit [Fintype ι] [DecidableEq ι] in
/-- There is no writer beside a reader. -/
lemma Reading.writer_eq_none (hok : w.Reading T t m) (h : w.Shape T) : w.writer = none := by
  by_contra hne
  have hreader := hok.reader
  rw [h.exclusive hne] at hreader
  exact notMem_empty t hreader

/-- The first end is frozen if nobody else has frozen it. -/
lemma Inv.stepFreezeFirst (h : w.Inv T p) (hphase : w.threads t = .freezeFirst m) :
    (if w.membershipFrozen m.first ≠ none then
        (w.dropReader t).goto t (.returned (.error .busy))
      else (w.setFrozen m.first (some t)).goto t (.freezeSecond m)).Inv T p := by
  have hok : w.Reading T t m := h.at_phase hphase
  split_ifs with hfrozen
  · refine h.quiet hphase { Touches.idle w t with moved := rfl, readers := fun u hu hmem => ?_ }
      trivial { h.shape.dropReader t with } rfl rfl
    exact mem_erase.mpr ⟨hu, hmem⟩
  have hfree := not_not.mp hfrozen
  refine h.quiet hphase ?_ ⟨{ hok with }, update_self ..⟩ { h.shape with } rfl rfl
  refine { Touches.idle w t with
    moved := rfl, unclaimed := nofun
    frozen := update_others fun u hu => ?_
    thawed := fun hne => ?_ }
  · cases hfree.symm.trans hu
  · exact absurd (hok.writer_eq_none h.shape) hne

/-- With the second end frozen the reading can end. -/
lemma Inv.stepFreezeSecond (h : w.Inv T p) (hphase : w.threads t = .freezeSecond m) :
    (w.stepFreezeSecond t m).Inv T p := by
  obtain ⟨hok, hfirst⟩ := h.at_phase hphase
  unfold TaskWorld.stepFreezeSecond
  split_ifs with hfrozen
  · exact h.goto hphase ⟨{ hok with }, hfirst⟩ rfl nofun
  have hfree := not_not.mp hfrozen
  have hboth := hok.valid.update_second hfirst
  have htouch : ∀ {phase : TaskPhase}, (∀ n, phase.attaching ≠ some n) →
      Touches w (((w.setFrozen m.second (some t)).dropReader t).goto t phase) t phase := by
    intro phase hclaim
    refine { Touches.idle w t with
      moved := rfl, unclaimed := fun n _ => hclaim n
      frozen := update_others fun u hu => ?_
      readers := fun u hu hmem => ?_, thawed := fun hne => ?_ }
    · cases hfree.symm.trans hu
    · exact mem_erase.mpr ⟨hu, hmem⟩
    · exact absurd (hok.writer_eq_none h.shape) hne
  have hshape := h.shape.dropReader t
  split
  · rename_i x hx
    exact h.quiet hphase (htouch nofun) ⟨⟨hok.valid, hboth, hok.registered⟩, hx⟩
      { hshape with } rfl rfl
  exact h.quiet hphase (htouch nofun) ⟨hok.valid, hboth, hok.registered⟩
    { hshape with } rfl rfl

/-- What is not frozen is not frozen by a thaw. -/
lemma update_none_apply {ι : Type*} {f : Cgroup → Option ι} (n : Cgroup) {k : Cgroup}
    (hk : f k = none) : update f n none k = none := by
  rcases eq_or_ne k n with rfl | hne
  · rw [update_self]
  rw [update_of_ne hne]
  exact hk

omit [Fintype ι] in
/-- A caller may thaw what it has frozen. -/
lemma Touches.thaw (hown : w.membershipFrozen n = some t) (hclaim : ∀ k, phase.attaching ≠ some k) :
    Touches w ((w.setFrozen n none).goto t phase) t phase := by
  refine { Touches.idle w t with
    moved := rfl, unclaimed := fun k _ => hclaim k
    frozen := update_others fun u hu => ?_
    thawed := fun _ k => update_none_apply n }
  exact (some.inj (hown.symm.trans hu)).symm

/-- The first freeze is taken back when the second end is busy. -/
lemma Inv.stepFreezeUndo (h : w.Inv T p) (hphase : w.threads t = .freezeUndo m) :
    (((w.setFrozen m.first none).dropReader t).goto t (.returned (.error .busy))).Inv T p := by
  obtain ⟨hok, hfirst⟩ := h.at_phase hphase
  have hthaw : Touches w _ t (.returned (.error .busy)) := Touches.thaw hfirst nofun
  refine h.quiet hphase ?_ trivial { h.shape.dropReader t with } rfl rfl
  exact { hthaw with moved := rfl, readers := fun u hu hmem => mem_erase.mpr ⟨hu, hmem⟩ }

omit [Fintype ι] in
/-- A caller may take a task set that nobody holds. -/
lemma Touches.takeLock (hfree : w.processesLock n = none) (hclaim : ∀ k, phase.attaching ≠ some k) :
    Touches w ((w.lockProcesses t n).goto t phase) t phase := by
  refine { Touches.idle w t with
    moved := rfl, unclaimed := fun k _ => hclaim k
    lock := update_others fun u hu => ?_ }
  cases hfree.symm.trans hu

variable {x : ExclusiveChains}

/-- A migration waits for its first task set. -/
lemma Inv.stepLockFirst (h : w.Inv T p) (hphase : w.threads t = .lockFirst m x) :
    (if w.processesLock m.first ≠ none then w
      else (w.lockProcesses t m.first).goto t (.lockSecond m x)).Inv T p := by
  obtain ⟨hok, hx⟩ := h.at_phase hphase
  split_ifs with hlock
  · exact h
  exact h.quiet hphase (Touches.takeLock (not_not.mp hlock) nofun)
    ⟨{ hok with }, hx, update_self ..⟩ { h.shape with } rfl rfl

/-- With both task sets it has to find the task at the source only. -/
lemma Inv.stepLockSecond (h : w.Inv T p) (env : StepEnv) (hphase : w.threads t = .lockSecond m x) :
    (w.stepLockSecond t env m x).Inv T p := by
  obtain ⟨hok, hx, hfirst⟩ := h.at_phase hphase
  unfold TaskWorld.stepLockSecond
  split_ifs with hlock hpresent habsent hfull hgrow
  · exact h
  all_goals
    have hfree := not_not.mp hlock
    have hboth := hok.valid.update_second hfirst
    refine h.quiet hphase (Touches.takeLock hfree nofun) ?_ { h.shape with } rfl rfl
  · exact ⟨{ hok with }, hboth, nofun⟩
  · exact ⟨{ hok with }, hboth, nofun⟩
  · exact ⟨{ hok with }, hboth, nofun⟩
  · exact ⟨{ toFrozen := { hok with }, exclusive := hx, lock := hboth, present := hpresent,
             absent := habsent }, rfl⟩
  · exact ⟨{ hok with }, hboth, nofun⟩

omit [Fintype ι] [DecidableEq ι] in
/-- The chains of a migration are cut at the lowest common ancestor. -/
lemma Moving.splits (hok : w.Moving T t m x) : ∃ common, x.Splits m common :=
  Migration.exclusive_splits (T.depth_le _ hok.valid.source) (T.depth_le _ hok.valid.target)
    hok.exclusive

/-- A failed migration has yet to release what it has charged. -/
lemma Inv.giveBack (h : w.Inv T p) (hphase : w.threads t = old)
    (hsurplus : old.surplus = (charged.count ·)) (hok : w.Moving T t m x)
    (hchain : charged ++ todo = x.target) (e : CgroupError) :
    (w.goto t (.settleMove m charged (.failed e))).Inv T p := by
  obtain ⟨common, hsplit⟩ := hok.splits
  refine h.goto hphase ⟨{ hok.toFrozen with }, hok.lock, fun n hn hboth => ?_⟩
    hsurplus.symm nofun
  refine hsplit.target_not_mem n ?_ hboth.1
  rw [← hchain]
  exact mem_append_left _ hn

/-- The processes after a migration has moved its task. -/
def moved (m : Migration) (processes : Cgroup → Finset TaskId) : Cgroup → Finset TaskId :=
  update (update processes m.source ((processes m.source).erase m.task)) m.target
    (insert m.task (processes m.target))

/-- A moved task changes the subtrees on the two exclusive chains only. -/
lemma count_moved {common : List Cgroup} {processes : Cgroup → Finset TaskId} (hvalid : m.Valid T)
    (hsplit : x.Splits m common) (hpresent : m.task ∈ processes m.source)
    (habsent : m.task ∉ processes m.target) (k : Cgroup) :
    subtreeTasks T (moved m processes) k + x.source.count k =
      subtreeTasks T processes k + x.target.count k := by
  have herase := subtreeTasks_erase hvalid.source hpresent k
  have htarget : update processes m.source ((processes m.source).erase m.task) m.target =
      processes m.target := update_of_ne hvalid.ne.symm _ _
  have hinsert := subtreeTasks_insert hvalid.target (htarget ▸ habsent) k
  rw [htarget] at hinsert
  rw [moved, hinsert, hsplit.target, count_append]
  rw [hsplit.source, count_append] at herase
  omega

/-- Moving a task changes its place, not the number of places. -/
lemma placements_moved {processes : Cgroup → Finset TaskId} (hvalid : m.Valid T)
    (hpresent : m.task ∈ processes m.source) (habsent : m.task ∉ processes m.target)
    (other : TaskId) : placements T (moved m processes) other = placements T processes other := by
  have herase := placements_erase hvalid.source hpresent other
  have htarget : update processes m.source ((processes m.source).erase m.task) m.target =
      processes m.target := update_of_ne hvalid.ne.symm _ _
  have hinsert := placements_insert hvalid.target (htarget ▸ habsent) other
  rw [htarget] at hinsert
  rw [moved, hinsert, herase]

/-- The next limit is read, or the chain is charged and the task moves. -/
lemma Inv.stepReserveLimit (h : w.Inv T p) (env : StepEnv)
    (hphase : w.threads t = .reserveLimit m x charged todo) :
    (w.stepReserveLimit T t env m x charged todo).Inv T p := by
  obtain ⟨hok, hchain⟩ := h.at_phase hphase
  cases todo with
  | cons => exact h.goto hphase ⟨{ hok with }, hchain⟩ rfl nofun
  | nil =>
    dsimp only [TaskWorld.stepReserveLimit]
    split_ifs
    · exact h.giveBack hphase rfl hok hchain _
    obtain ⟨common, hsplit⟩ := hok.splits
    -- a node that is not one of the two ends keeps its task set
    have hkeep : ∀ n, ¬ m.IsEnd n → moved m w.processes n = w.processes n := by
      intro n hn
      rw [moved, update_of_ne fun he => hn (.inr he), update_of_ne fun he => hn (.inl he)]
    refine h.advance hphase ?_ ⟨{ hok.toFrozen with }, hok.lock, fun n hn hboth => ?_⟩ ?_
      (fun k => ?_) fun other => ?_
    · refine { Touches.idle w t with
        moved := rfl, unclaimed := nofun
        processes := fun n u hu hn => hkeep n fun hend => ?_
        stillEmpty := fun n hsealed => ?_ }
      · exact hu (some.inj (hn.symm.trans (hok.lock n hend)))
      · refine (hkeep n fun hend => ?_).trans hsealed.empty
        cases hsealed.thawed.symm.trans (hok.frozen n hend)
    · exact hsplit.source_not_mem n hn hboth.2
    · refine { h.shape with attached := fun n hn => ?_ }
      by_cases hend : m.IsEnd n
      · exact hok.registered n hend
      · exact h.shape.attached n fun hempty => hn ((hkeep n hend).trans hempty)
    · have hmoved := count_moved hok.valid hsplit hok.present hok.absent k
      rw [append_nil] at hchain
      rw [← hchain] at hmoved
      exact (add_assoc _ _ _).trans ((congrArg _ hmoved.symm).trans (add_assoc _ _ _).symm)
    · exact (congrArg (· + w.detached other)
        (placements_moved hok.valid hok.present hok.absent other)).trans (h.placed other)

/-- A charge of a migration raises its surplus. -/
lemma Inv.stepReserve (h : w.Inv T p) {limit : Option ℕ}
    (hphase : w.threads t = .reserve m x charged n limit todo) :
    (w.stepReserve t m x charged n limit todo).Inv T p := by
  obtain ⟨hok, hchain⟩ := h.at_phase hphase
  unfold TaskWorld.stepReserve
  split
  · exact h.giveBack hphase rfl hok hchain _
  rename_i next hnext
  obtain ⟨rfl, -⟩ := tryIncrementPids_eq_some hnext
  refine h.advance hphase { Touches.idle w t with moved := rfl, unclaimed := nofun }
    ⟨{ hok with }, ?_⟩ { h.shape with } (fun k => ?_) h.placed
  · rw [append_assoc]
    exact hchain
  · exact update_succ_balance w.pidsCurrent n k _ charged

variable {outcome : MigrationOutcome}

/-- Both task sets are unlocked when nothing is left to release. -/
lemma Inv.stepSettleMoveNil (h : w.Inv T p) (hphase : w.threads t = .settleMove m [] outcome) :
    (((w.unlockProcesses m.source).unlockProcesses m.target).goto t
      (.thawSecond m outcome)).Inv T p := by
  obtain ⟨hok, hlock, -⟩ := h.at_phase hphase
  have hown : ∀ n, m.IsEnd n → ∀ u, w.processesLock n = some u → u = t := fun n hn u hu =>
    (some.inj ((hlock n hn).symm.trans hu)).symm
  refine h.quiet hphase
    { Touches.idle w t with
      moved := rfl, unclaimed := nofun
      lock := fun n u hu hn => ?_ }
    { hok with } { h.shape with } rfl rfl
  have hfirst := update_others (hown m.source (.inl rfl)) (o := none) n u hu hn
  refine update_others (fun v hv => ?_) n u hu hfirst
  -- the source lock was dropped, so the target lock is still our own
  exact hown m.target (.inr rfl) v ((update_of_ne hok.valid.ne.symm _ _).symm.trans hv)

/-- The ends are thawed in the opposite order. -/
lemma Inv.stepThawSecond (h : w.Inv T p) (hphase : w.threads t = .thawSecond m outcome) :
    ((w.setFrozen m.second none).goto t (.thawFirst m outcome)).Inv T p := by
  have hok : w.Frozen T t m := h.at_phase hphase
  have hown := hok.frozen m.second (Migration.isEnd_iff.mpr (.inr rfl))
  refine h.quiet hphase (Touches.thaw hown nofun) ⟨hok.valid, ?_⟩
    { h.shape with } rfl rfl
  change update w.membershipFrozen m.second none m.first = some t
  rw [update_of_ne hok.valid.second_ne_first.symm]
  exact hok.frozen m.first (Migration.isEnd_iff.mpr (.inl rfl))

/-- After the second thaw the migration returns or tries again. -/
lemma Inv.stepThawFirst (h : w.Inv T p) (env : StepEnv)
    (hphase : w.threads t = .thawFirst m outcome) :
    ((w.setFrozen m.first none).goto t (afterThaw env m outcome)).Inv T p := by
  obtain ⟨hvalid, hown⟩ := h.at_phase hphase
  have hquiet : ∀ {phase : TaskPhase}, (∀ k, phase.attaching ≠ some k) →
      ((w.setFrozen m.first none).goto t phase).ThreadOk T t phase → phase.surplus = 0 →
      ((w.setFrozen m.first none).goto t phase).Inv T p := fun hclaim hself hzero =>
    h.quiet hphase (Touches.thaw hown hclaim) hself { h.shape with } hzero rfl
  unfold afterThaw
  split
  · split_ifs
    · exact hquiet nofun trivial rfl
    · exact hquiet nofun hvalid rfl
  · exact hquiet nofun trivial rfl
  · exact hquiet nofun trivial rfl

/-! ## Deletion -/

omit [Fintype ι] [DecidableEq ι] in
/-- There is one writer. -/
lemma Deleting.not_other (hok : w.Deleting t node) {u : ι} (hu : u ≠ t) : w.writer ≠ some u := by
  intro hwriter
  exact hu (some.inj (hwriter.symm.trans hok.writer))

/-- A deletion takes the registry when there is neither reader nor writer. -/
lemma Inv.stepDeleteLock (h : w.Inv T p) {id : ℕ} (hphase : w.threads t = .deleteLock id) :
    (w.stepDeleteLock t id).Inv T p := by
  unfold TaskWorld.stepDeleteLock
  split_ifs with hheld
  · exact h
  rw [not_or, not_not, not_not] at hheld
  split
  · exact h.goto hphase trivial rfl nofun
  rename_i node hnode
  refine h.quiet hphase
    { Touches.idle w t with
      moved := rfl, unclaimed := nofun
      writer := fun u _ hu => ?_ } ⟨rfl, ?_⟩
    { h.shape with exclusive := fun _ => hheld.2 } rfl rfl
  · cases hheld.1.symm.trans hu
  change w.registry node.id = some node
  rw [(h.shape.registry id node hnode).2]
  exact hnode

/-- A frozen node is not deleted. -/
lemma Inv.stepDeleteFrozen (h : w.Inv T p) (hphase : w.threads t = .deleteFrozen node) :
    (if w.membershipFrozen node ≠ none then w.dropWriter.goto t (.returned (.error .notEmpty))
      else w.goto t (.deleteMark node)).Inv T p := by
  have hok : w.Deleting t node := h.at_phase hphase
  split_ifs with hfrozen
  · exact h.quiet hphase
      { Touches.idle w t with
        moved := rfl
        writer := fun u hu hwriter => absurd hwriter (hok.not_other hu) }
      trivial { h.shape with exclusive := fun hne => absurd rfl hne }
      rfl rfl
  · exact h.goto hphase ⟨{ hok with }, not_not.mp hfrozen⟩ rfl nofun

/-- Only the writer marks a node, and no migration has it. -/
lemma Inv.stepDeleteMark (h : w.Inv T p) (hphase : w.threads t = .deleteMark node) :
    ((w.setDeleted node true).goto t (.deleteChildren node)).Inv T p := by
  obtain ⟨hok, hthawed⟩ := h.at_phase hphase
  refine h.quiet hphase
    { Touches.idle w t with
      moved := rfl, unclaimed := nofun
      deleted := fun u hu hwriter => absurd hwriter (hok.not_other hu) }
    ⟨{ hok with }, hthawed, update_self ..⟩
    ⟨h.shape.registry, h.shape.attached, fun n hn hgone => ?_, h.shape.exclusive⟩ rfl rfl
  change update w.deleted node true n = true
  rcases eq_or_ne n node with rfl | hne
  · rw [update_self]
  rw [update_of_ne hne]
  exact h.shape.removed n hn hgone

omit [DecidableEq ι] in
/-- An attach in progress holds the task set of its node. -/
lemma Inv.lock_of_attaching (h : w.Inv T p) (hn : (w.threads t).attaching = some n) :
    w.processesLock n = some t := by
  have hok := h.threads t
  cases hphase : w.threads t <;> rw [hphase] at hok hn <;> cases hn
  case attachLimits | attachCharge => exact hok.1.lock

omit [Fintype ι] in
/-- A node stays sealed when a caller moves to a phase that attaches nothing. -/
lemma Sealed.goto (h : w.Sealed n) (hphase : ∀ k, phase.attaching ≠ some k) :
    (w.goto t phase).Sealed n where
  __ := h
  unclaimed u := by
    change (update w.threads t phase u).attaching ≠ some n
    rcases eq_or_ne u t with rfl | hu
    · rw [update_self]
      exact hphase n
    rw [update_of_ne hu]
    exact h.unclaimed u

section

variable (h : w.Inv T p)
include h

/-- A marked node without tasks and without an attach is sealed. -/
lemma Inv.stepDeleteProcesses (hphase : w.threads t = .deleteProcesses node) :
    (if w.processesLock node ≠ none then w
      else if w.processes node ≠ ∅ then w.goto t (.deleteUnmark node .notEmpty)
      else w.goto t (.deletePinned node)).Inv T p := by
  obtain ⟨hok, hthawed, hdeleted⟩ := h.at_phase hphase
  split_ifs with hlock hempty
  · exact h
  · exact h.goto hphase { hok with } rfl nofun
  · have hsealed : w.Sealed node := by
      refine ⟨hdeleted, not_not.mp hempty, hthawed, fun u hu => ?_⟩
      cases (not_not.mp hlock).symm.trans (h.lock_of_attaching hu)
    exact h.goto hphase ⟨{ hok with }, hsealed.goto nofun⟩ rfl nofun

/-- A sealed node can leave the registry, since nobody relies on it. -/
lemma Inv.unlink (hphase : w.threads t = old) (hzero : old.surplus = 0) (hok : w.Deleting t node)
    (hsealed : w.Sealed node) (children : Cgroup → Finset ℕ) :
    ({ w with
      children := children
      registry := update w.registry node.id none
      writer := none }.goto t (.returned (.ok ()))).Inv T p := by
  have hkeep : ∀ n, w.Registered n → n ≠ node → update w.registry node.id none n.id = some n := by
    intro n hn hne
    rw [update_of_ne]
    · exact hn
    intro hid
    unfold Registered at hn
    rw [hid, hok.registered] at hn
    exact hne (some.inj hn).symm
  refine h.quiet hphase ?_ trivial ⟨fun id n hn => ?_, fun n hn => ?_, fun n hn hgone => ?_, ?_⟩
    hzero.symm rfl
  · refine { Touches.idle w t with
      moved := rfl
      writer := fun u hu hwriter => absurd hwriter (hok.not_other hu)
      registered := fun n hn => ?_ }
    rcases eq_or_ne n node with rfl | hne
    · exact .inr ⟨hok.writer, hsealed⟩
    · exact .inl (hkeep n hn hne)
  · change update w.registry node.id none id = some n at hn
    rcases eq_or_ne id node.id with rfl | hne
    · rw [update_self] at hn
      cases hn
    rw [update_of_ne hne] at hn
    exact h.shape.registry id n hn
  · refine hkeep n (h.shape.attached n hn) ?_
    rintro rfl
    exact hn hsealed.empty
  · rcases eq_or_ne n node with rfl | hne
    · exact hsealed.deleted
    · exact h.shape.removed n hn fun hreg => hgone (hkeep n hreg hne)
  · exact fun hne => absurd rfl hne

/-- The last step of a deletion. -/
lemma Inv.stepDeleteUnlink (hphase : w.threads t = .deleteUnlink node) :
    (w.stepDeleteUnlink t node).Inv T p := by
  obtain ⟨hok, hsealed⟩ := h.at_phase hphase
  unfold TaskWorld.stepDeleteUnlink
  split
  · exact h.goto hphase { hok with } rfl nofun
  split_ifs
  · exact h.goto hphase { hok with } rfl nofun
  · exact h.unlink hphase rfl hok hsealed _

/-- A deletion that fails takes its mark back. -/
lemma Inv.stepDeleteUnmark {error : CgroupError} (hphase : w.threads t = .deleteUnmark node error) :
    ((w.setDeleted node false).dropWriter.goto t (.returned (.error error))).Inv T p := by
  have hok : w.Deleting t node := h.at_phase hphase
  refine h.quiet hphase ?_ trivial
    ⟨h.shape.registry, h.shape.attached, fun n hn hgone => ?_, fun hne => absurd rfl hne⟩
    rfl rfl
  · exact { Touches.idle w t with
      moved := rfl
      writer := fun u hu hwriter => absurd hwriter (hok.not_other hu)
      deleted := fun u hu hwriter => absurd hwriter (hok.not_other hu) }
  change update w.deleted node false n = true
  rw [update_of_ne]
  · exact h.shape.removed n hn hgone
  rintro rfl
  exact hgone hok.registered

/-! ## Steps and runs -/

/-- Every step of a caller keeps the invariant. -/
lemma Inv.step (t : ι) (env : StepEnv) : (w.step T t env).Inv T p := by
  unfold TaskWorld.step
  split <;> rename_i hphase
  · exact h
  · have hmem : _ ∈ T.nodes := h.at_phase hphase
    split_ifs
    · exact h.goto hphase trivial rfl nofun
    · exact h.goto hphase hmem rfl nofun
  · exact h.stepAttachLock env hphase
  · obtain ⟨hatt, hchain⟩ := h.at_phase hphase
    refine h.goto hphase ⟨{ hatt with }, ?_⟩ rfl fun _ hn => hn
    rw [map_append, append_assoc]
    exact hchain
  · obtain ⟨hatt, hchain⟩ := h.at_phase hphase
    rw [append_nil] at hchain
    exact h.goto hphase ⟨{ hatt with }, hchain⟩ rfl fun _ hn => hn
  · exact h.stepAttachCharge env hphase
  · exact h.stepDetachLock hphase
  · have hlock := h.at_phase hphase
    exact h.release hphase (fun _ => rfl) (fun _ => rfl) hlock nofun
  · exact h.stepSettleNil hphase
  · exact h.stepMigrateLookup hphase
  · exact h.stepMigrateValidate hphase
  · exact h.stepFreezeFirst hphase
  · exact h.stepFreezeSecond hphase
  · exact h.stepFreezeUndo hphase
  · exact h.stepLockFirst hphase
  · exact h.stepLockSecond env hphase
  · exact h.stepReserveLimit env hphase
  · exact h.stepReserve hphase
  · obtain ⟨hok, hlock, hexcl⟩ := h.at_phase hphase
    refine h.release hphase (fun _ => rfl) (fun _ => rfl) ⟨{ hok with }, hlock, fun n hn => ?_⟩
      nofun
    exact hexcl n (mem_cons_of_mem _ hn)
  · exact h.stepSettleMoveNil hphase
  · exact h.stepThawSecond hphase
  · exact h.stepThawFirst env hphase
  · exact h.stepDeleteLock hphase
  · exact h.stepDeleteFrozen hphase
  · exact h.stepDeleteMark hphase
  · obtain ⟨hok, hthawed, hdeleted⟩ := h.at_phase hphase
    split_ifs
    · exact h.goto hphase { hok with } rfl nofun
    · exact h.goto hphase ⟨{ hok with }, hthawed, hdeleted⟩ rfl nofun
  · exact h.stepDeleteProcesses hphase
  · obtain ⟨hok, hsealed⟩ := h.at_phase hphase
    split_ifs
    · exact h.goto hphase { hok with } rfl nofun
    · exact h.goto hphase ⟨{ hok with }, hsealed.goto nofun⟩ rfl nofun
  · exact h.stepDeleteUnlink hphase
  · exact h.stepDeleteUnmark hphase

/-- So does the beginning of a call, -/
lemma Inv.begin (hself : (w.goto t phase).ThreadOk T t phase) (hzero : phase.surplus = 0)
    (hclaim : ∀ k, phase.attaching ≠ some k) : (w.begin t phase).Inv T p := by
  unfold TaskWorld.begin
  split
  · rename_i hphase
    exact h.goto hphase hself hzero fun k hk => absurd hk (hclaim k)
  · exact h

end

omit [Fintype ι] [DecidableEq ι] in
/-- No caller relies on the limits. -/
lemma ThreadOk.setPidsMax {limits : Cgroup → Option ℕ} (hok : w.ThreadOk T t phase) :
    { w with pidsMax := limits }.ThreadOk T t phase := by
  cases phase
  case returned | migrateLookup | deleteLock => trivial
  case attachTop | attachLock | detachLock | migrateValidate | settle | thawFirst => exact hok
  case attachLimits | attachCharge => exact ⟨{ hok.1 with }, hok.2⟩
  case freezeFirst => exact { hok with }
  case freezeSecond | freezeUndo | lockFirst | lockSecond | settleMove | reserveLimit | reserve =>
    exact ⟨{ hok.1 with }, hok.2⟩
  case thawSecond | deleteFrozen | deleteUnmark => exact { hok with }
  case deleteMark | deleteChildren | deleteProcesses => exact ⟨{ hok.1 with }, hok.2⟩
  case deletePinned | deleteUnlink =>
    exact ⟨{ hok.1 with }, { hok.2 with }⟩

/-- and so does every event. -/
lemma Inv.exec (h : w.Inv T p) (event : Event ι) : (w.exec T event).Inv T p := by
  cases event with
  | attachTask =>
    dsimp only [TaskWorld.exec]
    split_ifs with hmem
    · exact h.begin hmem rfl nofun
    · exact h
  | detachTask t node =>
    dsimp only [TaskWorld.exec]
    split_ifs with hmem
    · exact h.begin ⟨hmem, taskChain_eq (T.depth_le node hmem)⟩ rfl nofun
    · exact h
  | migrateTask => exact h.begin trivial rfl nofun
  | deleteCgroup =>
    dsimp only [TaskWorld.exec]
    split_ifs <;> exact h.begin trivial rfl nofun
  | step t env => exact h.step t env
  | setPidsMax =>
    exact ⟨{ h.shape with }, fun t => (h.threads t).setPidsMax, h.balanced, h.placed⟩

/-- The invariant holds in every reached world. -/
lemma Inv.run (h : w.Inv T p) (events : List (Event ι)) : (w.run T events).Inv T p :=
  foldlRecOn events (TaskWorld.exec T) h fun _ h e _ => h.exec e

end TaskWorld

end Nilix.Cg
