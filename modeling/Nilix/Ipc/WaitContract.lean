import Nilix.Ipc.WaitProtocol

/-!
# A finished wait and its queue entry

When `finish_wait` or `finish_prepared` returns, the entry of the task should be gone, for otherwise a
later `wake_one` takes the stale entry and readies a task that waits elsewhere by then.

The entry is gone if a waker took it.  A task that a sender readied takes the entry back itself, but
only when its final check finds a reason to: the sender readies a task for *any* deliverable signal
of the task or its group (`pendingBits`), and the check counts a group signal only for the member that
was chosen for it (`waitPendingBits`); or a later `SIGCONT` discards the stop signal it was readied for.
So the contract holds in exactly the runs in which every final check of a task that is still queued
finds its reason.
-/

namespace Nilix.Ipc

open Function List

/-! ## What a sender readies a task for -/

namespace Process

/-- What a sender readies a blocked task for: the task is to abort its wait, or some signal of the task
or its group is deliverable, for whichever member it was chosen. -/
def Roused (p : Process × ThreadGroup) : Prop :=
  p.1.waitAbortLocked = true ∨ signalIsDeliverable (p.1.pendingBits p.2) p.1.blocked
    p.1.inSignalHandler p.1.sigactions = true

lemma roused_of_actOnDisposition {signal : Signal} {p : Process × ThreadGroup}
    (hblocked : p.1.state = .blocked) (hready : (actOnDisposition signal p).1.1.state ≠ .blocked) :
    Roused (actOnDisposition signal p).1 := by
  unfold actOnDisposition at hready ⊢
  cases hdisposition : resolveDisposition p.1.sigactions signal with
  | handler =>
    rw [hdisposition] at hready
    dsimp only at hready ⊢
    split_ifs at hready ⊢ with hwake
    · simp only [Bool.and_eq_true] at hwake
      exact .inr hwake.1.1
    · exact absurd hblocked hready
  | ignored =>
    rw [hdisposition] at hready
    exact absurd hblocked hready
  | default action =>
    rw [hdisposition] at hready
    dsimp only at hready ⊢
    split at hready
    · exact absurd hblocked hready
    rename_i hmasked
    rw [if_neg hmasked]
    cases action with
    | terminate =>
      left
      simp [requestProcessExitLocked, hblocked, waitAbortLocked, enterReady]
    | stop =>
      unfold tryMarkJobControlStoppedLocked at hready
      dsimp only at hready
      split_ifs at hready <;> exact absurd hblocked hready
    | «continue» | ignore => exact absurd hblocked hready

/-- A sender of a signal other than `SIGCONT` readies a blocked task only if it is roused.  The final
check of the task counts less: it fails if the deliverable signals are all chosen for other members. -/
lemma roused_of_sendSignalInner {scope : SignalScope} {signal : Signal} {proc : Process}
    {group : ThreadGroup} (hcont : signal.isContinue = false) (hblocked : proc.state = .blocked)
    (hready : (sendSignalInner scope signal proc group).1.1.state ≠ .blocked) :
    Roused (sendSignalInner scope signal proc group).1 := by
  have hqueue : (queueSignal scope signal (proc, group)).1.state = .blocked := by
    cases scope <;> exact hblocked
  have hqueued : (discardOpposite signal (queueSignal scope signal (proc, group))).1.state =
      .blocked := by
    unfold discardOpposite
    rw [if_neg (Bool.not_eq_true _ ▸ hcont)]
    split_ifs
    · exact hqueue
    · exact hqueue
  have hroused : _ → Roused (actOnDisposition signal _).1 := roused_of_actOnDisposition hqueued
  unfold sendSignalInner at hready ⊢
  rw [if_neg (by simp [hblocked])] at hready ⊢
  simp only [hcont, Bool.false_eq_true, if_false] at hready ⊢
  split_ifs at hready ⊢ <;> exact hroused hready

lemma waitPendingBits_discardPending (signal : Signal) (p : Process × ThreadGroup) :
    (discardPending signal p).1.waitPendingBits (discardPending signal p).2 =
      p.1.waitPendingBits p.2 &&& ~~~signal.bit := by
  unfold waitPendingBits discardPending
  dsimp only
  apply UInt64.toBitVec_inj.mp
  ext i
  simp only [UInt64.toBitVec_or, UInt64.toBitVec_and, BitVec.getElem_or, BitVec.getElem_and]
  rw [Bool.and_or_distrib_right, Bool.and_right_comm]

/-- A signal that continues takes every stop signal away from the waits of the task.  The final check of
a task that was readied for a caught one fails if there is no other. -/
lemma waitPendingBits_discardOpposite {signal : Signal} {p : Process × ThreadGroup}
    (hcont : signal.isContinue = true) :
    (discardOpposite signal p).1.waitPendingBits (discardOpposite signal p).2 =
      p.1.waitPendingBits p.2 &&& ~~~Signal.sigstop.bit &&& ~~~Signal.sigtstp.bit &&&
        ~~~Signal.sigttin.bit &&& ~~~Signal.sigttou.bit := by
  unfold discardOpposite
  rw [if_pos hcont, waitPendingBits_discardPending, waitPendingBits_discardPending,
    waitPendingBits_discardPending, waitPendingBits_discardPending]

end Process

namespace WaitWorld

/-! ## The contract -/

/-- No task has an entry outside its waits, and `wake_one` wakes a task that is in a wait. -/
structure WaitContract (w : WaitWorld) : Prop where
  /-- A task that is not in a wait, because it returned or never began one, is not queued. -/
  finished : ∀ pid, w.phase pid = .idle → ¬ w.Queued pid
  /-- A wake is not spent on a task that no longer waits here. -/
  wake : ∀ pid, (wakeOne w.proc w.waiters).1 = some pid → w.phase pid ≠ .idle

/-- The final check of a task that is still queued finds its reason: a signal for `finish_wait`, the
timeout of this wait for `finish_prepared` (which has asked for signals before). -/
def Guarded (w : WaitWorld) : Event → Prop
  | .step pid =>
    match w.phase pid with
    | .checkSignal .plain => w.Queued pid → w.hasDeliverableSignal pid = true
    | .checkTimeout ticket => w.Queued pid →
      consumeTimeoutMarker (w.proc pid).wqTimeoutMarker ticket.generation = true
    | _ => True
  | _ => True

/-! ## The queue invariant -/

/-- The stamps an entry of a wait can have. -/
def Owns : Wait → UInt64 → Prop
  | .plain, _ => True
  | .prepared ticket, stamp => stamp = ticket.generation

/-- The stamps an entry of a task can have in a phase. -/
def PhaseOwns : WaitPhase → UInt64 → Prop
  | .idle, _ | .preparing _, _ | .arming _, _ | .consumeInterrupted _, _ => False
  | .armed wait, stamp | .loopState wait, stamp | .loopAbort wait, stamp
  | .loopSignal wait, stamp | .checkAbort wait, stamp | .checkSignal wait, stamp => Owns wait stamp
  | .cancelling, _ => True
  | .cancelTimer ticket _, stamp | .clearSeq ticket _, stamp | .checkTimeout ticket, stamp
  | .removeInterrupted ticket, stamp | .removeTimedOut ticket, stamp => stamp = ticket.generation

/-- A task has at most one entry, and only in a phase that takes it back or leaves it to a waker. -/
structure EntriesOk (w : WaitWorld) : Prop where
  nodup : (w.waiters.map Prod.fst).Nodup
  owns : ∀ e ∈ w.waiters, PhaseOwns (w.phase e.1) e.2

lemma phaseOwns_resolved (wait : Wait) (stamp : UInt64) :
    PhaseOwns (resolved wait) stamp ↔ Owns wait stamp := by
  cases wait with
  | plain => exact Iff.rfl
  | prepared ticket =>
    unfold resolved
    dsimp only
    cases ticket.waitSeq <;> exact Iff.rfl

lemma phaseOwns_interrupted (wait : Wait) (stamp : UInt64) :
    PhaseOwns (interrupted wait) stamp ↔ Owns wait stamp := by
  cases wait <;> exact Iff.rfl

section Steps

variable {w w' : WaitWorld}

lemma EntriesOk.of_sublist (h : EntriesOk w) (hsub : w'.waiters.Sublist w.waiters)
    (hphase : w'.phase = w.phase) : EntriesOk w' := by
  refine ⟨h.nodup.sublist (hsub.map _), fun e he => ?_⟩
  rw [hphase]
  exact h.owns e (hsub.subset he)

variable {pid : ProcessId} {phase : WaitPhase} (h : EntriesOk w)
include h

/-- A task that moves on may keep the entry only with a stamp of its new phase. -/
lemma EntriesOk.move (hsub : w'.waiters.Sublist w.waiters)
    (hphase : w'.phase = update w.phase pid phase)
    (howns : ∀ stamp, (pid, stamp) ∈ w'.waiters → PhaseOwns phase stamp) : EntriesOk w' := by
  refine ⟨h.nodup.sublist (hsub.map _), fun e he => ?_⟩
  rw [hphase]
  rcases eq_or_ne e.1 pid with rfl | hne
  · rw [update_self]
    exact howns e.2 he
  rw [update_of_ne hne]
  exact h.owns e (hsub.subset he)

lemma EntriesOk.goto (howns : ∀ stamp, PhaseOwns (w.phase pid) stamp → PhaseOwns phase stamp) :
    EntriesOk (w.goto pid phase) :=
  h.move (Sublist.refl _) rfl fun stamp he => howns stamp (h.owns (pid, stamp) he)

/-- A task that is not queued may move to any phase. -/
lemma EntriesOk.goto_of_not_queued (hnot : ¬ w.Queued pid) : EntriesOk (w.goto pid phase) :=
  h.move (Sublist.refl _) rfl fun _ he => absurd (mem_map_of_mem he) hnot

/-- A task without an entry in its phase is not queued. -/
lemma EntriesOk.not_queued (hnone : ∀ stamp, ¬ PhaseOwns (w.phase pid) stamp) : ¬ w.Queued pid := by
  intro hqueued
  obtain ⟨e, he, rfl⟩ := mem_map.mp hqueued
  exact hnone e.2 (h.owns e he)

lemma EntriesOk.contract : WaitContract w := by
  have hfinished : ∀ pid, w.phase pid = .idle → ¬ w.Queued pid := fun pid hidle =>
    h.not_queued fun stamp howns => by rw [hidle] at howns; exact howns
  refine ⟨hfinished, fun pid hwoken hidle => hfinished pid hidle ?_⟩
  unfold Queued
  revert hwoken
  generalize w.waiters = waiters
  induction waiters with
  | nil => intro hwoken; cases hwoken
  | cons e waiters ih =>
    intro hwoken
    unfold wakeOne at hwoken
    split_ifs at hwoken with hwake
    · cases hwoken
      exact mem_cons_self
    · exact mem_cons_of_mem _ (ih hwoken)

end Steps

/-! ## Entries that come and go -/

variable {pid : ProcessId}

/-- A task that is not queued gets its entry at the end of the queue. -/
lemma enqueue_of_not_mem {stamp : UInt64} {waiters : List WaitQueueEntry}
    (hnot : pid ∉ waiters.map Prod.fst) : enqueue pid stamp waiters = waiters ++ [(pid, stamp)] := by
  induction waiters with
  | nil => rfl
  | cons e waiters ih =>
    rw [map_cons, mem_cons, not_or] at hnot
    rw [enqueue, if_neg (Ne.symm hnot.1), ih hnot.2, cons_append]

lemma EntriesOk.enqueue {w w' : WaitWorld} (h : EntriesOk w) {stamp : UInt64}
    {phase : WaitPhase} (hnot : ¬ w.Queued pid)
    (hwaiters : w'.waiters = WaitWorld.enqueue pid stamp w.waiters)
    (hphase : w'.phase = update w.phase pid phase) (howns : PhaseOwns phase stamp) :
    EntriesOk w' := by
  rw [enqueue_of_not_mem hnot] at hwaiters
  refine ⟨?_, fun e he => ?_⟩
  · rw [hwaiters, map_append, nodup_append]
    refine ⟨h.nodup, nodup_singleton _, ?_⟩
    intro q hq r hr heq
    have hpid : q = pid := heq.trans (mem_singleton.mp hr)
    exact hnot (hpid ▸ hq)
  rw [hphase]
  rw [hwaiters, mem_append, mem_singleton] at he
  rcases he with he | rfl
  · have hne : e.1 ≠ pid := by
      rintro rfl
      exact hnot (mem_map_of_mem he)
    rw [update_of_ne hne]
    exact h.owns e he
  rw [update_self]
  exact howns

/-- The entries after one task was taken off, when it had at most one. -/
lemma not_mem_eraseP {waiters : List WaitQueueEntry} (hnodup : (waiters.map Prod.fst).Nodup)
    (pid : ProcessId) (stamp : UInt64) : (pid, stamp) ∉ waiters.eraseP fun e => e.1 = pid := by
  induction waiters with
  | nil => exact not_mem_nil
  | cons e waiters ih =>
    rw [map_cons, nodup_cons] at hnodup
    intro hmem
    by_cases he : e.1 = pid
    · rw [eraseP_cons_of_pos (by simpa using he)] at hmem
      exact hnodup.1 (he ▸ mem_map_of_mem hmem)
    rw [eraseP_cons_of_neg (by simpa using he), mem_cons] at hmem
    rcases hmem with rfl | hmem
    · exact he rfl
    · exact ih hnodup.2 hmem

lemma wakeOne_sublist (proc : ProcessId → Process) (waiters : List WaitQueueEntry) :
    (wakeOne proc waiters).2.1.Sublist waiters := by
  induction waiters with
  | nil => exact Sublist.refl _
  | cons e waiters ih =>
    unfold wakeOne
    split_ifs
    · exact sublist_cons_self _ _
    · exact ih.cons _

lemma wakeN_sublist (n : ℕ) (proc : ProcessId → Process) (waiters : List WaitQueueEntry) :
    (wakeN n proc waiters).1.Sublist waiters := by
  induction waiters generalizing n proc with
  | nil => cases n <;> exact Sublist.refl _
  | cons e waiters ih =>
    cases n with
    | zero => exact Sublist.refl _
    | succ =>
      unfold wakeN
      split_ifs <;> exact (ih _ _).cons _

section Steps

variable {w : WaitWorld}

/-- `cancel_wait` takes the entry of the task off, if there is one. -/
lemma cancelWait_waiters (w : WaitWorld) (pid : ProcessId) :
    (w.cancelWait pid).waiters = w.waiters.eraseP fun e => e.1 = pid := by
  unfold cancelWait
  by_cases hqueued : w.Queued pid
  · rw [if_pos hqueued]
    split_ifs <;> rfl
  rw [if_neg hqueued, eraseP_of_forall_not]
  intro e he heq
  exact hqueued (mem_map.mpr ⟨e, he, by simpa using heq⟩)

lemma cancelWait_phase (w : WaitWorld) (pid : ProcessId) : (w.cancelWait pid).phase = w.phase := by
  unfold cancelWait
  split_ifs <;> rfl

variable (h : EntriesOk w)
include h

lemma EntriesOk.cancelWait (pid : ProcessId) : EntriesOk ((w.cancelWait pid).goto pid .idle) := by
  have hwaiters : ((w.cancelWait pid).goto pid .idle).waiters =
      w.waiters.eraseP fun e => e.1 = pid := cancelWait_waiters w pid
  have hphase : ((w.cancelWait pid).goto pid .idle).phase = update w.phase pid .idle := by
    rw [← cancelWait_phase w pid]
    rfl
  refine h.move (hwaiters ▸ eraseP_sublist) hphase fun stamp he => ?_
  rw [hwaiters] at he
  exact absurd he (not_mem_eraseP h.nodup pid stamp)

/-- A wait that took its exact entry off has no entry left. -/
lemma EntriesOk.removeWaiterExact {generation : UInt64}
    (hphase : ∀ stamp, PhaseOwns (w.phase pid) stamp → stamp = generation) (phase : WaitPhase) :
    EntriesOk ((w.removeWaiterExact pid generation).goto pid phase) := by
  refine h.move filter_sublist rfl fun stamp he => ?_
  obtain ⟨hmem, hkept⟩ := mem_filter.mp he
  have hstamp : stamp = generation := hphase stamp (h.owns (pid, stamp) hmem)
  simp [hstamp] at hkept

/-- A step of a task whose final check finds its reason. -/
lemma EntriesOk.step (pid : ProcessId) (hguard : w.Guarded (.step pid)) :
    EntriesOk (w.step pid) := by
  unfold WaitWorld.step
  dsimp only [Guarded] at hguard
  -- a phase that hands its entry on to the next one
  have hnext : ∀ {phase phase' : WaitPhase}, w.phase pid = phase →
      (∀ stamp, PhaseOwns phase stamp → PhaseOwns phase' stamp) → EntriesOk (w.goto pid phase') :=
    fun hphase hkeep => h.goto fun stamp howns => hkeep stamp (hphase ▸ howns)
  cases hphase : w.phase pid with
  | idle | arming | armed => exact h
  | preparing =>
    apply hnext hphase
    intro stamp hfalse
    exact hfalse.elim
  | loopState wait =>
    apply hnext hphase
    intro stamp howns
    split_ifs
    · exact howns
    · exact (phaseOwns_resolved wait stamp).mpr howns
  | loopAbort wait =>
    apply hnext hphase
    intro stamp howns
    split_ifs
    · exact (phaseOwns_resolved wait stamp).mpr howns
    · exact howns
    · exact howns
  | loopSignal wait =>
    apply hnext hphase
    intro stamp howns
    split_ifs
    · exact (phaseOwns_resolved wait stamp).mpr howns
    · exact howns
  | cancelTimer | clearSeq =>
    refine h.move (Sublist.refl _) rfl fun stamp he => ?_
    have howns := h.owns (pid, stamp) he
    rwa [hphase] at howns
  | checkAbort wait =>
    apply hnext hphase
    intro stamp howns
    split_ifs with habort hkillable
    · exact (phaseOwns_interrupted wait stamp).mpr howns
    · -- only a prepared wait can be killable
      cases wait with
      | plain => cases hkillable
      | prepared => exact howns
    · exact howns
  | checkSignal wait =>
    rw [hphase] at hguard
    cases hsignal : w.hasDeliverableSignal pid with
    | true =>
      apply hnext hphase
      intro stamp howns
      exact (phaseOwns_interrupted wait stamp).mpr howns
    | false =>
      cases wait with
      | plain =>
        apply h.goto_of_not_queued
        intro hqueued
        rw [hguard hqueued] at hsignal
        cases hsignal
      | prepared =>
        apply hnext hphase
        intro stamp howns
        exact howns
  | checkTimeout =>
    rw [hphase] at hguard
    refine h.move (Sublist.refl _) rfl fun stamp he => ?_
    have howns := h.owns (pid, stamp) he
    rw [hphase] at howns
    rw [if_pos (hguard (mem_map_of_mem he))]
    exact howns
  | cancelling => exact h.cancelWait pid
  | removeInterrupted =>
    apply h.removeWaiterExact
    intro stamp howns
    rwa [hphase] at howns
  | consumeInterrupted =>
    refine h.move (Sublist.refl _) rfl fun stamp he => ?_
    have howns := h.owns (pid, stamp) he
    rw [hphase] at howns
    exact howns.elim
  | removeTimedOut =>
    apply h.removeWaiterExact
    intro stamp howns
    rwa [hphase] at howns

/-! ## Runs -/

lemma EntriesOk.arm {ticket : WaitTicket} (hphase : w.phase pid = .arming ticket)
    (room checked timerRoom : Bool) : EntriesOk (w.arm pid ticket room checked timerRoom) := by
  have hnot : ¬ w.Queued pid :=
    h.not_queued fun stamp howns => by rw [hphase] at howns; exact howns
  unfold WaitWorld.arm
  split_ifs
  · exact h.goto_of_not_queued hnot
  · exact h.goto_of_not_queued hnot
  · exact h.goto_of_not_queued hnot
  · exact h.goto_of_not_queued hnot
  · exact h.enqueue hnot rfl rfl rfl

/-- `try_prepare_to_wait_with_capacity` of a task that is not in a wait. -/
lemma EntriesOk.tryPrepareToWaitWithCapacity (hphase : w.phase pid = .idle) (room : Bool) :
    EntriesOk (w.tryPrepareToWaitWithCapacity pid room) := by
  have hnot : ¬ w.Queued pid :=
    h.not_queued fun stamp howns => by rw [hphase] at howns; exact howns
  unfold WaitWorld.tryPrepareToWaitWithCapacity
  split_ifs
  · exact h
  · exact h
  · exact h.enqueue hnot rfl rfl trivial

lemma EntriesOk.wakeSpecificIf (pid : ProcessId) (stillWanted : Bool) :
    EntriesOk (w.wakeSpecificIf pid stillWanted) := by
  unfold WaitWorld.wakeSpecificIf
  split_ifs
  · exact h
  cases w.waiters.find? fun e => e.1 = pid with
  | none => exact h
  | some =>
    dsimp only
    split_ifs <;> exact h.of_sublist eraseP_sublist rfl

/-- One event keeps the invariant, if it meets the condition. -/
lemma EntriesOk.exec (e : Event) (hguard : w.Guarded e) : EntriesOk (w.exec e) := by
  -- most events leave the queue and the phases alone
  have hsame : ∀ {w' : WaitWorld}, w'.waiters = w.waiters → w'.phase = w.phase → EntriesOk w' :=
    fun hwaiters hphase => h.of_sublist (hwaiters ▸ Sublist.refl _) hphase
  cases e with
  | prepareToWait pid room =>
    dsimp only [WaitWorld.exec]
    split_ifs with hidle
    · exact h.tryPrepareToWaitWithCapacity hidle room
    · exact h
  | beginPrepare pid =>
    dsimp only [WaitWorld.exec]
    split_ifs with hidle
    · refine h.move (Sublist.refl _) rfl fun stamp he => ?_
      have howns := h.owns (pid, stamp) he
      rw [hidle.1] at howns
      exact howns.elim
    · exact h
  | arm pid room checked timerRoom =>
    dsimp only [WaitWorld.exec]
    split
    next ticket hphase => exact h.arm hphase room checked timerRoom
    next => exact h
  | cancel pid =>
    dsimp only [WaitWorld.exec]
    split
    next => exact h.cancelWait pid
    next => exact h
  | finish =>
    dsimp only [WaitWorld.exec]
    split
    next wait hphase => exact h.goto fun stamp howns => by rwa [hphase] at howns
    next => exact h
  | step pid => exact h.step pid hguard
  | wakeOne => exact h.of_sublist (wakeOne_sublist _ _) rfl
  | wakeN => exact h.of_sublist (wakeN_sublist _ _ _) rfl
  | wakeAll => exact h.of_sublist (nil_sublist _) rfl
  | wakeSpecificIf pid stillWanted => exact h.wakeSpecificIf pid stillWanted
  | expire | timeout =>
    dsimp only [WaitWorld.exec]
    split_ifs
    · exact hsame rfl rfl
    · exact h
  | close | sendSignal _ _ _ | retarget _ _ | jobControl _ _ | kernel _ _ | kernelGroup _ _
  | allocWaitSeq => exact hsame rfl rfl

end Steps

/-- Every event of a sequence meets the condition when it comes. -/
def GuardedRun (w : WaitWorld) (events : List Event) : Prop :=
  ∀ before e, before ++ [e] <+: events → (w.run before).Guarded e

/-- A final check that finds no reason lets the task return with its entry in the queue. -/
lemma not_waitContract_of_not_guarded {w : WaitWorld} {e : Event} (h : ¬ w.Guarded e) :
    ¬ WaitContract (w.exec e) := by
  intro hcontract
  cases e with
  | step pid =>
    dsimp only [Guarded] at h
    -- the task returns, and its entry stays
    have hreturned : ∀ w' : WaitWorld, w.exec (.step pid) = w'.goto pid .idle →
        w'.waiters = w.waiters → ¬ w.Queued pid := by
      intro w' hstep hwaiters hqueued
      rw [hstep] at hcontract
      refine hcontract.finished pid (update_self _ _ _) ?_
      change pid ∈ w'.waiters.map Prod.fst
      rw [hwaiters]
      exact hqueued
    cases hphase : w.phase pid with
    | checkSignal wait =>
      rw [hphase] at h
      cases wait with
      | prepared => exact h trivial
      | plain =>
        obtain ⟨hqueued, hsignal⟩ := Classical.not_imp.mp h
        refine hreturned w ?_ rfl hqueued
        change w.step pid = _
        unfold step
        simp only [hphase, if_neg hsignal, uninterrupted]
    | checkTimeout =>
      rw [hphase] at h
      obtain ⟨hqueued, htimeout⟩ := Classical.not_imp.mp h
      refine hreturned (w.clearTimeoutMarker pid) ?_ rfl hqueued
      change w.step pid = _
      unfold step
      simp only [hphase, if_neg htimeout]
    | _ => rw [hphase] at h; exact h trivial
  | _ => exact h trivial

lemma run_append_singleton (w : WaitWorld) (events : List Event) (e : Event) :
    w.run (events ++ [e]) = (w.run events).exec e :=
  foldl_concat _ _ _ _

lemma entriesOk_start (proc : ProcessId → Process) (group : ℕ → ThreadGroup)
    (timedWaiters : List TimedWaiter) (waitGeneration nextWaitSeq : UInt64) :
    EntriesOk (start proc group timedWaiters waitGeneration nextWaitSeq) :=
  ⟨nodup_nil, nofun⟩

/-- The contract holds all along a run exactly when each final check of a task that is still queued
finds its reason. -/
theorem waitContract_run_iff (proc : ProcessId → Process) (group : ℕ → ThreadGroup)
    (timedWaiters : List TimedWaiter) (waitGeneration nextWaitSeq : UInt64) (events : List Event) :
    (∀ before, before <+: events →
      WaitContract ((start proc group timedWaiters waitGeneration nextWaitSeq).run before)) ↔
      GuardedRun (start proc group timedWaiters waitGeneration nextWaitSeq) events := by
  constructor
  · intro hcontract before e hprefix
    by_contra hguard
    apply not_waitContract_of_not_guarded hguard
    rw [← run_append_singleton]
    exact hcontract _ hprefix
  intro hguard before hprefix
  suffices hok : EntriesOk ((start proc group timedWaiters waitGeneration nextWaitSeq).run before)
    from hok.contract
  -- by the events that came before, from the last one on
  induction before using reverseRecOn with
  | nil => exact entriesOk_start proc group timedWaiters waitGeneration nextWaitSeq
  | append_singleton before e ih =>
    rw [run_append_singleton]
    have hbefore : before <+: events := (prefix_append before [e]).trans hprefix
    exact (ih hbefore).exec e (hguard before e hprefix)

/-! ## A wake that is lost -/

/-- A running task with a handler for every signal and the given mask. -/
def handlingTask (mask : UInt64) : Process where
  state := .running
  stopped := false
  onCpu := true
  generation := 0
  threadGroup := 0
  groupLive := true
  pendingKill := false
  execHandoff := false
  pendingSignals := 0
  groupClaimed := 0
  sharedChosen := 0
  blocked := mask
  inSignalHandler := false
  sigactions := fun _ => ⟨4096⟩
  wqTimeoutMarker := 0
  activeWaitSeq := 0

/-- Three members of a group, of which task 2 blocks `SIGUSR2`. -/
def threeMembers : WaitWorld :=
  start (fun pid => handlingTask (if pid = 2 then Signal.sigusr2.bit else 0))
    (fun _ => ⟨0, false, false⟩) [] 0 1

/-- Task 2 waits.  `SIGUSR1` comes for the process and is chosen for task 1; then `SIGUSR2`, which
task 2 blocks, comes for task 2.  The sender of `SIGUSR2` readies task 2 for `SIGUSR1`, which the final
check of task 2 does not count. -/
def uncountedSignal : List Event :=
  [.prepareToWait 2 true, .finish 2, .sendSignal 1 .process .sigusr1,
    .sendSignal 2 .thread .sigusr2, .step 2, .step 2, .step 2]

/-- Task 3 goes to sleep on the queue, and task 2 blocks elsewhere. -/
def sleepElsewhere : List Event :=
  [.prepareToWait 3 true, .finish 3,
    .kernel 2 { handlingTask Signal.sigusr2.bit with
      state := .blocked
      pendingSignals := Signal.sigusr2.bit }]

/-- Task 2 returns from `finish_wait` with its entry in the queue, and the next `wake_one` is spent on
it while task 3 sleeps there. -/
theorem uncountedSignal_leaves_entry :
    ((threeMembers.run uncountedSignal).phase 2 = .idle ∧
      (threeMembers.run uncountedSignal).Queued 2) ∧
    (let w := threeMembers.run (uncountedSignal ++ sleepElsewhere)
    (wakeOne w.proc w.waiters).1 = some 2 ∧ w.phase 2 = .idle ∧
      w.Queued 3 ∧ (w.proc 3).state = .blocked ∧ w.phase 3 = .loopState .plain) ∧
    ¬ WaitContract (threeMembers.run uncountedSignal) := by
  have hleft : (threeMembers.run uncountedSignal).phase 2 = .idle ∧
      (threeMembers.run uncountedSignal).Queued 2 := by decide +kernel
  exact ⟨hleft, by decide +kernel, fun h => h.finished 2 hleft.1 hleft.2⟩

end WaitWorld

end Nilix.Ipc
