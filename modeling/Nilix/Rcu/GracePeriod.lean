import Nilix.Rcu.Machine

/-!
# The safety of the grace periods

A context that is about to publish an epoch has read it, or reaches the CPU it publishes for, at a moment
when that CPU has no reader; the store may come arbitrarily late, because a passed epoch stays passed.
A scan of the CPUs therefore only collects passed epochs, a raise of `COMPLETED_EPOCH` only publishes
epochs that are passed everywhere, and a callback starts only when its target is one of them.
-/

namespace Nilix.Rcu

open Function Epochs List

/-! ## What a context knows -/

/-- The synchronizer that a drain belongs to has seen its grace period end. -/
def CallerOk (e : Epochs) (caller : Caller) : Prop :=
  ∀ target, caller = .synchronize target → ∀ cpu, e.Passed target cpu

/-- A drain works with an epoch that is passed everywhere. -/
structure DrainOk (e : Epochs) (drain : Drain) : Prop where
  doneEpoch : ∀ cpu, e.Passed drain.doneEpoch cpu
  caller : CallerOk e drain.caller

/-- What the locals of a context say about the epochs. -/
def FrameOk (e : Epochs) : Frame → Prop
  | .unlockStore cpu epoch => e.Passed epoch cpu
  | .quiescentCpuAgain _ epoch => epoch ≤ e.globalEpoch
  | .quiescentStore _ epoch cpu => e.Passed epoch cpu
  | .scanMask _ global => global ≤ e.globalEpoch
  | .scan _ _ safe online => safe ≤ e.globalEpoch ∧ ∀ cpu, cpu ∉ online → e.Passed safe cpu
  | .complete caller epoch => (∀ cpu, e.Passed epoch cpu) ∧ CallerOk e caller
  | .loadBudget completed => ∀ cpu, e.Passed completed cpu
  | .acquire drain => DrainOk e drain
  | .pop drain => DrainOk e drain
  | .finish drain _ => DrainOk e drain
  | .uncount drain => DrainOk e drain
  | .release drain => DrainOk e drain
  | _ => True

/-- What the place of a context says: `total` is the number of sections that it and the contexts it
interrupted are in. -/
def PlaceOk (e : Epochs) (cpu total : ℕ) : Frame → Prop
  | .lockCount => e.online cpu = true
  | .unlockLoad cpu' => cpu' = cpu ∧ total = 0
  | .unlockStore cpu' _ => cpu' = cpu
  | .unlockEnable cpu' => cpu' = cpu
  | .quiescentReaders _ cpu' => cpu' = cpu ∨ total = 0
  | .quiescentLoad _ => total = 0
  | .quiescentCpuAgain _ _ => total = 0
  | _ => True

/-- How many times a context has disabled preemption on its CPU. -/
def Context.holds (ctx : Context) : ℕ :=
  match ctx.frame with
  | .lockCount => ctx.depth + 1
  | .unlockLoad _ => ctx.depth + 1
  | .unlockStore _ _ => ctx.depth + 1
  | .unlockEnable _ => ctx.depth + 1
  | _ => ctx.depth

/-- What holds of a context, wherever it is. -/
structure LocalsOk (e : Epochs) (ctx : Context) : Prop where
  frame : FrameOk e ctx.frame
  suspended : ∀ d ∈ ctx.suspended, DrainOk e d.1

variable {e e' : Epochs}

lemma CallerOk.keeps {caller : Caller} (h : CallerOk e caller) (hk : e.Keeps e') :
    CallerOk e' caller :=
  fun target htarget cpu => hk.passed _ _ (h target htarget cpu)

variable {drain : Drain}

lemma DrainOk.keeps (h : DrainOk e drain) (hk : e.Keeps e') : DrainOk e' drain :=
  ⟨fun cpu => hk.passed _ _ (h.doneEpoch cpu), h.caller.keeps hk⟩

variable {frame : Frame}

lemma FrameOk.keeps (h : FrameOk e frame) (hk : e.Keeps e') : FrameOk e' frame := by
  cases frame
  case unlockStore | quiescentStore => exact hk.passed _ _ h
  case quiescentCpuAgain | scanMask => exact le_trans h hk.globalEpoch_le
  case scan caller global safe online =>
    exact ⟨h.1.trans hk.globalEpoch_le, fun cpu hcpu => hk.passed _ _ (h.2 cpu hcpu)⟩
  case complete caller epoch => exact ⟨fun cpu => hk.passed _ _ (h.1 cpu), h.2.keeps hk⟩
  case loadBudget completed => exact fun cpu => hk.passed _ _ (h cpu)
  case acquire | pop | finish | uncount | release => exact DrainOk.keeps h hk
  all_goals trivial

variable {ctx : Context}

lemma LocalsOk.keeps (h : LocalsOk e ctx) (hk : e.Keeps e') : LocalsOk e' ctx :=
  ⟨h.frame.keeps hk, fun d hd => (h.suspended d hd).keeps hk⟩

lemma PlaceOk.keeps {cpu total : ℕ} (h : PlaceOk e cpu total frame) (hk : e.Keeps e') :
    PlaceOk e' cpu total frame := by
  cases frame
  case lockCount => exact hk.online cpu h
  all_goals exact h

/-! ## The machine's invariant -/

/-- How many sections the contexts of a stack are in. -/
def depthSum (stack : List Context) : ℕ := (stack.map (·.depth)).sum

/-- How many times the contexts of a stack have disabled preemption. -/
def holdsSum (stack : List Context) : ℕ := (stack.map (·.holds)).sum

@[simp] lemma depthSum_cons (ctx : Context) (below : List Context) :
    depthSum (ctx :: below) = ctx.depth + depthSum below := sum_cons

@[simp] lemma holdsSum_cons (ctx : Context) (below : List Context) :
    holdsSum (ctx :: below) = ctx.holds + holdsSum below := sum_cons

lemma Context.depth_le_holds (ctx : Context) : ctx.depth ≤ ctx.holds := by
  unfold Context.holds
  split
  all_goals omega

/-- What holds of the contexts of a CPU. -/
def StackOk (e : Epochs) (cpu : ℕ) : List Context → Prop
  | [] => True
  | ctx :: below =>
    LocalsOk e ctx ∧ PlaceOk e cpu (ctx.depth + depthSum below) ctx.frame ∧ StackOk e cpu below

lemma StackOk.keeps {cpu : ℕ} {stack : List Context} (h : StackOk e cpu stack) (hk : e.Keeps e') :
    StackOk e' cpu stack := by
  induction stack with
  | nil => trivial
  | cons ctx below ih => exact ⟨h.1.keeps hk, h.2.1.keeps hk, ih h.2.2⟩

/-- The target of an observation. -/
def Observation.target : Observation → ℕ
  | .callbackStarts target => target
  | .synchronizeReturns target => target

/-- The grace period of every observation is over. -/
def LogOk (g : Shared) : Prop := ∀ o ∈ g.log, ∀ cpu, g.epochs.Passed o.target cpu

/-- What holds of the machine at every moment. -/
structure Machine.Inv (m : Machine) : Prop where
  epochs : EpochsOk m.shared.epochs
  readers : ∀ cpu, m.shared.epochs.readers cpu = depthSum (m.stack cpu)
  preempt : ∀ cpu, m.shared.preemptCount cpu = holdsSum (m.stack cpu)
  stack : ∀ cpu, StackOk m.shared.epochs cpu (m.stack cpu)
  waiting : ∀ ctx ∈ m.waiting, LocalsOk m.shared.epochs ctx ∧ ctx.holds = 0
  log : LogOk m.shared

/-! ## What one step does -/

/-- What a step of a context on a CPU keeps; `sections` and `held` are the sums over the contexts
below. -/
structure StepOk (g : Shared) (cpu sections held : ℕ) (r : Shared × Context) : Prop where
  epochs : EpochsOk r.1.epochs
  keeps : g.epochs.Keeps r.1.epochs
  readers : r.1.epochs.readers = update g.epochs.readers cpu (r.2.depth + sections)
  preempt : r.1.preemptCount = update g.preemptCount cpu (r.2.holds + held)
  locals : LocalsOk r.1.epochs r.2
  place : PlaceOk r.1.epochs cpu (r.2.depth + sections) r.2.frame
  log : LogOk r.1

/-- What is known before a step. -/
structure Before (g : Shared) (cpu sections held : ℕ) (ctx : Context) : Prop where
  epochs : EpochsOk g.epochs
  readers : g.epochs.readers cpu = ctx.depth + sections
  preempt : g.preemptCount cpu = ctx.holds + held
  locals : LocalsOk g.epochs ctx
  place : PlaceOk g.epochs cpu (ctx.depth + sections) ctx.frame
  log : LogOk g

namespace Before

variable {g : Shared} {cpu sections held : ℕ} {ctx : Context}

section

variable (h : Before g cpu sections held ctx)
include h

variable {frame : Frame}

/-- A step that accesses the epochs, not the readers. -/
lemma access {e : Epochs}
    (hepochs : EpochsOk e) (hkeeps : g.epochs.Keeps e) (hreaders : e.readers = g.epochs.readers)
    (hholds : ({ ctx with frame } : Context).holds = ctx.holds)
    (hframe : FrameOk e frame) (hplace : PlaceOk e cpu (ctx.depth + sections) frame) :
    StepOk g cpu sections held ({ g with epochs := e }, { ctx with frame }) where
  epochs := hepochs
  keeps := hkeeps
  readers := by rw [hreaders, ← h.readers, update_eq_self]
  preempt := by rw [hholds, ← h.preempt, update_eq_self]
  locals := ⟨hframe, fun d hd => (h.locals.suspended d hd).keeps hkeeps⟩
  place := hplace
  log o ho cpu' := hkeeps.passed _ _ (h.log o ho cpu')

/-- A step that changes only where the context is in its operation. -/
lemma goto (hholds : ({ ctx with frame } : Context).holds = ctx.holds)
    (hframe : FrameOk g.epochs frame) (hplace : PlaceOk g.epochs cpu (ctx.depth + sections) frame) :
    StepOk g cpu sections held (g, { ctx with frame }) :=
  h.access h.epochs (.refl _) rfl hholds hframe hplace

lemma stay : StepOk g cpu sections held (g, ctx) :=
  h.goto rfl h.locals.frame h.place

/-- A step that changes the pool, the locks or the counts, and where the context is. -/
lemma move {g' : Shared}
    (hsame : (g'.epochs, g'.preemptCount, g'.log) = (g.epochs, g.preemptCount, g.log))
    (hholds : ({ ctx with frame } : Context).holds = ctx.holds) (hframe : FrameOk g.epochs frame)
    (hplace : PlaceOk g.epochs cpu (ctx.depth + sections) frame) :
    StepOk g cpu sections held (g', { ctx with frame }) := by
  cases g'
  simp only [Prod.mk.injEq] at hsame
  obtain ⟨rfl, rfl, rfl⟩ := hsame
  exact { h.goto hholds hframe hplace with }

end

end Before

/-! ## The steps, one by one -/

/-- A frame that holds no preemption: its context may be on any CPU. -/
structure Frame.Mobile (frame : Frame) : Prop where
  placeOk : ∀ e cpu total, PlaceOk e cpu total frame
  holds : ∀ ctx : Context, ({ ctx with frame } : Context).holds = ctx.depth

variable (caller : Caller)

lemma Frame.Mobile.of_afterQuiescent : caller.afterQuiescent.Mobile := by
  cases caller
  all_goals exact ⟨fun _ _ _ => trivial, fun _ => rfl⟩

lemma Frame.Mobile.of_afterScan (safe : ℕ) : (caller.afterScan safe).Mobile := by
  unfold Caller.afterScan
  cases caller
  case synchronize target =>
    dsimp only
    split_ifs
    all_goals exact ⟨fun _ _ _ => trivial, fun _ => rfl⟩
  all_goals exact ⟨fun _ _ _ => trivial, fun _ => rfl⟩

lemma Frame.Mobile.of_afterComplete (completed : ℕ) : (caller.afterComplete completed).Mobile := by
  cases caller
  all_goals exact ⟨fun _ _ _ => trivial, fun _ => rfl⟩

lemma FrameOk.of_afterQuiescent (e : Epochs) (caller : Caller) :
    FrameOk e caller.afterQuiescent := by
  cases caller
  all_goals trivial

/-- A scan that collected only passed epochs ends with a raise to a passed epoch. -/
lemma FrameOk.of_afterScan (h : EpochsOk e) (caller : Caller) {safe : ℕ}
    (hsafe : ∀ cpu, e.Passed safe cpu) : FrameOk e (caller.afterScan safe) := by
  unfold Caller.afterScan
  cases caller
  case synchronize target =>
    dsimp only
    split_ifs with hle
    · have htarget : ∀ cpu, e.Passed target cpu := fun cpu => h.older _ _ cpu hle (hsafe cpu)
      refine ⟨htarget, fun target' htarget' => ?_⟩
      cases htarget'
      exact htarget
    · trivial
  all_goals exact ⟨hsafe, nofun⟩

lemma FrameOk.of_afterComplete {caller : Caller} {completed : ℕ}
    (hcompleted : ∀ cpu, e.Passed completed cpu) (hcaller : CallerOk e caller) :
    FrameOk e (caller.afterComplete completed) := by
  cases caller
  case synchronize target => exact ⟨hcompleted, hcaller⟩
  all_goals trivial

/-- A CPU that the scan does not visit has no reader. -/
lemma passed_of_not_mem_onlineCpus (h : EpochsOk e) {global cpu : ℕ}
    (hglobal : global ≤ e.globalEpoch) (hcpu : cpu ∉ onlineCpus e) : e.Passed global cpu := by
  refine passed_of_readers_eq_zero hglobal ?_
  by_contra hreaders
  have honline := h.readersOnline cpu hreaders
  have hmem : cpu ∈ (range maxCpus).filter e.online :=
    mem_filter.mpr ⟨mem_range.mpr (h.online_lt cpu honline), honline⟩
  unfold onlineCpus at hcpu
  rw [if_neg (fun hempty => ne_nil_of_mem hmem (isEmpty_iff.mp hempty))] at hcpu
  exact hcpu hmem

namespace Before

variable {g : Shared} {cpu sections held depth : ℕ} {suspended : List (Drain × ℕ)} {ctx : Context}

lemma scan_step {caller : Caller} {global safe : ℕ} {online : List ℕ}
    (h : Before g cpu sections held ⟨.scan caller global safe online, suspended, depth⟩) :
    StepOk g cpu sections held
      (g.step cpu ⟨.scan caller global safe online, suspended, depth⟩) := by
  obtain ⟨hle, hpassed⟩ := h.locals.frame
  cases online with
  | nil =>
    refine h.goto (Frame.Mobile.of_afterScan caller safe |>.holds _) ?_
      (Frame.Mobile.of_afterScan caller safe |>.placeOk _ _ _)
    exact FrameOk.of_afterScan h.epochs caller fun cpu' => hpassed cpu' not_mem_nil
  | cons cpu' online =>
    unfold Shared.step
    dsimp only
    split_ifs with hlt
    · refine h.goto rfl ⟨(min_le_left _ _).trans hle, fun cpu1 hcpu1 => ?_⟩ trivial
      by_cases hvisited : cpu1 = cpu'
      · subst hvisited
        exact h.epochs.older _ _ _ (min_le_right _ _) (h.epochs.published cpu1)
      have hnot : cpu1 ∉ cpu' :: online := fun hmem =>
        (mem_cons.mp hmem).elim hvisited hcpu1
      exact h.epochs.older _ _ _ (min_le_left _ _) (hpassed cpu1 hnot)
    · exact h.goto rfl trivial trivial

/-- A callback starts only when its target epoch is passed everywhere. -/
lemma pop_step (h : Before g cpu sections held ⟨.pop drain, suspended, depth⟩) :
    StepOk g cpu sections held (g.step cpu ⟨.pop drain, suspended, depth⟩) := by
  have hdrain : DrainOk g.epochs drain := h.locals.frame
  unfold Shared.step
  dsimp only
  split_ifs with hcount hlocked
  · exact h.stay
  · rcases hpop : g.callbacks.popReady drain.doneEpoch with _ | _ | ⟨ready, callbacks⟩
    · exact h.goto rfl trivial trivial
    · exact h.goto rfl hdrain trivial
    · have htarget : ∀ cpu', g.epochs.Passed ready.targetEpoch cpu' := fun cpu' =>
        h.epochs.older _ _ _ (CallbackPool.popReady_targetEpoch_le hpop) (hdrain.doneEpoch cpu')
      have hidle : StepOk g cpu sections held (g, ⟨.idle, suspended, depth⟩) :=
        h.goto rfl trivial trivial
      refine ⟨h.epochs, .refl _, hidle.readers, hidle.preempt, ⟨trivial, ?_⟩, trivial, ?_⟩
      · exact forall_mem_cons.mpr ⟨hdrain, h.locals.suspended⟩
      · exact forall_mem_cons.mpr ⟨htarget, h.log⟩
  · exact h.goto rfl hdrain trivial

/-- A synchronizer returns after its grace period. -/
lemma release_step (h : Before g cpu sections held ⟨.release drain, suspended, depth⟩) :
    StepOk g cpu sections held (g.step cpu ⟨.release drain, suspended, depth⟩) := by
  have hdrain : DrainOk g.epochs drain := h.locals.frame
  have hidle : StepOk g cpu sections held (g, ⟨.idle, suspended, depth⟩) :=
    h.goto rfl trivial trivial
  change StepOk g cpu sections held (g.endDrain drain, ⟨.idle, suspended, depth⟩)
  unfold Shared.endDrain
  split
  · rename_i target htarget
    exact { hidle with log := forall_mem_cons.mpr ⟨hdrain.caller target htarget, h.log⟩ }
  · exact { hidle with }

section

variable (h : Before g cpu sections held ctx)
include h

/-- The return of `rcu_quiescent_state` to its caller. -/
lemma afterQuiescent (hholds : ctx.holds = ctx.depth) (caller : Caller) :
    StepOk g cpu sections held (g, { ctx with frame := caller.afterQuiescent }) :=
  h.goto ((Frame.Mobile.of_afterQuiescent caller).holds ctx |>.trans hholds.symm)
    (.of_afterQuiescent _ caller) ((Frame.Mobile.of_afterQuiescent caller).placeOk _ _ _)

lemma step : StepOk g cpu sections held (g.step cpu ctx) := by
  obtain ⟨frame, suspended, depth⟩ := ctx
  cases frame with
  | idle | panicked => exact h.stay
  | lockDisable =>
    dsimp only [Shared.step]
    split_ifs with hmoved honline
    · exact h.goto rfl trivial trivial
    · have hpreempt : g.preemptCount cpu = depth + held := h.preempt
      refine ⟨h.epochs, .refl _, h.stay.readers, ?_, ⟨trivial, h.locals.suspended⟩, honline, h.log⟩
      change update g.preemptCount cpu (g.preemptCount cpu + 1) =
        update g.preemptCount cpu (depth + 1 + held)
      rw [hpreempt, add_right_comm]
    · exact h.stay
  | lockCount =>
    have honline : g.epochs.online cpu = true := h.place
    have hkeeps := (h.epochs.local_enter cpu).keeps
    refine ⟨h.epochs.enter honline, hkeeps, ?_, ?_, ?_, trivial, ?_⟩
    · have hreaders : g.epochs.readers cpu = depth + sections := h.readers
      change update g.epochs.readers cpu (g.epochs.readers cpu + 1) = _
      rw [hreaders, add_right_comm]
      rfl
    · have hpreempt : g.preemptCount cpu = depth + 1 + held := h.preempt
      change g.preemptCount = update g.preemptCount cpu (depth + 1 + held)
      rw [← hpreempt, update_eq_self]
    · exact ⟨trivial, fun d hd => (h.locals.suspended d hd).keeps hkeeps⟩
    · exact fun o ho cpu' => hkeeps.passed _ _ (h.log o ho cpu')
  | unlockLoad =>
    obtain ⟨rfl, htotal⟩ := h.place
    refine h.goto rfl (passed_of_readers_eq_zero le_rfl ?_) rfl
    exact h.readers.trans htotal
  | unlockStore =>
    exact h.access (h.epochs.publish h.locals.frame) (EpochsOk.local_publish ..).keeps rfl rfl trivial
      h.place
  | unlockEnable cpu' =>
    have hcpu : cpu' = cpu := h.place
    subst hcpu
    have hpreempt : g.preemptCount cpu' = depth + 1 + held := h.preempt
    refine ⟨h.epochs, .refl _, h.stay.readers, ?_, ⟨trivial, h.locals.suspended⟩, trivial, h.log⟩
    change update g.preemptCount cpu' (g.preemptCount cpu' - 1) =
      update g.preemptCount cpu' (depth + held)
    congr 1
    omega
  | quiescentCpu => exact h.goto rfl trivial (.inl rfl)
  | quiescentReaders caller =>
    unfold Shared.step
    dsimp only
    split_ifs with hzero
    · refine h.goto rfl trivial ?_
      rcases h.place with hcpu | htotal
      · exact h.readers.symm.trans (hcpu ▸ hzero)
      · exact htotal
    · exact h.afterQuiescent rfl caller
  | quiescentLoad => exact h.goto rfl le_rfl h.place
  | quiescentCpuAgain =>
    have htotal : depth + sections = 0 := h.place
    exact h.goto rfl (passed_of_readers_eq_zero h.locals.frame (h.readers.trans htotal)) trivial
  | quiescentStore caller =>
    exact h.access (h.epochs.publish h.locals.frame) (EpochsOk.local_publish ..).keeps rfl
      ((Frame.Mobile.of_afterQuiescent caller).holds _) (.of_afterQuiescent _ caller)
      ((Frame.Mobile.of_afterQuiescent caller).placeOk _ _ _)
  | callLock =>
    unfold Shared.step
    dsimp only
    split_ifs
    · exact h.stay
    all_goals exact h.move rfl rfl trivial trivial
  | allocateLoad =>
    unfold Shared.step
    dsimp only
    split_ifs <;> exact h.goto rfl trivial trivial
  | allocateExchange allocator =>
    unfold Shared.step
    dsimp only
    split_ifs
    · cases allocator
      all_goals exact h.access h.epochs.allocate (EpochsOk.keeps_allocate _) rfl rfl trivial trivial
    · exact h.goto rfl trivial trivial
  | callEnqueue =>
    unfold Shared.step
    dsimp only
    split
    · exact h.move rfl rfl trivial trivial
    · exact h.goto rfl trivial trivial
  | callCount => exact h.move rfl rfl trivial trivial
  | scanGlobal => exact h.goto rfl le_rfl trivial
  | scanMask caller global =>
    have hglobal : global ≤ g.epochs.globalEpoch := h.locals.frame
    exact h.goto rfl
      ⟨hglobal, fun cpu' hcpu' => passed_of_not_mem_onlineCpus h.epochs hglobal hcpu'⟩ trivial
  | scan => exact h.scan_step
  | scanMissing caller =>
    refine h.goto ((Frame.Mobile.of_afterScan caller _).holds _) ?_
      ((Frame.Mobile.of_afterScan caller _).placeOk _ _ _)
    exact .of_afterScan h.epochs caller fun cpu' =>
      h.epochs.older _ _ _ (min_le_left _ _) (h.epochs.completed cpu')
  | complete caller epoch =>
    obtain ⟨hepoch, hcaller⟩ := h.locals.frame
    have hok := h.epochs.complete hepoch
    have hkeeps := (EpochsOk.local_complete g.epochs epoch).keeps
    exact h.access hok hkeeps rfl ((Frame.Mobile.of_afterComplete caller _).holds _)
      (.of_afterComplete hok.completed (hcaller.keeps hkeeps))
      ((Frame.Mobile.of_afterComplete caller _).placeOk _ _ _)
  | loadCompleted => exact h.goto rfl h.epochs.completed trivial
  | loadBudget =>
    exact h.goto rfl ⟨h.locals.frame, nofun⟩ trivial
  | acquire =>
    unfold Shared.step
    dsimp only
    split_ifs
    · exact h.goto rfl trivial trivial
    · exact h.goto rfl h.locals.frame trivial
    · exact h.move rfl rfl h.locals.frame trivial
  | pop => exact h.pop_step
  | finish =>
    unfold Shared.step
    dsimp only
    split_ifs
    · exact h.stay
    split
    · exact h.move rfl rfl h.locals.frame trivial
    · exact h.goto rfl trivial trivial
  | uncount drain =>
    have hdrain : DrainOk g.epochs drain := h.locals.frame
    unfold Shared.step
    dsimp only
    split_ifs
    · exact h.move rfl rfl trivial trivial
    · exact h.move rfl rfl ⟨hdrain.doneEpoch, hdrain.caller⟩ trivial
  | release => exact h.release_step

lemma withCallbacks (change : CallbackPool → CallbackPool) :
    StepOk g cpu sections held (g.withCallbacks change, ctx) := by
  unfold Shared.withCallbacks
  split_ifs
  · exact h.stay
  · exact { h.stay with }

end

/-- The first step of `rcu_read_unlock`: where the last section ends, the CPU has no reader. -/
lemma unlock_start (h : Before g cpu sections held ⟨.idle, suspended, depth⟩) (hdepth : depth ≠ 0) :
    StepOk g cpu sections held ({ g with epochs := g.epochs.leave cpu },
        ⟨if g.epochs.readers cpu - 1 = 0 then .unlockLoad cpu else .unlockEnable cpu, suspended,
          depth - 1⟩) := by
  have hreaders : g.epochs.readers cpu = depth + sections := h.readers
  have hpreempt : g.preemptCount cpu = depth + held := h.preempt
  have hkeeps := (EpochsOk.local_leave g.epochs cpu).keeps
  refine ⟨h.epochs.leave cpu, hkeeps, ?_, ?_, ⟨?_, ?_⟩, ?_, ?_⟩
  · change update g.epochs.readers cpu (g.epochs.readers cpu - 1) =
      update g.epochs.readers cpu (depth - 1 + sections)
    congr 1
    omega
  · have hholds : depth - 1 + 1 + held = g.preemptCount cpu := by omega
    split_ifs
    all_goals
      change g.preemptCount = update g.preemptCount cpu (depth - 1 + 1 + held)
      rw [hholds, update_eq_self]
  · split_ifs
    all_goals trivial
  · exact fun d hd => (h.locals.suspended d hd).keeps hkeeps
  · dsimp only
    split_ifs with hlast
    · refine ⟨rfl, ?_⟩
      omega
    · rfl
  · exact fun o ho cpu' => hkeeps.passed _ _ (h.log o ho cpu')

/-- The first step of every operation keeps what holds. -/
lemma start (h : Before g cpu sections held ctx) (hidle : ctx.frame = .idle)
    (operation : Operation) : StepOk g cpu sections held (g.start cpu ctx operation) := by
  obtain ⟨frame, suspended, depth⟩ := ctx
  subst hidle
  cases operation with
  | rcuReadUnlock =>
    dsimp only [Shared.start]
    by_cases hdepth : depth = 0
    · rw [if_pos hdepth]
      exact h.stay
    rw [if_neg hdepth]
    exact h.unlock_start hdepth
  | rcuReadLock | rcuQuiescentState | rcuTimerTick | synchronizeRcu | callRcu | poll =>
    exact h.goto rfl trivial trivial
  | callRcuStack =>
    dsimp only [Shared.start]
    split_ifs <;> exact h.goto rfl trivial trivial
  | tryReserveCallback | dropPermit => exact h.withCallbacks _
  | tryReserveStackCallback =>
    dsimp only [Shared.start]
    split_ifs
    · exact h.stay
    · exact h.withCallbacks _
  | quarantineRunningStackCallback =>
    dsimp only [Shared.start]
    split_ifs
    · exact h.goto rfl trivial trivial
    · exact h.withCallbacks _

end Before

/-! ## Runs -/

namespace Machine

variable {m : Machine} {cpu : ℕ}

lemma Inv.boot : Machine.boot.Inv where
  epochs := .boot
  readers _ := rfl
  preempt _ := rfl
  stack _ := trivial
  waiting _ h := nomatch h
  log _ h := nomatch h

lemma Inv.before (h : m.Inv) {below : List Context} (hstack : m.stack cpu = ctx :: below) :
    Before m.shared cpu (depthSum below) (holdsSum below) ctx := by
  have hok := h.stack cpu
  rw [hstack] at hok
  refine ⟨h.epochs, ?_, ?_, hok.1, hok.2.1, h.log⟩
  · rw [h.readers, hstack, depthSum_cons]
  · rw [h.preempt, hstack, holdsSum_cons]

/-- A correct step of the top context keeps the invariant of the machine. -/
lemma Inv.onTop (h : m.Inv) {f : Shared → Context → Shared × Context}
    (hf : ∀ {ctx below}, Before m.shared cpu (depthSum below) (holdsSum below) ctx →
      StepOk m.shared cpu (depthSum below) (holdsSum below) (f m.shared ctx)) :
    (m.onTop cpu f).Inv := by
  unfold Machine.onTop
  cases hstack : m.stack cpu with
  | nil => exact h
  | cons =>
    have hstep := hf (h.before hstack)
    have hbelow := h.stack cpu
    rw [hstack] at hbelow
    refine ⟨hstep.epochs, fun cpu' => ?_, fun cpu' => ?_, fun cpu' => ?_, fun ctx' hctx' => ?_,
      hstep.log⟩
    · dsimp only
      rw [hstep.readers]
      by_cases hcpu : cpu' = cpu
      · rw [hcpu, update_self, update_self, depthSum_cons]
      · rw [update_of_ne hcpu, update_of_ne hcpu, h.readers]
    · dsimp only
      rw [hstep.preempt]
      by_cases hcpu : cpu' = cpu
      · rw [hcpu, update_self, update_self, holdsSum_cons]
      · rw [update_of_ne hcpu, update_of_ne hcpu, h.preempt]
    · dsimp only
      by_cases hcpu : cpu' = cpu
      · rw [hcpu, update_self]
        exact ⟨hstep.locals, hstep.place, hbelow.2.2.keeps hstep.keeps⟩
      rw [update_of_ne hcpu]
      exact (h.stack cpu').keeps hstep.keeps
    · exact ⟨(h.waiting ctx' hctx').1.keeps hstep.keeps, (h.waiting ctx' hctx').2⟩

/-- A change of the contexts of one CPU that leaves the sums and keeps each of them correct. -/
lemma Inv.setStack (h : m.Inv) {stack : List Context} {waiting : List Context}
    (hdepth : depthSum stack = depthSum (m.stack cpu))
    (hholds : holdsSum stack = holdsSum (m.stack cpu)) (hstack : StackOk m.shared.epochs cpu stack)
    (hwaiting : ∀ ctx ∈ waiting, LocalsOk m.shared.epochs ctx ∧ ctx.holds = 0) :
    Inv { m with stack := update m.stack cpu stack, waiting } := by
  refine ⟨h.epochs, fun cpu' => ?_, fun cpu' => ?_, fun cpu' => ?_, hwaiting, h.log⟩
  all_goals
    dsimp only
    by_cases hcpu : cpu' = cpu
  · rw [hcpu, update_self, hdepth, h.readers]
  · rw [update_of_ne hcpu, h.readers]
  · rw [hcpu, update_self, hholds, h.preempt]
  · rw [update_of_ne hcpu, h.preempt]
  · rw [hcpu, update_self]
    exact hstack
  · rw [update_of_ne hcpu]
    exact h.stack cpu'

/-- A context without preemption held can be anywhere. -/
lemma placeOk_of_holds_eq_zero {e : Epochs} (h : ctx.holds = 0) :
    PlaceOk e cpu ctx.depth ctx.frame := by
  obtain ⟨frame, suspended, depth⟩ := ctx
  have hdepth : depth = 0 := Nat.le_zero.mp ((Context.depth_le_holds _).trans h.le)
  cases frame
  case lockCount | unlockLoad | unlockStore | unlockEnable => exact absurd h (Nat.succ_ne_zero depth)
  case quiescentReaders => exact .inr hdepth
  case quiescentLoad | quiescentCpuAgain => exact hdepth
  all_goals trivial

lemma Inv.exec (h : m.Inv) (event : Event) : (m.exec event).Inv := by
  cases event with
  | start cpu operation =>
    dsimp only [Machine.exec]
    refine h.onTop fun {ctx below} hbefore => ?_
    split_ifs with hidle
    · exact hbefore.start hidle operation
    · exact hbefore.stay
  | step =>
    dsimp only [Machine.exec]
    exact h.onTop fun hbefore => hbefore.step
  | callbackReturns =>
    dsimp only [Machine.exec]
    refine h.onTop fun {ctx below} hbefore => ?_
    obtain ⟨frame, suspended, depth⟩ := ctx
    dsimp only
    split
    · rename_i drain slotIndex suspended'
      have hsuspended : ∀ d ∈ (drain, slotIndex) :: suspended', DrainOk m.shared.epochs d.1 :=
        hbefore.locals.suspended
      obtain ⟨hdrain, hrest⟩ := forall_mem_cons.mp hsuspended
      exact ⟨hbefore.epochs, .refl _, hbefore.stay.readers, hbefore.stay.preempt, ⟨hdrain, hrest⟩,
        trivial, hbefore.log⟩
    · exact hbefore.stay
  | irqEnter cpu =>
    refine h.setStack (by simp [Context.new]) (by simp [Context.new, Context.holds]) ?_ h.waiting
    exact ⟨⟨trivial, nofun⟩, trivial, h.stack cpu⟩
  | irqExit cpu =>
    dsimp only [Machine.exec]
    split
    · rename_i below hstack
      have hok := h.stack cpu
      rw [hstack] at hok
      refine h.setStack ?_ ?_ hok.2.2 h.waiting
      · rw [hstack, depthSum_cons, zero_add]
      rw [hstack, holdsSum_cons]
      exact (zero_add _).symm
    · exact h
  | spawn =>
    refine { h with waiting := ?_ }
    exact forall_mem_cons.mpr ⟨⟨⟨trivial, nofun⟩, rfl⟩, h.waiting⟩
  | preempt =>
    dsimp only [Machine.exec]
    split
    · rename_i ctx hstack
      split_ifs with hpreempt
      · have hbefore := h.before hstack
        have hholds : ctx.holds = 0 := by
          have hsum := hbefore.preempt
          omega
        have hdepth : ctx.depth = 0 := Nat.le_zero.mp (ctx.depth_le_holds.trans hholds.le)
        refine h.setStack ?_ ?_ trivial (forall_mem_cons.mpr ⟨⟨hbefore.locals, hholds⟩, h.waiting⟩)
        · rw [hstack, depthSum_cons, hdepth]
          rfl
        rw [hstack, holdsSum_cons, hholds]
        rfl
      · exact h
    · exact h
  | dispatch =>
    dsimp only [Machine.exec]
    split
    · rename_i ctx hstack hget
      obtain ⟨hlocals, hholds⟩ := h.waiting ctx (mem_of_getElem? hget)
      have hdepth : ctx.depth = 0 := Nat.le_zero.mp (ctx.depth_le_holds.trans hholds.le)
      refine h.setStack ?_ ?_ ⟨hlocals, placeOk_of_holds_eq_zero hholds, trivial⟩
        fun ctx' hctx' => h.waiting ctx' (mem_of_mem_eraseIdx hctx')
      · rw [hstack, depthSum_cons, hdepth]
        rfl
      rw [hstack, holdsSum_cons, hholds]
      rfl
    · exact h
  | markCpuOnline cpu =>
    have hkeeps := EpochsOk.keeps_markOnline m.shared.epochs cpu
    have hreaders : (m.shared.epochs.markOnline cpu).readers = m.shared.epochs.readers := by
      unfold Epochs.markOnline
      split_ifs
      all_goals rfl
    refine ⟨h.epochs.markOnline cpu, fun cpu' => ?_, h.preempt, fun cpu' => (h.stack cpu').keeps hkeeps,
      fun ctx hctx => ⟨(h.waiting ctx hctx).1.keeps hkeeps, (h.waiting ctx hctx).2⟩,
      fun o ho cpu' => hkeeps.passed _ _ (h.log o ho cpu')⟩
    dsimp only [Machine.exec]
    rw [hreaders, h.readers]

lemma Inv.run (events : List Event) : (Machine.run events).Inv :=
  foldlRecOn events Machine.exec Inv.boot fun _ h event _ => h.exec event

/-- Whenever a callback has started or a synchronizer has returned, every outermost section that was
open on a CPU when the epoch of that call was allocated has been closed. -/
def GracePeriodsEnded (m : Machine) : Prop :=
  ∀ o ∈ m.shared.log, ∀ cpu sect, m.shared.epochs.openAt o.target cpu = some sect →
    m.shared.epochs.openSection cpu ≠ some sect

/-- The grace periods are safe in every run: in every state that is reached, the one right after a
callback starts or a synchronizer returns among them, the sections it had to wait for are closed. -/
theorem gracePeriodsEnded_run (events : List Event) : (Machine.run events).GracePeriodsEnded :=
  fun o ho cpu => ((Inv.run events).log o ho cpu).2

-- A callback does start: CPU 0 retires an object, has a quiescent state and polls.
example : (Machine.run ([.markCpuOnline 0, .spawn, .dispatch 0 0, .start 0 .tryReserveCallback,
    .start 0 (.callRcu 32768 7 (0, 0))] ++ replicate 5 (.step 0) ++
    [.start 0 .rcuQuiescentState] ++ replicate 5 (.step 0) ++
    [.start 0 .poll] ++ replicate 9 (.step 0))).shared.log = [.callbackStarts 2] := by
  decide +kernel

/-- In every run the readers of a CPU are the sections of its contexts, a CPU with readers is online
and has preemption disabled, and a task that waits for a CPU is in no section. -/
theorem readers_accounted (events : List Event) (cpu : ℕ) :
    let m := Machine.run events
    m.shared.epochs.readers cpu = depthSum (m.stack cpu) ∧
      (m.shared.epochs.readers cpu ≠ 0 →
        m.shared.epochs.online cpu = true ∧ m.shared.preemptCount cpu ≠ 0) ∧
      ∀ ctx ∈ m.waiting, ctx.depth = 0 := by
  intro m
  have h : m.Inv := Inv.run events
  have hle : m.shared.epochs.readers cpu ≤ m.shared.preemptCount cpu := by
    rw [h.readers, h.preempt]
    exact sum_le_sum fun ctx _ => ctx.depth_le_holds
  refine ⟨h.readers cpu, fun hne => ⟨h.epochs.readersOnline cpu hne, by omega⟩, fun ctx hctx => ?_⟩
  exact Nat.le_zero.mp (ctx.depth_le_holds.trans (h.waiting ctx hctx).2.le)

end Machine

end Nilix.Rcu
