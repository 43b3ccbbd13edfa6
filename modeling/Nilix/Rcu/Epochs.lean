import Mathlib.Tactic

/-!
# The epochs of RCU

`kernel/kernel_core/rcu.rs`: a writer allocates an epoch, a CPU publishes in `rcu_epoch` an epoch that it
read while it had no reader, and `COMPLETED_EPOCH` follows the minimum of the published epochs.  The
state here is made of those counters, changed by one atomic access at a time, and of a record of the
outermost read-side sections: how many each CPU has opened, and which one was open on each CPU when an
epoch was allocated.

An epoch is *passed* on a CPU (`Epochs.Passed`) when the section that was open there at its allocation
has been closed.  Passed epochs stay passed.
-/

namespace Nilix.Rcu

open Function

def maxCpus : ℕ := 64

/-- The counters, and the record of the sections. -/
structure Epochs where
  /-- `GLOBAL_EPOCH`. -/
  globalEpoch : ℕ
  /-- `COMPLETED_EPOCH`. -/
  completedEpoch : ℕ
  /-- `rcu_epoch` of a CPU. -/
  rcuEpoch : ℕ → ℕ
  /-- `RCU_READERS` of a CPU. -/
  readers : ℕ → ℕ
  /-- A bit of `online_cpu_mask`. -/
  online : ℕ → Bool
  /-- How many outermost sections a CPU has opened. -/
  sections : ℕ → ℕ
  /-- The section that was open on a CPU when an epoch was allocated. -/
  openAt : ℕ → ℕ → Option ℕ

namespace Epochs

/-- The state at boot. -/
def boot : Epochs where
  globalEpoch := 1
  completedEpoch := 1
  rcuEpoch _ := 0
  readers _ := 0
  online _ := false
  sections _ := 0
  openAt _ _ := none

variable (e : Epochs) (cpu : ℕ)

/-- The outermost section that is open on a CPU. -/
def openSection : Option ℕ :=
  if e.readers cpu = 0 then none else some (e.sections cpu)

/-! ## The atomic accesses -/

/-- The exchange of `try_allocate_epoch`, when it succeeds. -/
def allocate : Epochs :=
  { e with
    globalEpoch := e.globalEpoch + 1
    openAt := update e.openAt (e.globalEpoch + 1) e.openSection }

/-- The increment of `rcu_read_lock`. -/
def enter : Epochs :=
  { e with
    readers := update e.readers cpu (e.readers cpu + 1)
    sections := if e.readers cpu = 0 then
      update e.sections cpu (e.sections cpu + 1) else e.sections }

/-- The decrement of `rcu_read_unlock`. -/
def leave : Epochs :=
  { e with readers := update e.readers cpu (e.readers cpu - 1) }

/-- The store to `rcu_epoch`. -/
def publish (cpu epoch : ℕ) : Epochs :=
  { e with rcuEpoch := update e.rcuEpoch cpu epoch }

/-- `COMPLETED_EPOCH.fetch_max`. -/
def complete (epoch : ℕ) : Epochs :=
  { e with completedEpoch := max e.completedEpoch epoch }

/-- `mark_cpu_online_with_id`. -/
def markOnline : Epochs :=
  if cpu < maxCpus then { e with online := update e.online cpu true } else e

/-! ## Passed epochs -/

/-- An allocated epoch such that the section open on a CPU at its allocation has been closed. -/
def Passed (epoch cpu : ℕ) : Prop :=
  epoch ≤ e.globalEpoch ∧ ∀ k, e.openAt epoch cpu = some k → e.openSection cpu ≠ some k

/-- What an access never takes back. -/
structure Keeps (e e' : Epochs) : Prop where
  globalEpoch_le : e.globalEpoch ≤ e'.globalEpoch
  online : ∀ cpu, e.online cpu = true → e'.online cpu = true
  passed : ∀ epoch cpu, e.Passed epoch cpu → e'.Passed epoch cpu

lemma Keeps.refl : Keeps e e := ⟨le_rfl, fun _ h => h, fun _ _ h => h⟩

/-- On a CPU without readers every allocated epoch is passed. -/
lemma passed_of_readers_eq_zero {e : Epochs} {epoch cpu : ℕ} (hle : epoch ≤ e.globalEpoch)
    (h : e.readers cpu = 0) : e.Passed epoch cpu := by
  refine ⟨hle, fun k _ => ?_⟩
  unfold openSection
  rw [if_pos h]
  exact Option.some_ne_none k |>.symm

end Epochs

open Epochs

/-- What holds of the counters at every moment. -/
structure EpochsOk (e : Epochs) : Prop where
  /-- A recorded section has been opened. -/
  opened : ∀ epoch cpu k, e.openAt epoch cpu = some k → k ≤ e.sections cpu
  /-- An epoch older than a passed one is passed. -/
  older : ∀ epoch epoch' cpu, epoch ≤ epoch' → e.Passed epoch' cpu → e.Passed epoch cpu
  /-- A published epoch is passed on its CPU. -/
  published : ∀ cpu, e.Passed (e.rcuEpoch cpu) cpu
  /-- The completed epoch is passed everywhere. -/
  completed : ∀ cpu, e.Passed e.completedEpoch cpu
  /-- Readers run on online CPUs. -/
  readersOnline : ∀ cpu, e.readers cpu ≠ 0 → e.online cpu = true
  /-- The mask has one bit for each CPU. -/
  online_lt : ∀ cpu, e.online cpu = true → cpu < maxCpus

namespace EpochsOk

variable {e : Epochs} {cpu : ℕ}

lemma boot : EpochsOk Epochs.boot where
  opened _ _ _ h := nomatch h
  older _ _ _ hle h := ⟨hle.trans h.1, fun _ hk => nomatch hk⟩
  published _ := ⟨Nat.zero_le _, fun _ hk => nomatch hk⟩
  completed _ := ⟨le_rfl, fun _ hk => nomatch hk⟩
  readersOnline _ h := absurd rfl h
  online_lt _ h := nomatch h

/-- An access that leaves the global epoch, the mask and the record: on every CPU the open section
stays, or every epoch is passed. -/
structure Local (e e' : Epochs) : Prop where
  globalEpoch : e'.globalEpoch = e.globalEpoch
  online : e'.online = e.online
  openAt : e'.openAt = e.openAt
  cases : ∀ cpu, e'.openSection cpu = e.openSection cpu ∨
    ∀ epoch ≤ e.globalEpoch, e'.Passed epoch cpu

namespace Local

variable {e' : Epochs}

lemma keeps (h : Local e e') : e.Keeps e' := by
  refine ⟨h.globalEpoch.ge, fun cpu honline => h.online ▸ honline, fun epoch cpu hpassed => ?_⟩
  rcases h.cases cpu with hsame | hall
  · unfold Passed
    rw [h.globalEpoch, h.openAt, hsame]
    exact hpassed
  · exact hall epoch hpassed.1

lemma older (h : Local e e') (hok : EpochsOk e) (epoch epoch' cpu : ℕ) (hle : epoch ≤ epoch')
    (hpassed : e'.Passed epoch' cpu) : e'.Passed epoch cpu := by
  rcases h.cases cpu with hsame | hall
  · unfold Passed at hpassed
    rw [h.globalEpoch, h.openAt, hsame] at hpassed
    exact h.keeps.passed _ _ (hok.older _ _ _ hle hpassed)
  · exact hall epoch (hle.trans (h.globalEpoch ▸ hpassed.1))

/-- Such an access keeps the invariant when what it publishes or completes is passed. -/
lemma epochsOk (h : Local e e') (hok : EpochsOk e)
    (hopened : ∀ cpu, e.sections cpu ≤ e'.sections cpu)
    (hpublished : ∀ cpu, e.Passed (e'.rcuEpoch cpu) cpu)
    (hcompleted : ∀ cpu, e.Passed e'.completedEpoch cpu)
    (honline : ∀ cpu, e'.readers cpu ≠ 0 → e.online cpu = true) : EpochsOk e' where
  opened epoch cpu k hk := (hok.opened epoch cpu k (h.openAt ▸ hk)).trans (hopened cpu)
  older := h.older hok
  published cpu := h.keeps.passed _ _ (hpublished cpu)
  completed cpu := h.keeps.passed _ _ (hcompleted cpu)
  readersOnline cpu hreaders := h.online ▸ honline cpu hreaders
  online_lt cpu hcpu := hok.online_lt cpu (h.online ▸ hcpu)

end Local

lemma local_publish (e : Epochs) (cpu epoch : ℕ) : Local e (e.publish cpu epoch) :=
  ⟨rfl, rfl, rfl, fun _ => .inl rfl⟩

lemma publish (h : EpochsOk e) {epoch : ℕ} (hpassed : e.Passed epoch cpu) :
    EpochsOk (e.publish cpu epoch) := by
  refine (local_publish e cpu epoch).epochsOk h (fun _ => le_rfl) ?_ h.completed h.readersOnline
  intro cpu'
  change e.Passed (update e.rcuEpoch cpu epoch cpu') cpu'
  by_cases hcpu : cpu' = cpu
  · subst hcpu
    rwa [update_self]
  rw [update_of_ne hcpu]
  exact h.published cpu'

lemma local_complete (e : Epochs) (epoch : ℕ) : Local e (e.complete epoch) :=
  ⟨rfl, rfl, rfl, fun _ => .inl rfl⟩

lemma complete (h : EpochsOk e) {epoch : ℕ} (hpassed : ∀ cpu, e.Passed epoch cpu) :
    EpochsOk (e.complete epoch) := by
  refine (local_complete e epoch).epochsOk h (fun _ => le_rfl) h.published ?_ h.readersOnline
  intro cpu'
  change e.Passed (max e.completedEpoch epoch) cpu'
  rcases max_choice e.completedEpoch epoch with hmax | hmax
  · rw [hmax]
    exact h.completed cpu'
  rw [hmax]
  exact hpassed cpu'

lemma keeps_markOnline (e : Epochs) (cpu : ℕ) : e.Keeps (e.markOnline cpu) := by
  unfold Epochs.markOnline
  split_ifs
  · refine ⟨le_rfl, fun cpu' honline => ?_, fun _ _ hpassed => hpassed⟩
    dsimp only
    by_cases hcpu : cpu' = cpu
    · rw [hcpu, update_self]
    · rwa [update_of_ne hcpu]
  · exact .refl e

lemma markOnline (h : EpochsOk e) (cpu : ℕ) : EpochsOk (e.markOnline cpu) := by
  have hkeeps := keeps_markOnline e cpu
  unfold Epochs.markOnline at hkeeps ⊢
  split_ifs at hkeeps ⊢ with hlt
  · refine ⟨h.opened, h.older, h.published, h.completed, fun cpu' hreaders => ?_, fun cpu' => ?_⟩
    · exact hkeeps.online cpu' (h.readersOnline cpu' hreaders)
    · by_cases hcpu : cpu' = cpu
      · exact fun _ => hcpu ▸ hlt
      · dsimp only
        rw [update_of_ne hcpu]
        exact h.online_lt cpu'
  · exact h

/-- The section that `rcu_read_lock` opens is newer than every recorded one. -/
lemma local_enter (h : EpochsOk e) (cpu : ℕ) : Local e (e.enter cpu) := by
  refine ⟨rfl, rfl, rfl, fun cpu' => ?_⟩
  by_cases hcpu : cpu' = cpu
  · subst hcpu
    by_cases hzero : e.readers cpu' = 0
    · refine .inr fun epoch hle => ⟨hle, fun k hk hopen => ?_⟩
      have hle' := h.opened epoch cpu' k hk
      simp only [openSection, Epochs.enter, hzero, update_self, if_true, zero_add,
        one_ne_zero, if_false, Option.some.injEq] at hopen
      omega
    left
    simp only [openSection, Epochs.enter, hzero, update_self, if_false, Nat.add_one_ne_zero]
  · left
    by_cases hzero : e.readers cpu = 0
    · simp only [openSection, Epochs.enter, hzero, if_true, update_of_ne hcpu]
    · simp only [openSection, Epochs.enter, hzero, if_false, update_of_ne hcpu]

lemma enter (h : EpochsOk e) (honline : e.online cpu = true) : EpochsOk (e.enter cpu) := by
  refine (h.local_enter cpu).epochsOk h ?_ h.published h.completed ?_
  · intro cpu'
    by_cases hcpu : cpu' = cpu
    · subst hcpu
      simp only [Epochs.enter]
      split_ifs
      · rw [update_self]
        exact Nat.le_succ _
      · exact le_rfl
    simp only [Epochs.enter]
    split_ifs
    · rw [update_of_ne hcpu]
    · exact le_rfl
  · intro cpu' hreaders
    by_cases hcpu : cpu' = cpu
    · exact hcpu ▸ honline
    refine h.readersOnline cpu' ?_
    simpa only [Epochs.enter, update_of_ne hcpu] using hreaders

/-- When the last reader of a CPU leaves, nothing is open there. -/
lemma local_leave (e : Epochs) (cpu : ℕ) : Local e (e.leave cpu) := by
  refine ⟨rfl, rfl, rfl, fun cpu' => ?_⟩
  by_cases hcpu : cpu' = cpu
  · subst hcpu
    by_cases hlast : e.readers cpu' - 1 = 0
    · refine .inr fun epoch hle => passed_of_readers_eq_zero hle ?_
      simp only [Epochs.leave, update_self, hlast]
    left
    have hne : e.readers cpu' ≠ 0 := by omega
    simp only [openSection, Epochs.leave, update_self, hlast, hne, if_false]
  left
  simp only [openSection, Epochs.leave, update_of_ne hcpu]

lemma leave (h : EpochsOk e) (cpu : ℕ) : EpochsOk (e.leave cpu) := by
  refine (local_leave e cpu).epochsOk h (fun _ => le_rfl) h.published h.completed ?_
  intro cpu' hreaders
  refine h.readersOnline cpu' ?_
  by_cases hcpu : cpu' = cpu
  · subst hcpu
    simp only [Epochs.leave, update_self] at hreaders
    omega
  · simpa only [Epochs.leave, update_of_ne hcpu] using hreaders

/-- A new epoch leaves the record of the older ones. -/
lemma keeps_allocate (e : Epochs) : e.Keeps e.allocate := by
  refine ⟨Nat.le_succ _, fun _ h => h, fun epoch cpu ⟨hle, hpassed⟩ => ?_⟩
  refine ⟨hle.trans (Nat.le_succ _), fun k hk => hpassed k ?_⟩
  have hne : epoch ≠ e.globalEpoch + 1 := by omega
  simpa only [Epochs.allocate, update_of_ne hne] using hk

lemma allocate (h : EpochsOk e) : EpochsOk e.allocate := by
  refine ⟨?_, ?_, fun cpu => (keeps_allocate e).passed _ _ (h.published cpu),
    fun cpu => (keeps_allocate e).passed _ _ (h.completed cpu), h.readersOnline, h.online_lt⟩
  · intro epoch cpu k hk
    by_cases hnew : epoch = e.globalEpoch + 1
    · subst hnew
      simp only [Epochs.allocate, update_self, openSection] at hk
      split_ifs at hk
      exact (Option.some.inj hk).ge
    simp only [Epochs.allocate, update_of_ne hnew] at hk
    exact h.opened epoch cpu k hk
  intro epoch epoch' cpu hle hpassed
  by_cases hnew : epoch' = e.globalEpoch + 1
  · -- The new epoch is passed only where nothing is open.
    subst hnew
    have hclosed : e.openSection cpu = none := by
      rcases hopen : e.openSection cpu with _ | k
      · rfl
      refine absurd hopen (hpassed.2 k ?_)
      simp only [Epochs.allocate, update_self, hopen]
    refine ⟨hle, fun k _ hopen => ?_⟩
    have hopen' : e.openSection cpu = some k := hopen
    rw [hclosed] at hopen'
    cases hopen'
  · have hle' : epoch' ≤ e.globalEpoch := by
      have hbound : epoch' ≤ e.globalEpoch + 1 := hpassed.1
      omega
    refine (keeps_allocate e).passed _ _ (h.older epoch epoch' cpu hle ⟨hle', fun k hk => hpassed.2 k ?_⟩)
    simpa only [Epochs.allocate, update_of_ne hnew] using hk

end EpochsOk

end Nilix.Rcu
