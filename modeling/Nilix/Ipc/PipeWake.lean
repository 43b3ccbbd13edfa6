import Nilix.Ipc.PipeStream

/-!
# No waiter of a pipe is stranded

A write wakes one reader only.  That is enough because a wake is never dropped: a reader that was
woken looks at the ring, and whenever it leaves bytes behind, fails its commit or is interrupted, it
passes the wake on.  `PipeWorld.Responsible` names the tasks that carry a wake, and
`PipeWorld.Covered` says that buffered bytes and a sleeping reader imply such a task.  Writers are
woken all at once, so a sleeping writer with room only waits for a wake that is already on its way.

In a state in which every task sleeps or has returned, no task carries a wake, and nobody sleeps who
could go on.

All of this rests on `finish_wait` seeing the signal that made its task ready.  When that signal is
discarded first, the task leaves with its entry still queued, and a later wake is spent on this entry;
`PipeWorld.SignalsKept` excludes that.
-/

namespace Nilix.Ipc

open Function List Phase PipeWorld

namespace Phase

/-- The task has been woken, or is about to wake a reader, and has not looked at the ring since. -/
def carriesWake : Phase → Bool
  | readResume _ | readPassOn _ _ | readWakeOne _ _ | writeWakeOne _ _ => true
  | readEnter _ waited | readFirst _ waited => waited
  | readWakeWriters _ pass _ => pass
  | _ => false

/-- The task is about to wake all writers. -/
def wakesWriters : Phase → Bool
  | readWakeWriters _ _ _ => true
  | _ => false

/-- The phase holds no queue entry, no transaction and no wake of writers. -/
def plain (phase : Phase) : Bool :=
  phase.waitsOn.isNone && phase.transaction.isNone && !phase.wakesWriters

/-- A task sleeps on the queue that holds its entry. -/
lemma waitsOn_of_sleepsOn {phase : Phase} {side : PipeEndType}
    (h : phase.sleepsOn = some side) : phase.waitsOn = some side := by
  cases phase <;> simp_all [sleepsOn, waitsOn]

/-- A reader whose entry may be queued sleeps or carries the wake that ended its sleep. -/
lemma sleepsOn_or_carriesWake {phase : Phase} (h : phase.waitsOn = some .read) :
    phase.sleepsOn = some .read ∨ phase.carriesWake = true := by
  cases phase <;> simp_all [sleepsOn, waitsOn, carriesWake]

end Phase

/-- The task whose signal the event discards. -/
def PipeOp.discards : PipeOp → Option ProcessId
  | .discard pid => some pid
  | _ => none

namespace PipeWorld

variable (w : PipeWorld)

/-- The task sleeps on the queue of an end: it is blocked and no signal is pending for it. -/
def asleep (pid : ProcessId) (side : PipeEndType) : Prop :=
  (w.phase pid).sleepsOn = some side ∧ w.blocked pid = true ∧ w.signalled pid = false
  deriving Decidable

/-- Every task sleeps or is in no call. -/
def Quiescent : Prop :=
  ∀ pid, (w.phase pid).finished = true ∨ ∃ side, w.asleep pid side

/-- The task carries a wake of the readers. -/
def Responsible (pid : ProcessId) : Prop :=
  (w.phase pid).carriesWake = true ∨
    ((w.phase pid).sleepsOn = some .read ∧ ¬w.asleep pid .read)

/-- If there are bytes to take and a reader sleeps, some task carries a wake. -/
def Covered : Prop :=
  w.dataLeft = true → ∀ qid, w.asleep qid .read → ∃ pid, w.Responsible pid

/-- Every signal that is discarded is one of a task that is in no wait. -/
def SignalsKept (w : PipeWorld) : List PipeOp → Prop
  | [] => True
  | op :: ops => (∀ pid ∈ op.discards, (w.phase pid).waitsOn = none) ∧ SignalsKept (w.exec op) ops

instance SignalsKept.decidable (w : PipeWorld) :
    (ops : List PipeOp) → Decidable (w.SignalsKept ops)
  | [] => inferInstanceAs (Decidable True)
  | op :: ops =>
    have := SignalsKept.decidable (w.exec op) ops
    inferInstanceAs (Decidable ((∀ pid ∈ op.discards, (w.phase pid).waitsOn = none) ∧
      SignalsKept (w.exec op) ops))

/-- The invariant of the wait queues, the ends, the transaction and the room. -/
structure WaitInv (w : PipeWorld) : Prop where
  nodup : ∀ side, (w.waiters side).Nodup
  /-- A queue holds waiting tasks only. -/
  waiting : ∀ side pid, pid ∈ w.waiters side → (w.phase pid).waitsOn = some side
  /-- Only a signal makes a queued task ready. -/
  unresolved : ∀ side pid, pid ∈ w.waiters side → w.blocked pid = true ∨ w.signalled pid = true
  /-- A blocked task is queued. -/
  queued : ∀ side pid, (w.phase pid).waitsOn = some side → w.blocked pid = true →
    pid ∈ w.waiters side
  /-- A task that left its sleep while blocked did so for a signal. -/
  resumed : ∀ pid, (w.phase pid).waitsOn.isSome → (w.phase pid).sleepsOn = none →
    w.blocked pid = true → w.signalled pid = true
  /-- Nobody sleeps on a pipe whose other end is closed. -/
  open' : ∀ pid, (w.asleep pid .read → w.writers ≠ 0) ∧ (w.asleep pid .write → w.readers ≠ 0)
  /-- A transaction in flight belongs to a task. -/
  held : w.inner.readInflight = true → ∃ pid, (w.phase pid).transaction.isSome
  /-- A writer sleeps in spite of room only while a wake of all writers is on its way. -/
  room : ∀ pid call total, w.phase pid = .writeSleep call total → w.asleep pid .write →
    call.room w.inner → ∃ qid, (w.phase qid).wakesWriters = true

variable {w w' : PipeWorld} {pid : ProcessId}

lemma WaitInv.new (capacity : ℕ) (h : 0 < capacity) : WaitInv (PipeWorld.new capacity h) := by
  constructor <;> simp [PipeWorld.new, asleep, waitsOn, sleepsOn, PipeInner.new]

/-! ## Carrying wakes -/

lemma Covered.of_not_dataLeft (h : w.dataLeft = false) : Covered w := by
  intro hdata
  rw [h] at hdata
  cases hdata

lemma Covered.of_carriesWake (pid : ProcessId) (h : (w.phase pid).carriesWake = true) : Covered w :=
  fun _ _ _ => ⟨pid, .inl h⟩

/-- A step of one task after which no further reader sleeps and there are no further bytes keeps
the wakes of the other tasks, so the task only has to keep its own. -/
lemma Covered.step (h : Covered w) (pid : ProcessId)
    (hothers : ∀ qid ≠ pid, w'.phase qid = w.phase qid)
    (hasleep : ∀ qid, w'.asleep qid .read → w.asleep qid .read)
    (hdata : w'.dataLeft = true → w.dataLeft = true)
    (hpid : w.Responsible pid → w'.Responsible pid) : Covered w' := by
  intro hleft qid hq
  obtain ⟨r, hr⟩ := h (hdata hleft) qid (hasleep qid hq)
  rcases eq_or_ne r pid with rfl | hne
  · exact ⟨r, hpid hr⟩
  refine ⟨r, hr.imp (fun hc => (hothers r hne).symm ▸ hc) ?_⟩
  rintro ⟨hs, hawake⟩
  exact ⟨(hothers r hne).symm ▸ hs, fun ha => hawake (hasleep r ha)⟩

/-- After `wake_one` the woken reader carries the wake; if none was woken, none sleeps. -/
lemma Covered.wakeOne (h : WaitInv w) : Covered (w.wakeOne .read) := by
  intro _ qid hq
  rcases WaitQueue.wakeOne_cases (w.waiters .read) w.blocked with
    ⟨r, front, back, hqueue, -, hwake, -⟩ | ⟨hwake, hnone⟩
  · -- the task taken off the queue is now ready
    have hmem : r ∈ w.waiters .read := by
      rw [hqueue]
      simp
    have hready : (w.wakeOne .read).blocked r = false := by simp [PipeWorld.wakeOne, hwake]
    refine ⟨r, ?_⟩
    rcases sleepsOn_or_carriesWake (h.waiting .read r hmem) with hs | hc
    · refine .inr ⟨hs, fun ha => ?_⟩
      rw [ha.2.1] at hready
      cases hready
    · exact .inl hc
  · -- a sleeping reader would be queued and blocked
    obtain ⟨hs, hblocked, -⟩ := hq
    have hblocked' : w.blocked qid = true := by simpa [PipeWorld.wakeOne, hwake] using hblocked
    have hmem := h.queued .read qid (waitsOn_of_sleepsOn hs) hblocked'
    rw [hnone qid hmem] at hblocked'
    cases hblocked'

/-! ## Steps that leave the queues alone -/

/-- Two worlds with the same queues, scheduler state and ends. -/
structure SameSched (w' w : PipeWorld) : Prop where
  waiters : w'.waiters = w.waiters
  blocked : w'.blocked = w.blocked
  signalled : w'.signalled = w.signalled
  readers : w'.readers = w.readers
  writers : w'.writers = w.writers

variable {phase : Phase}

lemma sleepsOn_of_waitsOn (h : phase.waitsOn = none) : phase.sleepsOn = none := by
  cases hs : phase.sleepsOn with
  | none => rfl
  | some =>
    rw [waitsOn_of_sleepsOn hs] at h
    cases h

lemma WaitInv.not_mem (h : WaitInv w) (hw : (w.phase pid).waitsOn = none) (side : PipeEndType) :
    pid ∉ w.waiters side := by
  intro hmem
  rw [h.waiting side pid hmem] at hw
  cases hw

variable {side : PipeEndType} {qid : ProcessId}

/-- Nobody falls asleep when a task goes on to a phase without a sleep. -/
lemma asleep_of_goto (hnew : phase.sleepsOn = none) (h : (w.goto pid phase).asleep qid side) :
    w.asleep qid side := by
  obtain ⟨hs, hb, hsig⟩ := h
  change (update w.phase pid phase qid).sleepsOn = _ at hs
  rcases eq_or_ne qid pid with rfl | hne
  · simp [hnew] at hs
  · exact ⟨by simpa [hne] using hs, hb, hsig⟩

/-- What the queues say of one task. -/
structure Registered (queue : PipeEndType → Prop) (phase : Phase) (blocked signalled : Bool) :
    Prop where
  waiting : ∀ side, queue side → phase.waitsOn = some side
  unresolved : ∀ side, queue side → blocked = true ∨ signalled = true
  queued : ∀ side, phase.waitsOn = some side → blocked = true → queue side
  resumed : phase.waitsOn.isSome → phase.sleepsOn = none → blocked = true → signalled = true

lemma WaitInv.registered (h : WaitInv w) (pid : ProcessId) :
    Registered (pid ∈ w.waiters ·) (w.phase pid) (w.blocked pid) (w.signalled pid) :=
  ⟨fun side => h.waiting side pid, fun side => h.unresolved side pid,
    fun side => h.queued side pid, h.resumed pid⟩

/-- All tasks but one are as they were. -/
structure SameOthers (w' w : PipeWorld) (pid : ProcessId) : Prop where
  phase : ∀ q ≠ pid, w'.phase q = w.phase q
  blocked : ∀ q ≠ pid, w'.blocked q = w.blocked q
  signalled : ∀ q ≠ pid, w'.signalled q = w.signalled q
  waiters : ∀ q ≠ pid, ∀ side, q ∈ w'.waiters side ↔ q ∈ w.waiters side

lemma SameOthers.asleep (h : SameOthers w' w pid) {q : ProcessId} (hne : q ≠ pid)
    {side : PipeEndType} (ha : w'.asleep q side) : w.asleep q side := by
  simpa [PipeWorld.asleep, h.phase q hne, h.blocked q hne, h.signalled q hne] using ha

/-- One task moves.  It is registered, it falls asleep only if it may, and it leaves no transaction
and no sleeping writer behind that counted on it. -/
lemma WaitInv.move (h : WaitInv w) (hothers : SameOthers w' w pid)
    (hnodup : ∀ side, (w'.waiters side).Nodup)
    (hreg : Registered (pid ∈ w'.waiters ·) (w'.phase pid) (w'.blocked pid) (w'.signalled pid))
    (hends : w'.readers = w.readers ∧ w'.writers = w.writers) (hsleep : ∀ side, w'.asleep pid side →
      ((side = .read → w.writers ≠ 0) ∧ (side = .write → w.readers ≠ 0)) ∧
        ∀ call total, w'.phase pid = .writeSleep call total → ¬call.room w'.inner)
    (hheld : w'.inner.readInflight = true → (w'.phase pid).transaction.isSome ∨
      w.inner.readInflight = true ∧ (w.phase pid).transaction = none)
    (hroom : (w'.phase pid).wakesWriters = true ∨
      ((w.phase pid).wakesWriters = true → ∀ qid, ¬w.asleep qid .write) ∧
        ∀ call : WriteCall, call.room w'.inner → call.room w.inner) : WaitInv w' := by
  have htasks : ∀ q, Registered (q ∈ w'.waiters ·) (w'.phase q) (w'.blocked q) (w'.signalled q) := by
    intro q
    rcases eq_or_ne q pid with rfl | hne
    · exact hreg
    simp only [hothers.phase q hne, hothers.blocked q hne, hothers.signalled q hne,
      hothers.waiters q hne]
    exact h.registered q
  refine ⟨hnodup, fun side q => (htasks q).waiting side, fun side q => (htasks q).unresolved side,
    fun side q => (htasks q).queued side, fun q => (htasks q).resumed, fun q => ?_, fun hin => ?_,
    fun q call total hq ha hr => ?_⟩
  · rw [hends.1, hends.2]
    rcases eq_or_ne q pid with rfl | hne
    · exact ⟨fun ha => (hsleep _ ha).1.1 rfl, fun ha => (hsleep _ ha).1.2 rfl⟩
    exact ⟨fun ha => (h.open' q).1 (hothers.asleep hne ha),
      fun ha => (h.open' q).2 (hothers.asleep hne ha)⟩
  · rcases hheld hin with htr | ⟨hin, htr⟩
    · exact ⟨pid, htr⟩
    · obtain ⟨q, hq⟩ := h.held hin
      refine ⟨q, ?_⟩
      rw [hothers.phase q]
      · exact hq
      rintro rfl
      simp [htr] at hq
  · rcases hroom with hwake | ⟨hnone, hmono⟩
    · exact ⟨pid, hwake⟩
    · rcases eq_or_ne q pid with rfl | hne
      · exact absurd hr ((hsleep _ ha).2 call total hq)
      · have ha' := hothers.asleep hne ha
        obtain ⟨r, hwakes⟩ := h.room q call total (hothers.phase q hne ▸ hq) ha' (hmono call hr)
        refine ⟨r, ?_⟩
        rw [hothers.phase r]
        · exact hwakes
        rintro rfl
        exact hnone hwakes q ha'

/-- A task that is in no queue goes on to a phase without a wait. -/
lemma WaitInv.step (h : WaitInv w) (pid : ProcessId) {phase : Phase} (hsame : SameSched w' w)
    (hphase : w'.phase = update w.phase pid phase)
    (hfree : ∀ side, pid ∉ w.waiters side) (hnew : phase.waitsOn = none)
    (hheld : w'.inner.readInflight = true → phase.transaction.isSome ∨
      w.inner.readInflight = true ∧ (w.phase pid).transaction = none)
    (hroom : phase.wakesWriters = true ∨
      ((w.phase pid).wakesWriters = true → ∀ qid, ¬w.asleep qid .write) ∧
        ∀ call : WriteCall, call.room w'.inner → call.room w.inner) : WaitInv w' := by
  have hself : w'.phase pid = phase := by rw [hphase, update_self]
  have hothers : SameOthers w' w pid :=
    ⟨fun q hne => by rw [hphase, update_of_ne hne], by simp [hsame.blocked],
      by simp [hsame.signalled], by simp [hsame.waiters]⟩
  refine h.move hothers (hsame.waiters ▸ h.nodup) ?_ ⟨hsame.readers, hsame.writers⟩ ?_
    (hself ▸ hheld) (hself ▸ hroom)
  · constructor <;> simp [hsame.waiters, hfree, hself, hnew]
  intro side ha
  have hs := ha.1
  rw [hself, sleepsOn_of_waitsOn hnew] at hs
  cases hs

/-- A task that does not wait goes on to a phase without a wait; nothing else changes. -/
lemma WaitInv.goto (h : WaitInv w) (hold : (w.phase pid).waitsOn = none)
    (hnew : phase.waitsOn = none) (htr : (w.phase pid).transaction = none)
    (hwake : (w.phase pid).wakesWriters = false) : WaitInv (w.goto pid phase) :=
  h.step pid ⟨rfl, rfl, rfl, rfl, rfl⟩ rfl (h.not_mem hold) hnew (fun hin => .inr ⟨hin, htr⟩)
    (.inr ⟨fun hw => absurd hw (by simp [hwake]), fun _ hr => hr⟩)

/-- The task keeps its wake, or there is nothing to take. -/
lemma Covered.goto (h : Covered w) (hold : (w.phase pid).waitsOn = none)
    (hnew : phase.waitsOn = none)
    (hduty : (w.phase pid).carriesWake = true → phase.carriesWake = true ∨ w.dataLeft = false) :
    Covered (w.goto pid phase) := by
  cases hdata : w.dataLeft with
  | false => exact .of_not_dataLeft hdata
  | true =>
    refine h.step pid (fun qid hne => ?_) (fun qid => ?_) (fun hd => hd) ?_
    · simp [hne]
    · exact asleep_of_goto (sleepsOn_of_waitsOn hnew)
    · rintro (hc | ⟨hs, -⟩)
      · rcases hduty hc with hc' | hd
        · exact .inl (by simpa using hc')
        · rw [hdata] at hd
          cases hd
      · rw [sleepsOn_of_waitsOn hold] at hs
        cases hs

lemma not_responsible (hc : (w.phase pid).carriesWake = false)
    (hs : (w.phase pid).sleepsOn ≠ some .read) : ¬w.Responsible pid := by
  rintro (hcarries | ⟨hsleeps, -⟩)
  · simp [hc] at hcarries
  · exact hs hsleeps

/-- A task that carries no wake goes on to a phase without a sleep. -/
lemma Covered.pass (h : Covered w) (hnot : ¬w.Responsible pid) (hnew : phase.sleepsOn = none) :
    Covered (w.goto pid phase) :=
  h.step pid (fun q hne => by simp [hne]) (fun q => asleep_of_goto hnew) (fun hd => hd)
    fun hr => absurd hr hnot

/-! ## Wakes -/

/-- Tasks leave a queue and are readied. -/
@[simps]
def release (w : PipeWorld) (side : PipeEndType) (rest : List ProcessId)
    (blocked : ProcessId → Bool) : PipeWorld :=
  { w with
    waiters := update w.waiters side rest
    blocked := blocked }

/-- Exactly the tasks that leave the queue are readied. -/
structure Releases (w : PipeWorld) (side : PipeEndType) (rest : List ProcessId)
    (blocked : ProcessId → Bool) : Prop where
  sublist : rest.Sublist (w.waiters side)
  keep : ∀ pid, pid ∉ w.waiters side ∨ pid ∈ rest → blocked pid = w.blocked pid
  ready : ∀ pid ∈ w.waiters side, pid ∉ rest → blocked pid = false

variable {rest : List ProcessId} {blocked : ProcessId → Bool}

lemma Releases.blocked_of_blocked (h : Releases w side rest blocked) (hb : blocked pid = true) :
    w.blocked pid = true := by
  by_cases hmem : pid ∈ w.waiters side
  · by_cases hrest : pid ∈ rest
    · rwa [h.keep pid (.inr hrest)] at hb
    · rw [h.ready pid hmem hrest] at hb
      cases hb
  · rwa [h.keep pid (.inl hmem)] at hb

lemma Releases.asleep (h : Releases w side rest blocked) {end' : PipeEndType}
    (ha : (w.release side rest blocked).asleep pid end') : w.asleep pid end' :=
  ⟨ha.1, h.blocked_of_blocked ha.2.1, ha.2.2⟩

lemma WaitInv.release (h : WaitInv w) (hrel : Releases w side rest blocked) :
    WaitInv (w.release side rest blocked) := by
  have hmem : ∀ s q, q ∈ (w.release side rest blocked).waiters s → q ∈ w.waiters s := by
    intro s q hq
    rcases eq_or_ne s side with rfl | hne
    · exact hrel.sublist.subset (by simpa using hq)
    · simpa [hne] using hq
  constructor
  · intro s
    rcases eq_or_ne s side with rfl | hne
    · simpa using (h.nodup s).sublist hrel.sublist
    · simpa [hne] using h.nodup s
  · exact fun s q hq => h.waiting s q (hmem s q hq)
  · intro s q hq
    -- the task is in one queue only, and what is left of that queue keeps its state
    have hkeep : blocked q = w.blocked q := by
      apply hrel.keep
      rcases eq_or_ne s side with rfl | hne
      · exact .inr (by simpa using hq)
      refine .inl fun hq' => hne ?_
      have hs := h.waiting s q (hmem s q hq)
      rw [h.waiting side q hq'] at hs
      exact (Option.some.inj hs).symm
    simpa [hkeep] using h.unresolved s q (hmem s q hq)
  · intro s q hs hb
    have hq := h.queued s q hs (hrel.blocked_of_blocked hb)
    rcases eq_or_ne s side with rfl | hne
    · by_contra hrest
      have hready := hrel.ready q hq (by simpa using hrest)
      rw [show blocked q = true from hb] at hready
      cases hready
    · simpa [hne] using hq
  · exact fun q hw hs hb => h.resumed q hw hs (hrel.blocked_of_blocked hb)
  · exact fun q => ⟨fun ha => (h.open' q).1 (hrel.asleep ha), fun ha => (h.open' q).2 (hrel.asleep ha)⟩
  · exact h.held
  · exact fun q call total hq ha hr => h.room q call total hq (hrel.asleep ha) hr

/-- A release of writers keeps the wakes of the readers. -/
lemma Covered.release (h : Covered w) (hrel : Releases w side rest blocked) :
    Covered (w.release side rest blocked) := by
  refine h.step 0 (fun _ _ => rfl) (fun _ => hrel.asleep) (fun hd => hd) ?_
  exact fun hr => hr.imp id fun ⟨hs, hn⟩ => ⟨hs, fun ha => hn (hrel.asleep ha)⟩

lemma WaitInv.releases_wakeOne (h : WaitInv w) (side : PipeEndType) :
    Releases w side (WaitQueue.wakeOne (w.waiters side) w.blocked).1
      (WaitQueue.wakeOne (w.waiters side) w.blocked).2 := by
  rcases WaitQueue.wakeOne_cases (w.waiters side) w.blocked with
    ⟨r, front, back, hqueue, -, hwake, hfront⟩ | ⟨hwake, hnone⟩
  · have hnodup := h.nodup side
    rw [hqueue] at hnodup
    obtain ⟨-, hback, hdisj⟩ := nodup_append.mp hnodup
    have hr : r ∉ back := (nodup_cons.mp hback).1
    rw [hwake]
    refine ⟨?_, ?_, ?_⟩
    · rw [hqueue]
      exact ((sublist_cons_self r back).trans (sublist_append_right _ _))
    · intro q hq
      have hne : q ≠ r := by
        rintro rfl
        rcases hq with hq | hq
        · exact hq (by rw [hqueue]; simp)
        · exact hr hq
      simp [hne]
    · intro q hq hrest
      rcases eq_or_ne q r with rfl | hne
      · simp
      rw [hqueue] at hq
      have hq' : q ∈ front := by simpa [hne, hrest] using hq
      simpa [hne] using hfront q hq'
  · rw [hwake]
    exact ⟨nil_sublist _, fun _ _ => rfl, fun q hq _ => hnone q hq⟩

lemma releases_wakeAll (side : PipeEndType) :
    Releases w side (WaitQueue.wakeAll (w.waiters side) w.blocked).1
      (WaitQueue.wakeAll (w.waiters side) w.blocked).2 := by
  refine ⟨?_, ?_, ?_⟩
  · rw [WaitQueue.wakeAll_fst]
    exact nil_sublist _
  · rintro q (hq | hq)
    · simp [hq]
    · simp at hq
  · intro q hq _
    simp [hq]

lemma WaitInv.releases_cancelWait (h : WaitInv w) (side : PipeEndType) :
    Releases w side (WaitQueue.cancelWait (w.waiters side) w.blocked pid).1
      (WaitQueue.cancelWait (w.waiters side) w.blocked pid).2 := by
  unfold WaitQueue.cancelWait
  split
  · rename_i hmem
    have hnodup := h.nodup side
    refine ⟨erase_sublist, ?_, ?_⟩
    · intro q hq
      have hne : q ≠ pid := by
        rintro rfl
        rcases hq with hq | hq
        · exact hq hmem
        · exact (hnodup.mem_erase_iff.mp hq).1 rfl
      simp [hne]
    intro q hq hrest
    have heq : q = pid := by
      by_contra hne
      exact hrest (hnodup.mem_erase_iff.mpr ⟨hne, hq⟩)
    simp [heq]
  · exact ⟨Sublist.refl _, fun _ _ => rfl, fun q hq hrest => absurd hq hrest⟩

/-- After `wake_all` nobody sleeps on the queue. -/
lemma WaitInv.not_asleep_wakeAll (h : WaitInv w) (side : PipeEndType) (qid : ProcessId) :
    ¬(w.wakeAll side).asleep qid side := by
  rintro ⟨hs, hb, -⟩
  have hb' : w.blocked qid = true ∧ qid ∉ w.waiters side := by
    simpa [wakeAll] using hb
  exact hb'.2 (h.queued side qid (waitsOn_of_sleepsOn hs) hb'.1)

/-! ## Going to sleep and coming back -/

lemma asleep_sleep {end' : PipeEndType} (ha : ((w.sleep pid side).goto pid phase).asleep qid end') :
    qid = pid ∧ phase.sleepsOn = some end' ∨ qid ≠ pid ∧ w.asleep qid end' := by
  obtain ⟨hs, hb, hsig⟩ := ha
  rcases eq_or_ne qid pid with rfl | hne
  · exact .inl ⟨rfl, by simpa using hs⟩
  · exact .inr ⟨hne, by simpa [hne] using hs, by simpa [hne] using hb, hsig⟩

/-- A task may go to sleep when the other end is open and there is nothing for it to do. -/
lemma WaitInv.sleep (h : WaitInv w) {side : PipeEndType} {phase : Phase}
    (hold : (w.phase pid).waitsOn = none) (htr : (w.phase pid).transaction = none)
    (hwake : (w.phase pid).wakesWriters = false) (hnew : phase.sleepsOn = some side)
    (hopen : (side = .read → w.writers ≠ 0) ∧ (side = .write → w.readers ≠ 0))
    (hroom : ∀ call total, phase = .writeSleep call total → ¬call.room w.inner) :
    WaitInv ((w.sleep pid side).goto pid phase) := by
  have hmem : ∀ q s, q ∈ (w.sleep pid side).waiters s ↔ q ∈ w.waiters s ∨ q = pid ∧ s = side := by
    intro q s
    rcases eq_or_ne s side with rfl | hne
    · simp [h.not_mem hold s]
    · simp [hne]
  have hothers : SameOthers ((w.sleep pid side).goto pid phase) w pid :=
    ⟨fun q hne => by simp [hne], fun q hne => by simp [hne], fun _ _ => rfl,
      fun q hne s => (hmem q s).trans (by simp [hne])⟩
  have hwaits := waitsOn_of_sleepsOn hnew
  refine h.move hothers (fun s => ?_) ⟨fun s hs => ?_, fun _ _ => .inl (by simp), fun s hs _ => ?_,
    fun _ hs => ?_⟩ ⟨rfl, rfl⟩ (fun s ha => ⟨?_, fun call total hq => ?_⟩)
    (fun hin => .inr ⟨hin, htr⟩) (.inr ⟨fun hw => ?_, fun _ hr => hr⟩)
  · rcases eq_or_ne s side with rfl | hne
    · simpa [h.not_mem hold s] using (h.nodup s).append (nodup_singleton pid)
    · simpa [hne] using h.nodup s
  · rcases (hmem pid s).mp hs with hs | ⟨-, rfl⟩
    · exact absurd hs (h.not_mem hold s)
    · simpa using hwaits
  · have hside : side = s := by simpa [hwaits] using hs
    exact (hmem pid s).mpr (.inr ⟨rfl, hside.symm⟩)
  · simp [hnew] at hs
  · have hside : side = s := by simpa [hnew] using ha.1
    exact hside ▸ hopen
  · exact hroom call total (by simpa using hq)
  · simp [hwake] at hw

/-- A writer that goes to sleep takes no wake with it. -/
lemma Covered.sleepWrite (h : Covered w) (hnew : phase.sleepsOn = some .write)
    (hduty : (w.phase pid).carriesWake = false) (hold : (w.phase pid).waitsOn = none) :
    Covered ((w.sleep pid .write).goto pid phase) := by
  have hnot := not_responsible hduty (by simp [sleepsOn_of_waitsOn hold])
  refine h.step pid (fun q hne => by simp [hne]) (fun q ha => ?_) (fun hd => hd)
    fun hr => absurd hr hnot
  rcases asleep_sleep ha with ⟨-, hs⟩ | ⟨-, ha⟩
  · rw [hnew] at hs
    cases hs
  · exact ha

lemma WaitInv.resume (h : WaitInv w) (side : PipeEndType)
    (hold : (w.phase pid).sleepsOn = some side)
    (hawake : w.blocked pid = false ∨ w.signalled pid = true) (hnew : phase.waitsOn = some side)
    (hup : phase.sleepsOn = none) : WaitInv (w.goto pid phase) := by
  -- a sleeping task holds no transaction and wakes nobody
  have hplain : (w.phase pid).transaction = none ∧ (w.phase pid).wakesWriters = false := by
    cases hph : w.phase pid <;> simp_all [sleepsOn, transaction, wakesWriters]
  have hreg := h.registered pid
  rw [← waitsOn_of_sleepsOn hold] at hnew
  refine h.move ⟨fun q hne => by simp [hne], fun _ _ => rfl, fun _ _ => rfl, fun _ _ _ => .rfl⟩
    h.nodup ⟨fun s hs => ?_, hreg.unresolved, fun s hs => ?_, fun _ _ hb => ?_⟩ ⟨rfl, rfl⟩
    (fun s ha => ?_) (fun hin => .inr ⟨hin, hplain.1⟩) (.inr ⟨fun hw => ?_, fun _ hr => hr⟩)
  · simpa [hnew] using hreg.waiting s hs
  · exact hreg.queued s (by simpa [hnew] using hs)
  · exact hawake.resolve_left (by simpa using hb)
  · simp [PipeWorld.asleep, hup] at ha
  · simp [hplain.2] at hw

/-- A task that left its sleep takes its entry back if a signal ended the sleep, and goes on. -/
lemma WaitInv.leave (h : WaitInv w) (hold : (w.phase pid).waitsOn = some side)
    (hup : (w.phase pid).sleepsOn = none) (hnew : phase.waitsOn = none) :
    WaitInv ((if w.signalled pid then w.cancelWait pid side else w).goto pid phase) := by
  have hplain : (w.phase pid).transaction = none ∧ (w.phase pid).wakesWriters = false := by
    cases hph : w.phase pid <;> simp_all [waitsOn, transaction, wakesWriters]
  -- with or without the signal, the task is in no queue before it goes on
  have hgone : ∀ v : PipeWorld, WaitInv v → v.phase = w.phase → pid ∉ v.waiters side →
      WaitInv (v.goto pid phase) := by
    intro v hv hphase hnot
    refine hv.step pid ⟨rfl, rfl, rfl, rfl, rfl⟩ rfl ?_ hnew (fun hin => .inr ⟨hin, ?_⟩)
      (.inr ⟨fun hw => ?_, fun _ hr => hr⟩)
    · intro s hs
      have hwaits := hv.waiting s pid hs
      rw [hphase, hold] at hwaits
      cases hwaits
      exact hnot hs
    · rw [hphase]
      exact hplain.1
    · rw [hphase, hplain.2] at hw
      cases hw
  split
  · refine hgone _ (h.release (h.releases_cancelWait side)) rfl ?_
    simp only [cancelWait_waiters, update_self, WaitQueue.cancelWait]
    split
    · exact (h.nodup side).not_mem_erase
    · assumption
  rename_i hsig
  refine hgone w h rfl fun hmem => ?_
  rcases h.unresolved side pid hmem with hb | hs
  · exact hsig (h.resumed pid (by simp [hold]) hup hb)
  · exact hsig hs

/-! ## The sections -/

/-- The whole invariant. -/
structure WakeInv (w : PipeWorld) : Prop where
  wait : WaitInv w
  covered : Covered w

lemma plain_iff : phase.plain = true ↔
    phase.waitsOn = none ∧ phase.transaction = none ∧ phase.wakesWriters = false := by
  simp [plain, and_assoc]

lemma room_of_space_le {call : WriteCall} {inner inner' : PipeInner} (h : call.room inner)
    (hle : inner.space ≤ inner'.space) : call.room inner' := by
  unfold WriteCall.room at h ⊢
  split at h
  · rw [if_pos ‹_›]
    exact h.trans hle
  rw [if_neg ‹_›]
  exact h.trans_le hle

namespace WakeInv

variable {phase : Phase}

/-- A task goes from a plain phase to one without a wait and keeps its wake. -/
lemma goto (h : WakeInv w) (hold : (w.phase pid).plain = true) (hnew : phase.waitsOn = none)
    (hduty : (w.phase pid).carriesWake = true → phase.carriesWake = true ∨ w.dataLeft = false) :
    WakeInv (w.goto pid phase) := by
  obtain ⟨hwaits, htr, hwake⟩ := plain_iff.mp hold
  exact ⟨h.wait.goto hwaits hnew htr hwake, h.covered.goto hwaits hnew hduty⟩

/-- A task goes from a plain phase that carries no wake to one without a wait. -/
lemma pass (h : WakeInv w) {old : Phase} (hphase : w.phase pid = old) (hplain : old.plain = true)
    (hnone : old.carriesWake = false) (hnew : phase.waitsOn = none) : WakeInv (w.goto pid phase) :=
  h.goto (hphase ▸ hplain) hnew fun hc => by simp [hphase, hnone] at hc

lemma wakeOne (h : WaitInv w) : WakeInv (w.wakeOne .read) :=
  ⟨h.release (h.releases_wakeOne .read), .wakeOne h⟩

variable {call : ReadCall}

lemma readEmpty (h : WakeInv w) {block : PipeWorld} (hold : (w.phase pid).plain = true)
    (hdata : w.dataLeft = false) (hblock : w.writers ≠ 0 → WakeInv block) :
    WakeInv (w.readEmpty pid call block) := by
  obtain ⟨hwaits, htr, hwake⟩ := plain_iff.mp hold
  unfold PipeWorld.readEmpty
  split
  · refine ⟨h.wait.step pid ⟨rfl, rfl, rfl, rfl, rfl⟩ rfl (h.wait.not_mem hwaits) rfl
      (fun hin => .inr ⟨hin, htr⟩) (.inr ⟨fun hw => ?_, fun _ hr => hr⟩), .of_not_dataLeft hdata⟩
    rw [hwake] at hw
    cases hw
  rename_i hwriters
  split
  · exact h.goto hold rfl fun _ => .inr hdata
  · exact hblock hwriters

lemma readLook (h : WakeInv w) {waited : Bool} {block : PipeWorld}
    (hold : (w.phase pid).plain = true) (hduty : (w.phase pid).carriesWake = true → waited = true)
    (hblock : w.writers ≠ 0 → w.dataLeft = false → WakeInv block) :
    WakeInv (w.readLook pid call waited block) := by
  obtain ⟨hwaits, htr, hwake⟩ := plain_iff.mp hold
  have hnowake : (w.phase pid).wakesWriters = true → ∀ qid, ¬w.asleep qid .write := by
    intro hw
    rw [hwake] at hw
    cases hw
  unfold PipeWorld.readLook
  split
  · split
    · rename_i hdata
      have hdata' : 0 < w.inner.len ∧ w.inner.readInflight = false := by
        simpa [dataLeft] using hdata
      rw [PipeInner.beginReadTransaction_eq _ _ hdata'.1 hdata'.2]
      by_cases hdst : call.dst = 0
      · rw [if_pos hdst]
        exact h.goto hold rfl fun hc => .inl (hduty hc)
      rw [if_neg hdst]
      -- the bytes are in a transaction now, and nobody else can take them
      refine ⟨h.wait.step pid ⟨rfl, rfl, rfl, rfl, rfl⟩ rfl (h.wait.not_mem hwaits) rfl
        (fun _ => .inl rfl) (.inr ⟨hnowake, fun _ hr => hr⟩), .of_not_dataLeft ?_⟩
      simp [dataLeft]
    · rename_i hdata
      have hdata' : w.dataLeft = false := by simpa using hdata
      exact h.readEmpty hold hdata' fun hw => hblock hw hdata'
  · split
    · refine ⟨h.wait.step pid ⟨rfl, rfl, rfl, rfl, rfl⟩ rfl (h.wait.not_mem hwaits) rfl
        (fun hin => .inr ⟨?_, htr⟩) (.inl rfl), ?_⟩
      · simpa using hin
      · cases waited with
        | true =>
          apply Covered.of_carriesWake pid
          simp [carriesWake]
        | false =>
          -- the task took bytes without carrying a wake: the others keep theirs
          refine h.covered.step pid (fun q hne => by simp [hne])
            (fun q ha => (asleep_of_goto rfl ha : (w.deliver call _ _).asleep q .read)) ?_ ?_
          · intro hleft
            simp only [dataLeft, goto_inner, deliver_inner, PipeInner.readInflight_read,
              Bool.and_eq_true] at hleft ⊢
            exact ⟨decide_eq_true ‹0 < w.inner.len›, hleft.2⟩
          rintro (hc | ⟨hs, -⟩)
          · cases hduty hc
          rw [sleepsOn_of_waitsOn hwaits] at hs
          cases hs
    · rename_i hlen
      have hdata : w.dataLeft = false := by simp [dataLeft, hlen]
      exact h.readEmpty hold hdata fun hw => hblock hw hdata

lemma readFinish (h : WakeInv w) {bytes : List UInt8}
    (hphase : w.phase pid = .readCommit call bytes) (committed : Bool) :
    WakeInv (w.readFinish pid call bytes committed) := by
  have hwaits : (w.phase pid).waitsOn = none := by rw [hphase]; rfl
  unfold PipeWorld.readFinish
  cases committed with
  | true =>
    refine ⟨h.wait.step pid ⟨rfl, rfl, rfl, rfl, rfl⟩ rfl (h.wait.not_mem hwaits) rfl
      (fun hin => ?_) (.inl rfl), .of_carriesWake pid (by simp [carriesWake])⟩
    simp at hin
  | false =>
    refine ⟨h.wait.step pid ⟨rfl, rfl, rfl, rfl, rfl⟩ rfl (h.wait.not_mem hwaits) rfl
      (fun hin => ?_) (.inr ⟨fun hw => ?_, fun _ hr => ?_⟩),
      .of_carriesWake pid (by simp [carriesWake])⟩
    · simp at hin
    · rw [hphase] at hw
      cases hw
    · refine room_of_space_le hr (le_of_eq ?_)
      simp only [Bool.false_eq_true, if_false, goto_inner, PipeInner.finishReadTransaction]
      split <;> rfl

/-- A read that a signal ended passes on what it carries. -/
lemma readInterrupted (h : WakeInv w) {waited : Bool} (hold : (w.phase pid).plain = true)
    (hduty : (w.phase pid).carriesWake = true → waited = true) :
    WakeInv (w.readInterrupted pid call waited) := by
  unfold PipeWorld.readInterrupted
  split
  · exact h.goto hold rfl fun _ => .inl rfl
  · exact h.goto hold rfl fun hc => absurd (hduty hc) ‹_›

/-- Putting bytes into the ring before the wake that follows. -/
lemma wait_accept (h : WaitInv w) (hold : (w.phase pid).plain = true) (hnew : phase.waitsOn = none)
    (call : WriteCall) (total : ℕ) : WaitInv ((w.accept call total).2.goto pid phase) := by
  obtain ⟨hwaits, htr, hwake⟩ := plain_iff.mp hold
  refine h.step pid ⟨rfl, rfl, rfl, rfl, rfl⟩ rfl (h.not_mem hwaits) hnew
    (fun hin => .inr ⟨(PipeInner.readInflight_write _ _).symm.trans hin, htr⟩)
    (.inr ⟨fun hw => ?_, fun _ hr => room_of_space_le hr ?_⟩)
  · rw [hwake] at hw
    cases hw
  have hlen := w.inner.len_write (call.src.drop total)
  have hcap := w.inner.capacity_write (call.src.drop total)
  simp only [accept, goto_inner, PipeInner.space]
  omega

variable {total : ℕ}

lemma writeLook (h : WakeInv w) {call : WriteCall} (hphase : w.phase pid = .writeFirst call total) :
    WakeInv (w.writeLook pid call total) := by
  have hold : (w.phase pid).plain = true := by rw [hphase]; rfl
  unfold PipeWorld.writeLook PipeWorld.writeBlocked
  split
  · exact h.pass hphase rfl rfl rfl
  split
  · exact ⟨wait_accept h.wait hold rfl call total, .of_carriesWake pid (by simp [carriesWake])⟩
  · split <;> exact h.pass hphase rfl rfl rfl

lemma writeArm (h : WakeInv w) {call call' : WriteCall} {total' : ℕ} (env : StepEnv)
    (hphase : w.phase pid = .writeSecond call' total') (hreaders : w.readers ≠ 0)
    (hroom : ¬call.room w.inner) : WakeInv (w.writeArm pid call total env) := by
  have hold : (w.phase pid).plain = true := by rw [hphase]; rfl
  have hcarries : (w.phase pid).carriesWake = false := by rw [hphase]; rfl
  obtain ⟨hwaits, htr, hwake⟩ := plain_iff.mp hold
  unfold PipeWorld.writeArm
  rcases w.arm_cases pid .write env (.writeSleep call total) (.writeUnarmed call total)
    (.writeEnter call total) with ⟨-, heq⟩ | ⟨-, heq⟩ | ⟨-, heq⟩ <;> rw [heq]
  · exact h.pass hphase rfl rfl rfl
  · exact h.pass hphase rfl rfl rfl
  · refine ⟨h.wait.sleep hwaits htr hwake rfl ⟨nofun, fun _ => hreaders⟩ ?_,
      h.covered.sleepWrite rfl hcarries hwaits⟩
    rintro _ _ ⟨⟩
    exact hroom

/-- A long write that has bytes left has filled the ring. -/
lemma not_room_accept {call : WriteCall} (hlong : ¬call.atomic = true)
    (hleft : total + (w.accept call total).1 ≠ call.src.length) (hlt : total < call.src.length) :
    ¬call.room (w.accept call total).2.inner := by
  have hlen := w.inner.len_write (call.src.drop total)
  have hcap := w.inner.capacity_write (call.src.drop total)
  have hcount := w.inner.fst_write (call.src.drop total)
  have hle := w.inner.len_le
  rw [length_drop] at hlen hcount
  simp only [accept] at hleft ⊢
  rw [hcount] at hleft
  unfold PipeInner.space at hlen hleft
  rw [WriteCall.room, if_neg hlong, PipeInner.space]
  omega

section

variable (h : WakeInv w)
include h

lemma writeLookAndArm {call : WriteCall} (env : StepEnv) (hlt : total < call.src.length)
    (hphase : w.phase pid = .writeSecond call total) :
    WakeInv (w.writeLookAndArm pid call total env) := by
  have hold : (w.phase pid).plain = true := by rw [hphase]; rfl
  unfold PipeWorld.writeLookAndArm
  split
  · exact h.pass hphase rfl rfl rfl
  rename_i hreaders
  split
  · dsimp only
    split
    · exact ⟨wait_accept h.wait hold rfl call total, .of_carriesWake pid (by simp [carriesWake])⟩
    rename_i hlong
    -- the wake under the lock covers the new bytes, whatever the write does next
    have hacc : WaitInv (w.accept call total).2 := by
      have hself := wait_accept h.wait hold (plain_iff.mp hold).1 call total
      rwa [PipeWorld.goto, show (w.accept call total).2.phase = w.phase from rfl,
        update_eq_self] at hself
    have hwoken := wakeOne hacc
    unfold writeAfter PipeWorld.writeBlocked
    split
    · exact hwoken.pass hphase rfl rfl rfl
    rename_i hleft
    split
    · exact hwoken.pass hphase rfl rfl rfl
    · exact hwoken.writeArm env hphase hreaders (not_room_accept hlong hleft hlt)
  · rename_i hroom
    unfold PipeWorld.writeBlocked
    split
    · exact h.pass hphase rfl rfl rfl
    · exact h.writeArm env hphase hreaders hroom

lemma advance (hstream : StreamInv w) (env : StepEnv) (hphase : w.phase pid = phase) :
    WakeInv (w.advance pid env phase) := by
  have hplain : phase.plain = true → (w.phase pid).plain = true := fun hp => hphase ▸ hp
  have hduty : ∀ waited : Bool, phase.carriesWake = waited →
      (w.phase pid).carriesWake = true → waited = true := by
    intro waited hw hc
    rwa [hphase, hw] at hc
  cases phase with
  | idle | readReturned _ _ | writeReturned _ _ => exact h
  | readEnter call waited =>
    dsimp only [advance]
    split
    · exact h.readInterrupted (hplain rfl) (hduty waited rfl)
    · exact h.goto (hplain rfl) rfl fun hc => .inl (hduty waited rfl hc)
  | readFirst call waited =>
    refine h.readLook (hplain rfl) (hduty waited rfl) fun _ hdata => ?_
    exact h.goto (hplain rfl) rfl fun _ => .inr hdata
  | readCommit => exact h.readFinish hphase env.commit
  | readReserve =>
    dsimp only [advance]
    split <;> exact h.pass hphase rfl rfl rfl
  | readSecond call waited =>
    refine h.readLook (hplain rfl) (fun hc => ?_) fun hwriters hdata => ?_
    · rw [hphase] at hc
      cases hc
    obtain ⟨hwaits, htr, hwake⟩ := plain_iff.mp (hplain rfl)
    rcases w.arm_cases pid .read env (.readSleep call) (.readUnarmed call waited)
      (.readEnter call waited) with ⟨-, heq⟩ | ⟨-, heq⟩ | ⟨-, heq⟩ <;> rw [heq]
    · exact h.pass hphase rfl rfl rfl
    · exact h.pass hphase rfl rfl rfl
    · exact ⟨h.wait.sleep hwaits htr hwake rfl ⟨fun _ => hwriters, nofun⟩ nofun,
        .of_not_dataLeft hdata⟩
  | readSleep =>
    dsimp only [advance]
    split
    · exact h
    rename_i hawake
    refine ⟨h.wait.resume .read (by rw [hphase]; rfl) ?_ rfl rfl,
      .of_carriesWake pid (by simp [carriesWake])⟩
    cases hb : w.blocked pid <;> simp_all
  | readResume =>
    exact ⟨h.wait.leave (by rw [hphase]; rfl) (by rw [hphase]; rfl) rfl,
      .of_carriesWake pid (by simp [advance, carriesWake])⟩
  | readUnarmed =>
    dsimp only [advance]
    split
    · refine h.readInterrupted (hplain rfl) fun hc => ?_
      rw [hphase] at hc
      cases hc
    · exact h.pass hphase rfl rfl rfl
  | readWakeWriters call pass =>
    have hrel := releases_wakeAll (w := w) .write
    have hwait : WaitInv (w.wakeAll .write) := h.wait.release hrel
    have hcov : Covered (w.wakeAll .write) := h.covered.release hrel
    have hwaits : (w.phase pid).waitsOn = none := by rw [hphase]; rfl
    dsimp only [advance]
    -- all writers are awake, so the wake is spent
    refine ⟨hwait.step pid ⟨rfl, rfl, rfl, rfl, rfl⟩ rfl (hwait.not_mem hwaits) ?_
      (fun hin => .inr ⟨hin, ?_⟩) (.inr ⟨fun _ => ?_, fun _ hr => hr⟩), hcov.goto hwaits ?_ ?_⟩
    · cases pass <;> rfl
    · change (w.phase pid).transaction = none
      rw [hphase]
      rfl
    · exact h.wait.not_asleep_wakeAll .write
    · cases pass <;> rfl
    · intro hc
      have hpass := hduty pass rfl hc
      exact .inl (by rw [hpass]; rfl)
  | readPassOn =>
    dsimp only [advance]
    split
    · exact h.goto (hplain rfl) rfl fun _ => .inl rfl
    · exact h.goto (hplain rfl) rfl fun _ => .inr (by simp_all)
  | readWakeOne call result =>
    -- the task may as well leave first
    obtain ⟨hwaits, htr, hwake⟩ := plain_iff.mp (hplain rfl)
    have hleft : WaitInv (w.goto pid (.readReturned call result)) :=
      h.wait.goto hwaits rfl htr hwake
    exact wakeOne hleft
  | writeEnter =>
    dsimp only [advance]
    split
    · exact h.pass hphase rfl rfl rfl
    · split <;> exact h.pass hphase rfl rfl rfl
  | writeFirst => exact h.writeLook hphase
  | writeWakeOne =>
    obtain ⟨hwaits, htr, hwake⟩ := plain_iff.mp (hplain rfl)
    have hleave : ∀ next : Phase, next.waitsOn = none → WakeInv ((w.wakeOne .read).goto pid next) :=
      fun next hnext => wakeOne (h.wait.goto hwaits hnext htr hwake)
    dsimp only [advance]
    unfold writeAfter PipeWorld.writeBlocked
    split
    · exact hleave _ rfl
    · split <;> exact hleave _ rfl
  | writeReserve =>
    dsimp only [advance]
    split <;> exact h.pass hphase rfl rfl rfl
  | writeSecond call total =>
    exact h.writeLookAndArm env (hstream.pending pid call total (by rw [hphase]; rfl)) hphase
  | writeSleep =>
    dsimp only [advance]
    split
    · exact h
    rename_i hawake
    refine ⟨h.wait.resume .write (by rw [hphase]; rfl) ?_ rfl rfl, h.covered.pass ?_ rfl⟩
    · cases hb : w.blocked pid <;> simp_all
    · exact not_responsible (by rw [hphase]; rfl) (by simp [hphase, sleepsOn])
  | writeResume =>
    refine ⟨h.wait.leave (by rw [hphase]; rfl) (by rw [hphase]; rfl) rfl, ?_⟩
    have hcov : Covered (if w.signalled pid then w.cancelWait pid .write else w) := by
      split
      · exact h.covered.release (h.wait.releases_cancelWait .write)
      · exact h.covered
    have hphase' : (if w.signalled pid then w.cancelWait pid .write else w).phase = w.phase := by
      split <;> rfl
    refine hcov.pass (not_responsible ?_ ?_) rfl
    · rw [hphase', hphase]
      rfl
    · simp [hphase', hphase, sleepsOn]
  | writeUnarmed =>
    dsimp only [advance]
    split
    · exact h.pass hphase rfl rfl rfl
    · split <;> exact h.pass hphase rfl rfl rfl

/-- Changing the number of open ends, as long as nobody sleeps for want of one. -/
lemma setEnds {readers writers : ℕ} (hread : ∀ q, w.asleep q .read → writers ≠ 0)
    (hwrite : ∀ q, w.asleep q .write → readers ≠ 0) :
    WakeInv { w with
      readers := readers
      writers := writers } :=
  ⟨{ h.wait with open' := fun q => ⟨hread q, hwrite q⟩ }, h.covered⟩

/-- The scheduler state of one task changes, and the task does not sleep afterwards. -/
lemma flag (pid : ProcessId) {blocked signalled : ProcessId → Bool}
    (hothers : ∀ q ≠ pid, blocked q = w.blocked q ∧ signalled q = w.signalled q)
    (hreg : Registered (pid ∈ w.waiters ·) (w.phase pid) (blocked pid) (signalled pid))
    (hawake : ∀ side, (w.phase pid).sleepsOn = some side → signalled pid = true) :
    WakeInv { w with
      blocked := blocked
      signalled := signalled } := by
  set w' : PipeWorld := { w with
    blocked := blocked
    signalled := signalled }
  have hsame : SameOthers w' w pid := ⟨fun _ _ => rfl, fun q hne => (hothers q hne).1,
    fun q hne => (hothers q hne).2, fun _ _ _ => .rfl⟩
  have hpid : ∀ side, ¬w'.asleep pid side := by
    rintro side ⟨hs, -, hsig⟩
    exact Bool.false_ne_true (hsig.symm.trans (hawake side hs))
  refine ⟨h.wait.move hsame h.wait.nodup hreg ⟨rfl, rfl⟩ (fun side ha => absurd ha (hpid side)) ?_ ?_,
    h.covered.step pid (fun _ _ => rfl) (fun q ha => ?_) (fun hd => hd) ?_⟩
  · intro hin
    cases htr : (w.phase pid).transaction with
    | none => exact .inr ⟨hin, rfl⟩
    | some => exact .inl rfl
  · cases hwake : (w.phase pid).wakesWriters with
    | true => exact .inl rfl
    | false => exact .inr ⟨nofun, fun _ hr => hr⟩
  · rcases eq_or_ne q pid with rfl | hne
    · exact absurd ha (hpid .read)
    · exact hsame.asleep hne ha
  · rintro (hc | ⟨hs, -⟩)
    · exact .inl hc
    · exact .inr ⟨hs, hpid .read⟩

/-- A signal ends the sleep of its task. -/
lemma signal (ready : Bool) : WakeInv (w.exec (.signal pid ready)) := by
  have hreg := h.wait.registered pid
  refine h.flag pid (fun q hne => ?_) ⟨hreg.waiting, fun _ _ => .inr (by simp),
    fun side hs hb => hreg.queued side hs ?_, fun _ _ _ => by simp⟩ fun _ _ => by simp
  · cases ready <;> simp [hne]
  cases ready with
  | false => exact hb
  | true => simp at hb

/-- A signal goes away from a task that is in no wait. -/
lemma discard (hwaits : (w.phase pid).waitsOn = none) :
    WakeInv { w with signalled := update w.signalled pid false } := by
  refine h.flag pid (fun q hne => by simp [hne]) ?_ fun side hs => ?_
  · constructor <;> simp [h.wait.not_mem hwaits, hwaits]
  · simp [sleepsOn_of_waitsOn hwaits] at hs

lemma start (hfinished : (w.phase pid).finished = true) (hnew : phase.waitsOn = none) :
    WakeInv (w.goto pid phase) := by
  refine h.goto ?_ hnew fun hc => ?_
  · cases hph : w.phase pid <;> simp_all [finished] <;> rfl
  · cases hph : w.phase pid <;> simp_all [finished, carriesWake]

/-- An event keeps the invariant unless it discards the signal of a task in a wait. -/
lemma exec (hstream : StreamInv w) (op : PipeOp)
    (hkept : ∀ pid ∈ op.discards, (w.phase pid).waitsOn = none) : WakeInv (w.exec op) := by
  cases op with
  | read =>
    dsimp only [PipeWorld.exec]
    split
    · exact h.start ‹_› rfl
    · exact h
  | write pid src nonblock =>
    dsimp only [PipeWorld.exec]
    split
    · have hstart : WakeInv (w.goto pid (if src.isEmpty then
          .writeReturned ⟨w.calls.length, src, nonblock⟩ (.ok 0)
          else .writeEnter ⟨w.calls.length, src, nonblock⟩ 0)) :=
        h.start ‹_› (by split <;> rfl)
      exact ⟨{ hstart.wait with }, hstart.covered⟩
    · exact h
  | run pid env => exact h.advance hstream env rfl
  | signal pid ready => exact h.signal ready
  | deliver pid =>
    dsimp only [PipeWorld.exec]
    split
    · apply h.discard
      cases hph : w.phase pid <;> simp_all [finished, waitsOn]
    · exact h
  | discard pid => exact h.discard (hkept pid rfl)
  | addReader =>
    refine h.setEnds (fun q => (h.wait.open' q).1) fun q _ => ?_
    simp [saturatingAdd, usizeMax]
  | addWriter =>
    refine h.setEnds (fun q _ => ?_) fun q => (h.wait.open' q).2
    simp [saturatingAdd, usizeMax]
  | closeRead =>
    have hrel := releases_wakeAll (w := w) .write
    have hwoken : WakeInv (w.wakeAll .write) := ⟨h.wait.release hrel, h.covered.release hrel⟩
    exact hwoken.setEnds (fun q => (hwoken.wait.open' q).1)
      fun q ha => absurd ha (h.wait.not_asleep_wakeAll .write q)
  | closeWrite =>
    have hrel := releases_wakeAll (w := w) .read
    have hwoken : WakeInv (w.wakeAll .read) := ⟨h.wait.release hrel, h.covered.release hrel⟩
    exact hwoken.setEnds (fun q ha => absurd ha (h.wait.not_asleep_wakeAll .read q))
      fun q => (hwoken.wait.open' q).2

lemma execAll (hstream : StreamInv w) {ops : List PipeOp} (hkept : w.SignalsKept ops) :
    WakeInv (w.execAll ops) := by
  induction ops generalizing w with
  | nil => exact h
  | cons op ops ih => exact ih (h.exec hstream op hkept.1) (hstream.exec op) hkept.2

end

lemma new (capacity : ℕ) (hcap : 0 < capacity) : WakeInv (PipeWorld.new capacity hcap) :=
  ⟨.new capacity hcap, .of_not_dataLeft (by simp [dataLeft, PipeWorld.new, PipeInner.new])⟩

end WakeInv

/-! ## Quiescent states -/

lemma Quiescent.not_responsible (h : Quiescent w) : ¬w.Responsible pid := by
  rcases h pid with hfin | ⟨side, ha⟩
  · rintro (hc | ⟨hs, -⟩) <;>
      cases hph : w.phase pid <;> simp_all [finished, carriesWake, sleepsOn]
  rintro (hc | ⟨hs, hawake⟩)
  · have hs := ha.1
    cases hph : w.phase pid <;> simp_all [carriesWake, sleepsOn]
  obtain rfl : side = .read := Option.some.inj (ha.1.symm.trans hs)
  exact hawake ha

/-- In a quiescent state no task is in a transaction or about to wake the writers. -/
lemma Quiescent.plain (h : Quiescent w) :
    (w.phase pid).transaction = none ∧ (w.phase pid).wakesWriters = false := by
  rcases h pid with hfin | ⟨side, ha⟩
  · cases hph : w.phase pid <;> simp_all [finished, transaction, wakesWriters]
  have hs := ha.1
  cases hph : w.phase pid <;> simp_all [sleepsOn, transaction, wakesWriters]

/-- Whatever readers, writers, closers and kept signals did to a pipe, in a state in which every task
sleeps or has returned no reader sleeps while bytes are buffered or no write end is open, and no
writer sleeps while no read end is open or there is room for it. -/
theorem no_stranded_waiter (capacity : ℕ) (hcap : 0 < capacity) (ops : List PipeOp)
    (hkept : (new capacity hcap).SignalsKept ops)
    (hquiet : ((new capacity hcap).execAll ops).Quiescent) :
    (∀ pid, ((new capacity hcap).execAll ops).asleep pid .read →
      ((new capacity hcap).execAll ops).inner.contents = [] ∧
        ((new capacity hcap).execAll ops).writers ≠ 0) ∧
      ∀ pid call total,
        ((new capacity hcap).execAll ops).phase pid = .writeSleep call total →
        ((new capacity hcap).execAll ops).asleep pid .write →
          ((new capacity hcap).execAll ops).readers ≠ 0 ∧
            ¬call.room ((new capacity hcap).execAll ops).inner := by
  have h := (WakeInv.new capacity hcap).execAll (StreamInv.new capacity hcap) hkept
  generalize (new capacity hcap).execAll ops = w at hquiet h
  have hfree : w.inner.readInflight = false := by
    by_contra hin
    obtain ⟨q, hq⟩ := h.wait.held (by simpa using hin)
    rw [hquiet.plain.1] at hq
    cases hq
  refine ⟨fun pid ha => ⟨?_, (h.wait.open' pid).1 ha⟩, fun pid call total hphase ha =>
    ⟨(h.wait.open' pid).2 ha, fun hroom => ?_⟩⟩
  · by_contra hne
    have hlen : 0 < w.inner.len := by
      rw [← PipeInner.length_contents]
      exact length_pos_of_ne_nil hne
    obtain ⟨r, hr⟩ := h.covered (by simp [dataLeft, hlen, hfree]) pid ha
    exact hquiet.not_responsible hr
  obtain ⟨r, hr⟩ := h.wait.room pid call total hphase ha hroom
  rw [hquiet.plain.2] at hr
  cases hr

/-- A run of three tasks is quiescent if these sleep or have returned. -/
lemma quiescent_of_tasks {ops : List PipeOp} (hops : ∀ op ∈ ops, ∀ pid ∈ op.task, pid ∈ [1, 2, 3])
    (hcap : 0 < PIPE_BUF)
    (h : ∀ pid ∈ [1, 2, 3], (((new PIPE_BUF hcap).execAll ops).phase pid).finished = true ∨
      ∃ side ∈ [PipeEndType.read, .write], ((new PIPE_BUF hcap).execAll ops).asleep pid side) :
    ((new PIPE_BUF hcap).execAll ops).Quiescent := by
  intro pid
  by_cases hmem : pid ∈ [1, 2, 3]
  · rcases h pid hmem with hfin | ⟨side, -, ha⟩
    · exact .inl hfin
    · exact .inr ⟨side, ha⟩
  · rw [phase_execAll_of_ne fun op hop hpid => hmem (hops op hop pid hpid)]
    exact .inl rfl

/-- Two readers go to sleep on an empty pipe. -/
def sleepingReaders : List PipeOp :=
  .read 1 ⟨true, 8, false⟩ :: replicate 4 (.run 1 .benign) ++
    .read 2 ⟨true, 8, false⟩ :: replicate 4 (.run 2 .benign)

/-- A signal ends the first read, and the byte of a writer wakes the second reader, which takes it and
reads again. -/
def interruptedReader : List PipeOp :=
  sleepingReaders ++ .signal 1 true :: replicate 4 (.run 1 .benign) ++ [.discard 1] ++
    .write 3 [7] false :: replicate 3 (.run 3 .benign) ++
    replicate 7 (.run 2 .benign) ++ .read 2 ⟨true, 8, false⟩ :: replicate 4 (.run 2 .benign)

theorem no_stranded_waiter_interruptedReader :
    let w := (new PIPE_BUF (by decide)).execAll interruptedReader
    w.delivered = [[7]] ∧ w.asleep 2 .read ∧ w.inner.contents = [] := by
  have htasks : ∀ op ∈ interruptedReader, ∀ pid ∈ op.task, pid ∈ [1, 2, 3] := by decide +kernel
  have hquiet := quiescent_of_tasks htasks (by decide) (by decide +kernel)
  exact ⟨by decide +kernel, by decide +kernel,
    ((no_stranded_waiter _ _ interruptedReader (by decide +kernel) hquiet).1 2
      (by decide +kernel)).1⟩

/-- The signal that readied the first reader is discarded before the reader looks for it, so the reader
leaves `finish_wait` with its entry queued.  It is interrupted then, and sleeps in a write, when the
byte of the third task wakes this entry instead of the second reader. -/
def discardedSignal : List PipeOp :=
  sleepingReaders ++ [.signal 1 true, .discard 1] ++ replicate 2 (.run 1 .benign) ++
    .signal 1 true :: replicate 2 (.run 1 .benign) ++ [.deliver 1] ++
    .write 3 [7] false :: replicate 2 (.run 3 .benign) ++
    .write 1 (replicate PIPE_BUF 8) false :: replicate 4 (.run 1 .benign) ++
    .run 3 .benign :: replicate 6 (.run 1 .benign)

/-- Every task sleeps or has returned, and a reader sleeps while a byte is buffered. -/
theorem discardedSignal_strands_reader :
    let w := (new PIPE_BUF (by decide)).execAll discardedSignal
    w.Quiescent ∧ w.asleep 2 .read ∧ w.inner.contents = [7] ∧
      ¬(new PIPE_BUF (by decide)).SignalsKept discardedSignal := by
  refine ⟨quiescent_of_tasks (by decide +kernel) _ (by decide +kernel), ?_, ?_, ?_⟩ <;>
    decide +kernel

/-- In every state of a run, quiescent or not, a blocked waiter is queued once, nobody sleeps where
the other end is closed, and a reader that sleeps while there are bytes to take has its wake on the
way. -/
theorem wakeInv_run (capacity : ℕ+) (ops : List PipeOp)
    (hkept : (new capacity capacity.pos).SignalsKept ops) :
    WakeInv ((new capacity capacity.pos).execAll ops) :=
  (WakeInv.new _ capacity.pos).execAll (StreamInv.new _ capacity.pos) hkept

theorem wakeInv_interruptedReader :
    WakeInv ((new PIPE_BUF (by decide)).execAll interruptedReader) :=
  wakeInv_run ⟨PIPE_BUF, by decide⟩ interruptedReader (by decide +kernel)

end PipeWorld

end Nilix.Ipc
