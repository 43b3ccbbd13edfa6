import Mathlib.Tactic

/-!
# Wait queues

A wait queue holds the tasks that sleep on a condition, first in first out.  The scheduler state that
matters to it is whether a task is `Blocked`: arming a wait puts the task into the queue and blocks
it, a wake takes entries off the front and readies blocked tasks, and a task whose wait was ended by
a signal takes its own entry back.

Each operation works on the queue and on the `Blocked` states together, as the source does under the
lock of the queue.
-/

namespace Nilix.Ipc

open Function

/-- A task. -/
abbrev ProcessId := ℕ

/-- What arming a wait reports. -/
inductive PrepareToWaitCapacityOutcome
  | prepared (armed : Bool)
  | retryCapacity
  deriving DecidableEq

namespace WaitQueue

/-- Take entries off the front until a blocked task is found, and ready that one. -/
def wakeOne : List ProcessId → (ProcessId → Bool) → List ProcessId × (ProcessId → Bool)
  | [], blocked => ([], blocked)
  | pid :: waiters, blocked =>
    if blocked pid then (waiters, update blocked pid false) else wakeOne waiters blocked

/-- Take all entries off and ready the blocked tasks among them. -/
def wakeAll : List ProcessId → (ProcessId → Bool) → List ProcessId × (ProcessId → Bool)
  | [], blocked => ([], blocked)
  | pid :: waiters, blocked =>
    wakeAll waiters (if blocked pid then update blocked pid false else blocked)

/-- Arm the wait of a task: a pending signal refuses it, an entry that is still queued is used again,
and a new entry needs `room` in the queue. -/
def tryPrepareToWaitWithCapacity (waiters : List ProcessId) (blocked : ProcessId → Bool)
    (signalled room : Bool) (pid : ProcessId) :
    PrepareToWaitCapacityOutcome × List ProcessId × (ProcessId → Bool) :=
  if signalled then (.prepared false, waiters, blocked)
  else if pid ∈ waiters then (.prepared true, waiters, update blocked pid true)
  else if room then (.prepared true, waiters ++ [pid], update blocked pid true)
  else (.retryCapacity, waiters, blocked)

/-- Take the entry of a task back and undo its block. -/
def cancelWait (waiters : List ProcessId) (blocked : ProcessId → Bool) (pid : ProcessId) :
    List ProcessId × (ProcessId → Bool) :=
  if pid ∈ waiters then (waiters.erase pid, update blocked pid false)
  else (waiters, blocked)

/-! ## What a wake does -/

variable (waiters : List ProcessId) (blocked : ProcessId → Bool)

/-- A wake readies the first blocked task of the queue and drops the entries up to it; without one
it empties the queue. -/
lemma wakeOne_cases :
    (∃ pid front back, waiters = front ++ pid :: back ∧ blocked pid = true ∧
        wakeOne waiters blocked = (back, update blocked pid false) ∧
        ∀ q ∈ front, blocked q = false) ∨
      (wakeOne waiters blocked = ([], blocked) ∧ ∀ q ∈ waiters, blocked q = false) := by
  induction waiters with
  | nil => exact .inr ⟨rfl, by simp⟩
  | cons pid waiters ih =>
    cases hpid : blocked pid with
    | true => exact .inl ⟨pid, [], waiters, rfl, hpid, by rw [wakeOne, if_pos hpid], by simp⟩
    | false =>
      have hskip : wakeOne (pid :: waiters) blocked = wakeOne waiters blocked := by
        rw [wakeOne, if_neg (by simp [hpid])]
      rcases ih with ⟨q, front, back, rfl, hq, hwake, hfront⟩ | ⟨hwake, hall⟩
      · refine .inl ⟨q, pid :: front, back, rfl, hq, hskip.trans hwake, ?_⟩
        exact List.forall_mem_cons.mpr ⟨hpid, hfront⟩
      · exact .inr ⟨hskip.trans hwake, List.forall_mem_cons.mpr ⟨hpid, hall⟩⟩

@[simp]
lemma wakeAll_fst : (wakeAll waiters blocked).1 = [] := by
  induction waiters generalizing blocked with
  | nil => rfl
  | cons pid waiters ih => exact ih _

@[simp]
lemma wakeAll_snd (q : ProcessId) :
    (wakeAll waiters blocked).2 q = (blocked q && !decide (q ∈ waiters)) := by
  induction waiters generalizing blocked with
  | nil => simp [wakeAll]
  | cons pid waiters ih =>
    rw [wakeAll, ih]
    rcases eq_or_ne q pid with rfl | hne
    · cases hq : blocked q <;> simp [hq]
    · cases hpid : blocked pid <;> simp [hne]

end WaitQueue

end Nilix.Ipc
