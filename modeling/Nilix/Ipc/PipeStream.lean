import Nilix.Foundation.Pointwise
import Nilix.Ipc.Pipe

/-!
# The stream of a pipe

Whatever the interleaving of its readers and writers, a pipe is a stream: what was accepted is what
was delivered followed by what is buffered, and a short write stands in the stream in one piece or
not at all.  `StreamInv` is the invariant that carries this; the transaction of a reader owns a
prefix of the queue that no other task can touch.

The one point where the pipe does not keep the contract of a stream is its end.  A read reports zero
when it finds the bytes in the transaction of another reader, although they may be put back:
`PipeWorld.Guarded` is the condition under which this does not happen.
-/

namespace Nilix.Ipc

open List Option PipeWorld

namespace Phase

/-- The write call of a task with the bytes that it counts as written. -/
def progress : Phase → Option (WriteCall × ℕ)
  | writeReturned call (.ok total) => some (call, total)
  | writeReturned call (.error _) => some (call, 0)
  | writeEnter call total | writeFirst call total | writeWakeOne call total
  | writeReserve call total | writeSecond call total | writeSleep call total
  | writeResume call total | writeUnarmed call total => some (call, total)
  | _ => none

/-- The bytes that a task has copied out in a transaction. -/
def transaction : Phase → Option (List UInt8)
  | readCommit _ bytes => some bytes
  | _ => none

/-- The write call of a task that is about to look at the ring, with the bytes written so far. -/
def pending : Phase → Option (WriteCall × ℕ)
  | writeFirst call total | writeReserve call total | writeSecond call total => some (call, total)
  | _ => none

lemma progress_of_pending {phase : Phase} {entry : WriteCall × ℕ}
    (h : phase.pending = some entry) : phase.progress = some entry := by
  cases phase <;> simp_all [pending, progress]

/-- A write that stops reports what it has written. -/
@[simp]
lemma progress_shortWrite (call : WriteCall) (total : ℕ) (error : PipeError) :
    (writeReturned call (shortWrite total error)).progress = some (call, total) := by
  rcases Nat.eq_zero_or_pos total with rfl | hpos
  · rfl
  · rw [shortWrite, if_pos hpos, progress]

end Phase

/-! ## What a call has put into the stream -/

/-- The accepted chunks of a call, in order. -/
def chunks (accepted : List (ℕ × List UInt8)) (call : WriteCall) : List (List UInt8) :=
  (accepted.filter (·.1 == call.id)).map Prod.snd

/-- The first `total` bytes of the call were accepted, and nothing else; a short write went in as
one chunk. -/
structure Accepted (accepted : List (ℕ × List UInt8)) (call : WriteCall) (total : ℕ) : Prop where
  le : total ≤ call.src.length
  flatten_eq : (chunks accepted call).flatten = call.src.take total
  whole : call.atomic = true →
    chunks accepted call = [] ∧ total = 0 ∨
      chunks accepted call = [call.src] ∧ total = call.src.length

variable {accepted : List (ℕ × List UInt8)} {call : WriteCall}

/-- A call whose number does not occur has put nothing into the stream. -/
lemma Accepted.of_fresh (h : ∀ entry ∈ accepted, entry.1 ≠ call.id) : Accepted accepted call 0 := by
  have hnil : chunks accepted call = [] := by
    rw [chunks, filter_eq_nil_iff.mpr (by simpa using h), map_nil]
  exact ⟨Nat.zero_le _, by simp [hnil], fun _ => .inl ⟨hnil, rfl⟩⟩

lemma Accepted.append_of_ne {total id : ℕ} (h : Accepted accepted call total) (hne : id ≠ call.id)
    (chunk : List UInt8) : Accepted (accepted ++ [(id, chunk)]) call total := by
  have heq : chunks (accepted ++ [(id, chunk)]) call = chunks accepted call := by
    simp [chunks, hne]
  exact ⟨h.le, heq ▸ h.flatten_eq, heq ▸ h.whole⟩

lemma Accepted.append {total : ℕ} (h : Accepted accepted call total) {inner : PipeInner}
    (hroom : call.room inner) (hlt : total < call.src.length) :
    Accepted (accepted ++ [(call.id,
        (call.src.drop total).take (inner.write (call.src.drop total)).1)]) call
      (total + (inner.write (call.src.drop total)).1) := by
  have heq : ∀ chunk, chunks (accepted ++ [(call.id, chunk)]) call =
      chunks accepted call ++ [chunk] := by
    intro chunk
    simp [chunks]
  have hcount := inner.fst_write (call.src.drop total)
  rw [length_drop] at hcount
  set count := (inner.write (call.src.drop total)).1
  refine ⟨by omega, ?_, ?_⟩
  · rw [heq, flatten_append, h.flatten_eq, flatten_singleton, take_add]
  intro hatomic
  have hspace : call.src.length ≤ inner.space := by
    rwa [WriteCall.room, if_pos hatomic] at hroom
  rcases h.whole hatomic with ⟨hnil, rfl⟩ | ⟨-, hfull⟩
  · have hall : count = call.src.length := by omega
    exact .inr ⟨by rw [heq, hnil, nil_append, drop_zero, hall, take_length], by omega⟩
  · omega

/-! ## The invariant -/

namespace PipeWorld

/-- The accepted bytes, in the order of acceptance. -/
def acceptedBytes (w : PipeWorld) : List UInt8 := (w.accepted.map Prod.snd).flatten

/-- The invariant of the stream. -/
structure StreamInv (w : PipeWorld) : Prop where
  /-- What was accepted was delivered or is buffered. -/
  conserved : w.acceptedBytes = w.delivered.flatten ++ w.inner.contents
  /-- A transaction owns a prefix of the queue. -/
  transaction : ∀ pid bytes, (w.phase pid).transaction = some bytes →
    w.inner.readInflight = true ∧ bytes ≠ [] ∧ bytes <+: w.inner.contents
  /-- There is one transaction at a time. -/
  exclusive : ∀ pid qid, (w.phase pid).transaction.isSome → (w.phase qid).transaction.isSome →
    pid = qid
  /-- The calls are numbered. -/
  numbered : ∀ call ∈ w.calls, call.id < w.calls.length
  injective : ∀ call ∈ w.calls, ∀ other ∈ w.calls, call.id = other.id → call = other
  known : ∀ entry ∈ w.accepted, entry.1 < w.calls.length
  /-- Every call has put a prefix of its bytes into the stream. -/
  settled : ∀ call ∈ w.calls, ∃ total, Accepted w.accepted call total
  /-- A task that runs a write, or has just returned from it, counts these bytes exactly. -/
  counted : ∀ pid call total, (w.phase pid).progress = some (call, total) →
    call ∈ w.calls ∧ Accepted w.accepted call total
  /-- A pending write is not complete. -/
  pending : ∀ pid call total, (w.phase pid).pending = some (call, total) →
    total < call.src.length
  /-- No two tasks are in the same call. -/
  distinct : ∀ pid qid call m other n, (w.phase pid).progress = some (call, m) →
    (w.phase qid).progress = some (other, n) → call.id = other.id → pid = qid

/-- Two worlds that differ in their wait queues, their scheduler state and their ends at most. -/
structure SameStream (w v : PipeWorld) : Prop where
  inner : w.inner = v.inner
  accepted : w.accepted = v.accepted
  delivered : w.delivered.flatten = v.delivered.flatten
  calls : w.calls = v.calls
  phase : w.phase = v.phase

namespace StreamInv

variable {w w' : PipeWorld} {pid : ProcessId}

lemma new (capacity : ℕ) (h : 0 < capacity) : StreamInv (PipeWorld.new capacity h) := by
  constructor <;> simp [PipeWorld.new, acceptedBytes, Phase.transaction, Phase.progress, Phase.pending]

/-- The invariant reads neither the wait queues nor the scheduler. -/
lemma congr (h : StreamInv w) (hsame : SameStream w' w) : StreamInv w' := by
  obtain ⟨hinner, hacc, hdel, hcalls, hphase⟩ := hsame
  constructor
  · rw [acceptedBytes, hacc, hdel, hinner]
    exact h.conserved
  · rw [hinner, hphase]
    exact h.transaction
  · rw [hphase]
    exact h.exclusive
  · rw [hcalls]
    exact h.numbered
  · rw [hcalls]
    exact h.injective
  · rw [hacc, hcalls]
    exact h.known
  · rw [hcalls, hacc]
    exact h.settled
  · rw [hphase, hcalls, hacc]
    exact h.counted
  · rw [hphase]
    exact h.pending
  · rw [hphase]
    exact h.distinct

/-- The bytes of a transaction are a prefix of the queue. -/
def Owned (inner : PipeInner) (bytes : List UInt8) : Prop :=
  inner.readInflight = true ∧ bytes ≠ [] ∧ bytes <+: inner.contents

/-- The transactions of the tasks, of which there is one at a time. -/
abbrev Transactions (inner : PipeInner) (phase : ProcessId → Phase) : Prop :=
  Marked Phase.transaction (Owned inner) (fun _ _ => True) phase

/-- The write calls of the tasks with the bytes they count. -/
abbrev Counts (calls : List WriteCall) (accepted : List (ℕ × List UInt8))
    (phase : ProcessId → Phase) : Prop :=
  Marked Phase.progress (fun entry => entry.1 ∈ calls ∧ Accepted accepted entry.1 entry.2)
    (fun entry other => entry.1.id = other.1.id) phase

lemma transactions (h : StreamInv w) : Transactions w.inner w.phase :=
  ⟨h.transaction, fun p q _ _ hp hq _ => h.exclusive p q (by simp [hp]) (by simp [hq])⟩

lemma counts (h : StreamInv w) : Counts w.calls w.accepted w.phase :=
  ⟨fun p entry => h.counted p entry.1 entry.2,
    fun p q entry other => h.distinct p q entry.1 entry.2 other.1 other.2⟩

/-- The invariant from the books of the calls and from what the tasks hold. -/
lemma of_marks (hconserved : w.acceptedBytes = w.delivered.flatten ++ w.inner.contents)
    (hnumbered : ∀ call ∈ w.calls, call.id < w.calls.length)
    (hinjective : ∀ call ∈ w.calls, ∀ other ∈ w.calls, call.id = other.id → call = other)
    (hknown : ∀ entry ∈ w.accepted, entry.1 < w.calls.length)
    (hsettled : ∀ call ∈ w.calls, ∃ total, Accepted w.accepted call total)
    (htr : Transactions w.inner w.phase) (hcounts : Counts w.calls w.accepted w.phase)
    (hpending : ∀ pid call total, (w.phase pid).pending = some (call, total) →
      total < call.src.length) : StreamInv w := by
  refine ⟨hconserved, htr.sound, ?_, hnumbered, hinjective, hknown, hsettled,
    fun p call total => hcounts.sound p (call, total), hpending,
    fun p q call m other n => hcounts.apart p q (call, m) (other, n)⟩
  intro p q hp hq
  obtain ⟨bytes, hp⟩ := isSome_iff_exists.mp hp
  obtain ⟨bytes', hq⟩ := isSome_iff_exists.mp hq
  exact htr.apart p q bytes bytes' hp hq trivial

variable {phase : Phase}

lemma pending_of_update (h : StreamInv w) (pid : ProcessId)
    (hpend : ∀ call total, phase.pending = some (call, total) → total < call.src.length) :
    ∀ qid call total, (Function.update w.phase pid phase qid).pending = some (call, total) →
      total < call.src.length := by
  intro qid call total hq
  rcases eq_or_ne qid pid with rfl | hne
  · exact hpend call total (by simpa using hq)
  · exact h.pending qid call total (by simpa [hne] using hq)

/-- A task may go to any phase that is no transaction and counts the same bytes. -/
lemma goto (h : StreamInv w) (htr : phase.transaction = none)
    (hpend : ∀ call total, phase.pending = some (call, total) → total < call.src.length)
    (hprog : phase.progress = (w.phase pid).progress ∨ phase.progress = none) :
    StreamInv (w.goto pid phase) :=
  .of_marks h.conserved h.numbered h.injective h.known h.settled
    (h.transactions.update_of_eq_or_none (.inr htr)) (h.counts.update_of_eq_or_none hprog)
    (h.pending_of_update pid hpend)

variable {mid : Phase}

/-- Going on after another section of the same task, with any queues and scheduler state. -/
lemma regoto (h : StreamInv (w.goto pid mid)) (hsame : SameStream w' w)
    (htr : phase.transaction = none)
    (hpend : ∀ call total, phase.pending = some (call, total) → total < call.src.length)
    (hprog : phase.progress = mid.progress) : StreamInv (w'.goto pid phase) := by
  have hgoto : StreamInv ((w.goto pid mid).goto pid phase) :=
    h.goto htr hpend (.inl (by simpa using hprog))
  refine hgoto.congr { hsame with phase := ?_ }
  change Function.update w'.phase pid phase = _
  rw [hsame.phase]
  exact (Function.update_idem _ _ _).symm

/-- Starting a transaction leaves the queue alone. -/
lemma begin (h : StreamInv w) {call : ReadCall} (hdst : call.dst ≠ 0) (hlen : 0 < w.inner.len)
    (hfree : w.inner.readInflight = false) :
    StreamInv ({ w with inner := { w.inner with readInflight := true } }.goto pid
      (.readCommit call (w.inner.contents.take call.dst))) := by
  -- no other task can be in a transaction, because none is in flight
  have hnone : ∀ qid bytes, (w.phase qid).transaction ≠ some bytes := by
    intro qid bytes hq
    simp [(h.transaction qid bytes hq).1] at hfree
  refine .of_marks h.conserved h.numbered h.injective h.known h.settled
    (h.transactions.update (fun _ _ _ => trivial) ?_ fun qid _ bytes hq => absurd hq (hnone qid bytes))
    (h.counts.update_of_eq_or_none (.inr rfl)) (h.pending_of_update pid nofun)
  rintro bytes ⟨⟩
  refine ⟨⟨rfl, ?_, take_prefix _ _⟩, fun qid _ bytes hq => absurd hq (hnone qid bytes)⟩
  apply ne_nil_of_length_pos
  rw [length_take, PipeInner.length_contents]
  omega

/-- A task ends its transaction, or takes bytes while nobody has one: what it delivers and what it
leaves is what there was. -/
lemma take (h : StreamInv w) {inner : PipeInner} {delivered : List (List UInt8)}
    {zeros : List (ℕ × ℕ)} (htr : phase.transaction = none) (hprog : phase.progress = none)
    (halone : ∀ qid, (w.phase qid).transaction.isSome → qid = pid)
    (hbytes : w.delivered.flatten ++ w.inner.contents = delivered.flatten ++ inner.contents) :
    StreamInv ({ w with inner := inner, delivered := delivered, zeros := zeros }.goto pid phase) := by
  refine .of_marks (h.conserved.trans hbytes) h.numbered h.injective h.known h.settled
    (h.transactions.update (fun _ _ _ => trivial) (fun bytes hb => ?_) fun qid hne bytes hq => ?_)
    (h.counts.update_of_eq_or_none (.inr hprog)) (h.pending_of_update pid fun call total hq => ?_)
  · cases htr.symm.trans hb
  · exact absurd (halone qid (isSome_iff_exists.mpr ⟨_, hq⟩)) hne
  · cases hprog.symm.trans (Phase.progress_of_pending hq)

variable {call : WriteCall} {total : ℕ}

lemma accept (h : StreamInv w) (hprog : (w.phase pid).progress = some (call, total))
    (hroom : call.room w.inner) (hlt : total < call.src.length) :
    StreamInv ((w.accept call total).2.goto pid
      (.writeWakeOne call (total + (w.accept call total).1))) := by
  obtain ⟨hmem, hacc⟩ := h.counted pid call total hprog
  have hnew := hacc.append hroom hlt
  set written := w.inner.write (call.src.drop total)
  have hother : ∀ qid ≠ pid, ∀ entry, (w.phase qid).progress = some entry → call.id ≠ entry.1.id :=
    fun qid hne entry hq hid =>
      hne (h.distinct pid qid call total entry.1 entry.2 hprog hq hid).symm
  refine .of_marks ?_ h.numbered h.injective ?_ ?_
    (h.transactions.update (fun _ _ _ => trivial) nofun fun qid _ bytes hq => ?_)
    (h.counts.update (fun _ _ => Eq.symm) ?_ fun qid hne entry hq => ?_)
    (h.pending_of_update pid nofun)
  · change ((w.accepted ++ [_]).map Prod.snd).flatten = w.delivered.flatten ++ written.2.contents
    rw [PipeInner.contents_write, map_append, flatten_append, ← append_assoc, ← h.conserved]
    simp [acceptedBytes]
  · intro entry hentry
    rcases mem_append.mp hentry with hentry | hentry
    · exact h.known entry hentry
    rw [mem_singleton.mp hentry]
    exact h.numbered call hmem
  · intro other hother
    rcases eq_or_ne call.id other.id with heq | hne
    · obtain rfl := h.injective call hmem other hother heq
      exact ⟨_, hnew⟩
    obtain ⟨n, hn⟩ := h.settled other hother
    exact ⟨n, hn.append_of_ne hne _⟩
  · obtain ⟨hin, hne, hpre⟩ := h.transaction qid bytes hq
    refine ⟨(PipeInner.readInflight_write _ _).trans hin, hne, hpre.trans ?_⟩
    exact ⟨_, (PipeInner.contents_write _ _).symm⟩
  · rintro _ ⟨⟩
    exact ⟨⟨hmem, hnew⟩, hother⟩
  · obtain ⟨hmem', hacc'⟩ := h.counted qid entry.1 entry.2 hq
    exact ⟨hmem', hacc'.append_of_ne (hother qid hne entry hq) _⟩

lemma startWrite (h : StreamInv w) (hid : call.id = w.calls.length) :
    StreamInv (w.startWrite pid call) := by
  have hfresh : Accepted w.accepted call 0 := by
    apply Accepted.of_fresh
    intro entry hentry
    have := h.known entry hentry
    omega
  set phase : Phase := if call.src.isEmpty then .writeReturned call (.ok 0) else .writeEnter call 0
    with hdef
  have hphase : phase.transaction = none ∧ phase.pending = none ∧
      phase.progress = some (call, 0) := by
    rw [hdef]
    split <;> exact ⟨rfl, rfl, rfl⟩
  have hlen : (w.calls ++ [call]).length = w.calls.length + 1 := by simp
  -- an older call has a smaller number
  have hold : ∀ other ∈ w.calls, call.id ≠ other.id := by
    intro other hother
    have := h.numbered other hother
    omega
  refine .of_marks h.conserved ?_ ?_ ?_ ?_ (h.transactions.update_of_eq_or_none (.inr hphase.1))
    (h.counts.update (fun _ _ => Eq.symm) (fun entry hq => ?_) fun qid _ entry hq => ?_)
    (h.pending_of_update pid fun c n hq => ?_)
  · intro other hother
    change other.id < (w.calls ++ [call]).length
    rcases mem_append.mp hother with hother | hother
    · have := h.numbered other hother
      omega
    rw [mem_singleton.mp hother]
    omega
  · intro c hc other hother heq
    rcases mem_append.mp hc with hc | hc <;> rcases mem_append.mp hother with ho | ho
    · exact h.injective c hc other ho heq
    · rw [mem_singleton.mp ho] at heq
      exact absurd heq.symm (hold c hc)
    · rw [mem_singleton.mp hc] at heq
      exact absurd heq (hold other ho)
    · rw [mem_singleton.mp hc, mem_singleton.mp ho]
  · intro entry hentry
    have := h.known entry hentry
    change entry.1 < (w.calls ++ [call]).length
    omega
  · intro other hother
    rcases mem_append.mp hother with hother | hother
    · exact h.settled other hother
    rw [mem_singleton.mp hother]
    exact ⟨0, hfresh⟩
  · cases hphase.2.2.symm.trans hq
    refine ⟨⟨mem_append_right _ (mem_singleton_self _), hfresh⟩, fun qid _ other ho => ?_⟩
    exact hold other.1 (h.counted qid other.1 other.2 ho).1
  · obtain ⟨hmem, hacc⟩ := h.counted qid entry.1 entry.2 hq
    exact ⟨mem_append_left _ hmem, hacc⟩
  · cases hphase.2.1.symm.trans hq

/-! ### The sections -/

variable {block : PipeWorld}

section

variable (h : StreamInv w)
include h

lemma readEmpty {call : ReadCall} (hblock : StreamInv block) :
    StreamInv (w.readEmpty pid call block) := by
  unfold PipeWorld.readEmpty
  split
  · exact (h.congr ⟨rfl, rfl, rfl, rfl, rfl⟩ : StreamInv (w.noteZero call 0)).goto rfl nofun (.inr rfl)
  split
  · exact h.goto rfl nofun (.inr rfl)
  · exact hblock

/-- No transaction is in flight, or one that is lies with this task alone. -/
lemma alone_of_not_readInflight (hfree : w.inner.readInflight = false) :
    ∀ qid, (w.phase qid).transaction.isSome → qid = pid := by
  intro qid hq
  obtain ⟨bytes, hq⟩ := isSome_iff_exists.mp hq
  simp [(h.transaction qid bytes hq).1] at hfree

lemma readLook {call : ReadCall} {waited : Bool} (hblock : StreamInv block) :
    StreamInv (w.readLook pid call waited block) := by
  unfold PipeWorld.readLook
  split
  · split
    · rename_i hdata
      simp only [dataLeft, Bool.and_eq_true, decide_eq_true_eq, Bool.not_eq_eq_eq_not,
        Bool.not_true] at hdata
      rw [PipeInner.beginReadTransaction_eq _ _ hdata.1 hdata.2]
      by_cases hdst : call.dst = 0
      · rw [if_pos hdst]
        exact h.goto rfl nofun (.inr rfl)
      rw [if_neg hdst]
      exact h.begin hdst hdata.1 hdata.2
    · exact h.readEmpty hblock
  · split
    · cases hfree : w.inner.readInflight with
      | true =>
        rw [PipeInner.read_eq_of_readInflight _ hfree]
        have hgoto : StreamInv (w.goto pid (.readWakeWriters call waited 0)) :=
          h.goto rfl nofun (.inr rfl)
        exact hgoto.congr ⟨rfl, rfl, by simp, rfl, rfl⟩
      | false =>
        obtain ⟨htake, hdrop⟩ := w.inner.read_eq_of_not_readInflight hfree call.dst
        refine h.take rfl rfl (h.alone_of_not_readInflight hfree) ?_
        simp [htake, hdrop]
    · exact h.readEmpty hblock

lemma readFinish {call : ReadCall} {bytes : List UInt8}
    (hphase : w.phase pid = .readCommit call bytes) (committed : Bool) :
    StreamInv (w.readFinish pid call bytes committed) := by
  have hown : (w.phase pid).transaction = some bytes := by rw [hphase, Phase.transaction]
  obtain ⟨hin, -, rest, hrest⟩ := h.transaction pid bytes hown
  have halone : ∀ qid, (w.phase qid).transaction.isSome → qid = pid :=
    fun qid hq => h.exclusive qid pid hq (by simp [hown])
  have hcontents := w.inner.contents_finishReadTransaction hin bytes.length committed
  cases committed with
  | true =>
    refine h.take rfl rfl halone ?_
    simp [hcontents, ← hrest]
  | false => exact h.take rfl rfl halone (by rw [hcontents]; rfl)

lemma readInterrupted (call : ReadCall) (waited : Bool) :
    StreamInv (w.readInterrupted pid call waited) := by
  unfold PipeWorld.readInterrupted
  split <;> exact h.goto rfl nofun (.inr rfl)

end

section

variable (h : StreamInv (w.goto pid mid))
include h

/-- Arming a wait, possibly after another part of the same section. -/
lemma arm (hsame : SameStream w' w) {side : PipeEndType} {env : StepEnv}
    {armed unarmed retry : Phase} (hall : ∀ phase ∈ [armed, unarmed, retry],
      phase.transaction = none ∧ phase.pending = none ∧ phase.progress = mid.progress) :
    StreamInv (w'.arm pid side env armed unarmed retry) := by
  have hgoto : ∀ v : PipeWorld, SameStream v w → ∀ phase ∈ [armed, unarmed, retry],
      StreamInv (v.goto pid phase) := by
    intro v hv phase hmem
    obtain ⟨htr, hpend, hprog⟩ := hall phase hmem
    exact h.regoto hv htr (fun _ _ hq => by simp [hpend] at hq) hprog
  rcases w'.arm_cases pid side env armed unarmed retry with ⟨-, heq⟩ | ⟨-, heq⟩ | ⟨-, heq⟩ <;>
    rw [heq]
  · exact hgoto w' hsame unarmed (by simp)
  · exact hgoto w' hsame retry (by simp)
  · exact hgoto (w'.sleep pid side) { hsame with } armed (by simp)

lemma writeBlocked (hsame : SameStream w' w) (hmid : mid.progress = some (call, total))
    (hblock : StreamInv block) : StreamInv (w'.writeBlocked pid call total block) := by
  unfold PipeWorld.writeBlocked
  split
  · exact h.regoto hsame rfl nofun (by rw [Phase.progress_shortWrite, hmid])
  · exact hblock

lemma writeAfter (hsame : SameStream w' w) (hmid : mid.progress = some (call, total))
    (hblock : StreamInv block) : StreamInv (w'.writeAfter pid call total block) := by
  unfold PipeWorld.writeAfter
  split
  · exact h.regoto hsame rfl nofun hmid.symm
  · exact h.writeBlocked hsame hmid hblock

end

lemma self (h : StreamInv w) : StreamInv (w.goto pid (w.phase pid)) := by
  rw [PipeWorld.goto, Function.update_eq_self]
  exact h

lemma stopShort (h : StreamInv w) (hprog : (w.phase pid).progress = some (call, total))
    {error : PipeError} : StreamInv (w.goto pid (.writeReturned call (shortWrite total error))) :=
  h.goto rfl nofun (.inl (by rw [Phase.progress_shortWrite, hprog]))

lemma writeLook (h : StreamInv w) (hphase : w.phase pid = .writeFirst call total) :
    StreamInv (w.writeLook pid call total) := by
  have hprog := congrArg Phase.progress hphase
  have hlt := h.pending pid call total (congrArg Phase.pending hphase)
  unfold PipeWorld.writeLook
  split
  · exact h.stopShort hprog
  split
  · rename_i hroom
    exact h.accept hprog hroom hlt
  refine h.self.writeBlocked ⟨rfl, rfl, rfl, rfl, rfl⟩ hprog ?_
  refine h.goto rfl ?_ (.inl hprog.symm)
  rintro _ _ ⟨⟩
  exact hlt

lemma writeArm (h : StreamInv (w.goto pid mid)) (hsame : SameStream w' w)
    (hmid : mid.progress = some (call, total)) (env : StepEnv) :
    StreamInv (w'.writeArm pid call total env) := by
  apply h.arm hsame
  rw [hmid]
  simp [Phase.transaction, Phase.pending, Phase.progress]

lemma writeLookAndArm (h : StreamInv w) (env : StepEnv)
    (hphase : w.phase pid = .writeSecond call total) :
    StreamInv (w.writeLookAndArm pid call total env) := by
  have hprog := congrArg Phase.progress hphase
  have hlt := h.pending pid call total (congrArg Phase.pending hphase)
  unfold PipeWorld.writeLookAndArm
  split
  · exact h.stopShort hprog
  split
  · rename_i hroom
    have hacc := h.accept hprog hroom hlt
    split
    · exact hacc
    have hsame : SameStream ((w.accept call total).2.wakeOne .read) (w.accept call total).2 :=
      ⟨rfl, rfl, rfl, rfl, rfl⟩
    exact hacc.writeAfter hsame rfl (hacc.writeArm hsame rfl env)
  exact h.self.writeBlocked ⟨rfl, rfl, rfl, rfl, rfl⟩ hprog
    (h.self.writeArm ⟨rfl, rfl, rfl, rfl, rfl⟩ hprog env)

lemma advance (h : StreamInv w) (env : StepEnv) (hphase : w.phase pid = phase) :
    StreamInv (w.advance pid env phase) := by
  cases phase with
  | idle | readReturned | writeReturned => exact h
  | readEnter call waited =>
    dsimp only [advance]
    split
    · exact h.readInterrupted call waited
    · exact h.goto rfl nofun (.inr rfl)
  | readFirst => exact h.readLook (h.goto rfl nofun (.inr rfl))
  | readCommit => exact h.readFinish hphase env.commit
  | readReserve =>
    dsimp only [advance]
    split <;> exact h.goto rfl nofun (.inr rfl)
  | readSecond =>
    refine h.readLook (h.self.arm ⟨rfl, rfl, rfl, rfl, rfl⟩ ?_)
    simp [hphase, Phase.transaction, Phase.pending, Phase.progress]
  | readSleep =>
    dsimp only [advance]
    split
    · exact h
    · exact h.goto rfl nofun (.inr rfl)
  | readResume =>
    dsimp only [advance]
    split
    · have hsame : SameStream (w.cancelWait pid .read) w := ⟨rfl, rfl, rfl, rfl, rfl⟩
      exact h.self.regoto hsame rfl nofun (by rw [hphase]; rfl)
    · exact h.goto rfl nofun (.inr rfl)
  | readUnarmed call waited =>
    dsimp only [advance]
    split
    · exact h.readInterrupted call waited
    · exact h.goto rfl nofun (.inr rfl)
  | readWakeWriters call pass =>
    have hwake : StreamInv (w.wakeAll .write) := h.congr ⟨rfl, rfl, rfl, rfl, rfl⟩
    dsimp only [advance]
    cases pass <;> exact hwake.goto rfl nofun (.inr rfl)
  | readPassOn =>
    dsimp only [advance]
    split <;> exact h.goto rfl nofun (.inr rfl)
  | readWakeOne =>
    have hwake : StreamInv (w.wakeOne .read) := h.congr ⟨rfl, rfl, rfl, rfl, rfl⟩
    exact hwake.goto rfl nofun (.inr rfl)
  | writeEnter =>
    have hprog := congrArg Phase.progress hphase
    dsimp only [advance]
    split
    · exact h.goto rfl nofun (.inl hprog.symm)
    rename_i hlt
    split
    · exact h.stopShort hprog
    refine h.goto rfl ?_ (.inl hprog.symm)
    rintro _ _ ⟨⟩
    omega
  | writeFirst => exact h.writeLook hphase
  | writeWakeOne call total =>
    have hprog := congrArg Phase.progress hphase
    have hle := (h.counted pid call total hprog).2.le
    have hsame : SameStream (w.wakeOne .read) w := ⟨rfl, rfl, rfl, rfl, rfl⟩
    dsimp only [advance]
    unfold PipeWorld.writeAfter
    split
    · exact h.self.regoto hsame rfl nofun hprog.symm
    refine h.self.writeBlocked hsame hprog (h.self.regoto hsame rfl ?_ hprog.symm)
    rintro _ _ ⟨⟩
    omega
  | writeReserve call total =>
    have hprog := congrArg Phase.progress hphase
    have hlt := h.pending pid call total (congrArg Phase.pending hphase)
    dsimp only [advance]
    split
    · refine h.goto rfl ?_ (.inl hprog.symm)
      rintro _ _ ⟨⟩
      exact hlt
    · exact h.stopShort hprog
  | writeSecond => exact h.writeLookAndArm env hphase
  | writeSleep =>
    dsimp only [advance]
    split
    · exact h
    · exact h.goto rfl nofun (.inl (by rw [hphase]; rfl))
  | writeResume =>
    dsimp only [advance]
    split
    · have hsame : SameStream (w.cancelWait pid .write) w := ⟨rfl, rfl, rfl, rfl, rfl⟩
      exact h.self.regoto hsame rfl nofun (by rw [hphase]; rfl)
    · exact h.goto rfl nofun (.inl (by rw [hphase]; rfl))
  | writeUnarmed =>
    have hprog := congrArg Phase.progress hphase
    dsimp only [advance]
    split
    · exact h.goto rfl nofun (.inl hprog.symm)
    rename_i hzero
    split
    · refine h.goto rfl nofun (.inl ?_)
      rw [hprog, Nat.eq_zero_of_not_pos hzero]
      rfl
    · exact h.goto rfl nofun (.inl hprog.symm)

lemma exec (h : StreamInv w) (op : PipeOp) : StreamInv (w.exec op) := by
  cases op with
  | read =>
    dsimp only [PipeWorld.exec]
    split
    · exact h.goto rfl nofun (.inr rfl)
    · exact h
  | write =>
    dsimp only [PipeWorld.exec]
    split
    · exact h.startWrite rfl
    · exact h
  | run pid env => exact h.advance env rfl
  | signal | discard => exact h.congr ⟨rfl, rfl, rfl, rfl, rfl⟩
  | deliver =>
    dsimp only [PipeWorld.exec]
    split
    · exact h.congr ⟨rfl, rfl, rfl, rfl, rfl⟩
    · exact h
  | addReader | addWriter | closeRead | closeWrite => exact h.congr ⟨rfl, rfl, rfl, rfl, rfl⟩

end StreamInv

/-! ## The end of the stream -/

/-- The contract of a pipe as a stream of bytes. -/
structure StreamContract (w : PipeWorld) : Prop where
  /-- The committed reads, in order, are a prefix of the accepted writes, in order. -/
  inOrder : w.delivered.flatten <+: w.acceptedBytes
  /-- No byte is lost and none is delivered twice. -/
  conserved : w.acceptedBytes = w.delivered.flatten ++ w.inner.contents
  /-- A short write is contiguous in the stream or has no effect. -/
  contiguous : ∀ call ∈ w.calls, call.src.length ≤ PIPE_BUF →
    chunks w.accepted call = [] ∨ chunks w.accepted call = [call.src]
  /-- What a write reports is what was accepted from it. -/
  reported : ∀ pid call total, w.phase pid = .writeReturned call (.ok total) →
    (chunks w.accepted call).flatten = call.src.take total ∧ total ≤ call.src.length
  refused : ∀ pid call error, w.phase pid = .writeReturned call (.error error) →
    (chunks w.accepted call).flatten = []
  /-- The ring does not overflow. -/
  bounded : w.inner.len ≤ w.inner.capacity
  /-- A read into a non-empty destination returned zero only at the end of the stream. -/
  zero : ∀ entry ∈ w.zeros, entry = (0, 0)

/-- The invariant gives the contract up to its last clause. -/
lemma StreamInv.contract {w : PipeWorld} (h : StreamInv w)
    (hzero : ∀ entry ∈ w.zeros, entry = (0, 0)) : StreamContract w where
  inOrder := h.conserved ▸ prefix_append _ _
  conserved := h.conserved
  contiguous := by
    intro call hcall hshort
    obtain ⟨total, hacc⟩ := h.settled call hcall
    rcases hacc.whole (decide_eq_true hshort) with ⟨hnil, -⟩ | ⟨hall, -⟩
    · exact .inl hnil
    · exact .inr hall
  reported := by
    intro pid call total hphase
    have hacc := (h.counted pid call total (by rw [hphase, Phase.progress])).2
    exact ⟨hacc.flatten_eq, hacc.le⟩
  refused := by
    intro pid call error hphase
    have hacc := (h.counted pid call 0 (by rw [hphase, Phase.progress])).2
    simpa using hacc.flatten_eq
  bounded := w.inner.len_le
  zero := hzero

/-- The call of a task that is about to look at the ring. -/
def looking : Phase → Option ReadCall
  | .readFirst call _ | .readSecond call _ => some call
  | _ => none

/-- A read into a non-empty destination that finds the buffered bytes in the transaction of another
reader must be able to wait for them: it is a `read_with_commit`, and a write end is open. -/
def Guarded (w : PipeWorld) : PipeOp → Prop
  | .run pid _ => ∀ call ∈ looking (w.phase pid), 0 < call.dst → 0 < w.inner.len →
      w.inner.readInflight = true → call.transactional = true ∧ w.writers ≠ 0
  | _ => True

instance (w : PipeWorld) : DecidablePred w.Guarded
  | .run pid _ => inferInstanceAs (Decidable (∀ call ∈ looking (w.phase pid), 0 < call.dst →
      0 < w.inner.len → w.inner.readInflight = true → call.transactional = true ∧ w.writers ≠ 0))
  | .read _ _ | .write _ _ _ | .signal _ _ | .deliver _ | .discard _ | .addReader | .addWriter
  | .closeRead | .closeWrite => inferInstanceAs (Decidable True)

/-- Every step of the run is guarded. -/
def GuardedRun (w : PipeWorld) : List PipeOp → Prop
  | [] => True
  | op :: ops => w.Guarded op ∧ GuardedRun (w.exec op) ops

instance GuardedRun.decidable (w : PipeWorld) : (ops : List PipeOp) → Decidable (w.GuardedRun ops)
  | [] => inferInstanceAs (Decidable True)
  | op :: ops =>
    have := GuardedRun.decidable (w.exec op) ops
    inferInstanceAs (Decidable (w.Guarded op ∧ GuardedRun (w.exec op) ops))

section Zeros

variable {w : PipeWorld} {pid : ProcessId}

@[simp]
lemma zeros_arm (side : PipeEndType) (env : StepEnv) (armed unarmed retry : Phase) :
    (w.arm pid side env armed unarmed retry).zeros = w.zeros := by
  rcases w.arm_cases pid side env armed unarmed retry with ⟨-, heq⟩ | ⟨-, heq⟩ | ⟨-, heq⟩ <;>
    rw [heq] <;> rfl

lemma zeros_readLook {call : ReadCall} {waited : Bool} {block : PipeWorld}
    (hguard : 0 < call.dst → 0 < w.inner.len → w.inner.readInflight = true →
      call.transactional = true ∧ w.writers ≠ 0)
    (hblock : block.zeros = w.zeros) (hzero : ∀ entry ∈ w.zeros, entry = (0, 0)) :
    ∀ entry ∈ (w.readLook pid call waited block).zeros, entry = (0, 0) := by
  have hempty : (0 < call.dst → w.writers = 0 → w.inner.len = 0) →
      ∀ entry ∈ (w.readEmpty pid call block).zeros, entry = (0, 0) := by
    intro hend entry hentry
    unfold readEmpty at hentry
    split at hentry
    · rename_i hwriters
      simp only [goto_zeros, noteZero_zeros, true_and, mem_append] at hentry
      rcases hentry with hentry | hentry
      · exact hzero entry hentry
      split at hentry
      · rename_i hdst
        rw [mem_singleton.mp hentry, hwriters, hend hdst hwriters]
      · cases hentry
    split at hentry
    · exact hzero entry hentry
    · exact hzero entry (hblock ▸ hentry)
  unfold readLook
  split
  · split
    · split <;> exact hzero
    · rename_i hdata
      apply hempty
      intro hdst hwriters
      by_contra hlen
      have hin : w.inner.readInflight = true := by
        simpa [dataLeft, pos_of_ne_zero hlen] using hdata
      exact (hguard hdst (pos_of_ne_zero hlen) hin).2 hwriters
  · rename_i hplain
    split
    · rename_i hlen
      have hcount : ¬((w.inner.read call.dst).1 = [] ∧ 0 < call.dst) := by
        rintro ⟨hnil, hdst⟩
        have hlength := congrArg length hnil
        cases hin : w.inner.readInflight with
        | true => exact hplain (hguard hdst hlen hin).1
        | false =>
          rw [(w.inner.read_eq_of_not_readInflight hin call.dst).1, length_take,
            PipeInner.length_contents, length_nil] at hlength
          omega
      simpa [hcount] using hzero
    · rename_i hlen
      exact hempty fun _ _ => Nat.eq_zero_of_not_pos hlen

lemma zeros_advance (hinv : StreamInv w) {env : StepEnv} (hguard : w.Guarded (.run pid env))
    (hzero : ∀ entry ∈ w.zeros, entry = (0, 0)) :
    ∀ entry ∈ (w.advance pid env (w.phase pid)).zeros, entry = (0, 0) := by
  cases hphase : w.phase pid with
  | readFirst call =>
    exact zeros_readLook (hguard call (by rw [hphase]; rfl)) rfl hzero
  | readSecond call =>
    exact zeros_readLook (hguard call (by rw [hphase]; rfl)) (zeros_arm _ _ _ _ _) hzero
  | readCommit call bytes =>
    have hne := (hinv.transaction pid bytes (by rw [hphase, Phase.transaction])).2.1
    dsimp only [advance]
    unfold readFinish
    split
    · simpa [hne] using hzero
    · exact hzero
  | writeFirst =>
    dsimp only [advance]
    unfold writeLook writeBlocked
    split_ifs <;> exact hzero
  | writeSecond =>
    dsimp only [advance]
    unfold writeLookAndArm writeAfter writeBlocked writeArm
    dsimp only
    split_ifs <;> first | exact hzero | (rw [zeros_arm]; exact hzero)
  | writeWakeOne =>
    dsimp only [advance]
    unfold writeAfter writeBlocked
    split_ifs <;> exact hzero
  | readEnter call waited | readUnarmed call waited =>
    dsimp only [advance]
    unfold readInterrupted
    split_ifs <;> exact hzero
  | idle | readReturned _ _ | writeReturned _ _ => exact hzero
  | readWakeWriters _ _ _ | readPassOn _ _ | readWakeOne _ _ => exact hzero
  | readReserve _ _ | readSleep _ | readResume _ | writeEnter _ _ | writeReserve _ _
  | writeSleep _ _ | writeResume _ _ | writeUnarmed _ _ =>
    dsimp only [advance]
    split_ifs <;> exact hzero

/-- A guarded event notes only the end of the stream. -/
lemma zeros_exec (hinv : StreamInv w) {op : PipeOp} (hguard : w.Guarded op)
    (hzero : ∀ entry ∈ w.zeros, entry = (0, 0)) : ∀ entry ∈ (w.exec op).zeros, entry = (0, 0) := by
  cases op with
  | run => exact zeros_advance hinv hguard hzero
  | read pid call | write pid src nonblock | deliver pid =>
    dsimp only [exec]
    split_ifs <;> exact hzero
  | signal | discard | addReader | addWriter | closeRead | closeWrite => exact hzero

end Zeros

/-- In every guarded run of a pipe, whatever its tasks do and however their sections interleave, the
contract of a stream holds in every state that the run reaches. -/
theorem streamContract_of_guardedRun (capacity : ℕ) (hcap : 0 < capacity) (ops : List PipeOp)
    (hguard : (new capacity hcap).GuardedRun ops) :
    StreamContract ((new capacity hcap).execAll ops) := by
  have hrun : ∀ (ops : List PipeOp) (w : PipeWorld), StreamInv w →
      (∀ entry ∈ w.zeros, entry = (0, 0)) → w.GuardedRun ops → StreamContract (w.execAll ops) := by
    intro ops
    induction ops with
    | nil => exact fun w hinv hzero _ => hinv.contract hzero
    | cons op ops ih =>
      intro w hinv hzero hguard
      exact ih (w.exec op) (hinv.exec op) (zeros_exec hinv hguard.1 hzero) hguard.2
  exact hrun ops _ (StreamInv.new capacity hcap) (by simp [new]) hguard

/-- What holds in every run, guarded or not: nothing is lost or doubled, and transactions exclude
each other. -/
theorem streamInv_run (capacity : ℕ+) (ops : List PipeOp) :
    StreamInv ((new capacity capacity.pos).execAll ops) :=
  foldlRecOn ops exec (StreamInv.new _ capacity.pos) fun _ h op _ => h.exec op

/-- A writer puts one byte into the pipe and closes its end; a reader starts a transaction. -/
def detachedByte : List PipeOp :=
  [.write 0 [7] false, .run 0 StepEnv.benign, .run 0 StepEnv.benign, .run 0 StepEnv.benign, .closeWrite,
    .read 1 ⟨true, 1, false⟩, .run 1 StepEnv.benign, .run 1 StepEnv.benign]

/-- The reader commits, and the next read finds the end of the stream. -/
theorem streamContract_of_detachedByte :
    StreamContract ((new 4096 (by decide)).execAll
      (detachedByte ++ [.run 1 StepEnv.benign, .read 2 ⟨true, 1, false⟩, .run 2 StepEnv.benign,
        .run 2 StepEnv.benign])) := by
  apply streamContract_of_guardedRun
  decide +kernel

/-- A second reader sees the end of the stream while the byte is in the transaction of the first one,
whose commit then fails: the byte is buffered again. -/
theorem zero_before_end_of_stream :
    let w := (new 4096 (by decide)).execAll (detachedByte ++
      [.read 2 ⟨true, 1, false⟩, .run 2 StepEnv.benign, .run 2 StepEnv.benign,
        .run 1 ⟨false, true, true⟩])
    w.phase 2 = .readReturned ⟨true, 1, false⟩ (.ok 0) ∧ w.zeros = [(0, 1)] ∧
      w.inner.contents = [7] ∧ ¬StreamContract w := by
  refine ⟨by decide +kernel, by decide +kernel, by decide +kernel, ?_⟩
  intro hcontract
  exact absurd (hcontract.zero (0, 1) (by decide +kernel)) (by decide)

end PipeWorld

end Nilix.Ipc
