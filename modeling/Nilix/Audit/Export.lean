import Nilix.Audit.RingLog
import Nilix.Audit.TamperEvidence

/-!
# Following the audit log

A consumer starts at cursor 0 and feeds the next cursor of each batch into its next export, while
others push and drain.  The log never loses count: what was drained, what is buffered and what was
evicted add up, and so do what the consumer received and what it was told that it missed.
-/

namespace Nilix.Audit

open List

/-! ## Runs -/

/-- The ring with a consumer. -/
structure AuditWorld where
  ring : AuditRing
  /-- Ghost: all events that were pushed. -/
  history : List AuditEvent
  /-- Ghost: the number of events that were drained. -/
  drained : ℕ
  /-- The cursor of the consumer, what it has received and what it was told that it missed. -/
  cursor : ℕ
  received : List AuditEvent
  gaps : ℕ

/-- What can happen next.  An export of someone else does not change the ring. -/
inductive AuditStep where
  | push (event : AuditEvent)
  | setKey (key : List UInt8)
  | drain (capacity : ℕ)
  /-- The consumer exports from its cursor. -/
  | poll (maxEvents : ℕ)

namespace AuditWorld

/-- An empty ring, and a consumer at cursor 0. -/
def start (capacity : ℕ) : AuditWorld where
  ring := .withCapacity capacity
  history := []
  drained := 0
  cursor := 0
  received := []
  gaps := 0

/-- Run one step; the consumer asks for at least one event. -/
def exec (sha : List UInt8 → Digest) (w : AuditWorld) : AuditStep → AuditWorld
  | .push event =>
    { w with
      ring := w.ring.push sha event
      history :=
        if w.ring.buf = [] then w.history else w.history ++ [w.ring.makeRoom.stamp sha event] }
  | .setKey key =>
    match w.ring.setKey key with
    | .ok ring => { w with ring }
    | .error _ => w
  | .drain capacity =>
    match w.ring.drainInto capacity with
    | some (events, _, ring) => { w with ring, drained := w.drained + events.length }
    | none => w
  | .poll maxEvents =>
    if maxEvents = 0 then w
    else
      match w.ring.exportBatch w.cursor maxEvents with
      | (plan, some events) =>
        { w with
          cursor := plan.nextCursor
          received := w.received ++ events
          gaps := w.gaps + plan.droppedSinceCursor }
      | (_, none) => w

/-- The world after a sequence of steps. -/
def run (sha : List UInt8 → Digest) (w : AuditWorld) (steps : List AuditStep) : AuditWorld :=
  steps.foldl (exec sha) w

end AuditWorld

/-- The step pushes an event. -/
def AuditStep.isPush : AuditStep → Bool
  | .push _ => true
  | _ => false

/-- The number of pushes. -/
def pushes (steps : List AuditStep) : ℕ := steps.countP AuditStep.isPush

/-! ## The log -/

section Log

variable {sha : List UInt8 → Digest} {key : Option (List UInt8)} {history : List AuditEvent}

lemma LogOk.nil : LogOk sha key [] where
  ids _ h := nomatch h
  sealedEvents _ h := nomatch h
  chain := .nil
  first _ h := nomatch h

variable (h : LogOk sha key history)
include h

/-- Appending an event with the next ID, the tail hash and its own hash. -/
lemma LogOk.concat {event : AuditEvent} (hid : event.id.toNat = history.length)
    (hsealed : Sealed sha key event) (hprev : event.prevHash = tailHash history) :
    LogOk sha key (history ++ [event]) where
  ids i hi := by
    rcases lt_or_ge i history.length with hlt | hge
    · rw [getElem_append_left hlt]
      exact h.ids i hlt
    have heq : i = history.length := by
      rw [length_append, length_singleton] at hi
      omega
    subst heq
    rw [getElem_concat_length rfl]
    exact hid
  sealedEvents e he := by
    rcases mem_append.mp he with he | he
    · exact h.sealedEvents e he
    rw [mem_singleton.mp he]
    exact hsealed
  chain := by
    refine isChain_append.mpr ⟨h.chain, .singleton _, fun x hx y hy => ?_⟩
    cases hy
    rw [hprev]
    unfold tailHash
    rw [Option.mem_def.mp hx]
    rfl
  first e he := by
    cases hhistory : history with
    | nil =>
      rw [hhistory] at he
      cases he
      rw [hprev, hhistory]
      rfl
    | cons =>
      rw [hhistory] at he
      exact h.first e (by rw [hhistory]; exact he)

lemma LogOk.map_id (start count : ℕ) (hcount : start + count ≤ history.length) :
    ((history.drop start).take count).map (fun e => e.id.toNat) = range' start count := by
  apply ext_getElem
  · rw [length_map, length_take, length_drop, length_range']
    omega
  intro i hi hi'
  rw [length_range'] at hi'
  rw [getElem_map, getElem_take, getElem_drop, h.ids _ (by omega), getElem_range', one_mul]

lemma LogOk.verified_drop (base : ℕ) : verified sha key (history.drop base) = true := by
  rw [verified_eq, verifyChainPrefixed_iff]
  exact ⟨fun e he => h.sealedEvents e (mem_of_mem_drop he), h.chain.drop base⟩

lemma LogOk.prevHash_eq {i : ℕ} (hi : i + 1 < history.length) :
    history[i + 1].prevHash = history[i].hash := isChain_iff_getElem.mp h.chain i hi

end Log

/-! ## The invariant -/

namespace AuditWorld

/-- The first event that is still in the ring. -/
def base (w : AuditWorld) : ℕ := w.drained + w.ring.droppedTotal

/-- What holds in every reached world. -/
structure Inv (sha : List UInt8 → Digest) (w : AuditWorld) : Prop where
  rep : Represents w.ring w.history w.base
  log : LogOk sha w.ring.key w.history
  pending : (w.history.map fun e => e.dropped.toNat).sum + w.ring.droppedPending =
    w.ring.droppedTotal
  cursor_le : w.cursor ≤ w.history.length
  counted : w.received.length + w.gaps = w.cursor
  increasing : (w.received.map fun e => e.id.toNat).Pairwise (· < ·)
  below : ∀ e ∈ w.received, e.id.toNat < w.cursor
  genuine : ∀ e ∈ w.received, w.history[e.id.toNat]? = some e

variable {sha : List UInt8 → Digest} {w : AuditWorld}

lemma Inv.start (sha : List UInt8 → Digest) (capacity : ℕ) : (start capacity).Inv sha where
  rep :=
    { base_le := le_rfl
      len := rfl
      len_le := Nat.zero_le _
      head_lt := fun h => h
      window := rfl
      nextId := rfl
      bound := Nat.two_pow_pos 64
      prevHash := rfl }
  log := .nil
  pending := rfl
  cursor_le := le_rfl
  counted := rfl
  increasing := .nil
  below _ h := nomatch h
  genuine _ h := nomatch h

/-- Below the overflow the counter of evictions counts. -/
lemma Inv.droppedTotal_lt (h : w.Inv sha) : w.ring.droppedTotal < 2 ^ 64 := by
  have hle := h.rep.base_le
  have hbound := h.rep.bound
  unfold base at hle
  omega

lemma Inv.makeRoom (h : w.Inv sha) (hpos : 0 < w.ring.buf.length) :
    Represents w.ring.makeRoom w.history (w.drained + w.ring.makeRoom.droppedTotal) ∧
      (w.history.map fun e => e.dropped.toNat).sum + w.ring.makeRoom.droppedPending =
        w.ring.makeRoom.droppedTotal ∧
      w.ring.makeRoom.len < w.ring.makeRoom.buf.length ∧ w.ring.makeRoom.key = w.ring.key ∧
      w.ring.makeRoom.droppedPending < 2 ^ 64 := by
  obtain ⟨hrep, hroom⟩ := h.rep.makeRoom hpos
  have htotal := h.droppedTotal_lt
  have hpending := h.pending
  have hle := h.rep.base_le
  have hlen := h.rep.len
  have hbound := h.rep.bound
  unfold base at hrep hle hlen
  by_cases hfull : w.ring.len = w.ring.buf.length
  · rw [if_pos hfull] at hrep
    have hevict : w.ring.makeRoom = w.ring.evict := if_pos hfull
    rw [hevict] at hrep hroom ⊢
    have hsat : saturatingAdd w.ring.droppedTotal 1 = w.ring.droppedTotal + 1 :=
      saturatingAdd_eq_of_le (by unfold usizeMax; omega)
    have hsat' : saturatingAdd w.ring.droppedPending 1 = w.ring.droppedPending + 1 :=
      saturatingAdd_eq_of_le (by unfold usizeMax; omega)
    refine ⟨?_, ?_, hroom, rfl, ?_⟩
    · change Represents w.ring.evict w.history (w.drained + saturatingAdd w.ring.droppedTotal 1)
      rw [hsat]
      exact hrep
    · change _ + saturatingAdd w.ring.droppedPending 1 = saturatingAdd w.ring.droppedTotal 1
      rw [hsat, hsat']
      omega
    · change saturatingAdd w.ring.droppedPending 1 < 2 ^ 64
      rw [hsat']
      omega
  · rw [if_neg hfull] at hrep
    have hsame : w.ring.makeRoom = w.ring := if_neg hfull
    rw [hsame] at hrep hroom ⊢
    exact ⟨hrep, hpending, hroom, rfl, by omega⟩

/-- The stamp fills in the next ID, the tail hash, the pending evictions and the hash. -/
lemma stamp_spec (r : AuditRing) (event : AuditEvent) (hid : r.nextId < 2 ^ 64)
    (hpending : r.droppedPending < 2 ^ 64) :
    (r.stamp sha event).id.toNat = r.nextId ∧ (r.stamp sha event).prevHash = r.prevHash ∧
      (r.stamp sha event).dropped.toNat = r.droppedPending ∧
      Sealed sha r.key (r.stamp sha event) := by
  refine ⟨UInt64.toNat_ofNat_of_lt' hid, rfl, UInt64.toNat_ofNat_of_lt' hpending, ?_⟩
  unfold Sealed AuditRing.key AuditRing.stamp
  split_ifs <;> rfl

section

variable (h : w.Inv sha)
include h

lemma Inv.push (event : AuditEvent) (hbound : w.history.length + 1 < 2 ^ 64) :
    (w.exec sha (.push event)).Inv sha := by
  dsimp only [AuditWorld.exec]
  unfold AuditRing.push
  split_ifs with hempty
  · exact { h with }
  have hpos : 0 < w.ring.buf.length := length_pos_of_ne_nil hempty
  obtain ⟨hrep, hpending, hroom, hkey, hlt⟩ := h.makeRoom hpos
  have hid : w.ring.makeRoom.nextId < 2 ^ 64 := by
    rw [hrep.nextId]
    exact hrep.bound
  obtain ⟨hstampId, hstampPrev, hstampDropped, hstampSealed⟩ :=
    @stamp_spec sha w.ring.makeRoom event hid hlt
  have hlength : (w.history ++ [w.ring.makeRoom.stamp sha event]).length = w.history.length + 1 := by
    rw [length_append, length_singleton]
  refine ⟨hrep.insertTail hroom _ hbound, ?_, ?_, ?_, h.counted, h.increasing, h.below, ?_⟩
  · have hlog := h.log
    rw [← hkey] at hlog
    exact hlog.concat (hstampId.trans hrep.nextId) hstampSealed (hstampPrev.trans hrep.prevHash)
  · rw [map_append, sum_append, map_singleton, sum_singleton, hstampDropped]
    exact hpending
  · have hle := h.cursor_le
    change w.cursor ≤ (w.history ++ [w.ring.makeRoom.stamp sha event]).length
    omega
  · intro e he
    have hat := h.genuine e he
    have hlt : e.id.toNat < w.history.length := (h.below e he).trans_le h.cursor_le
    exact (getElem?_append_left hlt).trans hat

lemma Inv.setKey (key : List UInt8) : (w.exec sha (.setKey key)).Inv sha := by
  dsimp only [AuditWorld.exec]
  split
  · rename_i ring hring
    obtain ⟨hrep, hnil, htotal, hpending⟩ := h.rep.setKey hring
    refine ⟨?_, ?_, ?_, h.cursor_le, h.counted, h.increasing, h.below, h.genuine⟩
    · change Represents ring w.history (w.drained + ring.droppedTotal)
      rw [htotal]
      exact hrep
    · -- a key is set before the first event only
      rw [hnil]
      exact .nil
    · rw [htotal, hpending]
      exact h.pending
  · exact h

lemma Inv.drain (capacity : ℕ) : (w.exec sha (.drain capacity)).Inv sha := by
  dsimp only [AuditWorld.exec]
  rcases lt_or_ge capacity w.ring.len with hshort | henough
  · have hnone : w.ring.drainInto capacity = none := if_pos hshort
    rw [hnone]
    exact h
  obtain ⟨metadata, r', hdrain, -, hrep, htotal, hpending, hkey⟩ := h.rep.drainInto henough
  rw [hdrain]
  have hle := h.rep.base_le
  have hbase : w.drained + (w.history.drop w.base).length + r'.droppedTotal = w.history.length := by
    rw [htotal, length_drop]
    unfold base at hle ⊢
    omega
  refine ⟨?_, ?_, ?_, h.cursor_le, h.counted, h.increasing, h.below, h.genuine⟩
  · change Represents r' w.history (w.drained + (w.history.drop w.base).length + r'.droppedTotal)
    rw [hbase]
    exact hrep
  · rw [hkey]
    exact h.log
  · rw [htotal, hpending]
    exact h.pending

lemma Inv.poll (maxEvents : ℕ) : (w.exec sha (.poll maxEvents)).Inv sha := by
  dsimp only [AuditWorld.exec]
  split_ifs with hzero
  · exact h
  have hbatch := h.rep.exportBatch h.log h.cursor_le (pos_of_ne_zero hzero)
  have hle := h.rep.base_le
  have hcursor := h.cursor_le
  set start := max w.cursor w.base with hstart
  set count := min maxEvents (w.history.length - start) with hcount
  have hids := h.log.map_id start count (by omega)
  have hlength : ((w.history.drop start).take count).length = count := by
    rw [length_take, length_drop]
    omega
  split
  · rename_i plan events heq
    have hevents := hbatch.events
    have hnext := hbatch.nextCursor
    have hdropped := hbatch.dropped
    rw [heq] at hevents hnext hdropped
    cases hevents
    dsimp only at hnext hdropped
    have hnew : ∀ e ∈ (w.history.drop start).take count, start ≤ e.id.toNat ∧
        e.id.toNat < start + count := by
      intro e he
      have hmem : e.id.toNat ∈ range' start count := by
        rw [← hids]
        exact mem_map_of_mem he
      rw [mem_range'_1] at hmem
      exact hmem
    refine ⟨h.rep, h.log, h.pending, ?_, ?_, ?_, ?_, ?_⟩
    · dsimp only
      omega
    · have hcounted := h.counted
      dsimp only
      rw [length_append, hlength, hnext, hdropped]
      omega
    · dsimp only
      rw [map_append, pairwise_append]
      refine ⟨h.increasing, ?_, fun a ha b hb => ?_⟩
      · rw [hids]
        exact pairwise_lt_range'
      obtain ⟨e, he, rfl⟩ := mem_map.mp ha
      obtain ⟨e', he', rfl⟩ := mem_map.mp hb
      have hbelow := h.below e he
      have hfrom := (hnew e' he').1
      omega
    · intro e he
      dsimp only
      rw [hnext]
      rcases mem_append.mp he with he | he
      · have hbelow := h.below e he
        omega
      · exact (hnew e he).2
    · intro e he
      rcases mem_append.mp he with he | he
      · exact h.genuine e he
      obtain ⟨i, hi, rfl⟩ := getElem_of_mem (mem_of_mem_drop (mem_of_mem_take he))
      rw [h.log.ids i hi]
      exact getElem?_eq_getElem hi
  · exact h

lemma Inv.run {steps : List AuditStep} (hbound : w.history.length + pushes steps < 2 ^ 64) :
    (w.run sha steps).Inv sha := by
  induction steps generalizing w with
  | nil => exact h
  | cons step steps ih =>
    unfold pushes at hbound ih
    rw [countP_cons] at hbound
    cases step with
    | push event =>
      rw [show AuditStep.isPush (.push event) = true from rfl, if_pos rfl] at hbound
      refine ih (h.push event (by omega)) ?_
      change (if w.ring.buf = [] then w.history else
        w.history ++ [w.ring.makeRoom.stamp sha event]).length + _ < _
      split_ifs
      · omega
      rw [length_append, length_singleton]
      omega
    | setKey key =>
      have hsame : (w.exec sha (.setKey key)).history = w.history := by
        dsimp only [AuditWorld.exec]
        split <;> rfl
      refine ih (h.setKey key) ?_
      rw [hsame]
      omega
    | drain capacity =>
      have hsame : (w.exec sha (.drain capacity)).history = w.history := by
        dsimp only [AuditWorld.exec]
        split <;> rfl
      refine ih (h.drain capacity) ?_
      rw [hsame]
      omega
    | poll maxEvents =>
      have hsame : (w.exec sha (.poll maxEvents)).history = w.history := by
        dsimp only [AuditWorld.exec]
        split_ifs
        · rfl
        · split <;> rfl
      refine ih (h.poll maxEvents) ?_
      rw [hsame]
      omega

end

/-! ## The contract -/

/-- What the ring and its consumer guarantee. -/
structure AuditContract (sha : List UInt8 → Digest) (w : AuditWorld) : Prop where
  /-- The buffered events have consecutive IDs that end before the next one. -/
  ids : w.ring.contents.map (fun e => e.id.toNat) =
    range' (w.ring.nextId - w.ring.len) w.ring.len ∧ w.ring.len ≤ w.ring.nextId
  /-- They verify, under the key if one is set. -/
  verifies : verified sha w.ring.key w.ring.contents = true
  /-- The last one carries the tail hash. -/
  tail : w.ring.contents ≠ [] →
    w.ring.contents.getLast?.map AuditEvent.hash = some w.ring.prevHash
  /-- Every event was drained, is buffered or was evicted. -/
  total : w.ring.nextId = w.drained + w.ring.contents.length + w.ring.droppedTotal
  /-- Every eviction is reported by an event, or will be by the next one. -/
  reported : (w.history.map fun e => e.dropped.toNat).sum + w.ring.droppedPending =
    w.ring.droppedTotal
  /-- The consumer receives increasing IDs. -/
  increasing : (w.received.map fun e => e.id.toNat).Pairwise (· < ·)
  /-- What it received and what it was told that it missed add up to its cursor. -/
  counted : w.received.length + w.gaps = w.cursor
  /-- Its next batch has the IDs from the cursor on, but for the reported gap. -/
  batch : ∀ maxEvents > 0, ∃ events,
    (w.ring.exportBatch w.cursor maxEvents).2 = some events ∧
      w.cursor + (w.ring.exportBatch w.cursor maxEvents).1.droppedSinceCursor ≤
        (w.ring.exportBatch w.cursor maxEvents).1.nextCursor ∧
      ∀ id, id ∈ events.map (fun e => e.id.toNat) ↔
        w.cursor + (w.ring.exportBatch w.cursor maxEvents).1.droppedSinceCursor ≤ id ∧
          id < (w.ring.exportBatch w.cursor maxEvents).1.nextCursor
  /-- A batch with a gap has no previous hash. -/
  gap : ∀ maxEvents > 0, 0 < (w.ring.exportBatch w.cursor maxEvents).1.droppedSinceCursor →
    (w.ring.exportBatch w.cursor maxEvents).1.batchFirstPrevHash = zeroHash
  /-- A batch that has events and no gap follows on the event before the cursor. -/
  follows : ∀ maxEvents > 0, (w.ring.exportBatch w.cursor maxEvents).1.droppedSinceCursor = 0 →
    w.cursor < (w.ring.exportBatch w.cursor maxEvents).1.nextCursor →
      (w.cursor = 0 → (w.ring.exportBatch w.cursor maxEvents).1.batchFirstPrevHash = zeroHash) ∧
      ∀ e ∈ w.history, e.id.toNat + 1 = w.cursor →
        (w.ring.exportBatch w.cursor maxEvents).1.batchFirstPrevHash = e.hash
  /-- What the consumer received is what was pushed, before the cursor; if no gap was reported, the last
  event that it received is the one before the cursor. -/
  genuine : (∀ e ∈ w.received, e ∈ w.history ∧ e.id.toNat < w.cursor) ∧
    (w.gaps = 0 → ∀ e ∈ w.received.getLast?, e.id.toNat + 1 = w.cursor)

/-- Without a gap the consumer has received every event before the cursor. -/
lemma Inv.last_received (h : w.Inv sha) (hgaps : w.gaps = 0) {e : AuditEvent}
    (he : e ∈ w.received.getLast?) : e.id.toNat + 1 = w.cursor := by
  obtain ⟨before, hreceived⟩ := getLast?_eq_some_iff.mp he
  have hcounted := h.counted
  have hbelow := h.below e (mem_of_getLast? he)
  have hsorted := h.increasing
  rw [hreceived, map_append, pairwise_append] at hsorted
  -- the earlier IDs are different numbers below the last one
  have hsub : before.map (fun e => e.id.toNat) ⊆ range e.id.toNat := fun id hid =>
    mem_range.mpr (hsorted.2.2 id hid _ (mem_cons_self ..))
  have hle := (subperm_of_subset (hsorted.1.imp ne_of_lt) hsub).length_le
  rw [hreceived, length_append, length_singleton] at hcounted
  rw [length_map, length_range] at hle
  omega

lemma Inv.auditContract (h : w.Inv sha) : AuditContract sha w := by
  have hcontents := h.rep.contents_eq
  have hlen := h.rep.len
  have hbase := h.rep.base_le
  have hnext := h.rep.nextId
  have hcursor := h.cursor_le
  refine ⟨⟨?_, ?_⟩, ?_, fun hne => ?_, ?_, h.pending, h.increasing, h.counted, fun maxEvents hmax => ?_,
    fun maxEvents hmax hgap => ?_, fun maxEvents hmax hgap hevents => ?_, fun e he => ⟨?_, h.below e he⟩,
    fun hgaps e he => h.last_received hgaps he⟩
  · have hids := h.log.map_id w.base w.ring.len (by omega)
    rw [take_of_length_le (by rw [length_drop]; omega)] at hids
    rw [hcontents, hids]
    congr 1
    omega
  · omega
  · rw [hcontents]
    exact h.log.verified_drop w.base
  · rw [hcontents] at hne ⊢
    have hlt : w.base < w.history.length := by
      by_contra hge
      exact hne (drop_of_length_le (by omega))
    rw [getLast?_drop, if_neg (by omega), h.rep.prevHash]
    unfold tailHash
    obtain ⟨last, hlast⟩ : ∃ last, w.history.getLast? = some last := by
      cases hl : w.history.getLast? with
      | none =>
        rw [getLast?_eq_none_iff.mp hl] at hlt
        cases hlt
      | some last => exact ⟨last, rfl⟩
    rw [hlast]
    rfl
  · rw [hcontents, length_drop, hnext]
    unfold base at hbase ⊢
    omega
  · have hbatch := h.rep.exportBatch h.log h.cursor_le hmax
    refine ⟨_, hbatch.events, ?_, fun id => ?_⟩
    · rw [hbatch.dropped, hbatch.nextCursor]
      omega
    rw [h.log.map_id _ _ (by omega), mem_range'_1, hbatch.dropped, hbatch.nextCursor]
    omega
  · have hbatch := h.rep.exportBatch h.log h.cursor_le hmax
    rw [hbatch.dropped] at hgap
    exact hbatch.gap (by omega)
  · have hbatch := h.rep.exportBatch h.log h.cursor_le hmax
    rw [hbatch.dropped] at hgap
    rw [hbatch.nextCursor] at hevents
    have hlt : w.cursor < w.history.length := by omega
    have hfirst := hbatch.first (by omega) w.history[w.cursor] (getElem?_eq_getElem hlt)
    rw [hfirst]
    refine ⟨fun hzero => ?_, fun e he hid => ?_⟩
    · refine h.log.first _ ?_
      simp only [hzero]
      rw [Option.mem_def, head?_eq_getElem?]
      exact getElem?_eq_getElem _
    obtain ⟨i, hi, rfl⟩ := getElem_of_mem he
    rw [h.log.ids i hi] at hid
    simp only [← hid]
    exact h.log.prevHash_eq (by omega)
  · exact mem_of_getElem? (h.genuine e he)

/-- For every capacity and every sequence of operations with fewer pushes than there are IDs. -/
theorem auditContract_run (sha : List UInt8 → Digest) (capacity : ℕ) {steps : List AuditStep}
    (hbound : pushes steps < 2 ^ 64) : AuditContract sha ((start capacity).run sha steps) := by
  have hinv : ((start capacity).run sha steps).Inv sha := by
    apply (Inv.start sha capacity).run
    change 0 + pushes steps < 2 ^ 64
    omega
  exact hinv.auditContract

/-- The consumer receives one event, misses a drained one, is told so by an empty batch, and goes on. -/
def missedOne : List AuditStep :=
  [.push (deniedSignal 0 none zeroHash zeroHash), .poll 10, .push (deniedSignal 0 none zeroHash zeroHash),
    .drain 10, .poll 10, .push (deniedSignal 0 none zeroHash zeroHash)]

theorem auditContract_missedOne : AuditContract idByte ((start 4).run idByte missedOne) :=
  auditContract_run idByte 4 (by decide)

/-- The batch after the empty one has an event and reports no gap, but its previous hash is not the hash of
the last event that the consumer received. -/
theorem missedOne_prevHash_ne_last_received :
    (((start 4).run idByte missedOne).ring.exportBatch
        ((start 4).run idByte missedOne).cursor 10).1.droppedSinceCursor = 0 ∧
      (((start 4).run idByte missedOne).ring.exportBatch
        ((start 4).run idByte missedOne).cursor 10).1.eventCount = 1 ∧
      ((start 4).run idByte missedOne).received.getLast?.map AuditEvent.hash =
        some (Vector.replicate 32 0) ∧
      (((start 4).run idByte missedOne).ring.exportBatch
        ((start 4).run idByte missedOne).cursor 10).1.batchFirstPrevHash =
          Vector.replicate 32 1 := by
  decide +kernel

end AuditWorld

end Nilix.Audit
