import Nilix.Audit.Ring

/-!
# The ring as a window on the log

All events ever pushed form one log with consecutive IDs and one chain of hashes.  The ring holds the
end of it, from a base on that evictions and drains move forward.  A push appends to the log, a drain
moves the base to the end, and an export reads the log from the cursor or the base, whichever is later.
-/

namespace Nilix.Audit

open List

lemma filterMap_range {α : Type*} {f : ℕ → Option α} {l : List α}
    (h : ∀ (i : ℕ) (hi : i < l.length), f i = some l[i]) :
    (range l.length).filterMap f = l := by
  induction l using reverseRecOn with
  | nil => rfl
  | append_singleton l a ih =>
    have hlen : (l ++ [a]).length = l.length + 1 := by
      rw [length_append, length_singleton]
    have hlast : f l.length = some a := by
      rw [h l.length (by omega), getElem_concat_length rfl]
    have hinit : ∀ (i : ℕ) (hi : i < l.length), f i = some l[i] := by
      intro i hi
      rw [h i (by omega), getElem_append_left hi]
    rw [hlen, range_succ, filterMap_append, ih hinit]
    simp [hlast]

/-- What holds of the log itself. -/
structure LogOk (sha : List UInt8 → Digest) (key : Option (List UInt8)) (history : List AuditEvent) :
    Prop where
  ids : ∀ (i : ℕ) (hi : i < history.length), history[i].id.toNat = i
  sealedEvents : ∀ e ∈ history, Sealed sha key e
  chain : history.IsChain fun a b => b.prevHash = a.hash
  first : ∀ e ∈ history.head?, e.prevHash = zeroHash

/-- The hash of the last event of a log. -/
def tailHash (history : List AuditEvent) : Digest :=
  (history.getLast?.map AuditEvent.hash).getD zeroHash

/-- The ring holds the log from the base on. -/
structure Represents (r : AuditRing) (history : List AuditEvent) (base : ℕ) : Prop where
  base_le : base ≤ history.length
  len : r.len = history.length - base
  len_le : r.len ≤ r.buf.length
  head_lt : 0 < r.buf.length → r.head < r.buf.length
  window : Ring.window r.buf r.head r.len = (history.drop base).map some
  nextId : r.nextId = history.length
  bound : history.length < 2 ^ 64
  prevHash : r.prevHash = tailHash history

namespace Represents

variable {r : AuditRing} {history : List AuditEvent} {base : ℕ}

section

variable (h : Represents r history base)
include h

/-- The slots from the head on are the log from the base on. -/
lemma slot_eq {i : ℕ} (hi : i < r.len)
    (hi' : base + i < history.length) : r.slot i = some history[base + i] := by
  unfold AuditRing.slot
  rw [← Ring.getElem?_window hi h.len_le, h.window, getElem?_map, getElem?_drop,
    getElem?_eq_getElem hi']
  rfl

lemma filterMap_slot (start count : ℕ) (hcount : start + count ≤ r.len) :
    ((range count).filterMap fun i => r.slot (start + i)) =
      (history.drop (base + start)).take count := by
  have hlen := h.len
  have hbase := h.base_le
  have htake : ((history.drop (base + start)).take count).length = count := by
    rw [length_take, length_drop]
    omega
  have hread := filterMap_range (f := fun i => r.slot (start + i))
    (l := (history.drop (base + start)).take count) fun i hi => by
      rw [htake] at hi
      rw [h.slot_eq (by omega) (by omega), getElem_take, getElem_drop]
      simp only [add_assoc]
  rw [htake] at hread
  exact hread

lemma contents_eq : r.contents = history.drop base := by
  have hread := h.filterMap_slot 0 r.len (by omega)
  simp only [zero_add, add_zero] at hread
  have hlen := h.len
  rw [take_of_length_le (by rw [length_drop]; omega)] at hread
  exact hread

lemma any_isNone_eq_false (start count : ℕ) (hcount : start + count ≤ r.len) :
    ((range count).any fun i => (r.slot (start + i)).isNone) = false := by
  have hlen := h.len
  have hbase := h.base_le
  rw [any_eq_false]
  intro i hi
  rw [mem_range] at hi
  rw [h.slot_eq (by omega) (by omega)]
  exact Bool.false_ne_true

end

/-! ## Set key -/

section

variable (h : Represents r history base)
include h

lemma setKey {key : List UInt8} {r' : AuditRing} (hkey : r.setKey key = .ok r') :
    Represents r' history base ∧ history = [] ∧
      r'.droppedTotal = r.droppedTotal ∧ r'.droppedPending = r.droppedPending := by
  unfold AuditRing.setKey at hkey
  split_ifs at hkey with _ _ _ hfresh
  cases hkey
  rw [not_or, not_not] at hfresh
  refine ⟨{ h with }, ?_, rfl, rfl⟩
  exact length_eq_zero_iff.mp (h.nextId.symm.trans hfresh.1)

/-! ## Push -/

lemma evict (hfull : r.len = r.buf.length) (hpos : 0 < r.buf.length) :
    Represents r.evict history (base + 1) := by
  have hlen := h.len
  have hbase := h.base_le
  have hhead := h.head_lt hpos
  have hset : (r.buf.set r.head none).length = r.buf.length := length_set
  have hwindow : Ring.window (r.buf.set r.head none) ((r.head + 1) % r.buf.length) (r.len - 1) =
      (history.drop (base + 1)).map some := by
    have hadvance := Ring.window_advance r.head (n := 1) (by omega) h.len_le
    rw [h.window, ← map_drop, drop_drop] at hadvance
    rw [← hadvance]
    refine Ring.window_congr (by rw [hset]; omega) (by omega) fun i hi => ?_
    rw [hset, getElem?_set_ne]
    -- the evicted slot is the one before the new head
    intro heq
    have hslot : (r.head + 0) % r.buf.length = (r.head + (1 + i)) % r.buf.length := by
      rw [add_zero, Nat.mod_eq_of_lt hhead]
      rw [Nat.mod_add_mod, add_assoc] at heq
      exact heq
    have := Ring.slot_inj hpos (by omega) hslot
    omega
  refine ⟨by omega, ?_, ?_, ?_, hwindow, h.nextId, h.bound, h.prevHash⟩
  · change r.len - 1 = history.length - (base + 1)
    omega
  · change r.len - 1 ≤ (r.buf.set r.head none).length
    omega
  · intro _
    change (r.head + 1) % r.buf.length < (r.buf.set r.head none).length
    rw [hset]
    exact Nat.mod_lt _ hpos

lemma insertTail (hroom : r.len < r.buf.length) (event : AuditEvent)
    (hbound : history.length + 1 < 2 ^ 64) :
    Represents (r.insertTail event) (history ++ [event]) base := by
  have hlen := h.len
  have hbase := h.base_le
  have hset : (r.buf.set ((r.head + r.len) % r.buf.length) (some event)).length = r.buf.length :=
    length_set
  have hlength : (history ++ [event]).length = history.length + 1 := by
    rw [length_append, length_singleton]
  refine ⟨by omega, ?_, ?_, ?_, ?_, ?_, by omega, ?_⟩
  · change r.len + 1 = (history ++ [event]).length - base
    omega
  · change r.len + 1 ≤ (r.buf.set _ (some event)).length
    omega
  · intro _
    change r.head < (r.buf.set _ (some event)).length
    rw [hset]
    exact h.head_lt (by omega)
  · change Ring.window (r.buf.set _ (some event)) r.head (r.len + 1) = _
    rw [Ring.window_set_end (some event) hroom, h.window, drop_append_of_le_length hbase,
      map_append]
    rfl
  · change wrappingAdd r.nextId 1 = (history ++ [event]).length
    unfold wrappingAdd
    rw [h.nextId, Nat.mod_eq_of_lt hbound, hlength]
  · unfold tailHash
    rw [getLast?_concat]
    rfl

lemma makeRoom (hpos : 0 < r.buf.length) :
    Represents r.makeRoom history (if r.len = r.buf.length then base + 1 else base) ∧
      r.makeRoom.len < r.makeRoom.buf.length := by
  unfold AuditRing.makeRoom
  have hle := h.len_le
  split_ifs with hfull
  · refine ⟨h.evict hfull hpos, ?_⟩
    change r.len - 1 < (r.buf.set r.head none).length
    rw [length_set]
    omega
  · exact ⟨h, by omega⟩

end

/-! ## Drain -/

/-- The copying loop returns the events of the slots it passes, and keeps the size of the buffer. -/
lemma drainSlots_eq (head : ℕ) (events : List AuditEvent) (offset : ℕ)
    (buf : List (Option AuditEvent)) (hlen : offset + events.length ≤ buf.length)
    (hread : ∀ (i : ℕ) (hi : i < events.length),
      buf[(head + (offset + i)) % buf.length]? = some (some events[i])) :
    (AuditRing.drainSlots head events.length offset buf).1 = events ∧
      (AuditRing.drainSlots head events.length offset buf).2.length = buf.length := by
  induction events generalizing offset buf with
  | nil => exact ⟨rfl, rfl⟩
  | cons e events ih =>
    rw [length_cons] at hlen
    have hfirst := hread 0 (Nat.succ_pos _)
    rw [add_zero, getElem_cons_zero] at hfirst
    have hset : (buf.set ((head + offset) % buf.length) none).length = buf.length := length_set
    -- the slot that was emptied is not passed again
    have hrest := ih (offset + 1) (buf.set ((head + offset) % buf.length) none)
      (by omega) fun i hi => by
        have hnext := hread (i + 1) (Nat.succ_lt_succ hi)
        rw [getElem_cons_succ] at hnext
        rw [hset, getElem?_set_ne, add_assoc offset, add_comm 1 i]
        · exact hnext
        intro heq
        have := Ring.slot_inj (by omega) (by omega) heq
        omega
    rw [length_cons, AuditRing.drainSlots, hfirst]
    exact ⟨congrArg (e :: ·) hrest.1, hrest.2.trans hset⟩

/-- A drain takes out the events of the ring and moves the base to the end of the log. -/
lemma drainInto (h : Represents r history base) {capacity : ℕ} (hcap : r.len ≤ capacity) :
    ∃ metadata r', r.drainInto capacity = some (history.drop base, metadata, r') ∧
      metadata = ⟨r.droppedSinceSnapshot, r.prevHash⟩ ∧ Represents r' history history.length ∧
      r'.droppedTotal = r.droppedTotal ∧ r'.droppedPending = r.droppedPending ∧ r'.key = r.key := by
  have hlen := h.len
  have hdrop : (history.drop base).length = r.len := by
    rw [length_drop, hlen]
  obtain ⟨hevents, hbuf⟩ := drainSlots_eq r.head (history.drop base) 0 r.buf
    (by rw [hdrop, zero_add]; exact h.len_le) fun i hi => by
      rw [zero_add, ← Ring.getElem?_window (by omega) h.len_le, h.window, getElem?_map,
        getElem?_eq_getElem hi]
      rfl
  rw [hdrop] at hevents hbuf
  have hempty : ((range r.len).any fun i => (r.slot i).isNone) = false := by
    have hany := h.any_isNone_eq_false 0 r.len (by omega)
    simp only [zero_add] at hany
    exact hany
  unfold AuditRing.drainInto
  rw [if_neg (by omega), hempty, if_neg Bool.false_ne_true]
  dsimp only
  rw [hevents]
  have hwindow : ∀ (buf : List (Option AuditEvent)) (pos : ℕ), Ring.window buf pos 0 =
      (history.drop history.length).map some := by
    intro buf pos
    rw [Ring.window, take_zero, drop_length]
    rfl
  split_ifs with hzero
  · refine ⟨_, _, rfl, rfl, ⟨le_rfl, (Nat.sub_self _).symm, Nat.zero_le _, fun hpos => ?_,
      hwindow _ _, h.nextId, h.bound, h.prevHash⟩, rfl, rfl, rfl⟩
    rw [hbuf]
    exact Nat.mod_lt _ (hbuf ▸ hpos)
  have hlen0 : r.len = 0 := not_not.mp hzero
  refine ⟨_, _, rfl, rfl, ⟨le_rfl, ?_, ?_, fun hpos => ?_, ?_, h.nextId, h.bound, h.prevHash⟩,
    rfl, rfl, rfl⟩
  · exact hlen0.trans (Nat.sub_self _).symm
  · rw [hlen0]
    exact Nat.zero_le _
  · rw [hbuf]
    exact h.head_lt (hbuf ▸ hpos)
  · rw [hlen0]
    exact hwindow _ _

/-! ## Export -/

variable {sha : List UInt8 → Digest} {key : Option (List UInt8)}

lemma oldestId_eq (h : Represents r history base) (hlog : LogOk sha key history) :
    r.oldestId = base := by
  have hlen := h.len
  have hbase := h.base_le
  have hle := h.len_le
  unfold AuditRing.oldestId
  split_ifs with hempty
  · rw [h.nextId]
    omega
  rw [not_or] at hempty
  have hslot := h.slot_eq (i := 0) (by omega) (by omega)
  unfold AuditRing.slot at hslot
  rw [add_zero, Nat.mod_eq_of_lt (h.head_lt (by omega))] at hslot
  rw [hslot]
  exact hlog.ids base (by omega)

/-- The scan finds the event with the cursor as its ID. -/
lemma find_eq (h : Represents r history base) (hlog : LogOk sha key history) {start : ℕ}
    (hstart : base ≤ start) (hend : start < history.length) :
    ((range r.len).find? fun i => (r.slot i).any fun e => decide (start ≤ e.id.toNat)) =
      some (start - base) := by
  have hlen := h.len
  have hat : ∀ i < r.len, ((r.slot i).any fun e => decide (start ≤ e.id.toNat)) =
      decide (start ≤ base + i) := by
    intro i hi
    rw [h.slot_eq hi (by omega)]
    change decide (start ≤ history[base + i].id.toNat) = _
    rw [hlog.ids (base + i) (by omega)]
  rw [find?_range_eq_some]
  refine ⟨?_, by rw [mem_range]; omega, fun j hj => ?_⟩
  · rw [hat _ (by omega)]
    simp
    omega
  rw [hat _ (by omega)]
  simp
  omega

variable {maxEvents : ℕ}

/-- The plan of a batch that starts inside the log. -/
lemma planFrom_eq (h : Represents r history base) (hlog : LogOk sha key history)
    (plan : AuditRing.ExportPlan) {start : ℕ} (hstart : base ≤ start)
    (hend : start < history.length) (hmax : 0 < maxEvents) :
    r.planFrom plan start maxEvents = { plan with
        startOffset := start - base
        eventCount := min maxEvents (history.length - start)
        nextCursor := start + min maxEvents (history.length - start)
        hasMore := min maxEvents (history.length - start) < history.length - start
        batchFirstPrevHash :=
          if 0 < plan.droppedSinceCursor then zeroHash else history[start].prevHash } := by
  have hlen := h.len
  have hbound := h.bound
  have havail : r.len - (start - base) = history.length - start := by omega
  have htake : 0 < min maxEvents (history.length - start) := by omega
  -- the first and the last event of the batch
  have hfirst : r.slot (start - base) = some history[start] := by
    rw [h.slot_eq (by omega) (by omega)]
    simp only [Nat.add_sub_cancel' hstart]
  have hoffset : base + (start - base + min maxEvents (history.length - start) - 1) =
      start + min maxEvents (history.length - start) - 1 := by omega
  have hlast := h.slot_eq (i := start - base + min maxEvents (history.length - start) - 1)
    (by omega) (by omega)
  unfold AuditRing.planFrom
  rw [h.find_eq hlog hstart hend]
  dsimp only
  rw [havail, if_neg (by omega), hfirst, hlast]
  dsimp only
  rw [hlog.ids _ (by omega), hoffset]
  unfold wrappingAdd
  rw [Nat.mod_eq_of_lt (by omega), Nat.sub_add_cancel (by omega)]

/-- What an export from a cursor within the log returns: the events from the cursor or the base on. -/
structure IsBatch (history : List AuditEvent) (base cursor maxEvents : ℕ)
    (batch : AuditRing.ExportPlan × Option (List AuditEvent)) : Prop where
  events : batch.2 = some ((history.drop (max cursor base)).take
    (min maxEvents (history.length - max cursor base)))
  nextCursor : batch.1.nextCursor =
    max cursor base + min maxEvents (history.length - max cursor base)
  dropped : batch.1.droppedSinceCursor = base - cursor
  gap : cursor < base → batch.1.batchFirstPrevHash = zeroHash
  first : base ≤ cursor → ∀ e ∈ history[cursor]?, batch.1.batchFirstPrevHash = e.prevHash

section

variable (h : Represents r history base)
include h

/-- Copying a plan of the same state copies the planned part of the log. -/
lemma copyExportPlanInto_eq (plan : AuditRing.ExportPlan)
    (hversion : plan.contentVersion = r.contentVersion)
    (hcount : plan.startOffset + plan.eventCount ≤ r.len) :
    r.copyExportPlanInto plan plan.eventCount =
      some ((history.drop (base + plan.startOffset)).take plan.eventCount) := by
  unfold AuditRing.copyExportPlanInto
  rw [if_neg, h.any_isNone_eq_false _ _ hcount, if_neg Bool.false_ne_true,
    h.filterMap_slot _ _ hcount]
  rw [not_or, not_not]
  exact ⟨hversion.symm, lt_irrefl _⟩

lemma isBatch_empty {plan : AuditRing.ExportPlan} {cursor : ℕ}
    (hend : max cursor base = history.length)
    (hplan : plan = { r.basePlan cursor with nextCursor := r.nextId })
    (hdropped : (r.basePlan cursor).droppedSinceCursor = base - cursor) :
    IsBatch history base cursor maxEvents (plan, r.copyExportPlanInto plan plan.eventCount) := by
  have hzero : min maxEvents (history.length - max cursor base) = 0 := by omega
  have hcopy := h.copyExportPlanInto_eq plan (by rw [hplan]; rfl)
    (by rw [hplan]; exact Nat.zero_le _)
  subst hplan
  refine ⟨?_, ?_, hdropped, fun _ => rfl, fun hle e he => ?_⟩
  · rw [hzero]
    exact hcopy
  · rw [hzero, hend, h.nextId, add_zero]
  · rw [max_eq_left hle] at hend
    rw [hend, getElem?_eq_none le_rfl] at he
    cases he

lemma isBatch_planFrom (hlog : LogOk sha key history) {cursor start : ℕ}
    (hstart : max cursor base = start) (hend : start < history.length) (hmax : 0 < maxEvents)
    (hdropped : (r.basePlan cursor).droppedSinceCursor = base - cursor) :
    let plan := r.planFrom (r.basePlan cursor) start maxEvents
    IsBatch history base cursor maxEvents
      (plan, r.copyExportPlanInto plan plan.eventCount) := by
  subst hstart
  have hlen := h.len
  have hbase : base ≤ max cursor base := le_max_right _ _
  have hplan := h.planFrom_eq hlog (r.basePlan cursor) hbase hend hmax
  have hcopy := h.copyExportPlanInto_eq
    (r.planFrom (r.basePlan cursor) (max cursor base) maxEvents) (by rw [hplan]; rfl)
    (by rw [hplan]; dsimp only; omega)
  refine ⟨?_, ?_, ?_, fun hgap => ?_, fun hle e he => ?_⟩
  · dsimp only
    rw [hcopy, hplan]
    rw [Nat.add_sub_cancel' hbase]
  · dsimp only
    rw [hplan]
  · dsimp only
    rw [hplan]
    exact hdropped
  · dsimp only
    rw [hplan]
    rw [hdropped, if_pos (by omega)]
  · dsimp only
    rw [hplan]
    rw [hdropped, if_neg (by omega)]
    obtain ⟨hlt, rfl⟩ := List.getElem?_eq_some_iff.mp he
    simp only [max_eq_left hle]

lemma exportBatch (hlog : LogOk sha key history) {cursor : ℕ}
    (hcursor : cursor ≤ history.length) (hmax : 0 < maxEvents) :
    IsBatch history base cursor maxEvents (r.exportBatch cursor maxEvents) := by
  have hlen := h.len
  have hbase := h.base_le
  have hle := h.len_le
  have hnext := h.nextId
  have hold := h.oldestId_eq hlog
  have hdropped : (r.basePlan cursor).droppedSinceCursor = base - cursor := by
    change (if cursor < r.oldestId then r.oldestId - cursor else 0) = base - cursor
    rw [hold]
    split_ifs <;> omega
  unfold AuditRing.exportBatch AuditRing.exportPlan
  rw [hold]
  split_ifs with hempty hzero hgap hfuture
  · exact h.isBatch_empty (by omega) rfl hdropped
  · omega
  · exact h.isBatch_planFrom hlog (max_eq_right hgap.le) (by omega) hmax hdropped
  · exact h.isBatch_empty (by omega) rfl hdropped
  · exact h.isBatch_planFrom hlog (max_eq_left (by omega)) (by omega) hmax hdropped

end

end Represents

end Nilix.Audit
