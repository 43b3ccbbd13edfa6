import Nilix.Foundation.Fallible
import Nilix.Net.FragmentBudget

/-!
# Every live queue is on the books

A cache is settled if its books are the charges of its live queues.  Every critical section of a
call, run without interference, leads from a settled cache to a settled cache or leaves exactly the
charge of the one detached queue in addition; so a whole call keeps the cache settled, and so does
the sweep of expired queues.
-/

namespace Nilix.Net

open FallibleOrderedMap SortedAssoc Function List Bool PerNsBudget

/-- The charges of the queues in a map. -/
def charges (m : AdmittedMap FragmentKey FragmentQueue) : List Charge := m.iter.map chargeOf

lemma charges_remove {m : AdmittedMap FragmentKey FragmentQueue} {key : FragmentKey}
    {q : FragmentQueue} (h : m.get key = some q) :
    (charges m).Perm (chargeOf (key, q) :: charges (m.remove key)) :=
  (perm_erase h).map chargeOf

lemma charges_insert {m m' : AdmittedMap FragmentKey FragmentQueue} {key : FragmentKey}
    {q : FragmentQueue} (h : m.get key = none) (hassoc : m'.assoc = m.assoc.insert key q) :
    (charges m').Perm (chargeOf (key, q) :: charges m) := by
  have hperm := (perm_insert h q).map chargeOf
  rwa [← hassoc] at hperm

lemma charges_of_assoc {m m' : AdmittedMap FragmentKey FragmentQueue}
    (hassoc : m'.assoc = m.assoc) : charges m' = charges m :=
  congrArg (fun a => a.entries.map chargeOf) hassoc

lemma cacheBudget_queues (L : List Charge) : (cacheBudget L).queues = L.length := by
  simp [cacheBudget, budgetWhere, Charge.budget]

namespace FragmentCache

variable {c c' : FragmentCache} {key : FragmentKey} {q : FragmentQueue} {L : List Charge}

/-- The books are the charges of the live queues. -/
def Settled (c : FragmentCache) : Prop := c.Accounts (charges c.queues)

lemma Accounts.fragCount_eq (h : c.Accounts (chargeOf (key, q) :: L)) :
    q.fragCount = q.receivedFrags := by
  have hle : q.receivedFrags ≤ globalMaxFrags :=
    (Accounts.charge_le_cache key q.receivedFrags q.receivedBytes L).2.1.trans h.within.2.1
  exact Nat.mod_eq_of_lt (hle.trans_lt (by decide))

lemma Accounts.retire (h : c.Accounts (chargeOf (key, q) :: charges c.queues)) :
    (c.releaseQueue key q.fragCount q.byteCount).Settled := by
  have hreleased := Accounts.releaseQueue h
  unfold Settled
  rw [h.fragCount_eq, releaseQueue_queues]
  exact hreleased

/-- The books do not depend on the map of the queues. -/
lemma Accounts.withQueues (h : c.Accounts L) (queues : AdmittedMap FragmentKey FragmentQueue) :
    { c with queues := queues }.Accounts L :=
  ⟨{ h.books with }, h.within⟩

section

variable (h : c.Settled)
include h

lemma Settled.remove (hget : c.queues.get key = some q) :
    { c with queues := c.queues.remove key }.Accounts
      (chargeOf (key, q) :: charges (c.queues.remove key)) :=
  (h.perm (charges_remove hget)).withQueues _

lemma Settled.retire (hget : c.queues.get key = some q) :
    ({ c with queues := c.queues.remove key }.releaseQueue key q.fragCount q.byteCount).Settled :=
  (h.remove hget).retire

lemma Settled.count (e : StatEvent) : (c.count e).Settled :=
  ⟨{ h.books with }, h.within⟩

lemma Settled.recordDropReason (reason : FragmentDropReason) :
    (c.recordDropReason reason).Settled := by
  unfold Settled
  rw [recordDropReason_queues]
  exact .recordDropReason h reason

lemma Settled.setSlot (slot : Fin fragmentTransactionSlots) (held : Bool) :
    (c.setSlot slot held).Settled :=
  ⟨{ h.books with }, h.within⟩

end

/-- A call returns and leaves a settled cache with the same slots held. -/
def Leaves {α : Type} (c : FragmentCache) (x : Except FragmentFault (α × FragmentCache)) : Prop :=
  ∃ r c', x = .ok (r, c') ∧ c'.Settled ∧ c'.transactionSlots = c.transactionSlots

lemma Leaves.congr {α : Type} {x : Except FragmentFault (α × FragmentCache)} (h : c'.Leaves x)
    (hslots : c'.transactionSlots = c.transactionSlots) : c.Leaves x := by
  obtain ⟨r, c'', hx, hsettled, hslots'⟩ := h
  exact ⟨r, c'', hx, hsettled, hslots'.trans hslots⟩

lemma Settled.leaves_dropped {α : Type} (h : c.Settled) (r : α) (reason : FragmentDropReason) :
    c.Leaves (.ok (r, c.recordDropReason reason)) :=
  ⟨_, _, rfl, h.recordDropReason reason, recordDropReason_transactionSlots ..⟩

/-! ## Sections for an existing queue -/

lemma Settled.expireSection (h : c.Settled) (key : FragmentKey) (nowMs : ℕ) :
    (c.expireSection key nowMs).2.Settled ∧
      (c.expireSection key nowMs).2.transactionSlots = c.transactionSlots := by
  unfold FragmentCache.expireSection
  split
  · exact ⟨h, rfl⟩
  rename_i owner hget
  split
  · refine ⟨(h.retire hget).count _, ?_⟩
    rw [count_transactionSlots, releaseQueue_transactionSlots]
  · exact ⟨h, rfl⟩

/-- What the detaching section leaves: nothing, a settled cache, or the charge of the detached queue
with the new fragment beside those of the live queues. -/
def AfterDetach (c : FragmentCache) (call : FragmentCall) (c' : FragmentCache) : DetachResult → Prop
  | .absent => c' = c
  | .dropped _ => c'.Settled
  | .detached owner =>
    c.queues.get call.key = some owner ∧ c'.queues = c.queues.remove call.key ∧
      c'.Accounts (chargeFor call.key (owner.receivedFrags + 1)
        (owner.receivedBytes + call.payload.length) :: charges c'.queues)

lemma Settled.dropped (h : c'.Settled) (hslots : c'.transactionSlots = c.transactionSlots)
    (call : FragmentCall) (reason : FragmentDropReason) :
    ∃ r c'', c'.dropped reason = .ok (r, c'') ∧ AfterDetach c call c'' r ∧
      c''.transactionSlots = c.transactionSlots :=
  ⟨_, _, rfl, h.recordDropReason reason, (recordDropReason_transactionSlots ..).trans hslots⟩

/-- The reservation for a fragment of a live queue. -/
lemma Settled.detachSection (h : c.Settled) (call : FragmentCall) :
    ∃ r c', c.detachSection call = .ok (r, c') ∧ AfterDetach c call c' r ∧
      c'.transactionSlots = c.transactionSlots := by
  unfold FragmentCache.detachSection
  cases hget : c.queues.get call.key with
  | none => exact ⟨_, _, rfl, rfl, rfl⟩
  | some =>
    dsimp only
    split
    · exact h.dropped rfl call _
    split
    · exact h.dropped rfl call _
    split
    · exact h.dropped rfl call _
    split
    · exact h.dropped rfl call _
    have hcharged := h.perm (charges_remove hget)
    cases hc1 : c.tryReserveFragment with
    | none => exact h.dropped rfl call _
    | some =>
      obtain ⟨c2, hc2, h2, hsame2⟩ := hcharged.reserveFragment hc1
      simp only [hc2, ok_bind]
      cases hc3 : c2.tryReserveBytes call.payload.length with
      | none =>
        have hreleased : (c2.releaseFragment.perNsReleaseFrags call.key.netNsId 1).Settled := by
          unfold Settled
          rw [perNsReleaseFrags, (perNsRelease_frame ..).1]
          exact (h2.releaseFragment).perm (hsame2.queues ▸ (charges_remove hget).symm)
        exact hreleased.dropped
          ((perNsRelease_frame ..).2.1.trans hsame2.transactionSlots) call _
      | some =>
        obtain ⟨c4, hc4, h4, hsame4⟩ := h2.reserveBytes hc3
        have hsame := hsame2.trans hsame4
        have hqueues : c4.queues.remove call.key = c.queues.remove call.key := by rw [hsame.queues]
        simp only [hc4, pure, Except.pure]
        refine ⟨_, _, rfl, ⟨hget, hqueues, ?_⟩, hsame.transactionSlots⟩
        rw [hqueues]
        exact h4.withQueues _

section

variable (h : c.Accounts (chargeOf (key, q) :: charges c.queues))
include h

lemma Accounts.completeSection :
    (c.completeSection key q).Settled := h.retire

lemma Accounts.reattach (hnone : c.queues.get key = none)
    (hroom : c.queues.len < c.queues.capacity) :
    ∃ queues, c.queues.insertUniqueReserved key q = some queues ∧
      { c with queues := queues }.Settled := by
  obtain ⟨queues, hinsert, hassoc, -⟩ := insertUniqueReserved_eq_some hnone hroom q
  exact ⟨queues, hinsert, (h.perm (charges_insert hnone hassoc).symm).withQueues queues⟩

lemma Accounts.reattachSection (hnone : c.queues.get key = none)
    (hroom : c.queues.len < c.queues.capacity) :
    ∃ c', c.reattachSection key q = .ok c' ∧ c'.Settled ∧
      c'.transactionSlots = c.transactionSlots := by
  obtain ⟨queues, hinsert, hsettled⟩ := h.reattach hnone hroom
  unfold FragmentCache.reattachSection
  rw [hinsert]
  exact ⟨_, rfl, hsettled, rfl⟩

end

/-- A rejected fragment is taken off the books, with its queue or alone. -/
lemma Accounts.failSection {call : FragmentCall}
    (h : c.Accounts (chargeFor call.key (q.receivedFrags + 1)
      (q.receivedBytes + call.payload.length) :: charges c.queues))
    (hnone : c.queues.get call.key = none) (hroom : c.queues.len < c.queues.capacity)
    (reason : FragmentDropReason) :
    ∃ c', (c.releaseFragment.releaseBytes call.payload.length).failSection call q reason = .ok c' ∧
      c'.Settled ∧ c'.transactionSlots = c.transactionSlots := by
  unfold FragmentCache.failSection
  dsimp only
  have h1 := h.releaseReserved
  set c1 := ((c.releaseFragment.releaseBytes call.payload.length).perNsReleaseFrags call.key.netNsId
    1).perNsReleaseBytes call.key.netNsId call.payload.length
  have hqueues : c1.queues = c.queues := (sameQueues_perNsRelease ..).queues
  have hslots : c1.transactionSlots = c.transactionSlots :=
    (sameQueues_perNsRelease ..).transactionSlots
  rw [← hqueues] at h1 hnone hroom
  split
  · refine ⟨_, rfl, (Accounts.retire h1).recordDropReason reason, ?_⟩
    rw [recordDropReason_transactionSlots, releaseQueue_transactionSlots, hslots]
  obtain ⟨queues, hinsert, hsettled⟩ := Accounts.reattach h1 hnone hroom
  rw [hinsert]
  exact ⟨_, rfl, hsettled.recordDropReason reason,
    (recordDropReason_transactionSlots ..).trans hslots⟩

/-! ## Planning a new queue -/

variable {call : FragmentCall} {victim : Option Victim} {v : Victim} {ns : ℕ}

/-- The victim is a live queue of the namespace. -/
def IsVictim (c : FragmentCache) (ns : ℕ) (v : Victim) : Prop :=
  v.key.netNsId = ns ∧
    ∃ q, c.queues.get v.key = some q ∧ v.frags = q.fragCount ∧ v.bytes = q.byteCount

lemma isVictim_of_findVictim (h : c.findVictim ns = some v) : c.IsVictim ns v := by
  obtain ⟨e, he, rfl⟩ := Option.map_eq_some_iff.mp h
  obtain ⟨hmem, hns⟩ := mem_filter.mp (argmin_mem he)
  exact ⟨of_decide_eq_true hns, e.2, mem_entries.mp hmem, rfl, rfl⟩

/-- The charge of a victim is one of those on the books. -/
lemma Settled.charge_victim (h : c.Settled) (hv : c.IsVictim ns v) :
    ∃ q, c.queues.get v.key = some q ∧ v.frags = q.fragCount ∧ v.bytes = q.byteCount ∧
      v.frags = q.receivedFrags ∧
      c.Accounts (chargeFor v.key v.frags v.bytes :: charges (c.queues.remove v.key)) := by
  obtain ⟨-, q, hget, hfrags, hbytes⟩ := hv
  have hcharged := h.perm (charges_remove hget)
  have hfrags' : v.frags = q.receivedFrags := hfrags.trans hcharged.fragCount_eq
  refine ⟨q, hget, hfrags, hbytes, hfrags', ?_⟩
  rw [hfrags', hbytes]
  exact hcharged

/-- The facts a plan rests on. -/
structure Planned (c : FragmentCache) (call : FragmentCall) (victim : Option Victim) : Prop where
  absent : c.queues.get call.key = none
  isVictim : ∀ v ∈ victim, c.IsVictim call.key.netNsId v
  queues : victim = none → c.queues.len < globalMaxQueues
  frags : c.stats.bufferedFragments - (victimBudget victim).frags < globalMaxFrags
  bytes : c.stats.bufferedBytes - (victimBudget victim).bytes + call.payload.length ≤
    globalMaxFragBytes

lemma of_planVictim (h : c.planVictim key = .ok victim) :
    (∀ v ∈ victim, c.IsVictim key.netNsId v) ∧ (victim = none → c.queues.len < globalMaxQueues) := by
  unfold planVictim at h
  dsimp only at h
  split at h
  · split at h
    · cases h
    · rename_i v hv
      cases h
      exact ⟨fun v' hv' => Option.some.inj hv' ▸ isVictim_of_findVictim hv, nofun⟩
  rename_i hneed
  cases h
  exact ⟨nofun, fun _ => not_le.mp fun hle => hneed (.inr hle)⟩

lemma of_checkLimits (h : c.checkLimits call victim = .ok ()) :
    c.stats.bufferedFragments - (victimBudget victim).frags < globalMaxFrags ∧
      c.stats.bufferedBytes - (victimBudget victim).bytes + call.payload.length ≤
        globalMaxFragBytes := by
  unfold checkLimits at h
  dsimp only at h
  split_ifs at h with _ _ _ hfrags hbytes
  refine ⟨not_le.mp hfrags, not_lt.mp fun hlt => hbytes ?_⟩
  exact lt_min hlt (by decide)

lemma Settled.limitsClip_eq_false (h : c.Settled) (hv : ∀ v ∈ victim, c.IsVictim key.netNsId v) :
    c.limitsClip key victim = false := by
  cases victim with
  | none => simp [limitsClip, victimIn, victimBudget, victimOf, clips, PerNsBudget.zero]
  | some v =>
    obtain ⟨q, hget, -, -, -, hcharged⟩ := h.charge_victim (hv v rfl)
    have hns : v.key.netNsId = key.netNsId := (hv v rfl).1
    have hrow : ((c.perNsCounts.get key.netNsId).getD .zero).clips ⟨1, v.frags, v.bytes⟩ = false := by
      rw [hcharged.books.rows.getD, clips_eq_false_iff, ← hns]
      exact Accounts.charge_le ..
    have hcache : Le ⟨1, v.frags, v.bytes⟩ c.cacheTotal := by
      rw [hcharged.books.total]
      exact Accounts.charge_le_cache ..
    have hsource : victimOf (some v) key.source ≤ (c.perSrcCounts.get key.source).getD 0 := by
      rw [hcharged.books.sources.getD, sourceCount_cons]
      unfold victimOf
      split_ifs with heq
      · have hkey : v.key.source = key.source := by simpa using heq
        rw [← hkey]
        exact (update_self v.key.source _ _).symm ▸ Nat.le_add_left ..
      · exact Nat.zero_le _
    have hin : victimIn (some v) key.netNsId = some v := by simp [victimIn, hns]
    have hfrags : ¬c.stats.bufferedFragments < v.frags := hcache.2.1.not_gt
    have hbytes : ¬c.stats.bufferedBytes < v.bytes := hcache.2.2.not_gt
    unfold limitsClip
    rw [hin]
    simp [victimBudget, hrow, hfrags, hbytes, hsource]

lemma victim_of_planRooms {plan : Plan} (h : c.planRooms key victim = .ok plan) :
    plan.victim = victim := by
  obtain ⟨queues, -, h⟩ := bind_eq_ok h
  obtain ⟨perSrc, -, h⟩ := bind_eq_ok h
  obtain ⟨perNs, -, h⟩ := bind_eq_ok h
  cases h
  rfl

/-- Planning changes nothing, and a plan has what it rests on. -/
lemma Settled.planSection (h : c.Settled) (call : FragmentCall) : (c.planSection call).2 = c ∧
      ∀ plan, (c.planSection call).1 = .ok plan → c.Planned call plan.victim := by
  unfold FragmentCache.planSection
  split
  · exact ⟨rfl, nofun⟩
  rename_i hcontains
  have habsent : c.queues.get call.key = none :=
    containsKey_eq_false_iff.mp (not_eq_true _ ▸ hcontains)
  split
  · exact ⟨rfl, nofun⟩
  rename_i victim hvictim
  obtain ⟨hv, hlen⟩ := of_planVictim hvictim
  have hnote : c.note (c.limitsClip call.key victim) = c := by
    rw [h.limitsClip_eq_false hv, note_false]
  split
  · exact ⟨hnote, nofun⟩
  rename_i hlimits
  obtain ⟨hfrags, hbytes⟩ := of_checkLimits hlimits
  refine ⟨hnote, fun plan hplan => ?_⟩
  rw [victim_of_planRooms hplan]
  exact ⟨habsent, hv, hlen, hfrags, hbytes⟩

/-! ## Publishing a new queue -/

/-- An installation keeps the entries and makes room where it is needed. -/
lemma of_installRoom {K V : Type} [LinearOrder K] {m m' : AdmittedMap K V}
    {needed committed : Bool} {prepared : Option ℕ}
    (h : installRoom m needed committed prepared = some m') :
    m'.assoc = m.assoc ∧ (needed = true → m'.len < m'.capacity) := by
  unfold installRoom at h
  split at h
  · split at h
    · cases h
    · rename_i hplan
      cases h
      rcases capacityPlan_cases hplan with ⟨-, hle⟩ | ⟨plan, hplan', -, -⟩
      · exact ⟨rfl, fun _ => hle⟩
      · cases hplan'
    · rename_i plan hplan
      split at h
      · cases h
      rename_i capacity hcapacity
      obtain ⟨hassoc, hcap⟩ := AdmittedMap.of_installPreparedDeferred h
      refine ⟨hassoc, fun _ => ?_⟩
      have hlen := len_of_assoc hassoc
      have hle : plan.required ≤ capacity := by simpa using (Option.filter_eq_some_iff.mp hcapacity).2
      rcases capacityPlan_cases hplan with ⟨hnone, -⟩ | ⟨plan', hplan', hrequired, -⟩
      · cases hnone
      cases hplan'
      rw [hlen, hcap]
      omega
  · rename_i hneeded
    cases h
    exact ⟨rfl, fun hn => absurd hn hneeded⟩

/-- New backings, the same entries. -/
structure Rehoused (c c' : FragmentCache) : Prop where
  queues : c'.queues.assoc = c.queues.assoc
  perSrcCounts : c'.perSrcCounts.assoc = c.perSrcCounts.assoc
  perNsCounts : c'.perNsCounts.assoc = c.perNsCounts.assoc
  stats : c'.stats = c.stats
  transactionSlots : c'.transactionSlots = c.transactionSlots
  clipped : c'.clipped = c.clipped

lemma Settled.rehoused (h : c.Settled) (hre : Rehoused c c') : c'.Settled := by
  have htotal : c'.cacheTotal = c.cacheTotal := by
    unfold cacheTotal
    rw [hre.stats]
  unfold Settled
  rw [charges_of_assoc hre.queues]
  exact ⟨⟨h.books.rows.of_assoc hre.perNsCounts, h.books.sources.of_assoc hre.perSrcCounts,
    htotal.trans h.books.total, hre.clipped.trans h.books.unclipped⟩, h.within⟩

lemma Planned.rehoused (h : c.Planned call victim) (hre : Rehoused c c') :
    c'.Planned call victim := by
  refine ⟨(get_of_assoc hre.queues _).trans h.absent, fun v hv => ?_,
    fun hnone => len_of_assoc hre.queues ▸ h.queues hnone, hre.stats ▸ h.frags, hre.stats ▸ h.bytes⟩
  obtain ⟨hns, q, hget, hcounts⟩ := h.isVictim v hv
  exact ⟨hns, q, (get_of_assoc hre.queues _).trans hget, hcounts⟩

/-- The rooms that an installation guarantees. -/
structure Rooms (c : FragmentCache) (key : FragmentKey) (victim : Option Victim) : Prop where
  queues : victim = none → c.queues.len < c.queues.capacity
  source : c.freesSource victim = false → c.perSrcCounts.RoomFor key.source
  ns : c.freesNs victim = false → c.perNsCounts.RoomFor key.netNsId

lemma of_installRooms {env : IndexEnv} {capacity : IndexCapacity}
    {res : Except FragmentDropReason Unit}
    (h : c.installRooms key victim env capacity = (res, c')) :
    Rehoused c c' ∧ (res = .ok () → c'.Rooms key victim) := by
  unfold installRooms at h
  split at h
  · cases h
    exact ⟨⟨rfl, rfl, rfl, rfl, rfl, rfl⟩, nofun⟩
  rename_i queues hqueues
  obtain ⟨hassoc, hroom⟩ := of_installRoom hqueues
  dsimp only at h
  split at h
  · cases h
    exact ⟨⟨hassoc, rfl, rfl, rfl, rfl, rfl⟩, nofun⟩
  rename_i perSrc hperSrc
  obtain ⟨hassoc1, hroom1⟩ := of_installRoom hperSrc
  split at h
  · cases h
    exact ⟨⟨hassoc, hassoc1, rfl, rfl, rfl, rfl⟩, nofun⟩
  rename_i perNs hperNs
  obtain ⟨hassoc2, hroom2⟩ := of_installRoom hperNs
  cases h
  have hget1 := get_of_assoc hassoc1
  have hget2 := get_of_assoc hassoc2
  refine ⟨⟨hassoc, hassoc1, hassoc2, rfl, rfl, rfl⟩, fun _ => ⟨?_, ?_, ?_⟩⟩
  · rintro rfl
    exact hroom rfl
  · intro hfrees hnone
    refine hroom1 ?_
    simp only [freesSource, hget1] at hfrees
    simp only [hget1] at hnone
    simp only [needsSourceRoom, freesSource, hfrees,
      containsKey_eq_false_iff.mpr hnone, Bool.not_false, Bool.and_self]
  · intro hfrees hnone
    refine hroom2 ?_
    simp only [freesNs, hget2] at hfrees
    simp only [hget2] at hnone
    simp only [needsNsRoom, freesNs, hfrees,
      containsKey_eq_false_iff.mpr hnone, Bool.not_false, Bool.and_self]

/-- A settled cache that can take the new queue of a call. -/
structure ReadyFor (c : FragmentCache) (call : FragmentCall) : Prop where
  settled : c.Settled
  absent : c.queues.get call.key = none
  queues : c.queues.len < c.queues.capacity
  source : c.perSrcCounts.RoomFor call.key.source
  ns : c.perNsCounts.RoomFor call.key.netNsId
  within : ((cacheBudget (charges c.queues)).add ⟨1, 1, call.payload.length⟩).Le cacheLimit

/-- Without a victim the installation made all the room. -/
lemma Planned.ready_of_none (hplan : c.Planned call none) (h : c.Settled)
    (hrooms : c.Rooms call.key none) : c.ReadyFor call := by
  refine ⟨h, hplan.absent, hrooms.queues rfl, hrooms.source rfl, hrooms.ns rfl, ?_, ?_, ?_⟩
  · have hlen : (cacheBudget (charges c.queues)).queues = c.queues.len := by
      rw [cacheBudget_queues]
      exact length_map _
    show (cacheBudget (charges c.queues)).queues + 1 ≤ globalMaxQueues
    rw [hlen]
    exact hplan.queues rfl
  · rw [← h.books.total]
    exact hplan.frags
  · rw [← h.books.total]
    exact hplan.bytes

lemma releaseQueue_perSrcCounts (c : FragmentCache) (key : FragmentKey) (frags bytes : ℕ) :
    (c.releaseQueue key frags bytes).perSrcCounts = (c.releaseSource key.source).perSrcCounts := by
  simp [releaseQueue, perNsReleaseQueue, perNsReleaseFrags, perNsReleaseBytes]

lemma roomFor_releaseQueue {ns' : ℕ} (h : c.perNsCounts.RoomFor ns') (key : FragmentKey)
    (frags bytes : ℕ) : (c.releaseQueue key frags bytes).perNsCounts.RoomFor ns' := by
  have hns : (c.releaseSource key.source).perNsCounts.RoomFor ns' := by
    rw [(c.releaseSource_frame _).2.2.1]
    exact h
  unfold releaseQueue perNsReleaseBytes perNsReleaseFrags perNsReleaseQueue
  rw [(subtractQueue_frame ..).2.2.1]
  exact roomFor_perNsRelease (roomFor_perNsRelease (roomFor_perNsRelease hns _ _) _ _) _ _

/-- With a victim its eviction makes room where the installation did not. -/
lemma Planned.ready_of_evicted (hplan : c.Planned call (some v)) (h : c.Settled)
    (hrooms : c.Rooms call.key (some v)) :
    (({ c with queues := c.queues.remove v.key }.releaseQueue v.key v.frags v.bytes).count
      .timeoutDrops).ReadyFor call := by
  have hv := hplan.isVictim v rfl
  obtain ⟨q, hget, hfrags, hbytes, -, hcharged⟩ := h.charge_victim hv
  have hsettled := h.retire hget
  rw [← hfrags, ← hbytes] at hsettled
  set d : FragmentCache := { c with queues := c.queues.remove v.key }
  set c' := d.releaseQueue v.key v.frags v.bytes with hc'
  have hqueues : c'.queues = c.queues.remove v.key := releaseQueue_queues ..
  have htotal := hcharged.books.total
  rw [cacheBudget_cons] at htotal
  refine ⟨hsettled.count _, ?_, ?_, ?_, ?_, ?_⟩
  · rw [count_queues, hqueues]
    exact get_remove_eq_none fun _ => hplan.absent
  · rw [count_queues, hqueues]
    exact lt_capacity_of_remove hget
  · show RoomFor c'.perSrcCounts _
    rw [hc', releaseQueue_perSrcCounts]
    cases hfrees : c.freesSource (some v) with
    | true =>
      have hone : c.perSrcCounts.get v.key.source = some 1 := by simpa [freesSource] using hfrees
      exact fun _ => lt_capacity_of_releaseSource (c := d) hone
    | false =>
      exact roomFor_releaseSource (c := d) (hrooms.source hfrees) _
  · show RoomFor c'.perNsCounts _
    refine roomFor_releaseQueue (c := d) ?_ _ _ _
    -- the victim is of the same namespace, whose row is therefore there
    intro hnone
    have hrow := hcharged.books.rows.get_eq_none_iff.mp hnone
    rw [← hv.1, nsBudget_chargeFor] at hrow
    exact absurd (congrArg PerNsBudget.queues hrow) (Nat.succ_ne_zero _)
  · rw [count_queues, hqueues]
    refine ⟨?_, ?_, ?_⟩
    · have hwithin := hcharged.within.1
      rwa [cacheBudget_cons] at hwithin
    · have htotal' : c.stats.bufferedFragments =
          (cacheBudget (charges (c.queues.remove v.key))).frags + v.frags :=
        congrArg PerNsBudget.frags htotal
      have hlt : c.stats.bufferedFragments - v.frags < globalMaxFrags := hplan.frags
      show (cacheBudget (charges (c.queues.remove v.key))).frags + 1 ≤ globalMaxFrags
      omega
    · have htotal' : c.stats.bufferedBytes =
          (cacheBudget (charges (c.queues.remove v.key))).bytes + v.bytes :=
        congrArg PerNsBudget.bytes htotal
      have hle : c.stats.bufferedBytes - v.bytes + call.payload.length ≤ globalMaxFragBytes :=
        hplan.bytes
      show (cacheBudget (charges (c.queues.remove v.key))).bytes + call.payload.length ≤
        globalMaxFragBytes
      omega

lemma ReadyFor.publish (h : c.ReadyFor call) {candidate : FragmentQueue}
    (hfrags : candidate.receivedFrags = 1)
    (hbytes : candidate.receivedBytes = call.payload.length) :
    ∃ c', c.publish call candidate = .ok c' ∧ c'.Settled ∧
      c'.transactionSlots = c.transactionSlots := by
  obtain ⟨queues, hinsert, hassoc, -⟩ :=
    insertUniqueReserved_eq_some h.absent h.queues candidate
  obtain ⟨c', hc', hcharged, hsame⟩ := (Accounts.withQueues h.settled queues).chargeQueue call.key
    call.payload.length h.source h.ns h.within
  unfold FragmentCache.publish
  rw [hinsert]
  refine ⟨c', hc', ?_, hsame.transactionSlots⟩
  unfold Settled
  rw [hsame.queues]
  refine hcharged.perm ?_
  have hperm := (charges_insert h.absent hassoc).symm
  unfold chargeOf at hperm
  rw [hfrags, hbytes] at hperm
  exact hperm

lemma Settled.commitSection (h : c.Settled) (hplan : c.Planned call victim)
    {candidate : FragmentQueue} (hfrags : candidate.receivedFrags = 1)
    (hbytes : candidate.receivedBytes = call.payload.length) (env : IndexEnv)
    (capacity : IndexCapacity) : c.Leaves (c.commitSection call candidate victim env capacity) := by
  unfold FragmentCache.commitSection
  split
  · exact h.leaves_dropped _ _
  split
  · rename_i reason c1 hinstall
    obtain ⟨hre, -⟩ := of_installRooms hinstall
    exact ((h.rehoused hre).leaves_dropped _ _).congr hre.transactionSlots
  rename_i c1 hinstall
  obtain ⟨hre, hrooms⟩ := of_installRooms hinstall
  have h1 := h.rehoused hre
  have hplan1 := hplan.rehoused hre
  have hevict : ∃ c2, c1.evict victim = .ok c2 ∧ c2.ReadyFor call ∧
      c2.transactionSlots = c1.transactionSlots := by
    cases victim with
    | none => exact ⟨c1, rfl, hplan1.ready_of_none h1 (hrooms rfl), rfl⟩
    | some v =>
      obtain ⟨-, q, hget, -⟩ := hplan1.isVictim v rfl
      refine ⟨_, ?_, hplan1.ready_of_evicted h1 (hrooms rfl), ?_⟩
      · unfold evict
        dsimp only
        rw [containsKey_iff.mpr ⟨q, hget⟩, if_pos rfl]
      · rw [count_transactionSlots, releaseQueue_transactionSlots]
  obtain ⟨c2, hc2, hready, hslots2⟩ := hevict
  obtain ⟨c3, hc3, hsettled, hslots3⟩ := hready.publish hfrags hbytes
  simp only [hc2, hc3, ok_bind, pure_eq_ok]
  exact ⟨_, _, rfl, hsettled, (hslots3.trans hslots2).trans hre.transactionSlots⟩

/-! ## Whole calls -/

/-- The candidate queue of a first fragment holds that fragment. -/
lemma received_of_buildCandidate {env : CallEnv} (h : buildCandidate call env = .ready q) :
    q.receivedFrags = 1 ∧ q.receivedBytes = call.payload.length := by
  unfold buildCandidate at h
  split at h
  · cases h
  rename_i q0 hnew
  obtain ⟨hfrags0, hbytes0⟩ := FragmentQueue.received_of_new hnew
  split at h
  · cases h
  · cases h
  rename_i q1 hinsert
  split at h
  · cases h
  rename_i owner howner
  obtain rfl := Candidate.ready.inj h
  have hsame : owner = q1 := by
    unfold tryNewOwner at howner
    split at howner
    · cases howner
    · exact (Except.ok.inj howner).symm
  rcases FragmentQueue.received_of_insert q0 _ _ _ _ _ hinsert with
    ⟨b, -, hfrags, hbytes⟩ | ⟨reason, herror, -⟩
  · rw [hsame, hfrags, hbytes, hfrags0, hbytes0]
    exact ⟨rfl, zero_add _⟩
  · cases herror

lemma Settled.processNewFragment (h : c.Settled) (call : FragmentCall) (env : CallEnv) :
    c.Leaves (c.processNewFragment call env) := by
  unfold FragmentCache.processNewFragment
  split
  · exact h.leaves_dropped _ _
  · exact ⟨_, _, rfl, h.count _, rfl⟩
  rename_i candidate hcandidate
  obtain ⟨hfrags, hbytes⟩ := received_of_buildCandidate hcandidate
  obtain ⟨hsame, hplanned⟩ := h.planSection call
  split
  · rename_i reason c1 hplan
    obtain rfl : c1 = c := by rw [← hsame, hplan]
    exact h.leaves_dropped _ _
  rename_i plan c1 hplan
  obtain rfl : c1 = c := by rw [← hsame, hplan]
  split
  · exact h.leaves_dropped _ _
  rename_i capacity _
  obtain ⟨r, c2, hc2, hsettled, hslots⟩ :=
    h.commitSection (hplanned plan (by rw [hplan])) hfrags hbytes env.index capacity
  simp only [hc2, ok_bind, pure_eq_ok]
  exact ⟨_, _, rfl, hsettled, hslots⟩

lemma Settled.processExistingFragment (h : c.Settled) (call : FragmentCall) (env : CallEnv) :
    c.Leaves (c.processExistingFragment call env) := by
  unfold FragmentCache.processExistingFragment
  obtain ⟨r, c1, hc1, hafter, hslots⟩ := h.detachSection call
  simp only [hc1, ok_bind, pure_eq_ok]
  cases r with
  | absent =>
    obtain rfl : c1 = c := hafter
    exact h.processNewFragment call env
  | dropped => exact ⟨_, _, rfl, hafter, hslots⟩
  | detached owner =>
    obtain ⟨hget, hqueues, hcharged⟩ := hafter
    have hnone : c1.queues.get call.key = none := by
      rw [hqueues, get_remove_self]
    have hroom : c1.queues.len < c1.queues.capacity := by
      rw [hqueues]
      exact lt_capacity_of_remove hget
    dsimp only
    cases hinsert : owner.insert env.insert call.offset call.moreFragments call.payload
        call.nowMs with
    | mk =>
      rcases FragmentQueue.received_of_insert owner _ _ _ _ _ hinsert with
        ⟨b, rfl, hfrags, hbytes⟩ | ⟨reason, rfl, hfrags, hbytes⟩
      · rw [← hfrags, ← hbytes] at hcharged
        cases b with
        | true =>
          refine ⟨_, _, rfl, (Accounts.completeSection hcharged).count _, ?_⟩
          rw [finishPacket, count_transactionSlots, FragmentCache.completeSection,
            releaseQueue_transactionSlots, hslots]
        | false =>
          obtain ⟨c2, hc2, hsettled, hslots2⟩ := Accounts.reattachSection hcharged hnone hroom
          simp only [hc2]
          exact ⟨_, _, rfl, hsettled, hslots2.trans hslots⟩
      · rw [← hfrags, ← hbytes] at hcharged
        obtain ⟨c2, hc2, hsettled, hslots2⟩ := Accounts.failSection hcharged hnone hroom reason
        simp only [hc2]
        exact ⟨_, _, rfl, hsettled, hslots2.trans hslots⟩

lemma Settled.runCall (h : c.Settled) (call : FragmentCall) (env : CallEnv) :
    c.Leaves (c.runCall call env) := by
  obtain ⟨h1, hslots1⟩ := h.expireSection call.key call.nowMs
  unfold FragmentCache.runCall
  cases hexpire : c.expireSection call.key call.nowMs with
  | mk expired =>
    rw [hexpire] at h1 hslots1
    cases expired with
    | true => exact ⟨_, _, rfl, h1, hslots1⟩
    | false =>
      dsimp only
      split
      · exact (Settled.processExistingFragment h1 call env).congr hslots1
      · exact (Settled.processNewFragment h1 call env).congr hslots1

/-- A whole call keeps the cache settled and gives its slot back. -/
lemma Settled.processFragment (h : c.Settled) (netNsId : ℕ) (header : Ipv4Header)
    (payload : List UInt8) (nowMs : ℕ) (env : CallEnv) :
    c.Leaves (c.processFragment netNsId header payload nowMs env) := by
  unfold FragmentCache.processFragment tryTransaction
  have h0 := h.count .fragmentsReceived
  by_cases hheld : c.transactionSlots (transactionSlot netNsId) = true
  · simp only [count_transactionSlots, hheld, if_true]
    exact ⟨_, _, rfl, h0.count _, rfl⟩
  have hfree : c.transactionSlots (transactionSlot netNsId) = false := not_eq_true _ ▸ hheld
  simp only [count_transactionSlots, hfree, false_eq_true, if_false]
  obtain ⟨r, c2, hc2, h2, hslots2⟩ := (h0.setSlot (transactionSlot netNsId) true).runCall
    (callOf netNsId header payload nowMs) env
  simp only [hc2, ok_bind, pure_eq_ok]
  refine ⟨_, _, rfl, Settled.setSlot h2 _ _, ?_⟩
  show update c2.transactionSlots _ false = _
  rw [hslots2]
  show update (update c.transactionSlots _ true) _ false = _
  rw [update_idem, ← hfree, update_eq_self]

lemma Settled.cleanupBody {nowMs : ℕ} {s s' : ℕ × FragmentCache} (h : s.2.Settled)
    (hbody : FragmentCache.cleanupBody nowMs s = .next s') :
    s'.2.Settled ∧ s'.2.queues.len < s.2.queues.len := by
  unfold FragmentCache.cleanupBody at hbody
  split at hbody
  · cases hbody
  rename_i key owner hfind
  obtain rfl := Iter.next.inj hbody
  have hget : s.2.queues.get key = some owner :=
    mem_entries.mp (mem_of_find?_eq_some hfind)
  refine ⟨(h.retire hget).count _, ?_⟩
  rw [count_queues, releaseQueue_queues]
  exact Nat.lt_of_succ_le (length_erase hget).le

/-- The sweep ends and leaves the cache settled and its slots as they were. -/
lemma Settled.cleanupExpired (h : c.Settled) (nowMs : ℕ) :
    ∃ r, c.cleanupExpired nowMs = some r ∧ r.2.Settled ∧
      r.2.transactionSlots = c.transactionSlots := by
  unfold FragmentCache.cleanupExpired
  split
  · exact ⟨_, rfl, h, rfl⟩
  rename_i hfree
  have hheld : { c with transactionSlots := fun _ => true }.Settled :=
    ⟨{ h.books with }, h.within⟩
  obtain ⟨n, r, hn, hruns, hsettled⟩ := Loop.Runs.of_measure (FragmentCache.cleanupBody nowMs)
    (fun s => s.2.Settled) (fun r => r.2.Settled) (fun s => s.2.queues.len)
    (fun s s' hs hbody => hs.cleanupBody hbody)
    (fun s r hs hbody => by
      unfold FragmentCache.cleanupBody at hbody
      split at hbody
      · exact Iter.done.inj hbody ▸ hs
      · exact absurd hbody nofun)
    (s := (0, { c with transactionSlots := fun _ => true })) hheld
  dsimp only
  rw [hruns.run_eq_some hn]
  refine ⟨_, rfl, ?_, ?_⟩
  · exact ⟨{ hsettled.books with }, hsettled.within⟩
  funext slot
  exact (not_eq_true _ ▸ fun hslot => hfree ⟨slot, hslot⟩ : c.transactionSlots slot = false).symm

/-! ## Runs of calls -/

/-- A call of the cache that nothing interleaves with. -/
inductive CacheCall
  | processFragment (netNsId : ℕ) (header : Ipv4Header) (payload : List UInt8) (nowMs : ℕ)
      (env : CallEnv)
  | cleanupExpired (nowMs : ℕ)

/-- How a call can fail to return. -/
inductive CallFailure
  | fault (fault : FragmentFault)
  | sweepUnbounded

/-- Run a call. -/
def exec (c : FragmentCache) : CacheCall → Except CallFailure FragmentCache
  | .processFragment netNsId header payload nowMs env =>
    ((c.processFragment netNsId header payload nowMs env).map Prod.snd).mapError .fault
  | .cleanupExpired nowMs =>
    (c.cleanupExpired nowMs).elim (.error .sweepUnbounded) fun r => .ok r.2

/-- Run a sequence of calls. -/
def runCalls (c : FragmentCache) (calls : List CacheCall) : Except CallFailure FragmentCache :=
  calls.foldlM exec c

lemma Settled.exec (h : c.Settled) (call : CacheCall) :
    ∃ c', c.exec call = .ok c' ∧ c'.Settled ∧ c'.transactionSlots = c.transactionSlots := by
  cases call with
  | processFragment netNsId header payload nowMs env =>
    obtain ⟨r, c', hc', hsettled, hslots⟩ := h.processFragment netNsId header payload nowMs env
    refine ⟨c', ?_, hsettled, hslots⟩
    rw [FragmentCache.exec, hc']
    rfl
  | cleanupExpired nowMs =>
    obtain ⟨r, hr, hsettled, hslots⟩ := h.cleanupExpired nowMs
    refine ⟨r.2, ?_, hsettled, hslots⟩
    rw [FragmentCache.exec, hr]
    rfl

/-- Any sequence of calls returns, with a settled cache and no slot held. -/
lemma settled_of_runCalls (calls : List CacheCall) :
    ∃ c, runCalls .new calls = .ok c ∧ c.Settled ∧ ∀ slot, c.transactionSlots slot = false := by
  refine foldlM_ok_of_invariant
    (fun c : FragmentCache => c.Settled ∧ ∀ slot, c.transactionSlots slot = false)
    (fun c call _ hc => ?_)
    ⟨Accounts.initial, fun _ => rfl⟩
  obtain ⟨c', hexec, hsettled, hslots⟩ := Settled.exec hc.1 call
  exact ⟨c', hexec, hsettled, fun slot => by rw [hslots, hc.2 slot]⟩

/-- The counters of the cache, the namespace rows and the source rows agree with the live queues. -/
structure Balanced (c : FragmentCache) : Prop where
  activeQueues : c.stats.activeQueues = c.queues.len
  nsQueues : (c.perNsCounts.iter.map fun e => e.2.queues).sum = c.queues.len
  sourceQueues : (c.perSrcCounts.iter.map fun e => e.2).sum = c.queues.len
  bufferedFragments :
    c.stats.bufferedFragments = (c.queues.iter.map fun e => e.2.receivedFrags).sum
  nsFrags : (c.perNsCounts.iter.map fun e => e.2.frags).sum =
    (c.queues.iter.map fun e => e.2.receivedFrags).sum
  bufferedBytes : c.stats.bufferedBytes = (c.queues.iter.map fun e => e.2.receivedBytes).sum
  nsBytes : (c.perNsCounts.iter.map fun e => e.2.bytes).sum =
    (c.queues.iter.map fun e => e.2.receivedBytes).sum
  /-- A namespace row exists for exactly the namespaces with a live queue. -/
  nsRow : ∀ ns, c.perNsCounts.containsKey ns = true ↔ ∃ e ∈ c.queues.iter, e.1.netNsId = ns
  /-- A source row exists for exactly the sources with a live queue. -/
  sourceRow : ∀ source,
    c.perSrcCounts.containsKey source = true ↔ ∃ e ∈ c.queues.iter, e.1.source = source

lemma Settled.perNs_sum (h : c.Settled) (F : PerNsBudget → ℕ) (f : Charge → ℕ)
    (hF : ∀ ns, F (nsBudget (charges c.queues) ns) =
      (((charges c.queues).filter fun ch => ch.ns = ns).map f).sum) :
    (c.perNsCounts.iter.map fun e => F e.2).sum = ((charges c.queues).map f).sum := by
  refine sum_entries_of_fibers c.perNsCounts.assoc F Charge.ns f _ ?_ ?_
  · intro ns row hrow
    have hget : c.perNsCounts.get ns = some row := hrow
    rw [h.books.rows ns] at hget
    split_ifs at hget
    rw [← Option.some.inj hget]
    exact hF ns
  intro ch hch hnone
  have hzero := h.books.rows.get_eq_none_iff.mp hnone
  have hne := (budgetWhere_queues_ne_zero_iff (p := fun x => x.ns = ch.ns)).mpr ⟨ch, hch, rfl⟩
  exact hne (congrArg PerNsBudget.queues hzero)

lemma Settled.balanced (h : c.Settled) : c.Balanced := by
  have hlen : ((charges c.queues).map fun _ => 1).sum = c.queues.len := by
    simp [charges, FallibleOrderedMap.len, FallibleOrderedMap.iter, comp_def]
  have hfrags : ((charges c.queues).map Charge.frags).sum =
      (c.queues.iter.map fun e => e.2.receivedFrags).sum := by
    rw [charges, map_map]
    rfl
  have hbytes : ((charges c.queues).map Charge.bytes).sum =
      (c.queues.iter.map fun e => e.2.receivedBytes).sum := by
    rw [charges, map_map]
    rfl
  have htotal : c.cacheTotal = ⟨((charges c.queues).map fun _ => 1).sum,
      ((charges c.queues).map Charge.frags).sum, ((charges c.queues).map Charge.bytes).sum⟩ := by
    rw [h.books.total]
    simp [cacheBudget, budgetWhere, Charge.budget]
  refine ⟨?_, ?_, ?_, ?_, ?_, ?_, ?_, ?_, ?_⟩
  · exact (congrArg PerNsBudget.queues htotal).trans hlen
  · exact (h.perNs_sum PerNsBudget.queues (fun _ => 1) fun ns => rfl).trans hlen
  · refine (sum_entries_of_fibers c.perSrcCounts.assoc id Charge.source (fun _ => 1)
      (charges c.queues) ?_ ?_).trans hlen
    · intro source n hn
      have hget : c.perSrcCounts.get source = some n := hn
      rw [h.books.sources source] at hget
      split_ifs at hget
      exact (Option.some.inj hget).symm
    · intro ch hch hnone
      have hzero := h.books.sources.get_eq_none_iff.mp hnone
      exact (budgetWhere_queues_ne_zero_iff (p := fun x => x.source = ch.source)).mpr
        ⟨ch, hch, rfl⟩ hzero
  · exact (congrArg PerNsBudget.frags htotal).trans hfrags
  · exact (h.perNs_sum PerNsBudget.frags Charge.frags fun ns => rfl).trans hfrags
  · exact (congrArg PerNsBudget.bytes htotal).trans hbytes
  · exact (h.perNs_sum PerNsBudget.bytes Charge.bytes fun ns => rfl).trans hbytes
  · intro ns
    have hcontains : c.perNsCounts.containsKey ns = true ↔
        (nsBudget (charges c.queues) ns).queues ≠ 0 := by
      rw [← not_eq_false, Ne, containsKey_eq_false_iff, h.books.rows.get_eq_none_iff]
      exact not_congr ⟨congrArg PerNsBudget.queues, budgetWhere_eq_zero⟩
    rw [hcontains, nsBudget, budgetWhere_queues_ne_zero_iff]
    simp [charges, chargeOf, chargeFor]
  · intro source
    have hcontains : c.perSrcCounts.containsKey source = true ↔
        sourceCount (charges c.queues) source ≠ 0 := by
      rw [← not_eq_false, Ne, containsKey_eq_false_iff, h.books.sources.get_eq_none_iff]
    rw [hcontains, sourceCount, budgetWhere_queues_ne_zero_iff]
    simp [charges, chargeOf, chargeFor]

/-- After every sequence of calls, each of which returns, the counters and rows are those of the
live queues and no subtraction has clipped. -/
theorem balanced_of_runCalls (calls : List CacheCall) :
    ∃ c, runCalls .new calls = .ok c ∧ c.Balanced ∧ c.clipped = false ∧
      ∀ slot, c.transactionSlots slot = false := by
  obtain ⟨c, hrun, hsettled, hslots⟩ := settled_of_runCalls calls
  exact ⟨c, hrun, hsettled.balanced, hsettled.books.unclipped, hslots⟩

end FragmentCache

end Nilix.Net
