import Nilix.Net.FragmentCache

/-!
# The books of the fragment cache

What the budgets of the fragment cache are for: every live queue is charged to its namespace, to its
source and to the cache as a whole.  `Accounts c L` says that the rows and counters of `c` are the
totals over the list `L` of charges, and the lemmas here say how each primitive of the cache changes
that list.  The queues themselves play no part yet.
-/

namespace Nilix.Net

open FallibleOrderedMap PerNsBudget Function FragmentCache

/-! ## Budgets -/

namespace PerNsBudget

variable (e n : PerNsBudget)

/-- The sum of two budgets. -/
def add : PerNsBudget :=
  ⟨e.queues + n.queues, e.frags + n.frags, e.bytes + n.bytes⟩

/-- Comparison in every counter. -/
def Le : Prop := e.queues ≤ n.queues ∧ e.frags ≤ n.frags ∧ e.bytes ≤ n.bytes

instance (e n : PerNsBudget) : Decidable (e.Le n) := inferInstanceAs (Decidable (_ ∧ _ ∧ _))

lemma clips_eq_false_iff {e n : PerNsBudget} : e.clips n = false ↔ n.Le e := by
  simp [clips, Le, and_assoc]

lemma le_add_left : n.Le (e.add n) :=
  ⟨Nat.le_add_left .., Nat.le_add_left .., Nat.le_add_left ..⟩

lemma Le.trans {e n k : PerNsBudget} (h : e.Le n) (h' : n.Le k) : e.Le k :=
  ⟨h.1.trans h'.1, h.2.1.trans h'.2.1, h.2.2.trans h'.2.2⟩

lemma add_assoc (e n k : PerNsBudget) : (e.add n).add k = e.add (n.add k) := by
  ext <;> exact Nat.add_assoc ..

lemma add_sub_cancel : (e.add n).sub n = e := by
  ext <;> exact Nat.add_sub_cancel ..

/-- `checkedAdd` succeeds on small budgets. -/
lemma checkedAdd_eq_some {e n : PerNsBudget} (hqueues : e.queues + n.queues ≤ usizeMax)
    (hfrags : e.frags + n.frags ≤ u32Max) (hbytes : e.bytes + n.bytes ≤ usizeMax) :
    e.checkedAdd n = some (e.add n) := by
  unfold checkedAdd
  rw [if_pos ⟨hqueues, hfrags, hbytes⟩]
  rfl

end PerNsBudget

/-- What one queue is charged for. -/
structure Charge where
  ns : ℕ
  source : Source
  frags : ℕ
  bytes : ℕ

/-- A charge as a budget of one queue. -/
def Charge.budget (ch : Charge) : PerNsBudget := ⟨1, ch.frags, ch.bytes⟩

/-- The charge of a queue with a key, some fragments and some bytes. -/
def chargeFor (key : FragmentKey) (frags bytes : ℕ) : Charge :=
  ⟨key.netNsId, key.source, frags, bytes⟩

/-- The charge of a live queue. -/
def chargeOf (e : FragmentKey × FragmentQueue) : Charge :=
  chargeFor e.1 e.2.receivedFrags e.2.receivedBytes

/-- The total of the charges that satisfy a condition. -/
def budgetWhere (p : Charge → Prop) [DecidablePred p] (L : List Charge) : PerNsBudget :=
  ⟨((L.filter p).map fun ch => ch.budget.queues).sum,
    ((L.filter p).map fun ch => ch.budget.frags).sum,
    ((L.filter p).map fun ch => ch.budget.bytes).sum⟩

/-- The total of a namespace. -/
def nsBudget (L : List Charge) (ns : ℕ) : PerNsBudget := budgetWhere (fun ch => ch.ns = ns) L

/-- The number of queues of a source. -/
def sourceCount (L : List Charge) (source : Source) : ℕ :=
  (budgetWhere (fun ch => ch.source = source) L).queues

/-- The total of all charges. -/
def cacheBudget (L : List Charge) : PerNsBudget := budgetWhere (fun _ => True) L

section Totals

variable {p : Charge → Prop} [DecidablePred p] {ch : Charge} {L L' : List Charge}

lemma budgetWhere_cons_of_pos (h : p ch) :
    budgetWhere p (ch :: L) = (budgetWhere p L).add ch.budget := by
  simp [budgetWhere, add, h, add_comm]

lemma budgetWhere_cons_of_neg (h : ¬p ch) : budgetWhere p (ch :: L) = budgetWhere p L := by
  simp [budgetWhere, h]

lemma budgetWhere_perm (h : L.Perm L') : budgetWhere p L = budgetWhere p L' := by
  unfold budgetWhere
  rw [((h.filter p).map _).sum_eq, ((h.filter p).map _).sum_eq, ((h.filter p).map _).sum_eq]

lemma budgetWhere_le (p : Charge → Prop) [DecidablePred p] (L : List Charge) :
    (budgetWhere p L).Le (cacheBudget L) := by
  induction L with
  | nil => exact ⟨le_rfl, le_rfl, le_rfl⟩
  | cons ch L ih =>
    have hall : cacheBudget (ch :: L) = (cacheBudget L).add ch.budget :=
      budgetWhere_cons_of_pos trivial
    obtain ⟨hqueues, hfrags, hbytes⟩ := ih
    by_cases h : p ch
    · rw [budgetWhere_cons_of_pos h, hall]
      exact ⟨Nat.add_le_add_right hqueues _, Nat.add_le_add_right hfrags _,
        Nat.add_le_add_right hbytes _⟩
    rw [budgetWhere_cons_of_neg h, hall]
    exact ⟨Nat.le_add_right_of_le hqueues, Nat.le_add_right_of_le hfrags,
      Nat.le_add_right_of_le hbytes⟩

lemma budgetWhere_eq_zero (h : (budgetWhere p L).queues = 0) : budgetWhere p L = .zero := by
  induction L with
  | nil => rfl
  | cons ch L ih =>
    by_cases hp : p ch
    · rw [budgetWhere_cons_of_pos hp] at h
      exact absurd h (Nat.succ_ne_zero _)
    rw [budgetWhere_cons_of_neg hp] at h ⊢
    exact ih h

/-- A total is nonzero exactly if there is a charge in it. -/
lemma budgetWhere_queues_ne_zero_iff : (budgetWhere p L).queues ≠ 0 ↔ ∃ ch ∈ L, p ch := by
  induction L with
  | nil => simp [budgetWhere]
  | cons ch L ih =>
    by_cases hp : p ch
    · rw [budgetWhere_cons_of_pos hp]
      exact iff_of_true (Nat.succ_ne_zero _) ⟨ch, List.mem_cons_self, hp⟩
    rw [budgetWhere_cons_of_neg hp, ih]
    simp [hp]

lemma nsBudget_cons (ch : Charge) (L : List Charge) :
    nsBudget (ch :: L) = update (nsBudget L) ch.ns ((nsBudget L ch.ns).add ch.budget) := by
  funext ns
  by_cases h : ns = ch.ns
  · subst h
    rw [update_self]
    exact budgetWhere_cons_of_pos rfl
  rw [update_of_ne h]
  exact budgetWhere_cons_of_neg fun heq => h heq.symm

lemma sourceCount_cons (ch : Charge) (L : List Charge) : sourceCount (ch :: L) =
      update (sourceCount L) ch.source (sourceCount L ch.source + 1) := by
  funext source
  by_cases h : source = ch.source
  · subst h
    rw [update_self]
    have hcons : budgetWhere (fun x => x.source = ch.source) (ch :: L) =
        (budgetWhere (fun x => x.source = ch.source) L).add ch.budget := budgetWhere_cons_of_pos rfl
    exact congrArg PerNsBudget.queues hcons
  rw [update_of_ne h]
  exact congrArg PerNsBudget.queues (budgetWhere_cons_of_neg fun heq => h heq.symm)

section

variable (key : FragmentKey)

/-- Without the queue its namespace total is that of the others. -/
lemma update_nsBudget_tail (frags bytes : ℕ) (L : List Charge) :
    update (nsBudget (chargeFor key frags bytes :: L)) key.netNsId
      (nsBudget L key.netNsId) = nsBudget L := by
  rw [nsBudget_cons]
  exact (update_idem _ _ _).trans (update_eq_self _ _)

/-- Without the queue its source count is that of the others. -/
lemma update_sourceCount_tail (frags bytes : ℕ) (L : List Charge) :
    update (sourceCount (chargeFor key frags bytes :: L)) key.source
      (sourceCount L key.source) = sourceCount L := by
  rw [sourceCount_cons]
  exact (update_idem _ _ _).trans (update_eq_self _ _)

lemma nsBudget_chargeFor (frags bytes : ℕ) (L : List Charge) :
    nsBudget (chargeFor key frags bytes :: L) key.netNsId =
      (nsBudget L key.netNsId).add ⟨1, frags, bytes⟩ :=
  budgetWhere_cons_of_pos rfl

lemma sourceCount_chargeFor (frags bytes frags' bytes' : ℕ) (L : List Charge) :
    sourceCount (chargeFor key frags bytes :: L) = sourceCount (chargeFor key frags' bytes' :: L) := by
  rw [sourceCount_cons, sourceCount_cons]
  rfl

end

lemma cacheBudget_cons (ch : Charge) (L : List Charge) :
    cacheBudget (ch :: L) = (cacheBudget L).add ch.budget :=
  budgetWhere_cons_of_pos trivial

end Totals

namespace FragmentCache

/-! ## What the primitives leave alone -/

section Frame

variable (c : FragmentCache) (key : FragmentKey) (source : Source) (ns frags bytes : ℕ)
  (n : PerNsBudget) (reason : FragmentDropReason)

lemma note_false : c.note false = c := by
  simp [note]

@[simp] lemma perNsRelease_frame : (c.perNsRelease ns n).queues = c.queues ∧
    (c.perNsRelease ns n).transactionSlots = c.transactionSlots ∧
    (c.perNsRelease ns n).perSrcCounts = c.perSrcCounts ∧
    (c.perNsRelease ns n).stats = c.stats := by
  unfold perNsRelease
  split <;> exact ⟨rfl, rfl, rfl, rfl⟩

@[simp] lemma releaseSource_frame : (c.releaseSource source).queues = c.queues ∧
    (c.releaseSource source).transactionSlots = c.transactionSlots ∧
    (c.releaseSource source).perNsCounts = c.perNsCounts ∧
    (c.releaseSource source).stats = c.stats := by
  unfold releaseSource
  split <;> exact ⟨rfl, rfl, rfl, rfl⟩

@[simp] lemma subtractQueue_frame : (c.subtractQueue frags bytes).queues = c.queues ∧
    (c.subtractQueue frags bytes).transactionSlots = c.transactionSlots ∧
    (c.subtractQueue frags bytes).perNsCounts = c.perNsCounts ∧
    (c.subtractQueue frags bytes).perSrcCounts = c.perSrcCounts := by
  unfold subtractQueue note
  exact ⟨rfl, rfl, rfl, rfl⟩

@[simp] lemma releaseQueue_queues : (c.releaseQueue key frags bytes).queues = c.queues := by
  simp [releaseQueue, perNsReleaseQueue, perNsReleaseFrags, perNsReleaseBytes]

@[simp] lemma releaseQueue_transactionSlots :
    (c.releaseQueue key frags bytes).transactionSlots = c.transactionSlots := by
  simp [releaseQueue, perNsReleaseQueue, perNsReleaseFrags, perNsReleaseBytes]

@[simp] lemma count_queues (e : StatEvent) : (c.count e).queues = c.queues := rfl

@[simp] lemma count_transactionSlots (e : StatEvent) :
    (c.count e).transactionSlots = c.transactionSlots := rfl

/-- A drop is counted or not counted, and nothing else. -/
lemma recordDropReason_frame : ∃ events,
    c.recordDropReason reason = { c with stats := { c.stats with events := events } } := by
  unfold recordDropReason
  split
  · exact ⟨_, rfl⟩
  · exact ⟨c.stats.events, rfl⟩

@[simp] lemma recordDropReason_queues : (c.recordDropReason reason).queues = c.queues := by
  obtain ⟨events, h⟩ := c.recordDropReason_frame reason
  rw [h]

@[simp] lemma recordDropReason_transactionSlots :
    (c.recordDropReason reason).transactionSlots = c.transactionSlots := by
  obtain ⟨events, h⟩ := c.recordDropReason_frame reason
  rw [h]

end Frame

/-- A step leaves the queues and the transaction slots alone. -/
structure SameQueues (c c' : FragmentCache) : Prop where
  queues : c'.queues = c.queues
  transactionSlots : c'.transactionSlots = c.transactionSlots

lemma SameQueues.trans {c c' c'' : FragmentCache} (h : SameQueues c c') (h' : SameQueues c' c'') :
    SameQueues c c'' :=
  ⟨h'.queues.trans h.queues, h'.transactionSlots.trans h.transactionSlots⟩

lemma sameQueues_perNsRelease (c : FragmentCache) (ns frags bytes : ℕ) :
    SameQueues c ((c.perNsReleaseFrags ns frags).perNsReleaseBytes ns bytes) := by
  constructor <;> simp [perNsReleaseFrags, perNsReleaseBytes]

/-! ## Rows under the primitives -/

variable {c : FragmentCache} {R : ℕ → PerNsBudget} {S : Source → ℕ} {ns : ℕ} {source : Source}

lemma roomFor_perNsRelease {ns' : ℕ} (h : c.perNsCounts.RoomFor ns') (ns : ℕ) (n : PerNsBudget) :
    (c.perNsRelease ns n).perNsCounts.RoomFor ns' := by
  have hprune : ∀ m : AdmittedMap ℕ PerNsBudget, m.RoomFor ns' →
      (perNsPruneIfZero m ns).RoomFor ns' := by
    intro m hm
    unfold perNsPruneIfZero
    split
    · split
      · exact hm.remove ns
      · exact hm
    · exact hm
  unfold perNsRelease
  split
  · exact hprune _ (h.modify _)
  · exact hprune _ h

lemma roomFor_releaseSource {source' : Source} (h : c.perSrcCounts.RoomFor source')
    (source : Source) : (c.releaseSource source).perSrcCounts.RoomFor source' := by
  unfold releaseSource
  split
  · exact h
  dsimp only [note]
  split
  · exact (h.modify _).remove source
  · exact h.modify _

/-- Releasing the last queue of a source frees its row. -/
lemma lt_capacity_of_releaseSource (h : c.perSrcCounts.get source = some 1) :
    (c.releaseSource source).perSrcCounts.len < (c.releaseSource source).perSrcCounts.capacity := by
  unfold releaseSource
  rw [h]
  refine lt_capacity_of_remove (k := source) (v := 0) ?_
  rw [get_modify_self, h]
  rfl

variable {n : PerNsBudget}

lemma represents_perNsRelease (h : c.perNsCounts.Represents .zero R) (hle : n.Le (R ns)) :
    (c.perNsRelease ns n).perNsCounts.Represents .zero (update R ns ((R ns).sub n)) ∧
      (c.perNsRelease ns n).clipped = c.clipped := by
  have hclips : (R ns).clips n = false := clips_eq_false_iff.mpr hle
  by_cases hrow : R ns = .zero
  · have hget : c.perNsCounts.get ns = none := h.get_eq_none_iff.mpr hrow
    have hsame : c.perNsRelease ns n = c := by
      simp [perNsRelease, perNsPruneIfZero, hget]
    have hzero : (R ns).sub n = R ns := by
      rw [hrow]
      simp [sub, PerNsBudget.zero]
    rw [hsame, hzero, update_eq_self]
    exact ⟨h, rfl⟩
  have hget : c.perNsCounts.get ns = some (R ns) := h.get_eq_some hrow
  have hmodified : (c.perNsCounts.modify ns fun _ => (R ns).sub n).get ns =
      some ((R ns).sub n) := by
    rw [get_modify_self, hget]
    rfl
  have hrelease : c.perNsRelease ns n = { c with
        perNsCounts := perNsPruneIfZero (c.perNsCounts.modify ns fun _ => (R ns).sub n) ns } := by
    simp only [perNsRelease, hget, hclips, note_false]
  rw [hrelease]
  refine ⟨?_, rfl⟩
  unfold perNsPruneIfZero
  rw [hmodified]
  by_cases hzero : (R ns).sub n = .zero
  · have hparts : ((R ns).sub n).queues = 0 ∧ ((R ns).sub n).frags = 0 ∧
        ((R ns).sub n).bytes = 0 := by
      rw [hzero]
      exact ⟨rfl, rfl, rfl⟩
    simp only [hparts, and_self, if_true]
    rw [hzero]
    exact h.prune ns _
  have hparts : ¬(((R ns).sub n).queues = 0 ∧ ((R ns).sub n).frags = 0 ∧
      ((R ns).sub n).bytes = 0) := by
    rintro ⟨hqueues, hfrags, hbytes⟩
    exact hzero (PerNsBudget.mk.injEq .. ▸ ⟨hqueues, hfrags, hbytes⟩)
  simp only [hparts, if_false]
  exact h.modify hrow hzero

lemma represents_releaseSource (h : c.perSrcCounts.Represents 0 S) (hpos : 0 < S source) :
    (c.releaseSource source).perSrcCounts.Represents 0 (update S source (S source - 1)) ∧
      (c.releaseSource source).clipped = c.clipped := by
  have hget : c.perSrcCounts.get source = some (S source) := h.get_eq_some hpos.ne'
  have hclips : decide (S source < 1) = false := decide_eq_false (by omega)
  unfold releaseSource
  rw [hget]
  dsimp only
  rw [hclips, note_false]
  refine ⟨?_, rfl⟩
  by_cases hzero : S source - 1 = 0
  · simp only [hzero, if_true]
    exact h.prune source _
  simp only [hzero, if_false]
  exact h.modify hpos.ne' hzero

/-! ## Books -/

/-- The limits of the whole cache. -/
def cacheLimit : PerNsBudget := ⟨globalMaxQueues, globalMaxFrags, globalMaxFragBytes⟩

/-- The three counters of the whole cache. -/
def cacheTotal (c : FragmentCache) : PerNsBudget :=
  ⟨c.stats.activeQueues, c.stats.bufferedFragments, c.stats.bufferedBytes⟩

/-- The rows and counters of a cache hold given values, and no subtraction has clipped. -/
structure Books (c : FragmentCache) (R : ℕ → PerNsBudget) (S : Source → ℕ) (B : PerNsBudget) :
    Prop where
  rows : c.perNsCounts.Represents .zero R
  sources : c.perSrcCounts.Represents 0 S
  total : c.cacheTotal = B
  unclipped : c.clipped = false

namespace Books

variable {B : PerNsBudget}

lemma perNsRelease (h : c.Books R S B) (ns : ℕ) (n : PerNsBudget) (hle : n.Le (R ns)) :
    (c.perNsRelease ns n).Books (update R ns ((R ns).sub n)) S B := by
  obtain ⟨hrows, hclipped⟩ := represents_perNsRelease h.rows hle
  refine ⟨hrows, ?_, ?_, hclipped.trans h.unclipped⟩
  · rw [(c.perNsRelease_frame ns n).2.2.1]
    exact h.sources
  unfold cacheTotal
  rw [(c.perNsRelease_frame ns n).2.2.2]
  exact h.total

/-- The three releases of a retired queue take its whole charge out of a row. -/
lemma perNsReleaseAll (h : c.Books R S B) (ns frags bytes : ℕ)
    (hle : PerNsBudget.Le ⟨1, frags, bytes⟩ (R ns)) :
    (((c.perNsReleaseQueue ns).perNsReleaseFrags ns frags).perNsReleaseBytes ns bytes).Books
      (update R ns ((R ns).sub ⟨1, frags, bytes⟩)) S B := by
  obtain ⟨hqueues, hfrags, hbytes⟩ := hle
  have h1 := h.perNsRelease ns ⟨1, 0, 0⟩ ⟨hqueues, Nat.zero_le _, Nat.zero_le _⟩
  have h2 := h1.perNsRelease ns ⟨0, frags, 0⟩
    ⟨Nat.zero_le _, by rw [update_self]; exact hfrags, Nat.zero_le _⟩
  have h3 := h2.perNsRelease ns ⟨0, 0, bytes⟩ ⟨Nat.zero_le _, Nat.zero_le _, by
      rw [update_self, update_self]; exact hbytes⟩
  simp only [update_self, update_idem] at h3
  exact h3

lemma releaseSource (h : c.Books R S B) (source : Source) (hpos : 0 < S source) :
    (c.releaseSource source).Books R (update S source (S source - 1)) B := by
  obtain ⟨hsources, hclipped⟩ := represents_releaseSource h.sources hpos
  refine ⟨?_, hsources, ?_, hclipped.trans h.unclipped⟩
  · rw [(c.releaseSource_frame source).2.2.1]
    exact h.rows
  unfold cacheTotal
  rw [(c.releaseSource_frame source).2.2.2]
  exact h.total

/-- A wrapping subtraction that neither wraps nor starts out of range. -/
lemma fetchSub_eq {w a b : ℕ} (hle : b ≤ a) (hlt : a < 2 ^ w) : fetchSub w a b = a - b := by
  unfold fetchSub
  rw [Nat.mod_eq_of_lt (hle.trans_lt hlt), show a + (2 ^ w - b) = a - b + 2 ^ w by omega,
    Nat.add_mod_right, Nat.mod_eq_of_lt (by omega)]

section

variable (h : c.Books R S B)
include h

lemma subtractQueue (frags bytes : ℕ)
    (hle : PerNsBudget.Le ⟨1, frags, bytes⟩ B) (hlimit : B.Le cacheLimit) :
    (c.subtractQueue frags bytes).Books R S (B.sub ⟨1, frags, bytes⟩) := by
  obtain ⟨hrows, hsources, rfl, hclipped⟩ := h
  have hqueues : 1 ≤ c.stats.activeQueues := hle.1
  have hfrags : frags ≤ c.stats.bufferedFragments := hle.2.1
  have hbytes : bytes ≤ c.stats.bufferedBytes := hle.2.2
  have hqueues' : c.stats.activeQueues < 2 ^ 32 := hlimit.1.trans_lt (by decide)
  have hfrags' : c.stats.bufferedFragments < 2 ^ 32 := hlimit.2.1.trans_lt (by decide)
  have hbytes' : c.stats.bufferedBytes < 2 ^ 64 := hlimit.2.2.trans_lt (by decide)
  have hclips : (decide (c.stats.activeQueues < 1) || decide (c.stats.bufferedFragments < frags) ||
      decide (c.stats.bufferedBytes < bytes)) = false := by
    simp [hqueues.not_gt, hfrags, hbytes]
  have heq : c.subtractQueue frags bytes = { c with stats := { c.stats with
      activeQueues := c.stats.activeQueues - 1
      bufferedFragments := c.stats.bufferedFragments - frags
      bufferedBytes := c.stats.bufferedBytes - bytes } } := by
    unfold subtractQueue
    rw [fetchSub_eq hqueues hqueues', fetchSub_eq hfrags hfrags', fetchSub_eq hbytes hbytes', hclips,
      note_false]
  rw [heq]
  exact ⟨hrows, hsources, rfl, hclipped⟩

lemma releaseFragment (hle : 1 ≤ B.frags) : c.releaseFragment.Books R S (B.sub ⟨0, 1, 0⟩) := by
  obtain ⟨hrows, hsources, rfl, hclipped⟩ := h
  have hclips : decide (c.stats.bufferedFragments < 1) = false := decide_eq_false hle.not_gt
  refine ⟨hrows, hsources, rfl, ?_⟩
  simp only [releaseFragment, note, hclipped, hclips, Bool.or_self]

lemma releaseBytes (bytes : ℕ) (hle : bytes ≤ B.bytes) :
    (c.releaseBytes bytes).Books R S (B.sub ⟨0, 0, bytes⟩) := by
  obtain ⟨hrows, hsources, rfl, hclipped⟩ := h
  have hclips : decide (c.stats.bufferedBytes < bytes) = false := decide_eq_false hle.not_gt
  refine ⟨hrows, hsources, rfl, ?_⟩
  simp only [releaseBytes, note, hclipped, hclips, Bool.or_self]

lemma tryReserveFragment {c' : FragmentCache} (hc : c.tryReserveFragment = some c') :
    c'.Books R S (B.add ⟨0, 1, 0⟩) ∧ B.frags < globalMaxFrags ∧ SameQueues c c' := by
  obtain ⟨hrows, hsources, rfl, hclipped⟩ := h
  unfold tryReserveFragment at hc
  split_ifs at hc with hlt
  cases hc
  exact ⟨⟨hrows, hsources, rfl, hclipped⟩, hlt, ⟨rfl, rfl⟩⟩

lemma tryReserveBytes {c' : FragmentCache} {bytes : ℕ} (hc : c.tryReserveBytes bytes = some c') :
    c'.Books R S (B.add ⟨0, 0, bytes⟩) ∧ B.bytes + bytes ≤ globalMaxFragBytes ∧
      SameQueues c c' := by
  obtain ⟨hrows, hsources, rfl, hclipped⟩ := h
  unfold tryReserveBytes at hc
  dsimp only at hc
  split_ifs at hc with hle
  have hsum : saturatingAdd c.stats.bufferedBytes bytes = c.stats.bufferedBytes + bytes := by
    refine saturatingAdd_eq_of_le (not_lt.mp fun hlt => ?_)
    rw [saturatingAdd, min_eq_right hlt.le] at hle
    exact absurd hle (by decide)
  rw [hsum] at hc hle
  cases hc
  exact ⟨⟨hrows, hsources, rfl, hclipped⟩, hle, ⟨rfl, rfl⟩⟩

lemma perNsCharge (ns : ℕ) (n : PerNsBudget) (hrow : 0 < (R ns).queues)
    (hadd : (R ns).checkedAdd n = some ((R ns).add n)) :
    ∃ c', c.perNsCharge ns n = .ok c' ∧
      c'.Books (update R ns ((R ns).add n)) S B ∧ SameQueues c c' := by
  have hne : R ns ≠ .zero := fun heq => absurd (heq ▸ hrow) (lt_irrefl 0)
  have hne' : (R ns).add n ≠ .zero := fun heq => by
    have hqueues : (R ns).queues + n.queues = 0 := congrArg PerNsBudget.queues heq
    omega
  refine ⟨{ c with perNsCounts := c.perNsCounts.modify ns fun _ => (R ns).add n }, ?_,
    { h with rows := h.rows.modify hne hne' }, ⟨rfl, rfl⟩⟩
  simp only [FragmentCache.perNsCharge, h.rows.get_eq_some hne, hadd]

/-- A queue charged to a namespace that has a row or room for one. -/
lemma perNsChargeQueue (ns : ℕ) (hroom : c.perNsCounts.RoomFor ns)
    (hzero : (R ns).queues = 0 → R ns = .zero)
    (hadd : (R ns).checkedAdd ⟨1, 0, 0⟩ = some ((R ns).add ⟨1, 0, 0⟩)) :
    ∃ c', c.perNsChargeQueue ns = .ok c' ∧
      c'.Books (update R ns ((R ns).add ⟨1, 0, 0⟩)) S B ∧ SameQueues c c' := by
  unfold FragmentCache.perNsChargeQueue
  by_cases hrow : R ns = .zero
  · have hget : c.perNsCounts.get ns = none := h.rows.get_eq_none_iff.mpr hrow
    obtain ⟨m, hm, hassoc, -⟩ :=
      insertUniqueReserved_eq_some hget (hroom hget) (⟨1, 0, 0⟩ : PerNsBudget)
    have hadd' : (R ns).add ⟨1, 0, 0⟩ = ⟨1, 0, 0⟩ := by
      rw [hrow]
      rfl
    rw [containsKey_eq_false_iff.mpr hget, if_neg Bool.false_ne_true, hm, hadd']
    exact ⟨_, rfl, { h with rows := h.rows.insert hassoc (by decide) }, ⟨rfl, rfl⟩⟩
  have hget := h.rows.get_eq_some hrow
  rw [containsKey_iff.mpr ⟨_, hget⟩, if_pos rfl]
  exact h.perNsCharge ns _ (pos_of_ne_zero fun hq => hrow (hzero hq)) hadd

/-- A queue charged to a source that has a row or room for one. -/
lemma chargeSource (source : Source) (hroom : c.perSrcCounts.RoomFor source)
    (hadd : S source + 1 ≤ usizeMax) :
    ∃ c', c.chargeSource source = .ok c' ∧
      c'.Books R (update S source (S source + 1)) B ∧ SameQueues c c' ∧
      c'.perNsCounts = c.perNsCounts := by
  unfold FragmentCache.chargeSource
  by_cases hrow : S source = 0
  · have hget : c.perSrcCounts.get source = none := h.sources.get_eq_none_iff.mpr hrow
    obtain ⟨m, hm, hassoc, -⟩ :=
      insertUniqueReserved_eq_some hget (hroom hget) 1
    simp only [hget, hm, hrow]
    exact ⟨_, rfl, { h with sources := h.sources.insert hassoc one_ne_zero }, ⟨rfl, rfl⟩, rfl⟩
  simp only [h.sources.get_eq_some hrow, checkedAdd_eq_some_of_le hadd]
  exact ⟨_, rfl, { h with sources := h.sources.modify hrow (Nat.succ_ne_zero _) }, ⟨rfl, rfl⟩, rfl⟩

lemma addQueue (bytes : ℕ) (hle : (B.add ⟨1, 1, bytes⟩).Le cacheLimit) :
    (c.addQueue bytes).Books R S (B.add ⟨1, 1, bytes⟩) := by
  obtain ⟨hrows, hsources, rfl, hclipped⟩ := h
  have hqueues : c.stats.activeQueues + 1 < 2 ^ 32 := hle.1.trans_lt (by decide)
  have hfrags : c.stats.bufferedFragments + 1 < 2 ^ 32 := hle.2.1.trans_lt (by decide)
  have hbytes : c.stats.bufferedBytes + bytes < 2 ^ 64 := hle.2.2.trans_lt (by decide)
  have heq : c.addQueue bytes = { c with stats := { c.stats with
      activeQueues := c.stats.activeQueues + 1
      bufferedFragments := c.stats.bufferedFragments + 1
      bufferedBytes := c.stats.bufferedBytes + bytes } } := by
    unfold addQueue fetchAdd
    rw [Nat.mod_eq_of_lt hqueues, Nat.mod_eq_of_lt hfrags, Nat.mod_eq_of_lt hbytes]
  rw [heq]
  exact ⟨hrows, hsources, rfl, hclipped⟩

end

end Books

/-! ## Charges -/

/-- The books of the cache are the totals of a list of charges, within the limits of the cache. -/
structure Accounts (c : FragmentCache) (L : List Charge) : Prop where
  books : c.Books (nsBudget L) (sourceCount L) (cacheBudget L)
  within : (cacheBudget L).Le cacheLimit

namespace Accounts

variable {L L' : List Charge} {key : FragmentKey} {frags bytes len : ℕ}

lemma initial : Accounts .new [] :=
  ⟨⟨represents_new, represents_new, rfl, rfl⟩, ⟨Nat.zero_le _, Nat.zero_le _, Nat.zero_le _⟩⟩

lemma perm (h : c.Accounts L) (hperm : L.Perm L') : c.Accounts L' := by
  have hns : nsBudget L = nsBudget L' := funext fun ns => budgetWhere_perm hperm
  have hsource : sourceCount L = sourceCount L' :=
    funext fun source => congrArg PerNsBudget.queues (budgetWhere_perm hperm)
  have hcache : cacheBudget L = cacheBudget L' := budgetWhere_perm hperm
  exact ⟨hns ▸ hsource ▸ hcache ▸ h.books, hcache ▸ h.within⟩

lemma recordDropReason (h : c.Accounts L) (reason : FragmentDropReason) :
    (c.recordDropReason reason).Accounts L := by
  obtain ⟨events, heq⟩ := c.recordDropReason_frame reason
  rw [heq]
  exact ⟨{ h.books with }, h.within⟩

lemma charge_le (key : FragmentKey) (frags bytes : ℕ) (L : List Charge) :
    PerNsBudget.Le ⟨1, frags, bytes⟩ (nsBudget (chargeFor key frags bytes :: L) key.netNsId) := by
  rw [nsBudget_chargeFor]
  exact le_add_left _ _

lemma row_le (h : c.Accounts L) (ns : ℕ) : (nsBudget L ns).Le cacheLimit :=
  (budgetWhere_le (fun ch => ch.ns = ns) L).trans h.within

/-- Retiring a queue takes its charge off the books. -/
lemma releaseQueue (h : c.Accounts (chargeFor key frags bytes :: L)) :
    (c.releaseQueue key frags bytes).Accounts L := by
  have hcache : cacheBudget (chargeFor key frags bytes :: L) =
      (cacheBudget L).add ⟨1, frags, bytes⟩ := cacheBudget_cons _ L
  have hsource : sourceCount (chargeFor key frags bytes :: L) key.source =
      sourceCount L key.source + 1 := by
    rw [sourceCount_cons]
    exact update_self ..
  have hrow := nsBudget_chargeFor key frags bytes L
  have h1 := h.books.releaseSource key.source (by omega)
  have h2 := h1.perNsReleaseAll key.netNsId frags bytes (charge_le key frags bytes L)
  have h3 := h2.subtractQueue frags bytes (hcache ▸ le_add_left _ _) h.within
  rw [hsource, hrow, hcache, add_sub_cancel, add_sub_cancel,
    Nat.add_sub_cancel, update_nsBudget_tail, update_sourceCount_tail] at h3
  have hle := h.within
  rw [hcache] at hle
  exact ⟨h3, ⟨le_self_add.trans hle.1, le_self_add.trans hle.2.1,
    le_self_add.trans hle.2.2⟩⟩

/-- Charging a queue differently, row and counters alike. -/
lemma recharge {frags' bytes' : ℕ} {v B : PerNsBudget}
    (h : c.Books (update (nsBudget (chargeFor key frags bytes :: L)) key.netNsId v)
      (sourceCount (chargeFor key frags bytes :: L)) B)
    (hv : v = (nsBudget L key.netNsId).add ⟨1, frags', bytes'⟩)
    (hB : B = (cacheBudget L).add ⟨1, frags', bytes'⟩) (hle : B.Le cacheLimit) :
    c.Accounts (chargeFor key frags' bytes' :: L) := by
  have hcache : cacheBudget (chargeFor key frags' bytes' :: L) = B :=
    (cacheBudget_cons _ L).trans hB.symm
  have hns : update (nsBudget (chargeFor key frags bytes :: L)) key.netNsId v =
      nsBudget (chargeFor key frags' bytes' :: L) := by
    rw [nsBudget_cons, nsBudget_cons, hv]
    exact update_idem _ _ _
  refine ⟨?_, hcache ▸ hle⟩
  rw [← hns, hcache, sourceCount_chargeFor key frags' bytes' frags bytes]
  exact h

section

variable (h : c.Accounts (chargeFor key frags bytes :: L))
include h

/-- Adding to the row of a charged queue does not overflow within the limits of the cache. -/
lemma checkedAdd_row (hn : n.Le cacheLimit) :
    (nsBudget (chargeFor key frags bytes :: L) key.netNsId).checkedAdd n =
      some ((nsBudget (chargeFor key frags bytes :: L) key.netNsId).add n) := by
  obtain ⟨hqueues, hfrags, hbytes⟩ := h.row_le key.netNsId
  exact checkedAdd_eq_some ((add_le_add hqueues hn.1).trans (by decide))
    ((add_le_add hfrags hn.2.1).trans (by decide))
    ((add_le_add hbytes hn.2.2).trans (by decide))

lemma reserveFragment {c1 : FragmentCache} (hc : c.tryReserveFragment = some c1) :
    ∃ c2, c1.perNsChargeFrag key.netNsId = .ok c2 ∧
      c2.Accounts (chargeFor key (frags + 1) bytes :: L) ∧ SameQueues c c2 := by
  obtain ⟨h1, hlt, hsame1⟩ := h.books.tryReserveFragment hc
  obtain ⟨c2, hc2, h2, hsame2⟩ := h1.perNsCharge key.netNsId ⟨0, 1, 0⟩
    (charge_le key frags bytes L).1 (h.checkedAdd_row (by decide))
  have hcache := cacheBudget_cons (chargeFor key frags bytes) L
  refine ⟨c2, hc2, recharge h2 ?_ ?_ ⟨h.within.1, hlt, h.within.2.2⟩, hsame1.trans hsame2⟩
  · rw [nsBudget_chargeFor]
    rfl
  rw [hcache]
  rfl

lemma reserveBytes {c1 : FragmentCache} (hc : c.tryReserveBytes len = some c1) :
    ∃ c2, c1.perNsChargeBytes key.netNsId len = .ok c2 ∧
      c2.Accounts (chargeFor key frags (bytes + len) :: L) ∧ SameQueues c c2 := by
  obtain ⟨h1, hle, hsame1⟩ := h.books.tryReserveBytes hc
  obtain ⟨c2, hc2, h2, hsame2⟩ := h1.perNsCharge key.netNsId ⟨0, 0, len⟩
    (charge_le key frags bytes L).1
    (h.checkedAdd_row ⟨Nat.zero_le _, Nat.zero_le _, (Nat.le_add_left ..).trans hle⟩)
  have hcache := cacheBudget_cons (chargeFor key frags bytes) L
  refine ⟨c2, hc2, recharge h2 ?_ ?_ ⟨h.within.1, h.within.2.1, hle⟩, hsame1.trans hsame2⟩
  · rw [nsBudget_chargeFor]
    simp [add, Nat.add_assoc]
  rw [hcache]
  simp [add, Charge.budget, chargeFor, Nat.add_assoc]

end

/-- What the cache and the namespace give back together. -/
lemma giveBack {frags' bytes' : ℕ} {c' : FragmentCache} {L' : List Charge} (h : c.Accounts L')
    (h' : c'.Books (update (nsBudget L') key.netNsId ((nsBudget L' key.netNsId).sub n))
      (sourceCount L') ((cacheBudget L').sub n)) (hL : L' = chargeFor key frags' bytes' :: L)
    (hn : (⟨1, frags', bytes'⟩ : PerNsBudget) = add ⟨1, frags, bytes⟩ n) :
    c'.Accounts (chargeFor key frags bytes :: L) := by
  subst hL
  have hcancel : ∀ e : PerNsBudget,
      (e.add ⟨1, frags', bytes'⟩).sub n = e.add ⟨1, frags, bytes⟩ := by
    intro e
    rw [hn, ← add_assoc, add_sub_cancel]
  refine recharge h' ?_ ?_ ?_
  · rw [nsBudget_chargeFor]
    exact hcancel _
  · rw [cacheBudget_cons]
    exact hcancel _
  · exact ⟨(Nat.sub_le ..).trans h.within.1, (Nat.sub_le ..).trans h.within.2.1,
      (Nat.sub_le ..).trans h.within.2.2⟩

lemma charge_le_cache (key : FragmentKey) (frags bytes : ℕ) (L : List Charge) :
    PerNsBudget.Le ⟨1, frags, bytes⟩ (cacheBudget (chargeFor key frags bytes :: L)) := by
  rw [cacheBudget_cons]
  exact le_add_left _ _

/-- The reservation of a fragment without bytes is given back. -/
lemma releaseFragment (h : c.Accounts (chargeFor key (frags + 1) bytes :: L)) :
    (c.releaseFragment.perNsReleaseFrags key.netNsId 1).Accounts (chargeFor key frags bytes :: L) := by
  have hcache := charge_le_cache key (frags + 1) bytes L
  have hrow := charge_le key (frags + 1) bytes L
  have h1 := h.books.releaseFragment ((Nat.le_add_left 1 frags).trans hcache.2.1)
  have h2 := h1.perNsRelease key.netNsId ⟨0, 1, 0⟩
    ⟨Nat.zero_le _, (Nat.le_add_left 1 frags).trans hrow.2.1, Nat.zero_le _⟩
  exact giveBack h h2 rfl rfl

/-- The reservation of a fragment with its bytes is given back, first by the cache and then by the
namespace. -/
lemma releaseReserved (h : c.Accounts (chargeFor key (frags + 1) (bytes + len) :: L)) :
    (((c.releaseFragment.releaseBytes len).perNsReleaseFrags key.netNsId 1).perNsReleaseBytes
      key.netNsId len).Accounts (chargeFor key frags bytes :: L) := by
  have hcache := charge_le_cache key (frags + 1) (bytes + len) L
  have hrow := charge_le key (frags + 1) (bytes + len) L
  have h1 := h.books.releaseFragment ((Nat.le_add_left 1 frags).trans hcache.2.1)
  have h2 := h1.releaseBytes len ((Nat.le_add_left len bytes).trans hcache.2.2)
  have h3 := h2.perNsRelease key.netNsId ⟨0, 1, 0⟩
    ⟨Nat.zero_le _, (Nat.le_add_left 1 frags).trans hrow.2.1, Nat.zero_le _⟩
  have h4 := h3.perNsRelease key.netNsId ⟨0, 0, len⟩ ⟨Nat.zero_le _, Nat.zero_le _, by
      rw [update_self]
      exact (Nat.le_add_left len bytes).trans hrow.2.2⟩
  rw [update_self, update_idem] at h4
  exact giveBack (n := ⟨0, 1, len⟩) h h4 rfl rfl

/-- A new queue with one fragment goes on the books if there is room for it everywhere. -/
lemma chargeQueue (h : c.Accounts L) (key : FragmentKey) (len : ℕ)
    (hsource : c.perSrcCounts.RoomFor key.source) (hns : c.perNsCounts.RoomFor key.netNsId)
    (hle : ((cacheBudget L).add ⟨1, 1, len⟩).Le cacheLimit) :
    ∃ c', c.chargeQueue key len = .ok c' ∧ c'.Accounts (chargeFor key 1 len :: L) ∧
      SameQueues c c' := by
  obtain ⟨hqueues, hfrags, hbytes⟩ := h.row_le key.netNsId
  have hcount : sourceCount L key.source + 1 ≤ globalMaxQueues :=
    (Nat.add_le_add_right (budgetWhere_le (fun ch => ch.source = key.source) L).1 1).trans hle.1
  have hlen : len ≤ globalMaxFragBytes := (Nat.le_add_left ..).trans hle.2.2
  have hqueues' : (nsBudget L key.netNsId).queues + 1 ≤ usizeMax :=
    (Nat.add_le_add_right hqueues 1).trans (by decide)
  have hfrags' : (nsBudget L key.netNsId).frags + 1 ≤ u32Max :=
    (Nat.add_le_add_right hfrags 1).trans (by decide)
  have hbytes' : (nsBudget L key.netNsId).bytes + len ≤ usizeMax :=
    (add_le_add hbytes hlen).trans (by decide)
  obtain ⟨c1, hc1, h1, hsame1, hrows1⟩ :=
    h.books.chargeSource key.source hsource (hcount.trans (by decide))
  obtain ⟨c2, hc2, h2, hsame2⟩ := h1.perNsChargeQueue key.netNsId (hrows1 ▸ hns)
    budgetWhere_eq_zero (checkedAdd_eq_some hqueues' (le_self_add.trans hfrags')
      (le_self_add.trans hbytes'))
  obtain ⟨c3, hc3, h3, hsame3⟩ := h2.perNsCharge key.netNsId ⟨0, 1, 0⟩
    (by rw [update_self]; exact Nat.succ_pos _)
    (by
      rw [update_self]
      exact checkedAdd_eq_some hqueues' hfrags' (le_self_add.trans hbytes'))
  obtain ⟨c4, hc4, h4, hsame4⟩ := h3.perNsCharge key.netNsId ⟨0, 0, len⟩
    (by rw [update_self, update_self]; exact Nat.succ_pos _)
    (by
      rw [update_self, update_self]
      exact checkedAdd_eq_some hqueues' hfrags' hbytes')
  have hrun : c.chargeQueue key len = .ok (c4.addQueue len) := by
    simp only [FragmentCache.chargeQueue, perNsChargeFrag, perNsChargeBytes, hc1, hc2, hc3, hc4, bind,
      Except.bind, pure, Except.pure]
  have hsame5 : SameQueues c4 (c4.addQueue len) := ⟨rfl, rfl⟩
  refine ⟨_, hrun, ⟨?_, ?_⟩, (((hsame1.trans hsame2).trans hsame3).trans hsame4).trans hsame5⟩
  · have h5 := h4.addQueue len hle
    have hsum : add ⟨1, 0, 0⟩ (add ⟨0, 1, 0⟩ ⟨0, 0, len⟩) = ⟨1, 1, len⟩ := by
      simp [add]
    simp only [update_self, update_idem, add_assoc, hsum] at h5
    rw [nsBudget_cons, sourceCount_cons, cacheBudget_cons]
    exact h5
  rw [cacheBudget_cons]
  exact hle

end Accounts

end FragmentCache

end Nilix.Net
