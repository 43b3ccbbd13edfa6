import Nilix.Net.ConntrackEgress

/-!
# Connection tracking: the books of the table

`Books` is what the counts, the quotas and the flows of a table have to do with each other.  Every
section of a call keeps it, keeps the tokens of the egress transactions in flight, and changes
`stats.current_entries` as it changes the number of flows; `Keeps` collects these.  A section that
creates no flow is `Calm`: it also leaves absent flows absent and room for namespace rows, which a
rollback in another call counts on.
-/

namespace Nilix.Net.Ct

open SortedAssoc ConntrackTable FallibleOrderedMap Function Option

/-! ## Rows -/

section Rows

variable {counts : NsCounts} {F : ℕ → ℕ}

lemma represents_decNsEntryCountLocked (h : counts.Represents 0 F) (ns : ℕ) :
    (decNsEntryCountLocked counts ns).Represents 0 (update F ns (F ns - 1)) := by
  unfold decNsEntryCountLocked
  cases hget : counts.get ns with
  | none =>
    have hzero : F ns = 0 := h.get_eq_none_iff.mp hget
    have hsame : update F ns (F ns - 1) = F :=
      update_eq_self_iff.mpr (by omega)
    rw [hsame]
    exact h
  | some c =>
    have hne : F ns ≠ 0 := fun hzero => by simp [h.get_eq_none_iff.mpr hzero] at hget
    obtain rfl : F ns = c := some.inj ((h.get_eq_some hne).symm.trans hget)
    dsimp only
    split_ifs with hlast
    · rw [hlast]
      exact h.prune ns _
    · exact h.modify hne hlast

variable {ns : ℕ}

lemma roomFor_decNsEntryCountLocked (h : counts.RoomFor ns) (ns' : ℕ) :
    (decNsEntryCountLocked counts ns').RoomFor ns := by
  unfold decNsEntryCountLocked
  split
  · exact h
  dsimp only
  split_ifs
  · exact (h.modify _).remove _
  · exact h.modify _

lemma roomFor_decNsEntryCountLocked_self {c : ℕ} (h : counts.get ns = some c) :
    (decNsEntryCountLocked counts ns).RoomFor ns := by
  have hroom : counts.RoomFor ns := fun hnone => by simp [h] at hnone
  exact roomFor_decNsEntryCountLocked hroom ns

section

variable (h : counts.Represents 0 F)
include h

/-- A row with room is charged one flow. -/
lemma chargeRow_spec (hroom : counts.RoomFor ns) (hmax : F ns + 1 ≤ usizeMax) :
    ∃ counts', chargeRow counts ns = (counts', true) ∧
      counts'.Represents 0 (update F ns (F ns + 1)) := by
  unfold chargeRow
  cases hget : counts.get ns with
  | none =>
    have hzero : F ns = 0 := h.get_eq_none_iff.mp hget
    obtain ⟨counts', hinsert, hassoc, -⟩ :=
      insertUniqueReserved_eq_some hget (hroom hget) 1
    rw [hinsert, hzero]
    exact ⟨counts', rfl, h.insert hassoc one_ne_zero⟩
  | some c =>
    have hne : F ns ≠ 0 := fun hzero => by simp [h.get_eq_none_iff.mpr hzero] at hget
    obtain rfl : F ns = c := some.inj ((h.get_eq_some hne).symm.trans hget)
    dsimp only
    rw [checkedAdd_eq_some_of_le hmax]
    exact ⟨_, rfl, h.modify hne (Nat.succ_ne_zero _)⟩

lemma Represents.room_of_ne_zero (hne : F ns ≠ 0) :
    counts.RoomFor ns := fun hnone => absurd (h.get_eq_none_iff.mp hnone) hne

lemma publishCounts_free (hroom : counts.RoomFor ns) (hmax : F ns + 1 ≤ usizeMax) :
    ∃ counts', publishCounts counts ns none = (counts', true) ∧
      counts'.Represents 0 (update F ns (F ns + 1)) :=
  chargeRow_spec h hroom hmax

/-- Publishing a flow in the place of one of its namespace. -/
lemma publishCounts_same (hne : F ns ≠ 0) : publishCounts counts ns (some ns) = (counts, true) := by
  unfold publishCounts
  rw [h.get_eq_some hne]
  simp [pos_of_ne_zero hne]

/-- Publishing a flow in the place of one of another namespace that keeps flows. -/
lemma publishCounts_other {victimNs : ℕ} (hne : victimNs ≠ ns)
    (hvictim : 1 < F victimNs) (hroom : counts.RoomFor ns) (hmax : F ns + 1 ≤ usizeMax) :
    ∃ counts', publishCounts counts ns (some victimNs) = (counts', true) ∧ counts'.Represents 0
        (update (update F ns (F ns + 1)) victimNs (F victimNs - 1)) := by
  obtain ⟨counts', hcharge, hrep⟩ := chargeRow_spec h hroom hmax
  have hrow : counts.get victimNs = some (F victimNs) := h.get_eq_some (by omega)
  have hvalue : update F ns (F ns + 1) victimNs = F victimNs :=
    update_of_ne hne _ _
  have hrow' : counts'.get victimNs = some (F victimNs) := by
    rw [hrep.get_eq_some (by rw [hvalue]; omega), hvalue]
  have hfilter : (some (F victimNs)).filter (fun count => decide (0 < count)) =
      some (F victimNs) := by
    rw [filter_eq_some_iff]
    exact ⟨rfl, decide_eq_true (by omega)⟩
  unfold publishCounts
  simp only [if_neg hne, hrow, hfilter]
  rw [if_neg (by omega), hcharge]
  simp only [if_neg (show ¬ F victimNs = 1 by omega), hrow']
  exact ⟨_, rfl, hrep.modify (by rw [hvalue]; omega) (by omega)⟩

end

end Rows

namespace ConntrackTable

/-! ## The books -/

/-- The number of flows of a namespace. -/
def flowsOf (t : ConntrackTable) (ns : ℕ) : ℕ :=
  t.entries.assoc.countKeys fun k => k.netNsId = ns

/-- The counts are exact and the quotas are kept. -/
structure Books (t : ConntrackTable) : Prop where
  /-- The row of a namespace is the number of its flows; there is no row for zero. -/
  rows : t.nsEntryCounts.Represents 0 t.flowsOf
  /-- The table is within its cap. -/
  len_le : t.entries.len ≤ ctMaxEntries
  /-- A tenant is within its share. -/
  share : ∀ ns, ns ≠ ctRootNs → t.flowsOf ns ≤ ctMaxEntriesPerNs
  /-- The tenants together leave the reserve of the root namespace. -/
  tenants : t.entries.len - t.flowsOf ctRootNs ≤ ctMaxEntries - ctRootReserve

/-- By how much `stats.current_entries` is off. -/
def drift (t : ConntrackTable) : UInt32 :=
  t.stats.currentEntries - UInt32.ofNat t.entries.len

/-- The token of the egress transaction that holds a flow. -/
def tokenAt (t : ConntrackTable) (k : FlowKey) : Option ℕ :=
  (t.entries.get k).bind fun e => e.pendingEgress.map PendingEgress.token

variable {t t' t'' : ConntrackTable} {k : FlowKey} {e : ConntrackEntry}

lemma flowsOf_le_len (t : ConntrackTable) (ns : ℕ) : t.flowsOf ns ≤ t.entries.len :=
  countKeys_le_length _ _

lemma one_le_ctRootReserve : 1 ≤ ctRootReserve := by decide

lemma flowsOf_of_assoc (h : t'.entries.assoc = t.entries.assoc) : t'.flowsOf = t.flowsOf := by
  unfold flowsOf
  rw [h]

/-- Only the numbers of flows and the rows matter to the books. -/
lemma Books.of_flowsOf (h : t.Books) (hflows : t'.flowsOf = t.flowsOf)
    (hlen : t'.entries.len = t.entries.len) (hrows : t'.nsEntryCounts.Represents 0 t.flowsOf) :
    t'.Books := by
  constructor
  · rw [hflows]
    exact hrows
  · rw [hlen]
    exact h.len_le
  · rw [hflows]
    exact h.share
  · rw [hflows, hlen]
    exact h.tenants

lemma Books.congr (h : t.Books) (hentries : t'.entries.assoc = t.entries.assoc)
    (hcounts : t'.nsEntryCounts.assoc = t.nsEntryCounts.assoc) : t'.Books :=
  h.of_flowsOf (flowsOf_of_assoc hentries) (len_of_assoc hentries) (h.rows.of_assoc hcounts)

/-- Removing a flow takes one from its namespace. -/
lemma flowsOf_removeFlow (h : t.entries.get k = some e) :
    (t.removeFlow k).flowsOf = update t.flowsOf k.netNsId (t.flowsOf k.netNsId - 1) := by
  funext ns
  have herase : (t.removeFlow k).flowsOf ns + (if k.netNsId = ns then 1 else 0) = t.flowsOf ns :=
    countKeys_erase (fun k : FlowKey => k.netNsId = ns) h
  by_cases hns : ns = k.netNsId
  · subst hns
    rw [if_pos rfl] at herase
    rw [update_self]
    omega
  rw [if_neg (Ne.symm hns)] at herase
  rw [update_of_ne hns]
  exact herase

lemma len_removeFlow (h : t.entries.get k = some e) :
    (t.removeFlow k).entries.len + 1 = t.entries.len := length_erase h

/-- After a removal the rows still count the flows. -/
lemma Books.removeFlow (hbooks : t.Books) (h : t.entries.get k = some e) :
    (t.removeFlow k).Books := by
  have hlen := len_removeFlow h
  have hflows := flowsOf_removeFlow h
  have hpos : 0 < t.flowsOf k.netNsId := countKeys_pos _ h rfl
  constructor
  · rw [hflows]
    exact represents_decNsEntryCountLocked hbooks.rows _
  · have := hbooks.len_le
    omega
  · intro ns hns
    rw [hflows]
    have hshare := hbooks.share ns hns
    by_cases hk : ns = k.netNsId
    · subst hk
      rw [update_self]
      omega
    · rwa [update_of_ne hk]
  · have htenants := hbooks.tenants
    rw [hflows]
    by_cases hroot : ctRootNs = k.netNsId
    · rw [hroot, update_self]
      rw [hroot] at htenants
      omega
    rw [update_of_ne hroot]
    omega

/-! ## What a section leaves to the others -/

/-- A section keeps the books, the tokens of others and the permit, and counts what it changes. -/
structure Keeps (t t' : ConntrackTable) : Prop where
  books : t.Books → t'.Books
  tokenAt : ∀ k τ, t.tokenAt k = some τ → t'.tokenAt k = some τ
  drift : t'.drift = t.drift
  permit : t'.capacityPreparing = t.capacityPreparing

/-- A section that creates no flow. -/
structure Calm (t t' : ConntrackTable) : Prop extends Keeps t t' where
  absent : ∀ k, t.entries.get k = none → t'.entries.get k = none
  room : ∀ ns, t.nsEntryCounts.RoomFor ns → t'.nsEntryCounts.RoomFor ns

lemma Keeps.trans (h : t.Keeps t') (h' : t'.Keeps t'') : t.Keeps t'' where
  books hbooks := h'.books (h.books hbooks)
  tokenAt k τ hτ := h'.tokenAt k τ (h.tokenAt k τ hτ)
  drift := h'.drift.trans h.drift
  permit := h'.permit.trans h.permit

lemma Calm.refl (t : ConntrackTable) : t.Calm t where
  books := id
  tokenAt _ _ := id
  drift := rfl
  permit := rfl
  absent _ := id
  room _ := id

variable {s : ConntrackStats}

/-- Statistics other than `current_entries`. -/
lemma Calm.withStats (t : ConntrackTable) (h : s.currentEntries = t.stats.currentEntries) :
    t.Calm { t with stats := s } where
  books hbooks := hbooks.congr rfl rfl
  tokenAt _ _ := id
  drift := by
    unfold drift
    rw [← h]
  permit := rfl
  absent _ := id
  room _ := id

lemma calm_insertFailed (t : ConntrackTable) : t.Calm t.insertFailed := .withStats t rfl

lemma calm_invalidTransition (t : ConntrackTable) : t.Calm t.invalidTransition :=
  Calm.withStats t rfl

/-! ## Writes to one entry -/

variable {f : ConntrackEntry → ConntrackEntry}

lemma books_modifyEntry (h : t.Books) : (t.modifyEntry k f).Books :=
  h.of_flowsOf (funext fun ns => countKeys_adjust (fun k : FlowKey => k.netNsId = ns) _ k f)
    (length_adjust _ k f) h.rows

lemma drift_modifyEntry : (t.modifyEntry k f).drift = t.drift := by
  have hlen : (t.modifyEntry k f).entries.len = t.entries.len := length_adjust _ k f
  unfold drift
  rw [hlen]
  rfl

lemma absent_modifyEntry (k' : FlowKey) (h : t.entries.get k' = none) :
    (t.modifyEntry k f).entries.get k' = none := by
  unfold modifyEntry
  by_cases hk : k' = k
  · subst hk
    rw [get_modify_self, h]
    rfl
  · rwa [get_modify_of_ne hk]

/-- The token of a flow whose entry is written to. -/
lemma tokenAt_modifyEntry (hf : ∀ e, (f e).pendingEgress.map PendingEgress.token =
      e.pendingEgress.map PendingEgress.token) (k' : FlowKey) :
    (t.modifyEntry k f).tokenAt k' = t.tokenAt k' := by
  unfold tokenAt modifyEntry
  by_cases hk : k' = k
  · subst hk
    rw [get_modify_self]
    cases t.entries.get k' with
    | none => rfl
    | some e => exact hf e
  · rw [get_modify_of_ne hk]

lemma Calm.modifyEntry (t : ConntrackTable) (k : FlowKey)
    (hf : ∀ e, (f e).pendingEgress.map PendingEgress.token =
      e.pendingEgress.map PendingEgress.token) : t.Calm (t.modifyEntry k f) where
  books := books_modifyEntry
  tokenAt k' τ hτ := by rwa [tokenAt_modifyEntry hf]
  drift := drift_modifyEntry
  permit := rfl
  absent := absent_modifyEntry
  room _ := id

/-! ## Removals -/

/-- `n` flows without pending egress are gone, and not yet counted in the statistics. -/
structure Sheds (n : ℕ) (t t' : ConntrackTable) : Prop where
  books : t.Books → t'.Books
  of_get : ∀ k e, t'.entries.get k = some e → t.entries.get k = some e
  pending : ∀ k e, t.entries.get k = some e → e.pendingEgress ≠ none → t'.entries.get k = some e
  room : ∀ ns, t.nsEntryCounts.RoomFor ns → t'.nsEntryCounts.RoomFor ns
  len : t'.entries.len + n = t.entries.len
  stats : t'.stats = t.stats
  permit : t'.capacityPreparing = t.capacityPreparing

lemma Sheds.refl (t : ConntrackTable) : Sheds 0 t t :=
  ⟨id, fun _ _ => id, fun _ _ h _ => h, fun _ => id, rfl, rfl, rfl⟩

variable {n : ℕ}

lemma Sheds.trans {m : ℕ} (h : Sheds n t t') (h' : Sheds m t' t'') : Sheds (n + m) t t'' where
  books hbooks := h'.books (h.books hbooks)
  of_get k e hk := h.of_get k e (h'.of_get k e hk)
  pending k e hk hp := h'.pending k e (h.pending k e hk hp) hp
  room ns hns := h'.room ns (h.room ns hns)
  len := by
    have h1 := h.len
    have h2 := h'.len
    omega
  stats := h'.stats.trans h.stats
  permit := h'.permit.trans h.permit

lemma sheds_removeFlow (h : t.entries.get k = some e) (hp : e.pendingEgress = none) :
    Sheds 1 t (t.removeFlow k) where
  books hbooks := hbooks.removeFlow h
  of_get k' e' hk' := by
    by_cases hk : k' = k
    · subst hk
      rw [removeFlow, get_remove_self] at hk'
      cases hk'
    · rwa [removeFlow, get_remove_of_ne hk] at hk'
  pending k' e' hk' hp' := by
    by_cases hk : k' = k
    · subst hk
      rw [h, some.injEq] at hk'
      exact absurd (hk' ▸ hp) hp'
    · rwa [removeFlow, get_remove_of_ne hk]
  room ns hns := roomFor_decNsEntryCountLocked hns _
  len := len_removeFlow h
  stats := rfl
  permit := rfl

lemma Sheds.calm (h : Sheds n t t')
    (hs : s.currentEntries = t'.stats.currentEntries - UInt32.ofNat n) :
    t.Calm { t' with stats := s } where
  books hbooks := (h.books hbooks).congr rfl rfl
  tokenAt k τ hτ := by
    obtain ⟨e, he, hpending⟩ := bind_eq_some_iff.mp hτ
    have hne : e.pendingEgress ≠ none := fun hnone => by simp [hnone] at hpending
    exact bind_eq_some_iff.mpr ⟨e, h.pending k e he hne, hpending⟩
  drift := by
    unfold drift
    rw [hs, h.stats, ← h.len, UInt32.ofNat_add, sub_sub, add_comm (UInt32.ofNat n)]
  permit := h.permit
  absent k hk := by
    by_contra hne
    obtain ⟨e, he⟩ := ne_none_iff_exists'.mp hne
    cases hk.symm.trans (h.of_get k e he)
  room := h.room

/-- Flows are shed, and the statistics count them. -/
def ShedsTo (t t' : ConntrackTable) : Prop :=
  ∃ n u s, Sheds n t u ∧ s.currentEntries = u.stats.currentEntries - UInt32.ofNat n ∧
    t' = { u with stats := s }

lemma ShedsTo.calm (h : t.ShedsTo t') : t.Calm t' := by
  obtain ⟨n, u, s, h, hs, rfl⟩ := h
  exact h.calm hs

/-- Nothing is written if nothing was removed. -/
lemma Sheds.counted (h : Sheds n t t')
    (hs : s.currentEntries = t'.stats.currentEntries - UInt32.ofNat n) :
    t.ShedsTo (if 0 < n then { t' with stats := s } else t') := by
  split_ifs with hn
  · exact ⟨n, t', s, h, hs, rfl⟩
  obtain rfl : n = 0 := by omega
  exact ⟨0, t', t'.stats, h, (sub_zero _).symm, rfl⟩

lemma shedsTo_remove (t : ConntrackTable) (key : FlowKey) : t.ShedsTo (t.remove key).1 := by
  have hsame : t.ShedsTo t := (Sheds.refl t).counted (s := t.stats) (sub_zero _).symm
  unfold remove
  split
  · exact hsame
  rename_i entry hget
  split_ifs with hp
  · exact hsame
  rw [not_isSome_iff_eq_none] at hp
  exact ⟨1, _, _, sheds_removeFlow hget hp, rfl, rfl⟩

lemma sheds_sweepOne {s : ConntrackTable × ℕ} (h : Sheds s.2 t s.1) (key : FlowKey)
    (hn : n = (sweepOne s key).2) : Sheds n t (sweepOne s key).1 := by
  subst hn
  unfold sweepOne
  split
  · exact h
  rename_i entry hget
  split_ifs with hp
  · exact h.trans (sheds_removeFlow hget (isNone_iff_eq_none.mp hp))
  · exact h

lemma sheds_sweep (toRemove : List FlowKey) {s : ConntrackTable × ℕ} (h : Sheds s.2 t s.1) :
    Sheds (toRemove.foldl sweepOne s).2 t (toRemove.foldl sweepOne s).1 := by
  induction toRemove generalizing s with
  | nil => exact h
  | cons key toRemove ih => exact ih (sheds_sweepOne h key rfl)

lemma shedsTo_sweepRemove (t : ConntrackTable) (toRemove : List FlowKey) :
    t.ShedsTo (t.sweepRemove toRemove).1 := by
  have hsheds := sheds_sweep toRemove (s := (t, 0)) (Sheds.refl t)
  unfold sweepRemove
  generalize toRemove.foldl sweepOne (t, 0) = s at hsheds
  obtain ⟨t', n⟩ := s
  have hcounted := hsheds.counted (s := t'.stats.noteTimedOut n) rfl
  dsimp only
  split_ifs with hn
  · rwa [if_pos hn] at hcounted
  · rwa [if_neg hn] at hcounted

/-- A drain sheds as many flows as it counts. -/
lemma sheds_drainLoop (t0 t : ConntrackTable) (nsId removed : ℕ) (h : Sheds removed t0 t) :
    Sheds (t.drainLoop nsId removed).2 t0 (t.drainLoop nsId removed).1 := by
  fun_induction drainLoop t nsId removed with
  | case1 => exact h
  | case2 t removed key hkey ih =>
    obtain ⟨-, e, he, hp⟩ := of_drainVictim hkey
    exact ih (h.trans (sheds_removeFlow he hp))

lemma Books.remove_row (h : t.Books) {nsId : ℕ}
    (hnone : (t.entries.iter.any fun flow => decide (flow.1.netNsId = nsId)) = false) :
    { t with nsEntryCounts := t.nsEntryCounts.remove nsId }.Books := by
  have hzero : t.flowsOf nsId = 0 := by
    by_contra hne
    obtain ⟨k, e, hget, hk⟩ := exists_of_countKeys_ne_zero _ hne
    have hmem : (k, e) ∈ t.entries.iter := mem_entries.mpr hget
    have := List.any_eq_false.mp hnone (k, e) hmem
    simp [hk] at this
  refine ⟨fun ns => ?_, h.len_le, h.share, h.tenants⟩
  by_cases hns : ns = nsId
  · subst hns
    rw [get_remove_self]
    exact (if_pos hzero).symm
  rw [get_remove_of_ne hns]
  exact h.rows ns

lemma shedsTo_drainNs (t : ConntrackTable) (nsId : ℕ) : t.ShedsTo (t.drainNs nsId).1 := by
  have hsheds := sheds_drainLoop t t nsId 0 (Sheds.refl t)
  unfold drainNs
  generalize t.drainLoop nsId 0 = s at hsheds
  obtain ⟨t', n⟩ := s
  have hrow : Sheds n t (if (t'.entries.iter.any fun flow => decide (flow.1.netNsId = nsId)) = true
      then t' else { t' with nsEntryCounts := t'.nsEntryCounts.remove nsId }) := by
    split_ifs with hany
    · exact hsheds
    exact { hsheds with
      books := fun hbooks => (hsheds.books hbooks).remove_row (Bool.eq_false_of_not_eq_true hany)
      room := fun ns hns => (hsheds.room ns hns).remove nsId }
  exact hrow.counted rfl

/-! ## Packets of tracked flows and confirmations -/

lemma calm_ingressUpdate (t : ConntrackTable) (p : Packet) (entry : ConntrackEntry) :
    t.Calm (t.ingressUpdate p entry).1 := by
  unfold ingressUpdate
  dsimp only
  split_ifs
  · exact calm_invalidTransition t
  · exact .modifyEntry t p.key fun e => by rw [(ConntrackEntry.updateStats_frame ..).2.2.2]

lemma calm_updateOnPacket (t : ConntrackTable) (p : Packet) : t.Calm (t.updateOnPacket p).1 := by
  unfold updateOnPacket
  split
  · exact .refl t
  split_ifs
  · exact .refl t
  · exact .refl t
  · exact calm_ingressUpdate t p _

lemma token_endConnection (state : CtProtoState) (e : ConntrackEntry) :
    (endConnection state e).pendingEgress.map PendingEgress.token =
      e.pendingEgress.map PendingEgress.token := by
  unfold endConnection
  rw [map_map]
  rfl

lemma calm_commitTcpIngressHandshake (t : ConntrackTable)
    (netNsId srcIp dstIp srcPort dstPort : ℕ) :
    t.Calm (t.commitTcpIngressHandshake netNsId srcIp dstIp srcPort dstPort).1 := by
  unfold commitTcpIngressHandshake
  dsimp only
  split
  · exact .refl t
  split_ifs
  · exact .refl t
  · exact .modifyEntry t _ fun e => rfl

lemma calm_commitTcpClose (t : ConntrackTable) (key : FlowKey) (token : TcpCloseToken) :
    t.Calm (t.commitTcpClose key token).1 := by
  unfold commitTcpClose
  split
  · exact .refl t
  split_ifs
  · exact .refl t
  · exact .modifyEntry t key (token_endConnection _)

lemma calm_commitTcpIngressReset (t : ConntrackTable) (netNsId srcIp dstIp srcPort dstPort : ℕ) :
    t.Calm (t.commitTcpIngressReset netNsId srcIp dstIp srcPort dstPort).1 := by
  unfold commitTcpIngressReset
  dsimp only
  split
  · exact .refl t
  split
  · exact .modifyEntry t _ (token_endConnection _)
  · exact .refl t

/-! ## Admission -/

/-- What a victim scan finds. -/
structure Victim (t : ConntrackTable) (ns : ℕ) (k : FlowKey) (e : ConntrackEntry) : Prop where
  get : t.entries.get k = some e
  scope : k.netNsId = ns
  pending : e.pendingEgress = none
  /-- UDP streams apart, a victim is replaceable. -/
  replaceable : e.state.isUdp = false → e.replaceable = true

variable {ns : ℕ}

lemma of_victimCandidate {c : Candidate} (h : victimCandidate ns k e = some c) :
    Candidate.key c = k ∧ k.netNsId = ns ∧ e.pendingEgress = none ∧
      (e.state.isUdp = false → e.replaceable = true) := by
  unfold victimCandidate at h
  dsimp only at h
  split_ifs at h with hns hcond
  rw [not_not] at hns
  rw [Bool.or_eq_true, not_or, Bool.not_eq_true, isSome_eq_false_iff,
    isNone_iff_eq_none, Bool.not_eq_true] at hcond
  cases h
  refine ⟨rfl, hns, hcond.1, fun hudp => ?_⟩
  by_contra hne
  rw [Bool.not_eq_true] at hne
  rw [hne, hudp] at hcond
  exact absurd hcond.2 (by decide)

/-- The scan returns the key of an entry that offered itself. -/
lemma foldl_victimStep {flows : List (FlowKey × ConntrackEntry)} {best : Option Candidate}
    {c : Candidate} (h : flows.foldl (victimStep ns) best = some c) :
    best = some c ∨ ∃ flow ∈ flows, victimCandidate ns flow.1 flow.2 = some c := by
  induction flows generalizing best with
  | nil => exact .inl h
  | cons flow flows ih =>
    rcases ih h with hstep | ⟨flow', hmem, hc⟩
    · unfold victimStep at hstep
      split at hstep
      · exact .inl hstep
      rename_i candidate hcandidate
      have hnew : some candidate = some c →
          ∃ flow' ∈ flow :: flows, victimCandidate ns flow'.1 flow'.2 = some c := fun heq =>
        ⟨flow, List.mem_cons_self, hcandidate.trans heq⟩
      split at hstep
      · exact .inr (hnew hstep)
      split_ifs at hstep
      · exact .inr (hnew hstep)
      · exact .inl hstep
    · exact .inr ⟨flow', List.mem_cons_of_mem _ hmem, hc⟩

lemma victim_of_lruVictimInNsLocked (h : lruVictimInNsLocked t.entries ns = some k) :
    ∃ e, t.Victim ns k e := by
  obtain ⟨c, hc, rfl⟩ := map_eq_some_iff.mp h
  rcases foldl_victimStep hc with hnone | ⟨⟨k', e⟩, hmem, hcandidate⟩
  · cases hnone
  obtain ⟨hkey, hscope, hpending, hreplaceable⟩ := of_victimCandidate hcandidate
  rw [hkey]
  exact ⟨e, mem_entries.mp hmem, hscope, hpending, hreplaceable⟩

/-- A new flow of the namespace keeps the quotas. -/
structure Admissible (t : ConntrackTable) (ns : ℕ) : Prop where
  len_lt : t.entries.len < ctMaxEntries
  share_lt : ns ≠ ctRootNs → t.flowsOf ns < ctMaxEntriesPerNs
  tenants_lt : ns ≠ ctRootNs →
    t.entries.len - t.flowsOf ctRootNs < ctMaxEntries - ctRootReserve

/-- A free admission finds room for one more flow. -/
lemma Books.admissible_of_free (h : t.Books)
    (hfree : admissionLocked t.entries t.nsEntryCounts ns = .free) : t.Admissible ns := by
  unfold admissionLocked at hfree
  split at hfree
  · rename_i hscope
    unfold admissionScope at hscope
    rw [h.rows.getD, h.rows.getD] at hscope
    dsimp only at hscope
    split_ifs at hscope with htenant hfull
    rw [not_and, not_or] at htenant
    exact ⟨Nat.lt_of_not_le hfull, fun hns => Nat.lt_of_not_le (htenant hns).1,
      fun hns => Nat.lt_of_not_le (htenant hns).2⟩
  · split at hfree <;> cases hfree

/-- Where a replaced flow comes from: from the namespace of the new flow, or from root, which then
holds more than its reserve, for a tenant below its limits. -/
lemma Books.victim_of_replace (h : t.Books)
    (hreplace : admissionLocked t.entries t.nsEntryCounts ns = .replace k) :
    ∃ e, t.Victim k.netNsId k e ∧
      (k.netNsId = ns ∨ k.netNsId = ctRootNs ∧ ns ≠ ctRootNs ∧ ctRootReserve < t.flowsOf ctRootNs ∧
        t.flowsOf ns < ctMaxEntriesPerNs ∧
        t.entries.len - t.flowsOf ctRootNs < ctMaxEntries - ctRootReserve) := by
  unfold admissionLocked at hreplace
  split at hreplace
  · cases hreplace
  rename_i scope hscope
  split at hreplace
  · rename_i victim hvictim
    obtain rfl := Admission.replace.inj hreplace
    obtain ⟨e, he⟩ := victim_of_lruVictimInNsLocked hvictim
    refine ⟨e, he.scope.symm ▸ he, ?_⟩
    rw [he.scope]
    unfold admissionScope at hscope
    rw [h.rows.getD, h.rows.getD] at hscope
    dsimp only at hscope
    split_ifs at hscope with htenant hfull
    · exact .inl (some.inj hscope).symm
    cases hscope
    by_cases hns : ns = ctRootNs
    · exact .inl hns.symm
    rw [not_and, not_or] at htenant
    obtain ⟨hshare, htotal⟩ := htenant hns
    refine .inr ⟨rfl, hns, ?_, Nat.lt_of_not_le hshare, Nat.lt_of_not_le htotal⟩
    have hle := t.flowsOf_le_len ctRootNs
    omega
  · cases hreplace

/-- The slot of a flow of the same namespace can be taken. -/
lemma Books.admissible_removeFlow (h : t.Books) (hget : t.entries.get k = some e) :
    (t.removeFlow k).Admissible k.netNsId := by
  have hlen := len_removeFlow hget
  have hflows := flowsOf_removeFlow hget
  have hpos : 0 < t.flowsOf k.netNsId := countKeys_pos _ hget rfl
  have hlenle := h.len_le
  constructor
  · omega
  · intro hns
    have hshare := h.share _ hns
    rw [hflows, update_self]
    omega
  · intro hns
    have htenants := h.tenants
    rw [hflows, update_of_ne (Ne.symm hns)]
    have hother : t.flowsOf ctRootNs ≤ (t.removeFlow k).entries.len := by
      have hsame : (t.removeFlow k).flowsOf ctRootNs = t.flowsOf ctRootNs := by
        rw [hflows, update_of_ne (Ne.symm hns)]
      rw [← hsame]
      exact flowsOf_le_len _ _
    omega

/-- A replacement finds room once its victim is gone. -/
lemma Books.admissible_of_replace (h : t.Books)
    (hreplace : admissionLocked t.entries t.nsEntryCounts ns = .replace k) :
    (t.removeFlow k).Admissible ns := by
  obtain ⟨e, hvictim, hns | ⟨hroot, hns, hreserve, hshare, htotal⟩⟩ := h.victim_of_replace hreplace
  · rw [← hns]
    exact h.admissible_removeFlow hvictim.get
  have hlen := len_removeFlow hvictim.get
  have hflows := flowsOf_removeFlow hvictim.get
  have hlenle := h.len_le
  rw [hroot] at hflows
  constructor
  · omega
  · intro _
    rwa [hflows, update_of_ne hns]
  · intro _
    rw [hflows, update_self]
    omega

end ConntrackTable

end Nilix.Net.Ct
