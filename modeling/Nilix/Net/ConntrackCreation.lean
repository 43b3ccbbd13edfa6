import Nilix.Net.ConntrackBooks

/-!
# Connection tracking: creating flows

The sections that create flows keep the books: `create_entry`, and the reservation, the finalisation
and the rollback of an egress transaction.  They run under the creation permit.
-/

namespace Nilix.Net.Ct

open FallibleOrderedMap SortedAssoc Function Option

lemma of_installFor {K V : Type} [LinearOrder K] {m m' : AdmittedMap K V} {committed : Bool}
    {prepared : Option ℕ} (h : installFor m committed prepared = some m') :
    m'.assoc = m.assoc ∧ m'.len < m'.capacity := by
  obtain ⟨plan?, hplan, h⟩ := bind_eq_some_iff.mp h
  rcases capacityPlan_cases hplan with ⟨rfl, hle⟩ | ⟨plan, rfl, hrequired, -⟩
  · cases h
    exact ⟨rfl, hle⟩
  obtain ⟨candidate, -, h⟩ := bind_eq_some_iff.mp h
  split_ifs at h with hsmall
  obtain ⟨hassoc, hcapacity⟩ := AdmittedMap.of_installPreparedDeferred h
  have hlen := len_of_assoc hassoc
  exact ⟨hassoc, by omega⟩

/-- What a reservation adds to the drift of the statistics: a new slot is counted when it is
finalised. -/
def EgressReservation.uncounted (r : EgressReservation) : UInt32 :=
  if r.createdEntry && r.victim.isNone then -1 else 0

/-- What `create_entry` does to its own flow, which is absent: nothing, or a new entry. -/
def CreateOutcome (t : ConntrackTable) (p : Packet) (initial : CtProtoState)
    (outcome : ConntrackTable × CtUpdateResult) : Prop :=
  outcome.1.entries.get p.key = none ∧
    outcome.1.stats.entriesCreated = t.stats.entriesCreated ∧
    outcome.2.decision = .invalid ∨
  outcome.1.stats.entriesCreated = t.stats.entriesCreated + 1 ∧ outcome.2.decision = .new ∧
    ∃ e, outcome.1.entries.get p.key = some e ∧ e.state = initial ∧ e.tcpLocalHandshake = .none

namespace ConntrackTable

variable {t t' t'' : ConntrackTable} {k : FlowKey} {e : ConntrackEntry}

/-- Moving the flows or the rows to another backing. -/
lemma Keeps.rehouse (hentries : t'.entries.assoc = t.entries.assoc)
    (hcounts : t'.nsEntryCounts.assoc = t.nsEntryCounts.assoc) (hstats : t'.stats = t.stats)
    (hpermit : t'.capacityPreparing = t.capacityPreparing) : t.Keeps t' where
  books h := h.congr hentries hcounts
  tokenAt k τ hτ := by
    unfold ConntrackTable.tokenAt at *
    rwa [get_of_assoc hentries]
  drift := by
    unfold ConntrackTable.drift
    rw [len_of_assoc hentries, hstats]
  permit := hpermit

lemma Books.insert (h : t.Books) (hadmissible : t.Admissible k.netNsId)
    (hget : t.entries.get k = none) (hentries : t'.entries.assoc = t.entries.assoc.insert k e)
    (hrows : t'.nsEntryCounts.Represents 0
      (update t.flowsOf k.netNsId (t.flowsOf k.netNsId + 1))) : t'.Books := by
  have hlen := len_of_insert hget hentries
  have hflows : t'.flowsOf = update t.flowsOf k.netNsId (t.flowsOf k.netNsId + 1) := by
    funext ns
    have hinsert : t'.flowsOf ns = t.flowsOf ns + if k.netNsId = ns then 1 else 0 := by
      unfold flowsOf
      rw [hentries, countKeys_insert _ hget]
    by_cases hns : ns = k.netNsId
    · subst hns
      rw [hinsert, if_pos rfl, update_self]
    · rw [hinsert, if_neg (Ne.symm hns), update_of_ne hns, add_zero]
  constructor
  · rw [hflows]
    exact hrows
  · rw [hlen]
    exact hadmissible.len_lt
  · intro ns hns
    rw [hflows]
    by_cases hk : ns = k.netNsId
    · subst hk
      rw [update_self]
      exact hadmissible.share_lt hns
    rw [update_of_ne hk]
    exact h.share ns hns
  · have htenants := h.tenants
    rw [hflows, hlen]
    by_cases hroot : ctRootNs = k.netNsId
    · rw [hroot, update_self]
      rw [hroot] at htenants
      omega
    have hlt := hadmissible.tenants_lt (Ne.symm hroot)
    rw [update_of_ne hroot]
    omega

variable {k' : FlowKey} {entries : Entries}

/-- A new flow does not touch the tokens that are held. -/
lemma tokenAt_of_insert (hget : t.entries.get k = none)
    (hentries : t'.entries.assoc = t.entries.assoc.insert k e) {τ : ℕ} (hτ : t.tokenAt k' = some τ) :
    t'.tokenAt k' = some τ := by
  unfold ConntrackTable.tokenAt at *
  have hk : k' ≠ k := fun hk => by simp [hk, hget] at hτ
  rw [get_of_insert_of_ne hentries hk]
  exact hτ

lemma tokenAt_of_insert_self (hentries : t'.entries.assoc = t.entries.assoc.insert k e) :
    t'.tokenAt k = e.pendingEgress.map PendingEgress.token := by
  unfold ConntrackTable.tokenAt
  rw [get_of_insert hentries]
  rfl

lemma Books.flowsOf_lt (h : t.Books) (ns : ℕ) : t.flowsOf ns + 1 ≤ usizeMax := by
  have hle := t.flowsOf_le_len ns
  have hlen := h.len_le
  have hmax : ctMaxEntries + 1 ≤ usizeMax := by decide
  omega

/-! ## `create_entry` -/

/-- A flow that an admission for a namespace may remove. -/
structure Evictable (t : ConntrackTable) (ns : ℕ) (k : FlowKey) (e : ConntrackEntry) : Prop where
  /-- It is a flow of the namespace, or a root flow beyond the reserve. -/
  scope : k.netNsId = ns ∨ k.netNsId = ctRootNs ∧ ctRootReserve < t.flowsOf ctRootNs
  /-- A TCP flow is replaceable. -/
  replaceable : ∀ s, e.state = .tcp s → e.replaceable = true
  /-- No egress transaction holds it. -/
  pending : e.pendingEgress = none

variable {p : Packet} {initial : CtProtoState} {ns : ℕ}

lemma Victim.evictable (h : t.Victim k.netNsId k e)
    (hscope : k.netNsId = ns ∨ k.netNsId = ctRootNs ∧ ctRootReserve < t.flowsOf ctRootNs) :
    t.Evictable ns k e := by
  refine ⟨hscope, fun s hs => h.replaceable ?_, h.pending⟩
  rw [hs]
  rfl

/-- What may be removed from a table may be removed while root holds more flows. -/
lemma Evictable.mono (h : t'.Evictable ns k e) (hflows : t'.flowsOf ctRootNs ≤ t.flowsOf ctRootNs) :
    t.Evictable ns k e :=
  ⟨h.scope.imp_right (And.imp_right fun hlt => hlt.trans_le hflows), h.replaceable, h.pending⟩

/-- Creating a flow that is absent keeps the books, changes no other flow but one that admission may
remove, and leaves the flow absent or new. -/
structure Creates (t : ConntrackTable) (p : Packet) (initial : CtProtoState)
    (outcome : ConntrackTable × CtUpdateResult) : Prop where
  keeps : t.Keeps outcome.1
  other : ∀ k, k ≠ p.key → outcome.1.entries.get k = t.entries.get k ∨
    outcome.1.entries.get k = none ∧ ∃ e, t.entries.get k = some e ∧ t.Evictable p.key.netNsId k e
  own : CreateOutcome t p initial outcome

lemma creates_reject (hget : t.entries.get p.key = none) :
    t.Creates p initial (t.insertFailed, resourceRejection p.dir) :=
  ⟨(calm_insertFailed t).toKeeps, fun _ _ => .inl rfl, .inl ⟨hget, rfl, rfl⟩⟩

/-- A creation after a section that removes at most one flow, which may be removed. -/
lemma Creates.of_before {outcome : ConntrackTable × CtUpdateResult}
    (h : t'.Creates p initial outcome) (hkeeps : t.Keeps t')
    (hother : ∀ k, k ≠ p.key → t'.entries.get k = t.entries.get k ∨
      t'.entries.get k = none ∧ ∃ e, t.entries.get k = some e ∧ t.Evictable p.key.netNsId k e)
    (hflows : t'.flowsOf ctRootNs ≤ t.flowsOf ctRootNs)
    (hcreated : t'.stats.entriesCreated = t.stats.entriesCreated) :
    t.Creates p initial outcome where
  keeps := hkeeps.trans h.keeps
  other k hk := by
    rcases h.other k hk with hsame | ⟨hnone, e, he, hevictable⟩
    · rw [hsame]
      exact hother k hk
    refine .inr ⟨hnone, ?_⟩
    rcases hother k hk with hsame | ⟨-, hremoved⟩
    · exact ⟨e, hsame.symm.trans he, hevictable.mono hflows⟩
    · exact hremoved
  own := by
    have hown := h.own
    unfold CreateOutcome at *
    rwa [hcreated] at hown

lemma flowsOf_removeFlow_le (hget : t.entries.get k = some e) (ns : ℕ) :
    (t.removeFlow k).flowsOf ns ≤ t.flowsOf ns := by
  rw [flowsOf_removeFlow hget, update_apply]
  split_ifs with hns
  · rw [hns]
    exact Nat.sub_le _ _
  · exact le_rfl

lemma creates_createCharge (hget : t.entries.get p.key = none)
    (hentries : t'.entries.assoc = t.entries.assoc.insert p.key e) (hstate : e.state = initial)
    (hlocal : e.tcpLocalHandshake = .none) (hcounts : t'.nsEntryCounts = t.nsEntryCounts)
    (hstats : t'.stats = t.stats) (hpermit : t'.capacityPreparing = t.capacityPreparing)
    (hroom : t.nsEntryCounts.RoomFor p.key.netNsId)
    (hadmissible : t.Books → t.Admissible p.key.netNsId) :
    t.Creates p initial (t'.createCharge p initial) := by
  -- Whatever the counts become, the flow and the statistics are those of a creation.
  have hpublish : ∀ counts : NsCounts, (t.Books → counts.Represents 0
      (update t.flowsOf p.key.netNsId (t.flowsOf p.key.netNsId + 1))) →
      t.Creates p initial ({ t' with nsEntryCounts := counts, stats := t'.stats.noteCreated },
        ⟨.new, initial, p.dir, false⟩) := by
    intro counts hrep
    refine ⟨⟨fun hbooks => hbooks.insert (hadmissible hbooks) hget hentries (hrep hbooks),
      fun _ _ => tokenAt_of_insert hget hentries, ?_, hpermit⟩,
      fun k hk => .inl (get_of_insert_of_ne hentries hk),
      .inr ⟨congrArg (·.entriesCreated + 1) hstats, rfl, e, get_of_insert hentries, hstate, hlocal⟩⟩
    unfold ConntrackTable.drift ConntrackStats.noteCreated
    rw [len_of_insert hget hentries, hstats, UInt32.ofNat_add]
    exact add_sub_add_right_eq_sub _ _ _
  unfold createCharge
  dsimp only
  rw [hcounts]
  cases hrow : t.nsEntryCounts.get p.key.netNsId with
  | some count =>
    refine hpublish _ fun hbooks => ?_
    have hne : t.flowsOf p.key.netNsId ≠ 0 := fun hzero => by
      simp [hbooks.rows.get_eq_none_iff.mpr hzero] at hrow
    obtain rfl : t.flowsOf p.key.netNsId = count :=
      some.inj ((hbooks.rows.get_eq_some hne).symm.trans hrow)
    exact hbooks.rows.modify hne (Nat.succ_ne_zero _)
  | none =>
    obtain ⟨counts, hinsert, hassoc, -⟩ :=
      insertUniqueReserved_eq_some hrow (hroom hrow) 1
    dsimp only
    rw [hinsert]
    refine hpublish counts fun hbooks => ?_
    rw [hbooks.rows.get_eq_none_iff.mp hrow]
    exact hbooks.rows.insert hassoc one_ne_zero

/-- The insertion of a flow that is absent, admissible and has room for its row. -/
lemma creates_createInsert (hget : t.entries.get p.key = none)
    (hroom : t.nsEntryCounts.RoomFor p.key.netNsId)
    (hadmissible : t.Books → t.Admissible p.key.netNsId) (initial : CtProtoState) (committed : Bool)
    (prepared : Option ℕ) : t.Creates p initial (t.createInsert p initial committed prepared) := by
  unfold createInsert
  split_ifs with hfull
  · exact creates_reject hget
  cases hinstall : installFor t.entries committed prepared with
  | none => exact creates_reject hget
  | some =>
    obtain ⟨hassoc, hspace⟩ := of_installFor hinstall
    have hget' := (get_of_assoc hassoc p.key).trans hget
    obtain ⟨entries', hinsert, hassoc', -⟩ :=
      insertUniqueReserved_eq_some hget' hspace
        ((ConntrackEntry.new p.key initial p.nowMs p.dir).updateStats .original p.l4.payloadLen
          p.nowMs)
    rw [hassoc] at hassoc'
    dsimp only
    rw [hinsert]
    exact creates_createCharge hget hassoc' rfl rfl rfl rfl rfl hroom hadmissible

lemma calm_evictVictimLocked (hvictim : t.Victim ns k e) :
    ∃ t', t.evictVictimLocked k = some t' ∧ t.Calm t' ∧ t'.entries = (t.removeFlow k).entries ∧
      t'.stats.entriesCreated = t.stats.entriesCreated := by
  unfold evictVictimLocked
  rw [hvictim.get]
  exact ⟨_, rfl, (sheds_removeFlow hvictim.get hvictim.pending).calm rfl, rfl, rfl⟩

/-- Only the flows and their number per namespace matter to admissibility. -/
lemma Admissible.congr (h : t.Admissible ns) (hentries : t'.entries.assoc = t.entries.assoc) :
    t'.Admissible ns := by
  have hflows := flowsOf_of_assoc hentries
  have hlen := len_of_assoc hentries
  refine ⟨?_, ?_, ?_⟩
  · rw [hlen]
    exact h.len_lt
  · rw [hflows]
    exact h.share_lt
  · rw [hflows, hlen]
    exact h.tenants_lt

variable {committed : Bool} {counts : NsCounts} {prepared : Option ℕ}

lemma of_installRow {counts' : NsCounts}
    (h : installRow counts ns committed prepared = some counts') :
    counts'.assoc = counts.assoc ∧ counts'.RoomFor ns := by
  unfold installRow at h
  split_ifs at h with hrow
  · cases h
    exact ⟨rfl, fun hnone => by simp [hnone] at hrow⟩
  obtain ⟨hassoc, hspace⟩ := of_installFor h
  exact ⟨hassoc, fun _ => hspace⟩

/-- Admission, eviction and insertion of a flow that is absent. -/
lemma creates_createAdmit (hbooks : t.Books) (hget : t.entries.get p.key = none)
    (initial : CtProtoState) (entryCommitted nsCommitted : Bool)
    (preparedEntries preparedNs : Option ℕ) :
    t.Creates p initial
      (t.createAdmit p initial entryCommitted nsCommitted preparedEntries preparedNs) := by
  unfold createAdmit
  dsimp only
  split_ifs with hfull
  · exact creates_reject hget
  split
  · exact creates_reject hget
  rename_i counts hrow
  obtain ⟨hassoc, hroom⟩ := of_installRow hrow
  have hhouse : t.Keeps { t with nsEntryCounts := counts } :=
    Keeps.rehouse rfl hassoc rfl rfl
  cases hadmission : admissionLocked t.entries t.nsEntryCounts p.key.netNsId with
  | full => exact absurd hadmission hfull
  | free =>
    have hadmissible := hbooks.admissible_of_free hadmission
    exact (creates_createInsert (t := { t with nsEntryCounts := counts }) hget hroom
      (fun _ => hadmissible.congr rfl) _ _ _).of_before hhouse (fun _ _ => .inl rfl) le_rfl rfl
  | replace victim =>
    obtain ⟨e, hvictim, hscope⟩ := hbooks.victim_of_replace hadmission
    have hadmissible := hbooks.admissible_of_replace hadmission
    have hvictim' : { t with nsEntryCounts := counts }.Victim victim.netNsId victim e :=
      { hvictim with }
    obtain ⟨t1, hevict, hcalm, hentries, hcreated⟩ := calm_evictVictimLocked hvictim'
    dsimp only
    rw [hevict]
    have hflows : t1.flowsOf = (t.removeFlow victim).flowsOf :=
      flowsOf_of_assoc (congrArg (·.assoc) hentries)
    refine (creates_createInsert (hcalm.absent _ hget) (hcalm.room _ hroom)
      (fun _ => hadmissible.congr ?_) _ _ _).of_before (hhouse.trans hcalm.toKeeps) (fun k _ => ?_)
      (hflows ▸ flowsOf_removeFlow_le hvictim.get ctRootNs) hcreated
    · rw [hentries]
      rfl
    rw [hentries]
    by_cases hk : k = victim
    · subst hk
      exact .inr ⟨get_remove_self _ _, e, hvictim.get,
        hvictim.evictable (hscope.imp_right fun hroot => ⟨hroot.1, hroot.2.2.1⟩)⟩
    · exact .inl (get_remove_of_ne hk)

/-- What the write-locked section of `create_entry` comes to: the flow waits for a queued packet, it
is there, or it is created because it is absent or expired. -/
inductive Published (t : ConntrackTable) (p : Packet) (initial : CtProtoState) :
    ConntrackTable × CtUpdateResult → Prop
  | waiting {result : CtUpdateResult} (hinvalid : result.decision = .invalid) :
      Published t p initial (t, result)
  | update {entry : ConntrackEntry} (hget : t.entries.get p.key = some entry)
      (hpending : entry.pendingEgress = none) : Published t p initial (t.ingressUpdate p entry)
  | create {outcome : ConntrackTable × CtUpdateResult} (hown : ∀ e, t.entries.get p.key = some e →
      e.pendingEgress = none ∧ e.isExpired p.nowMs = true) (h : t.Creates p initial outcome) :
      Published t p initial outcome

lemma published_createPublish (hbooks : t.Books) (p : Packet) (initial : CtProtoState)
    (entryCommitted nsCommitted : Bool) (preparedEntries preparedNs : Option ℕ) :
    t.Published p initial
      (t.createPublish p initial entryCommitted nsCommitted preparedEntries preparedNs) := by
  unfold createPublish
  cases hget : t.entries.get p.key with
  | none =>
    exact .create (fun e he => nomatch hget.symm.trans he) (creates_createAdmit hbooks hget _ _ _ _ _)
  | some =>
    dsimp only
    split_ifs with hpending hexpired
    · exact .waiting rfl
    · rw [not_isSome_iff_eq_none] at hpending
      have hcalm : t.Calm { t.removeFlow p.key with
          stats := (t.removeFlow p.key).stats.noteTimedOut 1 } :=
        (sheds_removeFlow hget hpending).calm rfl
      refine .create (fun e he => some.inj (hget.symm.trans he) ▸ ⟨hpending, hexpired⟩)
        ((creates_createAdmit (hcalm.books hbooks) (get_remove_self _ _) _ _ _ _ _).of_before
          hcalm.toKeeps (fun k hk => .inl (get_remove_of_ne hk)) ?_ rfl)
      exact flowsOf_removeFlow_le hget ctRootNs
    · exact .update hget (not_isSome_iff_eq_none.mp hpending)

lemma keeps_createPublish (hbooks : t.Books) (p : Packet) (initial : CtProtoState)
    (entryCommitted nsCommitted : Bool) (preparedEntries preparedNs : Option ℕ) :
    t.Keeps (t.createPublish p initial entryCommitted nsCommitted preparedEntries
      preparedNs).1 := by
  have h := published_createPublish hbooks p initial entryCommitted nsCommitted preparedEntries
    preparedNs
  generalize t.createPublish p initial _ _ _ _ = outcome at h ⊢
  cases h with
  | waiting => exact (Calm.refl t).toKeeps
  | update => exact (calm_ingressUpdate t p _).toKeeps
  | create hown hcreates => exact hcreates.keeps

/-! ## Reservations -/

/-- What a reservation counts on until it is settled. -/
structure Flight (t : ConntrackTable) (permit : Bool) (r : EgressReservation) : Prop where
  /-- Its flow is there and holds its token. -/
  token : t.tokenAt r.key = some r.token
  /-- Only the holder of the permit creates flows. -/
  created : r.createdEntry = true → permit = true
  /-- The flow it replaced can be put back: its key is free, and so is room for its row. -/
  victim : ∀ v, r.victim = some v → r.createdEntry = true ∧
    (v.key ≠ r.key → t.entries.get v.key = none) ∧
    (v.key.netNsId = r.key.netNsId ∨
      v.key.netNsId = ctRootNs ∧ t.nsEntryCounts.RoomFor v.key.netNsId)

variable {permit : Bool} {r : EgressReservation}

/-- A reservation of a flow that was there counts on its token alone. -/
lemma Flight.of_existing (htoken : t.tokenAt r.key = some r.token)
    (hcreated : r.createdEntry = false) (hvictim : r.victim = none) : t.Flight permit r where
  token := htoken
  created h := nomatch hcreated.symm.trans h
  victim _ hv := nomatch hvictim.symm.trans hv

lemma Flight.createdEntry_eq_false (h : t.Flight permit r) (hpermit : permit = false) :
    r.createdEntry = false :=
  Bool.eq_false_iff.mpr fun hcreated => nomatch hpermit.symm.trans (h.created hcreated)

/-- Without the permit there is no new flow to count. -/
lemma Flight.uncounted_eq_zero (h : t.Flight permit r) (hpermit : permit = false) :
    r.uncounted = 0 := by
  unfold EgressReservation.uncounted
  rw [h.createdEntry_eq_false hpermit]
  rfl

/-- What making a reservation leaves. -/
structure Reserves (t t' : ConntrackTable) (key : FlowKey) (token : ℕ) (permit : Bool)
    (r : EgressReservation) : Prop where
  key : r.key = key
  token : r.token = token
  books : t'.Books
  flight : t'.Flight permit r
  tokenAt : ∀ k τ, t.tokenAt k = some τ → t'.tokenAt k = some τ
  drift : t'.drift = t.drift + r.uncounted
  permit : t'.capacityPreparing = t.capacityPreparing
  calm : r.createdEntry = false → t.Calm t'

/-- A flow that may be detached for a new flow. -/
structure Detaches (t : ConntrackTable) (key victim : FlowKey) (e : ConntrackEntry) : Prop where
  get : t.entries.get victim = some e
  pending : e.pendingEgress = none
  free : victim ≠ key → t.entries.get key = none
  scope : victim.netNsId = key.netNsId ∨ victim.netNsId = ctRootNs ∧ key.netNsId ≠ ctRootNs ∧
    ctRootReserve < t.flowsOf ctRootNs
  admissible : (t.removeFlow victim).Admissible key.netNsId
  evictable : victim ≠ key → t.Evictable key.netNsId victim e

/-- What a reservation does to the flows: it waits on a live one, or it adds its own, in a slot of its
own or in that of a flow it detaches. -/
inductive ReservesFlow (t t' : ConntrackTable) (p : Packet) (token : ℕ) :
    EgressReservation → Prop
  | existing (e : ConntrackEntry) (hget : t.entries.get p.key = some e)
      (hpending : e.pendingEgress = none)
      (hentries : t'.entries =
        t.entries.modify p.key (ConntrackEntry.withPending (egressPending e p token))) :
      ReservesFlow t t' p token ⟨p.key, p.dir, token, false, none⟩
  | free (initial : CtProtoState) (hinitial : initialState p.proto p.l4 = some initial)
      (hget : t.entries.get p.key = none)
      (hentries : t'.entries.assoc =
        t.entries.assoc.insert p.key (provisionalEntry p token initial)) :
      ReservesFlow t t' p token ⟨p.key, p.dir, token, true, none⟩
  | detach (initial : CtProtoState) (hinitial : initialState p.proto p.l4 = some initial)
      (victim : FlowKey) (e : ConntrackEntry) (kind : EgressVictimKind)
      (hdetach : t.Detaches p.key victim e)
      (hentries : t'.entries.assoc =
        (t.entries.remove victim).assoc.insert p.key (provisionalEntry p token initial)) :
      ReservesFlow t t' p token ⟨p.key, p.dir, token, true, some ⟨victim, e, kind⟩⟩

/-- What the locked section of a transaction leaves: it ends without a lost state and with the flows
as they were, or it made a reservation. -/
def ReserveSpec {E : Type} (t : ConntrackTable) (p : Packet) (token : ℕ) (permit : Bool) :
    ConntrackTable × Reserved E → Prop
  | (t', .error result) =>
    t.Keeps t' ∧ (permit = false → t.Calm t') ∧ (∀ queued, result ≠ .stateLost queued) ∧
      t'.entries.assoc = t.entries.assoc
  | (t', .ok r) => t.Reserves t' p.key token permit r ∧ t.ReservesFlow t' p token r

variable {E : Type} {token : ℕ}

/-- A rejection that leaves the maps as they were. -/
lemma reserveSpec_reject (p : Packet) : ReserveSpec (E := E) t p token permit (t.rejectEgress p) :=
  ⟨(calm_insertFailed t).toKeeps, fun _ => calm_insertFailed t, fun _ => nofun, rfl⟩

/-- A rejection by the holder of the permit, after capacity was installed. -/
lemma reserveSpec_reject_of_keeps (p : Packet) (h : t.Keeps t')
    (hentries : t'.entries.assoc = t.entries.assoc) :
    ReserveSpec (E := E) t p token true (t'.rejectEgress p) :=
  ⟨h.trans (calm_insertFailed t').toKeeps, nofun, fun _ => nofun, hentries⟩

lemma reserveSpec_reserveExisting (hbooks : t.Books) (hget : t.entries.get p.key = some e)
    (hpending : e.pendingEgress = none) (token : ℕ) (permit : Bool) :
    ReserveSpec (E := E) t p token permit (t.reserveExisting p token e) := by
  unfold reserveExisting
  dsimp only
  split_ifs
  · exact ⟨(calm_invalidTransition t).toKeeps, fun _ => calm_invalidTransition t, fun _ => nofun,
      rfl⟩
  have hnone : t.tokenAt p.key = none := by
    unfold ConntrackTable.tokenAt
    rw [hget, bind_some, hpending]
    rfl
  refine ⟨?_, .existing e hget hpending rfl⟩
  have hown : (egressPending e p token).token = token := rfl
  generalize egressPending e p token = pending at hown ⊢
  have htoken : ∀ k τ, t.tokenAt k = some τ →
      (t.modifyEntry p.key (ConntrackEntry.withPending pending)).tokenAt k = some τ := by
    intro k τ hτ
    have hk : k ≠ p.key := fun hk => by simp [hk, hnone] at hτ
    rw [← hτ]
    unfold ConntrackTable.tokenAt modifyEntry
    rw [get_modify_of_ne hk]
  refine ⟨rfl, rfl, books_modifyEntry hbooks, Flight.of_existing ?_ rfl rfl, htoken, ?_, rfl,
    fun _ => ?_⟩
  · unfold ConntrackTable.tokenAt modifyEntry
    rw [get_modify_self, hget, ← hown]
    rfl
  · rw [drift_modifyEntry]
    exact (add_zero _).symm
  · exact ⟨⟨books_modifyEntry, htoken, drift_modifyEntry, rfl⟩, absent_modifyEntry, fun _ => id⟩

/-- The plan of a new flow: a slot of its own, or that of a flow that may be detached. -/
lemma of_victimPlan (hbooks : t.Books) {replacingExpired : Bool}
    (habsent : replacingExpired = false → t.entries.get k = none)
    (hexpired : replacingExpired = true → ∃ e, t.entries.get k = some e ∧ e.pendingEgress = none)
    {plan : Option (FlowKey × EgressVictimKind)} (h : t.victimPlan k replacingExpired = some plan) :
    (plan = none ∧ t.entries.get k = none ∧ t.Admissible k.netNsId) ∨
      ∃ victim kind e, plan = some (victim, kind) ∧ t.Detaches k victim e := by
  unfold victimPlan at h
  split_ifs at h with hreplacing
  · cases h
    obtain ⟨e, hget, hpending⟩ := hexpired hreplacing
    exact .inr ⟨k, .expired, e, rfl, hget, hpending, fun hne => absurd rfl hne, .inl rfl,
      hbooks.admissible_removeFlow hget, fun hne => absurd rfl hne⟩
  have hget := habsent (Bool.eq_false_of_not_eq_true hreplacing)
  cases hadmission : admissionLocked t.entries t.nsEntryCounts k.netNsId with
  | free =>
    rw [hadmission] at h
    exact .inl ⟨(some.inj h).symm, hget, hbooks.admissible_of_free hadmission⟩
  | replace victim =>
    rw [hadmission] at h
    obtain ⟨e, hvictim, hscope⟩ := hbooks.victim_of_replace hadmission
    refine .inr ⟨victim, .evicted, e, (some.inj h).symm, hvictim.get, hvictim.pending,
      fun _ => hget, ?_, hbooks.admissible_of_replace hadmission, fun _ => hvictim.evictable ?_⟩
    · exact hscope.imp_right fun hroot => ⟨hroot.1, hroot.2.1, hroot.2.2.1⟩
    · exact hscope.imp_right fun hroot => ⟨hroot.1, hroot.2.2.1⟩
  | full =>
    rw [hadmission] at h
    cases h

lemma reserveCharge_eq (victim : Option DetachedEgressVictim)
    (h : publishCounts t.nsEntryCounts p.key.netNsId
      (victim.map fun v => v.key.netNsId) = (counts, true)) :
    (t.reserveCharge p token victim : ConntrackTable × Reserved E) =
      ({ t with nsEntryCounts := counts }, .ok ⟨p.key, p.dir, token, true, victim⟩) := by
  unfold reserveCharge
  dsimp only
  rw [h]

lemma token_provisionalEntry (p : Packet) (token : ℕ) (initial : CtProtoState) :
    (provisionalEntry p token initial).pendingEgress.map PendingEgress.token = some token := rfl

lemma reserves_free (hbooks : t.Books) (hget : t.entries.get p.key = none)
    (hadmissible : t.Admissible p.key.netNsId)
    (hentries : t'.entries.assoc = t.entries.assoc.insert p.key e)
    (htoken : e.pendingEgress.map PendingEgress.token = some token)
    (hrows : t'.nsEntryCounts.Represents 0
      (update t.flowsOf p.key.netNsId (t.flowsOf p.key.netNsId + 1)))
    (hstats : t'.stats = t.stats) (hpermit : t'.capacityPreparing = t.capacityPreparing) :
    t.Reserves t' p.key token true ⟨p.key, p.dir, token, true, none⟩ where
  key := rfl
  token := rfl
  books := hbooks.insert hadmissible hget hentries hrows
  flight := ⟨(tokenAt_of_insert_self hentries).trans htoken, fun _ => rfl,
    fun _ hv => absurd hv nofun⟩
  tokenAt _ _ := tokenAt_of_insert hget hentries
  drift := by
    have huncounted : (⟨p.key, p.dir, token, true, none⟩ : EgressReservation).uncounted = -1 := rfl
    rw [huncounted]
    unfold ConntrackTable.drift
    rw [len_of_insert hget hentries, hstats, UInt32.ofNat_add, ← sub_sub]
    exact sub_eq_add_neg _ _
  permit := hpermit
  calm h := absurd h nofun

variable {e0 : ConntrackEntry} {victim : FlowKey}

lemma reserves_detach (hbooks : t.Books) (hdetach : t.Detaches p.key victim e0)
    (kind : EgressVictimKind)
    (hentries : t'.entries.assoc = (t.entries.remove victim).assoc.insert p.key e)
    (htoken : e.pendingEgress.map PendingEgress.token = some token)
    (hrows : t'.nsEntryCounts.Represents 0 (update (t.removeFlow victim).flowsOf
      p.key.netNsId ((t.removeFlow victim).flowsOf p.key.netNsId + 1)))
    (hstats : t'.stats = t.stats) (hpermit : t'.capacityPreparing = t.capacityPreparing) :
    t.Reserves t' p.key token true ⟨p.key, p.dir, token, true, some ⟨victim, e0, kind⟩⟩ := by
  have hsheds := sheds_removeFlow hdetach.get hdetach.pending
  have hfree : (t.removeFlow victim).entries.get p.key = none :=
    get_remove_eq_none fun hvictim => hdetach.free (Ne.symm hvictim)
  have hown : t'.tokenAt p.key = some token :=
    (tokenAt_of_insert_self (t := t.removeFlow victim) hentries).trans htoken
  refine ⟨rfl, rfl, (hsheds.books hbooks).insert hdetach.admissible hfree hentries hrows,
    ⟨hown, fun _ => rfl, ?_⟩, ?_, ?_, hpermit, nofun⟩
  · intro v hv
    cases hv
    refine ⟨rfl, fun hne => ?_, ?_⟩
    · exact (get_of_insert_of_ne hentries hne).trans (get_remove_self _ _)
    refine hdetach.scope.imp_right fun ⟨hroot, hns, hreserve⟩ => ⟨hroot, ?_⟩
    refine Represents.room_of_ne_zero hrows ?_
    rw [hroot, update_of_ne (Ne.symm hns), flowsOf_removeFlow hdetach.get, hroot, update_self]
    have hone := one_le_ctRootReserve
    omega
  · intro k τ hτ
    have hcalm := hsheds.calm (s := (t.removeFlow victim).stats.noteRemoved 1) rfl
    exact tokenAt_of_insert hfree hentries (hcalm.tokenAt k τ hτ)
  · have hlen : t'.entries.len = t.entries.len :=
      (len_of_insert hfree hentries).trans (len_removeFlow hdetach.get)
    unfold ConntrackTable.drift
    rw [hlen, hstats]
    exact (add_zero _).symm

/-- The counts of a new flow in the place of a detached one. -/
lemma publishCounts_detach (hbooks : t.Books) (hdetach : t.Detaches k victim e0)
    (hcounts : counts.assoc = t.nsEntryCounts.assoc)
    (hroom : victimFreesNsRow t.nsEntryCounts (some victim) = false → counts.RoomFor k.netNsId) :
    ∃ counts', publishCounts counts k.netNsId (some victim.netNsId) = (counts', true) ∧
      counts'.Represents 0 (update (t.removeFlow victim).flowsOf k.netNsId
        ((t.removeFlow victim).flowsOf k.netNsId + 1)) := by
  have hrows := hbooks.rows.of_assoc hcounts
  have hpos : 0 < t.flowsOf victim.netNsId := countKeys_pos _ hdetach.get rfl
  rw [flowsOf_removeFlow hdetach.get]
  rcases hdetach.scope with hsame | ⟨hroot, hns, hreserve⟩
  · rw [hsame] at hpos ⊢
    refine ⟨counts, publishCounts_same hrows hpos.ne', ?_⟩
    rw [update_self, update_idem, Nat.sub_add_cancel hpos, update_eq_self]
    exact hrows
  have hother : victim.netNsId ≠ k.netNsId := fun heq => hns (heq.symm.trans hroot)
  have hmany : 1 < t.flowsOf victim.netNsId := by
    rw [hroot]
    have hone := one_le_ctRootReserve
    omega
  have hkept : victimFreesNsRow t.nsEntryCounts (some victim) = false := by
    unfold victimFreesNsRow
    rw [bind_some, hbooks.rows.get_eq_some hpos.ne', map_some, getD_some]
    exact decide_eq_false hmany.ne'
  obtain ⟨counts', hpublish, hrep⟩ :=
    publishCounts_other hrows hother hmany (hroom hkept) (hbooks.flowsOf_lt _)
  refine ⟨counts', hpublish, ?_⟩
  rw [update_of_ne (Ne.symm hother), update_comm hother]
  exact hrep

/-- Installed capacity for a row, where no victim frees one. -/
lemma of_installEgressRow {counts' : NsCounts} {victim : Option FlowKey}
    (h : installEgressRow counts k victim committed prepared = some counts') :
    counts'.assoc = counts.assoc ∧
      (victimFreesNsRow counts victim = false → counts'.RoomFor k.netNsId) := by
  unfold installEgressRow at h
  split_ifs at h with hcond
  · obtain ⟨hassoc, hspace⟩ := of_installFor h
    exact ⟨hassoc, fun _ _ => hspace⟩
  cases h
  refine ⟨rfl, fun hkept hnone => ?_⟩
  rw [hkept, containsKey_eq_false_iff.mpr hnone] at hcond
  exact absurd rfl hcond

lemma reserveSpec_free {u : ConntrackTable} (hbooks : t.Books) (hget : t.entries.get p.key = none)
    (hadmissible : t.Admissible p.key.netNsId) (hentries : u.entries.assoc = t.entries.assoc)
    (hspace : u.entries.len < u.entries.capacity)
    (hcounts : u.nsEntryCounts.assoc = t.nsEntryCounts.assoc)
    (hroom : u.nsEntryCounts.RoomFor p.key.netNsId) (hstats : u.stats = t.stats)
    (hpermit : u.capacityPreparing = t.capacityPreparing) (token : ℕ) {initial : CtProtoState}
    (hinitial : initialState p.proto p.l4 = some initial) :
    ReserveSpec (E := E) t p token true (u.reserveDetach p token initial none) := by
  have hget' := (get_of_assoc hentries p.key).trans hget
  obtain ⟨entries, hinsert, hassoc, -⟩ := insertUniqueReserved_eq_some hget'
    hspace (provisionalEntry p token initial)
  obtain ⟨counts, hpublish, hrep⟩ := publishCounts_free (hbooks.rows.of_assoc hcounts) hroom
    (hbooks.flowsOf_lt _)
  rw [hentries] at hassoc
  unfold reserveDetach reserveInsert
  rw [hinsert]
  dsimp only
  rw [reserveCharge_eq (t := { u with entries := entries }) none hpublish]
  exact ⟨reserves_free hbooks hget hadmissible hassoc (token_provisionalEntry p token initial) hrep
    hstats hpermit, .free initial hinitial hget hassoc⟩

lemma reserveSpec_detach (hbooks : t.Books) (hdetach : t.Detaches p.key victim e0)
    (kind : EgressVictimKind) (hcounts : counts.assoc = t.nsEntryCounts.assoc)
    (hroom : victimFreesNsRow t.nsEntryCounts (some victim) = false → counts.RoomFor p.key.netNsId)
    (token : ℕ) {initial : CtProtoState} (hinitial : initialState p.proto p.l4 = some initial) :
    ReserveSpec (E := E) t p token true
      ({ t with nsEntryCounts := counts }.reserveDetach p token initial (some (victim, kind))) := by
  have hfree : (t.entries.remove victim).get p.key = none :=
    get_remove_eq_none fun hvictim => hdetach.free (Ne.symm hvictim)
  obtain ⟨entries, hinsert, hassoc, -⟩ := insertUniqueReserved_eq_some hfree
    (lt_capacity_of_remove hdetach.get) (provisionalEntry p token initial)
  obtain ⟨counts', hpublish, hrep⟩ := publishCounts_detach hbooks hdetach hcounts hroom
  unfold reserveDetach
  dsimp only
  rw [hdetach.get]
  unfold reserveInsert
  rw [hinsert]
  dsimp only
  rw [reserveCharge_eq (t := ⟨entries, counts, t.capacityPreparing, t.stats⟩)
    (some ⟨victim, e0, kind⟩) hpublish]
  exact ⟨reserves_detach hbooks hdetach kind hassoc (token_provisionalEntry p token initial) hrep
    rfl rfl, .detach initial hinitial victim e0 kind hdetach hassoc⟩

/-- Installed capacity for a flow, where it takes no victim's place. -/
lemma of_installSlot {entries entries' : Entries} {victim : Option FlowKey}
    (h : installSlot entries victim committed prepared = some entries') :
    entries'.assoc = entries.assoc ∧ (victim = none → entries'.len < entries'.capacity) ∧
      (victim ≠ none → entries' = entries) := by
  unfold installSlot at h
  split_ifs at h with hnone
  · rw [isNone_iff_eq_none] at hnone
    obtain ⟨hassoc, hspace⟩ := of_installFor h
    exact ⟨hassoc, fun _ => hspace, fun hsome => absurd hnone hsome⟩
  cases h
  exact ⟨rfl, fun heq => absurd (heq ▸ rfl) hnone, fun _ => rfl⟩

lemma reserveSpec_reserveNew (hbooks : t.Books) {replacingExpired : Bool}
    (habsent : replacingExpired = false → t.entries.get p.key = none)
    (hexpired : replacingExpired = true →
      ∃ e, t.entries.get p.key = some e ∧ e.pendingEgress = none) (token : ℕ)
    (permit entryCommitted nsCommitted : Bool) (preparedEntries preparedNs : Option ℕ) :
    ReserveSpec (E := E) t p token permit (t.reserveNew p token replacingExpired permit
      entryCommitted nsCommitted preparedEntries preparedNs) := by
  unfold reserveNew
  split
  · exact ⟨(calm_invalidTransition t).toKeeps, fun _ => calm_invalidTransition t, fun _ => nofun,
      rfl⟩
  rename_i initial hinitial
  cases hplan : t.victimPlan p.key replacingExpired with
  | none => exact reserveSpec_reject p
  | some =>
    dsimp only
    split_ifs with hshare hpermit
    · exact reserveSpec_reject p
    · exact reserveSpec_reject p
    · obtain rfl : permit = true := by simpa using hpermit
      split
      · exact reserveSpec_reject p
      rename_i entries hslot
      obtain ⟨hassoc, hspace, hsame⟩ := of_installSlot hslot
      have hhouse : t.Keeps { t with entries := entries } := .rehouse hassoc rfl rfl rfl
      split
      · exact reserveSpec_reject_of_keeps p hhouse hassoc
      rename_i counts hrow
      obtain ⟨hcounts, hroom⟩ := of_installEgressRow hrow
      rcases of_victimPlan hbooks habsent hexpired hplan with
        ⟨rfl, hget, hadmissible⟩ | ⟨victim, kind, e0, rfl, hdetach⟩
      · exact reserveSpec_free (u := ⟨entries, counts, t.capacityPreparing, t.stats⟩) hbooks hget
          hadmissible hassoc (hspace rfl) hcounts (hroom rfl) rfl rfl token hinitial
      obtain rfl := hsame nofun
      exact reserveSpec_detach hbooks hdetach kind hcounts hroom token hinitial

lemma reserveSpec_egressReserve (hbooks : t.Books) (p : Packet) (token : ℕ)
    (permit entryCommitted nsCommitted : Bool) (preparedEntries preparedNs : Option ℕ) :
    ReserveSpec (E := E) t p token permit (t.egressReserve p token permit entryCommitted
      nsCommitted preparedEntries preparedNs) := by
  unfold egressReserve
  cases hget : t.entries.get p.key with
  | none =>
    exact reserveSpec_reserveNew hbooks (fun _ => hget) (fun h => absurd h Bool.false_ne_true)
      _ _ _ _ _ _
  | some entry =>
    dsimp only
    split_ifs with hpending hlive
    · exact ⟨(Calm.refl t).toKeeps, fun _ => .refl t, fun _ => nofun, rfl⟩
    · rw [not_isSome_iff_eq_none] at hpending
      exact reserveSpec_reserveExisting hbooks hget hpending token permit
    · rw [not_isSome_iff_eq_none] at hpending
      exact reserveSpec_reserveNew hbooks (fun h => absurd h.symm Bool.false_ne_true)
        (fun _ => ⟨entry, hget, hpending⟩) _ _ _ _ _ _

/-! ## Settlement -/

/-- What settling a reservation leaves. -/
structure Settles (t t' : ConntrackTable) (r : EgressReservation) : Prop where
  books : t'.Books
  tokenAt : ∀ k τ, k ≠ r.key → t.tokenAt k = some τ → t'.tokenAt k = some τ
  drift : t.drift = t'.drift + r.uncounted
  permit : t'.capacityPreparing = t.capacityPreparing
  /-- A reservation that created no flow puts none back. -/
  absent : r.createdEntry = false → ∀ k, t.entries.get k = none → t'.entries.get k = none
  room : r.createdEntry = false →
    ∀ ns, t.nsEntryCounts.RoomFor ns → t'.nsEntryCounts.RoomFor ns

lemma Flight.exists_entry (h : t.Flight permit r) :
    ∃ e pending, t.entries.get r.key = some e ∧ e.pendingEgress = some pending ∧
      pending.token = r.token := by
  obtain ⟨e, hget, hpending⟩ := bind_eq_some_iff.mp h.token
  obtain ⟨pending, hsome, htoken⟩ := map_eq_some_iff.mp hpending
  exact ⟨e, pending, hget, hsome, htoken⟩

/-- A write to the own entry does not touch the tokens of others. -/
lemma tokenAt_modifyEntry_of_ne {f : ConntrackEntry → ConntrackEntry} (hk : k' ≠ k) :
    (t.modifyEntry k f).tokenAt k' = t.tokenAt k' := by
  unfold ConntrackTable.tokenAt modifyEntry
  rw [get_modify_of_ne hk]

/-- The statistics of a finalisation count a slot of its own. -/
lemma finalizeStats_currentEntries (s : ConntrackStats) (r : EgressReservation) :
    (finalizeStats s r).currentEntries = s.currentEntries - r.uncounted := by
  unfold finalizeStats EgressReservation.uncounted
  cases hcreated : r.createdEntry with
  | false => exact (sub_zero _).symm
  | true =>
    cases hvictim : r.victim with
    | none => exact (sub_neg_eq_add _ _).symm
    | some v =>
      cases hkind : v.kind <;>
      · simp [hkind]

lemma settles_finalize (hbooks : t.Books) (h : t.Flight permit r) :
    ∃ t' result, t.finalizeEgressReservation r = some (t', result) ∧ t.Settles t' r := by
  obtain ⟨e, pending, hget, hpending, htoken⟩ := h.exists_entry
  unfold finalizeEgressReservation
  rw [hget]
  dsimp only
  rw [hpending]
  dsimp only
  rw [if_neg (not_not.mpr htoken)]
  refine ⟨_, _, rfl, (books_modifyEntry hbooks).congr rfl rfl, fun k τ hk hτ => ?_, ?_, rfl,
    fun _ => absent_modifyEntry, fun _ _ => id⟩
  · rw [← hτ]
    exact tokenAt_modifyEntry_of_ne hk
  have hdrift : (t.modifyEntry r.key (finalizeEntry pending)).drift = t.drift :=
    drift_modifyEntry
  rw [← hdrift]
  unfold ConntrackTable.drift
  rw [finalizeStats_currentEntries, sub_right_comm, sub_add_cancel]

/-- The books after the flow of a reservation is taken out and its victim put back. -/
lemma books_putBack {v : DetachedEgressVictim} (hbooks : t.Books)
    (hget : t.entries.get r.key = some e)
    (hscope : v.key.netNsId = r.key.netNsId ∨ v.key.netNsId = ctRootNs)
    (hfree : (t.removeFlow r.key).entries.get v.key = none)
    (hentries : entries.assoc = (t.removeFlow r.key).entries.assoc.insert v.key v.entry)
    (hrows : counts.Represents 0 (update (t.removeFlow r.key).flowsOf v.key.netNsId
      ((t.removeFlow r.key).flowsOf v.key.netNsId + 1))) :
    { t.removeFlow r.key with entries := entries, nsEntryCounts := counts }.Books := by
  have hremoved := hbooks.removeFlow hget
  refine hremoved.insert ?_ hfree hentries hrows
  rcases hscope with hsame | hroot
  · rw [hsame]
    exact hbooks.admissible_removeFlow hget
  -- The root namespace has no quota of its own.
  have hlen := len_removeFlow hget
  have hlenle := hbooks.len_le
  refine ⟨by omega, fun hne => absurd hroot hne, fun hne => absurd hroot hne⟩

/-- Taking the flow of a reservation out does not touch the tokens of others. -/
lemma tokenAt_removeFlow_of_ne (hk : k' ≠ k) : (t.removeFlow k).tokenAt k' = t.tokenAt k' := by
  unfold ConntrackTable.tokenAt removeFlow
  rw [get_remove_of_ne hk]

/-- The rollback of a created flow puts its victim back. -/
lemma settles_putBack (hbooks : t.Books) (h : t.Flight permit r) {v : DetachedEgressVictim}
    (hvictim : r.victim = some v) :
    ∃ entries counts,
      (t.removeFlow r.key).entries.insertUniqueReserved v.key v.entry = some entries ∧
      chargeRow (t.removeFlow r.key).nsEntryCounts v.key.netNsId = (counts, true) ∧
      t.Settles { t.removeFlow r.key with entries := entries, nsEntryCounts := counts } r := by
  obtain ⟨e, pending, hget, -, -⟩ := h.exists_entry
  obtain ⟨hcreated, habsent, hscope⟩ := h.victim v hvictim
  have hfree : (t.removeFlow r.key).entries.get v.key = none := get_remove_eq_none habsent
  have hroom : (t.removeFlow r.key).nsEntryCounts.RoomFor v.key.netNsId := by
    rcases hscope with hsame | ⟨-, hroom⟩
    · have hpos : 0 < t.flowsOf r.key.netNsId := countKeys_pos _ hget rfl
      rw [hsame]
      exact roomFor_decNsEntryCountLocked_self (hbooks.rows.get_eq_some hpos.ne')
    · exact roomFor_decNsEntryCountLocked hroom _
  have hremoved := hbooks.removeFlow hget
  obtain ⟨entries, hinsert, hassoc, -⟩ := insertUniqueReserved_eq_some hfree
    (lt_capacity_of_remove hget) v.entry
  obtain ⟨counts, hcharge, hrep⟩ := chargeRow_spec hremoved.rows hroom (hremoved.flowsOf_lt _)
  refine ⟨entries, counts, hinsert, hcharge,
    books_putBack hbooks hget (hscope.imp_right And.left) hfree hassoc hrep,
    fun k τ hk hτ => ?_, ?_, rfl, fun hf => ?_, fun hf => ?_⟩
  · exact tokenAt_of_insert hfree hassoc ((tokenAt_removeFlow_of_ne hk).trans hτ)
  · have huncounted : r.uncounted = 0 := by
      unfold EgressReservation.uncounted
      rw [hcreated, hvictim]
      rfl
    have hlen : entries.len = t.entries.len :=
      (len_of_insert hfree hassoc).trans (len_removeFlow hget)
    rw [huncounted, add_zero]
    unfold ConntrackTable.drift
    rw [hlen]
    rfl
  · cases hcreated.symm.trans hf
  · cases hcreated.symm.trans hf

lemma settles_rollback (hbooks : t.Books) (h : t.Flight permit r) :
    ∃ t', t.rollbackEgressReservation r = (t', true) ∧ t.Settles t' r := by
  obtain ⟨e, pending, hget, hpending, htoken⟩ := h.exists_entry
  have hmatch : ¬ e.pendingEgress.map PendingEgress.token ≠ some r.token := by
    rw [hpending, map_some, htoken, not_not]
  unfold rollbackEgressReservation
  rw [hget]
  dsimp only
  rw [if_neg hmatch]
  split_ifs with hcreated
  · have hfalse : r.createdEntry = false := by simpa using hcreated
    refine ⟨_, rfl, books_modifyEntry hbooks, fun k τ hk hτ => ?_, ?_, rfl,
      fun _ => absent_modifyEntry, fun _ _ => id⟩
    · rw [← hτ]
      exact tokenAt_modifyEntry_of_ne hk
    have huncounted : r.uncounted = 0 := by
      unfold EgressReservation.uncounted
      rw [hfalse]
      rfl
    rw [drift_modifyEntry, huncounted, add_zero]
  · have htrue : r.createdEntry = true := by simpa using hcreated
    cases hvictim : r.victim with
    | none =>
      refine ⟨_, rfl, hbooks.removeFlow hget,
        fun k τ hk hτ => (tokenAt_removeFlow_of_ne hk).trans hτ, ?_, rfl,
        fun hf => absurd (htrue.symm.trans hf) nofun, fun hf => absurd (htrue.symm.trans hf) nofun⟩
      have huncounted : r.uncounted = -1 := by
        unfold EgressReservation.uncounted
        rw [htrue, hvictim]
        rfl
      rw [huncounted]
      unfold ConntrackTable.drift
      rw [← len_removeFlow hget, UInt32.ofNat_add, ← sub_sub]
      exact sub_eq_add_neg _ _
    | some =>
      obtain ⟨entries, counts, hinsert, hcharge, hsettles⟩ := settles_putBack hbooks h hvictim
      dsimp only
      rw [hinsert]
      rw [hcharge]
      exact ⟨_, rfl, hsettles⟩

end ConntrackTable

end Nilix.Net.Ct
