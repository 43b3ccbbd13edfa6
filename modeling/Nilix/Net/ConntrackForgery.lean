import Nilix.Net.ConntrackHandshake

/-!
# Connection tracking: no forged sessions along every interleaving

Every entry of the table and every queued packet is justified by the log (`EntryOk`, `PendingOk`), in
every state of a run.  A `Change` is what one section or event does to the table and to the log; it
leaves the flows of other queued packets alone, but for the end of their connections.
-/

namespace Nilix.Net.Ct

open FallibleOrderedMap SortedAssoc ConntrackTable List Option Function

variable {E : Type}

/-! ## The log -/

/-- Every `Established` that the log records was earned. -/
def Genuine (log : List (Mark E)) : Prop :=
  ∀ newer p result older, log = newer ++ .updated p result :: older → p.proto = ipprotoTcp →
    result.decision = .established → Earned older p.key

/-- A result that claims no session. -/
def Modest (mark : Mark E) : Prop :=
  ∀ p result, mark = .updated p result → p.proto = ipprotoTcp → result.decision ≠ .established

lemma Genuine.cons {log : List (Mark E)} (h : Genuine log) {mark : Mark E}
    (hmark : ∀ p result, mark = .updated p result → p.proto = ipprotoTcp →
      result.decision = .established → Earned log p.key) : Genuine (mark :: log) := by
  intro newer p result older heq hproto hdecision
  cases newer with
  | nil =>
    obtain ⟨rfl, rfl⟩ := cons.inj heq
    exact hmark p result rfl hproto hdecision
  | cons first newer =>
    obtain ⟨-, rfl⟩ := cons.inj heq
    exact h newer p result older rfl hproto hdecision

lemma Genuine.append {log : List (Mark E)} (h : Genuine log) {marks : List (Mark E)}
    (hmarks : ∀ mark ∈ marks, Modest mark) : Genuine (marks ++ log) := by
  induction marks with
  | nil => exact h
  | cons mark marks ih =>
    refine (ih fun m hm => hmarks m (mem_cons_of_mem _ hm)).cons fun p result heq hproto hd => ?_
    exact absurd hd (hmarks mark mem_cons_self p result heq hproto)

/-! ## Changes -/

/-- An entry is as it was, or its connection was ended. -/
def Ends (e e' : ConntrackEntry) : Prop :=
  e' = e ∨ ∃ state : CtProtoState, state.isSession = false ∧ state ≠ .tcp .synRecv ∧
    e' = ConntrackTable.endConnection state e

/-- What a section or an event does to the table and to the log: `own` is the reservation it settles,
`permit` says whether it holds the permit. -/
structure Change (log : List (Mark E)) (own : Option EgressReservation) (permit : Bool)
    (t t' : ConntrackTable) (marks : List (Mark E)) : Prop where
  entries : ∀ k e, t'.entries.get k = some e → EntryOk (marks ++ log) k e
  pending : ∀ k e, (∀ r, own = some r → k ≠ r.key) → t.entries.get k = some e →
    e.pendingEgress ≠ none → ∃ e', t'.entries.get k = some e' ∧ Ends e e'
  created : ∀ k, .created k ∈ marks → permit = true
  genuine : Genuine (marks ++ log)

/-- Every entry of the table is justified, and so is every result. -/
structure Justified (log : List (Mark E)) (t : ConntrackTable) : Prop where
  entries : ∀ k e, t.entries.get k = some e → EntryOk log k e
  genuine : Genuine log

section Changes

variable {log marks : List (Mark E)} {own : Option EgressReservation} {permit : Bool}
  {t t' : ConntrackTable}

/-- The flows but one are as they were, or gone without pending egress. -/
structure PrunesBut (key : FlowKey) (t t' : ConntrackTable) : Prop where
  of_get : ∀ k e, k ≠ key → t'.entries.get k = some e → t.entries.get k = some e
  pending : ∀ k e, k ≠ key → t.entries.get k = some e → e.pendingEgress ≠ none →
    t'.entries.get k = some e

lemma PrunesBut.of_eq {key : FlowKey}
    (h : ∀ k, k ≠ key → t'.entries.get k = t.entries.get k) : PrunesBut key t t' :=
  ⟨fun k _ hk he => (h k hk).symm.trans he, fun k _ hk he _ => (h k hk).trans he⟩

/-- A change that touches one flow. -/
lemma Change.of_touched (h : Justified log t) {key : FlowKey} (hother : PrunesBut key t t')
    (hkey : ∀ e, (∀ r, own = some r → key ≠ r.key) → t.entries.get key = some e →
      e.pendingEgress ≠ none → ∃ e', t'.entries.get key = some e' ∧ Ends e e')
    (hown : ∀ e, t'.entries.get key = some e → EntryOk (marks ++ log) key e)
    (hcreated : ∀ k, .created k ∈ marks → k = key ∧ permit = true)
    (hgenuine : Genuine (marks ++ log)) : Change log own permit t t' marks where
  entries k e hget := by
    by_cases hk : k = key
    · subst hk
      exact hown e hget
    · exact (h.entries k e (hother.of_get k e hk hget)).append fun hmem => hk (hcreated k hmem).1
  pending k e hne hget hp := by
    by_cases hk : k = key
    · subst hk
      exact hkey e hne hget hp
    · exact ⟨e, hother.pending k e hk hget hp, .inl rfl⟩
  created k hmem := (hcreated k hmem).2
  genuine := hgenuine

/-- A change that modifies one flow. -/
lemma Change.of_modify (h : Justified log t) {key : FlowKey} {e : ConntrackEntry}
    {f : ConntrackEntry → ConntrackEntry} (hget : t.entries.get key = some e)
    (hentries : t'.entries = (t.modifyEntry key f).entries)
    (hkey : (∀ r, own = some r → key ≠ r.key) → e.pendingEgress ≠ none → Ends e (f e))
    (hown : EntryOk (marks ++ log) key (f e))
    (hcreated : ∀ k, .created k ∈ marks → k = key ∧ permit = true)
    (hgenuine : Genuine (marks ++ log)) : Change log own permit t t' marks := by
  have hself : t'.entries.get key = some (f e) :=
    (congrArg (·.get key) hentries).trans (get_modifyEntry f hget)
  have hother : PrunesBut key t t' := .of_eq fun k hk =>
    (congrArg (·.get k) hentries).trans (get_modify_of_ne hk)
  refine .of_touched h hother (fun e' hne he' hp => ?_) (fun e' he' => ?_) hcreated hgenuine
  · cases hget.symm.trans he'
    exact ⟨_, hself, hkey hne hp⟩
  · exact some.inj (hself.symm.trans he') ▸ hown

/-- A change that at most removes flows without pending egress. -/
structure Prunes (t t' : ConntrackTable) : Prop where
  of_get : ∀ k e, t'.entries.get k = some e → t.entries.get k = some e
  pending : ∀ k e, t.entries.get k = some e → e.pendingEgress ≠ none → t'.entries.get k = some e

lemma Prunes.of_assoc (h : t'.entries.assoc = t.entries.assoc) : Prunes t t' :=
  ⟨fun k _ he => (get_of_assoc h k).symm.trans he, fun k _ he _ => (get_of_assoc h k).trans he⟩

lemma Prunes.of_shedsTo (h : t.ShedsTo t') : Prunes t t' := by
  obtain ⟨_, _, _, h, -, rfl⟩ := h
  exact ⟨h.of_get, h.pending⟩

/-- A change that removes flows and claims nothing. -/
lemma Change.of_prunes (h : Justified log t) (hprunes : Prunes t t')
    (hcreated : ∀ k, .created k ∉ marks) (hmodest : ∀ mark ∈ marks, Modest mark) :
    Change log own permit t t' marks where
  entries k e hget := (h.entries k e (hprunes.of_get k e hget)).append (hcreated k)
  pending k e _ hget hp := ⟨e, hprunes.pending k e hget hp, .inl rfl⟩
  created k hmem := absurd hmem (hcreated k)
  genuine := h.genuine.append hmodest

/-- The same without a line in the log. -/
lemma Change.of_prunes_nil (h : Justified log t) (hprunes : Prunes t t') :
    Change log own permit t t' [] :=
  Change.of_prunes h hprunes (fun _ => not_mem_nil) fun _ hmem => absurd hmem not_mem_nil

lemma Change.refl (h : Justified log t) : Change log own permit t t [] :=
  Change.of_prunes_nil h (.of_assoc rfl)

/-! ## Ingress packets -/

variable {result : CtUpdateResult} {p : Packet}

lemma modest_of_decision (h : result.decision ≠ .established) :
    Modest (.updated p result : Mark E) := by
  rintro p' result' heq -
  obtain ⟨rfl, rfl⟩ := Mark.updated.inj heq
  exact h

/-- An update that ends without a session does not create a flow. -/
lemma Change.of_invalid (h : Justified log t) (hprunes : Prunes t t')
    (hdecision : result.decision = .invalid) : Change log own permit t t' [.updated p result] := by
  refine .of_prunes h hprunes (fun k hmem => ?_)
    (forall_mem_singleton.mpr ?_)
  · cases mem_singleton.mp hmem
  exact modest_of_decision fun heq => nomatch hdecision.symm.trans heq

lemma change_ingressUpdate (h : Justified log t) {entry : ConntrackEntry}
    (hget : t.entries.get p.key = some entry) (hpending : entry.pendingEgress = none) :
    Change log own permit t (t.ingressUpdate p entry).1
      [.updated p (t.ingressUpdate p entry).2] := by
  have hentry := h.entries _ _ hget
  unfold ingressUpdate
  dsimp only
  split_ifs with hinvalid
  · have hprunes : Prunes t t.invalidTransition := .of_assoc rfl
    refine .of_invalid h hprunes ?_
    exact hinvalid
  refine .of_modify h hget rfl (fun _ hp => absurd hpending hp) ?_ (fun k hmem => ?_)
    (h.genuine.cons ?_)
  · obtain ⟨hstate, hlocal, hgeneration, hpending⟩ := ConntrackEntry.updateStats_frame
      { entry with state := (transitionState entry (entry.stateDir p.dir) p.proto p.l4).1 }
      (entry.stateDir p.dir) p.l4.payloadLen p.nowMs
    refine EntryOk.append (hentry.ingress (entry.stateDir p.dir) p.proto p.l4 hstate hlocal hgeneration
      hpending) ?_
    exact fun hmem => nomatch mem_singleton.mp hmem
  · cases mem_singleton.mp hmem
  · intro p' result heq hproto hdecision
    obtain ⟨rfl, rfl⟩ := Mark.updated.inj heq
    rw [hproto] at hdecision
    exact hentry.established hdecision

variable {e : ConntrackEntry} {initial : CtProtoState} {k : FlowKey}

/-- A flow that is there after a removal was there before. -/
lemma of_get_removeFlow {victim : FlowKey} (h : (t.removeFlow victim).entries.get k = some e) :
    k ≠ victim ∧ t.entries.get k = some e := by
  have hk : k ≠ victim := by
    rintro rfl
    cases (get_remove_self _ _).symm.trans h
  exact ⟨hk, (get_remove_of_ne hk).symm.trans h⟩

variable {key : FlowKey}

lemma createdMarks_of_eq (h : t'.stats.entriesCreated = t.stats.entriesCreated) :
    (createdMarks t t' key : List (Mark E)) = [] := if_pos h

lemma createdMarks_of_succ (h : t'.stats.entriesCreated = t.stats.entriesCreated + 1) :
    (createdMarks t t' key : List (Mark E)) = [.created key] := by
  refine if_neg fun heq => ?_
  rw [h] at heq
  exact absurd (add_eq_left.mp heq) (by decide)

/-- A creation where no flow waits for a queued packet. -/
lemma Change.of_create (h : Justified log t) (hinitial : initialState p.proto p.l4 = some initial)
    {outcome : ConntrackTable × CtUpdateResult} (hcreates : t.Creates p initial outcome)
    (hown : ∀ e, t.entries.get p.key = some e → e.pendingEgress = none) :
    Change log own true t outcome.1 (.updated p outcome.2 :: createdMarks t outcome.1 p.key) := by
  have hother : PrunesBut p.key t outcome.1 := by
    refine ⟨fun k e hk he => ?_, fun k e hk he hp => ?_⟩ <;>
      rcases hcreates.other k hk with hsame | ⟨hnone, e', he', hevictable⟩
    · exact hsame.symm.trans he
    · cases hnone.symm.trans he
    · exact hsame.trans he
    · cases he'.symm.trans he
      exact absurd hevictable.pending hp
  rcases hcreates.own with ⟨hnone, hstats, hdecision⟩ | ⟨hstats, hdecision, e, he, hstate, hlocal⟩
  · rw [createdMarks_of_eq hstats]
    refine .of_touched h hother (fun e _ he hp => absurd (hown e he) hp)
      (fun e he => nomatch hnone.symm.trans he)
      (fun k hmem => nomatch mem_singleton.mp hmem) (h.genuine.cons ?_)
    intro p' result heq _ hd
    obtain ⟨rfl, rfl⟩ := Mark.updated.inj heq
    cases hdecision.symm.trans hd
  rw [createdMarks_of_succ hstats]
  refine .of_touched h hother (fun e _ he hp => absurd (hown e he) hp)
    (fun e' he' => ?_) (fun k hmem => ?_) (h.genuine.append fun mark hmem => ?_)
  · cases he.symm.trans he'
    have hentry : EntryOk (.created p.key :: log) p.key e :=
      .of_initial (hstate.symm ▸ hinitial) hlocal
    exact hentry.cons nofun
  · rcases mem_cons.mp hmem with heq | hmem
    · cases heq
    · exact ⟨Mark.created.inj (mem_singleton.mp hmem), rfl⟩
  · rcases mem_cons.mp hmem with rfl | hmem
    · exact modest_of_decision fun hd => nomatch hdecision.symm.trans hd
    · rw [mem_singleton.mp hmem]
      exact nofun

/-- The write-locked section of `create_entry`. -/
lemma change_createPublish (hbooks : t.Books) (h : Justified log t)
    (hinitial : initialState p.proto p.l4 = some initial) {entryCommitted nsCommitted : Bool}
    {preparedEntries preparedNs : Option ℕ} {outcome : ConntrackTable × CtUpdateResult}
    (hrun : t.createPublish p initial entryCommitted nsCommitted preparedEntries preparedNs =
      outcome) :
    Change log own true t outcome.1 (.updated p outcome.2 :: createdMarks t outcome.1 p.key) := by
  have hpublished := published_createPublish hbooks p initial entryCommitted nsCommitted
    preparedEntries preparedNs
  rw [hrun] at hpublished
  cases hpublished with
  | waiting hinvalid =>
    rw [createdMarks_of_eq rfl]
    exact .of_invalid h (.of_assoc rfl) hinvalid
  | @update entry hget hpending =>
    have hstats : (t.ingressUpdate p entry).1.stats.entriesCreated = t.stats.entriesCreated := by
      unfold ingressUpdate
      dsimp only
      split_ifs <;> rfl
    rw [createdMarks_of_eq hstats]
    exact change_ingressUpdate h hget hpending
  | create hown hcreates =>
    exact .of_create h hinitial hcreates fun e he => (hown e he).1

/-! ## Egress transactions -/

/-- What a reservation in flight will do to its entry, and the flow it may put back, are justified. -/
structure FlightOk (t : ConntrackTable) (log : List (Mark E)) (l4 : L4Meta) (r : EgressReservation) :
    Prop where
  pending : ∀ e pending, t.entries.get r.key = some e → e.pendingEgress = some pending →
    PendingOk l4 r.createdEntry e pending
  born : r.createdEntry = false → sinceCreation r.key log ≠ none
  victim : ∀ v, r.victim = some v → EntryOk log v.key v.entry ∧ v.entry.pendingEgress = none

lemma Change.of_provisional (h : Justified log t) {token : ℕ}
    (hinitial : initialState p.proto p.l4 = some initial)
    (hown : t'.entries.get p.key = some (provisionalEntry p token initial))
    (hold : ∀ e, t.entries.get p.key = some e → e.pendingEgress = none)
    (hother : PrunesBut p.key t t') : Change log own permit t t' [] := by
  refine .of_touched h hother (fun e _ he hp => absurd (hold e he) hp) (fun e he => ?_) nofun
    h.genuine
  cases hown.symm.trans he
  exact entryOk_provisional hinitial token

variable {r : EgressReservation}

lemma change_reserve (h : Justified log t) {token : ℕ} (htoken : token ≠ 0)
    (hflow : t.ReservesFlow t' p token r) :
    Change log own permit t t' [] ∧ FlightOk t' log p.l4 r := by
  cases hflow with
  | existing e hget hpending hentries =>
    have hentry := h.entries _ _ hget
    have hself : t'.entries.get p.key = some (e.withPending (egressPending e p token)) := by
      rw [hentries, get_modify_self, hget]
      rfl
    have hother : PrunesBut p.key t t' := .of_eq fun k hk => by rw [hentries, get_modify_of_ne hk]
    have hpd := hentry.pendingOk p htoken
    generalize egressPending e p token = pending at hself hpd
    constructor
    · refine .of_touched h hother (fun e' _ he' hp => ?_) (fun e' he' => ?_) nofun h.genuine
      · cases hget.symm.trans he'
        exact absurd hpending hp
      · cases hself.symm.trans he'
        exact { hentry with born := nofun }
    refine ⟨fun e' pending' he' hp => ?_, fun _ => hentry.born hpending,
      fun v hv => absurd hv nofun⟩
    cases hself.symm.trans he'
    cases hp
    exact { hpd with fresh := fun hc => absurd hc Bool.false_ne_true }
  | free initial hinitial hget hentries =>
    have hself := get_of_insert hentries
    constructor
    · exact .of_provisional h hinitial hself (fun e he => nomatch hget.symm.trans he)
        (.of_eq fun k hk => get_of_insert_of_ne hentries hk)
    refine ⟨fun e pending he hp => ?_, fun hc => absurd hc.symm Bool.false_ne_true,
      fun v hv => absurd hv nofun⟩
    cases hself.symm.trans he
    exact pendingOk_provisional hinitial htoken pending hp
  | detach initial hinitial victim e kind hdetach hentries =>
    have hself := get_of_insert hentries
    have hother : ∀ k, k ≠ p.key → t'.entries.get k = (t.entries.remove victim).get k :=
      fun k hk => get_of_insert_of_ne hentries hk
    constructor
    · refine .of_provisional h hinitial hself (fun e' he' => ?_)
        ⟨fun k e' hk he' => ?_, fun k e' hk he' hp => ?_⟩
      · by_cases hv : victim = p.key
        · exact some.inj ((hv ▸ hdetach.get).symm.trans he') ▸ hdetach.pending
        · cases (hdetach.free hv).symm.trans he'
      · rw [hother k hk] at he'
        exact (of_get_removeFlow (t := t) he').2
      · rw [hother k hk]
        have hne : k ≠ victim := by
          rintro rfl
          exact hp (some.inj (hdetach.get.symm.trans he') ▸ hdetach.pending)
        exact (get_remove_of_ne hne).trans he'
    · refine ⟨fun e' pending he' hp => ?_, fun hc => absurd hc.symm Bool.false_ne_true,
        fun v hv => ?_⟩
      · cases hself.symm.trans he'
        exact pendingOk_provisional hinitial htoken pending hp
      · cases hv
        exact ⟨h.entries _ _ hdetach.get, hdetach.pending⟩

/-- Lines of an egress transaction claim no session. -/
lemma modest_egress (p : Packet) (result : CtEgressResult E) :
    Modest (.egress p result : Mark E) := nofun

lemma not_created_egress (p : Packet) (result : CtEgressResult E) (k : FlowKey) :
    (.created k : Mark E) ∉ [.egress p result] :=
  fun hmem => nomatch mem_singleton.mp hmem

/-- A change of the own flow of a transaction that ends without a finalisation. -/
lemma Change.of_undone (h : Justified log t) {result : CtEgressResult E}
    (hentries : ∀ k e, t'.entries.get k = some e → EntryOk log k e)
    (hother : ∀ k e, k ≠ r.key → t.entries.get k = some e → e.pendingEgress ≠ none →
      t'.entries.get k = some e) : Change log (some r) permit t t' [.egress p result] where
  entries k e he := (hentries k e he).append (not_created_egress p result k)
  pending k e hne he hp := ⟨e, hother k e (hne r rfl) he hp, .inl rfl⟩
  created k hmem := absurd hmem (not_created_egress p result k)
  genuine := h.genuine.append (forall_mem_singleton.mpr (modest_egress p result))

lemma change_rollback (h : Justified log t) {l4 : L4Meta} (hok : FlightOk t log l4 r) (p : Packet)
    (result : CtEgressResult E) :
    Change log (some r) permit t (t.rollbackEgressReservation r).1 [.egress p result] := by
  have hremove : ∀ k e, k ≠ r.key → t.entries.get k = some e → e.pendingEgress ≠ none →
      (t.removeFlow r.key).entries.get k = some e :=
    fun k e hk he _ => (get_remove_of_ne hk).trans he
  have hleft : ∀ k e, (t.removeFlow r.key).entries.get k = some e → EntryOk log k e :=
    fun k e he => h.entries k e (of_get_removeFlow he).2
  unfold rollbackEgressReservation
  cases hget : t.entries.get r.key with
  | none => exact .of_undone h h.entries fun k e _ he _ => he
  | some e =>
    have hentry := h.entries _ _ hget
    dsimp only
    split_ifs with htoken hcreated
    · exact .of_undone h h.entries fun k e _ he _ => he
    · refine .of_undone h (fun k e' he' => ?_) fun k e' hk he' _ => ?_
      · by_cases hk : k = r.key
        · subst hk
          obtain rfl := some.inj ((get_modifyEntry _ hget).symm.trans he')
          exact { hentry with born := fun _ => hok.born (by simpa using hcreated) }
        · exact h.entries k e' ((get_modify_of_ne hk).symm.trans he')
      · exact (get_modify_of_ne hk).trans he'
    · cases hvictim : r.victim with
      | none =>
        exact .of_undone h hleft hremove
      | some v =>
        dsimp only
        split
        · exact .of_undone h hleft hremove
        rename_i entries hinsert
        obtain ⟨hfree, -, hassoc, -⟩ := of_insertUniqueReserved hinsert
        have hself : entries.get v.key = some v.entry := get_of_insert hassoc
        have hother : ∀ k, k ≠ v.key → entries.get k = (t.removeFlow r.key).entries.get k :=
          fun k hk => get_of_insert_of_ne hassoc hk
        refine .of_undone h (fun k e' he' => ?_) fun k e' hk he' hp => ?_
        · by_cases hk : k = v.key
          · subst hk
            cases hself.symm.trans he'
            exact (hok.victim v hvictim).1
          · exact hleft k e' ((hother k hk).symm.trans he')
        have hremoved := hremove k e' hk he' hp
        have hne : k ≠ v.key := by
          rintro rfl
          cases hfree.symm.trans hremoved
        exact (hother k hne).trans hremoved

lemma finalizeStats_entriesCreated (s : ConntrackStats) (r : EgressReservation) :
    (finalizeStats s r).entriesCreated =
      if r.createdEntry then s.entriesCreated + 1 else s.entriesCreated := by
  unfold finalizeStats
  cases r.createdEntry with
  | false => rfl
  | true =>
    cases r.victim with
    | none => rfl
    | some v => cases hkind : v.kind <;> simp [hkind]

section

variable (h : Justified log t)
include h

lemma change_finalize (hflight : t.Flight permit r) (hok : FlightOk t log p.l4 r)
    (hfinalize : t.finalizeEgressReservation r = some (t', result)) (outcome : CtEgressResult E) :
    Change log (some r) permit t t'
      (.egress p outcome :: (finalizedMarks t p r ++ createdMarks t t' r.key)) := by
  obtain ⟨e, pending, hget, hpending, htoken⟩ := hflight.exists_entry
  have hentry := h.entries _ _ hget
  unfold finalizeEgressReservation at hfinalize
  rw [hget] at hfinalize
  dsimp only at hfinalize
  rw [hpending] at hfinalize
  dsimp only at hfinalize
  rw [if_neg (not_not.mpr htoken)] at hfinalize
  obtain ⟨ht', -⟩ := Prod.mk.inj (some.inj hfinalize)
  have hmarks : (finalizedMarks t p r : List (Mark E)) =
      [.finalized r.key p.l4 e.state pending.stateDir] := by
    unfold finalizedMarks
    rw [hget]
    dsimp only
    rw [hpending]
    rfl
  have hcreated : (createdMarks t t' r.key : List (Mark E)) =
      if r.createdEntry then [.created r.key] else [] := by
    unfold createdMarks
    rw [← ht', finalizeStats_entriesCreated]
    cases r.createdEntry with
    | false => exact if_pos rfl
    | true => exact if_neg fun heq => absurd (add_eq_left.mp heq) (by decide)
  have hfinal := hentry.finalize (hok.pending e pending hget hpending) hok.born
  rw [hmarks, hcreated]
  subst ht'
  refine .of_modify h hget rfl (fun hne => absurd rfl (hne r rfl)) (hfinal.cons nofun)
    (fun k hmem => ?_) (h.genuine.append fun mark hmem => ?_)
  · rcases mem_cons.mp hmem with heq | hmem
    · cases heq
    · rcases mem_append.mp hmem with hmem | hmem
      · cases mem_singleton.mp hmem
      · split_ifs at hmem with hc
        · exact ⟨Mark.created.inj (mem_singleton.mp hmem), hflight.created hc⟩
        · cases hmem
  rintro p' result' rfl
  rcases mem_cons.mp hmem with heq | hmem
  · cases heq
  rcases mem_append.mp hmem with hmem | hmem
  · cases mem_singleton.mp hmem
  split_ifs at hmem
  · cases mem_singleton.mp hmem
  · cases hmem

/-! ## Confirmations by the socket -/

lemma change_endConnection (hget : t.entries.get key = some e) {state : CtProtoState}
    (hsession : state.isSession = false) (hrecv : state ≠ .tcp .synRecv) :
    Change log own permit t (t.modifyEntry key (endConnection state)) [] := by
  refine .of_modify h hget rfl (fun _ _ => .inr ⟨state, hsession, hrecv, rfl⟩) ?_
    nofun h.genuine
  exact (h.entries _ _ hget).of_closed map_eq_none_iff.mp rfl rfl
    hsession hrecv

lemma change_commitTcpClose (key : FlowKey) (token : ConntrackTable.TcpCloseToken) :
    Change log own permit t (t.commitTcpClose key token).1 [] := by
  unfold commitTcpClose
  split
  · exact .refl h
  rename_i entry hget
  split_ifs
  · exact .refl h
  · exact change_endConnection h hget rfl nofun

lemma change_commitTcpIngressReset (netNsId srcIp dstIp srcPort dstPort : ℕ) :
    Change log own permit t (t.commitTcpIngressReset netNsId srcIp dstIp srcPort dstPort).1 [] := by
  unfold commitTcpIngressReset
  dsimp only
  split
  · exact .refl h
  rename_i entry hget
  split
  · exact change_endConnection h hget rfl nofun
  · exact .refl h

/-- `commit_tcp_ingress_handshake` with the line it leaves. -/
lemma change_commitTcpIngressHandshake {netNsId srcIp dstIp srcPort dstPort : ℕ} {ok : Bool}
    (hcommit : t.commitTcpIngressHandshake netNsId srcIp dstIp srcPort dstPort = (t', ok)) :
    Change log own permit t t' (if ok then
      [.handshake (FlowKey.fromPacket netNsId ipprotoTcp srcIp dstIp srcPort dstPort).1] else []) := by
  unfold commitTcpIngressHandshake at hcommit
  generalize (FlowKey.fromPacket netNsId ipprotoTcp srcIp dstIp srcPort dstPort).1 = key
    at hcommit ⊢
  dsimp only at hcommit
  split at hcommit
  · cases hcommit
    exact .refl h
  rename_i entry hget
  split_ifs at hcommit with hreject
  · cases hcommit
    exact .refl h
  cases hcommit
  simp only [not_or, Bool.not_eq_true, isSome_eq_false_iff, isNone_iff_eq_none, not_not] at hreject
  obtain ⟨hpending, -, hqueued⟩ := hreject
  refine .of_modify h hget rfl (fun _ hp => absurd hpending hp)
    ((h.entries _ _ hget).confirm hpending hqueued) (fun k hmem => ?_) (h.genuine.cons ?_)
  · cases mem_singleton.mp hmem
  · exact nofun

end

/-! ## Reservations of other calls -/

lemma sinceCreation_ne_none_append (h : sinceCreation key log ≠ none) (marks : List (Mark E)) :
    sinceCreation key (marks ++ log) ≠ none := by
  induction marks with
  | nil => exact h
  | cons mark marks ih => exact sinceCreation_ne_none_cons ih mark

/-- A reservation in flight stays justified when another call moves on. -/
lemma FlightOk.transfer {l4 : L4Meta} {holds : Bool} (h : FlightOk t log l4 r)
    (hflight : t.Flight holds r) (hchange : Change log own permit t t' marks)
    (hkey : ∀ r', own = some r' → r.key ≠ r'.key) (hpermit : holds = true → permit = false) :
    FlightOk t' (marks ++ log) l4 r := by
  obtain ⟨e, pending, hget, hpending, -⟩ := hflight.exists_entry
  have hok := h.pending e pending hget hpending
  obtain ⟨e', hget', hends⟩ := hchange.pending r.key e hkey hget (by simp [hpending])
  refine ⟨fun e'' pending'' he'' hp'' => ?_,
    fun hc => sinceCreation_ne_none_append (h.born hc) marks, fun v hv => ?_⟩
  · cases hget'.symm.trans he''
    rcases hends with rfl | ⟨state, hsession, hrecv, rfl⟩
    · cases hpending.symm.trans hp''
      exact hok
    unfold endConnection at hp''
    rw [hpending] at hp''
    cases hp''
    exact hok.endConnection hsession hrecv
  obtain ⟨hentry, hnone⟩ := h.victim v hv
  refine ⟨hentry.append fun hmem => ?_, hnone⟩
  have hholds := hflight.created (hflight.victim v hv).1
  cases (hpermit hholds).symm.trans (hchange.created _ hmem)

/-- What a call carries between two sections is justified. -/
def ThreadOk (t : ConntrackTable) (log : List (Mark E)) : Thread E → Prop
  | .createPlan p initial | .createPublish p initial _ _ => initialState p.proto p.l4 = some initial
  | .egressLookup _ token | .egressPermit _ token | .egressPrepare _ token _ _ _
  | .egressReserve _ token _ _ _ => token ≠ 0
  | .egressQueue p _ r | .egressRollback p _ r _ | .egressFinalize p _ r => FlightOk t log p.l4 r
  | _ => True

lemma ThreadOk.transfer {th : Thread E} (h : ThreadOk t log th)
    (hflight : ∀ r, th.reservation? = some r → t.Flight th.permit r)
    (hchange : Change log own permit t t' marks)
    (hkey : ∀ r, th.reservation? = some r → ∀ r', own = some r' → r.key ≠ r'.key)
    (hpermit : th.permit = true → permit = false) : ThreadOk t' (marks ++ log) th := by
  cases th with
  | createPlan | createPublish | egressLookup | egressPermit | egressPrepare | egressReserve => exact h
  | egressQueue p holds r | egressRollback p holds r error | egressFinalize p holds r =>
    exact FlightOk.transfer h (hflight r rfl) hchange (hkey r rfl) hpermit
  | _ => trivial

end Changes

/-! ## Sections -/

/-- What a section leaves is justified. -/
structure Honest (t : ConntrackTable) (log : List (Mark E)) (th : Thread E) (s : Section E) :
    Prop where
  change : Change log th.reservation? th.permit t s.table s.marks
  thread : ThreadOk s.table (s.marks ++ log) s.thread

section Sections

variable {log marks : List (Mark E)} {t t' : ConntrackTable} {n n' : ℕ} {th th' : Thread E}

section

variable (h : Justified log t)
include h

variable (hprunes : Prunes t t')
include hprunes

/-- A section that at most removes flows, and goes on without a reservation. -/
lemma Honest.of_prunes (hthread : ThreadOk t' (marks ++ log) th')
    (hcreated : ∀ k, .created k ∉ marks) (hmodest : ∀ mark ∈ marks, Modest mark) :
    Honest t log th ⟨t', n', th', marks⟩ :=
  ⟨Change.of_prunes h hprunes hcreated hmodest, hthread⟩

lemma Honest.of_silent (hthread : ThreadOk t' log th') : Honest t log th ⟨t', n', th', []⟩ :=
  ⟨Change.of_prunes_nil h hprunes, hthread⟩

lemma Honest.of_invalid {p : Packet} {result : CtUpdateResult}
    (hdecision : result.decision = .invalid) :
    Honest t log th ⟨t', n', .idle, [.updated p result]⟩ :=
  ⟨Change.of_invalid h hprunes hdecision, trivial⟩

lemma Honest.of_rejected (p : Packet) (result : CtEgressResult E) :
    Honest t log th ⟨t', n', .idle, [.egress p result]⟩ :=
  Honest.of_prunes h hprunes trivial (not_created_egress p result)
    (forall_mem_singleton.mpr (modest_egress p result))

end

lemma prunes_dropPermit (t : ConntrackTable) (permit : Bool) : (t.dropPermit permit).entries =
    t.entries := by
  unfold dropPermit
  split_ifs <;> rfl

lemma Change.dropPermit {own : Option EgressReservation} {permit : Bool}
    (h : Change log own permit t t' marks) (holds : Bool) :
    Change log own permit t (t'.dropPermit holds) marks := by
  have heq := prunes_dropPermit t' holds
  exact ⟨fun k e he => h.entries k e (heq ▸ he), fun k e hne he hp => heq.symm ▸ h.pending k e hne he hp,
    h.created, h.genuine⟩

/-- The fast path of `update_on_packet`. -/
lemma honest_packet (h : Justified log t) (env : Env E) (p : Packet) :
    Honest t log (.packet p) (advance t n env (.packet p)) := by
  have hsame : Prunes t t := .of_assoc rfl
  dsimp only [advance, updateOnPacket]
  cases hget : t.entries.get p.key with
  | none => exact .of_silent h hsame trivial
  | some entry =>
    dsimp only
    by_cases hpending : entry.pendingEgress.isSome = true
    · rw [if_pos hpending]
      exact .of_invalid h hsame rfl
    rw [if_neg hpending]
    by_cases hexpired : entry.isExpired p.nowMs = true
    · rw [if_pos hexpired]
      exact .of_silent h hsame trivial
    rw [if_neg hexpired]
    rw [not_isSome_iff_eq_none] at hpending
    exact ⟨change_ingressUpdate h hget hpending, trivial⟩

lemma honest_egressReserve (hbooks : t.Books) (h : Justified log t) (env : Env E) (p : Packet)
    {token : ℕ} (htoken : token ≠ 0) (permit : Bool) (preparedEntries preparedNs : Option ℕ) :
    Honest t log (.egressReserve p token permit preparedEntries preparedNs)
      (advance t n env (.egressReserve p token permit preparedEntries preparedNs)) := by
  have hspec := reserveSpec_egressReserve (E := E) hbooks p token permit
    env.entryAlloc.committed env.nsAlloc.committed preparedEntries preparedNs
  dsimp only [advance]
  generalize t.egressReserve p token permit env.entryAlloc.committed env.nsAlloc.committed
    preparedEntries preparedNs = outcome at hspec
  obtain ⟨t', result | r⟩ := outcome
  · refine .of_rejected h (.of_assoc ?_) p result
    rw [prunes_dropPermit]
    exact hspec.2.2.2
  obtain ⟨hchange, hok⟩ := change_reserve h htoken hspec.2
  exact ⟨hchange, hok⟩

lemma ne_zero_of_fetchEgressToken {token : ℕ} (h : fetchEgressToken n = (some token, n')) :
    token ≠ 0 := by
  unfold fetchEgressToken at h
  split at h
  · cases h
  split_ifs at h with hne
  · cases h
    exact hne
  · cases h

lemma honest_advance (hbooks : t.Books) (h : Justified log t) (env : Env E)
    (hflight : ∀ r, th.reservation? = some r → t.Flight th.permit r) (hok : ThreadOk t log th) :
    Honest t log th (advance t n env th) := by
  have hsame : Prunes t t := .of_assoc rfl
  have hinvalid : Prunes t t.invalidTransition := .of_assoc rfl
  have hfull : Prunes t t.insertFailed := .of_assoc rfl
  have hfailed : Prunes t t.insertFailed.releasePermit := .of_assoc rfl
  cases th with
  | idle => exact .of_silent h hsame trivial
  | packet p => exact honest_packet h env p
  | create p =>
    dsimp only [advance, createBegin]
    cases hinitial : initialState p.proto p.l4 with
    | none => exact .of_invalid h hinvalid rfl
    | some =>
      cases hpermit : t.tryCapacityPermit with
      | none => exact .of_invalid h hfull rfl
      | some =>
        unfold tryCapacityPermit at hpermit
        split_ifs at hpermit
        cases hpermit
        exact .of_silent h (.of_assoc rfl) hinitial
  | createPlan =>
    dsimp only [advance]
    split
    · exact .of_invalid h hfailed rfl
    · exact .of_silent h hsame hok
  | createPublish =>
    exact ⟨(change_createPublish hbooks h hok rfl).dropPermit true, trivial⟩
  | egress p =>
    dsimp only [advance]
    split
    · exact .of_rejected h hsame p _
    rename_i token n' hfetch
    exact .of_silent h hsame (ne_zero_of_fetchEgressToken hfetch)
  | egressLookup =>
    dsimp only [advance]
    split_ifs <;> exact .of_silent h hsame hok
  | egressPermit p =>
    dsimp only [advance]
    cases hpermit : t.tryCapacityPermit with
    | none => exact .of_rejected h hfull p _
    | some =>
      unfold tryCapacityPermit at hpermit
      split_ifs at hpermit
      cases hpermit
      exact .of_silent h (.of_assoc rfl) hok
  | egressPrepare p token retries =>
    cases retries with
    | zero => exact .of_rejected h hfailed p _
    | succ =>
      dsimp only [advance]
      split
      · exact .of_rejected h hfailed p _
      · exact .of_silent h hsame hok
      · exact .of_silent h hsame hok
  | egressReserve p token permit preparedEntries preparedNs =>
    exact honest_egressReserve hbooks h env p hok permit preparedEntries preparedNs
  | egressQueue =>
    dsimp only [advance]
    split <;> exact .of_silent h hsame hok
  | egressRollback p permit =>
    exact ⟨(change_rollback h hok p _).dropPermit permit, trivial⟩
  | egressFinalize p permit r =>
    obtain ⟨t', result, hfinalize, -⟩ := settles_finalize hbooks (hflight r rfl)
    dsimp only [advance]
    rw [hfinalize]
    exact ⟨(change_finalize h (hflight r rfl) hok hfinalize _).dropPermit permit, trivial⟩
  | sweep =>
    dsimp only [advance]
    split <;> exact .of_silent h hsame trivial
  | sweepRemove toRemove =>
    exact .of_silent h (.of_shedsTo (t.shedsTo_sweepRemove toRemove)) trivial

end Sections

/-! ## Runs -/

namespace World

/-- The invariant of a run: every entry, every call in progress and every result is justified. -/
structure Authentic (w : World E) : Prop where
  inv : w.Inv
  justified : Justified w.log w.table
  threads : ∀ i, ThreadOk w.table w.log (w.threads i)

variable {w : World E}

lemma authentic_start : (start : World E).Authentic where
  inv := inv_start
  justified := by
    refine ⟨fun k e he => absurd he nofun, fun newer p result older heq => ?_⟩
    exact absurd heq.symm (append_ne_nil_of_right_ne_nil _ (cons_ne_nil _ _))
  threads _ := trivial

lemma Authentic.apply (h : w.Authentic) {i : ℕ} {s : Section E}
    (hsound : Sound w.table w.nextToken (w.threads i) s)
    (hs : Honest w.table w.log (w.threads i) s) : (w.apply i s).Authentic := by
  refine ⟨h.inv.apply hsound, ⟨hs.change.entries, hs.change.genuine⟩,
    (forall_update_iff w.threads fun _ => ThreadOk s.table (s.marks ++ w.log)).mpr
      ⟨hs.thread, fun j hji => ?_⟩⟩
  refine (h.threads j).transfer (h.inv.flight j) hs.change
    (fun r hr r' hr' => h.inv.key_ne hji hr hr') fun hj => ?_
  by_contra hne
  exact hji (h.inv.unique j i hj (Bool.eq_true_of_not_eq_false hne))

/-- A change by nobody's reservation and without the permit keeps the invariant. -/
lemma Authentic.change (h : w.Authentic) {t : ConntrackTable} (marks : List (Mark E))
    (hinv : { w with table := t, log := marks ++ w.log }.Inv)
    (hchange : Change w.log none false w.table t marks) :
    { w with table := t, log := marks ++ w.log }.Authentic :=
  ⟨hinv, ⟨hchange.entries, hchange.genuine⟩, fun i => (h.threads i).transfer (h.inv.flight i) hchange
    (fun _ _ _ hnone => absurd hnone nofun) fun _ => rfl⟩

lemma Authentic.exec (h : w.Authentic) (e : Event E) : (w.exec e).Authentic := by
  have hinv := h.inv.exec e
  cases e with
  | call i c =>
    dsimp only [World.exec] at hinv ⊢
    split_ifs at hinv ⊢ with hidle
    · refine ⟨hinv, h.justified, (forall_update_iff w.threads
        fun _ => ThreadOk w.table w.log).mpr ⟨?_, fun j _ => h.threads j⟩⟩
      cases c <;> trivial
    · exact h
  | step i env =>
    exact h.apply (sound_advance h.inv.books env (h.inv.held i) (h.inv.flight i))
      (honest_advance h.inv.books h.justified env (h.inv.flight i) (h.threads i))
  | commitTcpIngressHandshake netNsId srcIp dstIp srcPort dstPort =>
    dsimp only [World.exec] at hinv ⊢
    cases hcommit : w.table.commitTcpIngressHandshake netNsId srcIp dstIp srcPort dstPort with
    | mk t ok =>
      rw [hcommit] at hinv
      cases ok with
      | false => exact h.change [] hinv (change_commitTcpIngressHandshake h.justified hcommit)
      | true => exact h.change [_] hinv (change_commitTcpIngressHandshake h.justified hcommit)
  | commitTcpClose key token =>
    exact h.change [] hinv (change_commitTcpClose h.justified key token)
  | commitTcpIngressReset netNsId srcIp dstIp srcPort dstPort =>
    exact h.change [] hinv
      (change_commitTcpIngressReset h.justified netNsId srcIp dstIp srcPort dstPort)
  | remove key =>
    exact h.change [] hinv (.of_prunes_nil h.justified (.of_shedsTo (w.table.shedsTo_remove key)))
  | drainNs nsId =>
    exact h.change [] hinv (.of_prunes_nil h.justified (.of_shedsTo (w.table.shedsTo_drainNs nsId)))

lemma authentic_run (events : List (Event E)) : (start.run events).Authentic :=
  foldlRecOn events exec authentic_start fun _ h e _ => h.exec e

/-! ## Runs without local packets -/

end World

variable {key : FlowKey}

/-- The lines since a creation are lines of the log. -/
lemma mem_of_sinceCreation {log recent : List (Mark E)}
    (h : sinceCreation key log = some recent) {mark : Mark E} (hmem : mark ∈ recent) :
    mark ∈ log := by
  induction log generalizing recent with
  | nil => cases h
  | cons first log ih =>
    by_cases hfirst : first = .created key
    · rw [hfirst, sinceCreation_created] at h
      rw [← some.inj h] at hmem
      cases hmem
    rw [sinceCreation_cons hfirst] at h
    obtain ⟨recent', hrecent', rfl⟩ := map_eq_some_iff.mp h
    rcases mem_cons.mp hmem with rfl | hmem
    · exact mem_cons_self
    · exact mem_cons_of_mem _ (ih hrecent' hmem)

/-- A call that sends a local packet. -/
def Thread.sends : Thread E → Bool
  | .egress .. | .egressLookup .. | .egressPermit .. | .egressPrepare .. | .egressReserve ..
  | .egressQueue .. | .egressRollback .. | .egressFinalize .. => true
  | _ => false

/-- An event that starts to send a local packet. -/
def Event.sends : Event E → Bool
  | .call _ (.egressTransaction _) => true
  | _ => false

/-- A line that records a local packet. -/
def Mark.sends : Mark E → Bool
  | .finalized .. => true
  | _ => false

lemma not_sends_advance (t : ConntrackTable) (n : ℕ) (env : Env E) {th : Thread E}
    (h : th.sends = false) : (advance t n env th).thread.sends = false ∧
      ∀ mark ∈ (advance t n env th).marks, mark.sends = false := by
  have hnil : ∀ mark ∈ ([] : List (Mark E)), mark.sends = false :=
    fun _ hmem => absurd hmem not_mem_nil
  have hupdated : ∀ (p : Packet) (result : CtUpdateResult),
      ∀ mark ∈ [(.updated p result : Mark E)], mark.sends = false := by
    intro p result mark hmem
    rw [mem_singleton.mp hmem]
    rfl
  cases th with
  | idle => exact ⟨rfl, hnil⟩
  | packet p | create p | createPlan p initial =>
    dsimp only [advance]
    split
    · exact ⟨rfl, hupdated p _⟩
    · exact ⟨rfl, hnil⟩
  | createPublish =>
    refine ⟨rfl, fun mark hmem => ?_⟩
    rcases mem_cons.mp hmem with rfl | hmem
    · rfl
    unfold createdMarks at hmem
    split_ifs at hmem
    · cases hmem
    rw [mem_singleton.mp hmem]
    rfl
  | sweep =>
    dsimp only [advance]
    split <;> exact ⟨rfl, hnil⟩
  | sweepRemove => exact ⟨rfl, hnil⟩
  | _ => cases h

namespace World

variable {w : World E}

/-- Nothing local was sent, and nothing is being sent. -/
structure Passive (w : World E) : Prop where
  threads : ∀ i, (w.threads i).sends = false
  log : ∀ mark ∈ w.log, mark.sends = false

lemma Passive.exec (h : w.Passive) {e : Event E} (he : e.sends = false) : (w.exec e).Passive := by
  cases e with
  | call i c =>
    dsimp only [World.exec]
    split_ifs
    · refine ⟨(forall_update_iff w.threads fun _ th => th.sends = false).mpr
        ⟨?_, fun j _ => h.threads j⟩, h.log⟩
      cases c with
      | egressTransaction => cases he
      | _ => rfl
    · exact h
  | step i env =>
    obtain ⟨hthread, hmarks⟩ := not_sends_advance w.table w.nextToken env (h.threads i)
    refine ⟨(forall_update_iff w.threads fun _ th => th.sends = false).mpr
      ⟨hthread, fun j _ => h.threads j⟩, fun mark hmem => ?_⟩
    · rcases mem_append.mp hmem with hmem | hmem
      · exact hmarks mark hmem
      · exact h.log mark hmem
  | commitTcpIngressHandshake =>
    dsimp only [World.exec]
    split
    · exact ⟨h.threads, h.log⟩
    refine ⟨h.threads, fun mark hmem => ?_⟩
    rcases mem_cons.mp hmem with rfl | hmem
    · rfl
    · exact h.log mark hmem
  | _ => exact ⟨h.threads, h.log⟩

lemma passive_run {events : List (Event E)} (h : ∀ e ∈ events, e.sends = false) :
    (start.run events : World E).Passive :=
  foldlRecOn events exec ⟨fun _ => rfl, fun _ hmem => absurd hmem not_mem_nil⟩
    fun _ hw e he => hw.exec (h e he)

/-- Nothing was earned where nothing local was sent. -/
lemma Passive.not_earned (h : w.Passive) (newer : List (Mark E)) {older : List (Mark E)}
    (hlog : w.log = newer ++ older) : ¬ Earned older key := by
  rintro ⟨recent, hrecent, ⟨l4, state, dir, hmem, -⟩, -⟩
  have hin : Mark.finalized key l4 state dir ∈ w.log := by
    rw [hlog]
    exact mem_append_right _ (mem_of_sinceCreation hrecent hmem)
  cases h.log _ hin

/-- What the results of a run say about the sessions of this host. -/
structure NoForgery (events : List (Event E)) : Prop where
  /-- When `update_on_packet` answers `Established` for a TCP flow, then since the creation of its
  entry a local SYN or SYN-ACK of the flow was finalised and its handshake was completed locally. -/
  earned : ∀ newer p result older,
    (start.run events : World E).log = newer ++ .updated p result :: older →
    p.proto = ipprotoTcp → result.decision = .established → Earned older p.key
  /-- Without an egress transaction no packet is answered like that. -/
  ingress : (∀ e ∈ events, e.sends = false) → ∀ p result,
    .updated p result ∈ (start.run events : World E).log → p.proto = ipprotoTcp →
    result.decision ≠ .established

/-- In every interleaving, `Established` cannot be forged by remote packets. -/
theorem no_forged_session (events : List (Event E)) : NoForgery events := by
  have hgenuine := (authentic_run events).justified.genuine
  refine ⟨hgenuine, fun hquiet p result hmem hproto hdecision => ?_⟩
  obtain ⟨newer, older, hlog⟩ := append_of_mem hmem
  have hearned := hgenuine newer p result older hlog hproto hdecision
  refine (passive_run hquiet).not_earned (newer ++ [.updated p result]) ?_ hearned
  rw [hlog, append_assoc, singleton_append]

end World

/-! ## Sessions can be closed -/

/-- The socket can close the flow: its handshake is complete, a close token is issued for it, and the
token moves it to `TimeWait`. -/
def Closable (t : ConntrackTable) (key : FlowKey) (e : ConntrackEntry) : Prop :=
  e.tcpLocalHandshake = .complete ∧ ∃ token e', t.tcpCloseToken key = some token ∧
    (t.commitTcpClose key token).2 = true ∧
    (t.commitTcpClose key token).1.entries.get key = some e' ∧ e'.state = .tcp .timeWait

lemma closable_of_complete {t : ConntrackTable} {e : ConntrackEntry}
    (hget : t.entries.get key = some e) (hsession : e.state.isSession = true)
    (hcomplete : e.tcpLocalHandshake = .complete) (hgeneration : e.tcpGeneration ≠ 0) :
    Closable t key e := by
  obtain ⟨s, hstate⟩ : ∃ s, e.state = .tcp s := by
    cases hstate : e.state with
    | tcp s => exact ⟨s, rfl⟩
    | _ =>
      rw [hstate] at hsession
      cases hsession
  have hopen : e.state ≠ .tcp .close := by
    intro hclose
    rw [hclose] at hsession
    cases hsession
  have htoken : t.tcpCloseToken key = some ⟨e.tcpGeneration, hgeneration⟩ := by
    simp [tcpCloseToken, hget, hcomplete, hstate, hgeneration]
  have hcommit : t.commitTcpClose key ⟨e.tcpGeneration, hgeneration⟩ =
      (t.modifyEntry key (endConnection (.tcp .timeWait)), true) := by
    simp [commitTcpClose, hget, hopen]
  refine ⟨hcomplete, _, endConnection (.tcp .timeWait) e, htoken, ?_, ?_, rfl⟩
  · rw [hcommit]
  · rw [hcommit]
    exact get_modifyEntry _ hget

namespace World

/-- In every run, a session is closable as long as no local SYN-ACK that leaves it a session was
finalised on its flow. -/
theorem session_closable (events : List (Event E)) (key : FlowKey) (e : ConntrackEntry)
    (hget : (start.run events : World E).table.entries.get key = some e)
    (hsession : e.state.isSession = true)
    (hkept : (start.run events : World E).log.any (Mark.reopens key) = false) :
    Closable (start.run events : World E).table key e := by
  have hentry := (authentic_run events).justified.entries key e hget
  have hcomplete : e.tcpLocalHandshake = .complete :=
    (hentry.complete hsession).resolve_right (by simp [hkept])
  exact closable_of_complete hget hsession hcomplete (hentry.generation (by simp [hcomplete]))

/-- A remote SYN and the local answer to it. -/
def remoteSyn : Packet := ⟨0, ipprotoTcp, 1, 2, 1000, 80, ⟨0x02, 0⟩, 0⟩

def localSynAck : Packet := ⟨0, ipprotoTcp, 2, 1, 80, 1000, ⟨0x12, 0⟩, 0⟩

/-- The steps of a call that gets its memory and whose packet is queued. -/
def steps (n : ℕ) : List (Event Unit) :=
  let alloc : AllocEnv := ⟨fun target => some ⟨target, le_rfl⟩, true⟩
  replicate n (.step 0 ⟨alloc, alloc, alloc, .ok (), true⟩)

/-- A connection is accepted. -/
def accepted : List (Event Unit) :=
  .call 0 (.updateOnPacket remoteSyn) :: steps 4 ++
    .call 0 (.egressTransaction localSynAck) :: steps 5 ++
    [.commitTcpIngressHandshake 0 1 2 1000 80]

theorem session_closable_accepted : ∃ e,
    (start.run accepted).table.entries.get remoteSyn.key = some e ∧
      e.state = .tcp .established ∧ Closable (start.run accepted).table remoteSyn.key e := by
  obtain ⟨e, hget, hstate⟩ := map_eq_some_iff.mp (show
    ((start.run accepted).table.entries.get remoteSyn.key).map ConntrackEntry.state =
      some (.tcp .established) by decide +kernel)
  refine ⟨e, hget, hstate, session_closable accepted _ e hget ?_ (by decide +kernel)⟩
  rw [hstate]
  rfl

/-- The SYN-ACK is sent again: the session has lost its evidence and cannot be closed. -/
theorem synAck_reopens_session :
    let t := (start.run (accepted ++ .call 0 (.egressTransaction localSynAck) :: steps 5)).table
    (t.entries.get remoteSyn.key).map (fun e => (e.state, e.tcpLocalHandshake)) =
      some (.tcp .established, .synAckQueued) ∧ t.tcpCloseToken remoteSyn.key = none := by
  decide +kernel

end World

end Nilix.Net.Ct
