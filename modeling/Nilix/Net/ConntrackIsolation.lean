import Nilix.Net.ConntrackAccounting

/-!
# Connection tracking: tenants do not remove each other's flows

In every state of a run, admission takes the slot of a flow from its own namespace, or from the root
namespace while root holds more than its reserve; and the two sections that create flows,
`create_entry` and the reservation of an egress transaction, remove nothing but the flow admission
chose.  The entry of the very flow that is created is replaced only after it has expired.
-/

namespace Nilix.Net.Ct

open FallibleOrderedMap SortedAssoc

namespace ConntrackTable

variable {t t' : ConntrackTable} {k : FlowKey} {e : ConntrackEntry} {ns : ℕ}

/-- The flow that admission replaces may be removed. -/
lemma Books.evictable_of_replace (h : t.Books)
    (hreplace : admissionLocked t.entries t.nsEntryCounts ns = .replace k) :
    ∃ e, t.entries.get k = some e ∧ t.Evictable ns k e := by
  obtain ⟨e, hvictim, hscope⟩ := h.victim_of_replace hreplace
  exact ⟨e, hvictim.get, hvictim.evictable (hscope.imp_right fun hroot => ⟨hroot.1, hroot.2.2.1⟩)⟩

/-- Below its reserve the root namespace gets a free slot. -/
lemma Books.free_of_root_lt (h : t.Books) (hroot : t.flowsOf ctRootNs < ctRootReserve) :
    admissionLocked t.entries t.nsEntryCounts ctRootNs = .free := by
  have hscope : admissionScope t.entries t.nsEntryCounts ctRootNs = none := by
    have htenants := h.tenants
    have hlt : ¬ ctMaxEntries ≤ t.entries.len := by
      unfold ctRootReserve ctMaxEntriesPerNs ctMaxEntries ctHeapBudgetBytes ctFlowChargeBytes at *
      omega
    unfold admissionScope
    rw [if_neg (fun hand => hand.1 rfl), if_neg hlt]
  unfold admissionLocked
  rw [hscope]

/-! ## What a creation removes -/

/-- A section on behalf of a packet removes no flow but one that admission may remove; the entry of
the packet's own flow stays unless it has expired. -/
structure Spares (t t' : ConntrackTable) (p : Packet) : Prop where
  other : ∀ k e, k ≠ p.key → t.entries.get k = some e →
    t'.entries.get k = some e ∨ t.Evictable p.key.netNsId k e
  own : ∀ e, t.entries.get p.key = some e →
    (e.pendingEgress ≠ none ∨ e.isExpired p.nowMs = false) →
    ∃ e', t'.entries.get p.key = some e'

variable {p : Packet}

lemma get_modifyEntry (f : ConntrackEntry → ConntrackEntry) (hget : t.entries.get k = some e) :
    (t.modifyEntry k f).entries.get k = some (f e) := by
  unfold modifyEntry
  rw [get_modify_self, hget]
  rfl

lemma Spares.of_entries (h : t'.entries = t.entries) : t.Spares t' p where
  other _ _ _ he := .inl (h ▸ he)
  own e he _ := ⟨e, h ▸ he⟩

/-- An ingress packet writes to the entry of its flow only. -/
lemma spares_ingressUpdate (t : ConntrackTable) (p : Packet) (entry : ConntrackEntry) :
    t.Spares (t.ingressUpdate p entry).1 p := by
  unfold ingressUpdate
  dsimp only
  split_ifs
  · exact .of_entries rfl
  · exact ⟨fun _ _ hk he => .inl ((get_modify_of_ne hk).trans he),
      fun _ he _ => ⟨_, get_modifyEntry _ he⟩⟩

/-- The write-locked section of `create_entry`. -/
lemma spares_createPublish (hbooks : t.Books) (p : Packet) (initial : CtProtoState)
    (entryCommitted nsCommitted : Bool) (preparedEntries preparedNs : Option ℕ) :
    t.Spares (t.createPublish p initial entryCommitted nsCommitted preparedEntries
      preparedNs).1 p := by
  have h := published_createPublish hbooks p initial entryCommitted nsCommitted preparedEntries
    preparedNs
  generalize t.createPublish p initial _ _ _ _ = outcome at h ⊢
  cases h with
  | waiting => exact .of_entries rfl
  | update => exact spares_ingressUpdate t p _
  | create hown hcreates =>
    refine ⟨fun k e hk he => ?_, fun e he hlive => ?_⟩
    · rcases hcreates.other k hk with hsame | ⟨-, e', he', hevictable⟩
      · exact .inl (hsame.trans he)
      · exact .inr (Option.some.inj (he'.symm.trans he) ▸ hevictable)
    · obtain ⟨hpending, hexpired⟩ := hown e he
      rcases hlive with hne | hlive
      · exact absurd hpending hne
      · cases hexpired.symm.trans hlive

/-- A reservation waits on its own flow, or adds it and detaches a flow that may be removed. -/
lemma ReservesFlow.spares {token : ℕ} {r : EgressReservation} (h : t.ReservesFlow t' p token r) :
    t.Spares t' p := by
  cases h with
  | existing e hget hpending hentries =>
    refine ⟨fun k e' hk he' => .inl ?_, fun e' he' _ => ?_⟩
    · rw [hentries, get_modify_of_ne hk, he']
    · rw [hentries]
      exact ⟨_, get_modifyEntry _ he'⟩
  | free initial hinitial hget hentries =>
    exact ⟨fun k e' hk he' => .inl ((get_of_insert_of_ne hentries hk).trans he'),
      fun _ _ _ => ⟨_, get_of_insert hentries⟩⟩
  | detach initial hinitial victim e kind hdetach hentries =>
    refine ⟨fun k e' hk he' => ?_, fun _ _ _ => ⟨_, get_of_insert hentries⟩⟩
    by_cases hv : k = victim
    · subst hv
      cases hdetach.get.symm.trans he'
      exact .inr (hdetach.evictable hk)
    · exact .inl ((get_of_insert_of_ne hentries hk).trans ((get_remove_of_ne hv).trans he'))

lemma spares_egressReserve {E : Type} (hbooks : t.Books) (p : Packet) (token : ℕ)
    (permit entryCommitted nsCommitted : Bool) (preparedEntries preparedNs : Option ℕ) :
    t.Spares (t.egressReserve p token permit entryCommitted nsCommitted preparedEntries
      preparedNs : ConntrackTable × Reserved E).1 p := by
  have h := reserveSpec_egressReserve (E := E) hbooks p token permit entryCommitted nsCommitted
    preparedEntries preparedNs
  generalize t.egressReserve p token permit _ _ _ _ = outcome at h ⊢
  rcases outcome with ⟨t', result | r⟩
  · have hget : ∀ k, t'.entries.get k = t.entries.get k := fun k => congrArg (get? · k) h.2.2.2
    exact ⟨fun k e _ he => .inl ((hget k).trans he), fun e he _ => ⟨e, (hget _).trans he⟩⟩
  · exact h.2.spares

end ConntrackTable

/-! ## Every reachable table -/

namespace World

variable {E : Type}

/-- What admission does in a table, and what the sections that create flows remove from it. -/
structure Isolated (t : ConntrackTable) : Prop where
  /-- An admission for a tenant takes the slot of a flow of this tenant, or of a root flow while root
  holds more than its reserve; never that of a TCP flow that is not replaceable or of a flow with a
  pending egress. -/
  victim : ∀ ns k, ns ≠ ctRootNs → admissionLocked t.entries t.nsEntryCounts ns = .replace k →
    ∃ e, t.entries.get k = some e ∧ t.Evictable ns k e
  /-- Below its reserve, root is neither refused nor told to replace a flow. -/
  root : t.flowsOf ctRootNs < ctRootReserve →
    admissionLocked t.entries t.nsEntryCounts ctRootNs = .free
  /-- `create_entry` removes no other flow than one that an admission may remove. -/
  create : ∀ p initial entryCommitted nsCommitted preparedEntries preparedNs,
    t.Spares (t.createPublish p initial entryCommitted nsCommitted preparedEntries preparedNs).1 p
  /-- Neither does the reservation of an egress transaction. -/
  egress : ∀ p token permit entryCommitted nsCommitted preparedEntries preparedNs,
    t.Spares (t.egressReserve p token permit entryCommitted nsCommitted preparedEntries
      preparedNs : ConntrackTable × ConntrackTable.Reserved E).1 p

/-- Whatever happened before, tenants cannot remove flows of other tenants, nor root flows within the
reserve of root, nor sessions. -/
theorem tenants_isolated (events : List (Event E)) :
    Isolated (E := E) (start.run events : World E).table := by
  have hbooks := (inv_run events).books
  constructor
  · intro ns k _ hreplace
    exact hbooks.evictable_of_replace hreplace
  · exact hbooks.free_of_root_lt
  · intro p initial entryCommitted nsCommitted preparedEntries preparedNs
    exact ConntrackTable.spares_createPublish hbooks p initial _ _ _ _
  · intro p token permit entryCommitted nsCommitted preparedEntries preparedNs
    exact ConntrackTable.spares_egressReserve hbooks p token permit _ _ _ _

end World

end Nilix.Net.Ct
