import Nilix.Foundation.Pointwise
import Nilix.Net.ConntrackCreation
import Nilix.Net.ConntrackSystem

/-!
# Connection tracking: accounting along every interleaving

The invariant `Inv` of a run says that the books are kept, that at most one call holds the creation
permit, that tokens are not shared, and that every reservation in flight finds what it counts on.
`Sound` is what one section of a call guarantees, whatever the other calls are; `Inv.apply` puts the
two together.
-/

namespace Nilix.Net.Ct

open ConntrackTable List Bool

variable {E : Type}

namespace Thread

/-- Whether a call holds the creation permit. -/
def permit : Thread E → Bool
  | createPlan .. | createPublish .. | egressPrepare .. => true
  | egressReserve _ _ permit _ _ => permit
  | egressQueue _ permit _ | egressRollback _ permit _ _ | egressFinalize _ permit _ => permit
  | _ => false

/-- The reservation a transaction has in flight. -/
def reservation? : Thread E → Option EgressReservation
  | egressQueue _ _ r | egressRollback _ _ r _ | egressFinalize _ _ r => some r
  | _ => none

/-- The token of a transaction. -/
def token? : Thread E → Option ℕ
  | egressLookup _ token | egressPermit _ token | egressPrepare _ token _ _ _
  | egressReserve _ token _ _ _ => some token
  | egressQueue _ _ r | egressRollback _ _ r _ | egressFinalize _ _ r => some r.token
  | _ => none

/-- What a call adds to the drift of the statistics. -/
def uncounted (th : Thread E) : UInt32 := (th.reservation?.map EgressReservation.uncounted).getD 0

lemma reservation?_idle : (idle : Thread E).reservation? = none := rfl

variable {th : Thread E}

lemma token?_of_reservation? {r : EgressReservation}
    (h : th.reservation? = some r) : th.token? = some r.token := by
  cases th with
  | egressQueue | egressRollback | egressFinalize =>
    exact congrArg (Option.map EgressReservation.token) h
  | _ => exact absurd h (Option.some_ne_none r).symm

lemma uncounted_of_none (h : th.reservation? = none) : th.uncounted = 0 := by
  unfold uncounted
  rw [h]
  rfl

lemma uncounted_of_some {r : EgressReservation} (h : th.reservation? = some r) :
    th.uncounted = r.uncounted := by
  unfold uncounted
  rw [h]
  rfl

end Thread

/-! ## One section -/

/-- What a section guarantees to the other calls. -/
structure Sound (t : ConntrackTable) (n : ℕ) (th : Thread E) (s : Section E) : Prop where
  books : s.table.Books
  /-- The permit is held while a call says so, is taken only when it is free, and is given back only
  by its holder. -/
  held : s.thread.permit = true → s.table.capacityPreparing = true
  acquired : s.thread.permit = true → th.permit = true ∨ t.capacityPreparing = false
  kept : th.permit = false → t.capacityPreparing = true → s.table.capacityPreparing = true
  /-- A token is kept, given up or fresh. -/
  token : s.thread.token? = th.token? ∨ s.thread.token? = none ∨
    s.thread.token? = some n ∧ n < s.nextToken
  next : n ≤ s.nextToken
  /-- The tokens of others stay on their flows. -/
  tokenAt : ∀ k τ, (∀ r, th.reservation? = some r → k ≠ r.key) → t.tokenAt k = some τ →
    s.table.tokenAt k = some τ
  /-- Flows appear, and room for rows is used, under the permit only. -/
  absent : th.permit = false → ∀ k, t.entries.get k = none → s.table.entries.get k = none
  room : th.permit = false →
    ∀ ns, t.nsEntryCounts.RoomFor ns → s.table.nsEntryCounts.RoomFor ns
  flight : ∀ r, s.thread.reservation? = some r → s.table.Flight s.thread.permit r
  drift : s.table.drift + th.uncounted = t.drift + s.thread.uncounted
  noLoss : ∀ p queued, Mark.egress p (.stateLost queued) ∉ s.marks

lemma Sound.uncounted_eq_zero {t : ConntrackTable} {n : ℕ} {th : Thread E} {s : Section E}
    (h : Sound t n th s) (hpermit : s.thread.permit = false) : s.thread.uncounted = 0 := by
  cases hr : s.thread.reservation? with
  | none => exact Thread.uncounted_of_none hr
  | some r => exact (Thread.uncounted_of_some hr).trans ((h.flight r hr).uncounted_eq_zero hpermit)

section Sections

variable {t t' : ConntrackTable} {n n' : ℕ} {th th' : Thread E} {marks : List (Mark E)}

/-- A section that creates nothing, of a call without a reservation before or after. -/
lemma Sound.of_calm (hbooks : t.Books) (hcalm : t.Calm t')
    (hheld : th.permit = true → t.capacityPreparing = true) (hres : th.reservation? = none)
    (hres' : th'.reservation? = none) (hpermit : th'.permit = true → th.permit = true)
    (htoken : th'.token? = th.token? ∨ th'.token? = none ∨ th'.token? = some n ∧ n < n')
    (hnext : n ≤ n') (hloss : ∀ p queued, Mark.egress p (.stateLost queued) ∉ marks) :
    Sound t n th ⟨t', n', th', marks⟩ where
  books := hcalm.books hbooks
  held h := hcalm.permit.trans (hheld (hpermit h))
  acquired h := .inl (hpermit h)
  kept _ h := hcalm.permit.trans h
  token := htoken
  next := hnext
  tokenAt k τ _ h := hcalm.tokenAt k τ h
  absent _ := hcalm.absent
  room _ := hcalm.room
  flight r h := nomatch hres'.symm.trans h
  drift := by rw [hcalm.drift, Thread.uncounted_of_none hres, Thread.uncounted_of_none hres']
  noLoss := hloss

/-- A call that goes on and touches nothing. -/
lemma Sound.of_move (hbooks : t.Books) (hheld : th.permit = true → t.capacityPreparing = true)
    (hres : th.reservation? = none) (hres' : th'.reservation? = none)
    (hpermit : th'.permit = true → th.permit = true) (htoken : th'.token? = th.token?) :
    Sound t n th ⟨t, n, th', []⟩ :=
  .of_calm hbooks (.refl t) hheld hres hres' hpermit (.inl htoken) le_rfl (by simp)

/-- A holder of the permit that ends without a reservation. -/
lemma Sound.of_release (hbooks : t.Books) (hkeeps : t.Keeps t') (hpermit : th.permit = true)
    (hres : th.reservation? = none)
    (hloss : ∀ p queued, Mark.egress p (.stateLost queued) ∉ marks) :
    Sound t n th ⟨t'.releasePermit, n, .idle, marks⟩ where
  books := (hkeeps.books hbooks).congr rfl rfl
  held := nofun
  acquired := nofun
  kept h := nomatch hpermit.symm.trans h
  token := .inr (.inl rfl)
  next := le_rfl
  tokenAt k τ _ h := hkeeps.tokenAt k τ h
  absent h := nomatch hpermit.symm.trans h
  room h := nomatch hpermit.symm.trans h
  flight r h := nomatch Thread.reservation?_idle.symm.trans h
  drift := by
    have hdrift : t'.releasePermit.drift = t.drift := hkeeps.drift
    rw [hdrift, Thread.uncounted_of_none hres]
    rfl
  noLoss := hloss

lemma Sound.of_acquire (hbooks : t.Books) (h : t.tryCapacityPermit = some t')
    (hres : th.reservation? = none) (hres' : th'.reservation? = none)
    (htoken : th'.token? = th.token?) : Sound t n th ⟨t', n, th', []⟩ := by
  unfold tryCapacityPermit at h
  split_ifs at h with hfree
  cases h
  exact {
    books := hbooks.congr rfl rfl
    held := fun _ => rfl
    acquired := fun _ => .inr (eq_false_of_not_eq_true hfree)
    kept := fun _ _ => rfl
    token := .inl htoken
    next := le_rfl
    tokenAt := fun _ _ _ => id
    absent := fun _ _ => id
    room := fun _ _ => id
    flight := fun r hr => nomatch hres'.symm.trans hr
    drift := by rw [Thread.uncounted_of_none hres, Thread.uncounted_of_none hres']; rfl
    noLoss := by simp }

variable {r : EgressReservation}

lemma Sound.of_reserves {p : Packet} {token : ℕ} {permit : Bool}
    {preparedEntries preparedNs : Option ℕ} (hheld : permit = true → t.capacityPreparing = true)
    (h : t.Reserves t' p.key token permit r) :
    Sound t n (.egressReserve p token permit preparedEntries preparedNs : Thread E)
      ⟨t', n, .egressQueue p permit r, []⟩ where
  books := h.books
  held hp := h.permit.trans (hheld hp)
  acquired hp := .inl hp
  kept _ hp := h.permit.trans hp
  token := .inl (congrArg some h.token)
  next := le_rfl
  tokenAt k τ _ hτ := h.tokenAt k τ hτ
  absent hp := (h.calm (h.flight.createdEntry_eq_false hp)).absent
  room hp := (h.calm (h.flight.createdEntry_eq_false hp)).room
  flight r' hr' := by
    cases hr'
    exact h.flight
  drift := by
    rw [h.drift]
    exact add_zero _
  noLoss _ _ := not_mem_nil

/-- A call whose reservation passes the queue callback. -/
lemma Sound.of_answer (hbooks : t.Books) (hheld : th.permit = true → t.capacityPreparing = true)
    (hflight : t.Flight th.permit r) (hres : th.reservation? = some r)
    (hres' : th'.reservation? = some r) (hpermit : th'.permit = th.permit)
    (htoken : th'.token? = th.token?) : Sound t n th ⟨t, n, th', []⟩ where
  books := hbooks
  held h := hheld (hpermit.symm.trans h)
  acquired h := .inl (hpermit.symm.trans h)
  kept _ h := h
  token := .inl htoken
  next := le_rfl
  tokenAt _ _ _ h := h
  absent _ _ h := h
  room _ _ h := h
  flight r' h := by
    cases hres'.symm.trans h
    rw [hpermit]
    exact hflight
  drift := by rw [Thread.uncounted_of_some hres, Thread.uncounted_of_some hres']
  noLoss _ _ := not_mem_nil

lemma Sound.of_settles (hres : th.reservation? = some r) (hflight : t.Flight th.permit r)
    (h : t.Settles t' r) (hloss : ∀ p queued, Mark.egress p (.stateLost queued) ∉ marks) :
    Sound t n th ⟨t'.dropPermit th.permit, n, .idle, marks⟩ where
  books := by
    unfold dropPermit
    split_ifs
    · exact h.books.congr rfl rfl
    · exact h.books
  held := nofun
  acquired := nofun
  kept hp hflag := by
    rw [hp]
    exact h.permit.trans hflag
  token := .inr (.inl rfl)
  next := le_rfl
  tokenAt k τ hk hτ := by
    have hkeep := h.tokenAt k τ (hk r hres) hτ
    unfold dropPermit
    split_ifs <;> exact hkeep
  absent hp := by
    rw [hp]
    exact h.absent (hflight.createdEntry_eq_false hp)
  room hp := by
    rw [hp]
    exact h.room (hflight.createdEntry_eq_false hp)
  flight r h := nomatch Thread.reservation?_idle.symm.trans h
  drift := by
    have hdrift : (t'.dropPermit th.permit).drift = t'.drift := by
      unfold dropPermit
      split_ifs <;> rfl
    rw [hdrift, Thread.uncounted_of_some hres, ← h.drift]
    exact (add_zero _).symm
  noLoss := hloss

lemma notLost_createdMarks (t t' : ConntrackTable) (key : FlowKey) (p : Packet) (queued : Bool) :
    Mark.egress p (.stateLost queued) ∉ (createdMarks t t' key : List (Mark E)) := by
  unfold createdMarks
  split_ifs <;> simp

lemma notLost_finalizedMarks (t : ConntrackTable) (r : EgressReservation) (p p' : Packet)
    (queued : Bool) :
    Mark.egress p' (.stateLost queued) ∉ (finalizedMarks t p r : List (Mark E)) := by
  unfold finalizedMarks
  split <;> simp

lemma sound_egressReserve (hbooks : t.Books) (env : Env E) (p : Packet) (token : ℕ)
    (permit : Bool) (preparedEntries preparedNs : Option ℕ)
    (hheld : permit = true → t.capacityPreparing = true) :
    Sound t n (.egressReserve p token permit preparedEntries preparedNs)
      (advance t n env (.egressReserve p token permit preparedEntries preparedNs)) := by
  have hspec := reserveSpec_egressReserve (E := E) hbooks p token permit
    env.entryAlloc.committed env.nsAlloc.committed preparedEntries preparedNs
  dsimp only [advance]
  generalize t.egressReserve p token permit env.entryAlloc.committed env.nsAlloc.committed
    preparedEntries preparedNs = outcome at hspec
  obtain ⟨t', result | r⟩ := outcome
  · obtain ⟨hkeeps, hcalm, hloss, -⟩ := hspec
    have hmarks : ∀ p' queued, Mark.egress p' (.stateLost queued) ∉
        [(Mark.egress p result : Mark E)] := by
      intro p' queued hmem
      rw [mem_singleton] at hmem
      exact hloss queued (Mark.egress.inj hmem).2.symm
    cases permit with
    | true => exact .of_release hbooks hkeeps rfl rfl hmarks
    | false =>
      exact .of_calm hbooks (hcalm rfl) hheld rfl rfl nofun (.inr (.inl rfl)) le_rfl hmarks
  · exact .of_reserves hheld hspec.1

lemma sound_advance (hbooks : t.Books) (env : Env E)
    (hheld : th.permit = true → t.capacityPreparing = true)
    (hflight : ∀ r, th.reservation? = some r → t.Flight th.permit r) :
    Sound t n th (advance t n env th) := by
  cases th with
  | idle =>
    exact .of_move hbooks hheld rfl rfl id rfl
  | packet p =>
    have hcalm := t.calm_updateOnPacket p
    dsimp only [advance]
    generalize t.updateOnPacket p = outcome at hcalm
    obtain ⟨t', _ | result⟩ := outcome
    · exact .of_calm hbooks hcalm hheld rfl rfl id (.inl rfl) le_rfl (by simp)
    · exact .of_calm hbooks hcalm hheld rfl rfl id (.inl rfl) le_rfl (by simp)
  | create p =>
    dsimp only [advance, createBegin]
    cases initialState p.proto p.l4 with
    | none =>
      exact .of_calm hbooks t.calm_invalidTransition hheld rfl rfl id (.inl rfl) le_rfl (by simp)
    | some =>
      cases hpermit : t.tryCapacityPermit with
      | none =>
        exact .of_calm hbooks t.calm_insertFailed hheld rfl rfl id (.inl rfl) le_rfl (by simp)
      | some => exact .of_acquire hbooks hpermit rfl rfl rfl
  | createPlan =>
    dsimp only [advance]
    split
    · exact .of_release hbooks t.calm_insertFailed.toKeeps rfl rfl (by simp)
    · exact .of_move hbooks hheld rfl rfl id rfl
  | createPublish p initial preparedEntries preparedNs =>
    refine .of_release hbooks
      (keeps_createPublish hbooks p initial _ _ preparedEntries preparedNs) rfl rfl
      fun p' queued hmem => ?_
    rcases mem_cons.mp hmem with heq | hmem
    · cases heq
    · exact notLost_createdMarks _ _ _ _ _ hmem
  | egress =>
    dsimp only [advance, fetchEgressToken]
    cases hadd : checkedAdd n 1 with
    | none =>
      exact .of_calm hbooks (.refl t) hheld rfl rfl id (.inl rfl) le_rfl (by simp)
    | some n' =>
      have hn' : n' = n + 1 := eq_of_checkedAdd hadd
      split_ifs with hzero
      · exact .of_calm hbooks (.refl t) hheld rfl rfl id (.inr (.inr ⟨rfl, by omega⟩))
          (by omega) (by simp)
      exact .of_calm hbooks (.refl t) hheld rfl rfl id (.inl rfl) (by omega) (by simp)
  | egressLookup =>
    dsimp only [advance]
    split_ifs <;> exact .of_move hbooks hheld rfl rfl id rfl
  | egressPermit =>
    dsimp only [advance]
    cases hpermit : t.tryCapacityPermit with
    | none =>
      exact .of_calm hbooks t.calm_insertFailed hheld rfl rfl id (.inr (.inl rfl)) le_rfl (by simp)
    | some => exact .of_acquire hbooks hpermit rfl rfl rfl
  | egressPrepare p token retries preparedEntries preparedNs =>
    have hreject : Sound t n (.egressPrepare p token retries preparedEntries preparedNs : Thread E)
        ⟨t.insertFailed.releasePermit, n, .idle,
          [.egress p (.rejected (resourceRejection p.dir))]⟩ :=
      Sound.of_release hbooks t.calm_insertFailed.toKeeps rfl rfl (by simp)
    cases retries with
    | zero => exact hreject
    | succ =>
      dsimp only [advance]
      split
      · exact hreject
      · exact .of_move hbooks hheld rfl rfl id rfl
      · exact .of_move hbooks hheld rfl rfl id rfl
  | egressReserve p token permit preparedEntries preparedNs =>
    exact sound_egressReserve hbooks env p token permit preparedEntries preparedNs hheld
  | egressQueue p permit r =>
    dsimp only [advance]
    split <;> exact .of_answer hbooks hheld (hflight r rfl) rfl rfl rfl rfl
  | egressRollback p permit r =>
    obtain ⟨t', hrollback, hsettles⟩ := settles_rollback hbooks (hflight r rfl)
    dsimp only [advance]
    rw [hrollback]
    refine .of_settles rfl (hflight r rfl) hsettles fun p' queued => ?_
    simp
  | egressFinalize p permit r =>
    obtain ⟨t', result, hfinalize, hsettles⟩ :=
      settles_finalize hbooks (hflight r rfl)
    dsimp only [advance]
    rw [hfinalize]
    refine .of_settles rfl (hflight r rfl) hsettles fun p' queued hmem => ?_
    rcases mem_cons.mp hmem with heq | hmem
    · split_ifs at heq <;> exact absurd (Mark.egress.inj heq).2 nofun
    rcases mem_append.mp hmem with hmem | hmem
    · exact notLost_finalizedMarks _ _ _ _ _ hmem
    · exact notLost_createdMarks _ _ _ _ _ hmem
  | sweep =>
    dsimp only [advance]
    split <;> exact .of_move hbooks hheld rfl rfl id rfl
  | sweepRemove toRemove =>
    exact .of_calm hbooks (t.shedsTo_sweepRemove toRemove).calm hheld rfl rfl id (.inl rfl) le_rfl
      (by simp)

end Sections

/-! ## All calls -/

namespace World

/-- The invariant of a run. -/
structure Inv (w : World E) : Prop where
  books : w.table.Books
  held : ∀ i, (w.threads i).permit = true → w.table.capacityPreparing = true
  /-- At most one call holds the permit. -/
  unique : ∀ i j, (w.threads i).permit = true → (w.threads j).permit = true → i = j
  /-- Tokens are not shared. -/
  token_lt : ∀ i τ, (w.threads i).token? = some τ → τ < w.nextToken
  token_inj : ∀ i j τ, (w.threads i).token? = some τ → (w.threads j).token? = some τ → i = j
  flight : ∀ i r, (w.threads i).reservation? = some r → w.table.Flight (w.threads i).permit r
  /-- The statistics are off by the flow that the holder of the permit has not counted yet. -/
  drift : ∀ i, (w.threads i).permit = true → w.table.drift = (w.threads i).uncounted
  noDrift : (∀ i, (w.threads i).permit = false) → w.table.drift = 0
  noLoss : ∀ p queued, Mark.egress p (.stateLost queued) ∉ w.log

lemma inv_start : (start : World E).Inv where
  books := by
    refine ⟨FallibleOrderedMap.represents_new, Nat.zero_le _, fun _ _ => Nat.zero_le _,
      Nat.zero_le _⟩
  held := nofun
  unique := nofun
  token_lt _ τ h := absurd h (Option.some_ne_none τ).symm
  token_inj _ _ τ h := absurd h (Option.some_ne_none τ).symm
  flight _ r h := absurd h (Option.some_ne_none r).symm
  drift := nofun
  noDrift _ := sub_self (0 : UInt32)
  noLoss _ _ := not_mem_nil

variable {w : World E} {i : ℕ}

/-- Reservations of different calls hold different flows. -/
lemma Inv.key_ne (h : w.Inv) {j : ℕ} (hij : i ≠ j) {r r' : EgressReservation}
    (hr : (w.threads i).reservation? = some r) (hr' : (w.threads j).reservation? = some r') :
    r.key ≠ r'.key := by
  intro heq
  have htoken := (h.flight i r hr).token
  rw [heq, (h.flight j r' hr').token] at htoken
  refine hij (h.token_inj i j r.token (Thread.token?_of_reservation? hr) ?_)
  rw [Thread.token?_of_reservation? hr', htoken]

/-- A call without the permit has counted its flows. -/
lemma Inv.uncounted_eq_zero (h : w.Inv) (hpermit : (w.threads i).permit = false) :
    (w.threads i).uncounted = 0 := by
  cases hr : (w.threads i).reservation? with
  | none => exact Thread.uncounted_of_none hr
  | some r => exact (Thread.uncounted_of_some hr).trans ((h.flight i r hr).uncounted_eq_zero hpermit)

variable {s : Section E}

section

variable (h : w.Inv)
include h

/-- What a reservation in flight counts on survives a sound section of another call. -/
lemma Inv.flight_of_sound {j : ℕ} (hij : j ≠ i) (hs : Sound w.table w.nextToken (w.threads i) s)
    {r : EgressReservation} (hr : (w.threads j).reservation? = some r) :
    s.table.Flight (w.threads j).permit r := by
  have hflight := h.flight j r hr
  refine ⟨hs.tokenAt r.key r.token (fun r' hr' => h.key_ne hij hr hr') hflight.token,
    hflight.created, fun v hv => ?_⟩
  obtain ⟨hcreated, habsent, hscope⟩ := hflight.victim v hv
  -- The other call replaced a flow, so it holds the permit and this one does not.
  have hpermit : (w.threads i).permit = false :=
    eq_false_iff.mpr fun hi => hij (h.unique j i (hflight.created hcreated) hi)
  exact ⟨hcreated, fun hne => hs.absent hpermit v.key (habsent hne),
    hscope.imp_right (And.imp_right (hs.room hpermit _))⟩

section

variable (hs : Sound w.table w.nextToken (w.threads i) s)
include hs

/-- The drift after a section that leaves its call with the permit. -/
lemma Inv.drift_of_holder (hpermit : s.thread.permit = true) :
    s.table.drift = s.thread.uncounted := by
  have hdrift := hs.drift
  rcases hs.acquired hpermit with hi | hfree
  · rw [h.drift i hi, add_comm] at hdrift
    exact add_left_cancel hdrift
  have hnone : ∀ j, (w.threads j).permit = false := fun j =>
    eq_false_iff.mpr fun hj => nomatch hfree.symm.trans (h.held j hj)
  rw [h.noDrift hnone, h.uncounted_eq_zero (hnone i), add_zero, zero_add] at hdrift
  exact hdrift

/-- The drift after a section of a call without the permit. -/
lemma Inv.drift_of_bystander (hi : (w.threads i).permit = false) (hi' : s.thread.permit = false) :
    s.table.drift = w.table.drift := by
  have hdrift := hs.drift
  rwa [h.uncounted_eq_zero hi, hs.uncounted_eq_zero hi', add_zero, add_zero] at hdrift

lemma Inv.apply : (w.apply i s).Inv := by
  have hself : (w.apply i s).threads i = s.thread := Function.update_self ..
  have hother : ∀ j, j ≠ i → (w.apply i s).threads j = w.threads j :=
    fun j hj => Function.update_of_ne hj ..
  -- Nobody else holds the permit while this call does.
  have halone : ∀ j, j ≠ i → s.thread.permit = true → (w.threads j).permit = false := by
    intro j hj hpermit
    refine eq_false_iff.mpr fun hj' => ?_
    rcases hs.acquired hpermit with hi | hfree
    · exact hj (h.unique j i hj' hi)
    · cases hfree.symm.trans (h.held j hj')
  -- The token of another call is neither the one this call had nor a fresh one.
  have htoken : ∀ j τ, j ≠ i → (w.threads j).token? = some τ → s.thread.token? ≠ some τ := by
    intro j τ hj hτ hi
    rcases hs.token with hsame | hnone | ⟨hfresh, -⟩
    · exact hj (h.token_inj j i τ hτ (hsame.symm.trans hi))
    · cases hnone.symm.trans hi
    · have hlt := h.token_lt j τ hτ
      cases hfresh.symm.trans hi
      exact absurd hlt (lt_irrefl _)
  have htokens : Marked Thread.token? (· < s.nextToken) Eq (w.apply i s).threads := by
    have hbefore : Marked Thread.token? (· < w.nextToken) Eq w.threads :=
      ⟨h.token_lt, fun j k τ τ' hj hk heq => h.token_inj j k τ hj (heq ▸ hk)⟩
    refine hbefore.update (fun _ _ => Eq.symm)
      (fun τ hτ => ⟨?_, fun j hj τ' hτ' heq => htoken j τ' hj hτ' (heq ▸ hτ)⟩)
      fun j _ τ hτ => (h.token_lt j τ hτ).trans_le hs.next
    rcases hs.token with hsame | hnone | ⟨hfresh, hlt⟩
    · exact (h.token_lt i τ (hsame.symm.trans hτ)).trans_le hs.next
    · cases hnone.symm.trans hτ
    · exact Option.some.inj (hfresh.symm.trans hτ) ▸ hlt
  refine ⟨hs.books, ?_, ?_, htokens.sound, fun j k τ hj hk => htokens.apart j k τ τ hj hk rfl, ?_, ?_,
    ?_, ?_⟩
  · intro j hj
    by_cases hji : j = i
    · subst hji
      exact hs.held (hself ▸ hj)
    rw [hother j hji] at hj
    cases hi : (w.threads i).permit with
    | false => exact hs.kept hi (h.held j hj)
    | true => exact absurd (h.unique j i hj hi) hji
  · intro j k hj hk
    by_cases hji : j = i <;> by_cases hki : k = i
    · exact hji.trans hki.symm
    · rw [hji, hself] at hj
      rw [hother k hki, halone k hki hj] at hk
      cases hk
    · rw [hki, hself] at hk
      rw [hother j hji, halone j hji hk] at hj
      cases hj
    · rw [hother j hji] at hj
      rw [hother k hki] at hk
      exact h.unique j k hj hk
  · intro j r hr
    by_cases hji : j = i
    · subst hji
      rw [hself] at hr ⊢
      exact hs.flight r hr
    rw [hother j hji] at hr ⊢
    exact h.flight_of_sound hji hs hr
  · intro j hj
    by_cases hji : j = i
    · rw [hji, hself] at hj ⊢
      exact h.drift_of_holder hs hj
    rw [hother j hji] at hj ⊢
    have hi : (w.threads i).permit = false :=
      eq_false_iff.mpr fun hi => hji (h.unique j i hj hi)
    have hi' : s.thread.permit = false :=
      eq_false_iff.mpr fun hi' => nomatch (halone j hji hi').symm.trans hj
    exact (h.drift_of_bystander hs hi hi').trans (h.drift j hj)
  · intro hnone
    have hi' : s.thread.permit = false := hself ▸ hnone i
    cases hi : (w.threads i).permit with
    | true =>
      have hdrift := hs.drift
      rw [h.drift i hi, hs.uncounted_eq_zero hi', add_zero] at hdrift
      exact add_eq_right.mp hdrift
    | false =>
      refine (h.drift_of_bystander hs hi hi').trans (h.noDrift fun j => ?_)
      by_cases hji : j = i
      · rw [hji, hi]
      rw [← hother j hji]
      exact hnone j
  · intro p queued hmem
    rcases mem_append.mp hmem with hmem | hmem
    · exact hs.noLoss p queued hmem
    · exact h.noLoss p queued hmem

end

lemma Inv.calm {t : ConntrackTable} (hcalm : w.table.Calm t) : { w with table := t }.Inv where
  books := hcalm.books h.books
  held i hi := hcalm.permit.trans (h.held i hi)
  __ := h
  flight i r hr := by
    have hflight := h.flight i r hr
    refine ⟨hcalm.tokenAt r.key r.token hflight.token, hflight.created, fun v hv => ?_⟩
    obtain ⟨hcreated, habsent, hscope⟩ := hflight.victim v hv
    exact ⟨hcreated, fun hne => hcalm.absent v.key (habsent hne),
      hscope.imp_right (And.imp_right (hcalm.room _))⟩
  drift i hi := hcalm.drift.trans (h.drift i hi)
  noDrift hnone := hcalm.drift.trans (h.noDrift hnone)

lemma Inv.note {mark : Mark E} (hmark : ∀ p queued, mark ≠ .egress p (.stateLost queued)) :
    { w with log := mark :: w.log }.Inv :=
  { h with
    noLoss := fun p queued hmem => by
      rcases mem_cons.mp hmem with heq | hmem
      · exact hmark p queued heq.symm
      · exact h.noLoss p queued hmem }

lemma Inv.call (hidle : (w.threads i).isIdle = true) (c : Call) :
    { w with threads := Function.update w.threads i c.thread }.Inv := by
  have hthread : w.threads i = .idle := by
    cases hth : w.threads i with
    | idle => rfl
    | _ =>
      rw [hth] at hidle
      cases hidle
  have hsound : Sound w.table w.nextToken (w.threads i)
      ⟨w.table, w.nextToken, (c.thread : Thread E), []⟩ := by
    rw [hthread]
    cases c <;>
      exact .of_calm h.books (.refl _) nofun rfl rfl id
        (.inl rfl) le_rfl (by simp)
  exact h.apply hsound

lemma Inv.exec (e : Event E) : (w.exec e).Inv := by
  cases e with
  | call i c =>
    dsimp only [World.exec]
    split_ifs with hidle
    · exact h.call hidle c
    · exact h
  | step i env => exact h.apply (sound_advance h.books env (h.held i) (h.flight i))
  | commitTcpIngressHandshake netNsId srcIp dstIp srcPort dstPort =>
    have hcalm := w.table.calm_commitTcpIngressHandshake netNsId srcIp dstIp srcPort dstPort
    dsimp only [World.exec]
    generalize w.table.commitTcpIngressHandshake netNsId srcIp dstIp srcPort dstPort = outcome
      at hcalm
    obtain ⟨t, _ | _⟩ := outcome
    · exact h.calm hcalm
    · exact (h.calm hcalm).note fun _ _ => nofun
  | commitTcpClose key token => exact h.calm (w.table.calm_commitTcpClose key token)
  | commitTcpIngressReset netNsId srcIp dstIp srcPort dstPort =>
    exact h.calm (w.table.calm_commitTcpIngressReset netNsId srcIp dstIp srcPort dstPort)
  | remove key => exact h.calm (w.table.shedsTo_remove key).calm
  | drainNs nsId => exact h.calm (w.table.shedsTo_drainNs nsId).calm

end

lemma inv_run (events : List (Event E)) : (start.run events).Inv :=
  foldlRecOn events exec inv_start fun _ h e _ => h.exec e

/-- In every interleaving a reservation in flight finds its flow with its token, can put back what it
replaced, and shares its flow with no other. -/
theorem flights_run (events : List (Event E)) :
    let w : World E := start.run events
    (∀ i r, (w.threads i).reservation? = some r → w.table.Flight (w.threads i).permit r) ∧
      Pairwise fun i j => ∀ r r', (w.threads i).reservation? = some r →
        (w.threads j).reservation? = some r' → r.key ≠ r'.key :=
  ⟨(inv_run events).flight, fun _ _ hij _ _ => (inv_run events).key_ne hij⟩

/-! ## The accounting -/

end World

end Nilix.Net.Ct
