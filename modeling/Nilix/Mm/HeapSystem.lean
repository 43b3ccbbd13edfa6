import Mathlib.Logic.Relation
import Nilix.Mm.HeapRegistry

/-!
# Runs of the heap admission

`HeapWorld` puts next to the counters what is outside them: the live owners and the live handles.  An
operation takes a live handle and gives back what becomes of it; an owner lives as long as a handle
refers to it.  `Sound` is the invariant of a world.
-/

namespace Nilix.Mm

open Relation List

/-! ## Worlds and operations -/

/-- The counters, the live owners and the live handles. -/
structure HeapWorld where
  state : HeapState
  owners : List HeapOwner
  reservations : List HeapReservation
  charges : List HeapCharge
  transfers : List HeapOwnerTransfer

/-- What the owners of some handles are charged for. -/
def stakesOf (R C : List HeapHandle) (T : List HeapOwnerTransfer) : List HeapHandle :=
  R ++ (C ++ T.flatMap (·.stakes))

/-- The charges of handles and those for the owners' own allocations. -/
def chargesOf (owners : List HeapOwner) (C : List HeapCharge) : List HeapCharge :=
  C ++ owners.map (·.allocation)

/-- The operations on owners and handles. -/
inductive HeapOp
  | publish
  | tryNew (hostUid : Option ℕ) (id arcBytes : ℕ) (arcOk : Bool)
  | dropOwner (o : HeapOwner)
  | tryReserveOwned (c : HeapClass) (bytes : ℕ) (owner : Option HeapOwner)
  | resize (r : HeapReservation) (newBytes : ℕ)
  | commit (r : HeapReservation)
  | dropReservation (r : HeapReservation)
  | tryReserveMore (ch : HeapCharge) (bytes : ℕ)
  | releaseAfterDeallocation (ch : HeapCharge) (bytes : ℕ)
  | absorb (ch : HeapCharge) (r : HeapReservation)
  | dropCharge (ch : HeapCharge)
  | prepareOwnerTransfer (ch : HeapCharge) (owner : Option HeapOwner)
  | commitTransfer (t : HeapOwnerTransfer) (ch : HeapCharge)
  | dropTransfer (t : HeapOwnerTransfer)

/-- The owner is one of the live ones. -/
def isAlive (owners : List HeapOwner) (owner : Option HeapOwner) : Bool :=
  owner.all fun o => o ∈ owners

namespace HeapWorld

/-- No live handle refers to the owner. -/
def Unreferenced (w : HeapWorld) (o : HeapOwner) : Prop :=
  (∀ h ∈ w.reservations ++ w.charges, h.owner ≠ some o) ∧
    ∀ t ∈ w.transfers, t.previous ≠ some o ∧ t.owner ≠ some o

instance (w : HeapWorld) (o : HeapOwner) : Decidable (w.Unreferenced o) := by
  unfold Unreferenced
  infer_instance

end HeapWorld

/-- An operation takes live handles and live owners; an owner is dropped with its last reference, and
the identity of a new allocation differs from those of the live ones. -/
def HeapOp.Enabled (w : HeapWorld) : HeapOp → Prop
  | .publish => True
  | .tryNew _ id _ _ => id ∉ w.owners.map (·.id)
  | .dropOwner o => o ∈ w.owners ∧ w.Unreferenced o
  | .tryReserveOwned _ _ owner => isAlive w.owners owner = true
  | .resize r _ => r ∈ w.reservations
  | .commit r => r ∈ w.reservations
  | .dropReservation r => r ∈ w.reservations
  | .tryReserveMore ch _ => ch ∈ w.charges
  | .releaseAfterDeallocation ch _ => ch ∈ w.charges
  | .absorb ch r => ch ∈ w.charges ∧ r ∈ w.reservations
  | .dropCharge ch => ch ∈ w.charges
  | .prepareOwnerTransfer ch owner => ch ∈ w.charges ∧ isAlive w.owners owner = true
  | .commitTransfer t ch => t ∈ w.transfers ∧ ch ∈ w.charges
  | .dropTransfer t => t ∈ w.transfers

instance (w : HeapWorld) (op : HeapOp) : Decidable (op.Enabled w) := by
  cases op <;> unfold HeapOp.Enabled <;> infer_instance

namespace HeapWorld

/-- A successful call adds what it returned. -/
def keep {ε α : Type} : Except ε α → List α → List α
  | .ok a, l => a :: l
  | .error _, l => l

/-- The execution of an operation. -/
def exec (w : HeapWorld) : HeapOp → Except HeapFault HeapWorld
  | .publish => .ok { w with state := { w.state with published := true } }
  | .tryNew hostUid id arcBytes arcOk =>
    (HeapOwner.tryNewFor w.state hostUid id arcBytes arcOk).map fun (r, s) =>
      { w with state := s, owners := keep r w.owners }
  | .dropOwner o => (o.drop w.state).map fun s => { w with state := s, owners := w.owners.erase o }
  | .tryReserveOwned c bytes owner => (Mm.tryReserveOwned w.state c bytes owner).map fun (r, s) =>
      { w with state := s, reservations := keep r w.reservations }
  | .resize r newBytes => (HeapReservation.resize r w.state newBytes).map fun (_, r', s) =>
      { w with state := s, reservations := r' :: w.reservations.erase r }
  | .commit r => (HeapReservation.commit r w.state).map fun (res, s) =>
      { w with state := s, reservations := w.reservations.erase r, charges := keep res w.charges }
  | .dropReservation r => (HeapReservation.drop r w.state).map fun s =>
      { w with state := s, reservations := w.reservations.erase r }
  | .tryReserveMore ch bytes => (HeapCharge.tryReserveMore ch w.state bytes).map fun (r, s) =>
      { w with state := s, reservations := keep r w.reservations }
  | .releaseAfterDeallocation ch bytes =>
    (HeapCharge.releaseAfterDeallocation ch w.state bytes).map fun (_, ch', s) =>
      { w with state := s, charges := ch' :: w.charges.erase ch }
  | .absorb ch r => (HeapCharge.absorb ch r w.state).map fun (_, ch', s) =>
      { w with
        state := s
        reservations := w.reservations.erase r
        charges := ch' :: w.charges.erase ch }
  | .dropCharge ch => (HeapCharge.drop ch w.state).map fun s =>
      { w with state := s, charges := w.charges.erase ch }
  | .prepareOwnerTransfer ch owner =>
    (HeapCharge.prepareOwnerTransfer ch w.state owner).map fun (t, s) =>
      { w with state := s, transfers := keep t w.transfers }
  | .commitTransfer t ch => (t.commit ch w.state).map fun (_, ch', s) =>
      { w with
        state := s
        charges := ch' :: w.charges.erase ch
        transfers := w.transfers.erase t }
  | .dropTransfer t => (t.drop w.state).map fun s =>
      { w with state := s, transfers := w.transfers.erase t }

end HeapWorld

/-! ## Books and references -/

/-- The owner and the previous owner of every handle are live. -/
structure References (owners : List HeapOwner) (R C : List HeapHandle)
    (T : List HeapOwnerTransfer) : Prop where
  reservations : ∀ r ∈ R, Alive owners r.owner
  charges : ∀ ch ∈ C, Alive owners ch.owner
  transfers : ∀ t ∈ T, Alive owners t.previous ∧ Alive owners t.owner

namespace References

variable {owners : List HeapOwner} {R C : List HeapHandle} {T : List HeapOwnerTransfer}

section

variable (h : References owners R C T)
include h

lemma eraseReservation (r : HeapReservation) : References owners (R.erase r) C T where
  __ := h
  reservations r' hr' := h.reservations r' (mem_of_mem_erase hr')

lemma eraseCharge (ch : HeapCharge) : References owners R (C.erase ch) T where
  __ := h
  charges ch' hch' := h.charges ch' (mem_of_mem_erase hch')

lemma eraseTransfer (t : HeapOwnerTransfer) : References owners R C (T.erase t) where
  __ := h
  transfers t' ht' := h.transfers t' (mem_of_mem_erase ht')

lemma consReservation {r : HeapReservation}
    (hr : Alive owners r.owner) : References owners (r :: R) C T where
  __ := h
  reservations := forall_mem_cons.mpr ⟨hr, h.reservations⟩

lemma consCharge {ch : HeapCharge}
    (hch : Alive owners ch.owner) : References owners R (ch :: C) T where
  __ := h
  charges := forall_mem_cons.mpr ⟨hch, h.charges⟩

lemma consTransfer {t : HeapOwnerTransfer}
    (hprevious : Alive owners t.previous) (ht : Alive owners t.owner) :
    References owners R C (t :: T) where
  __ := h
  transfers := forall_mem_cons.mpr ⟨⟨hprevious, ht⟩, h.transfers⟩

/-- References to some live owners are references to more live owners. -/
lemma of_alive {owners' : List HeapOwner}
    (hR : ∀ r ∈ R, Alive owners r.owner → Alive owners' r.owner)
    (hC : ∀ ch ∈ C, Alive owners ch.owner → Alive owners' ch.owner)
    (hT : ∀ t ∈ T, Alive owners t.previous ∧ Alive owners t.owner →
      Alive owners' t.previous ∧ Alive owners' t.owner) : References owners' R C T where
  reservations r hr := hR r hr (h.reservations r hr)
  charges ch hch := hC ch hch (h.charges ch hch)
  transfers t ht := hT t ht (h.transfers t ht)

lemma alive : ∀ x ∈ stakesOf R C T, Alive owners x.owner := by
  intro x hx
  rcases mem_append.mp hx with hr | hx
  · exact h.reservations x hr
  rcases mem_append.mp hx with hch | hx
  · exact h.charges x hch
  obtain ⟨t, ht, hstake⟩ := mem_flatMap.mp hx
  unfold HeapOwnerTransfer.stakes at hstake
  split_ifs at hstake
  · rw [mem_singleton.mp hstake]
    exact (h.transfers t ht).2
  · cases hstake

end

end References

/-- The books are exact for the live owners and handles. -/
def Books (s : HeapState) (owners : List HeapOwner) (R C : List HeapHandle)
    (T : List HeapOwnerTransfer) : Prop :=
  Exact s owners R (chargesOf owners C) (stakesOf R C T)

section

variable {s : HeapState} {owners : List HeapOwner} {R C : List HeapHandle}
  {T : List HeapOwnerTransfer}

lemma Books.perm {R' C' : List HeapHandle} {T' : List HeapOwnerTransfer}
    (h : Books s owners R C T) (hR : R.Perm R') (hC : C.Perm C') (hT : T.Perm T') :
    Books s owners R' C' T' :=
  Exact.congr h (held_perm _ hR) (held_perm _ (hC.append_right _))
    (SameBytes.of_perm (hR.append (hC.append (hT.flatMap_right _))))

lemma Books.publish (h : Books s owners R C T) : Books { s with published := true } owners R C T :=
  { h with }

lemma books_charge {ch : HeapCharge} : Books s owners R (ch :: C) T ↔
      Exact s owners R (ch :: chargesOf owners C) (ch :: stakesOf R C T) :=
  ⟨fun h => Exact.perm h perm_middle, fun h => Exact.perm h perm_middle.symm⟩

lemma books_transfer {t : HeapOwnerTransfer} : Books s owners R C (t :: T) ↔
      Exact s owners R (chargesOf owners C) (t.stakes ++ stakesOf R C T) := by
  have hperm : (stakesOf R C (t :: T)).Perm (t.stakes ++ stakesOf R C T) :=
    ((perm_append_comm_assoc C _ _).append_left R).trans (perm_append_comm_assoc R _ _)
  exact ⟨fun h => Exact.perm h hperm, fun h => Exact.perm h hperm.symm⟩

/-- Books are kept when an owner that counts for nothing is forgotten. -/
lemma Exact.owners_subset {C : List HeapHandle} {S : List HeapHandle} {owners' : List HeapOwner}
    (h : Exact s owners R C S) (hsub : owners' ⊆ owners) : Exact s owners' R C S :=
  ⟨h.ledger, h.ledger_within, fun o ho => h.owner o (hsub ho),
    fun o ho => h.owner_within o (hsub ho), h.uid, h.uid_within⟩

end

namespace HeapWorld

/-- The invariant of a world. -/
structure Sound (w : HeapWorld) : Prop where
  /-- The books are exact. -/
  books : Books w.state w.owners w.reservations w.charges w.transfers
  /-- Handles keep their owners alive. -/
  references : References w.owners w.reservations w.charges w.transfers
  /-- Live owners have different identities. -/
  ids : (w.owners.map (·.id)).Nodup
  /-- The registry counts the leases of the live owners. -/
  registry : Registry w.state.identities (leasesOf w.owners)

/-- An operation does not fault, and the world it leaves is sound. -/
def Runs (w : HeapWorld) (op : HeapOp) : Prop := ∃ w', w.exec op = .ok w' ∧ w'.Sound

variable {w : HeapWorld}

lemma Runs.of_ok {op : HeapOp} {α : Type} {x : Except HeapFault α} {a : α}
    {f : α → HeapWorld} (hx : x = .ok a) (hexec : w.exec op = x.map f) (hs : (f a).Sound) :
    w.Runs op :=
  ⟨f a, by rw [hexec, hx]; rfl, hs⟩

namespace Sound

variable {w : HeapWorld}

/-- A step that leaves the owners and the registry alone. -/
lemma of_frame {s' : HeapState} {R' C' : List HeapHandle} {T' : List HeapOwnerTransfer}
    (h : w.Sound) (hframe : Frame w.state s') (hbooks : Books s' w.owners R' C' T')
    (href : References w.owners R' C' T') : Sound ⟨s', w.owners, R', C', T'⟩ :=
  ⟨hbooks, href, h.ids, hframe.identities ▸ h.registry⟩

lemma eq_of_sameOwner (h : w.Sound) {a b : Option HeapOwner} (ha : Alive w.owners a)
    (hb : Alive w.owners b) (hsame : sameOwner a b = true) : a = b := by
  cases a with
  | none => cases b with
    | none => rfl
    | some => cases hsame
  | some a => cases b with
    | none => cases hsame
    | some b =>
      have hid : a.id = b.id := beq_iff_eq.mp hsame
      rw [inj_on_of_nodup_map h.ids (ha a rfl) (hb b rfl) hid]

variable {r : HeapReservation}

lemma books_reservation (h : w.Sound) (hr : r ∈ w.reservations) :
    Books w.state w.owners (r :: w.reservations.erase r) w.charges w.transfers :=
  h.books.perm (perm_cons_erase hr) (Perm.refl _) (Perm.refl _)

variable {ch : HeapCharge}

lemma books_charge (h : w.Sound) (hch : ch ∈ w.charges) :
    Books w.state w.owners w.reservations (ch :: w.charges.erase ch) w.transfers :=
  h.books.perm (Perm.refl _) (perm_cons_erase hch) (Perm.refl _)

variable {t : HeapOwnerTransfer}

section

variable (h : w.Sound)
include h

lemma books_transfer (ht : t ∈ w.transfers) :
    Books w.state w.owners w.reservations w.charges (t :: w.transfers.erase t) :=
  h.books.perm (Perm.refl _) (Perm.refl _) (perm_cons_erase ht)

/-- Reserving for a live owner, for a new reservation or for one next to a charge. -/
lemma tryReserveOwned {owner : Option HeapOwner} (halive : Alive w.owners owner)
    (c : HeapClass) (bytes : ℕ) : w.Runs (.tryReserveOwned c bytes owner) := by
  rcases Exact.tryReserveOwned halive h.books c bytes with
    ⟨e, he⟩ | ⟨s', hs', hexact, hframe⟩
  · exact .of_ok he rfl (h.of_frame (Frame.refl _) h.books h.references)
  · exact .of_ok hs' rfl (h.of_frame hframe hexact (h.references.consReservation halive))

lemma resize (hr : r ∈ w.reservations) (newBytes : ℕ) : w.Runs (.resize r newBytes) := by
  have halive := h.references.reservations r hr
  obtain ⟨res, r', s', hs', howner, hexact, hframe⟩ :=
    Exact.resize halive (h.books_reservation hr) newBytes
  have href := h.references.eraseReservation r
  exact .of_ok hs' rfl (h.of_frame hframe hexact (href.consReservation (howner ▸ halive)))

lemma commit (hr : r ∈ w.reservations) : w.Runs (.commit r) := by
  obtain ⟨s', hs', hexact, hframe⟩ := Exact.commit (h.books_reservation hr)
  have href := h.references.eraseReservation r
  exact .of_ok hs' rfl (h.of_frame hframe (Mm.books_charge.mpr hexact)
    (href.consCharge (h.references.reservations r hr)))

lemma dropReservation (hr : r ∈ w.reservations) : w.Runs (.dropReservation r) := by
  obtain ⟨s', hs', hexact, hframe⟩ :=
    Exact.dropReservation (h.references.reservations r hr) (h.books_reservation hr)
  exact .of_ok hs' rfl (h.of_frame hframe hexact (h.references.eraseReservation r))

section

variable (hch : ch ∈ w.charges)
include hch

lemma releaseAfterDeallocation (bytes : ℕ) : w.Runs (.releaseAfterDeallocation ch bytes) := by
  have halive := h.references.charges ch hch
  obtain ⟨res, ch', s', hs', howner, hexact, hframe⟩ :=
    (Mm.books_charge.mp (h.books_charge hch)).releaseAfterDeallocation halive bytes
  have href := h.references.eraseCharge ch
  exact .of_ok hs' rfl (h.of_frame hframe (Mm.books_charge.mpr hexact)
    (href.consCharge (howner ▸ halive)))

lemma absorb (hr : r ∈ w.reservations) : w.Runs (.absorb ch r) := by
  have hchAlive := h.references.charges ch hch
  have hrAlive := h.references.reservations r hr
  have hboth : Books w.state w.owners (r :: w.reservations.erase r) (ch :: w.charges.erase ch)
      w.transfers :=
    (h.books_reservation hr).perm (Perm.refl _) (perm_cons_erase hch) (Perm.refl _)
  obtain ⟨res, ch', s', hs', howner, hexact, hframe⟩ :=
    Exact.absorb hrAlive (h.eq_of_sameOwner hchAlive hrAlive)
      ((Mm.books_charge.mp hboth).perm (Perm.swap _ _ _))
  have href := (h.references.eraseReservation r).eraseCharge ch
  exact .of_ok hs' rfl (h.of_frame hframe (Mm.books_charge.mpr hexact)
    (href.consCharge (howner ▸ hchAlive)))

lemma dropCharge : w.Runs (.dropCharge ch) := by
  obtain ⟨s', hs', hexact, hframe⟩ :=
    (Mm.books_charge.mp (h.books_charge hch)).dropCharge (h.references.charges ch hch)
  exact .of_ok hs' rfl (h.of_frame hframe hexact (h.references.eraseCharge ch))

lemma prepareOwnerTransfer {owner : Option HeapOwner} (halive : Alive w.owners owner) :
    w.Runs (.prepareOwnerTransfer ch owner) := by
  rcases Exact.prepareOwnerTransfer ch halive h.books with
    ⟨e, he⟩ | ⟨t, s', hs', hprevious, howner, hexact, hframe⟩
  · exact .of_ok he rfl h
  have href := h.references.consTransfer (t := t)
    (hprevious ▸ h.references.charges ch hch) (howner ▸ halive)
  exact .of_ok hs' rfl (h.of_frame hframe (Mm.books_transfer.mpr hexact) href)

end

lemma commitTransfer (ht : t ∈ w.transfers) (hch : ch ∈ w.charges) :
    w.Runs (.commitTransfer t ch) := by
  have hchAlive := h.references.charges ch hch
  obtain ⟨hprevious, howner⟩ := h.references.transfers t ht
  have hboth : Books w.state w.owners w.reservations (ch :: w.charges.erase ch)
      (t :: w.transfers.erase t) :=
    (h.books_transfer ht).perm (Perm.refl _) (perm_cons_erase hch) (Perm.refl _)
  have hperm : (t.stakes ++ stakesOf w.reservations (ch :: w.charges.erase ch)
      (w.transfers.erase t)).Perm
      (t.stakes ++ ch :: stakesOf w.reservations (w.charges.erase ch) (w.transfers.erase t)) :=
    perm_middle.append_left _
  obtain ⟨res, ch', s', hs', hcases, hexact, hframe⟩ :=
    Exact.commitTransfer howner hprevious (h.eq_of_sameOwner hprevious hchAlive)
      ((Mm.books_transfer.mp hboth).perm hperm)
  have hch' : Alive w.owners ch'.owner := by
    rcases hcases with heq | heq
    · exact heq ▸ hchAlive
    · exact heq ▸ howner
  have href := (h.references.eraseCharge ch).eraseTransfer t
  exact .of_ok hs' rfl (h.of_frame hframe (Mm.books_charge.mpr hexact) (href.consCharge hch'))

lemma dropTransfer (ht : t ∈ w.transfers) : w.Runs (.dropTransfer t) := by
  obtain ⟨s', hs', hexact, hframe⟩ := Exact.dropTransfer (h.references.transfers t ht).2
    (Mm.books_transfer.mp (h.books_transfer ht))
  exact .of_ok hs' rfl (h.of_frame hframe hexact (h.references.eraseTransfer t))

lemma tryNew {id : ℕ} (hid : id ∉ w.owners.map (·.id)) (hostUid : Option ℕ)
    (arcBytes : ℕ) (arcOk : Bool) : w.Runs (.tryNew hostUid id arcBytes arcOk) := by
  rcases Exact.tryNewFor h.books h.references.alive h.registry hid hostUid arcBytes arcOk with
    ⟨e, s', hs', hexact, hreg⟩ | ⟨o, s', hs', rfl, hexact, hreg⟩
  · exact .of_ok hs' rfl ⟨hexact, h.references, h.ids, hreg⟩
  have hmore : ∀ {owner}, Alive w.owners owner → Alive (o :: w.owners) owner :=
    fun halive o' ho' => mem_cons_of_mem _ (halive o' ho')
  refine .of_ok hs' rfl ⟨?_, ?_, nodup_cons.mpr ⟨hid, h.ids⟩, hreg⟩
  · exact hexact.congr rfl (held_perm _ perm_middle.symm) fun _ => rfl
  exact h.references.of_alive (fun _ _ => hmore) (fun _ _ => hmore)
    fun _ _ ht => ⟨hmore ht.1, hmore ht.2⟩

lemma dropOwner {o : HeapOwner} (ho : o ∈ w.owners) (hun : w.Unreferenced o) :
    w.Runs (.dropOwner o) := by
  have hperm := perm_cons_erase ho
  have hstill : ∀ {owner}, owner ≠ some o → Alive w.owners owner →
      Alive (w.owners.erase o) owner := by
    intro owner hne halive o' ho'
    refine (mem_erase_of_ne ?_).mpr (halive o' ho')
    rintro rfl
    exact hne ho'
  have href : References (w.owners.erase o) w.reservations w.charges w.transfers :=
    h.references.of_alive (fun r hr => hstill (hun.1 r (mem_append_left _ hr)))
      (fun ch hch => hstill (hun.1 ch (mem_append_right _ hch)))
      fun t ht halive => ⟨hstill (hun.2 t ht).1 halive.1, hstill (hun.2 t ht).2 halive.2⟩
  have hcharged : (chargesOf w.owners w.charges).Perm
      (o.allocation :: chargesOf (w.owners.erase o) w.charges) :=
    ((hperm.map _).append_left _).trans perm_middle
  have hexact := (Exact.congr h.books rfl (held_perm _ hcharged) fun _ => rfl).owners_subset
    (erase_subset (a := o))
  obtain ⟨s', hs', hexact', hreg⟩ :=
    hexact.dropOwner href.alive (h.registry.perm (hperm.flatMap_right _))
  exact .of_ok hs' rfl ⟨hexact', href, h.ids.sublist (erase_sublist.map _), hreg⟩

end

end Sound

lemma alive_of_isAlive {owners : List HeapOwner} {owner : Option HeapOwner}
    (h : isAlive owners owner = true) : Alive owners owner := by
  rintro o rfl
  exact of_decide_eq_true h

/-- The step lemma: an enabled operation does not fault and keeps the invariant. -/
lemma Sound.exec_ok (h : w.Sound) {op : HeapOp} (hen : op.Enabled w) : w.Runs op := by
  cases op with
  | publish => exact ⟨_, rfl, h.books.publish, h.references, h.ids, h.registry⟩
  | tryNew hostUid id arcBytes arcOk => exact h.tryNew hen hostUid arcBytes arcOk
  | dropOwner => exact h.dropOwner hen.1 hen.2
  | tryReserveOwned c bytes => exact h.tryReserveOwned (alive_of_isAlive hen) c bytes
  | resize r newBytes => exact h.resize hen newBytes
  | commit => exact h.commit hen
  | dropReservation => exact h.dropReservation hen
  | tryReserveMore ch bytes =>
    exact h.tryReserveOwned (h.references.charges ch hen) ch.heapClass bytes
  | releaseAfterDeallocation ch bytes => exact h.releaseAfterDeallocation hen bytes
  | absorb => exact h.absorb hen.1 hen.2
  | dropCharge => exact h.dropCharge hen
  | prepareOwnerTransfer => exact h.prepareOwnerTransfer hen.1 (alive_of_isAlive hen.2)
  | commitTransfer => exact h.commitTransfer hen.1 hen.2
  | dropTransfer => exact h.dropTransfer hen

/-! ## Runs -/

/-- One step of a run. -/
def Step (w w' : HeapWorld) : Prop := ∃ op : HeapOp, op.Enabled w ∧ w.exec op = .ok w'

/-- The world before anything is published. -/
def initial : HeapWorld where
  state := ⟨false, Ledger.new, fun _ => Budget.new, fun _ => Budget.new, fun _ => none⟩
  owners := []
  reservations := []
  charges := []
  transfers := []

/-- The worlds of a run. -/
def Reachable (w : HeapWorld) : Prop := ReflTransGen Step initial w

lemma sound_initial : initial.Sound where
  books :=
    ⟨Ledger.new_eq_ofHeld, ⟨by simp [byClass, held, chargesOf, initial, total], by
      simp [byClass, held, chargesOf, initial]⟩, nofun, nofun, fun _ => Budget.new_eq_ofHeld,
      fun _ => Budget.within_zero _⟩
  references := ⟨nofun, nofun, nofun⟩
  ids := nodup_nil
  registry := ⟨fun _ => rfl, nofun, nofun⟩

/-- The run lemma: the books are exact in every world of a run. -/
lemma sound_of_reachable (h : Reachable w) : w.Sound := by
  induction h with
  | refl => exact sound_initial
  | tail _ hstep ih =>
    obtain ⟨op, hen, hexec⟩ := hstep
    obtain ⟨w', hw', hsound⟩ := ih.exec_ok hen
    rw [hw'] at hexec
    exact Except.ok.inj hexec ▸ hsound

/-- Run a list of operations, as long as they are enabled. -/
def run (w : HeapWorld) : List HeapOp → Option HeapWorld
  | [] => some w
  | op :: ops =>
    if op.Enabled w then
      match w.exec op with
      | .ok w' => run w' ops
      | .error _ => none
    else none

lemma reachable_of_run {w w' : HeapWorld} (ops : List HeapOp) (hw : Reachable w)
    (h : w.run ops = some w') : Reachable w' := by
  induction ops generalizing w with
  | nil => exact Option.some.inj h ▸ hw
  | cons op ops ih =>
    unfold run at h
    split_ifs at h with hen
    cases hexec : w.exec op with
    | error =>
      rw [hexec] at h
      cases h
    | ok =>
      rw [hexec] at h
      exact ih (hw.tail ⟨op, hen, hexec⟩) h

/-- In every reachable world the cells are exact and within their limits, every owner a handle
refers to is live, and no enabled operation faults. -/
theorem books_exact_of_reachable {w : HeapWorld} (h : Reachable w) :
    Exact w.state w.owners w.reservations (chargesOf w.owners w.charges)
        (stakesOf w.reservations w.charges w.transfers) ∧
      References w.owners w.reservations w.charges w.transfers ∧
      ∀ op : HeapOp, op.Enabled w → ∃ w', w.exec op = .ok w' := by
  have hsound := sound_of_reachable h
  refine ⟨hsound.books, hsound.references, fun op hen => ?_⟩
  obtain ⟨w', hw', -⟩ := hsound.exec_ok hen
  exact ⟨w', hw'⟩

/-- Two owners; the first holds a charge of 100 bytes whose transfer to the second is prepared. -/
def transferOps : List HeapOp :=
  [.publish, .tryNew none 0 64 true, .tryNew none 1 64 true,
    .tryReserveOwned .coreProcess 100 (some ⟨0, none, 64⟩),
    .commit ⟨some ⟨0, none, 64⟩, .coreProcess, 100⟩,
    .prepareOwnerTransfer ⟨some ⟨0, none, 64⟩, .coreProcess, 100⟩ (some ⟨1, none, 64⟩)]

/-- What `transferOps` leads to. -/
def preparedWorld : HeapWorld := (initial.run transferOps).getD initial

lemma preparedWorld_reachable : Reachable preparedWorld :=
  reachable_of_run transferOps ReflTransGen.refl rfl

theorem books_exact_of_reachable_prepared :
    Reachable preparedWorld ∧
      Exact preparedWorld.state [⟨1, none, 64⟩, ⟨0, none, 64⟩] []
        [⟨some ⟨0, none, 64⟩, .coreProcess, 100⟩, ⟨none, .coreProcess, 64⟩,
          ⟨none, .coreProcess, 64⟩]
        [⟨some ⟨0, none, 64⟩, .coreProcess, 100⟩, ⟨some ⟨1, none, 64⟩, .coreProcess, 100⟩] :=
  ⟨preparedWorld_reachable, (books_exact_of_reachable preparedWorld_reachable).1⟩

/-- The class cell of an owner does not tell charges from reservations, and a prepared transfer is
counted to its destination without being a reservation or a charge of it. -/
theorem owner_cells_not_split :
    Reachable preparedWorld ∧
      (∃ o ∈ preparedWorld.owners, (preparedWorld.state.ownerBudgets o.id).classes .coreProcess ≠
        ⟨held (isOwner o.id) preparedWorld.charges .coreProcess,
          held (isOwner o.id) preparedWorld.reservations .coreProcess⟩) ∧
      ∃ o ∈ preparedWorld.owners, (preparedWorld.state.ownerBudgets o.id).total ≠
        total (held (isOwner o.id) (preparedWorld.reservations ++ preparedWorld.charges)) := by
  refine ⟨preparedWorld_reachable, ⟨⟨0, none, 64⟩, ?_, ?_⟩, ⟨1, none, 64⟩, ?_, ?_⟩ <;> decide

end HeapWorld

end Nilix.Mm
