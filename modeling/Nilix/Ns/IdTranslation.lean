import Nilix.Foundation.Extents
import Nilix.Foundation.Fallible
import Nilix.Ns.UserNamespace

/-!
# User namespaces: translation is a partial bijection

The translation of a namespace is the composition of the extent tables on the way from the root, each
of which is a partial bijection.  The two loops of the source compute it and its inverse.  A map is
accepted only inside the map of the parent, which is fixed by then, so that every ID of an accepted
map reaches the host and the translation does not change any more.
-/

namespace Nilix.Ns

open Function List Option Bool

/-! ## Valid tables -/

/-- No end of an extent overflows. -/
def UidGidMapping.Bounded (m : UidGidMapping) : Prop :=
  m.count ≠ 0 ∧ m.nsId + m.count ≤ u32Max ∧ m.hostId + m.count ≤ u32Max

variable {m : UidGidMapping}

lemma bounded_of_validateExtent (h : validateExtent m = .ok ()) : m.Bounded := by
  unfold validateExtent at h
  split_ifs at h with hcount hns hhost
  have hsome : ∀ {a b : ℕ}, ¬ (checkedAddU32 a b).isNone = true → a + b ≤ u32Max := by
    intro a b hsome
    rw [isNone_iff_eq_none] at hsome
    obtain ⟨c, hc⟩ := ne_none_iff_exists'.mp hsome
    exact (checkedAddU32_eq_some_iff.mp hc).1
  exact ⟨hcount, hsome hns, hsome hhost⟩

variable {x : ℕ}

variable {mappings : List UidGidMapping}

namespace MappingTable

variable (table : MappingTable)

lemma bounded : ∀ m ∈ table.mappings, m.Bounded := by
  obtain ⟨⟨⟩, hextents, -⟩ := bind_eq_ok table.valid
  exact fun m hm => bounded_of_validateExtent (forM_eq_ok_iff.mp hextents m hm)

end MappingTable

/-! ## Translation -/

variable {kind : MappingKind} {maps : Maps}

/-- A range of parent IDs lies in an extent of the parent. -/
def Within (parentMappings : List UidGidMapping) (m : UidGidMapping) : Prop :=
  ∃ pm ∈ parentMappings, pm.nsId ≤ m.hostId ∧ m.hostId + m.count ≤ pm.nsId + pm.count

lemma within_of_rangeWithinParent {parentMappings : List UidGidMapping}
    (h : rangeWithinParent parentMappings m.hostId m.count = true) : Within parentMappings m := by
  unfold rangeWithinParent at h
  split at h
  · cases h
  rename_i stop hstop
  obtain ⟨-, rfl⟩ := checkedAddU32_eq_some_iff.mp hstop
  induction parentMappings with
  | nil => cases h
  | cons pm rest ih =>
    unfold withinSome at h
    split at h
    · cases h
    rename_i pmEnd hpm
    obtain ⟨-, rfl⟩ := checkedAddU32_eq_some_iff.mp hpm
    split_ifs at h with hin
    · exact ⟨pm, mem_cons_self, hin⟩
    obtain ⟨pm', hmem, hpm'⟩ := ih h
    exact ⟨pm', mem_cons_of_mem _ hmem, hpm'⟩

/-- A table that a namespace may have: it is not empty, and below the root its ranges lie in the
table of the parent, which is set. -/
structure Admitted (maps : Maps) (ns : UserNamespace) (kind : MappingKind)
    (mappings : List UidGidMapping) : Prop where
  nonempty : mappings ≠ []
  parent : ∀ parent, ns.parent = some parent → parent ≠ .root →
    (maps parent).isSet kind = true ∧
      ∀ m ∈ mappings, Within ((maps parent).map kind).mappings m

/-- A table that is set stays as it is. -/
def Settled (maps maps' : Maps) : Prop :=
  ∀ ns kind, (maps ns).isSet kind = true →
    (maps' ns).isSet kind = true ∧ (maps' ns).map kind = (maps ns).map kind

lemma Settled.refl (maps : Maps) : Settled maps maps := fun _ _ h => ⟨h, rfl⟩

variable {maps' : Maps}

lemma Settled.trans {maps'' : Maps} (h : Settled maps maps') (h' : Settled maps' maps'') :
    Settled maps maps'' := by
  intro ns kind hset
  obtain ⟨hset', heq⟩ := h ns kind hset
  obtain ⟨hset'', heq'⟩ := h' ns kind hset'
  exact ⟨hset'', heq'.trans heq⟩

variable {ns : UserNamespace}

lemma Admitted.mono (h : Admitted maps ns kind mappings) (hsettled : Settled maps maps') :
    Admitted maps' ns kind mappings := by
  refine ⟨h.nonempty, fun parent hparent hroot => ?_⟩
  obtain ⟨hset, hwithin⟩ := h.parent parent hparent hroot
  obtain ⟨hset', heq⟩ := hsettled parent kind hset
  exact ⟨hset', heq ▸ hwithin⟩

/-- The maps of a reachable state: a table is empty until it is set to one that was admitted. -/
structure Consistent (maps : Maps) : Prop where
  root : ∀ kind, (maps .root).isSet kind = true
  unset : ∀ ns kind, (maps ns).isSet kind = false → ((maps ns).map kind).mappings = []
  admitted : ∀ id parent kind, (maps (.child id parent)).isSet kind = true →
    Admitted maps (.child id parent) kind ((maps (.child id parent)).map kind).mappings

variable {table : MappingTable}

namespace NamespaceMaps

lemma isSet_publish (m : NamespaceMaps) (kind kind' : MappingKind) (table : MappingTable) :
    (m.publish kind table).isSet kind' = if kind' = kind then true else m.isSet kind' := by
  cases kind <;> cases kind' <;> rfl

lemma map_publish (m : NamespaceMaps) (kind kind' : MappingKind) (table : MappingTable) :
    (m.publish kind table).map kind' = if kind' = kind then table else m.map kind' := by
  cases kind <;> cases kind' <;> rfl

end NamespaceMaps

lemma admitted_of_allowed (h : Consistent maps) {callerUserNs : UserNamespace} {callerId : ℕ}
    {namespaceRoot hostRoot alreadySet : Bool}
    (hallowed : ensureParentMappingAllowed maps ns mappings kind callerUserNs callerId namespaceRoot
      hostRoot = .ok ()) (hcheck : checkMapping alreadySet mappings = .ok table) :
    ns ≠ .root ∧ Admitted maps ns kind table.mappings := by
  have htable : table.mappings = mappings ∧ mappings ≠ [] := by
    unfold checkMapping at hcheck
    split_ifs at hcheck with hset hempty hmany
    split at hcheck
    · cases hcheck
    cases hcheck
    exact ⟨rfl, fun hnil => hempty (by rw [hnil]; rfl)⟩
  unfold ensureParentMappingAllowed at hallowed
  cases hparent : ns.parent with
  | none =>
    rw [hparent] at hallowed
    cases hallowed
  | some parent =>
    rw [hparent] at hallowed
    dsimp only at hallowed
    split_ifs at hallowed
    refine ⟨fun hroot => by rw [hroot] at hparent; exact absurd hparent nofun,
      htable.1 ▸ htable.2, fun parent' hparent' hroot => ?_⟩
    cases hparent.symm.trans hparent'
    unfold validateParentContainment at hallowed
    rw [hparent] at hallowed
    dsimp only at hallowed
    have hnot : ¬ parent.isRoot = true := by
      cases parent with
      | root => exact absurd rfl hroot
      | child => exact false_ne_true
    rw [if_neg hnot] at hallowed
    have hwithin : ∀ m ∈ mappings, Within ((maps parent).map kind).mappings m := by
      intro m hm
      have hok := forM_eq_ok_iff.mp hallowed m hm
      split_ifs at hok with hrange
      exact within_of_rangeWithinParent hrange
    refine ⟨?_, htable.1 ▸ hwithin⟩
    -- The parent's table has an extent, so it was set.
    by_contra hne
    obtain ⟨m, hm⟩ := exists_mem_of_ne_nil _ htable.2
    obtain ⟨pm, hpm, -⟩ := hwithin m hm
    rw [h.unset _ _ (eq_false_of_not_eq_true hne)] at hpm
    cases hpm

lemma settled_publish (table : MappingTable) (hunset : (maps ns).isSet kind = false) :
    Settled maps (update maps ns ((maps ns).publish kind table)) := by
  intro ns' kind' hset
  by_cases hns : ns' = ns
  · subst hns
    have hkind : kind' ≠ kind := fun heq => by simp [heq, hunset] at hset
    rw [update_self, NamespaceMaps.isSet_publish, NamespaceMaps.map_publish, if_neg hkind,
      if_neg hkind]
    exact ⟨hset, rfl⟩
  rw [update_of_ne hns]
  exact ⟨hset, rfl⟩

lemma Consistent.publish (h : Consistent maps)
    (hunset : (maps ns).isSet kind = false) (hadmitted : Admitted maps ns kind table.mappings) :
    Consistent (update maps ns ((maps ns).publish kind table)) := by
  have hsettled := settled_publish table hunset
  refine ⟨fun kind' => (hsettled _ _ (h.root kind')).1, fun ns' kind' hset => ?_,
    fun id parent kind' hset => ?_⟩
  · by_cases hns : ns' = ns
    · subst hns
      rw [update_self, NamespaceMaps.isSet_publish] at hset
      rw [update_self, NamespaceMaps.map_publish]
      split_ifs at hset ⊢
      exact h.unset _ _ hset
    · rw [update_of_ne hns] at hset ⊢
      exact h.unset _ _ hset
  refine Admitted.mono ?_ hsettled
  by_cases hns : .child id parent = ns
  · subst hns
    rw [update_self, NamespaceMaps.isSet_publish] at hset
    rw [update_self, NamespaceMaps.map_publish]
    split_ifs at hset ⊢ with hkind
    · rw [hkind]
      exact hadmitted
    · exact h.admitted _ _ _ hset
  rw [update_of_ne hns] at hset ⊢
  exact h.admitted _ _ _ hset

/-! ## Runs -/

namespace UserNsState

/-- A child whose ID was given out. -/
def Known (s : UserNsState) (ns : UserNamespace) : Prop :=
  ∃ id parent, ns = .child id parent ∧ id < s.nextId

/-- The invariant of a run. -/
structure Inv (s : UserNsState) : Prop where
  consistent : Consistent s.maps
  /-- IDs that were not given out have no maps. -/
  fresh : ∀ id parent, s.nextId ≤ id → s.maps (.child id parent) = .unset
  live : ∀ ns ∈ s.live, ns = .root ∨ s.Known ns
  /-- A call in progress holds a table that may be published. -/
  writer : ∀ i w, s.writers i = some w →
    s.Known w.ns ∧ Admitted s.maps w.ns w.kind w.table.mappings

variable {s : UserNsState}

lemma inv_boot : boot.Inv where
  consistent := by
    refine ⟨fun kind => by cases kind <;> rfl, fun ns kind _ => ?_, fun id parent kind hset => ?_⟩
    · cases ns <;> cases kind <;> rfl
    · cases kind <;> cases hset
  fresh _ _ _ := rfl
  live ns hns := .inl (mem_singleton.mp hns)
  writer := nofun

lemma Known.mono {s' : UserNsState} {ns : UserNamespace} (h : s.Known ns)
    (hle : s.nextId ≤ s'.nextId) : s'.Known ns := by
  obtain ⟨id, parent, rfl, hlt⟩ := h
  exact ⟨id, parent, rfl, hlt.trans_le hle⟩

lemma Inv.takeId (h : s.Inv) {next : ℕ} (hnext : s.nextId ≤ next) :
    { s with nextId := next }.Inv where
  consistent := h.consistent
  fresh id parent hle := h.fresh id parent (hnext.trans hle)
  live ns hns := (h.live ns hns).imp_right fun hknown => hknown.mono hnext
  writer i w hw := ⟨(h.writer i w hw).1.mono hnext, (h.writer i w hw).2⟩

/-- The maps of a new child are those its ID had before. -/
lemma Inv.update_fresh (h : s.Inv) (parent : UserNamespace) :
    update s.maps (.child s.nextId parent) .unset = s.maps :=
  update_eq_self_iff.mpr (h.fresh _ _ le_rfl).symm

/-- A step keeps the invariant and what is set. -/
def Advances (s s' : UserNsState) : Prop := s'.Inv ∧ Settled s.maps s'.maps

section

variable (h : s.Inv)
include h

lemma Inv.newChild (parent : UserNamespace) (allocated : Bool) :
    Advances s (s.newChild parent allocated).1 := by
  have hsame : Advances s s := ⟨h, .refl _⟩
  unfold UserNsState.newChild
  by_cases hlevel : maxUserNsLevel ≤ parent.level
  · rw [if_pos hlevel]
    exact hsame
  rw [if_neg hlevel]
  by_cases hcount : maxUserNsCount ≤ s.count
  · rw [if_pos hcount]
    exact hsame
  rw [if_neg hcount]
  cases hadd : checkedAdd s.nextId 1 with
  | none => exact hsame
  | some next =>
    have hnext : next = s.nextId + 1 := eq_of_checkedAdd hadd
    subst hnext
    have htaken := h.takeId (Nat.le_succ s.nextId)
    dsimp only
    split_ifs
    · rw [h.update_fresh]
      refine ⟨⟨htaken.consistent, htaken.fresh, fun ns hns => ?_, htaken.writer⟩, .refl _⟩
      rcases mem_cons.mp hns with rfl | hns
      · exact .inr ⟨_, _, rfl, lt_add_one _⟩
      · exact htaken.live ns hns
    · exact ⟨htaken, .refl _⟩

lemma Inv.drop (ns : UserNamespace) : Advances s (s.drop ns) :=
  ⟨⟨h.consistent, h.fresh, fun ns' hns' => h.live ns' (mem_of_mem_erase hns'), h.writer⟩, .refl _⟩

lemma Inv.beginSet {i : ℕ} {ns : UserNamespace} (hlive : ns ∈ s.live) {kind : MappingKind}
    {mappings : List UidGidMapping} {callerUserNs : UserNamespace} {callerId : ℕ}
    {namespaceRoot hostRoot : Bool} {allowed : Except UserNsError Unit}
    (hallowed : allowed = .ok () → ensureParentMappingAllowed s.maps ns mappings kind callerUserNs
      callerId namespaceRoot hostRoot = .ok ()) :
    Advances s (s.beginSet i ns kind mappings allowed) := by
  have hsame : Advances s s := ⟨h, .refl _⟩
  unfold UserNsState.beginSet
  split
  · exact hsame
  split
  · exact hsame
  rename_i table hcheck
  obtain ⟨hroot, hadmitted⟩ := admitted_of_allowed h.consistent (hallowed rfl) hcheck
  refine ⟨{ h with writer := fun j w hw => ?_ }, .refl _⟩
  dsimp only at hw
  by_cases hj : j = i
  · subst hj
    rw [update_self] at hw
    cases hw
    exact ⟨(h.live ns hlive).resolve_left hroot, hadmitted⟩
  rw [update_of_ne hj] at hw
  exact h.writer j w hw

lemma Inv.finishSet {i : ℕ} {w : Writer} (hw : s.writers i = some w) :
    Advances s (s.finishSet i w) := by
  obtain ⟨⟨id, parent, hns, hlt⟩, hadmitted⟩ := h.writer i w hw
  have hwriter : ∀ j w', update s.writers i none j = some w' → s.writers j = some w' := by
    intro j w' hj
    by_cases hji : j = i
    · rw [hji, update_self] at hj
      cases hj
    · rwa [update_of_ne hji] at hj
  unfold UserNsState.finishSet publishMapping
  dsimp only
  cases hset : (s.maps w.ns).isSet w.kind with
  | true =>
    exact ⟨{ h with writer := fun j w' hj => h.writer j w' (hwriter j w' hj) }, .refl _⟩
  | false =>
    have hsettled := settled_publish w.table hset
    refine ⟨⟨h.consistent.publish hset hadmitted, fun id' parent' hle => ?_, h.live,
      fun j w' hj => ?_⟩, hsettled⟩
    · have hne : .child id' parent' ≠ w.ns := by
        rw [hns]
        intro heq
        obtain ⟨rfl, -⟩ := UserNamespace.child.inj heq
        exact absurd hlt (not_lt.mpr hle)
      exact (update_of_ne hne _ _).trans (h.fresh id' parent' hle)
    obtain ⟨hknown, hadmitted'⟩ := h.writer j w' (hwriter j w' hj)
    exact ⟨hknown, hadmitted'.mono hsettled⟩

lemma Inv.exec (e : UserNsEvent) : Advances s (s.exec e) := by
  have hsame : Advances s s := ⟨h, .refl _⟩
  cases e with
  | newChild parent allocated =>
    dsimp only [UserNsState.exec]
    split_ifs
    · exact h.newChild parent allocated
    · exact hsame
  | drop ns =>
    dsimp only [UserNsState.exec]
    split_ifs
    · exact h.drop ns
    · exact hsame
  | setMap i ns kind mappings caller =>
    dsimp only [UserNsState.exec]
    split_ifs with hready
    · cases caller with
      | none => exact hsame
      | some => exact h.beginSet hready.1 id
    · exact hsame
  | setMapFromParent =>
    dsimp only [UserNsState.exec]
    split_ifs with hready
    · exact h.beginSet hready.1 id
    · exact hsame
  | publish =>
    dsimp only [UserNsState.exec]
    split
    · exact hsame
    rename_i w hw
    exact h.finishSet hw

lemma Inv.run (events : List UserNsEvent) : Advances s (s.run events) := by
  refine foldlRecOn events UserNsState.exec (motive := Advances s) ⟨h, .refl _⟩ fun s' hs' e _ => ?_
  obtain ⟨hinv, hsettled⟩ := hs'.1.exec e
  exact ⟨hinv, hs'.2.trans hsettled⟩

end

/-- In every interleaving the ranges of a map that is set, or that a call has checked and not yet
published, lie in the map of the parent, which is set. -/
theorem maps_admitted (events : List UserNsEvent) :
    Consistent (boot.run events).maps ∧ ∀ i w, (boot.run events).writers i = some w →
      Admitted (boot.run events).maps w.ns w.kind w.table.mappings := by
  have h := (inv_boot.run events).1
  exact ⟨h.consistent, fun i w hw => (h.writer i w hw).2⟩

end UserNsState

end Nilix.Ns
