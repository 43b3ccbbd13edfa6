import Nilix.Foundation.Fallible
import Nilix.Ns.PidNamespace

/-!
# The maps of the PID namespaces

What an assignment does is said per namespace: `Entered` where it succeeds, and nothing at all where it
fails, because the rollback gives every namespace its exact state back.
-/

namespace Nilix.Ns

open FallibleOrderedMap Function Nilix.Net List

/-! ## Backings -/

variable (map : AdmittedMap ℕ ℕ)

lemma restoreBacking_installBacking (prepared : Option ℕ) :
    restoreBacking (installBacking map prepared).1 (installBacking map prepared).2 = map := by
  unfold installBacking
  split_ifs with hfull
  · cases hinstall : prepared.bind map.replaceBackingDeferred with
    | none => rfl
    | some map' =>
      obtain ⟨capacity, -, hreplace⟩ := Option.bind_eq_some_iff.mp hinstall
      obtain ⟨hassoc, -⟩ := of_replaceBackingDeferred hreplace
      have hlen : map'.len ≤ map.capacity := (len_of_assoc hassoc).trans_le map.length_le
      change (map'.replaceBackingDeferred map.capacity).getD map' = map
      unfold FallibleOrderedMap.replaceBackingDeferred
      rw [dif_pos hlen]
      exact ext_assoc hassoc rfl
  · rfl

lemma assoc_installBacking (prepared : Option ℕ) :
    (installBacking map prepared).1.assoc = map.assoc := by
  unfold installBacking
  split_ifs
  · cases hinstall : prepared.bind map.replaceBackingDeferred with
    | none => rfl
    | some =>
      obtain ⟨capacity, -, hreplace⟩ := Option.bind_eq_some_iff.mp hinstall
      exact (of_replaceBackingDeferred hreplace).1
  · rfl

/-- The release of an empty backing keeps the entries. -/
lemma assoc_takeEmptyCapacity : (takeEmptyCapacity map).assoc = map.assoc := by
  unfold takeEmptyCapacity
  split_ifs
  · rfl
  cases hreplace : map.replaceBackingDeferred 0 with
  | none => rfl
  | some => exact (of_replaceBackingDeferred hreplace).1

namespace PidCell

variable {c c' : PidCell} {globalPid nsPid pid : ℕ} {ns : PidNamespace}

lemma restore_install (c : PidCell) (prepared : PreparedPidMappingCapacity) :
    (c.installPreparedMappingCapacity prepared).1.restoreMappingCapacity
      (c.installPreparedMappingCapacity prepared).2 = c := by
  simp only [installPreparedMappingCapacity, restoreMappingCapacity, restoreBacking_installBacking]

/-! ## One mapping -/

/-- An insertion fails and leaves the namespace as it was, or enters the pair in both maps. -/
lemma insertPair_cases (c : PidCell) (globalPid nsPid : ℕ) :
    (∃ e, c.insertPair globalPid nsPid = (c, .error e)) ∨
      ∃ byGlobal byNs, c.pidByGlobal.insertUniqueReserved globalPid nsPid = some byGlobal ∧
        c.pidByNs.insertUniqueReserved nsPid globalPid = some byNs ∧
        c.insertPair globalPid nsPid =
          ({ c with pidByGlobal := byGlobal, pidByNs := byNs }, .ok ()) := by
  unfold insertPair
  split_ifs
  · exact .inl ⟨_, rfl⟩
  cases hglobal : c.pidByGlobal.insertUniqueReserved globalPid nsPid with
  | none => exact .inl ⟨_, rfl⟩
  | some byGlobal =>
    cases hns : c.pidByNs.insertUniqueReserved nsPid globalPid with
    | none =>
      refine .inl ⟨.outOfMemory, ?_⟩
      dsimp only
      rw [remove_insertUniqueReserved hglobal]
    | some byNs => exact .inr ⟨byGlobal, byNs, rfl, rfl, rfl⟩

end PidCell

open PidCell

variable {c c' : PidCell} {globalPid nsPid pid : ℕ} {ns : PidNamespace}

/-- What a successful allocation did in a namespace. -/
structure Mapped (ns : PidNamespace) (c c' : PidCell) (globalPid pid : ℕ) : Prop where
  byGlobal : c.pidByGlobal.insertUniqueReserved globalPid pid = some c'.pidByGlobal
  byNs : c.pidByNs.insertUniqueReserved pid globalPid = some c'.pidByNs
  pid_eq : pid = if ns.isRoot then globalPid else c.nextPid
  nextPid : c'.nextPid = if ns.isRoot then c.nextPid else pid + 1
  initGlobalPid : c'.initGlobalPid = c.initGlobalPid
  shuttingDown : c'.shuttingDown = c.shuttingDown

/-- An allocation fails and leaves the namespace as it was, or succeeds. -/
lemma mapPid_cases (ns : PidNamespace) (c : PidCell) (globalPid : ℕ) :
    (∃ e, mapPid ns c globalPid = (c, .error e)) ∨
      ∃ c' pid, mapPid ns c globalPid = (c', .ok pid) ∧ Mapped ns c c' globalPid pid := by
  unfold mapPid
  by_cases hroot : ns.isRoot
  · rw [if_pos hroot, attachRootPidReserved]
    rcases c.insertPair_cases globalPid globalPid with ⟨e, heq⟩ | ⟨_, _, hglobal, hns, heq⟩ <;>
      rw [heq]
    · exact .inl ⟨e, rfl⟩
    · exact .inr ⟨_, _, rfl, hglobal, hns, (if_pos hroot).symm, (if_pos hroot).symm, rfl, rfl⟩
  rw [if_neg hroot, allocPidReserved]
  split_ifs
  · exact .inl ⟨_, rfl⟩
  · exact .inl ⟨_, rfl⟩
  cases hadd : checkedAdd c.nextPid 1 with
  | none => exact .inl ⟨_, rfl⟩
  | some =>
    rcases c.insertPair_cases globalPid c.nextPid with ⟨e, heq⟩ | ⟨_, _, hglobal, hns, heq⟩ <;>
      rw [heq]
    · exact .inl ⟨e, rfl⟩
    · exact .inr ⟨_, _, rfl, hglobal, hns, (if_neg hroot).symm,
        (eq_of_checkedAdd hadd).trans (if_neg hroot).symm, rfl, rfl⟩

/-- The rollback in a namespace takes back the allocation, also after the process became its init. -/
lemma Mapped.undo (h : Mapped ns c c' globalPid pid) (hinit : c.initGlobalPid ≠ some globalPid)
    {c'' : PidCell}
    (hset : c'' = c' ∨ (c'.initGlobalPid = none ∧ c'' = { c' with initGlobalPid := some globalPid })) :
    PidCells.undo globalPid ⟨ns, if ns.isRoot then none else some c.nextPid, pid⟩ c'' = c := by
  have hclear : c''.clearInit globalPid = c' := by
    unfold clearInit
    rcases hset with rfl | ⟨hnone, rfl⟩
    · rw [if_neg (h.initGlobalPid ▸ hinit)]
    · rw [if_pos rfl, ← hnone]
  have hremove : c'.removePidReserved globalPid = { c' with
      pidByGlobal := c.pidByGlobal, pidByNs := c.pidByNs } := by
    unfold removePidReserved
    rw [get_insertUniqueReserved_self h.byGlobal]
    dsimp only
    rw [remove_insertUniqueReserved h.byGlobal, remove_insertUniqueReserved h.byNs]
  have hnext := h.nextPid
  unfold PidCells.undo
  rw [hclear, hremove]
  obtain ⟨nextPid', pidByNs', pidByGlobal', init', shutting'⟩ := c'
  obtain ⟨nextPid, pidByNs, pidByGlobal, init, shutting⟩ := c
  have hinit' : init' = init := h.initGlobalPid
  have hshutting : shutting' = shutting := h.shuttingDown
  subst hinit' hshutting
  by_cases hroot : ns.isRoot
  · rw [if_pos hroot] at hnext ⊢
    rw [hnext]
  · rw [if_neg hroot]

/-! ## The path -/

namespace PidNamespace

lemma isRoot_iff {ns : PidNamespace} : ns.isRoot = true ↔ ns = .root := by
  cases ns with
  | root => exact ⟨fun _ => rfl, fun _ => rfl⟩
  | child =>
    constructor
    · intro h
      cases h
    intro h
    cases h

lemma level_le_of_mem_path {ns ns' : PidNamespace} (h : ns' ∈ ns.path) : ns'.level ≤ ns.level := by
  induction ns with
  | root => rw [mem_singleton.mp h]
  | child id parent ih =>
    rcases mem_append.mp h with h | h
    · exact (ih h).trans (Nat.le_succ _)
    · rw [mem_singleton.mp h]

lemma nodup_path (ns : PidNamespace) : ns.path.Nodup := by
  induction ns with
  | root => exact nodup_singleton _
  | child id parent ih =>
    refine nodup_append.mpr ⟨ih, nodup_singleton _, ?_⟩
    rintro ns' hns' _ hmem rfl
    rw [mem_singleton.mp hmem] at hns'
    have hle := level_le_of_mem_path hns'
    change parent.level + 1 ≤ parent.level at hle
    omega

lemma root_mem_path (ns : PidNamespace) : root ∈ ns.path := by
  induction ns with
  | root => exact mem_singleton_self _
  | child id parent ih => exact mem_append_left _ ih

end PidNamespace

lemma reverse_collectPath {slots : ℕ} {ns : PidNamespace} {upward : List PidNamespace}
    (h : collectPath slots (some ns) = .ok upward) : upward.reverse = ns.path := by
  induction ns generalizing slots upward with
  | root =>
    cases slots with
    | zero => cases h
    | succ slots =>
      cases slots
      all_goals
        cases h
        rfl
  | child id parent ih =>
    cases slots with
    | zero => cases h
    | succ slots =>
      change (collectPath slots (some parent)).map _ = _ at h
      cases hrest : collectPath slots (some parent) with
      | error =>
        rw [hrest] at h
        cases h
      | ok =>
        rw [hrest] at h
        cases h
        rw [reverse_cons, ih hrest]
        rfl

/-! ## The loops of an assignment -/

namespace PidCells

variable {s s' : PidCells} {mapped : List MappedPid} {path : List PidNamespace}

/-- What the loop over the path did, up to the first failure. -/
structure MapsChain (globalPid : ℕ) (s s' : PidCells) (mapped : List MappedPid) : Prop where
  nodup : (mapped.map MappedPid.ns).Nodup
  mapsTo : ∀ m ∈ mapped, Mapped m.ns (s m.ns) (s' m.ns) globalPid m.pid ∧
    m.priorNext = if m.ns.isRoot then none else some (s m.ns).nextPid
  others : ∀ ns, ns ∉ mapped.map MappedPid.ns → s' ns = s ns

lemma mapChain_spec {result : Except PidNamespaceError Unit} (hnodup : path.Nodup)
    (h : s.mapChain globalPid path = (s', mapped, result)) :
    MapsChain globalPid s s' mapped ∧ (∀ ns ∈ mapped.map MappedPid.ns, ns ∈ path) ∧
      (result = .ok () → mapped.map MappedPid.ns = path) := by
  induction path generalizing s s' mapped with
  | nil =>
    cases h
    exact ⟨⟨nodup_nil, nofun, fun _ _ => rfl⟩, nofun, fun _ => rfl⟩
  | cons ns rest ih =>
    obtain ⟨hns, hrest⟩ := nodup_cons.mp hnodup
    unfold mapChain at h
    rcases mapPid_cases ns (s ns) globalPid with ⟨e, hmap⟩ | ⟨cell, pid, hmap, hmapped⟩
    · rw [hmap] at h
      cases h
      rw [update_eq_self]
      exact ⟨⟨nodup_nil, nofun, fun _ _ => rfl⟩, nofun, fun hok => nomatch hok⟩
    rw [hmap] at h
    dsimp only at h
    rcases hloop : mapChain globalPid rest (update s ns cell) with ⟨s1, mapped1, result1⟩
    rw [hloop] at h
    cases h
    obtain ⟨hmaps, hsub, hall⟩ := ih hrest hloop
    have hnot : ns ∉ mapped1.map MappedPid.ns := fun hmem => hns (hsub ns hmem)
    refine ⟨⟨nodup_cons.mpr ⟨hnot, hmaps.nodup⟩, ?_, ?_⟩, ?_, ?_⟩
    · refine forall_mem_cons.mpr ⟨⟨?_, rfl⟩, fun m hm => ?_⟩
      · dsimp only
        rw [hmaps.others ns hnot, update_self]
        exact hmapped
      · have hne : m.ns ≠ ns := fun heq => hnot (heq ▸ mem_map_of_mem hm)
        have hmapped := hmaps.mapsTo m hm
        rwa [update_of_ne hne] at hmapped
    · intro ns' hns'
      rw [map_cons, mem_cons, not_or] at hns'
      dsimp only at hns' ⊢
      rw [hmaps.others ns' hns'.2, update_of_ne hns'.1]
    · exact forall_mem_cons.mpr
        ⟨mem_cons_self, fun ns' hns' => mem_cons_of_mem _ (hsub ns' hns')⟩
    · intro hok
      rw [map_cons, hall hok]

/-- What the loop over the inits did to one namespace. -/
def InitSet (globalPid : ℕ) (mapped : List MappedPid) (ns : PidNamespace) (c c' : PidCell) : Prop :=
  c' = c ∨ (c.initGlobalPid = none ∧ (∃ m ∈ mapped, m.ns = ns ∧ m.pid = 1) ∧
    c' = { c with initGlobalPid := some globalPid })

lemma setInits_spec {result : Except PidNamespaceError Unit}
    (hnodup : (mapped.map MappedPid.ns).Nodup) (h : s.setInits globalPid mapped = (s', result))
    (ns : PidNamespace) : InitSet globalPid mapped ns (s ns) (s' ns) := by
  induction mapped generalizing s s' with
  | nil =>
    cases h
    exact .inl rfl
  | cons m rest ih =>
    rw [map_cons, nodup_cons] at hnodup
    have hweaken : ∀ {c c' : PidCell}, InitSet globalPid rest ns c c' →
        InitSet globalPid (m :: rest) ns c c' := by
      rintro c c' (hsame | ⟨hnone, ⟨m', hm', heq⟩, hset⟩)
      · exact .inl hsame
      · exact .inr ⟨hnone, ⟨m', mem_cons_of_mem _ hm', heq⟩, hset⟩
    -- A namespace that is not in the rest keeps what the first element made of it.
    have hrest : ∀ {s1 : PidCells}, s1.setInits globalPid rest = (s', result) →
        ns = m.ns → s' ns = s1 ns := by
      rintro s1 h1 rfl
      rcases ih hnodup.2 h1 with hsame | ⟨-, ⟨m', hm', heq, -⟩, -⟩
      · exact hsame
      · exact absurd (heq ▸ mem_map_of_mem hm') hnodup.1
    unfold setInits at h
    by_cases hpid : m.pid ≠ 1
    · rw [if_pos hpid] at h
      exact hweaken (ih hnodup.2 h)
    rw [if_neg hpid] at h
    dsimp only at h
    have hstep : ∀ {s1 : PidCells}, s1 = update s m.ns ((s m.ns).setInit globalPid).1 →
        InitSet globalPid (m :: rest) m.ns (s m.ns) (s1 m.ns) := by
      rintro s1 rfl
      rw [update_self]
      unfold setInit
      split_ifs with hsome
      · exact .inl rfl
      exact .inr ⟨Option.not_isSome_iff_eq_none.mp hsome,
        ⟨m, mem_cons_self, rfl, not_not.mp hpid⟩, rfl⟩
    have hcontinue : setInits globalPid rest
        (update s m.ns ((s m.ns).setInit globalPid).1) = (s', result) →
          InitSet globalPid (m :: rest) ns (s ns) (s' ns) := by
      intro h1
      by_cases hns : ns = m.ns
      · rw [hrest h1 hns, hns]
        exact hstep rfl
      have hset := ih hnodup.2 h1
      rw [update_of_ne hns] at hset
      exact hweaken hset
    split_ifs at h
    · exact hcontinue h
    split at h
    · cases h
      by_cases hns : ns = m.ns
      · rw [hns]
        exact hstep rfl
      rw [update_of_ne hns]
      exact .inl rfl
    · exact hcontinue h

/-- The rollback gives every namespace its state back. -/
lemma rollback_eq {prepared : List (PidNamespace × PreparedPidMappingCapacity)} {s1 s2 s3 : PidCells}
    {retired : List (PidNamespace × RetiredPidMappingCapacity)}
    (hnodup : (prepared.map Prod.fst).Nodup) (hinstall : s.installAll prepared = (s1, retired))
    (hmaps : MapsChain globalPid s1 s2 mapped)
    (hset : ∀ ns, InitSet globalPid mapped ns (s2 ns) (s3 ns))
    (hinit : ∀ ns, (s ns).initGlobalPid ≠ some globalPid) :
    rollback globalPid mapped retired s3 = s := by
  obtain ⟨hs1, rfl⟩ := Prod.mk.inj hinstall
  have hinstalled : ∀ p ∈ prepared, s1 p.1 = ((s p.1).installPreparedMappingCapacity p.2).1 :=
    fun p hp => (congrFun hs1 p.1).symm.trans (updateEach_of_mem hnodup hp)
  have hkept : ∀ ns, ns ∉ prepared.map Prod.fst → s1 ns = s ns :=
    fun ns hns => (congrFun hs1 ns).symm.trans (updateEach_of_not_mem hns)
  have hnodup' : (mapped.reverse.map MappedPid.ns).Nodup := by
    rw [map_reverse]
    exact nodup_reverse.mpr hmaps.nodup
  -- Taking the mappings back leaves what the installation made.
  have hundone : ∀ ns, updateEach MappedPid.ns (undo globalPid) mapped.reverse s3 ns = s1 ns := by
    intro ns
    by_cases hns : ns ∈ mapped.map MappedPid.ns
    · obtain ⟨m, hm, rfl⟩ := mem_map.mp hns
      obtain ⟨hmapped, hprior⟩ := hmaps.mapsTo m hm
      rw [updateEach_of_mem hnodup' (mem_reverse.mpr hm)]
      have hinit' : (s1 m.ns).initGlobalPid ≠ some globalPid := by
        by_cases hmem : m.ns ∈ prepared.map Prod.fst
        · obtain ⟨p, hp, hpns⟩ := mem_map.mp hmem
          rw [← hpns, hinstalled p hp]
          exact hinit p.1
        rw [hkept _ hmem]
        exact hinit m.ns
      have hm' : m = ⟨m.ns, m.priorNext, m.pid⟩ := rfl
      rw [hm', hprior]
      refine hmapped.undo hinit' ?_
      rcases hset m.ns with hsame | ⟨hnone, -, hsome⟩
      · exact .inl hsame
      · exact .inr ⟨hnone, hsome⟩
    · rw [updateEach_of_not_mem (by rwa [map_reverse, mem_reverse]), ← hmaps.others ns hns]
      rcases hset ns with hsame | ⟨-, ⟨m, hm, heq, -⟩, -⟩
      · exact hsame
      · exact absurd (heq ▸ mem_map_of_mem hm) hns
  have hkeys : (prepared.map fun p => (p.1, ((s p.1).installPreparedMappingCapacity p.2).2)).map
      Prod.fst = prepared.map Prod.fst := by
    rw [map_map]
    rfl
  funext ns
  unfold rollback
  by_cases hns : ns ∈ prepared.map Prod.fst
  · obtain ⟨p, hp, rfl⟩ := mem_map.mp hns
    have hmem : (p.1, ((s p.1).installPreparedMappingCapacity p.2).2) ∈
        prepared.map fun p => (p.1, ((s p.1).installPreparedMappingCapacity p.2).2) :=
      mem_map_of_mem (f := fun p => (p.1, ((s p.1).installPreparedMappingCapacity p.2).2)) hp
    refine (updateEach_of_mem (hkeys ▸ hnodup) hmem).trans ?_
    rw [hundone, hinstalled p hp, restore_install]
  · rw [updateEach_of_not_mem (by rwa [hkeys]), hundone, hkept ns hns]

/-! ## What an assignment does -/

/-- What a successful assignment did in a namespace of the path. -/
structure Entered (ns : PidNamespace) (c c' : PidCell) (globalPid pid : ℕ) : Prop where
  byGlobal : ∀ k, c'.pidByGlobal.get k = if k = globalPid then some pid else c.pidByGlobal.get k
  byNs : ∀ k, c'.pidByNs.get k = if k = pid then some globalPid else c.pidByNs.get k
  absent : c.pidByGlobal.get globalPid = none
  fresh : c.pidByNs.get pid = none
  pid_eq : pid = if ns.isRoot then globalPid else c.nextPid
  nextPid : c'.nextPid = if ns.isRoot then c.nextPid else pid + 1
  init : c'.initGlobalPid = c.initGlobalPid ∨ (pid = 1 ∧ c'.initGlobalPid = some globalPid)
  shuttingDown : c'.shuttingDown = c.shuttingDown

lemma get_of_insert {map map' : AdmittedMap ℕ ℕ} {k v : ℕ}
    (h : map.insertUniqueReserved k v = some map') (k' : ℕ) :
    map'.get k' = if k' = k then some v else map.get k' := by
  split_ifs with hk
  · rw [hk, get_insertUniqueReserved_self h]
  · exact get_insertUniqueReserved_of_ne h hk

/-- The installation, the allocation and the init, together. -/
lemma Entered.of_steps {c1 c2 c3 : PidCell} {prepared : PreparedPidMappingCapacity}
    (hinstall : c1 = (c.installPreparedMappingCapacity prepared).1)
    (hmapped : Mapped ns c1 c2 globalPid pid)
    (hset : c3 = c2 ∨ (pid = 1 ∧ c3 = { c2 with initGlobalPid := some globalPid })) :
    Entered ns c c3 globalPid pid := by
  subst hinstall
  have hglobal := get_of_assoc (assoc_installBacking c.pidByGlobal prepared.byGlobal)
  have hns := get_of_assoc (assoc_installBacking c.pidByNs prepared.byNs)
  have hmaps : c3.pidByGlobal = c2.pidByGlobal ∧ c3.pidByNs = c2.pidByNs ∧
      c3.nextPid = c2.nextPid ∧ c3.shuttingDown = c2.shuttingDown := by
    rcases hset with rfl | ⟨-, rfl⟩
    · exact ⟨rfl, rfl, rfl, rfl⟩
    · exact ⟨rfl, rfl, rfl, rfl⟩
  refine ⟨fun k => ?_, fun k => ?_, ?_, ?_, hmapped.pid_eq, hmaps.2.2.1.trans hmapped.nextPid, ?_,
    hmaps.2.2.2.trans hmapped.shuttingDown⟩
  · rw [hmaps.1, get_of_insert hmapped.byGlobal]
    exact congrArg (fun v => if k = globalPid then some pid else v) (hglobal k)
  · rw [hmaps.2.1, get_of_insert hmapped.byNs]
    exact congrArg (fun v => if k = pid then some globalPid else v) (hns k)
  · rw [← hglobal]
    exact (of_insertUniqueReserved hmapped.byGlobal).1
  · rw [← hns]
    exact (of_insertUniqueReserved hmapped.byNs).1
  · rcases hset with rfl | ⟨hone, rfl⟩
    · exact .inl hmapped.initGlobalPid
    · exact .inr ⟨hone, rfl⟩

lemma prepareAll_keys {env : AssignEnv}
    {prepared : List (PidNamespace × PreparedPidMappingCapacity)}
    (h : s.prepareAll env path = .ok prepared) : prepared.map Prod.fst = path := by
  unfold prepareAll at h
  induction path generalizing prepared with
  | nil =>
    cases h
    rfl
  | cons ns path ih =>
    rw [mapM_cons] at h
    obtain ⟨first, hfirst, h⟩ := bind_eq_ok h
    obtain ⟨capacity, -, hpure⟩ := bind_eq_ok hfirst
    obtain ⟨rest, hrest, h⟩ := bind_eq_ok h
    cases hpure
    cases h
    rw [map_cons, ih hrest]

section Transaction

variable {prepared : List (PidNamespace × PreparedPidMappingCapacity)}

/-- What a successful assignment did: the process entered the namespaces of the path. -/
structure Enters (globalPid : ℕ) (path : List PidNamespace) (s s' : PidCells)
    (chain : List PidNamespaceMembership) : Prop where
  chain_eq : chain.map PidNamespaceMembership.ns = path
  entered : ∀ m ∈ chain, Entered m.ns (s m.ns) (s' m.ns) globalPid m.pid
  others : ∀ ns, ns ∉ path → s' ns = s ns

lemma Enters.mem_or {chain : List PidNamespaceMembership} (h : Enters globalPid path s s' chain)
    (ns : PidNamespace) : (∃ m ∈ chain, m.ns = ns) ∨ ns ∉ path := by
  rw [← mem_map, h.chain_eq]
  exact em _

/-- The installation and the two loops, together. -/
lemma Enters.of_loops {s1 s2 s3 : PidCells} {retired : List (PidNamespace × RetiredPidMappingCapacity)}
    (hkeys : prepared.map Prod.fst = path) (hnodup : path.Nodup)
    (hinstall : s.installAll prepared = (s1, retired)) (hmaps : MapsChain globalPid s1 s2 mapped)
    (hpath : mapped.map MappedPid.ns = path)
    (hset : ∀ ns, InitSet globalPid mapped ns (s2 ns) (s3 ns)) :
    Enters globalPid path s s3 (mapped.map fun m => ⟨m.ns, m.pid⟩) := by
  cases hinstall
  refine ⟨?_, fun m' hm' => ?_, fun ns hns => ?_⟩
  · rw [map_map]
    exact hpath
  · obtain ⟨m, hm, rfl⟩ := mem_map.mp hm'
    obtain ⟨p, hp, hpns⟩ : ∃ p ∈ prepared, p.1 = m.ns := by
      have hmem : m.ns ∈ prepared.map Prod.fst := by
        rw [hkeys, ← hpath]
        exact mem_map_of_mem hm
      exact mem_map.mp hmem
    have hinstalled := updateEach_of_mem (s := s)
      (f := fun p c => (installPreparedMappingCapacity c p.2).1) (hkeys ▸ hnodup) hp
    rw [hpns] at hinstalled
    refine Entered.of_steps hinstalled (hmaps.mapsTo m hm).1 ?_
    rcases hset m.ns with hsame | ⟨-, ⟨m1, hm1, hns, hone⟩, hsome⟩
    · exact .inl hsame
    rw [inj_on_of_nodup_map hmaps.nodup hm1 hm hns] at hone
    exact .inr ⟨hone, hsome⟩
  · have hnot : ns ∉ mapped.map MappedPid.ns := hpath ▸ hns
    have hsame : s3 ns = s2 ns := by
      rcases hset ns with hsame | ⟨-, ⟨m, hm, heq, -⟩, -⟩
      · exact hsame
      · exact absurd (heq ▸ mem_map_of_mem hm) hnot
    rw [hsame, hmaps.others ns hnot, updateEach_of_not_mem (hkeys ▸ hns)]

lemma assignPrepared_cases (hkeys : prepared.map Prod.fst = path) (hnodup : path.Nodup)
    (hinit : ∀ ns, (s ns).initGlobalPid ≠ some globalPid) :
    (∃ e, s.assignPrepared path prepared globalPid = (s, .error e)) ∨
      ∃ s' chain, s.assignPrepared path prepared globalPid = (s', .ok chain) ∧
        Enters globalPid path s s' chain := by
  unfold assignPrepared
  rcases hinstall : s.installAll prepared with ⟨s1, retired⟩
  dsimp only
  rcases hmap : s1.mapChain globalPid path with ⟨s2, mapped, result⟩
  obtain ⟨hmaps, -, hall⟩ := mapChain_spec hnodup hmap
  cases result with
  | error e =>
    refine .inl ⟨e, ?_⟩
    dsimp only
    rw [rollback_eq (hkeys ▸ hnodup) hinstall hmaps (fun _ => .inl rfl) hinit]
  | ok _ =>
    dsimp only
    rcases hset : s2.setInits globalPid mapped with ⟨s3, result⟩
    have hinits := setInits_spec hmaps.nodup hset
    cases result with
    | error e =>
      refine .inl ⟨e, ?_⟩
      dsimp only
      rw [rollback_eq (hkeys ▸ hnodup) hinstall hmaps hinits hinit]
    | ok _ => exact .inr ⟨s3, _, rfl, .of_loops hkeys hnodup hinstall hmaps (hall rfl) hinits⟩

end Transaction

/-- An `assign_pid_chain` fails and changes nothing, or enters the namespaces from the root to the
leaf. -/
lemma assignPidChain_cases (env : AssignEnv) (leaf : PidNamespace)
    (hinit : ∀ ns, (s ns).initGlobalPid ≠ some globalPid) :
    (∃ e, s.assignPidChain env leaf globalPid = (s, .error e)) ∨
      ∃ s' chain, s.assignPidChain env leaf globalPid = (s', .ok chain) ∧
        Enters globalPid leaf.path s s' chain := by
  unfold assignPidChain
  cases hpath : collectPath pidPathSlots (some leaf) with
  | error e => exact .inl ⟨e, rfl⟩
  | ok =>
    dsimp only
    rw [reverse_collectPath hpath]
    split_ifs
    · cases hprepare : s.prepareAll env leaf.path with
      | error e => exact .inl ⟨e, rfl⟩
      | ok => exact assignPrepared_cases (prepareAll_keys hprepare) leaf.nodup_path hinit
    · exact .inl ⟨_, rfl⟩
    · exact .inl ⟨_, rfl⟩

end PidCells

end Nilix.Ns
