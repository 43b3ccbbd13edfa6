import Nilix.Ns.PidChain

/-!
# The invariant of the PID namespaces

Over every sequence of calls: the maps of a namespace are inverse to each other, they hold exactly the
assigned processes whose chain passes through the namespace, no local PID is given twice, and an init is
the assigned process with local PID 1.
-/

namespace Nilix.Ns

open FallibleOrderedMap PidNsState Function PidCell PidCells List Option

/-! ## A detachment -/

/-- What a detachment did in a namespace of the chain. -/
structure Departed (c c' : PidCell) (globalPid : ℕ) : Prop where
  byGlobal : ∀ k, c'.pidByGlobal.get k = if k = globalPid then none else c.pidByGlobal.get k
  byNs : ∀ k, c'.pidByNs.get k =
    if c.pidByGlobal.get globalPid = some k then none else c.pidByNs.get k
  nextPid : c'.nextPid = c.nextPid
  init : ∀ g, c'.initGlobalPid = some g → c.initGlobalPid = some g ∧ g ≠ globalPid

lemma get_of_remove (map : Net.AdmittedMap ℕ ℕ) (k k' : ℕ) :
    (map.remove k).get k' = if k' = k then none else map.get k' := by
  split_ifs with hk
  · rw [hk, FallibleOrderedMap.get_remove_self]
  · exact FallibleOrderedMap.get_remove_of_ne hk

lemma departed_removePidReserved (c : PidCell) (globalPid : ℕ) :
    Departed c ((c.clearInit globalPid).removePidReserved globalPid) globalPid := by
  have hclear : (c.clearInit globalPid).pidByGlobal = c.pidByGlobal ∧
      (c.clearInit globalPid).pidByNs = c.pidByNs ∧
      (c.clearInit globalPid).nextPid = c.nextPid ∧
      ∀ g, (c.clearInit globalPid).initGlobalPid = some g →
        c.initGlobalPid = some g ∧ g ≠ globalPid := by
    unfold clearInit
    split_ifs with hinit
    · exact ⟨rfl, rfl, rfl, fun g hg => nomatch hg⟩
    refine ⟨rfl, rfl, rfl, fun g hg => ⟨hg, ?_⟩⟩
    rintro rfl
    exact hinit hg
  obtain ⟨hglobal, hns, hnext, hinit⟩ := hclear
  unfold removePidReserved
  rw [hglobal, hns]
  cases hget : c.pidByGlobal.get globalPid with
  | none =>
    refine ⟨fun k => ?_, fun k => ?_, hnext, hinit⟩
    · rw [hglobal]
      split_ifs with hk
      · rw [hk, hget]
      · rfl
    rw [hns, hget, if_neg (fun h => nomatch h)]
  | some =>
    refine ⟨fun k => get_of_remove _ _ _, fun k => ?_, hnext, hinit⟩
    rw [hget]
    refine (get_of_remove _ _ _).trans ?_
    simp only [some.injEq, eq_comm]

lemma departed_detach (c : PidCell) (globalPid : ℕ) :
    Departed c ((c.clearInit globalPid).removePidReserved globalPid).takeEmptyMappingCapacity
      globalPid := by
  have h := departed_removePidReserved c globalPid
  refine ⟨fun k => ?_, fun k => ?_, h.nextPid, h.init⟩
  · exact (get_of_assoc (assoc_takeEmptyCapacity _) k).trans (h.byGlobal k)
  · exact (get_of_assoc (assoc_takeEmptyCapacity _) k).trans (h.byNs k)

/-! ## The invariant -/

namespace PidNsState

/-- What holds of the namespaces after every call. -/
structure Inv (s : PidNsState) : Prop where
  /-- The maps of a namespace are inverse to each other. -/
  inverse : ∀ ns l g, (s.cells ns).pidByNs.get l = some g ↔ (s.cells ns).pidByGlobal.get g = some l
  /-- A chain follows the path to its leaf. -/
  path : ∀ g a, s.assigned g = some a → a.chain.map PidNamespaceMembership.ns = a.leaf.path
  /-- A process is mapped in the namespaces of its chain, -/
  mapped : ∀ g a, s.assigned g = some a → ∀ m ∈ a.chain, (s.cells m.ns).pidByGlobal.get g = some m.pid
  /-- and nowhere else. -/
  visible : ∀ ns g pid, (s.cells ns).pidByGlobal.get g = some pid →
    ∃ a, s.assigned g = some a ∧ ⟨ns, pid⟩ ∈ a.chain
  /-- The root uses the global PIDs. -/
  rootPid : ∀ g pid, (s.cells .root).pidByGlobal.get g = some pid → pid = g
  /-- The PIDs of a chain have been given. -/
  recorded : ∀ g a, s.assigned g = some a → ∀ m ∈ a.chain, m.pid ∈ s.given m.ns
  /-- No local PID was given twice, and the counter is above all of them. -/
  given : ∀ ns, ns.isRoot = false →
    (s.given ns).Nodup ∧ ∀ pid ∈ s.given ns, pid < (s.cells ns).nextPid
  /-- An init has local PID 1. -/
  init : ∀ ns g, (s.cells ns).initGlobalPid = some g → (s.cells ns).pidByGlobal.get g = some 1
  /-- A namespace that does not exist is untouched. -/
  untouched : ∀ ns, s.live ns = false → s.cells ns = .new ∧ s.given ns = []
  /-- IDs that are in use were given out. -/
  ids : ∀ id parent, s.live (.child id parent) = true → id < s.nextNsId
  /-- The namespaces on the path to one that exists exist. -/
  livePath : ∀ ns, s.live ns = true → ∀ ns' ∈ ns.path, s.live ns' = true

lemma Inv.start : start.Inv where
  inverse _ _ _ := ⟨(fun h => nomatch h), (fun h => nomatch h)⟩
  path _ _ h := nomatch h
  mapped _ _ h := nomatch h
  visible _ _ _ h := nomatch h
  rootPid _ _ h := nomatch h
  recorded _ _ h := nomatch h
  given _ _ := ⟨nodup_nil, fun _ h => nomatch h⟩
  init _ _ h := nomatch h
  untouched _ _ := ⟨rfl, rfl⟩
  ids _ _ h := nomatch h
  livePath ns h ns' hns' := by
    have hroot : ns = .root := of_decide_eq_true h
    subst hroot
    rw [mem_singleton.mp hns']
    rfl

variable {s : PidNsState} {globalPid : ℕ} {leaf : PidNamespace}

/-- A process that is not assigned is mapped nowhere. -/
lemma Inv.get_eq_none (h : s.Inv) (hfree : s.assigned globalPid = none) (ns : PidNamespace) :
    (s.cells ns).pidByGlobal.get globalPid = none := by
  cases hget : (s.cells ns).pidByGlobal.get globalPid with
  | none => rfl
  | some pid =>
    obtain ⟨a, ha, -⟩ := h.visible ns globalPid pid hget
    cases hfree.symm.trans ha

lemma Inv.init_ne (h : s.Inv) (hfree : s.assigned globalPid = none) (ns : PidNamespace) :
    (s.cells ns).initGlobalPid ≠ some globalPid := by
  intro hinit
  cases (h.get_eq_none hfree ns).symm.trans (h.init ns globalPid hinit)

/-- An assignment fails and changes nothing, or enters the namespaces from the root to the leaf. -/
lemma Inv.assign_cases (h : s.Inv) (leaf : PidNamespace) (env : AssignEnv)
    (hfree : s.assigned globalPid = none) :
    (∃ e, s.assign leaf globalPid env = (s, .error e)) ∨
      ∃ cells chain, s.assign leaf globalPid env = ({ s with
          cells
          assigned := update s.assigned globalPid (some ⟨leaf, chain⟩)
          given := updateEach PidNamespaceMembership.ns (fun m pids => m.pid :: pids) chain s.given },
        .ok chain) ∧ Enters globalPid leaf.path s.cells cells chain := by
  unfold assign
  rcases assignPidChain_cases env leaf (h.init_ne hfree) with ⟨e, heq⟩ | ⟨cells, chain, heq, henters⟩ <;>
    rw [heq]
  · exact .inl ⟨e, rfl⟩
  · exact .inr ⟨cells, chain, rfl, henters⟩

lemma Inv.enter (h : s.Inv) {cells : PidCells} {chain : List PidNamespaceMembership}
    (hlive : s.live leaf = true) (hfree : s.assigned globalPid = none)
    (henters : Enters globalPid leaf.path s.cells cells chain) :
    Inv { s with
      cells
      assigned := update s.assigned globalPid (some ⟨leaf, chain⟩)
      given := updateEach PidNamespaceMembership.ns (fun m pids => m.pid :: pids) chain s.given } := by
  have ⟨hpath, hentered, hothers⟩ := henters
  have hnodup : (chain.map PidNamespaceMembership.ns).Nodup := hpath ▸ leaf.nodup_path
  have hoff : ∀ {m}, m ∈ chain → m.ns ∈ leaf.path := fun hm => hpath ▸ mem_map_of_mem hm
  -- The other processes keep their entries.
  have hget : ∀ ns g, g ≠ globalPid →
      (cells ns).pidByGlobal.get g = (s.cells ns).pidByGlobal.get g := by
    intro ns g hg
    rcases henters.mem_or ns with ⟨m, hm, rfl⟩ | hns
    · rw [(hentered m hm).byGlobal, if_neg hg]
    · rw [hothers ns hns]
  have hself : ∀ ns pid, (cells ns).pidByGlobal.get globalPid = some pid ↔ ⟨ns, pid⟩ ∈ chain := by
    intro ns pid
    rcases henters.mem_or ns with ⟨m, hm, rfl⟩ | hns
    · rw [(hentered m hm).byGlobal, if_pos rfl]
      constructor
      · intro heq
        cases heq
        exact hm
      intro hmem
      rw [← inj_on_of_nodup_map hnodup hmem hm rfl]
    rw [hothers ns hns, h.get_eq_none hfree ns]
    exact ⟨(fun heq => nomatch heq), fun hmem => absurd (hoff hmem) hns⟩
  have hgiven : ∀ {ns pid}, pid ∈ s.given ns →
      pid ∈ updateEach PidNamespaceMembership.ns (fun m pids => m.pid :: pids) chain s.given ns := by
    intro ns pid hmem
    rcases henters.mem_or ns with ⟨m, hm, rfl⟩ | hns
    · rw [updateEach_of_mem hnodup hm]
      exact mem_cons_of_mem _ hmem
    · rwa [updateEach_of_not_mem (hpath ▸ hns)]
  constructor
  case inverse =>
    intro ns l g
    dsimp only
    rcases henters.mem_or ns with ⟨m, hm, rfl⟩ | hns
    · have hent := hentered m hm
      rw [hent.byNs, hent.byGlobal]
      by_cases hl : l = m.pid
      · rw [if_pos hl]
        by_cases hg : g = globalPid
        · rw [if_pos hg, hl, hg]
          exact ⟨fun _ => rfl, fun _ => rfl⟩
        rw [if_neg hg]
        refine ⟨fun heq => absurd (some.inj heq).symm hg, fun hold => ?_⟩
        -- The new local PID was free.
        have hpid := h.inverse m.ns l g |>.mpr hold
        rw [hl, hent.fresh] at hpid
        cases hpid
      · rw [if_neg hl]
        by_cases hg : g = globalPid
        · rw [if_pos hg, hg]
          refine ⟨fun hold => ?_, fun heq => absurd (some.inj heq).symm hl⟩
          have hglobal := (h.inverse m.ns l globalPid).mp hold
          rw [hent.absent] at hglobal
          cases hglobal
        rw [if_neg hg]
        exact h.inverse m.ns l g
    · rw [hothers ns hns]
      exact h.inverse ns l g
  case path =>
    intro g a ha
    rcases update_eq_some_iff.mp ha with ⟨-, ⟨⟩⟩ | ⟨-, ha⟩
    · exact hpath
    · exact h.path g a ha
  case mapped =>
    intro g a ha m hm
    rcases update_eq_some_iff.mp ha with ⟨rfl, ⟨⟩⟩ | ⟨hg, ha⟩
    · exact (hself m.ns m.pid).mpr hm
    · exact (hget m.ns g hg).trans (h.mapped g a ha m hm)
  case visible =>
    intro ns g pid hvisible
    dsimp only at hvisible ⊢
    by_cases hg : g = globalPid
    · subst hg
      exact ⟨⟨leaf, chain⟩, update_self .., (hself ns pid).mp hvisible⟩
    rw [hget ns g hg] at hvisible
    rw [update_of_ne hg]
    exact h.visible ns g pid hvisible
  case rootPid =>
    intro g pid hroot
    by_cases hg : g = globalPid
    · subst hg
      have hmem := (hself .root pid).mp hroot
      exact (hentered _ hmem).pid_eq
    rw [hget .root g hg] at hroot
    exact h.rootPid g pid hroot
  case recorded =>
    intro g a ha m hm
    rcases update_eq_some_iff.mp ha with ⟨rfl, ⟨⟩⟩ | ⟨-, ha⟩
    · dsimp only
      rw [updateEach_of_mem hnodup hm]
      exact mem_cons_self
    · exact hgiven (h.recorded g a ha m hm)
  case given =>
    intro ns hroot
    dsimp only
    obtain ⟨hnodupGiven, hbelow⟩ := h.given ns hroot
    rcases henters.mem_or ns with ⟨m, hm, rfl⟩ | hns
    · have hent := hentered m hm
      have hpid : m.pid = (s.cells m.ns).nextPid := by
        have heq := hent.pid_eq
        rwa [hroot, if_neg Bool.false_ne_true] at heq
      have hnext : (cells m.ns).nextPid = m.pid + 1 := by
        have heq := hent.nextPid
        rwa [hroot, if_neg Bool.false_ne_true] at heq
      rw [updateEach_of_mem hnodup hm, hnext]
      refine ⟨nodup_cons.mpr ⟨fun hmem => ?_, hnodupGiven⟩, ?_⟩
      · exact absurd (hbelow m.pid hmem) (by omega)
      refine forall_mem_cons.mpr ⟨lt_add_one _, fun pid hpid' => ?_⟩
      have hlt := hbelow pid hpid'
      omega
    · rw [updateEach_of_not_mem (hpath ▸ hns), hothers ns hns]
      exact ⟨hnodupGiven, hbelow⟩
  case init =>
    intro ns g hinit
    dsimp only at hinit ⊢
    rcases henters.mem_or ns with ⟨m, hm, rfl⟩ | hns
    · have hent := hentered m hm
      rcases hent.init with hsame | ⟨hone, hset⟩
      · rw [hsame] at hinit
        have hg : g ≠ globalPid := fun heq => h.init_ne hfree m.ns (heq ▸ hinit)
        rw [hget m.ns g hg]
        exact h.init m.ns g hinit
      rw [hset] at hinit
      cases hinit
      rw [hent.byGlobal, if_pos rfl, hone]
    · rw [hothers ns hns] at hinit ⊢
      exact h.init ns g hinit
  case untouched =>
    intro ns hdead
    have hns : ns ∉ leaf.path := fun hmem => by
      have hcontra := h.livePath leaf hlive ns hmem
      rw [hdead] at hcontra
      cases hcontra
    dsimp only
    rw [hothers ns hns, updateEach_of_not_mem (hpath ▸ hns)]
    exact h.untouched ns hdead
  case ids => exact h.ids
  case livePath => exact h.livePath

variable {a : PidAssignment}

/-- A detachment takes the process out of the namespaces of its chain, and it is in no other. -/
lemma Inv.departed (h : s.Inv) (ha : s.assigned globalPid = some a) (ns : PidNamespace) :
    Departed (s.cells ns) (s.cells.detachPidChain a.chain globalPid ns) globalPid := by
  have hnodup : (a.chain.map PidNamespaceMembership.ns).Nodup :=
    h.path globalPid a ha ▸ a.leaf.nodup_path
  unfold detachPidChain
  by_cases hns : ns ∈ a.chain.map PidNamespaceMembership.ns
  · obtain ⟨m, hm, rfl⟩ := mem_map.mp hns
    rw [updateEach_of_mem hnodup hm]
    exact departed_detach _ _
  have hnone : (s.cells ns).pidByGlobal.get globalPid = none := by
    cases hget : (s.cells ns).pidByGlobal.get globalPid with
    | none => rfl
    | some pid =>
      obtain ⟨a', ha', hmem⟩ := h.visible ns globalPid pid hget
      cases ha.symm.trans ha'
      exact absurd (mem_map_of_mem hmem) hns
  rw [updateEach_of_not_mem hns]
  refine ⟨fun k => ?_, fun k => ?_, rfl, fun g hg => ⟨hg, ?_⟩⟩
  · split_ifs with hk
    · rw [hk, hnone]
    · rfl
  · rw [hnone, if_neg nofun]
  · rintro rfl
    cases hnone.symm.trans (h.init ns g hg)

lemma Inv.detach (h : s.Inv) (ha : s.assigned globalPid = some a) : Inv { s with
      cells := s.cells.detachPidChain a.chain globalPid
      assigned := update s.assigned globalPid none } := by
  have hdeparted := h.departed ha
  have hassigned : ∀ {g b}, update s.assigned globalPid none g = some b →
      g ≠ globalPid ∧ s.assigned g = some b := by
    intro g b hb
    rcases update_eq_some_iff.mp hb with ⟨-, ⟨⟩⟩ | hb
    exact hb
  constructor
  case inverse =>
    intro ns l g
    rw [(hdeparted ns).byNs, (hdeparted ns).byGlobal]
    by_cases hg : g = globalPid
    · subst hg
      rw [if_pos rfl]
      refine ⟨fun hold => ?_, fun hnone => nomatch hnone⟩
      split_ifs at hold with hl
      exact absurd ((h.inverse ns l g).mp hold) hl
    rw [if_neg hg]
    split_ifs with hl
    · refine ⟨(fun hnone => nomatch hnone), fun hold => ?_⟩
      have hother := (h.inverse ns l g).mpr hold
      rw [(h.inverse ns l globalPid).mpr hl] at hother
      exact absurd (some.inj hother).symm hg
    · exact h.inverse ns l g
  case path => exact fun g b hb => h.path g b (hassigned hb).2
  case mapped =>
    intro g b hb m hm
    rw [(hdeparted m.ns).byGlobal, if_neg (hassigned hb).1]
    exact h.mapped g b (hassigned hb).2 m hm
  case visible =>
    intro ns g pid hvisible
    dsimp only at hvisible ⊢
    rw [(hdeparted ns).byGlobal] at hvisible
    split_ifs at hvisible with hg
    rw [update_of_ne hg]
    exact h.visible ns g pid hvisible
  case rootPid =>
    intro g pid hroot
    rw [(hdeparted .root).byGlobal] at hroot
    split_ifs at hroot
    exact h.rootPid g pid hroot
  case recorded => exact fun g b hb m hm => h.recorded g b (hassigned hb).2 m hm
  case given =>
    intro ns hroot
    rw [(hdeparted ns).nextPid]
    exact h.given ns hroot
  case init =>
    intro ns g hinit
    obtain ⟨hold, hg⟩ := (hdeparted ns).init g hinit
    rw [(hdeparted ns).byGlobal, if_neg hg]
    exact h.init ns g hold
  case untouched =>
    intro ns hdead
    obtain ⟨hcell, hgiven⟩ := h.untouched ns hdead
    refine ⟨?_, hgiven⟩
    -- A namespace that does not exist is on no chain.
    have hns : ns ∉ a.chain.map PidNamespaceMembership.ns := by
      intro hmem
      obtain ⟨m, hm, rfl⟩ := mem_map.mp hmem
      have hmapped := h.mapped globalPid a ha m hm
      rw [hcell] at hmapped
      cases hmapped
    have hsame : s.cells.detachPidChain a.chain globalPid ns = s.cells ns := updateEach_of_not_mem hns
    exact hsame.trans hcell
  case ids => exact h.ids
  case livePath => exact h.livePath

variable {ns : PidNamespace}

lemma Inv.markShuttingDown (h : s.Inv) (hlive : s.live ns = true) :
    Inv { s with cells := update s.cells ns { s.cells ns with shuttingDown := true } } := by
  set cells := update s.cells ns { s.cells ns with shuttingDown := true } with hcells
  have hmaps : ∀ ns', (cells ns').pidByNs = (s.cells ns').pidByNs ∧
      (cells ns').pidByGlobal = (s.cells ns').pidByGlobal ∧
      (cells ns').nextPid = (s.cells ns').nextPid ∧
      (cells ns').initGlobalPid = (s.cells ns').initGlobalPid := by
    intro ns'
    rw [hcells]
    by_cases hns : ns' = ns
    · subst hns
      rw [update_self]
      exact ⟨rfl, rfl, rfl, rfl⟩
    rw [update_of_ne hns]
    exact ⟨rfl, rfl, rfl, rfl⟩
  constructor
  case inverse =>
    intro ns' l g
    rw [(hmaps ns').1, (hmaps ns').2.1]
    exact h.inverse ns' l g
  case path => exact h.path
  case mapped =>
    intro g a ha m hm
    rw [(hmaps m.ns).2.1]
    exact h.mapped g a ha m hm
  case visible =>
    intro ns' g pid hvisible
    rw [(hmaps ns').2.1] at hvisible
    exact h.visible ns' g pid hvisible
  case rootPid =>
    intro g pid hroot
    rw [(hmaps .root).2.1] at hroot
    exact h.rootPid g pid hroot
  case recorded => exact h.recorded
  case given =>
    intro ns' hroot
    rw [(hmaps ns').2.2.1]
    exact h.given ns' hroot
  case init =>
    intro ns' g hinit
    rw [(hmaps ns').2.2.2] at hinit
    rw [(hmaps ns').2.1]
    exact h.init ns' g hinit
  case untouched =>
    intro ns' hdead
    have hns : ns' ≠ ns := by
      rintro rfl
      rw [hlive] at hdead
      cases hdead
    dsimp only
    rw [hcells, update_of_ne hns]
    exact h.untouched ns' hdead
  case ids => exact h.ids
  case livePath => exact h.livePath

/-- What a `new_child` does: nothing, the spending of an ID, or a new namespace under that ID. -/
lemma newChild_cases (s : PidNsState) (parent : PidNamespace) (env : NewChildEnv) :
    (s.newChild parent env).1 = s ∨
      (s.newChild parent env).1 = { s with nextNsId := s.nextNsId + 1 } ∨
      (s.newChild parent env).1 = { s with
        nextNsId := s.nextNsId + 1
        cells := update s.cells (.child s.nextNsId parent) .new
        live := update s.live (.child s.nextNsId parent) true
        nsCount := s.nsCount + 1
        children := update s.children parent (s.children parent + 1) } := by
  unfold newChild
  by_cases hdown : (s.cells parent).shuttingDown = true
  · rw [if_pos hdown]
    exact .inl rfl
  rw [if_neg hdown]
  by_cases hlevel : maxPidNsLevel ≤ parent.level
  · rw [if_pos hlevel]
    exact .inl rfl
  rw [if_neg hlevel]
  by_cases hcount : maxPidNsCount ≤ s.nsCount
  · rw [if_pos hcount]
    exact .inl rfl
  rw [if_neg hcount]
  unfold checkedAdd
  by_cases hid : s.nextNsId + 1 ≤ usizeMax
  · rw [if_pos hid]
    split_ifs
    · exact .inr (.inl rfl)
    · exact .inr (.inr rfl)
    · exact .inr (.inl rfl)
    · exact .inr (.inl rfl)
  rw [if_neg hid]
  exact .inl rfl

lemma Inv.not_live_next (h : s.Inv) (parent : PidNamespace) :
    s.live (.child s.nextNsId parent) = false := by
  by_contra hcontra
  exact absurd (h.ids _ _ (Bool.not_eq_false _ |>.mp hcontra)) (lt_irrefl _)

/-- A `new_child` leaves the states of the namespaces: the new one is untouched. -/
lemma Inv.cells_newChild (h : s.Inv) (parent : PidNamespace) (env : NewChildEnv) :
    (s.newChild parent env).1.cells = s.cells ∧ (s.newChild parent env).1.given = s.given ∧
      (s.newChild parent env).1.assigned = s.assigned := by
  rcases s.newChild_cases parent env with heq | heq | heq
  · rw [heq]
    exact ⟨rfl, rfl, rfl⟩
  · rw [heq]
    exact ⟨rfl, rfl, rfl⟩
  · rw [heq]
    refine ⟨?_, rfl, rfl⟩
    rw [← (h.untouched _ (h.not_live_next parent)).1, update_eq_self]

lemma Inv.newChild (h : s.Inv) {parent : PidNamespace} (hlive : s.live parent = true)
    (env : NewChildEnv) : Inv (s.newChild parent env).1 := by
  have hcells := (h.cells_newChild parent env).1
  have hspent : ∀ id parent', s.live (.child id parent') = true → id < s.nextNsId + 1 :=
    fun id parent' hid => (h.ids id parent' hid).trans (lt_add_one _)
  rcases s.newChild_cases parent env with heq | heq | heq
  · rw [heq]
    exact h
  · rw [heq]
    exact { h with ids := hspent }
  · rw [heq] at hcells ⊢
    dsimp only at hcells
    rw [hcells]
    refine ⟨h.inverse, h.path, h.mapped, h.visible, h.rootPid, h.recorded, h.given, h.init,
      fun ns hns => h.untouched ns ?_, fun id parent' hid => ?_, fun ns hns ns' hns' => ?_⟩
    · dsimp only at hns
      by_cases heq : ns = .child s.nextNsId parent
      · rw [heq, update_self] at hns
        cases hns
      · rwa [update_of_ne heq] at hns
    · dsimp only at hid ⊢
      by_cases heq : PidNamespace.child id parent' = .child s.nextNsId parent
      · cases heq
        exact lt_add_one _
      rw [update_of_ne heq] at hid
      exact hspent id parent' hid
    · dsimp only at hns ⊢
      by_cases heq' : ns' = .child s.nextNsId parent
      · rw [heq', update_self]
      rw [update_of_ne heq']
      by_cases heq : ns = .child s.nextNsId parent
      · subst heq
        rcases mem_append.mp hns' with hmem | hmem
        · exact h.livePath parent hlive ns' hmem
        · exact absurd (mem_singleton.mp hmem) heq'
      rw [update_of_ne heq] at hns
      exact h.livePath ns hns ns' hns'

lemma Inv.exec (h : s.Inv) (event : PidNsEvent) : (s.exec event).Inv := by
  cases event with
  | newChild parent env =>
    dsimp only [PidNsState.exec]
    split_ifs with hlive
    · exact h.newChild hlive env
    · exact h
  | assignPidChain leaf globalPid env =>
    dsimp only [PidNsState.exec]
    split_ifs with hcall
    · rcases h.assign_cases leaf env hcall.2 with ⟨e, heq⟩ | ⟨cells, chain, heq, henters⟩ <;> rw [heq]
      · exact h
      · exact h.enter hcall.1 hcall.2 henters
    · exact h
  | detachPidChain =>
    dsimp only [PidNsState.exec]
    split
    · exact h
    rename_i a ha
    exact h.detach ha
  | markShuttingDown =>
    dsimp only [PidNsState.exec]
    split_ifs with hlive
    · exact h.markShuttingDown hlive
    · exact h

lemma Inv.run (h : s.Inv) (events : List PidNsEvent) : (s.run events).Inv :=
  foldlRecOn events PidNsState.exec h fun _ hs event _ => hs.exec event

/-! ## An init that is gone -/

/-- The process with local PID 1 has left a namespace. -/
structure InitGone (s : PidNsState) (ns : PidNamespace) : Prop where
  given : 1 ∈ s.given ns
  absent : ∀ g, (s.cells ns).pidByGlobal.get g ≠ some 1

lemma InitGone.exec (h : s.Inv) (hroot : ns.isRoot = false) (hgone : s.InitGone ns)
    (event : PidNsEvent) : (s.exec event).InitGone ns := by
  cases event with
  | newChild parent env =>
    dsimp only [PidNsState.exec]
    split_ifs with hlive
    · obtain ⟨hcells, hgiven, -⟩ := h.cells_newChild parent env
      refine ⟨?_, fun g => ?_⟩
      · rw [hgiven]
        exact hgone.given
      rw [hcells]
      exact hgone.absent g
    · exact hgone
  | assignPidChain leaf globalPid env =>
    dsimp only [PidNsState.exec]
    split_ifs with hcall
    · rcases h.assign_cases leaf env hcall.2 with ⟨e, heq⟩ | ⟨cells, chain, heq, henters⟩ <;> rw [heq]
      · exact hgone
      have hpath := henters.chain_eq
      have hnodup : (chain.map PidNamespaceMembership.ns).Nodup := hpath ▸ leaf.nodup_path
      rcases henters.mem_or ns with ⟨m, hm, rfl⟩ | hns
      · have hent := henters.entered m hm
        refine ⟨?_, fun g hg => ?_⟩
        · dsimp only
          rw [updateEach_of_mem hnodup hm]
          exact mem_cons_of_mem _ hgone.given
        -- The counter is above 1, so the new process is not PID 1.
        rw [hent.byGlobal] at hg
        split_ifs at hg
        · have hpid := hent.pid_eq
          rw [hroot, if_neg Bool.false_ne_true] at hpid
          have hlt := (h.given m.ns hroot).2 1 hgone.given
          have hone : m.pid = 1 := some.inj hg
          omega
        · exact hgone.absent g hg
      · refine ⟨?_, fun g => ?_⟩
        · dsimp only
          rw [updateEach_of_not_mem (hpath ▸ hns)]
          exact hgone.given
        · dsimp only
          rw [henters.others ns hns]
          exact hgone.absent g
    · exact hgone
  | detachPidChain =>
    dsimp only [PidNsState.exec]
    split
    · exact hgone
    rename_i a ha
    refine ⟨hgone.given, fun g => ?_⟩
    rw [(h.departed ha ns).byGlobal]
    split_ifs
    · exact nofun
    · exact hgone.absent g
  | markShuttingDown ns' =>
    dsimp only [PidNsState.exec]
    split_ifs
    · refine ⟨hgone.given, fun g => ?_⟩
      dsimp only
      by_cases heq : ns = ns'
      · subst heq
        rw [update_self]
        exact hgone.absent g
      rw [update_of_ne heq]
      exact hgone.absent g
    · exact hgone

lemma InitGone.run (h : s.Inv) (hroot : ns.isRoot = false) (hgone : s.InitGone ns)
    (events : List PidNsEvent) : (s.run events).InitGone ns := by
  induction events generalizing s with
  | nil => exact hgone
  | cons event events ih => exact ih (h.exec event) (hgone.exec h hroot event)

/-- The detachment of the process with local PID 1. -/
lemma InitGone.of_detach (h : s.Inv) (ha : s.assigned globalPid = some a)
    (hmem : ⟨ns, 1⟩ ∈ a.chain) : (s.exec (.detachPidChain globalPid)).InitGone ns := by
  have hinv := h.exec (.detachPidChain globalPid)
  dsimp only [PidNsState.exec] at hinv ⊢
  rw [ha] at hinv ⊢
  refine ⟨h.recorded globalPid a ha _ hmem, fun g hg => ?_⟩
  have hself := h.mapped globalPid a ha _ hmem
  rw [(h.departed ha ns).byGlobal] at hg
  split_ifs at hg with hne
  -- Two processes would have local PID 1.
  have hone := (h.inverse ns 1 g).mpr hg
  rw [(h.inverse ns 1 globalPid).mpr hself] at hone
  exact hne (some.inj hone).symm

/-! ## The maps -/

/-- The contract of the PID maps. -/
structure MapsOk (s : PidNsState) : Prop where
  /-- The two maps of a namespace are inverse to each other. -/
  inverse : ∀ ns l g, (s.cells ns).pidByNs.get l = some g ↔ (s.cells ns).pidByGlobal.get g = some l
  /-- An assigned process is in exactly the namespaces from the root to its leaf, with the PIDs of its
  chain, the root one being its global PID. -/
  assigned : ∀ g a, s.assigned g = some a →
    a.chain.map PidNamespaceMembership.ns = a.leaf.path ∧
      (∀ ns pid, (s.cells ns).pidByGlobal.get g = some pid ↔ ⟨ns, pid⟩ ∈ a.chain) ∧
      ⟨.root, g⟩ ∈ a.chain
  /-- A process that is not assigned is nowhere. -/
  unassigned : ∀ g, s.assigned g = none →
    ∀ ns, (s.cells ns).pidByGlobal.get g = none ∧ ∀ l, (s.cells ns).pidByNs.get l ≠ some g
  /-- Below the root no local PID is given to two processes. -/
  noReuse : ∀ ns, ns ≠ .root → (s.given ns).Nodup
  /-- An init below the root is the assigned process with local PID 1. -/
  init : ∀ ns, ns ≠ .root → (s.cells ns).initGlobalPid = none ∨
    ∃ g a, (s.cells ns).initGlobalPid = some g ∧ s.assigned g = some a ∧ ⟨ns, 1⟩ ∈ a.chain
  /-- After the process with local PID 1 detaches, the namespace never has an init again. -/
  initGone : ∀ ns, ns ≠ .root → ∀ g a, s.assigned g = some a → ⟨ns, 1⟩ ∈ a.chain →
    ∀ later, (((s.exec (.detachPidChain g)).run later).cells ns).initGlobalPid = none
  /-- An assignment that fails leaves every namespace as it was. -/
  failed : ∀ leaf g env e, s.live leaf = true → s.assigned g = none →
    (s.assign leaf g env).2 = .error e → (s.assign leaf g env).1.cells = s.cells

lemma Inv.mapsOk (h : s.Inv) : s.MapsOk where
  inverse := h.inverse
  assigned g a ha := by
    have hiff : ∀ ns pid, (s.cells ns).pidByGlobal.get g = some pid ↔ ⟨ns, pid⟩ ∈ a.chain := by
      intro ns pid
      constructor
      · intro hget
        obtain ⟨a', ha', hmem⟩ := h.visible ns g pid hget
        cases ha.symm.trans ha'
        exact hmem
      · exact h.mapped g a ha _
    obtain ⟨m, hm, hroot⟩ := mem_map.mp (h.path g a ha ▸ a.leaf.root_mem_path)
    have hpid : m.pid = g := h.rootPid g m.pid (hroot ▸ h.mapped g a ha m hm)
    refine ⟨h.path g a ha, hiff, ?_⟩
    rwa [← hroot, ← hpid]
  unassigned g hfree ns := by
    have hnone := h.get_eq_none hfree ns
    refine ⟨hnone, fun l hl => ?_⟩
    cases hnone.symm.trans ((h.inverse ns l g).mp hl)
  noReuse ns hns := (h.given ns (Bool.not_eq_true _ |>.mp (mt PidNamespace.isRoot_iff.mp hns))).1
  init ns _ := by
    cases hinit : (s.cells ns).initGlobalPid with
    | none => exact .inl rfl
    | some g =>
      obtain ⟨a, ha, hmem⟩ := h.visible ns g 1 (h.init ns g hinit)
      exact .inr ⟨g, a, rfl, ha, hmem⟩
  initGone ns hns g a ha hmem later := by
    have hroot := Bool.not_eq_true _ |>.mp (mt PidNamespace.isRoot_iff.mp hns)
    have hinv := h.exec (.detachPidChain g)
    have hgone := (InitGone.of_detach h ha hmem).run hinv hroot later
    cases hinit : (((s.exec (.detachPidChain g)).run later).cells ns).initGlobalPid with
    | none => rfl
    | some g' => exact absurd ((hinv.run later).init ns g' hinit) (hgone.absent g')
  failed leaf g env e _ hfree herror := by
    rcases h.assign_cases leaf env hfree with ⟨e, heq⟩ | ⟨cells, chain, heq, -⟩ <;> rw [heq] at herror ⊢
    cases herror

/-- The PID maps keep their contract over every sequence of calls, with the allocator failing at any
point. -/
theorem mapsOk_run_start (events : List PidNsEvent) : (start.run events).MapsOk :=
  (Inv.start.run events).mapsOk

-- A first process of a child namespace: PID 7 in the root, PID 1 and the init below.
example : ((start.run [.newChild .root ⟨true, true⟩, .assignPidChain (.child 1 .root) 7
    ⟨true, fun _ => (some 0, some 0)⟩]).assigned 7).map (·.chain) =
      some [⟨.root, 7⟩, ⟨.child 1 .root, 1⟩] := by
  decide +kernel

end PidNsState

end Nilix.Ns
