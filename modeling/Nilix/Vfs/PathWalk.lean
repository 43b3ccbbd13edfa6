import Nilix.Vfs.Path

/-!
# Rules for the path walk

What the steps of a walk can do, and `WalkArgs.Keeps.walk`, the rule for whole walks: what `..`, a
name and the start of a symlink keep holds of the result.
-/

namespace Nilix.Vfs

open MountView List Option WalkArgs

/-- The name of a child, which is neither `.` nor `..`. -/
def ChildName (name : Name) : Prop := name ≠ ['.'] ∧ name ≠ ['.', '.']
deriving Decidable

/-! ## Mounts of a view -/

section View

variable {v : MountView} {m n : Mount}

lemma MountView.mem_values : m ∈ v.values ↔ v.mounts.get? m.id = some m := by
  constructor
  · intro hm
    obtain ⟨⟨id, m'⟩, hmem, rfl⟩ := mem_map.mp hm
    have hget := SortedAssoc.mem_entries.mp hmem
    rw [v.keyed id m' hget, hget]
  intro hget
  exact mem_map.mpr ⟨(m.id, m), SortedAssoc.mem_entries.mpr hget, rfl⟩

lemma MountView.eq_of_id (hm : m ∈ v.values) (hn : n ∈ v.values) (hid : m.id = n.id) : m = n := by
  rw [mem_values] at hm hn
  rw [hid] at hm
  exact some.inj (hm.symm.trans hn)

lemma MountView.id_current (v : MountView) (m : Mount) : (v.current m).id = m.id := by
  unfold current
  rcases hget : v.mounts.get? m.id with _ | n
  · rfl
  · exact v.keyed m.id n hget

/-- A mount that the view has replaced nothing for. -/
def MountView.Canonical (v : MountView) (m : Mount) : Prop := v.current m = m

lemma MountView.canonical_current (v : MountView) (m : Mount) : v.Canonical (v.current m) := by
  unfold Canonical
  have hid := v.id_current m
  unfold current at hid ⊢
  rw [hid]
  rcases v.mounts.get? m.id with _ | n
  · rfl
  · rfl

lemma MountView.canonical_of_mem (h : m ∈ v.values) : v.Canonical m := by
  unfold Canonical current
  rw [mem_values.mp h, getD_some]

lemma MountView.canonical_of_none (h : v.mounts.get? m.id = none) : v.Canonical m := by
  unfold Canonical current
  rw [h, getD_none]

/-- Of the mounts with one ID that is in the view, one is canonical. -/
lemma MountView.Canonical.eq_current (h : v.Canonical m) (hid : n.id = m.id)
    (hin : v.mounts.get? n.id ≠ none) : v.current n = m := by
  obtain ⟨k, hk⟩ := ne_none_iff_exists'.mp hin
  rw [← h]
  unfold current
  rw [← hid, hk, getD_some, getD_some]

/-- A mount is in the view, or canonical because its ID is not. -/
lemma MountView.Canonical.mem_or (h : v.Canonical m) : m ∈ v.values ∨ v.mounts.get? m.id = none := by
  rcases hget : v.mounts.get? m.id with _ | k
  · exact .inr rfl
  refine .inl (mem_values.mpr ?_)
  unfold Canonical current at h
  rw [hget, getD_some] at h
  rw [hget, h]

lemma MountView.of_canonical {w : World} {p q : ResolvedPath} (h : v.canonical w p = .ok q) :
    q = ⟨v.current p.mount, p.inode, v.epoch⟩ ∧ p.inode.fsId = w.fsId (v.current p.mount).fs := by
  unfold canonical at h
  split_ifs at h with hcheck
  rw [not_or, not_not, not_not] at hcheck
  exact ⟨(Except.ok.inj h).symm, hcheck.2⟩

lemma MountView.of_rootPath {w : World} {p : ResolvedPath} (h : v.rootPath w = .ok p) :
    p.mount ∈ v.values ∧ p.inode = w.rootInode p.mount.fs := by
  obtain ⟨id, -, h⟩ := bind_eq_ok h
  obtain ⟨m, hm, h⟩ := bind_eq_ok h
  cases h
  rw [okOr_eq_ok] at hm
  refine ⟨mem_values.mpr ?_, rfl⟩
  change v.mounts.get? m.id = some m
  rw [v.keyed id m hm, hm]

/-- A saved directory is on a mount as the view has it. -/
lemma MountView.canonical_of_handlePath {w : World} {handle : Option ResolvedPath}
    {p : ResolvedPath} (h : v.handlePath w handle = .ok p) : v.Canonical p.mount := by
  obtain ⟨original, -, h⟩ := bind_eq_ok h
  dsimp only at h
  split_ifs at h
  · obtain ⟨root, hroot, h⟩ := bind_eq_ok h
    split_ifs at h
    cases h
    exact canonical_of_mem (of_rootPath hroot).1
  obtain ⟨rfl, -⟩ := of_canonical h
  exact v.canonical_current original.mount

end View

lemma ResolvedPath.same_iff {p q : ResolvedPath} :
    p.same q = true ↔ p.mount.id = q.mount.id ∧ p.inode = q.inode := by
  unfold same identity
  rw [decide_eq_true_iff, PathIdentity.mk.injEq]

/-! ## Steps up -/

section Up

variable {w : World} {v : MountView} {start : Mount} {b p up : ResolvedPath}
  {visible noXdev attached : Bool} {name : Name}

lemma of_parentWithin (h : parentWithin w v visible p = .ok (some (up, name, attached))) :
    up.mount = p.mount ∧ ∃ d, w.directoryParent p.mount.fs p.inode = .ok (some d) ∧
      up.inode = d.inode := by
  obtain ⟨found, hfound, h⟩ := bind_eq_ok h
  rcases found with _ | d
  · cases h
  dsimp only at h
  split_ifs at h
  obtain ⟨rfl, -⟩ := Prod.mk.inj (some.inj (Except.ok.inj h))
  exact ⟨rfl, d, hfound, rfl⟩

/-- The ways up: to the directory that a mount covers if it is the boundary, to the parent of that
directory, or to the parent within the file system. -/
lemma parent_cases (hp : v.Canonical p.mount)
    (h : parent w v b visible noXdev p = .ok (some (up, name, attached))) :
    p.same b = false ∧
    ((p.inode = w.rootInode p.mount.fs ∧ noXdev = false ∧ ∃ parent covered,
        p.mount.place = some (parent, covered) ∧
        ((up.mount = v.current parent ∧ up.inode = covered ∧ up.same b = true) ∨
          ¬((v.current parent).id = b.mount.id ∧ covered = b.inode) ∧ up.mount = v.current parent ∧
            ∃ d, w.directoryParent (v.current parent).fs covered = .ok (some d) ∧
              up.inode = d.inode)) ∨
      (p.inode.ino ≠ w.rootIno p.mount.fs ∧ up.mount = p.mount ∧
        ∃ d, w.directoryParent p.mount.fs p.inode = .ok (some d) ∧ up.inode = d.inode)) := by
  unfold Vfs.parent at h
  split_ifs at h with hsame
  · cases h
  refine ⟨by rwa [Bool.not_eq_true] at hsame, ?_⟩
  obtain ⟨q, hq, h⟩ := bind_eq_ok h
  obtain ⟨rfl, hfs⟩ := of_canonical hq
  rw [hp] at h hfs
  split_ifs at h with hroot
  · have hinode : p.inode = w.rootInode p.mount.fs := by
      rw [World.rootInode, ← hfs, ← hroot]
    unfold parentAcross at h
    rcases hplace : p.mount.place with _ | ⟨parent, covered⟩
    · rw [hplace] at h
      cases h
    rw [hplace] at h
    obtain ⟨⟨⟩, hxdev, h⟩ := bind_eq_ok h
    replace h := ok_of_check h
    obtain ⟨below, hbelow, h⟩ := bind_eq_ok h
    obtain ⟨rfl, -⟩ := of_canonical hbelow
    refine .inl ⟨hinode, ensure_eq_ok.mp hxdev, parent, covered, rfl, ?_⟩
    split_ifs at h with hboundary
    · obtain ⟨rfl, -⟩ := Prod.mk.inj (some.inj (Except.ok.inj h))
      exact .inl ⟨rfl, rfl, hboundary⟩
    rw [ResolvedPath.same_iff] at hboundary
    exact .inr ⟨hboundary, of_parentWithin h⟩
  · exact .inr ⟨hroot, of_parentWithin h⟩

lemma canonical_of_parent (hp : v.Canonical p.mount)
    (hup : parent w v b visible noXdev p = .ok (some (up, name, attached))) :
    v.Canonical up.mount := by
  obtain ⟨-, ⟨-, -, parent, covered, -, ⟨hmount, -⟩ | ⟨-, hmount, -⟩⟩ | ⟨-, hmount, -⟩⟩ :=
    parent_cases hp hup
  · rw [hmount]
    exact v.canonical_current parent
  · rw [hmount]
    exact v.canonical_current parent
  · rw [hmount]
    exact hp

/-- The mounts on the way up from the mount `start`. -/
inductive OnWayUp (v : MountView) (start : Mount) : Mount → Prop where
  | start : OnWayUp v start start
  | up {m parent : Mount} {covered : Inode} (h : OnWayUp v start m)
      (hplace : m.place = some (parent, covered)) : OnWayUp v start (v.current parent)

lemma OnWayUp.climb (hp : v.Canonical p.mount) (h : OnWayUp v start p.mount)
    (hup : parent w v b visible noXdev p = .ok (some (up, name, attached))) :
    OnWayUp v start up.mount := by
  obtain ⟨-, ⟨-, -, parent, covered, hplace, ⟨hmount, -⟩ | ⟨-, hmount, -⟩⟩ | ⟨-, hmount, -⟩⟩ :=
    parent_cases hp hup
  · rw [hmount]
    exact h.up hplace
  · rw [hmount]
    exact h.up hplace
  · rw [hmount]
    exact h

/-- What is beneath a root has a mount with the ID of the root on its way up. -/
lemma exists_onWayUp_of_isBeneath {rounds : ℕ} (hp : v.Canonical p.mount)
    (hway : OnWayUp v start p.mount) (h : isBeneathFor w v b visible rounds p = .ok true) :
    ∃ m, OnWayUp v start m ∧ m.id = b.mount.id := by
  induction rounds generalizing p with
  | zero => cases h
  | succ rounds ih =>
    unfold isBeneathFor at h
    split_ifs at h with hsame
    · exact ⟨p.mount, hway, (ResolvedPath.same_iff.mp hsame).1⟩
    obtain ⟨found, hfound, h⟩ := bind_eq_ok h
    rcases found with _ | ⟨up, name, attached⟩
    · cases h
    dsimp only at h
    split_ifs at h
    exact ih (canonical_of_parent hp hfound) (hway.climb hp hfound) h

end Up

/-! ## Entering mounts -/

section Cross

variable {w : World} {v : MountView} {c : OperationContext} {noXdev : Bool}

/-- The mount that is entered at a path covers it. -/
lemma of_crossing {p : ResolvedPath} {m : Mount} (h : v.crossing p = some m) :
    m ∈ v.values ∧ m.point = some (p.mount.id, p.inode) := by
  have hpoint := find?_some h
  exact ⟨mem_of_find?_eq_some h, of_decide_eq_true hpoint⟩

/-- What entering one mount keeps, `cross_down` keeps. -/
lemma crossDown_invariant (P : ResolvedPath → Prop)
    (hstep : ∀ p m, P p → v.crossing p = some m → noXdev = false → P (m.root w v.epoch)) {rounds : ℕ}
    {p q : ResolvedPath} (hp : P p) (hq : crossDownFor w v c noXdev rounds p = .ok q) : P q := by
  induction rounds generalizing p with
  | zero => cases hq
  | succ rounds ih =>
    unfold crossDownFor at hq
    rcases hcross : v.crossing p with _ | m
    · rw [hcross] at hq
      cases hq
      exact hp
    rw [hcross] at hq
    obtain ⟨⟨⟩, hxdev, hq⟩ := bind_eq_ok hq
    replace hq := ok_of_check hq
    exact ih (hstep p m hp hcross (ensure_eq_ok.mp hxdev)) hq

end Cross

/-! ## Steps of the walk -/

section Walk

variable {a : WalkArgs} {current next : ResolvedPath}

/-- A `..` component goes nowhere or one step up. -/
lemma WalkArgs.dotDot_cases (h : a.dotDot current = .ok next) : next = current ∨ ∃ name attached,
      parent a.world a.view a.boundary false a.flags.noXdev current =
        .ok (some (next, name, attached)) := by
  unfold dotDot at h
  by_cases hsame : current.same a.boundary = true
  · rw [if_pos hsame] at h
    split_ifs at h
    exact .inl (Except.ok.inj h).symm
  rw [if_neg hsame] at h
  obtain ⟨found, hfound, h⟩ := bind_eq_ok h
  rcases found with _ | ⟨up, name, attached⟩
  · dsimp only at h
    split_ifs at h
    exact .inl (Except.ok.inj h).symm
  cases h
  exact .inr ⟨name, attached, hfound⟩

/-- A name leads to a child, and into the mounts on it. -/
lemma WalkArgs.of_lookupName {name : Name} {mayMiss : Bool}
    (h : a.lookupName current name mayMiss = .ok (some next)) :
    ∃ inode, a.world.lookup current.mount.fs current.inode name = .ok inode ∧
      crossDown a.world a.view a.context a.flags.noXdev ⟨current.mount, inode, a.view.epoch⟩ =
        .ok next := by
  unfold lookupName at h
  split at h
  · split_ifs at h
    cases h
  · cases h
  · rename_i inode hlookup
    replace h := ok_of_check h
    obtain ⟨found, hcross, h⟩ := bind_eq_ok h
    obtain rfl := some.inj (Except.ok.inj h)
    exact ⟨inode, hlookup, hcross⟩

/-- The text of a symlink starts where the link was found, or at the boundary. -/
lemma WalkArgs.linkStart_cases {target : List Char} {origin : ResolvedPath}
    (h : a.linkStart current next target = .ok origin) :
    origin = current ∨
      origin = a.boundary ∧ (a.flags.noXdev = true → next.mount.id = a.boundary.mount.id) := by
  unfold linkStart at h
  split_ifs at h
  · replace h := ok_of_check h
    obtain ⟨⟨⟩, hxdev, h⟩ := bind_eq_ok h
    rw [ensure_eq_ok, not_and, not_not] at hxdev
    exact .inr ⟨(Except.ok.inj h).symm, hxdev⟩
  · exact .inl (Except.ok.inj h).symm

/-! ## What a walk does -/

/-- The number of symlinks followed. -/
def follows (events : List WalkEvent) : ℕ :=
  events.countP fun e => match e with
    | .follow _ => true
    | .lookup _ _ => false

/-- The path of a resolution: the object found, or the directory in which a name is missing. -/
def Resolution.path : Resolution → ResolvedPath
  | .found p => p
  | .missing p _ => p

/-- What a walk may have done with `budget` symlinks followed at most: lookups in directories with
search permission, and no symlink followed under `RESOLVE_NO_SYMLINKS`. -/
structure WalkArgs.Passed (a : WalkArgs) (budget : ℕ) (events : List WalkEvent) : Prop where
  searched : ∀ d name, .lookup d name ∈ events → a.context.searches a.world d = .ok ()
  noLinks : a.flags.noSymlinks = true → ∀ link, .follow link ∉ events
  follows_le : follows events ≤ budget

/-- `P` holds of the directories that a walk goes on from, and `Q` of what a name leads to. -/
structure WalkArgs.Keeps (a : WalkArgs) (P Q : ResolvedPath → Prop) : Prop where
  dotDot : ∀ {p q}, P p → a.dotDot p = .ok q → P q
  lookupName : ∀ {p q name mayMiss}, ChildName name → P p →
    a.lookupName p name mayMiss = .ok (some q) → Q q
  linkStart : ∀ {p q target o}, P p → Q q → a.linkStart p q target = .ok o → P o
  advance : ∀ {q}, Q q → a.world.kind q.inode ≠ .symlink → P q

/-- What a walk may have done, and what it may return. -/
structure WalkArgs.Fine (a : WalkArgs) (P Q : ResolvedPath → Prop) (budget : ℕ)
    (events : List WalkEvent) (result : Except FsError Resolution) : Prop
    extends a.Passed budget events where
  inside : ∀ r, result = .ok r → P r.path ∨ a.flags.noSymlinks = false ∧ Q r.path

/-- What a component may do, by the way it ends. -/
inductive WalkArgs.ComponentOk (a : WalkArgs) (P Q : ResolvedPath → Prop) (budget : ℕ) :
    List WalkEvent × Step → Prop where
  | done {events : List WalkEvent} {result : Except FsError Resolution}
      (h : a.Fine P Q budget events result) : ComponentOk a P Q budget (events, .done result)
  | advance {events : List WalkEvent} {next : ResolvedPath} (h : a.Passed 0 events)
      (hnext : P next) : ComponentOk a P Q budget (events, .advance next)
  | expand {events : List WalkEvent} {next : ResolvedPath} {pending : List Name}
      (h : a.Passed 1 events) (hbudget : 0 < budget) (hnext : P next) :
      ComponentOk a P Q budget (events, .expand next pending)

variable {P Q : ResolvedPath → Prop} {budget : ℕ} {events : List WalkEvent}
  {result : Except FsError Resolution}

lemma WalkArgs.passed_nil (a : WalkArgs) (budget : ℕ) : a.Passed budget [] where
  searched := nofun
  noLinks _ _ := not_mem_nil
  follows_le := Nat.zero_le budget

lemma WalkArgs.Passed.append {more : ℕ} {events' : List WalkEvent} (h : a.Passed more events)
    (h' : a.Passed budget events') : a.Passed (more + budget) (events ++ events') where
  searched d name hmem :=
    (mem_append.mp hmem).elim (h.searched d name) (h'.searched d name)
  noLinks hlinks link hmem :=
    (mem_append.mp hmem).elim (h.noLinks hlinks link) (h'.noLinks hlinks link)
  follows_le := by
    unfold follows
    rw [countP_append]
    exact add_le_add h.follows_le h'.follows_le

lemma WalkArgs.passed_lookup {d : Inode} (hd : a.context.searches a.world d = .ok ())
    (name : Name) : a.Passed 0 [.lookup d name] where
  searched d' name' hmem := by
    obtain ⟨rfl, -⟩ := WalkEvent.lookup.inj (mem_singleton.mp hmem)
    exact hd
  noLinks _ link hmem := nomatch mem_singleton.mp hmem
  follows_le := le_rfl

lemma WalkArgs.passed_follow (hlinks : a.flags.noSymlinks = false) (link : Inode) :
    a.Passed 1 [.follow link] where
  searched _ _ hmem := nomatch mem_singleton.mp hmem
  noLinks htrue := nomatch hlinks.symm.trans htrue
  follows_le := le_rfl

lemma WalkArgs.Passed.mono (h : a.Passed budget events) {more : ℕ} (hle : budget ≤ more) :
    a.Passed more events := ⟨h.searched, h.noLinks, h.follows_le.trans hle⟩

lemma WalkArgs.Passed.error (h : a.Passed budget events) (e : FsError) :
    a.Fine P Q budget events (.error e) where
  toPassed := h
  inside _ hr := nomatch hr

lemma WalkArgs.Passed.ok (h : a.Passed budget events) {r : Resolution}
    (hr : P r.path ∨ a.flags.noSymlinks = false ∧ Q r.path) : a.Fine P Q budget events (.ok r) where
  toPassed := h
  inside r' hr' := by
    cases hr'
    exact hr

lemma WalkArgs.Fine.after {more : ℕ} {events' : List WalkEvent}
    (h : a.Fine P Q budget events' result) (hpassed : a.Passed more events) :
    a.Fine P Q (more + budget) (events ++ events') result :=
  ⟨hpassed.append h.toPassed, h.inside⟩

namespace WalkArgs.Keeps

variable (h : a.Keeps P Q)
include h

lemma expandLink (hcurrent : P current) (hnext : Q next) {later pending : List Name}
    {origin : ResolvedPath} (hexpand : a.expandLink current next later = .ok (origin, pending)) :
    P origin := by
  obtain ⟨stat, -, hexpand⟩ := bind_eq_ok hexpand
  replace hexpand := ok_of_check hexpand
  obtain ⟨target, -, hexpand⟩ := bind_eq_ok hexpand
  replace hexpand := ok_of_check hexpand
  obtain ⟨origin', horigin, hexpand⟩ := bind_eq_ok hexpand
  replace hexpand := ok_of_check hexpand
  obtain ⟨rfl, -⟩ := Prod.mk.inj (Except.ok.inj hexpand)
  exact h.linkStart hcurrent hnext horigin

/-- What `arrive` does, after the lookup that led to the path. -/
lemma arrive (hcurrent : P current) (hnext : Q next) (hevents : a.Passed 0 events) (budget : ℕ)
    (later : List Name) :
    a.ComponentOk P Q budget
      (events ++ (a.arrive budget current next later).1, (a.arrive budget current next later).2) := by
  have hpassed : a.Passed budget (events ++ []) := by
    rw [append_nil]
    exact hevents.mono (Nat.zero_le budget)
  unfold WalkArgs.arrive
  split_ifs with hlink hforbidden hreturn hreject hzero
  · exact .done (hpassed.error .symlinkLoop)
  · refine .done (hpassed.ok (.inr ⟨?_, hnext⟩))
    rw [Bool.not_eq_true, Bool.or_eq_false_iff] at hforbidden
    exact hforbidden.1
  · exact .done (hpassed.error .symlinkLoop)
  · exact .done (hpassed.error .symlinkLoop)
  · have hlinks : a.flags.noSymlinks = false := by
      rw [Bool.not_eq_true, Bool.or_eq_false_iff] at hforbidden
      exact hforbidden.1
    have hpos : 0 < budget := pos_of_ne_zero hzero
    have hfollow := hevents.append (passed_follow hlinks next.inode)
    rcases hexpand : a.expandLink current next later with e | ⟨origin, pending⟩
    · exact .done ((hfollow.mono hpos).error e)
    · exact .expand hfollow hpos (h.expandLink hcurrent hnext hexpand)
  · refine .advance ?_ (h.advance hnext hlink)
    rw [append_nil]
    exact hevents

lemma component (hcurrent : P current) (budget : ℕ) (name : Name) (later : List Name) :
    a.ComponentOk P Q budget (a.component budget current name later) := by
  have hempty := a.passed_nil budget
  unfold WalkArgs.component
  by_cases hdir : a.world.kind current.inode ≠ .dir
  · rw [if_pos hdir]
    exact .done (hempty.error .notDir)
  rw [if_neg hdir]
  rcases hsearch : a.context.searches a.world current.inode with e | ⟨⟨⟩⟩
  · exact .done (hempty.error e)
  split_ifs with hlong hdot hdots hhook
  · exact .done (hempty.error .nameTooLong)
  · exact .advance (a.passed_nil 0) hcurrent
  · rcases hup : a.dotDot current with e | up
    · exact .done (hempty.error e)
    · exact .advance (a.passed_nil 0) (h.dotDot hcurrent hup)
  · exact .done (hempty.error .permDenied)
  · have hlookup := passed_lookup hsearch name
    have hpassed := hlookup.mono (Nat.zero_le budget)
    rcases hnext : a.lookupName current name (a.allowMissing && later = []) with e | found
    · exact .done (hpassed.error e)
    rcases found with _ | next
    · exact .done (hpassed.ok (.inl hcurrent))
    · exact h.arrive hcurrent (h.lookupName ⟨hdot, hdots⟩ hcurrent hnext) hlookup budget later

/-- What the loop does up to the next symlink, if what comes after it is fine. -/
lemma walkParts {followed : ResolvedPath → List Name → Walk}
    (hfollowed : 0 < budget → ∀ next pending, P next →
      a.Fine P Q (budget - 1) (followed next pending).trace (followed next pending).result)
    (pending : List Name) (slash : Bool) (hcurrent : P current) :
    a.Fine P Q budget (a.walkParts budget followed pending slash current).trace
      (a.walkParts budget followed pending slash current).result := by
  induction pending generalizing slash current with
  | nil =>
    unfold walkParts
    split_ifs
    · exact (a.passed_nil budget).error .notDir
    · exact (a.passed_nil budget).ok (.inl hcurrent)
  | cons part later ih =>
    unfold walkParts
    by_cases hpart : part = []
    · rw [if_pos hpart]
      exact ih true hcurrent
    rw [if_neg hpart]
    generalize hout : a.component budget current part later = out
    have hok := h.component hcurrent budget part later
    rw [hout] at hok
    cases hok with
    | done hfine => exact hfine
    | advance hpassed hnext =>
      have hfine := (ih false hnext).after hpassed
      rw [zero_add] at hfine
      exact hfine
    | @expand events next pending hpassed hpos hnext =>
      have hfine := (hfollowed hpos next pending hnext).after hpassed
      rw [Nat.add_sub_cancel' hpos] at hfine
      exact hfine

/-- What a whole walk does; the induction is on the symlinks that may still be followed. -/
lemma walk (budget : ℕ) (pending : List Name) (hcurrent : P current) :
    a.Fine P Q budget (a.walk budget pending current).trace
      (a.walk budget pending current).result := by
  induction budget generalizing pending current with
  | zero => exact h.walkParts (fun hpos => absurd hpos (lt_irrefl 0)) pending false hcurrent
  | succ budget ih =>
    refine h.walkParts ?_ pending false hcurrent
    intro _ next pending hnext
    exact ih pending hnext

end WalkArgs.Keeps

/-- A walk only comes to mounts as the view has them. -/
lemma WalkArgs.keeps_canonical (hboundary : a.view.Canonical a.boundary.mount) :
    a.Keeps (fun p => a.view.Canonical p.mount) (fun p => a.view.Canonical p.mount) where
  dotDot hp hup := by
    obtain rfl | ⟨name, attached, hup⟩ := dotDot_cases hup
    · exact hp
    · exact canonical_of_parent hp hup
  lookupName _ hp hnext := by
    obtain ⟨inode, -, hcross⟩ := of_lookupName hnext
    refine crossDown_invariant (fun p => a.view.Canonical p.mount) ?_ ?_ hcross
    · exact fun p m _ hm _ => canonical_of_mem (of_crossing hm).1
    · exact hp
  linkStart hp _ hstart := by
    obtain rfl | ⟨rfl, -⟩ := linkStart_cases hstart
    · exact hp
    · exact hboundary
  advance hq _ := hq

end Walk

/-! ## The whole call -/

section Resolve

variable {w : World} {v : MountView} {c : OperationContext} {input : List Char}
  {flags : ResolveFlags}

/-- The boundary of a call: the current directory under `RESOLVE_BENEATH` or `RESOLVE_IN_ROOT`, else
the root of the process. -/
def ResolveFlags.boundary (flags : ResolveFlags) (root cwd : ResolvedPath) : ResolvedPath :=
  if flags.beneath || flags.inRoot then cwd else root

/-- Where the walk starts. -/
def walkStart (input : List Char) (boundary cwd : ResolvedPath) : ResolvedPath :=
  if input.head? = some '/' then boundary else cwd

/-- What the checks of `resolve` ensure. -/
lemma of_resolveStart {boundary initial : ResolvedPath}
    (h : resolveStart w v c input flags = .ok (boundary, initial)) :
    ∃ root cwd, v.handlePath w c.root = .ok root ∧ v.handlePath w c.cwd = .ok cwd ∧
      boundary = flags.boundary root cwd ∧ initial = walkStart input boundary cwd ∧
      (initial = boundary ∨ boundary = root ∧ isBeneath w v root false cwd = .ok true) := by
  replace h := ok_of_check h
  replace h := ok_of_check h
  replace h := ok_of_check h
  replace h := ok_of_check h
  obtain ⟨root, hroot, h⟩ := bind_eq_ok h
  obtain ⟨cwd, hcwd, h⟩ := bind_eq_ok h
  obtain ⟨inside, hinside, h⟩ := bind_eq_ok h
  obtain ⟨⟨⟩, htrue, h⟩ := bind_eq_ok h
  rw [ensure_eq_ok] at htrue
  obtain ⟨hboundary, hinitial⟩ := Prod.mk.inj (Except.ok.inj h)
  rw [hboundary] at hinitial
  refine ⟨root, cwd, hroot, hcwd, hboundary.symm, hinitial.symm, ?_⟩
  by_cases habsolute : input.head? = some '/'
  · rw [if_pos habsolute] at hinitial
    exact .inl hinitial.symm
  rw [if_neg habsolute] at hinitial
  by_cases hconfined : (flags.beneath || flags.inRoot) = true
  · rw [if_pos hconfined] at hboundary
    exact .inl (hinitial.symm.trans hboundary)
  rw [if_neg hconfined] at hboundary
  rw [decide_eq_true habsolute, Bool.true_or, cwdInside, if_pos rfl, htrue] at hinside
  exact .inr ⟨hboundary.symm, hinside⟩

/-- The result of a call is on a mount as the view has it. -/
lemma canonical_of_resolve {finalLink : FinalLink} {allowMissing : Bool} {r : Resolution}
    (h : (resolve w v c input flags finalLink allowMissing).result = .ok r) :
    v.Canonical r.path.mount := by
  unfold resolve at h
  rcases hstart : resolveStart w v c input flags with e | ⟨boundary, initial⟩
  · rw [hstart] at h
    cases h
  rw [hstart] at h
  obtain ⟨root, cwd, hroot, hcwd, hboundary, hinitial, -⟩ := of_resolveStart hstart
  have hroot := canonical_of_handlePath hroot
  have hcwd := canonical_of_handlePath hcwd
  have hboundary : v.Canonical boundary.mount := by
    rw [hboundary, ResolveFlags.boundary]
    split_ifs
    · exact hcwd
    · exact hroot
  have hinitial : v.Canonical initial.mount := by
    rw [hinitial, walkStart]
    split_ifs
    · exact hboundary
    · exact hcwd
  have hkeeps := keeps_canonical
    (a := ⟨w, v, c, flags, finalLink, allowMissing, boundary⟩) hboundary
  rcases (hkeeps.walk 40 (parts input) hinitial).inside r h with hr | ⟨-, hr⟩
  · exact hr
  · exact hr

end Resolve

end Nilix.Vfs
