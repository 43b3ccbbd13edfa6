import Nilix.Foundation.Climb
import Mathlib

/-!
# Trees of named entries

A directory tree as its entries show it: which node a directory names by which name, the record that
each directory keeps of its own place, and a count of links on every node.  `WellFormed` says what a
tree with one root is, and the four ways of changing one keep it so:

* `attachDir`, `attachLeaf`: a new node gets a name;
* `remove`: the node that a name stands for goes, with its name;
* `move`: a node gets another name, in a directory that does not lie below it.

Nodes `ι` and names `κ` are arbitrary.
-/

namespace Nilix

open Function Option

/-- A directory tree: its directories, those that were removed from it, its other nodes; what each
directory names; where each directory records itself to be; the link counts. -/
@[ext]
structure NamedTree (ι κ : Type*) where
  dirs : Set ι
  gone : Set ι
  leaves : Set ι
  entry : ι → κ → Option ι
  up : ι → Option (ι × κ)
  links : ι → ℕ

namespace NamedTree

variable {ι κ : Type*}

/-! ## Entries -/

section Entries

variable [DecidableEq ι] [DecidableEq κ]

/-- The entries after the name `k` of `p` is set to `v`. -/
def setEntry (entry : ι → κ → Option ι) (p : ι) (k : κ) (v : Option ι) : ι → κ → Option ι :=
  Function.update entry p (Function.update (entry p) k v)

variable {entry : ι → κ → Option ι} {p q : ι} {k l : κ} {v : Option ι}

lemma setEntry_apply (entry : ι → κ → Option ι) (p : ι) (k : κ) (v : Option ι) (q : ι) (l : κ) :
    setEntry entry p k v q l = if q = p ∧ l = k then v else entry q l := by
  unfold setEntry
  by_cases hq : q = p
  · subst hq
    by_cases hl : l = k
    · subst hl
      simp
    · simp [hl]
  · simp [hq]

@[simp] lemma setEntry_self : setEntry entry p k v p k = v := by simp [setEntry_apply]

lemma setEntry_of_ne (h : ¬(q = p ∧ l = k)) : setEntry entry p k v q l = entry q l := by
  rw [setEntry_apply, if_neg h]

/-- The two cases of an entry after a change. -/
lemma of_setEntry {c : ι} (h : setEntry entry p k v q l = some c) :
    (q = p ∧ l = k ∧ v = some c) ∨ (¬(q = p ∧ l = k) ∧ entry q l = some c) := by
  by_cases hat : q = p ∧ l = k
  · obtain ⟨rfl, rfl⟩ := hat
    exact .inl ⟨rfl, rfl, setEntry_self.symm.trans h⟩
  · exact .inr ⟨hat, (setEntry_of_ne hat).symm.trans h⟩

end Entries

/-- The names in `d` that stand for a directory. -/
def subdirs (dirs : Set ι) (entry : ι → κ → Option ι) (d : ι) : Set κ :=
  {k | ∃ c ∈ dirs, entry d k = some c}

/-- The names of `c`, with the directory each is in. -/
def names (entry : ι → κ → Option ι) (c : ι) : Set (ι × κ) := {e | entry e.1 e.2 = some c}

/-- The directory that a directory records as its parent. -/
def parent (t : NamedTree ι κ) (c : ι) : Option ι := (t.up c).map Prod.fst

/-! ## Well-formed trees -/

/-- A tree with one root. -/
structure WellFormed (t : NamedTree ι κ) (root : ι) : Prop where
  root_mem : root ∈ t.dirs
  root_up : t.up root = none
  dirs_gone : Disjoint t.dirs t.gone
  dirs_leaves : Disjoint t.dirs t.leaves
  gone_leaves : Disjoint t.gone t.leaves
  /-- Only directories of the tree have entries. -/
  source : ∀ p k c, t.entry p k = some c → p ∈ t.dirs
  /-- Entries stand for nodes of the tree. -/
  target : ∀ p k c, t.entry p k = some c → c ∈ t.dirs ∨ c ∈ t.leaves
  /-- A node has at most one name. -/
  unique : ∀ p k q l c, t.entry p k = some c → t.entry q l = some c → p = q ∧ k = l
  /-- A directory records the entry that names it. -/
  recorded : ∀ p k c, t.entry p k = some c → c ∈ t.dirs → t.up c = some (p, k)
  /-- Every directory but the root has the entry that it records. -/
  named : ∀ c ∈ t.dirs, c ≠ root → ∃ p k, t.up c = some (p, k) ∧ t.entry p k = some c
  climbs : ∀ c ∈ t.dirs, Climbs t.parent c root
  finite : ∀ p, {k | t.entry p k ≠ none}.Finite
  links_dir : ∀ c ∈ t.dirs, t.links c = 2 + (subdirs t.dirs t.entry c).ncard
  links_leaf : ∀ c ∈ t.leaves, t.links c = (names t.entry c).ncard

namespace WellFormed

variable {t : NamedTree ι κ} {root p c : ι} {k : κ}

section

variable (h : t.WellFormed root)
include h

/-- No entry stands for the root. -/
lemma ne_root (he : t.entry p k = some c) : c ≠ root := by
  rintro rfl
  have hup := h.recorded p k c he h.root_mem
  rw [h.root_up] at hup
  exact some_ne_none _ hup.symm

lemma parent_root : t.parent root = none := by
  rw [parent, h.root_up, map_none]

/-- The directory with the entry of a directory is its parent. -/
lemma parent_eq (he : t.entry p k = some c) (hc : c ∈ t.dirs) : t.parent c = some p := by
  rw [parent, h.recorded p k c he hc, map_some]

/-- The directory that names a directory does not lie below it. -/
lemma not_climbs (he : t.entry p k = some c) (hc : c ∈ t.dirs) : ¬Climbs t.parent p c :=
  (h.climbs c hc).not_back h.parent_root (h.parent_eq he hc)

/-- Above a directory of the tree there are only directories of the tree. -/
lemma mem_of_climbs {d x : ι} (hd : d ∈ t.dirs) (hx : Climbs t.parent d x) : x ∈ t.dirs := by
  induction hx with
  | refl => exact hd
  | @tail x y _ hstep ih =>
    by_cases hroot : x = root
    · rw [hroot, h.parent_root] at hstep
      exact absurd hstep (some_ne_none y).symm
    obtain ⟨p, k, hup, he⟩ := h.named x ih hroot
    rw [parent, hup, map_some] at hstep
    cases hstep
    exact h.source p k x he

/-- A directory that was removed names nothing. -/
lemma gone_empty (hc : c ∈ t.gone) (k : κ) : t.entry c k = none := by
  rcases he : t.entry c k with _ | d
  · rfl
  · exact absurd hc (Set.disjoint_left.mp h.dirs_gone (h.source c k d he))

/-- A node outside the tree has no name. -/
lemma unnamed (hd : c ∉ t.dirs) (hl : c ∉ t.leaves) (p : ι) (k : κ) : t.entry p k ≠ some c := by
  intro he
  rcases h.target p k c he with hc | hc
  · exact hd hc
  · exact hl hc

end

end WellFormed

/-! ## Counting -/

section Counting

variable [DecidableEq ι] [DecidableEq κ] {dirs : Set ι} {entry : ι → κ → Option ι}
  {p c d : ι} {k : κ} {v : Option ι}

omit [DecidableEq ι] [DecidableEq κ] in
lemma finite_subdirs (hfin : {k | entry d k ≠ none}.Finite) : (subdirs dirs entry d).Finite := by
  refine hfin.subset ?_
  rintro l ⟨c, -, hc⟩
  rw [Set.mem_ofPred_eq, hc]
  exact some_ne_none c

lemma finite_setEntry (hfin : ∀ d, {k | entry d k ≠ none}.Finite) (d : ι) :
    {l | setEntry entry p k v d l ≠ none}.Finite := by
  refine ((hfin d).insert k).subset fun l hl => ?_
  by_cases hlk : l = k
  · exact .inl hlk
  rw [Set.mem_ofPred_eq, setEntry_of_ne fun hat => hlk hat.2] at hl
  exact .inr hl

lemma subdirs_setEntry (hold : ∀ c ∈ dirs, entry p k ≠ some c) (hnew : ∀ c ∈ dirs, v ≠ some c)
    (d : ι) : subdirs dirs (setEntry entry p k v) d = subdirs dirs entry d := by
  ext l
  refine exists_congr fun c => and_congr_right fun hc => ?_
  by_cases hat : d = p ∧ l = k
  · obtain ⟨rfl, rfl⟩ := hat
    rw [setEntry_self]
    exact iff_of_false (hnew c hc) (hold c hc)
  · rw [setEntry_of_ne hat]

omit [DecidableEq ι] [DecidableEq κ] in
/-- Whether a node without name is a directory says nothing about the subdirectories. -/
lemma subdirs_of_unnamed {dirs' : Set ι} (hnone : ∀ q l, entry q l ≠ some c)
    (hsame : ∀ b ≠ c, b ∈ dirs' ↔ b ∈ dirs) : subdirs dirs' entry d = subdirs dirs entry d := by
  ext l
  refine exists_congr fun b => and_congr_left fun hb => hsame b ?_
  rintro rfl
  exact hnone d l hb

/-- Giving a directory a name. -/
lemma ncard_subdirs_set (hfin : ∀ d, {k | entry d k ≠ none}.Finite) (he : entry p k = none)
    (hc : c ∈ dirs) (d : ι) :
    (subdirs dirs (setEntry entry p k (some c)) d).ncard =
      (subdirs dirs entry d).ncard + (if d = p then 1 else 0) := by
  by_cases hd : d = p
  · subst hd
    have hinsert : subdirs dirs (setEntry entry d k (some c)) d = insert k (subdirs dirs entry d) := by
      ext l
      by_cases hl : l = k
      · subst hl
        simp [subdirs, hc]
      · simp [subdirs, setEntry_of_ne, hl]
    have hfresh : k ∉ subdirs dirs entry d := by
      rintro ⟨b, -, hb⟩
      exact some_ne_none b (hb.symm.trans he)
    rw [hinsert, if_pos rfl]
    exact Set.ncard_insert_of_notMem hfresh (finite_subdirs (hfin d))
  · rw [if_neg hd, add_zero]
    congr 1
    ext l
    simp [subdirs, setEntry_of_ne, hd]

/-- Taking away the name of a directory. -/
lemma ncard_subdirs_unset (hfin : ∀ d, {k | entry d k ≠ none}.Finite) (he : entry p k = some c)
    (hc : c ∈ dirs) (d : ι) :
    (subdirs dirs (setEntry entry p k none) d).ncard + (if d = p then 1 else 0) =
      (subdirs dirs entry d).ncard := by
  have hback : setEntry (setEntry entry p k none) p k (some c) = entry := by
    simp [setEntry, ← he]
  rw [← ncard_subdirs_set (finite_setEntry hfin) setEntry_self hc, hback]

/-- At most one name each, also after a node without names gets one. -/
lemma unique_set (hunique : ∀ p k q l c, entry p k = some c → entry q l = some c → p = q ∧ k = l)
    (hnone : ∀ q l, entry q l ≠ some c) (q : ι) (l : κ) (q' : ι) (l' : κ) (d : ι)
    (h : setEntry entry p k (some c) q l = some d) (h' : setEntry entry p k (some c) q' l' = some d) :
    q = q' ∧ l = l' := by
  rcases of_setEntry h with ⟨rfl, rfl, hd⟩ | ⟨-, hd⟩ <;>
    rcases of_setEntry h' with ⟨rfl, rfl, hd'⟩ | ⟨-, hd'⟩
  · exact ⟨rfl, rfl⟩
  · rw [← hd] at hd'
    exact absurd hd' (hnone q' l')
  · rw [← hd'] at hd
    exact absurd hd (hnone q l)
  · exact hunique q l q' l' d hd hd'

/-- Entries after a name was taken away are entries from before. -/
lemma of_unset {q : ι} {l : κ} (h : setEntry entry p k none q l = some d) :
    ¬(q = p ∧ l = k) ∧ entry q l = some d := by
  rcases of_setEntry h with ⟨-, -, hv⟩ | hold
  · exact absurd hv (some_ne_none d).symm
  · exact hold

lemma names_setEntry (hold : entry p k ≠ some c) (hnew : v ≠ some c) :
    names (setEntry entry p k v) c = names entry c := by
  ext ⟨q, l⟩
  change setEntry entry p k v q l = some c ↔ entry q l = some c
  by_cases hat : q = p ∧ l = k
  · obtain ⟨rfl, rfl⟩ := hat
    rw [setEntry_self]
    exact iff_of_false hnew hold
  · rw [setEntry_of_ne hat]

/-- A node without names gets one. -/
lemma names_set (hnone : ∀ q l, entry q l ≠ some c) :
    names (setEntry entry p k (some c)) c = {(p, k)} := by
  refine Set.eq_singleton_iff_unique_mem.mpr ⟨setEntry_self, ?_⟩
  rintro ⟨q, l⟩ hmem
  rcases of_setEntry hmem with ⟨rfl, rfl, -⟩ | ⟨-, hold⟩
  · rfl
  · exact absurd hold (hnone q l)

end Counting

/-! ## Changes -/

section Changes

variable [DecidableEq ι] [DecidableEq κ]

variable (t : NamedTree ι κ) (p : ι) (k : κ) (c : ι)

/-- A new directory `c` gets the name `k` in `p`. -/
def attachDir : NamedTree ι κ :=
  { t with
    dirs := insert c t.dirs
    entry := setEntry t.entry p k (some c)
    up := Function.update t.up c (some (p, k))
    links := Function.update (Function.update t.links c 2) p (t.links p + 1) }

/-- A new node `c` that is no directory gets the name `k` in `p`. -/
def attachLeaf : NamedTree ι κ :=
  { t with
    leaves := insert c t.leaves
    entry := setEntry t.entry p k (some c)
    links := Function.update t.links c 1 }

/-- The directory `c` that is named `k` in `p` is removed. -/
def removeDir : NamedTree ι κ :=
  { t with
    dirs := t.dirs \ {c}
    gone := insert c t.gone
    entry := setEntry t.entry p k none
    links := Function.update (Function.update t.links p (t.links p - 1)) c (t.links c - 1) }

/-- The node `c`, no directory, that is named `k` in `p` is removed. -/
def removeLeaf : NamedTree ι κ :=
  { t with
    entry := setEntry t.entry p k none
    links := Function.update t.links c (t.links c - 1) }

/-- The entries after `c` has changed its name from `k` in `p` to `l` in `q`. -/
def moveEntry (entry : ι → κ → Option ι) (p : ι) (k : κ) (q : ι) (l : κ) (c : ι) :
    ι → κ → Option ι :=
  setEntry (setEntry entry p k none) q l (some c)

/-- The directory `c` changes its name from `k` in `p` to `l` in `q`. -/
def moveDir (q : ι) (l : κ) (c : ι) : NamedTree ι κ :=
  { t with
    entry := moveEntry t.entry p k q l c
    up := Function.update t.up c (some (q, l))
    links := if p = q then t.links
      else Function.update (Function.update t.links p (t.links p - 1)) q (t.links q + 1) }

/-- The node `c`, no directory, changes its name from `k` in `p` to `l` in `q`. -/
def moveLeaf (q : ι) (l : κ) (c : ι) : NamedTree ι κ :=
  { t with entry := moveEntry t.entry p k q l c }

omit [DecidableEq κ] in
/-- Giving `c` a parent, as seen by the parent function. -/
lemma parent_update (up : ι → Option (ι × κ)) (c q : ι) (l : κ) :
    (fun d => (update up c (some (q, l)) d).map Prod.fst) =
      update (fun d => (up d).map Prod.fst) c (some q) := by
  funext d
  by_cases hd : d = c
  · rw [hd, update_self, update_self, map_some]
  · rw [update_of_ne hd, update_of_ne hd]

/-- A tree but for its node `c`, which has no name yet, or no longer has one. -/
structure Loose (t : NamedTree ι κ) (root c : ι) : Prop where
  ne_root : c ≠ root
  root_mem : root ∈ t.dirs
  root_up : t.up root = none
  dirs_gone : Disjoint t.dirs t.gone
  dirs_leaves : Disjoint t.dirs t.leaves
  gone_leaves : Disjoint t.gone t.leaves
  source : ∀ p k d, t.entry p k = some d → p ∈ t.dirs
  target : ∀ p k d, t.entry p k = some d → d ∈ t.dirs ∨ d ∈ t.leaves
  unique : ∀ p k q l d, t.entry p k = some d → t.entry q l = some d → p = q ∧ k = l
  recorded : ∀ p k d, t.entry p k = some d → d ∈ t.dirs → t.up d = some (p, k)
  unnamed : ∀ p k, t.entry p k ≠ some c
  named : ∀ d ∈ t.dirs, d ≠ root → d ≠ c → ∃ p k, t.up d = some (p, k) ∧ t.entry p k = some d
  climbs : ∀ d ∈ t.dirs, d ≠ c → Climbs t.parent d root
  finite : ∀ p, {k | t.entry p k ≠ none}.Finite
  links_dir : ∀ d ∈ t.dirs, t.links d = 2 + (subdirs t.dirs t.entry d).ncard
  links_leaf : ∀ d ∈ t.leaves, d ≠ c → t.links d = (names t.entry d).ncard

namespace Loose

variable {t : NamedTree ι κ} {root p c : ι} {k : κ} {up : ι → Option (ι × κ)} {links : ι → ℕ}

/-- The node gets a name. -/
lemma hang (h : t.Loose root c) (hc : c ∈ t.dirs ∨ c ∈ t.leaves) (hp : p ∈ t.dirs)
    (he : t.entry p k = none) (hup : ∀ d ≠ c, up d = t.up d)
    (hself : c ∈ t.dirs → up c = some (p, k))
    (hclimbs : ∀ d ∈ t.dirs, Climbs (fun d => (up d).map Prod.fst) d root)
    (hdir : ∀ d ∈ t.dirs, links d = 2 + (subdirs t.dirs (setEntry t.entry p k (some c)) d).ncard)
    (hleaf : ∀ d ∈ t.leaves, d ≠ c → links d = t.links d) (hone : c ∈ t.leaves → links c = 1) :
    { t with entry := setEntry t.entry p k (some c), up, links : NamedTree ι κ }.WellFormed root := by
  refine { h with
      root_up := (hup root h.ne_root.symm).trans h.root_up
      source := ?_, target := ?_
      unique := unique_set h.unique h.unnamed
      recorded := ?_, named := ?_
      climbs := hclimbs
      finite := finite_setEntry h.finite
      links_dir := hdir, links_leaf := ?_ }
  · intro q l d hq
    rcases of_setEntry hq with ⟨rfl, -, -⟩ | ⟨-, hold⟩
    · exact hp
    · exact h.source q l d hold
  · intro q l d hq
    rcases of_setEntry hq with ⟨-, -, hv⟩ | ⟨-, hold⟩
    · cases hv
      exact hc
    · exact h.target q l d hold
  · intro q l d hq hmem
    rcases of_setEntry hq with ⟨rfl, rfl, hv⟩ | ⟨-, hold⟩
    · cases hv
      exact hself hmem
    have hne : d ≠ c := fun heq => h.unnamed q l (heq ▸ hold)
    exact (hup d hne).trans (h.recorded q l d hold hmem)
  · intro d hmem hne
    by_cases hdc : d = c
    · rw [hdc] at hmem ⊢
      exact ⟨p, k, hself hmem, setEntry_self⟩
    obtain ⟨q, l, hold, hentry⟩ := h.named d hmem hne hdc
    refine ⟨q, l, (hup d hdc).trans hold, (setEntry_of_ne ?_).trans hentry⟩
    rintro ⟨rfl, rfl⟩
    exact some_ne_none d (hentry.symm.trans he)
  · intro d hmem
    change links d = (names (setEntry t.entry p k (some c)) d).ncard
    by_cases hdc : d = c
    · rw [hdc] at hmem ⊢
      rw [hone hmem, names_set h.unnamed, Set.ncard_singleton]
    rw [hleaf d hmem hdc, h.links_leaf d hmem hdc, names_setEntry]
    · rw [he]
      exact (some_ne_none d).symm
    · exact fun heq => hdc (some.inj heq).symm

/-- A directory gets a name in one that does not lie below it. -/
lemma hangDir (h : t.Loose root c) (hc : c ∈ t.dirs) (hp : p ∈ t.dirs) (he : t.entry p k = none)
    (hbelow : ¬Climbs t.parent p c)
    (hlinks : ∀ d, d ∈ t.dirs ∨ d ∈ t.leaves → links d = t.links d + if d = p then 1 else 0) :
    { t with
      entry := setEntry t.entry p k (some c)
      up := Function.update t.up c (some (p, k))
      links : NamedTree ι κ }.WellFormed root := by
  have hpc : p ≠ c := fun heq => hbelow (heq ▸ .refl p)
  have hclimb := h.climbs p hp hpc
  refine h.hang (.inl hc) hp he (fun d hd => update_of_ne hd _ _) (fun _ => update_self _ _ _)
    ?_ ?_ ?_ fun hleaf => absurd hleaf (Set.disjoint_left.mp h.dirs_leaves hc)
  · intro d hmem
    rw [parent_update]
    by_cases hdc : d = c
    · rw [hdc]
      exact .head (update_self _ _ _) (hclimb.update_of_not hbelow _)
    · exact (h.climbs d hmem hdc).reparent hclimb hbelow
  · intro d hmem
    rw [ncard_subdirs_set h.finite he hc, ← add_assoc, ← h.links_dir d hmem]
    exact hlinks d (.inl hmem)
  · intro d hmem _
    have hdp : d ≠ p := fun heq => Set.disjoint_left.mp h.dirs_leaves hp (heq ▸ hmem)
    rw [hlinks d (.inr hmem), if_neg hdp, add_zero]

/-- A node that is no directory gets a name. -/
lemma hangLeaf (h : t.Loose root c) (hc : c ∈ t.leaves) (hp : p ∈ t.dirs) (he : t.entry p k = none)
    (hone : t.links c = 1) : { t with entry := setEntry t.entry p k (some c) }.WellFormed root := by
  have hcd : c ∉ t.dirs := fun hmem => Set.disjoint_left.mp h.dirs_leaves hmem hc
  refine h.hang (.inr hc) hp he (fun _ _ => rfl) (fun hmem => absurd hmem hcd)
    (fun d hmem => h.climbs d hmem fun heq => hcd (heq ▸ hmem)) ?_ (fun _ _ _ => rfl) fun _ => hone
  intro d hmem
  rw [h.links_dir d hmem, subdirs_setEntry]
  · intro b _
    rw [he]
    exact (some_ne_none b).symm
  · exact fun b hb heq => hcd (some.inj heq ▸ hb)

omit [DecidableEq κ] in
/-- An empty directory without name leaves the tree. -/
lemma dropDir (h : t.Loose root c) (hc : c ∈ t.dirs) (hempty : ∀ l, t.entry c l = none) (n : ℕ) :
    { t with
      dirs := t.dirs \ {c}
      gone := insert c t.gone
      links := Function.update t.links c n : NamedTree ι κ }.WellFormed root where
  root_mem := ⟨h.root_mem, h.ne_root.symm⟩
  root_up := h.root_up
  dirs_gone := Set.disjoint_insert_right.mpr
    ⟨fun hmem => hmem.2 rfl, h.dirs_gone.mono_left Set.sdiff_subset⟩
  dirs_leaves := h.dirs_leaves.mono_left Set.sdiff_subset
  gone_leaves := Set.disjoint_insert_left.mpr ⟨Set.disjoint_left.mp h.dirs_leaves hc, h.gone_leaves⟩
  source q l d hq := by
    refine ⟨h.source q l d hq, ?_⟩
    rintro rfl
    exact some_ne_none d (hq.symm.trans (hempty l))
  target q l d hq := (h.target q l d hq).imp_left fun hmem =>
    ⟨hmem, fun heq => h.unnamed q l (heq ▸ hq)⟩
  unique := h.unique
  recorded q l d hq hmem := h.recorded q l d hq hmem.1
  named d hmem hne := h.named d hmem.1 hne hmem.2
  climbs d hmem := h.climbs d hmem.1 hmem.2
  finite := h.finite
  links_dir d hmem := by
    change update t.links c n d = 2 + (subdirs (t.dirs \ {c}) t.entry d).ncard
    have hsame : subdirs (t.dirs \ {c}) t.entry d = subdirs t.dirs t.entry d :=
      subdirs_of_unnamed h.unnamed fun b hb => and_iff_left hb
    rw [update_of_ne hmem.2, h.links_dir d hmem.1, hsame]
  links_leaf d hmem := by
    have hdc : d ≠ c := fun heq => Set.disjoint_left.mp h.dirs_leaves hc (heq ▸ hmem)
    exact (update_of_ne hdc _ _).trans (h.links_leaf d hmem hdc)

omit [DecidableEq κ] in
/-- A node without name that is no directory stays behind with no links. -/
lemma dropLeaf (h : t.Loose root c) (hc : c ∈ t.leaves) :
    { t with links := Function.update t.links c 0 }.WellFormed root := by
  have hcd : ∀ d ∈ t.dirs, d ≠ c := fun d hmem heq =>
    Set.disjoint_left.mp h.dirs_leaves hmem (heq ▸ hc)
  refine { h with
      named := fun d hmem hne => h.named d hmem hne (hcd d hmem)
      climbs := fun d hmem => h.climbs d hmem (hcd d hmem)
      links_dir := fun d hmem => (update_of_ne (hcd d hmem) _ _).trans (h.links_dir d hmem)
      links_leaf := fun d hmem => ?_ }
  change update t.links c 0 d = (names t.entry d).ncard
  by_cases hdc : d = c
  · have hnone : names t.entry c = ∅ := Set.eq_empty_of_forall_notMem fun e => h.unnamed e.1 e.2
    rw [hdc, update_self, hnone, Set.ncard_empty]
  · rw [update_of_ne hdc, h.links_leaf d hmem hdc]

end Loose

namespace WellFormed

variable {t : NamedTree ι κ} {root p q c : ι} {k l : κ} {links : ι → ℕ}

section

variable (h : t.WellFormed root)
include h

omit [DecidableEq κ] in
/-- A new directory, before it has a name. -/
lemma newDir (hd : c ∉ t.dirs) (hg : c ∉ t.gone) (hl : c ∉ t.leaves) : { t with
      dirs := insert c t.dirs
      links := Function.update t.links c 2 : NamedTree ι κ }.Loose root c := by
  have hunnamed := h.unnamed hd hl
  have hsame : ∀ d, subdirs (insert c t.dirs) t.entry d = subdirs t.dirs t.entry d := fun d =>
    subdirs_of_unnamed hunnamed fun b hb => or_iff_right hb
  refine
    { ne_root := fun heq => hd (heq ▸ h.root_mem)
      root_mem := .inr h.root_mem
      root_up := h.root_up
      dirs_gone := Set.disjoint_insert_left.mpr ⟨hg, h.dirs_gone⟩
      dirs_leaves := Set.disjoint_insert_left.mpr ⟨hl, h.dirs_leaves⟩
      gone_leaves := h.gone_leaves
      source := fun q l d hq => .inr (h.source q l d hq)
      target := fun q l d hq => (h.target q l d hq).imp_left .inr
      unique := h.unique
      recorded := fun q l d hq hmem => h.recorded q l d hq
        (hmem.resolve_left fun heq => hunnamed q l (heq ▸ hq))
      unnamed := hunnamed
      named := fun d hmem hne hdc => h.named d (hmem.resolve_left hdc) hne
      climbs := fun d hmem hdc => h.climbs d (hmem.resolve_left hdc)
      finite := h.finite
      links_dir := fun d hmem => ?_
      links_leaf := fun d hmem hdc => (update_of_ne hdc _ _).trans (h.links_leaf d hmem) }
  change update t.links c 2 d = 2 + (subdirs (insert c t.dirs) t.entry d).ncard
  rw [hsame]
  rcases hmem with rfl | hmem
  · have hnone : subdirs t.dirs t.entry d = ∅ :=
      Set.eq_empty_of_forall_notMem fun l ⟨b, _, hb⟩ => hd (h.source d l b hb)
    rw [update_self, hnone, Set.ncard_empty]
  · rw [update_of_ne (ne_of_mem_of_not_mem hmem hd), h.links_dir d hmem]

omit [DecidableEq κ] in
/-- A new node that is no directory, before it has a name. -/
lemma newLeaf (hd : c ∉ t.dirs) (hg : c ∉ t.gone) (hl : c ∉ t.leaves) : { t with
      leaves := insert c t.leaves
      links := Function.update t.links c 1 : NamedTree ι κ }.Loose root c :=
  { h with
    ne_root := fun heq => hd (heq ▸ h.root_mem)
    dirs_leaves := Set.disjoint_insert_right.mpr ⟨hd, h.dirs_leaves⟩
    gone_leaves := Set.disjoint_insert_right.mpr ⟨hg, h.gone_leaves⟩
    target := fun q l d hq => (h.target q l d hq).imp_right .inr
    unnamed := h.unnamed hd hl
    named := fun d hmem hne _ => h.named d hmem hne
    climbs := fun d hmem _ => h.climbs d hmem
    links_dir := fun d hmem =>
      (update_of_ne (ne_of_mem_of_not_mem hmem hd) _ _).trans (h.links_dir d hmem)
    links_leaf := fun d hmem hdc =>
      (update_of_ne hdc _ _).trans (h.links_leaf d (hmem.resolve_left hdc)) }

/-- The name of a node is taken away. -/
lemma unhang (he : t.entry p k = some c)
    (hdir : ∀ d ∈ t.dirs, links d = 2 + (subdirs t.dirs (setEntry t.entry p k none) d).ncard)
    (hleaf : ∀ d ∈ t.leaves, links d = t.links d) :
    { t with entry := setEntry t.entry p k none, links : NamedTree ι κ }.Loose root c := by
  refine { h with
      ne_root := h.ne_root he
      source := fun q l d hq => h.source q l d (of_unset hq).2
      target := fun q l d hq => h.target q l d (of_unset hq).2
      unique := fun q l q' l' d hq hq' => h.unique q l q' l' d (of_unset hq).2 (of_unset hq').2
      recorded := fun q l d hq => h.recorded q l d (of_unset hq).2
      unnamed := ?_, named := ?_
      climbs := fun d hmem _ => h.climbs d hmem
      finite := finite_setEntry h.finite
      links_dir := hdir, links_leaf := ?_ }
  · intro q l hq
    obtain ⟨hne, hold⟩ := of_unset hq
    exact hne (h.unique q l p k c hold he)
  · intro d hmem hne hdc
    obtain ⟨q, l, hup, hold⟩ := h.named d hmem hne
    refine ⟨q, l, hup, (setEntry_of_ne ?_).trans hold⟩
    rintro ⟨rfl, rfl⟩
    exact hdc (some.inj (hold.symm.trans he))
  · intro d hmem hdc
    change links d = (names (setEntry t.entry p k none) d).ncard
    rw [hleaf d hmem, h.links_leaf d hmem, names_setEntry]
    · rw [he]
      exact fun heq => hdc (some.inj heq).symm
    · exact (some_ne_none d).symm

/-- The name of a directory is taken away. -/
lemma unhangDir (he : t.entry p k = some c) (hc : c ∈ t.dirs) : { t with
      entry := setEntry t.entry p k none
      links := Function.update t.links p (t.links p - 1) : NamedTree ι κ }.Loose root c := by
  refine h.unhang he (fun d hmem => ?_) fun d hmem => ?_
  · have hlinks := h.links_dir d hmem
    have hcount := ncard_subdirs_unset h.finite he hc d
    by_cases hdp : d = p
    · rw [if_pos hdp] at hcount
      rw [hdp] at hlinks hcount ⊢
      rw [update_self]
      omega
    rw [if_neg hdp] at hcount
    rw [update_of_ne hdp]
    omega
  · refine update_of_ne ?_ _ _
    rintro rfl
    exact Set.disjoint_left.mp h.dirs_leaves (h.source d k c he) hmem

/-- The name of a node that is no directory is taken away. -/
lemma unhangLeaf (he : t.entry p k = some c) (hc : c ∈ t.leaves) :
    { t with entry := setEntry t.entry p k none }.Loose root c := by
  refine h.unhang he (fun d hmem => ?_) fun _ _ => rfl
  rw [h.links_dir d hmem, subdirs_setEntry]
  · intro b hb heq
    cases he.symm.trans heq
    exact Set.disjoint_left.mp h.dirs_leaves hb hc
  · exact fun b _ => (some_ne_none b).symm

omit [DecidableEq ι] [DecidableEq κ] in
/-- A node with a name that is no directory has one link. -/
lemma links_eq_one (he : t.entry p k = some c) (hc : c ∈ t.leaves) : t.links c = 1 := by
  have hone : names t.entry c = {(p, k)} := by
    refine Set.eq_singleton_iff_unique_mem.mpr ⟨he, fun e hmem => ?_⟩
    have hat := h.unique e.1 e.2 p k c hmem he
    exact Prod.ext hat.1 hat.2
  rw [h.links_leaf c hc, hone, Set.ncard_singleton]

lemma attachDir (hp : p ∈ t.dirs) (he : t.entry p k = none)
    (hd : c ∉ t.dirs) (hg : c ∉ t.gone) (hl : c ∉ t.leaves) : (t.attachDir p k c).WellFormed root := by
  have hpc : p ≠ c := fun heq => hd (heq ▸ hp)
  refine (h.newDir hd hg hl).hangDir (.inl rfl) (.inr hp) he
    (fun hclimb => hd (h.mem_of_climbs hp hclimb)) fun d _ => ?_
  change _ = update t.links c 2 d + _
  by_cases hdp : d = p
  · rw [hdp, update_self, if_pos rfl, update_of_ne hpc]
  · rw [update_of_ne hdp, if_neg hdp, add_zero]

lemma attachLeaf (hp : p ∈ t.dirs) (he : t.entry p k = none)
    (hd : c ∉ t.dirs) (hg : c ∉ t.gone) (hl : c ∉ t.leaves) :
    (t.attachLeaf p k c).WellFormed root :=
  (h.newLeaf hd hg hl).hangLeaf (.inl rfl) hp he (update_self _ _ _)

lemma removeDir (he : t.entry p k = some c) (hc : c ∈ t.dirs)
    (hempty : ∀ l, t.entry c l = none) : (t.removeDir p k c).WellFormed root := by
  have hpc : p ≠ c := by
    rintro rfl
    exact some_ne_none p ((hempty k).symm.trans he).symm
  refine (h.unhangDir he hc).dropDir hc (fun l => ?_) _
  exact (setEntry_of_ne fun hat => hpc hat.1.symm).trans (hempty l)

/-- Removing a node that is no directory keeps the tree well formed. -/
lemma removeLeaf (he : t.entry p k = some c) (hc : c ∈ t.leaves) :
    (t.removeLeaf p k c).WellFormed root := by
  have hdrop := (h.unhangLeaf he hc).dropLeaf hc
  unfold NamedTree.removeLeaf
  rwa [h.links_eq_one he hc]

end

/-- The free name stays free when the old name is taken away. -/
lemma free_unset (hfree : t.entry q l = none) : setEntry t.entry p k none q l = none := by
  rw [setEntry_apply]
  split_ifs
  · rfl
  · exact hfree

lemma moveLeaf (h : t.WellFormed root) (he : t.entry p k = some c) (hc : c ∈ t.leaves)
    (hq : q ∈ t.dirs) (hfree : t.entry q l = none) : (t.moveLeaf p k q l c).WellFormed root :=
  (h.unhangLeaf he hc).hangLeaf hc hq (free_unset hfree) (h.links_eq_one he hc)

/-- Moving a directory to one that does not lie below it keeps the tree well formed. -/
lemma moveDir (h : t.WellFormed root) (he : t.entry p k = some c) (hc : c ∈ t.dirs)
    (hq : q ∈ t.dirs) (hfree : t.entry q l = none) (hbelow : ¬Climbs t.parent q c) :
    (t.moveDir p k q l c).WellFormed root := by
  have hp : 2 ≤ t.links p := by
    rw [h.links_dir p (h.source p k c he)]
    exact Nat.le_add_right 2 _
  refine (h.unhangDir he hc).hangDir hc hq (free_unset hfree) hbelow fun d _ => ?_
  change (if p = q then t.links
    else update (update t.links p (t.links p - 1)) q (t.links q + 1)) d =
      update t.links p (t.links p - 1) d + if d = q then 1 else 0
  by_cases hpq : p = q
  · subst hpq
    rw [if_pos rfl]
    by_cases hdq : d = p
    · rw [hdq, update_self, if_pos rfl]
      omega
    · rw [update_of_ne hdq, if_neg hdq, add_zero]
  rw [if_neg hpq]
  by_cases hdq : d = q
  · rw [hdq, update_self, if_pos rfl, update_of_ne (Ne.symm hpq)]
  · rw [update_of_ne hdq, if_neg hdq, add_zero]

end WellFormed

end Changes

/-! ## Below a node -/

/-- The node at the end of a path of names. -/
def walk (entry : ι → κ → Option ι) : ι → List κ → Option ι
  | d, [] => some d
  | d, k :: path => (entry d k).bind fun c => walk entry c path

/-- Going down from `a` along entries comes to `b`. -/
def Reaches (entry : ι → κ → Option ι) (a b : ι) : Prop :=
  Relation.ReflTransGen (fun x y => ∃ k, entry x k = some y) a b

/-- Entries that agree below a node give the same paths from it. -/
lemma walk_congr {entry entry' : ι → κ → Option ι} {c : ι}
    (h : ∀ d, Reaches entry c d → entry' d = entry d) (path : List κ) :
    walk entry' c path = walk entry c path := by
  induction path generalizing c with
  | nil => rfl
  | cons k path ih =>
    rw [walk, walk, h c Relation.ReflTransGen.refl]
    rcases hd : entry c k with _ | d
    · rfl
    · exact ih fun b hb => h b (Relation.ReflTransGen.head ⟨k, hd⟩ hb)

variable {t : NamedTree ι κ} {root p q c d : ι} {k : κ}

/-- A directory below a node climbs to it. -/
lemma WellFormed.climbs_of_reaches (h : t.WellFormed root) (hcd : Reaches t.entry c d)
    (hd : d ∈ t.dirs) : Climbs t.parent d c := by
  induction hcd with
  | refl => exact .refl c
  | tail _ hstep ih =>
    obtain ⟨k, hk⟩ := hstep
    exact .head (h.parent_eq hk hd) (ih (h.source _ k _ hk))

/-- A directory that climbs to a node is below it. -/
lemma WellFormed.reaches_of_climbs (h : t.WellFormed root) (hc : c ∈ t.dirs)
    (hclimb : Climbs t.parent c d) : Reaches t.entry d c := by
  induction hclimb using Relation.ReflTransGen.head_induction_on with
  | refl => exact .refl
  | @head x y hstep _ ih =>
    have hne : x ≠ root := by
      rintro rfl
      rw [h.parent_root] at hstep
      exact some_ne_none y hstep.symm
    obtain ⟨p, k, hup, he⟩ := h.named x hc hne
    rw [parent, hup, map_some] at hstep
    cases hstep
    exact .tail (ih (h.source p k x he)) ⟨k, he⟩

end NamedTree

end Nilix
