import Mathlib.Algebra.BigOperators.Group.List.Basic
import Mathlib.Data.List.Perm.Basic
import Mathlib.Tactic

/-!
# Association lists in key order

A finite map kept as a list of entries with strictly increasing keys.  Reading is specified by
`get?`, and each update by how it changes `get?` and by the entries it leaves up to permutation, so
that sums and counts over the entries follow.
-/

namespace Nilix

open List

/-- A finite map as a list of entries with strictly increasing keys. -/
structure SortedAssoc (K V : Type*) [LinearOrder K] where
  entries : List (K × V)
  /-- Keys increase strictly. -/
  sorted : entries.Pairwise fun a b => a.1 < b.1

namespace SortedAssoc

variable {K V : Type*} [LinearOrder K]

/-- The map without entries. -/
def empty : SortedAssoc K V := ⟨[], List.Pairwise.nil⟩

variable (m : SortedAssoc K V)

/-- The value of a key. -/
def get? (k : K) : Option V :=
  (m.entries.find? fun e => e.1 = k).map Prod.snd

/-- Remove a key. -/
def erase (k : K) : SortedAssoc K V :=
  ⟨m.entries.filter fun e => e.1 ≠ k, m.sorted.filter _⟩

/-- Put a key at its place. -/
def insert (k : K) (v : V) : SortedAssoc K V where
  entries := (m.entries.filter fun e => e.1 < k) ++ (k, v) :: m.entries.filter fun e => k < e.1
  sorted := by
    refine pairwise_append.mpr ⟨m.sorted.filter _, pairwise_cons.mpr ⟨?_, ?_⟩, ?_⟩
    · intro e he
      exact of_decide_eq_true (mem_filter.mp he).2
    · exact m.sorted.filter _
    · intro e he e' he'
      have hlt : e.1 < k := of_decide_eq_true (mem_filter.mp he).2
      rcases mem_cons.mp he' with rfl | he'
      · exact hlt
      have hgt : k < e'.1 := of_decide_eq_true (mem_filter.mp he').2
      exact hlt.trans hgt

/-- Change the value of a key. -/
def adjust (k : K) (f : V → V) : SortedAssoc K V where
  entries := m.entries.map fun e => if e.1 = k then (e.1, f e.2) else e
  sorted := by
    refine List.Pairwise.map _ (fun a b hab => ?_) m.sorted
    split_ifs <;> exact hab

variable {m : SortedAssoc K V} {k : K} {v : V}

/-! ## Reading -/

lemma nodup_keys (m : SortedAssoc K V) : (m.entries.map Prod.fst).Nodup :=
  pairwise_map.mpr (m.sorted.imp ne_of_lt)

lemma nodup_entries (m : SortedAssoc K V) : m.entries.Nodup := m.nodup_keys.of_map _

variable {e : K × V}

lemma find?_eq_some : (m.entries.find? fun e => e.1 = k) = some e ↔ e ∈ m.entries ∧ e.1 = k := by
  constructor
  · intro he
    exact ⟨mem_of_find?_eq_some he, by simpa using find?_some he⟩
  rintro ⟨hmem, hkey⟩
  obtain ⟨e', he'⟩ : ∃ e', (m.entries.find? fun e => e.1 = k) = some e' := by
    refine Option.isSome_iff_exists.mp (find?_isSome.mpr ⟨e, hmem, ?_⟩)
    exact decide_eq_true hkey
  have hkey' : e'.1 = k := by simpa using find?_some he'
  rw [he', inj_on_of_nodup_map m.nodup_keys (mem_of_find?_eq_some he') hmem
    (hkey'.trans hkey.symm)]

lemma mem_entries : (k, v) ∈ m.entries ↔ m.get? k = some v := by
  unfold get?
  simp only [Option.map_eq_some_iff, find?_eq_some]
  constructor
  · intro hmem
    exact ⟨(k, v), ⟨hmem, rfl⟩, rfl⟩
  rintro ⟨⟨k', v'⟩, ⟨hmem, rfl⟩, rfl⟩
  exact hmem

lemma not_mem_of_get?_eq_none (h : m.get? k = none) (v : V) : (k, v) ∉ m.entries := by
  rw [mem_entries, h]
  exact nofun

variable {k' : K}

lemma get?_congr {m' : SortedAssoc K V} (h : ∀ v, (k, v) ∈ m.entries ↔ (k', v) ∈ m'.entries) :
    m.get? k = m'.get? k' := by
  refine Option.ext fun v => ?_
  rw [← mem_entries, ← mem_entries]
  exact h v

@[simp] lemma get?_empty (k : K) : (empty : SortedAssoc K V).get? k = none := rfl

lemma mem_erase : e ∈ (m.erase k).entries ↔ e ∈ m.entries ∧ e.1 ≠ k := by
  simp [erase]

lemma mem_insert : e ∈ (m.insert k v).entries ↔ e = (k, v) ∨ e ∈ m.entries ∧ e.1 ≠ k := by
  simp only [insert, mem_append, mem_cons, mem_filter, decide_eq_true_eq]
  constructor
  · rintro (⟨he, hlt⟩ | rfl | ⟨he, hlt⟩)
    · exact .inr ⟨he, hlt.ne⟩
    · exact .inl rfl
    · exact .inr ⟨he, hlt.ne'⟩
  rintro (rfl | ⟨he, hne⟩)
  · exact .inr (.inl rfl)
  rcases lt_or_gt_of_ne hne with hlt | hgt
  · exact .inl ⟨he, hlt⟩
  · exact .inr (.inr ⟨he, hgt⟩)

lemma get?_erase_self (m : SortedAssoc K V) (k : K) : (m.erase k).get? k = none := by
  rw [Option.eq_none_iff_forall_ne_some]
  intro v hv
  exact (mem_erase.mp (mem_entries.mpr hv)).2 rfl

lemma get?_erase_of_ne (h : k' ≠ k) : (m.erase k).get? k' = m.get? k' :=
  get?_congr fun _ => mem_erase.trans (and_iff_left h)

lemma get?_insert_self (m : SortedAssoc K V) (k : K) (v : V) : (m.insert k v).get? k = some v :=
  mem_entries.mp (mem_insert.mpr (.inl rfl))

lemma get?_insert_of_ne (h : k' ≠ k) : (m.insert k v).get? k' = m.get? k' := by
  refine get?_congr fun v' => mem_insert.trans ?_
  rw [Prod.mk.injEq, and_iff_left h]
  exact ⟨fun hor => hor.resolve_left fun hand => h hand.1, .inr⟩

/-- Maps that read the same are the same. -/
lemma ext_get? {m' : SortedAssoc K V} (h : ∀ k, m.get? k = m'.get? k) : m = m' := by
  have hperm : m.entries.Perm m'.entries := by
    refine (perm_ext_iff_of_nodup m.nodup_entries m'.nodup_entries).mpr fun e => ?_
    rw [← Prod.eta e, mem_entries, mem_entries, h]
  obtain ⟨entries, sorted⟩ := m
  obtain ⟨entries', sorted'⟩ := m'
  have heq : entries = entries' :=
    hperm.eq_of_pairwise (fun a b _ _ hab hba => absurd hba hab.not_gt) sorted sorted'
  subst heq
  rfl

/-- Removing a key that was just inserted. -/
lemma erase_insert (h : m.get? k = none) (v : V) : (m.insert k v).erase k = m := by
  refine ext_get? fun k' => ?_
  by_cases hk : k' = k
  · rw [hk, get?_erase_self, h]
  · rw [get?_erase_of_ne hk, get?_insert_of_ne hk]

lemma mem_adjust {f : V → V} : e ∈ (m.adjust k f).entries ↔
      (∃ v, (k, v) ∈ m.entries ∧ e = (k, f v)) ∨ e ∈ m.entries ∧ e.1 ≠ k := by
  unfold adjust
  rw [mem_map]
  constructor
  · rintro ⟨⟨k', v'⟩, he, rfl⟩
    by_cases hk : k' = k
    · subst hk
      exact .inl ⟨v', he, by rw [if_pos rfl]⟩
    rw [if_neg hk]
    exact .inr ⟨he, hk⟩
  rintro (⟨v', he, rfl⟩ | ⟨he, hne⟩)
  · exact ⟨(k, v'), he, if_pos rfl⟩
  · exact ⟨e, he, if_neg hne⟩

lemma get?_adjust_self (m : SortedAssoc K V) (k : K) (f : V → V) :
    (m.adjust k f).get? k = (m.get? k).map f := by
  refine Option.ext fun v => ?_
  rw [← mem_entries, mem_adjust, Option.map_eq_some_iff]
  constructor
  · rintro (⟨v', hv', heq⟩ | ⟨-, hne⟩)
    · exact ⟨v', mem_entries.mp hv', (Prod.mk.inj heq).2.symm⟩
    · exact absurd rfl hne
  rintro ⟨v', hv', rfl⟩
  exact .inl ⟨v', mem_entries.mpr hv', rfl⟩

lemma get?_adjust_of_ne {f : V → V} (h : k' ≠ k) : (m.adjust k f).get? k' = m.get? k' := by
  refine get?_congr fun v' => mem_adjust.trans ?_
  rw [and_iff_left h]
  exact ⟨fun hor => hor.resolve_left fun ⟨_, _, heq⟩ => h (Prod.mk.inj heq).1, .inr⟩

/-! ## Entries after an update -/

/-- A present key can be taken out. -/
lemma perm_erase (h : m.get? k = some v) : m.entries.Perm ((k, v) :: (m.erase k).entries) := by
  have hmem := mem_entries.mpr h
  refine (perm_ext_iff_of_nodup m.nodup_entries (nodup_cons.mpr
    ⟨fun he => (mem_erase.mp he).2 rfl, nodup_entries _⟩)).mpr fun e => ?_
  rw [mem_cons, mem_erase]
  constructor
  · intro he
    by_cases hk : e.1 = k
    · exact .inl (inj_on_of_nodup_map m.nodup_keys he hmem hk)
    · exact .inr ⟨he, hk⟩
  rintro (rfl | ⟨he, -⟩)
  · exact hmem
  · exact he

/-- An absent key is added. -/
lemma perm_insert (h : m.get? k = none) (v : V) :
    (m.insert k v).entries.Perm ((k, v) :: m.entries) := by
  refine (perm_ext_iff_of_nodup (nodup_entries _) (nodup_cons.mpr
    ⟨not_mem_of_get?_eq_none h v, m.nodup_entries⟩)).mpr fun e => ?_
  rw [mem_cons, mem_insert]
  constructor
  · exact Or.imp_right And.left
  refine Or.imp_right fun he => ⟨he, fun hk => ?_⟩
  exact not_mem_of_get?_eq_none h e.2 (hk ▸ he)

lemma length_erase (h : m.get? k = some v) : (m.erase k).entries.length + 1 = m.entries.length :=
  (perm_erase h).length_eq.symm

lemma length_insert (h : m.get? k = none) (v : V) :
    (m.insert k v).entries.length = m.entries.length + 1 :=
  (perm_insert h v).length_eq

@[simp] lemma length_adjust (m : SortedAssoc K V) (k : K) (f : V → V) :
    (m.adjust k f).entries.length = m.entries.length := length_map _

lemma mem_keys : k ∈ m.entries.map Prod.fst ↔ m.get? k ≠ none := by
  rw [mem_map]
  constructor
  · rintro ⟨⟨k', v⟩, hmem, rfl⟩
    rw [mem_entries.mp hmem]
    exact Option.some_ne_none v
  intro hget
  obtain ⟨v, hv⟩ := Option.ne_none_iff_exists'.mp hget
  exact ⟨(k, v), mem_entries.mpr hv, rfl⟩

/-- A map whose keys are keys of another one, and which has not fewer entries, has all its keys. -/
lemma get?_ne_none_of_length_le {V' : Type*} {m' : SortedAssoc K V'}
    (hsub : ∀ k, m'.get? k ≠ none → m.get? k ≠ none)
    (hlen : m.entries.length ≤ m'.entries.length) (hk : m.get? k ≠ none) : m'.get? k ≠ none := by
  have hkeys : m'.entries.map Prod.fst ⊆ m.entries.map Prod.fst :=
    fun k hk => mem_keys.mpr (hsub k (mem_keys.mp hk))
  have hperm : (m'.entries.map Prod.fst).Perm (m.entries.map Prod.fst) := by
    refine (m'.nodup_keys.subperm hkeys).perm_of_length_le ?_
    rw [length_map, length_map]
    exact hlen
  exact mem_keys.mp (hperm.mem_iff.mpr (mem_keys.mpr hk))

lemma length_erase_le (m : SortedAssoc K V) (k : K) :
    (m.erase k).entries.length ≤ m.entries.length := length_filter_le _ _

/-! ## Counting keys -/

section CountKeys

variable (p : K → Prop) [DecidablePred p]

/-- The number of keys with a property. -/
def countKeys (m : SortedAssoc K V) : ℕ := m.entries.countP fun e => p e.1

lemma countKeys_erase (h : m.get? k = some v) :
    (m.erase k).countKeys p + (if p k then 1 else 0) = m.countKeys p := by
  unfold countKeys
  rw [(perm_erase h).countP_eq, countP_cons]
  simp only [decide_eq_true_eq]

lemma countKeys_insert (h : m.get? k = none) (v : V) :
    (m.insert k v).countKeys p = m.countKeys p + if p k then 1 else 0 := by
  unfold countKeys
  rw [(perm_insert h v).countP_eq, countP_cons]
  simp only [decide_eq_true_eq]

@[simp] lemma countKeys_adjust (m : SortedAssoc K V) (k : K) (f : V → V) :
    (m.adjust k f).countKeys p = m.countKeys p := by
  unfold countKeys adjust
  rw [countP_map]
  refine countP_congr fun e _ => ?_
  rw [Function.comp_apply]
  split_ifs <;> rfl

lemma countKeys_le_length (m : SortedAssoc K V) : m.countKeys p ≤ m.entries.length :=
  countP_le_length

/-- A key with the property is counted. -/
lemma countKeys_pos (h : m.get? k = some v) (hk : p k) : 0 < m.countKeys p :=
  countP_pos_iff.mpr ⟨(k, v), mem_entries.mpr h, decide_eq_true hk⟩

/-- What is counted is there. -/
lemma exists_of_countKeys_ne_zero (h : m.countKeys p ≠ 0) : ∃ k v, m.get? k = some v ∧ p k := by
  obtain ⟨⟨k, v⟩, he, hk⟩ := countP_pos_iff.mp (pos_of_ne_zero h)
  exact ⟨k, v, mem_entries.mp he, of_decide_eq_true hk⟩

end CountKeys

/-! ## Sums over the entries -/

/-- Summing over the fibres of a function is summing over everything. -/
lemma sum_fibers {α : Type*} {keys : List K} (hnodup : keys.Nodup) (g : α → K) (f : α → ℕ)
    {l : List α} (hcover : ∀ x ∈ l, g x ∈ keys) :
    (keys.map fun k => ((l.filter fun x => g x = k).map f).sum).sum = (l.map f).sum := by
  induction l with
  | nil => simp
  | cons x l ih =>
    have hcons : ∀ k, (((x :: l).filter fun y => g y = k).map f).sum =
        (if g x = k then f x else 0) + ((l.filter fun y => g y = k).map f).sum := by
      intro k
      by_cases hk : g x = k
      · simp [hk]
      · simp [hk]
    have hone : (keys.map fun k => if g x = k then f x else 0).sum = f x := by
      rw [sum_map_eq_nsmul_single (g x) _ fun k hk _ => if_neg (Ne.symm hk), if_pos rfl,
        count_eq_one_of_mem hnodup (hcover x mem_cons_self), one_nsmul]
    simp only [hcons]
    rw [sum_map_add, hone, ih fun y hy => hcover y (mem_cons_of_mem _ hy), map_cons, sum_cons]

/-- If every value is the sum over the elements with its key, the values add up to the sum over all
elements. -/
lemma sum_entries_of_fibers {α : Type*} (m : SortedAssoc K V) (F : V → ℕ) (g : α → K) (f : α → ℕ)
    (l : List α) (hvalue : ∀ k v, m.get? k = some v → F v = ((l.filter fun x => g x = k).map f).sum)
    (hcover : ∀ x ∈ l, m.get? (g x) ≠ none) :
    (m.entries.map fun e => F e.2).sum = (l.map f).sum := by
  have hmap : (m.entries.map fun e => F e.2) =
      (m.entries.map Prod.fst).map fun k => ((l.filter fun x => g x = k).map f).sum := by
    rw [map_map]
    exact map_congr_left fun e he => hvalue e.1 e.2 (mem_entries.mp he)
  rw [hmap]
  refine sum_fibers m.nodup_keys g f fun x hx => ?_
  obtain ⟨v, hv⟩ := Option.ne_none_iff_exists'.mp (hcover x hx)
  exact mem_map.mpr ⟨(g x, v), mem_entries.mpr hv, rfl⟩

end SortedAssoc

end Nilix
