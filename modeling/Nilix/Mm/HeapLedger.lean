import Mathlib.Algebra.BigOperators.Group.Finset.Basic
import Mathlib.Algebra.BigOperators.Group.Finset.Piecewise
import Mathlib.Data.Fintype.Basic
import Nilix.Foundation.Fallible
import Nilix.Foundation.Machine

/-!
# The cells of the heap ledger

`kernel/mm/heap_admission.rs` and `kernel/mm/heap_uid.rs`: the packed cells, the global and per-class
ledger, and the budgets of thread groups and host users, with the hand-written rollback chains of
their multi-cell updates.

Every cell is a function of how many bytes of each class are charged, reserved or held.  `bump` adds
bytes of one class; `Ledger.ofHeld` and `Budget.ofHeld` are the cells that describe given amounts
exactly.  A reservation fails and leaves the cells as they were, or bumps the amounts within the
limits; a release undoes a bump and does not fault.
-/

namespace Nilix.Mm

open Finset Function

/-! ## Classes and limits -/

inductive HeapClass
  | coreProcess | capability | scheduler | cgroup | procfs | blockingIo | exec | socketObject
  | socketPayload | ramFs | pipe | vfs | device | filesystemIo | futex | netnsConfig | coverage
  deriving DecidableEq

def HeapClass.all : List HeapClass :=
  [.coreProcess, .capability, .scheduler, .cgroup, .procfs, .blockingIo, .exec, .socketObject,
    .socketPayload, .ramFs, .pipe, .vfs, .device, .filesystemIo, .futex, .netnsConfig, .coverage]

/-- The class table enumerates every class. -/
instance : Fintype HeapClass where
  elems := HeapClass.all.toFinset
  complete c := by cases c <;> decide

def heapSize : ℕ := 2 * 1024 * 1024

def emergencyHeapSizeBytes : ℕ := 64 * 1024

def normalHeapSizeBytes : ℕ := heapSize - emergencyHeapSizeBytes

def normalUnadmittedReserveBytes : ℕ := 64 * 1024

def registeredFixedReserveBytes : ℕ := 512 * 1024

def admittedHeapBytes : ℕ :=
  normalHeapSizeBytes - normalUnadmittedReserveBytes - registeredFixedReserveBytes

def HeapClass.limitBytes : HeapClass → ℕ
  | .coreProcess => 512 * 1024
  | .capability => 256 * 1024
  | .scheduler => 256 * 1024
  | .cgroup => 256 * 1024
  | .procfs => 512 * 1024
  | .blockingIo => 1024 * 1024 + 32 * 1024
  | .exec => 1024 * 1024
  | .socketObject => 256 * 1024
  | .socketPayload => 1024 * 1024
  | .ramFs => 512 * 1024
  | .pipe => 1024 * 1024 + 16 * 1024
  | .vfs => 512 * 1024
  | .device => 256 * 1024
  | .filesystemIo => 352 * 1024
  | .futex => 128 * 1024
  | .netnsConfig => 512 * 1024
  | .coverage => 256 * 1024

def execTransactionPeakBytes : ℕ := 1024 * 1024

def ownerNonExecBytes : ℕ := 512 * 1024

def ownerHeapBytes : ℕ := execTransactionPeakBytes + 128 * 1024

def ownerBlockingIoBytes : ℕ := 128 * 1024

def uidNonExecBytes : ℕ := 768 * 1024

def uidHeapBytes : ℕ := ownerHeapBytes + 128 * 1024

def uidBlockingIoBytes : ℕ := 256 * 1024

inductive HeapAdmissionError
  | notPublished | arithmeticOverflow | globalLimit | classLimit | ownerLimit | ownerClassLimit
  | blockingIoOwnerLimit | uidLimit | uidClassLimit | blockingIoUidLimit | uidDomainLimit
  | allocationFailed | corruptState
  deriving DecidableEq

/-- The fail-stops of the ledger: a subtraction that would underflow a cell, an underflow of a byte
budget, and the assertions on the registry of host users. -/
inductive HeapFault
  | corruptLedger
  | budgetUnderflow
  | corruptRegistry
  deriving DecidableEq

/-! ## Cells -/

/-- A packed `(committed, reserved)` cell. -/
structure Cell where
  committed : ℕ
  reserved : ℕ
  deriving DecidableEq

namespace Cell

variable (cell : Cell) (bytes : ℕ)

def addReserved (bytes limit : ℕ) : Except HeapAdmissionError Cell :=
  if u32Max < bytes then .error .arithmeticOverflow
  else if u32Max < cell.reserved + bytes then .error .arithmeticOverflow
  else if limit < cell.committed + (cell.reserved + bytes) then .error .globalLimit
  else .ok { cell with reserved := cell.reserved + bytes }

def subtractReserved : Except HeapAdmissionError Cell :=
  if u32Max < bytes then .error .arithmeticOverflow
  else if cell.reserved < bytes then .error .corruptState
  else .ok { cell with reserved := cell.reserved - bytes }

def commitReserved : Except HeapAdmissionError Cell :=
  if u32Max < bytes then .error .arithmeticOverflow
  else if cell.reserved < bytes then .error .corruptState
  else if u32Max < cell.committed + bytes then .error .arithmeticOverflow
  else .ok ⟨cell.committed + bytes, cell.reserved - bytes⟩

def rollbackCommit : Except HeapAdmissionError Cell :=
  if u32Max < bytes then .error .arithmeticOverflow
  else if cell.committed < bytes then .error .corruptState
  else if u32Max < cell.reserved + bytes then .error .arithmeticOverflow
  else .ok ⟨cell.committed - bytes, cell.reserved + bytes⟩

def subtractCommitted : Except HeapAdmissionError Cell :=
  if u32Max < bytes then .error .arithmeticOverflow
  else if cell.committed < bytes then .error .corruptState
  else .ok { cell with committed := cell.committed - bytes }

/-- A successful reservation adds the bytes, within the limit. -/
lemma addReserved_ok {cell cell' : Cell} {bytes limit : ℕ}
    (h : cell.addReserved bytes limit = .ok cell') :
    cell' = ⟨cell.committed, cell.reserved + bytes⟩ ∧
      cell.committed + (cell.reserved + bytes) ≤ limit ∧ bytes ≤ u32Max := by
  unfold addReserved at h
  split_ifs at h with h1 h2 h3
  exact ⟨(Except.ok.inj h).symm, Nat.le_of_not_lt h3, Nat.le_of_not_lt h1⟩

variable {committed reserved bytes : ℕ}

lemma subtractReserved_add (h : bytes ≤ u32Max) :
    subtractReserved ⟨committed, reserved + bytes⟩ bytes = .ok ⟨committed, reserved⟩ := by
  simp [subtractReserved, not_lt.mpr h]

lemma commitReserved_add (h : committed + bytes ≤ u32Max) :
    commitReserved ⟨committed, reserved + bytes⟩ bytes = .ok ⟨committed + bytes, reserved⟩ := by
  have hb : ¬ u32Max < bytes := by omega
  simp [commitReserved, hb, not_lt.mpr h]

/-- A rollback restores the cell of a commit, whose halves fit their 32 bits. -/
lemma rollbackCommit_commit {cell cell' : Cell} (hpacked : cell.reserved ≤ u32Max)
    (h : cell.commitReserved bytes = .ok cell') : cell'.rollbackCommit bytes = .ok cell := by
  unfold commitReserved at h
  split_ifs at h with h1 h2 h3
  obtain rfl := Except.ok.inj h
  have hsum : cell.reserved - bytes + bytes = cell.reserved := by omega
  simp [rollbackCommit, h1, hsum, not_lt.mpr hpacked]

lemma subtractCommitted_add (h : bytes ≤ u32Max) :
    subtractCommitted ⟨committed + bytes, reserved⟩ bytes = .ok ⟨committed, reserved⟩ := by
  simp [subtractCommitted, not_lt.mpr h]

end Cell

/-- The fail-stop on an error of the ledger that must not happen. -/
def orFault {α : Type*} : Except HeapAdmissionError α → Except HeapFault α
  | .ok a => .ok a
  | .error _ => .error .corruptLedger

/-! ## Amounts by class -/

/-- Add bytes of one class. -/
def bump (amounts : HeapClass → ℕ) (c : HeapClass) (bytes : ℕ) : HeapClass → ℕ :=
  fun c' => amounts c' + if c' = c then bytes else 0

section

variable (amounts : HeapClass → ℕ)

@[simp] lemma bump_zero (c : HeapClass) : bump amounts c 0 = amounts := by
  funext c'
  simp [bump]

lemma bump_self (c : HeapClass) (bytes : ℕ) : bump amounts c bytes c = amounts c + bytes := by
  simp [bump]

lemma bump_of_ne {c c' : HeapClass} (bytes : ℕ) (h : c' ≠ c) :
    bump amounts c bytes c' = amounts c' := by
  simp [bump, h]

lemma bump_bump (c : HeapClass) (m n : ℕ) :
    bump (bump amounts c m) c n = bump amounts c (m + n) := by
  funext c'
  unfold bump
  split_ifs <;> omega

end

/-- The sum of all classes. -/
def total (amounts : HeapClass → ℕ) : ℕ := ∑ c, amounts c

/-- The sum of all classes but `Exec`. -/
def nonExecTotal (amounts : HeapClass → ℕ) : ℕ := ∑ c, if c = .exec then 0 else amounts c

section

variable (amounts : HeapClass → ℕ)

@[simp] lemma total_bump (c : HeapClass) (bytes : ℕ) :
    total (bump amounts c bytes) = total amounts + bytes := by
  unfold total bump
  rw [sum_add_distrib, sum_ite_eq' univ c, if_pos (mem_univ c)]

lemma nonExecTotal_bump (c : HeapClass) (bytes : ℕ) :
    nonExecTotal (bump amounts c bytes) =
      nonExecTotal amounts + if c ≠ .exec then bytes else 0 := by
  have hsplit : ∀ c', (if c' = HeapClass.exec then 0 else bump amounts c bytes c') =
      (if c' = HeapClass.exec then 0 else amounts c') +
        if c' = c then (if c ≠ HeapClass.exec then bytes else 0) else 0 := by
    intro c'
    unfold bump
    rcases eq_or_ne c' c with rfl | hne
    · split_ifs <;> simp_all
    · simp [hne]
  unfold nonExecTotal
  rw [sum_congr rfl fun c' _ => hsplit c', sum_add_distrib,
    sum_ite_eq' univ c, if_pos (mem_univ c)]

lemma le_total (c : HeapClass) : amounts c ≤ total amounts :=
  single_le_sum (fun _ _ => Nat.zero_le _) (mem_univ c)

end

/-! ## The global and per-class ledger -/

/-- `GLOBAL_STATE` and `CLASS_STATES`. -/
structure Ledger where
  global : Cell
  classes : HeapClass → Cell

namespace Ledger

/-- The static cells before anything is reserved. -/
def new : Ledger := ⟨⟨0, 0⟩, fun _ => ⟨0, 0⟩⟩

variable (l : Ledger) (c : HeapClass) (bytes : ℕ) (charged reserved : HeapClass → ℕ)

/-- Write the cell of one class. -/
def setClass (cell : Cell) : Ledger :=
  { l with classes := update l.classes c cell }

def reservePair : Except HeapFault (Except HeapAdmissionError Unit × Ledger) :=
  if bytes = 0 then .ok (.ok (), l)
  else match l.global.addReserved bytes admittedHeapBytes with
    | .error e => .ok (.error e, l)
    | .ok global => match (l.classes c).addReserved bytes c.limitBytes with
      | .ok cell => .ok (.ok (), { l with global := global }.setClass c cell)
      | .error e => do
        let global' ← orFault (global.subtractReserved bytes)
        return (.error (if e = .globalLimit then .classLimit else e), { l with global := global' })

def releaseReservedPair : Except HeapFault Ledger :=
  if bytes = 0 then .ok l
  else do
    let cell ← orFault ((l.classes c).subtractReserved bytes)
    let global ← orFault (l.global.subtractReserved bytes)
    return { l with global := global }.setClass c cell

def commitPair : Except HeapAdmissionError Unit × Ledger :=
  if bytes = 0 then (.ok (), l)
  else match l.global.commitReserved bytes with
    | .error e => (.error e, l)
    | .ok global => match (l.classes c).commitReserved bytes with
      | .ok cell => (.ok (), { l with global := global }.setClass c cell)
      | .error e => match global.rollbackCommit bytes with
        | .ok global' => (.error e, { l with global := global' })
        | .error e' => (.error e', { l with global := global })

def releaseCommittedPair : Except HeapFault Ledger :=
  if bytes = 0 then .ok l
  else do
    let cell ← orFault ((l.classes c).subtractCommitted bytes)
    let global ← orFault (l.global.subtractCommitted bytes)
    return { l with global := global }.setClass c cell

/-- The ledger that describes the charged and the reserved bytes of each class exactly. -/
def ofHeld : Ledger where
  global := ⟨total charged, total reserved⟩
  classes c := ⟨charged c, reserved c⟩

@[simp] lemma ofHeld_global :
    (ofHeld charged reserved).global = ⟨total charged, total reserved⟩ := rfl

@[simp] lemma ofHeld_classes (c : HeapClass) :
    (ofHeld charged reserved).classes c = ⟨charged c, reserved c⟩ := rfl

lemma new_eq_ofHeld : new = ofHeld (fun _ => 0) fun _ => 0 := by
  simp [new, ofHeld, total]

/-- Charged and reserved bytes together stay within the limits. -/
structure Within (charged reserved : HeapClass → ℕ) : Prop where
  global : total charged + total reserved ≤ admittedHeapBytes
  classes : ∀ c, charged c + reserved c ≤ c.limitBytes

variable {charged reserved : HeapClass → ℕ} {c : HeapClass} {bytes : ℕ}

lemma Within.total_le (h : Within charged reserved) :
    total charged ≤ u32Max ∧ total reserved ≤ u32Max := by
  have hle : admittedHeapBytes ≤ u32Max := by decide
  have hglobal := h.global
  omega

/-- The limits only depend on the sum of charged and reserved bytes. -/
lemma Within.commit (h : Within charged (bump reserved c bytes)) :
    Within (bump charged c bytes) reserved := by
  refine ⟨?_, fun c' => ?_⟩
  · have hglobal := h.global
    rw [total_bump] at hglobal ⊢
    omega
  have hclass := h.classes c'
  unfold bump at hclass ⊢
  omega

lemma Within.of_charged (h : Within (bump charged c bytes) reserved) : Within charged reserved := by
  refine ⟨?_, fun c' => ?_⟩
  · have hglobal := h.global
    rw [total_bump] at hglobal
    omega
  have hclass := h.classes c'
  unfold bump at hclass
  omega

lemma Within.of_reserved (h : Within charged (bump reserved c bytes)) : Within charged reserved :=
  h.commit.of_charged

/-- Writing the cell of the bumped class and the global cell gives the bumped ledger. -/
lemma setClass_ofHeld {charged' reserved' : HeapClass → ℕ} {l : Ledger} {cell : Cell}
    (hglobal : l.global = ⟨total charged', total reserved'⟩)
    (hcell : cell = ⟨charged' c, reserved' c⟩)
    (hother : ∀ c', c' ≠ c → l.classes c' = ⟨charged' c', reserved' c'⟩) :
    l.setClass c cell = ofHeld charged' reserved' := by
  have hclasses : update l.classes c cell = (ofHeld charged' reserved').classes := by
    funext c'
    rcases eq_or_ne c' c with rfl | hne
    · rw [update_self, hcell]
      rfl
    rw [update_of_ne hne, hother c' hne]
    rfl
  unfold setClass
  rw [hclasses, hglobal]
  rfl

/-- A reservation fails and leaves the ledger, or adds the bytes to both cells within their limits. -/
lemma reservePair_cases (l : Ledger) (c : HeapClass) (bytes : ℕ) :
    (∃ e, l.reservePair c bytes = .ok (.error e, l)) ∨
      (bytes = 0 ∧ l.reservePair c bytes = .ok (.ok (), l)) ∨
      l.reservePair c bytes = .ok (.ok (), { l with
          global := ⟨l.global.committed, l.global.reserved + bytes⟩ }.setClass c
            ⟨(l.classes c).committed, (l.classes c).reserved + bytes⟩) ∧
        l.global.committed + (l.global.reserved + bytes) ≤ admittedHeapBytes ∧
        (l.classes c).committed + ((l.classes c).reserved + bytes) ≤ c.limitBytes := by
  unfold reservePair
  split_ifs with hzero
  · exact .inr (.inl ⟨hzero, rfl⟩)
  cases hglobal : l.global.addReserved bytes admittedHeapBytes with
  | error e => exact .inl ⟨e, rfl⟩
  | ok =>
    obtain ⟨rfl, hle, hbytes⟩ := Cell.addReserved_ok hglobal
    cases hclass : (l.classes c).addReserved bytes c.limitBytes with
    | error e =>
      refine .inl ⟨if e = .globalLimit then .classLimit else e, ?_⟩
      simp only [Cell.subtractReserved_add hbytes, orFault, ok_bind, pure_eq_ok]
    | ok =>
      obtain ⟨rfl, hcle, -⟩ := Cell.addReserved_ok hclass
      exact .inr (.inr ⟨rfl, hle, hcle⟩)

/-- A reservation on an exact ledger fails and leaves it, or reserves the bytes within the limits. -/
lemma reservePair_ofHeld (hw : Within charged reserved) (c : HeapClass) (bytes : ℕ) :
    (∃ e, (ofHeld charged reserved).reservePair c bytes = .ok (.error e, ofHeld charged reserved)) ∨
      ((ofHeld charged reserved).reservePair c bytes =
        .ok (.ok (), ofHeld charged (bump reserved c bytes)) ∧
        Within charged (bump reserved c bytes)) := by
  rcases (ofHeld charged reserved).reservePair_cases c bytes with
    hfail | ⟨rfl, hok⟩ | ⟨hok, hle, hcle⟩
  · exact .inl hfail
  · rw [bump_zero]
    exact .inr ⟨hok, hw⟩
  refine .inr ⟨hok.trans ?_, ?_, fun c' => ?_⟩
  · refine congrArg (fun l => Except.ok (Except.ok (), l)) (setClass_ofHeld ?_ ?_ ?_)
    · rw [total_bump]
      rfl
    · rw [bump_self]
      rfl
    · intro c' hne
      rw [bump_of_ne _ _ hne]
      rfl
  · rw [total_bump]
    exact hle
  · rcases eq_or_ne c' c with rfl | hne
    · rw [bump_self]
      exact hcle
    · rw [bump_of_ne _ _ hne]
      exact hw.classes c'

/-- Releasing reserved bytes undoes their reservation. -/
lemma releaseReservedPair_ofHeld (hw : Within charged (bump reserved c bytes)) :
    (ofHeld charged (bump reserved c bytes)).releaseReservedPair c bytes =
      .ok (ofHeld charged reserved) := by
  have hbytes : bytes ≤ u32Max := by
    have hle := hw.total_le.2
    rw [total_bump] at hle
    omega
  unfold releaseReservedPair
  split_ifs with hzero
  · rw [hzero, bump_zero]
  have hcell : ((ofHeld charged (bump reserved c bytes)).classes c).subtractReserved bytes =
      .ok ⟨charged c, reserved c⟩ := by
    rw [ofHeld_classes, bump_self]
    exact Cell.subtractReserved_add hbytes
  have hglobal : (ofHeld charged (bump reserved c bytes)).global.subtractReserved bytes =
      .ok ⟨total charged, total reserved⟩ := by
    rw [ofHeld_global, total_bump]
    exact Cell.subtractReserved_add hbytes
  simp only [hcell, hglobal, orFault, ok_bind, pure_eq_ok]
  refine congrArg Except.ok (setClass_ofHeld rfl rfl fun c' hne => ?_)
  simp only [ofHeld, bump_of_ne _ _ hne]

/-- A refused commit leaves the ledger. -/
lemma commitPair_refused {l l' : Ledger} {e : HeapAdmissionError}
    (hpacked : l.global.reserved ≤ u32Max) (h : l.commitPair c bytes = (.error e, l')) : l' = l := by
  unfold commitPair at h
  split_ifs at h
  · cases h
  cases hglobal : l.global.commitReserved bytes with
  | error =>
    rw [hglobal] at h
    exact (congrArg Prod.snd h).symm
  | ok =>
    have hback := Cell.rollbackCommit_commit hpacked hglobal
    cases hclass : (l.classes c).commitReserved bytes with
    | error =>
      simp only [hglobal, hclass, hback] at h
      exact (congrArg Prod.snd h).symm
    | ok => simp [hglobal, hclass] at h

/-- Committing reserved bytes moves them to the charged ones; it does not fail. -/
lemma commitPair_ofHeld (hw : Within charged (bump reserved c bytes)) :
    (ofHeld charged (bump reserved c bytes)).commitPair c bytes =
      (.ok (), ofHeld (bump charged c bytes) reserved) := by
  have htotal : total charged + bytes ≤ u32Max := by
    have hle := hw.commit.total_le.1
    rwa [total_bump] at hle
  have hclass : charged c + bytes ≤ u32Max :=
    (Nat.add_le_add_right (le_total charged c) bytes).trans htotal
  unfold commitPair
  split_ifs with hzero
  · rw [hzero, bump_zero, bump_zero]
  have hcell : ((ofHeld charged (bump reserved c bytes)).classes c).commitReserved bytes =
      .ok ⟨charged c + bytes, reserved c⟩ := by
    rw [ofHeld_classes, bump_self]
    exact Cell.commitReserved_add hclass
  have hglobal : (ofHeld charged (bump reserved c bytes)).global.commitReserved bytes =
      .ok ⟨total charged + bytes, total reserved⟩ := by
    rw [ofHeld_global, total_bump]
    exact Cell.commitReserved_add htotal
  simp only [hcell, hglobal]
  refine congrArg (Prod.mk (Except.ok ())) (setClass_ofHeld ?_ ?_ fun c' hne => ?_)
  · rw [total_bump]
  · rw [bump_self]
  · simp only [ofHeld, bump_of_ne _ _ hne]

lemma releaseCommittedPair_ofHeld (hw : Within (bump charged c bytes) reserved) :
    (ofHeld (bump charged c bytes) reserved).releaseCommittedPair c bytes =
      .ok (ofHeld charged reserved) := by
  have hbytes : bytes ≤ u32Max := by
    have hle := hw.total_le.1
    rw [total_bump] at hle
    omega
  unfold releaseCommittedPair
  split_ifs with hzero
  · rw [hzero, bump_zero]
  have hcell : ((ofHeld (bump charged c bytes) reserved).classes c).subtractCommitted bytes =
      .ok ⟨charged c, reserved c⟩ := by
    rw [ofHeld_classes, bump_self]
    exact Cell.subtractCommitted_add hbytes
  have hglobal : (ofHeld (bump charged c bytes) reserved).global.subtractCommitted bytes =
      .ok ⟨total charged, total reserved⟩ := by
    rw [ofHeld_global, total_bump]
    exact Cell.subtractCommitted_add hbytes
  simp only [hcell, hglobal, orFault, ok_bind, pure_eq_ok]
  refine congrArg Except.ok (setClass_ofHeld rfl rfl fun c' hne => ?_)
  simp only [ofHeld, bump_of_ne _ _ hne]

end Ledger

/-! ## Budgets of thread groups and host users -/

/-- `NsByteBudget::try_charge` on an open budget. -/
def tryCharge (used bytes limit : ℕ) : Option ℕ :=
  if bytes = 0 then some used
  else if usizeMax < used + bytes then none
  else if limit < used + bytes then none
  else some (used + bytes)

/-- `NsByteBudget::release`. -/
def releaseBytes (used bytes : ℕ) : Except HeapFault ℕ :=
  if bytes = 0 then .ok used
  else if used < bytes then .error .budgetUnderflow
  else .ok (used - bytes)

/-- A successful charge adds the bytes, and a charge within the limit stays within it. -/
lemma tryCharge_eq_some {used bytes limit used' : ℕ} (h : tryCharge used bytes limit = some used') :
    used' = used + bytes ∧ (used ≤ limit → used + bytes ≤ limit) := by
  unfold tryCharge at h
  split_ifs at h with h1 h2 h3
  · cases h
    omega
  cases h
  omega

lemma releaseBytes_add (used bytes : ℕ) : releaseBytes (used + bytes) bytes = .ok used := by
  unfold releaseBytes
  split_ifs with h1 h2
  · rw [h1, add_zero]
  · omega
  · rw [Nat.add_sub_cancel]

/-- A charge that only some classes make. -/
def chargeWhen (p : Prop) [Decidable p] (used bytes limit : ℕ) : Option ℕ :=
  if p then tryCharge used bytes limit else some used

/-- A release that only some classes make. -/
def releaseWhen (p : Prop) [Decidable p] (used bytes : ℕ) : Except HeapFault ℕ :=
  if p then releaseBytes used bytes else .ok used

lemma chargeWhen_eq_some {p : Prop} [Decidable p] {used bytes limit used' : ℕ}
    (h : chargeWhen p used bytes limit = some used') :
    used' = used + (if p then bytes else 0) ∧
      (used ≤ limit → used + (if p then bytes else 0) ≤ limit) := by
  unfold chargeWhen at h
  split_ifs at h ⊢
  · exact tryCharge_eq_some h
  · exact ⟨(Option.some.inj h).symm, fun hle => hle⟩

lemma releaseWhen_add (p : Prop) [Decidable p] (used bytes : ℕ) :
    releaseWhen p (used + if p then bytes else 0) bytes = .ok used := by
  unfold releaseWhen
  split_ifs
  · exact releaseBytes_add used bytes
  · rfl

/-- The byte counters of a `HeapOwner`, and of a `Budget` of a host user. -/
structure Budget where
  total : ℕ
  nonExec : ℕ
  blockingIo : ℕ
  classes : HeapClass → Cell

/-- The limits of a budget and the errors with which it refuses. -/
structure Tier where
  total : ℕ
  nonExec : ℕ
  blockingIo : ℕ
  classes : HeapClass → ℕ
  totalError : HeapAdmissionError
  classError : HeapAdmissionError
  blockingIoError : HeapAdmissionError

/-- The tier of `HeapOwner::reserve`. -/
def ownerTier : Tier where
  total := ownerHeapBytes
  nonExec := ownerNonExecBytes
  blockingIo := ownerBlockingIoBytes
  classes c := if c = .exec then c.limitBytes else c.limitBytes / 4 * 3
  totalError := .ownerLimit
  classError := .ownerClassLimit
  blockingIoError := .blockingIoOwnerLimit

/-- The tier of `UidLease::reserve`. -/
def uidTier : Tier where
  total := uidHeapBytes
  nonExec := uidNonExecBytes
  blockingIo := uidBlockingIoBytes
  classes c := if c = .exec then c.limitBytes else c.limitBytes / 8 * 7
  totalError := .uidLimit
  classError := .uidClassLimit
  blockingIoError := .blockingIoUidLimit

namespace Budget

/-- `Budget::new`, and the counters of a new `HeapOwner`. -/
def new : Budget := ⟨0, 0, 0, fun _ => ⟨0, 0⟩⟩

variable (b : Budget) (c : HeapClass) (bytes : ℕ)

/-- Write the cell of one class. -/
def setClass (cell : Cell) : Budget :=
  { b with classes := update b.classes c cell }

def releaseTotal : Except HeapFault Budget := do
  let nonExec ← releaseWhen (c ≠ .exec) b.nonExec bytes
  let total ← releaseBytes b.total bytes
  return { b with nonExec := nonExec, total := total }

/-- The class step of a release and of a rollback. -/
def releaseClass : Except HeapFault Budget := do
  let cell ← orFault ((b.classes c).subtractReserved bytes)
  return b.setClass c cell

/-- `release_local` of an owner, and `UidLease::release`. -/
def release : Except HeapFault Budget := do
  let blockingIo ← releaseWhen (c = .blockingIo) b.blockingIo bytes
  let b1 ← { b with blockingIo := blockingIo }.releaseClass c bytes
  b1.releaseTotal c bytes

/-- The four gates of `HeapOwner::reserve` and of `UidLease::reserve`, each with the rollback of the
gates before it. -/
def reserve (tier : Tier) (c : HeapClass) (bytes : ℕ) :
    Except HeapFault (Except HeapAdmissionError Unit × Budget) :=
  match tryCharge b.total bytes tier.total with
  | none => .ok (.error tier.totalError, b)
  | some total =>
    let b1 := { b with total := total }
    match chargeWhen (c ≠ .exec) b1.nonExec bytes tier.nonExec with
    | none => do
      let total' ← releaseBytes b1.total bytes
      return (.error tier.totalError, { b1 with total := total' })
    | some nonExec =>
      let b2 := { b1 with nonExec := nonExec }
      match (b2.classes c).addReserved bytes (tier.classes c) with
      | .error _ => do
        let b' ← b2.releaseTotal c bytes
        return (.error tier.classError, b')
      | .ok cell =>
        let b3 := b2.setClass c cell
        match chargeWhen (c = .blockingIo) b3.blockingIo bytes tier.blockingIo with
        | none => do
          let b4 ← b3.releaseClass c bytes
          let b' ← b4.releaseTotal c bytes
          return (.error tier.blockingIoError, b')
        | some blockingIo => .ok (.ok (), { b3 with blockingIo := blockingIo })

/-- The budget with bytes of one class added to every counter of that class. -/
def add : Budget where
  total := b.total + bytes
  nonExec := b.nonExec + if c ≠ .exec then bytes else 0
  blockingIo := b.blockingIo + if c = .blockingIo then bytes else 0
  classes := update b.classes c
    ⟨(b.classes c).committed, (b.classes c).reserved + bytes⟩

variable {b : Budget} {tier : Tier} {c : HeapClass} {bytes : ℕ}

lemma releaseTotal_add (total nonExec blockingIo : ℕ) (classes : HeapClass → Cell)
    (c : HeapClass) (bytes : ℕ) :
    releaseTotal ⟨total + bytes, nonExec + if c ≠ .exec then bytes else 0, blockingIo, classes⟩
        c bytes =
      .ok ⟨total, nonExec, blockingIo, classes⟩ := by
  unfold releaseTotal
  rw [releaseWhen_add, releaseBytes_add]
  rfl

/-- The class step of a release undoes the class step of a reservation. -/
lemma releaseClass_add (total nonExec blockingIo : ℕ) (classes : HeapClass → Cell)
    (c : HeapClass) (hbytes : bytes ≤ u32Max) :
    releaseClass ⟨total, nonExec, blockingIo, update classes c
        ⟨(classes c).committed, (classes c).reserved + bytes⟩⟩ c bytes =
      .ok ⟨total, nonExec, blockingIo, classes⟩ := by
  unfold releaseClass setClass
  simp only [update_self, Cell.subtractReserved_add hbytes, orFault, ok_bind, pure_eq_ok, update_idem, update_eq_self]

/-- A release undoes an addition; it does not fault. -/
lemma release_add (b : Budget) (c : HeapClass) (hbytes : bytes ≤ u32Max) :
    (b.add c bytes).release c bytes = .ok b := by
  unfold release add
  rw [releaseWhen_add]
  simp only [ok_bind]
  rw [releaseClass_add _ _ _ _ _ hbytes]
  exact releaseTotal_add _ _ _ _ c bytes

/-- The bytes pass the gates: counters within the limits of the tier stay within them. -/
structure Fits (b : Budget) (tier : Tier) (c : HeapClass) (bytes : ℕ) : Prop where
  total : b.total ≤ tier.total → (b.add c bytes).total ≤ tier.total
  nonExec : b.nonExec ≤ tier.nonExec → (b.add c bytes).nonExec ≤ tier.nonExec
  blockingIo : b.blockingIo ≤ tier.blockingIo → (b.add c bytes).blockingIo ≤ tier.blockingIo
  classes : (b.classes c).committed + ((b.classes c).reserved + bytes) ≤ tier.classes c
  bytes_le : bytes ≤ u32Max

/-- A reservation fails and leaves the budget as it was, or adds the bytes. -/
lemma reserve_cases (b : Budget) (tier : Tier) (c : HeapClass) (bytes : ℕ) :
    (∃ e, b.reserve tier c bytes = .ok (.error e, b)) ∨
      b.reserve tier c bytes = .ok (.ok (), b.add c bytes) ∧ b.Fits tier c bytes := by
  unfold reserve
  cases htotal : tryCharge b.total bytes tier.total with
  | none => exact .inl ⟨_, rfl⟩
  | some =>
    obtain ⟨rfl, htotalLe⟩ := tryCharge_eq_some htotal
    dsimp only
    cases hnonExec : chargeWhen (c ≠ .exec) b.nonExec bytes tier.nonExec with
    | none =>
      refine .inl ⟨tier.totalError, ?_⟩
      rw [releaseBytes_add]
      rfl
    | some =>
      obtain ⟨rfl, hnonExecLe⟩ := chargeWhen_eq_some hnonExec
      dsimp only
      cases hclass : (b.classes c).addReserved bytes (tier.classes c) with
      | error =>
        refine .inl ⟨tier.classError, ?_⟩
        rw [releaseTotal_add]
        rfl
      | ok =>
        obtain ⟨rfl, hclassLe, hbytes⟩ := Cell.addReserved_ok hclass
        dsimp only [setClass]
        cases hblocking : chargeWhen (c = .blockingIo) b.blockingIo bytes tier.blockingIo with
        | none =>
          refine .inl ⟨tier.blockingIoError, ?_⟩
          simp only [releaseClass_add _ _ _ _ _ hbytes, releaseTotal_add, ok_bind, pure_eq_ok]
        | some =>
          obtain ⟨rfl, hblockingLe⟩ := chargeWhen_eq_some hblocking
          exact .inr ⟨rfl, htotalLe, hnonExecLe, hblockingLe, hclassLe, hbytes⟩

/-! ## Exact budgets -/

/-- The budget that describes the bytes held in each class exactly.  Its class cells count everything
in their reserved half: no path commits them. -/
def ofHeld (held : HeapClass → ℕ) : Budget where
  total := Mm.total held
  nonExec := nonExecTotal held
  blockingIo := held .blockingIo
  classes c := ⟨0, held c⟩

/-- The bytes held stay within the limits of a tier. -/
structure Within (tier : Tier) (held : HeapClass → ℕ) : Prop where
  total : Mm.total held ≤ tier.total
  nonExec : nonExecTotal held ≤ tier.nonExec
  blockingIo : held .blockingIo ≤ tier.blockingIo
  classes : ∀ c, held c ≤ tier.classes c

variable {held : HeapClass → ℕ}

lemma new_eq_ofHeld : new = ofHeld fun _ => 0 := by
  simp [new, ofHeld, Mm.total, nonExecTotal]

lemma within_zero (tier : Tier) : Within tier fun _ => 0 := by
  refine ⟨?_, ?_, Nat.zero_le _, fun _ => Nat.zero_le _⟩
  · simp [Mm.total]
  · simp [nonExecTotal]

lemma bump_blockingIo (held : HeapClass → ℕ) (c : HeapClass) (bytes : ℕ) :
    bump held c bytes .blockingIo = held .blockingIo + if c = .blockingIo then bytes else 0 := by
  simp only [bump, eq_comm]

lemma Within.of_bump (h : Within tier (bump held c bytes)) : Within tier held := by
  obtain ⟨htotal, hnonExec, hblocking, hclasses⟩ := h
  rw [total_bump] at htotal
  rw [nonExecTotal_bump] at hnonExec
  rw [bump_blockingIo] at hblocking
  refine ⟨by omega, by omega, by omega, fun c' => ?_⟩
  have hclass := hclasses c'
  unfold bump at hclass
  omega

lemma Within.bytes_le (h : Within tier (bump held c bytes)) (htier : tier.total ≤ u32Max) :
    bytes ≤ u32Max := by
  have htotal := h.total
  rw [total_bump] at htotal
  omega

/-- Adding bytes to an exact budget gives the exact budget of the bumped amounts. -/
lemma ofHeld_add (held : HeapClass → ℕ) (c : HeapClass) (bytes : ℕ) :
    (ofHeld held).add c bytes = ofHeld (bump held c bytes) := by
  have hclasses : update (ofHeld held).classes c
      ⟨((ofHeld held).classes c).committed, ((ofHeld held).classes c).reserved + bytes⟩ =
      (ofHeld (bump held c bytes)).classes := by
    funext c'
    dsimp only [ofHeld]
    rcases eq_or_ne c' c with rfl | hne
    · rw [update_self, bump_self]
    · rw [update_of_ne hne, bump_of_ne _ _ hne]
  unfold add
  rw [hclasses]
  unfold ofHeld
  rw [total_bump, nonExecTotal_bump, bump_blockingIo]

/-- Bytes that pass the gates of an exact budget stay within the limits. -/
lemma Within.bump (hw : Within tier held) (hfits : (ofHeld held).Fits tier c bytes) :
    Within tier (bump held c bytes) := by
  obtain ⟨h1, h2, h3, h4, -⟩ := hfits
  rw [ofHeld_add] at h1 h2 h3
  refine ⟨h1 hw.total, h2 hw.nonExec, h3 hw.blockingIo, fun c' => ?_⟩
  rcases eq_or_ne c' c with rfl | hne
  · rw [bump_self]
    exact (zero_add _).symm.trans_le h4
  rw [bump_of_ne _ _ hne]
  exact hw.classes c'

end Budget

end Nilix.Mm
