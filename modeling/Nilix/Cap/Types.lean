import Mathlib.Tactic

/-!
# Capability types

`kernel/cap/types.rs`: capability identifiers with their 48-bit generation and 16-bit slot index,
rights, flags, the objects capabilities refer to and the table entries.  Handles to reference-counted
kernel objects (`Arc`) are modelled by the identity of the object.
-/

namespace Nilix.Cap

/-! ## Identifiers -/

/-- The generation mask of `CapId::from_parts`, also the generation limit of the table. -/
def maxGeneration : ℕ := 0x0000FFFFFFFFFFFF

/-- `CapId`: the high 48 bits are the generation, the low 16 bits the slot index. -/
structure CapId where
  raw : ℕ
  deriving DecidableEq

namespace CapId

/-- `CapId::from_parts`: the generation is masked to 48 bits.  The index is a `u16`. -/
def fromParts (index generation : ℕ) : CapId :=
  ⟨((generation &&& maxGeneration) <<< 16) ||| index⟩

variable (id : CapId)

def index : ℕ := id.raw &&& 0xFFFF

def generation : ℕ := id.raw >>> 16

def isValid : Bool := decide (0 < id.generation)

lemma index_eq_mod : id.index = id.raw % 2 ^ 16 :=
  Nat.and_two_pow_sub_one_eq_mod id.raw 16

lemma index_lt : id.index < 2 ^ 16 := by
  rw [index_eq_mod]
  exact Nat.mod_lt _ (by decide)

lemma generation_eq_div : id.generation = id.raw / 2 ^ 16 :=
  Nat.shiftRight_eq_div_pow id.raw 16

/-- An identifier is determined by its index and its generation, -/
lemma ext_parts {a b : CapId} (hi : a.index = b.index) (hg : a.generation = b.generation) :
    a = b := by
  rw [index_eq_mod, index_eq_mod] at hi
  rw [generation_eq_div, generation_eq_div] at hg
  have hraw : a.raw = b.raw := by
    rw [← Nat.div_add_mod a.raw (2 ^ 16), ← Nat.div_add_mod b.raw (2 ^ 16), hi, hg]
  cases a
  cases b
  exact congrArg CapId.mk hraw

/-- and these are packed without loss. -/
lemma raw_fromParts {i g : ℕ} (hi : i < 2 ^ 16) (hg : g ≤ maxGeneration) :
    (fromParts i g).raw = g * 2 ^ 16 + i := by
  have hmask : g &&& maxGeneration = g := by
    have hmod : g &&& (2 ^ 48 - 1) = g % 2 ^ 48 := Nat.and_two_pow_sub_one_eq_mod g 48
    have hlt : g < 2 ^ 48 := lt_of_le_of_lt hg (by decide)
    rw [show maxGeneration = 2 ^ 48 - 1 from rfl, hmod, Nat.mod_eq_of_lt hlt]
  unfold fromParts
  rw [hmask, ← Nat.shiftLeft_add_eq_or_of_lt hi, Nat.shiftLeft_eq]

lemma index_fromParts {i g : ℕ} (hi : i < 2 ^ 16) (hg : g ≤ maxGeneration) :
    (fromParts i g).index = i := by
  rw [index_eq_mod, raw_fromParts hi hg]
  omega

lemma generation_fromParts {i g : ℕ} (hi : i < 2 ^ 16) (hg : g ≤ maxGeneration) :
    (fromParts i g).generation = g := by
  rw [generation_eq_div, raw_fromParts hi hg]
  omega

end CapId

/-! ## Rights, flags and objects -/

/-- `CapRights`: a 64-bit mask of rights. -/
abbrev CapRights := BitVec 64

def CapRights.restrict (rights mask : CapRights) : CapRights := rights &&& mask

/-- `CapFlags`: a 32-bit mask of inheritance and transfer flags. -/
abbrev CapFlags := BitVec 32

namespace CapFlags

def cloexec : CapFlags := 1 <<< 0

def clofork : CapFlags := 1 <<< 1

def noxfer : CapFlags := 1 <<< 3

/-- Whether a mask contains all bits of another. -/
def contains (flags other : CapFlags) : Bool := (flags &&& other) == other

end CapFlags

inductive PipeEndType
  | read
  | write
  deriving DecidableEq

/-- `CapObject`.  `file`, `shm` and `timer` hold the identity of the shared kernel object. -/
inductive CapObject
  | file (handle : ℕ)
  | endpoint (id : ℕ)
  | socket (socketId netNsId : ℕ)
  | pipe (pipeId : ℕ) (endType : PipeEndType)
  | regularFile (inodeId fsId : ℕ)
  | shm (handle : ℕ)
  | timer (handle : ℕ)
  | process (pid : ℕ)
  | namespace (ns : ℕ)
  deriving DecidableEq

/-- `CapObject::is_fd_backed`: the objects whose capability rides the lifetime of a descriptor. -/
def CapObject.isFdBacked : CapObject → Bool
  | .socket .. | .pipe .. | .regularFile .. => true
  | _ => false

/-- Whether the object is a namespace handle. -/
def CapObject.isNamespace : CapObject → Bool
  | .namespace _ => true
  | _ => false

structure CapEntry where
  object : CapObject
  rights : CapRights
  flags : CapFlags
  refcount : ℕ
  deriving DecidableEq

namespace CapEntry

def withFlags (object : CapObject) (rights : CapRights) (flags : CapFlags) : CapEntry :=
  ⟨object, rights, flags, 1⟩

def new (object : CapObject) (rights : CapRights) : CapEntry := withFlags object rights 0

variable (e : CapEntry)

/-- `CapEntry::increment_refcount`: a count at the top of `usize` stays. -/
def incrementRefcount : CapEntry :=
  { e with refcount := if e.refcount < 2 ^ 64 - 1 then e.refcount + 1 else e.refcount }

/-- `CapEntry::decrement_refcount`: whether the last reference went, and the entry after. -/
def decrementRefcount : Bool × CapEntry :=
  (e.refcount == 1, { e with refcount := e.refcount - 1 })

def inheritsOnExec : Bool := !e.flags.contains CapFlags.cloexec

def inheritsOnFork : Bool := !e.flags.contains CapFlags.clofork

end CapEntry

end Nilix.Cap
