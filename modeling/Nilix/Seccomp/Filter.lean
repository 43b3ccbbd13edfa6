import Nilix.Foundation.Word64
import Nilix.Seccomp.Interpreter

/-!
# Compiled seccomp filters and the fast-allow bitmap

`kernel/seccomp/types.rs`: `FastAllowSet`, `compute_fast_allow`, `compute_filter_id` and
`SeccompFilter` with its constructors and `evaluate`.

The fields of a `SeccompFilter` are private in the source, so that one can only be obtained from a
constructor that validates the program and computes the bitmap from it.  The structure below carries
both facts.  The allocations of the constructors are the environment (`admitted`).
-/

namespace Nilix.Seccomp

/-! ## The bitmap -/

/-- `FastAllowSet`: 512 bits in eight words. -/
structure FastAllowSet where
  bits : Vector (BitVec 64) 8

namespace FastAllowSet

def empty : FastAllowSet := ⟨Vector.replicate 8 0⟩

def set (s : FastAllowSet) (idx : ℕ) : FastAllowSet :=
  if h : idx < 512 then
    ⟨s.bits.set (idx / 64) (s.bits[idx / 64] ||| 1#64 <<< (idx % 64))⟩
  else s

def get (s : FastAllowSet) (idx : ℕ) : Bool :=
  if h : idx < 512 then
    decide ((s.bits[idx / 64] >>> (idx % 64)) &&& 1#64 ≠ 0)
  else false

lemma get_of_le {s : FastAllowSet} {idx : ℕ} (h : 512 ≤ idx) : s.get idx = false :=
  dif_neg (by omega)

/-- Inside of the bitmap, `get` reads bit `idx % 64` of word `idx / 64`. -/
lemma get_eq_getLsbD {s : FastAllowSet} {idx : ℕ} (h : idx < 512) :
    s.get idx = s.bits[idx / 64].getLsbD (idx % 64) := by
  rw [get, dif_pos h, Bool.eq_iff_iff, decide_eq_true_iff]
  exact Word64.shiftRight_and_one_ne_zero_iff

lemma get_empty (idx : ℕ) : empty.get idx = false := by
  by_cases h : idx < 512
  · rw [get_eq_getLsbD h]
    simp [empty]
  · exact get_of_le (by omega)

lemma get_set (s : FastAllowSet) (idx j : ℕ) :
    (s.set idx).get j = true ↔ (idx = j ∧ idx < 512) ∨ s.get j = true := by
  by_cases hj : j < 512
  · by_cases hi : idx < 512
    · rw [set, dif_pos hi, get_eq_getLsbD hj, get_eq_getLsbD hj]
      by_cases hw : idx / 64 = j / 64
      · have hij : idx % 64 = j % 64 ↔ idx = j := by omega
        have hlt : j % 64 < 64 := Nat.mod_lt _ (by decide)
        simp only [hw, Vector.getElem_set_self, BitVec.getLsbD_or,
          Word64.getLsbD_one_shiftLeft, hlt, decide_true, Bool.true_and, Bool.or_eq_true,
          decide_eq_true_eq, hi, and_true]
        rw [← hij, eq_comm (b := idx % 64), or_comm]
      have hne : idx ≠ j := fun h => hw (by rw [h])
      simp only [Vector.getElem_set_ne _ _ hw, hne, false_and, false_or]
    · rw [set, dif_neg hi]
      simp [hi]
  · rw [get_of_le (by omega), get_of_le (by omega)]
    simp only [Bool.false_eq_true, or_false, false_iff, not_and]
    omega

end FastAllowSet

/-- The all-zero argument vector of `compute_fast_allow`. -/
def zeroArgs : SyscallArgs := Vector.replicate 6 0

variable (hash : UInt64) (prog : List SeccompInsn) (defaultAction : SeccompAction)

/-- The body of the loop of `compute_fast_allow`. -/
def fastAllowStep (set : FastAllowSet) (nr : ℕ) : FastAllowSet :=
  if interpretProgram prog defaultAction (UInt64.ofNat nr) zeroArgs = .allow then set.set nr
  else set

def computeFastAllow : FastAllowSet :=
  if prog.isEmpty || programReadsArgs prog then .empty
  else (List.range 512).foldl (fastAllowStep prog defaultAction) .empty

/-- The loop of `compute_fast_allow` adds the numbers it visits for which the interpreter allows
the zero arguments. -/
lemma get_foldl_fastAllowStep (nrs : List ℕ) (s : FastAllowSet) {j : ℕ} (hj : j < 512) :
    (nrs.foldl (fastAllowStep prog defaultAction) s).get j = true ↔ s.get j = true ∨
        j ∈ nrs ∧ interpretProgram prog defaultAction (UInt64.ofNat j) zeroArgs = .allow := by
  induction nrs generalizing s with
  | nil => simp
  | cons nr nrs ih =>
    rw [List.foldl_cons, ih, List.mem_cons]
    have hstep : (fastAllowStep prog defaultAction s nr).get j = true ↔ s.get j = true ∨
          j = nr ∧ interpretProgram prog defaultAction (UInt64.ofNat j) zeroArgs = .allow := by
      unfold fastAllowStep
      split_ifs with hallow
      · rw [FastAllowSet.get_set]
        constructor
        · rintro (⟨rfl, -⟩ | h)
          · exact .inr ⟨rfl, hallow⟩
          · exact .inl h
        rintro (h | ⟨rfl, -⟩)
        · exact .inr h
        · exact .inl ⟨rfl, hj⟩
      constructor
      · exact .inl
      rintro (h | ⟨rfl, h⟩)
      · exact h
      · exact absurd h hallow
    rw [hstep]
    tauto

/-- A bit of the computed bitmap means that the interpreter allows the call, whatever its
arguments. -/
lemma interpretProgram_allow_of_computeFastAllow {prog : List SeccompInsn}
    {defaultAction : SeccompAction} {nr : UInt64}
    (h : (computeFastAllow prog defaultAction).get nr.toNat = true) (args : SyscallArgs) :
    interpretProgram prog defaultAction nr args = .allow := by
  have hlt : nr.toNat < 512 := by
    by_contra hge
    rw [FastAllowSet.get_of_le (Nat.le_of_not_lt hge)] at h
    cases h
  unfold computeFastAllow at h
  split_ifs at h with hcond
  · rw [FastAllowSet.get_empty] at h
    cases h
  rw [Bool.or_eq_true, not_or] at hcond
  have hno : programReadsArgs prog = false := by simpa using hcond.2
  rw [get_foldl_fastAllowStep _ _ _ _ hlt, FastAllowSet.get_empty] at h
  rcases h with h | ⟨-, h⟩
  · cases h
  rw [UInt64.ofNat_toNat] at h
  rw [interpretProgram_args_irrelevant hno defaultAction nr args zeroArgs, h]

/-! ## The filter identifier -/

/-- `fnv_byte`: one step of the FNV-1a hash. -/
def fnvByte (byte : UInt8) : UInt64 :=
  (hash ^^^ byte.toUInt64) * 0x100000001b3

/-- `fnv_u64`: the eight bytes of a word, least significant first. -/
def fnvU64 (v : UInt64) : UInt64 :=
  (List.range 8).foldl (fun h i => fnvByte h (v >>> UInt64.ofNat (8 * i)).toUInt8) hash

/-- `fnv_i32`: the four bytes of an `i32`, least significant first. -/
def fnvI32 (v : Int32) : UInt64 :=
  (List.range 4).foldl (fun h i => fnvByte h (v.toUInt32 >>> UInt32.ofNat (8 * i)).toUInt8) hash

def hashAction : SeccompAction → UInt64
  | .allow => fnvByte hash 0
  | .log => fnvByte hash 1
  | .errno e => fnvI32 (fnvByte hash 2) e
  | .trap => fnvByte hash 3
  | .kill => fnvByte hash 4

/-- The bytes of a conditional jump: its tag, its constant and its two offsets. -/
def hashJump (tag : UInt8) (v : UInt64) (t f : UInt8) : UInt64 :=
  fnvByte (fnvByte (fnvU64 (fnvByte hash tag) v) t) f

/-- The contribution of one instruction to `compute_filter_id`. -/
def hashInsn : SeccompInsn → UInt64
  | .ldSyscallNr => fnvByte hash 0
  | .ldArg idx => fnvByte (fnvByte hash 1) idx
  | .ldConst v => fnvU64 (fnvByte hash 2) v
  | .and v => fnvU64 (fnvByte hash 3) v
  | .or v => fnvU64 (fnvByte hash 4) v
  | .shr s => fnvByte (fnvByte hash 5) s
  | .jmpEq v t f => hashJump hash 6 v t f
  | .jmpNe v t f => hashJump hash 7 v t f
  | .jmpLt v t f => hashJump hash 8 v t f
  | .jmpLe v t f => hashJump hash 9 v t f
  | .jmpGt v t f => hashJump hash 10 v t f
  | .jmpGe v t f => hashJump hash 11 v t f
  | .jmp off => fnvByte (fnvByte hash 12) off
  | .ret action => hashAction (fnvByte hash 13) action

def computeFilterId : UInt64 :=
  prog.foldl hashInsn 0xcbf29ce484222325

/-! ## Filters -/

structure SeccompFlags where
  log : Bool
  tsync : Bool
  newThreads : Bool

/-- `SeccompFilter`.  The last two fields are the guarantees of its constructors. -/
structure SeccompFilter where
  defaultAction : SeccompAction
  prog : List SeccompInsn
  fastAllow : FastAllowSet
  id : UInt64
  flags : SeccompFlags
  /-- The program was accepted by the validator under one of its limits. -/
  validated : ∃ limit, validateProgramWithLimit prog limit = .ok ()
  /-- The bitmap was computed from this program and this default action. -/
  fastAllow_eq : fastAllow = computeFastAllow prog defaultAction

namespace SeccompFilter

/-- `new_validated_from_slice`: `admitted` tells whether the heap ledger and the allocator granted
the program's backing. -/
def newValidatedFromSlice (admitted : Bool) (prog : List SeccompInsn)
    (hv : ∃ limit, validateProgramWithLimit prog limit = .ok ()) (defaultAction : SeccompAction)
    (flags : SeccompFlags) : Except SeccompError SeccompFilter :=
  if admitted then
    .ok { defaultAction, prog, fastAllow := computeFastAllow prog defaultAction,
          id := computeFilterId prog, flags, validated := hv, fastAllow_eq := rfl }
  else .error .outOfMemory

/-- The shared shape of the two constructors: validate under a limit, then build. -/
def newWithLimit (limit : ℕ) (admitted : Bool) (prog : List SeccompInsn)
    (defaultAction : SeccompAction) (flags : SeccompFlags) : Except SeccompError SeccompFilter :=
  match h : validateProgramWithLimit prog limit with
  | .error e => .error e
  | .ok () => newValidatedFromSlice admitted prog ⟨limit, h⟩ defaultAction flags

/-- `new_from_slice`: the constructor of user-supplied programs. -/
def newFromSlice : Bool → List SeccompInsn → SeccompAction → SeccompFlags →
    Except SeccompError SeccompFilter :=
  newWithLimit maxInsns

/-- `new_trusted_from_slice`: the constructor of kernel-generated programs. -/
def newTrustedFromSlice : Bool → List SeccompInsn → SeccompAction → SeccompFlags →
    Except SeccompError SeccompFilter :=
  newWithLimit maxTrustedInsns

variable (f : SeccompFilter) (nr : UInt64) (args : SyscallArgs)

def progLen : ℕ := f.prog.length

/-- `SeccompFilter::evaluate`: the bitmap first, then the interpreter. -/
def evaluate : SeccompAction :=
  if nr.toNat < 512 ∧ f.fastAllow.get nr.toNat = true then .allow
  else interpretProgram f.prog f.defaultAction nr args

/-- What the interpreter alone says about a call under this filter. -/
def interpreted : SeccompAction :=
  interpretProgram f.prog f.defaultAction nr args

/-- The fast path never changes the answer of the interpreter. -/
lemma evaluate_eq_interpreted : f.evaluate nr args = f.interpreted nr args := by
  unfold evaluate
  split_ifs with h
  · have hbit := h.2
    rw [f.fastAllow_eq] at hbit
    exact (interpretProgram_allow_of_computeFastAllow hbit args).symm
  · rfl

/-- A constructed filter holds the program and the default action it was built from. -/
lemma newValidatedFromSlice_fields {admitted : Bool} {prog : List SeccompInsn}
    {hv : ∃ limit, validateProgramWithLimit prog limit = .ok ()} {defaultAction : SeccompAction}
    {flags : SeccompFlags} {f : SeccompFilter}
    (h : newValidatedFromSlice admitted prog hv defaultAction flags = .ok f) :
    f.prog = prog ∧ f.defaultAction = defaultAction := by
  unfold newValidatedFromSlice at h
  split_ifs at h
  cases h
  exact ⟨rfl, rfl⟩

end SeccompFilter

/-- The fast path is not a second policy.  For every validated program, every default action, every
call and every argument vector, a filter built from the program answers as the interpreter alone,
and the interpreter leaves its loop, after at most `prog.length` instructions, at a `Ret` of the
program whose action is the answer; there is no other way its loop is left. -/
theorem evaluate_eq_interpretProgram_of_validated (prog : List SeccompInsn) (limit : ℕ)
    (hv : validateProgramWithLimit prog limit = .ok ()) (defaultAction : SeccompAction)
    (nr : UInt64) (args : SyscallArgs) :
    (∀ admitted flags f,
      SeccompFilter.newValidatedFromSlice admitted prog ⟨limit, hv⟩ defaultAction flags = .ok f →
        f.evaluate nr args = interpretProgram prog defaultAction nr args) ∧
    (∃ n e, Loop.Runs (interpretStep prog nr args) n ⟨0, 0⟩ e) ∧
    ∀ n e, Loop.Runs (interpretStep prog nr args) n ⟨0, 0⟩ e →
      n ≤ prog.length ∧ ∃ action, SeccompInsn.ret action ∈ prog ∧ e = .ret action ∧
        interpretProgram prog defaultAction nr args = action := by
  obtain ⟨n, action, hn, hmem, hr⟩ :=
    interpretRuns_ret (validated_of_validateProgramWithLimit hv) nr args
  refine ⟨?_, ⟨n, _, hr⟩, ?_⟩
  · intro admitted flags f hf
    obtain ⟨hprog, hdefault⟩ := SeccompFilter.newValidatedFromSlice_fields hf
    rw [f.evaluate_eq_interpreted, SeccompFilter.interpreted, hprog, hdefault]
  intro n' e' hr'
  obtain ⟨rfl, rfl⟩ := hr.unique hr'
  exact ⟨hn, action, hmem, rfl, interpretProgram_eq_of_runs hr (by omega) defaultAction⟩

/-- A whitelist program in the shape the generators emit. -/
def readOnlyProg : List SeccompInsn := [.ldSyscallNr, .jmpEq 0 0 1, .ret .allow, .ret .kill]

/-- The whitelist program is accepted and a filter is built from it; the theorem gives its answer to
`write` (number 1). -/
theorem evaluate_eq_interpretProgram_of_validated_readOnly :
    (∃ f, SeccompFilter.newValidatedFromSlice true readOnlyProg
          ⟨maxInsns, show validateProgramWithLimit readOnlyProg maxInsns = .ok () from rfl⟩
          .allow ⟨false, false, false⟩ = .ok f ∧
        f.evaluate 1 zeroArgs = interpretProgram readOnlyProg .allow 1 zeroArgs) ∧
    (∃ n e, Loop.Runs (interpretStep readOnlyProg 1 zeroArgs) n ⟨0, 0⟩ e) ∧
    ∀ n e, Loop.Runs (interpretStep readOnlyProg 1 zeroArgs) n ⟨0, 0⟩ e →
      n ≤ readOnlyProg.length ∧ ∃ action, SeccompInsn.ret action ∈ readOnlyProg ∧
        e = .ret action ∧ interpretProgram readOnlyProg .allow 1 zeroArgs = action := by
  obtain ⟨hfilter, hruns⟩ :=
    evaluate_eq_interpretProgram_of_validated readOnlyProg maxInsns rfl .allow 1 zeroArgs
  exact ⟨⟨_, rfl, hfilter true _ _ rfl⟩, hruns⟩

end Nilix.Seccomp
