import Nilix.Foundation.Loop

/-!
# The seccomp instruction set, its interpreter and its validator

`kernel/seccomp/types.rs`: the actions and their severity, the BPF-like instruction set, the
`while` loop of `interpret_program` (`interpretStep` is one iteration, `interpretProgram` the whole
loop) and `validate_program_with_limit`.

The exit of the loop is kept apart from the action it yields (`InterpExit`), because the properties
of interest are about *how* the interpreter leaves: through a `Ret`, by falling off the program into
the default action, or through one of the two fail-closed `Trap` escapes.
-/

namespace Nilix.Seccomp

inductive SeccompAction where
  | allow
  | log
  | errno (code : Int32)
  | trap
  | kill
  deriving DecidableEq

namespace SeccompAction

/-- `SeccompAction::severity`: higher is more restrictive. -/
def severity : SeccompAction → ℕ
  | allow => 0
  | log => 1
  | errno _ => 2
  | trap => 3
  | kill => 4

def moreRestrictiveThan (a b : SeccompAction) : Bool :=
  decide (b.severity < a.severity)

/-- Nothing is more restrictive than `Kill`. -/
lemma severity_le_kill (a : SeccompAction) : a.severity ≤ kill.severity := by
  cases a <;> simp [severity]

/-- Only `Allow` has the least severity. -/
lemma severity_eq_zero_iff {a : SeccompAction} : a.severity = 0 ↔ a = allow := by
  cases a <;> simp [severity]

end SeccompAction

/-- `SeccompInsn`: the accumulator machine, with forward jumps relative to the next instruction. -/
inductive SeccompInsn where
  | ldSyscallNr
  | ldArg (idx : UInt8)
  | ldConst (val : UInt64)
  | and (val : UInt64)
  | or (val : UInt64)
  | shr (shift : UInt8)
  | jmpEq (val : UInt64) (t f : UInt8)
  | jmpNe (val : UInt64) (t f : UInt8)
  | jmpLt (val : UInt64) (t f : UInt8)
  | jmpLe (val : UInt64) (t f : UInt8)
  | jmpGt (val : UInt64) (t f : UInt8)
  | jmpGe (val : UInt64) (t f : UInt8)
  | jmp (offset : UInt8)
  | ret (action : SeccompAction)

/-- `MAX_INSNS`: the bound on untrusted programs. -/
def maxInsns : ℕ := 64

/-- `MAX_TRUSTED_INSNS`: the bound on kernel-generated programs. -/
def maxTrustedInsns : ℕ := 256

/-- `MAX_FILTER_INSNS_TOTAL`: the bound on the instructions of one process's whole chain. -/
def maxFilterInsnsTotal : ℕ := maxInsns * 32

/-- The argument vector of a system call, `[u64; 6]`. -/
abbrev SyscallArgs := Vector UInt64 6

/-! ## The interpreter -/

/-- The two variables of the interpreter loop. -/
structure Regs where
  acc : UInt64
  pc : ℕ

/-- How the interpreter loop is left: a `Ret`, the end of the program, a jump that lands outside
of the program, or a shift by at least the word width. -/
inductive InterpExit where
  | ret (action : SeccompAction)
  | fellThrough
  | jumpEscape
  | shiftEscape

/-- The action an exit yields. -/
def InterpExit.action (defaultAction : SeccompAction) : InterpExit → SeccompAction
  | ret a => a
  | fellThrough => defaultAction
  | jumpEscape => .trap
  | shiftEscape => .trap

variable (prog : List SeccompInsn)

/-- The common tail of the jump instructions: leave with `Trap` when the new program counter is
outside of the program. -/
def jumpTo (acc : UInt64) (pc : ℕ) : Iter Regs InterpExit :=
  if prog.length ≤ pc then .done .jumpEscape else .next ⟨acc, pc⟩

/-- One iteration of the loop of `interpret_program`. -/
def interpretStep (nr : UInt64) (args : SyscallArgs) (s : Regs) : Iter Regs InterpExit :=
  match prog[s.pc]? with
  -- the loop condition `pc < prog.len()` fails
  | none => .done .fellThrough
  | some .ldSyscallNr => .next ⟨nr, s.pc + 1⟩
  | some (.ldArg idx) =>
    .next ⟨if h : idx.toNat < 6 then args.get ⟨idx.toNat, h⟩ else 0, s.pc + 1⟩
  | some (.ldConst val) => .next ⟨val, s.pc + 1⟩
  | some (.and val) => .next ⟨s.acc &&& val, s.pc + 1⟩
  | some (.or val) => .next ⟨s.acc ||| val, s.pc + 1⟩
  -- `checked_shr` is `None` from the word width on
  | some (.shr shift) =>
    if shift.toNat < 64 then .next ⟨s.acc >>> shift.toUInt64, s.pc + 1⟩ else .done .shiftEscape
  | some (.jmpEq val t f) =>
    jumpTo prog s.acc (s.pc + (1 + if s.acc = val then t.toNat else f.toNat))
  | some (.jmpNe val t f) =>
    jumpTo prog s.acc (s.pc + (1 + if s.acc ≠ val then t.toNat else f.toNat))
  | some (.jmpLt val t f) =>
    jumpTo prog s.acc (s.pc + (1 + if s.acc < val then t.toNat else f.toNat))
  | some (.jmpLe val t f) =>
    jumpTo prog s.acc (s.pc + (1 + if s.acc ≤ val then t.toNat else f.toNat))
  | some (.jmpGt val t f) =>
    jumpTo prog s.acc (s.pc + (1 + if s.acc > val then t.toNat else f.toNat))
  | some (.jmpGe val t f) =>
    jumpTo prog s.acc (s.pc + (1 + if s.acc ≥ val then t.toNat else f.toNat))
  | some (.jmp offset) => jumpTo prog s.acc (s.pc + (1 + offset.toNat))
  | some (.ret action) => .done (.ret action)

/-- `interpret_program`.  Every iteration moves the program counter forward, so the loop is left
within `prog.length + 1` iterations whatever the program (`interpretRuns_total`); the fuel is never
exhausted. -/
def interpretProgram (defaultAction : SeccompAction) (nr : UInt64) (args : SyscallArgs) :
    SeccompAction :=
  match Loop.run (interpretStep prog nr args) (prog.length + 1) ⟨0, 0⟩ with
  | some e => e.action defaultAction
  | none => defaultAction

def programReadsArgs : Bool :=
  prog.any fun insn => match insn with
    | .ldArg _ => true
    | _ => false

/-! ## The validator -/

/-- `SeccompError`, as far as filter construction raises it. -/
inductive SeccompError where
  | programTooLong
  | invalidInstruction
  | invalidJump
  | noTerminator
  | invalidArgIndex
  | outOfMemory

/-- The check of one instruction at index `i` in the loop of `validate_program_with_limit`. -/
def validateInsn (len i : ℕ) : SeccompInsn → Except SeccompError Unit
  | .ldArg idx => if 6 ≤ idx.toNat then .error .invalidArgIndex else .ok ()
  | .shr shift => if 64 ≤ shift.toNat then .error .invalidInstruction else .ok ()
  | .jmpEq _ t f | .jmpNe _ t f | .jmpLt _ t f | .jmpLe _ t f | .jmpGt _ t f | .jmpGe _ t f =>
    if len ≤ i + 1 + t.toNat ∨ len ≤ i + 1 + f.toNat then .error .invalidJump else .ok ()
  | .jmp offset => if len ≤ i + 1 + offset.toNat then .error .invalidJump else .ok ()
  | _ => .ok ()

/-- The instruction loop of `validate_program_with_limit`, from index `i` on. -/
def validateInsns (len : ℕ) : ℕ → List SeccompInsn → Except SeccompError Unit
  | _, [] => .ok ()
  | i, insn :: rest => do
    validateInsn len i insn
    validateInsns len (i + 1) rest

/-- The terminator test: the last instruction is a `Ret`. -/
def endsInRet : Bool :=
  match prog.getLast? with
  | some (.ret _) => true
  | _ => false

def validateProgramWithLimit (limit : ℕ) : Except SeccompError Unit :=
  if prog.isEmpty then .error .noTerminator
  else if limit < prog.length then .error .programTooLong
  else do
    validateInsns prog.length 0 prog
    if endsInRet prog then .ok () else .error .noTerminator

def validateProgram : Except SeccompError Unit :=
  validateProgramWithLimit prog maxInsns

/-- An accepted instruction list passes the check of each of its instructions. -/
lemma validateInsn_of_validateInsns {len i : ℕ} {prog : List SeccompInsn}
    (h : validateInsns len i prog = .ok ()) {j : ℕ} {insn : SeccompInsn}
    (hj : prog[j]? = some insn) : validateInsn len (i + j) insn = .ok () := by
  induction prog generalizing i j with
  | nil => simp at hj
  | cons head rest ih =>
    rw [validateInsns] at h
    cases hv : validateInsn len i head with
    | error => rw [hv] at h; cases h
    | ok =>
      rw [hv] at h
      cases j with
      | zero =>
        obtain rfl : head = insn := by simpa using hj
        exact hv
      | succ j =>
        have hstep : validateInsn len (i + 1 + j) insn = .ok () := ih h (by simpa using hj)
        rwa [add_assoc, add_comm 1 j] at hstep

/-- What an accepted program guarantees, in the form the proofs about the interpreter use. -/
structure Validated (prog : List SeccompInsn) : Prop where
  /-- Each instruction passed its own check. -/
  insn : ∀ i insn, prog[i]? = some insn → validateInsn prog.length i insn = .ok ()
  /-- The last instruction is a `Ret`. -/
  terminator : ∃ action, prog.getLast? = some (.ret action)

/-- Acceptance by the validator gives the guarantees, for every limit. -/
lemma validated_of_validateProgramWithLimit {prog : List SeccompInsn} {limit : ℕ}
    (h : validateProgramWithLimit prog limit = .ok ()) : Validated prog := by
  unfold validateProgramWithLimit at h
  split at h
  · cases h
  split at h
  · cases h
  cases hv : validateInsns prog.length 0 prog with
  | error => rw [hv] at h; cases h
  | ok =>
    rw [hv] at h
    refine ⟨fun i insn hi => by simpa using validateInsn_of_validateInsns hv hi, ?_⟩
    have hend : endsInRet prog = true := by
      by_contra hne
      rw [if_neg hne] at h
      cases h
    unfold endsInRet at hend
    split at hend
    · rename_i action hlast
      exact ⟨action, hlast⟩
    · cases hend

/-! ## How a validated program leaves the loop -/

variable {prog : List SeccompInsn}

/-- A jump either escapes or moves to the requested index inside of the program. -/
lemma jumpTo_next_iff {acc : UInt64} {pc : ℕ} {s' : Regs} :
    jumpTo prog acc pc = .next s' ↔ pc < prog.length ∧ s' = ⟨acc, pc⟩ := by
  unfold jumpTo
  split
  · simp; omega
  simp only [Iter.next.injEq]
  constructor
  · rintro rfl; exact ⟨by omega, rfl⟩
  · rintro ⟨-, rfl⟩; rfl

/-- Every iteration that continues moves the program counter forward, to at most one past the end
of the program. -/
lemma interpretStep_next_pc {nr : UInt64} {args : SyscallArgs} {s s' : Regs}
    (h : interpretStep prog nr args s = .next s') :
    s.pc < prog.length ∧ s.pc < s'.pc ∧ s'.pc ≤ prog.length := by
  unfold interpretStep at h
  split at h
  case h_1 => cases h
  all_goals
    rename_i hget
    have hlt : s.pc < prog.length := (List.getElem?_eq_some_iff.mp hget).1
  case h_7 =>
    split at h
    · cases h
      exact ⟨hlt, by simp, hlt⟩
    · cases h
  case h_15 => cases h
  case h_2 | h_3 | h_4 | h_5 | h_6 =>
    cases h
    exact ⟨hlt, by simp, hlt⟩
  all_goals
    obtain ⟨hin, rfl⟩ := jumpTo_next_iff.mp h
    exact ⟨hlt, by simp only; omega, hin.le⟩

/-- The loop is left within `prog.length + 1` iterations, for every program. -/
lemma interpretRuns_total (prog : List SeccompInsn) (nr : UInt64) (args : SyscallArgs) :
    ∃ n e, n ≤ prog.length + 1 ∧ Loop.Runs (interpretStep prog nr args) n ⟨0, 0⟩ e := by
  obtain ⟨n, e, hn, hr, -⟩ := Loop.Runs.of_measure (interpretStep prog nr args)
    (fun _ => True) (fun _ => True) (fun s => prog.length - s.pc)
    (fun s s' _ h => ⟨trivial, by have := interpretStep_next_pc h; omega⟩)
    (fun _ _ _ _ => trivial) (s := ⟨0, 0⟩) trivial
  exact ⟨n, e, by simpa using hn, hr⟩

/-- `interpretProgram` yields the action of the exit its loop takes. -/
lemma interpretProgram_eq_of_runs {nr : UInt64} {args : SyscallArgs} {n : ℕ} {e : InterpExit}
    (hr : Loop.Runs (interpretStep prog nr args) n ⟨0, 0⟩ e) (hn : n ≤ prog.length + 1)
    (defaultAction : SeccompAction) :
    interpretProgram prog defaultAction nr args = e.action defaultAction := by
  unfold interpretProgram
  rw [hr.run_eq_some hn]

/-- The accumulator tests of the conditional jumps, as one family: a validated conditional jump
lands inside of the program on either side. -/
lemma branch_lt_of_validated {len i : ℕ} {t f : UInt8} {c : Prop} [Decidable c]
    (h : ¬ (len ≤ i + 1 + t.toNat ∨ len ≤ i + 1 + f.toNat)) :
    i + (1 + if c then t.toNat else f.toNat) < len := by
  split <;> omega

/-- In a validated program an iteration inside of the program stays inside or leaves at a `Ret`:
neither `Trap` escape is taken, and the last instruction does not fall through. -/
lemma interpretStep_validated (hv : Validated prog) (nr : UInt64) (args : SyscallArgs)
    {s : Regs} (hs : s.pc < prog.length) :
    (∃ s', interpretStep prog nr args s = .next s' ∧ s'.pc < prog.length) ∨
      ∃ action, prog[s.pc]? = some (.ret action) ∧
        interpretStep prog nr args s = .done (.ret action) := by
  obtain ⟨insn, hget⟩ : ∃ insn, prog[s.pc]? = some insn := ⟨_, List.getElem?_eq_getElem hs⟩
  have hcheck := hv.insn s.pc insn hget
  -- the last instruction is a `Ret`, so any other instruction has a successor
  have hsucc : (∀ action, insn ≠ .ret action) → s.pc + 1 < prog.length := by
    intro hne
    by_contra hlast
    obtain ⟨action, hret⟩ := hv.terminator
    rw [List.getLast?_eq_getElem?, show prog.length - 1 = s.pc by omega, hget] at hret
    exact hne action (Option.some.inj hret)
  have hjump : ∀ {acc : UInt64} {pc : ℕ}, pc < prog.length →
      ∃ s', jumpTo prog acc pc = .next s' ∧ s'.pc < prog.length :=
    fun hpc => ⟨_, jumpTo_next_iff.mpr ⟨hpc, rfl⟩, hpc⟩
  cases insn with
  | ret action => exact .inr ⟨action, hget, by simp [interpretStep, hget]⟩
  | shr shift =>
    have hlt : shift.toNat < 64 := by
      by_contra hge
      simp [validateInsn, Nat.le_of_not_lt hge] at hcheck
    exact .inl ⟨_, by simp only [interpretStep, hget, hlt, if_true]; rfl, hsucc (by simp)⟩
  | jmp offset =>
    have hlt : ¬ prog.length ≤ s.pc + 1 + offset.toNat := by
      intro hge
      simp [validateInsn, hge] at hcheck
    simp only [interpretStep, hget]
    exact .inl (hjump (by omega))
  | jmpEq val t f | jmpNe val t f | jmpLt val t f | jmpLe val t f | jmpGt val t f | jmpGe val t f =>
    have hlt : ¬ (prog.length ≤ s.pc + 1 + t.toNat ∨ prog.length ≤ s.pc + 1 + f.toNat) := by
      intro hge
      simp [validateInsn, hge] at hcheck
    simp only [interpretStep, hget]
    exact .inl (hjump (branch_lt_of_validated hlt))
  | ldSyscallNr | ldArg idx | ldConst val | and val | or val =>
    exact .inl ⟨_, by simp only [interpretStep, hget]; rfl, hsucc (by simp)⟩

/-- A validated program leaves the interpreter at a `Ret` instruction of the program, after at
most `prog.length` instructions. -/
lemma interpretRuns_ret (hv : Validated prog) (nr : UInt64) (args : SyscallArgs) :
    ∃ n action, n ≤ prog.length ∧ SeccompInsn.ret action ∈ prog ∧
      Loop.Runs (interpretStep prog nr args) n ⟨0, 0⟩ (.ret action) := by
  have hpos : 0 < prog.length := by
    obtain ⟨action, hlast⟩ := hv.terminator
    exact List.length_pos_iff.mpr (by rintro rfl; simp at hlast)
  -- the invariant "inside of the program" makes `prog.length - 1 - pc` a measure, which saves the
  -- one iteration that would find the program counter past the end
  obtain ⟨n, e, hn, hr, action, hmem, rfl⟩ := Loop.Runs.of_measure (interpretStep prog nr args)
    (fun s => s.pc < prog.length)
    (fun e => ∃ action, SeccompInsn.ret action ∈ prog ∧ e = .ret action)
    (fun s => prog.length - 1 - s.pc) (s := ⟨0, 0⟩)
    (by
      intro s s' hs hnext
      have hpc := interpretStep_next_pc hnext
      rcases interpretStep_validated hv nr args hs with ⟨s'', h, hs''⟩ | ⟨action, -, h⟩
      · obtain rfl : s'' = s' := by simpa [h] using hnext
        exact ⟨hs'', by omega⟩
      · simp [h] at hnext)
    (by
      intro s r hs hdone
      rcases interpretStep_validated hv nr args hs with ⟨s'', h, -⟩ | ⟨action, hget, h⟩
      · simp [h] at hdone
      · exact ⟨action, List.mem_of_getElem? hget, by simpa [h] using hdone.symm⟩)
    (show (0 : ℕ) < prog.length from hpos)
  exact ⟨n, action, by simp only at hn; omega, hmem, hr⟩

/-! ## Argument independence -/

/-- An iteration at an instruction other than `LdArg` does not look at the arguments. -/
lemma interpretStep_args_irrelevant (hno : programReadsArgs prog = false) (nr : UInt64)
    (args args' : SyscallArgs) (s : Regs) :
    interpretStep prog nr args s = interpretStep prog nr args' s := by
  unfold interpretStep
  cases hget : prog[s.pc]? with
  | none => rfl
  | some insn =>
    cases insn with
    | ldArg =>
      have hmem := List.mem_of_getElem? hget
      simp only [programReadsArgs, List.any_eq_false] at hno
      exact absurd rfl (hno _ hmem)
    | _ => rfl

/-- A program that reads no argument yields the same action for all argument vectors.  The two runs
are in lock step with equal registers. -/
lemma interpretProgram_args_irrelevant (hno : programReadsArgs prog = false)
    (defaultAction : SeccompAction) (nr : UInt64) (args args' : SyscallArgs) :
    interpretProgram prog defaultAction nr args = interpretProgram prog defaultAction nr args' := by
  obtain ⟨n, e, hn, hr⟩ := interpretRuns_total prog nr args
  obtain ⟨e', hr', rfl⟩ := hr.simulate (interpretStep prog nr args') Eq Eq
    (by rintro s _ s' rfl h
        exact ⟨s', interpretStep_args_irrelevant hno nr args args' s ▸ h, rfl⟩)
    (by rintro s _ r rfl h
        exact ⟨r, interpretStep_args_irrelevant hno nr args args' s ▸ h, rfl⟩) rfl
  rw [interpretProgram_eq_of_runs hr hn, interpretProgram_eq_of_runs hr' hn]

end Nilix.Seccomp
