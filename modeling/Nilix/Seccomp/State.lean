import Nilix.Mm.AdmittedVec
import Nilix.Seccomp.Filter

/-!
# Seccomp filter chains

`kernel/seccomp/types.rs`, `SeccompState`: the chain of installed filters of a process, its
evaluation with the early exit on `Kill`, installation (`add_filter`) and the copy made at `fork`
(`try_clone`).

`mostSevere` is the specification of a chain: the first action of greatest severity.  Evaluation
computes it, so that chains reduce to `mostSevere` and list append.  `Built` collects the states that
installations and copies produce from the empty state.
-/

namespace Nilix.Seccomp

open List

/-! ## The most severe of a list of actions -/

/-- The more severe of two actions, the earlier one on a tie. -/
def moreSevere (a b : SeccompAction) : SeccompAction :=
  if b.moreRestrictiveThan a then b else a

/-- The first action of greatest severity in a list, `Allow` when the list is empty. -/
def mostSevere (actions : List SeccompAction) : SeccompAction :=
  actions.foldl moreSevere .allow

lemma severity_moreSevere (a b : SeccompAction) :
    (moreSevere a b).severity = max a.severity b.severity := by
  unfold moreSevere SeccompAction.moreRestrictiveThan
  simp only [decide_eq_true_eq]
  split_ifs with h
  · exact (max_eq_right h.le).symm
  · exact (max_eq_left (Nat.le_of_not_lt h)).symm

variable (actions : List SeccompAction)

/-- A fold of `moreSevere` is at least as severe as its start and each of its actions. -/
lemma severity_le_foldl_moreSevere (a : SeccompAction) :
    a.severity ≤ (actions.foldl moreSevere a).severity ∧
      ∀ b ∈ actions, b.severity ≤ (actions.foldl moreSevere a).severity := by
  induction actions generalizing a with
  | nil => simp
  | cons c rest ih =>
    have hstep := ih (moreSevere a c)
    rw [severity_moreSevere] at hstep
    refine ⟨le_trans (le_max_left _ _) hstep.1, ?_⟩
    intro b hb
    rcases mem_cons.mp hb with rfl | hb
    · exact le_trans (le_max_right _ _) hstep.1
    · exact hstep.2 b hb

/-- A fold of `moreSevere` is its start or one of its actions. -/
lemma foldl_moreSevere_mem (a : SeccompAction) :
    actions.foldl moreSevere a = a ∨ actions.foldl moreSevere a ∈ actions := by
  induction actions generalizing a with
  | nil => exact .inl rfl
  | cons c rest ih =>
    rw [foldl_cons]
    rcases ih (moreSevere a c) with h | h
    · rw [h]
      unfold moreSevere
      split_ifs
      · exact .inr mem_cons_self
      · exact .inl rfl
    · exact .inr (mem_cons_of_mem _ h)

lemma severity_le_mostSevere {actions : List SeccompAction} {a : SeccompAction}
    (h : a ∈ actions) : a.severity ≤ (mostSevere actions).severity :=
  (severity_le_foldl_moreSevere actions .allow).2 a h

lemma mostSevere_mem {actions : List SeccompAction} (h : actions ≠ []) :
    mostSevere actions ∈ actions := by
  rcases foldl_moreSevere_mem actions .allow with hallow | hmem
  · obtain ⟨a, ha⟩ := exists_mem_of_ne_nil actions h
    have hle := severity_le_mostSevere ha
    have heq : mostSevere actions = .allow := hallow
    rw [heq] at hle ⊢
    have hzero : a.severity = 0 := Nat.le_zero.mp hle
    exact SeccompAction.severity_eq_zero_iff.mp hzero ▸ ha
  · exact hmem

lemma severity_mostSevere_le_append (more : List SeccompAction) :
    (mostSevere actions).severity ≤ (mostSevere (actions ++ more)).severity := by
  unfold mostSevere
  rw [foldl_append]
  exact (severity_le_foldl_moreSevere more _).1

/-! ## The state of a process -/

structure SeccompVerdict where
  action : SeccompAction
  filterId : UInt64

def SeccompVerdict.allow : SeccompVerdict := ⟨.allow, 0⟩

structure SeccompState where
  filters : AdmittedVec SeccompFilter
  noNewPrivs : Bool
  logViolations : Bool

namespace SeccompState

def new : SeccompState := ⟨.new, false, false⟩

variable (s : SeccompState) (nr : UInt64) (args : SyscallArgs) (result : SeccompVerdict)

/-- The body of the evaluation loop: keep the verdict, or replace it by a more restrictive one. -/
def evaluateStep (f : SeccompFilter) : SeccompVerdict :=
  if (f.evaluate nr args).moreRestrictiveThan result.action then ⟨f.evaluate nr args, f.id⟩
  else result

/-- The evaluation loop, with the early exit on `Kill`. -/
def evaluateFrom (nr : UInt64) (args : SyscallArgs) :
    SeccompVerdict → List SeccompFilter → SeccompVerdict
  | result, [] => result
  | result, f :: fs =>
    let result' := evaluateStep nr args result f
    if result'.action = .kill then result' else evaluateFrom nr args result' fs

def evaluate : SeccompVerdict :=
  evaluateFrom nr args .allow s.filters.values

/-- The loop of `evaluate` without its early exit. -/
def evaluateAll : SeccompVerdict :=
  s.filters.values.foldl (evaluateStep nr args) .allow

/-- The sum of the program lengths of the chain. -/
def totalInsns : ℕ := (s.filters.values.map SeccompFilter.progLen).sum

/-- The environment of one `add_filter`: the answers of the heap to the growth of the chain and to
the allocation of the filter's `Arc`, and of the ledger to the conversion of the reservation. -/
structure AddEnv where
  grant : Grant
  arcOk : Bool
  committed : Bool

/-- `SeccompState::add_filter`: whether it succeeded, and the state it leaves. -/
def addFilter (env : AddEnv) (f : SeccompFilter) : Bool × SeccompState :=
  if maxFilterInsnsTotal < saturatingAdd s.totalInsns f.progLen then (false, s)
  else match s.filters.prepareCapacityFor env.grant 1 with
    | none => (false, s)
    | some prepared =>
      if env.arcOk then
        match s.filters.installIfPrepared env.committed prepared with
        | none => (false, s)
        | some filters => match filters.pushReserved f with
          | none => (false, { s with filters := filters })
          | some filters' => (true, { s with filters := filters' })
      else (false, s)

def tryClone (grant : Grant) (committed : Bool) : Option SeccompState :=
  (AdmittedVec.tryCopyFromSlice grant committed s.filters.values).map fun filters =>
    { s with filters := filters }

/-- What the interpreter says about a call, filter by filter. -/
def interpreted (s : SeccompState) (nr : UInt64) (args : SyscallArgs) : List SeccompAction :=
  s.filters.values.map fun f => f.interpreted nr args

/-! ## Evaluation computes the most severe action -/

/-- The action of one loop step is the more severe of the verdict so far and the filter's
interpreted action. -/
lemma action_evaluateStep (f : SeccompFilter) :
    (evaluateStep nr args result f).action = moreSevere result.action (f.interpreted nr args) := by
  unfold evaluateStep moreSevere
  rw [f.evaluate_eq_interpreted]
  split_ifs <;> rfl

/-- After a `Kill` verdict the remaining filters change nothing, not even the filter named. -/
lemma foldl_evaluateStep_kill {nr : UInt64} {args : SyscallArgs} {result : SeccompVerdict}
    (hkill : result.action = .kill) (fs : List SeccompFilter) :
    fs.foldl (evaluateStep nr args) result = result := by
  induction fs with
  | nil => rfl
  | cons f fs ih =>
    have hstep : evaluateStep nr args result f = result := by
      unfold evaluateStep SeccompAction.moreRestrictiveThan
      rw [if_neg]
      simpa [hkill] using (f.evaluate nr args).severity_le_kill
    rw [foldl_cons, hstep, ih]

/-- The early exit does not change the verdict of the loop. -/
lemma evaluateFrom_eq_foldl (fs : List SeccompFilter) :
    evaluateFrom nr args result fs = fs.foldl (evaluateStep nr args) result := by
  induction fs generalizing result with
  | nil => rfl
  | cons f fs ih =>
    rw [evaluateFrom, foldl_cons]
    by_cases hkill : (evaluateStep nr args result f).action = .kill
    · simp only [hkill, if_true]
      exact (foldl_evaluateStep_kill hkill fs).symm
    simp only [hkill, if_false]
    exact ih _

variable (s : SeccompState)

/-- `evaluate` agrees with the loop without its early exit. -/
lemma evaluate_eq_evaluateAll : s.evaluate nr args = s.evaluateAll nr args :=
  evaluateFrom_eq_foldl nr args .allow s.filters.values

/-- The action of the evaluation fold is the fold of `moreSevere` over the interpreted actions. -/
lemma action_foldl_evaluateStep (fs : List SeccompFilter) :
    (fs.foldl (evaluateStep nr args) result).action =
      (fs.map fun f => f.interpreted nr args).foldl moreSevere result.action := by
  induction fs generalizing result with
  | nil => rfl
  | cons f fs ih => rw [foldl_cons, ih, map_cons, foldl_cons, action_evaluateStep]

/-- Evaluation yields the most severe of the interpreted actions. -/
lemma evaluate_action_eq_mostSevere :
    (s.evaluate nr args).action = mostSevere (s.interpreted nr args) := by
  rw [evaluate_eq_evaluateAll, evaluateAll, action_foldl_evaluateStep]
  rfl

lemma evaluate_congr {s s' : SeccompState} (h : s'.filters.values = s.filters.values)
    (nr : UInt64) (args : SyscallArgs) : s'.evaluate nr args = s.evaluate nr args := by
  unfold evaluate
  rw [h]

/-! ## Installation and copies -/

/-- What an installation can do: append the filter within the instruction budget, or leave the
chain as it was. -/
lemma addFilter_cases (env : AddEnv) (f : SeccompFilter) : ((s.addFilter env f).1 = true ∧
        (s.addFilter env f).2.filters.values = s.filters.values ++ [f] ∧
        saturatingAdd s.totalInsns f.progLen ≤ maxFilterInsnsTotal) ∨
      ((s.addFilter env f).1 = false ∧
        (s.addFilter env f).2.filters.values = s.filters.values) := by
  unfold addFilter
  split
  · exact .inr ⟨rfl, rfl⟩
  rename_i hover
  split
  · exact .inr ⟨rfl, rfl⟩
  split
  · split
    · exact .inr ⟨rfl, rfl⟩
    · rename_i filters hinst
      have hvalues := AdmittedVec.installIfPrepared_values hinst
      split
      · exact .inr ⟨rfl, hvalues⟩
      rename_i filters' hpush
      refine .inl ⟨rfl, ?_, Nat.le_of_not_lt hover⟩
      rw [← hvalues]
      exact BoundedVec.push?_values hpush
  · exact .inr ⟨rfl, rfl⟩

lemma tryClone_filters {s c : SeccompState} {grant : Grant} {committed : Bool}
    (h : s.tryClone grant committed = some c) : c.filters.values = s.filters.values := by
  obtain ⟨filters, hf, rfl⟩ := Option.map_eq_some_iff.mp h
  exact AdmittedVec.tryCopyFromSlice_values hf

/-- The states that installations (successful or not) and copies produce from the empty state. -/
inductive Built : SeccompState → Prop
  | new : Built SeccompState.new
  | addFilter {s : SeccompState} (env : AddEnv) (f : SeccompFilter) (h : Built s) :
      Built (s.addFilter env f).2
  | tryClone {s c : SeccompState} (grant : Grant) (committed : Bool) (h : Built s)
      (hc : s.tryClone grant committed = some c) : Built c

/-- The instruction total of a built state is within the chain budget. -/
lemma Built.totalInsns_le {s : SeccompState} (h : Built s) :
    s.totalInsns ≤ maxFilterInsnsTotal := by
  induction h with
  | new => exact Nat.zero_le _
  | @addFilter s env f _ ih =>
    rcases s.addFilter_cases env f with ⟨-, hvalues, hle⟩ | ⟨-, hvalues⟩
    · have hsum : s.totalInsns + f.progLen ≤ maxFilterInsnsTotal := by
        rcases min_le_iff.mp hle with h | h
        · exact h
        · exact absurd h (by decide)
      have htotal : (s.addFilter env f).2.totalInsns = s.totalInsns + f.progLen := by
        unfold totalInsns
        rw [hvalues]
        simp
      exact htotal ▸ hsum
    · unfold totalInsns
      rw [hvalues]
      exact ih
  | tryClone grant committed _ hc ih =>
    unfold totalInsns
    rw [tryClone_filters hc]
    exact ih

lemma severity_evaluate_le_addFilter (env : AddEnv) (f : SeccompFilter) (nr : UInt64)
    (args : SyscallArgs) :
    (s.evaluate nr args).action.severity ≤
      ((s.addFilter env f).2.evaluate nr args).action.severity := by
  rcases s.addFilter_cases env f with ⟨-, hvalues, -⟩ | ⟨-, hvalues⟩
  · rw [evaluate_action_eq_mostSevere, evaluate_action_eq_mostSevere]
    unfold interpreted
    rw [hvalues, map_append]
    exact severity_mostSevere_le_append _ _
  · rw [evaluate_congr hvalues]

lemma evaluate_addFilter_of_failed {s : SeccompState} {env : AddEnv} {f : SeccompFilter}
    (h : (s.addFilter env f).1 = false) (nr : UInt64) (args : SyscallArgs) :
    (s.addFilter env f).2.evaluate nr args = s.evaluate nr args := by
  rcases s.addFilter_cases env f with ⟨hok, -⟩ | ⟨-, hvalues⟩
  · rw [hok] at h
    cases h
  · exact evaluate_congr hvalues nr args

/-- Seccomp chains only tighten.  In every built state, evaluation yields an action of greatest
severity among the interpreted results of the installed filters (`Allow` for the empty chain), with
or without the early exit; an installation in the state or in a copy of it never makes an answer
less severe; the chain stays within the instruction budget; and a failed installation leaves every
verdict as it was. -/
theorem Built.chain_only_tightens {s : SeccompState} (h : Built s) (nr : UInt64)
    (args : SyscallArgs) :
    (s.filters.values = [] → (s.evaluate nr args).action = .allow) ∧
    (s.filters.values ≠ [] →
      ∃ f ∈ s.filters.values, (s.evaluate nr args).action =
        interpretProgram f.prog f.defaultAction nr args) ∧
    (∀ f ∈ s.filters.values,
      (interpretProgram f.prog f.defaultAction nr args).severity ≤
        (s.evaluate nr args).action.severity) ∧
    s.evaluate nr args = s.evaluateAll nr args ∧
    (∀ env f, (s.evaluate nr args).action.severity ≤
      ((s.addFilter env f).2.evaluate nr args).action.severity) ∧
    (∀ grant committed c env f, s.tryClone grant committed = some c →
      c.evaluate nr args = s.evaluate nr args ∧
      (s.evaluate nr args).action.severity ≤
        ((c.addFilter env f).2.evaluate nr args).action.severity) ∧
    s.totalInsns ≤ maxFilterInsnsTotal ∧
    ∀ env f, (s.addFilter env f).1 = false →
      (s.addFilter env f).2.evaluate nr args = s.evaluate nr args := by
  have hmost := s.evaluate_action_eq_mostSevere nr args
  refine ⟨?_, ?_, ?_, s.evaluate_eq_evaluateAll nr args, ?_, ?_, h.totalInsns_le, ?_⟩
  · intro hnil
    rw [hmost, interpreted, hnil]
    rfl
  · intro hne
    have hmem : mostSevere (s.interpreted nr args) ∈ s.interpreted nr args :=
      mostSevere_mem (by simpa [interpreted] using hne)
    obtain ⟨f, hf, heq⟩ := mem_map.mp hmem
    exact ⟨f, hf, by rw [hmost, ← heq]; rfl⟩
  · intro f hf
    rw [hmost]
    exact severity_le_mostSevere (mem_map.mpr ⟨f, hf, rfl⟩)
  · exact fun env f => s.severity_evaluate_le_addFilter env f nr args
  · intro grant committed c env f hc
    have hsame := evaluate_congr (tryClone_filters hc) nr args
    refine ⟨hsame, ?_⟩
    rw [← hsame]
    exact c.severity_evaluate_le_addFilter env f nr args
  · exact fun env f hfail => evaluate_addFilter_of_failed hfail nr args

/-- The filter built from a validated program. -/
def filterOf (prog : List SeccompInsn)
    (hv : ∃ limit, validateProgramWithLimit prog limit = .ok ()) : SeccompFilter where
  defaultAction := .allow
  prog := prog
  fastAllow := computeFastAllow prog .allow
  id := computeFilterId prog
  flags := ⟨false, false, false⟩
  validated := hv
  fastAllow_eq := rfl

/-- The filter of the whitelist program, and one that logs every call. -/
def readOnlyFilter : SeccompFilter := filterOf readOnlyProg ⟨maxInsns, rfl⟩

@[inherit_doc readOnlyFilter]
def logFilter : SeccompFilter := filterOf [.ret .log] ⟨maxInsns, rfl⟩

/-- An environment in which every request of an installation is granted. -/
def AddEnv.granting : AddEnv := ⟨fun target => some ⟨target, le_rfl⟩, true, true⟩

/-- The state after the installation of the whitelist filter in the empty state, and of the other one
after it. -/
def readOnlyState : SeccompState := (SeccompState.new.addFilter .granting readOnlyFilter).2

@[inherit_doc readOnlyState]
def loggedState : SeccompState := (readOnlyState.addFilter .granting logFilter).2

/-- The whitelist filter answers `write` (number 1) with `kill` and the other one with `log`; the answer
of the chain is one of the two and at least as severe as each. -/
theorem Built.chain_only_tightens_logged :
    Built loggedState ∧ loggedState.filters.values = [readOnlyFilter, logFilter] ∧
    (∃ f ∈ loggedState.filters.values, (loggedState.evaluate 1 zeroArgs).action =
      interpretProgram f.prog f.defaultAction 1 zeroArgs) ∧
    SeccompAction.kill.severity ≤ (loggedState.evaluate 1 zeroArgs).action.severity ∧
    SeccompAction.log.severity ≤ (loggedState.evaluate 1 zeroArgs).action.severity := by
  have hbuilt : Built loggedState := Built.addFilter _ _ (Built.addFilter _ _ Built.new)
  have hadded (s : SeccompState) (f : SeccompFilter) (h : (s.addFilter .granting f).1 = true) :
      (s.addFilter .granting f).2.filters.values = s.filters.values ++ [f] := by
    rcases addFilter_cases s .granting f with ⟨-, hvalues, -⟩ | ⟨hfail, -⟩
    · exact hvalues
    · exact absurd (h.symm.trans hfail) nofun
  have hvalues : loggedState.filters.values = [readOnlyFilter, logFilter] := by
    rw [loggedState, hadded _ _ (by decide), readOnlyState, hadded _ _ (by decide)]
    rfl
  obtain ⟨-, hmem, hsevere, -⟩ := hbuilt.chain_only_tightens 1 zeroArgs
  refine ⟨hbuilt, hvalues, hmem (by rw [hvalues]; exact cons_ne_nil _ _), ?_, ?_⟩
  · exact hsevere readOnlyFilter (by simp [hvalues])
  · exact hsevere logFilter (by simp [hvalues])

end SeccompState

end Nilix.Seccomp
