import Nilix.Cgroup.IoThrottle

/-!
# When throttled I/O makes progress

The first phase of `charge_io` reads the stored tokens and never refills them, and the second phase,
which does refill, is reached only when the stored tokens already suffice.  A throttled poll therefore
leaves every bucket as it is.  A request that was throttled is admitted after its deadline exactly when
the tokens stored at every active level already covered it (`Funded`); in that case only the windows of
earlier charges delayed it.
-/

namespace Nilix.Cg

open Function List

/-! ## One bucket -/

namespace IoBucketState

/-- The stored tokens cover a request. -/
def Funds (b : IoBucketState) (limits : IoLimits) (bytes : ℕ) : Prop :=
  (limits.ioMaxBytesPerSec.isSome → bytes ≤ b.byteTokens) ∧
    (limits.ioMaxIopsPerSec.isSome → b.iopsTokens ≠ 0)

lemma saturatingAdd_le (a b : ℕ) : saturatingAdd a b ≤ usizeMax := min_le_right _ _

lemma saturatingAdd_pos {a : ℕ} (h : 0 < a) (b : ℕ) : 0 < saturatingAdd a b :=
  lt_min (by omega) (by decide)

variable {b : IoBucketState} {limits : IoLimits} {bytes nowNs : ℕ}

lemma deficitUntil_le : b.deficitUntil limits bytes nowNs ≤ usizeMax := by
  have hbytes : ∀ bps, (if b.byteTokens < bytes then
      saturatingAdd nowNs (byteWaitNs bps b.byteTokens bytes) else 0) ≤ usizeMax := by
    intro bps
    split_ifs
    · exact saturatingAdd_le _ _
    · exact Nat.zero_le _
  unfold deficitUntil
  cases limits.ioMaxBytesPerSec <;> cases limits.ioMaxIopsPerSec <;> dsimp only
  · exact Nat.zero_le _
  · split_ifs
    · exact max_le (Nat.zero_le _) (saturatingAdd_le _ _)
    · exact Nat.zero_le _
  · exact hbytes _
  · by_cases hiops : b.iopsTokens = 0
    · rw [if_pos hiops]
      exact max_le (hbytes _) (saturatingAdd_le _ _)
    · rw [if_neg hiops]
      exact hbytes _

lemma Funds.deficitUntil_eq_zero (h : b.Funds limits bytes) :
    b.deficitUntil limits bytes nowNs = 0 := by
  obtain ⟨hbytes, hiops⟩ := h
  unfold deficitUntil
  cases hb : limits.ioMaxBytesPerSec <;> cases hi : limits.ioMaxIopsPerSec <;> dsimp only
  · rw [if_neg (hiops (hi ▸ rfl))]
  · rw [if_neg (not_lt.mpr (hbytes (hb ▸ rfl)))]
  · rw [if_neg (not_lt.mpr (hbytes (hb ▸ rfl))), if_neg (hiops (hi ▸ rfl))]

/-- A request that is not covered has a deadline, except at the instant 0. -/
lemma deficitUntil_pos (hnow : 0 < nowNs) (h : ¬ b.Funds limits bytes) :
    0 < b.deficitUntil limits bytes nowNs := by
  have hcases : (limits.ioMaxBytesPerSec.isSome ∧ b.byteTokens < bytes) ∨
      (limits.ioMaxIopsPerSec.isSome ∧ b.iopsTokens = 0) := by
    by_contra hnot
    push Not at hnot
    exact h hnot
  unfold deficitUntil
  rcases hcases with ⟨hsome, hlt⟩ | ⟨hsome, hzero⟩
  · obtain ⟨bps, hb⟩ := Option.isSome_iff_exists.mp hsome
    have hpos := saturatingAdd_pos hnow (byteWaitNs bps b.byteTokens bytes)
    rw [hb]
    dsimp only
    rw [if_pos hlt]
    cases limits.ioMaxIopsPerSec with
    | none => exact hpos
    | some =>
      split_ifs
      · exact lt_max_of_lt_left hpos
      · exact hpos
  · obtain ⟨iops, hi⟩ := Option.isSome_iff_exists.mp hsome
    rw [hi]
    dsimp only
    rw [if_pos hzero]
    exact lt_max_of_lt_right (saturatingAdd_pos hnow _)

lemma checkUntil_pos (hnow : 0 < nowNs) (h : ¬ b.Funds limits bytes) :
    0 < b.checkUntil limits bytes nowNs := by
  unfold checkUntil
  split_ifs with hwindow
  · exact pos_of_ne_zero (of_decide_eq_true hwindow).1
  · exact deficitUntil_pos hnow h

/-- Past its window a bucket that covers the request asks for no wait. -/
lemma Funds.checkUntil_eq_zero (h : b.Funds limits bytes) (hpast : b.throttleUntilNs ≤ nowNs) :
    b.checkUntil limits bytes nowNs = 0 := by
  unfold checkUntil
  rw [if_neg, h.deficitUntil_eq_zero]
  intro hwindow
  exact absurd (of_decide_eq_true hwindow).2 (not_lt.mpr hpast)

/-- A bucket that covers the request and asks for a wait is in its window. -/
lemma Funds.lt_throttleUntilNs (h : b.Funds limits bytes)
    (hne : b.checkUntil limits bytes nowNs ≠ 0) : nowNs < b.throttleUntilNs := by
  by_contra hpast
  exact hne (h.checkUntil_eq_zero (not_lt.mp hpast))

/-- The deadline a bucket in its window asks for is the end of the window. -/
lemma throttleUntilNs_le_checkUntil (h : nowNs < b.throttleUntilNs) :
    b.throttleUntilNs ≤ b.checkUntil limits bytes nowNs := by
  have hwindow : b.inWindow nowNs = true := decide_eq_true ⟨Nat.ne_zero_of_lt h, h⟩
  unfold checkUntil
  rw [if_pos hwindow]

lemma checkUntil_le (h : b.throttleUntilNs ≤ usizeMax) :
    b.checkUntil limits bytes nowNs ≤ usizeMax := by
  unfold checkUntil
  split_ifs
  · exact h
  · exact deficitUntil_le

lemma charge_throttleUntilNs_le (h : b.throttleUntilNs ≤ usizeMax) :
    (b.charge limits bytes nowNs).1.throttleUntilNs ≤ usizeMax := by
  have hrefill : (b.refill limits nowNs bytes).throttleUntilNs ≤ usizeMax := by
    unfold refill
    split_ifs
    · exact Nat.zero_le _
    · exact h
  unfold charge
  dsimp only
  split_ifs
  · exact hrefill
  · exact deficitUntil_le
  · exact hrefill

end IoBucketState

namespace IoState

variable {controller : Cgroup → Bool} {s : IoState} {origin : Option Cgroup} {node : Cgroup}
  {chain : List Cgroup} {bytes nowNs : ℕ}

/-! ## The first phase -/

variable {levels : List Cgroup}

/-- A bound of the levels' deadlines bounds the overall one, and conversely. -/
lemma overallThrottleUntil_le_iff {bound : ℕ} : s.overallThrottleUntil bytes nowNs levels ≤ bound ↔
      ∀ c ∈ levels, (s c).bucket.checkUntil (s c).limits bytes nowNs ≤ bound := by
  have hfold : ∀ overall, levels.foldl
      (fun overall c => max overall ((s c).bucket.checkUntil (s c).limits bytes nowNs)) overall ≤
        bound ↔ overall ≤ bound ∧
          ∀ c ∈ levels, (s c).bucket.checkUntil (s c).limits bytes nowNs ≤ bound := by
    induction levels with
    | nil => simp
    | cons c levels ih =>
      intro overall
      rw [foldl_cons, ih, max_le_iff, forall_mem_cons, and_assoc]
  unfold overallThrottleUntil
  rw [hfold, and_iff_right (Nat.zero_le _)]

lemma overallThrottleUntil_eq_zero_iff : s.overallThrottleUntil bytes nowNs levels = 0 ↔
      ∀ c ∈ levels, (s c).bucket.checkUntil (s c).limits bytes nowNs = 0 := by
  rw [← Nat.le_zero, overallThrottleUntil_le_iff]
  simp only [Nat.le_zero]

/-- What `charge_io` does on a chain with an active level. -/
lemma chargeIo_of_active (hbytes : bytes ≠ 0)
    (hchain : collectControllerChain controller node = .ok chain)
    (hactive : s.activeLevels chain ≠ []) :
    s.chargeIo controller (some node) bytes nowNs =
      if s.overallThrottleUntil bytes nowNs (s.activeLevels chain) ≠ 0 then
        (s, .throttled (s.overallThrottleUntil bytes nowNs (s.activeLevels chain)))
      else (s.chargeLevels bytes nowNs (s.activeLevels chain), .allowed) := by
  unfold chargeIo
  rw [if_neg hbytes]
  dsimp only
  rw [hchain]
  dsimp only
  rw [if_neg (by rwa [List.isEmpty_iff])]

variable {untilNs : ℕ}

/-- When `charge_io` asks for a wait: the chain is too long, or some active level has a deadline. -/
lemma chargeIo_eq_throttled (h : (s.chargeIo controller origin bytes nowNs).2 = .throttled untilNs) :
    bytes ≠ 0 ∧ ∃ node, origin = some node ∧
      ((∃ e, collectControllerChain controller node = .error e ∧ untilNs = usizeMax) ∨
        ∃ chain, collectControllerChain controller node = .ok chain ∧ s.activeLevels chain ≠ [] ∧
          s.overallThrottleUntil bytes nowNs (s.activeLevels chain) = untilNs ∧ untilNs ≠ 0) := by
  unfold chargeIo at h
  by_cases hbytes : bytes = 0
  · rw [if_pos hbytes] at h
    cases h
  rw [if_neg hbytes] at h
  refine ⟨hbytes, ?_⟩
  cases origin with
  | none => cases h
  | some node =>
    refine ⟨node, rfl, ?_⟩
    dsimp only at h
    cases hchain : collectControllerChain controller node with
    | error e =>
      rw [hchain] at h
      cases h
      exact .inl ⟨e, rfl, rfl⟩
    | ok chain =>
      rw [hchain] at h
      dsimp only at h
      split_ifs at h with hempty hoverall
      · cases h
        exact .inr ⟨chain, rfl, fun hnil => hempty (isEmpty_iff.mpr hnil), rfl, hoverall⟩

/-! ## Funded requests -/

/-- The tokens stored at every active level of the chain cover a request. -/
def Funded (controller : Cgroup → Bool) (s : IoState) (origin : Option Cgroup) (bytes : ℕ) : Prop :=
  ∃ node chain, origin = some node ∧ collectControllerChain controller node = .ok chain ∧
    ∀ c ∈ s.activeLevels chain, (s c).bucket.Funds (s c).limits bytes

/-- A funded request is admitted once the windows of its levels have passed. -/
lemma chargeIo_eq_allowed (hbytes : bytes ≠ 0)
    (hchain : collectControllerChain controller node = .ok chain)
    (hactive : s.activeLevels chain ≠ [])
    (hfunds : ∀ c ∈ s.activeLevels chain, (s c).bucket.Funds (s c).limits bytes)
    (hpast : ∀ c ∈ s.activeLevels chain, (s c).bucket.throttleUntilNs ≤ nowNs) :
    (s.chargeIo controller (some node) bytes nowNs).2 = .allowed := by
  have hzero : s.overallThrottleUntil bytes nowNs (s.activeLevels chain) = 0 :=
    overallThrottleUntil_eq_zero_iff.mpr fun c hc => (hfunds c hc).checkUntil_eq_zero (hpast c hc)
  rw [chargeIo_of_active hbytes hchain hactive, if_neg (not_not.mpr hzero)]

/-- The windows of the levels end within the deadline that a funded request was given. -/
lemma window_le_of_overall (hnow : nowNs ≤ untilNs)
    (hoverall : s.overallThrottleUntil bytes nowNs levels = untilNs) :
    ∀ c ∈ levels, (s c).bucket.throttleUntilNs ≤ untilNs := by
  intro c hc
  by_cases hwindow : nowNs < (s c).bucket.throttleUntilNs
  · exact (IoBucketState.throttleUntilNs_le_checkUntil hwindow).trans
      (overallThrottleUntil_le_iff.mp hoverall.le c hc)
  · exact (not_lt.mp hwindow).trans hnow

/-- A funded request that is throttled at an instant is so by a window that ends later. -/
lemma lt_of_funded_of_throttled
    (hfunds : ∀ c ∈ s.activeLevels chain, (s c).bucket.Funds (s c).limits bytes)
    (hoverall : s.overallThrottleUntil bytes nowNs (s.activeLevels chain) = untilNs)
    (hne : untilNs ≠ 0) :
    nowNs < untilNs ∧ ∃ c ∈ s.activeLevels chain, nowNs < (s c).bucket.throttleUntilNs := by
  have hlevel : ∃ c ∈ s.activeLevels chain,
      (s c).bucket.checkUntil (s c).limits bytes nowNs ≠ 0 := by
    by_contra hnone
    push Not at hnone
    exact hne (hoverall.symm.trans (overallThrottleUntil_eq_zero_iff.mpr hnone))
  obtain ⟨c, hc, hcheck⟩ := hlevel
  have hlt := (hfunds c hc).lt_throttleUntilNs hcheck
  exact ⟨hlt.trans_le ((IoBucketState.throttleUntilNs_le_checkUntil hlt).trans
    (overallThrottleUntil_le_iff.mp hoverall.le c hc)), c, hc, hlt⟩

/-- A request that is not funded is throttled at every instant but 0. -/
lemma chargeIo_throttled_of_not_funded (hbytes : bytes ≠ 0) (hnow : 0 < nowNs)
    (hactive : ∀ chain, collectControllerChain controller node = .ok chain →
      s.activeLevels chain ≠ []) (h : ¬ Funded controller s (some node) bytes) :
    ∃ untilNs, s.chargeIo controller (some node) bytes nowNs = (s, .throttled untilNs) := by
  cases hchain : collectControllerChain controller node with
  | error =>
    refine ⟨usizeMax, ?_⟩
    unfold chargeIo
    rw [if_neg hbytes]
    dsimp only
    rw [hchain]
  | ok chain =>
    rw [chargeIo_of_active hbytes hchain (hactive chain hchain)]
    refine ⟨_, if_pos fun hzero => h ⟨node, chain, rfl, hchain, fun c hc => ?_⟩⟩
    by_contra hfunds
    exact (IoBucketState.checkUntil_pos hnow hfunds).ne'
      (overallThrottleUntil_eq_zero_iff.mp hzero c hc)

/-! ## What the calls of other requests leave -/

/-- The active levels on the chain of an origin. -/
def levelsOf (controller : Cgroup → Bool) (s : IoState) (origin : Option Cgroup) : List Cgroup :=
  match origin with
  | none => []
  | some node =>
    match collectControllerChain controller node with
    | .error _ => []
    | .ok chain => s.activeLevels chain

/-- A call leaves the state, or it admits the request and charges the active levels of the chain. -/
lemma chargeIo_cases (controller : Cgroup → Bool) (s : IoState) (origin : Option Cgroup)
    (bytes nowNs : ℕ) : (s.chargeIo controller origin bytes nowNs).1 = s ∨
      ∃ chain, s.chargeIo controller origin bytes nowNs =
          (s.chargeLevels bytes nowNs (s.activeLevels chain), .allowed) ∧
        levelsOf controller s origin = s.activeLevels chain ∧ bytes ≠ 0 ∧
        s.activeLevels chain ≠ [] ∧ s.overallThrottleUntil bytes nowNs (s.activeLevels chain) = 0 := by
  unfold chargeIo levelsOf
  split_ifs with hbytes
  · exact .inl rfl
  cases origin with
  | none => exact .inl rfl
  | some node =>
    dsimp only
    cases collectControllerChain controller node with
    | error => exact .inl rfl
    | ok chain =>
      dsimp only
      split_ifs with hempty hoverall
      · exact .inl rfl
      · exact .inl rfl
      · exact .inr ⟨chain, rfl, rfl, hbytes, fun hnil => hempty (isEmpty_iff.mpr hnil),
          not_not.mp hoverall⟩

/-- A call that does not admit the request leaves every bucket as it is. -/
lemma chargeIo_fst_of_ne_allowed (h : (s.chargeIo controller origin bytes nowNs).2 ≠ .allowed) :
    (s.chargeIo controller origin bytes nowNs).1 = s := by
  rcases chargeIo_cases controller s origin bytes nowNs with hsame | ⟨chain, hcharge, -⟩
  · exact hsame
  · rw [hcharge] at h
    exact absurd rfl h

/-- An event that admits no request on the chain of an origin: a call that is not admitted, or one
that shares no active level with the chain. -/
def AdmitsNone (controller : Cgroup → Bool) (s : IoState) (origin : Option Cgroup) : IoEvent → Prop
  | .chargeIo other bytes nowNs =>
    (s.chargeIo controller other bytes nowNs).2 ≠ .allowed ∨
      (levelsOf controller s other).Disjoint (levelsOf controller s origin)
  | .setLimit _ _ => False

/-- A run that admits no request on the chain of an origin. -/
def RunAdmitsNone (controller : Cgroup → Bool) (origin : Option Cgroup) :
    IoState → List IoEvent → Prop
  | _, [] => True
  | s, e :: events =>
    AdmitsNone controller s origin e ∧ RunAdmitsNone controller origin (s.exec controller e) events

/-- Two states have the same limits, and the same buckets on some levels. -/
structure AgreesOn (s t : IoState) (levels : List Cgroup) : Prop where
  limits : ∀ c, (t c).limits = (s c).limits
  bucket : ∀ c ∈ levels, (t c).bucket = (s c).bucket

lemma AgreesOn.refl (s : IoState) (levels : List Cgroup) : AgreesOn s s levels :=
  ⟨fun _ => rfl, fun _ _ => rfl⟩

variable {t : IoState}

lemma AgreesOn.trans {s u : IoState} (h : AgreesOn s t levels) (h' : AgreesOn t u levels) :
    AgreesOn s u levels :=
  ⟨fun c => (h'.limits c).trans (h.limits c), fun c hc => (h'.bucket c hc).trans (h.bucket c hc)⟩

lemma AgreesOn.activeLevels (h : AgreesOn s t levels) (chain : List Cgroup) :
    t.activeLevels chain = s.activeLevels chain := by
  exact filter_congr fun c _ => by rw [h.limits c]

lemma AgreesOn.levelsOf (h : AgreesOn s t levels) (origin : Option Cgroup) :
    levelsOf controller t origin = levelsOf controller s origin := by
  unfold IoState.levelsOf
  cases origin with
  | none => rfl
  | some node =>
    dsimp only
    cases collectControllerChain controller node with
    | error => rfl
    | ok chain => exact h.activeLevels chain

/-- The second phase changes the buckets of its own levels only. -/
lemma chargeLevels_agreesOn {charged : List Cgroup} (h : charged.Disjoint levels) :
    AgreesOn s (s.chargeLevels bytes nowNs charged) levels := by
  induction charged generalizing s with
  | nil => exact .refl _ _
  | cons c charged ih =>
    rw [disjoint_cons_left] at h
    have hstep : AgreesOn s (update s c ((s c).charge bytes nowNs)) levels := by
      refine ⟨fun d => ?_, fun d hd => ?_⟩
      · by_cases hdc : d = c
        · subst hdc
          rw [update_self]
          rfl
        · rw [update_of_ne hdc]
      · rw [update_of_ne (ne_of_mem_of_not_mem hd h.1)]
    exact hstep.trans (ih h.2)

/-- What a call leaves on levels that it does not charge. -/
lemma chargeIo_agreesOn (h : (s.chargeIo controller origin bytes nowNs).2 ≠ .allowed ∨
      (levelsOf controller s origin).Disjoint levels) :
    AgreesOn s (s.chargeIo controller origin bytes nowNs).1 levels := by
  rcases h with h | h
  · rw [chargeIo_fst_of_ne_allowed h]
    exact .refl _ _
  rcases chargeIo_cases controller s origin bytes nowNs with hsame | ⟨chain, hcharge, hlevels, -⟩
  · rw [hsame]
    exact .refl _ _
  · rw [hlevels] at h
    rw [hcharge]
    exact chargeLevels_agreesOn h

/-- A run that admits no request on a chain leaves the limits and the chain's buckets. -/
lemma RunAdmitsNone.agreesOn {events : List IoEvent}
    (h : RunAdmitsNone controller origin s events) :
    AgreesOn s (s.run controller events) (levelsOf controller s origin) := by
  induction events generalizing s with
  | nil => exact .refl _ _
  | cons e events ih =>
    obtain ⟨hstep, hrun⟩ := h
    have hfirst : AgreesOn s (s.exec controller e) (levelsOf controller s origin) := by
      cases e with
      | chargeIo => exact chargeIo_agreesOn hstep
      | setLimit => exact hstep.elim
    have hrest := ih hrun
    rw [hfirst.levelsOf origin] at hrest
    exact hfirst.trans hrest

/-! ## Windows stay within the clock -/

/-- Every window ends within the clock. -/
def Clocked (s : IoState) : Prop := ∀ c, (s c).bucket.throttleUntilNs ≤ usizeMax

lemma Clocked.chargeLevels (h : s.Clocked) (levels : List Cgroup) :
    (s.chargeLevels bytes nowNs levels).Clocked := by
  induction levels generalizing s with
  | nil => exact h
  | cons c levels ih =>
    refine ih (s := update s c ((s c).charge bytes nowNs)) fun d => ?_
    by_cases hdc : d = c
    · subst hdc
      rw [update_self]
      exact IoBucketState.charge_throttleUntilNs_le (h d)
    rw [update_of_ne hdc]
    exact h d

lemma Clocked.exec (h : s.Clocked) (e : IoEvent) : (s.exec controller e).Clocked := by
  cases e with
  | setLimit node =>
    intro d
    by_cases hd : d = node
    · subst hd
      change (update s d _ d).bucket.throttleUntilNs ≤ usizeMax
      rw [update_self]
      exact h d
    change (update s node _ d).bucket.throttleUntilNs ≤ usizeMax
    rw [update_of_ne hd]
    exact h d
  | chargeIo origin bytes nowNs =>
    change (s.chargeIo controller origin bytes nowNs).1.Clocked
    rcases chargeIo_cases controller s origin bytes nowNs with hsame | ⟨chain, hcharge, -⟩
    · rwa [hsame]
    · rw [hcharge]
      exact h.chargeLevels _

lemma clocked_run_fresh (controller : Cgroup → Bool) (limits : Cgroup → IoLimits)
    (history : List IoEvent) : ((fresh limits).run controller history).Clocked := by
  have hrun : ∀ s : IoState, s.Clocked → (s.run controller history).Clocked := by
    induction history with
    | nil => exact fun s h => h
    | cons e history ih => exact fun s h => ih _ (h.exec e)
  exact hrun _ fun c => Nat.zero_le _

/-! ## At positive times -/

/-- No level of the state has ever been charged. -/
def Fresh (s : IoState) : Prop := ∀ c, (s c).bucket = .new

/-- A fresh bucket covers no request of an active level. -/
lemma Fresh.not_funds (h : s.Fresh) (hbytes : bytes ≠ 0) {c : Cgroup}
    (hc : c ∈ s.activeLevels chain) : ¬ (s c).bucket.Funds (s c).limits bytes := by
  rw [h c]
  rintro ⟨hbyte, hiops⟩
  rcases Bool.or_eq_true_iff.mp (mem_filter.mp hc).2 with hsome | hsome
  · exact hbytes (Nat.le_zero.mp (hbyte hsome))
  · exact hiops hsome rfl

/-- At a positive time a request on a fresh state is not admitted, or has no active level. -/
lemma Fresh.chargeIo_fst (h : s.Fresh) (hnow : 0 < nowNs) :
    (s.chargeIo controller origin bytes nowNs).1 = s := by
  rcases chargeIo_cases controller s origin bytes nowNs with
    hsame | ⟨chain, -, -, hbytes, hactive, hzero⟩
  · exact hsame
  · obtain ⟨c, hc⟩ := exists_mem_of_ne_nil _ hactive
    exact absurd (overallThrottleUntil_eq_zero_iff.mp hzero c hc)
      (IoBucketState.checkUntil_pos hnow (h.not_funds hbytes hc)).ne'

/-- As long as the clock is positive, every bucket stays fresh. -/
lemma fresh_run (controller : Cgroup → Bool) (limits : Cgroup → IoLimits) {history : List IoEvent}
    (hpos : ∀ origin bytes nowNs, .chargeIo origin bytes nowNs ∈ history → 0 < nowNs) :
    ((fresh limits).run controller history).Fresh := by
  refine foldlRecOn (motive := Fresh) history _ (fun _ => rfl) fun s h e he => ?_
  cases e with
  | chargeIo origin bytes nowNs =>
    change (s.chargeIo controller origin bytes nowNs).1.Fresh
    rwa [h.chargeIo_fst (hpos _ _ _ he)]
  | setLimit node =>
    intro d
    change (update s node _ d).bucket = .new
    by_cases hd : d = node
    · subst hd
      rw [update_self]
      exact h d
    rw [update_of_ne hd]
    exact h d

/-- So no throttled request is funded: that takes an earlier charge at the instant 0. -/
lemma not_funded_run (controller : Cgroup → Bool) (limits : Cgroup → IoLimits)
    {history : List IoEvent} {untilNs : ℕ}
    (hpos : ∀ origin bytes nowNs, .chargeIo origin bytes nowNs ∈ history → 0 < nowNs)
    (hthrottled : (((fresh limits).run controller history).chargeIo controller origin bytes nowNs).2 =
      .throttled untilNs) : ¬ Funded controller ((fresh limits).run controller history) origin bytes := by
  rintro ⟨node, chain, rfl, hchain, hfunds⟩
  obtain ⟨hbytes, node', hnode, ⟨e, herror, -⟩ | ⟨chain', hchain', hactive, -⟩⟩ :=
    chargeIo_eq_throttled hthrottled
  · cases hnode
    cases hchain.symm.trans herror
  · cases hnode
    cases hchain.symm.trans hchain'
    obtain ⟨c, hc⟩ := exists_mem_of_ne_nil _ hactive
    exact (fresh_run controller limits hpos).not_funds hbytes hc (hfunds c hc)

/-! ## Progress -/

/-- A request that was given a deadline is admitted at every instant from the deadline on, whatever
other calls come in between, as long as they admit no request on the chain. -/
def Progresses (controller : Cgroup → Bool) (s : IoState) (origin : Option Cgroup)
    (bytes untilNs : ℕ) : Prop :=
  ∀ (between : List IoEvent) (later : ℕ), RunAdmitsNone controller origin s between →
    untilNs ≤ later → later ≤ usizeMax →
      ((s.run controller between).chargeIo controller origin bytes later).2 = .allowed

section

variable (hthrottled : (s.chargeIo controller origin bytes nowNs).2 = .throttled untilNs)
include hthrottled

/-- The tokens that funded a request still do after a run that admits nothing on its chain, and its
levels' windows have passed by the deadline. -/
lemma Funded.progresses (h : Funded controller s origin bytes) :
    Progresses controller s origin bytes untilNs := by
  intro between later hbetween hlater _
  obtain ⟨node, chain, rfl, hchain, hfunds⟩ := h
  obtain ⟨hbytes, node', hnode, hcase⟩ := chargeIo_eq_throttled hthrottled
  cases hnode
  rcases hcase with ⟨e, herror, -⟩ | ⟨chain', hchain', hactive, hoverall, hne⟩
  · cases hchain.symm.trans herror
  cases hchain.symm.trans hchain'
  have hlevels : levelsOf controller s (some node) = s.activeLevels chain := by
    unfold levelsOf
    dsimp only
    rw [hchain]
  have hagrees := hbetween.agreesOn
  rw [hlevels] at hagrees
  have hwindows := window_le_of_overall (lt_of_funded_of_throttled hfunds hoverall hne).1.le hoverall
  refine chargeIo_eq_allowed hbytes hchain ?_ ?_ ?_
  · rwa [hagrees.activeLevels chain]
  · intro c hc
    rw [hagrees.activeLevels chain] at hc
    rw [hagrees.limits c, hagrees.bucket c hc]
    exact hfunds c hc
  · intro c hc
    rw [hagrees.activeLevels chain] at hc
    rw [hagrees.bucket c hc]
    exact (hwindows c hc).trans hlater

/-- The deadline of a throttled request is an instant of the clock, after 0. -/
lemma Clocked.deadline (h : s.Clocked) : 0 < untilNs ∧ untilNs ≤ usizeMax := by
  obtain ⟨-, node, -, ⟨e, -, rfl⟩ | ⟨chain, -, -, hoverall, hne⟩⟩ := chargeIo_eq_throttled hthrottled
  · exact ⟨by decide, le_rfl⟩
  refine ⟨pos_of_ne_zero hne, hoverall ▸ overallThrottleUntil_le_iff.mpr fun c _ => ?_⟩
  exact IoBucketState.checkUntil_le (h c)

/-- Once a request is throttled and not funded, every later poll of it is throttled and changes
nothing. -/
lemma throttled_forever {later : ℕ} (h : ¬ Funded controller s origin bytes) (hlater : 0 < later) :
    ∃ untilNs', s.chargeIo controller origin bytes later = (s, .throttled untilNs') := by
  obtain ⟨hbytes, node, rfl, hcase⟩ := chargeIo_eq_throttled hthrottled
  refine chargeIo_throttled_of_not_funded hbytes hlater (fun chain hchain => ?_) h
  rcases hcase with ⟨e, herror, -⟩ | ⟨chain', hchain', hactive, -⟩
  · cases hchain.symm.trans herror
  cases hchain.symm.trans hchain'
  exact hactive

/-- A throttled request progresses exactly when it is funded. -/
lemma progresses_iff_funded (hclocked : s.Clocked) :
    Progresses controller s origin bytes untilNs ↔ Funded controller s origin bytes := by
  refine ⟨fun hprogress => ?_, fun hfunded => hfunded.progresses hthrottled⟩
  by_contra hnot
  obtain ⟨hpos, hle⟩ := hclocked.deadline hthrottled
  obtain ⟨untilNs', hagain⟩ := throttled_forever hthrottled hnot hpos
  have hallowed := hprogress [] untilNs trivial le_rfl hle
  change (s.chargeIo controller origin bytes untilNs).2 = .allowed at hallowed
  rw [hagain] at hallowed
  cases hallowed

end

/-! ## The wait -/

/-- The wait of a funded request ends: each poll moves the instant forward, and at the end of the
clock every window has passed. -/
lemma Funded.waitForIoWindowReturns (hclocked : s.Clocked)
    (h : Funded controller s origin bytes) (clock : ℕ → ℕ) :
    WaitForIoWindowReturns controller s origin bytes clock := by
  have hnext : ∀ st st' : IoState × ℕ × ℕ, st.1 = s ∧ st.2.1 ≤ usizeMax →
      waitIteration controller origin bytes clock st = .next st' →
        (st'.1 = s ∧ st'.2.1 ≤ usizeMax) ∧ usizeMax - st'.2.1 < usizeMax - st.2.1 := by
    rintro ⟨s1, nowNs, readings⟩ st' ⟨hs, hnow⟩ hnext
    subst hs
    unfold waitIteration at hnext
    dsimp only at hnext
    cases hcall : s1.chargeIo controller origin bytes nowNs with
    | mk s2 status =>
      rw [hcall] at hnext
      cases status with
      | unlimited | allowed => cases hnext
      | throttled untilNs =>
        have hthrottled : (s1.chargeIo controller origin bytes nowNs).2 = .throttled untilNs := by
          rw [hcall]
        have hsame := chargeIo_fst_of_ne_allowed (fun hallowed =>
          IoThrottleStatus.noConfusion (hthrottled.symm.trans hallowed))
        rw [hcall] at hsame
        obtain ⟨node, chain, rfl, hchain, hfunds⟩ := h
        obtain ⟨-, node', hnode, hcase⟩ := chargeIo_eq_throttled hthrottled
        cases hnode
        rcases hcase with ⟨e, herror, -⟩ | ⟨chain', hchain', -, hoverall, hne⟩
        · cases hchain.symm.trans herror
        cases hchain.symm.trans hchain'
        obtain ⟨-, c, -, hlt⟩ := lt_of_funded_of_throttled hfunds hoverall hne
        have hbound := hlt.trans_le (hclocked c)
        have hadvance : nowNs < saturatingAdd nowNs 1000000 := lt_min (by omega) hbound
        have hle : max (saturatingMul (clock readings) 1000000) (saturatingAdd nowNs 1000000) ≤
            usizeMax := max_le (min_le_right _ _) (min_le_right _ _)
        cases hnext
        refine ⟨⟨hsame, hle⟩, ?_⟩
        have hgt := lt_max_of_lt_right (b := saturatingMul (clock readings) 1000000) hadvance
        dsimp only
        omega
  obtain ⟨n, r, -, hruns, -⟩ := Loop.Runs.of_measure
    (waitIteration controller origin bytes clock) (fun st => st.1 = s ∧ st.2.1 ≤ usizeMax)
    (fun _ => True) (fun st => usizeMax - st.2.1) hnext (fun _ _ _ _ => trivial)
    (s := (s, saturatingMul (clock 0) 1000000, 1)) ⟨rfl, min_le_right _ _⟩
  exact ⟨n, r, hruns⟩

/-- The wait of a throttled request that is not funded does not end, with a clock that has started. -/
lemma not_waitForIoWindowReturns (h : ¬ Funded controller s origin bytes)
    (hthrottled : (s.chargeIo controller origin bytes nowNs).2 = .throttled untilNs) :
    ¬ WaitForIoWindowReturns controller s origin bytes fun _ => 1 := by
  rintro ⟨n, r, hruns⟩
  have hstart : 0 < saturatingMul 1 1000000 := by decide
  refine Loop.Runs.not_of_invariant (fun st => st.1 = s ∧ 0 < st.2.1) ?_ ⟨rfl, hstart⟩ hruns
  rintro ⟨s1, now1, readings⟩ ⟨hs, hpos⟩
  dsimp only at hs hpos
  subst hs
  obtain ⟨untilNs', hagain⟩ := throttled_forever hthrottled h hpos
  refine ⟨(s1, max (saturatingMul 1 1000000) (saturatingAdd now1 1000000), readings + 1), ?_, rfl, ?_⟩
  · unfold waitIteration
    dsimp only
    rw [hagain]
  · exact lt_max_of_lt_right (IoBucketState.saturatingAdd_pos hpos _)

/-- In every state reached from fresh nodes, a request that `charge_io` throttles is admitted from its
deadline on, and the wait for it ends with every clock, exactly when the tokens stored at the active
levels of its chain cover it. -/
theorem throttled_io_progress_iff (controller : Cgroup → Bool) (limits : Cgroup → IoLimits)
    (history : List IoEvent) (origin : Option Cgroup) (bytes nowNs untilNs : ℕ)
    (hthrottled : (((fresh limits).run controller history).chargeIo controller origin bytes nowNs).2 =
      .throttled untilNs) :
    let s := (fresh limits).run controller history
    let s' := (s.chargeIo controller origin bytes nowNs).1
    (Progresses controller s' origin bytes untilNs ↔ Funded controller s origin bytes) ∧
      ((∀ clock, WaitForIoWindowReturns controller s' origin bytes clock) ↔
        Funded controller s origin bytes) := by
  intro s s'
  have hclocked := clocked_run_fresh controller limits history
  have hsame : s' = s := chargeIo_fst_of_ne_allowed (fun hallowed =>
    IoThrottleStatus.noConfusion (hthrottled.symm.trans hallowed))
  rw [hsame]
  refine ⟨progresses_iff_funded hthrottled hclocked, fun hwaits => ?_, fun hfunded clock => ?_⟩
  · by_contra hnot
    exact not_waitForIoWindowReturns hnot hthrottled (hwaits _)
  · exact hfunded.waitForIoWindowReturns hclocked clock

/-- A thousand bytes per second at the root, no limit elsewhere. -/
def rootLimit : Cgroup → IoLimits
  | .root => ⟨some 1000, none, by simp, by simp⟩
  | .child _ _ => ⟨none, none, by simp, by simp⟩

/-- An IOPS limit at the root whose wait for one token is less than a nanosecond. -/
def fastRoot (bps : Option ℕ) (h : ∀ rate ∈ bps, 0 < rate) : IoLimits :=
  ⟨bps, some 2000000000, h, by simp⟩

/-- A charge at the instant 0, a lower limit, and a charge that finds less than it checked for and
leaves a window. -/
def windowHistory : List IoEvent :=
  [.chargeIo (some .root) 1 0, .setLimit .root (fastRoot (some 1) (by simp)),
    .chargeIo (some .root) 5 1]

/-- A request of four bytes is throttled by the window and funded, so it is admitted when the window
ends. -/
theorem throttled_io_progress_iff_window :
    let s := (fresh fun _ => fastRoot none nofun).run (fun _ => true) windowHistory
    (s.chargeIo (fun _ => true) (some .root) 4 2).2 = .throttled 1000000001 ∧
      Progresses (fun _ => true) (s.chargeIo (fun _ => true) (some .root) 4 2).1 (some .root) 4
        1000000001 := by
  intro s
  have hthrottled : (s.chargeIo (fun _ => true) (some .root) 4 2).2 = .throttled 1000000001 := by
    decide +kernel
  refine ⟨hthrottled, (throttled_io_progress_iff _ _ _ _ _ _ _ hthrottled).1.mpr
    ⟨.root, [.root], rfl, rfl, fun c hc => ?_⟩⟩
  obtain rfl := mem_singleton.mp (mem_of_mem_filter hc)
  exact ⟨fun _ => by decide +kernel, fun _ => by decide +kernel⟩

/-- The byte is throttled again at its deadline, until 3 ms, and the wait for it never ends: the bucket
of a fresh node has no token, and only an admitted request would fill it. -/
theorem fresh_root_throttled_again :
    ((fresh rootLimit).chargeIo (fun _ => true) (some .root) 1 1000000).2 = .throttled 2000000 ∧
      (((fresh rootLimit).chargeIo (fun _ => true) (some .root) 1 1000000).1.chargeIo
        (fun _ => true) (some .root) 1 2000000).2 = .throttled 3000000 ∧
      ¬ WaitForIoWindowReturns (fun _ => true) (fresh rootLimit) (some .root) 1 fun _ => 1 := by
  have hfirst : ((fresh rootLimit).chargeIo (fun _ => true) (some .root) 1 1000000).2 =
      .throttled 2000000 := by decide +kernel
  refine ⟨hfirst, by decide +kernel, not_waitForIoWindowReturns ?_ hfirst⟩
  rintro ⟨node, chain, hnode, hchain, hfunds⟩
  cases hnode
  cases hchain
  exact absurd ((hfunds .root (by decide)).1 rfl) (by decide)

end IoState

end Nilix.Cg
