import Mathlib.Logic.Relation
import Nilix.Foundation.Fallible

/-!
# Parsing IPv4 packets

`parse_ipv4` with its checks in order, the Internet checksum it verifies, and the scan for source
routing options.  The scan gives up at the first malformed option and reports nothing, so a receiver
that skips malformed options byte by byte can meet a source route the scan has not seen.  Where the
length bytes of the packet fit (`lengthsFit`), the two read the same options.
-/

namespace Nilix.Net.Ipv4

def ipv4HeaderMinLen : ℕ := 20

structure Ipv4Addr where
  a : UInt8
  b : UInt8
  c : UInt8
  d : UInt8
deriving DecidableEq

namespace Ipv4Addr

variable (ip : Ipv4Addr)

def isMulticast : Bool := ip.a &&& 0xf0 == 0xe0

def isBroadcast : Bool := ip = ⟨255, 255, 255, 255⟩

def isUnspecified : Bool := ip = ⟨0, 0, 0, 0⟩

def isLoopback : Bool := ip.a == 127

/-- Loopback, the reserved network 0/8 and addresses that end in 255 are refused as well. -/
def isValidSource : Bool :=
  if ip.isBroadcast || ip.isMulticast || ip.isUnspecified then false
  else if ip.isLoopback then false
  else if ip.a == 0 then false
  else ip.d != 255

end Ipv4Addr

structure Ipv4Header where
  version : UInt8
  ihl : UInt8
  dscpEcn : UInt8
  totalLen : UInt16
  identification : UInt16
  flagsFragment : UInt16
  ttl : UInt8
  protocol : UInt8
  checksum : UInt16
  src : Ipv4Addr
  dst : Ipv4Addr
  optionsLen : ℕ
deriving DecidableEq

inductive Ipv4Error
  | truncated
  | badVersion
  | badIhl
  | badTotalLen
  | checksumMismatch
  | sourceRoutingForbidden
  | invalidSource
  | invalidTtl
deriving DecidableEq

/-! ## The checksum -/

/-- `u16::from_be_bytes`. -/
def fromBeBytes (hi lo : UInt8) : UInt16 := UInt16.ofNat (hi.toNat * 256 + lo.toNat)

/-- The wrapping sum of the big-endian words; an odd last byte is the high one of its word. -/
def sumWords (sum : UInt32) : List UInt8 → UInt32
  | hi :: lo :: rest => sumWords (sum + (fromBeBytes hi lo).toUInt32) rest
  | [last] => sum + last.toUInt32 <<< 8
  | [] => sum

variable (sum : UInt32) (packet : List UInt8)

/-- The low half with the carries added back in. -/
def addCarries : UInt32 := (sum &&& (0xffff : UInt32)) + (sum >>> 16)

lemma toNat_shiftRight_sixteen : (sum >>> 16).toNat = sum.toNat / 2 ^ 16 := by
  rw [UInt32.toNat_shiftRight, Nat.shiftRight_eq_div_pow]
  rfl

lemma toNat_addCarries : (addCarries sum).toNat = sum.toNat % 2 ^ 16 + sum.toNat / 2 ^ 16 := by
  have hsum : sum.toNat < 2 ^ 32 := sum.toNat_lt
  have hlow : (sum &&& (0xffff : UInt32)).toNat = sum.toNat % 2 ^ 16 := by
    rw [UInt32.toNat_and]
    exact Nat.and_two_pow_sub_one_eq_mod sum.toNat 16
  unfold addCarries
  rw [UInt32.toNat_add, hlow, toNat_shiftRight_sixteen]
  omega

lemma toNat_addCarries_lt {sum : UInt32} (h : sum >>> 16 ≠ 0) :
    (addCarries sum).toNat < sum.toNat := by
  have hpos : (sum >>> 16).toNat ≠ 0 := fun hzero => h (UInt32.toNat_inj.mp hzero)
  rw [toNat_shiftRight_sixteen] at hpos
  rw [toNat_addCarries]
  omega

/-- The loop that adds the carries back in until the sum fits in sixteen bits. -/
def foldCarry (sum : UInt32) : UInt32 :=
  if _h : sum >>> 16 = 0 then sum else foldCarry (addCarries sum)
termination_by sum.toNat
decreasing_by exact toNat_addCarries_lt _h

def computeChecksum (data : List UInt8) (len : ℕ) : UInt16 :=
  ~~~ (foldCarry (sumWords 0 (data.take len))).toUInt16

/-! ## The options -/

/-- What follows the length-delimited option at the head, or nothing if the option is malformed: its
length is missing, below two or beyond the area. -/
def afterOption (options : List UInt8) : Option (List UInt8) :=
  match options with
  | _ :: len :: _ =>
    if len < 2 ∨ options.length < len.toNat then none else some (options.drop len.toNat)
  | _ => none

lemma length_afterOption {options rest : List UInt8} (h : afterOption options = some rest) :
    rest.length < options.length := by
  unfold afterOption at h
  split at h
  · rename_i opt len tail
    split_ifs at h with hbad
    cases h
    rw [not_or, UInt8.lt_iff_toNat_lt] at hbad
    rw [List.length_drop, List.length_cons, List.length_cons]
    have htwo : (2 : UInt8).toNat = 2 := rfl
    omega
  · cases h

/-- The options that name a route: LSRR and SSRR. -/
def IsSourceRoute (opt : UInt8) : Prop := opt = 0x83 ∨ opt = 0x89

instance (opt : UInt8) : Decidable (IsSourceRoute opt) := inferInstanceAs (Decidable (_ ∨ _))

def containsSourceRouting (options : List UInt8) : Bool :=
  match options with
  | [] => false
  | opt :: rest =>
    if opt = 0 then false
    else if opt = 1 then containsSourceRouting rest
    else if IsSourceRoute opt then true
    else
      match _h : afterOption (opt :: rest) with
      -- A malformed option ends the scan.
      | none => false
      | some rest' => containsSourceRouting rest'
termination_by options.length
decreasing_by
  · exact Nat.lt_succ_self _
  · exact length_afterOption _h

/-- The scan at an option that is neither the end of the list nor a no-op. -/
lemma containsSourceRouting_cons {opt : UInt8} (rest : List UInt8) (hend : opt ≠ 0)
    (hnoOp : opt ≠ 1) : containsSourceRouting (opt :: rest) =
      if IsSourceRoute opt then true
      else (afterOption (opt :: rest)).elim false containsSourceRouting := by
  rw [containsSourceRouting, if_neg hend, if_neg hnoOp]
  congr 1
  split
  · rename_i hafter
    rw [hafter, Option.elim_none]
  · rename_i hafter
    rw [hafter, Option.elim_some]

/-! ## The parser -/

/-- A byte of a packet that is long enough. -/
def byteAt (i : ℕ) : UInt8 := packet.getD i 0

def wordAt (i : ℕ) : UInt16 :=
  fromBeBytes (byteAt packet i) (byteAt packet (i + 1))

def addrAt (i : ℕ) : Ipv4Addr :=
  ⟨byteAt packet i, byteAt packet (i + 1), byteAt packet (i + 2), byteAt packet (i + 3)⟩

/-- `parse_ipv4`: the header, the options and the payload. -/
def parseIpv4 :
    Except Ipv4Error (Ipv4Header × List UInt8 × List UInt8) := do
  ensure (ipv4HeaderMinLen ≤ packet.length) .truncated
  let version := byteAt packet 0 >>> 4
  let ihl := byteAt packet 0 &&& 0x0f
  ensure (version = 4) .badVersion
  ensure (5 ≤ ihl) .badIhl
  let headerLen := ihl.toNat * 4
  ensure (headerLen ≤ packet.length) .truncated
  let totalLen := wordAt packet 2
  ensure (totalLen.toNat ≤ packet.length) .truncated
  ensure (headerLen ≤ totalLen.toNat) .badTotalLen
  ensure (computeChecksum (packet.take headerLen) headerLen = 0) .checksumMismatch
  let ttl := byteAt packet 8
  ensure (ttl ≠ 0) .invalidTtl
  let src := addrAt packet 12
  ensure (src.isValidSource = true) .invalidSource
  let options := (packet.take headerLen).drop ipv4HeaderMinLen
  ensure (containsSourceRouting options = false) .sourceRoutingForbidden
  let payload := (packet.take totalLen.toNat).drop headerLen
  .ok (⟨version, ihl, byteAt packet 1, totalLen, wordAt packet 4, wordAt packet 6, ttl,
    byteAt packet 9, wordAt packet 10, src, addrAt packet 16, headerLen - ipv4HeaderMinLen⟩,
    options, payload)

/-- The length that the first byte of a packet gives its header. -/
def headerLen : ℕ := (byteAt packet 0 &&& 0x0f).toNat * 4

/-- The first `stop` bytes of a packet without the first `i`. -/
abbrev area (stop i : ℕ) : List UInt8 := (packet.take stop).drop i

/-- What the parser has checked of the options it returns. -/
lemma of_parseIpv4 {packet options payload : List UInt8} {header : Ipv4Header}
    (h : parseIpv4 packet = .ok (header, options, payload)) :
    headerLen packet ≤ packet.length ∧ options = area packet (headerLen packet) ipv4HeaderMinLen ∧
      containsSourceRouting options = false := by
  -- The length of the header is the fourth check, the scan the tenth.
  iterate 3 obtain ⟨_, -, h⟩ := bind_eq_ok h
  obtain ⟨_, hlen, h⟩ := bind_eq_ok h
  iterate 5 obtain ⟨_, -, h⟩ := bind_eq_ok h
  obtain ⟨_, hscan, h⟩ := bind_eq_ok h
  cases h
  exact ⟨ensure_eq_ok.mp hlen, rfl, ensure_eq_ok.mp hscan⟩

/-! ## Receivers -/

/-- A list of options: no-ops and length-delimited options up to an end-of-list or the end of the
area. -/
inductive WellFormed : List UInt8 → Prop
  | nil : WellFormed []
  | endOfList (rest : List UInt8) : WellFormed (0 :: rest)
  | noOp {rest : List UInt8} (h : WellFormed rest) : WellFormed (1 :: rest)
  | option {opt : UInt8} {rest rest' : List UInt8} (hend : opt ≠ 0) (hnoOp : opt ≠ 1)
      (hafter : afterOption (opt :: rest) = some rest') (h : WellFormed rest') :
      WellFormed (opt :: rest)

/-- One move of a receiver: over a no-op, over an option, or over one byte of a malformed option. -/
inductive Skips : List UInt8 → List UInt8 → Prop
  | noOp (rest : List UInt8) : Skips (1 :: rest) rest
  | option {opt : UInt8} {rest rest' : List UInt8} (hend : opt ≠ 0) (hnoOp : opt ≠ 1)
      (hafter : afterOption (opt :: rest) = some rest') : Skips (opt :: rest) rest'
  | malformed {opt : UInt8} {rest : List UInt8} (hend : opt ≠ 0) (hnoOp : opt ≠ 1)
      (hafter : afterOption (opt :: rest) = none) : Skips (opt :: rest) rest

/-- The positions a receiver comes to before an end-of-list. -/
def Reaches : List UInt8 → List UInt8 → Prop := Relation.ReflTransGen Skips

/-- A receiver comes to a source route. -/
def SourceRouted (options : List UInt8) : Prop :=
  ∃ opt rest, Reaches options (opt :: rest) ∧ IsSourceRoute opt

variable {options rest : List UInt8}

/-- No option of a list is malformed. -/
lemma WellFormed.not_malformed {opt : UInt8} (h : WellFormed (opt :: rest)) (hend : opt ≠ 0)
    (hnoOp : opt ≠ 1) : afterOption (opt :: rest) ≠ none := by
  intro hnone
  cases h with
  | endOfList => exact hend rfl
  | noOp => exact hnoOp rfl
  | option _ _ hafter => cases hafter.symm.trans hnone

/-- A receiver stays at the beginnings of options. -/
lemma WellFormed.of_skips (h : WellFormed options)
    (hskips : Skips options rest) : WellFormed rest := by
  cases hskips with
  | noOp =>
    cases h with
    | noOp h => exact h
    | option _ hnoOp => exact absurd rfl hnoOp
  | option hend hnoOp hafter =>
    cases h with
    | endOfList => exact absurd rfl hend
    | noOp => exact absurd rfl hnoOp
    | option _ _ hafter' h => exact Option.some.inj (hafter'.symm.trans hafter) ▸ h
  | malformed hend hnoOp hafter => exact absurd hafter (h.not_malformed hend hnoOp)

/-- From byte `i` of a header of `stop` bytes on: every option before an end-of-list has a length byte,
which is at least two and ends within the header.  The header has at most `fuel` bytes left. -/
def lengthsFitFrom (packet : List UInt8) (stop : ℕ) : (fuel i : ℕ) → Bool
  | 0, _ => true
  | fuel + 1, i =>
    if stop ≤ i ∨ byteAt packet i = 0 then true
    else if byteAt packet i = 1 then lengthsFitFrom packet stop fuel (i + 1)
    else
      let len := (byteAt packet (i + 1)).toNat
      i + 1 < stop ∧ 2 ≤ len ∧ i + len ≤ stop ∧ lengthsFitFrom packet stop fuel (i + len)

/-- The length bytes among the options of a packet, which are at most forty bytes, fit. -/
def lengthsFit (packet : List UInt8) : Bool :=
  lengthsFitFrom packet (headerLen packet) 40 ipv4HeaderMinLen

section Bytes

variable {packet : List UInt8} {stop i : ℕ}

lemma area_eq_cons (hstop : stop ≤ packet.length) (hi : i < stop) :
    area packet stop i = byteAt packet i :: area packet stop (i + 1) := by
  have hlen : i < (packet.take stop).length := by
    rw [List.length_take]
    omega
  rw [area, List.drop_eq_getElem_cons hlen, List.getElem_take, byteAt, List.getD_eq_getElem?_getD,
    List.getElem?_eq_getElem (hi.trans_le hstop), Option.getD_some]

lemma area_of_le (hle : stop ≤ i) : area packet stop i = [] :=
  List.drop_eq_nil_of_le ((List.length_take_le _ _).trans hle)

/-- Where an option begins, its length byte decides what follows. -/
lemma afterOption_area (hstop : stop ≤ packet.length) (hi : i < stop) :
    afterOption (area packet stop i) =
      if i + 1 < stop ∧ 2 ≤ (byteAt packet (i + 1)).toNat ∧ i + (byteAt packet (i + 1)).toNat ≤ stop then
        some (area packet stop (i + (byteAt packet (i + 1)).toNat))
      else none := by
  have hlen : (area packet stop i).length = stop - i := by
    rw [area, List.length_drop, List.length_take, min_eq_left hstop]
  rw [area_eq_cons hstop hi]
  by_cases hnext : i + 1 < stop
  · rw [area_eq_cons hstop hi, area_eq_cons hstop hnext] at hlen
    rw [area_eq_cons hstop hnext, afterOption, hlen, ← area_eq_cons hstop hnext,
      ← area_eq_cons hstop hi, List.drop_drop]
    have htwo : byteAt packet (i + 1) < 2 ↔ (byteAt packet (i + 1)).toNat < 2 :=
      UInt8.lt_iff_toNat_lt
    simp only [htwo]
    split_ifs <;> first | rfl | omega
  · rw [area_of_le (not_lt.mp hnext), if_neg fun h => hnext h.1]
    rfl

/-- The length bytes fit exactly if the bytes are a list of options. -/
lemma lengthsFitFrom_iff (hstop : stop ≤ packet.length) {fuel : ℕ} (hfuel : stop - i ≤ fuel) :
    lengthsFitFrom packet stop fuel i = true ↔ WellFormed (area packet stop i) := by
  induction fuel generalizing i with
  | zero =>
    rw [area_of_le (by omega)]
    exact iff_of_true rfl .nil
  | succ fuel ih =>
    have hrec : ∀ n, 0 < n →
        (lengthsFitFrom packet stop fuel (i + n) = true ↔ WellFormed (area packet stop (i + n))) :=
      fun n hn => ih (by omega)
    rw [lengthsFitFrom]
    split_ifs with hstops hnoOp
    · refine iff_of_true rfl ?_
      by_cases hle : stop ≤ i
      · rw [area_of_le hle]
        exact .nil
      rw [area_eq_cons hstop (not_le.mp hle), hstops.resolve_left hle]
      exact .endOfList _
    · rw [not_or, not_le] at hstops
      rw [hrec 1 one_pos, area_eq_cons hstop hstops.1, hnoOp]
      exact ⟨.noOp, fun h => h.of_skips (.noOp _)⟩
    · rw [not_or, not_le] at hstops
      have hafter := afterOption_area hstop hstops.1
      rw [decide_eq_true_iff]
      rw [area_eq_cons hstop hstops.1] at hafter ⊢
      split_ifs at hafter with hfit
      · rw [hrec _ (by omega)]
        exact ⟨fun h => .option hstops.2 hnoOp hafter h.2.2.2, fun h =>
          ⟨hfit.1, hfit.2.1, hfit.2.2, h.of_skips (.option hstops.2 hnoOp hafter)⟩⟩
      · refine iff_of_false (fun h => hfit ⟨h.1, h.2.1, h.2.2.1⟩) fun h => ?_
        exact h.not_malformed hstops.2 hnoOp hafter

end Bytes

section Scan

variable (h : WellFormed options) (hscan : containsSourceRouting options = false)
include h hscan

/-- A scan that found nothing finds nothing further on in a list of options. -/
lemma containsSourceRouting_of_skips (hskips : Skips options rest) :
    containsSourceRouting rest = false := by
  cases hskips with
  | noOp => rwa [containsSourceRouting, if_neg (by decide), if_pos rfl] at hscan
  | option hend hnoOp hafter =>
    rw [containsSourceRouting_cons _ hend hnoOp, hafter] at hscan
    split_ifs at hscan
    exact hscan
  | malformed hend hnoOp hafter => exact absurd hafter (h.not_malformed hend hnoOp)

lemma containsSourceRouting_of_reaches (hreaches : Reaches options rest) :
    WellFormed rest ∧ containsSourceRouting rest = false := by
  induction hreaches with
  | refl => exact ⟨h, hscan⟩
  | tail _ hskips ih =>
    exact ⟨ih.1.of_skips hskips, containsSourceRouting_of_skips ih.1 ih.2 hskips⟩

/-- A list of options in which the scan found nothing has no source route. -/
lemma WellFormed.not_sourceRouted : ¬ SourceRouted options := by
  rintro ⟨opt, rest, hreaches, hroute⟩
  obtain ⟨-, hfalse⟩ := containsSourceRouting_of_reaches h hscan hreaches
  have hother : opt ≠ 0 ∧ opt ≠ 1 := by
    rcases hroute with rfl | rfl <;> decide
  rw [containsSourceRouting_cons rest hother.1 hother.2, if_pos hroute] at hfalse
  cases hfalse

end Scan

/-- The options of an accepted packet are well formed and hide no source route exactly if the length
bytes of the packet fit. -/
theorem options_safe_iff {packet options payload : List UInt8} {header : Ipv4Header}
    (h : parseIpv4 packet = .ok (header, options, payload)) :
    (WellFormed options ∧ ¬ SourceRouted options) ↔ lengthsFit packet = true := by
  obtain ⟨hlen, rfl, hscan⟩ := of_parseIpv4 h
  have hfuel : headerLen packet - ipv4HeaderMinLen ≤ 40 := by
    have hand : (byteAt packet 0 &&& 0x0f).toNat ≤ 15 := by
      rw [UInt8.toNat_and]
      exact Nat.and_le_right
    unfold headerLen ipv4HeaderMinLen
    omega
  rw [lengthsFit, lengthsFitFrom_iff hlen hfuel]
  exact ⟨And.left, fun hformed => ⟨hformed, hformed.not_sourceRouted hscan⟩⟩

/-- A record of three bytes, a no-op, a timestamp of four, the end of the list, and behind it the bytes
of a source route. -/
def endedOptions : List UInt8 := [7, 3, 4, 1, 68, 4, 5, 0, 0, 131, 3, 4]

def endedPacket : List UInt8 :=
  [0x48, 0, 0, 32, 0, 0, 0, 0, 64, 17, 12, 60, 10, 0, 0, 1, 10, 0, 0, 2] ++ endedOptions

theorem options_safe_ended : ∃ header, parseIpv4 endedPacket = .ok (header, endedOptions, []) ∧
    WellFormed endedOptions ∧ ¬ SourceRouted endedOptions := by
  have hparse : parseIpv4 endedPacket = .ok (⟨4, 8, 0, 32, 0, 0, 64, 17, 0xc3c, ⟨10, 0, 0, 1⟩,
      ⟨10, 0, 0, 2⟩, 12⟩, endedOptions, []) := by decide +kernel
  exact ⟨_, hparse, (options_safe_iff hparse).mpr (by decide +kernel)⟩

/-- An option of length one, and behind it a loose source route through 192.168.0.1. -/
def hiddenRoute : List UInt8 := [7, 1, 0x83, 7, 4, 192, 168, 0, 1, 0, 0, 0]

def hiddenRoutePacket : List UInt8 :=
  [0x48, 0, 0, 32, 0, 0, 0, 0, 64, 17, 44, 2, 10, 0, 0, 1, 10, 0, 0, 2] ++ hiddenRoute

/-- The packet is accepted, its options are no well-formed list, and a receiver that skips the
malformed option byte by byte comes to the source route. -/
theorem hidden_route_accepted :
    (∃ header, parseIpv4 hiddenRoutePacket = .ok (header, hiddenRoute, [])) ∧
      ¬ WellFormed hiddenRoute ∧ SourceRouted hiddenRoute := by
  have hparse : parseIpv4 hiddenRoutePacket = .ok (⟨4, 8, 0, 32, 0, 0, 64, 17, 0x2c02,
      ⟨10, 0, 0, 1⟩, ⟨10, 0, 0, 2⟩, 12⟩, hiddenRoute, []) := by decide +kernel
  have hmalformed : ∀ rest, afterOption (7 :: 1 :: rest) = none := fun _ => rfl
  refine ⟨⟨_, hparse⟩, fun hformed => ?_, 0x83, [7, 4, 192, 168, 0, 1, 0, 0, 0], ?_, .inl rfl⟩
  · exact hformed.not_malformed (by decide) (by decide) (hmalformed _)
  · -- Over the type of the malformed option; its length then reads as a no-op.
    exact .tail (.single (.malformed (by decide) (by decide) (hmalformed _))) (.noOp _)

end Nilix.Net.Ipv4
