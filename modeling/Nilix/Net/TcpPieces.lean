import Nilix.Net.TcpReceive

/-!
# The out-of-order queue as pieces of the peer's stream

A peer sends a fixed stream of bytes with a FIN at its end.  A segment that is consistent with the
stream is a *piece* of it: two positions, and whether the FIN follows.  The out-of-order queue holds
separated pieces, and this module relates its operations to operations on pieces: the merging of an
insertion is the union of the pieces that overlap or are next to each other, and the merged payload
is the piece of the stream.

The sequence numbers of pieces compare like their positions as long as all positions in play lie in
an interval `[lo, hi]` of less than half of the range of sequence numbers (`Within`).
-/

namespace Nilix.Net.Tcp

open Finset Serial Bool MergeSpan List

/-- A piece of the stream. -/
structure Piece where
  start : ℕ
  stop : ℕ
  fin : Bool

namespace Piece

/-- A piece that is not empty lies in a stream of the given length, and a FIN is at the end of the
stream. -/
structure Good (len : ℕ) (p : Piece) : Prop where
  lt : p.start < p.stop
  le : p.stop ≤ len
  fin : p.fin = true → p.stop = len

/-- All positions of the piece, and the one behind its FIN, are in an interval. -/
structure Within (lo hi : ℕ) (p : Piece) : Prop where
  lo : lo ≤ p.start
  hi : p.stop + 1 ≤ hi

/-- The number of bytes of a piece. -/
def size (p : Piece) : ℕ := p.stop - p.start

/-- The segment of a piece. -/
def toSeg (base : Seq) (stream : List UInt8) (p : Piece) : OooSegment where
  seq := seqAt base p.start
  data := slice stream p.start p.stop
  fin := p.fin

/-- The range of a piece. -/
def toSpan (base : Seq) (p : Piece) : MergeSpan where
  start := seqAt base p.start
  dataEnd := seqAt base p.stop
  finPos := if p.fin then some (seqAt base p.stop) else none

/-- Two pieces overlap or are next to each other. -/
def touches (m p : Piece) : Bool :=
  decide (m.start ≤ p.stop + p.fin.toNat) && decide (p.start ≤ m.stop + m.fin.toNat)

/-- The union with a piece that touches. -/
def absorb (m p : Piece) : Piece :=
  if m.touches p then ⟨min m.start p.start, max m.stop p.stop, m.fin || p.fin⟩ else m

section Segments

variable {base : Seq} {stream : List UInt8} {lo hi : ℕ} {m p : Piece}

lemma length_toSeg (hp : p.Good stream.length) : (p.toSeg base stream).data.length = p.size :=
  length_slice hp.le

lemma dataEnd_toSeg (hp : p.Good stream.length) :
    (p.toSeg base stream).dataEnd = seqAt base p.stop := by
  have hlt := hp.lt
  rw [OooSegment.dataEnd, length_toSeg hp, size]
  change seqAt base p.start + _ = _
  rw [seqAt_add, Nat.add_sub_cancel' hlt.le]

lemma seqEnd_toSeg (hp : p.Good stream.length) :
    (p.toSeg base stream).seqEnd = seqAt base (p.stop + p.fin.toNat) := by
  rw [OooSegment.seqEnd, dataEnd_toSeg hp]
  cases hfin : p.fin with
  | false => simp [toSeg, hfin]
  | true =>
    rw [← seqAt_add]
    simp [toSeg, hfin]

lemma seqEnd_toSpan : (m.toSpan base).seqEnd = seqAt base (m.stop + m.fin.toNat) := by
  rw [seqEnd]
  cases hfin : m.fin with
  | false => simp [toSpan, hfin]
  | true =>
    rw [← seqAt_add]
    simp [toSpan, hfin]

/-- Positions of pieces within a common interval are near. -/
lemma Within.near (hhalf : hi < lo + 2 ^ 31) {x y : ℕ} (hx : lo ≤ x ∧ x ≤ hi)
    (hy : lo ≤ y ∧ y ≤ hi) : Serial.Near 32 x y := near_of_le hx hy hhalf

lemma touches_toSpan (base : Seq) (hhalf : hi < lo + 2 ^ 31) (hm : m.Within lo hi) (hp : p.Within lo hi)
    (hmlt : m.start < m.stop) (hgood : p.Good stream.length) :
    (m.toSpan base).touches (p.toSeg base stream) = m.touches p := by
  obtain ⟨hmlo, hmhi⟩ := hm
  obtain ⟨hplo, hphi⟩ := hp
  have hplt := hgood.lt
  have hmfin := toNat_le m.fin
  have hpfin := toNat_le p.fin
  rw [MergeSpan.touches, seqEnd_toSeg hgood, seqEnd_toSpan]
  change (seqLe (seqAt base m.start) _ && seqLe (seqAt base p.start) _) = _
  rw [seqLe_seqAt base (Within.near hhalf ⟨by omega, by omega⟩ ⟨by omega, by omega⟩),
    seqLe_seqAt base (Within.near hhalf ⟨by omega, by omega⟩ ⟨by omega, by omega⟩), touches]

lemma Good.of_touches {len : ℕ} (hm : m.Good len) (hp : p.Good len) (h : m.touches p = true) :
    m.start ≤ p.stop ∧ p.start ≤ m.stop := by
  obtain ⟨hmlt, hmle, hmfin⟩ := hm
  obtain ⟨hplt, hple, hpfin⟩ := hp
  rw [touches, and_eq_true, decide_eq_true_iff, decide_eq_true_iff] at h
  constructor
  · cases hfin : p.fin with
    | false => simpa [hfin] using h.1
    | true =>
      have := hpfin hfin
      omega
  cases hfin : m.fin with
  | false => simpa [hfin] using h.2
  | true =>
    have := hmfin hfin
    omega

lemma Good.absorb {len : ℕ} (hm : m.Good len) (hp : p.Good len) : (m.absorb p).Good len := by
  unfold Piece.absorb
  split
  · obtain ⟨hmlt, hmle, hmfin⟩ := hm
    obtain ⟨hplt, hple, hpfin⟩ := hp
    refine ⟨?_, ?_, fun hfin => ?_⟩
    · change min m.start p.start < max m.stop p.stop
      omega
    · exact max_le hmle hple
    · change max m.stop p.stop = len
      rcases or_eq_true_iff.mp hfin with h | h
      · have := hmfin h
        omega
      have := hpfin h
      omega
  · exact hm

lemma Within.absorb (hm : m.Within lo hi) (hp : p.Within lo hi) : (m.absorb p).Within lo hi := by
  unfold Piece.absorb
  split
  · obtain ⟨hmlo, hmhi⟩ := hm
    obtain ⟨hplo, hphi⟩ := hp
    exact ⟨le_min hmlo hplo, by change max m.stop p.stop + 1 ≤ hi; omega⟩
  · exact hm

/-- The position of the FIN of a union is the end of the union. -/
lemma mergeFin_toSpan (hm : m.Good stream.length) (hp : p.Good stream.length) :
    (m.toSpan base).mergeFin (p.toSeg base stream) =
      if m.fin || p.fin then some (seqAt base (max m.stop p.stop)) else none := by
  have hmle := hm.le
  have hple := hp.le
  rw [mergeFin, dataEnd_toSeg hp]
  cases hpfin : p.fin with
  | false =>
    cases hmfin : m.fin with
    | false => simp [toSeg, toSpan, hpfin, hmfin]
    | true =>
      have hmax : max m.stop p.stop = m.stop := max_eq_left (by have := hm.fin hmfin; omega)
      simp [toSeg, toSpan, hpfin, hmfin, hmax]
  | true =>
    have hmax : max m.stop p.stop = p.stop := max_eq_right (by have := hp.fin hpfin; omega)
    cases hmfin : m.fin with
    | false => simp [toSeg, toSpan, hpfin, hmfin, hmax]
    | true =>
      have heq : m.stop = p.stop := (hm.fin hmfin).trans (hp.fin hpfin).symm
      simp [toSeg, toSpan, hpfin, hmfin, heq]

lemma absorb_toSpan (base : Seq) (hhalf : hi < lo + 2 ^ 31) (hm : m.Within lo hi)
    (hp : p.Within lo hi) (hmgood : m.Good stream.length) (hgood : p.Good stream.length) :
    (m.toSpan base).absorb (p.toSeg base stream) = (m.absorb p).toSpan base := by
  obtain ⟨hmlo, hmhi⟩ := hm
  obtain ⟨hplo, hphi⟩ := hp
  have hmlt := hmgood.lt
  have hplt := hgood.lt
  rw [MergeSpan.absorb, touches_toSpan base hhalf ⟨hmlo, hmhi⟩ ⟨hplo, hphi⟩ hmlt hgood,
    mergeFin_toSpan hmgood hgood, dataEnd_toSeg hgood, Piece.absorb]
  cases m.touches p with
  | false => rfl
  | true =>
    have hstart : (if seqLe (p.toSeg base stream).seq (m.toSpan base).start then
        (p.toSeg base stream).seq else (m.toSpan base).start) =
          seqAt base (min m.start p.start) := by
      change (if seqLe (seqAt base p.start) (seqAt base m.start) then seqAt base p.start
        else seqAt base m.start) = _
      rw [seqLe_seqAt base (Within.near hhalf ⟨by omega, by omega⟩ ⟨by omega, by omega⟩),
        min_comm, min_def, apply_ite (seqAt base)]
      simp only [decide_eq_true_eq]
    have hend : (if seqGe (seqAt base p.stop) (m.toSpan base).dataEnd then seqAt base p.stop
        else (m.toSpan base).dataEnd) = seqAt base (max m.stop p.stop) := by
      change (if seqGe (seqAt base p.stop) (seqAt base m.stop) then seqAt base p.stop
        else seqAt base m.stop) = _
      rw [seqGe_seqAt base (Within.near hhalf ⟨by omega, by omega⟩ ⟨by omega, by omega⟩),
        max_def, apply_ite (seqAt base)]
      simp only [decide_eq_true_eq]
    have hself : ∀ x : Seq, seqLt x x = false := by
      intro x
      simp [seqLt, lt]
    simp only [Bool.not_true, Bool.false_eq_true, if_false, hstart, hend]
    cases m.fin || p.fin with
    | false => simp [toSpan]
    | true => simp [toSpan, hself]

/-- An absorbed piece changes nothing or moves an end of the union. -/
lemma absorb_eq_or (m p : Piece) :
    m.absorb p = m ∨ (m.absorb p).start ≤ m.start ∧ m.stop ≤ (m.absorb p).stop ∧
      (m.fin = true → (m.absorb p).fin = true) ∧
      ((m.absorb p).start < m.start ∨ m.stop < (m.absorb p).stop ∨
        m.fin = false ∧ (m.absorb p).fin = true) := by
  unfold Piece.absorb
  split
  · refine or_iff_not_imp_left.mpr fun hne => ⟨min_le_left _ _, le_max_left _ _, ?_, ?_⟩
    · intro h
      simp [h]
    · change min m.start p.start < m.start ∨ m.stop < max m.stop p.stop ∨
        m.fin = false ∧ (m.fin || p.fin) = true
      by_contra hall
      push Not at hall
      obtain ⟨hstart, hstop, hfin⟩ := hall
      refine hne ?_
      have h1 : min m.start p.start = m.start := by omega
      have h2 : max m.stop p.stop = m.stop := by omega
      have h3 : (m.fin || p.fin) = m.fin := by
        cases hm : m.fin with
        | true => rfl
        | false => simpa [hm] using hfin hm
      rw [h1, h2, h3]
  · exact .inl rfl

end Segments

/-! ## The range of an insertion -/

/-- The piece `m` is made of the new piece and pieces of the queue. -/
structure Spans (new : Piece) (pieces : List Piece) (m : Piece) : Prop where
  start_le : m.start ≤ new.start
  le_stop : new.stop ≤ m.stop
  covered : ∀ x, m.start ≤ x → x < m.stop → (new.start ≤ x ∧ x < new.stop) ∨
    ∃ p ∈ pieces, m.start ≤ p.start ∧ p.stop ≤ m.stop ∧ p.start ≤ x ∧ x < p.stop

section Merge

variable {base : Seq} {stream : List UInt8} {lo hi : ℕ} {new m p : Piece} {pieces : List Piece}

lemma Spans.refl (new : Piece) (pieces : List Piece) : Spans new pieces new :=
  ⟨le_rfl, le_rfl, fun _ hlo hhi => .inl ⟨hlo, hhi⟩⟩

/-- A union with a piece of the queue that touches has no gap. -/
lemma Spans.absorb {len : ℕ} (h : Spans new pieces m) (hm : m.Good len) (hp : p.Good len)
    (hmem : p ∈ pieces) : Spans new pieces (m.absorb p) := by
  unfold Piece.absorb
  split
  · rename_i htouch
    obtain ⟨hleft, hright⟩ := hm.of_touches hp htouch
    refine ⟨(min_le_left _ _).trans h.start_le, h.le_stop.trans (le_max_left _ _), ?_⟩
    intro x hlo hhi
    change min m.start p.start ≤ x at hlo
    change x < max m.stop p.stop at hhi
    by_cases hin : p.start ≤ x ∧ x < p.stop
    · exact .inr ⟨p, hmem, min_le_right _ _, le_max_right _ _, hin.1, hin.2⟩
    refine (h.covered x (by omega) (by omega)).imp_right ?_
    rintro ⟨q, hq, hqlo, hqhi, hx⟩
    exact ⟨q, hq, (min_le_left _ _).trans hqlo, hqhi.trans (le_max_left _ _), hx⟩
  · exact h

/-- What the scans of an insertion keep. -/
structure SpanInv (stream : List UInt8) (lo hi : ℕ) (new : Piece) (pieces : List Piece)
    (m : Piece) : Prop where
  good : m.Good stream.length
  within : m.Within lo hi
  spans : Spans new pieces m

/-- The room that is left for the ends of a range to move. -/
def slack (base : Seq) (lo : ℕ) (s : MergeSpan) : ℕ :=
  Serial.dist (seqAt base lo) s.start + (2 ^ 31 - Serial.dist (seqAt base lo) s.dataEnd) +
    if s.finPos.isSome then 0 else 1

section

variable (base : Seq) (hhalf : hi < lo + 2 ^ 31)
include hhalf

lemma slack_toSpan (hm : m.Within lo hi) (hlt : m.start < m.stop) : slack base lo (m.toSpan base) =
      (m.start - lo) + (2 ^ 31 - (m.stop - lo)) + if m.fin then 0 else 1 := by
  obtain ⟨hmlo, hmhi⟩ := hm
  have hstart := dist_seqAt base hmlo (by omega)
  have hstop : dist (seqAt base lo) (seqAt base m.stop) = m.stop - lo :=
    dist_seqAt base (by omega) (by omega)
  rw [slack]
  change dist _ (seqAt base m.start) + (2 ^ 31 - dist _ (seqAt base m.stop)) + _ = _
  rw [hstart, hstop]
  cases hfin : m.fin <;> simp [toSpan, hfin]

/-- A step of a scan leaves the range of a piece, with less room if it changed. -/
lemma SpanInv.absorb (h : SpanInv stream lo hi new pieces m)
    (hmem : p ∈ pieces) (hp : p.Good stream.length) (hpw : p.Within lo hi) :
    SpanInv stream lo hi new pieces (m.absorb p) ∧ (m.absorb p = m ∨
        slack base lo ((m.absorb p).toSpan base) < slack base lo (m.toSpan base)) := by
  have hgood := h.good.absorb hp
  have hwithin := h.within.absorb hpw
  refine ⟨⟨hgood, hwithin, h.spans.absorb h.good hp hmem⟩, ?_⟩
  refine (absorb_eq_or m p).imp_right ?_
  rintro ⟨hstart, hstop, hfin, hmoved⟩
  rw [slack_toSpan base hhalf hwithin hgood.lt, slack_toSpan base hhalf h.within h.good.lt]
  have hlo := hwithin.lo
  have hhi := hwithin.hi
  have hlt := hgood.lt
  have hmlt := h.good.lt
  have hcase : (if (m.absorb p).fin then 0 else 1) ≤ if m.fin then 0 else 1 := by
    cases hm : m.fin with
    | false => split <;> simp
    | true => simp [hfin hm]
  rcases hmoved with hmoved | hmoved | ⟨hnot, hnow⟩
  · omega
  · omega
  · rw [hnot, hnow]
    simp only [if_true, Bool.false_eq_true, if_false]
    omega

/-- A scan leaves the range of a piece, with less room if it changed. -/
lemma SpanInv.scan (h : SpanInv stream lo hi new pieces m) {queue : List Piece}
    (hqueue : ∀ p ∈ queue, p ∈ pieces ∧ p.Good stream.length ∧ p.Within lo hi) (changed : Bool) :
    ∃ m', SpanInv stream lo hi new pieces m' ∧
      slack base lo (m'.toSpan base) ≤ slack base lo (m.toSpan base) ∧
      ∃ changed', (queue.map (toSeg base stream)).foldl MergeSpan.scanStep
          (m.toSpan base, changed) = (m'.toSpan base, changed') ∧
        (changed' = true → changed = true ∨
          slack base lo (m'.toSpan base) < slack base lo (m.toSpan base)) := by
  induction queue generalizing m changed with
  | nil => exact ⟨m, h, le_rfl, changed, rfl, .inl⟩
  | cons p queue ih =>
    obtain ⟨hmem, hgood, hwithin⟩ := hqueue p mem_cons_self
    obtain ⟨habsorb, hmoved⟩ := h.absorb base hhalf hmem hgood hwithin
    obtain ⟨m', hm', hle, changed', hfold, hchanged⟩ := ih habsorb
      (fun q hq => hqueue q (mem_cons_of_mem _ hq))
      (changed || decide ((m.absorb p).toSpan base ≠ m.toSpan base))
    refine ⟨m', hm', ?_, changed', ?_, fun htrue => ?_⟩
    · rcases hmoved with heq | hlt
      · rwa [heq] at hle
      · exact hle.trans hlt.le
    · rw [List.map_cons, List.foldl_cons, scanStep,
        absorb_toSpan base hhalf h.within hwithin h.good hgood]
      exact hfold
    · rcases hmoved with heq | hlt
      · rw [heq] at hle hchanged
        simpa using hchanged htrue
      · exact .inr (hle.trans_lt hlt)

/-- The scans of an insertion end with the range of a union of the new piece and pieces of the
queue. -/
lemma exists_mergeAll (hnew : new.Good stream.length) (hwithin : new.Within lo hi)
    (hpieces : ∀ p ∈ pieces, p.Good stream.length ∧ p.Within lo hi) :
    ∃ m, MergeSpan.mergeAll (pieces.map (toSeg base stream)) (new.toSpan base) = m.toSpan base ∧
      SpanInv stream lo hi new pieces m := by
  have hqueue : ∀ p ∈ pieces, p ∈ pieces ∧ p.Good stream.length ∧ p.Within lo hi :=
    fun p hp => ⟨hp, hpieces p hp⟩
  have hstart : SpanInv stream lo hi new pieces new := ⟨hnew, hwithin, .refl new pieces⟩
  obtain ⟨k, r, hk, hruns, m, rfl, hm⟩ := Loop.Runs.of_measure
    (mergeRound (pieces.map (toSeg base stream)))
    (fun s => ∃ m, s = toSpan base m ∧ SpanInv stream lo hi new pieces m)
    (fun s => ∃ m, s = toSpan base m ∧ SpanInv stream lo hi new pieces m) (slack base lo)
    (fun s s' hs hnext => by
      obtain ⟨m, rfl, hm⟩ := hs
      obtain ⟨m', hm', -, changed, hfold, hchanged⟩ := hm.scan base hhalf hqueue false
      rw [mergeRound, scan, hfold] at hnext
      cases changed with
      | false => cases hnext
      | true =>
        cases hnext
        exact ⟨⟨m', rfl, hm'⟩, (hchanged rfl).resolve_left (by decide)⟩)
    (fun s r hs hdone => by
      obtain ⟨m, rfl, hm⟩ := hs
      obtain ⟨m', hm', -, changed, hfold, -⟩ := hm.scan base hhalf hqueue false
      rw [mergeRound, scan, hfold] at hdone
      cases changed with
      | false =>
        cases hdone
        exact ⟨m', rfl, hm'⟩
      | true => cases hdone)
    ⟨new, rfl, hstart⟩
  refine ⟨m, ?_, hm⟩
  rw [slack_toSpan base hhalf hwithin hnew.lt] at hk
  have hlt := hnew.lt
  have hlo := hwithin.lo
  have hhi := hwithin.hi
  have hfuel : k ≤ 2 ^ 32 := by
    split at hk <;> omega
  rw [mergeAll, hruns.run_eq_some hfuel]
  rfl

/-- The segments of the queue that touch a range are those of the pieces that touch. -/
lemma filter_touches (h : SpanInv stream lo hi new pieces m)
    (hpieces : ∀ p ∈ pieces, p.Good stream.length ∧ p.Within lo hi) :
    (pieces.map (toSeg base stream)).filter (m.toSpan base).touches =
      (pieces.filter m.touches).map (toSeg base stream) := by
  rw [filter_map]
  congr 1
  refine filter_congr fun p hp => ?_
  exact touches_toSpan base hhalf h.within (hpieces p hp).2 h.good.lt (hpieces p hp).1

/-- The segments of the queue that do not touch a range. -/
lemma filter_not_touches (h : SpanInv stream lo hi new pieces m)
    (hpieces : ∀ p ∈ pieces, p.Good stream.length ∧ p.Within lo hi) :
    (pieces.map (toSeg base stream)).filter (fun existing => !(m.toSpan base).touches existing) =
      (pieces.filter fun p => !m.touches p).map (toSeg base stream) := by
  rw [filter_map]
  congr 1
  refine filter_congr fun p hp => ?_
  rw [Function.comp_apply,
    touches_toSpan base hhalf h.within (hpieces p hp).2 h.good.lt (hpieces p hp).1]

end

lemma touches_of_le (hstart : m.start ≤ p.start) (hstop : p.stop ≤ m.stop)
    (hlt : p.start < p.stop) : m.touches p = true := by
  rw [touches, and_eq_true, decide_eq_true_iff, decide_eq_true_iff]
  omega

lemma length_foldl_copyInto (start : Seq) (queue : List OooSegment) (buf : List UInt8) :
    (queue.foldl (MergeSpan.copyInto start) buf).length = buf.length := by
  induction queue generalizing buf with
  | nil => rfl
  | cons existing queue ih => exact (ih _).trans (length_patch _ _ _)

/-- Copying segments into a buffer puts the bytes of the stream in their place; a segment that starts
before the buffer is not copied. -/
lemma agrees_foldl_copyInto (base : Seq) (hhalf : hi < lo + 2 ^ 31) (hm : m.Within lo hi)
    (hmlt : m.start < m.stop) {queue : List Piece}
    (hqueue : ∀ p ∈ queue, p.Good stream.length ∧ p.Within lo hi)
    {buf : List UInt8} {P : ℕ → Prop} (hbuf : Agrees stream m.start buf P)
    (hlen : buf.length ≤ 2 ^ 31) :
    Agrees stream m.start
      ((queue.map (toSeg base stream)).foldl (MergeSpan.copyInto (seqAt base m.start)) buf)
      fun x => P x ∨ ∃ p ∈ queue, m.start ≤ p.start ∧ p.start ≤ x ∧ x < p.stop := by
  induction queue generalizing buf P with
  | nil => exact hbuf.mono fun x hx => by simpa using hx
  | cons p queue ih =>
    obtain ⟨hgood, hwithin⟩ := hqueue p mem_cons_self
    have hlt := hgood.lt
    have hmlo := hm.lo
    have hmhi := hm.hi
    have hplo := hwithin.lo
    have hphi := hwithin.hi
    have hstep : Agrees stream m.start (patch buf (dist (seqAt base m.start) (seqAt base p.start))
          (slice stream p.start p.stop))
        fun x => P x ∨ (m.start ≤ p.start ∧ p.start ≤ x ∧ x < p.stop) := by
      rcases lt_or_ge p.start m.start with hbefore | hafter
      · have hfar := le_dist_seqAt base hbefore (by omega)
        rw [patch, if_neg (by omega)]
        exact hbuf.mono fun x hx => hx.resolve_right (by omega)
      rw [dist_seqAt base hafter (by omega)]
      exact (hbuf.patch hafter hgood.le).mono fun x hx => hx.imp_right And.right
    have hrest := ih (fun q hq => hqueue q (mem_cons_of_mem _ hq)) hstep
      (by rwa [length_patch])
    rw [List.map_cons, List.foldl_cons]
    refine hrest.mono fun x hx => ?_
    rcases hx with hx | ⟨q, hq, hx⟩
    · exact .inl (.inl hx)
    rcases mem_cons.mp hq with rfl | hq
    · exact .inl (.inr hx)
    · exact .inr ⟨q, hq, hx⟩

/-- The bytes of the range of an insertion are the bytes of the stream. -/
lemma mergedData_eq (base : Seq) (hhalf : hi < lo + 2 ^ 31)
    (h : SpanInv stream lo hi new pieces m) (hnew : new.Good stream.length)
    (hpieces : ∀ p ∈ pieces, p.Good stream.length ∧ p.Within lo hi) :
    (m.toSpan base).mergedData (pieces.map (toSeg base stream)) (seqAt base new.start)
      (slice stream new.start new.stop) = slice stream m.start m.stop := by
  have hlt := h.good.lt
  have hlo := h.within.lo
  have hhi := h.within.hi
  have hstart := h.spans.start_le
  have hstop := h.spans.le_stop
  have hnewlt := hnew.lt
  have hlen : (seqAt base m.stop - seqAt base m.start).toNat = m.stop - m.start :=
    dist_seqAt base hlt.le (by omega)
  have hoffset : (seqAt base new.start - seqAt base m.start).toNat = new.start - m.start :=
    dist_seqAt base hstart (by omega)
  rw [mergedData, filter_touches base hhalf h hpieces]
  change patch (foldl (copyInto (seqAt base m.start))
    (replicate (seqAt base m.stop - seqAt base m.start).toNat 0) _)
    (seqAt base new.start - seqAt base m.start).toNat _ = _
  rw [hlen, hoffset]
  have hfold := agrees_foldl_copyInto base hhalf h.within hlt
    (fun p hp => hpieces p (mem_of_mem_filter hp) : ∀ p ∈ pieces.filter m.touches, _)
    (Agrees.empty stream (replicate (m.stop - m.start) 0) m.start)
    (by rw [length_replicate]; omega)
  have hbuflen : (((pieces.filter m.touches).map (toSeg base stream)).foldl
      (copyInto (seqAt base m.start)) (replicate (m.stop - m.start) 0)).length =
      m.stop - m.start := by
    rw [length_foldl_copyInto, length_replicate]
  have hall := (hfold.patch hstart hnew.le).eq_slice fun x hxlo hxhi => by
    rw [length_patch, hbuflen] at hxhi
    rcases h.spans.covered x hxlo (by omega) with hx | ⟨p, hp, hpstart, hpstop, hx⟩
    · exact .inr hx
    refine .inl (.inr ⟨p, mem_filter.mpr ⟨hp, ?_⟩, hpstart, hx⟩)
    exact touches_of_le hpstart hpstop (hpieces p hp).1.lt
  rw [length_patch, hbuflen, Nat.add_sub_cancel' hlt.le] at hall
  exact hall

/-- A union is no longer than the pieces it is made of. -/
lemma Spans.size_le (h : Spans new pieces m) (hpieces : ∀ p ∈ pieces, p.start < p.stop) :
    m.size ≤ new.size + ((pieces.filter m.touches).map size).sum := by
  classical
  have hcount : ∀ queue : List Piece,
      ((Finset.Ico m.start m.stop).filter fun x => ∃ p ∈ queue, p.start ≤ x ∧ x < p.stop).card ≤
        (queue.map size).sum := by
    intro queue
    induction queue with
    | nil => simp
    | cons p queue ih =>
      have hsub : ((Finset.Ico m.start m.stop).filter
          fun x => ∃ q ∈ p :: queue, q.start ≤ x ∧ x < q.stop) ⊆
          Finset.Ico p.start p.stop ∪ ((Finset.Ico m.start m.stop).filter
            fun x => ∃ q ∈ queue, q.start ≤ x ∧ x < q.stop) := by
        intro x hx
        simp only [Finset.mem_filter, mem_union, mem_Ico, List.mem_cons, exists_eq_or_imp] at hx ⊢
        rcases hx.2 with hp | hq
        · exact .inl hp
        · exact .inr ⟨hx.1, hq⟩
      calc _ ≤ _ := card_le_card hsub
        _ ≤ _ := card_union_le _ _
        _ ≤ _ := by
          rw [Nat.card_Ico, List.map_cons, List.sum_cons]
          exact add_le_add le_rfl ih
  have hcover : Finset.Ico m.start m.stop ⊆ Finset.Ico new.start new.stop ∪
      ((Finset.Ico m.start m.stop).filter
        fun x => ∃ p ∈ pieces.filter m.touches, p.start ≤ x ∧ x < p.stop) := by
    intro x hx
    obtain ⟨hlo, hhi⟩ := mem_Ico.mp hx
    rw [mem_union, mem_Ico, Finset.mem_filter]
    refine (h.covered x hlo hhi).imp_right ?_
    rintro ⟨p, hp, hpstart, hpstop, hin⟩
    exact ⟨hx, p, mem_filter.mpr ⟨hp, touches_of_le hpstart hpstop (hpieces p hp)⟩, hin⟩
  calc m.size = (Finset.Ico m.start m.stop).card := (Nat.card_Ico _ _).symm
    _ ≤ _ := card_le_card hcover
    _ ≤ _ := card_union_le _ _
    _ ≤ _ := by
      rw [Nat.card_Ico]
      exact add_le_add le_rfl (hcount _)

end Merge

/-! ## The place of a piece in the queue -/

/-- The pieces with a further one before the first that starts behind its start. -/
def place (q : Piece) (pieces : List Piece) : List Piece :=
  let i := pieces.findIdx fun p => decide (q.start < p.start)
  pieces.take i ++ q :: pieces.drop i

section Place

variable {q p : Piece} {pieces : List Piece}

lemma perm_place (q : Piece) (pieces : List Piece) : (q.place pieces).Perm (q :: pieces) := by
  rw [place]
  generalize pieces.findIdx _ = i
  conv_rhs => rw [← take_append_drop i pieces]
  exact perm_middle

lemma forall_mem_place {P : Piece → Prop} (hq : P q) (h : ∀ p ∈ pieces, P p) :
    ∀ p ∈ q.place pieces, P p :=
  fun p hp => forall_mem_cons.mpr ⟨hq, h⟩ p ((perm_place q pieces).subset hp)

lemma sum_size_place (q : Piece) (pieces : List Piece) :
    ((q.place pieces).map size).sum = q.size + (pieces.map size).sum :=
  ((perm_place q pieces).map size).sum_eq

/-- A piece apart from all others has its place among them. -/
lemma separated_place (h : pieces.Pairwise fun a b => a.stop < b.start)
    (hlt : ∀ p ∈ pieces, p.start < p.stop) (hq : q.start < q.stop)
    (hapart : ∀ p ∈ pieces, p.stop < q.start ∨ q.stop < p.start) :
    (q.place pieces).Pairwise fun a b => a.stop < b.start := by
  refine pairwise_insertAt h ?_ ?_ ?_
  · intro p hp hle
    have hplt := hlt p hp
    have := hapart p hp
    simp only [decide_eq_false_iff_not] at hle
    omega
  · intro p hp hle
    have hplt := hlt p hp
    have := hapart p hp
    simp only [decide_eq_true_iff] at hle
    omega
  · intro p hp p' hp' hsep hle
    have hplt := hlt p hp
    simp only [decide_eq_true_iff] at hle ⊢
    omega

end Place

end Piece

end Nilix.Net.Tcp
