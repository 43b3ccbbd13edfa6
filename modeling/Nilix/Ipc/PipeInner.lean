import Nilix.Foundation.Ring

/-!
# The ring of a pipe

`PipeInner` is the part of a pipe that its lock protects: a ring of bytes with a read position and a
length, and the flag of a read transaction.  A reader with a transaction has copied a prefix out and
consumes it later; until then the flag keeps every other reader away from the prefix.

What the ring is for is a queue of bytes, `PipeInner.contents`.
-/

namespace Nilix.Ipc

open List

/-- Writes of at most this many bytes are atomic. -/
def PIPE_BUF : ℕ := 4096

/-- The state behind the lock of a pipe. -/
structure PipeInner where
  /-- The ring. -/
  buffer : List UInt8
  /-- Its size. -/
  capacity : ℕ
  /-- Where the oldest byte is. -/
  readPos : ℕ
  /-- How many bytes are buffered. -/
  len : ℕ
  /-- A reader has copied a prefix out and has not consumed it yet. -/
  readInflight : Bool
  length_buffer : buffer.length = capacity
  readPos_lt : readPos < capacity
  len_le : len ≤ capacity

namespace PipeInner

/-- An empty ring. -/
def new (capacity : ℕ) (h : 0 < capacity) : PipeInner where
  buffer := replicate capacity 0
  capacity := capacity
  readPos := 0
  len := 0
  readInflight := false
  length_buffer := length_replicate
  readPos_lt := h
  len_le := Nat.zero_le _

variable (inner : PipeInner)

/-- The room left in the ring. -/
def space : ℕ := inner.capacity - inner.len

/-- The bytes of the queue, oldest first. -/
def contents : List UInt8 := Ring.window inner.buffer inner.readPos inner.len

lemma capacity_pos : 0 < inner.capacity := Nat.zero_lt_of_lt inner.readPos_lt

variable (count : ℕ) (dst : ℕ)

/-- Copy the readable prefix into a destination of `dst` bytes without consuming it. -/
def peek : List UInt8 :=
  let toRead := min dst inner.len
  (Ring.copyOut inner.buffer toRead inner.readPos toRead).1

/-- Consume a prefix that was copied out before. -/
def consume : PipeInner where
  buffer := inner.buffer
  capacity := inner.capacity
  readPos := (inner.readPos + min count inner.len) % inner.capacity
  len := inner.len - min count inner.len
  readInflight := inner.readInflight
  length_buffer := inner.length_buffer
  readPos_lt := Nat.mod_lt _ inner.capacity_pos
  len_le := (Nat.sub_le _ _).trans inner.len_le

lemma copyOut_window {n : ℕ} (hn : n ≤ inner.len) : Ring.copyOut inner.buffer n inner.readPos n =
    (Ring.window inner.buffer inner.readPos n, (inner.readPos + n) % inner.capacity) := by
  have hpos : inner.readPos < inner.buffer.length := inner.length_buffer ▸ inner.readPos_lt
  have hle : n ≤ inner.buffer.length := inner.length_buffer ▸ hn.trans inner.len_le
  rw [Ring.copyOut_eq le_rfl hpos hle, inner.length_buffer]

/-- The position that the copying loop of `read` ends at lies in the ring. -/
lemma copyOut_lt {n : ℕ} (hn : n ≤ inner.len) :
    (Ring.copyOut inner.buffer n inner.readPos n).2 < inner.capacity := by
  rw [inner.copyOut_window hn]
  exact Nat.mod_lt _ inner.capacity_pos

/-- Take bytes out of the ring into a destination of `dst` bytes; a read transaction in flight
keeps its prefix. -/
def read : List UInt8 × PipeInner :=
  if inner.readInflight then ([], inner)
  else
    let toRead := min dst inner.len
    if toRead = 0 then ([], inner)
    else
      let copy := Ring.copyOut inner.buffer toRead inner.readPos toRead
      (copy.1,
        { inner with
          readPos := copy.2
          len := inner.len - toRead
          readPos_lt := inner.copyOut_lt (Nat.min_le_right _ _)
          len_le := (Nat.sub_le _ _).trans inner.len_le })

/-- Start a read transaction: copy a prefix out and raise the flag. -/
def beginReadTransaction : Option (List UInt8 × PipeInner) :=
  if inner.readInflight || inner.len == 0 then none
  else
    let bytes := inner.peek dst
    if bytes.length = 0 then none
    else some (bytes, { inner with readInflight := true })

/-- End a read transaction; a committed one consumes its prefix. -/
def finishReadTransaction (committed : Bool) : PipeInner :=
  if inner.readInflight then
    { (if committed then inner.consume count else inner) with readInflight := false }
  else inner

lemma length_copyIn {src : List UInt8} (h : src.length ≤ inner.space) :
    (Ring.copyIn src.length inner.buffer ((inner.readPos + inner.len) % inner.capacity) src).length =
      inner.capacity := by
  have hspace : inner.space = inner.capacity - inner.len := rfl
  rw [Ring.length_copyIn le_rfl, inner.length_buffer]
  · rw [inner.length_buffer]
    exact Nat.mod_lt _ inner.capacity_pos
  rw [inner.length_buffer]
  omega

/-- Put as many bytes into the ring as there is room for: their number and the ring after it. -/
def write (src : List UInt8) : ℕ × PipeInner :=
  let toWrite := min src.length inner.space
  if toWrite = 0 then (0, inner)
  else
    let chunk := src.take toWrite
    (toWrite,
      { inner with
        buffer := Ring.copyIn chunk.length inner.buffer
          ((inner.readPos + inner.len) % inner.capacity) chunk
        len := inner.len + chunk.length
        length_buffer := inner.length_copyIn
          ((length_take_le _ _).trans (Nat.min_le_right _ _))
        len_le := by
          have hle := inner.len_le
          have hchunk : chunk.length ≤ inner.space :=
            (length_take_le _ _).trans (Nat.min_le_right _ _)
          unfold space at hchunk
          omega })

/-! ## What the operations do to the queue -/

@[simp]
lemma length_contents : inner.contents.length = inner.len :=
  Ring.length_window (inner.length_buffer ▸ inner.len_le)

@[simp]
lemma contents_new (capacity : ℕ) (h : 0 < capacity) : (new capacity h).contents = [] :=
  eq_nil_of_length_eq_zero (length_contents _)

lemma copyOut_eq {n : ℕ} (hn : n ≤ inner.len) : Ring.copyOut inner.buffer n inner.readPos n =
      (inner.contents.take n, (inner.readPos + n) % inner.capacity) := by
  rw [inner.copyOut_window hn, Ring.window_take hn, contents]

lemma peek_eq : inner.peek dst = inner.contents.take dst := by
  rw [peek, inner.copyOut_eq (min_le_right _ _), ← length_contents, ← take_eq_take_min]

@[simp]
lemma contents_consume : (inner.consume count).contents = inner.contents.drop count := by
  have h := Ring.window_advance inner.readPos (min_le_right count inner.len)
    (inner.length_buffer ▸ inner.len_le : inner.len ≤ inner.buffer.length)
  rw [inner.length_buffer] at h
  rw [contents, consume, h, contents]
  rcases le_total count inner.len with hle | hle
  · rw [Nat.min_eq_left hle]
  have hlen : (Ring.window inner.buffer inner.readPos inner.len).length = inner.len :=
    inner.length_contents
  rw [Nat.min_eq_right hle, drop_of_length_le (by omega), drop_of_length_le (by omega)]

/-- Without a transaction in flight a read takes a prefix off the queue. -/
lemma read_eq_of_not_readInflight (h : inner.readInflight = false) (dst : ℕ) :
    (inner.read dst).1 = inner.contents.take dst ∧
      (inner.read dst).2.contents = inner.contents.drop dst := by
  by_cases hzero : min dst inner.len = 0
  · rw [read, h]
    simp only [Bool.false_eq_true, if_false, hzero, if_true]
    rcases Nat.min_eq_zero_iff.mp hzero with rfl | hlen
    · simp
    have hnil : inner.contents = [] := eq_nil_of_length_eq_zero (by simp [hlen])
    simp [hnil]
  have hcopy := inner.copyOut_eq (min_le_right dst inner.len)
  have hconsume := inner.contents_consume dst
  simp only [read, h, Bool.false_eq_true, if_false, hzero, hcopy]
  refine ⟨?_, ?_⟩
  · rw [← length_contents, ← take_eq_take_min]
  rw [← hconsume]
  simp only [contents, consume]

/-- A transaction in flight makes a read take nothing. -/
lemma read_eq_of_readInflight (h : inner.readInflight = true) (dst : ℕ) :
    inner.read dst = ([], inner) := by
  rw [read, h, if_pos rfl]

@[simp]
lemma readInflight_read : (inner.read dst).2.readInflight = inner.readInflight := by
  unfold read
  split
  · rfl
  dsimp only
  split <;> rfl

/-- A transaction starts when there are bytes, none is in flight and the destination is not empty,
and it copies a prefix of the queue out. -/
lemma beginReadTransaction_eq (hlen : 0 < inner.len) (h : inner.readInflight = false) :
    inner.beginReadTransaction dst =
      if dst = 0 then none
      else some (inner.contents.take dst, { inner with readInflight := true }) := by
  have hzero : (inner.len == 0) = false := by simpa using ne_of_gt hlen
  simp only [beginReadTransaction, h, hzero, Bool.or_self, Bool.false_eq_true, if_false, peek_eq,
    length_take, length_contents]
  by_cases hdst : dst = 0
  · simp [hdst]
  · rw [if_neg (by omega), if_neg hdst]

@[simp]
lemma readInflight_finishReadTransaction (committed : Bool) :
    (inner.finishReadTransaction count committed).readInflight = false := by
  unfold finishReadTransaction
  split
  · rfl
  · simpa using ‹¬inner.readInflight = true›

/-- A committed transaction takes its prefix off the queue, a failed one leaves the queue alone. -/
lemma contents_finishReadTransaction (h : inner.readInflight = true) (count : ℕ)
    (committed : Bool) :
    (inner.finishReadTransaction count committed).contents =
      if committed then inner.contents.drop count else inner.contents := by
  rw [finishReadTransaction, if_pos h]
  cases committed with
  | false => rfl
  | true =>
    rw [if_pos rfl, if_pos rfl, ← contents_consume]
    rfl

variable (src : List UInt8)

/-- A write appends as many bytes as there is room for. -/
@[simp]
lemma contents_write :
    (inner.write src).2.contents = inner.contents ++ src.take (inner.write src).1 := by
  unfold write
  by_cases hzero : min src.length inner.space = 0
  · simp [hzero]
  have hroom : inner.len + (src.take (min src.length inner.space)).length ≤
      inner.buffer.length := by
    have hle := inner.len_le
    rw [inner.length_buffer, length_take]
    unfold space
    omega
  have h := Ring.window_copyIn inner.readPos le_rfl (inner.length_buffer ▸ inner.capacity_pos) hroom
  rw [inner.length_buffer] at h
  simp only [hzero, if_false]
  exact h

lemma fst_write : (inner.write src).1 = min src.length inner.space := by
  unfold write
  dsimp only
  split
  · exact Eq.symm ‹_›
  · rfl

@[simp]
lemma readInflight_write : (inner.write src).2.readInflight = inner.readInflight := by
  unfold write
  dsimp only
  split <;> rfl

@[simp]
lemma capacity_write : (inner.write src).2.capacity = inner.capacity := by
  unfold write
  dsimp only
  split <;> rfl

lemma len_write : (inner.write src).2.len = inner.len + min src.length inner.space := by
  rw [← length_contents, contents_write, length_append, length_contents, fst_write, length_take]
  omega

end PipeInner

end Nilix.Ipc
