import Sponge.Lib.Word64
import Sponge.Lib.Extent

/-!
# ByteStream — the flow-controlled in-memory byte stream

`byte_stream.cc`: a bounded buffer between a writer and a reader, with running totals.  Accessors
that return a field (`input_ended`, `bytes_written`, `error`) are the field.  `_written` grows by
the bytes a `write` stores, and is kept as the natural it counts.  `_read` grows by whatever
`pop_output` is asked for, so one call can take it past `2 ^ 64`: `totalRead` is the sum, and
`bytesRead`, what `bytes_read()` returns, its residue.  `_cap - buffer_size()` is a `size_t`
difference.
-/

open Word64

/-- A `std::string` used as a byte buffer. -/
abbrev Bytes := List UInt8

/-- A stream between its writer and its reader. -/
structure ByteStream where
  /-- written but not read -/
  buf : Bytes := []
  cap : ℕ
  inputEnded : Bool := false
  bytesWritten : ℕ := 0
  /-- all that `pop_output` was asked for; `_read` is its residue modulo `2 ^ 64` -/
  totalRead : ℕ := 0
  error : Bool := false
  deriving DecidableEq, Repr

namespace ByteStream

/-- The constructor `ByteStream(const size_t capacity)`. -/
def new (capacity : UInt64) : ByteStream := { cap := capacity.toNat }

/-- `bytes_read()`: the counter `_read`, a `size_t`. -/
def bytesRead (s : ByteStream) : ℕ := s.totalRead % 2 ^ 64

/-- `buffer_size()`. -/
def bufferSize (s : ByteStream) : ℕ := s.buf.length

def bufferEmpty (s : ByteStream) : Bool := s.bufferSize == 0

/-- The writer has ended the stream and the reader has read all of it. -/
def eof (s : ByteStream) : Bool := s.inputEnded && s.bufferEmpty

/-- `remaining_capacity()`, where a difference that is not positive counts as zero. -/
def remainingCapacity (s : ByteStream) : ℕ :=
  if 0 < sub64 s.cap s.bufferSize then sub64 s.cap s.bufferSize else 0

/-- How many bytes of `data` a `write` takes. -/
def accepted (s : ByteStream) (data : Bytes) : ℕ :=
  if s.remainingCapacity < data.length then s.remainingCapacity else data.length

/-- Write as many bytes as fit; `accepted` is the value returned. -/
def write (s : ByteStream) (data : Bytes) : ByteStream :=
  { s with
    buf := s.buf ++ data.take (s.accepted data)
    bytesWritten := s.bytesWritten + s.accepted data }

/-- A copy of the next `len` bytes. -/
def peekOutput (s : ByteStream) (len : ℕ) : Bytes := s.buf.take len

/-- `pop_output` adds `len` to `_read` whether or not the buffer holds that much. -/
def popOutput (s : ByteStream) (len : ℕ) : ByteStream :=
  { s with buf := s.buf.drop len, totalRead := s.totalRead + len }

/-- The length `read` clamps its argument to. -/
def readLen (s : ByteStream) (len : ℕ) : ℕ :=
  if s.bufferSize < len then s.bufferSize else len

/-- Copy and then pop the next `len` bytes. -/
def read (s : ByteStream) (len : ℕ) : Bytes × ByteStream :=
  (s.peekOutput (s.readLen len), s.popOutput (s.readLen len))

/-- `end_input()`. -/
def endInput (s : ByteStream) : ByteStream := { s with inputEnded := true }

def setError (s : ByteStream) : ByteStream := { s with error := true }

/-! ## What each operation moves -/

section Fields

variable (s : ByteStream) (data : Bytes) (len : ℕ)

@[simp] theorem write_cap : (s.write data).cap = s.cap := rfl
@[simp] theorem write_totalRead : (s.write data).totalRead = s.totalRead := rfl
@[simp] theorem write_buf : (s.write data).buf = s.buf ++ data.take (s.accepted data) := rfl
@[simp] theorem write_bytesWritten :
    (s.write data).bytesWritten = s.bytesWritten + s.accepted data := rfl

@[simp] theorem read_cap : (s.read len).2.cap = s.cap := rfl
@[simp] theorem read_inputEnded : (s.read len).2.inputEnded = s.inputEnded := rfl
@[simp] theorem read_bytesWritten : (s.read len).2.bytesWritten = s.bytesWritten := rfl

end Fields

/-- A read is cut at the end of the buffer. -/
theorem readLen_eq (s : ByteStream) (len : ℕ) : s.readLen len = min len s.buf.length := by
  unfold readLen bufferSize
  split <;> omega

/-- **A read returns the front of the buffer**, whatever the length asked for. -/
@[simp] theorem read_fst (s : ByteStream) (len : ℕ) : (s.read len).1 = s.buf.take len := by
  simp [read, peekOutput, readLen_eq]

/-- A read leaves the rest. -/
@[simp] theorem read_buf (s : ByteStream) (len : ℕ) : (s.read len).2.buf = s.buf.drop len := by
  simp only [read, popOutput, readLen_eq]
  rcases le_total len s.buf.length with h | h
  · rw [min_eq_left h]
  · rw [min_eq_right h, List.drop_length, List.drop_of_length_le h]

/-- A read counts what it returns. -/
@[simp] theorem read_totalRead (s : ByteStream) (len : ℕ) :
    (s.read len).2.totalRead = s.totalRead + (s.buf.take len).length := by
  simp [read, popOutput, readLen_eq]

/-- A read is a peek and a pop of what was seen. -/
theorem read_eq (s : ByteStream) (len : ℕ) :
    s.read len = (s.peekOutput len, s.popOutput (s.peekOutput len).length) := by
  simp [read, peekOutput, readLen_eq]

/-- The difference does not wrap as long as the buffer is within the capacity. -/
theorem remainingCapacity_of_le {s : ByteStream} (hcap : s.cap < 2 ^ 64)
    (hle : s.buf.length ≤ s.cap) : s.remainingCapacity = s.cap - s.buf.length := by
  unfold remainingCapacity bufferSize
  rw [sub64_eq hle (by omega)]
  split <;> omega

/-- The end of the stream, in terms of the buffer. -/
theorem eof_iff (s : ByteStream) : s.eof = true ↔ s.inputEnded = true ∧ s.buf = [] := by
  simp [eof, bufferEmpty, bufferSize]

theorem bufferEmpty_iff (s : ByteStream) : s.bufferEmpty = true ↔ s.buf = [] := by
  simp [bufferEmpty, bufferSize]

/-- A write takes what there is room for. -/
theorem accepted_eq_min (s : ByteStream) (data : Bytes) :
    s.accepted data = min data.length s.remainingCapacity := by
  unfold accepted
  split <;> omega

theorem accepted_le (s : ByteStream) (data : Bytes) : s.accepted data ≤ data.length := by
  rw [accepted_eq_min]
  exact min_le_left _ _

/-- The number a `write` returns is the length of what it stored. -/
theorem length_take_accepted (s : ByteStream) (data : Bytes) :
    (data.take (s.accepted data)).length = s.accepted data := by
  rw [List.length_take, min_eq_left (s.accepted_le data)]

/-- A write takes nothing if there is nothing, or no room. -/
theorem accepted_eq_zero_iff (s : ByteStream) (data : Bytes) :
    s.accepted data = 0 ↔ data = [] ∨ s.remainingCapacity = 0 := by
  rw [accepted, ← List.length_eq_zero_iff]
  split <;> omega

/-- A write that takes something leaves something. -/
theorem bufferEmpty_write (s : ByteStream) (data : Bytes) :
    (s.write data).bufferEmpty = true ↔ s.bufferEmpty = true ∧ s.accepted data = 0 := by
  rw [bufferEmpty_iff, bufferEmpty_iff, write_buf, List.append_eq_nil_iff,
    ← List.length_eq_zero_iff (l := data.take _), length_take_accepted]

/-! ## The bounded buffer -/

/-- **The buffer is within its capacity** and holds all that is written and not counted as read.
This holds even of a stream whose reader pops more than there is. -/
structure Covered (s : ByteStream) : Prop where
  cap_lt : s.cap < 2 ^ 64
  buf_le : s.buf.length ≤ s.cap
  count_le : s.bytesWritten ≤ s.totalRead + s.buf.length

namespace Covered

variable {s : ByteStream}

theorem remainingCapacity_eq (h : s.Covered) : s.remainingCapacity = s.cap - s.buf.length :=
  remainingCapacity_of_le h.cap_lt h.buf_le

/-- What is taken fits. -/
theorem accepted_le_room (h : s.Covered) (data : Bytes) :
    s.buf.length + s.accepted data ≤ s.cap := by
  have := h.buf_le
  rw [accepted, h.remainingCapacity_eq]
  split <;> omega

/-- What has been written reaches at most a capacity past what has been read. -/
theorem bytesWritten_le (h : s.Covered) : s.bytesWritten ≤ s.totalRead + s.cap :=
  h.count_le.trans (Nat.add_le_add_left h.buf_le _)

/-- A write is cut at the capacity. -/
theorem write (h : s.Covered) (data : Bytes) : (s.write data).Covered where
  cap_lt := h.cap_lt
  buf_le := by
    rw [write_buf, List.length_append, length_take_accepted, write_cap]
    exact h.accepted_le_room data
  count_le := by
    have := h.count_le
    rw [write_bytesWritten, write_totalRead, write_buf, List.length_append, length_take_accepted]
    omega

/-- A write moves what it takes from the room to what is written. -/
theorem room_write (h : s.Covered) (data : Bytes) :
    (s.write data).bytesWritten + (s.write data).remainingCapacity =
      s.bytesWritten + s.remainingCapacity := by
  have hroom := h.accepted_le_room data
  rw [(h.write data).remainingCapacity_eq, h.remainingCapacity_eq, write_bytesWritten, write_buf,
    List.length_append, length_take_accepted, write_cap]
  omega

/-- A pop of any length keeps the bounds, as it only shortens the buffer. -/
theorem popOutput (h : s.Covered) (len : ℕ) : (s.popOutput len).Covered where
  cap_lt := h.cap_lt
  buf_le := by
    have := h.buf_le
    simp only [ByteStream.popOutput, List.length_drop]
    omega
  count_le := by
    have := h.count_le
    simp only [ByteStream.popOutput, List.length_drop]
    omega

theorem read (h : s.Covered) (len : ℕ) : (s.read len).2.Covered := h.popOutput _

theorem endInput (h : s.Covered) : s.endInput.Covered := ⟨h.cap_lt, h.buf_le, h.count_le⟩

theorem setError (h : s.Covered) : s.setError.Covered := ⟨h.cap_lt, h.buf_le, h.count_le⟩

end Covered

/-- **The buffer is within its capacity and the totals differ by what it holds.** -/
structure Bounded (s : ByteStream) : Prop where
  cap_lt : s.cap < 2 ^ 64
  buf_le : s.buf.length ≤ s.cap
  count : s.bytesWritten = s.totalRead + s.buf.length

namespace Bounded

variable {s : ByteStream}

/-- A bounded buffer is covered. -/
theorem covered (h : s.Bounded) : s.Covered := ⟨h.cap_lt, h.buf_le, h.count.le⟩

/-- A new stream is bounded. -/
theorem new (capacity : UInt64) : Bounded (ByteStream.new capacity) where
  cap_lt := capacity.toNat_lt
  buf_le := Nat.zero_le _
  count := rfl

theorem remainingCapacity_eq (h : s.Bounded) : s.remainingCapacity = s.cap - s.buf.length :=
  h.covered.remainingCapacity_eq

/-- **What fits is accepted in full.** -/
theorem accepted_eq (h : s.Bounded) {data : Bytes} (hfit : data.length ≤ s.cap - s.buf.length) :
    s.accepted data = data.length := by
  rw [accepted, h.remainingCapacity_eq, if_neg (by omega)]

theorem accepted_le_room (h : s.Bounded) (data : Bytes) :
    s.buf.length + s.accepted data ≤ s.cap := h.covered.accepted_le_room data

/-- A write moves bytes from the room to the buffer. -/
theorem write (h : s.Bounded) (data : Bytes) : (s.write data).Bounded where
  cap_lt := h.cap_lt
  buf_le := by
    rw [write_buf, List.length_append, length_take_accepted, write_cap]
    exact h.accepted_le_room data
  count := by
    rw [write_bytesWritten, write_totalRead, write_buf, List.length_append, length_take_accepted,
      h.count, Nat.add_assoc]

/-- A read moves bytes out of the buffer. -/
theorem read (h : s.Bounded) (len : ℕ) : (s.read len).2.Bounded where
  cap_lt := h.cap_lt
  buf_le := by
    have := h.buf_le
    rw [read_buf, List.length_drop, read_cap]
    omega
  count := by
    have := h.count
    rw [read_bytesWritten, read_totalRead, read_buf, List.length_take, List.length_drop]
    omega

/-- So does a pop of no more than there is. -/
theorem popOutput (h : s.Bounded) {len : ℕ} (hlen : len ≤ s.bufferSize) :
    (s.popOutput len).Bounded where
  cap_lt := h.cap_lt
  buf_le := by
    have := h.buf_le
    simp only [ByteStream.popOutput, List.length_drop]
    omega
  count := by
    have := h.count
    simp only [ByteStream.popOutput, List.length_drop, bufferSize] at *
    omega

theorem endInput (h : s.Bounded) : s.endInput.Bounded := ⟨h.cap_lt, h.buf_le, h.count⟩

theorem setError (h : s.Bounded) : s.setError.Bounded := ⟨h.cap_lt, h.buf_le, h.count⟩

end Bounded

end ByteStream
