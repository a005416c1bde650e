import Sponge.Wire.Buffer

/-!
# Socket/FileDescriptor — reading from and writing to the kernel

`file_descriptor.cc`, `file_descriptor.hh`.  The kernel is not part of the model: what it answers to
a system call is an argument, and an answer that is an error is the exception that `SystemCall`
throws.  A `write` of all of a buffer makes a system call for each answer until nothing is left, and
it returns exactly if the answers are counts that add up to the size of the buffer
(`FDWrapper.write_all_iff`).
-/

/-- What a `FileDescriptor` and its duplicates share. -/
structure FDWrapper where
  eof : Bool := false
  closed : Bool := false
  readCount : UInt32 := 0
  writeCount : UInt32 := 0
  deriving DecidableEq, Repr

/-- The constructor `BufferViewList(const std::string &str)`. -/
def BufferViewList.ofString (str : Bytes) : BufferViewList := ⟨[str]⟩

namespace FDWrapper

def registerRead (fd : FDWrapper) : FDWrapper := { fd with readCount := fd.readCount + 1 }

def registerWrite (fd : FDWrapper) : FDWrapper := { fd with writeCount := fd.writeCount + 1 }

/-- `BUFFER_SIZE`, the maximum size of a read. -/
def bufferSize : ℕ := 1024 * 1024

/-- The exception for a kernel that gives more than it was asked for. -/
def readExcess : Exn := .runtimeError "read() read more than requested"

/-- `read(limit)`; `answer` is that of `read(2)`. -/
def read (fd : FDWrapper) (limit : ℕ) (answer : Except Exn Bytes) :
    Except Exn (Bytes × FDWrapper) := do
  let sizeToRead := min bufferSize limit
  let str ← answer
  let fd := if 0 < limit ∧ str.length = 0 then { fd with eof := true } else fd
  if sizeToRead < str.length then .error readExcess
  else .ok (str, fd.registerRead)

/-- What a `write` that returns gives: the number of bytes, the descriptor it leaves, and the bytes
that the kernel took. -/
structure Written where
  total : ℕ
  fd : FDWrapper
  taken : Bytes
  deriving DecidableEq, Repr

/-- The exception for a kernel that takes nothing of what there is. -/
def writeZero : Exn := .runtimeError "write returned 0 given non-empty input buffer"

/-- The exception for a kernel that takes more than there is. -/
def writeExcess : Exn := .runtimeError "write wrote more than length of input buffer"

/-- The loop of `write`, with an answer of `writev(2)` for each turn; `none` while the kernel still
owes one. -/
def writeLoop (writeAll : Bool) : List (Except Exn ℕ) → BufferViewList → Written →
    Option (Except Exn Written)
  | [], _, _ => none
  | .error e :: _, _, _ => some (.error e)
  | .ok bytesWritten :: answers, buffer, w =>
    if bytesWritten = 0 ∧ buffer.size ≠ 0 then some (.error writeZero)
    else if buffer.size < bytesWritten then some (.error writeExcess)
    else
      match buffer.removePrefix bytesWritten with
      | .error e => some (.error e)
      | .ok rest =>
        let w : Written :=
          { total := w.total + bytesWritten
            fd := w.fd.registerWrite
            taken := w.taken ++ buffer.asIovecs.flatten.take bytesWritten }
        if writeAll = true ∧ rest.size ≠ 0 then writeLoop writeAll answers rest w else some (.ok w)

/-- `write(buffer, write_all)`. -/
def write (fd : FDWrapper) (buffer : BufferViewList) (writeAll : Bool)
    (answers : List (Except Exn ℕ)) : Option (Except Exn Written) :=
  writeLoop writeAll answers buffer { total := 0, fd, taken := [] }

/-! ## One turn -/

/-- What is written after a turn that took `n` bytes of the buffer. -/
def Written.turn (w : Written) (buffer : BufferViewList) (n : ℕ) : Written :=
  { total := w.total + n
    fd := w.fd.registerWrite
    taken := w.taken ++ buffer.asIovecs.flatten.take n }

section Turn

variable {writeAll : Bool} {answers : List (Except Exn ℕ)} {buffer rest : BufferViewList}
  {w r : Written} {n : ℕ}

/-- **A turn takes the front of the buffer**; the loop goes on while it is to write all and
something is left. -/
theorem writeLoop_ok (writeAll : Bool) (answers : List (Except Exn ℕ)) (buffer : BufferViewList)
    (w : Written)
    (hzero : n = 0 → buffer.size = 0) (hle : n ≤ buffer.size) :
    ∃ rest : BufferViewList, rest.asIovecs.flatten = buffer.asIovecs.flatten.drop n ∧
      writeLoop writeAll (.ok n :: answers) buffer w =
        if writeAll = true ∧ rest.size ≠ 0 then writeLoop writeAll answers rest (w.turn buffer n)
        else some (.ok (w.turn buffer n)) := by
  obtain ⟨rest, hrest, hbytes⟩ := BufferViewList.removePrefix_ok hle
  refine ⟨rest, hbytes, ?_⟩
  rw [writeLoop, if_neg fun h => h.2 (hzero h.1), if_neg (not_lt.mpr hle), hrest]
  rfl

/-- A turn that does not throw took something, and not more than there is. -/
theorem of_writeLoop (h : writeLoop writeAll (.ok n :: answers) buffer w = some (.ok r)) :
    (n = 0 → buffer.size = 0) ∧ n ≤ buffer.size := by
  rw [writeLoop] at h
  split_ifs at h with hzero hmore
  · cases h
  · cases h
  · exact ⟨fun hn => not_not.mp fun hne => hzero ⟨hn, hne⟩, not_lt.mp hmore⟩

theorem size_rest (hrest : rest.asIovecs.flatten = buffer.asIovecs.flatten.drop n) :
    rest.size = buffer.size - n := by
  rw [BufferViewList.size_eq, BufferViewList.size_eq, hrest, List.length_drop]

end Turn

/-! ## Writing all -/

/-- **Counts in which `size` bytes are written**: each takes something, and the last takes the rest.
A buffer that is empty is written once too. -/
inductive Covers : ℕ → List ℕ → Prop
  | last (size : ℕ) : Covers size [size]
  | more {size n : ℕ} {counts : List ℕ} (hpos : 0 < n) (hlt : n < size)
      (hrest : Covers (size - n) counts) : Covers size (n :: counts)

/-- What a `write` of all of the buffer comes to in `turns` turns. -/
def Written.all (w : Written) (buffer : BufferViewList) (turns : ℕ) : Written :=
  { total := w.total + buffer.size
    fd := registerWrite^[turns] w.fd
    taken := w.taken ++ buffer.asIovecs.flatten }

section All

variable {buffer rest : BufferViewList} {w r : Written} {n : ℕ}

theorem Written.turn_size (w : Written) (buffer : BufferViewList) :
    w.turn buffer buffer.size = w.all buffer 1 := by
  simp only [turn, all, BufferViewList.size_eq, List.take_length, Function.iterate_one]

theorem Written.turn_all (w : Written) (hle : n ≤ buffer.size)
    (hrest : rest.asIovecs.flatten = buffer.asIovecs.flatten.drop n) (turns : ℕ) :
    (w.turn buffer n).all rest turns = w.all buffer (turns + 1) := by
  simp only [turn, all, size_rest hrest, hrest, Function.iterate_succ_apply, List.append_assoc,
    List.take_append_drop, Written.mk.injEq, and_true]
  omega

/-- The turn that takes the rest is the last. -/
theorem writeLoop_last (answers : List (Except Exn ℕ)) (w : Written) (buffer : BufferViewList) :
    writeLoop true (.ok buffer.size :: answers) buffer w = some (.ok (w.all buffer 1)) := by
  obtain ⟨rest, hrest, heq⟩ :=
    writeLoop_ok (n := buffer.size) true answers buffer w id le_rfl
  rw [heq, if_neg fun h => h.2 (by rw [size_rest hrest, Nat.sub_self]), w.turn_size]

/-- **Counts that cover the buffer are enough**, and nothing is asked for after them. -/
theorem writeLoop_of_covers (late : List (Except Exn ℕ)) {size : ℕ} {counts : List ℕ}
    (h : Covers size counts) : ∀ (buffer : BufferViewList) (w : Written), buffer.size = size →
      writeLoop true (counts.map .ok ++ late) buffer w =
        some (.ok (w.all buffer counts.length)) := by
  induction h with
  | last size =>
    rintro buffer w rfl
    exact writeLoop_last late w buffer
  | @more _ n counts hpos hlt _ ih =>
    rintro buffer w rfl
    obtain ⟨rest, hrest, heq⟩ :=
      writeLoop_ok true (counts.map .ok ++ late) buffer w (fun h => absurd h hpos.ne') hlt.le
    have hsize := size_rest hrest
    rw [List.map_cons, List.cons_append, heq, if_pos ⟨rfl, by omega⟩, ih rest _ hsize,
      w.turn_all hlt.le hrest, List.length_cons]

/-- **A loop that returns was given counts that cover the buffer.** -/
theorem covers_of_writeLoop : ∀ (answers : List (Except Exn ℕ)) (buffer : BufferViewList)
    (w : Written), writeLoop true answers buffer w = some (.ok r) →
      ∃ counts late, answers = counts.map .ok ++ late ∧ Covers buffer.size counts
  | [], _, _, h => by simp [writeLoop] at h
  | .error e :: _, _, _, h => by simp [writeLoop] at h
  | .ok n :: answers, buffer, w, h => by
    obtain ⟨hzero, hle⟩ := of_writeLoop h
    rcases hle.eq_or_lt with rfl | hlt
    · exact ⟨[buffer.size], answers, rfl, .last _⟩
    · have hpos : 0 < n := Nat.pos_of_ne_zero fun hn => by
        have := hzero hn
        omega
      obtain ⟨rest, hrest, heq⟩ := writeLoop_ok true answers buffer w hzero hle
      have hsize := size_rest hrest
      rw [heq, if_pos ⟨rfl, by omega⟩] at h
      obtain ⟨counts, late, rfl, hcovers⟩ := covers_of_writeLoop answers rest _ h
      exact ⟨n :: counts, late, rfl, .more hpos hlt (hsize ▸ hcovers)⟩

end All

/-- **When a `write` of all of a buffer returns.**  It returns exactly if the kernel answers with
counts that cover the buffer; it has then given the kernel all the bytes, in order, whatever the
counts, and returns their number. -/
theorem write_all_iff (fd : FDWrapper) (buffer : BufferViewList) (answers : List (Except Exn ℕ))
    (r : Written) : fd.write buffer true answers = some (.ok r) ↔ ∃ counts late,
      answers = counts.map .ok ++ late ∧ Covers buffer.size counts ∧
      r = { total := buffer.size
            fd := registerWrite^[counts.length] fd
            taken := buffer.asIovecs.flatten } := by
  constructor
  · intro h
    obtain ⟨counts, late, rfl, hcovers⟩ := covers_of_writeLoop answers buffer _ h
    refine ⟨counts, late, rfl, hcovers, ?_⟩
    rw [write, writeLoop_of_covers late hcovers buffer _ rfl] at h
    rw [← Except.ok.inj (Option.some.inj h), Written.all, Nat.zero_add, List.nil_append]
  · rintro ⟨counts, late, rfl, hcovers, rfl⟩
    rw [write, writeLoop_of_covers late hcovers buffer _ rfl, Written.all, Nat.zero_add,
      List.nil_append]

/-! ## Reading and writing once -/

/-- The descriptor after a read of `str`. -/
def afterRead (fd : FDWrapper) (limit : ℕ) (str : Bytes) : FDWrapper :=
  { fd with eof := fd.eof || decide (0 < limit ∧ str = []), readCount := fd.readCount + 1 }

/-- A count that goes on by one or by two is another count, although it wraps. -/
theorem count_ne (n : UInt32) : n ≠ n + 1 := by
  rw [Ne, UInt32.left_eq_add]
  decide

theorem count_ne_two (n : UInt32) : n ≠ n + 1 + 1 := by
  rw [UInt32.add_assoc, Ne, UInt32.left_eq_add]
  decide

/-- **What `read` does**: it throws what the kernel raises, or that it gave too much, or takes note
of what was read. -/
theorem read_cases (fd : FDWrapper) (limit : ℕ) (answer : Except Exn Bytes) :
    (∃ e, answer = .error e ∧ fd.read limit answer = .error e) ∨
    (∃ str, answer = .ok str ∧ min bufferSize limit < str.length ∧
      fd.read limit answer = .error readExcess) ∨
    ∃ str, answer = .ok str ∧ str.length ≤ min bufferSize limit ∧
      fd.read limit answer = .ok (str, fd.afterRead limit str) := by
  cases answer with
  | error e => exact .inl ⟨e, rfl, rfl⟩
  | ok str =>
    by_cases hle : str.length ≤ min bufferSize limit
    · refine .inr (.inr ⟨str, rfl, hle, ?_⟩)
      simp only [read, bind, Except.bind, if_neg (not_lt.mpr hle), List.length_eq_zero_iff]
      split_ifs with hend <;> simp [registerRead, afterRead, hend]
    · refine .inr (.inl ⟨str, rfl, not_le.mp hle, ?_⟩)
      simp only [read, bind, Except.bind, if_pos (not_le.mp hle)]

/-- **What makes a `write` of one system call throw.** -/
inductive WriteFails (buffer : BufferViewList) : Except Exn ℕ → Exn → Prop
  | raised (e : Exn) : WriteFails buffer (.error e) e
  | zero (hne : buffer.size ≠ 0) : WriteFails buffer (.ok 0) writeZero
  | excess {n : ℕ} (hmore : buffer.size < n) : WriteFails buffer (.ok n) writeExcess

/-- **What a `write` of what fits does**: it makes one system call, and takes note of what the
kernel took. -/
theorem write_once (fd : FDWrapper) (buffer : BufferViewList) (answer : Except Exn ℕ) :
    (∃ e, WriteFails buffer answer e ∧ fd.write buffer false [answer] = some (.error e)) ∨
    ∃ n, answer = .ok n ∧ n ≤ buffer.size ∧ fd.write buffer false [answer] = some (.ok
      { total := n, fd := fd.registerWrite, taken := buffer.asIovecs.flatten.take n }) := by
  cases answer with
  | error e => exact .inl ⟨e, .raised e, rfl⟩
  | ok n =>
    by_cases hzero : n = 0 ∧ buffer.size ≠ 0
    · obtain ⟨rfl, hne⟩ := hzero
      exact .inl ⟨writeZero, .zero hne, by rw [write, writeLoop, if_pos ⟨rfl, hne⟩]⟩
    by_cases hmore : buffer.size < n
    · exact .inl ⟨writeExcess, .excess hmore, by rw [write, writeLoop, if_neg hzero, if_pos hmore]⟩
    · obtain ⟨rest, -, hloop⟩ := writeLoop_ok (n := n) false [] buffer
        { total := 0, fd, taken := [] } (fun hn => not_not.mp fun hne => hzero ⟨hn, hne⟩)
        (not_lt.mp hmore)
      refine .inr ⟨n, rfl, not_lt.mp hmore, (hloop.trans (if_neg (by simp))).trans ?_⟩
      rw [Written.turn, Nat.zero_add, List.nil_append]

end FDWrapper
