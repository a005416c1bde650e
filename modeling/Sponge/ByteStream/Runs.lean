import Sponge.Lib.BoundedQueue
import Sponge.ByteStream

/-!
# ByteStream/Runs — whole runs of a byte stream

A run is a stream after some calls, with the bytes its writer got in and the bytes its reader took
out.  Beside it runs the queue that a stream is meant to be, `BoundedQueue.Ledger`, and the stream
shows its entries throughout (`run_shows`): a stream is a bounded FIFO, whatever is called.

The totals are another matter.  `pop_output` counts what it is asked for, so they say what has been
removed in every state exactly if no `pop_output` asks for more than there is (`exact_iff`).
-/

open Word64 BoundedQueue

namespace ByteStream

/-- A call on a stream. -/
inductive Call
  | write (data : Bytes)
  | read (len : UInt64)
  | peek (len : UInt64)
  | pop (len : UInt64)
  | endInput
  deriving DecidableEq, Repr

def call (s : ByteStream) : Call → ByteStream
  | .write data => s.write data
  | .read len => (s.read len.toNat).2
  | .peek _ => s
  | .pop len => s.popOutput len.toNat
  | .endInput => s.endInput

/-- A stream with what has passed through it. -/
structure Run where
  stream : ByteStream
  /-- the beginnings of the strings written, each as long as `write` said -/
  accepted : Bytes := []
  /-- what `read` returned and `pop_output` erased -/
  removed : Bytes := []
  deriving DecidableEq, Repr

namespace Run

def init (capacity : UInt64) : Run := { stream := .new capacity }

def step (t : Run) (c : Call) : Run where
  stream := t.stream.call c
  accepted :=
    match c with
    | .write data => t.accepted ++ data.take (t.stream.accepted data)
    | _ => t.accepted
  removed :=
    match c with
    | .read len => t.removed ++ (t.stream.read len.toNat).1
    | .pop len => t.removed ++ t.stream.buf.take len.toNat
    | _ => t.removed

end Run

/-- The run of a sequence of calls on a new stream. -/
def run (capacity : UInt64) (calls : List Call) : Run := calls.foldl Run.step (.init capacity)

/-! ## A bounded FIFO -/

/-- What a call is meant to do to a queue. -/
def follow {cap : ℕ} (l : Ledger UInt8 cap) : Call → Ledger UInt8 cap
  | .write data => l.put data
  | .read len | .pop len => l.remove len.toNat
  | .peek _ | .endInput => l

/-- **The stream shows the queue.** -/
structure Run.Shows {cap : ℕ} (t : Run) (l : Ledger UInt8 cap) : Prop where
  cap_eq : t.stream.cap = cap
  buf : t.stream.buf = l.queue.entries
  accepted : t.accepted = l.entered
  removed : t.removed = l.left

namespace Run.Shows

variable {cap : ℕ} {t : Run} {l : Ledger UInt8 cap}

theorem buf_le (h : t.Shows l) : t.stream.buf.length ≤ t.stream.cap := by
  rw [h.buf, h.cap_eq]
  exact l.queue.length_le

/-- What a `write` takes is what the queue has room for. -/
theorem take_accepted (h : t.Shows l) (hcap : cap < 2 ^ 64) (data : Bytes) :
    data.take (t.stream.accepted data) = data.take l.queue.room := by
  have hroom : t.stream.remainingCapacity = l.queue.room := by
    rw [remainingCapacity_of_le (h.cap_eq ▸ hcap) h.buf_le, h.cap_eq, h.buf, room]
  rw [accepted_eq_min, hroom, Nat.min_comm, ← List.take_eq_take_min]

theorem step (h : t.Shows l) (hcap : cap < 2 ^ 64) (c : Call) : (t.step c).Shows (follow l c) := by
  cases c with
  | write data =>
    have htake := h.take_accepted hcap data
    refine ⟨h.cap_eq, ?_, ?_, h.removed⟩
    · exact congrArg₂ _ h.buf htake
    · exact congrArg₂ _ h.accepted htake
  | read len =>
    refine ⟨h.cap_eq, ?_, h.accepted, ?_⟩
    · exact (read_buf ..).trans (by rw [h.buf]; rfl)
    · exact congrArg₂ _ h.removed ((read_fst ..).trans (by rw [h.buf]))
  | peek len => exact h
  | pop len =>
    refine ⟨h.cap_eq, congrArg _ h.buf, h.accepted, ?_⟩
    exact congrArg₂ _ h.removed (congrArg _ h.buf)
  | endInput => exact ⟨h.cap_eq, h.buf, h.accepted, h.removed⟩

end Run.Shows

/-- **A stream is the queue it is meant to be**, after any calls. -/
theorem run_shows (capacity : UInt64) (calls : List Call) :
    (run capacity calls).Shows (calls.foldl follow ({} : Ledger UInt8 capacity.toNat)) :=
  List.foldl_rel (r := Run.Shows) ⟨rfl, rfl, rfl, rfl⟩
    fun c _ _ _ h => h.step capacity.toNat_lt c

/-- **A stream is a bounded FIFO**, after any calls: it is within its capacity and says how much
room it has, a `write` takes the beginning that fits and returns its length, and what was removed
followed by the buffer is all that was accepted.  A `read` returns what a peek would and pops it. -/
theorem bounded_fifo (capacity : UInt64) (calls : List Call) :
    let t := run capacity calls
    t.stream.bufferSize ≤ capacity.toNat ∧
    t.stream.remainingCapacity = capacity.toNat - t.stream.bufferSize ∧
    (∀ data, t.stream.accepted data = min data.length t.stream.remainingCapacity ∧
      (t.stream.write data).buf =
        t.stream.buf ++ data.take (min data.length t.stream.remainingCapacity)) ∧
    t.removed ++ t.stream.buf = t.accepted ∧
    ∀ len, t.stream.read len =
      (t.stream.peekOutput len, t.stream.popOutput (t.stream.peekOutput len).length) := by
  intro t
  have hshows := run_shows capacity calls
  have hle : t.stream.bufferSize ≤ capacity.toNat := hshows.cap_eq ▸ hshows.buf_le
  refine ⟨hle, ?_, fun data => ⟨accepted_eq_min _ _, ?_⟩, ?_, read_eq _⟩
  · rw [remainingCapacity_of_le (hshows.cap_eq ▸ capacity.toNat_lt) hshows.buf_le, hshows.cap_eq]
    rfl
  · rw [write_buf, accepted_eq_min]
  · rw [hshows.removed, hshows.buf, hshows.accepted]
    exact Ledger.fifo _

example : (run 3 [.write [1, 2], .pop 5, .write [3, 4, 5, 6], .read 1]).stream.buf = [4, 5] := by
  decide

/-! ## The totals -/

/-- `bytes_written() - bytes_read() = buffer_size()`, as `size_t` values. -/
def Balanced (s : ByteStream) : Prop := sub64 s.bytesWritten s.bytesRead = s.bufferSize

instance (s : ByteStream) : Decidable s.Balanced := inferInstanceAs (Decidable (_ = _))

/-- **The totals are exact**, as `size_t` values: their difference is what is buffered, and
`bytes_read()` counts what has been removed. -/
structure Run.Exact (t : Run) : Prop where
  balanced : t.stream.Balanced
  removed : t.stream.bytesRead = t.removed.length % 2 ^ 64

/-- A `pop_output` asks for no more than there is. -/
def Within (s : ByteStream) : Call → Prop
  | .pop len => len.toNat ≤ s.bufferSize
  | _ => True

instance (s : ByteStream) (c : Call) : Decidable (s.Within c) :=
  match c with
  | .pop _ => inferInstanceAs (Decidable (_ ≤ _))
  | .write _ | .read _ | .peek _ | .endInput => inferInstanceAs (Decidable True)

/-- Every `pop_output` of a run asks for no more than there is then. -/
def Run.PopsWithin : Run → List Call → Prop
  | _, [] => True
  | t, c :: calls => t.stream.Within c ∧ (t.step c).PopsWithin calls

theorem Bounded.call {s : ByteStream} (h : s.Bounded) {c : Call} (hc : s.Within c) :
    (s.call c).Bounded := by
  cases c with
  | write data => exact h.write data
  | read len => exact h.read len.toNat
  | peek len => exact h
  | pop len => exact h.popOutput hc
  | endInput => exact h.endInput

/-- Totals that count what is moved differ by what is buffered. -/
theorem Bounded.balanced {s : ByteStream} (h : s.Bounded) : s.Balanced := by
  have hcount := h.count
  have hle := h.buf_le
  have hcap := h.cap_lt
  unfold Balanced sub64 bytesRead bufferSize
  omega

/-- A `pop_output` that asks for too much is counted and not made. -/
theorem Bounded.within_of_balanced {s : ByteStream} (h : s.Bounded) {c : Call}
    (hnext : (s.call c).Balanced) : s.Within c := by
  cases c with
  | pop len =>
    have hcount := h.count
    have hlt := len.toNat_lt
    by_contra hc
    have hmore : s.buf.length < len.toNat := not_le.mp hc
    simp only [Balanced, ByteStream.call, ByteStream.popOutput, bufferSize, bytesRead,
      List.length_drop, sub64] at hnext
    omega
  | _ => trivial

namespace Run

/-- A run in which no `pop_output` has asked for too much. -/
structure Counts (t : Run) : Prop where
  bounded : t.stream.Bounded
  removed : t.stream.totalRead = t.removed.length

variable {t : Run}

theorem Counts.init (capacity : UInt64) : (init capacity).Counts := ⟨.new capacity, rfl⟩

theorem Counts.step (h : t.Counts) {c : Call} (hc : t.stream.Within c) : (t.step c).Counts := by
  refine ⟨h.bounded.call hc, ?_⟩
  cases c with
  | write data => exact h.removed
  | read len =>
    refine (read_totalRead ..).trans ?_
    rw [h.removed, ← List.length_append, ← read_fst]
    rfl
  | peek len => exact h.removed
  | pop len =>
    have hlen : (t.stream.buf.take len.toNat).length = len.toNat := by
      rw [List.length_take]
      exact min_eq_left hc
    refine Eq.trans ?_ (List.length_append ..).symm
    rw [hlen, ← h.removed]
    rfl
  | endInput => exact h.removed

theorem Counts.exact (h : t.Counts) : t.Exact where
  balanced := h.bounded.balanced
  removed := by rw [bytesRead, h.removed]

/-- **From a run that counts, the totals stay exact as long as the pops are within**, and no
longer. -/
theorem Counts.exact_iff (h : t.Counts) (calls : List Call) :
    (∀ n, ((calls.take n).foldl Run.step t).Exact) ↔ t.PopsWithin calls := by
  induction calls generalizing t with
  | nil => exact ⟨fun _ => trivial, fun _ n => by simpa using h.exact⟩
  | cons c calls ih =>
    by_cases hc : t.stream.Within c
    · refine ⟨fun hall => ⟨hc, (ih (h.step hc)).mp fun n => hall (n + 1)⟩, fun hpops n => ?_⟩
      cases n with
      | zero => exact h.exact
      | succ n => exact (ih (h.step hc)).mpr hpops.2 n
    · exact ⟨fun hall => absurd (h.bounded.within_of_balanced (hall 1).balanced) hc,
        fun hpops => absurd hpops.1 hc⟩

end Run

/-- **The totals are exact all along a run exactly if no `pop_output` asks for too much.** -/
theorem exact_iff (capacity : UInt64) (calls : List Call) :
    (∀ n, (run capacity (calls.take n)).Exact) ↔ (Run.init capacity).PopsWithin calls :=
  (Run.Counts.init capacity).exact_iff calls

end ByteStream
