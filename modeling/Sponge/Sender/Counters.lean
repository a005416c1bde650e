import Sponge.Lib.Reach
import Sponge.Sender.SeqSpace

/-!
# Sender/Counters — what the counters of a sender say, whoever calls it

`Sound` asks the writer not to write after `end_input`.  `Counted` asks nothing: whatever is called
and with whatever arguments, `_next_seqno` counts the SYN, the bytes read and the FIN, the base is
not past it, and the window recorded is a positive 16-bit number.  It is all that the state
classifiers of a connection rest on, and all it takes to say what a call of `fill_window` leaves in
flight.
-/

open Word64

namespace TCPSender

/-- **The counters of a sender**, without any discipline of the writer. -/
structure Counted (s : TCPSender) : Prop where
  bounded : s.stream.Bounded
  next : s.nextSeqno = s.synFlag.toNat + s.stream.totalRead + s.finFlag.toNat
  fin : s.finFlag = true → s.synFlag = true ∧ s.stream.inputEnded = true
  idle : s.synFlag = false → s.stream.totalRead = 0
  base : s.sendBase ≤ s.nextSeqno
  window_pos : 0 < s.windowSize
  window_le : s.windowSize < 2 ^ 16

variable {s s' : TCPSender}

theorem bytesInFlight_lt (s : TCPSender) : s.bytesInFlight < 2 ^ 64 :=
  Nat.mod_lt _ (Nat.two_pow_pos 64)

/-- A segment as a sender queues it for the first time: it uses sequence numbers, and the ack flag
is left to the connection. -/
def Fresh (seg : TCPSegment) : Prop := 0 < seg.lengthInSequenceSpace ∧ seg.header.ack = false

/-- What `fill_window` sends is fresh. -/
theorem Sends.fresh {segs : List TCPSegment} (h : Sends segs s s') : ∀ seg ∈ segs, Fresh seg := by
  intro seg hseg
  obtain ⟨a, hpos, -, hat⟩ := h.tiles.exists_at hseg
  exact ⟨hpos, hat.2.2⟩

/-- `fill_window` queues fresh segments and nothing else. -/
theorem fillWindow_queue (s : TCPSender) : ∃ segs,
    s.fillWindow.segmentsOut = s.segmentsOut ++ segs ∧ ∀ seg ∈ segs, Fresh seg := by
  obtain ⟨segs, hsends⟩ := s.fillWindow_sends
  exact ⟨segs, hsends.segmentsOut, hsends.fresh⟩

/-- So does an ack. -/
theorem ackReceived_queue (s : TCPSender) (ackno : WrappingInt32) (window : UInt16) : ∃ segs,
    (s.ackReceived ackno window).segmentsOut = s.segmentsOut ++ segs ∧
      ∀ seg ∈ segs, Fresh seg := by
  obtain ⟨-, heq⟩ | ⟨-, -, heq⟩ | ⟨-, -, heq⟩ := s.ackReceived_cases ackno window
  · exact ⟨[], by rw [heq, List.append_nil], by simp⟩
  · exact ⟨[], by rw [heq, recordWindow_eq, List.append_nil], by simp⟩
  · obtain ⟨segs, hout, hfresh⟩ :=
      (s.advanceBase (unwrap ackno s.isn s.sendBase) window).fillWindow_queue
    refine ⟨segs, ?_, hfresh⟩
    rw [heq, TCPSender.restartTimer, hout, advanceBase_eq]

/-- An ack does nothing to the writer's side of the stream. -/
theorem ackReceived_stream (s : TCPSender) (ackno : WrappingInt32) (window : UInt16) :
    (s.ackReceived ackno window).stream.bytesWritten = s.stream.bytesWritten ∧
      (s.ackReceived ackno window).stream.inputEnded = s.stream.inputEnded ∧
      (s.ackReceived ackno window).stream.error = s.stream.error := by
  refine ackReceived_induction (P := fun t => t.stream.bytesWritten = s.stream.bytesWritten ∧
      t.stream.inputEnded = s.stream.inputEnded ∧ t.stream.error = s.stream.error)
    ⟨rfl, rfl, rfl⟩ ?_ (fun v _ => ?_) (fun t ht => ?_) fun _ ht => ht
  · rw [recordWindow_eq]
    exact ⟨rfl, rfl, rfl⟩
  · rw [advanceBase_eq]
    exact ⟨rfl, rfl, rfl⟩
  · obtain ⟨segs, hsends⟩ := t.fillWindow_sends
    have hframe := hsends.frame
    exact ⟨hframe.bytesWritten.trans ht.1, hframe.inputEnded.trans ht.2.1,
      hframe.error.trans ht.2.2⟩

namespace Counted

theorem new (capacity : UInt64) (retxTimeout : UInt16) (isn : WrappingInt32) :
    Counted (.new capacity retxTimeout isn) where
  bounded := .new capacity
  next := rfl
  fin := by simp [TCPSender.new]
  idle _ := rfl
  base := le_rfl
  window_pos := Nat.one_pos
  window_le := by simp [TCPSender.new]

/-- The next number is zero until the SYN is sent, and only until then. -/
theorem nextSeqno_eq_zero_iff (h : s.Counted) : s.nextSeqno = 0 ↔ s.synFlag = false := by
  rw [h.next]
  cases hsyn : s.synFlag with
  | true => simp only [Bool.toNat_true, reduceCtorEq, iff_false]; omega
  | false =>
    have hfin : s.finFlag = false := by
      by_contra hf
      cases hsyn.symm.trans (h.fin (by simpa using hf)).1
    simp [h.idle hsyn, hfin]

/-- No more numbers are used than there are bytes, and two flags. -/
theorem nextSeqno_le (h : s.Counted) : s.nextSeqno ≤ s.stream.bytesWritten + 2 := by
  have := h.next
  have := h.bounded.count
  have := s.synFlag.toNat_le
  have := s.finFlag.toNat_le
  omega

/-- What is in flight does not wrap as long as the numbers do not. -/
theorem bytesInFlight_eq (h : s.Counted) (hlt : s.nextSeqno < 2 ^ 64) :
    s.bytesInFlight = s.nextSeqno - s.sendBase :=
  sub64_eq h.base (by omega)

/-- **An emission keeps the counters in step.** -/
theorem emits (h : s.Counted) (hemit : Emits s s') : s'.Counted := by
  cases hemit with
  | syn hwin hsyn hfin =>
    rw [sendSyn_eq]
    refine ⟨h.bounded, ?_, ?_, by simp, ?_, h.window_pos, h.window_le⟩
    · simp [h.next, hsyn, hfin, h.idle hsyn]
    · simp [hfin]
    · exact h.base.trans (Nat.le_succ _)
  | next len fin hsyn hfin hlen hpos hroom heof =>
    rw [sendNext_eq]
    refine ⟨h.bounded.read len, ?_, fun hf => ⟨hsyn, ?_⟩, by simp [hsyn], ?_, h.window_pos,
      h.window_le⟩
    · simp only [h.next, hsyn, hfin, lengthInSequenceSpace_nextSegment, Bool.false_or,
        ByteStream.read_totalRead, Bool.toNat_true, Bool.toNat_false]
      omega
    · have hfin' : fin = true := by simpa [hfin] using hf
      exact ((ByteStream.eof_iff _).mp (heof hfin')).1
    · exact h.base.trans (Nat.le_add_right _ _)

/-- The whole of a `fill_window`. -/
theorem fillWindow (h : s.Counted) : s.fillWindow.Counted :=
  fillWindow_induction h fun _ _ ih hemit => ih.emits hemit

/-- The writer moves no counter of the sender. -/
theorem writeIn (h : s.Counted) (data : Bytes) : (s.writeIn data).Counted :=
  ⟨h.bounded.write data, h.next, h.fin, h.idle, h.base, h.window_pos, h.window_le⟩

theorem endIn (h : s.Counted) : s.endIn.Counted :=
  ⟨h.bounded.endInput, h.next, fun hf => ⟨(h.fin hf).1, rfl⟩, h.idle, h.base, h.window_pos,
    h.window_le⟩

/-- An ack that moves nothing still brings a window, and one of zero is recorded as one. -/
theorem recordWindow (h : s.Counted) (window : UInt16) : (s.recordWindow window).Counted := by
  have := window.toNat_lt
  rw [recordWindow_eq]
  exact ⟨h.bounded, h.next, h.fin, h.idle, h.base, by simp only; omega, by simp only; omega⟩

/-- An ack moves the base, but not past what has been sent. -/
theorem advanceBase (h : s.Counted) {v : ℕ} (hv : v ≤ s.nextSeqno) (window : UInt16) :
    (s.advanceBase v window).Counted := by
  have := window.toNat_lt
  rw [advanceBase_eq]
  exact ⟨h.bounded, h.next, h.fin, h.idle, hv, by simp only; omega, by simp only; omega⟩

theorem restartTimer (h : s.Counted) : s.restartTimer.Counted :=
  ⟨h.bounded, h.next, h.fin, h.idle, h.base, h.window_pos, h.window_le⟩

/-- **Any ack, with any window, keeps the counters in step.** -/
theorem ackReceived (h : s.Counted) (ackno : WrappingInt32) (window : UInt16) :
    (s.ackReceived ackno window).Counted :=
  ackReceived_induction h (h.recordWindow window) (fun _ hv => h.advanceBase hv window)
    (fun _ hs => hs.fillWindow) fun _ hs => hs.restartTimer

/-- The clock moves only the timer. -/
theorem tick (h : s.Counted) (ms : ℕ) : (s.tick ms).Counted := by
  obtain ⟨segs, count, timer, heq, -⟩ := s.tick_frame ms
  rw [heq]
  exact ⟨h.bounded, h.next, h.fin, h.idle, h.base, h.window_pos, h.window_le⟩

/-- What waits to be sent is not counted. -/
theorem setSegmentsOut (h : s.Counted) (segs : List TCPSegment) :
    Counted { s with segmentsOut := segs } :=
  ⟨h.bounded, h.next, h.fin, h.idle, h.base, h.window_pos, h.window_le⟩

theorem setError (h : s.Counted) : Counted { s with stream := s.stream.setError } :=
  ⟨h.bounded.setError, h.next, h.fin, h.idle, h.base, h.window_pos, h.window_le⟩

end Counted

end TCPSender
