import Sponge.Sender.SeqSpace

/-!
# Sender/StaleAcks — acks for nothing that is in flight

An ack is stale if its absolute number lies before `_send_base`, or beyond `_next_seqno`.
`ack_received` turns back at a number beyond, but it records the window before it compares the
number with the base.  So an ack from before the base leaves its window behind, and leaves the
sender as it was exactly if that window is the one recorded already (`stale_ack_harmless`).
-/

open Word64

namespace TCPSender

variable {s : TCPSender} {ackno : WrappingInt32} {window : UInt16}

/-- The ack is for numbers not sent yet, or for fewer than have been acknowledged. -/
def Stale (s : TCPSender) (ackno : WrappingInt32) : Prop :=
  s.nextSeqno < unwrap ackno s.isn s.sendBase ∨ unwrap ackno s.isn s.sendBase < s.sendBase

instance (s : TCPSender) (ackno : WrappingInt32) : Decidable (s.Stale ackno) :=
  inferInstanceAs (Decidable (_ ∨ _))

/-- The window of the peer as it is on record; zero is recorded as a flag. -/
def recordedWindow (s : TCPSender) : ℕ := if s.windowSizeZero then 0 else s.windowSize

/-- What is recorded of a window tells which window it was. -/
structure Recorded (s : TCPSender) : Prop where
  pos : 0 < s.windowSize
  zero : s.windowSizeZero = true → s.windowSize = 1

theorem Recorded.recordWindow (s : TCPSender) (window : UInt16) :
    (s.recordWindow window).Recorded := by
  rw [recordWindow_eq]
  refine ⟨Nat.lt_of_lt_of_le Nat.one_pos (le_max_right _ _), fun hzero => ?_⟩
  rw [of_decide_eq_true hzero]
  rfl

/-- **The window on record is the only one that can be recorded without effect.** -/
theorem recordWindow_eq_self_iff (h : s.Recorded) :
    s.recordWindow window = s ↔ window.toNat = s.recordedWindow := by
  have hfields : s.recordWindow window = s ↔
      max window.toNat 1 = s.windowSize ∧ decide (window = 0) = s.windowSizeZero := by
    rw [recordWindow_eq]
    refine ⟨fun heq => ⟨congrArg windowSize heq, congrArg windowSizeZero heq⟩, ?_⟩
    rintro ⟨hsize, hzero⟩
    rw [hsize, hzero]
  have hnull : window = 0 ↔ window.toNat = 0 := by rw [← UInt16.toNat_inj, UInt16.toNat_zero]
  have hpos := h.pos
  rw [hfields, recordedWindow]
  cases hzero : s.windowSizeZero with
  | true =>
    have hone := h.zero hzero
    rw [decide_eq_true_iff, hnull, if_pos rfl]
    omega
  | false =>
    rw [decide_eq_false_iff_not, hnull, if_neg Bool.false_ne_true]
    omega

/-- **When a stale ack leaves the sender as it is.** -/
theorem Stale.ackReceived_eq_self_iff (hstale : s.Stale ackno) (h : s.Recorded) :
    s.ackReceived ackno window = s ↔
      s.nextSeqno < unwrap ackno s.isn s.sendBase ∨ window.toNat = s.recordedWindow := by
  obtain ⟨hbeyond, heq⟩ | ⟨hle, -, heq⟩ | ⟨hle, hnew, -⟩ := s.ackReceived_cases ackno window
  · exact iff_of_true heq (Or.inl hbeyond)
  · rw [heq, recordWindow_eq_self_iff h, or_iff_right (Nat.not_lt.mpr hle)]
  · -- an ack of new data is not stale
    unfold Stale at hstale
    omega

/-- A fill of the window does not touch the record. -/
theorem Recorded.fillWindow (h : s.Recorded) : s.fillWindow.Recorded := by
  obtain ⟨segs, hsends⟩ := s.fillWindow_sends
  have hframe := hsends.frame
  refine ⟨?_, fun hzero => ?_⟩
  · rw [hframe.windowSize]
    exact h.pos
  · rw [hframe.windowSize]
    exact h.zero (hframe.windowSizeZero.symm.trans hzero)

theorem Recorded.ackReceived (h : s.Recorded) (ackno : WrappingInt32) (window : UInt16) :
    (s.ackReceived ackno window).Recorded := by
  have hrecord := Recorded.recordWindow s window
  exact ackReceived_induction h hrecord (fun _ _ => ⟨hrecord.pos, hrecord.zero⟩)
    (fun _ hs => hs.fillWindow) fun _ hs => ⟨hs.pos, hs.zero⟩

end TCPSender

namespace SenderRun

variable {isn : WrappingInt32} {r : SenderRun} {capacity : UInt64} {retxTimeout : UInt16}

/-- Whatever is called, the record is of a window. -/
theorem reach_recorded {ok : SenderRun → SenderOp → Prop}
    (h : Reach step ok (init capacity retxTimeout isn) r) : r.sender.Recorded := by
  refine h.invariant (I := fun r => r.sender.Recorded) ⟨Nat.one_pos, by simp [init, TCPSender.new]⟩
    fun r op r' ih _ hs => ?_
  obtain rfl := Option.some.inj hs
  cases op with
  | write | endInput | sendEmptySegment => exact ⟨ih.pos, ih.zero⟩
  | fillWindow => exact ih.fillWindow
  | ackReceived ackno window => exact ih.ackReceived ackno window
  | tick ms =>
    obtain ⟨segs, count, timer, heq, -⟩ := r.sender.tick_frame ms
    rw [apply, heq]
    exact ⟨ih.pos, ih.zero⟩

/-- **When a stale ack is harmless.**  In every run, an ack from before the base or beyond what is
sent leaves every field of the sender as it is, exactly if it is one from beyond, or carries the
window that is on record. -/
theorem stale_ack_harmless (h : Reach step (fun _ _ => True) (init capacity retxTimeout isn) r)
    {ackno : WrappingInt32} (hstale : r.sender.Stale ackno) (window : UInt16) :
    r.sender.ackReceived ackno window = r.sender ↔
      r.sender.nextSeqno < unwrap ackno r.sender.isn r.sender.sendBase ∨
        window.toNat = r.sender.recordedWindow :=
  hstale.ackReceived_eq_self_iff (reach_recorded h)

/-- The ack of the SYN comes again after a byte has been acknowledged, with the same window. -/
theorem stale_ack_harmless_run : ∃ r, Reach step (fun _ _ => True) (init 64000 1000 ⟨7⟩) r ∧
    r.sender.Stale ⟨8⟩ ∧ r.sender.sendBase = 2 ∧ r.sender.ackReceived ⟨8⟩ 4 = r.sender := by
  obtain ⟨r, hr, hp⟩ := exists_reach_of_exec step (fun _ _ => True) (init 64000 1000 ⟨7⟩)
    [.fillWindow, .ackReceived ⟨8⟩ 4, .write [97], .fillWindow, .ackReceived ⟨9⟩ 4]
    (fun r => decide (r.sender.Stale ⟨8⟩) && r.sender.sendBase == 2 &&
      r.sender.recordedWindow == 4) (by decide)
  simp only [Bool.and_eq_true, beq_iff_eq, decide_eq_true_iff] at hp
  obtain ⟨⟨hstale, hbase⟩, hwin⟩ := hp
  exact ⟨r, hr, hstale, hbase, (stale_ack_harmless hr hstale 4).mpr (Or.inr hwin.symm)⟩

/-- The ack of the SYN comes again with the larger window it was sent with, and that is recorded. -/
theorem stale_ack_recorded : ∃ r, Reach step (fun _ _ => True) (init 64000 1000 ⟨7⟩) r ∧
    r.sender.Stale ⟨8⟩ ∧ r.sender.ackReceived ⟨8⟩ 9 ≠ r.sender := by
  obtain ⟨r, hr, hp⟩ := exists_reach_of_exec step (fun _ _ => True) (init 64000 1000 ⟨7⟩)
    [.fillWindow, .ackReceived ⟨8⟩ 9, .write [97], .fillWindow, .ackReceived ⟨9⟩ 4]
    (fun r => decide (r.sender.Stale ⟨8⟩) && r.sender.ackReceived ⟨8⟩ 9 != r.sender) (by decide)
  simp only [Bool.and_eq_true, bne_iff_ne, decide_eq_true_iff] at hp
  exact ⟨r, hr, hp⟩

end SenderRun
