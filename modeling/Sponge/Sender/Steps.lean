import Sponge.Sender.Emission

/-!
# Sender/Steps — what each operation does to a sender

One lemma an operation: the writer's calls leave the transcript alone, an ack is refused, recorded
or taken in (`ackReceived_cases`), and a tick lets the clock run or resends the front of the queue
(`tick_cases`).  A sender stays sound through all of them, and its transcript only grows.
-/

open Word64

namespace TCPSender

variable {s s' : TCPSender} {accepted : Bytes}

/-! ## The writer -/

/-- The FIN waits for the end of the input. -/
theorem Sound.finFlag_of_open (h : s.Sound accepted) (hopen : s.stream.inputEnded = false) :
    s.finFlag = false := by
  by_contra hfin
  have hended := ((ByteStream.eof_iff _).mp (h.fin (by simpa using hfin)).2).1
  cases hopen.symm.trans hended

/-- A write that comes before the FIN, or adds nothing, leaves the sender sound. -/
theorem Sound.writeIn (h : s.Sound accepted) {data : Bytes}
    (hfin : s.finFlag = false ∨ s.stream.accepted data = 0) :
    (s.writeIn data).Sound (accepted ++ data.take (s.stream.accepted data)) where
  bounded := h.bounded.write data
  length := by
    rw [List.length_append, h.length, ByteStream.length_take_accepted]
    rfl
  text := by
    rw [TCPSender.writeIn, ByteStream.write_totalRead, List.drop_append_of_le_length h.totalRead_le,
      h.text]
    rfl
  next := h.next
  fin hf := by
    have hnone := hfin.resolve_left (Bool.not_eq_false _ ▸ hf)
    obtain ⟨hended, hbuf⟩ := (ByteStream.eof_iff _).mp (h.fin hf).2
    refine ⟨(h.fin hf).1, (ByteStream.eof_iff _).mpr ⟨hended, ?_⟩⟩
    rw [TCPSender.writeIn, ByteStream.write_buf, hnone, hbuf, List.take_zero, List.append_nil]
  idle := h.idle

/-- Bytes that are only written have no sequence numbers yet. -/
theorem Sound.transcript_writeIn (h : s.Sound accepted) (data : Bytes) :
    (s.writeIn data).transcript (accepted ++ data.take (s.stream.accepted data)) =
      s.transcript accepted := by
  simp only [transcript, TCPSender.writeIn, ByteStream.write_totalRead,
    List.take_append_of_le_length h.totalRead_le]

theorem Sound.endIn (h : s.Sound accepted) : s.endIn.Sound accepted where
  bounded := h.bounded.endInput
  length := h.length
  text := h.text
  next := h.next
  fin hf := by
    have heof := (ByteStream.eof_iff _).mp (h.fin hf).2
    exact ⟨(h.fin hf).1, (ByteStream.eof_iff _).mpr ⟨rfl, heof.2⟩⟩
  idle := h.idle

/-! ## Acks -/

/-- **What an ack does**: nothing if it is for numbers not sent, its window is recorded if it is
old, and otherwise the base moves, the window is filled and the timer restarted. -/
theorem ackReceived_cases (s : TCPSender) (ackno : WrappingInt32) (window : UInt16) :
    (s.nextSeqno < unwrap ackno s.isn s.sendBase ∧ s.ackReceived ackno window = s) ∨
    (unwrap ackno s.isn s.sendBase ≤ s.nextSeqno ∧ unwrap ackno s.isn s.sendBase ≤ s.sendBase ∧
      s.ackReceived ackno window = s.recordWindow window) ∨
    (unwrap ackno s.isn s.sendBase ≤ s.nextSeqno ∧ s.sendBase < unwrap ackno s.isn s.sendBase ∧
      s.ackReceived ackno window =
        (s.advanceBase (unwrap ackno s.isn s.sendBase) window).fillWindow.restartTimer) := by
  simp only [ackReceived]
  split_ifs with h₁ h₂
  · exact Or.inl ⟨h₁, rfl⟩
  · exact Or.inr (Or.inl ⟨by omega, h₂, rfl⟩)
  · exact Or.inr (Or.inr ⟨by omega, by omega, rfl⟩)

/-- **What each part of `ack_received` keeps, an ack keeps.** -/
theorem ackReceived_induction {P : TCPSender → Prop} {ackno : WrappingInt32} {window : UInt16}
    (h : P s) (record : P (s.recordWindow window))
    (advance : ∀ v ≤ s.nextSeqno, P (s.advanceBase v window))
    (fill : ∀ s, P s → P s.fillWindow) (restart : ∀ s, P s → P s.restartTimer) :
    P (s.ackReceived ackno window) := by
  obtain ⟨-, heq⟩ | ⟨-, -, heq⟩ | ⟨hle, -, heq⟩ := s.ackReceived_cases ackno window
  · rwa [heq]
  · rwa [heq]
  · rw [heq]
    exact restart _ (fill _ (advance _ hle))

/-- Recording a window changes the window. -/
theorem recordWindow_eq (s : TCPSender) (window : UInt16) : s.recordWindow window =
    { s with windowSize := max window.toNat 1, windowSizeZero := decide (window = 0) } := by
  unfold recordWindow
  split_ifs with h
  · subst h
    rfl
  · have hpos : 1 ≤ window.toNat := by
      rw [Nat.one_le_iff_ne_zero]
      exact fun h0 => h (UInt16.toNat_inj.mp h0)
    simp [max_eq_left hpos, h]

theorem advanceBase_eq (s : TCPSender) (absoluteAckno : ℕ) (window : UInt16) :
    s.advanceBase absoluteAckno window =
      { s with
        windowSize := max window.toNat 1
        windowSizeZero := decide (window = 0)
        sendBase := absoluteAckno
        copySegmentsOut := s.copySegmentsOut.dropWhile
          fun seg => decide (s.segmentEnd seg ≤ absoluteAckno) } := by
  rw [advanceBase, recordWindow_eq]
  rfl

theorem Sound.recordWindow (h : s.Sound accepted) (window : UInt16) :
    (s.recordWindow window).Sound accepted := by
  rw [recordWindow_eq]
  exact ⟨h.bounded, h.length, h.text, h.next, h.fin, h.idle⟩

theorem Sound.advanceBase (h : s.Sound accepted) (absoluteAckno : ℕ) (window : UInt16) :
    (s.advanceBase absoluteAckno window).Sound accepted := by
  rw [advanceBase_eq]
  exact ⟨h.bounded, h.length, h.text, h.next, h.fin, h.idle⟩

theorem Sound.restartTimer (h : s.Sound accepted) : s.restartTimer.Sound accepted :=
  ⟨h.bounded, h.length, h.text, h.next, h.fin, h.idle⟩

/-- **The segments `segs` have been sent and the queue cut to `kept`**, its last part. -/
structure Advances (accepted : Bytes) (kept segs : List TCPSegment) (s s' : TCPSender) : Prop where
  sound : s'.Sound accepted
  grows : (s.transcript accepted).Le (s'.transcript accepted)
  segmentsOut : s'.segmentsOut = s.segmentsOut ++ segs
  suffix : kept <:+ s.copySegmentsOut
  copySegmentsOut : s'.copySegmentsOut = kept ++ segs
  tiles : Tiles TCPSegment.lengthInSequenceSpace (NumberedAt s.isn) s.nextSeqno segs s'.nextSeqno
  carried : Tiles TCPSegment.lengthInSequenceSpace (s'.transcript accepted).Carries
    s.nextSeqno segs s'.nextSeqno

theorem Extends.advances {segs : List TCPSegment} (h : Extends accepted segs s s') :
    Advances accepted s.copySegmentsOut segs s s' :=
  ⟨h.sound, h.grows, h.segmentsOut, List.suffix_rfl, h.copySegmentsOut, h.tiles, h.carried⟩

/-- **Every ack advances the sender**, if only by nothing. -/
theorem ackReceived_advances (h : s.Sound accepted) (ackno : WrappingInt32) (window : UInt16) :
    ∃ kept segs, Advances accepted kept segs s (s.ackReceived ackno window) := by
  obtain ⟨-, heq⟩ | ⟨-, -, heq⟩ | ⟨-, -, heq⟩ := s.ackReceived_cases ackno window
  · rw [heq]
    exact ⟨_, _, (Extends.refl h).advances⟩
  · rw [heq, recordWindow_eq]
    have hs := recordWindow_eq s window ▸ h.recordWindow window
    exact ⟨s.copySegmentsOut, [], hs, .refl _, (List.append_nil _).symm, List.suffix_rfl,
      (List.append_nil _).symm, .nil _, .nil _⟩
  · rw [heq]
    generalize unwrap ackno s.isn s.sendBase = absoluteAckno
    obtain ⟨segs, hext⟩ := fillWindow_extends (h.advanceBase absoluteAckno window)
    have hbase := s.advanceBase_eq absoluteAckno window
    have hisn : (s.advanceBase absoluteAckno window).isn = s.isn := by rw [hbase]
    have hnext : (s.advanceBase absoluteAckno window).nextSeqno = s.nextSeqno := by rw [hbase]
    have ht : (s.advanceBase absoluteAckno window).transcript accepted = s.transcript accepted := by
      rw [hbase]
      rfl
    refine ⟨_, segs, hext.sound.restartTimer, ht ▸ hext.grows, ?_, ?_, hext.copySegmentsOut,
      hisn ▸ hnext ▸ hext.tiles, hnext ▸ hext.carried⟩
    · rw [TCPSender.restartTimer, hext.segmentsOut, hbase]
    · rw [hbase]
      exact List.dropWhile_suffix _

/-! ## Ticks -/

/-- The timer expires at this tick. -/
def Expires (s : TCPSender) (ms : ℕ) : Prop :=
  s.copySegmentsOut ≠ [] ∧ s.timer.running = true ∧
    s.timer.rtTimeout ≤ add64 s.timer.totalTime ms

/-- **What a tick does**: the clock runs, or it starts anew with the front of the queue resent and
the timeout doubled, except after a zero window. -/
theorem tick_cases (s : TCPSender) (ms : ℕ) :
    (¬ s.Expires ms ∧ s.tick ms =
      { s with timer := { s.timer with totalTime := add64 s.timer.totalTime ms } }) ∨
    (s.Expires ms ∧ ∃ seg, s.copySegmentsOut.head? = some seg ∧ s.tick ms =
      { s with
        segmentsOut := s.segmentsOut ++ [seg]
        consecutiveRetransmissions :=
          s.consecutiveRetransmissions + (!s.windowSizeZero).toNat
        timer :=
          { running := true
            totalTime := 0
            rtTimeout := if s.windowSizeZero then s.timer.rtTimeout
              else s.timer.rtTimeout * 2 % 2 ^ 64 } }) := by
  unfold tick Expires
  cases hq : s.copySegmentsOut with
  | nil => exact Or.inl ⟨by simp, by simp [advanceClock, hq]⟩
  | cons seg rest =>
    by_cases hrun : s.timer.running = true ∧ s.timer.rtTimeout ≤ add64 s.timer.totalTime ms
    · refine Or.inr ⟨⟨by simp, hrun⟩, seg, rfl, ?_⟩
      cases hz : s.windowSizeZero <;>
        simp [advanceClock, retransmit, Timer.isTimeout, backOff, Timer.start, Timer.doubleRto,
          hrun.1, hrun.2, hz, hq]
    · refine Or.inl ⟨fun h => hrun h.2, ?_⟩
      simp only
      rw [if_neg]
      · simp [advanceClock, hq]
      · rw [Bool.and_eq_true, Timer.isTimeout, decide_eq_true_iff]
        exact hrun

/-- A tick touches the clock and the retransmission count, and resends what is queued. -/
theorem tick_frame (s : TCPSender) (ms : ℕ) : ∃ segs count timer,
    s.tick ms =
      { s with
        segmentsOut := s.segmentsOut ++ segs
        consecutiveRetransmissions := count
        timer := timer } ∧
    ∀ seg ∈ segs, seg ∈ s.copySegmentsOut := by
  obtain ⟨-, heq⟩ | ⟨-, seg, hseg, heq⟩ := s.tick_cases ms
  · exact ⟨[], _, _, by rw [heq, List.append_nil], by simp⟩
  · refine ⟨[seg], _, _, heq, fun x hx => ?_⟩
    rw [List.mem_singleton.mp hx]
    exact List.mem_of_head? hseg

theorem Sound.tick (h : s.Sound accepted) (ms : ℕ) : (s.tick ms).Sound accepted := by
  obtain ⟨segs, count, timer, heq, -⟩ := s.tick_frame ms
  rw [heq]
  exact ⟨h.bounded, h.length, h.text, h.next, h.fin, h.idle⟩

theorem Sound.sendEmptySegment (h : s.Sound accepted) : s.sendEmptySegment.Sound accepted :=
  ⟨h.bounded, h.length, h.text, h.next, h.fin, h.idle⟩

end TCPSender
