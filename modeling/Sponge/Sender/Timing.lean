import Sponge.Sender.SeqSpace

/-!
# Sender/Timing — the retransmission timer

The timer runs exactly while segments are queued, its timeout is the initial one doubled once for
each consecutive retransmission, and its clock is the time since it was last started.  Time is a
`size_t`: the clock is the elapsed time modulo `2 ^ 64`, and the doublings must not leave 64 bits.
-/

open Word64 TCPSender

namespace SenderRun

instance (s : TCPSender) (ms : ℕ) : Decidable (s.Expires ms) :=
  inferInstanceAs (Decidable (_ ∧ _))

/-- A tick that doubles the timeout keeps it in 64 bits. -/
def NoOverflow (r : SenderRun) : SenderOp → Prop
  | .tick ms => r.sender.Expires ms → r.sender.windowSizeZero = false →
      r.sender.timer.rtTimeout * 2 < 2 ^ 64
  | _ => True

instance (r : SenderRun) (op : SenderOp) : Decidable (r.NoOverflow op) :=
  match op with
  | .tick _ => inferInstanceAs (Decidable (_ → _ → _))
  | .write _ | .endInput | .fillWindow | .ackReceived .. | .sendEmptySegment =>
    inferInstanceAs (Decidable True)

/-- **The timer and the queue agree.** -/
structure Timed (initialRto : ℕ) (r : SenderRun) : Prop where
  initial : r.sender.initialRetransmissionTimeout = initialRto
  running : r.sender.timer.running = true ↔ r.sender.copySegmentsOut ≠ []
  timeout : r.sender.timer.running = true →
    r.sender.timer.rtTimeout = initialRto * 2 ^ r.sender.consecutiveRetransmissions
  clock : r.sender.timer.running = true → r.sender.timer.totalTime = r.elapsed % 2 ^ 64
  quiet : r.sender.copySegmentsOut = [] → r.sender.consecutiveRetransmissions = 0
  zero : r.sender.windowSizeZero = decide (r.window = 0)

variable {isn : WrappingInt32} {r : SenderRun} {op : SenderOp} {initialRto : ℕ}

namespace Timed

theorem init (capacity : UInt64) (retxTimeout : UInt16) (isn : WrappingInt32) :
    Timed retxTimeout.toNat (.init capacity retxTimeout isn) where
  initial := rfl
  running := by simp [SenderRun.init, TCPSender.new]
  timeout := by simp [SenderRun.init, TCPSender.new]
  clock := by simp [SenderRun.init, TCPSender.new]
  quiet _ := rfl
  zero := by simp [SenderRun.init, TCPSender.new]

/-- Sending leaves a running timer alone. -/
theorem fillWindow_of_running (h : r.Timed initialRto) (hrun : r.sender.timer.running = true) :
    (r.apply .fillWindow).Timed initialRto := by
  obtain ⟨segs, hsends⟩ := r.sender.fillWindow_sends
  have hframe := hsends.frame
  have hne := h.running.mp hrun
  have htimer : r.sender.fillWindow.timer = r.sender.timer := by
    rw [hsends.timer, if_pos (Or.inr hrun)]
  simp only [SenderRun.apply]
  refine ⟨hframe.initialRetransmissionTimeout.trans h.initial, ?_, ?_, ?_, ?_,
    hframe.windowSizeZero.trans h.zero⟩
  · simp [htimer, hrun, hsends.copySegmentsOut, hne]
  · intro _
    rw [htimer, hframe.consecutiveRetransmissions]
    exact h.timeout hrun
  · intro _
    rw [htimer, if_pos hrun]
    exact h.clock hrun
  · simp [hsends.copySegmentsOut, hne]

/-- Sending starts a stopped timer, if anything is sent. -/
theorem fillWindow_of_stopped (h : r.Timed initialRto) (hrun : r.sender.timer.running ≠ true) :
    (r.apply .fillWindow).Timed initialRto := by
  obtain ⟨segs, hsends⟩ := r.sender.fillWindow_sends
  have hframe := hsends.frame
  have hnil : r.sender.copySegmentsOut = [] := by
    by_contra hne
    exact hrun (h.running.mpr hne)
  have hcopies : r.sender.fillWindow.copySegmentsOut = segs := by
    rw [hsends.copySegmentsOut, hnil, List.nil_append]
  have hcount : r.sender.fillWindow.consecutiveRetransmissions = 0 :=
    hframe.consecutiveRetransmissions.trans (h.quiet hnil)
  simp only [SenderRun.apply]
  refine ⟨hframe.initialRetransmissionTimeout.trans h.initial, ?_, ?_, ?_, fun _ => hcount,
    hframe.windowSizeZero.trans h.zero⟩
  · rw [hsends.timer, hcopies]
    by_cases hsegs : segs = []
    · simp [hsegs, hrun]
    · simp [hsegs, hrun, Timer.startWith]
  · intro hrun'
    rw [hsends.timer] at hrun' ⊢
    rw [hcount, pow_zero, mul_one, ← h.initial]
    split_ifs at hrun' ⊢ with hcond
    · exact absurd hrun' hrun
    · rfl
  · intro hrun'
    rw [hsends.timer] at hrun' ⊢
    split_ifs at hrun' ⊢ with hcond
    · exact absurd hrun' hrun
    · rfl

/-- **Sending starts a stopped timer and leaves a running one alone.** -/
theorem fillWindow (h : r.Timed initialRto) : (r.apply .fillWindow).Timed initialRto := by
  by_cases hrun : r.sender.timer.running = true
  · exact h.fillWindow_of_running hrun
  · exact h.fillWindow_of_stopped hrun

/-- **An ack of new data starts the timer anew** if anything is still queued, else clears it. -/
theorem ackReceived (h : r.Timed initialRto) (ackno : WrappingInt32) (window : UInt16) :
    (r.apply (.ackReceived ackno window)).Timed initialRto := by
  simp only [SenderRun.apply]
  obtain ⟨hlt, heq⟩ | ⟨hle, -, heq⟩ | ⟨hle, hlt, heq⟩ := r.sender.ackReceived_cases ackno window
  · rw [heq, if_pos rfl, if_pos hlt]
    exact ⟨h.initial, h.running, h.timeout, h.clock, h.quiet, h.zero⟩
  · rw [heq, recordWindow_eq, if_pos rfl, if_neg (by omega)]
    exact ⟨h.initial, h.running, h.timeout, h.clock, h.quiet, rfl⟩
  · rw [heq, if_neg (by omega : ¬ r.sender.nextSeqno < unwrap ackno r.sender.isn r.sender.sendBase)]
    generalize unwrap ackno r.sender.isn r.sender.sendBase = absoluteAckno at hlt ⊢
    have hbase := r.sender.advanceBase_eq absoluteAckno window
    obtain ⟨segs, hsends⟩ := (r.sender.advanceBase absoluteAckno window).fillWindow_sends
    have hframe := hsends.frame
    generalize (r.sender.advanceBase absoluteAckno window).fillWindow = s at hframe ⊢
    have hinit : s.initialRetransmissionTimeout = initialRto := by
      rw [hframe.initialRetransmissionTimeout, hbase]
      exact h.initial
    have hmoved : s.sendBase ≠ r.sender.sendBase := by
      rw [hframe.sendBase, hbase]
      exact hlt.ne'
    have hzero : s.windowSizeZero = decide (window = 0) := by rw [hframe.windowSizeZero, hbase]
    simp only [restartTimer]
    refine ⟨hinit, ?_, ?_, ?_, fun _ => rfl, hzero⟩
    · by_cases hnil : s.copySegmentsOut = [] <;> simp [hnil, Timer.clear, Timer.startWith]
    · by_cases hnil : s.copySegmentsOut = [] <;> simp [hnil, Timer.clear, Timer.startWith, hinit]
    · by_cases hnil : s.copySegmentsOut = [] <;>
        simp [hnil, Timer.clear, Timer.startWith, hmoved]

/-- **A tick lets the clock run or backs off.** -/
theorem tick (h : r.Timed initialRto) {ms : ℕ} (hok : r.NoOverflow (.tick ms)) :
    (r.apply (.tick ms)).Timed initialRto := by
  simp only [SenderRun.apply]
  obtain ⟨-, heq⟩ | ⟨hexp, seg, hseg, heq⟩ := r.sender.tick_cases ms
  · have hout : (r.sender.tick ms).segmentsOut = r.sender.segmentsOut ++ [] := by
      rw [heq, List.append_nil]
    rw [emitted_eq hout, if_pos rfl, heq]
    refine ⟨h.initial, h.running, h.timeout, fun hrun => ?_, h.quiet, h.zero⟩
    have hclock := h.clock hrun
    simp only [add64, hclock]
    omega
  · have hout : (r.sender.tick ms).segmentsOut = r.sender.segmentsOut ++ [seg] := by rw [heq]
    rw [emitted_eq hout, if_neg (List.cons_ne_nil _ _), heq]
    refine ⟨h.initial, by simp [hexp.1], fun _ => ?_, fun _ => rfl, fun hnil => absurd hnil hexp.1,
      h.zero⟩
    have htimeout := h.timeout hexp.2.1
    have hfit := hok hexp
    cases hz : r.sender.windowSizeZero with
    | true => simpa using htimeout
    | false =>
      simp only [Bool.false_eq_true, if_false, Bool.not_false, Bool.toNat_true]
      rw [Nat.mod_eq_of_lt (hfit hz), htimeout, pow_succ, mul_assoc]

/-- **Every call keeps the timer and the queue in agreement.** -/
theorem apply (h : r.Timed initialRto) (hok : r.NoOverflow op) : (r.apply op).Timed initialRto := by
  cases op with
  | fillWindow => exact h.fillWindow
  | ackReceived ackno window => exact h.ackReceived ackno window
  | tick ms => exact h.tick hok
  | write data => exact ⟨h.initial, h.running, h.timeout, h.clock, h.quiet, h.zero⟩
  | endInput => exact ⟨h.initial, h.running, h.timeout, h.clock, h.quiet, h.zero⟩
  | sendEmptySegment => exact ⟨h.initial, h.running, h.timeout, h.clock, h.quiet, h.zero⟩

end Timed

/-- The invariant along a run. -/
theorem reach_timed {capacity : UInt64} {retxTimeout : UInt16}
    (h : Reach step NoOverflow (init capacity retxTimeout isn) r) : r.Timed retxTimeout.toNat := by
  refine h.invariant (Timed.init capacity retxTimeout isn) fun r op r' ih hok hs => ?_
  obtain rfl := Option.some.inj hs
  exact ih.apply hok

/-- **The retransmission timer.**  In every run the timer runs exactly while something is queued;
its timeout is then the initial one doubled for each consecutive retransmission and its clock the
time ticked since it was last started; with nothing queued the count is zero.  A tick sends the
front of the queue, once, exactly if something is queued and the clock reaches the timeout, and then
backs off exactly if the window last recorded was not zero. -/
theorem retransmission_timer {capacity : UInt64} {retxTimeout : UInt16}
    (h : Reach step NoOverflow (init capacity retxTimeout isn) r) :
    (r.sender.timer.running = true ↔ r.sender.copySegmentsOut ≠ []) ∧
    (r.sender.timer.running = true →
      r.sender.timer.rtTimeout =
        retxTimeout.toNat * 2 ^ r.sender.consecutiveRetransmissions ∧
      r.sender.timer.totalTime = r.elapsed % 2 ^ 64) ∧
    (r.sender.copySegmentsOut = [] → r.sender.consecutiveRetransmissions = 0) ∧
    ∀ ms, r.NoOverflow (.tick ms) →
      emitted r.sender (r.sender.tick ms) =
        (if r.sender.timer.rtTimeout ≤ add64 r.sender.timer.totalTime ms
          then r.sender.copySegmentsOut.head?.toList else []) ∧
      ((r.sender.tick ms).consecutiveRetransmissions, (r.sender.tick ms).timer.rtTimeout) =
        if emitted r.sender (r.sender.tick ms) ≠ [] ∧ r.window ≠ 0
          then (r.sender.consecutiveRetransmissions + 1, r.sender.timer.rtTimeout * 2)
          else (r.sender.consecutiveRetransmissions, r.sender.timer.rtTimeout) := by
  have ht := reach_timed h
  refine ⟨ht.running, fun hrun => ⟨ht.timeout hrun, ht.clock hrun⟩, ht.quiet, fun ms hok => ?_⟩
  obtain ⟨hexp, heq⟩ | ⟨hexp, seg, hseg, heq⟩ := r.sender.tick_cases ms
  · have hout : (r.sender.tick ms).segmentsOut = r.sender.segmentsOut ++ [] := by
      rw [heq, List.append_nil]
    rw [emitted_eq hout]
    refine ⟨?_, by simp [heq]⟩
    split_ifs with hdue
    · -- due but not expired: nothing is queued
      have hnil : r.sender.copySegmentsOut = [] := by
        by_contra hne
        exact hexp ⟨hne, ht.running.mpr hne, hdue⟩
      rw [hnil]
      rfl
    · rfl
  · have hout : (r.sender.tick ms).segmentsOut = r.sender.segmentsOut ++ [seg] := by rw [heq]
    rw [emitted_eq hout, if_pos hexp.2.2, hseg]
    refine ⟨rfl, ?_⟩
    have hzero := ht.zero
    have hfit := hok hexp
    by_cases hw : r.window = 0
    · simp [heq, hzero, hw]
    · have hz : r.sender.windowSizeZero = false := by rw [hzero, decide_eq_false hw]
      simpa [heq, hz, hw] using hfit hz

/-- One back-off, then a zero window and a retransmission that does not back off. -/
theorem retransmission_timer_run : ∃ r, Reach step NoOverflow (init 64000 1000 ⟨7⟩) r ∧
    r.sender.consecutiveRetransmissions = 1 ∧ r.window = 0 ∧ r.elapsed = 300 ∧
    r.sender.timer.rtTimeout = 2000 ∧ r.sender.timer.totalTime = 300 ∧
    r.sender.copySegmentsOut ≠ [] := by
  obtain ⟨r, hr, hp⟩ := exists_reach_of_exec step NoOverflow
    (init 64000 1000 ⟨7⟩)
    [.fillWindow, .tick 400, .tick 600, .ackReceived ⟨7⟩ 0, .tick 2000, .tick 300]
    (fun r => r.sender.consecutiveRetransmissions == 1 && r.window == 0 && r.elapsed == 300 &&
      r.sender.timer.running) (by decide)
  simp only [Bool.and_eq_true, beq_iff_eq] at hp
  obtain ⟨⟨⟨hcount, hw⟩, hel⟩, hrun⟩ := hp
  obtain ⟨hiff, htimes, -⟩ := retransmission_timer hr
  obtain ⟨hrt, htotal⟩ := htimes hrun
  rw [hcount] at hrt
  rw [hel] at htotal
  exact ⟨r, hr, hcount, hw, hel, hrt, htotal, hiff.mp hrun⟩

end SenderRun
