import Sponge.Sender.SeqSpace

/-!
# Sender/Queue — the retransmission queue

`_copy_segments_out` holds the segments that are not fully acknowledged, and nothing else.  The acks
may be anything; what is needed is that fewer than `2 ^ 30` sequence numbers are in flight, so that
the pop loop, which reads the 32-bit numbers of the queued segments against `_next_seqno`, gets
their absolute numbers back (`Queued.segmentEnd_eq`).
-/

open Word64 TCPSender

namespace SenderRun

/-- Fewer than `2 ^ 30` numbers are in flight and absolute numbers stay below `2 ^ 63`. -/
def InRange (r : SenderRun) (_ : SenderOp) : Prop :=
  r.sender.nextSeqno < r.sender.sendBase + 2 ^ 30 ∧ r.sender.nextSeqno < 2 ^ 63

instance (r : SenderRun) (op : SenderOp) : Decidable (r.InRange op) :=
  inferInstanceAs (Decidable (_ ∧ _))

/-- **The first transmissions are the segments popped and the queue**, which begins at `start`, in
whose front segment the base lies. -/
structure Queued (isn : WrappingInt32) (popped : List TCPSegment) (start : ℕ) (r : SenderRun) :
    Prop where
  isn_eq : r.sender.isn = isn
  firsts : r.firsts = popped ++ r.sender.copySegmentsOut
  before : Tiles TCPSegment.lengthInSequenceSpace (NumberedAt isn) 0 popped start
  queue : Tiles TCPSegment.lengthInSequenceSpace (NumberedAt isn) start r.sender.copySegmentsOut
    r.sender.nextSeqno
  start_le : start ≤ r.sender.sendBase
  base_le : r.sender.sendBase ≤ r.sender.nextSeqno
  front : ∀ seg ∈ r.sender.copySegmentsOut.head?,
    r.sender.sendBase < start + seg.lengthInSequenceSpace

variable {isn : WrappingInt32} {r : SenderRun} {op : SenderOp} {popped : List TCPSegment}
  {start : ℕ}

theorem lengthInSequenceSpace_le {a : ℕ} {seg : TCPSegment} (h : NumberedAt isn a seg) :
    seg.lengthInSequenceSpace ≤ 1454 := by
  have hsize : seg.payload.length ≤ 1452 := h.2.1
  have := seg.header.syn.toNat_le
  have := seg.header.fin.toNat_le
  unfold TCPSegment.lengthInSequenceSpace
  omega

namespace Queued

theorem init (capacity : UInt64) (retxTimeout : UInt16) (isn : WrappingInt32) :
    Queued isn [] 0 (.init capacity retxTimeout isn) where
  isn_eq := rfl
  firsts := rfl
  before := .nil 0
  queue := .nil 0
  start_le := le_rfl
  base_le := le_rfl
  front := by simp [SenderRun.init, TCPSender.new]

/-- The queue does not start far below the base. -/
theorem base_lt (h : r.Queued isn popped start) : r.sender.sendBase < start + 1455 := by
  cases hq : r.sender.copySegmentsOut with
  | nil =>
    have hend := h.queue.eq_nil_iff.mp hq
    have := h.base_le
    omega
  | cons seg rest =>
    have hfront := h.front seg (by rw [hq]; rfl)
    have hqueue := h.queue
    rw [hq] at hqueue
    have := lengthInSequenceSpace_le hqueue.1
    omega

/-- **The pop loop reads the numbers of queued segments right.** -/
theorem segmentEnd_eq (h : r.Queued isn popped start) (hok : r.InRange op) {a : ℕ}
    {seg : TCPSegment} (ha : start ≤ a)
    (hle : a + seg.lengthInSequenceSpace ≤ r.sender.nextSeqno) (hat : NumberedAt isn a seg) :
    r.sender.segmentEnd seg = a + seg.lengthInSequenceSpace := by
  obtain ⟨hflight, hsmall⟩ := hok
  have hbase := h.base_lt
  rw [segmentEnd, hat.1, h.isn_eq, unwrap_wrap isn (by omega) ⟨by omega, by omega⟩,
    add64_eq (by omega)]

/-- **Sending appends to the queue.** -/
theorem send (h : r.Queued isn popped start) {s' : TCPSender} {segs : List TCPSegment}
    (hsends : r.sender.Sends segs s') (elapsed : ℕ) :
    Queued isn popped start
      { r with sender := s', firsts := r.firsts ++ segs, elapsed := elapsed } where
  isn_eq := hsends.frame.isn.trans h.isn_eq
  firsts := by rw [hsends.copySegmentsOut, h.firsts, List.append_assoc]
  before := h.before
  queue := by
    rw [hsends.copySegmentsOut]
    exact Tiles.append_iff.mpr ⟨_, h.queue, h.isn_eq ▸ hsends.tiles⟩
  start_le := hsends.frame.sendBase ▸ h.start_le
  base_le := hsends.frame.sendBase ▸ h.base_le.trans hsends.tiles.le
  front seg hseg := by
    rw [hsends.frame.sendBase]
    rw [hsends.copySegmentsOut] at hseg
    cases hq : r.sender.copySegmentsOut with
    | cons seg' rest =>
      rw [hq] at hseg
      exact h.front seg (by rw [hq]; exact hseg)
    | nil =>
      -- the base has caught up, and is the start of what is sent now
      have hend := h.queue.eq_nil_iff.mp hq
      have := h.start_le
      have := h.base_le
      rw [hq, List.nil_append] at hseg
      have htiles := hsends.tiles
      cases segs with
      | nil => cases hseg
      | cons seg' rest =>
        obtain rfl : seg' = seg := Option.some.inj hseg
        have := htiles.2.1
        omega

/-- **An ack of new data pops what it acknowledges in full.** -/
theorem advanceBase (h : r.Queued isn popped start) (hok : r.InRange op) {absoluteAckno : ℕ}
    (hbase : r.sender.sendBase < absoluteAckno) (hle : absoluteAckno ≤ r.sender.nextSeqno)
    (window : UInt16) : ∃ popped' start',
      Queued isn popped' start' { r with sender := r.sender.advanceBase absoluteAckno window } := by
  obtain ⟨start', hstart', htake, hdrop, hfront⟩ := h.queue.dropWhile
    (h.start_le.trans hbase.le)
    (fun seg => decide (r.sender.segmentEnd seg ≤ absoluteAckno))
    fun a seg ha hend hat => by rw [decide_eq_true_iff, h.segmentEnd_eq hok ha hend hat]
  refine ⟨popped ++ r.sender.copySegmentsOut.takeWhile
    fun seg => decide (r.sender.segmentEnd seg ≤ absoluteAckno), start', ?_⟩
  rw [advanceBase_eq]
  exact {
    isn_eq := h.isn_eq
    firsts := by rw [List.append_assoc, List.takeWhile_append_dropWhile, h.firsts]
    before := Tiles.append_iff.mpr ⟨_, h.before, htake⟩
    queue := hdrop
    start_le := hstart'
    base_le := hle
    front := hfront }

/-- The queue does not depend on the timer, the window or what has gone out. -/
theorem congr (h : r.Queued isn popped start) {r' : SenderRun} (hfirsts : r'.firsts = r.firsts)
    (hisn : r'.sender.isn = r.sender.isn)
    (hcopies : r'.sender.copySegmentsOut = r.sender.copySegmentsOut)
    (hnext : r'.sender.nextSeqno = r.sender.nextSeqno)
    (hbase : r'.sender.sendBase = r.sender.sendBase) : r'.Queued isn popped start := by
  obtain ⟨h₁, h₂, h₃, h₄, h₅, h₆, h₇⟩ := h
  rw [← hfirsts, ← hisn, ← hcopies, ← hnext, ← hbase] at *
  exact ⟨h₁, h₂, h₃, h₄, h₅, h₆, h₇⟩

/-- **Every call keeps the queue.** -/
theorem apply (h : r.Queued isn popped start) (hok : r.InRange op) :
    ∃ popped' start', (r.apply op).Queued isn popped' start' := by
  cases op with
  | write data => exact ⟨popped, start, h.congr rfl rfl rfl rfl rfl⟩
  | endInput => exact ⟨popped, start, h.congr rfl rfl rfl rfl rfl⟩
  | sendEmptySegment => exact ⟨popped, start, h.congr rfl rfl rfl rfl rfl⟩
  | fillWindow =>
    obtain ⟨segs, hsends⟩ := r.sender.fillWindow_sends
    rw [SenderRun.apply, emitted_eq hsends.segmentsOut]
    exact ⟨popped, start, h.send hsends _⟩
  | tick ms =>
    obtain ⟨segs, count, timer, heq, -⟩ := r.sender.tick_frame ms
    rw [SenderRun.apply, heq]
    exact ⟨popped, start, h.congr rfl rfl rfl rfl rfl⟩
  | ackReceived ackno window =>
    rw [SenderRun.apply]
    obtain ⟨-, heq⟩ | ⟨-, -, heq⟩ | ⟨hle, hlt, heq⟩ := r.sender.ackReceived_cases ackno window
    · rw [heq, emitted_eq (List.append_nil _).symm, List.append_nil]
      exact ⟨popped, start, h.congr rfl rfl rfl rfl rfl⟩
    · have hout : (r.sender.recordWindow window).segmentsOut = r.sender.segmentsOut ++ [] := by
        rw [recordWindow_eq, List.append_nil]
      rw [heq, emitted_eq hout, List.append_nil, recordWindow_eq]
      exact ⟨popped, start, h.congr rfl rfl rfl rfl rfl⟩
    · rw [heq]
      generalize unwrap ackno r.sender.isn r.sender.sendBase = absoluteAckno at hle hlt ⊢
      obtain ⟨popped', start', h'⟩ := h.advanceBase hok hlt hle window
      obtain ⟨segs, hsends⟩ := (r.sender.advanceBase absoluteAckno window).fillWindow_sends
      have hout : (r.sender.advanceBase absoluteAckno window).fillWindow.restartTimer.segmentsOut =
          r.sender.segmentsOut ++ segs := by
        rw [restartTimer, hsends.segmentsOut, advanceBase_eq]
      rw [emitted_eq hout]
      exact ⟨popped', start', (h'.send hsends 0).congr rfl rfl rfl rfl rfl⟩

end Queued

/-- The invariant along a run. -/
theorem reach_queued {capacity : UInt64} {retxTimeout : UInt16}
    (h : Reach step InRange (init capacity retxTimeout isn) r) :
    ∃ popped start, r.Queued isn popped start := by
  refine h.invariant (I := fun r => ∃ popped start, r.Queued isn popped start)
    ⟨[], 0, .init capacity retxTimeout isn⟩ ?_
  rintro r op r' ⟨popped, start, ih⟩ hok hs
  obtain rfl := Option.some.inj hs
  exact ih.apply hok

/-- **The retransmission queue.**  In every run with few enough numbers in flight the base does not
pass the next number; the queued segments are contiguous from some `start` up to the next number,
there are none exactly if nothing is in flight, and otherwise the base lies in the front one.  So
they are exactly the first transmissions not fully acknowledged, in order, and every number in
flight lies in one of them. -/
theorem retransmission_queue {capacity : UInt64} {retxTimeout : UInt16}
    (h : Reach step InRange (init capacity retxTimeout isn) r) :
    r.sender.sendBase ≤ r.sender.nextSeqno ∧
    (r.sender.copySegmentsOut = [] ↔ r.sender.sendBase = r.sender.nextSeqno) ∧
    ∃ start,
      Tiles TCPSegment.lengthInSequenceSpace (fun a seg => seg.header.seqno = wrap a isn) start
        r.sender.copySegmentsOut r.sender.nextSeqno ∧
      (∀ seg ∈ r.sender.copySegmentsOut.head?,
        start ≤ r.sender.sendBase ∧ r.sender.sendBase < start + seg.lengthInSequenceSpace) ∧
      (place TCPSegment.lengthInSequenceSpace 0 r.firsts).filter
          (fun x => decide (r.sender.sendBase < x.1 + x.2.lengthInSequenceSpace)) =
        place TCPSegment.lengthInSequenceSpace start r.sender.copySegmentsOut ∧
      ∀ n, r.sender.sendBase ≤ n → n < r.sender.nextSeqno →
        ∃ x ∈ place TCPSegment.lengthInSequenceSpace start r.sender.copySegmentsOut,
          x.1 ≤ n ∧ n < x.1 + x.2.lengthInSequenceSpace := by
  obtain ⟨popped, start, hq⟩ := reach_queued h
  have hstart := hq.start_le
  have hbase := hq.base_le
  refine ⟨hbase, ⟨fun hnil => ?_, fun heq => ?_⟩, start,
    hq.queue.imp fun _ _ _ _ hat => hat.1, fun seg hseg => ⟨hstart, hq.front seg hseg⟩, ?_,
    fun n hn hlt => hq.queue.exists_mem_place (hstart.trans hn) hlt⟩
  · have := hq.queue.eq_nil_iff.mp hnil
    omega
  · -- a front segment would reach past the base, which is where the queue ends
    cases hcopies : r.sender.copySegmentsOut with
    | nil => rfl
    | cons seg rest =>
      have hfront := hq.front seg (by rw [hcopies]; rfl)
      have hqueue := hq.queue
      rw [hcopies] at hqueue
      have := hqueue.2.2.le
      omega
  · rw [hq.firsts]
    exact hq.before.filter_place hq.queue hstart hq.front

/-- Two segments in flight, the first acknowledged up to its middle. -/
theorem retransmission_queue_run : ∃ r, Reach step InRange (init 64000 1000 ⟨4294967290⟩) r ∧
    r.sender.sendBase = 3 ∧ r.sender.nextSeqno = 8 ∧ r.sender.copySegmentsOut.length = 2 ∧
    ∃ start, ∀ seg ∈ r.sender.copySegmentsOut.head?,
      start ≤ r.sender.sendBase ∧ r.sender.sendBase < start + seg.lengthInSequenceSpace := by
  obtain ⟨r, hr, hp⟩ := exists_reach_of_exec step InRange
    (init 64000 1000 ⟨4294967290⟩)
    [.fillWindow, .ackReceived ⟨4294967291⟩ 10, .write [1, 2, 3, 4], .fillWindow,
      .write [5, 6, 7], .fillWindow, .ackReceived ⟨4294967293⟩ 10]
    (fun r => r.sender.sendBase == 3 && r.sender.nextSeqno == 8 &&
      r.sender.copySegmentsOut.length == 2) (by decide)
  simp only [Bool.and_eq_true, beq_iff_eq] at hp
  obtain ⟨-, -, start, -, hfront, -⟩ := retransmission_queue hr
  exact ⟨r, hr, hp.1.1, hp.1.2, hp.2, start, hfront⟩

end SenderRun
