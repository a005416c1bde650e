import Sponge.Link.FlowControl
import Sponge.Receiver.Window

/-!
# Link/Progress — a transfer can always be completed

Whatever has happened on the link, and even if everything under way is lost, there is a continuation
of the run in which the receiver's reader gets the whole text and the sender learns of it
(`can_complete`): neither a full window, nor a lost ack, nor a stopped timer leaves the two parties
waiting for each other.

The continuation is made of rounds.  The reader empties the inbound stream, a fresh ack tells the
sender where the receiver is and opens the window, the window is filled, the timer expires and the
front of the queue arrives: the receiver's `ackno` has moved.  `Live` is what the rounds rest on and
what every orderly step keeps.  Its last field is where the receiver's refusal of a second FIN comes
in: a FIN that was taken has been taken whole.
-/

open Word64

/-! ## A timer that can expire -/

namespace TCPSender

/-- The timer runs while something is queued, and its times are in 64 bits. -/
structure Clocked (s : TCPSender) : Prop where
  running : s.copySegmentsOut ≠ [] → s.timer.running = true
  rtTimeout_lt : s.timer.rtTimeout < 2 ^ 64
  totalTime_lt : s.timer.totalTime < 2 ^ 64
  initial_lt : s.initialRetransmissionTimeout < 2 ^ 64

variable {s : TCPSender}

namespace Clocked

theorem new (capacity : UInt64) (retxTimeout : UInt16) (isn : WrappingInt32) :
    Clocked (.new capacity retxTimeout isn) := by
  have := retxTimeout.toNat_lt
  refine ⟨by simp [TCPSender.new], ?_, by simp [TCPSender.new], ?_⟩ <;>
    · simp only [TCPSender.new]
      omega

theorem fillWindow (h : s.Clocked) : s.fillWindow.Clocked := by
  obtain ⟨segs, hsends⟩ := s.fillWindow_sends
  have hinit := hsends.frame.initialRetransmissionTimeout ▸ h.initial_lt
  have htimer := hsends.timer
  split_ifs at htimer with hkept
  · refine ⟨fun hne => ?_, htimer ▸ h.rtTimeout_lt, htimer ▸ h.totalTime_lt, hinit⟩
    rw [htimer]
    rcases hkept with rfl | hrun
    · rw [hsends.copySegmentsOut, List.append_nil] at hne
      exact h.running hne
    · exact hrun
  · exact ⟨fun _ => congrArg Timer.running htimer,
      (congrArg Timer.rtTimeout htimer).trans_lt h.initial_lt,
      (congrArg Timer.totalTime htimer).trans_lt (Nat.two_pow_pos 64), hinit⟩

theorem restartTimer (h : s.Clocked) : s.restartTimer.Clocked := by
  unfold TCPSender.restartTimer
  split_ifs with hnil
  · exact ⟨fun hne => absurd hnil hne, Nat.two_pow_pos 64, Nat.two_pow_pos 64, h.initial_lt⟩
  · exact ⟨fun _ => rfl, h.initial_lt, Nat.two_pow_pos 64, h.initial_lt⟩

theorem tick (h : s.Clocked) (ms : ℕ) : (s.tick ms).Clocked := by
  obtain ⟨-, heq⟩ | ⟨-, seg, -, heq⟩ := s.tick_cases ms
  · rw [heq]
    exact ⟨h.running, h.rtTimeout_lt, Nat.mod_lt _ (Nat.two_pow_pos 64), h.initial_lt⟩
  · rw [heq]
    refine ⟨fun _ => rfl, ?_, Nat.two_pow_pos 64, h.initial_lt⟩
    simp only
    split_ifs
    · exact h.rtTimeout_lt
    · exact Nat.mod_lt _ (Nat.two_pow_pos 64)

theorem ackReceived (h : s.Clocked) (ackno : WrappingInt32) (window : UInt16) :
    (s.ackReceived ackno window).Clocked := by
  refine ackReceived_induction h ?_ (fun v _ => ?_) (fun _ hs => hs.fillWindow)
    fun _ hs => hs.restartTimer
  · rw [recordWindow_eq]
    exact ⟨h.running, h.rtTimeout_lt, h.totalTime_lt, h.initial_lt⟩
  · rw [advanceBase_eq]
    refine ⟨fun hne => h.running fun hnil => hne ?_, h.rtTimeout_lt, h.totalTime_lt, h.initial_lt⟩
    simp only [hnil, List.dropWhile_nil]

/-- **A tick of the right length makes the timer expire.** -/
theorem expires (h : s.Clocked) (hne : s.copySegmentsOut ≠ []) :
    s.Expires (s.timer.rtTimeout - s.timer.totalTime) := by
  have := h.rtTimeout_lt
  have := h.totalTime_lt
  refine ⟨hne, h.running hne, ?_⟩
  rw [add64_eq (by omega)]
  omega

end Clocked

/-- **A fresh ack of all that has arrived** puts the base there and opens the window it brings. -/
theorem ackReceived_fits (hcounted : s.Counted) (ackno : WrappingInt32) (window : UInt16) {v : ℕ}
    (hunwrap : unwrap ackno s.isn s.sendBase = v) (hbase : s.sendBase ≤ v)
    (hnext : s.nextSeqno ≤ v + max window.toNat 1) (hle : v ≤ s.nextSeqno) :
    (s.ackReceived ackno window).sendBase = v ∧
      (s.ackReceived ackno window).windowSize = max window.toNat 1 ∧
      (s.ackReceived ackno window).Fits := by
  have hw := window.toNat_lt
  obtain ⟨hlt, -⟩ | ⟨-, hold, heq⟩ | ⟨-, -, heq⟩ := s.ackReceived_cases ackno window
  · omega
  · rw [heq, recordWindow_eq]
    exact ⟨by simp only; omega, rfl, hcounted.base, by simp only; omega, by simp only; omega⟩
  · obtain ⟨segs, hsends⟩ := (s.advanceBase v window).fillWindow_sends
    have hfits : (s.advanceBase v window).Fits := by
      rw [advanceBase_eq]
      exact ⟨hle, hnext, by simp only; omega⟩
    have hidle := (hcounted.advanceBase hle window).nextSeqno_eq_zero_iff.mpr
    have hfilled := hfits.fillWindow hidle
    rw [heq, hunwrap]
    refine ⟨?_, ?_, hfilled.base_le, hfilled.next_le, hfilled.window_lt⟩
    · rw [restartTimer, hsends.frame.sendBase, advanceBase_eq]
    · rw [restartTimer, hsends.frame.windowSize, advanceBase_eq]

end TCPSender

/-! ## The logs of a sender grow -/

namespace SenderRun

variable (r : SenderRun) (op : SenderOp)

theorem firsts_prefix_apply : r.firsts <+: (r.apply op).firsts := by
  cases op with
  | fillWindow | ackReceived => exact List.prefix_append _ _
  | write | endInput | tick | sendEmptySegment => exact List.prefix_rfl

theorem segmentsOut_prefix_apply : r.sender.segmentsOut <+: (r.apply op).sender.segmentsOut := by
  cases op with
  | write | endInput => exact List.prefix_rfl
  | sendEmptySegment => exact List.prefix_append _ _
  | fillWindow =>
    obtain ⟨segs, hout, -⟩ := r.sender.fillWindow_queue
    exact ⟨segs, hout.symm⟩
  | ackReceived ackno window =>
    obtain ⟨segs, hout, -⟩ := r.sender.ackReceived_queue ackno window
    exact ⟨segs, hout.symm⟩
  | tick ms =>
    obtain ⟨segs, count, timer, heq, -⟩ := r.sender.tick_frame ms
    exact ⟨segs, (congrArg TCPSender.segmentsOut heq).symm⟩

theorem inputEnded_apply (h : r.sender.stream.inputEnded = true) :
    (r.apply op).sender.stream.inputEnded = true := by
  cases op with
  | write | sendEmptySegment => exact h
  | endInput => rfl
  | fillWindow =>
    obtain ⟨segs, hsends⟩ := r.sender.fillWindow_sends
    exact hsends.frame.inputEnded.trans h
  | ackReceived ackno window =>
    exact (r.sender.ackReceived_stream ackno window).2.1.trans h
  | tick ms =>
    obtain ⟨segs, count, timer, heq, -⟩ := r.sender.tick_frame ms
    exact (congrArg (fun s => s.stream.inputEnded) heq).trans h

theorem clocked_apply (h : r.sender.Clocked) : (r.apply op).sender.Clocked := by
  cases op with
  | write | endInput | sendEmptySegment =>
    exact ⟨h.running, h.rtTimeout_lt, h.totalTime_lt, h.initial_lt⟩
  | fillWindow => exact h.fillWindow
  | ackReceived ackno window => exact h.ackReceived ackno window
  | tick ms => exact h.tick ms

end SenderRun

/-! ## What an arrival does to a receiver -/

namespace TCPReceiver

variable {r r' : TCPReceiver} {t : Transcript} {consumed : Bytes} {a : ℕ} {seg : TCPSegment}

/-- An arrival leaves the acceptance limit where it is, and an ended output ended. -/
theorem edge_segmentReceived (hr : r.segmentReceived seg = some r') :
    r'.reassembler.edge = r.reassembler.edge ∧
      (r.streamOut.inputEnded = true → r'.streamOut.inputEnded = true) := by
  obtain ⟨⟨hread, hend⟩, hcap⟩ := segmentReceived_induction
    (P := fun s => s.totalRead = r.streamOut.totalRead ∧
      (r.streamOut.inputEnded = true → s.inputEnded = true))
    (fun _ _ h => h) (fun _ h => ⟨h.1, fun _ => rfl⟩) ⟨rfl, id⟩ hr
  refine ⟨?_, hend⟩
  rw [StreamReassembler.edge, hcap]
  exact congrArg (· + _) hread

/-- Any segment with SYN gives the receiver its `ackno`. -/
theorem syn_segmentReceived (hsyn : seg.header.syn = true)
    (hr : r.segmentReceived seg = some r') : r'.syn = true := by
  obtain ⟨r₀, hopens, rfl | ⟨hs, index, hasm⟩⟩ := segmentReceived_arrives hr
  · rw [hopens.syn, hsyn, Bool.or_true]
  · obtain ⟨ra, -, rfl⟩ := Option.map_eq_some_iff.mp hasm
    exact hs

/-- Any segment with FIN is noted by a receiver that has its SYN. -/
theorem fin_segmentReceived (hrs : r.syn = true) (hsyn : seg.header.syn = false)
    (hfin : seg.header.fin = true) (hr : r.segmentReceived seg = some r') : r'.fin = true := by
  simp only [segmentReceived, receiveAt, hrs, hsyn, hfin, Bool.not_true, Bool.false_eq_true,
    if_false, if_true] at hr
  split_ifs at hr with hrf
  · rwa [← Option.some.inj hr]
  · obtain ⟨ra, -, rfl⟩ := Option.map_eq_some_iff.mp hr
    rfl

/-- A FIN gets into the receiver with a segment that has one. -/
theorem Follows.of_fin_segmentReceived (h : r.Follows t consumed) (hseg : t.Carries a seg)
    (hnear : Near a r.streamOut.bytesWritten) (hfit : t.stop < 2 ^ 64)
    (hr : r.segmentReceived seg = some r') (hfin : r'.fin = true) :
    r.fin = true ∨ r.syn = true ∧ seg.header.fin = true := by
  obtain ⟨-, heq⟩ | ⟨-, -, heq⟩ | ⟨hacc, heq⟩ := segmentReceived_cases h hseg hnear hfit
  · obtain rfl := Option.some.inj (heq.symm.trans hr)
    exact Or.inl hfin
  · obtain rfl := Option.some.inj (heq.symm.trans hr)
    exact Or.inl hfin
  · obtain ⟨ra, -, rfl⟩ := Option.map_eq_some_iff.mp (heq.symm.trans hr)
    rw [TCPReceiver.advance, Bool.or_eq_true] at hfin
    exact hfin.imp_right fun hf => ⟨hacc.syn, hf⟩

/-- **A receiver that has its FIN and all bytes has ended its output.** -/
theorem Follows.inputEnded_of_fin (h : r.Follows t consumed) (hfin : r.fin = true)
    (hall : t.sent.length ≤ r.streamOut.bytesWritten) : r.streamOut.inputEnded = true := by
  rw [streamOut, h.endsAt.ended, h.eof, hfin, Bool.true_and, decide_eq_true_iff]
  exact le_antisymm h.written_le hall

end TCPReceiver

/-! ## What orderly steps keep -/

namespace Link

variable {isn : WrappingInt32} {capacity : ℕ} {l l' : Link} {op : LinkOp}

/-- The steps of an orderly run with numbers in range. -/
def Steady (l : Link) (op : LinkOp) : Prop := l.InRange op ∧ l.Orderly op

instance (l : Link) (op : LinkOp) : Decidable (l.Steady op) := inferInstanceAs (Decidable (_ ∧ _))

/-- **What keeps a transfer going.** -/
structure Live (isn : WrappingInt32) (capacity : ℕ) (l : Link) : Prop where
  agrees : l.Agrees isn
  paced : l.Paced
  counted : l.run.sender.Counted
  clocked : l.run.sender.Clocked
  capacity : l.receiver.capacity = capacity
  base : l.receiver.syn = false → l.run.sender.sendBase = 0
  delivered : l.delivered ⊆ l.acks
  /-- no right edge is taken back -/
  edges : ∀ ack ∈ l.acks,
    ack.edge ≤ l.receiver.reassembler.edge + 1 + l.receiver.streamOut.inputEnded.toNat
  /-- a FIN that was taken came with all of its payload -/
  whole : l.receiver.fin = true →
    ∃ x ∈ place TCPSegment.lengthInSequenceSpace 0 l.run.firsts, x.2.header.fin = true ∧
      l.receiver.TakenIn x.1 x.2 (x.1 + x.2.payload.length)

/-- The window advertised, as a number. -/
theorem toNat_advertisedWindow (r : TCPReceiver) :
    r.advertisedWindow.toNat = min r.windowSize 65535 := by
  rw [TCPReceiver.advertisedWindow, UInt16.toNat_ofNat_of_lt']
  exact (min_le_right _ _).trans_lt (by decide)

namespace Live

theorem init (sendCapacity recvCapacity : UInt64) (retxTimeout : UInt16) (isn : WrappingInt32) :
    Live isn recvCapacity.toNat (.init sendCapacity recvCapacity retxTimeout isn) where
  agrees := .init sendCapacity recvCapacity retxTimeout isn
  paced := .init sendCapacity recvCapacity retxTimeout isn
  counted := .new sendCapacity retxTimeout isn
  clocked := .new sendCapacity retxTimeout isn
  capacity := rfl
  base _ := rfl
  delivered := List.Subset.refl _
  edges := by simp [Link.init]
  whole := by simp [Link.init, TCPReceiver.new]

/-- The acceptance limit is in 64 bits. -/
theorem edge_lt (h : l.Live isn capacity) (hsmall : l.run.sender.nextSeqno < 2 ^ 63)
    (hcap : capacity < 2 ^ 62) : l.receiver.reassembler.edge + 2 < 2 ^ 64 := by
  have hfollows := h.agrees.channel.follows
  have hwritten := hfollows.written_le
  rw [h.agrees.channel.sound.length_sent] at hwritten
  have hnext := h.counted.next
  have hcount := hfollows.wf.bounded.count
  have := hfollows.capacity
  have := h.capacity
  change l.receiver.reassembler.output.bytesWritten ≤ _ at hwritten
  unfold StreamReassembler.edge
  omega

/-- The right edge of the window as it is now. -/
theorem rightEdge (h : l.Live isn capacity) :
    l.receiver.absoluteAckno + l.receiver.windowSize =
      l.receiver.reassembler.edge + 1 + l.receiver.streamOut.inputEnded.toNat :=
  h.agrees.channel.follows.rightEdge

/-- A call on the sender. -/
theorem sender (h : l.Live isn capacity) {run : SenderRun} {delivered : List Ack}
    (hagrees : Agrees isn { l with run, delivered }) (hpaced : Paced { l with run, delivered })
    (hcounted : run.sender.Counted) (hclocked : run.sender.Clocked)
    (hbase : l.receiver.syn = false → run.sender.sendBase = 0) (hdel : delivered ⊆ l.acks)
    (hfirsts : l.run.firsts <+: run.firsts) : Live isn capacity { l with run, delivered } where
  agrees := hagrees
  paced := hpaced
  counted := hcounted
  clocked := hclocked
  capacity := h.capacity
  base := hbase
  delivered := hdel
  edges := h.edges
  whole hfin := by
    obtain ⟨x, hx, hrest⟩ := h.whole hfin
    exact ⟨x, mem_place_of_prefix hfirsts hx, hrest⟩

/-- **The payload of a FIN lies below the acceptance limit**: a zero window lets only the FIN
itself through. -/
theorem payload_le_edge (h : l.Live isn capacity) (hopen : l.receiver.streamOut.inputEnded = false)
    {x : ℕ × TCPSegment} (hx : x ∈ place TCPSegment.lengthInSequenceSpace 0 l.run.firsts)
    (hsyn : x.2.header.syn = false) (hfin : x.2.header.fin = true) :
    x.1 - 1 + x.2.payload.length ≤ l.receiver.reassembler.edge := by
  obtain ⟨ack, hack, hreach⟩ := h.paced.granted x hx hsyn
  have hedge := h.edges ack (h.delivered hack)
  obtain ⟨-, -, -, hpos, hfits⟩ := h.agrees.sequenced.tiles.of_mem_place hx
  have hone := hfits.1.one_le hsyn hpos
  simp only [Ack.edge, Ack.reach, TCPSegment.lengthInSequenceSpace, hsyn, hfin, hopen,
    Bool.toNat_true, Bool.toNat_false] at hedge hreach
  omega

/-- A delivered segment. -/
theorem deliverSegment (h : l.Live isn capacity) (hcap : capacity < 2 ^ 62) {k : ℕ}
    (hok : l.Steady (.deliverSegment k)) (hs : l.step (.deliverSegment k) = some l') :
    l'.Live isn capacity := by
  have hagrees := h.agrees.step hok.1 hs
  have hpaced := h.paced.step h.agrees hok.1 hok.2 hs
  obtain ⟨⟨-, hsmall, htimely⟩, -⟩ := hok
  have hedge := h.edge_lt hsmall hcap
  have hright := h.rightEdge
  have hended := l.receiver.streamOut.inputEnded.toNat_le
  obtain ⟨seg, hseg, hs⟩ := Option.bind_eq_some_iff.mp hs
  obtain ⟨receiver, hrec, rfl⟩ := Option.map_eq_some_iff.mp hs
  obtain ⟨⟨a, seg'⟩, hmem, rfl, hnear⟩ := htimely seg hseg
  obtain ⟨-, -, -, -, hcarries, -⟩ := h.agrees.sequenced.tiles.of_mem_place hmem
  have hfollows := h.agrees.channel.follows
  have hfit := h.agrees.channel.stop_lt (by omega)
  have hgrows := TCPReceiver.segmentReceived_frame hfollows hcarries hnear hfit hrec
  obtain ⟨hlimit, hend⟩ := TCPReceiver.edge_segmentReceived hrec
  refine ⟨hagrees, hpaced, h.counted, h.clocked, hgrows.capacity.trans h.capacity,
    fun hno => h.base ?_, h.delivered, fun ack hack => ?_, fun hfin => ?_⟩
  · by_contra hsyn
    rw [hgrows.syn (by simpa using hsyn)] at hno
    cases hno
  · have hmono : l.receiver.streamOut.inputEnded.toNat ≤ receiver.streamOut.inputEnded.toNat := by
      cases hl : l.receiver.streamOut.inputEnded with
      | false => exact Nat.zero_le _
      | true => rw [hend hl]
    have := h.edges ack hack
    simp only [hlimit]
    omega
  · cases hrf : l.receiver.fin with
    | true =>
      obtain ⟨x, hx, hxfin, htaken⟩ := h.whole hrf
      exact ⟨x, hx, hxfin, fun j hj hlt hlim =>
        hfollows.held_segmentReceived hcarries hnear hfit hrec (htaken j hj hlt hlim)⟩
    | false =>
      -- this is the FIN: its payload is below the limit and so has been taken in
      obtain hfin' | ⟨hrs, hsegfin⟩ :=
        hfollows.of_fin_segmentReceived hcarries hnear hfit hrec hfin
      · cases hrf.symm.trans hfin'
      have hsyn := (hcarries.of_fin hsegfin).1
      have hopen : l.receiver.streamOut.inputEnded = false := by
        rw [TCPReceiver.streamOut, hfollows.endsAt.ended, hfollows.eof, hrf, Bool.false_and]
      obtain ⟨receiver', hrec', htaken⟩ := hfollows.takesIn hcarries hnear hfit hrs hsyn
        (hfollows.not_refuses hfit hrs (by omega) fun hboth => by cases hrf.symm.trans hboth.2)
      obtain rfl := Option.some.inj (hrec'.symm.trans hrec)
      have hbelow := h.payload_le_edge hopen hmem hsyn hsegfin
      exact ⟨(a, seg'), hmem, hsegfin, fun j hj hlt _ =>
        htaken j hj hlt (hlt.trans_le hbelow)⟩

/-- A produced ack advertises the right edge of the moment, or less. -/
theorem produceAck (h : l.Live isn capacity) (hok : l.Steady .produceAck)
    (hs : l.step .produceAck = some l') : l'.Live isn capacity := by
  have hagrees := h.agrees.step hok.1 hs
  have hpaced := h.paced.step h.agrees hok.1 hok.2 hs
  obtain ⟨ackno, -, rfl⟩ := Option.map_eq_some_iff.mp hs
  refine ⟨hagrees, hpaced, h.counted, h.clocked, h.capacity, h.base,
    List.Subset.trans h.delivered (List.subset_append_left _ _), fun ack hack => ?_, h.whole⟩
  rcases List.mem_append.mp hack with hack | hack
  · exact h.edges ack hack
  · rw [List.mem_singleton.mp hack, Ack.edge, toNat_advertisedWindow]
    have := h.rightEdge
    simp only
    omega

/-- **Every orderly step keeps a transfer alive.** -/
theorem step (h : l.Live isn capacity) (hcap : capacity < 2 ^ 62) (hok : l.Steady op)
    (hs : l.step op = some l') : l'.Live isn capacity := by
  have hagrees := h.agrees.step hok.1 hs
  have hpaced := h.paced.step h.agrees hok.1 hok.2 hs
  cases op with
  | write data =>
    obtain rfl := Option.some.inj hs
    exact h.sender hagrees hpaced (l.run.apply_counted h.counted _)
      (l.run.clocked_apply _ h.clocked) h.base h.delivered (l.run.firsts_prefix_apply _)
  | endInput =>
    obtain rfl := Option.some.inj hs
    exact h.sender hagrees hpaced (l.run.apply_counted h.counted _)
      (l.run.clocked_apply _ h.clocked) h.base h.delivered (l.run.firsts_prefix_apply _)
  | fillWindow =>
    obtain rfl := Option.some.inj hs
    obtain ⟨segs, hsends⟩ := l.run.sender.fillWindow_sends
    exact h.sender hagrees hpaced (l.run.apply_counted h.counted _)
      (l.run.clocked_apply _ h.clocked) (fun hno => hsends.frame.sendBase.trans (h.base hno))
      h.delivered (l.run.firsts_prefix_apply _)
  | tick ms =>
    obtain rfl := Option.some.inj hs
    obtain ⟨segs, count, timer, heq, -⟩ := l.run.sender.tick_frame ms
    exact h.sender hagrees hpaced (l.run.apply_counted h.counted _)
      (l.run.clocked_apply _ h.clocked)
      (fun hno => (congrArg TCPSender.sendBase heq).trans (h.base hno)) h.delivered
      (l.run.firsts_prefix_apply _)
  | deliverSegment k => exact h.deliverSegment hcap hok hs
  | produceAck => exact h.produceAck hok hs
  | deliverAck k =>
    obtain ⟨ack, hack, rfl⟩ := Option.map_eq_some_iff.mp hs
    have hmem := List.mem_of_getElem? hack
    refine h.sender hagrees hpaced (l.run.apply_counted h.counted _)
      (l.run.clocked_apply _ h.clocked) (fun hno => ?_)
      (List.append_subset.mpr ⟨h.delivered, by simpa using hmem⟩)
      (l.run.firsts_prefix_apply _)
    cases hno.symm.trans (h.agrees.acks ack hmem).2.2
  | read len =>
    obtain rfl := Option.some.inj hs
    refine ⟨hagrees, hpaced, h.counted, h.clocked, h.capacity, h.base, h.delivered,
      fun ack hack => (h.edges ack hack).trans ?_, h.whole⟩
    simp only [TCPReceiver.readOut, TCPReceiver.streamOut, StreamReassembler.edge,
      ByteStream.read_totalRead, ByteStream.read_inputEnded]
    omega

end Live

theorem reach_live {sendCapacity recvCapacity : UInt64} {retxTimeout : UInt16}
    (hcap : recvCapacity.toNat < 2 ^ 62)
    (h : Reach step Steady (init sendCapacity recvCapacity retxTimeout isn) l) :
    l.Live isn recvCapacity.toNat :=
  h.invariant (.init sendCapacity recvCapacity retxTimeout isn)
    fun _ _ _ ih hok hs => ih.step hcap hok hs

/-! ## The moves of a round -/

/-- The network delivers only what is sent after `l₀`, and nothing more is written. -/
def Later (l₀ : Link) : LinkOp → Prop
  | .write _ => False
  | .deliverSegment k => l₀.run.sender.segmentsOut.length ≤ k
  | .deliverAck k => l₀.acks.length ≤ k
  | _ => True

/-- What a step other than a write adds to. -/
structure Continues (l l' : Link) : Prop where
  accepted : l'.run.accepted = l.run.accepted
  inputEnded : l.run.sender.stream.inputEnded = true → l'.run.sender.stream.inputEnded = true
  segments : l.run.sender.segmentsOut.length ≤ l'.run.sender.segmentsOut.length
  acks : l.acks.length ≤ l'.acks.length

theorem continues_of_step {l₀ : Link} (hlater : Later l₀ op) (hs : l.step op = some l') :
    Continues l l' := by
  have sender : ∀ (sop : SenderOp) (delivered : List Ack),
      (l.run.apply sop).accepted = l.run.accepted →
      Continues l { l with run := l.run.apply sop, delivered } := fun sop delivered hacc =>
    ⟨hacc, l.run.inputEnded_apply sop, (l.run.segmentsOut_prefix_apply sop).length_le, le_rfl⟩
  cases op with
  | write data => exact hlater.elim
  | endInput =>
    obtain rfl := Option.some.inj hs
    exact sender .endInput _ rfl
  | fillWindow =>
    obtain rfl := Option.some.inj hs
    exact sender .fillWindow _ rfl
  | tick ms =>
    obtain rfl := Option.some.inj hs
    exact sender (.tick ms) _ rfl
  | deliverSegment k =>
    obtain ⟨seg, -, hs⟩ := Option.bind_eq_some_iff.mp hs
    obtain ⟨receiver, -, rfl⟩ := Option.map_eq_some_iff.mp hs
    exact ⟨rfl, id, le_rfl, le_rfl⟩
  | produceAck =>
    obtain ⟨ackno, -, rfl⟩ := Option.map_eq_some_iff.mp hs
    exact ⟨rfl, id, le_rfl, (List.prefix_append _ _).length_le⟩
  | deliverAck k =>
    obtain ⟨ack, -, rfl⟩ := Option.map_eq_some_iff.mp hs
    exact sender (.ackReceived ack.ackno ack.window) _ rfl
  | read len =>
    obtain rfl := Option.some.inj hs
    exact ⟨rfl, id, le_rfl, le_rfl⟩

/-- **A continuation of `l₀`** in which all that was under way is lost and the writer is done. -/
structure Going (isn : WrappingInt32) (capacity : ℕ) (l₀ l : Link) : Prop where
  reach : Reach step (fun l op => l.Steady op ∧ Later l₀ op) l₀ l
  live : l.Live isn capacity
  flight : l.run.sender.nextSeqno < l.run.sender.sendBase + 2 ^ 30
  continues : Continues l₀ l
  ended : l.run.sender.stream.inputEnded = true

namespace Going

variable {l₀ : Link}

section Moves

variable (hlen : l₀.run.accepted.length + 2 < 2 ^ 63) (hcap : capacity < 2 ^ 62)

include hlen in
theorem small (h : Going isn capacity l₀ l) : l.run.sender.nextSeqno < 2 ^ 63 := by
  have hle := h.live.counted.nextSeqno_le
  rw [← h.live.agrees.channel.sound.length, h.continues.accepted] at hle
  omega

include hlen hcap in
/-- **One more step.** -/
theorem step (h : Going isn capacity l₀ l) (op : LinkOp) (htimely : l.Timely op)
    (hord : l.Orderly op) (hlater : Later l₀ op) (hs : l.step op = some l')
    (hflight : l'.run.sender.nextSeqno < l'.run.sender.sendBase + 2 ^ 30) :
    Going isn capacity l₀ l' := by
  have hok : l.Steady op := ⟨⟨h.flight, h.small hlen, htimely⟩, hord⟩
  have hcont := continues_of_step hlater hs
  exact {
    reach := h.reach.tail ⟨hok, hlater⟩ hs
    live := h.live.step hcap hok hs
    flight := hflight
    continues := ⟨hcont.accepted.trans h.continues.accepted,
      fun hend => hcont.inputEnded (h.continues.inputEnded hend),
      h.continues.segments.trans hcont.segments, h.continues.acks.trans hcont.acks⟩
    ended := hcont.inputEnded h.ended }

include hlen hcap in
/-- The reader takes all there is. -/
theorem read (h : Going isn capacity l₀ l) :
    Going isn capacity l₀ { l with
      receiver := l.receiver.readOut l.receiver.streamOut.bufferSize
      consumed := l.consumed ++ l.receiver.streamOut.buf } := by
  refine h.step hlen hcap (.read l.receiver.streamOut.bufferSize) trivial trivial trivial ?_
    h.flight
  rw [Link.step, ByteStream.read_fst, ByteStream.bufferSize, List.take_length]

/-- After that the window is as large as it gets. -/
theorem windowSize_readOut (h : Going isn capacity l₀ l) (hcap : capacity < 2 ^ 62) :
    (l.receiver.readOut l.receiver.streamOut.bufferSize).windowSize = capacity := by
  have hempty : (l.receiver.readOut l.receiver.streamOut.bufferSize).streamOut.bufferSize = 0 := by
    change (l.receiver.streamOut.read l.receiver.streamOut.bufferSize).2.buf.length = 0
    rw [ByteStream.read_buf, ByteStream.bufferSize, List.drop_length, List.length_nil]
  rw [TCPReceiver.windowSize, hempty]
  change sub64 l.receiver.capacity 0 = capacity
  rw [h.live.capacity, sub64_eq (Nat.zero_le _) (by omega), Nat.sub_zero]

/-- **What is in flight is within the window of the moment**, if that is open. -/
theorem nextSeqno_le_window (h : Going isn capacity l₀ l) (hopen : 0 < l.receiver.windowSize) :
    l.run.sender.nextSeqno ≤ l.receiver.absoluteAckno + l.receiver.advertisedWindow.toNat := by
  have hone : 1 ≤ l.receiver.absoluteAckno := by
    unfold TCPReceiver.absoluteAckno
    omega
  rw [toNat_advertisedWindow]
  by_contra hlt
  obtain ⟨x, hx, hcover⟩ := h.live.agrees.sequenced.tiles.exists_mem_place
    (x := l.run.sender.nextSeqno - 1) (Nat.zero_le _) (by omega)
  obtain ⟨-, -, hend, hpos, hcarries, -⟩ := h.live.agrees.sequenced.tiles.of_mem_place hx
  obtain ⟨ack, hack, hreach⟩ := h.live.paced.granted x hx (hcarries.syn_eq_false (by omega))
  have hmem := h.live.delivered hack
  have hedge := h.live.edges ack hmem
  have hback := (h.live.agrees.acks ack hmem).2.1
  have hright := h.live.rightEdge
  have hword := ack.window.toNat_lt
  unfold Ack.edge at hedge
  unfold Ack.reach at hreach
  omega

/-- The ack that the receiver would give now. -/
def freshAck (l : Link) : Ack :=
  ⟨l.receiver.absoluteAckno, wrap l.receiver.absoluteAckno l.run.sender.isn,
    l.receiver.advertisedWindow⟩

/-- The link once the fresh ack has been produced and delivered. -/
def acked (l : Link) : Link :=
  { l with
    acks := l.acks ++ [freshAck l]
    run := l.run.apply (.ackReceived (freshAck l).ackno (freshAck l).window)
    delivered := l.delivered ++ [freshAck l] }

include hlen in
/-- A fresh ack puts the base where the receiver is, and what is in flight fits the window. -/
theorem acked_fits (h : Going isn capacity l₀ l) (hsyn : l.receiver.syn = true)
    (hopen : 0 < l.receiver.windowSize) :
    (acked l).run.sender.sendBase = l.receiver.absoluteAckno ∧
      (acked l).run.sender.sendBase + (acked l).run.sender.windowSize = (freshAck l).reach ∧
      (acked l).run.sender.Fits := by
  have hchan := h.live.agrees.channel
  have hle := hchan.absoluteAckno_le (hchan.syn hsyn)
  have hwindow := h.nextSeqno_le_window hopen
  have hbase := hchan.base
  have hflight := h.flight
  have hsmall := h.small hlen
  have hunwrap := hchan.unwrap_ackno le_rfl hsyn ⟨by omega, by omega⟩ (by omega)
  obtain ⟨hbase', hwin', hfits'⟩ := TCPSender.ackReceived_fits h.live.counted (freshAck l).ackno
    l.receiver.advertisedWindow hunwrap hbase (by omega) hle
  exact ⟨hbase', congrArg₂ (· + ·) hbase' hwin', hfits'⟩

include hlen hcap in
/-- **A fresh ack arrives.** -/
theorem acknowledge (h : Going isn capacity l₀ l) (hsyn : l.receiver.syn = true)
    (hopen : 0 < l.receiver.windowSize) : Going isn capacity l₀ (acked l) := by
  have hchan := h.live.agrees.channel
  have hbase := hchan.base
  have hle := hchan.absoluteAckno_le (hchan.syn hsyn)
  have hflight := h.flight
  have hwindow := h.nextSeqno_le_window hopen
  have hackno : l.receiver.ackno = some (freshAck l).ackno := by
    rw [TCPReceiver.ackno, if_pos hsyn, hchan.follows.isn hsyn]
    rfl
  have hproduced : Going isn capacity l₀ { l with acks := l.acks ++ [freshAck l] } :=
    h.step hlen hcap .produceAck trivial trivial trivial
      (by rw [Link.step, hackno, Option.map_some]; rfl) hflight
  have hget : (l.acks ++ [freshAck l])[l.acks.length]? = some (freshAck l) :=
    List.getElem?_concat_length
  refine hproduced.step hlen hcap (.deliverAck l.acks.length) ?_ ?_ h.continues.acks
    (by rw [Link.step, hget, Option.map_some]; rfl) ?_
  · intro ack hack
    obtain rfl := Option.some.inj (hget.symm.trans hack)
    exact ⟨by simp only [freshAck]; omega, by simp only [freshAck]; omega⟩
  · intro ack hack _ _
    obtain rfl := Option.some.inj (hget.symm.trans hack)
    exact hwindow.trans (Nat.add_le_add_left (le_max_left _ _) _)
  · obtain ⟨-, -, hfits⟩ := h.acked_fits hlen hsyn hopen
    have := hfits.next_le
    have := (SenderRun.apply_counted h.live.counted
      (.ackReceived (freshAck l).ackno (freshAck l).window)).window_le
    change (acked l).run.sender.windowSize < 2 ^ 16 at this
    omega

include hlen hcap in
/-- **The window is filled**: as long as the output is open, something is in flight then. -/
theorem fill (h : Going isn capacity l₀ l) (hsyn : l.receiver.syn = true)
    (hopen : l.receiver.streamOut.inputEnded = false)
    (hbase : l.run.sender.sendBase = l.receiver.absoluteAckno) (hfits : l.run.sender.Fits)
    (hgranted : ∃ ack ∈ l.delivered,
      l.run.sender.sendBase + l.run.sender.windowSize ≤ ack.reach) :
    Going isn capacity l₀ { l with run := l.run.apply .fillWindow } ∧
      (l.run.apply .fillWindow).sender.sendBase = l.run.sender.sendBase ∧
      (l.run.apply .fillWindow).sender.sendBase < (l.run.apply .fillWindow).sender.nextSeqno := by
  have hcounted := h.live.counted
  have hchan := h.live.agrees.channel
  obtain ⟨segs, hsends⟩ := l.run.sender.fillWindow_sends
  have hfilled := hfits.fillWindow hcounted.nextSeqno_eq_zero_iff.mpr
  have hwin := hcounted.window_le
  have hpos := hcounted.window_pos
  have hnext := hfilled.next_le
  rw [hsends.frame.sendBase, hsends.frame.windowSize] at hnext
  have hmono := hsends.tiles.le
  refine ⟨h.step hlen hcap .fillWindow trivial (fun _ => ?_) trivial rfl ?_,
    hsends.frame.sendBase, ?_⟩
  · exact hfits.next_le.eq_or_lt.imp_right fun hlt => ⟨hlt, hgranted⟩
  · change l.run.sender.fillWindow.nextSeqno < l.run.sender.fillWindow.sendBase + 2 ^ 30
    rw [hsends.frame.sendBase]
    omega
  · change l.run.sender.fillWindow.sendBase < l.run.sender.fillWindow.nextSeqno
    rw [hsends.frame.sendBase]
    have hsynFlag : l.run.sender.synFlag = true := by
      by_contra hno
      have hzero := hcounted.nextSeqno_eq_zero_iff.mpr (by simpa using hno)
      have := hchan.syn hsyn
      omega
    cases hfin : l.run.sender.finFlag with
    | true =>
      -- the FIN is out and has not been received with all before it
      have hstop := hchan.sound.nextSeqno_eq hsynFlag
      have hwritten := hchan.follows.written_le
      have hflag : (l.run.sender.transcript l.run.accepted).fin = true := hfin
      rw [Transcript.stop, hflag, Bool.toNat_true] at hstop
      rw [TCPReceiver.absoluteAckno, hopen, Bool.toNat_false] at hbase
      omega
    | false =>
      have hwork : l.run.sender.HasWork := ⟨hsynFlag, hfin, Or.inr h.ended⟩
      have hroom := hfits.room_eq
      have hle := hfits.base_le
      by_cases hzero : l.run.sender.room = 0
      · omega
      · have := hcounted.nextSeqno_lt_fillWindow hwork hzero
        omega

include hlen hcap in
/-- **The timer expires and the front of the queue arrives.** -/
theorem resend (h : Going isn capacity l₀ l)
    (hlt : l.run.sender.sendBase < l.run.sender.nextSeqno) :
    ∃ l' a seg, Going isn capacity l₀ l' ∧ l'.run.firsts = l.run.firsts ∧
      (a, seg) ∈ place TCPSegment.lengthInSequenceSpace 0 l.run.firsts ∧
      a ≤ l.run.sender.sendBase ∧
      l.run.sender.sendBase < a + seg.lengthInSequenceSpace ∧
      Near a l.receiver.streamOut.bytesWritten ∧
      l.receiver.segmentReceived seg = some l'.receiver := by
  have hchan := h.live.agrees.channel
  have hsmall := h.small hlen
  have hflight := h.flight
  obtain ⟨popped, start, hq⟩ := h.live.agrees.queued
  have hstart := hq.start_le
  have hbase := hq.base_lt
  have hne : l.run.sender.copySegmentsOut ≠ [] := fun hnil => by
    have := hq.queue.eq_nil_iff.mp hnil
    omega
  obtain ⟨hno, -⟩ | ⟨-, seg, hhead, htick⟩ :=
    l.run.sender.tick_cases (l.run.sender.timer.rtTimeout - l.run.sender.timer.totalTime)
  · exact absurd (h.live.clocked.expires hne) hno
  have hmem : (start, seg) ∈ place TCPSegment.lengthInSequenceSpace 0 l.run.firsts := by
    rw [hq.firsts, place_append, hq.before.add_sum]
    obtain ⟨rest, hrest⟩ : ∃ rest, l.run.sender.copySegmentsOut = seg :: rest :=
      List.head?_eq_some_iff.mp hhead
    rw [hrest]
    exact List.mem_append_right _ List.mem_cons_self
  -- the front is near the receiver, for the receiver lies between the base and the next number
  have hnear : Near start l.receiver.streamOut.bytesWritten := by
    have hack := hchan.base
    have hended := l.receiver.streamOut.inputEnded.toNat_le
    rw [TCPReceiver.absoluteAckno] at hack
    refine ⟨by omega, ?_⟩
    cases hsyn : l.receiver.syn with
    | true =>
      have hle := hchan.absoluteAckno_le (hchan.syn hsyn)
      rw [TCPReceiver.absoluteAckno] at hle
      omega
    | false =>
      rw [(hchan.follows.idle hsyn).1]
      omega
  generalize l.run.sender.timer.rtTimeout - l.run.sender.timer.totalTime = ms at htick
  have hout : (l.run.sender.tick ms).segmentsOut = l.run.sender.segmentsOut ++ [seg] := by
    rw [htick]
  have hticked : Going isn capacity l₀ { l with run := l.run.apply (.tick ms) } := by
    refine h.step hlen hcap (.tick ms) trivial trivial trivial rfl ?_
    simp only [SenderRun.apply, htick]
    exact hflight
  have hget : (l.run.sender.tick ms).segmentsOut[l.run.sender.segmentsOut.length]? = some seg := by
    rw [hout]
    exact List.getElem?_concat_length
  obtain ⟨receiver, hrec⟩ : ∃ receiver, l.receiver.segmentReceived seg = some receiver :=
    Option.isSome_iff_exists.mp (TCPReceiver.segmentReceived_isSome
      hchan.follows.wf.written_le_edge (by have := h.live.edge_lt hsmall hcap; omega) seg)
  have harrived : Going isn capacity l₀ { l with run := l.run.apply (.tick ms), receiver } := by
    refine hticked.step hlen hcap (.deliverSegment l.run.sender.segmentsOut.length) ?_ trivial
      h.continues.segments ?_ hticked.flight
    · intro seg' hseg'
      obtain rfl := Option.some.inj (hget.symm.trans hseg')
      exact ⟨(start, seg), hmem, rfl, hnear⟩
    · simp only [Link.step, SenderRun.apply, hget, Option.bind_some, hrec, Option.map_some]
  exact ⟨_, start, seg, harrived, rfl, hmem, hstart, hq.front seg hhead, hnear, hrec⟩

/-! ## Rounds -/

include hlen hcap in
/-- **The SYN gets through.** -/
theorem connect (h : Going isn capacity l₀ l) (hsyn : l.receiver.syn = false) :
    ∃ l', Going isn capacity l₀ l' ∧ l'.receiver.syn = true := by
  -- first see that the SYN has been sent
  obtain ⟨l₁, h₁, hrec, hpos⟩ : ∃ l₁, Going isn capacity l₀ l₁ ∧ l₁.receiver = l.receiver ∧
      0 < l₁.run.sender.nextSeqno := by
    by_cases hpos : 0 < l.run.sender.nextSeqno
    · exact ⟨l, h, rfl, hpos⟩
    have hflag := h.live.counted.nextSeqno_eq_zero_iff.mp (by omega)
    have hidle : ¬ l.run.sender.HasWork := fun hwork => by cases hflag.symm.trans hwork.1
    obtain ⟨segs, hsends⟩ := l.run.sender.fillWindow_sends
    have hsent : l.run.sender.fillWindow.nextSeqno = 1 := by
      have hnew := h.live.counted.fillWindow.nextSeqno_eq_zero_iff
      rw [h.live.counted.synFlag_fillWindow] at hnew
      rcases TCPSender.fillWindow_of_not_hasWork hidle with heq | ⟨-, heq⟩
      · rw [heq] at hnew
        exact absurd (hnew.mp (by omega)) (by simp)
      · rw [heq, TCPSender.sendSyn_eq]
        simp only
        omega
    refine ⟨_, h.step hlen hcap .fillWindow trivial (fun hwork => absurd hwork hidle) trivial
      rfl ?_, rfl, ?_⟩
    · simp only [SenderRun.apply, hsent]
      omega
    · simp only [SenderRun.apply, hsent]
      omega
  have hbase := h₁.live.base (hrec ▸ hsyn)
  obtain ⟨l', a, seg, h', -, hmem, hle, hcover, -, hrec'⟩ := h₁.resend hlen hcap (by omega)
  obtain ⟨-, -, -, hlength, hcarries, -⟩ := h₁.live.agrees.sequenced.tiles.of_mem_place hmem
  refine ⟨l', h', TCPReceiver.syn_segmentReceived ?_ hrec'⟩
  by_contra hno
  have := hcarries.one_le (by simpa using hno) hlength
  omega

include hlen hcap in
/-- **The front of the queue moves `ackno`**, when the base is there and the window is open.  A
second FIN would be refused, but then the first has ended the output. -/
theorem absoluteAckno_lt_of_front (h : Going isn capacity l₀ l) (hsyn : l.receiver.syn = true)
    (hopen : l.receiver.streamOut.inputEnded = false) (hwin : 0 < l.receiver.windowSize)
    {a : ℕ} {seg : TCPSegment}
    (hmem : (a, seg) ∈ place TCPSegment.lengthInSequenceSpace 0 l.run.firsts)
    (hle : a ≤ l.receiver.absoluteAckno)
    (hlt : l.receiver.absoluteAckno < a + seg.lengthInSequenceSpace)
    (hnear : Near a l.receiver.streamOut.bytesWritten) {r' : TCPReceiver}
    (hrec : l.receiver.segmentReceived seg = some r') :
    r'.syn = true ∧ l.receiver.absoluteAckno < r'.absoluteAckno := by
  have hsmall := h.small hlen
  have hedge := h.live.edge_lt hsmall hcap
  have hright := h.live.rightEdge
  rw [hopen, Bool.toNat_false] at hright
  have hfit := h.live.agrees.channel.stop_lt (by omega)
  have hfollows := h.live.agrees.channel.follows
  have htiles := h.live.agrees.sequenced.tiles
  have hcarries : (l.run.sender.transcript l.run.accepted).Carries a seg :=
    (htiles.of_mem_place hmem).2.2.2.2.1
  have hone : 1 ≤ l.receiver.absoluteAckno := by
    unfold TCPReceiver.absoluteAckno
    omega
  have hno : seg.header.syn = false := hcarries.syn_eq_false (by omega)
  have hack : l.receiver.absoluteAckno = l.receiver.streamOut.bytesWritten + 1 := by
    rw [TCPReceiver.absoluteAckno, hopen]
    rfl
  have hlen : seg.lengthInSequenceSpace = seg.payload.length + seg.header.fin.toNat := by
    rw [TCPSegment.lengthInSequenceSpace, hno]
    rfl
  have hgrows := TCPReceiver.segmentReceived_frame hfollows hcarries hnear hfit hrec
  have hfollows' := hfollows.segmentReceived hcarries hnear hfit hrec
  refine ⟨hgrows.syn hsyn, ?_⟩
  by_cases hboth : seg.header.fin = true ∧ l.receiver.fin = true
  · obtain ⟨-, hone', hall, hend⟩ := hcarries.of_fin hboth.1
    obtain ⟨x, hx, hxfin, htaken⟩ := h.live.whole hboth.2
    -- there is only one FIN among the first transmissions
    have hxcarries : (l.run.sender.transcript l.run.accepted).Carries x.1 x.2 :=
      (htiles.of_mem_place hx).2.2.2.2.1
    obtain rfl : x = (a, seg) :=
      htiles.eq_of_end_eq hx hmem ((hxcarries.of_fin hxfin).2.2.2.trans hend.symm)
    rw [hboth.1, Bool.toNat_true] at hlen
    have hmissing : ¬ l.receiver.streamOut.bytesWritten < a - 1 + seg.payload.length := fun hless =>
      hfollows.wf.not_held_bytesWritten
        (htaken l.receiver.streamOut.bytesWritten (by simp only; omega) hless (by simp only; omega))
    cases hopen.symm.trans (hfollows.inputEnded_of_fin hboth.2 (by omega))
  · obtain ⟨r₁, hr₁, htaken⟩ := hfollows.takesIn hcarries hnear hfit hsyn hno
      (hfollows.not_refuses hfit hsyn (by omega) hboth)
    obtain rfl := Option.some.inj (hr₁.symm.trans hrec)
    by_cases hpay : l.receiver.absoluteAckno < a + seg.payload.length
    · exact hfollows.absoluteAckno_lt hfollows' hgrows.bytesWritten hcarries hno htaken hwin hle
        hpay
    · -- only the FIN was missing
      have hfin : seg.header.fin = true := by
        by_contra hf
        rw [Bool.eq_false_of_not_eq_true hf, Bool.toNat_false] at hlen
        omega
      obtain ⟨-, hone', hall, hend⟩ := hcarries.of_fin hfin
      have hwritten := hgrows.bytesWritten
      have hended := hfollows'.inputEnded_of_fin
        (TCPReceiver.fin_segmentReceived hsyn hno hfin hrec) (by omega)
      rw [hack, TCPReceiver.absoluteAckno, hended, Bool.toNat_true]
      omega

include hlen hcap in
/-- **A round moves `ackno`.** -/
theorem round (h : Going isn capacity l₀ l) (hpos : 0 < capacity) (hsyn : l.receiver.syn = true)
    (hopen : l.receiver.streamOut.inputEnded = false) :
    ∃ l', Going isn capacity l₀ l' ∧ l'.receiver.syn = true ∧
      l.receiver.absoluteAckno < l'.receiver.absoluteAckno := by
  have hwin := h.windowSize_readOut hcap
  have hread := h.read hlen hcap
  have hwin' : 0 < (l.receiver.readOut l.receiver.streamOut.bufferSize).windowSize :=
    hwin.symm ▸ hpos
  obtain ⟨hbase, hreach, hfits⟩ := hread.acked_fits hlen hsyn hwin'
  have hacked := hread.acknowledge hlen hcap hsyn hwin'
  obtain ⟨hfilled, hkept, hlt⟩ := hacked.fill hlen hcap hsyn hopen hbase hfits
    ⟨_, List.mem_append_right _ (List.mem_singleton_self _), hreach.le⟩
  obtain ⟨l', a, seg, h', -, hmem, hle, hcover, hnear, hrec⟩ := hfilled.resend hlen hcap hlt
  have hat := hkept.trans hbase
  exact ⟨l', h', hfilled.absoluteAckno_lt_of_front hlen hcap hsyn hopen hwin' hmem
    (hle.trans_eq hat) (hat.symm.trans_lt hcover) hnear hrec⟩

include hlen hcap in
/-- **Rounds go on until the output has ended.** -/
theorem finish (h : Going isn capacity l₀ l) (hpos : 0 < capacity) (hsyn : l.receiver.syn = true) :
    ∃ l', Going isn capacity l₀ l' ∧ l'.receiver.syn = true ∧
      l'.receiver.streamOut.inputEnded = true := by
  -- `ackno` does not pass the end of the text, so it cannot move forever
  induction hgap : l₀.run.accepted.length + 2 - l.receiver.absoluteAckno using
    Nat.strong_induction_on generalizing l with
  | _ gap ih =>
    by_cases hend : l.receiver.streamOut.inputEnded = true
    · exact ⟨l, h, hsyn, hend⟩
    obtain ⟨l', h', hsyn', hlt⟩ := h.round hlen hcap hpos hsyn (by simpa using hend)
    have hchan := h'.live.agrees.channel
    have hle := hchan.absoluteAckno_le (hchan.syn hsyn')
    have hnext := h'.live.counted.nextSeqno_le
    rw [← hchan.sound.length, h'.continues.accepted] at hnext
    exact ih _ (by omega) h' hsyn' rfl

end Moves

end Going

/-- **A transfer can always be completed.**  From every state of an orderly run there is an orderly
continuation that uses nothing of what was under way, in which the reader gets all that was
written, the output ends and everything sent is acknowledged. -/
theorem can_complete {sendCapacity recvCapacity : UInt64} {retxTimeout : UInt16}
    (hcap : 0 < recvCapacity.toNat ∧ recvCapacity.toNat < 2 ^ 62)
    (h : Reach step Steady (init sendCapacity recvCapacity retxTimeout isn) l)
    (hflight : l.run.sender.nextSeqno < l.run.sender.sendBase + 2 ^ 30)
    (hlen : l.run.accepted.length + 2 < 2 ^ 63) :
    ∃ l', Reach step (fun l' op => l'.Steady op ∧ Later l op) l l' ∧
      l'.receiver.streamOut.eof = true ∧ l'.consumed = l.run.accepted ∧
      l'.run.sender.finFlag = true ∧ l'.run.sender.sendBase = l'.run.sender.nextSeqno := by
  have hlive := reach_live hcap.2 h
  have hsmall : l.run.sender.nextSeqno < 2 ^ 63 := by
    have hle := hlive.counted.nextSeqno_le
    rw [← hlive.agrees.channel.sound.length] at hle
    omega
  have hgoing : Going isn recvCapacity.toNat l { l with run := l.run.apply .endInput } :=
    have hok : l.Steady .endInput := ⟨⟨hflight, hsmall, trivial⟩, trivial⟩
    { reach := Reach.refl.tail ⟨hok, trivial⟩ rfl
      live := hlive.step hcap.2 hok rfl
      flight := hflight
      continues := ⟨rfl, fun _ => rfl, le_rfl, le_rfl⟩
      ended := rfl }
  obtain ⟨l₁, h₁, hsyn₁⟩ : ∃ l₁, Going isn recvCapacity.toNat l l₁ ∧ l₁.receiver.syn = true := by
    cases hsyn : l.receiver.syn with
    | true => exact ⟨_, hgoing, hsyn⟩
    | false => exact hgoing.connect hlen hcap.2 hsyn
  obtain ⟨l₂, h₂, hsyn₂, hend⟩ := h₁.finish hlen hcap.2 hcap.1 hsyn₁
  -- the reader takes what is left, and the last ack goes back
  have hread := h₂.read hlen hcap.2
  have hwin := (h₂.windowSize_readOut hcap.2).symm ▸ hcap.1
  have hdone := hread.acknowledge hlen hcap.2 hsyn₂ hwin
  obtain ⟨hbase, -, -⟩ := hread.acked_fits hlen hsyn₂ hwin
  have hchan := hdone.live.agrees.channel
  obtain ⟨hfin, hnext⟩ := hchan.nextSeqno_of_inputEnded hend
  refine ⟨_, hdone.reach, ?_, ?_, hfin, hbase.trans hnext.symm⟩
  · refine (ByteStream.eof_iff _).mpr ⟨hend, ?_⟩
    change (l₂.receiver.streamOut.read l₂.receiver.streamOut.bufferSize).2.buf = []
    rw [ByteStream.read_buf, ByteStream.bufferSize, List.drop_length]
  · exact (h₂.live.agrees.channel.of_inputEnded hend).1.trans h₂.continues.accepted

/-- Of two segments and a FIN under way nothing arrives, the reader has not read and the window is
closed; all eight bytes can still get through. -/
theorem can_complete_stalled : ∃ l l', Reach step Steady (init 10 4 1000 ⟨4294967290⟩) l ∧
    l.receiver.windowSize = 0 ∧ l.consumed = [] ∧
    Reach step (fun l' op => l'.Steady op ∧ Later l op) l l' ∧
    l'.receiver.streamOut.eof = true ∧ l'.consumed = [97, 98, 99, 100, 101, 102, 103, 104] ∧
    l'.run.sender.sendBase = l'.run.sender.nextSeqno := by
  obtain ⟨l, hl, hp⟩ := exists_reach_of_exec step Steady (init 10 4 1000 ⟨4294967290⟩)
    [.fillWindow, .deliverSegment 0, .produceAck, .deliverAck 0,
      .write [97, 98, 99, 100, 101, 102, 103, 104], .fillWindow, .deliverSegment 1, .produceAck,
      .deliverAck 1]
    (fun l => l.receiver.windowSize == 0 && l.consumed == [] &&
      l.run.sender.nextSeqno == 6 && l.run.sender.sendBase == 5 &&
      l.run.accepted == [97, 98, 99, 100, 101, 102, 103, 104]) (by decide)
  simp only [Bool.and_eq_true, beq_iff_eq] at hp
  obtain ⟨⟨⟨⟨hwin, hcons⟩, hnext⟩, hbase⟩, hacc⟩ := hp
  obtain ⟨l', hl', heof, hall, -, hacked⟩ := can_complete (by decide) hl (by omega)
    (by rw [hacc]; decide)
  exact ⟨l, l', hl, hwin, hcons, hl', heof, hall.trans hacc, hacked⟩

end Link
