import Sponge.Connection.Calls
import Sponge.Receiver.Arrivals
import Sponge.Sender.Filling

/-!
# Connection/Reply — what is sent in answer to a segment

An incoming segment that uses sequence numbers is answered, so that the peer learns of it, and one
that uses none is not answered for its own sake, so that two connections do not acknowledge each
other's acks for ever.  What goes out are the segments that the ack and the window have set free,
and an empty one only if there is nothing else and the incoming segment asks for an answer
(`reply_discipline`).
-/

open Word64

namespace TCPConnection

variable {c c' : TCPConnection} {cfg : TCPConfig} {seg : TCPSegment}

/-! ## The inbound stream -/

theorem receiverKept_covered :
    ReceiverKept fun r => r.streamOut.Covered ∧ r.streamOut.cap = r.reassembler.capacity where
  segmentReceived r seg r' h hr := by
    obtain ⟨hkept, hcap⟩ := TCPReceiver.segmentReceived_induction
      (P := fun s => s.Covered ∧ s.cap = r.reassembler.capacity)
      (fun s data hs => ⟨hs.1.write data, hs.2⟩) (fun s hs => ⟨hs.1.endInput, hs.2⟩) h hr
    exact ⟨hkept.1, hkept.2.trans hcap.symm⟩
  readOut r len h := ⟨h.1.read len, h.2⟩
  popOut r len h := ⟨h.1.popOutput len, h.2⟩
  setError r h := ⟨h.1.setError, h.2⟩

/-- **No segment makes a connection throw** while the acceptance limit of its receiver fits in 64
bits. -/
theorem segmentReceived_isSome {ok : TCPConnection → ConnCall → Prop}
    (h : Reach call ok (new cfg) c) (hedge : c.receiver.reassembler.edge < 2 ^ 64)
    (seg : TCPSegment) : (c.segmentReceived seg).isSome := by
  have hcov : c.receiver.streamOut.Covered ∧
      c.receiver.streamOut.cap = c.receiver.reassembler.capacity :=
    h.invariant (I := fun c => c.receiver.streamOut.Covered ∧
        c.receiver.streamOut.cap = c.receiver.reassembler.capacity)
      ⟨(ByteStream.Bounded.new cfg.recvCapacity).covered, rfl⟩
      fun _ _ _ ih _ hc => receiverKept_covered.call ih hc
  unfold segmentReceived arrive
  split_ifs
  · rfl
  · rfl
  · rfl
  · rw [Option.isSome_map]
    refine TCPReceiver.segmentReceived_isSome ?_ hedge seg
    rw [StreamReassembler.edge, ← hcov.2]
    exact hcov.1.bytesWritten_le

/-! ## What is queued for the answer -/

/-- What the loop takes from the queue: what was there, and segments set free by the window. -/
theorem fill_queue (c : TCPConnection) (sendSyn : Bool) : ∃ segs,
    (c.fill sendSyn).sender.segmentsOut = c.sender.segmentsOut ++ segs ∧
      ∀ seg ∈ segs, TCPSender.Fresh seg := by
  unfold fill
  split_ifs
  · exact c.sender.fillWindow_queue
  · exact ⟨[], (List.append_nil _).symm, by simp⟩

/-- The ack fields of a segment are the receiver's, if it has an `ackno`. -/
structure Acks (r : TCPReceiver) (out : TCPSegment) : Prop where
  ack : out.header.ack = true ↔ r.ackno.isSome = true
  ackno : ∀ a ∈ r.ackno, out.header.ackno = a ∧ out.header.win.toNat = min r.windowSize 65535

theorem Stamped.acks {r : TCPReceiver} {out : TCPSegment} (h : Stamped r seg out)
    (hraw : seg.header.ack = false) : Acks r out := by
  refine ⟨by rw [h.ack, hraw, Bool.false_or], fun a ha => ⟨(h.ackno a ha).1, ?_⟩⟩
  rw [(h.ackno a ha).2, TCPReceiver.advertisedWindow, UInt16.toNat_ofNat']
  omega

/-- **What `push_segment_out` adds** when none of the segments queued has an ack. -/
theorem pushSegmentOut_answers (c : TCPConnection) (sendSyn : Bool)
    (hraw : ∀ seg ∈ c.sender.segmentsOut, seg.header.ack = false) : ∃ outs,
    (c.pushSegmentOut sendSyn).segmentsOut = c.segmentsOut ++ outs ∧
    (outs = [] ↔ (c.fill sendSyn).sender.segmentsOut = []) ∧
    ∀ out ∈ outs, Acks c.receiver out ∧ (0 < out.lengthInSequenceSpace ∨
      ∃ seg ∈ c.sender.segmentsOut, out.lengthInSequenceSpace = seg.lengthInSequenceSpace) := by
  obtain ⟨outs, hout, hleaves⟩ := c.segmentsOut_pushSegmentOut sendSyn
  obtain ⟨segs, hqueue, hfresh⟩ := c.fill_queue sendSyn
  refine ⟨outs, hout, hleaves.nil_iff, fun out hmem => ?_⟩
  obtain ⟨seg, hseg, hstamped⟩ := hleaves.stamped out hmem
  rw [hqueue] at hseg
  rw [hstamped.lengthInSequenceSpace]
  rcases List.mem_append.mp hseg with hseg | hseg
  · exact ⟨hstamped.acks (hraw seg hseg), Or.inr ⟨seg, hseg, rfl⟩⟩
  · exact ⟨hstamped.acks (hfresh seg hseg).2, Or.inl (hfresh seg hseg).1⟩

/-- A connection that has a SYN to answer and none sent sends its own. -/
theorem fill_ne_nil (hc : c.sender.Counted) (hsyn : c.sender.synFlag = false)
    (hrecv : c.rState ≠ .listening) : (c.fill false).sender.segmentsOut ≠ [] := by
  rw [fill, if_pos (Or.inr (Or.inr hrecv))]
  obtain ⟨segs, hsends⟩ := c.sender.fillWindow_sends
  have hsent : c.sender.fillWindow.nextSeqno ≠ c.sender.nextSeqno := by
    rw [Ne, hc.fillWindow_nextSeqno_eq_iff]
    rintro (hfin | ⟨hyes, -⟩)
    · cases hsyn.symm.trans (hc.fin hfin).1
    · cases hsyn.symm.trans hyes
  simp only
  rw [hsends.segmentsOut]
  refine fun hnil => hsent ?_
  exact (hsends.tiles.eq_nil_iff.mp (List.append_eq_nil_iff.mp hnil).2).symm

/-- What `push_segment_out` adds is acked, and uses sequence numbers where what is queued does. -/
theorem pushSegmentOut_fresh (c : TCPConnection) (sendSyn : Bool)
    (hfresh : ∀ seg ∈ c.sender.segmentsOut, TCPSender.Fresh seg) : ∃ outs,
    (c.pushSegmentOut sendSyn).segmentsOut = c.segmentsOut ++ outs ∧
    (outs = [] ↔ (c.fill sendSyn).sender.segmentsOut = []) ∧
    (∀ out ∈ outs, 0 < out.lengthInSequenceSpace) ∧ ∀ out ∈ outs, Acks c.receiver out := by
  obtain ⟨outs, hout, hnil, hall⟩ :=
    c.pushSegmentOut_answers sendSyn fun seg hseg => (hfresh seg hseg).2
  refine ⟨outs, hout, hnil, fun out hmem => ?_, fun out hmem => (hall out hmem).1⟩
  rcases (hall out hmem).2 with hpos | ⟨seg, hseg, hlen⟩
  · exact hpos
  · exact hlen ▸ (hfresh seg hseg).1

/-- After `ensureSegment` there is a segment to carry the ack. -/
theorem ensureSegment_queue (c : TCPConnection) :
    c.ensureSegment.segmentsOut = c.segmentsOut ∧ c.ensureSegment.sender.segmentsOut ≠ [] ∧
    ((∀ seg ∈ c.sender.segmentsOut, seg.header.ack = false) →
      ∀ seg ∈ c.ensureSegment.sender.segmentsOut, seg.header.ack = false) := by
  unfold ensureSegment
  split_ifs with hempty
  · refine ⟨rfl, by simp [TCPSender.sendEmptySegment], fun _ => ?_⟩
    simp [TCPSender.sendEmptySegment, hempty]
  · exact ⟨rfl, hempty, id⟩

/-- **The answer to a segment**, from a connection that has taken it in. -/
theorem reply_answers (c : TCPConnection) (seg : TCPSegment) (hc : c.sender.Counted)
    (hfresh : ∀ seg ∈ c.sender.segmentsOut, TCPSender.Fresh seg) : ∃ outs,
    (c.reply seg).segmentsOut = c.segmentsOut ++ outs ∧
    (0 < seg.lengthInSequenceSpace → c.rState ≠ .listening → outs ≠ []) ∧
    (seg.lengthInSequenceSpace = 0 → ∀ out ∈ outs, 0 < out.lengthInSequenceSpace) ∧
    ∀ out ∈ outs, Acks c.receiver out := by
  unfold reply
  split_ifs with hconnect hanswer
  · obtain ⟨outs, hout, -, hpos, hacks⟩ := c.pushSegmentOut_fresh true hfresh
    exact ⟨outs, hout, fun _ hrecv => absurd hconnect.2.1 hrecv, fun _ => hpos, hacks⟩
  · obtain ⟨hsame, hsome, hraw⟩ := c.ensureSegment_queue
    obtain ⟨outs, hout, hnil, hall⟩ := c.ensureSegment.pushSegmentOut_answers false
      (hraw fun seg hseg => (hfresh seg hseg).2)
    obtain ⟨segs, hqueue, -⟩ := c.ensureSegment.fill_queue false
    rw [hsame] at hout
    rw [c.receiver_ensureSegment] at hall
    refine ⟨outs, hout, fun _ _ hempty => ?_, fun hzero => ?_, fun out hmem => (hall out hmem).1⟩
    · rw [hnil, hqueue, List.append_eq_nil_iff] at hempty
      exact hsome hempty.1
    · omega
  · obtain ⟨outs, hout, hnil, hpos, hacks⟩ := c.pushSegmentOut_fresh false hfresh
    refine ⟨outs, hout, fun hlen hrecv hempty => ?_, fun _ => hpos, hacks⟩
    -- only a bare SYN to a closed connection is left, and that one is answered by a SYN
    have hbare : c.sState = .closed := by
      by_contra hno
      exact hanswer ⟨hlen, hrecv, fun hb => hno hb.2.2⟩
    exact fill_ne_nil hc ((sState_eq_closed_iff hc).mp hbare) hrecv (hnil.mp hempty)

/-- Taking in an ack queues what it sets free. -/
theorem Idle.takeAck (h : c.Idle) (seg : TCPSegment) : (c.takeAck seg).sender.Counted ∧
    (∀ out ∈ (c.takeAck seg).sender.segmentsOut, TCPSender.Fresh out) ∧
    (c.takeAck seg).segmentsOut = c.segmentsOut := by
  unfold TCPConnection.takeAck
  split_ifs with hack
  · obtain ⟨segs, hqueue, hfresh⟩ := c.sender.ackReceived_queue seg.header.ackno seg.header.win
    rw [h.queue, List.nil_append] at hqueue
    refine ⟨h.counted.ackReceived _ _, fun out hout => hfresh out ?_, rfl⟩
    rwa [← hqueue]
  · refine ⟨h.counted, fun out hout => ?_, rfl⟩
    rw [h.queue] at hout
    cases hout

/-- **Reply discipline.**  In every run, and for every segment without RST that reaches an active
connection, unless it is an ack that comes before our SYN: what uses sequence numbers is answered
once there is an `ackno`; to what uses none only segments that use some are sent; all of them carry
the receiver's `ackno` and window exactly if it has an `ackno`; and the sender's queue is left
empty.  The call returns if the acceptance limit of the receiver fits in 64 bits. -/
theorem reply_discipline (h : Reach call (fun _ _ => True) (new cfg) c) (hactive : c.active = true)
    (hrst : seg.header.rst = false) (hack : seg.header.ack = true → c.sender.nextSeqno ≠ 0) :
    (c.receiver.reassembler.edge < 2 ^ 64 → (c.segmentReceived seg).isSome) ∧
    ∀ c', c.segmentReceived seg = some c' → ∃ outs, c'.segmentsOut = c.segmentsOut ++ outs ∧
      (0 < seg.lengthInSequenceSpace → c'.receiver.ackno.isSome = true → outs ≠ []) ∧
      (seg.lengthInSequenceSpace = 0 → ∀ out ∈ outs, 0 < out.lengthInSequenceSpace) ∧
      (∀ out ∈ outs, (out.header.ack = true ↔ c'.receiver.ackno.isSome = true) ∧
        ∀ a ∈ c'.receiver.ackno, out.header.ackno = a ∧
          out.header.win.toNat = min c'.receiver.windowSize 65535) ∧
      c'.sender.segmentsOut = [] := by
  refine ⟨fun hedge => segmentReceived_isSome h hedge seg, fun c' hc' => ?_⟩
  have hidle := reach_idle h
  have hidle' : c'.Idle := Idle.call hidle (show c.call (.segmentReceived seg) = some c' from hc')
  have hnoack : ¬ (seg.header.ack = true ∧ c.sState = .closed) := by
    rintro ⟨ha, hclosed⟩
    exact hack ha (hidle.counted.nextSeqno_eq_zero_iff.mpr
      ((sState_eq_closed_iff hidle.counted).mp hclosed))
  rw [segmentReceived, if_neg (by simp [hactive]), arrive, if_neg, if_neg (by simp [hrst])] at hc'
  swap
  · exact hnoack
  obtain ⟨receiver, -, rfl⟩ := Option.map_eq_some_iff.mp hc'
  obtain ⟨hcount, hfresh, hsame⟩ := Idle.takeAck (c := { c with
    timeSinceLastSegmentReceived := 0, receiver }) ⟨hidle.counted, hidle.queue⟩ seg
  obtain ⟨outs, hout, hsome, hzero, hacks⟩ := reply_answers _ seg hcount hfresh
  rw [hsame] at hout
  rw [receiver_reply]
  refine ⟨outs, hout, fun hlen hno => hsome hlen fun hlisten => ?_, hzero,
    fun out hmem => ⟨(hacks out hmem).ack, (hacks out hmem).ackno⟩, hidle'.queue⟩
  rw [rState_eq_listening_iff] at hlisten
  simp [TCPReceiver.ackno, hlisten] at hno

/-- The handshake from the passive side: a SYN is answered by a SYN with an ack, and the ack of that
by nothing. -/
theorem reply_discipline_run : ∃ c, Reach call (fun _ _ => True) (new { isn := ⟨7⟩ }) c ∧
    c.active = true ∧ c.sender.nextSeqno ≠ 0 ∧
    ∀ c', c.segmentReceived { header := { seqno := ⟨1⟩, ack := true, ackno := ⟨8⟩, win := 5 } } =
        some c' →
      ∃ outs, c'.segmentsOut = c.segmentsOut ++ outs ∧
        ∀ out ∈ outs, 0 < out.lengthInSequenceSpace := by
  obtain ⟨c, hr, hp⟩ := exists_reach_of_exec call (fun _ _ => True) (new { isn := ⟨7⟩ })
    [.segmentReceived { header := { syn := true } }, .write [97, 98]]
    (fun c => c.active && c.sender.nextSeqno != 0) (by decide)
  simp only [Bool.and_eq_true, bne_iff_ne] at hp
  refine ⟨c, hr, hp.1, hp.2, fun c' hc' => ?_⟩
  obtain ⟨outs, hout, -, hzero, -⟩ := (reply_discipline hr hp.1 rfl fun _ => hp.2).2 c' hc'
  exact ⟨outs, hout, hzero rfl⟩

end TCPConnection
