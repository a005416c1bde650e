import Sponge.Connection.Model
import Sponge.Link.Channel

/-!
# Connection/Duplex — two connections and the segments between them

Each direction of a pair of connections is a `Channel` with its wires: everything the sender has
queued or sent is part of its transcript, and every ack on the way back is one the receiver has
given (`Direction`).  `Duplex x y` is both directions.  Every operation of a connection is built
from a few moves: the sender's and the receiver's own operations, and the loop that takes segments
from the sender's queue, stamps them with the receiver's `ackno` and puts them on the wire.
`Duplex` is kept by each of them.

A connection becomes inactive without an error only through `clean_shutdown`, when its inbound
stream has ended and its FIN has been acknowledged (`Settled`); this too is part of `Duplex`.
-/

open Word64

/-- A connection, what its application has written into it and what it has read from it. -/
structure Endpoint where
  conn : TCPConnection
  accepted : Bytes := []
  consumed : Bytes := []

/-- **One direction with its wires**: `out` carries the segments of the sender `s`, and `back` those
with the acks of the receiver `r`. -/
structure Direction (accepted consumed : Bytes) (s : TCPSender) (out : List TCPSegment)
    (r : TCPReceiver) (back : List TCPSegment) : Prop where
  channel : Channel accepted consumed s r
  /-- the 64-bit counters have not wrapped -/
  fits : accepted.length + 2 < 2 ^ 64
  queued : ∀ seg ∈ s.segmentsOut ++ s.copySegmentsOut,
    seg.header.ack = false ∧ ∃ a, s.Sent accepted a seg
  sent : ∀ seg ∈ out, ∃ a, s.Sent accepted a seg
  acks : ∀ seg ∈ back, seg.header.ack = true →
    ∃ v, seg.header.ackno = wrap v s.isn ∧ v ≤ r.absoluteAckno ∧ r.syn = true

namespace TCPConnection

/-- Both streams are finished: the inbound one has ended and our FIN has been acknowledged. -/
structure Closed (c : TCPConnection) : Prop where
  inputEnded : c.receiver.streamOut.inputEnded = true
  fin : c.sender.finFlag = true
  acked : c.sender.nextSeqno ≤ c.sender.sendBase

/-- **A connection that is not active has an error or is finished.** -/
def Settled (c : TCPConnection) : Prop :=
  c.active = false → c.sender.stream.error = true ∨ c.Closed

end TCPConnection

/-- **Both directions between two endpoints.** -/
structure Duplex (x y : Endpoint) : Prop where
  out : Direction x.accepted y.consumed x.conn.sender x.conn.segmentsOut y.conn.receiver
    y.conn.segmentsOut
  back : Direction y.accepted x.consumed y.conn.sender y.conn.segmentsOut x.conn.receiver
    x.conn.segmentsOut
  settled : x.conn.Settled
  peerSettled : y.conn.Settled

variable {accepted accepted' consumed : Bytes} {s s' : TCPSender} {r r' : TCPReceiver}
  {out back : List TCPSegment} {seg : TCPSegment} {c c' : TCPConnection} {x y : Endpoint}

/-! ## One direction -/

namespace Direction

/-- Before anything is sent. -/
theorem new (cfg cfg' : TCPConfig) :
    Direction [] [] (TCPConnection.new cfg).sender [] (TCPConnection.new cfg').receiver [] where
  channel := .new cfg.sendCapacity cfg'.recvCapacity cfg.rtTimeout cfg.isn
  fits := by decide
  queued := by simp [TCPConnection.new, TCPSender.new]
  sent := by simp
  acks := by simp

/-- The sender's numbers have not wrapped. -/
theorem next_lt (h : Direction accepted consumed s out r back) : s.nextSeqno < 2 ^ 64 := by
  have := h.fits
  have := h.channel.sound.totalRead_le
  have := s.synFlag.toNat_le
  have := s.finFlag.toNat_le
  rw [h.channel.sound.next]
  omega

/-- **The sender moves**, queueing nothing but new parts of its transcript. -/
theorem move (h : Direction accepted consumed s out r back)
    (hchan : Channel accepted' consumed s' r) (hfits : accepted'.length + 2 < 2 ^ 64)
    (hgrows : (s.transcript accepted).Le (s'.transcript accepted'))
    (hnext : s.nextSeqno ≤ s'.nextSeqno)
    (hqueued : ∀ seg ∈ s'.segmentsOut ++ s'.copySegmentsOut,
      seg ∈ s.segmentsOut ++ s.copySegmentsOut ∨
        seg.header.ack = false ∧ ∃ a, s'.Sent accepted' a seg) :
    Direction accepted' consumed s' out r back where
  channel := hchan
  fits := hfits
  queued seg hseg := by
    rcases hqueued seg hseg with hold | hnew
    · obtain ⟨hack, a, hsent⟩ := h.queued seg hold
      exact ⟨hack, a, hsent.mono hgrows hnext⟩
    · exact hnew
  sent seg hseg := by
    obtain ⟨a, hsent⟩ := h.sent seg hseg
    exact ⟨a, hsent.mono hgrows hnext⟩
  acks seg hseg hack := by
    obtain ⟨v, hno, hv⟩ := h.acks seg hseg hack
    exact ⟨v, by rw [hno]; exact congrArg (wrap v) hgrows.isn.symm, hv⟩

/-- The sender moves as its operations make it move. -/
theorem advance {kept segs : List TCPSegment} (h : Direction accepted consumed s out r back)
    (hadv : s.Advances accepted kept segs s') (hchan : Channel accepted consumed s' r) :
    Direction accepted consumed s' out r back := by
  refine h.move hchan h.fits hadv.grows hadv.tiles.le fun seg hseg => ?_
  have hnew : seg ∈ segs → seg.header.ack = false ∧ ∃ a, s'.Sent accepted a seg := by
    intro hmem
    obtain ⟨a, -, hle, hcarries, hnum⟩ := (hadv.carried.and hadv.tiles).exists_at hmem
    exact ⟨hnum.2.2, a, hcarries, hle⟩
  rw [hadv.segmentsOut, hadv.copySegmentsOut] at hseg
  simp only [List.mem_append] at hseg ⊢
  rcases hseg with (hold | hmem) | hold | hmem
  · exact Or.inl (Or.inl hold)
  · exact Or.inr (hnew hmem)
  · exact Or.inl (Or.inr (hadv.suffix.subset hold))
  · exact Or.inr (hnew hmem)

/-- `fill_window`. -/
theorem fillWindow (h : Direction accepted consumed s out r back) :
    Direction accepted consumed s.fillWindow out r back := by
  obtain ⟨segs, hext⟩ := TCPSender.fillWindow_extends h.channel.sound
  exact h.advance hext.advances h.channel.fillWindow

/-- **An ack of the receiver comes back**, for a number near the sender's base. -/
theorem ackReceived {v : ℕ} (h : Direction accepted consumed s out r back)
    (hv : v ≤ r.absoluteAckno) (hr : r.syn = true) (hnear : Near v s.sendBase) (window : UInt16) :
    Direction accepted consumed (s.ackReceived (wrap v s.isn) window) out r back := by
  obtain ⟨kept, segs, hadv⟩ :=
    TCPSender.ackReceived_advances h.channel.sound (wrap v s.isn) window
  exact h.advance hadv (h.channel.ackReceived hv hr hnear h.next_lt window)

/-- What the timer resends has been sent before. -/
theorem tick (h : Direction accepted consumed s out r back) (ms : ℕ) :
    Direction accepted consumed (s.tick ms) out r back := by
  have hchan := h.channel.tick ms
  obtain ⟨segs, count, timer, heq, hmem⟩ := s.tick_frame ms
  rw [heq] at hchan ⊢
  refine h.move hchan h.fits (.refl _) le_rfl fun seg hseg => Or.inl ?_
  simp only [List.mem_append] at hseg ⊢
  rcases hseg with (hold | hold) | hold
  · exact Or.inl hold
  · exact Or.inr (hmem seg hold)
  · exact Or.inr hold

/-- An empty segment is at the next number. -/
theorem sendEmptySegment (h : Direction accepted consumed s out r back) :
    Direction accepted consumed s.sendEmptySegment out r back := by
  refine h.move h.channel.sendEmptySegment h.fits (.refl _) le_rfl fun seg hseg => ?_
  simp only [TCPSender.sendEmptySegment, List.mem_append, List.mem_singleton] at hseg ⊢
  rcases hseg with (hold | rfl) | hold
  · exact Or.inl (Or.inl hold)
  · exact Or.inr ⟨rfl, s.nextSeqno, ⟨rfl, Or.inr ⟨rfl, Or.inl rfl, List.nil_prefix, by simp⟩⟩,
      le_rfl⟩
  · exact Or.inl (Or.inr hold)

/-- The owner writes, before it has ended its stream. -/
theorem writeIn (h : Direction accepted consumed s out r back)
    (hopen : s.stream.inputEnded = false) {data : Bytes}
    (hfits : accepted.length + s.stream.accepted data + 2 < 2 ^ 64) :
    Direction (accepted ++ data.take (s.stream.accepted data)) consumed (s.writeIn data) out r
      back := by
  refine h.move (h.channel.writeIn hopen data) ?_
    (h.channel.sound.transcript_writeIn data ▸ .refl _) le_rfl fun seg hseg => Or.inl hseg
  have := List.length_take_le (s.stream.accepted data) data
  rw [List.length_append]
  omega

theorem endIn (h : Direction accepted consumed s out r back) :
    Direction accepted consumed s.endIn out r back :=
  h.move h.channel.endIn h.fits (.refl _) le_rfl fun _ hseg => Or.inl hseg

/-- An error on the stream is nothing to the counters. -/
theorem setSenderError (h : Direction accepted consumed s out r back) :
    Direction accepted consumed { s with stream := s.stream.setError } out r back := by
  have hs := h.channel.sound
  refine h.move (h.channel.advance ?_ (.refl _) le_rfl h.channel.base) h.fits (.refl _) le_rfl
    fun _ hseg => Or.inl hseg
  exact ⟨hs.bounded.setError, hs.length, hs.text, hs.next, hs.fin, hs.idle⟩

/-- **A segment of the peer arrives.** -/
theorem segmentReceived {a : ℕ} (h : Direction accepted consumed s out r back)
    (hsent : s.Sent accepted a seg) (hnear : Near a r.streamOut.bytesWritten)
    (hr : r.segmentReceived seg = some r') : Direction accepted consumed s out r' back where
  channel := h.channel.segmentReceived hsent hnear h.next_lt hr
  fits := h.fits
  queued := h.queued
  sent := h.sent
  acks seg' hseg' hack := by
    have hgrows := TCPReceiver.segmentReceived_frame h.channel.follows hsent.1 hnear
      (h.channel.stop_lt h.next_lt) hr
    obtain ⟨v, hno, hv, hsyn⟩ := h.acks seg' hseg' hack
    exact ⟨v, hno, hv.trans hgrows.absoluteAckno, hgrows.syn hsyn⟩

/-- The peer's owner reads. -/
theorem readOut (h : Direction accepted consumed s out r back) (len : ℕ) :
    Direction accepted (consumed ++ (r.streamOut.read len).1) s out (r.readOut len) back :=
  ⟨h.channel.readOut len, h.fits, h.queued, h.sent, h.acks⟩

/-- An error on the other stream is nothing to the text either. -/
theorem setReceiverError (h : Direction accepted consumed s out r back) :
    Direction accepted consumed s out
      { r with reassembler := { r.reassembler with output := r.streamOut.setError } } back := by
  have hf := h.channel.follows
  refine ⟨⟨h.channel.sound, ?_, h.channel.syn, h.channel.base⟩, h.fits, h.queued, h.sent, h.acks⟩
  exact ⟨⟨hf.wf.bounded.setError, hf.wf.cap_eq, hf.wf.separated, hf.wf.bytes⟩, hf.capacity,
    ⟨hf.reads.length_eq, hf.reads.text, hf.reads.pending⟩, ⟨hf.endsAt.posEof, hf.endsAt.ended⟩,
    hf.eof, hf.fin, hf.idle, hf.isn, hf.recvBase⟩

end Direction

/-! ## Putting a segment on the wire -/

namespace TCPConnection

/-- Stamping leaves the sender's part of a segment alone. -/
theorem sent_stamp (c : TCPConnection) {a : ℕ} (h : s.Sent accepted a seg) :
    s.Sent accepted a (c.stamp seg) := by
  unfold stamp
  cases c.receiver.ackno <;> exact h

/-- A stamped segment acknowledges what the receiver has got. -/
theorem ackno_stamp (c : TCPConnection) (hraw : seg.header.ack = false)
    (hack : (c.stamp seg).header.ack = true) :
    (c.stamp seg).header.ackno = wrap c.receiver.absoluteAckno c.receiver.isn ∧
      c.receiver.syn = true := by
  unfold stamp at hack ⊢
  cases hno : c.receiver.ackno with
  | none =>
    rw [hno] at hack
    cases hraw.symm.trans hack
  | some ackno =>
    unfold TCPReceiver.ackno at hno
    split_ifs at hno with hsyn
    exact ⟨(Option.some.inj hno).symm, hsyn⟩

/-- The segment that `emit` puts on the wire. -/
theorem emit_segment (c : TCPConnection) (seg : TCPSegment) : ∃ seg',
    c.emit seg = { c with segmentsOut := c.segmentsOut ++ [seg'], sendRst := false } ∧
    (∀ (s : TCPSender) (accepted : Bytes) (a : ℕ), s.Sent accepted a seg → s.Sent accepted a seg') ∧
    (seg.header.ack = false → seg'.header.ack = true →
      seg'.header.ackno = wrap c.receiver.absoluteAckno c.receiver.isn ∧
        c.receiver.syn = true) := by
  refine ⟨_, rfl, fun s accepted a h => ?_, fun hraw hack => ?_⟩
  · have hstamp := c.sent_stamp h
    split_ifs <;> exact hstamp
  · split_ifs at hack ⊢ <;> exact c.ackno_stamp hraw hack

end TCPConnection

/-! ## Closing -/

namespace TCPConnection

/-- What the counters say in the state `fin_acked`. -/
theorem of_sState_finAcked (h : c.sState = .finAcked) : c.sender.stream.eof = true ∧
    c.sender.nextSeqno = c.sender.stream.bytesWritten + 2 ∧ c.bytesInFlight = 0 := by
  unfold sState at h
  split_ifs at h with h₁ h₂ h₃ h₄ h₅
  exact ⟨h₄.1, h₄.2, by omega⟩

/-- **The state `fin_acked` means what it says.** -/
theorem fin_of_finAcked (h : Direction accepted consumed c.sender out r back)
    (hs : c.sState = .finAcked) :
    c.sender.finFlag = true ∧ c.sender.nextSeqno ≤ c.sender.sendBase := by
  obtain ⟨heof, hnext, hflight⟩ := of_sState_finAcked hs
  have hsound := h.channel.sound
  have hcount := hsound.bounded.count
  rw [((ByteStream.eof_iff _).mp heof).2, List.length_nil] at hcount
  refine ⟨?_, ?_⟩
  · have hcounted := hsound.next
    have := c.sender.synFlag.toNat_le
    cases hf : c.sender.finFlag with
    | true => rfl
    | false =>
      rw [hf, Bool.toNat_false] at hcounted
      omega
  · have hbase := h.channel.base.trans (h.channel.absoluteAckno_le (by omega))
    have hlt := h.next_lt
    rw [bytesInFlight, TCPSender.bytesInFlight, sub64_eq_zero_iff hbase (by omega)] at hflight
    exact hflight.le

namespace Settled

theorem of_active (h : c.active ≠ false) : c.Settled := fun hc => absurd hc h

/-- What `Settled` rests on. -/
theorem congr (h : c.Settled) (hactive : c'.active = c.active)
    (herror : c'.sender.stream.error = c.sender.stream.error)
    (hfin : c'.sender.finFlag = c.sender.finFlag)
    (hnext : c'.sender.nextSeqno = c.sender.nextSeqno)
    (hbase : c'.sender.sendBase = c.sender.sendBase)
    (hend : c'.receiver.streamOut.inputEnded = c.receiver.streamOut.inputEnded) : c'.Settled := by
  intro hc'
  refine (h (hactive ▸ hc')).imp (herror ▸ ·) fun hclosed => ?_
  exact ⟨hend ▸ hclosed.inputEnded, hfin ▸ hclosed.fin, by rw [hnext, hbase]; exact hclosed.acked⟩

/-- A finished sender has nothing left to fill a window with. -/
theorem fillWindow (h : c.Settled) : Settled { c with sender := c.sender.fillWindow } := by
  intro hc
  obtain ⟨segs, hsends⟩ := c.sender.fillWindow_sends
  refine (h hc).imp (fun herr => hsends.frame.error.trans herr) fun hclosed => ?_
  have hsame : c.sender.fillWindow = c.sender := by
    unfold TCPSender.fillWindow
    rw [if_pos (Or.inr (Or.inl hclosed.fin))]
  rw [hsame]
  exact hclosed

/-- Nobody writes into a finished stream. -/
theorem writeIn (h : c.Settled) (hsound : c.sender.Sound accepted)
    (hopen : c.sender.stream.inputEnded = false) (data : Bytes) :
    Settled { c with sender := c.sender.writeIn data } := by
  intro hc
  refine (h hc).imp id fun hclosed => ?_
  have hended := ((ByteStream.eof_iff _).mp (hsound.fin hclosed.fin).2).1
  cases hopen.symm.trans hended

end Settled

end TCPConnection

/-! ## Both directions -/

namespace Duplex

theorem new (cfg cfg' : TCPConfig) :
    Duplex { conn := .new cfg } { conn := .new cfg' } where
  out := .new cfg cfg'
  back := .new cfg' cfg
  settled := .of_active (by simp [TCPConnection.new])
  peerSettled := .of_active (by simp [TCPConnection.new])

/-- The two ends may change places. -/
theorem symm (h : Duplex x y) : Duplex y x := ⟨h.back, h.out, h.peerSettled, h.settled⟩

/-- A turn of the loop: a segment that the sender has queued leaves. -/
theorem emit (h : Duplex x y) (hack : seg.header.ack = false)
    (hsent : ∃ a, x.conn.sender.Sent x.accepted a seg) :
    Duplex { x with conn := x.conn.emit seg } y := by
  obtain ⟨seg', heq, hwire, hno⟩ := x.conn.emit_segment seg
  rw [heq]
  refine ⟨⟨h.out.channel, h.out.fits, h.out.queued, fun seg'' hmem => ?_, h.out.acks⟩,
    ⟨h.back.channel, h.back.fits, h.back.queued, h.back.sent, fun seg'' hmem hack'' => ?_⟩,
    h.settled.congr rfl rfl rfl rfl rfl rfl, h.peerSettled⟩
  · rcases List.mem_append.mp hmem with hmem | hmem
    · exact h.out.sent seg'' hmem
    · obtain ⟨a, hsent⟩ := hsent
      rw [List.mem_singleton.mp hmem]
      exact ⟨a, hwire _ _ _ hsent⟩
  · rcases List.mem_append.mp hmem with hmem | hmem
    · exact h.back.acks seg'' hmem hack''
    · rw [List.mem_singleton.mp hmem] at hack'' ⊢
      obtain ⟨hackno, hsyn⟩ := hno hack hack''
      refine ⟨_, ?_, le_rfl, hsyn⟩
      rw [hackno, h.back.channel.follows.isn hsyn]
      rfl

/-- The loop over a queue of the sender's segments. -/
theorem foldl_emit (h : Duplex x y) (q : List TCPSegment)
    (hq : ∀ seg ∈ q, seg.header.ack = false ∧ ∃ a, x.conn.sender.Sent x.accepted a seg) :
    Duplex { x with conn := q.foldl TCPConnection.emit x.conn } y := by
  induction q generalizing x with
  | nil => exact h
  | cons seg q ih =>
    obtain ⟨hack, hsent⟩ := hq seg List.mem_cons_self
    exact ih (h.emit hack hsent) fun seg' hseg' => hq seg' (List.mem_cons_of_mem _ hseg')

/-- **The loop puts on the wire what the sender has queued.** -/
theorem flush (h : Duplex x y) : Duplex { x with conn := x.conn.flush } y := by
  have hempty : Duplex { x with conn :=
      { x.conn with sender := { x.conn.sender with segmentsOut := [] } } } y := by
    refine ⟨?_, h.back, h.settled.congr rfl rfl rfl rfl rfl rfl, h.peerSettled⟩
    refine h.out.move ?_ h.out.fits (.refl _) le_rfl fun seg hseg => Or.inl ?_
    · have hs := h.out.channel.sound
      exact h.out.channel.advance
        ⟨hs.bounded, hs.length, hs.text, hs.next, hs.fin, hs.idle⟩ (.refl _) le_rfl
        h.out.channel.base
    · rw [List.nil_append] at hseg
      exact List.mem_append_right _ hseg
  exact hempty.foldl_emit _ fun seg hseg => h.out.queued seg (List.mem_append_left _ hseg)

/-- The first lines of `push_segment_out`. -/
theorem fill (h : Duplex x y) (sendSyn : Bool) :
    Duplex { x with conn := x.conn.fill sendSyn } y := by
  unfold TCPConnection.fill
  split_ifs
  · exact ⟨h.out.fillWindow, h.back, h.settled.fillWindow, h.peerSettled⟩
  · exact h

theorem dropLinger (h : Duplex x y) : Duplex { x with conn := x.conn.dropLinger } y := by
  unfold TCPConnection.dropLinger
  split_ifs
  · exact ⟨h.out, h.back, h.settled.congr rfl rfl rfl rfl rfl rfl, h.peerSettled⟩
  · exact h

/-- **The clean shutdown closes a finished connection only.** -/
theorem closeIfDone (h : Duplex x y) : Duplex { x with conn := x.conn.closeIfDone } y := by
  unfold TCPConnection.closeIfDone
  split_ifs with hdone
  · obtain ⟨hrecv, hacked, -⟩ := hdone
    obtain ⟨hfin, hbase⟩ := TCPConnection.fin_of_finAcked h.out hacked
    exact ⟨h.out, h.back,
      fun _ => Or.inr ⟨TCPConnection.of_rState_finRecv hrecv, hfin, hbase⟩, h.peerSettled⟩
  · exact h

/-- **Everything leaves through `push_segment_out`.** -/
theorem pushSegmentOut (h : Duplex x y) (sendSyn : Bool) :
    Duplex { x with conn := x.conn.pushSegmentOut sendSyn } y :=
  (h.fill sendSyn).flush.dropLinger.closeIfDone

/-- An empty segment is queued, if there is none. -/
theorem ensureSegment (h : Duplex x y) : Duplex { x with conn := x.conn.ensureSegment } y := by
  unfold TCPConnection.ensureSegment
  split_ifs
  · exact ⟨h.out.sendEmptySegment, h.back, h.settled.congr rfl rfl rfl rfl rfl rfl, h.peerSettled⟩
  · exact h

theorem abort (h : Duplex x y) (sendRst : Bool) :
    Duplex { x with conn := { x.conn.abort with sendRst := sendRst } } y :=
  ⟨h.out.setSenderError, h.back.setReceiverError, fun _ => Or.inl rfl, h.peerSettled⟩

/-- An unclean shutdown is an error, and needs no other reason. -/
theorem uncleanShutdown (h : Duplex x y) (sendRst : Bool) :
    Duplex { x with conn := x.conn.uncleanShutdown sendRst } y := by
  unfold TCPConnection.uncleanShutdown
  split_ifs
  · exact (h.abort true).ensureSegment.pushSegmentOut false
  · exact h.abort x.conn.sendRst

/-! ## The interface -/

theorem connect (h : Duplex x y) : Duplex { x with conn := x.conn.connect } y :=
  h.pushSegmentOut true

/-- The owner writes. -/
theorem write (h : Duplex x y) (hopen : x.conn.sender.stream.inputEnded = false) {data : Bytes}
    (hfits : x.accepted.length + x.conn.sender.stream.accepted data + 2 < 2 ^ 64) :
    Duplex
      { x with
        conn := x.conn.write data
        accepted := x.accepted ++ data.take (x.conn.sender.stream.accepted data) } y := by
  have hwritten : Duplex
      { x with
        conn := { x.conn with sender := x.conn.sender.writeIn data }
        accepted := x.accepted ++ data.take (x.conn.sender.stream.accepted data) } y :=
    ⟨h.out.writeIn hopen hfits, h.back, h.settled.writeIn h.out.channel.sound hopen data,
      h.peerSettled⟩
  exact hwritten.pushSegmentOut false

/-- The owner ends its stream. -/
theorem endInputStream (h : Duplex x y) : Duplex { x with conn := x.conn.endInputStream } y := by
  have hended : Duplex { x with conn := { x.conn with sender := x.conn.sender.endIn } } y :=
    ⟨h.out.endIn, h.back, h.settled.congr rfl rfl rfl rfl rfl rfl, h.peerSettled⟩
  exact hended.pushSegmentOut false

/-- After too many retransmissions the connection is reset. -/
theorem checkRetransmissions (h : Duplex x y) :
    Duplex { x with conn := x.conn.checkRetransmissions } y := by
  unfold TCPConnection.checkRetransmissions
  split_ifs
  · exact h.uncleanShutdown true
  · exact h

theorem tick (h : Duplex x y) (ms : ℕ) : Duplex { x with conn := x.conn.tick ms } y := by
  unfold TCPConnection.tick
  split_ifs with hactive
  · exact h
  · have hticked : Duplex { x with conn := { x.conn with
        timeSinceLastSegmentReceived := add64 x.conn.timeSinceLastSegmentReceived ms
        sender := x.conn.sender.tick ms } } y :=
      ⟨h.out.tick ms, h.back, .of_active hactive, h.peerSettled⟩
    exact hticked.checkRetransmissions.pushSegmentOut false

/-- A segment is answered. -/
theorem reply (h : Duplex x y) (seg : TCPSegment) :
    Duplex { x with conn := x.conn.reply seg } y := by
  unfold TCPConnection.reply
  split_ifs
  · exact h.connect
  · exact h.ensureSegment.pushSegmentOut false
  · exact h.pushSegmentOut false

/-- An ack for `v`, which the peer has received, reaches an active connection. -/
theorem takeAck {v : ℕ} (h : Duplex x y) (hactive : x.conn.active ≠ false)
    (hmem : seg ∈ y.conn.segmentsOut)
    (hack : seg.header.ack = true → seg.header.ackno = wrap v x.conn.sender.isn ∧
      v ≤ y.conn.receiver.absoluteAckno ∧ Near v x.conn.sender.sendBase) :
    Duplex { x with conn := x.conn.takeAck seg } y := by
  unfold TCPConnection.takeAck
  split_ifs with hflag
  · obtain ⟨hno, hv, hnear⟩ := hack hflag
    obtain ⟨-, -, -, hsyn⟩ := h.out.acks seg hmem hflag
    rw [hno]
    exact ⟨h.out.ackReceived hv hsyn hnear _, h.back, .of_active hactive, h.peerSettled⟩
  · exact h

/-- **A segment of the peer arrives**, sent at `a`; if it carries an ack, that is for `v`. -/
theorem segmentReceived {a v : ℕ} (h : Duplex x y)
    (hmem : seg ∈ y.conn.segmentsOut) (hsent : y.conn.sender.Sent y.accepted a seg)
    (hnear : Near a x.conn.receiver.streamOut.bytesWritten)
    (hack : seg.header.ack = true → seg.header.ackno = wrap v x.conn.sender.isn ∧
      v ≤ y.conn.receiver.absoluteAckno ∧ Near v x.conn.sender.sendBase)
    (hr : x.conn.segmentReceived seg = some c) : Duplex { x with conn := c } y := by
  have hheard : x.conn.active = true →
      Duplex { x with conn := { x.conn with timeSinceLastSegmentReceived := 0 } } y :=
    fun hactive => ⟨h.out, h.back, .of_active (by simp [hactive]), h.peerSettled⟩
  cases TCPConnection.receives hr with
  | dead => exact h
  | ignored hactive => exact hheard hactive
  | reset hactive => exact (hheard hactive).uncleanShutdown false
  | taken hactive hrst hrec =>
    rename_i receiver
    have hactive' : x.conn.active ≠ false := by simp [hactive]
    have hin : Duplex
        { x with conn := { x.conn with timeSinceLastSegmentReceived := 0, receiver } } y :=
      ⟨h.out, h.back.segmentReceived hsent hnear hrec, .of_active hactive', h.peerSettled⟩
    exact (hin.takeAck hactive' hmem hack).reply seg

/-- The owner reads. -/
theorem readInbound (h : Duplex x y) (len : ℕ) :
    Duplex
      { x with
        conn := x.conn.readInbound len
        consumed := x.consumed ++ (x.conn.receiver.streamOut.read len).1 } y :=
  ⟨h.out, h.back.readOut len, h.settled.congr rfl rfl rfl rfl rfl rfl, h.peerSettled⟩

/-- **An inactive connection without an error has delivered all of both streams.** -/
theorem of_inactive (h : Duplex x y) (hactive : x.conn.active = false)
    (herror : x.conn.sender.stream.error = false) :
    (y.conn.receiver.streamOut.inputEnded = true ∧
      y.consumed ++ y.conn.receiver.streamOut.buf = x.accepted) ∧
    x.conn.receiver.streamOut.inputEnded = true ∧
      x.consumed ++ x.conn.receiver.streamOut.buf = y.accepted := by
  obtain herr | hclosed := h.settled hactive
  · cases herror.symm.trans herr
  · exact ⟨h.out.channel.of_fin_acked hclosed.fin hclosed.acked, hclosed.inputEnded,
      (h.back.channel.of_inputEnded hclosed.inputEnded).1⟩

end Duplex
