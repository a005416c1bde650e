import Sponge.Connection.Model
import Sponge.Receiver.Calls
import Sponge.Sender.Counters

/-!
# Connection/Calls — a connection among arbitrary callers

A connection is called by its application, by the clock and by a network that may hand it any
segment at all.  `TCPConnection.call` is one such call; `none` stands for a segment on which the
receiver throws.

Everything a connection sends goes through `push_segment_out`, and `pushSegmentOut_eq` says once
what that does: the sender's queue, filled, goes out front first with the receiver's part stamped on
each segment, and then the connection may be closed.  So between two calls the sender's own queue is
empty (`Idle`), and every segment that a call adds to `segments_out` is the stamped form of one that
the sender queued in the same call.
-/

open Word64

/-- A call on a connection, or on its inbound stream. -/
inductive ConnCall
  | connect
  | write (data : Bytes)
  | endInputStream
  | tick (ms : ℕ)
  | segmentReceived (seg : TCPSegment)
  | read (len : ℕ)
  | pop (len : ℕ)

/-- The call on the receiver that a call is passed on as. -/
def ConnCall.onReceiver : ConnCall → Option ReceiverCall
  | .segmentReceived seg => some (.segmentReceived seg)
  | .read len => some (.read len)
  | .pop len => some (.pop len)
  | .connect | .write _ | .endInputStream | .tick _ => none

namespace TCPConnection

variable {c c' : TCPConnection} {seg out : TCPSegment}

/-- The application drops `len` bytes from `inbound_stream()`. -/
def popInbound (c : TCPConnection) (len : ℕ) : TCPConnection :=
  { c with receiver := c.receiver.popOut len }

/-- One call; `none` if it throws. -/
def call (c : TCPConnection) : ConnCall → Option TCPConnection
  | .connect => some c.connect
  | .write data => some (c.write data)
  | .endInputStream => some c.endInputStream
  | .tick ms => some (c.tick ms)
  | .segmentReceived seg => c.segmentReceived seg
  | .read len => some (c.readInbound len)
  | .pop len => some (c.popInbound len)

/-! ## The two ends of the handshake -/

/-- `s_state` is `closed` until the SYN is sent. -/
theorem sState_eq_closed_iff (h : c.sender.Counted) :
    c.sState = .closed ↔ c.sender.synFlag = false := by
  rw [← h.nextSeqno_eq_zero_iff]
  unfold sState
  split_ifs <;> simp_all

/-- `r_state` is `listening` until a SYN is received. -/
theorem rState_eq_listening_iff (c : TCPConnection) :
    c.rState = .listening ↔ c.receiver.syn = false := by
  unfold rState TCPReceiver.ackno
  cases c.receiver.syn <;> cases c.receiver.streamOut.inputEnded <;> simp

/-! ## Putting the queue on the wire -/

/-- **A segment as it leaves**: the sender's part as it was, the receiver's part filled in. -/
structure Stamped (r : TCPReceiver) (seg out : TCPSegment) : Prop where
  payload : out.payload = seg.payload
  doff : out.header.doff = seg.header.doff
  syn : out.header.syn = seg.header.syn
  fin : out.header.fin = seg.header.fin
  ack : out.header.ack = (seg.header.ack || r.ackno.isSome)
  ackno : ∀ a ∈ r.ackno, out.header.ackno = a ∧ out.header.win = r.advertisedWindow

/-- It is as long as it was. -/
theorem Stamped.lengthInSequenceSpace {r : TCPReceiver} (h : Stamped r seg out) :
    out.lengthInSequenceSpace = seg.lengthInSequenceSpace := by
  simp only [TCPSegment.lengthInSequenceSpace, h.payload, h.syn, h.fin]

/-- **What leaves of a queue**: every segment of it, stamped, and nothing else. -/
structure Leaves (r : TCPReceiver) (queue outs : List TCPSegment) : Prop where
  nil_iff : outs = [] ↔ queue = []
  stamped : ∀ out ∈ outs, ∃ seg ∈ queue, Stamped r seg out

/-- A queue that leaves segment by segment. -/
theorem Leaves.of_forall₂ {r : TCPReceiver} {queue outs : List TCPSegment}
    (h : List.Forall₂ (Stamped r) queue outs) : Leaves r queue outs := by
  induction h with
  | nil => exact ⟨Iff.rfl, by simp⟩
  | cons hseg _ ih =>
    refine ⟨by simp, fun out hout => ?_⟩
    rcases List.mem_cons.mp hout with rfl | hout
    · exact ⟨_, List.mem_cons_self, hseg⟩
    · obtain ⟨seg, hmem, hstamped⟩ := ih.stamped out hout
      exact ⟨seg, List.mem_cons_of_mem _ hmem, hstamped⟩

/-- A turn of the loop of `push_segment_out`. -/
theorem emit_stamped (c : TCPConnection) (seg : TCPSegment) : ∃ out,
    c.emit seg = { c with segmentsOut := c.segmentsOut ++ [out], sendRst := false } ∧
      Stamped c.receiver seg out := by
  refine ⟨_, rfl, ?_⟩
  have hstamp : Stamped c.receiver seg (c.stamp seg) := by
    unfold stamp
    cases hno : c.receiver.ackno with
    | none => exact ⟨rfl, rfl, rfl, rfl, by simp [hno], by simp [hno]⟩
    | some ackno => exact ⟨rfl, rfl, rfl, rfl, by simp [hno], by simp [hno]⟩
  split_ifs
  · exact ⟨hstamp.payload, hstamp.doff, hstamp.syn, hstamp.fin, hstamp.ack, hstamp.ackno⟩
  · exact hstamp

/-- The loop of `push_segment_out`. -/
theorem foldl_emit_eq (q : List TCPSegment) (c : TCPConnection) : ∃ outs sendRst,
    q.foldl emit c = { c with segmentsOut := c.segmentsOut ++ outs, sendRst } ∧
      List.Forall₂ (Stamped c.receiver) q outs := by
  induction q generalizing c with
  | nil => exact ⟨[], c.sendRst, by simp, .nil⟩
  | cons seg q ih =>
    obtain ⟨out, hout, hstamped⟩ := c.emit_stamped seg
    obtain ⟨outs, sendRst, houts, hall⟩ := ih (c.emit seg)
    rw [hout] at houts hall
    refine ⟨out :: outs, sendRst, ?_, .cons hstamped hall⟩
    rw [List.foldl_cons, hout, houts, List.append_assoc, List.singleton_append]

/-- Closing touches two flags, and a closed connection stays closed. -/
theorem cleanShutdown_eq (c : TCPConnection) : ∃ linger active,
    c.cleanShutdown = { c with lingerAfterStreamsFinish := linger, active } ∧
      (c.active = false → active = false) := by
  unfold cleanShutdown dropLinger closeIfDone
  split_ifs <;> exact ⟨_, _, rfl, by simp⟩

/-- **What `push_segment_out` does.** -/
theorem pushSegmentOut_eq (c : TCPConnection) (sendSyn : Bool) : ∃ outs sendRst,
    c.pushSegmentOut sendSyn = cleanShutdown
      { c with
        sender := { (c.fill sendSyn).sender with segmentsOut := [] }
        segmentsOut := c.segmentsOut ++ outs
        sendRst } ∧
    List.Forall₂ (Stamped c.receiver) (c.fill sendSyn).sender.segmentsOut outs := by
  have hfill : c.fill sendSyn = { c with sender := (c.fill sendSyn).sender } := by
    unfold fill
    split_ifs <;> rfl
  obtain ⟨outs, sendRst, heq, hall⟩ := foldl_emit_eq (c.fill sendSyn).sender.segmentsOut
    { c.fill sendSyn with sender := { (c.fill sendSyn).sender with segmentsOut := [] } }
  refine ⟨outs, sendRst, ?_, ?_⟩
  · rw [pushSegmentOut, flush, heq, hfill]
  · rw [hfill] at hall
    exact hall

section Push

variable (c) (sendSyn : Bool)

theorem sender_pushSegmentOut : (c.pushSegmentOut sendSyn).sender =
    { (c.fill sendSyn).sender with segmentsOut := [] } := by
  obtain ⟨outs, sendRst, heq, -⟩ := c.pushSegmentOut_eq sendSyn
  obtain ⟨linger, active, hclose, -⟩ := cleanShutdown_eq _
  rw [heq, hclose]

theorem receiver_pushSegmentOut : (c.pushSegmentOut sendSyn).receiver = c.receiver := by
  obtain ⟨outs, sendRst, heq, -⟩ := c.pushSegmentOut_eq sendSyn
  obtain ⟨linger, active, hclose, -⟩ := cleanShutdown_eq _
  rw [heq, hclose]

/-- What is added to `segments_out`, stamped, is what the sender has queued. -/
theorem segmentsOut_pushSegmentOut : ∃ outs,
    (c.pushSegmentOut sendSyn).segmentsOut = c.segmentsOut ++ outs ∧
      Leaves c.receiver (c.fill sendSyn).sender.segmentsOut outs := by
  obtain ⟨outs, sendRst, heq, hall⟩ := c.pushSegmentOut_eq sendSyn
  obtain ⟨linger, active, hclose, -⟩ := cleanShutdown_eq _
  refine ⟨outs, ?_, .of_forall₂ hall⟩
  rw [heq, hclose]

/-- A closed connection stays closed. -/
theorem active_pushSegmentOut (h : c.active = false) :
    (c.pushSegmentOut sendSyn).active = false := by
  obtain ⟨outs, sendRst, heq, -⟩ := c.pushSegmentOut_eq sendSyn
  obtain ⟨linger, active, hclose, hdead⟩ := cleanShutdown_eq _
  rw [heq, hclose]
  exact hdead h

end Push

/-! ## What a call does to the sender -/

/-- **A property of the log and the sender** that every operation keeps, but for those of the owner
on the outbound stream. -/
structure SenderKept (P : List TCPSegment → TCPSender → Prop) : Prop where
  fillWindow : ∀ log s, P log s → P log s.fillWindow
  ackReceived : ∀ log s ackno window, P log s → P log (s.ackReceived ackno window)
  tick : ∀ log s ms, P log s → P log (s.tick ms)
  sendEmptySegment : ∀ log s, P log s → P log s.sendEmptySegment
  setError : ∀ log (s : TCPSender), P log s → P log { s with stream := s.stream.setError }
  leave : ∀ log s r outs, P log s → Leaves r s.segmentsOut outs →
    P (log ++ outs) { s with segmentsOut := [] }

section Sender

variable {P : List TCPSegment → TCPSender → Prop}

/-- The sender's queue leaves. -/
theorem SenderKept.pushSegmentOut (hP : SenderKept P) (h : P c.segmentsOut c.sender)
    (sendSyn : Bool) :
    P (c.pushSegmentOut sendSyn).segmentsOut (c.pushSegmentOut sendSyn).sender := by
  obtain ⟨outs, hout, hleaves⟩ := c.segmentsOut_pushSegmentOut sendSyn
  rw [sender_pushSegmentOut, hout]
  refine hP.leave _ _ _ _ ?_ hleaves
  unfold fill
  split_ifs
  · exact hP.fillWindow _ _ h
  · exact h

/-- An empty segment is queued, if there is none. -/
theorem SenderKept.ensureSegment (hP : SenderKept P) (h : P c.segmentsOut c.sender) :
    P c.ensureSegment.segmentsOut c.ensureSegment.sender := by
  unfold TCPConnection.ensureSegment
  split_ifs
  · exact hP.sendEmptySegment _ _ h
  · exact h

/-- The streams are broken, and a RST may leave. -/
theorem SenderKept.uncleanShutdown (hP : SenderKept P) (h : P c.segmentsOut c.sender)
    (sendRst : Bool) :
    P (c.uncleanShutdown sendRst).segmentsOut (c.uncleanShutdown sendRst).sender := by
  unfold TCPConnection.uncleanShutdown
  have habort : P c.abort.segmentsOut c.abort.sender := hP.setError _ _ h
  split_ifs
  · exact hP.pushSegmentOut (hP.ensureSegment (c := { c.abort with sendRst := true }) habort) false
  · exact habort

theorem SenderKept.tick_conn (hP : SenderKept P) (h : P c.segmentsOut c.sender) (ms : ℕ) :
    P (c.tick ms).segmentsOut (c.tick ms).sender := by
  unfold TCPConnection.tick
  split_ifs
  · exact h
  · refine hP.pushSegmentOut ?_ false
    unfold checkRetransmissions
    split_ifs
    · exact hP.uncleanShutdown (hP.tick _ _ _ h) true
    · exact hP.tick _ _ _ h

/-- A segment is answered. -/
theorem SenderKept.reply (hP : SenderKept P) (h : P c.segmentsOut c.sender) (seg : TCPSegment) :
    P (c.reply seg).segmentsOut (c.reply seg).sender := by
  unfold TCPConnection.reply
  split_ifs
  · exact hP.pushSegmentOut h true
  · exact hP.pushSegmentOut (hP.ensureSegment h) false
  · exact hP.pushSegmentOut h false

/-- A segment arrives. -/
theorem SenderKept.segmentReceived (hP : SenderKept P) (h : P c.segmentsOut c.sender)
    (hc : c.segmentReceived seg = some c') : P c'.segmentsOut c'.sender := by
  cases receives hc with
  | dead => exact h
  | ignored => exact h
  | reset =>
    exact hP.uncleanShutdown (c := { c with timeSinceLastSegmentReceived := 0 }) h false
  | taken =>
    refine hP.reply ?_ seg
    unfold takeAck
    split_ifs
    · exact hP.ackReceived _ _ _ _ h
    · exact h

/-- **What the operations of a sender keep, a call keeps**, if what the owner does to the stream
keeps it too. -/
theorem SenderKept.call {op : ConnCall} (hP : SenderKept P) (h : P c.segmentsOut c.sender)
    (hwrite : ∀ data, op = .write data → P c.segmentsOut (c.sender.writeIn data))
    (hend : op = .endInputStream → P c.segmentsOut c.sender.endIn)
    (hc : c.call op = some c') : P c'.segmentsOut c'.sender := by
  cases op with
  | connect =>
    obtain rfl := Option.some.inj hc
    exact hP.pushSegmentOut h true
  | write data =>
    obtain rfl := Option.some.inj hc
    exact hP.pushSegmentOut (c := { c with sender := c.sender.writeIn data }) (hwrite data rfl)
      false
  | endInputStream =>
    obtain rfl := Option.some.inj hc
    exact hP.pushSegmentOut (c := { c with sender := c.sender.endIn }) (hend rfl) false
  | tick ms =>
    obtain rfl := Option.some.inj hc
    exact hP.tick_conn h ms
  | segmentReceived seg => exact hP.segmentReceived h hc
  | read len =>
    obtain rfl := Option.some.inj hc
    exact h
  | pop len =>
    obtain rfl := Option.some.inj hc
    exact h

/-- The counters stay in step. -/
theorem kept_counted : SenderKept fun _ s => s.Counted where
  fillWindow _ _ h := h.fillWindow
  ackReceived _ _ _ _ h := h.ackReceived _ _
  tick _ _ _ h := h.tick _
  sendEmptySegment _ _ h := h.setSegmentsOut _
  setError _ _ h := h.setError
  leave _ _ _ _ h _ := h.setSegmentsOut _

end Sender

/-! ## What a call does to the receiver -/

/-- A property of receivers that every operation keeps. -/
structure ReceiverKept (P : TCPReceiver → Prop) : Prop where
  segmentReceived : ∀ r seg r', P r → r.segmentReceived seg = some r' → P r'
  readOut : ∀ r len, P r → P (r.readOut len)
  popOut : ∀ r len, P r → P (r.popOut len)
  setError : ∀ r : TCPReceiver, P r →
    P { r with reassembler := { r.reassembler with output := r.streamOut.setError } }

theorem receiver_ensureSegment (c : TCPConnection) : c.ensureSegment.receiver = c.receiver := by
  unfold ensureSegment
  split_ifs <;> rfl

theorem receiver_reply (c : TCPConnection) (seg : TCPSegment) :
    (c.reply seg).receiver = c.receiver := by
  unfold reply
  split_ifs
  · exact receiver_pushSegmentOut c true
  · exact (receiver_pushSegmentOut _ false).trans c.receiver_ensureSegment
  · exact receiver_pushSegmentOut c false

theorem receiver_takeAck (c : TCPConnection) (seg : TCPSegment) :
    (c.takeAck seg).receiver = c.receiver := by
  unfold takeAck
  split_ifs <;> rfl

/-- An unclean shutdown breaks the inbound stream and does no more to the receiver. -/
theorem receiver_uncleanShutdown (c : TCPConnection) (sendRst : Bool) :
    (c.uncleanShutdown sendRst).receiver = c.receiver.setError := by
  unfold uncleanShutdown
  split_ifs
  · rw [receiver_pushSegmentOut, receiver_ensureSegment]
    rfl
  · rfl

/-- **What a call does to the receiver**: nothing, or it passes itself on, or it breaks the
stream. -/
theorem receiver_call {op : ConnCall} (hc : c.call op = some c') :
    c'.receiver = c.receiver ∨ c'.receiver = c.receiver.setError ∨
      ∃ rop ∈ op.onReceiver, c.receiver.call rop = some c'.receiver := by
  cases op with
  | connect =>
    obtain rfl := Option.some.inj hc
    exact Or.inl (receiver_pushSegmentOut c true)
  | write data =>
    obtain rfl := Option.some.inj hc
    exact Or.inl (receiver_pushSegmentOut { c with sender := c.sender.writeIn data } false)
  | endInputStream =>
    obtain rfl := Option.some.inj hc
    exact Or.inl (receiver_pushSegmentOut { c with sender := c.sender.endIn } false)
  | tick ms =>
    obtain rfl := Option.some.inj hc
    unfold TCPConnection.tick
    split_ifs
    · exact Or.inl rfl
    · rw [receiver_pushSegmentOut]
      unfold checkRetransmissions
      split_ifs
      · exact Or.inr (Or.inl (receiver_uncleanShutdown _ true))
      · exact Or.inl rfl
  | segmentReceived seg =>
    cases receives hc with
    | dead => exact Or.inl rfl
    | ignored => exact Or.inl rfl
    | reset => exact Or.inr (Or.inl (receiver_uncleanShutdown _ false))
    | taken _ _ hreceiver =>
      refine Or.inr (Or.inr ⟨_, rfl, ?_⟩)
      rw [receiver_reply, receiver_takeAck]
      exact hreceiver
  | read | pop =>
    obtain rfl := Option.some.inj hc
    exact Or.inr (Or.inr ⟨_, rfl, rfl⟩)

/-- **What the operations of a receiver keep, a call keeps.** -/
theorem ReceiverKept.call {P : TCPReceiver → Prop} {op : ConnCall} (hP : ReceiverKept P)
    (h : P c.receiver) (hc : c.call op = some c') : P c'.receiver := by
  obtain hsame | hbroken | ⟨rop, -, hr⟩ := receiver_call hc
  · exact hsame ▸ h
  · exact hbroken ▸ hP.setError _ h
  · cases rop with
    | segmentReceived seg => exact hP.segmentReceived _ seg _ h hr
    | read len => exact Option.some.inj hr ▸ hP.readOut _ len h
    | pop len => exact Option.some.inj hr ▸ hP.popOut _ len h
    | setError => exact Option.some.inj hr ▸ hP.setError _ h

/-! ## Between two calls -/

/-- **Between two calls** the counters are in step and the sender's own queue is empty. -/
structure Idle (c : TCPConnection) : Prop where
  counted : c.sender.Counted
  queue : c.sender.segmentsOut = []

/-- Nothing of the queue is left behind. -/
theorem queue_pushSegmentOut (c : TCPConnection) (sendSyn : Bool) :
    (c.pushSegmentOut sendSyn).sender.segmentsOut = [] := by
  rw [sender_pushSegmentOut]

theorem queue_reply (c : TCPConnection) (seg : TCPSegment) :
    (c.reply seg).sender.segmentsOut = [] := by
  unfold reply
  split_ifs
  · exact queue_pushSegmentOut _ true
  · exact queue_pushSegmentOut _ false
  · exact queue_pushSegmentOut _ false

/-- Every call leaves it so. -/
theorem Idle.call {op : ConnCall} (h : c.Idle) (hc : c.call op = some c') : c'.Idle := by
  refine ⟨kept_counted.call h.counted (fun data _ => h.counted.writeIn data)
    (fun _ => h.counted.endIn) hc, ?_⟩
  cases op with
  | connect =>
    obtain rfl := Option.some.inj hc
    exact queue_pushSegmentOut c true
  | write data =>
    obtain rfl := Option.some.inj hc
    exact queue_pushSegmentOut { c with sender := c.sender.writeIn data } false
  | endInputStream =>
    obtain rfl := Option.some.inj hc
    exact queue_pushSegmentOut { c with sender := c.sender.endIn } false
  | tick ms =>
    obtain rfl := Option.some.inj hc
    unfold TCPConnection.tick
    split_ifs
    · exact h.queue
    · exact queue_pushSegmentOut _ _
  | segmentReceived seg =>
    cases receives hc with
    | dead | ignored | reset => exact h.queue
    | taken => exact queue_reply _ seg
  | read | pop =>
    obtain rfl := Option.some.inj hc
    exact h.queue

/-- Every run leaves it so. -/
theorem reach_idle {ok : TCPConnection → ConnCall → Prop} {cfg : TCPConfig}
    (h : Reach call ok (new cfg) c) : c.Idle :=
  h.invariant ⟨.new cfg.sendCapacity cfg.rtTimeout cfg.isn, rfl⟩ fun _ _ _ ih _ hc => ih.call hc

end TCPConnection
