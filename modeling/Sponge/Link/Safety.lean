import Sponge.Link.Channel
import Sponge.Receiver.Arrivals
import Sponge.Sender.Queue

/-!
# Link/Safety — a sender and a receiver over a lossy network

The network never forges: a delivered segment is one the sender has put in `segments_out`, a
delivered ack one the receiver has produced.  It may drop them, deliver them late, out of order and
any number of times.  A `Link` keeps both logs, and every step is one call at one end.

In every run in which numbers stay in range, what the receiver has written is a prefix of what was
written into the sender (`stream_safety`), and the sender still holds every segment the receiver has
not fully reassembled (`ack_soundness`).
-/

open Word64

/-- `(ackno(), min(window_size(), 65535))` as the receiver produced it, with the absolute number. -/
structure Ack where
  absolute : ℕ
  ackno : WrappingInt32
  window : UInt16
  deriving DecidableEq, Repr

/-- The two parties and the network between them. -/
structure Link where
  /-- the sender; its `segments_out` is the log of the segments sent -/
  run : SenderRun
  receiver : TCPReceiver
  /-- the bytes the reader has taken -/
  consumed : Bytes := []
  /-- the acks the receiver has produced -/
  acks : List Ack := []
  /-- the acks delivered to the sender -/
  delivered : List Ack := []

/-- One call at one end. -/
inductive LinkOp
  | write (data : Bytes)
  | endInput
  | fillWindow
  | tick (ms : ℕ)
  /-- the `k`-th segment of `segments_out` reaches the receiver -/
  | deliverSegment (k : ℕ)
  | produceAck
  /-- the `k`-th ack produced reaches the sender -/
  | deliverAck (k : ℕ)
  | read (len : ℕ)

namespace Link

def init (sendCapacity recvCapacity : UInt64) (retxTimeout : UInt16) (isn : WrappingInt32) : Link :=
  { run := .init sendCapacity retxTimeout isn, receiver := .new recvCapacity }

def step (l : Link) : LinkOp → Option Link
  | .write data => some { l with run := l.run.apply (.write data) }
  | .endInput => some { l with run := l.run.apply .endInput }
  | .fillWindow => some { l with run := l.run.apply .fillWindow }
  | .tick ms => some { l with run := l.run.apply (.tick ms) }
  | .deliverSegment k =>
    l.run.sender.segmentsOut[k]?.bind fun seg =>
      (l.receiver.segmentReceived seg).map fun receiver => { l with receiver }
  | .produceAck =>
    l.receiver.ackno.map fun ackno =>
      { l with acks :=
          l.acks ++ [⟨l.receiver.absoluteAckno, ackno, l.receiver.advertisedWindow⟩] }
  | .deliverAck k =>
    l.acks[k]?.map fun ack =>
      { l with
        run := l.run.apply (.ackReceived ack.ackno ack.window)
        delivered := l.delivered ++ [ack] }
  | .read len =>
    some { l with
      receiver := l.receiver.readOut len
      consumed := l.consumed ++ (l.receiver.streamOut.read len).1 }

/-- The bytes the receiver has ever written to its output. -/
def written (l : Link) : Bytes := l.consumed ++ l.receiver.streamOut.buf

/-- What the network and the writer have to respect: a delivered segment was sent at a number near
the receiver's checkpoint, a delivered ack is near the sender's, nothing is written after
`end_input`. -/
def Timely (l : Link) : LinkOp → Prop
  | .write _ => l.run.sender.stream.inputEnded = false
  | .deliverSegment k => ∀ seg ∈ l.run.sender.segmentsOut[k]?,
      ∃ x ∈ place TCPSegment.lengthInSequenceSpace 0 l.run.firsts,
        x.2 = seg ∧ Near x.1 l.receiver.streamOut.bytesWritten
  | .deliverAck k => ∀ ack ∈ l.acks[k]?, Near ack.absolute l.run.sender.sendBase
  | _ => True

/-- Numbers are in range: fewer than `2 ^ 30` in flight, all below `2 ^ 63`, deliveries timely. -/
def InRange (l : Link) (op : LinkOp) : Prop :=
  l.run.sender.nextSeqno < l.run.sender.sendBase + 2 ^ 30 ∧ l.run.sender.nextSeqno < 2 ^ 63 ∧
    l.Timely op

instance (l : Link) (op : LinkOp) : Decidable (l.Timely op) :=
  match op with
  | .write _ => inferInstanceAs (Decidable (_ = _))
  | .deliverSegment _ => inferInstanceAs (Decidable (∀ _ ∈ _, _))
  | .deliverAck _ => inferInstanceAs (Decidable (∀ _ ∈ _, _))
  | .endInput | .fillWindow | .tick _ | .produceAck | .read _ => inferInstanceAs (Decidable True)

instance (l : Link) (op : LinkOp) : Decidable (l.InRange op) :=
  inferInstanceAs (Decidable (_ ∧ _ ∧ _))

/-- **The two parties agree, whatever is under way.** -/
structure Agrees (isn : WrappingInt32) (l : Link) : Prop where
  sequenced : l.run.Sequenced isn
  queued : ∃ popped start, l.run.Queued isn popped start
  channel : Channel l.run.accepted l.consumed l.run.sender l.receiver
  acks : ∀ ack ∈ l.acks, ack.ackno = wrap ack.absolute isn ∧
    ack.absolute ≤ l.receiver.absoluteAckno ∧ l.receiver.syn = true

variable {isn : WrappingInt32} {l l' : Link} {op : LinkOp}

namespace Agrees

theorem init (sendCapacity recvCapacity : UInt64) (retxTimeout : UInt16) (isn : WrappingInt32) :
    Agrees isn (.init sendCapacity recvCapacity retxTimeout isn) where
  sequenced := .init sendCapacity retxTimeout isn
  queued := ⟨[], 0, .init sendCapacity retxTimeout isn⟩
  channel := .new sendCapacity recvCapacity retxTimeout isn
  acks := by simp [Link.init]

/-- A call on the sender that keeps the channel. -/
theorem apply (h : l.Agrees isn) (sop : SenderOp) (hdisc : l.run.Disciplined sop)
    (hrange : l.run.InRange sop)
    (hchan : Channel (l.run.apply sop).accepted l.consumed (l.run.apply sop).sender l.receiver)
    (delivered : List Ack) :
    Agrees isn { l with run := l.run.apply sop, delivered := delivered } where
  sequenced := h.sequenced.apply (h.sequenced.beforeFin hdisc)
  queued := by
    obtain ⟨popped, start, hq⟩ := h.queued
    exact hq.apply hrange
  channel := hchan
  acks := h.acks

/-- A timely segment that the receiver takes. -/
theorem deliverSegment (h : l.Agrees isn) (hfit : l.run.sender.nextSeqno < 2 ^ 64) {k : ℕ}
    (htimely : l.Timely (.deliverSegment k)) (hs : l.step (.deliverSegment k) = some l') :
    l'.Agrees isn := by
  obtain ⟨seg, hseg, hs⟩ := Option.bind_eq_some_iff.mp hs
  obtain ⟨receiver, hrec, rfl⟩ := Option.map_eq_some_iff.mp hs
  obtain ⟨⟨a, seg'⟩, hmem, rfl, hnear⟩ := htimely seg hseg
  obtain ⟨-, -, hle, -, hfits⟩ := h.sequenced.tiles.of_mem_place hmem
  have hsent : l.run.sender.Sent l.run.accepted a seg' := ⟨hfits.1, hle⟩
  have hgrows := TCPReceiver.segmentReceived_frame h.channel.follows hsent.1 hnear
    (h.channel.stop_lt hfit) hrec
  refine ⟨h.sequenced, h.queued, h.channel.segmentReceived hsent hnear hfit hrec, ?_⟩
  intro ack hack
  obtain ⟨hno, hle, hsyn⟩ := h.acks ack hack
  exact ⟨hno, hle.trans hgrows.absoluteAckno, hgrows.syn hsyn⟩

/-- A new ack says where the receiver is. -/
theorem produceAck (h : l.Agrees isn) (hs : l.step .produceAck = some l') : l'.Agrees isn := by
  obtain ⟨ackno, hackno, rfl⟩ := Option.map_eq_some_iff.mp hs
  refine ⟨h.sequenced, h.queued, h.channel, fun ack hack => ?_⟩
  rcases List.mem_append.mp hack with hack | hack
  · exact h.acks ack hack
  · rw [List.mem_singleton.mp hack]
    unfold TCPReceiver.ackno at hackno
    split_ifs at hackno with hsyn
    rw [h.channel.follows.isn hsyn] at hackno
    exact ⟨by rw [← Option.some.inj hackno, ← h.sequenced.isn]; rfl, le_rfl, hsyn⟩

/-- A timely ack that the sender takes. -/
theorem deliverAck (h : l.Agrees isn) (hrange : ∀ sop, l.run.InRange sop)
    (hfit : l.run.sender.nextSeqno < 2 ^ 64) {k : ℕ} (htimely : l.Timely (.deliverAck k))
    (hs : l.step (.deliverAck k) = some l') : l'.Agrees isn := by
  obtain ⟨ack, hack, rfl⟩ := Option.map_eq_some_iff.mp hs
  obtain ⟨hno, hle, hsyn⟩ := h.acks ack (List.mem_of_getElem? hack)
  refine h.apply (.ackReceived ack.ackno ack.window) trivial (hrange _) ?_ _
  have hchannel := h.channel.ackReceived hle hsyn (htimely ack hack) hfit ack.window
  rw [h.sequenced.isn, ← hno] at hchannel
  exact hchannel

/-- **Every step keeps the agreement.** -/
theorem step (h : l.Agrees isn) (hok : l.InRange op) (hs : l.step op = some l') :
    l'.Agrees isn := by
  obtain ⟨hflight, hsmall, htimely⟩ := hok
  have hrange : ∀ sop, l.run.InRange sop := fun _ => ⟨hflight, hsmall⟩
  have hfit : l.run.sender.nextSeqno < 2 ^ 64 := by omega
  cases op with
  | write data =>
    obtain rfl := Option.some.inj hs
    exact h.apply (.write data) htimely (hrange _) (h.channel.writeIn htimely data) _
  | endInput =>
    obtain rfl := Option.some.inj hs
    exact h.apply .endInput trivial (hrange _) h.channel.endIn _
  | fillWindow =>
    obtain rfl := Option.some.inj hs
    exact h.apply .fillWindow trivial (hrange _) h.channel.fillWindow _
  | tick ms =>
    obtain rfl := Option.some.inj hs
    exact h.apply (.tick ms) trivial (hrange _) (h.channel.tick ms) _
  | deliverSegment k => exact h.deliverSegment hfit htimely hs
  | produceAck => exact h.produceAck hs
  | deliverAck k => exact h.deliverAck hrange hfit htimely hs
  | read len =>
    obtain rfl := Option.some.inj hs
    exact ⟨h.sequenced, h.queued, h.channel.readOut len, h.acks⟩

/-- **No delivery is refused**: the receiver does not throw, as long as its acceptance limit has not
left 64 bits. -/
theorem deliverSegment_isSome {k : ℕ} (h : l.Agrees isn)
    (hk : k < l.run.sender.segmentsOut.length) (hedge : l.receiver.reassembler.edge < 2 ^ 64) :
    (l.step (.deliverSegment k)).isSome := by
  have hget : l.run.sender.segmentsOut[k]? = some l.run.sender.segmentsOut[k] :=
    List.getElem?_eq_getElem hk
  rw [Link.step, hget, Option.bind_some, Option.isSome_map]
  exact TCPReceiver.segmentReceived_isSome h.channel.follows.wf.written_le_edge hedge _

end Agrees

/-- The agreement along a run. -/
theorem reach_agrees {sendCapacity recvCapacity : UInt64} {retxTimeout : UInt16}
    (h : Reach step InRange (init sendCapacity recvCapacity retxTimeout isn) l) : l.Agrees isn :=
  h.invariant (.init sendCapacity recvCapacity retxTimeout isn)
    fun _ _ _ ih hok hs => ih.step hok hs

/-- **End-to-end stream safety.**  In every run the bytes ever written to the receiver's output are
a prefix of the bytes the sender's writer has written, and once the output has ended they are all of
them and the writer has ended the stream. -/
theorem stream_safety {sendCapacity recvCapacity : UInt64} {retxTimeout : UInt16}
    (h : Reach step InRange (init sendCapacity recvCapacity retxTimeout isn) l) :
    l.written <+: l.run.accepted ∧
    (l.receiver.streamOut.inputEnded = true →
      l.written = l.run.accepted ∧ l.run.sender.stream.inputEnded = true) :=
  have hag := reach_agrees h
  ⟨hag.channel.isPrefix, hag.channel.of_inputEnded⟩

/-- Six bytes through a window of four, with the SYN delivered twice and a read in between. -/
theorem stream_safety_run : ∃ l, Reach step InRange (init 10 4 1000 ⟨4294967295⟩) l ∧
    l.receiver.streamOut.inputEnded = true ∧ l.written = [97, 98, 99, 100, 101, 102] ∧
    l.written = l.run.accepted := by
  obtain ⟨l, hl, hp⟩ := exists_reach_of_exec step InRange
    (init 10 4 1000 ⟨4294967295⟩)
    [.fillWindow, .deliverSegment 0, .produceAck, .deliverAck 0,
      .write [97, 98, 99, 100, 101, 102], .endInput, .fillWindow, .deliverSegment 1,
      .deliverSegment 0, .produceAck, .read 4, .produceAck, .deliverAck 2, .deliverSegment 2,
      .read 1]
    (fun l => l.receiver.streamOut.inputEnded && l.written == [97, 98, 99, 100, 101, 102])
    (by decide)
  simp only [Bool.and_eq_true, beq_iff_eq] at hp
  exact ⟨l, hl, hp.1, hp.2, ((stream_safety hl).2 hp.1).1⟩

/-- **Acknowledgement soundness.**  In every run in which the receiver has an `ackno`, the base is
at most the absolute `ackno` and that is at most the next number, and every number from the `ackno`
on lies in a segment the sender still holds, `x.2` first sent at `x.1`. -/
theorem ack_soundness {sendCapacity recvCapacity : UInt64} {retxTimeout : UInt16}
    (h : Reach step InRange (init sendCapacity recvCapacity retxTimeout isn) l)
    (hack : l.receiver.ackno.isSome) :
    l.run.sender.sendBase ≤
      l.receiver.streamOut.bytesWritten + 1 + l.receiver.streamOut.inputEnded.toNat ∧
    l.receiver.streamOut.bytesWritten + 1 + l.receiver.streamOut.inputEnded.toNat ≤
      l.run.sender.nextSeqno ∧
    ∀ n, l.receiver.streamOut.bytesWritten + 1 + l.receiver.streamOut.inputEnded.toNat ≤ n →
      n < l.run.sender.nextSeqno →
      ∃ x ∈ place TCPSegment.lengthInSequenceSpace 0 l.run.firsts,
        x.2 ∈ l.run.sender.copySegmentsOut ∧ x.2.header.seqno = wrap x.1 isn ∧
        x.1 ≤ n ∧ n < x.1 + x.2.lengthInSequenceSpace := by
  have hag := reach_agrees h
  have hsyn : l.receiver.syn = true := by
    by_contra hsyn
    simp [TCPReceiver.ackno, hsyn] at hack
  have hbase := hag.channel.base
  refine ⟨hbase, hag.channel.absoluteAckno_le (hag.channel.syn hsyn), fun n hn hlt => ?_⟩
  obtain ⟨popped, start, hq⟩ := hag.queued
  have hstart : start ≤ n := hq.start_le.trans (hbase.trans hn)
  obtain ⟨x, hx, hcover⟩ := hq.queue.exists_mem_place hstart hlt
  obtain ⟨hmem, -, -, -, hnum⟩ := hq.queue.of_mem_place hx
  refine ⟨x, ?_, hmem, hnum.1, hcover⟩
  rw [hq.firsts, place_append, hq.before.add_sum]
  exact List.mem_append_right _ hx

/-- Two segments lost on the way: both are still held. -/
theorem ack_soundness_run : ∃ l, Reach step InRange (init 10 4 1000 ⟨4294967295⟩) l ∧
    l.receiver.ackno = some ⟨0⟩ ∧ l.run.sender.sendBase = 1 ∧ l.run.sender.nextSeqno = 5 ∧
    ∃ x ∈ place TCPSegment.lengthInSequenceSpace 0 l.run.firsts,
      x.2 ∈ l.run.sender.copySegmentsOut ∧ x.1 ≤ 3 ∧ 3 < x.1 + x.2.lengthInSequenceSpace := by
  obtain ⟨l, hl, hp⟩ := exists_reach_of_exec step InRange
    (init 10 4 1000 ⟨4294967295⟩)
    [.fillWindow, .deliverSegment 0, .produceAck, .deliverAck 0, .write [97, 98], .fillWindow,
      .write [99, 100], .fillWindow]
    (fun l => l.receiver.ackno == some ⟨0⟩ && l.receiver.streamOut.bytesWritten == 0 &&
      !l.receiver.streamOut.inputEnded && l.run.sender.sendBase == 1 &&
      l.run.sender.nextSeqno == 5) (by decide)
  simp only [Bool.and_eq_true, beq_iff_eq, Bool.not_eq_true'] at hp
  obtain ⟨⟨⟨⟨hack, hwr⟩, hend⟩, hbase⟩, hnext⟩ := hp
  obtain ⟨-, -, hcover⟩ := ack_soundness hl (by rw [hack]; rfl)
  obtain ⟨x, hx, hmem, -, hle, hlt⟩ := hcover 3 (by rw [hwr, hend]; decide) (by omega)
  exact ⟨l, hl, hack, hbase, hnext, x, hx, hmem, hle, hlt⟩

end Link
