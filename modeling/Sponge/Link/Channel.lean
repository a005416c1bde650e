import Sponge.Receiver.Follows
import Sponge.Sender.Steps

/-!
# Link/Channel — one direction of a connection

A sender at one end and the receiver at the other, whatever lies between them.  `Channel` is the
relation between their states that no delivery, loss, duplication or reordering can break: the
receiver has followed the sender's transcript, and the sender's base is not beyond what the receiver
has acknowledged.  Each operation of either end keeps it, a delivered segment being one that the
sender has `Sent` and a delivered ack one that the receiver has given.
-/

open Word64

/-- The segment was sent at absolute number `a`. -/
def TCPSender.Sent (s : TCPSender) (accepted : Bytes) (a : ℕ) (seg : TCPSegment) : Prop :=
  (s.transcript accepted).Carries a seg ∧ a + seg.lengthInSequenceSpace ≤ s.nextSeqno

instance (s : TCPSender) (accepted : Bytes) (a : ℕ) (seg : TCPSegment) :
    Decidable (s.Sent accepted a seg) := inferInstanceAs (Decidable (_ ∧ _))

/-- **The two ends of one direction agree**: `accepted` are the bytes written into the sender and
`consumed` those read from the receiver. -/
structure Channel (accepted consumed : Bytes) (s : TCPSender) (r : TCPReceiver) : Prop where
  sound : s.Sound accepted
  follows : r.Follows (s.transcript accepted) consumed
  syn : r.syn = true → 0 < s.nextSeqno
  base : s.sendBase ≤ r.absoluteAckno

variable {accepted accepted' consumed : Bytes} {s s' : TCPSender} {r r' : TCPReceiver} {a : ℕ}
  {seg : TCPSegment}

namespace TCPSender

/-- The transcript stops at the next number, or behind a SYN not sent yet. -/
theorem Sound.stop_le (h : s.Sound accepted) :
    (s.transcript accepted).stop ≤ max 1 s.nextSeqno := by
  cases hsyn : s.synFlag with
  | true => exact (h.nextSeqno_eq hsyn).ge.trans (le_max_right _ _)
  | false =>
    cases hfin : s.finFlag with
    | true => cases hsyn.symm.trans (h.fin hfin).1
    | false => simp [Transcript.stop, h.idle hsyn, transcript, hfin]

/-- What has been sent stays sent. -/
theorem Sent.mono (h : s.Sent accepted a seg)
    (hgrows : (s.transcript accepted).Le (s'.transcript accepted'))
    (hnext : s.nextSeqno ≤ s'.nextSeqno) : s'.Sent accepted' a seg :=
  ⟨h.1.mono hgrows, h.2.trans hnext⟩

end TCPSender

namespace Channel

theorem new (sendCapacity recvCapacity : UInt64) (retxTimeout : UInt16) (isn : WrappingInt32) :
    Channel [] [] (.new sendCapacity retxTimeout isn) (.new recvCapacity) where
  sound := .new sendCapacity retxTimeout isn
  follows := .new _ recvCapacity
  syn := by simp [TCPReceiver.new]
  base := Nat.zero_le _

/-- **Only what has been sent is acknowledged.** -/
theorem absoluteAckno_le (h : Channel accepted consumed s r) (hpos : 0 < s.nextSeqno) :
    r.absoluteAckno ≤ s.nextSeqno := by
  have hack := h.follows.absoluteAckno_le
  have hstop := h.sound.stop_le
  rw [max_eq_right hpos] at hstop
  exact hack.trans hstop

/-- **The sender goes on**, its base not passing what has been acknowledged. -/
theorem advance (h : Channel accepted consumed s r) (hsound : s'.Sound accepted')
    (hgrows : (s.transcript accepted).Le (s'.transcript accepted'))
    (hnext : s.nextSeqno ≤ s'.nextSeqno) (hbase : s'.sendBase ≤ r.absoluteAckno) :
    Channel accepted' consumed s' r where
  sound := hsound
  follows := h.follows.mono hgrows
  syn hr := (h.syn hr).trans_le hnext
  base := hbase

/-! ## The sender's operations -/

theorem writeIn (h : Channel accepted consumed s r) (hopen : s.stream.inputEnded = false)
    (data : Bytes) :
    Channel (accepted ++ data.take (s.stream.accepted data)) consumed (s.writeIn data) r :=
  h.advance (h.sound.writeIn (Or.inl (h.sound.finFlag_of_open hopen)))
    (h.sound.transcript_writeIn data ▸ .refl _) le_rfl h.base

theorem endIn (h : Channel accepted consumed s r) : Channel accepted consumed s.endIn r :=
  h.advance h.sound.endIn (.refl _) le_rfl h.base

theorem fillWindow (h : Channel accepted consumed s r) :
    Channel accepted consumed s.fillWindow r := by
  obtain ⟨segs, hext⟩ := TCPSender.fillWindow_extends h.sound
  exact h.advance hext.sound hext.grows hext.tiles.le (hext.frame.sendBase ▸ h.base)

theorem tick (h : Channel accepted consumed s r) (ms : ℕ) :
    Channel accepted consumed (s.tick ms) r := by
  have hsound := h.sound.tick ms
  obtain ⟨segs, count, timer, heq, -⟩ := s.tick_frame ms
  rw [heq] at hsound ⊢
  exact h.advance hsound (.refl _) le_rfl h.base

theorem sendEmptySegment (h : Channel accepted consumed s r) :
    Channel accepted consumed s.sendEmptySegment r :=
  h.advance h.sound.sendEmptySegment (.refl _) le_rfl h.base

/-- An ack, read against the base, is the number the receiver gave. -/
theorem unwrap_ackno {v : ℕ} (h : Channel accepted consumed s r) (hv : v ≤ r.absoluteAckno)
    (hr : r.syn = true) (hnear : Near v s.sendBase) (hfit : s.nextSeqno < 2 ^ 64) :
    unwrap (wrap v s.isn) s.isn s.sendBase = v := by
  have hack := h.absoluteAckno_le (h.syn hr)
  exact unwrap_wrap s.isn (by omega) hnear

/-- **An ack the receiver has given moves the base to no more than it has received.** -/
theorem ackReceived {v : ℕ} (h : Channel accepted consumed s r) (hv : v ≤ r.absoluteAckno)
    (hr : r.syn = true) (hnear : Near v s.sendBase) (hfit : s.nextSeqno < 2 ^ 64)
    (window : UInt16) :
    Channel accepted consumed (s.ackReceived (wrap v s.isn) window) r := by
  have hunwrap := h.unwrap_ackno hv hr hnear hfit
  obtain ⟨kept, segs, hadv⟩ := TCPSender.ackReceived_advances h.sound (wrap v s.isn) window
  refine h.advance hadv.sound hadv.grows hadv.tiles.le ?_
  obtain ⟨-, heq⟩ | ⟨-, -, heq⟩ | ⟨-, -, heq⟩ := s.ackReceived_cases (wrap v s.isn) window
  · rw [heq]
    exact h.base
  · rw [heq, TCPSender.recordWindow_eq]
    exact h.base
  · obtain ⟨segs', hsends⟩ := (s.advanceBase v window).fillWindow_sends
    rw [heq, hunwrap, TCPSender.restartTimer, hsends.frame.sendBase, TCPSender.advanceBase_eq]
    exact hv

/-! ## The receiver's operations -/

/-- The hypotheses under which a delivered segment is read right. -/
theorem stop_lt (h : Channel accepted consumed s r) (hfit : s.nextSeqno < 2 ^ 64) :
    (s.transcript accepted).stop < 2 ^ 64 := by
  have := h.sound.stop_le
  omega

/-- **A segment the sender has sent keeps the receiver in step.** -/
theorem segmentReceived (h : Channel accepted consumed s r) (hsent : s.Sent accepted a seg)
    (hnear : Near a r.streamOut.bytesWritten) (hfit : s.nextSeqno < 2 ^ 64)
    (hr : r.segmentReceived seg = some r') : Channel accepted consumed s r' where
  sound := h.sound
  follows := h.follows.segmentReceived hsent.1 hnear (h.stop_lt hfit) hr
  syn hs := by
    have hle := hsent.2
    obtain ⟨-, heq⟩ | ⟨-, hsyn, -⟩ | ⟨hacc, -⟩ :=
      TCPReceiver.segmentReceived_cases h.follows hsent.1 hnear (h.stop_lt hfit)
    · obtain rfl := Option.some.inj (heq.symm.trans hr)
      exact h.syn hs
    · simp only [TCPSegment.lengthInSequenceSpace, hsyn, Bool.toNat_true] at hle
      omega
    · exact h.syn hacc.syn
  base := h.base.trans
    (TCPReceiver.segmentReceived_frame h.follows hsent.1 hnear (h.stop_lt hfit) hr).absoluteAckno

theorem readOut (h : Channel accepted consumed s r) (len : ℕ) :
    Channel accepted (consumed ++ (r.streamOut.read len).1) s (r.readOut len) where
  sound := h.sound
  follows := h.follows.readOut len
  syn := h.syn
  base := h.base

/-! ## What the agreement gives -/

/-- **The receiver's output is a prefix of the sender's input.** -/
theorem isPrefix (h : Channel accepted consumed s r) :
    consumed ++ r.streamOut.buf <+: accepted :=
  h.follows.isPrefix.trans (List.take_prefix _ _)

/-- **An ended output is the whole input**, which has ended too. -/
theorem of_inputEnded (h : Channel accepted consumed s r) (hend : r.streamOut.inputEnded = true) :
    consumed ++ r.streamOut.buf = accepted ∧ s.stream.inputEnded = true := by
  obtain ⟨hfin, htext⟩ := h.follows.of_inputEnded hend
  exact ⟨htext.trans (h.sound.sent_eq_of_fin hfin),
    ((ByteStream.eof_iff _).mp (h.sound.fin hfin).2).1⟩

/-- **A FIN that has been acknowledged has been received with all before it.** -/
theorem of_fin_acked (h : Channel accepted consumed s r) (hfin : s.finFlag = true)
    (hbase : s.nextSeqno ≤ s.sendBase) :
    r.streamOut.inputEnded = true ∧ consumed ++ r.streamOut.buf = accepted := by
  have hend : r.streamOut.inputEnded = true := by
    have hnext := h.sound.nextSeqno_eq (h.sound.fin hfin).1
    have hle := h.follows.written_le
    have hack := h.base
    by_contra hend
    simp only [Transcript.stop, TCPSender.transcript, hfin, Bool.toNat_true] at hnext hle
    simp only [TCPReceiver.absoluteAckno, Bool.eq_false_of_not_eq_true hend,
      Bool.toNat_false] at hack
    omega
  exact ⟨hend, (h.of_inputEnded hend).1⟩

/-- **An ended output has used up all numbers**, the FIN's included. -/
theorem nextSeqno_of_inputEnded (h : Channel accepted consumed s r)
    (hend : r.streamOut.inputEnded = true) :
    s.finFlag = true ∧ s.nextSeqno = r.absoluteAckno := by
  have hfin : (s.transcript accepted).fin = true := (h.follows.of_inputEnded hend).1
  have hnext := h.sound.nextSeqno_eq (h.sound.fin hfin).1
  refine ⟨hfin, ?_⟩
  rw [hnext, Transcript.stop, hfin, TCPReceiver.absoluteAckno, hend,
    h.follows.written_eq_of_inputEnded hend, Nat.add_comm 1]

end Channel
