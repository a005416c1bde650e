import Sponge.Reassembler.Push
import Sponge.Receiver.Model

/-!
# Receiver/Follows — a receiver fed the segments of one transcript

`Follows t consumed r` is the receiver's side of one direction of a connection: everything the
receiver has written or holds comes from the transcript `t`, `consumed` is what its reader has
taken, and its own `ackno` and base are those of the bytes written.  It is kept by every segment
that `t` carries and whose absolute number is near the receiver's checkpoint
(`Follows.segmentReceived`), and it goes through when the transcript grows (`Follows.mono`).

`segmentReceived_cases` says once what an arriving segment does: nothing, the SYN, or a push into
the reassembler.
-/

open Word64 Extent StreamReassembler

namespace TCPReceiver

variable {r r' : TCPReceiver} {t t' : Transcript} {consumed : Bytes} {a : ℕ} {seg : TCPSegment}

/-- **The receiver has followed the transcript.** -/
structure Follows (t : Transcript) (consumed : Bytes) (r : TCPReceiver) : Prop where
  wf : r.reassembler.Wf
  capacity : r.capacity = r.reassembler.capacity
  reads : r.reassembler.Reads t.sent consumed
  endsAt : r.reassembler.EndsAt t.sent.length
  eof : r.reassembler.eof = r.fin
  fin : r.fin = true → t.fin = true
  idle : r.syn = false → r.streamOut.bytesWritten = 0 ∧ r.fin = false
  isn : r.syn = true → r.isn = t.isn
  recvBase : r.syn = true → r.recvBase = r.absoluteAckno

namespace Follows

theorem new (t : Transcript) (capacity : UInt64) : Follows t [] (.new capacity) where
  wf := .new capacity
  capacity := rfl
  reads := .new t.sent capacity
  endsAt := ⟨by simp [TCPReceiver.new, StreamReassembler.new],
    by simp [TCPReceiver.new, StreamReassembler.new, ByteStream.new]⟩
  eof := rfl
  fin := by simp [TCPReceiver.new]
  idle _ := ⟨rfl, rfl⟩
  isn := by simp [TCPReceiver.new]
  recvBase := by simp [TCPReceiver.new]

/-- **The receiver stays in step while the transcript grows.** -/
theorem mono (h : Follows t consumed r) (hle : t.Le t') : Follows t' consumed r where
  wf := h.wf
  capacity := h.capacity
  reads := h.reads.mono hle.sent
  endsAt := by
    cases hf : r.fin with
    | false =>
      have heof : r.reassembler.eof = false := h.eof.trans hf
      exact ⟨by simp [heof], by simp [h.endsAt.ended, heof]⟩
    | true =>
      rw [(hle.fin (h.fin hf)).2]
      exact h.endsAt
  eof := h.eof
  fin hf := (hle.fin (h.fin hf)).1
  idle := h.idle
  isn hs := (h.isn hs).trans hle.isn.symm
  recvBase := h.recvBase

theorem written_le (h : Follows t consumed r) : r.streamOut.bytesWritten ≤ t.sent.length :=
  h.reads.written_le h.wf

/-- What has been written is the beginning of what has been sent. -/
theorem isPrefix (h : Follows t consumed r) : consumed ++ r.streamOut.buf <+: t.sent := h.reads.text

/-- **The output ends only where the stream does.** -/
theorem of_inputEnded (h : Follows t consumed r) (hend : r.streamOut.inputEnded = true) :
    t.fin = true ∧ consumed ++ r.streamOut.buf = t.sent := by
  have hE := h.endsAt.ended
  rw [show r.reassembler.output.inputEnded = true from hend, eq_comm, Bool.and_eq_true,
    decide_eq_true_iff] at hE
  refine ⟨h.fin (h.eof ▸ hE.1), ?_⟩
  have heq := h.reads.written_eq h.wf
  rwa [hE.2, List.take_length] at heq

theorem written_eq_of_inputEnded (h : Follows t consumed r) (hend : r.streamOut.inputEnded = true) :
    r.streamOut.bytesWritten = t.sent.length := by
  rw [← (h.of_inputEnded hend).2]
  exact (h.reads.length_written h.wf).symm

/-- **Only what has been sent is acknowledged.** -/
theorem absoluteAckno_le (h : Follows t consumed r) : r.absoluteAckno ≤ t.stop := by
  have hle := h.written_le
  unfold absoluteAckno Transcript.stop
  cases hend : r.streamOut.inputEnded with
  | false => simp only [Bool.toNat_false]; omega
  | true => rw [(h.of_inputEnded hend).1]; omega

theorem readOut (h : Follows t consumed r) (len : ℕ) :
    Follows t (consumed ++ (r.streamOut.read len).1) (r.readOut len) where
  wf := h.wf.read len
  capacity := h.capacity
  reads := h.reads.read len
  endsAt := h.endsAt.read len
  eof := h.eof
  fin := h.fin
  idle := h.idle
  isn := h.isn
  recvBase := h.recvBase

end Follows

/-! ## An arriving segment -/

/-- The segment passes the receiver's checks and goes to the reassembler. -/
structure Accepted (a : ℕ) (seg : TCPSegment) (r : TCPReceiver) : Prop where
  syn : r.syn = true
  pos : 1 ≤ a
  length : 0 < seg.lengthInSequenceSpace
  /-- a FIN is taken in only once -/
  fresh : seg.header.fin = true → r.fin = false
  /-- without FIN it lies in the window, as the code computes its edges -/
  window : seg.header.fin = false → a < add64 r.recvBase r.windowSize ∧
    r.recvBase < add64 a seg.lengthInSequenceSpace

/-- The receiver once the reassembler has taken a payload in. -/
def advance (r : TCPReceiver) (fin : Bool) (ra : StreamReassembler) : TCPReceiver :=
  { r with
    reassembler := ra
    fin := r.fin || fin
    recvBase := ra.output.bytesWritten + 1 + ra.output.inputEnded.toNat }

/-- Why a segment that is not the first SYN is left alone. -/
inductive Ignored (a : ℕ) (seg : TCPSegment) (r : TCPReceiver) : Prop
  | syn (h : seg.header.syn = true)
  | closed (h : r.syn = false)
  | fin (h : seg.header.fin = true) (hr : r.fin = true)
  | empty (h : seg.lengthInSequenceSpace = 0)
  | beyond (hfin : seg.header.fin = false) (h : add64 r.recvBase r.windowSize ≤ a)
  | before (hfin : seg.header.fin = false) (h : add64 a seg.lengthInSequenceSpace ≤ r.recvBase)

/-- A segment without flags or payload passes the receiver by. -/
theorem receiveAt_of_length_eq_zero (r : TCPReceiver) (seqno : WrappingInt32)
    (h : seg.lengthInSequenceSpace = 0) : r.receiveAt seqno seg = some r := by
  have hfin : seg.header.fin = false := by
    cases hf : seg.header.fin with
    | false => rfl
    | true => simp [TCPSegment.lengthInSequenceSpace, hf] at h
  simp only [receiveAt, hfin, Bool.false_eq_true, if_false, if_pos h]

/-- **What an arriving segment does**: nothing, the SYN, or a push at the place its absolute number
says. -/
theorem segmentReceived_cases (h : Follows t consumed r) (hseg : t.Carries a seg)
    (hnear : Near a r.streamOut.bytesWritten) (hfit : t.stop < 2 ^ 64) :
    (Ignored a seg r ∧ r.segmentReceived seg = some r) ∨
    (r.syn = false ∧ seg.header.syn = true ∧
      r.segmentReceived seg = some { r with syn := true, isn := t.isn, recvBase := 1 }) ∨
    (Accepted a seg r ∧ r.segmentReceived seg =
      (r.reassembler.pushSubstring seg.payload (a - 1) seg.header.fin).map
        (r.advance seg.header.fin)) := by
  have hstop := hseg.le_stop
  obtain ⟨hseqno, ⟨hsyn, rfl, hfin, hpay⟩ | ⟨hsyn, hpos, hpay, hfin⟩⟩ := hseg
  · have hlen : seg.lengthInSequenceSpace = 1 := by
      simp [TCPSegment.lengthInSequenceSpace, hsyn, hfin, hpay]
    rw [segmentReceived, if_pos hsyn, if_pos hlen, hseqno, wrap_zero]
    cases hrs : r.syn with
    | false => exact Or.inr (Or.inl ⟨rfl, hsyn, rfl⟩)
    | true => exact Or.inl ⟨.syn hsyn, rfl⟩
  · rw [segmentReceived, if_neg (by simp [hsyn])]
    split_ifs with hrs
    · exact Or.inl ⟨.closed (by simpa using hrs), rfl⟩
    replace hrs : r.syn = true := by simpa using hrs
    by_cases hlen : seg.lengthInSequenceSpace = 0
    · exact Or.inl ⟨.empty hlen, receiveAt_of_length_eq_zero r _ hlen⟩
    have ha : 1 ≤ a := hpos.resolve_left hlen
    have hlt : a < 2 ^ 64 := by
      have := hstop (Nat.pos_of_ne_zero hlen)
      omega
    have habs : unwrap seg.header.seqno r.isn r.streamOut.bytesWritten = a := by
      rw [hseqno, h.isn hrs, unwrap_wrap t.isn hlt hnear]
    simp only [receiveAt, habs, assemble, sub64_eq ha (by omega : a - 1 < 2 ^ 64)]
    split_ifs with hf hrf hout
    · exact Or.inl ⟨.fin hf hrf, rfl⟩
    · refine Or.inr (Or.inr ⟨⟨hrs, ha, Nat.pos_of_ne_zero hlen, fun _ => by simpa using hrf,
        fun hno => by cases hf.symm.trans hno⟩, ?_⟩)
      exact congrArg (Option.map · _) (funext fun ra => by simp only [hf, advance, Bool.or_true])
    · have hno : seg.header.fin = false := by simpa using hf
      exact Or.inl ⟨hout.elim (.beyond hno) (.before hno), rfl⟩
    · rw [not_or, not_le, not_le] at hout
      refine Or.inr (Or.inr ⟨⟨hrs, ha, Nat.pos_of_ne_zero hlen, fun hf' => absurd hf' hf,
        fun _ => hout⟩, ?_⟩)
      rw [Bool.eq_false_of_not_eq_true hf]
      exact congrArg (Option.map · _) (funext fun ra => by simp only [advance, Bool.or_false])

/-- An accepted segment of the transcript is a stretch of its bytes. -/
theorem Accepted.carried (hp : Accepted a seg r) (hseg : t.Carries a seg) :
    Of t.sent ⟨seg.payload, a - 1⟩ ∧
      (seg.header.fin = true → t.fin = true ∧ a - 1 + seg.payload.length = t.sent.length) := by
  obtain ⟨-, ⟨-, rfl, -⟩ | ⟨-, -, hpay, hfin⟩⟩ := hseg
  · exact absurd hp.pos (by omega)
  · exact ⟨hpay, hfin⟩

/-- The end of an accepted payload is in 64 bits. -/
theorem Accepted.end_lt (hp : Accepted a seg r) (hseg : t.Carries a seg) (hfit : t.stop < 2 ^ 64) :
    a - 1 + seg.payload.length < 2 ^ 64 := by
  have := hseg.payload_le hp.length
  unfold Transcript.stop at hfit
  omega

/-- The first SYN fixes the initial sequence number. -/
theorem Follows.synReceived (h : Follows t consumed r) (hrs : r.syn = false) :
    Follows t consumed { r with syn := true, isn := t.isn, recvBase := 1 } where
  wf := h.wf
  capacity := h.capacity
  reads := h.reads
  endsAt := h.endsAt
  eof := h.eof
  fin := h.fin
  idle := by simp
  isn _ := rfl
  recvBase _ := by
    obtain ⟨hwr, hfin⟩ := h.idle hrs
    have hend : r.streamOut.inputEnded = false := by
      rw [streamOut, h.endsAt.ended, h.eof, hfin, Bool.false_and]
    change 1 = r.streamOut.bytesWritten + 1 + r.streamOut.inputEnded.toNat
    rw [hwr, hend]
    rfl

/-- A payload of the transcript is stored as far as the acceptance limit goes. -/
theorem Follows.advance (h : Follows t consumed r) (hseg : t.Carries a seg)
    (hacc : Accepted a seg r) (hfit : t.stop < 2 ^ 64) {ra : StreamReassembler}
    (hra : r.reassembler.pushSubstring seg.payload (a - 1) seg.header.fin = some ra) :
    Follows t consumed (r.advance seg.header.fin ra) := by
  obtain ⟨hof, hfin⟩ := hacc.carried hseg
  have hlt := hacc.end_lt hseg hfit
  obtain ⟨n, r₁, hst, -, rfl⟩ := pushSubstring_stored h.wf (Or.inl hlt) hra
  have hreads := h.reads.stored h.wf hst (Excerpt.take hof n)
  have heof : seg.header.fin = true → add64 (a - 1) seg.payload.length = t.sent.length := by
    intro hf
    rw [add64_eq hlt]
    exact (hfin hf).2
  have hends := h.endsAt.push hst (hreads.written_le hst.wf) heof
  exact {
    wf := hst.wf.judgeEof _ _ _
    capacity := by rw [TCPReceiver.advance, judgeEof_capacity, hst.capacity]; exact h.capacity
    reads := hreads.judgeEof _ _ _
    endsAt := hends
    eof := by rw [TCPReceiver.advance, judgeEof_eof, hst.eof.1, h.eof]
    fin := by
      rw [TCPReceiver.advance, Bool.or_eq_true]
      exact fun hf => hf.elim h.fin fun hf => (hfin hf).1
    idle := fun hs => by cases hs.symm.trans hacc.syn
    isn := h.isn
    recvBase := fun _ => rfl }

/-- **A segment of the transcript keeps the receiver in step.** -/
theorem Follows.segmentReceived (h : Follows t consumed r) (hseg : t.Carries a seg)
    (hnear : Near a r.streamOut.bytesWritten) (hfit : t.stop < 2 ^ 64)
    (hr : r.segmentReceived seg = some r') : Follows t consumed r' := by
  obtain ⟨-, heq⟩ | ⟨hrs, -, heq⟩ | ⟨hacc, heq⟩ := segmentReceived_cases h hseg hnear hfit
  · obtain rfl := Option.some.inj (heq.symm.trans hr)
    exact h
  · obtain rfl := Option.some.inj (heq.symm.trans hr)
    exact h.synReceived hrs
  · obtain ⟨ra, hra, rfl⟩ := Option.map_eq_some_iff.mp (heq.symm.trans hr)
    exact h.advance hseg hacc hfit hra

/-- What an arriving segment keeps; it takes nothing back. -/
structure Grows (r r' : TCPReceiver) : Prop where
  capacity : r'.capacity = r.capacity
  syn : r.syn = true → r'.syn = true
  bytesWritten : r.streamOut.bytesWritten ≤ r'.streamOut.bytesWritten
  absoluteAckno : r.absoluteAckno ≤ r'.absoluteAckno

theorem segmentReceived_frame (h : Follows t consumed r) (hseg : t.Carries a seg)
    (hnear : Near a r.streamOut.bytesWritten) (hfit : t.stop < 2 ^ 64)
    (hr : r.segmentReceived seg = some r') : Grows r r' := by
  obtain ⟨-, heq⟩ | ⟨hrs, -, heq⟩ | ⟨hacc, heq⟩ := segmentReceived_cases h hseg hnear hfit
  · obtain rfl := Option.some.inj (heq.symm.trans hr)
    exact ⟨rfl, id, le_rfl, le_rfl⟩
  · obtain rfl := Option.some.inj (heq.symm.trans hr)
    exact ⟨rfl, fun _ => rfl, le_rfl, le_rfl⟩
  · obtain ⟨ra, hra, rfl⟩ := Option.map_eq_some_iff.mp (heq.symm.trans hr)
    obtain ⟨n, r₁, hst, -, rfl⟩ :=
      pushSubstring_stored h.wf (Or.inl (hacc.end_lt hseg hfit)) hra
    have hwritten : r.streamOut.bytesWritten ≤
        (r₁.judgeEof seg.payload (a - 1) seg.header.fin).output.bytesWritten :=
      hst.written_le.trans (judgeEof_bytesWritten ..).ge
    refine ⟨rfl, id, hwritten, ?_⟩
    -- an output that has ended stays so
    have hended : r.streamOut.inputEnded.toNat ≤
        (r₁.judgeEof seg.payload (a - 1) seg.header.fin).output.inputEnded.toNat := by
      rw [judgeEof_inputEnded, hst.inputEnded, streamOut]
      cases r.reassembler.output.inputEnded <;> simp
    simp only [absoluteAckno]
    exact Nat.add_le_add (Nat.add_le_add_right hwritten 1) hended

end TCPReceiver
