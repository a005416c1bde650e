import Sponge.Lib.Reach
import Sponge.Receiver.Arrivals

/-!
# Receiver/Calls — a receiver among arbitrary callers

A receiver is handed any segments by the network while its stream is read, popped from and, when the
connection breaks, marked as broken.  Whatever the order, the base that `segment_received` checks
against is the `ackno` that is advertised (`Based`), and as long as nobody pops more than there is,
neither the `ackno` nor the right edge of the window goes back (`call_advances`).

A segment without FIN that lies outside the window is dropped without a trace.  One with a FIN is
not: the FIN is noted before anything is checked, and the next one is refused (`outside_dropped`).
-/

open Word64

/-- A call on a receiver, or on its stream. -/
inductive ReceiverCall
  | segmentReceived (seg : TCPSegment)
  | read (len : ℕ)
  | pop (len : ℕ)
  | setError

namespace TCPReceiver

variable {r r' : TCPReceiver} {seg : TCPSegment} {capacity : UInt64}

/-- `stream_out().set_error()`. -/
def setError (r : TCPReceiver) : TCPReceiver :=
  { r with reassembler := { r.reassembler with output := r.streamOut.setError } }

/-- One call; `none` if it throws. -/
def call (r : TCPReceiver) : ReceiverCall → Option TCPReceiver
  | .segmentReceived seg => r.segmentReceived seg
  | .read len => some (r.readOut len)
  | .pop len => some (r.popOut len)
  | .setError => some r.setError

/-! ## The base -/

/-- **The base is the `ackno`**, and nothing has come in before the SYN. -/
structure Based (r : TCPReceiver) : Prop where
  base : r.syn = true → r.recvBase = r.absoluteAckno
  idle : r.syn = false → r.streamOut.bytesWritten = 0 ∧ r.streamOut.inputEnded = false

namespace Based

theorem new (capacity : UInt64) : (TCPReceiver.new capacity).Based :=
  ⟨nofun, fun _ => ⟨rfl, rfl⟩⟩

theorem segmentReceived (h : r.Based) (hr : r.segmentReceived seg = some r') : r'.Based := by
  obtain ⟨r₀, hopens, rfl | ⟨hsyn, index, hasm⟩⟩ := segmentReceived_arrives hr
  · have hack : r'.absoluteAckno = r.absoluteAckno := by
      simp only [absoluteAckno, streamOut, hopens.reassembler]
    refine ⟨fun hsyn => ?_, fun hsyn => ?_⟩
    · rw [hack]
      cases hrs : r.syn with
      | true => exact (hopens.kept hrs).2.trans (h.base hrs)
      | false => simp [hopens.first hrs hsyn, absoluteAckno, h.idle hrs]
    · rw [streamOut, hopens.reassembler]
      rw [hopens.syn, Bool.or_eq_false_iff] at hsyn
      exact h.idle hsyn.1
  · obtain ⟨ra, -, rfl⟩ := Option.map_eq_some_iff.mp hasm
    exact ⟨fun _ => rfl, fun hno => by cases hno.symm.trans hsyn⟩

theorem call {op : ReceiverCall} (h : r.Based) (hr : r.call op = some r') : r'.Based := by
  cases op with
  | segmentReceived seg => exact h.segmentReceived hr
  | read | pop | setError =>
    obtain rfl := Option.some.inj hr
    exact ⟨h.base, h.idle⟩

end Based

theorem reach_based (h : Reach call (fun _ _ => True) (.new capacity) r) : r.Based :=
  h.invariant (.new capacity) fun _ _ _ ih _ hr => ih.call hr

/-! ## The right edge -/

/-- **The window is what the stream has room for**, and no pop has taken more than there was. -/
structure Within (r : TCPReceiver) : Prop where
  bounded : r.streamOut.Bounded
  cap : r.streamOut.cap = r.capacity

theorem Within.windowSize_eq (h : r.Within) :
    r.streamOut.totalRead ≤ r.streamOut.bytesWritten ∧
      r.streamOut.bytesWritten - r.streamOut.totalRead ≤ r.capacity ∧
      r.windowSize = r.capacity - (r.streamOut.bytesWritten - r.streamOut.totalRead) := by
  have hcount := h.bounded.count
  have hle := h.bounded.buf_le
  have hcap := h.bounded.cap_lt
  rw [h.cap] at hle hcap
  rw [windowSize, ByteStream.bufferSize, sub64_eq hle (by omega)]
  omega

/-- A later state of a receiver: the SYN stays as it is, and the counters do not go back. -/
structure Advances (r r' : TCPReceiver) : Prop where
  within : r'.Within
  capacity : r'.capacity = r.capacity
  syn : r.syn = true → r'.syn = true ∧ r'.isn = r.isn
  written : r.streamOut.bytesWritten ≤ r'.streamOut.bytesWritten
  read : r.streamOut.totalRead ≤ r'.streamOut.totalRead
  ended : r.streamOut.inputEnded = true → r'.streamOut.inputEnded = true

theorem Advances.refl (h : r.Within) : Advances r r :=
  ⟨h, rfl, fun hsyn => ⟨hsyn, rfl⟩, le_rfl, le_rfl, id⟩

/-- **Neither the `ackno` nor the right edge goes back**, whatever part of the window `limit` lets
through. -/
theorem Advances.edge (h : Advances r r') (hr : r.Within) (limit : ℕ) :
    r.absoluteAckno ≤ r'.absoluteAckno ∧
      r.absoluteAckno + min r.windowSize limit ≤ r'.absoluteAckno + min r'.windowSize limit := by
  obtain ⟨hread, hle, hwin⟩ := hr.windowSize_eq
  obtain ⟨hread', hle', hwin'⟩ := h.within.windowSize_eq
  have hended : r.streamOut.inputEnded.toNat ≤ r'.streamOut.inputEnded.toNat := by
    cases hend : r.streamOut.inputEnded with
    | false => exact Nat.zero_le _
    | true => rw [h.ended hend]
  have hwritten := h.written
  have hreads := h.read
  rw [h.capacity] at hle' hwin'
  rw [absoluteAckno, absoluteAckno, hwin, hwin']
  omega

theorem segmentReceived_advances (h : r.Within) (hr : r.segmentReceived seg = some r') :
    Advances r r' := by
  obtain ⟨⟨hbounded, hcap, hread, hwritten, hended⟩, -⟩ := segmentReceived_induction
    (P := fun s => s.Bounded ∧ s.cap = r.capacity ∧ s.totalRead = r.streamOut.totalRead ∧
      r.streamOut.bytesWritten ≤ s.bytesWritten ∧
      (r.streamOut.inputEnded = true → s.inputEnded = true))
    (fun s data hs => ⟨hs.1.write data, hs.2.1, hs.2.2.1, hs.2.2.2.1.trans (Nat.le_add_right _ _),
      hs.2.2.2.2⟩)
    (fun s hs => ⟨hs.1.endInput, hs.2.1, hs.2.2.1, hs.2.2.2.1, fun _ => rfl⟩)
    ⟨h.bounded, h.cap, rfl, le_rfl, id⟩ hr
  -- the fields beside the reassembler
  obtain ⟨hcapacity, hsyn⟩ : r'.capacity = r.capacity ∧
      (r.syn = true → r'.syn = true ∧ r'.isn = r.isn) := by
    obtain ⟨r₀, hopens, rfl | ⟨-, index, hasm⟩⟩ := segmentReceived_arrives hr
    · exact ⟨hopens.capacity, fun hs => ⟨by simp [hopens.syn, hs], (hopens.kept hs).1⟩⟩
    · obtain ⟨ra, -, rfl⟩ := Option.map_eq_some_iff.mp hasm
      exact ⟨hopens.capacity, fun hs => ⟨by simp [hopens.syn, hs], (hopens.kept hs).1⟩⟩
  exact ⟨⟨hbounded, hcap.trans hcapacity.symm⟩, hcapacity, hsyn, hwritten, hread.ge, hended⟩

/-- **A call only advances a receiver** unless it pops more than there is. -/
theorem call_advances {op : ReceiverCall} (h : r.Within)
    (hpop : ∀ len, op = .pop len → len ≤ r.streamOut.bufferSize) (hr : r.call op = some r') :
    Advances r r' := by
  cases op with
  | segmentReceived seg => exact segmentReceived_advances h hr
  | read len =>
    obtain rfl := Option.some.inj hr
    refine ⟨⟨h.bounded.read len, h.cap⟩, rfl, fun hsyn => ⟨hsyn, rfl⟩, le_rfl, ?_, id⟩
    exact Nat.le_add_right _ _
  | pop len =>
    obtain rfl := Option.some.inj hr
    refine ⟨⟨h.bounded.popOutput (hpop len rfl), h.cap⟩, rfl, fun hsyn => ⟨hsyn, rfl⟩, le_rfl, ?_,
      id⟩
    exact Nat.le_add_right _ _
  | setError =>
    obtain rfl := Option.some.inj hr
    exact ⟨⟨h.bounded.setError, h.cap⟩, rfl, fun hsyn => ⟨hsyn, rfl⟩, le_rfl, le_rfl, id⟩

/-! ## Segments outside the window -/

/-- All numbers of the segment come before the `ackno`, or it starts beyond the right edge. -/
def Outside (r : TCPReceiver) (seg : TCPSegment) : Prop :=
  unwrap seg.header.seqno r.isn r.streamOut.bytesWritten + seg.lengthInSequenceSpace ≤
      r.absoluteAckno ∨
    r.absoluteAckno + r.windowSize < unwrap seg.header.seqno r.isn r.streamOut.bytesWritten

instance (r : TCPReceiver) (seg : TCPSegment) : Decidable (r.Outside seg) :=
  inferInstanceAs (Decidable (_ ∨ _))

/-- The window check of `segment_received` turns away what lies outside. -/
theorem Outside.check (h : r.Outside seg) (hbase : r.recvBase = r.absoluteAckno) :
    add64 r.recvBase r.windowSize ≤ unwrap seg.header.seqno r.isn r.streamOut.bytesWritten ∨
      add64 (unwrap seg.header.seqno r.isn r.streamOut.bytesWritten) seg.lengthInSequenceSpace ≤
        r.recvBase := by
  rw [hbase]
  rcases h with hold | hfar
  · exact Or.inr ((Nat.mod_le _ _).trans hold)
  · exact Or.inl ((Nat.mod_le _ _).trans hfar.le)

/-- **When a segment outside the window is dropped.**  In every state reached, a segment without SYN
that uses sequence numbers and lies outside the window leaves the receiver as it is exactly if it
has no FIN or a FIN has been seen before. -/
theorem outside_dropped (h : Reach call (fun _ _ => True) (.new capacity) r)
    (hack : r.ackno.isSome = true) (hsyn : seg.header.syn = false)
    (hlen : 0 < seg.lengthInSequenceSpace) (hout : r.Outside seg) :
    r.segmentReceived seg = some r ↔ seg.header.fin = false ∨ r.fin = true := by
  have hopen : r.syn = true := by
    by_contra hno
    simp [ackno, hno] at hack
  have hdrop := hout.check ((reach_based h).base hopen)
  simp only [segmentReceived, receiveAt, hsyn, hopen, Bool.not_true, Bool.false_eq_true, if_false,
    hlen.ne', if_pos hdrop]
  cases hfin : seg.header.fin with
  | false => simp
  | true =>
    cases hrf : r.fin with
    | true => simp
    | false =>
      simp only [if_true, Bool.false_eq_true, if_false, reduceCtorEq, or_self, iff_false]
      -- the flag alone tells the two states apart
      intro hasm
      obtain ⟨ra, -, heq⟩ := Option.map_eq_some_iff.mp hasm
      have htrue : r.fin = true := by rw [← heq]
      cases hrf.symm.trans htrue

/-- An old segment and one far beyond the window are dropped. -/
theorem outside_dropped_run : ∃ r, Reach call (fun _ _ => True) (.new 4) r ∧
    r.ackno = some ⟨3⟩ ∧
    r.segmentReceived { header := { seqno := ⟨1⟩ }, payload := [98] } = some r ∧
    r.segmentReceived { header := { seqno := ⟨9⟩ }, payload := [98] } = some r := by
  obtain ⟨r, hr, hp⟩ := exists_reach_of_exec call (fun _ _ => True) (.new 4)
    [.segmentReceived { header := { syn := true, seqno := ⟨0⟩ } },
      .segmentReceived { header := { seqno := ⟨1⟩ }, payload := [97, 98] }]
    (fun r => r.ackno == some ⟨3⟩ &&
      decide (r.Outside { header := { seqno := ⟨1⟩ }, payload := [98] }) &&
      decide (r.Outside { header := { seqno := ⟨9⟩ }, payload := [98] })) (by decide)
  simp only [Bool.and_eq_true, beq_iff_eq, decide_eq_true_iff] at hp
  obtain ⟨⟨hack, hold⟩, hfar⟩ := hp
  refine ⟨r, hr, hack, ?_, ?_⟩
  · exact (outside_dropped hr (by simp [hack]) rfl (by decide) hold).mpr (Or.inl rfl)
  · exact (outside_dropped hr (by simp [hack]) rfl (by decide) hfar).mpr (Or.inl rfl)

/-- A FIN from far beyond the window is noted, and the FIN that is due is then refused. -/
theorem outside_fin_noted : ∃ r, Reach call (fun _ _ => True) (.new 4) r ∧
    r.ackno = some ⟨1⟩ ∧ r.Outside { header := { fin := true, seqno := ⟨9⟩ } } ∧
    ∃ r', r.segmentReceived { header := { fin := true, seqno := ⟨9⟩ } } = some r' ∧ r' ≠ r ∧
      r'.segmentReceived { header := { fin := true, seqno := ⟨1⟩ } } = some r' := by
  obtain ⟨r, hr, hp⟩ := exists_reach_of_exec call (fun _ _ => True) (.new 4)
    [.segmentReceived { header := { syn := true, seqno := ⟨0⟩ } }]
    (fun r => r.ackno == some ⟨1⟩ &&
      decide (r.Outside { header := { fin := true, seqno := ⟨9⟩ } }) &&
      (r.segmentReceived { header := { fin := true, seqno := ⟨9⟩ } }).any fun r' => r' != r &&
        r'.segmentReceived { header := { fin := true, seqno := ⟨1⟩ } } == some r') (by decide)
  simp only [Bool.and_eq_true, beq_iff_eq, bne_iff_ne, decide_eq_true_iff,
    Option.any_eq_true] at hp
  obtain ⟨⟨hack, hout⟩, r', hr', hne, hrefused⟩ := hp
  exact ⟨r, hr, hack, hout, r', hr', hne, hrefused⟩

end TCPReceiver
