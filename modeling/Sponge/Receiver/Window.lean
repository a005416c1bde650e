import Sponge.Lib.Reach
import Sponge.Receiver.Follows

/-!
# Receiver/Window — what the advertised window promises

A receiver is fed the SYN and segments of one text in any order, with any repetition and cut in any
way, while its reader reads.  The window it advertises promises that payload below the right edge
`ackno + window_size()` is taken in.  Two kinds of segments are left out (`Refuses`): one with FIN
that arrives when a FIN has been seen before is dropped with its payload, even if the first copy was
cut at the edge of a window that has moved since; and for a capacity close to `2 ^ 64` the sums that
the code takes for the right edge wrap around.  The promise is kept by all others
(`window_promise`).
-/

open Word64 Extent StreamReassembler

namespace TCPReceiver

/-- A segment arrives, sent at absolute number `a`, or the reader reads. -/
inductive Event
  | segment (a : ℕ) (seg : TCPSegment)
  | read (len : ℕ)

def step (r : TCPReceiver) : Event → Option TCPReceiver
  | .segment _ seg => r.segmentReceived seg
  | .read len => some (r.readOut len)

/-- The segment belongs to the text and its absolute number is near the checkpoint. -/
def Arrives (t : Transcript) (r : TCPReceiver) : Event → Prop
  | .segment a seg => t.Carries a seg ∧ Near a r.streamOut.bytesWritten
  | .read _ => True

instance (t : Transcript) (r : TCPReceiver) (e : Event) : Decidable (Arrives t r e) :=
  match e with
  | .segment .. => inferInstanceAs (Decidable (_ ∧ _))
  | .read _ => inferInstanceAs (Decidable True)

variable {t : Transcript} {capacity : UInt64} {r r' : TCPReceiver} {consumed : Bytes} {a : ℕ}
  {seg : TCPSegment}

/-- Every run on a text follows it. -/
theorem reach_follows (hfit : t.stop < 2 ^ 64) (h : Reach step (Arrives t) (.new capacity) r) :
    (∃ consumed, r.Follows t consumed) ∧ r.capacity = capacity.toNat := by
  refine h.invariant
    (I := fun r => (∃ consumed, r.Follows t consumed) ∧ r.capacity = capacity.toNat)
    ⟨⟨[], .new t capacity⟩, rfl⟩ ?_
  rintro r e r' ⟨⟨consumed, hf⟩, hcap⟩ hok hstep
  cases e with
  | segment a seg =>
    exact ⟨⟨consumed, hf.segmentReceived hok.1 hok.2 hfit hstep⟩,
      (segmentReceived_frame hf hok.1 hok.2 hfit hstep).capacity.trans hcap⟩
  | read len =>
    obtain rfl := Option.some.inj hstep
    exact ⟨⟨_, hf.readOut len⟩, hcap⟩

/-- Every payload byte of the segment below `limit` has been written or is pending. -/
def TakenIn (r : TCPReceiver) (a : ℕ) (seg : TCPSegment) (limit : ℕ) : Prop :=
  ∀ j, a - 1 ≤ j → j < a - 1 + seg.payload.length → j < limit → r.reassembler.Held j

/-- The right edge of the advertised window is the acceptance limit of the reassembler, seen as a
sequence number. -/
theorem Follows.rightEdge (h : r.Follows t consumed) :
    r.absoluteAckno + r.windowSize =
      r.reassembler.edge + 1 + r.streamOut.inputEnded.toNat := by
  have hb := h.wf.bounded
  have := hb.count
  have := hb.buf_le
  have := h.wf.cap_eq
  have := h.wf.capacity_lt
  have := h.capacity
  rw [absoluteAckno, windowSize, streamOut, ByteStream.bufferSize, edge,
    sub64_eq (by omega) (by omega)]
  omega

/-- No more has been read than there is, so `bytes_read()` has not wrapped. -/
theorem Follows.bytesRead_eq (h : r.Follows t consumed) (hfit : t.stop < 2 ^ 64) :
    r.streamOut.bytesRead = r.streamOut.totalRead := by
  have hle := h.written_le
  have hcount := h.wf.bounded.count
  unfold Transcript.stop at hfit
  exact Nat.mod_eq_of_lt (by rw [streamOut] at hle ⊢; omega)

/-- The acceptance limit, in the receiver's terms. -/
theorem Follows.edge_eq (h : r.Follows t consumed) (hfit : t.stop < 2 ^ 64) :
    r.reassembler.edge = r.streamOut.bytesRead + r.capacity := by
  rw [h.bytesRead_eq hfit, h.capacity]
  rfl

/-- It is the sum of two `size_t` values. -/
theorem Follows.edge_lt (h : r.Follows t consumed) (hfit : t.stop < 2 ^ 64) :
    r.reassembler.edge < 2 ^ 64 + 2 ^ 64 := by
  have hcap := h.capacity ▸ h.wf.capacity_lt
  rw [h.edge_eq hfit]
  exact Nat.add_lt_add (Nat.mod_lt _ (Nat.two_pow_pos 64)) hcap

/-- **The payload is left out**: with a FIN, if a FIN has been seen before or the acceptance limit
`bytes_read() + capacity` leaves 64 bits; without one, if `_recv_base + window_size()` does. -/
def Refuses (r : TCPReceiver) (seg : TCPSegment) : Prop :=
  seg.header.fin = true ∧ (r.fin = true ∨ 2 ^ 64 ≤ r.streamOut.bytesRead + r.capacity) ∨
    seg.header.fin = false ∧ 2 ^ 64 ≤ r.recvBase + r.windowSize

/-- **The reassembler throws**: a first FIN comes with a payload that reaches what has been written
from below a limit that has wrapped around. -/
def Throws (r : TCPReceiver) (a : ℕ) (seg : TCPSegment) : Prop :=
  seg.header.fin = true ∧ r.fin = false ∧
    a - 1 + 2 ^ 64 < r.streamOut.bytesRead + r.capacity ∧
    r.streamOut.bytesWritten ≤ a - 1 + seg.payload.length

instance (r : TCPReceiver) (seg : TCPSegment) : Decidable (r.Refuses seg) :=
  inferInstanceAs (Decidable (_ ∨ _))

instance (r : TCPReceiver) (a : ℕ) (seg : TCPSegment) : Decidable (r.Throws a seg) :=
  inferInstanceAs (Decidable (_ ∧ _))

/-- Only a second FIN is refused while the right edge fits in 64 bits. -/
theorem Follows.not_refuses (h : r.Follows t consumed) (hfit : t.stop < 2 ^ 64)
    (hrs : r.syn = true) (hedge : r.absoluteAckno + r.windowSize < 2 ^ 64)
    (hfin : ¬ (seg.header.fin = true ∧ r.fin = true)) : ¬ r.Refuses seg := by
  have hright := h.rightEdge
  have hlimit := h.edge_eq hfit
  rintro (⟨hf, hrf | hover⟩ | ⟨-, hover⟩)
  · exact hfin ⟨hf, hrf⟩
  · omega
  · rw [h.recvBase hrs] at hover
    omega

/-- What is ignored for its position alone has nothing to offer. -/
theorem Follows.takenIn_of_ignored (h : r.Follows t consumed) (hseg : t.Carries a seg)
    (hfit : t.stop < 2 ^ 64) (hrs : r.syn = true) (hsyn : seg.header.syn = false)
    (hno : ¬ r.Refuses seg) (hig : Ignored a seg r) : r.TakenIn a seg r.reassembler.edge := by
  intro j hj hlt hlim
  have hpay : 0 < seg.payload.length := by omega
  have hlen : 0 < seg.lengthInSequenceSpace := by
    unfold TCPSegment.lengthInSequenceSpace
    omega
  have hright := h.rightEdge
  have hle := hseg.payload_le hlen
  have hstop := hseg.le_stop hlen
  have hone := hseg.one_le hsyn hlen
  cases hig with
  | syn h' => rw [hsyn] at h'; cases h'
  | closed h' => rw [hrs] at h'; cases h'
  | fin h' hr => exact absurd (Or.inl ⟨h', Or.inl hr⟩) hno
  | empty h' => omega
  | beyond hf h' =>
    have hedge : r.recvBase + r.windowSize < 2 ^ 64 := not_le.mp fun hover =>
      hno (Or.inr ⟨hf, hover⟩)
    rw [add64_eq hedge, h.recvBase hrs] at h'
    omega
  | before hf h' =>
    rw [h.recvBase hrs, add64_eq (by omega)] at h'
    left
    change j < r.streamOut.bytesWritten
    cases hend : r.streamOut.inputEnded with
    | false =>
      simp only [absoluteAckno, hend, TCPSegment.lengthInSequenceSpace, hsyn, hf,
        Bool.toNat_false] at h'
      omega
    | true =>
      -- an ended output holds the whole text
      have hall := h.written_eq_of_inputEnded hend
      omega

/-- A receiver that has its SYN ignores a segment or pushes its payload. -/
theorem Follows.ignored_or_accepted (h : r.Follows t consumed) (hseg : t.Carries a seg)
    (hnear : Near a r.streamOut.bytesWritten) (hfit : t.stop < 2 ^ 64) (hrs : r.syn = true) :
    (Ignored a seg r ∧ r.segmentReceived seg = some r) ∨
    (Accepted a seg r ∧ r.segmentReceived seg =
      (r.reassembler.pushSubstring seg.payload (a - 1) seg.header.fin).map
        (r.advance seg.header.fin)) := by
  obtain hig | ⟨hno, -, -⟩ | hacc := segmentReceived_cases h hseg hnear hfit
  · exact Or.inl hig
  · cases hno.symm.trans hrs
  · exact Or.inr hacc

/-- **Payload below the right edge is taken in**, unless it is left out. -/
theorem Follows.takesIn (h : r.Follows t consumed) (hseg : t.Carries a seg)
    (hnear : Near a r.streamOut.bytesWritten) (hfit : t.stop < 2 ^ 64) (hrs : r.syn = true)
    (hsyn : seg.header.syn = false) (hno : ¬ r.Refuses seg) :
    ∃ r', r.segmentReceived seg = some r' ∧ r'.TakenIn a seg r.reassembler.edge := by
  obtain ⟨hig, heq⟩ | ⟨hacc, heq⟩ := h.ignored_or_accepted hseg hnear hfit hrs
  · exact ⟨r, heq, h.takenIn_of_ignored hseg hfit hrs hsyn hno hig⟩
  · have hlt := hacc.end_lt hseg hfit
    have hedge : r.reassembler.edge < 2 ^ 64 := by
      rw [Refuses, not_or, not_and, not_and] at hno
      have hright := h.rightEdge
      have hlimit := h.edge_eq hfit
      have hbase := h.recvBase hrs
      cases hf : seg.header.fin with
      | true => exact hlimit ▸ not_le.mp fun hover => hno.1 hf (Or.inr hover)
      | false =>
        have := not_le.mp (hno.2 hf)
        omega
    obtain ⟨ra, hra⟩ : ∃ ra,
        r.reassembler.pushSubstring seg.payload (a - 1) seg.header.fin = some ra :=
      Option.isSome_iff_exists.mp (pushSubstring_isSome h.wf.written_le_edge hedge _ _ _)
    refine ⟨r.advance seg.header.fin ra, by rw [heq, hra]; rfl, fun j hj hlt' hlim => ?_⟩
    obtain ⟨n, r₁, hst, hn, rfl⟩ := pushSubstring_stored h.wf (Or.inl hlt) hra
    refine (held_judgeEof ..).mpr ((hst.held j).mpr (Or.inr ⟨hj, ?_⟩))
    rw [hn hedge]
    simp only [stop, List.length_take]
    omega

/-- What is held stays held. -/
theorem Follows.held_segmentReceived (h : r.Follows t consumed) (hseg : t.Carries a seg)
    (hnear : Near a r.streamOut.bytesWritten) (hfit : t.stop < 2 ^ 64)
    (hr : r.segmentReceived seg = some r') {j : ℕ} (hj : r.reassembler.Held j) :
    r'.reassembler.Held j := by
  obtain ⟨-, heq⟩ | ⟨-, -, heq⟩ | ⟨hacc, heq⟩ := segmentReceived_cases h hseg hnear hfit
  · obtain rfl := Option.some.inj (heq.symm.trans hr)
    exact hj
  · obtain rfl := Option.some.inj (heq.symm.trans hr)
    exact hj
  · obtain ⟨ra, hra, rfl⟩ := Option.map_eq_some_iff.mp (heq.symm.trans hr)
    obtain ⟨n, r₁, hst, -, rfl⟩ := pushSubstring_stored h.wf (Or.inl (hacc.end_lt hseg hfit)) hra
    exact (held_judgeEof ..).mpr ((hst.held j).mpr (Or.inl hj))

/-! ## What is refused -/

/-- The pushed payload is in bounds of a limit that has wrapped around. -/
theorem Follows.inBounds_iff (h : r.Follows t consumed) (hfit : t.stop < 2 ^ 64)
    (hend : a - 1 + seg.payload.length < 2 ^ 64) (hover : 2 ^ 64 ≤ r.reassembler.edge) :
    r.reassembler.InBounds seg.payload (a - 1) ↔
      a - 1 + 2 ^ 64 < r.streamOut.bytesRead + r.capacity ∧
        r.streamOut.bytesWritten ≤ a - 1 + seg.payload.length := by
  have hlimit := h.edge_eq hfit
  have hlt := h.edge_lt hfit
  rw [InBounds, add64_eq hend, firstUnaccepted_eq_mod, and_comm]
  refine and_congr ?_ Iff.rfl
  omega

/-- A refused segment gets past the receiver's checks only if the acceptance limit has wrapped. -/
theorem Accepted.overflow (hacc : Accepted a seg r) (h : r.Follows t consumed)
    (hfit : t.stop < 2 ^ 64) (href : r.Refuses seg) : 2 ^ 64 ≤ r.reassembler.edge := by
  have hlimit := h.edge_eq hfit
  rcases href with ⟨hf, hrf | hover⟩ | ⟨hf, hover⟩
  · cases (hacc.fresh hf).symm.trans hrf
  · exact hlimit ▸ hover
  · -- otherwise the window check has wrapped to a number not above one
    have hpos := hacc.pos
    have hwin := (hacc.window hf).1
    have hright := h.rightEdge
    have hended := r.streamOut.inputEnded.toNat_le
    rw [h.recvBase hacc.syn] at hwin hover
    unfold add64 at hwin
    omega

/-- Without a FIN it would bring the byte at `ackno`. -/
theorem Accepted.reaches (hacc : Accepted a seg r) (h : r.Follows t consumed)
    (hseg : t.Carries a seg) (hfit : t.stop < 2 ^ 64) (hsyn : seg.header.syn = false)
    (hfin : seg.header.fin = false) (hover : 2 ^ 64 ≤ r.reassembler.edge) :
    a - 1 ≤ r.streamOut.bytesWritten ∧
      r.streamOut.bytesWritten < a - 1 + seg.payload.length := by
  have hpay := hseg.payload_le hacc.length
  have hlen : seg.lengthInSequenceSpace = seg.payload.length := by
    simp [TCPSegment.lengthInSequenceSpace, hsyn, hfin]
  have hstop := hseg.le_stop hacc.length
  obtain ⟨hlo, hhi⟩ := hacc.window hfin
  have hright := h.rightEdge
  have hlt := h.edge_lt hfit
  have hbelow := h.wf.firstUnaccepted_lt_written hover
  rw [firstUnaccepted_eq_mod] at hbelow
  change _ < r.streamOut.bytesWritten at hbelow
  rw [h.recvBase hacc.syn, add64_eq (by omega), hlen] at hhi
  rw [h.recvBase hacc.syn, add64, hright] at hlo
  cases hend : r.streamOut.inputEnded with
  | true =>
    -- an ended output has the whole text, and nothing reaches past it
    have hall := h.written_eq_of_inputEnded hend
    rw [absoluteAckno, hend, Bool.toNat_true] at hhi
    omega
  | false =>
    rw [absoluteAckno, hend, Bool.toNat_false] at hhi
    rw [hend, Bool.toNat_false] at hlo
    omega

/-- **A refused segment adds nothing.** -/
theorem Follows.held_of_refuses (h : r.Follows t consumed) (hseg : t.Carries a seg)
    (hnear : Near a r.streamOut.bytesWritten) (hfit : t.stop < 2 ^ 64) (hrs : r.syn = true)
    (href : r.Refuses seg) (hr : r.segmentReceived seg = some r') {j : ℕ}
    (hj : r'.reassembler.Held j) : r.reassembler.Held j := by
  obtain ⟨-, heq⟩ | ⟨hacc, heq⟩ := h.ignored_or_accepted hseg hnear hfit hrs
  · obtain rfl := Option.some.inj (heq.symm.trans hr)
    exact hj
  · obtain ⟨ra, hra, rfl⟩ := Option.map_eq_some_iff.mp (heq.symm.trans hr)
    rw [h.wf.pushSubstring_of_overflow (hacc.overflow h hfit href) (hacc.end_lt hseg hfit)] at hra
    split_ifs at hra
    obtain rfl := Option.some.inj hra
    exact (held_judgeEof ..).mp hj

/-- Where the reassembler throws, the call does not return. -/
theorem Follows.segmentReceived_of_throws (h : r.Follows t consumed) (hseg : t.Carries a seg)
    (hnear : Near a r.streamOut.bytesWritten) (hfit : t.stop < 2 ^ 64) (hrs : r.syn = true)
    (hsyn : seg.header.syn = false) (hthrow : r.Throws a seg) : r.segmentReceived seg = none := by
  obtain ⟨hf, hrf, hbounds⟩ := hthrow
  obtain ⟨hig, -⟩ | ⟨hacc, heq⟩ := h.ignored_or_accepted hseg hnear hfit hrs
  · -- none of the reasons to ignore a segment is one for a first FIN
    cases hig with
    | syn h' => cases hsyn.symm.trans h'
    | closed h' => cases h'.symm.trans hrs
    | fin _ h' => cases hrf.symm.trans h'
    | empty h' => simp [TCPSegment.lengthInSequenceSpace, hf] at h'
    | beyond h' => cases h'.symm.trans hf
    | before h' => cases h'.symm.trans hf
  · have hend := hacc.end_lt hseg hfit
    have hover : 2 ^ 64 ≤ r.reassembler.edge := by
      rw [h.edge_eq hfit]
      omega
    rw [heq, h.wf.pushSubstring_of_overflow hover hend,
      if_pos ((h.inBounds_iff hfit hend hover).mpr hbounds), Option.map_none]

/-- A refused segment with nothing new to offer is survived, unless it throws. -/
theorem Follows.isSome_of_refuses (h : r.Follows t consumed) (hseg : t.Carries a seg)
    (hnear : Near a r.streamOut.bytesWritten) (hfit : t.stop < 2 ^ 64) (hrs : r.syn = true)
    (hsyn : seg.header.syn = false) (href : r.Refuses seg)
    (htaken : r.TakenIn a seg r.reassembler.edge) (hthrow : ¬ r.Throws a seg) :
    ∃ r', r.segmentReceived seg = some r' := by
  obtain ⟨-, heq⟩ | ⟨hacc, heq⟩ := h.ignored_or_accepted hseg hnear hfit hrs
  · exact ⟨r, heq⟩
  · have hend := hacc.end_lt hseg hfit
    have hover := hacc.overflow h hfit href
    rw [h.wf.pushSubstring_of_overflow hover hend, if_neg, Option.map_some] at heq
    · exact ⟨_, heq⟩
    · intro hin
      cases hf : seg.header.fin with
      | true => exact hthrow ⟨hf, hacc.fresh hf, (h.inBounds_iff hfit hend hover).mp hin⟩
      | false =>
        obtain ⟨hlo, hhi⟩ := hacc.reaches h hseg hfit hsyn hf hover
        have hheld := htaken r.streamOut.bytesWritten hlo hhi (by omega)
        exact h.wf.not_held_bytesWritten hheld

/-- Taking in the byte at `ackno` moves `ackno`. -/
theorem Follows.absoluteAckno_lt (h : r.Follows t consumed) (h' : r'.Follows t consumed)
    (hle : r.streamOut.bytesWritten ≤ r'.streamOut.bytesWritten) (hseg : t.Carries a seg)
    (hsyn : seg.header.syn = false) (htaken : r'.TakenIn a seg r.reassembler.edge)
    (hwin : 0 < r.windowSize) (ha : a ≤ r.absoluteAckno)
    (hlt : r.absoluteAckno < a + seg.payload.length) : r.absoluteAckno < r'.absoluteAckno := by
  have hlen : 0 < seg.lengthInSequenceSpace := by
    unfold TCPSegment.lengthInSequenceSpace
    omega
  have hone := hseg.one_le hsyn hlen
  have hpay := hseg.payload_le hlen
  have hright := h.rightEdge
  have hend : r.streamOut.inputEnded = false := by
    cases hend : r.streamOut.inputEnded with
    | false => rfl
    | true =>
      have hall := h.written_eq_of_inputEnded hend
      rw [absoluteAckno, hend, Bool.toNat_true] at hlt
      omega
  have habs : r.absoluteAckno = r.streamOut.bytesWritten + 1 := by rw [absoluteAckno, hend]; rfl
  rw [hend, Bool.toNat_false] at hright
  have hheld := htaken r.streamOut.bytesWritten (by omega) (by omega) (by omega)
  have hne : r.streamOut.bytesWritten ≠ r'.streamOut.bytesWritten := by
    intro heq
    rw [heq] at hheld
    exact h'.wf.not_held_bytesWritten hheld
  rw [habs, absoluteAckno]
  omega

/-- Where nothing is added, `ackno` stays, as the text goes on. -/
theorem Follows.absoluteAckno_of_held (h : r.Follows t consumed) (h' : r'.Follows t consumed)
    (hle : r.streamOut.bytesWritten ≤ r'.streamOut.bytesWritten)
    (hheld : ∀ {j}, r'.reassembler.Held j → r.reassembler.Held j)
    (hmore : r.streamOut.bytesWritten < t.sent.length) :
    r'.absoluteAckno = r.streamOut.bytesWritten + 1 := by
  have hsame : r'.streamOut.bytesWritten = r.streamOut.bytesWritten := by
    refine hle.antisymm' (not_lt.mp fun hlt => ?_)
    exact h.wf.not_held_bytesWritten (hheld (Or.inl hlt))
  have hopen : r'.streamOut.inputEnded = false := by
    by_contra hend
    have hall := h'.written_eq_of_inputEnded (by simpa using hend)
    omega
  rw [absoluteAckno, hsame, hopen]
  rfl

/-- **The promise of the advertised window.**  In every state with an `ackno` and for every segment
of the text without SYN: the call returns with the payload taken in up to the right edge exactly if
the payload is not left out, or has nothing new to offer below the edge and the reassembler does not
throw.  One that covers the byte at `ackno` in an open window advances `ackno` exactly if it is not
left out. -/
theorem window_promise {isn : WrappingInt32} {S : Bytes} (hS : S.length + 2 < 2 ^ 64)
    (h : Reach step (Arrives ⟨isn, S, true⟩) (.new capacity) r) (hack : r.ackno.isSome)
    (hseg : Transcript.Carries ⟨isn, S, true⟩ a seg) (hsyn : seg.header.syn = false)
    (hnear : Near a r.streamOut.bytesWritten) :
    ((∃ r', r.segmentReceived seg = some r' ∧
        r'.TakenIn a seg (r.streamOut.bytesRead + capacity.toNat)) ↔
      ¬ r.Refuses seg ∨
        r.TakenIn a seg (r.streamOut.bytesRead + capacity.toNat) ∧ ¬ r.Throws a seg) ∧
    (0 < r.windowSize → a ≤ r.absoluteAckno → r.absoluteAckno < a + seg.payload.length →
      ((∃ r', r.segmentReceived seg = some r' ∧ r.absoluteAckno < r'.absoluteAckno) ↔
        ¬ r.Refuses seg)) := by
  have hfit : Transcript.stop ⟨isn, S, true⟩ < 2 ^ 64 := by
    simp only [Transcript.stop, Bool.toNat_true]
    omega
  obtain ⟨⟨consumed, hf⟩, hcap⟩ := reach_follows hfit h
  have hrs : r.syn = true := by
    by_contra hrs
    simp [ackno, hrs] at hack
  rw [← hcap, ← hf.edge_eq hfit]
  refine ⟨⟨?_, fun hcond => ?_⟩, fun hwin hle hlt => ⟨?_, fun hno => ?_⟩⟩
  · rintro ⟨r', hr', htaken⟩
    refine or_iff_not_imp_left.mpr fun href => ⟨fun j hj hlt hlim => ?_, fun hthrow => ?_⟩
    · exact hf.held_of_refuses hseg hnear hfit hrs (not_not.mp href) hr' (htaken j hj hlt hlim)
    · cases hr'.symm.trans (hf.segmentReceived_of_throws hseg hnear hfit hrs hsyn hthrow)
  · by_cases href : r.Refuses seg
    · obtain ⟨htaken, hthrow⟩ := hcond.resolve_left (not_not_intro href)
      obtain ⟨r', hr'⟩ := hf.isSome_of_refuses hseg hnear hfit hrs hsyn href htaken hthrow
      exact ⟨r', hr', fun j hj hlt hlim =>
        hf.held_segmentReceived hseg hnear hfit hr' (htaken j hj hlt hlim)⟩
    · exact hf.takesIn hseg hnear hfit hrs hsyn href
  · rintro ⟨r', hr', hadv⟩ href
    have hpay := hseg.payload_le (by unfold TCPSegment.lengthInSequenceSpace; omega)
    have habs : r.streamOut.bytesWritten + 1 ≤ r.absoluteAckno := Nat.le_add_right _ _
    have hkept := hf.absoluteAckno_of_held (hf.segmentReceived hseg hnear hfit hr')
      (segmentReceived_frame hf hseg hnear hfit hr').bytesWritten
      (hf.held_of_refuses hseg hnear hfit hrs href hr') (by omega)
    omega
  · obtain ⟨r', hr', htaken⟩ := hf.takesIn hseg hnear hfit hrs hsyn hno
    exact ⟨r', hr', hf.absoluteAckno_lt (hf.segmentReceived hseg hnear hfit hr')
      (segmentReceived_frame hf hseg hnear hfit hr').bytesWritten hseg hsyn htaken hwin hle hlt⟩

/-- Of the text `abcd` a receiver of capacity 2 has taken `ab` from a segment with FIN and its
reader has read both; `cd` without FIN is then taken in. -/
theorem window_promise_resent : ∃ r r',
    Reach step (Arrives ⟨⟨0⟩, [97, 98, 99, 100], true⟩) (.new 2) r ∧
    r.fin = true ∧ r.segmentReceived ⟨{ seqno := ⟨3⟩ }, [99, 100]⟩ = some r' ∧
    r'.TakenIn 3 ⟨{ seqno := ⟨3⟩ }, [99, 100]⟩ (r.streamOut.bytesRead + 2) ∧
    ∃ r'', r.segmentReceived ⟨{ seqno := ⟨3⟩ }, [99, 100]⟩ = some r'' ∧
      r.absoluteAckno < r''.absoluteAckno := by
  obtain ⟨r, hr, hp⟩ := exists_reach_of_exec step
    (Arrives ⟨⟨0⟩, [97, 98, 99, 100], true⟩) (.new 2)
    [.segment 0 ⟨{ seqno := ⟨0⟩, syn := true }, []⟩,
      .segment 1 ⟨{ seqno := ⟨1⟩, fin := true }, [97, 98, 99, 100]⟩, .read 2]
    (fun r => r.ackno == some ⟨3⟩ && r.fin && r.absoluteAckno == 3 && r.windowSize == 2 &&
      r.streamOut.bytesWritten == 2 &&
      decide (¬ r.Refuses ⟨{ seqno := ⟨3⟩ }, [99, 100]⟩)) (by decide)
  simp only [Bool.and_eq_true, beq_iff_eq, decide_eq_true_eq] at hp
  obtain ⟨⟨⟨⟨⟨hack, hfin⟩, habs⟩, hwin⟩, hwr⟩, hno⟩ := hp
  have hseg : Transcript.Carries ⟨⟨0⟩, [97, 98, 99, 100], true⟩ 3
      ⟨{ seqno := ⟨3⟩ }, [99, 100]⟩ := by
    decide
  obtain ⟨hiff, hadv⟩ := window_promise (by decide) hr (by rw [hack]; rfl) hseg rfl
    (by rw [hwr]; decide)
  obtain ⟨r', hr', htaken⟩ := hiff.mpr (Or.inl hno)
  exact ⟨r, r', hr, hfin, hr', htaken,
    (hadv (by omega) (by omega) (by rw [habs]; decide)).mpr hno⟩

/-- **A retransmitted FIN is refused with its payload.**  After the same run the sender repeats the
whole segment, as its timer makes it: `c` is below the right edge and at `ackno`, and is lost. -/
theorem window_promise_broken : ∃ r,
    Reach step (Arrives ⟨⟨0⟩, [97, 98, 99, 100], true⟩) (.new 2) r ∧
    r.ackno = some ⟨3⟩ ∧ r.absoluteAckno = 3 ∧ r.windowSize = 2 ∧
    Arrives ⟨⟨0⟩, [97, 98, 99, 100], true⟩ r
      (.segment 1 ⟨{ seqno := ⟨1⟩, fin := true }, [97, 98, 99, 100]⟩) ∧
    r.segmentReceived ⟨{ seqno := ⟨1⟩, fin := true }, [97, 98, 99, 100]⟩ = some r ∧
    2 < r.streamOut.bytesRead + 2 ∧ ¬ r.reassembler.Held 2 := by
  obtain ⟨r, hr, hp⟩ := exists_reach_of_exec step
    (Arrives ⟨⟨0⟩, [97, 98, 99, 100], true⟩) (.new 2)
    [.segment 0 ⟨{ seqno := ⟨0⟩, syn := true }, []⟩,
      .segment 1 ⟨{ seqno := ⟨1⟩, fin := true }, [97, 98, 99, 100]⟩, .read 2]
    (fun r => r.ackno == some ⟨3⟩ && r.absoluteAckno == 3 && r.windowSize == 2 &&
      decide (Arrives ⟨⟨0⟩, [97, 98, 99, 100], true⟩ r
        (.segment 1 ⟨{ seqno := ⟨1⟩, fin := true }, [97, 98, 99, 100]⟩)) &&
      r.segmentReceived ⟨{ seqno := ⟨1⟩, fin := true }, [97, 98, 99, 100]⟩ == some r &&
      decide (2 < r.streamOut.bytesRead + 2) && decide (¬ r.reassembler.Held 2)) (by decide)
  simp only [Bool.and_eq_true, beq_iff_eq, decide_eq_true_eq] at hp
  obtain ⟨⟨⟨⟨⟨⟨hack, habs⟩, hwin⟩, harr⟩, hrec⟩, hlt⟩, hheld⟩ := hp
  exact ⟨r, hr, hack, habs, hwin, harr, hrec, hlt, hheld⟩

end TCPReceiver
