import Sponge.ByteStream
import Sponge.WrappingInt

/-!
# TCPSegment — segments, and what a stretch of a stream looks like on the wire

`tcp_header.hh`, `tcp_segment.hh`.  Above the wire format stands the abstract view of one direction
of a connection, the `Transcript`: the initial sequence number, the bytes given sequence numbers so
far, and whether the end of the stream has been given one.  `Transcript.Carries` says which segments
are part of a transcript, `Transcript.Le` how a transcript may grow, and a segment that a transcript
carries is carried by every later one (`Carries.mono`).
-/

open Word64

/-- The TCP header without options. -/
structure TCPHeader where
  sport : UInt16 := 0
  dport : UInt16 := 0
  seqno : WrappingInt32 := ⟨0⟩
  ackno : WrappingInt32 := ⟨0⟩
  doff : UInt8 := 5
  urg : Bool := false
  ack : Bool := false
  psh : Bool := false
  rst : Bool := false
  syn : Bool := false
  fin : Bool := false
  win : UInt16 := 0
  cksum : UInt16 := 0
  uptr : UInt16 := 0
  deriving DecidableEq, Repr

structure TCPSegment where
  header : TCPHeader := {}
  payload : Bytes := []
  deriving DecidableEq, Repr

/-- The payload, plus one for each of the SYN and FIN flags. -/
def TCPSegment.lengthInSequenceSpace (seg : TCPSegment) : ℕ :=
  seg.payload.length + seg.header.syn.toNat + seg.header.fin.toNat

/-- The largest payload of a segment. -/
def TCPConfig.maxPayloadSize : ℕ := 1452

namespace TCPSegment

/-- The segment without what the layer below fills in. -/
def content (seg : TCPSegment) : TCPSegment :=
  { seg with header := { seg.header with sport := 0, dport := 0, cksum := 0 } }

/-- A segment as a connection sends it: without options, and not too long for a datagram. -/
structure Plain (seg : TCPSegment) : Prop where
  doff : seg.header.doff = 5
  payload : seg.payload.length ≤ TCPConfig.maxPayloadSize

end TCPSegment

/-! ## Transcripts -/

/-- **What one end has given sequence numbers to**: the bytes after its SYN, and its FIN. -/
structure Transcript where
  isn : WrappingInt32
  sent : Bytes
  fin : Bool
  deriving DecidableEq, Repr

namespace Transcript

/-- The first absolute sequence number not used. -/
def stop (t : Transcript) : ℕ := 1 + t.sent.length + t.fin.toNat

/-- **A transcript grows at its end**, and not at all once it has its FIN. -/
structure Le (t t' : Transcript) : Prop where
  isn : t'.isn = t.isn
  sent : t.sent <+: t'.sent
  fin : t.fin = true → t'.fin = true ∧ t'.sent = t.sent

/-- **The segment is the part of the transcript at absolute number `a`**: the SYN, or a stretch of
the bytes, with a FIN only at their end.  A segment that uses no number is carried anywhere. -/
def Carries (t : Transcript) (a : ℕ) (seg : TCPSegment) : Prop :=
  seg.header.seqno = wrap a t.isn ∧
    ((seg.header.syn = true ∧ a = 0 ∧ seg.header.fin = false ∧ seg.payload = []) ∨
      (seg.header.syn = false ∧ (seg.lengthInSequenceSpace = 0 ∨ 1 ≤ a) ∧
        seg.payload <+: t.sent.drop (a - 1) ∧
        (seg.header.fin = true → t.fin = true ∧ a - 1 + seg.payload.length = t.sent.length)))

instance (t : Transcript) (a : ℕ) (seg : TCPSegment) : Decidable (t.Carries a seg) :=
  inferInstanceAs (Decidable (_ ∧ _))

variable {t t' t'' : Transcript} {a : ℕ} {seg : TCPSegment}

theorem Le.refl (t : Transcript) : t.Le t := ⟨rfl, List.prefix_rfl, fun h => ⟨h, rfl⟩⟩

theorem Le.trans (h : t.Le t') (h' : t'.Le t'') : t.Le t'' where
  isn := h'.isn.trans h.isn
  sent := h.sent.trans h'.sent
  fin hf := ⟨(h'.fin (h.fin hf).1).1, (h'.fin (h.fin hf).1).2.trans (h.fin hf).2⟩

/-- **What a transcript carries, every later one carries.** -/
theorem Carries.mono (h : t.Carries a seg) (hle : t.Le t') : t'.Carries a seg := by
  obtain ⟨hseq, hbody⟩ := h
  refine ⟨by rw [hle.isn]; exact hseq, hbody.imp_right ?_⟩
  rintro ⟨hsyn, hpos, hpay, hfin⟩
  refine ⟨hsyn, hpos, hpay.trans (hle.sent.drop _), fun hf => ?_⟩
  obtain ⟨htf, hlen⟩ := hfin hf
  rw [(hle.fin htf).2]
  exact ⟨(hle.fin htf).1, hlen⟩

/-- Absolute number zero is the SYN's. -/
theorem Carries.one_le (h : t.Carries a seg) (hsyn : seg.header.syn = false)
    (hpos : 0 < seg.lengthInSequenceSpace) : 1 ≤ a := by
  obtain ⟨-, ⟨hsyn', -⟩ | ⟨-, hone, -⟩⟩ := h
  · rw [hsyn] at hsyn'
    cases hsyn'
  · exact hone.resolve_left (by omega)

/-- The payload lies within the bytes sent. -/
theorem Carries.payload_le (h : t.Carries a seg) (hpos : 0 < seg.lengthInSequenceSpace) :
    a - 1 + seg.payload.length ≤ t.sent.length := by
  obtain ⟨-, ⟨-, rfl, -, hpay⟩ | ⟨hsyn, -, hpay, hfin⟩⟩ := h
  · simp [hpay]
  · have hlen := hpay.length_le
    rw [List.length_drop] at hlen
    cases hf : seg.header.fin with
    | false =>
      simp only [TCPSegment.lengthInSequenceSpace, hsyn, hf, Bool.toNat_false] at hpos
      omega
    | true => exact (hfin hf).2.le

/-- A segment that uses sequence numbers lies within the transcript. -/
theorem Carries.le_stop (h : t.Carries a seg) (hpos : 0 < seg.lengthInSequenceSpace) :
    a + seg.lengthInSequenceSpace ≤ t.stop := by
  have hle := h.payload_le hpos
  obtain ⟨-, ⟨hsyn, rfl, hfin, hpay⟩ | ⟨hsyn, hone, -, hfin⟩⟩ := h
  · simp only [TCPSegment.lengthInSequenceSpace, stop, hsyn, hfin, hpay, Bool.toNat_true,
      Bool.toNat_false, List.length_nil]
    omega
  · simp only [TCPSegment.lengthInSequenceSpace, stop, hsyn, Bool.toNat_false] at *
    cases hf : seg.header.fin with
    | false => simp only [hf, Bool.toNat_false] at *; omega
    | true => simp only [hf, (hfin hf).1, Bool.toNat_true] at *; omega

/-- Only the SYN ends at one. -/
theorem Carries.syn_eq_false (h : t.Carries a seg) (hend : 1 < a + seg.lengthInSequenceSpace) :
    seg.header.syn = false := by
  obtain ⟨-, ⟨hsyn, rfl, hfin, hpay⟩ | ⟨hsyn, -⟩⟩ := h
  · simp [TCPSegment.lengthInSequenceSpace, hsyn, hfin, hpay] at hend
  · exact hsyn

/-- **A segment with FIN ends where the transcript does.** -/
theorem Carries.of_fin (h : t.Carries a seg) (hfin : seg.header.fin = true) :
    seg.header.syn = false ∧ 1 ≤ a ∧ a - 1 + seg.payload.length = t.sent.length ∧
      a + seg.lengthInSequenceSpace = t.sent.length + 2 := by
  obtain ⟨-, ⟨-, -, hno, -⟩ | ⟨hsyn, hone, -, hend⟩⟩ := h
  · cases hno.symm.trans hfin
  · have hlen : seg.lengthInSequenceSpace = seg.payload.length + 1 := by
      simp [TCPSegment.lengthInSequenceSpace, hsyn, hfin]
    have := (hend hfin).2
    exact ⟨hsyn, by omega, by omega, by omega⟩

end Transcript
