import Sponge.Lib.Reach
import Sponge.Sender.Steps

/-!
# Sender/SeqSpace — the sequence space of a sender, over whole runs

A `SenderRun` is a sender together with what an observer of it writes down: the bytes its writer put
in, the segments as they first left, the segments that left again, and the time since the timer was
last started.  Its steps are the calls of the sender's interface in any order and with any
arguments.

`Sequenced` is the invariant of all runs: the first transmissions tile the sequence space from zero
to `_next_seqno`, each the part of the transcript at its place, and the queue holds the last of
them.  `sequence_space` spells out what that means.  The stream takes bytes after its input has
ended, so that the FIN is the end of it holds only of a writer who stops in time
(`fin_ends_stream`).
-/

open Word64

/-- A sender and what has been observed of it. -/
structure SenderRun where
  sender : TCPSender
  /-- all bytes the stream took from the writer -/
  accepted : Bytes := []
  /-- the segments in the order in which they first left -/
  firsts : List TCPSegment := []
  /-- the retransmissions -/
  resent : List TCPSegment := []
  /-- the milliseconds ticked since the timer was last started -/
  elapsed : ℕ := 0
  /-- the window of the last ack that was not for numbers beyond those sent -/
  window : UInt16 := 1

/-- A call on the sender or its stream. -/
inductive SenderOp
  | write (data : Bytes)
  | endInput
  | fillWindow
  | ackReceived (ackno : WrappingInt32) (window : UInt16)
  | tick (ms : ℕ)
  | sendEmptySegment

namespace SenderRun

def init (capacity : UInt64) (retxTimeout : UInt16) (isn : WrappingInt32) : SenderRun :=
  { sender := .new capacity retxTimeout isn }

/-- What has been added to `segments_out`. -/
def emitted (s s' : TCPSender) : List TCPSegment := s'.segmentsOut.drop s.segmentsOut.length

/-- New segments leave from `fill_window` and `ack_received`, retransmissions from `tick`.  The
clock starts anew when a stopped timer is started, when the base moves and on a retransmission. -/
def apply (r : SenderRun) : SenderOp → SenderRun
  | .write data =>
    { r with
      sender := r.sender.writeIn data
      accepted := r.accepted ++ data.take (r.sender.stream.accepted data) }
  | .endInput => { r with sender := r.sender.endIn }
  | .fillWindow =>
    { r with
      sender := r.sender.fillWindow
      firsts := r.firsts ++ emitted r.sender r.sender.fillWindow
      elapsed := if r.sender.timer.running then r.elapsed else 0 }
  | .ackReceived ackno window =>
    { r with
      sender := r.sender.ackReceived ackno window
      firsts := r.firsts ++ emitted r.sender (r.sender.ackReceived ackno window)
      elapsed := if (r.sender.ackReceived ackno window).sendBase = r.sender.sendBase then r.elapsed
        else 0
      window := if r.sender.nextSeqno < unwrap ackno r.sender.isn r.sender.sendBase then r.window
        else window }
  | .tick ms =>
    { r with
      sender := r.sender.tick ms
      resent := r.resent ++ emitted r.sender (r.sender.tick ms)
      elapsed := if emitted r.sender (r.sender.tick ms) = [] then r.elapsed + ms else 0 }
  | .sendEmptySegment => { r with sender := r.sender.sendEmptySegment }

def step (r : SenderRun) (op : SenderOp) : Option SenderRun := some (r.apply op)

/-- The writer does not write after `end_input`. -/
def Disciplined (r : SenderRun) : SenderOp → Prop
  | .write _ => r.sender.stream.inputEnded = false
  | _ => True

instance (r : SenderRun) (op : SenderOp) : Decidable (r.Disciplined op) :=
  match op with
  | .write _ => inferInstanceAs (Decidable (_ = _))
  | .endInput | .fillWindow | .ackReceived .. | .tick _ | .sendEmptySegment =>
    inferInstanceAs (Decidable True)

/-- The writer does not write after the FIN has been sent, unless there is nothing to take. -/
def BeforeFin (r : SenderRun) : SenderOp → Prop
  | .write data =>
    r.sender.finFlag = false ∨ data = [] ∨ r.sender.stream.remainingCapacity = 0
  | _ => True

instance (r : SenderRun) (op : SenderOp) : Decidable (r.BeforeFin op) :=
  match op with
  | .write _ => inferInstanceAs (Decidable (_ ∨ _))
  | .endInput | .fillWindow | .ackReceived .. | .tick _ | .sendEmptySegment =>
    inferInstanceAs (Decidable True)

/-- The transcript of the run so far. -/
def transcript (r : SenderRun) : Transcript := r.sender.transcript r.accepted

/-- A segment at its place in the transcript, of a size that fits a datagram. -/
def FitsAt (t : Transcript) (a : ℕ) (seg : TCPSegment) : Prop :=
  t.Carries a seg ∧ seg.payload.length ≤ TCPConfig.maxPayloadSize

/-- **The first transmissions tile the sequence space.** -/
structure Sequenced (isn : WrappingInt32) (r : SenderRun) : Prop where
  isn : r.sender.isn = isn
  sound : r.sender.Sound r.accepted
  tiles : Tiles TCPSegment.lengthInSequenceSpace (FitsAt r.transcript) 0 r.firsts
    r.sender.nextSeqno
  copies : r.sender.copySegmentsOut <:+ r.firsts
  resent : ∀ seg ∈ r.resent, seg ∈ r.firsts

variable {isn : WrappingInt32} {r : SenderRun} {op : SenderOp}

theorem emitted_eq {s s' : TCPSender} {segs : List TCPSegment}
    (h : s'.segmentsOut = s.segmentsOut ++ segs) : emitted s s' = segs := by
  rw [emitted, h, List.drop_left]

namespace Sequenced

theorem init (capacity : UInt64) (retxTimeout : UInt16) (isn : WrappingInt32) :
    Sequenced isn (.init capacity retxTimeout isn) where
  isn := rfl
  sound := .new capacity retxTimeout isn
  tiles := .nil 0
  copies := List.suffix_rfl
  resent := by simp [SenderRun.init]

/-- New segments continue the tiling. -/
theorem advance (h : r.Sequenced isn) {s' : TCPSender} {kept segs : List TCPSegment}
    (hadv : r.sender.Advances r.accepted kept segs s') (elapsed : ℕ) (window : UInt16) :
    Sequenced isn
      { r with sender := s', firsts := r.firsts ++ segs, elapsed, window } where
  isn := hadv.grows.isn.trans h.isn
  sound := hadv.sound
  tiles := Tiles.append_iff.mpr
    ⟨_, h.tiles.imp fun _ _ _ _ hc => ⟨hc.1.mono hadv.grows, hc.2⟩,
      (hadv.carried.and hadv.tiles).imp fun _ _ _ _ hc => ⟨hc.1, hc.2.2.1⟩⟩
  copies := by
    obtain ⟨front, hfront⟩ := hadv.suffix.trans h.copies
    rw [hadv.copySegmentsOut, ← hfront, List.append_assoc]
    exact List.suffix_append _ _
  resent seg hseg := List.mem_append_left _ (h.resent seg hseg)

/-- A writer that stops at `end_input` has stopped before the FIN. -/
theorem beforeFin (h : r.Sequenced isn) (hok : r.Disciplined op) : r.BeforeFin op := by
  cases op with
  | write data => exact Or.inl (h.sound.finFlag_of_open hok)
  | endInput | fillWindow | ackReceived | tick | sendEmptySegment => trivial

/-- **Every call keeps the sequence space tiled.** -/
theorem apply (h : r.Sequenced isn) (hok : r.BeforeFin op) : (r.apply op).Sequenced isn := by
  cases op with
  | write data =>
    have hfin := hok.imp_right (r.sender.stream.accepted_eq_zero_iff data).mpr
    refine ⟨h.isn, h.sound.writeIn hfin, ?_, h.copies, h.resent⟩
    rw [transcript, SenderRun.apply, h.sound.transcript_writeIn data]
    exact h.tiles
  | endInput => exact ⟨h.isn, h.sound.endIn, h.tiles, h.copies, h.resent⟩
  | fillWindow =>
    obtain ⟨segs, hext⟩ := TCPSender.fillWindow_extends h.sound
    rw [SenderRun.apply, emitted_eq hext.segmentsOut]
    exact h.advance hext.advances _ _
  | ackReceived ackno window =>
    obtain ⟨kept, segs, hadv⟩ := TCPSender.ackReceived_advances h.sound ackno window
    rw [SenderRun.apply, emitted_eq hadv.segmentsOut]
    exact h.advance hadv _ _
  | tick ms =>
    obtain ⟨segs, count, timer, heq, hmem⟩ := r.sender.tick_frame ms
    have hsound := h.sound.tick ms
    have hout : (r.sender.tick ms).segmentsOut = r.sender.segmentsOut ++ segs := by rw [heq]
    rw [SenderRun.apply, emitted_eq hout]
    rw [heq] at hsound ⊢
    refine ⟨h.isn, hsound, h.tiles, h.copies, fun seg hseg => ?_⟩
    rcases List.mem_append.mp hseg with hseg | hseg
    · exact h.resent seg hseg
    · exact h.copies.subset (hmem seg hseg)
  | sendEmptySegment => exact ⟨h.isn, h.sound.sendEmptySegment, h.tiles, h.copies, h.resent⟩

end Sequenced

/-- The invariant along a run. -/
theorem reach_sequenced {capacity : UInt64} {retxTimeout : UInt16}
    (h : Reach step Disciplined (init capacity retxTimeout isn) r) : r.Sequenced isn := by
  refine h.invariant (Sequenced.init capacity retxTimeout isn) fun r op r' ih hok hs => ?_
  obtain rfl := Option.some.inj hs
  exact ih.apply (ih.beforeFin hok)

/-- The invariant along a run that ends the input and may go on writing until the FIN is out. -/
theorem reach_beforeFin {capacity : UInt64} {retxTimeout : UInt16}
    (h : Reach step BeforeFin (init capacity retxTimeout isn) r) : r.Sequenced isn := by
  refine h.invariant (Sequenced.init capacity retxTimeout isn) fun r op r' ih hok hs => ?_
  obtain rfl := Option.some.inj hs
  exact ih.apply hok

/-! ## What the tiling says -/

section Tiling

variable {t : Transcript} {p : ℕ} {l l' : List TCPSegment} {seg : TCPSegment}

/-- Read from a place past the SYN on, the payloads are the rest of the bytes. -/
theorem flatten_payload (hp : 1 ≤ p)
    (h : Tiles TCPSegment.lengthInSequenceSpace (FitsAt t) p l t.stop) :
    (l.map (·.payload)).flatten = t.sent.drop (p - 1) := by
  induction l generalizing p with
  | nil =>
    obtain rfl : p = t.stop := h
    rw [List.drop_of_length_le (by unfold Transcript.stop; omega)]
    rfl
  | cons seg l ih =>
    obtain ⟨⟨⟨-, hbody⟩, -⟩, hpos, hl⟩ := h
    obtain ⟨-, rfl, -⟩ | ⟨hsyn, -, hpay, hfin⟩ := hbody
    · omega
    rw [List.map_cons, List.flatten_cons, ih (by omega) hl,
      List.prefix_iff_eq_append.mp hpay |>.symm, List.drop_drop]
    congr 1
    cases hf : seg.header.fin with
    | false =>
      simp only [TCPSegment.lengthInSequenceSpace, hsyn, hf, Bool.toNat_false]
      congr 1
      omega
    | true =>
      -- behind the FIN there is nothing left
      have hend := (hfin hf).2
      rw [List.drop_of_length_le, List.drop_of_length_le hend.ge]
      simp only [TCPSegment.lengthInSequenceSpace, hsyn, hf, Bool.toNat_true, Bool.toNat_false]
      omega

/-- A tiling that begins with the sequence space begins with the SYN. -/
theorem head_syn (h : Tiles TCPSegment.lengthInSequenceSpace (FitsAt t) 0 (seg :: l) p) :
    seg.header.syn = true ∧ seg.header.fin = false ∧ seg.payload = [] ∧ seg.header.seqno = t.isn ∧
      Tiles TCPSegment.lengthInSequenceSpace (FitsAt t) 1 l p := by
  obtain ⟨⟨⟨hseq, hbody⟩, -⟩, hpos, hl⟩ := h
  obtain ⟨hsyn, -, hfin, hpay⟩ | ⟨-, hone, -⟩ := hbody
  · refine ⟨hsyn, hfin, hpay, by rw [hseq, wrap_zero], ?_⟩
    rwa [show seg.lengthInSequenceSpace = 1 by
      simp [TCPSegment.lengthInSequenceSpace, hsyn, hfin, hpay]] at hl
  · omega

/-- Nothing follows a FIN. -/
theorem eq_nil_of_fin (hp : 1 ≤ p)
    (h : Tiles TCPSegment.lengthInSequenceSpace (FitsAt t) p (l ++ seg :: l') t.stop)
    (hfin : seg.header.fin = true) : l' = [] ∧ t.fin = true := by
  obtain ⟨q, hl, ⟨⟨⟨-, hbody⟩, -⟩, hpos, hl'⟩⟩ := Tiles.append_iff.mp h
  have hq := hl.le
  obtain ⟨-, rfl, -⟩ | ⟨hsyn, -, -, hend⟩ := hbody
  · omega
  obtain ⟨ht, hlen⟩ := hend hfin
  refine ⟨hl'.eq_nil_iff.mpr ?_, ht⟩
  simp only [Transcript.stop, TCPSegment.lengthInSequenceSpace, hsyn, hfin, ht, Bool.toNat_true,
    Bool.toNat_false]
  omega

/-- A finished transcript has sent its FIN. -/
theorem exists_fin (ht : t.fin = true)
    (h : Tiles TCPSegment.lengthInSequenceSpace (FitsAt t) 1 l t.stop) :
    ∃ seg ∈ l, seg.header.fin = true := by
  have hstop : t.stop = t.sent.length + 2 := by
    simp only [Transcript.stop, ht, Bool.toNat_true]
    omega
  obtain ⟨⟨a, seg⟩, hmem, hle, hlt⟩ :=
    h.exists_mem_place (x := t.stop - 1) (by omega) (by omega)
  obtain ⟨hseg, ha, -, -, hfit⟩ := h.of_mem_place hmem
  simp only at hle hlt ha hfit
  refine ⟨seg, hseg, ?_⟩
  have hpay := hfit.1.payload_le (by omega)
  obtain ⟨⟨-, ⟨-, rfl, -⟩ | ⟨hsyn, -⟩⟩, -⟩ := hfit
  · omega
  · by_contra hf
    simp only [TCPSegment.lengthInSequenceSpace, hsyn, Bool.eq_false_of_not_eq_true hf,
      Bool.toNat_false] at hlt
    omega

end Tiling

/-- Nothing has left exactly if the SYN has not. -/
theorem Sequenced.firsts_eq_nil_iff (h : r.Sequenced isn) :
    r.firsts = [] ↔ r.sender.synFlag = false := by
  have hs := h.sound
  rw [h.tiles.eq_nil_iff, hs.next]
  cases hsyn : r.sender.synFlag with
  | true =>
    simp only [Bool.toNat_true, reduceCtorEq, iff_false]
    omega
  | false =>
    have hfin : r.sender.finFlag = false := by
      by_contra hf
      have := (hs.fin (by simpa using hf)).1
      rw [hsyn] at this
      cases this
    simp [hs.idle hsyn, hfin]

/-- **The sequence space of a sender.**  In every run the next number counts the SYN, the bytes read
and the FIN; the first transmissions are the SYN and then segments that tile the numbers from one
on, their payloads make up the bytes read, only the last can carry the FIN, and it does so once the
stream is at its end; retransmissions repeat first transmissions. -/
theorem sequence_space {capacity : UInt64} {retxTimeout : UInt16}
    (h : Reach step Disciplined (init capacity retxTimeout isn) r) :
    r.sender.nextSeqno =
      r.sender.synFlag.toNat + r.sender.stream.totalRead + r.sender.finFlag.toNat ∧
    (r.firsts = [] ↔ r.sender.synFlag = false) ∧
    (∀ syn data, r.firsts = syn :: data →
      (syn.header.syn = true ∧ syn.header.fin = false ∧ syn.payload = [] ∧ syn.header.seqno = isn) ∧
      Tiles TCPSegment.lengthInSequenceSpace
        (fun a seg => seg.header.seqno = wrap a isn ∧ seg.header.syn = false ∧
          seg.payload.length ≤ TCPConfig.maxPayloadSize) 1 data r.sender.nextSeqno ∧
      (data.map (·.payload)).flatten = r.accepted.take r.sender.stream.totalRead ∧
      (∀ l seg l', data = l ++ seg :: l' → seg.header.fin = true →
        l' = [] ∧ r.sender.stream.eof = true) ∧
      (r.sender.finFlag = true ↔ ∃ seg ∈ data, seg.header.fin = true)) ∧
    ∀ seg ∈ r.resent, seg ∈ r.firsts := by
  have hseq := reach_sequenced h
  have hs := hseq.sound
  have hnil := hseq.firsts_eq_nil_iff
  refine ⟨hs.next, hnil, fun syn data hfirsts => ?_, hseq.resent⟩
  have hsyn : r.sender.synFlag = true := by
    by_contra hf
    rw [hnil.mpr (by simpa using hf)] at hfirsts
    cases hfirsts
  have htiles := hseq.tiles
  rw [hfirsts] at htiles
  obtain ⟨h₁, h₂, h₃, h₄, hdata⟩ := head_syn htiles
  have hstop := hs.nextSeqno_eq hsyn
  refine ⟨⟨h₁, h₂, h₃, h₄.trans hseq.isn⟩, ?_, ?_, ?_, ?_⟩
  · refine hdata.imp fun a seg ha hle hfit => ⟨?_, ?_, hfit.2⟩
    · rw [hfit.1.1, ← hseq.isn]
      rfl
    · obtain ⟨⟨-, ⟨-, rfl, -⟩ | ⟨hsyn', -⟩⟩, -⟩ := hfit
      · omega
      · exact hsyn'
  · rw [hstop] at hdata
    exact flatten_payload le_rfl hdata
  · intro l seg l' hl hfin
    rw [hstop, hl] at hdata
    obtain ⟨hl', ht⟩ := eq_nil_of_fin le_rfl hdata hfin
    exact ⟨hl', (hs.fin ht).2⟩
  · rw [hstop] at hdata
    refine ⟨fun hf => exists_fin hf hdata, ?_⟩
    rintro ⟨seg, hseg, hfin⟩
    obtain ⟨l, l', rfl⟩ := List.append_of_mem hseg
    exact (eq_nil_of_fin le_rfl hdata hfin).2

/-- A stream of three bytes, sent with its FIN across the 32-bit boundary and resent once. -/
theorem sequence_space_run : ∃ r, Reach step Disciplined (init 64000 1000 ⟨4294967295⟩) r ∧
    r.resent = [⟨{ seqno := ⟨0⟩, fin := true }, [97, 98, 99]⟩] ∧
    r.sender.nextSeqno = 1 + r.sender.stream.totalRead + 1 ∧ ∀ seg ∈ r.resent, seg ∈ r.firsts := by
  obtain ⟨r, hr, hp⟩ := exists_reach_of_exec step Disciplined
    (init 64000 1000 ⟨4294967295⟩)
    [.fillWindow, .ackReceived ⟨0⟩ 4, .write [97, 98, 99], .endInput, .fillWindow,
      .tick 1000]
    (fun r => r.resent == [⟨{ seqno := ⟨0⟩, fin := true }, [97, 98, 99]⟩] &&
      r.sender.synFlag && r.sender.finFlag) (by decide)
  simp only [Bool.and_eq_true, beq_iff_eq] at hp
  obtain ⟨⟨hres, hsyn⟩, hfin⟩ := hp
  obtain ⟨hnext, -, -, hmem⟩ := sequence_space hr
  rw [hsyn, hfin] at hnext
  exact ⟨r, hr, hres, hnext, hmem⟩

/-! ## The FIN and the end of the stream -/

/-- Every FIN that has left has the number after the last byte written, and nothing is left in the
buffer. -/
def FinEndsStream (r : SenderRun) : Prop :=
  ∀ x ∈ place TCPSegment.lengthInSequenceSpace 0 r.firsts, x.2.header.fin = true →
    x.2.header.seqno = wrap x.1 r.sender.isn ∧
      x.1 + x.2.payload.length = 1 + r.sender.stream.bytesWritten ∧
      r.sender.stream.bufferEmpty = true

instance (r : SenderRun) : Decidable r.FinEndsStream := inferInstanceAs (Decidable (∀ _ ∈ _, _))

/-- A sender whose FIN flag is set has sent a FIN. -/
theorem Sequenced.exists_fin_place (h : r.Sequenced isn) (hfin : r.sender.finFlag = true) :
    ∃ x ∈ place TCPSegment.lengthInSequenceSpace 0 r.firsts, x.2.header.fin = true := by
  have hs := h.sound
  have hsyn := (hs.fin hfin).1
  have htiles := h.tiles
  cases hfirsts : r.firsts with
  | nil => cases (h.firsts_eq_nil_iff.mp hfirsts).symm.trans hsyn
  | cons syn data =>
    rw [hfirsts, hs.nextSeqno_eq hsyn] at htiles
    obtain ⟨-, -, -, -, hdata⟩ := head_syn htiles
    obtain ⟨seg, hseg, hf⟩ := exists_fin (t := r.transcript) hfin hdata
    obtain ⟨a, ha⟩ := exists_place_of_mem (p := 0) (List.mem_cons_of_mem syn hseg)
    exact ⟨(a, seg), ha, hf⟩

/-- **The FIN ends the stream.**  In every run in which nothing is added once the FIN is out, a FIN
that has been sent has the number after the last byte written and the buffer is empty; and the first
write that does add something breaks that. -/
theorem fin_ends_stream {capacity : UInt64} {retxTimeout : UInt16}
    (h : Reach step BeforeFin (init capacity retxTimeout isn) r) :
    r.FinEndsStream ∧ ∀ op, ¬ r.BeforeFin op → ¬ (r.apply op).FinEndsStream := by
  have hseq := reach_beforeFin h
  have hs := hseq.sound
  refine ⟨fun x hx hfin => ?_, fun op hlate hends => ?_⟩
  · obtain ⟨-, -, -, hpos, ⟨hseqno, hbody⟩, -⟩ := hseq.tiles.of_mem_place hx
    obtain ⟨-, -, hno, -⟩ | ⟨-, hplace, -, hend⟩ := hbody
    · cases hno.symm.trans hfin
    have hone := hplace.resolve_left hpos.ne'
    obtain ⟨hsent, hlen⟩ := hend hfin
    have hbuf := ((ByteStream.eof_iff _).mp (hs.fin hsent).2).2
    have hcount := hs.bounded.count
    have hread : r.transcript.sent.length = r.sender.stream.totalRead := hs.length_sent
    rw [hbuf, List.length_nil] at hcount
    exact ⟨hseqno, by omega, (ByteStream.bufferEmpty_iff _).mpr hbuf⟩
  · cases op with
    | write data =>
      rw [BeforeFin, not_or, Bool.not_eq_false] at hlate
      obtain ⟨hfin, hsome⟩ := hlate
      obtain ⟨x, hx, hf⟩ := hseq.exists_fin_place hfin
      obtain ⟨-, -, hempty⟩ := hends x hx hf
      have hnone := ((ByteStream.bufferEmpty_write _ _).mp hempty).2
      exact hsome ((r.sender.stream.accepted_eq_zero_iff data).mp hnone)
    | endInput | fillWindow | ackReceived | tick | sendEmptySegment => exact hlate trivial

/-- A byte written after `end_input` and before the FIN is still sent, and the FIN comes after
it. -/
theorem fin_ends_stream_written_late : ∃ r, Reach step BeforeFin (init 64000 1000 ⟨7⟩) r ∧
    r.sender.finFlag = true ∧ r.accepted = [97, 98] ∧ r.FinEndsStream := by
  obtain ⟨r, hr, hp⟩ := exists_reach_of_exec step BeforeFin (init 64000 1000 ⟨7⟩)
    [.fillWindow, .ackReceived ⟨8⟩ 4, .write [97], .endInput, .write [98], .fillWindow]
    (fun r => r.sender.finFlag && r.accepted == [97, 98]) (by decide)
  simp only [Bool.and_eq_true, beq_iff_eq] at hp
  exact ⟨r, hr, hp.1, hp.2, (fin_ends_stream hr).1⟩

/-- Once the FIN is out, the stream still takes a byte, which has no place left before it. -/
theorem write_beyond_fin : ∃ r, Reach step (fun _ _ => True) (init 64000 1000 ⟨7⟩) r ∧
    r.accepted = [97] ∧ ¬ r.FinEndsStream := by
  obtain ⟨r, hr, hp⟩ := exists_reach_of_exec step (fun _ _ => True) (init 64000 1000 ⟨7⟩)
    [.fillWindow, .ackReceived ⟨8⟩ 4, .endInput, .fillWindow, .write [97]]
    (fun r => r.accepted == [97] && !decide r.FinEndsStream) (by decide)
  simp only [Bool.and_eq_true, beq_iff_eq, Bool.not_eq_true', decide_eq_false_iff_not] at hp
  exact ⟨r, hr, hp⟩

end SenderRun
