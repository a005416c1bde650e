import Sponge.Lib.Tiling
import Sponge.Sender.Model

/-!
# Sender/Emission — how segments leave for the first time

`fill_window` sends the SYN, a FIN alone, or a run of segments read from the stream.  All of it is
made of one kind of step, `Emits`: one segment takes the next sequence numbers, within the room the
window leaves.  `fillWindow_emits` is the only place where the loop is opened.

`Sends` is what a number of emissions add up to: segments that tile the sequence space from the old
`_next_seqno` to the new one.  `Sound accepted s` ties the counters of a sender to `accepted`, all
the bytes its writer has put in, and from a sound sender the segments are the next part of its
transcript (`Extends`).
-/

open Word64 Relation

namespace TCPSender

/-- **One segment leaves for the first time.** -/
inductive Emits (s : TCPSender) : TCPSender → Prop
  | syn (hwin : s.windowSize ≠ 0) (hsyn : s.synFlag = false) (hfin : s.finFlag = false) :
      Emits s s.sendSyn
  | next (len : ℕ) (fin : Bool) (hsyn : s.synFlag = true) (hfin : s.finFlag = false)
      (hlen : len ≤ TCPConfig.maxPayloadSize)
      (hpos : 0 < (s.stream.buf.take len).length + fin.toNat)
      (hroom : (s.stream.buf.take len).length + fin.toNat ≤ s.room)
      (heof : fin = true → (s.stream.read len).2.eof = true) : Emits s (s.sendNext len fin)

/-! ## The fields of a sender that has sent -/

section Fields

variable (s : TCPSender) (len : ℕ) (fin : Bool)

/-- The segment that `send_next` puts in the queues. -/
def nextSegment : TCPSegment :=
  { header := { seqno := wrap s.nextSeqno s.isn, fin }, payload := s.stream.buf.take len }

/-- The segment that `send_syn` puts in the queues. -/
def synSegment : TCPSegment := { header := { seqno := wrap s.nextSeqno s.isn, syn := true } }

theorem lengthInSequenceSpace_nextSegment :
    (s.nextSegment len fin).lengthInSequenceSpace =
      (s.stream.buf.take len).length + fin.toNat := rfl

theorem sendNext_eq : s.sendNext len fin =
    { s with
      stream := (s.stream.read len).2
      finFlag := s.finFlag || fin
      nextSeqno := s.nextSeqno + (s.nextSegment len fin).lengthInSequenceSpace
      segmentsOut := s.segmentsOut ++ [s.nextSegment len fin]
      copySegmentsOut := s.copySegmentsOut ++ [s.nextSegment len fin]
      timer := if s.timer.running then s.timer
        else .startWith s.initialRetransmissionTimeout } := by
  simp only [sendNext, sendSegment, nextSegment, ByteStream.read_fst]

theorem sendSyn_eq : s.sendSyn =
    { s with
      synFlag := true
      nextSeqno := s.nextSeqno + 1
      segmentsOut := s.segmentsOut ++ [s.synSegment]
      copySegmentsOut := s.copySegmentsOut ++ [s.synSegment]
      timer := if s.timer.running then s.timer
        else .startWith s.initialRetransmissionTimeout } := rfl

/-- A FIN alone is a read of nothing. -/
theorem sendFin_eq (s : TCPSender) :
    { s.sendSegment { header := { fin := true } } with finFlag := true } = s.sendNext 0 true := by
  have hread : s.stream.read 0 = ([], s.stream) := by
    simp [ByteStream.read, ByteStream.readLen_eq, ByteStream.peekOutput, ByteStream.popOutput]
  simp only [sendNext, hread, sendSegment, Bool.or_true]

theorem room_sendNext : (s.sendNext len fin).room =
    sub64 s.room ((s.stream.buf.take len).length + fin.toNat) := by
  rw [sendNext_eq]
  simp only [room, bytesInFlight, lengthInSequenceSpace_nextSegment]
  exact sub64_sub64_add _ _ _ _

end Fields

/-! ## The loop -/

variable {s s' s'' : TCPSender}

/-- A FIN goes with the last bytes only, and there is a number for it. -/
theorem of_finFits {rem : ℕ} (h : s.finFits rem = true) :
    (s.stream.read (min rem TCPConfig.maxPayloadSize)).2.eof = true ∧
      (s.stream.buf.take (min rem TCPConfig.maxPayloadSize)).length + 1 ≤ rem := by
  rw [finFits, Bool.and_eq_true, decide_eq_true_iff, ByteStream.read_fst] at h
  exact h

/-- **One turn of the loop is an emission.** -/
theorem turn_emits (hsyn : s.synFlag = true) (hfin : s.finFlag = false) (hroom : 0 < s.room)
    (hne : s.stream.buf ≠ []) :
    Emits s (s.sendNext (min s.room TCPConfig.maxPayloadSize) (s.finFits s.room)) := by
  have hlen : 0 < s.stream.buf.length := List.length_pos_iff.mpr hne
  have hmax : 0 < TCPConfig.maxPayloadSize := by decide
  have htake : (s.stream.buf.take (min s.room TCPConfig.maxPayloadSize)).length =
      min (min s.room TCPConfig.maxPayloadSize) s.stream.buf.length := List.length_take
  refine .next _ _ hsyn hfin (min_le_right _ _) ?_ ?_ fun h => (of_finFits h).1
  · omega
  · cases hf : s.finFits s.room with
    | false => simp only [Bool.toNat_false]; omega
    | true => exact (of_finFits hf).2

/-- **The loop is a run of emissions.**  What it counts down is the room in the window, and a FIN
leaves nothing in the buffer for another turn. -/
theorem fillLoop_emits : ∀ (fuel : ℕ) (s : TCPSender), s.synFlag = true →
    (s.finFlag = true → s.stream.buf = []) → ReflTransGen Emits s (fillLoop fuel s.room s) := by
  intro fuel
  induction fuel with
  | zero => exact fun s _ _ => .refl
  | succ fuel ih =>
    intro s hsyn hfin
    rw [fillLoop]
    split_ifs with hcond
    · obtain ⟨hrem, hbuf⟩ := hcond
      have hne : s.stream.buf ≠ [] := by
        rw [Ne, ← s.stream.bufferEmpty_iff, hbuf]
        exact Bool.false_ne_true
      have hopen : s.finFlag = false := by
        cases hf : s.finFlag with
        | false => rfl
        | true => exact absurd (hfin hf) hne
      refine .head (turn_emits hsyn hopen hrem hne) ?_
      simp only [ByteStream.read_fst, ← s.room_sendNext]
      refine ih _ ?_ ?_
      · rw [sendNext_eq]
        exact hsyn
      · rw [sendNext_eq, hopen, Bool.false_or]
        exact fun h => ((ByteStream.eof_iff _).mp (of_finFits h).1).2
    · exact .refl

/-- The fuel `fill_window` gives the loop, one unit for each byte in the buffer, is enough: more of
it changes nothing. -/
theorem fillLoop_fuel : ∀ (fuel rem : ℕ) (s : TCPSender), s.stream.bufferSize ≤ fuel →
    fillLoop (fuel + 1) rem s = fillLoop fuel rem s := by
  intro fuel
  induction fuel with
  | zero =>
    intro rem s h
    have hempty : s.stream.bufferEmpty = true := by
      rw [ByteStream.bufferEmpty, beq_iff_eq]
      omega
    simp [fillLoop, hempty]
  | succ fuel ih =>
    intro rem s h
    unfold fillLoop
    split_ifs with hcond
    · refine ih _ _ ?_
      have hmax : 0 < TCPConfig.maxPayloadSize := by decide
      rw [sendNext_eq, ByteStream.bufferSize, ByteStream.read_buf, List.length_drop]
      unfold ByteStream.bufferSize at h
      omega
    · rfl

/-- **`fill_window` is a run of emissions.** -/
theorem fillWindow_emits (s : TCPSender) : ReflTransGen Emits s s.fillWindow := by
  unfold fillWindow
  split_ifs with hidle hsyn heof hroom
  · exact .refl
  · exact .single (.syn (fun h => hidle (Or.inl h)) hsyn
      (by simpa using fun h => hidle (Or.inr (Or.inl h))))
  · exact .refl
  · have hfin : s.finFlag = false := by simpa using fun h => hidle (Or.inr (Or.inl h))
    rw [sendFin_eq]
    refine .single (.next 0 true (by simpa using hsyn) hfin (Nat.zero_le _) ?_ ?_ fun _ => ?_)
    · simp
    · simp only [List.take_zero, List.length_nil, Bool.toNat_true]
      omega
    · rw [ByteStream.eof_iff] at heof ⊢
      simpa using heof
  · have hfin : s.finFlag = false := by simpa using fun h => hidle (Or.inr (Or.inl h))
    exact fillLoop_emits _ s (by simpa using hsyn) (by simp [hfin])

/-- What every emission keeps, `fill_window` keeps. -/
theorem fillWindow_induction {P : TCPSender → Prop} (h : P s)
    (keep : ∀ s s', P s → Emits s s' → P s') : P s.fillWindow := by
  have hrun := s.fillWindow_emits
  generalize s.fillWindow = s' at hrun ⊢
  induction hrun with
  | refl => exact h
  | tail _ hstep ih => exact keep _ _ ih hstep

/-! ## What is sent, whatever the stream holds -/

/-- A segment numbered for its place, of a size that fits a datagram; the sender leaves the ack
flag to the connection. -/
def NumberedAt (isn : WrappingInt32) (a : ℕ) (seg : TCPSegment) : Prop :=
  seg.header.seqno = wrap a isn ∧ seg.payload.length ≤ TCPConfig.maxPayloadSize ∧
    seg.header.ack = false

/-- What sending leaves alone. -/
structure Frame (s s' : TCPSender) : Prop where
  isn : s'.isn = s.isn
  initialRetransmissionTimeout :
    s'.initialRetransmissionTimeout = s.initialRetransmissionTimeout
  sendBase : s'.sendBase = s.sendBase
  windowSize : s'.windowSize = s.windowSize
  windowSizeZero : s'.windowSizeZero = s.windowSizeZero
  consecutiveRetransmissions : s'.consecutiveRetransmissions = s.consecutiveRetransmissions
  bytesWritten : s'.stream.bytesWritten = s.stream.bytesWritten
  inputEnded : s'.stream.inputEnded = s.stream.inputEnded
  error : s'.stream.error = s.stream.error

/-- **The segments `segs` have been sent**, numbered in order and without gap. -/
structure Sends (segs : List TCPSegment) (s s' : TCPSender) : Prop where
  segmentsOut : s'.segmentsOut = s.segmentsOut ++ segs
  copySegmentsOut : s'.copySegmentsOut = s.copySegmentsOut ++ segs
  tiles : Tiles TCPSegment.lengthInSequenceSpace (NumberedAt s.isn) s.nextSeqno segs s'.nextSeqno
  timer : s'.timer = if segs = [] ∨ s.timer.running = true then s.timer
    else .startWith s.initialRetransmissionTimeout
  frame : Frame s s'

theorem Frame.refl (s : TCPSender) : Frame s s := ⟨rfl, rfl, rfl, rfl, rfl, rfl, rfl, rfl, rfl⟩

theorem Frame.trans (h : Frame s s') (h' : Frame s' s'') : Frame s s'' where
  isn := h'.isn.trans h.isn
  initialRetransmissionTimeout :=
    h'.initialRetransmissionTimeout.trans h.initialRetransmissionTimeout
  sendBase := h'.sendBase.trans h.sendBase
  windowSize := h'.windowSize.trans h.windowSize
  windowSizeZero := h'.windowSizeZero.trans h.windowSizeZero
  consecutiveRetransmissions :=
    h'.consecutiveRetransmissions.trans h.consecutiveRetransmissions
  bytesWritten := h'.bytesWritten.trans h.bytesWritten
  inputEnded := h'.inputEnded.trans h.inputEnded
  error := h'.error.trans h.error

namespace Sends

theorem refl (s : TCPSender) : Sends [] s s where
  segmentsOut := (List.append_nil _).symm
  copySegmentsOut := (List.append_nil _).symm
  tiles := .nil _
  timer := by simp
  frame := .refl s

/-- **Sending goes on where it stopped.** -/
theorem trans {segs segs' : List TCPSegment} (h : Sends segs s s') (h' : Sends segs' s' s'') :
    Sends (segs ++ segs') s s'' where
  segmentsOut := by rw [h'.segmentsOut, h.segmentsOut, List.append_assoc]
  copySegmentsOut := by rw [h'.copySegmentsOut, h.copySegmentsOut, List.append_assoc]
  tiles := Tiles.append_iff.mpr ⟨_, h.tiles, h.frame.isn ▸ h'.tiles⟩
  timer := by
    rw [h'.timer, h.timer, h.frame.initialRetransmissionTimeout]
    cases segs <;> cases hr : s.timer.running <;> simp [hr, Timer.startWith]
  frame := h.frame.trans h'.frame

end Sends

/-- The segment of an emission. -/
theorem Emits.sends (h : Emits s s') : ∃ seg, Sends [seg] s s' := by
  cases h with
  | syn hwin hsyn hfin =>
    refine ⟨s.synSegment, rfl, rfl, ⟨⟨rfl, Nat.zero_le _, rfl⟩, Nat.one_pos, rfl⟩, ?_, ?_⟩
    · rw [sendSyn_eq]
      simp
    · exact ⟨rfl, rfl, rfl, rfl, rfl, rfl, rfl, rfl, rfl⟩
  | next len fin hsyn hfin hlen hpos hroom heof =>
    rw [sendNext_eq]
    refine ⟨s.nextSegment len fin, rfl, rfl, ⟨⟨rfl, ?_, rfl⟩, hpos, rfl⟩, by simp, ?_⟩
    · exact (List.length_take_le _ _).trans hlen
    · exact ⟨rfl, rfl, rfl, rfl, rfl, rfl, rfl, rfl, rfl⟩

/-- **`fill_window` sends a stretch of numbered segments.** -/
theorem fillWindow_sends (s : TCPSender) : ∃ segs, Sends segs s s.fillWindow := by
  refine fillWindow_induction (P := fun s' => ∃ segs, Sends segs s s') ⟨[], .refl s⟩ ?_
  rintro s' s'' ⟨segs, hsends⟩ hemit
  obtain ⟨seg, hsends'⟩ := hemit.sends
  exact ⟨segs ++ [seg], hsends.trans hsends'⟩

/-! ## What has been sent of what was written -/

/-- **The counters of a sender and the bytes its writer has put in.** -/
structure Sound (accepted : Bytes) (s : TCPSender) : Prop where
  bounded : s.stream.Bounded
  length : accepted.length = s.stream.bytesWritten
  text : accepted.drop s.stream.totalRead = s.stream.buf
  next : s.nextSeqno = s.synFlag.toNat + s.stream.totalRead + s.finFlag.toNat
  fin : s.finFlag = true → s.synFlag = true ∧ s.stream.eof = true
  idle : s.synFlag = false → s.stream.totalRead = 0

/-- **The sender's transcript**: the bytes it has taken from its stream, and its FIN. -/
def transcript (s : TCPSender) (accepted : Bytes) : Transcript :=
  ⟨s.isn, accepted.take s.stream.totalRead, s.finFlag⟩

variable {accepted : Bytes}

namespace Sound

theorem new (capacity : UInt64) (retxTimeout : UInt16) (isn : WrappingInt32) :
    Sound [] (.new capacity retxTimeout isn) where
  bounded := .new capacity
  length := rfl
  text := rfl
  next := rfl
  fin := by simp [TCPSender.new]
  idle _ := rfl

theorem totalRead_le (h : s.Sound accepted) : s.stream.totalRead ≤ accepted.length := by
  rw [h.length, h.bounded.count]
  omega

theorem length_sent (h : s.Sound accepted) :
    (s.transcript accepted).sent.length = s.stream.totalRead :=
  List.length_take_of_le h.totalRead_le

/-- Once the SYN is out, the next number is where the transcript stops. -/
theorem nextSeqno_eq (h : s.Sound accepted) (hsyn : s.synFlag = true) :
    s.nextSeqno = (s.transcript accepted).stop := by
  rw [h.next, hsyn, Transcript.stop, h.length_sent]
  rfl

/-- A FIN stands for the whole stream. -/
theorem sent_eq_of_fin (h : s.Sound accepted) (hfin : s.finFlag = true) :
    (s.transcript accepted).sent = accepted := by
  have heof := ((ByteStream.eof_iff _).mp (h.fin hfin).2).2
  have hle : accepted.length ≤ s.stream.totalRead := by
    rw [← List.drop_eq_nil_iff, h.text, heof]
  exact List.take_of_length_le hle

end Sound

/-- **The segments sent are the next part of the transcript.** -/
structure Extends (accepted : Bytes) (segs : List TCPSegment) (s s' : TCPSender) : Prop
    extends Sends segs s s' where
  sound : s'.Sound accepted
  grows : (s.transcript accepted).Le (s'.transcript accepted)
  carried : Tiles TCPSegment.lengthInSequenceSpace (s'.transcript accepted).Carries
    s.nextSeqno segs s'.nextSeqno

theorem Extends.refl (h : s.Sound accepted) : Extends accepted [] s s :=
  ⟨.refl s, h, .refl _, .nil _⟩

theorem Extends.trans {segs segs' : List TCPSegment} (h : Extends accepted segs s s')
    (h' : Extends accepted segs' s' s'') : Extends accepted (segs ++ segs') s s'' where
  toSends := h.toSends.trans h'.toSends
  sound := h'.sound
  grows := h.grows.trans h'.grows
  carried := Tiles.append_iff.mpr
    ⟨_, h.carried.imp fun _ _ _ _ hc => hc.mono h'.grows, h'.carried⟩

/-- The SYN is the beginning of every transcript. -/
theorem Sound.sendSyn (h : s.Sound accepted) (hsyn : s.synFlag = false) (hfin : s.finFlag = false) :
    s.sendSyn.Sound accepted ∧ (s.transcript accepted).Carries s.nextSeqno s.synSegment := by
  have hnext : s.nextSeqno = 0 := by simp [h.next, hsyn, hfin, h.idle hsyn]
  rw [sendSyn_eq]
  exact ⟨⟨h.bounded, h.length, h.text, by simp [h.next, hsyn, hfin, h.idle hsyn],
    by simp [hfin], by simp⟩, rfl, Or.inl ⟨rfl, hnext, rfl, rfl⟩⟩

/-- The bytes that `send_next` reads are the next ones of the transcript. -/
theorem Sound.sendNext (h : s.Sound accepted) {len : ℕ} {fin : Bool} (hsyn : s.synFlag = true)
    (hfin : s.finFlag = false) (heof : fin = true → (s.stream.read len).2.eof = true) :
    (s.sendNext len fin).Sound accepted ∧
      (s.transcript accepted).Le ((s.sendNext len fin).transcript accepted) ∧
      ((s.sendNext len fin).transcript accepted).Carries s.nextSeqno (s.nextSegment len fin) := by
  have hnext : s.nextSeqno = 1 + s.stream.totalRead := by simp [h.next, hsyn, hfin]
  have hread : (s.stream.read len).2.totalRead =
      s.stream.totalRead + (s.stream.buf.take len).length := s.stream.read_totalRead len
  have hcount : s.stream.totalRead + (s.stream.buf.take len).length ≤ accepted.length := by
    rw [h.length, h.bounded.count, List.length_take]
    omega
  have hsent : (accepted.take (s.stream.read len).2.totalRead).drop s.stream.totalRead =
      s.stream.buf.take len := by
    rw [hread, List.drop_take, h.text, Nat.add_sub_cancel_left, List.length_take,
      ← List.take_eq_take_min]
  rw [sendNext_eq]
  refine ⟨⟨h.bounded.read len, h.length, ?_, ?_, fun hf => ?_, by simp [hsyn]⟩,
    ⟨rfl, List.take_prefix_take_left (by rw [hread]; omega), fun hf => by cases hf.symm.trans hfin⟩,
    rfl, Or.inr ⟨rfl, Or.inr (by omega), ?_, fun hf => ⟨?_, ?_⟩⟩⟩
  · rw [hread, ByteStream.read_buf, ← List.drop_drop, h.text, List.length_take,
      ← List.drop_eq_drop_min]
  · simp only [hnext, hread, hsyn, hfin, lengthInSequenceSpace_nextSegment, Bool.false_or,
      Bool.toNat_true]
    omega
  · exact ⟨hsyn, heof (by simpa [hfin] using hf)⟩
  · rw [hnext, Nat.add_sub_cancel_left]
    exact hsent ▸ List.prefix_rfl
  · change (s.finFlag || fin) = true
    rw [show fin = true from hf, Bool.or_true]
  · change s.nextSeqno - 1 + (s.stream.buf.take len).length =
      (accepted.take (s.stream.read len).2.totalRead).length
    rw [hnext, hread, List.length_take_of_le hcount, Nat.add_sub_cancel_left]

/-- **An emission extends the transcript by one segment.** -/
theorem Emits.extends (h : Emits s s') (hs : s.Sound accepted) :
    ∃ seg, Extends accepted [seg] s s' := by
  obtain ⟨seg, hsends⟩ := h.sends
  refine ⟨seg, ?_⟩
  cases h with
  | syn hwin hsyn hfin =>
    obtain ⟨hsound, hcarries⟩ := hs.sendSyn hsyn hfin
    obtain rfl : s.synSegment = seg := by simpa [sendSyn_eq] using hsends.segmentsOut
    exact ⟨hsends, hsound, .refl _, hcarries, hsends.tiles.2⟩
  | next len fin hsyn hfin hlen hpos hroom heof =>
    obtain ⟨hsound, hgrows, hcarries⟩ := hs.sendNext hsyn hfin heof
    obtain rfl : s.nextSegment len fin = seg := by simpa [sendNext_eq] using hsends.segmentsOut
    exact ⟨hsends, hsound, hgrows, hcarries, hsends.tiles.2⟩

/-- **`fill_window` sends a stretch of the transcript.** -/
theorem fillWindow_extends (h : s.Sound accepted) :
    ∃ segs, Extends accepted segs s s.fillWindow := by
  refine fillWindow_induction (P := fun s' => ∃ segs, Extends accepted segs s s') ⟨[], .refl h⟩ ?_
  rintro s' s'' ⟨segs, hext⟩ hemit
  obtain ⟨seg, hext'⟩ := hemit.extends hext.sound
  exact ⟨segs ++ [seg], hext.trans hext'⟩

end TCPSender
