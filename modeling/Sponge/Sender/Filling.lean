import Sponge.Sender.Counters

/-!
# Sender/Filling — how far `fill_window` goes

`fill_window` stops for one of two reasons: there is no room left in the window, or nothing is left
to send (`Filled`).  The room is the `uint64_t` difference of the window and what is in flight, so
this says that the window is filled completely (`window_filled`), and also what happens when more is
in flight than the window allows: the difference wraps, and everything there is to send goes out
(`window_respected`).
-/

open Word64

namespace TCPSender

variable {s s' : TCPSender}

/-- `fill_window` gets to its data or its FIN. -/
def HasWork (s : TCPSender) : Prop :=
  s.synFlag = true ∧ s.finFlag = false ∧ (s.stream.bufferEmpty = false ∨ s.stream.inputEnded = true)

instance (s : TCPSender) : Decidable s.HasWork := inferInstanceAs (Decidable (_ ∧ _ ∧ _))

/-- With nothing to do, `fill_window` sends at most the SYN. -/
theorem fillWindow_of_not_hasWork (h : ¬ s.HasWork) :
    s.fillWindow = s ∨ s.synFlag = false ∧ s.fillWindow = s.sendSyn := by
  unfold TCPSender.fillWindow
  split_ifs with hstop hsyn heof hroom
  · exact Or.inl rfl
  · exact Or.inr ⟨hsyn, rfl⟩
  all_goals
    refine absurd ⟨by simpa using hsyn, ?_, ?_⟩ h
    · by_contra hfin
      exact hstop (Or.inr (Or.inl (by simpa using hfin)))
    · by_contra hno
      refine hstop (Or.inr (Or.inr ⟨by simpa using hsyn, ?_⟩))
      simpa using hno

/-! ## Until the window is full -/

/-- **There is no room in the window, or nothing left to send.** -/
def Filled (s : TCPSender) : Prop :=
  s.room = 0 ∨ s.stream.buf = [] ∧ (s.stream.inputEnded = true → s.finFlag = true)

/-- There is no room exactly if the window is in flight. -/
theorem room_eq_zero_iff (hwin : s.windowSize < 2 ^ 64) :
    s.room = 0 ↔ s.bytesInFlight = s.windowSize := by
  have := s.bytesInFlight_lt
  unfold room sub64
  omega

/-- The last bytes take the FIN with them, unless they take the last of the room. -/
theorem turn_filled {rem : ℕ} (hrem : s.room = rem)
    (hempty : (s.stream.read (min rem TCPConfig.maxPayloadSize)).2.buf = []) :
    (s.sendNext (min rem TCPConfig.maxPayloadSize) (s.finFits rem)).Filled := by
  cases hf : s.finFits rem with
  | true =>
    rw [sendNext_eq]
    exact Or.inr ⟨hempty, fun _ => Bool.or_true _⟩
  | false =>
    by_cases hend : s.stream.inputEnded = true
    · left
      have heof : (s.stream.read (min rem TCPConfig.maxPayloadSize)).2.eof = true :=
        (ByteStream.eof_iff _).mpr ⟨hend, hempty⟩
      rw [finFits, heof, Bool.true_and, decide_eq_false_iff_not, ByteStream.read_fst] at hf
      have htake : (s.stream.buf.take (min rem TCPConfig.maxPayloadSize)).length ≤ rem :=
        (List.length_take_le _ _).trans (min_le_left _ _)
      rw [room_sendNext, hrem, Bool.toNat_false, Nat.add_zero,
        Nat.le_antisymm htake (by omega), sub64_self]
    · rw [sendNext_eq]
      exact Or.inr ⟨hempty, fun hended => absurd hended hend⟩

/-- **The loop goes on until it is done.** -/
theorem fillLoop_filled : ∀ (fuel : ℕ) (s : TCPSender), s.stream.bufferSize ≤ fuel →
    (s.stream.buf = [] → s.Filled) → (fillLoop fuel s.room s).Filled := by
  intro fuel
  induction fuel with
  | zero =>
    intro s hfuel hdone
    exact hdone (List.length_eq_zero_iff.mp (Nat.le_zero.mp hfuel))
  | succ fuel ih =>
    intro s hfuel hdone
    rw [fillLoop]
    split_ifs with hcond
    · simp only [ByteStream.read_fst, ← s.room_sendNext]
      refine ih _ ?_ fun hempty => turn_filled rfl ?_
      swap
      · rwa [sendNext_eq] at hempty
      have hmax : 0 < TCPConfig.maxPayloadSize := by decide
      rw [sendNext_eq, ByteStream.bufferSize, ByteStream.read_buf, List.length_drop]
      unfold ByteStream.bufferSize at hfuel
      omega
    · by_cases hroom : s.room = 0
      · exact Or.inl hroom
      · refine hdone (s.stream.bufferEmpty_iff.mp ?_)
        by_contra hne
        exact hcond ⟨by omega, by simpa using hne⟩

/-- **`fill_window` goes on until it is done**, once the SYN is out. -/
theorem fillWindow_filled (hwin : 0 < s.windowSize) (hsyn : s.synFlag = true)
    (hfin : s.finFlag = true → s.stream.buf = []) : s.fillWindow.Filled := by
  unfold TCPSender.fillWindow
  split_ifs with hstop hno heof hroom
  · rcases hstop with h | h | ⟨-, hempty, hopen⟩
    · omega
    · exact Or.inr ⟨hfin h, fun _ => h⟩
    · refine Or.inr ⟨s.stream.bufferEmpty_iff.mp hempty, fun hend => ?_⟩
      cases hopen.symm.trans hend
  · cases hno.symm.trans hsyn
  · exact Or.inl hroom
  · exact Or.inr ⟨((ByteStream.eof_iff _).mp heof).2, fun _ => rfl⟩
  · refine fillLoop_filled _ s le_rfl fun hempty => absurd ?_ hstop
    refine Or.inr (Or.inr ⟨hsyn, s.stream.bufferEmpty_iff.mpr hempty, ?_⟩)
    by_contra hend
    exact heof ((ByteStream.eof_iff _).mpr ⟨by simpa using hend, hempty⟩)

/-! ## Within the window -/

/-- What is in flight fits the window recorded. -/
structure Fits (s : TCPSender) : Prop where
  base_le : s.sendBase ≤ s.nextSeqno
  next_le : s.nextSeqno ≤ s.sendBase + s.windowSize
  window_lt : s.windowSize < 2 ^ 64

/-- While what is in flight fits, the remaining window is the true difference. -/
theorem Fits.room_eq (h : s.Fits) : s.room = s.sendBase + s.windowSize - s.nextSeqno := by
  obtain ⟨h₁, h₂, h₃⟩ := h
  rw [room, bytesInFlight, sub64_eq h₁ (by omega), sub64_eq (by omega) (by omega)]
  omega

/-- **An emission stays within the window.** -/
theorem Emits.fits (h : Emits s s') (hidle : s.synFlag = false → s.nextSeqno = 0)
    (hfits : s.Fits) : s'.Fits := by
  have hroom := hfits.room_eq
  obtain ⟨h₁, h₂, h₃⟩ := hfits
  cases h with
  | syn hwin hsyn hfin =>
    have hnext := hidle hsyn
    rw [sendSyn_eq]
    exact ⟨by simp only; omega, by simp only; omega, h₃⟩
  | next len fin hsyn hfin hlen hpos hle heof =>
    rw [sendNext_eq]
    refine ⟨?_, ?_, h₃⟩
    · simp only
      omega
    · simp only [lengthInSequenceSpace_nextSegment]
      omega

/-- An emission leaves the SYN sent. -/
theorem Emits.synFlag (h : Emits s s') : s'.synFlag = true := by
  cases h with
  | syn => rfl
  | next len fin hsyn =>
    rw [sendNext_eq]
    exact hsyn

/-- **Filling the window does not overfill it.** -/
theorem Fits.fillWindow (h : s.Fits) (hidle : s.synFlag = false → s.nextSeqno = 0) :
    s.fillWindow.Fits :=
  (fillWindow_induction (P := fun s => (s.synFlag = false → s.nextSeqno = 0) ∧ s.Fits) ⟨hidle, h⟩
    fun _ _ ih hemit =>
      ⟨fun hno => absurd (hemit.synFlag.symm.trans hno) (by simp), hemit.fits ih.1 ih.2⟩).2

/-- **With work to do and room for it, something is sent**: the counters of a filled sender leave no
other way. -/
theorem Counted.nextSeqno_lt_fillWindow (h : s.Counted) (hwork : s.HasWork) (hroom : s.room ≠ 0) :
    s.nextSeqno < s.fillWindow.nextSeqno := by
  obtain ⟨hsyn, hfin, hdata⟩ := hwork
  obtain ⟨segs, hsends⟩ := s.fillWindow_sends
  have hframe := hsends.frame
  refine hsends.tiles.le.lt_of_ne fun hsame => ?_
  have hnext := h.next
  have hnext' := h.fillWindow.next
  have hcount := h.bounded.count
  have hcount' := h.fillWindow.bounded.count
  rw [hframe.bytesWritten] at hcount'
  rw [hsyn, hfin, Bool.toNat_true, Bool.toNat_false] at hnext
  have hsyn' : s.fillWindow.synFlag = true := by
    by_contra hno
    have := h.fillWindow.nextSeqno_eq_zero_iff.mpr (by simpa using hno)
    omega
  rw [hsyn', Bool.toNat_true] at hnext'
  rcases fillWindow_filled h.window_pos hsyn (by simp [hfin]) with hfull | ⟨hempty, hdone⟩
  · refine hroom ?_
    rwa [room, bytesInFlight, ← hsame, hframe.sendBase, hframe.windowSize] at hfull
  · rw [hempty, List.length_nil] at hcount'
    rcases hdata with hbuf | hend
    · have hpos : 0 < s.stream.buf.length := by
        rw [List.length_pos_iff, Ne, ← s.stream.bufferEmpty_iff, hbuf]
        exact Bool.false_ne_true
      omega
    · rw [hdone (hframe.inputEnded.trans hend), Bool.toNat_true] at hnext'
      omega

/-- A sender for which `fill_window` has nothing to send: all is sent, or nothing can be. -/
def Quiet (s : TCPSender) : Prop :=
  s.finFlag = true ∨ s.synFlag = true ∧
    (s.room = 0 ∨ s.stream.bufferEmpty = true ∧ s.stream.inputEnded = false)

instance (s : TCPSender) : Decidable s.Quiet := inferInstanceAs (Decidable (_ ∨ _))

theorem Quiet.fillWindow (h : s.Quiet) : s.fillWindow = s := by
  unfold TCPSender.fillWindow
  rcases h with hfin | ⟨hsyn, hroom | hidle⟩
  · rw [if_pos (Or.inr (Or.inl hfin))]
  · have hloop : s.fillLoop s.stream.bufferSize 0 = s := by
      cases s.stream.bufferSize with
      | zero => rfl
      | succ n => rw [fillLoop, if_neg (by simp)]
    simp only [hsyn, hroom, hloop, Bool.true_eq_false, if_false, if_true, ite_self]
  · rw [if_pos (Or.inr (Or.inr ⟨hsyn, hidle⟩))]

/-- **When `fill_window` sends nothing.** -/
theorem Counted.fillWindow_nextSeqno_eq_iff (h : s.Counted) :
    s.fillWindow.nextSeqno = s.nextSeqno ↔ s.Quiet := by
  refine ⟨fun hsame => ?_, fun hquiet => by rw [hquiet.fillWindow]⟩
  by_contra hno
  rw [Quiet, not_or, not_and, not_or, not_and] at hno
  obtain ⟨hfin, hrest⟩ := hno
  cases hsyn : s.synFlag with
  | true =>
    obtain ⟨hroom, hdata⟩ := hrest hsyn
    refine (h.nextSeqno_lt_fillWindow ⟨hsyn, by simpa using hfin, ?_⟩ hroom).ne' hsame
    by_cases hbuf : s.stream.bufferEmpty = true
    · exact Or.inr (by simpa using hdata hbuf)
    · exact Or.inl (by simpa using hbuf)
  | false =>
    have hzero := h.nextSeqno_eq_zero_iff.mpr hsyn
    have hsend : s.fillWindow = s.sendSyn := by
      unfold TCPSender.fillWindow
      rw [if_neg (by have := h.window_pos; simp [hsyn, hfin]; omega), if_pos hsyn]
    rw [hsend, sendSyn_eq] at hsame
    simp at hsame

/-- **After `fill_window` the SYN is sent.** -/
theorem Counted.synFlag_fillWindow (h : s.Counted) : s.fillWindow.synFlag = true := by
  by_contra hno
  have hzero := h.fillWindow.nextSeqno_eq_zero_iff.mpr (by simpa using hno)
  obtain ⟨segs, hsends⟩ := s.fillWindow_sends
  have hle := hsends.tiles.le
  have hsyn : s.synFlag = false := h.nextSeqno_eq_zero_iff.mp (by omega)
  rcases h.fillWindow_nextSeqno_eq_iff.mp (by omega) with hfin | ⟨hyes, -⟩
  · cases hsyn.symm.trans (h.fin hfin).1
  · cases hsyn.symm.trans hyes

/-- **When a fill of the window stays within it.** -/
theorem Counted.fillWindow_within_iff (h : s.Counted) (hfit : s.stream.bytesWritten + 2 < 2 ^ 64) :
    (s.fillWindow.nextSeqno ≠ s.nextSeqno → s.fillWindow.bytesInFlight ≤ s.windowSize) ↔
      ¬ (s.HasWork ∧ s.windowSize < s.bytesInFlight) := by
  obtain ⟨segs, hsends⟩ := s.fillWindow_sends
  have hle := hsends.tiles.le
  have hframe := hsends.frame
  have hwin := h.window_le
  have hlt : s.fillWindow.nextSeqno < 2 ^ 64 :=
    h.fillWindow.nextSeqno_le.trans_lt (by rw [hframe.bytesWritten]; exact hfit)
  have hflight := h.bytesInFlight_eq (hle.trans_lt hlt)
  have hflight' := h.fillWindow.bytesInFlight_eq hlt
  rw [hframe.sendBase] at hflight'
  constructor
  · rintro hwithin ⟨hwork, hover⟩
    have hsent := h.nextSeqno_lt_fillWindow hwork fun hfull => by
      rw [room_eq_zero_iff (by omega)] at hfull
      omega
    have := hwithin hsent.ne'
    omega
  · intro hno hsent
    by_cases hover : s.windowSize < s.bytesInFlight
    · -- nothing to do, and not at the very beginning: nothing is sent
      rcases fillWindow_of_not_hasWork fun hwork => hno ⟨hwork, hover⟩ with heq | ⟨hsyn, -⟩
      · rw [heq] at hsent
        exact absurd rfl hsent
      · have := h.nextSeqno_eq_zero_iff.mpr hsyn
        omega
    · have hfits : s.Fits := ⟨h.base, by omega, by omega⟩
      have := (hfits.fillWindow h.nextSeqno_eq_zero_iff.mpr).next_le
      rw [hframe.sendBase, hframe.windowSize] at this
      omega

end TCPSender

/-! ## Runs -/

namespace SenderRun

variable {isn : WrappingInt32} {r : SenderRun} {op : SenderOp} {capacity : UInt64}
  {retxTimeout : UInt16}

/-- The counters stay within 64 bits: fewer than `2 ^ 64 - 2` bytes are written. -/
def InWords (r : SenderRun) : SenderOp → Prop
  | .write data => r.sender.stream.bytesWritten + r.sender.stream.accepted data + 2 < 2 ^ 64
  | _ => True

instance (r : SenderRun) (op : SenderOp) : Decidable (r.InWords op) :=
  match op with
  | .write _ => inferInstanceAs (Decidable (_ < _))
  | .endInput | .fillWindow | .ackReceived .. | .tick _ | .sendEmptySegment =>
    inferInstanceAs (Decidable True)

/-- Every call keeps the counters in step. -/
theorem apply_counted (h : r.sender.Counted) (op : SenderOp) : (r.apply op).sender.Counted := by
  cases op with
  | write data => exact h.writeIn data
  | endInput => exact h.endIn
  | fillWindow => exact h.fillWindow
  | ackReceived ackno window => exact h.ackReceived ackno window
  | tick ms => exact h.tick ms
  | sendEmptySegment => exact h.setSegmentsOut _

theorem reach_counted {ok : SenderRun → SenderOp → Prop}
    (h : Reach step ok (init capacity retxTimeout isn) r) : r.sender.Counted := by
  refine h.invariant (I := fun r => r.sender.Counted) (.new capacity retxTimeout isn)
    fun r op r' ih _ hs => ?_
  obtain rfl := Option.some.inj hs
  exact apply_counted ih op

/-- Only the writer adds to the bytes written. -/
theorem apply_bytesWritten (r : SenderRun) (op : SenderOp) :
    (r.apply op).sender.stream.bytesWritten = r.sender.stream.bytesWritten ∨
    ∃ data, op = .write data ∧ (r.apply op).sender.stream.bytesWritten =
      r.sender.stream.bytesWritten + r.sender.stream.accepted data := by
  cases op with
  | write data => exact Or.inr ⟨data, rfl, rfl⟩
  | endInput => exact Or.inl rfl
  | fillWindow =>
    obtain ⟨segs, hsends⟩ := r.sender.fillWindow_sends
    exact Or.inl hsends.frame.bytesWritten
  | ackReceived ackno window => exact Or.inl (r.sender.ackReceived_stream ackno window).1
  | tick ms =>
    obtain ⟨segs, count, timer, heq, -⟩ := r.sender.tick_frame ms
    rw [SenderRun.apply, heq]
    exact Or.inl rfl
  | sendEmptySegment => exact Or.inl rfl

theorem reach_written_lt (h : Reach step InWords (init capacity retxTimeout isn) r) :
    r.sender.stream.bytesWritten + 2 < 2 ^ 64 := by
  refine h.invariant (I := fun r => r.sender.stream.bytesWritten + 2 < 2 ^ 64) ?_
    fun r op r' ih hok hs => ?_
  · simp [init, TCPSender.new, ByteStream.new]
  · obtain rfl := Option.some.inj hs
    rcases r.apply_bytesWritten op with heq | ⟨data, rfl, heq⟩
    · rwa [heq]
    · rw [heq]
      exact hok

/-- A call that fills the window while there is something to send and more in flight than the
window allows: the window recorded, or the one that comes with an ack of new data. -/
def Overdrawn (r : SenderRun) : SenderOp → Prop
  | .fillWindow => r.sender.HasWork ∧ r.sender.windowSize < r.sender.bytesInFlight
  | .ackReceived ackno window =>
    let absoluteAckno := unwrap ackno r.sender.isn r.sender.sendBase
    r.sender.HasWork ∧ r.sender.sendBase < absoluteAckno ∧ absoluteAckno ≤ r.sender.nextSeqno ∧
      max window.toNat 1 < r.sender.nextSeqno - absoluteAckno
  | _ => False

/-- The call sends a new segment only if all that is then in flight fits the window. -/
def Respects (r : SenderRun) (op : SenderOp) : Prop :=
  (r.apply op).firsts ≠ r.firsts →
    (r.apply op).sender.bytesInFlight ≤ (r.apply op).sender.windowSize

instance (r : SenderRun) (op : SenderOp) : Decidable (r.Respects op) :=
  inferInstanceAs (Decidable (_ → _))

/-- **When a fill respects the window**, `s` being the sender as `fill_window` finds it. -/
theorem respects_fill {s : TCPSender} (hc : s.Counted) (hfit : s.stream.bytesWritten + 2 < 2 ^ 64)
    (hout : s.segmentsOut = r.sender.segmentsOut) :
    (r.firsts ++ emitted r.sender s.fillWindow ≠ r.firsts →
      s.fillWindow.bytesInFlight ≤ s.fillWindow.windowSize) ↔
      ¬ (s.HasWork ∧ s.windowSize < s.bytesInFlight) := by
  obtain ⟨segs, hsends⟩ := s.fillWindow_sends
  rw [emitted_eq (hout ▸ hsends.segmentsOut), ← hc.fillWindow_within_iff hfit,
    hsends.frame.windowSize, Ne, List.append_right_eq_self, hsends.tiles.eq_nil_iff, eq_comm]

/-- The ack case: the window is filled after the base has moved and the window been recorded. -/
theorem respects_ackReceived (hc : r.sender.Counted)
    (hfit : r.sender.stream.bytesWritten + 2 < 2 ^ 64) (ackno : WrappingInt32) (window : UInt16) :
    r.Respects (.ackReceived ackno window) ↔ ¬ r.Overdrawn (.ackReceived ackno window) := by
  have hsame : ∀ {s' : TCPSender}, r.sender.ackReceived ackno window = s' →
      s'.segmentsOut = r.sender.segmentsOut → r.Respects (.ackReceived ackno window) := by
    intro s' heq hout hne
    refine absurd ?_ hne
    have hnil : emitted r.sender s' = [] := emitted_eq (by rw [hout, List.append_nil])
    rw [SenderRun.apply, heq, hnil, List.append_nil]
  unfold Overdrawn
  obtain ⟨hlt, heq⟩ | ⟨-, hold, heq⟩ | ⟨hle, hnew, heq⟩ := r.sender.ackReceived_cases ackno window
  · exact iff_of_true (hsame heq rfl) fun h => by omega
  · refine iff_of_true (hsame heq ?_) fun h => by omega
    rw [TCPSender.recordWindow_eq]
  · unfold Respects
    rw [SenderRun.apply, heq]
    have hc₁ := hc.advanceBase hle window
    have hnext := hc.nextSeqno_le
    have hflight := hc₁.bytesInFlight_eq (by rw [TCPSender.advanceBase_eq]; simp only; omega)
    rw [TCPSender.advanceBase_eq] at hc₁ hflight ⊢
    refine (respects_fill hc₁ hfit rfl).trans (not_congr ?_)
    rw [hflight]
    exact ⟨fun h => ⟨h.1, hnew, hle, h.2⟩, fun h => ⟨h.1, h.2.2.2⟩⟩

/-- **When `fill_window` respects the window.**  In every run, a call leaves no more in flight than
the window if it sends anything, exactly if it does not fill an overdrawn window. -/
theorem window_respected (h : Reach step InWords (init capacity retxTimeout isn) r)
    (op : SenderOp) : r.Respects op ↔ ¬ r.Overdrawn op := by
  have hc := reach_counted h
  have hfit := reach_written_lt h
  cases op with
  | fillWindow => exact respects_fill hc hfit rfl
  | ackReceived ackno window => exact respects_ackReceived hc hfit ackno window
  | write | endInput | tick | sendEmptySegment =>
    exact ⟨fun _ => id, fun _ hne => absurd rfl hne⟩

/-- A window of four takes the first four of eight bytes. -/
theorem window_respected_run : ∃ r, Reach step InWords (init 64000 1000 ⟨0⟩) r ∧
    (r.apply .fillWindow).firsts ≠ r.firsts ∧ r.Respects .fillWindow := by
  obtain ⟨r, hr, hp⟩ := exists_reach_of_exec step InWords (init 64000 1000 ⟨0⟩)
    [.fillWindow, .ackReceived ⟨1⟩ 4, .write [97, 98, 99, 100, 101, 102, 103, 104]]
    (fun r => (r.apply .fillWindow).firsts != r.firsts &&
      decide (r.sender.bytesInFlight ≤ r.sender.windowSize)) (by decide)
  simp only [Bool.and_eq_true, bne_iff_ne, decide_eq_true_iff] at hp
  exact ⟨r, hr, hp.1, (window_respected hr .fillWindow).mpr fun h => absurd h.2 (by omega)⟩

/-- Four bytes are in flight when the window shrinks to two, and a fifth is sent. -/
theorem window_respected_shrunk : ∃ r, Reach step InWords (init 64000 1000 ⟨0⟩) r ∧
    (r.apply .fillWindow).firsts ≠ r.firsts ∧ ¬ r.Respects .fillWindow := by
  obtain ⟨r, hr, hp⟩ := exists_reach_of_exec step InWords (init 64000 1000 ⟨0⟩)
    [.fillWindow, .ackReceived ⟨1⟩ 4, .write [97, 98, 99, 100], .fillWindow, .ackReceived ⟨1⟩ 2,
      .write [101]]
    (fun r => (r.apply .fillWindow).firsts != r.firsts && !decide (r.Respects .fillWindow))
    (by decide)
  simp only [Bool.and_eq_true, bne_iff_ne, Bool.not_eq_true', decide_eq_false_iff_not] at hp
  exact ⟨r, hr, hp⟩

/-- **`fill_window` fills the window completely.**  In every run in which nothing is written after
`end_input`, once the SYN is sent, `fill_window` leaves the window full, or an empty buffer and,
if the input has ended, a FIN sent. -/
theorem window_filled (h : Reach step Disciplined (init capacity retxTimeout isn) r)
    (hsyn : r.sender.synFlag = true) :
    r.sender.fillWindow.windowSize ≤ r.sender.fillWindow.bytesInFlight ∨
      r.sender.fillWindow.stream.bufferEmpty = true ∧
        (r.sender.fillWindow.stream.inputEnded = true → r.sender.fillWindow.finFlag = true) := by
  have hc := reach_counted h
  have hs := (reach_sequenced h).sound
  have hwin := hc.fillWindow.window_le
  rcases TCPSender.fillWindow_filled hc.window_pos hsyn
    fun hf => ((ByteStream.eof_iff _).mp (hs.fin hf).2).2 with hfull | ⟨hempty, hdone⟩
  · exact Or.inl ((TCPSender.room_eq_zero_iff (by omega)).mp hfull).ge
  · exact Or.inr ⟨(ByteStream.bufferEmpty_iff _).mpr hempty, hdone⟩

/-- The window ends with the last byte: no room for the FIN. -/
theorem window_filled_run : ∃ r, Reach step Disciplined (init 64000 1000 ⟨0⟩) r ∧
    r.sender.synFlag = true ∧ r.sender.fillWindow.finFlag = false ∧
    (r.sender.fillWindow.windowSize ≤ r.sender.fillWindow.bytesInFlight ∨
      r.sender.fillWindow.stream.bufferEmpty = true ∧
        (r.sender.fillWindow.stream.inputEnded = true → r.sender.fillWindow.finFlag = true)) := by
  obtain ⟨r, hr, hp⟩ := exists_reach_of_exec step Disciplined (init 64000 1000 ⟨0⟩)
    [.fillWindow, .ackReceived ⟨1⟩ 3, .write [97, 98, 99], .endInput]
    (fun r => r.sender.synFlag && !r.sender.fillWindow.finFlag) (by decide)
  simp only [Bool.and_eq_true, Bool.not_eq_true'] at hp
  exact ⟨r, hr, hp.1, hp.2, window_filled hr hp.1⟩

end SenderRun
