import Sponge.Connection.Calls
import Sponge.Sender.Filling

/-!
# Connection/Silence — what a dead connection still says

A connection is dead once `active()` is false, and nothing revives it.  `segment_received` and
`tick` look at the flag first; `connect`, `write` and `end_input_stream` do not, and go on to
`push_segment_out`, which fills the window of a sender that knows nothing of the connection's end.
So a dead connection is silent exactly as long as its sender has nothing it could send
(`dead_silent`).  After a clean close that is always so, the FIN having been sent; after a reset it
need not be (`dead_silent_broken`).
-/

open Word64

namespace TCPConnection

variable {c c' : TCPConnection} {cfg : TCPConfig}

/-- Neither a SYN has been sent nor one received. -/
def Unopened (c : TCPConnection) : Prop := c.sender.synFlag = false ∧ c.receiver.syn = false

instance (c : TCPConnection) : Decidable c.Unopened := inferInstanceAs (Decidable (_ ∧ _))

/-- The call finds nothing to send: it does not get to the sender, or the sender has sent its FIN,
or the window is full, or there is neither a byte in the buffer nor one added nor an end of the
input. -/
def Mute (c : TCPConnection) : ConnCall → Prop
  | .connect => c.sender.Quiet
  | .write data => c.Unopened ∨ c.sender.finFlag = true ∨ c.sender.synFlag = true ∧
      (c.sender.room = 0 ∨ c.sender.stream.bufferEmpty = true ∧ c.sender.stream.accepted data = 0 ∧
        c.sender.stream.inputEnded = false)
  | .endInputStream =>
    c.Unopened ∨ c.sender.finFlag = true ∨ c.sender.synFlag = true ∧ c.sender.room = 0
  | .tick _ | .segmentReceived _ | .read _ | .pop _ => True

instance (c : TCPConnection) (op : ConnCall) : Decidable (c.Mute op) :=
  match op with
  | .connect => inferInstanceAs (Decidable c.sender.Quiet)
  | .write _ => inferInstanceAs (Decidable (_ ∨ _))
  | .endInputStream => inferInstanceAs (Decidable (_ ∨ _))
  | .tick _ | .segmentReceived _ | .read _ | .pop _ => inferInstanceAs (Decidable True)

/-- **When `push_segment_out` adds nothing.** -/
theorem segmentsOut_pushSegmentOut_eq_iff (hc : c.sender.Counted)
    (hqueue : c.sender.segmentsOut = []) (sendSyn : Bool) :
    (c.pushSegmentOut sendSyn).segmentsOut = c.segmentsOut ↔
      (sendSyn = false ∧ c.Unopened) ∨ c.sender.Quiet := by
  obtain ⟨outs, hout, hleaves⟩ := c.segmentsOut_pushSegmentOut sendSyn
  rw [hout, List.append_right_eq_self, hleaves.nil_iff]
  unfold fill
  split_ifs with hopen
  · obtain ⟨segs, hsends⟩ := c.sender.fillWindow_sends
    have hno : ¬ (sendSyn = false ∧ c.Unopened) := by
      rintro ⟨hsend, hsyn, hrecv⟩
      have hclosed := (sState_eq_closed_iff hc).mpr hsyn
      have hlisten := c.rState_eq_listening_iff.mpr hrecv
      simp [hsend, hclosed, hlisten] at hopen
    rw [or_iff_right hno, ← hc.fillWindow_nextSeqno_eq_iff]
    simp only
    rw [hsends.segmentsOut, hqueue, List.nil_append, hsends.tiles.eq_nil_iff, eq_comm]
  · push Not at hopen
    refine iff_of_true hqueue (Or.inl ⟨by simpa using hopen.1, ?_, ?_⟩)
    · exact (sState_eq_closed_iff hc).mp hopen.2.1
    · exact c.rState_eq_listening_iff.mp hopen.2.2

/-- A call that ends in `push_segment_out` on a dead connection. -/
theorem stays_silent_iff {d : TCPConnection} {op : ConnCall} (sendSyn : Bool)
    (hcount : d.sender.Counted) (hqueue : d.sender.segmentsOut = []) (hoff : d.active = false)
    (hsame : d.segmentsOut = c.segmentsOut) (hcall : c.call op = some (d.pushSegmentOut sendSyn)) :
    (∃ c', c.call op = some c' ∧ c'.active = false ∧ c'.segmentsOut = c.segmentsOut) ↔
      (sendSyn = false ∧ d.Unopened) ∨ d.sender.Quiet := by
  rw [← segmentsOut_pushSegmentOut_eq_iff hcount hqueue, hsame, hcall]
  refine ⟨?_, fun hout => ⟨_, rfl, active_pushSegmentOut _ _ hoff, hout⟩⟩
  rintro ⟨c', hc', -, hout⟩
  rwa [← Option.some.inj hc'] at hout

/-- **When a dead connection stays silent.**  In every run, and for every further call on a dead
connection, it stays dead and adds nothing to `segments_out`, exactly if the call finds nothing to
send. -/
theorem dead_silent (h : Reach call (fun _ _ => True) (new cfg) c) (hdead : c.active = false)
    (op : ConnCall) :
    (∃ c', c.call op = some c' ∧ c'.active = false ∧ c'.segmentsOut = c.segmentsOut) ↔
      c.Mute op := by
  have hidle := reach_idle h
  cases op with
  | connect =>
    rw [stays_silent_iff true hidle.counted hidle.queue hdead rfl rfl]
    simp [Mute]
  | write data =>
    rw [stays_silent_iff (c := c) (d := { c with sender := c.sender.writeIn data }) false
      (hidle.counted.writeIn data) hidle.queue hdead rfl rfl]
    refine or_congr (and_iff_right rfl) (or_congr Iff.rfl (and_congr_right fun _ =>
      or_congr Iff.rfl ?_))
    rw [← and_assoc, ← ByteStream.bufferEmpty_write]
    rfl
  | endInputStream =>
    rw [stays_silent_iff (c := c) (d := { c with sender := c.sender.endIn }) false
      hidle.counted.endIn hidle.queue hdead rfl rfl]
    refine or_congr (and_iff_right rfl) (or_congr Iff.rfl (and_congr_right fun _ =>
      or_iff_left ?_))
    simp [TCPSender.endIn, ByteStream.endInput]
  | tick ms =>
    refine iff_of_true ⟨c, ?_, hdead, rfl⟩ trivial
    simp [call, tick, hdead]
  | segmentReceived seg =>
    refine iff_of_true ⟨c, ?_, hdead, rfl⟩ trivial
    simp [call, segmentReceived, hdead]
  | read len => exact iff_of_true ⟨_, rfl, hdead, rfl⟩ trivial
  | pop len => exact iff_of_true ⟨_, rfl, hdead, rfl⟩ trivial

/-- A connection is reset while its SYN fills the window; what is written then stays where it is. -/
theorem dead_silent_run : ∃ c, Reach call (fun _ _ => True) (new { isn := ⟨7⟩ }) c ∧
    c.active = false ∧ c.segmentsOut.length = 1 ∧
    ∃ c', c.call (.write [97]) = some c' ∧ c'.active = false ∧ c'.segmentsOut = c.segmentsOut := by
  obtain ⟨c, hr, hp⟩ := exists_reach_of_exec call (fun _ _ => True) (new { isn := ⟨7⟩ })
    [.connect, .segmentReceived { header := { rst := true } }]
    (fun c => !c.active && c.segmentsOut.length == 1 && decide (c.Mute (.write [97]))) (by decide)
  simp only [Bool.and_eq_true, Bool.not_eq_true', beq_iff_eq, decide_eq_true_iff] at hp
  exact ⟨c, hr, hp.1.1, hp.1.2, (dead_silent hr hp.1.1 (.write [97])).mpr hp.2⟩

/-- A connection is reset after the handshake, and what is written then is sent. -/
theorem dead_silent_broken : ∃ c, Reach call (fun _ _ => True) (new { isn := ⟨7⟩ }) c ∧
    c.active = false ∧
    ¬ ∃ c', c.call (.write [97]) = some c' ∧ c'.active = false ∧
      c'.segmentsOut = c.segmentsOut := by
  obtain ⟨c, hr, hp⟩ := exists_reach_of_exec call (fun _ _ => True) (new { isn := ⟨7⟩ })
    [.connect, .segmentReceived { header := { syn := true, ack := true, ackno := ⟨8⟩, win := 10 } },
      .segmentReceived { header := { rst := true } }]
    (fun c => !c.active && (c.call (.write [97])).all fun c' => c'.segmentsOut != c.segmentsOut)
    (by decide)
  simp only [Bool.and_eq_true, Bool.not_eq_true', Option.all_eq_true, bne_iff_ne] at hp
  refine ⟨c, hr, hp.1, ?_⟩
  rintro ⟨c', hc', -, hout⟩
  exact hp.2 c' hc' hout

end TCPConnection
