import Sponge.Connection.States
import Sponge.Receiver.Arrivals

/-!
# Connection/TimeWait — the side that closes first lingers

The side whose FIN goes out before the peer's stream has ended may not close before it has heard
nothing for ten retransmission timeouts, since its last ack may be lost.  `clean_shutdown` tells the
sides apart by looking, at the end of every call, whether the inbound stream has ended while the
sender is not yet in `fin_sent`; the sender's state in turn is told from its counters.

A sender that has sent its FIN is in `fin_sent` or `fin_acked`, unless nothing of what it sent has
been acknowledged: then `s_state` says `syn_sent`, whatever else is in flight.  That is the only way
in which the wait is lost (`time_wait`), and an ack that acknowledges nothing but opens the window
leads there (`time_wait_skipped`).
-/

open Word64

namespace TCPSender

/-- Whoever is asked about a FIN in the list says that it was sent. -/
def Knows (finFlag : Bool) (segs : List TCPSegment) : Prop :=
  ∀ seg ∈ segs, seg.header.fin = true → finFlag = true

section Knows

variable {finFlag : Bool} {segs segs' : List TCPSegment}

/-- Two lists. -/
theorem Knows.append (h : Knows finFlag segs) (h' : Knows finFlag segs') :
    Knows finFlag (segs ++ segs') := by
  intro seg hseg
  exact (List.mem_append.mp hseg).elim (h seg) (h' seg)

theorem Knows.subset (h : Knows finFlag segs) (hsub : segs' ⊆ segs) : Knows finFlag segs' :=
  fun seg hseg => h seg (hsub hseg)

/-- A flag that is raised knows no less. -/
theorem Knows.or {fin : Bool} (h : Knows finFlag segs) : Knows (finFlag || fin) segs :=
  fun seg hseg hfin => by rw [h seg hseg hfin, Bool.true_or]

/-- A single segment. -/
theorem knows_singleton {seg : TCPSegment} (h : seg.header.fin = true → finFlag = true) :
    Knows finFlag [seg] := by
  intro seg' hseg
  rwa [List.mem_singleton.mp hseg]

end Knows

/-- **A FIN is sent once and ends the stream**: the flag knows of every FIN in the queues and in the
log of what has left, and after it nothing is left to send. -/
structure FinKnown (log : List TCPSegment) (s : TCPSender) : Prop where
  counted : s.Counted
  drained : s.finFlag = true → s.stream.buf = []
  log : Knows s.finFlag log
  queue : Knows s.finFlag s.segmentsOut
  copies : Knows s.finFlag s.copySegmentsOut

namespace FinKnown

variable {log : List TCPSegment} {s s' : TCPSender}

/-- An emission that sends the FIN raises the flag. -/
theorem emits (h : FinKnown log s) (hemit : Emits s s') : FinKnown log s' := by
  have hcount := h.counted.emits hemit
  cases hemit with
  | syn hwin hsyn hfin =>
    have hnew : Knows s.finFlag [s.synSegment] :=
      knows_singleton fun hno => absurd hno Bool.false_ne_true
    rw [sendSyn_eq] at hcount ⊢
    exact ⟨hcount, h.drained, h.log, h.queue.append hnew, h.copies.append hnew⟩
  | next len fin hsyn hfin hlen hpos hroom heof =>
    have hnew : Knows (s.finFlag || fin) [s.nextSegment len fin] :=
      knows_singleton fun hf => by simp [show fin = true from hf]
    have hdrained : (s.finFlag || fin) = true → (s.stream.read len).2.buf = [] := by
      rw [hfin, Bool.false_or]
      exact fun hf => ((ByteStream.eof_iff _).mp (heof hf)).2
    rw [sendNext_eq] at hcount ⊢
    exact ⟨hcount, hdrained, h.log.or, h.queue.or.append hnew, h.copies.or.append hnew⟩

/-- The whole of a `fill_window`. -/
theorem fillWindow (h : FinKnown log s) : FinKnown log s.fillWindow :=
  fillWindow_induction h fun _ _ ih hemit => ih.emits hemit

/-- An ack takes copies away, and may fill the window. -/
theorem ackReceived (h : FinKnown log s) (ackno : WrappingInt32) (window : UInt16) :
    FinKnown log (s.ackReceived ackno window) := by
  refine ackReceived_induction h ?_ (fun v hv => ?_) (fun _ hs => hs.fillWindow) fun _ hs =>
    ⟨hs.counted.restartTimer, hs.drained, hs.log, hs.queue, hs.copies⟩
  · have hcount := h.counted.recordWindow window
    rw [recordWindow_eq] at *
    exact ⟨hcount, h.drained, h.log, h.queue, h.copies⟩
  · have hcount := h.counted.advanceBase hv window
    rw [advanceBase_eq] at *
    exact ⟨hcount, h.drained, h.log, h.queue, h.copies.subset (List.dropWhile_subset _)⟩

/-- What the timer resends has been kept. -/
theorem tick (h : FinKnown log s) (ms : ℕ) : FinKnown log (s.tick ms) := by
  have hcount := h.counted.tick ms
  obtain ⟨segs, count, timer, heq, hold⟩ := s.tick_frame ms
  rw [heq] at hcount ⊢
  exact ⟨hcount, h.drained, h.log, h.queue.append (h.copies.subset hold), h.copies⟩

end FinKnown

namespace Counted

variable {s : TCPSender}

/-- A FIN that went out after all that was written has the last of the numbers. -/
theorem nextSeqno_eq_of_fin (h : s.Counted) (hfin : s.finFlag = true) (hempty : s.stream.buf = []) :
    s.nextSeqno = s.stream.bytesWritten + 2 := by
  have hnext := h.next
  have hcount := h.bounded.count
  rw [hfin, (h.fin hfin).1] at hnext
  simp only [hempty, List.length_nil, Bool.toNat_true] at *
  omega

/-- After the first ack not all that was sent is in flight. -/
theorem bytesInFlight_lt_of_base (h : s.Counted) (hbase : 0 < s.sendBase) :
    s.bytesInFlight < s.nextSeqno := by
  have hle := h.base
  rcases Nat.lt_or_ge s.nextSeqno (2 ^ 64) with hlt | hge
  · rw [h.bytesInFlight_eq hlt]
    omega
  · exact s.bytesInFlight_lt.trans_le hge

end Counted

end TCPSender

namespace TCPConnection

variable {c c' e : TCPConnection} {op : ConnCall}

/-- What the flag says of a FIN stays true. -/
theorem kept_finKnown : SenderKept TCPSender.FinKnown where
  fillWindow _ _ h := h.fillWindow
  ackReceived _ _ _ _ h := h.ackReceived _ _
  tick _ _ _ h := h.tick _
  sendEmptySegment _ _ h := ⟨h.counted.setSegmentsOut _, h.drained, h.log,
    h.queue.append (TCPSender.knows_singleton fun hno => absurd hno Bool.false_ne_true), h.copies⟩
  setError _ _ h := ⟨h.counted.setError, h.drained, h.log, h.queue, h.copies⟩
  leave log s r outs h hleaves := by
    refine ⟨h.counted.setSegmentsOut _, h.drained, h.log.append fun out hout hfin => ?_,
      fun seg hseg => absurd hseg List.not_mem_nil, h.copies⟩
    obtain ⟨seg, hseg, hstamped⟩ := hleaves.stamped out hout
    exact h.queue seg hseg (hstamped.fin ▸ hfin)

/-- A FIN that has left stays in the log. -/
theorem kept_finLeft : SenderKept fun log _ => ∃ seg ∈ log, seg.header.fin = true where
  fillWindow _ _ h := h
  ackReceived _ _ _ _ h := h
  tick _ _ _ h := h
  sendEmptySegment _ _ h := h
  setError _ _ h := h
  leave _ _ _ _ h _ := h.imp fun _ hseg => ⟨List.mem_append_left _ hseg.1, hseg.2⟩

/-- An inbound stream that has ended stays so. -/
theorem receiverKept_inputEnded : ReceiverKept fun r => r.streamOut.inputEnded = true where
  segmentReceived _ _ _ h hr := (TCPReceiver.segmentReceived_induction
    (P := fun s => s.inputEnded = true) (fun _ _ hs => hs) (fun _ _ => rfl) h hr).1
  readOut _ _ h := h
  popOut _ _ h := h
  setError _ h := h

/-! ## Closing -/

/-- The FIN is out and the peer's stream has ended, but nothing sent has been acknowledged, so that
`s_state` takes the FIN for unsent. -/
def Misread (c : TCPConnection) : Prop :=
  c.receiver.streamOut.inputEnded = true ∧ c.sender.finFlag = true ∧ c.sender.sendBase = 0

instance (c : TCPConnection) : Decidable c.Misread := inferInstanceAs (Decidable (_ ∧ _ ∧ _))

/-- **After its FIN a sender is told to be past `fin_sent`**, unless nothing is acknowledged. -/
theorem sendBase_eq_zero_of_beforeFinSent (h : c.sender.FinKnown c.segmentsOut)
    (hfin : c.sender.finFlag = true) (hbefore : c.sState.beforeFinSent = true) :
    c.sender.sendBase = 0 := by
  by_contra hbase
  have hempty := h.drained hfin
  have hnext := h.counted.nextSeqno_eq_of_fin hfin hempty
  have hflight : c.bytesInFlight < c.sender.nextSeqno :=
    h.counted.bytesInFlight_lt_of_base (Nat.pos_of_ne_zero hbase)
  have heof : c.sender.stream.eof = true :=
    (ByteStream.eof_iff _).mpr ⟨(h.counted.fin hfin).2, hempty⟩
  unfold sState at hbefore
  rw [if_neg (by omega), if_neg (by omega), if_neg (by simp [heof, hnext]),
    if_pos ⟨heof, hnext⟩] at hbefore
  split_ifs at hbefore <;> cases hbefore

/-- **What `clean_shutdown` decides**, told from the state it leaves. -/
theorem cleanShutdown_flags (e : TCPConnection) :
    (e.cleanShutdown.lingerAfterStreamsFinish = false → e.lingerAfterStreamsFinish = false ∨
      e.cleanShutdown.rState = .finRecv ∧ e.cleanShutdown.sState.beforeFinSent = true) ∧
    (e.cleanShutdown.active = false → e.active = false ∨
      e.cleanShutdown.rState = .finRecv ∧ e.cleanShutdown.sState = .finAcked ∧
        (e.lingerAfterStreamsFinish = false ∨
          10 * e.cfg.rtTimeout.toNat ≤ e.timeSinceLastSegmentReceived)) := by
  have hstates : e.cleanShutdown.rState = e.rState ∧ e.cleanShutdown.sState = e.sState := by
    obtain ⟨linger, active, heq, -⟩ := e.cleanShutdown_eq
    rw [heq]
    exact ⟨rfl, rfl⟩
  have hlinger : e.cleanShutdown.lingerAfterStreamsFinish =
      e.dropLinger.lingerAfterStreamsFinish := by
    unfold cleanShutdown closeIfDone
    split_ifs <;> rfl
  rw [hstates.1, hstates.2, hlinger]
  unfold cleanShutdown
  by_cases hdrop : e.rState = .finRecv ∧ e.sState.beforeFinSent = true
  · -- before `fin_sent` nothing is closed
    have hnot : e.sState ≠ .finAcked := by
      intro hacked
      rw [hacked] at hdrop
      cases hdrop.2
    rw [dropLinger, if_pos hdrop, closeIfDone, if_neg fun hdone => hnot hdone.2.1]
    exact ⟨fun _ => Or.inr hdrop, Or.inl⟩
  · rw [dropLinger, if_neg hdrop, closeIfDone]
    refine ⟨Or.inl, ?_⟩
    split_ifs with hdone
    · exact fun _ => Or.inr hdone
    · exact Or.inl

/-! ## What a call does to the flags -/

/-- Nobody resets the connection, it does not give up, and nothing is written after
`end_input_stream`. -/
def Orderly (c : TCPConnection) : ConnCall → Prop
  | .write _ => c.sender.stream.inputEnded = false
  | .tick ms => c.active = true →
      (c.sender.tick ms).consecutiveRetransmissions % 2 ^ 32 ≤ TCPConfig.maxRetxAttempts
  | .segmentReceived seg => seg.header.rst = false
  | .connect | .endInputStream | .read _ | .pop _ => True

instance (c : TCPConnection) (op : ConnCall) : Decidable (c.Orderly op) :=
  match op with
  | .write _ => inferInstanceAs (Decidable (_ = _))
  | .tick _ => inferInstanceAs (Decidable (_ → _))
  | .segmentReceived _ => inferInstanceAs (Decidable (_ = _))
  | .connect | .endInputStream | .read _ | .pop _ => inferInstanceAs (Decidable True)

/-- `_time_since_last_segment_received` after a call. -/
def clockAfter (c : TCPConnection) : ConnCall → ℕ
  | .tick ms =>
    if c.active then add64 c.timeSinceLastSegmentReceived ms else c.timeSinceLastSegmentReceived
  | .segmentReceived _ => if c.active then 0 else c.timeSinceLastSegmentReceived
  | .connect | .write _ | .endInputStream | .read _ | .pop _ => c.timeSinceLastSegmentReceived

/-- The flags have not been looked at yet. -/
structure Carried (c e : TCPConnection) (clock : ℕ) : Prop where
  cfg : e.cfg = c.cfg
  linger : e.lingerAfterStreamsFinish = c.lingerAfterStreamsFinish
  active : e.active = c.active
  clock : e.timeSinceLastSegmentReceived = clock

/-- A push looks at the flags at its end. -/
theorem Carried.pushSegmentOut {d : TCPConnection} {clock : ℕ} (h : Carried c d clock)
    (sendSyn : Bool) :
    ∃ e, (d.pushSegmentOut sendSyn = e ∨ d.pushSegmentOut sendSyn = e.cleanShutdown) ∧
      Carried c e clock := by
  obtain ⟨outs, sendRst, heq, -⟩ := d.pushSegmentOut_eq sendSyn
  exact ⟨_, Or.inr heq, h.cfg, h.linger, h.active, h.clock⟩

/-- An answer is a push. -/
theorem Carried.reply {d : TCPConnection} {clock : ℕ} (h : Carried c d clock) (seg : TCPSegment) :
    ∃ e, (d.reply seg = e ∨ d.reply seg = e.cleanShutdown) ∧ Carried c e clock := by
  unfold TCPConnection.reply
  split_ifs
  · exact h.pushSegmentOut true
  · refine Carried.pushSegmentOut ?_ false
    unfold ensureSegment
    split_ifs
    · exact ⟨h.cfg, h.linger, h.active, h.clock⟩
    · exact h
  · exact h.pushSegmentOut false

/-- **An orderly call looks at the flags once, at its end, or not at all.** -/
theorem call_carried (hok : c.Orderly op) (hc : c.call op = some c') :
    ∃ e, (c' = e ∨ c' = e.cleanShutdown) ∧ Carried c e (c.clockAfter op) := by
  cases op with
  | connect =>
    obtain rfl := Option.some.inj hc
    exact Carried.pushSegmentOut ⟨rfl, rfl, rfl, rfl⟩ true
  | write data =>
    obtain rfl := Option.some.inj hc
    exact Carried.pushSegmentOut (c := c) (d := { c with sender := c.sender.writeIn data })
      ⟨rfl, rfl, rfl, rfl⟩ false
  | endInputStream =>
    obtain rfl := Option.some.inj hc
    exact Carried.pushSegmentOut (c := c) (d := { c with sender := c.sender.endIn })
      ⟨rfl, rfl, rfl, rfl⟩ false
  | tick ms =>
    obtain rfl := Option.some.inj hc
    unfold tick
    split_ifs with hactive
    · exact ⟨c, Or.inl rfl, rfl, rfl, rfl, by simp [clockAfter, hactive]⟩
    · have hon : c.active = true := by simpa using hactive
      rw [checkRetransmissions, if_neg (Nat.not_lt.mpr (hok hon))]
      refine Carried.pushSegmentOut ?_ false
      exact ⟨rfl, rfl, rfl, by simp [clockAfter, hon]⟩
  | segmentReceived seg =>
    cases receives hc with
    | dead hdead => exact ⟨c, Or.inl rfl, rfl, rfl, rfl, by simp [clockAfter, hdead]⟩
    | ignored hactive => exact ⟨_, Or.inl rfl, rfl, rfl, rfl, by simp [clockAfter, hactive]⟩
    | reset _ hrst => cases hrst.symm.trans hok
    | taken hactive =>
      refine Carried.reply ?_ seg
      unfold takeAck
      split_ifs <;> exact ⟨rfl, rfl, rfl, by simp [clockAfter, hactive]⟩
  | read len =>
    obtain rfl := Option.some.inj hc
    exact ⟨_, Or.inl rfl, rfl, rfl, rfl, rfl⟩
  | pop len =>
    obtain rfl := Option.some.inj hc
    exact ⟨_, Or.inl rfl, rfl, rfl, rfl, rfl⟩

/-- **What an orderly call makes of the flags.** -/
theorem call_flags (hok : c.Orderly op) (hc : c.call op = some c') :
    (c'.cfg = c.cfg ∧ c'.timeSinceLastSegmentReceived = c.clockAfter op) ∧
    (c'.lingerAfterStreamsFinish = false → c.lingerAfterStreamsFinish = false ∨
      c'.rState = .finRecv ∧ c'.sState.beforeFinSent = true) ∧
    (c'.active = false → c.active = false ∨
      c'.rState = .finRecv ∧ c'.sState = .finAcked ∧
        (c.lingerAfterStreamsFinish = false ∨
          10 * c'.cfg.rtTimeout.toNat ≤ c'.timeSinceLastSegmentReceived)) := by
  obtain ⟨e, rfl | rfl, hcarried⟩ := call_carried hok hc
  · rw [hcarried.linger, hcarried.active]
    exact ⟨⟨hcarried.cfg, hcarried.clock⟩, Or.inl, Or.inl⟩
  · obtain ⟨hlinger, hactive⟩ := e.cleanShutdown_flags
    obtain ⟨linger, active, heq, -⟩ := e.cleanShutdown_eq
    have hsame : e.cleanShutdown.cfg = e.cfg ∧
        e.cleanShutdown.timeSinceLastSegmentReceived = e.timeSinceLastSegmentReceived := by
      rw [heq]
      exact ⟨rfl, rfl⟩
    rw [hcarried.linger] at hlinger hactive
    rw [hcarried.active] at hactive
    rw [hsame.1, hsame.2]
    exact ⟨⟨hcarried.cfg, hcarried.clock⟩, hlinger, hactive⟩

/-- After the FIN a push puts nothing in flight. -/
theorem bytesInFlight_pushSegmentOut (hfin : c.sender.finFlag = true) (sendSyn : Bool) :
    (c.pushSegmentOut sendSyn).bytesInFlight = c.bytesInFlight := by
  have hfill : c.sender.fillWindow = c.sender := by
    rw [TCPSender.fillWindow, if_pos (Or.inr (Or.inl hfin))]
  rw [bytesInFlight, sender_pushSegmentOut, fill, hfill]
  split_ifs <;> rfl

/-- A dead connection that has sent its FIN neither sends nor takes acks. -/
theorem call_dead (hdead : c.active = false) (hcount : c.sender.Counted)
    (hfin : c.sender.finFlag = true) (hok : c.Orderly op) (hc : c.call op = some c') :
    c'.bytesInFlight = c.bytesInFlight := by
  cases op with
  | connect =>
    obtain rfl := Option.some.inj hc
    exact bytesInFlight_pushSegmentOut hfin true
  | write data => cases hok.symm.trans (hcount.fin hfin).2
  | endInputStream =>
    obtain rfl := Option.some.inj hc
    exact bytesInFlight_pushSegmentOut (c := { c with sender := c.sender.endIn }) hfin false
  | tick ms =>
    obtain rfl := Option.some.inj hc
    rw [tick, if_pos hdead]
  | segmentReceived seg =>
    rw [call, segmentReceived, if_pos hdead] at hc
    rw [Option.some.inj hc]
  | read | pop =>
    obtain rfl := Option.some.inj hc
    rfl

end TCPConnection

/-! ## Runs -/

/-- A connection with the milliseconds of ticks since its last segment came in, counted until it
closes. -/
structure TimedConnection where
  conn : TCPConnection
  elapsed : ℕ := 0

namespace TimedConnection

variable {w w' w₀ : TimedConnection} {cfg : TCPConfig} {op : ConnCall}

def init (cfg : TCPConfig) : TimedConnection := { conn := .new cfg }

/-- The milliseconds after a call. -/
def elapsedAfter (w : TimedConnection) : ConnCall → ℕ
  | .tick ms => if w.conn.active then w.elapsed + ms else w.elapsed
  | .segmentReceived _ => if w.conn.active then 0 else w.elapsed
  | .connect | .write _ | .endInputStream | .read _ | .pop _ => w.elapsed

/-- A call, with the time that it takes. -/
def step (w : TimedConnection) (op : ConnCall) : Option TimedConnection :=
  (w.conn.call op).map fun conn => { conn, elapsed := w.elapsedAfter op }

/-- Both streams are done, and the wait is over. -/
def Finished (w : TimedConnection) (cfg : TCPConfig) : Prop :=
  w.conn.receiver.streamOut.inputEnded = true ∧ w.conn.sender.finFlag = true ∧
    w.conn.bytesInFlight = 0 ∧ 10 * cfg.rtTimeout.toNat ≤ w.elapsed

/-- The connection's own clock, which may wrap, is not ahead. -/
theorem clockAfter_le (h : w.conn.timeSinceLastSegmentReceived ≤ w.elapsed) (op : ConnCall) :
    w.conn.clockAfter op ≤ w.elapsedAfter op := by
  cases op with
  | tick ms =>
    simp only [TCPConnection.clockAfter, elapsedAfter]
    split_ifs
    · exact (Nat.mod_le _ _).trans (Nat.add_le_add_right h ms)
    · exact h
  | segmentReceived seg =>
    simp only [TCPConnection.clockAfter, elapsedAfter]
    split_ifs
    · exact le_rfl
    · exact h
  | connect | write | endInputStream | read | pop => exact h

theorem elapsedAfter_dead (h : w.conn.active = false) (op : ConnCall) :
    w.elapsedAfter op = w.elapsed := by
  cases op <;> simp [elapsedAfter, h]

/-- What holds throughout an orderly run. -/
structure Tracked (cfg : TCPConfig) (w : TimedConnection) : Prop where
  cfg : w.conn.cfg = cfg
  known : w.conn.sender.FinKnown w.conn.segmentsOut
  clock : w.conn.timeSinceLastSegmentReceived ≤ w.elapsed
  linger : w.conn.lingerAfterStreamsFinish = false → w.conn.receiver.streamOut.inputEnded = true
  active : w.conn.active = false → w.conn.receiver.streamOut.inputEnded = true

theorem Tracked.init (cfg : TCPConfig) : Tracked cfg (init cfg) where
  cfg := rfl
  known := ⟨.new .., fun h => absurd h Bool.false_ne_true, fun _ h => absurd h List.not_mem_nil,
    fun _ h => absurd h List.not_mem_nil, fun _ h => absurd h List.not_mem_nil⟩
  clock := le_rfl
  linger h := absurd h.symm Bool.false_ne_true
  active h := absurd h.symm Bool.false_ne_true

/-- An orderly call keeps it so. -/
theorem Tracked.step (h : Tracked cfg w) (hok : w.conn.Orderly op) (hs : w.step op = some w') :
    Tracked cfg w' := by
  obtain ⟨conn, hc, rfl⟩ := Option.map_eq_some_iff.mp hs
  obtain ⟨⟨hcfg, hclock⟩, hlinger, hactive⟩ := TCPConnection.call_flags hok hc
  have hended : w.conn.receiver.streamOut.inputEnded = true →
      conn.receiver.streamOut.inputEnded = true :=
    fun hin => TCPConnection.receiverKept_inputEnded.call hin hc
  refine ⟨hcfg.trans h.cfg, ?_, hclock.trans_le (clockAfter_le h.clock op), fun hno => ?_,
    fun hno => ?_⟩
  · have hknown := h.known
    refine TCPConnection.kept_finKnown.call hknown (fun data hop => ?_) (fun _ =>
      ⟨hknown.counted.endIn, hknown.drained, hknown.log, hknown.queue, hknown.copies⟩) hc
    -- the input has not ended, so the FIN has not been sent
    subst hop
    have hfin : w.conn.sender.finFlag = false := by
      by_contra hf
      cases hok.symm.trans (hknown.counted.fin (by simpa using hf)).2
    exact ⟨hknown.counted.writeIn data, fun hf => (Bool.false_ne_true (hfin.symm.trans hf)).elim,
      hknown.log, hknown.queue, hknown.copies⟩
  · exact (hlinger hno).elim (fun hl => hended (h.linger hl))
      fun hr => TCPConnection.of_rState_finRecv hr.1
  · exact (hactive hno).elim (fun ha => hended (h.active ha))
      fun hr => TCPConnection.of_rState_finRecv hr.1

/-- **The wait is not lost**: with our FIN sent, lingering has been given up only in a state that is
misread, and the connection is closed only after the wait. -/
structure Lingering (cfg : TCPConfig) (w : TimedConnection) : Prop where
  tracked : Tracked cfg w
  left : ∃ seg ∈ w.conn.segmentsOut, seg.header.fin = true
  linger : w.conn.lingerAfterStreamsFinish = false → w.conn.Misread
  closed : w.conn.active = false → w.Finished cfg

/-- A FIN that has left is known to have been sent. -/
theorem Lingering.sent (h : Lingering cfg w) : w.conn.sender.finFlag = true := by
  obtain ⟨seg, hseg, hfin⟩ := h.left
  exact h.tracked.known.log seg hseg hfin

/-- An orderly call that does not misread keeps the wait. -/
theorem Lingering.step (h : Lingering cfg w) (hok : w.conn.Orderly op) (hread : ¬ w.conn.Misread)
    (hs : w.step op = some w') : Lingering cfg w' := by
  have htracked := h.tracked.step hok hs
  obtain ⟨conn, hc, rfl⟩ := Option.map_eq_some_iff.mp hs
  have hleft := TCPConnection.kept_finLeft.call h.left (fun _ _ => h.left) (fun _ => h.left) hc
  have hsent : conn.sender.finFlag = true := by
    obtain ⟨seg, hseg, hfin⟩ := hleft
    exact htracked.known.log seg hseg hfin
  obtain ⟨⟨hcfg, -⟩, hlinger, hactive⟩ := TCPConnection.call_flags hok hc
  have hstill : w.conn.lingerAfterStreamsFinish ≠ false := fun hno => hread (h.linger hno)
  refine ⟨htracked, hleft, fun hno => ?_, fun hno => ?_⟩
  · obtain ⟨hrecv, hbefore⟩ := (hlinger hno).resolve_left hstill
    exact ⟨TCPConnection.of_rState_finRecv hrecv, hsent,
      TCPConnection.sendBase_eq_zero_of_beforeFinSent htracked.known hsent hbefore⟩
  · cases hwas : w.conn.active with
    | false =>
      obtain ⟨hended, -, hzero, hwait⟩ := h.closed hwas
      refine ⟨TCPConnection.receiverKept_inputEnded.call hended hc, hsent, ?_, ?_⟩
      · rw [TCPConnection.call_dead hwas h.tracked.known.counted h.sent hok hc]
        exact hzero
      · exact (elapsedAfter_dead hwas op).symm ▸ hwait
    | true =>
      obtain ⟨hrecv, hacked, hwait⟩ := (hactive hno).resolve_left (by simp [hwas])
      refine ⟨TCPConnection.of_rState_finRecv hrecv, hsent,
        (TCPConnection.sState_eq_finAcked hacked).2, ?_⟩
      have hlong := hwait.resolve_left hstill
      rw [htracked.cfg] at hlong
      exact hlong.trans htracked.clock

/-- **The side that closes first lingers.**  Take any orderly run to a state `w₀` in which our FIN
has left and the inbound stream has not ended, and any orderly run on from there, in which the FIN
is not taken for unsent: in the state reached the connection is active, or both its streams are done
and ten timeouts had passed since the last segment when it closed. -/
theorem time_wait (h₀ : Reach step (fun w op => w.conn.Orderly op) (init cfg) w₀)
    (hfin : ∃ seg ∈ w₀.conn.segmentsOut, seg.header.fin = true)
    (hopen : w₀.conn.receiver.streamOut.inputEnded = false)
    (h : Reach step (fun w op => w.conn.Orderly op ∧ ¬ w.conn.Misread) w₀ w) :
    w.conn.active = true ∨ w.Finished cfg := by
  have htracked : Tracked cfg w₀ :=
    h₀.invariant (.init cfg) fun _ _ _ ih hok hs => ih.step hok hs
  have hnot : w₀.conn.receiver.streamOut.inputEnded ≠ true := by simp [hopen]
  have hstart : Lingering cfg w₀ := ⟨htracked, hfin, fun hno => absurd (htracked.linger hno) hnot,
    fun hno => absurd (htracked.active hno) hnot⟩
  have hlast : Lingering cfg w :=
    h.invariant hstart fun _ _ _ ih hok hs => ih.step hok.1 hok.2 hs
  cases hactive : w.conn.active with
  | true => exact Or.inl rfl
  | false => exact Or.inr (hlast.closed hactive)

/-- Our FIN is answered by the peer's, whose stream so ends, and the connection closes at the tick
that completes the wait. -/
theorem time_wait_run : ∃ w₀ w,
    Reach step (fun w op => w.conn.Orderly op) (init { isn := ⟨7⟩, rtTimeout := 3 }) w₀ ∧
    (∃ seg ∈ w₀.conn.segmentsOut, seg.header.fin = true) ∧
    w₀.conn.receiver.streamOut.inputEnded = false ∧
    Reach step (fun w op => w.conn.Orderly op ∧ ¬ w.conn.Misread) w₀ w ∧
    w.conn.active = false ∧ w.Finished { isn := ⟨7⟩, rtTimeout := 3 } := by
  obtain ⟨w₀, h₀, hp⟩ := exists_reach_of_exec step (fun w op => w.conn.Orderly op)
    (init { isn := ⟨7⟩, rtTimeout := 3 })
    [.connect,
      .segmentReceived { header := { syn := true, ack := true, ackno := ⟨8⟩, win := 1000 } },
      .endInputStream]
    (fun w => w.conn.segmentsOut.any (·.header.fin) && !w.conn.receiver.streamOut.inputEnded &&
      (exec step (fun w op => w.conn.Orderly op ∧ ¬ w.conn.Misread) w
        [.segmentReceived { header :=
            { seqno := ⟨1⟩, fin := true, ack := true, ackno := ⟨9⟩, win := 1000 } },
          .tick 29, .tick 1]).any fun w => !w.conn.active) (by decide)
  simp only [Bool.and_eq_true, List.any_eq_true, Bool.not_eq_true'] at hp
  obtain ⟨⟨hfin, hopen⟩, hrun⟩ := hp
  obtain ⟨w, h, hdead⟩ := exists_reach_of_exec step _ w₀ _ _ hrun
  simp only [Bool.not_eq_true'] at hdead
  refine ⟨w₀, w, h₀, hfin, hopen, h, hdead, (time_wait h₀ hfin hopen h).resolve_left ?_⟩
  simp [hdead]

/-- An ack of nothing opens the window, and the FIN goes out while even the SYN is not acknowledged.
The peer's FIN then finds the sender in `syn_sent`, and the connection closes without a wait. -/
theorem time_wait_skipped : ∃ w₀ w,
    Reach step (fun w op => w.conn.Orderly op) (init { isn := ⟨7⟩ }) w₀ ∧
    (∃ seg ∈ w₀.conn.segmentsOut, seg.header.fin = true) ∧
    w₀.conn.receiver.streamOut.inputEnded = false ∧
    Reach step (fun w op => w.conn.Orderly op) w₀ w ∧
    ¬ (w.conn.active = true ∨ w.Finished { isn := ⟨7⟩ }) := by
  obtain ⟨w₀, h₀, hp⟩ := exists_reach_of_exec step (fun w op => w.conn.Orderly op)
    (init { isn := ⟨7⟩ })
    [.connect,
      .segmentReceived { header := { syn := true, ack := true, ackno := ⟨7⟩, win := 1000 } },
      .endInputStream]
    (fun w => w.conn.segmentsOut.any (·.header.fin) && !w.conn.receiver.streamOut.inputEnded &&
      (exec step (fun w op => w.conn.Orderly op) w
        [.segmentReceived { header := { seqno := ⟨1⟩, fin := true } },
          .segmentReceived { header := { seqno := ⟨2⟩, ack := true, ackno := ⟨9⟩ } }]).any
        fun w => !w.conn.active && w.elapsed == 0) (by decide)
  simp only [Bool.and_eq_true, List.any_eq_true, Bool.not_eq_true'] at hp
  obtain ⟨⟨hfin, hopen⟩, hrun⟩ := hp
  obtain ⟨w, h, hdead⟩ := exists_reach_of_exec step _ w₀ _ _ hrun
  simp only [Bool.and_eq_true, Bool.not_eq_true', beq_iff_eq] at hdead
  refine ⟨w₀, w, h₀, hfin, hopen, h, ?_⟩
  rintro (hactive | ⟨-, -, -, hwait⟩)
  · cases hdead.1.symm.trans hactive
  · rw [hdead.2] at hwait
    exact absurd hwait (by decide)

end TimedConnection
