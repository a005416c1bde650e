import Sponge.Connection.Silence

/-!
# Connection/Resets — what a RST does

Once a SYN has been sent or received, a RST kills the connection whatever its sequence number, and
both streams are left in error.  Before that, one that comes with an ack is dropped like every other
ack that acknowledges nothing (`reset_received`).

Two invariants carry this.  Between two calls a connection that has received a SYN has sent its own
(`Answered`), so that "closed" means that there has been no SYN at all; and only what kills a
connection puts its streams in error (`Sane`).
-/

open Word64

namespace TCPConnection

variable {c c' : TCPConnection} {cfg : TCPConfig} {seg : TCPSegment} {op : ConnCall}

/-! ## A SYN is answered -/

/-- A connection that has received a SYN has sent one. -/
def Answered (c : TCPConnection) : Prop := c.receiver.syn = true → c.sender.synFlag = true

/-- A SYN that is sent stays sent. -/
theorem kept_synFlag : SenderKept fun _ s => s.synFlag = true where
  fillWindow _ _ h := TCPSender.fillWindow_induction h fun _ _ _ hemit => hemit.synFlag
  ackReceived _ s ackno window h := by
    refine TCPSender.ackReceived_induction (P := fun s => s.synFlag = true) h ?_ (fun v _ => ?_)
      (fun _ hs => TCPSender.fillWindow_induction hs fun _ _ _ hemit => hemit.synFlag)
      fun _ hs => hs
    · rw [TCPSender.recordWindow_eq]
      exact h
    · rw [TCPSender.advanceBase_eq]
      exact h
  tick _ s ms h := by
    obtain ⟨segs, count, timer, heq, -⟩ := s.tick_frame ms
    rw [heq]
    exact h
  sendEmptySegment _ _ h := h
  setError _ _ h := h
  leave _ _ _ _ h _ := h

/-- A push that may send the SYN does send it. -/
theorem synFlag_pushSegmentOut (hc : c.sender.Counted) {sendSyn : Bool}
    (h : sendSyn = true ∨ c.receiver.syn = true) :
    (c.pushSegmentOut sendSyn).sender.synFlag = true := by
  have hopen : sendSyn = true ∨ c.sState ≠ .closed ∨ c.rState ≠ .listening := by
    refine h.imp_right fun hsyn => Or.inr fun hlisten => ?_
    cases hsyn.symm.trans (c.rState_eq_listening_iff.mp hlisten)
  rw [sender_pushSegmentOut, fill, if_pos hopen]
  exact hc.synFlag_fillWindow

/-- An answer sends it, once a SYN has been received. -/
theorem synFlag_reply (hc : c.sender.Counted) (h : c.receiver.syn = true) (seg : TCPSegment) :
    (c.reply seg).sender.synFlag = true := by
  unfold reply
  split_ifs
  · exact synFlag_pushSegmentOut hc (Or.inl rfl)
  · refine synFlag_pushSegmentOut ?_ (Or.inr (c.receiver_ensureSegment.symm ▸ h))
    unfold ensureSegment
    split_ifs
    · exact hc.setSegmentsOut _
    · exact hc
  · exact synFlag_pushSegmentOut hc (Or.inr h)

/-- A segment that brings the SYN is answered in the same call. -/
theorem Idle.synFlag_segmentReceived (h : c.Idle) (hno : c.receiver.syn = false)
    (hsyn : c'.receiver.syn = true) (hc : c.segmentReceived seg = some c') :
    c'.sender.synFlag = true := by
  cases receives hc with
  | dead | ignored | reset => cases hno.symm.trans hsyn
  | taken =>
    rw [receiver_reply] at hsyn
    refine synFlag_reply ?_ hsyn seg
    unfold TCPConnection.takeAck
    split_ifs
    · exact h.counted.ackReceived _ _
    · exact h.counted

/-- Every call keeps it so. -/
theorem Answered.call (h : c.Answered) (hidle : c.Idle) (hc : c.call op = some c') :
    c'.Answered := by
  intro hsyn
  cases hrs : c.receiver.syn with
  | true => exact kept_synFlag.call (h hrs) (fun _ _ => h hrs) (fun _ => h hrs) hc
  | false =>
    obtain hsame | hbroken | ⟨rop, hop, hr⟩ := receiver_call hc
    · cases hrs.symm.trans (hsame ▸ hsyn)
    · cases hrs.symm.trans (show c.receiver.setError.syn = true from hbroken ▸ hsyn)
    · cases op with
      | segmentReceived seg => exact hidle.synFlag_segmentReceived hrs hsyn hc
      | read len | pop len =>
        obtain rfl := Option.some.inj hc
        cases hrs.symm.trans hsyn
      | connect | write | endInputStream | tick => cases hop

/-! ## Errors -/

/-- Neither stream is in error. -/
def Unbroken (c : TCPConnection) : Prop :=
  c.sender.stream.error = false ∧ c.receiver.streamOut.error = false

/-- Both streams are in error and the connection is dead. -/
def Killed (c : TCPConnection) : Prop :=
  c.active = false ∧ c.sender.stream.error = true ∧ c.receiver.streamOut.error = true

/-- The streams of an active connection are not in error. -/
def Sane (c : TCPConnection) : Prop := c.active = true → c.Unbroken

/-- What is pushed breaks no stream. -/
theorem Sane.pushSegmentOut (h : c.Sane) (sendSyn : Bool) : (c.pushSegmentOut sendSyn).Sane := by
  intro hactive
  have hon : c.active = true := by
    by_contra hoff
    cases (c.active_pushSegmentOut sendSyn (by simpa using hoff)).symm.trans hactive
  obtain ⟨hsender, hreceiver⟩ := h hon
  refine ⟨?_, by rwa [receiver_pushSegmentOut]⟩
  rw [sender_pushSegmentOut, fill]
  split_ifs
  · obtain ⟨segs, hsends⟩ := c.sender.fillWindow_sends
    exact hsends.frame.error.trans hsender
  · exact hsender

theorem Sane.ensureSegment (h : c.Sane) : c.ensureSegment.Sane := by
  unfold TCPConnection.ensureSegment
  split_ifs
  · exact h
  · exact h

/-- An unclean shutdown leaves a dead connection. -/
theorem Sane.uncleanShutdown (c : TCPConnection) (sendRst : Bool) :
    (c.uncleanShutdown sendRst).Sane := by
  unfold TCPConnection.uncleanShutdown
  -- the connection is dead before anything is pushed
  have habort : c.abort.Sane := fun hactive => Bool.noConfusion hactive
  split_ifs
  · exact (Sane.ensureSegment (c := { c.abort with sendRst := true }) habort).pushSegmentOut false
  · exact habort

theorem Sane.reply (h : c.Sane) (seg : TCPSegment) : (c.reply seg).Sane := by
  unfold TCPConnection.reply
  split_ifs
  · exact h.pushSegmentOut true
  · exact h.ensureSegment.pushSegmentOut false
  · exact h.pushSegmentOut false

/-- Too many retransmissions kill the connection before its streams are in error. -/
theorem Sane.tick (h : c.Sane) (ms : ℕ) : (c.tick ms).Sane := by
  unfold TCPConnection.tick
  split_ifs
  · exact h
  · refine Sane.pushSegmentOut ?_ false
    unfold checkRetransmissions
    split_ifs
    · exact .uncleanShutdown _ true
    · obtain ⟨segs, count, timer, heq, -⟩ := c.sender.tick_frame ms
      rw [heq]
      exact h

theorem Sane.takeAck (h : c.Sane) (seg : TCPSegment) : (c.takeAck seg).Sane := by
  unfold TCPConnection.takeAck
  split_ifs
  · intro hactive
    obtain ⟨hsender, hreceiver⟩ := h hactive
    exact ⟨(c.sender.ackReceived_stream _ _).2.2.trans hsender, hreceiver⟩
  · exact h

/-- Of the segments that arrive, only a RST breaks the streams. -/
theorem Sane.segmentReceived (h : c.Sane) {seg : TCPSegment}
    (hc : c.segmentReceived seg = some c') : c'.Sane := by
  cases receives hc with
  | dead => exact h
  | ignored => exact h
  | reset => exact .uncleanShutdown _ false
  | taken _ _ hr =>
    refine Sane.reply (Sane.takeAck (fun hactive => ?_) seg) seg
    obtain ⟨hsender, hreceiver⟩ := h hactive
    exact ⟨hsender, (TCPReceiver.segmentReceived_induction (P := fun s => s.error = false)
      (fun _ _ hs => hs) (fun _ hs => hs) hreceiver hr).1⟩

theorem Sane.call (h : c.Sane) (hc : c.call op = some c') : c'.Sane := by
  cases op with
  | connect =>
    obtain rfl := Option.some.inj hc
    exact h.pushSegmentOut true
  | write data =>
    obtain rfl := Option.some.inj hc
    exact Sane.pushSegmentOut (c := { c with sender := c.sender.writeIn data }) h false
  | endInputStream =>
    obtain rfl := Option.some.inj hc
    exact Sane.pushSegmentOut (c := { c with sender := c.sender.endIn }) h false
  | tick ms =>
    obtain rfl := Option.some.inj hc
    exact h.tick ms
  | segmentReceived seg => exact h.segmentReceived hc
  | read | pop =>
    obtain rfl := Option.some.inj hc
    exact h

/-! ## The RST -/

/-- Only what kills a connection puts its streams in error, in every run. -/
theorem reach_sane {ok : TCPConnection → ConnCall → Prop} (h : Reach call ok (new cfg) c) :
    c.Sane :=
  h.invariant (fun _ => ⟨rfl, rfl⟩) fun _ _ _ ih _ hc => ih.call hc

/-- Every run answers a SYN. -/
theorem reach_answered {ok : TCPConnection → ConnCall → Prop} (h : Reach call ok (new cfg) c) :
    c.Answered :=
  (h.invariant (I := fun c => c.Idle ∧ c.Answered)
    ⟨⟨.new cfg.sendCapacity cfg.rtTimeout cfg.isn, rfl⟩, nofun⟩
    fun _ _ _ ih _ hc => ⟨ih.1.call hc, ih.2.call ih.1 hc⟩).2

/-- The receiver has an `ackno` and the number of the segment is not in the window. -/
def OutOfWindow (c : TCPConnection) (seg : TCPSegment) : Prop :=
  ∃ ackno ∈ c.receiver.ackno,
    if c.receiver.windowSize = 0 then seg.header.seqno ≠ ackno
    else c.receiver.windowSize ≤ (seg.header.seqno.sub ackno).toNat

instance (c : TCPConnection) (seg : TCPSegment) : Decidable (c.OutOfWindow seg) :=
  inferInstanceAs (Decidable (∃ _ ∈ _, _))

/-- **What a RST does.**  In every run, and to an active connection: before any SYN, a RST with an
ack is ignored; after one, every RST kills the connection. -/
theorem reset_received (h : Reach call (fun _ _ => True) (new cfg) c) (hactive : c.active = true)
    (hrst : seg.header.rst = true) :
    (c.Unopened → seg.header.ack = true →
      ∃ c', c.segmentReceived seg = some c' ∧ c'.active = true ∧ c'.Unbroken) ∧
    (¬ c.Unopened → ∃ c', c.segmentReceived seg = some c' ∧ c'.Killed) := by
  have hanswered := reach_answered h
  have hclosed : c.sState = .closed ↔ c.sender.synFlag = false :=
    sState_eq_closed_iff (reach_idle h).counted
  have hsane : c.Unbroken := reach_sane h hactive
  have hon : ¬ c.active = false := by simp [hactive]
  refine ⟨fun hunopened hack => ?_, fun hopened => ?_⟩
  · refine ⟨{ c with timeSinceLastSegmentReceived := 0 }, ?_, hactive, hsane⟩
    rw [segmentReceived, if_neg hon, arrive, if_pos ⟨hack, hclosed.mpr hunopened.1⟩]
  · refine ⟨{ c with timeSinceLastSegmentReceived := 0 }.abort, ?_, rfl, rfl, rfl⟩
    have hsyn : ¬ c.sState = .closed := by
      intro hno
      refine hopened ⟨hclosed.mp hno, ?_⟩
      by_contra hrecv
      cases (hclosed.mp hno).symm.trans (hanswered (by simpa using hrecv))
    rw [segmentReceived, if_neg hon, arrive, if_neg fun hack => hsyn hack.2, if_pos hrst]
    rfl

/-- A RST with an ack reaches a listening connection, and one without reaches it after `connect`. -/
theorem reset_received_run :
    (∃ c', (new { isn := ⟨7⟩ }).segmentReceived { header := { rst := true, ack := true } } =
      some c' ∧ c'.active = true ∧ c'.Unbroken) ∧
    ∃ c, Reach call (fun _ _ => True) (new { isn := ⟨7⟩ }) c ∧ c.sender.synFlag = true ∧
      ∃ c', c.segmentReceived { header := { rst := true } } = some c' ∧ c'.Killed := by
  obtain ⟨c, hr, hp⟩ := exists_reach_of_exec call (fun _ _ => True) (new { isn := ⟨7⟩ })
    [.connect] (fun c => c.active && c.sender.synFlag) (by decide)
  simp only [Bool.and_eq_true] at hp
  refine ⟨(reset_received .refl rfl rfl).1 ⟨rfl, rfl⟩ rfl, c, hr, hp.2, ?_⟩
  exact (reset_received hr hp.1 rfl).2 fun hno => by cases hp.2.symm.trans hno.1

/-- A RST from outside the window kills an established connection. -/
theorem reset_out_of_window : ∃ c, Reach call (fun _ _ => True) (new { isn := ⟨7⟩ }) c ∧
    c.active = true ∧ c.OutOfWindow { header := { rst := true, seqno := ⟨70000⟩ } } ∧
    ∃ c', c.segmentReceived { header := { rst := true, seqno := ⟨70000⟩ } } = some c' ∧
      c'.active = false ∧ c'.receiver.streamOut.error = true := by
  obtain ⟨c, hr, hp⟩ := exists_reach_of_exec call (fun _ _ => True) (new { isn := ⟨7⟩ })
    [.connect, .segmentReceived { header := { syn := true, ack := true, ackno := ⟨8⟩, win := 10 } }]
    (fun c => c.active && decide (c.OutOfWindow { header := { rst := true, seqno := ⟨70000⟩ } }) &&
      (c.segmentReceived { header := { rst := true, seqno := ⟨70000⟩ } }).any fun c' =>
        !c'.active && c'.receiver.streamOut.error) (by decide)
  simp only [Bool.and_eq_true, Bool.not_eq_true', decide_eq_true_iff, Option.any_eq_true] at hp
  obtain ⟨⟨hactive, hout⟩, c', hc', hdead, herror⟩ := hp
  exact ⟨c, hr, hactive, hout, c', hc', hdead, herror⟩

end TCPConnection
