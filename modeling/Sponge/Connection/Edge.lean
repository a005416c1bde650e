import Sponge.Connection.Reply

/-!
# Connection/Edge — the right edge of the advertised window

What a connection acknowledges and offers to take goes out in every segment once it has received a
SYN.  An `AckLog` writes down each of these segments with the absolute number behind its `ackno` and
with the window of the receiver at that time.  Over a whole run neither the number nor the right
edge goes back (`edge_never_retreats`): what the peer has been allowed to send stays allowed.

What is stamped on a segment is the receiver's state at the end of the call that sends it
(`call_sends`), and a call only advances the receiver (`TCPReceiver.call_advances`).
-/

open Word64

namespace TCPConnection

variable {c c' d : TCPConnection} {cfg : TCPConfig} {op : ConnCall} {r : TCPReceiver}

/-! ## What a call sends -/

/-- What has left since is stamped with the `ackno` and the window of `r`. -/
def Sent (r : TCPReceiver) (c c' : TCPConnection) : Prop :=
  ∃ outs, c'.segmentsOut = c.segmentsOut ++ outs ∧ ∀ out ∈ outs, Acks r out

theorem Sent.of_eq (h : c'.segmentsOut = c.segmentsOut) : Sent r c c' :=
  ⟨[], by rw [h, List.append_nil], by simp⟩

theorem Sent.trans (h : Sent r c d) (h' : Sent r d c') : Sent r c c' := by
  obtain ⟨outs, hout, hacks⟩ := h
  obtain ⟨outs', hout', hacks'⟩ := h'
  refine ⟨outs ++ outs', by rw [hout', hout, List.append_assoc], fun out hmem => ?_⟩
  exact (List.mem_append.mp hmem).elim (hacks out) (hacks' out)

theorem sent_pushSegmentOut (sendSyn : Bool)
    (hraw : ∀ seg ∈ c.sender.segmentsOut, seg.header.ack = false) :
    Sent c.receiver c (c.pushSegmentOut sendSyn) := by
  obtain ⟨outs, hout, -, hall⟩ := c.pushSegmentOut_answers sendSyn hraw
  exact ⟨outs, hout, fun out hmem => (hall out hmem).1⟩

/-- A connection that gives up sends its RST like everything else. -/
theorem sent_uncleanShutdown (hraw : ∀ seg ∈ c.sender.segmentsOut, seg.header.ack = false)
    (sendRst : Bool) : Sent c.abort.receiver c (c.uncleanShutdown sendRst) := by
  unfold uncleanShutdown
  split_ifs
  · obtain ⟨hsame, -, hraw'⟩ :=
      ({ c.abort with sendRst := true } : TCPConnection).ensureSegment_queue
    have hsent := sent_pushSegmentOut false (hraw' hraw)
    rw [receiver_ensureSegment] at hsent
    exact (Sent.of_eq hsame).trans hsent
  · exact .of_eq rfl

/-- The sender leaves the ack flag of the segments it keeps to the connection. -/
theorem kept_bare : SenderKept fun _ s => ∀ seg ∈ s.copySegmentsOut, seg.header.ack = false := by
  have filled : ∀ s : TCPSender, (∀ seg ∈ s.copySegmentsOut, seg.header.ack = false) →
      ∀ seg ∈ s.fillWindow.copySegmentsOut, seg.header.ack = false := by
    intro s h seg hseg
    obtain ⟨segs, hsends⟩ := s.fillWindow_sends
    rw [hsends.copySegmentsOut] at hseg
    exact (List.mem_append.mp hseg).elim (h seg) fun hnew => (hsends.fresh seg hnew).2
  refine ⟨fun _ => filled, fun _ s ackno window h => ?_, fun _ s ms h => ?_, fun _ _ h => h,
    fun _ _ h => h, fun _ _ _ _ h _ => h⟩
  · refine TCPSender.ackReceived_induction
      (P := fun s => ∀ seg ∈ s.copySegmentsOut, seg.header.ack = false) h ?_ (fun v _ => ?_) filled
      fun _ hs => hs
    · rw [TCPSender.recordWindow_eq]
      exact h
    · rw [TCPSender.advanceBase_eq]
      exact fun seg hseg => h seg (List.dropWhile_subset _ hseg)
  · obtain ⟨segs, count, timer, heq, -⟩ := s.tick_frame ms
    rw [heq]
    exact h

theorem sent_tick (h : c.Idle) (hbare : ∀ seg ∈ c.sender.copySegmentsOut, seg.header.ack = false)
    (ms : ℕ) : Sent (c.tick ms).receiver c (c.tick ms) := by
  unfold tick
  split_ifs
  · exact .of_eq rfl
  · rw [receiver_pushSegmentOut]
    obtain ⟨segs, count, timer, heq, hold⟩ := c.sender.tick_frame ms
    have hraw : ∀ seg ∈ (c.sender.tick ms).segmentsOut, seg.header.ack = false := by
      rw [heq]
      intro seg hseg
      rw [h.queue, List.nil_append] at hseg
      exact hbare seg (hold seg hseg)
    unfold checkRetransmissions
    split_ifs
    · rw [receiver_uncleanShutdown]
      refine (sent_uncleanShutdown (c := { c with
        timeSinceLastSegmentReceived := add64 c.timeSinceLastSegmentReceived ms
        sender := c.sender.tick ms }) hraw true).trans ?_
      -- the queue is empty by now, and the receiver is the broken one
      have hsent := sent_pushSegmentOut (c := ({ c with
        timeSinceLastSegmentReceived := add64 c.timeSinceLastSegmentReceived ms
        sender := c.sender.tick ms } : TCPConnection).uncleanShutdown true) false ?_
      · rwa [receiver_uncleanShutdown] at hsent
      · rw [uncleanShutdown, if_pos rfl, queue_pushSegmentOut]
        simp
    · exact sent_pushSegmentOut false hraw

/-- **Everything a call sends carries the receiver's part as it is at the end of the call.** -/
theorem call_sends (h : c.Idle) (hbare : ∀ seg ∈ c.sender.copySegmentsOut, seg.header.ack = false)
    (hc : c.call op = some c') : Sent c'.receiver c c' := by
  have hnone : ∀ seg ∈ c.sender.segmentsOut, seg.header.ack = false := by
    rw [h.queue]
    simp
  cases op with
  | connect =>
    obtain rfl := Option.some.inj hc
    exact (receiver_pushSegmentOut c true).symm ▸ sent_pushSegmentOut true hnone
  | write data =>
    obtain rfl := Option.some.inj hc
    exact (receiver_pushSegmentOut { c with sender := c.sender.writeIn data } false).symm ▸
      sent_pushSegmentOut (c := { c with sender := c.sender.writeIn data }) false hnone
  | endInputStream =>
    obtain rfl := Option.some.inj hc
    exact (receiver_pushSegmentOut { c with sender := c.sender.endIn } false).symm ▸
      sent_pushSegmentOut (c := { c with sender := c.sender.endIn }) false hnone
  | tick ms =>
    obtain rfl := Option.some.inj hc
    exact sent_tick h hbare ms
  | segmentReceived seg =>
    cases receives hc with
    | dead | ignored | reset => exact .of_eq rfl
    | taken hactive hrst hreceiver =>
      rename_i receiver
      obtain ⟨hcount, hfresh, hsame⟩ := Idle.takeAck (c := { c with
        timeSinceLastSegmentReceived := 0, receiver }) ⟨h.counted, h.queue⟩ seg
      obtain ⟨outs, hout, -, -, hacks⟩ := reply_answers _ seg hcount hfresh
      rw [receiver_reply]
      exact ⟨outs, hout.trans (congrArg (· ++ outs) hsame), hacks⟩
  | read | pop =>
    obtain rfl := Option.some.inj hc
    exact .of_eq rfl

/-- Nobody pops more from the inbound stream than it holds. -/
def InBuffer (c : TCPConnection) : ConnCall → Prop
  | .pop len => len ≤ c.receiver.streamOut.bufferSize
  | .connect | .write _ | .endInputStream | .tick _ | .segmentReceived _ | .read _ => True

instance (c : TCPConnection) (op : ConnCall) : Decidable (c.InBuffer op) :=
  match op with
  | .pop _ => inferInstanceAs (Decidable (_ ≤ _))
  | .connect | .write _ | .endInputStream | .tick _ | .segmentReceived _ | .read _ =>
    inferInstanceAs (Decidable True)

theorem call_advances (h : c.receiver.Within) (hok : c.InBuffer op) (hc : c.call op = some c') :
    c.receiver.Advances c'.receiver := by
  obtain hsame | hbroken | ⟨rop, hop, hr⟩ := receiver_call hc
  · rw [hsame]
    exact .refl h
  · have hr : c.receiver.call .setError = some c'.receiver := congrArg some hbroken.symm
    refine TCPReceiver.call_advances h (fun _ hno => ?_) hr
    cases hno
  · refine TCPReceiver.call_advances h ?_ hr
    rintro len rfl
    cases op with
    | pop len' =>
      obtain rfl := ReceiverCall.pop.inj (Option.some.inj hop)
      exact hok
    | connect | write | endInputStream | tick | segmentReceived | read => cases hop

end TCPConnection

/-! ## The log -/

/-- A segment with ack, and the receiver's part of it before it is put in 32 and 16 bits. -/
structure Advertisement where
  absolute : ℕ
  window : ℕ
  seg : TCPSegment

/-- The right edge the segment offers. -/
def Advertisement.edge (e : Advertisement) : ℕ := e.absolute + min e.window 65535

def TCPReceiver.advertise (r : TCPReceiver) (seg : TCPSegment) : Advertisement :=
  ⟨r.absoluteAckno, r.windowSize, seg⟩

/-- A connection and the segments with ack that have left it. -/
structure AckLog where
  conn : TCPConnection
  acks : List Advertisement := []

namespace AckLog

variable {w w' : AckLog} {cfg : TCPConfig} {op : ConnCall}

def init (cfg : TCPConfig) : AckLog := { conn := .new cfg }

/-- One call; what it adds to `segments_out` with ack is written down. -/
def step (w : AckLog) (op : ConnCall) : Option AckLog :=
  (w.conn.call op).map fun c =>
    { conn := c
      acks := w.acks ++ ((c.segmentsOut.drop w.conn.segmentsOut.length).filter (·.header.ack)).map
        c.receiver.advertise }

/-- The segment says what the entry says, and the receiver has moved on from there. -/
structure Valid (r : TCPReceiver) (e : Advertisement) : Prop where
  syn : r.syn = true
  ackno : e.seg.header.ackno = wrap e.absolute r.isn
  win : e.seg.header.win.toNat = min e.window 65535
  absolute : e.absolute ≤ r.absoluteAckno
  edge : e.edge ≤ r.absoluteAckno + min r.windowSize 65535

theorem Valid.advance {r r' : TCPReceiver} {e : Advertisement} (h : Valid r e) (hr : r.Within)
    (hadv : r.Advances r') : Valid r' e := by
  obtain ⟨hack, hedge⟩ := hadv.edge hr 65535
  obtain ⟨hsyn, hisn⟩ := hadv.syn h.syn
  exact ⟨hsyn, hisn.symm ▸ h.ackno, h.win, h.absolute.trans hack, h.edge.trans hedge⟩

/-- A segment with ack says what the receiver that stamped it says. -/
theorem Valid.advertise {r : TCPReceiver} {out : TCPSegment} (h : TCPConnection.Acks r out)
    (hack : out.header.ack = true) : Valid r (r.advertise out) := by
  have hsyn : r.syn = true := by
    by_contra hno
    simpa [TCPReceiver.ackno, hno] using h.ack.mp hack
  obtain ⟨hackno, hwin⟩ := h.ackno (wrap r.absoluteAckno r.isn) (by simp [TCPReceiver.ackno, hsyn])
  exact ⟨hsyn, hackno, hwin, le_rfl, le_rfl⟩

/-- **The invariant of all runs.** -/
structure Ordered (cfg : TCPConfig) (w : AckLog) : Prop where
  idle : w.conn.Idle
  bare : ∀ seg ∈ w.conn.sender.copySegmentsOut, seg.header.ack = false
  within : w.conn.receiver.Within
  capacity : w.conn.receiver.capacity = cfg.recvCapacity.toNat
  valid : ∀ e ∈ w.acks, Valid w.conn.receiver e
  sorted : w.acks.Pairwise fun e e' => e.absolute ≤ e'.absolute ∧ e.edge ≤ e'.edge
  segs : w.acks.map (·.seg) = w.conn.segmentsOut.filter (·.header.ack)

theorem Ordered.init (cfg : TCPConfig) : Ordered cfg (.init cfg) where
  idle := ⟨.new cfg.sendCapacity cfg.rtTimeout cfg.isn, rfl⟩
  bare _ hseg := absurd hseg List.not_mem_nil
  within := ⟨.new cfg.recvCapacity, rfl⟩
  capacity := rfl
  valid _ he := absurd he List.not_mem_nil
  sorted := .nil
  segs := rfl

theorem Ordered.step (h : Ordered cfg w) (hok : w.conn.InBuffer op) (hs : w.step op = some w') :
    Ordered cfg w' := by
  obtain ⟨c, hc, rfl⟩ := Option.map_eq_some_iff.mp hs
  obtain ⟨outs, hout, hacks⟩ := TCPConnection.call_sends h.idle h.bare hc
  have hadv := TCPConnection.call_advances h.within hok hc
  have hnew : c.segmentsOut.drop w.conn.segmentsOut.length = outs := by rw [hout, List.drop_left]
  rw [hnew]
  have hold : ∀ e ∈ w.acks, Valid c.receiver e := fun e he => (h.valid e he).advance h.within hadv
  have hmap : ∀ e ∈ (outs.filter (·.header.ack)).map c.receiver.advertise,
      ∃ out ∈ outs, out.header.ack = true ∧ e = c.receiver.advertise out := by
    intro e he
    obtain ⟨out, hmem, rfl⟩ := List.mem_map.mp he
    exact ⟨out, (List.mem_filter.mp hmem).1, (List.mem_filter.mp hmem).2, rfl⟩
  have hbare := TCPConnection.kept_bare.call h.bare (fun _ _ => h.bare) (fun _ => h.bare) hc
  refine ⟨h.idle.call hc, hbare, hadv.within, hadv.capacity.trans h.capacity, fun e he => ?_, ?_,
    ?_⟩
  · rcases List.mem_append.mp he with he | he
    · exact hold e he
    · obtain ⟨out, hmem, hack, rfl⟩ := hmap e he
      exact .advertise (hacks out hmem) hack
  · refine List.pairwise_append.mpr ⟨h.sorted, ?_, fun e he e' he' => ?_⟩
    · refine List.pairwise_of_forall_mem_list fun e he e' he' => ?_
      obtain ⟨out, -, -, rfl⟩ := hmap e he
      obtain ⟨out', -, -, rfl⟩ := hmap e' he'
      exact ⟨le_rfl, le_rfl⟩
    · obtain ⟨out, -, -, rfl⟩ := hmap e' he'
      exact ⟨(hold e he).absolute, (hold e he).edge⟩
  · rw [List.map_append, h.segs, List.map_map, hout, List.filter_append]
    exact congrArg _ (List.map_id _)

/-- **The advertised right edge never retreats.**  In every run in which nobody pops more than there
is, the log holds the segments that have left with ack, each with its own `ackno` and window; along
the log neither the absolute `ackno` nor the right edge goes back; and the window is what the
capacity leaves of the bytes written and not read, without a borrow. -/
theorem edge_never_retreats (h : Reach step (fun w op => w.conn.InBuffer op) (init cfg) w) :
    w.acks.map (·.seg) = w.conn.segmentsOut.filter (·.header.ack) ∧
    (∀ e ∈ w.acks, e.seg.header.ackno = wrap e.absolute w.conn.receiver.isn ∧
      e.seg.header.win.toNat = min e.window 65535) ∧
    (w.acks.Pairwise fun e e' => e.absolute ≤ e'.absolute ∧
      e.absolute + e.seg.header.win.toNat ≤ e'.absolute + e'.seg.header.win.toNat) ∧
    w.conn.receiver.streamOut.totalRead ≤ w.conn.receiver.streamOut.bytesWritten ∧
    w.conn.receiver.streamOut.bytesWritten - w.conn.receiver.streamOut.totalRead ≤
      cfg.recvCapacity.toNat ∧
    w.conn.receiver.windowSize = cfg.recvCapacity.toNat -
      (w.conn.receiver.streamOut.bytesWritten - w.conn.receiver.streamOut.totalRead) := by
  have hinv : Ordered cfg w :=
    h.invariant (.init cfg) fun _ _ _ ih hok hs => ih.step hok hs
  rw [← hinv.capacity]
  refine ⟨hinv.segs, fun e he => ⟨(hinv.valid e he).ackno, (hinv.valid e he).win⟩, ?_,
    hinv.within.windowSize_eq⟩
  refine hinv.sorted.imp_of_mem fun {e e'} he he' hle => ⟨hle.1, ?_⟩
  rw [(hinv.valid e he).win, (hinv.valid e' he').win]
  exact hle.2

/-- Two bytes arrive and one of them is dropped: the ack of a repetition offers one number more. -/
theorem edge_never_retreats_run :
    ∃ w, Reach step (fun w op => w.conn.InBuffer op) (init { isn := ⟨7⟩, recvCapacity := 4 }) w ∧
      w.acks.map (fun e => (e.absolute, e.window)) = [(1, 4), (3, 2), (3, 3)] ∧
      w.acks.Pairwise fun e e' => e.absolute ≤ e'.absolute ∧
        e.absolute + e.seg.header.win.toNat ≤ e'.absolute + e'.seg.header.win.toNat := by
  obtain ⟨w, hr, hp⟩ := exists_reach_of_exec step (fun w op => w.conn.InBuffer op)
    (init { isn := ⟨7⟩, recvCapacity := 4 })
    [.segmentReceived { header := { syn := true } },
      .segmentReceived { header := { seqno := ⟨1⟩ }, payload := [97, 98] }, .pop 1,
      .segmentReceived { header := { seqno := ⟨1⟩ }, payload := [97] }]
    (fun w => w.acks.map (fun e => (e.absolute, e.window)) == [(1, 4), (3, 2), (3, 3)]) (by decide)
  exact ⟨w, hr, beq_iff_eq.mp hp, (edge_never_retreats hr).2.2.1⟩

end AckLog
