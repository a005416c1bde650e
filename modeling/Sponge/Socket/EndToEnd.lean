import Sponge.Connection.CleanClose
import Sponge.Connection.TimeWait
import Sponge.Socket.Calls

/-!
# Socket/EndToEnd — what one owner writes is what the other reads

Two sockets over a network that drops, duplicates, reorders and delays packets and that may carry
anything else which the adapters turn down.  Their threads interleave call by call.  Seen as two
connections with the bytes that their owners have written and read, every such run is a run of
`Pair` (`SocketPair.refines`): the adapters are no more than wires.

So an owner reads a front of what the other one has written, and when it is told that there is no
more, then that is all (`SocketPair.end_to_end`).
-/

/-! ## Connections as seen by a socket -/

/-- A connection does not see what the layer below fills in. -/
theorem TCPConnection.segmentReceived_content (c : TCPConnection) (seg : TCPSegment) :
    c.segmentReceived seg.content = c.segmentReceived seg := rfl

/-- An inbound stream that is in error stays so. -/
theorem TCPConnection.receiverKept_error : ReceiverKept fun r => r.streamOut.error = true where
  segmentReceived _ _ _ h hr := (TCPReceiver.segmentReceived_induction
    (P := fun s => s.error = true) (fun _ _ hs => hs) (fun _ hs => hs) h hr).1
  readOut _ _ h := h
  popOut _ _ h := h
  setError _ _ := rfl

/-- Dropping bytes that are there is reading them. -/
theorem TCPConnection.popInbound_eq {c : TCPConnection} {n : ℕ}
    (hn : n ≤ c.receiver.streamOut.buf.length) : c.popInbound n = c.readInbound n ∧
      (c.receiver.streamOut.read n).1 = c.receiver.streamOut.buf.take n := by
  have hlen : c.receiver.streamOut.readLen n = n := if_neg (not_lt.mpr hn)
  simp [popInbound, readInbound, TCPReceiver.popOut, TCPReceiver.readOut, ByteStream.read, hlen,
    ByteStream.peekOutput]

/-- Nor does it matter to when a segment was sent. -/
theorem Endpoint.Timely.content {x y : Endpoint} {seqno ackno : ℕ} {seg seg' : TCPSegment}
    (h : x.Timely y seqno ackno seg) (heq : seg.content = seg'.content) :
    x.Timely y seqno ackno seg' := by
  have h' : x.Timely y seqno ackno seg.content := h
  rw [heq] at h'
  exact h'

namespace Pair

variable {x x' y : Endpoint} {p : Pair} {cfgA cfgB : TCPConfig}

def swap (p : Pair) : Pair := { a := p.b, b := p.a }

/-- The two ends may change places. -/
theorem reach_swap (h : Reach step Allowed (init cfgA cfgB) p) :
    Reach step Allowed (init cfgB cfgA) p.swap := by
  induction h with
  | refl => exact .refl
  | @tail p p' op _ hok hstep ih =>
    cases op with
    | atA op =>
      obtain ⟨a, ha, rfl⟩ := Option.map_eq_some_iff.mp hstep
      exact ih.tail (i := .atB op) hok (Option.map_eq_some_iff.mpr ⟨a, ha, rfl⟩)
    | atB op =>
      obtain ⟨b, hb, rfl⟩ := Option.map_eq_some_iff.mp hstep
      exact ih.tail (i := .atA op) hok (Option.map_eq_some_iff.mpr ⟨b, hb, rfl⟩)

/-- A single step at the first end. -/
theorem reach_act (op : ConnOp) (hok : x.Allowed y op) (hact : x.act y op = some x') :
    Reach step Allowed { a := x, b := y } { a := x', b := y } :=
  .tail (i := .atA op) .refl hok (Option.map_eq_some_iff.mpr ⟨x', hact, rfl⟩)

end Pair

/-! ## A socket and its peer -/

namespace TCPSpongeSocket

variable {α δ : Type} [FdAdapter α δ] {x x' y : TCPSpongeSocket α} {c : SocketCall δ}

/-- The connection of a socket, with the bytes that have crossed to and from its owner. -/
def endpoint (s : TCPSpongeSocket α) : Endpoint :=
  { conn := s.tcp, accepted := s.fromOwner, consumed := s.toOwner }

/-- What the adapter of `x` has read is no segment, or it is from a packet that the device of `y`
has sent, and timely as between connections. -/
def Genuine (x y : TCPSpongeSocket α) (packet : Option δ) (seqno ackno : ℕ) :
    Except Exn (Option TCPSegment × α) → Prop
  | .ok (some seg, _) => (∃ p ∈ (FdAdapter.device y.adapter).sent, packet = some p) ∧
      x.endpoint.Timely y.endpoint seqno ackno seg
  | .ok (none, _) | .error _ => True

/-- **What the network and the kernel have to respect** in a call at `x`, whose peer is `y`: packets
with segments are genuine and timely, the acceptance limit of the receiver fits in 64 bits when one
arrives, and the owner does not exhaust the 64-bit counters. -/
def Allowed (x y : TCPSpongeSocket α) (seqno ackno : ℕ) : SocketCall δ → Prop
  | .callback .datagram answer => x.InRange ∧ x.Genuine y answer.packet.toOption seqno ackno
      (FdAdapter.read x.adapter answer.packet answer.kernel)
  | .callback .outbound answer => x.outboundShutdown = false ∧
      ∀ data ∈ answer.data.toOption, x.fromOwner.length + data.length + 2 < 2 ^ 64
  | .callback .inbound _ | .callback .segments _ | .cancel _ | .tick _ _ => True

instance [DecidableEq δ] (x y : TCPSpongeSocket α) (packet : Option δ) (seqno ackno : ℕ)
    (r : Except Exn (Option TCPSegment × α)) : Decidable (x.Genuine y packet seqno ackno r) :=
  match r with
  | .ok (some _, _) => inferInstanceAs (Decidable (_ ∧ _))
  | .ok (none, _) | .error _ => inferInstanceAs (Decidable True)

instance [DecidableEq δ] (x y : TCPSpongeSocket α) (seqno ackno : ℕ) (c : SocketCall δ) :
    Decidable (x.Allowed y seqno ackno c) :=
  match c with
  | .callback .datagram _ | .callback .outbound _ => inferInstanceAs (Decidable (_ ∧ _))
  | .callback .inbound _ | .callback .segments _ | .cancel _ | .tick _ _ =>
    inferInstanceAs (Decidable True)

/-- The outbound stream is open as long as the owner is read from. -/
def Opened (s : TCPSpongeSocket α) : Prop :=
  s.outboundShutdown = false → s.tcp.sender.stream.inputEnded = false

/-- Of the calls on a connection, only `end_input_stream` ends its stream. -/
theorem Opened.conn (h : x.Opened) (op : ConnCall) (hop : op ≠ .endInputStream)
    (hc : x.tcp.call op = some x'.tcp) (hout : x'.outboundShutdown = x.outboundShutdown) :
    x'.Opened := by
  intro hx
  rw [TCPConnection.inputEnded_call hop hc]
  exact h (hout ▸ hx)

/-- The stream is ended in the same call that says so. -/
theorem Opened.call (h : x.Opened) (hc : x.call c = some x') : x'.Opened := by
  cases acts hc with
  | deaf | cancelled | dead | sent => exact h
  | received _ hseg => exact h.conn (.segmentReceived _) (by simp) hseg rfl
  | took => exact h.conn (.write _) (by simp) (x.call_afterData _) (x.outboundShutdown_afterData _)
  | gave | gaveLast => exact h.conn (.pop _) (by simp) rfl rfl
  | ticked => exact h.conn (.tick _) (by simp) rfl rfl
  | tookLast | ended => exact fun hout => by cases hout

variable {cfg cfg' : TCPConfig} {seqno ackno : ℕ}

/-- **A call on a socket is a run of calls on its connection**, in which nothing but what the peer
has sent arrives. -/
theorem simulates [PacketRead δ] [Carrier α] (hy : Sane cfg y) (hopen : x.Opened)
    (hok : x.Allowed y seqno ackno c) (hc : x.call c = some x') :
    Reach Pair.step Pair.Allowed { a := x.endpoint, b := y.endpoint }
      { a := x'.endpoint, b := y.endpoint } := by
  have hwrite : ∀ {answer : Answer δ} {data : Bytes}, x.Allowed y seqno ackno
      (.callback .outbound answer) → answer.data = .ok data →
      x.tcp.sender.stream.accepted data = data.length →
      Reach Pair.step Pair.Allowed { a := x.endpoint, b := y.endpoint }
        { a := (x.afterData data).endpoint, b := y.endpoint } := by
    intro answer data hok hdata haccepted
    refine Pair.reach_act (.write data) ⟨hopen hok.1, ?_⟩ ?_
    · change x.fromOwner.length + x.tcp.sender.stream.accepted data + 2 < 2 ^ 64
      rw [haccepted]
      exact hok.2 data (Except.toOption_eq_some_iff.mpr hdata)
    · have htake : data.take (x.tcp.sender.stream.accepted data) = data := by
        rw [haccepted, List.take_length]
      simp only [Endpoint.act, endpoint, afterData, htake]
  have hend : ∀ s : TCPSpongeSocket α,
      Reach Pair.step Pair.Allowed { a := s.endpoint, b := y.endpoint }
        { a := s.endOutbound.endpoint, b := y.endpoint } := by
    intro s
    refine Pair.reach_act .endInputStream trivial ?_
    simp only [Endpoint.act, endpoint, endOutbound]
  have hread : ∀ {n : ℕ}, n ≤ x.tcp.receiver.streamOut.buf.length →
      Reach Pair.step Pair.Allowed { a := x.endpoint, b := y.endpoint }
        { a := (x.afterWritten n).endpoint, b := y.endpoint } := by
    intro n hn
    refine Pair.reach_act (.read n) trivial ?_
    obtain ⟨hpop, hbytes⟩ := TCPConnection.popInbound_eq hn
    simp only [Endpoint.act, endpoint, afterWritten, hpop, hbytes]
  cases acts hc with
  | deaf | cancelled | dead | sent => exact .refl
  | @received answer adapter _ seg tcp hread hseg =>
    have harrives := hok.2
    rw [hread] at harrives
    obtain ⟨⟨packet, hsent, hpacket⟩, htimely⟩ := harrives
    rw [Except.toOption_eq_some_iff.mp hpacket] at hread
    obtain ⟨seg', hmem, heq⟩ := Carrier.genuine hy.holds hsent hread
    obtain ⟨k, hk⟩ := List.mem_iff_getElem?.mp hmem
    have hseg' : x.tcp.segmentReceived seg' = some tcp := by
      rw [← TCPConnection.segmentReceived_content, ← heq, TCPConnection.segmentReceived_content,
        hseg]
    refine Pair.reach_act (.segmentReceived k seqno ackno) ?_ ?_
    · intro out hout
      obtain rfl : seg' = out := Option.some.inj (hk.symm.trans hout)
      exact htimely.content heq
    · simp only [Endpoint.act, endpoint, hk, hseg', Option.bind_some, Option.map_some]
  | took hdata haccepted => exact hwrite hok hdata haccepted
  | tookLast hdata haccepted => exact (hwrite hok hdata haccepted).trans (hend _)
  | gave hn => exact hread hn
  | gaveLast hn => exact hread hn
  | ended => exact hend x
  | ticked => exact Pair.reach_act (.tick _) trivial rfl

/-- What it means that the owner of `x` was told that there is no more: the connection has an error,
or that is all. -/
def Told (x y : TCPSpongeSocket α) : Prop :=
  x.inboundShutdown = true → x.tcp.receiver.streamOut.error = true ∨
    x.tcp.receiver.streamOut.inputEnded = true ∧ x.toOwner = y.fromOwner

/-- A call on the connection that gives nothing to the owner. -/
theorem Told.conn (h : x.Told y) (op : ConnCall) (hc : x.tcp.call op = some x'.tcp)
    (hshut : x'.inboundShutdown = x.inboundShutdown) (hto : x'.toOwner = x.toOwner) :
    x'.Told y := by
  intro hx
  rcases h (hshut ▸ hx) with herror | ⟨hend, hall⟩
  · exact .inl (TCPConnection.receiverKept_error.call herror hc)
  · exact .inr ⟨TCPConnection.receiverKept_inputEnded.call hend hc, hto.trans hall⟩

theorem Told.endOutbound (h : x.Told y) : x.endOutbound.Told y :=
  h.conn .endInputStream x.call_endOutbound x.inboundShutdown_endOutbound x.toOwner_endOutbound

theorem Told.afterData (h : x.Told y) (data : Bytes) : (x.afterData data).Told y :=
  h.conn (.write data) (x.call_afterData data) (x.inboundShutdown_afterData data)
    (x.toOwner_afterData data)

/-- A call at `x`: the owner is told after the last byte of the inbound stream. -/
theorem Told.call (h : x.Told y) (hbefore : Duplex x.endpoint y.endpoint)
    (hafter : Duplex x'.endpoint y.endpoint) (hc : x.call c = some x') : x'.Told y := by
  cases acts hc with
  | deaf | cancelled | dead | sent => exact h
  | received _ hseg => exact h.conn (.segmentReceived _) hseg rfl rfl
  | took => exact h.afterData _
  | tookLast => exact (h.afterData _).endOutbound
  | ended => exact h.endOutbound
  | ticked => exact h.conn (.tick _) rfl rfl rfl
  | @gave _ n hn =>
    intro hx
    rcases h hx with herror | ⟨hend, hall⟩
    · exact .inl herror
    · -- all has been read, so the buffer is empty
      obtain ⟨hwhole, -⟩ := hbefore.back.channel.of_inputEnded hend
      have hnil : x.tcp.receiver.streamOut.buf = [] :=
        List.append_right_eq_self.mp (hwhole.trans hall.symm)
      refine .inr ⟨hend, ?_⟩
      simp only [afterWritten, hnil, List.take_nil, List.append_nil, hall]
  | @gaveLast _ n hn hdone =>
    intro _
    rcases Bool.or_eq_true_iff.mp hdone with heof | herror
    · obtain ⟨hend, hnil⟩ := (ByteStream.eof_iff _).mp heof
      obtain ⟨hwhole, -⟩ := hafter.back.channel.of_inputEnded hend
      have hbuf : (x.afterWritten n).afterShutdown.endpoint.conn.receiver.streamOut.buf = [] := hnil
      rw [hbuf, List.append_nil] at hwhole
      exact .inr ⟨hend, hwhole⟩
    · exact .inl herror

/-- After the peer's owner was told, nothing is read from the owner. -/
theorem Told.peer (h : y.Told x) (hopen : x.Opened) (hbefore : Duplex x.endpoint y.endpoint)
    (hok : x.Allowed y seqno ackno c) (hc : x.call c = some x') : y.Told x' := by
  have hshut : y.inboundShutdown = true → y.tcp.receiver.streamOut.error = true ∨
      x.outboundShutdown = true := by
    intro hy
    refine (h hy).imp_right fun hall => ?_
    obtain ⟨-, hended⟩ := hbefore.out.channel.of_inputEnded hall.1
    by_contra hout
    have hnot := hopen (Bool.eq_false_iff.mpr hout)
    cases hended.symm.trans hnot
  cases acts hc with
  | deaf | cancelled | dead | sent | received | gave | gaveLast | ticked => exact h
  | ended =>
    rw [Told, fromOwner_endOutbound]
    exact h
  | took | tookLast =>
    intro hy
    rcases hshut hy with herror | hout
    · exact .inl herror
    · cases hout.symm.trans hok.1

/-! ## A socket with nothing to do -/

/-- What it means that a rule is not interested. -/
def Quiet (s : TCPSpongeSocket α) : SocketRule → Prop
  | .datagram => s.tcp.active = false
  | .outbound => True
  | .inbound => s.tcp.receiver.streamOut.buf = [] ∧
      (s.inboundDone = true → s.inboundShutdown = true)
  | .segments => s.tcp.segmentsOut.length ≤ s.popped

/-- A rule that is not interested is quiet. -/
theorem quiet_of_interest {s : TCPSpongeSocket α} {i : SocketRule}
    (h : (rule (δ := δ) i).interest s = false) : s.Quiet i := by
  cases i with
  | datagram => exact h
  | outbound => trivial
  | inbound =>
    simp only [rule, Bool.or_eq_false_iff, Bool.not_eq_false', ByteStream.bufferEmpty_iff,
      Bool.and_eq_false_iff] at h
    exact ⟨h.1, fun hdone => h.2.resolve_left (by simp [hdone])⟩
  | segments =>
    simp only [rule, decide_eq_false_iff_not, not_lt] at h
    exact h

/-- Only the segments may be more after the outbound stream is ended. -/
theorem Quiet.cancel {s : TCPSpongeSocket α} {i j : SocketRule} (h : s.Quiet i)
    (hij : i = .segments → j ≠ .outbound) : ((rule (δ := δ) j).cancel s).Quiet i := by
  cases j with
  | datagram | inbound | segments => exact h
  | outbound =>
    have hreceiver : s.endOutbound.tcp.receiver = s.tcp.receiver :=
      TCPConnection.receiver_pushSegmentOut { s.tcp with sender := s.tcp.sender.endIn } false
    cases i with
    | datagram =>
      exact TCPConnection.active_pushSegmentOut { s.tcp with sender := s.tcp.sender.endIn } false h
    | outbound => trivial
    | inbound =>
      change s.endOutbound.Quiet .inbound
      rw [Quiet, inboundDone, hreceiver, inboundShutdown_endOutbound]
      exact h
    | segments => exact absurd rfl (hij rfl)

/-! ## The start -/

section Start

variable [PacketRead δ] [Carrier α] {s : TCPSpongeSocket α}

/-- A start is that of a connection. -/
theorem Starts.act (h : Starts cfg s) (y : Endpoint) : Reach Pair.step Pair.Allowed
    { a := { conn := .new cfg }, b := y } { a := s.endpoint, b := y } := by
  cases h with
  | connect hholds hs =>
    obtain rfl := Except.ok.inj ((connect_eq ..).symm.trans hs)
    exact Pair.reach_act .connect trivial rfl
  | listenAndAccept => exact .refl

/-- At the start the outbound stream is open. -/
theorem Starts.opened (h : Starts cfg s) : s.Opened := by
  cases h with
  | connect hholds hs =>
    obtain rfl := Except.ok.inj ((connect_eq ..).symm.trans hs)
    exact fun _ => (TCPConnection.kept_inputEnded false).pushSegmentOut (c := .new cfg) rfl true
  | listenAndAccept => exact fun _ => rfl

/-- At the start nobody has been told anything. -/
theorem Starts.told (h : Starts cfg s) (y : TCPSpongeSocket α) : s.Told y := by
  cases h with
  | connect hholds hs =>
    obtain rfl := Except.ok.inj ((connect_eq ..).symm.trans hs)
    exact fun hshut => by cases hshut
  | listenAndAccept => exact fun hshut => by cases hshut

end Start

end TCPSpongeSocket

/-! ## Two sockets -/

/-- Two sockets. -/
structure SocketPair (α : Type) where
  a : TCPSpongeSocket α
  b : TCPSpongeSocket α

/-- A call at one of the two ends; a segment that arrives with it was sent at the absolute number
`seqno`, and its ack, if it has one, is for `ackno`. -/
inductive SocketPairOp (δ : Type)
  | atA (c : TCPSpongeSocket.SocketCall δ) (seqno ackno : ℕ)
  | atB (c : TCPSpongeSocket.SocketCall δ) (seqno ackno : ℕ)

namespace SocketPair

open TCPSpongeSocket

variable {α δ : Type} [FdAdapter α δ]

/-- A call at one of the two ends. -/
def step (q : SocketPair α) : SocketPairOp δ → Option (SocketPair α)
  | .atA c _ _ => (q.a.call c).map fun a => { q with a }
  | .atB c _ _ => (q.b.call c).map fun b => { q with b }

def Allowed (q : SocketPair α) : SocketPairOp δ → Prop
  | .atA c seqno ackno => q.a.Allowed q.b seqno ackno c
  | .atB c seqno ackno => q.b.Allowed q.a seqno ackno c

instance [DecidableEq δ] (q : SocketPair α) (op : SocketPairOp δ) : Decidable (q.Allowed op) :=
  match op with
  | .atA c seqno ackno => inferInstanceAs (Decidable (q.a.Allowed q.b seqno ackno c))
  | .atB c seqno ackno => inferInstanceAs (Decidable (q.b.Allowed q.a seqno ackno c))

/-- The connections of the two sockets. -/
def pair (q : SocketPair α) : Pair := { a := q.a.endpoint, b := q.b.endpoint }

def swap (q : SocketPair α) : SocketPair α := { a := q.b, b := q.a }

variable [PacketRead δ] [Carrier α] {cfgA cfgB : TCPConfig} {q q' q₀ : SocketPair α}

/-- **What holds between two calls.** -/
structure Joint (cfgA cfgB : TCPConfig) (q : SocketPair α) : Prop where
  sane : Sane cfgA q.a
  peerSane : Sane cfgB q.b
  opened : q.a.Opened
  peerOpened : q.b.Opened
  told : q.a.Told q.b
  peerTold : q.b.Told q.a
  run : Reach Pair.step Pair.Allowed (Pair.init cfgA cfgB) q.pair

/-- The two ends may change places. -/
theorem Joint.symm (h : Joint cfgA cfgB q) : Joint cfgB cfgA q.swap :=
  ⟨h.peerSane, h.sane, h.peerOpened, h.opened, h.peerTold, h.told, Pair.reach_swap h.run⟩

/-- A call at the first end. -/
theorem Joint.atA {c : SocketCall δ} (seqno ackno : ℕ) {a : TCPSpongeSocket α}
    (h : Joint cfgA cfgB q) (hok : q.a.Allowed q.b seqno ackno c) (hc : q.a.call c = some a) :
    Joint cfgA cfgB { q with a } := by
  have hrun : Reach Pair.step Pair.Allowed (Pair.init cfgA cfgB) (pair { q with a }) :=
    h.run.trans (simulates h.peerSane h.opened hok hc)
  have hduplex := Pair.reach_duplex h.run
  exact
    { sane := h.sane.call hc
      peerSane := h.peerSane
      opened := h.opened.call hc
      peerOpened := h.peerOpened
      told := h.told.call hduplex (Pair.reach_duplex hrun) hc
      peerTold := h.peerTold.peer h.opened hduplex hok hc
      run := hrun }

/-- A call at either end. -/
theorem Joint.step {op : SocketPairOp δ} (h : Joint cfgA cfgB q) (hok : q.Allowed op)
    (hs : q.step op = some q') : Joint cfgA cfgB q' := by
  cases op with
  | atA c seqno ackno =>
    obtain ⟨a, ha, rfl⟩ := Option.map_eq_some_iff.mp hs
    exact h.atA seqno ackno hok ha
  | atB c seqno ackno =>
    obtain ⟨b, hb, rfl⟩ := Option.map_eq_some_iff.mp hs
    exact (h.symm.atA seqno ackno hok hb).symm

/-- It holds at the start. -/
theorem Joint.start (ha : Starts cfgA q.a) (hb : Starts cfgB q.b) : Joint cfgA cfgB q where
  sane := ha.sane
  peerSane := hb.sane
  opened := ha.opened
  peerOpened := hb.opened
  told := ha.told _
  peerTold := hb.told _
  run := by
    have hfirst : Reach Pair.step Pair.Allowed (Pair.init cfgA cfgB)
        { a := q.a.endpoint, b := { conn := .new cfgB } } := ha.act _
    exact Pair.reach_swap ((Pair.reach_swap hfirst).trans (hb.act _))

/-- **It holds in every run.** -/
theorem reach_joint (ha : Starts cfgA q₀.a) (hb : Starts cfgB q₀.b)
    (h : Reach step Allowed q₀ q) : Joint cfgA cfgB q :=
  h.invariant (.start ha hb) fun _ _ _ ih hok hs => ih.step hok hs

/-- A run over TUN devices.  `b` listens; it writes two bytes and ends its stream, `a` writes one
and ends its stream too, and then the loop of `a` has nothing left to poll. -/
theorem exists_run : ∃ q₀ q : SocketPair TCPOverIPv4OverTunFdAdapter,
    Starts { isn := ⟨4294967295⟩ } q₀.a ∧ Starts { isn := ⟨7⟩ } q₀.b ∧ Reach step Allowed q₀ q ∧
      (q.a.fromOwner = [33] ∧ q.b.fromOwner = [104, 105]) ∧
      (q.b.inboundShutdown = true ∧ q.b.tcp.receiver.streamOut.error = false) ∧
      ∃ p, EventLoop.waitNextEvent rule rules q.a .timeout (fun _ => { packet := .ok [] }) =
          .ok (.exit, p) ∧ (.datagram ∈ p.rules ∧ .inbound ∈ p.rules) ∧
        p.state.tcp.sender.stream.error = false := by
  let toA (k seqno ackno : ℕ) : SocketPair TCPOverIPv4OverTunFdAdapter → SocketPairOp Bytes :=
    fun q => .atA (.callback .datagram { packet := .ok (q.b.adapter.tun.sent.getD k []) })
      seqno ackno
  let toB (k seqno ackno : ℕ) : SocketPair TCPOverIPv4OverTunFdAdapter → SocketPairOp Bytes :=
    fun q => .atB (.callback .datagram { packet := .ok (q.a.adapter.tun.sent.getD k []) })
      seqno ackno
  let answer (data : Bytes) (taken : ℕ) : Answer Bytes :=
    { packet := .ok [], data := .ok data, taken := .ok taken }
  let atA (i : SocketRule) (data : Bytes) (taken : ℕ) :
      SocketPair TCPOverIPv4OverTunFdAdapter → SocketPairOp Bytes :=
    fun _ => .atA (.callback i (answer data taken)) 0 0
  let atB (i : SocketRule) (data : Bytes) (taken : ℕ) :
      SocketPair TCPOverIPv4OverTunFdAdapter → SocketPairOp Bytes :=
    fun _ => .atB (.callback i (answer data taken)) 0 0
  let done (q : SocketPair TCPOverIPv4OverTunFdAdapter) : Bool :=
    (EventLoop.waitNextEvent rule rules q.a .timeout fun _ => answer [] 0).toOption.any fun r =>
      decide (r.1 = .exit ∧ (.datagram ∈ r.2.rules ∧ .inbound ∈ r.2.rules) ∧
        r.2.state.tcp.sender.stream.error = false)
  let adapter : TCPOverIPv4OverTunFdAdapter := {}
  obtain ⟨q, hq, heval⟩ := exists_reach_of_exec
    (fun q (f : SocketPair TCPOverIPv4OverTunFdAdapter → SocketPairOp Bytes) => step q (f q))
    (fun q f => Allowed q (f q))
    { a :=
        { tcp := (TCPConnection.new { isn := ⟨4294967295⟩ }).connect
          adapter := FdAdapter.setConfig adapter
            { source := ⟨1, 10⟩, destination := ⟨2, 20⟩ } }
      b := listenAndAccept { isn := ⟨7⟩ } { source := ⟨0, 20⟩ } adapter }
    [ -- the handshake
      atA .segments [] 0, toB 0 0 0, atB .segments [] 0, toA 0 0 1, atA .segments [] 0, toB 1 1 1,
      -- `b` writes, ends, and is read
      atB .outbound [104, 105] 0, atB .outbound [] 0, atB .segments [] 0, toA 1 1 1, toA 2 3 1,
      atA .inbound [] 2,
      -- so does `a`
      atA .outbound [33] 0, atA .outbound [] 0, atA .segments [] 0, toB 2 1 3, toB 3 1 4,
      toB 4 1 4, toB 5 2 4, atB .inbound [] 1,
      -- the last acks
      atB .segments [] 0, toA 3 4 2, toA 4 4 3]
    (fun q => decide (q.a.fromOwner = [33] ∧ q.b.fromOwner = [104, 105]) &&
      decide (q.b.inboundShutdown = true ∧ q.b.tcp.receiver.streamOut.error = false) && done q)
    (by decide +kernel)
  simp only [Bool.and_eq_true, decide_eq_true_eq] at heval
  obtain ⟨⟨hfrom, hshut⟩, hdone⟩ := heval
  have hholds : Carrier.Holds [] adapter := fun p hp => absurd hp List.not_mem_nil
  refine ⟨_, q, .connect hholds (connect_eq _ _ _), .listenAndAccept hholds, hq.of_choice, hfrom,
    hshut, ?_⟩
  obtain ⟨⟨result, p⟩, hwait, hp⟩ := (Option.any_eq_true _ _).mp hdone
  obtain ⟨rfl, hp⟩ := decide_eq_true_iff.mp hp
  exact ⟨p, Except.toOption_eq_some_iff.mp hwait, hp⟩

/-- **Two sockets refine two connections.**  In every run that respects `Allowed`, what the
connections of two sockets go through, with the bytes of their owners, is a run of two connections
over a network that forges nothing: whatever the adapter, and whatever else is on the network. -/
theorem refines (ha : Starts cfgA q₀.a) (hb : Starts cfgB q₀.b) (h : Reach step Allowed q₀ q) :
    Reach Pair.step Pair.Allowed (Pair.init cfgA cfgB) q.pair :=
  (reach_joint ha hb h).run

/-- The run over TUN devices, as one of two connections. -/
theorem refines_tun : ∃ q₀ q : SocketPair TCPOverIPv4OverTunFdAdapter,
    Reach step Allowed q₀ q ∧ q.pair.b.accepted = [104, 105] ∧
      Reach Pair.step Pair.Allowed (Pair.init { isn := ⟨4294967295⟩ } { isn := ⟨7⟩ }) q.pair := by
  obtain ⟨q₀, q, ha, hb, hq, ⟨-, hfrom⟩, -⟩ := exists_run
  exact ⟨q₀, q, hq, hfrom, refines ha hb hq⟩

/-- **From owner to owner.**  In every run that respects `Allowed`, what the thread of `b` has
written for its owner is a front of what the thread of `a` has read from its owner; and once the
owner of `b` has been told that there is no more and the connection has no error, it is all of it,
and nothing more is read from the owner of `a`. -/
theorem end_to_end (ha : Starts cfgA q₀.a) (hb : Starts cfgB q₀.b) (h : Reach step Allowed q₀ q) :
    q.b.toOwner <+: q.a.fromOwner ∧
      (q.b.inboundShutdown = true → q.b.tcp.receiver.streamOut.error = false →
        q.b.toOwner = q.a.fromOwner ∧ q.a.outboundShutdown = true) := by
  have hjoint := reach_joint ha hb h
  have hduplex := Pair.reach_duplex hjoint.run
  refine ⟨(List.prefix_append _ _).trans hduplex.out.channel.isPrefix, fun htold herror => ?_⟩
  obtain herr | ⟨hend, hall⟩ := hjoint.peerTold htold
  · cases herror.symm.trans herr
  refine ⟨hall, ?_⟩
  obtain ⟨-, hended⟩ := hduplex.out.channel.of_inputEnded hend
  by_contra hout
  have hnot := hjoint.opened (Bool.eq_false_iff.mpr hout)
  cases hended.symm.trans hnot

/-- At its end the owner of `b` has the byte of the owner of `a`. -/
theorem end_to_end_tun : ∃ q₀ q : SocketPair TCPOverIPv4OverTunFdAdapter,
    Reach step Allowed q₀ q ∧ q.b.inboundShutdown = true ∧ q.b.toOwner = [33] ∧
      q.a.outboundShutdown = true := by
  obtain ⟨q₀, q, ha, hb, hq, ⟨hfrom, -⟩, ⟨hshut, herror⟩, -⟩ := exists_run
  obtain ⟨hall, hout⟩ := (end_to_end ha hb hq).2 hshut herror
  exact ⟨q₀, q, hq, hshut, hall.trans hfrom, hout⟩

/-- **A clean end loses nothing.**  When, in a run that respects `Allowed`, the loop of `a` has
nothing left to poll, with the rules that read from the device and write to the owner still there,
and the connection has no error: the owner of `a` has got all that the thread of `b` has read from
its owner, and has been told so; and `b` has all that the thread of `a` has read from its owner. -/
theorem clean_exit (ha : Starts cfgA q₀.a) (hb : Starts cfgB q₀.b) (h : Reach step Allowed q₀ q)
    {left : List SocketRule} (hleft : left.Sublist rules) {poll : EventLoop.Poll}
    {answer : ℕ → Answer δ} {p : EventLoop.Pass (TCPSpongeSocket α) SocketRule (Answer δ)}
    (hexit : EventLoop.waitNextEvent rule left q.a poll answer = .ok (.exit, p))
    (hpoll : poll ≠ .interrupted) (hrules : .datagram ∈ p.rules ∧ .inbound ∈ p.rules)
    (herror : p.state.tcp.sender.stream.error = false) :
    (p.state.toOwner = q.b.fromOwner ∧ p.state.inboundShutdown = true) ∧
      q.b.tcp.receiver.streamOut.inputEnded = true ∧
        q.b.toOwner ++ q.b.tcp.receiver.streamOut.buf = p.state.fromOwner := by
  obtain ⟨hnone, rfl⟩ := EventLoop.of_exit hexit hpoll
  have horder : rules.Pairwise fun i j => i = .segments → j ≠ .outbound := by decide
  obtain ⟨hjoint, hquiet, -⟩ := EventLoop.arm_idle
    (A := fun s => Joint cfgA cfgB { q with a := s }) (N := fun i s => s.Quiet i)
    (fun i s hs => hs.atA (c := .cancel i) 0 0 trivial rfl)
    (fun i s _ hinterest => quiet_of_interest hinterest) (fun i j s hij hN => hN.cancel hij)
    (reach_joint ha hb h) (horder.sublist hleft) hnone
  obtain ⟨hsent, hended, hall⟩ :=
    (Pair.reach_duplex hjoint.run).of_inactive (hquiet _ hrules.1) herror
  obtain ⟨hnil, hshut⟩ := hquiet _ hrules.2
  have heof : (EventLoop.arm rule left q.a).2.state.tcp.receiver.streamOut.eof = true :=
    (ByteStream.eof_iff _).mpr ⟨hended, hnil⟩
  refine ⟨⟨?_, hshut (by rw [inboundDone, heof, Bool.true_or])⟩, hsent⟩
  change _ ++ (EventLoop.arm rule left q.a).2.state.tcp.receiver.streamOut.buf = _ at hall
  rw [hnil, List.append_nil] at hall
  exact hall

/-- And the owner of `a` has the two bytes of the owner of `b`. -/
theorem clean_exit_tun : ∃ (q₀ q : SocketPair TCPOverIPv4OverTunFdAdapter)
    (p : EventLoop.Pass (TCPSpongeSocket TCPOverIPv4OverTunFdAdapter) SocketRule (Answer Bytes)),
    Reach step Allowed q₀ q ∧ EventLoop.waitNextEvent rule rules q.a .timeout
      (fun _ => { packet := .ok [] }) = .ok (.exit, p) ∧
    p.state.toOwner = [104, 105] ∧ p.state.inboundShutdown = true := by
  obtain ⟨q₀, q, ha, hb, hq, ⟨-, hfrom⟩, -, p, hexit, hrules, herror⟩ := exists_run
  obtain ⟨⟨hall, hshut⟩, -⟩ :=
    clean_exit ha hb hq (.refl _) hexit (by simp) hrules herror
  exact ⟨q₀, q, p, hq, hexit, hall.trans hfrom, hshut⟩

end SocketPair
