import Sponge.Connection.Outgoing
import Sponge.Connection.Reply
import Sponge.Socket.Carriers
import Sponge.Socket.Model

/-!
# Socket/Calls — what a thread does to its socket

A thread calls the callbacks of the four rules, cancels rules and lets the clock run.  `Acts` is the
list of all that such a call can do.  A callback that is permitted throws only what the kernel
raises (`Sane.throws`).
-/

namespace TCPSpongeSocket

variable {α δ : Type}

/-- What rule 3 gives to `write`. -/
def inboundFront (s : TCPSpongeSocket α) : BufferViewList :=
  .ofString (s.tcp.receiver.streamOut.peekOutput
    (min inboundLimit s.tcp.receiver.streamOut.bufferSize))

/-- **The exceptions that the kernel raises on the stream socket** of the thread: a system call
fails, a read gives more than was asked for, or a write takes nothing, or more than it was given. -/
inductive PipeRaises (s : TCPSpongeSocket α) (answer : Answer δ) : Exn → Prop
  | data {e : Exn} (h : answer.data = .error e) : PipeRaises s answer e
  | dataExcess {data : Bytes} (h : answer.data = .ok data)
      (hmore : min FDWrapper.bufferSize s.tcp.remainingOutboundCapacity < data.length) :
    PipeRaises s answer FDWrapper.readExcess
  | taken {e : Exn} (h : FDWrapper.WriteFails s.inboundFront answer.taken e) :
    PipeRaises s answer e
  | shutdown {e : Exn} (h : answer.shutdown = .error e) : PipeRaises s answer e

/-- **The exceptions that the kernel raises** in a callback on the socket. -/
def Raised [PacketRead δ] (s : TCPSpongeSocket α) (answer : Answer δ) (e : Exn) : Prop :=
  Raises answer.packet answer.kernel e ∨ s.PipeRaises answer e

/-! ## What the callbacks do -/

section Callbacks

variable {s s' : TCPSpongeSocket α} {answer : Answer δ} {e : Exn}

/-- **What rule 1 does**: a segment, if the adapter returns one, goes to the connection. -/
theorem of_datagramCallback [FdAdapter α δ] (h : datagramCallback answer s = .ok s') :
    ∃ seg adapter tcp fullyAcked,
      FdAdapter.read s.adapter answer.packet answer.kernel = .ok (seg, adapter) ∧
      (seg = none ∧ tcp = s.tcp ∨ ∃ seg', seg = some seg' ∧
        s.tcp.segmentReceived seg' = some tcp) ∧ s' = { s with adapter, tcp, fullyAcked } := by
  obtain ⟨⟨seg, adapter⟩, hread, h⟩ := Except.bind_eq_ok_iff.mp h
  obtain ⟨tcp, htcp, h⟩ := Except.bind_eq_ok_iff.mp h
  obtain rfl := Except.ok.inj h
  refine ⟨seg, adapter, tcp, _, hread, ?_, rfl⟩
  cases seg with
  | none => exact .inl ⟨rfl, (Except.ok.inj htcp).symm⟩
  | some seg =>
    refine .inr ⟨seg, rfl, ?_⟩
    simp only [segmentReceived] at htcp
    split at htcp
    · cases htcp
    · rename_i tcp' hseg
      rw [hseg, Except.ok.inj htcp]

/-- Rule 1 throws what the adapter throws, or what the connection throws. -/
theorem datagramCallback_error [FdAdapter α δ]
    (h : datagramCallback answer s = .error e) :
    FdAdapter.read s.adapter answer.packet answer.kernel = .error e ∨
      ∃ seg, s.tcp.segmentReceived seg = none := by
  obtain hread | ⟨⟨seg, adapter⟩, -, h⟩ := Except.bind_eq_error_iff.mp h
  · exact .inl hread
  obtain htcp | ⟨tcp, -, h⟩ := Except.bind_eq_error_iff.mp h
  · cases seg with
    | none => cases htcp
    | some seg =>
      simp only [segmentReceived] at htcp
      split at htcp
      · exact .inr ⟨seg, ‹_›⟩
      · cases htcp
  · cases h

/-- What is read fits the outbound buffer. -/
theorem accepted_of_read {c : TCPConnection} {data : Bytes} {limit : ℕ}
    (hle : data.length ≤ min limit c.remainingOutboundCapacity) :
    c.sender.stream.accepted data = data.length := by
  rw [ByteStream.accepted_eq_min]
  exact min_eq_left (hle.trans (min_le_right _ _))

/-- The socket after rule 2 has read `data`. -/
def afterData (s : TCPSpongeSocket α) (data : Bytes) : TCPSpongeSocket α :=
  { s with
    threadData := s.threadData.afterRead s.tcp.remainingOutboundCapacity data
    tcp := s.tcp.write data
    fromOwner := s.fromOwner ++ data }

/-- **What rule 2 does**: what is read is written to the connection, all of it; and at the end of
the input the stream is ended. -/
theorem outboundCallback_cases (answer : Answer δ) (s : TCPSpongeSocket α) :
    (∃ e, outboundCallback answer s = .error e ∧ s.PipeRaises answer e) ∨
    ∃ data, answer.data = .ok data ∧ s.tcp.sender.stream.accepted data = data.length ∧
      outboundCallback answer s = .ok (if (s.afterData data).threadData.eof then
        (s.afterData data).endOutbound else s.afterData data) := by
  obtain ⟨e, hdata, heq⟩ | ⟨data, hdata, hmore, heq⟩ | ⟨data, hdata, hle, heq⟩ :=
    s.threadData.read_cases s.tcp.remainingOutboundCapacity answer.data
  · exact .inl ⟨e, by rw [outboundCallback, heq, Except.error_bind], .data hdata⟩
  · exact .inl ⟨_, by rw [outboundCallback, heq, Except.error_bind], .dataExcess hdata hmore⟩
  · have haccepted : s.tcp.sender.stream.accepted data = data.length := accepted_of_read hle
    refine .inr ⟨data, hdata, haccepted, ?_⟩
    rw [outboundCallback, heq, Except.ok_bind]
    dsimp only
    rw [acceptOutbound, if_neg (not_not.mpr haccepted), apply_ite Except.ok, afterData]

section Fields

variable (s : TCPSpongeSocket α) (data : Bytes)

theorem call_endOutbound : s.tcp.call .endInputStream = some s.endOutbound.tcp := by
  rw [TCPConnection.call, endOutbound]

theorem call_afterData : s.tcp.call (.write data) = some (s.afterData data).tcp := by
  rw [TCPConnection.call, afterData]

@[simp] theorem adapter_endOutbound : s.endOutbound.adapter = s.adapter := by rw [endOutbound]

@[simp] theorem adapter_afterData : (s.afterData data).adapter = s.adapter := by rw [afterData]

@[simp] theorem inboundShutdown_endOutbound :
    s.endOutbound.inboundShutdown = s.inboundShutdown := by rw [endOutbound]

@[simp] theorem inboundShutdown_afterData :
    (s.afterData data).inboundShutdown = s.inboundShutdown := by rw [afterData]

@[simp] theorem toOwner_endOutbound : s.endOutbound.toOwner = s.toOwner := by rw [endOutbound]

@[simp] theorem fromOwner_endOutbound : s.endOutbound.fromOwner = s.fromOwner := by
  rw [endOutbound]

@[simp] theorem outboundShutdown_afterData :
    (s.afterData data).outboundShutdown = s.outboundShutdown := by rw [afterData]

@[simp] theorem toOwner_afterData : (s.afterData data).toOwner = s.toOwner := by rw [afterData]

end Fields

/-- The socket after rule 3 has written the first `n` bytes of the inbound buffer. -/
def afterWritten (s : TCPSpongeSocket α) (n : ℕ) : TCPSpongeSocket α :=
  { s with
    tcp := s.tcp.popInbound n
    threadData := s.threadData.registerWrite
    toOwner := s.toOwner ++ s.tcp.receiver.streamOut.buf.take n }

/-- The socket after the owner is told that there will be no more. -/
def afterShutdown (s : TCPSpongeSocket α) : TCPSpongeSocket α :=
  { s with threadData := s.threadData.registerWrite, inboundShutdown := true }

/-- **What rule 3 does**: the front of the inbound buffer goes to the owner, and after its end the
owner is told so. -/
theorem inboundCallback_cases (answer : Answer δ) (s : TCPSpongeSocket α) :
    (∃ e, inboundCallback answer s = .error e ∧ s.PipeRaises answer e) ∨
    ∃ n, answer.taken = .ok n ∧ n ≤ s.tcp.receiver.streamOut.buf.length ∧
      inboundCallback answer s = .ok (if (s.afterWritten n).inboundDone then
        (s.afterWritten n).afterShutdown else s.afterWritten n) := by
  -- what matters of the limit is that a front of the buffer is written
  obtain ⟨k, hk⟩ : ∃ k, s.tcp.receiver.streamOut.peekOutput
      (min inboundLimit s.tcp.receiver.streamOut.bufferSize) =
        s.tcp.receiver.streamOut.buf.take k := ⟨_, rfl⟩
  have hbytes : (BufferViewList.ofString (s.tcp.receiver.streamOut.buf.take k)).asIovecs.flatten =
      s.tcp.receiver.streamOut.buf.take k := by
    simp [BufferViewList.ofString, BufferViewList.asIovecs]
  obtain ⟨e, hfails, heq⟩ | ⟨n, htaken, hle, heq⟩ :=
    s.threadData.write_once (.ofString (s.tcp.receiver.streamOut.buf.take k)) answer.taken
  · refine .inl ⟨e, by simp only [inboundCallback, hk, heq], .taken ?_⟩
    rwa [inboundFront, hk]
  · rw [BufferViewList.size_eq, hbytes, List.length_take] at hle
    have hcall : inboundCallback answer s = finishInbound answer (s.afterWritten n) := by
      simp only [inboundCallback, hk, heq, popWritten, hbytes, List.take_take,
        min_eq_left (hle.trans (min_le_left _ _)), afterWritten]
    have hlen := hle.trans (min_le_right _ _)
    by_cases hdone : (s.afterWritten n).inboundDone = true
    · have hfinish : finishInbound answer (s.afterWritten n) =
          answer.shutdown >>= fun _ => .ok (s.afterWritten n).afterShutdown := if_pos hdone
      cases hshut : answer.shutdown with
      | error e =>
        exact .inl ⟨e, by rw [hcall, hfinish, hshut, Except.error_bind], .shutdown hshut⟩
      | ok _ =>
        refine .inr ⟨n, htaken, hlen, ?_⟩
        rw [hcall, hfinish, hshut, Except.ok_bind, if_pos hdone]
    · have hfinish : finishInbound answer (s.afterWritten n) = .ok (s.afterWritten n) :=
        if_neg hdone
      exact .inr ⟨n, htaken, hlen, by rw [hcall, hfinish, if_neg hdone]⟩

/-- **What rule 4 does**: the segments that are not popped are written to the adapter. -/
theorem of_segmentsCallback [FdAdapter α δ] {I : α → Prop}
    (hI : ∀ a a' seg, seg ∈ s.tcp.segmentsOut → I a →
      FdAdapter.write a seg answer.kernel = .ok a' → I a')
    (ha : I s.adapter) (h : segmentsCallback answer s = .ok s') :
    ∃ adapter, I adapter ∧
      s' = { s with adapter, popped := max s.popped s.tcp.segmentsOut.length } := by
  let sends (rest : List TCPSegment) (t : TCPSpongeSocket α) : Prop :=
    rest ⊆ s.tcp.segmentsOut ∧ ∃ adapter popped, I adapter ∧
      popped + rest.length = max s.popped s.tcp.segmentsOut.length ∧ t = { s with adapter, popped }
  have hlen : s.popped + (s.tcp.segmentsOut.drop s.popped).length =
      max s.popped s.tcp.segmentsOut.length := by
    rw [List.length_drop]
    omega
  have hsent : sends [] s' := by
    refine Except.foldlM_ok (I := sends) ?_
      ⟨List.drop_subset _ _, s.adapter, s.popped, ha, hlen, rfl⟩ h
    rintro seg rest _ t' ⟨hsub, adapter, popped, hadapter, hcount, rfl⟩ hturn
    obtain ⟨adapter', hwrite, hturn⟩ := Except.bind_eq_ok_iff.mp hturn
    obtain rfl := Except.ok.inj hturn
    obtain ⟨hseg, hsub⟩ := List.cons_subset.mp hsub
    exact ⟨hsub, adapter', popped + 1, hI _ _ seg hseg hadapter hwrite,
      by rw [← hcount, List.length_cons]; omega, rfl⟩
  obtain ⟨-, adapter, popped, hadapter, hcount, rfl⟩ := hsent
  exact ⟨adapter, hadapter, by rw [← hcount]; rfl⟩

/-- Rule 4 throws what a write of one of the segments throws. -/
theorem segmentsCallback_error [FdAdapter α δ] {I : α → Prop}
    (hI : ∀ a a' seg, seg ∈ s.tcp.segmentsOut → I a →
      FdAdapter.write a seg answer.kernel = .ok a' → I a')
    (ha : I s.adapter) (h : segmentsCallback answer s = .error e) :
    ∃ a seg, I a ∧ seg ∈ s.tcp.segmentsOut ∧ FdAdapter.write a seg answer.kernel = .error e := by
  obtain ⟨seg, rest, t, ⟨hsub, ht⟩, hturn⟩ := Except.foldlM_error
    (I := fun rest t => rest ⊆ s.tcp.segmentsOut ∧ I t.adapter) (by
      rintro seg rest t t' ⟨hsub, ht⟩ hturn
      obtain ⟨adapter, hwrite, hturn⟩ := Except.bind_eq_ok_iff.mp hturn
      obtain rfl := Except.ok.inj hturn
      obtain ⟨hseg, hsub⟩ := List.cons_subset.mp hsub
      exact ⟨hsub, hI _ _ seg hseg ht hwrite⟩) ⟨List.drop_subset _ _, ha⟩ h
  obtain hwrite | ⟨adapter, -, hturn⟩ := Except.bind_eq_error_iff.mp hturn
  · exact ⟨t.adapter, seg, ht, hsub List.mem_cons_self, hwrite⟩
  · cases hturn

end Callbacks

/-! ## Calls -/

/-- A call that a thread makes on its socket. -/
inductive SocketCall (δ : Type)
  | callback (i : SocketRule) (answer : Answer δ)
  | cancel (i : SocketRule)
  | tick (ms : ℕ) (kernel : ℕ → Except Exn Unit)

/-- One call; `none` if it throws. -/
def call [FdAdapter α δ] (s : TCPSpongeSocket α) : SocketCall δ → Option (TCPSpongeSocket α)
  | .callback i answer => ((rule i).callback answer s).toOption
  | .cancel i => some ((rule (δ := δ) i).cancel s)
  | .tick ms kernel => (s.tick ms kernel).toOption

/-- The acceptance limit of the receiver fits in 64 bits. -/
def InRange (s : TCPSpongeSocket α) : Prop := s.tcp.receiver.reassembler.edge < 2 ^ 64

instance (s : TCPSpongeSocket α) : Decidable (InRange s) := inferInstanceAs (Decidable (_ < _))

/-- **What the callback of a rule relies on.** -/
def Relies (s : TCPSpongeSocket α) : SocketRule → Prop
  | .datagram => s.InRange
  | .outbound => s.outboundShutdown = false
  | .inbound | .segments => True

/-- A call that the event loop may make. -/
def Permitted (s : TCPSpongeSocket α) : SocketCall δ → Prop
  | .callback i _ => s.Relies i
  | .cancel _ | .tick _ _ => True

/-- The socket has come from `s₀` by permitted calls. -/
abbrev Runs [FdAdapter α δ] (s₀ s : TCPSpongeSocket α) : Prop :=
  Reach call (Permitted (δ := δ)) s₀ s

/-- **All that a call can do** when it returns. -/
inductive Acts [FdAdapter α δ] (s : TCPSpongeSocket α) : SocketCall δ → TCPSpongeSocket α → Prop
  /-- no packet, or none with a segment for this connection -/
  | deaf {answer : Answer δ} {adapter : α} {fullyAcked : Bool}
      (hread : FdAdapter.read s.adapter answer.packet answer.kernel = .ok (none, adapter)) :
    Acts s (.callback .datagram answer) { s with adapter, fullyAcked }
  | received {answer : Answer δ} {adapter : α} {fullyAcked : Bool} {seg : TCPSegment}
      {tcp : TCPConnection}
      (hread : FdAdapter.read s.adapter answer.packet answer.kernel = .ok (some seg, adapter))
      (hseg : s.tcp.segmentReceived seg = some tcp) :
    Acts s (.callback .datagram answer) { s with adapter, tcp, fullyAcked }
  | took {answer : Answer δ} {data : Bytes} (hdata : answer.data = .ok data)
      (haccepted : s.tcp.sender.stream.accepted data = data.length) :
    Acts s (.callback .outbound answer) (s.afterData data)
  | tookLast {answer : Answer δ} {data : Bytes} (hdata : answer.data = .ok data)
      (haccepted : s.tcp.sender.stream.accepted data = data.length) :
    Acts s (.callback .outbound answer) (s.afterData data).endOutbound
  | gave {answer : Answer δ} {n : ℕ} (hn : n ≤ s.tcp.receiver.streamOut.buf.length) :
    Acts s (.callback .inbound answer) (s.afterWritten n)
  | gaveLast {answer : Answer δ} {n : ℕ} (hn : n ≤ s.tcp.receiver.streamOut.buf.length)
      (hdone : (s.afterWritten n).inboundDone = true) :
    Acts s (.callback .inbound answer) (s.afterWritten n).afterShutdown
  | sent {answer : Answer δ} {adapter : α}
      (hadapter : ∀ I : α → Prop, (∀ a a' seg, seg ∈ s.tcp.segmentsOut → I a →
        FdAdapter.write a seg answer.kernel = .ok a' → I a') → I s.adapter → I adapter) :
    Acts s (.callback .segments answer)
      { s with adapter, popped := max s.popped s.tcp.segmentsOut.length }
  | ended : Acts s (.cancel .outbound) s.endOutbound
  | cancelled {i : SocketRule} (hi : i ≠ .outbound) : Acts s (.cancel i) s
  | ticked {ms : ℕ} {kernel : ℕ → Except Exn Unit} {adapter : α}
      (htick : FdAdapter.tick s.adapter ms kernel = .ok adapter) :
    Acts s (.tick ms kernel) { s with tcp := s.tcp.tick ms, adapter }
  | dead {ms : ℕ} {kernel : ℕ → Except Exn Unit} : Acts s (.tick ms kernel) s

section Inversion

variable [FdAdapter α δ] {s s' : TCPSpongeSocket α} {answer : Answer δ}

/-- The callbacks of the four rules are on the list. -/
theorem acts_callback {i : SocketRule} (hs : (rule i).callback answer s = .ok s') :
    s.Acts (.callback i answer) s' := by
  cases i with
  | datagram =>
    obtain ⟨seg, adapter, tcp, fullyAcked, hread, ⟨rfl, rfl⟩ | ⟨seg, rfl, hseg⟩, rfl⟩ :=
      of_datagramCallback hs
    · exact .deaf hread
    · exact .received hread hseg
  | outbound =>
    obtain ⟨e, heq, -⟩ | ⟨data, hdata, haccepted, heq⟩ := outboundCallback_cases answer s
    · cases heq.symm.trans hs
    · obtain rfl := Except.ok.inj (heq.symm.trans hs)
      split_ifs
      · exact .tookLast hdata haccepted
      · exact .took hdata haccepted
  | inbound =>
    obtain ⟨e, heq, -⟩ | ⟨n, -, hn, heq⟩ := inboundCallback_cases answer s
    · cases heq.symm.trans hs
    · obtain rfl := Except.ok.inj (heq.symm.trans hs)
      split_ifs with hdone
      · exact .gaveLast hn hdone
      · exact .gave hn
  | segments =>
    obtain ⟨adapter, -, rfl⟩ := of_segmentsCallback (I := fun _ => True)
      (fun _ _ _ _ _ _ => trivial) trivial hs
    refine .sent fun I hI h => ?_
    obtain ⟨adapter', hadapter', heq⟩ := of_segmentsCallback hI h hs
    have hsame : adapter = adapter' := congrArg TCPSpongeSocket.adapter heq
    exact hsame ▸ hadapter'

/-- Every call is. -/
theorem acts {c : SocketCall δ} (hc : s.call c = some s') : s.Acts c s' := by
  cases c with
  | callback i answer => exact acts_callback (Except.toOption_eq_some_iff.mp hc)
  | cancel i =>
    obtain rfl := Option.some.inj hc
    cases i with
    | outbound => exact .ended
    | datagram | inbound | segments => exact .cancelled (by decide)
  | tick ms kernel =>
    have hs := Except.toOption_eq_some_iff.mp hc
    rw [tick] at hs
    split_ifs at hs
    · obtain ⟨adapter, htick, hs⟩ := Except.bind_eq_ok_iff.mp hs
      obtain rfl := Except.ok.inj hs
      exact .ticked htick
    · obtain rfl := Except.ok.inj hs
      exact .dead

/-- `connect` does not throw. -/
theorem connect_eq (cTcp : TCPConfig) (cAd : FdAdapterConfig) (adapter : α) :
    connect cTcp cAd adapter = .ok
      { tcp := (TCPConnection.new cTcp).connect, adapter := FdAdapter.setConfig adapter cAd } := by
  simp only [connect, TCPConnection.state_connect, ne_eq, not_true_eq_false, if_false]

end Inversion

/-! ## What every call keeps -/

section Kept

variable [FdAdapter α δ] [PacketRead δ] [Carrier α] {cfg : TCPConfig} {s s' : TCPSpongeSocket α}
  {answer : Answer δ} {e : Exn}

/-- **A socket between two calls**: its connection is one among arbitrary callers, and its adapter
has been given nothing but what the connection has sent. -/
structure Sane (cfg : TCPConfig) (s : TCPSpongeSocket α) : Prop where
  reach : Reach TCPConnection.call (fun _ _ => True) (.new cfg) s.tcp
  holds : Carrier.Holds s.tcp.segmentsOut s.adapter

/-- A call on the connection. -/
theorem Sane.conn (h : Sane cfg s) (op : ConnCall) (hc : s.tcp.call op = some s'.tcp)
    (hadapter : Carrier.Holds s.tcp.segmentsOut s'.adapter) : Sane cfg s' where
  reach := h.reach.tail trivial hc
  holds := Carrier.mono (TCPConnection.segmentsOut_subset hc) hadapter

theorem Sane.endOutbound (h : Sane cfg s) : Sane cfg s.endOutbound :=
  h.conn .endInputStream s.call_endOutbound (s.adapter_endOutbound.symm ▸ h.holds)

theorem Sane.afterData (h : Sane cfg s) (data : Bytes) : Sane cfg (s.afterData data) :=
  h.conn (.write data) (s.call_afterData data) ((s.adapter_afterData data).symm ▸ h.holds)

theorem Sane.afterWritten (h : Sane cfg s) (n : ℕ) : Sane cfg (s.afterWritten n) :=
  h.conn (.pop n) rfl h.holds

/-- **A socket at the start** of the loop of `connect` or `listen_and_accept`, on an adapter that
has written nothing yet. -/
inductive Starts (cTcp : TCPConfig) : TCPSpongeSocket α → Prop
  | connect {cAd : FdAdapterConfig} {adapter : α} {s : TCPSpongeSocket α}
      (hholds : Carrier.Holds [] adapter) (hs : connect cTcp cAd adapter = .ok s) : Starts cTcp s
  | listenAndAccept {cAd : FdAdapterConfig} {adapter : α} (hholds : Carrier.Holds [] adapter) :
    Starts cTcp (listenAndAccept cTcp cAd adapter)

/-- Both starts are sane. -/
theorem Starts.sane (h : Starts cfg s) : Sane cfg s := by
  cases h with
  | @connect cAd adapter _ hholds hs =>
    obtain rfl := Except.ok.inj ((connect_eq cfg cAd adapter).symm.trans hs)
    have hnew : Sane cfg { tcp := .new cfg, adapter := FdAdapter.setConfig adapter cAd } :=
      ⟨.refl, Carrier.setConfig cAd hholds⟩
    exact hnew.conn .connect rfl hnew.holds
  | listenAndAccept hholds =>
    exact ⟨.refl, Carrier.setListening true (Carrier.setConfig _ hholds)⟩

/-- What the adapter is given to write are plain segments that the connection has sent. -/
theorem Sane.write (h : Sane cfg s) (a a' : α) (seg : TCPSegment) (hseg : seg ∈ s.tcp.segmentsOut)
    (ha : Carrier.Holds s.tcp.segmentsOut a)
    (hwrite : FdAdapter.write a seg answer.kernel = .ok a') : Carrier.Holds s.tcp.segmentsOut a' :=
  Carrier.write ha hseg (TCPConnection.reach_plain h.reach seg hseg) hwrite

/-- **Every call keeps a socket sane.** -/
theorem Sane.call {c : SocketCall δ} (h : Sane cfg s) (hc : s.call c = some s') : Sane cfg s' := by
  cases acts hc with
  | deaf hread => exact ⟨h.reach, Carrier.read h.holds hread⟩
  | received hread hseg =>
    exact h.conn (.segmentReceived _) hseg (Carrier.read h.holds hread)
  | took => exact h.afterData _
  | tookLast => exact (h.afterData _).endOutbound
  | gave => exact h.afterWritten _
  | gaveLast => exact ⟨(h.afterWritten _).reach, (h.afterWritten _).holds⟩
  | sent hadapter => exact ⟨h.reach, hadapter _ h.write h.holds⟩
  | ended => exact h.endOutbound
  | cancelled | dead => exact h
  | ticked htick => exact h.conn (.tick _) rfl (Carrier.tick h.holds htick)

/-- **What the tick throws** was raised by the kernel. -/
theorem Sane.tick_throws {ms : ℕ} {kernel : ℕ → Except Exn Unit} (h : Sane cfg s)
    (he : s.tick ms kernel = .error e) : ∃ n, kernel n = .error e := by
  rw [TCPSpongeSocket.tick] at he
  split_ifs at he
  · obtain hadapter | ⟨adapter, -, he⟩ := Except.bind_eq_error_iff.mp he
    · exact Carrier.tick_throws h.holds hadapter
    · cases he

/-- **What a callback throws** was raised by the kernel. -/
theorem Sane.throws (h : Sane cfg s) (i : SocketRule) (hrelies : s.Relies i)
    (he : (rule i).callback answer s = .error e) : Raised s answer e := by
  cases i with
  | datagram =>
    obtain hread | ⟨seg, hseg⟩ := datagramCallback_error he
    · exact .inl (Carrier.read_throws h.holds hread)
    · have hsome := TCPConnection.segmentReceived_isSome h.reach hrelies seg
      rw [hseg] at hsome
      cases hsome
  | outbound =>
    obtain ⟨e', heq, hraised⟩ | ⟨data, -, -, heq⟩ := outboundCallback_cases answer s
    · obtain rfl := Except.error.inj (heq.symm.trans he)
      exact .inr hraised
    · cases heq.symm.trans he
  | inbound =>
    obtain ⟨e', heq, hraised⟩ | ⟨n, -, -, heq⟩ := inboundCallback_cases answer s
    · obtain rfl := Except.error.inj (heq.symm.trans he)
      exact .inr hraised
    · cases heq.symm.trans he
  | segments =>
    obtain ⟨a, seg, ha, hseg, hwrite⟩ := segmentsCallback_error h.write h.holds he
    have hplain := TCPConnection.reach_plain h.reach seg hseg
    obtain ⟨n, hn⟩ := Carrier.write_throws ha hplain hwrite
    exact .inl (.write n hn)

end Kept

end TCPSpongeSocket
