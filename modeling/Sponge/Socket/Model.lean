import Sponge.Connection.TCPState
import Sponge.Socket.Adapters
import Sponge.Socket.EventLoop

/-!
# Socket/Model — a connection, its device and its owner

`tcp_sponge_socket.cc`.  A thread moves bytes between its owner, at the other end of a pair of
stream sockets, and a `TCPConnection`, and segments between the connection and a device.  It does so
in an event loop of four rules, and between two passes of the loop the clock runs.

The bytes that have crossed the pair of sockets are logged, and `segments_out()` is the log of the
connection from which `popped` segments have been popped.  The lines of debugging output are left
out, but not the flag that one of them keeps.
-/

/-- The rules of the loop, in the order in which they are added. -/
inductive SocketRule
  | datagram | outbound | inbound | segments
  deriving DecidableEq, Repr

/-- What the kernel answers to the system calls that a callback may make. -/
structure Answer (δ : Type) where
  /-- to a read of the device -/
  packet : Except Exn δ
  /-- to the packets written to the device -/
  kernel : ℕ → Except Exn Unit := fun _ => .ok ()
  /-- to `read`, `writev` and `shutdown` on the stream socket -/
  data : Except Exn Bytes := .ok []
  taken : Except Exn ℕ := .ok 0
  shutdown : Except Exn Unit := .ok ()

structure TCPSpongeSocket (α : Type) where
  tcp : TCPConnection
  adapter : α
  threadData : FDWrapper := {}
  inboundShutdown : Bool := false
  outboundShutdown : Bool := false
  fullyAcked : Bool := false
  popped : ℕ := 0
  /-- the bytes that the owner has written and the thread has read -/
  fromOwner : Bytes := []
  /-- the bytes that the thread has written for the owner to read -/
  toOwner : Bytes := []

def TCPConnection.remainingOutboundCapacity (c : TCPConnection) : ℕ :=
  c.sender.stream.remainingCapacity

/-- What `std::string::substr` throws. -/
def substrOutOfRange : Exn := .outOfRange "basic_string::substr"

namespace TCPSpongeSocket

variable {α δ : Type}

/-- `segment_received` on the connection, if there is a segment. -/
def segmentReceived (tcp : TCPConnection) : Option TCPSegment → Except Exn TCPConnection
  | none => .ok tcp
  | some seg =>
    match tcp.segmentReceived seg with
    | none => .error substrOutOfRange
    | some tcp => .ok tcp

/-- Rule 1: read from the filtered packet stream and dump into the connection. -/
def datagramCallback [FdAdapter α δ] (answer : Answer δ) (s : TCPSpongeSocket α) :
    Except Exn (TCPSpongeSocket α) := do
  let (seg, adapter) ← FdAdapter.read s.adapter answer.packet answer.kernel
  let tcp ← segmentReceived s.tcp seg
  return { s with
    adapter, tcp
    fullyAcked := s.fullyAcked || (s.threadData.eof && tcp.bytesInFlight == 0) }

/-- `end_input_stream()`, and no more is read from the owner. -/
def endOutbound (s : TCPSpongeSocket α) : TCPSpongeSocket α :=
  { s with tcp := s.tcp.endInputStream, outboundShutdown := true }

/-- The part of rule 2 after the read. -/
def acceptOutbound (s : TCPSpongeSocket α) (data : Bytes) (threadData : FDWrapper) :
    Except Exn (TCPSpongeSocket α) :=
  let amountWritten := s.tcp.sender.stream.accepted data
  let s := { s with threadData, tcp := s.tcp.write data, fromOwner := s.fromOwner ++ data }
  if amountWritten ≠ data.length then
    .error (.runtimeError "TCPConnection::write() accepted less than advertised length")
  else if threadData.eof then .ok s.endOutbound
  else .ok s

/-- Rule 2: read from the pipe into the outbound buffer. -/
def outboundCallback (answer : Answer δ) (s : TCPSpongeSocket α) :
    Except Exn (TCPSpongeSocket α) := do
  let (data, threadData) ← s.threadData.read s.tcp.remainingOutboundCapacity answer.data
  s.acceptOutbound data threadData

/-- What rule 3 writes at most. -/
def inboundLimit : ℕ := 65536

/-- `inbound.eof() or inbound.error()`. -/
def inboundDone (s : TCPSpongeSocket α) : Bool :=
  s.tcp.receiver.streamOut.eof || s.tcp.receiver.streamOut.error

/-- The end of rule 3: the owner is told that there will be no more. -/
def finishInbound (answer : Answer δ) (s : TCPSpongeSocket α) : Except Exn (TCPSpongeSocket α) :=
  if s.inboundDone then do
    answer.shutdown
    return { s with threadData := s.threadData.registerWrite, inboundShutdown := true }
  else .ok s

/-- The part of rule 3 after the write: only what was written is popped. -/
def popWritten (answer : Answer δ) (s : TCPSpongeSocket α) (w : FDWrapper.Written) :
    Except Exn (TCPSpongeSocket α) :=
  finishInbound answer { s with
    tcp := s.tcp.popInbound w.total
    threadData := w.fd
    toOwner := s.toOwner ++ w.taken }

/-- Rule 3: read from the inbound buffer into the pipe. -/
def inboundCallback (answer : Answer δ) (s : TCPSpongeSocket α) :
    Except Exn (TCPSpongeSocket α) :=
  let inbound := s.tcp.receiver.streamOut
  let buffer := inbound.peekOutput (min inboundLimit inbound.bufferSize)
  match s.threadData.write (.ofString buffer) false [answer.taken] with
  -- one answer is enough for a write of what fits
  | none => .ok s
  | some (.error e) => .error e
  | some (.ok w) => popWritten answer s w

/-- One turn of the loop of rule 4. -/
def sendSegment [FdAdapter α δ] (answer : Answer δ) (s : TCPSpongeSocket α) (seg : TCPSegment) :
    Except Exn (TCPSpongeSocket α) := do
  let adapter ← FdAdapter.write s.adapter seg answer.kernel
  return { s with adapter, popped := s.popped + 1 }

/-- Rule 4: read outbound segments from the connection and send them as datagrams. -/
def segmentsCallback [FdAdapter α δ] (answer : Answer δ) (s : TCPSpongeSocket α) :
    Except Exn (TCPSpongeSocket α) :=
  (s.tcp.segmentsOut.drop s.popped).foldlM (sendSegment answer) s

/-- The rules that `_initialize_TCP` adds. -/
def rule [FdAdapter α δ] : SocketRule → EventLoop.Rule (TCPSpongeSocket α) (Answer δ)
  | .datagram =>
    { fd := fun s => (FdAdapter.device s.adapter).fd
      direction := .In
      callback := datagramCallback
      interest := fun s => s.tcp.active }
  | .outbound =>
    { fd := threadData
      direction := .In
      callback := outboundCallback
      interest := fun s =>
        s.tcp.active && !s.outboundShutdown && decide (0 < s.tcp.remainingOutboundCapacity)
      cancel := endOutbound }
  | .inbound =>
    { fd := threadData
      direction := .Out
      callback := inboundCallback
      interest := fun s =>
        !s.tcp.receiver.streamOut.bufferEmpty || (s.inboundDone && !s.inboundShutdown) }
  | .segments =>
    { fd := fun s => (FdAdapter.device s.adapter).fd
      direction := .Out
      callback := segmentsCallback
      interest := fun s => decide (s.popped < s.tcp.segmentsOut.length) }

def rules : List SocketRule := [.datagram, .outbound, .inbound, .segments]

/-- The end of a turn of `_tcp_loop`, after `ms` milliseconds. -/
def tick [FdAdapter α δ] (s : TCPSpongeSocket α) (ms : ℕ) (kernel : ℕ → Except Exn Unit) :
    Except Exn (TCPSpongeSocket α) :=
  if s.tcp.active then do
    let adapter ← FdAdapter.tick s.adapter ms kernel
    return { s with tcp := s.tcp.tick ms, adapter }
  else .ok s

/-- `_tcp_loop` is left, or goes on. -/
inductive Flow
  | stop | next
  deriving DecidableEq, Repr

/-- One turn of `_tcp_loop`; `abort` is the flag that the owner sets to make the thread end. -/
def loopTurn [FdAdapter α δ] (rules : List SocketRule) (s : TCPSpongeSocket α)
    (poll : EventLoop.Poll) (answer : ℕ → Answer δ) (abort : Bool) (ms : ℕ)
    (kernel : ℕ → Except Exn Unit) :
    Except Exn (Flow × List SocketRule × TCPSpongeSocket α) := do
  let (result, p) ← EventLoop.waitNextEvent rule rules s poll answer
  if result = .exit ∨ abort = true then return (.stop, p.rules, p.state)
  else
    let s ← p.state.tick ms kernel
    return (.next, p.rules, s)

/-- `connect` up to its loop, on a socket that has no connection yet. -/
def connect [FdAdapter α δ] (cTcp : TCPConfig) (cAd : FdAdapterConfig) (adapter : α) :
    Except Exn (TCPSpongeSocket α) :=
  let s : TCPSpongeSocket α :=
    { tcp := (TCPConnection.new cTcp).connect, adapter := FdAdapter.setConfig adapter cAd }
  if s.tcp.state ≠ .ofState .synSent then
    .error (.runtimeError ("After TCPConnection::connect(), state was " ++ s.tcp.state.name ++
      " but expected " ++ (TCPState.ofState .synSent).name))
  else .ok s

/-- `listen_and_accept` up to its loop, on a socket that has no connection yet. -/
def listenAndAccept [FdAdapter α δ] (cTcp : TCPConfig) (cAd : FdAdapterConfig) (adapter : α) :
    TCPSpongeSocket α :=
  { tcp := .new cTcp
    adapter := FdAdapter.setListening (FdAdapter.setConfig adapter cAd) true }

end TCPSpongeSocket
