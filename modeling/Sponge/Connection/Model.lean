import Sponge.Receiver.Model
import Sponge.Sender.Model

/-!
# Connection/Model — a TCP connection

`tcp_connection.cc`: a sender and a receiver that share segments.  Everything the sender queues
leaves through `push_segment_out`, which adds the receiver's `ackno` and window, and every operation
ends there, with a look at whether the connection can be closed.  `segments_out` is the log of what
has left.  `Receives` is the list of all that a segment can do.
-/

open Word64

/-- `typedef enum { ... } receiver_state`. -/
inductive ReceiverState
  | listening | synReceived | finRecv | unk
  deriving DecidableEq, Repr

/-- `typedef enum { ... } sender_state`. -/
inductive SenderState
  | closed | synSent | synAcked | finSent | finAcked | unknown
  deriving DecidableEq, Repr

/-- `s < fin_sent`, in the order of the enumeration. -/
def SenderState.beforeFinSent : SenderState → Bool
  | .closed | .synSent | .synAcked => true
  | .finSent | .finAcked | .unknown => false

/-- Config for sender and receiver; `isn` is the fixed or the randomly chosen one. -/
structure TCPConfig where
  rtTimeout : UInt16 := 1000
  recvCapacity : UInt64 := 64000
  sendCapacity : UInt64 := 64000
  isn : WrappingInt32
  deriving DecidableEq, Repr

/-- Retransmission attempts before giving up. -/
def TCPConfig.maxRetxAttempts : ℕ := 8

structure TCPConnection where
  cfg : TCPConfig
  receiver : TCPReceiver
  sender : TCPSender
  segmentsOut : List TCPSegment := []
  lingerAfterStreamsFinish : Bool := true
  timeSinceLastSegmentReceived : ℕ := 0
  active : Bool := true
  sendRst : Bool := false
  deriving DecidableEq, Repr

namespace TCPConnection

def new (cfg : TCPConfig) : TCPConnection :=
  { cfg
    receiver := .new cfg.recvCapacity
    sender := .new cfg.sendCapacity cfg.rtTimeout cfg.isn }

def bytesInFlight (c : TCPConnection) : ℕ := c.sender.bytesInFlight

def rState (c : TCPConnection) : ReceiverState :=
  if c.receiver.ackno.isNone then .listening
  else if !c.receiver.streamOut.inputEnded then .synReceived
  else if c.receiver.streamOut.inputEnded then .finRecv
  else .unk

def sState (c : TCPConnection) : SenderState :=
  if c.sender.nextSeqno = 0 then .closed
  else if c.sender.nextSeqno = c.bytesInFlight then .synSent
  else if (c.bytesInFlight < c.sender.nextSeqno ∧ c.sender.stream.eof = false) ∨
      (c.sender.stream.eof = true ∧ c.sender.nextSeqno < c.sender.stream.bytesWritten + 2) then
    .synAcked
  else if c.sender.stream.eof = true ∧ c.sender.nextSeqno = c.sender.stream.bytesWritten + 2 then
    if 0 < c.bytesInFlight then .finSent else .finAcked
  else .unknown

/-! ## Sending and closing -/

/-- A segment with the receiver's side filled in, once there is an `ackno` to fill in. -/
def stamp (c : TCPConnection) (seg : TCPSegment) : TCPSegment :=
  match c.receiver.ackno with
  | none => seg
  | some ackno =>
    { seg with header :=
        { seg.header with ack := true, ackno, win := c.receiver.advertisedWindow } }

/-- One turn of the loop of `push_segment_out`; a pending RST goes with the first segment. -/
def emit (c : TCPConnection) (seg : TCPSegment) : TCPConnection :=
  let seg := c.stamp seg
  { c with
    segmentsOut := c.segmentsOut ++
      [if c.sendRst then { seg with header := { seg.header with rst := true } } else seg]
    sendRst := false }

/-- The loop of `push_segment_out`: the sender's queue is emptied front first. -/
def flush (c : TCPConnection) : TCPConnection :=
  c.sender.segmentsOut.foldl emit { c with sender := { c.sender with segmentsOut := [] } }

/-- An inbound stream that ends before our FIN is sent: no lingering at the end. -/
def dropLinger (c : TCPConnection) : TCPConnection :=
  if c.rState = .finRecv ∧ c.sState.beforeFinSent = true then
    { c with lingerAfterStreamsFinish := false }
  else c

/-- Both streams are done and there is no lingering, or it has lasted long enough. -/
def closeIfDone (c : TCPConnection) : TCPConnection :=
  if c.rState = .finRecv ∧ c.sState = .finAcked ∧
      (c.lingerAfterStreamsFinish = false ∨
        10 * c.cfg.rtTimeout.toNat ≤ c.timeSinceLastSegmentReceived) then
    { c with active := false }
  else c

def cleanShutdown (c : TCPConnection) : TCPConnection := c.dropLinger.closeIfDone

/-- The first lines of `push_segment_out`: nothing leaves a connection that is closed and listening
until it is told to connect. -/
def fill (c : TCPConnection) (sendSyn : Bool) : TCPConnection :=
  if sendSyn = true ∨ c.sState ≠ .closed ∨ c.rState ≠ .listening then
    { c with sender := c.sender.fillWindow }
  else c

def pushSegmentOut (c : TCPConnection) (sendSyn : Bool := false) : TCPConnection :=
  (c.fill sendSyn).flush.cleanShutdown

/-- Both streams get an error and the connection is dead. -/
def abort (c : TCPConnection) : TCPConnection :=
  { c with
    sender := { c.sender with stream := c.sender.stream.setError }
    receiver := { c.receiver with reassembler :=
      { c.receiver.reassembler with output := c.receiver.streamOut.setError } }
    active := false }

/-- `send_empty_segment()` on the sender, unless it has a segment to send already. -/
def ensureSegment (c : TCPConnection) : TCPConnection :=
  if c.sender.segmentsOut = [] then { c with sender := c.sender.sendEmptySegment } else c

def uncleanShutdown (c : TCPConnection) (sendRst : Bool) : TCPConnection :=
  if sendRst then { c.abort with sendRst := true }.ensureSegment.pushSegmentOut else c.abort

/-! ## The interface -/

def connect (c : TCPConnection) : TCPConnection := c.pushSegmentOut true

/-- `write`; the number of bytes returned is that of the stream. -/
def write (c : TCPConnection) (data : Bytes) : TCPConnection :=
  { c with sender := c.sender.writeIn data }.pushSegmentOut

def endInputStream (c : TCPConnection) : TCPConnection :=
  { c with sender := c.sender.endIn }.pushSegmentOut

/-- Too many retransmissions end the connection. -/
def checkRetransmissions (c : TCPConnection) : TCPConnection :=
  -- the accessor returns the count as an `unsigned int`
  if TCPConfig.maxRetxAttempts < c.sender.consecutiveRetransmissions % 2 ^ 32 then
    c.uncleanShutdown true
  else c

def tick (c : TCPConnection) (ms : ℕ) : TCPConnection :=
  if c.active = false then c
  else
    { c with
      timeSinceLastSegmentReceived := add64 c.timeSinceLastSegmentReceived ms
      sender := c.sender.tick ms }.checkRetransmissions.pushSegmentOut

/-- The acknowledgement in a segment goes to the sender. -/
def takeAck (c : TCPConnection) (seg : TCPSegment) : TCPConnection :=
  if seg.header.ack then
    { c with sender := c.sender.ackReceived seg.header.ackno seg.header.win }
  else c

/-- What is sent in answer: at least an empty segment to anything that occupies sequence numbers,
except that a bare SYN to a closed connection is answered by the SYN alone. -/
def reply (c : TCPConnection) (seg : TCPSegment) : TCPConnection :=
  if seg.header.syn = true ∧ c.rState = .listening ∧ c.sState = .closed then c.connect
  else if 0 < seg.lengthInSequenceSpace ∧ c.rState ≠ .listening ∧
      ¬ (seg.header.syn = true ∧ seg.header.ack = false ∧ c.sState = .closed) then
    c.ensureSegment.pushSegmentOut
  else c.pushSegmentOut

/-- `segment_received` from the line on where the time of the last segment is reset. -/
def arrive (c : TCPConnection) (seg : TCPSegment) : Option TCPConnection :=
  if seg.header.ack = true ∧ c.sState = .closed then some c
  else if seg.header.rst then some (c.uncleanShutdown false)
  else
    (c.receiver.segmentReceived seg).map fun receiver =>
      ({ c with receiver }.takeAck seg).reply seg

/-- `segment_received`, `none` when the receiver throws. -/
def segmentReceived (c : TCPConnection) (seg : TCPSegment) : Option TCPConnection :=
  if c.active = false then some c
  else { c with timeSinceLastSegmentReceived := 0 }.arrive seg

/-- The application reads up to `len` bytes from `inbound_stream()`. -/
def readInbound (c : TCPConnection) (len : ℕ) : TCPConnection :=
  { c with receiver := c.receiver.readOut len }

/-! ## What a segment can do -/

/-- `fin_recv` is told from the inbound stream alone. -/
theorem of_rState_finRecv {c : TCPConnection} (h : c.rState = .finRecv) :
    c.receiver.streamOut.inputEnded = true := by
  unfold rState at h
  split_ifs at h with _ _ hended
  exact hended

/-- **All that `segment_received` can do** when it returns. -/
inductive Receives (c : TCPConnection) (seg : TCPSegment) : TCPConnection → Prop
  | dead (hdead : c.active = false) : Receives c seg c
  | ignored (hactive : c.active = true) (hack : seg.header.ack = true)
      (hclosed : c.sState = .closed) :
    Receives c seg { c with timeSinceLastSegmentReceived := 0 }
  | reset (hactive : c.active = true) (hrst : seg.header.rst = true) :
    Receives c seg ({ c with timeSinceLastSegmentReceived := 0 }.uncleanShutdown false)
  | taken {receiver : TCPReceiver} (hactive : c.active = true) (hrst : seg.header.rst = false)
      (hreceiver : c.receiver.segmentReceived seg = some receiver) :
    Receives c seg
      (({ c with timeSinceLastSegmentReceived := 0, receiver }.takeAck seg).reply seg)

theorem receives {c c' : TCPConnection} {seg : TCPSegment} (hc : c.segmentReceived seg = some c') :
    c.Receives seg c' := by
  unfold segmentReceived arrive at hc
  split_ifs at hc with hdead hclosed hrst
  · obtain rfl := Option.some.inj hc
    exact .dead hdead
  · obtain rfl := Option.some.inj hc
    exact .ignored (by simpa using hdead) hclosed.1 hclosed.2
  · obtain rfl := Option.some.inj hc
    exact .reset (by simpa using hdead) hrst
  · obtain ⟨receiver, hreceiver, rfl⟩ := Option.map_eq_some_iff.mp hc
    exact .taken (by simpa using hdead) (by simpa using hrst) hreceiver

end TCPConnection
