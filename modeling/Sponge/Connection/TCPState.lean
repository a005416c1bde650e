import Sponge.Connection.States

/-!
# Connection/TCPState — the official states

`tcp_state.cc`.  A `TCPState` puts the two summaries together with the two flags of the connection,
and each state of the TCP specification is one of them.
-/

open Word64

/-- `enum class State`. -/
inductive TCPState.State
  | listen | synRcvd | synSent | established | closeWait | lastAck | finWait1 | finWait2 | closing
  | timeWait | closed | reset
  deriving DecidableEq, Repr

structure TCPState where
  sender : TCPSenderStateSummary
  receiver : TCPReceiverStateSummary
  active : Bool := true
  lingerAfterStreamsFinish : Bool := true
  deriving DecidableEq, Repr

namespace TCPState

/-- The constructor `TCPState(const TCPState::State state)`. -/
def ofState : State → TCPState
  | .listen => { receiver := .listen, sender := .closed }
  | .synRcvd => { receiver := .synRecv, sender := .synSent }
  | .synSent => { receiver := .listen, sender := .synSent }
  | .established => { receiver := .synRecv, sender := .synAcked }
  | .closeWait => { receiver := .finRecv, sender := .synAcked, lingerAfterStreamsFinish := false }
  | .lastAck => { receiver := .finRecv, sender := .finSent, lingerAfterStreamsFinish := false }
  | .closing => { receiver := .finRecv, sender := .finSent }
  | .finWait1 => { receiver := .synRecv, sender := .finSent }
  | .finWait2 => { receiver := .synRecv, sender := .finAcked }
  | .timeWait => { receiver := .finRecv, sender := .finAcked }
  | .reset =>
    { receiver := .error, sender := .error, lingerAfterStreamsFinish := false, active := false }
  | .closed =>
    { receiver := .finRecv, sender := .finAcked, lingerAfterStreamsFinish := false,
      active := false }

/-- `std::to_string` of a `bool`. -/
def bit (b : Bool) : String := if b then "1" else "0"

def name (t : TCPState) : String :=
  "sender=`" ++ t.sender.text ++ "`, receiver=`" ++ t.receiver.text ++ "`, active=" ++
    bit t.active ++ ", linger_after_streams_finish=" ++ bit t.lingerAfterStreamsFinish

end TCPState

namespace TCPConnection

/-- `state()`; a connection that is not active is said not to linger. -/
def state (c : TCPConnection) : TCPState where
  sender := c.sender.stateSummary
  receiver := c.receiver.stateSummary
  active := c.active
  lingerAfterStreamsFinish := if c.active then c.lingerAfterStreamsFinish else false

/-- **`connect` sends a SYN**, and nothing else. -/
theorem connect_new (cfg : TCPConfig) : (new cfg).connect =
    { new cfg with
      sender := { (new cfg).sender.sendSyn with segmentsOut := [] }
      segmentsOut := [(new cfg).sender.synSegment] } := by
  have hfill : (new cfg).fill true = { new cfg with sender := (new cfg).sender.sendSyn } := rfl
  rw [connect, pushSegmentOut, hfill]
  rfl

theorem state_connect (cfg : TCPConfig) : (new cfg).connect.state = .ofState .synSent := by
  have hflight : sub64 1 0 = 1 := by decide
  rw [connect_new]
  simp [state, TCPState.ofState, new, TCPSender.stateSummary, TCPReceiver.stateSummary,
    TCPSender.sendSyn, TCPSender.sendSegment, TCPSender.new, TCPReceiver.new, ByteStream.new,
    TCPReceiver.ackno, TCPReceiver.streamOut, StreamReassembler.new, TCPSender.bytesInFlight,
    TCPSegment.lengthInSequenceSpace, hflight]

end TCPConnection
