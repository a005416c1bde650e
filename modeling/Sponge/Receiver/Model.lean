import Sponge.Reassembler.Model
import Sponge.TCPSegment

/-!
# Receiver/Model — the TCP receiver

`tcp_receiver.cc`: segments go through the receiver's own window and FIN checks and then into the
reassembler; `ackno` and `window_size` are what it advertises.  A segment whose payload the
reassembler throws on has no next state.
-/

open Word64

/-- `TCPReceiver`. -/
structure TCPReceiver where
  reassembler : StreamReassembler
  capacity : ℕ
  isn : WrappingInt32 := ⟨0⟩
  syn : Bool := false
  fin : Bool := false
  recvBase : ℕ := 0
  deriving DecidableEq, Repr

namespace TCPReceiver

/-- The constructor `TCPReceiver(const size_t capacity)`. -/
def new (capacity : UInt64) : TCPReceiver :=
  { reassembler := .new capacity, capacity := capacity.toNat }

/-- `stream_out()`. -/
def streamOut (r : TCPReceiver) : ByteStream := r.reassembler.output

def unassembledBytes (r : TCPReceiver) : ℕ := r.reassembler.unassembledBytes

/-- The absolute number of the first byte not yet received: one for the SYN, the bytes written, and
one for the FIN once the stream has ended. -/
def absoluteAckno (r : TCPReceiver) : ℕ :=
  r.streamOut.bytesWritten + 1 + r.streamOut.inputEnded.toNat

def ackno (r : TCPReceiver) : Option WrappingInt32 :=
  if r.syn then some (wrap r.absoluteAckno r.isn) else none

/-- `window_size()`, a `size_t` difference. -/
def windowSize (r : TCPReceiver) : ℕ := sub64 r.capacity r.streamOut.bufferSize

/-- The window as it is advertised in the 16 bits of a header. -/
def advertisedWindow (r : TCPReceiver) : UInt16 := UInt16.ofNat (min r.windowSize 65535)

/-- The payload goes to the reassembler and the base moves to the new `ackno`. -/
def assemble (r : TCPReceiver) (absoluteSeqno : ℕ) (seg : TCPSegment) : Option TCPReceiver :=
  (r.reassembler.pushSubstring seg.payload (sub64 absoluteSeqno 1) seg.header.fin).map fun ra =>
    { r with
      reassembler := ra
      recvBase := ra.output.bytesWritten + 1 + ra.output.inputEnded.toNat }

/-- `segment_received` from the line on where the absolute number is computed. -/
def receiveAt (r : TCPReceiver) (seqno : WrappingInt32) (seg : TCPSegment) : Option TCPReceiver :=
  let absoluteSeqno := unwrap seqno r.isn r.streamOut.bytesWritten
  let length := seg.lengthInSequenceSpace
  if seg.header.fin then
    -- a second FIN is refused, payload and all
    if r.fin then some r else { r with fin := true }.assemble absoluteSeqno seg
  else if length = 0 then some r
  else if add64 r.recvBase r.windowSize ≤ absoluteSeqno ∨
      add64 absoluteSeqno length ≤ r.recvBase then
    some r
  else r.assemble absoluteSeqno seg

def segmentReceived (r : TCPReceiver) (seg : TCPSegment) : Option TCPReceiver :=
  if seg.header.syn then
    if r.syn then some r
    else if seg.lengthInSequenceSpace = 1 then
      some { r with syn := true, isn := seg.header.seqno, recvBase := 1 }
    else
      { r with syn := true, isn := seg.header.seqno, recvBase := 1 }.receiveAt
        (seg.header.seqno.add 1) seg
  else if !r.syn then some r
  else r.receiveAt seg.header.seqno seg

/-- The reader takes up to `len` bytes from `stream_out()`. -/
def readOut (r : TCPReceiver) (len : ℕ) : TCPReceiver :=
  { r with reassembler := { r.reassembler with output := (r.streamOut.read len).2 } }

/-- The reader drops `len` bytes from `stream_out()`. -/
def popOut (r : TCPReceiver) (len : ℕ) : TCPReceiver :=
  { r with reassembler := { r.reassembler with output := r.streamOut.popOutput len } }

end TCPReceiver
