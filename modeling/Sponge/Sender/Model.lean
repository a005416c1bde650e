import Sponge.TCPSegment

/-!
# Sender/Model — the TCP sender

`tcp_sender.cc`, `tcp_sender.hh`: the sender cuts its outbound stream into segments that fit the
receiver's window, keeps a copy of every segment until it is acknowledged, and retransmits the
oldest one when its timer expires.  Queues are lists with their front at the head.  `_next_seqno`,
`_send_base` and the retransmission count only grow and are kept as naturals; their differences, the
remaining window and the clock are `uint64_t` values.
-/

open Word64

/-- The retransmission timer. -/
structure TCPSender.Timer where
  running : Bool := false
  totalTime : ℕ := 0
  rtTimeout : ℕ
  deriving DecidableEq, Repr

namespace TCPSender.Timer

/-- `start()`: the timeout is kept. -/
def start (t : Timer) : Timer := { t with running := true, totalTime := 0 }

/-- `start(initial_RTO)`. -/
def startWith (initialRto : ℕ) : Timer :=
  { running := true, totalTime := 0, rtTimeout := initialRto }

def isTimeout (t : Timer) : Bool := decide (t.rtTimeout ≤ t.totalTime)

def doubleRto (t : Timer) : Timer := { t with rtTimeout := t.rtTimeout * 2 % 2 ^ 64 }

/-- `clear()`: the timer is stopped and its timeout forgotten. -/
def clear : Timer := { running := false, totalTime := 0, rtTimeout := 0 }

end TCPSender.Timer

structure TCPSender where
  isn : WrappingInt32
  segmentsOut : List TCPSegment := []
  initialRetransmissionTimeout : ℕ
  stream : ByteStream
  nextSeqno : ℕ := 0
  timer : TCPSender.Timer
  sendBase : ℕ := 0
  windowSize : ℕ := 1
  windowSizeZero : Bool := false
  synFlag : Bool := false
  finFlag : Bool := false
  copySegmentsOut : List TCPSegment := []
  consecutiveRetransmissions : ℕ := 0
  deriving DecidableEq, Repr

namespace TCPSender

/-- The constructor; `isn` is the fixed or the randomly chosen initial sequence number. -/
def new (capacity : UInt64) (retxTimeout : UInt16) (isn : WrappingInt32) : TCPSender :=
  { isn
    initialRetransmissionTimeout := retxTimeout.toNat
    stream := .new capacity
    timer := { rtTimeout := retxTimeout.toNat } }

def bytesInFlight (s : TCPSender) : ℕ := sub64 s.nextSeqno s.sendBase

/-- `_window_size - bytes_in_flight()`, the sequence numbers `fill_window` takes to be left. -/
def room (s : TCPSender) : ℕ := sub64 s.windowSize s.bytesInFlight

/-- Give a segment the next sequence numbers, queue it twice and see that the timer runs. -/
def sendSegment (s : TCPSender) (seg : TCPSegment) : TCPSender :=
  let seg := { seg with header := { seg.header with seqno := wrap s.nextSeqno s.isn } }
  { s with
    nextSeqno := s.nextSeqno + seg.lengthInSequenceSpace
    segmentsOut := s.segmentsOut ++ [seg]
    copySegmentsOut := s.copySegmentsOut ++ [seg]
    timer := if s.timer.running then s.timer else .startWith s.initialRetransmissionTimeout }

def sendSyn (s : TCPSender) : TCPSender :=
  { s.sendSegment { header := { syn := true } } with synFlag := true }

/-- Read `len` bytes from the stream and send them, with a FIN if `fin`. -/
def sendNext (s : TCPSender) (len : ℕ) (fin : Bool) : TCPSender :=
  { s with stream := (s.stream.read len).2, finFlag := s.finFlag || fin }.sendSegment
    { header := { fin }, payload := (s.stream.read len).1 }

/-- The FIN goes with the bytes read when they are the last ones and leave a number for it. -/
def finFits (s : TCPSender) (rem : ℕ) : Bool :=
  (s.stream.read (min rem TCPConfig.maxPayloadSize)).2.eof &&
    decide ((s.stream.read (min rem TCPConfig.maxPayloadSize)).1.length + 1 ≤ rem)

/-- The loop of `fill_window`.  Every turn takes at least one byte from the buffer. -/
def fillLoop : ℕ → ℕ → TCPSender → TCPSender
  | 0, _, s => s
  | fuel + 1, rem, s =>
    if 0 < rem ∧ s.stream.bufferEmpty = false then
      let len := min rem TCPConfig.maxPayloadSize
      let fin := s.finFits rem
      fillLoop fuel (sub64 rem ((s.stream.read len).1.length + fin.toNat)) (s.sendNext len fin)
    else s

def fillWindow (s : TCPSender) : TCPSender :=
  if s.windowSize = 0 ∨ s.finFlag = true ∨
      (s.synFlag = true ∧ s.stream.bufferEmpty = true ∧ s.stream.inputEnded = false) then s
  else if s.synFlag = false then s.sendSyn
  else if s.stream.eof then
    -- a FIN alone; the unsigned `room <= 0` is `room = 0`
    if s.room = 0 then s
    else { s.sendSegment { header := { fin := true } } with finFlag := true }
  else s.fillLoop s.stream.bufferSize s.room

/-- A zero window is recorded as a window of one. -/
def recordWindow (s : TCPSender) (window : UInt16) : TCPSender :=
  if window = 0 then { s with windowSize := 1, windowSizeZero := true }
  else { s with windowSize := window.toNat, windowSizeZero := false }

/-- The absolute number after a queued segment, as the pop loop computes it. -/
def segmentEnd (s : TCPSender) (seg : TCPSegment) : ℕ :=
  add64 (unwrap seg.header.seqno s.isn s.nextSeqno) seg.lengthInSequenceSpace

/-- Pop the segments that end by `absoluteAckno`, up to the first that does not. -/
def popAcked (s : TCPSender) (absoluteAckno : ℕ) : TCPSender :=
  { s with copySegmentsOut :=
      s.copySegmentsOut.dropWhile fun seg => decide (s.segmentEnd seg ≤ absoluteAckno) }

/-- The end of `ack_received`: the back-off is over. -/
def restartTimer (s : TCPSender) : TCPSender :=
  { s with
    consecutiveRetransmissions := 0
    timer := if s.copySegmentsOut = [] then .clear else .startWith s.initialRetransmissionTimeout }

/-- An ack of new data before `fill_window`: the window, the base and the queue. -/
def advanceBase (s : TCPSender) (absoluteAckno : ℕ) (window : UInt16) : TCPSender :=
  { s.recordWindow window with sendBase := absoluteAckno }.popAcked absoluteAckno

def ackReceived (s : TCPSender) (ackno : WrappingInt32) (window : UInt16) : TCPSender :=
  let absoluteAckno := unwrap ackno s.isn s.sendBase
  if s.nextSeqno < absoluteAckno then s
  else if absoluteAckno ≤ s.sendBase then s.recordWindow window
  else (s.advanceBase absoluteAckno window).fillWindow.restartTimer

/-- Count a retransmission and double the timeout, unless the window was zero. -/
def backOff (s : TCPSender) : TCPSender :=
  if s.windowSizeZero then s
  else { s with
    consecutiveRetransmissions := s.consecutiveRetransmissions + 1
    timer := s.timer.doubleRto }

def advanceClock (s : TCPSender) (ms : ℕ) : TCPSender :=
  { s with timer := { s.timer with totalTime := add64 s.timer.totalTime ms } }

/-- Send a segment again and start the timer anew. -/
def retransmit (s : TCPSender) (seg : TCPSegment) : TCPSender :=
  { s.backOff with segmentsOut := s.segmentsOut ++ [seg], timer := s.backOff.timer.start }

def tick (s : TCPSender) (ms : ℕ) : TCPSender :=
  match s.copySegmentsOut with
  | [] => s.advanceClock ms
  | seg :: _ =>
    if s.timer.running && (s.advanceClock ms).timer.isTimeout then
      (s.advanceClock ms).retransmit seg
    else s.advanceClock ms

/-- An empty segment occupies no sequence number and is not kept for retransmission. -/
def sendEmptySegment (s : TCPSender) : TCPSender :=
  { s with segmentsOut := s.segmentsOut ++ [{ header := { seqno := wrap s.nextSeqno s.isn } }] }

/-- The writer's `stream_in().write(data)`. -/
def writeIn (s : TCPSender) (data : Bytes) : TCPSender := { s with stream := s.stream.write data }

/-- The writer's `stream_in().end_input()`. -/
def endIn (s : TCPSender) : TCPSender := { s with stream := s.stream.endInput }

end TCPSender
