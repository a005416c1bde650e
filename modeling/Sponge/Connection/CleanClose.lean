import Sponge.Connection.Duplex
import Sponge.Lib.Reach

/-!
# Connection/CleanClose — a clean close loses nothing

Two connections exchange each other's segments over a network that drops, duplicates and reorders
them but never forges one.  A run is any interleaving of calls at the two ends.  Each call keeps the
two ends in agreement (`Endpoint.act_duplex`), so a connection that is inactive without an error has
delivered exactly what its application wrote, and its application has got exactly what the peer's
wrote (`clean_close`).
-/

/-- One call on a connection. -/
inductive ConnOp
  | connect
  | write (data : Bytes)
  | endInputStream
  | tick (ms : ℕ)
  /-- the `k`-th segment of the peer's `segments_out` arrives, sent at the absolute number `seqno`;
  its ack, if it has one, is for the absolute number `ackno` -/
  | segmentReceived (k seqno ackno : ℕ)
  | read (len : ℕ)

namespace Endpoint

variable {x x' y : Endpoint} {op : ConnOp}

/-- A call at `x`, whose peer is `y`. -/
def act (x y : Endpoint) : ConnOp → Option Endpoint
  | .connect => some { x with conn := x.conn.connect }
  | .write data =>
    some { x with
      conn := x.conn.write data
      accepted := x.accepted ++ data.take (x.conn.sender.stream.accepted data) }
  | .endInputStream => some { x with conn := x.conn.endInputStream }
  | .tick ms => some { x with conn := x.conn.tick ms }
  | .segmentReceived k _ _ =>
    y.conn.segmentsOut[k]?.bind fun seg =>
      (x.conn.segmentReceived seg).map fun conn => { x with conn }
  | .read len =>
    some { x with
      conn := x.conn.readInbound len
      consumed := x.consumed ++ (x.conn.receiver.streamOut.read len).1 }

/-- The segment was sent at `seqno` and acknowledges `ackno`, both near the checkpoints of `x`. -/
def Timely (x y : Endpoint) (seqno ackno : ℕ) (seg : TCPSegment) : Prop :=
  y.conn.sender.Sent y.accepted seqno seg ∧ Near seqno x.conn.receiver.streamOut.bytesWritten ∧
    (seg.header.ack = true → seg.header.ackno = wrap ackno x.conn.sender.isn ∧
      ackno ≤ y.conn.receiver.absoluteAckno ∧ Near ackno x.conn.sender.sendBase)

/-- What the application and the network have to respect: nothing is written after
`end_input_stream`, the 64-bit counters are not exhausted, deliveries are timely. -/
def Allowed (x y : Endpoint) : ConnOp → Prop
  | .write data => x.conn.sender.stream.inputEnded = false ∧
      x.accepted.length + x.conn.sender.stream.accepted data + 2 < 2 ^ 64
  | .segmentReceived k seqno ackno => ∀ seg ∈ y.conn.segmentsOut[k]?, x.Timely y seqno ackno seg
  | .connect | .endInputStream | .tick _ | .read _ => True

instance (x y : Endpoint) (seqno ackno : ℕ) (seg : TCPSegment) :
    Decidable (x.Timely y seqno ackno seg) := inferInstanceAs (Decidable (_ ∧ _ ∧ (_ → _)))

instance (x y : Endpoint) (op : ConnOp) : Decidable (x.Allowed y op) :=
  match op with
  | .write _ => inferInstanceAs (Decidable (_ ∧ _))
  | .segmentReceived _ _ _ => inferInstanceAs (Decidable (∀ _ ∈ _, _))
  | .connect | .endInputStream | .tick _ | .read _ => inferInstanceAs (Decidable True)

/-- **Every call keeps the two ends in agreement.** -/
theorem act_duplex (h : Duplex x y) (hok : x.Allowed y op) (hs : x.act y op = some x') :
    Duplex x' y := by
  cases op with
  | connect =>
    obtain rfl := Option.some.inj hs
    exact h.connect
  | write data =>
    obtain rfl := Option.some.inj hs
    exact h.write hok.1 hok.2
  | endInputStream =>
    obtain rfl := Option.some.inj hs
    exact h.endInputStream
  | tick ms =>
    obtain rfl := Option.some.inj hs
    exact h.tick ms
  | segmentReceived k seqno ackno =>
    obtain ⟨seg, hseg, hs⟩ := Option.bind_eq_some_iff.mp hs
    obtain ⟨conn, hconn, rfl⟩ := Option.map_eq_some_iff.mp hs
    obtain ⟨hsent, hnear, hack⟩ := hok seg hseg
    exact h.segmentReceived (List.mem_of_getElem? hseg) hsent hnear hack hconn
  | read len =>
    obtain rfl := Option.some.inj hs
    exact h.readInbound len

end Endpoint

/-! ## Runs of the pair -/

/-- Two connections. -/
structure Pair where
  a : Endpoint
  b : Endpoint

/-- A call at one of the two ends. -/
inductive PairOp
  | atA (op : ConnOp)
  | atB (op : ConnOp)

namespace Pair

def init (cfgA cfgB : TCPConfig) : Pair :=
  { a := { conn := .new cfgA }, b := { conn := .new cfgB } }

/-- A step at one of the two ends. -/
def step (p : Pair) : PairOp → Option Pair
  | .atA op => (p.a.act p.b op).map fun a => { p with a }
  | .atB op => (p.b.act p.a op).map fun b => { p with b }

def Allowed (p : Pair) : PairOp → Prop
  | .atA op => p.a.Allowed p.b op
  | .atB op => p.b.Allowed p.a op

instance (p : Pair) (op : PairOp) : Decidable (p.Allowed op) :=
  match op with
  | .atA op => inferInstanceAs (Decidable (p.a.Allowed p.b op))
  | .atB op => inferInstanceAs (Decidable (p.b.Allowed p.a op))

variable {p p' : Pair} {cfgA cfgB : TCPConfig}

/-- A step keeps both directions. -/
theorem step_duplex {op : PairOp} (h : Duplex p.a p.b) (hok : p.Allowed op)
    (hs : p.step op = some p') : Duplex p'.a p'.b := by
  cases op with
  | atA op =>
    obtain ⟨a, ha, rfl⟩ := Option.map_eq_some_iff.mp hs
    exact Endpoint.act_duplex h hok ha
  | atB op =>
    obtain ⟨b, hb, rfl⟩ := Option.map_eq_some_iff.mp hs
    exact (Endpoint.act_duplex h.symm hok hb).symm

/-- **Both directions are kept in every run.** -/
theorem reach_duplex (h : Reach step Allowed (init cfgA cfgB) p) : Duplex p.a p.b :=
  h.invariant (.new cfgA cfgB) fun _ _ _ ih hok hs => step_duplex ih hok hs

/-- **Clean-close agreement.**  In every run, once `a` is inactive and neither of its streams has an
error, the inbound stream of `b` has ended and is what was written at `a`, and the inbound stream of
`a` has ended and is what was written at `b`. -/
theorem clean_close (h : Reach step Allowed (init cfgA cfgB) p)
    (hactive : p.a.conn.active = false)
    (herror : p.a.conn.sender.stream.error = false ∧ p.a.conn.receiver.streamOut.error = false) :
    (p.b.conn.receiver.streamOut.inputEnded = true ∧
      p.b.consumed ++ p.b.conn.receiver.streamOut.buf = p.a.accepted) ∧
    p.a.conn.receiver.streamOut.inputEnded = true ∧
      p.a.consumed ++ p.a.conn.receiver.streamOut.buf = p.b.accepted :=
  (reach_duplex h).of_inactive hactive herror.1

/-- `b` ends its stream first, so `a` does not linger; three bytes for the two that `b` can hold. -/
theorem clean_close_run : ∃ p, Reach step Allowed
      (init { isn := ⟨4294967295⟩ } { isn := ⟨7⟩, recvCapacity := 2 }) p ∧
    p.a.conn.active = false ∧ p.a.accepted = [121, 111, 33] ∧
    p.b.consumed ++ p.b.conn.receiver.streamOut.buf = p.a.accepted := by
  obtain ⟨p, hp, hq⟩ := exists_reach_of_exec step Allowed
    (init { isn := ⟨4294967295⟩ } { isn := ⟨7⟩, recvCapacity := 2 })
    [.atA .connect, .atB (.segmentReceived 0 0 0), .atA (.segmentReceived 0 0 1),
      .atB (.segmentReceived 1 1 1), .atB (.write [104, 105]), .atB .endInputStream,
      -- the FIN overtakes the data
      .atA (.segmentReceived 2 3 1), .atA (.segmentReceived 1 1 1), .atA (.read 1),
      .atA (.write [121, 111, 33]), .atA .endInputStream, .atB (.segmentReceived 4 1 4),
      -- a zero window, probed with one byte
      .atA (.segmentReceived 3 4 3), .atB (.read 2), .atB (.segmentReceived 5 3 4),
      .atA (.segmentReceived 4 4 4), .atB (.segmentReceived 6 4 4), .atA (.segmentReceived 5 4 5)]
    (fun p => !p.a.conn.active && !p.a.conn.sender.stream.error &&
      !p.a.conn.receiver.streamOut.error && p.a.accepted == [121, 111, 33]) (by decide)
  simp only [Bool.and_eq_true, Bool.not_eq_true', beq_iff_eq] at hq
  obtain ⟨⟨⟨hactive, hout⟩, hin⟩, hacc⟩ := hq
  exact ⟨p, hp, hactive, hacc, (clean_close hp hactive ⟨hout, hin⟩).1.2⟩

end Pair
