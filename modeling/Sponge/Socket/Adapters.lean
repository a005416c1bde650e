import Sponge.Network.Interface
import Sponge.Socket.FileDescriptor
import Sponge.Wire.Adapter

/-!
# Socket/Adapters — the devices that carry segments

`fd_adapter.cc`, `tuntap_adapter.cc`, `lossy_fd_adapter.hh`, and `UDPSocket` of `socket.cc`.  A
`TCPSpongeSocket` is a template over its adapter, and what it asks of one is the class `FdAdapter`:
segments are read from and written to a device, in Internet datagrams, in Internet datagrams in
Ethernet frames, or in UDP datagrams, and some may be dropped on the way.

What the kernel answers is an argument here too; it takes a packet whole or refuses it.
-/

/-- A device that carries packets: its descriptor, and the packets that the kernel has taken. -/
structure Device (δ : Type) where
  fd : FDWrapper := {}
  sent : List δ := []
  deriving DecidableEq, Repr

/-- A `write` of one packet, the `n`-th on this device where `kernel n` is the answer. -/
def Device.write {δ : Type} (dev : Device δ) (packet : δ) (kernel : ℕ → Except Exn Unit) :
    Except Exn (Device δ) := do
  kernel dev.sent.length
  return { fd := dev.fd.registerWrite, sent := dev.sent ++ [packet] }

/-- **The writes of a TUN or TAP device** are those of its descriptor. -/
theorem Device.write_eq (dev : Device Bytes) (ret : BufferList) (kernel : ℕ → Except Exn Unit) :
    dev.fd.write (.ofBufferList ret) true [(kernel dev.sent.length).map fun _ => ret.size] =
      some ((dev.write ret.concatenate kernel).map fun dev' =>
        { total := ret.size, fd := dev'.fd, taken := ret.concatenate }) := by
  have hsize : (BufferViewList.ofBufferList ret).size = ret.size := by
    rw [BufferViewList.size_eq, BufferViewList.flatten_asIovecs_ofBufferList, BufferList.size_eq]
  rw [Device.write, FDWrapper.write]
  generalize kernel dev.sent.length = answer
  cases answer with
  | error e => rfl
  | ok _ =>
    obtain ⟨rest, hrest, hloop⟩ := FDWrapper.writeLoop_ok (n := ret.size) true [] _
      { total := 0, fd := dev.fd, taken := [] } (fun h => hsize.trans h) hsize.ge
    have hnone : rest.size = 0 := by
      rw [FDWrapper.size_rest hrest, hsize, Nat.sub_self]
    refine (hloop.trans (if_neg fun h => h.2 hnone)).trans ?_
    have htaken : (BufferViewList.ofBufferList ret).asIovecs.flatten.take ret.size =
        ret.concatenate := by
      rw [BufferViewList.flatten_asIovecs_ofBufferList, BufferList.size_eq, List.take_length]
    rw [FDWrapper.Written.turn, htaken, Nat.zero_add, List.nil_append]
    rfl

/-- **What a `TCPSpongeSocket` asks of its `AdaptT`**, whose device carries packets `δ`. -/
class FdAdapter (α : Type) (δ : outParam Type) where
  device : α → Device δ
  /-- `config_mut() = cfg` -/
  setConfig : α → FdAdapterConfig → α
  setListening : α → Bool → α
  /-- `read()`, where `packet` is what the device answers; it may write packets too -/
  read : α → Except Exn δ → (ℕ → Except Exn Unit) → Except Exn (Option TCPSegment × α)
  write : α → TCPSegment → (ℕ → Except Exn Unit) → Except Exn α
  tick : α → ℕ → (ℕ → Except Exn Unit) → Except Exn α

/-- `std::numeric_limits<size_t>::max()`, the limit of a `read` that is given none. -/
def sizeMax : ℕ := 2 ^ 64 - 1

/-! ## A TUN device -/

/-- The adapter over a TUN device. -/
structure TCPOverIPv4OverTunFdAdapter extends TCPOverIPv4Adapter where
  tun : Device Bytes := {}
  deriving DecidableEq, Repr

namespace TCPOverIPv4OverTunFdAdapter

def read (a : TCPOverIPv4OverTunFdAdapter) (packet : Except Exn Bytes) :
    Except Exn (Option TCPSegment × TCPOverIPv4OverTunFdAdapter) := do
  let (str, fd) ← a.tun.fd.read sizeMax packet
  let a := { a with tun := { a.tun with fd } }
  match ({} : InternetDatagram).parse (.ofString str) with
  | (.noError, ipDgram) =>
    let (seg, base) ← a.unwrapTcpInIp ipDgram
    return (seg, { a with toTCPOverIPv4Adapter := base })
  | _ => return (none, a)

def write (a : TCPOverIPv4OverTunFdAdapter) (seg : TCPSegment) (kernel : ℕ → Except Exn Unit) :
    Except Exn TCPOverIPv4OverTunFdAdapter := do
  let ipDgram ← a.wrapTcpInIp seg
  let ret ← ipDgram.serialize
  let tun ← a.tun.write ret.concatenate kernel
  return { a with tun }

instance : FdAdapter TCPOverIPv4OverTunFdAdapter Bytes where
  device a := a.tun
  setConfig a cfg := { a with cfg }
  setListening a listening := { a with listening }
  read a packet _ := a.read packet
  write := write
  tick a _ _ := .ok a

end TCPOverIPv4OverTunFdAdapter

/-! ## A UDP socket -/

/-- A UDP datagram on its way. -/
structure UDPDatagram where
  source : Address
  destination : Address
  payload : Bytes
  deriving DecidableEq, Repr

/-- The default of `mtu`. -/
def UDPSocket.mtu : ℕ := 65536

/-- The exception for a datagram that is larger than that. -/
def UDPSocket.recvExcess : Exn := .runtimeError "recvfrom (oversized datagram)"

/-- `recv`, with the default `mtu`. -/
def UDPSocket.recv (fd : FDWrapper) (answer : Except Exn UDPDatagram) :
    Except Exn (UDPDatagram × FDWrapper) := do
  let datagram ← answer
  if mtu < datagram.payload.length then .error recvExcess
  else .ok (datagram, fd.registerRead)

/-- The adapter; the kernel gives the datagrams of `sock` the address `localAddress`. -/
structure TCPOverUDPSocketAdapter where
  cfg : FdAdapterConfig := {}
  listening : Bool := false
  localAddress : Address := {}
  sock : Device UDPDatagram := {}
  deriving DecidableEq, Repr

namespace TCPOverUDPSocketAdapter

def read (a : TCPOverUDPSocketAdapter) (packet : Except Exn UDPDatagram) :
    Except Exn (Option TCPSegment × TCPOverUDPSocketAdapter) := do
  let (datagram, fd) ← UDPSocket.recv a.sock.fd packet
  let a := { a with sock := { a.sock with fd } }
  -- is it for us?
  if a.listening = false ∧ datagram.source ≠ a.cfg.destination then return (none, a)
  else
    match ({} : TCPSegment).parse (.ofString datagram.payload) 0 with
    | (.noError, seg) =>
      -- should we target this source in all future replies?
      if a.listening then
        if seg.header.syn = true ∧ seg.header.rst = false then
          return (some seg, { a with
            cfg := { a.cfg with destination := datagram.source }, listening := false })
        else return (none, a)
      else return (some seg, a)
    | _ => return (none, a)

/-- The ports that `write` sets in the caller's segment. -/
def setPorts (a : TCPOverUDPSocketAdapter) (seg : TCPSegment) : TCPSegment :=
  { seg with header := { seg.header with
      sport := a.cfg.source.port, dport := a.cfg.destination.port } }

def write (a : TCPOverUDPSocketAdapter) (seg : TCPSegment) (kernel : ℕ → Except Exn Unit) :
    Except Exn TCPOverUDPSocketAdapter := do
  let ret ← (a.setPorts seg).serialize 0
  let datagram : UDPDatagram :=
    { source := a.localAddress, destination := a.cfg.destination, payload := ret.concatenate }
  let sock ← a.sock.write datagram kernel
  return { a with sock }

instance : FdAdapter TCPOverUDPSocketAdapter UDPDatagram where
  device a := a.sock
  setConfig a cfg := { a with cfg }
  setListening a listening := { a with listening }
  read a packet _ := a.read packet
  write := write
  tick a _ _ := .ok a

end TCPOverUDPSocketAdapter

/-! ## A TAP device -/

/-- The adapter; `popped` of the frames that its interface has ever pushed are popped. -/
structure TCPOverIPv4OverEthernetAdapter extends TCPOverIPv4Adapter where
  tap : Device Bytes := {}
  interface : NetworkInterface
  nextHop : Address
  popped : ℕ := 0

namespace TCPOverIPv4OverEthernetAdapter

/-- The constructor, which writes a frame that is all zero. -/
def new (tap : Device Bytes) (ethAddress : EthernetAddress) (ipAddress nextHop : Address)
    (kernel : ℕ → Except Exn Unit) : Except Exn TCPOverIPv4OverEthernetAdapter := do
  let tap ← tap.write ({} : EthernetFrame).serialize.concatenate kernel
  return { tap, interface := { ethernetAddress := ethAddress, ipAddress }, nextHop }

/-- One turn of the loop of `send_pending`. -/
def sendFrame (kernel : ℕ → Except Exn Unit) (a : TCPOverIPv4OverEthernetAdapter)
    (frame : EthernetFrame) : Except Exn TCPOverIPv4OverEthernetAdapter := do
  let tap ← a.tap.write frame.serialize.concatenate kernel
  return { a with tap, popped := a.popped + 1 }

/-- `send_pending()`: what the interface has pushed is written to the device. -/
def sendPending (a : TCPOverIPv4OverEthernetAdapter) (kernel : ℕ → Except Exn Unit) :
    Except Exn TCPOverIPv4OverEthernetAdapter :=
  (a.interface.framesOut.drop a.popped).foldlM (sendFrame kernel) a

def read (a : TCPOverIPv4OverEthernetAdapter) (packet : Except Exn Bytes)
    (kernel : ℕ → Except Exn Unit) :
    Except Exn (Option TCPSegment × TCPOverIPv4OverEthernetAdapter) := do
  let (str, fd) ← a.tap.fd.read sizeMax packet
  let a := { a with tap := { a.tap with fd } }
  match ({} : EthernetFrame).parse (.ofString str) with
  | (.noError, frame) =>
    let (interface, result) := a.interface.recvFrame frame
    let ipDgram ← result
    -- the frame may have caused the interface to send one
    let a ← { a with interface }.sendPending kernel
    match ipDgram with
    | none => return (none, a)
    | some ipDgram =>
      let (seg, base) ← a.unwrapTcpInIp ipDgram
      return (seg, { a with toTCPOverIPv4Adapter := base })
  | _ => return (none, a)

def write (a : TCPOverIPv4OverEthernetAdapter) (seg : TCPSegment)
    (kernel : ℕ → Except Exn Unit) : Except Exn TCPOverIPv4OverEthernetAdapter := do
  let ipDgram ← a.wrapTcpInIp seg
  let (interface, result) := a.interface.sendDatagram ipDgram a.nextHop
  result
  { a with interface }.sendPending kernel

def tick (a : TCPOverIPv4OverEthernetAdapter) (msSinceLastTick : ℕ)
    (kernel : ℕ → Except Exn Unit) : Except Exn TCPOverIPv4OverEthernetAdapter :=
  { a with interface := a.interface.tick msSinceLastTick }.sendPending kernel

instance : FdAdapter TCPOverIPv4OverEthernetAdapter Bytes where
  device a := a.tap
  setConfig a cfg := { a with cfg }
  setListening a listening := { a with listening }
  read := read
  write := write
  tick := tick

end TCPOverIPv4OverEthernetAdapter

/-! ## Loss -/

/-- An adapter that drops; `rand n` is the `n`-th number that the generator gives.  The loss rates
of the config are kept here. -/
structure LossyFdAdapter (α : Type) where
  adapter : α
  rand : ℕ → UInt32
  drawn : ℕ := 0
  lossRateDn : UInt16 := 0
  lossRateUp : UInt16 := 0

namespace LossyFdAdapter

variable {α δ : Type}

/-- `_should_drop(uplink)`; a number is drawn only if there is a rate to compare it with. -/
def shouldDrop (a : LossyFdAdapter α) (uplink : Bool) : Bool × LossyFdAdapter α :=
  let loss := if uplink then a.lossRateUp else a.lossRateDn
  if loss ≠ 0 then (decide ((a.rand a.drawn).toUInt16 < loss), { a with drawn := a.drawn + 1 })
  else (false, a)

variable [FdAdapter α δ]

/-- The segment is dropped after it is read. -/
def read (a : LossyFdAdapter α) (packet : Except Exn δ) (kernel : ℕ → Except Exn Unit) :
    Except Exn (Option TCPSegment × LossyFdAdapter α) := do
  let (ret, adapter) ← FdAdapter.read a.adapter packet kernel
  let (drop, a) := { a with adapter }.shouldDrop false
  return (if drop then none else ret, a)

def write (a : LossyFdAdapter α) (seg : TCPSegment) (kernel : ℕ → Except Exn Unit) :
    Except Exn (LossyFdAdapter α) :=
  match a.shouldDrop true with
  | (true, a) => .ok a
  | (false, a) => do
    let adapter ← FdAdapter.write a.adapter seg kernel
    return { a with adapter }

instance : FdAdapter (LossyFdAdapter α) δ where
  device a := FdAdapter.device a.adapter
  setConfig a cfg := { a with adapter := FdAdapter.setConfig a.adapter cfg }
  setListening a listening := { a with adapter := FdAdapter.setListening a.adapter listening }
  read := read
  write := write
  tick a ms kernel := do
    let adapter ← FdAdapter.tick a.adapter ms kernel
    return { a with adapter }

end LossyFdAdapter
