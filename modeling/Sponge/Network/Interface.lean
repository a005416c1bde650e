import Sponge.Lib.Word64
import Sponge.Wire.Ethernet
import Sponge.Wire.IPv4

/-!
# Network/Interface — an interface between IP and Ethernet

`network_interface.cc`.  A datagram goes out in a frame if the Ethernet address of its next hop is
known, and is queued behind an ARP request if it is not; an ARP message from that hop, request or
reply, sends the queue out.  `frames_out()` is kept as the log of all frames ever pushed, and a call
gives the interface it leaves also where it throws.

`sendDatagram_cases` and `recvArp_hears` say once what the two calls can do.
-/

open Word64

/-- An entry of `_map`. -/
structure ArpMapItem where
  macAddr : EthernetAddress
  timeStamp : ℕ
  deriving DecidableEq, Repr

/-- A `NetworkInterface`; each `std::map` is its lookup function. -/
structure NetworkInterface where
  ethernetAddress : EthernetAddress
  ipAddress : Address
  framesOut : List EthernetFrame := []
  time : ℕ := 0
  mapItems : UInt32 → Option ArpMapItem := fun _ => none
  /-- When the last ARP request for an address was sent. -/
  arpPendingIp : UInt32 → Option ℕ := fun _ => none
  arpPendingDgram : UInt32 → Option (List InternetDatagram) := fun _ => none

namespace NetworkInterface

/-- How long a mapping is kept, in milliseconds. -/
def ttl : ℕ := 30000

/-- How long an ARP request is not repeated, in milliseconds. -/
def arpTTL : ℕ := 5000

/-- The address that stands for none. -/
def zeroAddress : EthernetAddress := .replicate 6 0

/-- A frame from this interface. -/
def frame (i : NetworkInterface) (type : UInt16) (dst : EthernetAddress) (payload : BufferList) :
    EthernetFrame :=
  { header := { dst, src := i.ethernetAddress, type }, payload }

/-- `frame.payload() = payload; _frames_out.push(frame);`, where taking the payload may throw. -/
def sendFrame (i : NetworkInterface) (type : UInt16) (dst : EthernetAddress)
    (payload : Except Exn BufferList) : NetworkInterface × Except Exn Unit :=
  match payload with
  | .error e => (i, .error e)
  | .ok payload => ({ i with framesOut := i.framesOut ++ [i.frame type dst payload] }, .ok ())

def map (i : NetworkInterface) (ipAddress : UInt32) : NetworkInterface × EthernetAddress :=
  match i.mapItems ipAddress with
  | none => (i, zeroAddress)
  | some item =>
    if sub64 i.time item.timeStamp > ttl then
      ({ i with mapItems := Function.update i.mapItems ipAddress none }, zeroAddress)
    else (i, item.macAddr)

/-- The message that `send_arp` broadcasts. -/
def request (i : NetworkInterface) (ipAddress : UInt32) : ARPMessage :=
  { opcode := ARPMessage.opcodeRequest
    senderEthernetAddress := i.ethernetAddress
    senderIpAddress := i.ipAddress.ipv4Numeric
    targetEthernetAddress := zeroAddress
    targetIpAddress := ipAddress }

def sendArp (i : NetworkInterface) (ipAddress : UInt32) : NetworkInterface × Except Exn Unit :=
  i.sendFrame EthernetHeader.typeARP ethernetBroadcast
    ((i.request ipAddress).serialize.map .ofString)

/-- The part of `send_datagram` that queues the datagram. -/
def queueDatagram (i : NetworkInterface) (dgram : InternetDatagram) (nextHopIp : UInt32) :
    NetworkInterface :=
  let queue := match i.arpPendingDgram nextHopIp with
    | none => [dgram]
    | some queue => queue ++ [dgram]
  { i with arpPendingDgram := Function.update i.arpPendingDgram nextHopIp (some queue) }

/-- The part of `send_datagram` that asks for the address of the next hop, unless another datagram
has done so in the last five seconds. -/
def requestArp (i : NetworkInterface) (nextHopIp : UInt32) : NetworkInterface × Except Exn Unit :=
  let asking : NetworkInterface :=
    { i with arpPendingIp := Function.update i.arpPendingIp nextHopIp (some i.time) }
  match i.arpPendingIp nextHopIp with
  | some stamp => if sub64 i.time stamp > arpTTL then asking.sendArp nextHopIp else (i, .ok ())
  | none => asking.sendArp nextHopIp

def sendDatagram (i : NetworkInterface) (dgram : InternetDatagram) (nextHop : Address) :
    NetworkInterface × Except Exn Unit :=
  let nextHopIp := nextHop.ipv4Numeric
  let (i, mac) := i.map nextHopIp
  if mac = zeroAddress then (i.queueDatagram dgram nextHopIp).requestArp nextHopIp
  else i.sendFrame EthernetHeader.typeIPv4 mac dgram.serialize

/-- The loop of `recv_frame` that sends out what is queued for `ip`.  A datagram leaves the queue
after its frame is pushed, and the entry is erased when the queue is empty. -/
def flush (i : NetworkInterface) (ip : UInt32) (mac : EthernetAddress) :
    List InternetDatagram → NetworkInterface × Except Exn Unit
  | [] => ({ i with arpPendingDgram := Function.update i.arpPendingDgram ip none }, .ok ())
  | dgram :: queue =>
    match i.sendFrame EthernetHeader.typeIPv4 mac dgram.serialize with
    | (i, .error e) => (i, .error e)
    | (i, .ok ()) =>
      let i : NetworkInterface :=
        { i with arpPendingDgram := Function.update i.arpPendingDgram ip (some queue) }
      i.flush ip mac queue

/-- The part of `recv_frame` that remembers the sender of an ARP message and sends out what is
queued for it. -/
def learn (i : NetworkInterface) (ip : UInt32) (mac : EthernetAddress) :
    NetworkInterface × Except Exn Unit :=
  let i : NetworkInterface :=
    { i with mapItems := Function.update i.mapItems ip (some ⟨mac, i.time⟩) }
  match i.arpPendingIp ip with
  | none => (i, .ok ())
  | some _ =>
    let i : NetworkInterface := { i with arpPendingIp := Function.update i.arpPendingIp ip none }
    match i.arpPendingDgram ip with
    | none => (i, .ok ())
    | some queue => i.flush ip mac queue

/-- The answer to a request. -/
def reply (i : NetworkInterface) (amsg : ARPMessage) : ARPMessage :=
  { opcode := ARPMessage.opcodeReply
    senderEthernetAddress := i.ethernetAddress
    senderIpAddress := i.ipAddress.ipv4Numeric
    targetEthernetAddress := amsg.senderEthernetAddress
    targetIpAddress := amsg.senderIpAddress }

/-- The part of `recv_frame` that handles an ARP message. -/
def recvArp (i : NetworkInterface) (amsg : ARPMessage) : NetworkInterface × Except Exn Unit :=
  match i.learn amsg.senderIpAddress amsg.senderEthernetAddress with
  | (i, .error e) => (i, .error e)
  | (i, .ok ()) =>
    if amsg.opcode = ARPMessage.opcodeRequest ∧ amsg.targetIpAddress = i.ipAddress.ipv4Numeric then
      i.sendFrame EthernetHeader.typeARP amsg.senderEthernetAddress
        ((i.reply amsg).serialize.map .ofString)
    else (i, .ok ())

/-- Frames for other interfaces are ignored. -/
def accepts (i : NetworkInterface) (frame : EthernetFrame) : Bool :=
  frame.header.dst == i.ethernetAddress || frame.header.dst == ethernetBroadcast

def recvFrame (i : NetworkInterface) (frame : EthernetFrame) :
    NetworkInterface × Except Exn (Option InternetDatagram) :=
  if i.accepts frame then
    if frame.header.type = EthernetHeader.typeIPv4 then
      match frame.payload.toBuffer.map ({} : InternetDatagram).parse with
      | .error e => (i, .error e)
      | .ok (.noError, dgram) => (i, .ok (some dgram))
      | .ok _ => (i, .ok none)
    else if frame.header.type = EthernetHeader.typeARP then
      match frame.payload.toBuffer.map ({} : ARPMessage).parse with
      | .error e => (i, .error e)
      | .ok (.noError, amsg) => ((i.recvArp amsg).1, (i.recvArp amsg).2.map fun _ => none)
      | .ok _ => (i, .ok none)
    else (i, .ok none)
  else (i, .ok none)

def tick (i : NetworkInterface) (msSinceLastTick : ℕ) : NetworkInterface :=
  { i with time := add64 i.time msSinceLastTick }

/-! ## What a call can do -/

/-- The datagrams that wait for the address of `ip`. -/
def pending (i : NetworkInterface) (ip : UInt32) : List InternetDatagram :=
  (i.arpPendingDgram ip).getD []

/-- An IPv4 frame of this interface that carries the datagram to `dst`. -/
def Carries (i : NetworkInterface) (dst : EthernetAddress) (d : InternetDatagram)
    (f : EthernetFrame) : Prop :=
  ∃ payload, d.serialize = .ok payload ∧ f = i.frame EthernetHeader.typeIPv4 dst payload

/-- The frame of an ARP message of this interface. -/
def arpFrame (i : NetworkInterface) (dst : EthernetAddress) (msg : ARPMessage) : EthernetFrame :=
  i.frame EthernetHeader.typeARP dst (.ofString msg.fields)

section Steps

variable {i : NetworkInterface}

theorem sendArp_eq (i : NetworkInterface) (ip : UInt32) : i.sendArp ip =
    ({ i with framesOut := i.framesOut ++ [i.arpFrame ethernetBroadcast (i.request ip)] },
      .ok ()) := rfl

/-- **When a request is sent**: there is none for the address, or the last one is too old. -/
theorem requestArp_cases (i : NetworkInterface) (ip : UInt32) :
    ((∀ stamp ∈ i.arpPendingIp ip, arpTTL < sub64 i.time stamp) ∧
      i.requestArp ip = ({ i with
        arpPendingIp := Function.update i.arpPendingIp ip (some i.time)
        framesOut := i.framesOut ++ [i.arpFrame ethernetBroadcast (i.request ip)] }, .ok ())) ∨
    ∃ stamp, i.arpPendingIp ip = some stamp ∧ sub64 i.time stamp ≤ arpTTL ∧
      i.requestArp ip = (i, .ok ()) := by
  cases hpending : i.arpPendingIp ip with
  | none => exact .inl ⟨by simp, by simp only [requestArp, hpending, sendArp_eq]; rfl⟩
  | some stamp =>
    by_cases hold : sub64 i.time stamp > arpTTL
    · exact .inl ⟨by simpa using hold,
        by simp only [requestArp, hpending, if_pos hold, sendArp_eq]; rfl⟩
    · exact .inr ⟨stamp, rfl, not_lt.mp hold, by simp only [requestArp, hpending, if_neg hold]⟩

theorem requestArp_eq (i : NetworkInterface) (ip : UInt32) : ∃ stamp frames,
    (frames = [] ∨ frames = [i.arpFrame ethernetBroadcast (i.request ip)]) ∧
    i.requestArp ip = ({ i with
      arpPendingIp := Function.update i.arpPendingIp ip (some stamp)
      framesOut := i.framesOut ++ frames }, .ok ()) := by
  obtain ⟨-, heq⟩ | ⟨stamp, hstamp, -, heq⟩ := i.requestArp_cases ip
  · exact ⟨i.time, _, .inr rfl, heq⟩
  · refine ⟨stamp, [], .inl rfl, ?_⟩
    rw [heq, ← hstamp, Function.update_eq_self, List.append_nil]

theorem queueDatagram_eq (i : NetworkInterface) (d : InternetDatagram) (ip : UInt32) :
    i.queueDatagram d ip = { i with
      arpPendingDgram := Function.update i.arpPendingDgram ip (some (i.pending ip ++ [d])) } := by
  cases hqueue : i.arpPendingDgram ip <;> simp [queueDatagram, pending, hqueue]

/-- **When an address is found**: its entry has not expired.  An entry that has is erased. -/
theorem map_spec (i : NetworkInterface) (ip : UInt32) :
    (∃ item, i.mapItems ip = some item ∧ sub64 i.time item.timeStamp ≤ ttl ∧
      i.map ip = (i, item.macAddr)) ∨
    (∀ item ∈ i.mapItems ip, ttl < sub64 i.time item.timeStamp) ∧
      i.map ip = ({ i with mapItems := Function.update i.mapItems ip none }, zeroAddress) := by
  cases hitem : i.mapItems ip with
  | none =>
    refine .inr ⟨by simp, ?_⟩
    rw [← hitem, Function.update_eq_self, map, hitem]
  | some item =>
    by_cases hold : sub64 i.time item.timeStamp > ttl
    · exact .inr ⟨by simpa using hold, by simp only [map, hitem, if_pos hold]⟩
    · exact .inl ⟨item, rfl, not_lt.mp hold, by simp only [map, hitem, if_neg hold]⟩

/-- An address is found while its entry is live; an expired entry is erased. -/
theorem map_cases (i : NetworkInterface) (ip : UInt32) :
    (∃ item, i.mapItems ip = some item ∧ sub64 i.time item.timeStamp ≤ ttl ∧
      i.map ip = (i, item.macAddr)) ∨
    i.map ip = ({ i with mapItems := Function.update i.mapItems ip none }, zeroAddress) :=
  (i.map_spec ip).imp_right And.right

/-- A lookup touches `_map` only. -/
theorem map_fst (i : NetworkInterface) (ip : UInt32) :
    (i.map ip).1 = { i with mapItems := (i.map ip).1.mapItems } := by
  obtain ⟨item, -, -, heq⟩ | ⟨-, heq⟩ := i.map_spec ip
  · rw [heq]
  · rw [heq]

theorem sendDatagram_of_known {d : InternetDatagram} {nextHop : Address}
    (h : (i.map nextHop.ipv4Numeric).2 ≠ zeroAddress) :
    i.sendDatagram d nextHop = (i.map nextHop.ipv4Numeric).1.sendFrame EthernetHeader.typeIPv4
      (i.map nextHop.ipv4Numeric).2 d.serialize := if_neg h

theorem sendDatagram_of_unknown {d : InternetDatagram} {nextHop : Address}
    (h : (i.map nextHop.ipv4Numeric).2 = zeroAddress) :
    i.sendDatagram d nextHop = ((i.map nextHop.ipv4Numeric).1.queueDatagram d
      nextHop.ipv4Numeric).requestArp nextHop.ipv4Numeric := if_pos h

/-- **The datagram is queued for `ip`**, with an ARP request or without; an entry that is left in
`_map` is one without an address. -/
inductive Queues (i : NetworkInterface) (d : InternetDatagram) (ip : UInt32) :
    NetworkInterface → Prop
  | intro {entry : Option ArpMapItem} (stamp : ℕ) {frames : List EthernetFrame}
      (hentry : ∀ item ∈ entry, i.mapItems ip = some item ∧ item.macAddr = zeroAddress)
      (hframes : frames = [] ∨ frames = [i.arpFrame ethernetBroadcast (i.request ip)]) :
    Queues i d ip { i with
      mapItems := Function.update i.mapItems ip entry
      arpPendingIp := Function.update i.arpPendingIp ip (some stamp)
      arpPendingDgram := Function.update i.arpPendingDgram ip (some (i.pending ip ++ [d]))
      framesOut := i.framesOut ++ frames }

theorem Queues.pending_eq {i' : NetworkInterface} {d : InternetDatagram} {b : UInt32}
    (h : i.Queues d b i') (a : UInt32) :
    i'.pending a = if a = b then i.pending a ++ [d] else i.pending a := by
  obtain ⟨stamp, hentry, hframes⟩ := h
  simp only [pending, Function.update_apply]
  split_ifs with hab
  · rw [hab]
    rfl
  · rfl

theorem queues_of_map {d : InternetDatagram} {nextHop : Address} (entry : Option ArpMapItem)
    (hentry : ∀ item ∈ entry, i.mapItems nextHop.ipv4Numeric = some item ∧
      item.macAddr = zeroAddress)
    (hmap : i.map nextHop.ipv4Numeric = ({ i with
      mapItems := Function.update i.mapItems nextHop.ipv4Numeric entry }, zeroAddress)) :
    ∃ i', Queues i d nextHop.ipv4Numeric i' ∧ i.sendDatagram d nextHop = (i', .ok ()) := by
  obtain ⟨stamp, frames, hframes, heq⟩ := (queueDatagram { i with
    mapItems := Function.update i.mapItems nextHop.ipv4Numeric entry } d
      nextHop.ipv4Numeric).requestArp_eq nextHop.ipv4Numeric
  simp only [queueDatagram_eq] at hframes heq
  exact ⟨_, .intro stamp hentry hframes, by
    simp only [sendDatagram, hmap, if_true, queueDatagram_eq, heq]; rfl⟩

/-- **What `send_datagram` does**: it sends a frame to a live address, or queues the datagram. -/
theorem sendDatagram_cases (i : NetworkInterface) (d : InternetDatagram) (nextHop : Address) :
    (∃ item, i.mapItems nextHop.ipv4Numeric = some item ∧ sub64 i.time item.timeStamp ≤ ttl ∧
      item.macAddr ≠ zeroAddress ∧
      i.sendDatagram d nextHop = i.sendFrame EthernetHeader.typeIPv4 item.macAddr d.serialize) ∨
    ∃ i', Queues i d nextHop.ipv4Numeric i' ∧ i.sendDatagram d nextHop = (i', .ok ()) := by
  obtain ⟨item, hitem, hlive, hmap⟩ | hmap := i.map_cases nextHop.ipv4Numeric
  · by_cases hzero : item.macAddr = zeroAddress
    · refine .inr (queues_of_map (some item) (by simp [hitem, hzero]) ?_)
      rw [hmap, hzero, ← hitem, Function.update_eq_self]
    · exact .inl ⟨item, hitem, hlive, hzero, by simp only [sendDatagram, hmap, if_neg hzero]⟩
  · exact .inr (queues_of_map none (by simp) hmap)

/-- **What the flush does**: the datagrams up to one that throws go out, in order, and the others
stay queued. -/
theorem flush_eq (i : NetworkInterface) (ip : UInt32) (mac : EthernetAddress) :
    ∀ queue, i.arpPendingDgram ip = some queue → ∃ sent rest frames result,
      queue = sent ++ rest ∧ List.Forall₂ (i.Carries mac) sent frames ∧
      i.flush ip mac queue = ({ i with
        arpPendingDgram := Function.update i.arpPendingDgram ip
          (if rest = [] then none else some rest)
        framesOut := i.framesOut ++ frames }, result) ∧
      ((rest = [] ∧ result = .ok ()) ∨
        ∃ d rest' e, rest = d :: rest' ∧ d.serialize = .error e ∧ result = .error e) := by
  intro queue
  induction queue generalizing i with
  | nil =>
    intro _
    exact ⟨[], [], [], .ok (), rfl, .nil, by simp [flush], .inl ⟨rfl, rfl⟩⟩
  | cons d queue ih =>
    intro hqueue
    cases hpayload : d.serialize with
    | error e =>
      refine ⟨[], d :: queue, [], .error e, rfl, .nil, ?_, .inr ⟨d, queue, e, rfl, hpayload, rfl⟩⟩
      simp only [flush, sendFrame, hpayload, reduceCtorEq, if_false, List.append_nil]
      rw [← hqueue, Function.update_eq_self]
    | ok payload =>
      obtain ⟨sent, rest, frames, result, rfl, hsent, heq, hresult⟩ := ih { i with
          framesOut := i.framesOut ++ [i.frame EthernetHeader.typeIPv4 mac payload]
          arpPendingDgram := Function.update i.arpPendingDgram ip (some queue) }
        (Function.update_self ..)
      refine ⟨d :: sent, rest, i.frame EthernetHeader.typeIPv4 mac payload :: frames, result, rfl,
        .cons ⟨payload, hpayload, rfl⟩ hsent, ?_, hresult⟩
      simp only [flush, sendFrame, hpayload, heq, Function.update_idem, List.append_assoc,
        List.singleton_append]

/-- What is left of the queue for `ip`, and whether a datagram of it threw. -/
def Left (i : NetworkInterface) (ip : UInt32) (rest : List InternetDatagram)
    (result : Except Exn Unit) : Prop :=
  (result = .ok () ∧ ((i.arpPendingIp ip).isSome → rest = [])) ∨
    ∃ d rest' e, rest = d :: rest' ∧ d.serialize = .error e ∧ result = .error e

/-- **What an ARP message does**: its sender is remembered, what is queued for it goes out, up to a
datagram that throws, and a request for this interface is answered. -/
inductive Hears (i : NetworkInterface) (amsg : ARPMessage) (frames : List EthernetFrame) :
    NetworkInterface × Except Exn Unit → Prop
  | intro {sent rest : List InternetDatagram} {queue : Option (List InternetDatagram)}
      {replies : List EthernetFrame} {result : Except Exn Unit}
      (hpending : i.pending amsg.senderIpAddress = sent ++ rest) (hqueue : queue.getD [] = rest)
      (hframes : List.Forall₂ (i.Carries amsg.senderEthernetAddress) sent frames)
      (hreplies : replies = [] ∨
        replies = [i.arpFrame amsg.senderEthernetAddress (i.reply amsg)])
      (hleft : i.Left amsg.senderIpAddress rest result) :
    Hears i amsg frames ({ i with
      mapItems := Function.update i.mapItems amsg.senderIpAddress
        (some ⟨amsg.senderEthernetAddress, i.time⟩)
      arpPendingIp := Function.update i.arpPendingIp amsg.senderIpAddress none
      arpPendingDgram := Function.update i.arpPendingDgram amsg.senderIpAddress queue
      framesOut := i.framesOut ++ (frames ++ replies) }, result)

theorem learn_eq (i : NetworkInterface) (ip : UInt32) (mac : EthernetAddress) :
    ∃ sent rest queue frames result, i.pending ip = sent ++ rest ∧ queue.getD [] = rest ∧
      List.Forall₂ (i.Carries mac) sent frames ∧ i.Left ip rest result ∧
      i.learn ip mac = ({ i with
        mapItems := Function.update i.mapItems ip (some ⟨mac, i.time⟩)
        arpPendingIp := Function.update i.arpPendingIp ip none
        arpPendingDgram := Function.update i.arpPendingDgram ip queue
        framesOut := i.framesOut ++ frames }, result) := by
  cases hip : i.arpPendingIp ip with
  | none =>
    -- nobody has asked, so the queue is not looked at
    refine ⟨[], i.pending ip, i.arpPendingDgram ip, [], .ok (), rfl, rfl, .nil,
      .inl ⟨rfl, by simp [hip]⟩, ?_⟩
    simp only [learn, hip, Function.update_eq_self, List.append_nil]
    rw [← hip, Function.update_eq_self]
  | some stamp =>
    cases hqueue : i.arpPendingDgram ip with
    | none =>
      refine ⟨[], [], none, [], .ok (), by simp [pending, hqueue], rfl, .nil,
        .inl ⟨rfl, fun _ => rfl⟩, ?_⟩
      simp only [learn, hip, hqueue, List.append_nil]
      rw [← hqueue, Function.update_eq_self]
    | some queue =>
      obtain ⟨sent, rest, frames, result, rfl, hsent, heq, hresult⟩ := flush_eq { i with
        mapItems := Function.update i.mapItems ip (some ⟨mac, i.time⟩)
        arpPendingIp := Function.update i.arpPendingIp ip none } ip mac queue hqueue
      refine ⟨sent, rest, if rest = [] then none else some rest, frames, result,
        by simp [pending, hqueue], ?_, hsent,
        hresult.imp_left fun ⟨hrest, hok⟩ => ⟨hok, fun _ => hrest⟩, ?_⟩
      · split_ifs with hnil
        · exact hnil.symm
        · rfl
      · simp only [learn, hip, hqueue, heq]

theorem recvArp_hears (i : NetworkInterface) (amsg : ARPMessage) :
    ∃ frames, Hears i amsg frames (i.recvArp amsg) := by
  obtain ⟨sent, rest, queue, frames, result, hpending, hqueue, hframes, hleft, heq⟩ :=
    i.learn_eq amsg.senderIpAddress amsg.senderEthernetAddress
  have hquiet : Hears i amsg frames ({ i with
      mapItems := Function.update i.mapItems amsg.senderIpAddress
        (some ⟨amsg.senderEthernetAddress, i.time⟩)
      arpPendingIp := Function.update i.arpPendingIp amsg.senderIpAddress none
      arpPendingDgram := Function.update i.arpPendingDgram amsg.senderIpAddress queue
      framesOut := i.framesOut ++ (frames ++ []) }, result) :=
    .intro hpending hqueue hframes (.inl rfl) hleft
  rw [List.append_nil] at hquiet
  refine ⟨frames, ?_⟩
  cases result with
  | error e => simpa only [recvArp, heq] using hquiet
  | ok _ =>
    simp only [recvArp, heq]
    split_ifs with hasked
    · have hanswer := Hears.intro hpending hqueue hframes (.inr rfl) hleft
      rw [← List.append_assoc] at hanswer
      exact hanswer
    · exact hquiet

/-- The ARP message that a frame brings to the interface. -/
def heard (i : NetworkInterface) (frame : EthernetFrame) : Option ARPMessage :=
  if i.accepts frame ∧ frame.header.type = EthernetHeader.typeARP then
    match frame.payload.toBuffer.map ({} : ARPMessage).parse with
    | .ok (.noError, amsg) => some amsg
    | _ => none
  else none

theorem of_heard {frame : EthernetFrame} {amsg : ARPMessage} (h : i.heard frame = some amsg) :
    i.accepts frame = true ∧ frame.header.type = EthernetHeader.typeARP ∧
      ∃ buffer, frame.payload.toBuffer = .ok buffer ∧
        ({} : ARPMessage).parse buffer = (.noError, amsg) := by
  unfold heard at h
  split_ifs at h with hto
  refine ⟨hto.1, hto.2, ?_⟩
  cases hbuffer : frame.payload.toBuffer with
  | error e => simp [hbuffer, Except.map] at h
  | ok buffer =>
    refine ⟨buffer, rfl, ?_⟩
    rw [hbuffer, Except.map] at h
    split at h
    · rename_i hparse
      rw [Except.ok.inj hparse, Option.some.inj h]
    · cases h

theorem recvFrame_of_heard {frame : EthernetFrame} {amsg : ARPMessage}
    (h : i.heard frame = some amsg) : i.recvFrame frame =
      ((i.recvArp amsg).1, (i.recvArp amsg).2.map fun _ => none) := by
  obtain ⟨hto, htype, buffer, hbuffer, hparse⟩ := of_heard h
  have hne : EthernetHeader.typeARP ≠ EthernetHeader.typeIPv4 := by decide
  simp only [recvFrame, hto, htype, hne, hbuffer, Except.map, hparse, if_true, if_false]

/-- **A frame without an ARP message changes nothing.** -/
theorem recvFrame_of_not_heard {frame : EthernetFrame} (h : i.heard frame = none) :
    (i.recvFrame frame).1 = i := by
  unfold recvFrame
  split_ifs with hto hip harp
  · split <;> rfl
  · rw [heard, if_pos ⟨hto, harp⟩] at h
    split
    · rfl
    · rename_i hparse
      rw [hparse] at h
      cases h
    · rfl
  · rfl
  · rfl

/-- Each of the frames carries one of the datagrams. -/
theorem exists_mem_carries {dst : EthernetAddress} {ds : List InternetDatagram}
    {frames : List EthernetFrame} (h : List.Forall₂ (i.Carries dst) ds frames) :
    ∀ f ∈ frames, ∃ d ∈ ds, i.Carries dst d f := by
  induction h with
  | nil => simp
  | cons hcarries _ ih =>
    refine List.forall_mem_cons.mpr ⟨⟨_, List.mem_cons_self, hcarries⟩, fun f hf => ?_⟩
    obtain ⟨d, hd, hcarries⟩ := ih f hf
    exact ⟨d, List.mem_cons_of_mem _ hd, hcarries⟩

/-- What a contiguous frame hands up is the datagram that was parsed. -/
theorem recvFrame_returns {frame : EthernetFrame} {buffer : Buffer} (h : i.heard frame = none)
    (hbuffer : frame.payload.toBuffer = .ok buffer) : ∃ o, (i.recvFrame frame).2 = .ok o ∧
      ∀ d ∈ o, ({} : InternetDatagram).parse buffer = (.noError, d) := by
  unfold recvFrame
  rw [hbuffer]
  simp only [Except.map]
  split_ifs with hto hip harp
  · split
    · rename_i heq
      cases heq
    · rename_i d heq
      exact ⟨some d, rfl, fun d' hd' => Option.some.inj hd' ▸ Except.ok.inj heq⟩
    · exact ⟨none, rfl, by simp⟩
  · rw [heard, if_pos ⟨hto, harp⟩, hbuffer] at h
    split
    · rename_i heq
      cases heq
    · rename_i amsg heq
      simp only [Except.map, heq] at h
      cases h
    · exact ⟨none, rfl, by simp⟩
  · exact ⟨none, rfl, by simp⟩
  · exact ⟨none, rfl, by simp⟩

end Steps

end NetworkInterface
