import Sponge.Lib.Reach
import Sponge.Network.Interface

/-!
# Network/Emission — what a run of an interface submits and emits

Runs of one interface under any calls.  A run logs, by next hop, the datagrams submitted and the
IPv4 frames emitted: a frame that `send_datagram` pushes is for its next hop, one that `recv_frame`
pushes is for the sender of the ARP message that let it go.  `Does` is the list of all a call can
do.
-/

open Word64

/-- A call on an interface. -/
inductive InterfaceCall
  | sendDatagram (dgram : InternetDatagram) (nextHop : Address)
  | recvFrame (frame : EthernetFrame)
  | tick (msSinceLastTick : ℕ)
  deriving DecidableEq, Repr

/-- The frame carries an Internet datagram. -/
def EthernetFrame.isIPv4 (f : EthernetFrame) : Bool := f.header.type == EthernetHeader.typeIPv4

namespace NetworkInterface

/-- The interface that a call leaves, whether it returns or throws. -/
def call (i : NetworkInterface) : InterfaceCall → NetworkInterface
  | .sendDatagram dgram nextHop => (i.sendDatagram dgram nextHop).1
  | .recvFrame frame => (i.recvFrame frame).1
  | .tick msSinceLastTick => i.tick msSinceLastTick

/-- The next hop on whose behalf a call emits IPv4 frames. -/
def hop (i : NetworkInterface) : InterfaceCall → Option UInt32
  | .sendDatagram _ nextHop => some nextHop.ipv4Numeric
  | .recvFrame frame => (i.heard frame).map ARPMessage.senderIpAddress
  | .tick _ => none

/-- The IPv4 frames that a call emits. -/
def emittedBy (i : NetworkInterface) (c : InterfaceCall) : List EthernetFrame :=
  ((i.call c).framesOut.drop i.framesOut.length).filter EthernetFrame.isIPv4

/-- **All that a call can do**, with the IPv4 frames it emits. -/
inductive Does (i : NetworkInterface) :
    InterfaceCall → List EthernetFrame → NetworkInterface → Prop
  | sends {d : InternetDatagram} {nextHop : Address} {item : ArpMapItem} {f : EthernetFrame}
      (hitem : i.mapItems nextHop.ipv4Numeric = some item)
      (hlive : sub64 i.time item.timeStamp ≤ ttl) (hmac : item.macAddr ≠ zeroAddress)
      (hcarries : i.Carries item.macAddr d f) :
    Does i (.sendDatagram d nextHop) [f] { i with framesOut := i.framesOut ++ [f] }
  | throws {d : InternetDatagram} {nextHop : Address} {e : Exn} (hthrow : d.serialize = .error e) :
    Does i (.sendDatagram d nextHop) [] i
  | queues {d : InternetDatagram} {nextHop : Address} {i' : NetworkInterface}
      (hqueues : i.Queues d nextHop.ipv4Numeric i') :
    Does i (.sendDatagram d nextHop) [] i'
  | ignores {frame : EthernetFrame} (hheard : i.heard frame = none) :
    Does i (.recvFrame frame) [] i
  | hears {frame : EthernetFrame} {amsg : ARPMessage} {frames : List EthernetFrame}
      {r : NetworkInterface × Except Exn Unit} (hheard : i.heard frame = some amsg)
      (hears : i.Hears amsg frames r) :
    Does i (.recvFrame frame) frames r.1
  | tick (ms : ℕ) : Does i (.tick ms) [] (i.tick ms)

variable {i i' : NetworkInterface} {c : InterfaceCall} {frames : List EthernetFrame}

/-- A datagram goes out at once, or cannot be serialised. -/
theorem sendFrame_does {d : InternetDatagram} {nextHop : Address} {item : ArpMapItem}
    (hitem : i.mapItems nextHop.ipv4Numeric = some item)
    (hlive : sub64 i.time item.timeStamp ≤ ttl) (hmac : item.macAddr ≠ zeroAddress) :
    ∃ frames, Does i (.sendDatagram d nextHop) frames
      (i.sendFrame EthernetHeader.typeIPv4 item.macAddr d.serialize).1 := by
  cases hpayload : d.serialize with
  | error e => exact ⟨[], .throws hpayload⟩
  | ok payload => exact ⟨_, .sends hitem hlive hmac ⟨payload, hpayload, rfl⟩⟩

/-- Every call is on the list. -/
theorem exists_does (i : NetworkInterface) (c : InterfaceCall) :
    ∃ frames, Does i c frames (i.call c) := by
  cases c with
  | sendDatagram d nextHop =>
    rw [call]
    obtain ⟨item, hitem, hlive, hmac, heq⟩ | ⟨i', hqueues, heq⟩ := i.sendDatagram_cases d nextHop
    · rw [heq]
      exact sendFrame_does hitem hlive hmac
    · rw [heq]
      exact ⟨[], .queues hqueues⟩
  | recvFrame frame =>
    rw [call]
    cases hheard : i.heard frame with
    | none =>
      rw [recvFrame_of_not_heard hheard]
      exact ⟨[], .ignores hheard⟩
    | some amsg =>
      obtain ⟨frames, hhears⟩ := i.recvArp_hears amsg
      rw [recvFrame_of_heard hheard]
      exact ⟨frames, .hears hheard hhears⟩
  | tick ms => exact ⟨[], .tick ms⟩

theorem Carries.isIPv4 {dst : EthernetAddress} {d : InternetDatagram} {f : EthernetFrame}
    (h : i.Carries dst d f) : f.isIPv4 = true := by
  obtain ⟨payload, -, rfl⟩ := h
  rfl

theorem isIPv4_arpFrame (i : NetworkInterface) (dst : EthernetAddress) (msg : ARPMessage) :
    (i.arpFrame dst msg).isIPv4 = false := rfl

/-- **What a call pushes**: the IPv4 frames it emits, and ARP messages. -/
theorem Does.framesOut (h : Does i c frames i') : ∃ added,
    i'.framesOut = i.framesOut ++ added ∧ added.filter EthernetFrame.isIPv4 = frames := by
  cases h with
  | sends hitem hlive hmac hcarries =>
    exact ⟨_, rfl, by simp [hcarries.isIPv4]⟩
  | throws => exact ⟨[], by simp, rfl⟩
  | queues hqueues =>
    obtain ⟨stamp, hentry, rfl | rfl⟩ := hqueues
    · exact ⟨_, rfl, rfl⟩
    · exact ⟨_, rfl, rfl⟩
  | ignores => exact ⟨[], by simp, rfl⟩
  | hears hheard hhears =>
    obtain ⟨hpending, hqueue, hframes, hreplies, hleft⟩ := hhears
    refine ⟨_, rfl, ?_⟩
    have hself : frames.filter EthernetFrame.isIPv4 = frames := by
      refine List.filter_eq_self.mpr fun f hf => ?_
      obtain ⟨d, -, hcarries⟩ := exists_mem_carries hframes f hf
      exact hcarries.isIPv4
    rw [List.filter_append, hself]
    obtain rfl | rfl := hreplies <;> simp [isIPv4_arpFrame]
  | tick => exact ⟨[], by simp [NetworkInterface.tick], rfl⟩

/-- **What a call does**, with the frames it is seen to emit. -/
theorem does_call (i : NetworkInterface) (c : InterfaceCall) :
    Does i c (i.emittedBy c) (i.call c) := by
  obtain ⟨frames, hdoes⟩ := i.exists_does c
  obtain ⟨added, hout, hfilter⟩ := hdoes.framesOut
  rwa [emittedBy, hout, List.drop_left, hfilter]

end NetworkInterface

/-! ## Runs -/

/-- **A run of an interface**, with what was submitted and what was emitted, by next hop. -/
structure InterfaceRun where
  interface : NetworkInterface
  submitted : List (UInt32 × InternetDatagram) := []
  emitted : List (UInt32 × EthernetFrame) := []

namespace InterfaceRun

def init (ethernetAddress : EthernetAddress) (ipAddress : Address) : InterfaceRun :=
  { interface := { ethernetAddress, ipAddress } }

/-- The datagram that a call submits. -/
def submission : InterfaceCall → List (UInt32 × InternetDatagram)
  | .sendDatagram dgram nextHop => [(nextHop.ipv4Numeric, dgram)]
  | _ => []

/-- Frames, under the next hop they are for. -/
def emission (hop : Option UInt32) (frames : List EthernetFrame) :
    List (UInt32 × EthernetFrame) :=
  match hop with
  | some a => frames.map (a, ·)
  | none => []

@[simp] theorem emission_nil (hop : Option UInt32) : emission hop [] = [] := by
  cases hop <;> rfl

def after (w : InterfaceRun) (c : InterfaceCall) : InterfaceRun where
  interface := w.interface.call c
  submitted := w.submitted ++ submission c
  emitted := w.emitted ++ emission (w.interface.hop c) (w.interface.emittedBy c)

/-- The log of emissions is that of all IPv4 frames. -/
def Logged (w : InterfaceRun) : Prop :=
  w.emitted.map Prod.snd = w.interface.framesOut.filter EthernetFrame.isIPv4

variable {w : InterfaceRun}

/-- The frames logged are those emitted. -/
theorem emission_snd (i : NetworkInterface) (c : InterfaceCall) :
    (emission (i.hop c) (i.emittedBy c)).map Prod.snd = i.emittedBy c := by
  have hdoes := i.does_call c
  generalize i.emittedBy c = frames, i.call c = i' at hdoes
  cases hdoes with
  | hears hheard => simp [emission, NetworkInterface.hop, hheard, Function.comp_def]
  | ignores hheard => simp [emission, NetworkInterface.hop, hheard]
  | _ => rfl

/-- **No frame escapes the log.** -/
theorem Logged.after (h : w.Logged) (c : InterfaceCall) : (w.after c).Logged := by
  obtain ⟨added, hout, hfilter⟩ := (w.interface.does_call c).framesOut
  have hlog : w.emitted.map Prod.snd = _ := h
  rw [Logged, InterfaceRun.after, List.map_append, hlog, emission_snd, hout, List.filter_append,
    hfilter]

end InterfaceRun
