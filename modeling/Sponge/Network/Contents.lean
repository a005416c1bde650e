import Sponge.Lib.Except
import Sponge.Network.Interface

/-!
# Network/Contents — what an interface holds

An interface adds no datagrams of its own: what waits in it, and what its IPv4 frames carry, was
given to `send_datagram`.  So a property of those datagrams is one of all that it holds (`Only`),
whatever frames arrive.
-/

namespace NetworkInterface

variable {P Q : InternetDatagram → Prop} {i : NetworkInterface} {d : InternetDatagram}

/-- An IPv4 frame carries a datagram with the property. -/
def OnlyIn (P : InternetDatagram → Prop) (f : EthernetFrame) : Prop :=
  f.header.type = EthernetHeader.typeIPv4 → ∃ d, P d ∧ d.serialize = .ok f.payload

/-- **All datagrams in the interface** have the property. -/
structure Only (P : InternetDatagram → Prop) (i : NetworkInterface) : Prop where
  pending : ∀ ip, ∀ d ∈ i.pending ip, P d
  frames : ∀ f ∈ i.framesOut, OnlyIn P f

/-- A weaker property. -/
theorem OnlyIn.mono {f : EthernetFrame} (h : OnlyIn P f) (hPQ : ∀ d, P d → Q d) : OnlyIn Q f :=
  fun htype => (h htype).imp fun d hd => ⟨hPQ d hd.1, hd.2⟩

/-- A weaker property. -/
theorem Only.mono (h : i.Only P) (hPQ : ∀ d, P d → Q d) : i.Only Q :=
  ⟨fun ip d hd => hPQ d (h.pending ip d hd), fun f hf => (h.frames f hf).mono hPQ⟩

/-- A new interface holds nothing. -/
theorem Only.new (P : InternetDatagram → Prop) (ethernetAddress : EthernetAddress)
    (ipAddress : Address) : Only P { ethernetAddress, ipAddress } :=
  ⟨by simp [NetworkInterface.pending], by simp⟩

/-- An ARP message carries none. -/
theorem onlyIn_arpFrame (i : NetworkInterface) (dst : EthernetAddress) (msg : ARPMessage) :
    OnlyIn P (i.arpFrame dst msg) := by
  intro htype
  cases htype

/-- A frame that carries a datagram with the property. -/
theorem Carries.onlyIn {dst : EthernetAddress} {f : EthernetFrame} (h : i.Carries dst d f)
    (hd : P d) : OnlyIn P f := by
  obtain ⟨payload, hpayload, rfl⟩ := h
  exact fun _ => ⟨d, hd, hpayload⟩

/-- A datagram waits, and its next hop may be asked for. -/
theorem Only.queues {ip : UInt32} {i' : NetworkInterface} (h : i.Only P) (hd : P d)
    (hq : i.Queues d ip i') : i'.Only P := by
  refine ⟨fun ip' d' hd' => ?_, fun f hf => ?_⟩
  · rw [hq.pending_eq] at hd'
    split_ifs at hd'
    · rcases List.mem_append.mp hd' with hold | hnew
      · exact h.pending ip' d' hold
      · rwa [List.mem_singleton.mp hnew]
    · exact h.pending ip' d' hd'
  · obtain ⟨stamp, -, hframes⟩ := hq
    rcases List.mem_append.mp hf with hold | hnew
    · exact h.frames f hold
    · rcases hframes with rfl | rfl
      · cases hnew
      · rw [List.mem_singleton.mp hnew]
        exact onlyIn_arpFrame i _ _

/-- **A datagram with the property** is sent or waits. -/
theorem Only.sendDatagram (h : i.Only P) (hd : P d) (nextHop : Address) :
    (i.sendDatagram d nextHop).1.Only P := by
  obtain ⟨item, -, -, -, heq⟩ | ⟨i', hq, heq⟩ := i.sendDatagram_cases d nextHop
  · rw [heq]
    cases hpayload : d.serialize with
    | error e => exact h
    | ok payload =>
      refine ⟨h.pending, fun f hf => ?_⟩
      rcases List.mem_append.mp hf with hold | hnew
      · exact h.frames f hold
      · rw [List.mem_singleton.mp hnew]
        exact fun _ => ⟨d, hd, hpayload⟩
  · rw [heq]
    exact h.queues hd hq

/-- An ARP message lets go of what waits, and may be answered. -/
theorem Only.hears {amsg : ARPMessage} {frames : List EthernetFrame}
    {r : NetworkInterface × Except Exn Unit} (h : i.Only P) (hr : i.Hears amsg frames r) :
    r.1.Only P := by
  obtain @⟨sent, rest, queue, replies, result, hpending, hqueue, hframes, hreplies, -⟩ := hr
  have hwaits := h.pending amsg.senderIpAddress
  rw [hpending] at hwaits
  refine ⟨fun ip d hd => ?_, fun f hf => ?_⟩
  · simp only [NetworkInterface.pending, Function.update_apply] at hd
    split_ifs at hd
    · rw [hqueue] at hd
      exact hwaits d (List.mem_append_right _ hd)
    · exact h.pending ip d hd
  · rcases List.mem_append.mp hf with hold | hnew
    · exact h.frames f hold
    rcases List.mem_append.mp hnew with hsent | hreply
    · obtain ⟨d, hd, hcarries⟩ := exists_mem_carries hframes f hsent
      exact hcarries.onlyIn (hwaits d (List.mem_append_left _ hd))
    · rcases hreplies with rfl | rfl
      · cases hreply
      · rw [List.mem_singleton.mp hreply]
        exact onlyIn_arpFrame i _ _

/-- **Whatever frame arrives**, the interface holds what it held. -/
theorem Only.recvFrame (h : i.Only P) (frame : EthernetFrame) : (i.recvFrame frame).1.Only P := by
  cases hheard : i.heard frame with
  | none => rwa [recvFrame_of_not_heard hheard]
  | some amsg =>
    obtain ⟨frames, hr⟩ := i.recvArp_hears amsg
    rw [recvFrame_of_heard hheard]
    exact h.hears hr

/-- The clock moves nothing. -/
theorem Only.tick (h : i.Only P) (ms : ℕ) : (i.tick ms).Only P := ⟨h.pending, h.frames⟩

/-! ## Nothing throws -/

/-- A datagram that can be serialised is taken. -/
theorem sendDatagram_ok (hd : d.Serializable) (nextHop : Address) :
    (i.sendDatagram d nextHop).2 = .ok () := by
  obtain ⟨item, -, -, -, heq⟩ | ⟨i', -, heq⟩ := i.sendDatagram_cases d nextHop
  · rw [heq, hd.serialize_eq]
    rfl
  · rw [heq]

/-- A datagram is returned as it is parsed from an IPv4 frame. -/
theorem of_recvFrame {frame : EthernetFrame} (h : (i.recvFrame frame).2 = .ok (some d)) :
    frame.header.type = EthernetHeader.typeIPv4 ∧ ∃ buffer, frame.payload.toBuffer = .ok buffer ∧
      ({} : InternetDatagram).parse buffer = (.noError, d) := by
  unfold recvFrame at h
  split_ifs at h with hto htype harp
  · refine ⟨htype, ?_⟩
    split at h
    · cases h
    · rename_i dgram hparse
      obtain ⟨buffer, hbuffer, hd⟩ := Except.map_eq_ok_iff.mp hparse
      obtain rfl := Option.some.inj (Except.ok.inj h)
      exact ⟨buffer, hbuffer, hd⟩
    · cases h
  · split at h
    · cases h
    · obtain ⟨_, -, hnone⟩ := Except.map_eq_ok_iff.mp h
      cases hnone
    · cases h
  · cases h
  · cases h

/-- **A frame in one piece is taken**, while what waits can be serialised. -/
theorem Only.recvFrame_ok (h : i.Only IPv4Datagram.Serializable) {frame : EthernetFrame}
    {buffer : Buffer} (hbuffer : frame.payload.toBuffer = .ok buffer) :
    ∃ o, (i.recvFrame frame).2 = .ok o := by
  cases hheard : i.heard frame with
  | none =>
    obtain ⟨o, ho, -⟩ := recvFrame_returns hheard hbuffer
    exact ⟨o, ho⟩
  | some amsg =>
    obtain ⟨frames, hr⟩ := i.recvArp_hears amsg
    have hwaits := h.pending amsg.senderIpAddress
    rw [recvFrame_of_heard hheard]
    generalize i.recvArp amsg = r at hr
    obtain @⟨sent, rest, queue, replies, result, hpending, -, -, -, hleft⟩ := hr
    rcases hleft with ⟨rfl, -⟩ | ⟨d, rest', e, rfl, hd, -⟩
    · exact ⟨none, rfl⟩
    · have hserial := hwaits d (by rw [hpending]; simp)
      rw [hserial.serialize_eq] at hd
      cases hd

end NetworkInterface
