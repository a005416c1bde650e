import Sponge.Lib.Except
import Sponge.Network.Contents
import Sponge.Socket.Adapters

/-!
# Socket/Carriers — adapters forge nothing

Whatever an adapter writes to its device, an adapter at the other end reads as one of the segments
it was given, up to the ports and the checksum that the adapter has filled in, or as nothing
(`Carrier`).  This holds of all four adapters: of the Ethernet adapter also for what waits for an
ARP reply, and whatever else is on its network.  A call throws only what the kernel raises.
-/

/-- The segment is one of these, as far as a connection can see. -/
def TCPSegment.Among (segs : List TCPSegment) (seg : TCPSegment) : Prop :=
  ∃ seg' ∈ segs, seg.content = seg'.content

/-- More segments to be one of. -/
theorem TCPSegment.Among.mono {segs segs' : List TCPSegment} {seg : TCPSegment}
    (h : seg.Among segs) (hsub : segs ⊆ segs') : seg.Among segs' := by
  obtain ⟨seg', hmem, heq⟩ := h
  exact ⟨seg', hsub hmem, heq⟩

/-! ## Datagrams that bear a segment -/

section Bears

variable {segs segs' : List TCPSegment} {seg : TCPSegment} {d : InternetDatagram}

/-- **The datagram bears one of the segments**: it is as some adapter has wrapped it, but for its
time to live, its checksum and the pieces its payload is in. -/
inductive IPv4Datagram.Bears (segs : List TCPSegment) (d : InternetDatagram) : Prop
  | intro (a : TCPOverIPv4Adapter) {seg : TCPSegment} (hseg : seg ∈ segs) (hplain : seg.Plain)
      (ttl : UInt8) (cksum : UInt16) {payload : BufferList}
      (hpayload : (a.setPorts seg).serialize (a.wrapHeader (a.setPorts seg)).pseudoCksum =
        .ok payload)
      (hheader : d.header = { a.wrapHeader (a.setPorts seg) with ttl, cksum })
      (hbytes : d.payload.concatenate = payload.concatenate)

/-- More segments to bear one of. -/
theorem IPv4Datagram.Bears.mono (h : d.Bears segs) (hsub : segs ⊆ segs') : d.Bears segs' := by
  obtain ⟨a, hseg, hplain, ttl, cksum, hpayload, hheader, hbytes⟩ := h
  exact ⟨a, hsub hseg, hplain, ttl, cksum, hpayload, hheader, hbytes⟩

namespace TCPSegment.Plain

/-- Its header has no options, whatever the ports. -/
theorem fits (h : seg.Plain) (a : TCPOverIPv4Adapter) : (a.setPorts seg).header.Fits := by
  have hdoff : (a.setPorts seg).header.doff = 5 := h.doff
  exact ⟨by rw [hdoff]; decide, by rw [hdoff]; decide⟩

/-- It is no larger than header and payload can be. -/
theorem size_le (h : seg.Plain) : 4 * seg.header.doff.toNat + seg.payload.length ≤ 1472 := by
  have hpayload := h.payload
  rw [TCPConfig.maxPayloadSize] at hpayload
  rw [h.doff]
  change 4 * 5 + _ ≤ _
  omega

/-- **A plain segment is wrapped**, and the datagram bears it. -/
theorem wrap (h : seg.Plain) (a : TCPOverIPv4Adapter) (hseg : seg ∈ segs) :
    ∃ d, a.wrapTcpInIp seg = .ok d ∧ d.Bears segs := by
  obtain ⟨payload, hpayload, -⟩ := TCPSegment.parse_serialize {} (h.fits a)
    (a.wrapHeader (a.setPorts seg)).pseudoCksum_lt (h.size_le.trans (by decide))
  refine ⟨⟨a.wrapHeader (a.setPorts seg), payload⟩, ?_, ?_⟩
  · rw [TCPOverIPv4Adapter.wrapTcpInIp, hpayload]
    rfl
  · exact ⟨a, hseg, h, _, _, hpayload, rfl, rfl⟩

end TCPSegment.Plain

namespace IPv4Datagram.Bears

/-- The header is one that can be written, and says how long the datagram is. -/
theorem header_fits (h : d.Bears segs) : d.header.Fits ∧
    d.header.len.toNat = 4 * d.header.hlen.toNat + d.payload.size := by
  obtain @⟨a, seg, hseg, hplain, ttl, cksum, payload, hpayload, hheader, hbytes⟩ := h
  have hfits := a.wrapHeader_fits (a.setPorts seg)
  have hsize : 20 + 4 * (a.setPorts seg).header.doff.toNat + (a.setPorts seg).payload.length ≤
      65535 := by
    have hle : 4 * (a.setPorts seg).header.doff.toNat + (a.setPorts seg).payload.length ≤ 1472 :=
      hplain.size_le
    omega
  rw [hheader]
  refine ⟨⟨hfits.ver, hfits.hlen_ge, hfits.hlen_lt, hfits.offset⟩, ?_⟩
  rw [BufferList.size_eq, hbytes, TCPSegment.length_serialize (hplain.fits a) hpayload]
  change (a.wrapHeader (a.setPorts seg)).len.toNat = 4 * 5 + _
  rw [a.wrapHeader_len (a.setPorts seg) hsize, Nat.add_assoc]

/-- So the serialiser does not throw. -/
theorem serializable (h : d.Bears segs) : d.Serializable := by
  obtain ⟨hfits, hlen⟩ := h.header_fits
  refine ⟨?_, hfits.ver, hfits.hlen_ge⟩
  rw [IPv4Header.payloadLength_toNat (by omega)]
  omega

/-- **A datagram that bears a segment goes over the wire**, and still bears it. -/
theorem parse (h : d.Bears segs) {ret : BufferList} (hret : d.serialize = .ok ret)
    {buffer : Buffer} (hbuffer : buffer.str = ret.concatenate) :
    ∃ d', ({} : InternetDatagram).parse buffer = (.noError, d') ∧ d'.Bears segs := by
  obtain ⟨hfits, hlen⟩ := h.header_fits
  rw [h.serializable.serialize_eq] at hret
  obtain rfl := Except.ok.inj hret
  rw [BufferList.concatenate_append, BufferList.concatenate_ofString] at hbuffer
  obtain ⟨b, hb, hparse⟩ := IPv4Datagram.parse_bytes {} hfits hlen hbuffer
  refine ⟨_, hparse, ?_⟩
  obtain ⟨a, hseg, hplain, ttl, cksum, hpayload, hheader, hbytes⟩ := h
  refine ⟨a, hseg, hplain, ttl, d.headerOut.cksum, hpayload, ?_, hb.trans hbytes⟩
  rw [IPv4Datagram.headerOut, hheader]
  rfl

/-- **Whoever unwraps it** gets one of the segments, or nothing. -/
theorem unwrap (h : d.Bears segs) {a a' : TCPOverIPv4Adapter}
    (hret : a.unwrapTcpInIp d = .ok (some seg, a')) : seg.Among segs := by
  obtain ⟨e, heq⟩ | heq | ⟨seg', ⟨-, buffer, hbuffer, hparse⟩, -, heq⟩ := a.unwrapTcpInIp_cases d
  · cases heq.symm.trans hret
  · cases heq.symm.trans hret
  obtain ⟨hseg', -⟩ := Prod.mk.inj (Except.ok.inj (heq.symm.trans hret))
  obtain rfl := Option.some.inj hseg'
  obtain @⟨b, sent, hsent, hplain, ttl, cksum, payload, hpayload, hheader, hbytes⟩ := h
  obtain ⟨payload', hpayload', hback⟩ := TCPSegment.parse_serialize {} (hplain.fits b)
    (b.wrapHeader (b.setPorts sent)).pseudoCksum_lt (hplain.size_le.trans (by decide))
  obtain rfl := Except.ok.inj (hpayload.symm.trans hpayload')
  have hstr : buffer.str = payload.concatenate := by
    rw [← hbytes]
    exact BufferList.str_of_toBuffer hbuffer
  have hsum : d.header.pseudoCksum = (b.wrapHeader (b.setPorts sent)).pseudoCksum := by
    rw [hheader]
    rfl
  rw [hsum, hback buffer hstr] at hparse
  obtain rfl := (Prod.mk.inj hparse).2
  exact ⟨sent, hsent, rfl⟩

end IPv4Datagram.Bears

end Bears

/-! ## What a socket relies on -/

/-- How packets are read from a device. -/
class PacketRead (δ : Type) where
  size : δ → ℕ
  /-- what a read asks for at most -/
  limit : ℕ
  /-- what it throws when it is given more -/
  excess : Exn

/-- A TUN or TAP device is read by `FileDescriptor::read`, without a limit of its own. -/
instance : PacketRead Bytes where
  size := List.length
  limit := min FDWrapper.bufferSize sizeMax
  excess := FDWrapper.readExcess

/-- A UDP socket is read by `recv`. -/
instance : PacketRead UDPDatagram where
  size datagram := datagram.payload.length
  limit := UDPSocket.mtu
  excess := UDPSocket.recvExcess

/-- **The exceptions that the kernel raises**: at the packet that is read, at a packet that is
written, or when it gives a packet that is larger than it was asked for. -/
inductive Raises {δ : Type} [PacketRead δ] (packet : Except Exn δ) (kernel : ℕ → Except Exn Unit) :
    Exn → Prop
  | read {e : Exn} (h : packet = .error e) : Raises packet kernel e
  | write {e : Exn} (n : ℕ) (h : kernel n = .error e) : Raises packet kernel e
  | excess {p : δ} (h : packet = .ok p) (hmore : PacketRead.limit δ < PacketRead.size p) :
    Raises packet kernel (PacketRead.excess δ)

/-- **An adapter that forges nothing.**  `Holds segs a` says that `a` has been given `segs` to write
and has kept or sent nothing else. -/
class Carrier (α : Type) {δ : outParam Type} [FdAdapter α δ] [PacketRead δ] where
  Holds : List TCPSegment → α → Prop
  mono {segs segs' : List TCPSegment} {a : α} : segs ⊆ segs' → Holds segs a → Holds segs' a
  setConfig {segs : List TCPSegment} {a : α} (cfg : FdAdapterConfig) : Holds segs a →
    Holds segs (FdAdapter.setConfig a cfg)
  setListening {segs : List TCPSegment} {a : α} (listening : Bool) : Holds segs a →
    Holds segs (FdAdapter.setListening a listening)
  genuine {segs : List TCPSegment} {a b b' : α} {p : δ} {kernel : ℕ → Except Exn Unit}
    {seg : TCPSegment} : Holds segs a → p ∈ (FdAdapter.device a).sent →
    FdAdapter.read b (.ok p) kernel = .ok (some seg, b') → seg.Among segs
  read {segs : List TCPSegment} {a a' : α} {packet : Except Exn δ} {kernel : ℕ → Except Exn Unit}
    {o : Option TCPSegment} : Holds segs a → FdAdapter.read a packet kernel = .ok (o, a') →
    Holds segs a'
  write {segs : List TCPSegment} {a a' : α} {seg : TCPSegment} {kernel : ℕ → Except Exn Unit} :
    Holds segs a → seg ∈ segs → seg.Plain → FdAdapter.write a seg kernel = .ok a' → Holds segs a'
  tick {segs : List TCPSegment} {a a' : α} {ms : ℕ} {kernel : ℕ → Except Exn Unit} :
    Holds segs a → FdAdapter.tick a ms kernel = .ok a' → Holds segs a'
  read_throws {segs : List TCPSegment} {a : α} {packet : Except Exn δ}
    {kernel : ℕ → Except Exn Unit} {e : Exn} : Holds segs a →
    FdAdapter.read a packet kernel = .error e → Raises packet kernel e
  write_throws {segs : List TCPSegment} {a : α} {seg : TCPSegment} {kernel : ℕ → Except Exn Unit}
    {e : Exn} : Holds segs a → seg.Plain → FdAdapter.write a seg kernel = .error e →
    ∃ n, kernel n = .error e
  tick_throws {segs : List TCPSegment} {a : α} {ms : ℕ} {kernel : ℕ → Except Exn Unit} {e : Exn} :
    Holds segs a → FdAdapter.tick a ms kernel = .error e → ∃ n, kernel n = .error e
  /-- a read is counted -/
  counts {a a' : α} {packet : Except Exn δ} {kernel : ℕ → Except Exn Unit}
    {o : Option TCPSegment} : FdAdapter.read a packet kernel = .ok (o, a') →
    (FdAdapter.device a').fd.readCount = (FdAdapter.device a).fd.readCount + 1

/-! ## A TUN device -/

section Devices

variable {δ : Type} {segs : List TCPSegment} {seg : TCPSegment} {o : Option TCPSegment}
  {kernel : ℕ → Except Exn Unit} {e : Exn} {d : InternetDatagram}

/-- What is read is what the kernel gave. -/
theorem FDWrapper.of_read {fd fd' : FDWrapper} {limit : ℕ} {answer : Except Exn Bytes} {str : Bytes}
    (h : fd.read limit answer = .ok (str, fd')) :
    answer = .ok str ∧ fd' = fd.afterRead limit str := by
  obtain ⟨e, -, heq⟩ | ⟨str', -, -, heq⟩ | ⟨str', rfl, -, heq⟩ := fd.read_cases limit answer
  · cases heq.symm.trans h
  · cases heq.symm.trans h
  · obtain ⟨rfl, rfl⟩ := Prod.mk.inj (Except.ok.inj (heq.symm.trans h))
    exact ⟨rfl, rfl⟩

/-- What a read of a packet throws is raised by the kernel. -/
theorem FDWrapper.raises_of_read {fd : FDWrapper} {answer : Except Exn Bytes}
    (h : fd.read sizeMax answer = .error e) : Raises answer kernel e := by
  obtain ⟨e', rfl, heq⟩ | ⟨str, hstr, hmore, heq⟩ | ⟨str, -, -, heq⟩ := fd.read_cases sizeMax answer
  · obtain rfl := Except.error.inj (heq.symm.trans h)
    exact .read rfl
  · obtain rfl := Except.error.inj (heq.symm.trans h)
    exact .excess hstr hmore
  · cases heq.symm.trans h

/-- A packet that is written is counted and sent. -/
theorem Device.of_write {dev dev' : Device δ} {p : δ} (h : dev.write p kernel = .ok dev') :
    dev' = { fd := dev.fd.registerWrite, sent := dev.sent ++ [p] } := by
  obtain ⟨_, -, hdev⟩ := Except.bind_eq_ok_iff.mp h
  exact (Except.ok.inj hdev).symm

/-- What a write of a packet throws is raised by the kernel. -/
theorem Device.write_error {dev : Device δ} {p : δ} (h : dev.write p kernel = .error e) :
    ∃ n, kernel n = .error e := by
  obtain herror | ⟨_, -, hok⟩ := Except.bind_eq_error_iff.mp h
  · exact ⟨_, herror⟩
  · cases hok

/-- A datagram in one piece is unwrapped without an exception. -/
theorem TCPOverIPv4Adapter.unwrapTcpInIp_returns (a : TCPOverIPv4Adapter) {buffer : Buffer}
    (hone : d.payload = .ofBuffer buffer) : ∃ r, a.unwrapTcpInIp d = .ok r := by
  have hbuffer : d.payload.toBuffer = .ok buffer := by
    rw [hone]
    rfl
  unfold unwrapTcpInIp
  rw [hbuffer]
  -- a chain of checks, each of which may end the call
  refine Except.exists_ok_ite (Except.exists_ok_ite (Except.exists_ok_ite ?_))
  exact Except.exists_ok_ite (Except.exists_ok_ite (Except.exists_ok_ite
    (Except.exists_ok_ite ⟨_, rfl⟩)))

namespace TCPOverIPv4OverTunFdAdapter

variable {a a' : TCPOverIPv4OverTunFdAdapter} {packet : Except Exn Bytes}

/-- **What a `read` that returns has done**: a segment, if there is one, was unwrapped from what the
kernel gave. -/
theorem of_read (h : a.read packet = .ok (o, a')) : ∃ str, packet = .ok str ∧
    a'.tun = { a.tun with fd := a.tun.fd.afterRead sizeMax str } ∧
    ∀ seg ∈ o, ∃ d base, ({} : InternetDatagram).parse (.ofString str) = (.noError, d) ∧
      a.unwrapTcpInIp d = .ok (some seg, base) := by
  obtain ⟨⟨str, fd⟩, hread, h⟩ := Except.bind_eq_ok_iff.mp h
  obtain ⟨rfl, rfl⟩ := FDWrapper.of_read hread
  refine ⟨str, rfl, ?_⟩
  dsimp only at h
  split at h
  · rename_i ipDgram hparse
    obtain ⟨⟨o', base⟩, hunwrap, h⟩ := Except.bind_eq_ok_iff.mp h
    obtain ⟨rfl, rfl⟩ := Prod.mk.inj (Except.ok.inj h)
    refine ⟨rfl, fun seg hseg => ⟨ipDgram, base, hparse, ?_⟩⟩
    obtain rfl : o' = some seg := hseg
    exact hunwrap
  · obtain ⟨rfl, rfl⟩ := Prod.mk.inj (Except.ok.inj h)
    exact ⟨rfl, by simp⟩

/-- What is read is in one piece, so unwrapping does not throw. -/
theorem raises_of_read (h : a.read packet = .error e) : Raises packet kernel e := by
  obtain hread | ⟨⟨str, fd⟩, -, h⟩ := Except.bind_eq_error_iff.mp h
  · exact FDWrapper.raises_of_read hread
  dsimp only at h
  split at h
  · rename_i ipDgram hparse
    obtain ⟨r, hr⟩ := a.unwrapTcpInIp_returns (d := ipDgram)
      (congrArg IPv4Datagram.payload (Prod.mk.inj hparse).2).symm
    rw [hr] at h
    cases h
  · cases h

/-- **What a `write` that returns has done**: a datagram that bears the segment was sent. -/
theorem of_write (hplain : seg.Plain) (hseg : seg ∈ segs) (h : a.write seg kernel = .ok a') :
    ∃ (d : InternetDatagram) (ret : BufferList), d.Bears segs ∧ d.serialize = .ok ret ∧
      a' = { a with tun :=
        { fd := a.tun.fd.registerWrite, sent := a.tun.sent ++ [ret.concatenate] } } := by
  obtain ⟨d, hwrap, hbears⟩ := hplain.wrap a.toTCPOverIPv4Adapter hseg
  obtain ⟨d', hwrap', h⟩ := Except.bind_eq_ok_iff.mp h
  obtain rfl := Except.ok.inj (hwrap.symm.trans hwrap')
  obtain ⟨ret, hret, h⟩ := Except.bind_eq_ok_iff.mp h
  obtain ⟨tun, htun, h⟩ := Except.bind_eq_ok_iff.mp h
  obtain rfl := Except.ok.inj h
  exact ⟨d, ret, hbears, hret, by rw [Device.of_write htun]⟩

/-- A plain segment is wrapped and serialised without an exception. -/
theorem write_error (hplain : seg.Plain) (h : a.write seg kernel = .error e) :
    ∃ n, kernel n = .error e := by
  obtain ⟨d, hwrap, hbears⟩ := hplain.wrap a.toTCPOverIPv4Adapter (List.mem_singleton_self seg)
  obtain hwrap' | ⟨d', hwrap', h⟩ := Except.bind_eq_error_iff.mp h
  · cases hwrap.symm.trans hwrap'
  obtain rfl := Except.ok.inj (hwrap.symm.trans hwrap')
  obtain hserial | ⟨ret, -, h⟩ := Except.bind_eq_error_iff.mp h
  · rw [hbears.serializable.serialize_eq] at hserial
    cases hserial
  obtain hwrite | ⟨tun, -, h⟩ := Except.bind_eq_error_iff.mp h
  · exact Device.write_error hwrite
  · cases h

/-- **A TUN device carries** what it is given. -/
instance : Carrier TCPOverIPv4OverTunFdAdapter where
  Holds segs a := ∀ p ∈ a.tun.sent, ∃ (d : InternetDatagram) (ret : BufferList),
    d.Bears segs ∧ d.serialize = .ok ret ∧ p = ret.concatenate
  mono hsub h p hp := by
    obtain ⟨d, ret, hbears, hret⟩ := h p hp
    exact ⟨d, ret, hbears.mono hsub, hret⟩
  setConfig _ h := h
  setListening _ h := h
  genuine h hp hread := by
    obtain ⟨d, ret, hbears, hret, rfl⟩ := h _ hp
    obtain ⟨str, hstr, -, hseg⟩ := of_read hread
    obtain rfl := Except.ok.inj hstr
    obtain ⟨d', base, hparse, hunwrap⟩ := hseg _ rfl
    obtain ⟨d'', hparse', hbears'⟩ := hbears.parse hret (Buffer.str_ofString _)
    obtain rfl := (Prod.mk.inj (hparse.symm.trans hparse')).2
    exact hbears'.unwrap hunwrap
  read h hread := by
    obtain ⟨str, -, htun, -⟩ := of_read hread
    rwa [htun]
  write h hseg hplain hwrite := by
    obtain ⟨d, ret, hbears, hret, rfl⟩ := of_write hplain hseg hwrite
    intro p hp
    rcases List.mem_append.mp hp with hold | hnew
    · exact h p hold
    · exact ⟨d, ret, hbears, hret, List.mem_singleton.mp hnew⟩
  tick h htick := Except.ok.inj htick ▸ h
  read_throws _ hread := raises_of_read hread
  write_throws _ hplain hwrite := write_error hplain hwrite
  tick_throws _ htick := by cases htick
  counts hread := by
    obtain ⟨str, -, htun, -⟩ := of_read hread
    exact congrArg (fun tun => tun.fd.readCount) htun

end TCPOverIPv4OverTunFdAdapter

/-! ## A UDP socket -/

namespace TCPOverUDPSocketAdapter

variable {a a' : TCPOverUDPSocketAdapter} {packet : Except Exn UDPDatagram}

/-- What is received is what the kernel gave. -/
theorem of_recv {fd fd' : FDWrapper} {datagram : UDPDatagram}
    (h : UDPSocket.recv fd packet = .ok (datagram, fd')) :
    packet = .ok datagram ∧ fd' = fd.registerRead := by
  obtain ⟨datagram', hpacket, h⟩ := Except.bind_eq_ok_iff.mp h
  split at h
  · cases h
  · obtain ⟨rfl, rfl⟩ := Prod.mk.inj (Except.ok.inj h)
    exact ⟨hpacket, rfl⟩

/-- **What a `read` that returns has done**: a segment, if there is one, was parsed from the payload
of the datagram that the kernel gave. -/
theorem of_read (h : a.read packet = .ok (o, a')) : ∃ datagram, packet = .ok datagram ∧
    a'.sock = { a.sock with fd := a.sock.fd.registerRead } ∧
    ∀ seg ∈ o, ({} : TCPSegment).parse (.ofString datagram.payload) 0 = (.noError, seg) := by
  obtain ⟨⟨datagram, fd⟩, hread, h⟩ := Except.bind_eq_ok_iff.mp h
  obtain ⟨rfl, rfl⟩ := of_recv hread
  refine ⟨datagram, rfl, ?_⟩
  dsimp only at h
  split at h
  · obtain ⟨rfl, rfl⟩ := Prod.mk.inj (Except.ok.inj h)
    exact ⟨rfl, by simp⟩
  split at h
  · rename_i seg hparse
    split at h
    · split at h <;> obtain ⟨rfl, rfl⟩ := Prod.mk.inj (Except.ok.inj h)
      · exact ⟨rfl, fun seg' hseg' => Option.some.inj hseg' ▸ hparse⟩
      · exact ⟨rfl, by simp⟩
    · obtain ⟨rfl, rfl⟩ := Prod.mk.inj (Except.ok.inj h)
      exact ⟨rfl, fun seg' hseg' => Option.some.inj hseg' ▸ hparse⟩
  · obtain ⟨rfl, rfl⟩ := Prod.mk.inj (Except.ok.inj h)
    exact ⟨rfl, by simp⟩

/-- Only the read itself throws. -/
theorem raises_of_read (h : a.read packet = .error e) : Raises packet kernel e := by
  obtain hread | ⟨⟨datagram, fd⟩, -, h⟩ := Except.bind_eq_error_iff.mp h
  · obtain hpacket | ⟨datagram, hpacket, hsize⟩ := Except.bind_eq_error_iff.mp hread
    · exact .read hpacket
    · split at hsize
      · rename_i hmore
        obtain rfl := Except.error.inj hsize
        exact .excess hpacket hmore
      · cases hsize
  dsimp only at h
  split at h
  · cases h
  split at h
  · split at h
    · split at h <;> cases h
    · cases h
  · cases h

/-- **A plain segment is serialised**, and parsed back but for its ports and its checksum. -/
theorem serialize_setPorts (a : TCPOverUDPSocketAdapter) (hplain : seg.Plain) :
    ∃ ret, (a.setPorts seg).serialize 0 = .ok ret ∧
      ∀ seg', ({} : TCPSegment).parse (.ofString ret.concatenate) 0 = (.noError, seg') →
        seg'.content = seg.content := by
  have hdoff : (a.setPorts seg).header.doff = 5 := hplain.doff
  have hfits : (a.setPorts seg).header.Fits := ⟨by rw [hdoff]; decide, by rw [hdoff]; decide⟩
  obtain ⟨ret, hret, hparse⟩ := TCPSegment.parse_serialize {} hfits (c := 0) (by decide)
    (hplain.size_le.trans (by decide))
  refine ⟨ret, hret, fun seg' hseg' => ?_⟩
  rw [hparse _ (Buffer.str_ofString _)] at hseg'
  obtain rfl := (Prod.mk.inj hseg').2
  rfl

/-- **A UDP socket carries** what it is given. -/
instance : Carrier TCPOverUDPSocketAdapter where
  Holds segs a := ∀ p ∈ a.sock.sent, ∀ seg : TCPSegment,
    ({} : TCPSegment).parse (.ofString p.payload) 0 = (.noError, seg) → seg.Among segs
  mono hsub h p hp seg hseg := (h p hp seg hseg).mono hsub
  setConfig _ h := h
  setListening _ h := h
  genuine h hp hread := by
    obtain ⟨datagram, hpacket, -, hseg⟩ := of_read hread
    obtain rfl := Except.ok.inj hpacket
    exact h _ hp _ (hseg _ rfl)
  read h hread := by
    obtain ⟨datagram, -, hsock, -⟩ := of_read hread
    rwa [hsock]
  write {segs a a' seg kernel} h hseg hplain hwrite := by
    obtain ⟨ret, hret, hback⟩ := serialize_setPorts a hplain
    obtain ⟨ret', hret', hwrite⟩ := Except.bind_eq_ok_iff.mp hwrite
    obtain rfl := Except.ok.inj (hret.symm.trans hret')
    obtain ⟨sock, hsock, hwrite⟩ := Except.bind_eq_ok_iff.mp hwrite
    obtain rfl := Except.ok.inj hwrite
    rw [Device.of_write hsock]
    intro p hp seg' hparse
    rcases List.mem_append.mp hp with hold | hnew
    · exact h p hold seg' hparse
    · rw [List.mem_singleton.mp hnew] at hparse
      exact ⟨seg, hseg, hback seg' hparse⟩
  tick h htick := Except.ok.inj htick ▸ h
  read_throws _ hread := raises_of_read hread
  write_throws {segs a seg kernel e} _ hplain hwrite := by
    obtain ⟨ret, hret, -⟩ := serialize_setPorts a hplain
    obtain hret' | ⟨ret', -, hwrite⟩ := Except.bind_eq_error_iff.mp hwrite
    · cases hret.symm.trans hret'
    obtain hsock | ⟨sock, -, hwrite⟩ := Except.bind_eq_error_iff.mp hwrite
    · exact Device.write_error hsock
    · cases hwrite
  tick_throws _ htick := by cases htick
  counts hread := by
    obtain ⟨datagram, -, hsock, -⟩ := of_read hread
    exact congrArg (fun sock => sock.fd.readCount) hsock

end TCPOverUDPSocketAdapter

/-! ## A TAP device -/

namespace TCPOverIPv4OverEthernetAdapter

variable {a a' : TCPOverIPv4OverEthernetAdapter} {packet : Except Exn Bytes}

/-- **What `send_pending` sends** are the frames that it pops. -/
theorem of_sendPending (h : a.sendPending kernel = .ok a') : ∃ tap popped,
    tap.sent = a.tap.sent ++
      (a.interface.framesOut.drop a.popped).map (fun f => f.serialize.concatenate) ∧
    tap.fd.readCount = a.tap.fd.readCount ∧ a' = { a with tap, popped } := by
  let sends (rest : List EthernetFrame) (b : TCPOverIPv4OverEthernetAdapter) : Prop :=
    ∃ tap popped, tap.sent ++ rest.map (fun f => f.serialize.concatenate) = a.tap.sent ++
        (a.interface.framesOut.drop a.popped).map (fun f => f.serialize.concatenate) ∧
      tap.fd.readCount = a.tap.fd.readCount ∧ b = { a with tap, popped }
  have hsent : sends [] a' := by
    refine Except.foldlM_ok (I := sends) ?_ ⟨a.tap, a.popped, rfl, rfl, rfl⟩ h
    rintro frame rest _ b' ⟨tap, popped, hsent, hcount, rfl⟩ hturn
    obtain ⟨tap', htap, hturn⟩ := Except.bind_eq_ok_iff.mp hturn
    obtain rfl := Except.ok.inj hturn
    obtain rfl := Device.of_write htap
    refine ⟨{ fd := tap.fd.registerWrite, sent := tap.sent ++ [frame.serialize.concatenate] },
      popped + 1, ?_, hcount, rfl⟩
    rw [← hsent, List.append_assoc]
    rfl
  obtain ⟨tap, popped, hsent, hcount, rfl⟩ := hsent
  exact ⟨tap, popped, by simpa using hsent, hcount, rfl⟩

/-- What it throws was raised at one of the frames. -/
theorem sendPending_error (h : a.sendPending kernel = .error e) : ∃ n, kernel n = .error e := by
  obtain ⟨frame, rest, b, -, hturn⟩ :=
    Except.foldlM_error (I := fun _ _ => True) (fun _ _ _ _ _ _ => trivial) trivial h
  obtain htap | ⟨tap, -, hturn⟩ := Except.bind_eq_error_iff.mp hturn
  · exact Device.write_error htap
  · cases hturn

/-- All that the adapter holds or has sent bears one of the segments. -/
structure Bears (segs : List TCPSegment) (a : TCPOverIPv4OverEthernetAdapter) : Prop where
  interface : a.interface.Only (IPv4Datagram.Bears segs)
  sent : ∀ p ∈ a.tap.sent, ∃ f : EthernetFrame, p = f.serialize.concatenate ∧
    NetworkInterface.OnlyIn (IPv4Datagram.Bears segs) f

/-- Sending what the interface has pushed keeps it so. -/
theorem Bears.sendPending (h : a.Bears segs) (hsend : a.sendPending kernel = .ok a') :
    a'.Bears segs ∧ a'.toTCPOverIPv4Adapter = a.toTCPOverIPv4Adapter ∧
      a'.tap.fd.readCount = a.tap.fd.readCount := by
  obtain ⟨tap, popped, hsent, hcount, rfl⟩ := of_sendPending hsend
  refine ⟨⟨h.interface, fun p hp => ?_⟩, rfl, hcount⟩
  rw [hsent] at hp
  rcases List.mem_append.mp hp with hold | hnew
  · exact h.sent p hold
  · obtain ⟨f, hf, rfl⟩ := List.mem_map.mp hnew
    exact ⟨f, rfl, h.interface.frames f (List.mem_of_mem_drop hf)⟩

/-- The adapter after `_tap.read()`. -/
def afterRead (a : TCPOverIPv4OverEthernetAdapter) (str : Bytes) : TCPOverIPv4OverEthernetAdapter :=
  { a with tap := { a.tap with fd := a.tap.fd.afterRead sizeMax str } }

/-- **What a `read` that returns has done**: the interface got the frame, what it had to send was
sent, and what it returned was unwrapped. -/
theorem of_read (h : a.read packet kernel = .ok (o, a')) : ∃ str, packet = .ok str ∧
    ((o = none ∧ a' = a.afterRead str) ∨
    ∃ frame ipDgram a₁, ({} : EthernetFrame).parse (.ofString str) = (.noError, frame) ∧
      (a.interface.recvFrame frame).2 = .ok ipDgram ∧
      { a.afterRead str with interface := (a.interface.recvFrame frame).1 }.sendPending kernel =
        .ok a₁ ∧
      ((o = none ∧ a' = a₁) ∨ ∃ d base, ipDgram = some d ∧ a₁.unwrapTcpInIp d = .ok (o, base) ∧
        a' = { a₁ with toTCPOverIPv4Adapter := base })) := by
  obtain ⟨⟨str, fd⟩, hread, h⟩ := Except.bind_eq_ok_iff.mp h
  obtain ⟨rfl, rfl⟩ := FDWrapper.of_read hread
  refine ⟨str, rfl, ?_⟩
  dsimp only at h
  split at h
  · rename_i frame hparse
    obtain ⟨ipDgram, hframe, h⟩ := Except.bind_eq_ok_iff.mp h
    obtain ⟨a₁, hsend, h⟩ := Except.bind_eq_ok_iff.mp h
    refine .inr ⟨frame, ipDgram, a₁, hparse, hframe, hsend, ?_⟩
    cases ipDgram with
    | none =>
      obtain ⟨rfl, rfl⟩ := Prod.mk.inj (Except.ok.inj h)
      exact .inl ⟨rfl, rfl⟩
    | some d =>
      obtain ⟨⟨o', base⟩, hunwrap, h⟩ := Except.bind_eq_ok_iff.mp h
      obtain ⟨rfl, rfl⟩ := Prod.mk.inj (Except.ok.inj h)
      exact .inr ⟨d, base, rfl, hunwrap, rfl⟩
  · obtain ⟨rfl, rfl⟩ := Prod.mk.inj (Except.ok.inj h)
    exact .inl ⟨rfl, rfl⟩

/-- The interface of an adapter that has read. -/
theorem Bears.recvFrame (h : a.Bears segs) (str : Bytes) (frame : EthernetFrame) :
    Bears segs { a.afterRead str with interface := (a.interface.recvFrame frame).1 } :=
  ⟨h.interface.recvFrame frame, h.sent⟩

/-- A read keeps it so, whatever frame comes. -/
theorem Bears.read (h : a.Bears segs) (hread : a.read packet kernel = .ok (o, a')) :
    a'.Bears segs := by
  obtain ⟨str, -, ⟨-, rfl⟩ | ⟨frame, ipDgram, a₁, -, -, hsend, hlast⟩⟩ := of_read hread
  · exact ⟨h.interface, h.sent⟩
  · obtain ⟨h₁, -, -⟩ := (h.recvFrame str frame).sendPending hsend
    obtain ⟨-, rfl⟩ | ⟨d, base, -, -, rfl⟩ := hlast
    · exact h₁
    · exact ⟨h₁.interface, h₁.sent⟩

/-- A read of the adapter is one read of the device. -/
theorem readCount_read (hread : a.read packet kernel = .ok (o, a')) :
    a'.tap.fd.readCount = a.tap.fd.readCount + 1 := by
  obtain ⟨str, -, ⟨-, rfl⟩ | ⟨frame, ipDgram, a₁, -, -, hsend, hlast⟩⟩ := of_read hread
  · rfl
  · obtain ⟨tap, popped, -, hcount, rfl⟩ := of_sendPending hsend
    obtain ⟨-, rfl⟩ | ⟨d, base, -, -, rfl⟩ := hlast <;> exact hcount

/-- **A frame that bears one of the segments** is read as one of them, or as nothing. -/
theorem among_of_read {b b' : TCPOverIPv4OverEthernetAdapter} {f : EthernetFrame}
    (hf : NetworkInterface.OnlyIn (IPv4Datagram.Bears segs) f)
    (hread : b.read (.ok f.serialize.concatenate) kernel = .ok (some seg, b')) :
    seg.Among segs := by
  obtain ⟨str, hstr, ⟨hnone, -⟩ | ⟨frame, ipDgram, b₁, hparse, hframe, -, hlast⟩⟩ := of_read hread
  · cases hnone
  obtain rfl := Except.ok.inj hstr
  obtain ⟨hnone, -⟩ | ⟨d, base, rfl, hunwrap, -⟩ := hlast
  · cases hnone
  -- the frame that is parsed has the header of `f` and the bytes of its payload
  obtain ⟨buffer, hbuffer, hback⟩ := EthernetFrame.parse_serialize {} f
  obtain rfl := (Prod.mk.inj (hparse.symm.trans hback)).2
  obtain ⟨htype, buffer', hbuffer', hd⟩ := NetworkInterface.of_recvFrame hframe
  obtain rfl : buffer = buffer' := Except.ok.inj hbuffer'
  obtain ⟨dgram, hbears, hret⟩ := hf htype
  obtain ⟨d', hd', hbears'⟩ := hbears.parse hret hbuffer
  obtain rfl := (Prod.mk.inj (hd.symm.trans hd')).2
  exact hbears'.unwrap hunwrap

/-- No frame makes the interface throw, as all that waits in it can be serialised. -/
theorem Bears.raises_of_read (h : a.Bears segs) (hread : a.read packet kernel = .error e) :
    Raises packet kernel e := by
  obtain hstr | ⟨⟨str, fd⟩, hstr, hread⟩ := Except.bind_eq_error_iff.mp hread
  · exact FDWrapper.raises_of_read hstr
  obtain ⟨-, rfl⟩ := FDWrapper.of_read hstr
  dsimp only at hread
  split at hread
  · rename_i frame hparse
    obtain ⟨buffer, hbuffer⟩ : ∃ buffer, frame.payload.toBuffer = .ok buffer := by
      rw [← (Prod.mk.inj hparse).2]
      exact ⟨_, rfl⟩
    obtain ⟨o, ho⟩ := (h.interface.mono fun _ hd => hd.serializable).recvFrame_ok hbuffer
    obtain hframe | ⟨ipDgram, hframe, hread⟩ := Except.bind_eq_error_iff.mp hread
    · cases ho.symm.trans hframe
    obtain hsend | ⟨a₁, hsend, hread⟩ := Except.bind_eq_error_iff.mp hread
    · obtain ⟨n, hn⟩ := sendPending_error hsend
      exact .write n hn
    cases ipDgram with
    | none => cases hread
    | some d =>
      obtain ⟨-, buffer, -, hd⟩ := NetworkInterface.of_recvFrame hframe
      obtain ⟨r, hr⟩ := a₁.unwrapTcpInIp_returns (d := d)
        (congrArg IPv4Datagram.payload (Prod.mk.inj hd).2).symm
      obtain hunwrap | ⟨_, -, hread⟩ := Except.bind_eq_error_iff.mp hread
      · cases hr.symm.trans hunwrap
      · cases hread
  · cases hread

/-- A write keeps it so, whether the datagram is sent or waits. -/
theorem Bears.write (h : a.Bears segs) (hseg : seg ∈ segs) (hplain : seg.Plain)
    (hwrite : a.write seg kernel = .ok a') : a'.Bears segs := by
  obtain ⟨d, hwrap, hbears⟩ := hplain.wrap a.toTCPOverIPv4Adapter hseg
  obtain ⟨d', hwrap', hwrite⟩ := Except.bind_eq_ok_iff.mp hwrite
  obtain rfl := Except.ok.inj (hwrap.symm.trans hwrap')
  obtain ⟨_, -, hsend⟩ := Except.bind_eq_ok_iff.mp hwrite
  have hinterface : Bears segs
      { a with interface := (a.interface.sendDatagram d a.nextHop).1 } :=
    ⟨h.interface.sendDatagram hbears _, h.sent⟩
  exact (hinterface.sendPending hsend).1

/-- A plain segment is wrapped, and its datagram is sent or waits, without an exception. -/
theorem write_error (hplain : seg.Plain) (hwrite : a.write seg kernel = .error e) :
    ∃ n, kernel n = .error e := by
  obtain ⟨d, hwrap, hbears⟩ := hplain.wrap a.toTCPOverIPv4Adapter (List.mem_singleton_self seg)
  obtain hwrap' | ⟨d', hwrap', hwrite⟩ := Except.bind_eq_error_iff.mp hwrite
  · cases hwrap.symm.trans hwrap'
  obtain rfl := Except.ok.inj (hwrap.symm.trans hwrap')
  obtain hdgram | ⟨_, -, hsend⟩ := Except.bind_eq_error_iff.mp hwrite
  · cases (NetworkInterface.sendDatagram_ok hbears.serializable a.nextHop).symm.trans hdgram
  · exact sendPending_error hsend

/-- **A TAP device carries** what it is given, as soon as the address of the next hop is known. -/
instance : Carrier TCPOverIPv4OverEthernetAdapter where
  Holds := Bears
  mono hsub h :=
    ⟨h.interface.mono fun _ hd => hd.mono hsub, fun p hp =>
      (h.sent p hp).imp fun _ hf => ⟨hf.1, hf.2.mono fun _ hd => hd.mono hsub⟩⟩
  setConfig _ h := ⟨h.interface, h.sent⟩
  setListening _ h := ⟨h.interface, h.sent⟩
  genuine h hp hread := by
    obtain ⟨f, rfl, hf⟩ := h.sent _ hp
    exact among_of_read hf hread
  read h hread := h.read hread
  write h hseg hplain hwrite := h.write hseg hplain hwrite
  tick {segs a a' ms kernel} h htick := by
    have hinterface : Bears segs { a with interface := a.interface.tick ms } :=
      ⟨h.interface.tick ms, h.sent⟩
    exact (hinterface.sendPending htick).1
  read_throws h hread := h.raises_of_read hread
  write_throws _ hplain hwrite := write_error hplain hwrite
  tick_throws _ htick := sendPending_error htick
  counts hread := readCount_read hread

/-- A new adapter holds nothing; its first frame is for nobody. -/
theorem bears_new {tap : Device Bytes} {ethAddress : EthernetAddress} {ipAddress nextHop : Address}
    (hsent : tap.sent = []) (h : new tap ethAddress ipAddress nextHop kernel = .ok a) :
    a.Bears [] := by
  obtain ⟨tap', htap, h⟩ := Except.bind_eq_ok_iff.mp h
  obtain rfl := Except.ok.inj h
  obtain rfl := Device.of_write htap
  refine ⟨.new _ _ _, fun p hp => ⟨{}, ?_, fun htype => by cases htype⟩⟩
  rw [hsent, List.nil_append] at hp
  exact List.mem_singleton.mp hp

end TCPOverIPv4OverEthernetAdapter

/-! ## Loss -/

namespace LossyFdAdapter

variable {α : Type} [FdAdapter α δ]

/-- A draw leaves the adapter as it is. -/
theorem shouldDrop_snd (a : LossyFdAdapter α) (uplink : Bool) :
    (a.shouldDrop uplink).2.adapter = a.adapter := by
  unfold shouldDrop
  generalize (if uplink then a.lossRateUp else a.lossRateDn) = loss
  dsimp only
  split <;> rfl

/-- What is read is dropped, or returned as it is. -/
theorem of_read {a a' : LossyFdAdapter α} {packet : Except Exn δ}
    (h : a.read packet kernel = .ok (o, a')) : ∃ ret,
      FdAdapter.read a.adapter packet kernel = .ok (ret, a'.adapter) ∧ (o = ret ∨ o = none) := by
  obtain ⟨⟨ret, adapter⟩, hread, h⟩ := Except.bind_eq_ok_iff.mp h
  have hsnd := shouldDrop_snd { a with adapter } false
  dsimp only at h
  generalize shouldDrop { a with adapter } false = r at h hsnd
  obtain ⟨rfl, rfl⟩ := Prod.mk.inj (Except.ok.inj h)
  refine ⟨ret, by rw [hsnd]; exact hread, ?_⟩
  split <;> simp

/-- A segment is dropped, or written. -/
theorem of_write {a a' : LossyFdAdapter α} (h : a.write seg kernel = .ok a') :
    a'.adapter = a.adapter ∨ FdAdapter.write a.adapter seg kernel = .ok a'.adapter := by
  have hsnd := a.shouldDrop_snd true
  rw [write] at h
  split at h
  · rename_i a₁ hdrop
    obtain rfl := Except.ok.inj h
    rw [hdrop] at hsnd
    exact .inl hsnd
  · rename_i a₁ hdrop
    obtain ⟨adapter, hwrite, h⟩ := Except.bind_eq_ok_iff.mp h
    obtain rfl := Except.ok.inj h
    rw [hdrop] at hsnd
    rw [hsnd] at hwrite
    exact .inr hwrite

/-- Only the adapter throws. -/
theorem write_error {a : LossyFdAdapter α} (h : a.write seg kernel = .error e) :
    FdAdapter.write a.adapter seg kernel = .error e := by
  have hsnd := a.shouldDrop_snd true
  rw [write] at h
  split at h
  · cases h
  · rename_i a₁ hdrop
    rw [hdrop] at hsnd
    obtain hwrite | ⟨adapter, -, h⟩ := Except.bind_eq_error_iff.mp h
    · rwa [hsnd] at hwrite
    · cases h

/-- **An adapter that drops carries** what it does not drop. -/
instance [PacketRead δ] [Carrier α] : Carrier (LossyFdAdapter α) where
  Holds segs a := Carrier.Holds segs a.adapter
  mono hsub h := Carrier.mono hsub h
  setConfig cfg h := Carrier.setConfig cfg h
  setListening listening h := Carrier.setListening listening h
  genuine h hp hread := by
    obtain ⟨ret, hret, rfl | hnone⟩ := of_read hread
    · exact Carrier.genuine h hp hret
    · cases hnone
  read h hread := by
    obtain ⟨ret, hret, -⟩ := of_read hread
    exact Carrier.read h hret
  write h hseg hplain hwrite := by
    obtain hsame | hwrite := of_write hwrite
    · rwa [hsame]
    · exact Carrier.write h hseg hplain hwrite
  tick h htick := by
    obtain ⟨adapter, hadapter, htick⟩ := Except.bind_eq_ok_iff.mp htick
    obtain rfl := Except.ok.inj htick
    exact Carrier.tick h hadapter
  read_throws h hread := by
    obtain hread | ⟨⟨ret, adapter⟩, -, hread⟩ := Except.bind_eq_error_iff.mp hread
    · exact Carrier.read_throws h hread
    · cases hread
  write_throws h hplain hwrite := Carrier.write_throws h hplain (write_error hwrite)
  tick_throws h htick := by
    obtain htick | ⟨adapter, -, htick⟩ := Except.bind_eq_error_iff.mp htick
    · exact Carrier.tick_throws h htick
    · cases htick
  counts hread := by
    obtain ⟨ret, hret, -⟩ := of_read hread
    have hcount := Carrier.counts hret
    exact hcount

end LossyFdAdapter

end Devices
