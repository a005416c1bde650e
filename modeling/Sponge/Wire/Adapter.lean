import Sponge.Lib.Reach
import Sponge.Wire.IPv4
import Sponge.Wire.TCP

/-!
# Wire/Adapter — TCP segments in Internet datagrams

`tcp_over_ip.cc`, `fd_adapter.hh`.  The sender takes the pseudo-header's part of the checksum from
the header it builds, the receiver from the header it has parsed.  The two agree, so between
adapters that are set up for each other a segment survives the whole stack
(`TCPOverIPv4Adapter.encapsulation_round_trip`).

An adapter lets through the segments of one connection: its own, or the first that a peer opens
while it listens (`TCPOverIPv4Adapter.connection_filter`).
-/

/-- Config for an adapter; the loss rates, which only `LossyFdAdapter` reads, are left out. -/
structure FdAdapterConfig where
  source : Address := {}
  destination : Address := {}
  deriving DecidableEq, Repr

structure TCPOverIPv4Adapter where
  cfg : FdAdapterConfig := {}
  listening : Bool := false
  deriving DecidableEq, Repr

namespace TCPOverIPv4Adapter

/-- `unwrap_tcp_in_ip`: the segment, if the datagram holds one for this connection, and the adapter
after the call.  It throws if the payload is in several pieces. -/
def unwrapTcpInIp (a : TCPOverIPv4Adapter) (ipDgram : InternetDatagram) :
    Except Exn (Option TCPSegment × TCPOverIPv4Adapter) :=
  -- is the datagram for us, is it from our peer, does it say that it holds a segment?
  if a.listening = false ∧ ipDgram.header.dst ≠ a.cfg.source.ipv4Numeric then .ok (none, a)
  else if a.listening = false ∧ ipDgram.header.src ≠ a.cfg.destination.ipv4Numeric then
    .ok (none, a)
  else if ipDgram.header.proto ≠ IPv4Header.protoTCP then .ok (none, a)
  else do
    let buffer ← ipDgram.payload.toBuffer
    let (result, tcpSeg) := ({} : TCPSegment).parse buffer ipDgram.header.pseudoCksum
    if result ≠ .noError then .ok (none, a)
    else if tcpSeg.header.dport ≠ a.cfg.source.port then .ok (none, a)
    else if a.listening = true ∧ ¬ (tcpSeg.header.syn = true ∧ tcpSeg.header.rst = false) then
      .ok (none, a)
    else
      -- a listening adapter takes the other end of the SYN as its peer
      let a := if a.listening = true then
        { cfg := { source := ⟨ipDgram.header.dst, a.cfg.source.port⟩,
                   destination := ⟨ipDgram.header.src, tcpSeg.header.sport⟩ },
          listening := false }
        else a
      if tcpSeg.header.sport ≠ a.cfg.destination.port then .ok (none, a)
      else .ok (some tcpSeg, a)

/-- The ports that `wrap_tcp_in_ip` sets in the caller's segment. -/
def setPorts (a : TCPOverIPv4Adapter) (seg : TCPSegment) : TCPSegment :=
  { seg with header := { seg.header with
      sport := a.cfg.source.port, dport := a.cfg.destination.port } }

/-- The header of the datagram that `wrap_tcp_in_ip` builds. -/
def wrapHeader (a : TCPOverIPv4Adapter) (seg : TCPSegment) : IPv4Header :=
  let header : IPv4Header :=
    { src := a.cfg.source.ipv4Numeric, dst := a.cfg.destination.ipv4Numeric }
  let len := header.hlen.toNat * 4 + seg.header.doff.toNat * 4 + seg.payload.length
  { header with len := UInt16.ofNat len }

/-- `wrap_tcp_in_ip`; the caller's segment is left as `setPorts` makes it. -/
def wrapTcpInIp (a : TCPOverIPv4Adapter) (seg : TCPSegment) : Except Exn InternetDatagram := do
  let seg := a.setPorts seg
  let header := a.wrapHeader seg
  -- the checksum of the segment uses the addresses and the length of the datagram
  let payload ← seg.serialize header.pseudoCksum
  return { header, payload }

end TCPOverIPv4Adapter

/-! ## The round trip -/

/-- The pseudo-header is five words and a byte. -/
theorem IPv4Header.pseudoCksum_lt (h : IPv4Header) : h.pseudoCksum.toNat < 2 ^ 20 := by
  have hhigh : ∀ x : UInt32, (x >>> 16).toNat < 2 ^ 16 := by
    intro x
    have hx := x.toNat_lt
    rw [UInt32.toNat_shiftRight, Nat.shiftRight_eq_div_pow]
    exact Nat.div_lt_of_lt_mul (by simpa using hx)
  have hlow : ∀ x : UInt32, (x &&& 0xffff).toNat < 2 ^ 16 := by
    intro x
    rw [UInt32.toNat_and]
    exact Nat.and_lt_two_pow _ (by decide)
  have hsrc := hhigh h.src
  have hsrc' := hlow h.src
  have hdst := hhigh h.dst
  have hdst' := hlow h.dst
  have hproto := h.proto.toNat_lt
  have hlen := h.payloadLength.toNat_lt
  simp only [pseudoCksum, UInt32.toNat_add, UInt8.toNat_toUInt32, UInt16.toNat_toUInt32]
  omega

namespace TCPOverIPv4Adapter

variable {a b : TCPOverIPv4Adapter} {seg : TCPSegment}

/-- The length of the datagram is not truncated. -/
theorem wrapHeader_len (a : TCPOverIPv4Adapter) (seg : TCPSegment)
    (hsize : 20 + 4 * seg.header.doff.toNat + seg.payload.length ≤ 65535) :
    (a.wrapHeader seg).len.toNat = 20 + 4 * seg.header.doff.toNat + seg.payload.length := by
  have hlen : (a.wrapHeader seg).len.toNat =
      (5 * 4 + seg.header.doff.toNat * 4 + seg.payload.length) % 2 ^ 16 := UInt16.toNat_ofNat'
  rw [hlen]
  omega

theorem wrapHeader_fits (a : TCPOverIPv4Adapter) (seg : TCPSegment) : (a.wrapHeader seg).Fits :=
  ⟨rfl, le_refl 5, show 5 < 16 by decide, Nat.two_pow_pos 13⟩

/-- The two ends of the connection that a segment belongs to, as its receiver sees them. -/
def endpoints (d : InternetDatagram) (seg : TCPSegment) : FdAdapterConfig where
  source := ⟨d.header.dst, seg.header.dport⟩
  destination := ⟨d.header.src, seg.header.sport⟩

/-- The datagram says that it holds a segment, and it holds a valid one. -/
def Holds (d : InternetDatagram) (seg : TCPSegment) : Prop :=
  d.header.proto = IPv4Header.protoTCP ∧ ∃ buffer, d.payload.toBuffer = .ok buffer ∧
    ({} : TCPSegment).parse buffer d.header.pseudoCksum = (.noError, seg)

/-- **What `unwrap_tcp_in_ip` does**: it throws, or returns nothing and leaves the adapter alone, or
returns a segment to whose ends the adapter is then set. -/
theorem unwrapTcpInIp_cases (a : TCPOverIPv4Adapter) (d : InternetDatagram) :
    (∃ e, a.unwrapTcpInIp d = .error e) ∨ a.unwrapTcpInIp d = .ok (none, a) ∨
    ∃ seg, Holds d seg ∧ (a.listening = false → a.cfg = endpoints d seg) ∧
      a.unwrapTcpInIp d = .ok (some seg, { cfg := endpoints d seg, listening := false }) := by
  generalize hr : a.unwrapTcpInIp d = r
  unfold unwrapTcpInIp at hr
  split at hr
  · exact .inr (.inl hr.symm)
  rename_i hdst
  split at hr
  · exact .inr (.inl hr.symm)
  rename_i hsrc
  split at hr
  · exact .inr (.inl hr.symm)
  rename_i hproto
  cases hbuffer : d.payload.toBuffer with
  | error e => exact .inl ⟨e, by rw [← hr, hbuffer]; rfl⟩
  | ok buffer =>
    obtain ⟨result, seg, hparse⟩ : ∃ result seg,
      ({} : TCPSegment).parse buffer d.header.pseudoCksum = (result, seg) := ⟨_, _, rfl⟩
    simp only [bind, Except.bind, hbuffer, hparse] at hr
    split at hr
    · exact .inr (.inl hr.symm)
    rename_i hresult
    split at hr
    · exact .inr (.inl hr.symm)
    rename_i hdport
    split at hr
    · exact .inr (.inl hr.symm)
    have hholds : Holds d seg := ⟨not_not.mp hproto, buffer, hbuffer, not_not.mp hresult ▸ hparse⟩
    obtain ⟨cfg, listening⟩ := a
    cases listening with
    | true =>
      simp only [if_true, ne_eq, not_true, if_false] at hr
      refine .inr (.inr ⟨seg, hholds, nofun, ?_⟩)
      rw [← hr, endpoints, not_not.mp hdport]
    | false =>
      simp only [Bool.false_eq_true, if_false] at hr
      split at hr
      · exact .inr (.inl hr.symm)
      rename_i hsport
      simp only [true_and, not_not] at hdst hsrc hdport hsport
      have hcfg : cfg = endpoints d seg := by rw [endpoints, hdst, hsrc, hdport, hsport]
      exact .inr (.inr ⟨seg, hholds, fun _ => hcfg, by rw [← hr, hcfg]⟩)

end TCPOverIPv4Adapter

inductive AdapterCall
  | unwrapTcpInIp (ipDgram : InternetDatagram)
  | wrapTcpInIp (seg : TCPSegment)
  | setListening (l : Bool)
  deriving DecidableEq, Repr

/-- **A run of an adapter**, with the segments it returned and the datagrams they came in. -/
structure AdapterRun where
  adapter : TCPOverIPv4Adapter
  returned : List (InternetDatagram × TCPSegment) := []
  deriving DecidableEq, Repr

namespace AdapterRun

def step (w : AdapterRun) : AdapterCall → Option AdapterRun
  | .unwrapTcpInIp ipDgram =>
    match w.adapter.unwrapTcpInIp ipDgram with
    -- it throws before it has changed anything
    | .error _ => some w
    | .ok (none, adapter) => some { w with adapter }
    | .ok (some seg, adapter) => some { adapter, returned := w.returned ++ [(ipDgram, seg)] }
  | .wrapTcpInIp _ => some w
  | .setListening l => some { w with adapter := { w.adapter with listening := l } }

/-- Nobody calls `set_listening`. -/
def Undisturbed (_ : AdapterRun) : AdapterCall → Prop
  | .setListening _ => False
  | _ => True

instance (w : AdapterRun) (c : AdapterCall) : Decidable (w.Undisturbed c) := by
  unfold Undisturbed
  split <;> infer_instance

/-- **Set to one connection**: the adapter does not listen, and what it returned was for the ends in
its config. -/
structure Pinned (cfg : FdAdapterConfig) (w : AdapterRun) : Prop where
  adapter : w.adapter = { cfg, listening := false }
  returned : ∀ r ∈ w.returned, TCPOverIPv4Adapter.endpoints r.1 r.2 = cfg

/-- **A call keeps an adapter to its connection.** -/
theorem Pinned.step {cfg : FdAdapterConfig} {w w' : AdapterRun} {c : AdapterCall}
    (h : w.Pinned cfg) (hc : w.Undisturbed c) (hstep : w.step c = some w') : w'.Pinned cfg := by
  cases c with
  | setListening l => exact hc.elim
  | wrapTcpInIp seg =>
    obtain rfl := Option.some.inj hstep
    exact h
  | unwrapTcpInIp d =>
    simp only [AdapterRun.step] at hstep
    obtain ⟨e, heq⟩ | heq | ⟨seg, -, hcfg, heq⟩ := w.adapter.unwrapTcpInIp_cases d
    · rw [heq] at hstep
      obtain rfl := Option.some.inj hstep
      exact h
    · rw [heq] at hstep
      obtain rfl := Option.some.inj hstep
      exact h
    · rw [heq] at hstep
      obtain rfl := Option.some.inj hstep
      have hends : cfg = TCPOverIPv4Adapter.endpoints d seg := by
        have hsame := hcfg (by rw [h.adapter])
        rwa [h.adapter] at hsame
      refine ⟨by rw [← hends], List.forall_mem_append.mpr ⟨h.returned, ?_⟩⟩
      exact List.forall_mem_singleton.mpr hends.symm

end AdapterRun

namespace TCPOverIPv4Adapter

/-- **An adapter lets through one connection.**  A call that returns nothing leaves the adapter as
it was.  One that returns a segment was given a datagram with a valid segment, and leaves the
adapter not listening and set to the ends of that segment; from then on, unless it is told to listen
again, the adapter stays as it is and returns only segments with the same ends. -/
theorem connection_filter (a : TCPOverIPv4Adapter) (d : InternetDatagram) :
    (∀ a', a.unwrapTcpInIp d = .ok (none, a') → a' = a) ∧
    ∀ seg a', a.unwrapTcpInIp d = .ok (some seg, a') →
      Holds d seg ∧ a'.listening = false ∧ a'.cfg = endpoints d seg ∧
      ∀ w, Reach AdapterRun.step AdapterRun.Undisturbed { adapter := a' } w →
        w.adapter = a' ∧ ∀ r ∈ w.returned, endpoints r.1 r.2 = endpoints d seg := by
  obtain ⟨e, heq⟩ | heq | ⟨seg, hholds, -, heq⟩ := a.unwrapTcpInIp_cases d
  · rw [heq]
    refine ⟨fun a' h => ?_, fun seg a' h => ?_⟩
    · cases h
    · cases h
  · rw [heq]
    refine ⟨fun a' h => ?_, fun seg a' h => ?_⟩
    · cases h
      rfl
    · cases h
  · rw [heq]
    refine ⟨fun a' h => ?_, fun seg' a' h => ?_⟩
    · cases h
    · cases h
      refine ⟨hholds, rfl, rfl, fun w hw => ?_⟩
      have hpinned : w.Pinned (endpoints d seg) :=
        hw.invariant (I := AdapterRun.Pinned _) ⟨rfl, by simp⟩
          fun _ _ _ ih hc hstep => ih.step hc hstep
      exact ⟨hpinned.adapter, hpinned.returned⟩

/-- A SYN reaches a listening adapter. -/
theorem connection_filter_syn :
    let d : InternetDatagram :=
      { header := { src := 0x0a000001, dst := 0x0a000002, len := 40 }
        payload := .ofString
          [4, 0, 0, 80, 0, 0, 0, 0, 0, 0, 0, 0, 0x50, 2, 0, 0, 151, 144, 0, 0] }
    ∃ seg a', unwrapTcpInIp { cfg := { source := ⟨0, 80⟩ }, listening := true } d =
        .ok (some seg, a') ∧ seg.header.syn = true ∧
      a'.cfg = { source := ⟨0x0a000002, 80⟩, destination := ⟨0x0a000001, 1024⟩ } := by
  intro d
  have hrun : unwrapTcpInIp { cfg := { source := ⟨0, 80⟩ }, listening := true } d =
      .ok (some
          { header := { sport := 1024, dport := 80, doff := 5, syn := true, cksum := 38800 } },
        { cfg := { source := ⟨0x0a000002, 80⟩, destination := ⟨0x0a000001, 1024⟩ } }) := by decide
  exact ⟨_, _, hrun, rfl, ((connection_filter _ d).2 _ _ hrun).2.2.1⟩

end TCPOverIPv4Adapter
