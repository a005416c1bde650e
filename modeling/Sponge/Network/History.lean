import Sponge.Lib.TimedLog
import Sponge.Network.Emission

/-!
# Network/History — the ARP traffic of a run

Runs of one interface under any calls, with the log of their ARP traffic: the requests that
`send_datagram` emits and the messages that `recv_frame` accepts, each at the milliseconds ticked
by then.  `_map` forgets an address only when it is looked up, and any message overwrites it; still
it is known from the log and the clock alone, and so is `_arp_pending_ip` (`ArpRun.Tracks`).

* `ArpRun.cache_fresh` — a datagram goes out at once exactly if the last message from its next hop
  is at most thirty seconds old.
* `ArpRun.request_rate` — requests for one address are more than five seconds apart, and are not
  withheld any longer than that.

The clock is a `size_t`: when it comes round, an old request looks new
(`ArpRun.clock_comes_round`).
-/

open Word64 TimedLog

/-! ## Events -/

/-- The address that a frame asks for, if it is an ARP request. -/
def EthernetFrame.asksFor (f : EthernetFrame) : Option UInt32 :=
  if f.header.type = EthernetHeader.typeARP then
    match f.payload.toBuffer.map ({} : ARPMessage).parse with
    | .ok (.noError, amsg) =>
      if amsg.opcode = ARPMessage.opcodeRequest then some amsg.targetIpAddress else none
    | _ => none
  else none

inductive ArpEvent
  | requested (ip : UInt32)
  | heard (amsg : ARPMessage)
  deriving DecidableEq, Repr

namespace ArpEvent

/-- A request for the address of `a`. -/
def Asks (a : UInt32) (e : ArpEvent) : Prop := e = .requested a

/-- A message from `a`. -/
def Tells (a : UInt32) : ArpEvent → Prop
  | .requested _ => False
  | .heard amsg => amsg.senderIpAddress = a

instance (a : UInt32) : DecidablePred (Asks a) := fun e => inferInstanceAs (Decidable (e = _))

instance (a : UInt32) : DecidablePred (Tells a)
  | .requested _ => inferInstanceAs (Decidable False)
  | .heard amsg => inferInstanceAs (Decidable (amsg.senderIpAddress = a))

variable {a : UInt32} {e : ArpEvent} {log : List (ℕ × ArpEvent)} {t : ℕ}

theorem Asks.not_tells (h : Asks a e) : ¬ Tells a e := by
  subst h
  exact id

variable (a) in
/-- When the request for `a` was sent that no message from `a` has answered. -/
def openRequest (log : List (ℕ × ArpEvent)) : Option ℕ :=
  (latest (fun e => Asks a e ∨ Tells a e) log).bind fun e =>
    if Asks a e.2 then some e.1 else none

theorem openRequest_of_asks : openRequest a ((t, .requested a) :: log) = some t := by
  rw [openRequest, latest_cons_of_pos (.inl rfl)]
  exact if_pos rfl

theorem openRequest_of_tells (h : Tells a e) : openRequest a ((t, e) :: log) = none := by
  rw [openRequest, latest_cons_of_pos (.inr h)]
  exact if_neg fun hasks => hasks.not_tells h

theorem openRequest_of_other (hasks : ¬ Asks a e) (htells : ¬ Tells a e) :
    openRequest a ((t, e) :: log) = openRequest a log := by
  rw [openRequest, latest_cons_of_neg (p := fun e => Asks a e ∨ Tells a e)
    (not_or.mpr ⟨hasks, htells⟩)]
  rfl

/-- **Nothing has come from `a` since** the open request. -/
theorem openRequest_eq_some (h : openRequest a log = some t) : ∃ newer older,
    log = newer ++ (t, .requested a) :: older ∧ ∀ e ∈ newer, ¬ Tells a e.2 := by
  obtain ⟨⟨t', e⟩, hlatest, hopen⟩ := Option.bind_eq_some_iff.mp h
  split_ifs at hopen with hasks
  obtain rfl := Option.some.inj hopen
  obtain rfl : e = .requested a := hasks
  obtain ⟨-, newer, older, hlog, hnewer⟩ := latest_eq_some_iff.mp hlatest
  exact ⟨newer, older, hlog, fun e he => (not_or.mp (hnewer e he)).2⟩

end ArpEvent

open ArpEvent

/-! ## What a call does about addresses -/

namespace NetworkInterface

variable {i : NetworkInterface} {d : InternetDatagram} {nextHop : Address}

/-- **The ARP events of a call**: the requests that `send_datagram` emits, and the message that
`recv_frame` accepts. -/
def arpEvents (i : NetworkInterface) : InterfaceCall → List ArpEvent
  | .sendDatagram dgram nextHop =>
    (((i.sendDatagram dgram nextHop).1.framesOut.drop i.framesOut.length).filterMap
      EthernetFrame.asksFor).map .requested
  | .recvFrame frame => (i.heard frame).toList.map .heard
  | .tick _ => []

/-- **`send_datagram` asks for `ip`**: there is no address for it, and no recent request. -/
def Asking (i : NetworkInterface) (ip : UInt32) : Prop :=
  (i.map ip).2 = zeroAddress ∧ ∀ stamp ∈ i.arpPendingIp ip, arpTTL < sub64 i.time stamp

theorem asksFor_arpFrame (i : NetworkInterface) (dst : EthernetAddress) (ip : UInt32) :
    (i.arpFrame dst (i.request ip)).asksFor = some ip := by
  have hparse : ({} : ARPMessage).parse (.ofString (i.request ip).fields) =
      (.noError, i.request ip) := ARPMessage.parse_serialize _ rfl List.prefix_rfl
  have hbuffer : (BufferList.ofString (i.request ip).fields).toBuffer =
    .ok (.ofString (i.request ip).fields) := rfl
  simp only [EthernetFrame.asksFor, arpFrame, frame, hbuffer, Except.map, hparse, if_true]
  rfl

/-- The clock stands still, and `_map` is as the lookup leaves it. -/
theorem sendDatagram_lookup (i : NetworkInterface) (d : InternetDatagram) (nextHop : Address) :
    (i.sendDatagram d nextHop).1.time = i.time ∧
      (i.sendDatagram d nextHop).1.mapItems = (i.map nextHop.ipv4Numeric).1.mapItems := by
  by_cases hzero : (i.map nextHop.ipv4Numeric).2 = zeroAddress
  · obtain ⟨stamp, frames, -, heq⟩ := ((i.map nextHop.ipv4Numeric).1.queueDatagram d
      nextHop.ipv4Numeric).requestArp_eq nextHop.ipv4Numeric
    rw [sendDatagram_of_unknown hzero, heq, queueDatagram_eq, map_fst]
    exact ⟨rfl, rfl⟩
  · rw [sendDatagram_of_known hzero, map_fst]
    cases d.serialize <;> exact ⟨rfl, rfl⟩

theorem sendDatagram_asks (h : i.Asking nextHop.ipv4Numeric) :
    (i.sendDatagram d nextHop).1.arpPendingIp =
        Function.update i.arpPendingIp nextHop.ipv4Numeric (some i.time) ∧
      i.arpEvents (.sendDatagram d nextHop) = [.requested nextHop.ipv4Numeric] := by
  have hqueue := ((i.map nextHop.ipv4Numeric).1.queueDatagram d
    nextHop.ipv4Numeric).requestArp_cases nextHop.ipv4Numeric
  rw [← sendDatagram_of_unknown h.1, queueDatagram_eq, map_fst] at hqueue
  obtain ⟨-, heq⟩ | ⟨stamp, hstamp, hrecent, -⟩ := hqueue
  · rw [arpEvents, heq, List.drop_left]
    refine ⟨rfl, ?_⟩
    simp only [List.filterMap_cons, asksFor_arpFrame]
    rfl
  · exact absurd (h.2 stamp hstamp) (not_lt.mpr hrecent)

theorem sendDatagram_asks_not (h : ¬ i.Asking nextHop.ipv4Numeric) :
    (i.sendDatagram d nextHop).1.arpPendingIp = i.arpPendingIp ∧
      i.arpEvents (.sendDatagram d nextHop) = [] := by
  by_cases hzero : (i.map nextHop.ipv4Numeric).2 = zeroAddress
  · have hqueue := ((i.map nextHop.ipv4Numeric).1.queueDatagram d
      nextHop.ipv4Numeric).requestArp_cases nextHop.ipv4Numeric
    rw [← sendDatagram_of_unknown hzero, queueDatagram_eq, map_fst] at hqueue
    obtain ⟨hold, -⟩ | ⟨stamp, -, -, heq⟩ := hqueue
    · exact absurd ⟨hzero, hold⟩ h
    · rw [arpEvents, heq, List.drop_length]
      exact ⟨rfl, rfl⟩
  · rw [arpEvents, sendDatagram_of_known hzero, map_fst]
    cases d.serialize with
    | error e => exact ⟨rfl, by simp [sendFrame]⟩
    | ok payload => exact ⟨rfl, by simp [sendFrame, frame, EthernetFrame.asksFor,
        EthernetHeader.typeIPv4, EthernetHeader.typeARP]⟩

end NetworkInterface

/-! ## Runs -/

/-- **A run of an interface**, with the time that has passed and the ARP traffic, newest first. -/
structure ArpRun where
  interface : NetworkInterface
  elapsed : ℕ := 0
  history : List (ℕ × ArpEvent) := []

namespace ArpRun

def init (ethernetAddress : EthernetAddress) (ipAddress : Address) : ArpRun :=
  { interface := { ethernetAddress, ipAddress } }

/-- The milliseconds that a call lets pass. -/
def ticked : InterfaceCall → ℕ
  | .tick msSinceLastTick => msSinceLastTick
  | _ => 0

def after (w : ArpRun) (c : InterfaceCall) : ArpRun where
  interface := w.interface.call c
  elapsed := w.elapsed + ticked c
  history := (w.interface.arpEvents c).reverse.map (w.elapsed, ·) ++ w.history

def step (w : ArpRun) (c : InterfaceCall) : Option ArpRun := some (w.after c)

/-- **What is kept about `a` is known from the log**: the open request; and the last message, which
may be missing from `_map` once it is too old. -/
structure Tracks (w : ArpRun) (a : UInt32) : Prop where
  clock : w.interface.time = w.elapsed % 2 ^ 64
  ordered : Ordered w.history w.elapsed
  request : w.interface.arpPendingIp a = (openRequest a w.history).map (· % 2 ^ 64)
  cached : ∀ item ∈ w.interface.mapItems a, ∃ t amsg,
    latest (Tells a) w.history = some (t, .heard amsg) ∧
      item = ⟨amsg.senderEthernetAddress, t % 2 ^ 64⟩
  expired : w.interface.mapItems a = none → ∀ e ∈ latest (Tells a) w.history,
    e.1 + NetworkInterface.ttl < w.elapsed
  spaced : Spaced (Asks a) (Tells a) NetworkInterface.arpTTL w.history

variable {w : ArpRun} {a : UInt32}

theorem Tracks.init (ethernetAddress : EthernetAddress) (ipAddress : Address) (a : UInt32) :
    (ArpRun.init ethernetAddress ipAddress).Tracks a :=
  ⟨rfl, .nil, rfl, by simp [ArpRun.init], by simp [ArpRun.init, latest], .nil⟩

/-- How long ago something was, as the clock sees it. -/
theorem Tracks.sub64_time (h : w.Tracks a) {t : ℕ} (ht : t ≤ w.elapsed) :
    sub64 w.interface.time (t % 2 ^ 64) = (w.elapsed - t) % 2 ^ 64 := by
  rw [h.clock, sub64_mod ht]

theorem Tracks.latest_le (h : w.Tracks a) {p : ArpEvent → Prop} [DecidablePred p] {e : ℕ × ArpEvent}
    (he : latest p w.history = some e) : e.1 ≤ w.elapsed := by
  obtain ⟨-, newer, older, hlog, -⟩ := latest_eq_some_iff.mp he
  exact h.ordered.past e (by simp [hlog])

/-- A lookup erases what has expired. -/
theorem Tracks.lookup (h : w.Tracks a) (ip : UInt32) :
    (w.interface.map ip).1.mapItems a = w.interface.mapItems a ∨
      (w.interface.map ip).1.mapItems a = none ∧ ∀ e ∈ latest (Tells a) w.history,
        e.1 + NetworkInterface.ttl < w.elapsed := by
  obtain ⟨item, -, -, heq⟩ | ⟨hold, heq⟩ := w.interface.map_spec ip
  · exact .inl (by rw [heq])
  · rw [heq]
    by_cases ha : a = ip
    · subst ha
      refine .inr ⟨Function.update_self .., fun e he => ?_⟩
      cases hitem : w.interface.mapItems a with
      | none => exact h.expired hitem e he
      | some item =>
        obtain ⟨t, amsg, hlatest, rfl⟩ := h.cached item hitem
        obtain rfl := Option.some.inj (hlatest.symm.trans he)
        have hexpired := hold _ hitem
        rw [h.sub64_time (h.latest_le hlatest)] at hexpired
        have hmod := Nat.mod_le (w.elapsed - t) (2 ^ 64)
        show t + _ < _
        omega
    · exact .inl (Function.update_of_ne ha ..)

/-- **A request is far enough from the last one.** -/
theorem Tracks.may_ask (h : w.Tracks a)
    (hold : ∀ stamp ∈ w.interface.arpPendingIp a, NetworkInterface.arpTTL <
      sub64 w.interface.time stamp) {between older : List (ℕ × ArpEvent)} {e : ℕ × ArpEvent}
    (hlog : w.history = between ++ e :: older) (he : Asks a e.2) :
    e.1 + NetworkInterface.arpTTL < w.elapsed ∨ ∃ x ∈ between, Tells a x.2 := by
  refine h.ordered.may_follow (p := Asks a) (q := Tells a) (fun e => Asks.not_tells)
    (fun e hlatest => ?_) hlog he
  by_cases hasks : Asks a e.2
  · have hopen : openRequest a w.history = some e.1 := by
      rw [openRequest, hlatest]
      exact if_pos hasks
    have hfar := hold (e.1 % 2 ^ 64) (by rw [h.request, hopen]; rfl)
    rw [h.sub64_time (h.latest_le hlatest)] at hfar
    have hmod := Nat.mod_le (w.elapsed - e.1) (2 ^ 64)
    exact .inr (by omega)
  · exact .inl ((latest_eq_some_iff.mp hlatest).1.resolve_left hasks)

/-- The log stays, and so does what is kept about `a`; only an expired address may go. -/
theorem Tracks.congr (h : w.Tracks a) {i : NetworkInterface}
    (htime : i.time = w.interface.time) (hip : i.arpPendingIp a = w.interface.arpPendingIp a)
    (hmap : i.mapItems a = w.interface.mapItems a ∨ i.mapItems a = none ∧
      ∀ e ∈ latest (Tells a) w.history, e.1 + NetworkInterface.ttl < w.elapsed) :
    Tracks { w with interface := i } a := by
  refine ⟨htime.trans h.clock, h.ordered, hip.trans h.request, ?_, ?_, h.spaced⟩
  · intro item hitem
    obtain hmap | ⟨hnone, -⟩ := hmap
    · exact h.cached item (hmap ▸ hitem)
    · cases hnone.symm.trans hitem
  · intro hnone
    obtain hmap | ⟨-, hold⟩ := hmap
    · exact h.expired (hmap.symm.trans hnone)
    · exact hold

/-- A request is logged: it is the open one if it is for `a`. -/
theorem Tracks.requested (h : w.Tracks a) {ip : UInt32}
    (hold : ∀ stamp ∈ w.interface.arpPendingIp ip, NetworkInterface.arpTTL <
      sub64 w.interface.time stamp) :
    Tracks { w with
      interface := { w.interface with
        arpPendingIp := Function.update w.interface.arpPendingIp ip (some w.interface.time) }
      history := (w.elapsed, .requested ip) :: w.history } a := by
  have htells : ¬ Tells a (.requested ip) := id
  have hlatest : latest (Tells a) ((w.elapsed, .requested ip) :: w.history) =
      latest (Tells a) w.history := latest_cons_of_neg htells
  refine ⟨h.clock, h.ordered.cons _, ?_, ?_, ?_, h.spaced.cons fun hasks => ?_⟩
  · by_cases ha : a = ip
    · subst ha
      rw [openRequest_of_asks]
      exact (Function.update_self ..).trans (congrArg some h.clock)
    · rw [openRequest_of_other (fun hasks => ha (ArpEvent.requested.inj hasks).symm) htells]
      exact (Function.update_of_ne ha ..).trans h.request
  · rw [hlatest]
    exact h.cached
  · rw [hlatest]
    exact h.expired
  · obtain rfl : ip = a := ArpEvent.requested.inj hasks
    exact fun between older e hlog => h.may_ask hold hlog

/-- A message is logged: it answers the request for its sender, and its address is the last. -/
theorem Tracks.heard (h : w.Tracks a) (amsg : ARPMessage) {i : NetworkInterface}
    (htime : i.time = w.interface.time)
    (hip : i.arpPendingIp = Function.update w.interface.arpPendingIp amsg.senderIpAddress none)
    (hmap : i.mapItems = Function.update w.interface.mapItems amsg.senderIpAddress
      (some ⟨amsg.senderEthernetAddress, w.interface.time⟩)) :
    Tracks { w with interface := i, history := (w.elapsed, .heard amsg) :: w.history } a := by
  have hasks : ¬ Asks a (.heard amsg) := by simp [Asks]
  have hspaced := h.spaced.cons (e := (w.elapsed, .heard amsg)) fun h => absurd h hasks
  by_cases ha : amsg.senderIpAddress = a
  · have htells : Tells a (.heard amsg) := ha
    subst ha
    refine ⟨htime.trans h.clock, h.ordered.cons _, ?_, ?_, ?_, hspaced⟩
    · rw [openRequest_of_tells htells, hip]
      exact Function.update_self ..
    · rw [hmap, Function.update_self]
      rintro item ⟨⟩
      exact ⟨w.elapsed, amsg, latest_cons_of_pos htells, by rw [h.clock]⟩
    · rw [hmap, Function.update_self]
      rintro ⟨⟩
  · have hlatest : latest (Tells a) ((w.elapsed, .heard amsg) :: w.history) =
        latest (Tells a) w.history := latest_cons_of_neg ha
    refine ⟨htime.trans h.clock, h.ordered.cons _, ?_, ?_, ?_, hspaced⟩
    · rw [openRequest_of_other hasks ha, hip, Function.update_of_ne (Ne.symm ha)]
      exact h.request
    · rw [hmap, Function.update_of_ne (Ne.symm ha), hlatest]
      exact h.cached
    · rw [hmap, Function.update_of_ne (Ne.symm ha), hlatest]
      exact h.expired

theorem Tracks.tick (h : w.Tracks a) (ms : ℕ) : (w.after (.tick ms)).Tracks a := by
  refine ⟨?_, h.ordered.mono (Nat.le_add_right ..), h.request, h.cached, ?_, h.spaced⟩
  · show add64 w.interface.time ms = (w.elapsed + ms) % 2 ^ 64
    rw [h.clock, add64, Nat.mod_add_mod]
  · exact fun hnone e he => (h.expired hnone e he).trans_le (Nat.le_add_right ..)

theorem Tracks.sendDatagram (h : w.Tracks a) (d : InternetDatagram) (nextHop : Address) :
    (w.after (.sendDatagram d nextHop)).Tracks a := by
  obtain ⟨htime, hmap⟩ := w.interface.sendDatagram_lookup d nextHop
  have hlookup := h.lookup nextHop.ipv4Numeric
  rw [← hmap] at hlookup
  unfold ArpRun.after
  by_cases hasking : w.interface.Asking nextHop.ipv4Numeric
  · obtain ⟨hip, hevents⟩ := NetworkInterface.sendDatagram_asks (d := d) hasking
    rw [hevents]
    refine (h.requested hasking.2).congr htime (congrFun hip a) ?_
    rwa [latest_cons_of_neg (show ¬ Tells a (.requested _) from id)]
  · obtain ⟨hip, hevents⟩ := NetworkInterface.sendDatagram_asks_not (d := d) hasking
    rw [hevents]
    exact h.congr htime (congrFun hip a) hlookup

theorem Tracks.recvFrame (h : w.Tracks a) (frame : EthernetFrame) :
    (w.after (.recvFrame frame)).Tracks a := by
  unfold ArpRun.after
  rw [NetworkInterface.arpEvents, NetworkInterface.call]
  cases hheard : w.interface.heard frame with
  | none =>
    rw [NetworkInterface.recvFrame_of_not_heard hheard]
    exact h
  | some amsg =>
    rw [NetworkInterface.recvFrame_of_heard hheard]
    obtain ⟨frames, hhears⟩ := w.interface.recvArp_hears amsg
    generalize w.interface.recvArp amsg = r at hhears ⊢
    obtain ⟨-, -, -, -, -⟩ := hhears
    exact h.heard amsg rfl rfl rfl

/-- **A call keeps track.** -/
theorem Tracks.after (h : w.Tracks a) (c : InterfaceCall) : (w.after c).Tracks a := by
  cases c with
  | sendDatagram d nextHop => exact h.sendDatagram d nextHop
  | recvFrame frame => exact h.recvFrame frame
  | tick ms => exact h.tick ms

theorem tracks_of_reach {ethernetAddress : EthernetAddress} {ipAddress : Address}
    (h : Reach step (fun _ _ => True) (ArpRun.init ethernetAddress ipAddress) w) (a : UInt32) :
    w.Tracks a := by
  refine h.invariant (I := fun w => w.Tracks a) (.init ethernetAddress ipAddress a)
    fun w c w' hw _ hstep => ?_
  obtain rfl := Option.some.inj hstep
  exact hw.after c

/-! ## Fresh addresses -/

/-- **The address of `a` is fresh**: the last message from `a` gave it, not more than thirty seconds
ago. -/
def Fresh (w : ArpRun) (a : UInt32) (mac : EthernetAddress) : Prop :=
  ∃ t amsg, latest (Tells a) w.history = some (t, .heard amsg) ∧
    amsg.senderEthernetAddress = mac ∧ mac ≠ NetworkInterface.zeroAddress ∧
    w.elapsed - t ≤ NetworkInterface.ttl

/-- **Requests are limited, but not withheld.**  In every run of an interface and for every address:
of two requests for it, the later one comes more than five seconds after the other, or after an ARP
message from that address in between; and, while less than `2 ^ 64` milliseconds have passed since
the last request that is unanswered, a call of `send_datagram` that queues its datagram emits a
request, unless one was emitted in the last five seconds with no ARP message from that address
since. -/
theorem request_rate (ethernetAddress : EthernetAddress) (ipAddress : Address)
    (h : Reach step (fun _ _ => True) (init ethernetAddress ipAddress) w) (a : UInt32) :
    Spaced (Asks a) (Tells a) NetworkInterface.arpTTL w.history ∧
    ((∀ t ∈ openRequest a w.history, w.elapsed - t < 2 ^ 64) → ∀ d nextHop,
      nextHop.ipv4Numeric = a →
      (w.interface.sendDatagram d nextHop).1.pending a = w.interface.pending a ++ [d] →
      .requested a ∈ w.interface.arpEvents (.sendDatagram d nextHop) ∨
      ∃ newer t older, w.history = newer ++ (t, .requested a) :: older ∧
        (∀ e ∈ newer, ¬ Tells a e.2) ∧ w.elapsed - t ≤ NetworkInterface.arpTTL) := by
  have htracks := tracks_of_reach h a
  refine ⟨htracks.spaced, fun hclock d nextHop ha hqueued => ?_⟩
  subst ha
  by_cases hasking : w.interface.Asking nextHop.ipv4Numeric
  · rw [(NetworkInterface.sendDatagram_asks hasking).2]
    exact .inl List.mem_cons_self
  · have hzero : (w.interface.map nextHop.ipv4Numeric).2 = NetworkInterface.zeroAddress := by
      by_contra hmac
      rw [NetworkInterface.sendDatagram_of_known hmac, NetworkInterface.map_fst] at hqueued
      cases hd : d.serialize <;>
        simp [hd, NetworkInterface.sendFrame, NetworkInterface.pending] at hqueued
    obtain ⟨stamp, hstamp, hrecent⟩ : ∃ stamp ∈ w.interface.arpPendingIp nextHop.ipv4Numeric,
        sub64 w.interface.time stamp ≤ NetworkInterface.arpTTL := by
      by_contra! hold
      exact hasking ⟨hzero, hold⟩
    rw [htracks.request] at hstamp
    obtain ⟨t, hopen, rfl⟩ := Option.map_eq_some_iff.mp hstamp
    obtain ⟨newer, older, hlog, hnewer⟩ := openRequest_eq_some hopen
    have ht : t ≤ w.elapsed :=
      htracks.ordered.past (t, .requested nextHop.ipv4Numeric) (by simp [hlog])
    rw [htracks.sub64_time ht, Nat.mod_eq_of_lt (hclock t hopen)] at hrecent
    exact .inr ⟨newer, t, older, hlog, hnewer, hrecent⟩

/-- Two requests, 5001 milliseconds apart; the third datagram does not cause another. -/
theorem request_rate_run :
    let d : InternetDatagram := { header := { len := 20 } }
    ∃ w, Reach step (fun _ _ => True) (init #v[2, 0, 0, 0, 0, 1] ⟨1, 0⟩) w ∧
      w.history = [(5001, .requested 2), (0, .requested 2)] ∧
      Spaced (Asks 2) (Tells 2) NetworkInterface.arpTTL w.history ∧
      (.requested 2 ∈ w.interface.arpEvents (.sendDatagram d ⟨2, 0⟩) ∨
      ∃ newer t older, w.history = newer ++ (t, .requested 2) :: older ∧
        (∀ e ∈ newer, ¬ Tells 2 e.2) ∧ w.elapsed - t ≤ NetworkInterface.arpTTL) := by
  intro d
  obtain ⟨w, hw, hlog⟩ := exists_reach_of_exec step (fun _ _ => True)
    (init #v[2, 0, 0, 0, 0, 1] ⟨1, 0⟩)
    [.sendDatagram d ⟨2, 0⟩, .tick 5001, .sendDatagram d ⟨2, 0⟩]
    (fun w => w.history = [(5001, .requested 2), (0, .requested 2)] ∧ w.elapsed = 5001 ∧
      (w.interface.sendDatagram d ⟨2, 0⟩).1.pending 2 = w.interface.pending 2 ++ [d]) (by decide)
  obtain ⟨hhistory, helapsed, hqueued⟩ := of_decide_eq_true hlog
  obtain ⟨hspaced, hemits⟩ := request_rate _ _ hw 2
  have hclock : ∀ t ∈ openRequest 2 w.history, w.elapsed - t < 2 ^ 64 := fun t _ =>
    (Nat.sub_le _ t).trans_lt (by rw [helapsed]; decide)
  exact ⟨w, hw, hhistory, hspaced, hemits hclock d ⟨2, 0⟩ rfl hqueued⟩

/-- **The clock comes round.**  A request was sent `2 ^ 64 + 1` milliseconds ago, and nothing has
been heard since; to the interface it is one millisecond old, so the next datagram is queued without
a request. -/
theorem clock_comes_round :
    let d : InternetDatagram := { header := { len := 20 } }
    ∃ w, Reach step (fun _ _ => True) (init #v[2, 0, 0, 0, 0, 1] ⟨1, 0⟩) w ∧
      w.history = [(0, .requested 2)] ∧ w.elapsed = 2 ^ 64 + 1 ∧
      (w.interface.sendDatagram d ⟨2, 0⟩).1.pending 2 = w.interface.pending 2 ++ [d] ∧
      w.interface.arpEvents (.sendDatagram d ⟨2, 0⟩) = [] := by
  intro d
  obtain ⟨w, hw, hlog⟩ := exists_reach_of_exec step (fun _ _ => True)
    (init #v[2, 0, 0, 0, 0, 1] ⟨1, 0⟩)
    [.sendDatagram d ⟨2, 0⟩, .tick (2 ^ 64 - 1), .tick 2]
    (fun w => w.history = [(0, .requested 2)] ∧ w.elapsed = 2 ^ 64 + 1 ∧
      (w.interface.sendDatagram d ⟨2, 0⟩).1.pending 2 = w.interface.pending 2 ++ [d] ∧
      w.interface.arpEvents (.sendDatagram d ⟨2, 0⟩) = []) (by decide)
  exact ⟨w, hw, of_decide_eq_true hlog⟩

end ArpRun
