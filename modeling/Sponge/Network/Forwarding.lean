import Sponge.Lib.Reach
import Sponge.Network.Contents
import Sponge.Network.Router

/-!
# Network/Forwarding — what can make a router throw

An interface throws where it serialises a datagram it cannot: at once, or much later, when an ARP
message lets the datagram go.  `IPv4Datagram::parse` lets through datagrams that `serialize` does
not take, so arriving traffic can make a router throw (`Router.forwarding_throws`).  It never does
as long as each datagram that `route()` forwards has version 4 and a header length of at least 5,
and then `route()` empties all queues (`Router.forwarding_safe`).
-/

namespace AsyncNetworkInterface

/-- What was received has the size its header says, and what waits can be serialised. -/
structure Sound (a : AsyncNetworkInterface) : Prop where
  queued : ∀ d ∈ a.datagramsOut, d.payload.size = d.header.payloadLength.toNat
  serializable : a.toNetworkInterface.Only IPv4Datagram.Serializable

variable {a : AsyncNetworkInterface}

/-- **A contiguous frame does not make an interface throw**, and what it hands up has a payload of
the size its header says. -/
theorem Sound.recvFrame (h : a.Sound) {frame : EthernetFrame} {buffer : Buffer}
    (hbuffer : frame.payload.toBuffer = .ok buffer) :
    (a.recvFrame frame).2 = .ok () ∧ (a.recvFrame frame).1.Sound := by
  obtain ⟨o, hok⟩ := h.serializable.recvFrame_ok hbuffer
  have hkept := h.serializable.recvFrame frame
  have hrun : a.toNetworkInterface.recvFrame frame =
      ((a.toNetworkInterface.recvFrame frame).1, .ok o) := Prod.ext rfl hok
  generalize (a.toNetworkInterface.recvFrame frame).1 = i at hrun hkept
  unfold AsyncNetworkInterface.recvFrame
  rw [hrun]
  cases o with
  | none => exact ⟨rfl, h.queued, hkept⟩
  | some d =>
    obtain ⟨-, buffer', -, hparsed⟩ := NetworkInterface.of_recvFrame hok
    refine ⟨rfl, List.forall_mem_append.mpr ⟨h.queued, ?_⟩, hkept⟩
    exact List.forall_mem_singleton.mpr (IPv4Datagram.parse_accepted hparsed).1

/-- Sending a serialisable datagram does not throw. -/
theorem Sound.sendDatagram (h : a.Sound) {d : InternetDatagram} (hd : d.Serializable)
    (nextHop : Address) :
    (a.sendDatagram d nextHop).2 = .ok () ∧ (a.sendDatagram d nextHop).1.Sound :=
  ⟨NetworkInterface.sendDatagram_ok hd nextHop, h.queued, h.serializable.sendDatagram hd nextHop⟩

end AsyncNetworkInterface

namespace Router

/-- **The routes lead somewhere, and no interface is about to throw.** -/
structure Sound (r : Router) : Prop where
  routes : ∀ route ∈ r.routeTable, route.interfaceNum < r.interfaces.length
  interfaces : ∀ a ∈ r.interfaces, a.Sound

/-- The datagram is one that `route_one_datagram` sends on. -/
def Forwards (routeTable : List Route) (d : InternetDatagram) : Prop :=
  (chooseRoute routeTable d.header.dst).isSome ∧ 1 < d.header.ttl

/-- If the datagram is sent on, its header is one that `serialize` takes. -/
def Proper (routeTable : List Route) (d : InternetDatagram) : Prop :=
  Forwards routeTable d → d.header.ver = 4 ∧ 5 ≤ d.header.hlen.toNat

variable {r : Router} {n : ℕ}

/-- **A call on an interface** that returns and keeps it sound. -/
theorem Sound.onInterface (h : r.Sound) (hn : n < r.interfaces.length)
    {f : AsyncNetworkInterface → AsyncNetworkInterface × Except Exn Unit}
    (hf : ∀ a, a.Sound → (f a).2 = .ok () ∧ (f a).1.Sound) :
    (r.onInterface n f).2 = .ok () ∧ (r.onInterface n f).1.Sound := by
  have hget : r.interfaces[n]? = some r.interfaces[n] := List.getElem?_eq_getElem hn
  have hsound := hf _ (h.interfaces _ (List.getElem_mem hn))
  unfold Router.onInterface
  rw [hget]
  refine ⟨hsound.1, ?_, fun a ha => ?_⟩
  · simpa only [List.length_set] using h.routes
  · obtain ha | rfl := List.mem_or_eq_of_mem_set ha
    · exact h.interfaces a ha
    · exact hsound.2

/-- What a call on an interface leaves alone. -/
theorem onInterface_frame (r : Router) (n : ℕ)
    {f : AsyncNetworkInterface → AsyncNetworkInterface × Except Exn Unit}
    (hf : ∀ a, (f a).1.datagramsOut = a.datagramsOut) :
    (r.onInterface n f).1.routeTable = r.routeTable ∧
      (r.onInterface n f).1.interfaces.length = r.interfaces.length ∧
      ∀ m, (r.onInterface n f).1.queue m = r.queue m := by
  unfold onInterface
  split
  · exact ⟨rfl, rfl, fun _ => rfl⟩
  · rename_i a ha
    refine ⟨rfl, List.length_set, fun m => ?_⟩
    simp only [queue, List.getElem?_set]
    split_ifs with hm hlt
    · subst hm
      rw [ha]
      simp [hf]
    · subst hm
      simp [List.getElem?_eq_none (not_lt.mp hlt)]
    · rfl

/-- The router is still sound, with the same routes and as many interfaces. -/
structure Follows (r r' : Router) : Prop where
  sound : r'.Sound
  routeTable : r'.routeTable = r.routeTable
  length : r'.interfaces.length = r.interfaces.length

theorem Follows.trans {r' r'' : Router} (h : r.Follows r') (h' : r'.Follows r'') :
    r.Follows r'' :=
  ⟨h'.sound, h'.routeTable.trans h.routeTable, h'.length.trans h.length⟩

/-- **Routing one datagram** that is proper returns, and touches no queue. -/
theorem Sound.routeOneDatagram (h : r.Sound) {d : InternetDatagram}
    (hsize : d.payload.size = d.header.payloadLength.toNat) (hproper : Proper r.routeTable d) :
    (r.routeOneDatagram d).2.2 = .ok () ∧ r.Follows (r.routeOneDatagram d).1 ∧
      ∀ m, (r.routeOneDatagram d).1.queue m = r.queue m := by
  obtain heq | ⟨route, hroute, httl, heq⟩ := r.routeOneDatagram_cases d
  · rw [heq]
    exact ⟨rfl, ⟨h, rfl, rfl⟩, fun _ => rfl⟩
  · obtain ⟨hver, hhlen⟩ := hproper ⟨by simp [hroute], httl⟩
    have hserial : (decrementTTL d).Serializable := ⟨hsize, hver, hhlen⟩
    rw [heq]
    obtain ⟨hok, hsound⟩ := h.onInterface (h.routes route (mem_of_chooseRoute hroute))
      fun a ha => ha.sendDatagram hserial (route.nextHop.getD { ipv4Numeric := d.header.dst })
    obtain ⟨htable, hlength, hqueue⟩ := onInterface_frame r route.interfaceNum
      (f := fun a => a.sendDatagram (decrementTTL d)
        (route.nextHop.getD { ipv4Numeric := d.header.dst })) fun _ => rfl
    exact ⟨hok, ⟨hsound, htable, hlength⟩, hqueue⟩

theorem setQueue_queue (hn : n < r.interfaces.length) (m : ℕ) (ds : List InternetDatagram) :
    (r.setQueue n ds).queue m = if m = n then ds else r.queue m := by
  simp only [queue, setQueue, List.getElem?_modify]
  split_ifs with hm hnm hnm
  · subst hm
    simp [List.getElem?_eq_getElem hn]
  · exact absurd hm.symm hnm
  · exact absurd hnm.symm hm
  · simp

/-- The rest of a queue is as good as the whole. -/
theorem Sound.setQueue (h : r.Sound) {ds : List InternetDatagram}
    (hds : ∀ d ∈ ds, d.payload.size = d.header.payloadLength.toNat) :
    r.Follows (r.setQueue n ds) := by
  refine ⟨⟨?_, fun a ha => ?_⟩, rfl, List.length_modify ..⟩
  · simpa only [Router.setQueue, List.length_modify] using h.routes
  · obtain ⟨m, hm⟩ := List.mem_iff_getElem?.mp ha
    simp only [Router.setQueue, List.getElem?_modify] at hm
    obtain ⟨a', ha', rfl⟩ := Option.map_eq_some_iff.mp hm
    have hsound := h.interfaces a' (List.mem_of_getElem? ha')
    split_ifs
    · exact ⟨hds, hsound.serializable⟩
    · exact hsound

theorem mem_queue {d : InternetDatagram} (hd : d ∈ r.queue n) :
    ∃ a ∈ r.interfaces, d ∈ a.datagramsOut := by
  unfold queue at hd
  cases hget : r.interfaces[n]? with
  | none => simp [hget] at hd
  | some a =>
    rw [hget] at hd
    exact ⟨a, List.mem_of_getElem? hget, hd⟩

/-- **The inner loop empties its queue**, and no other. -/
theorem Sound.routeQueue (ds : List InternetDatagram) (h : r.Sound)
    (hn : n < r.interfaces.length) (hds : r.queue n = ds)
    (hproper : ∀ d ∈ ds, Proper r.routeTable d) :
    (r.routeQueue n ds).2 = .ok () ∧ r.Follows (r.routeQueue n ds).1 ∧
      ∀ m, (r.routeQueue n ds).1.queue m = if m = n then [] else r.queue m := by
  induction ds generalizing r with
  | nil =>
    refine ⟨rfl, ⟨h, rfl, rfl⟩, fun m => ?_⟩
    split_ifs with hm
    · rw [hm]
      exact hds
    · rfl
  | cons d ds ih =>
    obtain ⟨hd, hrest⟩ := List.forall_mem_cons.mp hproper
    have hsize : ∀ d ∈ r.queue n, d.payload.size = d.header.payloadLength.toNat := by
      intro d hd
      obtain ⟨a, ha, hd⟩ := mem_queue hd
      exact (h.interfaces a ha).queued d hd
    rw [hds, List.forall_mem_cons] at hsize
    obtain ⟨hok, hfollows, hqueue⟩ := h.routeOneDatagram hsize.1 hd
    have hrun : r.routeOneDatagram d = ((r.routeOneDatagram d).1, (r.routeOneDatagram d).2.1,
        .ok ()) := by rw [← hok]
    generalize (r.routeOneDatagram d).1 = r₁, (r.routeOneDatagram d).2.1 = d₁
      at hrun hfollows hqueue
    have hn₁ : n < r₁.interfaces.length := hfollows.length ▸ hn
    have hset := hfollows.sound.setQueue (n := n) hsize.2
    have hfollows' := hfollows.trans hset
    obtain ⟨hok', hlast, hqueue'⟩ := ih hset.sound (hset.length ▸ hn₁)
      (by rw [setQueue_queue hn₁, if_pos rfl]) (hfollows'.routeTable ▸ hrest)
    rw [Router.routeQueue, hrun]
    refine ⟨hok', hfollows'.trans hlast, fun m => ?_⟩
    simp only [hqueue', setQueue_queue hn₁, hqueue]
    split_ifs <;> rfl

/-- **The outer loop empties the queues of its interfaces**, and no others. -/
theorem Sound.routeFrom (ns : List ℕ) (h : r.Sound) (hns : ∀ n ∈ ns, n < r.interfaces.length)
    (hproper : ∀ n, ∀ d ∈ r.queue n, Proper r.routeTable d) :
    (r.routeFrom ns).2 = .ok () ∧ r.Follows (r.routeFrom ns).1 ∧
      ∀ m, (r.routeFrom ns).1.queue m = if m ∈ ns then [] else r.queue m := by
  induction ns generalizing r with
  | nil => exact ⟨rfl, ⟨h, rfl, rfl⟩, fun _ => rfl⟩
  | cons n ns ih =>
    obtain ⟨hn, hrest⟩ := List.forall_mem_cons.mp hns
    obtain ⟨hok, hfollows, hqueue⟩ := h.routeQueue (r.queue n) hn rfl (hproper n)
    have hrun : r.routeQueue n (r.queue n) = ((r.routeQueue n (r.queue n)).1, .ok ()) :=
      Prod.ext rfl hok
    generalize (r.routeQueue n (r.queue n)).1 = r₁ at hrun hfollows hqueue
    obtain ⟨hok', hlast, hqueue'⟩ := ih hfollows.sound (hfollows.length ▸ hrest) fun m d hd => by
      rw [hqueue] at hd
      rw [hfollows.routeTable]
      split_ifs at hd
      · cases hd
      · exact hproper m d hd
    rw [Router.routeFrom, hrun]
    refine ⟨hok', hfollows.trans hlast, fun m => ?_⟩
    simp only [hqueue', hqueue, List.mem_cons]
    split_ifs <;> simp_all

/-- **`route()` returns with all queues empty**, where what it forwards is proper. -/
theorem Sound.route (h : r.Sound) (hproper : ∀ n, ∀ d ∈ r.queue n, Proper r.routeTable d) :
    r.route.2 = .ok () ∧ r.route.1.Sound ∧ ∀ a ∈ r.route.1.interfaces, a.datagramsOut = [] := by
  obtain ⟨hok, hfollows, hqueue⟩ := h.routeFrom (List.range r.interfaces.length)
    (fun n hn => List.mem_range.mp hn) hproper
  refine ⟨hok, hfollows.sound, fun a ha => ?_⟩
  obtain ⟨m, hm⟩ := List.mem_iff_getElem?.mp ha
  have hlt : m < r.interfaces.length :=
    hfollows.length ▸ (List.getElem?_eq_some_iff.mp hm).1
  have hempty : r.route.1.queue m = [] := by
    rw [Router.route, hqueue, if_pos (List.mem_range.mpr hlt)]
  rwa [queue, hm] at hempty

end Router

/-! ## Runs -/

inductive RouterCall
  | addInterface (ethernetAddress : EthernetAddress) (ipAddress : Address)
  | addRoute (route : Route)
  | recvFrame (n : ℕ) (frame : EthernetFrame)
  | tick (n : ℕ) (msSinceLastTick : ℕ)
  | route
  deriving DecidableEq, Repr

namespace Router

def call (r : Router) : RouterCall → Router × Except Exn Unit
  | .addInterface ethernetAddress ipAddress =>
    ((r.addInterface { ethernetAddress, ipAddress }).1, .ok ())
  | .addRoute route => (r.addRoute route, .ok ())
  | .recvFrame n frame => r.onInterface n fun a => a.recvFrame frame
  | .tick n ms => r.onInterface n fun a => (a.tick ms, .ok ())
  | .route => r.route

/-- A call leaves a router to go on with, whether it returns or throws. -/
def step (r : Router) (c : RouterCall) : Option Router := some (r.call c).1

/-- What may be called: routes name interfaces there are, and frames are contiguous. -/
def Allowed (r : Router) : RouterCall → Prop
  | .addInterface .. | .route => True
  | .addRoute route => route.interfaceNum < r.interfaces.length ∧ route.prefixLength ≤ 32
  | .recvFrame n frame => n < r.interfaces.length ∧ frame.payload.buffers.length ≤ 1
  | .tick n _ => n < r.interfaces.length

instance (r : Router) (c : RouterCall) : Decidable (r.Allowed c) := by
  unfold Allowed
  split <;> infer_instance

/-- What may be called so that nothing throws: `route()` only where each received datagram that it
forwards has version 4 and a header length of at least 5. -/
def Careful (r : Router) (c : RouterCall) : Prop :=
  r.Allowed c ∧ (c = .route → ∀ a ∈ r.interfaces, ∀ d ∈ a.datagramsOut, Proper r.routeTable d)

instance (routeTable : List Route) (d : InternetDatagram) : Decidable (Proper routeTable d) := by
  unfold Proper Forwards
  infer_instance

instance (r : Router) (c : RouterCall) : Decidable (r.Careful c) := by
  unfold Careful
  infer_instance

variable {r : Router} {c : RouterCall}

theorem Careful.proper (h : r.Careful .route) (n : ℕ) : ∀ d ∈ r.queue n, Proper r.routeTable d := by
  intro d hd
  obtain ⟨a, ha, hd⟩ := mem_queue hd
  exact h.2 rfl a ha d hd

/-- **A careful call returns and keeps the router sound.** -/
theorem Sound.call (h : r.Sound) (hc : r.Careful c) :
    (r.call c).2 = .ok () ∧ (r.call c).1.Sound := by
  have hallowed := hc.1
  cases c with
  | addInterface ethernetAddress ipAddress =>
    refine ⟨rfl, fun route hroute => ?_, List.forall_mem_append.mpr ⟨h.interfaces, ?_⟩⟩
    · exact (h.routes route hroute).trans_le (by simp [Router.call, addInterface])
    · exact List.forall_mem_singleton.mpr ⟨by simp, .new _ ethernetAddress ipAddress⟩
  | addRoute route =>
    refine ⟨rfl, List.forall_mem_append.mpr ⟨h.routes, ?_⟩, h.interfaces⟩
    exact List.forall_mem_singleton.mpr hallowed.1
  | recvFrame n frame =>
    obtain ⟨buffer, hbuffer⟩ := BufferList.toBuffer_of_length_le hallowed.2
    exact h.onInterface hallowed.1 fun a ha => ha.recvFrame hbuffer
  | tick n ms => exact h.onInterface hallowed fun a ha => ⟨rfl, ha.queued, ha.serializable.tick ms⟩
  | route =>
    obtain ⟨hok, hsound, -⟩ := h.route hc.proper
    exact ⟨hok, hsound⟩

/-- **No received traffic makes a router throw**, as long as each datagram that `route()` forwards
has version 4 and a header length of at least 5: in every run of interfaces and routes being added,
frames arriving, ticks and `route()`, no call throws, and each `route()` leaves all queues empty. -/
theorem forwarding_safe (h : Reach step Careful {} r) (hc : r.Careful c) :
    (r.call c).2 = .ok () ∧
      (c = .route → ∀ a ∈ (r.call c).1.interfaces, a.datagramsOut = []) := by
  have hsound : r.Sound := by
    refine h.invariant (I := Sound) ⟨by simp, by simp⟩ fun r c r' hr hc hstep => ?_
    obtain rfl := Option.some.inj hstep
    exact (hr.call hc).2
  refine ⟨(hsound.call hc).1, ?_⟩
  rintro rfl
  exact (hsound.route hc.proper).2.2

/-- An interface with a default route, a neighbour whose address it has learnt, and a datagram of
20 bytes for it, with `firstByte` for its version and header length. -/
def arrival (firstByte : UInt8) : List RouterCall :=
  let mac : EthernetAddress := #v[2, 0, 0, 0, 0, 1]
  let peer : ARPMessage :=
    { opcode := ARPMessage.opcodeReply, senderEthernetAddress := #v[2, 0, 0, 0, 0, 2]
      senderIpAddress := 2, targetEthernetAddress := mac, targetIpAddress := 1 }
  [.addInterface mac ⟨1, 0⟩, .addRoute {},
    .recvFrame 0 { header := { dst := mac, type := EthernetHeader.typeARP }
                   payload := .ofString peer.fields },
    .recvFrame 0 { header := { dst := mac, type := EthernetHeader.typeIPv4 }
                   payload := .ofString
                    [firstByte, 0, 0, 20, 0, 0, 0, 0, 64, 6, 0, 0, 0, 0, 0, 3, 0, 0, 0, 2] }]

/-- A datagram of version 4 is forwarded. -/
theorem forwarding_safe_run : ∃ r, Reach step Careful {} r ∧ r.queue 0 ≠ [] ∧
    (r.call .route).2 = .ok () ∧
    (RouterCall.route = .route →
      ∀ a ∈ (r.call .route).1.interfaces, a.datagramsOut = []) := by
  obtain ⟨r, hr, hrun⟩ := exists_reach_of_exec step Careful {} (arrival 0x45)
    (fun r => r.queue 0 ≠ [] ∧ r.Careful .route) (by decide)
  obtain ⟨hne, hc⟩ := of_decide_eq_true hrun
  exact ⟨r, hr, hne, forwarding_safe hr hc⟩

/-- **A datagram of version 6 makes `route()` throw**: `parse` accepts it, as its size is right. -/
theorem forwarding_throws : ∃ r, Reach step Allowed {} r ∧ r.Allowed .route ∧
    (r.call .route).2 = .error (.runtimeError "wrong IP version") := by
  obtain ⟨r, hr, hrun⟩ := exists_reach_of_exec step Allowed {} (arrival 0x65)
    (fun r => (r.call .route).2 = .error (.runtimeError "wrong IP version")) (by decide)
  exact ⟨r, hr, trivial, of_decide_eq_true hrun⟩

end Router
