import Sponge.Network.Interface

/-!
# Network/Router — forwarding between interfaces

`router.cc`, `router.hh`.  A router sends each datagram it has received out of the interface of the
route with the longest prefix that matches.  As with an interface, a call gives the router it leaves
also where it throws: a datagram that throws stays at the front of its queue, its TTL decremented.
-/

/-- An interface that keeps the datagrams it receives until they are asked for. -/
structure AsyncNetworkInterface extends NetworkInterface where
  datagramsOut : List InternetDatagram := []

namespace AsyncNetworkInterface

def recvFrame (a : AsyncNetworkInterface) (frame : EthernetFrame) :
    AsyncNetworkInterface × Except Exn Unit :=
  match a.toNetworkInterface.recvFrame frame with
  | (i, .error e) => ({ a with toNetworkInterface := i }, .error e)
  | (i, .ok none) => ({ a with toNetworkInterface := i }, .ok ())
  | (i, .ok (some dgram)) =>
    ({ toNetworkInterface := i, datagramsOut := a.datagramsOut ++ [dgram] }, .ok ())

def sendDatagram (a : AsyncNetworkInterface) (dgram : InternetDatagram) (nextHop : Address) :
    AsyncNetworkInterface × Except Exn Unit :=
  ({ a with toNetworkInterface := (a.toNetworkInterface.sendDatagram dgram nextHop).1 },
    (a.toNetworkInterface.sendDatagram dgram nextHop).2)

def tick (a : AsyncNetworkInterface) (msSinceLastTick : ℕ) : AsyncNetworkInterface :=
  { a with toNetworkInterface := a.toNetworkInterface.tick msSinceLastTick }

end AsyncNetworkInterface

/-- `Router::Route`. -/
structure Route where
  routePrefix : UInt32 := 0
  prefixLength : UInt8 := 0
  nextHop : Option Address := none
  interfaceNum : ℕ := 0
  deriving DecidableEq, Repr

/-- `Router`. -/
structure Router where
  interfaces : List AsyncNetworkInterface := []
  routeTable : List Route := []

namespace Router

def addInterface (r : Router) (interface : AsyncNetworkInterface) : Router × ℕ :=
  ({ r with interfaces := r.interfaces ++ [interface] }, r.interfaces.length)

def addRoute (r : Router) (route : Route) : Router :=
  { r with routeTable := r.routeTable ++ [route] }

/-- `prefix_match`.  In C++ the shift is defined for prefix lengths up to 32. -/
def prefixMatch (ip routePrefix : UInt32) (prefixLength : UInt8) : Bool :=
  let shift := 32 - prefixLength.toUInt32
  let ip := if prefixLength = 0 then 0 else (ip >>> shift) <<< shift
  ip == routePrefix

/-- The body of the loop of `route_one_datagram`: the route, if it matches and its prefix is longer
than the best so far. -/
def longerMatch (ipAddr : UInt32) (best : Option Route) (route : Route) : Option Route :=
  if prefixMatch ipAddr route.routePrefix route.prefixLength then
    match best with
    | none => some route
    | some r => if r.prefixLength < route.prefixLength then some route else some r
  else best

/-- The loop of `route_one_datagram` that looks for the longest prefix. -/
def chooseRoute (routeTable : List Route) (ipAddr : UInt32) : Option Route :=
  routeTable.foldl (longerMatch ipAddr) none

/-- A call on `interface(n)`, which throws `out_of_range` if there is none. -/
def onInterface (r : Router) (n : ℕ)
    (f : AsyncNetworkInterface → AsyncNetworkInterface × Except Exn Unit) :
    Router × Except Exn Unit :=
  match r.interfaces[n]? with
  | none => (r, .error (.outOfRange "vector::at"))
  | some a => ({ r with interfaces := r.interfaces.set n (f a).1 }, (f a).2)

/-- `dgram.header().ttl--`. -/
def decrementTTL (dgram : InternetDatagram) : InternetDatagram :=
  { dgram with header := { dgram.header with ttl := dgram.header.ttl - 1 } }

/-- `route_one_datagram`: the router, and the caller's datagram, after the call. -/
def routeOneDatagram (r : Router) (dgram : InternetDatagram) :
    Router × InternetDatagram × Except Exn Unit :=
  let ipAddr := dgram.header.dst
  match chooseRoute r.routeTable ipAddr with
  | none => (r, dgram, .ok ())
  | some route =>
    if dgram.header.ttl ≤ 1 then (r, dgram, .ok ())
    else
      let dgram := decrementTTL dgram
      let (r, result) := r.onInterface route.interfaceNum fun a =>
        a.sendDatagram dgram (route.nextHop.getD { ipv4Numeric := ipAddr })
      (r, dgram, result)

/-- The queue of an interface. -/
def queue (r : Router) (n : ℕ) : List InternetDatagram :=
  (r.interfaces[n]?.map AsyncNetworkInterface.datagramsOut).getD []

def setQueue (r : Router) (n : ℕ) (queue : List InternetDatagram) : Router :=
  { r with interfaces := r.interfaces.modify n fun a => { a with datagramsOut := queue } }

/-- The inner loop of `route`: a datagram leaves the queue after it is routed. -/
def routeQueue (r : Router) (n : ℕ) : List InternetDatagram → Router × Except Exn Unit
  | [] => (r, .ok ())
  | dgram :: queue =>
    match r.routeOneDatagram dgram with
    | (r, dgram, .error e) => (r.setQueue n (dgram :: queue), .error e)
    | (r, _, .ok ()) => (r.setQueue n queue).routeQueue n queue

/-- The outer loop of `route`, over the interfaces that are left. -/
def routeFrom (r : Router) : List ℕ → Router × Except Exn Unit
  | [] => (r, .ok ())
  | n :: ns =>
    match r.routeQueue n (r.queue n) with
    | (r, .error e) => (r, .error e)
    | (r, .ok ()) => r.routeFrom ns

/-- `route()`: the queues of all interfaces, in order. -/
def route (r : Router) : Router × Except Exn Unit := r.routeFrom (List.range r.interfaces.length)

theorem longerMatch_eq_some {ipAddr : UInt32} {best : Option Route} {route b : Route}
    (h : longerMatch ipAddr best route = some b) : b = route ∨ best = some b := by
  unfold longerMatch at h
  split_ifs at h with hmatch
  · cases best with
    | none => exact .inl (Option.some.inj h).symm
    | some r =>
      simp only at h
      split_ifs at h with hlonger
      · exact .inl (Option.some.inj h).symm
      · exact .inr h
  · exact .inr h

/-- The route that is chosen is one of the table. -/
theorem mem_of_chooseRoute {routeTable : List Route} {ipAddr : UInt32} {route : Route}
    (h : chooseRoute routeTable ipAddr = some route) : route ∈ routeTable := by
  refine List.foldlRecOn (motive := fun best => ∀ b, best = some b → b ∈ routeTable) routeTable
    (longerMatch ipAddr) (by simp) (fun best hbest next hnext b hb => ?_) route h
  obtain rfl | hb := longerMatch_eq_some hb
  · exact hnext
  · exact hbest b hb

/-- **What `route_one_datagram` does**: it drops the datagram, or sends it on with a smaller TTL. -/
theorem routeOneDatagram_cases (r : Router) (d : InternetDatagram) :
    r.routeOneDatagram d = (r, d, .ok ()) ∨
    ∃ route, chooseRoute r.routeTable d.header.dst = some route ∧ 1 < d.header.ttl ∧
      r.routeOneDatagram d =
        let sent := r.onInterface route.interfaceNum fun a =>
          a.sendDatagram (decrementTTL d) (route.nextHop.getD { ipv4Numeric := d.header.dst })
        (sent.1, decrementTTL d, sent.2) := by
  cases hroute : chooseRoute r.routeTable d.header.dst with
  | none => exact .inl (by simp only [routeOneDatagram, hroute])
  | some route =>
    by_cases httl : d.header.ttl ≤ 1
    · exact .inl (by simp only [routeOneDatagram, hroute, if_pos httl])
    · exact .inr ⟨route, rfl, UInt8.not_le.mp httl,
        by simp only [routeOneDatagram, hroute, if_neg httl]⟩

end Router
