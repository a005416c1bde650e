import Sponge.Network.Router

/-!
# Network/LongestPrefix — which route a datagram takes

The loop of `route_one_datagram` finds the first of the longest matches (`chooseRoute_spec`), so a
datagram that is not dropped goes out of one interface, and no other is touched
(`Router.longest_prefix_match`).

What a match is, is another matter.  `prefix_match` clears the low bits of the address and compares
it with the route's prefix as it is, low bits included, so that a route whose prefix has any of them
set matches nothing (`Router.matches_iff`).
-/

namespace Router

/-! ## A match -/

/-- The test of the loop of `route_one_datagram`. -/
def Matches (ipAddr : UInt32) (route : Route) : Prop :=
  prefixMatch ipAddr route.routePrefix route.prefixLength = true

instance (ipAddr : UInt32) (route : Route) : Decidable (Matches ipAddr route) :=
  inferInstanceAs (Decidable (_ = true))

/-- The high-order bits of the address, as many as the prefix is long, are those of the prefix. -/
def SharesPrefix (ipAddr : UInt32) (route : Route) : Prop :=
  ∀ k < 32, 32 - route.prefixLength.toNat ≤ k →
    ipAddr.toNat.testBit k = route.routePrefix.toNat.testBit k

instance (ipAddr : UInt32) (route : Route) : Decidable (SharesPrefix ipAddr route) :=
  inferInstanceAs (Decidable (∀ k < 32, _ → _))

/-- No bit of the prefix is set beyond its length. -/
def NoHostBits (route : Route) : Prop :=
  ∀ k < 32 - route.prefixLength.toNat, route.routePrefix.toNat.testBit k = false

instance (route : Route) : Decidable (NoHostBits route) :=
  inferInstanceAs (Decidable (∀ k < _, _))

/-- The address as `prefix_match` compares it. -/
def masked (ip : UInt32) (prefixLength : UInt8) : UInt32 :=
  if prefixLength = 0 then 0
  else (ip >>> (32 - prefixLength.toUInt32)) <<< (32 - prefixLength.toUInt32)

theorem testBit_masked (ip : UInt32) {prefixLength : UInt8} (h : prefixLength ≤ 32) {k : ℕ}
    (hk : k < 32) : (masked ip prefixLength).toNat.testBit k =
      (decide (32 - prefixLength.toNat ≤ k) && ip.toNat.testBit k) := by
  have hle : prefixLength.toNat ≤ 32 := UInt8.le_iff_toNat_le.mp h
  unfold masked
  split_ifs with hzero
  · have hk : ¬ 32 ≤ k := by omega
    simp [hzero, hk]
  · have hpos : 0 < prefixLength.toNat := by
      rw [Nat.pos_iff_ne_zero]
      exact fun h0 => hzero (UInt8.toNat_inj.mp h0)
    have hshift : (32 - prefixLength.toUInt32).toNat % 32 = 32 - prefixLength.toNat := by
      rw [UInt32.toNat_sub_of_le, UInt8.toNat_toUInt32]
      · exact Nat.mod_eq_of_lt (by simp; omega)
      · rw [UInt32.le_iff_toNat_le, UInt8.toNat_toUInt32]
        exact hle
    rw [UInt32.toNat_shiftLeft, UInt32.toNat_shiftRight, hshift, Nat.testBit_mod_two_pow,
      Nat.testBit_shiftLeft, Nat.testBit_shiftRight]
    by_cases hlow : 32 - prefixLength.toNat ≤ k
    · simp [hk, hlow]
    · simp [hlow]

theorem eq_iff_testBit {x y : UInt32} :
    x = y ↔ ∀ k < 32, x.toNat.testBit k = y.toNat.testBit k := by
  refine ⟨fun h k _ => h ▸ rfl, fun h => UInt32.toNat_inj.mp (Nat.eq_of_testBit_eq fun k => ?_)⟩
  by_cases hk : k < 32
  · exact h k hk
  · have hhigh : ∀ z : UInt32, z.toNat.testBit k = false := fun z =>
      Nat.testBit_lt_two_pow (z.toNat_lt.trans_le (Nat.pow_le_pow_right (by norm_num) (by omega)))
    rw [hhigh, hhigh]

/-- **What `prefix_match` tests**: that the high-order bits agree, and that the prefix has no others
set. -/
theorem matches_iff (ipAddr : UInt32) {route : Route} (h : route.prefixLength ≤ 32) :
    Matches ipAddr route ↔ SharesPrefix ipAddr route ∧ NoHostBits route := by
  have hbits : Matches ipAddr route ↔ ∀ k < 32,
      (decide (32 - route.prefixLength.toNat ≤ k) && ipAddr.toNat.testBit k) =
        route.routePrefix.toNat.testBit k := by
    have hmasked : Matches ipAddr route ↔ masked ipAddr route.prefixLength = route.routePrefix :=
      beq_iff_eq
    rw [hmasked, eq_iff_testBit]
    exact forall₂_congr fun k hk => by rw [testBit_masked ipAddr h hk]
  rw [hbits]
  refine ⟨fun hall => ⟨fun k hk hhigh => ?_, fun k hlow => ?_⟩, fun hboth k hk => ?_⟩
  · have hbit := hall k hk
    rwa [decide_eq_true hhigh, Bool.true_and] at hbit
  · have hbit := hall k (by omega)
    rw [decide_eq_false (Nat.not_le.mpr hlow), Bool.false_and] at hbit
    exact hbit.symm
  · by_cases hhigh : 32 - route.prefixLength.toNat ≤ k
    · rw [decide_eq_true hhigh, Bool.true_and]
      exact hboth.1 k hk hhigh
    · rw [decide_eq_false hhigh, Bool.false_and]
      exact (hboth.2 k (Nat.not_le.mp hhigh)).symm

/-- **When a route applies exactly to the addresses that share its prefix**: the prefix has no bits
set beyond its length, or the address does not share it anyway. -/
theorem route_applies_iff (route : Route) (h : route.prefixLength ≤ 32) (ipAddr : UInt32) :
    (Matches ipAddr route ↔ SharesPrefix ipAddr route) ↔
      (NoHostBits route ∨ ¬ SharesPrefix ipAddr route) := by
  rw [matches_iff ipAddr h]
  constructor
  · intro happlies
    by_cases hshares : SharesPrefix ipAddr route
    · exact .inl (happlies.mpr hshares).2
    · exact .inr hshares
  · rintro (hno | hnot)
    · exact ⟨And.left, fun hshares => ⟨hshares, hno⟩⟩
    · exact ⟨And.left, fun hshares => absurd hshares hnot⟩

/-- The route 128.30.0.0/16 applies to 128.30.1.1. -/
theorem route_applies_network :
    Matches 0x801e0101 { routePrefix := 0x801e0000, prefixLength := 16 } ↔
      SharesPrefix 0x801e0101 { routePrefix := 0x801e0000, prefixLength := 16 } :=
  (route_applies_iff _ (by decide) _).mpr (.inl (by decide))

/-- The route 128.30.76.255/16 does not: a datagram for 128.30.1.1 is dropped. -/
theorem host_bits_ignored : ∃ (r : Router) (route : Route) (d : InternetDatagram),
    route.prefixLength ≤ 32 ∧ r.routeTable = [route] ∧ 1 < d.header.ttl ∧
    SharesPrefix d.header.dst route ∧ ¬ Matches d.header.dst route ∧
    r.routeOneDatagram d = (r, d, .ok ()) :=
  ⟨({} : Router).addRoute { routePrefix := 0x801e4cff, prefixLength := 16 },
    { routePrefix := 0x801e4cff, prefixLength := 16 },
    { header := { dst := 0x801e0101, ttl := 64, len := 20 } }, by decide, rfl, by decide, by decide,
    by decide, rfl⟩

/-! ## The longest match -/

/-- **The first of the longest matches**: a match before it is shorter, one after it no longer. -/
def IsLongest (ipAddr : UInt32) (routeTable : List Route) (route : Route) : Prop :=
  ∃ before after, routeTable = before ++ route :: after ∧ Matches ipAddr route ∧
    (∀ r ∈ before, Matches ipAddr r → r.prefixLength < route.prefixLength) ∧
    ∀ r ∈ after, Matches ipAddr r → r.prefixLength ≤ route.prefixLength

variable {ipAddr : UInt32} {routeTable : List Route} {route next : Route}

/-- A further route that is no longer match changes nothing. -/
theorem IsLongest.skip (h : IsLongest ipAddr routeTable route)
    (hnext : Matches ipAddr next → next.prefixLength ≤ route.prefixLength) :
    IsLongest ipAddr (routeTable ++ [next]) route := by
  obtain ⟨before, after, rfl, hmatch, hbefore, hafter⟩ := h
  refine ⟨before, after ++ [next], by simp, hmatch, hbefore, ?_⟩
  exact List.forall_mem_append.mpr ⟨hafter, List.forall_mem_singleton.mpr hnext⟩

/-- All matches of a table are as short as the first of the longest. -/
theorem IsLongest.le (h : IsLongest ipAddr routeTable route) :
    ∀ r ∈ routeTable, Matches ipAddr r → r.prefixLength ≤ route.prefixLength := by
  obtain ⟨before, after, rfl, -, hbefore, hafter⟩ := h
  refine List.forall_mem_append.mpr ⟨fun r hr hm => UInt8.le_of_lt (hbefore r hr hm), ?_⟩
  exact List.forall_mem_cons.mpr ⟨fun _ => UInt8.le_refl _, hafter⟩

theorem longerMatch_of_not (h : ¬ Matches ipAddr next) (best : Option Route) :
    longerMatch ipAddr best next = best := if_neg h

theorem longerMatch_none (h : Matches ipAddr next) :
    longerMatch ipAddr none next = some next := if_pos h

theorem longerMatch_some (h : Matches ipAddr next) (best : Route) :
    longerMatch ipAddr (some best) next =
      if best.prefixLength < next.prefixLength then some next else some best := if_pos h

/-- **What the loop of `route_one_datagram` finds.** -/
theorem chooseRoute_spec (ipAddr : UInt32) (routeTable : List Route) :
    (chooseRoute routeTable ipAddr = none ∧ ∀ r ∈ routeTable, ¬ Matches ipAddr r) ∨
    ∃ route, chooseRoute routeTable ipAddr = some route ∧
      IsLongest ipAddr routeTable route := by
  -- by induction over the routes added, the last one being looked at last
  induction routeTable using List.reverseRecOn with
  | nil => exact .inl ⟨rfl, by simp⟩
  | append_singleton routeTable next ih =>
    have hstep : chooseRoute (routeTable ++ [next]) ipAddr =
        longerMatch ipAddr (chooseRoute routeTable ipAddr) next := by simp [chooseRoute]
    rw [hstep]
    by_cases hmatch : Matches ipAddr next
    · obtain ⟨hnone, hno⟩ | ⟨route, hsome, hlongest⟩ := ih
      · rw [hnone, longerMatch_none hmatch]
        exact .inr ⟨next, rfl, routeTable, [], rfl, hmatch,
          fun r hr hm => absurd hm (hno r hr), by simp⟩
      · rw [hsome, longerMatch_some hmatch]
        split_ifs with hlonger
        · refine .inr ⟨next, rfl, routeTable, [], rfl, hmatch, fun r hr hm => ?_, by simp⟩
          exact UInt8.lt_of_le_of_lt (hlongest.le r hr hm) hlonger
        · exact .inr ⟨route, rfl, hlongest.skip fun _ => UInt8.not_lt.mp hlonger⟩
    · rw [longerMatch_of_not hmatch]
      obtain ⟨hnone, hno⟩ | ⟨route, hsome, hlongest⟩ := ih
      · exact .inl ⟨hnone, List.forall_mem_append.mpr
          ⟨hno, List.forall_mem_singleton.mpr hmatch⟩⟩
      · exact .inr ⟨route, hsome, hlongest.skip fun hm => absurd hm hmatch⟩

/-! ## Routing one datagram -/

/-- **The routes are valid**: no prefix is longer than an address, and the interfaces exist. -/
structure Valid (r : Router) : Prop where
  prefixes : ∀ route ∈ r.routeTable, route.prefixLength ≤ 32
  interfaces : ∀ route ∈ r.routeTable, route.interfaceNum < r.interfaces.length

/-- **Sending a serialisable datagram returns, and leaves a trace**: a frame, or a datagram that
waits. -/
theorem sendDatagram_changes (a : AsyncNetworkInterface) {d : InternetDatagram}
    (hd : d.Serializable) (nextHop : Address) :
    (a.sendDatagram d nextHop).2 = .ok () ∧ (a.sendDatagram d nextHop).1 ≠ a := by
  unfold AsyncNetworkInterface.sendDatagram
  obtain ⟨item, -, -, -, heq⟩ | ⟨i', hqueues, heq⟩ :=
    a.toNetworkInterface.sendDatagram_cases d nextHop
  · rw [heq, hd.serialize_eq]
    refine ⟨rfl, fun hsame => ?_⟩
    have hframes := congrArg (fun a : AsyncNetworkInterface => a.framesOut.length) hsame
    simp [NetworkInterface.sendFrame] at hframes
  · rw [heq]
    refine ⟨rfl, fun hsame => ?_⟩
    have hpending := hqueues.pending_eq nextHop.ipv4Numeric
    rw [show i' = a.toNetworkInterface from congrArg AsyncNetworkInterface.toNetworkInterface hsame,
      if_pos rfl] at hpending
    simp at hpending

/-- No route matches, or the TTL is used up. -/
def Unroutable (r : Router) (d : InternetDatagram) : Prop :=
  (∀ route ∈ r.routeTable, ¬ Matches d.header.dst route) ∨ d.header.ttl ≤ 1

theorem IsLongest.mem (h : IsLongest ipAddr routeTable route) :
    route ∈ routeTable ∧ Matches ipAddr route := by
  obtain ⟨before, after, rfl, hmatch, -, -⟩ := h
  exact ⟨by simp, hmatch⟩

theorem routeOneDatagram_dropped {r : Router} {d : InternetDatagram} (h : r.Unroutable d) :
    r.routeOneDatagram d = (r, d, .ok ()) := by
  obtain ⟨hnone, -⟩ | ⟨route, hsome, hlongest⟩ := chooseRoute_spec d.header.dst r.routeTable
  · simp only [routeOneDatagram, hnone]
  · obtain ⟨hmem, hmatch⟩ := hlongest.mem
    have httl : d.header.ttl ≤ 1 := h.resolve_left fun hno => hno route hmem hmatch
    simp only [routeOneDatagram, hsome, if_pos httl]

theorem routeOneDatagram_routed {r : Router} (hr : r.Valid) {d : InternetDatagram}
    (hd : d.Serializable) (h : ¬ r.Unroutable d) :
    ∃ route a, IsLongest d.header.dst r.routeTable route ∧
      r.interfaces[route.interfaceNum]? = some a ∧
      r.routeOneDatagram d =
        ({ r with
            interfaces := r.interfaces.set route.interfaceNum
              (a.sendDatagram (decrementTTL d)
                (route.nextHop.getD { ipv4Numeric := d.header.dst })).1 },
          decrementTTL d, .ok ()) := by
  obtain ⟨hno, httl⟩ := not_or.mp h
  obtain ⟨-, hnone⟩ | ⟨route, hsome, hlongest⟩ := chooseRoute_spec d.header.dst r.routeTable
  · exact absurd hnone hno
  · obtain ⟨a, hget⟩ : ∃ a, r.interfaces[route.interfaceNum]? = some a :=
      ⟨_, List.getElem?_eq_getElem (hr.interfaces route hlongest.mem.1)⟩
    obtain ⟨hok, -⟩ := sendDatagram_changes a (d := decrementTTL d) ⟨hd.size, hd.ver, hd.hlen⟩
      (route.nextHop.getD { ipv4Numeric := d.header.dst })
    refine ⟨route, a, hlongest, hget, ?_⟩
    simp only [routeOneDatagram, hsome, if_neg httl, onInterface, hget, hok]

/-- **A datagram takes the first of the longest matches.**  It is dropped, and no interface is
touched, exactly if no route matches or the TTL is used up; otherwise `send_datagram` is called
once, on the interface of that route, for its next hop, and with the datagram as it came except that
its TTL is one less. -/
theorem longest_prefix_match {r : Router} (hr : r.Valid) {d : InternetDatagram}
    (hd : d.Serializable) :
    ((r.routeOneDatagram d).1.interfaces = r.interfaces ↔ r.Unroutable d) ∧
    (r.Unroutable d → r.routeOneDatagram d = (r, d, .ok ())) ∧
    (¬ r.Unroutable d → ∃ route a, IsLongest d.header.dst r.routeTable route ∧
      r.interfaces[route.interfaceNum]? = some a ∧
      r.routeOneDatagram d =
        ({ r with
            interfaces := r.interfaces.set route.interfaceNum
              (a.sendDatagram { d with header := { d.header with ttl := d.header.ttl - 1 } }
                (route.nextHop.getD { ipv4Numeric := d.header.dst })).1 },
          { d with header := { d.header with ttl := d.header.ttl - 1 } }, .ok ())) := by
  refine ⟨⟨fun hsame => ?_, fun h => ?_⟩, routeOneDatagram_dropped, routeOneDatagram_routed hr hd⟩
  · by_contra hrouted
    obtain ⟨route, a, -, hget, heq⟩ := routeOneDatagram_routed hr hd hrouted
    have hchanged := (sendDatagram_changes a (d := decrementTTL d) ⟨hd.size, hd.ver, hd.hlen⟩
      (route.nextHop.getD { ipv4Numeric := d.header.dst })).2
    rw [heq] at hsame
    have hset := congrArg (fun l => l[route.interfaceNum]?) hsame
    simp only [List.getElem?_set_self (List.getElem?_eq_some_iff.mp hget).1, hget] at hset
    exact hchanged (Option.some.inj hset)
  · rw [routeOneDatagram_dropped h]

/-- A route of eight bits is taken before the default route. -/
theorem longest_prefix_match_run :
    let r : Router :=
      { interfaces := [{ ethernetAddress := #v[2, 0, 0, 0, 0, 1], ipAddress := ⟨1, 0⟩ }]
        routeTable :=
          [{ nextHop := some ⟨9, 0⟩ }, { routePrefix := 0x0a000000, prefixLength := 8 }] }
    let d : InternetDatagram := { header := { dst := 0x0a000001, ttl := 64, len := 20 } }
    ∃ route a, IsLongest d.header.dst r.routeTable route ∧
      r.interfaces[route.interfaceNum]? = some a ∧
      r.routeOneDatagram d =
        ({ r with
            interfaces := r.interfaces.set route.interfaceNum
              (a.sendDatagram { d with header := { d.header with ttl := d.header.ttl - 1 } }
                (route.nextHop.getD { ipv4Numeric := d.header.dst })).1 },
          { d with header := { d.header with ttl := d.header.ttl - 1 } }, .ok ()) := by
  intro r d
  refine (longest_prefix_match (r := r) ⟨by decide, by decide⟩ (d := d) (by decide)).2.2 fun h => ?_
  rcases h with hno | httl
  · exact hno { routePrefix := 0x0a000000, prefixLength := 8 } (by simp [r]) (by decide)
  · exact absurd httl (by decide)

end Router
