import Sponge.Lib.Fifo
import Sponge.Network.Emission

/-!
# Network/Pending — datagrams wait in order

For each next hop an interface is a queue before the link.  If what is submitted can be serialised,
then whatever frames arrive, from whatever hosts, the datagrams submitted for a hop are those
emitted for it followed by those that still wait (`InterfaceRun.in_order`).  What carries the
induction is `Waiting`: datagrams wait only where an ARP request is open, and never beside an
address they could be sent to.  `Serves` is the list of all a call can do for one hop.
-/

open Word64

namespace NetworkInterface

variable {i i' : NetworkInterface} {a b : UInt32} {d : InternetDatagram} {amsg : ARPMessage}
  {c : InterfaceCall} {frames : List EthernetFrame} {r : NetworkInterface × Except Exn Unit}

/-! ## What waits -/

/-- **Queueing asks for the address.** -/
theorem Queues.asked (hq : i.Queues d b i') (h : i.pending a ≠ [] ↔ (i.arpPendingIp a).isSome) :
    i'.pending a ≠ [] ↔ (i'.arpPendingIp a).isSome := by
  have hpending := hq.pending_eq a
  obtain ⟨stamp, hentry, hframes⟩ := hq
  by_cases hab : a = b
  · subst hab
    rw [if_pos rfl] at hpending
    rw [hpending]
    simp
  · rw [if_neg hab] at hpending
    rw [hpending, h]
    simp only [Function.update_of_ne hab]

/-- **Nothing is left behind** of a queue that was asked for and can be serialised. -/
theorem Left.eq_nil {sent rest : List InternetDatagram} {result : Except Exn Unit}
    (hleft : i.Left a rest result) (hpending : i.pending a = sent ++ rest)
    (hasked : i.pending a ≠ [] ↔ (i.arpPendingIp a).isSome)
    (hserializable : ∀ d ∈ i.pending a, d.Serializable) : rest = [] := by
  obtain ⟨-, hrest⟩ | ⟨d, rest', e, rfl, hthrow, -⟩ := hleft
  · cases hip : i.arpPendingIp a with
    | none =>
      have hnil : i.pending a = [] := by
        by_contra hne
        simpa [hip] using hasked.mp hne
      exact (List.append_eq_nil_iff.mp (hpending.symm.trans hnil)).2
    | some stamp => exact hrest (by simp [hip])
  · have hd := hserializable d (by simp [hpending])
    cases hthrow.symm.trans hd.serialize_eq

/-- **The front of the queue goes out**, and the request is closed even if the rest stays. -/
theorem Hears.flushed (h : i.Hears amsg frames r) :
    r.1.arpPendingIp amsg.senderIpAddress = none ∧
      ∃ sent, i.pending amsg.senderIpAddress = sent ++ r.1.pending amsg.senderIpAddress ∧
        List.Forall₂ (i.Carries amsg.senderEthernetAddress) sent frames := by
  obtain ⟨hpending, hqueue, hframes, -, -⟩ := h
  refine ⟨Function.update_self .., _, ?_, hframes⟩
  simp only [pending, Function.update_self, hqueue]
  exact hpending

/-- The whole queue goes out if it was asked for and can be serialised. -/
theorem Hears.emptied (h : i.Hears amsg frames r)
    (hasked : i.pending amsg.senderIpAddress ≠ [] ↔ (i.arpPendingIp amsg.senderIpAddress).isSome)
    (hserializable : ∀ d ∈ i.pending amsg.senderIpAddress, d.Serializable) :
    List.Forall₂ (i.Carries amsg.senderEthernetAddress) (i.pending amsg.senderIpAddress) frames ∧
      r.1.pending amsg.senderIpAddress = [] := by
  obtain ⟨hpending, hqueue, hframes, -, hleft⟩ := h
  have hnil := hleft.eq_nil hpending hasked hserializable
  refine ⟨?_, ?_⟩
  · rwa [hpending, hnil, List.append_nil]
  · simp only [pending, Function.update_self, hqueue, hnil]

/-- For the other hops nothing changes. -/
theorem Hears.pending_of_ne (h : i.Hears amsg frames r) {a : UInt32}
    (ha : a ≠ amsg.senderIpAddress) :
    r.1.pending a = i.pending a ∧ r.1.arpPendingIp a = i.arpPendingIp a := by
  obtain ⟨-, -, -, -, -⟩ := h
  simp only [pending, Function.update_of_ne ha, and_self]

/-- **Why datagrams wait for `a`**: its address was asked for, and there is none in `_map`. -/
structure Waiting (i : NetworkInterface) (a : UInt32) : Prop where
  asked : i.pending a ≠ [] ↔ (i.arpPendingIp a).isSome
  unresolved : i.pending a ≠ [] → ∀ item ∈ i.mapItems a, item.macAddr = zeroAddress
  serializable : ∀ d ∈ i.pending a, d.Serializable

/-- Only what is kept for `a` matters. -/
theorem Waiting.congr (h : i.Waiting a) (hpending : i'.pending a = i.pending a)
    (hip : i'.arpPendingIp a = i.arpPendingIp a) (hmap : i'.mapItems a = i.mapItems a) :
    i'.Waiting a := by
  refine ⟨?_, ?_, ?_⟩
  · rw [hpending, hip]
    exact h.asked
  · rw [hpending, hmap]
    exact h.unresolved
  · rw [hpending]
    exact h.serializable

theorem Waiting.pending_eq_nil (h : i.Waiting a) {item : ArpMapItem}
    (hitem : i.mapItems a = some item) (hmac : item.macAddr ≠ zeroAddress) : i.pending a = [] := by
  by_contra hne
  exact hmac (h.unresolved hne item hitem)

/-- **Queueing asks for the address**, and is done only without one. -/
theorem Waiting.queues (h : i.Waiting a) (hd : d.Serializable) (hq : i.Queues d b i') :
    i'.Waiting a := by
  have hpending := hq.pending_eq a
  have hasked := hq.asked h.asked
  obtain ⟨stamp, hentry, hframes⟩ := hq
  by_cases hab : a = b
  · subst hab
    rw [if_pos rfl] at hpending
    refine ⟨hasked, fun _ item hitem => ?_, ?_⟩
    · simp only [Function.update_self] at hitem
      exact (hentry item hitem).2
    · rw [hpending]
      intro d' hd'
      obtain hd' | hd' := List.mem_append.mp hd'
      · exact h.serializable d' hd'
      · rwa [List.mem_singleton.mp hd']
  · rw [if_neg hab] at hpending
    exact h.congr hpending (Function.update_of_ne hab ..) (Function.update_of_ne hab ..)

/-- **An ARP message closes the request** for its sender. -/
theorem Waiting.hears (h : i.Waiting a) (hh : i.Hears amsg frames r) : r.1.Waiting a := by
  by_cases hab : a = amsg.senderIpAddress
  · subst hab
    obtain ⟨hclosed, -⟩ := hh.flushed
    obtain ⟨-, hnil⟩ := hh.emptied h.asked h.serializable
    refine ⟨?_, fun hne => absurd hnil hne, ?_⟩
    · rw [hnil, hclosed]
      simp
    · rw [hnil]
      simp
  · obtain ⟨hpending, hip⟩ := hh.pending_of_ne hab
    refine h.congr hpending hip ?_
    obtain ⟨-, -, -, -, -⟩ := hh
    exact Function.update_of_ne hab ..

theorem Waiting.does (h : i.Waiting a) (hdoes : i.Does c frames i')
    (hsubmitted : ∀ entry ∈ InterfaceRun.submission c, entry.2.Serializable) : i'.Waiting a := by
  cases hdoes with
  | sends | throws | ignores => exact h.congr rfl rfl rfl
  | queues hqueues => exact h.queues (hsubmitted _ (List.mem_singleton_self _)) hqueues
  | hears hheard hhears => exact h.hears hhears
  | tick => exact h.congr rfl rfl rfl

/-! ## What a call does for one hop -/

/-- The frame carries the datagram to some address. -/
def Emits (i : NetworkInterface) (d : InternetDatagram) (f : EthernetFrame) : Prop :=
  ∃ dst, i.Carries dst d f

/-- **What a call does for `a`**: with the datagrams submitted and the frames emitted for `a`, and
what waits for it then. -/
inductive Serves (i : NetworkInterface) (a : UInt32) :
    List InternetDatagram → List EthernetFrame → List InternetDatagram → Prop
  | nothing : Serves i a [] [] (i.pending a)
  | sends {item : ArpMapItem} {d : InternetDatagram} {f : EthernetFrame}
      (hitem : i.mapItems a = some item) (hmac : item.macAddr ≠ zeroAddress)
      (hemits : i.Emits d f) : Serves i a [d] [f] (i.pending a)
  | refuses {d : InternetDatagram} (hd : ¬ d.Serializable) : Serves i a [d] [] (i.pending a)
  | queues (d : InternetDatagram) : Serves i a [d] [] (i.pending a ++ [d])
  | releases {sent rest : List InternetDatagram} {frames : List EthernetFrame}
      (hpending : i.pending a = sent ++ rest) (hemits : List.Forall₂ i.Emits sent frames) :
    Serves i a [] frames rest

/-- A call for another hop does nothing for `a`. -/
theorem Does.serves (h : i.Does c frames i') (a : UInt32) :
    i.Serves a (logFor a (InterfaceRun.submission c))
      (logFor a (InterfaceRun.emission (i.hop c) frames)) (i'.pending a) := by
  cases h with
  | sends hitem hlive hmac hcarries =>
    simp only [InterfaceRun.submission, InterfaceRun.emission, hop, logFor_singleton, logFor_map]
    split_ifs with ha
    · subst ha
      exact .sends hitem hmac ⟨_, hcarries⟩
    · exact .nothing
  | throws hthrow =>
    simp only [InterfaceRun.submission, InterfaceRun.emission_nil, logFor_singleton]
    split_ifs with ha
    · exact .refuses fun hd => by cases hthrow.symm.trans hd.serialize_eq
    · exact .nothing
  | queues hqueues =>
    simp only [InterfaceRun.submission, InterfaceRun.emission_nil, logFor_singleton,
      hqueues.pending_eq]
    split_ifs with ha
    · exact .queues _
    · exact .nothing
  | ignores hheard =>
    rw [InterfaceRun.emission_nil]
    exact .nothing
  | hears hheard hhears =>
    simp only [InterfaceRun.submission, InterfaceRun.emission, hop, hheard, Option.map_some,
      logFor_map]
    split_ifs with ha
    · subst ha
      obtain ⟨-, sent, hsent, hframes⟩ := hhears.flushed
      exact .releases hsent (hframes.imp fun _ _ hcarries => ⟨_, hcarries⟩)
    · rw [(hhears.pending_of_ne ha).1]
      exact .nothing
  | tick ms => exact .nothing

/-- Frames are of the same interface before and after a call. -/
theorem Does.emits_eq (h : i.Does c frames i') : i'.Emits = i.Emits := by
  cases h with
  | queues hqueues =>
    obtain ⟨-, -, -⟩ := hqueues
    rfl
  | hears _ hhears =>
    obtain ⟨-, -, -, -, -⟩ := hhears
    rfl
  | _ => rfl

end NetworkInterface

namespace InterfaceRun

/-- What may be called: any frames and ticks, and datagrams that can be serialised. -/
def Sane (_ : InterfaceRun) : InterfaceCall → Prop
  | .sendDatagram dgram _ => dgram.Serializable
  | _ => True

instance (w : InterfaceRun) (c : InterfaceCall) : Decidable (w.Sane c) := by
  unfold Sane
  split <;> infer_instance

theorem Sane.serializable {w : InterfaceRun} {c : InterfaceCall} (h : w.Sane c) :
    ∀ entry ∈ submission c, entry.2.Serializable := by
  cases c with
  | sendDatagram d nextHop => exact List.forall_mem_singleton.mpr h
  | recvFrame | tick => exact List.forall_mem_nil _

def step (w : InterfaceRun) (c : InterfaceCall) : Option InterfaceRun := some (w.after c)

/-- **The order of the datagrams for `a`**, and why some of them wait. -/
structure InOrder (w : InterfaceRun) (a : UInt32) : Prop where
  fifo : Fifo w.interface.Emits (logFor a w.submitted) (logFor a w.emitted)
    (w.interface.pending a)
  waiting : w.interface.Waiting a

variable {w : InterfaceRun} {a : UInt32}

/-- **A call keeps the order.** -/
theorem InOrder.after (h : w.InOrder a) {c : InterfaceCall} (hsane : w.Sane c) :
    (w.after c).InOrder a := by
  obtain ⟨hfifo, hwait⟩ := h
  have hdoes := w.interface.does_call c
  have hserves := hdoes.serves a
  refine ⟨?_, hwait.does hdoes hsane.serializable⟩
  have hsubmitted : ∀ d ∈ logFor a (submission c), d.Serializable := by
    intro d hd
    obtain ⟨entry, hentry, rfl⟩ := List.mem_map.mp hd
    exact hsane.serializable entry (List.mem_of_mem_filter hentry)
  simp only [InterfaceRun.after, logFor_append, hdoes.emits_eq]
  generalize logFor a (submission c) = submitted, logFor a (emission _ _) = emitted,
    (w.interface.call c).pending a = waiting at hserves hsubmitted ⊢
  cases hserves with
  | nothing =>
    simp only [List.append_nil]
    exact hfifo
  | sends hitem hmac hemits =>
    have hnil := hwait.pending_eq_nil hitem hmac
    rw [hnil] at hfifo ⊢
    exact hfifo.pass hemits
  | refuses hd => exact absurd (hsubmitted _ (List.mem_singleton_self _)) hd
  | queues d =>
    rw [List.append_nil]
    exact hfifo.submit d
  | releases hpending hemits =>
    rw [hpending] at hfifo
    rw [List.append_nil]
    exact hfifo.release hemits

theorem InOrder.init (ethernetAddress : EthernetAddress) (ipAddress : Address) (a : UInt32) :
    (InterfaceRun.init ethernetAddress ipAddress).InOrder a :=
  ⟨.empty, ⟨by simp [InterfaceRun.init, NetworkInterface.pending], by
    simp [InterfaceRun.init, NetworkInterface.pending], by
    simp [InterfaceRun.init, NetworkInterface.pending]⟩⟩

/-- **No datagram is lost, duplicated or reordered.**  In every run of serialisable datagrams, any
frames and ticks, and for every next hop `a`: the datagrams submitted for `a` are those emitted for
`a` in IPv4 frames, in that order, followed by those that wait; the frames logged are all the IPv4
frames there are; datagrams wait for `a` exactly while a request for it is open; and while some
wait, there is no live address for `a`. -/
theorem in_order (ethernetAddress : EthernetAddress) (ipAddress : Address)
    (h : Reach step Sane (init ethernetAddress ipAddress) w) (a : UInt32) :
    Fifo w.interface.Emits (logFor a w.submitted) (logFor a w.emitted) (w.interface.pending a) ∧
    w.emitted.map Prod.snd = w.interface.framesOut.filter EthernetFrame.isIPv4 ∧
    (w.interface.pending a ≠ [] ↔ (w.interface.arpPendingIp a).isSome) ∧
    (w.interface.pending a ≠ [] → ¬ ∃ item, w.interface.mapItems a = some item ∧
      sub64 w.interface.time item.timeStamp ≤ NetworkInterface.ttl ∧
      item.macAddr ≠ NetworkInterface.zeroAddress) := by
  have horder : w.InOrder a := by
    refine h.invariant (I := fun w => w.InOrder a) (.init ethernetAddress ipAddress a)
      fun w c w' hw hsane hstep => ?_
    obtain rfl := Option.some.inj hstep
    exact hw.after hsane
  have hlogged : w.Logged := by
    refine h.invariant (I := Logged) rfl fun w c w' hw _ hstep => ?_
    obtain rfl := Option.some.inj hstep
    exact hw.after c
  refine ⟨horder.fifo, hlogged, horder.waiting.asked, ?_⟩
  rintro hne ⟨item, hitem, -, hmac⟩
  exact hmac (horder.waiting.unresolved hne item hitem)

/-- One datagram waits for a host whose ARP message then lets it go; another waits for a second
host. -/
theorem in_order_run :
    let mac : EthernetAddress := #v[2, 0, 0, 0, 0, 1]
    ∃ w, Reach step Sane (init mac ⟨1, 0⟩) w ∧
      ((logFor 2 w.emitted).length = 1 ∧ w.interface.pending 3 ≠ []) ∧
      Fifo w.interface.Emits (logFor 3 w.submitted) (logFor 3 w.emitted) (w.interface.pending 3) ∧
      w.emitted.map Prod.snd = w.interface.framesOut.filter EthernetFrame.isIPv4 ∧
      (w.interface.pending 3 ≠ [] ↔ (w.interface.arpPendingIp 3).isSome) ∧
      (w.interface.pending 3 ≠ [] → ¬ ∃ item, w.interface.mapItems 3 = some item ∧
        sub64 w.interface.time item.timeStamp ≤ NetworkInterface.ttl ∧
        item.macAddr ≠ NetworkInterface.zeroAddress) := by
  intro mac
  let peer : ARPMessage :=
    { opcode := ARPMessage.opcodeReply, senderEthernetAddress := #v[2, 0, 0, 0, 0, 2]
      senderIpAddress := 2, targetEthernetAddress := mac, targetIpAddress := 1 }
  obtain ⟨w, hw, hlog⟩ := exists_reach_of_exec step Sane (init mac ⟨1, 0⟩)
    [.sendDatagram { header := { len := 20 } } ⟨2, 0⟩,
      .sendDatagram { header := { len := 20 } } ⟨3, 0⟩, .tick 1000,
      .recvFrame { header := { dst := mac, type := EthernetHeader.typeARP }
                   payload := .ofString peer.fields }]
    (fun w => (logFor 2 w.emitted).length = 1 ∧ w.interface.pending 3 ≠ []) (by decide)
  exact ⟨w, hw, of_decide_eq_true hlog, in_order mac ⟨1, 0⟩ hw 3⟩

end InterfaceRun
