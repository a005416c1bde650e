import Sponge.Network.Pending

/-!
# Network/Flush — what a failing flush leaves

Runs of one interface under any calls, with datagrams that cannot be serialised among them.
`send_datagram` queues such a datagram without noticing; it is the flush, on an ARP message from the
next hop, that throws.  By then `recv_frame` has erased the entry of `_arp_pending_ip`, and the
datagrams from the one that threw on are still queued: they wait without a request, and the next ARP
message from the same hop passes them by (`InterfaceRun.failed_flush_stuck`).

That is all that goes wrong.  An interface stays consistent exactly as long as no ARP message finds
such a datagram in the queue it lets go, and no datagram is ever emitted twice
(`InterfaceRun.flush_consistent`).
-/

namespace NetworkInterface

/-- **Datagrams wait exactly where a request is open.** -/
def Consistent (i : NetworkInterface) : Prop :=
  ∀ a, i.pending a ≠ [] ↔ (i.arpPendingIp a).isSome

variable {i : NetworkInterface} {amsg : ARPMessage} {frames : List EthernetFrame}
  {r : NetworkInterface × Except Exn Unit}

theorem serializable_of_carries {dst : EthernetAddress} {ds : List InternetDatagram}
    (h : List.Forall₂ (i.Carries dst) ds frames) : ∀ d ∈ ds, d.Serializable := by
  induction h with
  | nil => simp
  | cons hcarries _ ih =>
    obtain ⟨payload, hpayload, -⟩ := hcarries
    exact List.forall_mem_cons.mpr ⟨IPv4Datagram.serializable_iff.mpr ⟨payload, hpayload⟩, ih⟩

/-- **An ARP message leaves the interface consistent** exactly if it lets the whole queue go. -/
theorem Consistent.hears_iff (hi : i.Consistent) (h : i.Hears amsg frames r) :
    r.1.Consistent ↔ ∀ d ∈ i.pending amsg.senderIpAddress, d.Serializable := by
  obtain ⟨hclosed, sent, hsent, hframes⟩ := h.flushed
  refine ⟨fun hr => ?_, fun hserializable a => ?_⟩
  · -- the request is closed, so nothing may wait: the queue has gone out
    have hnil : r.1.pending amsg.senderIpAddress = [] := by
      by_contra hne
      simpa [hclosed] using (hr amsg.senderIpAddress).mp hne
    rw [hsent, hnil, List.append_nil]
    exact serializable_of_carries hframes
  · by_cases ha : a = amsg.senderIpAddress
    · subst ha
      rw [(h.emptied (hi _) hserializable).2, hclosed]
      simp
    · rw [(h.pending_of_ne ha).1, (h.pending_of_ne ha).2]
      exact hi a

end NetworkInterface

namespace InterfaceRun

/-- **No ARP message lets go a datagram that cannot be serialised.** -/
def Calm (w : InterfaceRun) : InterfaceCall → Prop
  | .recvFrame frame => ∀ amsg ∈ w.interface.heard frame,
      ∀ d ∈ w.interface.pending amsg.senderIpAddress, d.Serializable
  | _ => True

instance (w : InterfaceRun) (c : InterfaceCall) : Decidable (w.Calm c) := by
  unfold Calm
  split <;> infer_instance

variable {w : InterfaceRun}

/-- **A call keeps the interface consistent** exactly if it is calm. -/
theorem consistent_after_iff (h : w.interface.Consistent) (c : InterfaceCall) :
    (w.after c).interface.Consistent ↔ w.Calm c := by
  have hdoes := w.interface.does_call c
  rw [InterfaceRun.after]
  generalize w.interface.emittedBy c = frames, w.interface.call c = i' at hdoes ⊢
  cases hdoes with
  | sends => exact iff_of_true h trivial
  | throws => exact iff_of_true h trivial
  | queues hqueues => exact iff_of_true (fun a => hqueues.asked (h a)) trivial
  | ignores hheard => exact iff_of_true h (by simp [Calm, hheard])
  | hears hheard hhears =>
    refine (h.hears_iff hhears).trans ?_
    simp [Calm, hheard]
  | tick ms => exact iff_of_true h trivial

/-- **Where the datagrams for `a` are**: in frames, queued, or refused by a call that threw. -/
def AccountedFor (w : InterfaceRun) (a : UInt32) : Prop :=
  Accounted w.interface.Emits (fun d => ¬ d.Serializable) (logFor a w.submitted)
    (logFor a w.emitted) (w.interface.pending a)

theorem AccountedFor.after {a : UInt32} (h : w.AccountedFor a) (c : InterfaceCall) :
    (w.after c).AccountedFor a := by
  have hdoes := w.interface.does_call c
  have hserves := hdoes.serves a
  unfold AccountedFor at *
  simp only [InterfaceRun.after, logFor_append, hdoes.emits_eq]
  generalize logFor a (submission c) = submitted, logFor a (emission _ _) = emitted,
    (w.interface.call c).pending a = waiting at hserves ⊢
  cases hserves with
  | nothing =>
    simp only [List.append_nil]
    exact h
  | sends hitem hmac hemits => exact h.pass hemits
  | refuses hd =>
    rw [List.append_nil]
    exact h.lose hd
  | queues d =>
    rw [List.append_nil]
    exact h.submit d
  | releases hpending hemits =>
    rw [hpending] at h
    rw [List.append_nil]
    exact h.release hemits

/-- The next ARP message from a hop reaches all that is queued for it. -/
theorem emits_all (h : w.interface.Consistent) {frame : EthernetFrame} {amsg : ARPMessage}
    (hheard : w.interface.heard frame = some amsg) (hcalm : w.Calm (.recvFrame frame)) :
    List.Forall₂ (w.interface.Carries amsg.senderEthernetAddress)
        (w.interface.pending amsg.senderIpAddress) (w.interface.emittedBy (.recvFrame frame)) ∧
      (w.interface.recvFrame frame).1.pending amsg.senderIpAddress = [] := by
  have hdoes : w.interface.Does _ _ (w.interface.recvFrame frame).1 :=
    w.interface.does_call (.recvFrame frame)
  generalize w.interface.emittedBy (.recvFrame frame) = frames,
    (w.interface.recvFrame frame).1 = i' at hdoes ⊢
  cases hdoes with
  | ignores hnone => cases hheard.symm.trans hnone
  | hears hheard' hhears =>
    cases hheard.symm.trans hheard'
    exact hhears.emptied (h _) (hcalm amsg hheard)

/-- **An interface stays consistent until a flush fails.**  In every run of any datagrams, frames
and ticks, calls that throw included: no frame escapes the log, and of the datagrams submitted for a
hop each is in one frame, or waits, or was refused as not serialisable.  And in every run in which
no ARP message lets go a datagram that cannot be serialised: datagrams wait exactly for the
addresses with an open request; the next call keeps it so exactly if it, too, is of that kind; and
then an ARP message emits all that waits for its sender. -/
theorem flush_consistent (ethernetAddress : EthernetAddress) (ipAddress : Address) :
    (∀ w, Reach step (fun _ _ => True) (init ethernetAddress ipAddress) w →
      w.Logged ∧ ∀ a, w.AccountedFor a) ∧
    ∀ w, Reach step Calm (init ethernetAddress ipAddress) w →
      w.interface.Consistent ∧ (∀ c, (w.after c).interface.Consistent ↔ w.Calm c) ∧
      ∀ frame amsg, w.interface.heard frame = some amsg → w.Calm (.recvFrame frame) →
        List.Forall₂ (w.interface.Carries amsg.senderEthernetAddress)
            (w.interface.pending amsg.senderIpAddress)
            (w.interface.emittedBy (.recvFrame frame)) ∧
          (w.interface.recvFrame frame).1.pending amsg.senderIpAddress = [] := by
  refine ⟨fun w h => ⟨?_, fun a => ?_⟩, fun w h => ?_⟩
  · refine h.invariant (I := Logged) rfl fun w c w' hw _ hstep => ?_
    obtain rfl := Option.some.inj hstep
    exact hw.after c
  · refine h.invariant (I := fun w => w.AccountedFor a) .empty fun w c w' hw _ hstep => ?_
    obtain rfl := Option.some.inj hstep
    exact hw.after c
  · have hconsistent : w.interface.Consistent := by
      refine h.invariant (I := fun w => w.interface.Consistent)
        (fun a => by simp [init, NetworkInterface.pending]) fun w c w' hw hcalm hstep => ?_
      obtain rfl := Option.some.inj hstep
      exact (consistent_after_iff hw c).mpr hcalm
    exact ⟨hconsistent, consistent_after_iff hconsistent,
      fun frame amsg hheard hcalm => emits_all hconsistent hheard hcalm⟩

/-- A datagram that cannot be serialised waits for host 3 while one for host 2 is let go. -/
theorem flush_consistent_run :
    let mac : EthernetAddress := #v[2, 0, 0, 0, 0, 1]
    ∃ w, Reach step Calm (init mac ⟨1, 0⟩) w ∧
      ((logFor 2 w.emitted).length = 1 ∧ ∃ d ∈ w.interface.pending 3, ¬ d.Serializable) ∧
      w.interface.Consistent ∧ ∀ c, (w.after c).interface.Consistent ↔ w.Calm c := by
  intro mac
  let peer : ARPMessage :=
    { opcode := ARPMessage.opcodeReply, senderEthernetAddress := #v[2, 0, 0, 0, 0, 2]
      senderIpAddress := 2, targetEthernetAddress := mac, targetIpAddress := 1 }
  obtain ⟨w, hw, hlog⟩ := exists_reach_of_exec step Calm (init mac ⟨1, 0⟩)
    [.sendDatagram {} ⟨3, 0⟩, .sendDatagram { header := { len := 20 } } ⟨2, 0⟩,
      .recvFrame { header := { dst := mac, type := EthernetHeader.typeARP }
                   payload := .ofString peer.fields }]
    (fun w => (logFor 2 w.emitted).length = 1 ∧ ∃ d ∈ w.interface.pending 3, ¬ d.Serializable)
    (by decide)
  obtain ⟨hconsistent, hafter, -⟩ := (flush_consistent mac ⟨1, 0⟩).2 w hw
  exact ⟨w, hw, of_decide_eq_true hlog, hconsistent, hafter⟩

/-- **A failed flush is not repaired.**  Of two datagrams for host 2 the first cannot be serialised.
The ARP message from host 2 leaves both of them queued with no request open, and when it comes a
second time nothing is emitted and both are still there. -/
theorem failed_flush_stuck :
    let mac : EthernetAddress := #v[2, 0, 0, 0, 0, 1]
    let peer : ARPMessage :=
      { opcode := ARPMessage.opcodeReply, senderEthernetAddress := #v[2, 0, 0, 0, 0, 2]
        senderIpAddress := 2, targetEthernetAddress := mac, targetIpAddress := 1 }
    let told : InterfaceCall := .recvFrame
      { header := { dst := mac, type := EthernetHeader.typeARP }
        payload := .ofString peer.fields }
    ∃ w, Reach step (fun _ _ => True) (init mac ⟨1, 0⟩) w ∧
      w.interface.pending 2 = [{}, { header := { len := 20 } }] ∧
      w.interface.arpPendingIp 2 = none ∧ w.interface.emittedBy told = [] ∧
      (w.interface.call told).pending 2 = w.interface.pending 2 := by
  intro mac peer told
  obtain ⟨w, hw, hlog⟩ := exists_reach_of_exec step (fun _ _ => True) (init mac ⟨1, 0⟩)
    [.sendDatagram {} ⟨2, 0⟩, .sendDatagram { header := { len := 20 } } ⟨2, 0⟩, told]
    (fun w => w.interface.pending 2 = [{}, { header := { len := 20 } }] ∧
      w.interface.arpPendingIp 2 = none ∧ w.interface.emittedBy told = [] ∧
      (w.interface.call told).pending 2 = w.interface.pending 2) (by decide)
  exact ⟨w, hw, of_decide_eq_true hlog⟩

end InterfaceRun
