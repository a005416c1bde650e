import Sponge.Network.Emission

/-!
# Network/Resolution — the interfaces of a link agree on who is who

Any number of interfaces on one link, which loses, repeats, delays and reorders the frames they emit
but makes up none.  What an interface says of itself in an ARP message is true, so what the others
learn from it is, and a frame for a next hop goes to the interface that owns it
(`Lan.resolution_agrees`).  Nothing is asked of the datagrams: a call that throws is part of the
run.
-/

/-- The frame holds an ARP message that names an owner as its sender. -/
def EthernetFrame.Tells (Owns : UInt32 → EthernetAddress → Prop) (f : EthernetFrame) : Prop :=
  ∃ msg : ARPMessage, msg.supported = true ∧ f.payload = .ofString msg.fields ∧
    Owns msg.senderIpAddress msg.senderEthernetAddress

namespace InterfaceRun

/-- **An interface in good faith**: given who owns which address, its own claim is true, it says
nothing else of itself, and what it has learnt and done is right. -/
structure Honest (Owns : UInt32 → EthernetAddress → Prop) (w : InterfaceRun) : Prop where
  self : Owns w.interface.ipAddress.ipv4Numeric w.interface.ethernetAddress
  tells : ∀ f ∈ w.interface.framesOut, f.isIPv4 = true ∨ f.Tells Owns
  knows : ∀ a item, w.interface.mapItems a = some item → Owns a item.macAddr
  emits : ∀ entry ∈ w.emitted, Owns entry.1 entry.2.header.dst

variable {Owns : UInt32 → EthernetAddress → Prop} {w : InterfaceRun} {c : InterfaceCall}

theorem Honest.tells_request (h : w.Honest Owns) (dst : EthernetAddress) (ip : UInt32) :
    (w.interface.arpFrame dst (w.interface.request ip)).Tells Owns :=
  ⟨w.interface.request ip, rfl, rfl, h.self⟩

theorem Honest.tells_reply (h : w.Honest Owns) (dst : EthernetAddress) (amsg : ARPMessage) :
    (w.interface.arpFrame dst (w.interface.reply amsg)).Tells Owns :=
  ⟨w.interface.reply amsg, rfl, rfl, h.self⟩

/-- What is known stays true where a true entry is set. -/
theorem Honest.knows_update (h : w.Honest Owns) {b : UInt32} {entry : Option ArpMapItem}
    (hentry : ∀ item ∈ entry, Owns b item.macAddr) (a : UInt32) (item : ArpMapItem)
    (hitem : Function.update w.interface.mapItems b entry a = some item) :
    Owns a item.macAddr := by
  rw [Function.update_apply] at hitem
  split_ifs at hitem with hab
  · rw [hab]
    exact hentry item hitem
  · exact h.knows a item hitem

/-- **A call keeps good faith**, if the ARP message it hears is true. -/
theorem Honest.after (h : w.Honest Owns)
    (hheard : ∀ frame amsg, c = .recvFrame frame → w.interface.heard frame = some amsg →
      Owns amsg.senderIpAddress amsg.senderEthernetAddress) :
    (w.after c).Honest Owns := by
  have hdoes := w.interface.does_call c
  unfold InterfaceRun.after
  generalize w.interface.emittedBy c = frames, w.interface.call c = i' at hdoes ⊢
  cases hdoes with
  | sends hitem hlive hmac hcarries =>
    obtain ⟨payload, -, rfl⟩ := hcarries
    refine ⟨h.self, ?_, h.knows, ?_⟩
    · simp only [List.forall_mem_append, List.forall_mem_singleton]
      exact ⟨h.tells, .inl rfl⟩
    · simp only [emission, NetworkInterface.hop, List.map_cons, List.map_nil,
        List.forall_mem_append, List.forall_mem_singleton]
      exact ⟨h.emits, h.knows _ _ hitem⟩
  | throws | ignores | tick =>
    simp only [emission_nil, List.append_nil]
    exact ⟨h.self, h.tells, h.knows, h.emits⟩
  | queues hqueues =>
    rename_i d nextHop
    obtain ⟨stamp, hentry, hframes⟩ := hqueues
    simp only [emission_nil, List.append_nil]
    refine ⟨h.self, List.forall_mem_append.mpr ⟨h.tells, ?_⟩,
      h.knows_update fun item hitem => h.knows _ _ (hentry item hitem).1, h.emits⟩
    obtain rfl | rfl := hframes
    · simp
    · simpa using .inr (h.tells_request ethernetBroadcast nextHop.ipv4Numeric)
  | hears hsome hhears =>
    rename_i frame amsg r
    have howns := hheard frame amsg rfl hsome
    obtain ⟨hpending, hqueue, hframes, hreplies, hleft⟩ := hhears
    have hto : ∀ f ∈ frames, f.isIPv4 = true ∧ f.header.dst = amsg.senderEthernetAddress := by
      intro f hf
      obtain ⟨d, -, payload, -, rfl⟩ := NetworkInterface.exists_mem_carries hframes f hf
      exact ⟨rfl, rfl⟩
    refine ⟨h.self, ?_, h.knows_update (by simpa using howns), ?_⟩
    · rw [List.forall_mem_append, List.forall_mem_append]
      refine ⟨h.tells, fun f hf => .inl (hto f hf).1, ?_⟩
      obtain rfl | rfl := hreplies
      · simp
      · simpa using .inr (h.tells_reply amsg.senderEthernetAddress amsg)
    · simp only [emission, NetworkInterface.hop, hsome, Option.map_some, List.forall_mem_append,
        List.forall_mem_map]
      refine ⟨h.emits, fun f hf => ?_⟩
      rw [(hto f hf).2]
      exact howns

end InterfaceRun

/-! ## The link -/

/-- **A shared link**, with a run of each interface on it. -/
abbrev Lan (ι : Type*) := ι → InterfaceRun

namespace Lan

variable {ι : Type*} [DecidableEq ι]

def init (mac : ι → EthernetAddress) (ip : ι → Address) : Lan ι := fun n => .init (mac n) (ip n)

/-- A call on one of the interfaces. -/
def step (l : Lan ι) (op : ι × InterfaceCall) : Option (Lan ι) :=
  some (Function.update l op.1 ((l op.1).after op.2))

/-- **The link makes up no frames**: what is delivered was emitted by some interface, and is parsed
from its bytes. -/
def Unforged (l : Lan ι) (op : ι × InterfaceCall) : Prop :=
  match op.2 with
  | .recvFrame frame => ∃ m, ∃ f ∈ (l m).interface.framesOut,
      ({} : EthernetFrame).parse (.ofString f.serialize.concatenate) = (.noError, frame)
  | _ => True

instance [Fintype ι] (l : Lan ι) (op : ι × InterfaceCall) : Decidable (l.Unforged op) := by
  unfold Unforged
  split <;> infer_instance

/-- **What is heard of a frame is what its sender told.** -/
theorem owns_of_heard {Owns : UInt32 → EthernetAddress → Prop} {i : NetworkInterface}
    {f frame : EthernetFrame} {amsg : ARPMessage} (htells : f.isIPv4 = true ∨ f.Tells Owns)
    (hparse : ({} : EthernetFrame).parse (.ofString f.serialize.concatenate) = (.noError, frame))
    (hheard : i.heard frame = some amsg) :
    Owns amsg.senderIpAddress amsg.senderEthernetAddress := by
  obtain ⟨buffer, hbuffer, heq⟩ := EthernetFrame.parse_serialize {} f
  obtain ⟨-, rfl⟩ := Prod.mk.inj (heq.symm.trans hparse)
  obtain ⟨-, harp, buffer', hcontiguous, hmsg⟩ := NetworkInterface.of_heard hheard
  obtain rfl := Except.ok.inj hcontiguous
  obtain htype | ⟨msg, hsupported, hpayload, howns⟩ := htells
  · -- an IPv4 frame is not taken for an ARP message
    have hne : EthernetHeader.typeARP ≠ EthernetHeader.typeIPv4 := by decide
    exact absurd (harp.symm.trans (beq_iff_eq.mp htype)) hne
  · have hserialize : msg.serialize = .ok msg.fields := if_neg (by simp [hsupported])
    have hback : ({} : ARPMessage).parse buffer = (.noError, msg) :=
      ARPMessage.parse_serialize {} hserialize (by rw [hbuffer, hpayload]; exact List.prefix_rfl)
    obtain ⟨-, rfl⟩ := Prod.mk.inj (hback.symm.trans hmsg)
    exact howns

/-- **Good faith is kept on a link that forges nothing.** -/
theorem honest_step {Owns : UInt32 → EthernetAddress → Prop} {l l' : Lan ι}
    {op : ι × InterfaceCall} (h : ∀ n, (l n).Honest Owns) (hok : l.Unforged op)
    (hstep : l.step op = some l') : ∀ n, (l' n).Honest Owns := by
  obtain rfl := Option.some.inj hstep
  obtain ⟨m, c⟩ := op
  intro n
  rw [Function.update_apply]
  split_ifs with hn
  · refine (h m).after fun frame amsg hc hheard => ?_
    obtain rfl : c = .recvFrame frame := hc
    obtain ⟨k, f, hf, hparse⟩ := hok
    exact owns_of_heard ((h k).tells f hf) hparse hheard
  · exact h n

variable {l : Lan ι}

/-- **The interfaces agree on who is who.**  On a link of interfaces with distinct IP addresses that
forges no frames, in every run of sends of any datagrams, deliveries and ticks: every IPv4 frame
that an interface emits for a next hop is addressed to the interface that owns it, and none is
emitted for a next hop that nobody owns.  The frames logged are all the IPv4 frames there are. -/
theorem resolution_agrees (mac : ι → EthernetAddress) (ip : ι → Address)
    (hip : Function.Injective fun n => (ip n).ipv4Numeric)
    (h : Reach step Unforged (init mac ip) l) (n : ι) :
    (l n).emitted.map Prod.snd = (l n).interface.framesOut.filter EthernetFrame.isIPv4 ∧
    ∀ a f, (a, f) ∈ (l n).emitted → (∃ k, (ip k).ipv4Numeric = a) ∧
      ∀ k, (ip k).ipv4Numeric = a → f.header.dst = mac k := by
  let Owns (a : UInt32) (m : EthernetAddress) : Prop := ∃ k, (ip k).ipv4Numeric = a ∧ mac k = m
  have hhonest : ∀ n, (l n).Honest Owns := by
    refine h.invariant (I := fun l => ∀ n, (l n).Honest Owns) (fun n => ?_)
      fun l op l' hl hok hstep => honest_step hl hok hstep
    exact ⟨⟨n, rfl, rfl⟩, by simp [init, InterfaceRun.init], by simp [init, InterfaceRun.init],
      by simp [init, InterfaceRun.init]⟩
  have hlogged : (l n).Logged := by
    refine h.invariant (I := fun l => (l n).Logged) rfl fun l op l' hl _ hstep => ?_
    obtain rfl := Option.some.inj hstep
    rw [Function.update_apply]
    split_ifs with hn
    · rw [← hn]
      exact hl.after op.2
    · exact hl
  refine ⟨hlogged, fun a f hf => ?_⟩
  obtain ⟨k, hk, hmac⟩ : Owns a f.header.dst := (hhonest n).emits _ hf
  refine ⟨⟨k, hk⟩, fun k' hk' => ?_⟩
  rw [hip (hk'.trans hk.symm)]
  exact hmac.symm

/-- Two hosts: one asks for the other, is answered, and sends what it has queued. -/
theorem resolution_agrees_run :
    let mac : Bool → EthernetAddress
      | false => #v[2, 0, 0, 0, 0, 1]
      | true => #v[2, 0, 0, 0, 0, 2]
    let ip : Bool → Address
      | false => ⟨1, 0⟩
      | true => ⟨2, 0⟩
    ∃ l, Reach step Unforged (init mac ip) l ∧ (l false).emitted ≠ [] ∧
      (l false).emitted.map Prod.snd =
        (l false).interface.framesOut.filter EthernetFrame.isIPv4 ∧
      ∀ a f, (a, f) ∈ (l false).emitted → (∃ k, (ip k).ipv4Numeric = a) ∧
        ∀ k, (ip k).ipv4Numeric = a → f.header.dst = mac k := by
  intro mac ip
  let asker : NetworkInterface := { ethernetAddress := mac false, ipAddress := ip false }
  let owner : NetworkInterface := { ethernetAddress := mac true, ipAddress := ip true }
  let onWire (f : EthernetFrame) : EthernetFrame :=
    (({} : EthernetFrame).parse (.ofString f.serialize.concatenate)).2
  obtain ⟨l, hl, hlog⟩ := exists_reach_of_exec step Unforged (init mac ip)
    [(false, .sendDatagram { header := { len := 20 } } (ip true)),
      (true, .recvFrame (onWire (asker.arpFrame ethernetBroadcast (asker.request 2)))),
      (false, .recvFrame (onWire (owner.arpFrame (mac false) (owner.reply (asker.request 2)))))]
    (fun l => (l false).emitted ≠ []) (by decide)
  exact ⟨l, hl, of_decide_eq_true hlog, resolution_agrees mac ip (by decide) hl false⟩

end Lan
