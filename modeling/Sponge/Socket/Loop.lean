import Sponge.Socket.Calls

/-!
# Socket/Loop — the loop of a socket throws nothing of its own

Whatever packets arrive, and however the kernel splits what is read and written, the thread of a
socket ends with an exception only if a system call fails, `poll(2)` reports an error, or the kernel
gives more than it was asked for or takes nothing or more than it was given (`loop_throws`).  The
busy wait that the event loop watches for, the check on what the connection accepts, the serialisers
and the reassembler never throw, the last of them as long as its acceptance limit fits in 64 bits.

A turn of the loop is a run of permitted calls (`calls_of_turn`).
-/

namespace TCPSpongeSocket

variable {α δ : Type}

/-! ## The rules -/

section Rules

variable [FdAdapter α δ] {cfg : TCPConfig} {s s' : TCPSpongeSocket α} {answer : Answer δ}

/-- What a rule relies on since it was asked. -/
theorem Relies.interest {i : SocketRule} (hrange : s.InRange)
    (hinterest : (rule (δ := δ) i).interest s = true) : s.Relies i := by
  cases i with
  | datagram => exact hrange
  | outbound =>
    simp only [rule, Bool.and_eq_true, Bool.not_eq_true'] at hinterest
    exact hinterest.1.2
  | inbound | segments => trivial

theorem InRange.cancel (h : s.InRange) (i : SocketRule) :
    ((rule (δ := δ) i).cancel s).InRange := by
  cases i with
  | outbound =>
    have hsame : s.endOutbound.tcp.receiver = s.tcp.receiver :=
      TCPConnection.receiver_pushSegmentOut { s.tcp with sender := s.tcp.sender.endIn } false
    change s.endOutbound.tcp.receiver.reassembler.edge < 2 ^ 64
    rw [hsame]
    exact h
  | datagram | inbound | segments => exact h

/-- Only rule 2 ends the outbound stream. -/
theorem Relies.cancel {i j : SocketRule} (h : s.Relies j) (hne : j ≠ i) :
    ((rule (δ := δ) i).cancel s).Relies j := by
  cases j with
  | datagram => exact InRange.cancel h i
  | outbound =>
    cases i with
    | outbound => exact absurd rfl hne
    | datagram | inbound | segments => exact h
  | inbound | segments => trivial

theorem Relies.callback {i j : SocketRule} (h : s.Relies j) (hne : j ≠ i) (hj : j ≠ .datagram)
    (hs : (rule i).callback answer s = .ok s') : s'.Relies j := by
  cases j with
  | datagram => exact absurd rfl hj
  | outbound =>
    cases acts_callback hs with
    | took | tookLast => exact absurd rfl hne
    | deaf | received | gave | gaveLast | sent => exact h
  | inbound | segments => trivial

variable [PacketRead δ] [Carrier α]

/-- **A callback that is interested again has used its descriptor.** -/
theorem serves (i : SocketRule) (hs : (rule i).callback answer s = .ok s')
    (hinterest : (rule i).interest s' = true) :
    (rule i).serviceCount s ≠ (rule i).serviceCount s' := by
  -- the counts go on by one, or by two when the owner is told of the end
  cases acts_callback hs with
  | deaf hread | received hread =>
    simp only [EventLoop.Rule.serviceCount, rule, Carrier.counts hread]
    exact FDWrapper.count_ne _
  | took | tookLast => exact FDWrapper.count_ne _
  | gave => exact FDWrapper.count_ne _
  | gaveLast => exact FDWrapper.count_ne_two _
  | sent => simp [rule] at hinterest

/-- **The conditions of the event loop hold for the four rules**, with what they have done to the
socket since it was `s₀`.  Only rule 1 relies on more than its own flag, and it is the first. -/
theorem safe (cfg : TCPConfig) (s₀ : TCPSpongeSocket α) :
    EventLoop.Safe (rule (δ := δ)) (fun i j => j ≠ i ∧ j ≠ .datagram)
      (fun s => (Sane cfg s ∧ Runs s₀ s) ∧ s.InRange)
      (fun s => Sane cfg s ∧ Runs s₀ s) (fun i s => s.Relies i)
      Raised where
  start _ h := h.1
  interest _ _ h hinterest := .interest h.2 hinterest
  callback i answer _ _ h hrelies hs :=
    have hc := Except.toOption_eq_some_iff.mpr hs
    ⟨h.1.call (c := .callback i answer) hc, h.2.tail (i := .callback i answer) hrelies hc⟩
  frame _ _ _ _ _ _ _ hs hr hj := hj.callback hr.1 hr.2 hs
  throws i _ _ _ h hrelies he := h.1.throws i hrelies he
  serves i _ _ _ _ _ hs hinterest := serves i hs hinterest
  cancelStart i _ h :=
    ⟨⟨h.1.1.call (c := .cancel i) rfl, h.1.2.tail (i := .cancel i) trivial rfl⟩, h.2.cancel i⟩
  cancel i _ h := ⟨h.1.call (c := .cancel i) rfl, h.2.tail (i := .cancel i) trivial rfl⟩
  cancel_frame _ _ _ hne h := h.cancel hne

end Rules

/-! ## Runs of the loop -/

/-- What the kernel, the owner and the clock do in a turn of the loop. -/
structure TurnInput (δ : Type) where
  poll : EventLoop.Poll
  answer : ℕ → Answer δ
  abort : Bool := false
  ms : ℕ := 0
  kernel : ℕ → Except Exn Unit := fun _ => .ok ()

/-- The loop between two turns. -/
structure LoopState (α : Type) where
  rules : List SocketRule := TCPSpongeSocket.rules
  socket : TCPSpongeSocket α

variable [FdAdapter α δ] {p p' : LoopState α} {t : TurnInput δ}

/-- A turn of `_tcp_loop`.  The loop that connects is followed by that of the thread, on the same
rules, so a run goes on after a loop is left; it ends with an exception. -/
def LoopState.turn (p : LoopState α) (t : TurnInput δ) : Option (LoopState α) :=
  match loopTurn p.rules p.socket t.poll t.answer t.abort t.ms t.kernel with
  | .error _ => none
  | .ok (_, rules, socket) => some { rules, socket }

theorem LoopState.of_turn (h : p.turn t = some p') : ∃ result q,
    EventLoop.waitNextEvent rule p.rules p.socket t.poll t.answer = .ok (result, q) ∧
      p'.rules = q.rules ∧ (p'.socket = q.state ∨ q.state.tick t.ms t.kernel = .ok p'.socket) := by
  rw [turn] at h
  split at h
  · cases h
  · rename_i flow rules socket hturn
    obtain rfl := Option.some.inj h
    obtain ⟨⟨result, q⟩, hwait, hturn⟩ := Except.bind_eq_ok_iff.mp hturn
    dsimp only at hturn
    refine ⟨result, q, hwait, ?_⟩
    split_ifs at hturn
    · cases hturn
      exact ⟨rfl, .inl rfl⟩
    · obtain ⟨s, htick, hturn⟩ := Except.bind_eq_ok_iff.mp hturn
      cases hturn
      exact ⟨rfl, .inr htick⟩

variable [PacketRead δ] [Carrier α] {cTcp : TCPConfig}

/-- A pass of the event loop on a sane socket. -/
theorem Sane.pass (h : Sane cTcp p.socket) (hrange : InRange p.socket)
    (hrules : p.rules.Sublist rules) (t : TurnInput δ) :
    EventLoop.Good (fun s => Sane cTcp s ∧ Runs p.socket s) Raised t.poll.Broken t.answer p.rules
      ((EventLoop.waitNextEvent rule p.rules p.socket t.poll t.answer).map Prod.snd) := by
  have hnodup : rules.Nodup := by decide
  have horder : rules.Pairwise fun i j => j ≠ i ∧ j ≠ .datagram := by decide
  exact (safe cTcp p.socket).waitNextEvent ⟨⟨h, .refl⟩, hrange⟩ (hnodup.sublist hrules)
    (horder.sublist hrules) _ _

/-- **A turn is a run of permitted calls.** -/
theorem Sane.calls_of_turn (h : Sane cTcp p.socket) (hrange : InRange p.socket)
    (hrules : p.rules.Sublist rules) (ht : p.turn t = some p') :
    Runs p.socket p'.socket ∧ p'.rules.Sublist rules := by
  have hpass := h.pass hrange hrules t
  obtain ⟨result, q, hwait, hq, hsocket⟩ := LoopState.of_turn ht
  rw [hwait] at hpass
  obtain ⟨⟨-, hcalls⟩, hsub⟩ := hpass
  refine ⟨?_, hq ▸ hsub.trans hrules⟩
  rcases hsocket with hsame | htick
  · exact hsame ▸ hcalls
  · exact hcalls.tail (i := .tick t.ms t.kernel) trivial (Except.toOption_eq_some_iff.mpr htick)

theorem Sane.turn (h : Sane cTcp p.socket) (hrange : InRange p.socket)
    (hrules : p.rules.Sublist rules) (ht : p.turn t = some p') :
    Sane cTcp p'.socket ∧ p'.rules.Sublist rules := by
  obtain ⟨hcalls, hsub⟩ := h.calls_of_turn hrange hrules ht
  exact ⟨hcalls.invariant h fun _ _ _ ih _ hc => ih.call hc, hsub⟩

end TCPSpongeSocket
