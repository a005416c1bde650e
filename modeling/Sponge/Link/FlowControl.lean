import Sponge.Link.Safety
import Sponge.Sender.Filling

/-!
# Link/FlowControl — does the sender stay within the window?

The receiver's acks advertise right edges, `ackno + window`.  What the sender transmits should end
at the largest edge delivered to it, or one number past it when that edge came with a zero window.

The sender records the window of every ack it does not take for one of the future, old acks
included, and keeps its base; and what is left of the window is an unsigned difference.  So an old
ack with a larger window opens the window beyond what the receiver has (`flow_control_broken`), and
a window smaller than what is in flight opens it altogether.  As long as nothing is sent in such a
state, the edges are respected (`flow_control`).
-/

open Word64 TCPSender

/-- The right edge of the advertised window. -/
def Ack.edge (ack : Ack) : ℕ := ack.absolute + ack.window.toNat

/-- The number `stop` is not past the largest edge, or one past it if it came with a zero window. -/
def WithinEdge (acks : List Ack) (stop : ℕ) : Prop :=
  ∃ ack ∈ acks, (∀ other ∈ acks, other.edge ≤ ack.edge) ∧
    (stop ≤ ack.edge ∨ ack.window = 0 ∧ stop ≤ ack.edge + 1)

instance (acks : List Ack) (stop : ℕ) : Decidable (WithinEdge acks stop) :=
  inferInstanceAs (Decidable (∃ _ ∈ _, _))

/-- How far an ack lets the sender go: its right edge, a zero window counting as one. -/
def Ack.reach (ack : Ack) : ℕ := ack.absolute + max ack.window.toNat 1

variable {isn : WrappingInt32} {l l' : Link} {op : LinkOp}

/-- **What one ack lets through is within the largest edge.** -/
theorem withinEdge_of_le_reach {acks : List Ack} {ack : Ack} {stop : ℕ} (hack : ack ∈ acks)
    (hle : stop ≤ ack.reach) : WithinEdge acks stop := by
  obtain ⟨top, htop, hmax⟩ := acks.toFinset.exists_max_image Ack.edge ⟨ack, by simpa using hack⟩
  simp only [List.mem_toFinset] at htop hmax
  have hzero : ack.window.toNat = 0 → ack.window = 0 := fun h => UInt16.toNat_inj.mp h
  rcases (hmax ack hack).lt_or_eq with hlt | heq
  · refine ⟨top, htop, hmax, Or.inl ?_⟩
    unfold Ack.reach at hle
    unfold Ack.edge at hlt ⊢
    omega
  · refine ⟨ack, hack, fun other hother => heq ▸ hmax other hother, ?_⟩
    unfold Ack.reach at hle
    unfold Ack.edge
    by_cases hw : ack.window.toNat = 0
    · exact Or.inr ⟨hzero hw, by omega⟩
    · exact Or.inl (by omega)

/-! ## One fill of the window -/

namespace TCPSender

variable {s : TCPSender}

/-- **What `fill_window` sends ends within the window**, if what is in flight fits it. -/
theorem fillWindow_within (hbase : s.sendBase ≤ s.nextSeqno) (hwin : s.windowSize < 2 ^ 64)
    (hfits : s.HasWork → s.nextSeqno ≤ s.sendBase + s.windowSize) {segs : List TCPSegment}
    (hsends : Sends segs s s.fillWindow) {x : ℕ × TCPSegment}
    (hx : x ∈ place TCPSegment.lengthInSequenceSpace s.nextSeqno segs)
    (hsyn : x.2.header.syn = false) :
    s.HasWork ∧ s.nextSeqno < x.1 + x.2.lengthInSequenceSpace ∧
      x.1 + x.2.lengthInSequenceSpace ≤ s.sendBase + s.windowSize := by
  obtain ⟨hmem, hle, hend, hpos, -⟩ := hsends.tiles.of_mem_place hx
  by_cases hwork : s.HasWork
  · have hidle : s.synFlag = false → s.nextSeqno = 0 := fun hno => by cases hno.symm.trans hwork.1
    have hnext := (Fits.fillWindow ⟨hbase, hfits hwork, hwin⟩ hidle).next_le
    rw [hsends.frame.sendBase, hsends.frame.windowSize] at hnext
    exact ⟨hwork, by omega, hend.trans hnext⟩
  · have hout := hsends.segmentsOut
    rcases fillWindow_of_not_hasWork hwork with heq | ⟨-, heq⟩
    · rw [heq, List.self_eq_append_right] at hout
      rw [hout] at hmem
      cases hmem
    · rw [heq, sendSyn_eq, List.append_cancel_left_eq] at hout
      rw [← hout, List.mem_singleton] at hmem
      rw [hmem] at hsyn
      cases hsyn

/-- The same after an ack of new data, with the window it brings. -/
theorem advanceBase_within {v : ℕ} (hv : v ≤ s.nextSeqno) (window : UInt16)
    (hfits : s.HasWork → s.nextSeqno ≤ v + max window.toNat 1) {segs : List TCPSegment}
    (hsends : Sends segs (s.advanceBase v window) (s.advanceBase v window).fillWindow)
    {x : ℕ × TCPSegment} (hx : x ∈ place TCPSegment.lengthInSequenceSpace s.nextSeqno segs)
    (hsyn : x.2.header.syn = false) :
    x.1 + x.2.lengthInSequenceSpace ≤ v + max window.toNat 1 := by
  rw [advanceBase_eq] at hsends
  have hw := window.toNat_lt
  exact (fillWindow_within hv (by simp only; omega) hfits hsends hx hsyn).2.2

end TCPSender

/-! ## Runs -/

namespace Link

/-- Every first transmission but the SYN ends where some ack delivered lets it. -/
structure Paced (l : Link) : Prop where
  window_lt : l.run.sender.windowSize < 2 ^ 64
  granted : ∀ x ∈ place TCPSegment.lengthInSequenceSpace 0 l.run.firsts,
    x.2.header.syn = false → ∃ ack ∈ l.delivered, x.1 + x.2.lengthInSequenceSpace ≤ ack.reach

/-- When there is something to send, the window is not one that is too small for what is in flight,
nor, having room, one that reaches beyond every ack delivered. -/
def Orderly (l : Link) : LinkOp → Prop
  | .fillWindow => l.run.sender.HasWork →
      l.run.sender.nextSeqno = l.run.sender.sendBase + l.run.sender.windowSize ∨
      (l.run.sender.nextSeqno < l.run.sender.sendBase + l.run.sender.windowSize ∧
        ∃ ack ∈ l.delivered, l.run.sender.sendBase + l.run.sender.windowSize ≤ ack.reach)
  | .deliverAck k => ∀ ack ∈ l.acks[k]?, l.run.sender.HasWork →
      l.run.sender.sendBase < ack.absolute → l.run.sender.nextSeqno ≤ ack.reach
  | _ => True

instance (l : Link) (op : LinkOp) : Decidable (l.Orderly op) :=
  match op with
  | .fillWindow => inferInstanceAs (Decidable (_ → _ ∨ _ ∧ ∃ _ ∈ _, _))
  | .deliverAck _ => inferInstanceAs (Decidable (∀ _ ∈ _, _ → _ → _))
  | .write _ | .endInput | .tick _ | .deliverSegment _ | .produceAck | .read _ =>
    inferInstanceAs (Decidable True)

namespace Paced

theorem init (sendCapacity recvCapacity : UInt64) (retxTimeout : UInt16) (isn : WrappingInt32) :
    Paced (.init sendCapacity recvCapacity retxTimeout isn) where
  window_lt := by simp [Link.init, SenderRun.init, TCPSender.new]
  granted := by simp [Link.init, SenderRun.init, place]

/-- **New segments within the window of an ack delivered keep the pace.** -/
theorem advance (h : l.Paced) (hag : l.Agrees isn) {segs : List TCPSegment}
    (hfirsts : l'.run.firsts = l.run.firsts ++ segs) (hdel : l.delivered ⊆ l'.delivered)
    (hwin : l'.run.sender.windowSize < 2 ^ 64)
    (hsegs : ∀ x ∈ place TCPSegment.lengthInSequenceSpace l.run.sender.nextSeqno segs,
      x.2.header.syn = false →
        ∃ ack ∈ l'.delivered, x.1 + x.2.lengthInSequenceSpace ≤ ack.reach) : l'.Paced where
  window_lt := hwin
  granted x hx hsyn := by
    rw [hfirsts, place_append, hag.sequenced.tiles.add_sum] at hx
    rcases List.mem_append.mp hx with hx | hx
    · obtain ⟨ack, hack, hle⟩ := h.granted x hx hsyn
      exact ⟨ack, hdel hack, hle⟩
    · exact hsegs x hx hsyn

/-- A call that sends nothing new. -/
theorem congr (h : l.Paced) (hfirsts : l'.run.firsts = l.run.firsts)
    (hwin : l'.run.sender.windowSize = l.run.sender.windowSize)
    (hdel : l'.delivered = l.delivered) : l'.Paced := by
  refine ⟨hwin ▸ h.window_lt, ?_⟩
  rw [hfirsts, hdel]
  exact h.granted

/-- **Filling the window in an orderly state.** -/
theorem fillWindow (h : l.Paced) (hag : l.Agrees isn) (hord : l.Orderly .fillWindow) :
    Paced { l with run := l.run.apply .fillWindow } := by
  obtain ⟨segs, hsends⟩ := l.run.sender.fillWindow_sends
  obtain ⟨popped, start, hq⟩ := hag.queued
  refine h.advance hag (congrArg (_ ++ ·) (SenderRun.emitted_eq hsends.segmentsOut))
    (List.Subset.refl _) (hsends.frame.windowSize ▸ h.window_lt) fun x hx hsyn => ?_
  have hfits : l.run.sender.HasWork →
      l.run.sender.nextSeqno ≤ l.run.sender.sendBase + l.run.sender.windowSize := fun hwork =>
    (hord hwork).elim Eq.le fun hroom => hroom.1.le
  obtain ⟨hwork, hlt, hle⟩ :=
    fillWindow_within hq.base_le h.window_lt hfits hsends hx hsyn
  rcases hord hwork with heq | ⟨-, ack, hack, hreach⟩
  · omega
  · exact ⟨ack, hack, hle.trans hreach⟩

/-- **An ack, after which the window is filled only as far as it allows.** -/
theorem deliverAck (h : l.Paced) (hag : l.Agrees isn) {ack : Ack} (hmem : ack ∈ l.acks)
    (hnear : Near ack.absolute l.run.sender.sendBase) (hfit : l.run.sender.nextSeqno < 2 ^ 64)
    (hord : l.run.sender.HasWork → l.run.sender.sendBase < ack.absolute →
      l.run.sender.nextSeqno ≤ ack.reach) :
    Paced { l with
      run := l.run.apply (.ackReceived ack.ackno ack.window)
      delivered := l.delivered ++ [ack] } := by
  obtain ⟨hno, hle, hsyn⟩ := hag.acks ack hmem
  have hunwrap : unwrap ack.ackno l.run.sender.isn l.run.sender.sendBase = ack.absolute := by
    rw [hno, ← hag.sequenced.isn]
    exact hag.channel.unwrap_ackno hle hsyn hnear hfit
  have hw : max ack.window.toNat 1 < 2 ^ 64 := by
    have := ack.window.toNat_lt
    omega
  have hdel : l.delivered ⊆ l.delivered ++ [ack] := List.subset_append_left _ _
  have hquiet : ∀ s, l.run.sender.ackReceived ack.ackno ack.window = s →
      s.segmentsOut = l.run.sender.segmentsOut → s.windowSize < 2 ^ 64 → Paced { l with
        run := l.run.apply (.ackReceived ack.ackno ack.window)
        delivered := l.delivered ++ [ack] } := by
    rintro s rfl hout hwin
    have hnil : (l.run.sender.ackReceived ack.ackno ack.window).segmentsOut =
        l.run.sender.segmentsOut ++ [] := by rw [hout, List.append_nil]
    exact h.advance hag (congrArg (_ ++ ·) (SenderRun.emitted_eq hnil)) hdel hwin (by simp [place])
  obtain ⟨-, heq⟩ | ⟨-, -, heq⟩ | ⟨hnext, hlt, heq⟩ :=
    l.run.sender.ackReceived_cases ack.ackno ack.window
  · exact hquiet _ heq rfl h.window_lt
  · rw [recordWindow_eq] at heq
    exact hquiet _ heq rfl hw
  · rw [hunwrap] at hnext hlt heq
    obtain ⟨segs, hsends⟩ :=
      (l.run.sender.advanceBase ack.absolute ack.window).fillWindow_sends
    have hout : (l.run.sender.ackReceived ack.ackno ack.window).segmentsOut =
        l.run.sender.segmentsOut ++ segs := by
      rw [heq, restartTimer, hsends.segmentsOut, advanceBase_eq]
    refine h.advance hag (congrArg (_ ++ ·) (SenderRun.emitted_eq hout)) hdel ?_
      fun x hx hxsyn => ⟨ack, by simp, ?_⟩
    · refine (congrArg TCPSender.windowSize heq).trans_lt ?_
      rw [restartTimer, hsends.frame.windowSize, advanceBase_eq]
      exact hw
    · exact advanceBase_within hnext ack.window
        (fun hwork => hord hwork hlt) hsends hx hxsyn

/-- **Every step of an orderly run keeps the pace.** -/
theorem step (h : l.Paced) (hag : l.Agrees isn) (hok : l.InRange op) (hord : l.Orderly op)
    (hs : l.step op = some l') : l'.Paced := by
  cases op with
  | write data =>
    obtain rfl := Option.some.inj hs
    exact h.congr rfl rfl rfl
  | endInput =>
    obtain rfl := Option.some.inj hs
    exact h.congr rfl rfl rfl
  | fillWindow =>
    obtain rfl := Option.some.inj hs
    exact h.fillWindow hag hord
  | tick ms =>
    obtain rfl := Option.some.inj hs
    obtain ⟨segs, count, timer, heq, -⟩ := l.run.sender.tick_frame ms
    exact h.congr rfl (by simp only [SenderRun.apply, heq]) rfl
  | deliverSegment k =>
    obtain ⟨seg, -, hs⟩ := Option.bind_eq_some_iff.mp hs
    obtain ⟨receiver, -, rfl⟩ := Option.map_eq_some_iff.mp hs
    exact h.congr rfl rfl rfl
  | produceAck =>
    obtain ⟨ackno, -, rfl⟩ := Option.map_eq_some_iff.mp hs
    exact h.congr rfl rfl rfl
  | deliverAck k =>
    obtain ⟨ack, hack, rfl⟩ := Option.map_eq_some_iff.mp hs
    obtain ⟨-, hsmall, hnear⟩ := hok
    exact h.deliverAck hag (List.mem_of_getElem? hack) (hnear ack hack) (by omega) (hord ack hack)
  | read len =>
    obtain rfl := Option.some.inj hs
    exact h.congr rfl rfl rfl

end Paced

/-- **Flow control across the two parties**, in the runs in which sending is orderly: every segment
but the SYN, when first sent, ends within the largest right edge delivered, a zero window letting
one number through. -/
theorem flow_control {sendCapacity recvCapacity : UInt64} {retxTimeout : UInt16}
    (h : Reach step (fun l op => l.InRange op ∧ l.Orderly op)
      (init sendCapacity recvCapacity retxTimeout isn) l) :
    ∀ x ∈ place TCPSegment.lengthInSequenceSpace 0 l.run.firsts, x.2.header.syn = false →
      WithinEdge l.delivered (x.1 + x.2.lengthInSequenceSpace) := by
  have hinv : l.Agrees isn ∧ l.Paced := h.invariant (I := fun l => l.Agrees isn ∧ l.Paced)
    ⟨.init sendCapacity recvCapacity retxTimeout isn,
      .init sendCapacity recvCapacity retxTimeout isn⟩
    fun _ _ _ ih hok hs => ⟨ih.1.step hok.1 hs, ih.2.step ih.1 hok.1 hok.2 hs⟩
  intro x hx hsyn
  obtain ⟨ack, hack, hreach⟩ := hinv.2.granted x hx hsyn
  exact withinEdge_of_le_reach hack hreach

/-- A zero window lets one byte through, and an old ack does no harm when a fresh one comes before
the next fill. -/
theorem flow_control_probe : ∃ l, Reach step (fun l op => l.InRange op ∧ l.Orderly op)
      (init 10 4 1000 ⟨0⟩) l ∧
    l.run.sender.nextSeqno = 9 ∧ l.delivered.map Ack.edge = [5, 5, 5, 9] ∧
    ∀ x ∈ place TCPSegment.lengthInSequenceSpace 0 l.run.firsts, x.2.header.syn = false →
      WithinEdge l.delivered (x.1 + x.2.lengthInSequenceSpace) := by
  obtain ⟨l, hl, hp⟩ := exists_reach_of_exec step
    (fun l op => l.InRange op ∧ l.Orderly op) (init 10 4 1000 ⟨0⟩)
    [.fillWindow, .deliverSegment 0, .produceAck, .deliverAck 0,
      .write [97, 98, 99, 100, 101, 102, 103, 104], .fillWindow, .deliverSegment 1, .produceAck,
      .deliverAck 1, .deliverAck 0, .read 4, .produceAck, .deliverAck 2, .fillWindow]
    (fun l => l.run.sender.nextSeqno == 9 && l.delivered.map Ack.edge == [5, 5, 5, 9]) (by decide)
  simp only [Bool.and_eq_true, beq_iff_eq] at hp
  exact ⟨l, hl, hp.1, hp.2, flow_control hl⟩

/-- **An old ack opens the window too far.**  A receiver of capacity four is full, the sender has
probed its zero window with one byte, and then the first ack, with its window of four, arrives
again: the next segment ends at nine, though no edge beyond five was ever advertised. -/
theorem flow_control_broken : ∃ l, Reach step InRange (init 10 4 1000 ⟨0⟩) l ∧
    l.delivered.map (fun ack => (ack.absolute, ack.window)) = [(1, 4), (5, 0), (1, 4)] ∧
    ∃ x ∈ place TCPSegment.lengthInSequenceSpace 0 l.run.firsts, x.2.header.syn = false ∧
      x.1 + x.2.lengthInSequenceSpace = 9 ∧
      ¬ WithinEdge l.delivered (x.1 + x.2.lengthInSequenceSpace) := by
  obtain ⟨l, hl, hp⟩ := exists_reach_of_exec step InRange (init 10 4 1000 ⟨0⟩)
    [.fillWindow, .deliverSegment 0, .produceAck, .deliverAck 0,
      .write [97, 98, 99, 100, 101, 102, 103, 104], .fillWindow, .deliverSegment 1, .produceAck,
      .deliverAck 1, .deliverAck 0, .fillWindow]
    (fun l => decide
      (l.delivered.map (fun ack => (ack.absolute, ack.window)) = [(1, 4), (5, 0), (1, 4)] ∧
      ∃ x ∈ place TCPSegment.lengthInSequenceSpace 0 l.run.firsts, x.2.header.syn = false ∧
        x.1 + x.2.lengthInSequenceSpace = 9 ∧
        ¬ WithinEdge l.delivered (x.1 + x.2.lengthInSequenceSpace))) (by decide)
  exact ⟨l, hl, of_decide_eq_true hp⟩

end Link
