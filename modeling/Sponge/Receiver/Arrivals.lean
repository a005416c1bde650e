import Sponge.Reassembler.Push
import Sponge.Receiver.Model

/-!
# Receiver/Arrivals — whatever arrives

A receiver may be handed any segment.  All that happens to its inbound stream is that bytes are
written to it and that its input is ended (`segmentReceived_induction`), so what writing and ending
keep, every arrival keeps.  In particular no arrival throws while the acceptance limit fits in 64
bits (`segmentReceived_isSome`).
-/

open Word64

namespace StreamReassembler

variable {r r' : StreamReassembler} {data : Bytes} {index : ℕ} {eof : Bool}

/-- **What writing and ending keep, a push keeps.** -/
theorem pushSubstring_induction {P : ByteStream → Prop} (write : ∀ s data, P s → P (s.write data))
    (endInput : ∀ s, P s → P s.endInput) (h : P r.output)
    (hr : r.pushSubstring data index eof = some r') :
    P r'.output ∧ r'.capacity = r.capacity := by
  have judge : ∀ r₁ : StreamReassembler, P r₁.output → r₁.capacity = r.capacity →
      P (r₁.judgeEof data index eof).output ∧
        (r₁.judgeEof data index eof).capacity = r.capacity := by
    intro r₁ h₁ hcap
    refine ⟨?_, (judgeEof_capacity ..).trans hcap⟩
    simp only [judgeEof]
    split_ifs
    all_goals first | exact endInput _ h₁ | exact h₁
  obtain ⟨r₁, hplaced, rfl⟩ := pushSubstring_placed hr
  cases hplaced with
  | outside => exact judge r h rfl
  | assembled => exact judge _ (drain_induction write _ _ _ _ (write _ _ h)) rfl
  | inserted =>
    obtain ⟨hout, hcap, -⟩ := r.insert_frame (r.cut data index)
    exact judge _ (hout.symm ▸ h) hcap

end StreamReassembler

namespace TCPReceiver

variable {r r' : TCPReceiver} {seg : TCPSegment}

/-- A receiver before the payload of `seg` is looked at: all that may have happened is that its SYN
has been taken and its FIN noted. -/
structure Opens (r : TCPReceiver) (seg : TCPSegment) (r₀ : TCPReceiver) : Prop where
  reassembler : r₀.reassembler = r.reassembler
  capacity : r₀.capacity = r.capacity
  syn : r₀.syn = (r.syn || seg.header.syn)
  kept : r.syn = true → r₀.isn = r.isn ∧ r₀.recvBase = r.recvBase
  first : r.syn = false → r₀.syn = true → r₀.recvBase = 1

theorem Opens.refl (h : r.syn = (r.syn || seg.header.syn)) : Opens r seg r :=
  ⟨rfl, rfl, h, fun _ => ⟨rfl, rfl⟩, fun hs ht => by cases hs.symm.trans ht⟩

theorem Opens.setFin {r₀ : TCPReceiver} (h : Opens r seg r₀) (fin : Bool) :
    Opens r seg { r₀ with fin } :=
  ⟨h.reassembler, h.capacity, h.syn, h.kept, h.first⟩

/-- The state after the lines that handle a first SYN. -/
theorem Opens.syn_taken (hsyn : seg.header.syn = true) (hrs : r.syn = false) :
    Opens r seg { r with syn := true, isn := seg.header.seqno, recvBase := 1 } :=
  ⟨rfl, rfl, by simp [hsyn], fun hs => (by cases hrs.symm.trans hs), fun _ _ => rfl⟩

/-- **What an arrival can do**: nothing, or a SYN is taken, or the payload goes to the reassembler
of a receiver that has its SYN. -/
theorem segmentReceived_arrives (h : r.segmentReceived seg = some r') :
    ∃ r₀, Opens r seg r₀ ∧
      (r' = r₀ ∨ r₀.syn = true ∧ ∃ index, r₀.assemble index seg = some r') := by
  have receive : ∀ {r₀ : TCPReceiver} {seqno : WrappingInt32}, Opens r seg r₀ → r₀.syn = true →
      r₀.receiveAt seqno seg = some r' → ∃ r₁, Opens r seg r₁ ∧
        (r' = r₁ ∨ r₁.syn = true ∧ ∃ index, r₁.assemble index seg = some r') := by
    intro r₀ seqno hopens hsyn hr
    simp only [receiveAt] at hr
    split_ifs at hr
    · exact ⟨r₀, hopens, Or.inl (Option.some.inj hr).symm⟩
    · exact ⟨_, hopens.setFin true, Or.inr ⟨hsyn, _, hr⟩⟩
    · exact ⟨r₀, hopens, Or.inl (Option.some.inj hr).symm⟩
    · exact ⟨r₀, hopens, Or.inl (Option.some.inj hr).symm⟩
    · exact ⟨r₀, hopens, Or.inr ⟨hsyn, _, hr⟩⟩
  unfold segmentReceived at h
  split_ifs at h with hsyn hrs hlen hno
  · exact ⟨r, .refl (by simp [hrs]), Or.inl (Option.some.inj h).symm⟩
  · exact ⟨_, .syn_taken hsyn (by simpa using hrs), Or.inl (Option.some.inj h).symm⟩
  · exact receive (.syn_taken hsyn (by simpa using hrs)) rfl h
  · exact ⟨r, .refl (by simp [hsyn]), Or.inl (Option.some.inj h).symm⟩
  · exact receive (.refl (by simp [hsyn])) (by simpa using hno) h

/-- **What writing and ending keep, an arrival keeps.** -/
theorem segmentReceived_induction {P : ByteStream → Prop}
    (write : ∀ s data, P s → P (s.write data)) (endInput : ∀ s, P s → P s.endInput)
    (h : P r.streamOut) (hr : r.segmentReceived seg = some r') :
    P r'.streamOut ∧ r'.reassembler.capacity = r.reassembler.capacity := by
  obtain ⟨r₀, hopens, rfl | ⟨-, index, hasm⟩⟩ := segmentReceived_arrives hr
  · rw [streamOut, hopens.reassembler]
    exact ⟨h, rfl⟩
  · obtain ⟨ra, hpush, rfl⟩ := Option.map_eq_some_iff.mp hasm
    rw [hopens.reassembler] at hpush
    exact StreamReassembler.pushSubstring_induction write endInput h hpush

/-- **No arrival throws while the acceptance limit fits in 64 bits.** -/
theorem segmentReceived_isSome (hle : r.streamOut.bytesWritten ≤ r.reassembler.edge)
    (hedge : r.reassembler.edge < 2 ^ 64) (seg : TCPSegment) : (r.segmentReceived seg).isSome := by
  have assemble : ∀ (r₀ : TCPReceiver) (index : ℕ), r₀.reassembler = r.reassembler →
      (r₀.assemble index seg).isSome := by
    intro r₀ index hra
    rw [TCPReceiver.assemble, Option.isSome_map, hra]
    exact StreamReassembler.pushSubstring_isSome hle hedge _ _ _
  have receive : ∀ (r₀ : TCPReceiver) (seqno : WrappingInt32), r₀.reassembler = r.reassembler →
      (r₀.receiveAt seqno seg).isSome := by
    intro r₀ seqno hra
    simp only [receiveAt]
    split_ifs
    · rfl
    · exact assemble _ _ hra
    · rfl
    · rfl
    · exact assemble _ _ hra
  unfold segmentReceived
  split_ifs
  · rfl
  · rfl
  · exact receive _ _ rfl
  · rfl
  · exact receive _ _ rfl

end TCPReceiver
