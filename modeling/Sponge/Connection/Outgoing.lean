import Sponge.Connection.Calls
import Sponge.Sender.Steps

/-!
# Connection/Outgoing — what a connection puts on the wire

No call gives a segment options or a payload above `MAX_PAYLOAD_SIZE`, so every segment in
`segments_out` fits a datagram (`reach_plain`), and it stays in that log.  The outbound stream is
ended by `end_input_stream` and by no other call.
-/

open Word64

variable {seg : TCPSegment}

namespace TCPSender

variable {s s' : TCPSender}

/-- All that the sender has queued is plain. -/
def Tidy (s : TCPSender) : Prop := ∀ seg ∈ s.segmentsOut ++ s.copySegmentsOut, seg.Plain

/-- So is any part of it. -/
theorem Tidy.subset (h : s.Tidy)
    (hsub : s'.segmentsOut ++ s'.copySegmentsOut ⊆ s.segmentsOut ++ s.copySegmentsOut) : s'.Tidy :=
  fun seg hseg => h seg (hsub hseg)

/-- A plain segment goes to the end of both queues. -/
theorem Tidy.queue (h : s.Tidy) (hseg : seg.Plain)
    (hout : s'.segmentsOut = s.segmentsOut ++ [seg])
    (hcopy : s'.copySegmentsOut = s.copySegmentsOut ++ [seg]) : s'.Tidy := by
  intro seg' hseg'
  rw [hout, hcopy] at hseg'
  simp only [List.mem_append, List.mem_singleton] at hseg'
  rcases hseg' with (hold | rfl) | hold | rfl
  · exact h seg' (List.mem_append_left _ hold)
  · exact hseg
  · exact h seg' (List.mem_append_right _ hold)
  · exact hseg

/-- What `fill_window` queues is plain: its payload is cut at `MAX_PAYLOAD_SIZE`. -/
theorem Emits.tidy (hemit : Emits s s') (h : s.Tidy) : s'.Tidy := by
  cases hemit with
  | syn =>
    have hplain : s.synSegment.Plain := ⟨rfl, Nat.zero_le _⟩
    exact h.queue hplain rfl rfl
  | next len fin _ _ hlen =>
    rw [sendNext_eq]
    have hplain : (s.nextSegment len fin).Plain := ⟨rfl, (List.length_take_le _ _).trans hlen⟩
    exact h.queue hplain rfl rfl

/-- The whole of a `fill_window`. -/
theorem Tidy.fillWindow (h : s.Tidy) : s.fillWindow.Tidy :=
  fillWindow_induction h fun _ _ hs hemit => hemit.tidy hs

/-- An ack takes segments away, and may fill the window. -/
theorem Tidy.ackReceived (h : s.Tidy) (ackno : WrappingInt32) (window : UInt16) :
    (s.ackReceived ackno window).Tidy := by
  refine ackReceived_induction h ?_ (fun v _ => ?_) (fun _ hs => hs.fillWindow) fun _ hs => hs
  · rw [recordWindow_eq]
    exact h
  · rw [advanceBase_eq]
    refine h.subset (List.append_subset.mpr ⟨List.subset_append_left _ _, ?_⟩)
    exact fun seg hseg => List.mem_append_right _ ((List.dropWhile_sublist _).subset hseg)

/-- What the timer resends has been queued before. -/
theorem Tidy.tick (h : s.Tidy) (ms : ℕ) : (s.tick ms).Tidy := by
  obtain ⟨segs, count, timer, heq, hmem⟩ := s.tick_frame ms
  rw [heq]
  refine h.subset (List.append_subset.mpr ⟨?_, List.subset_append_right _ _⟩)
  refine List.append_subset.mpr ⟨List.subset_append_left _ _, fun seg hseg => ?_⟩
  exact List.mem_append_right _ (hmem seg hseg)

/-- An empty segment is plain. -/
theorem Tidy.sendEmptySegment (h : s.Tidy) : s.sendEmptySegment.Tidy := by
  intro seg hseg
  simp only [TCPSender.sendEmptySegment, List.mem_append, List.mem_singleton] at hseg
  rcases hseg with (hold | rfl) | hold
  · exact h seg (List.mem_append_left _ hold)
  · exact ⟨rfl, Nat.zero_le _⟩
  · exact h seg (List.mem_append_right _ hold)

end TCPSender

namespace TCPConnection

variable {c c' : TCPConnection}

/-- A segment that leaves is as plain as it was queued. -/
theorem Stamped.plain {r : TCPReceiver} {out : TCPSegment} (h : Stamped r seg out)
    (hseg : seg.Plain) : out.Plain :=
  ⟨h.doff.trans hseg.doff, h.payload ▸ hseg.payload⟩

/-- **Nothing but plain segments is queued or sent.** -/
theorem kept_plain : SenderKept fun log s => (∀ seg ∈ log, seg.Plain) ∧ s.Tidy where
  fillWindow _ _ h := ⟨h.1, h.2.fillWindow⟩
  ackReceived _ _ ackno window h := ⟨h.1, h.2.ackReceived ackno window⟩
  tick _ _ ms h := ⟨h.1, h.2.tick ms⟩
  sendEmptySegment _ _ h := ⟨h.1, h.2.sendEmptySegment⟩
  setError _ _ h := h
  leave log s r outs h hleaves := by
    refine ⟨List.forall_mem_append.mpr ⟨h.1, fun out hout => ?_⟩,
      h.2.subset (List.subset_append_right _ _)⟩
    obtain ⟨seg, hseg, hstamped⟩ := hleaves.stamped out hout
    exact hstamped.plain (h.2 seg (List.mem_append_left _ hseg))

/-- **Every segment that a connection has sent is plain**, whoever calls it. -/
theorem reach_plain {ok : TCPConnection → ConnCall → Prop} {cfg : TCPConfig}
    (h : Reach call ok (new cfg) c) : ∀ seg ∈ c.segmentsOut, seg.Plain := by
  have hkept : (∀ seg ∈ c.segmentsOut, seg.Plain) ∧ c.sender.Tidy :=
    h.invariant (I := fun c => (∀ seg ∈ c.segmentsOut, seg.Plain) ∧ c.sender.Tidy)
      ⟨by simp [new], by simp [new, TCPSender.new, TCPSender.Tidy]⟩
      fun _ _ _ ih _ hc => kept_plain.call ih (fun _ _ => ih) (fun _ => ih) hc
  exact hkept.1

/-- What has left a connection stays in its log. -/
theorem segmentsOut_subset {op : ConnCall} (hc : c.call op = some c') :
    c.segmentsOut ⊆ c'.segmentsOut := by
  have hkept : SenderKept fun log _ => c.segmentsOut ⊆ log :=
    { fillWindow := fun _ _ h => h
      ackReceived := fun _ _ _ _ h => h
      tick := fun _ _ _ h => h
      sendEmptySegment := fun _ _ h => h
      setError := fun _ _ h => h
      leave := fun _ _ _ _ h _ => List.subset_append_of_subset_left _ h }
  have hself := List.Subset.refl c.segmentsOut
  exact hkept.call hself (fun _ _ => hself) (fun _ => hself) hc

/-- Apart from the owner, nothing ends the outbound stream. -/
theorem kept_inputEnded (ended : Bool) : SenderKept fun _ s => s.stream.inputEnded = ended where
  fillWindow _ s h := by
    obtain ⟨segs, hsends⟩ := s.fillWindow_sends
    exact hsends.frame.inputEnded.trans h
  ackReceived _ s _ _ h := (s.ackReceived_stream _ _).2.1.trans h
  tick _ s ms h := by
    obtain ⟨segs, count, timer, heq, -⟩ := s.tick_frame ms
    rw [heq]
    exact h
  sendEmptySegment _ _ h := h
  setError _ _ h := h
  leave _ _ _ _ h _ := h

/-- **Only `end_input_stream` ends the outbound stream.** -/
theorem inputEnded_call {op : ConnCall} (hop : op ≠ .endInputStream) (hc : c.call op = some c') :
    c'.sender.stream.inputEnded = c.sender.stream.inputEnded :=
  (kept_inputEnded _).call rfl (fun _ _ => rfl) (fun hend => absurd hend hop) hc

end TCPConnection
