import Mathlib.Order.Bounds.Basic
import Sponge.Lib.Reach
import Sponge.Reassembler.Push

/-!
# Reassembler/Exact — whole runs of a reassembler

Two machines are built on `StreamReassembler`.

* `step`: arbitrary pushes, also contradictory ones, with reads and pops of the output.  Every state
  it reaches satisfies the representation invariant (`reach_wf`).
* `History.step`: pushes of excerpts of one text `S`.  Next to the reassembler it carries the ideal
  picture of it, the set `covered` of the indices some push brought while they were below the limit.
  The reassembler shows exactly what that set says (`reassembly_exact`).
-/

open Word64 Extent

namespace StreamReassembler

/-! ## Arbitrary pushes -/

/-- A call made on a reassembler or on its output. -/
inductive Call
  | push (data : Bytes) (index : UInt64) (eof : Bool)
  | read (len : ℕ)
  | pop (len : ℕ)

def step (r : StreamReassembler) : Call → Option StreamReassembler
  | .push data index eof => r.pushSubstring data index.toNat eof
  | .read len => some { r with output := (r.output.read len).2 }
  | .pop len => some { r with output := r.output.popOutput len }

/-- No 64-bit overflow of `bytes_read + capacity + |data|`; pops within the buffer. -/
def Fits (r : StreamReassembler) : Call → Prop
  | .push data _ _ => r.edge + data.length < 2 ^ 64
  | .read _ => True
  | .pop len => len ≤ r.output.bufferSize

instance (r : StreamReassembler) (c : Call) : Decidable (r.Fits c) :=
  match c with
  | .push .. => inferInstanceAs (Decidable (_ < _))
  | .read _ => inferInstanceAs (Decidable True)
  | .pop _ => inferInstanceAs (Decidable (_ ≤ _))

variable {r r' : StreamReassembler} {capacity : UInt64}

theorem Wf.step (hwf : r.Wf) {c : Call} (hok : r.Fits c) (h : r.step c = some r') :
    r'.Wf ∧ r'.capacity = r.capacity := by
  cases c with
  | push data index eof =>
    obtain ⟨n, r₁, hst, _, rfl⟩ := pushSubstring_stored hwf (Or.inr hok) h
    exact ⟨hst.wf.judgeEof data index.toNat eof, (judgeEof_capacity ..).trans hst.capacity⟩
  | read len =>
    obtain rfl := Option.some.inj h
    exact ⟨hwf.read len, rfl⟩
  | pop len =>
    obtain rfl := Option.some.inj h
    exact ⟨hwf.popOutput hok, rfl⟩

/-- The invariant along a run. -/
theorem reach_wf (h : Reach step Fits (.new capacity) r) :
    r.Wf ∧ r.capacity = capacity.toNat :=
  h.invariant (I := fun r => r.Wf ∧ r.capacity = capacity.toNat) ⟨.new capacity, rfl⟩
    fun _ _ _ ih hok hs => ⟨(ih.1.step hok hs).1, (ih.1.step hok hs).2.trans ih.2⟩

/-- **The representation invariant in the words of the class**: the pending segments are in order
and do not touch, lie between what has been written and `bytes_read + capacity`, and are counted
exactly; output and pending bytes together stay within the capacity.  No allowed call throws. -/
theorem pending_wellFormed (h : Reach step Fits (.new capacity) r) :
    r.unassembledSegment.Pairwise (fun s t => s.start < t.start) ∧
    r.unassembledSegment.Pairwise (fun s t => s.start + s.data.length < t.start) ∧
    (∀ s ∈ r.unassembledSegment, r.output.bytesWritten < s.start ∧
      s.start + s.data.length ≤ r.output.totalRead + capacity.toNat) ∧
    r.unassembledByte = (r.unassembledSegment.map fun s => s.data.length).sum ∧
    r.output.bufferSize + r.unassembledBytes ≤ capacity.toNat ∧
    ∀ c, r.Fits c → (r.step c).isSome := by
  obtain ⟨hwf, hcap⟩ := reach_wf h
  have hedge := min_le_left r.edge (2 ^ 64 - 1)
  refine ⟨hwf.separated.pairwise.imp fun {s _} hst => s.start_le_stop.trans_lt hst,
    hwf.separated.pairwise, fun s hs => ⟨hwf.separated.lt_start hs, ?_⟩, hwf.bytes, ?_,
    fun c hc => ?_⟩
  · have := hwf.separated.stop_le hs
    rw [← hcap]
    exact this.trans hedge
  · -- both fit between `bytes_read` and the limit
    have hroom : r.output.bytesWritten + totalLength r.unassembledSegment ≤ r.edge := by
      by_cases hnil : r.unassembledSegment = []
      · rw [hnil, totalLength_nil]
        exact hwf.written_le_edge
      · obtain ⟨e, he⟩ := List.exists_mem_of_ne_nil _ hnil
        have hlim : r.output.bytesWritten ≤ r.limit :=
          (hwf.separated.lt_start he).le.trans (e.start_le_stop.trans (hwf.separated.stop_le he))
        exact (hwf.separated.totalLength_le hlim).trans hedge
    have := hwf.bounded.count
    rw [unassembledBytes, hwf.bytes, ← hcap]
    simp only [edge, ByteStream.bufferSize] at *
    omega
  · cases c with
    | push data index eof =>
      have hfit : r.edge + data.length < 2 ^ 64 := hc
      exact pushSubstring_isSome hwf.written_le_edge (by omega) _ _ _
    | read len => rfl
    | pop len => rfl

/-- Two contradictory pushes, the second bridging the gap before the first, then a read. -/
theorem pending_wellFormed_run : ∃ r,
    Reach step Fits (.new 8) r ∧ r.unassembledSegment = [⟨[7, 9, 9], 3⟩] ∧
    r.output.bufferSize + r.unassembledBytes ≤ 8 := by
  obtain ⟨r, hr, hp⟩ := exists_reach_of_exec step Fits (.new 8)
    [.push [1, 1] 4 false, .push [7, 9, 9] 3 false, .push [5] 0 true, .read 1]
    (fun r => r.unassembledSegment == [⟨[7, 9, 9], 3⟩]) (by decide)
  exact ⟨r, hr, by simpa using hp, (pending_wellFormed hr).2.2.2.2.1⟩

/-! ## Pushes of one text -/

/-- A run on excerpts of a text: the reassembler, what its reader took, and the ideal picture. -/
structure History where
  r : StreamReassembler
  /-- the bytes read from the output so far -/
  consumed : Bytes := []
  /-- the indices covered by some push made while they were below `bytes_read + capacity` -/
  covered : Finset ℕ := ∅
  /-- some push has been made with `eof = true` -/
  eofPushed : Bool := false

/-- Push the excerpt `S[i..i+n)`, or read from the output. -/
inductive TextCall
  | push (i n : ℕ) (eof : Bool)
  | read (len : ℕ)

namespace History

def init (capacity : UInt64) : History := { r := .new capacity }

/-- The bytes ever written to the output. -/
def written (h : History) : Bytes := h.consumed ++ h.r.output.buf

def step (S : Bytes) (h : History) : TextCall → Option History
  | .push i n eof =>
    (h.r.pushSubstring ((S.drop i).take n) i eof).map fun r =>
      { h with
        r := r
        covered := h.covered ∪ (Finset.Ico i (i + n)).filter (· < h.r.edge)
        eofPushed := h.eofPushed || eof }
  | .read len =>
    some { h with
      r := { h.r with output := (h.r.output.read len).2 }
      consumed := h.consumed ++ (h.r.output.read len).1 }

/-- The excerpt is one of `S`, and `eof` is set only on one that ends it. -/
def Within (S : Bytes) (_ : History) : TextCall → Prop
  | .push i n eof => i + n ≤ S.length ∧ (eof = true → i + n = S.length)
  | .read _ => True

instance (S : Bytes) (h : History) (c : TextCall) : Decidable (Within S h c) :=
  match c with
  | .push .. => inferInstanceAs (Decidable (_ ∧ _))
  | .read _ => inferInstanceAs (Decidable True)

/-- **The reassembler agrees with the ideal picture of it.** -/
structure Agrees (S : Bytes) (capacity : UInt64) (h : History) : Prop where
  wf : h.r.Wf
  capacity : h.r.capacity = capacity.toNat
  reads : Reads S h.consumed h.r
  endsAt : EndsAt S.length h.r
  eof : h.r.eof = h.eofPushed
  covered : ∀ j, j ∈ h.covered ↔ h.r.Held j

namespace Agrees

variable {S : Bytes} {h h' : History}

theorem init (S : Bytes) (capacity : UInt64) : Agrees S capacity (History.init capacity) where
  wf := .new capacity
  capacity := rfl
  reads := .new S capacity
  endsAt := ⟨by simp [History.init, new], by simp [History.init, new, ByteStream.new]⟩
  eof := rfl
  covered j := by simp [History.init, new, Held, ByteStream.new]

/-- The limit fits in 64 bits when the text and the capacity do. -/
theorem edge_lt (hag : Agrees S capacity h) (hcap : S.length + capacity.toNat < 2 ^ 64) :
    h.r.edge < 2 ^ 64 := by
  have := hag.reads.written_le hag.wf
  have := hag.wf.bounded.count
  have := hag.capacity
  unfold edge
  omega

theorem push (hag : Agrees S capacity h) (hcap : S.length + capacity.toNat < 2 ^ 64) {i n : ℕ}
    {eof : Bool} (hin : i + n ≤ S.length) (heof : eof = true → i + n = S.length)
    (hs : h.step S (.push i n eof) = some h') : Agrees S capacity h' := by
  obtain ⟨r', hr', rfl⟩ := Option.map_eq_some_iff.mp hs
  have hlen : ((S.drop i).take n).length = n := by
    rw [List.length_take, List.length_drop]
    omega
  obtain ⟨m, r₁, hst, hm, rfl⟩ := pushSubstring_stored hag.wf (Or.inl (by omega)) hr'
  obtain rfl := hm (hag.edge_lt hcap)
  have hreads := hag.reads.stored hag.wf hst ((Excerpt.take_drop S i n).take _)
  refine ⟨hst.wf.judgeEof _ _ _, ?_, hreads.judgeEof _ _ _,
    hag.endsAt.push hst (hreads.written_le hst.wf) fun he => ?_, ?_, fun j => ?_⟩
  · rw [judgeEof_capacity, hst.capacity, hag.capacity]
  · rw [hlen, add64_eq (by omega), heof he]
  · rw [judgeEof_eof, hst.eof.1, hag.eof]
  · rw [held_judgeEof, hst.held, Finset.mem_union, hag.covered, Finset.mem_filter, Finset.mem_Ico]
    simp only [stop, List.length_take, hlen]
    refine or_congr_right ⟨?_, ?_⟩ <;> omega

theorem step (hag : Agrees S capacity h) (hcap : S.length + capacity.toNat < 2 ^ 64) {c : TextCall}
    (hok : Within S h c) (hs : h.step S c = some h') : Agrees S capacity h' := by
  cases c with
  | push i n eof => exact hag.push hcap hok.1 hok.2 hs
  | read len =>
    obtain rfl := Option.some.inj hs
    exact ⟨hag.wf.read len, hag.capacity, hag.reads.read len, hag.endsAt.read len, hag.eof,
      hag.covered⟩

/-- The first unassembled byte is the least index not covered. -/
theorem isLeast (hag : Agrees S capacity h) :
    IsLeast {j | j ∉ h.covered} h.r.output.bytesWritten := by
  refine ⟨fun hmem => hag.wf.not_held_bytesWritten ((hag.covered _).mp hmem), fun j hj => ?_⟩
  by_contra hlt
  exact hj ((hag.covered j).mpr (Or.inl (by omega)))

theorem card_covered (hag : Agrees S capacity h) :
    h.covered.card = h.r.output.bytesWritten + h.r.unassembledByte := by
  rw [hag.wf.bytes]
  exact hag.wf.separated.card_eq fun j => hag.covered j

end Agrees

end History

open History

/-- **Reassembly is exact.**  After any run on excerpts of `S`, with `k` the least index not
covered: the output is `S[0..k)`, the other covered indices are pending, and the output has ended
exactly if the end has been pushed and reached.  No push of an excerpt throws. -/
theorem reassembly_exact {S : Bytes} {h : History} (hcap : S.length + capacity.toNat < 2 ^ 64)
    (hr : Reach (History.step S) (Within S) (.init capacity) h) :
    (∃ k, IsLeast {j | j ∉ h.covered} k ∧ k ≤ h.covered.card ∧
      h.written = S.take k ∧ h.written.length = k ∧
      h.r.unassembledBytes = h.covered.card - k ∧
      (h.r.empty = true ↔ h.covered.card = k) ∧
      (h.r.output.inputEnded = true ↔ h.eofPushed = true ∧ k = S.length)) ∧
    ∀ c, Within S h c → (h.step S c).isSome := by
  have hag : Agrees S capacity h :=
    hr.invariant (.init S capacity) fun _ _ _ ih hok hs => ih.step hcap hok hs
  have hcard := hag.card_covered
  refine ⟨⟨h.r.output.bytesWritten, hag.isLeast, by omega, hag.reads.written_eq hag.wf,
    hag.reads.length_written hag.wf, by rw [unassembledBytes]; omega, ?_, ?_⟩, fun c hc => ?_⟩
  · rw [empty, beq_iff_eq]
    omega
  · rw [hag.endsAt.ended, hag.eof]
    simp
  · cases c with
    | push i n eof =>
      rw [History.step, Option.isSome_map]
      exact pushSubstring_isSome hag.wf.written_le_edge (hag.edge_lt hcap) _ _ _
    | read len => rfl

/-- The last byte of a text of four first, then the first two, a read, and the end. -/
theorem reassembly_exact_run : ∃ h : History,
    Reach (History.step [1, 2, 3, 4]) (Within [1, 2, 3, 4]) (.init 3) h ∧
    h.covered = {0, 1, 2} ∧ h.eofPushed = true ∧
    ∃ k, IsLeast {j | j ∉ h.covered} k ∧ h.written = [1, 2, 3, 4].take k := by
  obtain ⟨h, hr, hp⟩ := exists_reach_of_exec (History.step [1, 2, 3, 4])
    (Within [1, 2, 3, 4]) (.init 3)
    [.push 3 1 true, .push 2 1 false, .push 0 2 false, .read 1]
    (fun h => decide (h.covered = {0, 1, 2}) && h.eofPushed) (by decide)
  simp only [Bool.and_eq_true, decide_eq_true_eq] at hp
  obtain ⟨⟨k, hk, _, hw, _⟩, _⟩ := reassembly_exact (by decide) hr
  exact ⟨h, hr, hp.1, hp.2, k, hk, hw⟩

end StreamReassembler
