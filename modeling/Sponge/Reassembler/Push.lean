import Sponge.Reassembler.Insert

/-!
# Reassembler/Push — what a pushed substring changes

`Wf` is the representation invariant: the pending segments are separated, lie between the bytes
already written and the acceptance limit `edge = bytes_read + capacity`, and are counted.  The state
of a reassembler is then read through `Held`, the positions written or pending.

`Stored s r r'` is the effect of taking in the segment `s`: the positions of `s` become held, the
invariant stays, and the bytes appended to the output continue any text that `s` and the pending
segments agree with.  A call that returns ignores its argument, appends it or inserts it, cut to the
limit (`Placed`); either way it stores the part below the limit (`pushSubstring_stored`), and it
throws only when the limit itself does not fit in 64 bits.
-/

open Word64 Extent

namespace StreamReassembler

/-- How far the stream may reach: a capacity past what has been read, as a natural. -/
def edge (r : StreamReassembler) : ℕ := r.output.totalRead + r.capacity

/-- The acceptance limit of the code, `first_unaccepted = bytes_read() + _capacity` in `size_t`. -/
def firstUnaccepted (r : StreamReassembler) : ℕ := add64 r.output.bytesRead r.capacity

/-- The limit the pending segments obey: their ends are `size_t` values below `edge`. -/
def limit (r : StreamReassembler) : ℕ := min r.edge (2 ^ 64 - 1)

/-- The acceptance limit is the edge, reduced to 64 bits. -/
theorem firstUnaccepted_eq_mod (r : StreamReassembler) : r.firstUnaccepted = r.edge % 2 ^ 64 :=
  Nat.mod_add_mod _ _ _

/-- **An edge that fits in 64 bits is the acceptance limit.** -/
theorem firstUnaccepted_eq {r : StreamReassembler} (h : r.edge < 2 ^ 64) :
    r.firstUnaccepted = r.edge := by
  rw [firstUnaccepted_eq_mod, Nat.mod_eq_of_lt h]

theorem firstUnaccepted_le (r : StreamReassembler) : r.firstUnaccepted ≤ r.edge :=
  r.firstUnaccepted_eq_mod ▸ Nat.mod_le _ _

theorem firstUnaccepted_lt (r : StreamReassembler) : r.firstUnaccepted < 2 ^ 64 := add64_lt _ _

/-- Byte `j` of the stream has been written to the output or is pending. -/
def Held (r : StreamReassembler) (j : ℕ) : Prop :=
  j < r.output.bytesWritten ∨ Covers r.unassembledSegment j

instance (r : StreamReassembler) (j : ℕ) : Decidable (r.Held j) :=
  inferInstanceAs (Decidable (_ ∨ _))

/-- **The representation invariant.** -/
structure Wf (r : StreamReassembler) : Prop where
  bounded : r.output.Bounded
  cap_eq : r.output.cap = r.capacity
  separated : Separated r.limit r.output.bytesWritten r.unassembledSegment
  bytes : r.unassembledByte = totalLength r.unassembledSegment

/-- **The segment `s` has been taken in.** -/
structure Stored (s : Segment) (r r' : StreamReassembler) : Prop where
  wf : r'.Wf
  capacity : r'.capacity = r.capacity
  totalRead : r'.output.totalRead = r.output.totalRead
  inputEnded : r'.output.inputEnded = r.output.inputEnded
  eof : r'.eof = r.eof ∧ r'.posEof = r.posEof
  held : ∀ j, r'.Held j ↔ r.Held j ∨ (s.start ≤ j ∧ j < s.stop)
  appended : ∃ added, r'.output.buf = r.output.buf ++ added ∧
    ∀ w, (∀ e ∈ r.unassembledSegment, Of w e) → Of w s →
      Excerpt w r.output.bytesWritten added ∧ ∀ e ∈ r'.unassembledSegment, Of w e

namespace Wf

variable {r : StreamReassembler}

theorem new (capacity : UInt64) : Wf (StreamReassembler.new capacity) where
  bounded := .new capacity
  cap_eq := rfl
  separated := trivial
  bytes := rfl

theorem limit_lt (r : StreamReassembler) : r.limit < 2 ^ 64 := by
  unfold limit
  omega

theorem capacity_lt (h : r.Wf) : r.capacity < 2 ^ 64 := h.cap_eq ▸ h.bounded.cap_lt

/-- What has been written is within the limit. -/
theorem written_le_edge (h : r.Wf) : r.output.bytesWritten ≤ r.edge := by
  have := h.bounded.count
  have := h.bounded.buf_le
  have := h.cap_eq
  unfold edge
  omega

/-- The next byte to be written is not pending. -/
theorem not_held_bytesWritten (h : r.Wf) : ¬ r.Held r.output.bytesWritten := by
  rintro (hlt | hcov)
  · exact lt_irrefl _ hlt
  · exact lt_irrefl _ (h.separated.lt_of_covers hcov)

/-- Reading moves the limit and nothing else. -/
theorem read (h : r.Wf) (len : ℕ) : Wf { r with output := (r.output.read len).2 } where
  bounded := h.bounded.read len
  cap_eq := h.cap_eq
  separated := h.separated.mono_hi (by
    simp only [limit, edge, ByteStream.read_totalRead]
    omega)
  bytes := h.bytes

theorem popOutput (h : r.Wf) {len : ℕ} (hlen : len ≤ r.output.bufferSize) :
    Wf { r with output := r.output.popOutput len } where
  bounded := h.bounded.popOutput hlen
  cap_eq := h.cap_eq
  separated := h.separated.mono_hi (by
    simp only [limit, edge, ByteStream.popOutput]
    omega)
  bytes := h.bytes

end Wf

/-- The end of a segment fits if it does not reach past the limit. -/
theorem accepted_tail {out : ByteStream} {s : Segment} (hout : out.Bounded)
    (hlo : s.start ≤ out.bytesWritten) (hroom : s.stop ≤ out.totalRead + out.cap) :
    out.accepted (s.data.drop (out.bytesWritten - s.start)) =
      (s.data.drop (out.bytesWritten - s.start)).length := by
  have hcount := hout.count
  have hlen := length_tail hlo
  exact hout.accepted_eq (by omega)

/-- Writing the end of a segment that reaches back to what has been written: all of it fits. -/
theorem write_tail {out : ByteStream} {s : Segment} (hout : out.Bounded)
    (hlo : s.start ≤ out.bytesWritten) (hhi : out.bytesWritten ≤ s.stop)
    (hroom : s.stop ≤ out.totalRead + out.cap) :
    let out' := out.write (s.data.drop (out.bytesWritten - s.start))
    out'.bytesWritten = s.stop ∧
      out'.buf = out.buf ++ s.data.drop (out.bytesWritten - s.start) := by
  have hlen := length_tail hlo
  have hacc := accepted_tail hout hlo hroom
  refine ⟨?_, ?_⟩
  · rw [ByteStream.write_bytesWritten, hacc]
    omega
  · rw [ByteStream.write_buf, hacc, List.take_length]

/-! ## The drain loop -/

/-- The state of the drain loop after the pushed segment has been written up to `finish`. -/
structure Drained (hi finish : ℕ) (l : List Segment) (out : ByteStream)
    (d : List Segment × ByteStream × ℕ) : Prop where
  bounded : d.2.1.Bounded
  cap : d.2.1.cap = out.cap
  totalRead : d.2.1.totalRead = out.totalRead
  inputEnded : d.2.1.inputEnded = out.inputEnded
  separated : Separated hi d.2.1.bytesWritten d.1
  bytes : d.2.2 = totalLength d.1
  held : ∀ j, (j < d.2.1.bytesWritten ∨ Covers d.1 j) ↔ (j < finish ∨ Covers l j)
  appended : ∃ added, d.2.1.buf = out.buf ++ added ∧
    ∀ w, (∀ e ∈ l, Of w e) → Excerpt w finish added ∧ ∀ e ∈ d.1, Of w e

/-- The loop stops at the first segment that starts beyond `finish`. -/
theorem drain_done {finish bytes : ℕ} {l : List Segment} {out : ByteStream}
    (h : ∀ x ∈ l, finish < x.start) : drain finish l out bytes = (l, out, bytes) := by
  cases l with
  | nil => rfl
  | cons it rest => rw [drain, if_neg (by have := h it List.mem_cons_self; omega)]

/-- The loop erases from the front. -/
theorem drain_sublist (finish : ℕ) (l : List Segment) (out : ByteStream) (bytes : ℕ) :
    (drain finish l out bytes).1.Sublist l := by
  induction l generalizing out bytes with
  | nil => exact .slnil
  | cons x rest ih =>
    rw [drain]
    split_ifs
    · exact (ih _ _).cons x
    · exact (ih _ _).cons x
    · exact .refl _

/-- What writing keeps, the loop keeps. -/
theorem drain_induction {P : ByteStream → Prop} (write : ∀ s data, P s → P (s.write data))
    (finish : ℕ) (l : List Segment) (out : ByteStream) (bytes : ℕ) (h : P out) :
    P (drain finish l out bytes).2.1 := by
  induction l generalizing out bytes with
  | nil => exact h
  | cons it rest ih =>
    rw [drain]
    split_ifs
    · exact ih _ _ (write _ _ h)
    · exact ih _ _ h
    · exact h

namespace Drained

variable {hi finish : ℕ} {l rest : List Segment} {it : Segment} {out : ByteStream}
  {d : List Segment × ByteStream × ℕ}

/-- Nothing starts by `finish`. -/
theorem stop (hout : out.Bounded) (hw : out.bytesWritten = finish) (hsep : Separated hi finish l) :
    Drained hi finish l out (l, out, totalLength l) := by
  refine ⟨hout, rfl, rfl, rfl, ?_, rfl, fun j => ?_, [], (List.append_nil _).symm,
    fun w hl => ⟨Excerpt.nil w _, hl⟩⟩
  · rwa [hw]
  · rw [hw]

/-- The first segment was covered by what has been written. -/
theorem skip (h : Drained hi finish rest out d) (hit : it.stop ≤ finish) :
    Drained hi finish (it :: rest) out d := by
  obtain ⟨added, hbuf, hof⟩ := h.appended
  refine ⟨h.bounded, h.cap, h.totalRead, h.inputEnded, h.separated, h.bytes, fun j => ?_, added,
    hbuf, fun w hl => hof w fun e he => hl e (List.mem_cons_of_mem _ he)⟩
  have hcovered : it.start ≤ j ∧ j < it.stop → j < finish := fun hj => hj.2.trans_le hit
  rw [h.held, covers_cons, ← or_assoc, or_iff_left_of_imp hcovered]

/-- The first segment is written from `finish` on; the others start beyond its end. -/
theorem write (hout : out.Bounded) (hroom : hi ≤ out.totalRead + out.cap)
    (hw : out.bytesWritten = finish) {lo : ℕ} (hsep : Separated hi lo (it :: rest))
    (hstart : it.start ≤ finish) (hstop : finish < it.stop) :
    Drained hi finish (it :: rest) out
      (rest, out.write (it.data.drop (finish - it.start)), totalLength rest) := by
  obtain ⟨hwr, hbuf⟩ := write_tail hout (hw ▸ hstart) (hw ▸ hstop.le) (hsep.2.1.trans hroom)
  rw [hw] at hwr hbuf
  refine ⟨hout.write _, rfl, rfl, rfl, ?_, rfl, fun j => ?_, _, hbuf,
    fun w hl => ⟨(hl it List.mem_cons_self).tail hstart,
      fun e he => hl e (List.mem_cons_of_mem _ he)⟩⟩
  · rw [hwr]
    exact hsep.2.2
  · have hreached : j < it.stop ↔ j < finish ∨ it.start ≤ j ∧ j < it.stop := by omega
    rw [hwr, covers_cons, ← or_assoc, ← hreached]

end Drained

/-- **The drain loop** writes the one segment that reaches past `finish` and erases those before. -/
theorem drain_spec {hi finish : ℕ} (hhi : hi < 2 ^ 64) {out : ByteStream} (hout : out.Bounded)
    (hroom : hi ≤ out.totalRead + out.cap) (hw : out.bytesWritten = finish) :
    ∀ {l : List Segment} {lo : ℕ}, Separated hi lo l → totalLength l < 2 ^ 64 →
      Drained hi finish l out (drain finish l out (totalLength l)) := by
  intro l
  induction l with
  | nil =>
    intro lo _ _
    exact .stop hout hw trivial
  | cons it rest ih =>
    intro lo hsep hlen
    have hitf : it.finish = it.stop := Segment.finish_eq (hsep.2.1.trans_lt hhi)
    rw [totalLength_cons] at hlen
    have hsub : sub64 (totalLength (it :: rest)) it.data.length = totalLength rest := by
      rw [totalLength_cons, sub64_eq (by omega) (by omega)]
      omega
    by_cases hstart : it.start ≤ finish
    · rw [drain, if_pos hstart, hsub, hitf]
      by_cases hstop : finish < it.stop
      · rw [if_pos hstop, drain_done fun x hx => hstop.trans (hsep.2.2.lt_start hx)]
        exact .write hout hroom hw hsep hstart hstop
      · rw [if_neg hstop]
        exact (ih hsep.2.2 (by omega)).skip (not_lt.mp hstop)
    · rw [drain, if_neg hstart]
      exact .stop hout hw ⟨not_le.mp hstart, hsep.2⟩

/-! ## Taking in a segment -/

variable {r r' : StreamReassembler} {s : Segment}

/-- Nothing happens to a segment whose bytes are all written. -/
theorem Stored.of_le_written (hwf : r.Wf) (h : s.data = [] ∨ s.stop ≤ r.output.bytesWritten) :
    Stored s r r := by
  refine ⟨hwf, rfl, rfl, rfl, ⟨rfl, rfl⟩, fun j => ⟨Or.inl, ?_⟩, [], by simp,
    fun w hl _ => ⟨Excerpt.nil w _, hl⟩⟩
  rintro (hj | ⟨h1, h2⟩)
  · exact hj
  · rcases h with h | h
    · simp only [stop, h, List.length_nil] at h2
      omega
    · exact Or.inl (by omega)

/-- **Assembling stores a segment that reaches back to the first unassembled byte.** -/
theorem assemble_stored (hwf : r.Wf) (hlo : s.start ≤ r.output.bytesWritten)
    (hhi : r.output.bytesWritten ≤ s.stop) (hs : s.stop ≤ r.limit) : Stored s r (r.assemble s) := by
  have hlim := Wf.limit_lt r
  have hsf : s.finish = s.stop := Segment.finish_eq (by omega)
  have hedge : r.limit ≤ r.output.totalRead + r.capacity := min_le_left _ _
  obtain ⟨hwr, hbuf⟩ := write_tail hwf.bounded hlo hhi (by rw [hwf.cap_eq]; omega)
  have hd := drain_spec hlim (hwf.bounded.write _)
    (by rw [ByteStream.write_cap, hwf.cap_eq]; exact hedge) hwr hwf.separated
    (by have := hwf.separated.totalLength_le (by omega); omega)
  rw [← hwf.bytes, ← hsf] at hd
  refine ⟨⟨hd.bounded, hd.cap.trans hwf.cap_eq, ?_, hd.bytes⟩, rfl, hd.totalRead, hd.inputEnded,
    ⟨rfl, rfl⟩, fun j => ?_, ?_⟩
  · have : (r.assemble s).limit = r.limit := by
      simp only [limit, edge, assemble]
      rw [hd.totalRead]
      rfl
    rw [this]
    exact hd.separated
  · refine (hd.held j).trans ?_
    have hreached : j < s.stop ↔ j < r.output.bytesWritten ∨ s.start ≤ j ∧ j < s.stop := by omega
    rw [hsf, Held, or_right_comm, ← hreached]
  · obtain ⟨added, hadded, hof⟩ := hd.appended
    rw [hbuf, List.append_assoc] at hadded
    refine ⟨_, hadded, fun w hl hsw => ?_⟩
    obtain ⟨hex, hrest⟩ := hof w hl
    refine ⟨(hsw.tail hlo).append ?_, hrest⟩
    rwa [length_tail hlo,
      show r.output.bytesWritten + (s.stop - r.output.bytesWritten) = s.finish by omega]

/-- **Inserting stores a segment that starts beyond the first unassembled byte.** -/
theorem insert_stored (hwf : r.Wf) (hlo : r.output.bytesWritten < s.start) (hs : s.stop ≤ r.limit) :
    Stored s r (r.insert s) := by
  obtain ⟨hadd, hbytes⟩ := insert_spec (Wf.limit_lt r) hwf.separated hwf.bytes hlo hs
  obtain ⟨hout, hcap, heof, hpos⟩ := r.insert_frame s
  have hlim : (r.insert s).limit = r.limit := by simp only [limit, edge, hout, hcap]
  refine ⟨⟨by rw [hout]; exact hwf.bounded, by rw [hout, hcap]; exact hwf.cap_eq,
    by rw [hlim, hout]; exact hadd.separated, hbytes⟩, hcap, by rw [hout], by rw [hout],
    ⟨heof, hpos⟩, fun j => ?_, [], by simp [hout],
    fun w hl hsw => ⟨Excerpt.nil w _, hadd.of w hl hsw⟩⟩
  rw [Held, Held, hout, hadd.covers, or_assoc]

/-! ## `push_substring` -/

section JudgeEof

variable (r : StreamReassembler) (data : Bytes) (index : ℕ) (eof : Bool)

/-- `JUDGE_EOF` records a new end, and ends the output when its end is known and reached. -/
theorem judgeEof_eq : r.judgeEof data index eof =
    { r with
      eof := r.eof || eof
      posEof := if eof then add64 index data.length else r.posEof
      output := { r.output with
        inputEnded := r.output.inputEnded || ((r.eof || eof) &&
          decide (r.output.bytesWritten =
            if eof then add64 index data.length else r.posEof)) } } := by
  obtain ⟨segs, bytes, known, pos, out, cap⟩ := r
  cases eof <;> cases known <;> simp only [judgeEof, Bool.false_eq_true, if_false, if_true] <;>
    split_ifs with h <;> simp_all [ByteStream.endInput]

@[simp] theorem judgeEof_capacity : (r.judgeEof data index eof).capacity = r.capacity := by
  rw [judgeEof_eq]

@[simp] theorem judgeEof_eof : (r.judgeEof data index eof).eof = (r.eof || eof) := by
  rw [judgeEof_eq]

@[simp] theorem judgeEof_bytesWritten :
    (r.judgeEof data index eof).output.bytesWritten = r.output.bytesWritten := by
  rw [judgeEof_eq]

theorem judgeEof_inputEnded : (r.judgeEof data index eof).output.inputEnded =
    (r.output.inputEnded || ((r.judgeEof data index eof).eof &&
      decide (r.output.bytesWritten = (r.judgeEof data index eof).posEof))) := by
  rw [judgeEof_eq]

@[simp] theorem held_judgeEof (j : ℕ) : (r.judgeEof data index eof).Held j ↔ r.Held j := by
  rw [judgeEof_eq]
  rfl

end JudgeEof

/-- `JUDGE_EOF` keeps the invariant. -/
theorem Wf.judgeEof (hwf : r.Wf) (data : Bytes) (index : ℕ) (eof : Bool) :
    (r.judgeEof data index eof).Wf := by
  rw [judgeEof_eq]
  exact ⟨⟨hwf.bounded.cap_lt, hwf.bounded.buf_le, hwf.bounded.count⟩, hwf.cap_eq, hwf.separated,
    hwf.bytes⟩

/-- A limit that does not fit in 64 bits comes back below everything already written. -/
theorem Wf.firstUnaccepted_lt_written (hwf : r.Wf) (h : 2 ^ 64 ≤ r.edge) :
    r.firstUnaccepted < r.output.bytesWritten := by
  have := hwf.capacity_lt
  have := hwf.bounded.count
  rw [firstUnaccepted_eq_mod]
  unfold edge at h ⊢
  omega

/-- The truncation is a `take` whenever the end of the substring does not wrap. -/
theorem truncate_eq {data : Bytes} {index unaccepted : ℕ} (h : index + data.length < 2 ^ 64) :
    truncate data index unaccepted = data.take (unaccepted - index) := by
  rw [truncate, add64_eq h]
  split
  · rfl
  · rw [List.take_of_length_le (by omega)]

/-! ### Case by case -/

section Cases

variable {data : Bytes} {index : ℕ} {eof : Bool}

/-- What `push_substring` keeps of its argument. -/
def cut (r : StreamReassembler) (data : Bytes) (index : ℕ) : Segment :=
  ⟨truncate data index r.firstUnaccepted, index⟩

/-- The argument is not out of bounds, as the code computes its end and the limit. -/
def InBounds (r : StreamReassembler) (data : Bytes) (index : ℕ) : Prop :=
  r.output.bytesWritten ≤ add64 index data.length ∧ index < r.firstUnaccepted

instance (r : StreamReassembler) (data : Bytes) (index : ℕ) : Decidable (r.InBounds data index) :=
  inferInstanceAs (Decidable (_ ∧ _))

/-- **What a push does before `JUDGE_EOF`**, if it does not throw. -/
inductive Placed (r : StreamReassembler) (data : Bytes) (index : ℕ) : StreamReassembler → Prop
  | outside (hout : ¬ r.InBounds data index) : Placed r data index r
  | assembled (hin : r.InBounds data index) (hlo : index ≤ r.output.bytesWritten)
      (hhi : r.output.bytesWritten ≤ (r.cut data index).stop) :
      Placed r data index (r.assemble (r.cut data index))
  | inserted (hin : r.InBounds data index) (hlo : r.output.bytesWritten < index) :
      Placed r data index (r.insert (r.cut data index))

theorem pushSubstring_placed (h : r.pushSubstring data index eof = some r') :
    ∃ r₁, Placed r data index r₁ ∧ r' = r₁.judgeEof data index eof := by
  simp only [pushSubstring] at h
  split_ifs at h with hout hwrite hthrow
  · obtain rfl := Option.some.inj h
    refine ⟨r, .outside fun hin => ?_, rfl⟩
    rcases hout with hout | hout
    · exact absurd hin.1 (not_le.mpr hout)
    · exact absurd hin.2 (not_lt.mpr hout)
  · obtain rfl := Option.some.inj h
    push Not at hout
    exact ⟨_, .assembled hout hwrite (Nat.sub_le_iff_le_add'.mp (not_lt.mp hthrow)), rfl⟩
  · obtain rfl := Option.some.inj h
    push Not at hout
    exact ⟨_, .inserted hout (not_le.mp hwrite), rfl⟩

/-- In bounds, the end of the substring has not wrapped. -/
theorem InBounds.end_lt (hin : r.InBounds data index)
    (hfit : index + data.length < 2 ^ 64 ∨ r.edge + data.length < 2 ^ 64) :
    index + data.length < 2 ^ 64 := by
  have hlimit := r.firstUnaccepted_le
  have hlt := hin.2
  omega

/-- **The part that is kept** is what lies below the limit, once it reaches past the output. -/
theorem Wf.cut_eq (hwf : r.Wf) (hin : r.InBounds data index)
    (hfit : index + data.length < 2 ^ 64 ∨ r.edge + data.length < 2 ^ 64)
    (hpast : r.output.bytesWritten ≤ (r.cut data index).stop) :
    r.cut data index = ⟨data.take (r.edge - index), index⟩ ∧
      (r.cut data index).stop ≤ r.limit := by
  have hend := hin.end_lt hfit
  have hlt := hin.2
  have hcut : r.cut data index = ⟨data.take (r.firstUnaccepted - index), index⟩ := by
    rw [cut, truncate_eq hend]
  rw [hcut] at hpast ⊢
  simp only [stop, List.length_take] at hpast ⊢
  -- a limit that has wrapped would be below the output
  have hedge : r.edge < 2 ^ 64 := by
    by_contra hc
    have := hwf.firstUnaccepted_lt_written (not_lt.mp hc)
    omega
  rw [firstUnaccepted_eq hedge] at hlt ⊢
  refine ⟨rfl, ?_⟩
  unfold limit
  omega

/-- **With a limit that has wrapped around nothing is taken in**: a substring that reaches from
below it to what has been written makes `substr` throw, any other is out of bounds. -/
theorem Wf.pushSubstring_of_overflow (hwf : r.Wf) (hover : 2 ^ 64 ≤ r.edge)
    (hend : index + data.length < 2 ^ 64) :
    r.pushSubstring data index eof =
      if r.InBounds data index then none else some (r.judgeEof data index eof) := by
  have hlt := hwf.firstUnaccepted_lt_written hover
  have hbounds : (add64 index data.length < r.output.bytesWritten ∨
      add64 r.output.bytesRead r.capacity ≤ index) ↔ ¬ r.InBounds data index := by
    rw [InBounds, not_and_or, not_le, not_lt, firstUnaccepted]
  simp only [pushSubstring, hbounds, ite_not]
  split_ifs with hin hlo hthrow
  · rfl
  · -- cut at the limit, the substring does not reach the output
    have hin' := hin.2
    have hcut : truncate data index (add64 r.output.bytesRead r.capacity) =
        data.take (r.firstUnaccepted - index) := truncate_eq hend
    rw [hcut, List.length_take] at hthrow
    omega
  · have hin' := hin.2
    omega
  · rfl

/-- Out of bounds, what is below the limit has been written already. -/
theorem Stored.of_outside (hwf : r.Wf) (hedge : r.edge < 2 ^ 64)
    (hfit : index + data.length < 2 ^ 64 ∨ r.edge + data.length < 2 ^ 64)
    (hout : ¬ r.InBounds data index) : Stored ⟨data.take (r.edge - index), index⟩ r r := by
  rw [InBounds, firstUnaccepted_eq hedge] at hout
  refine .of_le_written hwf ?_
  by_cases hn : r.edge ≤ index
  · exact Or.inl (by simp [Nat.sub_eq_zero_of_le hn])
  · have hend : index + data.length < 2 ^ 64 := by omega
    rw [add64_eq hend] at hout
    refine Or.inr ?_
    simp only [stop, List.length_take]
    omega

/-- **`push_substring` stores the part of its argument below the limit.**  The end of the substring
may not wrap, unless the limit is so far below `2 ^ 64` that a wrapped one is out of bounds. -/
theorem pushSubstring_stored (hwf : r.Wf)
    (hfit : index + data.length < 2 ^ 64 ∨ r.edge + data.length < 2 ^ 64)
    (h : r.pushSubstring data index eof = some r') :
    ∃ n r₁, Stored ⟨data.take n, index⟩ r r₁ ∧ (r.edge < 2 ^ 64 → n = r.edge - index) ∧
      r' = r₁.judgeEof data index eof := by
  obtain ⟨r₁, hplaced, rfl⟩ := pushSubstring_placed h
  cases hplaced with
  | outside hout =>
    by_cases hedge : r.edge < 2 ^ 64
    · exact ⟨_, r, .of_outside hwf hedge hfit hout, fun _ => rfl, rfl⟩
    · exact ⟨0, r, .of_le_written hwf (Or.inl (by simp)), fun h => absurd h hedge, rfl⟩
  | assembled hin hlo hhi =>
    obtain ⟨hcut, hstop⟩ := hwf.cut_eq hin hfit hhi
    exact ⟨_, _, hcut ▸ assemble_stored hwf hlo hhi hstop, fun _ => rfl, rfl⟩
  | inserted hin hlo =>
    obtain ⟨hcut, hstop⟩ := hwf.cut_eq hin hfit (hlo.le.trans (r.cut data index).start_le_stop)
    exact ⟨_, _, hcut ▸ insert_stored hwf hlo hstop, fun _ => rfl, rfl⟩

end Cases

/-- **No throw while the limit fits in 64 bits**, whatever is pushed. -/
theorem pushSubstring_isSome (hle : r.output.bytesWritten ≤ r.edge) (hedge : r.edge < 2 ^ 64)
    (data : Bytes) (index : ℕ) (eof : Bool) : (r.pushSubstring data index eof).isSome := by
  have hunacc : add64 r.output.bytesRead r.capacity = r.edge := firstUnaccepted_eq hedge
  simp only [pushSubstring, hunacc]
  split_ifs with hout hwrite hthrow
  · rfl
  · push Not at hout
    have hlen : (truncate data index r.edge).length =
        if r.edge < add64 index data.length then min (r.edge - index) data.length
        else data.length := by
      unfold truncate
      split_ifs <;> simp only [List.length_take]
    simp only [hlen] at hthrow
    by_cases hwrap : index + data.length < 2 ^ 64
    · rw [add64_eq hwrap] at hout hthrow
      split_ifs at hthrow <;> omega
    · -- a substring this long reaches past the limit
      split_ifs at hthrow <;> omega
  · rfl
  · rfl

/-! ## Reassembling a text

`consumed` is what has been read from the output so far. -/

/-- **The reassembler holds pieces of the text `w`**: what it has output is a beginning of `w`, and
every pending segment is an excerpt. -/
structure Reads (w consumed : Bytes) (r : StreamReassembler) : Prop where
  length_eq : consumed.length = r.output.totalRead
  text : consumed ++ r.output.buf <+: w
  pending : ∀ e ∈ r.unassembledSegment, Of w e

/-- **The end of the stream, once known, is `total`**, and the output ends when it gets there. -/
structure EndsAt (total : ℕ) (r : StreamReassembler) : Prop where
  posEof : r.eof = true → r.posEof = total
  ended : r.output.inputEnded = (r.eof && decide (r.output.bytesWritten = total))

variable {w w' consumed : Bytes}

namespace Reads

theorem new (w : Bytes) (capacity : UInt64) : Reads w [] (.new capacity) where
  length_eq := rfl
  text := List.nil_prefix
  pending := by simp [StreamReassembler.new]

theorem mono (h : Reads w consumed r) (hw : w <+: w') : Reads w' consumed r :=
  ⟨h.length_eq, h.text.trans hw, fun e he => (h.pending e he).mono hw⟩

theorem length_written (h : Reads w consumed r) (hwf : r.Wf) :
    (consumed ++ r.output.buf).length = r.output.bytesWritten := by
  rw [List.length_append, h.length_eq, hwf.bounded.count]

theorem written_le (h : Reads w consumed r) (hwf : r.Wf) : r.output.bytesWritten ≤ w.length := by
  rw [← h.length_written hwf]
  exact h.text.length_le

/-- The output is the beginning of the text, as long as it is. -/
theorem written_eq (h : Reads w consumed r) (hwf : r.Wf) :
    consumed ++ r.output.buf = w.take r.output.bytesWritten := by
  rw [← h.length_written hwf]
  exact List.prefix_iff_eq_take.mp h.text

theorem read (h : Reads w consumed r) (len : ℕ) :
    Reads w (consumed ++ (r.output.read len).1) { r with output := (r.output.read len).2 } := by
  refine ⟨?_, ?_, h.pending⟩
  · rw [List.length_append, h.length_eq, ByteStream.read_fst, ByteStream.read_totalRead]
  · rw [ByteStream.read_fst, ByteStream.read_buf, List.append_assoc, List.take_append_drop]
    exact h.text

theorem stored (h : Reads w consumed r) (hwf : r.Wf) (hst : Stored s r r') (hs : Of w s) :
    Reads w consumed r' := by
  obtain ⟨added, hbuf, hof⟩ := hst.appended
  obtain ⟨hadd, hpend⟩ := hof w h.pending hs
  refine ⟨by rw [hst.totalRead]; exact h.length_eq, ?_, hpend⟩
  rw [hbuf, ← List.append_assoc, ← Excerpt.zero_iff]
  refine Excerpt.append (Excerpt.zero_iff.mpr h.text) ?_
  rwa [Nat.zero_add, h.length_written hwf]

theorem judgeEof (h : Reads w consumed r) (data : Bytes) (index : ℕ) (eof : Bool) :
    Reads w consumed (r.judgeEof data index eof) := by
  rw [judgeEof_eq]
  exact ⟨h.length_eq, h.text, h.pending⟩

end Reads

/-- Storing never takes bytes back. -/
theorem Stored.written_le (hst : Stored s r r') :
    r.output.bytesWritten ≤ r'.output.bytesWritten := by
  by_contra hlt
  exact hst.wf.not_held_bytesWritten ((hst.held _).mpr (Or.inl (Or.inl (by omega))))

theorem EndsAt.read {total : ℕ} (h : EndsAt total r) (len : ℕ) :
    EndsAt total { r with output := (r.output.read len).2 } := ⟨h.posEof, h.ended⟩

/-- **A push keeps the end of the stream** when its `eof` flag is set at that end only. -/
theorem EndsAt.push {total : ℕ} (h : EndsAt total r) (hst : Stored s r r')
    (hle : r'.output.bytesWritten ≤ total) {data : Bytes} {index : ℕ} {eof : Bool}
    (heof : eof = true → add64 index data.length = total) :
    EndsAt total (r'.judgeEof data index eof) := by
  have hwr := hst.written_le
  have hpos : (r'.judgeEof data index eof).eof = true →
      (r'.judgeEof data index eof).posEof = total := by
    rw [judgeEof_eq, hst.eof.1, hst.eof.2]
    cases eof with
    | false => simpa using h.posEof
    | true => exact fun _ => heof rfl
  refine ⟨hpos, ?_⟩
  rw [judgeEof_inputEnded, judgeEof_bytesWritten, hst.inputEnded, h.ended]
  cases hE : (r'.judgeEof data index eof).eof with
  | false =>
    have : r.eof = false := by
      rw [judgeEof_eof, hst.eof.1] at hE
      exact (Bool.or_eq_false_iff.mp hE).1
    simp [this]
  | true =>
    rw [hpos hE, Bool.true_and]
    -- an output that had ended is still at its end
    by_cases hend : r.output.bytesWritten = total
    · simp [show r'.output.bytesWritten = total by omega]
    · simp [hend]

end StreamReassembler
