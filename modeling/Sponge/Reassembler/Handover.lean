import Sponge.ByteStream.Runs
import Sponge.Reassembler.Exact

/-!
# Reassembler/Handover — what a reassembler hands to its output

`push_substring` cuts its argument at `bytes_read() + capacity` and then hands it to `write`, whose
result it ignores: a byte that does not fit is lost.  `writes` lists what a push hands over, and
`ByteStream.TakesAll` says that all of it fits.

Here the output may be used in any way next to the pushes, and nothing is assumed of the pushed
substrings, not even that their end is a `size_t`.  A segment whose end has wrapped around may then
be pending, but as the code never finds it to reach anywhere, it is not written (`Ordered`).  So all
that is handed over is taken as long as the output counts what is removed.  A `pop_output` of more
than there is breaks the accounting, and moves the limit beyond what fits unless the limit wraps
around (`Harmless`).
-/

open Word64 Extent

namespace ByteStream

/-- The strings are written one after the other, and each is taken in full. -/
def TakesAll : ByteStream → List Bytes → Prop
  | _, [] => True
  | s, data :: rest => s.accepted data = data.length ∧ (s.write data).TakesAll rest

instance decidableTakesAll : ∀ (s : ByteStream) (l : List Bytes), Decidable (s.TakesAll l)
  | _, [] => inferInstanceAs (Decidable True)
  | s, data :: rest =>
    @instDecidableAnd _ _ (inferInstanceAs (Decidable (_ = _)))
      (decidableTakesAll (s.write data) rest)

/-- What is taken in full arrives. -/
theorem TakesAll.buf {s : ByteStream} {l : List Bytes} (h : s.TakesAll l) :
    (l.foldl write s).buf = s.buf ++ l.flatten := by
  induction l generalizing s with
  | nil => exact (List.append_nil _).symm
  | cons data rest ih =>
    rw [List.foldl_cons, ih h.2, write_buf, h.1, List.take_length, List.flatten_cons,
      List.append_assoc]

end ByteStream

namespace StreamReassembler

/-! ## What is handed over -/

/-- What the drain loop hands to `write`. -/
def drainWrites (finish : ℕ) : List Segment → List Bytes
  | [] => []
  | it :: rest =>
    if it.start ≤ finish then
      (if finish < it.finish then [it.data.drop (finish - it.start)] else []) ++
        drainWrites finish rest
    else []

/-- What `push_substring` hands to `write`. -/
def writes (r : StreamReassembler) (data : Bytes) (index : ℕ) : List Bytes :=
  let firstUnassembled := r.output.bytesWritten
  let firstUnaccepted := add64 r.output.bytesRead r.capacity
  let segment : Segment := ⟨truncate data index firstUnaccepted, index⟩
  if add64 index data.length < firstUnassembled ∨ firstUnaccepted ≤ index then []
  else if index ≤ firstUnassembled ∧ firstUnassembled - index ≤ segment.data.length then
    segment.data.drop (firstUnassembled - index) :: drainWrites segment.finish r.unassembledSegment
  else []

variable {r r' : StreamReassembler}

/-- `writes` in the terms of `Placed`: only a segment that is assembled is written. -/
theorem writes_eq (r : StreamReassembler) (data : Bytes) (index : ℕ) :
    r.writes data index =
      if r.InBounds data index ∧ index ≤ r.output.bytesWritten ∧
          r.output.bytesWritten ≤ (r.cut data index).stop then
        (r.cut data index).data.drop (r.output.bytesWritten - index) ::
          drainWrites (r.cut data index).finish r.unassembledSegment
      else [] := by
  have hbounds : (add64 index data.length < r.output.bytesWritten ∨
      add64 r.output.bytesRead r.capacity ≤ index) ↔ ¬ r.InBounds data index := by
    rw [InBounds, not_and_or, not_le, not_lt, firstUnaccepted]
  have hstop : r.output.bytesWritten - index ≤ (r.cut data index).data.length ↔
      r.output.bytesWritten ≤ (r.cut data index).stop := Nat.sub_le_iff_le_add'
  rw [ite_and, writes, if_congr hbounds rfl rfl, ite_not]
  exact if_congr Iff.rfl (if_congr (and_congr_right' hstop) rfl rfl) rfl

theorem drain_output (finish : ℕ) (l : List Segment) (out : ByteStream) (bytes : ℕ) :
    (drain finish l out bytes).2.1 = (drainWrites finish l).foldl ByteStream.write out := by
  induction l generalizing out bytes with
  | nil => rfl
  | cons it rest ih =>
    rw [drain, drainWrites]
    split_ifs
    · exact ih ..
    · exact ih ..
    · rfl

/-- **The output after a push** is the output before it with `writes` written to it, apart from the
end of its input. -/
theorem pushSubstring_output {data : Bytes} {index : ℕ} {eof : Bool}
    (h : r.pushSubstring data index eof = some r') :
    ∃ ended, r'.output =
      { (r.writes data index).foldl ByteStream.write r.output with inputEnded := ended } := by
  obtain ⟨r₁, hplaced, rfl⟩ := pushSubstring_placed h
  have hwritten : (r.writes data index).foldl ByteStream.write r.output = r₁.output := by
    cases hplaced with
    | outside hout =>
      rw [writes_eq, if_neg fun hin => hout hin.1]
      rfl
    | assembled hin hlo hhi =>
      rw [writes_eq, if_pos ⟨hin, hlo, hhi⟩, List.foldl_cons,
        ← drain_output _ _ _ r.unassembledByte]
      rfl
    | inserted hin hlo =>
      rw [writes_eq, if_neg fun hin => not_le.mpr hlo hin.2.1, (r.insert_frame _).1]
      rfl
  rw [judgeEof_eq, hwritten]
  exact ⟨_, rfl⟩

/-! ## The pending set, whatever is pushed -/

/-- The end that the code computes for a segment is its end, and not beyond `hi`, or it has wrapped
around to below its start. -/
def Sane (hi : ℕ) (s : Segment) : Prop := s.finish < s.start ∨ s.finish = s.stop ∧ s.stop ≤ hi

/-- The segments are in order and each starts beyond the computed end of those before. -/
structure Ordered (hi : ℕ) (l : List Segment) : Prop where
  pairwise : l.Pairwise fun s t => s.start < t.start ∧ s.finish < t.start
  sane : ∀ s ∈ l, Sane hi s

variable {hi hi' : ℕ} {s t : Segment} {l l' left right kept : List Segment}

theorem Sane.mono (h : Sane hi s) (hle : hi ≤ hi') : Sane hi' s :=
  h.imp_right fun h => ⟨h.1, h.2.trans hle⟩

/-- An end that is not below the start has not wrapped. -/
theorem Sane.finish_eq (h : Sane hi s) (hle : s.start ≤ s.finish) :
    s.finish = s.stop ∧ s.stop ≤ hi := h.resolve_left (not_lt.mpr hle)

/-- Joining segments, as the code finds them to overlap. -/
theorem Sane.join (hs : Sane hi s) (ht : Sane hi t) (hst : s.start ≤ t.start)
    (htouch : t.start ≤ s.finish) (hpast : s.finish < t.finish) :
    let j : Segment := ⟨s.data ++ t.data.drop (s.finish - t.start), s.start⟩
    j.finish = t.finish ∧ Sane hi j := by
  obtain ⟨hsf, -⟩ := hs.finish_eq (hst.trans htouch)
  obtain ⟨htf, hhi⟩ := ht.finish_eq (htouch.trans hpast.le)
  have hlt : t.finish < 2 ^ 64 := add64_lt _ _
  rw [hsf] at htouch hpast ⊢
  rw [htf] at hpast hlt ⊢
  intro j
  have hstop : j.stop = t.stop := stop_join htouch hpast.le
  have hfin : j.finish = j.stop := Segment.finish_eq (hstop ▸ hlt)
  exact ⟨hfin.trans hstop, Or.inr ⟨hfin, hstop ▸ hhi⟩⟩

namespace Ordered

theorem nil : Ordered hi [] := ⟨.nil, nofun⟩

theorem singleton (hs : Sane hi s) : Ordered hi [s] :=
  ⟨List.pairwise_singleton .., by simpa using hs⟩

theorem mono (h : Ordered hi l) (hle : hi ≤ hi') : Ordered hi' l :=
  ⟨h.pairwise, fun s hs => (h.sane s hs).mono hle⟩

theorem sublist (h : Ordered hi l) (hsub : l'.Sublist l) : Ordered hi l' :=
  ⟨h.pairwise.sublist hsub, fun s hs => h.sane s (hsub.subset hs)⟩

theorem append_iff : Ordered hi (l ++ l') ↔ Ordered hi l ∧ Ordered hi l' ∧
    ∀ s ∈ l, ∀ t ∈ l', s.start < t.start ∧ s.finish < t.start := by
  constructor
  · intro h
    obtain ⟨hl, hl', hcut⟩ := List.pairwise_append.mp h.pairwise
    exact ⟨⟨hl, fun s hs => h.sane s (List.mem_append_left _ hs)⟩,
      ⟨hl', fun s hs => h.sane s (List.mem_append_right _ hs)⟩, hcut⟩
  · rintro ⟨hl, hl', hcut⟩
    refine ⟨List.pairwise_append.mpr ⟨hl.pairwise, hl'.pairwise, hcut⟩, fun s hs => ?_⟩
    rcases List.mem_append.mp hs with hs | hs
    · exact hl.sane s hs
    · exact hl'.sane s hs

end Ordered

/-- **The left stage of `insert`.** -/
theorem mergeLeft_ordered (hleft : Ordered hi left) (hs : Sane hi s)
    (hbefore : ∀ x ∈ left, x.start < s.start) (bytes : ℕ) :
    let m := mergeLeft s left bytes
    (m.tmp = none → m.kept = left) ∧
      ∀ t ∈ m.tmp, Ordered hi (m.kept ++ [t]) ∧ t.start ≤ s.start := by
  have hstage := mergeLeft_stage s left bytes
  generalize mergeLeft s left bytes = m at hstage
  cases hstage with
  | first => exact ⟨fun _ => rfl, by simpa using .singleton hs⟩
  | @gap init it hgap =>
    refine ⟨by simp, ?_⟩
    rintro t ⟨⟩
    refine ⟨Ordered.append_iff.mpr ⟨hleft, .singleton hs, fun x hx t ht => ?_⟩, le_rfl⟩
    obtain rfl := List.mem_singleton.mp ht
    refine ⟨hbefore x hx, ?_⟩
    rcases List.mem_append.mp hx with hx | hx
    · have := (Ordered.append_iff.mp hleft).2.2 x hx it (by simp)
      have := hbefore it (by simp)
      omega
    · rwa [List.mem_singleton.mp hx]
  | inside => exact ⟨fun _ => rfl, by simp⟩
  | @joined init it htouch hpast =>
    obtain ⟨hinit, hit, hcut⟩ := Ordered.append_iff.mp hleft
    have hits : it.start < s.start := hbefore it (by simp)
    have hjoin := (hit.sane it (by simp)).join hs hits.le htouch hpast
    refine ⟨by simp, ?_⟩
    rintro t ⟨⟩
    refine ⟨Ordered.append_iff.mpr ⟨hinit, .singleton hjoin.2, ?_⟩, hits.le⟩
    simpa using fun x hx => hcut x hx it (by simp)

/-- **The right stage of `insert`.** -/
theorem mergeRight_ordered (ht : Sane hi t) :
    ∀ {right : List Segment}, Ordered hi right → (∀ x ∈ right, t.start ≤ x.start) → ∀ bytes : ℕ,
      let m := mergeRight t.start t.finish t right bytes
      ∀ t' ∈ m.tmp, t'.start = t.start ∧ Sane hi t' ∧ ∀ x ∈ m.kept, t'.finish < x.start := by
  intro right
  induction right with
  | nil =>
    intro _ _ bytes
    simp only [mergeRight]
    rintro t' ⟨⟩
    exact ⟨rfl, ht, by simp⟩
  | cons it rest ih =>
    intro hright hafter bytes
    obtain ⟨hfirst, -⟩ := List.pairwise_cons.mp hright.pairwise
    have hts : t.start ≤ it.start := hafter it List.mem_cons_self
    have hit : Sane hi it := hright.sane it List.mem_cons_self
    simp only [mergeRight]
    split_ifs with h1 h2 h3
    · simp
    · -- `it` reaches past `t`, and the rest starts beyond `it`
      rw [mergeRight_done fun x hx => h3.trans (hfirst x hx).2]
      obtain ⟨hfinish, hjoin⟩ := ht.join hit hts h1 h3
      rintro t' ⟨⟩
      exact ⟨rfl, hjoin, fun x hx => hfinish ▸ (hfirst x hx).2⟩
    · -- `it` goes
      exact ih (hright.sublist (List.sublist_cons_self ..))
        (fun x hx => hafter x (List.mem_cons_of_mem _ hx)) (sub64 bytes it.data.length)
    · rintro t' ⟨⟩
      refine ⟨rfl, ht, fun x hx => ?_⟩
      rcases List.mem_cons.mp hx with rfl | hx
      · exact not_le.mp h1
      · exact (not_le.mp h1).trans (hfirst x hx).1

/-- `std::set::insert` has no effect when the key is present. -/
theorem setInsert_present {x : Segment} {l₁ l₂ : List Segment} (h₁ : ∀ y ∈ l₁, y.start < t.start)
    (hx : x.start = t.start) : setInsert t (l₁ ++ x :: l₂) = l₁ ++ x :: l₂ := by
  induction l₁ with
  | nil => simp [setInsert, hx]
  | cons y l₁ ih =>
    have hy := h₁ y List.mem_cons_self
    simp only [List.cons_append, setInsert, if_neg (Nat.lt_asymm hy), if_pos hy]
    rw [ih fun z hz => h₁ z (List.mem_cons_of_mem _ hz)]

theorem setInsert_ordered (hkept : Ordered hi (kept ++ [t])) (hright : Ordered hi right)
    (hafter : ∀ x ∈ right, t.start ≤ x.start ∧ t.finish < x.start) :
    Ordered hi (setInsert t (kept ++ right)) := by
  obtain ⟨hk, ht, hcut⟩ := Ordered.append_iff.mp hkept
  have hbefore : ∀ x ∈ kept, x.start < t.start ∧ x.finish < t.start :=
    fun x hx => hcut x hx t (by simp)
  have hall : ∀ x ∈ kept, ∀ y ∈ right, x.start < y.start ∧ x.finish < y.start := fun x hx y hy =>
    ⟨(hbefore x hx).1.trans_le (hafter y hy).1, (hbefore x hx).2.trans_le (hafter y hy).1⟩
  by_cases hkey : ∀ y ∈ right, t.start < y.start
  · rw [setInsert_append (fun x hx => (hbefore x hx).1) hkey, ← List.singleton_append]
    refine Ordered.append_iff.mpr ⟨hk, Ordered.append_iff.mpr ⟨ht, hright, ?_⟩, ?_⟩
    · intro x hx y hy
      obtain rfl := List.mem_singleton.mp hx
      exact ⟨hkey y hy, (hafter y hy).2⟩
    · intro x hx y hy
      rcases List.mem_append.mp hy with hy | hy
      · exact hcut x hx y hy
      · exact hall x hx y hy
  · -- the first segment on the right has the key of `t`
    obtain ⟨hd, tl, rfl⟩ : ∃ hd tl, right = hd :: tl := by
      cases right with
      | nil => exact absurd nofun hkey
      | cons hd tl => exact ⟨hd, tl, rfl⟩
    have hhd : hd.start = t.start := by
      refine le_antisymm (not_lt.mp fun hlt => hkey fun y hy => ?_) (hafter hd (by simp)).1
      rcases List.mem_cons.mp hy with rfl | hy
      · exact hlt
      · exact hlt.trans ((List.pairwise_cons.mp hright.pairwise).1 y hy).1
    rw [setInsert_present (fun x hx => (hbefore x hx).1) hhd]
    exact Ordered.append_iff.mpr ⟨hk, hright, hall⟩

theorem insertRight_ordered (r : StreamReassembler) (hkept : Ordered hi (kept ++ [t]))
    (hright : Ordered hi right) (hafter : ∀ x ∈ right, t.start ≤ x.start) (bytes : ℕ) :
    Ordered hi (r.insertRight kept right t bytes).unassembledSegment := by
  obtain ⟨hk, ht, hcut⟩ := Ordered.append_iff.mp hkept
  have htmp := mergeRight_ordered (ht.sane t (by simp)) hright hafter bytes
  have hsub := mergeRight_sublist t.start t.finish t right bytes
  simp only [insertRight]
  set m := mergeRight t.start t.finish t right bytes
  cases hm : m.tmp with
  | none =>
    refine Ordered.append_iff.mpr ⟨hk, hright.sublist hsub, fun x hx y hy => ?_⟩
    have hx := hcut x hx t (by simp)
    have hy := hafter y (hsub.subset hy)
    omega
  | some t' =>
    obtain ⟨hstart, hsane, hbeyond⟩ := htmp t' hm
    refine setInsert_ordered (Ordered.append_iff.mpr ⟨hk, .singleton hsane, fun x hx y hy => ?_⟩)
      (hright.sublist hsub) fun x hx => ⟨hstart ▸ hafter x (hsub.subset hx), hbeyond x hx⟩
    obtain rfl := List.mem_singleton.mp hy
    rw [hstart]
    exact hcut x hx t (by simp)

/-- **`insert` keeps the pending set in order.** -/
theorem insert_ordered (hpending : Ordered hi r.unassembledSegment) (hs : Sane hi s) :
    Ordered hi (r.insert s).unassembledSegment := by
  unfold insert
  split
  · exact .singleton hs
  have hlr : Ordered hi (r.unassembledSegment.takeWhile (fun x => decide (x.start < s.start)) ++
      r.unassembledSegment.dropWhile (fun x => decide (x.start < s.start))) := by
    rwa [List.takeWhile_append_dropWhile]
  obtain ⟨hleft, hright, -⟩ := Ordered.append_iff.mp hlr
  have hafter : ∀ x ∈ r.unassembledSegment.dropWhile fun x => decide (x.start < s.start),
      s.start ≤ x.start :=
    fun x hx => le_start_of_mem_dropWhile (hpending.pairwise.imp And.left) hx
  obtain ⟨hnone, hsome⟩ := mergeLeft_ordered hleft hs (fun x hx => start_lt_of_mem_takeWhile hx)
    r.unassembledByte
  simp only [insertBetween]
  set m := mergeLeft s (r.unassembledSegment.takeWhile fun x => decide (x.start < s.start))
    r.unassembledByte
  cases hm : m.tmp with
  | none =>
    simp only [hnone hm]
    exact hlr
  | some t =>
    obtain ⟨hkept, hstart⟩ := hsome t hm
    exact insertRight_ordered r hkept hright (fun x hx => hstart.trans (hafter x hx)) _

/-! ## Pushes -/

theorem drainWrites_done {finish : ℕ} (h : ∀ x ∈ l, finish < x.start) :
    drainWrites finish l = [] := by
  cases l with
  | nil => rfl
  | cons it rest => rw [drainWrites, if_neg (not_le.mpr (h it List.mem_cons_self))]

/-- The end of a segment is taken if it does not reach past what fits. -/
theorem accepted_of_stop_le {out : ByteStream} (hlo : s.start ≤ out.bytesWritten)
    (hroom : s.stop ≤ out.bytesWritten + out.remainingCapacity) :
    out.accepted (s.data.drop (out.bytesWritten - s.start)) =
      (s.data.drop (out.bytesWritten - s.start)).length := by
  have hlen := length_tail hlo
  rw [ByteStream.accepted_eq_min]
  omega

/-- Written, it takes the output to its end. -/
theorem bytesWritten_write_tail {out : ByteStream} (hlo : s.start ≤ out.bytesWritten)
    (hhi : out.bytesWritten ≤ s.stop)
    (hroom : s.stop ≤ out.bytesWritten + out.remainingCapacity) :
    (out.write (s.data.drop (out.bytesWritten - s.start))).bytesWritten = s.stop := by
  have hlen := length_tail hlo
  rw [ByteStream.write_bytesWritten, accepted_of_stop_le hlo hroom]
  omega

/-- **The drain loop hands over what fits**, once the output is written up to `finish`. -/
theorem drainWrites_taken {out : ByteStream} {finish : ℕ} (hw : out.bytesWritten = finish)
    (hl : Ordered (out.bytesWritten + out.remainingCapacity) l) :
    out.TakesAll (drainWrites finish l) := by
  induction l with
  | nil => trivial
  | cons it rest ih =>
    obtain ⟨hfirst, -⟩ := List.pairwise_cons.mp hl.pairwise
    rw [drainWrites]
    split_ifs with hstart hpast
    · -- the one segment that is written, as the rest starts beyond it
      obtain ⟨-, hroom⟩ := (hl.sane it List.mem_cons_self).finish_eq (hstart.trans hpast.le)
      rw [drainWrites_done fun x hx => hpast.trans (hfirst x hx).2]
      subst hw
      exact ⟨accepted_of_stop_le hstart hroom, trivial⟩
    · exact ih (hl.sublist (List.sublist_cons_self ..))
    · trivial

/-- What is in bounds is cut at the limit, unless its end has wrapped around. -/
theorem InBounds.sane_cut {data : Bytes} {index : UInt64} (hin : r.InBounds data index.toNat)
    (hdata : data.length < 2 ^ 64) : Sane r.firstUnaccepted (r.cut data index.toNat) := by
  have hlt := hin.2
  have hindex := index.toNat_lt
  have hlimit := r.firstUnaccepted_lt
  unfold Sane Segment.finish stop cut truncate
  split_ifs with hcut
  · refine Or.inr ?_
    simp only [List.length_take]
    rw [add64_eq (by omega)]
    omega
  · simp only
    by_cases hwrap : index.toNat + data.length < 2 ^ 64
    · rw [add64_eq hwrap] at hcut ⊢
      exact Or.inr ⟨rfl, by omega⟩
    · rw [add64_of_ge hindex hdata (not_lt.mp hwrap)]
      exact Or.inl (by omega)

/-- What is written from the first unassembled byte on has not wrapped. -/
theorem InBounds.le_finish_cut {data : Bytes} {index : ℕ} (hin : r.InBounds data index)
    (hlo : index ≤ r.output.bytesWritten) : index ≤ (r.cut data index).finish := by
  have hlt := hin.2
  have hlimit := r.firstUnaccepted_lt
  unfold Segment.finish cut truncate
  split_ifs with hcut
  · simp only [List.length_take]
    rw [add64_eq (by omega)]
    omega
  · exact hlo.trans hin.1

/-- **There is room for what may be handed over**: for the pending segments, and up to the limit. -/
structure Roomy (r : StreamReassembler) : Prop where
  covered : r.output.Covered
  pending : Ordered (r.output.bytesWritten + r.output.remainingCapacity) r.unassembledSegment
  limit_le : r.firstUnaccepted ≤ r.output.bytesWritten + r.output.remainingCapacity

/-- **All that a push hands over is taken.** -/
theorem Roomy.takesAll (h : r.Roomy) {data : Bytes} (index : UInt64)
    (hdata : data.length < 2 ^ 64) : r.output.TakesAll (r.writes data index.toNat) := by
  rw [writes_eq]
  split_ifs with hwrite
  · obtain ⟨hin, hlo, hhi⟩ := hwrite
    obtain ⟨hfinish, hstop⟩ := (hin.sane_cut hdata).finish_eq (hin.le_finish_cut hlo)
    have hroom := hstop.trans h.limit_le
    refine ⟨accepted_of_stop_le hlo hroom,
      drainWrites_taken ((bytesWritten_write_tail hlo hhi hroom).trans hfinish.symm) ?_⟩
    rw [h.covered.room_write]
    exact h.pending
  · trivial

/-- **What holds of a reassembler** whose output counts what is removed, whatever is pushed. -/
structure Steady (r : StreamReassembler) : Prop where
  bounded : r.output.Bounded
  cap_eq : r.output.cap = r.capacity
  pending : Ordered r.edge r.unassembledSegment

namespace Steady

theorem new (capacity : UInt64) : Steady (.new capacity) := ⟨.new capacity, rfl, .nil⟩

theorem limit_eq (h : r.Steady) : r.edge = r.output.bytesWritten + r.output.remainingCapacity := by
  have hcount := h.bounded.count
  have hle := h.bounded.buf_le
  rw [h.bounded.remainingCapacity_eq, edge, ← h.cap_eq]
  omega

/-- A call on the output, a `pop_output` of too much included, leaves room for what is pending. -/
theorem edge_le_call (h : r.Steady) (c : ByteStream.Call) :
    (r.output.call c).Covered ∧
      r.edge ≤ (r.output.call c).bytesWritten + (r.output.call c).remainingCapacity := by
  have hcov := h.bounded.covered
  have hlimit := h.limit_eq
  have pop : ∀ len, (r.output.popOutput len).Covered ∧ r.edge ≤
      (r.output.popOutput len).bytesWritten + (r.output.popOutput len).remainingCapacity := by
    intro len
    have hroom := hcov.remainingCapacity_eq
    have hroom' := (hcov.popOutput len).remainingCapacity_eq
    simp only [ByteStream.popOutput, List.length_drop] at hroom' ⊢
    exact ⟨hcov.popOutput len, by omega⟩
  cases c with
  | write data => exact ⟨hcov.write data, (hlimit.trans (hcov.room_write data).symm).le⟩
  | read len => exact pop _
  | peek len => exact ⟨hcov, hlimit.le⟩
  | pop len => exact pop _
  | endInput => exact ⟨hcov.endInput, hlimit.le⟩

theorem roomy (h : r.Steady) : r.Roomy :=
  ⟨h.bounded.covered, h.limit_eq ▸ h.pending, r.firstUnaccepted_le.trans h.limit_eq.le⟩

theorem judgeEof (h : r.Steady) (data : Bytes) (index : ℕ) (eof : Bool) :
    (r.judgeEof data index eof).Steady := by
  rw [judgeEof_eq]
  exact ⟨⟨h.bounded.cap_lt, h.bounded.buf_le, h.bounded.count⟩, h.cap_eq, h.pending⟩

theorem insert (h : r.Steady) (hs : Sane r.edge s) : (r.insert s).Steady := by
  obtain ⟨hout, hcap, -⟩ := r.insert_frame s
  have hedge : (r.insert s).edge = r.edge := by rw [edge, edge, hout, hcap]
  refine ⟨?_, ?_, ?_⟩
  · rw [hout]
    exact h.bounded
  · rw [hout, hcap, h.cap_eq]
  · rw [hedge]
    exact insert_ordered h.pending hs

theorem assemble (h : r.Steady) (s : Segment) : (r.assemble s).Steady := by
  obtain ⟨hbounded, hcap, hread⟩ := drain_induction
    (P := fun out => out.Bounded ∧ out.cap = r.output.cap ∧ out.totalRead = r.output.totalRead)
    (fun _ data hout => ⟨hout.1.write data, hout.2⟩) s.finish r.unassembledSegment
    (r.output.write (s.data.drop (r.output.bytesWritten - s.start))) r.unassembledByte
    ⟨h.bounded.write _, rfl, rfl⟩
  have hedge : (r.assemble s).edge = r.edge := congrArg (· + r.capacity) hread
  refine ⟨hbounded, hcap.trans h.cap_eq, ?_⟩
  rw [hedge]
  exact h.pending.sublist (drain_sublist ..)

theorem push (h : r.Steady) {data : Bytes} {index : UInt64} {eof : Bool}
    (hdata : data.length < 2 ^ 64) (hpush : r.pushSubstring data index.toNat eof = some r') :
    r'.Steady := by
  obtain ⟨r₁, hplaced, rfl⟩ := pushSubstring_placed hpush
  refine Steady.judgeEof ?_ ..
  cases hplaced with
  | outside => exact h
  | assembled => exact h.assemble _
  | inserted hin => exact h.insert ((hin.sane_cut hdata).mono r.firstUnaccepted_le)

/-- Calls on the output, as long as they are counted. -/
theorem call (h : r.Steady) {c : ByteStream.Call} (hc : r.output.Within c) :
    Steady { r with output := r.output.call c } := by
  have hcap : (r.output.call c).cap = r.output.cap := by cases c <;> rfl
  have hread : r.output.totalRead ≤ (r.output.call c).totalRead := by
    cases c with
    | write data => exact le_rfl
    | read len => exact Nat.le_add_right ..
    | peek len => exact le_rfl
    | pop len => exact Nat.le_add_right ..
    | endInput => exact le_rfl
  exact ⟨h.bounded.call hc, hcap.trans h.cap_eq, h.pending.mono (Nat.add_le_add_right hread _)⟩

end Steady

/-! ## Runs -/

/-- A push, or a call on the output. -/
inductive Access
  | push (data : Bytes) (index : UInt64) (eof : Bool)
  | stream (c : ByteStream.Call)

def access (r : StreamReassembler) : Access → Option StreamReassembler
  | .push data index eof => r.pushSubstring data index.toNat eof
  | .stream c => some { r with output := r.output.call c }

/-- The size of a string is a `size_t`; a `pop_output` asks for no more than there is. -/
def Proper (r : StreamReassembler) : Access → Prop
  | .push data _ _ => data.length < 2 ^ 64
  | .stream c => r.output.Within c

instance (r : StreamReassembler) (a : Access) : Decidable (r.Proper a) :=
  match a with
  | .push .. => inferInstanceAs (Decidable (_ < _))
  | .stream c => inferInstanceAs (Decidable (r.output.Within c))

theorem reach_steady {capacity : UInt64} (h : Reach access Proper (.new capacity) r) :
    r.Steady := by
  refine h.invariant (.new capacity) fun r a r' ih hok hs => ?_
  cases a with
  | push data index eof => exact ih.push hok hs
  | stream c =>
    obtain rfl := Option.some.inj hs
    exact ih.call hok

/-- **Nothing that is handed over is refused**: the limit is no further than what fits, and what a
push hands to `write` is taken in full and so arrives. -/
structure Unrefused (r : StreamReassembler) : Prop where
  limit_le : r.firstUnaccepted ≤ r.output.bytesWritten + r.output.remainingCapacity
  takesAll : ∀ (data : Bytes) (index : UInt64), data.length < 2 ^ 64 →
    r.output.TakesAll (r.writes data index.toNat)
  arrives : ∀ (data : Bytes) (index : UInt64) (eof : Bool) (r' : StreamReassembler),
    data.length < 2 ^ 64 → r.pushSubstring data index.toNat eof = some r' →
    r'.output.buf = r.output.buf ++ (r.writes data index.toNat).flatten

theorem Roomy.unrefused (h : r.Roomy) : r.Unrefused where
  limit_le := h.limit_le
  takesAll _ index hdata := h.takesAll index hdata
  arrives data index eof r' hdata hpush := by
    obtain ⟨ended, hout⟩ := pushSubstring_output hpush
    rw [hout]
    exact (h.takesAll index hdata).buf

/-- The limit that a `pop_output` leaves is no further than what fits: it asks for no more than
there is, or takes the limit around to small numbers. -/
def Harmless (r : StreamReassembler) : ByteStream.Call → Prop
  | .pop len =>
    add64 (add64 r.output.bytesRead len.toNat) r.capacity ≤ r.output.bytesWritten + r.capacity
  | _ => True

instance (r : StreamReassembler) (c : ByteStream.Call) : Decidable (r.Harmless c) :=
  match c with
  | .pop _ => inferInstanceAs (Decidable (_ ≤ _))
  | .write _ | .read _ | .peek _ | .endInput => inferInstanceAs (Decidable True)

/-- **The limit after a call**, compared with what fits. -/
theorem Steady.limit_call_le_iff (h : r.Steady) (c : ByteStream.Call) :
    firstUnaccepted { r with output := r.output.call c } ≤
      (r.output.call c).bytesWritten + (r.output.call c).remainingCapacity ↔ r.Harmless c := by
  have within : ∀ {c}, r.output.Within c →
      firstUnaccepted { r with output := r.output.call c } ≤
        (r.output.call c).bytesWritten + (r.output.call c).remainingCapacity :=
    fun hc => (h.call hc).roomy.limit_le
  cases c with
  | pop len =>
    have hcount := h.bounded.count
    have hle := h.bounded.buf_le
    have hcap := h.cap_eq
    have hroom := (h.bounded.covered.popOutput len.toNat).remainingCapacity_eq
    have hlimit : firstUnaccepted { r with output := r.output.popOutput len.toNat } =
        add64 (add64 r.output.bytesRead len.toNat) r.capacity := by
      simp only [firstUnaccepted, ByteStream.popOutput, ByteStream.bytesRead, add64,
        Nat.mod_add_mod]
    change firstUnaccepted { r with output := r.output.popOutput len.toNat } ≤
      (r.output.popOutput len.toNat).bytesWritten +
        (r.output.popOutput len.toNat).remainingCapacity ↔ _
    rw [hlimit, hroom]
    simp only [Harmless, ByteStream.popOutput, List.length_drop]
    by_cases hmore : r.output.buf.length ≤ len.toNat
    · rw [Nat.sub_eq_zero_of_le hmore, Nat.sub_zero, hcap]
    · -- what is there is popped, and the limit moves by as much as the room
      have hnext : add64 (add64 r.output.bytesRead len.toNat) r.capacity ≤
          r.output.totalRead + len.toNat + r.capacity := by
        simp only [ByteStream.bytesRead, add64, Nat.mod_add_mod]
        exact Nat.mod_le _ _
      constructor <;> intro <;> omega
  | _ => exact iff_of_true (within trivial) trivial

/-- After a call on the output nothing is refused exactly if the limit stays within what fits. -/
theorem Steady.unrefused_call_iff (h : r.Steady) (c : ByteStream.Call) :
    Unrefused { r with output := r.output.call c } ↔ r.Harmless c := by
  rw [← h.limit_call_le_iff]
  refine ⟨fun hnext => hnext.limit_le, fun hlimit => Roomy.unrefused ⟨?_, ?_, hlimit⟩⟩
  · exact (h.edge_le_call c).1
  · exact h.pending.mono (h.edge_le_call c).2

/-- **The accounting of a stream is exact exactly if no `pop_output` asks for too much.**  That is
so in all states of a run of calls.  Of a reassembler whose output has been used so, the acceptance
limit is no further than what fits, and nothing that any push hands to `write` is refused; after one
more call on the output the totals are still balanced and this is still so exactly if the call is
no `pop_output` of too much.  What that does to the limit is said apart: as the sum is a `size_t`,
it is beyond what fits unless it wraps around. -/
theorem accounting_exact_iff (capacity : UInt64) :
    (∀ calls : List ByteStream.Call, (∀ n, (ByteStream.run capacity (calls.take n)).Exact) ↔
      (ByteStream.Run.init capacity).PopsWithin calls) ∧
    ∀ r, Reach access Proper (.new capacity) r → r.output.Balanced ∧ r.Unrefused ∧
      ∀ c, ((r.output.call c).Balanced ∧ Unrefused { r with output := r.output.call c } ↔
          r.output.Within c) ∧
        (Unrefused { r with output := r.output.call c } ↔ r.Harmless c) := by
  refine ⟨ByteStream.exact_iff capacity, fun r hr => ?_⟩
  have hsteady := reach_steady hr
  refine ⟨hsteady.bounded.balanced, hsteady.roomy.unrefused, fun c =>
    ⟨⟨fun hnext => ?_, fun hc => ?_⟩, hsteady.unrefused_call_iff c⟩⟩
  · exact hsteady.bounded.within_of_balanced hnext.1
  · have hnext := hsteady.call hc
    exact ⟨hnext.bounded.balanced, hnext.roomy.unrefused⟩

/-- Two bytes are buffered after a gap was closed and a byte popped; a third is too much to pop. -/
theorem accounting_exact_run : ∃ r, Reach access Proper (.new 4) r ∧ r.output.buf = [2, 3] ∧
    r.Unrefused ∧ ¬ (r.output.call (.pop 3)).Balanced ∧
    ¬ Unrefused { r with output := r.output.call (.pop 3) } := by
  obtain ⟨r, hr, hp⟩ := exists_reach_of_exec access Proper (.new 4)
    [.push [3] 2 false, .push [1, 2] 0 false, .stream (.pop 1)]
    (fun r => decide (r.output.buf = [2, 3] ∧ ¬ (r.output.call (.pop 3)).Balanced ∧
      ¬ r.Harmless (.pop 3))) (by decide)
  obtain ⟨hbuf, hbalance, hharm⟩ := of_decide_eq_true hp
  obtain ⟨-, hfits, hcalls⟩ := (accounting_exact_iff 4).2 r hr
  exact ⟨r, hr, hbuf, hfits, hbalance, fun hnext => hharm ((hcalls (.pop 3)).2.mp hnext)⟩

/-- A `pop_output` can also take the counter around: after five bytes it is back at zero. -/
example : (ByteStream.run 8 [.write [1, 2, 3, 4, 5], .read 5,
    .pop 18446744073709551611]).stream.bytesRead = 0 := by
  decide

/-- **A `pop_output` of four bytes where there are two**: the totals are off by two, and of four
bytes that are then pushed within the limit two are lost. -/
theorem overpop_refused :
    (∃ t, t = ByteStream.run 2 [.write [1, 2], .pop 4] ∧ ¬ t.Exact ∧
      t.stream.bytesWritten = 2 ∧ t.stream.bytesRead = 4 ∧ t.removed.length = 2) ∧
    ∃ r, Reach access (fun _ _ => True) (.new 2) r ∧
      r.output.bytesWritten + r.output.remainingCapacity < r.firstUnaccepted ∧
      r.writes [3, 4, 5, 6] 2 = [[3, 4, 5, 6]] ∧ ¬ r.output.TakesAll [[3, 4, 5, 6]] ∧
      ∃ r', r.pushSubstring [3, 4, 5, 6] 2 false = some r' ∧ r'.output.buf = [3, 4] := by
  refine ⟨⟨_, rfl, fun h => absurd h.balanced (by decide), by decide, by decide, by decide⟩, ?_⟩
  obtain ⟨r, hr, hp⟩ := exists_reach_of_exec access (fun _ _ => True) (.new 2)
    [.push [1, 2] 0 false, .stream (.pop 4)]
    (fun r => decide (r.output.bytesWritten + r.output.remainingCapacity < r.firstUnaccepted ∧
      r.writes [3, 4, 5, 6] 2 = [[3, 4, 5, 6]] ∧ ¬ r.output.TakesAll [[3, 4, 5, 6]] ∧
      (r.pushSubstring [3, 4, 5, 6] 2 false).map (fun r' => r'.output.buf) = some [3, 4]))
    (by decide)
  obtain ⟨hlimit, hwrites, htakes, hpush⟩ := of_decide_eq_true hp
  exact ⟨r, hr, hlimit, hwrites, htakes, Option.map_eq_some_iff.mp hpush⟩

end StreamReassembler
