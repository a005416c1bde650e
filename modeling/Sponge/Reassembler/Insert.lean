import Mathlib.Data.List.TakeWhile
import Sponge.Reassembler.Model

/-!
# Reassembler/Insert — putting a segment into the pending set

`insert` scans the set to both sides of the new segment.  Each stage is described by what it does to
the list of pending segments: it adds a segment to a separated list (`Adds`).

The left stage adds `s` to the segments before it, giving `kept ++ tmp` (`LeftStage` lists its ways
to end); the right stage adds `tmp` to the segments after it.  That the loop keeps the stale end of
`tmp` does no harm: once a segment on the right reaches past that end, the next one starts beyond it
and the loop stops (`mergeRight_done`).
-/

open Word64 Extent

theorem Segment.finish_eq {s : Segment} (h : s.stop < 2 ^ 64) : s.finish = s.stop := add64_eq h

namespace StreamReassembler

variable {hi lo b start finish : ℕ} {s t : Segment} {l left right : List Segment}

/-! ## The left stage -/

/-- **What the left stage can come to**, `it` being the segment before `s`. -/
inductive LeftStage (s : Segment) (bytes : ℕ) : List Segment → Merge → Prop
  | first : LeftStage s bytes [] ⟨[], bytes, some s⟩
  | gap {init : List Segment} {it : Segment} (hgap : it.finish < s.start) :
      LeftStage s bytes (init ++ [it]) ⟨init ++ [it], bytes, some s⟩
  | inside {init : List Segment} {it : Segment} (htouch : s.start ≤ it.finish)
      (hin : s.finish ≤ it.finish) :
      LeftStage s bytes (init ++ [it]) ⟨init ++ [it], bytes, none⟩
  | joined {init : List Segment} {it : Segment} (htouch : s.start ≤ it.finish)
      (hpast : it.finish < s.finish) :
      LeftStage s bytes (init ++ [it]) ⟨init, sub64 bytes it.data.length,
        some ⟨it.data ++ s.data.drop (it.finish - s.start), it.start⟩⟩

theorem mergeLeft_stage (s : Segment) (left : List Segment) (bytes : ℕ) :
    LeftStage s bytes left (mergeLeft s left bytes) := by
  rcases List.eq_nil_or_concat left with rfl | ⟨init, it, rfl⟩
  · exact .first
  simp only [List.concat_eq_append, mergeLeft, List.getLast?_append, List.getLast?_singleton,
    Option.some_or, List.dropLast_concat]
  split_ifs with htouch hin
  · exact .inside htouch hin
  · exact .joined htouch (not_le.mp hin)
  · exact .gap (not_le.mp htouch)

theorem mergeLeft_sublist (s : Segment) (left : List Segment) (bytes : ℕ) :
    (mergeLeft s left bytes).kept.Sublist left := by
  have hstage := mergeLeft_stage s left bytes
  generalize mergeLeft s left bytes = m at hstage
  cases hstage with
  | joined => exact List.sublist_append_left ..
  | _ => exact List.Sublist.refl _

/-- **The left stage adds `s` to the segments that start before it.** -/
theorem mergeLeft_spec (hhi : hi < 2 ^ 64) (hsep : Separated hi lo left)
    (hleft : ∀ x ∈ left, x.start < s.start) (hlo : lo < s.start) (hs : s.stop ≤ hi)
    (hb : totalLength left + b < 2 ^ 64) :
    let m := mergeLeft s left (totalLength left + b)
    Adds hi lo s left (m.kept ++ m.tmp.toList) ∧ m.unassembledByte = totalLength m.kept + b ∧
      (m.tmp = none → m.kept = left) ∧ ∀ t ∈ m.tmp, t.start ≤ s.start := by
  have hsf : s.finish = s.stop := Segment.finish_eq (by omega)
  have hfinish : ∀ x ∈ left, x.finish = x.stop :=
    fun x hx => Segment.finish_eq ((hsep.stop_le hx).trans_lt hhi)
  have hstage := mergeLeft_stage s left (totalLength left + b)
  generalize mergeLeft s left (totalLength left + b) = m at hstage
  cases hstage with
  | first => exact ⟨Adds.insert [] [] ⟨hlo, hs, trivial⟩, rfl, fun _ => rfl, by simp⟩
  | @gap init it hgap =>
    -- the segments before `it` end before it starts
    have hcut : ∀ x ∈ init ++ [it], x.stop < s.start := by
      intro x hx
      rw [← hfinish x hx]
      rcases List.mem_append.mp hx with hx' | hx'
      · have := (List.pairwise_append.mp hsep.pairwise).2.2 x hx' it (by simp)
        have := hleft it (by simp)
        have := hfinish x hx
        omega
      · rwa [List.mem_singleton.mp hx']
    have hadd := Adds.insert (init ++ [it]) [] (Separated.append_iff.mpr
      ⟨hsep, (⟨hlo, hs, trivial⟩ : Separated hi lo [s]), by simpa using hcut⟩)
    rw [List.append_nil] at hadd
    exact ⟨hadd, rfl, by simp, by simp⟩
  | @inside init it htouch hin =>
    rw [hsf, hfinish it (by simp)] at hin
    have hadd : Adds hi lo s (init ++ [it]) (init ++ [it] ++ []) := by
      rw [List.append_nil]
      exact .inside hsep (by simp) (hleft it (by simp)).le hin
    exact ⟨hadd, rfl, fun _ => rfl, by simp⟩
  | @joined init it htouch hpast =>
    obtain ⟨hinit, hit, hcut⟩ := Separated.append_iff.mp hsep
    have hits : it.start < s.start := hleft it (by simp)
    rw [hsf, hfinish it (by simp)] at hpast
    rw [hfinish it (by simp)] at htouch ⊢
    refine ⟨?_, ?_, by simp, by simpa using hits.le⟩
    · refine Adds.replace init [] (Separated.append_iff.mpr ⟨hinit, ⟨hit.1, ?_, trivial⟩, ?_⟩)
        (mem_join hits.le htouch hpast.le) fun w hw hsw => hw.join hsw htouch
      · exact (stop_join htouch hpast.le).trans_le hs
      · simpa using fun x hx => hcut x hx it (by simp)
    · simp only [totalLength_append, totalLength_cons, totalLength_nil] at hb ⊢
      rw [sub64_eq (by omega) (by omega)]
      omega

/-! ## The right stage -/

/-- The loop stops at the first segment that starts beyond the end it looks at. -/
theorem mergeRight_done {bytes : ℕ} (h : ∀ x ∈ right, finish < x.start) :
    mergeRight start finish t right bytes = ⟨right, bytes, some t⟩ := by
  cases right with
  | nil => rfl
  | cons it rest => rw [mergeRight, if_neg (by have := h it List.mem_cons_self; omega)]

theorem mergeRight_sublist (start finish : ℕ) (tmp : Segment) (right : List Segment) (bytes : ℕ) :
    (mergeRight start finish tmp right bytes).kept.Sublist right := by
  induction right generalizing tmp bytes with
  | nil => exact .slnil
  | cons x rest ih =>
    rw [mergeRight]
    split_ifs
    · exact .refl _
    · exact (ih _ _).cons x
    · exact (ih _ _).cons x
    · exact .refl _

/-- **The right stage adds `t` to the segments that do not start before it.** -/
theorem mergeRight_spec (hhi : hi < 2 ^ 64) (hlo : lo < t.start) (ht : t.stop ≤ hi) :
    ∀ {right : List Segment} {b : ℕ}, Separated hi lo right → (∀ x ∈ right, t.start ≤ x.start) →
      totalLength right + b < 2 ^ 64 →
      let m := mergeRight t.start t.stop t right (totalLength right + b)
      Adds hi lo t right (m.tmp.toList ++ m.kept) ∧ m.unassembledByte = totalLength m.kept + b := by
  intro right
  induction right with
  | nil =>
    intro b _ _ _
    exact ⟨Adds.insert [] [] ⟨hlo, ht, trivial⟩, rfl⟩
  | cons it rest ih =>
    intro b hsep hright hb
    have hitf : it.finish = it.stop := Segment.finish_eq (hsep.2.1.trans_lt hhi)
    have hts : t.start ≤ it.start := hright it List.mem_cons_self
    have hits := it.start_le_stop
    rw [totalLength_cons] at hb
    simp only [totalLength_cons, mergeRight, hitf]
    split_ifs with h1 h2 h3
    · -- `t` lies inside `it`, which starts at the same place
      exact ⟨.inside hsep List.mem_cons_self h2.1 h2.2, by rw [totalLength_cons]⟩
    · -- `it` reaches past the end of `t`: the rest starts beyond `it`
      rw [mergeRight_done fun x hx => h3.trans (hsep.2.2.lt_start hx)]
      have hstop := stop_join h1 h3.le
      refine ⟨Adds.replace [] rest ⟨hlo, hstop ▸ hsep.2.1, hstop ▸ hsep.2.2⟩ (fun j => ?_)
        fun w hw htw => htw.join hw h1, ?_⟩
      · rw [or_comm]
        exact mem_join hts h1 h3.le j
      · simp only
        rw [sub64_eq (by omega) (by omega)]
        omega
    · -- `it` is covered by `t` and goes
      rw [sub64_eq (by omega) (by omega),
        show it.data.length + totalLength rest + b - it.data.length = totalLength rest + b by omega]
      obtain ⟨hadd, hbytes⟩ := ih (b := b) (hsep.2.2.mono_lo (hsep.1.le.trans hits))
        (fun x hx => hright x (List.mem_cons_of_mem _ hx)) (by omega)
      exact ⟨hadd.absorb hts (not_lt.mp h3), hbytes⟩
    · -- a gap is left after `t`
      exact ⟨Adds.insert [] (it :: rest) ⟨hlo, ht, by omega, hsep.2⟩, by rw [totalLength_cons]⟩

/-! ## The two stages together -/

/-- A segment goes between those that start before it and those that start after it. -/
theorem setInsert_append {l₁ l₂ : List Segment} (h₁ : ∀ x ∈ l₁, x.start < t.start)
    (h₂ : ∀ x ∈ l₂, t.start < x.start) : setInsert t (l₁ ++ l₂) = l₁ ++ t :: l₂ := by
  induction l₁ with
  | nil =>
    cases l₂ with
    | nil => rfl
    | cons x l₂ => simp [setInsert, h₂ x List.mem_cons_self]
  | cons x l₁ ih =>
    have hx := h₁ x List.mem_cons_self
    simp only [List.cons_append, setInsert, if_neg (Nat.lt_asymm hx), if_pos hx]
    rw [ih fun y hy => h₁ y (List.mem_cons_of_mem _ hy)]

/-- `lower_bound` splits a list in order at the start of `s`. -/
theorem start_lt_of_mem_takeWhile {x : Segment}
    (hx : x ∈ l.takeWhile fun x => decide (x.start < s.start)) : x.start < s.start := by
  simpa using List.mem_takeWhile_imp hx

theorem le_start_of_mem_dropWhile (horder : l.Pairwise fun x y => x.start < y.start) {x : Segment}
    (hx : x ∈ l.dropWhile fun x => decide (x.start < s.start)) : s.start ≤ x.start := by
  induction l with
  | nil => cases hx
  | cons y l ih =>
    obtain ⟨hfirst, horder⟩ := List.pairwise_cons.mp horder
    by_cases hy : y.start < s.start
    · rw [List.dropWhile_cons_of_pos (by simpa using hy)] at hx
      exact ih horder hx
    · rw [List.dropWhile_cons_of_neg (by simpa using hy)] at hx
      rcases List.mem_cons.mp hx with rfl | hx
      · omega
      · have := hfirst x hx
        omega

/-- **The right stage and the insertion of `tmp`**, after a left stage that kept `kept`. -/
theorem insertRight_spec (hhi : hi < 2 ^ 64) (r : StreamReassembler) {kept : List Segment}
    (hkept : Separated hi lo (kept ++ [t])) (hsep : Separated hi lo right)
    (hright : ∀ x ∈ right, t.start ≤ x.start) :
    let r' := r.insertRight kept right t (totalLength kept + totalLength right)
    Adds hi lo t (kept ++ right) r'.unassembledSegment ∧
      r'.unassembledByte = totalLength r'.unassembledSegment := by
  obtain ⟨hk, ⟨hlt, hthi, _⟩, hcut⟩ := Separated.append_iff.mp hkept
  have htf : t.finish = t.stop := Segment.finish_eq (hthi.trans_lt hhi)
  have hle : lo ≤ hi := hlt.le.trans (t.start_le_stop.trans hthi)
  have hfit : totalLength right + totalLength kept < 2 ^ 64 := by
    have := (Separated.append_iff.mpr ⟨hk, hsep, fun e he x hx =>
      (hcut e he t (by simp)).trans_le (hright x hx)⟩).totalLength_le hle
    rw [totalLength_append] at this
    omega
  -- everything the right stage leaves starts at `t.start` or later
  have hraise : Separated hi (t.start - 1) right :=
    hsep.raise_lo fun x hx => by have := hright x hx; omega
  obtain ⟨hadd, hbytes⟩ := mergeRight_spec hhi (by omega) hthi hraise hright hfit
  rw [Nat.add_comm] at hadd hbytes
  simp only [insertRight, htf]
  set m := mergeRight t.start t.stop t right (totalLength kept + totalLength right)
  have hall : Adds hi lo t (kept ++ right) (kept ++ (m.tmp.toList ++ m.kept)) :=
    hadd.append_left hk (by omega) fun e he => Nat.le_sub_one_of_lt (hcut e he t (by simp))
  cases htmp : m.tmp with
  | none =>
    rw [htmp] at hall
    exact ⟨hall, by simp only [hbytes, totalLength_append]; omega⟩
  | some t' =>
    rw [htmp] at hall
    have hins : setInsert t' (kept ++ m.kept) = kept ++ t' :: m.kept := by
      have hpair := hall.separated.pairwise
      simp only [Option.toList_some, List.singleton_append, List.pairwise_append,
        List.pairwise_cons] at hpair
      refine setInsert_append (fun x hx => ?_) fun x hx => ?_
      · exact x.start_le_stop.trans_lt (hpair.2.2 x hx t' List.mem_cons_self)
      · exact t'.start_le_stop.trans_lt (hpair.2.1.1 x hx)
    simp only [hins]
    refine ⟨hall, ?_⟩
    have := hall.separated.totalLength_le hle
    simp only [Option.toList_some, List.singleton_append, totalLength_append,
      totalLength_cons] at this ⊢
    rw [hbytes, add64_eq (by omega)]
    omega

/-- **Both stages**: `s` is added to the segments on its two sides. -/
theorem insertBetween_spec (hhi : hi < 2 ^ 64) {r : StreamReassembler}
    (hsep : Separated hi lo (left ++ right))
    (hbytes : r.unassembledByte = totalLength left + totalLength right)
    (hleft : ∀ x ∈ left, x.start < s.start) (hright : ∀ x ∈ right, s.start ≤ x.start)
    (hlo : lo < s.start) (hs : s.stop ≤ hi) :
    let r' := r.insertBetween s left right
    Adds hi lo s (left ++ right) r'.unassembledSegment ∧
      r'.unassembledByte = totalLength r'.unassembledSegment := by
  obtain ⟨hsepl, hsepr, _⟩ := Separated.append_iff.mp hsep
  have hfit := hsep.totalLength_le (hlo.le.trans (s.start_le_stop.trans hs))
  rw [totalLength_append] at hfit
  obtain ⟨hadd, hlbytes, hnone, hsome⟩ :=
    mergeLeft_spec (b := totalLength right) hhi hsepl hleft hlo hs (by omega)
  simp only [insertBetween, hbytes]
  set m := mergeLeft s left (totalLength left + totalLength right)
  cases htmp : m.tmp with
  | none =>
    -- `s` is inside a segment that was pending already
    obtain hkept : m.kept = left := hnone htmp
    rw [htmp, hkept, Option.toList_none, List.append_nil] at hadd
    refine ⟨⟨by simpa only [hkept] using hsep, fun j => ?_, fun w hw _ => ?_⟩, ?_⟩
    · have := hadd.covers j
      simp only [hkept, covers_append]
      rw [or_right_comm, ← this]
    · simpa only [hkept] using hw
    · simp only [hlbytes, totalLength_append]
  | some t =>
    rw [htmp, Option.toList_some] at hadd
    obtain ⟨hadd', hbytes'⟩ := insertRight_spec hhi r hadd.separated hsepr fun x hx =>
      (hsome t htmp).trans (hright x hx)
    simp only [hlbytes]
    exact ⟨hadd.comp hadd', hbytes'⟩

/-- **`insert` adds the segment to the pending set and keeps the byte count.** -/
theorem insert_spec (hhi : hi < 2 ^ 64) {r : StreamReassembler}
    (hsep : Separated hi lo r.unassembledSegment)
    (hbytes : r.unassembledByte = totalLength r.unassembledSegment)
    (hlo : lo < s.start) (hs : s.stop ≤ hi) :
    Adds hi lo s r.unassembledSegment (r.insert s).unassembledSegment ∧
      (r.insert s).unassembledByte = totalLength (r.insert s).unassembledSegment := by
  unfold insert
  split
  · rename_i hlen
    obtain hnil : r.unassembledSegment = [] := List.length_eq_zero_iff.mp hlen
    rw [hnil, totalLength_nil] at hbytes
    rw [hnil]
    refine ⟨Adds.insert [] [] ⟨hlo, hs, trivial⟩, ?_⟩
    simp only [hbytes, totalLength_cons, totalLength_nil]
    rw [add64_eq (by simp only [stop] at hs; omega)]
    omega
  · have hlr : r.unassembledSegment =
        r.unassembledSegment.takeWhile (fun x => decide (x.start < s.start)) ++
          r.unassembledSegment.dropWhile (fun x => decide (x.start < s.start)) :=
      List.takeWhile_append_dropWhile.symm
    have horder : r.unassembledSegment.Pairwise fun x y => x.start < y.start :=
      hsep.pairwise.imp fun {x _} hxy => x.start_le_stop.trans_lt hxy
    have h := insertBetween_spec (r := r) hhi (hlr ▸ hsep)
      (by rw [hbytes, ← totalLength_append, ← hlr])
      (fun x hx => start_lt_of_mem_takeWhile hx) (fun x hx => le_start_of_mem_dropWhile horder hx)
      hlo hs
    rwa [← hlr] at h

section Frame

variable (r : StreamReassembler)

theorem insertBetween_frame (left right : List Segment) :
    let r' := r.insertBetween s left right
    r'.output = r.output ∧ r'.capacity = r.capacity ∧ r'.eof = r.eof ∧ r'.posEof = r.posEof := by
  simp only [insertBetween, insertRight]
  split
  · exact ⟨rfl, rfl, rfl, rfl⟩
  · split <;> exact ⟨rfl, rfl, rfl, rfl⟩

/-- **`insert` touches the pending set and its count only.** -/
theorem insert_frame (s : Segment) :
    (r.insert s).output = r.output ∧ (r.insert s).capacity = r.capacity ∧
      (r.insert s).eof = r.eof ∧ (r.insert s).posEof = r.posEof := by
  unfold insert
  split
  · exact ⟨rfl, rfl, rfl, rfl⟩
  · exact r.insertBetween_frame _ _

end Frame

end StreamReassembler
