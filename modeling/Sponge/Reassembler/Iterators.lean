import Sponge.Lib.Cursor
import Sponge.Reassembler.Exact

/-!
# Reassembler/Iterators — the iterators of `push_substring`, taken literally

`Reassembler/Model` reads the iterators as intended.  Here they are what they are in C++: partial,
undefined at `end()` and on an element that has been erased.  The same code is translated once more
with them, and it is undefined in more cases than not:

* the drain loop reads `it->start` without a look at `end()`, so it runs off the set unless some
  pending segment starts beyond what was written;
* `insert` erases `it` and then moves it on, in both of its stages, so it must not erase anything.

Where nothing is undefined the two readings agree, and `StreamReassembler.iterators_valid_iff` says
when that is.
-/

open Word64 Extent Cursor

namespace StreamReassembler

/-! ## The code with partial iterators -/

/-- How a call can fail. -/
inductive Fault
  | outOfRange
  | undefined
  deriving DecidableEq, Repr

/-- The drain loop, `none` where it is undefined. -/
def drainIter (finish : ℕ) (it : Cursor ℕ) (set : List Segment) (out : ByteStream) (bytes : ℕ) :
    Option (List Segment × ByteStream × ℕ) :=
  match deref start set it with
  | none => none
  | some (x : Segment) =>
    if x.start ≤ finish then
      -- `erase(it++)` moves on before it erases
      match next start set it with
      | none => none
      | some it' =>
        match _h : erase start set it with
        | none => none
        | some set' =>
          drainIter finish it' set'
            (if finish < x.finish then out.write (x.data.drop (finish - x.start)) else out)
            (sub64 bytes x.data.length)
    else some (set, out, bytes)
termination_by set.length
decreasing_by exact length_erase_lt _h

/-- The `for` loop of `insert`; `kept` is the whole set here. -/
def mergeRightIter (start finish : ℕ) (it : Cursor ℕ) (tmp : Segment) (set : List Segment)
    (bytes : ℕ) : Option Merge :=
  if it = .past then some ⟨set, bytes, some tmp⟩
  else
    match deref Extent.start set it with
    | none => none
    | some (x : Segment) =>
      if x.start ≤ finish then
        if x.start ≤ start ∧ finish ≤ x.finish then some ⟨set, bytes, none⟩
        else
          -- `erase(it)` in the body, `it++` in the head of the loop
          match _h : erase Extent.start set it with
          | none => none
          | some set' =>
            match next Extent.start set' it with
            | none => none
            | some it' =>
              mergeRightIter start finish it'
                (if finish < x.finish then ⟨tmp.data ++ x.data.drop (finish - x.start), tmp.start⟩
                  else tmp)
                set' (sub64 bytes x.data.length)
      else some ⟨set, bytes, some tmp⟩
termination_by set.length
decreasing_by exact length_erase_lt _h

/-- The right stage of `insert` from the iterator `it` on, and the insertion of `tmp`. -/
def insertRightIter (r : StreamReassembler) (it : Cursor ℕ) (set : List Segment) (tmp : Segment)
    (bytes : ℕ) : Option StreamReassembler :=
  (mergeRightIter tmp.start tmp.finish it tmp set bytes).map fun m =>
    match m.tmp with
    | none => { r with unassembledSegment := m.kept, unassembledByte := m.unassembledByte }
    | some tmp =>
      { r with
        unassembledSegment := setInsert tmp m.kept
        unassembledByte := add64 m.unassembledByte tmp.data.length }

/-- `insert` once `lower_bound` has given `it`. -/
def insertBetweenIter (r : StreamReassembler) (s : Segment) (it : Cursor ℕ) (set : List Segment) :
    Option StreamReassembler :=
  if it ≠ first start set then do
    let it ← prev start set it
    let x : Segment ← deref start set it
    if s.start ≤ x.finish then
      if s.finish ≤ x.finish then some r
      else do
        -- `erase(it)`, and `it++` after it
        let set' ← erase start set it
        let it ← next start set' it
        r.insertRightIter it set' ⟨x.data ++ s.data.drop (x.finish - s.start), x.start⟩
          (sub64 r.unassembledByte x.data.length)
    else do
      let it ← next start set it
      r.insertRightIter it set s r.unassembledByte
  else r.insertRightIter it set s r.unassembledByte

/-- `StreamReassembler::insert`, `none` where it is undefined. -/
def insertIter (r : StreamReassembler) (s : Segment) : Option StreamReassembler :=
  if r.unassembledSegment.length = 0 then
    some { r with
      unassembledSegment := [s]
      unassembledByte := add64 r.unassembledByte s.data.length }
  else
    r.insertBetweenIter s (lowerBound start r.unassembledSegment s.start) r.unassembledSegment

/-- Write a segment that reaches back to the first unassembled byte, then drain. -/
def assembleIter (r : StreamReassembler) (segment : Segment) : Option StreamReassembler :=
  (drainIter segment.finish (first start r.unassembledSegment) r.unassembledSegment
    (r.output.write (segment.data.drop (r.output.bytesWritten - segment.start)))
    r.unassembledByte).map fun d =>
      { r with unassembledSegment := d.1, output := d.2.1, unassembledByte := d.2.2 }

/-- `StreamReassembler::push_substring`. -/
def pushIter (r : StreamReassembler) (data : Bytes) (index : ℕ) (eof : Bool) :
    Except Fault StreamReassembler :=
  let firstUnread := r.output.bytesRead
  let firstUnassembled := r.output.bytesWritten
  let firstUnaccepted := add64 firstUnread r.capacity
  let segment : Segment := ⟨truncate data index firstUnaccepted, index⟩
  let judged : Option StreamReassembler → Except Fault StreamReassembler
    | some r => .ok (r.judgeEof data index eof)
    | none => .error .undefined
  if add64 index data.length < firstUnassembled ∨ firstUnaccepted ≤ index then judged (some r)
  else if index ≤ firstUnassembled then
    if segment.data.length < firstUnassembled - index then .error .outOfRange
    else judged (r.assembleIter segment)
  else judged (r.insertIter segment)

/-! ## Where it is defined -/

/-- **Nothing is erased between `left` and `right`**: `s` lies inside the last segment of `left`; or
it stays clear of it, and of the first of `right` unless it lies inside that one. -/
def KeepsBoth (s : Segment) (left right : List Segment) : Prop :=
  (∃ x ∈ left.getLast?, s.start ≤ x.finish ∧ s.finish ≤ x.finish) ∨
  (∀ x ∈ left.getLast?, x.finish < s.start) ∧
    ∀ x ∈ right.head?, s.finish < x.start ∨ x.start ≤ s.start ∧ s.finish ≤ x.finish

instance (s : Segment) (left right : List Segment) : Decidable (KeepsBoth s left right) := by
  unfold KeepsBoth
  infer_instance

/-- **The iterators stay valid** in a call: it is out of bounds, or throws; or it writes, and a
pending segment stops the drain loop; or it stores, and erases nothing. -/
def IteratorsValid (r : StreamReassembler) (data : Bytes) (index : ℕ) : Prop :=
  let firstUnassembled := r.output.bytesWritten
  let firstUnaccepted := add64 r.output.bytesRead r.capacity
  let segment : Segment := ⟨truncate data index firstUnaccepted, index⟩
  (add64 index data.length < firstUnassembled ∨ firstUnaccepted ≤ index) ∨
  if index ≤ firstUnassembled then
    segment.data.length < firstUnassembled - index ∨
      ∃ x ∈ r.unassembledSegment, segment.finish < x.start
  else
    KeepsBoth segment (r.unassembledSegment.takeWhile fun x => x.start < segment.start)
      (r.unassembledSegment.dropWhile fun x => x.start < segment.start)

instance (r : StreamReassembler) (data : Bytes) (index : ℕ) :
    Decidable (r.IteratorsValid data index) := by
  unfold IteratorsValid
  infer_instance

variable {r : StreamReassembler} {set left right : List Segment} {s tmp x : Segment}
  {finish bytes : ℕ}

/-- **The drain loop** does as intended if a segment stops it, and runs off the set if none does. -/
theorem drainIter_eq (h : Sorted start set) (out : ByteStream) (bytes : ℕ) :
    drainIter finish (first start set) set out bytes =
      if ∃ x ∈ set, finish < x.start then some (drain finish set out bytes) else none := by
  induction set generalizing out bytes with
  | nil =>
    rw [drainIter]
    rfl
  | cons x rest ih =>
    have hfront : Sorted start ([] ++ x :: rest) := h
    have hderef : deref start (x :: rest) (first start (x :: rest)) = some x := hfront.deref_elem
    have hnext : next start (x :: rest) (first start (x :: rest)) = some (first start rest) :=
      hfront.next_elem
    have herase : erase start (x :: rest) (first start (x :: rest)) = some rest :=
      hfront.erase_elem
    rw [drainIter, hderef, drain]
    dsimp only
    by_cases hx : x.start ≤ finish
    · have hstop : (∃ y ∈ x :: rest, finish < y.start) ↔ ∃ y ∈ rest, finish < y.start := by
        simp [not_lt.mpr hx]
      rw [if_pos hx, if_pos hx, hnext]
      dsimp only
      split
      · rename_i hnone
        cases herase.symm.trans hnone
      · rename_i set' hset
        obtain rfl := Option.some.inj (herase.symm.trans hset)
        rw [ih (List.pairwise_cons.mp h).2]
        simp only [hstop]
    · rw [if_neg hx, if_neg hx, if_pos ⟨x, List.mem_cons_self, not_le.mp hx⟩]

/-- **The loop to the right** does as intended if it erases nothing. -/
theorem mergeRightIter_eq {from' : ℕ} (h : Sorted start (left ++ right)) :
    mergeRightIter from' finish (first start right) tmp (left ++ right) bytes =
      if ∀ x ∈ right.head?, finish < x.start ∨ x.start ≤ from' ∧ finish ≤ x.finish then
        let m := mergeRight from' finish tmp right bytes
        some { m with kept := left ++ m.kept }
      else none := by
  cases right with
  | nil =>
    rw [mergeRightIter, first, if_pos rfl]
    simp [mergeRight]
  | cons x rest =>
    rw [mergeRightIter, first, if_neg (by simp), h.deref_elem, mergeRight]
    dsimp only
    simp only [List.head?_cons, Option.mem_def, Option.some.injEq, forall_eq']
    by_cases hx : x.start ≤ finish
    · rw [if_pos hx, if_pos hx]
      by_cases hin : x.start ≤ from' ∧ finish ≤ x.finish
      · rw [if_pos hin, if_pos hin, if_pos (.inr hin)]
      · -- the element is erased, and there is no way on from it
        rw [if_neg hin, if_neg (not_or.mpr ⟨not_lt.mpr hx, hin⟩)]
        split
        · rfl
        · rename_i set' hset
          obtain rfl := Option.some.inj (h.erase_elem.symm.trans hset)
          rw [h.next_erased]
    · rw [if_neg hx, if_neg hx, if_pos (.inl (not_le.mp hx))]

theorem insertRightIter_eq (h : Sorted start (left ++ right)) (r : StreamReassembler)
    (tmp : Segment) (bytes : ℕ) :
    r.insertRightIter (first start right) (left ++ right) tmp bytes =
      if ∀ x ∈ right.head?, tmp.finish < x.start ∨ x.start ≤ tmp.start ∧ tmp.finish ≤ x.finish then
        some (r.insertRight left right tmp bytes)
      else none := by
  rw [insertRightIter, mergeRightIter_eq h]
  split_ifs
  · rfl
  · rfl

/-- No segment starts before `s`: the left stage is skipped. -/
theorem insertBetweenIter_nil (h : Sorted start right) :
    r.insertBetweenIter s (first start right) right =
      if KeepsBoth s [] right then some (r.insertBetween s [] right) else none := by
  have hkeeps : KeepsBoth s [] right ↔
      ∀ x ∈ right.head?, s.finish < x.start ∨ x.start ≤ s.start ∧ s.finish ≤ x.finish := by
    simp [KeepsBoth]
  have hright := insertRightIter_eq (show Sorted start ([] ++ right) from h) r s r.unassembledByte
  rw [List.nil_append] at hright
  rw [insertBetweenIter, if_neg (not_not.mpr rfl)]
  simp only [hright, hkeeps]
  rfl

/-- The left stage looks at `x`, the last segment that starts before `s`. -/
theorem insertBetweenIter_concat (hset : r.unassembledSegment = left ++ x :: right)
    (h : Sorted start (left ++ x :: right)) :
    r.insertBetweenIter s (first start right) (left ++ x :: right) =
      if KeepsBoth s (left ++ [x]) right then some (r.insertBetween s (left ++ [x]) right)
      else none := by
  have hkeeps : KeepsBoth s (left ++ [x]) right ↔
      (s.start ≤ x.finish ∧ s.finish ≤ x.finish) ∨ x.finish < s.start ∧
        ∀ x ∈ right.head?, s.finish < x.start ∨ x.start ≤ s.start ∧ s.finish ≤ x.finish := by
    simp [KeepsBoth]
  rw [insertBetweenIter, if_pos h.first_ne, h.prev_first, Option.bind_eq_bind, Option.bind_some,
    h.deref_elem, Option.bind_eq_bind, Option.bind_some]
  simp only [hkeeps, insertBetween, mergeLeft, List.getLast?_append, List.getLast?_singleton,
    Option.some_or]
  by_cases htouch : s.start ≤ x.finish
  · by_cases hin : s.finish ≤ x.finish
    · rw [if_pos htouch, if_pos hin, if_pos htouch, if_pos hin, if_pos (.inl ⟨htouch, hin⟩)]
      simp only [List.append_assoc, List.singleton_append, ← hset]
    · -- the segment is erased, and there is no way on from it
      rw [if_pos htouch, if_neg hin, h.erase_elem, Option.bind_eq_bind, Option.bind_some,
        h.next_erased, if_neg]
      · rfl
      · rintro (⟨-, hin'⟩ | ⟨hclear, -⟩)
        · exact hin hin'
        · exact absurd htouch (not_le.mpr hclear)
  · have hsplit : left ++ x :: right = (left ++ [x]) ++ right := by simp
    have hright := insertRightIter_eq (hsplit ▸ h) r s r.unassembledByte
    rw [← hsplit] at hright
    rw [if_neg htouch, if_neg htouch, h.next_elem, Option.bind_some, hright]
    simp only [htouch, false_and, not_le.mp htouch, true_and, false_or]

/-- **Both stages** do as intended if they erase nothing. -/
theorem insertBetweenIter_eq (hset : r.unassembledSegment = left ++ right)
    (h : Sorted start (left ++ right)) :
    r.insertBetweenIter s (first start right) (left ++ right) =
      if KeepsBoth s left right then some (r.insertBetween s left right) else none := by
  rcases List.eq_nil_or_concat left with rfl | ⟨init, x, rfl⟩
  · exact insertBetweenIter_nil h
  · simp only [List.concat_eq_append, List.append_assoc, List.singleton_append] at hset h ⊢
    exact insertBetweenIter_concat hset h

theorem insertIter_eq (h : Sorted start r.unassembledSegment) (s : Segment) :
    r.insertIter s =
      if KeepsBoth s (r.unassembledSegment.takeWhile fun x => x.start < s.start)
        (r.unassembledSegment.dropWhile fun x => x.start < s.start)
      then some (r.insert s) else none := by
  unfold insertIter insert
  split_ifs with hlen hkeeps hkeeps
  · rfl
  · rw [List.length_eq_zero_iff.mp hlen] at hkeeps
    exact absurd (by simp [KeepsBoth]) hkeeps
  all_goals
    have hsplit : r.unassembledSegment.takeWhile (fun x => decide (x.start < s.start)) ++
        r.unassembledSegment.dropWhile (fun x => decide (x.start < s.start)) =
        r.unassembledSegment := List.takeWhile_append_dropWhile
    have hboth := insertBetweenIter_eq (s := s) hsplit.symm (hsplit.symm ▸ h)
    rw [hsplit] at hboth
    rw [lowerBound, hboth]
    simp [hkeeps]

theorem assembleIter_eq (h : Sorted start r.unassembledSegment) (s : Segment) :
    r.assembleIter s =
      if ∃ x ∈ r.unassembledSegment, s.finish < x.start then some (r.assemble s) else none := by
  rw [assembleIter, drainIter_eq h]
  split_ifs
  · rfl
  · rfl

/-- **Where the iterators stay valid the two readings agree**; elsewhere the call is undefined. -/
theorem pushIter_eq (h : Sorted start r.unassembledSegment) (data : Bytes) (index : ℕ)
    (eof : Bool) : r.pushIter data index eof =
      if r.IteratorsValid data index then
        match r.pushSubstring data index eof with
        | some r' => .ok r'
        | none => .error .outOfRange
      else .error .undefined := by
  unfold pushIter pushSubstring IteratorsValid
  dsimp only
  by_cases hout : add64 index data.length < r.output.bytesWritten ∨
      add64 r.output.bytesRead r.capacity ≤ index
  · simp only [hout, true_or, if_true]
  · by_cases hwrite : index ≤ r.output.bytesWritten
    · simp only [hout, hwrite, false_or, if_true, if_false]
      generalize truncate data index (add64 r.output.bytesRead r.capacity) = kept
      by_cases hshort : kept.length < r.output.bytesWritten - index
      · simp only [hshort, true_or, if_true]
      · simp only [hshort, false_or, if_false, assembleIter_eq h]
        split_ifs <;> rfl
    · simp only [hout, hwrite, false_or, if_false, insertIter_eq h]
      split_ifs <;> rfl

/-! ## The set stays in order -/

theorem mem_of_mem_setInsert {l : List Segment} (h : x ∈ setInsert s l) : x = s ∨ x ∈ l := by
  induction l with
  | nil => exact .inl (List.mem_singleton.mp h)
  | cons y l ih =>
    rw [setInsert] at h
    split_ifs at h
    · exact List.mem_cons.mp h
    · obtain rfl | h := List.mem_cons.mp h
      · exact .inr List.mem_cons_self
      · exact (ih h).imp_right (List.mem_cons_of_mem y)
    · exact .inr h

theorem sorted_setInsert {l : List Segment} (h : Sorted start l) (s : Segment) :
    Sorted start (setInsert s l) := by
  induction l with
  | nil => exact List.pairwise_singleton ..
  | cons y l ih =>
    obtain ⟨hy, hl⟩ := List.pairwise_cons.mp h
    rw [setInsert]
    split_ifs with hlt hgt
    · refine List.pairwise_cons.mpr ⟨fun x hx => ?_, h⟩
      obtain rfl | hx := List.mem_cons.mp hx
      · exact hlt
      · exact hlt.trans (hy x hx)
    · refine List.pairwise_cons.mpr ⟨fun x hx => ?_, ih hl⟩
      obtain rfl | hx := mem_of_mem_setInsert hx
      · exact hgt
      · exact hy x hx
    · exact h

theorem sorted_insertRight (h : Sorted start (left ++ right)) (r : StreamReassembler)
    (tmp : Segment) (bytes : ℕ) :
    Sorted start (r.insertRight left right tmp bytes).unassembledSegment := by
  have hright := mergeRight_sublist tmp.start tmp.finish tmp right bytes
  rw [insertRight]
  generalize mergeRight tmp.start tmp.finish tmp right bytes = m at hright ⊢
  have hkept : Sorted start (left ++ m.kept) := h.sublist (hright.append_left left)
  cases m.tmp with
  | none => exact hkept
  | some tmp => exact sorted_setInsert hkept tmp

theorem sorted_insertBetween (h : Sorted start (left ++ right)) (r : StreamReassembler)
    (s : Segment) : Sorted start (r.insertBetween s left right).unassembledSegment := by
  have hleft := mergeLeft_sublist s left r.unassembledByte
  rw [insertBetween]
  generalize mergeLeft s left r.unassembledByte = m at hleft ⊢
  have hkept : Sorted start (m.kept ++ right) := h.sublist (hleft.append_right right)
  cases m.tmp with
  | none => exact hkept
  | some tmp => exact sorted_insertRight hkept r tmp m.unassembledByte

theorem sorted_insert (h : Sorted start r.unassembledSegment) (s : Segment) :
    Sorted start (r.insert s).unassembledSegment := by
  unfold insert
  split_ifs with hlen
  · exact List.pairwise_singleton ..
  · refine sorted_insertBetween ?_ r s
    rwa [List.takeWhile_append_dropWhile]

theorem sorted_pushSubstring {r' : StreamReassembler} (h : Sorted start r.unassembledSegment)
    {data : Bytes} {index : ℕ} {eof : Bool} (hpush : r.pushSubstring data index eof = some r') :
    Sorted start r'.unassembledSegment := by
  obtain ⟨r₁, hplaced, rfl⟩ := pushSubstring_placed hpush
  rw [judgeEof_eq]
  cases hplaced with
  | outside => exact h
  | assembled => exact h.sublist (drain_sublist ..)
  | inserted => exact sorted_insert h _

theorem sorted_new (capacity : UInt64) : Sorted start (new capacity).unassembledSegment :=
  List.Pairwise.nil

theorem reach_sorted {capacity : UInt64} (h : Reach step (fun _ _ => True) (.new capacity) r) :
    Sorted start r.unassembledSegment := by
  refine h.invariant (I := fun r => Sorted start r.unassembledSegment) (sorted_new capacity)
    fun r c r' hr _ hstep => ?_
  cases c with
  | push data index eof => exact sorted_pushSubstring hr hstep
  | read len =>
    obtain rfl := Option.some.inj hstep
    exact hr
  | pop len =>
    obtain rfl := Option.some.inj hstep
    exact hr

/-- **When the iterators of `push_substring` stay valid.**  In every state that pushes, reads and
pops lead to, and for every substring, a call with partial iterators is defined exactly under
`IteratorsValid`, and then it does what the call with the iterators as intended does, or throws
where that one does. -/
theorem iterators_valid_iff {capacity : UInt64}
    (h : Reach step (fun _ _ => True) (.new capacity) r) (data : Bytes) (index : UInt64)
    (eof : Bool) :
    (r.pushIter data index.toNat eof ≠ .error .undefined ↔ r.IteratorsValid data index.toNat) ∧
    (r.IteratorsValid data index.toNat → r.pushIter data index.toNat eof =
      match r.pushSubstring data index.toNat eof with
      | some r' => .ok r'
      | none => .error .outOfRange) := by
  rw [pushIter_eq (reach_sorted h)]
  refine ⟨?_, fun hvalid => if_pos hvalid⟩
  by_cases hvalid : r.IteratorsValid data index.toNat
  · rw [if_pos hvalid]
    refine iff_of_true ?_ hvalid
    cases r.pushSubstring data index.toNat eof <;> simp
  · rw [if_neg hvalid]
    exact iff_of_false (by simp) hvalid

/-- The byte of index 2 waits; it stops the drain loop when that of index 0 is written. -/
theorem iterators_valid_run : ∃ r, Reach step (fun _ _ => True) (.new 8) r ∧
    (∃ r', r.pushSubstring [97] 0 false = some r' ∧ r'.output.bytesWritten = 1) ∧
    r.pushIter [97] 0 false ≠ .error .undefined := by
  obtain ⟨r, hr, hp⟩ := exists_reach_of_exec step (fun _ _ => True) (.new 8) [.push [99] 2 false]
    (fun r => (∃ r' ∈ r.pushSubstring [97] 0 false, r'.output.bytesWritten = 1) ∧
      r.IteratorsValid [97] 0) (by decide)
  obtain ⟨hpush, hvalid⟩ := of_decide_eq_true hp
  exact ⟨r, hr, hpush, (iterators_valid_iff hr [97] 0 false).1.mpr hvalid⟩

/-- **The iterators do not stay valid.**  The first byte pushed into a new reassembler is written,
and the drain loop reads `begin()` of an empty set.  And if the byte of index 2 waits, that of
index 1 is merged with it: `insert` erases the one that waits and moves its iterator on. -/
theorem end_read : (new 8).pushIter [97] 0 false = .error .undefined ∧
    ∃ r, Reach step (fun _ _ => True) (.new 8) r ∧ r.pushIter [98] 1 false = .error .undefined := by
  refine ⟨?_, ?_⟩
  · rw [pushIter_eq (sorted_new 8), if_neg (by decide)]
  · obtain ⟨r, hr, hp⟩ := exists_reach_of_exec step (fun _ _ => True) (.new 8)
      [.push [99] 2 false] (fun r => ¬ r.IteratorsValid [98] 1) (by decide)
    refine ⟨r, hr, ?_⟩
    rw [pushIter_eq (reach_sorted hr), if_neg (of_decide_eq_true hp)]

end StreamReassembler
