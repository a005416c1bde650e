import Sponge.ByteStream

/-!
# Reassembler/Model — `StreamReassembler`, operation by operation

`stream_reassembler.cc`.  The `std::set<Segment>` ordered by `start` is the list of its elements in
order; an iterator is the part of the list it points at.  Iterators are read as intended: the drain
loop of `push_substring` stops at the end of the set, and `++` on an erased iterator moves to the
next remaining segment.  (`Reassembler/Iterators` takes them literally.)

`push_substring` is partial for one reason: `std::string::substr` throws `out_of_range` when its
position is past the end of the string.  Every other `substr` of the file is guarded by the branch
it stands in.
-/

open Word64

/-- A substring waiting for the bytes before it. -/
abbrev Segment := Extent UInt8

/-- The expression `start + data.size()`, in `size_t`. -/
def Segment.finish (s : Segment) : ℕ := add64 s.start s.data.length

structure StreamReassembler where
  /-- `_unassembled_segment`, in the order of the set -/
  unassembledSegment : List Segment := []
  unassembledByte : ℕ := 0
  eof : Bool := false
  posEof : ℕ := 0
  output : ByteStream
  capacity : ℕ
  deriving DecidableEq, Repr

namespace StreamReassembler

/-- The constructor `StreamReassembler(const size_t capacity)`. -/
def new (capacity : UInt64) : StreamReassembler :=
  { output := .new capacity, capacity := capacity.toNat }

/-! ## The pending set -/

/-- `std::set::insert`: in order of `start`, and without effect when that key is present. -/
def setInsert (s : Segment) : List Segment → List Segment
  | [] => [s]
  | x :: xs =>
    if s.start < x.start then s :: x :: xs
    else if x.start < s.start then x :: setInsert s xs
    else x :: xs

/-- What one of the merging stages of `insert` leaves behind. -/
structure Merge where
  /-- the segments that stay in the set, on the side that was scanned -/
  kept : List Segment
  unassembledByte : ℕ
  /-- the segment still to be inserted, `none` after an early `return` -/
  tmp : Option Segment
  deriving DecidableEq, Repr

/-- Merge `s` with the segment before it, the last of `left`. -/
def mergeLeft (s : Segment) (left : List Segment) (bytes : ℕ) : Merge :=
  match left.getLast? with
  | none => ⟨left, bytes, some s⟩
  | some it =>
    -- filling the hole exactly counts as overlapping
    if s.start ≤ it.finish then
      if s.finish ≤ it.finish then ⟨left, bytes, none⟩
      else ⟨left.dropLast, sub64 bytes it.data.length,
        some ⟨it.data ++ s.data.drop (it.finish - s.start), it.start⟩⟩
    else ⟨left, bytes, some s⟩

/-- The `for` loop that absorbs the segments to the right.  `start` and `finish` are the locals
`start` and `start + size`, which the loop does not update while `tmp` grows. -/
def mergeRight (start finish : ℕ) : Segment → List Segment → ℕ → Merge
  | tmp, [], bytes => ⟨[], bytes, some tmp⟩
  | tmp, it :: rest, bytes =>
    if it.start ≤ finish then
      if it.start ≤ start ∧ finish ≤ it.finish then ⟨it :: rest, bytes, none⟩
      else
        mergeRight start finish
          (if finish < it.finish then ⟨tmp.data ++ it.data.drop (finish - it.start), tmp.start⟩
            else tmp)
          rest (sub64 bytes it.data.length)
    else ⟨it :: rest, bytes, some tmp⟩

/-- The right stage of `insert` and the insertion of `tmp`: `kept` is what the left stage left. -/
def insertRight (r : StreamReassembler) (kept right : List Segment) (tmp : Segment) (bytes : ℕ) :
    StreamReassembler :=
  let m := mergeRight tmp.start tmp.finish tmp right bytes
  match m.tmp with
  | none => { r with unassembledSegment := kept ++ m.kept, unassembledByte := m.unassembledByte }
  | some tmp =>
    { r with
      unassembledSegment := setInsert tmp (kept ++ m.kept)
      unassembledByte := add64 m.unassembledByte tmp.data.length }

/-- `insert` once `lower_bound` has cut the set into the segments that start before `s` and the
others. -/
def insertBetween (r : StreamReassembler) (s : Segment) (left right : List Segment) :
    StreamReassembler :=
  let m := mergeLeft s left r.unassembledByte
  match m.tmp with
  | none => { r with unassembledSegment := m.kept ++ right, unassembledByte := m.unassembledByte }
  | some tmp => r.insertRight m.kept right tmp m.unassembledByte

/-- `StreamReassembler::insert`: put a segment into the pending set, merging what it touches. -/
def insert (r : StreamReassembler) (s : Segment) : StreamReassembler :=
  if r.unassembledSegment.length = 0 then
    { r with
      unassembledSegment := [s]
      unassembledByte := add64 r.unassembledByte s.data.length }
  else
    r.insertBetween s (r.unassembledSegment.takeWhile fun x => x.start < s.start)
      (r.unassembledSegment.dropWhile fun x => x.start < s.start)

/-! ## Pushing a substring -/

/-- The drain loop: write what the pending segments hold beyond `finish`, the end of the segment
just written, and erase every segment that starts by then. -/
def drain (finish : ℕ) : List Segment → ByteStream → ℕ → List Segment × ByteStream × ℕ
  | [], out, bytes => ([], out, bytes)
  | it :: rest, out, bytes =>
    if it.start ≤ finish then
      drain finish rest
        (if finish < it.finish then out.write (it.data.drop (finish - it.start)) else out)
        (sub64 bytes it.data.length)
    else (it :: rest, out, bytes)

/-- Write a segment that reaches back to the first unassembled byte, then drain. -/
def assemble (r : StreamReassembler) (segment : Segment) : StreamReassembler :=
  let d := drain segment.finish r.unassembledSegment
    (r.output.write (segment.data.drop (r.output.bytesWritten - segment.start))) r.unassembledByte
  { r with unassembledSegment := d.1, output := d.2.1, unassembledByte := d.2.2 }

/-- The label `JUDGE_EOF`. -/
def judgeEof (r : StreamReassembler) (data : Bytes) (index : ℕ) (eof : Bool) : StreamReassembler :=
  let r := if eof then { r with eof := true, posEof := add64 index data.length } else r
  if r.eof ∧ r.output.bytesWritten = r.posEof then { r with output := r.output.endInput } else r

/-- The bytes of `data` that are kept when it reaches past `firstUnaccepted`. -/
def truncate (data : Bytes) (index firstUnaccepted : ℕ) : Bytes :=
  if firstUnaccepted < add64 index data.length then data.take (firstUnaccepted - index) else data

/-- `StreamReassembler::push_substring`, `none` when it throws. -/
def pushSubstring (r : StreamReassembler) (data : Bytes) (index : ℕ) (eof : Bool) :
    Option StreamReassembler :=
  let firstUnread := r.output.bytesRead
  let firstUnassembled := r.output.bytesWritten
  let firstUnaccepted := add64 firstUnread r.capacity
  let segment : Segment := ⟨truncate data index firstUnaccepted, index⟩
  if add64 index data.length < firstUnassembled ∨ firstUnaccepted ≤ index then
    some (r.judgeEof data index eof)
  else if index ≤ firstUnassembled then
    -- `segment.data.substr(first_unassambled - index)`
    if segment.data.length < firstUnassembled - index then none
    else some ((r.assemble segment).judgeEof data index eof)
  else some ((r.insert segment).judgeEof data index eof)

def unassembledBytes (r : StreamReassembler) : ℕ := r.unassembledByte

def empty (r : StreamReassembler) : Bool := r.unassembledByte == 0

end StreamReassembler
