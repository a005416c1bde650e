import Sponge.Lib.Pieces
import Sponge.ByteStream

/-!
# Wire/Buffer — strings whose front can be discarded

`buffer.hh`, `buffer.cc`.  A `Buffer` is a view of a shared string from some offset on, a
`BufferList` a sequence of them, as headers are put before a payload without copying it.  The shared
string is never written to, so a copy of a `Buffer` is as good as the original and sharing is left
out.  A `BufferViewList` is the same without ownership, for a `writev` that takes part of the bytes
at a time.  Discarding the front of either is dropping it from the bytes (`removePrefix_drops`).
-/

/-- A C++ exception and its `what()`. -/
inductive Exn
  | runtimeError (what : String)
  | outOfRange (what : String)
  deriving DecidableEq, Repr

/-- A `Buffer`: the string, none if it was never set or all of it is discarded, and how much of its
front is discarded. -/
structure Buffer where
  storage : Option Bytes := none
  startingOffset : ℕ := 0
  offset_le : ∀ s ∈ storage, startingOffset ≤ s.length := by simp
  deriving DecidableEq, Repr

namespace Buffer

/-- The constructor `Buffer(std::string &&str)`. -/
def ofString (str : Bytes) : Buffer := { storage := some str }

/-- The bytes that are left. -/
def str (b : Buffer) : Bytes :=
  match b.storage with
  | none => []
  | some s => s.drop b.startingOffset

def size (b : Buffer) : ℕ := b.str.length

@[simp] theorem str_ofString (s : Bytes) : (ofString s).str = s := rfl

theorem size_eq (b : Buffer) : b.size = b.str.length := rfl

/-- `remove_prefix(n)`, which throws `out_of_range` unless `n` bytes are left. -/
def removePrefix (b : Buffer) (n : ℕ) (h : n ≤ b.size) : Buffer where
  -- a string that is discarded to its end is let go
  storage := b.storage.filter fun s => b.startingOffset + n ≠ s.length
  startingOffset := b.startingOffset + n
  offset_le := by
    intro s hs
    obtain ⟨hmem, -⟩ := Option.filter_eq_some_iff.mp hs
    have hle := b.offset_le s hmem
    rw [size_eq, str, hmem, List.length_drop] at h
    omega

/-- **Removing a prefix drops it from the bytes.** -/
theorem str_removePrefix (b : Buffer) (n : ℕ) (h : n ≤ b.size) :
    (b.removePrefix n h).str = b.str.drop n := by
  obtain ⟨storage, offset, hoffset⟩ := b
  cases storage with
  | none => simp [str, removePrefix]
  | some s =>
    simp only [str, removePrefix, Option.filter_some, List.drop_drop]
    split_ifs with hne
    · rfl
    · have hend : offset + n = s.length := by simpa using hne
      rw [hend, List.drop_length]

/-- `remove_prefix(n)` with its exception. -/
def tryRemovePrefix (b : Buffer) (n : ℕ) : Except Exn Buffer :=
  if h : n ≤ b.size then .ok (b.removePrefix n h)
  else .error (.outOfRange "Buffer::remove_prefix")

/-- What is there is removed. -/
theorem tryRemovePrefix_of_le {b : Buffer} {n : ℕ} (h : n ≤ b.size) :
    b.tryRemovePrefix n = .ok (b.removePrefix n h) := dif_pos h

end Buffer

/-- A `BufferList`. -/
structure BufferList where
  buffers : List Buffer := []
  deriving DecidableEq, Repr

namespace BufferList

/-- The constructor `BufferList(Buffer buffer)`. -/
def ofBuffer (b : Buffer) : BufferList := ⟨[b]⟩

/-- The constructor `BufferList(std::string &&str)`. -/
def ofString (str : Bytes) : BufferList := ⟨[.ofString str]⟩

/-- `append`. -/
def append (l other : BufferList) : BufferList := ⟨l.buffers ++ other.buffers⟩

/-- `operator Buffer()`, which throws unless the list is contiguous. -/
def toBuffer (l : BufferList) : Except Exn Buffer :=
  match l.buffers with
  | [] => .ok {}
  | [b] => .ok b
  | _ :: _ :: _ => .error (.runtimeError
      "BufferList: please use concatenate() to combine a multi-Buffer BufferList into one Buffer")

def size (l : BufferList) : ℕ := l.buffers.foldl (fun ret b => ret + b.size) 0

/-- `concatenate()`. -/
def concatenate (l : BufferList) : Bytes := l.buffers.foldl (fun ret b => ret ++ b.str) []

/-- `remove_prefix(n)`: buffers are popped while they end within the prefix. -/
def removePrefix (l : BufferList) (n : ℕ) : Except Exn BufferList :=
  (dropPieces Buffer.size Buffer.tryRemovePrefix (.outOfRange "BufferList::remove_prefix")
    l.buffers n).map BufferList.mk

section Contents

variable (l other : BufferList) (b : Buffer)

/-- The bytes of a list are those of its buffers in order. -/
theorem concatenate_eq : l.concatenate = l.buffers.flatMap Buffer.str := by
  rw [concatenate, List.foldl_append_eq_append, List.nil_append, List.flatMap_def]

@[simp] theorem concatenate_append :
    (l.append other).concatenate = l.concatenate ++ other.concatenate := by
  simp [concatenate_eq, append]

@[simp] theorem concatenate_ofBuffer : (ofBuffer b).concatenate = b.str := rfl

@[simp] theorem concatenate_ofString (s : Bytes) : (ofString s).concatenate = s := rfl

/-- **The size is that of the bytes.** -/
theorem size_eq : l.size = l.concatenate.length := by
  rw [concatenate_eq]
  exact (foldl_add_length Buffer.str l.buffers 0).trans (Nat.zero_add _)

/-- At most one buffer is converted without an exception. -/
theorem toBuffer_of_length_le {l : BufferList} (h : l.buffers.length ≤ 1) :
    ∃ b, l.toBuffer = .ok b := by
  obtain ⟨bs⟩ := l
  match bs, h with
  | [], _ => exact ⟨_, rfl⟩
  | [b], _ => exact ⟨b, rfl⟩

/-- A list that is one buffer has its bytes. -/
theorem str_of_toBuffer {l : BufferList} {b : Buffer} (h : l.toBuffer = .ok b) :
    b.str = l.concatenate := by
  obtain ⟨bs⟩ := l
  match bs, h with
  | [], h =>
    obtain rfl := Except.ok.inj h
    rfl
  | [b'], h =>
    obtain rfl := Except.ok.inj h
    rfl

end Contents

end BufferList

/-- A `BufferViewList`; a `std::string_view` is the bytes it shows. -/
structure BufferViewList where
  views : List Bytes
  deriving DecidableEq, Repr

namespace BufferViewList

/-- The constructor `BufferViewList(const BufferList &buffers)`. -/
def ofBufferList (l : BufferList) : BufferViewList := ⟨l.buffers.map Buffer.str⟩

/-- `remove_prefix(n)`, the loop of `BufferList` over views. -/
def removePrefix (v : BufferViewList) (n : ℕ) : Except Exn BufferViewList :=
  (dropPieces List.length (fun view n => .ok (view.drop n))
    (.outOfRange "BufferListView::remove_prefix") v.views n).map BufferViewList.mk

def size (v : BufferViewList) : ℕ := v.views.foldl (fun ret view => ret + view.length) 0

/-- `as_iovecs`; an `iovec` points at the bytes of a view. -/
def asIovecs (v : BufferViewList) : List Bytes := v.views

variable (l : BufferList) (v : BufferViewList)

/-- A view of a list has its bytes. -/
theorem flatten_asIovecs_ofBufferList : (ofBufferList l).asIovecs.flatten = l.concatenate := by
  rw [BufferList.concatenate_eq, List.flatMap_def]
  rfl

theorem size_eq : v.size = v.asIovecs.flatten.length := by
  rw [← List.flatMap_id]
  exact (foldl_add_length id v.views 0).trans (Nat.zero_add _)

end BufferViewList

/-! ## Discarding the front -/

namespace BufferList

variable {l : BufferList} {n : ℕ}

theorem removePrefix_ok (h : n ≤ l.size) :
    ∃ l', l.removePrefix n = .ok l' ∧ l'.concatenate = l.concatenate.drop n := by
  rw [size_eq, concatenate_eq] at h
  obtain ⟨bs, hbs, hbytes⟩ := dropPieces_ok (Exn.outOfRange "BufferList::remove_prefix")
    Buffer.size_eq
    (fun b n hlt => ⟨_, Buffer.tryRemovePrefix_of_le hlt.le, b.str_removePrefix n hlt.le⟩) h
  exact ⟨⟨bs⟩, congrArg _ hbs, by rw [concatenate_eq, concatenate_eq, hbytes]⟩

theorem removePrefix_short (h : l.size < n) :
    l.removePrefix n = .error (.outOfRange "BufferList::remove_prefix") := by
  rw [size_eq, concatenate_eq] at h
  exact congrArg _ (dropPieces_short _ Buffer.size_eq h)

end BufferList

namespace BufferViewList

variable {v : BufferViewList} {n : ℕ}

/-- A view is a piece whose letters are itself. -/
theorem length_eq (view : Bytes) : view.length = (id view).length := rfl

theorem removePrefix_ok (h : n ≤ v.size) :
    ∃ v', v.removePrefix n = .ok v' ∧ v'.asIovecs.flatten = v.asIovecs.flatten.drop n := by
  rw [size_eq, ← List.flatMap_id] at h
  obtain ⟨views, hviews, hbytes⟩ := dropPieces_ok (Exn.outOfRange "BufferListView::remove_prefix")
    length_eq (fun view n _ => ⟨view.drop n, rfl, rfl⟩) h
  rw [List.flatMap_id, List.flatMap_id] at hbytes
  exact ⟨⟨views⟩, congrArg _ hviews, hbytes⟩

theorem removePrefix_short (h : v.size < n) :
    v.removePrefix n = .error (.outOfRange "BufferListView::remove_prefix") := by
  rw [size_eq, ← List.flatMap_id] at h
  exact congrArg _ (dropPieces_short _ length_eq h)

end BufferViewList

/-- **Discarding the front of a list of buffers drops it from the bytes**, however they are cut into
buffers, and throws exactly if there are fewer.  The views of the buffers do the same. -/
theorem BufferList.removePrefix_drops (l : BufferList) (n : ℕ) :
    (n ≤ l.size →
      (∃ l', l.removePrefix n = .ok l' ∧ l'.concatenate = l.concatenate.drop n ∧
        l'.size = l.size - n) ∧
      ∃ v, (BufferViewList.ofBufferList l).removePrefix n = .ok v ∧
        v.asIovecs.flatten = l.concatenate.drop n ∧ v.size = l.size - n) ∧
    (l.size < n →
      l.removePrefix n = .error (.outOfRange "BufferList::remove_prefix") ∧
      (BufferViewList.ofBufferList l).removePrefix n =
        .error (.outOfRange "BufferListView::remove_prefix")) := by
  have hbytes := BufferViewList.flatten_asIovecs_ofBufferList l
  have hviews : (BufferViewList.ofBufferList l).size = l.size := by
    rw [BufferViewList.size_eq, hbytes, size_eq]
  refine ⟨fun h => ⟨?_, ?_⟩, fun h => ⟨removePrefix_short h, ?_⟩⟩
  · obtain ⟨l', hl', hdrop⟩ := removePrefix_ok h
    exact ⟨l', hl', hdrop, by rw [size_eq, size_eq, hdrop, List.length_drop]⟩
  · obtain ⟨v, hv, hdrop⟩ := BufferViewList.removePrefix_ok (hviews.symm ▸ h)
    rw [hbytes] at hdrop
    exact ⟨v, hv, hdrop, by rw [BufferViewList.size_eq, hdrop, size_eq, List.length_drop]⟩
  · exact BufferViewList.removePrefix_short (hviews.symm ▸ h)

/-- A whole buffer, an empty one, and one whose first byte is gone: three bytes less, and five. -/
theorem BufferList.removePrefix_drops_mixed :
    let l : BufferList :=
      ⟨[.ofString [1, 2], {}, (Buffer.ofString [0, 3, 4]).removePrefix 1 (by decide)]⟩
    (∃ l', l.removePrefix 3 = .ok l' ∧ l'.concatenate = [4]) ∧
    l.removePrefix 5 = .error (.outOfRange "BufferList::remove_prefix") := by
  intro l
  obtain ⟨⟨l', hl', hbytes, _⟩, _⟩ := (l.removePrefix_drops 3).1 (by decide)
  exact ⟨⟨l', hl', hbytes⟩, ((l.removePrefix_drops 5).2 (by decide)).1⟩
