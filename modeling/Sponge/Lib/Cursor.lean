import Mathlib.Tactic

/-!
# Lib/Cursor — iterators into an ordered set

An ordered set is the list of its elements by increasing key; an iterator into it is the key of the
element it points at, or the end.  To read, to move and to erase are partial: they are undefined,
`none`, at the end and on an element that has been erased.  While other elements are erased an
iterator stays good.  (A new element with the key of an erased one would revive its iterators, which
it does not in C++: no code that inserts while it holds one is to be modelled so.)

The lemmas say what becomes of an iterator at the element `x` of a set `pre ++ x :: post`.
-/

/-- An iterator into a set whose elements have keys in `κ`. -/
inductive Cursor (κ : Type*)
  | elem (k : κ)
  | past
  deriving DecidableEq, Repr

namespace Cursor

variable {α κ : Type*} [LinearOrder κ] (key : α → κ)

/-- The elements stand in order, and no key occurs twice. -/
def Sorted (l : List α) : Prop := l.Pairwise fun x y => key x < key y

/-- `begin()`. -/
def first : List α → Cursor κ
  | [] => .past
  | x :: _ => .elem (key x)

/-- `lower_bound`: the first element whose key is not below `k`. -/
def lowerBound (l : List α) (k : κ) : Cursor κ := first key (l.dropWhile fun x => key x < k)

/-- `*it`. -/
def deref (l : List α) : Cursor κ → Option α
  | .elem k => l.find? fun x => key x = k
  | .past => none

/-- `++it`. -/
def next (l : List α) (it : Cursor κ) : Option (Cursor κ) :=
  (deref key l it).map fun x => first key (l.dropWhile fun y => key y ≤ key x)

/-- `--it`, undefined at the first element. -/
def prev (l : List α) (it : Cursor κ) : Option (Cursor κ) :=
  let before := match it with
    | .elem k => (deref key l (.elem k)).map fun x => l.takeWhile fun y => key y < key x
    | .past => some l
  before.bind fun l => l.getLast?.map fun y => .elem (key y)

/-- `erase(it)`. -/
def erase (l : List α) (it : Cursor κ) : Option (List α) :=
  (deref key l it).map fun x => l.filter fun y => key y ≠ key x

variable {key} {pre post l : List α} {x : α}

namespace Sorted

theorem pre_lt (h : Sorted key (pre ++ x :: post)) : ∀ y ∈ pre, key y < key x :=
  fun y hy => (List.pairwise_append.mp h).2.2 y hy x List.mem_cons_self

theorem lt_post (h : Sorted key (pre ++ x :: post)) : ∀ y ∈ post, key x < key y :=
  (List.pairwise_cons.mp (List.pairwise_append.mp h).2.1).1

theorem deref_elem (h : Sorted key (pre ++ x :: post)) :
    deref key (pre ++ x :: post) (.elem (key x)) = some x := by
  refine List.find?_eq_some_iff_append.mpr ⟨by simp, pre, post, rfl, fun y hy => ?_⟩
  simpa using (h.pre_lt y hy).ne

/-- **An erased element cannot be read.** -/
theorem deref_erased (h : Sorted key (pre ++ x :: post)) :
    deref key (pre ++ post) (.elem (key x)) = none := by
  refine List.find?_eq_none.mpr fun y hy => ?_
  obtain hy | hy := List.mem_append.mp hy
  · simpa using (h.pre_lt y hy).ne
  · simpa using (h.lt_post y hy).ne'

theorem next_elem (h : Sorted key (pre ++ x :: post)) :
    next key (pre ++ x :: post) (.elem (key x)) = some (first key post) := by
  have hdrop : (pre ++ x :: post).dropWhile (fun y => key y ≤ key x) = post := by
    rw [List.dropWhile_append_of_pos fun y hy => by simpa using (h.pre_lt y hy).le,
      List.dropWhile_cons_of_pos (by simp)]
    cases post with
    | nil => rfl
    | cons y post =>
      exact List.dropWhile_cons_of_neg (by simpa using h.lt_post y List.mem_cons_self)
  rw [next, h.deref_elem, Option.map_some, hdrop]

/-- **Nor is there a way on from it.** -/
theorem next_erased (h : Sorted key (pre ++ x :: post)) :
    next key (pre ++ post) (.elem (key x)) = none := by
  rw [next, h.deref_erased, Option.map_none]

theorem erase_elem (h : Sorted key (pre ++ x :: post)) :
    erase key (pre ++ x :: post) (.elem (key x)) = some (pre ++ post) := by
  have hpre : pre.filter (fun y => key y ≠ key x) = pre :=
    List.filter_eq_self.mpr fun y hy => by simpa using (h.pre_lt y hy).ne
  have hpost : post.filter (fun y => key y ≠ key x) = post :=
    List.filter_eq_self.mpr fun y hy => by simpa using (h.lt_post y hy).ne'
  rw [erase, h.deref_elem, Option.map_some, List.filter_append, hpre,
    List.filter_cons_of_neg (by simp), hpost]

/-- Before the first element of `post` is the last one before `post`. -/
theorem prev_first (h : Sorted key (pre ++ x :: post)) :
    prev key (pre ++ x :: post) (first key post) = some (.elem (key x)) := by
  cases post with
  | nil => simp [prev, first]
  | cons y post =>
    have hsplit : pre ++ x :: y :: post = (pre ++ [x]) ++ y :: post := by simp
    have htake : ((pre ++ [x]) ++ y :: post).takeWhile (fun z => key z < key y) = pre ++ [x] := by
      rw [hsplit] at h
      rw [List.takeWhile_append_of_pos fun z hz => by simpa using h.pre_lt z hz,
        List.takeWhile_cons_of_neg (by simp), List.append_nil]
    rw [hsplit] at h ⊢
    simp only [prev, first, h.deref_elem, Option.map_some, htake, Option.bind_some,
      List.getLast?_concat]

/-- `begin()` is before what has something before it. -/
theorem first_ne (h : Sorted key (pre ++ x :: post)) :
    first key post ≠ first key (pre ++ x :: post) := by
  cases post with
  | nil => cases pre <;> simp [first]
  | cons y post =>
    cases pre with
    | nil => simpa [first] using (h.lt_post y List.mem_cons_self).ne'
    | cons z pre =>
      have hzx := h.pre_lt z List.mem_cons_self
      have hxy := h.lt_post y List.mem_cons_self
      simpa [first] using (hzx.trans hxy).ne'

end Sorted

/-- Erasing makes a set smaller. -/
theorem length_erase_lt {it : Cursor κ} {l' : List α} (h : erase key l it = some l') :
    l'.length < l.length := by
  obtain ⟨x, hx, rfl⟩ := Option.map_eq_some_iff.mp h
  cases it with
  | past => cases hx
  | elem k =>
    exact List.length_filter_lt_length_iff_exists.mpr
      ⟨x, List.mem_of_find?_eq_some hx, by simp⟩

end Cursor
