import Mathlib.Data.Finset.Card
import Mathlib.Order.Interval.Finset.Nat
import Mathlib.Tactic

/-!
# Lib/Extent — strings placed on a line, and lists of them that do not touch

An `Extent` is a string together with the position of its first letter.  Two notions are developed:

* `Excerpt w i d` — `d` is what the text `w` reads from position `i` on, as far as `d` goes.
  Joining overlapping excerpts gives an excerpt (`Excerpt.join`).
* `Separated hi lo l` — the extents of `l` follow each other with gaps: the first starts beyond
  `lo`, each starts beyond the end of the one before, and none ends beyond `hi`.  `Adds` says what
  it means to add an extent to such a list, with one rule for each way it can meet the others.

`Covers l j` says that position `j` is inside one of the extents; a separated list covers exactly as
many positions as its strings have letters (`Separated.card_coverSet`).
-/

variable {α : Type*}

/-! ## Excerpts of a text -/

/-- **`d` is the text `w` read from position `i`**, as far as `d` goes. -/
def Excerpt (w : List α) (i : ℕ) (d : List α) : Prop := d <+: w.drop i

namespace Excerpt

variable {w w' d d' : List α} {i j : ℕ}

theorem nil (w : List α) (i : ℕ) : Excerpt w i [] := List.nil_prefix

/-- The text itself, cut out at `i` for `n` letters. -/
theorem take_drop (w : List α) (i n : ℕ) : Excerpt w i ((w.drop i).take n) := List.take_prefix _ _

theorem take (h : Excerpt w i d) (n : ℕ) : Excerpt w i (d.take n) := (List.take_prefix n d).trans h

/-- Dropping letters moves the position. -/
theorem drop (h : Excerpt w i d) (n : ℕ) : Excerpt w (i + n) (d.drop n) := by
  have := List.IsPrefix.drop h n
  rwa [List.drop_drop] at this

/-- Excerpts survive when the text grows at its end. -/
theorem mono (h : Excerpt w i d) (hw : w <+: w') : Excerpt w' i d := h.trans (hw.drop i)

/-- **Two adjacent excerpts make one.** -/
theorem append (h : Excerpt w i d) (h' : Excerpt w (i + d.length) d') : Excerpt w i (d ++ d') := by
  obtain ⟨t, ht⟩ := h
  have hdrop : w.drop (i + d.length) = t := by
    rw [← List.drop_drop, ← ht, List.drop_left]
  obtain ⟨t', ht'⟩ := h'
  rw [hdrop] at ht'
  exact ⟨t', by rw [List.append_assoc, ht', ht]⟩

/-- **Two overlapping excerpts make one**: the second is cut where the first ends. -/
theorem join (h : Excerpt w i d) (h' : Excerpt w j d') (hji : j ≤ i + d.length) :
    Excerpt w i (d ++ d'.drop (i + d.length - j)) := by
  refine h.append ?_
  have := h'.drop (i + d.length - j)
  rwa [show j + (i + d.length - j) = i + d.length by omega] at this

/-- A prefix of the text is an excerpt at its start. -/
theorem zero_iff : Excerpt w 0 d ↔ d <+: w := by rw [Excerpt, List.drop_zero]

end Excerpt

/-! ## Extents -/

/-- A string placed at a position. -/
structure Extent (α : Type*) where
  data : List α
  start : ℕ
  deriving DecidableEq, Repr

namespace Extent

/-- The position after the last letter. -/
def stop (e : Extent α) : ℕ := e.start + e.data.length

theorem start_le_stop (e : Extent α) : e.start ≤ e.stop := Nat.le_add_right _ _

/-- The text an extent claims is the text `w` has there. -/
def Of (w : List α) (e : Extent α) : Prop := Excerpt w e.start e.data

/-- The extent `e` and after it what `e'` has beyond it. -/
def join (e e' : Extent α) : Extent α := ⟨e.data ++ e'.data.drop (e.stop - e'.start), e.start⟩

variable {e e' : Extent α}

theorem stop_join (h : e'.start ≤ e.stop) (h' : e.stop ≤ e'.stop) : (e.join e').stop = e'.stop := by
  simp only [join, stop, List.length_append, List.length_drop] at *
  omega

/-- **The join of two overlapping extents is their union.** -/
theorem mem_join (hs : e.start ≤ e'.start) (h : e'.start ≤ e.stop) (h' : e.stop ≤ e'.stop) (j : ℕ) :
    ((e.join e').start ≤ j ∧ j < (e.join e').stop) ↔
      (e.start ≤ j ∧ j < e.stop) ∨ (e'.start ≤ j ∧ j < e'.stop) := by
  rw [stop_join h h', show (e.join e').start = e.start from rfl]
  omega

theorem Of.join {w : List α} (he : Of w e) (he' : Of w e') (h : e'.start ≤ e.stop) :
    Of w (e.join e') :=
  Excerpt.join he he' h

/-- The end of an extent, from position `i` on. -/
theorem Of.tail {w : List α} {i : ℕ} (he : Of w e) (h : e.start ≤ i) :
    Excerpt w i (e.data.drop (i - e.start)) := by
  have := Excerpt.drop he (i - e.start)
  rwa [show e.start + (i - e.start) = i by omega] at this

theorem length_tail {i : ℕ} (h : e.start ≤ i) :
    (e.data.drop (i - e.start)).length = e.stop - i := by
  simp only [stop, List.length_drop]
  omega

end Extent

open Extent

/-- Position `j` is inside one of the extents. -/
def Covers (l : List (Extent α)) (j : ℕ) : Prop := ∃ e ∈ l, e.start ≤ j ∧ j < e.stop

instance (l : List (Extent α)) (j : ℕ) : Decidable (Covers l j) :=
  inferInstanceAs (Decidable (∃ e ∈ l, _))

@[simp] theorem covers_nil (j : ℕ) : Covers ([] : List (Extent α)) j ↔ False := by simp [Covers]

@[simp] theorem covers_cons (e : Extent α) (l : List (Extent α)) (j : ℕ) :
    Covers (e :: l) j ↔ (e.start ≤ j ∧ j < e.stop) ∨ Covers l j := by simp [Covers]

@[simp] theorem covers_append (l l' : List (Extent α)) (j : ℕ) :
    Covers (l ++ l') j ↔ Covers l j ∨ Covers l' j := by
  simp only [Covers, List.mem_append, or_and_right, exists_or]

/-- The number of letters in all the extents. -/
def totalLength (l : List (Extent α)) : ℕ := (l.map fun e => e.data.length).sum

@[simp] theorem totalLength_nil : totalLength ([] : List (Extent α)) = 0 := rfl

@[simp] theorem totalLength_cons (e : Extent α) (l : List (Extent α)) :
    totalLength (e :: l) = e.data.length + totalLength l := by simp [totalLength]

@[simp] theorem totalLength_append (l l' : List (Extent α)) :
    totalLength (l ++ l') = totalLength l + totalLength l' := by simp [totalLength]

/-! ## Separated lists -/

/-- **The extents follow each other with gaps**: each starts strictly beyond the end of the one
before (the first beyond `lo`) and ends no later than `hi`. -/
def Separated (hi : ℕ) : ℕ → List (Extent α) → Prop
  | _, [] => True
  | lo, e :: l => lo < e.start ∧ e.stop ≤ hi ∧ Separated hi e.stop l

namespace Separated

variable {hi hi' lo lo' : ℕ} {e : Extent α} {l l' : List (Extent α)}

theorem mono_lo (h : Separated hi lo l) (hlo : lo' ≤ lo) : Separated hi lo' l := by
  cases l with
  | nil => trivial
  | cons e l => exact ⟨lt_of_le_of_lt hlo h.1, h.2⟩

theorem mono_hi (h : Separated hi lo l) (hhi : hi ≤ hi') : Separated hi' lo l := by
  induction l generalizing lo with
  | nil => trivial
  | cons e l ih => exact ⟨h.1, h.2.1.trans hhi, ih h.2.2⟩

/-- A later start is all that the lower bound asks for. -/
theorem raise_lo (h : Separated hi lo l) (hlo : ∀ e ∈ l, lo' < e.start) : Separated hi lo' l := by
  cases l with
  | nil => trivial
  | cons e l => exact ⟨hlo e List.mem_cons_self, h.2⟩

theorem lt_start (h : Separated hi lo l) (he : e ∈ l) : lo < e.start := by
  induction l generalizing lo with
  | nil => cases he
  | cons x l ih =>
    rcases List.mem_cons.mp he with rfl | he
    · exact h.1
    · exact h.1.trans_le (x.start_le_stop.trans (ih h.2.2 he).le)

theorem stop_le (h : Separated hi lo l) (he : e ∈ l) : e.stop ≤ hi := by
  induction l generalizing lo with
  | nil => cases he
  | cons x l ih =>
    rcases List.mem_cons.mp he with rfl | he
    · exact h.2.1
    · exact ih h.2.2 he

/-- Nothing at or below the lower bound is covered. -/
theorem lt_of_covers (h : Separated hi lo l) {j : ℕ} (hj : Covers l j) : lo < j := by
  obtain ⟨e, he, hs, _⟩ := hj
  exact (h.lt_start he).trans_le hs

/-- **Cutting a separated list in two**: everything in the second part starts beyond the end of
everything in the first. -/
theorem append_iff : Separated hi lo (l ++ l') ↔
    Separated hi lo l ∧ Separated hi lo l' ∧ ∀ e ∈ l, ∀ e' ∈ l', e.stop < e'.start := by
  induction l generalizing lo with
  | nil => simp [Separated]
  | cons x l ih =>
    simp only [List.cons_append, Separated, ih, List.forall_mem_cons]
    constructor
    · rintro ⟨hlo, hhi, hl, hl', hcut⟩
      have hx : ∀ e' ∈ l', x.stop < e'.start := fun e' he' => hl'.lt_start he'
      exact ⟨⟨hlo, hhi, hl⟩, hl'.mono_lo (hlo.le.trans x.start_le_stop), hx, hcut⟩
    · rintro ⟨⟨hlo, hhi, hl⟩, hl', hx, hcut⟩
      exact ⟨hlo, hhi, hl, hl'.raise_lo hx, hcut⟩

/-- A separated list in order: earlier members end before later ones start. -/
theorem pairwise (h : Separated hi lo l) : l.Pairwise fun e e' => e.stop < e'.start := by
  induction l generalizing lo with
  | nil => exact .nil
  | cons x l ih => exact .cons (fun e he => h.2.2.lt_start he) (ih h.2.2)

/-- The strings fit into what is left between the bounds. -/
theorem totalLength_le (h : Separated hi lo l) (hle : lo ≤ hi) : lo + totalLength l ≤ hi := by
  induction l generalizing lo with
  | nil => simpa using hle
  | cons x l ih =>
    have := ih h.2.2 h.2.1
    have := h.1
    simp only [totalLength_cons, stop] at *
    omega

end Separated

/-! ## Adding an extent -/

/-- **`l'` is the list `l` with the extent `e` added.** -/
structure Adds (hi lo : ℕ) (e : Extent α) (l l' : List (Extent α)) : Prop where
  separated : Separated hi lo l'
  covers : ∀ j, Covers l' j ↔ Covers l j ∨ (e.start ≤ j ∧ j < e.stop)
  of : ∀ w, (∀ x ∈ l, Of w x) → Of w e → ∀ x ∈ l', Of w x

namespace Adds

variable {hi lo lo' : ℕ} {e x x' : Extent α} {k l l' : List (Extent α)}

/-- An extent inside a member of the list adds nothing. -/
theorem inside (hl : Separated hi lo l) (hx : x ∈ l) (hs : x.start ≤ e.start)
    (ht : e.stop ≤ x.stop) : Adds hi lo e l l := by
  refine ⟨hl, fun j => ⟨Or.inl, ?_⟩, fun w hw _ => hw⟩
  rintro (h | ⟨h, h'⟩)
  · exact h
  · exact ⟨x, hx, by omega, by omega⟩

/-- An extent that fits into a gap. -/
theorem insert (l₁ l₂ : List (Extent α)) (h : Separated hi lo (l₁ ++ e :: l₂)) :
    Adds hi lo e (l₁ ++ l₂) (l₁ ++ e :: l₂) := by
  refine ⟨h, fun j => ?_, fun w hw he y hy => ?_⟩
  · rw [covers_append, covers_append, covers_cons, or_assoc, or_comm (a := Covers l₂ j)]
  · rcases List.mem_append.mp hy with hy | hy
    · exact hw y (List.mem_append_left _ hy)
    · rcases List.mem_cons.mp hy with rfl | hy
      · exact he
      · exact hw y (List.mem_append_right _ hy)

/-- **A member is replaced by its union with the extent.** -/
theorem replace (l₁ l₂ : List (Extent α)) (h : Separated hi lo (l₁ ++ x' :: l₂))
    (hx : ∀ j, (x'.start ≤ j ∧ j < x'.stop) ↔
      (x.start ≤ j ∧ j < x.stop) ∨ (e.start ≤ j ∧ j < e.stop))
    (hof : ∀ w, Of w x → Of w e → Of w x') : Adds hi lo e (l₁ ++ x :: l₂) (l₁ ++ x' :: l₂) := by
  refine ⟨h, fun j => ?_, fun w hw he y hy => ?_⟩
  · simp only [covers_append, covers_cons, hx]
    tauto
  · rcases List.mem_append.mp hy with hy | hy
    · exact hw y (List.mem_append_left _ hy)
    · rcases List.mem_cons.mp hy with rfl | hy
      · exact hof w (hw x (by simp)) he
      · exact hw y (by simp [hy])

/-- A member inside the extent need not be kept. -/
theorem absorb (h : Adds hi lo e l l') (hs : e.start ≤ x.start) (ht : x.stop ≤ e.stop) :
    Adds hi lo e (x :: l) l' := by
  refine ⟨h.separated, fun j => ?_, fun w hw => h.of w fun y hy => hw y (List.mem_cons_of_mem _ hy)⟩
  rw [h.covers, covers_cons]
  constructor
  · rintro (hj | hj)
    · exact Or.inl (Or.inr hj)
    · exact Or.inr hj
  · rintro ((⟨h₁, h₂⟩ | hj) | hj)
    · exact Or.inr ⟨by omega, by omega⟩
    · exact Or.inl hj
    · exact Or.inr hj

/-- What comes before stays as it is. -/
theorem append_left (h : Adds hi lo' e l l') (hk : Separated hi lo k) (hlo : lo ≤ lo')
    (hcut : ∀ y ∈ k, y.stop ≤ lo') : Adds hi lo e (k ++ l) (k ++ l') := by
  refine ⟨?_, fun j => ?_, fun w hw he y hy => ?_⟩
  · exact Separated.append_iff.mpr ⟨hk, h.separated.mono_lo hlo,
      fun y hy y' hy' => (hcut y hy).trans_lt (h.separated.lt_start hy')⟩
  · rw [covers_append, h.covers, covers_append, or_assoc]
  · rcases List.mem_append.mp hy with hy | hy
    · exact hw y (List.mem_append_left _ hy)
    · exact h.of w (fun z hz => hw z (List.mem_append_right _ hz)) he y hy

/-- **Two stages in a row**: `e` is added on the left, becoming part of the last member `x`, and
`x` is added on the right. -/
theorem comp {left right : List (Extent α)} (h : Adds hi lo e left (k ++ [x]))
    (h' : Adds hi lo x (k ++ right) l') : Adds hi lo e (left ++ right) l' := by
  refine ⟨h'.separated, fun j => ?_, fun w hw he => ?_⟩
  · have := h.covers j
    rw [covers_append, covers_cons, covers_nil, or_false] at this
    rw [h'.covers, covers_append, covers_append, or_right_comm, this, or_right_comm]
  · have hl := h.of w (fun y hy => hw y (List.mem_append_left _ hy)) he
    refine h'.of w (fun y hy => ?_) (hl x (by simp))
    rcases List.mem_append.mp hy with hy | hy
    · exact hl y (List.mem_append_left _ hy)
    · exact hw y (List.mem_append_right _ hy)

end Adds

/-! ## Counting covered positions -/

/-- The covered positions, as a finite set. -/
def coverSet (l : List (Extent α)) : Finset ℕ :=
  l.foldr (fun e s => Finset.Ico e.start e.stop ∪ s) ∅

@[simp] theorem mem_coverSet {l : List (Extent α)} {j : ℕ} : j ∈ coverSet l ↔ Covers l j := by
  induction l with
  | nil => simp [coverSet]
  | cons e l ih =>
    simp only [coverSet, List.foldr_cons, Finset.mem_union, Finset.mem_Ico, covers_cons] at ih ⊢
    rw [ih]

/-- **A separated list covers as many positions as it has letters.** -/
theorem Separated.card_coverSet {hi lo : ℕ} {l : List (Extent α)} (h : Separated hi lo l) :
    (coverSet l).card = totalLength l := by
  induction l generalizing lo with
  | nil => rfl
  | cons e l ih =>
    have hdisj : Disjoint (Finset.Ico e.start e.stop) (coverSet l) := by
      refine Finset.disjoint_left.mpr fun j hj hj' => ?_
      have := h.2.2.lt_of_covers (mem_coverSet.mp hj')
      have := (Finset.mem_Ico.mp hj).2
      omega
    have hcard := Finset.card_union_of_disjoint hdisj
    rw [Nat.card_Ico, ih h.2.2] at hcard
    rw [totalLength_cons]
    refine hcard.trans ?_
    simp only [stop]
    omega

/-- A set that is an initial stretch and the positions of a separated list beyond it. -/
theorem Separated.card_eq {hi lo : ℕ} {l : List (Extent α)} (h : Separated hi lo l) {s : Finset ℕ}
    (hs : ∀ j, j ∈ s ↔ j < lo ∨ Covers l j) : s.card = lo + totalLength l := by
  have hunion : s = Finset.range lo ∪ coverSet l := by
    ext j
    simp [hs]
  have hdisj : Disjoint (Finset.range lo) (coverSet l) := by
    refine Finset.disjoint_left.mpr fun j hj hj' => ?_
    have := h.lt_of_covers (mem_coverSet.mp hj')
    have := Finset.mem_range.mp hj
    omega
  rw [hunion, Finset.card_union_of_disjoint hdisj, Finset.card_range, h.card_coverSet]
