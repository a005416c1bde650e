import Mathlib.Tactic

/-!
# Lib/Tiling — pieces laid end to end along the naturals

Pieces of positive length `len` are laid one after another: `Tiles len at' p l q` says that the
pieces of `l`, in order, fill `[p, q)` without gap or overlap, each satisfying `at'` at the position
it gets.  A stretch of naturals is thereby cut up, and every number in it lies in exactly the piece
that the tiling names (`Tiles.exists_mem_place`).

`place` computes the positions.
-/

variable {α : Type*}

/-- **The pieces of `l` fill `[p, q)`**, each at the place `at'` allows. -/
def Tiles (len : α → ℕ) (at' : ℕ → α → Prop) : ℕ → List α → ℕ → Prop
  | p, [], q => p = q
  | p, a :: l, q => at' p a ∧ 0 < len a ∧ Tiles len at' (p + len a) l q

/-- The pieces with the positions they get when laid from `p` on. -/
def place (len : α → ℕ) : ℕ → List α → List (ℕ × α)
  | _, [] => []
  | p, a :: l => (p, a) :: place len (p + len a) l

namespace Tiles

variable {len : α → ℕ} {at' at'' : ℕ → α → Prop} {p q r : ℕ} {a : α} {l l' : List α}

theorem nil (p : ℕ) : Tiles len at' p [] p := rfl

theorem le (h : Tiles len at' p l q) : p ≤ q := by
  induction l generalizing p with
  | nil => exact Nat.le_of_eq h
  | cons a l ih =>
    have := ih h.2.2
    omega

/-- An empty tiling fills nothing, and only an empty one does. -/
theorem eq_nil_iff (h : Tiles len at' p l q) : l = [] ↔ p = q := by
  cases l with
  | nil => exact ⟨fun _ => h, fun _ => rfl⟩
  | cons a l =>
    have := h.2.1
    have := Tiles.le h.2.2
    simp only [List.cons_ne_nil, false_iff]
    omega

/-- **Two tilings meet at exactly one point.** -/
theorem append_iff : Tiles len at' p (l ++ l') r ↔
    ∃ q, Tiles len at' p l q ∧ Tiles len at' q l' r := by
  induction l generalizing p with
  | nil => simp [Tiles]
  | cons a l ih =>
    simp only [List.cons_append, Tiles, ih]
    constructor
    · rintro ⟨ha, hpos, q, hl, hl'⟩
      exact ⟨q, ⟨ha, hpos, hl⟩, hl'⟩
    · rintro ⟨q, ⟨ha, hpos, hl⟩, hl'⟩
      exact ⟨ha, hpos, q, hl, hl'⟩

theorem imp (h : Tiles len at' p l q) (himp : ∀ s a, p ≤ s → s + len a ≤ q → at' s a → at'' s a) :
    Tiles len at'' p l q := by
  induction l generalizing p with
  | nil => exact h
  | cons a l ih =>
    obtain ⟨ha, hpos, hl⟩ := h
    exact ⟨himp p a le_rfl hl.le ha, hpos,
      ih hl fun s b hs hq hb => himp s b (by omega) hq hb⟩

/-- Two things said of the pieces of one tiling. -/
theorem and (h : Tiles len at' p l q) (h' : Tiles len at'' p l q) :
    Tiles len (fun s a => at' s a ∧ at'' s a) p l q := by
  induction l generalizing p with
  | nil => exact h
  | cons a l ih => exact ⟨⟨h.1, h'.1⟩, h.2.1, ih h.2.2 h'.2.2⟩

/-- Every piece has its place in the stretch. -/
theorem exists_at (h : Tiles len at' p l q) (ha : a ∈ l) :
    ∃ s, 0 < len a ∧ s + len a ≤ q ∧ at' s a := by
  induction l generalizing p with
  | nil => cases ha
  | cons b l ih =>
    obtain ⟨hb, hpos, hl⟩ := h
    rcases List.mem_cons.mp ha with rfl | ha
    · exact ⟨p, hpos, hl.le, hb⟩
    · exact ih hl ha

/-- The pieces at their places. -/
theorem of_mem_place (h : Tiles len at' p l q) {x : ℕ × α} (hx : x ∈ place len p l) :
    x.2 ∈ l ∧ p ≤ x.1 ∧ x.1 + len x.2 ≤ q ∧ 0 < len x.2 ∧ at' x.1 x.2 := by
  induction l generalizing p with
  | nil => cases hx
  | cons b l ih =>
    obtain ⟨hb, hpos, hl⟩ := h
    rcases List.mem_cons.mp hx with rfl | hx
    · exact ⟨List.mem_cons_self, le_rfl, hl.le, hpos, hb⟩
    · obtain ⟨hmem, hs, hrest⟩ := ih hl hx
      exact ⟨List.mem_cons_of_mem _ hmem, by omega, hrest⟩

/-- **Every number of the stretch lies in one of the pieces.** -/
theorem exists_mem_place (h : Tiles len at' p l q) {x : ℕ} (hp : p ≤ x) (hq : x < q) :
    ∃ y ∈ place len p l, y.1 ≤ x ∧ x < y.1 + len y.2 := by
  induction l generalizing p with
  | nil =>
    obtain rfl : p = q := h
    omega
  | cons b l ih =>
    by_cases hx : x < p + len b
    · exact ⟨(p, b), List.mem_cons_self, hp, hx⟩
    · obtain ⟨y, hy, hcov⟩ := ih h.2.2 (by omega)
      exact ⟨y, List.mem_cons_of_mem _ hy, hcov⟩

/-- A tiling is as long as its pieces. -/
theorem add_sum (h : Tiles len at' p l q) : p + (l.map len).sum = q := by
  induction l generalizing p with
  | nil => exact h
  | cons a l ih =>
    rw [List.map_cons, List.sum_cons, ← ih h.2.2]
    omega

/-- Every piece ends after the first one does, or with it. -/
theorem end_le_of_mem_place (h : Tiles len at' p l q) {x : ℕ × α} (hx : x ∈ place len p l)
    {b : α} (hb : b ∈ l.head?) : p + len b ≤ x.1 + len x.2 := by
  cases l with
  | nil => cases hx
  | cons c l =>
    obtain rfl : c = b := Option.some.inj hb
    rcases List.mem_cons.mp hx with rfl | hx
    · exact le_rfl
    · have := (h.2.2.of_mem_place hx).2.1
      omega

/-- **Two pieces that end at the same place are one.** -/
theorem eq_of_end_eq (h : Tiles len at' p l q) {x y : ℕ × α} (hx : x ∈ place len p l)
    (hy : y ∈ place len p l) (hend : x.1 + len x.2 = y.1 + len y.2) : x = y := by
  induction l generalizing p with
  | nil => cases hx
  | cons b l ih =>
    obtain ⟨-, -, hl⟩ := h
    rcases List.mem_cons.mp hx with rfl | hx <;> rcases List.mem_cons.mp hy with rfl | hy
    · rfl
    · obtain ⟨-, hle, -, hpos, -⟩ := hl.of_mem_place hy
      exact absurd hend (by simp only; omega)
    · obtain ⟨-, hle, -, hpos, -⟩ := hl.of_mem_place hx
      exact absurd hend (by simp only; omega)
    · exact ih hl hx hy

/-- **Dropping the pieces that end by `x` leaves the piece `x` lies in at the front.**  `done` is
how the pieces are tested; it has to agree with the positions of the tiling. -/
theorem dropWhile (h : Tiles len at' p l q) {x : ℕ} (hp : p ≤ x) (done : α → Bool)
    (hdone : ∀ s a, p ≤ s → s + len a ≤ q → at' s a → (done a = true ↔ s + len a ≤ x)) :
    ∃ p', p' ≤ x ∧ Tiles len at' p (l.takeWhile done) p' ∧
      Tiles len at' p' (l.dropWhile done) q ∧
      ∀ a ∈ (l.dropWhile done).head?, x < p' + len a := by
  induction l generalizing p with
  | nil => exact ⟨p, hp, .nil p, h, by simp⟩
  | cons b l ih =>
    obtain ⟨hb, hpos, hl⟩ := h
    have hiff := hdone p b le_rfl hl.le hb
    by_cases hx : p + len b ≤ x
    · rw [List.dropWhile_cons_of_pos (hiff.mpr hx), List.takeWhile_cons_of_pos (hiff.mpr hx)]
      obtain ⟨p', hp', htake, hrest⟩ := ih hl hx fun s a hs => hdone s a (by omega)
      exact ⟨p', hp', ⟨hb, hpos, htake⟩, hrest⟩
    · have hneg : ¬ done b = true := fun hd => hx (hiff.mp hd)
      rw [List.dropWhile_cons_of_neg hneg, List.takeWhile_cons_of_neg hneg]
      refine ⟨p, hp, .nil p, ⟨hb, hpos, hl⟩, ?_⟩
      rintro a ⟨⟩
      omega

end Tiles

theorem exists_place_of_mem {len : α → ℕ} {p : ℕ} {l : List α} {a : α} (h : a ∈ l) :
    ∃ s, (s, a) ∈ place len p l := by
  induction l generalizing p with
  | nil => cases h
  | cons b l ih =>
    rcases List.mem_cons.mp h with rfl | h
    · exact ⟨p, List.mem_cons_self⟩
    · obtain ⟨s, hs⟩ := ih (p := p + len b) h
      exact ⟨s, List.mem_cons_of_mem _ hs⟩

theorem place_append {len : α → ℕ} (p : ℕ) (l l' : List α) :
    place len p (l ++ l') = place len p l ++ place len (p + (l.map len).sum) l' := by
  induction l generalizing p with
  | nil => rfl
  | cons a l ih => simp [place, ih, Nat.add_assoc]

/-- A piece keeps its place when more are laid. -/
theorem mem_place_of_prefix {len : α → ℕ} {p : ℕ} {l l' : List α} {x : ℕ × α} (h : l <+: l')
    (hx : x ∈ place len p l) : x ∈ place len p l' := by
  obtain ⟨more, rfl⟩ := h
  rw [place_append]
  exact List.mem_append_left _ hx

/-- **The pieces that end after `x`** are those from the one that `x` lies in on. -/
theorem Tiles.filter_place {len : α → ℕ} {at' : ℕ → α → Prop} {p q : ℕ} {l l' : List α} {x : ℕ}
    (h : Tiles len at' 0 l p) (h' : Tiles len at' p l' q) (hp : p ≤ x)
    (hfront : ∀ a ∈ l'.head?, x < p + len a) :
    (place len 0 (l ++ l')).filter (fun y => decide (x < y.1 + len y.2)) = place len p l' := by
  have hsum : 0 + (l.map len).sum = p := h.add_sum
  rw [place_append, hsum, List.filter_append, List.filter_eq_nil_iff.mpr, List.nil_append,
    List.filter_eq_self]
  · intro y hy
    cases hl' : l'.head? with
    | none =>
      rw [List.head?_eq_none_iff] at hl'
      subst hl'
      cases hy
    | some b =>
      have := h'.end_le_of_mem_place hy hl'
      have := hfront b hl'
      exact decide_eq_true (by omega)
  · intro y hy
    have := (h.of_mem_place hy).2.2.1
    simp only [decide_eq_true_eq]
    omega
