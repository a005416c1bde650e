import Mathlib.Tactic

/-!
# Lib/Pieces — removing a prefix from a string in pieces

A string is kept as a list of pieces, `contents` telling the letters of each.  `dropPieces` removes
letters from its front: it lets go of whole pieces, cuts the piece the prefix ends in, and fails if
the pieces run out.  On the string it is `List.drop`, however the string is cut into pieces
(`dropPieces_ok`), and it fails exactly if the string is too short (`dropPieces_short`).
-/

variable {π β ε : Type*}

/-- The lengths of the pieces add up to that of the string. -/
theorem foldl_add_length (contents : π → List β) (ps : List π) (acc : ℕ) :
    ps.foldl (fun ret p => ret + (contents p).length) acc =
      acc + (ps.flatMap contents).length := by
  induction ps generalizing acc with
  | nil => rfl
  | cons p ps ih =>
    rw [List.foldl_cons, ih, List.flatMap_cons, List.length_append, Nat.add_assoc]

/-- Remove `n` letters from the front; `cut` shortens a single piece. -/
def dropPieces (size : π → ℕ) (cut : π → ℕ → Except ε π) (short : ε) :
    List π → ℕ → Except ε (List π)
  | ps, 0 => .ok ps
  | [], _ + 1 => .error short
  | p :: ps, n + 1 =>
    if n + 1 < size p then (cut p (n + 1)).map (· :: ps)
    else dropPieces size cut short ps (n + 1 - size p)

section Spec

variable {contents : π → List β} {size : π → ℕ} {cut : π → ℕ → Except ε π} (short : ε)

theorem dropPieces_short (hsize : ∀ p, size p = (contents p).length) :
    ∀ {ps : List π} {n : ℕ}, (ps.flatMap contents).length < n →
      dropPieces size cut short ps n = .error short
  | [], n + 1, _ => by rw [dropPieces]
  | p :: ps, n + 1, h => by
      rw [List.flatMap_cons, List.length_append, ← hsize] at h
      rw [dropPieces, if_neg (by omega), dropPieces_short hsize (by omega)]

/-- **Removing a prefix drops it from the string**, if the string is that long. -/
theorem dropPieces_ok (hsize : ∀ p, size p = (contents p).length)
    (hcut : ∀ p n, n < size p → ∃ p', cut p n = .ok p' ∧ contents p' = (contents p).drop n) :
    ∀ {ps : List π} {n : ℕ}, n ≤ (ps.flatMap contents).length →
      ∃ ps', dropPieces size cut short ps n = .ok ps' ∧
        ps'.flatMap contents = (ps.flatMap contents).drop n
  | ps, 0, _ => ⟨ps, by rw [dropPieces], rfl⟩
  | p :: ps, n + 1, h => by
      rw [List.flatMap_cons, List.length_append, ← hsize] at h
      rw [dropPieces, List.flatMap_cons, List.drop_append, ← hsize]
      by_cases hin : n + 1 < size p
      · -- the prefix ends inside the first piece
        obtain ⟨p', hp', hcontents⟩ := hcut p (n + 1) hin
        refine ⟨p' :: ps, by rw [if_pos hin, hp']; rfl, ?_⟩
        rw [List.flatMap_cons, hcontents, Nat.sub_eq_zero_of_le hin.le, List.drop_zero]
      · have hrest : n + 1 - size p ≤ (ps.flatMap contents).length := by omega
        obtain ⟨ps', hps', hdrop⟩ := dropPieces_ok hsize hcut hrest
        have hgone : (contents p).drop (n + 1) = [] :=
          List.drop_of_length_le (by rw [← hsize]; omega)
        exact ⟨ps', by rw [if_neg hin, hps'], by rw [hdrop, hgone, List.nil_append]⟩

end Spec
