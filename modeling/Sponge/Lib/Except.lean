import Mathlib.Tactic

/-!
# Lib/Except — taking computations that may throw apart

A computation that returns went through every step of it (`bind_eq_ok_iff`); one that throws did so
in the first step, or in the rest on what the first step returned (`bind_eq_error_iff`).  For a loop
over a list these are rules with an invariant, which also sees what the loop has still to go through
(`foldlM_ok`, `foldlM_error`).
-/

namespace Except

variable {ε α β : Type} {x : Except ε α} {b : β} {e : ε}

@[simp] theorem ok_bind (a : α) (f : α → Except ε β) : (Except.ok a >>= f) = f a := rfl

@[simp] theorem error_bind (e : ε) (f : α → Except ε β) :
    (Except.error e >>= f) = .error e := rfl

/-- A mapped computation returns what the function makes of a result. -/
theorem map_eq_ok_iff {f : α → β} : x.map f = .ok b ↔ ∃ a, x = .ok a ∧ f a = b := by
  cases x <;> simp [Except.map]

/-- A computation without its exceptions. -/
theorem toOption_eq_some_iff {a : α} : x.toOption = some a ↔ x = .ok a := by
  cases x <;> simp [Except.toOption]

/-- **A computation that returns** went through both of its parts. -/
theorem bind_eq_ok_iff {f : α → Except ε β} :
    (x >>= f) = .ok b ↔ ∃ a, x = .ok a ∧ f a = .ok b := by
  cases x <;> simp [bind, Except.bind]

/-- **A computation that throws** did so in the first part, or in the second. -/
theorem bind_eq_error_iff {f : α → Except ε β} :
    (x >>= f) = .error e ↔ x = .error e ∨ ∃ a, x = .ok a ∧ f a = .error e := by
  cases x <;> simp [bind, Except.bind]

/-- A check that may end a computation does not make it throw. -/
theorem exists_ok_ite {c : Prop} [Decidable c] {a : α} (h : ∃ r, x = .ok r) :
    ∃ r, (if c then .ok a else x) = .ok r := by
  split
  · exact ⟨a, rfl⟩
  · exact h

section Loop

variable {f : β → α → Except ε β} {I : List α → β → Prop}

/-- **What every turn keeps holds at the end** of a loop that returns. -/
theorem foldlM_ok (keep : ∀ a l b b', I (a :: l) b → f b a = .ok b' → I l b') :
    ∀ {l : List α} {b b' : β}, I l b → l.foldlM f b = .ok b' → I [] b'
  | [], b, b', hI, h => by
    obtain rfl := Except.ok.inj h
    exact hI
  | a :: l, b, b', hI, h => by
    rw [List.foldlM_cons] at h
    obtain ⟨b₁, hturn, h⟩ := bind_eq_ok_iff.mp h
    exact foldlM_ok keep (keep a l b b₁ hI hturn) h

/-- **What a loop throws** is thrown by a turn of it. -/
theorem foldlM_error (keep : ∀ a l b b', I (a :: l) b → f b a = .ok b' → I l b') :
    ∀ {l : List α} {b : β}, I l b → l.foldlM f b = .error e →
      ∃ a l' b', I (a :: l') b' ∧ f b' a = .error e
  | [], b, hI, h => by cases h
  | a :: l, b, hI, h => by
    rw [List.foldlM_cons] at h
    obtain hturn | ⟨b₁, hturn, h⟩ := bind_eq_error_iff.mp h
    · exact ⟨a, l, b, hI, hturn⟩
    · exact foldlM_error keep (keep a l b b₁ hI hturn) h

end Loop

end Except
