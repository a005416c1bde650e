import Mathlib.Tactic

/-!
# Lib/Word64 — unsigned 64-bit arithmetic on naturals

A `uint64_t` is kept as the natural it denotes; sums and differences are reduced modulo `2 ^ 64`
where they can leave the range.  Each operation has one lemma for the case in which nothing wraps,
and callers rewrite with it as soon as they know the bound.
-/

namespace Word64

/-- Addition of two `uint64_t`. -/
def add64 (a b : ℕ) : ℕ := (a + b) % 2 ^ 64

/-- Subtraction of two `uint64_t`: a negative difference comes back from the top of the range. -/
def sub64 (a b : ℕ) : ℕ := (a + 2 ^ 64 - b % 2 ^ 64) % 2 ^ 64

theorem add64_lt (a b : ℕ) : add64 a b < 2 ^ 64 := Nat.mod_lt _ (Nat.two_pow_pos 64)

/-- **A sum below `2 ^ 64` does not wrap.** -/
theorem add64_eq {a b : ℕ} (h : a + b < 2 ^ 64) : add64 a b = a + b := Nat.mod_eq_of_lt h

/-- A sum that leaves the range comes back below either summand. -/
theorem add64_of_ge {a b : ℕ} (ha : a < 2 ^ 64) (hb : b < 2 ^ 64) (h : 2 ^ 64 ≤ a + b) :
    add64 a b = a + b - 2 ^ 64 := by
  unfold add64
  omega

/-- **A non-negative difference does not wrap.** -/
theorem sub64_eq {a b : ℕ} (hba : b ≤ a) (h : a - b < 2 ^ 64) : sub64 a b = a - b := by
  unfold sub64
  omega

/-- The difference of two reduced numbers is that of the numbers, reduced. -/
theorem sub64_mod {a b : ℕ} (hba : b ≤ a) :
    sub64 (a % 2 ^ 64) (b % 2 ^ 64) = (a - b) % 2 ^ 64 := by
  unfold sub64
  omega

theorem sub64_eq_zero_iff {a b : ℕ} (hba : b ≤ a) (h : a - b < 2 ^ 64) :
    sub64 a b = 0 ↔ a = b := by
  rw [sub64_eq hba h]
  omega

theorem sub64_self (a : ℕ) : sub64 a a = 0 := by
  unfold sub64
  omega

/-- Differences can be taken in steps, wrapping or not. -/
theorem sub64_sub64_add (w n k b : ℕ) :
    sub64 w (sub64 (n + k) b) = sub64 (sub64 w (sub64 n b)) k := by
  unfold sub64
  omega

end Word64
