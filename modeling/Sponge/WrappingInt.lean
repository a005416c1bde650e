import Sponge.Lib.Word64

/-!
# WrappingInt — 32-bit sequence numbers and the absolute numbers behind them

`wrapping_integers.cc`.  An absolute sequence number is a `uint64_t` counting from zero; on the wire
it is the 32-bit number `wrap n isn`.  `unwrap` looks for the absolute number closest to a
checkpoint.  `unwrap_wrap` is what every use of the two relies on: a number strictly within `2 ^ 31`
of the checkpoint is recovered.  `unwrap_closest` says of any checkpoint what is found.
-/

open Word64

/-- A 32-bit number relative to an initial sequence number. -/
structure WrappingInt32 where
  rawValue : UInt32
  deriving DecidableEq, Repr

namespace WrappingInt32

/-- The point `b` steps past `a`. -/
def add (a : WrappingInt32) (b : UInt32) : WrappingInt32 := ⟨a.rawValue + b⟩

/-- The offset of `a` relative to `b`, as the `uint32_t` that `unwrap` casts it to. -/
def sub (a b : WrappingInt32) : UInt32 := a.rawValue - b.rawValue

end WrappingInt32

/-- The 32-bit number of an absolute one. -/
def wrap (n : ℕ) (isn : WrappingInt32) : WrappingInt32 := ⟨UInt32.ofNat (n + isn.rawValue.toNat)⟩

/-- The absolute number that wraps to `n` and is closest to `checkpoint`. -/
def unwrap (n isn : WrappingInt32) (checkpoint : ℕ) : ℕ :=
  let offset := (n.sub isn).toNat
  if checkpoint ≤ offset then offset
  else
    -- `checkpoint & 0xffffffff00000000` clears the low 32 bits
    let absolute := offset + checkpoint / 2 ^ 32 * 2 ^ 32
    if max checkpoint absolute - min checkpoint absolute ≤ 2 ^ 32 / 2 then absolute
    else if checkpoint ≤ absolute then
      if 2 ^ 32 ≤ absolute then absolute - 2 ^ 32 else absolute
    else add64 absolute (2 ^ 32)

/-- The offset of a wrapped number is the number modulo `2 ^ 32`. -/
theorem wrap_sub (n : ℕ) (isn : WrappingInt32) : ((wrap n isn).sub isn).toNat = n % 2 ^ 32 := by
  have hlt := isn.rawValue.toNat_lt
  rw [WrappingInt32.sub, wrap, UInt32.toNat_sub, UInt32.toNat_ofNat']
  omega

/-- The two numbers are strictly within `2 ^ 31` of each other. -/
def Near (v checkpoint : ℕ) : Prop := v < checkpoint + 2 ^ 31 ∧ checkpoint < v + 2 ^ 31

instance (v checkpoint : ℕ) : Decidable (Near v checkpoint) := inferInstanceAs (Decidable (_ ∧ _))

/-- **A number near the checkpoint is recovered.** -/
theorem unwrap_wrap {v checkpoint : ℕ} (isn : WrappingInt32) (hv : v < 2 ^ 64)
    (hnear : Near v checkpoint) : unwrap (wrap v isn) isn checkpoint = v := by
  obtain ⟨h₁, h₂⟩ := hnear
  simp only [unwrap, wrap_sub]
  have hdiv := Nat.div_add_mod checkpoint (2 ^ 32)
  have hvdiv := Nat.div_add_mod v (2 ^ 32)
  have hmod := Nat.mod_lt checkpoint (Nat.two_pow_pos 32)
  have hvmod := Nat.mod_lt v (Nat.two_pow_pos 32)
  generalize checkpoint / 2 ^ 32 = q at *
  generalize v / 2 ^ 32 = p at *
  generalize checkpoint % 2 ^ 32 = m at *
  generalize v % 2 ^ 32 = u at *
  split_ifs with h1 h2 h3 h4
  · omega
  · omega
  · omega
  · omega
  · rw [add64_eq (by omega)]
    omega

/-- The initial sequence number is number zero. -/
theorem wrap_zero (isn : WrappingInt32) : wrap 0 isn = isn := by
  simp [wrap]

/-! ## The closest number -/

/-- The numbers that wrap to `n` are those with its offset. -/
theorem wrap_eq_iff (m : ℕ) (n isn : WrappingInt32) :
    wrap m isn = n ↔ m % 2 ^ 32 = (n.sub isn).toNat := by
  obtain ⟨n⟩ := n
  have hn := n.toNat_lt
  have hisn := isn.rawValue.toNat_lt
  rw [wrap, WrappingInt32.mk.injEq, ← UInt32.toNat_inj, UInt32.toNat_ofNat', WrappingInt32.sub,
    UInt32.toNat_sub]
  simp only
  omega

/-- **Where `unwrap` lands**: on a number with the offset of `n`, at most half a period away from
the checkpoint, or on the first such number if all of them are past it. -/
theorem unwrap_lands (n isn : WrappingInt32) {checkpoint : ℕ} (h : checkpoint < 2 ^ 64 - 2 ^ 31) :
    unwrap n isn checkpoint < 2 ^ 64 ∧ unwrap n isn checkpoint % 2 ^ 32 = (n.sub isn).toNat ∧
      (unwrap n isn checkpoint ≤ checkpoint + 2 ^ 31 ∧
          checkpoint ≤ unwrap n isn checkpoint + 2 ^ 31 ∨
        checkpoint ≤ unwrap n isn checkpoint ∧ unwrap n isn checkpoint < 2 ^ 32) := by
  have hoffset := (n.sub isn).toNat_lt
  unfold unwrap
  generalize (n.sub isn).toNat = offset at *
  have hdiv := Nat.div_add_mod checkpoint (2 ^ 32)
  have hmod := Nat.mod_lt checkpoint (Nat.two_pow_pos 32)
  generalize checkpoint / 2 ^ 32 = q at *
  generalize checkpoint % 2 ^ 32 = m at *
  simp only
  split_ifs with hfirst hnear hpast hperiod
  · omega
  · omega
  · omega
  · -- an absolute number below `2 ^ 32` is the offset itself, and was past the checkpoint
    omega
  · rw [add64_eq (by omega)]
    omega

/-- **`unwrap` finds the closest number** that wraps to `n`, whatever the checkpoint, as long as a
period past it is still in 64 bits. -/
theorem unwrap_closest (n isn : WrappingInt32) {checkpoint : ℕ}
    (h : checkpoint < 2 ^ 64 - 2 ^ 31) :
    unwrap n isn checkpoint < 2 ^ 64 ∧ wrap (unwrap n isn checkpoint) isn = n ∧
      (∀ m < 2 ^ 64, wrap m isn = n →
        |(unwrap n isn checkpoint : ℤ) - checkpoint| ≤ |(m : ℤ) - checkpoint|) ∧
      ∀ v : ℕ, v < 2 ^ 64 → |(v : ℤ) - checkpoint| < 2 ^ 31 →
        unwrap (wrap v isn) isn checkpoint = v := by
  obtain ⟨hlt, hmod, hnear⟩ := unwrap_lands n isn h
  refine ⟨hlt, (wrap_eq_iff _ n isn).mpr hmod, fun m _ hm => ?_, fun v hv hdist => ?_⟩
  · rw [wrap_eq_iff, ← hmod] at hm
    generalize unwrap n isn checkpoint = r at *
    -- another number with the same offset is at least a period away
    have hapart : m = r ∨ m + 2 ^ 32 ≤ r ∨ r + 2 ^ 32 ≤ m := by omega
    have hright := le_abs_self ((m : ℤ) - checkpoint)
    have hleft := neg_le_abs ((m : ℤ) - checkpoint)
    exact abs_le.mpr ⟨by omega, by omega⟩
  · have hnear' := abs_lt.mp hdist
    exact unwrap_wrap isn hv ⟨by omega, by omega⟩

/-- The closest number may lie in the period before that of the checkpoint. -/
theorem unwrap_closest_before : unwrap ⟨2⟩ ⟨5⟩ (2 ^ 32) = 2 ^ 32 - 3 ∧
    ∀ m < 2 ^ 64, wrap m ⟨5⟩ = ⟨2⟩ →
      |(unwrap ⟨2⟩ ⟨5⟩ (2 ^ 32) : ℤ) - (2 ^ 32 : ℕ)| ≤ |(m : ℤ) - (2 ^ 32 : ℕ)| :=
  ⟨by decide, (unwrap_closest ⟨2⟩ ⟨5⟩ (by norm_num)).2.2.1⟩
