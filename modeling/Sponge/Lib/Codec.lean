import Mathlib.Data.Nat.Bitwise
import Mathlib.Tactic

/-!
# Lib/Codec — reading back what was written

A reader is a program over a state that holds what is still to be read.  `view` tells what that is,
and is `none` once the reader has failed.  `Yields view x bs a` says that wherever `bs` comes next,
`x` takes exactly `bs` and returns `a`.  Readers compose as the stretches they take do, so a record
written field by field is read back field by field (`Yields.bind`).  `Returns x P` is a bound on
what `x` can return at all.

For strings that nobody wrote, `Reads` says what is read at which position, and `Takes` how much is
taken, whether or not it is there.  Where a writer can write every string of its length (`Writes`),
the string is one that was written after all.

`bigEndian k n` are the lowest `k` bytes of `n`, the most significant first, and `field bs i k` is
the number in the `k` bytes of `bs` from position `i` on.
-/

namespace Codec

/-! ## Readers -/

section Readers

variable {σ α γ β : Type} {view : σ → Option (List β)} {x : StateM σ α} {f : α → StateM σ γ}
  {bs bs' : List β} {a : α} {c : γ}

variable (view) in
/-- **`x` reads `bs` as `a`**, whatever comes after it. -/
def Yields (x : StateM σ α) (bs : List β) (a : α) : Prop :=
  ∀ s rest, view s = some (bs ++ rest) → ∃ s', x.run s = (a, s') ∧ view s' = some rest

theorem Yields.pure (a : α) : Yields view (pure a) [] a := fun s _ h => ⟨s, rfl, h⟩

/-- **One reader after the other reads one stretch after the other.** -/
theorem Yields.bind (hx : Yields view x bs a) (hf : Yields view (f a) bs' c) :
    Yields view (x >>= f) (bs ++ bs') c := by
  intro s rest h
  rw [List.append_assoc] at h
  obtain ⟨s₁, hrun, h₁⟩ := hx s _ h
  obtain ⟨s₂, hrun₂, h₂⟩ := hf s₁ rest h₁
  refine ⟨s₂, ?_, h₂⟩
  rw [StateT.run_bind, hrun]
  exact hrun₂

/-- The last reader of a record, with what is made of it. -/
theorem Yields.map {g : α → γ} (hx : Yields view x bs a) :
    Yields view (do let a ← x; return g a) bs (g a) := by
  have h := hx.bind (f := fun a => Pure.pure (g a)) (.pure (g a))
  rwa [List.append_nil] at h

variable {i j k l : ℕ}

variable (view) in
/-- **From position `i` of `bs` on, `x` reads `a` and gets to position `j`.** -/
def Reads (bs : List β) (i : ℕ) (x : StateM σ α) (a : α) (j : ℕ) : Prop :=
  ∀ s, view s = some (bs.drop i) → ∃ s', x.run s = (a, s') ∧ view s' = some (bs.drop j)

theorem Reads.bind (hx : Reads view bs i x a j) (hf : Reads view bs j (f a) c l) :
    Reads view bs i (x >>= f) c l := by
  intro s h
  obtain ⟨s₁, hrun, h₁⟩ := hx s h
  obtain ⟨s₂, hrun₂, h₂⟩ := hf s₁ h₁
  refine ⟨s₂, ?_, h₂⟩
  rw [StateT.run_bind, hrun]
  exact hrun₂

theorem Reads.map {g : α → γ} (hx : Reads view bs i x a j) :
    Reads view bs i (do let a ← x; return g a) (g a) j :=
  hx.bind (f := fun a => Pure.pure (g a)) fun s h => ⟨s, rfl, h⟩

variable (view) in
/-- **`x` takes `k` symbols, or fails** if there are fewer; what has failed stays so. -/
def Takes (x : StateM σ α) (k : ℕ) : Prop :=
  ∀ s, view (x.run s).2 = (view s).bind fun bs => if k ≤ bs.length then some (bs.drop k) else none

theorem Takes.bind (hx : Takes view x k) (hf : ∀ a, Takes view (f a) l) :
    Takes view (x >>= f) (k + l) := by
  intro s
  rw [StateT.run_bind]
  refine (hf _ _).trans ?_
  rw [hx s]
  cases view s with
  | none => rfl
  | some bs =>
    simp only [Option.bind_some]
    by_cases hk : k ≤ bs.length
    · rw [if_pos hk, Option.bind_some, List.length_drop, List.drop_drop]
      exact if_congr (by omega) rfl rfl
    · rw [if_neg hk, if_neg (by omega), Option.bind_none]

/-- The last reader of a record, with what is made of it. -/
theorem Takes.map {g : α → γ} (hx : Takes view x k) :
    Takes view (do let a ← x; return g a) k := by
  refine hx.bind (f := fun a => Pure.pure (g a)) (l := 0) fun a s => ?_
  rw [StateT.run_pure]
  cases view s <;> simp

/-- **`w` writes every string of length `k`.** -/
def Writes (w : α → List β) (k : ℕ) : Prop := ∀ bs, bs.length = k → ∃ a, w a = bs

theorem Writes.append {w : α → List β} {w' : γ → List β} (h : Writes w k) (h' : Writes w' l) :
    Writes (fun a : α × γ => w a.1 ++ w' a.2) (k + l) := by
  intro bs hlen
  obtain ⟨a, ha⟩ := h (bs.take k) (by rw [List.length_take]; omega)
  obtain ⟨c, hc⟩ := h' (bs.drop k) (by rw [List.length_drop]; omega)
  refine ⟨(a, c), ?_⟩
  simp only [ha, hc, List.take_append_drop]

/-- Whatever it finds, `x` returns a value with `P`. -/
def Returns (x : StateM σ α) (P : α → Prop) : Prop := ∀ s, P (x.run s).1

theorem Returns.pure {P : α → Prop} (h : P a) : Returns (σ := σ) (pure a) P := fun _ => h

theorem Returns.bind {P : α → Prop} {Q : γ → Prop} (hx : Returns x P)
    (hf : ∀ a, P a → Returns (f a) Q) : Returns (x >>= f) Q :=
  fun s => hf (x.run s).1 (hx s) (x.run s).2

/-- What is read before does not matter. -/
theorem Returns.after {Q : γ → Prop} (hf : ∀ a, Returns (f a) Q) : Returns (x >>= f) Q :=
  fun s => hf (x.run s).1 (x.run s).2

end Readers

/-! ## Big-endian numbers -/

/-- The lowest `k` bytes of `n`, the most significant first. -/
def bigEndian : ℕ → ℕ → List UInt8
  | 0, _ => []
  | k + 1, n => UInt8.ofNat (n >>> (8 * k)) :: bigEndian k n

/-- The number whose bytes these are, the most significant first. -/
def ofBigEndian (bs : List UInt8) : ℕ := bs.foldl (fun n b => (n <<< 8) + b.toNat) 0

@[simp] theorem length_bigEndian (k n : ℕ) : (bigEndian k n).length = k := by
  induction k with
  | zero => rfl
  | succ k ih => rw [bigEndian, List.length_cons, ih]

@[simp] theorem bigEndian_one (b : UInt8) : bigEndian 1 b.toNat = [b] := by
  simp [bigEndian]

theorem shiftRight_bytes (n k : ℕ) : n >>> (8 * k) = n / 256 ^ k := by
  rw [Nat.shiftRight_eq_div_pow, pow_mul]
  norm_num

theorem foldl_bigEndian (k n acc : ℕ) :
    (bigEndian k n).foldl (fun n b => (n <<< 8) + b.toNat) acc = acc * 256 ^ k + n % 256 ^ k := by
  induction k generalizing acc with
  | zero => simp [bigEndian, Nat.mod_one]
  | succ k ih =>
    -- the byte on top is the digit of `256 ^ k`
    have hbyte : (UInt8.ofNat (n >>> (8 * k))).toNat = n / 256 ^ k % 256 := by
      rw [UInt8.toNat_ofNat', shiftRight_bytes]
    have hsplit : n % 256 ^ (k + 1) = n / 256 ^ k % 256 * 256 ^ k + n % 256 ^ k := by
      rw [pow_succ, Nat.mod_mul, Nat.mul_comm, Nat.add_comm]
    rw [bigEndian, List.foldl_cons, ih, hbyte, hsplit, Nat.shiftLeft_eq, pow_succ]
    ring

/-- **A number that fits is read back.** -/
theorem ofBigEndian_bigEndian {k n : ℕ} (h : n < 256 ^ k) : ofBigEndian (bigEndian k n) = n := by
  rw [ofBigEndian, foldl_bigEndian, Nat.zero_mul, Nat.zero_add, Nat.mod_eq_of_lt h]

/-- Numbers that fit are the same if they are written the same. -/
theorem bigEndian_append_inj {k n m : ℕ} (hn : n < 256 ^ k) (hm : m < 256 ^ k)
    {bs bs' : List UInt8} :
    bigEndian k n ++ bs = bigEndian k m ++ bs' ↔ n = m ∧ bs = bs' := by
  constructor
  · intro h
    obtain ⟨hnum, hrest⟩ := List.append_inj h (by simp)
    exact ⟨by rw [← ofBigEndian_bigEndian hn, hnum, ofBigEndian_bigEndian hm], hrest⟩
  · rintro ⟨rfl, rfl⟩
    rfl

theorem foldl_eq (bs : List UInt8) (acc : ℕ) :
    bs.foldl (fun n b => (n <<< 8) + b.toNat) acc = acc * 256 ^ bs.length + ofBigEndian bs := by
  induction bs generalizing acc with
  | nil => simp [ofBigEndian]
  | cons b bs ih =>
    rw [ofBigEndian, List.foldl_cons, List.foldl_cons, ih, ih, Nat.zero_shiftLeft,
      Nat.shiftLeft_eq, List.length_cons, pow_succ]
    ring

/-- Only the lowest bytes are written. -/
theorem bigEndian_mul_add (k a n : ℕ) : bigEndian k (a * 256 ^ k + n) = bigEndian k n := by
  induction k generalizing a with
  | zero => rfl
  | succ k ih =>
    have hsplit : a * 256 ^ (k + 1) + n = a * 256 * 256 ^ k + n := by ring
    have htop : UInt8.ofNat ((a * 256 * 256 ^ k + n) >>> (8 * k)) = .ofNat (n >>> (8 * k)) := by
      rw [← UInt8.toNat_inj, UInt8.toNat_ofNat', UInt8.toNat_ofNat', shiftRight_bytes,
        shiftRight_bytes, Nat.mul_comm, Nat.mul_add_div (by positivity)]
      omega
    rw [hsplit, bigEndian, bigEndian, htop, ih]

theorem foldl_lt (bs : List UInt8) (acc : ℕ) :
    bs.foldl (fun n b => (n <<< 8) + b.toNat) acc < (acc + 1) * 256 ^ bs.length := by
  induction bs generalizing acc with
  | nil => simp
  | cons b bs ih =>
    have hb := b.toNat_lt
    calc bs.foldl (fun n b => (n <<< 8) + b.toNat) ((acc <<< 8) + b.toNat)
        < ((acc <<< 8) + b.toNat + 1) * 256 ^ bs.length := ih _
      _ ≤ ((acc + 1) * 256) * 256 ^ bs.length :=
          Nat.mul_le_mul_right _ (by rw [Nat.shiftLeft_eq]; omega)
      _ = (acc + 1) * 256 ^ (bs.length + 1) := by ring

theorem ofBigEndian_lt (bs : List UInt8) : ofBigEndian bs < 256 ^ bs.length := by
  have hlt := foldl_lt bs 0
  rwa [Nat.zero_add, Nat.one_mul] at hlt

/-- **Bytes are written back** from the number they are. -/
theorem bigEndian_ofBigEndian (bs : List UInt8) : bigEndian bs.length (ofBigEndian bs) = bs := by
  induction bs with
  | nil => rfl
  | cons b bs ih =>
    have hvalue : ofBigEndian (b :: bs) = b.toNat * 256 ^ bs.length + ofBigEndian bs := by
      rw [ofBigEndian, List.foldl_cons, foldl_eq, Nat.zero_shiftLeft, Nat.zero_add]
    have htop : (b.toNat * 256 ^ bs.length + ofBigEndian bs) >>> (8 * bs.length) = b.toNat := by
      rw [shiftRight_bytes, Nat.mul_comm, Nat.mul_add_div (by positivity),
        Nat.div_eq_of_lt (ofBigEndian_lt bs), Nat.add_zero]
    rw [List.length_cons, bigEndian, hvalue, bigEndian_mul_add, ih, htop, UInt8.ofNat_toNat]

/-- Numbers of `k` bytes write every string of length `k`. -/
theorem writes_bigEndian {α : Type} {f : α → ℕ} {k : ℕ} (hf : ∀ n < 256 ^ k, ∃ a, f a = n) :
    Writes (fun a => bigEndian k (f a)) k := by
  intro bs hlen
  obtain ⟨a, ha⟩ := hf (ofBigEndian bs) (hlen ▸ ofBigEndian_lt bs)
  refine ⟨a, ?_⟩
  simp only [ha, ← hlen, bigEndian_ofBigEndian]

/-- The number in the `k` bytes from position `i` on. -/
def field (bs : List UInt8) (i k : ℕ) : ℕ := ofBigEndian ((bs.drop i).take k)

theorem field_lt (bs : List UInt8) (i k : ℕ) : field bs i k < 256 ^ k := by
  have hlen : ((bs.drop i).take k).length ≤ k := List.length_take_le ..
  exact (ofBigEndian_lt _).trans_le (Nat.pow_le_pow_right (by norm_num) hlen)

/-! ## Bits of a byte -/

/-- The halves of a byte. -/
theorem byte_nibbles {n : ℕ} (h : n < 256) :
    (UInt8.ofNat n >>> 4).toNat = n / 16 ∧ (UInt8.ofNat n &&& 0x0f).toNat = n % 16 := by
  have hn : (UInt8.ofNat n).toNat = n := by rw [UInt8.toNat_ofNat', Nat.mod_eq_of_lt h]
  constructor
  · rw [UInt8.toNat_shiftRight, hn, Nat.shiftRight_eq_div_pow]
    rfl
  · rw [UInt8.toNat_and, hn, show (0x0f : UInt8).toNat = 2 ^ 4 - 1 from rfl,
      Nat.and_two_pow_sub_one_eq_mod]

/-- A mask of one bit tests it. -/
theorem byte_testBit {n k : ℕ} (h : n < 256) (hk : k < 8) :
    (UInt8.ofNat n &&& UInt8.ofNat (2 ^ k) != 0) = n.testBit k := by
  have hpow : 2 ^ k < 256 := Nat.pow_lt_pow_right (by norm_num) hk
  have hand : (UInt8.ofNat n &&& UInt8.ofNat (2 ^ k)).toNat = (n.testBit k).toNat * 2 ^ k := by
    rw [UInt8.toNat_and, UInt8.toNat_ofNat', UInt8.toNat_ofNat', Nat.mod_eq_of_lt h,
      Nat.mod_eq_of_lt hpow, Nat.and_two_pow]
  rw [Bool.eq_iff_iff, bne_iff_ne, Ne, ← UInt8.toNat_inj, hand]
  cases n.testBit k <;> simp

end Codec
