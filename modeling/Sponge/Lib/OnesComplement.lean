import Sponge.Lib.Codec

/-!
# Lib/OnesComplement — sums of 16-bit words with the carries added back

`wordSum` adds up the big-endian 16-bit words of a byte string.  Adding the carries of a sum back in
does not change it modulo `2 ^ 16 - 1`, and leaves zero only of zero; two rounds bring 32 bits down
to 16 (`foldCarries_le`).  So a string with the complement of its folded sum added to it has a
folded sum of all ones (`foldCarries_complement`), and no longer has one if a single byte of it is
changed (`DiffersOnce.not_verifies`).
-/

namespace OnesComplement

/-! ## Word sums -/

/-- The sum of the big-endian words, a last odd byte being the upper half of one; `low` if the first
byte is the lower half of a word begun before. -/
def wordSum : Bool → List UInt8 → ℕ
  | _, [] => 0
  | false, b :: bs => b.toNat * 256 + wordSum true bs
  | true, b :: bs => b.toNat + wordSum false bs

/-- The big-endian words of a string, a last odd byte padded with zero. -/
def words : List UInt8 → List ℕ
  | [] => []
  | [b] => [b.toNat * 256]
  | b :: b' :: bs => (b.toNat * 256 + b'.toNat) :: words bs

theorem wordSum_eq_sum_words : ∀ bs : List UInt8, wordSum false bs = (words bs).sum
  | [] => rfl
  | [_] => rfl
  | b :: b' :: bs => by
      rw [wordSum, wordSum, words, List.sum_cons, wordSum_eq_sum_words bs, Nat.add_assoc]

/-- Whether the byte after `bs` is the lower half of a word. -/
def lowAfter (low : Bool) (bs : List UInt8) : Bool := low ^^ bs.length.bodd

theorem wordSum_append (low : Bool) (bs bs' : List UInt8) :
    wordSum low (bs ++ bs') = wordSum low bs + wordSum (lowAfter low bs) bs' := by
  induction bs generalizing low with
  | nil => cases low <;> simp [wordSum, lowAfter]
  | cons b bs ih =>
    have hlow : lowAfter (!low) bs = lowAfter low (b :: bs) := by
      cases low <;> simp [lowAfter]
    cases low with
    | false =>
      rw [List.cons_append, wordSum, wordSum, ih, ← hlow, Nat.add_assoc]
      rfl
    | true =>
      rw [List.cons_append, wordSum, wordSum, ih, ← hlow, Nat.add_assoc]
      rfl

/-- Strings of whole words add up. -/
theorem wordSum_append_of_even {bs : List UInt8} (h : Even bs.length) (bs' : List UInt8) :
    wordSum false (bs ++ bs') = wordSum false bs + wordSum false bs' := by
  obtain ⟨k, hk⟩ := h
  rw [wordSum_append, lowAfter, hk, Nat.bodd_add, Bool.xor_self, Bool.xor_false]

theorem wordSum_bigEndian {n : ℕ} (h : n < 2 ^ 16) : wordSum false (Codec.bigEndian 2 n) = n := by
  simp only [Codec.bigEndian, wordSum, UInt8.toNat_ofNat', Nat.shiftRight_eq_div_pow]
  omega

/-- A word of its own counts as the number it is. -/
theorem wordSum_word {before : List UInt8} (heven : Even before.length) {n : ℕ} (hn : n < 2 ^ 16)
    (after : List UInt8) : wordSum false (before ++ (Codec.bigEndian 2 n ++ after)) =
      wordSum false (before ++ (Codec.bigEndian 2 0 ++ after)) + n := by
  have htwo : ∀ n, Even (Codec.bigEndian 2 n).length := fun n => by simp
  rw [wordSum_append_of_even heven, wordSum_append_of_even heven,
    wordSum_append_of_even (htwo n), wordSum_append_of_even (htwo 0), wordSum_bigEndian hn,
    wordSum_bigEndian (by norm_num)]
  omega

theorem wordSum_le (low : Bool) (bs : List UInt8) : wordSum low bs ≤ 65280 * bs.length := by
  induction bs generalizing low with
  | nil => simp [wordSum]
  | cons b bs ih =>
    have hb := b.toNat_lt
    have hrest := ih (!low)
    cases low <;> simp only [wordSum, List.length_cons, Bool.not_true, Bool.not_false] at * <;>
      omega

/-! ## Carries -/

/-- Add the carries back in, as long as there are any and at most `fuel` times. -/
def foldCarries : ℕ → ℕ → ℕ
  | 0, sum => sum
  | fuel + 1, sum =>
    if 0xffff < sum then foldCarries fuel ((sum >>> 16) + (sum &&& 0xffff)) else sum

/-- One addition of the carries. -/
def addCarry (sum : ℕ) : ℕ := (sum >>> 16) + (sum &&& 0xffff)

/-- Adding carries ends after some rounds, all made because there was one. -/
theorem foldCarries_eq_iterate (fuel sum : ℕ) :
    ∃ k ≤ fuel, (∀ j < k, 0xffff < addCarry^[j] sum) ∧ foldCarries fuel sum = addCarry^[k] sum := by
  induction fuel generalizing sum with
  | zero => exact ⟨0, le_rfl, nofun, rfl⟩
  | succ fuel ih =>
    rw [foldCarries]
    split_ifs with hcarry
    · obtain ⟨k, hk, hrounds, heq⟩ := ih (addCarry sum)
      refine ⟨k + 1, by omega, fun j hj => ?_, heq⟩
      cases j with
      | zero => exact hcarry
      | succ j => exact hrounds j (by omega)
    · exact ⟨0, Nat.zero_le _, nofun, rfl⟩

theorem fold_eq (sum : ℕ) : (sum >>> 16) + (sum &&& 0xffff) = sum / 65536 + sum % 65536 := by
  rw [Nat.shiftRight_eq_div_pow, show (0xffff : ℕ) = 2 ^ 16 - 1 from rfl,
    Nat.and_two_pow_sub_one_eq_mod]

/-- **Two rounds are enough**: no carry is left of a 32-bit sum. -/
theorem foldCarries_le {sum : ℕ} (h : sum < 2 ^ 32) : foldCarries 2 sum ≤ 0xffff := by
  simp only [foldCarries, fold_eq]
  split_ifs <;> omega

theorem foldCarries_mod (fuel sum : ℕ) : foldCarries fuel sum % 65535 = sum % 65535 := by
  induction fuel generalizing sum with
  | zero => rfl
  | succ fuel ih =>
    rw [foldCarries, fold_eq]
    split_ifs
    · rw [ih]
      omega
    · rfl

theorem foldCarries_eq_zero_iff (fuel sum : ℕ) : foldCarries fuel sum = 0 ↔ sum = 0 := by
  induction fuel generalizing sum with
  | zero => rfl
  | succ fuel ih =>
    rw [foldCarries, fold_eq]
    split_ifs
    · rw [ih]
      omega
    · rfl

/-- **All ones are left of exactly the positive multiples** of `2 ^ 16 - 1`. -/
theorem foldCarries_eq_iff {sum : ℕ} (h : sum < 2 ^ 32) :
    foldCarries 2 sum = 0xffff ↔ 0 < sum ∧ sum % 65535 = 0 := by
  have hle := foldCarries_le h
  have hmod := foldCarries_mod 2 sum
  have hzero := foldCarries_eq_zero_iff 2 sum
  omega

/-- **A string verifies** on top of `seed` if the sum with the carries added back is all ones. -/
def Verifies (seed : ℕ) (bs : List UInt8) : Prop :=
  0 < seed + wordSum false bs ∧ (seed + wordSum false bs) % 65535 = 0

instance (seed : ℕ) (bs : List UInt8) : Decidable (Verifies seed bs) :=
  inferInstanceAs (Decidable (_ ∧ _))

/-- **The complement makes a sum verify.** -/
theorem foldCarries_complement {sum : ℕ} (h : sum + (0xffff - foldCarries 2 sum) < 2 ^ 32) :
    foldCarries 2 (sum + (0xffff - foldCarries 2 sum)) = 0xffff := by
  have hle : foldCarries 2 sum ≤ 0xffff := foldCarries_le (by omega)
  have hmod := foldCarries_mod 2 sum
  have hzero := foldCarries_eq_zero_iff 2 sum
  rw [foldCarries_eq_iff h]
  omega

/-! ## One byte changed -/

/-- The strings have the same length and differ in exactly one position. -/
def DiffersOnce (bs bs' : List UInt8) : Prop :=
  bs'.length = bs.length ∧ ∃! i : ℕ, bs'[i]? ≠ bs[i]?

theorem DiffersOnce.split {bs bs' : List UInt8} (h : DiffersOnce bs bs') :
    ∃ before after b b', b ≠ b' ∧ bs = before ++ b :: after ∧ bs' = before ++ b' :: after := by
  obtain ⟨hlen, i, hi, hunique⟩ := h
  have hsame : ∀ j, j ≠ i → bs'[j]? = bs[j]? := by
    intro j hj
    by_contra hne
    exact hj (hunique j hne)
  have hlt : i < bs.length := by
    by_contra hge
    refine hi ?_
    rw [List.getElem?_eq_none (by omega), List.getElem?_eq_none (by omega)]
  refine ⟨bs.take i, bs.drop (i + 1), bs[i], bs'[i], fun heq => hi ?_, ?_, ?_⟩
  · rw [List.getElem?_eq_getElem (by omega), List.getElem?_eq_getElem hlt, heq]
  · rw [← List.drop_eq_getElem_cons, List.take_append_drop]
  · have htake : bs.take i = bs'.take i := by
      refine List.ext_getElem? fun j => ?_
      rw [List.getElem?_take, List.getElem?_take]
      split_ifs with hj
      · exact (hsame j (by omega)).symm
      · rfl
    have hdrop : bs.drop (i + 1) = bs'.drop (i + 1) := by
      refine List.ext_getElem? fun j => ?_
      rw [List.getElem?_drop, List.getElem?_drop]
      exact (hsame _ (by omega)).symm
    rw [htake, hdrop, ← List.drop_eq_getElem_cons, List.take_append_drop]

/-- **No change of a single byte goes unnoticed**: it moves the sum by less than `2 ^ 16 - 1`. -/
theorem DiffersOnce.not_verifies {seed : ℕ} {bs bs' : List UInt8} (h : DiffersOnce bs bs')
    (hv : Verifies seed bs) : ¬ Verifies seed bs' := by
  obtain ⟨before, after, b, b', hne, rfl, rfl⟩ := h.split
  have hne : b.toNat ≠ b'.toNat := mt UInt8.toNat_inj.mp hne
  have hb := b.toNat_lt
  have hb' := b'.toNat_lt
  simp only [Verifies, wordSum_append] at hv ⊢
  -- the byte is the upper or the lower half of its word
  generalize lowAfter false before = low at hv ⊢
  cases low with
  | false =>
    simp only [wordSum] at hv ⊢
    omega
  | true =>
    simp only [wordSum] at hv ⊢
    omega

end OnesComplement
