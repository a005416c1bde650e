import Sponge.Lib.OnesComplement
import Sponge.ByteStream

/-!
# Wire/Checksum — the Internet checksum

`util.cc`: `InternetChecksum` adds up 16-bit words in 32 bits, byte by byte, so that it may be given
its data in pieces.  Where the sum does not leave the 32 bits, it is the word sum of all the data
(`sum_add`), and a string that carries its own checksum verifies (`value_eq_zero_of_checksum`).
`checksum_of_chunks` puts this together for data that comes in any pieces.
-/

open Codec OnesComplement

structure InternetChecksum where
  sum : UInt32 := 0
  parity : Bool := false
  deriving DecidableEq, Repr

namespace InternetChecksum

variable {c : InternetChecksum}

/-- One turn of the loop of `add`. -/
def addByte (c : InternetChecksum) (b : UInt8) : InternetChecksum :=
  let val : UInt16 := b.toUInt16
  let val := if c.parity = false then val <<< 8 else val
  { sum := c.sum + val.toUInt32, parity := !c.parity }

def add (c : InternetChecksum) (data : Bytes) : InternetChecksum := data.foldl addByte c

/-- `value`; the loop needs two turns at most. -/
def value (c : InternetChecksum) : UInt16 := ~~~ UInt16.ofNat (foldCarries 2 c.sum.toNat)

theorem add_append (c : InternetChecksum) (data data' : Bytes) :
    (c.add data).add data' = c.add (data ++ data') := List.foldl_append.symm

/-- Data may be added in pieces. -/
theorem foldl_add (c : InternetChecksum) (chunks : List Bytes) :
    chunks.foldl add c = c.add chunks.flatten := List.foldl_flatten.symm

theorem sum_addByte (c : InternetChecksum) (b : UInt8) :
    (c.addByte b).sum.toNat = (c.sum.toNat + wordSum c.parity [b]) % 2 ^ 32 := by
  have hb := b.toNat_lt
  cases hp : c.parity with
  | false =>
    simp only [addByte, hp, if_true, UInt32.toNat_add, UInt16.toNat_toUInt32,
      UInt16.toNat_shiftLeft, UInt8.toNat_toUInt16, wordSum]
    simp [Nat.shiftLeft_eq]
    omega
  | true => simp [addByte, hp, wordSum]

/-- **The sum is that of the words**, modulo the 32 bits, in whatever pieces they come. -/
theorem sum_add (c : InternetChecksum) (data : Bytes) :
    (c.add data).sum.toNat = (c.sum.toNat + wordSum c.parity data) % 2 ^ 32 := by
  induction data generalizing c with
  | nil =>
    have hlt := c.sum.toNat_lt
    cases hp : c.parity <;> simp only [add, List.foldl_nil, wordSum] <;> omega
  | cons b data ih =>
    have hstep := c.sum_addByte b
    have hrest := ih (c.addByte b)
    have hword := wordSum_append c.parity [b] data
    have hlow : lowAfter c.parity [b] = (c.addByte b).parity := by simp [lowAfter, addByte]
    rw [hlow, List.singleton_append] at hword
    rw [add, List.foldl_cons, ← add, hrest, hstep, hword]
    omega

theorem toNat_value (c : InternetChecksum) :
    c.value.toNat = 0xffff - foldCarries 2 c.sum.toNat := by
  have hle := foldCarries_le c.sum.toNat_lt
  rw [value, UInt16.toNat_not, UInt16.toNat_ofNat', Nat.mod_eq_of_lt (by omega)]
  rfl

/-! ## The loop of `value` -/

/-- One turn of the loop. -/
def foldTurn (ret : UInt32) : UInt32 := (ret >>> 16) + (ret &&& 0xffff)

/-- A turn does not leave the 32 bits. -/
theorem toNat_foldTurn (ret : UInt32) : (foldTurn ret).toNat = addCarry ret.toNat := by
  have hlt := ret.toNat_lt
  have heq := fold_eq ret.toNat
  have hturn : (foldTurn ret).toNat = addCarry ret.toNat % 2 ^ 32 := by
    rw [foldTurn, UInt32.toNat_add, UInt32.toNat_shiftRight, UInt32.toNat_and]
    rfl
  rw [hturn, addCarry, heq]
  omega

/-- **The loop ends after at most two turns**, and `value()` is the complement of what it leaves. -/
theorem value_loop (c : InternetChecksum) :
    ∃ k ≤ 2, (∀ j < k, 0xffff < foldTurn^[j] c.sum) ∧ foldTurn^[k] c.sum ≤ 0xffff ∧
      c.value = (~~~ foldTurn^[k] c.sum).toUInt16 := by
  have hiter : ∀ j, (foldTurn^[j] c.sum).toNat = addCarry^[j] c.sum.toNat := fun j =>
    (show Function.Semiconj UInt32.toNat foldTurn addCarry from toNat_foldTurn).iterate_right j _
  obtain ⟨k, hk, hrounds, heq⟩ := foldCarries_eq_iterate 2 c.sum.toNat
  have hle := foldCarries_le c.sum.toNat_lt
  rw [heq, ← hiter] at hle
  refine ⟨k, hk, fun j hj => ?_, UInt32.le_iff_toNat_le.mpr hle, ?_⟩
  · rw [UInt32.lt_iff_toNat_lt, hiter]
    exact hrounds j hj
  · rw [value, heq, ← hiter, UInt32.toUInt16_not]
    rfl

/-- `value()` is zero exactly if the folded sum is all ones. -/
theorem value_eq_zero_iff (c : InternetChecksum) :
    c.value = 0 ↔ foldCarries 2 c.sum.toNat = 0xffff := by
  have hle := foldCarries_le c.sum.toNat_lt
  rw [← UInt16.toNat_inj, toNat_value, UInt16.toNat_zero]
  omega

/-- **`value()` is zero exactly on what verifies**, where the sum stays within 32 bits. -/
theorem value_eq_zero_iff_verifies {initial : UInt32} {data : Bytes}
    (h : initial.toNat + 65280 * data.length < 2 ^ 32) :
    (({ sum := initial } : InternetChecksum).add data).value = 0 ↔
      Verifies initial.toNat data := by
  have hle := wordSum_le false data
  rw [value_eq_zero_iff, sum_add]
  simp only
  rw [Nat.mod_eq_of_lt (by omega)]
  exact foldCarries_eq_iff (by omega)

/-- **A string with its checksum in a word of its own verifies**: the checksum being taken over the
same string with that word zero, and the sum staying within 32 bits. -/
theorem value_eq_zero_of_checksum {initial : UInt32} {before after : Bytes} {cksum : UInt16}
    (heven : Even before.length)
    (hcksum : (({ sum := initial } : InternetChecksum).add
      (before ++ (bigEndian 2 0 ++ after))).value = cksum)
    (hsum : initial.toNat + wordSum false (before ++ (bigEndian 2 cksum.toNat ++ after)) < 2 ^ 32) :
    (({ sum := initial } : InternetChecksum).add
      (before ++ (bigEndian 2 cksum.toNat ++ after))).value = 0 := by
  have hwords := wordSum_word heven cksum.toNat_lt after
  have hzero := sum_add { sum := initial } (before ++ (bigEndian 2 0 ++ after))
  simp only at hzero
  rw [Nat.mod_eq_of_lt (by omega)] at hzero
  have hvalue := toNat_value (({ sum := initial } : InternetChecksum).add
    (before ++ (bigEndian 2 0 ++ after)))
  rw [hzero, hcksum] at hvalue
  rw [hwords, ← Nat.add_assoc, hvalue] at hsum
  rw [value_eq_zero_iff, sum_add, hwords, hvalue, ← Nat.add_assoc]
  simp only
  rw [Nat.mod_eq_of_lt hsum]
  exact foldCarries_complement hsum

/-- The same for a string that is written from its checksum, with the bound in terms of its size. -/
theorem value_eq_zero_of_split {initial : UInt32} {b : UInt16 → Bytes}
    (hsplit : ∃ before after : Bytes, Even before.length ∧
      ∀ cksum : UInt16, b cksum = before ++ (bigEndian 2 cksum.toNat ++ after))
    (hsize : initial.toNat + 65280 * (b 0).length + 0xffff < 2 ^ 32) :
    (({ sum := initial } : InternetChecksum).add (b
      (({ sum := initial } : InternetChecksum).add (b 0)).value)).value = 0 := by
  obtain ⟨before, after, heven, hbytes⟩ := hsplit
  have hle := wordSum_le false (b 0)
  have hzero := hbytes 0
  rw [UInt16.toNat_zero] at hzero
  rw [hbytes, hzero]
  rw [hzero] at hle hsize
  refine value_eq_zero_of_checksum heven rfl ?_
  have hlt := UInt16.toNat_lt (({ sum := initial } : InternetChecksum).add
    (before ++ (bigEndian 2 0 ++ after))).value
  rw [wordSum_word heven hlt after]
  omega

/-- **The checksum is that of the whole string**, in whatever pieces it comes, as long as the sum of
its words stays within 32 bits.  The loop of `value()` ends, `value()` is zero exactly on the
positive multiples of `2 ^ 16 - 1`, and a string verifies once `value()` is stored in a word of it
that was zero. -/
theorem checksum_of_chunks (initial : UInt32) (chunks : List Bytes)
    (h : initial.toNat + (words chunks.flatten).sum < 2 ^ 32) :
    let c := chunks.foldl add { sum := initial }
    c.value = (({ sum := initial } : InternetChecksum).add chunks.flatten).value ∧
    (∃ k ≤ 2, (∀ j < k, 0xffff < foldTurn^[j] c.sum) ∧ foldTurn^[k] c.sum ≤ 0xffff ∧
      c.value = (~~~ foldTurn^[k] c.sum).toUInt16) ∧
    (c.value = 0 ↔ 0 < initial.toNat + (words chunks.flatten).sum ∧
      65535 ∣ initial.toNat + (words chunks.flatten).sum) ∧
    ∀ before after : Bytes, Even before.length → chunks.flatten = before ++ [0, 0] ++ after →
      ∀ stored : List Bytes, stored.flatten = before ++ bigEndian 2 c.value.toNat ++ after →
        initial.toNat + (words stored.flatten).sum < 2 ^ 32 →
        (stored.foldl add { sum := initial }).value = 0 := by
  intro c
  have hc : c = add { sum := initial } chunks.flatten := foldl_add _ _
  have hsum : c.sum.toNat = initial.toNat + (words chunks.flatten).sum := by
    rw [hc, sum_add, wordSum_eq_sum_words, Nat.mod_eq_of_lt h]
  refine ⟨by rw [hc], c.value_loop, ?_, fun before after heven hflat stored hstored hlt => ?_⟩
  · rw [value_eq_zero_iff, hsum, foldCarries_eq_iff h, Nat.dvd_iff_mod_eq_zero]
  · rw [← wordSum_eq_sum_words, hstored, List.append_assoc] at hlt
    rw [foldl_add, hstored, List.append_assoc]
    refine value_eq_zero_of_checksum heven ?_ hlt
    rw [hc, hflat, List.append_assoc]
    rfl

/-- Words split over the pieces and an odd byte at the end; the second word is the checksum. -/
theorem checksum_of_chunks_odd :
    (([[0x12], [0x34, 0, 0], [0xff]] : List Bytes).foldl add { sum := 1 }).value = 0xeec9 ∧
    (([[0x12, 0x34], [0xee, 0xc9, 0xff]] : List Bytes).foldl add { sum := 1 }).value = 0 := by
  have hvalue : (([[0x12], [0x34, 0, 0], [0xff]] : List Bytes).foldl add { sum := 1 }).value =
      0xeec9 := by decide
  refine ⟨hvalue, ?_⟩
  refine (checksum_of_chunks 1 [[0x12], [0x34, 0, 0], [0xff]] (by decide)).2.2.2 [0x12, 0x34] [0xff]
    (by decide) rfl _ ?_ (by decide)
  rw [hvalue]
  decide

end InternetChecksum
