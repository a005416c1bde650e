import Sponge.Lib.Codec
import Sponge.Wire.Buffer

/-!
# Wire/Parser — integers in network byte order

`parser.hh`, `parser.cc`.  A `NetParser` takes integers from the front of a buffer; once one of them
is not there, the error stays and nothing more is taken.  A parse is a program over the parser as
state.  A parser without error is at the bytes of its buffer (`NetParser.view`), and in the sense of
`Codec.Yields` the readers `u8`, `u16` and `u32` read what `NetUnparser` writes.
-/

open Codec

/-- `enum class ParseResult`. -/
inductive ParseResult
  | noError | badChecksum | packetTooShort | wrongIPVersion | headerTooShort | truncatedPacket
  | unsupported
  deriving DecidableEq, Repr

/-- A buffer, and the first error met in it. -/
structure NetParser where
  buffer : Buffer
  error : ParseResult := .noError
  deriving DecidableEq, Repr

namespace NetParser

/-- `_check_size`. -/
def checkSize (p : NetParser) (size : ℕ) : NetParser :=
  if p.buffer.size < size then { p with error := .packetTooShort } else p

/-- What passes the check is there, and may be removed without an exception. -/
theorem le_size_of_checkSize {p : NetParser} {size : ℕ}
    (h : (p.checkSize size).error = .noError) : size ≤ p.buffer.size := by
  by_contra hlt
  rw [checkSize, if_pos (Nat.not_le.mp hlt)] at h
  cases h

/-- `_parse_int` for an integer of `len` bytes. -/
def parseInt (len : ℕ) : StateM NetParser ℕ := fun p =>
  if h : (p.checkSize len).error = .noError then
    (ofBigEndian (p.buffer.str.take len),
      { p with buffer := p.buffer.removePrefix len (le_size_of_checkSize h) })
  else (0, p.checkSize len)

/-- An integer of four bytes. -/
def u32 : StateM NetParser UInt32 := do return .ofNat (← parseInt 4)

def u16 : StateM NetParser UInt16 := do return .ofNat (← parseInt 2)

def u8 : StateM NetParser UInt8 := do return .ofNat (← parseInt 1)

/-- `remove_prefix`. -/
def removePrefix (n : ℕ) : StateM NetParser Unit := fun p =>
  if h : (p.checkSize n).error = .noError then
    ((), { p with buffer := p.buffer.removePrefix n (le_size_of_checkSize h) })
  else ((), p.checkSize n)

end NetParser

namespace NetUnparser

/-- `_unparse_int` for an integer of `len` bytes. -/
def unparseInt (s : Bytes) (len val : ℕ) : Bytes := s ++ bigEndian len val

def u32 (s : Bytes) (val : UInt32) : Bytes := unparseInt s 4 val.toNat

def u16 (s : Bytes) (val : UInt16) : Bytes := unparseInt s 2 val.toNat

def u8 (s : Bytes) (val : UInt8) : Bytes := unparseInt s 1 val.toNat

end NetUnparser

/-- `std::string::resize`: cut, or filled up with zeros. -/
def resize (s : Bytes) (n : ℕ) : Bytes := s.take n ++ List.replicate (n - s.length) 0

/-- A string that is not cut. -/
theorem resize_of_le {s : Bytes} {n : ℕ} (h : s.length ≤ n) :
    resize s n = s ++ List.replicate (n - s.length) 0 := by
  rw [resize, List.take_of_length_le h]

/-! ## What the parser reads -/

namespace NetParser

variable {p : NetParser} {bs : Bytes}

/-- What a parser without error has before it. -/
def view (p : NetParser) : Option Bytes := if p.error = .noError then some p.buffer.str else none

/-- A parser at `bs`. -/
theorem view_eq_some : p.view = some bs ↔ p.error = .noError ∧ p.buffer.str = bs := by
  unfold view
  split_ifs with h <;> simp [h]

/-- The check is passed without an error, old or new. -/
theorem checkSize_error_iff {n : ℕ} :
    (p.checkSize n).error = .noError ↔ p.error = .noError ∧ n ≤ p.buffer.size := by
  unfold checkSize
  split_ifs with h
  · simp [Nat.not_le.mpr h]
  · simp [Nat.not_lt.mp h]

/-- A check that is passed changes nothing. -/
theorem checkSize_of_ok {n : ℕ} (h : (p.checkSize n).error = .noError) : p.checkSize n = p :=
  if_neg (Nat.not_lt.mpr (le_size_of_checkSize h))

section Run

variable {n : ℕ}

/-- `_parse_int` where the check is passed. -/
theorem run_parseInt_of_ok (h : (p.checkSize n).error = .noError) :
    (parseInt n).run p = (ofBigEndian (p.buffer.str.take n),
      { p with buffer := p.buffer.removePrefix n (le_size_of_checkSize h) }) := dif_pos h

/-- `_parse_int` where it is not. -/
theorem run_parseInt_of_error (h : ¬ (p.checkSize n).error = .noError) :
    (parseInt n).run p = (0, p.checkSize n) := dif_neg h

theorem run_removePrefix_of_ok (h : (p.checkSize n).error = .noError) :
    (removePrefix n).run p =
      ((), { p with buffer := p.buffer.removePrefix n (le_size_of_checkSize h) }) := dif_pos h

theorem run_removePrefix_of_error (h : ¬ (p.checkSize n).error = .noError) :
    (removePrefix n).run p = ((), p.checkSize n) := dif_neg h

end Run

/-- What is there passes the check. -/
theorem checkSize_of_view {n : ℕ} (hview : p.view = some bs) (hle : n ≤ bs.length) :
    (p.checkSize n).error = .noError := by
  obtain ⟨hok, hstr⟩ := view_eq_some.mp hview
  exact checkSize_error_iff.mpr ⟨hok, by rwa [Buffer.size_eq, hstr]⟩

/-- A step that fails the check leaves a parser with an error. -/
theorem view_checkSize {n : ℕ} (h : ¬ (p.checkSize n).error = .noError) :
    (p.checkSize n).view = none ∧
      (p.view.bind fun bs => if n ≤ bs.length then some (bs.drop n) else none) = none := by
  refine ⟨if_neg h, ?_⟩
  cases hview : p.view with
  | none => rfl
  | some bs =>
    rw [Option.bind_some, if_neg fun hle => h (checkSize_of_view hview hle)]

/-- A step that passes the check leaves the rest. -/
theorem view_removePrefix {n : ℕ} (h : (p.checkSize n).error = .noError) :
    view { p with buffer := p.buffer.removePrefix n (le_size_of_checkSize h) } =
      p.view.bind fun bs => if n ≤ bs.length then some (bs.drop n) else none := by
  obtain ⟨hok, hle⟩ := checkSize_error_iff.mp h
  rw [Buffer.size_eq] at hle
  rw [view_eq_some.mpr ⟨hok, rfl⟩, Option.bind_some, if_pos hle]
  exact view_eq_some.mpr ⟨hok, p.buffer.str_removePrefix n hle⟩

/-- `remove_prefix` takes its bytes, or leaves an error. -/
theorem takes_removePrefix (n : ℕ) : Takes view (removePrefix n) n := by
  intro p
  by_cases h : (p.checkSize n).error = .noError
  · rw [run_removePrefix_of_ok h]
    exact view_removePrefix h
  · rw [run_removePrefix_of_error h, (view_checkSize h).1, (view_checkSize h).2]

/-- So does `_parse_int`, whatever it reads. -/
theorem takes_parseInt (len : ℕ) : Takes view (parseInt len) len := by
  intro p
  by_cases h : (p.checkSize len).error = .noError
  · rw [run_parseInt_of_ok h]
    exact view_removePrefix h
  · rw [run_parseInt_of_error h, (view_checkSize h).1, (view_checkSize h).2]

/-- **`_parse_int` on what is there.** -/
theorem parseInt_run (len : ℕ) (hview : p.view = some bs) (hle : len ≤ bs.length) :
    ∃ p', (parseInt len).run p = (ofBigEndian (bs.take len), p') ∧
      p'.view = some (bs.drop len) := by
  have hcheck := checkSize_of_view hview hle
  refine ⟨_, (view_eq_some.mp hview).2 ▸ dif_pos hcheck, (view_removePrefix hcheck).trans ?_⟩
  rw [hview, Option.bind_some, if_pos hle]

/-- **`remove_prefix` takes what it is told to.** -/
theorem yields_removePrefix (bs : Bytes) : Yields view (removePrefix bs.length) bs () := by
  intro p rest hview
  refine ⟨_, rfl, (takes_removePrefix bs.length p).trans ?_⟩
  rw [hview, Option.bind_some, if_pos (by simp), List.drop_left]

/-- **`_parse_int` reads what `_unparse_int` writes.** -/
theorem yields_parseInt (len : ℕ) {n : ℕ} (h : n < 256 ^ len) :
    Yields view (parseInt len) (bigEndian len n) n := by
  intro p rest hview
  obtain ⟨p', hrun, hview'⟩ := parseInt_run len hview (by simp)
  rw [List.take_left' (length_bigEndian len n), ofBigEndian_bigEndian h] at hrun
  rw [List.drop_left' (length_bigEndian len n)] at hview'
  exact ⟨p', hrun, hview'⟩

/-- **`_parse_int` reads the field at its position.** -/
theorem reads_parseInt {i len : ℕ} (h : i + len ≤ bs.length) :
    Reads view bs i (parseInt len) (field bs i len) (i + len) := by
  intro p hview
  obtain ⟨p', hrun, hview'⟩ := parseInt_run len hview (by rw [List.length_drop]; omega)
  rw [List.drop_drop] at hview'
  exact ⟨p', hrun, hview'⟩

/-- An integer of four bytes, at its position. -/
theorem reads_u32 {i : ℕ} (h : i + 4 ≤ bs.length) :
    Reads view bs i u32 (.ofNat (field bs i 4)) (i + 4) := (reads_parseInt h).map

theorem reads_u16 {i : ℕ} (h : i + 2 ≤ bs.length) :
    Reads view bs i u16 (.ofNat (field bs i 2)) (i + 2) := (reads_parseInt h).map

theorem reads_u8 {i : ℕ} (h : i + 1 ≤ bs.length) :
    Reads view bs i u8 (.ofNat (field bs i 1)) (i + 1) := (reads_parseInt h).map

/-- An integer of four bytes. -/
theorem takes_u32 : Takes view u32 4 := (takes_parseInt 4).map

theorem takes_u16 : Takes view u16 2 := (takes_parseInt 2).map

theorem takes_u8 : Takes view u8 1 := (takes_parseInt 1).map

/-- **An integer of four bytes is read as it is written.** -/
theorem yields_u32 (v : UInt32) : Yields view u32 (bigEndian 4 v.toNat) v := by
  have h := (yields_parseInt 4 v.toNat_lt).map (g := UInt32.ofNat)
  rwa [UInt32.ofNat_toNat] at h

/-- **An integer of two bytes is read as it is written.** -/
theorem yields_u16 (v : UInt16) : Yields view u16 (bigEndian 2 v.toNat) v := by
  have h := (yields_parseInt 2 v.toNat_lt).map (g := UInt16.ofNat)
  rwa [UInt16.ofNat_toNat] at h

theorem yields_u8 (v : UInt8) : Yields view u8 (bigEndian 1 v.toNat) v := by
  have h := (yields_parseInt 1 v.toNat_lt).map (g := UInt8.ofNat)
  rwa [UInt8.ofNat_toNat] at h

/-- Any four bytes are those of an integer. -/
theorem writes_u32 : Writes (fun v : UInt32 => bigEndian 4 v.toNat) 4 :=
  writes_bigEndian fun n hn => ⟨.ofNat n, UInt32.toNat_ofNat_of_lt' hn⟩

theorem writes_u16 : Writes (fun v : UInt16 => bigEndian 2 v.toNat) 2 :=
  writes_bigEndian fun n hn => ⟨.ofNat n, UInt16.toNat_ofNat_of_lt' hn⟩

theorem writes_u8 : Writes (fun v : UInt8 => bigEndian 1 v.toNat) 1 :=
  writes_bigEndian fun n hn => ⟨.ofNat n, UInt8.toNat_ofNat_of_lt' hn⟩

/-- A single byte is read as it is. -/
theorem yields_byte (b : UInt8) : Yields view u8 [b] b := by
  have h := yields_u8 b
  rwa [bigEndian_one] at h

/-! ### Parses that look at the parser itself -/

section Look

variable {α : Type} {x y : StateM NetParser α} {a : α}

/-- A check of the length that fails. -/
theorem run_of_short {n : ℕ} (hlen : p.buffer.str.length < n) :
    (do if (← get).buffer.size < n then y else x : StateM NetParser α).run p = y.run p := by
  rw [StateT.run_bind]
  exact congrArg (fun z => StateT.run z p) (if_pos hlen)

/-- A length that is there passes a length check. -/
theorem run_unless_short {n : ℕ} {rest : Bytes} (hx : Yields view x bs a)
    (hview : p.view = some (bs ++ rest)) (hlen : n ≤ (bs ++ rest).length) :
    ∃ p', (do if (← get).buffer.size < n then y else x : StateM NetParser α).run p = (a, p') ∧
      p'.view = some rest := by
  have hsize : ¬ p.buffer.size < n := by
    rw [Buffer.size_eq, (view_eq_some.mp hview).2]
    exact Nat.not_lt.mpr hlen
  obtain ⟨p', hrun, hview'⟩ := hx p rest hview
  refine ⟨p', ?_, hview'⟩
  rw [← hrun, StateT.run_bind]
  exact congrArg (fun z => StateT.run z p) (if_neg hsize)

/-- A check of the length that is passed, in a parse. -/
theorem yields_unless_short {n : ℕ} (hlen : n ≤ bs.length) (hx : Yields view x bs a) :
    Yields view (do if (← get).buffer.size < n then y else x) bs a :=
  fun _ _ hview => run_unless_short hx hview (by rw [List.length_append]; omega)

/-- A parse that ends with the error of its parser ends without one. -/
theorem yields_getError (g : ParseResult → α) :
    Yields view (do return g (← get).error) [] (g .noError) := by
  intro p rest hview
  refine ⟨p, ?_, hview⟩
  rw [← (view_eq_some.mp hview).1]
  rfl

end Look

end NetParser
