import Sponge.Wire.Parser

/-!
# Wire/ParserCalls — runs of calls on a parser

`Buffer::at` and `Buffer::remove_prefix` throw `out_of_range` past the end of their buffer.
`Wire/Parser` leaves that out, as `_check_size` is called before them.  Here `_parse_int` is taken
byte by byte and with the exceptions, and it does the same (`Call.run_eq`): no call ever throws.

* What was written field by field is read back field by field (`reads_fields`).
* A call that asks for more than is left gets stuck, and so does every call after it: nothing more
  is read or consumed (`runCalls_of_short`).
-/

open Codec

/-- `at(n)`, which throws past the end. -/
def Buffer.byteAt (b : Buffer) (n : ℕ) : Except Exn UInt8 :=
  match b.str[n]? with
  | some byte => .ok byte
  | none => .error (.outOfRange "basic_string_view::at")

theorem Buffer.byteAt_of_lt {b : Buffer} {n : ℕ} (h : n < b.str.length) :
    b.byteAt n = .ok b.str[n] := by
  rw [byteAt, List.getElem?_eq_getElem h]

namespace NetParser

/-! ## The calls, with exceptions -/

/-- One turn of the loop of `_parse_int`, in an integer type of `len` bytes. -/
def parseByte (b : Buffer) (len ret i : ℕ) : Except Exn ℕ := do
  let byte ← b.byteAt i
  return ((ret <<< 8) + byte.toNat) % 256 ^ len

def parseLoop (b : Buffer) (len : ℕ) : Except Exn ℕ := (List.range len).foldlM (parseByte b len) 0

/-- `_parse_int` with the exceptions of what it calls. -/
def tryParseInt (len : ℕ) (p : NetParser) : Except Exn (ℕ × NetParser) :=
  let p := p.checkSize len
  if p.error = .noError then do
    let ret ← parseLoop p.buffer len
    let buffer ← p.buffer.tryRemovePrefix len
    return (ret, { p with buffer := buffer })
  else return (0, p)

/-- `remove_prefix` with the exception of what it calls. -/
def tryRemovePrefix (n : ℕ) (p : NetParser) : Except Exn NetParser :=
  let p := p.checkSize n
  if p.error = .noError then do
    let buffer ← p.buffer.tryRemovePrefix n
    return { p with buffer := buffer }
  else return p

/-- A call on a parser. -/
inductive Call
  | u8 | u16 | u32
  | removePrefix (n : ℕ)
  deriving DecidableEq, Repr

namespace Call

/-- The number of bytes a call asks for. -/
def asks : Call → ℕ
  | u8 => 1
  | u16 => 2
  | u32 => 4
  | removePrefix n => n

/-- A call as the code makes it, with the integer it returns. -/
def run : Call → NetParser → Except Exn (Option ℕ × NetParser)
  | removePrefix n, p => (tryRemovePrefix n p).map fun p => (none, p)
  | c, p => (tryParseInt c.asks p).map fun r => (some r.1, r.2)

/-- The same call where exceptions are left out. -/
def read : Call → StateM NetParser (Option ℕ)
  | u8 => do return some (← NetParser.u8).toNat
  | u16 => do return some (← NetParser.u16).toNat
  | u32 => do return some (← NetParser.u32).toNat
  | removePrefix n => do NetParser.removePrefix n; return none

end Call

/-- A sequence of calls, with all that they return. -/
def runCalls : List Call → NetParser → Except Exn (List (Option ℕ) × NetParser)
  | [], p => return ([], p)
  | c :: cs, p => do
    let (v, p) ← c.run p
    let (vs, p) ← runCalls cs p
    return (v :: vs, p)

def readCalls : List Call → StateM NetParser (List (Option ℕ))
  | [] => return []
  | c :: cs => do
    let v ← c.read
    let vs ← readCalls cs
    return v :: vs

/-! ## No call throws -/

variable {p : NetParser} {len n : ℕ}

theorem parseByte_of_lt {b : Buffer} (len ret : ℕ) {i : ℕ} (h : i < b.str.length) :
    parseByte b len ret i = .ok (((ret <<< 8) + b.str[i].toNat) % 256 ^ len) := by
  rw [parseByte, Buffer.byteAt_of_lt h]
  rfl

theorem parseLoop_eq {b : Buffer} (h : len ≤ b.str.length) :
    parseLoop b len = .ok (ofBigEndian (b.str.take len)) := by
  -- after `k` turns `ret` is the number in the first `k` bytes
  have hturns : ∀ k ≤ len, (List.range k).foldlM (parseByte b len) 0 =
      .ok (ofBigEndian (b.str.take k)) := by
    intro k hk
    induction k with
    | zero => rfl
    | succ k ih =>
      have hlt : k < b.str.length := by omega
      have hnext : ofBigEndian (b.str.take (k + 1)) =
          (ofBigEndian (b.str.take k) <<< 8) + b.str[k].toNat := by
        rw [List.take_succ_eq_append_getElem hlt, ofBigEndian, List.foldl_append]
        rfl
      have hfits : ofBigEndian (b.str.take (k + 1)) < 256 ^ len :=
        (ofBigEndian_lt _).trans_le (Nat.pow_le_pow_right (by norm_num)
          ((List.length_take_le ..).trans hk))
      have hturn := parseByte_of_lt len (ofBigEndian (b.str.take k)) hlt
      rw [← hnext, Nat.mod_eq_of_lt hfits] at hturn
      rw [List.range_succ, List.foldlM_append, ih (by omega)]
      exact congrArg (· >>= pure) hturn
  exact hturns len le_rfl

/-- **`_parse_int` does not throw.** -/
theorem tryParseInt_eq (len : ℕ) (p : NetParser) :
    tryParseInt len p = .ok ((parseInt len).run p) := by
  by_cases h : (p.checkSize len).error = .noError
  · have hle := le_size_of_checkSize h
    have hsame := checkSize_of_ok h
    rw [run_parseInt_of_ok h]
    simp only [tryParseInt, hsame, hsame ▸ h, parseLoop_eq hle, Buffer.tryRemovePrefix_of_le hle]
    rfl
  · rw [run_parseInt_of_error h, tryParseInt, if_neg h]
    rfl

theorem tryRemovePrefix_eq (n : ℕ) (p : NetParser) :
    tryRemovePrefix n p = .ok ((removePrefix n).run p).2 := by
  by_cases h : (p.checkSize n).error = .noError
  · have hsame := checkSize_of_ok h
    rw [run_removePrefix_of_ok h]
    simp only [tryRemovePrefix, hsame, hsame ▸ h,
      Buffer.tryRemovePrefix_of_le (le_size_of_checkSize h)]
    rfl
  · rw [run_removePrefix_of_error h, tryRemovePrefix, if_neg h]
    rfl

/-- What `_parse_int` returns fits the type. -/
theorem parseInt_lt (len : ℕ) (p : NetParser) : ((parseInt len).run p).1 < 256 ^ len := by
  by_cases h : (p.checkSize len).error = .noError
  · rw [run_parseInt_of_ok h]
    exact (ofBigEndian_lt _).trans_le
      (Nat.pow_le_pow_right (by norm_num) (List.length_take_le ..))
  · rw [run_parseInt_of_error h]
    positivity

/-- **No call throws**, whatever the parser holds. -/
theorem Call.run_eq (c : Call) (p : NetParser) : c.run p = .ok (c.read.run p) := by
  cases c with
  | removePrefix n =>
    rw [run, tryRemovePrefix_eq]
    rfl
  | u8 =>
    have hv := UInt8.toNat_ofNat_of_lt' (parseInt_lt 1 p)
    rw [run, asks, tryParseInt_eq]
    · exact congrArg Except.ok (Prod.ext (congrArg some hv.symm) rfl)
    · nofun
  | u16 =>
    have hv := UInt16.toNat_ofNat_of_lt' (parseInt_lt 2 p)
    rw [run, asks, tryParseInt_eq]
    · exact congrArg Except.ok (Prod.ext (congrArg some hv.symm) rfl)
    · nofun
  | u32 =>
    have hv := UInt32.toNat_ofNat_of_lt' (parseInt_lt 4 p)
    rw [run, asks, tryParseInt_eq]
    · exact congrArg Except.ok (Prod.ext (congrArg some hv.symm) rfl)
    · nofun

theorem runCalls_eq (cs : List Call) (p : NetParser) :
    runCalls cs p = .ok ((readCalls cs).run p) := by
  induction cs generalizing p with
  | nil => rfl
  | cons c cs ih =>
    rw [runCalls, c.run_eq]
    exact congrArg (fun x => x >>= fun r => pure ((c.read.run p).1 :: r.1, r.2))
      (ih (c.read.run p).2)

/-! ## Reading back what was written -/

/-- An integer of a width that `NetUnparser` writes. -/
inductive Field
  | u8 (val : UInt8)
  | u16 (val : UInt16)
  | u32 (val : UInt32)
  deriving DecidableEq, Repr

namespace Field

def unparse (s : Bytes) : Field → Bytes
  | u8 val => NetUnparser.u8 s val
  | u16 val => NetUnparser.u16 s val
  | u32 val => NetUnparser.u32 s val

/-- The call that parses an integer of that width. -/
def call : Field → Call
  | u8 _ => .u8
  | u16 _ => .u16
  | u32 _ => .u32

def value : Field → ℕ
  | u8 val => val.toNat
  | u16 val => val.toNat
  | u32 val => val.toNat

theorem unparse_eq (s : Bytes) (f : Field) : f.unparse s = s ++ bigEndian f.call.asks f.value := by
  cases f <;> rfl

theorem yields_read (f : Field) :
    Yields view f.call.read (bigEndian f.call.asks f.value) (some f.value) := by
  cases f with
  | u8 val => exact (yields_u8 val).map
  | u16 val => exact (yields_u16 val).map
  | u32 val => exact (yields_u32 val).map

end Field

theorem foldl_unparse (fields : List Field) (s : Bytes) :
    fields.foldl Field.unparse s =
      s ++ fields.flatMap fun f => bigEndian f.call.asks f.value := by
  induction fields generalizing s with
  | nil => simp
  | cons f fields ih =>
    rw [List.foldl_cons, ih, Field.unparse_eq, List.flatMap_cons, List.append_assoc]

/-- **Fields are read back as they were written.** -/
theorem reads_fields (fields : List Field) :
    Yields view (readCalls (fields.map Field.call))
      (fields.flatMap fun f => bigEndian f.call.asks f.value)
      (fields.map fun f => some f.value) := by
  induction fields with
  | nil => exact .pure []
  | cons f fields ih => exact f.yields_read.bind ih.map

/-! ## A parser that is stuck -/

/-- What a call returns that reads nothing. -/
def Call.zero : Call → Option ℕ
  | .removePrefix _ => none
  | _ => some 0

/-- The parser after an integer was not there. -/
def stuck (p : NetParser) : NetParser := { p with error := .packetTooShort }

theorem checkSize_of_short (h : p.buffer.size < n) : p.checkSize n = p.stuck := if_pos h

/-- The error stays, whether or not the next check fails too. -/
theorem checkSize_stuck (p : NetParser) (n : ℕ) : p.stuck.checkSize n = p.stuck := by
  unfold checkSize
  split <;> rfl

/-- A call whose check leaves the parser stuck reads nothing. -/
theorem Call.read_of_stuck {c : Call} {p' : NetParser} (h : p.checkSize c.asks = p'.stuck) :
    c.read.run p = (c.zero, p'.stuck) := by
  have herror : ¬ (p.checkSize c.asks).error = .noError := by
    rw [h]
    nofun
  have hint : (parseInt c.asks).run p = (0, p'.stuck) := by
    rw [run_parseInt_of_error herror, h]
  cases c with
  | removePrefix n =>
    have hrun : (NetParser.removePrefix n).run p = ((), p'.stuck) :=
      (run_removePrefix_of_error herror).trans (congrArg _ h)
    exact congrArg (fun r => (none, r.2)) hrun
  | u8 => exact congrArg (fun r => (some (UInt8.ofNat r.1).toNat, r.2)) hint
  | u16 => exact congrArg (fun r => (some (UInt16.ofNat r.1).toNat, r.2)) hint
  | u32 => exact congrArg (fun r => (some (UInt32.ofNat r.1).toNat, r.2)) hint

theorem readCalls_stuck (cs : List Call) (p : NetParser) :
    (readCalls cs).run p.stuck = (cs.map Call.zero, p.stuck) := by
  induction cs with
  | nil => rfl
  | cons c cs ih =>
    rw [readCalls, StateT.run_bind, Call.read_of_stuck (checkSize_stuck p c.asks)]
    exact congrArg (fun r => (c.zero :: r.1, r.2)) ih

/-- **A call that asks for too much is the last one that matters.** -/
theorem runCalls_of_short {c : Call} (h : p.buffer.size < c.asks) (later : List Call) :
    runCalls (c :: later) p = .ok ((c :: later).map Call.zero, p.stuck) := by
  rw [runCalls_eq, readCalls, StateT.run_bind, Call.read_of_stuck (checkSize_of_short h)]
  exact congrArg (fun r => Except.ok (c.zero :: r.1, r.2)) (readCalls_stuck later p)

/-- **A parser undoes the unparser, and its errors are final.**  Fields are read back from whatever
buffer holds what was written, and what comes after them is left.  No sequence of calls throws, and
from the first call on that asks for more than is left nothing is read or consumed. -/
theorem parses_back_or_sticks :
    (∀ (fields : List Field) (trailer : Bytes) (b : Buffer),
      b.str = fields.foldl Field.unparse [] ++ trailer →
      ∃ p, runCalls (fields.map Field.call) { buffer := b } =
          .ok (fields.map fun f => some f.value, p) ∧
        p.error = .noError ∧ p.buffer.str = trailer) ∧
    (∀ (calls : List Call) (p : NetParser), ∃ vs p', runCalls calls p = .ok (vs, p')) ∧
    ∀ (p : NetParser) (c : Call) (later : List Call), p.buffer.size < c.asks →
      runCalls (c :: later) p =
        .ok ((c :: later).map Call.zero, { p with error := .packetTooShort }) := by
  refine ⟨fun fields trailer b hb => ?_, fun calls p => ⟨_, _, runCalls_eq calls p⟩,
    fun p c later h => runCalls_of_short h later⟩
  rw [foldl_unparse, List.nil_append] at hb
  obtain ⟨p, hrun, hview⟩ := reads_fields fields { buffer := b } trailer
    (view_eq_some.mpr ⟨rfl, hb⟩)
  obtain ⟨hok, hrest⟩ := view_eq_some.mp hview
  exact ⟨p, by rw [runCalls_eq, hrun], hok, hrest⟩

/-- Two fields and a trailing byte; and an integer of four bytes asked of three, then one of two. -/
theorem parses_back_or_sticks_short :
    (∃ p, runCalls [.u8, .u16] { buffer := .ofString [7, 1, 2, 9] } =
      .ok ([some 7, some 258], p) ∧ p.buffer.str = [9]) ∧
    runCalls [.u32, .u16, .removePrefix 1] { buffer := .ofString [7, 1, 2] } =
      .ok ([some 0, some 0, none],
        { buffer := .ofString [7, 1, 2], error := .packetTooShort }) := by
  obtain ⟨p, hrun, -, hrest⟩ :=
    parses_back_or_sticks.1 [.u8 7, .u16 258] [9] (.ofString [7, 1, 2, 9]) (by decide)
  exact ⟨⟨p, hrun, hrest⟩, parses_back_or_sticks.2.2 _ .u32 [.u16, .removePrefix 1] (by decide)⟩

end NetParser
