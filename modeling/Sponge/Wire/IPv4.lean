import Sponge.Wire.Checksum
import Sponge.Wire.Parser

/-!
# Wire/IPv4 — Internet datagrams

`ipv4_header.cc`, `ipv4_datagram.cc`, `address.hh`.  `serialize` throws on exactly the datagrams
that are not `Serializable`; a datagram that is, and whose header fits its bits, is parsed back from
its bytes (`IPv4Datagram.parse_serialize`), and these are the bytes it is serialised to again
(`IPv4Datagram.datagram_round_trip`).

`IPv4Datagram::parse` does not look at what the header's `parse` returns.  It accepts whatever has
the right size, so the version and the header length of an accepted datagram may be any
(`IPv4Datagram.parse_accepted`).
-/

open Codec OnesComplement

/-- The numeric side of an `Address`. -/
structure Address where
  ipv4Numeric : UInt32 := 0
  port : UInt16 := 0
  deriving DecidableEq, Repr

namespace IPv4Header

/-- IPv4 header length, not including options. -/
def length : ℕ := 20

def defaultTTL : UInt8 := 128

def protoTCP : UInt8 := 6

end IPv4Header

structure IPv4Header where
  ver : UInt8 := 4
  hlen : UInt8 := 5
  tos : UInt8 := 0
  len : UInt16 := 0
  id : UInt16 := 0
  df : Bool := true
  mf : Bool := false
  offset : UInt16 := 0
  ttl : UInt8 := IPv4Header.defaultTTL
  proto : UInt8 := IPv4Header.protoTCP
  cksum : UInt16 := 0
  src : UInt32 := 0
  dst : UInt32 := 0
  deriving DecidableEq, Repr

namespace IPv4Header

/-- The part of `parse` that reads the fields, from the second byte on. -/
def readAfter (firstByte : UInt8) : StateM NetParser IPv4Header := do
  let tos ← NetParser.u8
  let len ← NetParser.u16
  let id ← NetParser.u16
  let foVal ← NetParser.u16
  let ttl ← NetParser.u8
  let proto ← NetParser.u8
  let cksum ← NetParser.u16
  let src ← NetParser.u32
  let dst ← NetParser.u32
  return {
    ver := firstByte >>> 4
    hlen := firstByte &&& 0x0f
    tos, len, id
    df := foVal &&& 0x4000 != 0
    mf := foVal &&& 0x2000 != 0
    offset := foVal &&& 0x1fff
    ttl, proto, cksum, src, dst }

/-- The part of `parse` that reads the fields. -/
def readFields : StateM NetParser IPv4Header := do
  let firstByte ← NetParser.u8
  readAfter firstByte

/-- The part of `parse` that checks the fields. -/
def check (h : IPv4Header) (original : Buffer) : StateM NetParser ParseResult := do
  if original.size < 4 * h.hlen.toNat then return .packetTooShort
  else if h.ver ≠ 4 then return .wrongIPVersion
  else if h.hlen < 5 then return .headerTooShort
  else if original.size ≠ h.len.toNat then return .truncatedPacket
  else
    NetParser.removePrefix (h.hlen.toNat * 4 - length)
    if (← get).error ≠ .noError then return (← get).error
    else if (({} : InternetChecksum).add (original.str.take (4 * h.hlen.toNat))).value ≠ 0 then
      return .badChecksum
    else return .noError

def parse (h : IPv4Header) : StateM NetParser (IPv4Header × ParseResult) := do
  let original := (← get).buffer
  if original.size < length then
    return (h, .packetTooShort)
  else
    let h ← readFields
    let result ← h.check original
    return (h, result)

def firstByte (h : IPv4Header) : UInt8 := (h.ver <<< 4) ||| (h.hlen &&& 0xf)

def foVal (h : IPv4Header) : UInt16 :=
  (if h.df then 0x4000 else 0) ||| (if h.mf then 0x2000 else 0) ||| (h.offset &&& 0x1fff)

/-- The fields as `serialize` writes them. -/
def fields (h : IPv4Header) : Bytes :=
  let ret := []
  let ret := NetUnparser.u8 ret h.firstByte
  let ret := NetUnparser.u8 ret h.tos
  let ret := NetUnparser.u16 ret h.len
  let ret := NetUnparser.u16 ret h.id
  let ret := NetUnparser.u16 ret h.foVal
  let ret := NetUnparser.u8 ret h.ttl
  let ret := NetUnparser.u8 ret h.proto
  let ret := NetUnparser.u16 ret h.cksum
  let ret := NetUnparser.u32 ret h.src
  NetUnparser.u32 ret h.dst

def serialize (h : IPv4Header) : Except Exn Bytes :=
  if h.ver ≠ 4 then .error (.runtimeError "wrong IP version")
  else if 4 * h.hlen.toNat < length then .error (.runtimeError "IP header too short")
  else .ok (resize h.fields (4 * h.hlen.toNat))

/-- `header_out.cksum = cksum`. -/
def withCksum (h : IPv4Header) (cksum : UInt16) : IPv4Header := { h with cksum }

/-- Length of the payload. -/
def payloadLength (h : IPv4Header) : UInt16 := h.len - 4 * h.hlen.toUInt16

/-- The pseudo-header's contribution to the TCP checksum. -/
def pseudoCksum (h : IPv4Header) : UInt32 :=
  let pcksum := (h.src >>> 16) + (h.src &&& 0xffff)
  let pcksum := pcksum + ((h.dst >>> 16) + (h.dst &&& 0xffff))
  let pcksum := pcksum + h.proto.toUInt32
  pcksum + h.payloadLength.toUInt32

/-! ## A header is parsed back -/

/-- The fields fit the bits they are given. -/
structure Fits (h : IPv4Header) : Prop where
  ver : h.ver = 4
  hlen_ge : 5 ≤ h.hlen.toNat
  hlen_lt : h.hlen.toNat < 16
  offset : h.offset.toNat < 2 ^ 13

variable {h : IPv4Header}

theorem fields_eq (h : IPv4Header) : h.fields =
    bigEndian 1 h.firstByte.toNat ++ (bigEndian 1 h.tos.toNat ++ (bigEndian 2 h.len.toNat ++
      (bigEndian 2 h.id.toNat ++ (bigEndian 2 h.foVal.toNat ++ (bigEndian 1 h.ttl.toNat ++
      (bigEndian 1 h.proto.toNat ++ (bigEndian 2 h.cksum.toNat ++ (bigEndian 4 h.src.toNat ++
      bigEndian 4 h.dst.toNat)))))))) := by
  simp [fields, NetUnparser.u8, NetUnparser.u16, NetUnparser.u32, NetUnparser.unparseInt]

theorem length_fields (h : IPv4Header) : h.fields.length = length := by
  simp [fields_eq, length]

theorem Fits.firstByte (hfit : h.Fits) :
    h.firstByte >>> 4 = 4 ∧ h.firstByte &&& 0x0f = h.hlen := by
  have hall : ∀ n < 16, ((4 : UInt8) <<< 4 ||| (UInt8.ofNat n &&& 0xf)) >>> 4 = 4 ∧
      ((4 : UInt8) <<< 4 ||| (UInt8.ofNat n &&& 0xf)) &&& 0x0f = UInt8.ofNat n := by decide
  have hbyte := hall h.hlen.toNat hfit.hlen_lt
  rw [UInt8.ofNat_toNat] at hbyte
  rwa [IPv4Header.firstByte, hfit.ver]

theorem Fits.offset_and (hfit : h.Fits) : h.offset &&& 0x1fff = h.offset := by
  rw [← UInt16.toNat_inj, UInt16.toNat_and, show (0x1fff : UInt16).toNat = 2 ^ 13 - 1 from rfl,
    Nat.and_two_pow_sub_one_eq_mod, Nat.mod_eq_of_lt hfit.offset]

/-- A mask of `foVal` takes out its three parts. -/
theorem foVal_and (h : IPv4Header) (m : UInt16) : h.foVal &&& m =
    (if h.df then 0x4000 &&& m else 0) ||| (if h.mf then 0x2000 &&& m else 0) |||
      (h.offset &&& (0x1fff &&& m)) := by
  have hor : ∀ a b : UInt16, (a ||| b) &&& m = (a &&& m) ||| (b &&& m) := fun a b =>
    UInt16.toBitVec_inj.mp (BitVec.and_or_distrib_right)
  rw [IPv4Header.foVal, hor, hor, UInt16.and_assoc]
  cases h.df <;> cases h.mf <;> simp

theorem Fits.foVal (hfit : h.Fits) : (h.foVal &&& 0x4000 != 0) = h.df ∧
    (h.foVal &&& 0x2000 != 0) = h.mf ∧ h.foVal &&& 0x1fff = h.offset := by
  have hdf : (0x1fff : UInt16) &&& 0x4000 = 0 := by decide
  have hmf : (0x1fff : UInt16) &&& 0x2000 = 0 := by decide
  have hflags : (if h.df then (0x4000 : UInt16) &&& 0x1fff else 0) |||
      (if h.mf then (0x2000 : UInt16) &&& 0x1fff else 0) = 0 := by
    cases h.df <;> cases h.mf <;> decide
  refine ⟨?_, ?_, ?_⟩
  · rw [foVal_and, hdf, UInt16.and_zero]
    cases h.df <;> cases h.mf <;> decide
  · rw [foVal_and, hmf, UInt16.and_zero]
    cases h.df <;> cases h.mf <;> decide
  · rw [foVal_and, hflags, UInt16.and_self, hfit.offset_and, UInt16.zero_or]

theorem yields_readFields (hfit : h.Fits) : Yields NetParser.view readFields h.fields h := by
  have hread : Yields NetParser.view readFields h.fields {
      ver := h.firstByte >>> 4
      hlen := h.firstByte &&& 0x0f
      tos := h.tos, len := h.len, id := h.id
      df := h.foVal &&& 0x4000 != 0
      mf := h.foVal &&& 0x2000 != 0
      offset := h.foVal &&& 0x1fff
      ttl := h.ttl, proto := h.proto, cksum := h.cksum, src := h.src, dst := h.dst } := by
    rw [fields_eq]
    exact (NetParser.yields_u8 h.firstByte).bind ((NetParser.yields_u8 h.tos).bind
      ((NetParser.yields_u16 h.len).bind ((NetParser.yields_u16 h.id).bind
      ((NetParser.yields_u16 h.foVal).bind ((NetParser.yields_u8 h.ttl).bind
      ((NetParser.yields_u8 h.proto).bind ((NetParser.yields_u16 h.cksum).bind
      ((NetParser.yields_u32 h.src).bind (NetParser.yields_u32 h.dst).map))))))))
  rw [hfit.firstByte.1, hfit.firstByte.2, hfit.foVal.1, hfit.foVal.2.1, hfit.foVal.2.2,
    ← hfit.ver] at hread
  exact hread

/-- Whatever the other fields are, the version and the header length are in the first byte. -/
theorem returns_readAfter (b : UInt8) :
    Returns (readAfter b) fun h => h.ver = b >>> 4 ∧ h.hlen = b &&& 0x0f :=
  .after fun _ => .after fun _ => .after fun _ => .after fun _ => .after fun _ => .after fun _ =>
    .after fun _ => .after fun _ => .after fun _ => .pure ⟨rfl, rfl⟩

theorem parse_firstByte (old : IPv4Header) {p p' : NetParser} {b : UInt8}
    (hlong : ¬ p.buffer.size < length) (hfirst : NetParser.u8.run p = (b, p')) :
    (old.parse.run p).1.1.ver = b >>> 4 ∧ (old.parse.run p).1.1.hlen = b &&& 0x0f := by
  let rest : StateM NetParser (IPv4Header × ParseResult) := do
    let h ← readAfter b
    let result ← h.check p.buffer
    return (h, result)
  have hparse : old.parse.run p = rest.run p' := by
    change StateT.run (if p.buffer.size < length then _ else _) p = _
    rw [if_neg hlong, readFields, bind_assoc, StateT.run_bind, hfirst]
    rfl
  have hreturns : Returns rest fun r => r.1.ver = b >>> 4 ∧ r.1.hlen = b &&& 0x0f :=
    (returns_readAfter b).bind fun _ hfields => .after fun _ => .pure hfields
  rw [hparse]
  exact hreturns p'

/-- The string that `serialize` returns if it does not throw. -/
def bytes (h : IPv4Header) : Bytes := resize h.fields (4 * h.hlen.toNat)

theorem Fits.bytes_eq (hfit : h.Fits) :
    h.bytes = h.fields ++ List.replicate (h.hlen.toNat * 4 - length) 0 := by
  have hge := hfit.hlen_ge
  rw [bytes, resize_of_le (by rw [length_fields, length]; omega), length_fields, Nat.mul_comm]

theorem Fits.length_bytes (hfit : h.Fits) : h.bytes.length = 4 * h.hlen.toNat := by
  have hge := hfit.hlen_ge
  rw [hfit.bytes_eq, List.length_append, length_fields, List.length_replicate, length]
  omega

/-- The checks of `parse` before the checksum, for a datagram of `size` bytes. -/
structure Framed (h : IPv4Header) (size : ℕ) : Prop where
  long : 4 * h.hlen.toNat ≤ size
  ver : h.ver = 4
  hlen : 5 ≤ h.hlen.toNat
  len : size = h.len.toNat

/-- Without the right frame the checks end where they began. -/
theorem check_unframed (h : IPv4Header) (original : Buffer) (p : NetParser)
    (hno : ¬ h.Framed original.size) :
    ∃ result, result ≠ .noError ∧ (h.check original).run p = (result, p) := by
  by_cases hlong : original.size < 4 * h.hlen.toNat
  · exact ⟨.packetTooShort, by simp, by rw [check, if_pos hlong]; rfl⟩
  by_cases hver : h.ver ≠ 4
  · exact ⟨.wrongIPVersion, by simp, by rw [check, if_neg hlong, if_pos hver]; rfl⟩
  by_cases hhlen : h.hlen < 5
  · exact ⟨.headerTooShort, by simp, by rw [check, if_neg hlong, if_neg hver, if_pos hhlen]; rfl⟩
  refine ⟨.truncatedPacket, by simp, ?_⟩
  have hlen : original.size ≠ h.len.toNat := fun hlen => hno
    ⟨Nat.not_lt.mp hlong, not_not.mp hver,
      Nat.not_lt.mp fun hlt => hhlen (UInt8.lt_iff_toNat_lt.mpr hlt), hlen⟩
  rw [check, if_neg hlong, if_neg hver, if_neg hhlen, if_pos hlen]
  rfl

/-- **With the right frame the options are skipped**, and the checksum decides. -/
theorem Framed.check_run {original : Buffer} (hframed : h.Framed original.size) {p : NetParser}
    {rest : Bytes} (hview : p.view = some rest) (hrest : rest.length + length = original.size) :
    ∃ result p', (h.check original).run p = (result, p') ∧
      p'.view = some (rest.drop (h.hlen.toNat * 4 - length)) ∧
      (result = .noError ↔
        (({} : InternetChecksum).add (original.str.take (4 * h.hlen.toNat))).value = 0) := by
  have hlong := hframed.long
  have hhlen : ¬ h.hlen < 5 := by
    rw [UInt8.lt_iff_toNat_lt]
    exact Nat.not_lt.mpr hframed.hlen
  obtain ⟨p', hskip⟩ :
      ∃ p', (NetParser.removePrefix (h.hlen.toNat * 4 - length)).run p = ((), p') := ⟨_, rfl⟩
  have hview' := NetParser.takes_removePrefix (h.hlen.toNat * 4 - length) p
  rw [hskip, hview, Option.bind_some, if_pos (by omega)] at hview'
  obtain ⟨hok, -⟩ := NetParser.view_eq_some.mp hview'
  refine ⟨if (({} : InternetChecksum).add (original.str.take (4 * h.hlen.toNat))).value ≠ 0
      then .badChecksum else .noError, p', ?_, hview', ?_⟩
  · rw [check, if_neg (Nat.not_lt.mpr hlong), if_neg (not_not.mpr hframed.ver), if_neg hhlen,
      if_neg (not_not.mpr hframed.len), StateT.run_bind, hskip]
    change StateT.run (if p'.error ≠ .noError then _ else _) p' = _
    rw [if_neg (not_not.mpr hok)]
    split_ifs <;> rfl
  · split_ifs with hvalue
    · exact iff_of_false (by simp) hvalue
    · exact iff_of_true rfl (not_not.mp hvalue)

/-- `parse` of what is long enough for the fields: these are read, and then they are checked. -/
theorem parse_run_of_read (old : IPv4Header) {p p₁ : NetParser} (hlong : length ≤ p.buffer.size)
    (hread : readFields.run p = (h, p₁)) :
    old.parse.run p =
      ((h, ((h.check p.buffer).run p₁).1), ((h.check p.buffer).run p₁).2) := by
  change StateT.run (if p.buffer.size < length then _ else _) p = _
  rw [if_neg (Nat.not_lt.mpr hlong), StateT.run_bind, hread]
  rfl

/-- **A header is parsed back**, whatever was there before, and its options are skipped; the sizes
have to be as it says. -/
theorem Fits.parse_run (hfit : h.Fits) (old : IPv4Header) {p : NetParser} {rest : Bytes}
    (hview : p.view = some (h.bytes ++ rest)) (hlen : h.len.toNat = h.bytes.length + rest.length) :
    ∃ result p', old.parse.run p = ((h, result), p') ∧ p'.view = some rest ∧
      (result = .noError ↔ (({} : InternetChecksum).add h.bytes).value = 0) := by
  have hstr := (NetParser.view_eq_some.mp hview).2
  have hge := hfit.hlen_ge
  have hbytes := hfit.length_bytes
  have hsize : p.buffer.size = h.len.toNat := by
    rw [Buffer.size_eq, hstr, List.length_append, hlen]
  have hframed : h.Framed p.buffer.size := ⟨by omega, hfit.ver, hge, hsize⟩
  rw [hfit.bytes_eq, List.append_assoc] at hview
  obtain ⟨p₁, hread, hview₁⟩ := yields_readFields hfit p _ hview
  obtain ⟨result, p₂, hrun, hview₂, hresult⟩ := hframed.check_run hview₁ (by
    rw [List.length_append, List.length_replicate, length]
    omega)
  refine ⟨result, p₂, ?_, hview₂.trans ?_, ?_⟩
  · rw [parse_run_of_read old (by rw [length]; omega) hread, hrun]
  · rw [List.drop_left' (List.length_replicate ..)]
  · rw [hresult, hstr, List.take_left' hbytes]

/-- The checksum is a word of its own in the header, on an even place. -/
theorem bytes_split (h : IPv4Header) (hge : 5 ≤ h.hlen.toNat) : ∃ before after : Bytes,
    Even before.length ∧ ∀ cksum : UInt16, (h.withCksum cksum).bytes =
      before ++ (bigEndian 2 cksum.toNat ++ after) := by
  refine ⟨bigEndian 1 h.firstByte.toNat ++ (bigEndian 1 h.tos.toNat ++ (bigEndian 2 h.len.toNat ++
      (bigEndian 2 h.id.toNat ++ (bigEndian 2 h.foVal.toNat ++ (bigEndian 1 h.ttl.toNat ++
      bigEndian 1 h.proto.toNat))))),
    bigEndian 4 h.src.toNat ++ (bigEndian 4 h.dst.toNat ++
      List.replicate (4 * h.hlen.toNat - length) 0), ?_, ?_⟩
  · simp only [List.length_append, length_bigEndian]
    decide
  · intro cksum
    have hlong : (h.withCksum cksum).fields.length ≤ 4 * (h.withCksum cksum).hlen.toNat := by
      rw [length_fields, length]
      exact Nat.mul_le_mul_left 4 hge
    rw [bytes, resize_of_le hlong, length_fields, fields_eq]
    simp only [List.append_assoc]
    rfl

/-! ## What `serialize` accepts, and sizes -/

theorem serialize_eq (hver : h.ver = 4) (hlen : 5 ≤ h.hlen.toNat) : h.serialize = .ok h.bytes := by
  rw [serialize, if_neg (by simp [hver]), if_neg (by rw [length]; omega), bytes]

theorem of_serialize {ret : Bytes} (hret : h.serialize = .ok ret) :
    h.ver = 4 ∧ 5 ≤ h.hlen.toNat := by
  unfold serialize at hret
  split_ifs at hret with hver hshort
  rw [length] at hshort
  exact ⟨by simpa using hver, by omega⟩

/-- The payload length is a 16-bit difference. -/
theorem payloadLength_mod (h : IPv4Header) :
    h.payloadLength.toNat = (h.len.toNat + 2 ^ 16 - 4 * h.hlen.toNat) % 2 ^ 16 := by
  have hhlen := h.hlen.toNat_lt
  have hfour : (4 * h.hlen.toUInt16).toNat = 4 * h.hlen.toNat := by
    rw [UInt16.toNat_mul, UInt8.toNat_toUInt16]
    exact Nat.mod_eq_of_lt (by simp only [UInt16.reduceToNat]; omega)
  rw [payloadLength, UInt16.toNat_sub, hfour]
  congr 1
  omega

theorem payloadLength_toNat (hle : 4 * h.hlen.toNat ≤ h.len.toNat) :
    h.payloadLength.toNat = h.len.toNat - 4 * h.hlen.toNat := by
  have hlen := h.len.toNat_lt
  rw [h.payloadLength_mod]
  omega

end IPv4Header

structure IPv4Datagram where
  header : IPv4Header := {}
  payload : BufferList := {}
  deriving DecidableEq, Repr

abbrev InternetDatagram := IPv4Datagram

namespace IPv4Datagram

/-- `parse`; what the header's `parse` returns is not looked at. -/
def parse (d : IPv4Datagram) (buffer : Buffer) : ParseResult × IPv4Datagram :=
  let r := d.header.parse.run { buffer }
  let d : IPv4Datagram := { header := r.1.1, payload := .ofBuffer r.2.buffer }
  (if d.payload.size ≠ d.header.payloadLength.toNat then .packetTooShort else r.2.error, d)

def serialize (d : IPv4Datagram) : Except Exn BufferList := do
  if d.payload.size ≠ d.header.payloadLength.toNat then
    throw (.runtimeError "IPv4Datagram::serialize: payload is wrong size")
  else
    let headerZeroChecksum ← (d.header.withCksum 0).serialize
    let check := ({} : InternetChecksum).add headerZeroChecksum
    let headerOut ← (d.header.withCksum check.value).serialize
    return (BufferList.ofString headerOut).append d.payload

/-! ## What can be serialised -/

/-- The version, the header length and the size of the payload are what `serialize` asks for. -/
structure Serializable (d : IPv4Datagram) : Prop where
  size : d.payload.size = d.header.payloadLength.toNat
  ver : d.header.ver = 4
  hlen : 5 ≤ d.header.hlen.toNat

instance (d : IPv4Datagram) : Decidable d.Serializable :=
  decidable_of_iff (d.payload.size = d.header.payloadLength.toNat ∧ d.header.ver = 4 ∧
    5 ≤ d.header.hlen.toNat) ⟨fun h => ⟨h.1, h.2.1, h.2.2⟩, fun h => ⟨h.size, h.ver, h.hlen⟩⟩

variable {d : IPv4Datagram} {buffer : Buffer}

/-- The header with the checksum that `serialize` gives it. -/
def headerOut (d : IPv4Datagram) : IPv4Header :=
  d.header.withCksum (({} : InternetChecksum).add (d.header.withCksum 0).bytes).value

/-- **What is serialisable is serialised.** -/
theorem Serializable.serialize_eq (h : d.Serializable) :
    d.serialize = .ok ((BufferList.ofString d.headerOut.bytes).append d.payload) := by
  have hheader : ∀ cksum, (d.header.withCksum cksum).serialize =
      .ok (d.header.withCksum cksum).bytes := fun cksum => IPv4Header.serialize_eq h.ver h.hlen
  rw [serialize, if_neg (by simp [h.size]), hheader]
  simp only [bind, Except.bind, hheader]
  rfl

/-- **`serialize` returns on exactly the serialisable datagrams**, and throws on the others. -/
theorem serializable_iff : d.Serializable ↔ ∃ ret, d.serialize = .ok ret := by
  refine ⟨fun h => ⟨_, h.serialize_eq⟩, ?_⟩
  rintro ⟨ret, h⟩
  unfold serialize at h
  by_cases hsize : d.payload.size = d.header.payloadLength.toNat
  · rw [if_neg (not_not.mpr hsize)] at h
    cases hzero : (d.header.withCksum 0).serialize with
    | error e =>
      rw [hzero] at h
      cases h
    | ok bytes =>
      obtain ⟨hver, hlen⟩ := IPv4Header.of_serialize hzero
      exact ⟨hsize, hver, hlen⟩
  · rw [if_pos hsize] at h
    cases h

/-! ## What is parsed -/

/-- **A datagram is parsed back** from any buffer with its bytes, with the checksum it was given and
its payload in one piece. -/
theorem parse_bytes (old : IPv4Datagram) (hfit : d.header.Fits)
    (hlen : d.header.len.toNat = 4 * d.header.hlen.toNat + d.payload.size)
    (hbuffer : buffer.str = d.headerOut.bytes ++ d.payload.concatenate) :
    ∃ b, b.str = d.payload.concatenate ∧
      old.parse buffer = (.noError, { header := d.headerOut, payload := .ofBuffer b }) := by
  have hout : d.headerOut.Fits := ⟨hfit.ver, hfit.hlen_ge, hfit.hlen_lt, hfit.offset⟩
  have hbytes : d.headerOut.bytes.length = 4 * d.header.hlen.toNat := hout.length_bytes
  have hwhole : NetParser.view { buffer } = some (d.headerOut.bytes ++ d.payload.concatenate) :=
    NetParser.view_eq_some.mpr ⟨rfl, hbuffer⟩
  obtain ⟨result, p, hrun, hview, -⟩ := hout.parse_run old.header hwhole
    (by rw [hbytes, ← BufferList.size_eq]; exact hlen)
  obtain ⟨hok, hstr⟩ := NetParser.view_eq_some.mp hview
  have hpayload : (BufferList.ofBuffer p.buffer).size = d.headerOut.payloadLength.toNat := by
    rw [BufferList.size_eq, BufferList.concatenate_ofBuffer, hstr, ← BufferList.size_eq]
    change _ = d.header.payloadLength.toNat
    rw [IPv4Header.payloadLength_toNat (by omega)]
    omega
  refine ⟨p.buffer, hstr, ?_⟩
  rw [parse, hrun]
  simp only [hpayload, hok, ne_eq, not_true_eq_false, if_false]

/-- The same for the string that `serialize` gives. -/
theorem parse_serialize (old : IPv4Datagram) (hfit : d.header.Fits)
    (hlen : d.header.len.toNat = 4 * d.header.hlen.toNat + d.payload.size) :
    ∃ ret b, d.serialize = .ok ret ∧ b.str = d.payload.concatenate ∧
      old.parse (.ofString ret.concatenate) =
        (.noError, { header := d.headerOut, payload := .ofBuffer b }) := by
  have hsize : d.payload.size = d.header.payloadLength.toNat := by
    rw [IPv4Header.payloadLength_toNat (by omega)]
    omega
  have hbytes : (Buffer.ofString (d.headerOut.bytes ++ d.payload.concatenate)).str =
      d.headerOut.bytes ++ d.payload.concatenate := rfl
  obtain ⟨b, hb, hparse⟩ := parse_bytes old hfit hlen hbytes
  refine ⟨_, b, Serializable.serialize_eq ⟨hsize, hfit.ver, hfit.hlen_ge⟩, hb, ?_⟩
  rw [BufferList.concatenate_append, BufferList.concatenate_ofString, hparse]

/-- **The checksum of a header verifies.** -/
theorem checksum_verifies (hfit : d.header.Fits) :
    (({} : InternetChecksum).add d.headerOut.bytes).value = 0 := by
  refine InternetChecksum.value_eq_zero_of_split
    (b := fun cksum => (d.header.withCksum cksum).bytes) (d.header.bytes_split hfit.hlen_ge) ?_
  have hzero : (d.header.withCksum 0).Fits := ⟨hfit.ver, hfit.hlen_ge, hfit.hlen_lt, hfit.offset⟩
  have hlen : (d.header.withCksum 0).bytes.length = 4 * d.header.hlen.toNat := hzero.length_bytes
  have hsmall := hfit.hlen_lt
  rw [hlen, UInt32.toNat_zero]
  omega

/-- **A datagram survives the wire.**  A datagram whose header fits its bits and whose payload has
the size it says is serialised; its bytes are parsed back, whatever the target held, to the same
payload and the same header up to the checksum; the header's own `parse` finds no error in them; and
the datagram parsed serialises to the same bytes again. -/
theorem datagram_round_trip (old : IPv4Datagram) (hver : d.header.ver = 4)
    (hhlen : 5 ≤ d.header.hlen.toNat ∧ d.header.hlen.toNat ≤ 15)
    (hoffset : d.header.offset.toNat < 2 ^ 13)
    (hlen : d.header.len.toNat = 4 * d.header.hlen.toNat + d.payload.size) :
    ∃ ret d', d.serialize = .ok ret ∧
      old.parse (.ofString ret.concatenate) = (.noError, d') ∧
      d'.payload.concatenate = d.payload.concatenate ∧
      d'.header.withCksum d.header.cksum = d.header ∧
      (old.header.parse.run { buffer := .ofString ret.concatenate }).1.2 = .noError ∧
      ∃ ret', d'.serialize = .ok ret' ∧ ret'.concatenate = ret.concatenate := by
  have hfit : d.header.Fits := ⟨hver, hhlen.1, by omega, hoffset⟩
  have hout : d.headerOut.Fits := ⟨hver, hhlen.1, hfit.hlen_lt, hoffset⟩
  have hwhole : NetParser.view
      { buffer := .ofString (d.headerOut.bytes ++ d.payload.concatenate) } =
        some (d.headerOut.bytes ++ d.payload.concatenate) :=
    NetParser.view_eq_some.mpr ⟨rfl, rfl⟩
  have hsize : d.payload.size = d.header.payloadLength.toNat := by
    rw [IPv4Header.payloadLength_toNat (by omega)]
    omega
  have hser := Serializable.serialize_eq (d := d) ⟨hsize, hver, hhlen.1⟩
  obtain ⟨ret, b, hret, hb, hparse⟩ := parse_serialize old hfit hlen
  obtain rfl := Except.ok.inj (hret.symm.trans hser)
  have hagain : Serializable { header := d.headerOut, payload := .ofBuffer b } := by
    refine ⟨?_, hver, hhlen.1⟩
    rw [BufferList.size_eq, BufferList.concatenate_ofBuffer, hb, ← BufferList.size_eq]
    exact hsize
  refine ⟨_, _, hret, hparse, hb, rfl, ?_, _, hagain.serialize_eq, ?_⟩
  · obtain ⟨result, p, hrun, -, hresult⟩ := hout.parse_run old.header hwhole
      (by rw [hout.length_bytes, ← BufferList.size_eq]; exact hlen)
    rw [BufferList.concatenate_append, BufferList.concatenate_ofString, hrun]
    exact hresult.mpr (checksum_verifies hfit)
  · rw [BufferList.concatenate_append, BufferList.concatenate_append,
      BufferList.concatenate_ofBuffer, hb]
    rfl

/-- A datagram with two bytes of payload and one word of options. -/
theorem datagram_round_trip_options : ∃ ret d',
    ({ header := { hlen := 6, len := 26 },
        payload := .ofString [97, 98] } : IPv4Datagram).serialize = .ok ret ∧
    ({} : IPv4Datagram).parse (.ofString ret.concatenate) = (.noError, d') ∧
    d'.payload.concatenate = [97, 98] := by
  obtain ⟨ret, d', hret, hparse, hpayload, -⟩ := datagram_round_trip {}
    (d := { header := { hlen := 6, len := 26 }, payload := .ofString [97, 98] }) rfl (by decide)
    (by decide) (by decide)
  exact ⟨ret, d', hret, hparse, hpayload⟩

/-- **What `parse` accepts of a fresh datagram**: the payload has the size the header says, and the
version and header length are in the first byte. -/
theorem parse_accepted (h : ({} : IPv4Datagram).parse buffer = (.noError, d)) :
    d.payload.size = d.header.payloadLength.toNat ∧ ∃ b rest, buffer.str = b :: rest ∧
      d.header.ver = b >>> 4 ∧ d.header.hlen = b &&& 0x0f := by
  obtain ⟨hresult, rfl⟩ := Prod.mk.inj h
  have hsize : (BufferList.ofBuffer (({} : IPv4Header).parse.run { buffer }).2.buffer).size =
      (({} : IPv4Header).parse.run { buffer }).1.1.payloadLength.toNat := by
    by_contra hne
    rw [if_pos hne] at hresult
    cases hresult
  refine ⟨hsize, ?_⟩
  by_cases hshort : buffer.size < IPv4Header.length
  · -- the fields of a fresh header do not fit so short a buffer
    have hrun : ({} : IPv4Header).parse.run { buffer } = (({}, .packetTooShort), { buffer }) := by
      change StateT.run (if buffer.size < IPv4Header.length then _ else _) _ = _
      rw [if_pos hshort]
      rfl
    rw [hrun, BufferList.size_eq, BufferList.concatenate_ofBuffer, ← Buffer.size_eq] at hsize
    rw [IPv4Header.length] at hshort
    have hfresh : (({} : IPv4Header).payloadLength.toNat) = 65516 := by decide
    simp only at hsize
    omega
  · cases hstr : buffer.str with
    | nil => simp [Buffer.size_eq, hstr, IPv4Header.length] at hshort
    | cons b rest =>
      obtain ⟨p, hrun, -⟩ := NetParser.yields_byte b { buffer } rest
        (NetParser.view_eq_some.mpr ⟨rfl, hstr⟩)
      obtain ⟨hver, hhlen⟩ := IPv4Header.parse_firstByte {} hshort hrun
      exact ⟨b, rest, rfl, hver, hhlen⟩

end IPv4Datagram
