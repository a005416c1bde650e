import Sponge.TCPSegment
import Sponge.Wire.Checksum
import Sponge.Wire.Parser

/-!
# Wire/TCP — segments as bytes

`tcp_header.cc`, `tcp_segment.cc`.  The checksum of a segment is taken over all of it and over what
the datagram layer adds for its own header.  A segment whose header fits its bits is parsed back
from its bytes under the same addition, with the checksum it was given
(`TCPSegment.parse_serialize`, `TCPSegment.segment_round_trip`), and is rejected if one of its bytes
is changed (`TCPSegment.corruption_rejected`).  The payload of a segment is kept as the bytes of its
`Buffer`.
-/

open Codec OnesComplement

namespace TCPHeader

/-- TCP header length, not including options. -/
def length : ℕ := 20

/-- The part of `parse` that reads the fields. -/
def readFields : StateM NetParser TCPHeader := do
  let sport ← NetParser.u16
  let dport ← NetParser.u16
  let seqno ← NetParser.u32
  let ackno ← NetParser.u32
  let doff ← NetParser.u8
  let flB ← NetParser.u8
  let win ← NetParser.u16
  let cksum ← NetParser.u16
  let uptr ← NetParser.u16
  return {
    sport, dport
    seqno := ⟨seqno⟩
    ackno := ⟨ackno⟩
    doff := doff >>> 4
    urg := flB &&& 0b00100000 != 0
    ack := flB &&& 0b00010000 != 0
    psh := flB &&& 0b00001000 != 0
    rst := flB &&& 0b00000100 != 0
    syn := flB &&& 0b00000010 != 0
    fin := flB &&& 0b00000001 != 0
    win, cksum, uptr }

def parse : StateM NetParser (TCPHeader × ParseResult) := do
  let h ← readFields
  if h.doff < 5 then
    return (h, .headerTooShort)
  else
    -- skip any options or anything extra in the header
    NetParser.removePrefix (h.doff.toNat * 4 - length)
    return (h, (← get).error)

/-- The byte with the flags. -/
def flB (h : TCPHeader) : UInt8 :=
  (if h.urg then 0b00100000 else 0) ||| (if h.ack then 0b00010000 else 0) |||
    (if h.psh then 0b00001000 else 0) ||| (if h.rst then 0b00000100 else 0) |||
    (if h.syn then 0b00000010 else 0) ||| (if h.fin then 0b00000001 else 0)

/-- The fields as `serialize` writes them. -/
def fields (h : TCPHeader) : Bytes :=
  let ret := []
  let ret := NetUnparser.u16 ret h.sport
  let ret := NetUnparser.u16 ret h.dport
  let ret := NetUnparser.u32 ret h.seqno.rawValue
  let ret := NetUnparser.u32 ret h.ackno.rawValue
  let ret := NetUnparser.u8 ret (h.doff <<< 4)
  let ret := NetUnparser.u8 ret h.flB
  let ret := NetUnparser.u16 ret h.win
  let ret := NetUnparser.u16 ret h.cksum
  NetUnparser.u16 ret h.uptr

/-- The string that `serialize` returns if it does not throw. -/
def bytes (h : TCPHeader) : Bytes := resize h.fields (4 * h.doff.toNat)

def serialize (h : TCPHeader) : Except Exn Bytes :=
  if h.doff < 5 then .error (.runtimeError "TCP header too short") else .ok h.bytes

/-- `header_out.cksum = cksum`. -/
def withCksum (h : TCPHeader) (cksum : UInt16) : TCPHeader := { h with cksum }

/-! ## A header is parsed back -/

/-- The data offset fits its four bits and covers the fields. -/
structure Fits (h : TCPHeader) : Prop where
  doff_ge : 5 ≤ h.doff.toNat
  doff_lt : h.doff.toNat < 16

variable {h : TCPHeader}

theorem fields_eq (h : TCPHeader) : h.fields =
    bigEndian 2 h.sport.toNat ++ (bigEndian 2 h.dport.toNat ++
      (bigEndian 4 h.seqno.rawValue.toNat ++
      (bigEndian 4 h.ackno.rawValue.toNat ++ (bigEndian 1 (h.doff <<< 4).toNat ++
      (bigEndian 1 h.flB.toNat ++ (bigEndian 2 h.win.toNat ++ (bigEndian 2 h.cksum.toNat ++
      bigEndian 2 h.uptr.toNat))))))) := by
  simp [fields, NetUnparser.u8, NetUnparser.u16, NetUnparser.u32, NetUnparser.unparseInt]

theorem length_fields (h : TCPHeader) : h.fields.length = length := by
  simp [fields_eq, length]

theorem Fits.bytes_eq (hfit : h.Fits) :
    h.bytes = h.fields ++ List.replicate (h.doff.toNat * 4 - length) 0 := by
  have hge := hfit.doff_ge
  rw [bytes, resize_of_le (by rw [length_fields, length]; omega), length_fields, Nat.mul_comm]

theorem Fits.length_bytes (hfit : h.Fits) : h.bytes.length = 4 * h.doff.toNat := by
  have hge := hfit.doff_ge
  rw [hfit.bytes_eq, List.length_append, length_fields, List.length_replicate, length]
  omega

theorem Fits.not_short (hfit : h.Fits) : ¬ h.doff < 5 := by
  rw [UInt8.lt_iff_toNat_lt]
  exact Nat.not_lt.mpr hfit.doff_ge

theorem Fits.withCksum (hfit : h.Fits) (cksum : UInt16) : (h.withCksum cksum).Fits :=
  ⟨hfit.doff_ge, hfit.doff_lt⟩

theorem Fits.serialize_eq (hfit : h.Fits) : h.serialize = .ok h.bytes := if_neg hfit.not_short

theorem Fits.doff_shift (hfit : h.Fits) : (h.doff <<< 4) >>> 4 = h.doff := by
  have hall : ∀ n < 16, (UInt8.ofNat n <<< 4) >>> 4 = UInt8.ofNat n := by decide
  have hdoff := hall h.doff.toNat hfit.doff_lt
  rwa [UInt8.ofNat_toNat] at hdoff

/-- Each flag is the bit it is written to. -/
theorem flB_and (h : TCPHeader) :
    (h.flB &&& 0b00100000 != 0) = h.urg ∧ (h.flB &&& 0b00010000 != 0) = h.ack ∧
    (h.flB &&& 0b00001000 != 0) = h.psh ∧ (h.flB &&& 0b00000100 != 0) = h.rst ∧
    (h.flB &&& 0b00000010 != 0) = h.syn ∧ (h.flB &&& 0b00000001 != 0) = h.fin := by
  unfold flB
  generalize h.urg = urg
  generalize h.ack = ack
  generalize h.psh = psh
  generalize h.rst = rst
  generalize h.syn = syn
  generalize h.fin = fin
  revert urg ack psh rst syn fin
  decide

theorem yields_readFields (hfit : h.Fits) : Yields NetParser.view readFields h.fields h := by
  have hread : Yields NetParser.view readFields h.fields { h with
      doff := (h.doff <<< 4) >>> 4
      urg := h.flB &&& 0b00100000 != 0
      ack := h.flB &&& 0b00010000 != 0
      psh := h.flB &&& 0b00001000 != 0
      rst := h.flB &&& 0b00000100 != 0
      syn := h.flB &&& 0b00000010 != 0
      fin := h.flB &&& 0b00000001 != 0 } := by
    rw [fields_eq]
    exact (NetParser.yields_u16 h.sport).bind ((NetParser.yields_u16 h.dport).bind
      ((NetParser.yields_u32 h.seqno.rawValue).bind ((NetParser.yields_u32 h.ackno.rawValue).bind
      ((NetParser.yields_u8 (h.doff <<< 4)).bind ((NetParser.yields_u8 h.flB).bind
      ((NetParser.yields_u16 h.win).bind ((NetParser.yields_u16 h.cksum).bind
      (NetParser.yields_u16 h.uptr).map)))))))
  obtain ⟨hurg, hack, hpsh, hrst, hsyn, hfin⟩ := h.flB_and
  rw [hfit.doff_shift, hurg, hack, hpsh, hrst, hsyn, hfin] at hread
  exact hread

/-- **A header is parsed back**, and its options are skipped. -/
theorem Fits.yields_parse (hfit : h.Fits) :
    Yields NetParser.view parse h.bytes (h, .noError) := by
  rw [hfit.bytes_eq]
  refine (yields_readFields hfit).bind ?_
  rw [if_neg hfit.not_short]
  have hskip := NetParser.yields_removePrefix
    (List.replicate (h.doff.toNat * 4 - length) (0 : UInt8))
  rw [List.length_replicate] at hskip
  have hall := hskip.bind (f := fun _ => do return (h, (← get).error))
    (NetParser.yields_getError fun error => (h, error))
  rwa [List.append_nil] at hall

/-- The checksum is a word of its own in the header, on an even place. -/
theorem bytes_split (h : TCPHeader) (hge : 5 ≤ h.doff.toNat) : ∃ before after : Bytes,
    Even before.length ∧ ∀ cksum : UInt16, (h.withCksum cksum).bytes =
      before ++ (bigEndian 2 cksum.toNat ++ after) := by
  refine ⟨bigEndian 2 h.sport.toNat ++ (bigEndian 2 h.dport.toNat ++
      (bigEndian 4 h.seqno.rawValue.toNat ++ (bigEndian 4 h.ackno.rawValue.toNat ++
      (bigEndian 1 (h.doff <<< 4).toNat ++ (bigEndian 1 h.flB.toNat ++
      bigEndian 2 h.win.toNat))))),
    bigEndian 2 h.uptr.toNat ++ List.replicate (4 * h.doff.toNat - length) 0, ?_, ?_⟩
  · simp only [List.length_append, length_bigEndian]
    decide
  · intro cksum
    have hlong : (h.withCksum cksum).fields.length ≤ 4 * (h.withCksum cksum).doff.toNat := by
      rw [length_fields, length]
      exact Nat.mul_le_mul_left 4 hge
    rw [bytes, resize_of_le hlong, length_fields, fields_eq]
    simp only [List.append_assoc]
    rfl

end TCPHeader

namespace TCPSegment

/-- `parse`; what the header's `parse` returns is not looked at. -/
def parse (seg : TCPSegment) (buffer : Buffer) (datagramLayerChecksum : UInt32 := 0) :
    ParseResult × TCPSegment :=
  if (({ sum := datagramLayerChecksum } : InternetChecksum).add buffer.str).value ≠ 0 then
    (.badChecksum, seg)
  else
    let r := TCPHeader.parse.run { buffer }
    (r.2.error, { header := r.1.1, payload := r.2.buffer.str })

def serialize (seg : TCPSegment) (datagramLayerChecksum : UInt32 := 0) : Except Exn BufferList := do
  let headerZero ← (seg.header.withCksum 0).serialize
  -- the checksum is taken over the entire segment
  let check := ({ sum := datagramLayerChecksum } : InternetChecksum).add headerZero
  let check := check.add seg.payload
  let headerOut ← (seg.header.withCksum check.value).serialize
  return (BufferList.ofString headerOut).append (.ofString seg.payload)

variable {seg : TCPSegment}

/-- The header with the checksum that `serialize` gives it. -/
def headerOut (seg : TCPSegment) (datagramLayerChecksum : UInt32) : TCPHeader :=
  seg.header.withCksum (({ sum := datagramLayerChecksum } : InternetChecksum).add
    ((seg.header.withCksum 0).bytes ++ seg.payload)).value

theorem serialize_eq (hfit : seg.header.Fits) (c : UInt32) : seg.serialize c =
    .ok ((BufferList.ofString (seg.headerOut c).bytes).append (.ofString seg.payload)) := by
  have hheader : ∀ cksum, (seg.header.withCksum cksum).serialize =
      .ok (seg.header.withCksum cksum).bytes := fun cksum => (hfit.withCksum cksum).serialize_eq
  simp only [serialize, bind, Except.bind, hheader, InternetChecksum.add_append]
  rfl

theorem length_serialize (hfit : seg.header.Fits) {c : UInt32} {ret : BufferList}
    (h : seg.serialize c = .ok ret) :
    ret.concatenate.length = 4 * seg.header.doff.toNat + seg.payload.length := by
  rw [serialize_eq hfit c] at h
  obtain rfl := Except.ok.inj h
  rw [BufferList.concatenate_append, BufferList.concatenate_ofString,
    BufferList.concatenate_ofString, List.length_append, headerOut,
    (hfit.withCksum _).length_bytes]
  rfl

/-- **The checksum of a segment verifies**, where its size fits in 16 bits. -/
theorem checksum_verifies (hfit : seg.header.Fits) {c : UInt32} (hc : c.toNat < 2 ^ 20)
    (hsize : 4 * seg.header.doff.toNat + seg.payload.length ≤ 65535) :
    (({ sum := c } : InternetChecksum).add ((seg.headerOut c).bytes ++ seg.payload)).value = 0 := by
  refine InternetChecksum.value_eq_zero_of_split
    (b := fun cksum => (seg.header.withCksum cksum).bytes ++ seg.payload) ?_ ?_
  · obtain ⟨before, after, heven, hsplit⟩ := seg.header.bytes_split hfit.doff_ge
    refine ⟨before, after ++ seg.payload, heven, fun cksum => ?_⟩
    rw [hsplit, List.append_assoc, List.append_assoc]
  · have hlen : (seg.header.withCksum 0).bytes.length = 4 * seg.header.doff.toNat :=
      (hfit.withCksum 0).length_bytes
    rw [List.length_append, hlen]
    omega

/-- **A segment is parsed back** from its bytes, with the checksum it was given. -/
theorem parse_serialize (old : TCPSegment) (hfit : seg.header.Fits) {c : UInt32}
    (hc : c.toNat < 2 ^ 20) (hsize : 4 * seg.header.doff.toNat + seg.payload.length ≤ 65535) :
    ∃ ret, seg.serialize c = .ok ret ∧ ∀ buffer : Buffer, buffer.str = ret.concatenate →
      old.parse buffer c =
        (.noError, { header := seg.headerOut c, payload := seg.payload }) := by
  refine ⟨_, serialize_eq hfit c, fun buffer hbuffer => ?_⟩
  rw [BufferList.concatenate_append, BufferList.concatenate_ofString,
    BufferList.concatenate_ofString] at hbuffer
  have hout : (seg.headerOut c).Fits := hfit.withCksum _
  obtain ⟨p, hrun, hview⟩ := hout.yields_parse { buffer } seg.payload
    (NetParser.view_eq_some.mpr ⟨rfl, hbuffer⟩)
  obtain ⟨hok, hstr⟩ := NetParser.view_eq_some.mp hview
  rw [parse, hbuffer, if_neg (not_not.mpr (checksum_verifies hfit hc hsize)), hrun]
  simp only [hok, hstr]

/-- **A segment survives the wire.**  A segment whose data offset fits its bits and whose size fits
a datagram is serialised; its bytes are parsed back under the same addition, whatever the target
held, to the same payload and the same header up to the checksum. -/
theorem segment_round_trip (old seg : TCPSegment) {c : UInt32} (hc : c.toNat < 2 ^ 20)
    (hdoff : 5 ≤ seg.header.doff.toNat ∧ seg.header.doff.toNat ≤ 15)
    (hsize : 4 * seg.header.doff.toNat + seg.payload.length ≤ 65535) :
    ∃ ret seg', seg.serialize c = .ok ret ∧
      old.parse (.ofString ret.concatenate) c = (.noError, seg') ∧
      seg'.payload = seg.payload ∧ seg'.header.withCksum seg.header.cksum = seg.header := by
  have hfit : seg.header.Fits := ⟨hdoff.1, Nat.lt_succ_of_le hdoff.2⟩
  obtain ⟨ret, hret, hparse⟩ := parse_serialize old hfit hc hsize
  exact ⟨ret, _, hret, hparse _ (Buffer.str_ofString _), rfl, rfl⟩

/-- A SYN with a word of options and a byte of payload, under a sum of more than 16 bits. -/
theorem segment_round_trip_options : ∃ ret seg',
    ({ header := { syn := true, doff := 6 }, payload := [97] } : TCPSegment).serialize 70000 =
      .ok ret ∧
    ({} : TCPSegment).parse (.ofString ret.concatenate) 70000 = (.noError, seg') ∧
    seg'.payload = [97] ∧ seg'.header.syn = true := by
  obtain ⟨ret, seg', hret, hparse, hpayload, hheader⟩ := segment_round_trip {}
    { header := { syn := true, doff := 6 }, payload := [97] } (c := 70000) (by decide) (by decide)
    (by decide)
  exact ⟨ret, seg', hret, hparse, hpayload, congrArg TCPHeader.syn hheader⟩

/-- **A segment with one byte changed is rejected**, and the target is left as it was. -/
theorem corruption_rejected (old seg : TCPSegment) {c : UInt32} (hc : c.toNat < 2 ^ 20)
    (hdoff : 5 ≤ seg.header.doff.toNat ∧ seg.header.doff.toNat ≤ 15)
    (hsize : 4 * seg.header.doff.toNat + seg.payload.length ≤ 65535) :
    ∃ ret, seg.serialize c = .ok ret ∧ ∀ buffer : Buffer,
      DiffersOnce ret.concatenate buffer.str → old.parse buffer c = (.badChecksum, old) := by
  have hfit : seg.header.Fits := ⟨hdoff.1, Nat.lt_succ_of_le hdoff.2⟩
  refine ⟨_, serialize_eq hfit c, fun buffer hdiffers => ?_⟩
  have hlen := length_serialize hfit (serialize_eq hfit c)
  have hvalue : ∀ bs : Bytes, bs.length ≤ 65535 →
      ((({ sum := c } : InternetChecksum).add bs).value = 0 ↔ Verifies c.toNat bs) :=
    fun bs hbs => InternetChecksum.value_eq_zero_iff_verifies (by omega)
  have hverifies : Verifies c.toNat ((seg.headerOut c).bytes ++ seg.payload) :=
    (hvalue _ (hlen.trans_le hsize)).mp (checksum_verifies hfit hc hsize)
  have hchanged : ¬ Verifies c.toNat buffer.str := hdiffers.not_verifies hverifies
  rw [parse, if_pos (mt (hvalue _ (hdiffers.1.trans hlen |>.trans_le hsize)).mp hchanged)]

/-- The first byte of a header is changed. -/
theorem corruption_rejected_first :
    ({ header := { doff := 5 } } : TCPSegment).serialize = .ok (BufferList.append
      (.ofString [0, 0, 0, 0, 0, 0, 0, 0, 0, 0, 0, 0, 0x50, 0, 0, 0, 0xaf, 0xff, 0, 0])
      (.ofString [])) ∧
    ({} : TCPSegment).parse
      (.ofString [1, 0, 0, 0, 0, 0, 0, 0, 0, 0, 0, 0, 0x50, 0, 0, 0, 0xaf, 0xff, 0, 0]) =
      (.badChecksum, {}) := by
  obtain ⟨ret, hret, hreject⟩ := corruption_rejected {} { header := { doff := 5 } } (c := 0)
    (by decide) (by decide) (by decide)
  have hbytes : ({ header := { doff := 5 } } : TCPSegment).serialize = .ok (BufferList.append
      (.ofString [0, 0, 0, 0, 0, 0, 0, 0, 0, 0, 0, 0, 0x50, 0, 0, 0, 0xaf, 0xff, 0, 0])
      (.ofString [])) := by decide
  obtain rfl := Except.ok.inj (hret.symm.trans hbytes)
  refine ⟨hbytes, hreject _ ⟨rfl, 0, by decide, fun i hi => ?_⟩⟩
  cases i with
  | zero => rfl
  | succ i => exact absurd rfl hi

end TCPSegment
