import Sponge.Wire.IPv4
import Sponge.Wire.TCP

/-!
# Wire/WellFormed — what the parsers accept of arbitrary bytes

A datagram or a segment is well formed if it is long enough, its fields are those of its kind and
its checksum verifies.  Neither `parse` accepts exactly these strings.

`IPv4Datagram::parse` does not look at what the header's `parse` returns, and takes the size of the
payload as the only sign of an error.  A bad checksum leaves the size right, and other faults may by
chance (`datagram_parse_exact_iff`).  `TCPSegment::parse` goes by the error of its parser, which is
not set for a data offset that is too small (`segment_parse_exact_iff`).
-/

open Codec OnesComplement

/-! ## Datagrams -/

namespace IPv4Header

/-- The fields that are checked, in any string long enough for a header. -/
theorem reads_readFields {b : Bytes} (hlong : 20 ≤ b.length) :
    ∃ h, Reads NetParser.view b 0 readFields h 20 ∧ h.ver.toNat = field b 0 1 / 16 ∧
      h.hlen.toNat = field b 0 1 % 16 ∧ h.len.toNat = field b 2 2 := by
  refine ⟨_, (NetParser.reads_u8 (by omega)).bind ((NetParser.reads_u8 (by omega)).bind
    ((NetParser.reads_u16 (by omega)).bind ((NetParser.reads_u16 (by omega)).bind
    ((NetParser.reads_u16 (by omega)).bind ((NetParser.reads_u8 (by omega)).bind
    ((NetParser.reads_u8 (by omega)).bind ((NetParser.reads_u16 (by omega)).bind
    ((NetParser.reads_u32 (by omega)).bind (NetParser.reads_u32 (by omega)).map)))))))), ?_⟩
  obtain ⟨hver, hhlen⟩ := byte_nibbles (field_lt b 0 1)
  refine ⟨hver, hhlen, ?_⟩
  exact (UInt16.toNat_ofNat' ..).trans (Nat.mod_eq_of_lt (field_lt b 2 2))

end IPv4Header

namespace IPv4Datagram

variable {buffer : Buffer} {b : Bytes}

/-- The length of the header in bytes, from its nibble. -/
def headerLength (b : Bytes) : ℕ := 4 * (field b 0 1 % 16)

/-- **The frame of a datagram is right**: version, header length and total length. -/
structure Framed (b : Bytes) : Prop where
  version : field b 0 1 / 16 = 4
  hlen : 5 ≤ field b 0 1 % 16
  header : headerLength b ≤ b.length
  total : field b 2 2 = b.length

/-- **A well-formed datagram.** -/
structure WellFormed (b : Bytes) : Prop extends Framed b where
  long : 20 ≤ b.length
  checksum : Verifies 0 (b.take (headerLength b))

/-- What the header's `parse` leaves decides about the datagram. -/
theorem parse_of_run (old : IPv4Datagram) {h : IPv4Header} {result : ParseResult} {p : NetParser}
    {rest : Bytes} (hrun : old.header.parse.run { buffer } = ((h, result), p))
    (hview : p.view = some rest) :
    ((old.parse buffer).1 = .noError ↔ rest.length = h.payloadLength.toNat) ∧
      (old.parse buffer).2.payload.concatenate = rest := by
  obtain ⟨hok, hstr⟩ := NetParser.view_eq_some.mp hview
  have hsize : (BufferList.ofBuffer p.buffer).size = rest.length := by
    rw [BufferList.size_eq, BufferList.concatenate_ofBuffer, hstr]
  refine ⟨?_, ?_⟩
  · simp only [parse, hrun, hsize]
    split_ifs with hne
    · exact iff_of_false (by simp) hne
    · exact iff_of_true hok (not_not.mp hne)
  · simp only [parse, hrun, BufferList.concatenate_ofBuffer, hstr]

/-- What is too short for a header is taken for the payload of the header that was there. -/
theorem parse_short (old : IPv4Datagram) (hshort : buffer.str.length < 20) :
    (old.parse buffer).1 = .noError ↔
      buffer.str.length = old.header.payloadLength.toNat := by
  have hrun : old.header.parse.run { buffer } =
      ((old.header, .packetTooShort), { buffer }) := by
    change StateT.run (if buffer.size < IPv4Header.length then _ else _) _ = _
    rw [if_pos (show buffer.size < IPv4Header.length from hshort)]
    rfl
  exact (parse_of_run old hrun (NetParser.view_eq_some.mpr ⟨rfl, rfl⟩)).1

/-- **What `parse` does with a string long enough for a header**: without a right frame the payload
starts after the fields, and only its size is looked at. -/
theorem parse_long (old : IPv4Datagram) (hlong : 20 ≤ buffer.str.length) :
    (Framed buffer.str → (old.parse buffer).1 = .noError ∧
      (old.parse buffer).2.payload.concatenate = buffer.str.drop (headerLength buffer.str)) ∧
    (¬ Framed buffer.str → ((old.parse buffer).1 = .noError ↔ buffer.str.length - 20 =
      (field buffer.str 2 2 + 2 ^ 16 - headerLength buffer.str) % 2 ^ 16)) := by
  obtain ⟨h, hreads, hver, hhlen, hlen⟩ := IPv4Header.reads_readFields hlong
  obtain ⟨p₁, hread, hview₁⟩ := hreads { buffer } (NetParser.view_eq_some.mpr ⟨rfl, rfl⟩)
  have hrun := IPv4Header.parse_run_of_read old.header (p := { buffer }) hlong hread
  have hframed : h.Framed buffer.size ↔ Framed buffer.str := by
    have hfour : h.ver = 4 ↔ h.ver.toNat = 4 := UInt8.toNat_inj.symm
    rw [Buffer.size_eq]
    refine ⟨fun hf => ⟨?_, ?_, ?_, ?_⟩, fun hf => ⟨?_, hfour.mpr ?_, ?_, ?_⟩⟩
    · rw [← hver, hfour.mp hf.ver]
    · exact hhlen ▸ hf.hlen
    · exact le_of_eq_of_le (congrArg (4 * ·) hhlen.symm) hf.long
    · exact hlen.symm.trans hf.len.symm
    · exact le_of_eq_of_le (congrArg (4 * ·) hhlen) hf.header
    · rw [hver, hf.version]
    · exact hhlen.symm ▸ hf.hlen
    · exact hf.total.symm.trans hlen.symm
  have hpayload : h.payloadLength.toNat =
      (field buffer.str 2 2 + 2 ^ 16 - headerLength buffer.str) % 2 ^ 16 := by
    rw [h.payloadLength_mod, hlen, hhlen, headerLength]
  refine ⟨fun hf => ?_, fun hf => ?_⟩
  · -- the options are skipped, and what is left has the size the fields say
    obtain ⟨result, p, hcheck, hview, -⟩ := (hframed.mpr hf).check_run hview₁
      (by rw [List.length_drop, IPv4Header.length, Buffer.size_eq]; omega)
    rw [hcheck] at hrun
    rw [List.drop_drop] at hview
    have hskip : 20 + (h.hlen.toNat * 4 - IPv4Header.length) = headerLength buffer.str := by
      have := hf.hlen
      rw [hhlen, IPv4Header.length, headerLength]
      omega
    rw [hskip] at hview
    obtain ⟨hresult, hrest⟩ := parse_of_run old hrun hview
    refine ⟨hresult.mpr ?_, hrest⟩
    have hheader := hf.header
    have htotal := field_lt buffer.str 2 2
    rw [hpayload, List.length_drop, hf.total]
    rw [hf.total] at htotal
    omega
  · obtain ⟨result, -, hcheck⟩ := h.check_unframed buffer p₁ (mt hframed.mp hf)
    rw [hcheck] at hrun
    rw [(parse_of_run old hrun hview₁).1, List.length_drop, hpayload]

/-- The parser is not misled: what is too short for a header has not the size that the old header
says, a datagram with the right frame verifies, and one without it has not by chance the size that
its fields say. -/
structure Discerned (old : IPv4Datagram) (b : Bytes) : Prop where
  short : b.length < 20 → b.length ≠ old.header.payloadLength.toNat
  framed : 20 ≤ b.length → Framed b → Verifies 0 (b.take (headerLength b))
  unframed : 20 ≤ b.length → ¬ Framed b →
    b.length - 20 ≠ (field b 2 2 + 2 ^ 16 - headerLength b) % 2 ^ 16

/-- **When `parse` accepts exactly the well-formed datagrams**, with the payload after the
header. -/
theorem datagram_parse_exact_iff (old : IPv4Datagram) (buffer : Buffer) :
    (((old.parse buffer).1 = .noError ↔ WellFormed buffer.str) ∧
      ((old.parse buffer).1 = .noError →
        (old.parse buffer).2.payload.concatenate = buffer.str.drop (headerLength buffer.str))) ↔
      Discerned old buffer.str := by
  rcases Nat.lt_or_ge buffer.str.length 20 with hshort | hlong
  · have hill : ¬ WellFormed buffer.str := fun hw => Nat.not_lt.mpr hw.long hshort
    rw [parse_short old hshort, iff_false_right hill]
    refine ⟨fun h => ⟨fun _ => h.1, fun hl => ?_, fun hl => ?_⟩, fun h => ⟨h.short hshort, ?_⟩⟩
    · omega
    · omega
    · exact fun hsize => absurd hsize (h.short hshort)
  obtain ⟨hyes, hno⟩ := parse_long old hlong
  by_cases hf : Framed buffer.str
  · obtain ⟨hok, hpayload⟩ := hyes hf
    refine ⟨fun h => ⟨fun hl => ?_, fun _ _ => (h.1.mp hok).checksum, fun _ hn => absurd hf hn⟩,
      fun h => ⟨iff_of_true hok ⟨hf, hlong, h.framed hlong hf⟩, fun _ => hpayload⟩⟩
    omega
  · have hill : ¬ WellFormed buffer.str := fun hw => hf hw.toFramed
    rw [hno hf, iff_false_right hill]
    refine ⟨fun h => ⟨fun hl => ?_, fun _ hn => absurd hn hf, fun _ _ => h.1⟩,
      fun h => ⟨h.unframed hlong hf, fun hsize => absurd hsize (h.unframed hlong hf)⟩⟩
    omega

/-- A header without payload and without a checksum is accepted. -/
theorem bad_checksum_accepted : ∃ buffer : Buffer,
    (({} : IPv4Datagram).parse buffer).1 = .noError ∧ ¬ WellFormed buffer.str := by
  refine ⟨.ofString [0x45, 0, 0, 20, 0, 0, 0, 0, 64, 6, 0, 0, 10, 0, 0, 1, 10, 0, 0, 2], by decide,
    fun hw => ?_⟩
  exact absurd hw.checksum (by decide)

end IPv4Datagram

/-! ## Segments -/

namespace TCPHeader

/-- The header in the first twenty bytes of a string, all fields big-endian. -/
def ofBytes (b : Bytes) : TCPHeader where
  sport := .ofNat (field b 0 2)
  dport := .ofNat (field b 2 2)
  seqno := ⟨.ofNat (field b 4 4)⟩
  ackno := ⟨.ofNat (field b 8 4)⟩
  doff := .ofNat (field b 12 1 / 16)
  urg := (field b 13 1).testBit 5
  ack := (field b 13 1).testBit 4
  psh := (field b 13 1).testBit 3
  rst := (field b 13 1).testBit 2
  syn := (field b 13 1).testBit 1
  fin := (field b 13 1).testBit 0
  win := .ofNat (field b 14 2)
  cksum := .ofNat (field b 16 2)
  uptr := .ofNat (field b 18 2)

variable {b : Bytes}

theorem reads_readFields (hlong : 20 ≤ b.length) :
    Reads NetParser.view b 0 readFields (ofBytes b) 20 := by
  have hread : Reads NetParser.view b 0 readFields { ofBytes b with
      doff := UInt8.ofNat (field b 12 1) >>> 4
      urg := UInt8.ofNat (field b 13 1) &&& UInt8.ofNat (2 ^ 5) != 0
      ack := UInt8.ofNat (field b 13 1) &&& UInt8.ofNat (2 ^ 4) != 0
      psh := UInt8.ofNat (field b 13 1) &&& UInt8.ofNat (2 ^ 3) != 0
      rst := UInt8.ofNat (field b 13 1) &&& UInt8.ofNat (2 ^ 2) != 0
      syn := UInt8.ofNat (field b 13 1) &&& UInt8.ofNat (2 ^ 1) != 0
      fin := UInt8.ofNat (field b 13 1) &&& UInt8.ofNat (2 ^ 0) != 0 } 20 :=
    (NetParser.reads_u16 (by omega)).bind ((NetParser.reads_u16 (by omega)).bind
      ((NetParser.reads_u32 (by omega)).bind ((NetParser.reads_u32 (by omega)).bind
      ((NetParser.reads_u8 (by omega)).bind ((NetParser.reads_u8 (by omega)).bind
      ((NetParser.reads_u16 (by omega)).bind ((NetParser.reads_u16 (by omega)).bind
      (NetParser.reads_u16 (by omega)).map)))))))
  have hdoff : UInt8.ofNat (field b 12 1) >>> 4 = .ofNat (field b 12 1 / 16) := by
    have hlt := field_lt b 12 1
    rw [← UInt8.toNat_inj, (byte_nibbles hlt).1, UInt8.toNat_ofNat', Nat.mod_eq_of_lt (by omega)]
  have hbit : ∀ k < 8, (UInt8.ofNat (field b 13 1) &&& UInt8.ofNat (2 ^ k) != 0) =
      (field b 13 1).testBit k := fun k hk => byte_testBit (field_lt b 13 1) hk
  rw [hdoff, hbit 5 (by decide), hbit 4 (by decide), hbit 3 (by decide), hbit 2 (by decide),
    hbit 1 (by decide), hbit 0 (by decide)] at hread
  exact hread

/-- What `parse` makes of the fields: a data offset that is too small ends it, otherwise the options
are skipped. -/
theorem parse_run_of_read {h : TCPHeader} {p p₁ : NetParser} (hread : readFields.run p = (h, p₁)) :
    (parse.run p).1.1 = h ∧ (parse.run p).2 =
      if h.doff < 5 then p₁
      else ((NetParser.removePrefix (h.doff.toNat * 4 - length)).run p₁).2 := by
  have hrun : parse.run p = if h.doff < 5 then ((h, .headerTooShort), p₁) else
      ((h, ((NetParser.removePrefix (h.doff.toNat * 4 - length)).run p₁).2.error),
        ((NetParser.removePrefix (h.doff.toNat * 4 - length)).run p₁).2) := by
    rw [parse, StateT.run_bind, hread]
    change StateT.run (if h.doff < 5 then _ else _) p₁ = _
    split_ifs <;> rfl
  rw [hrun]
  split_ifs
  · exact ⟨rfl, rfl⟩
  · exact ⟨rfl, rfl⟩

theorem takes_readFields : Takes NetParser.view readFields 20 :=
  NetParser.takes_u16.bind fun _ => NetParser.takes_u16.bind fun _ =>
    NetParser.takes_u32.bind fun _ => NetParser.takes_u32.bind fun _ =>
    NetParser.takes_u8.bind fun _ => NetParser.takes_u8.bind fun _ =>
    NetParser.takes_u16.bind fun _ => NetParser.takes_u16.bind fun _ => NetParser.takes_u16.map

end TCPHeader

namespace TCPSegment

variable {buffer : Buffer} {c : UInt32} {b : Bytes}

/-- The data offset, in words of four bytes. -/
def dataOffset (b : Bytes) : ℕ := field b 12 1 / 16

/-- **A well-formed segment**, under the sum `seed` for the pseudo-header. -/
structure WellFormed (seed : ℕ) (b : Bytes) : Prop where
  checksum : Verifies seed b
  long : 20 ≤ b.length
  doff : 5 ≤ dataOffset b
  header : 4 * dataOffset b ≤ b.length

/-- What is verified is parsed, and the error is that of the parser. -/
theorem parse_verified (old : TCPSegment) (hlen : buffer.str.length ≤ 65535)
    (hc : c.toNat < 2 ^ 20) :
    (¬ Verifies c.toNat buffer.str → (old.parse buffer c).1 = .badChecksum) ∧
    (Verifies c.toNat buffer.str → old.parse buffer c =
      ((TCPHeader.parse.run { buffer }).2.error,
        { header := (TCPHeader.parse.run { buffer }).1.1
          payload := (TCPHeader.parse.run { buffer }).2.buffer.str })) := by
  have hvalue : (({ sum := c } : InternetChecksum).add buffer.str).value = 0 ↔
      Verifies c.toNat buffer.str := InternetChecksum.value_eq_zero_iff_verifies (by omega)
  refine ⟨fun hno => ?_, fun hyes => ?_⟩
  · rw [parse, if_pos (mt hvalue.mp hno)]
  · rw [parse, if_neg (not_not.mpr (hvalue.mpr hyes))]

/-- **What the header's `parse` leaves of a string too short for the fields** is an error. -/
theorem parse_header_short (buffer : Buffer) (hshort : buffer.str.length < 20) :
    (TCPHeader.parse.run { buffer }).2.error ≠ .noError := by
  have hfields := TCPHeader.takes_readFields { buffer }
  rw [show NetParser.view { buffer } = some buffer.str from NetParser.view_eq_some.mpr ⟨rfl, rfl⟩,
    Option.bind_some, if_neg (by omega)] at hfields
  obtain ⟨h, p, hread⟩ : ∃ h p, TCPHeader.readFields.run { buffer } = (h, p) := ⟨_, _, rfl⟩
  rw [hread] at hfields
  have hafter : (TCPHeader.parse.run { buffer }).2.view = none := by
    rw [(TCPHeader.parse_run_of_read hread).2]
    split_ifs
    · exact hfields
    · exact (NetParser.takes_removePrefix _ _).trans (by rw [hfields, Option.bind_none])
  intro hok
  cases hafter.symm.trans (NetParser.view_eq_some.mpr ⟨hok, rfl⟩)

/-- **What the header's `parse` leaves of a string long enough for the fields**: an offset that is
too small is not an error of the parser, one that is too large is. -/
theorem parse_header_long (buffer : Buffer) (hlong : 20 ≤ buffer.str.length) :
    (TCPHeader.parse.run { buffer }).1.1 = .ofBytes buffer.str ∧
    (dataOffset buffer.str < 5 → (TCPHeader.parse.run { buffer }).2.error = .noError) ∧
    (5 ≤ dataOffset buffer.str → (TCPHeader.parse.run { buffer }).2.view =
      if 4 * dataOffset buffer.str ≤ buffer.str.length
        then some (buffer.str.drop (4 * dataOffset buffer.str)) else none) := by
  obtain ⟨p, hread, hview⟩ := TCPHeader.reads_readFields hlong { buffer }
    (NetParser.view_eq_some.mpr ⟨rfl, rfl⟩)
  have hdoff : (TCPHeader.ofBytes buffer.str).doff.toNat = dataOffset buffer.str := by
    have hlt := field_lt buffer.str 12 1
    exact (UInt8.toNat_ofNat' ..).trans (Nat.mod_eq_of_lt (by omega))
  have hless : (TCPHeader.ofBytes buffer.str).doff < 5 ↔ dataOffset buffer.str < 5 := by
    rw [UInt8.lt_iff_toNat_lt, hdoff]
    rfl
  obtain ⟨hheader, hrest⟩ := TCPHeader.parse_run_of_read hread
  rw [hrest]
  refine ⟨hheader, fun hsmall => ?_, fun hlarge => ?_⟩
  · rw [if_pos (hless.mpr hsmall)]
    exact (NetParser.view_eq_some.mp hview).1
  · rw [if_neg (mt hless.mp (Nat.not_lt.mpr hlarge)), NetParser.takes_removePrefix, hview, hdoff,
      Option.bind_some, List.drop_drop, List.length_drop, TCPHeader.length]
    refine if_congr (by omega) ?_ rfl
    rw [show 20 + (dataOffset buffer.str * 4 - 20) = 4 * dataOffset buffer.str by omega]

/-- **When `parse` accepts exactly the well-formed segments**, with the header and the payload that
are there: unless the checksum verifies and the data offset is too small for the header. -/
theorem segment_parse_exact_iff (old : TCPSegment) (buffer : Buffer)
    (hlen : buffer.str.length ≤ 65535) (hc : c.toNat < 2 ^ 20) :
    (((old.parse buffer c).1 = .noError ↔ WellFormed c.toNat buffer.str) ∧
      ((old.parse buffer c).1 = .noError → (old.parse buffer c).2 =
        { header := .ofBytes buffer.str
          payload := buffer.str.drop (4 * dataOffset buffer.str) })) ↔
      ¬ (Verifies c.toNat buffer.str ∧ 20 ≤ buffer.str.length ∧ dataOffset buffer.str < 5) := by
  obtain ⟨hbad, hgood⟩ := parse_verified old hlen hc
  by_cases hv : Verifies c.toNat buffer.str
  swap
  · rw [hbad hv]
    exact iff_of_true ⟨iff_of_false (by simp) fun hw => hv hw.checksum, nofun⟩ fun h => hv h.1
  have hshort := parse_header_short buffer
  have hlong := parse_header_long buffer
  rw [hgood hv]
  generalize TCPHeader.parse.run { buffer } = out at hshort hlong ⊢
  rcases Nat.lt_or_ge buffer.str.length 20 with hl | hl
  · refine iff_of_true ⟨iff_of_false (hshort hl) fun hw => ?_, fun hok => absurd hok (hshort hl)⟩
      fun h => ?_
    · exact Nat.not_lt.mpr hw.long hl
    · omega
  obtain ⟨hheader, hsmall, hlarge⟩ := hlong hl
  rcases Nat.lt_or_ge (dataOffset buffer.str) 5 with hd | hd
  · refine iff_of_false (fun h => ?_) (not_not.mpr ⟨hv, hl, hd⟩)
    exact Nat.not_lt.mpr (h.1.mp (hsmall hd)).doff hd
  · have hview := hlarge hd
    refine iff_of_true ?_ fun h => Nat.not_lt.mpr hd h.2.2
    split_ifs at hview with hfits
    · obtain ⟨hok, hstr⟩ := NetParser.view_eq_some.mp hview
      refine ⟨iff_of_true hok ⟨hv, hl, hd, hfits⟩, fun _ => ?_⟩
      rw [hheader, hstr]
    · have hno : out.2.error ≠ .noError := fun hok => by
        cases hview.symm.trans (NetParser.view_eq_some.mpr ⟨hok, rfl⟩)
      exact ⟨iff_of_false hno fun hw => hfits hw.header, fun hok => absurd hok hno⟩

/-- A segment of nothing but a header that verifies. -/
theorem segment_parse_exact_header :
    let b : Bytes := [0, 0, 0, 0, 0, 0, 0, 0, 0, 0, 0, 0, 0x50, 0, 0, 0, 0xaf, 0xff, 0, 0]
    WellFormed 0 b ∧ (({} : TCPSegment).parse (.ofString b)).1 = .noError ∧
      (({} : TCPSegment).parse (.ofString b)).2 =
        { header := .ofBytes b, payload := b.drop (4 * dataOffset b) } := by
  intro b
  have hw : WellFormed 0 b := ⟨by decide, by decide, by decide, by decide⟩
  obtain ⟨hiff, hfields⟩ := (segment_parse_exact_iff {} (.ofString b) (c := 0) (by decide)
    (by decide)).mpr (by decide)
  exact ⟨hw, hiff.mpr hw, hfields (hiff.mpr hw)⟩

/-- Twenty bytes that verify are accepted with a data offset of zero. -/
theorem small_offset_accepted : ∃ buffer : Buffer, buffer.str.length ≤ 65535 ∧
    (({} : TCPSegment).parse buffer 0).1 = .noError ∧ ¬ WellFormed 0 buffer.str := by
  refine ⟨.ofString [0xff, 0xff, 0, 0, 0, 0, 0, 0, 0, 0, 0, 0, 0, 0, 0, 0, 0, 0, 0, 0], by decide,
    by decide, fun hw => ?_⟩
  exact absurd hw.doff (by decide)

end TCPSegment
