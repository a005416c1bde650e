import Sponge.Wire.Parser

/-!
# Wire/Ethernet — frames and ARP messages

`ethernet_header.cc`, `ethernet_frame.cc`, `arp_message.cc`.  What is serialised is parsed back as
it was: a frame with its header and the bytes of its payload (`EthernetFrame.parse_serialize`), an
ARP message with all its fields (`ARPMessage.parse_serialize`).

The other way round, every string long enough for a header or a message is one that was written, so
what is parsed from it is written back as it was.  An ARP message that is too short is rejected
(`ARPMessage.arp_codec_exact`), a frame that is too short is not: the header's `parse` notices it,
but tells only its caller, who does not listen (`EthernetFrame.framing_exact_iff`).
-/

open Codec

/-- Helper type for an Ethernet address (an array of six bytes). -/
abbrev EthernetAddress := Vector UInt8 6

/-- `ETHERNET_BROADCAST`. -/
def ethernetBroadcast : EthernetAddress := #v[0xff, 0xff, 0xff, 0xff, 0xff, 0xff]

/-- `for (auto &byte : address) byte = p.u8();` -/
def NetParser.ethernetAddress : StateM NetParser EthernetAddress := do
  let b₀ ← u8
  let b₁ ← u8
  let b₂ ← u8
  let b₃ ← u8
  let b₄ ← u8
  let b₅ ← u8
  return #v[b₀, b₁, b₂, b₃, b₄, b₅]

/-- `for (auto &byte : address) NetUnparser::u8(ret, byte);` -/
def NetUnparser.ethernetAddress (ret : Bytes) (address : EthernetAddress) : Bytes :=
  address.toList.foldl u8 ret

/-- The loop over the six bytes of an address. -/
theorem NetUnparser.ethernetAddress_eq (ret : Bytes) (address : EthernetAddress) :
    ethernetAddress ret address = ret ++ address.toList := by
  have hfold : ∀ (l ret : Bytes), l.foldl u8 ret = ret ++ l := by
    intro l
    induction l with
    | nil => simp
    | cons b l ih => simp [ih, u8, unparseInt]
  exact hfold _ _

/-- **An address is read as it is written.** -/
theorem NetParser.yields_ethernetAddress (address : EthernetAddress) :
    Yields view ethernetAddress address.toList address := by
  obtain ⟨⟨l⟩, hl⟩ := address
  match l, hl with
  | [b₀, b₁, b₂, b₃, b₄, b₅], _ =>
    exact (yields_byte b₀).bind ((yields_byte b₁).bind ((yields_byte b₂).bind
      ((yields_byte b₃).bind ((yields_byte b₄).bind (yields_byte b₅).map))))

/-- Any six bytes are an address. -/
theorem writes_ethernetAddress : Writes (fun address : EthernetAddress => address.toList) 6 :=
  fun bs hlen => ⟨⟨⟨bs⟩, hlen⟩, rfl⟩

/-! ## Ethernet frames -/

/-- `EthernetHeader`. -/
structure EthernetHeader where
  dst : EthernetAddress := .replicate 6 0
  src : EthernetAddress := .replicate 6 0
  type : UInt16 := 0
  deriving DecidableEq, Repr

namespace EthernetHeader

/-- Ethernet header length in bytes. -/
def length : ℕ := 14

def typeIPv4 : UInt16 := 0x800

def typeARP : UInt16 := 0x806

def parse (h : EthernetHeader) : StateM NetParser (EthernetHeader × ParseResult) := do
  if (← get).buffer.size < length then
    return (h, .packetTooShort)
  else
    let dst ← NetParser.ethernetAddress
    let src ← NetParser.ethernetAddress
    let type ← NetParser.u16
    return ({ dst, src, type }, (← get).error)

def serialize (h : EthernetHeader) : Bytes :=
  let ret := []
  let ret := NetUnparser.ethernetAddress ret h.dst
  let ret := NetUnparser.ethernetAddress ret h.src
  NetUnparser.u16 ret h.type

theorem serialize_eq (h : EthernetHeader) :
    h.serialize = h.dst.toList ++ (h.src.toList ++ (bigEndian 2 h.type.toNat ++ [])) := by
  simp [serialize, NetUnparser.ethernetAddress_eq, NetUnparser.u16, NetUnparser.unparseInt]

theorem length_serialize (h : EthernetHeader) : h.serialize.length = length := by
  simp [serialize_eq, length]

/-- **A header is parsed back**, whatever was there before. -/
theorem yields_parse (old h : EthernetHeader) :
    Yields NetParser.view old.parse h.serialize (h, .noError) := by
  refine NetParser.yields_unless_short h.length_serialize.ge ?_
  rw [serialize_eq]
  exact (NetParser.yields_ethernetAddress h.dst).bind ((NetParser.yields_ethernetAddress h.src).bind
    ((NetParser.yields_u16 h.type).bind (NetParser.yields_getError fun error => (h, error))))

/-- Headers write every string of their length. -/
theorem writes_serialize : Writes serialize length := by
  intro bs hlen
  obtain ⟨⟨dst, src, type⟩, hbs⟩ := writes_ethernetAddress.append
    (writes_ethernetAddress.append NetParser.writes_u16) bs hlen
  refine ⟨{ dst, src, type }, ?_⟩
  rw [serialize_eq, List.append_nil]
  exact hbs

end EthernetHeader

/-- A header, and a payload that is not looked at. -/
structure EthernetFrame where
  header : EthernetHeader := {}
  payload : BufferList := {}
  deriving DecidableEq, Repr

namespace EthernetFrame

/-- `parse`; what the header's `parse` returns is not looked at. -/
def parse (f : EthernetFrame) (buffer : Buffer) : ParseResult × EthernetFrame :=
  let r := f.header.parse.run { buffer }
  (r.2.error, { header := r.1.1, payload := .ofBuffer r.2.buffer })

def serialize (f : EthernetFrame) : BufferList :=
  (BufferList.ofString f.header.serialize).append f.payload

/-- **A frame is parsed back** from its bytes, its payload now in one piece. -/
theorem parse_serialize (old f : EthernetFrame) : ∃ b : Buffer, b.str = f.payload.concatenate ∧
    old.parse (.ofString f.serialize.concatenate) =
      (.noError, { header := f.header, payload := .ofBuffer b }) := by
  obtain ⟨p, hrun, hview⟩ := EthernetHeader.yields_parse old.header f.header
    { buffer := .ofString f.serialize.concatenate } f.payload.concatenate
    (NetParser.view_eq_some.mpr ⟨rfl, by simp [serialize]⟩)
  obtain ⟨hok, hstr⟩ := NetParser.view_eq_some.mp hview
  refine ⟨p.buffer, hstr, ?_⟩
  rw [parse, hrun]
  simp only [hok]

/-- A string too short for a header is taken for a payload, without an error. -/
theorem parse_short (old : EthernetFrame) {buffer : Buffer}
    (hshort : buffer.str.length < EthernetHeader.length) :
    old.parse buffer = (.noError, { header := old.header, payload := .ofBuffer buffer }) := by
  rw [parse, EthernetHeader.parse, NetParser.run_of_short hshort]
  rfl

/-- **A string long enough for a header is written back** from what is parsed of it. -/
theorem parse_long (old : EthernetFrame) {buffer : Buffer}
    (hlong : EthernetHeader.length ≤ buffer.str.length) :
    (old.parse buffer).1 = .noError ∧
      (old.parse buffer).2.serialize.concatenate = buffer.str := by
  obtain ⟨header, hheader⟩ := EthernetHeader.writes_serialize
    (buffer.str.take EthernetHeader.length) (List.length_take_of_le hlong)
  have hbytes : header.serialize ++ buffer.str.drop EthernetHeader.length = buffer.str := by
    rw [hheader, List.take_append_drop]
  obtain ⟨p, hrun, hview⟩ := EthernetHeader.yields_parse old.header header { buffer }
    (buffer.str.drop EthernetHeader.length) (NetParser.view_eq_some.mpr ⟨rfl, hbytes.symm⟩)
  obtain ⟨hok, hstr⟩ := NetParser.view_eq_some.mp hview
  rw [parse, hrun]
  refine ⟨hok, ?_⟩
  rw [serialize, BufferList.concatenate_append, BufferList.concatenate_ofString,
    BufferList.concatenate_ofBuffer, hstr, hbytes]

/-- **When framing loses nothing.**  A frame is always parsed back from its bytes, with its header
and the bytes of its payload; bytes that are accepted are written back from the frame that is parsed
of them exactly if they are enough for a header. -/
theorem framing_exact_iff (old : EthernetFrame) :
    (∀ f : EthernetFrame, ∃ f', old.parse (.ofString f.serialize.concatenate) = (.noError, f') ∧
      f'.header = f.header ∧ f'.payload.concatenate = f.payload.concatenate) ∧
    ∀ buffer : Buffer, ((old.parse buffer).1 = .noError →
      (old.parse buffer).2.serialize.concatenate = buffer.str) ↔ 14 ≤ buffer.str.length := by
  refine ⟨fun f => ?_, fun buffer => ⟨fun hexact => ?_, fun hlong _ => (old.parse_long hlong).2⟩⟩
  · obtain ⟨b, hb, hparse⟩ := parse_serialize old f
    exact ⟨_, hparse, rfl, hb⟩
  · by_contra hshort
    have hparse := old.parse_short (Nat.not_le.mp hshort)
    rw [hparse] at hexact
    -- what is written back has a header
    have hlen := congrArg List.length (hexact rfl)
    rw [serialize, BufferList.concatenate_append, BufferList.concatenate_ofString,
      BufferList.concatenate_ofBuffer, List.length_append, EthernetHeader.length_serialize,
      EthernetHeader.length] at hlen
    omega

/-- The empty string is accepted by a fresh frame, and is not written back. -/
theorem short_frame_accepted : (({} : EthernetFrame).parse (.ofString [])).1 = .noError ∧
    (({} : EthernetFrame).parse (.ofString [])).2.serialize.concatenate ≠ [] := by
  decide

end EthernetFrame

/-! ## ARP messages -/

/-- ARP type for Ethernet as link-layer protocol. -/
def ARPMessage.typeEthernet : UInt16 := 1

/-- `ARPMessage`, with its defaults. -/
structure ARPMessage where
  hardwareType : UInt16 := ARPMessage.typeEthernet
  protocolType : UInt16 := EthernetHeader.typeIPv4
  hardwareAddressSize : UInt8 := 6
  protocolAddressSize : UInt8 := 4
  opcode : UInt16 := 0
  senderEthernetAddress : EthernetAddress := .replicate 6 0
  senderIpAddress : UInt32 := 0
  targetEthernetAddress : EthernetAddress := .replicate 6 0
  targetIpAddress : UInt32 := 0
  deriving DecidableEq, Repr

namespace ARPMessage

/-- ARP message length in bytes. -/
def length : ℕ := 28

def opcodeRequest : UInt16 := 1

def opcodeReply : UInt16 := 2

/-- `supported()`. -/
def supported (m : ARPMessage) : Bool :=
  m.hardwareType == typeEthernet && m.protocolType == EthernetHeader.typeIPv4 &&
    m.hardwareAddressSize == 6 && m.protocolAddressSize == 4 &&
    (m.opcode == opcodeRequest || m.opcode == opcodeReply)

/-- The addresses of a message whose first five fields are read. -/
def readAddresses (m : ARPMessage) : StateM NetParser (ARPMessage × ParseResult) := do
  let senderEthernetAddress ← NetParser.ethernetAddress
  let senderIpAddress ← NetParser.u32
  let targetEthernetAddress ← NetParser.ethernetAddress
  let targetIpAddress ← NetParser.u32
  return ({ m with
    senderEthernetAddress, senderIpAddress, targetEthernetAddress, targetIpAddress },
    (← get).error)

def readMessage (m : ARPMessage) : StateM NetParser (ARPMessage × ParseResult) := do
  if (← get).buffer.size < length then
    return (m, .packetTooShort)
  else
    let hardwareType ← NetParser.u16
    let protocolType ← NetParser.u16
    let hardwareAddressSize ← NetParser.u8
    let protocolAddressSize ← NetParser.u8
    let opcode ← NetParser.u16
    let m := { m with
      hardwareType, protocolType, hardwareAddressSize, protocolAddressSize, opcode }
    if m.supported = false then return (m, .unsupported) else m.readAddresses

def parse (m : ARPMessage) (buffer : Buffer) : ParseResult × ARPMessage :=
  let r := m.readMessage.run { buffer }
  (r.1.2, r.1.1)

/-- The string that `serialize` builds. -/
def fields (m : ARPMessage) : Bytes :=
  let ret := []
  let ret := NetUnparser.u16 ret m.hardwareType
  let ret := NetUnparser.u16 ret m.protocolType
  let ret := NetUnparser.u8 ret m.hardwareAddressSize
  let ret := NetUnparser.u8 ret m.protocolAddressSize
  let ret := NetUnparser.u16 ret m.opcode
  let ret := NetUnparser.ethernetAddress ret m.senderEthernetAddress
  let ret := NetUnparser.u32 ret m.senderIpAddress
  let ret := NetUnparser.ethernetAddress ret m.targetEthernetAddress
  NetUnparser.u32 ret m.targetIpAddress

def serialize (m : ARPMessage) : Except Exn Bytes :=
  if m.supported = false then .error (.runtimeError ("ARPMessage::serialize(): " ++
    "unsupported field combination (must be Ethernet/IP, and request or reply)"))
  else .ok m.fields

/-- The addresses come after the eight bytes that say what they are. -/
theorem fields_eq (m : ARPMessage) : m.fields =
    bigEndian 2 m.hardwareType.toNat ++ (bigEndian 2 m.protocolType.toNat ++
      (bigEndian 1 m.hardwareAddressSize.toNat ++ (bigEndian 1 m.protocolAddressSize.toNat ++
      (bigEndian 2 m.opcode.toNat ++ (m.senderEthernetAddress.toList ++
      (bigEndian 4 m.senderIpAddress.toNat ++ (m.targetEthernetAddress.toList ++
      (bigEndian 4 m.targetIpAddress.toNat ++ [])))))))) := by
  simp [fields, NetUnparser.ethernetAddress_eq, NetUnparser.u8, NetUnparser.u16, NetUnparser.u32,
    NetUnparser.unparseInt]

/-- A message is 28 bytes long. -/
theorem length_fields (m : ARPMessage) : m.fields.length = length := by
  simp [fields_eq, length]

/-- **A supported message is read as it is written.** -/
theorem yields_readMessage (old : ARPMessage) {m : ARPMessage} (h : m.supported = true) :
    Yields NetParser.view old.readMessage m.fields (m, .noError) := by
  refine NetParser.yields_unless_short m.length_fields.ge ?_
  rw [fields_eq]
  refine (NetParser.yields_u16 m.hardwareType).bind ((NetParser.yields_u16 m.protocolType).bind
    ((NetParser.yields_u8 m.hardwareAddressSize).bind
    ((NetParser.yields_u8 m.protocolAddressSize).bind ((NetParser.yields_u16 m.opcode).bind ?_))))
  dsimp only
  split_ifs with hno
  · cases h.symm.trans hno
  exact (NetParser.yields_ethernetAddress m.senderEthernetAddress).bind
    ((NetParser.yields_u32 m.senderIpAddress).bind
    ((NetParser.yields_ethernetAddress m.targetEthernetAddress).bind
    ((NetParser.yields_u32 m.targetIpAddress).bind
    (NetParser.yields_getError fun error => (m, error)))))

/-- **A message is parsed back** from its bytes, whatever follows them. -/
theorem parse_serialize (old : ARPMessage) {m : ARPMessage} {bytes : Bytes} {buffer : Buffer}
    (h : m.serialize = .ok bytes) (hbuffer : bytes <+: buffer.str) :
    old.parse buffer = (.noError, m) := by
  unfold serialize at h
  split_ifs at h with hsup
  obtain rfl := Except.ok.inj h
  obtain ⟨rest, hrest⟩ := hbuffer
  obtain ⟨p, hrun, -⟩ := yields_readMessage old (by simpa using hsup) { buffer } rest
    (NetParser.view_eq_some.mpr ⟨rfl, hrest.symm⟩)
  rw [parse, hrun]

/-- Messages, supported or not, write every string of their length. -/
theorem writes_fields : Writes fields length := by
  intro bs hlen
  obtain ⟨⟨hardwareType, protocolType, hardwareAddressSize, protocolAddressSize, opcode,
      senderEthernetAddress, senderIpAddress, targetEthernetAddress, targetIpAddress⟩, hbs⟩ :=
    NetParser.writes_u16.append (NetParser.writes_u16.append (NetParser.writes_u8.append
      (NetParser.writes_u8.append (NetParser.writes_u16.append (writes_ethernetAddress.append
      (NetParser.writes_u32.append (writes_ethernetAddress.append NetParser.writes_u32)))))))
      bs hlen
  refine ⟨⟨hardwareType, protocolType, hardwareAddressSize, protocolAddressSize, opcode,
    senderEthernetAddress, senderIpAddress, targetEthernetAddress, targetIpAddress⟩, ?_⟩
  rw [fields_eq, List.append_nil]
  exact hbs

/-- The eight bytes of a message for Ethernet and IPv4, a request or a reply. -/
def Announces (b : Bytes) : Prop :=
  b.take 8 = [0, 1, 8, 0, 6, 4, 0, 1] ∨ b.take 8 = [0, 1, 8, 0, 6, 4, 0, 2]

/-- What the first eight bytes say. -/
theorem take_fields_eq_iff (m : ARPMessage) (opcode : UInt16) :
    m.fields.take 8 = bigEndian 2 1 ++ (bigEndian 2 0x800 ++ (bigEndian 1 6 ++ (bigEndian 1 4 ++
      (bigEndian 2 opcode.toNat ++ [])))) ↔
    m.hardwareType = typeEthernet ∧ m.protocolType = EthernetHeader.typeIPv4 ∧
      m.hardwareAddressSize = 6 ∧ m.protocolAddressSize = 4 ∧ m.opcode = opcode := by
  have hbytes : m.fields.take 8 = bigEndian 2 m.hardwareType.toNat ++
      (bigEndian 2 m.protocolType.toNat ++ (bigEndian 1 m.hardwareAddressSize.toNat ++
      (bigEndian 1 m.protocolAddressSize.toNat ++ (bigEndian 2 m.opcode.toNat ++ [])))) := by
    rw [fields_eq]
    rfl
  rw [hbytes, bigEndian_append_inj (UInt16.toNat_lt _) (by norm_num),
    bigEndian_append_inj (UInt16.toNat_lt _) (by norm_num),
    bigEndian_append_inj (UInt8.toNat_lt _) (by norm_num),
    bigEndian_append_inj (UInt8.toNat_lt _) (by norm_num),
    bigEndian_append_inj (UInt16.toNat_lt _) (UInt16.toNat_lt _), eq_self, and_true]
  simp only [← UInt16.toNat_inj, ← UInt8.toNat_inj]
  rfl

theorem supported_iff_announces (m : ARPMessage) : m.supported = true ↔ Announces m.fields := by
  have hrequest := m.take_fields_eq_iff opcodeRequest
  have hreply := m.take_fields_eq_iff opcodeReply
  refine Iff.trans ?_ (or_congr hrequest hreply).symm
  simp only [supported, Bool.and_eq_true, Bool.or_eq_true, beq_iff_eq, and_assoc, ← and_or_left]

theorem parse_short (old : ARPMessage) {buffer : Buffer} (hshort : buffer.str.length < length) :
    old.parse buffer = (.packetTooShort, old) := by
  rw [parse, readMessage, NetParser.run_of_short hshort]
  rfl

/-- What is not supported is noticed after five fields. -/
theorem parse_unsupported (old : ARPMessage) {m : ARPMessage} {buffer : Buffer} {rest : Bytes}
    (h : m.supported = false) (hbuffer : buffer.str = m.fields ++ rest) :
    (old.parse buffer).1 = .unsupported := by
  have hsplit : m.fields ++ rest =
      (bigEndian 2 m.hardwareType.toNat ++ (bigEndian 2 m.protocolType.toNat ++
        (bigEndian 1 m.hardwareAddressSize.toNat ++ (bigEndian 1 m.protocolAddressSize.toNat ++
        (bigEndian 2 m.opcode.toNat ++ []))))) ++ (m.fields ++ rest).drop 8 := by
    simp [fields_eq, bigEndian]
  have hview : NetParser.view { buffer } = some (m.fields ++ rest) :=
    NetParser.view_eq_some.mpr ⟨rfl, hbuffer⟩
  have hlen : length ≤ (m.fields ++ rest).length := by
    rw [List.length_append, length_fields]
    exact Nat.le_add_right ..
  rw [hsplit] at hview hlen
  obtain ⟨p, hrun, -⟩ : ∃ p, old.readMessage.run { buffer } =
      (({ old with
        hardwareType := m.hardwareType, protocolType := m.protocolType
        hardwareAddressSize := m.hardwareAddressSize
        protocolAddressSize := m.protocolAddressSize, opcode := m.opcode }, .unsupported), p) ∧
      p.view = some ((m.fields ++ rest).drop 8) := by
    refine NetParser.run_unless_short ?_ hview hlen
    refine (NetParser.yields_u16 m.hardwareType).bind ((NetParser.yields_u16 m.protocolType).bind
      ((NetParser.yields_u8 m.hardwareAddressSize).bind
      ((NetParser.yields_u8 m.protocolAddressSize).bind
      ((NetParser.yields_u16 m.opcode).bind ?_))))
    dsimp only
    split_ifs with hno
    · exact .pure _
    · exact absurd h hno
  rw [parse, hrun]

/-- **What `parse` makes of a string long enough for a message.** -/
theorem parse_long (old : ARPMessage) {buffer : Buffer} (hlong : length ≤ buffer.str.length) :
    ((old.parse buffer).1 = .noError ↔ Announces buffer.str) ∧
    ((old.parse buffer).1 = .noError →
      (old.parse buffer).2.serialize = .ok (buffer.str.take length)) := by
  obtain ⟨m, hm⟩ := writes_fields (buffer.str.take length) (List.length_take_of_le hlong)
  have hbuffer : buffer.str = m.fields ++ buffer.str.drop length := by
    rw [hm, List.take_append_drop]
  have hannounces : Announces buffer.str ↔ m.supported = true := by
    rw [supported_iff_announces, hm, Announces, Announces, List.take_take]
    rfl
  rw [hannounces]
  cases hsup : m.supported with
  | false =>
    rw [old.parse_unsupported hsup hbuffer]
    simp
  | true =>
    have hserialize : m.serialize = .ok m.fields := if_neg (by simp [hsup])
    rw [parse_serialize old hserialize ⟨_, hbuffer.symm⟩]
    exact ⟨iff_of_true rfl rfl, fun _ => hserialize.trans (congrArg Except.ok hm)⟩

/-- **The ARP codec is exact both ways.**  A message that is supported is 28 bytes, and is parsed
back from them whatever follows.  A string is accepted exactly if it has 28 bytes of which the first
eight announce a message that is supported, and its first 28 bytes are then those of the message
parsed. -/
theorem arp_codec_exact (old : ARPMessage) :
    (∀ m : ARPMessage, m.supported = true → ∃ bytes, m.serialize = .ok bytes ∧
      bytes.length = 28 ∧ ∀ buffer : Buffer, bytes <+: buffer.str →
        old.parse buffer = (.noError, m)) ∧
    ∀ buffer : Buffer,
      ((old.parse buffer).1 = .noError ↔ 28 ≤ buffer.str.length ∧ Announces buffer.str) ∧
      ((old.parse buffer).1 = .noError →
        (old.parse buffer).2.serialize = .ok (buffer.str.take 28)) := by
  refine ⟨fun m hsup => ?_, fun buffer => ?_⟩
  · have hserialize : m.serialize = .ok m.fields := if_neg (by simp [hsup])
    exact ⟨_, hserialize, m.length_fields, fun _ => parse_serialize old hserialize⟩
  · rcases Nat.lt_or_ge buffer.str.length length with hshort | hlong
    · rw [old.parse_short hshort]
      exact ⟨iff_of_false (by simp) fun h => Nat.not_lt.mpr h.1 hshort, nofun⟩
    · obtain ⟨haccepts, hback⟩ := old.parse_long hlong
      exact ⟨haccepts.trans (and_iff_right hlong).symm, hback⟩

/-- A request with a trailing byte. -/
theorem arp_codec_exact_request : ∃ bytes,
    ({ opcode := opcodeRequest, targetIpAddress := 5 } : ARPMessage).serialize = .ok bytes ∧
    ({} : ARPMessage).parse (.ofString (bytes ++ [0])) =
      (.noError, { opcode := opcodeRequest, targetIpAddress := 5 }) := by
  obtain ⟨bytes, hserialize, -, hparse⟩ := (arp_codec_exact {}).1
    { opcode := opcodeRequest, targetIpAddress := 5 } rfl
  exact ⟨bytes, hserialize, hparse _ (List.prefix_append ..)⟩

end ARPMessage
