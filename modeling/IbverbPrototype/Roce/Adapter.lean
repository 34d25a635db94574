import IbverbPrototype.Roce.InvariantHeaders

/-! The receiving end of the wire format: what an adapter takes out of a frame for one of its
queue pairs, and what becomes of a frame whose bits are altered on the way. -/
namespace IbverbPrototype.Roce
open Foundations Foundations.ByteOrder Foundations.CheckedMemory Address

/-- A queue pair, by the addresses of its port and its number. -/
structure QueuePair where
  mac : Vector Byte 6
  gid : Vector Byte 16
  number : Nat

/-- Bytes behind the Ethernet header that are no payload. -/
def overhead : Nat := sizeofIbHeaders+4

/-- The last four bytes are the checksum of the headers and the payload before them. -/
def sealed (body : List Byte) : Bool :=
  body.drop (body.length-4) =
    toLittle 4 (icrc (body.take sizeofIbHeaders) (slice body sizeofIbHeaders (body.length-overhead)))

/-- Both headers name the queue pair, in an unreliable datagram with the key of every queue. -/
def addressed (q : QueuePair) (ethernet : WireFormat.Ethernet) (t : WireFormat.Transport) : Bool :=
  ethernet.dest = q.mac.toList ∧ ethernet.etherType = 0x8915 ∧ t.ipVersion = 6 ∧ t.nextHeader = 27 ∧
    t.destGid = q.gid.toList ∧ t.opcode = 0x64 ∧ t.transportVersion = 0 ∧ t.partitionKey = 0xFFFF ∧
    t.destinationQp = q.number ∧ t.queueKey = 0x11111111

/-- The message an adapter takes out of a frame; frames of another length than they say, for
others or with another checksum are dropped. -/
def admits (q : QueuePair) (frame : List Byte) : Option (List Byte) :=
  let body := frame.drop sizeofEthHdr
  let t := WireFormat.parseTransport body
  if overhead ≤ body.length ∧ body.length = 40+t.payloadLength ∧ addressed q (WireFormat.parseEthernet frame) t ∧
      sealed body then
    some (slice body sizeofIbHeaders (body.length-overhead-t.padCount))
  else none

theorem parseEthernet_take (frame : List Byte) :
    WireFormat.parseEthernet (frame.take sizeofEthHdr) = WireFormat.parseEthernet frame := by
  have hslice (off n : Nat) (hoff : off+n ≤ 14) : slice (frame.take sizeofEthHdr) off n = slice frame off n := by
    have hinner := @slice_slice _ frame 0 sizeofEthHdr off n hoff
    rwa [Nat.zero_add] at hinner
  simp only [WireFormat.parseEthernet, hslice 0 6 (by decide), hslice 6 6 (by decide), hslice 12 2 (by decide)]

theorem parseEthernet_append {header : List Byte} (rest : List Byte) (h : sizeofEthHdr ≤ header.length) :
    WireFormat.parseEthernet (header ++ rest) = WireFormat.parseEthernet header := by
  rw [← parseEthernet_take, List.take_append_of_le_length h, parseEthernet_take]

theorem parseTransport_append {header : List Byte} (rest : List Byte) (h : sizeofIbHeaders ≤ header.length) :
    WireFormat.parseTransport (header ++ rest) = WireFormat.parseTransport header := by
  have hlen : 60 ≤ header.length := h
  have hslice (off n : Nat) (hoff : off+n ≤ 60) : slice (header ++ rest) off n = slice header off n :=
    slice_append_left header rest (by omega)
  simp [WireFormat.parseTransport, hslice]

/-- A frame put together from the headers of a packet, cut behind its Ethernet header. -/
theorem frame_split {header : List Byte} (hh : header.length = dataOffset) (payload trailer : List Byte) :
    (header.take sizeofEthHdr).length = sizeofEthHdr ∧ (header.drop sizeofEthHdr).length = sizeofIbHeaders ∧
    header ++ payload ++ trailer = header.take sizeofEthHdr ++ (header.drop sizeofEthHdr ++ payload ++ trailer) := by
  refine ⟨List.length_take_of_le (by rw [hh]; decide),?_,?_⟩
  · rw [List.length_drop, hh]
    rfl
  · rw [← List.append_assoc, ← List.append_assoc, List.take_append_drop]

/-- The three parts of what follows the Ethernet header. -/
theorem body_parts (payload : List Byte) {header trailer : List Byte} (hh : header.length = sizeofIbHeaders)
    (ht : trailer.length = 4) :
    (header ++ payload ++ trailer).length = overhead+payload.length ∧
    (header ++ payload ++ trailer).take sizeofIbHeaders = header ∧
    slice (header ++ payload ++ trailer) sizeofIbHeaders payload.length = payload ∧
    (header ++ payload ++ trailer).drop (overhead+payload.length-4) = trailer := by
  have hover : overhead = sizeofIbHeaders+4 := rfl
  have hsum : (header ++ payload).length = overhead+payload.length-4 := by
    rw [List.length_append]
    omega
  refine ⟨?_,?_,slice_middle _ _ _ hh.symm rfl,List.drop_left' hsum⟩
  · rw [List.length_append]
    omega
  · rw [List.append_assoc, List.take_left' hh]

theorem sealed_iff {header payload trailer : List Byte} (hh : header.length = sizeofIbHeaders)
    (ht : trailer.length = 4) :
    sealed (header ++ payload ++ trailer) = true ↔ trailer = toLittle 4 (icrc header payload) := by
  obtain ⟨hlen,htake,hslice,hdrop⟩ := body_parts payload hh ht
  rw [sealed, decide_eq_true_iff, hlen, hdrop, htake, Nat.add_sub_cancel_left, hslice]

/-- What an adapter does with a frame, by the parts the frame was put together from. -/
theorem admits_parts {ethernet header payload trailer : List Byte} (q : QueuePair)
    (he : ethernet.length = sizeofEthHdr) (hh : header.length = sizeofIbHeaders) (ht : trailer.length = 4) :
    admits q (ethernet ++ (header ++ payload ++ trailer)) =
      if 24+payload.length = (WireFormat.parseTransport header).payloadLength ∧
          addressed q (WireFormat.parseEthernet ethernet) (WireFormat.parseTransport header) ∧
          trailer = toLittle 4 (icrc header payload) then
        some (payload.take (payload.length-(WireFormat.parseTransport header).padCount))
      else none := by
  obtain ⟨hlen,-,hslice,-⟩ := body_parts payload hh ht
  have hparse : WireFormat.parseTransport (header ++ payload ++ trailer) = WireFormat.parseTransport header := by
    rw [List.append_assoc]
    exact parseTransport_append _ hh.ge
  have hover : overhead = 64 := rfl
  rw [admits, List.drop_left' he, parseEthernet_append _ he.ge]
  simp only [hparse, hlen, sealed_iff hh ht, Nat.add_sub_cancel_left, ← slice_take _ _ (Nat.sub_le _ _), hslice]
  refine if_congr ?_ rfl rfl
  rw [and_iff_right (Nat.le_add_right _ _)]
  refine and_congr_left' ?_
  omega

private theorem queuePair_value (qp : BitVec 32) : bigValue (toLittle 3 qp).reverse = qp.toNat % 2^24 := by
  rw [bigValue_reverse, littleValue_toLittle]
  rfl

/-- The initialised transport headers address one queue pair and announce a whole payload. -/
theorem init_headers_addressed (q : QueuePair) (ethernet : WireFormat.Ethernet) (src dest : Addr) (qp : BitVec 32) :
    let t := WireFormat.parseTransport ((slice (initInvariantHeaders zeroPacket src dest qp).1.bytes 0 dataOffset).drop
      sizeofEthHdr)
    t.payloadLength = 24+msgSize ∧ t.padCount = 0 ∧
    (addressed q ethernet t = true ↔ (ethernet.dest = q.mac.toList ∧ ethernet.etherType = 0x8915) ∧
      q.gid = dest.ipv6 ∧ q.number = qp.toNat % 2^24) := by
  intro t
  have htransport : (slice (initInvariantHeaders zeroPacket src dest qp).1.bytes 0 dataOffset).drop sizeofEthHdr =
      [0x60, 0, 0, 0, 0x23, 0x04, 27, 1] ++ src.ipv6.toList ++ dest.ipv6.toList ++ [0x64, 0x40, 0xFF, 0xFF, 0] ++
        (toLittle 3 qp).reverse ++ [0, 0, 0, 0, 0x11, 0x11, 0x11, 0x11, 0, 0, 0x01, 0x82] := by
    rw [init_headers_bytes]
    exact List.drop_left' (by simp [sizeofEthHdr])
  have hparsed : t.ipVersion = 6 ∧ t.payloadLength = 24+msgSize ∧ t.nextHeader = 27 ∧
      t.destGid = dest.ipv6.toList ∧ t.opcode = 0x64 ∧ t.padCount = 0 ∧ t.transportVersion = 0 ∧
      t.partitionKey = 0xFFFF ∧ t.destinationQp = qp.toNat % 2^24 ∧ t.queueKey = 0x11111111 := by
    simp only [t, htransport]
    simp [WireFormat.parseTransport, slice, List.drop_append, List.drop_eq_nil_of_le, queuePair_value]
    decide
  obtain ⟨hversion,hlength,hnext,hgid,hopcode,hpad,htransportVersion,hkey,hqp,hqkey⟩ := hparsed
  refine ⟨hlength,hpad,?_⟩
  rw [addressed, hversion, hnext, hgid, hopcode, htransportVersion, hkey, hqp, hqkey, decide_eq_true_iff]
  simp only [true_and, and_true, Vector.toList_inj, and_assoc]
  rw [eq_comm (a := dest.ipv6), eq_comm (a := qp.toNat % 2^24)]

theorem init_headers_ethernet (src dest : Addr) (qp : BitVec 32) :
    WireFormat.parseEthernet (slice (initInvariantHeaders zeroPacket src dest qp).1.bytes 0 dataOffset) =
      ⟨dest.mac.toList, src.mac.toList, 0x8915⟩ := by
  rw [init_headers_bytes]
  simp [WireFormat.parseEthernet, slice, List.drop_append, List.drop_eq_nil_of_le]
  decide

/-- What the packet's headers and a payload get under any Ethernet header. -/
theorem init_body_admitted (q : QueuePair) (src dest : Addr) (qp : BitVec 32) {ethernet payload : List Byte}
    (he : ethernet.length = sizeofEthHdr) (hp : payload.length = msgSize) :
    let initialised := initInvariantHeaders zeroPacket src dest qp
    admits q (ethernet ++ ((slice initialised.1.bytes 0 dataOffset).drop sizeofEthHdr ++ payload ++
        toLittle 4 (crc32 initialised.2 payload))) =
      if ((WireFormat.parseEthernet ethernet).dest = q.mac.toList ∧
          (WireFormat.parseEthernet ethernet).etherType = 0x8915) ∧
          q.gid = dest.ipv6 ∧ q.number = qp.toNat % 2^24 then some payload else none := by
  intro initialised
  have hmsg : msgSize = 8940 := rfl
  obtain ⟨-,hlen,-⟩ := frame_split (header_length initialised.1) payload []
  have hcrc : crc32 initialised.2 payload =
      icrc ((slice initialised.1.bytes 0 dataOffset).drop sizeofEthHdr) payload := by
    rw [header_bytes, List.drop_left' (EthHdr.bytes_length _), icrc, ← crc32_extend _ (by omega),
      ← ibHeaderChecksum_eq]
    rfl
  obtain ⟨hlength,hpad,haddressed⟩ :=
    init_headers_addressed q (WireFormat.parseEthernet ethernet) src dest qp
  rw [admits_parts q he hlen (toLittle_length 4 _), hcrc, hlength, hpad, Nat.sub_zero, List.take_length]
  refine if_congr ?_ rfl rfl
  rw [haddressed, hp, and_iff_right rfl, and_iff_left rfl]

/-- A frame of the packet goes to the queue pair asked for, whatever its payload is, and to no
other one. -/
theorem init_frame_admitted (q : QueuePair) (src dest : Addr) (qp : BitVec 32) {payload : List Byte}
    (hp : payload.length = msgSize) :
    let initialised := initInvariantHeaders zeroPacket src dest qp
    admits q (slice initialised.1.bytes 0 dataOffset ++ payload ++ toLittle 4 (crc32 initialised.2 payload)) =
      if q.mac = dest.mac ∧ q.gid = dest.ipv6 ∧ q.number = qp.toNat % 2^24 then some payload else none := by
  intro initialised
  obtain ⟨htake,-,hsplit⟩ := frame_split (header_length initialised.1) payload
    (toLittle 4 (crc32 initialised.2 payload))
  rw [hsplit, init_body_admitted q src dest qp htake hp, parseEthernet_take, init_headers_ethernet]
  simp only [and_true, Vector.toList_inj, eq_comm (a := dest.mac)]

end IbverbPrototype.Roce
