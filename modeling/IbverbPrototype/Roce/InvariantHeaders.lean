import IbverbPrototype.Address.LookupAddr
import IbverbPrototype.Roce.HeaderChecksum
import IbverbPrototype.Roce.HostSend
import IbverbPrototype.Roce.PrintHeaders
import IbverbPrototype.Roce.WireFormat

/-! Header initialisation: what an independent reader of the wire format finds in
the bytes it leaves. -/
namespace IbverbPrototype.Roce
open Foundations.ByteOrder Foundations.CheckedMemory Address

/-- The static packet before its first use. -/
def zeroPacket : Packet where
  etherHeader := ⟨Vector.replicate 6 0, Vector.replicate 6 0, 0⟩
  ibHeader :=
    { grh := ⟨0, 0, 0, 0, 0, 0, 0, Vector.replicate 16 0, Vector.replicate 16 0⟩
      bth := ⟨0, 0, 0, 0, 0, 0, 0, 0, 0, 0, 0⟩
      deth := ⟨0, 0, 0⟩ }
  data := Vector.replicate msgSize 0

/-- Payload, transport headers and checksum, in 32 bits. -/
def ibLength : BitVec 32 := BitVec.ofNat 32 msgSize + ibTransportHeaderSize + checksumSize

/-- The updated packet and the checksum of its headers. -/
def initInvariantHeaders (packet : Packet) (src dest : Addr) (qp : BitVec 32) : Packet × BitVec 32 :=
  let etherHeader := { packet.etherHeader with
    hProto := htons 0x8915
    hDest := dest.mac
    hSource := src.mac }
  let grh := { packet.ibHeader.grh with
    ipVersion := 6
    nextHeader := 27
    hopLimit := 1
    source := src.ipv6
    dest := dest.ipv6
    payloadLength := htons (ibLength.setWidth 16) }
  let bth := { packet.ibHeader.bth with
    opcode := 0x64
    sollicitedEvent := 0
    migrationRequest := 1
    partitionKey := htons 0xFFFF
    destinationQp := (htonl (qp <<< 8)).setWidth 24 }
  let deth := { packet.ibHeader.deth with
    queueKey := htonl 0x11111111
    sourceQp := (htonl ((0x182 : BitVec 32) <<< 8)).setWidth 24 }
  let ibHeader : IbHeaders := ⟨grh, bth, deth⟩
  ({ packet with etherHeader := etherHeader, ibHeader := ibHeader }, ibHeaderChecksum ibHeader)

/-- A 24-bit field assigned from a swapped, shifted word holds its three low bytes
in network order. -/
theorem qp_field_bytes (qp : BitVec 32) :
    toLittle 3 ((htonl (qp <<< 8)).setWidth 24) = (toLittle 3 qp).reverse := by
  rw [toLittle_setWidth _ (by decide), ← toLittle_take 3 1, toLittle_htonl, toLittle_shiftLeft_byte 3 qp (by decide),
    List.reverse_cons, List.take_left' (by simp)]

/-- Swapping a 24-bit field back and shifting shows its bytes in network order. -/
theorem shown_qp (q : BitVec 24) : (ntohl (q.setWidth 32) >>> 8).toNat = bigValue (toLittle 3 q) := by
  have hlast : (q.setWidth 32 >>> 24).setWidth 8 = (0 : Byte) := by
    apply BitVec.eq_of_getLsbD_eq
    intro i hi
    rw [BitVec.getLsbD_setWidth, BitVec.getLsbD_ushiftRight, BitVec.getLsbD_setWidth,
      BitVec.getLsbD_of_ge q (24+i) (by omega)]
    simp
  have hlow : toLittle 3 (q.setWidth 32) = toLittle 3 q := toLittle_setWidth q (by omega)
  have hbytes : toLittle 4 (q.setWidth 32) = toLittle 3 q ++ [0] := by
    rw [← hlow]
    simp only [toLittle, ← BitVec.shiftRight_add, Nat.reduceAdd, hlast]
    rfl
  rw [BitVec.toNat_ushiftRight, htonl_toNat, hbytes, bigValue_append_singleton, Nat.shiftRight_eq_div_pow]
  exact Nat.mul_div_cancel_left _ (by omega)

theorem header_bytes (p : Packet) :
    slice p.bytes 0 dataOffset = p.etherHeader.bytes ++ p.ibHeader.bytes := by
  have hl : (p.etherHeader.bytes ++ p.ibHeader.bytes).length = dataOffset := by simp [dataOffset]
  rw [Packet.bytes, slice_append_left _ _ (by omega), ← hl, slice_all]

theorem header_length (p : Packet) : (slice p.bytes 0 dataOffset).length = dataOffset := by
  rw [header_bytes]
  simp [dataOffset]

/-- The 74 bytes left in a zeroed packet, whatever the addresses and the queue pair. -/
theorem init_headers_bytes (src dest : Addr) (qp : BitVec 32) :
    slice (initInvariantHeaders zeroPacket src dest qp).1.bytes 0 dataOffset =
      dest.mac.toList ++ src.mac.toList ++ [0x89, 0x15] ++ ([0x60, 0, 0, 0, 0x23, 0x04, 27, 1] ++
        src.ipv6.toList ++ dest.ipv6.toList ++ [0x64, 0x40, 0xFF, 0xFF, 0] ++ (toLittle 3 qp).reverse ++
        [0, 0, 0, 0, 0x11, 0x11, 0x11, 0x11, 0, 0, 0x01, 0x82]) := by
  have hproto : toLittle 2 (htons 0x8915) = [0x89, 0x15] := by decide
  have hunit : toLittle 4 ((0 : BitVec 20) ++ (0 : BitVec 4) ++ (6 : BitVec 4) ++ (0 : BitVec 4)) =
    [0x60, 0, 0, 0] := by decide
  have hlen : toLittle 2 (htons (ibLength.setWidth 16)) = [0x23, 0x04] := by decide
  have hflags : toLittle 1 ((0 : BitVec 1) ++ (1 : BitVec 1) ++ (0 : BitVec 2) ++ (0 : BitVec 4)) =
    [0x40] := by decide
  have hkey : toLittle 2 (htons 0xFFFF) = [0xFF, 0xFF] := by decide
  have hpsn : toLittle 4 ((0 : BitVec 24) ++ (0 : BitVec 7) ++ (0 : BitVec 1)) = [0, 0, 0, 0] := by decide
  have hqkey : toLittle 4 (htonl 0x11111111) = [0x11, 0x11, 0x11, 0x11] := by decide
  have hsrc : toLittle 4 ((htonl ((0x182 : BitVec 32) <<< 8)).setWidth 24 ++ (0 : BitVec 8)) =
    [0, 0, 0x01, 0x82] := by decide
  have hqp : toLittle 4 ((htonl (qp <<< 8)).setWidth 24 ++ (0 : BitVec 8)) = 0 :: (toLittle 3 qp).reverse := by
    have h := toLittle_append_byte 3 ((htonl (qp <<< 8)).setWidth 24) 0
    rwa [qp_field_bytes] at h
  rw [header_bytes]
  simp only [initInvariantHeaders, zeroPacket, EthHdr.bytes, IbHeaders.bytes, IbGrh.bytes, IbBth.bytes,
    IbDeth.bytes]
  rw [hproto, hunit, hlen, hflags, hkey, hpsn, hqkey, hsrc, hqp]
  simp

private theorem qp_bytes_value (qp : BitVec 32) : bigValue (toLittle 3 qp).reverse = qp.toNat % 2^24 := by
  rw [bigValue_reverse, littleValue_toLittle]
  rfl

/-- An independent reader of the wire format gets back the request, the length of
what the host sends behind the GRH, and the printers show the queue pairs. -/
theorem init_headers_decode (src dest : Addr) (qp : BitVec 32) :
    let bytes := slice (initInvariantHeaders zeroPacket src dest qp).1.bytes 0 dataOffset
    let transport := bytes.drop sizeofEthHdr
    let shown := printIbHeaders (IbHeaders.ofBytes transport)
    WireFormat.parseEthernet bytes = ⟨dest.mac.toList, src.mac.toList, 0x8915⟩ ∧
    WireFormat.parseTransport transport =
      { ipVersion := 6, trafficClass := 0, flowLabel := 0
        payloadLength := sendLength.toNat-(sizeofEthHdr+40), nextHeader := 27, hopLimit := 1
        sourceGid := src.ipv6.toList, destGid := dest.ipv6.toList
        opcode := 0x64, solicitedEvent := 0, migration := 1, padCount := 0, transportVersion := 0
        partitionKey := 0xFFFF, destinationQp := qp.toNat % 2^24, ackRequest := 0, packetSequence := 0
        queueKey := 0x11111111, sourceQp := 0x182 } ∧
    sendLength.toNat-(sizeofEthHdr+40) = sizeofIbBth+sizeofIbDeth+msgSize+4 ∧
    shown.2.1.destinationQp = qp.toNat % 2^24 ∧ shown.2.2.sourceQp = 0x182 := by
  have hbytes := init_headers_bytes src dest qp
  have hstruct : (slice (initInvariantHeaders zeroPacket src dest qp).1.bytes 0 dataOffset).drop sizeofEthHdr =
      (initInvariantHeaders zeroPacket src dest qp).1.ibHeader.bytes := by
    rw [header_bytes, List.drop_left' (EthHdr.bytes_length _)]
  intro bytes transport shown
  have hparse : transport = [0x60, 0, 0, 0, 0x23, 0x04, 27, 1] ++ src.ipv6.toList ++ dest.ipv6.toList ++
      [0x64, 0x40, 0xFF, 0xFF, 0] ++ (toLittle 3 qp).reverse ++
      [0, 0, 0, 0, 0x11, 0x11, 0x11, 0x11, 0, 0, 0x01, 0x82] := by
    simp only [transport, bytes, hbytes]
    exact List.drop_left' (by simp [sizeofEthHdr])
  refine ⟨?_,?_,by decide,?_,?_⟩
  · simp only [bytes, hbytes]
    simp [WireFormat.parseEthernet, slice, List.drop_append, List.drop_eq_nil_of_le]
    decide
  · rw [hparse]
    simp [WireFormat.parseTransport, slice, List.drop_append, List.drop_eq_nil_of_le, qp_bytes_value]
    decide
  · simp only [shown, transport, bytes, hstruct, IbHeaders.ofBytes_bytes, printIbHeaders, printBth]
    rw [shown_qp, initInvariantHeaders, qp_field_bytes, qp_bytes_value]
  · simp only [shown, transport, bytes, hstruct, IbHeaders.ofBytes_bytes, printIbHeaders, printDeth]
    rw [shown_qp]
    exact (show bigValue (toLittle 3 ((htonl ((0x182 : BitVec 32) <<< 8)).setWidth 24)) = 0x182 by decide)

end IbverbPrototype.Roce
