import IbverbPrototype.Roce.InvariantHeaders

/-! What the printers show of any 60 header bytes, against the fields the wire format
puts there. -/
namespace IbverbPrototype.Roce
open Foundations.ByteOrder Foundations.CheckedMemory

/-- The values the printers have to show for the fields of the wire format: the class in
two halves, the upper one first, everything else as it stands. -/
def wireShown (t : WireFormat.Transport) : ShownGrh × ShownBth × ShownDeth :=
  ({ ipVersion := t.ipVersion
     trafficClass1 := t.trafficClass/2^4
     trafficClass2 := t.trafficClass % 2^4
     flowLabel := t.flowLabel
     length := t.payloadLength
     nextHeader := t.nextHeader
     hopLimit := t.hopLimit
     source := t.sourceGid
     dest := t.destGid },
   { opcode := t.opcode
     sollicited := t.solicitedEvent
     migrationReq := t.migration
     padCount := t.padCount
     headerVersion := t.transportVersion
     partitionKey := t.partitionKey
     destinationQp := t.destinationQp
     acknowledgeReq := t.ackRequest
     packetSequenceNumber := t.packetSequence },
   { queueKey := t.queueKey
     sourceQp := t.sourceQp })

def byteAt (bs : List Byte) (i : Nat) : Nat := (bs.getD i 0).toNat

theorem byteAt_lt (bs : List Byte) (i : Nat) : byteAt bs i < 256 := (bs.getD i 0).isLt

theorem load16_toNat {bs : List Byte} {off : Nat} (h : off+2 ≤ bs.length) :
    (ofLittle 16 (slice bs off 2)).toNat = byteAt bs off+256*byteAt bs (off+1) := by
  have hlt := littleValue_lt (slice bs off 2)
  rw [slice_length h] at hlt
  rw [ofLittle, BitVec.toNat_ofNat, Nat.mod_eq_of_lt (show _ < 2^16 from hlt), slice_eq_map h 0]
  simp [List.range_succ, littleValue, byteAt]

theorem load32_toNat {bs : List Byte} {off : Nat} (h : off+4 ≤ bs.length) :
    (ofLittle 32 (slice bs off 4)).toNat =
      byteAt bs off+256*(byteAt bs (off+1)+256*(byteAt bs (off+2)+256*byteAt bs (off+3))) := by
  have hlt := littleValue_lt (slice bs off 4)
  rw [slice_length h] at hlt
  rw [ofLittle, BitVec.toNat_ofNat, Nat.mod_eq_of_lt (show _ < 2^32 from hlt), slice_eq_map h 0]
  simp [List.range_succ, littleValue, byteAt]

/-- The upper 24 bits of a unit, swapped back and shifted, are its last three bytes in
network order. -/
theorem shown_unit_qp {bs : List Byte} {off : Nat} (h : off+4 ≤ bs.length) :
    (ntohl (((ofLittle 32 (slice bs off 4) >>> 8).setWidth 24).setWidth 32) >>> 8).toNat =
      bigValue (slice bs (off+1) 3) := by
  have hunit := toLittle_ofLittle (slice_length h) (show 8*4 ≤ 32 by decide)
  have htail : toLittle 3 (ofLittle 32 (slice bs off 4) >>> 8) = slice bs (off+1) 3 := by
    have hsplit := slice_append bs off 1 3
    rw [slice_eq_map (show off+1 ≤ bs.length by omega) 0, ← hunit] at hsplit
    exact (List.cons.inj hsplit).2.symm
  rw [shown_qp, toLittle_setWidth _ (by decide), htail]

private theorem grh_shown {bs : List Byte} (h : bs.length = sizeofIbHeaders) :
    printGrh (IbGrh.ofBytes (slice bs 0 40)) =
      { ipVersion := byteAt bs 0/16
        trafficClass1 := byteAt bs 0 % 16
        trafficClass2 := byteAt bs 1 % 16
        flowLabel := byteAt bs 1/16+16*(byteAt bs 2+256*byteAt bs 3)
        length := 256*byteAt bs 4+byteAt bs 5
        nextHeader := byteAt bs 6
        hopLimit := byteAt bs 7
        source := slice bs 8 16
        dest := slice bs 24 16 } := by
  unfold sizeofIbHeaders at h
  have hg : (slice bs 0 40).length = 40 := slice_length (by omega)
  have h0 := byteAt_lt bs 0
  have h1 := byteAt_lt bs 1
  have h2 := byteAt_lt bs 2
  have h3 := byteAt_lt bs 3
  have h4 := byteAt_lt bs 4
  have h5 := byteAt_lt bs 5
  have hunit := load32_toNat (show 0+4 ≤ bs.length by omega)
  have hlen := load16_toNat (show 4+2 ≤ bs.length by omega)
  simp only [printGrh, IbGrh.ofBytes, slice_slice bs (show 0+4 ≤ 40 by decide),
    slice_slice bs (show 4+2 ≤ 40 by decide),
    addressAt_toList 8 (show 8+16 ≤ (slice bs 0 40).length by omega),
    addressAt_toList 24 (show 24+16 ≤ (slice bs 0 40).length by omega), slice_slice bs (show 8+16 ≤ 40 by decide),
    slice_slice bs (show 24+16 ≤ 40 by decide), slice_getD bs (show 6 < 40 by decide),
    slice_getD bs (show 7 < 40 by decide), BitVec.toNat_setWidth, BitVec.toNat_ushiftRight,
    Nat.shiftRight_eq_div_pow, hunit, htons_toNat, hlen, Nat.zero_add, Nat.reduceAdd]
  simp only [ShownGrh.mk.injEq]
  exact ⟨by omega,by omega,by omega,by omega,by omega,rfl,rfl,trivial,trivial⟩

private theorem bth_shown {bs : List Byte} (h : bs.length = sizeofIbHeaders) :
    printBth (IbBth.ofBytes (slice bs 40 12)) =
      { opcode := byteAt bs 40
        sollicited := byteAt bs 41/128
        migrationReq := byteAt bs 41/64 % 2
        padCount := byteAt bs 41/16 % 4
        headerVersion := byteAt bs 41 % 16
        partitionKey := 256*byteAt bs 42+byteAt bs 43
        destinationQp := bigValue (slice bs 45 3)
        acknowledgeReq := byteAt bs 48 % 2
        packetSequenceNumber := byteAt bs 49+256*(byteAt bs 50+256*byteAt bs 51) } := by
  unfold sizeofIbHeaders at h
  have hflags := byteAt_lt bs 41
  have hkey0 := byteAt_lt bs 42
  have hkey1 := byteAt_lt bs 43
  have hpsn0 := byteAt_lt bs 48
  have hpsn1 := byteAt_lt bs 49
  have hpsn2 := byteAt_lt bs 50
  have hpsn3 := byteAt_lt bs 51
  have hkey := load16_toNat (show 42+2 ≤ bs.length by omega)
  have hqp := shown_unit_qp (show 44+4 ≤ bs.length by omega)
  have hpsn := load32_toNat (show 48+4 ≤ bs.length by omega)
  simp only [printBth, IbBth.ofBytes, slice_slice bs (show 2+2 ≤ 12 by decide),
    slice_slice bs (show 4+4 ≤ 12 by decide), slice_slice bs (show 8+4 ≤ 12 by decide),
    slice_getD bs (show 0 < 12 by decide), slice_getD bs (show 1 < 12 by decide), Nat.reduceAdd, hqp]
  simp only [BitVec.toNat_setWidth, BitVec.toNat_ushiftRight, Nat.shiftRight_eq_div_pow, htons_toNat, hkey, hpsn,
    Nat.reduceAdd, ShownBth.mk.injEq]
  change _ ∧ byteAt bs 41/2^7 % 2^1 = _ ∧ byteAt bs 41/2^6 % 2^1 = _ ∧ byteAt bs 41/2^4 % 2^2 = _ ∧
    byteAt bs 41 % 2^4 = _ ∧ _
  exact ⟨rfl,by omega,by omega,by omega,by omega,by omega,trivial,by omega,by omega⟩

private theorem deth_shown {bs : List Byte} (h : bs.length = sizeofIbHeaders) :
    printDeth (IbDeth.ofBytes (slice bs 52 8)) =
      { queueKey := bigValue (slice bs 52 4), sourceQp := bigValue (slice bs 57 3) } := by
  unfold sizeofIbHeaders at h
  have hkey : (ntohl (ofLittle 32 (slice bs 52 4))).toNat = bigValue (slice bs 52 4) := by
    rw [htonl_toNat, toLittle_ofLittle (slice_length (by omega)) (by decide)]
  have hqp := shown_unit_qp (show 56+4 ≤ bs.length by omega)
  simp only [printDeth, IbDeth.ofBytes, slice_slice bs (show 0+4 ≤ 8 by decide),
    slice_slice bs (show 4+4 ≤ 8 by decide), Nat.add_zero, Nat.reduceAdd, hkey, hqp]

private theorem bigValue_slice {bs : List Byte} {off : Nat} (h : off+4 ≤ bs.length) :
    bigValue (slice bs off 1) = byteAt bs off ∧
    bigValue (slice bs off 2) = 256*byteAt bs off+byteAt bs (off+1) ∧
    bigValue (slice bs off 3) = 256*(256*byteAt bs off+byteAt bs (off+1))+byteAt bs (off+2) ∧
    bigValue (slice bs off 4) =
      256*(256*(256*byteAt bs off+byteAt bs (off+1))+byteAt bs (off+2))+byteAt bs (off+3) := by
  rw [slice_eq_map (show off+1 ≤ bs.length by omega) 0, slice_eq_map (show off+2 ≤ bs.length by omega) 0,
    slice_eq_map (show off+3 ≤ bs.length by omega) 0, slice_eq_map h 0]
  simp [List.range_succ, bigValue, byteAt]

/-- The bytes on which both layouts agree: the six half bytes of traffic class and flow
label equal, the end bits of byte 48 equal, the outer bytes of the sequence number equal. -/
structure LayoutBlind (bs : List Byte) : Prop where
  halves : byteAt bs 1/16 = byteAt bs 1 % 16
  flow : byteAt bs 2 = byteAt bs 1 ∧ byteAt bs 3 = byteAt bs 1
  ack : byteAt bs 48 % 2 = byteAt bs 48/128
  sequence : byteAt bs 49 = byteAt bs 51

/-- Where the wire format cuts the first word of the header. -/
private theorem wire_word (b0 : Nat) {b1 b2 b3 : Nat} (h1 : b1 < 256) (h2 : b2 < 256) (h3 : b3 < 256) :
    (256*(256*(256*b0+b1)+b2)+b3)/2^20 % 2^8 = 16*(b0 % 16)+b1/16 ∧
    (256*(256*(256*b0+b1)+b2)+b3) % 2^20 = 65536*(b1 % 16)+256*b2+b3 := by
  have hhigh : 256*(256*(256*b0+b1)+b2)+b3 = 2^20*(16*b0+b1/16)+(65536*(b1 % 16)+256*b2+b3) := by omega
  have hlow : 65536*(b1 % 16)+256*b2+b3 < 2^20 := by omega
  rw [hhigh, Nat.mul_add_div (by decide), Nat.div_eq_of_lt hlow, Nat.mul_add_mod, Nat.mod_eq_of_lt hlow]
  exact ⟨by omega,rfl⟩

/-- A flow label whose half bytes are read from the wrong end is right only if they, and the
half byte taken for the traffic class, are all the same. -/
private theorem flow_halves {b1 b2 b3 : Nat} (h1 : b1 < 256) (h2 : b2 < 256) (h3 : b3 < 256) :
    b1 % 16 = b1/16 ∧ b1/16+16*(b2+256*b3) = 65536*(b1 % 16)+256*b2+b3 ↔ b1/16 = b1 % 16 ∧ b2 = b1 ∧ b3 = b1 := by
  constructor
  · rintro ⟨hclass,hflow⟩
    -- the half bytes of the last byte are found first, that between them follows
    have hlow : b3 % 16 = b1/16 := by omega
    have hmiddle : 273*(b3/16) = b2+256*(b1/16) := by omega
    have hhigh : b3/16 = b1/16 := by omega
    exact ⟨hclass.symm,by omega,by omega⟩
  · rintro ⟨hhalves,rfl,rfl⟩
    exact ⟨by omega,by omega⟩

/-- The printers follow the wire format exactly on the headers both layouts agree on. -/
theorem printed_headers_follow_wire_iff {bs : List Byte} (h : bs.length = sizeofIbHeaders) :
    printIbHeaders (IbHeaders.ofBytes bs) = wireShown (WireFormat.parseTransport bs) ↔ LayoutBlind bs := by
  have hlen : bs.length = 60 := h
  have hvalue (off : Nat) (hoff : off ≤ 56) := bigValue_slice (show off+4 ≤ bs.length by omega)
  have h1 := byteAt_lt bs 1
  have h2 := byteAt_lt bs 2
  have h3 := byteAt_lt bs 3
  have h41 := byteAt_lt bs 41
  have h48 := byteAt_lt bs 48
  have h49 := byteAt_lt bs 49
  have h51 := byteAt_lt bs 51
  obtain ⟨hclassWord,hlabelWord⟩ := wire_word (byteAt bs 0) h1 h2 h3
  have hflow := flow_halves h1 h2 h3
  simp only [printIbHeaders, IbHeaders.ofBytes, grh_shown h, bth_shown h, deth_shown h, wireShown,
    WireFormat.parseTransport, Prod.mk.injEq, ShownGrh.mk.injEq, ShownBth.mk.injEq, (hvalue 0 (by decide)).1,
    (hvalue 0 (by decide)).2.2.2, (hvalue 4 (by decide)).2.1, (hvalue 6 (by decide)).1, (hvalue 7 (by decide)).1,
    (hvalue 40 (by decide)).1, (hvalue 41 (by decide)).1, (hvalue 42 (by decide)).2.1, (hvalue 48 (by decide)).1,
    (hvalue 49 (by decide)).2.2.1, Nat.zero_add, Nat.reduceAdd, hclassWord, hlabelWord]
  clear hclassWord hlabelWord
  constructor
  · rintro ⟨⟨-,-,hclass,hlabel,-⟩,⟨-,-,-,-,-,-,-,hack,hpsn⟩,-⟩
    obtain ⟨hhalves,hbytes⟩ := hflow.mp ⟨by omega,hlabel⟩
    exact ⟨hhalves,hbytes,by omega,by omega⟩
  · rintro ⟨hhalves,hbytes,hack,hpsn⟩
    obtain ⟨hclass,hlabel⟩ := hflow.mpr ⟨hhalves,hbytes⟩
    have h0 := byteAt_lt bs 0
    refine ⟨⟨by omega,by omega,by omega,hlabel,trivial,trivial,trivial,trivial,trivial⟩,
      ⟨trivial,by omega,by omega,by omega,by omega,trivial,trivial,by omega,by omega⟩,trivial⟩

/-- Zeroed headers, as those the prototype sends are in all the fields concerned. -/
theorem printed_zero_headers_follow_wire :
    let bs : List Byte := List.replicate 60 0
    printIbHeaders (IbHeaders.ofBytes bs) = wireShown (WireFormat.parseTransport bs) :=
  (printed_headers_follow_wire_iff List.length_replicate).mpr ⟨by decide,by decide,by decide,by decide⟩

/-- Sequence number 1, an acknowledge request, class 1 and flow label 1 are all shown as
other values. -/
theorem sequence_one_misread : ¬ ∀ bs : List Byte, bs.length = sizeofIbHeaders →
    printIbHeaders (IbHeaders.ofBytes bs) = wireShown (WireFormat.parseTransport bs) := by
  intro hall
  let bs : List Byte := [0x60, 0x10, 0x00, 0x01] ++ List.replicate 44 0 ++ [0x80, 0, 0, 1] ++ List.replicate 8 0
  have hshown := hall bs rfl
  have hsequence := congrArg (fun shown => shown.2.1.packetSequenceNumber) hshown
  have hprinted : (printIbHeaders (IbHeaders.ofBytes bs)).2.1.packetSequenceNumber = 65536 := by decide
  have hwire : (wireShown (WireFormat.parseTransport bs)).2.1.packetSequenceNumber = 1 := by decide
  simp only [hprinted, hwire] at hsequence
  cases hsequence

end IbverbPrototype.Roce
