import IbverbPrototype.Roce.InvariantHeaders

/-! The checksum of a whole packet, its data length taken from the routing header. -/
namespace IbverbPrototype.Roce
open Foundations.ByteOrder Foundations.CheckedMemory

/-- The call on memory that may hold fewer bytes than its size says. -/
def crc32Sized (crc : BitVec 32) (mem : List Byte) (size : BitVec 64) : Option (BitVec 32) := do
  let data ← load mem 0 (crcIterations size)
  some (data.foldl crc32Step (crc ^^^ 0xFFFFFFFF) ^^^ 0xFFFFFFFF)

/-- The wire length less transport headers and checksum, in size_t. -/
def ibDataLength (packet : Packet) : BitVec 64 :=
  let dataLength := (ntohs packet.ibHeader.grh.payloadLength).setWidth 64
  dataLength-(ibTransportHeaderSize+checksumSize).setWidth 64

/-- None is a read behind the data array. -/
def ibChecksum (packet : Packet) : Option (BitVec 32) :=
  crc32Sized (ibHeaderChecksum packet.ibHeader) packet.data.toList (ibDataLength packet)

/-- The payload length field as it stands on the wire. -/
def wireLength (packet : Packet) : Nat := (ntohs packet.ibHeader.grh.payloadLength).toNat

/-- What is asked of the checksum of a packet: all reads inside, the checksum of exactly
the announced bytes, and no data length above the announced one. -/
structure ChecksumMeets (packet : Packet) : Prop where
  inside : ∃ crc, ibChecksum packet = some crc
  value : 24 ≤ wireLength packet → ibChecksum packet =
    some (icrc packet.ibHeader.bytes (packet.data.toList.take (wireLength packet-24)))
  noWrap : wireLength packet < 24 → (ibDataLength packet).toNat ≤ wireLength packet

theorem crc32Sized_eq (crc : BitVec 32) {mem : List Byte} {size : BitVec 64} (h : crcIterations size ≤ mem.length) :
    crc32Sized crc mem size = some (crc32 crc (mem.take (crcIterations size))) := by
  have hlt : crcIterations size < 2^31 := by
    have hi := BitVec.toInt_lt (x := size.setWidth 32)
    rw [crcIterations]
    omega
  have hlen : (mem.take (crcIterations size)).length = crcIterations size := List.length_take_of_le h
  rw [crc32Sized, load_eq (by omega), crc32, hlen, crcIterations_of_lt hlt, List.take_take, Nat.min_self]
  rfl

theorem wireLength_lt (packet : Packet) : wireLength packet < 2^16 := (ntohs packet.ibHeader.grh.payloadLength).isLt

theorem ibDataLength_toNat (packet : Packet) :
    (ibDataLength packet).toNat = (2^64-24+wireLength packet) % 2^64 := by
  have hlt := wireLength_lt packet
  have hsize : ((ibTransportHeaderSize+checksumSize).setWidth 64).toNat = 24 := by decide
  have hwide : ((ntohs packet.ibHeader.grh.payloadLength).setWidth 64).toNat = wireLength packet := by
    rw [BitVec.toNat_setWidth, Nat.mod_eq_of_lt (by change wireLength packet < 2^64; omega)]
    rfl
  simp only [ibDataLength, BitVec.toNat_sub, hwide, hsize]

/-- A length below the headers wraps, and the cast to int makes it negative: the loop reads
no data byte. -/
theorem ibChecksum_short {packet : Packet} (h : wireLength packet < 24) :
    ibChecksum packet = some (ibHeaderChecksum packet.ibHeader) := by
  have hval := ibDataLength_toNat packet
  have hiter : crcIterations (ibDataLength packet) = 0 := by
    have hneg : ((ibDataLength packet).setWidth 32).toInt = (wireLength packet : Int)-24 := by
      rw [BitVec.toInt_eq_toNat_cond, BitVec.toNat_setWidth, hval]
      split <;> omega
    rw [crcIterations, hneg]
    omega
  rw [ibChecksum, crc32Sized_eq _ (by omega), hiter, List.take_zero, ibHeaderChecksum_eq,
    crc32_extend _ (by decide), List.append_nil]

theorem ibDataLength_iterations {packet : Packet} (h : 24 ≤ wireLength packet) :
    crcIterations (ibDataLength packet) = wireLength packet-24 := by
  have hlt := wireLength_lt packet
  have hval := ibDataLength_toNat packet
  have hnat : ibDataLength packet = BitVec.ofNat 64 (wireLength packet-24) := by
    apply BitVec.eq_of_toNat_eq
    rw [hval, BitVec.toNat_ofNat]
    omega
  rw [hnat, crcIterations_of_lt (by omega)]

theorem ibChecksum_whole {packet : Packet} (h : 24 ≤ wireLength packet) (hfit : wireLength packet ≤ 24+msgSize) :
    ibChecksum packet = some (icrc packet.ibHeader.bytes (packet.data.toList.take (wireLength packet-24))) := by
  have hlt := wireLength_lt packet
  have hd : packet.data.toList.length = msgSize := Vector.length_toList
  have hiter := ibDataLength_iterations h
  rw [ibChecksum, crc32Sized_eq _ (by omega), hiter, ibHeaderChecksum_eq,
    crc32_extend _ (by rw [List.length_take]; omega), icrc]

/-- A length beyond the data array is read all the same. -/
theorem ibChecksum_long {packet : Packet} (h : 24+msgSize < wireLength packet) : ibChecksum packet = none := by
  have hd : packet.data.toList.length = msgSize := Vector.length_toList
  have hiter : crcIterations (ibDataLength packet) = wireLength packet-24 := ibDataLength_iterations (by omega)
  have hout : load packet.data.toList 0 (crcIterations (ibDataLength packet)) = none := if_neg (by omega)
  rw [ibChecksum, crc32Sized, hout]
  rfl

/-- The checksum does what is asked of it exactly for the lengths from the headers alone
to the whole data array. -/
theorem ib_checksum_meets_iff (packet : Packet) :
    ChecksumMeets packet ↔ 24 ≤ wireLength packet ∧ wireLength packet ≤ 24+msgSize := by
  have hlt := wireLength_lt packet
  constructor
  · intro hmeets
    constructor
    · by_contra hshort
      have hwrap := hmeets.noWrap (by omega)
      rw [ibDataLength_toNat] at hwrap
      omega
    · by_contra hlong
      obtain ⟨crc,hcrc⟩ := hmeets.inside
      rw [ibChecksum_long (by omega)] at hcrc
      cases hcrc
  · rintro ⟨hlow,hhigh⟩
    have hwhole := ibChecksum_whole hlow hhigh
    exact ⟨⟨_,hwhole⟩,fun _ => hwhole,fun hshort => absurd hshort (by omega)⟩

/-- The zeroed packet with all ones in its length field. -/
def longPacket : Packet :=
  let grh := { zeroPacket.ibHeader.grh with payloadLength := 0xFFFF }
  { zeroPacket with ibHeader := { zeroPacket.ibHeader with grh := grh } }

/-- A length field of all ones reads behind the packet; one of zero wraps. -/
theorem long_packet_read_outside :
    ibChecksum longPacket = none ∧ (ibDataLength zeroPacket).toNat = 2^64-24 ∧
      ¬ ∀ packet : Packet, ChecksumMeets packet := by
  have hlong : ibChecksum longPacket = none := ibChecksum_long (by decide)
  refine ⟨hlong,by decide,?_⟩
  intro hall
  obtain ⟨crc,hcrc⟩ := (hall longPacket).inside
  rw [hlong] at hcrc
  cases hcrc

end IbverbPrototype.Roce
