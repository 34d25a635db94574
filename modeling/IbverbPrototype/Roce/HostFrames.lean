import IbverbPrototype.Roce.InvariantHeaders

/-! The frames of a whole run of the host loop, and where the loop leaves its packet
when nothing lies behind the struct. -/
namespace IbverbPrototype.Roce
open Foundations.ByteOrder Foundations.CheckedMemory Foundations.FormattedText Address

/-- Frames handed to the socket: one a round, the round of a failed send included. -/
def roundsSent : List Bool → Nat
  | [] => 0
  | true::answers => roundsSent answers+1
  | false::_ => 1

/-- The text of round k in a payload of zero bytes. -/
def numberedPayload (k : Nat) : List Byte :=
  let text := ascii ("Message: ".toList ++ Nat.toDigits 10 k)
  text ++ List.replicate (msgSize-text.length) 0

/-- What the socket gets in round k. -/
def numberedFrame (header : List Byte) (headerCrc : BitVec 32) (k : Nat) : List Byte :=
  header ++ numberedPayload k ++ toLittle 4 (crc32 headerCrc (numberedPayload k))

theorem messageText_ofNat {k : Nat} (hk : k < 2^31) :
    messageText (BitVec.ofNat 32 k) = ascii ("Message: ".toList ++ Nat.toDigits 10 k) := by
  have hint : (BitVec.ofNat 32 k).toInt = (k : Int) := by
    have hnat : (BitVec.ofNat 32 k).toNat = k := by
      rw [BitVec.toNat_ofNat]
      omega
    rw [BitVec.toInt_eq_toNat_of_lt (by omega), hnat]
  rw [messageText, hint]
  rfl

/-- The text of a later round is never shorter. -/
theorem messageText_grows {k : Nat} (hk : k+1 < 2^31) :
    (messageText (BitVec.ofNat 32 k)).length ≤ (messageText (BitVec.ofNat 32 (k+1))).length := by
  have hdigits : (Nat.toDigits 10 k).length ≤ (Nat.toDigits 10 (k+1)).length := by
    have hpos := Nat.length_toDigits_pos (b := 10) (n := k+1)
    rw [Nat.length_toDigits_le_iff (by decide) hpos]
    exact Nat.lt_of_succ_lt ((Nat.length_toDigits_le_iff (by decide) hpos).mp le_rfl)
  rw [messageText_ofNat (by omega), messageText_ofNat hk]
  simpa using hdigits

/-- The bytes from the end of a round's text on are zero. -/
def ZeroTail (data : List Byte) (k : Nat) : Prop :=
  data.drop (messageText (BitVec.ofNat 32 k)).length =
    List.replicate (msgSize-(messageText (BitVec.ofNat 32 k)).length) 0

/-- The text and its NUL cover all that earlier rounds left. -/
theorem messagePayload_numbered {data : List Byte} {k : Nat} (hk : k < 2^31) (hz : ZeroTail data k) :
    messagePayload data (BitVec.ofNat 32 k) = numberedPayload k := by
  have hlen := messageText_length (BitVec.ofNat 32 k)
  have hmsg : msgSize = 8940 := rfl
  obtain ⟨rest,hrest⟩ : ∃ rest, msgSize-(messageText (BitVec.ofNat 32 k)).length = rest+1 :=
    ⟨_,(Nat.succ_pred_eq_of_pos (by omega)).symm⟩
  rw [ZeroTail] at hz
  rw [messagePayload, ← List.drop_drop, hz, numberedPayload, ← messageText_ofNat hk, hrest]
  simp [List.replicate_succ]

theorem numberedPayload_zeroTail {k : Nat} (hk : k+1 < 2^31) : ZeroTail (numberedPayload k) (k+1) := by
  have hgrow := messageText_grows hk
  rw [messageText_ofNat (show k < 2^31 by omega)] at hgrow
  rw [ZeroTail, numberedPayload, List.drop_append, List.drop_eq_nil_of_le hgrow, List.nil_append, List.drop_replicate]
  congr 1
  omega

/-- One round over any counter and payload, the four bytes behind the packet being writable. -/
theorem hostIteration_frame {header data cells : List Byte} (headerCrc count : BitVec 32)
    (hh : header.length = dataOffset) (hd : data.length = msgSize) (hc : cells.length = 4) :
    hostIteration (header ++ data ++ cells) headerCrc count =
      .ok (header ++ messagePayload data count ++ toLittle 4 (crc32 headerCrc (messagePayload data count)),
        header ++ messagePayload data count ++ toLittle 4 (crc32 headerCrc (messagePayload data count))) := by
  rw [hostIteration_eq headerCrc count hh hd]
  exact sendFrame_eq headerCrc hh (messagePayload_length count hd) hc

/-- Every round that is reached hands one frame over. -/
theorem hostLoop_length {header : List Byte} (headerCrc : BitVec 32) (hh : header.length = dataOffset)
    (answers : List Bool) (count : BitVec 32) (data cells : List Byte) (hd : data.length = msgSize)
    (hc : cells.length = 4) :
    (ibHostSendLoop headerCrc answers count (header ++ data ++ cells)).2.length = roundsSent answers := by
  induction answers generalizing count data cells with
  | nil => rfl
  | cons answer answers ih =>
    rw [ibHostSendLoop, hostIteration_frame headerCrc count hh hd hc]
    cases answer with
    | false => rfl
    | true => exact congrArg Nat.succ (ih _ _ _ (messagePayload_length count hd) (toLittle_length 4 _))

/-- From a round whose zero tail is intact on, every frame is the numbered one. -/
theorem hostLoop_frames {header : List Byte} (headerCrc : BitVec 32) (hh : header.length = dataOffset)
    (answers : List Bool) (k : Nat) (data cells : List Byte) (hd : data.length = msgSize) (hc : cells.length = 4)
    (hz : k < 2^31 → ZeroTail data k) (j : Nat) (hj : j < roundsSent answers) (hk : k+j < 2^31) :
    (ibHostSendLoop headerCrc answers (BitVec.ofNat 32 k) (header ++ data ++ cells)).2[j]? =
      some (numberedFrame header headerCrc (k+j)) := by
  induction answers generalizing k data cells j with
  | nil => exact absurd hj (Nat.not_lt_zero j)
  | cons answer answers ih =>
    have hpayload := messagePayload_numbered (by omega) (hz (by omega))
    have hlen : (numberedPayload k).length = msgSize := hpayload ▸ messagePayload_length _ hd
    rw [ibHostSendLoop, hostIteration_frame headerCrc _ hh hd hc, hpayload]
    cases j with
    | zero => cases answer <;> rfl
    | succ j =>
      cases answer with
      | false => exact absurd hj (by simp [roundsSent])
      | true =>
        have hnext : BitVec.ofNat 32 k+1 = BitVec.ofNat 32 (k+1) := by
          rw [BitVec.ofNat_add]
          rfl
        have hrest := ih (k+1) _ _ hlen (toLittle_length 4 (crc32 headerCrc (numberedPayload k)))
          numberedPayload_zeroTail j (Nat.lt_of_succ_lt_succ hj) (by omega)
        have hplace : k+(j+1) = k+1+j := by omega
        rw [hnext, hplace]
        exact hrest

/-- A numbered message and its zeros fill the payload. -/
theorem numberedPayload_length {k : Nat} (hk : k < 2^31) : (numberedPayload k).length = msgSize := by
  have hmsg : msgSize = 8940 := rfl
  have htext := messageText_length (BitVec.ofNat 32 k)
  rw [messageText_ofNat hk] at htext
  rw [numberedPayload, List.length_append, List.length_replicate]
  omega

/-- Every run on the zeroed packet: frame k is the headers as they were left, the k-th
text in zero bytes and the checksum of both, from the one seed computed before the loop. -/
theorem host_frames_numbered (src dest : Addr) (qp : BitVec 32) (trailer : Vector Byte 4) (answers : List Bool) :
    let packet := (initInvariantHeaders zeroPacket src dest qp).1
    let headerCrc := (initInvariantHeaders zeroPacket src dest qp).2
    let header := slice packet.bytes 0 dataOffset
    let frames := (ibHostSendLoop headerCrc answers 0 (packet.bytes ++ trailer.toList)).2
    frames.length = roundsSent answers ∧
    ∀ k, k < roundsSent answers → k < 2^31 →
      frames[k]? = some (header ++ numberedPayload k ++ toLittle 4 (crc32 headerCrc (numberedPayload k))) ∧
      (numberedPayload k).length = msgSize ∧
      headerCrc = ibHeaderChecksum (IbHeaders.ofBytes (header.drop sizeofEthHdr)) ∧
      crc32 headerCrc (numberedPayload k) = icrc (header.drop sizeofEthHdr) (numberedPayload k) := by
  intro packet headerCrc header frames
  have hmsg : msgSize = 8940 := rfl
  have hheader : header = packet.etherHeader.bytes ++ packet.ibHeader.bytes := header_bytes packet
  have hh : header.length = dataOffset := header_length packet
  have hd : (Vector.replicate msgSize (0 : Byte)).toList.length = msgSize := Vector.length_toList
  have hmem : packet.bytes ++ trailer.toList = header ++ packet.data.toList ++ trailer.toList := by
    rw [hheader]
    rfl
  have htransport : header.drop sizeofEthHdr = packet.ibHeader.bytes := by
    rw [hheader, List.drop_left' (EthHdr.bytes_length _)]
  have hseed : headerCrc = ibHeaderChecksum packet.ibHeader := rfl
  have hzero : ZeroTail packet.data.toList 0 := by
    rw [ZeroTail, show packet.data.toList = List.replicate msgSize (0 : Byte) from Vector.toList_replicate,
      List.drop_replicate]
  have hlen := hostLoop_length headerCrc hh answers 0 packet.data.toList trailer.toList hd Vector.length_toList
  constructor
  · simp only [frames, hmem]
    exact hlen
  intro k hk hbound
  have hframe := hostLoop_frames headerCrc hh answers 0 packet.data.toList trailer.toList hd Vector.length_toList
    (fun _ => hzero) k hk (by omega)
  have hpayload := numberedPayload_length hbound
  refine ⟨?_,hpayload,?_,?_⟩
  · rw [Nat.zero_add] at hframe
    simp only [frames, hmem]
    exact hframe
  · rw [htransport, IbHeaders.ofBytes_bytes, hseed]
  · rw [htransport, hseed, ibHeaderChecksum_eq, crc32_extend _ (by omega), icrc]

/-- The first frame of a run of one round between two zero addresses. -/
theorem host_frames_first :
    let addr : Addr := ⟨Vector.replicate 6 0, 0, Vector.replicate 16 0⟩
    let initialised := initInvariantHeaders zeroPacket addr addr 1
    (ibHostSendLoop initialised.2 [true] 0 (initialised.1.bytes ++ [0, 0, 0, 0])).2[0]? =
      some (slice initialised.1.bytes 0 dataOffset ++ numberedPayload 0 ++
        toLittle 4 (crc32 initialised.2 (numberedPayload 0))) := by
  intro addr initialised
  exact ((host_frames_numbered addr addr 1 (Vector.replicate 4 0) [true]).2 0 (by decide) (by decide)).1

/-- The checksum store begins where the struct ends, and the send reads four bytes more. -/
theorem packet_overrun (packet : Packet) (cells : List Byte) (hc : cells.length = 4) :
    store packet.bytes (dataOffset+msgSize) cells = none ∧ load packet.bytes 0 sendLength.toNat = none := by
  have hlen := packet.bytes_length
  have hoff : dataOffset = sizeofEthHdr+sizeofIbHeaders := rfl
  exact ⟨if_neg (by omega),if_neg (by rw [sendLength_toNat]; omega)⟩

/-- The first round on a packet with nothing behind it ends at the checksum store. -/
theorem hostIteration_overrun (packet : Packet) (headerCrc count : BitVec 32) :
    hostIteration packet.bytes headerCrc count = .error .outOfBounds := by
  have hheader := header_bytes packet
  have hh := header_length packet
  have hd : packet.data.toList.length = msgSize := Vector.length_toList
  have hmem (p : Packet) : p.bytes = slice p.bytes 0 dataOffset ++ p.data.toList ++ [] := by
    rw [header_bytes, List.append_nil]
    rfl
  have hlen := messagePayload_length count hd
  have hwrite : writeMessage packet.bytes count = .ok (slice packet.bytes 0 dataOffset ++
      messagePayload packet.data.toList count ++ []) := by
    conv_lhs => rw [hmem packet]
    exact writeMessage_eq count hh hd
  obtain ⟨written,hwritten⟩ : ∃ p : Packet, slice packet.bytes 0 dataOffset ++
      messagePayload packet.data.toList count ++ [] = p.bytes := by
    refine ⟨{ packet with data := ⟨(messagePayload packet.data.toList count).toArray,by simpa using hlen⟩ },?_⟩
    rw [hheader, List.append_nil]
    rfl
  have hload : load written.bytes dataOffset msgSize = some (messagePayload packet.data.toList count) := by
    rw [← hwritten, load_eq (by simp only [List.length_append, hh, hlen]; omega),
      slice_middle _ _ _ hh.symm hlen.symm]
  obtain ⟨hstore,-⟩ := packet_overrun written _
    (toLittle_length 4 (crc32 headerCrc (messagePayload packet.data.toList count)))
  rw [hostIteration, hwrite, hwritten]
  simp only [bind, Except.bind, sendFrame, hload, checked, hstore]

/-- On a packet with nothing behind it the loop stays inside only while it makes no round. -/
theorem host_stays_inside_iff (packet : Packet) (headerCrc : BitVec 32) (answers : List Bool) :
    (ibHostSendLoop headerCrc answers 0 packet.bytes).1 ≠ .error .outOfBounds ↔ answers = [] := by
  constructor
  · intro hinside
    cases answers with
    | nil => rfl
    | cons answer answers =>
      rw [ibHostSendLoop, hostIteration_overrun] at hinside
      exact absurd rfl hinside
  · rintro rfl
    simp [ibHostSendLoop]

/-- One round on the zeroed packet writes and sends behind its end. -/
theorem zero_packet_overrun : ¬ ∀ (packet : Packet) (headerCrc : BitVec 32) (answers : List Bool),
    (ibHostSendLoop headerCrc answers 0 packet.bytes).1 ≠ .error .outOfBounds := by
  intro hall
  refine hall zeroPacket 0 [true] ?_
  rw [ibHostSendLoop, hostIteration_overrun]

end IbverbPrototype.Roce
