import IbverbPrototype.Udp.RawUdp

/-! The byte order of the header fields raw_udp converts: what a reader in network order
finds in them, against the values that were converted. -/
namespace IbverbPrototype.Udp
open Foundations.ByteOrder Foundations.CheckedMemory Foundations.FormattedText Address
open Roce (EthHdr sizeofEthHdr messageText)

/-- The Don't Fragment flag of the fragment field. -/
def dontFragment : Nat := 0x4000

/-- The 16-bit field at an offset of a frame, as a receiver reads it. -/
def field (frame : List Byte) (off : Nat) : Nat := bigValue (slice frame off 2)

/-- Every converted field of a frame reads as the value given to its conversion, and the
fragment field forbids fragments. -/
structure NetworkOrder (port : BitVec 32) (text frame : List Byte) : Prop where
  etherType : field frame 12 = 0x0800
  totLen : field frame 16 = (ipLength (totalLength text.length)).toNat
  id : field frame 18 = 54321
  fragOff : field frame 20 &&& dontFragment ≠ 0
  source : field frame 34 = 4242
  dest : field frame 36 = (port.setWidth 16).toNat
  len : field frame 38 = (udpLength text.length).toNat

/-- What the fields hold: the 32-bit conversion leaves nothing in the identification. -/
structure SentFields (port : BitVec 32) (text frame : List Byte) : Prop where
  etherType : field frame 12 = 0x0800
  totLen : field frame 16 = (ipLength (totalLength text.length)).toNat
  id : field frame 18 = 0
  fragOff : field frame 20 = 0
  source : field frame 34 = 4242
  dest : field frame 36 = (port.setWidth 16).toNat
  len : field frame 38 = (udpLength text.length).toNat

theorem sentFields_not_networkOrder {port : BitVec 32} {text frame : List Byte} (h : SentFields port text frame) :
    ¬ NetworkOrder port text frame := by
  intro hnet
  exact absurd (h.id.symm.trans hnet.id) (by decide)

/-- The identification is converted with the 32-bit function and cut to 16 bits. -/
theorem id_truncated : (htonl 54321).setWidth 16 = (0 : BitVec 16) := by decide

/-- A field of the IP header of a frame. -/
theorem field_ip (b : EtherBuffer) (text : List Byte) (off : Nat) (h : off+2 ≤ sizeofIpHdr) :
    field (b.headerBytes ++ text) (sizeofEthHdr+off) = field b.ipHeader.bytes off := by
  have hether : b.etherHeader.bytes.length = sizeofEthHdr := EthHdr.bytes_length _
  have hin : off+2 ≤ b.ipHeader.bytes.length := by rwa [IpHdr.bytes_length]
  rw [field, field, EtherBuffer.headerBytes, List.append_assoc, List.append_assoc, ← hether, slice_append_right,
    slice_append_left _ _ hin]

theorem field_udp (b : EtherBuffer) (text : List Byte) (off : Nat) (h : off+2 ≤ sizeofUdpHdr) :
    field (b.headerBytes ++ text) (sizeofEthHdr+sizeofIpHdr+off) = field b.udpHeader.bytes off := by
  have hfront : (b.etherHeader.bytes ++ b.ipHeader.bytes).length = sizeofEthHdr+sizeofIpHdr := by simp
  have hin : off+2 ≤ b.udpHeader.bytes.length := by rwa [UdpHdr.bytes_length]
  rw [field, field, EtherBuffer.headerBytes, List.append_assoc, ← hfront, slice_append_right,
    slice_append_left _ _ hin]

/-- A converted field of a byte string that goes on with it at its offset. -/
theorem field_htons {bytes rest : List Byte} {off : Nat} {x : BitVec 16}
    (hbytes : bytes.drop off = toLittle 2 (htons x) ++ rest) : field bytes off = x.toNat := by
  rw [field, slice, hbytes, List.take_left' (toLittle_length 2 _), bigValue_htons]

theorem framed_fields (localAddr remote : Addr) (port : BitVec 32) (check : BitVec 16)
    (udpData : Vector Byte maxMsgSize) (text : List Byte) :
    SentFields port text ((framed localAddr remote port (htons (ipLength (totalLength text.length))) check
      (htons (udpLength text.length)) udpData).headerBytes ++ text) := by
  obtain ⟨b,hb⟩ : ∃ b, framed localAddr remote port (htons (ipLength (totalLength text.length))) check
    (htons (udpLength text.length)) udpData = b := ⟨_,rfl⟩
  have hzero : toLittle 2 (0 : BitVec 16) = toLittle 2 (htons 0) := by decide
  have hether : b.headerBytes ++ text = (remote.mac.toList ++ localAddr.mac.toList) ++ toLittle 2 (htons 0x0800) ++
      (b.ipHeader.bytes ++ (b.udpHeader.bytes ++ text)) := by
    simp only [← hb, EtherBuffer.headerBytes, framed, EthHdr.bytes, List.append_assoc]
  have hip : b.ipHeader.bytes = toLittle 1 ((4 : BitVec 4) ++ (5 : BitVec 4)) ++ [0] ++
      toLittle 2 (htons (ipLength (totalLength text.length))) ++ toLittle 2 (htons 0) ++ toLittle 2 (htons 0) ++
      ([255, 17] ++ toLittle 2 check ++ toLittle 4 localAddr.ipv4 ++ toLittle 4 remote.ipv4) := by
    simp only [← hb, framed, IpHdr.bytes, id_truncated, hzero, List.append_assoc]
  have hudp : b.udpHeader.bytes = toLittle 2 (htons 4242) ++ toLittle 2 (htons (port.setWidth 16)) ++
      toLittle 2 (htons (udpLength text.length)) ++ toLittle 2 (0 : BitVec 16) := by
    simp only [← hb, framed, UdpHdr.bytes]
  have hfront : (remote.mac.toList ++ localAddr.mac.toList).length = 12 := by simp
  rw [hb]
  constructor
  · rw [hether, List.append_assoc]
    exact field_htons (x := 0x0800) (List.drop_left' hfront)
  · refine (field_ip b text 2 (by decide)).trans ?_
    rw [hip]
    exact field_htons rfl
  · refine (field_ip b text 4 (by decide)).trans ?_
    rw [hip]
    exact field_htons (x := 0) rfl
  · refine (field_ip b text 6 (by decide)).trans ?_
    rw [hip]
    exact field_htons (x := 0) rfl
  · refine (field_udp b text 0 (by decide)).trans ?_
    rw [hudp]
    exact field_htons (x := 4242) rfl
  · refine (field_udp b text 2 (by decide)).trans ?_
    rw [hudp]
    exact field_htons rfl
  · refine (field_udp b text 4 (by decide)).trans ?_
    rw [hudp]
    exact field_htons rfl

/-- In a run from set headers every frame has the fields of its message. -/
theorem sendMessages_fields (localAddr remote : Addr) (port : BitVec 32) {texts : List (List Byte)}
    (ht : ∀ text ∈ texts, text.length < maxMsgSize) :
    ∃ next frames, sendMessages (initHeaders zeroBuffer localAddr remote port) texts = .ok (next, frames) ∧
      List.Forall₂ (SentFields port) texts frames := by
  rw [initHeaders_framed]
  exact sendMessages_each (fun text check udpData _ _ => framed_fields localAddr remote port check udpData text) ht
    0 0 0 (Vector.replicate maxMsgSize 0)

/-- For all addresses, ports and messages the guard admits: every frame has its converted fields
in network order but for the identification, which is zero as the fragment field is. -/
theorem frames_not_networkOrder (localAddr remote : Addr) (port : BitVec 32) {texts : List (List Byte)}
    (ht : ∀ text ∈ texts, text.length < maxMsgSize) :
    ∃ next frames, sendMessages (initHeaders zeroBuffer localAddr remote port) texts = .ok (next, frames) ∧
      List.Forall₂ (fun text frame => SentFields port text frame ∧ ¬ NetworkOrder port text frame) texts frames := by
  obtain ⟨next,frames,hsend,hfields⟩ := sendMessages_fields localAddr remote port ht
  exact ⟨next,frames,hsend,hfields.imp (fun _ _ h => ⟨h,sentFields_not_networkOrder h⟩)⟩

/-- The first message, to port 4000. -/
theorem frames_not_networkOrder_first :
    ∃ next frames, sendMessages (initHeaders zeroBuffer ⟨Vector.replicate 6 1, 0x0100A8C0, Vector.replicate 16 0⟩
        ⟨Vector.replicate 6 2, 0x0200A8C0, Vector.replicate 16 0⟩ 4000) [messageText 0] = .ok (next, frames) ∧
      List.Forall₂ (fun text frame => SentFields 4000 text frame ∧ ¬ NetworkOrder 4000 text frame)
        [messageText 0] frames := by
  refine frames_not_networkOrder _ _ 4000 ?_
  intro text htext
  obtain rfl := List.mem_singleton.mp htext
  decide

/-- The frame of that message has another identification than the one converted for it. -/
theorem first_frame_not_networkOrder :
    ¬ ∀ localAddr remote port texts next frames, (∀ text ∈ texts, text.length < maxMsgSize) →
      sendMessages (initHeaders zeroBuffer localAddr remote port) texts = .ok (next, frames) →
      List.Forall₂ (NetworkOrder port) texts frames := by
  intro hall
  have hfit : ∀ text ∈ [messageText 0], text.length < maxMsgSize := by
    intro text htext
    obtain rfl := List.mem_singleton.mp htext
    decide
  obtain ⟨next,frames,hsend,hfields⟩ := sendMessages_fields ⟨Vector.replicate 6 1, 0x0100A8C0, Vector.replicate 16 0⟩
    ⟨Vector.replicate 6 2, 0x0200A8C0, Vector.replicate 16 0⟩ 4000 hfit
  have hnet := hall _ _ _ _ next frames hfit hsend
  cases hfields with
  | cons hsent _ =>
    cases hnet with
    | cons hfirst _ => exact sentFields_not_networkOrder hsent hfirst

end IbverbPrototype.Udp
