import IbverbPrototype.Address.CommandLines
import IbverbPrototype.Roce.AlteredFrames
import IbverbPrototype.Roce.HostFrames

/-! From the command line of the raw-socket sender to the queue pairs that take its frames, as
they were sent or altered on the way. -/
namespace IbverbPrototype.Roce
open Foundations Foundations.ByteOrder Foundations.CheckedMemory Foundations.Halting Address

/-- What the loop hands over for initialised headers, four writable bytes lying behind the packet. -/
def hostFrames (src dest : Addr) (qp : BitVec 32) (cells : Vector Byte 4) (answers : List Bool) : List (List Byte) :=
  let initialised := initInvariantHeaders zeroPacket src dest qp
  (ibHostSendLoop initialised.2 answers 0 (initialised.1.bytes ++ cells.toList)).2

/-- Where a host command line sends: to the hardware address resolved for its host, to the GID and
the queue pair of its texts. A GID that is rejected is zero. -/
structure Destination (lib : Library) (ifname host gid queuePair : String) (q : QueuePair) : Prop where
  mac : ∃ ipv4, lib.getaddrinfo host = some ipv4 ∧ lib.siocgarp ifname ipv4 = some q.mac
  gid : q.gid = (lib.inetPtonInet6 gid).getD zeroAddr.ipv6
  number : q.number = (lib.atoi queuePair).toNat % 2^24

variable {src dest : Addr} {qp : BitVec 32} {cells : Vector Byte 4} {answers : List Bool} {k : Nat}

/-- The memory of a run on the zeroed packet. -/
theorem initialised_memory (src dest : Addr) (qp : BitVec 32) (cells : List Byte) :
    (initInvariantHeaders zeroPacket src dest qp).1.bytes ++ cells =
      slice (initInvariantHeaders zeroPacket src dest qp).1.bytes 0 dataOffset ++ List.replicate msgSize 0 ++ cells := by
  rw [header_bytes, Packet.bytes]
  congr 2

theorem hostFrames_length : (hostFrames src dest qp cells answers).length = roundsSent answers := by
  simp only [hostFrames, initialised_memory]
  exact hostLoop_length _ (header_length _) answers 0 _ _ List.length_replicate Vector.length_toList

theorem hostFrames_numbered (hk : k < roundsSent answers) (hbound : k < 2^31) :
    (hostFrames src dest qp cells answers)[k]? =
      some (numberedFrame (slice (initInvariantHeaders zeroPacket src dest qp).1.bytes 0 dataOffset)
        (initInvariantHeaders zeroPacket src dest qp).2 k) := by
  have hzero : ZeroTail (List.replicate msgSize 0) 0 := by rw [ZeroTail, List.drop_replicate]
  have hframe := hostLoop_frames (initInvariantHeaders zeroPacket src dest qp).2
    (header_length (initInvariantHeaders zeroPacket src dest qp).1) answers 0 _ cells.toList List.length_replicate
    Vector.length_toList (fun _ => hzero) k hk (by omega)
  rw [Nat.zero_add] at hframe
  simp only [hostFrames, initialised_memory]
  exact hframe

/-- A frame of a run by its number. -/
theorem hostFrames_frame {frame : List Byte} (hframe : (hostFrames src dest qp cells answers)[k]? = some frame)
    (hbound : k < 2^31) :
    frame = numberedFrame (slice (initInvariantHeaders zeroPacket src dest qp).1.bytes 0 dataOffset)
      (initInvariantHeaders zeroPacket src dest qp).2 k := by
  have hk : k < roundsSent answers := hostFrames_length ▸ (List.getElem?_eq_some_iff.mp hframe).1
  rw [hostFrames_numbered hk hbound] at hframe
  exact (Option.some_inj.mp hframe).symm

theorem numberedFrame_length {header : List Byte} (headerCrc : BitVec 32) (hh : header.length = dataOffset)
    (hbound : k < 2^31) : (numberedFrame header headerCrc k).length = dataOffset+msgSize+4 := by
  rw [numberedFrame, List.length_append, List.length_append, hh, numberedPayload_length hbound, toLittle_length]

theorem hostFrames_frame_length {frame : List Byte} (hframe : (hostFrames src dest qp cells answers)[k]? = some frame)
    (hbound : k < 2^31) : frame.length = dataOffset+msgSize+4 := by
  rw [hostFrames_frame hframe hbound]
  exact numberedFrame_length _ (header_length _) hbound

theorem hostFrames_admitted (q : QueuePair) {frame : List Byte}
    (hframe : (hostFrames src dest qp cells answers)[k]? = some frame) (hbound : k < 2^31) :
    admits q frame =
      if q.mac = dest.mac ∧ q.gid = dest.ipv6 ∧ q.number = qp.toNat % 2^24 then some (numberedPayload k) else none := by
  rw [hostFrames_frame hframe hbound]
  exact init_frame_admitted q src dest qp (numberedPayload_length hbound)

/-- Every frame of a run is for some queue pair. -/
theorem hostFrames_taken {frame : List Byte} (hframe : (hostFrames src dest qp cells answers)[k]? = some frame)
    (hbound : k < 2^31) : ∃ q, admits q frame ≠ none := by
  refine ⟨⟨dest.mac, dest.ipv6, qp.toNat % 2^24⟩,?_⟩
  rw [hostFrames_admitted _ hframe hbound, if_pos ⟨rfl,rfl,rfl⟩]
  exact Option.some_ne_none _

/-- What a host command line comes to. -/
theorem rawIbverbs_host {lib : Library} {argv : List String} {ifname host gid queuePair : String} {start : RawStart}
    (hform : rawForm argv = some (.host ifname host gid queuePair)) (hstart : rawIbverbs lib argv = .ok start)
    (q : QueuePair) :
    q.mac = start.remote.mac ∧ q.gid = start.remote.ipv6 ∧ q.number = start.queuePair.toNat % 2^24 ↔
      Destination lib ifname host gid queuePair q := by
  simp only [rawIbverbs, bind_eq_ok, hform, orExit_eq_ok, Option.some.injEq, exists_eq_left', rawAddresses,
    lookupRemoteAddr, deref_eq_ok, require_eq_ok, Except.ok.injEq] at hstart
  obtain ⟨-,-,localAddr,-,remote,⟨ipv4,hipv4,-,-,mac,hmac,rfl⟩,-,-,rfl⟩ := hstart
  constructor
  · rintro ⟨hqmac,hqgid,hqnumber⟩
    exact ⟨⟨ipv4,hipv4,hqmac ▸ hmac⟩,hqgid,hqnumber⟩
  · rintro ⟨⟨ipv4',hipv4',hqmac⟩,hqgid,hqnumber⟩
    obtain rfl := Option.some_inj.mp (hipv4.symm.trans hipv4')
    exact ⟨Option.some_inj.mp (hqmac.symm.trans hmac),hqgid,hqnumber⟩

/-- A system on which the host of a small network resolves. -/
def hostLibrary : Library where
  __ := plainLibrary
  getaddrinfo host := if host = "10.149.5.104" then some 0x6805950a else none
  siocgarp _ _ := some (Vector.replicate 6 2)
  ifNametoindex _ := 1
  atoi text := if text = "17" then 17 else 0

/-- What a numbered frame is behind its Ethernet header. -/
theorem numberedFrame_drop {header : List Byte} (headerCrc : BitVec 32) (k : Nat) (hh : header.length = dataOffset) :
    (numberedFrame header headerCrc k).drop sizeofEthHdr =
      header.drop sizeofEthHdr ++ numberedPayload k ++ toLittle 4 (crc32 headerCrc (numberedPayload k)) := by
  have hle : sizeofEthHdr ≤ header.length := hh ▸ Nat.le_add_right _ _
  rw [numberedFrame, List.append_assoc, List.drop_append_of_le_length hle, List.append_assoc]

/-- A burst that leaves the checksum as it is leaves the message as it is, and the queue pair too if
the Ethernet header still names its port. -/
theorem rewritten_admitted (q : QueuePair) {frame frame' : List Byte}
    (hframe : (hostFrames src dest qp cells answers)[k]? = some frame) (hbound : k < 2^31)
    (hlen : frame'.length = frame.length) (hnone : ∀ i, CoveredBit i → ¬ Altered frame frame' i) :
    admits q frame' =
      if ((WireFormat.parseEthernet frame').dest = q.mac.toList ∧ (WireFormat.parseEthernet frame').etherType = 0x8915) ∧
          q.gid = dest.ipv6 ∧ q.number = qp.toNat % 2^24 then some (numberedPayload k) else none := by
  have hbody := numberedFrame_drop (initInvariantHeaders zeroPacket src dest qp).2 k
    (header_length (initInvariantHeaders zeroPacket src dest qp).1)
  rw [← hostFrames_frame hframe hbound] at hbody
  have hpayload := numberedPayload_length hbound
  have hlong : sizeofEthHdr ≤ frame'.length := by
    rw [hlen, hostFrames_frame_length hframe hbound]
    decide
  -- the frame as it was sent, under the Ethernet header that arrived
  have htake : (frame'.take sizeofEthHdr).length = sizeofEthHdr := List.length_take_of_le hlong
  have hdrop : (frame'.take sizeofEthHdr ++ frame.drop sizeofEthHdr).drop sizeofEthHdr = frame.drop sizeofEthHdr :=
    List.drop_left' htake
  have hsame : admits q frame' = admits q (frame'.take sizeofEthHdr ++ frame.drop sizeofEthHdr) := by
    refine uncovered_admitted ?_ ?_ ?_
    · rw [List.length_append, htake, List.length_drop, ← hlen]
      omega
    · intro t
      rw [parseEthernet_append _ htake.ge, parseEthernet_take]
    · intro i hi
      rw [Altered, hdrop]
      exact hnone i hi
  rw [hsame, hbody, init_body_admitted q src dest qp htake hpayload, parseEthernet_take]

end IbverbPrototype.Roce
