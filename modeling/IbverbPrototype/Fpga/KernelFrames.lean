import IbverbPrototype.Fpga.HostSchedule
import IbverbPrototype.Roce.Adapter

/-! What arrives of the FPGA sender. Its frames are put together from a header one of two buffers
was created with, the checksum of another header and what the local array happens to hold. -/
namespace IbverbPrototype.Fpga
open Foundations Foundations.ByteOrder Foundations.CheckedMemory Foundations.EventSystem Roce

/-- The frame of one execution of a launch, joined from its lines. -/
def emitted (launch : Launch) (header data : List Byte) : Option (List Byte) := do
  let lines ← writeIbverbPacket header launch.headerCrc launch.headerSize launch.chan data (lineCount sendLength.toNat+1)
  reassemble (lines.map Prod.snd)

/-- A header that names a queue pair, announces the kernel's payload and has the checksum the
kernel was handed. -/
structure Usable (q : QueuePair) (headerCrc : BitVec 32) (header : List Byte) : Prop where
  addressed : addressed q (WireFormat.parseEthernet header)
    (WireFormat.parseTransport (header.drop sizeofEthHdr)) = true
  length : (WireFormat.parseTransport (header.drop sizeofEthHdr)).payloadLength = 24+msgSize
  padded : (WireFormat.parseTransport (header.drop sizeofEthHdr)).padCount = 0
  checksum : ibHeaderChecksum (IbHeaders.ofBytes (header.drop sizeofEthHdr)) = headerCrc

/-- What the queue pair gets of an execution is the payload in the local array. -/
def Delivers (q : QueuePair) (launch : Launch) (header : List Byte) : Prop :=
  ∀ data, data.length = localSize → ∃ frame, emitted launch header data = some frame ∧
    admits q frame = some (slice data fpgaHeaderSize.toNat msgSize)

/-- Different starting values never lead to one checksum. -/
theorem crc32_injective {data : List Byte} (h : data.length < 2^31) : Function.Injective (crc32 · data) := by
  intro a b hab
  simp only [crc32_eq_feed _ h] at hab
  exact (BitVec.xor_left_inj _).mp
    (ShiftRegister.feed_injective polynomial (by decide) (by decide) _ ((BitVec.xor_left_inj _).mp hab))

/-- A payload under a checksum started from one header is right for another exactly if both headers
have the same checksum. -/
theorem checksum_started {header payload : List Byte} (headerCrc : BitVec 32) (hh : header.length = sizeofIbHeaders)
    (hp : payload.length < 2^31) :
    toLittle 4 (crc32 headerCrc payload) = toLittle 4 (icrc header payload) ↔
      ibHeaderChecksum (IbHeaders.ofBytes header) = headerCrc := by
  have hicrc : icrc header payload = crc32 (ibHeaderChecksum (IbHeaders.ofBytes header)) payload := by
    rw [ibHeaderChecksum_eq, IbHeaders.bytes_ofBytes hh, crc32_extend _ hp, icrc]
  rw [hicrc, (toLittle_injective (by decide)).eq_iff, (crc32_injective hp).eq_iff, eq_comm]

/-- What an adapter makes of a frame of the kernel. -/
theorem kernelFrame_admitted (q : QueuePair) {header payload : List Byte} (headerCrc : BitVec 32)
    (hh : header.length = fpgaHeaderSize.toNat) (hp : payload.length = msgSize) :
    admits q (kernelFrame header headerCrc payload) = some payload ↔ Usable q headerCrc header := by
  have hmsg : msgSize = 8940 := rfl
  obtain ⟨htake,hdrop,hsplit⟩ := frame_split hh payload (toLittle 4 (crc32 headerCrc payload))
  rw [kernelFrame, hsplit, admits_parts q htake hdrop (toLittle_length 4 _), parseEthernet_take, Option.ite_none_right_eq_some,
    checksum_started headerCrc hdrop (by omega), Option.some_inj]
  constructor
  · rintro ⟨⟨hlength,haddressed,hchecksum⟩,hpayload⟩
    have hlen := congrArg List.length hpayload
    rw [List.length_take] at hlen
    exact ⟨haddressed,by omega,by omega,hchecksum⟩
  · rintro ⟨haddressed,hlength,hpadded,hchecksum⟩
    refine ⟨⟨by omega,haddressed,hchecksum⟩,?_⟩
    rw [hpadded, Nat.sub_zero, List.take_length]

/-- Every launch queued or executed is the one the host program makes. -/
structure Launched (headerCrc : BitVec 32) (s : Schedule) : Prop where
  queued : ∀ launch ∈ s.kernelQueue, launch = ⟨headerCrc, fpgaHeaderSize, 1⟩
  ran : ∀ launch header, s.ran = some (launch, header) → launch = ⟨headerCrc, fpgaHeaderSize, 1⟩

/-- What a command of the host or its queue does to the launches. -/
theorem launches_added {packet : Packet} {headerCrc : BitVec 32} {s t : Schedule} {e : ScheduleEvent}
    (he : e ≠ .kernelQueue) (ht : scheduleStep packet headerCrc s e = some t) :
    t.ran = s.ran ∧ (t.kernelQueue = s.kernelQueue ∨
      t.kernelQueue = s.kernelQueue ++ [⟨headerCrc, fpgaHeaderSize, 1⟩]) := by
  cases e with
  | kernelQueue => exact absurd rfl he
  | host =>
    simp only [scheduleStep, hostStep] at ht
    split at ht
    case h_5 =>
      obtain rfl := Option.some_inj.mp ht
      exact ⟨rfl,.inr rfl⟩
    case h_2 | h_6 =>
      split at ht
      · obtain rfl := Option.some_inj.mp ht
        exact ⟨rfl,.inl rfl⟩
      · cases ht
    case h_8 => cases ht
    all_goals
      obtain rfl := Option.some_inj.mp ht
      exact ⟨rfl,.inl rfl⟩
  | localQueue =>
    simp only [scheduleStep, localStep] at ht
    split at ht
    case h_1 => cases ht
    all_goals
      obtain rfl := Option.some_inj.mp ht
      exact ⟨rfl,.inl rfl⟩

theorem launched_run {packet : Packet} {headerCrc : BitVec 32} {d h : List Byte} {s : Schedule}
    (hs : Reachable (scheduleStep packet headerCrc) (ibFpgaSendLoop d h) s) : Launched headerCrc s := by
  refine hs.invariant ⟨by rintro _ ⟨⟩,by rintro _ _ ⟨⟩⟩ ?_
  intro s t e hi ht
  by_cases he : e = .kernelQueue
  · subst he
    simp only [scheduleStep, kernelStep] at ht
    split at ht
    case h_1 => cases ht
    case h_2 launch rest hqueue =>
      obtain rfl := Option.some_inj.mp ht
      refine ⟨fun l hl => hi.queued l (hqueue ▸ List.mem_cons_of_mem _ hl),?_⟩
      rintro _ _ ⟨⟩
      exact hi.queued launch (hqueue ▸ List.mem_cons_self)
  · obtain ⟨hran,hqueue⟩ := launches_added he ht
    refine ⟨?_,by rw [hran]; exact hi.ran⟩
    intro launch hlaunch
    obtain hsame | hmore := hqueue
    · exact hi.queued launch (hsame ▸ hlaunch)
    · rw [hmore] at hlaunch
      obtain hold | hnew := List.mem_append.mp hlaunch
      · exact hi.queued launch hold
      · exact List.mem_singleton.mp hnew

/-- The frame of the host program's launch. -/
theorem emitted_eq {header data : List Byte} (headerCrc : BitVec 32) (hh : header.length = fpgaHeaderSize.toNat)
    (hd : data.length = localSize) :
    emitted ⟨headerCrc, fpgaHeaderSize, 1⟩ header data =
      some (kernelFrame header headerCrc (slice data fpgaHeaderSize.toNat msgSize)) := by
  obtain ⟨lines,hrun,-,hjoin⟩ := kernel_reassembles headerCrc 1 hh hd (by decide)
    (show lineCount sendLength.toNat < lineCount sendLength.toNat+1 from Nat.lt_succ_self _)
  rw [emitted, hrun, Option.bind_eq_bind, Option.bind_some, hjoin]

variable {packet : Packet} {headerCrc : BitVec 32} {d h : List Byte}

/-- What one execution delivers, whatever the schedule and the local array. -/
theorem ran_delivers_iff (q : QueuePair) {s : Schedule} (hd : d.length = fpgaHeaderSize.toNat)
    (hh : h.length = fpgaHeaderSize.toNat)
    (hs : Reachable (scheduleStep packet headerCrc) (ibFpgaSendLoop d h) s) {launch : Launch} {header : List Byte}
    (hran : s.ran = some (launch, header)) : Delivers q launch header ↔ Usable q headerCrc header := by
  obtain rfl := (launched_run hs).ran _ _ hran
  have hlen : header.length = fpgaHeaderSize.toNat := by
    obtain rfl | rfl := (kernel_reads_stale hs).ran _ _ hran
    · exact hd
    · exact hh
  have hpayload {data : List Byte} (hdata : data.length = localSize) :
      (slice data fpgaHeaderSize.toNat msgSize).length = msgSize := slice_length (by rw [hdata]; decide)
  constructor
  · intro hdelivers
    have hzeros : (List.replicate localSize (0 : Byte)).length = localSize := List.length_replicate
    obtain ⟨frame,hframe,hadmits⟩ := hdelivers _ hzeros
    rw [emitted_eq headerCrc hlen hzeros, Option.some_inj] at hframe
    rw [← hframe] at hadmits
    exact (kernelFrame_admitted q headerCrc hlen (hpayload hzeros)).mp hadmits
  · intro husable data hdata
    exact ⟨_,emitted_eq headerCrc hlen hdata,(kernelFrame_admitted q headerCrc hlen (hpayload hdata)).mpr husable⟩

/-- Under every schedule and over every local array the queue pair gets the array's payload exactly
if both fresh buffers hold a header for it with the checksum of the packet's. -/
theorem kernel_delivers_iff (q : QueuePair) (packet : Packet) (headerCrc : BitVec 32)
    (hd : d.length = fpgaHeaderSize.toNat) (hh : h.length = fpgaHeaderSize.toNat) :
    (∀ s launch header, Reachable (scheduleStep packet headerCrc) (ibFpgaSendLoop d h) s →
      s.ran = some (launch, header) → Delivers q launch header) ↔ Usable q headerCrc d ∧ Usable q headerCrc h := by
  constructor
  · intro hall
    obtain ⟨s,hs,hran⟩ := early_kernel packet headerCrc d h
    obtain ⟨t,ht,hran'⟩ := late_kernel packet headerCrc d h
    exact ⟨(ran_delivers_iff q hd hh hs hran).mp (hall s _ _ hs hran),
      (ran_delivers_iff q hd hh ht hran').mp (hall t _ _ ht hran')⟩
  · rintro ⟨husable,husable'⟩ s launch header hs hran
    refine (ran_delivers_iff q hd hh hs hran).mpr ?_
    obtain rfl | rfl := (kernel_reads_stale hs).ran _ _ hran
    · exact husable
    · exact husable'

/-- Both buffers hold the header of the packet before the call, and its queue pair gets what is in
the local array. -/
theorem kernel_delivers_primed :
    let addr : Address.Addr := ⟨Vector.replicate 6 0, 0, Vector.replicate 16 0⟩
    let initialised := initInvariantHeaders zeroPacket addr addr 1
    let header := packetHeader initialised.1
    ∀ s launch header', Reachable (scheduleStep initialised.1 initialised.2) (ibFpgaSendLoop header header) s →
      s.ran = some (launch, header') → Delivers ⟨addr.mac, addr.ipv6, 1⟩ launch header' := by
  intro addr initialised header
  have hlen : header.length = fpgaHeaderSize.toNat := header_length initialised.1
  have hbytes : header.drop sizeofEthHdr = initialised.1.ibHeader.bytes := by
    have hheader : header = initialised.1.etherHeader.bytes ++ initialised.1.ibHeader.bytes :=
      header_bytes initialised.1
    rw [hheader, List.drop_left' (EthHdr.bytes_length _)]
  have husable : Usable ⟨addr.mac, addr.ipv6, 1⟩ initialised.2 header := by
    obtain ⟨hlength,hpadded,haddressed⟩ :=
      init_headers_addressed ⟨addr.mac, addr.ipv6, 1⟩ (WireFormat.parseEthernet header) addr addr 1
    refine ⟨haddressed.mpr ⟨?_,rfl,rfl⟩,hlength,hpadded,?_⟩
    · have hethernet : WireFormat.parseEthernet header = ⟨addr.mac.toList, addr.mac.toList, 0x8915⟩ :=
        init_headers_ethernet addr addr 1
      rw [hethernet]
      exact ⟨rfl,rfl⟩
    · rw [hbytes, IbHeaders.ofBytes_bytes]
      rfl
  exact (kernel_delivers_iff _ initialised.1 initialised.2 hlen hlen).mpr ⟨husable,husable⟩

end IbverbPrototype.Fpga
