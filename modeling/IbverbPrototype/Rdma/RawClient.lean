import IbverbPrototype.Foundations.NoisyDelivery
import IbverbPrototype.Rdma.Conversation
import IbverbPrototype.Roce.AlteredFrames
import IbverbPrototype.Roce.HostFrames

/-! The raw-socket sender in the place of the client, over a network that loses, doubles and
reorders frames and alters bits of them. -/
namespace IbverbPrototype.Rdma
open Foundations.ByteOrder Foundations.CheckedMemory Foundations.Delivering Foundations.EventSystem
open Foundations.LossyChannel Foundations.NoisyDelivery Address Roce

/-- The memory that begins at the packet, and the counter. -/
structure RawHost where
  mem : List Byte
  count : BitVec 32

/-- One loop body of the host sender; a send that fails ends the program. -/
def hostRound (headerCrc : BitVec 32) (s : RawHost) (answer : Bool) : Option (RawHost × List Byte) :=
  match hostIteration s.mem headerCrc s.count with
  | .error _ => none
  | .ok (mem, frame) => if answer then some (⟨mem, s.count+1⟩, frame) else none

/-- The host sender on initialised headers, four writable bytes lying behind the packet. -/
def hostSender (src dest : Addr) (qp : BitVec 32) (cells : Vector Byte 4) : Sender RawHost Bool (List Byte) :=
  let initialised := initInvariantHeaders zeroPacket src dest qp
  ⟨⟨initialised.1.bytes ++ cells.toList, 0⟩, fun s answer =>
    (hostRound initialised.2 s answer).map (fun next => (next.1, some next.2))⟩

/-- The data array before round k. -/
def heldData : Nat → List Byte
  | 0 => List.replicate msgSize 0
  | k+1 => messagePayload (heldData k) (BitVec.ofNat 32 k)

theorem heldData_length (k : Nat) : (heldData k).length = msgSize := by
  induction k with
  | zero => exact List.length_replicate
  | succ k ih => exact messagePayload_length _ ih

/-- Until the counter overflows the data array holds the message of the round in zeros. -/
theorem heldData_numbered {k : Nat} (hk : k < 2^31) : ZeroTail (heldData k) k ∧ heldData (k+1) = numberedPayload k := by
  induction k with
  | zero =>
    have hzero : ZeroTail (heldData 0) 0 := by rw [ZeroTail, heldData, List.drop_replicate]
    exact ⟨hzero,messagePayload_numbered hk hzero⟩
  | succ k ih =>
    have htail : ZeroTail (heldData (k+1)) (k+1) := by
      rw [(ih (by omega)).2]
      exact numberedPayload_zeroTail hk
    exact ⟨htail,messagePayload_numbered hk htail⟩

theorem heldData_head (k : Nat) : (heldData (k+1)).headD 0 = 0x4D := by
  rw [heldData, messagePayload, messageText, Foundations.FormattedText.ascii, List.map_append]
  rfl

/-- What the packet's memory holds before round k. -/
structure HostKept (header : List Byte) (k : Nat) (s : RawHost) : Prop where
  mem : ∃ cells, cells.length = 4 ∧ s.mem = header ++ heldData k ++ cells
  count : s.count = BitVec.ofNat 32 k

variable {src dest : Addr} {qp : BitVec 32} {cells : Vector Byte 4} {q : QueuePair}

/-- A round of the host sender, as long as its send does not fail. -/
theorem hostRound_kept {header : List Byte} (headerCrc : BitVec 32) (hh : header.length = dataOffset) {k : Nat}
    {s : RawHost} (hs : HostKept header k s) :
    ∃ t, HostKept header (k+1) t ∧ ∀ answer, hostRound headerCrc s answer =
      if answer then some (t, header ++ heldData (k+1) ++ toLittle 4 (crc32 headerCrc (heldData (k+1)))) else none := by
  obtain ⟨mem,_⟩ := s
  obtain ⟨⟨cells,hcells,rfl⟩,rfl⟩ := hs
  have hround := hostIteration_frame headerCrc (BitVec.ofNat 32 k) hh (heldData_length k) hcells
  refine ⟨⟨header ++ heldData (k+1) ++ toLittle 4 (crc32 headerCrc (heldData (k+1))), BitVec.ofNat 32 (k+1)⟩,
    ⟨⟨_,toLittle_length 4 _,rfl⟩,rfl⟩,?_⟩
  intro answer
  rw [hostRound, hround, BitVec.ofNat_add k 1]
  rfl

/-- Frame k: the initialised headers, what the data array holds and the checksum of both. -/
def hostFrame (src dest : Addr) (qp : BitVec 32) (k : Nat) : List Byte :=
  let initialised := initInvariantHeaders zeroPacket src dest qp
  slice initialised.1.bytes 0 dataOffset ++ heldData (k+1) ++ toLittle 4 (crc32 initialised.2 (heldData (k+1)))

theorem hostSender_keeps (src dest : Addr) (qp : BitVec 32) (cells : Vector Byte 4) :
    (hostSender src dest qp cells).Keeps
      (HostKept (slice (initInvariantHeaders zeroPacket src dest qp).1.bytes 0 dataOffset))
      (fun k frame => frame = hostFrame src dest qp k) where
  origin := by
    refine ⟨⟨cells.toList,Vector.length_toList,?_⟩,rfl⟩
    simp only [hostSender]
    rw [header_bytes, Packet.bytes]
    rfl
  step := by
    intro k s answer t out hs hstep
    obtain ⟨next,hnext,hround⟩ := hostRound_kept (initInvariantHeaders zeroPacket src dest qp).2
      (header_length (initInvariantHeaders zeroPacket src dest qp).1) hs
    simp only [hostSender, hround] at hstep
    cases answer with
    | false => cases hstep
    | true =>
      obtain ⟨rfl,rfl⟩ := Prod.mk.inj (Option.some_inj.mp hstep)
      refine ⟨hnext,?_⟩
      rintro _ ⟨⟩
      rfl

theorem hostSender_goesOn (k : Nat) (s : RawHost)
    (hs : HostKept (slice (initInvariantHeaders zeroPacket src dest qp).1.bytes 0 dataOffset) k s) :
    ∃ answer t frame, (hostSender src dest qp cells).step s answer = some (t, some frame) := by
  obtain ⟨t,-,hround⟩ := hostRound_kept (initInvariantHeaders zeroPacket src dest qp).2
    (header_length (initInvariantHeaders zeroPacket src dest qp).1) hs
  refine ⟨true,t,hostFrame src dest qp k,?_⟩
  simp only [hostSender, hround]
  rfl

/-- The k-th frame goes to the queue pair it is for. -/
theorem hostSender_admitted (hq : q.mac = dest.mac ∧ q.gid = dest.ipv6 ∧ q.number = qp.toNat % 2^24) :
    (hostSender src dest qp cells).Keeps
      (HostKept (slice (initInvariantHeaders zeroPacket src dest qp).1.bytes 0 dataOffset))
      (fun k frame => admits q frame = some (heldData (k+1))) := by
  refine (hostSender_keeps src dest qp cells).mono ?_
  rintro k _ rfl
  exact (init_frame_admitted q src dest qp (heldData_length (k+1))).trans (if_pos hq)

/-- The line for any message of the raw sender in the j-th receive: the first byte of its text. -/
def textLine (n j : Nat) : MessageLine := ⟨j % n, 0x4D, 40+msgSize⟩

theorem messageLines_heldData {n k : Nat} {arrived : List Nat} (hk : k ≤ arrived.length) :
    messageLines n (fun m => heldData (m+1)) arrived k = (List.range k).map (textLine n) := by
  have hline : messageLine n (fun m => heldData (m+1)) = fun j _ => textLine n j := by
    funext j m
    rw [messageLine, heldData_head, heldData_length]
    rfl
  rw [messageLines, hline]
  apply List.ext_getElem
  · rw [List.length_mapIdx, List.length_take_of_le hk, List.length_map, List.length_range]
  · intro i _ _
    rw [List.getElem_mapIdx, List.getElem_map, List.getElem_range]

/-- A server that has printed a line for each message it has looked at, or one more for the failed
receive it stopped at. -/
def CountsMessages (n : Nat) (arrived : List Nat) (server : Machine ServerState RecvBody) : Prop :=
  (server.looked ≤ arrived.length ∧ server.state.printed = (List.range server.looked).map (textLine n)) ∨
    ¬ server.Running ∧ ∃ k line, k ≤ arrived.length ∧ server.state.printed = (List.range k).map (textLine n) ++ [line]

/-- Every frame carries the message of its round to the queue pair, what the server gets are
messages that were sent, as they were sent, and its lines count them. -/
structure RawConveyed (n : Nat) (q : QueuePair) (d : Noisy RawHost (List Byte) Listener) : Prop where
  sent : ∀ m frame, d.sent[m]? = some frame → m < 2^31 → admits q frame = some (numberedPayload m)
  authentic : ∀ m ∈ d.arrived, m < d.sent.length
  taken : d.sent.length ≤ 2^31 →
    (receipts d.receiver.heard).filter Receipt.succeeded = d.arrived.map (messageReceipt numberedPayload)
  printed : CountsMessages n d.arrived d.receiver.server

variable {n : Nat} {region : Region} {memory : Nat → Byte} {d : Noisy RawHost (List Byte) Listener}

/-- To the server a network that alters bits of the frames is one that loses frames. -/
theorem raw_explained (hq : q.mac = dest.mac ∧ q.gid = dest.ipv6 ∧ q.number = qp.toNat % 2^24)
    (h : ArisesNoisy Burst (hostSender src dest qp cells) (admits q) (serverReceiver n region memory) d) :
    ∃ x, Arises anyNetwork (hostSender src dest qp cells) (admits q) (serverReceiver n region memory) x ∧
      Explains Burst (admits q) d x :=
  noise_explained (fun _ _ hburst haccepted => burst_harmless haccepted hburst)
    ((hostSender_admitted hq).mono (fun _ _ hadmits => hadmits ▸ Option.some_ne_none _)) h

/-- What the server heard of the raw sender: its successful receipts are the messages that arrived. -/
theorem raw_heard (hq : q.mac = dest.mac ∧ q.gid = dest.ipv6 ∧ q.number = qp.toNat % 2^24)
    (h : ArisesNoisy Burst (hostSender src dest qp cells) (admits q) (serverReceiver n region memory) d) :
    run (step (serverProgram region) n) d.receiver.heard (serverStart n memory) = some d.receiver.server ∧
      (∀ m ∈ d.arrived, m < d.sent.length) ∧ (d.sent.length ≤ 2^31 →
        (receipts d.receiver.heard).filter Receipt.succeeded = d.arrived.map (messageReceipt numberedPayload)) := by
  obtain ⟨x,hx,hexplains⟩ := raw_explained hq h
  have hauthentic := reachable_authentic (link_channel (delivery_link hx)).unrestricted
  obtain ⟨hrun,hheard⟩ := listener_heard (hostSender_admitted hq) hx
  rw [hexplains.sent] at hauthentic
  rw [hexplains.receiver] at hrun hheard
  rw [hexplains.arrived] at hheard
  have harrived : ∀ m ∈ d.arrived, m < d.sent.length := by
    intro m hm
    rw [← hexplains.arrived] at hm
    exact hauthentic m (List.mem_append_left _ (List.mem_append_left _ hm))
  refine ⟨hrun,harrived,?_⟩
  intro hbound
  rw [hheard]
  refine List.map_congr_left ?_
  intro m hm
  have hsame := (heldData_numbered ((harrived m hm).trans_le hbound)).2
  rw [messageReceipt, messageReceipt, hsame]

/-- Another checksum makes a burst. -/
theorem hostFrame_trailer (src dest : Addr) (qp : BitVec 32) (k : Nat) {trailer : List Byte} (ht : trailer.length = 4) :
    Burst (hostFrame src dest qp k) (slice (initInvariantHeaders zeroPacket src dest qp).1.bytes 0 dataOffset ++
      heldData (k+1) ++ trailer) := by
  exact (trailer_burst (header_length _) (toLittle_length 4 _) ht).1

end IbverbPrototype.Rdma
