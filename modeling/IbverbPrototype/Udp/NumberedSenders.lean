import IbverbPrototype.Foundations.LossyChannel
import IbverbPrototype.Udp.DatagramServer
import IbverbPrototype.Udp.RawUdp

/-! The two senders of numbered messages: the socket client and the raw-socket one. -/
namespace IbverbPrototype.Udp
open Foundations.ByteOrder Foundations.CheckedMemory Foundations.FormattedText Foundations.LossyChannel Address
open Roce (messageText messageText_length)

/-- The socket client's static buffer and its counter. -/
structure Client where
  udpBuffer : Vector Byte udpBufferSize
  count : BitVec 32

inductive ClientError where
  | message
  | sending
  | outOfBounds
  deriving DecidableEq

/-- One body of client_loop for what sendto returns: the client left behind and the bytes handed
over. -/
def clientRound (s : Client) (result : Int) : Except ClientError (Client × List Byte) :=
  let text := messageText s.count
  let udpBuffer := formatInto s.udpBuffer text
  if text.length ≥ udpBufferSize then .error .message
  else match load udpBuffer.toList 0 text.length with
    | none => .error .outOfBounds
    | some data => if result ≠ text.length then .error .sending else .ok (⟨udpBuffer, s.count+1⟩, data)

/-- The raw sender's buffer and its counter. -/
structure RawClient where
  buffer : EtherBuffer
  count : BitVec 32

/-- One loop body of the raw sender; a result of -1 ends the program. -/
def rawRound (s : RawClient) (result : Int) : Option (RawClient × List Byte) :=
  match sendMessage s.buffer (messageText s.count) with
  | .error _ => none
  | .ok (buffer, frame) => if result = -1 then none else some (⟨buffer, s.count+1⟩, frame)

/-- A round that fails ends the client; the others each put one datagram on the network. -/
def udpSender : Sender Client Int (List Byte) :=
  ⟨⟨Vector.replicate udpBufferSize 0, 0⟩, fun s result =>
    (clientRound s result).toOption.map (fun next => (next.1, some next.2))⟩

def rawSender (localAddr remote : Addr) (port : BitVec 32) : Sender RawClient Int (List Byte) :=
  ⟨⟨initHeaders zeroBuffer localAddr remote port, 0⟩, fun s result =>
    (rawRound s result).map (fun next => (next.1, some next.2))⟩

/-- What recvfrom hands over of a message from an address. -/
def receivedFrom (addr : BitVec 32) (message : List Byte) : Option Received :=
  if h : message.length ≤ udpBufferSize then some ⟨.inet addr, message, h⟩ else none

/-- What the host of the server makes of a frame: datagrams for another MAC, address or port are
not its own. -/
def hostAccepts (host : Addr) (port : Nat) (frame : List Byte) : Option Received := do
  let d ← WireFormat.parse frame
  if d.destMac = host.mac.toList ∧ d.destAddress = toLittle 4 host.ipv4 ∧ d.destPort = port then
    receivedFrom (ofLittle 32 d.sourceAddress) d.message
  else none

/-- Message k of a sender. -/
def numberedText (k : Nat) : List Byte := messageText (BitVec.ofNat 32 k)

theorem numberedText_length (k : Nat) : (numberedText k).length ≤ 20 := messageText_length _

def numberedMessage (addr : BitVec 32) (k : Nat) : Received :=
  ⟨.inet addr, numberedText k, (numberedText_length k).trans (by decide)⟩

theorem receivedFrom_numbered (addr : BitVec 32) (k : Nat) :
    receivedFrom addr (numberedText k) = some (numberedMessage addr k) := dif_pos _

/-- A round whose datagram goes out whole sends the message of its number. -/
theorem clientRound_eq (udpBuffer : Vector Byte udpBufferSize) (k : Nat) (result : Int) :
    clientRound ⟨udpBuffer, BitVec.ofNat 32 k⟩ result =
      if result ≠ (numberedText k).length then .error .sending
      else .ok (⟨formatInto udpBuffer (numberedText k), BitVec.ofNat 32 (k+1)⟩, numberedText k) := by
  have hroom : (numberedText k).length < udpBufferSize := (numberedText_length k).trans_lt (by decide)
  have hload : load (formatInto udpBuffer (numberedText k)).toList 0 (numberedText k).length =
      some (numberedText k) := by
    rw [load_eq (by rw [Vector.length_toList]; omega), slice, List.drop_zero, formatInto_take _ hroom]
  have hnext : BitVec.ofNat 32 (k+1) = BitVec.ofNat 32 k+1 := BitVec.ofNat_add k 1
  rw [hnext]
  change (if (numberedText k).length ≥ udpBufferSize then _ else
    match load (formatInto udpBuffer (numberedText k)).toList 0 (numberedText k).length with
    | none => _
    | some data => _) = _
  rw [if_neg (by omega), hload]
  rfl

/-- The k-th datagram of the client is message k. -/
theorem udpSender_keeps : udpSender.Keeps (fun k s => s.count = BitVec.ofNat 32 k)
    (fun k data => data = numberedText k) where
  origin := rfl
  step := by
    rintro k ⟨udpBuffer,_⟩ result t out rfl hstep
    simp only [udpSender, clientRound_eq] at hstep
    split at hstep
    · cases hstep
    · obtain ⟨rfl,rfl⟩ := Prod.mk.inj (Option.some_inj.mp hstep)
      refine ⟨rfl,?_⟩
      rintro _ ⟨⟩
      rfl

theorem udpSender_goesOn (k : Nat) (s : Client) (hs : s.count = BitVec.ofNat 32 k) :
    ∃ result t data, udpSender.step s result = some (t, some data) := by
  obtain ⟨udpBuffer,_⟩ := s
  obtain rfl := hs
  refine ⟨(numberedText k).length,⟨formatInto udpBuffer (numberedText k), BitVec.ofNat 32 (k+1)⟩,numberedText k,?_⟩
  simp only [udpSender, clientRound_eq, ne_eq, not_true_eq_false, if_false]
  rfl

variable {localAddr remote : Addr} {port : BitVec 32}

/-- The headers of the raw sender are set and its counter stands at k. -/
structure RawKept (localAddr remote : Addr) (port : BitVec 32) (k : Nat) (s : RawClient) : Prop where
  buffer : ∃ totLen check len udpData, s.buffer = framed localAddr remote port totLen check len udpData
  count : s.count = BitVec.ofNat 32 k

/-- A round of the raw sender, as long as sendto does not fail. -/
theorem rawRound_framed (hport : port.toNat < 2^16) {k : Nat} {s : RawClient} (hs : RawKept localAddr remote port k s) :
    ∃ t frame, RawKept localAddr remote port (k+1) t ∧
      WireFormat.parse frame = some (datagram localAddr remote port (numberedText k)) ∧
      ∀ result, rawRound s result = if result = -1 then none else some (t, frame) := by
  obtain ⟨buffer,_⟩ := s
  obtain ⟨⟨totLen,check,len,udpData,rfl⟩,rfl⟩ := hs
  have hroom : (numberedText k).length < maxMsgSize := (numberedText_length k).trans_lt (by decide)
  obtain ⟨check',next,hnext,hsend,-⟩ := sendMessage_framed localAddr remote port totLen check len udpData hroom
  have hadmitted : ∀ text ∈ [numberedText k], text.length < maxMsgSize := by simpa using hroom
  obtain ⟨next',frames,hall,hparse,-⟩ := sendMessages_framed hport hadmitted totLen check len udpData
  rw [sendMessages, hsend] at hall
  obtain ⟨-,rfl⟩ := Prod.mk.inj (Except.ok.inj hall)
  refine ⟨⟨next, BitVec.ofNat 32 (k+1)⟩,_,⟨⟨_,_,_,_,hnext⟩,rfl⟩,(List.cons.inj hparse).1,?_⟩
  intro result
  rw [rawRound]
  change (match sendMessage _ (numberedText k) with | .error _ => _ | .ok (buffer, frame) => _) = _
  rw [hsend, BitVec.ofNat_add k 1]
  rfl

/-- The k-th frame of the raw sender is message k in a datagram for its remote side. -/
theorem rawSender_keeps (hport : port.toNat < 2^16) : (rawSender localAddr remote port).Keeps
    (RawKept localAddr remote port)
    (fun k frame => WireFormat.parse frame = some (datagram localAddr remote port (numberedText k))) where
  origin := ⟨⟨0,0,0,_,initHeaders_framed localAddr remote port⟩,rfl⟩
  step := by
    intro k s result t out hs hstep
    obtain ⟨t',frame,ht',hparse,hround⟩ := rawRound_framed hport hs
    simp only [rawSender, hround] at hstep
    split at hstep
    · cases hstep
    · obtain ⟨rfl,rfl⟩ := Prod.mk.inj (Option.some_inj.mp hstep)
      refine ⟨ht',?_⟩
      rintro _ ⟨⟩
      exact hparse

theorem rawSender_goesOn (hport : port.toNat < 2^16) (k : Nat) (s : RawClient)
    (hs : RawKept localAddr remote port k s) :
    ∃ result t frame, (rawSender localAddr remote port).step s result = some (t, some frame) := by
  obtain ⟨t,frame,-,-,hround⟩ := rawRound_framed hport hs
  refine ⟨0,t,frame,?_⟩
  simp only [rawSender, hround]
  rfl

/-- The host the datagram is for takes the message out of it. -/
theorem hostAccepts_datagram {frame : List Byte} {k : Nat}
    (h : WireFormat.parse frame = some (datagram localAddr remote port (numberedText k))) :
    hostAccepts remote port.toNat frame = some (numberedMessage localAddr.ipv4 k) := by
  rw [hostAccepts, h]
  change (if remote.mac.toList = remote.mac.toList ∧ toLittle 4 remote.ipv4 = toLittle 4 remote.ipv4 ∧
    port.toNat = port.toNat then receivedFrom (ofLittle 32 (toLittle 4 localAddr.ipv4)) (numberedText k) else none) = _
  rw [if_pos ⟨rfl,rfl,rfl⟩, ofLittle_toLittle 4 localAddr.ipv4 (by decide), receivedFrom_numbered]

end IbverbPrototype.Udp
