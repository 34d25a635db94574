import IbverbPrototype.Address.LookupAddr
import IbverbPrototype.Foundations.FormattedText
import IbverbPrototype.Roce.HostSend
import IbverbPrototype.Udp.Checksum
import IbverbPrototype.Udp.WireFormat
import Mathlib.Data.List.Forall2

/-! The raw-socket UDP sender over its static buffer, and what a receiver makes of
the frames it sends. -/
namespace IbverbPrototype.Udp
open Foundations.ByteOrder Foundations.CheckedMemory Foundations.FormattedText Foundations.OnesComplement Address
open Roce (EthHdr sizeofEthHdr messageText messageText_length)

def ipMaxpacket : Nat := 65535
def sizeofIpHdr : Nat := 20
def sizeofUdpHdr : Nat := 8
def headerSize : Nat := sizeofEthHdr+sizeofIpHdr+sizeofUdpHdr
def maxMsgSize : Nat := ipMaxpacket-headerSize

structure IpHdr where
  ihl : BitVec 4
  version : BitVec 4
  tos : Byte
  totLen : BitVec 16
  id : BitVec 16
  fragOff : BitVec 16
  ttl : Byte
  protocol : Byte
  check : BitVec 16
  saddr : BitVec 32
  daddr : BitVec 32
  deriving DecidableEq

structure UdpHdr where
  source : BitVec 16
  dest : BitVec 16
  len : BitVec 16
  check : BitVec 16
  deriving DecidableEq

/-- The buffer as its header pointers and its data pointer divide it. -/
structure EtherBuffer where
  etherHeader : EthHdr
  ipHeader : IpHdr
  udpHeader : UdpHdr
  udpData : Vector Byte maxMsgSize

def IpHdr.bytes (h : IpHdr) : List Byte :=
  toLittle 1 (h.version ++ h.ihl) ++ [h.tos] ++ toLittle 2 h.totLen ++ toLittle 2 h.id ++ toLittle 2 h.fragOff ++
    [h.ttl, h.protocol] ++ toLittle 2 h.check ++ toLittle 4 h.saddr ++ toLittle 4 h.daddr

def UdpHdr.bytes (h : UdpHdr) : List Byte :=
  toLittle 2 h.source ++ toLittle 2 h.dest ++ toLittle 2 h.len ++ toLittle 2 h.check

def EtherBuffer.headerBytes (b : EtherBuffer) : List Byte :=
  b.etherHeader.bytes ++ b.ipHeader.bytes ++ b.udpHeader.bytes

def EtherBuffer.bytes (b : EtherBuffer) : List Byte := b.headerBytes ++ b.udpData.toList

@[simp] theorem IpHdr.bytes_length (h : IpHdr) : h.bytes.length = sizeofIpHdr := by simp [IpHdr.bytes, sizeofIpHdr]

@[simp] theorem UdpHdr.bytes_length (h : UdpHdr) : h.bytes.length = sizeofUdpHdr := by
  simp [UdpHdr.bytes, sizeofUdpHdr]

theorem EtherBuffer.headerBytes_length (b : EtherBuffer) : b.headerBytes.length = headerSize := by
  simp [EtherBuffer.headerBytes, headerSize, Nat.add_assoc]

theorem EtherBuffer.bytes_length (b : EtherBuffer) : b.bytes.length = ipMaxpacket := by
  rw [EtherBuffer.bytes, List.length_append, b.headerBytes_length, Vector.length_toList]
  rfl

/-- The static buffer at start-up. -/
def zeroBuffer : EtherBuffer where
  etherHeader := ⟨Vector.replicate 6 0, Vector.replicate 6 0, 0⟩
  ipHeader := ⟨0, 0, 0, 0, 0, 0, 0, 0, 0, 0, 0⟩
  udpHeader := ⟨0, 0, 0, 0⟩
  udpData := Vector.replicate maxMsgSize 0

/-- The fields written once, before the loop. The port is the int that was parsed. -/
def initHeaders (buffer : EtherBuffer) (localAddr remote : Addr) (port : BitVec 32) : EtherBuffer :=
  { buffer with
    etherHeader := ⟨remote.mac, localAddr.mac, htons 0x0800⟩
    ipHeader := { buffer.ipHeader with
      ihl := 5
      version := 4
      tos := 0
      id := (htonl 54321).setWidth 16
      fragOff := 0
      ttl := 255
      protocol := 17
      daddr := remote.ipv4
      saddr := localAddr.ipv4 }
    udpHeader := { buffer.udpHeader with
      dest := htons (port.setWidth 16)
      source := htons 4242
      check := 0 } }

/-- A size_t sum stored in 16 bits. -/
def totalLength (msgSize : Nat) : BitVec 16 := (BitVec.ofNat 64 headerSize+BitVec.ofNat 64 msgSize).setWidth 16

def ipLength (totalLength : BitVec 16) : BitVec 16 :=
  (totalLength.setWidth 64-BitVec.ofNat 64 sizeofEthHdr).setWidth 16

/-- The argument of the conversion for the UDP length, an int sum cut to 16 bits. -/
def udpLength (msgSize : Nat) : BitVec 16 := (8+BitVec.ofNat 32 msgSize).setWidth 16

inductive UdpError where
  | message
  | outOfBounds
  deriving DecidableEq

def checked {α : Type} : Option α → Except UdpError α
  | some a => .ok a
  | none => .error .outOfBounds

/-- One loop body for the text its formatting call produces: the buffer left behind
and the bytes handed to sendto. -/
def sendMessage (buffer : EtherBuffer) (text : List Byte) : Except UdpError (EtherBuffer × List Byte) := do
  let buffer := { buffer with udpData := formatInto buffer.udpData text }
  if text.length ≥ maxMsgSize then .error .message else
  let total := totalLength text.length
  let ipHeader := { buffer.ipHeader with totLen := htons (ipLength total), check := 0 }
  let udpHeader := { buffer.udpHeader with len := htons (udpLength text.length) }
  let check ← checked (ipv4check ipHeader.bytes sizeofIpHdr)
  let buffer := { buffer with ipHeader := { ipHeader with check := check }, udpHeader := udpHeader }
  let frame ← checked (load buffer.bytes 0 total.toNat)
  .ok (buffer, frame)

/-- The loop over the texts of its rounds, as long as each call succeeds. -/
def sendMessages (buffer : EtherBuffer) : List (List Byte) → Except UdpError (EtherBuffer × List (List Byte))
  | [] => .ok (buffer, [])
  | text::texts => do
    let (buffer, frame) ← sendMessage buffer text
    let (buffer, frames) ← sendMessages buffer texts
    .ok (buffer, frame::frames)

/-- The texts of the program's own rounds. -/
def roundTexts (rounds : Nat) : List (List Byte) := (List.range rounds).map (fun k => messageText (BitVec.ofNat 32 k))

/-- The lengths the code computes are the ones it means, up to the largest message. -/
theorem lengths_toNat {n : Nat} (h : n < maxMsgSize) :
    (totalLength n).toNat = headerSize+n ∧ (ipLength (totalLength n)).toNat = sizeofIpHdr+sizeofUdpHdr+n ∧
      (udpLength n).toNat = sizeofUdpHdr+n := by
  have hmax : maxMsgSize = 65493 := rfl
  have hheader : headerSize = 42 := rfl
  have hether : sizeofEthHdr = 14 := rfl
  have hip : sizeofIpHdr = 20 := rfl
  have hudp : sizeofUdpHdr = 8 := rfl
  have height : (8 : BitVec 32).toNat = 8 := rfl
  have htotal : (totalLength n).toNat = headerSize+n := by
    rw [totalLength, BitVec.toNat_setWidth, BitVec.toNat_add, BitVec.toNat_ofNat, BitVec.toNat_ofNat]
    omega
  refine ⟨htotal,?_,?_⟩
  · rw [ipLength, BitVec.toNat_setWidth, BitVec.toNat_sub, BitVec.toNat_setWidth, BitVec.toNat_ofNat, htotal]
    omega
  · rw [udpLength, BitVec.toNat_setWidth, BitVec.toNat_add, height, BitVec.toNat_ofNat]
    omega

/-- The buffer of a sender between two addresses, whatever its last message left. -/
def framed (localAddr remote : Addr) (port : BitVec 32) (totLen check len : BitVec 16)
    (udpData : Vector Byte maxMsgSize) : EtherBuffer where
  etherHeader := ⟨remote.mac, localAddr.mac, htons 0x0800⟩
  ipHeader := ⟨5, 4, 0, totLen, (htonl 54321).setWidth 16, 0, 255, 17, check, localAddr.ipv4, remote.ipv4⟩
  udpHeader := ⟨htons 4242, htons (port.setWidth 16), len, 0⟩
  udpData := udpData

/-- The headers set before the loop are those of a sender. -/
theorem initHeaders_framed (localAddr remote : Addr) (port : BitVec 32) :
    initHeaders zeroBuffer localAddr remote port =
      framed localAddr remote port 0 0 0 (Vector.replicate maxMsgSize 0) := rfl

private theorem ip_bytes (h : IpHdr) :
    ∃ pre post, pre.length = 10 ∧ post.length = 8 ∧
      ∀ check, { h with check := check }.bytes = pre ++ toLittle 2 check ++ post :=
  ⟨toLittle 1 (h.version ++ h.ihl) ++ [h.tos] ++ toLittle 2 h.totLen ++ toLittle 2 h.id ++ toLittle 2 h.fragOff ++
    [h.ttl, h.protocol],toLittle 4 h.saddr ++ toLittle 4 h.daddr,by simp,by simp,
    fun check => by simp only [IpHdr.bytes, List.append_assoc]⟩

/-- The checksum the loop stores makes the header's network-order words sum to all ones. -/
theorem ip_header_checksum (h : IpHdr) :
    ∃ check, ipv4check { h with check := 0 }.bytes sizeofIpHdr = some check ∧
      (onesSum (WireFormat.bigWords { h with check := check }.bytes)).toNat = 0xFFFF := by
  obtain ⟨pre,post,hpre,hpost,hbytes⟩ := ip_bytes h
  have hlen : (pre ++ [0, 0] ++ post).length = 2*10 := by simp [hpre, hpost]
  obtain ⟨check,hcheck,hsum⟩ := ipv4check_completes (j := 5) hpre hlen (by decide)
  refine ⟨check,?_,?_⟩
  · rw [hbytes 0]
    exact hcheck
  · rw [onesSum_toNat (by decide), WireFormat.bigWords_values (k := 10) (IpHdr.bytes_length _), hbytes check]
    exact hsum

/-- One round for any message the guard admits: the headers stay set, and the frame is
the header bytes followed by the message. -/
theorem sendMessage_framed (localAddr remote : Addr) (port : BitVec 32) (totLen check len : BitVec 16)
    (udpData : Vector Byte maxMsgSize) {text : List Byte} (ht : text.length < maxMsgSize) :
    ∃ check' next, next = framed localAddr remote port (htons (ipLength (totalLength text.length))) check'
        (htons (udpLength text.length)) (formatInto udpData text) ∧
      sendMessage (framed localAddr remote port totLen check len udpData) text =
        .ok (next, next.headerBytes ++ text) ∧
      (onesSum (WireFormat.bigWords next.ipHeader.bytes)).toNat = 0xFFFF := by
  obtain ⟨check',hcheck,hsum⟩ := ip_header_checksum
    { (framed localAddr remote port totLen check len udpData).ipHeader with
      totLen := htons (ipLength (totalLength text.length)) }
  refine ⟨check',_,rfl,?_,hsum⟩
  have hload (b : EtherBuffer) (hb : b.udpData = formatInto udpData text) :
      load b.bytes 0 (totalLength text.length).toNat = some (b.headerBytes ++ text) := by
    have hh := b.headerBytes_length
    rw [(lengths_toNat ht).1, load_eq, ← hh, slice, List.drop_zero, EtherBuffer.bytes,
      List.take_length_add_append, hb, formatInto_take _ ht]
    rw [b.bytes_length]
    have hmax : maxMsgSize+headerSize = ipMaxpacket := rfl
    omega
  simp only [sendMessage, framed] at hcheck ⊢
  rw [if_neg (by omega), hcheck]
  simp only [checked, bind, Except.bind]
  rw [hload _ rfl]

/-- What a receiver is meant to get from one message. -/
def datagram (localAddr remote : Addr) (port : BitVec 32) (text : List Byte) : WireFormat.Datagram :=
  ⟨remote.mac.toList, localAddr.mac.toList, toLittle 4 localAddr.ipv4, toLittle 4 remote.ipv4, 4242, port.toNat, text⟩

private theorem framed_parses {localAddr remote : Addr} {port : BitVec 32} (hport : port.toNat < 2^16)
    {totLen check len : BitVec 16} (udpData : Vector Byte maxMsgSize) {text : List Byte}
    (htot : totLen.toNat = sizeofIpHdr+sizeofUdpHdr+text.length) (hlen : len.toNat = sizeofUdpHdr+text.length)
    (hsum : (onesSum (WireFormat.bigWords
      (framed localAddr remote port (htons totLen) check (htons len) udpData).ipHeader.bytes)).toNat = 0xFFFF) :
    WireFormat.parse ((framed localAddr remote port (htons totLen) check (htons len) udpData).headerBytes ++ text) =
      some (datagram localAddr remote port text) := by
  obtain ⟨b,hb⟩ : ∃ b, framed localAddr remote port (htons totLen) check (htons len) udpData = b := ⟨_,rfl⟩
  have hdrop : (b.headerBytes ++ text).drop 14 = b.ipHeader.bytes ++ (b.udpHeader.bytes ++ text) := by
    rw [EtherBuffer.headerBytes, List.append_assoc, List.append_assoc]
    exact List.drop_left' (EthHdr.bytes_length _)
  have hip : slice (b.ipHeader.bytes ++ (b.udpHeader.bytes ++ text)) 0 20 = b.ipHeader.bytes :=
    List.take_left' (IpHdr.bytes_length _)
  have hvalid : onesSum (WireFormat.bigWords b.ipHeader.bytes) = 0xFFFF := BitVec.eq_of_toNat_eq (hb ▸ hsum)
  have hproto : toLittle 2 (htons 0x0800) = [0x08, 0x00] := by decide
  have hunit : toLittle 1 ((4 : BitVec 4) ++ (5 : BitVec 4)) = [0x45] := by decide
  have hid : toLittle 2 ((htonl 54321).setWidth 16) = [0, 0] := by decide
  have hsource : toLittle 2 (htons 4242) = [0x10, 0x92] := by decide
  have hzero : toLittle 2 (0 : BitVec 16) = [0, 0] := by decide
  have hp : (port.setWidth 16).toNat = port.toNat := by rw [BitVec.toNat_setWidth, Nat.mod_eq_of_lt hport]
  rw [hb, WireFormat.parse, hdrop, WireFormat.acceptsIp, WireFormat.acceptsUdp, hip, hvalid, ← hb]
  simp only [EtherBuffer.headerBytes, framed, IpHdr.bytes, UdpHdr.bytes, EthHdr.bytes, hproto, hunit, hid, hsource,
    hzero, datagram]
  simp [slice, List.drop_append, List.drop_eq_nil_of_le, List.take_append, bigValue_htons, hp, htot, hlen,
    sizeofIpHdr, sizeofUdpHdr]
  refine ⟨⟨by decide,⟨by omega,by decide,by decide,by omega,by decide⟩,by omega,by decide⟩,by decide⟩

/-- What every frame between set headers has, every frame of a run has. -/
theorem sendMessages_each {localAddr remote : Addr} {port : BitVec 32} {P : List Byte → List Byte → Prop}
    (hframe : ∀ text check udpData, text.length < maxMsgSize →
      (onesSum (WireFormat.bigWords (framed localAddr remote port (htons (ipLength (totalLength text.length))) check
        (htons (udpLength text.length)) udpData).ipHeader.bytes)).toNat = 0xFFFF →
      P text ((framed localAddr remote port (htons (ipLength (totalLength text.length))) check
        (htons (udpLength text.length)) udpData).headerBytes ++ text))
    {texts : List (List Byte)} (ht : ∀ text ∈ texts, text.length < maxMsgSize) (totLen check len : BitVec 16)
    (udpData : Vector Byte maxMsgSize) :
    ∃ next frames, sendMessages (framed localAddr remote port totLen check len udpData) texts = .ok (next, frames) ∧
      List.Forall₂ P texts frames := by
  induction texts generalizing totLen check len udpData with
  | nil => exact ⟨_,[],rfl,.nil⟩
  | cons text texts ih =>
    have hfit := ht text List.mem_cons_self
    obtain ⟨check',b,hb,hsend,hsum⟩ := sendMessage_framed localAddr remote port totLen check len udpData hfit
    obtain ⟨next,frames,hrest,hframes⟩ := ih (fun text h => ht text (List.mem_cons_of_mem _ h)) _ _ _ _
    rw [← hb] at hrest
    refine ⟨next,(b.headerBytes ++ text)::frames,?_,.cons ?_ hframes⟩
    · rw [sendMessages, hsend]
      simp only [bind, Except.bind, hrest]
    · subst hb
      exact hframe text check' _ hfit hsum

theorem map_eq_of_forall₂ {α β γ : Type} {f : α → γ} {g : β → γ} {xs : List α} {ys : List β}
    (h : List.Forall₂ (fun x y => g y = f x) xs ys) : ys.map g = xs.map f := by
  induction h with
  | nil => rfl
  | cons hxy _ ih => rw [List.map_cons, List.map_cons, hxy, ih]

/-- From set headers, every sequence of messages the guard admits goes out in frames a
receiver accepts and reads back. -/
theorem sendMessages_framed {localAddr remote : Addr} {port : BitVec 32} (hport : port.toNat < 2^16)
    {texts : List (List Byte)} (ht : ∀ text ∈ texts, text.length < maxMsgSize) (totLen check len : BitVec 16)
    (udpData : Vector Byte maxMsgSize) :
    ∃ next frames, sendMessages (framed localAddr remote port totLen check len udpData) texts = .ok (next, frames) ∧
      frames.map WireFormat.parse = texts.map (fun text => some (datagram localAddr remote port text)) ∧
      frames.map List.length = texts.map (fun text => (totalLength text.length).toNat) := by
  obtain ⟨next,frames,hsend,hframes⟩ := sendMessages_each
    (P := fun text frame => WireFormat.parse frame = some (datagram localAddr remote port text) ∧
      frame.length = (totalLength text.length).toNat)
    (fun text check udpData hfit hsum => by
      obtain ⟨htotal,hipl,hudpl⟩ := lengths_toNat hfit
      refine ⟨framed_parses hport udpData hipl hudpl hsum,?_⟩
      rw [List.length_append, EtherBuffer.headerBytes_length, htotal]) ht totLen check len udpData
  exact ⟨next,frames,hsend,map_eq_of_forall₂ (hframes.imp (fun _ _ h => h.1)),
    map_eq_of_forall₂ (hframes.imp (fun _ _ h => h.2))⟩

/-- However many rounds the program makes, each one's frame carries its numbered message. -/
theorem roundTexts_framed (localAddr remote : Addr) {port : BitVec 32} (hport : port.toNat < 2^16) (rounds : Nat) :
    ∃ next frames, sendMessages (initHeaders zeroBuffer localAddr remote port) (roundTexts rounds) =
        .ok (next, frames) ∧
      frames.map WireFormat.parse =
        (List.range rounds).map (fun k => some (datagram localAddr remote port (messageText (BitVec.ofNat 32 k)))) := by
  have hadmitted : ∀ text ∈ roundTexts rounds, text.length < maxMsgSize := by
    intro text htext
    obtain ⟨k,-,rfl⟩ := List.mem_map.mp htext
    exact lt_of_le_of_lt (messageText_length _) (by decide)
  rw [initHeaders_framed]
  obtain ⟨next,frames,hsend,hparse,-⟩ := sendMessages_framed hport hadmitted 0 0 0 (Vector.replicate maxMsgSize 0)
  refine ⟨next,frames,hsend,hparse.trans ?_⟩
  rw [roundTexts, List.map_map]
  rfl

/-- For all addresses, ports and messages the guard admits: the frames are accepted and
carry exactly the messages, no length wraps, and every byte sent lies in the buffer. -/
theorem udp_frames_decode {localAddr remote : Addr} {port : BitVec 32} (hport : port.toNat < 2^16)
    (texts : List (List Byte)) (ht : ∀ text ∈ texts, text.length < maxMsgSize) :
    ∃ next frames,
      sendMessages (initHeaders zeroBuffer localAddr remote port) texts = .ok (next, frames) ∧
      frames.map WireFormat.parse = texts.map (fun text => some (datagram localAddr remote port text)) ∧
      (∀ frame ∈ frames, frame.length ≤ ipMaxpacket) ∧
      ∀ text ∈ texts, (totalLength text.length).toNat = headerSize+text.length ∧
        (ipLength (totalLength text.length)).toNat = sizeofIpHdr+sizeofUdpHdr+text.length ∧
        (udpLength text.length).toNat = sizeofUdpHdr+text.length := by
  rw [initHeaders_framed]
  obtain ⟨next,frames,hsend,hparse,hlen⟩ := sendMessages_framed hport ht 0 0 0 (Vector.replicate maxMsgSize 0)
  refine ⟨next,frames,hsend,hparse,?_,fun text h => lengths_toNat (ht text h)⟩
  intro frame hframe
  have hmem : frame.length ∈ frames.map List.length := List.mem_map_of_mem hframe
  rw [hlen] at hmem
  obtain ⟨text,-,hlength⟩ := List.mem_map.mp hmem
  rw [← hlength]
  exact Nat.le_of_lt_succ (totalLength text.length).isLt

/-- One short message and the longest the guard admits, to the last port. -/
theorem udp_frames_decode_longest :
    ∃ next frames,
      sendMessages (initHeaders zeroBuffer ⟨Vector.replicate 6 1, 0x0100A8C0, Vector.replicate 16 0⟩
        ⟨Vector.replicate 6 2, 0x0200A8C0, Vector.replicate 16 0⟩ 65535) [[0x48, 0x69], List.replicate 65492 0x41] =
        .ok (next, frames) ∧
      frames.map WireFormat.parse = ([[0x48, 0x69], List.replicate 65492 0x41] : List (List Byte)).map (fun text =>
        some (datagram ⟨Vector.replicate 6 1, 0x0100A8C0, Vector.replicate 16 0⟩
          ⟨Vector.replicate 6 2, 0x0200A8C0, Vector.replicate 16 0⟩ 65535 text)) ∧
      (∀ frame ∈ frames, frame.length ≤ ipMaxpacket) ∧
      ∀ text ∈ ([[0x48, 0x69], List.replicate 65492 0x41] : List (List Byte)),
        (totalLength text.length).toNat = headerSize+text.length ∧
        (ipLength (totalLength text.length)).toNat = sizeofIpHdr+sizeofUdpHdr+text.length ∧
        (udpLength text.length).toNat = sizeofUdpHdr+text.length := by
  have hport : (65535 : BitVec 32).toNat < 2^16 := by decide
  refine udp_frames_decode hport _ ?_
  rintro text (h | ⟨_,h | ⟨_,⟨⟩⟩⟩)
  · decide
  · rw [List.length_replicate]
    decide

end IbverbPrototype.Udp
