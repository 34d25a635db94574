import IbverbPrototype.Foundations.ByteOrder
import IbverbPrototype.Foundations.CheckedMemory
import Mathlib.Tactic.IntervalCases

/-! The packed wire structs. Bit-fields of one storage unit are concatenated from
its most significant end, the order in which a little-endian compiler packs them. -/
namespace IbverbPrototype.Roce
open Foundations.ByteOrder Foundations.CheckedMemory

/-- Maximum payload size with jumbo frames. -/
def msgSize : Nat := 8940

structure EthHdr where
  hDest : Vector Byte 6
  hSource : Vector Byte 6
  hProto : BitVec 16
  deriving DecidableEq

/-- Global Routing Header. -/
structure IbGrh where
  trafficClassP1 : BitVec 4
  ipVersion : BitVec 4
  trafficClassP2 : BitVec 4
  flowLabel : BitVec 20
  payloadLength : BitVec 16
  nextHeader : Byte
  hopLimit : Byte
  source : Vector Byte 16
  dest : Vector Byte 16
  deriving DecidableEq

/-- Base Transport Header. -/
structure IbBth where
  opcode : Byte
  transportHdrVersion : BitVec 4
  padCount : BitVec 2
  migrationRequest : BitVec 1
  sollicitedEvent : BitVec 1
  partitionKey : BitVec 16
  reserved1 : BitVec 8
  destinationQp : BitVec 24
  acknowledgeReq : BitVec 1
  reserved2 : BitVec 7
  packetSequence : BitVec 24
  deriving DecidableEq

/-- Datagram Extended Transport Header. -/
structure IbDeth where
  queueKey : BitVec 32
  reserved : BitVec 8
  sourceQp : BitVec 24
  deriving DecidableEq

structure IbHeaders where
  grh : IbGrh
  bth : IbBth
  deth : IbDeth
  deriving DecidableEq

structure Packet where
  etherHeader : EthHdr
  ibHeader : IbHeaders
  data : Vector Byte msgSize

def EthHdr.bytes (e : EthHdr) : List Byte := e.hDest.toList ++ e.hSource.toList ++ toLittle 2 e.hProto

def IbGrh.bytes (g : IbGrh) : List Byte :=
  toLittle 4 (g.flowLabel ++ g.trafficClassP2 ++ g.ipVersion ++ g.trafficClassP1) ++
    toLittle 2 g.payloadLength ++ [g.nextHeader, g.hopLimit] ++ g.source.toList ++ g.dest.toList

def IbBth.bytes (b : IbBth) : List Byte :=
  [b.opcode] ++ toLittle 1 (b.sollicitedEvent ++ b.migrationRequest ++ b.padCount ++ b.transportHdrVersion) ++
    toLittle 2 b.partitionKey ++ toLittle 4 (b.destinationQp ++ b.reserved1) ++
    toLittle 4 (b.packetSequence ++ b.reserved2 ++ b.acknowledgeReq)

def IbDeth.bytes (d : IbDeth) : List Byte := toLittle 4 d.queueKey ++ toLittle 4 (d.sourceQp ++ d.reserved)

def IbHeaders.bytes (h : IbHeaders) : List Byte := h.grh.bytes ++ h.bth.bytes ++ h.deth.bytes

/-- The object representation of a packet; packed structs carry no padding. -/
def Packet.bytes (p : Packet) : List Byte := p.etherHeader.bytes ++ p.ibHeader.bytes ++ p.data.toList

def sizeofEthHdr : Nat := 14
def sizeofIbBth : Nat := 12
def sizeofIbDeth : Nat := 8
def sizeofIbHeaders : Nat := 60

@[simp] theorem EthHdr.bytes_length (e : EthHdr) : e.bytes.length = sizeofEthHdr := by
  simp [EthHdr.bytes, sizeofEthHdr]

@[simp] theorem IbGrh.bytes_length (g : IbGrh) : g.bytes.length = 40 := by simp [IbGrh.bytes]

@[simp] theorem IbBth.bytes_length (b : IbBth) : b.bytes.length = sizeofIbBth := by
  simp [IbBth.bytes, sizeofIbBth]

@[simp] theorem IbDeth.bytes_length (d : IbDeth) : d.bytes.length = sizeofIbDeth := by
  simp [IbDeth.bytes, sizeofIbDeth]

@[simp] theorem IbHeaders.bytes_length (h : IbHeaders) : h.bytes.length = sizeofIbHeaders := by
  simp [IbHeaders.bytes, sizeofIbHeaders, sizeofIbBth, sizeofIbDeth]

theorem Packet.bytes_length (p : Packet) : p.bytes.length = sizeofEthHdr+sizeofIbHeaders+msgSize := by
  simp [Packet.bytes, Nat.add_assoc]

/-- The 16 bytes of an address field, given where it starts. -/
def addressAt (bs : List Byte) (off : Nat) : Vector Byte 16 := Vector.ofFn (fun i => bs.getD (off+i) 0)

/-- The struct a 40-byte object represents. -/
def IbGrh.ofBytes (bs : List Byte) : IbGrh :=
  let unit := ofLittle 32 (slice bs 0 4)
  { trafficClassP1 := unit.setWidth 4
    ipVersion := (unit >>> 4).setWidth 4
    trafficClassP2 := (unit >>> 8).setWidth 4
    flowLabel := (unit >>> 12).setWidth 20
    payloadLength := ofLittle 16 (slice bs 4 2)
    nextHeader := bs.getD 6 0
    hopLimit := bs.getD 7 0
    source := addressAt bs 8
    dest := addressAt bs 24 }

def IbBth.ofBytes (bs : List Byte) : IbBth :=
  let flags := bs.getD 1 0
  let qpUnit := ofLittle 32 (slice bs 4 4)
  let psnUnit := ofLittle 32 (slice bs 8 4)
  { opcode := bs.getD 0 0
    transportHdrVersion := flags.setWidth 4
    padCount := (flags >>> 4).setWidth 2
    migrationRequest := (flags >>> 6).setWidth 1
    sollicitedEvent := (flags >>> 7).setWidth 1
    partitionKey := ofLittle 16 (slice bs 2 2)
    reserved1 := qpUnit.setWidth 8
    destinationQp := (qpUnit >>> 8).setWidth 24
    acknowledgeReq := psnUnit.setWidth 1
    reserved2 := (psnUnit >>> 1).setWidth 7
    packetSequence := (psnUnit >>> 8).setWidth 24 }

def IbDeth.ofBytes (bs : List Byte) : IbDeth :=
  let qpUnit := ofLittle 32 (slice bs 4 4)
  { queueKey := ofLittle 32 (slice bs 0 4)
    reserved := qpUnit.setWidth 8
    sourceQp := (qpUnit >>> 8).setWidth 24 }

def IbHeaders.ofBytes (bs : List Byte) : IbHeaders :=
  ⟨IbGrh.ofBytes (slice bs 0 40), IbBth.ofBytes (slice bs 40 12), IbDeth.ofBytes (slice bs 52 8)⟩

theorem addressAt_toList {bs : List Byte} (off : Nat) (h : off+16 ≤ bs.length) :
    (addressAt bs off).toList = slice bs off 16 := by
  apply List.ext_getElem
  · simp [slice_length h]
  · intro i hi _
    have hi' : i < 16 := by simpa using hi
    simp [addressAt, slice, show off+i < bs.length by omega]

private theorem pair_eq_slice {bs : List Byte} (off : Nat) (h : off+2 ≤ bs.length) :
    [bs.getD off 0, bs.getD (off+1) 0] = slice bs off 2 := by
  apply List.ext_getElem
  · simp [slice_length h]
  · intro i hi _
    have hi' : i < 2 := by simpa using hi
    interval_cases i
    · simp [slice, show off < bs.length by omega]
    · simp [slice, show off+1 < bs.length by omega]

private theorem grh_unit (u : BitVec 32) :
    (u >>> 12).setWidth 20 ++ (u >>> 8).setWidth 4 ++ (u >>> 4).setWidth 4 ++ u.setWidth 4 = u := by
  have h := append_window u 8 20 4
  have h' := append_window u 4 24 4
  have h'' := append_window u 0 28 4
  simp only [Nat.reduceAdd, BitVec.ushiftRight_zero, BitVec.setWidth_eq] at h h' h''
  rw [h, h', h'']

theorem IbGrh.bytes_ofBytes {bs : List Byte} (h : bs.length = 40) : (IbGrh.ofBytes bs).bytes = bs := by
  have hunit : (slice bs 0 4).length = 4 := slice_length (by omega)
  have hlen : (slice bs 4 2).length = 2 := slice_length (by omega)
  simp only [IbGrh.bytes, IbGrh.ofBytes, grh_unit]
  rw [toLittle_ofLittle hunit (by decide), toLittle_ofLittle hlen (by decide),
    pair_eq_slice 6 (by omega), addressAt_toList 8 (by omega),
    addressAt_toList 24 (by omega), slice_append bs 0 4 2, slice_append bs 0 6 2,
    slice_append bs 0 8 16]
  exact slice_split h

private theorem qp_unit (u : BitVec 32) : (u >>> 8).setWidth 24 ++ u.setWidth 8 = u := by
  have h := append_window u 0 24 8
  simpa only [Nat.reduceAdd, BitVec.ushiftRight_zero, BitVec.setWidth_eq] using h

theorem IbBth.bytes_ofBytes {bs : List Byte} (h : bs.length = 12) : (IbBth.ofBytes bs).bytes = bs := by
  have hkey : (slice bs 2 2).length = 2 := slice_length (by omega)
  have hqp : (slice bs 4 4).length = 4 := slice_length (by omega)
  have hpsn : (slice bs 8 4).length = 4 := slice_length (by omega)
  have hflags (b : Byte) : toLittle 1 ((b >>> 7).setWidth 1 ++ (b >>> 6).setWidth 1 ++
      (b >>> 4).setWidth 2 ++ b.setWidth 4) = [b] := by
    have h6 := append_window b 6 1 1
    have h4 := append_window b 4 2 2
    have h0 := append_window b 0 4 4
    simp only [Nat.reduceAdd, BitVec.ushiftRight_zero, BitVec.setWidth_eq] at h6 h4 h0
    rw [h6, h4, h0]
    simp [toLittle]
  have hunit (u : BitVec 32) : (u >>> 8).setWidth 24 ++ (u >>> 1).setWidth 7 ++ u.setWidth 1 = u := by
    have h1 := append_window u 1 24 7
    have h0 := append_window u 0 31 1
    simp only [Nat.reduceAdd, BitVec.ushiftRight_zero, BitVec.setWidth_eq] at h1 h0
    rw [h1, h0]
  simp only [IbBth.bytes, IbBth.ofBytes, hflags, hunit, qp_unit]
  rw [toLittle_ofLittle hkey (by decide), toLittle_ofLittle hqp (by decide),
    toLittle_ofLittle hpsn (by decide), List.singleton_append, pair_eq_slice 0 (by omega),
    slice_append bs 0 2 2, slice_append bs 0 4 4]
  exact slice_split h

theorem IbDeth.bytes_ofBytes {bs : List Byte} (h : bs.length = 8) : (IbDeth.ofBytes bs).bytes = bs := by
  have hkey : (slice bs 0 4).length = 4 := slice_length (by omega)
  have hqp : (slice bs 4 4).length = 4 := slice_length (by omega)
  simp only [IbDeth.bytes, IbDeth.ofBytes, qp_unit]
  rw [toLittle_ofLittle hkey (by decide), toLittle_ofLittle hqp (by decide)]
  exact slice_split h

/-- Every 60-byte object is the representation of some header value. -/
theorem IbHeaders.bytes_ofBytes {bs : List Byte} (h : bs.length = sizeofIbHeaders) :
    (IbHeaders.ofBytes bs).bytes = bs := by
  unfold sizeofIbHeaders at h
  simp only [IbHeaders.bytes, IbHeaders.ofBytes]
  rw [IbGrh.bytes_ofBytes (slice_length (by omega)), IbBth.bytes_ofBytes (slice_length (by omega)),
    IbDeth.bytes_ofBytes (slice_length (by omega)), slice_append bs 0 40 12]
  exact slice_split h

private theorem grh_fields (t1 v t2 : BitVec 4) (f : BitVec 20) :
    (f ++ t2 ++ v ++ t1).setWidth 4 = t1 ∧ ((f ++ t2 ++ v ++ t1) >>> 4).setWidth 4 = v ∧
      ((f ++ t2 ++ v ++ t1) >>> 8).setWidth 4 = t2 ∧ ((f ++ t2 ++ v ++ t1) >>> 12).setWidth 20 = f := by
  refine ⟨BitVec.setWidth_append_eq_right,?_,?_,?_⟩
  · rw [append_shift _ _ 4 4 (by decide), Nat.sub_self, BitVec.ushiftRight_zero]
    exact BitVec.setWidth_append_eq_right
  · rw [append_shift _ _ 8 4 (by decide), append_shift _ _ 4 4 (by decide), Nat.sub_self,
      BitVec.ushiftRight_zero]
    exact BitVec.setWidth_append_eq_right
  · rw [append_shift _ _ 12 20 (by decide), append_shift _ _ 8 20 (by decide)]
    exact append_high f t2

theorem IbGrh.ofBytes_bytes (g : IbGrh) : IbGrh.ofBytes g.bytes = g := by
  obtain ⟨t1,v,t2,f,l,n,p,s,d⟩ := g
  obtain ⟨h1,h2,h3,h4⟩ := grh_fields t1 v t2 f
  have hunit : slice (IbGrh.bytes ⟨t1,v,t2,f,l,n,p,s,d⟩) 0 4 = toLittle 4 (f ++ t2 ++ v ++ t1) := by
    simp [slice, IbGrh.bytes]
  have hlen : slice (IbGrh.bytes ⟨t1,v,t2,f,l,n,p,s,d⟩) 4 2 = toLittle 2 l := by
    simp [slice, IbGrh.bytes]
  have hs : addressAt (IbGrh.bytes ⟨t1,v,t2,f,l,n,p,s,d⟩) 8 = s := by
    apply Vector.toList_inj.mp
    rw [addressAt_toList 8 (by simp)]
    simp [slice, IbGrh.bytes, toLittle]
  have hd : addressAt (IbGrh.bytes ⟨t1,v,t2,f,l,n,p,s,d⟩) 24 = d := by
    apply Vector.toList_inj.mp
    rw [addressAt_toList 24 (by simp)]
    simp [slice, IbGrh.bytes, toLittle, List.take_of_length_le]
  have hload := ofLittle_toLittle 4 (f ++ t2 ++ v ++ t1) (by decide)
  simp only [Nat.reduceAdd] at hload
  simp only [IbGrh.ofBytes, hunit, hlen, hs, hd, hload, h1, h2, h3, h4, ofLittle_toLittle 2 l (by decide)]
  simp [IbGrh.bytes, toLittle]

theorem IbBth.ofBytes_bytes (b : IbBth) : IbBth.ofBytes b.bytes = b := by
  obtain ⟨o,t,c,m,e,k,r1,q,a,r2,s⟩ := b
  let bytes := IbBth.bytes ⟨o,t,c,m,e,k,r1,q,a,r2,s⟩
  have hflags : bytes.getD 1 0 = e ++ m ++ c ++ t := by simp [bytes, IbBth.bytes, toLittle]
  have hkey : slice bytes 2 2 = toLittle 2 k := by simp [bytes, slice, IbBth.bytes, toLittle]
  have hqp : slice bytes 4 4 = toLittle 4 (q ++ r1) := by simp [bytes, slice, IbBth.bytes, toLittle]
  have hpsn : slice bytes 8 4 = toLittle 4 (s ++ r2 ++ a) := by simp [bytes, slice, IbBth.bytes, toLittle]
  have hqpLoad := ofLittle_toLittle 4 (q ++ r1) (by decide)
  have hpsnLoad := ofLittle_toLittle 4 (s ++ r2 ++ a) (by decide)
  simp only [Nat.reduceAdd] at hqpLoad hpsnLoad
  have hc : ((e ++ m ++ c ++ t) >>> 4).setWidth 2 = c := by
    rw [append_shift _ _ 4 2 (by decide), Nat.sub_self, BitVec.ushiftRight_zero]
    exact BitVec.setWidth_append_eq_right
  have hm : ((e ++ m ++ c ++ t) >>> 6).setWidth 1 = m := by
    rw [append_shift _ _ 6 1 (by decide), append_shift _ _ 2 1 (by decide), Nat.sub_self,
      BitVec.ushiftRight_zero]
    exact BitVec.setWidth_append_eq_right
  have he : ((e ++ m ++ c ++ t) >>> 7).setWidth 1 = e := by
    rw [append_shift _ _ 7 1 (by decide), append_shift _ _ 3 1 (by decide)]
    exact append_high e m
  have hr2 : ((s ++ r2 ++ a) >>> 1).setWidth 7 = r2 := by
    rw [append_shift _ _ 1 7 (by decide), Nat.sub_self, BitVec.ushiftRight_zero]
    exact BitVec.setWidth_append_eq_right
  have hs : ((s ++ r2 ++ a) >>> 8).setWidth 24 = s := by
    rw [append_shift _ _ 8 24 (by decide)]
    exact append_high s r2
  have hr1 : (q ++ r1).setWidth 8 = r1 := BitVec.setWidth_append_eq_right
  have ha : (s ++ r2 ++ a).setWidth 1 = a := BitVec.setWidth_append_eq_right
  change IbBth.ofBytes bytes = _
  simp only [IbBth.ofBytes, hflags, hkey, hqp, hpsn, hqpLoad, hpsnLoad, hc, hm, he, hr2, hs,
    ofLittle_toLittle 2 k (by decide), append_high q r1, hr1, ha, BitVec.setWidth_append_eq_right]
  simp [bytes, IbBth.bytes]

theorem IbDeth.ofBytes_bytes (d : IbDeth) : IbDeth.ofBytes d.bytes = d := by
  obtain ⟨k,r,q⟩ := d
  let bytes := IbDeth.bytes ⟨k,r,q⟩
  have hkey : slice bytes 0 4 = toLittle 4 k := by simp [bytes, slice, IbDeth.bytes, toLittle]
  have hqp : slice bytes 4 4 = toLittle 4 (q ++ r) := by simp [bytes, slice, IbDeth.bytes, toLittle]
  have hqpLoad := ofLittle_toLittle 4 (q ++ r) (by decide)
  simp only [Nat.reduceAdd] at hqpLoad
  have hr : (q ++ r).setWidth 8 = r := BitVec.setWidth_append_eq_right
  change IbDeth.ofBytes bytes = _
  simp only [IbDeth.ofBytes, hkey, hqp, hqpLoad, ofLittle_toLittle 4 k (by decide), append_high q r, hr]

/-- The representation determines the header value. -/
theorem IbHeaders.ofBytes_bytes (h : IbHeaders) : IbHeaders.ofBytes h.bytes = h := by
  have hg : slice h.bytes 0 40 = h.grh.bytes := by simp [slice, IbHeaders.bytes]
  have hb : slice h.bytes 40 12 = h.bth.bytes := by simp [slice, IbHeaders.bytes, sizeofIbBth]
  have hd : slice h.bytes 52 8 = h.deth.bytes := by
    simp [slice, IbHeaders.bytes, List.drop_append, sizeofIbBth, sizeofIbDeth, List.take_of_length_le,
      List.drop_eq_nil_of_le]
  rw [IbHeaders.ofBytes, hg, hb, hd, IbGrh.ofBytes_bytes, IbBth.ofBytes_bytes, IbDeth.ofBytes_bytes]

end IbverbPrototype.Roce
