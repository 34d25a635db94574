import IbverbPrototype.Foundations.ByteOrder
import IbverbPrototype.Rdma.WorkRing
import IbverbPrototype.Roce.RawPacket

/-! The registered buffers, one slice for each request, and what the set-up loops put
into the requests besides their links. -/
namespace IbverbPrototype.Rdma
open Foundations.ByteOrder
open Roce (msgSize)

/-- A registered allocation. -/
structure Region where
  base : Nat
  lkey : BitVec 32
  deriving DecidableEq

/-- A scatter-gather entry. -/
structure Sge where
  addr : Nat
  length : Nat
  lkey : BitVec 32
  deriving DecidableEq

def dataBuffer (region : Region) (i : Nat) : Nat := region.base+i*msgSize

def headerBuffer (region : Region) (i : Nat) : Nat := region.base+i*40

inductive WrOpcode where
  | send
  deriving DecidableEq

/-- Where the datagrams of a client go and how they are sent. -/
structure SendTarget where
  sendFlags : BitVec 32
  ah : Nat
  qpn : BitVec 32
  deriving DecidableEq

/-- The entries of a request are counted from an index of the scatter-gather array. -/
structure SendBody where
  sgList : Nat
  numSge : Nat
  opcode : WrOpcode
  sendFlags : BitVec 32
  ah : Nat
  remoteQpn : BitVec 32
  remoteQkey : BitVec 32
  deriving DecidableEq

structure RecvBody where
  sgList : Nat
  numSge : Nat
  deriving DecidableEq

def sendBody (target : SendTarget) (i : Nat) : SendBody :=
  ⟨i, 1, .send, target.sendFlags, target.ah, target.qpn, 0x11111111⟩

def recvBody (i : Nat) : RecvBody := ⟨2*i, 2⟩

def sendScatterGather (completionQueueSize : Nat) (region : Region) : List Sge :=
  (List.range completionQueueSize).map (fun i => ⟨dataBuffer region i, msgSize, region.lkey⟩)

/-- A receive puts the routing header and the data into different regions. -/
def recvScatterGather (completionQueueSize : Nat) (headerRegion region : Region) : List Sge :=
  (List.range completionQueueSize).flatMap (fun i =>
    [⟨headerBuffer headerRegion i, 40, headerRegion.lkey⟩, ⟨dataBuffer region i, msgSize, region.lkey⟩])

/-- The entries of a request: those its body counts from its first. -/
def entries (scatterGather : List Sge) (sgList numSge : Nat) : List Sge := (scatterGather.drop sgList).take numSge

/-- The write of one byte value over a range, as memset does with the low byte of its int. -/
def memset (memory : Nat → Byte) (addr : Nat) (c : BitVec 32) (n : Nat) : Nat → Byte :=
  fun a => if addr ≤ a ∧ a < addr+n then c.setWidth 8 else memory a

/-- The data a device leaves at an address. -/
def writeBytes (memory : Nat → Byte) (addr : Nat) (data : List Byte) : Nat → Byte :=
  fun a => if addr ≤ a then data.getD (a-addr) (memory a) else memory a

theorem sendScatterGather_entries {n i : Nat} (region : Region) (target : SendTarget) (hi : i < n) :
    entries (sendScatterGather n region) (sendBody target i).sgList (sendBody target i).numSge =
      [⟨dataBuffer region i, msgSize, region.lkey⟩] := by
  have hlen : i < (sendScatterGather n region).length := by simpa [sendScatterGather] using hi
  rw [entries, sendBody, List.drop_eq_getElem_cons hlen]
  simp [sendScatterGather]

/-- A write into one buffer leaves the others alone. -/
theorem memset_other {region : Region} {i j a : Nat} (memory : Nat → Byte) (c : BitVec 32) (hij : i ≠ j)
    (ha : dataBuffer region j ≤ a ∧ a < dataBuffer region j+msgSize) :
    memset memory (dataBuffer region i) c msgSize a = memory a := by
  have hmsg : msgSize = 8940 := rfl
  simp only [dataBuffer, hmsg] at ha ⊢
  rw [memset, if_neg]
  omega

theorem writeBytes_other {region : Region} {i j : Nat} (memory : Nat → Byte) (data : List Byte) (hij : i ≠ j) :
    writeBytes memory (dataBuffer region i) (data.take msgSize) (dataBuffer region j) =
      memory (dataBuffer region j) := by
  have hmsg : msgSize = 8940 := rfl
  have hlen : (data.take msgSize).length ≤ msgSize := List.length_take_le _ _
  simp only [writeBytes, ite_eq_right_iff]
  intro hle
  rw [List.getD_eq_getElem?_getD, List.getElem?_eq_none, Option.getD_none]
  simp only [dataBuffer, hmsg] at hle hlen ⊢
  omega

theorem writeBytes_first {addr : Nat} (memory : Nat → Byte) {data : List Byte} (hdata : data ≠ []) :
    writeBytes memory addr (data.take msgSize) addr = data.headD 0 := by
  obtain ⟨b,rest,rfl⟩ := List.exists_cons_of_ne_nil hdata
  rw [writeBytes, if_pos le_rfl, Nat.sub_self]
  rfl

theorem memset_same {addr n a : Nat} (memory : Nat → Byte) (c : BitVec 32) (ha : addr ≤ a ∧ a < addr+n) :
    memset memory addr c n a = c.setWidth 8 := if_pos ha

end IbverbPrototype.Rdma
