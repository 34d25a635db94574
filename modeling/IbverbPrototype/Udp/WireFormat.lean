import IbverbPrototype.Foundations.ByteOrder
import IbverbPrototype.Foundations.CheckedMemory
import IbverbPrototype.Foundations.OnesComplement

/-! Ethernet II, IPv4 and UDP by their own definitions: what a receiver accepts and
what it hands up, with no reference to the structs of the sender. -/
namespace IbverbPrototype.Udp.WireFormat
open Foundations.ByteOrder Foundations.CheckedMemory Foundations.OnesComplement

structure Datagram where
  destMac : List Byte
  sourceMac : List Byte
  sourceAddress : List Byte
  destAddress : List Byte
  sourcePort : Nat
  destPort : Nat
  message : List Byte
  deriving DecidableEq

/-- Network-order words of a byte string. -/
def bigWords : List Byte → List (BitVec 16)
  | a::b::rest => (a ++ b) :: bigWords rest
  | _ => []

/-- An IPv4 header without options, for exactly the bytes behind the Ethernet header. -/
def acceptsIp (ip : List Byte) : Bool :=
  28 ≤ ip.length ∧ bigValue (slice ip 0 1) / 16 = 4 ∧ bigValue (slice ip 0 1) % 16 = 5 ∧
    bigValue (slice ip 2 2) = ip.length ∧ bigValue (slice ip 9 1) = 17 ∧
    onesSum (bigWords (slice ip 0 20)) = 0xFFFF

/-- A UDP header without a checksum, for the rest of the IP packet. -/
def acceptsUdp (ip : List Byte) : Bool :=
  bigValue (slice ip 24 2) = bigValue (slice ip 2 2)-20 ∧ bigValue (slice ip 26 2) = 0

def parse (bs : List Byte) : Option Datagram :=
  let ip := bs.drop 14
  if bigValue (slice bs 12 2) = 0x0800 ∧ acceptsIp ip ∧ acceptsUdp ip then
    some ⟨slice bs 0 6, slice bs 6 6, slice ip 12 4, slice ip 16 4, bigValue (slice ip 20 2),
      bigValue (slice ip 22 2), ip.drop 28⟩
  else none

theorem bigWords_values {bs : List Byte} {k : Nat} (h : bs.length = 2*k) :
    (bigWords bs).map BitVec.toNat = pairValues bigValue bs := by
  refine pair_induction (motive := fun bs => (bigWords bs).map BitVec.toNat = pairValues bigValue bs) rfl ?_ h
  intro a b rest ih
  have hpair : (a ++ b).toNat = bigValue [a, b] := by
    rw [BitVec.toNat_append, Nat.shiftLeft_eq, Nat.mul_comm, ← Nat.two_pow_add_eq_or_of_lt b.isLt]
    simp [bigValue]
  rw [bigWords, List.map_cons, ih, pairValues, hpair]

end IbverbPrototype.Udp.WireFormat
