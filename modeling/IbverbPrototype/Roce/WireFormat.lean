import IbverbPrototype.Foundations.ByteOrder
import IbverbPrototype.Foundations.CheckedMemory

/-! The RoCE wire format by its own definition: fields are read from bytes with the
most significant bit first, with no reference to the structs that wrote them. -/
namespace IbverbPrototype.Roce.WireFormat
open Foundations.ByteOrder Foundations.CheckedMemory

structure Ethernet where
  dest : List Byte
  source : List Byte
  etherType : Nat
  deriving DecidableEq

def parseEthernet (bs : List Byte) : Ethernet :=
  ⟨slice bs 0 6, slice bs 6 6, bigValue (slice bs 12 2)⟩

/-- Global routing, base transport and datagram extended transport fields. -/
structure Transport where
  ipVersion : Nat
  trafficClass : Nat
  flowLabel : Nat
  payloadLength : Nat
  nextHeader : Nat
  hopLimit : Nat
  sourceGid : List Byte
  destGid : List Byte
  opcode : Nat
  solicitedEvent : Nat
  migration : Nat
  padCount : Nat
  transportVersion : Nat
  partitionKey : Nat
  destinationQp : Nat
  ackRequest : Nat
  packetSequence : Nat
  queueKey : Nat
  sourceQp : Nat
  deriving DecidableEq

/-- The fields of 60 bytes of headers. -/
def parseTransport (bs : List Byte) : Transport where
  ipVersion := bigValue (slice bs 0 1) / 2^4
  trafficClass := bigValue (slice bs 0 4) / 2^20 % 2^8
  flowLabel := bigValue (slice bs 0 4) % 2^20
  payloadLength := bigValue (slice bs 4 2)
  nextHeader := bigValue (slice bs 6 1)
  hopLimit := bigValue (slice bs 7 1)
  sourceGid := slice bs 8 16
  destGid := slice bs 24 16
  opcode := bigValue (slice bs 40 1)
  solicitedEvent := bigValue (slice bs 41 1) / 2^7
  migration := bigValue (slice bs 41 1) / 2^6 % 2
  padCount := bigValue (slice bs 41 1) / 2^4 % 2^2
  transportVersion := bigValue (slice bs 41 1) % 2^4
  partitionKey := bigValue (slice bs 42 2)
  destinationQp := bigValue (slice bs 45 3)
  ackRequest := bigValue (slice bs 48 1) / 2^7
  packetSequence := bigValue (slice bs 49 3)
  queueKey := bigValue (slice bs 52 4)
  sourceQp := bigValue (slice bs 57 3)

end IbverbPrototype.Roce.WireFormat
