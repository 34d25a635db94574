import IbverbPrototype.Roce.RawPacket

/-! The values the header printers show, with the conversions they apply. -/
namespace IbverbPrototype.Roce
open Foundations.ByteOrder

structure ShownGrh where
  ipVersion : Nat
  trafficClass1 : Nat
  trafficClass2 : Nat
  flowLabel : Nat
  length : Nat
  nextHeader : Nat
  hopLimit : Nat
  source : List Byte
  dest : List Byte
  deriving DecidableEq

structure ShownBth where
  opcode : Nat
  sollicited : Nat
  migrationReq : Nat
  padCount : Nat
  headerVersion : Nat
  partitionKey : Nat
  destinationQp : Nat
  acknowledgeReq : Nat
  packetSequenceNumber : Nat
  deriving DecidableEq

structure ShownDeth where
  queueKey : Nat
  sourceQp : Nat
  deriving DecidableEq

/-- The two addresses are shown as the text of these 16 bytes. -/
def printGrh (hdr : IbGrh) : ShownGrh where
  ipVersion := hdr.ipVersion.toNat
  trafficClass1 := hdr.trafficClassP1.toNat
  trafficClass2 := hdr.trafficClassP2.toNat
  flowLabel := hdr.flowLabel.toNat
  length := (ntohs hdr.payloadLength).toNat
  nextHeader := hdr.nextHeader.toNat
  hopLimit := hdr.hopLimit.toNat
  source := hdr.source.toList
  dest := hdr.dest.toList

def printBth (hdr : IbBth) : ShownBth where
  opcode := hdr.opcode.toNat
  sollicited := hdr.sollicitedEvent.toNat
  migrationReq := hdr.migrationRequest.toNat
  padCount := hdr.padCount.toNat
  headerVersion := hdr.transportHdrVersion.toNat
  partitionKey := (ntohs hdr.partitionKey).toNat
  destinationQp := (ntohl (hdr.destinationQp.setWidth 32) >>> 8).toNat
  acknowledgeReq := hdr.acknowledgeReq.toNat
  packetSequenceNumber := hdr.packetSequence.toNat

def printDeth (hdr : IbDeth) : ShownDeth where
  queueKey := (ntohl hdr.queueKey).toNat
  sourceQp := (ntohl (hdr.sourceQp.setWidth 32) >>> 8).toNat

def printIbHeaders (hdr : IbHeaders) : ShownGrh × ShownBth × ShownDeth :=
  (printGrh hdr.grh, printBth hdr.bth, printDeth hdr.deth)

end IbverbPrototype.Roce
