import IbverbPrototype.Foundations.ByteOrder

/-! The address record the senders share. -/
namespace IbverbPrototype.Address
open Foundations.ByteOrder

/-- ipv4 holds the address in network order, as the socket calls return it. -/
structure Addr where
  mac : Vector Byte 6
  ipv4 : BitVec 32
  ipv6 : Vector Byte 16
  deriving DecidableEq

end IbverbPrototype.Address
