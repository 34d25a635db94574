import IbverbPrototype.Rdma.Buffers
import IbverbPrototype.Rdma.CompletionLoop

/-! The two programs as instances of the shared loop: the client refills the buffer of
each completion from its counter, the server prints the first byte it received. -/
namespace IbverbPrototype.Rdma
open Foundations.ByteOrder
open Roce (msgSize)

structure ClientState where
  memory : Nat → Byte
  count : BitVec 32

/-- The refill of one buffer from the running counter. -/
def refill (region : Region) (i : Nat) (s : ClientState) : ClientState :=
  ⟨memset s.memory (dataBuffer region i) s.count msgSize, s.count+1⟩

/-- The loop that fills all buffers before the first post. -/
def fillBuffers (region : Region) : Nat → ClientState → ClientState
  | 0, s => s
  | i+1, s => refill region i (fillBuffers region i s)

def clientProgram (region : Region) : Program ClientState where
  handle wc s := if wc.status ≠ ibvWcSuccess then (s, false) else (refill region wc.wrId s, true)
  deliver _ _ s := s

def clientStart (n : Nat) (region : Region) (target : SendTarget) (memory : Nat → Byte) :
    Machine ClientState SendBody :=
  started n (sendBody target) (fillBuffers region n ⟨memory, 0⟩)

/-- A line the server prints: the request, the first payload byte as a signed char, the size. -/
structure MessageLine where
  wrId : Nat
  index : Int
  byteLen : Nat
  deriving DecidableEq

structure ServerState where
  memory : Nat → Byte
  printed : List MessageLine

/-- The line is printed before the status is looked at. -/
def serverProgram (region : Region) : Program ServerState where
  handle wc s :=
    let s := { s with
      printed := s.printed ++ [⟨wc.wrId, (s.memory (dataBuffer region wc.wrId)).toInt, wc.byteLen⟩] }
    if wc.status ≠ ibvWcSuccess then (s, false) else (s, true)
  deliver wrId data s := { s with memory := writeBytes s.memory (dataBuffer region wrId) (data.take msgSize) }

def serverStart (n : Nat) (memory : Nat → Byte) : Machine ServerState RecvBody := started n recvBody ⟨memory, []⟩

end IbverbPrototype.Rdma
