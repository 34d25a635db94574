import IbverbPrototype.Foundations.FormattedText
import IbverbPrototype.Roce.Crc32
import IbverbPrototype.Roce.RawPacket

/-! The raw-socket sender over the memory that begins at its packet. Every access
is checked against that memory, however much of it lies behind the struct. -/
namespace IbverbPrototype.Roce
open Foundations.ByteOrder Foundations.CheckedMemory Foundations.FormattedText

def checksumSize : BitVec 32 := 4

def ibTransportHeaderSize : BitVec 32 := BitVec.ofNat 32 (sizeofIbBth+sizeofIbDeth)

def totalHeaderSize : BitVec 64 := BitVec.ofNat 64 (sizeofEthHdr+sizeofIbHeaders)

/-- The length argument of sendto: a size_t sum stored in 32 bits. -/
def sendLength : BitVec 32 :=
  (BitVec.ofNat 64 msgSize + totalHeaderSize + checksumSize.setWidth 64).setWidth 32

/-- Where the data array of a packet starts. -/
def dataOffset : Nat := sizeofEthHdr+sizeofIbHeaders

inductive HostError where
  | outOfBounds
  | message
  | sending
  deriving DecidableEq

def checked {α : Type} : Option α → Except HostError α
  | some a => .ok a
  | none => .error .outOfBounds

def messageText (count : BitVec 32) : List Byte := ascii ("Message: ".toList ++ decimal count.toInt)

/-- The snprintf call and its guard. -/
def writeMessage (mem : List Byte) (count : BitVec 32) : Except HostError (List Byte) := do
  let text := messageText count
  let mem ← checked (store mem dataOffset (bounded msgSize text))
  if text.length ≥ msgSize then .error .message else .ok mem

/-- The checksum store behind the data array, then the bytes handed to sendto. -/
def sendFrame (mem : List Byte) (headerCrc : BitVec 32) : Except HostError (List Byte × List Byte) := do
  let payload ← checked (load mem dataOffset msgSize)
  let mem ← checked (store mem (dataOffset+msgSize) (toLittle 4 (crc32 headerCrc payload)))
  let frame ← checked (load mem 0 sendLength.toNat)
  .ok (mem, frame)

/-- One loop body up to the sendto call. -/
def hostIteration (mem : List Byte) (headerCrc count : BitVec 32) : Except HostError (List Byte × List Byte) := do
  let mem ← writeMessage mem count
  sendFrame mem headerCrc

/-- The loop for as many rounds as the socket answers; each answer tells whether
sendto succeeded. The frames are those passed to sendto, in order. -/
def ibHostSendLoop (headerCrc : BitVec 32) : List Bool → BitVec 32 → List Byte →
    Except HostError (List Byte) × List (List Byte)
  | [], _, mem => (.ok mem, [])
  | answer::answers, count, mem =>
    match hostIteration mem headerCrc count with
    | .error e => (.error e, [])
    | .ok (mem, frame) =>
      if answer then
        let (result, frames) := ibHostSendLoop headerCrc answers (count+1) mem
        (result, frame::frames)
      else (.error .sending, [frame])

theorem sendLength_toNat : sendLength.toNat = dataOffset+msgSize+4 := by decide

/-- With four writable bytes behind the packet the frame is headers, payload and
the little-endian checksum. -/
theorem sendFrame_eq {header payload trailer : List Byte} (headerCrc : BitVec 32)
    (hh : header.length = dataOffset) (hp : payload.length = msgSize) (ht : trailer.length = 4) :
    sendFrame (header ++ payload ++ trailer) headerCrc =
      .ok (header ++ payload ++ toLittle 4 (crc32 headerCrc payload),
        header ++ payload ++ toLittle 4 (crc32 headerCrc payload)) := by
  have hhp : (header ++ payload).length = dataOffset+msgSize := by rw [List.length_append, hh, hp]
  have hload : load (header ++ payload ++ trailer) dataOffset msgSize = some payload := by
    rw [load_eq (by rw [List.length_append, hhp]; omega), slice_middle _ _ _ hh.symm hp.symm]
  have hstore (cells : List Byte) (hc : cells.length = 4) :
      store (header ++ payload ++ trailer) (dataOffset+msgSize) cells = some (header ++ payload ++ cells) := by
    rw [store_eq (by rw [List.length_append, hhp]; omega), overwrite, ← hhp, List.take_left',
      List.drop_eq_nil_of_le (by rw [List.length_append]; omega), List.append_nil]
    rfl
  have hframe (cells : List Byte) (hc : cells.length = 4) :
      load (header ++ payload ++ cells) 0 sendLength.toNat = some (header ++ payload ++ cells) := by
    have hl : (header ++ payload ++ cells).length = sendLength.toNat := by
      rw [sendLength_toNat, List.length_append, hhp, hc]
    rw [load_eq (by omega), ← hl, slice_all]
  have ht4 := toLittle_length 4 (crc32 headerCrc payload)
  simp only [sendFrame, hload, hstore _ ht4, hframe _ ht4, checked, bind, Except.bind]

theorem messageText_length (count : BitVec 32) : (messageText count).length ≤ 20 := by
  have hi : count.toInt.natAbs < 10^10 := by
    have hlo := BitVec.le_toInt count
    have hhi := BitVec.toInt_lt (x := count)
    omega
  have hd := decimal_length (by decide) hi
  have hm : "Message: ".toList.length = 9 := by decide
  rw [messageText, ascii_length, List.length_append, hm]
  omega

/-- The data array after the message is formatted over its start. -/
def messagePayload (data : List Byte) (count : BitVec 32) : List Byte :=
  messageText count ++ [0] ++ data.drop ((messageText count).length+1)

theorem messagePayload_length {data : List Byte} (count : BitVec 32) (hd : data.length = msgSize) :
    (messagePayload data count).length = msgSize := by
  have ht := messageText_length count
  have hmsg : msgSize = 8940 := rfl
  simp only [messagePayload, List.length_append, List.length_singleton, List.length_drop]
  omega

/-- The formatting call never fails and touches the data array only. -/
theorem writeMessage_eq {header data trailer : List Byte} (count : BitVec 32)
    (hh : header.length = dataOffset) (hd : data.length = msgSize) :
    writeMessage (header ++ data ++ trailer) count = .ok (header ++ messagePayload data count ++ trailer) := by
  have ht := messageText_length count
  have hmsg : msgSize = 8940 := rfl
  have hcells : (messageText count ++ [0]).length = (messageText count).length+1 := by simp
  have hstore : store (header ++ data ++ trailer) dataOffset (messageText count ++ [0]) =
      some (header ++ messagePayload data count ++ trailer) := by
    rw [store_eq (by simp only [List.length_append, hcells]; omega), overwrite, List.append_assoc header,
      List.take_left' hh, ← List.drop_drop, List.drop_left' hh, hcells, List.drop_append_of_le_length (by omega)]
    simp [messagePayload]
  rw [writeMessage, bounded_of_lt (by omega), hstore]
  exact if_neg (by omega)

/-- A round sends the frame of the packet whose data array holds the new message. -/
theorem hostIteration_eq {header data trailer : List Byte} (headerCrc count : BitVec 32)
    (hh : header.length = dataOffset) (hd : data.length = msgSize) :
    hostIteration (header ++ data ++ trailer) headerCrc count =
      sendFrame (header ++ messagePayload data count ++ trailer) headerCrc := by
  rw [hostIteration, writeMessage_eq count hh hd]
  rfl

end IbverbPrototype.Roce
