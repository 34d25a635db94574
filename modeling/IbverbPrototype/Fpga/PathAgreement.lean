import IbverbPrototype.Fpga.Kernel
import IbverbPrototype.Roce.HostSend

/-! The two senders side by side: the kernel's joined lines against the bytes the
host loop hands to its socket. -/
namespace IbverbPrototype.Fpga
open Foundations.ByteOrder Foundations.CheckedMemory Roce

/-- For one header, checksum seed and payload both senders emit the same frame; the
kernel stays inside its arrays, and all its lines leave on one channel. -/
theorem fpga_frame_agrees {header payload trailer data copied : List Byte} (headerCrc chan : BitVec 32) {fuel : Nat}
    (hh : header.length = fpgaHeaderSize.toNat) (hd : data.length = localSize)
    (hcopied : copyCells header data fpgaHeaderSize.toNat = some copied)
    (hheld : slice copied fpgaHeaderSize.toNat msgSize = payload) (ht : trailer.length = 4)
    (hf : lineCount sendLength.toNat < fuel) :
    ∃ lines frame,
      writeIbverbPacket header headerCrc fpgaHeaderSize chan data fuel = some lines ∧
      (∀ line ∈ lines, line.1 = OutChannel.chOut1) ∧
      reassemble (lines.map Prod.snd) = some frame ∧
      sendFrame (header ++ payload ++ trailer) headerCrc = .ok (frame, frame) ∧
      ∀ (earlier : List Byte) (count : BitVec 32), earlier.length = msgSize →
        messagePayload earlier count = payload →
        hostIteration (header ++ earlier ++ trailer) headerCrc count = .ok (frame, frame) := by
  have hsize : fpgaHeaderSize.toNat = dataOffset := rfl
  have hmsg : msgSize = 8940 := rfl
  have hoff : dataOffset = 74 := rfl
  have hlocal : localSize = 9040 := rfl
  have hpayload : slice data fpgaHeaderSize.toNat msgSize = payload := by
    rw [copyCells_eq (by omega) (by omega), ← hh, slice_all, Option.some_inj] at hcopied
    rw [← hheld, ← hcopied, ← hh, ← Nat.add_zero header.length, slice_append_right, slice, slice, List.drop_zero,
      Nat.add_zero]
  have hp : payload.length = msgSize := hpayload ▸ slice_length (by omega)
  obtain ⟨lines,hrun,hchannel,hjoin⟩ := kernel_reassembles headerCrc chan hh hd (by decide) hf
  have hsend := sendFrame_eq headerCrc (hh.trans hsize) hp ht
  rw [hpayload] at hjoin
  refine ⟨lines,_,hrun,hchannel,hjoin,hsend,?_⟩
  intro earlier count he hm
  rw [hostIteration_eq headerCrc count (hh.trans hsize) he, hm]
  exact hsend

/-- A zero header and payload, the frame being 9018 bytes in 282 lines. -/
theorem fpga_frame_agrees_zero :
    ∃ lines frame,
      writeIbverbPacket (List.replicate 74 0) 0 fpgaHeaderSize 1 (List.replicate localSize 0) 283 = some lines ∧
      (∀ line ∈ lines, line.1 = OutChannel.chOut1) ∧
      reassemble (lines.map Prod.snd) = some frame ∧
      sendFrame (List.replicate 74 0 ++ List.replicate msgSize 0 ++ [0,0,0,0]) 0 = .ok (frame, frame) ∧
      ∀ (earlier : List Byte) (count : BitVec 32), earlier.length = msgSize →
        messagePayload earlier count = List.replicate msgSize 0 →
        hostIteration (List.replicate 74 0 ++ earlier ++ [0,0,0,0]) 0 count = .ok (frame, frame) := by
  have hsize : fpgaHeaderSize.toNat = 74 := rfl
  have hcopied : copyCells (List.replicate 74 0) (List.replicate localSize (0 : Byte)) fpgaHeaderSize.toNat =
      some (List.replicate 74 0 ++ List.replicate 8966 0) := by
    rw [hsize, copyCells_eq (by rw [List.length_replicate]) (by rw [List.length_replicate]; decide), slice,
      List.drop_zero, List.take_replicate, List.drop_replicate]
    rfl
  have hheld : slice (List.replicate 74 0 ++ List.replicate 8966 (0 : Byte)) fpgaHeaderSize.toNat msgSize =
      List.replicate msgSize 0 := by
    rw [hsize, slice, List.drop_left' List.length_replicate, List.take_replicate]
    rfl
  exact fpga_frame_agrees 0 1 List.length_replicate List.length_replicate hcopied hheld rfl (by decide)

end IbverbPrototype.Fpga
