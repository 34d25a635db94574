import IbverbPrototype.Fpga.Kernel
import IbverbPrototype.Roce.HostSend

/-! What the initial contents of the kernel's local array do to its output. -/
namespace IbverbPrototype.Fpga
open Foundations.ByteOrder Foundations.CheckedMemory Roce

/-- What of a line stream belongs to its frame: channels, flags and the bytes it joins to. -/
def visible (lines : List (OutChannel × Line)) : List OutChannel × List Byte × Option (List Byte) :=
  (lines.map Prod.fst, lines.map (fun line => line.2.flags), reassemble (lines.map Prod.snd))

/-- Channels and flags depend on the header size only; the frame holds the local array's
bytes behind the header, whoever wrote them. -/
theorem kernel_visible {header data : List Byte} {headerSize : BitVec 32} (headerCrc chan : BitVec 32)
    {fuel : Nat} (hh : header.length = headerSize.toNat) (hd : data.length = localSize)
    (hlines : 32*lineCount (headerSize.toNat+msgSize+4) ≤ localSize)
    (hf : lineCount (headerSize.toNat+msgSize+4) < fuel) :
    (writeIbverbPacket header headerCrc headerSize chan data fuel).map visible =
      some (List.replicate (lineCount (headerSize.toNat+msgSize+4)) OutChannel.chOut1,
        (List.range' 0 (lineCount (headerSize.toNat+msgSize+4))).map
          (fun i => lineFlags (headerSize+BitVec.ofNat 32 msgSize+4) (BitVec.ofNat 32 i)),
        some (kernelFrame header headerCrc (slice data headerSize.toNat msgSize))) := by
  obtain ⟨frame,size,hframe,hsum,hsize,hlen,hfit,hrun⟩ := kernel_lines headerCrc chan hh hd hlines hf
  have hjoin : reassemble ((List.range' 0 (lineCount size.toNat)).map (lineAt (frame ++ data.drop size.toNat) size)) =
      some frame := by
    rw [reassemble_lines (by omega) hfit, ← hlen, slice_append_left _ _ (by omega), slice_all]
  rw [hrun, Option.map_some, visible, ← hframe, ← hsum, ← hsize, ← hjoin]
  simp only [List.map_map, Function.comp_def, List.map_const', List.length_range']
  rfl

/-- Frames of one header and seed differ where their payloads do. -/
theorem kernelFrame_injective {header payload payload' : List Byte} {headerCrc : BitVec 32}
    (hlen : payload.length = payload'.length)
    (h : kernelFrame header headerCrc payload = kernelFrame header headerCrc payload') : payload = payload' :=
  List.append_cancel_left (List.append_inj h (by rw [List.length_append, List.length_append, hlen])).1

/-- Two executions with the same arguments emit the same frame exactly when their local
arrays start out with the same payload bytes. -/
theorem kernel_output_determined_iff {header data data' : List Byte} (headerCrc chan : BitVec 32) {fuel : Nat}
    (hh : header.length = fpgaHeaderSize.toNat) (hd : data.length = localSize) (hd' : data'.length = localSize)
    (hf : lineCount sendLength.toNat < fuel) :
    (∃ output, (writeIbverbPacket header headerCrc fpgaHeaderSize chan data fuel).map visible = some output ∧
      (writeIbverbPacket header headerCrc fpgaHeaderSize chan data' fuel).map visible = some output) ↔
    slice data fpgaHeaderSize.toNat msgSize = slice data' fpgaHeaderSize.toNat msgSize := by
  have hsize : fpgaHeaderSize.toNat = 74 := rfl
  have hmsg : msgSize = 8940 := rfl
  have hlocal : localSize = 9040 := rfl
  have hrun := kernel_visible headerCrc chan hh hd (by decide) hf
  have hrun' := kernel_visible headerCrc chan hh hd' (by decide) hf
  rw [hrun, hrun']
  constructor
  · rintro ⟨output,hout,hout'⟩
    have hframes := Option.some_inj.mp (hout.trans hout'.symm)
    have hframe := Option.some_inj.mp (congrArg (fun output => output.2.2) hframes)
    refine kernelFrame_injective ?_ hframe
    rw [slice_length (by omega), slice_length (by omega)]
  · intro hsame
    exact ⟨_,rfl,by rw [hsame]⟩

/-- Arrays of zeros but for one byte behind the frame. -/
theorem kernel_output_determined_tail :
    let data : List Byte := List.replicate localSize 0
    ∃ output, (writeIbverbPacket (List.replicate 74 0) 0 fpgaHeaderSize 1 data 283).map visible = some output ∧
      (writeIbverbPacket (List.replicate 74 0) 0 fpgaHeaderSize 1 (overwrite data 9039 [1]) 283).map visible =
        some output := by
  intro data
  have hd : data.length = localSize := List.length_replicate
  have hd' : (overwrite data 9039 [1]).length = localSize := by rw [overwrite_length (by rw [hd]; decide), hd]
  refine (kernel_output_determined_iff 0 1 List.length_replicate hd hd' (by decide)).mpr ?_
  have hkeep : (data.take 9039).length = 9039 := List.length_take_of_le (by rw [hd]; decide)
  rw [overwrite, List.append_assoc, slice_append_left _ _ (by rw [hkeep]; decide)]
  simp only [data, List.take_replicate, slice, List.drop_replicate]
  rfl

private theorem filled_payload (b : Byte) :
    slice (List.replicate localSize b) fpgaHeaderSize.toNat msgSize = List.replicate msgSize b := by
  rw [slice, List.drop_replicate, List.take_replicate]
  rfl

/-- One header over an array of zeros and over an array of ones. -/
theorem local_array_shows : ¬ ∀ (header data data' : List Byte) (headerCrc chan : BitVec 32) (fuel : Nat),
    header.length = fpgaHeaderSize.toNat → data.length = localSize → data'.length = localSize →
    lineCount sendLength.toNat < fuel →
    ∃ output, (writeIbverbPacket header headerCrc fpgaHeaderSize chan data fuel).map visible = some output ∧
      (writeIbverbPacket header headerCrc fpgaHeaderSize chan data' fuel).map visible = some output := by
  intro hall
  obtain ⟨output,hzeros,hones⟩ := hall (List.replicate fpgaHeaderSize.toNat 0) (List.replicate localSize 0)
    (List.replicate localSize 1) 0 1 283 List.length_replicate List.length_replicate List.length_replicate (by decide)
  rw [kernel_visible 0 1 List.length_replicate List.length_replicate (by decide) (by decide),
    filled_payload] at hzeros hones
  have hsame := Option.some_inj.mp (hzeros.trans hones.symm)
  have hframe := Option.some_inj.mp (congrArg (fun output => output.2.2) hsame)
  have hpayload := kernelFrame_injective (by rw [List.length_replicate, List.length_replicate]) hframe
  have hmem : (0 : Byte) ∈ List.replicate msgSize (1 : Byte) := hpayload ▸ List.mem_replicate.mpr ⟨by decide,rfl⟩
  exact absurd (List.eq_of_mem_replicate hmem) (by decide)

end IbverbPrototype.Fpga
