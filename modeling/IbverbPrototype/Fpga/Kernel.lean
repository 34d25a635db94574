import IbverbPrototype.Fpga.LineFraming
import IbverbPrototype.Roce.Crc32
import IbverbPrototype.Roce.RawPacket

/-! The packet kernel over its local array, and the header size its host passes. -/
namespace IbverbPrototype.Fpga
open Foundations.ByteOrder Foundations.CheckedMemory Roce

inductive OutChannel where
  | chOut0
  | chOut1
  deriving DecidableEq

/-- Bytes of the kernel's local array. -/
def localSize : Nat := msgSize+100

/-- The header size computed by the host side, in 32 bits. -/
def fpgaHeaderSize : BitVec 32 := BitVec.ofNat 32 (sizeofEthHdr+sizeofIbHeaders)

/-- The local array with the header copied in and the checksum stored, from what the
array happens to hold. -/
def prepareFrame (header : List Byte) (headerCrc headerSize : BitVec 32) (data : List Byte) : Option (List Byte) := do
  let data ← copyCells header data headerSize.toNat
  let payload ← load data headerSize.toNat msgSize
  store data (headerSize+BitVec.ofNat 32 msgSize).toNat (toLittle 4 (crc32 headerCrc payload))

/-- The lines written, each with its channel. None is an access outside an array or
no fuel left. -/
def writeIbverbPacket (header : List Byte) (headerCrc headerSize _chan : BitVec 32) (data : List Byte)
    (fuel : Nat) : Option (List (OutChannel × Line)) := do
  let data ← prepareFrame header headerCrc headerSize data
  let lines ← lineLoop data (headerSize+BitVec.ofNat 32 msgSize+4) fuel 0
  some (lines.map (OutChannel.chOut1, ·))

/-- Header, payload and trailer as the kernel lays them out, before the rest of its array. -/
def kernelFrame (header : List Byte) (headerCrc : BitVec 32) (payload : List Byte) : List Byte :=
  header ++ payload ++ toLittle 4 (crc32 headerCrc payload)

private theorem frame_sizes {n : Nat} {headerSize : BitVec 32} (hn : headerSize.toNat = n)
    (hroom : n+msgSize+4 ≤ localSize) :
    (headerSize+BitVec.ofNat 32 msgSize).toNat = n+msgSize ∧
    (headerSize+BitVec.ofNat 32 msgSize+4).toNat = n+msgSize+4 := by
  have hmsg : msgSize = 8940 := rfl
  have hlocal : localSize = 9040 := rfl
  have hfour : (4 : BitVec 32).toNat = 4 := rfl
  have hsum : (headerSize+BitVec.ofNat 32 msgSize).toNat = n+msgSize := by
    rw [BitVec.toNat_add, BitVec.toNat_ofNat, hn]
    omega
  refine ⟨hsum,?_⟩
  rw [BitVec.toNat_add, hsum, hfour]
  omega

/-- All accesses up to the checksum store are inside the arrays. -/
theorem prepareFrame_eq {header data : List Byte} {headerSize : BitVec 32} (headerCrc : BitVec 32)
    (hh : header.length = headerSize.toNat) (hd : data.length = localSize)
    (hroom : headerSize.toNat+msgSize+4 ≤ localSize) :
    prepareFrame header headerCrc headerSize data =
      some (kernelFrame header headerCrc (slice data headerSize.toNat msgSize) ++
        data.drop (headerSize.toNat+msgSize+4)) := by
  obtain ⟨hsum,-⟩ := frame_sizes rfl hroom
  obtain ⟨n,hn⟩ : ∃ n, headerSize.toNat = n := ⟨_,rfl⟩
  rw [hn] at hh hroom hsum ⊢
  obtain ⟨payload,hp⟩ : ∃ payload, slice data n msgSize = payload := ⟨_,rfl⟩
  have hpl : payload.length = msgSize := hp ▸ slice_length (by omega)
  have hhp : (header ++ payload).length = n+msgSize := by rw [List.length_append, hh, hpl]
  have hcopy : copyCells header data n = some (header ++ payload ++ data.drop (n+msgSize)) := by
    rw [copyCells_eq (by omega) (by omega), ← hh, slice_all, List.append_assoc, ← List.drop_drop, hh, ← hp, slice,
      List.take_append_drop]
  have hload : load (header ++ payload ++ data.drop (n+msgSize)) n msgSize = some payload := by
    rw [load_eq (by rw [List.length_append, hhp]; omega), slice_middle _ _ _ hh.symm hpl.symm]
  have hstore (cells : List Byte) (hc : cells.length = 4) :
      store (header ++ payload ++ data.drop (n+msgSize)) (n+msgSize) cells =
        some (header ++ payload ++ cells ++ data.drop (n+msgSize+4)) := by
    rw [store_eq (by rw [List.length_append, hhp, List.length_drop]; omega), overwrite, List.take_left' hhp, hc,
      ← List.drop_drop, List.drop_left' hhp, List.drop_drop]
  simp only [prepareFrame, hn, hcopy, Option.bind_eq_bind, Option.bind_some, hload, hsum,
    hstore _ (toLittle_length 4 _), hp, kernelFrame]

/-- Every access of the kernel is inside its arrays, and it emits the lines of its frame
before the rest of its array, for any header that leaves room for the last line. -/
theorem kernel_lines {header data : List Byte} {headerSize : BitVec 32} (headerCrc chan : BitVec 32)
    {fuel : Nat} (hh : header.length = headerSize.toNat) (hd : data.length = localSize)
    (hlines : 32*lineCount (headerSize.toNat+msgSize+4) ≤ localSize)
    (hf : lineCount (headerSize.toNat+msgSize+4) < fuel) :
    ∃ frame size, frame = kernelFrame header headerCrc (slice data headerSize.toNat msgSize) ∧
      size = headerSize+BitVec.ofNat 32 msgSize+4 ∧ size.toNat = headerSize.toNat+msgSize+4 ∧
      frame.length = size.toNat ∧ 32*lineCount size.toNat ≤ (frame ++ data.drop size.toNat).length ∧
      writeIbverbPacket header headerCrc headerSize chan data fuel =
        some (((List.range' 0 (lineCount size.toNat)).map (lineAt (frame ++ data.drop size.toNat) size)).map
          (OutChannel.chOut1, ·)) := by
  have hlocal : localSize = 9040 := rfl
  have hroom : headerSize.toNat+msgSize+4 ≤ localSize := by
    unfold lineCount at hlines
    omega
  obtain ⟨-,hsize⟩ := frame_sizes rfl hroom
  have hprepare := prepareFrame_eq headerCrc hh hd hroom
  obtain ⟨frame,hframe⟩ : ∃ frame, kernelFrame header headerCrc (slice data headerSize.toNat msgSize) = frame :=
    ⟨_,rfl⟩
  rw [hframe, ← hsize] at hprepare
  have hlen : frame.length = headerSize.toNat+msgSize+4 := by
    rw [← hframe, kernelFrame, List.length_append, List.length_append, toLittle_length, hh, slice_length (by omega)]
  have hfit : 32*lineCount (headerSize+BitVec.ofNat 32 msgSize+4).toNat ≤
      (frame ++ data.drop (headerSize+BitVec.ofNat 32 msgSize+4).toNat).length := by
    rw [hsize, List.length_append, List.length_drop, hlen, hd]
    omega
  have hloop := lineLoop_eq (by omega) hfit 0 _ fuel (Nat.zero_add _) (by rwa [hsize])
  refine ⟨frame,_,hframe.symm,rfl,hsize,hlen.trans hsize.symm,hfit,?_⟩
  rw [writeIbverbPacket, hprepare]
  exact congrArg (Option.bind · _) hloop

/-- The lines of the kernel join to header, payload and little-endian checksum. -/
theorem kernel_reassembles {header data : List Byte} {headerSize : BitVec 32} (headerCrc chan : BitVec 32)
    {fuel : Nat} (hh : header.length = headerSize.toNat) (hd : data.length = localSize)
    (hlines : 32*lineCount (headerSize.toNat+msgSize+4) ≤ localSize)
    (hf : lineCount (headerSize.toNat+msgSize+4) < fuel) :
    ∃ lines, writeIbverbPacket header headerCrc headerSize chan data fuel = some lines ∧
      (∀ line ∈ lines, line.1 = OutChannel.chOut1) ∧
      reassemble (lines.map Prod.snd) =
        some (kernelFrame header headerCrc (slice data headerSize.toNat msgSize)) := by
  obtain ⟨frame,size,hframe,-,hsize,hlen,hfit,hrun⟩ := kernel_lines headerCrc chan hh hd hlines hf
  refine ⟨_,hrun,?_,?_⟩
  · intro line hline
    obtain ⟨_,_,rfl⟩ := List.mem_map.mp hline
    rfl
  · rw [List.map_map, ← hframe]
    refine (congrArg reassemble (List.map_id _)).trans ((reassemble_lines (by omega) hfit).trans (congrArg some ?_))
    rw [← hlen, slice_append_left _ _ (by omega), slice_all]

end IbverbPrototype.Fpga
