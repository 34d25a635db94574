import IbverbPrototype.Foundations.ByteOrder
import IbverbPrototype.Foundations.CheckedMemory

/-! The channel lines of the kernel: a frame cut into 32-byte words with flags, and
the receiver that joins them again. -/
namespace IbverbPrototype.Fpga
open Foundations.ByteOrder Foundations.CheckedMemory

def flagFirst : Byte := 0x01
def flagLast : Byte := 0x02

structure Line where
  payload : List Byte
  flags : Byte
  deriving DecidableEq

/-- Unused bytes of the last line, in unsigned arithmetic. -/
def emptyCount (size : BitVec 32) : BitVec 32 := -size % 32

def lineFlags (size i : BitVec 32) : Byte :=
  let flags : Byte := 0
  let flags := if i = 0 then flags ||| flagFirst else flags
  if i = (size-1)/32 then
    (flags.setWidth 32 ||| (flagLast.setWidth 32 ||| (emptyCount size <<< 3))).setWidth 8
  else flags

/-- The framing loop; none is an access outside the array or no fuel left. -/
def lineLoop (data : List Byte) (size : BitVec 32) : Nat → BitVec 32 → Option (List Line)
  | 0, _ => none
  | fuel+1, i =>
    if 32*i < size then do
      let payload ← load data (32*i.toNat) 32
      let lines ← lineLoop data size fuel (i+1)
      some (⟨payload, lineFlags size i⟩ :: lines)
    else some []

/-- Payloads up to the first line flagged as last, less its unused bytes. -/
def untilLast : List Line → Option (List Byte)
  | [] => none
  | line::lines =>
    if line.flags &&& flagLast ≠ 0 then
      some (line.payload.take (line.payload.length-(line.flags >>> 3).toNat))
    else (untilLast lines).map (line.payload ++ ·)

/-- The frame from the first line flagged as first. -/
def reassemble (lines : List Line) : Option (List Byte) :=
  untilLast (lines.dropWhile (fun line => line.flags &&& flagFirst = 0))

/-- Lines a frame of s bytes takes. -/
def lineCount (s : Nat) : Nat := (s+31)/32

/-- Line i of a frame. -/
def lineAt (data : List Byte) (size : BitVec 32) (i : Nat) : Line :=
  ⟨slice data (32*i) 32, lineFlags size (BitVec.ofNat 32 i)⟩

private theorem guard_iff (size : BitVec 32) {i : Nat} (hi : 32*i < 2^32) :
    32*BitVec.ofNat 32 i < size ↔ 32*i < size.toNat := by
  have hw : (32 : BitVec 32).toNat = 32 := rfl
  rw [BitVec.lt_def, BitVec.toNat_mul, BitVec.toNat_ofNat, hw]
  omega

/-- Below the wrap limit the loop emits exactly the lines of the frame, in order. -/
theorem lineLoop_eq {data : List Byte} {size : BitVec 32} (hs : size.toNat ≤ 2^32-32)
    (hd : 32*lineCount size.toNat ≤ data.length) (i rest fuel : Nat)
    (hi : i+rest = lineCount size.toNat) (hf : rest < fuel) :
    lineLoop data size fuel (BitVec.ofNat 32 i) = some ((List.range' i rest).map (lineAt data size)) := by
  unfold lineCount at hd hi
  induction rest generalizing i fuel with
  | zero =>
    obtain ⟨fuel,rfl⟩ := Nat.exists_eq_add_of_lt hf
    have hstop : ¬ 32*BitVec.ofNat 32 i < size := by
      rw [guard_iff size (by omega)]
      omega
    rw [Nat.zero_add, lineLoop, if_neg hstop]
    rfl
  | succ rest ih =>
    obtain ⟨fuel,rfl⟩ : ∃ f, fuel = f+1 := ⟨fuel-1,by omega⟩
    have hgo : 32*BitVec.ofNat 32 i < size := by
      rw [guard_iff size (by omega)]
      omega
    have hin : (BitVec.ofNat 32 i).toNat = i := by
      rw [BitVec.toNat_ofNat]
      omega
    have hnext : BitVec.ofNat 32 i+1 = BitVec.ofNat 32 (i+1) := by
      rw [BitVec.ofNat_add]
      rfl
    rw [lineLoop, if_pos hgo, hin, load_eq (by omega), hnext, ih (i+1) fuel (by omega) (by omega)]
    rfl

theorem emptyCount_toNat (size : BitVec 32) : (emptyCount size).toNat = (32-size.toNat % 32) % 32 := by
  have hs := size.isLt
  have hw : (32 : BitVec 32).toNat = 32 := rfl
  rw [emptyCount, BitVec.toNat_umod, BitVec.toNat_neg, hw]
  omega

private theorem last_iff {size : BitVec 32} {i : Nat} (h1 : 1 ≤ size.toNat) (hi : i < lineCount size.toNat) :
    BitVec.ofNat 32 i = (size-1)/32 ↔ i+1 = lineCount size.toNat := by
  have hs := size.isLt
  have hw : (32 : BitVec 32).toNat = 32 := rfl
  have hsub : (size-1).toNat = size.toNat-1 := by
    rw [BitVec.toNat_sub_of_le (by rw [BitVec.le_def]; exact h1)]
    rfl
  unfold lineCount at hi ⊢
  rw [← BitVec.toNat_inj, BitVec.toNat_udiv, hsub, hw, BitVec.toNat_ofNat]
  omega

private theorem flag_table : ∀ e : Fin 32, ∀ first : Bool,
    let head : Byte := if first then 0 ||| flagFirst else 0
    let flags : Byte := (head.setWidth 32 ||| (flagLast.setWidth 32 ||| (BitVec.ofNat 32 e <<< 3))).setWidth 8
    (flags &&& flagFirst ≠ 0 ↔ first) ∧ flags &&& flagLast ≠ 0 ∧ (flags >>> 3).toNat = e := by
  decide +kernel

/-- The flag bits of line i: first on line 0 only, last and the unused count on the
final line only. -/
theorem lineFlags_spec {size : BitVec 32} {i : Nat} (h1 : 1 ≤ size.toNat) (hi : i < lineCount size.toNat) :
    (lineFlags size (BitVec.ofNat 32 i) &&& flagFirst ≠ 0 ↔ i = 0) ∧
    (lineFlags size (BitVec.ofNat 32 i) &&& flagLast ≠ 0 ↔ i+1 = lineCount size.toNat) ∧
    (lineFlags size (BitVec.ofNat 32 i) >>> 3).toNat =
      if i+1 = lineCount size.toNat then (32-size.toNat % 32) % 32 else 0 := by
  have hzero : BitVec.ofNat 32 i = 0 ↔ i = 0 := by
    have hs := size.isLt
    have hw : (0 : BitVec 32).toNat = 0 := rfl
    unfold lineCount at hi
    rw [← BitVec.toNat_inj, BitVec.toNat_ofNat, hw]
    omega
  have hlast := last_iff h1 hi
  by_cases hl : i+1 = lineCount size.toNat
  · have hlt : (emptyCount size).toNat < 32 := by
      rw [emptyCount_toNat]
      exact Nat.mod_lt _ (by omega)
    obtain ⟨h,h',h''⟩ := flag_table ⟨(emptyCount size).toNat,hlt⟩ (decide (i = 0))
    simp only [decide_eq_true_eq, BitVec.ofNat_toNat, BitVec.setWidth_eq] at h h' h''
    have hflags : lineFlags size (BitVec.ofNat 32 i) = ((if i = 0 then 0 ||| flagFirst else 0).setWidth 32 |||
        (flagLast.setWidth 32 ||| (emptyCount size <<< 3))).setWidth 8 := by
      simp only [lineFlags, if_pos (hlast.mpr hl), hzero]
    rw [hflags, if_pos hl, ← emptyCount_toNat]
    exact ⟨h,⟨fun _ => hl,fun _ => h'⟩,h''⟩
  · have hflags : lineFlags size (BitVec.ofNat 32 i) = if i = 0 then 0 ||| flagFirst else 0 := by
      simp only [lineFlags, if_neg (fun h => hl (hlast.mp h)), hzero]
    rw [hflags, if_neg hl]
    by_cases h0 : i = 0
    · simp only [h0, if_true, iff_true]
      exact ⟨by decide,⟨fun h => absurd h (by decide),fun h => absurd (h0 ▸ h) hl⟩,by decide⟩
    · simp only [h0, if_false, iff_false]
      exact ⟨by decide,⟨fun h => absurd h (by decide),fun h => absurd h hl⟩,by decide⟩

private theorem untilLast_lines {data : List Byte} {size : BitVec 32} (h1 : 1 ≤ size.toNat)
    (hd : 32*lineCount size.toNat ≤ data.length) (i rest : Nat) (hi : i+(rest+1) = lineCount size.toNat) :
    untilLast ((List.range' i (rest+1)).map (lineAt data size)) =
      some (slice data (32*i) (size.toNat-32*i)) := by
  have hsize : 32*lineCount size.toNat = size.toNat+(32-size.toNat % 32) % 32 := by
    unfold lineCount
    omega
  have hlen : (slice data (32*i) 32).length = 32 := slice_length (by omega)
  obtain ⟨-,hlast,hempty⟩ := lineFlags_spec (i := i) h1 (by omega)
  induction rest generalizing i with
  | zero =>
    have hl : i+1 = lineCount size.toNat := by omega
    rw [if_pos hl] at hempty
    simp only [List.range'_succ, List.range'_zero, List.map_cons, List.map_nil, untilLast, lineAt]
    rw [if_pos (hlast.mpr hl), hempty, hlen, slice_take _ _ (by omega)]
    congr 2
    omega
  | succ rest ih =>
    have hl : ¬ i+1 = lineCount size.toNat := by omega
    have hlen' : (slice data (32*(i+1)) 32).length = 32 := slice_length (by omega)
    obtain ⟨-,hlast',hempty'⟩ := lineFlags_spec (i := i+1) h1 (by omega)
    have hmore : ¬ (lineAt data size i).flags &&& flagLast ≠ 0 := fun h => hl (hlast.mp h)
    rw [List.range'_succ, List.map_cons, untilLast, if_neg hmore, ih (i+1) (by omega) hlen' hlast' hempty']
    simp only [Option.map_some, lineAt, Nat.mul_succ, slice_append]
    congr 2
    unfold lineCount at hi
    omega

/-- Joining the lines of a frame gives back exactly its bytes. -/
theorem reassemble_lines {data : List Byte} {size : BitVec 32} (h1 : 1 ≤ size.toNat)
    (hd : 32*lineCount size.toNat ≤ data.length) :
    reassemble ((List.range' 0 (lineCount size.toNat)).map (lineAt data size)) =
      some (slice data 0 size.toNat) := by
  obtain ⟨rest,hrest⟩ : ∃ rest, lineCount size.toNat = rest+1 := by
    unfold lineCount
    exact ⟨(size.toNat+31)/32-1,by omega⟩
  have hpos : 0 < lineCount size.toNat := hrest ▸ Nat.succ_pos rest
  have hfirst := (lineFlags_spec h1 hpos).1.mpr rfl
  have hkeep : reassemble ((List.range' 0 (rest+1)).map (lineAt data size)) =
      untilLast ((List.range' 0 (rest+1)).map (lineAt data size)) := by
    rw [reassemble, List.range'_succ, List.map_cons, List.dropWhile_cons_of_neg]
    simpa [lineAt] using hfirst
  rw [hrest, hkeep, untilLast_lines h1 hd 0 rest (by omega)]
  rfl

/-- The payloads of consecutive lines, one after the other. -/
theorem payloads_join (data : List Byte) (size : BitVec 32) (i rest : Nat) :
    ((List.range' i rest).map (lineAt data size)).flatMap Line.payload = slice data (32*i) (32*rest) := by
  induction rest generalizing i with
  | zero => simp
  | succ rest ih =>
    have hpayload : (lineAt data size i).payload = slice data (32*i) 32 := rfl
    rw [List.range'_succ, List.map_cons, List.flatMap_cons, ih, hpayload, Nat.mul_succ 32 i, slice_append]
    congr 1
    omega

/-- The line stream of a frame: its lines, their flags, and what they join to. -/
structure Framed (data : List Byte) (s : Nat) (lines : List Line) : Prop where
  count : lines.length = lineCount s
  first : ∀ i line, lines[i]? = some line → (line.flags &&& flagFirst ≠ 0 ↔ i = 0)
  last : ∀ i line, lines[i]? = some line → (line.flags &&& flagLast ≠ 0 ↔ i+1 = lineCount s)
  empty : ∀ (i : Nat) (line : Line), lines[i]? = some line →
    (line.flags >>> 3).toNat = if i+1 = lineCount s then (32-s % 32) % 32 else 0
  joined : (lines.flatMap Line.payload).take (32*lines.length-(32-s % 32) % 32) = data.take s
  received : reassemble lines = some (data.take s)

theorem lines_framed {data : List Byte} {size : BitVec 32} (h1 : 1 ≤ size.toNat)
    (hd : 32*lineCount size.toNat ≤ data.length) :
    Framed data size.toNat ((List.range' 0 (lineCount size.toNat)).map (lineAt data size)) := by
  have hlen : ((List.range' 0 (lineCount size.toNat)).map (lineAt data size)).length = lineCount size.toNat := by
    rw [List.length_map, List.length_range']
  have hsize : 32*lineCount size.toNat = size.toNat+(32-size.toNat % 32) % 32 := by
    unfold lineCount
    omega
  have hflags (i : Nat) (line : Line)
      (hline : ((List.range' 0 (lineCount size.toNat)).map (lineAt data size))[i]? = some line) :
      i < lineCount size.toNat ∧ line.flags = lineFlags size (BitVec.ofNat 32 i) := by
    have hi := (List.getElem?_eq_some_iff.mp hline).1
    rw [hlen] at hi
    rw [List.getElem?_map, List.getElem?_range' hi, Option.map_some, Nat.one_mul, Nat.zero_add] at hline
    exact ⟨hi,(congrArg Line.flags (Option.some_inj.mp hline)).symm⟩
  refine ⟨hlen,?_,?_,?_,?_,reassemble_lines h1 hd⟩
  · intro i line hline
    obtain ⟨hi,hf⟩ := hflags i line hline
    exact hf ▸ (lineFlags_spec h1 hi).1
  · intro i line hline
    obtain ⟨hi,hf⟩ := hflags i line hline
    exact hf ▸ (lineFlags_spec h1 hi).2.1
  · intro i line hline
    obtain ⟨hi,hf⟩ := hflags i line hline
    exact hf ▸ (lineFlags_spec h1 hi).2.2
  · rw [payloads_join, hlen, slice_take _ _ (Nat.sub_le _ _), hsize, Nat.add_sub_cancel]
    rfl

/-- Every frame up to the wrap limit goes out in exactly its lines and comes back whole;
streams of distinct frames are distinct. -/
theorem framing_round_trip {data : List Byte} {size : BitVec 32} {fuel : Nat} (h1 : 1 ≤ size.toNat)
    (hs : size.toNat ≤ 2^32-32) (hd : 32*lineCount size.toNat ≤ data.length) (hf : lineCount size.toNat < fuel) :
    ∃ lines, lineLoop data size fuel 0 = some lines ∧ Framed data size.toNat lines ∧
      ∀ (data' : List Byte) (size' : BitVec 32) (fuel' : Nat), 1 ≤ size'.toNat → size'.toNat ≤ 2^32-32 →
        32*lineCount size'.toNat ≤ data'.length → lineCount size'.toNat < fuel' →
        lineLoop data' size' fuel' 0 = some lines →
        size' = size ∧ data'.take size'.toNat = data.take size.toNat := by
  have hframed := lines_framed h1 hd
  refine ⟨_,lineLoop_eq hs hd 0 _ fuel (Nat.zero_add _) hf,hframed,?_⟩
  intro data' size' fuel' h1' hs' hd' hf' hrun
  have hrun' := lineLoop_eq hs' hd' 0 _ fuel' (Nat.zero_add _) hf'
  have hsame := Option.some_inj.mp (hrun'.symm.trans hrun)
  have hreceived := (lines_framed h1' hd').received
  rw [hsame, hframed.received, Option.some_inj] at hreceived
  have hlengths := congrArg List.length hreceived
  rw [List.length_take, List.length_take] at hlengths
  refine ⟨BitVec.eq_of_toNat_eq ?_,hreceived.symm⟩
  unfold lineCount at hd hd'
  omega

/-- A frame of 33 bytes takes two lines, the last with 31 unused bytes. -/
theorem framing_round_trip_two :
    ∃ lines, lineLoop (List.replicate 64 7) 33 3 0 = some lines ∧ Framed (List.replicate 64 7) 33 lines := by
  have hfit : 32*lineCount (33 : BitVec 32).toNat ≤ (List.replicate 64 (7 : Byte)).length := by decide
  have hfuel : lineCount (33 : BitVec 32).toNat < 3 := by decide
  obtain ⟨lines,hrun,hframed,-⟩ := framing_round_trip (by decide) (by decide) hfit hfuel
  exact ⟨lines,hrun,hframed⟩

end IbverbPrototype.Fpga
