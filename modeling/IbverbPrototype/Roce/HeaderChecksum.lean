import IbverbPrototype.Roce.Crc32
import IbverbPrototype.Roce.RawPacket
import Mathlib.Tactic.IntervalCases

/-! The invariant checksum of the headers and the payload: conformance to the
bitwise reference, what it ignores, what it detects and the receiver's residue. -/
namespace IbverbPrototype.Roce
open Foundations Foundations.ByteOrder

/-- Fields a router may change are checksummed as ones. -/
def maskGrh (grh : IbGrh) : IbGrh :=
  { grh with trafficClassP1 := ~~~0, trafficClassP2 := ~~~0, flowLabel := ~~~0, hopLimit := ~~~0 }

def maskBth (bth : IbBth) : IbBth := { bth with reserved1 := ~~~0 }

def ibHeaderChecksum (header : IbHeaders) : BitVec 32 :=
  let ibPadding : BitVec 64 := ~~~0
  let crc := crc32 0 (toLittle 8 ibPadding)
  let crc := crc32 crc (maskGrh header.grh).bytes
  let crc := crc32 crc (maskBth header.bth).bytes
  crc32 crc header.deth.bytes

/-- The byte the reference covers in place of byte i of the 60 header bytes. -/
def coverByte (i : Nat) (b : Byte) : Byte :=
  if i = 0 then b ||| 0x0F else if i = 1 ∨ i = 2 ∨ i = 3 ∨ i = 7 ∨ i = 40+4 then 0xFF else b

def icrcCover (header : List Byte) : List Byte := header.mapIdx coverByte

/-- The checksum by its definition, over header bytes as they stand on the wire. -/
def icrc (header payload : List Byte) : BitVec 32 :=
  referenceCrc (List.replicate 8 0xFF ++ icrcCover header ++ payload)

private theorem cover_between (xs : List Byte) (off : Nat) (h : 8 ≤ off) (h' : off+xs.length ≤ 44) :
    xs.mapIdx (fun i => coverByte (i+off)) = xs := by
  apply List.ext_getElem (by simp)
  intro i hi _
  rw [List.getElem_mapIdx, coverByte, if_neg (by omega), if_neg]
  rw [List.length_mapIdx] at hi
  omega

private theorem grh_unit_mask (t1 v t2 : BitVec 4) (f : BitVec 20) :
    toLittle 4 (~~~(0 : BitVec 20) ++ ~~~(0 : BitVec 4) ++ v ++ ~~~(0 : BitVec 4)) =
      (toLittle 4 (f ++ t2 ++ v ++ t1)).mapIdx coverByte := by
  let masked := ~~~(0 : BitVec 20) ++ ~~~(0 : BitVec 4) ++ v ++ ~~~(0 : BitVec 4)
  have hlow : masked.setWidth 8 = (f ++ t2 ++ v ++ t1).setWidth 8 ||| (0x0F : Byte) := by
    apply BitVec.eq_of_getLsbD_eq
    intro i hi
    simp only [masked, BitVec.getLsbD_or, BitVec.getLsbD_setWidth, BitVec.getLsbD_append]
    interval_cases i <;> simp
  have hhigh (k : Nat) (hk : 8 ≤ k ∧ k+8 ≤ 32) : (masked >>> k).setWidth 8 = (0xFF : Byte) := by
    apply BitVec.eq_of_getLsbD_eq
    intro i hi
    have hff : (0xFF : Byte).getLsbD i = true := by interval_cases i <;> rfl
    simp only [masked, BitVec.getLsbD_setWidth, BitVec.getLsbD_ushiftRight, BitVec.getLsbD_append,
      BitVec.getLsbD_not, hff]
    rw [if_neg (by omega), if_neg (by omega)]
    split <;> simp [hi] <;> omega
  change toLittle 4 masked = _
  simp only [toLittle, List.mapIdx_cons, List.mapIdx_nil, ← BitVec.shiftRight_add, hlow,
    hhigh 8 (by decide), hhigh (8+8) (by decide), hhigh (8+8+8) (by decide)]
  rfl

private theorem maskGrh_bytes (grh : IbGrh) : (maskGrh grh).bytes = grh.bytes.mapIdx coverByte := by
  obtain ⟨t1,v,t2,f,l,n,p,s,d⟩ := grh
  have hs := cover_between s.toList 8 (by decide) (by simp)
  have hd := cover_between d.toList 24 (by decide) (by simp)
  simp only [maskGrh, IbGrh.bytes, List.mapIdx_append]
  rw [← grh_unit_mask t1 v t2 f]
  simp only [List.length_append, toLittle_length, List.length_cons, List.length_nil,
    Vector.length_toList, hs, hd]
  rfl

private theorem maskBth_bytes (bth : IbBth) :
    (maskBth bth).bytes = bth.bytes.mapIdx (fun i => coverByte (i+40)) := by
  obtain ⟨o,t,c,m,e,k,r1,q,a,r2,x⟩ := bth
  have hq : toLittle 4 (q ++ ~~~(0 : BitVec 8)) =
      (toLittle 4 (q ++ r1)).mapIdx (fun i => coverByte (i+4+40)) := by
    have h0 : (q ++ ~~~(0 : BitVec 8)).setWidth 8 = ~~~(0 : BitVec 8) := BitVec.setWidth_append_eq_right
    have hk (k : Nat) (hk : 8 ≤ k) (r : BitVec 8) :
        ((q ++ r) >>> k).setWidth 8 = (q >>> (k-8)).setWidth 8 := append_shift q r k 8 hk
    simp only [toLittle, List.mapIdx_cons, List.mapIdx_nil, ← BitVec.shiftRight_add, h0,
      hk 8 (by decide), hk (8+8) (by decide), hk (8+8+8) (by decide)]
    rfl
  simp only [maskBth, IbBth.bytes, List.mapIdx_append, List.length_append, toLittle_length,
    List.length_cons, List.length_nil]
  rw [hq]
  rfl

/-- The masked structs lay out exactly the covered bytes. -/
theorem masked_bytes (header : IbHeaders) :
    (maskGrh header.grh).bytes ++ (maskBth header.bth).bytes ++ header.deth.bytes =
      icrcCover header.bytes := by
  have hd : header.deth.bytes.mapIdx (fun i => coverByte (i+52)) = header.deth.bytes := by
    apply List.ext_getElem (by simp)
    intro i hi _
    rw [List.getElem_mapIdx, coverByte, if_neg (by omega), if_neg (by omega)]
  rw [icrcCover, IbHeaders.bytes, List.mapIdx_append, List.mapIdx_append, maskGrh_bytes, maskBth_bytes]
  simp only [List.length_append, IbGrh.bytes_length, IbBth.bytes_length, sizeofIbBth, hd]

/-- The four chained calls leave one reference checksum over padding and cover. -/
theorem ibHeaderChecksum_eq (header : IbHeaders) :
    ibHeaderChecksum header = referenceCrc (List.replicate 8 0xFF ++ icrcCover header.bytes) := by
  have hpad : toLittle 8 (~~~(0 : BitVec 64)) = List.replicate 8 (0xFF : Byte) := by decide
  rw [ibHeaderChecksum, hpad, crc32_zero (by simp), crc32_extend _ (by simp),
    crc32_extend _ (by simp [sizeofIbBth]), crc32_extend _ (by simp [sizeofIbDeth]), ← masked_bytes]
  simp only [List.append_assoc]

/-- The whole checksum conforms to the reference for every header and payload. -/
theorem packet_checksum_conforms (header : IbHeaders) (payload : List Byte) (hp : payload.length < 2^31) :
    crc32 (ibHeaderChecksum header) payload = icrc header.bytes payload := by
  rw [ibHeaderChecksum_eq, crc32_extend _ hp, icrc]

theorem packet_checksum_conforms_letter :
    [(0x4D : Byte)].length < 2^31 ∧ crc32 (ibHeaderChecksum (IbHeaders.ofBytes [])) [0x4D] =
      icrc (IbHeaders.ofBytes []).bytes [0x4D] :=
  ⟨by decide,packet_checksum_conforms _ _ (by decide)⟩

/-- Header bits, counted low bit of each byte first, that the checksum covers: not
the two traffic class parts, the flow label, the hop limit and reserved1. -/
def CoveredBit (k : Nat) : Prop := ¬ (k < 4 ∨ 8 ≤ k ∧ k < 32 ∨ 56 ≤ k ∧ k < 64 ∨ 352 ≤ k ∧ k < 360)

instance (k : Nat) : Decidable (CoveredBit k) :=
  inferInstanceAs (Decidable (¬ (k < 4 ∨ 8 ≤ k ∧ k < 32 ∨ 56 ≤ k ∧ k < 64 ∨ 352 ≤ k ∧ k < 360)))

/-- Position k in checksum order holds different covered bits of two messages. -/
def CoveredDiff (h h' : IbHeaders) (p p' : List Byte) (k : Nat) : Prop :=
  CoveredBit k ∧ (bitStream (h.bytes ++ p))[k]? ≠ (bitStream (h'.bytes ++ p'))[k]?

/-- A header with all five mutable fields rewritten. -/
def rewriteMutable (h : IbHeaders) (t1 t2 : BitVec 4) (f : BitVec 20) (hop : Byte) (r1 : BitVec 8) : IbHeaders :=
  { h with
    grh := { h.grh with trafficClassP1 := t1, trafficClassP2 := t2, flowLabel := f, hopLimit := hop }
    bth := { h.bth with reserved1 := r1 } }

theorem ibHeaderChecksum_rewriteMutable (h : IbHeaders) (t1 t2 : BitVec 4) (f : BitVec 20) (hop : Byte)
    (r1 : BitVec 8) : ibHeaderChecksum (rewriteMutable h t1 t2 f hop r1) = ibHeaderChecksum h := by
  simp only [ibHeaderChecksum, rewriteMutable, maskGrh, maskBth]

private theorem coverByte_bit (i j : Nat) (hj : j < 8) (b : Byte) :
    (coverByte i b).getLsbD j = if CoveredBit (8*i+j) then b.getLsbD j else true := by
  have hff : (0xFF : Byte).getLsbD j = true := by interval_cases j <;> rfl
  have hlow : (0x0F : Byte).getLsbD j = decide (j < 4) := by interval_cases j <;> rfl
  unfold coverByte
  split
  · rename_i hi
    subst hi
    rw [BitVec.getLsbD_or, hlow]
    by_cases h4 : j < 4
    · rw [if_neg (by unfold CoveredBit; omega)]
      simp [h4]
    · rw [if_pos (by unfold CoveredBit; omega)]
      simp [h4]
  · split
    · rw [if_neg (by unfold CoveredBit; omega), hff]
    · rw [if_pos (by unfold CoveredBit; omega)]

private theorem cover_bit (h : IbHeaders) (p : List Byte) (k : Nat) :
    (bitStream (icrcCover h.bytes ++ p))[k]? =
      ((bitStream (h.bytes ++ p))[k]?).map (fun b => if CoveredBit k then b else true) := by
  have hk : 8*(k/8)+k%8 = k := Nat.div_add_mod k 8
  have hj : k%8 < 8 := Nat.mod_lt k (by decide)
  rw [← hk, bitStream_getElem _ _ _ hj, bitStream_getElem _ _ _ hj]
  by_cases hi : k/8 < h.bytes.length
  · rw [List.getElem?_append_left (by simpa [icrcCover] using hi), List.getElem?_append_left hi, icrcCover,
      List.getElem?_mapIdx, Option.map_map, Option.map_map]
    congr 1
    funext b
    exact coverByte_bit _ _ hj b
  · have hl : (icrcCover h.bytes).length = h.bytes.length := by simp [icrcCover]
    rw [List.getElem?_append_right (by omega), List.getElem?_append_right (by omega), hl, Option.map_map]
    have hc : CoveredBit (8*(k/8)+k%8) := by
      rw [IbHeaders.bytes_length, sizeofIbHeaders] at hi
      unfold CoveredBit
      omega
    simp [hc, Function.comp_def]

/-- The covered images of two messages differ exactly at their covered differences. -/
theorem cover_ne_iff (h h' : IbHeaders) {p p' : List Byte} (hl : p.length = p'.length) (k : Nat) :
    (bitStream (icrcCover h.bytes ++ p))[k]? ≠ (bitStream (icrcCover h'.bytes ++ p'))[k]? ↔
      CoveredDiff h h' p p' k := by
  have hlen : (bitStream (h.bytes ++ p)).length = (bitStream (h'.bytes ++ p')).length := by simp [hl]
  rw [cover_bit, cover_bit, CoveredDiff]
  by_cases hc : CoveredBit k
  · simp [hc]
  · simp only [hc, if_false, false_and, iff_false, not_not]
    by_cases hk : k < (bitStream (h.bytes ++ p)).length
    · rw [List.getElem?_eq_getElem hk, List.getElem?_eq_getElem (hlen ▸ hk), Option.map_some, Option.map_some]
    · rw [List.getElem?_eq_none (by omega), List.getElem?_eq_none (by omega)]

private theorem polynomial_top : polynomial.getLsbD (32-1) = true := by decide

/-- Rewriting the mutable fields never changes the checksum; a covered difference
confined to 32 consecutive bits always does, across field and payload boundaries. -/
theorem checksum_ignores_and_detects (h h' : IbHeaders) (p p' : List Byte) (hl : p.length = p'.length)
    (hp : p.length < 2^31) :
    (∀ t1 t2 f hop r1, crc32 (ibHeaderChecksum (rewriteMutable h t1 t2 f hop r1)) p =
      crc32 (ibHeaderChecksum h) p) ∧
    ((∃ k, CoveredDiff h h' p p' k) →
      (∃ start, ∀ k, CoveredDiff h h' p p' k → start ≤ k ∧ k < start+32) →
      crc32 (ibHeaderChecksum h) p ≠ crc32 (ibHeaderChecksum h') p') := by
  refine ⟨fun t1 t2 f hop r1 => by rw [ibHeaderChecksum_rewriteMutable],?_⟩
  rintro ⟨k,hk⟩ ⟨start,hwin⟩ he
  rw [ibHeaderChecksum_eq, crc32_extend _ hp, ibHeaderChecksum_eq, crc32_extend _ (hl ▸ hp)] at he
  rw [referenceCrc, referenceCrc, List.append_assoc, List.append_assoc, bitStream_append,
    bitStream_append _ (icrcCover h'.bytes ++ p'), ShiftRegister.feed_append, ShiftRegister.feed_append] at he
  refine ShiftRegister.feed_ne_of_window polynomial _ (by decide) polynomial_top ?_ ?_ start ?_
    ((BitVec.xor_left_inj _).mp he)
  · simp [icrcCover, hl]
  · intro hs
    exact (cover_ne_iff h h' hl k).mpr hk (by rw [hs])
  · intro i hi
    exact hwin i ((cover_ne_iff h h' hl i).mp hi)

private theorem straddling_diff (k : Nat) :
    CoveredDiff (IbHeaders.ofBytes (List.replicate 60 0)) (IbHeaders.ofBytes (List.replicate 59 0 ++ [0x80]))
      [0x00] [0x01] k ↔ k = 479 ∨ k = 480 := by
  rw [CoveredDiff, IbHeaders.bytes_ofBytes (by decide), IbHeaders.bytes_ofBytes (by decide),
    show List.replicate 60 (0 : Byte) = List.replicate 59 0 ++ [0] from List.replicate_succ', List.append_assoc,
    List.append_assoc, bitStream_append, bitStream_append _ ([0x80] ++ [0x01])]
  have hl : (bitStream (List.replicate 59 (0 : Byte))).length = 472 := by simp
  rcases Nat.lt_or_ge k 472 with h | h
  · rw [List.getElem?_append_left (by omega), List.getElem?_append_left (by omega)]
    simp only [ne_eq, not_true_eq_false, and_false, false_iff]
    omega
  · obtain ⟨i,rfl⟩ := Nat.exists_eq_add_of_le h
    rw [List.getElem?_append_right (by omega), List.getElem?_append_right (by omega), hl,
      Nat.add_sub_cancel_left]
    rcases Nat.lt_or_ge i 16 with h' | h'
    · interval_cases i <;> simp [byteBits, CoveredBit, List.range_succ]
    · rw [List.getElem?_eq_none (by rw [bitStream_length]; exact h'),
        List.getElem?_eq_none (by rw [bitStream_length]; exact h')]
      simp only [ne_eq, not_true_eq_false, and_false, false_iff]
      omega

theorem checksum_detects_straddling :
    crc32 (ibHeaderChecksum (IbHeaders.ofBytes (List.replicate 60 0))) [0x00] ≠
      crc32 (ibHeaderChecksum (IbHeaders.ofBytes (List.replicate 59 0 ++ [0x80]))) [0x01] :=
  (checksum_ignores_and_detects _ _ [0x00] [0x01] rfl (by decide)).2
    ⟨480,(straddling_diff 480).mpr (.inr rfl)⟩
    ⟨479,fun k hk => by rcases (straddling_diff k).mp hk with rfl | rfl <;> decide⟩

/-- The constant every receiver sees over payload and trailer. -/
def residue : BitVec 32 := 0x2144DF1C

private theorem residue_eq :
    (ShiftRegister.clock polynomial)^[32] (BitVec.allOnes 32) ^^^ BitVec.allOnes 32 = residue := by
  decide +kernel

private theorem word_bitStream (x : BitVec 32) : (ShiftRegister.word (bitStream (toLittle 4 x)) : BitVec 32) = x := by
  apply BitVec.eq_of_getLsbD_eq
  intro i hi
  rw [ShiftRegister.word_getLsbD, bitStream_toLittle, List.getD_eq_getElem?_getD, List.getElem?_map,
    List.getElem?_range hi]
  simp [hi]

/-- Appending four bytes x, stored little-endian, gives the residue exactly when x
is the checksum they extend. -/
theorem residue_iff (front : List Byte) (x : BitVec 32) :
    referenceCrc (front ++ toLittle 4 x) = residue ↔ x = referenceCrc front := by
  let s := ShiftRegister.feed polynomial (BitVec.allOnes 32) (bitStream front)
  have hfeed : referenceCrc (front ++ toLittle 4 x) =
      (ShiftRegister.clock polynomial)^[32] (s ^^^ x) ^^^ BitVec.allOnes 32 := by
    rw [referenceCrc, bitStream_append, ShiftRegister.feed_append,
      ShiftRegister.feed_full_word polynomial s (s ^^^ x) (by simp) (by rw [word_bitStream])]
  have hx : s ^^^ x = BitVec.allOnes 32 ↔ x = s ^^^ BitVec.allOnes 32 := by
    constructor
    · intro h
      rw [← h, ← BitVec.xor_assoc, BitVec.xor_self, BitVec.zero_xor]
    · intro h
      rw [h, ← BitVec.xor_assoc, BitVec.xor_self, BitVec.zero_xor]
  rw [hfeed, ← residue_eq, BitVec.xor_left_inj,
    ((ShiftRegister.clock_injective polynomial (by decide) polynomial_top).iterate 32).eq_iff, hx]
  rfl

/-- The checksum in host order behind the payload yields the residue constant for
every packet, and no other four bytes do. -/
theorem trailer_residue (h : IbHeaders) (p : List Byte) (hp : p.length+4 < 2^31) :
    crc32 (ibHeaderChecksum h) (p ++ toLittle 4 (crc32 (ibHeaderChecksum h) p)) = 0x2144DF1C ∧
    ∀ t : List Byte, t.length = 4 → crc32 (ibHeaderChecksum h) (p ++ t) = 0x2144DF1C →
      t = toLittle 4 (crc32 (ibHeaderChecksum h) p) := by
  let front := List.replicate 8 0xFF ++ icrcCover h.bytes ++ p
  have hcrc : crc32 (ibHeaderChecksum h) p = referenceCrc front := by
    rw [ibHeaderChecksum_eq, crc32_extend _ (by omega)]
  have hlong (t : List Byte) (ht : t.length = 4) :
      crc32 (ibHeaderChecksum h) (p ++ t) = referenceCrc (front ++ t) := by
    rw [ibHeaderChecksum_eq, crc32_extend _ (by rw [List.length_append]; omega), List.append_assoc _ p t]
  rw [hcrc]
  refine ⟨?_,fun t ht he => ?_⟩
  · rw [hlong _ (by simp)]
    exact (residue_iff front _).mpr rfl
  · have hst : toLittle 4 (ofLittle 32 t) = t := toLittle_ofLittle ht (by decide)
    rw [hlong t ht, ← hst] at he
    rw [← hst, (residue_iff front _).mp he]

theorem trailer_residue_letter :
    crc32 (ibHeaderChecksum (IbHeaders.ofBytes [])) ([0x4D] ++
      toLittle 4 (crc32 (ibHeaderChecksum (IbHeaders.ofBytes [])) [0x4D])) = 0x2144DF1C :=
  (trailer_residue (IbHeaders.ofBytes []) [0x4D] (by decide)).1

end IbverbPrototype.Roce
