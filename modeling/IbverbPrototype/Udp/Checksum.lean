import IbverbPrototype.Foundations.CheckedMemory
import IbverbPrototype.Foundations.OnesComplement

/-! The IPv4 header checksum: a sum of host-order words in a signed accumulator,
folded twice and complemented. -/
namespace IbverbPrototype.Udp
open Foundations.ByteOrder Foundations.CheckedMemory Foundations.OnesComplement

/-- The sum of as many host-order words, in 32 bits. -/
def sumWords (mem : List Byte) : Nat → Option (BitVec 32)
  | 0 => some 0
  | i+1 => do
    let sum ← sumWords mem i
    let word ← load mem (2*i) 2
    some (sum+(ofLittle 16 word).setWidth 32)

/-- None is a read outside the memory behind the pointer. -/
def ipv4check (mem : List Byte) (n : Int) : Option (BitVec 16) := do
  let n := 1+(n-1).tdiv 2
  let sum ← sumWords mem n.toNat
  let sum := sum.sshiftRight 16+(sum &&& 0xFFFF)
  let sum := sum+sum.sshiftRight 16
  some ((~~~sum).setWidth 16)

/-- The sum of the host-order words of a byte string. -/
def wordSum (bs : List Byte) : Nat := (pairValues littleValue bs).sum

theorem wordSum_append {xs : List Byte} (ys : List Byte) {k : Nat} (h : xs.length = 2*k) :
    wordSum (xs ++ ys) = wordSum xs+wordSum ys := by
  rw [wordSum, pairValues_append littleValue ys h, List.sum_append, wordSum, wordSum]

theorem wordSum_pair {bs : List Byte} (h : bs.length = 2) : wordSum bs = littleValue bs := by
  match bs with
  | [a, b] => rfl

theorem wordSum_le {bs : List Byte} {k : Nat} (h : bs.length = 2*k) : 2*wordSum bs ≤ 65535*bs.length := by
  refine pair_induction (motive := fun bs => 2*wordSum bs ≤ 65535*bs.length) le_rfl ?_ h
  intro a b rest ih
  have hpair := littleValue_lt [a, b]
  rw [wordSum] at ih ⊢
  simp only [pairValues, List.sum_cons, List.length_cons, List.length_nil] at hpair ⊢
  omega

/-- The loop adds up the words of its memory. -/
theorem sumWords_eq {mem : List Byte} {k : Nat} (h : 2*k ≤ mem.length) :
    sumWords mem k = some (BitVec.ofNat 32 (wordSum (mem.take (2*k)))) := by
  induction k with
  | zero => rfl
  | succ k ih =>
    have hlen : (slice mem (2*k) 2).length = 2 := slice_length (by omega)
    have hlt := littleValue_lt (slice mem (2*k) 2)
    rw [hlen] at hlt
    have hsum : wordSum (mem.take (2*(k+1))) = wordSum (mem.take (2*k))+littleValue (slice mem (2*k) 2) := by
      rw [Nat.mul_succ, List.take_add, wordSum_append _ (k := k) (by rw [List.length_take]; omega), ← slice,
        wordSum_pair hlen]
    have hword : (ofLittle 16 (slice mem (2*k) 2)).setWidth 32 =
        BitVec.ofNat 32 (littleValue (slice mem (2*k) 2)) := by
      apply BitVec.eq_of_toNat_eq
      rw [ofLittle, BitVec.toNat_setWidth, BitVec.toNat_ofNat, BitVec.toNat_ofNat]
      omega
    rw [sumWords, ih (by omega), load_eq (by omega), hsum, BitVec.ofNat_add, ← hword]
    rfl

private theorem fold_step {x : BitVec 32} (hx : x.toNat < 2^31) : (x.sshiftRight 16).toNat = x.toNat/65536 := by
  have hmsb : x.msb = false := BitVec.msb_eq_false_iff_two_mul_lt.mpr (by omega)
  rw [BitVec.sshiftRight_eq_of_msb_false hmsb, BitVec.toNat_ushiftRight, Nat.shiftRight_eq_div_pow]

/-- Below the sign bit both folds add the high half to the low one. -/
theorem folds_toNat {sum : BitVec 32} (hs : sum.toNat < 2^31) :
    (sum.sshiftRight 16+(sum &&& 0xFFFF)).toNat = sum.toNat/65536+sum.toNat % 65536 ∧
    (sum.sshiftRight 16+(sum &&& 0xFFFF)+(sum.sshiftRight 16+(sum &&& 0xFFFF)).sshiftRight 16).toNat =
      sum.toNat/65536+sum.toNat % 65536+(sum.toNat/65536+sum.toNat % 65536)/65536 := by
  have hlow : (sum &&& 0xFFFF).toNat = sum.toNat % 65536 := by
    rw [BitVec.toNat_and]
    exact Nat.and_two_pow_sub_one_eq_mod sum.toNat 16
  have honce : (sum.sshiftRight 16+(sum &&& 0xFFFF)).toNat = sum.toNat/65536+sum.toNat % 65536 := by
    rw [BitVec.toNat_add, fold_step hs, hlow]
    omega
  refine ⟨honce,?_⟩
  rw [BitVec.toNat_add, fold_step (by omega), honce]
  omega

/-- Below the sign bit of the accumulator the answer is the complement of the residue. -/
theorem ipv4check_eq {mem : List Byte} {n : Int} {k : Nat} (hn : 1+(n-1).tdiv 2 = k) (hm : 2*k ≤ mem.length)
    (hk : k ≤ 2^15) :
    ∃ r, ipv4check mem n = some r ∧ r.toNat = 65535-residue 65535 (wordSum (mem.take (2*k))) := by
  have hlen : (mem.take (2*k)).length = 2*k := List.length_take_of_le hm
  have hle := wordSum_le hlen
  rw [hlen] at hle
  obtain ⟨s,hs⟩ : ∃ s, wordSum (mem.take (2*k)) = s := ⟨_,rfl⟩
  rw [hs] at hle ⊢
  have hsum := sumWords_eq hm
  rw [hs] at hsum
  have hsn : (BitVec.ofNat 32 s).toNat = s := by
    rw [BitVec.toNat_ofNat]
    omega
  obtain ⟨-,htwice⟩ := folds_toNat (show (BitVec.ofNat 32 s).toNat < 2^31 by omega)
  rw [hsn] at htwice
  have hfold := fold_twice (P := 65536) (s := s) (by omega) (by omega)
  refine ⟨(~~~((BitVec.ofNat 32 s).sshiftRight 16+(BitVec.ofNat 32 s &&& 0xFFFF)+
    ((BitVec.ofNat 32 s).sshiftRight 16+(BitVec.ofNat 32 s &&& 0xFFFF)).sshiftRight 16)).setWidth 16,?_,?_⟩
  · simp only [ipv4check, hn, Int.toNat_natCast, hsum, Option.bind_eq_bind, Option.bind_some]
  · rw [BitVec.toNat_setWidth, BitVec.toNat_not, htwice, ← hfold]
    omega

/-- Rounds of the loop for an even length. -/
theorem even_rounds {k : Nat} (hk : 1 ≤ k) : 1+(((2*k : Nat) : Int)-1).tdiv 2 = k := by
  rw [Int.tdiv_eq_ediv_of_nonneg (by omega)]
  omega

/-- Storing the answer over the zero field it was computed with completes the header:
its network-order words sum to all ones. -/
theorem ipv4check_completes {pre post : List Byte} {j k : Nat} (hpre : pre.length = 2*j)
    (hlen : (pre ++ [0, 0] ++ post).length = 2*k) (hk : k ≤ 2^15) :
    ∃ r, ipv4check (pre ++ [0, 0] ++ post) (2*k : Nat) = some r ∧
      residue 65535 (pairValues bigValue (pre ++ toLittle 2 r ++ post)).sum = 65535 := by
  have hk0 : 0 < k := by
    simp only [List.length_append, List.length_cons, List.length_nil] at hlen
    omega
  obtain ⟨r,hr,hval⟩ := ipv4check_eq (even_rounds hk0) hlen.ge hk
  have hsplit (field : List Byte) (hf : field.length = 2) :
      wordSum (pre ++ field ++ post) = wordSum pre+wordSum post+littleValue field := by
    have hhead : (pre ++ field).length = 2*(j+1) := by
      rw [List.length_append, hpre, hf]
      omega
    rw [wordSum_append _ hhead, wordSum_append _ hpre, wordSum_pair hf]
    omega
  rw [← hlen, List.take_length, hsplit _ rfl, show littleValue [0, 0] = 0 from rfl, Nat.add_zero] at hval
  refine ⟨r,hr,(residue_top_swap _).mp ?_⟩
  change residue 65535 (wordSum _) = 65535
  have hlt : r.toNat < 256^2 := r.isLt
  rw [hsplit _ (toLittle_length 2 r), littleValue_toLittle, Nat.mod_eq_of_lt hlt, hval]
  exact residue_complement (by omega) _

end IbverbPrototype.Udp
