import IbverbPrototype.Udp.Checksum
import IbverbPrototype.Udp.WireFormat

/-! The law of the header checksum: no overflow of its accumulator, agreement with the
network-order definition, and its own check. -/
namespace IbverbPrototype.Udp
open Foundations.ByteOrder Foundations.CheckedMemory Foundations.OnesComplement

/-- The signed accumulator holds the exact sum after every word and after each carry fold. -/
structure AccumulatorExact (mem : List Byte) (k : Nat) : Prop where
  loop : ∀ i, i ≤ k → ∃ sum, sumWords mem i = some sum ∧ sum.toInt = wordSum (mem.take (2*i))
  folds : ∀ sum, sumWords mem k = some sum →
    (sum.sshiftRight 16+(sum &&& 0xFFFF)).toInt = sum.toInt/65536+sum.toInt % 65536 ∧
    (sum.sshiftRight 16+(sum &&& 0xFFFF)+(sum.sshiftRight 16+(sum &&& 0xFFFF)).sshiftRight 16).toInt =
      sum.toInt/65536+sum.toInt % 65536+(sum.toInt/65536+sum.toInt % 65536)/65536

theorem accumulator_exact {mem : List Byte} {k : Nat} (hlen : mem.length = 2*k) (hk : k ≤ 2^15) :
    AccumulatorExact mem k := by
  have hbound (i : Nat) (hi : i ≤ k) :
      (BitVec.ofNat 32 (wordSum (mem.take (2*i)))).toNat = wordSum (mem.take (2*i)) ∧
        wordSum (mem.take (2*i)) < 2^31 := by
    have htake : (mem.take (2*i)).length = 2*i := List.length_take_of_le (by omega)
    have hle := wordSum_le htake
    rw [htake] at hle
    rw [BitVec.toNat_ofNat]
    exact ⟨by omega,by omega⟩
  constructor
  · intro i hi
    obtain ⟨hnat,hlt⟩ := hbound i hi
    refine ⟨_,sumWords_eq (by omega),?_⟩
    rw [BitVec.toInt_eq_toNat_of_lt (by omega), hnat]
  · intro sum hsum
    obtain ⟨hnat,hlt⟩ := hbound k le_rfl
    obtain rfl := Option.some_inj.mp ((sumWords_eq (by omega)).symm.trans hsum)
    generalize BitVec.ofNat 32 (wordSum (mem.take (2*k))) = sum at *
    obtain ⟨honce,htwice⟩ := folds_toNat (show sum.toNat < 2^31 by omega)
    rw [BitVec.toInt_eq_toNat_of_lt (by omega), BitVec.toInt_eq_toNat_of_lt (by omega),
      BitVec.toInt_eq_toNat_of_lt (by omega), honce, htwice]
    exact ⟨by omega,by omega⟩

/-- The answer in host order is the complemented network-order sum in network order. -/
theorem ipv4check_network {mem : List Byte} {k : Nat} (hlen : mem.length = 2*k) (hk1 : 1 ≤ k) (hk : k ≤ 2^15) :
    ipv4check mem (2*k : Nat) = some (htons (~~~ onesSum (WireFormat.bigWords mem))) := by
  obtain ⟨r,hr,hval⟩ := ipv4check_eq (even_rounds hk1) hlen.ge hk
  have hle := residue_le (show 0 < 65535 by decide) (wordSum mem)
  have hsum : (onesSum (WireFormat.bigWords mem)).toNat = swapBytes (residue 65535 (wordSum mem)) := by
    rw [onesSum_toNat (by decide), WireFormat.bigWords_values hlen]
    exact residue_swap mem
  rw [← hlen, List.take_length] at hval
  rw [hr, Option.some_inj]
  apply BitVec.eq_of_toNat_eq
  rw [htons_toNat, BitVec.toNat_not, hval, hsum]
  unfold swapBytes
  omega

/-- Accumulator, answer and check, for every buffer of even length from 2 to 65536 bytes. -/
theorem ipv4check_law {mem : List Byte} {k : Nat} (hlen : mem.length = 2*k) (hk1 : 1 ≤ k) (hk : k ≤ 2^15) :
    AccumulatorExact mem k ∧
    ∃ r, ipv4check mem (2*k : Nat) = some r ∧
      toLittle 2 r = (toLittle 2 (~~~ onesSum (WireFormat.bigWords mem))).reverse ∧
      ∀ j, load mem (2*j) 2 = some [0, 0] → ∃ stored, store mem (2*j) (toLittle 2 r) = some stored ∧
        ipv4check stored (2*k : Nat) = some 0 := by
  have hnetwork := ipv4check_network hlen hk1 hk
  refine ⟨accumulator_exact hlen hk,_,hnetwork,toLittle_htons _,?_⟩
  intro j hfield
  have hin : 2*j+2 ≤ mem.length := by
    by_contra hout
    rw [load, if_neg hout] at hfield
    cases hfield
  have hzero : slice mem (2*j) 2 = [0, 0] := Option.some_inj.mp ((load_eq hin).symm.trans hfield)
  have hsplit : mem.take (2*j) ++ [0, 0] ++ mem.drop (2*j+2) = mem := by
    rw [← hzero, slice, ← List.take_add, List.take_append_drop]
  have hpre : (mem.take (2*j)).length = 2*j := List.length_take_of_le (by omega)
  have hwhole : (mem.take (2*j) ++ [0, 0] ++ mem.drop (2*j+2)).length = 2*k := by rw [hsplit, hlen]
  obtain ⟨r,hr,hcomplete⟩ := ipv4check_completes hpre hwhole hk
  rw [hsplit, hnetwork] at hr
  obtain rfl := Option.some_inj.mp hr
  have hcells := toLittle_length 2 (htons (~~~ onesSum (WireFormat.bigWords mem)))
  refine ⟨_,store_eq (by omega),?_⟩
  have hstored := (overwrite_length (show 2*j+_ ≤ mem.length by rw [hcells]; exact hin)).trans hlen
  obtain ⟨again,hagain,hzeroed⟩ := ipv4check_eq (even_rounds hk1) hstored.ge hk
  rw [← hstored, List.take_length, overwrite, hcells, wordSum, (residue_top_swap _).mpr hcomplete] at hzeroed
  rw [hagain, Option.some_inj]
  exact BitVec.eq_of_toNat_eq hzeroed

/-- A buffer of one zero field: the answer is all ones, and completes it. -/
theorem ipv4check_law_zero :
    AccumulatorExact [0, 0] 1 ∧ ∃ r, ipv4check [0, 0] (2*1 : Nat) = some r ∧
      ∃ stored, store [0, 0] 0 (toLittle 2 r) = some stored ∧ ipv4check stored (2*1 : Nat) = some 0 := by
  obtain ⟨hexact,r,hr,-,hcheck⟩ := ipv4check_law (show [(0 : Byte), 0].length = 2*1 from rfl) le_rfl (by decide)
  exact ⟨hexact,r,hr,hcheck 0 rfl⟩

end IbverbPrototype.Udp
