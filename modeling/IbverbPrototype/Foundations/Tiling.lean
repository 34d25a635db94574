import Mathlib.Data.Nat.SuccPred
import Mathlib.Data.Set.Lattice
import Mathlib.Order.CompletePartialOrder
import Mathlib.Order.SuccPred.IntervalSucc

/-! An interval of addresses cut into blocks of one stride. -/
namespace IbverbPrototype.Foundations.Tiling

def block (base stride i : Nat) : Set Nat := Set.Ico (base+i*stride) (base+i*stride+stride)

theorem blocks_disjoint (base stride : Nat) {i j : Nat} (h : i ≠ j) :
    Disjoint (block base stride i) (block base stride j) := by
  have hmono : Monotone (fun i => base+i*stride) :=
    fun i j hij => Nat.add_le_add_left (Nat.mul_le_mul_right stride hij) base
  have hnext (i : Nat) : base+i*stride+stride = base+Order.succ i*stride := by
    rw [Order.succ_eq_add_one, Nat.add_one_mul, Nat.add_assoc]
  rw [block, block, hnext, hnext]
  exact hmono.pairwise_disjoint_on_Ico_succ h

theorem block_subset (base : Nat) {stride n i : Nat} (hi : i < n) :
    block base stride i ⊆ Set.Ico base (base+n*stride) := by
  rintro a ⟨hlo,hhi⟩
  have hlast := Nat.mul_le_mul_right stride (Nat.succ_le_of_lt hi)
  rw [Nat.succ_mul] at hlast
  exact ⟨by omega,by omega⟩

/-- The first n blocks are the interval of n strides. -/
theorem mem_blocks (base : Nat) {stride : Nat} (hs : 0 < stride) (n a : Nat) :
    (∃ i < n, a ∈ block base stride i) ↔ a ∈ Set.Ico base (base+n*stride) := by
  constructor
  · rintro ⟨i,hi,ha⟩
    exact block_subset base hi ha
  · rintro ⟨hlo,hhi⟩
    obtain ⟨k,rfl⟩ := Nat.exists_eq_add_of_le hlo
    have hk : k < stride*n := by
      rw [Nat.mul_comm]
      omega
    have hsplit := Nat.div_add_mod' k stride
    have hmod := Nat.mod_lt k hs
    exact ⟨k/stride,Nat.div_lt_of_lt_mul hk,by omega,by omega⟩

end IbverbPrototype.Foundations.Tiling
