import IbverbPrototype.Foundations.ByteOrder
import Mathlib.Data.Nat.ModEq

/-! One's-complement sums. A sum of words is represented by its least positive residue
modulo the all-ones word, or by zero when every word is zero. -/
namespace IbverbPrototype.Foundations.OnesComplement
open ByteOrder

/-- Addition with the carry brought around. -/
def endAround {w : Nat} (a b : BitVec w) : BitVec w := a + b + if 2^w ≤ a.toNat+b.toNat then 1 else 0

def onesSum {w : Nat} (words : List (BitVec w)) : BitVec w := words.foldl endAround 0

def residue (m s : Nat) : Nat := if s = 0 then 0 else (s-1) % m+1

theorem residue_le {m : Nat} (hm : 0 < m) (s : Nat) : residue m s ≤ m := by
  unfold residue
  split
  · exact Nat.zero_le m
  · exact Nat.mod_lt _ hm

theorem residue_modEq (m s : Nat) : residue m s ≡ s [MOD m] := by
  unfold residue
  split
  · rename_i h
    rw [h]
  · rename_i h
    have hs : s-1+1 = s := Nat.sub_add_cancel (Nat.pos_of_ne_zero h)
    calc (s-1) % m+1 ≡ s-1+1 [MOD m] := (Nat.mod_modEq _ _).add_right 1
      _ = s := hs

/-- The residue of a positive sum is the only positive value up to m congruent to it. -/
theorem residue_unique {m s r : Nat} (hs : 0 < s) (hr : 0 < r) (hm : r ≤ m) (h : r ≡ s [MOD m]) :
    residue m s = r := by
  have hpred : r-1 ≡ s-1 [MOD m] := by
    refine Nat.ModEq.add_right_cancel' 1 ?_
    rwa [Nat.sub_add_cancel hr, Nat.sub_add_cancel hs]
  have hlt : (s-1) % m = r-1 := Eq.trans hpred.symm (Nat.mod_eq_of_lt (by omega))
  rw [residue, if_neg (by omega), hlt, Nat.sub_add_cancel hr]

theorem residue_of_le {m s : Nat} (h : s ≤ m) : residue m s = s := by
  rcases Nat.eq_zero_or_pos s with rfl | hs
  · rfl
  · exact residue_unique hs hs h rfl

theorem residue_pos {m s : Nat} (hs : 0 < s) : 0 < residue m s := by
  rw [residue, if_neg (by omega)]
  exact Nat.succ_pos _

theorem residue_add {m : Nat} (hm : 0 < m) (a b : Nat) : residue m (residue m a+b) = residue m (a+b) := by
  rcases Nat.eq_zero_or_pos (a+b) with h | h
  · obtain ⟨rfl,rfl⟩ : a = 0 ∧ b = 0 := by omega
    rfl
  · have hpos : 0 < residue m a+b := by
      rcases Nat.eq_zero_or_pos a with rfl | ha
      · exact Nat.add_pos_right _ (by omega)
      · exact Nat.add_pos_left (residue_pos ha) b
    refine residue_unique hpos (residue_pos h) (residue_le hm _) ?_
    exact (residue_modEq m _).trans ((residue_modEq m a).symm.add_right b)

/-- Adding the complement of a sum completes it to all ones. -/
theorem residue_complement {m : Nat} (hm : 0 < m) (s : Nat) : residue m (s+(m-residue m s)) = m := by
  have hle := residue_le hm s
  have hpos : 0 < s+(m-residue m s) := by
    rcases Nat.eq_zero_or_pos s with rfl | hs
    · exact Nat.add_pos_right _ hm
    · exact Nat.add_pos_left hs _
  refine residue_unique hpos hm le_rfl ?_
  calc m = residue m s+(m-residue m s) := (Nat.add_sub_of_le hle).symm
    _ ≡ s+(m-residue m s) [MOD m] := (residue_modEq m s).add_right _

theorem residue_eq_top {m s : Nat} (hm : 0 < m) : residue m s = m ↔ 0 < s ∧ m ∣ s := by
  constructor
  · intro h
    refine ⟨?_,?_⟩
    · rcases Nat.eq_zero_or_pos s with rfl | hs
      · exact absurd h (by rw [residue, if_pos rfl]; omega)
      · exact hs
    · have hmod := residue_modEq m s
      rw [h] at hmod
      exact (Nat.modEq_zero_iff_dvd.mp (hmod.symm.trans (Nat.modEq_zero_iff_dvd.mpr (dvd_refl m))))
  · rintro ⟨hs,hd⟩
    have htop : m ≡ 0 [MOD m] := Nat.modEq_zero_iff_dvd.mpr (dvd_refl m)
    exact residue_unique hs hm le_rfl (htop.trans (Nat.modEq_zero_iff_dvd.mpr hd).symm)

private theorem base_modEq {P : Nat} (hP : 0 < P) : P ≡ 1 [MOD P-1] :=
  ((Nat.modEq_iff_dvd' hP).mpr (dvd_refl _)).symm

/-- Folding the high part of a sum onto its low part twice leaves its residue. -/
theorem fold_twice {P s : Nat} (hP : 1 < P) (hs : s < P*P) :
    (s/P+s % P+(s/P+s % P)/P) % P = residue (P-1) s := by
  have hq : s/P < P := Nat.div_lt_of_lt_mul hs
  have hr : s % P < P := Nat.mod_lt s (by omega)
  have hsplit : P*(s/P)+s % P = s := Nat.div_add_mod s P
  have hP0 : 0 < P := Nat.zero_lt_of_lt hP
  have hbase := base_modEq hP0
  have hfold : s/P+s % P ≡ s [MOD P-1] := by
    have hmul := (hbase.mul_right (s/P)).add_right (s % P)
    rw [Nat.one_mul, hsplit] at hmul
    exact hmul.symm
  generalize s/P = q at *
  generalize s % P = r at *
  rcases Nat.lt_or_ge (q+r) P with hlt | hge
  · rw [Nat.div_eq_of_lt hlt, Nat.add_zero, Nat.mod_eq_of_lt hlt]
    rcases Nat.eq_zero_or_pos (q+r) with hz | hp
    · obtain ⟨rfl,rfl⟩ : q = 0 ∧ r = 0 := by omega
      rw [← hsplit]
      rfl
    · refine (residue_unique ?_ hp (by omega) hfold).symm
      rcases Nat.eq_zero_or_pos q with rfl | hq0
      · omega
      · have hpos := Nat.mul_pos hP0 hq0
        omega
  · obtain ⟨k,hk⟩ := Nat.exists_eq_add_of_le hge
    have hcarry : (q+r)/P = 1 := by
      rw [hk, Nat.add_div_left _ (by omega), Nat.div_eq_of_lt (by omega)]
    have hval : (q+r+1) % P = k+1 := by
      rw [hk, Nat.add_assoc, Nat.add_mod_left, Nat.mod_eq_of_lt (by omega)]
    rw [hcarry, hval]
    refine (residue_unique ?_ (Nat.succ_pos k) (by omega) ?_).symm
    · have hmul := Nat.le_mul_of_pos_left q hP0
      omega
    · have hk1 : k+1 ≡ P+k [MOD P-1] := by
        rw [Nat.add_comm P k]
        exact hbase.symm.add_left k
      exact hk1.trans (hk ▸ hfold)

theorem endAround_toNat {w : Nat} (hw : 0 < w) (a b : BitVec w) :
    (endAround a b).toNat = residue (2^w-1) (a.toNat+b.toNat) := by
  have ha := a.isLt
  have hb := b.isLt
  have hP : 1 < 2^w := Nat.one_lt_two_pow (by omega)
  have hone : (1 : BitVec w).toNat = 1 := by
    rw [BitVec.ofNat_eq_ofNat, BitVec.toNat_ofNat, Nat.mod_eq_of_lt hP]
  unfold endAround
  split
  · rename_i hcarry
    obtain ⟨k,hk⟩ := Nat.exists_eq_add_of_le hcarry
    have hk1 : k+1 < 2^w := by omega
    rw [BitVec.toNat_add, BitVec.toNat_add, hone, hk, Nat.add_mod_left, Nat.mod_eq_of_lt (Nat.lt_of_succ_lt hk1),
      Nat.mod_eq_of_lt hk1]
    refine (residue_unique (by omega) (Nat.succ_pos k) (by omega) ?_).symm
    rw [Nat.add_comm (2^w) k]
    exact (base_modEq (by omega)).symm.add_left k
  · rename_i hsmall
    have hlt : a.toNat+b.toNat < 2^w := Nat.lt_of_not_le hsmall
    have hsum : (a+b+0).toNat = a.toNat+b.toNat := by simp [Nat.mod_eq_of_lt hlt]
    rw [hsum, residue_of_le (by omega)]

theorem onesSum_toNat {w : Nat} (hw : 0 < w) (words : List (BitVec w)) :
    (onesSum words).toNat = residue (2^w-1) (words.map BitVec.toNat).sum := by
  have hm : 0 < 2^w-1 := by
    have hP := Nat.one_lt_two_pow (Nat.pos_iff_ne_zero.mp hw)
    omega
  have hfold : ∀ (words : List (BitVec w)) (a : BitVec w),
      (words.foldl endAround a).toNat = residue (2^w-1) (a.toNat+(words.map BitVec.toNat).sum) := by
    intro words
    induction words with
    | nil =>
      intro a
      have ha := a.isLt
      exact (residue_of_le (by simp; omega)).symm
    | cons b words ih =>
      intro a
      rw [List.foldl_cons, ih, endAround_toNat hw, residue_add hm, List.map_cons, List.sum_cons, Nat.add_assoc]
  rw [onesSum, hfold words 0]
  simp

/-- Summed over the same pairs, the two byte orders exchange the weights of two totals. -/
theorem pair_totals (bs : List Byte) :
    ∃ even odd, (pairValues littleValue bs).sum = even+256*odd ∧ (pairValues bigValue bs).sum = 256*even+odd := by
  fun_induction pairValues littleValue bs with
  | case1 a b rest ih =>
    obtain ⟨even,odd,hlittle,hbig⟩ := ih
    refine ⟨a.toNat+even,b.toNat+odd,?_,?_⟩
    · rw [List.sum_cons, hlittle]
      simp only [littleValue]
      omega
    · rw [pairValues, List.sum_cons, hbig]
      simp only [bigValue, List.foldl_cons, List.foldl_nil]
      omega
  | case2 a =>
    refine ⟨a.toNat,0,?_,?_⟩ <;> simp [pairValues, littleValue, bigValue]
  | case3 => exact ⟨0,0,rfl,rfl⟩

/-- All ones is the same sum in either byte order. -/
theorem residue_top_swap (bs : List Byte) :
    residue 65535 (pairValues littleValue bs).sum = 65535 ↔ residue 65535 (pairValues bigValue bs).sum = 65535 := by
  obtain ⟨even,odd,hlittle,hbig⟩ := pair_totals bs
  rw [residue_eq_top (by omega), residue_eq_top (by omega), hlittle, hbig]
  omega

theorem residue_mul {m c : Nat} (hm : 0 < m) (hc : 0 < c) (s : Nat) :
    residue m (c*residue m s) = residue m (c*s) := by
  rcases Nat.eq_zero_or_pos s with rfl | hs
  · rfl
  · refine residue_unique (Nat.mul_pos hc (residue_pos hs)) (residue_pos (Nat.mul_pos hc hs)) (residue_le hm _) ?_
    exact (residue_modEq m _).trans ((residue_modEq m s).symm.mul_left c)

/-- The two bytes of a 16-bit value exchanged. -/
def swapBytes (x : Nat) : Nat := 256*(x % 256)+x/256

/-- Modulo the all-ones word an exchange of bytes is a multiplication. -/
theorem residue_shift_byte {x : Nat} (hx : x ≤ 65535) : residue 65535 (256*x) = swapBytes x := by
  rcases Nat.eq_zero_or_pos x with rfl | hpos
  · rfl
  · have hmod : 256*x = swapBytes x+65535*(x/256) := by
      unfold swapBytes
      omega
    refine residue_unique (by omega) (by unfold swapBytes; omega) (by unfold swapBytes; omega) ?_
    rw [hmod]
    exact (Nat.add_mul_mod_self_left _ _ _).symm

/-- The sum in one byte order is the sum in the other with its bytes exchanged. -/
theorem residue_swap (bs : List Byte) :
    residue 65535 (pairValues bigValue bs).sum = swapBytes (residue 65535 (pairValues littleValue bs).sum) := by
  obtain ⟨even,odd,hlittle,hbig⟩ := pair_totals bs
  have hm : 0 < 65535 := by decide
  rw [← residue_shift_byte (residue_le hm _), residue_mul hm (by decide), hlittle, hbig]
  rcases Nat.eq_zero_or_pos (256*even+odd) with hzero | hpos
  · obtain ⟨rfl,rfl⟩ : even = 0 ∧ odd = 0 := by omega
    rfl
  · have hshift : 256*(even+256*odd) = 256*even+odd+65535*odd := by omega
    refine residue_unique hpos (residue_pos (by omega)) (residue_le hm _) ((residue_modEq _ _).trans ?_)
    rw [hshift]
    exact Nat.add_mul_mod_self_left _ _ _

end IbverbPrototype.Foundations.OnesComplement
