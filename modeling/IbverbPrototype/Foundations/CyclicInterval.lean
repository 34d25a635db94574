import Mathlib.Data.List.Nodup
import Mathlib.Data.List.Perm.Subperm
import Mathlib.Data.Nat.ModEq

/-! Intervals on a cycle of indices, as lists in cyclic order. -/
namespace IbverbPrototype.Foundations.CyclicInterval

/-- The k indices from a on, counted around a cycle of n. -/
def cyc (n a k : Nat) : List Nat := (List.range k).map (fun i => (a+i) % n)

@[simp] theorem cyc_length (n a k : Nat) : (cyc n a k).length = k := by simp [cyc]

@[simp] theorem cyc_zero (n a : Nat) : cyc n a 0 = [] := rfl

theorem cyc_append (n a j k : Nat) : cyc n a j ++ cyc n (a+j) k = cyc n a (j+k) := by
  simp only [cyc, List.range_add, List.map_append, List.map_map, Function.comp_def, Nat.add_assoc]

theorem cyc_succ (n a k : Nat) : cyc n a (k+1) = a % n :: cyc n (a+1) k := by
  rw [Nat.add_comm, ← cyc_append]
  rfl

theorem cyc_take (n a : Nat) {j k : Nat} (h : j ≤ k) : (cyc n a k).take j = cyc n a j := by
  rw [← Nat.add_sub_of_le h, ← cyc_append, List.take_left' (cyc_length n a j)]

theorem cyc_drop (n a : Nat) {j k : Nat} (h : j ≤ k) : (cyc n a k).drop j = cyc n (a+j) (k-j) := by
  rw [← Nat.add_sub_of_le h, ← cyc_append, List.drop_left' (cyc_length n a j), Nat.add_sub_cancel_left]

/-- Only the start's place on the cycle matters. -/
theorem cyc_congr {n a b : Nat} (h : a % n = b % n) (k : Nat) : cyc n a k = cyc n b k := by
  refine List.map_congr_left (fun i _ => ?_)
  rw [Nat.add_mod, h, ← Nat.add_mod]

theorem cyc_getElem? (n a : Nat) {i k : Nat} (h : i < k) : (cyc n a k)[i]? = some ((a+i) % n) := by
  simp [cyc, h]

theorem cyc_lt {n : Nat} (hn : 0 < n) {a k x : Nat} (h : x ∈ cyc n a k) : x < n := by
  obtain ⟨i,-,rfl⟩ := List.mem_map.mp h
  exact Nat.mod_lt _ hn

/-- At most one turn around the cycle meets no index twice. -/
theorem cyc_nodup {n a k : Nat} (h : k ≤ n) : (cyc n a k).Nodup := by
  refine List.Nodup.map_on ?_ List.nodup_range
  intro i hi j hj heq
  have hi := List.mem_range.mp hi
  have hj := List.mem_range.mp hj
  have hmod : i ≡ j [MOD n] := Nat.ModEq.add_left_cancel' a heq
  exact Nat.ModEq.eq_of_lt_of_lt hmod (by omega) (by omega)

/-- Two numbers less than a turn apart have different places on the cycle. -/
theorem mod_ne_of_window {n j k : Nat} (hjk : j < k) (hkj : k < j+n) : k % n ≠ j % n := by
  intro heq
  have hmod : k-j ≡ 0 [MOD n] := by
    refine Nat.ModEq.add_left_cancel' j ?_
    rw [Nat.add_sub_of_le hjk.le, Nat.add_zero]
    exact heq
  have hzero := Nat.ModEq.eq_of_lt_of_lt hmod (by omega) (by omega)
  omega

/-- A whole turn meets every index. -/
theorem cyc_perm {n : Nat} (hn : 0 < n) (a : Nat) : (cyc n a n).Perm (List.range n) := by
  have hsub : cyc n a n ⊆ List.range n := fun _ h => List.mem_range.mpr (cyc_lt hn h)
  have hsubperm := List.subperm_of_subset (cyc_nodup (n := n) (a := a) le_rfl) hsub
  exact hsubperm.perm_of_length_le (by rw [cyc_length, List.length_range])

/-- Moving the first k indices of a turn to its end starts the turn k later. -/
theorem cyc_rotate (n a : Nat) {k : Nat} (h : k ≤ n) : cyc n (a+k) (n-k) ++ cyc n a k = cyc n (a+k) n := by
  have hplace : (a+k+(n-k)) % n = a % n := by rw [Nat.add_assoc, Nat.add_sub_of_le h, Nat.add_mod_right]
  have hturn : cyc n (a+k+(n-k)) k = cyc n a k := cyc_congr hplace k
  rw [← hturn, cyc_append, Nat.sub_add_cancel h]

end IbverbPrototype.Foundations.CyclicInterval
