import Mathlib.Data.List.Basic

/-! One object as a list of cells, with loads and stores that fail outside it. -/
namespace IbverbPrototype.Foundations.CheckedMemory
variable {α : Type}

/-- The cells from an offset, as many as asked for and present. -/
def slice (mem : List α) (off n : Nat) : List α := (mem.drop off).take n

def load (mem : List α) (off n : Nat) : Option (List α) :=
  if off+n ≤ mem.length then some (slice mem off n) else none

/-- Replace the cells from an offset on. -/
def overwrite (mem : List α) (off : Nat) (cells : List α) : List α :=
  mem.take off ++ cells ++ mem.drop (off+cells.length)

def store (mem : List α) (off : Nat) (cells : List α) : Option (List α) :=
  if off+cells.length ≤ mem.length then some (overwrite mem off cells) else none

theorem slice_length {mem : List α} {off n : Nat} (h : off+n ≤ mem.length) : (slice mem off n).length = n := by
  rw [slice, List.length_take, List.length_drop]
  omega

@[simp] theorem slice_zero (mem : List α) (off : Nat) : slice mem off 0 = [] := List.take_zero

@[simp] theorem slice_all (mem : List α) : slice mem 0 mem.length = mem := by simp [slice]

/-- Adjacent slices join. -/
theorem slice_append (mem : List α) (off m n : Nat) :
    slice mem off m ++ slice mem (off+m) n = slice mem off (m+n) := by
  rw [slice, slice, slice, List.take_add, List.drop_drop]

theorem slice_split {mem : List α} {m n : Nat} (h : mem.length = m+n) :
    slice mem 0 m ++ slice mem m n = mem := by
  have hs := slice_append mem 0 m n
  rwa [Nat.zero_add, ← h, slice_all] at hs

theorem slice_append_left (xs ys : List α) {off n : Nat} (h : off+n ≤ xs.length) :
    slice (xs ++ ys) off n = slice xs off n := by
  rw [slice, slice, List.drop_append_of_le_length (by omega),
    List.take_append_of_le_length (by rw [List.length_drop]; omega)]

theorem slice_append_right (xs ys : List α) (off n : Nat) :
    slice (xs ++ ys) (xs.length+off) n = slice ys off n := by
  rw [slice, slice, ← List.drop_drop, List.drop_left]

/-- A slice that spans exactly one segment of a concatenation is that segment. -/
theorem slice_middle (xs ys zs : List α) {off n : Nat} (ho : off = xs.length) (hn : n = ys.length) :
    slice (xs ++ ys ++ zs) off n = ys := by
  subst ho hn
  rw [slice_append_left _ _ (by simp), ← Nat.add_zero xs.length, slice_append_right, slice_all]

theorem overwrite_length {mem : List α} {off : Nat} {cells : List α} (h : off+cells.length ≤ mem.length) :
    (overwrite mem off cells).length = mem.length := by
  simp only [overwrite, List.length_append, List.length_take, List.length_drop]
  omega

theorem load_eq {mem : List α} {off n : Nat} (h : off+n ≤ mem.length) : load mem off n = some (slice mem off n) :=
  if_pos h

theorem store_eq {mem : List α} {off : Nat} {cells : List α} (h : off+cells.length ≤ mem.length) :
    store mem off cells = some (overwrite mem off cells) := if_pos h

/-- A store into an array of fixed size. -/
def storeInto {n : Nat} (mem : Vector α n) (off : Nat) (cells : List α) : Option (Vector α n) :=
  if h : off+cells.length ≤ n then
    some ⟨(overwrite mem.toList off cells).toArray, by
      rw [List.size_toArray, overwrite_length (by rwa [Vector.length_toList]), Vector.length_toList]⟩
  else none

theorem storeInto_eq {n : Nat} (mem : Vector α n) {off : Nat} {cells : List α} (h : off+cells.length ≤ n) :
    ∃ stored, storeInto mem off cells = some stored ∧ stored.toList = overwrite mem.toList off cells :=
  ⟨_,dif_pos h,rfl⟩

/-- Filling an array in order: the next store lengthens its finished front. -/
theorem storeInto_next {n : Nat} {mem : Vector α n} {front old cells : List α} (hmem : mem.toList = front ++ old)
    (h : cells.length ≤ old.length) :
    ∃ stored, storeInto mem front.length cells = some stored ∧
      stored.toList = front ++ cells ++ old.drop cells.length := by
  have hlen := congrArg List.length hmem
  rw [Vector.length_toList, List.length_append] at hlen
  obtain ⟨stored,hstored,hlist⟩ := storeInto_eq mem (show front.length+cells.length ≤ n by omega)
  refine ⟨stored,hstored,?_⟩
  rw [hlist, overwrite, hmem, List.take_left, List.drop_length_add_append]

theorem slice_take (mem : List α) (off : Nat) {n k : Nat} (h : k ≤ n) :
    (slice mem off n).take k = slice mem off k := by
  rw [slice, slice, List.take_take, Nat.min_eq_left h]

theorem slice_slice (mem : List α) {off n i k : Nat} (h : i+k ≤ n) :
    slice (slice mem off n) i k = slice mem (off+i) k := by
  rw [slice, slice, slice, List.drop_take, List.take_take, List.drop_drop, Nat.min_eq_left (by omega)]

theorem slice_getD (mem : List α) {off n i : Nat} (h : i < n) (d : α) :
    (slice mem off n).getD i d = mem.getD (off+i) d := by
  rw [slice, List.getD_eq_getElem?_getD, List.getElem?_take_of_lt h, List.getElem?_drop, List.getD_eq_getElem?_getD]

/-- The cells of a slice inside the object, by their places. -/
theorem slice_eq_map {mem : List α} {off n : Nat} (h : off+n ≤ mem.length) (d : α) :
    slice mem off n = (List.range n).map (fun i => mem.getD (off+i) d) := by
  apply List.ext_getElem
  · rw [slice_length h, List.length_map, List.length_range]
  · intro i hi _
    rw [slice_length h] at hi
    have hin : off+i < mem.length := by omega
    simp [slice, List.getD_eq_getElem?_getD, hin]

/-- The first n cells of one object copied to another, one cell at a time. -/
def copyCells (src dst : List α) : Nat → Option (List α)
  | 0 => some dst
  | n+1 => do
    let dst ← copyCells src dst n
    let cell ← load src n 1
    store dst n cell

theorem copyCells_eq {src dst : List α} {n : Nat} (hs : n ≤ src.length) (hd : n ≤ dst.length) :
    copyCells src dst n = some (slice src 0 n ++ dst.drop n) := by
  induction n with
  | zero => rfl
  | succ n ih =>
    have hlen : (slice src 0 n).length = n := slice_length (by omega)
    have hcell : (slice src n 1).length = 1 := slice_length (by omega)
    have hone := slice_append src 0 n 1
    rw [Nat.zero_add] at hone
    have hstore : overwrite (slice src 0 n ++ dst.drop n) n (slice src n 1) =
        slice src 0 (n+1) ++ dst.drop (n+1) := by
      rw [overwrite, List.take_left' hlen, hone, hcell, ← List.drop_drop, List.drop_left' hlen, List.drop_drop]
    rw [copyCells, ih (by omega) (by omega), Option.bind_eq_bind, Option.bind_some, load_eq (by omega),
      Option.bind_some, store_eq, hstore]
    rw [List.length_append, List.length_drop, hlen, hcell]
    omega

end IbverbPrototype.Foundations.CheckedMemory
