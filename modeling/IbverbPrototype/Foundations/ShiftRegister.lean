import Mathlib.Data.List.Basic
import Mathlib.Logic.Function.Iterate

/-! Reflected shift registers of any width and polynomial: linearity, injectivity
and the burst bound of the checksum they compute one message bit at a time. -/
namespace IbverbPrototype.Foundations.ShiftRegister
variable {w : Nat}

/-- One register clock: the low bit leaves and selects the polynomial. -/
def clock (poly s : BitVec w) : BitVec w :=
  if s.getLsbD 0 then (s >>> 1) ^^^ poly else s >>> 1

/-- A run of at most w message bits as a register word, first bit lowest. -/
def word (bits : List Bool) : BitVec w := (BitVec.ofBoolListLE bits).setWidth w

def feedBit (poly s : BitVec w) (b : Bool) : BitVec w := clock poly (s ^^^ word [b])

/-- Absorb message bits in transmission order. -/
def feed (poly s : BitVec w) (bits : List Bool) : BitVec w := bits.foldl (feedBit poly) s

@[simp] theorem feed_nil (poly s : BitVec w) : feed poly s [] = s := rfl

@[simp] theorem feed_cons (poly s : BitVec w) (b : Bool) (bits : List Bool) :
    feed poly s (b::bits) = feed poly (feedBit poly s b) bits := rfl

theorem feed_append (poly s : BitVec w) (xs ys : List Bool) :
    feed poly s (xs ++ ys) = feed poly (feed poly s xs) ys := List.foldl_append

theorem word_getLsbD (bits : List Bool) (i : Nat) :
    (word bits : BitVec w).getLsbD i = (decide (i < w) && bits.getD i false) := by
  simp [word]

@[simp] theorem word_nil : (word [] : BitVec w) = 0#w := by
  apply BitVec.eq_of_getLsbD_eq
  intro i _
  simp [word_getLsbD]

theorem word_cons (b : Bool) (bits : List Bool) :
    (word (b::bits) : BitVec w) = word [b] ^^^ (word bits <<< 1) := by
  apply BitVec.eq_of_getLsbD_eq
  intro i hi
  cases i with
  | zero => simp only [word_getLsbD, BitVec.getLsbD_xor, BitVec.getLsbD_shiftLeft]; simp [hi]
  | succ i =>
    have hi' : i < w := by omega
    simp only [word_getLsbD, BitVec.getLsbD_xor, BitVec.getLsbD_shiftLeft]
    simp [hi, hi']

/-- Words of equal length within the register width determine their bits. -/
theorem word_injective {xs ys : List Bool} (hl : xs.length = ys.length) (hw : xs.length ≤ w)
    (h : (word xs : BitVec w) = word ys) : xs = ys := by
  apply List.ext_getElem hl
  intro i hx hy
  have hb : (word xs : BitVec w).getLsbD i = (word ys : BitVec w).getLsbD i := by rw [h]
  have hi : i < w := by omega
  rw [word_getLsbD, word_getLsbD] at hb
  simpa [hi, hx, hy] using hb

theorem clock_xor (poly s t : BitVec w) :
    clock poly (s ^^^ t) = clock poly s ^^^ clock poly t := by
  have hs : (s ^^^ t) >>> 1 = (s >>> 1) ^^^ (t >>> 1) := BitVec.ushiftRight_xor_distrib s t 1
  unfold clock
  rw [BitVec.getLsbD_xor, hs]
  cases s.getLsbD 0 <;> cases t.getLsbD 0
  · simp
  · simp [BitVec.xor_assoc]
  · rw [Bool.xor_false]
    simp only [Bool.false_eq_true, if_false, if_true]
    rw [BitVec.xor_assoc, BitVec.xor_assoc, BitVec.xor_comm (t >>> 1)]
  · rw [Bool.xor_self]
    simp only [Bool.false_eq_true, if_false, if_true]
    apply BitVec.eq_of_getLsbD_eq
    intro i _
    simp only [BitVec.getLsbD_xor]
    cases (s >>> 1).getLsbD i <;> cases (t >>> 1).getLsbD i <;> cases poly.getLsbD i <;> rfl

theorem iterate_xor (poly : BitVec w) (n : Nat) (s t : BitVec w) :
    (clock poly)^[n] (s ^^^ t) = (clock poly)^[n] s ^^^ (clock poly)^[n] t := by
  induction n generalizing s t with
  | zero => rfl
  | succ n ih => simp only [Function.iterate_succ_apply, clock_xor, ih]

/-- Clocks that only ever see a clear low bit are plain shifts. -/
theorem iterate_shift (poly s : BitVec w) (n : Nat) (h : ∀ i < n, s.getLsbD i = false) :
    (clock poly)^[n] s = s >>> n := by
  induction n with
  | zero => simp
  | succ n ih =>
    rw [Function.iterate_succ_apply', ih (fun i hi => h i (by omega))]
    have hb : (s >>> n).getLsbD 0 = false := by simpa using h n (by omega)
    simp [clock, hb, BitVec.shiftRight_add]

/-- A word whose top bit is clear survives being moved up before one clock. -/
theorem clock_shiftLeft (poly s : BitVec w) (h : s.getLsbD (w-1) = false) :
    clock poly (s <<< 1) = s := by
  have hb : (s <<< 1).getLsbD 0 = false := by simp
  simp only [clock, hb, Bool.false_eq_true, if_false]
  apply BitVec.eq_of_getLsbD_eq
  intro i hi
  by_cases ht : i = w-1
  · subst ht
    rw [h]
    simp only [BitVec.getLsbD_ushiftRight]
    exact BitVec.getLsbD_of_ge _ _ (by omega)
  · simp only [BitVec.getLsbD_ushiftRight, BitVec.getLsbD_shiftLeft]
    simp [show 1+i < w by omega]

/-- Bits fed one at a time equal one word added up front, up to the register width. -/
theorem feed_eq_iterate (poly s : BitVec w) (bits : List Bool) (hw : bits.length ≤ w) :
    feed poly s bits = (clock poly)^[bits.length] (s ^^^ word bits) := by
  induction bits generalizing s with
  | nil => simp
  | cons b bits ih =>
    rw [List.length_cons] at hw
    have htop : (word bits : BitVec w).getLsbD (w-1) = false := by
      rw [word_getLsbD, List.getD_eq_getElem?_getD, List.getElem?_eq_none (by omega)]
      simp
    rw [feed_cons, ih _ (by omega), List.length_cons, Function.iterate_succ_apply, word_cons,
      ← BitVec.xor_assoc, clock_xor poly (s ^^^ word [b]), clock_shiftLeft poly _ htop, feedBit]

/-- With the polynomial's top bit set the clock loses nothing: the top bit of the
result tells which bit left. -/
theorem clock_injective (poly : BitVec w) (hw : 0 < w) (hp : poly.getLsbD (w-1) = true) :
    Function.Injective (clock poly) := by
  have htop (s : BitVec w) : (clock poly s).getLsbD (w-1) = s.getLsbD 0 := by
    have hs : (s >>> 1).getLsbD (w-1) = false := by
      rw [BitVec.getLsbD_ushiftRight]
      exact BitVec.getLsbD_of_ge _ _ (by omega)
    unfold clock
    cases h : s.getLsbD 0 <;> simp [hs, hp]
  intro s t h
  have hlow : s.getLsbD 0 = t.getLsbD 0 := by rw [← htop s, ← htop t, h]
  have hshift : s >>> 1 = t >>> 1 := by
    unfold clock at h
    rw [hlow] at h
    cases hb : t.getLsbD 0 with
    | false => simpa [hb] using h
    | true =>
      have hx : (s >>> 1) ^^^ poly = (t >>> 1) ^^^ poly := by simpa [hb] using h
      exact (BitVec.xor_left_inj poly).mp hx
  apply BitVec.eq_of_getLsbD_eq
  intro i hi
  cases i with
  | zero => exact hlow
  | succ i =>
    have hb := congrArg (fun x : BitVec w => x.getLsbD i) hshift
    simpa [Nat.add_comm] using hb

theorem feedBit_injective (poly : BitVec w) (hw : 0 < w) (hp : poly.getLsbD (w-1) = true) (b : Bool) :
    Function.Injective (fun s => feedBit poly s b) := fun _ _ h =>
  (BitVec.xor_left_inj _).mp (clock_injective poly hw hp h)

/-- Absorbing a fixed message keeps distinct states distinct. -/
theorem feed_injective (poly : BitVec w) (hw : 0 < w) (hp : poly.getLsbD (w-1) = true) (bits : List Bool) :
    Function.Injective (fun s => feed poly s bits) := by
  induction bits with
  | nil => exact fun _ _ h => h
  | cons b bits ih => exact fun s t h => feedBit_injective poly hw hp b (ih h)

/-- Two messages that agree outside one window no wider than the register, and
differ inside it, leave different states. -/
theorem feed_ne_of_burst (poly s : BitVec w) (hw : 0 < w) (hp : poly.getLsbD (w-1) = true)
    (front xs ys back : List Bool) (hl : xs.length = ys.length) (hx : xs.length ≤ w) (hne : xs ≠ ys) :
    feed poly s (front ++ xs ++ back) ≠ feed poly s (front ++ ys ++ back) := by
  intro h
  rw [feed_append, feed_append, feed_append poly s, feed_append poly s] at h
  have hmid := feed_injective poly hw hp back h
  rw [feed_eq_iterate poly _ xs hx, feed_eq_iterate poly _ ys (hl ▸ hx), hl] at hmid
  have hword := (clock_injective poly hw hp).iterate ys.length hmid
  exact hne (word_injective hl hx ((BitVec.xor_right_inj _).mp hword))

/-- The burst bound by positions: messages of one length that differ, all within
some window of w consecutive bits, leave different states. -/
theorem feed_ne_of_window (poly s : BitVec w) (hw : 0 < w) (hp : poly.getLsbD (w-1) = true)
    {xs ys : List Bool} (hl : xs.length = ys.length) (hne : xs ≠ ys) (start : Nat)
    (hwin : ∀ k, xs[k]? ≠ ys[k]? → start ≤ k ∧ k < start+w) : feed poly s xs ≠ feed poly s ys := by
  have split (zs : List Bool) : zs = zs.take start ++ (zs.drop start).take w ++ zs.drop (start+w) := by
    rw [List.append_assoc, ← List.drop_drop, List.take_append_drop, List.take_append_drop]
  have hfront : xs.take start = ys.take start := by
    apply List.ext_getElem?
    intro k
    by_cases hk : k < start
    · rw [List.getElem?_take_of_lt hk, List.getElem?_take_of_lt hk]
      by_contra hd
      exact absurd (hwin k hd).1 (by omega)
    · rw [List.getElem?_take, List.getElem?_take, if_neg hk, if_neg hk]
  have hback : xs.drop (start+w) = ys.drop (start+w) := by
    apply List.ext_getElem?
    intro k
    rw [List.getElem?_drop, List.getElem?_drop]
    by_contra hd
    exact absurd (hwin _ hd).2 (by omega)
  have hmid : (xs.drop start).take w ≠ (ys.drop start).take w := by
    intro he
    apply hne
    rw [split xs, split ys, hfront, hback, he]
  rw [split xs, split ys, hfront, hback]
  exact feed_ne_of_burst poly s hw hp _ _ _ _ (by simp [hl])
    (List.length_take_le _ _) hmid

/-- A full word of message bits that turns the state into m leaves w clocks of m. -/
theorem feed_full_word (poly s m : BitVec w) {bits : List Bool} (hl : bits.length = w)
    (h : s ^^^ word bits = m) : feed poly s bits = (clock poly)^[w] m := by
  rw [feed_eq_iterate poly s bits (Nat.le_of_eq hl), h, hl]

end IbverbPrototype.Foundations.ShiftRegister
