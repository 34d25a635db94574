import Mathlib.Data.List.Basic
import Mathlib.Tactic.Ring

/-! Machine words as bytes: little-endian storage, big-endian reading, the
network-order swaps, and the bit stream of a byte string, low bit of a byte first. -/
namespace IbverbPrototype.Foundations.ByteOrder

abbrev Byte := BitVec 8

/-- The n low bytes of a word as a little-endian host stores them. -/
def toLittle {w : Nat} : Nat → BitVec w → List Byte
  | 0, _ => []
  | n+1, x => x.setWidth 8 :: toLittle n (x >>> 8)

def littleValue : List Byte → Nat
  | [] => 0
  | b::bs => b.toNat + 256*littleValue bs

/-- A little-endian load of as many bytes as the list holds. -/
def ofLittle (w : Nat) (bs : List Byte) : BitVec w := BitVec.ofNat w (littleValue bs)

/-- Network order: the first byte is the most significant. -/
def bigValue (bs : List Byte) : Nat := bs.foldl (fun acc b => 256*acc + b.toNat) 0

def htons (x : BitVec 16) : BitVec 16 := x.setWidth 8 ++ (x >>> 8).setWidth 8

def htonl (x : BitVec 32) : BitVec 32 :=
  x.setWidth 8 ++ (x >>> 8).setWidth 8 ++ (x >>> 16).setWidth 8 ++ (x >>> 24).setWidth 8

/-- The inverse conversions are the same swaps on a little-endian host. -/
abbrev ntohs := htons
abbrev ntohl := htonl

def byteBits (b : Byte) : List Bool := (List.range 8).map b.getLsbD

def bitStream (bs : List Byte) : List Bool := bs.flatMap byteBits

variable {w : Nat}

@[simp] theorem toLittle_length (n : Nat) (x : BitVec w) : (toLittle n x).length = n := by
  induction n generalizing x with
  | zero => rfl
  | succ n ih => simp [toLittle, ih]

theorem littleValue_lt (bs : List Byte) : littleValue bs < 256^bs.length := by
  induction bs with
  | nil => simp [littleValue]
  | cons b bs ih =>
    have hb := b.isLt
    rw [littleValue, List.length_cons, pow_succ]
    omega

theorem littleValue_toLittle (n : Nat) (x : BitVec w) :
    littleValue (toLittle n x) = x.toNat % 256^n := by
  induction n generalizing x with
  | zero => simp [toLittle, littleValue, Nat.mod_one]
  | succ n ih =>
    have hs : (x >>> 8).toNat = x.toNat / 256 := by simp [Nat.shiftRight_eq_div_pow]
    rw [toLittle, littleValue, ih, hs, BitVec.toNat_setWidth, show (2 : Nat)^8 = 256 from rfl, pow_succ',
      Nat.mod_mul]

/-- Storing a loaded word gives the loaded bytes back. -/
theorem toLittle_ofLittle {n : Nat} {bs : List Byte} (hn : bs.length = n) (hw : 8*n ≤ w) :
    toLittle n (ofLittle w bs) = bs := by
  have load (n : Nat) (bs : List Byte) (x : BitVec w) (hn : bs.length = n)
      (hx : x.toNat = littleValue bs) : toLittle n x = bs := by
    induction n generalizing bs x with
    | zero => rw [List.length_eq_zero_iff.mp hn]; rfl
    | succ n ih =>
      cases bs with
      | nil => simp at hn
      | cons b bs =>
        have hb := b.isLt
        rw [littleValue] at hx
        have hhead : x.setWidth 8 = b := by
          apply BitVec.eq_of_toNat_eq
          rw [BitVec.toNat_setWidth]
          omega
        have htail : (x >>> 8).toNat = littleValue bs := by
          rw [BitVec.toNat_ushiftRight, Nat.shiftRight_eq_div_pow]
          omega
        rw [toLittle, hhead, ih bs _ (by simpa using hn) htail]
  apply load _ _ _ hn
  have hlt := littleValue_lt bs
  have hp : 256^bs.length ≤ 2^w := by
    rw [hn, show (256 : Nat) = 2^8 from rfl, ← pow_mul]
    exact Nat.pow_le_pow_right (by decide) hw
  rw [ofLittle, BitVec.toNat_ofNat, Nat.mod_eq_of_lt (lt_of_lt_of_le hlt hp)]

theorem ofLittle_toLittle (n : Nat) (x : BitVec w) (hw : w ≤ 8*n) : ofLittle w (toLittle n x) = x := by
  apply BitVec.eq_of_toNat_eq
  have hp : 2^w ≤ 256^n := by
    rw [show (256 : Nat) = 2^8 from rfl, ← pow_mul]
    exact Nat.pow_le_pow_right (by decide) hw
  rw [ofLittle, littleValue_toLittle, BitVec.toNat_ofNat,
    Nat.mod_eq_of_lt (lt_of_lt_of_le x.isLt hp), Nat.mod_eq_of_lt x.isLt]

theorem toLittle_injective {n : Nat} (hw : w ≤ 8*n) : Function.Injective (toLittle n : BitVec w → List Byte) := by
  intro a b hab
  rw [← ofLittle_toLittle n a hw, hab, ofLittle_toLittle n b hw]

theorem bigValue_append_singleton (bs : List Byte) (b : Byte) :
    bigValue (bs ++ [b]) = 256*bigValue bs + b.toNat := by simp [bigValue]

theorem bigValue_reverse (bs : List Byte) : bigValue bs.reverse = littleValue bs := by
  induction bs with
  | nil => rfl
  | cons b bs ih =>
    rw [List.reverse_cons, bigValue_append_singleton, ih, littleValue]
    omega

/-- Moving past the low part of a concatenation reads the high part. -/
theorem append_shift {u v : Nat} (x : BitVec u) (y : BitVec v) (k n : Nat) (hk : v ≤ k) :
    ((x ++ y) >>> k).setWidth n = (x >>> (k-v)).setWidth n := by
  apply BitVec.eq_of_getLsbD_eq
  intro i hi
  simp only [BitVec.getLsbD_setWidth, BitVec.getLsbD_ushiftRight, BitVec.getLsbD_append]
  rw [if_neg (by omega), show k+i-v = k-v+i by omega]

theorem append_high {u v : Nat} (x : BitVec u) (y : BitVec v) : ((x ++ y) >>> v).setWidth u = x := by
  rw [append_shift _ _ v u (Nat.le_refl v)]
  simp

/-- Neighbouring bit windows of a word join. -/
theorem append_window (x : BitVec w) (k u v : Nat) :
    (x >>> (k+v)).setWidth u ++ (x >>> k).setWidth v = (x >>> k).setWidth (u+v) := by
  apply BitVec.eq_of_getLsbD_eq
  intro i hi
  simp only [BitVec.getLsbD_append, BitVec.getLsbD_setWidth, BitVec.getLsbD_ushiftRight]
  split
  · simp [*]
  · rw [show k+v+(i-v) = k+i by omega]
    simp [hi, show i-v < u by omega]

theorem toLittle_htons (x : BitVec 16) : toLittle 2 (htons x) = (toLittle 2 x).reverse := by
  have h0 : (htons x).setWidth 8 = (x >>> 8).setWidth 8 := BitVec.setWidth_append_eq_right
  have h1 : (htons x >>> 8).setWidth 8 = x.setWidth 8 := by
    rw [htons, append_shift _ _ 8 8 (by decide)]
    simp
  simp [toLittle, h0, h1]

theorem toLittle_htonl (x : BitVec 32) : toLittle 4 (htonl x) = (toLittle 4 x).reverse := by
  have h0 : (htonl x).setWidth 8 = (x >>> 24).setWidth 8 := BitVec.setWidth_append_eq_right
  have h1 : (htonl x >>> 8).setWidth 8 = (x >>> 16).setWidth 8 := by
    rw [htonl, append_shift _ _ 8 8 (by decide), Nat.sub_self, BitVec.ushiftRight_zero]
    exact BitVec.setWidth_append_eq_right
  have h2 : (htonl x >>> 16).setWidth 8 = (x >>> 8).setWidth 8 := by
    rw [htonl, append_shift _ _ 16 8 (by decide), append_shift _ _ 8 8 (by decide), Nat.sub_self,
      BitVec.ushiftRight_zero]
    exact BitVec.setWidth_append_eq_right
  have h3 : (htonl x >>> 24).setWidth 8 = x.setWidth 8 := by
    rw [htonl, append_shift _ _ 24 8 (by decide), append_shift _ _ 16 8 (by decide),
      append_shift _ _ 8 8 (by decide)]
    simp
  simp [toLittle, ← BitVec.shiftRight_add, h0, h1, h2, h3]

/-- Exchanging its bytes moves the low one up and the high one down. -/
theorem htons_toNat (x : BitVec 16) : (htons x).toNat = 256*(x.toNat % 256)+x.toNat/256 := by
  have hx := x.isLt
  have hhigh : ((x >>> 8).setWidth 8).toNat = x.toNat/256 := by
    rw [BitVec.toNat_setWidth, BitVec.toNat_ushiftRight, Nat.shiftRight_eq_div_pow]
    omega
  have hlow : (x.setWidth 8).toNat = x.toNat % 256 := BitVec.toNat_setWidth 8 x
  rw [htons, BitVec.toNat_append, hlow, hhigh, Nat.shiftLeft_eq, Nat.mul_comm,
    ← Nat.two_pow_add_eq_or_of_lt (by omega)]

theorem htons_injective {x y : BitVec 16} (h : htons x = htons y) : x = y := by
  have hbytes := congrArg (toLittle 2) h
  rw [toLittle_htons, toLittle_htons, List.reverse_inj] at hbytes
  have hword := congrArg (ofLittle 16) hbytes
  rwa [ofLittle_toLittle 2 _ le_rfl, ofLittle_toLittle 2 _ le_rfl] at hword

/-- A 16-bit field written through htons reads back in network order. -/
theorem bigValue_htons (x : BitVec 16) : bigValue (toLittle 2 (htons x)) = x.toNat := by
  rw [toLittle_htons, bigValue_reverse, littleValue_toLittle]
  exact Nat.mod_eq_of_lt x.isLt

@[simp] theorem byteBits_length (b : Byte) : (byteBits b).length = 8 := by simp [byteBits]

theorem byteBits_injective {a b : Byte} (h : byteBits a = byteBits b) : a = b := by
  apply BitVec.eq_of_getLsbD_eq
  intro i hi
  have he := congrArg (fun l => l[i]?) h
  simpa only [byteBits, List.getElem?_map, List.getElem?_range hi, Option.map_some, Option.some.injEq] using he

@[simp] theorem bitStream_nil : bitStream [] = [] := rfl

@[simp] theorem bitStream_cons (b : Byte) (bs : List Byte) :
    bitStream (b::bs) = byteBits b ++ bitStream bs := rfl

theorem bitStream_append (xs ys : List Byte) : bitStream (xs ++ ys) = bitStream xs ++ bitStream ys :=
  List.flatMap_append

@[simp] theorem bitStream_length (bs : List Byte) : (bitStream bs).length = 8*bs.length := by
  induction bs with
  | nil => rfl
  | cons b bs ih => simp only [bitStream_cons, List.length_append, byteBits_length, ih, List.length_cons]; omega

theorem bitStream_injective {xs ys : List Byte} (h : bitStream xs = bitStream ys) : xs = ys := by
  induction xs generalizing ys with
  | nil =>
    have hl := congrArg List.length h
    rw [bitStream_length, bitStream_length] at hl
    exact (List.length_eq_zero_iff.mp (by simpa using hl.symm)).symm
  | cons x xs ih =>
    cases ys with
    | nil => simpa using congrArg List.length h
    | cons y ys =>
      obtain ⟨hb,ht⟩ := List.append_inj h (by simp)
      rw [byteBits_injective hb, ih ht]

/-- Bit k of a byte string is bit k mod 8 of byte k div 8. -/
theorem bitStream_getElem (bs : List Byte) (i j : Nat) (hj : j < 8) :
    (bitStream bs)[8*i+j]? = (bs[i]?).map (fun b => b.getLsbD j) := by
  induction bs generalizing i with
  | nil => simp
  | cons b bs ih =>
    cases i with
    | zero =>
      rw [bitStream_cons, List.getElem?_append_left (by simpa using hj)]
      rw [byteBits, List.getElem?_map, List.getElem?_range (by simpa using hj)]
      simp
    | succ i =>
      rw [bitStream_cons, List.getElem?_append_right (by simp; omega), byteBits_length,
        show 8*(i+1)+j-8 = 8*i+j by omega, ih]
      simp

/-- The stored bytes of a word stream out its bits in order of weight. -/
theorem bitStream_toLittle (n : Nat) (x : BitVec w) :
    bitStream (toLittle n x) = (List.range (8*n)).map x.getLsbD := by
  induction n generalizing x with
  | zero => rfl
  | succ n ih =>
    have hb : byteBits (x.setWidth 8) = (List.range 8).map x.getLsbD := by
      simp [byteBits, List.range_succ]
    rw [toLittle, bitStream_cons, hb, ih, Nat.mul_succ, Nat.add_comm, List.range_add, List.map_append,
      List.map_map]
    congr 1
    apply List.map_congr_left
    intro i _
    simp [Function.comp]

/-- Stored bytes depend only on the bits they hold, whatever the word widths. -/
theorem toLittle_congr {v n : Nat} {x : BitVec w} {y : BitVec v}
    (h : ∀ i < 8*n, x.getLsbD i = y.getLsbD i) : toLittle n x = toLittle n y := by
  apply bitStream_injective
  rw [bitStream_toLittle, bitStream_toLittle]
  exact List.map_congr_left (fun i hi => h i (List.mem_range.mp hi))

theorem toLittle_setWidth {v n : Nat} (x : BitVec w) (h : 8*n ≤ v) :
    toLittle n (x.setWidth v) = toLittle n x := by
  apply toLittle_congr
  intro i hi
  rw [BitVec.getLsbD_setWidth, decide_eq_true (show i < v by omega), Bool.true_and]

theorem toLittle_take (n m : Nat) (x : BitVec w) : (toLittle (n+m) x).take n = toLittle n x := by
  induction n generalizing x with
  | zero => simp [toLittle]
  | succ n ih => rw [Nat.add_right_comm, toLittle, List.take_succ_cons, ih, toLittle]

/-- A field placed above eight other bits starts at the second byte. -/
theorem toLittle_append_byte {v : Nat} (n : Nat) (q : BitVec v) (r : Byte) :
    toLittle (n+1) (q ++ r) = r :: toLittle n q := by
  have htail : toLittle n ((q ++ r) >>> 8) = toLittle n q := by
    apply toLittle_congr
    intro i _
    rw [BitVec.getLsbD_ushiftRight, BitVec.getLsbD_append, if_neg (by omega), Nat.add_sub_cancel_left]
  rw [toLittle, BitVec.setWidth_append_eq_right, htail]

theorem toLittle_shiftLeft_byte (n : Nat) (x : BitVec w) (h : 8*(n+1) ≤ w) :
    toLittle (n+1) (x <<< 8) = 0 :: toLittle n x := by
  have hhead : (x <<< 8).setWidth 8 = (0 : Byte) := by
    apply BitVec.eq_of_getLsbD_eq
    intro i hi
    simp [hi]
  have htail : toLittle n ((x <<< 8) >>> 8) = toLittle n x := by
    apply toLittle_congr
    intro i hi
    simp only [BitVec.getLsbD_ushiftRight, BitVec.getLsbD_shiftLeft, Nat.add_sub_cancel_left]
    simp [show 8+i < w by omega]
  rw [toLittle, hhead, htail]

/-- Swapping a word and reading it is reading its stored bytes in network order. -/
theorem htonl_toNat (x : BitVec 32) : (htonl x).toNat = bigValue (toLittle 4 x) := by
  have h := littleValue_toLittle 4 (htonl x)
  rw [Nat.mod_eq_of_lt (show (htonl x).toNat < 256^4 from (htonl x).isLt), toLittle_htonl, ← bigValue_reverse,
    List.reverse_reverse] at h
  exact h.symm

/-- The values of consecutive byte pairs, an odd last byte padded with zero. -/
def pairValues (value : List Byte → Nat) : List Byte → List Nat
  | a::b::rest => value [a, b] :: pairValues value rest
  | [a] => [value [a, 0]]
  | [] => []

/-- Byte strings of even length, two bytes at a time. -/
theorem pair_induction {motive : List Byte → Prop} (nil : motive [])
    (pair : ∀ a b rest, motive rest → motive (a::b::rest)) {bs : List Byte} {k : Nat} (h : bs.length = 2*k) :
    motive bs := by
  induction k generalizing bs with
  | zero =>
    obtain rfl := List.length_eq_zero_iff.mp h
    exact nil
  | succ k ih =>
    match bs with
    | [] => exact nil
    | [_] =>
      rw [List.length_singleton] at h
      omega
    | a::b::rest =>
      rw [List.length_cons, List.length_cons] at h
      exact pair a b rest (ih (by omega))

theorem pairValues_append (value : List Byte → Nat) {xs : List Byte} (ys : List Byte) {k : Nat}
    (h : xs.length = 2*k) :
    pairValues value (xs ++ ys) = pairValues value xs ++ pairValues value ys := by
  refine pair_induction
    (motive := fun xs => pairValues value (xs ++ ys) = pairValues value xs ++ pairValues value ys) rfl ?_ h
  intro a b rest ih
  rw [List.cons_append, List.cons_append, pairValues, ih, pairValues, List.cons_append]

theorem pairValues_length (value : List Byte → Nat) {bs : List Byte} {k : Nat} (h : bs.length = 2*k) :
    2*(pairValues value bs).length = bs.length := by
  refine pair_induction (motive := fun bs => 2*(pairValues value bs).length = bs.length) rfl ?_ h
  intro a b rest ih
  simp only [pairValues, List.length_cons]
  omega

end IbverbPrototype.Foundations.ByteOrder
