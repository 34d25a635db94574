import IbverbPrototype.Foundations.ByteOrder
import IbverbPrototype.Foundations.CheckedMemory
import Mathlib.Data.Nat.Digits.Defs

/-! Text as C programs produce it: ASCII bytes, decimal conversion and the bytes a
bounded formatting call leaves in its buffer. -/
namespace IbverbPrototype.Foundations.FormattedText
open ByteOrder CheckedMemory

def ascii (text : List Char) : List Byte := text.map (fun c => BitVec.ofNat 8 c.toNat)

/-- The %d conversion. -/
def decimal : Int → List Char
  | .ofNat n => Nat.toDigits 10 n
  | .negSucc n => '-' :: Nat.toDigits 10 (n+1)

@[simp] theorem ascii_length (text : List Char) : (ascii text).length = text.length := List.length_map _

/-- At most k digits and a sign. -/
theorem decimal_length {i : Int} {k : Nat} (hk : 0 < k) (hi : i.natAbs < 10^k) : (decimal i).length ≤ k+1 := by
  cases i with
  | ofNat n => exact (Nat.toDigits_length 10 n k hk hi).trans (Nat.le_succ k)
  | negSucc n => exact Nat.succ_le_succ (Nat.toDigits_length 10 (n+1) k hk hi)

/-- What snprintf leaves in a buffer of size bytes: the text cut to fit, then NUL. -/
def bounded (size : Nat) (text : List Byte) : List Byte := text.take (size-1) ++ [0]

theorem bounded_length {size : Nat} (hs : 0 < size) (text : List Byte) : (bounded size text).length ≤ size := by
  have h := List.length_take_le (size-1) text
  rw [bounded, List.length_append, List.length_singleton]
  omega

/-- A text shorter than the buffer is stored whole. -/
theorem bounded_of_lt {size : Nat} {text : List Byte} (h : text.length < size) :
    bounded size text = text ++ [0] := by
  rw [bounded, List.take_of_length_le (by omega)]

/-- A formatting call into a buffer it is given the size of. -/
def formatInto {n : Nat} (data : Vector Byte n) (text : List Byte) : Vector Byte n :=
  if h : 0 < n then
    ⟨(overwrite data.toList 0 (bounded n text)).toArray, by
      have hb := bounded_length h text
      simp [overwrite_length, hb]⟩
  else data

/-- A text shorter than the buffer stands at its start. -/
theorem formatInto_take {n : Nat} (data : Vector Byte n) {text : List Byte} (h : text.length < n) :
    (formatInto data text).toList.take text.length = text := by
  have hn : 0 < n := by omega
  rw [formatInto, dif_pos hn]
  simp [Vector.toList, overwrite, bounded_of_lt h]

/-- The string that starts an object: its bytes up to the first NUL, if there is one. -/
def cString (mem : List Byte) : Option (List Byte) :=
  if 0 ∈ mem then some (mem.takeWhile (· ≠ 0)) else none

/-- A terminator behind some bytes ends the string there or earlier. -/
theorem cString_terminated (data rest : List Byte) : cString (data ++ 0 :: rest) = some (data.takeWhile (· ≠ 0)) := by
  have hmem : 0 ∈ data ++ 0 :: rest := List.mem_append_right _ List.mem_cons_self
  rw [cString, if_pos hmem, Option.some_inj]
  induction data with
  | nil => rfl
  | cons b data ih =>
    rw [List.cons_append, List.takeWhile_cons, List.takeWhile_cons, ih (List.mem_append_right _ List.mem_cons_self)]

/-- The characters of ASCII bytes. -/
def characters (bs : List Byte) : List Char := bs.map (fun b => Char.ofNat b.toNat)

theorem characters_ascii {text : List Char} (h : ∀ c ∈ text, c.toNat < 128) : characters (ascii text) = text := by
  rw [characters, ascii, List.map_map]
  refine (List.map_congr_left ?_).trans (List.map_id _)
  intro c hc
  have hlow := h c hc
  change Char.ofNat (BitVec.ofNat 8 c.toNat).toNat = c
  rw [BitVec.toNat_ofNat, Nat.mod_eq_of_lt (by omega), Char.ofNat_toNat]

/-- The bytes of ASCII text are not NUL when its characters are not. -/
theorem ascii_ne_zero {text : List Char} (h : ∀ c ∈ text, 0 < c.toNat ∧ c.toNat < 128) : ∀ b ∈ ascii text, b ≠ 0 := by
  intro b hb hzero
  obtain ⟨c,hc,rfl⟩ := List.mem_map.mp hb
  obtain ⟨hpos,hlow⟩ := h c hc
  have hvalue := congrArg BitVec.toNat hzero
  rw [BitVec.toNat_ofNat, Nat.mod_eq_of_lt (by omega)] at hvalue
  exact absurd hvalue hpos.ne'

theorem decimal_ascii (i : Int) : ∀ c ∈ decimal i, 0 < c.toNat ∧ c.toNat < 128 := by
  have hdigit : ∀ n, ∀ c ∈ Nat.toDigits 10 n, 0 < c.toNat ∧ c.toNat < 128 := by
    intro n c hc
    have hc := Nat.isDigit_of_mem_toDigits (by decide) (by decide) hc
    obtain ⟨hlo,hhi⟩ := Char.isDigit_iff_toNat.mp hc
    simp at hlo hhi
    omega
  intro c hc
  cases i with
  | ofNat n => exact hdigit n c hc
  | negSucc n =>
    rcases List.mem_cons.mp hc with rfl | hc
    · decide
    · exact hdigit (n+1) c hc

/-- The number a decimal text stands for. -/
def decimalValue (text : List Char) : Nat := Nat.ofDigitChars 10 text 0

theorem decimalValue_decimal (n : Nat) : decimalValue (decimal n) = n := Nat.ofDigitChars_ten_toDigits

end IbverbPrototype.Foundations.FormattedText
