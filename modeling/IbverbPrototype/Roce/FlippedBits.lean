import IbverbPrototype.Foundations.RegisterPeriod
import IbverbPrototype.Roce.FrameDelivery
import Mathlib.Tactic.NormNum.Prime

/-! Bits flipped far apart: the checksum polynomial has the longest period a register of its width
can have, so no two flipped bits of a frame ever cancel out. -/
namespace IbverbPrototype.Roce
open Foundations Foundations.ByteOrder Address

theorem prime_dvd_period {p : Nat} (hp : p.Prime) (h : p ∣ 2^32-1) : p ∈ [3, 5, 17, 257, 65537] := by
  have hfactors : 2^32-1 = 3*5*17*257*65537 := by norm_num
  have hprimes : Nat.Prime 3 ∧ Nat.Prime 5 ∧ Nat.Prime 17 ∧ Nat.Prime 257 ∧ Nat.Prime 65537 := by norm_num
  obtain ⟨h3,h5,h17,h257,h65537⟩ := hprimes
  rw [hfactors, hp.dvd_mul, hp.dvd_mul, hp.dvd_mul, hp.dvd_mul, Nat.prime_dvd_prime_iff_eq hp h3,
    Nat.prime_dvd_prime_iff_eq hp h5, Nat.prime_dvd_prime_iff_eq hp h17, Nat.prime_dvd_prime_iff_eq hp h257,
    Nat.prime_dvd_prime_iff_eq hp h65537] at h
  simp only [List.mem_cons, List.not_mem_nil, or_false]
  omega

/-- The polynomial is primitive: the register of a single bit goes through all states but zero. -/
theorem polynomial_period : Function.minimalPeriod (ShiftRegister.clock polynomial) 1#32 = 2^32-1 := by
  refine ShiftRegister.clock_period 32 (by norm_num) (by norm_num) (by decide +kernel) ?_
  intro p hp hdvd
  have hquotients : ∀ q ∈ [3, 5, 17, 257, 65537],
      ShiftRegister.farClock polynomial 32 ((2^32-1)/q) ≠ ShiftRegister.top 32 := by decide +kernel
  exact hquotients p (prime_dvd_period hp hdvd)

/-- Exactly these covered bits are altered. -/
def Flipped (frame frame' : List Byte) (i j : Nat) : Prop :=
  ∀ k, CoveredBit k ∧ Altered frame frame' k ↔ k = i ∨ k = j

variable {body body' frame frame' : List Byte} {q : QueuePair} {i j : Nat}

theorem Flipped.symm (h : Flipped frame frame' i j) : Flipped frame frame' j i := fun k => (h k).trans or_comm

/-- Two bodies with a right trailer never differ in two covered bits. -/
theorem sealed_flips (hlen : body'.length = body.length) (hlong : overhead ≤ body.length)
    (hshort : body.length < 2^29) (hij : i ≤ j)
    (hflips : ∀ k, CoveredBit k ∧ (bitStream body)[k]? ≠ (bitStream body')[k]? ↔ k = i ∨ k = j)
    (hsealed : sealed body = true) : sealed body' = false := by
  have hheaders : sizeofIbHeaders ≤ body.length := (Nat.le_add_right _ 4).trans hlong
  by_contra hsealed'
  obtain ⟨s,hsame⟩ := sealed_feed hlen hlong hsealed (Bool.not_eq_false _ ▸ hsealed')
  have hj : j < 8*body.length := by
    by_contra hout
    refine ((hflips j).mpr (.inr rfl)).2 ?_
    rw [List.getElem?_eq_none (by rw [bitStream_length]; omega),
      List.getElem?_eq_none (by rw [bitStream_length]; omega)]
  refine ShiftRegister.feed_ne_of_flips s (by decide) (by decide) ?_ hij ?_ ?_ hsame
  · rw [bitStream_length, bitStream_length, covered_length, covered_length, hlen]
  · exact fun k => (covered_ne_iff hlen hheaders k).trans (hflips k)
  · rw [polynomial_period]
    omega

/-- A frame that was admitted is dropped by everyone once one or two of its covered bits are
flipped, wherever they are. -/
theorem flips_dropped (h : admits q frame ≠ none) (hlen : frame'.length = frame.length)
    (hshort : frame.length < 2^29) (hflips : Flipped frame frame' i j) (q' : QueuePair) : admits q' frame' = none := by
  obtain ⟨hlong,hsealed⟩ := admits_sealed h
  have hlens : (frame'.drop sizeofEthHdr).length = (frame.drop sizeofEthHdr).length := by
    rw [List.length_drop, List.length_drop, hlen]
  have hsmall : (frame.drop sizeofEthHdr).length < 2^29 := by
    rw [List.length_drop]
    omega
  have hbroken : sealed (frame'.drop sizeofEthHdr) = false := by
    rcases Nat.le_total i j with hij | hij
    · exact sealed_flips hlens hlong hsmall hij hflips hsealed
    · exact sealed_flips hlens hlong hsmall hij hflips.symm hsealed
  refine if_neg ?_
  rintro ⟨-,-,-,hsealed'⟩
  exact Bool.false_ne_true (hbroken.symm.trans hsealed')

variable {src dest : Addr} {qp : BitVec 32} {cells : Vector Byte 4} {answers : List Bool} {k : Nat}

/-- The low bit of byte n is flipped. -/
def flipByte (frame : List Byte) (n : Nat) : List Byte := frame.modify n (· ^^^ 1)

theorem flipByte_length (frame : List Byte) (n : Nat) : (flipByte frame n).length = frame.length :=
  List.length_modify _ _ _

/-- The place of its low bit behind the Ethernet header is the only one that changes. -/
theorem flipByte_bits (frame : List Byte) (n k : Nat) :
    (bitStream ((flipByte frame n).drop sizeofEthHdr))[k]? =
      ((bitStream (frame.drop sizeofEthHdr))[k]?).map (fun b => b ^^ decide (n = sizeofEthHdr+k/8 ∧ k % 8 = 0)) := by
  have hr : k % 8 < 8 := Nat.mod_lt k (by decide)
  obtain ⟨m,r,hm,hrem,hk⟩ : ∃ m r, k/8 = m ∧ k % 8 = r ∧ k = 8*m+r := ⟨_,_,rfl,rfl,(Nat.div_add_mod k 8).symm⟩
  rw [hm, hrem, hk, bitStream_getElem _ _ _ (hrem ▸ hr), bitStream_getElem _ _ _ (hrem ▸ hr), List.getElem?_drop,
    List.getElem?_drop, flipByte, List.getElem?_modify]
  cases frame[sizeofEthHdr+m]? with
  | none => rfl
  | some b =>
    by_cases hn : n = sizeofEthHdr+m <;> simp [hn]

/-- Behind the headers, the low bits of two bytes are two covered bits. -/
theorem flipByte_flipped {m n : Nat} (hm : dataOffset ≤ m) (hn : dataOffset ≤ n) (hmn : m ≠ n) (hml : m < frame.length)
    (hnl : n < frame.length) :
    Flipped frame (flipByte (flipByte frame m) n) (8*(m-sizeofEthHdr)) (8*(n-sizeofEthHdr)) := by
  have hoff : dataOffset = 74 := rfl
  have heth : sizeofEthHdr = 14 := rfl
  intro k
  have hplace (x : Nat) (hx : dataOffset ≤ x) : (x = sizeofEthHdr+k/8 ∧ k % 8 = 0) = (k = 8*(x-sizeofEthHdr)) := by
    apply propext
    omega
  rw [Altered, flipByte_bits, flipByte_bits]
  simp only [hplace m hm, hplace n hn]
  by_cases hk : k < 8*(frame.length-sizeofEthHdr)
  case neg =>
    have hout : (bitStream (frame.drop sizeofEthHdr))[k]? = none :=
      List.getElem?_eq_none (by rw [bitStream_length, List.length_drop]; omega)
    rw [hout]
    simp only [Option.map_none, ne_eq, not_true_eq_false, and_false, false_iff]
    omega
  obtain ⟨b,hb⟩ : ∃ b, (bitStream (frame.drop sizeofEthHdr))[k]? = some b :=
    ⟨_,List.getElem?_eq_getElem (by rw [bitStream_length, List.length_drop]; exact hk)⟩
  have hflipped : ∀ P Q : Bool, (P && Q) = false → (b ≠ ((b ^^ P) ^^ Q) ↔ P = true ∨ Q = true) := by
    cases b <;> decide
  have hapart : (decide (k = 8*(m-sizeofEthHdr)) && decide (k = 8*(n-sizeofEthHdr))) = false := by
    rw [Bool.and_eq_false_iff, decide_eq_false_iff_not, decide_eq_false_iff_not]
    omega
  rw [hb, Option.map_some, Option.map_some, ne_eq, Option.some_inj, ← ne_eq, hflipped _ _ hapart, decide_eq_true_iff,
    decide_eq_true_iff]
  refine ⟨And.right,fun hk => ⟨?_,hk⟩⟩
  unfold CoveredBit
  omega

end IbverbPrototype.Roce
