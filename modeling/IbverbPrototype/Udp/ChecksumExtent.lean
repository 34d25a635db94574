import IbverbPrototype.Udp.ChecksumLaw

/-! Which memory the header checksum looks at: for an odd length its last word takes in
the byte behind the buffer. -/
namespace IbverbPrototype.Udp
open Foundations.ByteOrder Foundations.CheckedMemory Foundations.OnesComplement

/-- Whole words, an odd last byte completed by a zero byte. -/
def padded (data : List Byte) : List Byte := if data.length % 2 = 0 then data else data ++ [0]

/-- The one's-complement checksum of any byte string, as a little-endian host stores it. -/
def onesChecksum (data : List Byte) : BitVec 16 := htons (~~~ onesSum (WireFormat.bigWords (padded data)))

/-- Two runs over memories with the same first n bytes give the checksum of these bytes. -/
def BufferOnly (n : Nat) (mem mem' : List Byte) : Prop :=
  ipv4check mem n = ipv4check mem' n ∧ ipv4check mem n = some (onesChecksum (mem.take n))

/-- The answer in terms of the words the loop loads, whatever length asked for them. -/
theorem ipv4check_words {mem : List Byte} {n : Int} {k : Nat} (hn : 1+(n-1).tdiv 2 = k) (hm : 2*k ≤ mem.length)
    (hk1 : 1 ≤ k) (hk : k ≤ 2^15) :
    ipv4check mem n = some (htons (~~~ onesSum (WireFormat.bigWords (mem.take (2*k))))) := by
  have hlen : (mem.take (2*k)).length = 2*k := List.length_take_of_le hm
  obtain ⟨r,hr,hval⟩ := ipv4check_eq hn hm hk
  obtain ⟨r',hr',hval'⟩ := ipv4check_eq (even_rounds hk1) hlen.ge hk
  rw [List.take_take, Nat.min_self, ← hval] at hval'
  rw [hr, ← ipv4check_network hlen hk1 hk, hr', BitVec.eq_of_toNat_eq hval']

theorem odd_rounds {n k : Nat} (h : n+1 = 2*k) : 1+((n : Int)-1).tdiv 2 = k := by
  rw [Int.tdiv_eq_ediv_of_nonneg (by omega)]
  omega

/-- Without a byte behind an odd buffer the last load leaves the memory. -/
theorem ipv4check_outside {mem : List Byte} {n k : Nat} (h : n+1 = 2*k) (hm : mem.length = n) :
    ipv4check mem n = none := by
  obtain ⟨j,rfl⟩ : ∃ j, k = j+1 := ⟨k-1,by omega⟩
  have hload : load mem (2*j) 2 = none := if_neg (by omega)
  have hsum : sumWords mem (j+1) = none := by
    rw [sumWords, hload]
    cases sumWords mem j <;> rfl
  rw [ipv4check, odd_rounds h]
  simp only [Int.toNat_natCast, hsum, Option.bind_eq_bind, Option.bind_none]

/-- The byte that completes an odd string adds its own value to the sum. -/
theorem pairValues_last {data : List Byte} {k : Nat} (h : data.length+1 = 2*k) (b : Byte) :
    (pairValues bigValue (data ++ [b])).sum = (pairValues bigValue (data ++ [0])).sum+b.toNat := by
  obtain ⟨front,a,rfl⟩ : ∃ front a, data = front ++ [a] := by
    refine ⟨data.dropLast,data.getLast ?_,(List.dropLast_append_getLast _).symm⟩
    rintro rfl
    rw [List.length_nil] at h
    omega
  have hfront : front.length = 2*(k-1) := by
    rw [List.length_append, List.length_singleton] at h
    omega
  have hpair (b : Byte) : (pairValues bigValue (front ++ [a] ++ [b])).sum =
      (pairValues bigValue front).sum+(256*a.toNat+b.toNat) := by
    rw [List.append_assoc, pairValues_append bigValue _ hfront, List.sum_append]
    simp [pairValues, bigValue]
  rw [hpair, hpair, BitVec.ofNat_eq_ofNat, BitVec.toNat_ofNat, Nat.zero_mod]
  omega

/-- Only a zero byte leaves the checksum of an odd string what padding makes it. -/
theorem onesSum_last (data : List Byte) {k : Nat} (h : data.length+1 = 2*k) (b : Byte) :
    onesSum (WireFormat.bigWords (data ++ [b])) = onesSum (WireFormat.bigWords (data ++ [0])) ↔ b = 0 := by
  have hsum (b : Byte) : (onesSum (WireFormat.bigWords (data ++ [b]))).toNat =
      residue 65535 ((pairValues bigValue (data ++ [0])).sum+b.toNat) := by
    rw [onesSum_toNat (by decide), WireFormat.bigWords_values (k := k) (by simpa using h), pairValues_last h]
    rfl
  constructor
  · intro heq
    have hres := congrArg BitVec.toNat heq
    rw [hsum, hsum] at hres
    have hmod : (pairValues bigValue (data ++ [0])).sum+b.toNat ≡ (pairValues bigValue (data ++ [0])).sum+0
        [MOD 65535] := (residue_modEq 65535 _).symm.trans (hres ▸ residue_modEq 65535 _)
    have hb : b.toNat ≡ 0 [MOD 65535] := Nat.ModEq.add_left_cancel' _ hmod
    have hlt := b.isLt
    exact BitVec.eq_of_toNat_eq (Nat.ModEq.eq_of_lt_of_lt hb (by omega) (by decide))
  · rintro rfl
    rfl

theorem ipv4check_even {mem : List Byte} {n : Nat} (hn1 : 1 ≤ n) (hn : n ≤ 65535) (heven : n % 2 = 0)
    (hm : n ≤ mem.length) : ipv4check mem n = some (onesChecksum (mem.take n)) := by
  obtain ⟨k,rfl⟩ : ∃ k, n = 2*k := ⟨n/2,by omega⟩
  have hlen : (mem.take (2*k)).length = 2*k := List.length_take_of_le hm
  rw [ipv4check_words (even_rounds (by omega)) hm (by omega) (by omega), onesChecksum, padded,
    if_pos (by rw [hlen]; exact heven)]

/-- An odd length gives the checksum exactly when the byte behind the buffer is there and zero. -/
theorem ipv4check_odd {mem : List Byte} {n : Nat} (hn : n ≤ 65535) (hodd : n % 2 = 1) (hm : n ≤ mem.length) :
    ipv4check mem n = some (onesChecksum (mem.take n)) ↔ mem[n]? = some 0 := by
  obtain ⟨k,hk⟩ : ∃ k, n+1 = 2*k := ⟨(n+1)/2,by omega⟩
  have hlen : (mem.take n).length = n := List.length_take_of_le hm
  have hpad : padded (mem.take n) = mem.take n ++ [0] := if_neg (by rw [hlen]; omega)
  rcases Nat.eq_or_lt_of_le hm with hend | hlt
  · rw [ipv4check_outside hk hend.symm, List.getElem?_eq_none hend.ge]
    simp
  · have hsplit : mem.take (2*k) = mem.take n ++ [mem[n]] := by rw [← hk, List.take_succ_eq_append_getElem hlt]
    have hlast := onesSum_last (mem.take n) (by rw [hlen]; exact hk) mem[n]
    rw [ipv4check_words (odd_rounds hk) (by omega) (by omega) (by omega), hsplit, onesChecksum, hpad,
      List.getElem?_eq_getElem hlt, Option.some_inj, Option.some_inj, ← hlast]
    exact ⟨fun h => BitVec.not_inj.mp (htons_injective h),fun h => by rw [h]⟩

/-- For every length and every two memories: the answers are the checksum of the common bytes
exactly for an even length, or where both memories go on with a zero byte. -/
theorem ipv4check_buffer_only {n : Nat} {mem mem' : List Byte} (hn1 : 1 ≤ n) (hn : n ≤ 65535)
    (hm : n ≤ mem.length) (hm' : n ≤ mem'.length) (hagree : mem.take n = mem'.take n) :
    BufferOnly n mem mem' ↔ n % 2 = 0 ∨ (mem[n]? = some 0 ∧ mem'[n]? = some 0) := by
  rcases Nat.mod_two_eq_zero_or_one n with heven | hodd
  · refine iff_of_true ⟨?_,ipv4check_even hn1 hn heven hm⟩ (.inl heven)
    rw [ipv4check_even hn1 hn heven hm, ipv4check_even hn1 hn heven hm', hagree]
  · rw [← ipv4check_odd hn hodd hm, ← ipv4check_odd hn hodd hm', ← hagree]
    constructor
    · rintro ⟨hsame,hsum⟩
      exact .inr ⟨hsum,hsame ▸ hsum⟩
    · rintro (heven | ⟨hsum,hsum'⟩)
      · omega
      · exact ⟨hsum.trans hsum'.symm,hsum⟩

/-- Three bytes, followed by a zero byte in both memories. -/
theorem ipv4check_buffer_only_three : BufferOnly 3 [0x45, 0x00, 0x12, 0x00, 0x01] [0x45, 0x00, 0x12, 0x00] := by
  refine (ipv4check_buffer_only ?_ ?_ ?_ ?_ ?_).mpr (.inr ⟨rfl,rfl⟩) <;> decide

/-- One byte of data, and a byte behind it that differs between the memories. -/
theorem ipv4check_reads_behind :
    ¬ ∀ n mem mem', 1 ≤ n → n ≤ 65535 → n ≤ mem.length → n ≤ mem'.length → mem.take n = mem'.take n →
      BufferOnly n mem mem' := by
  intro hall
  obtain ⟨hsame,-⟩ := hall 1 [0, 0] [0, 1] (by decide) (by decide) (by decide) (by decide) rfl
  exact absurd hsame (by decide)

end IbverbPrototype.Udp
