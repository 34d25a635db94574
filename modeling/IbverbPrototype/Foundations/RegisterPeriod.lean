import IbverbPrototype.Foundations.ShiftRegister
import Mathlib.Dynamics.PeriodicPts.Lemmas

/-! How long a shift register takes to come back to a state, computed by doubling, and what it
means for messages that differ at two places. -/
namespace IbverbPrototype.Foundations.ShiftRegister
open Function
variable {w : Nat} {poly : BitVec w}

/-- A number of steps that returns to the start, none of its quotients by a prime doing so, is the
least one. -/
theorem minimalPeriod_eq_of_quotients {α : Type} {f : α → α} {x : α} {n : Nat} (h : IsPeriodicPt f n x)
    (hquotients : ∀ p, p.Prime → p ∣ n → ¬ IsPeriodicPt f (n/p) x) : minimalPeriod f x = n := by
  obtain ⟨k,hk⟩ := h.minimalPeriod_dvd
  by_contra hne
  have hk1 : k ≠ 1 := by
    rintro rfl
    exact hne (hk.trans (Nat.mul_one _)).symm
  obtain ⟨p,hp,m,rfl⟩ := Nat.exists_prime_and_dvd hk1
  have hquotient : n/p = minimalPeriod f x*m := by
    rw [hk, ← Nat.mul_assoc, Nat.mul_right_comm, Nat.mul_div_cancel _ hp.pos]
  refine hquotients p hp ⟨minimalPeriod f x*m,?_⟩ ?_
  · rw [← Nat.mul_assoc, Nat.mul_comm p]
    exact hk.trans (Nat.mul_assoc _ _ _).symm
  · rw [hquotient]
    exact (isPeriodicPt_minimalPeriod f x).mul_const m

@[simp] theorem clock_zero (poly : BitVec w) : clock poly 0#w = 0#w := by simp [clock]

/-- The state that a single message bit leaves at the far end of the register. -/
def top (w : Nat) : BitVec w := BitVec.twoPow w (w-1)

/-- The clocks of b that the bits of a select, its top bit first. -/
def combine (poly : BitVec w) : Nat → BitVec w → BitVec w → BitVec w
  | 0, _, _ => 0#w
  | n+1, a, b => (if a.getLsbD (w-1) then b else 0#w) ^^^ combine poly n (a <<< 1) (clock poly b)

theorem combine_clock (n : Nat) (a b : BitVec w) :
    combine poly n a (clock poly b) = clock poly (combine poly n a b) := by
  induction n generalizing a b with
  | zero => exact (clock_zero poly).symm
  | succ n ih =>
    rw [combine, combine, clock_xor, ← ih]
    congr 1
    split
    · rfl
    · exact (clock_zero poly).symm

theorem combine_iterate (n k : Nat) (a b : BitVec w) :
    combine poly n a ((clock poly)^[k] b) = (clock poly)^[k] (combine poly n a b) := by
  induction k with
  | zero => rfl
  | succ k ih => rw [iterate_succ_apply', iterate_succ_apply', combine_clock, ih]

/-- From a power of two the clocks go through the powers below. -/
theorem clock_twoPow {n : Nat} (hn : n+1 < w) : clock poly (BitVec.twoPow w (n+1)) = BitVec.twoPow w n := by
  have hshift : BitVec.twoPow w (n+1) = BitVec.twoPow w n <<< 1 := by
    rw [BitVec.twoPow_eq, BitVec.twoPow_eq, BitVec.shiftLeft_add]
  rw [hshift]
  refine clock_shiftLeft poly _ ?_
  rw [BitVec.getLsbD_twoPow]
  simp only [Bool.and_eq_false_iff, decide_eq_false_iff_not]
  omega

theorem combine_twoPow {n : Nat} (hn : n ≤ w) (a : BitVec w) :
    combine poly n a (BitVec.twoPow w (n-1)) = a >>> (w-n) := by
  induction n generalizing a with
  | zero =>
    apply BitVec.eq_of_getLsbD_eq
    intro i hi
    simp [combine]
  | succ n ih =>
    have hrest : combine poly n (a <<< 1) (clock poly (BitVec.twoPow w n)) = (a <<< 1) >>> (w-n) := by
      cases n with
      | zero => exact ih (Nat.zero_le _) (a <<< 1)
      | succ n =>
        rw [clock_twoPow (by omega)]
        exact ih (by omega) (a <<< 1)
    rw [combine, Nat.add_sub_cancel, hrest]
    apply BitVec.eq_of_getLsbD_eq
    intro i hi
    simp only [BitVec.getLsbD_xor, BitVec.getLsbD_ushiftRight, BitVec.getLsbD_shiftLeft]
    -- bit n is the top bit of a, and what is below comes from the bits behind it
    have hselect : (if a.getLsbD (w-1) then BitVec.twoPow w n else 0#w).getLsbD i =
        (a.getLsbD (w-1) && decide (i = n)) := by
      cases a.getLsbD (w-1) <;> simp [hi, eq_comm]
    rw [hselect]
    rcases Nat.lt_trichotomy i n with hlt | rfl | hgt
    · have hplace : w-n+i-1 = w-(n+1)+i := by omega
      have hin : w-n+i < w := by omega
      have hbehind : ¬ w-n+i < 1 := by omega
      simp only [hlt.ne, decide_false, Bool.and_false, Bool.false_xor, hin, hbehind, decide_true, Bool.not_false,
        Bool.true_and, hplace]
    · have hplace : w-(i+1)+i = w-1 := by omega
      have hout : ¬ w-i+i < w := by omega
      simp [hplace, hout]
    · have hout : ¬ w-n+i < w := by omega
      rw [BitVec.getLsbD_of_ge a (w-(n+1)+i) (by omega)]
      simp [hgt.ne', hout]

theorem combine_top (a : BitVec w) : combine poly w a (top w) = a := by
  rw [top, combine_twoPow le_rfl, Nat.sub_self]
  exact BitVec.ushiftRight_zero a

/-- The top bit after m clocks, for m of at most as many binary digits as there is fuel. -/
def farClock (poly : BitVec w) : Nat → Nat → BitVec w
  | 0, _ => top w
  | fuel+1, m =>
    let half := farClock poly fuel (m/2)
    let double := combine poly w half half
    if m % 2 = 1 then clock poly double else double

theorem farClock_eq {fuel m : Nat} (hm : m < 2^fuel) : farClock poly fuel m = (clock poly)^[m] (top w) := by
  induction fuel generalizing m with
  | zero =>
    obtain rfl : m = 0 := Nat.lt_one_iff.mp hm
    rfl
  | succ fuel ih =>
    have hhalf := ih (m := m/2) (by omega)
    -- the bits of the half select clocks of the top bit, and the half comes that many clocks later
    have hdouble : combine poly w (farClock poly fuel (m/2)) (farClock poly fuel (m/2)) =
        (clock poly)^[m/2+m/2] (top w) := by
      conv_lhs => arg 4; rw [hhalf]
      rw [combine_iterate, combine_top, hhalf, iterate_add_apply]
    simp only [farClock, hdouble]
    split
    case isTrue hodd =>
      have hm' : m = m/2+m/2+1 := by omega
      conv_rhs => rw [hm', iterate_succ_apply']
    case isFalse heven =>
      have hm' : m = m/2+m/2 := by omega
      conv_rhs => rw [hm']

/-- The period of a register, from its clocks at the period and at its quotients by the primes. -/
theorem clock_period (fuel : Nat) {n : Nat} (hfuel : n < 2^fuel) (hn : 0 < n)
    (hreturn : farClock poly fuel n = top w)
    (hquotients : ∀ p, p.Prime → p ∣ n → farClock poly fuel (n/p) ≠ top w) :
    minimalPeriod (clock poly) 1#w = n := by
  have hperiod : minimalPeriod (clock poly) (top w) = n := by
    refine minimalPeriod_eq_of_quotients ?_ ?_
    · exact (farClock_eq hfuel).symm.trans hreturn
    · intro p hp hdvd hquotient
      exact hquotients p hp hdvd ((farClock_eq ((Nat.div_le_self n p).trans_lt hfuel)).trans hquotient)
  have hperiodic : top w ∈ periodicPts (clock poly) := by
    rw [← minimalPeriod_pos_iff_mem_periodicPts, hperiod]
    exact hn
  -- the top bit comes to the other end by shifts alone
  have hend : (clock poly)^[w-1] (top w) = 1#w := by
    rw [iterate_shift poly (top w) (w-1) (fun i hi => by
      rw [top, BitVec.getLsbD_twoPow]
      simp
      omega)]
    apply BitVec.eq_of_getLsbD_eq
    intro i hi
    rw [top, BitVec.getLsbD_ushiftRight, BitVec.getLsbD_twoPow]
    simp
  rw [← hend, minimalPeriod_apply_iterate hperiodic, hperiod]

/-- Where two messages first differ. -/
theorem exists_flip {xs ys : List Bool} (hl : xs.length = ys.length) {i : Nat} (hi : xs[i]? ≠ ys[i]?)
    (hbefore : ∀ k < i, xs[k]? = ys[k]?) :
    ∃ front b xs' ys', front.length = i ∧ xs = front ++ b::xs' ∧ ys = front ++ (!b)::ys' := by
  induction i generalizing xs ys with
  | zero =>
    cases xs with
    | nil => exact absurd (congrArg (·[0]?) (List.length_eq_zero_iff.mp hl.symm).symm) hi
    | cons b xs =>
      cases ys with
      | nil => cases hl
      | cons c ys =>
        obtain rfl : c = !b := by
          cases b <;> cases c <;> simp_all
        exact ⟨[],b,xs,ys,rfl,rfl,rfl⟩
  | succ i ih =>
    cases xs with
    | nil => exact absurd (congrArg (·[i+1]?) (List.length_eq_zero_iff.mp hl.symm).symm) hi
    | cons b xs =>
      cases ys with
      | nil => cases hl
      | cons c ys =>
        obtain rfl : b = c := Option.some_inj.mp (hbefore 0 (Nat.succ_pos i))
        obtain ⟨front,a,xs',ys',hfront,rfl,rfl⟩ := ih (Nat.succ_inj.mp hl) hi
          (fun k hk => hbefore (k+1) (Nat.succ_lt_succ hk))
        exact ⟨b::front,a,xs',ys',congrArg (·+1) hfront,rfl,rfl⟩

theorem word_flip (b : Bool) : (word [b] ^^^ word [!b] : BitVec w) = 1#w := by
  apply BitVec.eq_of_getLsbD_eq
  intro i hi
  rw [BitVec.getLsbD_xor, word_getLsbD, word_getLsbD, BitVec.getLsbD_one]
  cases i with
  | zero => cases b <;> simp [hi]
  | succ i => simp

theorem xor_xor_xor (s t x y : BitVec w) : (s ^^^ x) ^^^ (t ^^^ y) = (s ^^^ t) ^^^ (x ^^^ y) := by
  rw [BitVec.xor_assoc, BitVec.xor_assoc, ← BitVec.xor_assoc x t y, BitVec.xor_comm x t, BitVec.xor_assoc t x y]

/-- A bit that differs puts one bit into the difference of two states. -/
theorem feedBit_flip (poly s t : BitVec w) (b : Bool) :
    feedBit poly s b ^^^ feedBit poly t (!b) = clock poly (s ^^^ t ^^^ 1#w) := by
  rw [feedBit, feedBit, ← clock_xor, xor_xor_xor, word_flip]

/-- The same bits clock the difference. -/
theorem feed_xor_feed (s t : BitVec w) (bits : List Bool) :
    feed poly s bits ^^^ feed poly t bits = (clock poly)^[bits.length] (s ^^^ t) := by
  induction bits generalizing s t with
  | nil => rfl
  | cons b bits ih =>
    rw [feed_cons, feed_cons, ih, feedBit, feedBit, ← clock_xor, xor_xor_xor, BitVec.xor_self, BitVec.xor_zero,
      List.length_cons, iterate_succ_apply]

theorem getElem?_behind {front xs : List Bool} {b : Bool} (k : Nat) :
    (front ++ b::xs)[front.length+1+k]? = xs[k]? := by
  rw [List.getElem?_append_right (by omega)]
  have hplace : front.length+1+k-front.length = k+1 := by omega
  rw [hplace]
  rfl

/-- Two messages that differ at two places leave different states, unless the places are a period
apart. -/
theorem feed_ne_of_two_flips (s : BitVec w) (hw : 0 < w) (hp : poly.getLsbD (w-1) = true) {xs ys : List Bool}
    (hl : xs.length = ys.length) {i j : Nat} (hij : i < j) (hflips : ∀ k, xs[k]? ≠ ys[k]? ↔ k = i ∨ k = j)
    (hperiod : j-i < minimalPeriod (clock poly) 1#w) : feed poly s xs ≠ feed poly s ys := by
  have hsame : ∀ k, k ≠ i → k ≠ j → xs[k]? = ys[k]? := by
    intro k hki hkj
    by_contra hk
    exact ((hflips k).mp hk).elim hki hkj
  obtain ⟨front,b,xs',ys',rfl,rfl,rfl⟩ := exists_flip hl ((hflips i).mpr (.inl rfl))
    (fun k hk => hsame k hk.ne (hk.trans hij).ne)
  have hl' : xs'.length = ys'.length := by simpa using hl
  obtain ⟨m,rfl⟩ : ∃ m, j = front.length+1+m := ⟨j-(front.length+1),by omega⟩
  have hflip' := (hflips (front.length+1+m)).mpr (.inr rfl)
  rw [getElem?_behind, getElem?_behind] at hflip'
  have hsame' : ∀ k, k ≠ m → xs'[k]? = ys'[k]? := by
    intro k hk
    have hk' := hsame (front.length+1+k) (by omega) (by omega)
    rwa [getElem?_behind, getElem?_behind] at hk'
  obtain ⟨mid,c,back,back',rfl,rfl,rfl⟩ := exists_flip hl' hflip' (fun k hk => hsame' k hk.ne)
  obtain rfl : back = back' := by
    apply List.ext_getElem?
    intro k
    have hk := hsame' (mid.length+1+k) (by omega)
    rwa [getElem?_behind, getElem?_behind] at hk
  intro h
  rw [feed_append, feed_append, feed_cons, feed_cons, feed_append, feed_append, feed_cons, feed_cons] at h
  have hstates := feed_injective poly hw hp back h
  -- the first difference has gone round to where the second one meets it
  have hzero := feedBit_flip poly (feed poly (feedBit poly (feed poly s front) b) mid)
    (feed poly (feedBit poly (feed poly s front) (!b)) mid) c
  rw [hstates, BitVec.xor_self, feed_xor_feed, feedBit_flip, BitVec.xor_self, BitVec.zero_xor, ← iterate_succ_apply,
    ← clock_zero poly] at hzero
  have hmeet := BitVec.xor_eq_zero_iff.mp (clock_injective poly hw hp hzero).symm
  have hdistance : front.length+1+mid.length-front.length = mid.length.succ := by omega
  exact not_isPeriodicPt_of_pos_of_lt_minimalPeriod (Nat.succ_ne_zero _) (hdistance ▸ hperiod) hmeet

/-- The two places may be one. -/
theorem feed_ne_of_flips (s : BitVec w) (hw : 0 < w) (hp : poly.getLsbD (w-1) = true) {xs ys : List Bool}
    (hl : xs.length = ys.length) {i j : Nat} (hij : i ≤ j) (hflips : ∀ k, xs[k]? ≠ ys[k]? ↔ k = i ∨ k = j)
    (hperiod : j-i < minimalPeriod (clock poly) 1#w) : feed poly s xs ≠ feed poly s ys := by
  rcases Nat.lt_or_eq_of_le hij with hlt | rfl
  · exact feed_ne_of_two_flips s hw hp hl hlt hflips hperiod
  · refine feed_ne_of_window poly s hw hp hl ?_ i ?_
    · rintro rfl
      exact (hflips i).mpr (.inl rfl) rfl
    · intro k hk
      have hki := (hflips k).mp hk
      omega

end IbverbPrototype.Foundations.ShiftRegister
