import Mathlib.Data.List.Sort
import Mathlib.Data.Nat.ModEq

/-! Growing numbers seen by their residues only, as a counter of few bits shows them. While
fewer than the modulus are missing in a row, the residues give the numbers back. -/
namespace IbverbPrototype.Foundations.SequenceNumbers
variable {w : Nat}

/-- The first number from the one due on that has the residue. -/
def firstWith (w due r : Nat) : Nat := due+(r+(w-due % w)) % w

def readBack (w : Nat) : Nat → List Nat → List Nat
  | _, [] => []
  | due, r::rs => firstWith w due r::readBack w (firstWith w due r+1) rs

/-- Each number is less than w after the one due. -/
def Close (w : Nat) : Nat → List Nat → Prop
  | _, [] => True
  | due, m::ms => due ≤ m ∧ m < due+w ∧ Close w (m+1) ms

/-- Of every w numbers in a row before one that is there, one is there. -/
def GapsUnder (w : Nat) (ms : List Nat) : Prop := ∀ a, ∀ m ∈ ms, a+w ≤ m → ∃ k ∈ ms, a ≤ k ∧ k < a+w

/-- A number is read back from its residue exactly when it is less than w after the one due. -/
theorem firstWith_eq_iff (hw : 0 < w) (due m : Nat) : firstWith w due (m % w) = m ↔ due ≤ m ∧ m < due+w := by
  have hlt : (m % w+(w-due % w)) % w < w := Nat.mod_lt _ hw
  unfold firstWith
  constructor
  · intro h
    omega
  · rintro ⟨hle,hnear⟩
    obtain ⟨d,rfl⟩ := Nat.exists_eq_add_of_le hle
    have hmod : (due+d) % w+(w-due % w) ≡ d [MOD w] := by
      refine Nat.ModEq.add_right_cancel' (due % w) ?_
      rw [Nat.add_assoc, Nat.sub_add_cancel (Nat.mod_lt due hw).le]
      calc (due+d) % w+w ≡ due+d [MOD w] := by rw [Nat.ModEq, Nat.add_mod_right, Nat.mod_mod]
        _ = d+due := Nat.add_comm due d
        _ ≡ d+due % w [MOD w] := (Nat.mod_modEq due w).symm.add_left d
    rw [Nat.mod_eq_of_modEq hmod (Nat.add_lt_add_iff_left.mp hnear)]

theorem readBack_residues (hw : 0 < w) (due : Nat) (ms : List Nat) :
    readBack w due (ms.map (· % w)) = ms ↔ Close w due ms := by
  induction ms generalizing due with
  | nil => exact iff_of_true rfl trivial
  | cons m ms ih =>
    rw [List.map_cons, readBack, List.cons.injEq, firstWith_eq_iff hw, Close, ← and_assoc]
    refine and_congr_right (fun hm => ?_)
    rw [(firstWith_eq_iff hw due m).mpr hm]
    exact ih (m+1)

/-- For growing numbers closeness says how many are missing in a row. -/
theorem close_iff {due : Nat} {ms : List Nat} (hms : ms.Pairwise (· < ·)) (hdue : ∀ m ∈ ms, due ≤ m) :
    Close w due ms ↔ ∀ a, due ≤ a → ∀ m ∈ ms, a+w ≤ m → ∃ k ∈ ms, a ≤ k ∧ k < a+w := by
  induction ms generalizing due with
  | nil => exact iff_of_true trivial (by rintro _ _ _ ⟨⟩)
  | cons m ms ih =>
    obtain ⟨hfirst,hrest⟩ := List.pairwise_cons.mp hms
    have hm := hdue m List.mem_cons_self
    rw [Close, ih hrest (fun x hx => hfirst x hx)]
    constructor
    · rintro ⟨-,hlt,hclose⟩ a ha x hx hle
      rcases Nat.lt_or_ge m a with hma | ham
      · rcases List.mem_cons.mp hx with rfl | hx
        · omega
        · obtain ⟨k,hk,hbounds⟩ := hclose a hma x hx hle
          exact ⟨k,List.mem_cons_of_mem m hk,hbounds⟩
      · exact ⟨m,List.mem_cons_self,ham,by omega⟩
    · intro hgaps
      refine ⟨hm,?_,?_⟩
      · by_contra hfar
        obtain ⟨k,hk,-,hlt⟩ := hgaps due le_rfl m List.mem_cons_self (Nat.not_lt.mp hfar)
        rcases List.mem_cons.mp hk with rfl | hk
        · exact hfar hlt
        · have := hfirst k hk
          omega
      · intro a ha x hx hle
        obtain ⟨k,hk,hak,hlt⟩ := hgaps a (by omega) x (List.mem_cons_of_mem m hx) hle
        rcases List.mem_cons.mp hk with rfl | hk
        · omega
        · exact ⟨k,hk,hak,hlt⟩

/-- Growing numbers are read back exactly when fewer than w are missing in a row. -/
theorem readBack_eq_iff (hw : 0 < w) {ms : List Nat} (hms : ms.Pairwise (· < ·)) :
    readBack w 0 (ms.map (· % w)) = ms ↔ GapsUnder w ms := by
  rw [readBack_residues hw, close_iff hms (fun m _ => Nat.zero_le m)]
  exact ⟨fun h a => h a (Nat.zero_le a),fun h a _ => h a⟩

/-- What is less than a number in a front of growing numbers is in that front or nowhere. -/
theorem mem_take_iff_of_lt {ms : List Nat} (hms : ms.Pairwise (· < ·)) {i k m : Nat} (hk : k ∈ ms.take i) (hm : m < k) :
    m ∈ ms.take i ↔ m ∈ ms := by
  refine ⟨List.mem_of_mem_take,?_⟩
  intro hin
  rw [← List.take_append_drop i ms] at hms hin
  rcases List.mem_append.mp hin with hfront | hrest
  · exact hfront
  · have horder := (List.pairwise_append.mp hms).2.2 k hk m hrest
    omega

end IbverbPrototype.Foundations.SequenceNumbers
