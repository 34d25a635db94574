import Mathlib.Data.Nat.Digits.Defs

/-! The canonical text of an IPv6 address: hexadecimal groups between colons, the longest
run of at least two zero groups left out. Addresses are lists of group values. -/
namespace IbverbPrototype.Foundations.Ipv6Text

/-- Lower-case digits without leading zeros. -/
def hexText (g : Nat) : List Char := Nat.toDigits 16 g

/-- The digits of a group, by its size. -/
def hexDigits (g : Nat) : Nat := if g < 16 then 1 else if g < 256 then 2 else if g < 4096 then 3 else 4

def hexValue (c : Char) : Option Nat :=
  if '0' ≤ c ∧ c ≤ '9' then some (c.toNat-48)
  else if 'a' ≤ c ∧ c ≤ 'f' then some (c.toNat-87)
  else if 'A' ≤ c ∧ c ≤ 'F' then some (c.toNat-55)
  else none

def readDigits : List Char → Nat → Option Nat
  | [], acc => some acc
  | c::cs, acc => do readDigits cs (16*acc+(← hexValue c))

/-- A group of one to four digits. -/
def parseHex (cs : List Char) : Option Nat := if 1 ≤ cs.length ∧ cs.length ≤ 4 then readDigits cs 0 else none

def joinPieces : List (List Char) → List Char
  | [] => []
  | [p] => p
  | p::ps => p ++ ':' :: joinPieces ps

def splitPieces : List Char → List (List Char)
  | [] => [[]]
  | c::cs =>
    if c = ':' then []::splitPieces cs
    else match splitPieces cs with
      | [] => [[c]]
      | p::ps => (c::p)::ps

/-- Zero groups at the start. -/
def zeroRun : List Nat → Nat
  | 0::gs => zeroRun gs+1
  | _ => 0

/-- Where the first longest run of zero groups starts, and its length. -/
def longestRun : List Nat → Nat × Nat
  | [] => (0, 0)
  | g::gs =>
    let here := zeroRun (g::gs)
    let (i, len) := longestRun gs
    if len ≤ here then (0, here) else (i+1, len)

/-- The pieces between the colons; a run at either end leaves an empty piece there too. -/
def pieces (gs : List Nat) : List (List Char) :=
  let (i, len) := longestRun gs
  if len < 2 then gs.map hexText
  else (if i = 0 then [[]] else []) ++ (gs.take i).map hexText ++ [[]] ++ (gs.drop (i+len)).map hexText ++
    (if i+len = gs.length then [[]] else [])

def ipv6Text (gs : List Nat) : List Char := joinPieces (pieces gs)

/-- The pieces behind a double colon, which may end the text but not in a single colon. -/
def behindGap : List (List Char) → Option (List (List Char))
  | [] => none
  | [[]] => some []
  | ps => some ps

/-- Eight groups, or fewer around one double colon. -/
def parseIpv6 (text : List Char) : Option (List Nat) := do
  let ps := splitPieces text
  let before := ps.takeWhile (· ≠ [])
  match ps.dropWhile (· ≠ []) with
  | [] =>
    let gs ← before.mapM parseHex
    if gs.length = 8 then some gs else none
  | _::after =>
    let after ← match before, after with
      | [], []::rest => behindGap rest
      | [], _ => none
      | _, _ => behindGap after
    let high ← before.mapM parseHex
    let low ← after.mapM parseHex
    if high.length+low.length < 8 then
      some (high ++ List.replicate (8-(high.length+low.length)) 0 ++ low)
    else none

example : ipv6Text [0x2001, 0xdb8, 0, 0, 1, 0, 0, 1] = "2001:db8::1:0:0:1".toList := by decide

private theorem digit_value : ∀ d, d < 16 → hexValue (Nat.digitChar d) = some d ∧ Nat.digitChar d ≠ ':' := by decide

private theorem readDigits_append (xs ys : List Char) (acc : Nat) :
    readDigits (xs ++ ys) acc = (readDigits xs acc).bind (readDigits ys) := by
  induction xs generalizing acc with
  | nil => rfl
  | cons c xs ih =>
    rw [List.cons_append, readDigits, readDigits]
    cases hexValue c with
    | none => rfl
    | some d => exact ih _

/-- The digits of a number read back to it, and none of them is a colon. -/
theorem hexText_spec (g : Nat) : readDigits (hexText g) 0 = some g ∧ ':' ∉ hexText g := by
  induction g using Nat.strong_induction_on with
  | _ g ih =>
    rcases Nat.lt_or_ge g 16 with hlt | hge
    · obtain ⟨hvalue,hcolon⟩ := digit_value g hlt
      rw [hexText, Nat.toDigits_of_lt_base hlt]
      refine ⟨?_,?_⟩
      · simp [readDigits, hvalue]
      · simp [hcolon.symm]
    · obtain ⟨hvalue,hcolon⟩ := digit_value (g % 16) (Nat.mod_lt _ (by omega))
      obtain ⟨hread,hnone⟩ := ih (g/16) (by omega)
      rw [hexText] at hread hnone
      rw [hexText, Nat.toDigits_of_base_le (by omega) hge]
      refine ⟨?_,?_⟩
      · rw [readDigits_append, hread]
        simp only [Option.bind_some, readDigits, hvalue, Option.bind_eq_bind]
        congr 1
        omega
      · rw [List.mem_append, not_or]
        exact ⟨hnone,by simp [hcolon.symm]⟩

theorem hexText_length {g : Nat} (h : g < 65536) : (hexText g).length = hexDigits g := by
  have hle (e : Nat) (he : 0 < e) : (hexText g).length ≤ e ↔ g < 16^e := Nat.length_toDigits_le_iff (by omega) he
  have hpos : 0 < (hexText g).length := Nat.length_toDigits_pos
  have h1 := hle 1 (by omega)
  have h2 := hle 2 (by omega)
  have h3 := hle 3 (by omega)
  have h4 := hle 4 (by omega)
  unfold hexDigits
  split_ifs <;> omega

theorem hexDigits_bounds (g : Nat) : 1 ≤ hexDigits g ∧ hexDigits g ≤ 4 := by
  unfold hexDigits
  split_ifs <;> omega

theorem parseHex_hexText {g : Nat} (h : g < 65536) : parseHex (hexText g) = some g := by
  have hb := hexDigits_bounds g
  rw [← hexText_length h] at hb
  rw [parseHex, if_pos hb]
  exact (hexText_spec g).1

theorem mapM_parseHex {gs : List Nat} (h : ∀ g ∈ gs, g < 65536) : (gs.map hexText).mapM parseHex = some gs := by
  induction gs with
  | nil => rfl
  | cons g gs ih =>
    rw [List.map_cons, List.mapM_cons, parseHex_hexText (h g List.mem_cons_self),
      ih (fun g' hg => h g' (List.mem_cons_of_mem _ hg))]
    rfl

private theorem splitPieces_append {p cs : List Char} (h : ':' ∉ p) :
    splitPieces (p ++ ':' :: cs) = p :: splitPieces cs := by
  induction p with
  | nil => rfl
  | cons c p ih =>
    rw [List.mem_cons, not_or] at h
    obtain ⟨hc,hp⟩ := h
    rw [List.cons_append, splitPieces, if_neg (Ne.symm hc), ih hp]

private theorem splitPieces_single {p : List Char} (h : ':' ∉ p) : splitPieces p = [p] := by
  induction p with
  | nil => rfl
  | cons c p ih =>
    rw [List.mem_cons, not_or] at h
    obtain ⟨hc,hp⟩ := h
    rw [splitPieces, if_neg (Ne.symm hc), ih hp]

/-- Splitting undoes joining when no piece holds a colon. -/
theorem splitPieces_join {ps : List (List Char)} (hne : ps ≠ []) (h : ∀ p ∈ ps, ':' ∉ p) :
    splitPieces (joinPieces ps) = ps := by
  induction ps with
  | nil => exact absurd rfl hne
  | cons p ps ih =>
    have hp := h p List.mem_cons_self
    cases ps with
    | nil => exact splitPieces_single hp
    | cons p' ps =>
      rw [joinPieces, splitPieces_append hp, ih (List.cons_ne_nil _ _) (fun q hq => h q (List.mem_cons_of_mem _ hq))]
      exact List.cons_ne_nil _ _

theorem joinPieces_length {ps : List (List Char)} (hne : ps ≠ []) :
    (joinPieces ps).length+1 = (ps.map List.length).sum+ps.length := by
  induction ps with
  | nil => exact absurd rfl hne
  | cons p ps ih =>
    cases ps with
    | nil => simp [joinPieces]
    | cons p' ps =>
      have hrest := ih (List.cons_ne_nil _ _)
      rw [joinPieces, List.length_append, List.length_cons]
      · rw [List.map_cons, List.sum_cons, List.length_cons]
        omega
      · exact List.cons_ne_nil _ _

theorem zeroRun_split (gs : List Nat) :
    zeroRun gs ≤ gs.length ∧ gs = List.replicate (zeroRun gs) 0 ++ gs.drop (zeroRun gs) := by
  fun_induction zeroRun gs with
  | case1 gs ih =>
    obtain ⟨hle,hsplit⟩ := ih
    refine ⟨Nat.succ_le_succ hle,?_⟩
    rw [List.replicate_succ, List.cons_append, List.drop_succ_cons, ← hsplit]
  | case2 gs => exact ⟨Nat.zero_le _,rfl⟩

/-- The longest run lies in the list and consists of zeros. -/
theorem longestRun_split (gs : List Nat) :
    (longestRun gs).1+(longestRun gs).2 ≤ gs.length ∧
    gs = gs.take (longestRun gs).1 ++ List.replicate (longestRun gs).2 0 ++
      gs.drop ((longestRun gs).1+(longestRun gs).2) := by
  induction gs with
  | nil => exact ⟨le_rfl,rfl⟩
  | cons g gs ih =>
    obtain ⟨hle,hsplit⟩ := ih
    simp only [longestRun]
    split
    · obtain ⟨hhere,hrun⟩ := zeroRun_split (g::gs)
      rw [Nat.zero_add]
      exact ⟨hhere,hrun⟩
    · refine ⟨?_,?_⟩
      · rw [List.length_cons]
        omega
      · rw [List.take_succ_cons, Nat.add_right_comm, List.drop_succ_cons, List.cons_append, List.cons_append,
          ← hsplit]

/-- No run of zeros, wherever it starts, is longer. -/
theorem zeroRun_le_longestRun (gs : List Nat) (i : Nat) : zeroRun (gs.drop i) ≤ (longestRun gs).2 := by
  induction gs generalizing i with
  | nil =>
    rw [List.drop_nil]
    exact le_rfl
  | cons g gs ih =>
    simp only [longestRun]
    cases i with
    | zero =>
      split
      · exact le_rfl
      · rw [List.drop_zero]
        omega
    | succ i =>
      have hrest := ih i
      rw [List.drop_succ_cons]
      split <;> omega

/-- Two adjacent groups are zero. -/
def ZeroPair (gs : List Nat) : Prop := ∃ i, gs[i]? = some 0 ∧ gs[i+1]? = some 0

theorem zeroPair_iff (gs : List Nat) : ZeroPair gs ↔ 2 ≤ (longestRun gs).2 := by
  constructor
  · rintro ⟨i,h0,h1⟩
    refine le_trans ?_ (zeroRun_le_longestRun gs i)
    obtain ⟨hi,h0⟩ := List.getElem?_eq_some_iff.mp h0
    obtain ⟨hi',h1⟩ := List.getElem?_eq_some_iff.mp h1
    rw [List.drop_eq_getElem_cons hi, List.drop_eq_getElem_cons hi', h0, h1]
    simp only [zeroRun]
    omega
  · intro hlen
    obtain ⟨hle,hsplit⟩ := longestRun_split gs
    obtain ⟨⟨i,len⟩,hrun⟩ : ∃ r, longestRun gs = r := ⟨_,rfl⟩
    rw [hrun] at hlen hle hsplit
    have htake : (gs.take i).length = i := List.length_take_of_le (by omega)
    have hzero (d : Nat) (hd : d < len) : gs[i+d]? = some 0 := by
      have hrep : (List.replicate len 0)[d]? = some 0 := by simp [hd]
      calc gs[i+d]? = (gs.take i ++ (List.replicate len 0 ++ gs.drop (i+len)))[i+d]? := by
            rw [← List.append_assoc, ← hsplit]
        _ = (List.replicate len 0 ++ gs.drop (i+len))[d]? := by
            rw [List.getElem?_append_right (by omega), htake, Nat.add_sub_cancel_left]
        _ = some 0 := by rw [List.getElem?_append_left (by simpa using hd), hrep]
    exact ⟨i,hzero 0 (by omega),hzero 1 (by omega)⟩

private theorem hexText_ne_nil (g : Nat) : hexText g ≠ [] := Nat.toDigits_ne_nil

private theorem map_hexText_ne_nil {gs : List Nat} {p : List Char} (h : p ∈ gs.map hexText) : p ≠ [] := by
  obtain ⟨g,-,rfl⟩ := List.mem_map.mp h
  exact hexText_ne_nil g

private theorem pieces_no_colon (gs : List Nat) : ∀ p ∈ pieces gs, ':' ∉ p := by
  have hmap (xs : List Nat) : ∀ p ∈ xs.map hexText, ':' ∉ p := by
    intro p hp
    obtain ⟨g,-,rfl⟩ := List.mem_map.mp hp
    exact (hexText_spec g).2
  have hif (c : Prop) [Decidable c] : ∀ p ∈ (if c then [[]] else [] : List (List Char)), ':' ∉ p := by
    intro p hp
    split at hp
    · obtain rfl := List.mem_singleton.mp hp
      exact List.not_mem_nil
    · cases hp
  intro p hp
  simp only [pieces] at hp
  split at hp
  · exact hmap gs p hp
  · simp only [List.mem_append, or_assoc] at hp
    obtain h | h | h | h | h := hp
    · exact hif _ p h
    · exact hmap _ p h
    · obtain rfl := List.mem_singleton.mp h
      exact List.not_mem_nil
    · exact hmap _ p h
    · exact hif _ p h

private theorem pieces_ne_nil {gs : List Nat} (h : gs ≠ []) : pieces gs ≠ [] := by
  simp only [pieces]
  split
  · simpa using h
  · simp

private theorem behindGap_map {xs : List Nat} (h : xs ≠ []) :
    behindGap (xs.map hexText) = some (xs.map hexText) := by
  cases xs with
  | nil => exact absurd rfl h
  | cons x xs =>
    rw [List.map_cons, behindGap]
    · exact List.cons_ne_nil _ _
    · intro heq
      exact hexText_ne_nil x (List.cons.inj heq).1

private theorem behindGap_tail {gs : List Nat} {k : Nat} (hk : k ≤ gs.length) :
    behindGap ((gs.drop k).map hexText ++ if k = gs.length then [[]] else []) = some ((gs.drop k).map hexText) := by
  split
  · rename_i h
    rw [h, List.drop_length]
    rfl
  · rw [List.append_nil]
    refine behindGap_map ?_
    intro h
    have := List.drop_eq_nil_iff.mp h
    omega

private theorem before_gap (xs : List Nat) (ps : List (List Char)) :
    (xs.map hexText ++ ps).takeWhile (· ≠ []) = xs.map hexText ++ ps.takeWhile (· ≠ []) ∧
    (xs.map hexText ++ ps).dropWhile (· ≠ []) = ps.dropWhile (· ≠ []) := by
  have hall : ∀ p ∈ xs.map hexText, decide (p ≠ []) = true := fun p hp => decide_eq_true (map_hexText_ne_nil hp)
  exact ⟨List.takeWhile_append_of_pos hall,List.dropWhile_append_of_pos hall⟩

private theorem parse_plain {gs : List Nat} (hlen : gs.length = 8) (h : ∀ g ∈ gs, g < 65536)
    (hrun : (longestRun gs).2 < 2) : parseIpv6 (ipv6Text gs) = some gs := by
  have hpieces : pieces gs = gs.map hexText := by
    simp only [pieces]
    exact if_pos hrun
  have hne : gs ≠ [] := List.ne_nil_of_length_pos (by omega)
  obtain ⟨htake,hdrop⟩ := before_gap gs []
  rw [List.append_nil] at htake hdrop
  rw [parseIpv6, ipv6Text, splitPieces_join (pieces_ne_nil hne) (pieces_no_colon gs), hpieces]
  simp only [htake, hdrop, List.takeWhile_nil, List.dropWhile_nil, List.append_nil, mapM_parseHex h,
    Option.bind_eq_bind, Option.bind_some, if_pos hlen]

private theorem parse_gap {gs : List Nat} (hlen : gs.length = 8) (h : ∀ g ∈ gs, g < 65536)
    (hrun : 2 ≤ (longestRun gs).2) : parseIpv6 (ipv6Text gs) = some gs := by
  obtain ⟨hle,hsplit⟩ := longestRun_split gs
  have hne : gs ≠ [] := List.ne_nil_of_length_pos (by omega)
  have hps : splitPieces (ipv6Text gs) = pieces gs := splitPieces_join (pieces_ne_nil hne) (pieces_no_colon gs)
  have hlong : ¬ (longestRun gs).2 < 2 := Nat.not_lt.mpr hrun
  simp only [pieces, if_neg hlong] at hps
  obtain ⟨⟨i,len⟩,hr⟩ : ∃ r, longestRun gs = r := ⟨_,rfl⟩
  rw [hr] at hle hsplit hrun hps
  simp only at hle hsplit hrun hps
  have hhigh : ((gs.take i).map hexText).mapM parseHex = some (gs.take i) :=
    mapM_parseHex (fun g hg => h g (List.mem_of_mem_take hg))
  have hlow : ((gs.drop (i+len)).map hexText).mapM parseHex = some (gs.drop (i+len)) :=
    mapM_parseHex (fun g hg => h g (List.mem_of_mem_drop hg))
  have htail := behindGap_tail hle
  have hlt : (gs.take i).length+(gs.drop (i+len)).length < 8 := by
    rw [List.length_take, List.length_drop]
    omega
  have hfill : 8-((gs.take i).length+(gs.drop (i+len)).length) = len := by
    rw [List.length_take, List.length_drop]
    omega
  rw [parseIpv6, hps]
  cases i with
  | zero =>
    simp only [List.take_zero, List.map_nil, List.length_nil, List.nil_append, Nat.zero_add, if_true,
      List.cons_append] at hsplit hlow htail hlt hfill ⊢
    rw [List.takeWhile_cons_of_neg (by simp), List.dropWhile_cons_of_neg (by simp)]
    simp only [htail, hlow, List.mapM_nil, Option.pure_def, Option.bind_eq_bind, Option.bind_some, List.length_nil,
      Nat.zero_add, if_pos hlt, hfill, List.nil_append, ← hsplit]
  | succ i =>
    obtain ⟨x,xs,hx⟩ : ∃ x xs, gs.take (i+1) = x::xs := List.exists_cons_of_length_pos (by
      rw [List.length_take]
      omega)
    rw [hx] at hsplit hhigh hlt hfill
    rw [hx, if_neg (Nat.succ_ne_zero i), List.nil_append, List.append_assoc, List.append_assoc, (before_gap _ _).1,
      (before_gap _ _).2, List.singleton_append, List.takeWhile_cons_of_neg (by simp),
      List.dropWhile_cons_of_neg (by simp), List.append_nil]
    simp only [List.map_cons] at hhigh ⊢
    simp only [htail, hhigh, hlow, Option.bind_eq_bind, Option.bind_some, if_pos hlt, hfill, ← hsplit]

/-- Every canonical text reads back to its eight groups. -/
theorem parseIpv6_text {gs : List Nat} (hlen : gs.length = 8) (h : ∀ g ∈ gs, g < 65536) :
    parseIpv6 (ipv6Text gs) = some gs := by
  rcases Nat.lt_or_ge (longestRun gs).2 2 with hrun | hrun
  · exact parse_plain hlen h hrun
  · exact parse_gap hlen h hrun

private theorem digits_sum {gs : List Nat} (h : ∀ g ∈ gs, g < 65536) :
    ((gs.map hexText).map List.length).sum = (gs.map hexDigits).sum := by
  rw [List.map_map]
  congr 1
  exact List.map_congr_left (fun g hg => hexText_length (h g hg))

private theorem digits_le (gs : List Nat) : (gs.map hexDigits).sum ≤ 4*gs.length := by
  induction gs with
  | nil => exact le_rfl
  | cons g gs ih =>
    have hb := hexDigits_bounds g
    rw [List.map_cons, List.sum_cons, List.length_cons]
    omega

/-- The text fits 32 characters exactly when two adjacent groups are zero or all groups
together have at most 25 digits. -/
theorem ipv6Text_length {gs : List Nat} (hlen : gs.length = 8) (h : ∀ g ∈ gs, g < 65536) :
    (ipv6Text gs).length ≤ 32 ↔ ZeroPair gs ∨ (gs.map hexDigits).sum ≤ 25 := by
  have hne : gs ≠ [] := List.ne_nil_of_length_pos (by omega)
  have htext := joinPieces_length (pieces_ne_nil hne)
  rw [zeroPair_iff]
  change (joinPieces (pieces gs)).length ≤ 32 ↔ _
  rcases Nat.lt_or_ge (longestRun gs).2 2 with hrun | hrun
  · have hpieces : pieces gs = gs.map hexText := by
      simp only [pieces]
      exact if_pos hrun
    rw [hpieces, digits_sum h, List.length_map, hlen] at htext
    rw [hpieces]
    omega
  · obtain ⟨hle,-⟩ := longestRun_split gs
    have hhigh := digits_le (gs.take (longestRun gs).1)
    have hlow := digits_le (gs.drop ((longestRun gs).1+(longestRun gs).2))
    rw [← digits_sum (fun g hg => h g (List.mem_of_mem_take hg)), List.length_take] at hhigh
    rw [← digits_sum (fun g hg => h g (List.mem_of_mem_drop hg)), List.length_drop] at hlow
    have hif (c : Prop) [Decidable c] : ((if c then [[]] else [] : List (List Char)).map List.length).sum = 0 ∧
        (if c then [[]] else [] : List (List Char)).length ≤ 1 := by
      split <;> simp
    obtain ⟨hlead,hlead'⟩ := hif ((longestRun gs).1 = 0)
    obtain ⟨htail,htail'⟩ := hif ((longestRun gs).1+(longestRun gs).2 = gs.length)
    refine iff_of_true ?_ (.inl hrun)
    have hlong : ¬ (longestRun gs).2 < 2 := Nat.not_lt.mpr hrun
    simp only [pieces, if_neg hlong, List.map_append, List.sum_append,
      List.length_append, hlead, htail, List.map_singleton, List.sum_singleton, List.length_nil,
      List.length_singleton, List.length_map, List.length_take, List.length_drop] at htext ⊢
    omega

end IbverbPrototype.Foundations.Ipv6Text
