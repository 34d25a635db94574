import IbverbPrototype.Foundations.EventSystem
import Mathlib.Data.List.Perm.Basic
import Mathlib.Data.List.Sort

/-! A channel that may lose what it carries, let it overtake and double it, and makes nothing
up. An item is known by its number, the place it has among all that was sent. -/
namespace IbverbPrototype.Foundations.LossyChannel
open EventSystem

variable {α σ ε : Type}

/-- The items sent, and the numbers of those under way, arrived and lost. -/
structure Channel (α : Type) where
  sent : List α
  inFlight : List Nat
  arrived : List Nat
  lost : List Nat

def Channel.empty : Channel α := ⟨[], [], [], []⟩

def Channel.send (c : Channel α) (a : α) : Channel α :=
  { c with sent := c.sent ++ [a], inFlight := c.inFlight ++ [c.sent.length] }

/-- What can happen to the i-th item under way. -/
inductive Carry where
  | deliver (i : Nat)
  | lose (i : Nat)
  | double (i : Nat)
  deriving DecidableEq

def Channel.carry (c : Channel α) : Carry → Option (Channel α)
  | .deliver i => c.inFlight[i]?.map (fun m =>
      { c with inFlight := c.inFlight.eraseIdx i, arrived := c.arrived ++ [m] })
  | .lose i => c.inFlight[i]?.map (fun m => { c with inFlight := c.inFlight.eraseIdx i, lost := c.lost ++ [m] })
  | .double i => c.inFlight[i]?.map (fun m => { c with inFlight := c.inFlight ++ [m] })

inductive Move (α : Type) where
  | send (a : α)
  | carry (w : Carry)

def move (c : Channel α) : Move α → Option (Channel α)
  | .send a => some (c.send a)
  | .carry w => c.carry w

/-- What a kind of network does to its items. -/
def Move.keeps (network : Carry → Bool) : Move α → Bool
  | .send _ => true
  | .carry w => network w

/-- Nothing is doubled. -/
def undoubled : Carry → Bool
  | .double _ => false
  | .deliver _ | .lose _ => true

/-- Nothing is doubled, and what arrives is the oldest item under way. -/
def inOrder : Carry → Bool
  | .double _ => false
  | .deliver i => i = 0
  | .lose _ => true

theorem undoubled_of_inOrder (w : Carry) (h : inOrder w = true) : undoubled w = true := by
  cases w with
  | deliver i | lose i => rfl
  | double i => cases h

inductive Moves (c : Channel α) : Move α → Channel α → Prop where
  | send (a : α) : Moves c (.send a) (c.send a)
  | deliver (i m : Nat) (hm : c.inFlight[i]? = some m) :
      Moves c (.carry (.deliver i)) { c with inFlight := c.inFlight.eraseIdx i, arrived := c.arrived ++ [m] }
  | lose (i m : Nat) (hm : c.inFlight[i]? = some m) :
      Moves c (.carry (.lose i)) { c with inFlight := c.inFlight.eraseIdx i, lost := c.lost ++ [m] }
  | double (i m : Nat) (hm : c.inFlight[i]? = some m) :
      Moves c (.carry (.double i)) { c with inFlight := c.inFlight ++ [m] }

theorem move_moves {c d : Channel α} {e : Move α} (h : move c e = some d) : Moves c e d := by
  cases e with
  | send a =>
    obtain rfl := Option.some_inj.mp h
    exact .send a
  | carry w =>
    cases w with
    | deliver i =>
      obtain ⟨m,hm,rfl⟩ := Option.map_eq_some_iff.mp h
      exact .deliver i m hm
    | lose i =>
      obtain ⟨m,hm,rfl⟩ := Option.map_eq_some_iff.mp h
      exact .lose i m hm
    | double i =>
      obtain ⟨m,hm,rfl⟩ := Option.map_eq_some_iff.mp h
      exact .double i m hm

/-- The numbers anything is known by. -/
def Channel.numbers (c : Channel α) : List Nat := c.arrived ++ c.inFlight ++ c.lost

/-- Whatever a channel does, all it carries was sent. -/
theorem reachable_authentic {c : Channel α} (h : Reachable move .empty c) : ∀ m ∈ c.numbers, m < c.sent.length := by
  refine h.invariant (I := fun c => ∀ m ∈ c.numbers, m < c.sent.length) (fun m hm => absurd hm List.not_mem_nil) ?_
  intro c d e hc hd m hm
  have hold := hc m
  simp only [Channel.numbers, List.mem_append] at hold hm
  cases move_moves hd with
  | send a =>
    simp only [Channel.send, List.mem_append, List.mem_singleton, List.length_append, List.length_singleton] at hm ⊢
    grind
  | deliver i k hk | lose i k hk =>
    have hin := List.mem_of_getElem? hk
    have hrest := (List.eraseIdx_sublist c.inFlight i).subset
    simp only [List.mem_append, List.mem_singleton] at hm
    grind
  | double i k hk =>
    have hin := List.mem_of_getElem? hk
    simp only [List.mem_append, List.mem_singleton] at hm
    grind

/-- And all that was sent is somewhere. -/
theorem reachable_placed {c : Channel α} (h : Reachable move .empty c) : ∀ m < c.sent.length, m ∈ c.numbers := by
  refine h.invariant (I := fun c => ∀ m < c.sent.length, m ∈ c.numbers) (fun m hm => absurd hm (Nat.not_lt_zero m)) ?_
  intro c d e hc hd m hm
  have hsplit : ∀ i k, c.inFlight[i]? = some k → m ∈ c.inFlight → m = k ∨ m ∈ c.inFlight.eraseIdx i := by
    intro i k hk hin
    obtain ⟨hi,rfl⟩ := List.getElem?_eq_some_iff.mp hk
    exact List.mem_cons.mp ((List.getElem_cons_eraseIdx_perm hi).mem_iff.mpr hin)
  have hold := hc m
  simp only [Channel.numbers, List.mem_append] at hold ⊢
  cases move_moves hd with
  | send a =>
    simp only [Channel.send, List.mem_append, List.mem_singleton, List.length_append, List.length_singleton] at hm ⊢
    rcases Nat.lt_or_eq_of_le (Nat.le_of_lt_succ hm) with hlt | rfl
    · grind
    · grind
  | deliver i k hk | lose i k hk | double i k hk =>
    have hwhere := hsplit i k hk
    simp only [List.mem_append, List.mem_singleton]
    grind

/-- Without doubling every item sent is at one place. -/
theorem reachable_once {c : Channel α} (h : Reachable (restrict (Move.keeps undoubled) move) .empty c) :
    c.numbers.Perm (List.range c.sent.length) := by
  refine h.invariant (I := fun c => c.numbers.Perm (List.range c.sent.length)) (List.Perm.refl _) ?_
  intro c d e hc hd
  obtain ⟨hkeeps,hmove⟩ := restrict_eq_some.mp hd
  cases move_moves hmove with
  | send a =>
    rw [Channel.send, List.length_append, List.length_singleton, List.range_succ]
    refine List.Perm.trans ?_ (hc.append_right _)
    simp only [Channel.numbers, List.append_assoc]
    exact List.Perm.append_left _ (List.Perm.append_left _ List.perm_append_comm)
  | deliver i m hm =>
    refine List.Perm.trans ?_ hc
    obtain ⟨hi,rfl⟩ := List.getElem?_eq_some_iff.mp hm
    simp only [Channel.numbers, List.append_assoc]
    exact List.Perm.append_left _ ((List.getElem_cons_eraseIdx_perm hi).append_right _)
  | lose i m hm =>
    refine List.Perm.trans ?_ hc
    obtain ⟨hi,rfl⟩ := List.getElem?_eq_some_iff.mp hm
    simp only [Channel.numbers, List.append_assoc]
    refine List.Perm.append_left _ (List.Perm.trans ?_ ((List.getElem_cons_eraseIdx_perm hi).append_right _))
    rw [← List.append_assoc]
    exact List.perm_append_comm
  | double i m hm => cases hkeeps

/-- Without doubling and overtaking the numbers that arrived and those under way only grow. -/
theorem reachable_ordered {c : Channel α} (h : Reachable (restrict (Move.keeps inOrder) move) .empty c) :
    (c.arrived ++ c.inFlight).Pairwise (· < ·) := by
  induction h with
  | start => exact List.Pairwise.nil
  | @next c d e hc hd ih =>
    obtain ⟨hkeeps,hmove⟩ := restrict_eq_some.mp hd
    have hauthentic := reachable_authentic hc.unrestricted
    cases move_moves hmove with
    | send a =>
      rw [Channel.send, ← List.append_assoc, List.pairwise_append]
      refine ⟨ih,List.pairwise_singleton _ _,?_⟩
      intro m hm k hk
      obtain rfl := List.mem_singleton.mp hk
      exact hauthentic m (List.mem_append_left _ hm)
    | deliver i m hm =>
      obtain rfl : i = 0 := of_decide_eq_true hkeeps
      rw [List.eraseIdx_zero, List.append_assoc]
      obtain ⟨rest,hrest⟩ := List.head?_eq_some_iff.mp (List.head?_eq_getElem?.trans hm)
      rw [hrest] at ih ⊢
      exact ih
    | lose i m hm => exact ih.sublist ((List.eraseIdx_sublist _ _).append_left _)
    | double i m hm => cases hkeeps

theorem keeps_undoubled (e : Move α) (h : e.keeps inOrder = true) : e.keeps undoubled = true := by
  cases e with
  | send a => rfl
  | carry w => exact undoubled_of_inOrder w h

/-- A network in order that has lost nothing has delivered what was sent first. -/
theorem arrived_range {c : Channel α} (h : Reachable (restrict (Move.keeps inOrder) move) .empty c)
    (hlost : c.lost = []) : c.arrived = List.range c.arrived.length := by
  have honce := reachable_once (h.restrict_mono keeps_undoubled)
  rw [Channel.numbers, hlost, List.append_nil] at honce
  have hall : c.arrived ++ c.inFlight = List.range c.sent.length :=
    honce.eq_of_pairwise' (reachable_ordered h) List.pairwise_lt_range
  have hlen := honce.length_eq
  rw [List.length_append, List.length_range] at hlen
  have htake := congrArg (List.take c.arrived.length) hall
  rwa [List.take_left, List.take_range, Nat.min_eq_left (by omega)] at htake

/-- A network in order loses what it passes over: before an item that arrived, the lost ones
are those that did not arrive. -/
theorem lost_iff {c : Channel α} (h : Reachable (restrict (Move.keeps inOrder) move) .empty c) {k m : Nat}
    (hk : k ∈ c.arrived) (hm : m < k) : m ∈ c.lost ↔ m ∉ c.arrived := by
  have honce := reachable_once (h.restrict_mono keeps_undoubled)
  have hnodup := honce.nodup_iff.mpr List.nodup_range
  rw [Channel.numbers, List.append_assoc, List.nodup_append] at hnodup
  obtain ⟨-,-,hapart⟩ := hnodup
  constructor
  · intro hlost harrived
    exact hapart m harrived m (List.mem_append_right _ hlost) rfl
  · intro harrived
    have hsent : k < c.sent.length :=
      reachable_authentic h.unrestricted k (List.mem_append_left _ (List.mem_append_left _ hk))
    have hplace : m ∈ c.numbers := honce.mem_iff.mpr (List.mem_range.mpr (hm.trans hsent))
    rw [Channel.numbers, List.append_assoc, List.mem_append, List.mem_append] at hplace
    rcases hplace with hin | hflight | hlost
    · exact absurd hin harrived
    · have horder := (List.pairwise_append.mp (reachable_ordered h)).2.2 k hk m hflight
      omega
    · exact hlost

/-- A sender, each of its steps with what it hands to the channel. -/
structure Sender (σ ε α : Type) where
  origin : σ
  step : σ → ε → Option (σ × Option α)

/-- An invariant of a sender that has handed over k items, and what holds of the next one. -/
structure Sender.Keeps (S : Sender σ ε α) (I : Nat → σ → Prop) (P : Nat → α → Prop) : Prop where
  origin : I 0 S.origin
  step : ∀ k s e t out, I k s → S.step s e = some (t, out) → I (k+out.toList.length) t ∧ ∀ a ∈ out, P k a

theorem Sender.Keeps.mono {S : Sender σ ε α} {I : Nat → σ → Prop} {P Q : Nat → α → Prop} (hS : S.Keeps I P)
    (hPQ : ∀ k a, P k a → Q k a) : S.Keeps I Q where
  origin := hS.origin
  step := by
    intro k s e t out hs hstep
    obtain ⟨hI,hP⟩ := hS.step k s e t out hs hstep
    exact ⟨hI,fun a ha => hPQ k a (hP a ha)⟩

/-- A sender and its channel. -/
structure Link (σ α : Type) where
  sender : σ
  channel : Channel α

inductive LinkEvent (ε : Type) where
  | sender (e : ε)
  | carry (w : Carry)

def LinkEvent.keeps (network : Carry → Bool) : LinkEvent ε → Bool
  | .sender _ => true
  | .carry w => network w

def linkStep (S : Sender σ ε α) (l : Link σ α) : LinkEvent ε → Option (Link σ α)
  | .sender e => (S.step l.sender e).map (fun next => ⟨next.1, next.2.elim l.channel l.channel.send⟩)
  | .carry w => (l.channel.carry w).map (fun channel => { l with channel := channel })

def Sender.link (S : Sender σ ε α) : Link σ α := ⟨S.origin, .empty⟩

/-- The channel of a link does nothing its network does not. -/
theorem link_channel {S : Sender σ ε α} {network : Carry → Bool} {l : Link σ α}
    (h : Reachable (restrict (LinkEvent.keeps network) (linkStep S)) S.link l) :
    Reachable (restrict (Move.keeps network) move) .empty l.channel := by
  refine h.view (f := Link.channel) ?_
  intro l l' e _ hl
  obtain ⟨hkeeps,hstep⟩ := restrict_eq_some.mp hl
  cases e with
  | sender e =>
    obtain ⟨⟨s,out⟩,-,rfl⟩ := Option.map_eq_some_iff.mp hstep
    cases out with
    | none => exact .inl rfl
    | some a => exact .inr ⟨.send a,rfl⟩
  | carry w =>
    obtain ⟨channel,hchannel,rfl⟩ := Option.map_eq_some_iff.mp hstep
    exact .inr ⟨.carry w,restrict_eq_some.mpr ⟨hkeeps,hchannel⟩⟩

theorem carry_arrived {c d : Channel α} {w : Carry} (hw : ∀ i, w ≠ .deliver i) (h : c.carry w = some d) :
    d.arrived = c.arrived := by
  cases move_moves (e := .carry w) h with
  | deliver i => exact absurd rfl (hw i)
  | lose | double => rfl

theorem carry_sent {c d : Channel α} {w : Carry} (h : c.carry w = some d) : d.sent = c.sent := by
  cases move_moves (e := .carry w) h <;> rfl

/-- In a link the sender keeps its invariant, and what the network holds under a number is what
was handed over with it. -/
theorem Sender.Keeps.link {S : Sender σ ε α} {I : Nat → σ → Prop} {P : Nat → α → Prop} (hS : S.Keeps I P)
    {l : Link σ α} (h : Reachable (linkStep S) S.link l) :
    I l.channel.sent.length l.sender ∧ ∀ m a, l.channel.sent[m]? = some a → P m a := by
  refine h.invariant (I := fun l => I l.channel.sent.length l.sender ∧
    ∀ m a, l.channel.sent[m]? = some a → P m a) ⟨hS.origin,by rintro _ _ ⟨⟩⟩ ?_
  rintro l l' e ⟨hI,hP⟩ hstep
  cases e with
  | sender e =>
    obtain ⟨⟨s,out⟩,hs,rfl⟩ := Option.map_eq_some_iff.mp hstep
    obtain ⟨hI',hout⟩ := hS.step _ _ _ _ _ hI hs
    cases out with
    | none => exact ⟨hI',hP⟩
    | some b =>
      simp only [Option.elim_some, Channel.send, List.length_append, List.length_singleton]
      refine ⟨hI',?_⟩
      intro m a ha
      rw [List.getElem?_append] at ha
      split at ha
      · exact hP m a ha
      · obtain ⟨hm,rfl⟩ := List.getElem?_eq_some_iff.mp ha
        obtain rfl : m = l.channel.sent.length := by
          rw [List.length_singleton] at hm
          omega
        exact hout _ (by simp)
  | carry w =>
    obtain ⟨channel,hchannel,rfl⟩ := Option.map_eq_some_iff.mp hstep
    simp only [carry_sent hchannel]
    exact ⟨hI,hP⟩

end IbverbPrototype.Foundations.LossyChannel
