import IbverbPrototype.Foundations.LossyChannel

/-! Loops that go on while a flag is set. The flag is cleared at any moment; the loop sees it where
it tests it. -/
namespace IbverbPrototype.Foundations.FlaggedLoop
open EventSystem LossyChannel

variable {σ α : Type} {round : σ → α → Option (σ × Bool)} {origin : σ}

/-- Before the test of the flag, in the round behind it, or out of the loop: by the flag, or by a
round that failed. -/
inductive Phase where
  | test
  | round
  | left
  | failed
  deriving DecidableEq

structure Loop (σ : Type) where
  state : σ
  flag : Bool
  phase : Phase

inductive LoopEvent (α : Type) where
  | signal
  | test
  | round (answer : α)

/-- A round says whether the loop goes on after it; none is undefined behaviour. -/
def loopStep (round : σ → α → Option (σ × Bool)) (s : Loop σ) : LoopEvent α → Option (Loop σ)
  | .signal => some { s with flag := false }
  | .test => if s.phase = .test then some { s with phase := if s.flag then .round else .left } else none
  | .round answer =>
    if s.phase = .round then
      (round s.state answer).map (fun next =>
        { s with state := next.1, phase := if next.2 then .test else .failed })
    else none

def entering (origin : σ) : Loop σ := ⟨origin, true, .test⟩

/-- A round the loop goes on after. -/
def onward (round : σ → α → Option (σ × Bool)) (s : σ) (answer : α) : Option σ :=
  (round s answer).bind (fun next => if next.2 then some next.1 else none)

def LoopEvent.answer : LoopEvent α → Option α
  | .round answer => some answer
  | .signal | .test => none

/-- What the rounds of a run were answered. -/
def answers (es : List (LoopEvent α)) : List α := es.filterMap LoopEvent.answer

inductive LoopSteps (round : σ → α → Option (σ × Bool)) (s : Loop σ) : LoopEvent α → Loop σ → Prop where
  | signal : LoopSteps round s .signal { s with flag := false }
  | enter (hphase : s.phase = .test) (hflag : s.flag = true) : LoopSteps round s .test { s with phase := .round }
  | leave (hphase : s.phase = .test) (hflag : s.flag = false) : LoopSteps round s .test { s with phase := .left }
  | onward (answer : α) (state : σ) (hphase : s.phase = .round) (hround : round s.state answer = some (state, true)) :
      LoopSteps round s (.round answer) { s with state := state, phase := .test }
  | fail (answer : α) (state : σ) (hphase : s.phase = .round) (hround : round s.state answer = some (state, false)) :
      LoopSteps round s (.round answer) { s with state := state, phase := .failed }

theorem loopStep_steps {s t : Loop σ} {e : LoopEvent α} (h : loopStep round s e = some t) : LoopSteps round s e t := by
  cases e with
  | signal =>
    obtain rfl := Option.some_inj.mp h
    exact .signal
  | test =>
    simp only [loopStep, Option.ite_none_right_eq_some] at h
    obtain ⟨hphase,h⟩ := h
    obtain rfl := Option.some_inj.mp h
    split
    · exact .enter hphase ‹_›
    · exact .leave hphase (Bool.eq_false_iff.mpr ‹_›)
  | round answer =>
    simp only [loopStep, Option.ite_none_right_eq_some, Option.map_eq_some_iff] at h
    obtain ⟨hphase,⟨state,goesOn⟩,hround,rfl⟩ := h
    cases goesOn with
    | true => exact .onward answer state hphase hround
    | false => exact .fail answer state hphase hround

/-- How a loop came to its state: the rounds it went on after follow one another, and a failed one
is the last. -/
structure History (round : σ → α → Option (σ × Bool)) (origin : σ) (es : List (LoopEvent α)) (s : Loop σ) : Prop where
  flag : s.flag = false ↔ LoopEvent.signal ∈ es
  left : s.phase = .left → s.flag = false
  state : s.phase ≠ .failed → run (onward round) (answers es) origin = some s.state
  failed : s.phase = .failed → ∃ before answer mid, answers es = before ++ [answer] ∧
    run (onward round) before origin = some mid ∧ round mid answer = some (s.state, false)

@[simp] theorem answers_signal (es : List (LoopEvent α)) : answers (es ++ [.signal]) = answers es := by
  simp [answers, LoopEvent.answer]

@[simp] theorem answers_test (es : List (LoopEvent α)) : answers (es ++ [.test]) = answers es := by
  simp [answers, LoopEvent.answer]

@[simp] theorem answers_round (es : List (LoopEvent α)) (answer : α) :
    answers (es ++ [.round answer]) = answers es ++ [answer] := by
  simp [answers, LoopEvent.answer]

theorem loop_history {es : List (LoopEvent α)} {s : Loop σ} (h : run (loopStep round) es (entering origin) = some s) :
    History round origin es s := by
  refine run_invariant (I := History round origin)
    ⟨by simp [entering],by simp [entering],fun _ => rfl,by simp [entering]⟩ ?_ h
  intro es s e t _ hs hstep
  obtain ⟨hflag,hleft,hstate,hfailed⟩ := hs
  cases loopStep_steps hstep with
  | signal => exact ⟨by simp,fun _ => rfl,by simpa using hstate,by simpa using hfailed⟩
  | enter hphase hset =>
    have hran := hstate (by rw [hphase]; decide)
    exact ⟨by simpa using hflag,by simp,fun _ => by simpa using hran,by simp⟩
  | leave hphase hcleared =>
    have hran := hstate (by rw [hphase]; decide)
    exact ⟨by simpa using hflag,fun _ => hcleared,fun _ => by simpa using hran,by simp⟩
  | onward answer state hphase hround =>
    have hran := hstate (by rw [hphase]; decide)
    refine ⟨by simpa using hflag,by simp,?_,by simp⟩
    intro _
    rw [answers_round, run_append, hran, Option.bind_some, run, onward, hround]
    rfl
  | fail answer state hphase hround =>
    have hran := hstate (by rw [hphase]; decide)
    refine ⟨by simpa using hflag,by simp,by simp,?_⟩
    intro _
    exact ⟨answers es,answer,s.state,answers_round es answer,hran,hround⟩

/-- A loop that has ended left by the flag exactly if no round failed. -/
theorem History.ended {es : List (LoopEvent α)} {s : Loop σ} (h : History round origin es s)
    (hended : s.phase = .left ∨ s.phase = .failed) :
    s.phase = .left ↔ LoopEvent.signal ∈ es ∧ run (onward round) (answers es) origin = some s.state := by
  constructor
  · intro hleft
    exact ⟨h.flag.mp (h.left hleft),h.state (by rw [hleft]; decide)⟩
  · rintro ⟨-,hran⟩
    refine hended.resolve_right fun hfailed => ?_
    obtain ⟨before,answer,mid,hall,hbefore,hround⟩ := h.failed hfailed
    rw [hall, run_append, hbefore, Option.bind_some, run, onward, hround] at hran
    cases hran

/-- The rounds that can be gone through can be gone through until a signal ends the loop. -/
theorem loop_runs {as : List α} {s t : σ} (h : run (onward round) as s = some t) :
    ∃ es, answers es = as ∧ run (loopStep round) es (entering s) = some (entering t) := by
  induction as using List.reverseRecOn generalizing t with
  | nil =>
    obtain rfl := Option.some_inj.mp h
    exact ⟨[],rfl,rfl⟩
  | append_singleton as a ih =>
    rw [run_append] at h
    obtain ⟨mid,hmid,hlast⟩ := Option.bind_eq_some_iff.mp h
    obtain ⟨es,hes,hrun⟩ := ih hmid
    obtain ⟨last,honward,hnil⟩ := Option.bind_eq_some_iff.mp hlast
    obtain rfl := Option.some_inj.mp hnil
    obtain ⟨⟨state,goesOn⟩,hround,hgoes⟩ := Option.bind_eq_some_iff.mp honward
    obtain ⟨hgoesOn,hstate⟩ := Option.ite_none_right_eq_some.mp hgoes
    obtain rfl := Option.some_inj.mp hstate
    rw [show goesOn = true from hgoesOn] at hround
    refine ⟨es ++ [.test] ++ [.round a],by rw [answers_round, answers_test, hes],?_⟩
    rw [List.append_assoc, run_append, hrun]
    simp [run, loopStep, entering, hround]

/-- The events that are steps of the loop, and those that are rounds. -/
@[simp] def LoopEvent.taken : LoopEvent α → Nat
  | .signal => 0
  | .test | .round _ => 1

@[simp] def LoopEvent.rounds : LoopEvent α → Nat
  | .round _ => 1
  | .signal | .test => 0

theorem spent_rounds (es : List (LoopEvent α)) : spent LoopEvent.rounds es = (answers es).length := by
  induction es with
  | nil => rfl
  | cons e es ih =>
    rw [spent, ih, answers, answers, List.filterMap_cons]
    cases e with
    | signal | test => exact Nat.zero_add _
    | round answer => exact Nat.add_comm _ _

/-- The steps a loop can still take when its flag is cleared. -/
def Loop.steps (s : Loop σ) : Nat :=
  match s.phase with
  | .test => 1
  | .round => 2
  | .left | .failed => 0

def Loop.roundsLeft (s : Loop σ) : Nat := if s.phase = .round then 1 else 0

theorem LoopSteps.cleared {s t : Loop σ} {e : LoopEvent α} (h : LoopSteps round s e t) (hs : s.flag = false) :
    t.flag = false ∧ t.steps+e.taken ≤ s.steps ∧ t.roundsLeft+e.rounds ≤ s.roundsLeft := by
  cases h with
  | signal => exact ⟨rfl,Nat.le_refl _,Nat.le_refl _⟩
  | enter _ hset => cases hs.symm.trans hset
  | leave hphase | onward _ _ hphase | fail _ _ hphase => simp [Loop.steps, Loop.roundsLeft, hphase, hs]

/-- Once the flag is cleared the loop takes two steps more at most, and no round but the one it
is in. -/
theorem loop_stops {es : List (LoopEvent α)} {s t : Loop σ} (hs : s.flag = false)
    (h : run (loopStep round) es s = some t) :
    spent LoopEvent.taken es ≤ 2 ∧ (answers es).length ≤ s.roundsLeft := by
  have hcleared : ∀ (s : Loop σ) e t, s.flag = false → loopStep round s e = some t →
      t.flag = false ∧ t.steps+e.taken ≤ s.steps ∧ t.roundsLeft+e.rounds ≤ s.roundsLeft :=
    fun _ _ _ hs hstep => (loopStep_steps hstep).cleared hs
  obtain ⟨-,hsteps⟩ := run_rank (fun s e t hs hstep => (hcleared s e t hs hstep).imp_right And.left) hs h
  obtain ⟨-,hrounds⟩ := run_rank (fun s e t hs hstep => (hcleared s e t hs hstep).imp_right And.right) hs h
  rw [spent_rounds] at hrounds
  refine ⟨?_,by omega⟩
  have hmost : s.steps ≤ 2 := by
    unfold Loop.steps
    split <;> omega
  omega

variable {ε : Type} {S : Sender σ ε α} {I : Nat → σ → Prop} {P : Nat → α → Prop}

/-- A round of a sender, with what it has handed over so far; one that fails ends the loop. -/
def sendRound (S : Sender σ ε α) (s : σ × List α) (answer : ε) : Option ((σ × List α) × Bool) :=
  match S.step s.1 answer with
  | some (next, out) => some ((next, s.2 ++ out.toList), true)
  | none => some (s, false)

theorem onward_sendRound {s t : σ × List α} {answer : ε} (h : onward (sendRound S) s answer = some t) :
    ∃ out, S.step s.1 answer = some (t.1, out) ∧ t.2 = s.2 ++ out.toList := by
  obtain ⟨⟨next,goesOn⟩,hround,hnext⟩ := Option.bind_eq_some_iff.mp h
  obtain ⟨hgoesOn,hnext⟩ := Option.ite_none_right_eq_some.mp hnext
  obtain rfl := Option.some_inj.mp hnext
  simp only [sendRound] at hround
  split at hround
  · obtain ⟨rfl,-⟩ := Prod.mk.inj (Option.some_inj.mp hround)
    exact ⟨_,‹_›,rfl⟩
  · obtain ⟨-,rfl⟩ := Prod.mk.inj (Option.some_inj.mp hround)
    cases hgoesOn

/-- Round after round a sender hands over its items in their order, one in each. -/
theorem sends_onward (hS : S.Keeps I P) (hone : ∀ s e t out, S.step s e = some (t, out) → out ≠ none)
    {as : List ε} {s : σ × List α} (h : run (onward (sendRound S)) as (S.origin, []) = some s) :
    s.2.length = as.length ∧ I s.2.length s.1 ∧ ∀ k a, s.2[k]? = some a → P k a := by
  have horigin : I ([] : List α).length S.origin := hS.origin
  refine run_invariant (I := fun as (s : σ × List α) =>
    s.2.length = as.length ∧ I s.2.length s.1 ∧ ∀ k a, s.2[k]? = some a → P k a) ⟨rfl,horigin,by simp⟩ ?_ h
  rintro as s e t - ⟨hlen,hs,hitems⟩ hstep
  obtain ⟨out,hsent,hlist⟩ := onward_sendRound hstep
  obtain ⟨a,rfl⟩ := Option.ne_none_iff_exists'.mp (hone _ _ _ _ hsent)
  obtain ⟨hI,hP⟩ := hS.step _ _ _ _ _ hs hsent
  have hlast : t.2 = s.2 ++ [a] := hlist
  rw [hlast, List.length_append, List.length_append]
  refine ⟨congrArg (· + 1) hlen,hI,?_⟩
  intro k b hb
  rcases Nat.lt_or_ge k s.2.length with hk | hk
  · rw [List.getElem?_append_left hk] at hb
    exact hitems k b hb
  · rw [List.getElem?_append_right hk, List.getElem?_singleton] at hb
    obtain ⟨hzero,hab⟩ := Option.ite_none_right_eq_some.mp hb
    obtain rfl : k = s.2.length := by omega
    exact hP b hab

/-- A sender that can always go on can hand over any number of items. -/
theorem sends_any (hS : S.Keeps I P) (hgoesOn : ∀ k s, I k s → ∃ e t a, S.step s e = some (t, some a)) (k : Nat) :
    ∃ as s, run (onward (sendRound S)) as (S.origin, []) = some s ∧ s.2.length = k ∧ I k s.1 := by
  induction k with
  | zero => exact ⟨[],_,rfl,rfl,hS.origin⟩
  | succ k ih =>
    obtain ⟨as,s,hrun,hlen,hs⟩ := ih
    obtain ⟨e,t,a,hstep⟩ := hgoesOn k s.1 hs
    refine ⟨as ++ [e],(t, s.2 ++ [a]),?_,by rw [List.length_append, hlen]; rfl,(hS.step _ _ _ _ _ hs hstep).1⟩
    rw [run_append, hrun, Option.bind_some, run, onward, sendRound, hstep]
    rfl

theorem sendRound_failed {s t : σ × List α} {answer : ε} (h : sendRound S s answer = some (t, false)) : t = s := by
  simp only [sendRound] at h
  split at h
  · cases h
  · exact (Prod.mk.inj (Option.some_inj.mp h)).1.symm

/-- The items handed over in a run of the loop: one for each round, but for a failed one. -/
theorem loop_sends {es : List (LoopEvent ε)} {s : Loop (σ × List α)}
    (h : run (loopStep (sendRound S)) es (entering (S.origin, [])) = some s) :
    ∃ as, run (onward (sendRound S)) as (S.origin, []) = some s.state ∧
      (s.phase ≠ .failed ∧ answers es = as ∨ s.phase = .failed ∧ ∃ answer, answers es = as ++ [answer]) := by
  have hhistory := loop_history h
  by_cases hfailed : s.phase = .failed
  · obtain ⟨before,answer,mid,hall,hbefore,hround⟩ := hhistory.failed hfailed
    obtain hsame := sendRound_failed hround
    exact ⟨before,hsame ▸ hbefore,.inr ⟨hfailed,answer,hall⟩⟩
  · exact ⟨_,hhistory.state hfailed,.inl ⟨hfailed,rfl⟩⟩

/-- No round hands over more than one item. -/
theorem sent_le {es : List (LoopEvent ε)} {s t : Loop (σ × List α)}
    (h : run (loopStep (sendRound S)) es s = some t) :
    t.state.2.length ≤ s.state.2.length+(answers es).length := by
  refine run_invariant (I := fun es (t : Loop (σ × List α)) =>
    t.state.2.length ≤ s.state.2.length+(answers es).length) (Nat.le_add_right _ _) ?_ h
  intro es t e u _ ht hstep
  cases loopStep_steps hstep with
  | signal => simpa using ht
  | enter | leave => simpa using ht
  | onward answer state _ hround =>
    obtain ⟨out,-,hlist⟩ := onward_sendRound (t := state) (by rw [onward, hround]; rfl)
    rw [answers_round, List.length_append, hlist, List.length_append]
    cases out with
    | none => exact ht.trans (Nat.le_succ _)
    | some a => exact Nat.succ_le_succ ht
  | fail answer state _ hround =>
    obtain rfl := sendRound_failed hround
    rw [answers_round, List.length_append]
    exact ht.trans (Nat.le_succ _)

/-- Behind the signal at most one item more is handed over. -/
theorem sent_after_signal {es es' : List (LoopEvent ε)} {origin s t : Loop (σ × List α)}
    (hs : run (loopStep (sendRound S)) es origin = some s)
    (ht : run (loopStep (sendRound S)) (es ++ .signal::es') origin = some t) :
    t.state.2.length ≤ s.state.2.length+1 := by
  rw [run_append, hs] at ht
  have hrest : run (loopStep (sendRound S)) es' { s with flag := false } = some t := ht
  have hrounds := (loop_stops rfl hrest).2
  have hmore := sent_le hrest
  have hone : ({ s with flag := false } : Loop (σ × List α)).roundsLeft ≤ 1 := by
    unfold Loop.roundsLeft
    split <;> omega
  change t.state.2.length ≤ s.state.2.length+(answers es').length at hmore
  omega

end IbverbPrototype.Foundations.FlaggedLoop
