import Mathlib.Data.List.Induction
import Mathlib.Data.Option.Basic

/-! Systems that answer one event at a time and may refuse it: their runs, the
states they reach and the rule for invariants. -/
namespace IbverbPrototype.Foundations.EventSystem
variable {σ ε : Type} {step : σ → ε → Option σ} {origin : σ}

/-- The events taken in order; none when one of them is refused. -/
def run (step : σ → ε → Option σ) : List ε → σ → Option σ
  | [], s => some s
  | e::es, s => (step s e).bind (run step es)

inductive Reachable (step : σ → ε → Option σ) (origin : σ) : σ → Prop where
  | start : Reachable step origin origin
  | next {s t : σ} {e : ε} : Reachable step origin s → step s e = some t → Reachable step origin t

/-- What holds at the start and survives every accepted event holds in every state reached. -/
theorem Reachable.invariant {I : σ → Prop} (hstart : I origin)
    (hstep : ∀ s t e, I s → step s e = some t → I t) {s : σ} (h : Reachable step origin s) : I s := by
  induction h with
  | start => exact hstart
  | next _ h ih => exact hstep _ _ _ ih h

theorem Reachable.run {s t : σ} {es : List ε} (hs : Reachable step origin s) (h : run step es s = some t) :
    Reachable step origin t := by
  induction es generalizing s with
  | nil =>
    obtain rfl := Option.some_inj.mp h
    exact hs
  | cons e es ih =>
    obtain ⟨mid,hmid,hrest⟩ := Option.bind_eq_some_iff.mp h
    exact ih (hs.next hmid) hrest

theorem run_append (es es' : List ε) (s : σ) :
    EventSystem.run step (es ++ es') s = (EventSystem.run step es s).bind (EventSystem.run step es') := by
  induction es generalizing s with
  | nil => rfl
  | cons e es ih =>
    change (step s e).bind _ = ((step s e).bind _).bind _
    rw [Option.bind_assoc]
    exact congrArg _ (funext ih)

/-- The invariant rule for facts about a state and the events that led to it. -/
theorem run_invariant {I : List ε → σ → Prop} (hstart : I [] origin)
    (hstep : ∀ es s e t, EventSystem.run step es origin = some s → I es s → step s e = some t → I (es ++ [e]) t)
    {es : List ε} {s : σ} (h : EventSystem.run step es origin = some s) : I es s := by
  induction es using List.reverseRecOn generalizing s with
  | nil =>
    obtain rfl := Option.some_inj.mp h
    exact hstart
  | append_singleton es e ih =>
    rw [run_append] at h
    obtain ⟨mid,hmid,hlast⟩ := Option.bind_eq_some_iff.mp h
    obtain ⟨last,hstep',hnil⟩ := Option.bind_eq_some_iff.mp hlast
    obtain rfl := Option.some_inj.mp hnil
    exact hstep es mid e last hmid (ih hmid) hstep'

/-- The cost of a run, the sum over its events. -/
def spent (cost : ε → Nat) : List ε → Nat
  | [] => 0
  | e::es => cost e+spent cost es

/-- A run costs no more than the rank it uses up. -/
theorem run_rank {I : σ → Prop} {rank : σ → Nat} {cost : ε → Nat}
    (hstep : ∀ s e t, I s → step s e = some t → I t ∧ rank t+cost e ≤ rank s) {es : List ε} {s t : σ} (hs : I s)
    (h : EventSystem.run step es s = some t) : I t ∧ rank t+spent cost es ≤ rank s := by
  induction es generalizing s with
  | nil =>
    obtain rfl := Option.some_inj.mp h
    exact ⟨hs,Nat.le_refl _⟩
  | cons e es ih =>
    obtain ⟨mid,hmid,hrest⟩ := Option.bind_eq_some_iff.mp h
    obtain ⟨hI,hrank⟩ := hstep s e mid hs hmid
    obtain ⟨ht,hsum⟩ := ih hI hrest
    refine ⟨ht,?_⟩
    rw [spent]
    omega

/-- A view that turns the steps of one system into those of another turns its runs too. -/
theorem run_map {τ ε' : Type} {step' : τ → ε' → Option τ} {f : σ → τ} {g : ε → ε'}
    (h : ∀ s e, step' (f s) (g e) = (step s e).map f) (es : List ε) (s : σ) :
    EventSystem.run step' (es.map g) (f s) = (EventSystem.run step es s).map f := by
  induction es generalizing s with
  | nil => rfl
  | cons e es ih =>
    change (step' (f s) (g e)).bind _ = ((step s e).bind _).map f
    rw [h]
    cases step s e with
    | none => rfl
    | some t => exact ih t

/-- The steps of a system that keeps to some of its events. -/
def restrict (allowed : ε → Bool) (step : σ → ε → Option σ) (s : σ) (e : ε) : Option σ :=
  if allowed e then step s e else none

theorem restrict_eq_some {allowed : ε → Bool} {s t : σ} {e : ε} :
    restrict allowed step s e = some t ↔ allowed e = true ∧ step s e = some t := by
  unfold restrict
  split <;> simp_all

/-- Fewer events reach nothing new. -/
theorem Reachable.restrict_mono {allowed allowed' : ε → Bool} (hsub : ∀ e, allowed e = true → allowed' e = true)
    {s : σ} (h : Reachable (restrict allowed step) origin s) : Reachable (restrict allowed' step) origin s := by
  induction h with
  | start => exact .start
  | next _ h ih =>
    obtain ⟨hallowed,hstep⟩ := restrict_eq_some.mp h
    exact ih.next (restrict_eq_some.mpr ⟨hsub _ hallowed,hstep⟩)

theorem Reachable.unrestricted {allowed : ε → Bool} {s : σ} (h : Reachable (restrict allowed step) origin s) :
    Reachable step origin s := by
  induction h with
  | start => exact .start
  | next _ h ih => exact ih.next (restrict_eq_some.mp h).2

/-- A view of a system whose every step is a step of another or leaves the view as it is. -/
theorem Reachable.view {τ ε' : Type} {step' : τ → ε' → Option τ} {f : σ → τ}
    (hstep : ∀ s t e, Reachable step origin s → step s e = some t → f t = f s ∨ ∃ e', step' (f s) e' = some (f t))
    {s : σ} (h : Reachable step origin s) : Reachable step' (f origin) (f s) := by
  induction h with
  | start => exact .start
  | next hs h ih =>
    obtain hsame | ⟨e',hstep'⟩ := hstep _ _ _ hs h
    · rw [hsame]
      exact ih
    · exact ih.next hstep'

/-- A relation that every step keeps, the other system taking one step or none, relates every state
reached to one the other system reaches. -/
theorem Reachable.simulated {τ ε' : Type} {step' : τ → ε' → Option τ} {origin' : τ} {R : σ → τ → Prop}
    (horigin : R origin origin')
    (hstep : ∀ s t e x, R s x → Reachable step' origin' x → step s e = some t →
      R t x ∨ ∃ e' y, step' x e' = some y ∧ R t y) {s : σ} (h : Reachable step origin s) :
    ∃ x, Reachable step' origin' x ∧ R s x := by
  induction h with
  | start => exact ⟨_,.start,horigin⟩
  | next _ h ih =>
    obtain ⟨x,hx,hR⟩ := ih
    obtain hsame | ⟨e',y,hy,hR'⟩ := hstep _ _ _ x hR hx h
    · exact ⟨x,hx,hsame⟩
    · exact ⟨y,hx.next hy,hR'⟩

theorem Reachable.trans {s t : σ} (hs : Reachable step origin s) (ht : Reachable step s t) :
    Reachable step origin t := by
  induction ht with
  | start => exact hs
  | next _ h ih => exact ih.next h

/-- The rule for variants: where every rank above zero can be lowered, it can be brought to zero. -/
theorem exists_rank_zero {I : σ → Prop} {rank : σ → Nat}
    (hlower : ∀ s, I s → 0 < rank s → ∃ t, Reachable step s t ∧ I t ∧ rank t < rank s) {s : σ} (hs : I s) :
    ∃ t, Reachable step s t ∧ I t ∧ rank t = 0 := by
  induction hr : rank s using Nat.strongRecOn generalizing s with
  | _ r ih =>
    rcases Nat.eq_zero_or_pos (rank s) with hzero | hpos
    · exact ⟨s,.start,hs,hzero⟩
    · obtain ⟨t,hst,ht,hlt⟩ := hlower s hs hpos
      obtain ⟨u,htu,hu,hzero⟩ := ih (rank t) (hr ▸ hlt) ht rfl
      exact ⟨u,hst.trans htu,hu,hzero⟩

theorem reachable_of_run {s : σ} (es : List ε) (h : EventSystem.run step es origin = some s) :
    Reachable step origin s :=
  Reachable.start.run h

end IbverbPrototype.Foundations.EventSystem
