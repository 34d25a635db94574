import IbverbPrototype.Foundations.EventSystem
import Mathlib.Data.Finset.Basic

/-! Programs that acquire, use and release resources, some of which need others: what a
disciplined sequence of actions is, and a ledger that decides it. -/
namespace IbverbPrototype.Foundations.ResourceLedger
open EventSystem

variable {ρ : Type} [DecidableEq ρ] {needs : ρ → List ρ}

inductive Action (ρ : Type) where
  | acquire (r : ρ)
  | use (r : ρ)
  | release (r : ρ)
  deriving DecidableEq

def Held (actions : List (Action ρ)) (r : ρ) : Prop := actions.count (.release r) < actions.count (.acquire r)

/-- A resource is not acquired twice, used only while held, and released only while held and
with nothing held that needs it. -/
def Allowed (needs : ρ → List ρ) (before : List (Action ρ)) : Action ρ → Prop
  | .acquire r => ¬ Held before r
  | .use r => Held before r
  | .release r => Held before r ∧ ∀ d, r ∈ needs d → ¬ Held before d

/-- Every action is allowed where it stands, and each acquisition has its release. -/
structure Disciplined (needs : ρ → List ρ) (actions : List (Action ρ)) : Prop where
  allowed : ∀ before a after, actions = before ++ a::after → Allowed needs before a
  released : ∀ r, actions.count (.release r) = actions.count (.acquire r)

def act (needs : ρ → List ρ) (held : Finset ρ) : Action ρ → Option (Finset ρ)
  | .acquire r => if r ∈ held then none else some (insert r held)
  | .use r => if r ∈ held then some held else none
  | .release r => if r ∈ held ∧ ∀ d ∈ held, r ∉ needs d then some (held.erase r) else none

/-- What is held after the actions; none if one of them was not allowed. -/
def ledger (needs : ρ → List ρ) (actions : List (Action ρ)) : Option (Finset ρ) := run (act needs) actions ∅

theorem ledger_append (actions more : List (Action ρ)) :
    ledger needs (actions ++ more) = (ledger needs actions).bind (run (act needs) more) :=
  run_append actions more ∅

theorem ledger_acquire {actions : List (Action ρ)} {held : Finset ρ} {r : ρ} (h : ledger needs actions = some held)
    (hr : r ∉ held) : ledger needs (actions ++ [.acquire r]) = some (insert r held) := by
  rw [ledger_append, h]
  simp [run, act, hr]

theorem ledger_use {actions : List (Action ρ)} {held : Finset ρ} {r : ρ} (h : ledger needs actions = some held)
    (hr : r ∈ held) : ledger needs (actions ++ [.use r]) = some held := by
  rw [ledger_append, h]
  simp [run, act, hr]

theorem ledger_release {actions : List (Action ρ)} {held : Finset ρ} {r : ρ} (h : ledger needs actions = some held)
    (hr : r ∈ held) (hneeds : ∀ d ∈ held, r ∉ needs d) :
    ledger needs (actions ++ [.release r]) = some (held.erase r) := by
  rw [ledger_append, h]
  change (act needs held (.release r)).bind _ = _
  rw [act, if_pos ⟨hr,hneeds⟩]
  rfl

theorem ledger_use_released {actions : List (Action ρ)} {held : Finset ρ} {r : ρ}
    (h : ledger needs actions = some held) (hr : r ∉ held) : ledger needs (actions ++ [.use r]) = none := by
  rw [ledger_append, h]
  simp [run, act, hr]

theorem act_acquire {held next : Finset ρ} {r : ρ} (h : act needs held (.acquire r) = some next) :
    r ∉ held ∧ next = insert r held := by
  simp only [act] at h
  split at h
  · cases h
  · exact ⟨‹_›,(Option.some_inj.mp h).symm⟩

theorem act_use {held next : Finset ρ} {r : ρ} (h : act needs held (.use r) = some next) :
    r ∈ held ∧ next = held := by
  simp only [act] at h
  split at h
  · exact ⟨‹_›,(Option.some_inj.mp h).symm⟩
  · cases h

theorem act_release {held next : Finset ρ} {r : ρ} (h : act needs held (.release r) = some next) :
    r ∈ held ∧ (∀ d ∈ held, r ∉ needs d) ∧ next = held.erase r := by
  simp only [act] at h
  split at h
  · rename_i hcond
    exact ⟨hcond.1,hcond.2,(Option.some_inj.mp h).symm⟩
  · cases h

/-- The ledger counts acquisitions against releases. -/
theorem ledger_counts {actions : List (Action ρ)} {held : Finset ρ} (h : ledger needs actions = some held) (r : ρ) :
    actions.count (.acquire r) = actions.count (.release r)+(if r ∈ held then 1 else 0) := by
  refine run_invariant (I := fun actions held => ∀ r, actions.count (.acquire r) =
    actions.count (.release r)+(if r ∈ held then 1 else 0)) (fun _ => rfl) ?_ h r
  intro before held a next _ ih ha r
  have hbefore := ih r
  cases a with
  | acquire x =>
    obtain ⟨hx,rfl⟩ := act_acquire ha
    by_cases hxr : x = r
    · subst hxr
      simp [hx, hbefore]
    · simp [hxr, Ne.symm hxr, hbefore]
  | use x =>
    obtain ⟨-,rfl⟩ := act_use ha
    simp [hbefore]
  | release x =>
    obtain ⟨hx,-,rfl⟩ := act_release ha
    by_cases hxr : x = r
    · subst hxr
      simp [hx, hbefore]
    · simp [hxr, Ne.symm hxr, hbefore]

theorem held_iff {actions : List (Action ρ)} {held : Finset ρ} (h : ledger needs actions = some held) (r : ρ) :
    Held actions r ↔ r ∈ held := by
  rw [Held, ledger_counts h r]
  split <;> simp_all

/-- The ledger takes exactly the actions that are allowed. -/
theorem act_iff {actions : List (Action ρ)} {held : Finset ρ} (h : ledger needs actions = some held) (a : Action ρ) :
    (∃ next, act needs held a = some next) ↔ Allowed needs actions a := by
  cases a with
  | acquire r =>
    rw [Allowed, held_iff h]
    refine ⟨fun ⟨_,ha⟩ => (act_acquire ha).1,fun hr => ⟨_,if_neg hr⟩⟩
  | use r =>
    rw [Allowed, held_iff h]
    exact ⟨fun ⟨_,ha⟩ => (act_use ha).1,fun hr => ⟨_,if_pos hr⟩⟩
  | release r =>
    simp only [Allowed, held_iff h]
    constructor
    · rintro ⟨_,ha⟩
      obtain ⟨hr,hneeds,-⟩ := act_release ha
      exact ⟨hr,fun d hd hheld => hneeds d hheld hd⟩
    · rintro ⟨hr,hneeds⟩
      exact ⟨_,if_pos ⟨hr,fun d hheld hd => hneeds d hd hheld⟩⟩

theorem ledger_iff (actions : List (Action ρ)) : (∃ held, ledger needs actions = some held) ↔
    ∀ before a after, actions = before ++ a::after → Allowed needs before a := by
  constructor
  · rintro ⟨held,h⟩ before a after rfl
    rw [ledger_append] at h
    obtain ⟨mid,hmid,hrest⟩ := Option.bind_eq_some_iff.mp h
    obtain ⟨next,hnext,-⟩ := Option.bind_eq_some_iff.mp hrest
    exact (act_iff hmid a).mp ⟨next,hnext⟩
  · intro h
    induction actions using List.reverseRecOn with
    | nil => exact ⟨∅,rfl⟩
    | append_singleton actions a ih =>
      obtain ⟨held,hheld⟩ := ih (fun before b after heq => h before b (after ++ [a]) (by rw [heq]; simp))
      obtain ⟨next,hnext⟩ := (act_iff hheld a).mpr (h actions a [] rfl)
      refine ⟨next,?_⟩
      rw [ledger_append, hheld]
      change (act needs held a).bind _ = _
      rw [hnext]
      rfl

/-- Actions are disciplined exactly if the ledger takes them all and ends empty. -/
theorem disciplined_iff (actions : List (Action ρ)) : Disciplined needs actions ↔ ledger needs actions = some ∅ := by
  constructor
  · rintro ⟨hallowed,hreleased⟩
    obtain ⟨held,h⟩ := (ledger_iff actions).mpr hallowed
    rw [h, Option.some_inj, Finset.eq_empty_iff_forall_notMem]
    intro r hr
    have hlt := (held_iff h r).mpr hr
    rw [Held, hreleased r] at hlt
    exact absurd hlt (Nat.lt_irrefl _)
  · intro h
    refine ⟨(ledger_iff actions).mp ⟨∅,h⟩,?_⟩
    intro r
    exact (ledger_counts h r).symm

end IbverbPrototype.Foundations.ResourceLedger
