import IbverbPrototype.Rdma.AnyStatus
import IbverbPrototype.Rdma.Programs

/-! The flag of the loop and the signal that clears it. The signal falls between any two steps;
the program sees it where it tests the flag. -/
namespace IbverbPrototype.Rdma
open Foundations.ByteOrder Foundations.CyclicInterval Foundations.EventSystem

variable {σ β : Type}

/-- A program with its flag; entered says that it has tested the flag and goes on to its poll. -/
structure Flagged (σ β : Type) where
  machine : Machine σ β
  loop : Bool
  entered : Bool

inductive FlaggedEvent where
  | machine (e : Event)
  | stopLoop
  | test

/-- The loop ends by the test of its flag only. -/
def flaggedStep (program : Program σ) (n : Nat) (s : Flagged σ β) : FlaggedEvent → Option (Flagged σ β)
  | .stopLoop => some { s with loop := false }
  | .test =>
    if s.machine.point = .head ∧ s.entered = false then
      if s.loop then some { s with entered := true }
      else (step program n s.machine .stop).map (fun machine => { s with machine := machine })
    else none
  | .machine .stop => none
  | .machine (.poll ne) =>
    if s.entered then
      (step program n s.machine (.poll ne)).map (fun machine => { s with machine := machine, entered := false })
    else none
  | .machine e => (step program n s.machine e).map (fun machine => { s with machine := machine })

def flagged (machine : Machine σ β) : Flagged σ β := ⟨machine, true, false⟩

inductive FlaggedSteps (program : Program σ) (n : Nat) (s : Flagged σ β) : FlaggedEvent → Flagged σ β → Prop where
  | stopLoop : FlaggedSteps program n s .stopLoop { s with loop := false }
  | enter (hpoint : s.machine.point = .head) (hentered : s.entered = false) (hloop : s.loop = true) :
      FlaggedSteps program n s .test { s with entered := true }
  | leave (hpoint : s.machine.point = .head) (hentered : s.entered = false) (hloop : s.loop = false) :
      FlaggedSteps program n s .test { s with machine := { s.machine with point := .cleanup false } }
  | poll (ne : Int) (machine : Machine σ β) (hentered : s.entered = true)
      (hmachine : step program n s.machine (.poll ne) = some machine) :
      FlaggedSteps program n s (.machine (.poll ne)) { s with machine := machine, entered := false }
  | other (e : Event) (machine : Machine σ β) (hpoll : ∀ ne, e ≠ .poll ne) (hstop : e ≠ .stop)
      (hmachine : step program n s.machine e = some machine) :
      FlaggedSteps program n s (.machine e) { s with machine := machine }

variable {program : Program σ} {n : Nat} {s t : Flagged σ β} {e : FlaggedEvent}

theorem flaggedStep_steps (h : flaggedStep program n s e = some t) : FlaggedSteps program n s e t := by
  cases e with
  | stopLoop =>
    obtain rfl := Option.some_inj.mp h
    exact .stopLoop
  | test =>
    simp only [flaggedStep] at h
    split at h
    case isFalse => cases h
    case isTrue hhead =>
      obtain ⟨hpoint,hentered⟩ := hhead
      split at h
      case isTrue hloop =>
        obtain rfl := Option.some_inj.mp h
        exact .enter hpoint hentered hloop
      case isFalse hloop =>
        obtain ⟨machine,hmachine,rfl⟩ := Option.map_eq_some_iff.mp h
        obtain rfl := Option.some_inj.mp ((if_pos hpoint).symm.trans hmachine)
        exact .leave hpoint hentered (Bool.eq_false_iff.mpr hloop)
  | machine e =>
    cases e with
    | stop => cases h
    | poll ne =>
      simp only [flaggedStep] at h
      split at h
      case isFalse => cases h
      case isTrue hentered =>
        obtain ⟨machine,hmachine,rfl⟩ := Option.map_eq_some_iff.mp h
        exact .poll ne machine hentered hmachine
    | post | handle | complete =>
      obtain ⟨machine,hmachine,rfl⟩ := Option.map_eq_some_iff.mp h
      exact .other _ machine (by rintro _ ⟨⟩) (by rintro ⟨⟩) hmachine

/-- With the flag and the signal the programs reach the states of the loop model, and these only:
stopping at the loop head is what the signal comes to. -/
theorem flagged_reaches {body : Nat → β} {state : σ} {m : Machine σ β} :
    Reachable (step program n) (started n body state) m ↔
      ∃ s, Reachable (flaggedStep program n) (flagged (started n body state)) s ∧ s.machine = m := by
  constructor
  · intro h
    suffices hset : ∃ s, Reachable (flaggedStep program n) (flagged (started n body state)) s ∧ s.machine = m ∧
        s.entered = false ∧ (m.Running → s.loop = true) by
      obtain ⟨s,hs,hm,-⟩ := hset
      exact ⟨s,hs,hm⟩
    induction h with
    | start => exact ⟨_,.start,rfl,rfl,fun _ => rfl⟩
    | @next m m' e _ hstep ih =>
      obtain ⟨s,hs,rfl,hentered,hloop⟩ := ih
      have hsteps := step_steps hstep
      have hkept : m'.Running → s.loop = true := fun hrun => hloop (hsteps.running hrun)
      cases e with
      | stop =>
        have hpoint : s.machine.point = .head := by
          cases hsteps with
          | stop hpoint => exact hpoint
        have hsignal : flaggedStep program n s .stopLoop = some { s with loop := false } := rfl
        refine ⟨{ s with machine := m', loop := false },(hs.next hsignal).next (e := .test) ?_,rfl,hentered,?_⟩
        · simp only [flaggedStep, hpoint, hentered, hstep, and_self, if_true, Bool.false_eq_true, if_false,
            Option.map_some]
        · cases hsteps with
          | stop => exact fun hrun => absurd rfl (hrun false)
      | poll ne =>
        have hpoint : s.machine.point = .head := by
          cases hsteps with
          | pollFailed _ hpoint | poll _ hpoint => exact hpoint
        have hrunning : s.loop = true := hloop (running_at hpoint (by rintro _ ⟨⟩))
        have htest : flaggedStep program n s .test = some { s with entered := true } := by
          simp only [flaggedStep, hpoint, hentered, hrunning, and_self, if_true]
        have henter := hs.next htest
        refine ⟨{ s with machine := m', entered := false },henter.next (e := .machine (.poll ne)) ?_,rfl,rfl,hkept⟩
        simp only [flaggedStep, hstep, if_true, Option.map_some]
      | post result taken =>
        refine ⟨{ s with machine := m' },hs.next (e := .machine (.post result taken)) ?_,rfl,hentered,hkept⟩
        simp only [flaggedStep, hstep, Option.map_some]
      | handle =>
        refine ⟨{ s with machine := m' },hs.next (e := .machine .handle) ?_,rfl,hentered,hkept⟩
        simp only [flaggedStep, hstep, Option.map_some]
      | complete status byteLen data =>
        have hcomplete : flaggedStep program n s (.machine (.complete status byteLen data)) =
            some { s with machine := m' } := by simp only [flaggedStep, hstep, Option.map_some]
        exact ⟨{ s with machine := m' },hs.next hcomplete,rfl,hentered,hkept⟩
  · rintro ⟨s,hs,rfl⟩
    refine hs.view (f := Flagged.machine) ?_
    intro s t e _ ht
    cases flaggedStep_steps ht with
    | stopLoop | enter => exact .inl rfl
    | leave hpoint => exact .inr ⟨.stop,if_pos hpoint⟩
    | poll ne machine _ hmachine => exact .inr ⟨.poll ne,hmachine⟩
    | other e machine _ _ hmachine => exact .inr ⟨e,hmachine⟩

/-- Steps of the program itself, not of the device or the signal. -/
@[simp] def FlaggedEvent.taken : FlaggedEvent → Nat
  | .stopLoop | .machine (.complete ..) => 0
  | .test | .machine _ => 1

@[simp] def FlaggedEvent.polls : FlaggedEvent → Nat
  | .machine (.poll _) => 1
  | .stopLoop | .test | .machine _ => 0

@[simp] def FlaggedEvent.posts : FlaggedEvent → Nat
  | .machine (.post ..) => 1
  | .stopLoop | .test | .machine _ => 0

/-- The steps the program can still take when the flag is cleared. -/
def Flagged.steps (s : Flagged σ β) : Nat :=
  match s.machine.point with
  | .firstPost | .repost => 2
  | .head => if s.entered then pollLimit+4 else 1
  | .handle i => s.machine.batch.length-i+3
  | .cleanup _ => 0

def Flagged.pollsLeft (s : Flagged σ β) : Nat := if s.entered then 1 else 0

def Flagged.postsLeft (s : Flagged σ β) : Nat :=
  match s.machine.point with
  | .firstPost | .repost | .handle _ => 1
  | .head => if s.entered then 1 else 0
  | .cleanup _ => 0

/-- Between its test and its poll a program stands at the loop head, and no poll brings more than
it asks for. -/
structure Flagged.Set (s : Flagged σ β) : Prop where
  entered : s.entered = true → s.machine.point = .head
  batch : s.machine.batch.length ≤ pollLimit

theorem FlaggedSteps.set (h : FlaggedSteps program n s e t) (hs : s.Set) : t.Set := by
  obtain ⟨hentered,hbatch⟩ := hs
  cases h with
  | stopLoop => exact ⟨hentered,hbatch⟩
  | enter hpoint => exact ⟨fun _ => hpoint,hbatch⟩
  | leave hpoint hout => exact ⟨fun hin => (Bool.false_ne_true (hout.symm.trans hin)).elim,hbatch⟩
  | poll ne machine _ hmachine =>
    refine ⟨fun hin => (Bool.false_ne_true hin).elim,?_⟩
    cases step_steps hmachine with
    | pollFailed => exact hbatch
    | poll _ _ _ hlimit => exact (List.length_take_le _ _).trans hlimit
  | other e machine hpoll hstop hmachine =>
    cases step_steps hmachine with
    | post _ _ _ _ _ hpoint =>
      refine ⟨fun hin => ?_,Nat.zero_le _⟩
      rcases hpoint with ⟨hpoint,-⟩ | ⟨hpoint,-⟩ <;> cases hpoint.symm.trans (hentered hin)
    | pollFailed ne | poll ne => exact absurd rfl (hpoll ne)
    | stop => exact absurd rfl hstop
    | handle i wc hpoint | handled i hpoint =>
      refine ⟨fun hin => ?_,hbatch⟩
      cases hpoint.symm.trans (hentered hin)
    | complete => exact ⟨hentered,hbatch⟩

/-- What a step with the flag cleared uses up. -/
structure Spends (s : Flagged σ β) (e : FlaggedEvent) (t : Flagged σ β) : Prop where
  steps : t.steps+e.taken ≤ s.steps
  polls : t.pollsLeft+e.polls ≤ s.pollsLeft
  posts : t.postsLeft+e.posts ≤ s.postsLeft

theorem FlaggedSteps.cleared (h : FlaggedSteps program n s e t) (hloop : s.loop = false) : t.loop = false := by
  cases h with
  | stopLoop => rfl
  | enter | leave | poll | other => exact hloop

theorem FlaggedSteps.spends (h : FlaggedSteps program n s e t) (hs : s.Set) (hloop : s.loop = false) :
    Spends s e t := by
  have hentered := hs.entered
  cases h with
  | stopLoop => exact ⟨le_rfl,le_rfl,le_rfl⟩
  | enter _ _ hset => cases hloop.symm.trans hset
  | leave hpoint hout => constructor <;> simp [Flagged.steps, Flagged.pollsLeft, Flagged.postsLeft, hpoint, hout]
  | poll ne machine hin hmachine =>
    cases step_steps hmachine with
    | pollFailed _ hpoint => constructor <;> simp [Flagged.steps, Flagged.pollsLeft, Flagged.postsLeft, hpoint, hin]
    | poll _ hpoint _ hlimit =>
      have hlen := (List.length_take_le ne.toNat s.machine.completed).trans hlimit
      refine ⟨?_,by simp [Flagged.pollsLeft, hin],by simp [Flagged.postsLeft, hpoint, hin]⟩
      simp only [Flagged.steps, FlaggedEvent.taken, hpoint, hin, if_true]
      omega
  | other e machine hpoll hstop hmachine =>
    cases step_steps hmachine with
    | post result taken start count handed hpoint =>
      have hout : s.entered = false := by
        by_contra hin
        have hhead := hentered (Bool.not_eq_false _ ▸ hin)
        rcases hpoint with ⟨hpoint,-⟩ | ⟨hpoint,-⟩ <;> cases hpoint.symm.trans hhead
      rcases hpoint with ⟨hpoint,-⟩ | ⟨hpoint,-⟩ <;> by_cases hresult : result = 0 <;> constructor <;>
        simp [Flagged.steps, Flagged.pollsLeft, Flagged.postsLeft, hpoint, hout, hresult]
    | pollFailed ne | poll ne => exact absurd rfl (hpoll ne)
    | stop => exact absurd rfl hstop
    | handle i wc hpoint hwc =>
      have hi := (List.getElem?_eq_some_iff.mp hwc).1
      by_cases hgo : (program.handle wc s.machine.state).2 = true
      · refine ⟨?_,le_rfl,by simp [Flagged.postsLeft, hpoint, hgo]⟩
        simp only [Flagged.steps, FlaggedEvent.taken, hpoint, hgo, if_true]
        omega
      · constructor <;> simp [Flagged.steps, Flagged.pollsLeft, Flagged.postsLeft, hpoint, hgo]
    | handled i hpoint =>
      have hout : s.entered = false := by
        by_contra hin
        cases hpoint.symm.trans (hentered (Bool.not_eq_false _ ▸ hin))
      by_cases hbatch : s.machine.batch.length > 0
      · constructor <;> simp [Flagged.steps, Flagged.pollsLeft, Flagged.postsLeft, hpoint, hbatch]
      · constructor <;> simp [Flagged.steps, Flagged.pollsLeft, Flagged.postsLeft, hpoint, hout, hbatch]
    | complete => exact ⟨le_rfl,le_rfl,le_rfl⟩

/-- The next step of the program, for what the provider answers to a post and to a poll. -/
def Flagged.next (s : Flagged σ β) (result : Int) (taken : Nat) (ne : Int) : Option FlaggedEvent :=
  match s.machine.point with
  | .firstPost | .repost => some (.machine (.post result taken))
  | .head => some (if s.entered then .machine (.poll ne) else .test)
  | .handle _ => some (.machine .handle)
  | .cleanup _ => none

/-- A post of the loop is never one that walks out of the ring. -/
theorem post_accepted {body : Nat → β} {state : σ} {m : Machine σ β} (hn : 1 ≤ n)
    (h : Reachable (step program n) (started n body state) m) (hpoint : m.point = .firstPost ∨ m.point = .repost)
    (result : Int) (taken : Nat) : ∃ m', step program n m (.post result taken) = some m' := by
  have haccept : ∀ start count, m.requests = initRequests n body ∧ start < n ∧ 1 ≤ count ∧ count ≤ n →
      ∃ m', post n m start count result taken = some m' := by
    rintro start count ⟨hrequests,hstart,hc,hcn⟩
    simp only [post, hrequests, (postRequests_slice body result hstart hc hcn).2, Option.bind_eq_bind, Option.bind_some]
    exact ⟨_,rfl⟩
  rcases hpoint with hfirst | hrepost
  · obtain ⟨hrequests,hstart,hc,hcn,-⟩ := posting_slice hn h (.inl ⟨hfirst,rfl,rfl⟩)
    obtain ⟨m',hm⟩ := haccept 0 n ⟨hrequests,hstart,hc,hcn⟩
    exact ⟨m',by simp only [step, hfirst, hm]⟩
  · obtain ⟨wc,rest,hbatch⟩ : ∃ wc rest, m.batch = wc::rest := by
      obtain hview | ⟨q,hq⟩ := running_turn hn h (running_at hrepost (by rintro _ ⟨⟩))
      · have hfirst : m.point = .firstPost := congrArg Machine.point hview
        cases hrepost.symm.trans hfirst
      · have hfit := hq.point
        rw [show (m.view healed).point = .repost from hrepost] at hfit
        exact List.exists_cons_of_length_pos (hfit.trans_eq (List.length_map _))
    obtain ⟨hrequests,hstart,hc,hcn,-⟩ := posting_slice hn h (.inr ⟨hrepost,wc,rest,hbatch,rfl,rfl⟩)
    obtain ⟨m',hm⟩ := haccept wc.wrId m.batch.length ⟨hrequests,hstart,hc,hcn⟩
    exact ⟨m',by simp only [step, hrepost, hbatch] at hm ⊢; exact hm⟩

/-- Until its cleanup the program is never stuck, whatever the provider answers. -/
theorem program_goes_on {body : Nat → β} {state : σ} (hn : 1 ≤ n)
    (h : Reachable (flaggedStep program n) (flagged (started n body state)) s) (hs : s.machine.Running)
    (result : Int) (taken : Nat) {ne : Int} (hlimit : ne.toNat ≤ pollLimit)
    (hcompleted : ne.toNat ≤ s.machine.completed.length) :
    ∃ e t, s.next result taken ne = some e ∧ flaggedStep program n s e = some t := by
  have hmachine : Reachable (step program n) (started n body state) s.machine := flagged_reaches.mpr ⟨s,h,rfl⟩
  cases hpoint : s.machine.point with
  | firstPost | repost =>
    obtain ⟨m',hm⟩ := post_accepted hn hmachine (by simp [hpoint]) result taken
    refine ⟨.machine (.post result taken),{ s with machine := m' },by simp only [Flagged.next, hpoint],?_⟩
    simp only [flaggedStep, hm, Option.map_some]
  | head =>
    by_cases hentered : s.entered = true
    · obtain ⟨m',hm⟩ : ∃ m', step program n s.machine (.poll ne) = some m' := by
        simp only [step, if_pos hpoint, poll]
        split
        · exact ⟨_,rfl⟩
        · exact ⟨_,if_pos ⟨hlimit,hcompleted⟩⟩
      refine ⟨.machine (.poll ne),{ s with machine := m', entered := false },?_,?_⟩
      · simp only [Flagged.next, hpoint, hentered, if_true]
      · simp only [flaggedStep, hentered, hm, if_true, Option.map_some]
    · have hout : s.entered = false := Bool.eq_false_iff.mpr hentered
      have hnext : s.next result taken ne = some .test := by simp [Flagged.next, hpoint, hout]
      by_cases hloop : s.loop = true
      · exact ⟨.test,{ s with entered := true },hnext,by simp [flaggedStep, hpoint, hout, hloop]⟩
      · refine ⟨.test,{ s with machine := { s.machine with point := .cleanup false } },hnext,?_⟩
        simp [flaggedStep, step, hpoint, hout, hloop]
  | handle i =>
    refine ⟨.machine .handle,{ s with machine := handle program s.machine i },by simp only [Flagged.next, hpoint],?_⟩
    simp only [flaggedStep, step, hpoint, Option.map_some]
  | cleanup failed => exact absurd hpoint (hs failed)

/-- A run from s on in which the flag is cleared: the program takes few steps more, polls again
only if it has tested the flag before, posts at most once, and is not stuck before its cleanup. -/
structure StopsSoon (program : Program σ) (n : Nat) (s : Flagged σ β) (es : List FlaggedEvent) (t : Flagged σ β) :
    Prop where
  steps : spent FlaggedEvent.taken es ≤ 14
  polls : spent FlaggedEvent.polls es ≤ if s.entered then 1 else 0
  posts : spent FlaggedEvent.posts es ≤ 1
  goesOn : t.machine.Running → ∀ (result : Int) (taken : Nat) (ne : Int), ne.toNat ≤ pollLimit →
    ne.toNat ≤ t.machine.completed.length → ∃ e u, t.next result taken ne = some e ∧ flaggedStep program n t e = some u

theorem reachable_set {body : Nat → β} {state : σ}
    (h : Reachable (flaggedStep program n) (flagged (started n body state)) s) : s.Set :=
  h.invariant (I := Flagged.Set) ⟨fun hin => (Bool.false_ne_true hin).elim,Nat.zero_le _⟩
    (fun _ _ _ hs ht => (flaggedStep_steps ht).set hs)

theorem Flagged.Set.steps_le (h : s.Set) : s.steps ≤ 14 := by
  have hbatch := h.batch
  have hlimit : pollLimit = 10 := rfl
  unfold Flagged.steps
  cases s.machine.point with
  | firstPost | repost | cleanup => simp
  | handle i =>
    simp only
    omega
  | head =>
    simp only
    split <;> omega

theorem Flagged.postsLeft_le (s : Flagged σ β) : s.postsLeft ≤ 1 := by
  unfold Flagged.postsLeft
  cases s.machine.point with
  | firstPost | repost | handle | cleanup => simp
  | head =>
    simp only
    split <;> omega

/-- After the signal, wherever it fell, both programs come to their cleanup. -/
theorem signal_stops {body : Nat → β} {state : σ} (hn : 1 ≤ n)
    (h : Reachable (flaggedStep program n) (flagged (started n body state)) s) (hloop : s.loop = false)
    {es : List FlaggedEvent} (hes : run (flaggedStep program n) es s = some t) : StopsSoon program n s es t := by
  have hset := reachable_set h
  have hkept : ∀ (u : Flagged σ β) e v, u.Set ∧ u.loop = false → flaggedStep program n u e = some v →
      (v.Set ∧ v.loop = false) ∧ Spends u e v := by
    rintro u e v ⟨hu,hcleared⟩ hv
    have hsteps := flaggedStep_steps hv
    exact ⟨⟨hsteps.set hu,hsteps.cleared hcleared⟩,hsteps.spends hu hcleared⟩
  have hsteps := run_rank (fun u e v hu hv => (hkept u e v hu hv).imp_right Spends.steps) ⟨hset,hloop⟩ hes
  have hpolls := run_rank (fun u e v hu hv => (hkept u e v hu hv).imp_right Spends.polls) ⟨hset,hloop⟩ hes
  have hposts := run_rank (fun u e v hu hv => (hkept u e v hu hv).imp_right Spends.posts) ⟨hset,hloop⟩ hes
  refine ⟨(Nat.le_add_left _ _).trans (hsteps.2.trans hset.steps_le),(Nat.le_add_left _ _).trans hpolls.2,
    (Nat.le_add_left _ _).trans (hposts.2.trans s.postsLeft_le),?_⟩
  intro hrunning result taken ne hlimit hcompleted
  exact program_goes_on hn (h.run hes) hrunning result taken hlimit hcompleted

/-- The signal falls between the test and the poll of a client with two buffers. -/
theorem signal_stops_client : ∃ (s t : Flagged ClientState SendBody) (es : List FlaggedEvent),
    s.loop = false ∧ s.entered = true ∧ t.machine.point = .cleanup false ∧ es.length = 4 ∧
      StopsSoon (clientProgram ⟨0, 0⟩) 2 s es t := by
  have hbefore : ∃ s, run (flaggedStep (clientProgram ⟨0, 0⟩) 2) [.machine (.post 0 0), .test, .stopLoop]
      (flagged (clientStart 2 ⟨0, 0⟩ ⟨0, 0, 0⟩ (fun _ => 0))) = some s ∧ s.loop = false ∧ s.entered = true ∧
      ∃ t, run (flaggedStep (clientProgram ⟨0, 0⟩) 2)
        [.machine (.complete 0 0 []), .machine (.poll 0), .machine .handle, .test] s = some t ∧
        t.machine.point = .cleanup false := ⟨_,rfl,rfl,rfl,_,rfl,rfl⟩
  obtain ⟨s,hs,hloop,hentered,t,ht,hpoint⟩ := hbefore
  exact ⟨s,t,_,hloop,hentered,hpoint,rfl,signal_stops (by decide) (reachable_of_run _ hs) hloop ht⟩

end IbverbPrototype.Rdma
