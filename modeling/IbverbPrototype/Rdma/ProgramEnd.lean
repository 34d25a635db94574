import IbverbPrototype.Address.CommandLines
import IbverbPrototype.Rdma.ExitStatus
import IbverbPrototype.Rdma.ResourceDiscipline

/-! The two programs from their arguments to their exit, with a cleanup whose calls can be refused:
what the exit status tells and what is left behind. -/
namespace IbverbPrototype.Rdma
open Foundations.ByteOrder Foundations.EventSystem Foundations.ResourceLedger
open Address (ClientForm clientForm)

/-- A release that the provider can refuse, for each resource; a refusal ends the program. -/
def destroy (answers : Resource → Bool) (r : Resource) (w : World) : Except World World :=
  if answers r then .ok (w.release r) else .error (w.use [r])

def destroyIf (answers : Resource → Bool) (r : Resource) (w : World) : Except World World :=
  if w.assigned r then destroy answers r w else .ok w

def internalRdmaCleanupAnswered (answers : Resource → Bool) (w : World) : Except World World := do
  let w ← destroyIf answers .ah w
  let w ← destroy answers .queuePair w
  let w ← destroy answers .completionQueue w
  let w ← destroy answers .protectionDomain w
  destroy answers .context w

def rdmaCleanupAnswered (answers : Resource → Bool) (w : World) : Except World World := do
  let w ← destroy answers .memoryRegion w
  let w ← destroyIf answers .headerMemoryRegion (w.release .buffer)
  let w := ((w.releaseIf .headerBuffer).releaseIf .scatterGather).releaseIf .recvRequests
  internalRdmaCleanupAnswered answers (w.releaseIf .sendRequests)

/-- The releases that can be refused; memory is always taken back. -/
def refusable : List Resource :=
  [.memoryRegion, .headerMemoryRegion, .ah, .queuePair, .completionQueue, .protectionDomain, .context]

variable {σ β : Type}

/-- What main does at its label: the cleanup ends the program itself when it is refused. -/
def mainEnd (answers : Resource → Bool) (c : Machine σ β × World) : Option (Nat × Option World) :=
  c.1.point.result.map (fun result =>
    match rdmaCleanupAnswered answers (c.2.release .result) with
    | .ok w => (result, some w)
    | .error w => (exitFailure, some w))

/-- The set-up exits by itself when it fails; what it leaves then is not looked at here. -/
def mainOf (answers : Resource → Bool) (setUp : Except World World) (loop : World → Option (Machine σ β × World)) :
    Option (Nat × Option World) :=
  match setUp with
  | .error _ => some (exitFailure, none)
  | .ok w => (loop w).bind (mainEnd answers)

/-- Wrong arguments and a signal handler that cannot be installed end main before its set-up. -/
def mainFrom (devName : Option String) (sigaction : Bool) (main : String → Option (Nat × Option World)) :
    Option (Nat × Option World) :=
  match devName with
  | none => some (exitFailure, none)
  | some devName => if sigaction then main devName else some (exitFailure, none)

/-- The command line of rdma_server. -/
def serverForm : List String → Option String
  | [_, driver] => some driver
  | _ => none

/-- rdma_server: its exit status, and what it leaves if it got through its set-up. -/
def serverMain (env : Environment) (answers : Resource → Bool) (n : Nat) (region : Region) (memory : Nat → Byte)
    (sigaction : Bool) (argv : List String) (es : List Event) : Option (Nat × Option World) :=
  mainFrom (serverForm argv) sigaction (fun devName =>
    mainOf answers (rdmaInitServer { env with devName := devName } n .start) (fun w =>
      run (usingStep (serverProgram region) n .recvRequests (fun _ => true)) es (serverStart n memory, w)))

/-- rdma_client, where its messages go being given. -/
def clientMain (env : Environment) (answers : Resource → Bool) (n : Nat) (region : Region) (target : SendTarget)
    (memory : Nat → Byte) (sigaction : Bool) (argv : List String) (es : List Event) : Option (Nat × Option World) :=
  mainFrom ((clientForm argv).map ClientForm.driver) sigaction (fun devName =>
    mainOf answers (rdmaInitClient { env with devName := devName } n .start) (fun w =>
      run (usingStep (clientProgram region) n .sendRequests (fun wc => wc.status = ibvWcSuccess)) es
        (clientStart n region target memory, rounds [.result, .buffer] n w)))

variable {answers : Resource → Bool} {env : Environment} {w : World} {held held' all : Finset Resource} {r : Resource}

theorem destroyIf_answered (h : answers r = true) : destroyIf answers r w = .ok (w.releaseIf r) := by
  unfold destroyIf destroy World.releaseIf
  rw [if_pos h]
  split <;> rfl

/-- Without a refusal it is the cleanup whose calls cannot fail. -/
theorem rdmaCleanupAnswered_eq (h : ∀ r ∈ refusable, answers r = true) (w : World) :
    rdmaCleanupAnswered answers w = .ok (rdmaCleanup w) := by
  simp only [refusable, List.forall_mem_cons] at h
  obtain ⟨hmr,hheader,hah,hqp,hcq,hpd,hcontext,-⟩ := h
  simp only [rdmaCleanupAnswered, internalRdmaCleanupAnswered, destroy, hmr, hqp, hcq, hpd, hcontext, if_true,
    destroyIf_answered hheader, destroyIf_answered hah]
  rfl

/-- Then main leaves what it leaves with that cleanup. -/
theorem mainEnd_answered (h : ∀ r ∈ refusable, answers r = true) (c : Machine σ β × World) :
    (mainEnd answers c).bind Prod.snd = atCleanup c := by
  unfold mainEnd atCleanup
  rw [rdmaCleanupAnswered_eq h]
  cases c.1.point with
  | cleanup failed => rfl
  | firstPost | head | handle | repost => rfl

/-- A part of the cleanup with these releases in it: it goes on with what is still held if none of
them is refused; a refusal leaves something. -/
def Leaves (answers : Resource → Bool) (all : Finset Resource) (calls : List Resource) (assigned : Resource → Bool)
    (held : Finset Resource) : Except World World → Prop
  | .ok w => (∀ r ∈ calls, r ∈ all → answers r = true) ∧ ledger needs w.trace = some held ∧ w.assigned = assigned
  | .error w => (∃ r ∈ calls, r ∈ all ∧ answers r = false) ∧ ∃ left, ledger needs w.trace = some left ∧ left ≠ ∅

theorem Leaves.bind {l more : List Resource} {assigned : Resource → Bool} {m : Except World World}
    {f : World → Except World World} (h : Leaves answers all l assigned held m)
    (hf : ∀ w : World, ledger needs w.trace = some held → w.assigned = assigned →
      Leaves answers all more assigned held' (f w)) : Leaves answers all (l ++ more) assigned held' (m >>= f) := by
  cases m with
  | error w =>
    obtain ⟨⟨r,hr,hrefused⟩,hleft⟩ := h
    exact ⟨⟨r,List.mem_append_left _ hr,hrefused⟩,hleft⟩
  | ok w =>
    obtain ⟨hanswered,hledger,hassigned⟩ := h
    have hmore := hf w hledger hassigned
    change Leaves answers all (l ++ more) assigned held' (f w)
    cases hw : f w with
    | error v =>
      rw [hw] at hmore
      obtain ⟨⟨r,hr,hrefused⟩,hleft⟩ := hmore
      exact ⟨⟨r,List.mem_append_right _ hr,hrefused⟩,hleft⟩
    | ok v =>
      rw [hw] at hmore
      obtain ⟨hanswered',hrest⟩ := hmore
      refine ⟨?_,hrest⟩
      intro r hr
      rcases List.mem_append.mp hr with hr | hr
      · exact hanswered r hr
      · exact hanswered' r hr

theorem destroy_leaves (h : ledger needs w.trace = some held) (hr : r ∈ held) (hall : r ∈ all)
    (hneeds : ∀ d, r ∈ needs d → d ∉ held) :
    Leaves answers all [r] w.assigned (held.erase r) (destroy answers r w) := by
  unfold destroy
  split
  case isTrue hanswer =>
    refine ⟨?_,release_ledger h hr hneeds,rfl⟩
    intro d hd _
    exact List.mem_singleton.mp hd ▸ hanswer
  case isFalse hanswer =>
    exact ⟨⟨r,List.mem_singleton_self r,hall,Bool.not_eq_true _ ▸ hanswer⟩,held,
      use_ledger h (by simpa using hr),Finset.ne_empty_of_mem hr⟩

/-- A release behind a look at the variable. -/
theorem destroyIf_leaves (h : ledger needs w.trace = some held) (hassigned : w.assigned r = true ↔ r ∈ held)
    (hall : r ∈ all ↔ r ∈ held) (hneeds : ∀ d, r ∈ needs d → d ∉ held) :
    Leaves answers all [r] w.assigned (held.erase r) (destroyIf answers r w) := by
  unfold destroyIf
  split
  case isTrue hset =>
    have hr := hassigned.mp hset
    exact destroy_leaves h hr (hall.mpr hr) hneeds
  case isFalse hset =>
    have hr : r ∉ held := fun hin => hset (hassigned.mpr hin)
    refine ⟨?_,by rw [h, Finset.erase_eq_of_notMem hr],rfl⟩
    intro d hd hin
    exact absurd (hall.mp (List.mem_singleton.mp hd ▸ hin)) hr

variable (answers all) in
theorem internalRdmaCleanupAnswered_leaves (h : ledger needs w.trace = some held)
    (hah : w.assigned .ah = true ↔ .ah ∈ held)
    (hcore : ∀ r ∈ [Resource.context, .protectionDomain, .completionQueue, .queuePair], r ∈ held)
    (hfree : .memoryRegion ∉ held ∧ .headerMemoryRegion ∉ held) (hall : ∀ r ∈ held, r ∈ all)
    (hallAh : .ah ∈ all → .ah ∈ held) :
    Leaves answers all [.ah, .queuePair, .completionQueue, .protectionDomain, .context] w.assigned
      (((((held.erase .ah).erase .queuePair).erase .completionQueue).erase .protectionDomain).erase .context)
      (internalRdmaCleanupAnswered answers w) := by
  obtain ⟨hmr,hheader⟩ := hfree
  simp only [List.forall_mem_cons] at hcore
  obtain ⟨hcontext,hpd,hcq,hqp,-⟩ := hcore
  unfold internalRdmaCleanupAnswered
  refine Leaves.bind (l := [.ah]) (destroyIf_leaves h hah ⟨hallAh,hall _⟩ (leaf_unneeded (by decide)))
    fun w hw hassigned => ?_
  rw [← hassigned]
  refine Leaves.bind (l := [.queuePair]) (destroy_leaves hw (by simp [hqp]) (hall _ hqp) (leaf_unneeded (by decide)))
    fun w hw hassigned => ?_
  rw [← hassigned]
  refine Leaves.bind (l := [.completionQueue]) (destroy_leaves hw (by simp [hcq]) (hall _ hcq)
    (by intro d; cases d <;> simp [needs])) fun w hw hassigned => ?_
  rw [← hassigned]
  refine Leaves.bind (l := [.protectionDomain]) (destroy_leaves hw (by simp [hpd]) (hall _ hpd)
    (by intro d; cases d <;> simp [needs, hmr, hheader])) fun w hw hassigned => ?_
  rw [← hassigned]
  exact destroy_leaves hw (by simp [hcontext]) (hall _ hcontext) (by intro d; cases d <;> simp [needs])

variable (answers) in
/-- The whole cleanup goes through exactly if none of its releases is refused. -/
theorem rdmaCleanupAnswered_leaves (h : w.Holds held) (hcore : ∀ r ∈ unguarded, r ∈ held) :
    Leaves answers held refusable w.assigned (held ∩ {.deviceList, .result}) (rdmaCleanupAnswered answers w) := by
  have hguard := h.assigned
  simp only [guarded, unguarded, List.forall_mem_cons] at hguard hcore
  obtain ⟨hheaderMr,hheader,hsg,hrecv,hsend,hah,-⟩ := hguard
  obtain ⟨hcontext,hpd,hcq,hqp,hbuffer,hmr,-⟩ := hcore
  unfold rdmaCleanupAnswered
  refine Leaves.bind (l := [.memoryRegion]) (destroy_leaves h.ledger hmr hmr (leaf_unneeded (by decide)))
    fun v hv hassigned => ?_
  have hfreed := release_ledger hv (r := .buffer) (by simp [hbuffer]) (by intro d; cases d <;> simp [needs])
  rw [← hassigned] at hheaderMr hheader hsg hrecv hsend hah ⊢
  refine Leaves.bind (l := [.headerMemoryRegion]) (destroyIf_leaves hfreed (by simp [hheaderMr]) (by simp)
    (leaf_unneeded (by decide))) fun u hu hsame => ?_
  rw [← hsame] at hheader hsg hrecv hsend hah
  have h4 := releaseIf_ledger hu (r := .headerBuffer) (by simp [hheader]) (by intro d; cases d <;> simp [needs])
  have h5 := releaseIf_ledger h4 (r := .scatterGather) (by simp [hsg]) (leaf_unneeded (by decide))
  have h6 := releaseIf_ledger h5 (r := .recvRequests) (by simp [hrecv]) (leaf_unneeded (by decide))
  have h7 := releaseIf_ledger h6 (r := .sendRequests) (by simp [hsend]) (leaf_unneeded (by decide))
  have hrest := internalRdmaCleanupAnswered_leaves answers held h7 (by simp [hah]) (by simp [*])
    (by simp) (by simp +contextual) (by simp)
  simp only [assigned_releaseIf, hsame] at hrest
  convert hrest using 1
  ext d
  cases d <;> simp

/-- From the set-up to the exit nothing went wrong. -/
structure Flawless (answers : Resource → Bool) (env : Environment) (calls : List Call) (held : Finset Resource)
    (program : Program σ) (n : Nat) (origin : Machine σ β) (es : List Event) : Prop where
  setUp : firstFailure env calls = none
  loop : ∃ s, run (step program n) es origin = some s ∧ Faultless es s.polled
  cleanup : ∀ r ∈ refusable, r ∈ held → answers r = true

/-- What becomes of the resources of a program that got through its set-up: no action on them is
amiss, all are released if no release was refused, and so they are in every success. -/
structure Settled (answers : Resource → Bool) (held : Finset Resource) (status : Nat) (left : Option World) : Prop where
  either : status = exitSuccess ∨ status = exitFailure
  allowed : ∀ w, left = some w → ∀ before a after, w.trace = before ++ a::after → Allowed needs before a
  released : ∀ w, left = some w →
    (Disciplined needs w.trace ↔ ∀ r ∈ refusable, r ∈ held → answers r = true)
  clean : status = exitSuccess → ∃ w, left = some w ∧ Disciplined needs w.trace

theorem settled_none (answers : Resource → Bool) (held : Finset Resource) : Settled answers held exitFailure none :=
  ⟨.inr rfl,by rintro _ ⟨⟩,by rintro _ ⟨⟩,by rintro ⟨⟩⟩

/-- The loop does with its resources at hand what it does without. -/
theorem usingStep_run {program : Program σ} {n : Nat} {requests : Resource} {touches : Completion → Bool}
    {es : List Event} {s : Machine σ β} {c : Machine σ β × World}
    (h : run (usingStep program n requests touches) es (s, w) = some c) : run (step program n) es s = some c.1 := by
  have hstep : ∀ (c : Machine σ β × World) e,
      step program n c.1 (id e) = (usingStep program n requests touches c e).map Prod.fst := by
    intro c e
    rw [usingStep, Option.map_map]
    exact Option.map_id'.symm
  have hrun := run_map hstep es (s, w)
  rw [List.map_id, h] at hrun
  exact hrun

/-- The end of main: a refused release turns every result into a failure. -/
theorem mainEnd_settled {c : Machine σ β × World} {result status : Nat} {left : Option World} (hw : c.2.Holds held)
    (hresult : .result ∈ held) (hcore : ∀ r ∈ unguarded, r ∈ held.erase .result)
    (hrest : held.erase .result ∩ {.deviceList, .result} = ∅) (hpoint : c.1.point.result = some result)
    (heither : result = exitSuccess ∨ result = exitFailure) (h : mainEnd answers c = some (status, left)) :
    Settled answers held status left ∧
      (status = exitSuccess ↔ result = exitSuccess ∧ ∀ r ∈ refusable, r ∈ held → answers r = true) := by
  have hne : ∀ r ∈ refusable, r ≠ .result := by decide
  have hleaves := rdmaCleanupAnswered_leaves answers
    (hw.release hresult (by decide) (leaf_unneeded (by decide))) hcore
  rw [mainEnd, hpoint, Option.map_some] at h
  cases hcleanup : rdmaCleanupAnswered answers (c.2.release .result) with
  | ok v =>
    rw [hcleanup] at hleaves h
    obtain ⟨rfl,rfl⟩ := Prod.mk.inj (Option.some_inj.mp h)
    obtain ⟨hanswered,hledger,-⟩ := hleaves
    have hall : ∀ r ∈ refusable, r ∈ held → answers r = true :=
      fun r hr hin => hanswered r hr (Finset.mem_erase.mpr ⟨hne r hr,hin⟩)
    have hdisciplined : Disciplined needs v.trace := (disciplined_iff v.trace).mpr (hledger.trans (congrArg some hrest))
    refine ⟨⟨heither,?_,?_,fun _ => ⟨v,rfl,hdisciplined⟩⟩,fun hsuccess => ⟨hsuccess,hall⟩,And.left⟩
    · rintro _ ⟨⟩
      exact hdisciplined.allowed
    · rintro _ ⟨⟩
      exact iff_of_true hdisciplined hall
  | error v =>
    rw [hcleanup] at hleaves h
    obtain ⟨rfl,rfl⟩ := Prod.mk.inj (Option.some_inj.mp h)
    obtain ⟨⟨r,hr,hin,hrefused⟩,left,hledger,hsome⟩ := hleaves
    have hnotAll : ¬ ∀ r ∈ refusable, r ∈ held → answers r = true := by
      intro hall
      exact Bool.false_ne_true (hrefused.symm.trans (hall r hr (Finset.mem_of_mem_erase hin)))
    refine ⟨⟨.inr rfl,?_,?_,by rintro ⟨⟩⟩,iff_of_false (by rintro ⟨⟩) (fun hflawless => hnotAll hflawless.2)⟩
    · rintro _ ⟨⟩
      exact (ledger_iff v.trace).mp ⟨left,hledger⟩
    · rintro _ ⟨⟩
      refine iff_of_false ?_ hnotAll
      intro hdisciplined
      exact hsome (Option.some_inj.mp (hledger.symm.trans ((disciplined_iff v.trace).mp hdisciplined)))

/-- A program whose loop keeps what its set-up holds. -/
theorem mainOf_tells {program : Program σ} {n : Nat} {body : Nat → β} {state : σ} {es : List Event} {calls : List Call}
    {setUp : Except World World} {loop : World → Option (Machine σ β × World)} {status : Nat} {left : Option World}
    (hprogram : program.StopsAtFailure) (hn : 1 ≤ n) (hends : Ends env calls held setUp) (hresult : .result ∈ held)
    (hcore : ∀ r ∈ unguarded, r ∈ held.erase .result) (hrest : held.erase .result ∩ {.deviceList, .result} = ∅)
    (hloop : ∀ w c, w.Holds held → loop w = some c →
      c.2.Holds held ∧ run (step program n) es (started n body state) = some c.1)
    (h : mainOf answers setUp loop = some (status, left)) :
    Settled answers held status left ∧
      (status = exitSuccess ↔ Flawless answers env calls held program n (started n body state) es) := by
  cases setUp with
  | error w =>
    obtain ⟨rfl,rfl⟩ := Prod.mk.inj (Option.some_inj.mp h)
    obtain ⟨c,hc,-⟩ := hends
    refine ⟨settled_none answers held,iff_of_false (by rintro ⟨⟩) ?_⟩
    rintro ⟨hnone,-,-⟩
    cases hc.symm.trans hnone
  | ok w =>
    obtain ⟨hnone,hw⟩ := hends
    obtain ⟨c,hc,hend⟩ := Option.bind_eq_some_iff.mp h
    obtain ⟨hheld,hrun⟩ := hloop w c hw hc
    obtain ⟨result,hpoint,-⟩ := Option.map_eq_some_iff.mp hend
    obtain ⟨heither,htells⟩ := tellsFaults hprogram hn body state es c.1 result hrun hpoint
    obtain ⟨hsettled,hsuccess⟩ := mainEnd_settled hheld hresult hcore hrest hpoint heither hend
    refine ⟨hsettled,hsuccess.trans ?_⟩
    constructor
    · rintro ⟨hresult,hall⟩
      exact ⟨hnone,⟨c.1,hrun,htells.mp hresult⟩,hall⟩
    · rintro ⟨-,⟨s,hs,hfine⟩,hall⟩
      obtain rfl := Option.some_inj.mp (hs.symm.trans hrun)
      exact ⟨htells.mpr hfine,hall⟩

theorem mainFrom_tells {devName : Option String} {sigaction : Bool} {main : String → Option (Nat × Option World)}
    {status : Nat} {left : Option World} {P : String → Prop}
    (hmain : ∀ name, main name = some (status, left) →
      Settled answers held status left ∧ (status = exitSuccess ↔ P name))
    (h : mainFrom devName sigaction main = some (status, left)) :
    Settled answers held status left ∧
      (status = exitSuccess ↔ ∃ name, devName = some name ∧ sigaction = true ∧ P name) := by
  unfold mainFrom at h
  split at h
  case h_1 =>
    obtain ⟨rfl,rfl⟩ := Prod.mk.inj (Option.some_inj.mp h)
    refine ⟨settled_none answers held,iff_of_false (by rintro ⟨⟩) ?_⟩
    rintro ⟨name,⟨⟩,-⟩
  case h_2 name =>
    split at h
    case isTrue hsigaction =>
      obtain ⟨hsettled,hsuccess⟩ := hmain name h
      refine ⟨hsettled,hsuccess.trans ⟨fun hP => ⟨name,rfl,hsigaction,hP⟩,?_⟩⟩
      rintro ⟨_,⟨⟩,-,hP⟩
      exact hP
    case isFalse hsigaction =>
      obtain ⟨rfl,rfl⟩ := Prod.mk.inj (Option.some_inj.mp h)
      refine ⟨settled_none answers held,iff_of_false (by rintro ⟨⟩) ?_⟩
      rintro ⟨_,-,hinstalled,-⟩
      exact hsigaction hinstalled

end IbverbPrototype.Rdma
