import IbverbPrototype.Rdma.ServerReport

/-! What the exit status of the two programs tells of their runs. -/
namespace IbverbPrototype.Rdma
open Foundations.ByteOrder Foundations.EventSystem

variable {σ β : Type}

def exitSuccess : Nat := 0

def exitFailure : Nat := 1

/-- The result main returns once the program is at its cleanup. -/
def Point.result : Point → Option Nat
  | .cleanup failed => some (if failed then exitFailure else exitSuccess)
  | .firstPost | .head | .handle _ | .repost => none

/-- A call to the provider, if the event is one, did not fail. -/
def Event.answered : Event → Bool
  | .post result _ => result = 0
  | .poll ne => 0 ≤ ne
  | .handle | .stop | .complete .. => true

/-- No post was refused, no poll failed, and the first k completions were successes. -/
structure Faultless (es : List Event) (k : Nat) : Prop where
  calls : ∀ e ∈ es, e.answered = true
  completions : ∀ r ∈ (receipts es).take k, r.status = ibvWcSuccess

/-- A program that leaves its loop at a failed completion and at no other. -/
def Program.StopsAtFailure (program : Program σ) : Prop :=
  ∀ wc state, (program.handle wc state).2 = decide (wc.status = ibvWcSuccess)

theorem clientProgram_stopsAtFailure (region : Region) : (clientProgram region).StopsAtFailure := by
  intro wc state
  by_cases hgood : wc.status = ibvWcSuccess
  · simp [clientProgram, hgood]
  · simp [clientProgram, hgood]

theorem serverProgram_stopsAtFailure (region : Region) : (serverProgram region).StopsAtFailure := by
  intro wc state
  rw [serverProgram_handle]

/-- An event that is no fault and delivers nothing among the first k. -/
theorem Faultless.snoc {es : List Event} {e : Event} {k : Nat} (he : e.answered = true)
    (hreceipts : (receipts (es ++ [e])).take k = (receipts es).take k) :
    Faultless (es ++ [e]) k ↔ Faultless es k := by
  constructor
  · rintro ⟨hcalls,hcompletions⟩
    exact ⟨fun e hin => hcalls e (List.mem_append_left _ hin),hreceipts ▸ hcompletions⟩
  · rintro ⟨hcalls,hcompletions⟩
    refine ⟨?_,hreceipts ▸ hcompletions⟩
    intro e' hin
    rcases List.mem_append.mp hin with hin | hlast
    · exact hcalls e' hin
    · exact List.mem_singleton.mp hlast ▸ he

theorem Faultless.quiet {es : List Event} {e : Event} {k : Nat} (he : e.answered = true) (hquiet : e.receipt = none) :
    Faultless (es ++ [e]) k ↔ Faultless es k := by
  refine Faultless.snoc he ?_
  rw [receipts_snoc, hquiet]
  exact congrArg _ (List.append_nil _)

theorem Faultless.succ {es : List Event} {k : Nat} {r : Receipt} (hr : (receipts es)[k]? = some r) :
    Faultless es (k+1) ↔ Faultless es k ∧ r.status = ibvWcSuccess := by
  have htake : (receipts es).take (k+1) = (receipts es).take k ++ [r] := by rw [List.take_add_one, hr, Option.toList]
  constructor
  · rintro ⟨hcalls,hcompletions⟩
    rw [htake] at hcompletions
    exact ⟨⟨hcalls,fun r hin => hcompletions r (List.mem_append_left _ hin)⟩,hcompletions r (by simp)⟩
  · rintro ⟨⟨hcalls,hcompletions⟩,hlast⟩
    refine ⟨hcalls,?_⟩
    rw [htake]
    intro r' hin
    rcases List.mem_append.mp hin with hin | hin
    · exact hcompletions r' hin
    · exact List.mem_singleton.mp hin ▸ hlast

/-- More completions looked at are more that can have failed. -/
theorem Faultless.le {es : List Event} {j k : Nat} (h : Faultless es k) (hjk : j ≤ k) : Faultless es j :=
  ⟨h.calls,fun r hr => h.completions r (List.take_subset_take_left _ hjk hr)⟩

/-- The receipt of the completion at hand. -/
theorem Matched.receipt {s : Machine σ β} {es : List Event} {i : Nat} {wc : Completion} (h : Matched es s)
    (hpoint : s.point = .handle i) (hwc : s.batch[i]? = some wc) :
    s.looked < s.polled ∧ ∃ r, (receipts es)[s.looked]? = some r ∧ r.status = wc.status := by
  obtain ⟨a,ha,rfl,hlt⟩ := h.at_hand hpoint hwc
  refine ⟨hlt,?_⟩
  obtain ⟨wrId,r,-,hr,rfl⟩ := List.getElem?_zipWith_eq_some.mp ha
  exact ⟨r,hr,rfl⟩

/-- The program has left its loop for a fault exactly when the run has shown one. -/
theorem failed_iff {program : Program σ} (hprogram : program.StopsAtFailure) {n : Nat} {body : Nat → β} {state : σ}
    {es : List Event} {s : Machine σ β} (hn : 1 ≤ n) (h : run (step program n) es (started n body state) = some s) :
    s.point = .cleanup true ↔ ¬ Faultless es s.looked := by
  refine run_invariant (I := fun es s => s.point = .cleanup true ↔ ¬ Faultless es s.looked) ?_ ?_ h
  · refine iff_of_false (by rintro ⟨⟩) (not_not.mpr ⟨by rintro _ ⟨⟩,by rintro _ ⟨⟩⟩)
  · intro es s e t hs hI hstep
    have hm := matched_run hs
    have horderly := running_orderly hn (reachable_of_run _ hs)
    have hpolled : s.polled ≤ (receipts es).length := by
      have := hm.delivered
      omega
    have hclean : s.Running → Faultless es s.looked := by
      intro hrun
      by_contra hfault
      exact hrun true (hI.mpr hfault)
    cases step_steps hstep with
    | post result taken start count handed hpoint hhanded =>
      obtain ⟨hrun,hlooked⟩ := posting_origin (hpoint.imp And.left And.left)
      by_cases hresult : result = 0
      · have hnext : Faultless (es ++ [.post result taken]) s.polled :=
          (Faultless.quiet (e := .post result taken) (decide_eq_true hresult) rfl).mpr (hlooked ▸ hclean hrun)
        simpa [hresult, Machine.looked] using hnext
      · refine iff_of_true (if_pos hresult) ?_
        intro hnext
        exact hresult (of_decide_eq_true (hnext.calls _ (List.mem_append_right _ (List.mem_singleton_self _))))
    | pollFailed ne hpoint hne =>
      refine iff_of_true rfl ?_
      intro hnext
      have hle : 0 ≤ ne := of_decide_eq_true (hnext.calls _ (List.mem_append_right _ (List.mem_singleton_self _)))
      omega
    | poll ne hpoint hne hlimit hk =>
      have hlooked : s.looked = s.polled := looked_polled (by rw [hpoint]; rintro _ ⟨⟩)
      have hlater : s.polled+ne.toNat-(s.completed.take ne.toNat).length+0 = s.looked := by
        rw [List.length_take_of_le hk, hlooked]
        omega
      refine iff_of_false (by rintro ⟨⟩) (not_not.mpr ?_)
      change Faultless _ (s.polled+ne.toNat-(s.completed.take ne.toNat).length+0)
      rw [hlater]
      exact (Faultless.quiet (e := .poll ne) (decide_eq_true hne) rfl).mpr (hclean (running_at hpoint (by rintro _ ⟨⟩)))
    | handle i wc hpoint hwc =>
      have hrun : s.Running := running_at hpoint (by rintro _ ⟨⟩)
      have hbatch := hm.batch
      have hi := (List.getElem?_eq_some_iff.mp hwc).1
      obtain ⟨hlt,r,hr,hstatus⟩ := hm.receipt hpoint hwc
      have hquiet : ∀ k, Faultless (es ++ [.handle]) k ↔ Faultless es k :=
        fun k => Faultless.quiet rfl rfl
      have hgo := hprogram wc s.state
      by_cases hgood : wc.status = ibvWcSuccess
      · have hlater : s.polled-s.batch.length+(i+1) = s.looked+1 := by
          simp only [Machine.looked, hpoint]
          omega
        have hnext : Faultless (es ++ [.handle]) (s.looked+1) :=
          (hquiet _).mpr ((Faultless.succ hr).mpr ⟨hclean hrun,hstatus.trans hgood⟩)
        simpa [hgo, hgood, Machine.looked, hlater] using hnext
      · have hnext : ¬ Faultless (es ++ [.handle]) s.polled := by
          intro hfine
          exact hgood (hstatus ▸ ((Faultless.succ hr).mp (((hquiet _).mp hfine).le hlt)).2)
        simpa [hgo, hgood, Machine.looked] using hnext
    | handled i hpoint hwc =>
      have hrun : s.Running := running_at hpoint (by rintro _ ⟨⟩)
      have hlooked : s.looked = s.polled := by
        have hwithin := (horderly hrun).within i hpoint
        have hbatch := hm.batch
        simp only [Machine.looked, hpoint]
        omega
      have hnext : Faultless (es ++ [.handle]) s.polled :=
        (Faultless.quiet rfl rfl).mpr (hlooked ▸ hclean hrun)
      by_cases hbatch : s.batch.length > 0
      · simpa [hbatch, Machine.looked] using hnext
      · simpa [hbatch, Machine.looked] using hnext
    | stop hpoint =>
      have hlooked : s.looked = s.polled := looked_polled (by rw [hpoint]; rintro _ ⟨⟩)
      refine iff_of_false (by rintro ⟨⟩) (not_not.mpr ?_)
      exact (Faultless.quiet rfl rfl).mpr
        (hlooked ▸ hclean (running_at hpoint (by rintro _ ⟨⟩)))
    | complete wrId status byteLen rest data hfirst =>
      have hbound : s.looked ≤ (receipts es).length := (looked_le horderly hm.batch).trans hpolled
      refine hI.trans (not_congr (Faultless.snoc rfl ?_).symm)
      rw [receipts_snoc]
      exact List.take_append_of_le_length hbound

/-- At the end of every run the result is success exactly when the run has shown no fault. -/
def TellsFaults {σ β : Type} (program : Program σ) (n : Nat) (origin : Machine σ β) : Prop :=
  ∀ es s result, run (step program n) es origin = some s → s.point.result = some result →
    (result = exitSuccess ∨ result = exitFailure) ∧ (result = exitSuccess ↔ Faultless es s.polled)

theorem tellsFaults {program : Program σ} (hprogram : program.StopsAtFailure) {n : Nat} (hn : 1 ≤ n)
    (body : Nat → β) (state : σ) : TellsFaults program n (started n body state) := by
  intro es s result h hresult
  have hfailed := failed_iff hprogram hn h
  cases hpoint : s.point with
  | firstPost | head | handle | repost =>
    rw [hpoint] at hresult
    cases hresult
  | cleanup failed =>
    have hlooked : s.looked = s.polled := looked_stopped (fun hrun => hrun failed hpoint)
    rw [hpoint] at hresult hfailed
    rw [hlooked] at hfailed
    obtain rfl := Option.some_inj.mp hresult
    cases failed with
    | true => exact ⟨.inr rfl,iff_of_false (by rintro ⟨⟩) (hfailed.mp rfl)⟩
    | false => exact ⟨.inl rfl,iff_of_true rfl (by_contra fun hfault => nomatch hfailed.mpr hfault)⟩

/-- The exit statuses of the client and the server tell the faults of their runs. -/
theorem exit_statuses_tell {n n' : Nat} (hn : 1 ≤ n) (hn' : 1 ≤ n') (region region' : Region) (target : SendTarget)
    (memory memory' : Nat → Byte) :
    TellsFaults (clientProgram region) n (clientStart n region target memory) ∧
      TellsFaults (serverProgram region') n' (serverStart n' memory') :=
  ⟨tellsFaults (clientProgram_stopsAtFailure region) hn _ _,
    tellsFaults (serverProgram_stopsAtFailure region') hn' _ _⟩

/-- With the numbers of buffers the two programs have. -/
theorem exit_statuses_tell_own :
    TellsFaults (clientProgram ⟨0, 0⟩) 20 (clientStart 20 ⟨0, 0⟩ ⟨0, 0, 0⟩ (fun _ => 0)) ∧
      TellsFaults (serverProgram ⟨0, 0⟩) 100 (serverStart 100 (fun _ => 0)) :=
  exit_statuses_tell (by decide) (by decide) _ _ _ _ _

end IbverbPrototype.Rdma
