import IbverbPrototype.Rdma.RingInvariant

/-! The loop seen through a change of what completions carry. With every completion made
a success, a run with arbitrary statuses is a reliable one until the program stops. -/
namespace IbverbPrototype.Rdma
open Foundations.ByteOrder Foundations.CyclicInterval Foundations.EventSystem

variable {σ β : Type}

def Completion.view (f : Nat → Nat → Nat × Nat) (wc : Completion) : Completion :=
  ⟨wc.wrId, (f wc.status wc.byteLen).1, (f wc.status wc.byteLen).2⟩

def Event.view (f : Nat → Nat → Nat × Nat) : Event → Event
  | .complete status byteLen _ => .complete (f status byteLen).1 (f status byteLen).2 []
  | .post result taken => .post result taken
  | .poll ne => .poll ne
  | .handle => .handle
  | .stop => .stop

/-- The machine without the state of its program. -/
def Machine.view (f : Nat → Nat → Nat × Nat) (s : Machine σ β) : Machine Unit β where
  point := s.point
  requests := s.requests
  outstanding := s.outstanding
  completed := s.completed.map (Completion.view f)
  batch := s.batch.map (Completion.view f)
  state := ()
  posted := s.posted
  polled := s.polled

/-- A program that keeps nothing and only decides whether to go on. -/
def deciding (goOn : Completion → Bool) : Program Unit where
  handle wc s := (s, goOn wc)
  deliver _ _ s := s

private theorem post_view (f : Nat → Nat → Nat × Nat) (n : Nat) (s : Machine σ β) (start count : Nat) (result : Int)
    (taken : Nat) :
    post n (s.view f) start count result taken = (post n s start count result taken).map (Machine.view f) := by
  change (postRequests s.requests n start count result).handed.bind _ =
    ((postRequests s.requests n start count result).handed.bind _).map _
  cases (postRequests s.requests n start count result).handed with
  | none => rfl
  | some handed => rfl

private theorem poll_view (f : Nat → Nat → Nat × Nat) (s : Machine σ β) (ne : Int) :
    poll (s.view f) ne = (poll s ne).map (Machine.view f) := by
  have hlen : (s.view f).completed.length = s.completed.length := List.length_map _
  unfold poll
  rw [hlen]
  split
  · rfl
  · split
    · simp only [Machine.view, Option.map_some, List.map_take, List.map_drop]
    · rfl

private theorem handle_view {f : Nat → Nat → Nat × Nat} {program : Program σ} {goOn : Completion → Bool}
    {s : Machine σ β} {i : Nat}
    (h : ∀ wc, s.batch[i]? = some wc → goOn (wc.view f) = (program.handle wc s.state).2) :
    handle (deciding goOn) (s.view f) i = (handle program s i).view f := by
  have hget : (s.view f).batch[i]? = s.batch[i]?.map (Completion.view f) := List.getElem?_map
  have hlen : (s.view f).batch.length = s.batch.length := List.length_map _
  unfold handle
  rw [hget, hlen]
  cases hwc : s.batch[i]? with
  | none => rfl
  | some wc =>
    simp only [Option.map_some, deciding, h wc hwc]
    rfl

/-- The view of a step is a step of the view, if the program decides by what the view keeps. -/
theorem step_view {f : Nat → Nat → Nat × Nat} {program : Program σ} {goOn : Completion → Bool} {n : Nat}
    {s : Machine σ β} {e : Event} (h : ∀ i wc, s.point = .handle i → s.batch[i]? = some wc → e = .handle →
      goOn (wc.view f) = (program.handle wc s.state).2) :
    step (deciding goOn) n (s.view f) (e.view f) = (step program n s e).map (Machine.view f) := by
  cases e with
  | post result taken =>
    simp only [step, Event.view, Machine.view]
    cases s.point with
    | firstPost => exact post_view f n s 0 n result taken
    | repost =>
      cases hbatch : s.batch with
      | nil => rfl
      | cons wc rest =>
        have hlen : (rest.map (Completion.view f)).length = rest.length := List.length_map _
        have hpost := post_view f n s wc.wrId s.batch.length result taken
        simp only [Machine.view, hbatch, List.map_cons, List.length_cons, hlen] at hpost ⊢
        exact hpost
    | head | handle | cleanup => rfl
  | poll ne =>
    change (if s.point = .head then poll (s.view f) ne else none) = _
    rw [step]
    split
    · exact poll_view f s ne
    · rfl
  | handle =>
    simp only [step, Event.view]
    cases hpoint : s.point with
    | handle i =>
      have hview := handle_view (fun wc hwc => h i wc hpoint hwc rfl)
      simp only [Machine.view, hpoint] at hview ⊢
      exact congrArg some hview
    | firstPost | head | repost | cleanup => simp [Machine.view, hpoint]
  | stop =>
    change (if s.point = .head then _ else none) = _
    rw [step]
    split <;> rfl
  | complete status byteLen data =>
    simp only [step, complete, Event.view, Machine.view]
    cases s.outstanding with
    | nil => rfl
    | cons wrId rest => simp [Machine.view, Completion.view, deciding]

/-- The program has not left its loop. -/
def Machine.Running (s : Machine σ β) : Prop := ∀ failed, s.point ≠ .cleanup failed

theorem running_at {s : Machine σ β} {p : Point} (hpoint : s.point = p) (hp : ∀ failed, p ≠ .cleanup failed) :
    s.Running := by
  rw [← hpoint] at hp
  exact hp

/-- The program can only stop, never start again. -/
theorem Steps.running {program : Program σ} {n : Nat} {s t : Machine σ β} {e : Event} (h : Steps program n s e t)
    (ht : t.Running) : s.Running := by
  intro failed hs
  cases h with
  | post _ _ _ _ _ hpoint =>
    obtain ⟨hfirst,-⟩ | ⟨hrepost,-⟩ := hpoint
    · cases hs.symm.trans hfirst
    · cases hs.symm.trans hrepost
  | pollFailed _ hpoint => cases hs.symm.trans hpoint
  | poll _ hpoint => cases hs.symm.trans hpoint
  | handle _ _ hpoint => cases hs.symm.trans hpoint
  | handled _ hpoint => cases hs.symm.trans hpoint
  | stop hpoint => cases hs.symm.trans hpoint
  | complete => exact ht failed hs

/-- Every completion a success. -/
def healed (_ byteLen : Nat) : Nat × Nat := (ibvWcSuccess, byteLen)

/-- While the program runs its provider is reliable up to the statuses. -/
theorem Steps.reliable_healed {program : Program σ} {n : Nat} {s t : Machine σ β} {e : Event}
    (h : Steps program n s e t) (ht : t.Running) : reliable (e.view healed) = true := by
  cases h with
  | post result =>
    refine decide_eq_true ?_
    by_contra hresult
    exact ht true (if_pos hresult)
  | pollFailed => exact absurd rfl (ht true)
  | poll ne _ hne => exact decide_eq_true hne
  | handle | handled | stop | complete => rfl

/-- A completion after which the program still runs is one it went on from. -/
theorem Steps.goOn {program : Program σ} {n i : Nat} {s t : Machine σ β} {wc : Completion}
    (h : Steps program n s .handle t) (ht : t.Running) (hpoint : s.point = .handle i) (hwc : s.batch[i]? = some wc) :
    (program.handle wc s.state).2 = true := by
  cases h with
  | handle j wc' hpoint' hwc' =>
    obtain rfl := Point.handle.inj (hpoint.symm.trans hpoint')
    obtain rfl := Option.some_inj.mp (hwc.symm.trans hwc')
    by_contra hstop
    exact ht true (if_neg hstop)
  | handled j hpoint' hle =>
    obtain rfl := Point.handle.inj (hpoint.symm.trans hpoint')
    rw [List.getElem?_eq_none_iff.mpr hle] at hwc
    cases hwc

private theorem reachable_healed {program : Program σ} {n : Nat} {body : Nat → β} {state : σ} {s : Machine σ β}
    (h : Reachable (step program n) (started n body state) s) (hs : s.Running) :
    Reachable (reliableStep (deciding (fun _ => true)) n) (started n body ()) (s.view healed) := by
  induction h with
  | start => exact .start
  | @next u v e _ hst ih =>
    have hsteps := step_steps hst
    have hview : step (deciding (fun _ => true)) n (u.view healed) (e.view healed) = some (v.view healed) := by
      rw [step_view, hst]
      · rfl
      · rintro i wc hpoint hwc rfl
        exact (hsteps.goOn hs hpoint hwc).symm
    have hreliable :
        reliableStep (deciding (fun _ => true)) n (u.view healed) (e.view healed) = some (v.view healed) := by
      rw [reliableStep, if_pos (hsteps.reliable_healed hs)]
      exact hview
    exact (ih (hsteps.running hs)).next hreliable

/-- While the program runs, whatever the statuses, the ring is at its start or in some turn. -/
theorem running_turn {program : Program σ} {n : Nat} {body : Nat → β} {state : σ} {s : Machine σ β} (hn : 1 ≤ n)
    (h : Reachable (step program n) (started n body state) s) (hs : s.Running) :
    s.view healed = started n body () ∨ ∃ q, Turn n body (s.view healed) q :=
  reachable_turn hn (reachable_healed h hs)

/-- What a post hands over is a slice of the ring that goes on where the posts before it ended. -/
theorem posting_slice {program : Program σ} {n start count : Nat} {body : Nat → β} {state : σ} {s : Machine σ β}
    (hn : 1 ≤ n) (h : Reachable (step program n) (started n body state) s)
    (hpoint : s.point = .firstPost ∧ start = 0 ∧ count = n ∨
      s.point = .repost ∧ ∃ wc rest, s.batch = wc::rest ∧ start = wc.wrId ∧ count = s.batch.length) :
    s.requests = initRequests n body ∧ start < n ∧ 1 ≤ count ∧ count ≤ n ∧
      ∃ p, s.posted = cyc n 0 p ∧ start = p % n := by
  obtain ⟨hfirst,rfl,rfl⟩ | ⟨hrepost,wc,rest,hbatch,rfl,rfl⟩ := hpoint
  · obtain hview | ⟨q,hq⟩ := running_turn hn h (running_at hfirst (by rintro _ ⟨⟩))
    · exact ⟨congrArg Machine.requests hview,hn,hn,le_rfl,0,congrArg Machine.posted hview,(Nat.zero_mod _).symm⟩
    · have hfit := hq.point
      rw [show (s.view healed).point = .firstPost from hfirst] at hfit
      exact hfit.elim
  · obtain hview | ⟨q,hq⟩ := running_turn hn h (running_at hrepost (by rintro _ ⟨⟩))
    · have hpoint : s.point = .firstPost := congrArg Machine.point hview
      cases hrepost.symm.trans hpoint
    · have hviewed : (s.view healed).batch = wc.view healed::rest.map (Completion.view healed) := by
        rw [← List.map_cons, ← hbatch]
        rfl
      have hstart : (wc.view healed).wrId = q % n := hq.first_wrId hviewed
      change wc.wrId = q % n at hstart
      have hle : s.batch.length ≤ n := (List.length_map _).symm.trans_le hq.batch_le
      refine ⟨hq.requests,hstart ▸ Nat.mod_lt q hn,by rw [hbatch]; exact Nat.succ_pos _,hle,q+n,hq.posted,?_⟩
      rw [hstart, Nat.add_mod_right]

/-- What a post adds to the requests of a run: a slice, or as much of it as the provider took. -/
theorem posting_ids {program : Program σ} {n start count : Nat} {body : Nat → β} {state : σ} {s : Machine σ β}
    {result : Int} {handed : List (WorkRequest β)} (hn : 1 ≤ n) (h : Reachable (step program n) (started n body state) s)
    (hpoint : s.point = .firstPost ∧ start = 0 ∧ count = n ∨
      s.point = .repost ∧ ∃ wc rest, s.batch = wc::rest ∧ start = wc.wrId ∧ count = s.batch.length)
    (hhanded : (postRequests s.requests n start count result).handed = some handed) (taken : Nat) :
    ∃ k, k ≤ count ∧ (if result = 0 then handed else handed.take taken).map WorkRequest.wrId = cyc n start k := by
  obtain ⟨hrequests,hstart,hc,hcn,-⟩ := posting_slice hn h hpoint
  rw [hrequests] at hhanded
  obtain rfl := Option.some_inj.mp (hhanded.symm.trans (postRequests_slice body result hstart hc hcn).2)
  have hids : ((cyc n start count).map (handedRequest n ((start+count-1) % n) body)).map WorkRequest.wrId =
      cyc n start count := by
    rw [List.map_map]
    exact List.map_id _
  split
  · exact ⟨count,le_rfl,hids⟩
  · refine ⟨min taken count,Nat.min_le_right _ _,?_⟩
    rw [List.map_take, hids, ← cyc_take n start (Nat.min_le_right taken count)]
    simp

/-- Whatever the provider answers, the posts of a run go around the ring in order. -/
theorem reachable_posted {program : Program σ} {n : Nat} {body : Nat → β} {state : σ} {s : Machine σ β} (hn : 1 ≤ n)
    (h : Reachable (step program n) (started n body state) s) : s.posted = cyc n 0 s.posted.length := by
  suffices hall : ∃ k, s.posted = cyc n 0 k by
    obtain ⟨k,hk⟩ := hall
    rw [hk, cyc_length]
  induction h with
  | start => exact ⟨0,rfl⟩
  | @next u v e hu hv ih =>
    cases step_steps hv with
    | post result taken start count handed hpoint hhanded =>
      obtain ⟨-,-,-,-,p,hp,hplace⟩ := posting_slice hn hu hpoint
      obtain ⟨k,-,hids⟩ := posting_ids hn hu hpoint hhanded taken
      have hturn : cyc n start k = cyc n (0+p) k := by
        rw [Nat.zero_add, hplace]
        exact cyc_congr (Nat.mod_mod p n) k
      dsimp only
      exact ⟨p+k,by rw [hp, hids, hturn, cyc_append]⟩
    | pollFailed | poll | handle | handled | stop | complete => exact ih

end IbverbPrototype.Rdma
