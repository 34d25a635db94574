import IbverbPrototype.Foundations.DeliveryProgress
import IbverbPrototype.Rdma.ClientServer
import IbverbPrototype.Rdma.LoopEnd

/-! How the two programs go on: by its own steps each works off what waits for it, so that from
every state between them all that is not lost yet can come through. -/
namespace IbverbPrototype.Rdma
open Foundations.ByteOrder Foundations.CyclicInterval Foundations.EventSystem Foundations.LossyChannel
open Foundations.Delivering

section Loop
variable {σ β : Type} {program : Program σ} {n : Nat} {body : Nat → β} {state : σ} {s : Machine σ β}

/-- The steps of a program whose posts are taken, whose polls do not fail and that gets no signal. -/
def Event.onward : Event → Bool
  | .post result _ => result = 0
  | .poll ne => 0 ≤ ne
  | .handle => true
  | .stop | .complete .. => false

theorem onward_poll (k : Nat) : (Event.poll k).onward = true := decide_eq_true (Int.natCast_nonneg k)

theorem onward_receipt {e : Event} (h : e.onward = true) : e.receipt = none := by
  cases e with
  | complete => cases h
  | post | poll | handle | stop => rfl

theorem onward_reliable {e : Event} (h : e.onward = true) : reliable e = true := by
  cases e with
  | complete => cases h
  | post | poll => exact h
  | handle | stop => rfl

theorem onward_unbrought {e : Event} (h : e.onward = true) : e.unbrought = true := by
  cases e with
  | complete => cases h
  | post | poll | handle | stop => rfl

/-- No completion that waits for the program is a failed one. -/
def Machine.Unfailed (s : Machine σ β) : Prop := ∀ wc ∈ s.batch ++ s.completed, wc.status = ibvWcSuccess

/-- A bound on the steps the program has before it until it waits at its loop head with nothing
to poll. -/
def Machine.backlog (s : Machine σ β) : Nat :=
  4*s.completed.length+
    match s.point with
    | .firstPost | .repost => 1
    | .handle i => s.batch.length-i+2
    | .head | .cleanup _ => 0

/-- A program that goes on after a success. -/
def Program.Onward (program : Program σ) : Prop :=
  ∀ wc state, wc.status = ibvWcSuccess → (program.handle wc state).2 = true

theorem poll_accepted {k : Nat} (hpoint : s.point = .head) (hlimit : k ≤ pollLimit) (hk : k ≤ s.completed.length) :
    step program n s (.poll k) = some { s with
      point := .handle 0
      completed := s.completed.drop k
      batch := s.completed.take k
      polled := s.polled+k } := by
  have hne : ¬ (k : Int) < 0 := by omega
  simp only [step, hpoint, if_true, poll, hne, if_false, Int.toNat_natCast, if_pos (And.intro hlimit hk)]

/-- The program takes its next step, which brings it nearer to its wait. -/
theorem exists_onward (hn : 1 ≤ n) (hprogram : program.Onward)
    (h : Reachable (step program n) (started n body state) s) (hrunning : s.Running) (hunfailed : s.Unfailed)
    (hbacklog : 0 < s.backlog) : ∃ e t, e.onward = true ∧ step program n s e = some t ∧ t.Running ∧ t.Unfailed ∧
      t.backlog < s.backlog := by
  cases hpoint : s.point with
  | firstPost | repost =>
    obtain ⟨t,ht⟩ := post_accepted hn h (by simp [hpoint]) 0 0
    refine ⟨.post 0 0,t,rfl,ht,?_⟩
    cases step_steps ht with
    | post result taken start count handed _ hhanded =>
      refine ⟨running_at (p := .head) rfl (by rintro _ ⟨⟩),?_,by simp [Machine.backlog, hpoint]⟩
      intro wc hwc
      exact hunfailed wc (List.mem_append_right _ hwc)
  | head =>
    have hcompleted : 0 < s.completed.length := by
      simp only [Machine.backlog, hpoint] at hbacklog
      omega
    have hlimit : pollLimit = 10 := rfl
    have hpoll := @poll_accepted σ β program n s _ hpoint (Nat.min_le_left pollLimit s.completed.length)
      (Nat.min_le_right _ _)
    refine ⟨_,_,onward_poll _,hpoll,running_at (p := .handle 0) rfl (by rintro _ ⟨⟩),?_,?_⟩
    · intro wc hwc
      rw [List.take_append_drop] at hwc
      exact hunfailed wc (List.mem_append_right _ hwc)
    · simp only [Machine.backlog, hpoint, List.length_drop, List.length_take]
      omega
  | handle i =>
    refine ⟨.handle,handle program s i,rfl,by simp only [step, hpoint],?_⟩
    unfold handle
    cases hwc : s.batch[i]? with
    | none =>
      have hle := List.getElem?_eq_none_iff.mp hwc
      by_cases hbatch : s.batch.length > 0
      · refine ⟨running_at (p := .repost) (if_pos hbatch) (by rintro _ ⟨⟩),hunfailed,?_⟩
        simp only [Machine.backlog, hpoint, hbatch, if_true]
        omega
      · refine ⟨running_at (p := .head) (if_neg hbatch) (by rintro _ ⟨⟩),hunfailed,?_⟩
        simp only [Machine.backlog, hpoint, hbatch, if_false]
        omega
    | some wc =>
      have hi := (List.getElem?_eq_some_iff.mp hwc).1
      have hgo := hprogram wc s.state (hunfailed wc (List.mem_append_left _ (List.mem_of_getElem? hwc)))
      refine ⟨running_at (p := .handle (i+1)) (if_pos hgo) (by rintro _ ⟨⟩),hunfailed,?_⟩
      simp only [Machine.backlog, hpoint, hgo, if_true]
      omega
  | cleanup failed => exact absurd hpoint (hrunning failed)

/-- At the loop head, with nothing to poll and the whole ring posted. -/
structure Machine.Waiting (n : Nat) (s : Machine σ β) : Prop where
  point : s.point = .head
  completed : s.completed = []
  batch : s.batch = []
  requests : s.outstanding.length = n
  posted : s.posted.length = s.polled+n

theorem Machine.Waiting.running (h : s.Waiting n) : s.Running := running_at h.point (by rintro _ ⟨⟩)

theorem waiting_of_backlog (hn : 1 ≤ n) (h : Reachable (step program n) (started n body state) s)
    (hrunning : s.Running) (hbacklog : s.backlog = 0) : s.Waiting n := by
  have hpoint : s.point = .head := by
    cases hpoint : s.point with
    | head => rfl
    | cleanup failed => exact absurd hpoint (hrunning failed)
    | firstPost | repost | handle =>
      simp only [Machine.backlog, hpoint] at hbacklog
      omega
  have hcompleted : s.completed = [] := by
    simp only [Machine.backlog, hpoint] at hbacklog
    exact List.length_eq_zero_iff.mp (by omega)
  obtain hview | ⟨q,hq⟩ := running_turn hn h hrunning
  · have hfirst : s.point = .firstPost := congrArg Machine.point hview
    cases hpoint.symm.trans hfirst
  · have hfit := hq.point
    rw [show (s.view healed).point = .head from hpoint] at hfit
    have hbatch : s.batch = [] := List.map_eq_nil_iff.mp (List.length_eq_zero_iff.mp hfit)
    have htotal := hq.total
    have hpolled := hq.polled
    have hposted := congrArg List.length hq.posted
    simp only [Machine.view, hbatch, hcompleted, List.map_nil, List.length_nil, cyc_length] at htotal hpolled hposted
    exact ⟨hpoint,hcompleted,hbatch,by omega,by omega⟩

/-- By its own steps a running program comes to wait for completions, with all it had looked at. -/
theorem exists_waiting (hn : 1 ≤ n) (hprogram : program.Onward)
    (h : Reachable (step program n) (started n body state) s) (hrunning : s.Running) (hunfailed : s.Unfailed) :
    ∃ t, Reachable (restrict Event.onward (step program n)) s t ∧ t.Waiting n ∧
      t.polled = s.polled+s.completed.length := by
  have hlower : ∀ u, (Reachable (step program n) (started n body state) u ∧ u.Running ∧ u.Unfailed ∧
      u.polled+u.completed.length = s.polled+s.completed.length) → 0 < u.backlog →
      ∃ t, Reachable (restrict Event.onward (step program n)) u t ∧
        (Reachable (step program n) (started n body state) t ∧ t.Running ∧ t.Unfailed ∧
          t.polled+t.completed.length = s.polled+s.completed.length) ∧ t.backlog < u.backlog := by
    rintro u ⟨hu,hrun,hgood,hcount⟩ hpos
    obtain ⟨e,t,he,ht,hrun',hgood',hlt⟩ := exists_onward hn hprogram hu hrun hgood hpos
    have hsame := (step_counts ht).1
    rw [onward_receipt he] at hsame
    exact ⟨t,Reachable.start.next (restrict_eq_some.mpr ⟨he,ht⟩),⟨hu.next ht,hrun',hgood',hsame.trans hcount⟩,hlt⟩
  obtain ⟨t,hst,⟨ht,hrun,-,hcount⟩,hzero⟩ := exists_rank_zero hlower ⟨h,hrunning,hunfailed,rfl⟩
  have hwaiting := waiting_of_backlog hn ht hrun hzero
  rw [hwaiting.completed] at hcount
  exact ⟨t,hst,hwaiting,hcount⟩

/-- What was received well waits as a success. -/
theorem Matched.unfailed {es : List Event} (h : Matched es s) (hgood : ∀ r ∈ receipts es, r.status = ibvWcSuccess) :
    s.Unfailed := by
  intro wc hwc
  rw [h.pending] at hwc
  obtain ⟨a,ha,rfl⟩ := List.mem_map.mp hwc
  obtain ⟨i,hi⟩ := List.mem_iff_getElem?.mp (List.mem_of_mem_drop ha)
  rw [arrivals, List.getElem?_zipWith] at hi
  obtain ⟨wrId,r,-,hr,rfl⟩ : ∃ wrId r, s.posted[i]? = some wrId ∧ (receipts es)[i]? = some r ∧ r.arrival wrId = a := by
    cases hid : s.posted[i]? with
    | none => simp [hid] at hi
    | some wrId =>
      cases hr : (receipts es)[i]? with
      | none => simp [hid, hr] at hi
      | some r => exact ⟨wrId,r,rfl,rfl,by simpa [hid, hr] using hi⟩
  exact hgood r (List.mem_of_getElem? hr)

end Loop

section Server
variable {n : Nat} {region : Region} {memory : Nat → Byte} {l : Listener}

theorem serverProgram_onward (region : Region) : (serverProgram region).Onward := by
  intro wc state hwc
  simp [serverProgram, hwc]

/-- A server that has not stopped and had no receive fail. -/
structure Listener.Live (n : Nat) (region : Region) (memory : Nat → Byte) (l : Listener) : Prop where
  heard : run (step (serverProgram region) n) l.heard (serverStart n memory) = some l.server
  running : l.server.Running
  received : ∀ r ∈ receipts l.heard, r.status = ibvWcSuccess

/-- What the server does on its own adds nothing to what it received. -/
theorem listener_reaches {t : Machine ServerState RecvBody}
    (h : Reachable (restrict Event.onward (step (serverProgram region) n)) l.server t)
    (hl : run (step (serverProgram region) n) l.heard (serverStart n memory) = some l.server) :
    ∃ l', Reachable (serverReceiver n region memory).step l l' ∧ l'.server = t ∧
      run (step (serverProgram region) n) l'.heard (serverStart n memory) = some l'.server ∧
      receipts l'.heard = receipts l.heard := by
  induction h with
  | start => exact ⟨l,.start,rfl,hl,rfl⟩
  | @next s t e _ ht ih =>
    obtain ⟨l',hreach,rfl,hl',hreceipts⟩ := ih
    obtain ⟨he,hstep⟩ := restrict_eq_some.mp ht
    have htake : l'.take n region e = some ⟨t, l'.heard ++ [e]⟩ := by
      rw [Listener.take, hstep]
      rfl
    refine ⟨_,hreach.next (e := e) ?_,rfl,(Listener.take_heard htake hl').1,?_⟩
    · simp only [serverReceiver, onward_unbrought he, if_true]
      exact htake
    · rw [receipts_snoc, onward_receipt he, ← hreceipts]
      exact List.append_nil _

/-- A live server comes to wait at its loop head for the next datagram. -/
theorem Listener.Live.exists_waiting (hn : 1 ≤ n) (hl : l.Live n region memory) :
    ∃ l', Reachable (serverReceiver n region memory).step l l' ∧ l'.Live n region memory ∧ l'.server.Waiting n := by
  have hmatched := matched_run hl.heard
  obtain ⟨t,ht,hwaiting,-⟩ := Rdma.exists_waiting hn (serverProgram_onward region) (reachable_of_run _ hl.heard)
    hl.running (hmatched.unfailed hl.received)
  obtain ⟨l',hreach,rfl,hheard,hreceipts⟩ := listener_reaches ht hl.heard
  exact ⟨l',hreach,⟨hheard,hwaiting.running,by rw [hreceipts]; exact hl.received⟩,hwaiting⟩

/-- There it has a receive posted for it. -/
theorem Listener.Live.exists_heard (hn : 1 ≤ n) (hl : l.Live n region memory) (data : List Byte) :
    ∃ l' l'', Reachable (serverReceiver n region memory).step l l' ∧
      (serverReceiver n region memory).hear l' data = some l'' ∧ l''.Live n region memory := by
  obtain ⟨l',hreach,hl',hwaiting⟩ := hl.exists_waiting hn
  obtain ⟨wrId,rest,hfirst⟩ := List.exists_cons_of_length_pos (hn.trans_eq hwaiting.requests.symm)
  obtain ⟨l'',hhear⟩ : ∃ l'', l'.take n region (arrivalEvent data) = some l'' := by
    simp only [Listener.take, arrivalEvent, step, complete, hfirst, Option.map_some]
    exact ⟨_,rfl⟩
  obtain ⟨hheard,hevents⟩ := Listener.take_heard hhear hl'.heard
  refine ⟨l',l'',hreach,hhear,hheard,?_,?_⟩
  · obtain ⟨t,ht,rfl⟩ := Option.map_eq_some_iff.mp hhear
    cases step_steps ht with
    | complete => exact running_at (p := .head) hwaiting.point (by rintro _ ⟨⟩)
  · intro r hr
    rw [hevents, receipts_snoc, List.mem_append] at hr
    rcases hr with hold | hnew
    · exact hl'.received r hold
    · obtain rfl := List.mem_singleton.mp hnew
      rfl

end Server

section Client
variable {n k : Nat} {region : Region} {target : SendTarget} {memory : Nat → Byte} {s : ClientParty}

theorem clientProgram_onward (region : Region) : (clientProgram region).Onward := by
  intro wc state hwc
  simp [clientProgram, hwc]

theorem client_reaches {t : Machine ClientState SendBody}
    (h : Reachable (restrict Event.onward (step (clientProgram region) n)) s.machine t) :
    Reachable (quietStep (clientSender n region target memory)) s { s with machine := t } := by
  induction h with
  | start => exact .start
  | @next u t e _ ht ih =>
    obtain ⟨he,hstep⟩ := restrict_eq_some.mp ht
    refine ih.next (e := .program e) (quietStep_eq_some.mpr ?_)
    simp only [clientSender, clientStep, onward_receipt he, reliableStep, onward_reliable he, hstep, Option.isNone_none,
      true_or, if_true, Option.map_some]

theorem ClientKept.reaches (hn : 1 ≤ n) (hs : ClientKept n region target memory k s) {t : ClientParty}
    (h : Reachable (quietStep (clientSender n region target memory)) s t) : ClientKept n region target memory k t :=
  h.invariant hs (fun _ _ _ hu ht => ((client_keeps hn).step _ _ _ _ _ hu (quietStep_eq_some.mp ht)).1)

/-- A running client comes to wait for the completions of all its requests. -/
theorem ClientKept.exists_waiting (hn : 1 ≤ n) (hs : ClientKept n region target memory k s)
    (hrunning : s.machine.Running) :
    ∃ t, Reachable (quietStep (clientSender n region target memory)) s t ∧ ClientKept n region target memory k t ∧
      t.machine.Waiting n ∧ t.machine.polled = s.machine.polled+s.machine.completed.length := by
  have hunfailed : s.machine.Unfailed := by
    obtain hstart | ⟨q,hq⟩ := reachable_turn hn hs.machine
    · rw [hstart]
      rintro _ ⟨⟩
    · exact hq.success
  have hmachine : Reachable (step (clientProgram region) n) (clientStart n region target memory) s.machine :=
    hs.machine.unrestricted
  obtain ⟨t,ht,hwaiting,hpolled⟩ :=
    Rdma.exists_waiting hn (clientProgram_onward region) hmachine hrunning hunfailed
  have hreach : Reachable (quietStep (clientSender n region target memory)) s { s with machine := t } :=
    client_reaches ht
  exact ⟨_,hreach,hs.reaches hn hreach,hwaiting,hpolled⟩

/-- A request posted and not read yet can be read. -/
theorem ClientKept.transmits (hn : 1 ≤ n) (hs : ClientKept n region target memory k s)
    (hk : k < s.machine.posted.length) :
    ∃ data, (clientSender n region target memory).step s .transmit =
      some ({ s with transmitted := s.transmitted+1 }, some data) := by
  obtain hstart | ⟨q,hq⟩ := reachable_turn hn hs.machine
  · rw [hstart] at hk
    exact absurd hk (Nat.not_lt_zero k)
  · have hid : s.machine.posted[s.transmitted]? = some (k % n) := by
      rw [hq.posted, cyc_length] at hk
      rw [hs.transmitted, hq.posted, cyc_getElem? n 0 hk, Nat.zero_add]
    have hrequest := initRequests_getElem? (sendBody target) (Nat.mod_lt k hn)
    rw [← hq.requests] at hrequest
    simp only [clientSender, clientStep, hid, hrequest, Option.bind_eq_bind, Option.bind_some]
    exact ⟨_,rfl⟩

/-- What the client can go on from. -/
def ClientParty.Live (n : Nat) (region : Region) (target : SendTarget) (memory : Nat → Byte) (s : ClientParty) : Prop :=
  s.machine.Running ∧ ∃ k, ClientKept n region target memory k s

/-- A client in wait has a request that is not read yet, or all are read and one can complete. -/
theorem ClientParty.Live.exists_sent (hn : 1 ≤ n) (hs : s.Live n region target memory) :
    ∃ s' e t data, Reachable (quietStep (clientSender n region target memory)) s s' ∧
      (clientSender n region target memory).step s' e = some (t, some data) ∧ t.Live n region target memory := by
  obtain ⟨hrunning,k,hkept⟩ := hs
  suffices hunread : ∃ t, Reachable (quietStep (clientSender n region target memory)) s t ∧
      ClientKept n region target memory k t ∧ t.machine.Running ∧ k < t.machine.posted.length by
    obtain ⟨t,hreach,ht,hrun,hlt⟩ := hunread
    obtain ⟨data,hdata⟩ := ht.transmits hn hlt
    exact ⟨t,.transmit,_,data,hreach,hdata,hrun,k+1,((client_keeps hn).step _ _ _ _ _ ht hdata).1⟩
  obtain ⟨t,hst,ht,hwaiting,-⟩ := hkept.exists_waiting hn hrunning
  rcases Nat.lt_or_ge k t.machine.posted.length with hlt | hle
  · exact ⟨t,hst,ht,hwaiting.running,hlt⟩
  · obtain ⟨wrId,rest,hfirst⟩ := List.exists_cons_of_length_pos (hn.trans_eq hwaiting.requests.symm)
    have hposted := hwaiting.posted
    have hless : t.machine.polled+t.machine.completed.length < t.transmitted := by
      rw [hwaiting.completed, ht.transmitted, List.length_nil]
      omega
    obtain ⟨m,hm⟩ : ∃ m, step (clientProgram region) n t.machine (.complete ibvWcSuccess 0 []) = some m := by
      simp only [step, complete, hfirst]
      exact ⟨_,rfl⟩
    have hquiet : quietStep (clientSender n region target memory) t (.program (.complete ibvWcSuccess 0 [])) =
        some { t with machine := m } := by
      refine quietStep_eq_some.mpr ?_
      simp only [clientSender, clientStep, hless, or_true, if_true, reliableStep, reliable, decide_true, hm,
        Option.map_some]
    have hsu := hst.next hquiet
    have hcompleted : m.polled+m.completed.length = t.machine.polled+t.machine.completed.length+1 := (step_counts hm).1
    have hrun : m.Running := by
      cases step_steps hm with
      | complete => exact running_at (p := .head) hwaiting.point (by rintro _ ⟨⟩)
    obtain ⟨v,huv,hv,hwaiting',hpolled⟩ := (hkept.reaches hn hsu).exists_waiting hn hrun
    refine ⟨v,hsu.trans huv,hv,hwaiting'.running,?_⟩
    have hposted' : v.machine.posted.length = m.polled+m.completed.length+n :=
      hwaiting'.posted.trans (congrArg (·+n) hpolled)
    rw [hcompleted, hwaiting.completed, List.length_nil] at hposted'
    have hbound := ht.posted
    omega

end Client

variable {network : Carry → Bool} {n n' : Nat} {region region' : Region} {target : SendTarget}
variable {memory memory' : Nat → Byte} {d : Delivery ClientParty (List Byte) Listener}

/-- Neither program has stopped, and no receive of the server has failed. -/
structure BothLive (d : Delivery ClientParty (List Byte) Listener) : Prop where
  client : d.link.sender.machine.Running
  server : d.receiver.server.Running
  received : ∀ r ∈ receipts d.receiver.heard, r.status = ibvWcSuccess

/-- After d, k messages or more are sent, nothing more is lost, and all the others are printed in
the order they arrived. -/
structure CaughtUp (n' k : Nat) (d d' : Delivery ClientParty (List Byte) Listener) : Prop where
  live : BothLive d'
  sent : k ≤ d'.link.channel.sent.length
  lost : d'.link.channel.lost = d.link.channel.lost
  arrived : ∀ m < d'.link.channel.sent.length, m ∈ d'.link.channel.arrived ∨ m ∈ d.link.channel.lost
  printed : d'.receiver.server.state.printed = d'.link.channel.arrived.mapIdx (numberLine n')

/-- A server in wait has looked at all that arrived. -/
theorem waiting_looked (hn : 1 ≤ n) (h : Converses network n n' region region' target memory memory' d)
    (hgood : ∀ r ∈ receipts d.receiver.heard, r.status = ibvWcSuccess) (hwaiting : d.receiver.server.Waiting n') :
    d.receiver.server.looked = d.link.channel.arrived.length := by
  obtain ⟨hrun,hreceipts⟩ := server_heard hn h
  have hsucceeded : ∀ r ∈ receipts d.receiver.heard, r.succeeded = true := fun r hr => decide_eq_true (hgood r hr)
  rw [List.filter_eq_self.mpr hsucceeded] at hreceipts
  have hdelivered := (matched_run hrun).delivered
  rw [hwaiting.completed, hreceipts, List.length_map] at hdelivered
  rw [looked_polled (by simp [hwaiting.point])]
  exact hdelivered

end IbverbPrototype.Rdma
