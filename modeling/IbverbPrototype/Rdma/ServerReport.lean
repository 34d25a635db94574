import Mathlib.Data.List.TakeWhile
import IbverbPrototype.Rdma.AnyStatus
import IbverbPrototype.Rdma.Arrivals
import IbverbPrototype.Rdma.Programs

/-! What the server prints in a run with arbitrary statuses: one line for each polled
completion, the failed one that ends the run among them. -/
namespace IbverbPrototype.Rdma
open Foundations.ByteOrder Foundations.CyclicInterval Foundations.EventSystem
open Roce (msgSize)

def Arrival.succeeded (a : Arrival) : Bool := a.wc.status = ibvWcSuccess

/-- The line for a completion, its byte read as the signed char it is printed as. -/
def Arrival.shown (a : Arrival) : MessageLine := ⟨a.wc.wrId, a.sent.toInt, a.wc.byteLen⟩

/-- The line with the value memset stored. -/
def Arrival.reported (a : Arrival) : MessageLine := ⟨a.wc.wrId, a.sent.toNat, a.wc.byteLen⟩

/-- A successful completion brings a datagram. -/
def Delivered (es : List Event) : Prop := ∀ r ∈ receipts es, r.status = ibvWcSuccess → r.data ≠ []

/-- The lines are those of the first k completions, all of them successes. -/
def Told (as : List Arrival) (k : Nat) (printed : List MessageLine) : Prop :=
  printed = (as.take k).map Arrival.shown ∧ ∀ a ∈ as.take k, a.succeeded = true

/-- The lines are those before the first failure and one for the failure. -/
def ToldFailure (as : List Arrival) (polled : Nat) (printed : List MessageLine) : Prop :=
  ∃ k a lines line, k < polled ∧ as[k]? = some a ∧ a.succeeded = false ∧ Told as k lines ∧ printed = lines ++ [line]

/-- What is printed follows the completions looked at, and the buffers of those still to be
looked at hold their datagrams. -/
structure Followed (region : Region) (es : List Event) (s : Machine ServerState RecvBody) : Prop where
  told : Told (arrivals s.posted es) s.looked s.state.printed ∨
    ¬ s.Running ∧ ToldFailure (arrivals s.posted es) s.polled s.state.printed
  held : s.Running → ∀ a ∈ (arrivals s.posted es).drop s.looked, a.succeeded = true →
    s.state.memory (dataBuffer region a.wc.wrId) = a.sent

/-- While a program runs it stands within its batch, and no request is at two places. -/
structure Orderly {σ β : Type} (s : Machine σ β) : Prop where
  within : ∀ i, s.point = .handle i → i ≤ s.batch.length
  nodup : (s.batch.map Completion.wrId ++ s.completed.map Completion.wrId ++ s.outstanding).Nodup

theorem running_orderly {σ β : Type} {program : Program σ} {n : Nat} {body : Nat → β} {state : σ} {s : Machine σ β}
    (hn : 1 ≤ n) (h : Reachable (step program n) (started n body state) s) (hs : s.Running) : Orderly s := by
  have hids : ∀ l : List Completion,
      (l.map (Completion.view healed)).map Completion.wrId = l.map Completion.wrId := by
    intro l
    rw [List.map_map]
    rfl
  obtain hview | ⟨q,hq⟩ := running_turn hn h hs
  · have hpoint : s.point = .firstPost := congrArg Machine.point hview
    have hbatch : s.batch = [] := List.map_eq_nil_iff.mp (congrArg Machine.batch hview)
    have hcompleted : s.completed = [] := List.map_eq_nil_iff.mp (congrArg Machine.completed hview)
    have houtstanding : s.outstanding = [] := congrArg Machine.outstanding hview
    refine ⟨?_,?_⟩
    · intro i hi
      cases hpoint.symm.trans hi
    · rw [hbatch, hcompleted, houtstanding]
      exact List.nodup_nil
  · refine ⟨?_,?_⟩
    · intro i hi
      have hfit := hq.point
      rw [show (s.view healed).point = .handle i from hi] at hfit
      exact hfit.trans_eq (List.length_map _)
    · have hturn := hq.ids
      simp only [Machine.view, hids] at hturn
      rw [hturn]
      exact cyc_nodup (le_refl n)

theorem Told.append {as : List Arrival} {k : Nat} {printed : List MessageLine} (h : Told as k printed)
    (hk : k ≤ as.length) (bs : List Arrival) : Told (as ++ bs) k printed := by
  unfold Told
  rw [List.take_append_of_le_length hk]
  exact h

theorem Told.next {as : List Arrival} {k : Nat} {printed : List MessageLine} {a : Arrival} (h : Told as k printed)
    (ha : as[k]? = some a) (hgood : a.succeeded = true) : Told as (k+1) (printed ++ [a.shown]) := by
  obtain ⟨hprinted,hall⟩ := h
  have htake : as.take (k+1) = as.take k ++ [a] := by rw [List.take_add_one, ha]; rfl
  refine ⟨?_,?_⟩
  · rw [htake, List.map_append, ← hprinted]
    rfl
  · intro b hb
    rw [htake, List.mem_append, List.mem_singleton] at hb
    obtain hold | rfl := hb
    · exact hall b hold
    · exact hgood

theorem ToldFailure.append {as : List Arrival} {polled : Nat} {printed : List MessageLine}
    (h : ToldFailure as polled printed) (bs : List Arrival) : ToldFailure (as ++ bs) polled printed := by
  obtain ⟨k,a,lines,line,hk,ha,hfailed,htold,hprinted⟩ := h
  have hlt : k < as.length := (List.getElem?_eq_some_iff.mp ha).1
  refine ⟨k,a,lines,line,hk,?_,hfailed,htold.append hlt.le bs,hprinted⟩
  rw [List.getElem?_append_left hlt]
  exact ha

variable {n : Nat} {region : Region} {memory : Nat → Byte} {es : List Event} {s t : Machine ServerState RecvBody}

theorem followed_started : Followed region [] (serverStart n memory) :=
  ⟨.inl ⟨rfl,by rintro _ ⟨⟩⟩,by rintro _ _ ⟨⟩⟩

/-- The completion at hand and the buffer it names. -/
theorem Matched.at_hand {σ β : Type} {s : Machine σ β} {i : Nat} {wc : Completion} (h : Matched es s)
    (hpoint : s.point = .handle i) (hwc : s.batch[i]? = some wc) :
    ∃ a, (arrivals s.posted es)[s.looked]? = some a ∧ a.wc = wc ∧ s.looked < s.polled := by
  have hi : i < s.batch.length := (List.getElem?_eq_some_iff.mp hwc).1
  have hlooked : s.looked = s.polled-s.batch.length+i := by simp only [Machine.looked, hpoint]
  have hbatch := h.batch
  have hget := congrArg (·[i]?) h.pending
  rw [List.getElem?_append_left hi, hwc, List.getElem?_map, List.getElem?_drop, ← hlooked] at hget
  obtain ⟨a,ha,hawc⟩ := Option.map_eq_some_iff.mp hget.symm
  exact ⟨a,ha,hawc,by omega⟩

/-- A step that prints and delivers nothing. -/
theorem Followed.keep {e : Event} (hf : Followed region es s) (hs : s.Running)
    (harrivals : arrivals t.posted (es ++ [e]) = arrivals s.posted es) (hlooked : t.looked = s.looked)
    (hstate : t.state = s.state) : Followed region (es ++ [e]) t := by
  obtain ⟨htold | hstopped,hheld⟩ := hf
  · refine ⟨.inl ?_,fun _ => ?_⟩
    · rw [harrivals, hlooked, hstate]
      exact htold
    · rw [harrivals, hlooked, hstate]
      exact hheld hs
  · exact absurd hs hstopped.1

theorem serverProgram_handle (wc : Completion) (state : ServerState) :
    (serverProgram region).handle wc state =
      ({ state with printed :=
          state.printed ++ [⟨wc.wrId, (state.memory (dataBuffer region wc.wrId)).toInt, wc.byteLen⟩] },
        decide (wc.status = ibvWcSuccess)) := by
  by_cases hgood : wc.status = ibvWcSuccess
  · simp [serverProgram, hgood]
  · simp [serverProgram, hgood]

/-- The completion at hand gets its line; a failure ends the run. -/
theorem Followed.handle {i : Nat} {wc : Completion} (hf : Followed region es s) (hm : Matched es s)
    (hpoint : s.point = .handle i) (hwc : s.batch[i]? = some wc) :
    Followed region (es ++ [.handle]) { s with
      point := if ((serverProgram region).handle wc s.state).2 then .handle (i+1) else .cleanup true
      state := ((serverProgram region).handle wc s.state).1 } := by
  have hrun : s.Running := running_at hpoint (by rintro _ ⟨⟩)
  have hlooked : s.looked = s.polled-s.batch.length+i := by simp only [Machine.looked, hpoint]
  have hsame : arrivals s.posted (es ++ [.handle]) = arrivals s.posted es := arrivals_quiet s.posted es rfl
  obtain ⟨a,ha,rfl,hlt⟩ := hm.at_hand hpoint hwc
  obtain htold | hstopped := hf.told
  case inr => exact absurd hrun hstopped.1
  rw [serverProgram_handle]
  by_cases hgood : a.wc.status = ibvWcSuccess
  · have hbyte : s.state.memory (dataBuffer region a.wc.wrId) = a.sent := by
      refine hf.held hrun a ?_ (decide_eq_true hgood)
      exact List.mem_of_getElem? (i := 0) (by rw [List.getElem?_drop, Nat.add_zero, ha])
    have hnext := htold.next ha (decide_eq_true hgood)
    simp only [hgood, hbyte, decide_true, if_true]
    refine ⟨.inl ?_,?_⟩
    · change Told (arrivals s.posted _) (s.polled-s.batch.length+(i+1)) _
      rw [hsame, ← Nat.add_assoc, ← hlooked]
      exact hnext
    · intro _ b hb hgood'
      change b ∈ (arrivals s.posted _).drop (s.polled-s.batch.length+(i+1)) at hb
      rw [hsame, ← Nat.add_assoc, ← hlooked, ← List.drop_drop] at hb
      exact hf.held hrun b (List.mem_of_mem_drop hb) hgood'
  · simp only [hgood, decide_false]
    refine ⟨.inr ⟨fun hs => hs true rfl,s.looked,a,s.state.printed,_,hlt,?_,decide_eq_false hgood,?_,rfl⟩,?_⟩
    · exact hsame ▸ ha
    · exact hsame ▸ htold
    · intro hs
      exact absurd rfl (hs true)

theorem looked_le {σ β : Type} {s : Machine σ β} (horderly : s.Running → Orderly s)
    (hbatch : s.batch.length ≤ s.polled) : s.looked ≤ s.polled := by
  cases hpoint : s.point with
  | handle i =>
    have hi := (horderly (running_at hpoint (by rintro _ ⟨⟩))).within i hpoint
    simp only [Machine.looked, hpoint]
    omega
  | firstPost | head | repost | cleanup => exact (looked_polled (by rw [hpoint]; rintro _ ⟨⟩)).le

/-- A completion still to be looked at is in the batch or in the completion queue. -/
theorem Matched.waiting {σ β : Type} {s : Machine σ β} {a : Arrival} (h : Matched es s)
    (ha : a ∈ (arrivals s.posted es).drop s.looked) : a.wc ∈ s.batch ++ s.completed := by
  have hbase : s.polled-s.batch.length ≤ s.looked := by
    unfold Machine.looked
    split <;> omega
  rw [h.pending]
  refine List.mem_map_of_mem ?_
  rw [← Nat.add_sub_cancel' hbase, ← List.drop_drop] at ha
  exact List.mem_of_mem_drop ha

/-- A datagram goes into a buffer whose completion is still to be looked at. -/
theorem Followed.complete {wrId status byteLen : Nat} {rest : List Nat} {data : List Byte}
    (hf : Followed region es s) (hm : Matched es s) (horderly : s.Running → Orderly s)
    (hfirst : s.outstanding = wrId::rest) (hdata : status = ibvWcSuccess → data ≠ []) :
    Followed region (es ++ [.complete status byteLen data]) { s with
      outstanding := rest
      completed := s.completed ++ [⟨wrId, status, byteLen⟩]
      state := (serverProgram region).deliver wrId data s.state } := by
  have hmore := arrivals_complete (hm.outstanding.symm.trans hfirst) status byteLen data
  have hle : s.looked ≤ (arrivals s.posted es).length := by
    rw [hm.arrivals_length]
    exact (looked_le horderly hm.batch).trans (Nat.le_add_right _ _)
  refine ⟨?_,?_⟩
  · change Told (arrivals s.posted _) s.looked s.state.printed ∨
      ¬ s.Running ∧ ToldFailure (arrivals s.posted _) s.polled s.state.printed
    rw [hmore]
    exact hf.told.imp (fun h => h.append hle _) (fun h => ⟨h.1,h.2.append _⟩)
  · intro hs a ha hgood
    change a ∈ (arrivals s.posted _).drop s.looked at ha
    change writeBytes s.state.memory (dataBuffer region wrId) (data.take msgSize) (dataBuffer region a.wc.wrId) =
      a.sent
    rw [hmore, List.drop_append_of_le_length hle, List.mem_append, List.mem_singleton] at ha
    obtain hold | rfl := ha
    · have hne : wrId ≠ a.wc.wrId := by
        have hnodup := (horderly hs).nodup
        rw [← List.map_append, hfirst] at hnodup
        exact ((List.nodup_append.mp hnodup).2.2 _ (List.mem_map_of_mem (hm.waiting hold)) _ List.mem_cons_self).symm
      rw [writeBytes_other s.state.memory data hne]
      exact hf.held hs a hold hgood
    · exact writeBytes_first s.state.memory (hdata (of_decide_eq_true hgood))

/-- A post is made by a running program that has looked at all it polled. -/
theorem posting_origin {σ β : Type} {s : Machine σ β} (hpoint : s.point = .firstPost ∨ s.point = .repost) :
    s.Running ∧ s.looked = s.polled := by
  obtain hfirst | hrepost := hpoint
  · exact ⟨running_at hfirst (by rintro _ ⟨⟩),looked_polled (by rw [hfirst]; rintro _ ⟨⟩)⟩
  · exact ⟨running_at hrepost (by rintro _ ⟨⟩),looked_polled (by rw [hrepost]; rintro _ ⟨⟩)⟩

theorem Followed.steps {e : Event} (hf : Followed region es s) (hm : Matched es s) (horderly : s.Running → Orderly s)
    (hdata : ∀ r, e.receipt = some r → r.status = ibvWcSuccess → r.data ≠ [])
    (hs : Steps (serverProgram region) n s e t) : Followed region (es ++ [e]) t := by
  cases hs with
  | handle i wc hpoint hwc => exact hf.handle hm hpoint hwc
  | complete wrId status byteLen rest data hfirst => exact hf.complete hm horderly hfirst (hdata _ rfl)
  | post result taken start count handed hpoint hhanded =>
    obtain ⟨hrun,hlooked⟩ := posting_origin (hpoint.imp And.left And.left)
    refine hf.keep hrun ?_ ?_ rfl
    · rw [arrivals_quiet _ es (e := .post result taken) rfl]
      exact arrivals_posted hm.posted _
    · rw [hlooked]
      refine looked_polled ?_
      change ∀ i, (if result ≠ 0 then Point.cleanup true else .head) ≠ .handle i
      split <;> rintro _ ⟨⟩
  | pollFailed ne hpoint =>
    refine hf.keep (running_at hpoint (by rintro _ ⟨⟩)) (arrivals_quiet _ es rfl) ?_ rfl
    simp only [Machine.looked, hpoint]
  | poll ne hpoint hne hlimit hk =>
    refine hf.keep (running_at hpoint (by rintro _ ⟨⟩)) (arrivals_quiet _ es rfl) ?_ rfl
    have htake : (s.completed.take ne.toNat).length = ne.toNat := List.length_take_of_le hk
    simp only [Machine.looked, hpoint, htake]
    omega
  | handled i hpoint hwc =>
    have hrun : s.Running := running_at hpoint (by rintro _ ⟨⟩)
    have hi := (horderly hrun).within i hpoint
    have hbatch := hm.batch
    refine hf.keep hrun (arrivals_quiet _ es rfl) ?_ rfl
    have hlooked : s.looked = s.polled := by
      simp only [Machine.looked, hpoint]
      omega
    rw [hlooked]
    refine looked_polled ?_
    change ∀ i, (if s.batch.length > 0 then Point.repost else .head) ≠ .handle i
    split <;> rintro _ ⟨⟩
  | stop hpoint =>
    refine hf.keep (running_at hpoint (by rintro _ ⟨⟩)) (arrivals_quiet _ es rfl) ?_ rfl
    simp only [Machine.looked, hpoint]

theorem followed_run (hn : 1 ≤ n) (hes : Delivered es)
    (h : run (step (serverProgram region) n) es (serverStart n memory) = some s) : Followed region es s := by
  suffices hall : Delivered es → Followed region es s from hall hes
  refine run_invariant (I := fun es s => Delivered es → Followed region es s) (fun _ => followed_started) ?_ h
  intro es s e t hs ih hst hdelivered
  have hsplit : ∀ r, r ∈ receipts es ∨ e.receipt = some r → r ∈ receipts (es ++ [e]) := by
    intro r hr
    rw [receipts_snoc, List.mem_append, Option.mem_toList]
    exact hr
  exact (ih (fun r hr => hdelivered r (hsplit r (.inl hr)))).steps (matched_run hs)
    (running_orderly hn (reachable_of_run es hs)) (fun r hr => hdelivered r (hsplit r (.inr hr))) (step_steps hst)

/-- What the fabric does not specify of a failed request taken out. -/
def Receipt.specified (r : Receipt) : Receipt := if r.status = ibvWcSuccess then r else ⟨r.status, 0, []⟩

def Event.specified : Event → Event
  | .complete status byteLen data =>
    let r := Receipt.specified ⟨status, byteLen, data⟩
    .complete r.status r.byteLen r.data
  | .post result taken => .post result taken
  | .poll ne => .poll ne
  | .handle => .handle
  | .stop => .stop

/-- The server prints one line for each polled completion before the first failure, with the
byte the client stored; the buffer and the size of a failed one have no part in what is
printed; after a failure nothing is posted. -/
structure Reports (n : Nat) (region : Region) (memory : Nat → Byte) (es : List Event)
    (s : Machine ServerState RecvBody) : Prop where
  lines : s.state.printed =
    (((arrivals s.posted es).take s.looked).takeWhile Arrival.succeeded).map Arrival.reported
  unused : ∀ es' t, Delivered es' → es'.map Event.specified = es.map Event.specified →
    run (step (serverProgram region) n) es' (serverStart n memory) = some t → t.state.printed = s.state.printed
  unposted : ∀ result taken t, step (serverProgram region) n s (.post result taken) = some t →
    ∀ a ∈ (arrivals s.posted es).take s.polled, a.succeeded = true

@[simp] theorem Receipt.specified_status (r : Receipt) : r.specified.status = r.status := by
  unfold Receipt.specified
  split <;> rfl

theorem Receipt.specified_success {r : Receipt} (h : r.status = ibvWcSuccess) : r.specified = r := if_pos h

theorem receipts_specified (es : List Event) :
    receipts (es.map Event.specified) = (receipts es).map Receipt.specified := by
  induction es with
  | nil => rfl
  | cons e es ih =>
    change receipts ([e.specified] ++ es.map Event.specified) = (receipts ([e] ++ es)).map Receipt.specified
    rw [receipts, receipts, List.filterMap_append, List.filterMap_append, List.map_append]
    refine congrArg₂ _ ?_ ih
    cases e <;> rfl

/-- Runs that differ in what is not specified have the same successes. -/
theorem take_specified {posted : List Nat} {es es' : List Event} {k : Nat}
    (hsame : es'.map Event.specified = es.map Event.specified)
    (hall : ∀ a ∈ (arrivals posted es).take k, a.succeeded = true) :
    (arrivals posted es').take k = (arrivals posted es).take k := by
  have hreceipts : (receipts es').map Receipt.specified = (receipts es).map Receipt.specified := by
    rw [← receipts_specified, ← receipts_specified, hsame]
  apply List.ext_getElem?
  intro i
  rw [List.getElem?_take, List.getElem?_take]
  split
  case isFalse => rfl
  case isTrue hi =>
    have hget := congrArg (·[i]?) hreceipts
    simp only [List.getElem?_map] at hget
    rw [arrivals, arrivals, List.getElem?_zipWith, List.getElem?_zipWith]
    cases hid : posted[i]? with
    | none => rfl
    | some wrId =>
      cases hr : (receipts es)[i]? with
      | none =>
        rw [hr] at hget
        rw [Option.map_eq_none_iff.mp hget]
      | some r =>
        rw [hr] at hget
        obtain ⟨r',hr',hspec⟩ := Option.map_eq_some_iff.mp hget
        have hmem : r.arrival wrId ∈ (arrivals posted es).take k := by
          refine List.mem_of_getElem? (i := i) ?_
          rw [List.getElem?_take_of_lt hi, arrivals, List.getElem?_zipWith, hid, hr]
        have hgood : r.status = ibvWcSuccess := of_decide_eq_true (hall _ hmem)
        have hstatus : r'.status = ibvWcSuccess := by
          rw [← Receipt.specified_status, hspec, Receipt.specified_status, hgood]
        rw [hr', ← Receipt.specified_success hstatus, hspec, Receipt.specified_success hgood]

/-- Of a completion only its status. -/
def statusOnly (status _ : Nat) : Nat × Nat := (status, 0)

/-- The course of a run does not depend on what is not specified. -/
theorem course_specified {es es' : List Event} {t : Machine ServerState RecvBody}
    (hsame : es'.map Event.specified = es.map Event.specified)
    (h : run (step (serverProgram region) n) es (serverStart n memory) = some s)
    (h' : run (step (serverProgram region) n) es' (serverStart n memory) = some t) :
    t.posted = s.posted ∧ t.polled = s.polled ∧ t.looked = s.looked ∧ t.point = s.point := by
  have hview : ∀ es : List Event,
      es.map (Event.view statusOnly) = (es.map Event.specified).map (Event.view statusOnly) := by
    intro es
    rw [List.map_map]
    refine List.map_congr_left (fun e _ => ?_)
    cases e with
    | complete status byteLen data => simp [Event.view, Event.specified, statusOnly]
    | post | poll | handle | stop => rfl
  have hstep : ∀ (s : Machine ServerState RecvBody) (e : Event),
      step (deciding (fun wc => decide (wc.status = ibvWcSuccess))) n (s.view statusOnly) (e.view statusOnly) =
        (step (serverProgram region) n s e).map (Machine.view statusOnly) := by
    intro s e
    refine step_view (fun i wc _ _ _ => ?_)
    rw [serverProgram_handle]
    rfl
  have hs := run_map hstep es (serverStart n memory)
  have ht := run_map hstep es' (serverStart n memory)
  rw [h, hview, ← hsame, ← hview] at hs
  rw [h'] at ht
  have heq : t.view statusOnly = s.view statusOnly := Option.some_inj.mp (ht.symm.trans hs)
  have hposted : (t.view statusOnly).posted = (s.view statusOnly).posted := congrArg Machine.posted heq
  have hpoint : (t.view statusOnly).point = (s.view statusOnly).point := congrArg Machine.point heq
  have hpolled : (t.view statusOnly).polled = (s.view statusOnly).polled := congrArg Machine.polled heq
  have hbatch : t.batch.length = s.batch.length := by
    have hlen := congrArg (fun m => m.batch.length) heq
    simpa only [Machine.view, List.length_map] using hlen
  simp only [Machine.view] at hposted hpoint hpolled
  refine ⟨hposted,hpolled,?_,hpoint⟩
  unfold Machine.looked
  rw [hpoint, hpolled, hbatch]

theorem shown_eq_reported (a : Arrival) : a.shown = a.reported ↔ a.sent.toNat < 128 := by
  have hlt := a.sent.isLt
  simp only [Arrival.shown, Arrival.reported, MessageLine.mk.injEq, and_true, true_and, BitVec.toInt_eq_toNat_cond]
  split <;> omega

theorem Told.lines {as : List Arrival} {k : Nat} {printed : List MessageLine} (h : Told as k printed) :
    printed = ((as.take k).takeWhile Arrival.succeeded).map Arrival.reported ↔
      ∀ a ∈ as.take k, a.sent.toNat < 128 := by
  obtain ⟨hprinted,hall⟩ := h
  rw [List.takeWhile_eq_self_iff.mpr hall, hprinted, List.map_inj_left]
  exact forall₂_congr (fun a _ => shown_eq_reported a)

/-- With a failure among the polled completions there is a line too many. -/
theorem ToldFailure.lines {as : List Arrival} {polled : Nat} {printed : List MessageLine}
    (h : ToldFailure as polled printed) :
    printed ≠ ((as.take polled).takeWhile Arrival.succeeded).map Arrival.reported ∧
      ∃ a ∈ as.take polled, a.succeeded = false := by
  obtain ⟨k,a,lines,line,hk,ha,hfailed,⟨hlines,-⟩,rfl⟩ := h
  have hlt : k < as.length := (List.getElem?_eq_some_iff.mp ha).1
  have hget : (as.take polled)[k]? = some a := (List.getElem?_take_of_lt hk).trans ha
  refine ⟨?_,a,List.mem_of_getElem? hget,hfailed⟩
  intro heq
  have hlen := congrArg List.length heq
  rw [hlines, List.length_append, List.length_map, List.length_take_of_le hlt.le, List.length_singleton,
    List.length_map] at hlen
  have hin : k < ((as.take polled).takeWhile Arrival.succeeded).length := by omega
  have hfront := (List.takeWhile_prefix Arrival.succeeded (l := as.take polled)).getElem hin
  have hgood := List.mem_takeWhile_imp (List.getElem_mem hin)
  rw [hfront, (List.getElem?_eq_some_iff.mp hget).2, hfailed] at hgood
  cases hgood

/-- A post is made only after successes. -/
theorem Followed.unposted (hf : Followed region es s) {result : Int} {taken : Nat}
    (h : step (serverProgram region) n s (.post result taken) = some t) :
    ∀ a ∈ (arrivals s.posted es).take s.polled, a.succeeded = true := by
  cases step_steps h with
  | post _ _ _ _ _ hpoint =>
    obtain ⟨hrun,hlooked⟩ := posting_origin (hpoint.imp And.left And.left)
    obtain htold | ⟨hstopped,-⟩ := hf.told
    · exact hlooked ▸ htold.2
    · exact absurd hrun hstopped

/-- The state a failure leaves is looked at to the end. -/
theorem looked_stopped {σ β : Type} {s : Machine σ β} (h : ¬ s.Running) : s.looked = s.polled := by
  refine looked_polled ?_
  intro i hi
  exact h (running_at hi (by rintro _ ⟨⟩))

/-- After nothing but successes with bytes below 128 the lines are right. -/
theorem Followed.lines (hf : Followed region es s)
    (hall : ∀ a ∈ (arrivals s.posted es).take s.looked, a.wc.status = ibvWcSuccess ∧ a.sent.toNat < 128) :
    s.state.printed = (((arrivals s.posted es).take s.looked).takeWhile Arrival.succeeded).map Arrival.reported := by
  obtain htold | ⟨hstopped,hfailure⟩ := hf.told
  · exact htold.lines.mpr (fun a ha => (hall a ha).2)
  · obtain ⟨-,a,ha,hfailed⟩ := hfailure.lines
    rw [← looked_stopped hstopped] at ha
    rw [Arrival.succeeded, decide_eq_false_iff_not] at hfailed
    exact absurd (hall a ha).1 hfailed

/-- What the server prints is right exactly as long as every completion it has looked at was
successful and brought a byte below 128. -/
theorem server_reports_iff {es : List Event} (hn : 1 ≤ n) (hes : Delivered es)
    (h : run (step (serverProgram region) n) es (serverStart n memory) = some s) :
    Reports n region memory es s ↔
      ∀ a ∈ (arrivals s.posted es).take s.looked, a.wc.status = ibvWcSuccess ∧ a.sent.toNat < 128 := by
  have hf := followed_run hn hes h
  constructor
  · intro hreports
    have hlines := hreports.lines
    obtain htold | ⟨hstopped,hfailure⟩ := hf.told
    · intro a ha
      exact ⟨of_decide_eq_true (htold.2 a ha),htold.lines.mp hlines a ha⟩
    · rw [looked_stopped hstopped] at hlines
      exact absurd hlines hfailure.lines.1
  · intro hall
    have hgood : ∀ a ∈ (arrivals s.posted es).take s.looked, a.succeeded = true :=
      fun a ha => decide_eq_true (hall a ha).1
    refine ⟨hf.lines hall,?_,fun _ _ _ => hf.unposted⟩
    intro es' t hes' hsame ht
    obtain ⟨hposted,-,hlooked,-⟩ := course_specified hsame h ht
    have htake : (arrivals t.posted es').take t.looked = (arrivals s.posted es).take s.looked := by
      rw [hposted, hlooked]
      exact take_specified hsame hgood
    rw [(followed_run hn hes' ht).lines (htake ▸ hall), htake]
    exact (hf.lines hall).symm

/-- One datagram of fives. -/
theorem server_reports_fives : ∃ s, s.state.printed = [⟨0, 5, 8980⟩] ∧
    (Reports 1 ⟨0, 0⟩ (fun _ => 0)
      [.post 0 0, .complete ibvWcSuccess 8980 (List.replicate msgSize 5), .poll 1, .handle] s ↔
      ∀ a ∈ (arrivals s.posted
        [.post 0 0, .complete ibvWcSuccess 8980 (List.replicate msgSize 5), .poll 1, .handle]).take s.looked,
        a.wc.status = ibvWcSuccess ∧ a.sent.toNat < 128) := by
  have hrun : ∃ s, run (step (serverProgram ⟨0, 0⟩) 1)
      [.post 0 0, .complete ibvWcSuccess 8980 (List.replicate msgSize 5), .poll 1, .handle]
      (serverStart 1 (fun _ => 0)) = some s ∧ s.state.printed = [⟨0, 5, 8980⟩] := ⟨_,rfl,rfl⟩
  obtain ⟨s,hs,hprinted⟩ := hrun
  refine ⟨s,hprinted,server_reports_iff le_rfl ?_ hs⟩
  intro r hr _
  obtain rfl := List.mem_singleton.mp hr
  exact List.cons_ne_nil _ _

/-- A datagram of bytes 128 is printed as -128, and a failed request of unknown contents has
its line. -/
theorem server_misreports :
    (∃ s, run (step (serverProgram ⟨0, 0⟩) 1)
      [.post 0 0, .complete ibvWcSuccess 8980 (List.replicate msgSize 128), .poll 1, .handle]
      (serverStart 1 (fun _ => 0)) = some s ∧ s.state.printed = [⟨0, -128, 8980⟩] ∧
      ¬ Reports 1 ⟨0, 0⟩ (fun _ => 0)
        [.post 0 0, .complete ibvWcSuccess 8980 (List.replicate msgSize 128), .poll 1, .handle] s) ∧
    ∃ s, run (step (serverProgram ⟨0, 0⟩) 1) [.post 0 0, .complete 5 77 [], .poll 1, .handle]
      (serverStart 1 (fun _ => 0)) = some s ∧ s.state.printed = [⟨0, 0, 77⟩] ∧
      ¬ Reports 1 ⟨0, 0⟩ (fun _ => 0) [.post 0 0, .complete 5 77 [], .poll 1, .handle] s := by
  refine ⟨⟨_,rfl,rfl,?_⟩,⟨_,rfl,rfl,?_⟩⟩
  · intro hreports
    have hlines : ([⟨0, -128, 8980⟩] : List MessageLine) = [⟨0, 128, 8980⟩] := hreports.lines
    exact absurd hlines (by decide)
  · intro hreports
    have hlines : ([⟨0, 0, 77⟩] : List MessageLine) = [] := hreports.lines
    exact absurd hlines (by decide)

end IbverbPrototype.Rdma
