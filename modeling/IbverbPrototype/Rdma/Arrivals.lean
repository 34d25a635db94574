import IbverbPrototype.Rdma.CompletionLoop

/-! What the events of a run delivered, in the order of the posts: requests complete
oldest first, so the k-th request posted takes the k-th delivery. -/
namespace IbverbPrototype.Rdma
open Foundations.ByteOrder Foundations.EventSystem

variable {σ β : Type}

/-- What a completed request is left with. -/
structure Receipt where
  status : Nat
  byteLen : Nat
  data : List Byte

def Event.receipt : Event → Option Receipt
  | .complete status byteLen data => some ⟨status, byteLen, data⟩
  | .post .. | .poll _ | .handle | .stop => none

def receipts (es : List Event) : List Receipt := es.filterMap Event.receipt

/-- A completion with the first byte of the datagram behind it. -/
structure Arrival where
  wc : Completion
  sent : Byte

def Receipt.arrival (wrId : Nat) (r : Receipt) : Arrival := ⟨⟨wrId, r.status, r.byteLen⟩, r.data.headD 0⟩

def arrivals (posted : List Nat) (es : List Event) : List Arrival :=
  List.zipWith (fun wrId r => r.arrival wrId) posted (receipts es)

@[simp] theorem receipts_snoc (es : List Event) (e : Event) :
    receipts (es ++ [e]) = receipts es ++ e.receipt.toList := by
  cases e <;> simp [receipts, Event.receipt]

/-- Requests posted later change nothing in what was delivered before. -/
theorem arrivals_posted {posted : List Nat} {es : List Event} (h : (receipts es).length ≤ posted.length)
    (ids : List Nat) : arrivals (posted ++ ids) es = arrivals posted es := by
  have hmin : min (posted.length+ids.length) (receipts es).length = min posted.length (receipts es).length := by omega
  apply List.ext_getElem
  · simpa [arrivals] using hmin
  · intro k hk hk'
    have hpos : k < posted.length := by
      simp only [arrivals, List.length_zipWith] at hk'
      omega
    simp [arrivals, List.getElem_append_left hpos]

theorem arrivals_quiet (posted : List Nat) (es : List Event) {e : Event} (he : e.receipt = none) :
    arrivals posted (es ++ [e]) = arrivals posted es := by
  rw [arrivals, receipts_snoc, he]
  exact congrArg _ (List.append_nil _)

/-- A delivery goes to the oldest request that waits. -/
theorem arrivals_complete {posted rest : List Nat} {es : List Event} {wrId : Nat}
    (h : posted.drop (receipts es).length = wrId::rest) (status byteLen : Nat) (data : List Byte) :
    arrivals posted (es ++ [.complete status byteLen data]) =
      arrivals posted es ++ [⟨⟨wrId, status, byteLen⟩, data.headD 0⟩] := by
  have hle : (receipts es).length ≤ posted.length := by
    by_contra hlt
    rw [List.drop_of_length_le (by omega)] at h
    cases h
  have hsplit : posted = posted.take (receipts es).length ++ wrId::rest := by rw [← h, List.take_append_drop]
  have hlen : (posted.take (receipts es).length).length = (receipts es).length := List.length_take_of_le hle
  have hhead : arrivals posted es = arrivals (posted.take (receipts es).length) es := by
    conv_lhs => rw [hsplit]
    exact arrivals_posted hlen.ge _
  rw [hhead, arrivals, receipts_snoc]
  conv_lhs => rw [hsplit]
  rw [List.zipWith_append hlen]
  simp [arrivals, Event.receipt, Receipt.arrival]

/-- The polled completions before the one the program stands at. -/
def Machine.looked (s : Machine σ β) : Nat :=
  match s.point with
  | .handle i => s.polled-s.batch.length+i
  | .firstPost | .head | .repost | .cleanup _ => s.polled

theorem looked_polled {s : Machine σ β} (h : ∀ i, s.point ≠ .handle i) : s.looked = s.polled := by
  unfold Machine.looked
  cases hpoint : s.point with
  | handle i => exact absurd hpoint (h i)
  | firstPost | head | repost | cleanup => rfl

/-- The batch at hand and the completion queue are the deliveries not yet posted again, the
device queue the requests without one. -/
structure Matched (es : List Event) (s : Machine σ β) : Prop where
  outstanding : s.outstanding = s.posted.drop (receipts es).length
  delivered : s.polled+s.completed.length = (receipts es).length
  posted : (receipts es).length ≤ s.posted.length
  batch : s.batch.length ≤ s.polled
  pending : s.batch ++ s.completed = ((arrivals s.posted es).drop (s.polled-s.batch.length)).map Arrival.wc

theorem matched_started (n : Nat) (body : Nat → β) (state : σ) : Matched [] (started n body state) :=
  ⟨rfl,rfl,le_rfl,le_rfl,rfl⟩

theorem Matched.arrivals_length {s : Machine σ β} {es : List Event} (h : Matched es s) :
    (arrivals s.posted es).length = s.polled+s.completed.length := by
  have hposted := h.posted
  rw [arrivals, List.length_zipWith, h.delivered]
  omega

/-- The completion queue alone is what was delivered and not polled. -/
theorem Matched.completed {s : Machine σ β} {es : List Event} (h : Matched es s) :
    s.completed = ((arrivals s.posted es).drop s.polled).map Arrival.wc := by
  have hdrop := congrArg (List.drop s.batch.length) h.pending
  rw [List.drop_left, ← List.map_drop, List.drop_drop, Nat.sub_add_cancel h.batch] at hdrop
  exact hdrop

/-- Without a delivery only the queues and what is posted and polled matter. -/
theorem Matched.quiet {s : Machine σ β} {es : List Event} {e : Event} (h : Matched es s) (he : e.receipt = none)
    (point : Point) (state : σ) : Matched (es ++ [e]) { s with point := point, state := state } := by
  have hsame : receipts (es ++ [e]) = receipts es := by rw [receipts_snoc, he]; exact List.append_nil _
  obtain ⟨houtstanding,hdelivered,hposted,hbatch,hpending⟩ := h
  rw [arrivals] at hpending
  rw [← hsame] at houtstanding hdelivered hposted hpending
  exact ⟨houtstanding,hdelivered,hposted,hbatch,hpending⟩

theorem Matched.steps {program : Program σ} {n : Nat} {s t : Machine σ β} {es : List Event} {e : Event}
    (h : Matched es s) (hs : Steps program n s e t) : Matched (es ++ [e]) t := by
  cases hs with
  | post result taken start count handed hpoint hhanded =>
    have hq : Matched (es ++ [.post result taken]) s := h.quiet rfl s.point s.state
    refine ⟨?_,hq.delivered,?_,Nat.zero_le _,?_⟩
    · change s.outstanding ++ _ = (s.posted ++ _).drop _
      rw [List.drop_append_of_le_length hq.posted, ← hq.outstanding]
    · exact hq.posted.trans (List.length_append ▸ Nat.le_add_right _ _)
    · change s.completed = ((arrivals (s.posted ++ _) _).drop s.polled).map Arrival.wc
      rw [arrivals_posted hq.posted]
      exact hq.completed
  | poll ne hpoint hne hlimit hk =>
    have hq : Matched (es ++ [.poll ne]) s := h.quiet rfl s.point s.state
    have hdelivered := hq.delivered
    have htake : (s.completed.take ne.toNat).length = ne.toNat := List.length_take_of_le hk
    refine ⟨hq.outstanding,?_,hq.posted,?_,?_⟩
    · change s.polled+ne.toNat+(s.completed.drop ne.toNat).length = _
      rw [List.length_drop]
      omega
    · change (s.completed.take ne.toNat).length ≤ s.polled+ne.toNat
      omega
    · change s.completed.take ne.toNat ++ s.completed.drop ne.toNat =
        ((arrivals s.posted _).drop (s.polled+ne.toNat-(s.completed.take ne.toNat).length)).map Arrival.wc
      rw [htake, Nat.add_sub_cancel, List.take_append_drop]
      exact hq.completed
  | pollFailed | handle | handled | stop => exact h.quiet rfl _ _
  | complete wrId status byteLen rest data hfirst =>
    have hdrop : s.posted.drop (receipts es).length = wrId::rest := h.outstanding.symm.trans hfirst
    have hlt : (receipts es).length < s.posted.length := by
      by_contra hle
      rw [List.drop_of_length_le (by omega)] at hdrop
      cases hdrop
    have hcount : (receipts (es ++ [.complete status byteLen data])).length = (receipts es).length+1 := by
      simp [Event.receipt]
    have hdelivered := h.delivered
    refine ⟨?_,?_,?_,h.batch,?_⟩
    · rw [hcount, ← List.drop_drop, hdrop]
      rfl
    · rw [hcount]
      change s.polled+(s.completed ++ [_]).length = _
      rw [List.length_append, List.length_singleton]
      omega
    · rw [hcount]
      exact hlt
    · change s.batch ++ (s.completed ++ [_]) = ((arrivals s.posted _).drop (s.polled-s.batch.length)).map Arrival.wc
      have hbase : s.polled-s.batch.length ≤ (arrivals s.posted es).length := by
        rw [h.arrivals_length]
        omega
      rw [arrivals_complete hdrop, List.drop_append_of_le_length hbase, List.map_append, ← h.pending,
        List.append_assoc]
      rfl

/-- Every run keeps to the order of its posts. -/
theorem matched_run {program : Program σ} {n : Nat} {body : Nat → β} {state : σ} {es : List Event} {s : Machine σ β}
    (h : run (step program n) es (started n body state) = some s) : Matched es s :=
  run_invariant (matched_started n body state) (fun _ _ _ _ _ hm hs => hm.steps (step_steps hs)) h

end IbverbPrototype.Rdma
