import IbverbPrototype.Rdma.CompletionLoop

/-! The turn the ring has reached: polled, completed and outstanding requests together
are one rotation of all indices, whatever the program does with its completions. -/
namespace IbverbPrototype.Rdma
open Foundations.CyclicInterval Foundations.EventSystem

variable {σ β : Type}

/-- The polled completions a point of the program can have before it. -/
def Fits : Point → Nat → Prop
  | .firstPost, _ => False
  | .head, b => b = 0
  | .handle i, b => i ≤ b
  | .repost, b => 0 < b
  | .cleanup _, _ => True

/-- After q requests were polled and posted again, the batch at hand, the completion
queue and the device queue hold the indices from q on, once around. -/
structure Turn (n : Nat) (body : Nat → β) (s : Machine σ β) (q : Nat) : Prop where
  requests : s.requests = initRequests n body
  ids : s.batch.map Completion.wrId ++ s.completed.map Completion.wrId ++ s.outstanding = cyc n q n
  polled : s.polled = q+s.batch.length
  posted : s.posted = cyc n 0 (q+n)
  point : Fits s.point s.batch.length
  success : ∀ wc ∈ s.batch ++ s.completed, wc.status = ibvWcSuccess

/-- Polled, completed and outstanding requests are as many as the ring has. -/
theorem Turn.total {n q : Nat} {body : Nat → β} {s : Machine σ β} (h : Turn n body s q) :
    s.batch.length+s.completed.length+s.outstanding.length = n := by
  have hlen := congrArg List.length h.ids
  simpa only [List.length_append, List.length_map, cyc_length] using hlen

theorem Turn.batch_le {n q : Nat} {body : Nat → β} {s : Machine σ β} (h : Turn n body s q) : s.batch.length ≤ n := by
  have htotal := h.total
  omega

/-- No polled request is still with the provider. -/
theorem Turn.batch_disjoint {n q : Nat} {body : Nat → β} {s : Machine σ β} (h : Turn n body s q) {id : Nat}
    (hid : id ∈ s.batch.map Completion.wrId) : id ∉ s.completed.map Completion.wrId ++ s.outstanding := by
  intro hin
  have hnodup := cyc_nodup (a := q) (le_refl n)
  rw [← h.ids, List.append_assoc] at hnodup
  exact (List.nodup_append.mp hnodup).2.2 id hid id hin rfl

/-- Every polled batch is consecutive on the cycle. -/
theorem Turn.batch_ids {n q : Nat} {body : Nat → β} {s : Machine σ β} (h : Turn n body s q) :
    s.batch.map Completion.wrId = cyc n q s.batch.length := by
  have htake := congrArg (List.take s.batch.length) h.ids
  rw [List.append_assoc, List.take_left' (List.length_map _), cyc_take n q h.batch_le] at htake
  exact htake

/-- What is posted and not polled is the rest of the turn. -/
theorem Turn.rest_ids {n q : Nat} {body : Nat → β} {s : Machine σ β} (h : Turn n body s q) :
    s.completed.map Completion.wrId ++ s.outstanding = cyc n (q+s.batch.length) (n-s.batch.length) := by
  have hdrop := congrArg (List.drop s.batch.length) h.ids
  rw [List.append_assoc, List.drop_left' (List.length_map _), cyc_drop n q h.batch_le] at hdrop
  exact hdrop

/-- The first completion of a batch names the index the turn has reached. -/
theorem Turn.first_wrId {n q : Nat} {body : Nat → β} {s : Machine σ β} {wc : Completion} {rest : List Completion}
    (h : Turn n body s q) (hbatch : s.batch = wc::rest) : wc.wrId = q % n := by
  have hids := h.batch_ids
  rw [hbatch, List.map_cons, List.length_cons, cyc_succ] at hids
  exact (List.cons.inj hids).1

/-- A call for a slice of the ring hands over its indices and leaves the ring as it was. -/
theorem handed_ids {n start count : Nat} {body : Nat → β} {handed : List (WorkRequest β)} (hs : start < n)
    (hc : 1 ≤ count) (hcn : count ≤ n)
    (h : (postRequests (initRequests n body) n start count 0).handed = some handed) :
    handed.map WorkRequest.wrId = cyc n start count ∧
    (postRequests (initRequests n body) n start count 0).requests = initRequests n body := by
  obtain ⟨hring,hhanded⟩ := postRequests_slice body 0 hs hc hcn
  obtain rfl := Option.some_inj.mp (h.symm.trans hhanded)
  refine ⟨?_,hring⟩
  rw [List.map_map]
  exact List.map_id _

/-- The first post starts the first turn. -/
theorem started_moves {program : Program σ} {n : Nat} {body : Nat → β} {state : σ} {t : Machine σ β} (hn : 1 ≤ n)
    (h : Moves program n (started n body state) t) : Turn n body t 0 ∧ t.point = .head ∧ t.state = state := by
  cases h with
  | post start count handed hpoint hhanded =>
    obtain ⟨-,rfl,rfl⟩ | ⟨⟨⟩,-⟩ := hpoint
    obtain ⟨hids,hring⟩ := handed_ids hn hn le_rfl hhanded
    refine ⟨⟨hring,?_,rfl,?_,rfl,?_⟩,rfl,rfl⟩
    · exact hids
    · rw [Nat.zero_add]
      exact hids
    · rintro _ ⟨⟩
  | poll k hpoint => cases hpoint
  | handle i wc hpoint => cases hpoint
  | handled i hpoint => cases hpoint
  | stop hpoint => cases hpoint
  | complete wrId byteLen rest data hfirst => cases hfirst

/-- Posting a batch again moves its indices from the start of the turn to its end. -/
theorem Turn.post_moves {n q start count : Nat} {body : Nat → β} {s : Machine σ β} {handed : List (WorkRequest β)}
    (h : Turn n body s q) (hbatch : 0 < s.batch.length) (hstart : start = q % n) (hcount : count = s.batch.length)
    (hhanded : (postRequests s.requests n start count 0).handed = some handed) :
    Turn n body { s with
      point := .head
      requests := (postRequests s.requests n start count 0).requests
      outstanding := s.outstanding ++ handed.map WorkRequest.wrId
      batch := []
      posted := s.posted ++ handed.map WorkRequest.wrId } (q+s.batch.length) := by
  have hle := h.batch_le
  have hn : 0 < n := by omega
  rw [h.requests] at hhanded
  obtain ⟨hids,hring⟩ := handed_ids (hstart ▸ Nat.mod_lt q hn) (by omega) (by omega) hhanded
  rw [hstart, hcount, cyc_congr (Nat.mod_mod q n)] at hids
  refine ⟨?_,?_,?_,?_,rfl,?_⟩
  · rw [h.requests]
    exact hring
  · change [] ++ s.completed.map Completion.wrId ++ (s.outstanding ++ handed.map WorkRequest.wrId) = _
    rw [List.nil_append, ← List.append_assoc, h.rest_ids, hids, cyc_rotate n q hle]
  · exact h.polled
  · change s.posted ++ handed.map WorkRequest.wrId = _
    have hturn : cyc n q s.batch.length = cyc n (0+(q+n)) s.batch.length :=
      cyc_congr (by rw [Nat.zero_add, Nat.add_mod_right]) _
    rw [h.posted, hids, hturn, cyc_append, Nat.add_right_comm]
  · intro wc hwc
    exact h.success wc (List.mem_append_right _ hwc)

/-- Every move of a reliable run keeps to the cycle; only a post advances the turn. -/
theorem Turn.moves {program : Program σ} {n q : Nat} {body : Nat → β} {s t : Machine σ β} (h : Turn n body s q)
    (hm : Moves program n s t) : ∃ q', Turn n body t q' := by
  cases hm with
  | post start count handed hpoint hhanded =>
    obtain ⟨hfirst,-⟩ | ⟨hrepost,wc,rest,hbatch,hstart,hcount⟩ := hpoint
    · have hfit := h.point
      rw [hfirst] at hfit
      exact hfit.elim
    · have hfit := h.point
      rw [hrepost] at hfit
      exact ⟨_,h.post_moves hfit (hstart.trans (h.first_wrId hbatch)) hcount hhanded⟩
  | poll k hpoint hlimit hk =>
    have hfit := h.point
    rw [hpoint] at hfit
    have hbatch : s.batch = [] := List.length_eq_zero_iff.mp hfit
    have hids := h.ids
    have hsuccess := h.success
    rw [hbatch] at hids hsuccess
    refine ⟨q,h.requests,?_,?_,h.posted,Nat.zero_le _,?_⟩
    · rw [← List.map_append, List.take_append_drop]
      exact hids
    · have hpolled := h.polled
      rw [hbatch] at hpolled
      change s.polled+k = q+(s.completed.take k).length
      rw [hpolled, List.length_take, Nat.min_eq_left hk]
      rfl
    · change ∀ wc ∈ s.completed.take k ++ s.completed.drop k, wc.status = ibvWcSuccess
      rw [List.take_append_drop]
      exact hsuccess
  | handle i wc hpoint hwc =>
    refine ⟨q,h.requests,h.ids,h.polled,h.posted,?_,h.success⟩
    have hi : i < s.batch.length := (List.getElem?_eq_some_iff.mp hwc).1
    change Fits (if (program.handle wc s.state).2 then .handle (i+1) else .cleanup true) s.batch.length
    split
    · exact hi
    · trivial
  | handled i hpoint hwc =>
    refine ⟨q,h.requests,h.ids,h.polled,h.posted,?_,h.success⟩
    change Fits (if s.batch.length > 0 then .repost else .head) s.batch.length
    split
    · assumption
    · exact Nat.eq_zero_of_not_pos ‹_›
  | stop hpoint => exact ⟨q,h.requests,h.ids,h.polled,h.posted,trivial,h.success⟩
  | complete wrId byteLen rest data hfirst =>
    refine ⟨q,h.requests,?_,h.polled,h.posted,h.point,?_⟩
    · have hids := h.ids
      rw [hfirst] at hids
      rw [← hids]
      simp
    · intro wc hwc
      simp only [← List.append_assoc, List.mem_append, List.mem_singleton] at hwc
      obtain hold | rfl := hwc
      · exact h.success wc (List.mem_append.mpr hold)
      · rfl

/-- Every state of a reliable run is the start or within some turn. -/
theorem reachable_turn {program : Program σ} {n : Nat} {body : Nat → β} {state : σ} {s : Machine σ β} (hn : 1 ≤ n)
    (h : Reachable (reliableStep program n) (started n body state) s) :
    s = started n body state ∨ ∃ q, Turn n body s q := by
  refine h.invariant (I := fun s => s = started n body state ∨ ∃ q, Turn n body s q) (.inl rfl) ?_
  rintro s t e (rfl | ⟨q,hq⟩) ht
  · exact .inr ⟨0,(started_moves hn (reliableStep_moves ht)).1⟩
  · exact .inr (hq.moves (reliableStep_moves ht))

end IbverbPrototype.Rdma
