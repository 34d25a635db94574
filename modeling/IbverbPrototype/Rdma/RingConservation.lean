import IbverbPrototype.Rdma.Programs
import IbverbPrototype.Rdma.RingInvariant

/-! What holds of the ring in every state of every run of the client and of the server
with a reliable provider. -/
namespace IbverbPrototype.Rdma
open Foundations.ByteOrder Foundations.CyclicInterval Foundations.EventSystem

variable {σ β : Type}

/-- The whole ring is posted first. At the loop head the queues hold one rotation of all
indices; a batch is consecutive and posted again as it was polled, none of it being still
with the provider; nothing is lost, and the completion queue never overflows. -/
structure RingConserved (n : Nat) (body : Nat → β) (s : Machine σ β) : Prop where
  first : s.point = .firstPost → ∀ result, ∃ handed,
    (postRequests s.requests n 0 n result).handed = some handed ∧
    handed.map (fun request => (request.wrId, request.body)) = (cyc n 0 n).map (fun i => (i, body i))
  rotation : s.point = .head → ∃ a, a < n ∧ s.completed.map Completion.wrId ++ s.outstanding = cyc n a n
  batch : ∃ a, s.batch.map Completion.wrId = cyc n a s.batch.length
  repost : s.point = .repost → ∀ result, ∃ wc rest handed, s.batch = wc::rest ∧
    (postRequests s.requests n wc.wrId s.batch.length result).handed = some handed ∧
    (postRequests s.requests n wc.wrId s.batch.length result).requests = s.requests ∧
    handed.map (fun request => (request.wrId, request.body)) = s.batch.map (fun wc => (wc.wrId, body wc.wrId)) ∧
    ∀ request ∈ handed, request.wrId ∉ s.completed.map Completion.wrId ++ s.outstanding
  conserved : s.point ≠ .firstPost →
    (s.batch.map Completion.wrId ++ s.completed.map Completion.wrId ++ s.outstanding).Perm (List.range n)
  capacity : s.completed.length ≤ n

private theorem started_conserved {n : Nat} (hn : 1 ≤ n) (body : Nat → β) (state : σ) :
    RingConserved n body (started n body state) where
  first := by
    intro _ result
    refine ⟨_,(postRequests_slice body result hn hn le_rfl).2,?_⟩
    rw [List.map_map]
    rfl
  rotation := by rintro ⟨⟩
  batch := ⟨0,rfl⟩
  repost := by rintro ⟨⟩
  conserved := fun h => absurd rfl h
  capacity := Nat.zero_le n

private theorem turn_repost {n q : Nat} {body : Nat → β} {s : Machine σ β} (h : Turn n body s q)
    (hpoint : s.point = .repost) (result : Int) : ∃ wc rest handed, s.batch = wc::rest ∧
    (postRequests s.requests n wc.wrId s.batch.length result).handed = some handed ∧
    (postRequests s.requests n wc.wrId s.batch.length result).requests = s.requests ∧
    handed.map (fun request => (request.wrId, request.body)) = s.batch.map (fun wc => (wc.wrId, body wc.wrId)) ∧
    ∀ request ∈ handed, request.wrId ∉ s.completed.map Completion.wrId ++ s.outstanding := by
  have hfit := h.point
  rw [hpoint] at hfit
  obtain ⟨wc,rest,hbatch⟩ := List.exists_cons_of_length_pos hfit
  have hle := h.batch_le
  have hids := h.batch_ids
  have hwc := h.first_wrId hbatch
  have hlt : wc.wrId < n := hwc ▸ Nat.mod_lt q (by change 0 < s.batch.length at hfit; omega)
  obtain ⟨hring,hhanded⟩ := postRequests_slice body result hlt hfit hle
  rw [← h.requests] at hring hhanded
  rw [hwc, cyc_congr (Nat.mod_mod q n), ← hids] at hhanded
  refine ⟨wc,rest,_,hbatch,hwc ▸ hhanded,hring,?_,?_⟩
  · simp only [List.map_map]
    rfl
  · intro request hrequest
    obtain ⟨id,hid,rfl⟩ := List.mem_map.mp hrequest
    exact h.batch_disjoint hid

/-- A turn of the ring has every property claimed of it. -/
theorem Turn.conserved {n q : Nat} {body : Nat → β} {s : Machine σ β} (hn : 1 ≤ n) (h : Turn n body s q) :
    RingConserved n body s where
  first := by
    intro hpoint
    have hfit := h.point
    rw [hpoint] at hfit
    exact hfit.elim
  rotation := by
    intro hpoint
    have hfit := h.point
    rw [hpoint] at hfit
    have hrest := h.rest_ids
    rw [hfit, Nat.add_zero, Nat.sub_zero] at hrest
    exact ⟨q % n,Nat.mod_lt q hn,hrest.trans (cyc_congr (Nat.mod_mod q n).symm n)⟩
  batch := ⟨q,h.batch_ids⟩
  repost := turn_repost h
  conserved := by
    intro _
    rw [h.ids]
    exact cyc_perm hn q
  capacity := by
    have htotal := h.total
    omega

theorem reachable_conserved {program : Program σ} {n : Nat} {body : Nat → β} {state : σ} {s : Machine σ β}
    (hn : 1 ≤ n) (h : Reachable (reliableStep program n) (started n body state) s) : RingConserved n body s := by
  obtain rfl | ⟨q,hq⟩ := reachable_turn hn h
  · exact started_conserved hn body state
  · exact hq.conserved hn

/-- The ring is conserved in every state of every run, of the client and of the server,
for every size of the completion queue. -/
theorem rings_conserved {n : Nat} (hn : 1 ≤ n) :
    (∀ (region : Region) (target : SendTarget) (memory : Nat → Byte) (s : Machine ClientState SendBody),
      Reachable (reliableStep (clientProgram region) n) (clientStart n region target memory) s →
        RingConserved n (sendBody target) s) ∧
    ∀ (region : Region) (memory : Nat → Byte) (s : Machine ServerState RecvBody),
      Reachable (reliableStep (serverProgram region) n) (serverStart n memory) s → RingConserved n recvBody s :=
  ⟨fun _ _ _ _ h => reachable_conserved hn h,fun _ _ _ h => reachable_conserved hn h⟩

/-- A client and a server with two requests, the first of them polled and about to be
posted again while the second is outstanding. -/
theorem rings_conserved_pair :
    (∃ s : Machine ClientState SendBody, s.point = .repost ∧ s.outstanding = [1] ∧
      RingConserved 2 (sendBody ⟨0, 0, 0⟩) s) ∧
    ∃ s : Machine ServerState RecvBody, s.point = .repost ∧ s.outstanding = [1] ∧ RingConserved 2 recvBody s := by
  obtain ⟨hclient,hserver⟩ := rings_conserved (n := 2) (by decide)
  refine ⟨⟨_,?_,?_,hclient ⟨0, 0⟩ ⟨0, 0, 0⟩ (fun _ => 0) _ (reachable_of_run
    [.post 0 0, .complete 0 0 [], .poll 1, .handle, .handle] rfl)⟩,
    ⟨_,?_,?_,hserver ⟨0, 0⟩ (fun _ => 0) _ (reachable_of_run
      [.post 0 0, .complete 0 0 [], .poll 1, .handle, .handle] rfl)⟩⟩
  all_goals rfl

end IbverbPrototype.Rdma
