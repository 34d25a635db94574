import IbverbPrototype.Rdma.Programs
import IbverbPrototype.Rdma.RingInvariant

/-! The client's buffers: each request carries its number in the whole run, unchanged
from its post to the poll of its completion. -/
namespace IbverbPrototype.Rdma
open Foundations.ByteOrder Foundations.CyclicInterval Foundations.EventSystem
open Roce (msgSize)

/-- All bytes of buffer i are the low byte of m. -/
def Holds (region : Region) (memory : Nat → Byte) (i m : Nat) : Prop :=
  ∀ a, dataBuffer region i ≤ a ∧ a < dataBuffer region i+msgSize → memory a = BitVec.ofNat 8 m

/-- Polled completions whose buffers are refilled at a point of the program. -/
def handledCount : Point → Nat → Nat
  | .handle i, _ => i
  | .repost, b => b
  | _, _ => 0

/-- In the turn from q on, with h buffers refilled, the counter and the buffers stand n
further on, each buffer holding the number of the request it was or will be posted for. -/
structure Filled (n : Nat) (region : Region) (s : ClientState) (q h : Nat) : Prop where
  count : s.count = BitVec.ofNat 32 (q+n+h)
  held : ∀ m, q+h ≤ m → m < q+n+h → Holds region s.memory (m % n) m

theorem refill_holds (region : Region) (i : Nat) {s : ClientState} {m : Nat} (hm : s.count = BitVec.ofNat 32 m) :
    Holds region (refill region i s).memory i m := by
  intro a ha
  have hlow : (BitVec.ofNat 32 m).setWidth 8 = BitVec.ofNat 8 m := by
    apply BitVec.eq_of_toNat_eq
    rw [BitVec.toNat_setWidth, BitVec.toNat_ofNat, BitVec.toNat_ofNat]
    omega
  rw [← hlow, ← hm]
  exact memset_same s.memory s.count ha

theorem refill_other {region : Region} {i j m : Nat} {s : ClientState} (hij : i ≠ j)
    (h : Holds region s.memory j m) : Holds region (refill region i s).memory j m := by
  intro a ha
  exact (memset_other s.memory s.count hij ha).trans (h a ha)

theorem refill_count {region : Region} {i m : Nat} {s : ClientState} (hm : s.count = BitVec.ofNat 32 m) :
    (refill region i s).count = BitVec.ofNat 32 (m+1) := by
  rw [BitVec.ofNat_add, ← hm]
  rfl

/-- Before the first post buffer i holds i, and the counter is the number of buffers. -/
theorem fillBuffers_spec (region : Region) (n : Nat) (memory : Nat → Byte) :
    (fillBuffers region n ⟨memory, 0⟩).count = BitVec.ofNat 32 n ∧
    ∀ m, m < n → Holds region (fillBuffers region n ⟨memory, 0⟩).memory m m := by
  induction n with
  | zero => exact ⟨rfl,fun _ h => absurd h (Nat.not_lt_zero _)⟩
  | succ n ih =>
    obtain ⟨hcount,hheld⟩ := ih
    refine ⟨refill_count hcount,?_⟩
    intro m hm
    rcases Nat.lt_succ_iff_lt_or_eq.mp hm with hlt | rfl
    · exact refill_other (by omega) (hheld m hlt)
    · exact refill_holds region m hcount

/-- Refilling the next buffer of the turn moves the window of held numbers on by one. -/
theorem Filled.refill {n q h : Nat} {region : Region} {s : ClientState} (hn : 1 ≤ n) (hf : Filled n region s q h) :
    Filled n region (refill region ((q+h) % n) s) q (h+1) := by
  have hplace : (q+n+h) % n = (q+h) % n := by rw [Nat.add_right_comm, Nat.add_mod_right]
  refine ⟨refill_count hf.count,?_⟩
  intro m hlo hhi
  rcases Nat.eq_or_lt_of_le (show m ≤ q+n+h by omega) with rfl | hlt
  · rw [hplace]
    exact refill_holds region _ hf.count
  · refine refill_other ?_ (hf.held m (by omega) hlt)
    intro heq
    have hmod : m-(q+h) ≡ 0 [MOD n] := by
      refine Nat.ModEq.add_left_cancel' (q+h) ?_
      rw [Nat.add_sub_of_le (by omega), Nat.add_zero]
      exact heq.symm
    exact absurd (Nat.ModEq.eq_of_lt_of_lt hmod (by omega) (by omega)) (by omega)

/-- One move of a reliable run of the client. -/
theorem filled_moves {n q : Nat} {region : Region} {target : SendTarget} {s t : Machine ClientState SendBody}
    (hn : 1 ≤ n) (ht : Turn n (sendBody target) s q)
    (hf : Filled n region s.state q (handledCount s.point s.batch.length))
    (hm : Moves (clientProgram region) n s t) :
    ∃ q', Turn n (sendBody target) t q' ∧ Filled n region t.state q' (handledCount t.point t.batch.length) := by
  obtain ⟨q',hq'⟩ := ht.moves hm
  refine ⟨q',hq',?_⟩
  have hfit := ht.point
  have hpolled := ht.polled
  have hpolled' := hq'.polled
  cases hm with
  | post start count handed hpoint hhanded =>
    obtain ⟨hfirst,-⟩ | ⟨hrepost,-⟩ := hpoint
    · rw [hfirst] at hfit
      exact hfit.elim
    · rw [hrepost] at hf
      obtain rfl : q' = q+s.batch.length := hpolled'.symm.trans hpolled
      refine ⟨hf.count.trans (congrArg _ (Nat.add_right_comm _ _ _)),?_⟩
      intro m hlo hhi
      exact hf.held m hlo (by change m < q+s.batch.length+n at hhi; change m < q+n+s.batch.length; omega)
  | poll k hpoint hlimit hk =>
    rw [hpoint] at hf hfit
    have hlen : (s.completed.take k).length = k := by rw [List.length_take, Nat.min_eq_left hk]
    have hbase : s.polled+k = q'+(s.completed.take k).length := hpolled'
    obtain rfl : q' = q := by
      change s.batch.length = 0 at hfit
      omega
    exact hf
  | handle i wc hpoint hwc =>
    rw [hpoint] at hf
    have hbase : s.polled = q'+s.batch.length := hpolled'
    obtain rfl : q' = q := by omega
    have hsuccess := ht.success wc (List.mem_append_left _ (List.mem_of_getElem? hwc))
    have hid : wc.wrId = (q'+i) % n := by
      have hi := (List.getElem?_eq_some_iff.mp hwc).1
      have hget := congrArg (·[i]?) ht.batch_ids
      rw [List.getElem?_map, hwc, cyc_getElem? n q' hi] at hget
      exact Option.some_inj.mp hget
    have hhandle : (clientProgram region).handle wc s.state = (Rdma.refill region ((q'+i) % n) s.state, true) := by
      rw [← hid]
      exact if_neg (not_not.mpr hsuccess)
    simp only [hhandle]
    exact hf.refill hn
  | handled i hpoint hwc =>
    rw [hpoint] at hf hfit
    have hbase : s.polled = q'+s.batch.length := hpolled'
    obtain rfl : q' = q := by omega
    obtain rfl : i = s.batch.length := Nat.le_antisymm hfit hwc
    change Filled n region s.state q' (handledCount (if s.batch.length > 0 then .repost else .head) s.batch.length)
    split
    · exact hf
    · have hzero : s.batch.length = 0 := by omega
      rw [hzero] at hf
      exact hf
  | stop hpoint =>
    rw [hpoint] at hf
    have hbase : s.polled = q'+s.batch.length := hpolled'
    obtain rfl : q' = q := by omega
    exact hf
  | complete wrId byteLen rest data hfirst =>
    have hbase : s.polled = q'+s.batch.length := hpolled'
    obtain rfl : q' = q := by omega
    exact hf

/-- Every state of a reliable run of the client is the start or within some turn, with
the buffers filled for it. -/
theorem reachable_filled {n : Nat} {region : Region} {target : SendTarget} {memory : Nat → Byte}
    {s : Machine ClientState SendBody} (hn : 1 ≤ n)
    (h : Reachable (reliableStep (clientProgram region) n) (clientStart n region target memory) s) :
    s = clientStart n region target memory ∨
      ∃ q, Turn n (sendBody target) s q ∧ Filled n region s.state q (handledCount s.point s.batch.length) := by
  refine h.invariant (I := fun s => s = clientStart n region target memory ∨
    ∃ q, Turn n (sendBody target) s q ∧ Filled n region s.state q (handledCount s.point s.batch.length)) (.inl rfl) ?_
  rintro s t e (rfl | ⟨q,hq,hf⟩) ht
  · obtain ⟨hturn,hpoint,hstate⟩ := started_moves hn (reliableStep_moves ht)
    obtain ⟨hcount,hheld⟩ := fillBuffers_spec region n memory
    refine .inr ⟨0,hturn,?_⟩
    rw [hpoint, hstate]
    refine ⟨hcount.trans (by rw [Nat.zero_add]; rfl),?_⟩
    intro m _ hm
    have hlt : m < n := by
      rw [Nat.zero_add] at hm
      exact hm
    rw [Nat.mod_eq_of_lt hlt]
    exact hheld m hlt
  · exact .inr (filled_moves hn hq hf (reliableStep_moves ht))

/-- Requests posted whose completions are not polled. -/
def Machine.inFlight {σ β : Type} (s : Machine σ β) : List Nat := s.completed.map Completion.wrId ++ s.outstanding

/-- The m-th request posted and not polled carries m in every byte of its buffer; no step
changes a byte of a buffer in flight, and the buffer about to be refilled is not in flight. -/
structure BuffersOwned (n : Nat) (region : Region) (s : Machine ClientState SendBody) : Prop where
  window : s.posted.drop s.polled = s.inFlight
  held : ∀ m, s.polled ≤ m → m < s.posted.length → ∃ id request,
    s.posted[m]? = some id ∧ s.requests[id]? = some request ∧ request.wrId = id ∧
    entries (sendScatterGather n region) request.body.sgList request.body.numSge =
      [⟨dataBuffer region id, msgSize, region.lkey⟩] ∧
    ∀ a, dataBuffer region id ≤ a ∧ a < dataBuffer region id+msgSize → (s.state.memory a).toNat = m % 256
  untouched : ∀ e t, reliableStep (clientProgram region) n s e = some t → ∀ id ∈ s.inFlight,
    ∀ a, dataBuffer region id ≤ a ∧ a < dataBuffer region id+msgSize → t.state.memory a = s.state.memory a
  target : ∀ i wc, s.point = .handle i → s.batch[i]? = some wc → wc.wrId ∉ s.inFlight

/-- What each move of the client does to the bytes of a buffer it is not refilling. -/
private theorem moves_untouched {n : Nat} {region : Region} {s t : Machine ClientState SendBody} {id a : Nat}
    (hm : Moves (clientProgram region) n s t) (hid : ∀ wc ∈ s.batch, wc.wrId ≠ id)
    (ha : dataBuffer region id ≤ a ∧ a < dataBuffer region id+msgSize) : t.state.memory a = s.state.memory a := by
  cases hm with
  | handle i wc hpoint hwc =>
    have hne := hid wc (List.mem_of_getElem? hwc)
    change ((clientProgram region).handle wc s.state).1.memory a = s.state.memory a
    simp only [clientProgram]
    split
    · rfl
    · exact memset_other s.state.memory s.state.count hne ha
  | post | poll | handled | stop | complete => rfl

private theorem turn_owned {n q : Nat} {region : Region} {target : SendTarget} {s : Machine ClientState SendBody}
    (hn : 1 ≤ n) (h : Turn n (sendBody target) s q)
    (hf : Filled n region s.state q (handledCount s.point s.batch.length)) : BuffersOwned n region s where
  window := by
    have hle := h.batch_le
    rw [h.polled, h.posted, cyc_drop n 0 (by omega), Machine.inFlight, h.rest_ids]
    congr 1 <;> omega
  held := by
    intro m hlo hhi
    have hpolled := h.polled
    have hfit := h.point
    rw [h.posted, cyc_length] at hhi
    have hhandled : handledCount s.point s.batch.length ≤ s.batch.length := by
      cases hp : s.point with
      | handle i =>
        rw [hp] at hfit
        exact hfit
      | repost => exact le_rfl
      | firstPost | head | cleanup => exact Nat.zero_le _
    have hlt : m % n < n := Nat.mod_lt m hn
    refine ⟨m % n,⟨m % n,some ((m % n+1) % n),sendBody target (m % n)⟩,?_,?_,rfl,?_,?_⟩
    · rw [h.posted, cyc_getElem? n 0 hhi, Nat.zero_add]
    · rw [h.requests]
      exact initRequests_getElem? _ hlt
    · exact sendScatterGather_entries region target hlt
    · intro a ha
      rw [hf.held m (by omega) (by omega) a ha]
      rfl
  untouched := by
    intro e t ht id hid a ha
    exact moves_untouched (reliableStep_moves ht)
      (fun wc hwc heq => h.batch_disjoint (List.mem_map_of_mem hwc) (heq ▸ hid)) ha
  target := fun i wc _ hwc => h.batch_disjoint (List.mem_map_of_mem (List.mem_of_getElem? hwc))

private theorem start_owned (n : Nat) (region : Region) (target : SendTarget) (memory : Nat → Byte) :
    BuffersOwned n region (clientStart n region target memory) where
  window := rfl
  held := fun m _ hm => absurd hm (Nat.not_lt_zero m)
  untouched := fun _ _ _ _ hid => nomatch hid
  target := by rintro _ _ ⟨⟩

/-- In every state of every run of the client with a reliable provider, whatever the sizes
of the batches, the buffers in flight hold the numbers of their requests. -/
theorem client_buffers_owned {n : Nat} (hn : 1 ≤ n) {region : Region} {target : SendTarget} {memory : Nat → Byte}
    {s : Machine ClientState SendBody}
    (hs : Reachable (reliableStep (clientProgram region) n) (clientStart n region target memory) s) :
    BuffersOwned n region s := by
  obtain rfl | ⟨q,hq,hf⟩ := reachable_filled hn hs
  · exact start_owned n region target memory
  · exact turn_owned hn hq hf

/-- Three requests posted from two buffers, the first of them polled. -/
theorem client_buffers_owned_three :
    ∃ s : Machine ClientState SendBody, s.posted = [0, 1, 0] ∧ s.polled = 1 ∧ BuffersOwned 2 ⟨0, 0⟩ s := by
  have hrun : ∃ s, run (reliableStep (clientProgram ⟨0, 0⟩) 2)
      [.post 0 0, .complete 0 0 [], .poll 1, .handle, .handle, .post 0 0]
      (clientStart 2 ⟨0, 0⟩ ⟨0, 0, 0⟩ (fun _ => 0)) = some s ∧ s.posted = [0, 1, 0] ∧ s.polled = 1 := ⟨_,rfl,rfl,rfl⟩
  obtain ⟨s,hs,hposted,hpolled⟩ := hrun
  exact ⟨s,hposted,hpolled,client_buffers_owned (by decide) (reachable_of_run _ hs)⟩

end IbverbPrototype.Rdma
