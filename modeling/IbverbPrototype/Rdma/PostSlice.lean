import IbverbPrototype.Rdma.Buffers

/-! The two posting calls in the integer types of the source, and the slice of the ring
they hand to the provider. -/
namespace IbverbPrototype.Rdma
open Foundations.CyclicInterval

variable {β : Type}

/-- The last index of a slice: an int remainder stored in a size_t. -/
def lastIdx (queueSize start count : BitVec 32) : BitVec 64 := ((start+count-1).srem queueSize).signExtend 64

/-- A posting call on the ring it was given, for the result the provider answers with. -/
def postSlice (requests : List (WorkRequest β)) (queueSize start count : BitVec 32) (result : Int) : Posted β :=
  let lastIdx := (lastIdx queueSize start count).toNat
  let old := requests[lastIdx]?.bind WorkRequest.next
  let cut := setNext requests lastIdx none
  { requests := setNext cut lastIdx old
    handed := chain cut requests.length (some start.toNat)
    returnValue := if result ≠ 0 then -1 else 0 }

def postSends (sendRequests : List (WorkRequest SendBody)) (queueSize start count : BitVec 32) (result : Int) :
    Posted SendBody :=
  postSlice sendRequests queueSize start count result

def postRecvs (recvRequests : List (WorkRequest RecvBody)) (queueSize start count : BitVec 32) (result : Int) :
    Posted RecvBody :=
  postSlice recvRequests queueSize start count result

/-- While the sum stays within int the remainder is the one of the numbers. -/
theorem lastIdx_toNat {n start count : Nat} (hc : 1 ≤ count) (hn : n < 2^31) (hsum : start+count < 2^31) :
    (lastIdx (BitVec.ofNat 32 n) (BitVec.ofNat 32 start) (BitVec.ofNat 32 count)).toNat = (start+count-1) % n := by
  have hval : BitVec.ofNat 32 start+BitVec.ofNat 32 count-1 = BitVec.ofNat 32 (start+count-1) := by
    apply BitVec.eq_of_toNat_eq
    have hone : (1 : BitVec 32).toNat = 1 := rfl
    rw [BitVec.toNat_sub, BitVec.toNat_add, BitVec.toNat_ofNat, BitVec.toNat_ofNat, BitVec.toNat_ofNat, hone]
    omega
  have hsmall {m : Nat} (hm : m < 2^31) : (BitVec.ofNat 32 m).toNat = m ∧ (BitVec.ofNat 32 m).msb = false := by
    have hnat : (BitVec.ofNat 32 m).toNat = m := by
      rw [BitVec.toNat_ofNat]
      omega
    exact ⟨hnat,BitVec.msb_eq_false_iff_two_mul_lt.mpr (by omega)⟩
  obtain ⟨hx,hxm⟩ := hsmall (show start+count-1 < 2^31 by omega)
  obtain ⟨hy,hym⟩ := hsmall hn
  have hrem : (BitVec.ofNat 32 (start+count-1)).srem (BitVec.ofNat 32 n) =
      BitVec.ofNat 32 (start+count-1) % BitVec.ofNat 32 n := by
    rw [BitVec.srem_eq, hxm, hym]
  have hlow : (start+count-1) % n ≤ start+count-1 := Nat.mod_le _ _
  have hmod : (BitVec.ofNat 32 (start+count-1) % BitVec.ofNat 32 n).toNat = (start+count-1) % n := by
    rw [BitVec.toNat_umod, hx, hy]
  have hpos : (BitVec.ofNat 32 (start+count-1) % BitVec.ofNat 32 n).msb = false :=
    BitVec.msb_eq_false_iff_two_mul_lt.mpr (by omega)
  rw [lastIdx, hval, hrem, BitVec.signExtend_eq_setWidth_of_msb_false hpos, BitVec.toNat_setWidth, hmod]
  omega

/-- Within int the call is the one over natural numbers. -/
theorem postSlice_eq (requests : List (WorkRequest β)) {n start count : Nat} (result : Int) (hc : 1 ≤ count)
    (hn : n < 2^31) (hsum : start+count < 2^31) :
    postSlice requests (BitVec.ofNat 32 n) (BitVec.ofNat 32 start) (BitVec.ofNat 32 count) result =
      postRequests requests n start count result := by
  have hstart : (BitVec.ofNat 32 start).toNat = start := by
    rw [BitVec.toNat_ofNat]
    omega
  simp only [postSlice, postRequests, lastIdx_toNat hc hn hsum, hstart]

/-- A call for count requests of a ring from start on: the finite chain handed over meets
them in ring order, each once, all as they are in the ring but for the link of the last;
the ring is left as it was. -/
structure SlicePosted (ring : List (WorkRequest β)) (start count : Nat) (result : Int) (call : Posted β) : Prop where
  handed : ∃ chain, call.handed = some chain ∧ chain.length = count ∧
    chain.map WorkRequest.wrId = cyc ring.length start count ∧ (cyc ring.length start count).Nodup ∧
    ∀ i, i < count → ∃ request, ring[(start+i) % ring.length]? = some request ∧
      chain[i]? = some { request with next := if i+1 = count then none else request.next }
  ring : call.requests = ring
  returned : call.returnValue = 0 ↔ result = 0

theorem postRequests_posted {n start count : Nat} (body : Nat → β) (result : Int) (hs : start < n) (hc : 1 ≤ count)
    (hcn : count ≤ n) :
    SlicePosted (initRequests n body) start count result (postRequests (initRequests n body) n start count result) := by
  obtain ⟨hring,hhanded⟩ := postRequests_slice body result hs hc hcn
  have hn : 0 < n := Nat.zero_lt_of_lt hs
  refine ⟨⟨_,hhanded,?_,?_,?_,?_⟩,hring,?_⟩
  · rw [List.length_map, cyc_length]
  · rw [List.map_map, initRequests_length]
    exact List.map_id _
  · exact cyc_nodup (by rwa [initRequests_length])
  · intro i hi
    have hlast : (start+count-1) % n = (start+i) % n ↔ i+1 = count := by
      constructor
      · intro heq
        have hmod : count-1 ≡ i [MOD n] := by
          refine Nat.ModEq.add_left_cancel' start ?_
          rwa [← Nat.add_sub_assoc hc]
        have hsame := Nat.ModEq.eq_of_lt_of_lt hmod (by omega) (by omega)
        omega
      · rintro rfl
        rfl
    rw [initRequests_length]
    refine ⟨_,initRequests_getElem? body (Nat.mod_lt _ hn),?_⟩
    rw [List.getElem?_map, cyc_getElem? n start hi, Option.map_some, handedRequest]
    simp only [hlast]
  · rw [postRequests]
    by_cases hresult : result = 0
    · simp [hresult]
    · simp [hresult]

/-- For every ring the set-up loops link and every slice of it, sends and receives alike,
whatever the provider answers. -/
theorem cyclic_slices_posted {n start count : Nat} (hs : start < n) (hc : 1 ≤ count) (hcn : count ≤ n)
    (hint : 2*n < 2^31) (target : SendTarget) (result : Int) :
    SlicePosted (initRequests n (sendBody target)) start count result
      (postSends (initRequests n (sendBody target)) (BitVec.ofNat 32 n) (BitVec.ofNat 32 start) (BitVec.ofNat 32 count)
        result) ∧
    SlicePosted (initRequests n recvBody) start count result
      (postRecvs (initRequests n recvBody) (BitVec.ofNat 32 n) (BitVec.ofNat 32 start) (BitVec.ofNat 32 count)
        result) := by
  rw [postSends, postRecvs, postSlice_eq _ result hc (by omega) (by omega),
    postSlice_eq _ result hc (by omega) (by omega)]
  exact ⟨postRequests_posted _ result hs hc hcn,postRequests_posted _ result hs hc hcn⟩

/-- Two requests of a ring of three that wrap around, the provider refusing them. -/
theorem cyclic_slices_posted_wrap :
    SlicePosted (initRequests 3 (sendBody ⟨0, 0, 0⟩)) 2 2 22 (postSends (initRequests 3 (sendBody ⟨0, 0, 0⟩)) 3 2 2 22) ∧
    SlicePosted (initRequests 3 recvBody) 2 2 22 (postRecvs (initRequests 3 recvBody) 3 2 2 22) :=
  cyclic_slices_posted (by decide) (by decide) (by decide) (by decide) ⟨0, 0, 0⟩ 22

end IbverbPrototype.Rdma
