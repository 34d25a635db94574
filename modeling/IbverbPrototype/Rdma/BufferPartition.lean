import IbverbPrototype.Foundations.Tiling
import IbverbPrototype.Rdma.SetUp

/-! What the set-up loops leave: a ring through all requests, and entries that divide the
registered buffers among them. -/
namespace IbverbPrototype.Rdma
open Foundations.CyclicInterval Foundations.Tiling
open Roce (msgSize)
variable {n : Nat} {β : Type}

/-- The request reached from request i over k links. -/
def follow (requests : List (WorkRequest β)) (i : Nat) : Nat → Option Nat
  | 0 => some i
  | k+1 => (follow requests i k).bind (fun j => requests[j]?.bind WorkRequest.next)

/-- The links lead from each request through all n, none twice, and back to it. -/
structure Ring (n : Nat) (requests : List (WorkRequest β)) : Prop where
  visits : ∀ i, i < n → ((List.range n).map (follow requests i)).Perm ((List.range n).map some)
  returns : ∀ i, i < n → follow requests i n = some i

def Sge.range (e : Sge) : Set Nat := Set.Ico e.addr (e.addr+e.length)

def Registered.range (r : Registered) : Set Nat := Set.Ico r.region.base (r.region.base+r.size)

/-- Entries that divide registered buffers: each inside the one whose key it carries, no two
over a common byte, and no byte left out. -/
structure Partition (sges : List Sge) (registered : List Registered) : Prop where
  inside : ∀ e ∈ sges, ∃ r ∈ registered, e.lkey = r.region.lkey ∧ e.range ⊆ r.range
  disjoint : sges.Pairwise (fun a b => Disjoint a.range b.range)
  cover : ∀ a, (∃ e ∈ sges, a ∈ e.range) ↔ ∃ r ∈ registered, a ∈ r.range

/-- Two allocations made side by side. -/
structure ServerRegions (n : Nat) where
  header : Region
  data : Region
  apart : Disjoint (Registered.range ⟨header, n*40⟩) (Registered.range ⟨data, n*msgSize⟩)

def RecvArrays.entries (arrays : RecvArrays n) (request : WorkRequest RecvBody) : List Sge :=
  Rdma.entries arrays.scatterGather.toList request.body.sgList request.body.numSge

def SendArrays.entries (arrays : SendArrays n) (request : WorkRequest SendBody) : List Sge :=
  Rdma.entries arrays.scatterGather.toList request.body.sgList request.body.numSge

/-- The server's result: request i is numbered i and receives into buffer i, header first. -/
structure ServerLayout (done : ServerSetUp n) : Prop where
  ring : Ring n done.arrays.recvRequests.toList
  requests : ∀ i (hi : i < n), done.arrays.recvRequests[i].wrId = i ∧
    done.arrays.entries done.arrays.recvRequests[i] =
      [⟨done.arrays.result[i].headerBuffer, 40, done.headerBuffer.region.lkey⟩,
        ⟨done.arrays.result[i].dataBuffer, msgSize, done.buffer.region.lkey⟩]
  partition : Partition (done.arrays.recvRequests.toList.flatMap done.arrays.entries)
    [done.headerBuffer, done.buffer]

structure ClientLayout (done : ClientSetUp n) : Prop where
  ring : Ring n done.arrays.sendRequests.toList
  requests : ∀ i (hi : i < n), done.arrays.sendRequests[i].wrId = i ∧
    done.arrays.entries done.arrays.sendRequests[i] =
      [⟨done.arrays.result[i].dataBuffer, msgSize, done.buffer.region.lkey⟩]
  partition : Partition (done.arrays.sendRequests.toList.flatMap done.arrays.entries) [done.buffer]

theorem follow_ring {i : Nat} (body : Nat → β) (hi : i < n) (k : Nat) :
    follow (initRequests n body) i k = some ((i+k) % n) := by
  induction k with
  | zero => rw [follow, Nat.add_zero, Nat.mod_eq_of_lt hi]
  | succ k ih =>
    rw [follow, ih, Option.bind_some, initRequests_getElem? body (Nat.mod_lt _ (Nat.zero_lt_of_lt hi)),
      Option.bind_some, Nat.mod_add_mod]
    rfl

theorem initRequests_ring (body : Nat → β) : Ring n (initRequests n body) where
  visits i hi := by
    have hvisits : (List.range n).map (follow (initRequests n body) i) = (cyc n i n).map some := by
      rw [cyc, List.map_map]
      exact List.map_congr_left (fun k _ => follow_ring body hi k)
    rw [hvisits]
    exact (cyc_perm (Nat.zero_lt_of_lt hi) i).map some
  returns i hi := by rw [follow_ring body hi, Nat.add_mod_right, Nat.mod_eq_of_lt hi]

/-- The buffers of one stride, as entries into one region. -/
theorem send_partition (region : Region) : Partition (sendScatterGather n region) [⟨region, n*msgSize⟩] where
  inside e he := by
    obtain ⟨i,hi,rfl⟩ := List.mem_map.mp he
    exact ⟨_,List.mem_singleton_self _,rfl,block_subset region.base (List.mem_range.mp hi)⟩
  disjoint := by
    rw [sendScatterGather, List.pairwise_map]
    exact List.nodup_range.imp (fun hij => blocks_disjoint region.base msgSize hij)
  cover a := by
    have hblocks := mem_blocks region.base (show 0 < msgSize by decide) n a
    constructor
    · rintro ⟨e,he,ha⟩
      obtain ⟨i,hi,rfl⟩ := List.mem_map.mp he
      exact ⟨_,List.mem_singleton_self _,hblocks.mp ⟨i,List.mem_range.mp hi,ha⟩⟩
    · rintro ⟨r,hr,ha⟩
      obtain rfl := List.mem_singleton.mp hr
      obtain ⟨i,hi,ha⟩ := hblocks.mpr ha
      exact ⟨_,List.mem_map_of_mem (List.mem_range.mpr hi),ha⟩

theorem mem_recvScatterGather {headerRegion region : Region} {e : Sge} :
    e ∈ recvScatterGather n headerRegion region ↔ ∃ i < n, e = ⟨headerBuffer headerRegion i, 40, headerRegion.lkey⟩ ∨
      e = ⟨dataBuffer region i, msgSize, region.lkey⟩ := by
  simp [recvScatterGather]

/-- Headers and data interleaved, as entries into two regions that do not overlap. -/
theorem recv_partition (regions : ServerRegions n) : Partition (recvScatterGather n regions.header regions.data)
    [⟨regions.header, n*40⟩, ⟨regions.data, n*msgSize⟩] where
  inside e he := by
    obtain ⟨i,hi,rfl | rfl⟩ := mem_recvScatterGather.mp he
    · exact ⟨_,List.mem_cons_self,rfl,block_subset regions.header.base hi⟩
    · exact ⟨_,List.mem_cons_of_mem _ List.mem_cons_self,rfl,block_subset regions.data.base hi⟩
  disjoint := by
    have hcross {i j : Nat} (hi : i < n) (hj : j < n) :
        Disjoint (block regions.header.base 40 i) (block regions.data.base msgSize j) :=
      regions.apart.mono (block_subset regions.header.base hi) (block_subset regions.data.base hj)
    rw [recvScatterGather, List.pairwise_flatMap]
    refine ⟨?_,List.nodup_range.imp_of_mem ?_⟩
    · intro i hi
      exact List.pairwise_pair.mpr (hcross (List.mem_range.mp hi) (List.mem_range.mp hi))
    · intro i j hi hj hij a ha b hb
      have hi := List.mem_range.mp hi
      have hj := List.mem_range.mp hj
      obtain rfl | rfl := List.mem_pair.mp ha <;> obtain rfl | rfl := List.mem_pair.mp hb
      · exact blocks_disjoint regions.header.base 40 hij
      · exact hcross hi hj
      · exact (hcross hj hi).symm
      · exact blocks_disjoint regions.data.base msgSize hij
  cover a := by
    have hheaders := mem_blocks regions.header.base (show 0 < 40 by decide) n a
    have hdata := mem_blocks regions.data.base (show 0 < msgSize by decide) n a
    constructor
    · rintro ⟨e,he,ha⟩
      obtain ⟨i,hi,rfl | rfl⟩ := mem_recvScatterGather.mp he
      · exact ⟨_,List.mem_cons_self,hheaders.mp ⟨i,hi,ha⟩⟩
      · exact ⟨_,List.mem_cons_of_mem _ List.mem_cons_self,hdata.mp ⟨i,hi,ha⟩⟩
    · rintro ⟨r,hr,ha⟩
      obtain rfl | rfl := List.mem_pair.mp hr
      · obtain ⟨i,hi,ha⟩ := hheaders.mpr ha
        exact ⟨_,mem_recvScatterGather.mpr ⟨i,hi,.inl rfl⟩,ha⟩
      · obtain ⟨i,hi,ha⟩ := hdata.mpr ha
        exact ⟨_,mem_recvScatterGather.mpr ⟨i,hi,.inr rfl⟩,ha⟩

theorem recvScatterGather_entries {i : Nat} (headerRegion region : Region) (hi : i < n) :
    entries (recvScatterGather n headerRegion region) (recvBody i).sgList (recvBody i).numSge =
      [⟨headerBuffer headerRegion i, 40, headerRegion.lkey⟩, ⟨dataBuffer region i, msgSize, region.lkey⟩] := by
  obtain ⟨k,rfl⟩ : ∃ k, n = i+1+k := ⟨n-(i+1),by omega⟩
  have hsplit : ∃ rest, recvScatterGather (i+1+k) headerRegion region =
      recvScatterGather (i+1) headerRegion region ++ rest := by
    rw [recvScatterGather, List.range_add, List.flatMap_append]
    exact ⟨_,rfl⟩
  obtain ⟨rest,hrest⟩ := hsplit
  rw [entries, recvBody, hrest, recvScatterGather_succ, List.append_assoc, List.append_assoc,
    List.drop_left' (recvScatterGather_length i _ _)]
  rfl

/-- The entries of the ring's requests, one request after another, are the whole array. -/
theorem recv_entries (headerRegion region : Region) :
    (initRequests n recvBody).flatMap (fun request =>
      entries (recvScatterGather n headerRegion region) request.body.sgList request.body.numSge) =
      recvScatterGather n headerRegion region := by
  conv_rhs => rw [recvScatterGather]
  rw [initRequests, List.flatMap_map]
  refine List.flatMap_congr (fun i hi => ?_)
  exact recvScatterGather_entries headerRegion region (List.mem_range.mp hi)

theorem send_entries (region : Region) (target : SendTarget) :
    (initRequests n (sendBody target)).flatMap (fun request =>
      entries (sendScatterGather n region) request.body.sgList request.body.numSge) = sendScatterGather n region := by
  conv_rhs => rw [sendScatterGather, List.map_eq_flatMap]
  rw [initRequests, List.flatMap_map]
  refine List.flatMap_congr (fun i hi => ?_)
  exact sendScatterGather_entries region target (List.mem_range.mp hi)

theorem vector_getElem {α : Type} {v : Vector α n} {l : List α} {i : Nat} (h : v.toList = l) (hi : i < n) {x : α}
    (hx : l[i]? = some x) : v[i] = x := by
  subst h
  simpa [hi] using hx

theorem setUpServer_layout (regions : ServerRegions n) (start : RecvArrays n) (hint : n*msgSize < 2^31) :
    ∃ done, setUpServer regions.header regions.data start = some done ∧ ServerLayout done := by
  obtain ⟨done,hdone,hbuffer,hheader,hresult,hsges,hrequests⟩ := setUpServer_eq regions.header regions.data start hint
  refine ⟨done,hdone,hrequests ▸ initRequests_ring _,?_,?_⟩
  · intro i hi
    have hrequest := vector_getElem hrequests hi (initRequests_getElem? recvBody hi)
    have hbuffers := vector_getElem hresult hi (x := ⟨headerBuffer regions.header i, dataBuffer regions.data i⟩)
      (by simp [hi])
    rw [hrequest, hbuffers, hbuffer, hheader, RecvArrays.entries, hsges]
    exact ⟨rfl,recvScatterGather_entries regions.header regions.data hi⟩
  · have hentries : done.arrays.entries = fun request =>
        entries (recvScatterGather n regions.header regions.data) request.body.sgList request.body.numSge := by
      funext request
      rw [RecvArrays.entries, hsges]
    rw [hrequests, hentries, recv_entries, hbuffer, hheader]
    exact recv_partition regions

theorem setUpClient_layout (region : Region) (target : SendTarget) (start : SendArrays n) (hint : n*msgSize < 2^31) :
    ∃ done, setUpClient region target start = some done ∧ ClientLayout done := by
  obtain ⟨done,hdone,hbuffer,hresult,hsges,hrequests⟩ := setUpClient_eq region target start hint
  refine ⟨done,hdone,hrequests ▸ initRequests_ring _,?_,?_⟩
  · intro i hi
    have hrequest := vector_getElem hrequests hi (initRequests_getElem? (sendBody target) hi)
    have hbuffers := vector_getElem hresult hi (x := ⟨dataBuffer region i⟩) (by simp [hi])
    rw [hrequest, hbuffers, hbuffer, SendArrays.entries, hsges]
    exact ⟨rfl,sendScatterGather_entries region target hi⟩
  · have hentries : done.arrays.entries = fun request =>
        entries (sendScatterGather n region) request.body.sgList request.body.numSge := by
      funext request
      rw [SendArrays.entries, hsges]
    rw [hrequests, hentries, send_entries, hbuffer]
    exact send_partition region

/-- For every queue size whose messages an int can count: both set-ups end with a ring of
requests numbered in order, and with entries that divide the registered buffers. -/
theorem initial_partition (hint : n*msgSize < 2^31) :
    (∀ (regions : ServerRegions n) (start : RecvArrays n),
      ∃ done, setUpServer regions.header regions.data start = some done ∧ ServerLayout done) ∧
    ∀ (region : Region) (target : SendTarget) (start : SendArrays n),
      ∃ done, setUpClient region target start = some done ∧ ClientLayout done :=
  ⟨fun regions start => setUpServer_layout regions start hint,
    fun region target start => setUpClient_layout region target start hint⟩

/-- Twenty requests, the server's buffers on two pages of their own. -/
theorem initial_partition_twenty :
    (∃ regions : ServerRegions 20, regions.header = ⟨0x1000, 1⟩ ∧ regions.data = ⟨0x2000, 2⟩ ∧
      ∀ start : RecvArrays 20, ∃ done, setUpServer regions.header regions.data start = some done ∧
        ServerLayout done) ∧
    ∀ (region : Region) (target : SendTarget) (start : SendArrays 20),
      ∃ done, setUpClient region target start = some done ∧ ClientLayout done := by
  obtain ⟨hserver,hclient⟩ := initial_partition (n := 20) (by decide)
  have hapart : Disjoint (Registered.range ⟨⟨0x1000, 1⟩, 20*40⟩) (Registered.range ⟨⟨0x2000, 2⟩, 20*msgSize⟩) := by
    rw [Set.disjoint_left]
    rintro a ⟨-,hhi⟩ ⟨hlo,-⟩
    change a < 0x1000+20*40 at hhi
    change 0x2000 ≤ a at hlo
    omega
  exact ⟨⟨⟨_,_,hapart⟩,rfl,rfl,fun start => hserver _ start⟩,hclient⟩

end IbverbPrototype.Rdma
