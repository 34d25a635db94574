import IbverbPrototype.Rdma.Buffers

/-! The set-up loops of the server and the client. They fill arrays fresh from malloc
round by round, and end with the ring and the scatter-gather entries of the loop model. -/
namespace IbverbPrototype.Rdma
open Foundations.CheckedMemory
open Roce (msgSize)

/-- A product of ints; none is an overflow. -/
def intMul (a b : Nat) : Option Nat := if a*b < 2^31 then some (a*b) else none

def sizeofIbGrh : Nat := 40

structure RecvBuffer where
  headerBuffer : Nat
  dataBuffer : Nat
  deriving DecidableEq

structure SendBuffer where
  dataBuffer : Nat
  deriving DecidableEq

/-- A registration covers as many bytes of its allocation as it was asked for. -/
structure Registered where
  region : Region
  size : Nat
  deriving DecidableEq

/-- The server's arrays, at first with whatever malloc leaves in them. -/
structure RecvArrays (n : Nat) where
  result : Vector RecvBuffer n
  scatterGather : Vector Sge (n*2)
  recvRequests : Vector (WorkRequest RecvBody) n

structure SendArrays (n : Nat) where
  result : Vector SendBuffer n
  scatterGather : Vector Sge n
  sendRequests : Vector (WorkRequest SendBody) n

variable {n : Nat}

def recvRound (headerRegion region : Region) (arrays : RecvArrays n) (i : Nat) : Option (RecvArrays n) := do
  let offset ← intMul i msgSize
  let first ← intMul 2 i
  let buffers : RecvBuffer := ⟨headerRegion.base+i*sizeofIbGrh, region.base+offset⟩
  let result ← storeInto arrays.result i [buffers]
  let headers ← storeInto arrays.scatterGather first [⟨buffers.headerBuffer, 40, headerRegion.lkey⟩]
  let scatterGather ← storeInto headers (first+1) [⟨buffers.dataBuffer, msgSize, region.lkey⟩]
  let recvRequests ← storeInto arrays.recvRequests i [⟨i, some (if i = n-1 then 0 else i+1), ⟨first, 2⟩⟩]
  some ⟨result, scatterGather, recvRequests⟩

def sendRound (region : Region) (target : SendTarget) (arrays : SendArrays n) (i : Nat) : Option (SendArrays n) := do
  let offset ← intMul i msgSize
  let buffers : SendBuffer := ⟨region.base+offset⟩
  let result ← storeInto arrays.result i [buffers]
  let scatterGather ← storeInto arrays.scatterGather i [⟨buffers.dataBuffer, msgSize, region.lkey⟩]
  let sendRequests ← storeInto arrays.sendRequests i
    [⟨i, some (if i = n-1 then 0 else i+1), ⟨i, 1, .send, target.sendFlags, target.ah, target.qpn, 0x11111111⟩⟩]
  some ⟨result, scatterGather, sendRequests⟩

/-- The first rounds of a loop over the arrays. -/
def fillRounds {α : Type} (round : α → Nat → Option α) (start : α) : Nat → Option α
  | 0 => some start
  | i+1 => (fillRounds round start i).bind (fun arrays => round arrays i)

structure ServerSetUp (n : Nat) where
  buffer : Registered
  headerBuffer : Registered
  arrays : RecvArrays n

structure ClientSetUp (n : Nat) where
  buffer : Registered
  arrays : SendArrays n

/-- From the two allocations to the filled arrays, all calls succeeding. -/
def setUpServer (headerRegion region : Region) (arrays : RecvArrays n) : Option (ServerSetUp n) := do
  let size ← intMul n msgSize
  let headerSize ← intMul n 40
  let arrays ← fillRounds (recvRound headerRegion region) arrays n
  some ⟨⟨region, size⟩, ⟨headerRegion, headerSize⟩, arrays⟩

def setUpClient (region : Region) (target : SendTarget) (arrays : SendArrays n) : Option (ClientSetUp n) := do
  let size ← intMul n msgSize
  let arrays ← fillRounds (sendRound region target) arrays n
  some ⟨⟨region, size⟩, arrays⟩

theorem sizeofIbGrh_bytes (g : Roce.IbGrh) : g.bytes.length = sizeofIbGrh := g.bytes_length

theorem intMul_eq {a b : Nat} (h : a*b < 2^31) : intMul a b = some (a*b) := if_pos h

theorem intMul_lt {i k : Nat} (hi : i < n) (h : n*k < 2^31) : i*k < 2^31 :=
  lt_of_le_of_lt (Nat.mul_le_mul_right k hi.le) h

/-- Smaller products of the queue size fit where the size of all messages does. -/
theorem int_lt {k : Nat} (h : n*msgSize < 2^31) (hk : k ≤ msgSize) : n*k < 2^31 :=
  lt_of_le_of_lt (Nat.mul_le_mul_left n hk) h

/-- The first i requests of the ring of n. -/
def linked {β : Type} (n : Nat) (body : Nat → β) (i : Nat) : List (WorkRequest β) :=
  (List.range i).map (fun i => ⟨i, some (if i = n-1 then 0 else i+1), body i⟩)

theorem linked_succ {β : Type} (body : Nat → β) (i : Nat) :
    linked n body (i+1) = linked n body i ++ [⟨i, some (if i = n-1 then 0 else i+1), body i⟩] := by
  simp [linked, List.range_succ]

/-- What the server's arrays hold after i rounds. -/
structure RecvFilled (headerRegion region : Region) (start arrays : RecvArrays n) (i : Nat) : Prop where
  result : arrays.result.toList =
    (List.range i).map (fun i => ⟨headerBuffer headerRegion i, dataBuffer region i⟩) ++ start.result.toList.drop i
  scatterGather : arrays.scatterGather.toList =
    recvScatterGather i headerRegion region ++ start.scatterGather.toList.drop (2*i)
  recvRequests : arrays.recvRequests.toList = linked n recvBody i ++ start.recvRequests.toList.drop i

structure SendFilled (region : Region) (target : SendTarget) (start arrays : SendArrays n) (i : Nat) : Prop where
  result : arrays.result.toList =
    (List.range i).map (fun i => ⟨dataBuffer region i⟩) ++ start.result.toList.drop i
  scatterGather : arrays.scatterGather.toList =
    sendScatterGather i region ++ start.scatterGather.toList.drop i
  sendRequests : arrays.sendRequests.toList = linked n (sendBody target) i ++ start.sendRequests.toList.drop i

/-- A store behind the cells filled so far. -/
theorem storeInto_fill {α : Type} {m i : Nat} {mem : Vector α m} {front start : List α} {x : α}
    (hmem : mem.toList = front ++ start.drop i) (hfront : front.length = i) (hstart : start.length = m) (hi : i < m) :
    ∃ stored, storeInto mem i [x] = some stored ∧ stored.toList = front ++ [x] ++ start.drop (i+1) := by
  have hroom : [x].length ≤ (start.drop i).length := by
    rw [List.length_drop, List.length_singleton]
    omega
  obtain ⟨stored,hstored,hlist⟩ := storeInto_next hmem hroom
  rw [hfront] at hstored
  rw [List.length_singleton, List.drop_drop] at hlist
  exact ⟨stored,hstored,hlist⟩

/-- What every round preserves holds of the arrays the loop ends with. -/
theorem fillRounds_invariant {α : Type} {round : α → Nat → Option α} {start : α} {I : α → Nat → Prop}
    (hstart : I start 0)
    (hround : ∀ arrays i, i < n → I arrays i → ∃ next, round arrays i = some next ∧ I next (i+1)) :
    ∀ i, i ≤ n → ∃ arrays, fillRounds round start i = some arrays ∧ I arrays i := by
  intro i
  induction i with
  | zero => exact fun _ => ⟨start,rfl,hstart⟩
  | succ i ih =>
    intro hi
    obtain ⟨arrays,hrounds,hinv⟩ := ih (Nat.le_of_succ_le hi)
    obtain ⟨next,hnext,hinv'⟩ := hround arrays i hi hinv
    exact ⟨next,by rw [fillRounds, hrounds, Option.bind_some, hnext],hinv'⟩

theorem recvScatterGather_length (i : Nat) (headerRegion region : Region) :
    (recvScatterGather i headerRegion region).length = 2*i := by
  simp [recvScatterGather, Nat.mul_comm]

theorem recvScatterGather_succ (i : Nat) (headerRegion region : Region) :
    recvScatterGather (i+1) headerRegion region = recvScatterGather i headerRegion region ++
      [⟨headerBuffer headerRegion i, 40, headerRegion.lkey⟩] ++ [⟨dataBuffer region i, msgSize, region.lkey⟩] := by
  simp [recvScatterGather, List.range_succ, List.flatMap_append]

theorem sendScatterGather_succ (i : Nat) (region : Region) :
    sendScatterGather (i+1) region = sendScatterGather i region ++ [⟨dataBuffer region i, msgSize, region.lkey⟩] := by
  simp [sendScatterGather, List.range_succ]

theorem recvRound_fills {headerRegion region : Region} {start arrays : RecvArrays n} {i : Nat}
    (hint : n*msgSize < 2^31) (hi : i < n) (h : RecvFilled headerRegion region start arrays i) :
    ∃ next, recvRound headerRegion region arrays i = some next ∧
      RecvFilled headerRegion region start next (i+1) := by
  have hoffset : intMul i msgSize = some (i*msgSize) := intMul_eq (intMul_lt hi hint)
  have hfirst : intMul 2 i = some (2*i) := intMul_eq (Nat.mul_comm i 2 ▸ intMul_lt hi (int_lt hint (by decide)))
  have hheader : headerRegion.base+i*sizeofIbGrh = headerBuffer headerRegion i := rfl
  have hdata : region.base+i*msgSize = dataBuffer region i := rfl
  have hbody : (⟨2*i, 2⟩ : RecvBody) = recvBody i := rfl
  obtain ⟨result,hresult,hresultList⟩ := storeInto_fill (x := ⟨headerBuffer headerRegion i, dataBuffer region i⟩)
    h.result (by simp) Vector.length_toList hi
  obtain ⟨headers,hheaders,hheadersList⟩ := storeInto_fill (x := ⟨headerBuffer headerRegion i, 40, headerRegion.lkey⟩)
    h.scatterGather (recvScatterGather_length i _ _) Vector.length_toList (by omega)
  obtain ⟨entries,hentries,hentriesList⟩ := storeInto_fill (x := ⟨dataBuffer region i, msgSize, region.lkey⟩)
    (i := 2*i+1) hheadersList (by simp [recvScatterGather_length]) Vector.length_toList (by omega)
  obtain ⟨requests,hrequests,hrequestsList⟩ := storeInto_fill
    (x := ⟨i, some (if i = n-1 then 0 else i+1), recvBody i⟩) h.recvRequests (by simp [linked])
    Vector.length_toList hi
  refine ⟨⟨result,entries,requests⟩,?_,?_,?_,?_⟩
  · simp only [recvRound, hoffset, hfirst, Option.bind_eq_bind, Option.bind_some, hheader, hdata, hbody, hresult,
      hheaders, hentries, hrequests]
  · rw [hresultList, List.range_succ, List.map_append, List.map_singleton]
  · rw [hentriesList, recvScatterGather_succ]
    rfl
  · rw [hrequestsList, linked_succ]

theorem sendRound_fills {region : Region} {target : SendTarget} {start arrays : SendArrays n} {i : Nat}
    (hint : n*msgSize < 2^31) (hi : i < n) (h : SendFilled region target start arrays i) :
    ∃ next, sendRound region target arrays i = some next ∧ SendFilled region target start next (i+1) := by
  have hoffset : intMul i msgSize = some (i*msgSize) := intMul_eq (intMul_lt hi hint)
  have hdata : region.base+i*msgSize = dataBuffer region i := rfl
  have hbody : (⟨i, 1, .send, target.sendFlags, target.ah, target.qpn, 0x11111111⟩ : SendBody) = sendBody target i :=
    rfl
  obtain ⟨result,hresult,hresultList⟩ := storeInto_fill (x := ⟨dataBuffer region i⟩)
    h.result (by simp) Vector.length_toList hi
  obtain ⟨entries,hentries,hentriesList⟩ := storeInto_fill (x := ⟨dataBuffer region i, msgSize, region.lkey⟩)
    h.scatterGather (by simp [sendScatterGather]) Vector.length_toList hi
  obtain ⟨requests,hrequests,hrequestsList⟩ := storeInto_fill
    (x := ⟨i, some (if i = n-1 then 0 else i+1), sendBody target i⟩) h.sendRequests (by simp [linked])
    Vector.length_toList hi
  refine ⟨⟨result,entries,requests⟩,?_,?_,?_,?_⟩
  · simp only [sendRound, hoffset, Option.bind_eq_bind, Option.bind_some, hdata, hbody, hresult, hentries, hrequests]
  · rw [hresultList, List.range_succ, List.map_append, List.map_singleton]
  · rw [hentriesList, sendScatterGather_succ]
  · rw [hrequestsList, linked_succ]

/-- After the last round nothing is left of what malloc gave. -/
theorem toList_filled {α : Type} {m k : Nat} {v start : Vector α m} {front : List α} (hk : m ≤ k)
    (h : v.toList = front ++ start.toList.drop k) : v.toList = front := by
  have hlen : start.toList.length ≤ k := by rwa [Vector.length_toList]
  rwa [List.drop_eq_nil_of_le hlen, List.append_nil] at h

/-- The server's loop ends with the buffers in order, the ring and its entries. -/
theorem setUpServer_eq (headerRegion region : Region) (start : RecvArrays n) (hint : n*msgSize < 2^31) :
    ∃ done, setUpServer headerRegion region start = some done ∧
      done.buffer = ⟨region, n*msgSize⟩ ∧ done.headerBuffer = ⟨headerRegion, n*40⟩ ∧
      done.arrays.result.toList =
        (List.range n).map (fun i => ⟨headerBuffer headerRegion i, dataBuffer region i⟩) ∧
      done.arrays.scatterGather.toList = recvScatterGather n headerRegion region ∧
      done.arrays.recvRequests.toList = initRequests n recvBody := by
  obtain ⟨arrays,hrounds,hfilled⟩ := fillRounds_invariant (I := RecvFilled headerRegion region start)
    ⟨rfl,rfl,rfl⟩ (fun _ _ hi h => recvRound_fills hint hi h) n le_rfl
  refine ⟨⟨⟨region, n*msgSize⟩,⟨headerRegion, n*40⟩,arrays⟩,?_,rfl,rfl,toList_filled le_rfl hfilled.result,
    toList_filled (Nat.mul_comm n 2).le hfilled.scatterGather,toList_filled le_rfl hfilled.recvRequests⟩
  have hheader : n*40 < 2^31 := int_lt hint (by decide)
  simp only [setUpServer, intMul_eq hint, intMul_eq hheader, hrounds, Option.bind_eq_bind, Option.bind_some]

theorem setUpClient_eq (region : Region) (target : SendTarget) (start : SendArrays n) (hint : n*msgSize < 2^31) :
    ∃ done, setUpClient region target start = some done ∧ done.buffer = ⟨region, n*msgSize⟩ ∧
      done.arrays.result.toList = (List.range n).map (fun i => ⟨dataBuffer region i⟩) ∧
      done.arrays.scatterGather.toList = sendScatterGather n region ∧
      done.arrays.sendRequests.toList = initRequests n (sendBody target) := by
  obtain ⟨arrays,hrounds,hfilled⟩ := fillRounds_invariant (I := SendFilled region target start)
    ⟨rfl,rfl,rfl⟩ (fun _ _ hi h => sendRound_fills hint hi h) n le_rfl
  refine ⟨⟨⟨region, n*msgSize⟩,arrays⟩,?_,rfl,toList_filled le_rfl hfilled.result,
    toList_filled le_rfl hfilled.scatterGather,toList_filled le_rfl hfilled.sendRequests⟩
  simp only [setUpClient, intMul_eq hint, hrounds, Option.bind_eq_bind, Option.bind_some]

end IbverbPrototype.Rdma
