import IbverbPrototype.Rdma.SetUp

/-! Inline sends: the flag is decided from the MTU of the port, the requests it goes into
all have the length of a message. -/
namespace IbverbPrototype.Rdma
open Roce (msgSize)
variable {n : Nat}

inductive IbvMtu where
  | mtu256
  | mtu512
  | mtu1024
  | mtu2048
  | mtu4096
  deriving DecidableEq

def IbvMtu.code : IbvMtu → Nat
  | .mtu256 => 1
  | .mtu512 => 2
  | .mtu1024 => 3
  | .mtu2048 => 4
  | .mtu4096 => 5

def ibvSendSignaled : BitVec 32 := 1 <<< 1
def ibvSendInline : BitVec 32 := 1 <<< 3

def maxMtu (activeMtu : IbvMtu) : BitVec 32 := 1 <<< (activeMtu.code+7)

/-- The flags rdma_init leaves behind, for what the device reports. -/
def sendFlags (activeMtu : IbvMtu) (maxInlineData : BitVec 32) : BitVec 32 :=
  if maxInlineData ≥ maxMtu activeMtu then ibvSendSignaled ||| ibvSendInline else ibvSendSignaled

/-- A request asks the device to copy its data when it is posted. -/
def SendBody.Inline (body : SendBody) : Prop := body.sendFlags &&& ibvSendInline ≠ 0

/-- Bytes of a request over all of its entries. -/
def totalSgeLength (sges : List Sge) : Nat := (sges.map Sge.length).sum

/-- The contract of inline sends, for every request the client sets up. -/
def InlineFits (n : Nat) (region : Region) (ah : Nat) (qpn : BitVec 32) (activeMtu : IbvMtu)
    (maxInlineData : BitVec 32) : Prop :=
  ∀ request ∈ initRequests n (sendBody ⟨sendFlags activeMtu maxInlineData, ah, qpn⟩), request.body.Inline →
    totalSgeLength (entries (sendScatterGather n region) request.body.sgList request.body.numSge) ≤
      maxInlineData.toNat

/-- Every MTU leaves a gap below the size of a message. -/
theorem maxMtu_lt (activeMtu : IbvMtu) : (maxMtu activeMtu).toNat < msgSize := by
  cases activeMtu <;> decide

theorem inline_iff {activeMtu : IbvMtu} {maxInlineData : BitVec 32} {ah : Nat} {qpn : BitVec 32} (i : Nat) :
    (sendBody ⟨sendFlags activeMtu maxInlineData, ah, qpn⟩ i).Inline ↔ maxMtu activeMtu ≤ maxInlineData := by
  change sendFlags activeMtu maxInlineData &&& ibvSendInline ≠ 0 ↔ _
  rw [sendFlags]
  split
  · rename_i hge
    exact iff_of_true (by decide) hge
  · rename_i hlt
    exact iff_of_false (by decide) hlt

/-- Each request of the client is one whole message. -/
theorem send_length {i : Nat} (region : Region) (target : SendTarget) (hi : i < n) :
    totalSgeLength (entries (sendScatterGather n region) (sendBody target i).sgList (sendBody target i).numSge) =
      msgSize := by
  rw [sendScatterGather_entries region target hi]
  rfl

/-- The first request tells whether the contract is kept. -/
theorem inline_first {region : Region} {ah : Nat} {qpn : BitVec 32} {activeMtu : IbvMtu} {maxInlineData : BitVec 32}
    (hn : 0 < n) (hfits : InlineFits n region ah qpn activeMtu maxInlineData)
    (hflag : maxMtu activeMtu ≤ maxInlineData) : msgSize ≤ maxInlineData.toNat := by
  have hfirst := initRequests_getElem? (sendBody ⟨sendFlags activeMtu maxInlineData, ah, qpn⟩) hn
  have hlen := hfits _ (List.mem_of_getElem? hfirst) ((inline_iff 0).mpr hflag)
  rwa [send_length region _ hn] at hlen

/-- For every device: the requests keep the contract exactly when there are none, when the flag
is not set, or when a whole message goes inline. -/
theorem inline_fits_iff (n : Nat) (region : Region) (ah : Nat) (qpn : BitVec 32) (activeMtu : IbvMtu)
    (maxInlineData : BitVec 32) :
    InlineFits n region ah qpn activeMtu maxInlineData ↔
      n = 0 ∨ maxInlineData < maxMtu activeMtu ∨ msgSize ≤ maxInlineData.toNat := by
  constructor
  · intro hfits
    rcases Nat.eq_zero_or_pos n with rfl | hn
    · exact .inl rfl
    · refine .inr ?_
      by_cases hflag : maxMtu activeMtu ≤ maxInlineData
      · exact .inr (inline_first hn hfits hflag)
      · exact .inl (BitVec.not_le.mp hflag)
  · intro hcond request hrequest hinline
    obtain ⟨i,hi,rfl⟩ := List.mem_map.mp hrequest
    have hi := List.mem_range.mp hi
    rw [send_length region _ hi]
    rcases hcond with rfl | hsmall | hwhole
    · exact absurd hi (Nat.not_lt_zero _)
    · exact absurd ((inline_iff i).mp hinline) (BitVec.not_le.mpr hsmall)
    · exact hwhole

/-- A port of the largest MTU on a device that takes 4096 bytes inline. -/
theorem inline_does_not_fit : ¬ ∀ n region ah qpn activeMtu maxInlineData,
    InlineFits n region ah qpn activeMtu maxInlineData := by
  intro hall
  have hlen := inline_first Nat.one_pos (hall 1 ⟨0, 0⟩ 0 0 .mtu4096 4096) (by decide)
  exact absurd hlen (by decide)

end IbverbPrototype.Rdma
