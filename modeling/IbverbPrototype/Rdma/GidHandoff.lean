import IbverbPrototype.Foundations.ByteOrder
import IbverbPrototype.Foundations.FormattedText
import IbverbPrototype.Foundations.Ipv6Text

/-! The address a server reports and a client is given: the GID goes over as text,
through a buffer of the server's own size. -/
namespace IbverbPrototype.Rdma
open Foundations.ByteOrder Foundations.FormattedText Foundations.Ipv6Text

abbrev Gid := Vector Byte 16

/-- The eight 16-bit groups of a GID in network order. -/
def gidGroups (gid : Gid) : List Nat := pairValues bigValue gid.toList

def groupBytes : List Nat → List Byte
  | [] => []
  | g::gs => (toLittle 2 (BitVec.ofNat 16 g)).reverse ++ groupBytes gs

/-- The canonical text, unless it does not fit the size with its NUL. -/
def inetNtop (gid : Gid) (size : Nat) : Option (List Char) :=
  if (ipv6Text (gidGroups gid)).length+1 ≤ size then some (ipv6Text (gidGroups gid)) else none

def inetPton (text : List Char) : Option Gid := do
  let groups ← parseIpv6 text
  if h : (groupBytes groups).length = 16 then some ⟨(groupBytes groups).toArray, by simpa using h⟩ else none

/-- Bytes of gid_string. -/
def gidStringSize : Nat := 33

/-- What the server prints for its operator to pass on. -/
structure ServerAddress where
  lid : BitVec 16
  qpn : BitVec 32
  gid : List Char
  deriving DecidableEq

def ServerAddress.text (a : ServerAddress) : List Char :=
  "LID: ".toList ++ decimal a.lid.toNat ++ "\nQPN: ".toList ++ decimal a.qpn.toInt ++ "\nGID: ".toList ++ a.gid ++
    "\n".toList

inductive ServerError where
  | globalId
  deriving DecidableEq

def ServerError.text : ServerError → List Char
  | .globalId => "Couldn't get global id\n".toList

/-- The end of the server's initialisation, after its queries have succeeded. -/
def reportAddress (lid : BitVec 16) (qpn : BitVec 32) (gid : Gid) : Except ServerError ServerAddress :=
  match inetNtop gid gidStringSize with
  | none => .error .globalId
  | some text => .ok ⟨lid, qpn, text⟩

/-- The GID the client puts into its address handle: the variable keeps what it held when
the argument does not parse. -/
def clientGid (argument : List Char) (gid : Gid) : Gid := (inetPton argument).getD gid

/-- The server starts, and whatever the client's variable held its handle gets the same GID. -/
def HandedOver (lid : BitVec 16) (qpn : BitVec 32) (gid : Gid) : Prop :=
  ∃ address, reportAddress lid qpn gid = .ok address ∧ ∀ before, clientGid address.gid before = gid

theorem groupBytes_values {bs : List Byte} {k : Nat} (h : bs.length = 2*k) :
    groupBytes (pairValues bigValue bs) = bs := by
  refine pair_induction (motive := fun bs => groupBytes (pairValues bigValue bs) = bs) rfl ?_ h
  intro a b rest ih
  have hvalue : BitVec.ofNat 16 (bigValue [a, b]) = ofLittle 16 [b, a] := by
    rw [ofLittle, ← bigValue_reverse]
    rfl
  have hbytes : toLittle 2 (ofLittle 16 [b, a]) = [b, a] := toLittle_ofLittle rfl (by decide)
  rw [pairValues, groupBytes, ih, hvalue, hbytes]
  rfl

theorem pairValues_lt (bs : List Byte) : ∀ g ∈ pairValues bigValue bs, g < 65536 := by
  have hpair (a b : Byte) : bigValue [a, b] < 65536 := by
    have ha := a.isLt
    have hb := b.isLt
    simp only [bigValue, List.foldl_cons, List.foldl_nil]
    omega
  fun_induction pairValues bigValue bs with
  | case1 a b rest ih =>
    intro g hg
    obtain rfl | hg := List.mem_cons.mp hg
    · exact hpair a b
    · exact ih g hg
  | case2 a =>
    intro g hg
    obtain rfl := List.mem_singleton.mp hg
    exact hpair a 0
  | case3 =>
    intro g hg
    cases hg

theorem gidGroups_length (gid : Gid) : (gidGroups gid).length = 8 := by
  have hlen := pairValues_length bigValue (k := 8) (show gid.toList.length = 2*8 from Vector.length_toList)
  rw [Vector.length_toList] at hlen
  change (pairValues bigValue gid.toList).length = 8
  omega

/-- The text of every GID reads back to it. -/
theorem inetPton_text (gid : Gid) : inetPton (ipv6Text (gidGroups gid)) = some gid := by
  have hbytes : groupBytes (gidGroups gid) = gid.toList := groupBytes_values (k := 8) (by simp)
  rw [inetPton, parseIpv6_text (gidGroups_length gid) (pairValues_lt _)]
  simp [hbytes, Vector.toList]

/-- The hand-over works exactly for the GIDs with two adjacent zero groups or at most 25
significant hexadecimal digits. -/
theorem gid_handed_over_iff (lid : BitVec 16) (qpn : BitVec 32) (gid : Gid) :
    HandedOver lid qpn gid ↔ ZeroPair (gidGroups gid) ∨ ((gidGroups gid).map hexDigits).sum ≤ 25 := by
  rw [← ipv6Text_length (gidGroups_length gid) (pairValues_lt _)]
  have hsize : gidStringSize = 33 := rfl
  constructor
  · rintro ⟨address,hreport,-⟩
    by_contra hlong
    have hnone : inetNtop gid gidStringSize = none := if_neg (by omega)
    rw [reportAddress, hnone] at hreport
    cases hreport
  · intro hshort
    have hsome : inetNtop gid gidStringSize = some (ipv6Text (gidGroups gid)) := if_pos (by omega)
    refine ⟨⟨lid,qpn,ipv6Text (gidGroups gid)⟩,?_,?_⟩
    · rw [reportAddress, hsome]
    · intro before
      rw [clientGid, inetPton_text, Option.getD_some]

/-- The server refuses fd12:3456:789a:bcde:f123:4567:89ab:cdef, whose text has 39 characters. -/
theorem long_gid_not_handed_over : ¬ ∀ lid qpn gid, HandedOver lid qpn gid := by
  intro hall
  obtain ⟨address,hreport,-⟩ := hall 0 0
    #v[0xfd, 0x12, 0x34, 0x56, 0x78, 0x9a, 0xbc, 0xde, 0xf1, 0x23, 0x45, 0x67, 0x89, 0xab, 0xcd, 0xef]
  have hrefused : reportAddress 0 0
      #v[0xfd, 0x12, 0x34, 0x56, 0x78, 0x9a, 0xbc, 0xde, 0xf1, 0x23, 0x45, 0x67, 0x89, 0xab, 0xcd, 0xef] =
      .error .globalId := by decide +kernel
  rw [hrefused] at hreport
  cases hreport

end IbverbPrototype.Rdma
