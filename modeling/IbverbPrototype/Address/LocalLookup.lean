import IbverbPrototype.Address.LookupAddr
import IbverbPrototype.Foundations.Halting
import Mathlib.Logic.Relation

/-! The lookup of an interface's own addresses: one pass over the list of the system,
each family's last entry of the interface staying. -/
namespace IbverbPrototype.Address
open Foundations.ByteOrder Foundations.Halting

/-- An address by its family; the hardware address comes in eight bytes. -/
inductive SockAddr where
  | inet (addr : BitVec 32)
  | inet6 (addr : Vector Byte 16)
  | packet (addr : Vector Byte 8)
  | other (family : BitVec 16)

/-- An entry of getifaddrs; an interface need not have an address. -/
structure IfAddr where
  name : String
  addr : Option SockAddr

variable {α : Type}

/-- How a program ends before it comes to its packets. -/
inductive Failure where
  | signalHandler
  | usage
  | nics
  | socket
  | ioctl
  | interfaceIndex
  deriving DecidableEq

def zeroAddr : Addr := ⟨Vector.replicate 6 0, 0, Vector.replicate 16 0⟩

/-- The low six of its eight bytes. -/
def macOf (addr : Vector Byte 8) : Vector Byte 6 := addr.take 6

/-- The switch over the family of an entry's address. -/
def setFamily (localAddr : Addr) : SockAddr → Addr
  | .inet addr => { localAddr with ipv4 := addr }
  | .inet6 addr => { localAddr with ipv6 := addr }
  | .packet addr => { localAddr with mac := macOf addr }
  | .other _ => localAddr

/-- The loop body for one entry. -/
def localEntry (interface : String) (localAddr : Addr) (curr : IfAddr) : Except (Halt Failure) Addr :=
  if interface ≠ curr.name then .ok localAddr else do
  let addr ← deref curr.addr
  .ok (setFamily localAddr addr)

/-- The loop over the rest of the list. -/
def localEntries (interface : String) : List IfAddr → Addr → Except (Halt Failure) Addr
  | [], localAddr => .ok localAddr
  | curr::rest, localAddr => do localEntries interface rest (← localEntry interface localAddr curr)

/-- The list is none where getifaddrs fails. -/
def lookupLocalAddr (interface : String) : Option (List IfAddr) → Except (Halt Failure) Addr
  | none => .error (.exit .nics)
  | some ifAddrs => localEntries interface ifAddrs zeroAddr

def SockAddr.ipv4? : SockAddr → Option (BitVec 32)
  | .inet addr => some addr
  | _ => none

def SockAddr.ipv6? : SockAddr → Option (Vector Byte 16)
  | .inet6 addr => some addr
  | _ => none

def SockAddr.mac? : SockAddr → Option (Vector Byte 6)
  | .packet addr => some (macOf addr)
  | _ => none

def ownAddr (family : SockAddr → Option α) (interface : String) (curr : IfAddr) : Option α :=
  if interface = curr.name then curr.addr.bind family else none

/-- The addresses of one interface and family, in the order of the list. -/
def ownAddrs (family : SockAddr → Option α) (interface : String) (ifAddrs : List IfAddr) : List α :=
  ifAddrs.filterMap (ownAddr family interface)

/-- The last of them, or what is there without any. -/
def lastAddr (family : SockAddr → Option α) (interface : String) (ifAddrs : List IfAddr) (before : α) : α :=
  (ownAddrs family interface ifAddrs).getLast?.getD before

def lastAddrs (interface : String) (ifAddrs : List IfAddr) (before : Addr) : Addr where
  mac := lastAddr SockAddr.mac? interface ifAddrs before.mac
  ipv4 := lastAddr SockAddr.ipv4? interface ifAddrs before.ipv4
  ipv6 := lastAddr SockAddr.ipv6? interface ifAddrs before.ipv6

/-- No entry of the interface comes without an address. -/
def Addressed (interface : String) (ifAddrs : List IfAddr) : Prop :=
  ∀ curr ∈ ifAddrs, curr.name = interface → curr.addr ≠ none

/-- The lookup finishes, with each family's last address of the interface, or zero. -/
def FindsLast (interface : String) (ifAddrs : List IfAddr) : Prop :=
  lookupLocalAddr interface (some ifAddrs) = .ok (lastAddrs interface ifAddrs zeroAddr)

/-- An entry of the interface and the family. -/
def Concerns (family : SockAddr → Option α) (interface : String) (curr : IfAddr) : Prop :=
  interface = curr.name ∧ curr.addr.bind family ≠ none

/-- One more entry of another interface, of another family, or without an address. -/
inductive Inserted (family : SockAddr → Option α) (interface : String) :
    List IfAddr → List IfAddr → Prop where
  | entry (front rest : List IfAddr) (curr : IfAddr) (h : ¬ Concerns family interface curr) :
      Inserted family interface (front ++ rest) (front ++ curr::rest)

/-- Such entries inserted, removed and moved about, any number of them. -/
def Edited (family : SockAddr → Option α) (interface : String) : List IfAddr → List IfAddr → Prop :=
  Relation.EqvGen (Inserted family interface)

/-- What does not concern a family leaves its result as it is. -/
def Insensitive (interface : String) (ifAddrs ifAddrs' : List IfAddr) : Prop :=
  ∀ found found', lookupLocalAddr interface (some ifAddrs) = .ok found →
    lookupLocalAddr interface (some ifAddrs') = .ok found' →
    (Edited SockAddr.mac? interface ifAddrs ifAddrs' → found.mac = found'.mac) ∧
    (Edited SockAddr.ipv4? interface ifAddrs ifAddrs' → found.ipv4 = found'.ipv4) ∧
    (Edited SockAddr.ipv6? interface ifAddrs ifAddrs' → found.ipv6 = found'.ipv6)

theorem ownAddrs_edited {family : SockAddr → Option α} {interface : String} {ifAddrs ifAddrs' : List IfAddr}
    (h : Edited family interface ifAddrs ifAddrs') :
    ownAddrs family interface ifAddrs = ownAddrs family interface ifAddrs' := by
  induction h with
  | rel _ _ hinserted =>
    obtain ⟨front,rest,curr,hother⟩ := hinserted
    have hnone : ownAddr family interface curr = none := by
      simpa [Concerns, ownAddr] using hother
    rw [ownAddrs, ownAddrs, List.filterMap_append, List.filterMap_append, List.filterMap_cons_none hnone]
  | refl _ => rfl
  | symm _ _ _ ih => exact ih.symm
  | trans _ _ _ _ _ ih ih' => exact ih.trans ih'

theorem lastAddr_edited {family : SockAddr → Option α} {interface : String} {ifAddrs ifAddrs' : List IfAddr}
    (h : Edited family interface ifAddrs ifAddrs') (before : α) :
    lastAddr family interface ifAddrs before = lastAddr family interface ifAddrs' before := by
  rw [lastAddr, ownAddrs_edited h, lastAddr]

theorem lastAddr_cons (family : SockAddr → Option α) (interface : String) (curr : IfAddr)
    (rest : List IfAddr) (before : α) :
    lastAddr family interface (curr::rest) before =
      lastAddr family interface rest ((ownAddr family interface curr).getD before) := by
  rw [lastAddr, ownAddrs, List.filterMap_cons]
  split
  · rename_i hnone
    rw [hnone]
    rfl
  · rename_i addr hsome
    rw [hsome, List.getLast?_cons]
    rfl

/-- One entry changes at most its own family. -/
theorem localEntry_addressed {interface : String} {curr : IfAddr} (h : curr.name = interface → curr.addr ≠ none)
    (localAddr : Addr) :
    ∃ next, localEntry interface localAddr curr = .ok next ∧
      ∀ rest, lastAddrs interface (curr::rest) localAddr = lastAddrs interface rest next := by
  obtain ⟨name,addr⟩ := curr
  simp only [lastAddrs, lastAddr_cons, ownAddr, localEntry]
  by_cases hname : interface = name
  · subst hname
    simp only [ne_eq, not_true_eq_false, ↓reduceIte]
    cases addr with
    | none => exact absurd rfl (h rfl)
    | some addr => cases addr <;> exact ⟨_,rfl,fun _ => rfl⟩
  · simp only [ne_eq, hname, not_false_eq_true, ↓reduceIte]
    exact ⟨_,rfl,fun _ => rfl⟩

theorem localEntries_addressed {interface : String} {ifAddrs : List IfAddr} (h : Addressed interface ifAddrs)
    (localAddr : Addr) : localEntries interface ifAddrs localAddr = .ok (lastAddrs interface ifAddrs localAddr) := by
  induction ifAddrs generalizing localAddr with
  | nil => rfl
  | cons curr rest ih =>
    obtain ⟨next,hnext,hlast⟩ := localEntry_addressed (h curr List.mem_cons_self) localAddr
    rw [localEntries, hnext, hlast]
    exact ih (fun curr hcurr => h curr (List.mem_cons_of_mem _ hcurr)) next

/-- The pass ends at the first entry of the interface without an address. -/
theorem localEntries_unaddressed {interface : String} {ifAddrs : List IfAddr} (h : ¬ Addressed interface ifAddrs)
    (localAddr : Addr) : localEntries interface ifAddrs localAddr = .error .undefined := by
  induction ifAddrs generalizing localAddr with
  | nil => exact absurd (fun curr hcurr => absurd hcurr List.not_mem_nil) h
  | cons curr rest ih =>
    rw [localEntries]
    by_cases hcurr : curr.name = interface → curr.addr ≠ none
    · obtain ⟨next,hnext,-⟩ := localEntry_addressed hcurr localAddr
      rw [hnext]
      exact ih (fun hrest => h (List.forall_mem_cons.mpr ⟨hcurr,hrest⟩)) next
    · obtain ⟨hname,haddr⟩ : curr.name = interface ∧ curr.addr = none := by
        simpa using hcurr
      rw [localEntry, if_neg (not_not.mpr hname.symm), haddr]
      rfl

theorem findsLast_iff (interface : String) (ifAddrs : List IfAddr) :
    FindsLast interface ifAddrs ↔ Addressed interface ifAddrs := by
  refine ⟨fun h => ?_,fun h => localEntries_addressed h zeroAddr⟩
  by_contra hmissing
  rw [FindsLast, lookupLocalAddr, localEntries_unaddressed hmissing] at h
  cases h

/-- What a caller gets to work with. -/
theorem safe_lookupLocalAddr (post : Addr → Prop) (interface : String) (ifAddrs : Option (List IfAddr)) :
    Safe post (lookupLocalAddr interface ifAddrs) ↔
      ∀ entries, ifAddrs = some entries →
        Addressed interface entries ∧ post (lastAddrs interface entries zeroAddr) := by
  cases ifAddrs with
  | none => simp [lookupLocalAddr]
  | some entries =>
    simp only [lookupLocalAddr, Option.some.injEq, forall_eq']
    by_cases haddressed : Addressed interface entries
    · rw [localEntries_addressed haddressed]
      exact (and_iff_right haddressed).symm
    · rw [localEntries_unaddressed haddressed]
      exact iff_of_false id (fun h => haddressed h.1)

/-- For every two lists: both lookups find the last addresses, and what does not concern a family
does not change its result, exactly when no entry of the interface lacks an address. -/
theorem local_lookup_iff (interface : String) (ifAddrs ifAddrs' : List IfAddr) :
    (FindsLast interface ifAddrs ∧ FindsLast interface ifAddrs' ∧ Insensitive interface ifAddrs ifAddrs') ↔
      Addressed interface ifAddrs ∧ Addressed interface ifAddrs' := by
  rw [findsLast_iff, findsLast_iff]
  constructor
  · rintro ⟨h,h',-⟩
    exact ⟨h,h'⟩
  · rintro ⟨h,h'⟩
    refine ⟨h,h',?_⟩
    intro found found' hfound hfound'
    rw [lookupLocalAddr, localEntries_addressed h] at hfound
    rw [lookupLocalAddr, localEntries_addressed h'] at hfound'
    cases hfound
    cases hfound'
    exact ⟨fun hedit => lastAddr_edited hedit _,fun hedit => lastAddr_edited hedit _,
      fun hedit => lastAddr_edited hedit _⟩

/-- An interface that is up but has no address of its own yet. -/
theorem unaddressed_not_looked_up : ¬ ∀ interface ifAddrs ifAddrs',
    FindsLast interface ifAddrs ∧ FindsLast interface ifAddrs' ∧ Insensitive interface ifAddrs ifAddrs' := by
  intro hall
  obtain ⟨hfinds,-⟩ := hall "eth4" [⟨"eth4", none⟩] []
  cases hfinds

end IbverbPrototype.Address
