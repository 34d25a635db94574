import IbverbPrototype.Foundations.CyclicInterval

/-! The ring of work requests and the posting of a slice of it: the ring is cut
behind the slice for the call and joined again afterwards. -/
namespace IbverbPrototype.Rdma
open Foundations.CyclicInterval

/-- A request, its link being the index of the next one. -/
structure WorkRequest (β : Type) where
  wrId : Nat
  next : Option Nat
  body : β
  deriving DecidableEq

variable {β : Type}

/-- The requests as the set-up loops number and link them. -/
def initRequests (completionQueueSize : Nat) (body : Nat → β) : List (WorkRequest β) :=
  (List.range completionQueueSize).map (fun i =>
    ⟨i, some (if i = completionQueueSize-1 then 0 else i+1), body i⟩)

def setNext (requests : List (WorkRequest β)) (i : Nat) (next : Option Nat) : List (WorkRequest β) :=
  requests.modify i (fun request => { request with next := next })

/-- The requests met from a link on; none is a link out of the array or a walk of more
steps than fuel. -/
def chain (requests : List (WorkRequest β)) : Nat → Option Nat → Option (List (WorkRequest β))
  | _, none => some []
  | 0, some _ => none
  | fuel+1, some i => do
    let request ← requests[i]?
    let rest ← chain requests fuel request.next
    some (request::rest)

/-- The ring after a call, the chain handed to the provider, and the value returned. -/
structure Posted (β : Type) where
  requests : List (WorkRequest β)
  handed : Option (List (WorkRequest β))
  returnValue : Int

/-- Posting count requests from start on, for the result the provider answers with. -/
def postRequests (requests : List (WorkRequest β)) (queueSize start count : Nat) (result : Int) : Posted β :=
  let lastIdx := (start+count-1) % queueSize
  let old := requests[lastIdx]?.bind WorkRequest.next
  let cut := setNext requests lastIdx none
  { requests := setNext cut lastIdx old
    handed := chain cut requests.length (some start)
    returnValue := if result ≠ 0 then -1 else 0 }

@[simp] theorem initRequests_length (n : Nat) (body : Nat → β) : (initRequests n body).length = n := by
  simp [initRequests]

/-- Each request is linked to its successor on the cycle. -/
theorem initRequests_getElem? {n i : Nat} (body : Nat → β) (hi : i < n) :
    (initRequests n body)[i]? = some ⟨i, some ((i+1) % n), body i⟩ := by
  have hlink : (if i = n-1 then 0 else i+1) = (i+1) % n := by
    split
    · have hwrap : i+1 = n := by omega
      rw [hwrap, Nat.mod_self]
    · rw [Nat.mod_eq_of_lt (by omega)]
  simp [initRequests, hi, hlink]

theorem setNext_getElem? (requests : List (WorkRequest β)) (i j : Nat) (next : Option Nat) :
    (setNext requests i next)[j]? =
      requests[j]?.map (fun request => if i = j then { request with next := next } else request) := by
  rw [setNext, List.getElem?_modify]
  split <;> simp_all

/-- Writing the old link back undoes the cut. -/
theorem setNext_restore (requests : List (WorkRequest β)) (i : Nat) :
    setNext (setNext requests i none) i (requests[i]?.bind WorkRequest.next) = requests := by
  apply List.ext_getElem?
  intro j
  rw [setNext_getElem?, setNext_getElem?]
  cases hr : requests[j]? with
  | none => rfl
  | some request =>
    by_cases hij : i = j
    · subst hij
      simp [hr]
    · simp [hij]

/-- A request of the ring as the provider sees it, cut behind the last one. -/
def handedRequest (n lastIdx : Nat) (body : Nat → β) (i : Nat) : WorkRequest β :=
  ⟨i, if lastIdx = i then none else some ((i+1) % n), body i⟩

private theorem chain_cut {n lastIdx : Nat} (body : Nat → β) (hn : 0 < n) (k : Nat) :
    ∀ a fuel, k < n → k < fuel → (a+k) % n = lastIdx →
      chain (setNext (initRequests n body) lastIdx none) fuel (some (a % n)) =
        some ((cyc n a (k+1)).map (handedRequest n lastIdx body)) := by
  induction k with
  | zero =>
    intro a fuel hk hf hlast
    obtain ⟨fuel,rfl⟩ : ∃ f, fuel = f+1 := ⟨fuel-1,by omega⟩
    have hlast : lastIdx = a % n := hlast.symm
    rw [chain, setNext_getElem?, initRequests_getElem? body (Nat.mod_lt a hn), hlast]
    simp [chain, cyc, handedRequest]
  | succ k ih =>
    intro a fuel hk hf hlast
    obtain ⟨fuel,rfl⟩ : ∃ f, fuel = f+1 := ⟨fuel-1,by omega⟩
    have hne : lastIdx ≠ a % n := by
      intro heq
      have hmod : k+1 ≡ 0 [MOD n] := Nat.ModEq.add_left_cancel' a (hlast.trans heq)
      exact absurd (Nat.ModEq.eq_of_lt_of_lt hmod hk hn) (by omega)
    have hrest := ih (a+1) fuel (by omega) (by omega) (by rw [← hlast]; congr 1; omega)
    have hlink : (a % n+1) % n = (a+1) % n := by simp [Nat.add_mod]
    rw [chain, setNext_getElem?, initRequests_getElem? body (Nat.mod_lt a hn), cyc_succ]
    simp only [Option.map_some, if_neg hne, Option.bind_eq_bind, Option.bind_some, hlink, hrest, List.map_cons,
      handedRequest]

/-- For a slice of at most the whole ring the provider is handed exactly its requests, in
ring order, and the call leaves the ring as it was. -/
theorem postRequests_slice {n start count : Nat} (body : Nat → β) (result : Int) (hs : start < n) (hc : 1 ≤ count)
    (hcn : count ≤ n) :
    (postRequests (initRequests n body) n start count result).requests = initRequests n body ∧
    (postRequests (initRequests n body) n start count result).handed =
      some ((cyc n start count).map (handedRequest n ((start+count-1) % n) body)) := by
  refine ⟨setNext_restore _ _,?_⟩
  have hn : 0 < n := Nat.zero_lt_of_lt hs
  have hlast : (start+(count-1)) % n = (start+count-1) % n := by rw [Nat.add_sub_assoc hc]
  have hchain := chain_cut body hn (count-1) start n (by omega) (by omega) hlast
  rw [Nat.mod_eq_of_lt hs, Nat.sub_add_cancel hc] at hchain
  simp only [postRequests, initRequests_length]
  exact hchain

end IbverbPrototype.Rdma
