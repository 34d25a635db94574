import IbverbPrototype.Foundations.ByteOrder
import IbverbPrototype.Foundations.EventSystem
import IbverbPrototype.Rdma.WorkRing

/-! The loop the client and the server share: post the ring, poll at most ten
completions, handle each, post the same slice again. Device steps fall between any two
steps of the program. -/
namespace IbverbPrototype.Rdma
open Foundations.ByteOrder Foundations.CyclicInterval Foundations.EventSystem

def ibvWcSuccess : Nat := 0

structure Completion where
  wrId : Nat
  status : Nat
  byteLen : Nat
  deriving DecidableEq

/-- The program stands before its first post, at the loop head, before the i-th polled
completion, before posting again, or at cleanup. -/
inductive Point where
  | firstPost
  | head
  | handle (i : Nat)
  | repost
  | cleanup (failed : Bool)
  deriving DecidableEq

/-- What one program does with a completion, with a flag that tells whether the loop goes
on, and what the device does to its memory when a request completes. -/
structure Program (σ : Type) where
  handle : Completion → σ → σ × Bool
  deliver : Nat → List Byte → σ → σ

/-- The requests posted and not completed and the completions not polled are the
provider's; posted and polled record the whole run. -/
structure Machine (σ β : Type) where
  point : Point
  requests : List (WorkRequest β)
  outstanding : List Nat
  completed : List Completion
  batch : List Completion
  state : σ
  posted : List Nat
  polled : Nat

/-- Completions of one poll at most. -/
def pollLimit : Nat := 10

/-- A post is answered with a result and, unless that is zero, with how many requests were
taken; a poll with its return value; the device completes the oldest request. -/
inductive Event where
  | post (result : Int) (taken : Nat)
  | poll (ne : Int)
  | handle
  | stop
  | complete (status byteLen : Nat) (data : List Byte)

variable {σ β : Type}

def post (n : Nat) (s : Machine σ β) (start count : Nat) (result : Int) (taken : Nat) : Option (Machine σ β) := do
  let call := postRequests s.requests n start count result
  let handed ← call.handed
  let ids := (if result = 0 then handed else handed.take taken).map WorkRequest.wrId
  some { s with
    point := if call.returnValue ≠ 0 then .cleanup true else .head
    requests := call.requests
    outstanding := s.outstanding ++ ids
    batch := []
    posted := s.posted ++ ids }

def poll (s : Machine σ β) (ne : Int) : Option (Machine σ β) :=
  if ne < 0 then some { s with point := .cleanup true }
  else if ne.toNat ≤ pollLimit ∧ ne.toNat ≤ s.completed.length then
    some { s with
      point := .handle 0
      completed := s.completed.drop ne.toNat
      batch := s.completed.take ne.toNat
      polled := s.polled+ne.toNat }
  else none

def handle (program : Program σ) (s : Machine σ β) (i : Nat) : Machine σ β :=
  match s.batch[i]? with
  | some wc => { s with
      point := if (program.handle wc s.state).2 then .handle (i+1) else .cleanup true
      state := (program.handle wc s.state).1 }
  | none => { s with point := if s.batch.length > 0 then .repost else .head }

def complete (program : Program σ) (s : Machine σ β) (status byteLen : Nat) (data : List Byte) :
    Option (Machine σ β) :=
  match s.outstanding with
  | [] => none
  | wrId::rest => some { s with
      outstanding := rest
      completed := s.completed ++ [⟨wrId, status, byteLen⟩]
      state := program.deliver wrId data s.state }

/-- One step of the program or of the device; a step that is not the next one is refused. -/
def step (program : Program σ) (n : Nat) (s : Machine σ β) : Event → Option (Machine σ β)
  | .post result taken =>
    match s.point, s.batch with
    | .firstPost, _ => post n s 0 n result taken
    | .repost, wc::_ => post n s wc.wrId s.batch.length result taken
    | _, _ => none
  | .poll ne => if s.point = .head then poll s ne else none
  | .handle =>
    match s.point with
    | .handle i => some (handle program s i)
    | _ => none
  | .stop => if s.point = .head then some { s with point := .cleanup false } else none
  | .complete status byteLen data => complete program s status byteLen data

/-- Before the first post. -/
def started (n : Nat) (body : Nat → β) (state : σ) : Machine σ β :=
  ⟨.firstPost, initRequests n body, [], [], [], state, [], 0⟩

/-- The moves of a run with any provider. -/
inductive Steps (program : Program σ) (n : Nat) (s : Machine σ β) : Event → Machine σ β → Prop where
  | post (result : Int) (taken start count : Nat) (handed : List (WorkRequest β))
      (hpoint : s.point = .firstPost ∧ start = 0 ∧ count = n ∨
        s.point = .repost ∧ ∃ wc rest, s.batch = wc::rest ∧ start = wc.wrId ∧ count = s.batch.length)
      (hhanded : (postRequests s.requests n start count result).handed = some handed) :
      Steps program n s (.post result taken) { s with
        point := if result ≠ 0 then .cleanup true else .head
        requests := (postRequests s.requests n start count result).requests
        outstanding := s.outstanding ++ (if result = 0 then handed else handed.take taken).map WorkRequest.wrId
        batch := []
        posted := s.posted ++ (if result = 0 then handed else handed.take taken).map WorkRequest.wrId }
  | pollFailed (ne : Int) (hpoint : s.point = .head) (hne : ne < 0) :
      Steps program n s (.poll ne) { s with point := .cleanup true }
  | poll (ne : Int) (hpoint : s.point = .head) (hne : 0 ≤ ne) (hlimit : ne.toNat ≤ pollLimit)
      (hk : ne.toNat ≤ s.completed.length) : Steps program n s (.poll ne) { s with
        point := .handle 0
        completed := s.completed.drop ne.toNat
        batch := s.completed.take ne.toNat
        polled := s.polled+ne.toNat }
  | handle (i : Nat) (wc : Completion) (hpoint : s.point = .handle i) (hwc : s.batch[i]? = some wc) :
      Steps program n s .handle { s with
        point := if (program.handle wc s.state).2 then .handle (i+1) else .cleanup true
        state := (program.handle wc s.state).1 }
  | handled (i : Nat) (hpoint : s.point = .handle i) (hwc : s.batch.length ≤ i) :
      Steps program n s .handle { s with point := if s.batch.length > 0 then .repost else .head }
  | stop (hpoint : s.point = .head) : Steps program n s .stop { s with point := .cleanup false }
  | complete (wrId status byteLen : Nat) (rest : List Nat) (data : List Byte) (hfirst : s.outstanding = wrId::rest) :
      Steps program n s (.complete status byteLen data) { s with
        outstanding := rest
        completed := s.completed ++ [⟨wrId, status, byteLen⟩]
        state := program.deliver wrId data s.state }

private theorem post_steps {n : Nat} {s t : Machine σ β} {start count taken : Nat} {result : Int}
    (h : post n s start count result taken = some t) :
    ∃ handed, (postRequests s.requests n start count result).handed = some handed ∧ t = { s with
      point := if result ≠ 0 then .cleanup true else .head
      requests := (postRequests s.requests n start count result).requests
      outstanding := s.outstanding ++ (if result = 0 then handed else handed.take taken).map WorkRequest.wrId
      batch := []
      posted := s.posted ++ (if result = 0 then handed else handed.take taken).map WorkRequest.wrId } := by
  obtain ⟨handed,hhanded,h⟩ := Option.bind_eq_some_iff.mp h
  refine ⟨handed,hhanded,(Option.some_inj.mp h).symm.trans ?_⟩
  by_cases hresult : result = 0
  · simp [postRequests, hresult]
  · simp [postRequests, hresult]

theorem step_steps {program : Program σ} {n : Nat} {s t : Machine σ β} {e : Event} (h : step program n s e = some t) :
    Steps program n s e t := by
  cases e with
  | post result taken =>
    simp only [step] at h
    split at h
    · rename_i hpoint
      obtain ⟨handed,hhanded,rfl⟩ := post_steps h
      exact .post result taken 0 n handed (.inl ⟨hpoint,rfl,rfl⟩) hhanded
    · rename_i wc rest hpoint hbatch
      obtain ⟨handed,hhanded,rfl⟩ := post_steps h
      exact .post result taken wc.wrId s.batch.length handed (.inr ⟨hpoint,wc,rest,hbatch,rfl,rfl⟩) hhanded
    · cases h
  | poll ne =>
    simp only [step] at h
    split at h
    case isFalse => cases h
    case isTrue hpoint =>
      unfold poll at h
      split at h
      case isTrue hne =>
        obtain rfl := Option.some_inj.mp h
        exact .pollFailed ne hpoint hne
      case isFalse hne =>
        split at h
        case isFalse => cases h
        case isTrue hk =>
          obtain rfl := Option.some_inj.mp h
          exact .poll ne hpoint (Int.not_lt.mp hne) hk.1 hk.2
  | handle =>
    simp only [step] at h
    split at h
    case h_2 => cases h
    case h_1 i hpoint =>
      obtain rfl := Option.some_inj.mp h
      unfold handle
      split
      case h_1 wc hwc => exact .handle i wc hpoint hwc
      case h_2 hwc => exact .handled i hpoint (List.getElem?_eq_none_iff.mp hwc)
  | stop =>
    simp only [step] at h
    split at h
    case isFalse => cases h
    case isTrue hpoint =>
      obtain rfl := Option.some_inj.mp h
      exact .stop hpoint
  | complete status byteLen data =>
    simp only [step, complete] at h
    split at h
    case h_1 => cases h
    case h_2 wrId rest hfirst =>
      obtain rfl := Option.some_inj.mp h
      exact .complete wrId status byteLen rest data hfirst

/-- Posts are accepted, polls do not fail and requests complete successfully. -/
def reliable : Event → Bool
  | .post result _ => result = 0
  | .poll ne => 0 ≤ ne
  | .complete status _ _ => status = ibvWcSuccess
  | .handle | .stop => true

def reliableStep (program : Program σ) (n : Nat) (s : Machine σ β) (e : Event) : Option (Machine σ β) :=
  if reliable e then step program n s e else none

/-- The moves of a run with a reliable provider. -/
inductive Moves (program : Program σ) (n : Nat) (s : Machine σ β) : Machine σ β → Prop where
  | post (start count : Nat) (handed : List (WorkRequest β))
      (hpoint : s.point = .firstPost ∧ start = 0 ∧ count = n ∨
        s.point = .repost ∧ ∃ wc rest, s.batch = wc::rest ∧ start = wc.wrId ∧ count = s.batch.length)
      (hhanded : (postRequests s.requests n start count 0).handed = some handed) :
      Moves program n s { s with
        point := .head
        requests := (postRequests s.requests n start count 0).requests
        outstanding := s.outstanding ++ handed.map WorkRequest.wrId
        batch := []
        posted := s.posted ++ handed.map WorkRequest.wrId }
  | poll (k : Nat) (hpoint : s.point = .head) (hlimit : k ≤ pollLimit) (hk : k ≤ s.completed.length) :
      Moves program n s { s with
        point := .handle 0
        completed := s.completed.drop k
        batch := s.completed.take k
        polled := s.polled+k }
  | handle (i : Nat) (wc : Completion) (hpoint : s.point = .handle i) (hwc : s.batch[i]? = some wc) :
      Moves program n s { s with
        point := if (program.handle wc s.state).2 then .handle (i+1) else .cleanup true
        state := (program.handle wc s.state).1 }
  | handled (i : Nat) (hpoint : s.point = .handle i) (hwc : s.batch.length ≤ i) :
      Moves program n s { s with point := if s.batch.length > 0 then .repost else .head }
  | stop (hpoint : s.point = .head) : Moves program n s { s with point := .cleanup false }
  | complete (wrId byteLen : Nat) (rest : List Nat) (data : List Byte) (hfirst : s.outstanding = wrId::rest) :
      Moves program n s { s with
        outstanding := rest
        completed := s.completed ++ [⟨wrId, ibvWcSuccess, byteLen⟩]
        state := program.deliver wrId data s.state }

theorem reliableStep_moves {program : Program σ} {n : Nat} {s t : Machine σ β} {e : Event}
    (h : reliableStep program n s e = some t) : Moves program n s t := by
  unfold reliableStep at h
  split at h
  case isFalse => cases h
  case isTrue hr =>
    cases step_steps h with
    | post result taken start count handed hpoint hhanded =>
      obtain rfl : result = 0 := by simpa [reliable] using hr
      exact .post start count handed hpoint hhanded
    | pollFailed ne hpoint hne =>
      have hle : 0 ≤ ne := by simpa [reliable] using hr
      omega
    | poll ne hpoint _ hlimit hk => exact .poll ne.toNat hpoint hlimit hk
    | handle i wc hpoint hwc => exact .handle i wc hpoint hwc
    | handled i hpoint hwc => exact .handled i hpoint hwc
    | stop hpoint => exact .stop hpoint
    | complete wrId status byteLen rest data hfirst =>
      obtain rfl : status = ibvWcSuccess := by simpa [reliable] using hr
      exact .complete wrId byteLen rest data hfirst

end IbverbPrototype.Rdma
