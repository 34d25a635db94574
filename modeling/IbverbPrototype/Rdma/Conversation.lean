import IbverbPrototype.Foundations.Delivering
import IbverbPrototype.Rdma.ServerReport

/-! The server at the end of a network. Whatever the network does and however the steps of a
sender, the network and the server fall, its lines are those of the messages that arrived. -/
namespace IbverbPrototype.Rdma
open Foundations.ByteOrder Foundations.CyclicInterval Foundations.EventSystem Foundations.LossyChannel
open Foundations.Delivering
open Roce (msgSize)

/-- A successful completion is brought by the network only. -/
def Event.unbrought : Event → Bool
  | .complete status _ _ => status ≠ ibvWcSuccess
  | .post .. | .poll _ | .handle | .stop => true

/-- A datagram completes a receive; its size is counted with the routing header. -/
def arrivalEvent (data : List Byte) : Event := .complete ibvWcSuccess (40+data.length) data

/-- The server with a record of its steps. -/
structure Listener where
  server : Machine ServerState RecvBody
  heard : List Event

def Listener.take (n : Nat) (region : Region) (l : Listener) (e : Event) : Option Listener :=
  (step (serverProgram region) n l.server e).map (fun server => ⟨server, l.heard ++ [e]⟩)

/-- A datagram goes into the oldest receive; without a receive it can only be lost. -/
def serverReceiver (n : Nat) (region : Region) (memory : Nat → Byte) : Receiver Listener Event (List Byte) where
  origin := ⟨serverStart n memory, []⟩
  step l e := if e.unbrought then l.take n region e else none
  hear l data := l.take n region (arrivalEvent data)

def Receipt.succeeded (r : Receipt) : Bool := r.status = ibvWcSuccess

/-- What message m leaves of itself with the server. -/
def messageReceipt (content : Nat → List Byte) (m : Nat) : Receipt := ⟨ibvWcSuccess, 40+(content m).length, content m⟩

/-- The line for message m when it arrives in the j-th receive. -/
def messageLine (n : Nat) (content : Nat → List Byte) (j m : Nat) : MessageLine :=
  ⟨j % n, ((content m).headD 0).toInt, 40+(content m).length⟩

/-- The lines for the first k messages that arrived. -/
def messageLines (n : Nat) (content : Nat → List Byte) (arrived : List Nat) (k : Nat) : List MessageLine :=
  (arrived.take k).mapIdx (messageLine n content)

variable {σ ε α : Type} {network : Carry → Bool} {S : Sender σ ε α} {accept : α → Option (List Byte)}
variable {I : Nat → σ → Prop} {content : Nat → List Byte} {n : Nat} {region : Region} {memory : Nat → Byte}
variable {d : Delivery σ α Listener}

theorem Listener.take_heard {l l' : Listener} {e : Event} (h : l.take n region e = some l')
    (hrun : run (step (serverProgram region) n) l.heard (serverStart n memory) = some l.server) :
    run (step (serverProgram region) n) l'.heard (serverStart n memory) = some l'.server ∧
      l'.heard = l.heard ++ [e] := by
  obtain ⟨server,hserver,rfl⟩ := Option.map_eq_some_iff.mp h
  refine ⟨?_,rfl⟩
  rw [run_append, hrun, Option.bind_some, run, hserver]
  rfl

/-- What the server heard is a run of its own, and its successful receipts are the messages that
arrived, in their order. -/
theorem listener_heard (hS : S.Keeps I (fun k item => accept item = some (content k)))
    (h : Arises network S accept (serverReceiver n region memory) d) :
    run (step (serverProgram region) n) d.receiver.heard (serverStart n memory) = some d.receiver.server ∧
      (receipts d.receiver.heard).filter Receipt.succeeded =
        d.link.channel.arrived.map (messageReceipt content) := by
  unfold Arises at h
  induction h with
  | start => exact ⟨rfl,rfl⟩
  | @next d d' e hd hd' ih =>
    obtain ⟨hrun,hreceipts⟩ := ih
    cases delivery_steps hd' with
    | sent | quiet => exact ⟨hrun,hreceipts⟩
    | carried w channel hnetwork hw hchannel =>
      refine ⟨hrun,hreceipts.trans ?_⟩
      rw [carry_arrived hw hchannel]
    | delivered i m item data listener hnetwork hm hitem hdata hlistener =>
      obtain ⟨hrun',hheard⟩ := Listener.take_heard hlistener hrun
      have hcontent := (hS.link (delivery_link hd).unrestricted).2 m item hitem
      obtain rfl := Option.some_inj.mp (hdata.symm.trans hcontent)
      refine ⟨hrun',?_⟩
      rw [hheard, receipts_snoc, List.filter_append, hreceipts, List.map_append]
      rfl
    | received e listener hlistener =>
      simp only [serverReceiver] at hlistener
      split at hlistener
      case isFalse => cases hlistener
      case isTrue he =>
        obtain ⟨hrun',hheard⟩ := Listener.take_heard hlistener hrun
        refine ⟨hrun',?_⟩
        rw [hheard, receipts_snoc, List.filter_append, hreceipts]
        cases e with
        | complete status byteLen data =>
          have hstatus : (⟨status, byteLen, data⟩ : Receipt).succeeded = false := by
            simpa [Event.unbrought, Receipt.succeeded] using he
          simp [Event.receipt, hstatus]
        | post | poll | handle | stop => simp [Event.receipt]

/-- A front of a list that passes a test is the same front of what passes it. -/
private theorem take_filter {β : Type} {p : β → Bool} {l : List β} {k : Nat} (h : ∀ x ∈ l.take k, p x = true)
    (hk : k ≤ l.length) : (l.filter p).take k = l.take k := by
  conv_lhs => rw [← List.take_append_drop k l, List.filter_append, List.filter_eq_self.mpr h]
  exact List.take_left' (List.length_take_of_le hk)

/-- Lines told of successes only are those of the messages that arrived first. -/
theorem Told.messages {posted arrived : List Nat} {es : List Event} {k : Nat}
    {printed : List MessageLine} (h : Told (arrivals posted es) k printed)
    (hposted : posted = cyc n 0 posted.length) (hle : (receipts es).length ≤ posted.length)
    (hk : k ≤ (receipts es).length)
    (harrived : (receipts es).filter Receipt.succeeded = arrived.map (messageReceipt content)) :
    k ≤ arrived.length ∧ printed = messageLines n content arrived k := by
  obtain ⟨hprinted,hgood⟩ := h
  have htake : (arrivals posted es).take k = List.zipWith (fun wrId r => r.arrival wrId) (cyc n 0 k)
      ((receipts es).take k) := by
    rw [arrivals, List.take_zipWith, hposted, cyc_take n 0 (hk.trans hle)]
  have hsucceeded : ∀ r ∈ (receipts es).take k, r.succeeded = true := by
    intro r hr
    obtain ⟨i,hi,rfl⟩ := List.getElem_of_mem hr
    have hik : i < k := hi.trans_le (List.length_take_le _ _)
    refine hgood (((receipts es).take k)[i].arrival (i % n)) ?_
    rw [htake]
    refine List.mem_of_getElem? (i := i) ?_
    rw [List.getElem?_zipWith, cyc_getElem? n 0 hik, Nat.zero_add, List.getElem?_eq_getElem hi]
  have hfront := take_filter hsucceeded hk
  rw [harrived, ← List.map_take] at hfront
  have hlen := congrArg List.length hfront
  rw [List.length_map, List.length_take, List.length_take_of_le hk] at hlen
  refine ⟨by omega,?_⟩
  rw [hprinted, htake, ← hfront]
  apply List.ext_getElem?
  intro i
  rw [messageLines, List.getElem?_mapIdx, List.getElem?_map, List.getElem?_zipWith, List.getElem?_map]
  cases hm : (arrived.take k)[i]? with
  | none => cases (cyc n 0 k)[i]? <;> rfl
  | some m =>
    have hik : i < k := (List.getElem?_eq_some_iff.mp hm).1.trans_le (List.length_take_le _ _)
    rw [cyc_getElem? n 0 hik, Nat.zero_add]
    rfl

/-- In every state that arises the lines of the server are those of the messages that arrived, as
many as it has looked at; only a failed receive it stopped at adds a line to them. -/
theorem server_lines (hn : 1 ≤ n) (hS : S.Keeps I (fun k item => accept item = some (content k)))
    (hcontent : ∀ m, content m ≠ []) (h : Arises network S accept (serverReceiver n region memory) d) :
    (d.receiver.server.looked ≤ d.link.channel.arrived.length ∧
      d.receiver.server.state.printed = messageLines n content d.link.channel.arrived d.receiver.server.looked) ∨
    ¬ d.receiver.server.Running ∧ ∃ k line, k ≤ d.link.channel.arrived.length ∧
      d.receiver.server.state.printed = messageLines n content d.link.channel.arrived k ++ [line] := by
  obtain ⟨hrun,hreceipts⟩ := listener_heard hS h
  have hdelivered : Delivered d.receiver.heard := by
    intro r hr hgood
    have hin : r ∈ (receipts d.receiver.heard).filter Receipt.succeeded :=
      List.mem_filter.mpr ⟨hr,decide_eq_true hgood⟩
    rw [hreceipts] at hin
    obtain ⟨m,-,rfl⟩ := List.mem_map.mp hin
    exact hcontent m
  have hmatched := matched_run hrun
  have hpolled : d.receiver.server.polled ≤ (receipts d.receiver.heard).length := by
    have := hmatched.delivered
    omega
  have hreachable := reachable_of_run _ hrun
  have hposted := reachable_posted hn hreachable
  obtain htold | ⟨hstopped,k,a,lines,line,hk,-,-,htold,hprinted⟩ := (followed_run hn hdelivered hrun).told
  · have hlooked := looked_le (running_orderly hn hreachable) hmatched.batch
    exact .inl (htold.messages hposted hmatched.posted (hlooked.trans hpolled) hreceipts)
  · obtain ⟨hle,hlines⟩ := htold.messages hposted hmatched.posted (by omega) hreceipts
    exact .inr ⟨hstopped,k,line,hle,by rw [hprinted, hlines]⟩

end IbverbPrototype.Rdma
