import IbverbPrototype.Foundations.SequenceNumbers
import IbverbPrototype.Rdma.BufferOwnership
import IbverbPrototype.Rdma.Conversation

/-! The client and the server over a network of unreliable datagrams: what the server prints of
the messages the client sends, however the network and the two programs interleave. -/
namespace IbverbPrototype.Rdma
open Foundations.ByteOrder Foundations.CyclicInterval Foundations.EventSystem Foundations.LossyChannel
open Foundations.Delivering Foundations.SequenceNumbers
open Roce (msgSize)

/-- The bytes a device reads for a request, entry by entry. -/
def gather (memory : Nat → Byte) (sges : List Sge) : List Byte :=
  sges.flatMap (fun sge => (List.range sge.length).map (fun i => memory (sge.addr+i)))

/-- The client with its device, which has read the bytes of the first requests posted. -/
structure ClientParty where
  machine : Machine ClientState SendBody
  transmitted : Nat

inductive ClientEvent where
  | program (e : Event)
  | transmit

/-- The device reads its requests in the order of their posts and completes none it has not read. -/
def clientStep (n : Nat) (region : Region) (s : ClientParty) : ClientEvent → Option (ClientParty × Option (List Byte))
  | .program e =>
    if e.receipt.isNone ∨ s.machine.polled+s.machine.completed.length < s.transmitted then
      (reliableStep (clientProgram region) n s.machine e).map (fun machine => ({ s with machine := machine }, none))
    else none
  | .transmit => do
    let id ← s.machine.posted[s.transmitted]?
    let request ← s.machine.requests[id]?
    let sges := entries (sendScatterGather n region) request.body.sgList request.body.numSge
    some ({ s with transmitted := s.transmitted+1 }, some (gather s.machine.state.memory sges))

def clientSender (n : Nat) (region : Region) (target : SendTarget) (memory : Nat → Byte) :
    Sender ClientParty ClientEvent (List Byte) :=
  ⟨⟨clientStart n region target memory, 0⟩, clientStep n region⟩

/-- Message m fills its buffer with the low byte of its number. -/
def messageData (m : Nat) : List Byte := List.replicate msgSize (BitVec.ofNat 8 m)

/-- What holds of the client when k messages have left it. -/
structure ClientKept (n : Nat) (region : Region) (target : SendTarget) (memory : Nat → Byte) (k : Nat)
    (s : ClientParty) : Prop where
  transmitted : s.transmitted = k
  machine : Reachable (reliableStep (clientProgram region) n) (clientStart n region target memory) s.machine
  completed : s.machine.polled+s.machine.completed.length ≤ k
  posted : k ≤ s.machine.posted.length

variable {n : Nat} {region : Region} {target : SendTarget} {memory : Nat → Byte}

/-- Only a completion adds to what is polled or waits to be, and nothing takes posts back. -/
theorem step_counts {σ β : Type} {program : Program σ} {s t : Machine σ β} {e : Event}
    (h : step program n s e = some t) :
    t.polled+t.completed.length = s.polled+s.completed.length+e.receipt.toList.length ∧
      s.posted.length ≤ t.posted.length := by
  cases step_steps h with
  | post result taken start count handed hpoint hhanded =>
    exact ⟨rfl,List.length_append ▸ Nat.le_add_right _ _⟩
  | poll ne hpoint hne hlimit hk =>
    refine ⟨?_,le_rfl⟩
    change s.polled+ne.toNat+(s.completed.drop ne.toNat).length = s.polled+s.completed.length+0
    rw [List.length_drop]
    omega
  | complete wrId status byteLen rest data hfirst =>
    refine ⟨?_,le_rfl⟩
    change s.polled+(s.completed ++ [_]).length = s.polled+s.completed.length+1
    rw [List.length_append, List.length_singleton]
    omega
  | pollFailed | handle | handled | stop => exact ⟨rfl,le_rfl⟩

/-- What the device reads for a buffer that holds a number. -/
theorem gather_buffer {m i : Nat} {memory : Nat → Byte} (h : Holds region memory i m) :
    gather memory [⟨dataBuffer region i, msgSize, region.lkey⟩] = messageData m := by
  rw [gather, List.flatMap_singleton, messageData, List.eq_replicate_iff]
  refine ⟨by simp,?_⟩
  intro b hb
  obtain ⟨j,hj,rfl⟩ := List.mem_map.mp hb
  have hj := List.mem_range.mp hj
  exact h _ ⟨Nat.le_add_right _ _,Nat.add_lt_add_left hj _⟩

/-- A turn has refilled no more buffers than it polled. -/
theorem Turn.handled_le {n q : Nat} {body : Nat → SendBody} {s : Machine ClientState SendBody} (h : Turn n body s q) :
    handledCount s.point s.batch.length ≤ s.batch.length := by
  have hfit := h.point
  cases hp : s.point with
  | handle i =>
    rw [hp] at hfit
    exact hfit
  | repost => exact le_rfl
  | firstPost | head | cleanup => exact Nat.zero_le _

/-- Buffer k mod n holds the number of the k-th request from its post to the poll of its completion. -/
theorem buffer_held {k : Nat} {s : Machine ClientState SendBody} (hn : 1 ≤ n)
    (hs : Reachable (reliableStep (clientProgram region) n) (clientStart n region target memory) s)
    (hpolled : s.polled ≤ k) (hk : k < s.posted.length) : Holds region s.state.memory (k % n) k := by
  obtain rfl | ⟨q,hq,hf⟩ := reachable_filled hn hs
  · exact absurd hk (Nat.not_lt_zero k)
  · have hbase := hq.polled
    have hhandled := hq.handled_le
    rw [hq.posted, cyc_length] at hk
    exact hf.held k (by omega) (by omega)

/-- The k-th request posted is read with k in every byte, if it is read before its completion
is polled. -/
theorem transmit_reads {k id : Nat} {s : Machine ClientState SendBody} {request : WorkRequest SendBody} (hn : 1 ≤ n)
    (hs : Reachable (reliableStep (clientProgram region) n) (clientStart n region target memory) s)
    (hpolled : s.polled ≤ k) (hid : s.posted[k]? = some id) (hrequest : s.requests[id]? = some request) :
    gather s.state.memory (entries (sendScatterGather n region) request.body.sgList request.body.numSge) =
      messageData k := by
  have hk : k < s.posted.length := (List.getElem?_eq_some_iff.mp hid).1
  have hheld := buffer_held hn hs hpolled hk
  obtain rfl | ⟨q,hq,-⟩ := reachable_filled hn hs
  · exact absurd hk (Nat.not_lt_zero k)
  · have hplace : k % n < n := Nat.mod_lt k hn
    rw [hq.posted, cyc_length] at hk
    rw [hq.posted, cyc_getElem? n 0 hk, Nat.zero_add] at hid
    obtain rfl := Option.some_inj.mp hid
    rw [hq.requests, initRequests_getElem? _ hplace] at hrequest
    obtain rfl := Option.some_inj.mp hrequest
    rw [sendScatterGather_entries region target hplace]
    exact gather_buffer hheld

/-- The k-th message the client's device puts on the network is message k. -/
theorem client_keeps (hn : 1 ≤ n) : (clientSender n region target memory).Keeps (ClientKept n region target memory)
    (fun k data => data = messageData k) where
  origin := ⟨rfl,.start,le_rfl,le_rfl⟩
  step := by
    intro k s e t out hs hstep
    cases e with
    | program e =>
      simp only [clientSender, clientStep] at hstep
      split at hstep
      case isFalse => cases hstep
      case isTrue hread =>
        obtain ⟨machine,hmachine,hnext⟩ := Option.map_eq_some_iff.mp hstep
        obtain ⟨rfl,rfl⟩ := Prod.mk.inj hnext
        obtain ⟨hcompleted,hposted⟩ := step_counts (restrict_eq_some.mp hmachine).2
        have hbefore := hs.completed
        have htransmitted := hs.transmitted
        refine ⟨⟨htransmitted,hs.machine.next hmachine,?_,hs.posted.trans hposted⟩,by rintro _ ⟨⟩⟩
        change machine.polled+machine.completed.length ≤ k
        obtain hnone | hless := hread
        · rw [Option.isNone_iff_eq_none.mp hnone] at hcompleted
          exact hcompleted.le.trans hbefore
        · have hone : e.receipt.toList.length ≤ 1 := by cases e.receipt <;> simp
          omega
    | transmit =>
      simp only [clientSender, clientStep, Option.bind_eq_bind, Option.bind_eq_some_iff] at hstep
      obtain ⟨id,hid,request,hrequest,hnext⟩ := hstep
      obtain ⟨rfl,rfl⟩ := Prod.mk.inj (Option.some_inj.mp hnext)
      rw [hs.transmitted] at hid
      have hk : k < s.machine.posted.length := (List.getElem?_eq_some_iff.mp hid).1
      refine ⟨⟨congrArg (·+1) hs.transmitted,hs.machine,hs.completed.trans (Nat.le_succ k),hk⟩,?_⟩
      rintro _ ⟨⟩
      exact transmit_reads hn hs.machine ((Nat.le_add_right _ _).trans hs.completed) hid hrequest

/-- What a device takes out of a datagram of the client is its message. -/
theorem client_messages (hn : 1 ≤ n) :
    (clientSender n region target memory).Keeps (ClientKept n region target memory)
      (fun k data => some data = some (messageData k)) :=
  (client_keeps hn).mono (fun _ _ => congrArg some)

/-- The states of a client with n buffers and a server with n' over a kind of network. -/
def Converses (network : Carry → Bool) (n n' : Nat) (region region' : Region) (target : SendTarget)
    (memory memory' : Nat → Byte) (d : Delivery ClientParty (List Byte) Listener) : Prop :=
  Arises network (clientSender n region target memory) some (serverReceiver n' region' memory') d

/-- The line for message m in the j-th receive: its number is read as a signed char. -/
def numberLine (n j m : Nat) : MessageLine := ⟨j % n, (BitVec.ofNat 8 m).toInt, 40+msgSize⟩

theorem messageLine_messageData (n : Nat) : messageLine n messageData = numberLine n := by
  funext j m
  have hfirst : (messageData m).headD 0 = BitVec.ofNat 8 m := rfl
  have hlength : (messageData m).length = msgSize := List.length_replicate
  rw [messageLine, numberLine, hfirst, hlength]

/-- The lines of a server that has looked at some of the messages that arrived, or that has
stopped at a failed receive and printed a line for it. -/
def LinesTell (n' : Nat) (arrived : List Nat) (server : Machine ServerState RecvBody) : Prop :=
  (server.looked ≤ arrived.length ∧
      server.state.printed = (arrived.take server.looked).mapIdx (numberLine n')) ∨
    ¬ server.Running ∧ ∃ k line, k ≤ arrived.length ∧
      server.state.printed = (arrived.take k).mapIdx (numberLine n') ++ [line]

variable {network : Carry → Bool} {n' : Nat} {region' : Region} {memory' : Nat → Byte}
variable {d : Delivery ClientParty (List Byte) Listener}

/-- What the server heard of the client: its successful receipts are the messages that arrived. -/
theorem server_heard (hn : 1 ≤ n) (h : Converses network n n' region region' target memory memory' d) :
    run (step (serverProgram region') n') d.receiver.heard (serverStart n' memory') = some d.receiver.server ∧
      (receipts d.receiver.heard).filter Receipt.succeeded =
        d.link.channel.arrived.map (messageReceipt messageData) :=
  listener_heard (client_messages hn) h

/-- Whatever the network does. -/
theorem lines_tell (hn : 1 ≤ n) (hn' : 1 ≤ n') (h : Converses network n n' region region' target memory memory' d) :
    LinesTell n' d.link.channel.arrived d.receiver.server := by
  have hlines := server_lines hn' (client_messages hn) (fun _ => List.cons_ne_nil _ _) h
  simp only [messageLines, messageLine_messageData] at hlines
  exact hlines

/-- The messages put on the network are the first the client posted, each is at one place, and
the lines of the server are those of the messages that arrived, in the order they arrived. -/
structure Conveyed (n' : Nat) (d : Delivery ClientParty (List Byte) Listener) : Prop where
  sent : ∀ m data, d.link.channel.sent[m]? = some data → data = messageData m
  completed : d.link.sender.machine.polled ≤ d.link.channel.sent.length
  posted : d.link.channel.sent.length ≤ d.link.sender.machine.posted.length
  once : d.link.channel.numbers.Perm (List.range d.link.channel.sent.length)
  printed : LinesTell n' d.link.channel.arrived d.receiver.server

/-- The numbers a reader of the lines takes the messages to have. -/
def readNumbers (printed : List MessageLine) : List Nat :=
  readBack 256 0 (printed.map (fun line => (line.index % 256).toNat))

theorem numberLine_residue (n j m : Nat) : ((numberLine n j m).index % 256).toNat = m % 256 := by
  have hmod : (BitVec.ofNat 8 m).toInt % 256 = ((m % 256 : Nat) : Int) := by
    rw [BitVec.toInt_eq_toNat_bmod, BitVec.toNat_ofNat]
    change ((m % 256 : Nat) : Int).bmod 256 % (256 : Nat) = _
    rw [Int.bmod_emod, Int.natCast_mod, Int.emod_emod]
  rw [numberLine, hmod, Int.toNat_natCast]

theorem readNumbers_lines (n : Nat) (heard : List Nat) :
    readNumbers (heard.mapIdx (numberLine n)) = readBack 256 0 (heard.map (· % 256)) := by
  rw [readNumbers]
  congr 1
  apply List.ext_getElem?
  intro i
  rw [List.getElem?_map, List.getElem?_mapIdx, List.getElem?_map]
  cases heard[i]? with
  | none => rfl
  | some m => exact congrArg some (numberLine_residue n i m)

/-- The messages whose lines are printed. -/
def shown {σ α : Type} (d : Delivery σ α Listener) : List Nat :=
  d.link.channel.arrived.take d.receiver.server.looked

/-- What the lines tell of messages that arrived in order: their numbers and the losses among
them, unless 256 are lost in a row, and the whole sequence when nothing is lost. -/
structure Readable (n' : Nat) (d : Delivery ClientParty (List Byte) Listener) : Prop where
  numbers : readNumbers d.receiver.server.state.printed = shown d ↔ GapsUnder 256 (shown d)
  losses : GapsUnder 256 (shown d) → ∀ k ∈ readNumbers d.receiver.server.state.printed, ∀ m < k,
    (m ∈ d.link.channel.lost ↔ m ∉ readNumbers d.receiver.server.state.printed)
  all : d.link.channel.lost = [] →
    d.receiver.server.state.printed = (List.range d.receiver.server.looked).map (fun j => numberLine n' j j)

end IbverbPrototype.Rdma
