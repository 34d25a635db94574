import IbverbPrototype.Rdma.ClientServer
import IbverbPrototype.Rdma.RawClient

/-! The server's buffers: what a datagram brought stays whole in the buffer of its receive
until the receive is posted again. -/
namespace IbverbPrototype.Rdma
open Foundations.ByteOrder Foundations.CyclicInterval Foundations.EventSystem Foundations.LossyChannel
open Foundations.Delivering Foundations.NoisyDelivery Roce
open Address (Addr)

/-- As much of a datagram as fits stands at the start of buffer i. -/
def Stores (region : Region) (memory : Nat → Byte) (i : Nat) (data : List Byte) : Prop :=
  ∀ k b, (data.take msgSize)[k]? = some b → memory (dataBuffer region i+k) = b

theorem writeBytes_stores (region : Region) (memory : Nat → Byte) (i : Nat) (data : List Byte) :
    Stores region (writeBytes memory (dataBuffer region i) (data.take msgSize)) i data := by
  intro k b hb
  rw [writeBytes, if_pos (Nat.le_add_right _ k), Nat.add_sub_cancel_left, List.getD_eq_getElem?_getD, hb,
    Option.getD_some]

/-- A write into one buffer leaves what another stores. -/
theorem Stores.other {region : Region} {memory : Nat → Byte} {i j : Nat} {data : List Byte}
    (h : Stores region memory j data) (hij : i ≠ j) (data' : List Byte) :
    Stores region (writeBytes memory (dataBuffer region i) (data'.take msgSize)) j data := by
  intro k b hb
  have hmsg : msgSize = 8940 := rfl
  have hk : k < msgSize := (List.getElem?_eq_some_iff.mp hb).1.trans_le (List.length_take_le _ _)
  have hlen : (data'.take msgSize).length ≤ msgSize := List.length_take_le _ _
  have hsame : writeBytes memory (dataBuffer region i) (data'.take msgSize) (dataBuffer region j+k) =
      memory (dataBuffer region j+k) := by
    simp only [writeBytes, ite_eq_right_iff]
    intro hle
    rw [List.getD_eq_getElem?_getD, List.getElem?_eq_none, Option.getD_none]
    simp only [dataBuffer, hmsg] at hle hk hlen ⊢
    omega
  rw [hsame]
  exact h k b hb

/-- A message fills its buffer. -/
theorem stores_messageData {region : Region} {memory : Nat → Byte} {i m : Nat} :
    Stores region memory i (messageData m) ↔ Holds region memory i m := by
  have htake : (messageData m).take msgSize = messageData m := List.take_of_length_le List.length_replicate.le
  unfold Stores
  rw [htake]
  constructor
  · intro h a ha
    obtain ⟨k,rfl⟩ := Nat.exists_eq_add_of_le ha.1
    exact h k _ (List.getElem?_replicate_of_lt (Nat.lt_of_add_lt_add_left ha.2))
  · intro h k b hb
    obtain ⟨hk,hget⟩ := List.getElem?_eq_some_iff.mp hb
    obtain rfl : BitVec.ofNat 8 m = b := (List.getElem_replicate hk).symm.trans hget
    exact h _ ⟨Nat.le_add_right _ _,Nat.add_lt_add_left (hk.trans_eq List.length_replicate) _⟩

variable {n : Nat} {region : Region} {memory : Nat → Byte} {es : List Event} {s : Machine ServerState RecvBody}

/-- A delivery goes into the next buffer of the cycle. -/
theorem Matched.next_place {wrId : Nat} {rest : List Nat} (hm : Matched es s)
    (hposted : s.posted = cyc n 0 s.posted.length) (hfirst : s.outstanding = wrId::rest) :
    wrId = (receipts es).length % n := by
  have hplace : s.posted[(receipts es).length]? = some wrId := by
    rw [← Nat.add_zero (receipts es).length, ← List.getElem?_drop, ← hm.outstanding, hfirst]
    rfl
  have hlt : (receipts es).length < s.posted.length := (List.getElem?_eq_some_iff.mp hplace).1
  rw [hposted, cyc_getElem? n 0 hlt, Nat.zero_add] at hplace
  exact (Option.some_inj.mp hplace).symm

/-- Each buffer stores the datagram delivered into it last. -/
def Stored (n : Nat) (region : Region) (es : List Event) (s : Machine ServerState RecvBody) : Prop :=
  ∀ j r, (receipts es)[j]? = some r → (receipts es).length ≤ j+n → Stores region s.state.memory (j % n) r.data

theorem Stored.quiet {e : Event} {t : Machine ServerState RecvBody} (h : Stored n region es s) (he : e.receipt = none)
    (hmemory : t.state.memory = s.state.memory) : Stored n region (es ++ [e]) t := by
  rw [Stored, receipts_snoc, he, Option.toList_none, List.append_nil, hmemory]
  exact h

theorem Stored.complete {status byteLen : Nat} {data : List Byte} {t : Machine ServerState RecvBody}
    (h : Stored n region es s) (hmemory : t.state.memory =
      writeBytes s.state.memory (dataBuffer region ((receipts es).length % n)) (data.take msgSize)) :
    Stored n region (es ++ [.complete status byteLen data]) t := by
  intro j r hr hlast
  rw [receipts_snoc, Event.receipt, Option.toList_some] at hr hlast
  rw [List.length_append, List.length_singleton] at hlast
  rw [hmemory]
  rcases Nat.lt_or_ge j (receipts es).length with hj | hj
  · rw [List.getElem?_append_left hj] at hr
    exact (h j r hr (by omega)).other (mod_ne_of_window hj (by omega)) data
  · have hend := (List.getElem?_eq_some_iff.mp hr).1
    rw [List.length_append, List.length_singleton] at hend
    obtain rfl : j = (receipts es).length := by omega
    rw [List.getElem?_concat_length] at hr
    obtain rfl := Option.some_inj.mp hr
    exact writeBytes_stores region s.state.memory _ data

theorem stored_run (hn : 1 ≤ n) (h : run (step (serverProgram region) n) es (serverStart n memory) = some s) :
    Stored n region es s := by
  refine run_invariant (I := Stored n region) ?_ ?_ h
  · rintro j r ⟨⟩
  · intro es s e t hrun hstored ht
    cases step_steps ht with
    | complete wrId status byteLen rest data hfirst =>
      have hposted := reachable_posted hn (reachable_of_run _ hrun)
      obtain rfl := (matched_run hrun).next_place hposted hfirst
      exact hstored.complete rfl
    | handle i wc hpoint hwc =>
      refine hstored.quiet rfl ?_
      simp only [serverProgram_handle]
    | post | pollFailed | poll | handled | stop => exact hstored.quiet rfl rfl

theorem first_unposted {σ β : Type} {program : Program σ} {body : Nat → β} {state : σ} {s : Machine σ β}
    (hn : 1 ≤ n) (h : Reachable (step program n) (started n body state) s) (hfirst : s.point = .firstPost) :
    s.posted = [] := by
  obtain hview | ⟨q,hq⟩ := running_turn hn h (running_at hfirst (by rintro _ ⟨⟩))
  · exact congrArg Machine.posted hview
  · have hfit := hq.point
    rw [show (s.view healed).point = .firstPost from hfirst] at hfit
    exact hfit.elim

/-- What is posted and not polled, or polled and not posted again, fits the ring. -/
theorem posted_window {σ β : Type} {program : Program σ} {body : Nat → β} {state : σ} {s : Machine σ β}
    (hn : 1 ≤ n) (h : Reachable (step program n) (started n body state) s) :
    s.posted.length+s.batch.length ≤ s.polled+n := by
  induction h with
  | start => exact Nat.zero_le _
  | @next s t e hs ht ih =>
    cases step_steps ht with
    | post result taken start count handed hpoint hhanded =>
      obtain ⟨k,hk,hids⟩ := posting_ids hn hs hpoint hhanded taken
      have hroom : s.posted.length+count ≤ s.polled+n := by
        obtain ⟨hfirst,-,rfl⟩ | ⟨hrepost,-,-,-,-,rfl⟩ := hpoint
        · rw [first_unposted hn hs hfirst, List.length_nil]
          omega
        · exact ih
      dsimp only
      rw [hids, List.length_append, cyc_length, List.length_nil]
      omega
    | poll ne hpoint hne hlimit hk =>
      have htake : (s.completed.take ne.toNat).length = ne.toNat := List.length_take_of_le hk
      dsimp only
      omega
    | pollFailed | handle | handled | stop | complete => exact ih

/-- In what passes a test an element has as many before it as pass the test before it in the list. -/
theorem filter_getElem? {α : Type} {p : α → Bool} {l : List α} {j : Nat} {x : α} (hx : l[j]? = some x)
    (hp : p x = true) : (l.filter p)[(l.take j).countP p]? = some x := by
  obtain ⟨hj,rfl⟩ := List.getElem?_eq_some_iff.mp hx
  have hsplit : l.filter p = (l.take j).filter p ++ l[j]::(l.drop (j+1)).filter p := by
    rw [← List.filter_cons_of_pos hp, ← List.drop_eq_getElem_cons hj, ← List.filter_append, List.take_append_drop]
  rw [hsplit, List.countP_eq_length_filter, List.getElem?_append_right le_rfl, Nat.sub_self]
  rfl

/-- Of the receives that have completed and are not posted again each successful one stores the
message that arrived in it. -/
def MessagesStored (n : Nat) (region : Region) (content : Nat → List Byte) (arrived : List Nat) (l : Listener) :
    Prop :=
  ∀ j r, (receipts l.heard)[j]? = some r → r.succeeded = true → l.server.polled ≤ j+l.server.batch.length →
    ∃ m, arrived[((receipts l.heard).take j).countP Receipt.succeeded]? = some m ∧
      Stores region l.server.state.memory (j % n) (content m)

theorem messages_stored {content : Nat → List Byte} {arrived : List Nat} {l : Listener} (hn : 1 ≤ n)
    (hrun : run (step (serverProgram region) n) l.heard (serverStart n memory) = some l.server)
    (hreceipts : (receipts l.heard).filter Receipt.succeeded = arrived.map (messageReceipt content)) :
    MessagesStored n region content arrived l := by
  intro j r hr hgood hunposted
  have hposted := (matched_run hrun).posted
  have hwindow := posted_window hn (reachable_of_run _ hrun)
  have hstores := stored_run hn hrun j r hr (by omega)
  have harrived := filter_getElem? hr hgood
  rw [hreceipts, List.getElem?_map] at harrived
  obtain ⟨m,hm,rfl⟩ := Option.map_eq_some_iff.mp harrived
  exact ⟨m,hm,hstores⟩

/-- A message fills a buffer of the client from its post to the poll of its completion, and a buffer
of the server from its arrival until the receive it arrived in is posted again. -/
structure MessagesHeld (n n' : Nat) (region region' : Region) (d : Delivery ClientParty (List Byte) Listener) :
    Prop where
  sending : ∀ m, d.link.sender.machine.polled ≤ m → m < d.link.sender.machine.posted.length →
    Holds region d.link.sender.machine.state.memory (m % n) m
  received : ∀ j r, (receipts d.receiver.heard)[j]? = some r → r.succeeded = true →
    d.receiver.server.polled ≤ j+d.receiver.server.batch.length →
    ∃ m, d.link.channel.arrived[((receipts d.receiver.heard).take j).countP Receipt.succeeded]? = some m ∧
      Holds region' d.receiver.server.state.memory (j % n') m

/-- The messages of the raw sender are held so too, as far as its counter counts them. -/
theorem raw_messages_stored {src dest : Addr} {qp : BitVec 32} {cells : Vector Byte 4} {q : QueuePair}
    {d : Noisy RawHost (List Byte) Listener} (hn : 1 ≤ n)
    (hq : q.mac = dest.mac ∧ q.gid = dest.ipv6 ∧ q.number = qp.toNat % 2^24)
    (h : ArisesNoisy Burst (hostSender src dest qp cells) (admits q) (serverReceiver n region memory) d)
    (hsent : d.sent.length ≤ 2^31) : MessagesStored n region numberedPayload d.arrived d.receiver := by
  obtain ⟨hrun,-,hreceipts⟩ := raw_heard hq h
  exact messages_stored hn hrun (hreceipts hsent)

end IbverbPrototype.Rdma
