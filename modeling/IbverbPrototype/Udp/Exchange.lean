import IbverbPrototype.Foundations.Delivering
import IbverbPrototype.Foundations.SequenceNumbers
import IbverbPrototype.Udp.NumberedSenders
import Mathlib.Data.List.TakeWhile

/-! The datagram server behind a network that may lose, double and reorder, with either of the
two senders at its other end. -/
namespace IbverbPrototype.Udp
open Foundations.ByteOrder Foundations.FormattedText Foundations.EventSystem Foundations.LossyChannel
open Foundations.Delivering Foundations.SequenceNumbers Address

/-- The datagrams at the server's socket, and the server. -/
structure ServerSide where
  waiting : List Received
  server : Server

/-- A datagram waits at the socket until the server, one round for each, takes the oldest. -/
def udpReceiver : Receiver ServerSide Unit Received where
  origin := ⟨[], .start⟩
  step s _ :=
    match s.waiting with
    | [] => none
    | r::rest => (serverRound s.server r).toOption.map (fun server => ⟨rest, server⟩)
  hear s r := some { s with waiting := s.waiting ++ [r] }

/-- The line for message k of the sender at an address. -/
def numberedLine (addr : BitVec 32) (k : Nat) : Line := ⟨some (dottedText addr), numberedText k⟩

theorem numberedText_ascii (k : Nat) :
    ∀ c ∈ "Message: ".toList ++ decimal (BitVec.ofNat 32 k).toInt, 0 < c.toNat ∧ c.toNat < 128 := by
  have hword : ∀ c ∈ "Message: ".toList, 0 < c.toNat ∧ c.toNat < 128 := by simp
  intro c hc
  rcases List.mem_append.mp hc with hc | hc
  · exact hword c hc
  · exact decimal_ascii _ c hc

theorem numberedMessage_text (addr : BitVec 32) (k : Nat) : (numberedMessage addr k).message = numberedText k := by
  refine List.takeWhile_eq_self_iff.mpr ?_
  intro b hb
  exact decide_eq_true (ascii_ne_zero (numberedText_ascii k) b hb)

/-- A round prints the line of the message it takes. -/
theorem serverRound_numbered (s : Server) (addr : BitVec 32) (k : Nat) :
    ∃ t, serverRound s (numberedMessage addr k) = .ok t ∧ t.printed = s.printed ++ [numberedLine addr k] := by
  have hroom : (numberedText k).length < udpBufferSize := (numberedText_length k).trans_lt (by decide)
  obtain ⟨udpBuffer,hround⟩ := serverRound_prints s (r := numberedMessage addr k) hroom
  exact ⟨_,hround,by rw [numberedMessage_text]; rfl⟩

theorem serverLoop_snoc (recvs : List Recv) (s : Server) (r : Received) :
    serverLoop (recvs ++ [.received r]) s = (serverLoop recvs s).bind (fun t => serverRound t r) := by
  induction recvs generalizing s with
  | nil =>
    simp only [List.nil_append, serverLoop, bind, Except.bind]
    cases serverRound s r <;> rfl
  | cons recv recvs ih =>
    cases recv with
    | failed => rfl
    | received r' =>
      simp only [List.cons_append, serverLoop, bind, Except.bind]
      cases serverRound s r' with
      | error e => rfl
      | ok t => exact ih t

/-- The server is where server_loop is after as many of the messages that arrived as it has
printed, and the others wait. -/
structure Served (addr : BitVec 32) (arrived : List Nat) (s : ServerSide) : Prop where
  printed : s.server.printed = (arrived.take s.server.printed.length).map (numberedLine addr)
  loop : serverLoop ((arrived.take s.server.printed.length).map (fun m => .received (numberedMessage addr m)))
    .start = .ok s.server
  waiting : s.waiting = (arrived.drop s.server.printed.length).map (numberedMessage addr)

variable {σ ε α : Type} {network : Carry → Bool} {S : Sender σ ε α} {accept : α → Option Received}
variable {I : Nat → σ → Prop} {addr : BitVec 32} {d : Delivery σ α ServerSide}

theorem Served.le {arrived : List Nat} {s : ServerSide} (h : Served addr arrived s) :
    s.server.printed.length ≤ arrived.length := by
  have hlen := congrArg List.length h.printed
  rw [List.length_map, List.length_take] at hlen
  omega

/-- Whatever the network does. -/
theorem served (hS : S.Keeps I (fun k item => accept item = some (numberedMessage addr k)))
    (h : Arises network S accept udpReceiver d) : Served addr d.link.channel.arrived d.receiver := by
  unfold Arises at h
  induction h with
  | start => exact ⟨rfl,rfl,rfl⟩
  | @next d d' e hd hd' ih =>
    cases delivery_steps hd' with
    | sent | quiet => exact ih
    | carried w channel hnetwork hw hchannel =>
      rw [← carry_arrived hw hchannel] at ih
      exact ih
    | delivered i m item r side hnetwork hm hitem hr hside =>
      have hcontent := (hS.link (delivery_link hd).unrestricted).2 m item hitem
      obtain rfl := Option.some_inj.mp (hr.symm.trans hcontent)
      obtain rfl := Option.some_inj.mp hside
      have htake : (d.link.channel.arrived ++ [m]).take d.receiver.server.printed.length =
          d.link.channel.arrived.take d.receiver.server.printed.length := List.take_append_of_le_length ih.le
      refine ⟨?_,?_,?_⟩
      · rw [htake]
        exact ih.printed
      · rw [htake]
        exact ih.loop
      · rw [List.drop_append_of_le_length ih.le, List.map_append, ← ih.waiting]
        rfl
    | received e side hside =>
      have hwaiting := ih.waiting
      simp only [udpReceiver] at hside
      split at hside
      case h_1 => cases hside
      case h_2 r rest hr =>
        rw [hr] at hwaiting
        obtain ⟨m,ms,hdrop,rfl,rfl⟩ := List.map_eq_cons_iff.mp hwaiting.symm
        obtain ⟨t,hround,hprinted⟩ := serverRound_numbered d.receiver.server addr m
        rw [hround] at hside
        obtain rfl := Option.some_inj.mp hside
        have hlen : t.printed.length = d.receiver.server.printed.length+1 := by
          rw [hprinted, List.length_append, List.length_singleton]
        have htake : d.link.channel.arrived.take (d.receiver.server.printed.length+1) =
            d.link.channel.arrived.take d.receiver.server.printed.length ++ [m] := by
          have hget := congrArg List.head? hdrop
          rw [List.head?_drop] at hget
          rw [List.take_add_one, hget]
          rfl
        refine ⟨?_,?_,?_⟩
        · change t.printed = (d.link.channel.arrived.take t.printed.length).map _
          rw [hlen, htake, List.map_append, ← ih.printed]
          exact hprinted
        · change serverLoop ((d.link.channel.arrived.take t.printed.length).map _) _ = .ok t
          rw [hlen, htake, List.map_append, List.map_singleton, serverLoop_snoc, ih.loop]
          exact hround
        · change ms.map _ = (d.link.channel.arrived.drop t.printed.length).map _
          rw [hlen, ← List.drop_drop, hdrop]
          rfl

/-- The number a reader finds behind the word of a line. -/
def readNumber (text : List Byte) : Nat := decimalValue (characters (text.drop 9))

def readNumbers (printed : List Line) : List Nat := printed.map (fun line => readNumber line.text)

/-- Until the counter overflows. -/
theorem readNumber_numberedText {k : Nat} (hk : k < 2^31) : readNumber (numberedText k) = k := by
  have hvalue : (BitVec.ofNat 32 k).toNat = k := by
    rw [BitVec.toNat_ofNat]
    omega
  have hint : (BitVec.ofNat 32 k).toInt = k := by rw [BitVec.toInt_eq_toNat_of_lt (by omega), hvalue]
  have hdrop : (numberedText k).drop 9 = ascii (decimal k) := by
    rw [numberedText, Roce.messageText, hint, ascii, List.map_append]
    exact List.drop_left' rfl
  rw [readNumber, hdrop, characters_ascii (fun c hc => (decimal_ascii k c hc).2), decimalValue_decimal]

theorem readNumbers_lines {addr : BitVec 32} {ms : List Nat} (h : ∀ m ∈ ms, m < 2^31) :
    readNumbers (ms.map (numberedLine addr)) = ms := by
  rw [readNumbers, List.map_map]
  refine (List.map_congr_left ?_).trans (List.map_id _)
  intro m hm
  exact readNumber_numberedText (h m hm)

/-- What the server makes of the messages of a sender: it prints those that arrived, in the order
they arrived, the lines tell their numbers and, over a network in order, the losses among them, and
as long as datagrams wait it can go on. -/
structure Exchanged (network : Carry → Bool) (addr : BitVec 32) (d : Delivery σ α ServerSide) : Prop where
  authentic : ∀ m ∈ d.link.channel.numbers, m < d.link.channel.sent.length
  served : Served addr d.link.channel.arrived d.receiver
  numbers : d.link.channel.sent.length ≤ 2^31 →
    readNumbers d.receiver.server.printed = d.link.channel.arrived.take d.receiver.server.printed.length
  losses : (∀ w, network w = true → inOrder w = true) → d.link.channel.sent.length ≤ 2^31 →
    ∀ k ∈ readNumbers d.receiver.server.printed, ∀ m < k,
      (m ∈ d.link.channel.lost ↔ m ∉ readNumbers d.receiver.server.printed)
  goesOn : d.receiver.waiting ≠ [] → ∃ side, udpReceiver.step d.receiver () = some side

theorem exchanged (hS : S.Keeps I (fun k item => accept item = some (numberedMessage addr k)))
    (h : Arises network S accept udpReceiver d) : Exchanged network addr d := by
  have hserved := served hS h
  have hchannel := link_channel (delivery_link h)
  have hauthentic := reachable_authentic hchannel.unrestricted
  have hnumbers : d.link.channel.sent.length ≤ 2^31 →
      readNumbers d.receiver.server.printed = d.link.channel.arrived.take d.receiver.server.printed.length := by
    intro hsent
    conv_lhs => rw [hserved.printed]
    refine readNumbers_lines ?_
    intro m hm
    have hin : m ∈ d.link.channel.numbers :=
      List.mem_append_left _ (List.mem_append_left _ (List.mem_of_mem_take hm))
    exact (hauthentic m hin).trans_le hsent
  refine ⟨hauthentic,hserved,hnumbers,?_,?_⟩
  · intro hinOrder hsent k hk m hm
    have hordered : Reachable (restrict (Move.keeps inOrder) move) .empty d.link.channel := by
      refine hchannel.restrict_mono ?_
      rintro (a | w) hw
      · rfl
      · exact hinOrder w hw
    have hgrowing := (reachable_ordered hordered).sublist (List.sublist_append_left _ _)
    rw [hnumbers hsent] at hk ⊢
    rw [lost_iff hordered (List.mem_of_mem_take hk) hm, mem_take_iff_of_lt hgrowing hk hm]
  · intro hne
    obtain ⟨r,rest,hr⟩ := List.exists_cons_of_ne_nil hne
    have hwaiting := hserved.waiting
    rw [hr] at hwaiting
    obtain ⟨m,ms,-,rfl,rfl⟩ := List.map_eq_cons_iff.mp hwaiting.symm
    obtain ⟨t,hround,-⟩ := serverRound_numbered d.receiver.server addr m
    refine ⟨⟨ms.map (numberedMessage addr),t⟩,?_⟩
    simp only [udpReceiver, hr, hround]
    rfl

/-- The addresses of a small network. -/
def ownAddr : Addr := ⟨Vector.replicate 6 1, 0x0100A8C0, Vector.replicate 16 0⟩

def peerAddr : Addr := ⟨Vector.replicate 6 2, 0x0200A8C0, Vector.replicate 16 0⟩

/-- Both senders, to the server at the remote address and port, over any kind of network. -/
theorem messages_exchanged {localAddr remote : Addr} {port : BitVec 32} (hport : port.toNat < 2^16)
    (network : Carry → Bool) :
    (∀ d, Arises network udpSender (receivedFrom localAddr.ipv4) udpReceiver d →
      Exchanged network localAddr.ipv4 d) ∧
    ∀ d, Arises network (rawSender localAddr remote port) (hostAccepts remote port.toNat) udpReceiver d →
      Exchanged network localAddr.ipv4 d := by
  refine ⟨fun d => exchanged (udpSender_keeps.mono ?_),fun d => exchanged ((rawSender_keeps hport).mono ?_)⟩
  · rintro k _ rfl
    exact receivedFrom_numbered _ k
  · exact fun k frame => hostAccepts_datagram

private theorem port_4242 : (4242 : BitVec 32).toNat < 2^16 := by decide

/-- Of two messages the first is lost and the second waits at the socket. -/
theorem messages_exchanged_one : ∃ d : Delivery RawClient (List Byte) ServerSide, d.link.channel.arrived = [1] ∧
    d.link.channel.lost = [0] ∧ Exchanged inOrder ownAddr.ipv4 d := by
  have hone : ∃ x, Arises inOrder numbering (fun k => some (numberedMessage ownAddr.ipv4 k)) udpReceiver x ∧
      x.link.channel.arrived = [1] ∧ x.link.channel.lost = [0] :=
    ⟨_,reachable_of_run [.link (.sender ()), .link (.sender ()), .link (.carry (.lose 0)),
      .link (.carry (.deliver 0))] rfl,rfl,rfl⟩
  obtain ⟨x,hx,harrived,hlost⟩ := hone
  obtain ⟨d,hd,rfl⟩ := delivery_realised ((rawSender_keeps port_4242).mono (fun k frame => hostAccepts_datagram))
    (rawSender_goesOn port_4242) hx
  exact ⟨d,harrived,hlost,(@messages_exchanged ownAddr peerAddr 4242 port_4242 inOrder).2 d hd⟩

/-- The raw sender is as good as the socket client: what can be seen of the network and the server,
the bytes of the frames apart, is the same. -/
theorem senders_interchangeable {localAddr remote : Addr} {port : BitVec 32} (hport : port.toNat < 2^16)
    (network : Carry → Bool) (x : Delivery Nat Nat ServerSide) :
    (∃ d, Arises network (rawSender localAddr remote port) (hostAccepts remote port.toNat) udpReceiver d ∧
      d.numbered = x) ↔
    ∃ d, Arises network udpSender (receivedFrom localAddr.ipv4) udpReceiver d ∧ d.numbered = x := by
  refine interchangeable ((rawSender_keeps hport).mono (fun k frame => hostAccepts_datagram))
    (rawSender_goesOn hport) (udpSender_keeps.mono ?_) udpSender_goesOn x
  rintro k _ rfl
  exact receivedFrom_numbered _ k

/-- What one message sent and lost looks like. -/
theorem senders_interchangeable_one :
    (∃ d, Arises inOrder (rawSender ownAddr peerAddr 4242) (hostAccepts peerAddr 4242) udpReceiver d ∧
      d.numbered = ⟨⟨1, ⟨[0], [], [], [0]⟩⟩, udpReceiver.origin⟩) ↔
    ∃ d, Arises inOrder udpSender (receivedFrom ownAddr.ipv4) udpReceiver d ∧
      d.numbered = ⟨⟨1, ⟨[0], [], [], [0]⟩⟩, udpReceiver.origin⟩ :=
  senders_interchangeable port_4242 inOrder _

end IbverbPrototype.Udp
