import IbverbPrototype.Rdma.GidHandoff

/-! The datagram server: one static buffer for every message, terminated where the
received bytes end and printed as a string. -/
namespace IbverbPrototype.Udp
open Foundations.ByteOrder Foundations.CheckedMemory Foundations.FormattedText
open Rdma (Gid inetNtop)

/-- The theoretical maximum of a datagram's payload. -/
def udpBufferSize : Nat := 65535

def inet6Addrstrlen : Nat := 46

/-- The sender's address by its family, in network order. -/
inductive Source where
  | inet (addr : BitVec 32)
  | inet6 (addr : Gid)
  | other

/-- What recvfrom hands over: never more bytes than it was given room for. -/
structure Received where
  source : Source
  data : List Byte
  fits : data.length ≤ udpBufferSize

/-- The answers of recvfrom. -/
inductive Recv where
  | failed
  | received (r : Received)

/-- One printed line: address and message. -/
structure Line where
  address : Option (List Char)
  text : List Byte
  deriving DecidableEq

/-- addrStr is none while nothing was written to it. -/
structure Server where
  udpBuffer : Vector Byte udpBufferSize
  addrStr : Option (List Char)
  printed : List Line

inductive ServerError where
  | receiving
  | outOfBounds
  deriving DecidableEq

def Server.start : Server := ⟨Vector.replicate udpBufferSize 0, none, []⟩

/-- Four decimal numbers with dots between them. -/
def dottedText (addr : BitVec 32) : List Char :=
  ['.'].intercalate ((toLittle 4 addr).map (fun b => decimal b.toNat))

/-- An address of another family leaves the text of the round before. -/
def addressText (before : Option (List Char)) : Source → Option (List Char)
  | .inet addr => some (dottedText addr)
  | .inet6 addr => (inetNtop addr inet6Addrstrlen).or before
  | .other => before

def inBuffer {α : Type} : Option α → Except ServerError α
  | some a => .ok a
  | none => .error .outOfBounds

/-- One loop body for a call of recvfrom that succeeds. -/
def serverRound (s : Server) (r : Received) : Except ServerError Server := do
  let filled ← inBuffer (storeInto s.udpBuffer 0 r.data)
  let udpBuffer ← inBuffer (storeInto filled r.data.length [0])
  let text ← inBuffer (cString udpBuffer.toList)
  .ok ⟨udpBuffer, addressText s.addrStr r.source, s.printed ++ [⟨addressText s.addrStr r.source, text⟩]⟩

/-- The loop for the answers it gets until it is stopped. -/
def serverLoop : List Recv → Server → Except ServerError Server
  | [], s => .ok s
  | .failed::_, _ => .error .receiving
  | .received r::recvs, s => do serverLoop recvs (← serverRound s r)

/-- The bytes of a message up to its first NUL, or all of them. -/
def Received.message (r : Received) : List Byte := r.data.takeWhile (· ≠ 0)

/-- The server gets through all datagrams, and each is printed as if it had come alone. -/
def PrintedAlone (rs : List Received) : Prop :=
  ∃ s, serverLoop (rs.map .received) .start = .ok s ∧ s.printed.map Line.text = rs.map Received.message

/-- Whatever recvfrom hands over fits the buffer. -/
theorem fill_buffer (s : Server) (r : Received) :
    ∃ filled, storeInto s.udpBuffer 0 r.data = some filled ∧ filled.toList = overwrite s.udpBuffer.toList 0 r.data := by
  refine storeInto_eq s.udpBuffer ?_
  rw [Nat.zero_add]
  exact r.fits

/-- Room for the terminator: the round prints the message, whatever the buffer held. -/
theorem serverRound_prints (s : Server) {r : Received} (h : r.data.length < udpBufferSize) :
    ∃ udpBuffer, serverRound s r = .ok ⟨udpBuffer, addressText s.addrStr r.source,
      s.printed ++ [⟨addressText s.addrStr r.source, r.message⟩]⟩ := by
  obtain ⟨filled,hfilled,hdata⟩ := fill_buffer s r
  have hroom : r.data.length+[(0 : Byte)].length ≤ udpBufferSize := h
  obtain ⟨udpBuffer,hstored,hbytes⟩ := storeInto_eq filled hroom
  have htext : cString udpBuffer.toList = some r.message := by
    have hfront : (overwrite s.udpBuffer.toList 0 r.data).take r.data.length = r.data := by
      rw [overwrite, List.take_zero, List.nil_append, List.take_left]
    rw [hbytes, hdata, overwrite, hfront, List.append_assoc]
    exact cString_terminated _ _
  refine ⟨udpBuffer,?_⟩
  rw [serverRound, hfilled]
  simp only [inBuffer, bind, Except.bind]
  rw [hstored]
  simp only [htext]

/-- A datagram of the largest size puts the terminator behind the buffer. -/
theorem serverRound_largest (s : Server) {r : Received} (h : r.data.length = udpBufferSize) :
    serverRound s r = .error .outOfBounds := by
  obtain ⟨filled,hfilled,-⟩ := fill_buffer s r
  have hout : storeInto filled r.data.length [0] = none := by
    refine dif_neg ?_
    rw [h]
    exact Nat.not_succ_le_self _
  rw [serverRound, hfilled]
  simp only [inBuffer, bind, Except.bind]
  rw [hout]

/-- A run from any state adds exactly the messages of its datagrams. -/
theorem serverLoop_prints {rs : List Received} (h : ∀ r ∈ rs, r.data.length < udpBufferSize) (s : Server) :
    ∃ t, serverLoop (rs.map .received) s = .ok t ∧
      t.printed.map Line.text = s.printed.map Line.text ++ rs.map Received.message := by
  induction rs generalizing s with
  | nil => exact ⟨s,rfl,(List.append_nil _).symm⟩
  | cons r rs ih =>
    obtain ⟨udpBuffer,hround⟩ := serverRound_prints s (h r List.mem_cons_self)
    obtain ⟨t,hrun,hprinted⟩ := ih (fun r hr => h r (List.mem_cons_of_mem _ hr))
      ⟨udpBuffer, addressText s.addrStr r.source, s.printed ++ [⟨addressText s.addrStr r.source, r.message⟩]⟩
    refine ⟨t,?_,?_⟩
    · rw [List.map_cons, serverLoop, hround]
      exact hrun
    · rw [hprinted, List.map_append, List.append_assoc]
      rfl

/-- A run that gets through has met no datagram of the largest size. -/
theorem serverLoop_small {rs : List Received} {s t : Server} (h : serverLoop (rs.map .received) s = .ok t) :
    ∀ r ∈ rs, r.data.length < udpBufferSize := by
  induction rs generalizing s with
  | nil => exact fun r hr => absurd hr List.not_mem_nil
  | cons r rs ih =>
    rw [List.map_cons, serverLoop] at h
    rcases Nat.eq_or_lt_of_le r.fits with hlargest | hsmall
    · rw [serverRound_largest s hlargest] at h
      cases h
    · obtain ⟨udpBuffer,hround⟩ := serverRound_prints s hsmall
      rw [hround] at h
      exact List.forall_mem_cons.mpr ⟨hsmall,ih h⟩

/-- For every sequence of datagrams: each is printed on its own, inside the buffer, exactly
when none has the largest size. -/
theorem printed_alone_iff (rs : List Received) : PrintedAlone rs ↔ ∀ r ∈ rs, r.data.length ≠ udpBufferSize := by
  constructor
  · rintro ⟨s,hrun,-⟩ r hr
    exact Nat.ne_of_lt (serverLoop_small hrun r hr)
  · intro h
    have hsmall : ∀ r ∈ rs, r.data.length < udpBufferSize := fun r hr => Nat.lt_of_le_of_ne r.fits (h r hr)
    exact serverLoop_prints hsmall .start

/-- One datagram of 65535 bytes. -/
theorem largest_not_printed : ¬ ∀ rs, PrintedAlone rs := by
  intro hall
  obtain ⟨s,hrun,-⟩ := hall [⟨.inet 0x0100007F, List.replicate udpBufferSize 0x41, by rw [List.length_replicate]⟩]
  have hsmall := serverLoop_small hrun _ List.mem_cons_self
  rw [List.length_replicate] at hsmall
  exact Nat.lt_irrefl _ hsmall

end IbverbPrototype.Udp
