import IbverbPrototype.Address.CommandLines
import IbverbPrototype.Foundations.FlaggedLoop
import IbverbPrototype.Rdma.ExitStatus
import IbverbPrototype.Rdma.RawClient
import IbverbPrototype.Udp.NumberedSenders

/-! The two raw-socket programs from their arguments to their exit. The signal that ends them falls
at any moment. -/
namespace IbverbPrototype.Udp
open Foundations.ByteOrder Foundations.EventSystem Foundations.FlaggedLoop Foundations.Halting
open Foundations.LossyChannel Address
open Rdma (exitSuccess exitFailure hostSender hostFrame hostSender_keeps hostSender_goesOn)

variable {σ ε α τ : Type}

/-- The exit status of a program whose end is the end of its loop. -/
def exitStatus : Phase → Option Nat
  | .left => some exitSuccess
  | .failed => some exitFailure
  | .test | .round => none

/-- What a program has come to: its exit status once it is over, and what it has sent. -/
structure Outcome (α : Type) where
  status : Option Nat
  sent : List α

/-- A sending program behind its front: the packet socket, then the loop. A front in undefined
behaviour has no outcome. -/
def senderMain (front : Except (Halt Failure) τ) (socket : Bool) (sender : τ → Sender σ ε α)
    (es : List (LoopEvent ε)) : Option (Outcome α) :=
  match front with
  | .error .undefined => none
  | .error (.exit _) => some ⟨some exitFailure, []⟩
  | .ok start =>
    if socket then
      (run (loopStep (sendRound (sender start))) es (entering ((sender start).origin, []))).map (fun s =>
        ⟨exitStatus s.phase, s.state.2⟩)
    else some ⟨some exitFailure, []⟩

/-- raw_udp. -/
def rawUdpMain (lib : Library) (socket : Bool) (argv : List String) : List (LoopEvent Int) →
    Option (Outcome (List Byte)) :=
  senderMain (rawUdp lib argv) socket (fun start => rawSender start.localAddr start.remote start.port)

/-- raw_ibverbs on a host command line, cells lying behind its packet. -/
def rawIbverbsMain (lib : Library) (socket : Bool) (cells : Vector Byte 4) (argv : List String) :
    List (LoopEvent Bool) → Option (Outcome (List Byte)) :=
  senderMain (rawIbverbs lib argv) socket
    (fun start => hostSender start.localAddr start.remote start.queuePair cells)

/-- A program that sends its items in their order until the signal: it has gone well exactly if it
got to its loop and no send failed, which takes a signal; behind the signal one item more goes out
at most; and any number of items can be sent. -/
structure RunsToSignal (main : List (LoopEvent ε) → Option (Outcome α)) (ready : Prop) (Item : Nat → α → Prop) :
    Prop where
  items : ∀ es o, main es = some o → ∀ k a, o.sent[k]? = some a → Item k a
  status : ∀ es o, main es = some o → ∀ status, o.status = some status → status = exitSuccess ∨ status = exitFailure
  success : ∀ es o, main es = some o →
    (o.status = some exitSuccess ↔ o.status ≠ none ∧ ready ∧ o.sent.length = (answers es).length)
  signalled : ∀ es o, main es = some o → o.status = some exitSuccess → LoopEvent.signal ∈ es
  soon : ∀ es es' o o', main es = some o → main (es ++ .signal::es') = some o' → o'.sent.length ≤ o.sent.length+1
  any : ready → ∀ k, ∃ es o, main es = some o ∧ o.status = some exitSuccess ∧ o.sent.length = k

theorem exitStatus_success {phase : Phase} : exitStatus phase = some exitSuccess ↔ phase = .left := by
  cases phase <;> decide

theorem exitStatus_over {phase : Phase} : exitStatus phase ≠ none ↔ phase = .left ∨ phase = .failed := by
  cases phase <;> decide

variable {front : Except (Halt Failure) τ} {socket : Bool} {sender : τ → Sender σ ε α}

theorem senderMain_loop {start : τ} (hfront : front = .ok start) (hsocket : socket = true) (es : List (LoopEvent ε)) :
    senderMain front socket sender es =
      (run (loopStep (sendRound (sender start))) es (entering ((sender start).origin, []))).map (fun s =>
        ⟨exitStatus s.phase, s.state.2⟩) := by
  subst hfront
  exact if_pos hsocket

theorem senderMain_front {es : List (LoopEvent ε)} {o : Outcome α} (h : senderMain front socket sender es = some o)
    (hready : ¬ ((∃ start, front = .ok start) ∧ socket = true)) : o = ⟨some exitFailure, []⟩ := by
  unfold senderMain at h
  split at h
  · cases h
  · exact (Option.some_inj.mp h).symm
  · rename_i start
    rw [if_neg fun hsocket => hready ⟨⟨start,rfl⟩,hsocket⟩] at h
    exact (Option.some_inj.mp h).symm

/-- A sender that keeps its items makes such a program. -/
theorem senderMain_runs {I : τ → Nat → σ → Prop} {P : τ → Nat → α → Prop}
    (hkeeps : ∀ start, (sender start).Keeps (I start) (P start))
    (hone : ∀ start s e t out, (sender start).step s e = some (t, out) → out ≠ none)
    (hgoesOn : ∀ start k s, I start k s → ∃ e t a, (sender start).step s e = some (t, some a)) :
    RunsToSignal (senderMain front socket sender) ((∃ start, front = .ok start) ∧ socket = true)
      (fun k a => ∃ start, front = .ok start ∧ P start k a) where
  items := by
    intro es o h k a ha
    by_cases hready : (∃ start, front = .ok start) ∧ socket = true
    · obtain ⟨⟨start,hfront⟩,hsocket⟩ := hready
      rw [senderMain_loop hfront hsocket] at h
      obtain ⟨s,hrun,rfl⟩ := Option.map_eq_some_iff.mp h
      obtain ⟨as,honward,-⟩ := loop_sends hrun
      exact ⟨start,hfront,(sends_onward (hkeeps start) (hone start) honward).2.2 k a ha⟩
    · obtain rfl := senderMain_front h hready
      cases ha
  status := by
    intro es o h status hstatus
    by_cases hready : (∃ start, front = .ok start) ∧ socket = true
    · obtain ⟨⟨start,hfront⟩,hsocket⟩ := hready
      rw [senderMain_loop hfront hsocket] at h
      obtain ⟨s,-,rfl⟩ := Option.map_eq_some_iff.mp h
      change exitStatus s.phase = some status at hstatus
      cases hphase : s.phase <;> rw [hphase] at hstatus <;> cases hstatus
      · exact .inl rfl
      · exact .inr rfl
    · obtain rfl := senderMain_front h hready
      cases hstatus
      exact .inr rfl
  success := by
    intro es o h
    by_cases hready : (∃ start, front = .ok start) ∧ socket = true
    · obtain ⟨⟨start,hfront⟩,hsocket⟩ := id hready
      rw [senderMain_loop hfront hsocket] at h
      obtain ⟨s,hrun,rfl⟩ := Option.map_eq_some_iff.mp h
      obtain ⟨as,honward,hcount⟩ := loop_sends hrun
      have hlen := (sends_onward (hkeeps start) (hone start) honward).1
      rw [exitStatus_success, exitStatus_over]
      constructor
      · intro hleft
        obtain ⟨-,has⟩ | ⟨hfailed,-⟩ := hcount
        · exact ⟨.inl hleft,hready,has ▸ hlen⟩
        · cases hleft.symm.trans hfailed
      · rintro ⟨hended,-,hall⟩
        refine hended.resolve_right fun hfailed => ?_
        obtain ⟨hnot,-⟩ | ⟨-,answer,has⟩ := hcount
        · exact hnot hfailed
        · rw [has, List.length_append, hlen] at hall
          exact absurd hall (Nat.ne_of_lt (Nat.lt_succ_self _))
    · obtain rfl := senderMain_front h hready
      exact ⟨by rintro ⟨⟩,fun hall => absurd hall.2.1 hready⟩
  signalled := by
    intro es o h hsuccess
    by_cases hready : (∃ start, front = .ok start) ∧ socket = true
    · obtain ⟨⟨start,hfront⟩,hsocket⟩ := hready
      rw [senderMain_loop hfront hsocket] at h
      obtain ⟨s,hrun,rfl⟩ := Option.map_eq_some_iff.mp h
      have hhistory := loop_history hrun
      exact hhistory.flag.mp (hhistory.left (exitStatus_success.mp hsuccess))
    · obtain rfl := senderMain_front h hready
      cases hsuccess
  soon := by
    intro es es' o o' h h'
    by_cases hready : (∃ start, front = .ok start) ∧ socket = true
    · obtain ⟨⟨start,hfront⟩,hsocket⟩ := hready
      rw [senderMain_loop hfront hsocket] at h h'
      obtain ⟨s,hrun,rfl⟩ := Option.map_eq_some_iff.mp h
      obtain ⟨t,hrun',rfl⟩ := Option.map_eq_some_iff.mp h'
      exact sent_after_signal hrun hrun'
    · obtain rfl := senderMain_front h' hready
      exact Nat.zero_le _
  any := by
    rintro ⟨⟨start,hfront⟩,hsocket⟩ k
    obtain ⟨as,s,honward,hlen,-⟩ := sends_any (hkeeps start) (hgoesOn start) k
    obtain ⟨es,-,hrun⟩ := loop_runs honward
    refine ⟨es ++ [.signal, .test],⟨some exitSuccess, s.2⟩,?_,rfl,hlen⟩
    rw [senderMain_loop hfront hsocket, run_append, hrun]
    rfl

theorem map_some_ne_none {step : Option (σ × α)} {t : σ} {out : Option α}
    (h : step.map (fun next => (next.1, some next.2)) = some (t, out)) : out ≠ none := by
  obtain ⟨next,-,hnext⟩ := Option.map_eq_some_iff.mp h
  obtain ⟨-,rfl⟩ := Prod.mk.inj hnext
  exact Option.some_ne_none _

/-- Of the port argument its low half counts. -/
theorem rawSender_port (localAddr remote : Addr) (port : BitVec 32) :
    rawSender localAddr remote port = rawSender localAddr remote ((port.setWidth 16).setWidth 32) := by
  simp only [rawSender, initHeaders]
  rw [BitVec.setWidth_setWidth_of_le _ (by decide), BitVec.setWidth_eq]

theorem rawUdpMain_runs (lib : Library) (socket : Bool) (argv : List String) :
    RunsToSignal (rawUdpMain lib socket argv) ((∃ start, rawUdp lib argv = .ok start) ∧ socket = true)
      (fun k frame => ∃ start, rawUdp lib argv = .ok start ∧ WireFormat.parse frame =
        some (datagram start.localAddr start.remote ((start.port.setWidth 16).setWidth 32) (numberedText k))) := by
  have hport : ∀ start : UdpStart, ((start.port.setWidth 16).setWidth 32).toNat < 2^16 := by
    intro start
    rw [BitVec.toNat_setWidth_of_le (by decide)]
    exact BitVec.isLt _
  refine senderMain_runs (I := fun start => RawKept start.localAddr start.remote ((start.port.setWidth 16).setWidth 32))
    ?_ ?_ ?_
  · intro start
    rw [rawSender_port]
    exact rawSender_keeps (hport start)
  · intro start s result t out h
    exact map_some_ne_none h
  · intro start
    rw [rawSender_port]
    exact rawSender_goesOn (hport start)

theorem rawIbverbsMain_runs (lib : Library) (socket : Bool) (cells : Vector Byte 4) (argv : List String) :
    RunsToSignal (rawIbverbsMain lib socket cells argv) ((∃ start, rawIbverbs lib argv = .ok start) ∧ socket = true)
      (fun k frame => ∃ start, rawIbverbs lib argv = .ok start ∧
        frame = hostFrame start.localAddr start.remote start.queuePair k) := by
  refine senderMain_runs (fun start => hostSender_keeps _ _ _ _) ?_ (fun start => hostSender_goesOn)
  intro start s answer t out h
  exact map_some_ne_none h

/-- The raw senders from their arguments to their exit, however the system answers. -/
theorem raw_senders_run (lib : Library) (socket : Bool) (argv : List String) :
    RunsToSignal (rawUdpMain lib socket argv) ((∃ start, rawUdp lib argv = .ok start) ∧ socket = true)
        (fun k frame => ∃ start, rawUdp lib argv = .ok start ∧ WireFormat.parse frame =
          some (datagram start.localAddr start.remote ((start.port.setWidth 16).setWidth 32) (numberedText k))) ∧
      ∀ (cells : Vector Byte 4) (ifname host gid queuePair : String),
        rawForm argv = some (.host ifname host gid queuePair) →
        RunsToSignal (rawIbverbsMain lib socket cells argv) ((∃ start, rawIbverbs lib argv = .ok start) ∧ socket = true)
          (fun k frame => ∃ start, rawIbverbs lib argv = .ok start ∧
            frame = hostFrame start.localAddr start.remote start.queuePair k) :=
  ⟨rawUdpMain_runs lib socket argv,fun cells _ _ _ _ _ => rawIbverbsMain_runs lib socket cells argv⟩

end IbverbPrototype.Udp
