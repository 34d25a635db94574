import IbverbPrototype.Fpga.Kernel
import IbverbPrototype.Foundations.EventSystem
import IbverbPrototype.Roce.InvariantHeaders

/-! The OpenCL commands of the FPGA sender. Its local queue and the queue inside its
kernel wrapper run in order, each on its own. -/
namespace IbverbPrototype.Fpga
open Foundations.ByteOrder Foundations.CheckedMemory Foundations.EventSystem Roce

/-- Where the host program stands: before the call of that name, or waiting in it. -/
inductive HostPoint where
  | mapBuffer
  | awaitMap
  | memcpy
  | copyBuffer
  | launch
  | finish
  | unmap
  | returned
  deriving DecidableEq

inductive LocalCommand where
  | map
  | copy
  | unmap
  deriving DecidableEq

/-- The arguments of a launch besides its buffer. -/
structure Launch where
  headerCrc : BitVec 32
  headerSize : BitVec 32
  chan : BitVec 32
  deriving DecidableEq

/-- The mapping is the region behind the mapped pointer; ran is the launch executed
with what device_buf held then. -/
structure Schedule where
  point : HostPoint
  localQueue : List LocalCommand
  kernelQueue : List Launch
  hostBuf : List Byte
  deviceBuf : List Byte
  mapping : Option (List Byte)
  ran : Option (Launch × List Byte)

inductive ScheduleEvent where
  | host
  | localQueue
  | kernelQueue
  deriving DecidableEq

/-- The bytes of a packet the host side passes on. -/
def packetHeader (packet : Packet) : List Byte := slice packet.bytes 0 fpgaHeaderSize.toNat

/-- The next statement; the blocking map and the wait for the kernel's event are
refused until their own command has executed. -/
def hostStep (packet : Packet) (headerCrc : BitVec 32) (s : Schedule) : Option Schedule :=
  match s.point with
  | .mapBuffer => some { s with point := .awaitMap, localQueue := s.localQueue ++ [.map] }
  | .awaitMap => if s.mapping.isSome then some { s with point := .memcpy } else none
  | .memcpy => some { s with point := .copyBuffer, mapping := some (packetHeader packet) }
  | .copyBuffer => some { s with point := .launch, localQueue := s.localQueue ++ [.copy] }
  | .launch => some { s with point := .finish, kernelQueue := s.kernelQueue ++ [⟨headerCrc, fpgaHeaderSize, 1⟩] }
  | .finish => if s.ran.isSome then some { s with point := .unmap } else none
  | .unmap => some { s with point := .returned, localQueue := s.localQueue ++ [.unmap] }
  | .returned => none

/-- Bytes written through the mapping reach the buffer when the unmap executes. -/
def localStep (s : Schedule) : Option Schedule :=
  match s.localQueue with
  | [] => none
  | .map::rest => some { s with localQueue := rest, mapping := some s.hostBuf }
  | .copy::rest => some { s with localQueue := rest, deviceBuf := s.hostBuf }
  | .unmap::rest => some { s with localQueue := rest, hostBuf := s.mapping.getD s.hostBuf, mapping := none }

def kernelStep (s : Schedule) : Option Schedule :=
  match s.kernelQueue with
  | [] => none
  | launch::rest => some { s with kernelQueue := rest, ran := some (launch, s.deviceBuf) }

def scheduleStep (packet : Packet) (headerCrc : BitVec 32) (s : Schedule) : ScheduleEvent → Option Schedule
  | .host => hostStep packet headerCrc s
  | .localQueue => localStep s
  | .kernelQueue => kernelStep s

/-- The call, given what the two fresh buffers hold. -/
def ibFpgaSendLoop (deviceBuf hostBuf : List Byte) : Schedule :=
  ⟨.mapBuffer, [], [], hostBuf, deviceBuf, none, none⟩

/-- Every launch executed found exactly the header of the packet. -/
def HeaderDelivered (packet : Packet) (s : Schedule) : Prop :=
  ∀ launch bytes, s.ran = some (launch, bytes) → bytes = packetHeader packet

/-- Launches the host has made before a point of the program. -/
def launches : HostPoint → Nat
  | .finish | .unmap | .returned => 1
  | _ => 0

/-- Until the kernel has run no unmap is queued, the host buffer is as it was created,
and the device buffer holds what one of the two was created with. -/
structure Stale (d h : List Byte) (s : Schedule) : Prop where
  launched : s.kernelQueue.length+s.ran.toList.length = launches s.point
  point : s.point = .unmap ∨ s.point = .returned → s.ran ≠ none
  queue : LocalCommand.unmap ∈ s.localQueue → s.ran ≠ none
  host : s.ran = none → s.hostBuf = h
  device : s.ran = none → s.deviceBuf = d ∨ s.deviceBuf = h
  ran : ∀ launch bytes, s.ran = some (launch, bytes) → bytes = d ∨ bytes = h

/-- What a statement of the host leaves alone, and when it can queue the unmap. -/
private theorem host_frame {packet : Packet} {headerCrc : BitVec 32} {s t : Schedule}
    (ht : hostStep packet headerCrc s = some t) :
    t.hostBuf = s.hostBuf ∧ t.deviceBuf = s.deviceBuf ∧ t.ran = s.ran ∧
    t.kernelQueue.length+launches s.point = s.kernelQueue.length+launches t.point ∧
    (LocalCommand.unmap ∈ t.localQueue → LocalCommand.unmap ∈ s.localQueue ∨ s.point = .unmap) ∧
    (t.point = .unmap ∨ t.point = .returned → s.ran ≠ none ∨ s.point = .unmap) := by
  unfold hostStep at ht
  split at ht
  case h_2 | h_6 =>
    split at ht
    · obtain rfl := Option.some_inj.mp ht
      simp_all [launches, Option.isSome_iff_ne_none]
    · cases ht
  case h_8 => cases ht
  all_goals
    obtain rfl := Option.some_inj.mp ht
    simp_all [launches]

private theorem stale_host {packet : Packet} {headerCrc : BitVec 32} {d h : List Byte} {s t : Schedule}
    (hi : Stale d h s) (ht : hostStep packet headerCrc s = some t) : Stale d h t := by
  obtain ⟨hhost,hdevice,hran,hlaunch,hqueue,hpoint⟩ := host_frame ht
  refine ⟨?_,?_,?_,?_,?_,?_⟩
  · have hl := hi.launched
    rw [hran]
    omega
  · rw [hran]
    intro hp
    rcases hpoint hp with hr | hu
    · exact hr
    · exact hi.point (.inl hu)
  · rw [hran]
    intro hq
    rcases hqueue hq with hq | hu
    · exact hi.queue hq
    · exact hi.point (.inl hu)
  · rw [hran, hhost]
    exact hi.host
  · rw [hran, hdevice]
    exact hi.device
  · rw [hran]
    exact hi.ran

private theorem stale_local {d h : List Byte} {s t : Schedule} (hi : Stale d h s) (ht : localStep s = some t) :
    Stale d h t := by
  unfold localStep at ht
  split at ht
  case h_1 => cases ht
  case h_2 rest hq =>
    obtain rfl := Option.some_inj.mp ht
    exact ⟨hi.launched,hi.point,fun hu => hi.queue (hq ▸ List.mem_cons_of_mem _ hu),hi.host,hi.device,hi.ran⟩
  case h_3 rest hq =>
    obtain rfl := Option.some_inj.mp ht
    exact ⟨hi.launched,hi.point,fun hu => hi.queue (hq ▸ List.mem_cons_of_mem _ hu),hi.host,
      fun hr => .inr (hi.host hr),hi.ran⟩
  case h_4 rest hq =>
    obtain rfl := Option.some_inj.mp ht
    have hran : s.ran ≠ none := hi.queue (hq ▸ List.mem_cons_self)
    exact ⟨hi.launched,hi.point,fun _ => hran,fun hr => absurd hr hran,hi.device,hi.ran⟩

private theorem stale_kernel {d h : List Byte} {s t : Schedule} (hi : Stale d h s) (ht : kernelStep s = some t) :
    Stale d h t := by
  unfold kernelStep at ht
  split at ht
  case h_1 => cases ht
  case h_2 launch rest hq =>
    obtain rfl := Option.some_inj.mp ht
    have hl := hi.launched
    have hpoint : launches s.point ≤ 1 := by cases s.point <;> decide
    have hran : s.ran = none := by
      rw [hq, List.length_cons] at hl
      exact Option.toList_eq_nil_iff.mp (List.length_eq_zero_iff.mp (by omega))
    have hdevice := hi.device hran
    refine ⟨?_,fun _ => Option.some_ne_none _,fun _ => Option.some_ne_none _,?_,?_,?_⟩
    · rw [hq, hran] at hl
      exact hl
    · rintro ⟨⟩
    · rintro ⟨⟩
    · rintro _ _ ⟨⟩
      exact hdevice

/-- Under every schedule the kernel finds what one of the two buffers was created with:
the copy always runs before the unmap that would bring the header. -/
theorem kernel_reads_stale {packet : Packet} {headerCrc : BitVec 32} {d h : List Byte} {s : Schedule}
    (hs : Reachable (scheduleStep packet headerCrc) (ibFpgaSendLoop d h) s) : Stale d h s := by
  have hstart : Stale d h (ibFpgaSendLoop d h) := by constructor <;> simp [ibFpgaSendLoop, launches]
  refine hs.invariant hstart ?_
  · intro s t e hi ht
    cases e with
    | host => exact stale_host hi ht
    | localQueue => exact stale_local hi ht
    | kernelQueue => exact stale_kernel hi ht

/-- A kernel that overtakes the copy finds the device buffer as it was created. -/
theorem early_kernel (packet : Packet) (headerCrc : BitVec 32) (d h : List Byte) :
    ∃ s, Reachable (scheduleStep packet headerCrc) (ibFpgaSendLoop d h) s ∧
      s.ran = some (⟨headerCrc, fpgaHeaderSize, 1⟩, d) :=
  ⟨_,reachable_of_run [.host, .localQueue, .host, .host, .host, .host, .kernelQueue] rfl,rfl⟩

/-- A kernel after the copy finds the host buffer as it was created. -/
theorem late_kernel (packet : Packet) (headerCrc : BitVec 32) (d h : List Byte) :
    ∃ s, Reachable (scheduleStep packet headerCrc) (ibFpgaSendLoop d h) s ∧
      s.ran = some (⟨headerCrc, fpgaHeaderSize, 1⟩, h) :=
  ⟨_,reachable_of_run [.host, .localQueue, .host, .host, .host, .localQueue, .host, .kernelQueue] rfl,rfl⟩

/-- The header is delivered under every schedule exactly when both fresh buffers
happen to hold it before the call. -/
theorem header_delivered_iff (packet : Packet) (headerCrc : BitVec 32) (d h : List Byte) :
    (∀ s, Reachable (scheduleStep packet headerCrc) (ibFpgaSendLoop d h) s → HeaderDelivered packet s) ↔
      d = packetHeader packet ∧ h = packetHeader packet := by
  constructor
  · intro hall
    obtain ⟨s,hs,hran⟩ := early_kernel packet headerCrc d h
    obtain ⟨t,ht,hran'⟩ := late_kernel packet headerCrc d h
    exact ⟨hall s hs _ _ hran,hall t ht _ _ hran'⟩
  · rintro ⟨rfl,rfl⟩ s hs launch bytes hran
    rcases (kernel_reads_stale hs).ran launch bytes hran with hb | hb <;> exact hb

private theorem initialised_header_ne_zero (src dest : Address.Addr) (qp : BitVec 32) :
    packetHeader (initInvariantHeaders zeroPacket src dest qp).1 ≠ List.replicate fpgaHeaderSize.toNat 0 := by
  intro h
  have hbytes := init_headers_bytes src dest qp
  have htype : (0x89 : Byte) ∈ packetHeader (initInvariantHeaders zeroPacket src dest qp).1 := by
    refine (congrArg ((0x89 : Byte) ∈ ·) hbytes).mpr ?_
    simp
  rw [h] at htype
  exact absurd (List.eq_of_mem_replicate htype) (by decide)

/-- An initialised packet passed on over fresh buffers of zeros is lost under some schedule. -/
theorem zero_buffers_lose_header :
    ¬ ∀ (packet : Packet) (headerCrc : BitVec 32) (d h : List Byte) (s : Schedule),
      d.length = fpgaHeaderSize.toNat → h.length = fpgaHeaderSize.toNat →
      Reachable (scheduleStep packet headerCrc) (ibFpgaSendLoop d h) s → HeaderDelivered packet s := by
  intro hall
  have hzero := initialised_header_ne_zero ⟨Vector.replicate 6 0,0,Vector.replicate 16 0⟩
    ⟨Vector.replicate 6 0,0,Vector.replicate 16 0⟩ 0
  obtain ⟨s,hs,hran⟩ := late_kernel (initInvariantHeaders zeroPacket ⟨Vector.replicate 6 0,0,Vector.replicate 16 0⟩
    ⟨Vector.replicate 6 0,0,Vector.replicate 16 0⟩ 0).1 0 (List.replicate fpgaHeaderSize.toNat 0)
    (List.replicate fpgaHeaderSize.toNat 0)
  exact hzero (hall _ _ _ _ s List.length_replicate List.length_replicate hs _ _ hran).symm

end IbverbPrototype.Fpga
