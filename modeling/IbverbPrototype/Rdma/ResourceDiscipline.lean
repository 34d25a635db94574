import IbverbPrototype.Rdma.Resources
import Mathlib.Data.Finset.Lattice.Basic

/-! The set-up and the cleanup against the ledger: where a failing call leaves everything
released, where it does not, and that the cleanup at the end of main does. -/
namespace IbverbPrototype.Rdma
open Foundations.ByteOrder Foundations.EventSystem Foundations.ResourceLedger

/-- What the cleanup looks at before it releases. -/
def guarded : List Resource := [.headerMemoryRegion, .headerBuffer, .scatterGather, .recvRequests, .sendRequests, .ah]

/-- What the cleanup releases without a look. -/
def unguarded : List Resource :=
  [.context, .protectionDomain, .completionQueue, .queuePair, .buffer, .memoryRegion]

/-- The resources held, and the variables the cleanup looks at in accord with them. -/
structure World.Holds (w : World) (held : Finset Resource) : Prop where
  ledger : ledger needs w.trace = some held
  assigned : ∀ r ∈ guarded, (w.assigned r = true ↔ r ∈ held)

variable {w : World} {held : Finset Resource} {r : Resource} {uses : List Resource} {env : Environment}

@[simp] theorem assigned_release : (w.release r).assigned = w.assigned := rfl

@[simp] theorem assigned_releaseIf : (w.releaseIf r).assigned = w.assigned := by
  unfold World.releaseIf
  split <;> rfl

theorem holds_start : World.start.Holds ∅ := ⟨rfl,fun _ _ => by simp [World.start]⟩

theorem use_ledger (h : ledger needs w.trace = some held) (huses : ∀ r ∈ uses, r ∈ held) :
    ledger needs (w.use uses).trace = some held := by
  induction uses generalizing w with
  | nil => exact (congrArg (Foundations.ResourceLedger.ledger needs) (List.append_nil _)).trans h
  | cons r uses ih =>
    have hstep : ledger needs (w.use [r]).trace = some held := ledger_use h (huses r List.mem_cons_self)
    have hrest := ih hstep (fun d hd => huses d (List.mem_cons_of_mem r hd))
    simpa [World.use] using hrest

theorem World.Holds.use (h : w.Holds held) (huses : ∀ r ∈ uses, r ∈ held) : (w.use uses).Holds held :=
  ⟨use_ledger h.ledger huses,h.assigned⟩

theorem World.Holds.obtain (h : w.Holds held) (hr : r ∉ held) : (w.obtain r).Holds (insert r held) := by
  refine ⟨ledger_acquire h.ledger hr,?_⟩
  intro d hd
  by_cases hdr : d = r
  · simp [World.obtain, hdr]
  · simpa [World.obtain, hdr] using h.assigned d hd

theorem World.Holds.clear (h : w.Holds held) (hr : r ∉ held) : (w.clear r).Holds held := by
  refine ⟨h.ledger,?_⟩
  intro d hd
  by_cases hdr : d = r
  · simp [World.clear, hdr, hr]
  · simpa [World.clear, hdr] using h.assigned d hd

theorem release_ledger (h : ledger needs w.trace = some held) (hr : r ∈ held) (hneeds : ∀ d, r ∈ needs d → d ∉ held) :
    ledger needs (w.release r).trace = some (held.erase r) :=
  ledger_release h hr (fun d hd hin => hneeds d hin hd)

/-- A release behind a look at the variable releases what is held. -/
theorem releaseIf_ledger (h : ledger needs w.trace = some held) (hassigned : w.assigned r = true ↔ r ∈ held)
    (hneeds : ∀ d, r ∈ needs d → d ∉ held) : ledger needs (w.releaseIf r).trace = some (held.erase r) := by
  unfold World.releaseIf
  split
  case isTrue hset => exact release_ledger h (hassigned.mp hset) hneeds
  case isFalse hset => rw [h, Finset.erase_eq_of_notMem (fun hin => hset (hassigned.mpr hin))]

/-- What nothing else needs. -/
def leaves : List Resource := [.deviceList, .queuePair, .memoryRegion, .headerMemoryRegion, .result, .scatterGather,
  .recvRequests, .sendRequests, .ah]

theorem leaf_unneeded (h : r ∈ leaves) : ∀ d, r ∈ needs d → d ∉ held := by
  intro d hd
  cases d with
  | deviceList | context | buffer | headerBuffer | result | scatterGather | recvRequests | sendRequests => cases hd
  | protectionDomain | completionQueue | ah =>
    obtain rfl := List.mem_singleton.mp hd
    exact absurd h (by decide)
  | queuePair | memoryRegion | headerMemoryRegion =>
    simp only [needs, List.mem_cons, List.not_mem_nil, or_false] at hd
    rcases hd with rfl | rfl <;> exact absurd h (by decide)

/-- A release of what the cleanup does not look at. -/
theorem World.Holds.release (h : w.Holds held) (hr : r ∈ held) (hguard : r ∉ guarded)
    (hneeds : ∀ d, r ∈ needs d → d ∉ held) : (w.release r).Holds (held.erase r) := by
  refine ⟨release_ledger h.ledger hr hneeds,?_⟩
  intro d hd
  have hdr : d ≠ r := fun heq => hguard (heq ▸ hd)
  rw [assigned_release, h.assigned d hd, Finset.mem_erase, and_iff_right hdr]

/-- The buffer is freed and its variable set to NULL. -/
theorem World.Holds.free (h : w.Holds held) (hr : r ∈ held) (hneeds : ∀ d, r ∈ needs d → d ∉ held) :
    ((w.release r).clear r).Holds (held.erase r) := by
  refine ⟨release_ledger h.ledger hr hneeds,?_⟩
  intro d hd
  by_cases hdr : d = r
  · simp [World.clear, hdr]
  · simpa [World.clear, hdr] using h.assigned d hd

/-- The cleanup of what rdma_init and the address handle hold. -/
theorem internalRdmaCleanup_ledger (h : ledger needs w.trace = some held) (hah : w.assigned .ah = true ↔ .ah ∈ held)
    (hcore : ∀ r ∈ [Resource.context, .protectionDomain, .completionQueue, .queuePair], r ∈ held)
    (hfree : .memoryRegion ∉ held ∧ .headerMemoryRegion ∉ held) :
    ledger needs (internalRdmaCleanup w).trace = some
      (((((held.erase .ah).erase .queuePair).erase .completionQueue).erase .protectionDomain).erase .context) := by
  obtain ⟨hmr,hheader⟩ := hfree
  simp only [List.forall_mem_cons] at hcore
  obtain ⟨hcontext,hpd,hcq,hqp,-⟩ := hcore
  have hah := releaseIf_ledger h hah (leaf_unneeded (by decide))
  have hqp := release_ledger hah (r := .queuePair) (by simp [hqp]) (leaf_unneeded (by decide))
  have hcq := release_ledger hqp (r := .completionQueue) (by simp [hcq]) (by intro d; cases d <;> simp [needs])
  have hpd := release_ledger hcq (r := .protectionDomain) (by simp [hpd])
    (by intro d; cases d <;> simp [needs, hmr, hheader])
  exact release_ledger hpd (r := .context) (by simp [hcontext]) (by intro d; cases d <;> simp [needs])

/-- The whole cleanup leaves at most what it has no variable for. -/
theorem rdmaCleanup_ledger (h : w.Holds held)
    (hcore : ∀ r ∈ unguarded, r ∈ held) :
    ledger needs (rdmaCleanup w).trace = some (held ∩ {.deviceList, .result}) := by
  have hguard := h.assigned
  simp only [guarded, unguarded, List.forall_mem_cons] at hguard hcore
  obtain ⟨hheaderMr,hheader,hsg,hrecv,hsend,hah,-⟩ := hguard
  obtain ⟨hcontext,hpd,hcq,hqp,hbuffer,hmr,-⟩ := hcore
  have h1 := release_ledger h.ledger hmr (leaf_unneeded (by decide))
  have h2 := release_ledger h1 (r := .buffer) (by simp [hbuffer]) (by intro d; cases d <;> simp [needs])
  have h3 := releaseIf_ledger h2 (r := .headerMemoryRegion) (by simp [hheaderMr]) (leaf_unneeded (by decide))
  have h4 := releaseIf_ledger h3 (r := .headerBuffer) (by simp [hheader]) (by intro d; cases d <;> simp [needs])
  have h5 := releaseIf_ledger h4 (r := .scatterGather) (by simp [hsg]) (leaf_unneeded (by decide))
  have h6 := releaseIf_ledger h5 (r := .recvRequests) (by simp [hrecv]) (leaf_unneeded (by decide))
  have h7 := releaseIf_ledger h6 (r := .sendRequests) (by simp [hsend]) (leaf_unneeded (by decide))
  refine (internalRdmaCleanup_ledger h7 (by simp [hah]) (by simp [*]) (by simp)).trans (congrArg some ?_)
  ext d
  cases d <;> simp

/-- The calls whose failure leaves something behind. -/
def slips : List Call := [.openDevice, .allocPd, .mallocScatterGather, .mallocRequests]

/-- The first call of a sequence that fails. -/
def firstFailure (env : Environment) (calls : List Call) : Option Call := calls.find? (fun c => !env.passes c)

/-- A part of the set-up goes on with what it acquired if all its calls succeed; if one
fails the program ends with everything released, except after a slip. -/
def Ends (env : Environment) (calls : List Call) (held : Finset Resource) : Except World World → Prop
  | .ok w => firstFailure env calls = none ∧ w.Holds held
  | .error w => ∃ c, firstFailure env calls = some c ∧ (ledger needs w.trace = some ∅ ↔ c ∉ slips)

theorem Ends.bind {calls more : List Call} {held held' : Finset Resource} {m : Except World World}
    {f : World → Except World World} (h : Ends env calls held m)
    (hf : ∀ w : World, w.Holds held → Ends env more held' (f w)) : Ends env (calls ++ more) held' (m >>= f) := by
  cases m with
  | error w =>
    obtain ⟨c,hc,hledger⟩ := h
    refine ⟨c,?_,hledger⟩
    rw [firstFailure, List.find?_append]
    rw [firstFailure] at hc
    rw [hc]
    rfl
  | ok w =>
    obtain ⟨hnone,hw⟩ := h
    have hmore := hf w hw
    have hall : firstFailure env (calls ++ more) = firstFailure env more := by
      rw [firstFailure] at hnone
      rw [firstFailure, List.find?_append, hnone]
      rfl
    change Ends env (calls ++ more) held' (f w)
    unfold Ends at hmore ⊢
    rw [hall]
    exact hmore

theorem query_ends {c : Call} {failed : World → World} (hw : w.Holds held) (huses : ∀ r ∈ uses, r ∈ held)
    (hfailed : ∀ v : World, v.Holds held → (ledger needs (failed v).trace = some ∅ ↔ c ∉ slips)) :
    Ends env [c] held (query env c uses failed w) := by
  have huse := hw.use huses
  unfold query
  split
  case isTrue hc => exact ⟨by simp [firstFailure, hc],huse⟩
  case isFalse hc => exact ⟨c,by simp [firstFailure, hc],hfailed _ huse⟩

theorem create_ends {c : Call} {failed : World → World} (hw : w.Holds held) (huses : ∀ r ∈ uses, r ∈ held)
    (hr : r ∉ held) (hfailed : ∀ v : World, v.Holds held → (ledger needs (failed v).trace = some ∅ ↔ c ∉ slips)) :
    Ends env [c] (insert r held) (create env c uses r failed w) := by
  have huse := hw.use huses
  unfold create
  split
  case isTrue hc => exact ⟨by simp [firstFailure, hc],huse.obtain hr⟩
  case isFalse hc => exact ⟨c,by simp [firstFailure, hc],hfailed _ (huse.clear hr)⟩

theorem findDevice_search (devName : String) (devices : List String) (hw : w.Holds held)
    (hlist : .deviceList ∈ held) :
    (findDevice devName devices w).1 = devices.contains devName ∧ (findDevice devName devices w).2.Holds held := by
  induction devices generalizing w with
  | nil => exact ⟨rfl,hw.use (by simpa using hlist)⟩
  | cons name rest ih =>
    have hlook : (w.use [.deviceList, .deviceList]).Holds held := hw.use (by simpa using hlist)
    rw [findDevice]
    split
    case isTrue hname => exact ⟨by simp [hname],hlook⟩
    case isFalse hname =>
      obtain ⟨hfound,hrest⟩ := ih hlook
      refine ⟨hfound.trans ?_,hrest⟩
      rw [List.contains_cons, beq_false_of_ne (Ne.symm hname), Bool.false_or]

theorem settled_iff {c : Call} (h : ledger needs w.trace = some ∅) (hc : c ∉ slips) :
    ledger needs w.trace = some ∅ ↔ c ∉ slips := iff_of_true h hc

theorem leaked_iff {c : Call} (h : ledger needs w.trace = some held) (hheld : held ≠ ∅) (hc : c ∈ slips) :
    ledger needs w.trace = some ∅ ↔ c ∉ slips := by
  refine iff_of_false ?_ (not_not.mpr hc)
  intro hsettled
  exact hheld (Option.some_inj.mp (h.symm.trans hsettled))

theorem searchDevice_ends (hw : w.Holds {.deviceList}) :
    Ends env [.getDeviceName] {.deviceList} (searchDevice env w) := by
  obtain ⟨hfound,hsearch⟩ := findDevice_search env.devName env.devices hw (by decide)
  have hpasses : env.passes .getDeviceName = (findDevice env.devName env.devices w).1 := hfound.symm
  simp only [searchDevice]
  split
  case isTrue hc => exact ⟨by simp [firstFailure, hpasses, hc],hsearch⟩
  case isFalse hc =>
    refine ⟨.getDeviceName,by simp [firstFailure, hpasses, hc],settled_iff ?_ (by decide)⟩
    exact release_ledger hsearch.ledger (by decide) (leaf_unneeded (by decide))

theorem openDevice_ends (hw : w.Holds {.deviceList}) : Ends env [.openDevice] {.context} (openDevice env w) := by
  have huse : (w.use [.deviceList]).Holds {.deviceList} := hw.use (by simp)
  simp only [openDevice]
  split
  case isTrue hc =>
    have hopen := huse.obtain (r := .context) (by decide)
    refine ⟨by simp [firstFailure, hc],?_⟩
    exact hopen.release (by decide) (by decide) (leaf_unneeded (by decide))
  case isFalse hc =>
    have hclosed := release_ledger (huse.clear (r := .context) (by decide)).ledger (r := .deviceList) (by decide)
      (leaf_unneeded (by decide))
    have hstuck := ledger_use_released hclosed (r := .deviceList) (by decide)
    refine ⟨.openDevice,by simp [firstFailure, hc],iff_of_false ?_ (by decide)⟩
    intro hsettled
    cases hstuck.symm.trans hsettled

theorem cleanDevice_ledger (h : ledger needs w.trace = some {.context}) :
    ledger needs (cleanDevice w).trace = some ∅ :=
  release_ledger h (by decide) (by intro d; cases d <;> simp [needs])

theorem cleanProtectionDomain_ledger (h : ledger needs w.trace = some {.protectionDomain, .context}) :
    ledger needs (cleanProtectionDomain w).trace = some ∅ :=
  cleanDevice_ledger (release_ledger h (by decide) (by intro d; cases d <;> simp [needs]))

theorem cleanCompletionQueue_ledger
    (h : ledger needs w.trace = some {.completionQueue, .protectionDomain, .context}) :
    ledger needs (cleanCompletionQueue w).trace = some ∅ :=
  cleanProtectionDomain_ledger (release_ledger h (by decide) (by intro d; cases d <;> simp [needs]))

theorem cleanQueuePair_ledger
    (h : ledger needs w.trace = some {.queuePair, .completionQueue, .protectionDomain, .context}) :
    ledger needs (cleanQueuePair w).trace = some ∅ :=
  cleanCompletionQueue_ledger (release_ledger h (by decide) (leaf_unneeded (by decide)))

/-- What rdma_init leaves the program with. -/
def initHeld : Finset Resource := {.queuePair, .completionQueue, .protectionDomain, .context}

def initCalls : List Call :=
  [.getDeviceList, .getDeviceName, .openDevice, .queryPort, .allocPd, .createCq, .createQp, .modifyQpInit,
    .modifyQpRtr]

theorem rdmaInit_ends (env : Environment) : Ends env initCalls initHeld (rdmaInit env .start) := by
  unfold rdmaInit
  refine .bind (create_ends holds_start (by simp) (by simp) fun v hv => settled_iff hv.ledger (by decide))
    fun w hw => ?_
  refine .bind (searchDevice_ends hw) fun w hw => ?_
  refine .bind (openDevice_ends hw) fun w hw => ?_
  refine .bind (query_ends hw (by simp) fun v hv => settled_iff (cleanDevice_ledger hv.ledger) (by decide))
    fun w hw => ?_
  refine .bind (create_ends hw (by simp) (by decide) fun v hv => leaked_iff hv.ledger (by decide) (by decide))
    fun w hw => ?_
  refine .bind (create_ends hw (by simp) (by decide) fun v hv =>
    settled_iff (cleanProtectionDomain_ledger hv.ledger) (by decide)) fun w hw => ?_
  refine .bind (create_ends hw (by simp) (by decide) fun v hv =>
    settled_iff (cleanCompletionQueue_ledger hv.ledger) (by decide)) fun w hw => ?_
  refine .bind (query_ends hw (by simp) fun v hv => settled_iff (cleanQueuePair_ledger hv.ledger) (by decide))
    fun w hw => ?_
  exact query_ends hw (by decide) fun v hv => settled_iff (cleanQueuePair_ledger hv.ledger) (by decide)

/-- A buffer and its region, or neither of them. -/
theorem allocateBuf_ends {buf mr : Resource} {align reg : Call} {cleanup : World → World} (hw : w.Holds held)
    (hpd : .protectionDomain ∈ held) (hbuf : buf ∉ held) (hmr : mr ∉ insert buf held)
    (hneeds : ∀ d, buf ∈ needs d → d ∉ insert buf held) (hcalls : align ∉ slips ∧ reg ∉ slips)
    (hcleanup : ∀ v : World, v.Holds held → ledger needs (cleanup v).trace = some ∅) :
    Ends env [align, reg] (insert mr (insert buf held)) ((allocateBuf env buf mr align reg w).mapError cleanup) := by
  have hfilled : ((w.obtain buf).use [buf]).Holds (insert buf held) := (hw.obtain hbuf).use (by simp)
  have huse : (((w.obtain buf).use [buf]).use [.protectionDomain, buf]).Holds (insert buf held) :=
    hfilled.use (by simp [hpd])
  unfold allocateBuf create
  split
  case isFalse halign =>
    exact ⟨align,by simp [firstFailure, halign],settled_iff (hcleanup w hw) hcalls.1⟩
  case isTrue halign =>
    split
    case isTrue hreg => exact ⟨by simp [firstFailure, halign, hreg],huse.obtain hmr⟩
    case isFalse hreg =>
      have hfreed := (huse.clear hmr).free (Finset.mem_insert_self buf held) hneeds
      rw [Finset.erase_insert hbuf] at hfreed
      exact ⟨reg,by simp [firstFailure, halign, hreg],settled_iff (hcleanup _ hfreed) hcalls.2⟩

theorem rounds_holds (uses : List Resource) (hw : w.Holds held) (huses : ∀ r ∈ uses, r ∈ held) (n : Nat) :
    (rounds uses n w).Holds held := by
  induction n generalizing w with
  | zero => exact hw
  | succ n ih => exact ih (hw.use huses)

/-- The cleanup of all that is held but the result array. -/
theorem rdmaCleanup_leaves {rest : Finset Resource} (h : w.Holds held)
    (hcore : ∀ r ∈ unguarded, r ∈ held)
    (hrest : held ∩ {.deviceList, .result} = rest) : ledger needs (rdmaCleanup w).trace = some rest := by
  rw [rdmaCleanup_ledger h hcore, hrest]

theorem result_freed (h : w.Holds held) (hresult : .result ∈ held)
    (hcore : ∀ r ∈ unguarded, r ∈ held.erase .result)
    (hrest : held.erase .result ∩ {.deviceList, .result} = ∅) :
    ledger needs (rdmaCleanup (w.release .result)).trace = some ∅ :=
  rdmaCleanup_leaves (h.release hresult (by decide) (leaf_unneeded (by decide))) hcore hrest

def serverCalls : List Call := initCalls ++ [.alignBuffer, .regBuffer, .alignHeaderBuffer, .regHeaderBuffer,
  .mallocResult, .mallocScatterGather, .mallocRequests, .queryGid, .queryPortLid, .inetNtop]

def clientCalls : List Call := initCalls ++ [.alignBuffer, .regBuffer, .mallocResult, .mallocScatterGather,
  .mallocRequests, .modifyQpRts, .createAh]

def bufferHeld : Finset Resource := insert .memoryRegion (insert .buffer initHeld)

def serverHeld : Finset Resource := insert .recvRequests (insert .scatterGather (insert .result
  (insert .headerMemoryRegion (insert .headerBuffer bufferHeld))))

def clientHeld : Finset Resource :=
  insert .ah (insert .sendRequests (insert .scatterGather (insert .result bufferHeld)))

theorem rdmaInitServer_ends (env : Environment) (n : Nat) :
    Ends env serverCalls serverHeld (rdmaInitServer env n .start) := by
  unfold rdmaInitServer
  refine .bind (rdmaInit_ends env) fun w hw => ?_
  refine .bind (allocateBuf_ends hw (by decide) (by decide) (by decide) (by intro d; cases d <;> decide)
    (by decide) ?_) fun w hw => ?_
  · intro v hv
    exact internalRdmaCleanup_ledger hv.ledger (hv.assigned .ah (by decide)) (by decide) (by decide)
  refine .bind (allocateBuf_ends hw (by decide) (by decide) (by decide) (by intro d; cases d <;> decide)
    (by decide) ?_) fun w hw => ?_
  · intro v hv
    exact rdmaCleanup_leaves hv (by decide) (by decide)
  refine .bind (create_ends hw (by simp) (by decide) fun v hv =>
    settled_iff (rdmaCleanup_leaves hv (by decide) (by decide)) (by decide)) fun w hw => ?_
  refine .bind (create_ends hw (by simp) (by decide) fun v hv =>
    leaked_iff (rdmaCleanup_leaves hv (by decide) rfl) (by decide) (by decide)) fun w hw => ?_
  refine .bind (create_ends hw (by simp) (by decide) fun v hv =>
    leaked_iff (rdmaCleanup_leaves hv (by decide) rfl) (by decide) (by decide)) fun w hw => ?_
  have hround := rounds_holds [.result, .scatterGather, .headerMemoryRegion, .memoryRegion, .recvRequests] hw
    (by decide) n
  refine .bind (query_ends hround (by decide) fun v hv =>
    settled_iff (result_freed hv (by decide) (by decide) rfl) (by decide)) fun w hw => ?_
  refine .bind (query_ends hw (by decide) fun v hv =>
    settled_iff (result_freed hv (by decide) (by decide) rfl) (by decide)) fun w hw => ?_
  refine .bind (query_ends hw (by decide) fun v hv =>
    settled_iff (result_freed hv (by decide) (by decide) rfl) (by decide)) fun w hw => ?_
  exact ⟨rfl,hw.use (by decide)⟩

theorem rdmaInitClient_ends (env : Environment) (n : Nat) :
    Ends env clientCalls clientHeld (rdmaInitClient env n .start) := by
  unfold rdmaInitClient
  refine .bind (rdmaInit_ends env) fun w hw => ?_
  refine .bind (allocateBuf_ends hw (by decide) (by decide) (by decide) (by intro d; cases d <;> decide)
    (by decide) ?_) fun w hw => ?_
  · intro v hv
    exact internalRdmaCleanup_ledger hv.ledger (hv.assigned .ah (by decide)) (by decide) (by decide)
  refine .bind (create_ends hw (by simp) (by decide) fun v hv =>
    settled_iff (rdmaCleanup_leaves hv (by decide) (by decide)) (by decide)) fun w hw => ?_
  refine .bind (create_ends hw (by simp) (by decide) fun v hv =>
    leaked_iff (rdmaCleanup_leaves hv (by decide) rfl) (by decide) (by decide)) fun w hw => ?_
  refine .bind (create_ends hw (by simp) (by decide) fun v hv =>
    leaked_iff (rdmaCleanup_leaves hv (by decide) rfl) (by decide) (by decide)) fun w hw => ?_
  refine .bind (query_ends hw (by decide) fun v hv =>
    settled_iff (result_freed hv (by decide) (by decide) rfl) (by decide)) fun w hw => ?_
  refine .bind (create_ends hw (by decide) (by decide) fun v hv =>
    settled_iff (result_freed hv (by decide) (by decide) rfl) (by decide)) fun w hw => ?_
  exact ⟨rfl,rounds_holds _ hw (by decide) n⟩

section
variable {σ β : Type} {requests : Resource} {touches : Completion → Bool}

theorem loopUses_mem (s : Machine σ β) (e : Event) :
    ∀ r ∈ loopUses requests touches s e, r ∈ [requests, .queuePair, .completionQueue, .result, .buffer] := by
  cases e with
  | post | poll | stop | complete => simp [loopUses]
  | handle =>
    simp only [loopUses]
    cases s.point with
    | handle i =>
      dsimp only
      split <;> simp
    | firstPost | head | repost | cleanup => simp

/-- The loop acquires and releases nothing. -/
theorem loop_holds {program : Program σ} {n : Nat} {es : List Event} {s : Machine σ β} {c : Machine σ β × World}
    (hw : w.Holds held) (huses : ∀ r ∈ [requests, .queuePair, .completionQueue, .result, .buffer], r ∈ held)
    (h : run (usingStep program n requests touches) es (s, w) = some c) : c.2.Holds held := by
  refine run_invariant (I := fun _ c => c.2.Holds held) hw ?_ h
  intro es c e next _ hc hstep
  obtain ⟨t,-,rfl⟩ := Option.map_eq_some_iff.mp hstep
  exact hc.use (fun r hr => huses r (loopUses_mem c.1 e r hr))

/-- What main releases at its end. -/
theorem atCleanup_ledger {c : Machine σ β × World} {v : World} (h : atCleanup c = some v) (hw : c.2.Holds held)
    (hresult : .result ∈ held)
    (hcore : ∀ r ∈ unguarded, r ∈ held.erase .result)
    (hrest : held.erase .result ∩ {.deviceList, .result} = ∅) : ledger needs v.trace = some ∅ := by
  cases hpoint : c.1.point with
  | cleanup failed =>
    simp only [atCleanup, hpoint] at h
    obtain rfl := Option.some_inj.mp h
    exact result_freed hw hresult hcore hrest
  | firstPost | head | handle | repost => simp [atCleanup, hpoint] at h

/-- A set-up that stops has released everything unless it stopped at a slip; one that goes
on to the end of main always has. -/
theorem Ends.disciplined_iff {calls : List Call} {m : Except World World} {finish : World → Option World} {v : World}
    (hends : Ends env calls held m)
    (hfinish : ∀ w, w.Holds held → finish w = some v → ledger needs v.trace = some ∅)
    (h : (match m with | .error w => some w | .ok w => finish w) = some v) :
    Disciplined needs v.trace ↔ ∀ c, firstFailure env calls = some c → c ∉ slips := by
  rw [Foundations.ResourceLedger.disciplined_iff]
  cases m with
  | error w =>
    obtain rfl := Option.some_inj.mp h
    obtain ⟨c,hc,hledger⟩ := hends
    rw [hc, hledger]
    refine ⟨?_,fun hall => hall c rfl⟩
    rintro hslip _ ⟨⟩
    exact hslip
  | ok w =>
    obtain ⟨hnone,hw⟩ := hends
    rw [hnone]
    refine iff_of_true (hfinish w hw h) ?_
    rintro _ ⟨⟩

end

/-- However the calls are answered and whatever the loop does, the server and the client end
with every resource released once, in order and with nothing used afterwards, exactly if the
first failing call is none of the four. -/
theorem resources_disciplined_iff (env : Environment) (n : Nat) (region : Region) (target : SendTarget)
    (memory : Nat → Byte) (es : List Event) (w : World) :
    (serverEnd env n region memory es = some w →
      (Disciplined needs w.trace ↔ ∀ c, firstFailure env serverCalls = some c → c ∉ slips)) ∧
    (clientEnd env n region target memory es = some w →
      (Disciplined needs w.trace ↔ ∀ c, firstFailure env clientCalls = some c → c ∉ slips)) := by
  constructor
  · refine (rdmaInitServer_ends env n).disciplined_iff fun v hv hend => ?_
    obtain ⟨c,hrun,hc⟩ := Option.bind_eq_some_iff.mp hend
    exact atCleanup_ledger hc (loop_holds hv (by decide) hrun) (by decide) (by decide) rfl
  · refine (rdmaInitClient_ends env n).disciplined_iff fun v hv hend => ?_
    obtain ⟨c,hrun,hc⟩ := Option.bind_eq_some_iff.mp hend
    have hfilled := rounds_holds [.result, .buffer] hv (by decide) n
    exact atCleanup_ledger hc (loop_holds hfilled (by decide) hrun) (by decide) (by decide) rfl

/-- Both programs stopped at once, after a set-up without a failure. -/
theorem resources_disciplined_stopped :
    (∃ w, serverEnd ⟨fun _ => true, ["mlx5_0"], "mlx5_0"⟩ 1 ⟨0, 0⟩ (fun _ => 0) [.post 0 0, .stop] = some w ∧
      Disciplined needs w.trace) ∧
    ∃ w, clientEnd ⟨fun _ => true, ["mlx5_0"], "mlx5_0"⟩ 1 ⟨0, 0⟩ ⟨0, 0, 0⟩ (fun _ => 0) [.post 0 0, .stop] = some w ∧
      Disciplined needs w.trace := by
  have hiff := resources_disciplined_iff ⟨fun _ => true, ["mlx5_0"], "mlx5_0"⟩ 1 ⟨0, 0⟩ ⟨0, 0, 0⟩ (fun _ => 0)
    [.post 0 0, .stop]
  refine ⟨⟨_,rfl,((hiff _).1 rfl).mpr ?_⟩,⟨_,rfl,((hiff _).2 rfl).mpr ?_⟩⟩
  · rintro _ ⟨⟩
  · rintro _ ⟨⟩

/-- With the one device opened in vain, with no protection domain, and with no memory for
the scatter-gather entries or for the requests, both programs end undisciplined. -/
theorem resources_undisciplined : slips.Forall (fun c =>
    (∃ w, serverEnd ⟨fun d => d ≠ c, ["mlx5_0"], "mlx5_0"⟩ 1 ⟨0, 0⟩ (fun _ => 0) [] = some w ∧
      ¬ Disciplined needs w.trace) ∧
    ∃ w, clientEnd ⟨fun d => d ≠ c, ["mlx5_0"], "mlx5_0"⟩ 1 ⟨0, 0⟩ ⟨0, 0, 0⟩ (fun _ => 0) [] = some w ∧
      ¬ Disciplined needs w.trace) := by
  simp only [slips, List.Forall, disciplined_iff]
  refine ⟨?_,?_,?_,?_⟩
  all_goals exact ⟨⟨_,rfl,by decide⟩,⟨_,rfl,by decide⟩⟩

end IbverbPrototype.Rdma
