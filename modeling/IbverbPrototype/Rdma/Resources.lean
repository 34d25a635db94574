import IbverbPrototype.Foundations.ResourceLedger
import IbverbPrototype.Rdma.CompletionLoop
import IbverbPrototype.Rdma.Programs

/-! The set-up of the client and of the server and their cleanup: what is acquired, used and
released, for any outcome of the calls to the device and to the allocator. -/
namespace IbverbPrototype.Rdma
open Foundations.ByteOrder Foundations.EventSystem Foundations.ResourceLedger

inductive Resource where
  | deviceList
  | context
  | protectionDomain
  | completionQueue
  | queuePair
  | buffer
  | memoryRegion
  | headerBuffer
  | headerMemoryRegion
  | result
  | scatterGather
  | recvRequests
  | sendRequests
  | ah
  deriving DecidableEq

/-- What must still be there when a resource is released. -/
def needs : Resource → List Resource
  | .protectionDomain | .completionQueue => [.context]
  | .queuePair => [.protectionDomain, .completionQueue]
  | .memoryRegion => [.protectionDomain, .buffer]
  | .headerMemoryRegion => [.protectionDomain, .headerBuffer]
  | .ah => [.protectionDomain]
  | .deviceList | .context | .buffer | .headerBuffer | .result | .scatterGather | .recvRequests | .sendRequests => []

/-- The places where the set-up can fail. -/
inductive Call where
  | getDeviceList
  | getDeviceName
  | openDevice
  | queryPort
  | allocPd
  | createCq
  | createQp
  | modifyQpInit
  | modifyQpRtr
  | alignBuffer
  | regBuffer
  | alignHeaderBuffer
  | regHeaderBuffer
  | mallocResult
  | mallocScatterGather
  | mallocRequests
  | queryGid
  | queryPortLid
  | inetNtop
  | modifyQpRts
  | createAh
  deriving DecidableEq

/-- How each call is answered, the names of the devices found, and the name asked for. -/
structure Environment where
  answers : Call → Bool
  devices : List String
  devName : String

def Environment.passes (env : Environment) (c : Call) : Bool :=
  if c = .getDeviceName then env.devices.contains env.devName else env.answers c

/-- Which variables are not NULL, and what was done so far. -/
structure World where
  assigned : Resource → Bool
  trace : List (Action Resource)

def World.start : World := ⟨fun _ => false, []⟩

def World.obtain (w : World) (r : Resource) : World :=
  ⟨Function.update w.assigned r true, w.trace ++ [.acquire r]⟩

/-- The variable is set to NULL. -/
def World.clear (w : World) (r : Resource) : World := { w with assigned := Function.update w.assigned r false }

def World.use (w : World) (rs : List Resource) : World := { w with trace := w.trace ++ rs.map .use }

def World.release (w : World) (r : Resource) : World := { w with trace := w.trace ++ [.release r] }

def World.releaseIf (w : World) (r : Resource) : World := if w.assigned r then w.release r else w

/-- A call that gives back nothing to release, and where the program goes if it fails. -/
def query (env : Environment) (c : Call) (uses : List Resource) (failed : World → World) (w : World) :
    Except World World :=
  if env.passes c then .ok (w.use uses) else .error (failed (w.use uses))

/-- A call whose result is a resource, or NULL. -/
def create (env : Environment) (c : Call) (uses : List Resource) (r : Resource) (failed : World → World) (w : World) :
    Except World World :=
  if env.passes c then .ok ((w.use uses).obtain r) else .error (failed ((w.use uses).clear r))

/-- The loop over the list, each round a look at an entry and one at its name. -/
def findDevice (devName : String) : List String → World → Bool × World
  | [], w => (false, w.use [.deviceList])
  | name::rest, w =>
    if name = devName then (true, w.use [.deviceList, .deviceList])
    else findDevice devName rest (w.use [.deviceList, .deviceList])

/-- Without a device of the name the list is freed and the program ends. -/
def searchDevice (env : Environment) (w : World) : Except World World :=
  let search := findDevice env.devName env.devices w
  if search.1 then .ok search.2 else .error (search.2.release .deviceList)

-- the labels of rdma_init, each falling through to the next
def cleanContext (w : World) : World := w

def cleanDevice (w : World) : World := cleanContext (w.release .context)

def cleanProtectionDomain (w : World) : World := cleanDevice (w.release .protectionDomain)

def cleanCompletionQueue (w : World) : World := cleanProtectionDomain (w.release .completionQueue)

def cleanQueuePair (w : World) : World := cleanCompletionQueue (w.release .queuePair)

/-- The list is freed before the result is looked at, and on failure an entry of it is used. -/
def openDevice (env : Environment) (w : World) : Except World World :=
  let w := w.use [.deviceList]
  if env.passes .openDevice then .ok ((w.obtain .context).release .deviceList)
  else .error (cleanContext (((w.clear .context).release .deviceList).use [.deviceList]))

def rdmaInit (env : Environment) (w : World) : Except World World := do
  let w ← create env .getDeviceList [] .deviceList id w
  let w ← searchDevice env w
  let w ← openDevice env w
  let w ← query env .queryPort [.context] cleanDevice w
  let w ← create env .allocPd [.context] .protectionDomain cleanContext w
  let w ← create env .createCq [.context] .completionQueue cleanProtectionDomain w
  let w ← create env .createQp [.protectionDomain, .completionQueue] .queuePair cleanCompletionQueue w
  -- the queue pair is queried for its capacities on the way
  let w ← query env .modifyQpInit [.queuePair, .queuePair] cleanQueuePair w
  query env .modifyQpRtr [.queuePair] cleanQueuePair w

/-- The error is the return of 1 to the caller, the buffer freed again. -/
def allocateBuf (env : Environment) (buf mr : Resource) (align reg : Call) (w : World) : Except World World :=
  if env.passes align then
    create env reg [.protectionDomain, buf] mr (fun w => (w.release buf).clear buf) ((w.obtain buf).use [buf])
  else .error w

def internalRdmaCleanup (w : World) : World :=
  ((((w.releaseIf .ah).release .queuePair).release .completionQueue).release .protectionDomain).release .context

def rdmaCleanup (w : World) : World :=
  let w := ((w.release .memoryRegion).release .buffer).releaseIf .headerMemoryRegion
  let w := ((w.releaseIf .headerBuffer).releaseIf .scatterGather).releaseIf .recvRequests
  internalRdmaCleanup (w.releaseIf .sendRequests)

/-- The uses of one round of a loop, for each of its rounds. -/
def rounds (uses : List Resource) : Nat → World → World
  | 0, w => w
  | n+1, w => rounds uses n (w.use uses)

def rdmaInitServer (env : Environment) (completionQueueSize : Nat) (w : World) : Except World World := do
  let w ← rdmaInit env w
  let w ← (allocateBuf env .buffer .memoryRegion .alignBuffer .regBuffer w).mapError internalRdmaCleanup
  let w ←
    (allocateBuf env .headerBuffer .headerMemoryRegion .alignHeaderBuffer .regHeaderBuffer w).mapError rdmaCleanup
  let w ← create env .mallocResult [] .result rdmaCleanup w
  let w ← create env .mallocScatterGather [] .scatterGather rdmaCleanup w
  let w ← create env .mallocRequests [] .recvRequests rdmaCleanup w
  let w := rounds [.result, .scatterGather, .headerMemoryRegion, .memoryRegion, .recvRequests] completionQueueSize w
  let w ← query env .queryGid [.context] (fun w => rdmaCleanup (w.release .result)) w
  let w ← query env .queryPortLid [.context] (fun w => rdmaCleanup (w.release .result)) w
  let w ← query env .inetNtop [] (fun w => rdmaCleanup (w.release .result)) w
  .ok (w.use [.queuePair])

def rdmaInitClient (env : Environment) (completionQueueSize : Nat) (w : World) : Except World World := do
  let w ← rdmaInit env w
  let w ← (allocateBuf env .buffer .memoryRegion .alignBuffer .regBuffer w).mapError internalRdmaCleanup
  let w ← create env .mallocResult [] .result rdmaCleanup w
  let w ← create env .mallocScatterGather [] .scatterGather rdmaCleanup w
  let w ← create env .mallocRequests [] .sendRequests rdmaCleanup w
  let w ← query env .modifyQpRts [.queuePair] (fun w => rdmaCleanup (w.release .result)) w
  let w ← create env .createAh [.protectionDomain] .ah (fun w => rdmaCleanup (w.release .result)) w
  .ok (rounds [.result, .scatterGather, .memoryRegion, .sendRequests, .ah] completionQueueSize w)

variable {σ β : Type}

/-- What a step of the loop uses: a post its requests and the queue pair, a poll the
completion queue, a completion the buffer it names, when the program gets to it. -/
def loopUses (requests : Resource) (touches : Completion → Bool) (s : Machine σ β) : Event → List Resource
  | .post .. => [requests, .queuePair]
  | .poll _ => [.completionQueue]
  | .handle =>
    match s.point with
    | .handle i => if (s.batch[i]?.map touches).getD false then [.result, .buffer] else []
    | .firstPost | .head | .repost | .cleanup _ => []
  | .stop | .complete .. => []

/-- The loop together with what it uses. -/
def usingStep (program : Program σ) (n : Nat) (requests : Resource) (touches : Completion → Bool)
    (c : Machine σ β × World) (e : Event) : Option (Machine σ β × World) :=
  (step program n c.1 e).map (fun t => (t, c.2.use (loopUses requests touches c.1 e)))

/-- What main does at its label, once the loop is left. -/
def atCleanup (c : Machine σ β × World) : Option World :=
  match c.1.point with
  | .cleanup _ => some (rdmaCleanup (c.2.release .result))
  | .firstPost | .head | .handle _ | .repost => none

/-- The server reads the buffer of every completion, before its status is looked at. -/
def serverEnd (env : Environment) (n : Nat) (region : Region) (memory : Nat → Byte) (es : List Event) :
    Option World :=
  match rdmaInitServer env n .start with
  | .error w => some w
  | .ok w => (run (usingStep (serverProgram region) n .recvRequests (fun _ => true)) es
      (serverStart n memory, w)).bind atCleanup

/-- The client fills its buffers, and refills that of a completion that succeeded. -/
def clientEnd (env : Environment) (n : Nat) (region : Region) (target : SendTarget) (memory : Nat → Byte)
    (es : List Event) : Option World :=
  match rdmaInitClient env n .start with
  | .error w => some w
  | .ok w => (run (usingStep (clientProgram region) n .sendRequests (fun wc => wc.status = ibvWcSuccess)) es
      (clientStart n region target memory, rounds [.result, .buffer] n w)).bind atCleanup

end IbverbPrototype.Rdma
