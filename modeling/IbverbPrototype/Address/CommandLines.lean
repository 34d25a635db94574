import IbverbPrototype.Address.LocalLookup
import IbverbPrototype.Rdma.GidHandoff

/-! The way of an address from the command line into the packets: the lookups and parsers of
the three programs, each call free to fail as its contract allows. -/
namespace IbverbPrototype.Address
open Foundations.ByteOrder Foundations.Halting

/-- One behaviour of the system. A parser that rejects its text gives nothing back; the texts
written into the program are well formed. -/
structure Library where
  sigaction : Bool
  getifaddrs : Option (List IfAddr)
  getaddrinfo : String → Option (BitVec 32)
  socket : Bool
  siocgarp : String → BitVec 32 → Option (Vector Byte 6)
  etherAton : String → Option (Vector Byte 6)
  inetPtonInet : String → Option (BitVec 32)
  inetPtonInet6 : String → Option (Vector Byte 16)
  ifNametoindex : String → BitVec 32
  atoi : String → BitVec 32
  ownMac : etherAton "04:3f:72:d4:2f:7c" = some #v[0x04, 0x3f, 0x72, 0xd4, 0x2f, 0x7c]
  ownIpv4 : inetPtonInet "10.149.5.104" = some 0x6805950a
  ownGid : inetPtonInet6 "fe80::63f:72ff:fed4:2f7c" =
    some #v[0xfe, 0x80, 0, 0, 0, 0, 0, 0, 0x06, 0x3f, 0x72, 0xff, 0xfe, 0xd4, 0x2f, 0x7c]

/-- A failing getaddrinfo is reported, and its result is used all the same. -/
def lookupRemoteAddr (lib : Library) (interface host : String) (ipv6 : Option String) :
    Except (Halt Failure) Addr := do
  let ipv4 ← deref (lib.getaddrinfo host)
  require lib.socket .socket
  let mac ← orExit (lib.siocgarp interface ipv4) .ioctl
  .ok ⟨mac, ipv4, (ipv6.bind lib.inetPtonInet6).getD zeroAddr.ipv6⟩

/-- What the two inet_pton calls reject stays zero. -/
def addrFromStrings (lib : Library) (mac ipv4 gid : String) : Except (Halt Failure) Addr := do
  let ethAddr ← deref (lib.etherAton mac)
  .ok ⟨ethAddr, (lib.inetPtonInet ipv4).getD zeroAddr.ipv4, (lib.inetPtonInet6 gid).getD zeroAddr.ipv6⟩

/-- The command lines of raw_ibverbs. -/
inductive RawForm where
  | host (ifname ipv4 gid queuePair : String)
  | fpga (mac ipv4 gid queuePair : String)
  | fpgaBoth (localMac localIpv4 localGid mac ipv4 gid queuePair : String)

def rawForm : List String → Option RawForm
  | [_, form, a, b, c] => if form = "host" then some (.host "eth4" a b c) else none
  | [_, form, a, b, c, d] =>
    if form = "host" then some (.host d a b c) else if form = "fpga" then some (.fpga a b c d) else none
  | [_, form, a, b, c, d, e, f, g] => if form = "fpga" then some (.fpgaBoth a b c d e f g) else none
  | _ => none

/-- What init_invariant_headers is called with. -/
structure RawStart where
  localAddr : Addr
  remote : Addr
  queuePair : BitVec 32
  useFpga : Bool

def rawAddresses (lib : Library) : RawForm → Except (Halt Failure) RawStart
  | .host ifname ipv4 gid queuePair => do
    let localAddr ← lookupLocalAddr ifname lib.getifaddrs
    let remote ← lookupRemoteAddr lib ifname ipv4 (some gid)
    require (lib.ifNametoindex ifname ≠ 0) .interfaceIndex
    .ok ⟨localAddr, remote, lib.atoi queuePair, false⟩
  | .fpga mac ipv4 gid queuePair => do
    let localAddr ← addrFromStrings lib "04:3f:72:d4:2f:7c" "10.149.5.104" "fe80::63f:72ff:fed4:2f7c"
    let remote ← addrFromStrings lib mac ipv4 gid
    .ok ⟨localAddr, remote, lib.atoi queuePair, true⟩
  | .fpgaBoth localMac localIpv4 localGid mac ipv4 gid queuePair => do
    let localAddr ← addrFromStrings lib localMac localIpv4 localGid
    let remote ← addrFromStrings lib mac ipv4 gid
    .ok ⟨localAddr, remote, lib.atoi queuePair, true⟩

/-- raw_ibverbs up to its headers. -/
def rawIbverbs (lib : Library) (argv : List String) : Except (Halt Failure) RawStart := do
  require lib.sigaction .signalHandler
  let form ← orExit (rawForm argv) .usage
  rawAddresses lib form

/-- The command line of raw_udp. -/
structure UdpForm where
  port : String
  host : String
  ifname : String

def udpForm : List String → Option UdpForm
  | [_, port, host] => some ⟨port, host, "eth4"⟩
  | [_, port, host, ifname] => some ⟨port, host, ifname⟩
  | _ => none

structure UdpStart where
  localAddr : Addr
  remote : Addr
  port : BitVec 32

/-- raw_udp up to its headers. -/
def rawUdp (lib : Library) (argv : List String) : Except (Halt Failure) UdpStart := do
  require lib.sigaction .signalHandler
  let form ← orExit (udpForm argv) .usage
  let localAddr ← lookupLocalAddr form.ifname lib.getifaddrs
  let remote ← lookupRemoteAddr lib form.ifname form.host none
  require (lib.ifNametoindex form.ifname ≠ 0) .interfaceIndex
  .ok ⟨localAddr, remote, lib.atoi form.port⟩

/-- The command line of rdma_client. -/
structure ClientForm where
  driver : String
  gid : String
  lid : String
  qpn : String

def clientForm : List String → Option ClientForm
  | [_, driver, gid, lid, qpn] => some ⟨driver, gid, lid, qpn⟩
  | _ => none

structure ClientCall where
  devName : String
  lid : BitVec 32
  gid : Vector Byte 16
  qpn : BitVec 32

/-- rdma_client up to rdma_init_client, the variable of the GID holding anything at first. -/
def rdmaClient (lib : Library) (gid : Vector Byte 16) (argv : List String) : Except (Halt Failure) ClientCall := do
  let form ← orExit (clientForm argv) .usage
  let parsed := (lib.inetPtonInet6 form.gid).getD gid
  require lib.sigaction .signalHandler
  .ok ⟨form.driver, lib.atoi form.lid, parsed, lib.atoi form.qpn⟩

/-- An address is what the parsers make of its three texts. -/
structure FromStrings (lib : Library) (mac ipv4 gid : String) (addr : Addr) : Prop where
  mac : lib.etherAton mac = some addr.mac
  ipv4 : lib.inetPtonInet ipv4 = some addr.ipv4
  ipv6 : lib.inetPtonInet6 gid = some addr.ipv6

/-- What was resolved for a host, and its hardware address. -/
structure Resolved (lib : Library) (interface host : String) (addr : Addr) : Prop where
  ipv4 : lib.getaddrinfo host = some addr.ipv4
  mac : lib.siocgarp interface addr.ipv4 = some addr.mac

/-- Every address the user gave is the parsed or resolved one. -/
def RawForm.Parsed (lib : Library) (start : RawStart) : RawForm → Prop
  | .host ifname ipv4 gid _ =>
    Resolved lib ifname ipv4 start.remote ∧ lib.inetPtonInet6 gid = some start.remote.ipv6
  | .fpga mac ipv4 gid _ => FromStrings lib mac ipv4 gid start.remote
  | .fpgaBoth localMac localIpv4 localGid mac ipv4 gid _ =>
    FromStrings lib localMac localIpv4 localGid start.localAddr ∧ FromStrings lib mac ipv4 gid start.remote

def UdpForm.Parsed (lib : Library) (start : UdpStart) (form : UdpForm) : Prop :=
  Resolved lib form.ifname form.host start.remote

def ClientForm.Parsed (lib : Library) (call : ClientCall) (form : ClientForm) : Prop :=
  lib.inetPtonInet6 form.gid = some call.gid

/-- The three texts of an address are well formed. -/
structure StringsAccepted (lib : Library) (mac ipv4 gid : String) : Prop where
  mac : lib.etherAton mac ≠ none
  ipv4 : lib.inetPtonInet ipv4 ≠ none
  gid : lib.inetPtonInet6 gid ≠ none

/-- The interface is listed with addresses only and the host resolves; given is what is asked
of the rest unless a call that is checked stops the program. -/
def LookupAccepted (lib : Library) (interface host : String) (rest : Prop) : Prop :=
  ∀ entries, lib.getifaddrs = some entries → Addressed interface entries ∧
    ∃ ipv4, lib.getaddrinfo host = some ipv4 ∧
      (lib.socket = true → lib.siocgarp interface ipv4 ≠ none → lib.ifNametoindex interface ≠ 0 → rest)

def RawForm.Accepted (lib : Library) : RawForm → Prop
  | .host ifname ipv4 gid _ => LookupAccepted lib ifname ipv4 (lib.inetPtonInet6 gid ≠ none)
  | .fpga mac ipv4 gid _ => StringsAccepted lib mac ipv4 gid
  | .fpgaBoth localMac localIpv4 localGid mac ipv4 gid _ =>
    StringsAccepted lib localMac localIpv4 localGid ∧ StringsAccepted lib mac ipv4 gid

def UdpForm.Accepted (lib : Library) (form : UdpForm) : Prop := LookupAccepted lib form.ifname form.host True

def ClientForm.Accepted (lib : Library) (form : ClientForm) : Prop := lib.inetPtonInet6 form.gid ≠ none

/-- A default stands in for a value exactly where there is none. -/
theorem eq_some_getD {α : Type} (parsed : Option α) (before : α) :
    parsed = some (parsed.getD before) ↔ parsed ≠ none := by
  cases parsed <;> simp

theorem safe_lookupRemoteAddr (post : Addr → Prop) (lib : Library) (interface host : String) (ipv6 : Option String) :
    Safe post (lookupRemoteAddr lib interface host ipv6) ↔
      ∃ ipv4, lib.getaddrinfo host = some ipv4 ∧ (lib.socket = true → ∀ mac, lib.siocgarp interface ipv4 = some mac →
        post ⟨mac, ipv4, (ipv6.bind lib.inetPtonInet6).getD zeroAddr.ipv6⟩) := by
  simp only [lookupRemoteAddr, safe_bind, safe_deref, safe_require, safe_orExit, safe_ok]

theorem safe_addrFromStrings (post : Addr → Prop) (lib : Library) (mac ipv4 gid : String) :
    Safe post (addrFromStrings lib mac ipv4 gid) ↔ ∃ ethAddr, lib.etherAton mac = some ethAddr ∧
      post ⟨ethAddr, (lib.inetPtonInet ipv4).getD zeroAddr.ipv4, (lib.inetPtonInet6 gid).getD zeroAddr.ipv6⟩ := by
  simp only [addrFromStrings, safe_bind, safe_deref, safe_ok]

/-- An address from strings is the parsed one if nothing was rejected. -/
theorem fromStrings_iff {lib : Library} {mac ipv4 gid : String} {ethAddr : Vector Byte 6}
    (hmac : lib.etherAton mac = some ethAddr) :
    FromStrings lib mac ipv4 gid
        ⟨ethAddr, (lib.inetPtonInet ipv4).getD zeroAddr.ipv4, (lib.inetPtonInet6 gid).getD zeroAddr.ipv6⟩ ↔
      StringsAccepted lib mac ipv4 gid := by
  constructor
  · rintro ⟨-,hipv4,hgid⟩
    exact ⟨by rw [hmac]; exact Option.some_ne_none _,(eq_some_getD _ _).mp hipv4,(eq_some_getD _ _).mp hgid⟩
  · rintro ⟨-,hipv4,hgid⟩
    exact ⟨hmac,(eq_some_getD _ _).mpr hipv4,(eq_some_getD _ _).mpr hgid⟩

/-- The strings of one address, the rest of the program depending on it. -/
theorem safe_fromStrings {lib : Library} {mac ipv4 gid : String} {post : Addr → Prop} {rest : Prop}
    (hpost : ∀ addr, lib.etherAton mac = some addr.mac → (post addr ↔ FromStrings lib mac ipv4 gid addr ∧ rest)) :
    Safe post (addrFromStrings lib mac ipv4 gid) ↔ StringsAccepted lib mac ipv4 gid ∧ rest := by
  rw [safe_addrFromStrings]
  constructor
  · rintro ⟨ethAddr,hmac,haddr⟩
    obtain ⟨hparsed,hrest⟩ := (hpost _ hmac).mp haddr
    exact ⟨(fromStrings_iff hmac).mp hparsed,hrest⟩
  · rintro ⟨haccepted,hrest⟩
    obtain ⟨ethAddr,hmac⟩ := Option.ne_none_iff_exists'.mp haccepted.mac
    exact ⟨ethAddr,hmac,(hpost _ hmac).mpr ⟨(fromStrings_iff hmac).mpr haccepted,hrest⟩⟩

/-- Both lookups of an interface and a host. -/
theorem safe_lookups {lib : Library} {interface host : String} {ipv6 : Option String} {rest : Prop}
    {post : Addr → Addr → Prop}
    (hpost : ∀ localAddr mac ipv4, lib.getaddrinfo host = some ipv4 → lib.siocgarp interface ipv4 = some mac →
      (post localAddr ⟨mac, ipv4, (ipv6.bind lib.inetPtonInet6).getD zeroAddr.ipv6⟩ ↔
        (lib.ifNametoindex interface ≠ 0 → rest))) :
    Safe (fun localAddr => Safe (post localAddr) (lookupRemoteAddr lib interface host ipv6))
      (lookupLocalAddr interface lib.getifaddrs) ↔ LookupAccepted lib interface host rest := by
  rw [safe_lookupLocalAddr, LookupAccepted]
  refine forall₂_congr (fun entries hentries => and_congr_right (fun haddressed => ?_))
  rw [safe_lookupRemoteAddr]
  refine exists_congr (fun ipv4 => and_congr_right (fun hipv4 => imp_congr_right (fun hsocket => ?_)))
  constructor
  · intro h hmac
    obtain ⟨mac,hmac⟩ := Option.ne_none_iff_exists'.mp hmac
    exact (hpost _ mac ipv4 hipv4 hmac).mp (h mac hmac)
  · intro h mac hmac
    exact (hpost _ mac ipv4 hipv4 hmac).mpr (h (by rw [hmac]; exact Option.some_ne_none mac))

theorem rawAddresses_safe (lib : Library) (form : RawForm) :
    Safe (fun start => form.Parsed lib start) (rawAddresses lib form) ↔ form.Accepted lib := by
  cases form with
  | host ifname ipv4 gid queuePair =>
    simp only [rawAddresses, safe_bind]
    refine safe_lookups (fun localAddr mac addr hipv4 hmac => ?_)
    simp only [safe_require, decide_eq_true_eq, safe_ok, RawForm.Parsed, Option.bind_some, eq_some_getD]
    exact imp_congr_right (fun _ => and_iff_right ⟨hipv4,hmac⟩)
  | fpga mac ipv4 gid queuePair =>
    simp only [rawAddresses, safe_bind]
    rw [safe_addrFromStrings, lib.ownMac]
    simp only [Option.some.injEq, exists_eq_left']
    have hstrings : Safe (FromStrings lib mac ipv4 gid) (addrFromStrings lib mac ipv4 gid) ↔
        StringsAccepted lib mac ipv4 gid ∧ True := safe_fromStrings (fun _ _ => (and_iff_left trivial).symm)
    exact hstrings.trans (and_iff_left trivial)
  | fpgaBoth localMac localIpv4 localGid mac ipv4 gid queuePair =>
    simp only [rawAddresses, safe_bind]
    refine safe_fromStrings (fun localAddr _ => ?_)
    rw [and_comm]
    exact safe_fromStrings (fun addr _ => and_comm)

theorem rawIbverbs_safe (lib : Library) (argv : List String) :
    Safe (fun start => ∀ form, rawForm argv = some form → form.Parsed lib start) (rawIbverbs lib argv) ↔
      (lib.sigaction = true → ∀ form, rawForm argv = some form → form.Accepted lib) := by
  simp only [rawIbverbs, safe_bind, safe_require, safe_orExit]
  refine imp_congr_right (fun _ => forall₂_congr (fun form hform => ?_))
  simp only [hform, Option.some.injEq, forall_eq']
  exact rawAddresses_safe lib form

theorem rawUdp_safe (lib : Library) (argv : List String) :
    Safe (fun start => ∀ form, udpForm argv = some form → form.Parsed lib start) (rawUdp lib argv) ↔
      (lib.sigaction = true → ∀ form, udpForm argv = some form → form.Accepted lib) := by
  simp only [rawUdp, safe_bind, safe_require, safe_orExit]
  refine imp_congr_right (fun _ => forall₂_congr (fun form hform => ?_))
  simp only [hform, Option.some.injEq, forall_eq', safe_ok]
  refine safe_lookups (fun localAddr mac addr hipv4 hmac => ?_)
  exact iff_of_true (fun _ => ⟨hipv4,hmac⟩) (fun _ => trivial)

theorem rdmaClient_safe (lib : Library) (gid : Vector Byte 16) (argv : List String) :
    Safe (fun call => ∀ form, clientForm argv = some form → form.Parsed lib call) (rdmaClient lib gid argv) ↔
      (lib.sigaction = true → ∀ form, clientForm argv = some form → form.Accepted lib) := by
  simp only [rdmaClient, safe_bind, safe_require, safe_orExit, safe_ok]
  constructor
  · intro h hsigaction form hform
    exact (eq_some_getD _ _).mp (h form hform hsigaction form hform)
  · intro h form hform hsigaction form' hform'
    obtain rfl := Option.some_inj.mp (hform.symm.trans hform')
    exact (eq_some_getD _ _).mpr (h hsigaction form hform)

inductive Program where
  | rawIbverbs
  | rawUdp
  | rdmaClient
  deriving DecidableEq

/-- A program comes to its packets with the parsed and resolved addresses only, or stops before;
nothing NULL or unset is used on the way. -/
def RejectsAddresses (lib : Library) (gid : Vector Byte 16) (argv : List String) : Program → Prop
  | .rawIbverbs => Safe (fun start => ∀ form, rawForm argv = some form → form.Parsed lib start) (rawIbverbs lib argv)
  | .rawUdp => Safe (fun start => ∀ form, udpForm argv = some form → form.Parsed lib start) (rawUdp lib argv)
  | .rdmaClient =>
    Safe (fun call => ∀ form, clientForm argv = some form → form.Parsed lib call) (rdmaClient lib gid argv)

/-- On a command line of the program's own forms every call whose answer is not looked at succeeds. -/
def Accepts (lib : Library) (argv : List String) : Program → Prop
  | .rawIbverbs => lib.sigaction = true → ∀ form, rawForm argv = some form → form.Accepted lib
  | .rawUdp => lib.sigaction = true → ∀ form, udpForm argv = some form → form.Accepted lib
  | .rdmaClient => lib.sigaction = true → ∀ form, clientForm argv = some form → form.Accepted lib

/-- A system that reads GIDs, and of other texts the program's own. -/
def plainLibrary : Library where
  sigaction := true
  getifaddrs := some []
  getaddrinfo _ := none
  socket := true
  siocgarp _ _ := none
  etherAton text :=
    if text = "04:3f:72:d4:2f:7c" then some #v[0x04, 0x3f, 0x72, 0xd4, 0x2f, 0x7c] else none
  inetPtonInet text := if text = "10.149.5.104" then some 0x6805950a else none
  inetPtonInet6 text := Rdma.inetPton text.toList
  ifNametoindex _ := 0
  atoi _ := 0
  ownMac := rfl
  ownIpv4 := rfl
  ownGid := by decide +kernel

end IbverbPrototype.Address
