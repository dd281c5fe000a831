import OncRpc.Rpcbind.Startup

/-! `check_bound.c`, and `addrmerge` of `util.c`: under which address a client is told to
reach a service. An answer is `none` on the outside where the code leaves its data, and
`some none` where it returns NULL. -/
namespace OncRpc

/-- `struct ifaddrs`, with `IFF_UP` and `IFF_LOOPBACK` of its flags. -/
structure Ifaddrs where
  up : Bool
  loopback : Bool
  ifaAddr : Option (List UInt8)
  ifaNetmask : Option (List UInt8)
  deriving DecidableEq, Repr

/-- `IP_ADAPTER_ADDRESSES`. -/
structure Adapter where
  /-- `IfType & IF_TYPE_SOFTWARE_LOOPBACK`. -/
  loopback : Bool
  /-- `OperStatus == IfOperStatusUp`. -/
  up : Bool
  /-- The unicast addresses, and whether they are transient or deprecated. -/
  unicast : List (Bool × List UInt8)
  deriving DecidableEq, Repr

/-- What `getifaddrs` makes of one adapter. It never stores a netmask. -/
def Adapter.ifaddrs (adapter : Adapter) : List Ifaddrs :=
  let ifa (addr : Option (List UInt8)) : Ifaddrs :=
    { up := adapter.up, loopback := adapter.loopback, ifaAddr := addr, ifaNetmask := none }
  match if adapter.up then adapter.unicast.filter fun cur => !cur.1 else [] with
  | [] => [ifa none]
  | added => added.map fun cur => ifa (some cur.2)

/-- `getifaddrs`. -/
def getifaddrs (adapters : Option (List Adapter)) : Option (List Ifaddrs) :=
  adapters.map fun adapters => adapters.flatMap Adapter.ifaddrs

/-- `bitmaskcmp`: whether the addresses differ under the mask. -/
def bitmaskcmp (dst src mask : List UInt8) : Bool :=
  (List.zip mask (List.zip dst src)).any fun b => decide (b.1 &&& b.2.1 ≠ b.1 &&& b.2.2)

/-- `IN6_IS_ADDR_LINKLOCAL`. -/
def in6IsAddrLinklocal (addr : List UInt8) : Bool :=
  decide (addr[0]? = some 0xfe) && (addr[1]?).any fun b => decide (b &&& 0xc0 = 0x80)

/-- What a look at one interface comes to. -/
inductive Look where
  | passed
  | examined
  | found
  | freeit
  deriving DecidableEq, Repr

/-- An interface of a caller over IPv4. -/
def lookInet (clntSa ifaAddr : List UInt8) (ifaNetmask : Option (List UInt8)) : Option Look := do
  let sinmask ← ifaNetmask
  let ifsin ← Sockaddr.sinAddr ifaAddr
  let clntsin ← Sockaddr.sinAddr clntSa
  let mask ← Sockaddr.sinAddr sinmask
  pure (if bitmaskcmp ifsin clntsin mask then .examined else .found)

/-- Whether the interface, the caller, and the address it wants us to have are link-local. -/
def allLinkLocal (clnt clntSa ifaAddr : List UInt8) : Option Bool := do
  if in6IsAddrLinklocal (← Sockaddr.sin6Addr ifaAddr) then
    if in6IsAddrLinklocal (← Sockaddr.sin6Addr clnt) then
      pure (in6IsAddrLinklocal (← Sockaddr.sin6Addr clntSa))
    else pure false
  else pure false

/-- An interface of a caller over IPv6. -/
def lookInet6 (clnt clntSa ifaAddr : List UInt8) (ifaNetmask : Option (List UInt8)) :
    Option Look := do
  if ← allLinkLocal clnt clntSa ifaAddr then
    let ifScope ← Sockaddr.sin6ScopeId ifaAddr
    let realScope ← Sockaddr.sin6ScopeId clnt
    pure (if ifScope ≠ realScope then .examined else .found)
  else
    let sin6mask ← ifaNetmask
    let ifsin6 ← Sockaddr.sin6Addr ifaAddr
    let clntsin6 ← Sockaddr.sin6Addr clntSa
    let mask ← Sockaddr.sin6Addr sin6mask
    pure (if bitmaskcmp ifsin6 clntsin6 mask then .examined else .found)

/-- The body of the first loop over the interfaces in `addrmerge`. -/
def addrmergeLook (clnt clntSa : List UInt8) (ifap : Ifaddrs) : Option Look := do
  let ifaAddr ← ifap.ifaAddr
  let ifFamily ← Sockaddr.family ifaAddr
  let family ← Sockaddr.family clnt
  if ifFamily ≠ family ∨ ifap.up = false then pure .passed
  else if family = afInet then lookInet clntSa ifaAddr ifap.ifaNetmask
  else if family = afInet6 then lookInet6 clnt clntSa ifaAddr ifap.ifaNetmask
  else pure .freeit

/-- How the first loop ends: at an interface, behind the last one, or at `freeit`. The last
interface that was examined is what `ifsin6` then points to. -/
inductive Search where
  | found (ifap : Ifaddrs) (examined : Option (List UInt8))
  | exhausted (examined : Option (List UInt8))
  | freeit
  deriving DecidableEq, Repr

def addrmergeSearch (clnt clntSa : List UInt8) (examined : Option (List UInt8)) :
    List Ifaddrs → Option Search
  | [] => some (.exhausted examined)
  | ifap :: rest =>
      match addrmergeLook clnt clntSa ifap with
      | none => none
      | some .passed => addrmergeSearch clnt clntSa examined rest
      | some .examined => addrmergeSearch clnt clntSa ifap.ifaAddr rest
      | some .found => some (.found ifap ifap.ifaAddr)
      | some .freeit => some .freeit

/-- The second loop: `bestif`. -/
def addrmergeBestif (clnt : List UInt8) (bestif : Option Ifaddrs) :
    List Ifaddrs → Option (Option Ifaddrs)
  | [] => some bestif
  | ifap :: rest => do
      let ifFamily ← ifap.ifaAddr.bind Sockaddr.family
      let family ← Sockaddr.family clnt
      if ifFamily ≠ family ∨ ifap.up = false then addrmergeBestif clnt bestif rest
      else if ifap.loopback = false then pure (some ifap)
      else addrmergeBestif clnt (some (bestif.getD ifap)) rest

/-- The part of `addrmerge` behind its label `found`. -/
def addrmergeFound (inet : Inet) (nconf : NetconfigEnt) (clnt clntSa servSa : List UInt8)
    (ifap : Option Ifaddrs) (examined : Option (List UInt8)) : Option (Option CString) := do
  let family ← Sockaddr.family clnt
  let size := socklen (← Sockaddr.family clntSa)
  let from_ : Option (List UInt8) :=
    if family = afInet then ifap.bind Ifaddrs.ifaAddr else examined
  if family = afInet ∨ family = afInet6 then do
    let newsin ← from_.bind (Sockaddr.bytes 0 size)
    let port ← Sockaddr.bytes 2 2 servSa
    let tbuf : Netbuf :=
      { maxlen := 128, len := BitVec.ofNat 32 size, buf := some (Buffer.writeAt newsin 2 port) }
    if ifap.isSome then taddr2uaddr inet nconf tbuf else pure none
  else pure none

/-- The part of `addrmerge` that goes through the interfaces. -/
def addrmergeInterfaces (inet : Inet) (nconf : NetconfigEnt) (clnt clntSa servSa : List UInt8)
    (ifp : List Ifaddrs) : Option (Option CString) := do
  match ← addrmergeSearch clnt clntSa none ifp with
  | .found ifap examined => addrmergeFound inet nconf clnt clntSa servSa (some ifap) examined
  | .exhausted examined =>
      let bestif ← addrmergeBestif clnt none ifp
      addrmergeFound inet nconf clnt clntSa servSa bestif examined
  | .freeit => pure none

/-- What rpcbind finds around it and does not change while it serves requests. -/
structure RpcbindEnv where
  inet : Inet
  /-- The entries of `/etc/netconfig`. -/
  netconfig : List NetconfigEnt
  /-- What `GetAdaptersAddresses` yields. -/
  adapters : Option (List Adapter)
  /-- Whether a new socket of a transport cannot be bound to an address. -/
  taken : NetconfigEnt → Netbuf → Bool
  /-- The transports that `init_transport` has passed to `add_bndlist`. -/
  served : List Netconfig
  insecure : Bool
  oldstyleLocal : Bool
  udpUaddr : Option CString
  tcpUaddr : Option CString
  /-- `local_in4` and `local_in6`. -/
  localIn4 : Option (List UInt8)
  localIn6 : Option (List UInt8)
  /-- The descriptors for forwarding, by netid. -/
  rmthead : List (CString × Nat)

/-- `struct fdlist`. -/
structure Fdlist where
  nconf : NetconfigEnt
  checkBinding : Bool

namespace RpcbindEnv

variable (env : RpcbindEnv)

/-- `getnetconfigent`. -/
def getnetconfigent (netid : CString) : Option NetconfigEnt :=
  env.netconfig.find? fun nconf => decide (nconf.ncNetid = netid)

/-- `addrmerge` from where it has the addresses of the service and of the client. -/
def addrmergeTaddr (caller : List UInt8) (nconf : NetconfigEnt) (servNbp : Netbuf)
    (clntSa : List UInt8) : Option (Option CString) :=
  match getifaddrs env.adapters with
  | none => some none
  | some ifp => do
      let servSa ← servNbp.buf
      addrmergeInterfaces env.inet nconf caller clntSa servSa ifp

/-- `addrmerge`, where `caller` is the block that holds the address of the caller. -/
def addrmerge (caller : List UInt8) (servUaddr : CString) (clntUaddr : Option CString)
    (netid : CString) : Option (Option CString) :=
  match env.getnetconfigent netid with
  | none => some none
  | some nconf =>
      if clntUaddr.any fun uaddr => decide (uaddr.take 8 = CString.ascii "0.0.0.0.") then
        some clntUaddr
      else
        match uaddr2taddr env.inet nconf servUaddr, clntUaddr with
        | none, _ => some none
        | some servNbp, some uaddr =>
            match uaddr2taddr env.inet nconf uaddr with
            | none => some none
            | some clntNbp => do
                let clntSa ← clntNbp.buf
                if (← Sockaddr.family clntSa) = afLocal then pure (some servUaddr)
                else env.addrmergeTaddr caller nconf servNbp clntSa
        | some servNbp, none => do
            let clntSa ← Sockaddr.bytes 0 (socklen (← Sockaddr.family caller)) caller
            env.addrmergeTaddr caller nconf servNbp clntSa

/-- `add_bndlist`. -/
def addBndlist (fdhead : List Fdlist) (nconf : Netconfig) : List Fdlist :=
  match env.getnetconfigent nconf.ncNetid with
  | none => fdhead
  | some newnconf => fdhead ++ [{ nconf := newnconf, checkBinding := false }]

/-- `fdhead`. -/
def fdhead : List Fdlist := env.served.foldl env.addBndlist []

/-- The search that `is_bound`, `mergeaddr` and `rpcbind_get_conf` share. -/
def findFdl (netid : CString) : Option Fdlist :=
  env.fdhead.find? fun fdl => decide (fdl.nconf.ncNetid = netid)

/-- `rpcbind_get_conf`. -/
def rpcbindGetConf (netid : CString) : Option NetconfigEnt := (env.findFdl netid).map Fdlist.nconf

/-- `check_bound`. -/
def checkBound (fdl : Fdlist) (uaddr : CString) : Bool :=
  if fdl.checkBinding = false then true
  else
    match uaddr2taddr env.inet fdl.nconf uaddr with
    | none => true
    | some na => env.taken fdl.nconf na

/-- `is_bound`. -/
def isBound (netid uaddr : CString) : Bool :=
  match env.findFdl netid with
  | none => true
  | some fdl => env.checkBound fdl uaddr

/-- The address that `mergeaddr` takes for the client's. -/
def contactUaddr (nconf : NetconfigEnt) (xpRtaddr : Netbuf) (saddr : Option CString) :
    Option (Option CString) :=
  if xpRtaddr.buf.isSome then taddr2uaddr env.inet nconf xpRtaddr
  else
    match saddr with
    | some saddr => some (some saddr)
    | none => taddr2uaddr env.inet nconf xpRtaddr

/-- `mergeaddr`. -/
def mergeaddr (xpRtaddr : Netbuf) (netid uaddr : CString) (saddr : Option CString) :
    Option (Option CString) :=
  match env.findFdl netid with
  | none => some none
  | some fdl =>
      if env.checkBound fdl uaddr = false then some (some [])
      else do
        match ← env.contactUaddr fdl.nconf xpRtaddr saddr with
        | none => pure none
        | some cUaddr =>
            let caller ← xpRtaddr.buf
            env.addrmerge caller uaddr (some cUaddr) netid

/-- `delete_prog`. The entry that it stands on is released when something is unset. -/
def deleteProg (prog : BitVec 32) (st : Registry) : Option Registry :=
  if st.listRbl.any fun rbl => decide (rbl.rProg = prog) && !env.isBound rbl.rNetid rbl.rAddr then
    none
  else some st

variable {env}

/-- No transport is checked. -/
theorem checkBinding_of_mem_fdhead {fdl : Fdlist} (h : fdl ∈ env.fdhead) :
    fdl.checkBinding = false := by
  suffices hAll : ∀ (served : List Netconfig) (fdhead : List Fdlist),
      (∀ fdl ∈ fdhead, fdl.checkBinding = false) →
      ∀ fdl ∈ served.foldl env.addBndlist fdhead, fdl.checkBinding = false from
    hAll env.served [] (fun _ hMem => (by cases hMem)) fdl h
  intro served
  induction served with
  | nil => exact fun _ hHead => hHead
  | cons nconf served ih =>
      intro fdhead hHead
      apply ih
      unfold addBndlist
      split
      · exact hHead
      · intro fdl hMem
        rcases List.mem_append.mp hMem with hOld | hNew
        · exact hHead fdl hOld
        · rw [List.mem_singleton.mp hNew]

theorem checkBound_of_findFdl {netid : CString} {fdl : Fdlist} (h : env.findFdl netid = some fdl)
    (uaddr : CString) : env.checkBound fdl uaddr = true := by
  unfold checkBound
  rw [if_pos (checkBinding_of_mem_fdhead (List.mem_of_find?_eq_some h))]

/-- Every address counts as bound. -/
theorem isBound_eq_true (netid uaddr : CString) : env.isBound netid uaddr = true := by
  unfold isBound
  split
  · rfl
  · next fdl hFind => exact checkBound_of_findFdl hFind uaddr

/-- So nothing is ever deleted. -/
theorem deleteProg_eq (prog : BitVec 32) (st : Registry) : env.deleteProg prog st = some st := by
  have hBound : ¬ (st.listRbl.any fun rbl =>
      decide (rbl.rProg = prog) && !env.isBound rbl.rNetid rbl.rAddr) = true := by
    simp [isBound_eq_true]
  unfold deleteProg
  rw [if_neg hBound]

end RpcbindEnv

namespace Rpcbind

/-- A host without networks. -/
def bareEnv : RpcbindEnv where
  inet := default
  netconfig := []
  adapters := none
  taken := fun _ _ => false
  served := []
  insecure := false
  oldstyleLocal := true
  udpUaddr := none
  tcpUaddr := none
  localIn4 := none
  localIn6 := none
  rmthead := []

/-- `udp`, as `/etc/netconfig` has it. -/
def udpNconf : NetconfigEnt where
  ncNetid := CString.ascii "udp"
  ncProtofmly := CString.ascii "inet"
  ncProto := CString.ascii "udp"
  ncSemantics := 1
  short := by decide

/-- A host that serves `udp`. -/
def udpEnv : RpcbindEnv :=
  { bareEnv with netconfig := [udpNconf], served := [udpNconf.toNetconfig] }

end Rpcbind
end OncRpc
