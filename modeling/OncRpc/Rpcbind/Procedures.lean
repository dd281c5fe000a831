import OncRpc.Rpcbind.HandleReply
import OncRpc.Rpcbind.Security
import OncRpc.Rpcbind.Stat
import OncRpc.Svc.Sendreply

/-! `rpcb_svc_com.c`, `rpcb_svc_4.c`, `pmap_svc.c`: the procedures of rpcbind. A procedure
is `none` where the code leaves its data, and its result is `none` where it returns NULL. -/
namespace OncRpc

open XdrOps Fallible

/-- A call that has been forwarded: over which descriptor, to whom, and its bytes. -/
structure Forwarded where
  fd : Nat
  addr : Netbuf
  dgram : List UInt8

/-- What rpcbind keeps from one request to the next, and the calls it has forwarded. -/
structure Rpcbind where
  registry : Registry
  inf : RpcbStatByvers
  forwarding : Forwarding
  forwarded : List Forwarded

/-- `getowner`. The private part of a datagram transport is taken for the credentials of the
caller, and the size of its buffer for the user. -/
def getowner (xprt : SvcXprt) : CString :=
  match xprt.data with
  | .vc _ _ => rpcbindUnknown
  | .dg su _ =>
      let uid := BitVec.ofNat 32 su.suIosz
      if uid = 0 then rpcbindSuperuser else CString.decimal uid.toInt

namespace Rpcbind

/-- `rpcbproc_set_com`. -/
def rpcbprocSetCom (rtype : Fin rpcbversStat) (regp : Rpcb) (transp : SvcXprt) (st : Rpcbind) :
    RpcbResult × Rpcbind :=
  let (ans, registry) := st.registry.mapSet regp (getowner transp)
  (.bool ans, { st with registry := registry, inf := st.inf.rpcbsSet rtype ans })

/-- `rpcbproc_unset_com`. -/
def rpcbprocUnsetCom (rtype : Fin rpcbversStat) (regp : Rpcb) (transp : SvcXprt) (st : Rpcbind) :
    RpcbResult × Rpcbind :=
  let (ans, registry) := st.registry.mapUnset regp (some (getowner transp))
  (.bool ans, { st with registry := registry, inf := st.inf.rpcbsUnset rtype ans })

/-- A hint about the interface that the caller wants to use. -/
def hint (regp : Rpcb) : Option CString := if regp.rAddr ≠ [] then some regp.rAddr else none

/-- `uaddr` of `rpcbproc_getaddr_com` for an entry that has been found. -/
def foundUaddr (env : RpcbindEnv) (regp fnd : Rpcb) (transp : SvcXprt) (registry : Registry) :
    Option (CString × Registry) := do
  match ← env.mergeaddr transp.svcGetrpccaller transp.xpNetid fnd.rAddr (hint regp) with
  | none => pure (fnd.rAddr, registry)
  | some [] => do
      let registry ← env.deleteProg regp.rProg registry
      pure ([], registry)
  | some uaddr => pure (uaddr, registry)

/-- The entry that `rpcbproc_getaddr_com` answers from. `allvers` is `RPCB_ALLVERS`. -/
def serviceFor (allvers : Bool) (regp : Rpcb) (transp : SvcXprt) (registry : Registry) :
    Option Rpcb :=
  (registry.findService regp.rProg regp.rVers transp.xpNetid).filter fun fnd =>
    allvers || decide (regp.rVers = fnd.rVers)

/-- `uaddr` of `rpcbproc_getaddr_com`. -/
def getaddrUaddr (env : RpcbindEnv) (allvers : Bool) (regp : Rpcb) (transp : SvcXprt)
    (registry : Registry) : Option (CString × Registry) :=
  match serviceFor allvers regp transp registry with
  | none => some ([], registry)
  | some fnd => foundUaddr env regp fnd transp registry

/-- `rpcbproc_getaddr_com`. -/
def rpcbprocGetaddrCom (env : RpcbindEnv) (rtype : Fin rpcbversStat) (allvers : Bool) (regp : Rpcb)
    (transp : SvcXprt) (st : Rpcbind) : Option (RpcbResult × Rpcbind) := do
  let (uaddr, registry) ← getaddrUaddr env allvers regp transp st.registry
  let inf := st.inf.rpcbsGetaddr env rtype regp.rProg regp.rVers transp.xpNetid (some uaddr)
  pure (.wrapstring uaddr, { st with registry := registry, inf := inf })

/-- `rpcbproc_gettime_com`. The result is what is in the low word of `curtime`. -/
def rpcbprocGettimeCom (curtime : Int) : RpcbResult := .long (BitVec.ofInt 32 curtime)

/-- `nbuf` of `rpcbproc_uaddr2taddr_com`. -/
def emptyNetbuf : Netbuf := { maxlen := 0, len := 0, buf := none }

/-- `rpcbproc_uaddr2taddr_com`. -/
def rpcbprocUaddr2taddrCom (env : RpcbindEnv) (uaddr : CString) (transp : SvcXprt) : RpcbResult :=
  match env.rpcbindGetConf transp.xpNetid with
  | none => .netbuf emptyNetbuf
  | some nconf => .netbuf ((uaddr2taddr env.inet nconf uaddr).getD emptyNetbuf)

/-- `rpcbproc_taddr2uaddr_com`. -/
def rpcbprocTaddr2uaddrCom (env : RpcbindEnv) (taddr : Netbuf) (transp : SvcXprt) :
    Option RpcbResult :=
  match env.rpcbindGetConf transp.xpNetid with
  | none => some (.wrapstring [])
  | some nconf => (taddr2uaddr env.inet nconf taddr).map fun uaddr => .wrapstring (uaddr.getD [])

/-- `rlist`, `maddr` and `list_rbl` in `rpcbproc_getaddrlist_4_local`. -/
structure Addrlist where
  rlist : List RpcbEntry
  maddr : Option CString
  registry : Registry

/-- The entry for an address. -/
def entryOf (maddr : CString) (nconf : NetconfigEnt) : RpcbEntry where
  rMaddr := maddr
  rNcNetid := nconf.ncNetid
  rNcSemantics := nconf.ncSemantics
  rNcProtofmly := nconf.ncProtofmly
  rNcProto := nconf.ncProto

/-- What the loop does with an entry of the program and the version that are asked for.
`some none` is `goto fail`. -/
def addrlistStep (env : RpcbindEnv) (regp : Rpcb) (regNconf : NetconfigEnt) (transp : SvcXprt)
    (rbl : Rpcb) (sc : Addrlist) : Option (Option Addrlist) :=
  match env.rpcbindGetConf rbl.rNetid with
  | none => some none
  | some nconf =>
      if nconf.ncProtofmly ≠ regNconf.ncProtofmly then some (some sc)
      else do
        match ← env.mergeaddr transp.svcGetrpccaller rbl.rNetid rbl.rAddr (hint regp) with
        | none => pure (some { sc with maddr := none })
        | some [] => do
            let registry ← env.deleteProg regp.rProg sc.registry
            pure (some { sc with maddr := some [], registry := registry })
        | some maddr =>
            pure (some { sc with maddr := some maddr, rlist := sc.rlist ++ [entryOf maddr nconf] })

/-- Whether the loop looks at an entry. -/
def Listed (regp rbl : Rpcb) : Prop := rbl.rProg = regp.rProg ∧ rbl.rVers = regp.rVers

instance (regp rbl : Rpcb) : Decidable (Listed regp rbl) := inferInstanceAs (Decidable (_ ∧ _))

/-- The loop of `rpcbproc_getaddrlist_4_local`. -/
def addrlistFrom (env : RpcbindEnv) (regp : Rpcb) (regNconf : NetconfigEnt) (transp : SvcXprt) :
    List Rpcb → Addrlist → Option (Option Addrlist)
  | [], sc => some (some sc)
  | rbl :: rest, sc =>
      if Listed regp rbl then
        match addrlistStep env regp regNconf transp rbl sc with
        | none => none
        | some none => some none
        | some (some sc) => addrlistFrom env regp regNconf transp rest sc
      else addrlistFrom env regp regNconf transp rest sc

/-- `rpcbproc_getaddrlist_4_local`. -/
def rpcbprocGetaddrlist4Local (env : RpcbindEnv) (rtype : Fin rpcbversStat) (regp : Rpcb)
    (transp : SvcXprt) (st : Rpcbind) : Option (Option RpcbResult × Rpcbind) :=
  match env.rpcbindGetConf transp.xpNetid with
  | none => some (none, st)
  | some regNconf => do
      match ← addrlistFrom env regp regNconf transp st.registry.listRbl
          { rlist := [], maddr := none, registry := st.registry } with
      | none => pure (none, st)
      | some sc =>
          let inf := st.inf.rpcbsGetaddr env rtype regp.rProg regp.rVers transp.xpNetid sc.maddr
          pure (some (.entryList sc.rlist), { st with registry := sc.registry, inf := inf })

/-! ### The port mapper -/

/-- The loop of `find_service_pmap`. -/
def findServicePmapFrom (prog vers : BitVec 32) (prot : Nat) (hit : Option Pmap) :
    List Pmap → Option Pmap
  | [] => hit
  | pml :: rest =>
      if pml.pmProg ≠ prog ∨ pml.pmProt ≠ prot then findServicePmapFrom prog vers prot hit rest
      else if pml.pmVers = vers then some pml
      else findServicePmapFrom prog vers prot (some pml) rest

/-- `find_service_pmap`. -/
def findServicePmap (prog vers : BitVec 32) (prot : Nat) (registry : Registry) : Option Pmap :=
  findServicePmapFrom prog vers prot none registry.listPml

/-- `"%d.%d"` of a port. -/
def portText (port : Nat) : CString :=
  CString.decimal (port / 256 % 256 : Nat) ++ CString.ascii "." ++
    CString.decimal (port % 256 : Nat)

/-- `rpcbreg` of `pmapproc_change`. Its address is NULL when it is to be unset. -/
def pmapRpcb (reg : Pmap) (netid addr owner : CString) : Rpcb where
  rProg := reg.pmProg
  rVers := reg.pmVers
  rNetid := netid
  rAddr := addr
  rOwner := owner

/-- `ans` of `pmapproc_change`. -/
def pmapChange (op : BitVec 32) (reg : Pmap) (owner : CString) (registry : Registry) :
    Bool × Registry :=
  if op = rpcbprocSet then
    let addr := CString.ascii "0.0.0.0." ++ portText reg.pmPort
    if reg.pmProt = ipprotoUdp then
      registry.mapSet (pmapRpcb reg registry.udptrans addr owner) owner
    else if reg.pmProt = ipprotoTcp then
      registry.mapSet (pmapRpcb reg registry.tcptrans addr owner) owner
    else (false, registry)
  else if op = rpcbprocUnset then
    let (ans1, registry) := registry.mapUnset (pmapRpcb reg registry.tcptrans [] owner) (some owner)
    let (ans2, registry) := registry.mapUnset (pmapRpcb reg registry.udptrans [] owner) (some owner)
    (ans1 || ans2, registry)
  else (false, registry)

/-- `port` of `pmapproc_getport`. -/
def pmapPort (env : RpcbindEnv) (reg : Pmap) (registry : Registry) : Option (Nat × Registry) :=
  match findServicePmap reg.pmProg reg.pmVers reg.pmProt registry with
  | none => some (0, registry)
  | some fnd =>
      let (ua, netid) :=
        if reg.pmProt = ipprotoUdp then (env.udpUaddr, registry.udptrans)
        else (env.tcpUaddr, registry.tcptrans)
      match ua with
      | none => some (0, registry)
      | some ua =>
          match CString.scanDotted 5 ua with
          | some [h1, h2, h3, h4, _, _] =>
              let host := [h1, h2, h3, h4].flatMap fun h => CString.decimal h ++ CString.ascii "."
              let serveuaddr := (host ++ portText fnd.pmPort).take 31
              if env.isBound netid serveuaddr then some (fnd.pmPort, registry)
              else (env.deleteProg reg.pmProg registry).map fun registry => (0, registry)
          | _ => some (0, registry)

/-- `pmapproc_getport`, but for its reply. -/
def pmapGetport (env : RpcbindEnv) (reg : Pmap) (st : Rpcbind) : Option (RpcbResult × Rpcbind) := do
  let (port, registry) ← pmapPort env reg st.registry
  let netid := if reg.pmProt = ipprotoUdp then registry.udptrans else registry.tcptrans
  let uaddr := if port ≠ 0 then registry.udptrans else []
  let inf := st.inf.rpcbsGetaddr env 0 reg.pmProg reg.pmVers netid (some uaddr)
  pure (.long (BitVec.ofNat 32 port), { st with registry := registry, inf := inf })

end Rpcbind
end OncRpc
