import OncRpc.Rpcbind.Callit

/-! The three dispatchers of rpcbind: `pmap_service`, `rpcb_service_3` and
`rpcb_service_4`. -/
namespace OncRpc

open XdrOps Fallible

/-- `argument` zeroed. -/
def zeroRpcb : Rpcb where
  rProg := 0
  rVers := 0
  rNetid := []
  rAddr := []
  rOwner := []

def zeroNetbuf : Netbuf := { maxlen := 0, len := 0, buf := none }

/-- The filters for arguments, in the direction `XDR_DECODE`. -/
def argVoid : XdrFilter Unit := fun _ => pure ()
def argRpcb : XdrFilter Rpcb := fun _ => xdrRpcb .decode zeroRpcb
def argWrapstring : XdrFilter CString := fun _ => xdrWrapstring .decode []
def argNetbuf : XdrFilter Netbuf := fun _ => xdrNetbuf .decode zeroNetbuf
def argPmap : XdrFilter Pmap := fun _ =>
  xdrPmap .decode { pmProg := 0, pmVers := 0, pmProt := 0, pmPort := 0 }

namespace Rpcbind

/-! ### The port mapper -/

/-- The dispatcher's part for a procedure that is not forwarded: arguments, access, and a reply
of which the outcome does not matter. -/
def pmapServe {α : Type} (env : RpcbindEnv) (proc : BitVec 32) (xdrArgument : XdrFilter α)
    (routine : α → SvcXprt → Rpcbind → Option (RpcbResult × Rpcbind)) (xprt : SvcXprt)
    (st : Rpcbind) : Option (SvcXprt × Rpcbind) :=
  match xprt.svcGetargs xdrArgument with
  | (none, xprt) => (xprt.svcerrDecode).map fun xprt => (xprt, st)
  | (some argument, xprt) => do
      if ← env.checkAccess xprt.xpRtaddr proc then do
        let (result, st) ← routine argument xprt st
        let (_, xprt) ← xprt.svcSendreply result.xdr
        pure (xprt, st)
      else (xprt.svcerrWeakauth).map fun xprt => (xprt, st)

/-- `pmapproc_change`. -/
def pmapprocChange (env : RpcbindEnv) (op : BitVec 32) : SvcXprt → Rpcbind →
    Option (SvcXprt × Rpcbind) :=
  pmapServe env op argPmap fun reg xprt st =>
    let (ans, registry) := pmapChange op reg (getowner xprt) st.registry
    let inf := if op = rpcbprocSet then st.inf.rpcbsSet 0 ans else st.inf.rpcbsUnset 0 ans
    some (.long (if ans then 1 else 0), { st with registry := registry, inf := inf })

/-- `pmapproc_getport`. -/
def pmapprocGetport (env : RpcbindEnv) : SvcXprt → Rpcbind → Option (SvcXprt × Rpcbind) :=
  pmapServe env rpcbprocGetaddr argPmap fun reg _ st => pmapGetport env reg st

/-- `pmapproc_dump`. -/
def pmapprocDump (env : RpcbindEnv) : SvcXprt → Rpcbind → Option (SvcXprt × Rpcbind) :=
  pmapServe env rpcbprocDump argVoid fun _ _ st => some (.pmaplist st.registry.listPml, st)

/-- The null procedure. The access is only logged, and so is a reply that cannot be sent. -/
def nullProc (xprt : SvcXprt) (st : Rpcbind) : Option (SvcXprt × Rpcbind) := do
  let (_, xprt) ← xprt.svcSendreply RpcbResult.void.xdr
  pure (xprt, st)

/-- A procedure that there is not. -/
def noProc (xprt : SvcXprt) (st : Rpcbind) : Option (SvcXprt × Rpcbind) :=
  (xprt.svcerrNoproc).map fun xprt => (xprt, st)

/-- The procedure is counted. -/
def procinfo (rtype : Fin rpcbversStat) (proc : BitVec 32) (st : Rpcbind) : Rpcbind :=
  { st with inf := st.inf.rpcbsProcinfo rtype proc }

/-- `pmap_service`. -/
def pmapService (env : RpcbindEnv) (out : Outside) (rq : SvcReq) (xprt : SvcXprt) (st : Rpcbind) :
    Option (SvcXprt × Rpcbind) :=
  let st := st.procinfo 0 rq.rqProc
  if rq.rqProc = rpcbprocNull then nullProc xprt st
  else if rq.rqProc = rpcbprocSet ∨ rq.rqProc = rpcbprocUnset then
    pmapprocChange env rq.rqProc xprt st
  else if rq.rqProc = rpcbprocGetaddr then pmapprocGetport env xprt st
  else if rq.rqProc = rpcbprocDump then pmapprocDump env xprt st
  else if rq.rqProc = rpcbprocCallit then
    rpcbprocCallitCom env out rq rpcbprocCallit pmapvers 0 xprt st
  else noProc xprt st

/-! ### The versions 3 and 4 -/

/-- The end of `rpcb_service_3` and of `rpcb_service_4`: arguments, access, the procedure, and
its result, if it has one and it can be sent. -/
def rpcbServe {α : Type} (env : RpcbindEnv) (proc : BitVec 32) (xdrArgument : XdrFilter α)
    (routine : α → SvcXprt → Rpcbind → Option (Option RpcbResult × Rpcbind)) (transp : SvcXprt)
    (st : Rpcbind) : Option (SvcXprt × Rpcbind) :=
  match transp.svcGetargs xdrArgument with
  | (none, transp) => (transp.svcerrDecode).map fun transp => (transp, st)
  | (some argument, transp) => do
      if ← env.checkAccess transp.xpRtaddr proc then do
        let (result, st) ← routine argument transp st
        match result with
        | none => pure (transp, st)
        | some result =>
            let (sent, transp) ← transp.svcSendreply result.xdr
            if sent then pure (transp, st)
            else (transp.svcerrSystemerr).map fun transp => (transp, st)
      else (transp.svcerrWeakauth).map fun transp => (transp, st)

/-- The procedures that both versions have, under the numbers they have there. -/
def rpcbServiceCom (env : RpcbindEnv) (out : Outside) (rtype : Fin rpcbversStat) (proc : BitVec 32) :
    Option (SvcXprt → Rpcbind → Option (SvcXprt × Rpcbind)) :=
  if proc = rpcbprocSet then
    some (rpcbServe env proc argRpcb fun regp transp st =>
      some ((rpcbprocSetCom rtype regp transp st).map some id))
  else if proc = rpcbprocUnset then
    some (rpcbServe env proc argRpcb fun regp transp st =>
      some ((rpcbprocUnsetCom rtype regp transp st).map some id))
  else if proc = rpcbprocGetaddr then
    some (rpcbServe env proc argRpcb fun regp transp st =>
      (rpcbprocGetaddrCom env rtype true regp transp st).map (Prod.map some id))
  else if proc = rpcbprocDump then
    some (rpcbServe env proc argVoid fun _ _ st => some (some (.rpcblist st.registry.listRbl), st))
  else if proc = rpcbprocGettime then
    some (rpcbServe env proc argVoid fun _ _ st => some (some (rpcbprocGettimeCom out.time), st))
  else if proc = rpcbprocUaddr2taddr then
    some (rpcbServe env proc argWrapstring fun uaddr transp st =>
      some (some (rpcbprocUaddr2taddrCom env uaddr transp), st))
  else if proc = rpcbprocTaddr2uaddr then
    some (rpcbServe env proc argNetbuf fun taddr transp st =>
      (rpcbprocTaddr2uaddrCom env taddr transp).map fun result => (some result, st))
  else none

/-- `rpcb_service_3`. -/
def rpcbService3 (env : RpcbindEnv) (out : Outside) (rq : SvcReq) (transp : SvcXprt) (st : Rpcbind) :
    Option (SvcXprt × Rpcbind) :=
  let st := st.procinfo 1 rq.rqProc
  if rq.rqProc = rpcbprocNull then nullProc transp st
  else if rq.rqProc = rpcbprocCallit then
    rpcbprocCallitCom env out rq rq.rqProc rpcbvers 1 transp st
  else
    match rpcbServiceCom env out 1 rq.rqProc with
    | some serve => serve transp st
    | none => noProc transp st

/-- `rpcb_service_4`. -/
def rpcbService4 (env : RpcbindEnv) (out : Outside) (rq : SvcReq) (transp : SvcXprt) (st : Rpcbind) :
    Option (SvcXprt × Rpcbind) :=
  let st := st.procinfo 2 rq.rqProc
  if rq.rqProc = rpcbprocNull then nullProc transp st
  else if rq.rqProc = rpcbprocIndirect ∨ rq.rqProc = rpcbprocCallit then
    rpcbprocCallitCom env out rq rq.rqProc rpcbvers4 2 transp st
  else if rq.rqProc = rpcbprocGetversaddr then
    rpcbServe env rq.rqProc argRpcb (fun regp transp st =>
      (rpcbprocGetaddrCom env 2 false regp transp st).map (Prod.map some id)) transp st
  else if rq.rqProc = rpcbprocGetaddrlist then
    rpcbServe env rq.rqProc argRpcb (fun regp transp st =>
      rpcbprocGetaddrlist4Local env 2 regp transp st) transp st
  else if rq.rqProc = rpcbprocGetstat then
    rpcbServe env rq.rqProc argVoid (fun _ _ st => some (some (.statByvers st.inf), st)) transp st
  else
    match rpcbServiceCom env out 2 rq.rqProc with
    | some serve => serve transp st
    | none => noProc transp st

/-- The dispatchers that are registered for `RPCBPROG`. -/
inductive Dispatcher where
  | pmapService
  | rpcbService3
  | rpcbService4
  deriving DecidableEq, Repr

/-- The version that a dispatcher is registered for. -/
def Dispatcher.vers : Dispatcher → BitVec 32
  | pmapService => pmapvers
  | rpcbService3 => rpcbvers
  | rpcbService4 => rpcbvers4

def Dispatcher.run (env : RpcbindEnv) (out : Outside) (rq : SvcReq) :
    Dispatcher → SvcXprt → Rpcbind → Option (SvcXprt × Rpcbind)
  | pmapService => Rpcbind.pmapService env out rq
  | rpcbService3 => Rpcbind.rpcbService3 env out rq
  | rpcbService4 => Rpcbind.rpcbService4 env out rq

end Rpcbind
end OncRpc
