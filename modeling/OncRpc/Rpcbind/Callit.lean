import OncRpc.Rpcbind.Procedures

/-! `rpcbproc_callit_com`: a call for another program is forwarded to it. -/
namespace OncRpc

open XdrOps Fallible

/-- `RPC_BUF_MAX` and `UDPMSGSIZE`. -/
def rpcBufMax : Nat := 65536
def udpmsgsize : Nat := 8800

/-- `AUTH_NULL` and `AUTH_SYS`. -/
def authNull : BitVec 32 := 0
def authSys : BitVec 32 := 1

/-- `__rpc_get_t_size`, for a size that is not 0. -/
def rpcGetTSize (size : Nat) : Nat := if size > 256 * 1024 then 256 * 1024 else size

/-- `struct svc_req`. -/
structure SvcReq where
  rqProc : BitVec 32
  /-- `rq_cred.oa_flavor`. -/
  rqFlavor : BitVec 32
  /-- What the handle that `authunix_create` makes of `rq_clntcred` marshals. -/
  rqMarshalled : Option (List UInt8)

/-- What a request meets outside of rpcbind: the clock, which may be read twice, and whether
memory is allocated and a datagram is sent. -/
structure Outside where
  time : Int
  timeDup : Int
  dup : Bool
  sent : Bool

/-- `struct r_rmtcall_args` as it is decoded. -/
structure RmtcallArgs where
  rmtProg : BitVec 32
  rmtVers : BitVec 32
  rmtProc : BitVec 32
  args : List UInt8
  deriving DecidableEq, Repr

/-- `xdr_rmtcall_args`. There is a buffer for the arguments. -/
def xdrRmtcallArgs : XdrFilter RmtcallArgs := fun _ => do
  let prog ← xdrUInt32T .decode 0
  let vers ← xdrUInt32T .decode 0
  let proc ← xdrUInt32T .decode 0
  let (args, arglen) ← xdrBytes rpcMaxdatasize .decode (some (List.replicate rpcBufMax 0), 0)
  pure { rmtProg := prog, rmtVers := vers, rmtProc := proc
         args := (args.getD []).take arglen.toNat }

/-- What is put into `outbuf` of `rpcbproc_callit_com`. -/
def putForwarded {σ : Type} [XdrOps σ] (xid : BitVec 32) (a : RmtcallArgs) (auth : List UInt8) :
    Fallible σ Unit := do
  xdrCallhdr xid a.rmtProg a.rmtVers
  let _ ← xdrUInt32T .encode a.rmtProc
  putbytes auth
  let _ ← xdrOpaque .encode a.args a.args.length
  pure ()

/-- How a forwarded call begins. -/
def forwardedHeader (xid : BitVec 32) (a : RmtcallArgs) : List UInt8 :=
  [xid, call, rpcMsgVersion, a.rmtProg, a.rmtVers, a.rmtProc].flatMap Word.toBytes

namespace Registry

/-- The loop of `find_versions`. -/
def findVersionsFrom (prog : BitVec 32) (netid : CString) (lowv highv : BitVec 32) :
    List Rpcb → BitVec 32 × BitVec 32
  | [] => (lowv, highv)
  | rbl :: rest =>
      if Passed prog netid rbl then findVersionsFrom prog netid lowv highv rest
      else if lowv = 0 then findVersionsFrom prog netid rbl.rVers rbl.rVers rest
      else if rbl.rVers < lowv then findVersionsFrom prog netid rbl.rVers highv rest
      else if rbl.rVers > highv then findVersionsFrom prog netid lowv rbl.rVers rest
      else findVersionsFrom prog netid lowv highv rest

/-- `find_versions`. -/
def findVersions (prog : BitVec 32) (netid : CString) (st : Registry) : BitVec 32 × BitVec 32 :=
  findVersionsFrom prog netid 0 0 st.listRbl

end Registry

namespace RpcbindEnv

variable (env : RpcbindEnv)

/-- `local_sa`. -/
def localSa (family : Nat) : Option (List UInt8) :=
  if family = afInet then env.localIn4
  else if family = afInet6 then env.localIn6
  else none

/-- `find_rmtcallfd_by_netid`. -/
def findRmtcallfdByNetid (netid : CString) : Option Nat :=
  (env.rmthead.find? fun rmt => decide (rmt.1 = netid)).map Prod.snd

end RpcbindEnv

/-- `*__rpcb_get_dg_xidp (transp)`. -/
def SvcXprt.dgXid (transp : SvcXprt) : Option (BitVec 32) :=
  match transp.data with
  | .vc _ _ => none
  | .dg su _ => some su.suXid

namespace Rpcbind

/-- An error reply that is only sent for `RPCBPROC_INDIRECT`. -/
def complain (replyType : BitVec 32) (svcerr : SvcXprt → Option SvcXprt) (transp : SvcXprt)
    (st : Rpcbind) : Option (SvcXprt × Rpcbind) :=
  if replyType = rpcbprocIndirect then (svcerr transp).map fun transp => (transp, st)
  else some (transp, st)

/-- The credentials of a forwarded call, or which error they are answered with. -/
def forwardedAuth (rq : SvcReq) : Except (SvcXprt → Option SvcXprt) (List UInt8) :=
  if rq.rqFlavor = authNull then .ok (List.replicate 16 0)
  else if rq.rqFlavor = authSys then
    match rq.rqMarshalled with
    | none => .error SvcXprt.svcerrSystemerr
    | some auth => .ok auth
  else .error SvcXprt.svcerrWeakauth

/-- The datagram with which a call is forwarded. -/
def forwardedDgram (rq : SvcReq) (xid : BitVec 32) (a : RmtcallArgs) :
    Except (SvcXprt → Option SvcXprt) (List UInt8) :=
  match forwardedAuth rq with
  | .error svcerr => .error svcerr
  | .ok auth =>
      let sendsz := rpcGetTSize udpmsgsize
      match (putForwarded xid a auth).run (XdrMem.xdrmemCreate (List.replicate sendsz 0) sendsz true) with
      | (none, _) => .error SvcXprt.svcerrSystemerr
      | (some (), outxdr) => .ok (outxdr.base.take outxdr.priv)

/-- `uaddr2taddr` of `local_uaddr`, which may be NULL. -/
def localTaddr (env : RpcbindEnv) (nconf : NetconfigEnt) (localUaddr : Option CString) :
    Option (Option Netbuf) :=
  match localUaddr with
  | none => if (rpcNconf2sockinfo nconf).isSome then none else some none
  | some uaddr => some (uaddr2taddr env.inet nconf uaddr)

/-- The end of `rpcbproc_callit_com`, for a call that has been registered. A call that is not
sent is taken out of the table again. -/
def sendForwarded (env : RpcbindEnv) (out : Outside) (rq : SvcReq) (nconf : NetconfigEnt)
    (replyType : BitVec 32) (a : RmtcallArgs) (fd : Nat) (callxid : BitVec 32)
    (localUaddr : Option CString) (transp : SvcXprt) (st : Rpcbind) :
    Option (SvcXprt × Rpcbind) :=
  let freed := { st with forwarding := st.forwarding.freeXid callxid }
  match forwardedDgram rq callxid a with
  | .error svcerr => complain replyType svcerr transp freed
  | .ok dgram => do
      match ← localTaddr env nconf localUaddr with
      | none => complain replyType SvcXprt.svcerrSystemerr transp freed
      | some na =>
          if out.sent then
            pure (transp, { st with
              forwarded := st.forwarded ++ [{ fd := fd, addr := na, dgram := dgram }] })
          else complain replyType SvcXprt.svcerrSystemerr transp freed

/-- The part of `rpcbproc_callit_com` behind the search for the service. -/
def forwardCall (env : RpcbindEnv) (out : Outside) (rq : SvcReq) (replyType versnum : BitVec 32)
    (a : RmtcallArgs) (rbl : Rpcb) (transp : SvcXprt) (st : Rpcbind) :
    Option (SvcXprt × Rpcbind) :=
  match env.rpcbindGetConf transp.xpNetid with
  | none => complain replyType SvcXprt.svcerrSystemerr transp st
  | some nconf => do
      match env.localSa (← Sockaddr.family transp.xpRtaddr) with
      | none => pure (transp, st)
      | some localsa =>
          let localUaddr ← env.addrmerge localsa rbl.rAddr none nconf.ncNetid
          let mUaddr ← env.addrmerge transp.xpRtaddr rbl.rAddr none nconf.ncNetid
          match env.findRmtcallfdByNetid nconf.ncNetid with
          | none => complain replyType SvcXprt.svcerrSystemerr transp st
          | some fd =>
              let call : ForwardCall :=
                { callerXid := ← transp.dgXid, callerAddr := transp.xpRtaddr, forwardFd := fd
                  uaddr := mUaddr, replyType := replyType, versnum := versnum }
              match st.forwarding.forwardRegister call out.time out.timeDup out.dup with
              | (.registered callxid, forwarding) =>
                  sendForwarded env out rq nconf replyType a fd callxid localUaddr transp
                    { st with forwarding := forwarding }
              | (_, forwarding) => pure (transp, { st with forwarding := forwarding })

/-- Whether the service that an indirect call is for is still there. -/
def stillThere (env : RpcbindEnv) (replyType : BitVec 32) (rbl : Rpcb) (transp : SvcXprt) :
    Option Bool :=
  if replyType = rpcbprocIndirect then
    (env.mergeaddr transp.svcGetrpccaller transp.xpNetid rbl.rAddr none).map fun uaddr =>
      decide (uaddr.getD [] ≠ [])
  else some true

/-- The part of `rpcbproc_callit_com` behind `check_callit`. -/
def callService (env : RpcbindEnv) (out : Outside) (rq : SvcReq) (replyType versnum : BitVec 32)
    (rtype : Fin rpcbversStat) (a : RmtcallArgs) (transp : SvcXprt) (st : Rpcbind) :
    Option (SvcXprt × Rpcbind) :=
  let rbl := st.registry.findService a.rmtProg a.rmtVers transp.xpNetid
  let st := { st with
    inf := st.inf.rpcbsRmtcall env rtype replyType a.rmtProg a.rmtVers a.rmtProc transp.xpNetid rbl }
  match rbl with
  | none => complain replyType SvcXprt.svcerrNoprog transp st
  | some rbl =>
      if rbl.rVers ≠ a.rmtVers then
        let (low, high) := st.registry.findVersions a.rmtProg transp.xpNetid
        complain replyType (SvcXprt.svcerrProgvers low high) transp st
      else do
        if ← stillThere env replyType rbl transp then
          forwardCall env out rq replyType versnum a rbl transp st
        else (transp.svcerrNoprog).map fun transp => (transp, st)

/-- `rpcbproc_callit_com`. -/
def rpcbprocCallitCom (env : RpcbindEnv) (out : Outside) (rq : SvcReq) (replyType versnum : BitVec 32)
    (rtype : Fin rpcbversStat) (transp : SvcXprt) (st : Rpcbind) : Option (SvcXprt × Rpcbind) :=
  match transp.sockinfo with
  | none => complain replyType SvcXprt.svcerrSystemerr transp st
  | some si =>
      if si.siSocktype ≠ .dgram then some (transp, st)
      else
        match transp.svcGetargs xdrRmtcallArgs with
        | (none, transp) => complain replyType SvcXprt.svcerrDecode transp st
        | (some a, transp) =>
            if env.checkCallit a.rmtProg a.rmtProc then
              callService env out rq replyType versnum rtype a transp st
            else (transp.svcerrWeakauth).map fun transp => (transp, st)

end Rpcbind
end OncRpc
