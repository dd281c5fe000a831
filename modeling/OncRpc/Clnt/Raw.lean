import OncRpc.Svc.Authenticate
import OncRpc.Svc.Rendezvous
import OncRpc.Svc.Sendreply

/-! `clnt_raw.c` and `svc_raw.c`: a client and a server in one process, over one buffer that holds
first the call and then the reply. -/
namespace OncRpc.Raw

open XdrOps Fallible Buffer

/-- `UDPMSGSIZE` and `MCALL_MSG_SIZE`. -/
def udpmsgsize : Nat := 8800
def mcallMsgSize : Nat := 24

/-- What `clnt_raw_call` returns of `enum clnt_stat`. -/
inductive ClntStat where
  | success
  | cantencodeargs
  | cantdecoderes
  | versmismatch
  | autherror
  | progunavail
  | progversmismatch
  | procunavail
  | cantdecodeargs
  | systemerror
  | failed
  deriving DecidableEq, Repr

/-- `re_status`. The rest of the error is in a variable of `clnt_raw_call`, and `clnt_raw_geterr`
does not tell it. -/
def reStatus : RpcErr → ClntStat
  | .success => .success
  | .progUnavail => .progunavail
  | .progVersMismatch _ => .progversmismatch
  | .procUnavail => .procunavail
  | .cantDecodeArgs => .cantdecodeargs
  | .systemError => .systemerror
  | .versMismatch _ => .versmismatch
  | .authError _ => .autherror
  | .failed _ _ => .failed

/-- `x_private - x_base` and `x_handy` of a stream over the shared buffer. -/
structure StreamPos where
  xPrivate : Nat
  xHandy : Nat
  deriving DecidableEq, Repr

/-- `struct clntraw_private`. -/
structure RawClnt where
  xdrStream : StreamPos
  mashlCallmsg : List UInt8
  mcnt : Nat
  deriving DecidableEq, Repr

/-- A filter that encodes a value, with the bytes that it puts on every stream. -/
structure PutFilter where
  put : XdrFilter Unit
  bytes : List UInt8
  emits : EmitsAll put () bytes

/-- A filter that decodes: it decodes the same wherever the bytes are, and only reads. -/
structure GetFilter (α : Type) where
  get : XdrFilter α
  decodes : ∀ {σ : Type} [XdrOps σ] {R : σ → List UInt8 → Prop}, LawfulReader R →
    Refines R R (get σ) (get ByteStream)
  stays : ∀ block aligned stop, Stays
    (fun s : XdrMem => s.base = block ∧ s.aligned = aligned ∧ s.priv + s.handy = stop) (get XdrMem)

/-- `struct svc_req`, as a routine for raw calls sees it. -/
structure SvcReq where
  rqProg : BitVec 32
  rqVers : BitVec 32
  rqProc : BitVec 32
  /-- `rq_cred.oa_flavor`. -/
  rqFlavor : BitVec 32
  deriving DecidableEq, Repr

/-- What a routine answers with. -/
inductive Answer where
  /-- `svc_sendreply`, and `svcerr_systemerr` if that fails. -/
  | sendreply (results : PutFilter)
  | noproc
  | decode
  | systemerr
  | noprog
  | progvers (lowVers highVers : BitVec 32)
  | auth (why : BitVec 32)

/-- A dispatch routine: it decodes its arguments with `svc_getargs`, and answers once. -/
structure Routine (α ω : Type) where
  xdrArgs : SvcReq → GetFilter α
  serve : SvcReq → Option α → ω → Answer × ω

/-- The process. `ω` is what belongs to the application. -/
structure RawState (δ ω : Type) where
  /-- `__rpc_rawcombuf`, and whether its address is a multiple of four. -/
  rpcRawcombuf : List UInt8
  aligned : Bool
  clntrawPrivate : Option RawClnt
  /-- `xdr_stream` of `svc_raw_private`. -/
  svcRawPrivate : Option StreamPos
  /-- The entry of `__svc_xports` for -1 is the raw transport. -/
  registered : Bool
  svcHead : List (SvcCallout δ)
  app : ω

/-- What is left on the stack by others, where a message is put. -/
structure Frames where
  /-- `msg` of `svc_getreq_common`. -/
  callMsg : RpcMsg
  /-- `rm_xid` of the replies, which the server does not set. -/
  rmXid : BitVec 32
  /-- `msg` of `clnt_raw_call`. -/
  replyMsg : ReplyMsg

/-- `msg` with `_null_auth` in `ar_verf`. -/
def Frames.skeleton (frames : Frames) : ReplyMsg :=
  { frames.replyMsg with acptedRply := { frames.replyMsg.acptedRply with arVerf := nullAuth } }

/-- How a request is answered that the library has no entry for. -/
def Answer.ofSvcErr : SvcErr → Answer
  | .auth why => .auth why
  | .progvers low high => .progvers low high
  | .noprog => .noprog

/-- The reply of an answer, but for its xid. -/
def Answer.msg : Answer → ReplyMsg
  | sendreply _ => SvcXprt.accepted OncRpc.success { low := 0, high := 0 }
  | noproc => SvcXprt.accepted procUnavail { low := 0, high := 0 }
  | decode => SvcXprt.accepted garbageArgs { low := 0, high := 0 }
  | systemerr => SvcXprt.accepted systemErr { low := 0, high := 0 }
  | noprog => SvcXprt.accepted progUnavail { low := 0, high := 0 }
  | progvers low high => SvcXprt.accepted progMismatch { low := low, high := high }
  | auth why => SvcXprt.denied why

/-- The results that go with it. -/
def Answer.results : Answer → XdrFilter Unit
  | sendreply results => results.put
  | _ => fun _ _ => pure ()

/-- `authnone_create` and `authnone_marshal`: the first `mcnt` bytes of `marshalled_client`. -/
def authnoneMarshalled : List UInt8 :=
  let both : Fallible XdrMem Unit := do
    let _ ← xdrOpaqueAuth .encode nullAuth
    let _ ← xdrOpaqueAuth .encode nullAuth
    pure ()
  let xdrs := (both.run (XdrMem.xdrmemCreate (List.replicate 20 0) 20 true)).2
  xdrs.base.take xdrs.priv

/-- `xdr_replymsg` with `xresults`, which comes last: the message, and the results if there are
any. -/
def xdrReplyResults {σ ρ : Type} [XdrOps σ] (xresults : Fallible σ ρ) (msg : ReplyMsg) :
    Fallible σ (ReplyMsg × Option ρ) := do
  let msg ← xdrReplymsg (fun _ => pure ()) .decode msg
  if msg.rpStat = msgAccepted ∧ msg.acptedRply.arStat = OncRpc.success then do
    let results ← xresults
    pure (msg, some results)
  else pure (msg, none)

namespace RawState

variable {α δ ρ ω : Type}

/-- A stream over the shared buffer, moved to its start. -/
def rewound (pos : StreamPos) (st : RawState δ ω) : XdrMem :=
  ((XdrMem.xdrmemSetpos 0).run
    { base := st.rpcRawcombuf, priv := pos.xPrivate, handy := pos.xHandy, aligned := st.aligned }).2

/-- The state with the server's stream as it is now. -/
def setSvc (xdrs : XdrMem) (st : RawState δ ω) : RawState δ ω :=
  { st with
    rpcRawcombuf := xdrs.base
    svcRawPrivate := some { xPrivate := xdrs.priv, xHandy := xdrs.handy } }

/-- The state with the client's stream as it is now. -/
def setClnt (clp : RawClnt) (xdrs : XdrMem) (st : RawState δ ω) : RawState δ ω :=
  { st with
    rpcRawcombuf := xdrs.base
    clntrawPrivate :=
      some { clp with xdrStream := { xPrivate := xdrs.priv, xHandy := xdrs.handy } } }

/-! ### The server -/

/-- `svc_raw_create`, where `xprt_register` succeeds. `mem` is for `calloc`. -/
def svcRawCreate (mem : Bool) (st : RawState δ ω) : RawState δ ω :=
  if st.svcRawPrivate.isNone ∧ mem = false then st
  else { st with
    svcRawPrivate := some { xPrivate := 0, xHandy := udpmsgsize }
    registered := true }

/-- `svc_raw_recv`. -/
def svcRawRecv (frames : Frames) (st : RawState δ ω) : Option RpcMsg × RawState δ ω :=
  match st.svcRawPrivate with
  | none => (none, st)
  | some pos =>
      let decoded := (xdrCallmsg .decode frames.callMsg).run (st.rewound pos)
      (decoded.1, st.setSvc decoded.2)

/-- `svc_raw_reply`. -/
def svcRawReply (results : XdrFilter Unit) (msg : ReplyMsg) (st : RawState δ ω) :
    Bool × RawState δ ω :=
  match st.svcRawPrivate with
  | none => (false, st)
  | some pos =>
      let encoded := (xdrReplymsg (fun _ => results XdrMem) .encode msg).run (st.rewound pos)
      (encoded.1.isSome, st.setSvc encoded.2)

/-- `svc_raw_getargs`. The stream stands where `svc_raw_recv` has left it. -/
def svcRawGetargs (xdrArgs : XdrFilter α) (st : RawState δ ω) : Option α × RawState δ ω :=
  match st.svcRawPrivate with
  | none => (none, st)
  | some pos =>
      let decoded := (xdrArgs XdrMem).run { base := st.rpcRawcombuf, priv := pos.xPrivate,
                                            handy := pos.xHandy, aligned := st.aligned }
      (decoded.1, st.setSvc decoded.2)

/-- `svc_sendreply` and the `svcerr` routines. -/
def answer (frames : Frames) (a : Answer) (st : RawState δ ω) : RawState δ ω :=
  match st.svcRawReply a.results { a.msg with rmXid := frames.rmXid } with
  | (true, st) => st
  | (false, st) =>
      match a with
      | .sendreply _ =>
          (st.svcRawReply Answer.systemerr.results
            { Answer.systemerr.msg with rmXid := frames.rmXid }).2
      | _ => st

/-- A dispatch routine. -/
def dispatch (routine : Routine α ω) (frames : Frames) (msg : RpcMsg) (st : RawState δ ω) :
    RawState δ ω :=
  let rqst : SvcReq := {
    rqProg := msg.rmCall.cbProg
    rqVers := msg.rmCall.cbVers
    rqProc := msg.rmCall.cbProc
    rqFlavor := msg.rmCall.cbCred.oaFlavor }
  let args := st.svcRawGetargs (routine.xdrArgs rqst).get
  let served := routine.serve rqst args.1 args.2.app
  answer frames served.1 { args.2 with app := served.2 }

/-- What `svc_getreq_common` stands on when it is called for -1: the list of the transports begins
with the entry for -1. No flavors have been registered, and the raw transport is idle. -/
def world (routines : δ → Routine α ω) (frames : Frames) : SvcWorld (RawState δ ω) δ where
  svcXports st := [if st.registered then some 0 else none]
  svcHead := svcHead
  svcRecv _ st := st.svcRawRecv frames
  svcStat _ st := (.idle, st)
  svcDestroy _ st := st
  svcerr e _ st := answer frames (.ofSvcErr e) st
  authenticate msg _ st :=
    match SvcAuth.authenticate (η := Empty) AuthunixParms.fresh st.aligned msg.rmCall.cbCred [] with
    | .stat why => (why, st)
    | .areaFreed => (SvcAuth.authBadcred, st)
  dispatch d msg _ st := (false, dispatch (routines d) frames msg st)

/-- `svc_getreq_common (-1)`. A raw transport never has more requests. -/
def svcGetreqRaw (routines : δ → Routine α ω) (frames : Frames) (st : RawState δ ω) :
    RawState δ ω :=
  ((world routines frames).svcGetreqCommon 1 0 st).2

/-! ### The client -/

/-- `clnt_raw_create`. `xid` is what the stack holds for `rm_xid`, and `mem` is for `calloc`. -/
def clntRawCreate (mem : Bool) (xid prog vers : BitVec 32) (st : RawState δ ω) : RawState δ ω :=
  if st.clntrawPrivate.isNone ∧ mem = false then st
  else
    let callmsg := (st.clntrawPrivate.map RawClnt.mashlCallmsg).getD (List.replicate mcallMsgSize 0)
    let xdrs := ((xdrCallhdr xid prog vers).run (XdrMem.xdrmemCreate callmsg mcallMsgSize true)).2
    { st with clntrawPrivate := some {
        xdrStream := { xPrivate := 0, xHandy := udpmsgsize }
        mashlCallmsg := xdrs.base
        mcnt := xdrs.priv } }

/-- `rm_xid ++`, in place. -/
def nextXid (order : Word.ByteOrder) (clp : RawClnt) : RawClnt :=
  let xid := Word.load order (readAt clp.mashlCallmsg 0 4) + 1
  { clp with mashlCallmsg := writeAt clp.mashlCallmsg 0 (Word.store order xid) }

/-- The arguments of `clnt_raw_call`. -/
structure RawCall (ρ : Type) where
  proc : BitVec 32
  args : PutFilter
  results : GetFilter ρ

/-- The message is put. -/
def putCall (clp : RawClnt) (call : RawCall ρ) : Fallible XdrMem Unit := do
  putbytes (clp.mashlCallmsg.take clp.mcnt)
  putlong call.proc
  putbytes authnoneMarshalled
  call.args.put XdrMem

/-- The end of `clnt_raw_call`: `authnone` takes every verifier, and refreshes nothing. -/
def received : Option (ReplyMsg × Option ρ) → ClntStat × Option ρ
  | none => (.cantdecoderes, none)
  | some (msg, results) => (reStatus (seterrReply msg), results)

/-- `clnt_raw_call`. -/
def clntRawCall (routines : δ → Routine α ω) (order : Word.ByteOrder) (frames : Frames)
    (call : RawCall ρ) (st : RawState δ ω) : (ClntStat × Option ρ) × RawState δ ω :=
  match st.clntrawPrivate with
  | none => ((.failed, none), st)
  | some clp =>
      let clp := nextXid order clp
      let encoded := (putCall clp call).run (st.rewound clp.xdrStream)
      let st := st.setClnt clp encoded.2
      match encoded.1 with
      | none => ((.cantencodeargs, none), st)
      | some () =>
          let st := svcGetreqRaw routines frames st
          let pos : StreamPos := { xPrivate := encoded.2.priv, xHandy := encoded.2.handy }
          let decoded := (xdrReplyResults (call.results.get XdrMem) frames.skeleton).run
            (st.rewound pos)
          (received decoded.1, st.setClnt clp decoded.2)

/-- What happens in the process. Each call meets frames of its own. -/
inductive RawOp (δ ρ : Type) where
  | svcRawCreate (mem : Bool)
  | clntRawCreate (mem : Bool) (xid prog vers : BitVec 32)
  | callout (c : CalloutCall δ)
  | call (frames : Frames) (call : RawCall ρ)

/-- A call answers with what it returns. -/
def step [DecidableEq δ] (routines : δ → Routine α ω) (order : Word.ByteOrder)
    (st : RawState δ ω) : RawOp δ ρ → Option (ClntStat × Option ρ) × RawState δ ω
  | .svcRawCreate mem => (none, st.svcRawCreate mem)
  | .clntRawCreate mem xid prog vers => (none, st.clntRawCreate mem xid prog vers)
  | .callout c => (none, { st with svcHead := CalloutCall.step st.svcHead c })
  | .call frames call =>
      let r := st.clntRawCall routines order frames call
      (some r.1, r.2)

/-- A process with nothing in it, whatever its buffer holds. -/
def start (buf : List UInt8) (aligned : Bool) (app : ω) : RawState δ ω where
  rpcRawcombuf := buf
  aligned := aligned
  clntrawPrivate := none
  svcRawPrivate := none
  registered := false
  svcHead := []
  app := app

end RawState
end OncRpc.Raw
