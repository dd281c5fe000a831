import OncRpc.Clnt.Xid
import OncRpc.Rec.Waiting

/-! `clnt_vc_call`: a call over a connection. It waits for the record with the reply to it and
skips the others. -/
namespace OncRpc

open Fallible RecordMarking RecStrm

/-- What `clnt_vc_call` returns. -/
inductive ClntStat where
  /-- What `_seterr_reply` makes of the reply; `RPC_SUCCESS` also where there is none. -/
  | replied (err : RpcErr)
  /-- `RPC_CANTENCODEARGS`, or what `write_vc` has set before. -/
  | cantEncodeArgs
  | cantSend
  | timedOut
  /-- What `read_vc` has set: `RPC_CANTRECV` or `RPC_TIMEDOUT`. -/
  | cantRecv
  /-- `RPC_AUTHERROR` for `AUTH_INVALIDRESP`. -/
  | invalidResp
  | cantDecodeRes
  deriving DecidableEq, Repr

/-- What `xdr_results` has made of the memory at `results_ptr`. -/
inductive ResultsArea (ρ : Type) where
  | untouched
  /-- A decode that fails may leave anything there. -/
  | broken
  | decoded (results : ρ)
  deriving DecidableEq, Repr

/-- A filter in the direction `XDR_ENCODE`: it does not come to the input side. -/
structure PutFilter where
  run : Fallible RecStrm Unit
  spares : ∀ {P : RecStrm → Prop}, SparedByOutput P → Stays P run

/-- `xdr_results` in the direction `XDR_DECODE`: it reads, and it decodes what it would decode
over bytes alone. -/
structure ResultsFilter (ρ : Type) where
  run : Fallible RecStrm ρ
  onBytes : Fallible ByteStream ρ
  decodes : ∀ tail, Refines (Reading tail) (Reading tail) run onBytes
  stays : ∀ as tail, Stays (InRecord as tail) run

/-- The arguments of `clnt_vc_call`. -/
structure VcRequest (ρ : Type) where
  proc : BitVec 32
  args : PutFilter
  results : ResultsFilter ρ
  /-- `xdr_results` is null. -/
  noResults : Bool
  /-- `timeout` is zero. -/
  noWait : Bool

/-- A pass through `call_again`: what `cl_auth` does, and what `reply_msg` holds at the start of
each round, of which only the verifier is set. -/
structure VcPass where
  marshal : PutFilter
  validate : OpaqueAuth → Bool
  refresh : Bool
  stale : Nat → ReplyMsg

/-- The private data of a connection-oriented client. -/
structure VcHandle where
  header : ClntHandle
  strm : RecStrm

/-- How a pass ends. -/
inductive PassEnd (ρ : Type) where
  | returns (out : ClntStat × ResultsArea ρ)
  /-- The reply is unsuccessful. -/
  | refused (err : RpcErr)

/-- How the wait for a reply ends. -/
inductive Waited where
  | returns (stat : ClntStat)
  | reply (msg : ReplyMsg)

section Call

variable {ρ : Type} (req : VcRequest ρ)

def VcRequest.shipnow : Bool := !(req.noResults && req.noWait)

/-- The message is put: the header, the procedure, the credentials and the arguments. -/
def vcEncode (pass : VcPass) (header : ClntHandle) : Fallible RecStrm Unit := do
  xdrrecPutbytes header.mcallc
  xdrrecPutlong req.proc
  pass.marshal.run
  req.args.run

/-- The part of a pass up to the wait, with what is returned if the call does not come so far. -/
def vcSend (pass : VcPass) (header : ClntHandle) (s : RecStrm) : Option ClntStat × RecStrm :=
  match (vcEncode req pass header).run s with
  | (none, s) => (some .cantEncodeArgs, ((xdrrecEndofrecord true).run s).2)
  | (some (), s) =>
      match (xdrrecEndofrecord req.shipnow).run s with
      | (none, s) => (some .cantSend, s)
      | (some (), s) =>
          if req.shipnow = false then (some (.replied .success), s)
          else if req.noWait then (some .timedOut, s)
          else (none, s)

/-- `read_vc` has failed in between, and `ct_error` says so. -/
def readFailed (s s' : RecStrm) : Bool :=
  decide (Transport.failures s'.tcp.arrivals < Transport.failures s.tcp.arrivals)

/-- The skeleton that a round decodes into. -/
def skeleton (stale : ReplyMsg) : ReplyMsg :=
  { stale with acptedRply := { stale.acptedRply with arVerf := nullAuth } }

/-- The reply header, whose results are decoded by nobody. -/
def decodeReply (init : ReplyMsg) {σ : Type} [XdrOps σ] : Fallible σ ReplyMsg :=
  xdrReplymsg (fun _ => pure ()) .decode init

/-- The loop that receives until the transaction id is the one that was sent. -/
def vcReceiveLoop (stale : Nat → ReplyMsg) (xid : BitVec 32) : Nat → RecStrm → Waited × RecStrm
  | 0, s => (.returns .cantRecv, s)
  | fuel + 1, s =>
      match xdrrecSkiprecord.run s with
      | (none, s₁) =>
          (.returns (if readFailed s s₁ then .cantRecv else .replied .success), s₁)
      | (some (), s₁) =>
          match (decodeReply (skeleton (stale fuel))).run s₁ with
          | (none, s₂) =>
              if readFailed s₁ s₂ then (.returns .cantRecv, s₂)
              else vcReceiveLoop stale xid fuel s₂
          | (some msg, s₂) =>
              if msg.rmXid = xid then (.reply msg, s₂) else vcReceiveLoop stale xid fuel s₂

/-- Every round but the first consumes a header. -/
def vcReceive (stale : Nat → ReplyMsg) (xid : BitVec 32) (s : RecStrm) : Waited × RecStrm :=
  vcReceiveLoop stale xid (s.input.length + 2) s

/-- A successful reply is processed. -/
def vcResults (pass : VcPass) (verf : OpaqueAuth) (s : RecStrm) :
    (ClntStat × ResultsArea ρ) × RecStrm :=
  if pass.validate verf then
    match req.results.run.run s with
    | (some results, s') => ((.replied .success, .decoded results), s')
    | (none, s') => ((if readFailed s s' then .cantRecv else .cantDecodeRes, .broken), s')
  else ((.invalidResp, .untouched), s)

/-- A pass, with the transaction id of the message it sends. -/
def vcPass (pass : VcPass) (xid : BitVec 32) (header : ClntHandle) (s : RecStrm) :
    PassEnd ρ × RecStrm :=
  match vcSend req pass header s with
  | (some stat, s) => (.returns (stat, .untouched), s)
  | (none, s) =>
      match vcReceive pass.stale xid s with
      | (.returns stat, s) => (.returns (stat, .untouched), s)
      | (.reply msg, s) =>
          if seterrReply msg = .success then
            let r := vcResults req pass msg.acptedRply.arVerf s
            (.returns r.1, r.2)
          else (.refused (seterrReply msg), s)

/-- The passes of a call that may still refresh the credentials so many times. -/
def vcCallAgain (order : Word.ByteOrder) :
    Nat → (Nat → VcPass) → VcHandle → (ClntStat × ResultsArea ρ) × VcHandle
  | refreshes, passes, h =>
      let header := h.header.callPass order
      let r := vcPass req (passes 0) (h.header.sentXid order) header h.strm
      let h' : VcHandle := { header := header, strm := r.2 }
      match r.1, refreshes with
      | .returns out, _ => (out, h')
      | .refused err, 0 => ((.replied err, .untouched), h')
      | .refused err, refreshes + 1 =>
          if (passes 0).refresh then vcCallAgain order refreshes (fun i => passes (i + 1)) h'
          else ((.replied err, .untouched), h')

def clntVcCall (order : Word.ByteOrder) (passes : Nat → VcPass) (h : VcHandle) :
    (ClntStat × ResultsArea ρ) × VcHandle :=
  vcCallAgain req order 2 passes h

end Call

/-- `__rpc_get_t_size` for `IPPROTO_TCP`. The size is an `int`. -/
def rpcGetTSizeTcp (size : BitVec 32) : BitVec 32 :=
  if size = 0 then 64 * 1024 else if size.toInt > 256 * 1024 then 256 * 1024 else size

/-- `clnt_vc_create`, on a connection that is made. -/
def clntVcCreate (xid prog vers sendsz recvsz : BitVec 32) (host : Host) (writable : Bool) :
    VcHandle where
  header := clntCreate .vc xid prog vers
  strm := xdrrecCreate (rpcGetTSizeTcp sendsz) (rpcGetTSizeTcp recvsz) host
    { arrivals := [], written := [], nonblock := false, writable := writable }

end OncRpc
