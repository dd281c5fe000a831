import OncRpc.Base.Heap
import OncRpc.Base.Runs
import OncRpc.Rpc.Address
import OncRpc.Svc.Callout

/-! `svc_simple.c`: services that are registered with one call. -/
namespace OncRpc

/-- What decoding makes of the bytes of a call: the arguments, if it succeeds, and how many blocks
it has allocated, whether it succeeds or not. -/
structure DecodedArgs (α : Type) where
  args : Option α
  blocks : Nat

/-- The filter of the results. Only `xdr_void` is told from the others. -/
inductive OutProc (π : Type) where
  | xdrVoid
  | other (p : π)
  deriving DecidableEq, Repr

def OutProc.isVoid {π : Type} : OutProc π → Bool
  | xdrVoid => true
  | other _ => false

/-- A cell of the heap. -/
inductive SimpleCell (α : Type) where
  | xprt (xpNetid : CString)
  | netid (s : CString)
  /-- A buffer for arguments, and the blocks that the arguments refer to. -/
  | xdrbuf (size : Nat) (args : Option α) (refers : List Nat)
  | block

/-- The routines of a service: `universal`, or that of another service. -/
inductive SimpleDispatch where
  | universal
  | other (d : Nat)
  deriving DecidableEq, Repr

/-- `struct proglst`, without `p_nxt`. -/
structure Proglst (α ρ π : Type) where
  pProgname : α → Option ρ
  pPrognum : BitVec 32
  pVersnum : BitVec 32
  pProcnum : BitVec 32
  pTransp : Nat
  pNetid : Nat
  pXdrbuf : Nat
  pRecvsz : Nat
  pInproc : List UInt8 → DecodedArgs α
  pOutproc : OutProc π

/-- What the simplified services stand on. -/
structure SimpleWorld (α ρ π : Type) where
  heap : Heap (SimpleCell α)
  svcHead : List (SvcCallout SimpleDispatch)
  proglst : List (Proglst α ρ π)

/-- `__rpc_get_t_size`, for a size of 0. -/
def rpcGetTSizeDef (proto : Nat) : Nat :=
  if proto = ipprotoTcp then 64 * 1024 else if proto = ipprotoUdp then 8800 else 9000

/-- A transport that is made for a netid, or shared with the entries that have it. -/
structure SimpleXprt where
  svcxprt : Nat
  netid : Nat
  xdrbuf : Nat
  recvsz : Nat

/-- A round of the loop of `rpc_reg`: a netid, and what the world makes of it. -/
structure RegRound where
  ncNetid : CString
  /-- Whether `svc_tli_create` makes a transport, and `__rpc_fd2sockinfo` of its socket. -/
  tliCreate : Option (Option SockInfo)
  /-- Whether the buffer, the netid and the entry can be allocated. -/
  xdrbufAlloc : Bool
  netidDup : Bool
  plAlloc : Bool
  /-- What `svc_reg` meets. -/
  regDup : Bool
  regAlloc : Bool
  rpcbSet : Bool

/-- A call of `rpc_reg`. There are no rounds when `__rpc_setconf` fails. -/
structure RpcRegCall (α ρ π : Type) where
  prognum : BitVec 32
  versnum : BitVec 32
  procnum : BitVec 32
  progname : α → Option ρ
  inproc : List UInt8 → DecodedArgs α
  outproc : OutProc π
  setconf : Option (List RegRound)

variable {α ρ π : Type}

namespace SimpleWorld

/-- `strcmp` with a netid. There is none to read when it has been freed. -/
def netidAt (heap : Heap (SimpleCell α)) (p : Nat) : Option CString :=
  match heap.read p with
  | some (.netid s) => some s
  | _ => none

/-- A search of `proglst`, for an entry that passes the test and has the netid. -/
def search (test : Proglst α ρ π → Bool) (netid : CString) (heap : Heap (SimpleCell α)) :
    List (Proglst α ρ π) → Option (Option (Proglst α ρ π))
  | [] => some none
  | pl :: rest =>
      if test pl then
        (netidAt heap pl.pNetid).bind fun s =>
          if s = netid then some (some pl) else search test netid heap rest
      else search test netid heap rest

/-- What the first part of a round comes to. -/
inductive Obtained where
  | goesOn
  | breaks
  | xprt (x : SimpleXprt) (madenow : Bool)

/-- `svc_tli_create`, and what is made for the new transport. -/
def makeXprt (round : RegRound) (w : SimpleWorld α ρ π) :
    Option (Obtained × SimpleWorld α ρ π) :=
  match round.tliCreate with
  | none => some (.goesOn, w)
  | some sockinfo => do
      let (svcxprt, heap) := w.heap.malloc (.xprt round.ncNetid)
      match sockinfo with
      | none =>
          let heap ← heap.free svcxprt
          some (.goesOn, { w with heap := heap })
      | some si =>
          let recvsz := rpcGetTSizeDef si.siProto
          if recvsz = 0 then
            let heap ← heap.free svcxprt
            some (.goesOn, { w with heap := heap })
          else if round.xdrbufAlloc = false then
            let heap ← heap.free svcxprt
            some (.breaks, { w with heap := heap })
          else
            let (xdrbuf, heap) := heap.malloc (.xdrbuf recvsz none [])
            if round.netidDup = false then
              let heap ← heap.free xdrbuf
              let heap ← heap.free svcxprt
              some (.breaks, { w with heap := heap })
            else
              let (netid, heap) := heap.malloc (.netid round.ncNetid)
              some (.xprt ⟨svcxprt, netid, xdrbuf, recvsz⟩ true, { w with heap := heap })

/-- The transport of an entry that has the netid, or else a new one. -/
def obtainXprt (round : RegRound) (w : SimpleWorld α ρ π) :
    Option (Obtained × SimpleWorld α ρ π) := do
  match ← search (fun _ => true) round.ncNetid w.heap w.proglst with
  | some pl => some (.xprt ⟨pl.pTransp, pl.pNetid, pl.pXdrbuf, pl.pRecvsz⟩ false, w)
  | none => makeXprt round w

/-- What is undone when there will be no entry: nothing, unless the transport is new. -/
def undo (x : SimpleXprt) (madenow : Bool) (w : SimpleWorld α ρ π) :
    Option (SimpleWorld α ρ π) :=
  if madenow then do
    let heap ← w.heap.free x.svcxprt
    let heap ← heap.free x.xdrbuf
    let heap ← heap.free x.netid
    some { w with heap := heap }
  else some w

/-- `xp_netid` of a transport that is live. -/
def xpNetidAt (heap : Heap (SimpleCell α)) (p : Nat) : Option CString :=
  match heap.read p with
  | some (.xprt s) => some s
  | _ => none

/-- The call of `svc_reg`. It has an `nconf` only when the version is not registered yet. -/
def regCall (c : RpcRegCall α ρ π) (round : RegRound) (xpNetid : CString) (found : Bool) :
    SvcRegCall SimpleDispatch where
  prog := c.prognum
  vers := c.versnum
  dispatch := .universal
  xpNetid := some xpNetid
  nconf := if found then none else some (some round.ncNetid)
  rpcgettp := none
  netidDup := round.regDup
  xprtDup := true
  alloc := round.regAlloc
  rpcbSet := round.rpcbSet

/-- The entry for a call. -/
def entry (c : RpcRegCall α ρ π) (x : SimpleXprt) : Proglst α ρ π where
  pProgname := c.progname
  pPrognum := c.prognum
  pVersnum := c.versnum
  pProcnum := c.procnum
  pTransp := x.svcxprt
  pNetid := x.netid
  pXdrbuf := x.xdrbuf
  pRecvsz := x.recvsz
  pInproc := c.inproc
  pOutproc := c.outproc

/-- How a round ends. -/
inductive RoundEnd where
  | goesOn
  | breaks
  | done

/-- The second part of a round: `svc_reg`, and the entry. -/
def record (c : RpcRegCall α ρ π) (round : RegRound) (x : SimpleXprt) (madenow : Bool)
    (w : SimpleWorld α ρ π) : Option (RoundEnd × SimpleWorld α ρ π) := do
  let netid ← netidAt w.heap x.netid
  let pl ← search (fun pl => pl.pPrognum = c.prognum ∧ pl.pVersnum = c.versnum) netid w.heap
    w.proglst
  let xpNetid ← xpNetidAt w.heap x.svcxprt
  let r := svcReg (regCall c round xpNetid pl.isSome) w.svcHead
  let w := { w with svcHead := r.2.2 }
  if r.1 = false then
    let w ← undo x madenow w
    some (.goesOn, w)
  else if round.plAlloc = false then
    let w ← undo x madenow w
    some (.breaks, w)
  else some (.done, { w with proglst := entry c x :: w.proglst })

/-- A round of the loop of `rpc_reg`. -/
def regRound (c : RpcRegCall α ρ π) (round : RegRound) (w : SimpleWorld α ρ π) :
    Option (RoundEnd × SimpleWorld α ρ π) := do
  match ← obtainXprt round w with
  | (.goesOn, w) => some (.goesOn, w)
  | (.breaks, w) => some (.breaks, w)
  | (.xprt x madenow, w) => record c round x madenow w

/-- The loop of `rpc_reg`: `done`, and the world after it. -/
def regLoop (c : RpcRegCall α ρ π) :
    List RegRound → Bool → SimpleWorld α ρ π → Option (Bool × SimpleWorld α ρ π)
  | [], done, w => some (done, w)
  | round :: rest, done, w => do
      match ← regRound c round w with
      | (.goesOn, w) => regLoop c rest done w
      | (.breaks, w) => some (done, w)
      | (.done, w) => regLoop c rest true w

/-- `rpc_reg`. -/
def rpcReg (c : RpcRegCall α ρ π) (w : SimpleWorld α ρ π) : Option (Int × SimpleWorld α ρ π) :=
  if c.procnum = 0 then some (-1, w)
  else
    match c.setconf with
    | none => some (-1, w)
    | some rounds => (regLoop c rounds false w).map fun r => (if r.1 then 0 else -1, r.2)

/-- Nothing is registered but what other services have registered. -/
def start (svcHead : List (SvcCallout SimpleDispatch)) : SimpleWorld α ρ π :=
  ⟨Heap.empty, svcHead, []⟩

/-- The world after a sequence of calls. -/
def rpcRegs (w : SimpleWorld α ρ π) (calls : List (RpcRegCall α ρ π)) :
    Option (SimpleWorld α ρ π) := Runs.run (fun w c => (rpcReg c w).map Prod.snd) w calls

end SimpleWorld

/-- A reply to a request. -/
inductive SimpleReply (ρ π : Type) where
  /-- `svc_sendreply`. The null reply is that of `xdr_void`. -/
  | results (outproc : OutProc π) (outdata : Option ρ)
  /-- `svcerr_decode`. -/
  | decode
  /-- `svcerr_noproc`. -/
  | noproc

/-- A request that comes over a transport: `xp_netid`, the bytes of the arguments, and which replies
the transport can send. -/
structure SimpleReq (ρ π : Type) where
  rqProg : BitVec 32
  rqVers : BitVec 32
  rqProc : BitVec 32
  xpNetid : CString
  body : List UInt8
  sends : SimpleReply ρ π → Bool

/-- What a handler has done: the routine that it has run, with the arguments, and the replies that
it has sent. -/
structure Handled (α ρ π : Type) where
  ran : List ((α → Option ρ) × α)
  sent : List (SimpleReply ρ π)

namespace SimpleWorld

/-- The buffer, when it is live. -/
def bufAt (heap : Heap (SimpleCell α)) (p : Nat) : Option (Nat × List Nat) :=
  match heap.read p with
  | some (.xdrbuf size _ refers) => some (size, refers)
  | _ => none

/-- `memset (xdrbuf, 0, recvsz)`, over all of the buffer. -/
def memsetBuf (p recvsz : Nat) (heap : Heap (SimpleCell α)) : Option (Heap (SimpleCell α)) := do
  let (size, _) ← bufAt heap p
  if recvsz = size then heap.store p (.xdrbuf size none []) else none

/-- `svc_getargs` into a buffer. -/
def svcGetargs (inproc : List UInt8 → DecodedArgs α) (body : List UInt8) (p : Nat)
    (heap : Heap (SimpleCell α)) : Option (Option α × Heap (SimpleCell α)) := do
  let decoded := inproc body
  let (refers, heap) := heap.mallocs .block decoded.blocks
  let (size, _) ← bufAt heap p
  let heap ← heap.store p (.xdrbuf size decoded.args refers)
  some (decoded.args, heap)

/-- `svc_freeargs`: what the arguments refer to is given back. -/
def svcFreeargs (p : Nat) (heap : Heap (SimpleCell α)) : Option (Heap (SimpleCell α)) := do
  let (size, refers) ← bufAt heap p
  let heap ← heap.frees refers
  heap.store p (.xdrbuf size none [])

/-- What `universal` does with the entry that it has found. -/
def serve (pl : Proglst α ρ π) (rqst : SimpleReq ρ π) (heap : Heap (SimpleCell α)) :
    Option (Handled α ρ π × Heap (SimpleCell α)) := do
  let heap ← memsetBuf pl.pXdrbuf pl.pRecvsz heap
  match ← svcGetargs pl.pInproc rqst.body pl.pXdrbuf heap with
  | (none, heap) => some (⟨[], if rqst.sends .decode then [.decode] else []⟩, heap)
  | (some args, heap) =>
      let outdata := pl.pProgname args
      if outdata.isNone ∧ pl.pOutproc.isVoid = false then some (⟨[(pl.pProgname, args)], []⟩, heap)
      else if rqst.sends (.results pl.pOutproc outdata) then
        let heap ← svcFreeargs pl.pXdrbuf heap
        some (⟨[(pl.pProgname, args)], [.results pl.pOutproc outdata]⟩, heap)
      else some (⟨[(pl.pProgname, args)], []⟩, heap)

/-- The test of the search of `universal`, without the netid. -/
def isFor (rqst : SimpleReq ρ π) (pl : Proglst α ρ π) : Bool :=
  pl.pPrognum = rqst.rqProg ∧ pl.pProcnum = rqst.rqProc ∧ pl.pVersnum = rqst.rqVers

/-- `universal`: what it has done, and the heap after it. -/
def universal (rqst : SimpleReq ρ π) (w : SimpleWorld α ρ π) :
    Option (Handled α ρ π × Heap (SimpleCell α)) :=
  if rqst.rqProc = 0 then
    some (⟨[], if rqst.sends (.results .xdrVoid none) then [.results .xdrVoid none] else []⟩,
      w.heap)
  else do
    match ← search (isFor rqst) rqst.xpNetid w.heap w.proglst with
    -- A message for the operator, and nothing for the client.
    | none => some (⟨[], []⟩, w.heap)
    | some pl => serve pl rqst w.heap

end SimpleWorld
end OncRpc
