import OncRpc.Base.Chain
import OncRpc.Rec.Stream
import OncRpc.Rpc.CallMsg

/-! The cache of replies of `svc_dg.c`. Nodes and reply buffers are named by numbers, in
the order in which they were allocated. -/
namespace OncRpc

open Chain

/-- `SPARSENESS`. -/
def sparseness : Nat := 4

/-- `struct cache_node`. -/
structure CacheNode where
  cacheXid : BitVec 32
  cacheProc : BitVec 32
  cacheVers : BitVec 32
  cacheProg : BitVec 32
  cacheAddr : List UInt8
  /-- The buffer that the node owns. -/
  cacheReply : Nat
  cacheReplylen : Nat
  cacheNext : Option Nat
  deriving DecidableEq, Repr

/-- `struct cl_cache`, with the nodes that have been allocated for it. -/
structure ClCache where
  ucSize : Nat
  ucEntries : List (Option Nat)
  ucFifo : List (Option Nat)
  ucNextvictim : Nat
  ucProg : BitVec 32
  ucVers : BitVec 32
  ucProc : BitVec 32
  nodes : Nat → CacheNode
  allocated : Nat

/-- The part of a datagram transport that the cache works on: `xprt`, and `su_data(xprt)`. -/
structure SvcDg where
  host : Host
  /-- `xp_p1`. -/
  rpcBuffer : Nat
  bufs : Nat → List UInt8
  bufsAllocated : Nat
  suIosz : Nat
  /-- `x_private - x_base` of `su_xdrs`; its `x_handy` is the rest of `su_iosz`. -/
  xPriv : Nat
  suXid : BitVec 32
  suCache : Option ClCache
  /-- The `len` bytes at `buf` of the `netbuf`. -/
  xpRtaddr : List UInt8

/-- `CACHE_LOC`. -/
def cacheLoc (size : Nat) (xid : BitVec 32) : Nat := xid.toNat % (sparseness * size % 2 ^ 32)

namespace ClCache

/-- The tables as they are allocated, filled with null. -/
def empty (size : Nat) : ClCache where
  ucSize := size
  ucEntries := List.replicate (size * sparseness % 2 ^ 32) none
  ucFifo := List.replicate size none
  ucNextvictim := 0
  ucProg := 0
  ucVers := 0
  ucProc := 0
  nodes := fun _ =>
    { cacheXid := 0, cacheProc := 0, cacheVers := 0, cacheProg := 0, cacheAddr := [],
      cacheReply := 0, cacheReplylen := 0, cacheNext := none }
  allocated := 0

/-- What `*vicp` is for a pointer to a link. -/
def link (uc : ClCache) : Slot Nat Nat → Option Nat
  | .head loc => uc.ucEntries.getD loc none
  | .next v => (uc.nodes v).cacheNext

/-- `*vicp = p`. -/
def setLink (uc : ClCache) (p : Option Nat) : Slot Nat Nat → ClCache
  | .head loc => { uc with ucEntries := uc.ucEntries.set loc p }
  | .next v =>
      { uc with nodes := Function.update uc.nodes v { uc.nodes v with cacheNext := p } }

/-- The loop of `cache_set` over the chain of the victim. A chain is no longer than the
number of nodes. -/
def findVictim (uc : ClCache) (victim : Nat) : Option (Slot Nat Nat) :=
  find uc.link victim (uc.allocated + 1)
    (.head (cacheLoc uc.ucSize (uc.nodes victim).cacheXid))

/-- The node becomes the head of its chain and the last victim of all. -/
def insert (uc : ClCache) (victim : Nat) (node : CacheNode) : ClCache :=
  { uc with
    nodes := Function.update uc.nodes victim node
    ucEntries := uc.ucEntries.set (cacheLoc uc.ucSize node.cacheXid) (some victim)
    ucFifo := uc.ucFifo.set uc.ucNextvictim (some victim)
    ucNextvictim := (uc.ucNextvictim + 1) % uc.ucSize }

/-- Where no entry is found, the request is remembered for `cache_set`. -/
def remember (uc : ClCache) (msg : RpcMsg) : ClCache :=
  { uc with
    ucProc := msg.rmCall.cbProc
    ucVers := msg.rmCall.cbVers
    ucProg := msg.rmCall.cbProg }

end ClCache

namespace SvcDg

/-- `mem_alloc(su->su_iosz)`. -/
def allocBuffer (dg : SvcDg) : Nat × SvcDg :=
  (dg.bufsAllocated, { dg with
    bufs := Function.update dg.bufs dg.bufsAllocated (dg.host.malloc dg.suIosz)
    bufsAllocated := dg.bufsAllocated + 1 })

/-- Store at the start of `rpc_buffer`. -/
def fill (bs : List UInt8) (dg : SvcDg) : SvcDg :=
  { dg with
    bufs := Function.update dg.bufs dg.rpcBuffer
      (Buffer.writeAt (dg.bufs dg.rpcBuffer) 0 bs) }

/-- `svc_dg_enablecache`, when its allocations succeed. -/
def svcDgEnablecache (size : BitVec 32) (dg : SvcDg) : Bool × SvcDg :=
  match dg.suCache with
  | some _ => (false, dg)
  | none => (true, { dg with suCache := some (ClCache.empty size.toNat) })

/-- The test of `cache_get`. -/
def matchesEntry (msg : RpcMsg) (dg : SvcDg) (ent : CacheNode) : Bool :=
  decide (ent.cacheXid = dg.suXid ∧ ent.cacheProc = msg.rmCall.cbProc ∧
    ent.cacheVers = msg.rmCall.cbVers ∧ ent.cacheProg = msg.rmCall.cbProg ∧
    ent.cacheAddr.length = dg.xpRtaddr.length ∧
    ent.cacheAddr.take dg.xpRtaddr.length = dg.xpRtaddr.take dg.xpRtaddr.length)

/-- `cache_get`: `*replyp` and `*replylenp` when an entry is found. -/
def cacheGet (msg : RpcMsg) (uc : ClCache) (dg : SvcDg) :
    Option (Option (Nat × Nat) × SvcDg) :=
  let loc := cacheLoc uc.ucSize dg.suXid
  let wanted := fun v => dg.matchesEntry msg (uc.nodes v)
  match search (fun v => uc.link (.next v)) wanted uc.allocated (uc.link (.head loc)) with
  | none => none
  | some (some ent) =>
      some (some ((uc.nodes ent).cacheReply, (uc.nodes ent).cacheReplylen), dg)
  | some none =>
      some (none, { dg with suCache := some (uc.remember msg) })

/-- The node that `cache_set` fills in, linked in front of its chain. -/
def replyNode (replylen : Nat) (uc : ClCache) (dg : SvcDg) : CacheNode where
  cacheXid := dg.suXid
  cacheProc := uc.ucProc
  cacheVers := uc.ucVers
  cacheProg := uc.ucProg
  cacheAddr := dg.xpRtaddr
  cacheReply := dg.rpcBuffer
  cacheReplylen := replylen
  cacheNext := uc.link (.head (cacheLoc uc.ucSize dg.suXid))

/-- The second half of `cache_set`: the transport gives its buffer to the victim and goes
on with `newbuf`. -/
def cacheStore (replylen victim newbuf : Nat) (uc : ClCache) (dg : SvcDg) : SvcDg :=
  { dg with
    rpcBuffer := newbuf
    xPriv := 0
    suCache := some (uc.insert victim (dg.replyNode replylen uc)) }

/-- `cache_set`, when its allocations succeed. The answer is false when the victim is not
found. -/
def cacheSet (replylen : Nat) (uc : ClCache) (dg : SvcDg) : Option (Bool × SvcDg) :=
  match uc.ucFifo.getD uc.ucNextvictim none with
  | some victim =>
      match uc.findVictim victim with
      | none => none
      | some vicp =>
          if uc.link vicp = none then some (false, dg)
          else
            some (true, dg.cacheStore replylen victim (uc.nodes victim).cacheReply
              (uc.setLink (uc.nodes victim).cacheNext vicp))
  | none =>
      let (newbuf, dg) := dg.allocBuffer
      some (true, dg.cacheStore replylen uc.allocated newbuf
        { uc with allocated := uc.allocated + 1 })

end SvcDg
end OncRpc
