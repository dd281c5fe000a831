import OncRpc.Base.Heap
import OncRpc.Base.Runs
import OncRpc.Svc.CacheRun

/-! The cache of replies with the buffers that it has allocated: those for the replies, which go
from the transport to the entries and back, and those for the addresses of the senders. -/
namespace OncRpc

open Chain

/-- `struct cache_node`, with the pointers to its buffers. -/
structure HeapNode where
  cacheXid : BitVec 32
  cacheProc : BitVec 32
  cacheVers : BitVec 32
  cacheProg : BitVec 32
  /-- `len` and `buf` of `cache_addr`. -/
  cacheAddrLen : Nat
  cacheAddrBuf : Option Nat
  cacheReply : Nat
  cacheReplylen : Nat
  cacheNext : Option Nat
  deriving DecidableEq, Repr

/-- `struct cl_cache`, with the nodes that have been allocated for it. -/
structure HeapCache where
  ucSize : Nat
  ucEntries : List (Option Nat)
  ucFifo : List (Option Nat)
  ucNextvictim : Nat
  ucProg : BitVec 32
  ucVers : BitVec 32
  ucProc : BitVec 32
  nodes : Nat → HeapNode
  allocated : Nat

/-- A datagram transport, with the buffers that it and its cache have been given. -/
structure HeapDg where
  host : Host
  replies : Heap (List UInt8)
  addrs : Heap (List UInt8)
  /-- `xp_p1`. -/
  rpcBuffer : Nat
  suIosz : Nat
  /-- `x_base` of `su_xdrs`. -/
  xBase : Nat
  suXid : BitVec 32
  suCache : Option HeapCache
  /-- The `len` bytes at `buf` of the `netbuf`. -/
  xpRtaddr : List UInt8

/-- The divisor of `CACHE_LOC`. -/
def cacheChains (size : Nat) : Nat := sparseness * size % 2 ^ 32

namespace HeapCache

def empty (size : Nat) : HeapCache where
  ucSize := size
  ucEntries := List.replicate (size * sparseness % 2 ^ 32) none
  ucFifo := List.replicate size none
  ucNextvictim := 0
  ucProg := 0
  ucVers := 0
  ucProc := 0
  nodes := fun _ =>
    { cacheXid := 0, cacheProc := 0, cacheVers := 0, cacheProg := 0, cacheAddrLen := 0,
      cacheAddrBuf := none, cacheReply := 0, cacheReplylen := 0, cacheNext := none }
  allocated := 0

/-- What `*vicp` is for a pointer to a link. -/
def link (uc : HeapCache) : Slot Nat Nat → Option Nat
  | .head loc => uc.ucEntries.getD loc none
  | .next v => (uc.nodes v).cacheNext

/-- `*vicp = p`. -/
def setLink (uc : HeapCache) (p : Option Nat) : Slot Nat Nat → HeapCache
  | .head loc => { uc with ucEntries := uc.ucEntries.set loc p }
  | .next v =>
      { uc with nodes := Function.update uc.nodes v { uc.nodes v with cacheNext := p } }

/-- The loop of `cache_set` over the chain of the victim. -/
def findVictim (uc : HeapCache) (victim : Nat) : Option (Slot Nat Nat) :=
  find uc.link victim (uc.allocated + 1)
    (.head (cacheLoc uc.ucSize (uc.nodes victim).cacheXid))

/-- The node becomes the head of its chain and the last victim of all. -/
def insert (uc : HeapCache) (victim : Nat) (node : HeapNode) : HeapCache :=
  { uc with
    nodes := Function.update uc.nodes victim node
    ucEntries := uc.ucEntries.set (cacheLoc uc.ucSize node.cacheXid) (some victim)
    ucFifo := uc.ucFifo.set uc.ucNextvictim (some victim)
    ucNextvictim := (uc.ucNextvictim + 1) % uc.ucSize }

def remember (uc : HeapCache) (msg : RpcMsg) : HeapCache :=
  { uc with
    ucProc := msg.rmCall.cbProc
    ucVers := msg.rmCall.cbVers
    ucProg := msg.rmCall.cbProg }

end HeapCache

namespace HeapDg

/-- The test of `cache_get`. Without a result an address is compared that is not there. -/
def matchesEntry (msg : RpcMsg) (dg : HeapDg) (ent : HeapNode) : Option Bool :=
  if ent.cacheXid = dg.suXid ∧ ent.cacheProc = msg.rmCall.cbProc ∧
      ent.cacheVers = msg.rmCall.cbVers ∧ ent.cacheProg = msg.rmCall.cbProg ∧
      ent.cacheAddrLen = dg.xpRtaddr.length then do
    let addr ← dg.addrs.read (← ent.cacheAddrBuf)
    some (decide (addr.take dg.xpRtaddr.length = dg.xpRtaddr))
  else some false

/-- The loop of `cache_get`, with a bound on its rounds. -/
def searchEntry (msg : RpcMsg) (uc : HeapCache) (dg : HeapDg) :
    Nat → Option Nat → Option (Option Nat)
  | _, none => some none
  | 0, some _ => none
  | n + 1, some ent => do
      if ← dg.matchesEntry msg (uc.nodes ent) then some (some ent)
      else searchEntry msg uc dg n (uc.nodes ent).cacheNext

/-- `cache_get`: `*replyp` and `*replylenp` when an entry is found. There is no result where
`CACHE_LOC` divides by zero. -/
def cacheGet (msg : RpcMsg) (uc : HeapCache) (dg : HeapDg) :
    Option (Option (Nat × Nat) × HeapDg) :=
  if cacheChains uc.ucSize = 0 then none
  else
    match dg.searchEntry msg uc uc.allocated (uc.link (.head (cacheLoc uc.ucSize dg.suXid))) with
    | none => none
    | some (some ent) =>
        some (some ((uc.nodes ent).cacheReply, (uc.nodes ent).cacheReplylen), dg)
    | some none => some (none, { dg with suCache := some (uc.remember msg) })

/-- The second half of `cache_set`: the transport gives its buffer to the victim and goes on with
`newbuf`, where its stream is created again, and the address is copied. -/
def cacheStore (replylen victim newbuf : Nat) (uc : HeapCache) (dg : HeapDg) : HeapDg :=
  let addr := dg.addrs.malloc dg.xpRtaddr
  { dg with
    rpcBuffer := newbuf
    xBase := newbuf
    addrs := addr.2
    suCache := some (uc.insert victim
      { cacheXid := dg.suXid
        cacheProc := uc.ucProc
        cacheVers := uc.ucVers
        cacheProg := uc.ucProg
        cacheAddrLen := dg.xpRtaddr.length
        cacheAddrBuf := some addr.1
        cacheReply := dg.rpcBuffer
        cacheReplylen := replylen
        cacheNext := uc.link (.head (cacheLoc uc.ucSize dg.suXid)) }) }

/-- `cache_set`, when its allocations succeed. The answer is false when the victim is not found. -/
def cacheSet (replylen : Nat) (uc : HeapCache) (dg : HeapDg) : Option (Bool × HeapDg) :=
  if cacheChains uc.ucSize = 0 then none
  else
    match uc.ucFifo.getD uc.ucNextvictim none with
    | some victim =>
        match uc.findVictim victim with
        | none => none
        | some vicp =>
            if uc.link vicp = none then some (false, dg)
            else
              some (true, dg.cacheStore replylen victim (uc.nodes victim).cacheReply
                (uc.setLink (uc.nodes victim).cacheNext vicp))
    | none =>
        let newbuf := dg.replies.malloc (dg.host.malloc dg.suIosz)
        some (true, { dg with replies := newbuf.2 }.cacheStore replylen uc.allocated newbuf.1
          { uc with allocated := uc.allocated + 1 })

/-- Store at the start of a buffer, as far as it goes. -/
def fill (b : Nat) (bs : List UInt8) (dg : HeapDg) : Option HeapDg := do
  let old ← dg.replies.read b
  let replies ← dg.replies.store b (Buffer.writeAt old 0 (bs.take dg.suIosz))
  some { dg with replies := replies }

/-- A transport as `svc_dg_create` and `svc_dg_enablecache` leave it, when their allocations
succeed. -/
def create (host : Host) (suIosz : Nat) (size : BitVec 32) : HeapDg where
  host := host
  replies := (Heap.empty.malloc (host.malloc suIosz)).2
  addrs := Heap.empty
  rpcBuffer := 0
  suIosz := suIosz
  xBase := 0
  suXid := 0
  suCache := some (HeapCache.empty size.toNat)
  xpRtaddr := []

end HeapDg

/-- What is done with a transport that has a cache. -/
inductive CacheOp where
  /-- A datagram comes into `rpc_buffer`, from some sender. -/
  | recv (bs : List UInt8) (xid : BitVec 32) (addr : List UInt8)
  /-- A reply is encoded by `su_xdrs`. -/
  | encode (bs : List UInt8)
  | get (msg : RpcMsg)
  | set (replylen : Nat)

namespace HeapDg

/-- Without a result memory is used that is not there, or there is no outcome. -/
def step (dg : HeapDg) : CacheOp → Option HeapDg
  | .recv bs xid addr =>
      (dg.fill dg.rpcBuffer bs).map fun dg => { dg with suXid := xid, xpRtaddr := addr }
  | .encode bs => dg.fill dg.xBase bs
  | .get msg => do
      let uc ← dg.suCache
      let r ← dg.cacheGet msg uc
      some r.2
  | .set replylen => do
      let uc ← dg.suCache
      let r ← dg.cacheSet replylen uc
      some r.2

end HeapDg

/-! ### What is in the buffers -/

/-- A node with the address that is in its buffer. -/
def HeapNode.contents (addrs : Heap (List UInt8)) (node : HeapNode) : CacheNode where
  cacheXid := node.cacheXid
  cacheProc := node.cacheProc
  cacheVers := node.cacheVers
  cacheProg := node.cacheProg
  cacheAddr := (node.cacheAddrBuf.bind addrs.read).getD []
  cacheReply := node.cacheReply
  cacheReplylen := node.cacheReplylen
  cacheNext := node.cacheNext

def HeapCache.contents (addrs : Heap (List UInt8)) (uc : HeapCache) : ClCache where
  ucSize := uc.ucSize
  ucEntries := uc.ucEntries
  ucFifo := uc.ucFifo
  ucNextvictim := uc.ucNextvictim
  ucProg := uc.ucProg
  ucVers := uc.ucVers
  ucProc := uc.ucProc
  nodes v := (uc.nodes v).contents addrs
  allocated := uc.allocated

/-- The transport without the names of the buffers for addresses. -/
def HeapDg.contents (dg : HeapDg) : SvcDg where
  host := dg.host
  rpcBuffer := dg.rpcBuffer
  bufs b := (dg.replies.read b).getD []
  bufsAllocated := dg.replies.brk
  suIosz := dg.suIosz
  xPriv := 0
  suXid := dg.suXid
  suCache := dg.suCache.map (HeapCache.contents dg.addrs)
  xpRtaddr := dg.xpRtaddr

section Contents

variable {dg dg' : HeapDg} {uc : HeapCache} {addrs : Heap (List UInt8)}

/-- A node is as long as its address, which is in a buffer that has been handed out. -/
structure HeapDg.Addressed (dg : HeapDg) (uc : HeapCache) : Prop where
  handed : ∀ v p, (uc.nodes v).cacheAddrBuf = some p → p < dg.addrs.brk
  length : ∀ v, (uc.nodes v).cacheAddrLen = ((uc.nodes v).contents dg.addrs).cacheAddr.length

theorem HeapCache.link_contents (uc : HeapCache) (addrs : Heap (List UInt8)) :
    (uc.contents addrs).link = uc.link := by
  funext slot
  cases slot <;> rfl

theorem HeapCache.findVictim_contents (uc : HeapCache) (addrs : Heap (List UInt8)) (v : Nat) :
    (uc.contents addrs).findVictim v = uc.findVictim v := by
  rw [ClCache.findVictim, HeapCache.findVictim, uc.link_contents]
  rfl

theorem HeapCache.contents_setLink (uc : HeapCache) (addrs : Heap (List UInt8)) (p : Option Nat)
    (slot : Slot Nat Nat) :
    (uc.setLink p slot).contents addrs = (uc.contents addrs).setLink p slot := by
  cases slot with
  | head loc => rfl
  | next v =>
      simp only [HeapCache.setLink, ClCache.setLink, HeapCache.contents, ClCache.mk.injEq, true_and,
        and_true]
      funext w
      by_cases hSame : w = v
      · subst hSame
        simp [HeapNode.contents]
      · simp [Function.update_of_ne hSame]

/-- The address is copied, and nothing else of what there is changes. -/
theorem HeapDg.Addressed.contents_cacheStore (h : dg.Addressed uc) (replylen victim newbuf : Nat) :
    (dg.cacheStore replylen victim newbuf uc).contents =
      dg.contents.cacheStore replylen victim newbuf (uc.contents dg.addrs) := by
  have hNodes : ∀ v, (uc.nodes v).contents (dg.addrs.malloc dg.xpRtaddr).2 =
      (uc.nodes v).contents dg.addrs := by
    intro v
    rw [HeapNode.contents, HeapNode.contents]
    rcases hBuf : (uc.nodes v).cacheAddrBuf with - | p
    · rfl
    · rw [Option.bind_some, Option.bind_some, Heap.read_malloc,
        if_neg (Nat.ne_of_lt (h.handed v p hBuf))]
  have hLink := uc.link_contents dg.addrs
  simp only [HeapDg.cacheStore, SvcDg.cacheStore, HeapDg.contents, Option.map_some, SvcDg.mk.injEq,
    Option.some.injEq, true_and, and_true]
  simp only [HeapCache.insert, ClCache.insert, HeapCache.contents, ClCache.mk.injEq, true_and,
    and_true]
  refine ⟨rfl, funext fun v => ?_⟩
  by_cases hSame : v = victim
  · subst hSame
    rw [Function.update_self, Function.update_self]
    simp only [HeapNode.contents, SvcDg.replyNode, CacheNode.mk.injEq, Option.bind_some,
      Heap.malloc_fst, Heap.read_malloc, if_true, Option.getD_some, true_and]
    rfl
  · rw [Function.update_of_ne hSame, Function.update_of_ne hSame]
    exact hNodes v

theorem HeapDg.Addressed.setLink (h : dg.Addressed uc) (p : Option Nat) (slot : Slot Nat Nat) :
    dg.Addressed (uc.setLink p slot) := by
  cases slot with
  | head loc => exact ⟨h.handed, h.length⟩
  | next u =>
      constructor
      · intro v q hBuf
        by_cases hSame : v = u
        · subst hSame
          refine h.handed v q ?_
          simpa [HeapCache.setLink] using hBuf
        · refine h.handed v q ?_
          simpa [HeapCache.setLink, Function.update_of_ne hSame] using hBuf
      · intro v
        by_cases hSame : v = u
        · subst hSame
          simpa [HeapCache.setLink, HeapNode.contents] using h.length v
        · simpa [HeapCache.setLink, Function.update_of_ne hSame] using h.length v

/-- A new buffer for replies. -/
theorem HeapDg.contents_malloc (dg : HeapDg) :
    ({ dg with replies := (dg.replies.malloc (dg.host.malloc dg.suIosz)).2 } : HeapDg).contents =
      dg.contents.allocBuffer.2 := by
  simp only [HeapDg.contents, SvcDg.allocBuffer, Heap.brk_malloc, SvcDg.mk.injEq, true_and,
    and_true]
  funext b
  by_cases hSame : b = dg.replies.brk
  · subst hSame
    rw [Heap.read_malloc, if_pos rfl, Function.update_self, Option.getD_some]
  · rw [Heap.read_malloc, if_neg hSame, Function.update_of_ne hSame]

/-- `cache_set` does to the contents what it does there. -/
theorem HeapDg.Addressed.contents_cacheSet {replylen : Nat} {r : Bool × HeapDg}
    (h : dg.Addressed uc) (hSet : dg.cacheSet replylen uc = some r) :
    dg.contents.cacheSet replylen (uc.contents dg.addrs) = some (r.1, r.2.contents) := by
  unfold HeapDg.cacheSet at hSet
  split at hSet
  · cases hSet
  · have hFifo : (uc.contents dg.addrs).ucFifo.getD (uc.contents dg.addrs).ucNextvictim none =
        uc.ucFifo.getD uc.ucNextvictim none := rfl
    unfold SvcDg.cacheSet
    rw [hFifo]
    rcases hHand : uc.ucFifo.getD uc.ucNextvictim none with - | victim
    · rw [hHand] at hSet
      cases hSet
      have hNew : ({ dg with replies := (dg.replies.malloc (dg.host.malloc dg.suIosz)).2 } :
          HeapDg).Addressed { uc with allocated := uc.allocated + 1 } := ⟨h.handed, h.length⟩
      dsimp only
      rw [hNew.contents_cacheStore, dg.contents_malloc]
      rfl
    · rw [hHand] at hSet
      dsimp only at hSet ⊢
      rw [uc.findVictim_contents]
      rcases hFind : uc.findVictim victim with - | vicp
      · rw [hFind] at hSet
        cases hSet
      · rw [hFind] at hSet
        dsimp only at hSet ⊢
        rw [uc.link_contents]
        split at hSet
        · next hLink =>
            cases hSet
            rw [if_pos hLink]
        · next hLink =>
            cases hSet
            rw [if_neg hLink, (h.setLink _ vicp).contents_cacheStore, uc.contents_setLink]
            rfl

theorem HeapDg.Addressed.matchesEntry {msg : RpcMsg} {v : Nat} {found : Bool}
    (h : dg.Addressed uc) (hMatch : dg.matchesEntry msg (uc.nodes v) = some found) :
    dg.contents.matchesEntry msg ((uc.contents dg.addrs).nodes v) = found := by
  have hLength := h.length v
  unfold HeapDg.matchesEntry at hMatch
  unfold SvcDg.matchesEntry
  show decide ((uc.nodes v).cacheXid = dg.suXid ∧ (uc.nodes v).cacheProc = msg.rmCall.cbProc ∧
    (uc.nodes v).cacheVers = msg.rmCall.cbVers ∧ (uc.nodes v).cacheProg = msg.rmCall.cbProg ∧
    ((uc.nodes v).contents dg.addrs).cacheAddr.length = dg.xpRtaddr.length ∧
    ((uc.nodes v).contents dg.addrs).cacheAddr.take dg.xpRtaddr.length =
      dg.xpRtaddr.take dg.xpRtaddr.length) = found
  rw [← hLength]
  split at hMatch
  · next hSame =>
      obtain ⟨hXid, hProc, hVers, hProg, hLen⟩ := hSame
      simp only [Option.bind_eq_bind, Option.bind_eq_some_iff, Option.some.injEq] at hMatch
      obtain ⟨p, hBuf, addr, hRead, hFound⟩ := hMatch
      have hAddr : ((uc.nodes v).contents dg.addrs).cacheAddr = addr := by
        rw [HeapNode.contents, hBuf, Option.bind_some, hRead, Option.getD_some]
      rw [hAddr, List.take_length, ← hFound]
      simp [hXid, hProc, hVers, hProg, hLen]
  · next hOther =>
      cases hMatch
      apply decide_eq_false
      rintro ⟨hXid, hProc, hVers, hProg, hLen, -⟩
      exact hOther ⟨hXid, hProc, hVers, hProg, hLen⟩

theorem HeapDg.Addressed.searchEntry {msg : RpcMsg} {n : Nat} {link found : Option Nat}
    (h : dg.Addressed uc) (hSearch : dg.searchEntry msg uc n link = some found) :
    search (fun v => (uc.contents dg.addrs).link (.next v))
      (fun v => dg.contents.matchesEntry msg ((uc.contents dg.addrs).nodes v)) n link =
        some found := by
  induction n generalizing link with
  | zero =>
      rcases link with - | v
      · exact hSearch
      · cases hSearch
  | succ n ih =>
      rcases link with - | v
      · exact hSearch
      · simp only [HeapDg.searchEntry, Option.bind_eq_bind, Option.bind_eq_some_iff] at hSearch
        obtain ⟨wanted, hMatch, hNext⟩ := hSearch
        rw [search, h.matchesEntry hMatch]
        rcases wanted with - | -
        · exact ih hNext
        · exact hNext

/-- `cache_get` finds in the contents what it finds there. -/
theorem HeapDg.Addressed.contents_cacheGet {msg : RpcMsg} {r : Option (Nat × Nat) × HeapDg}
    (h : dg.Addressed uc) (hGet : dg.cacheGet msg uc = some r) :
    dg.contents.cacheGet msg (uc.contents dg.addrs) = some (r.1, r.2.contents) := by
  unfold HeapDg.cacheGet at hGet
  split at hGet
  · cases hGet
  · rcases hSearch : dg.searchEntry msg uc uc.allocated
      (uc.link (.head (cacheLoc uc.ucSize dg.suXid))) with - | found
    · rw [hSearch] at hGet
      cases hGet
    · have hFound := h.searchEntry hSearch
      rw [hSearch] at hGet
      unfold SvcDg.cacheGet
      dsimp only
      rw [uc.link_contents] at hFound ⊢
      show (match search (fun v => uc.link (.next v))
        (fun v => dg.contents.matchesEntry msg ((uc.contents dg.addrs).nodes v)) uc.allocated
        (uc.link (.head (cacheLoc uc.ucSize dg.suXid))) with
          | none => _
          | some (some ent) => _
          | some none => _) = _
      rw [hFound]
      rcases found with - | ent
      · cases hGet
        rfl
      · cases hGet
        rfl

end Contents

/-- The entries of a cache are the nodes in the ring. -/
def HeapCache.entries (uc : HeapCache) : List Nat := uc.ucFifo.reduceOption

namespace HeapDg

/-- The buffers for replies of a transport and its cache. -/
def replyBufs (uc : HeapCache) (dg : HeapDg) : List Nat :=
  dg.rpcBuffer :: uc.entries.map fun v => (uc.nodes v).cacheReply

/-- Every buffer belongs to an entry, but for the one of the transport, and no two entries share
one. -/
structure Owns (dg : HeapDg) (uc : HeapCache) : Prop where
  live_replies : dg.replies.live = uc.entries.length + 1
  live_addrs : dg.addrs.live = uc.entries.length
  nodup_replies : (dg.replyBufs uc).Nodup
  nodup_addrs : (uc.entries.map fun v => (uc.nodes v).cacheAddrBuf).Nodup
  read_reply : ∀ b ∈ dg.replyBufs uc, ∃ bs, dg.replies.read b = some bs
  read_addr : ∀ v ∈ uc.entries, ∃ p bs,
    (uc.nodes v).cacheAddrBuf = some p ∧ dg.addrs.read p = some bs
  xBase_eq : dg.xBase = dg.rpcBuffer

def Bounded (dg : HeapDg) : Prop := ∃ uc, dg.suCache = some uc ∧ dg.Owns uc

/-- No buffer of an entry is freed or written. -/
structure Spares (dg dg' : HeapDg) : Prop where
  reply : ∀ uc, dg.suCache = some uc → ∀ v ∈ uc.entries,
    dg'.replies.read (uc.nodes v).cacheReply = dg.replies.read (uc.nodes v).cacheReply
  addr : ∀ uc, dg.suCache = some uc → ∀ v ∈ uc.entries, ∀ p, (uc.nodes v).cacheAddrBuf = some p →
    dg'.addrs.read p = dg.addrs.read p

/-- `cache_set` takes its victim out of the cache. -/
def Evicts (dg : HeapDg) : CacheOp → Prop
  | .set _ => ∃ uc, dg.suCache = some uc ∧ cacheChains uc.ucSize ≠ 0 ∧ ∃ victim vicp,
      uc.ucFifo.getD uc.ucNextvictim none = some victim ∧ uc.findVictim victim = some vicp ∧
        uc.link vicp ≠ none
  | _ => False

end HeapDg

/-! ### What the calls leave -/

/-- A new name in an unused place of a ring. -/
theorem reduceOption_set_none {l : List (Option Nat)} {i : Nat} (hLt : i < l.length)
    (hNone : l.getD i none = none) (v : Nat) :
    (l.set i (some v)).reduceOption.Perm (v :: l.reduceOption) := by
  have hHere : l[i] = none := by
    rwa [List.getD_eq_getElem?_getD, List.getElem?_eq_getElem hLt, Option.getD_some] at hNone
  have hSplit : l = l.take i ++ none :: l.drop (i + 1) := by
    rw [← hHere, List.cons_getElem_drop_succ, List.take_append_drop]
  have hOld : l.reduceOption = (l.take i).reduceOption ++ (l.drop (i + 1)).reduceOption := by
    conv_lhs => rw [hSplit]
    rw [List.reduceOption_append, List.reduceOption_cons_of_none]
  have hNew : (l.set i (some v)).reduceOption =
      (l.take i).reduceOption ++ v :: (l.drop (i + 1)).reduceOption := by
    rw [List.set_eq_take_append_cons_drop, if_pos hLt, List.reduceOption_append,
      List.reduceOption_cons_of_some]
  rw [hOld, hNew]
  exact List.perm_middle

/-- A name in its own place changes nothing. -/
theorem set_of_getD {l : List (Option Nat)} {i v : Nat} (h : l.getD i none = some v) :
    l.set i (some v) = l := by
  rw [List.getD_eq_getElem?_getD] at h
  rcases hGet : l[i]? with - | p
  · rw [hGet] at h
    cases h
  · rw [hGet, Option.getD_some] at h
    obtain ⟨hLt, hHere⟩ := List.getElem?_eq_some_iff.mp hGet
    rw [← h, ← hHere, List.set_getElem_self]

/-- The ring and the names of the nodes are in order. -/
structure HeapCache.Tidy (uc : HeapCache) : Prop where
  nodup : uc.entries.Nodup
  old : ∀ v ∈ uc.entries, v < uc.allocated
  length_fifo : uc.ucFifo.length = uc.ucSize
  hand_lt : 0 < uc.ucSize → uc.ucNextvictim < uc.ucSize

/-- Writing through a pointer to a link leaves the ring and the buffers of the nodes. -/
theorem HeapCache.setLink_same (uc : HeapCache) (p : Option Nat) (slot : Slot Nat Nat) :
    (uc.setLink p slot).ucSize = uc.ucSize ∧ (uc.setLink p slot).ucFifo = uc.ucFifo ∧
      (uc.setLink p slot).ucNextvictim = uc.ucNextvictim := by
  cases slot <;> exact ⟨rfl, rfl, rfl⟩

namespace HeapDg

variable {dg dg' : HeapDg} {uc : HeapCache}

theorem fill_updated {b : Nat} {bs : List UInt8} (h : dg.fill b bs = some dg') :
    ∃ replies bs', dg' = { dg with replies := replies } ∧
      dg.replies.Updated replies b (some bs') := by
  unfold fill at h
  rcases hRead : dg.replies.read b with - | old
  · rw [hRead] at h
    cases h
  · obtain ⟨replies, hStore, hUpdated⟩ :=
      Heap.store_of_read hRead (Buffer.writeAt old 0 (bs.take dg.suIosz))
    rw [hRead] at h
    simp only [Option.bind_eq_bind, Option.bind_some, hStore, Option.some.injEq] at h
    exact ⟨replies, _, h.symm, hUpdated⟩

/-- What is written to the buffer of the transport comes to no entry. -/
theorem Owns.fill {bs : List UInt8} (h : dg.Owns uc) (hCache : dg.suCache = some uc)
    (hFill : dg.fill dg.rpcBuffer bs = some dg') :
    dg'.Owns uc ∧ dg'.suCache = some uc ∧ dg.Spares dg' := by
  obtain ⟨replies, bs', rfl, hUpdated⟩ := fill_updated hFill
  refine ⟨{ h with
    live_replies := hUpdated.live_eq.trans h.live_replies
    read_reply := fun b hb => ?_ }, hCache, ⟨fun uc' hUc v hv => ?_, fun _ _ _ _ _ _ => rfl⟩⟩
  · obtain ⟨old, hOld⟩ := h.read_reply b hb
    show ∃ bs, replies.read b = some bs
    rw [hUpdated.read]
    split
    · exact ⟨bs', rfl⟩
    · exact ⟨old, hOld⟩
  · cases hCache.symm.trans hUc
    have hApart : (uc.nodes v).cacheReply ≠ dg.rpcBuffer := by
      intro hSame
      apply (List.nodup_cons.mp h.nodup_replies).1
      rw [← hSame]
      exact List.mem_map_of_mem hv
    show replies.read _ = _
    rw [hUpdated.read, if_neg hApart]

theorem cacheGet_cases {msg : RpcMsg} {r : Option (Nat × Nat) × HeapDg}
    (h : dg.cacheGet msg uc = some r) :
    r.2 = dg ∨ r.2 = { dg with suCache := some (uc.remember msg) } := by
  unfold cacheGet at h
  split at h
  · cases h
  · split at h
    · cases h
    · cases h
      exact Or.inl rfl
    · cases h
      exact Or.inr rfl

/-- All that `cache_set` can do. -/
theorem cacheSet_cases {replylen : Nat} {r : Bool × HeapDg}
    (h : dg.cacheSet replylen uc = some r) : cacheChains uc.ucSize ≠ 0 ∧
    (r.2 = dg ∨
      (uc.ucFifo.getD uc.ucNextvictim none = none ∧
        r.2 = { dg with replies := (dg.replies.malloc (dg.host.malloc dg.suIosz)).2 }.cacheStore
          replylen uc.allocated dg.replies.brk { uc with allocated := uc.allocated + 1 }) ∨
      ∃ victim vicp, uc.ucFifo.getD uc.ucNextvictim none = some victim ∧
        uc.findVictim victim = some vicp ∧ uc.link vicp ≠ none ∧
        r.2 = dg.cacheStore replylen victim (uc.nodes victim).cacheReply
          (uc.setLink (uc.nodes victim).cacheNext vicp)) := by
  unfold cacheSet at h
  split at h
  · cases h
  · next hChains =>
      refine ⟨hChains, ?_⟩
      split at h
      · next victim hHand =>
          split at h
          · cases h
          · next vicp hFind =>
              split at h
              · cases h
                exact Or.inl rfl
              · next hLink =>
                  cases h
                  exact Or.inr (Or.inr ⟨victim, vicp, hHand, hFind, hLink, rfl⟩)
      · next hHand =>
          cases h
          exact Or.inr (Or.inl ⟨hHand, rfl⟩)

end HeapDg

section New

variable {uc : HeapCache} {node : HeapNode}

/-- The cache with a node that has just been allocated. -/
def HeapCache.insertNew (uc : HeapCache) (node : HeapNode) : HeapCache :=
  { uc with allocated := uc.allocated + 1 }.insert uc.allocated node

theorem HeapCache.Tidy.entries_insertNew (h : uc.Tidy) (node : HeapNode) (hSize : 0 < uc.ucSize)
    (hHand : uc.ucFifo.getD uc.ucNextvictim none = none) :
    (uc.insertNew node).entries.Perm (uc.allocated :: uc.entries) := by
  have hLt : uc.ucNextvictim < uc.ucFifo.length := by
    rw [h.length_fifo]
    exact h.hand_lt hSize
  exact reduceOption_set_none hLt hHand uc.allocated

/-- The new node is there, and the others are what they were. -/
theorem HeapCache.Tidy.map_insertNew {β : Type} (h : uc.Tidy) (node : HeapNode)
    (hSize : 0 < uc.ucSize)
    (hHand : uc.ucFifo.getD uc.ucNextvictim none = none) (f : HeapNode → β) :
    ((uc.insertNew node).entries.map fun v => f ((uc.insertNew node).nodes v)).Perm
      (f node :: uc.entries.map fun v => f (uc.nodes v)) := by
  have hPerm := (h.entries_insertNew node hSize hHand).map
    fun v => f ((uc.insertNew node).nodes v)
  have hNew : (uc.insertNew node).nodes uc.allocated = node := Function.update_self _ _ _
  have hOld : (uc.entries.map fun v => f ((uc.insertNew node).nodes v)) =
      uc.entries.map fun v => f (uc.nodes v) := by
    apply List.map_congr_left
    intro v hv
    have hNe : v ≠ uc.allocated := Nat.ne_of_lt (h.old v hv)
    show f (Function.update uc.nodes uc.allocated node v) = _
    rw [Function.update_of_ne hNe]
  rw [List.map_cons, hNew, hOld] at hPerm
  exact hPerm

theorem HeapCache.Tidy.insertNew (h : uc.Tidy) (hSize : 0 < uc.ucSize)
    (hHand : uc.ucFifo.getD uc.ucNextvictim none = none) : (uc.insertNew node).Tidy where
  nodup := by
    rw [(h.entries_insertNew node hSize hHand).nodup_iff, List.nodup_cons]
    exact ⟨fun hMem => Nat.lt_irrefl _ (h.old _ hMem), h.nodup⟩
  old v hv := by
    rcases List.mem_cons.mp ((h.entries_insertNew node hSize hHand).mem_iff.mp hv) with rfl | hOld
    · exact Nat.lt_succ_self _
    · exact Nat.lt_succ_of_lt (h.old v hOld)
  length_fifo := by
    show (uc.ucFifo.set _ _).length = _
    rw [List.length_set]
    exact h.length_fifo
  hand_lt hPos := Nat.mod_lt _ hPos

end New

namespace HeapDg

variable {dg dg' : HeapDg} {uc : HeapCache}

/-- An unused place in the ring takes a new node with the buffer of the transport, which gets a
new one. -/
theorem Owns.store_new (h : dg.Owns uc) (hTidy : uc.Tidy) (hSize : 0 < uc.ucSize)
    (hHand : uc.ucFifo.getD uc.ucNextvictim none = none) (replylen : Nat) (content : List UInt8) :
    let stored := ({ dg with replies := (dg.replies.malloc content).2 } : HeapDg).cacheStore
      replylen uc.allocated dg.replies.brk { uc with allocated := uc.allocated + 1 }
    ∃ uc', stored.suCache = some uc' ∧ stored.Owns uc' ∧ uc'.Tidy := by
  intro stored
  obtain ⟨node, hCache, hReply, hAddr⟩ : ∃ node, stored.suCache = some (uc.insertNew node) ∧
      node.cacheReply = dg.rpcBuffer ∧ node.cacheAddrBuf = some dg.addrs.brk := ⟨_, rfl, rfl, rfl⟩
  have hEntries := (hTidy.entries_insertNew node hSize hHand).length_eq
  have hReplies := hTidy.map_insertNew node hSize hHand HeapNode.cacheReply
  have hAddrs := hTidy.map_insertNew node hSize hHand HeapNode.cacheAddrBuf
  have hBufs : (stored.replyBufs (uc.insertNew node)).Perm (dg.replies.brk :: dg.replyBufs uc) := by
    rw [hReply] at hReplies
    exact hReplies.cons _
  have hFresh : ∀ b ∈ dg.replyBufs uc, b ≠ dg.replies.brk := by
    intro b hb
    obtain ⟨bs, hRead⟩ := h.read_reply b hb
    exact Nat.ne_of_lt (Heap.lt_brk_of_read hRead)
  refine ⟨_, hCache, ?_, hTidy.insertNew hSize hHand⟩
  exact {
    live_replies := by
      show (dg.replies.malloc content).2.live = _
      rw [Heap.live_malloc, h.live_replies, hEntries, List.length_cons]
    live_addrs := by
      show (dg.addrs.malloc _).2.live = _
      rw [Heap.live_malloc, h.live_addrs, hEntries, List.length_cons]
    nodup_replies := by
      rw [hBufs.nodup_iff, List.nodup_cons]
      exact ⟨fun hMem => hFresh _ hMem rfl, h.nodup_replies⟩
    nodup_addrs := by
      rw [hAddrs.nodup_iff, hAddr, List.nodup_cons]
      refine ⟨fun hMem => ?_, h.nodup_addrs⟩
      obtain ⟨v, hv, hSame⟩ := List.mem_map.mp hMem
      obtain ⟨p, bs, hBuf, hRead⟩ := h.read_addr v hv
      rw [hBuf, Option.some.injEq] at hSame
      exact Nat.ne_of_lt (Heap.lt_brk_of_read hRead) hSame
    read_reply := by
      intro b hb
      show ∃ bs, (dg.replies.malloc content).2.read b = some bs
      rcases List.mem_cons.mp (hBufs.mem_iff.mp hb) with rfl | hOld
      · exact ⟨content, by rw [Heap.read_malloc, if_pos rfl]⟩
      · obtain ⟨bs, hRead⟩ := h.read_reply b hOld
        exact ⟨bs, Heap.read_malloc_of_read hRead⟩
    read_addr := by
      intro v hv
      have hMem := hAddrs.mem_iff.mp (List.mem_map_of_mem hv)
      show ∃ p bs, _ ∧ (dg.addrs.malloc dg.xpRtaddr).2.read p = some bs
      rcases List.mem_cons.mp hMem with hNew | hOld
      · exact ⟨dg.addrs.brk, dg.xpRtaddr, hNew.trans hAddr, by rw [Heap.read_malloc, if_pos rfl]⟩
      · obtain ⟨w, hw, hSame⟩ := List.mem_map.mp hOld
        obtain ⟨p, bs, hBuf, hRead⟩ := h.read_addr w hw
        exact ⟨p, bs, hSame.symm.trans hBuf, Heap.read_malloc_of_read hRead⟩
    xBase_eq := rfl }

/-- Storing writes to no buffer that there is. -/
theorem Owns.spares_malloc (h : dg.Owns uc) (hCache : dg.suCache = some uc) (content : List UInt8)
    {addr : List UInt8} (hReplies : dg'.replies = (dg.replies.malloc content).2)
    (hAddrs : dg'.addrs = (dg.addrs.malloc addr).2) : dg.Spares dg' where
  reply uc' hUc v hv := by
    cases hCache.symm.trans hUc
    obtain ⟨bs, hRead⟩ := h.read_reply _ (List.mem_cons_of_mem _ (List.mem_map_of_mem hv))
    rw [hReplies, Heap.read_malloc_of_read hRead, hRead]
  addr uc' hUc v hv p hBuf := by
    cases hCache.symm.trans hUc
    obtain ⟨q, bs, hOwn, hRead⟩ := h.read_addr v hv
    rw [hBuf, Option.some.injEq] at hOwn
    subst hOwn
    rw [hAddrs, Heap.read_malloc_of_read hRead, hRead]

/-- A victim keeps its place in the ring, and its buffer for an address is lost. -/
theorem Owns.not_bounded_store {victim newbuf replylen : Nat} {uc' : HeapCache} (h : dg.Owns uc)
    (hHand : uc.ucFifo.getD uc.ucNextvictim none = some victim) (hFifo : uc'.ucFifo = uc.ucFifo)
    (hNext : uc'.ucNextvictim = uc.ucNextvictim) :
    ¬ (dg.cacheStore replylen victim newbuf uc').Bounded := by
  rintro ⟨uc'', hCache, hOwns⟩
  have hEntries : uc''.entries = uc.entries := by
    rw [← Option.some.inj hCache]
    show (uc'.ucFifo.set uc'.ucNextvictim (some victim)).reduceOption = uc.ucFifo.reduceOption
    rw [hFifo, hNext, set_of_getD hHand]
  have hLive := hOwns.live_addrs
  rw [hEntries, ← h.live_addrs] at hLive
  have hMore : (dg.addrs.malloc dg.xpRtaddr).2.live = dg.addrs.live := hLive
  rw [Heap.live_malloc] at hMore
  exact Nat.succ_ne_self _ hMore

/-- Every buffer is where it belongs, and the ring is in order. -/
def Sound (dg : HeapDg) : Prop := ∃ uc, dg.suCache = some uc ∧ dg.Owns uc ∧ uc.Tidy

theorem Sound.bounded (h : dg.Sound) : dg.Bounded := by
  obtain ⟨uc, hCache, hOwns, -⟩ := h
  exact ⟨uc, hCache, hOwns⟩

theorem Spares.refl (dg : HeapDg) : dg.Spares dg := ⟨fun _ _ _ _ => rfl, fun _ _ _ _ _ _ => rfl⟩

/-- One step, when it does not evict. -/
theorem Sound.step (h : dg.Sound) {op : CacheOp} (hEvicts : ¬ dg.Evicts op)
    (hStep : dg.step op = some dg') : dg'.Sound ∧ dg.Spares dg' := by
  obtain ⟨uc, hCache, hOwns, hTidy⟩ := h
  cases op with
  | recv bs xid addr =>
      obtain ⟨dg₁, hFill, rfl⟩ := Option.map_eq_some_iff.mp hStep
      obtain ⟨hOwns₁, hCache₁, hSpares⟩ := hOwns.fill hCache hFill
      exact ⟨⟨uc, hCache₁, { hOwns₁ with }, hTidy⟩, hSpares.reply, hSpares.addr⟩
  | encode bs =>
      have hFill : dg.fill dg.xBase bs = some dg' := hStep
      rw [hOwns.xBase_eq] at hFill
      obtain ⟨hOwns', hCache', hSpares⟩ := hOwns.fill hCache hFill
      exact ⟨⟨uc, hCache', hOwns', hTidy⟩, hSpares⟩
  | get msg =>
      simp only [HeapDg.step, hCache, Option.bind_eq_bind, Option.bind_some,
        Option.bind_eq_some_iff, Option.some.injEq] at hStep
      obtain ⟨r, hGet, rfl⟩ := hStep
      rcases cacheGet_cases hGet with hSame | hSaved
      · rw [hSame]
        exact ⟨⟨uc, hCache, hOwns, hTidy⟩, .refl dg⟩
      · rw [hSaved]
        exact ⟨⟨uc.remember msg, rfl, { hOwns with }, { hTidy with }⟩, fun _ _ _ _ => rfl,
          fun _ _ _ _ _ _ => rfl⟩
  | set replylen =>
      simp only [HeapDg.step, hCache, Option.bind_eq_bind, Option.bind_some,
        Option.bind_eq_some_iff, Option.some.injEq] at hStep
      obtain ⟨r, hSet, rfl⟩ := hStep
      obtain ⟨hChains, hSame | ⟨hHand, hNew⟩ | ⟨victim, vicp, hHand, hFind, hLink, -⟩⟩ :=
        cacheSet_cases hSet
      · rw [hSame]
        exact ⟨⟨uc, hCache, hOwns, hTidy⟩, .refl dg⟩
      · have hSize : 0 < uc.ucSize := by
          apply Nat.pos_of_ne_zero
          intro hZero
          rw [hZero] at hChains
          exact hChains rfl
        rw [hNew]
        obtain ⟨uc', hCache', hOwns', hTidy'⟩ :=
          hOwns.store_new hTidy hSize hHand replylen (dg.host.malloc dg.suIosz)
        exact ⟨⟨uc', hCache', hOwns', hTidy'⟩, hOwns.spares_malloc hCache _ rfl rfl⟩
      · exact absurd ⟨uc, hCache, hChains, victim, vicp, hHand, hFind, hLink⟩ hEvicts

/-- A step that evicts leaves a buffer that belongs to no entry. -/
theorem Sound.not_bounded_step (h : dg.Sound) {op : CacheOp} (hEvicts : dg.Evicts op) :
    ∃ dg', dg.step op = some dg' ∧ ¬ dg'.Bounded := by
  obtain ⟨uc, hCache, hOwns, -⟩ := h
  cases op with
  | set replylen =>
      obtain ⟨uc', hCache', hChains, victim, vicp, hHand, hFind, hLink⟩ := hEvicts
      cases hCache.symm.trans hCache'
      have hSet : dg.cacheSet replylen uc = some (true, dg.cacheStore replylen victim
          (uc.nodes victim).cacheReply (uc.setLink (uc.nodes victim).cacheNext vicp)) := by
        rw [cacheSet, if_neg hChains, hHand]
        dsimp only
        rw [hFind]
        dsimp only
        rw [if_neg hLink]
      obtain ⟨-, hFifo, hNext⟩ := uc.setLink_same (uc.nodes victim).cacheNext vicp
      have hStep : dg.step (.set replylen) = some (dg.cacheStore replylen victim
          (uc.nodes victim).cacheReply (uc.setLink (uc.nodes victim).cacheNext vicp)) := by
        simp only [HeapDg.step, hCache, hSet, Option.bind_eq_bind, Option.bind_some]
      exact ⟨_, hStep, hOwns.not_bounded_store hHand hFifo hNext⟩
  | recv bs xid addr => exact absurd hEvicts id
  | encode bs => exact absurd hEvicts id
  | get msg => exact absurd hEvicts id

theorem sound_create (host : Host) (suIosz : Nat) (size : BitVec 32) :
    (create host suIosz size).Sound := by
  have hNone : (HeapCache.empty size.toNat).entries = [] := List.reduceOption_replicate_none
  have hBufs : (create host suIosz size).replyBufs (HeapCache.empty size.toNat) = [0] := by
    rw [replyBufs, hNone]
    rfl
  refine ⟨_, rfl, ?_, ?_⟩
  · exact {
      live_replies := by rw [hNone]; rfl
      live_addrs := by rw [hNone]; rfl
      nodup_replies := by rw [hBufs]; exact List.nodup_singleton 0
      nodup_addrs := by rw [hNone]; exact List.nodup_nil
      read_reply := by
        rw [hBufs]
        intro b hb
        cases List.mem_singleton.mp hb
        exact ⟨_, rfl⟩
      read_addr := by
        rw [hNone]
        intro v hv
        cases hv
      xBase_eq := rfl }
  · exact {
      nodup := by rw [hNone]; exact List.nodup_nil
      old := by
        rw [hNone]
        intro v hv
        cases hv
      length_fifo := List.length_replicate
      hand_lt := id }

end HeapDg

/-! ### The contents along a run -/

namespace HeapDg

variable {dg dg' : HeapDg} {uc : HeapCache}

theorem Addressed.cacheStore (h : dg.Addressed uc) (replylen victim newbuf : Nat) :
    ∃ uc', (dg.cacheStore replylen victim newbuf uc).suCache = some uc' ∧
      (dg.cacheStore replylen victim newbuf uc).Addressed uc' := by
  refine ⟨_, rfl, fun v p hBuf => ?_, fun v => ?_⟩
  · show p < (dg.addrs.malloc dg.xpRtaddr).2.brk
    rw [Heap.brk_malloc]
    by_cases hSame : v = victim
    · subst hSame
      simp only [HeapCache.insert, Function.update_self, Option.some.injEq, Heap.malloc_fst] at hBuf
      rw [← hBuf]
      exact Nat.lt_succ_self _
    · simp only [HeapCache.insert, Function.update_of_ne hSame] at hBuf
      exact Nat.lt_succ_of_lt (h.handed v p hBuf)
  · by_cases hSame : v = victim
    · subst hSame
      simp [HeapCache.insert, HeapNode.contents, HeapDg.cacheStore, Heap.read_malloc]
    · have hLength := h.length v
      simp only [HeapCache.insert, Function.update_of_ne hSame, HeapNode.contents,
        HeapDg.cacheStore] at hLength ⊢
      rcases hBuf : (uc.nodes v).cacheAddrBuf with - | p
      · rw [hBuf] at hLength
        exact hLength
      · rw [hBuf] at hLength
        rw [Option.bind_some, Heap.read_malloc, if_neg (Nat.ne_of_lt (h.handed v p hBuf))]
        exact hLength

/-- What a step is in the transport without the names of the buffers. -/
def Simulated (dg : HeapDg) (op : CacheOp) (dg' : HeapDg) : Prop :=
  match op with
  | .get msg => ∃ uc found, dg.suCache = some uc ∧
      dg.contents.cacheGet msg (uc.contents dg.addrs) = some (found, dg'.contents)
  | .set replylen => ∃ uc stored, dg.suCache = some uc ∧
      dg.contents.cacheSet replylen (uc.contents dg.addrs) = some (stored, dg'.contents)
  | .recv _ _ _ | .encode _ => dg'.contents.suCache = dg.contents.suCache

theorem Addressed.step (h : dg.Addressed uc) (hCache : dg.suCache = some uc) {op : CacheOp}
    (hStep : dg.step op = some dg') :
    dg.Simulated op dg' ∧ ∃ uc', dg'.suCache = some uc' ∧ dg'.Addressed uc' := by
  cases op with
  | recv bs xid addr =>
      obtain ⟨dg₁, hFill, rfl⟩ := Option.map_eq_some_iff.mp hStep
      obtain ⟨replies, bs', rfl, -⟩ := fill_updated hFill
      exact ⟨rfl, uc, hCache, h.handed, h.length⟩
  | encode bs =>
      obtain ⟨replies, bs', rfl, -⟩ := fill_updated hStep
      exact ⟨rfl, uc, hCache, h.handed, h.length⟩
  | get msg =>
      simp only [HeapDg.step, hCache, Option.bind_eq_bind, Option.bind_some,
        Option.bind_eq_some_iff, Option.some.injEq] at hStep
      obtain ⟨r, hGet, rfl⟩ := hStep
      refine ⟨⟨uc, r.1, hCache, h.contents_cacheGet hGet⟩, ?_⟩
      rcases cacheGet_cases hGet with hSame | hSaved
      · rw [hSame]
        exact ⟨uc, hCache, h⟩
      · rw [hSaved]
        exact ⟨uc.remember msg, rfl, h.handed, h.length⟩
  | set replylen =>
      simp only [HeapDg.step, hCache, Option.bind_eq_bind, Option.bind_some,
        Option.bind_eq_some_iff, Option.some.injEq] at hStep
      obtain ⟨r, hSet, rfl⟩ := hStep
      refine ⟨⟨uc, r.1, hCache, h.contents_cacheSet hSet⟩, ?_⟩
      obtain ⟨-, hSame | ⟨-, hNew⟩ | ⟨victim, vicp, -, -, -, hOld⟩⟩ := cacheSet_cases hSet
      · rw [hSame]
        exact ⟨uc, hCache, h⟩
      · have hRoom : ({ dg with replies := (dg.replies.malloc (dg.host.malloc dg.suIosz)).2 } :
            HeapDg).Addressed { uc with allocated := uc.allocated + 1 } := ⟨h.handed, h.length⟩
        rw [hNew]
        exact hRoom.cacheStore replylen _ _
      · rw [hOld]
        exact (h.setLink _ vicp).cacheStore replylen _ _

end HeapDg

/-- The buffers are bounded, and those of the entries spared, throughout the runs in which no
entry is evicted. -/
theorem svcDg_cache_bounded_iff (host : Host) (suIosz : Nat) (size : BitVec 32)
    (ops : List CacheOp) :
    Runs.Throughout HeapDg.step
        (fun dg op => ∀ dg', dg.step op = some dg' → dg'.Bounded ∧ dg.Spares dg')
        (HeapDg.create host suIosz size) ops ↔
      Runs.Throughout HeapDg.step (fun dg op => ¬ dg.Evicts op)
        (HeapDg.create host suIosz size) ops := by
  refine Runs.throughout_iff HeapDg.Sound (fun dg op hSound => ?_)
    (fun dg op dg' hSound hEvicts hStep => (hSound.step hEvicts hStep).1) ops _
    (HeapDg.sound_create host suIosz size)
  constructor
  · intro h hEvicts
    obtain ⟨dg', hStep, hNot⟩ := hSound.not_bounded_step hEvicts
    exact hNot (h dg' hStep).1
  · intro hEvicts dg' hStep
    obtain ⟨hSound', hSpares⟩ := hSound.step hEvicts hStep
    exact ⟨hSound'.bounded, hSpares⟩

/-- With room for one entry, the second reply to be cached evicts the first. -/
theorem not_svcDg_cache_bounded :
    ¬ ∀ (host : Host) (suIosz : Nat) (size : BitVec 32) (ops : List CacheOp),
      Runs.Throughout HeapDg.step
        (fun dg op => ∀ dg', dg.step op = some dg' → dg'.Bounded ∧ dg.Spares dg')
        (HeapDg.create host suIosz size) ops := by
  intro h
  obtain ⟨-, hRest⟩ := h zeroHost 16 1 [.set 3, .set 3]
  obtain ⟨hSecond, -⟩ := hRest _ rfl
  obtain ⟨⟨uc, hCache, hOwns⟩, -⟩ := hSecond _ rfl
  cases hCache
  have hLive := hOwns.live_addrs
  revert hLive
  decide

end OncRpc
