import Mathlib.Data.List.Forall2
import Mathlib.Data.List.Nodup
import Mathlib.Data.List.Perm.Subperm
import Mathlib.Data.List.ReduceOption
import OncRpc.Svc.Cache

/-! What the cache of replies holds. The nodes in the order in which they were last
stored say everything: the ring of victims is that order, every chain is a part of it, and
the newest replies stand in it with their keys. -/
namespace OncRpc

open Chain

/-- What `cache_get` compares. -/
structure CacheKey where
  xid : BitVec 32
  proc : BitVec 32
  vers : BitVec 32
  prog : BitVec 32
  addr : List UInt8
  deriving DecidableEq, Repr

/-- A reply that has been cached, and the request it answers. -/
structure CacheEntry where
  key : CacheKey
  reply : List UInt8
  deriving DecidableEq, Repr

/-- The key of a node. -/
def CacheNode.key (node : CacheNode) : CacheKey :=
  { xid := node.cacheXid, proc := node.cacheProc, vers := node.cacheVers
    prog := node.cacheProg, addr := node.cacheAddr }

/-- The key of the request that a transport has received. -/
def SvcDg.requestKey (msg : RpcMsg) (dg : SvcDg) : CacheKey :=
  { xid := dg.suXid, proc := msg.rmCall.cbProc, vers := msg.rmCall.cbVers
    prog := msg.rmCall.cbProg, addr := dg.xpRtaddr }

/-- The key under which `cache_set` stores. -/
def SvcDg.savedKey (uc : ClCache) (dg : SvcDg) : CacheKey :=
  { xid := dg.suXid, proc := uc.ucProc, vers := uc.ucVers, prog := uc.ucProg
    addr := dg.xpRtaddr }

namespace ClCache

/-- The chain that a node belongs in. -/
def loc (uc : ClCache) (v : Nat) : Nat := cacheLoc uc.ucSize (uc.nodes v).cacheXid

/-- The reply that a node holds. -/
def entry (uc : ClCache) (dg : SvcDg) (v : Nat) : CacheEntry :=
  { key := (uc.nodes v).key
    reply := (dg.bufs (uc.nodes v).cacheReply).take (uc.nodes v).cacheReplylen }

/-- The replies in the cache, the newest first: back from the next victim. -/
def cached (uc : ClCache) (dg : SvcDg) : List CacheEntry :=
  (uc.ucFifo.rotate uc.ucNextvictim).reverse.reduceOption.map (uc.entry dg)

/-- Every node in the ring of victims is linked once, in its own chain, and every node in a
chain is in the ring. -/
def WellLinked (uc : ClCache) : Prop :=
  uc.ucFifo.reduceOption.Nodup ∧
  ∃ chain : Nat → List Nat, ∀ loc < sparseness * uc.ucSize,
    Linked uc.link (.head loc) (chain loc) ∧
    (∀ v, some v ∈ uc.ucFifo → (chain loc).count v = if uc.loc v = loc then 1 else 0) ∧
    ∀ v ∈ chain loc, some v ∈ uc.ucFifo

/-- The tables have their sizes and the next victim is in the ring. -/
structure Tables (uc : ClCache) : Prop where
  size_pos : 0 < uc.ucSize
  size_uint : sparseness * uc.ucSize < 2 ^ 32
  length_entries : uc.ucEntries.length = sparseness * uc.ucSize
  length_fifo : uc.ucFifo.length = uc.ucSize
  hand_lt : uc.ucNextvictim < uc.ucSize

/-- The chains hold the nodes of `order`, each in its own chain and in this order. -/
structure Chained (uc : ClCache) (order : List Nat) : Prop where
  nodup : order.Nodup
  old : ∀ v ∈ order, v < uc.allocated
  linked : ∀ loc < sparseness * uc.ucSize,
    Linked uc.link (.head loc) (order.filter fun v => decide (uc.loc v = loc))

/-- The ring holds them too, behind what has not been used yet. -/
structure Ordered (uc : ClCache) (order : List Nat) : Prop extends Tables uc, Chained uc order where
  fifo_eq : uc.ucFifo.rotate uc.ucNextvictim =
    List.replicate (uc.ucSize - order.length) none ++ order.reverse.map some

variable {uc : ClCache} {order : List Nat}

theorem Tables.cacheLoc_lt (h : uc.Tables) (xid : BitVec 32) :
    cacheLoc uc.ucSize xid < sparseness * uc.ucSize := by
  have hPos := h.size_pos
  have hUint := h.size_uint
  unfold cacheLoc
  rw [Nat.mod_eq_of_lt hUint]
  exact Nat.mod_lt _ (Nat.mul_pos (by decide) hPos)

theorem Chained.length_le_allocated (h : uc.Chained order) : order.length ≤ uc.allocated := by
  have hSub : order ⊆ List.range uc.allocated := fun v hv => List.mem_range.mpr (h.old v hv)
  have hLe := (List.subperm_of_subset h.nodup hSub).length_le
  rwa [List.length_range] at hLe

theorem Ordered.length_le (h : uc.Ordered order) : order.length ≤ uc.ucSize := by
  have hLen := congrArg List.length h.fifo_eq
  simp only [List.length_rotate, h.length_fifo, List.length_append, List.length_replicate,
    List.length_map, List.length_reverse] at hLen
  omega

/-- A ring in that order is the order, read back from the next victim. -/
theorem Ordered.reduceOption_fifo (h : uc.Ordered order) :
    (uc.ucFifo.rotate uc.ucNextvictim).reverse.reduceOption = order := by
  have hSome : (order.map some).reduceOption = order := by
    rw [List.reduceOption, List.filterMap_map]
    exact List.filterMap_some
  rw [h.fifo_eq]
  simpa [List.reduceOption_append] using hSome

theorem Ordered.mem_fifo (h : uc.Ordered order) (v : Nat) : some v ∈ uc.ucFifo ↔ v ∈ order := by
  rw [← List.mem_rotate (n := uc.ucNextvictim), h.fifo_eq]
  simp

theorem Ordered.wellLinked (h : uc.Ordered order) : uc.WellLinked := by
  constructor
  · have hPerm : uc.ucFifo.reduceOption.Perm order := by
      rw [← h.reduceOption_fifo]
      have hRing := (uc.ucFifo.rotate_perm uc.ucNextvictim).symm.trans
        (List.reverse_perm _).symm
      exact hRing.filterMap id
    exact hPerm.nodup_iff.mpr h.nodup
  · refine ⟨fun loc => order.filter fun v => decide (uc.loc v = loc), fun loc hLoc =>
      ⟨h.linked loc hLoc, fun v hv => ?_, fun v hv => ?_⟩⟩
    · have hMem := (h.mem_fifo v).mp hv
      by_cases hHere : uc.loc v = loc
      · rw [if_pos hHere, List.count_filter (by simpa using hHere),
          List.count_eq_one_of_mem h.nodup hMem]
      · rw [if_neg hHere, List.count_eq_zero]
        intro hBad
        exact hHere (by simpa using (List.mem_filter.mp hBad).2)
    · exact (h.mem_fifo v).mpr (List.mem_filter.mp hv).1

/-- Writing through a pointer to a link changes that link and no other. -/
theorem link_setLink {slot : Slot Nat Nat} (p : Option Nat)
    (hSlot : ∀ loc, slot = .head loc → loc < uc.ucEntries.length) :
    (uc.setLink p slot).link = Function.update uc.link slot p := by
  funext place
  cases slot with
  | head loc =>
      have hLt := hSlot loc rfl
      cases place with
      | head loc' =>
          by_cases hSame : loc' = loc
          · subst hSame
            rw [Function.update_self]
            simp [setLink, link, hLt]
          · rw [Function.update_of_ne (by simpa using hSame)]
            simp [setLink, link, Ne.symm hSame]
      | next v =>
          rw [Function.update_of_ne (by simp)]
          rfl
  | next u =>
      cases place with
      | head loc' =>
          rw [Function.update_of_ne (by simp)]
          rfl
      | next v =>
          by_cases hSame : v = u
          · subst hSame
            rw [Function.update_self]
            simp [setLink, link]
          · rw [Function.update_of_ne (by simpa using hSame)]
            simp [setLink, link, Function.update_of_ne hSame]

/-- Nothing but links is changed. -/
theorem setLink_same (uc : ClCache) (p : Option Nat) (slot : Slot Nat Nat) :
    (uc.setLink p slot).ucSize = uc.ucSize ∧ (uc.setLink p slot).ucFifo = uc.ucFifo ∧
    (uc.setLink p slot).ucNextvictim = uc.ucNextvictim ∧
    (uc.setLink p slot).allocated = uc.allocated ∧
    (uc.setLink p slot).ucEntries.length = uc.ucEntries.length ∧
    (uc.setLink p slot).ucProc = uc.ucProc ∧ (uc.setLink p slot).ucVers = uc.ucVers ∧
    (uc.setLink p slot).ucProg = uc.ucProg := by
  cases slot <;> simp [setLink]

theorem setLink_nodes (p : Option Nat) (slot : Slot Nat Nat) (v : Nat) :
    ((uc.setLink p slot).nodes v).key = (uc.nodes v).key ∧
    ((uc.setLink p slot).nodes v).cacheReply = (uc.nodes v).cacheReply ∧
    ((uc.setLink p slot).nodes v).cacheReplylen = (uc.nodes v).cacheReplylen := by
  cases slot with
  | head loc => exact ⟨rfl, rfl, rfl⟩
  | next u =>
      by_cases hSame : v = u
      · subst hSame
        simp [setLink, CacheNode.key]
      · simp [setLink, Function.update_of_ne hSame]

theorem setLink_loc (p : Option Nat) (slot : Slot Nat Nat) (v : Nat) :
    (uc.setLink p slot).loc v = uc.loc v := by
  have hXid : ((uc.setLink p slot).nodes v).cacheXid = (uc.nodes v).cacheXid :=
    congrArg CacheKey.xid (setLink_nodes p slot v).1
  rw [loc, loc, (setLink_same uc p slot).1, hXid]

/-- A node that is linked is found, and taken off its chain. -/
theorem Chained.unlink {v : Nat} (hTables : uc.Tables) (h : uc.Chained (order ++ [v])) :
    ∃ vicp, uc.findVictim v = some vicp ∧ uc.link vicp = some v ∧
      (uc.setLink (uc.nodes v).cacheNext vicp).Tables ∧
      (uc.setLink (uc.nodes v).cacheNext vicp).Chained order := by
  have hLoc : uc.loc v < sparseness * uc.ucSize := hTables.cacheLoc_lt _
  have hNodup := h.nodup
  have hSplit : ∀ loc, (order ++ [v]).filter (fun w => decide (uc.loc w = loc)) =
      order.filter (fun w => decide (uc.loc w = loc)) ++
        if uc.loc v = loc then [v] else [] := by
    intro loc
    rw [List.filter_append, List.filter_singleton]
    simp
  have hChain := h.linked (uc.loc v) hLoc
  rw [hSplit, if_pos rfl] at hChain
  have hNew : v ∉ order.filter fun w => decide (uc.loc w = uc.loc v) := by
    intro hMem
    have hApart := List.disjoint_of_nodup_append hNodup
    exact hApart (List.mem_filter.mp hMem).1 (List.mem_singleton_self v)
  have hSub : (order.filter fun w => decide (uc.loc w = uc.loc v)).length ≤ uc.allocated := by
    have hLe := h.length_le_allocated
    have hFilter := List.length_filter_le (fun w => decide (uc.loc w = uc.loc v)) order
    rw [List.length_append] at hLe
    omega
  refine ⟨slotAfter (.head (uc.loc v)) (order.filter fun w => decide (uc.loc w = uc.loc v)),
    find_slotAfter hChain hNew (Nat.lt_succ_of_le hSub), hChain.link_slotAfter, ?_⟩
  have hPlace := slotAfter_cases (Slot.head (uc.loc v) : Slot Nat Nat)
    (order.filter fun w => decide (uc.loc w = uc.loc v))
  have hOnce := hNodup.filter fun w => decide (uc.loc w = uc.loc v)
  rw [hSplit, if_pos rfl] at hOnce
  have hUnlinked := hChain.unlink hOnce (by simp)
  generalize slotAfter (Slot.head (uc.loc v) : Slot Nat Nat)
    (order.filter fun w => decide (uc.loc w = uc.loc v)) = vicp at hPlace hUnlinked ⊢
  have hRange : ∀ loc, vicp = .head loc → loc < uc.ucEntries.length := by
    rintro loc rfl
    rw [hTables.length_entries]
    rcases hPlace with hSame | ⟨w, -, hNext⟩
    · cases hSame
      exact hLoc
    · cases hNext
  obtain ⟨hSize, hFifo, hHand, hAlloc, hLen, -⟩ :=
    setLink_same uc (uc.nodes v).cacheNext vicp
  refine ⟨⟨hSize ▸ hTables.size_pos, hSize ▸ hTables.size_uint, ?_, ?_, ?_⟩, ?_, ?_, ?_⟩
  · rw [hLen, hSize, hTables.length_entries]
  · rw [hFifo, hSize, hTables.length_fifo]
  · rw [hHand, hSize]
    exact hTables.hand_lt
  · exact (List.nodup_append.mp hNodup).1
  · intro w hw
    rw [hAlloc]
    exact h.old w (List.mem_append_left _ hw)
  · intro loc hLt
    rw [hSize] at hLt
    simp only [setLink_loc, link_setLink _ hRange]
    by_cases hHere : uc.loc v = loc
    · subst hHere
      rw [List.append_nil] at hUnlinked
      exact hUnlinked
    · have hOther := h.linked loc hLt
      rw [hSplit, if_neg hHere, List.append_nil] at hOther
      apply hOther.update_of_ne
      · intro hSame
        rcases hPlace with hHead | ⟨w, -, hNext⟩
        · rw [hHead] at hSame
          exact hHere (Slot.head.inj hSame).symm
        · rw [hNext] at hSame
          cases hSame
      · intro w hw hSame
        rcases hPlace with hHead | ⟨u, hu, hNext⟩
        · rw [hHead] at hSame
          cases hSame
        · rw [hNext] at hSame
          cases hSame
          have hHis := (List.mem_filter.mp hw).2
          have hHers := (List.mem_filter.mp hu).2
          simp only [decide_eq_true_eq] at hHis hHers
          exact hHere (hHers.symm.trans hHis)

/-- What a new head does to the links. -/
theorem link_insert {v : Nat} {node : CacheNode} (hTables : uc.Tables) :
    (uc.insert v node).link =
      Function.update (Function.update uc.link (.next v) node.cacheNext)
        (.head (cacheLoc uc.ucSize node.cacheXid)) (some v) := by
  have hLt : cacheLoc uc.ucSize node.cacheXid < uc.ucEntries.length := by
    rw [hTables.length_entries]
    exact hTables.cacheLoc_lt _
  funext place
  cases place with
  | head loc =>
      by_cases hSame : loc = cacheLoc uc.ucSize node.cacheXid
      · subst hSame
        rw [Function.update_self]
        simp [insert, link, hLt]
      · rw [Function.update_of_ne (by simpa using hSame), Function.update_of_ne (by simp)]
        simp [insert, link, Ne.symm hSame]
  | next w =>
      rw [Function.update_of_ne (by simp)]
      by_cases hSame : w = v
      · subst hSame
        rw [Function.update_self]
        simp [insert, link]
      · rw [Function.update_of_ne (by simpa using hSame)]
        simp [insert, link, Function.update_of_ne hSame]

theorem insert_nodes_of_ne {v w : Nat} {node : CacheNode} (h : w ≠ v) :
    (uc.insert v node).nodes w = uc.nodes w :=
  Function.update_of_ne h _ _

theorem insert_nodes_self (v : Nat) (node : CacheNode) : (uc.insert v node).nodes v = node :=
  Function.update_self _ _ _

/-- A node that is in no chain becomes the head of its own. -/
theorem Chained.insert {v : Nat} {node : CacheNode} (hTables : uc.Tables) (h : uc.Chained order)
    (hNew : v ∉ order) (hOld : v < uc.allocated)
    (hNext : node.cacheNext = uc.link (.head (cacheLoc uc.ucSize node.cacheXid))) :
    (uc.insert v node).Chained (v :: order) := by
  have hApart : ∀ w ∈ order, w ≠ v := by
    rintro w hw rfl
    exact hNew hw
  refine ⟨List.nodup_cons.mpr ⟨hNew, h.nodup⟩, ?_, fun loc hLoc => ?_⟩
  · rintro w (_ | ⟨_, hw⟩)
    · exact hOld
    · exact h.old w hw
  have hChain : Linked uc.link (.head loc) (order.filter fun w => decide (uc.loc w = loc)) :=
    h.linked loc hLoc
  have hLocs : ∀ w ∈ order, decide ((uc.insert v node).loc w = loc) = decide (uc.loc w = loc) := by
    intro w hw
    rw [ClCache.loc, insert_nodes_of_ne (hApart w hw)]
    rfl
  have hTail : (order.filter fun w => decide ((uc.insert v node).loc w = loc)) =
      order.filter fun w => decide (uc.loc w = loc) := List.filter_congr hLocs
  have hHead : (uc.insert v node).loc v = cacheLoc uc.ucSize node.cacheXid := by
    rw [ClCache.loc, insert_nodes_self]
    rfl
  have hKept : ∀ w ∈ order.filter (fun w => decide (uc.loc w = loc)),
      (uc.insert v node).link (.next w) = uc.link (.next w) := by
    intro w hw
    have hNe := hApart w (List.mem_filter.mp hw).1
    rw [link_insert hTables, Function.update_of_ne (by simp),
      Function.update_of_ne (by simpa using hNe)]
  rw [List.filter_cons, hTail, hHead]
  by_cases hHere : cacheLoc uc.ucSize node.cacheXid = loc
  · subst hHere
    rw [if_pos (by simp)]
    refine ⟨by rw [link_insert hTables, Function.update_self], hChain.congr ?_ hKept⟩
    rw [link_insert hTables, Function.update_of_ne (by simp), Function.update_self, hNext]
  · rw [if_neg (by simpa using hHere)]
    refine hChain.congr ?_ hKept
    rw [link_insert hTables, Function.update_of_ne (by simpa using Ne.symm hHere),
      Function.update_of_ne (by simp)]

/-- The new head is also the last in the ring. -/
theorem Ordered.insert {v : Nat} {node : CacheNode} (hTables : uc.Tables) (h : uc.Chained order)
    (hNew : v ∉ order) (hOld : v < uc.allocated)
    (hNext : node.cacheNext = uc.link (.head (cacheLoc uc.ucSize node.cacheXid)))
    (hRing : (uc.ucFifo.rotate uc.ucNextvictim).tail =
      List.replicate (uc.ucSize - (order.length + 1)) none ++ order.reverse.map some) :
    (uc.insert v node).Ordered (v :: order) where
  size_pos := hTables.size_pos
  size_uint := hTables.size_uint
  length_entries := by
    show (uc.ucEntries.set _ _).length = _
    rw [List.length_set]
    exact hTables.length_entries
  length_fifo := by
    show (uc.ucFifo.set _ _).length = _
    rw [List.length_set]
    exact hTables.length_fifo
  hand_lt := Nat.mod_lt _ hTables.size_pos
  toChained := h.insert hTables hNew hOld hNext
  fifo_eq := by
    have hHand : uc.ucNextvictim < uc.ucFifo.length := by
      rw [hTables.length_fifo]
      exact hTables.hand_lt
    have hRotate := rotate_set_succ (some v) hHand
    rw [hTables.length_fifo, hRing] at hRotate
    show (uc.ucFifo.set uc.ucNextvictim (some v)).rotate ((uc.ucNextvictim + 1) % uc.ucSize) = _
    rw [hRotate, List.append_assoc, List.reverse_cons, List.map_append]
    rfl

end ClCache
namespace SvcDg

/-- The buffers that a transport and its cached replies own. -/
def owned (uc : ClCache) (order : List Nat) (dg : SvcDg) : List Nat :=
  dg.rpcBuffer :: order.map fun v => (uc.nodes v).cacheReply

/-- The cache of the transport holds the newest of the replies in `log`, in the nodes
`order`. No two of them share a buffer, and none is in the buffer of the transport. -/
structure Caching (dg : SvcDg) (uc : ClCache) (order : List Nat) (log : List CacheEntry) :
    Prop where
  cache_eq : dg.suCache = some uc
  ordered : uc.Ordered order
  entries : order.map (uc.entry dg) = log.take uc.ucSize
  replylen_le : ∀ v ∈ order, (uc.nodes v).cacheReplylen ≤ dg.suIosz
  nodup : (dg.owned uc order).Nodup
  old : ∀ b ∈ dg.owned uc order, b < dg.bufsAllocated
  full : ∀ b ∈ dg.owned uc order, (dg.bufs b).length = dg.suIosz

variable {dg dg' : SvcDg} {uc : ClCache} {order : List Nat} {log : List CacheEntry}

theorem mem_owned {v : Nat} (h : v ∈ order) :
    (uc.nodes v).cacheReply ∈ dg.owned uc order :=
  List.mem_cons_of_mem _ (List.mem_map_of_mem h)

theorem Caching.rpcBuffer_ne (h : dg.Caching uc order log) {v : Nat} (hv : v ∈ order) :
    (uc.nodes v).cacheReply ≠ dg.rpcBuffer := by
  intro hSame
  apply (List.nodup_cons.mp h.nodup).1
  rw [← hSame]
  exact List.mem_map_of_mem hv

/-- The order is as long as the replies are many, up to the size of the cache. -/
theorem Caching.length_order (h : dg.Caching uc order log) :
    order.length = min uc.ucSize log.length := by
  have hLen := congrArg List.length h.entries
  rwa [List.length_map, List.length_take] at hLen

/-- The reply in a node is as long as the node says. -/
theorem Caching.length_reply (h : dg.Caching uc order log) {v : Nat} (hv : v ∈ order) :
    (uc.entry dg v).reply.length = (uc.nodes v).cacheReplylen := by
  have hLe := h.replylen_le v hv
  have hFull := h.full _ (mem_owned hv)
  exact List.length_take_of_le (by omega)

theorem Caching.cached_eq (h : dg.Caching uc order log) :
    uc.cached dg = log.take uc.ucSize := by
  rw [ClCache.cached, h.ordered.reduceOption_fifo, h.entries]

/-- What comes into the buffer of the transport does not reach the cached replies. -/
theorem Caching.fill (h : dg.Caching uc order log) {bs : List UInt8}
    (hFit : bs.length ≤ dg.suIosz) : (dg.fill bs).Caching uc order log where
  cache_eq := h.cache_eq
  ordered := h.ordered
  entries := by
    rw [← h.entries]
    apply List.map_congr_left
    intro v hv
    have hApart := h.rpcBuffer_ne hv
    simp [ClCache.entry, SvcDg.fill, Function.update_of_ne hApart]
  replylen_le := h.replylen_le
  nodup := h.nodup
  old := h.old
  full := by
    intro b hb
    have hFull := h.full b hb
    by_cases hSame : b = dg.rpcBuffer
    · subst hSame
      have hRoom : 0 + bs.length ≤ (dg.bufs dg.rpcBuffer).length := by omega
      show (Function.update dg.bufs dg.rpcBuffer _ dg.rpcBuffer).length = _
      rw [Function.update_self, Buffer.length_writeAt hRoom]
      exact hFull
    · show (Function.update dg.bufs dg.rpcBuffer _ b).length = _
      rw [Function.update_of_ne hSame]
      exact hFull

/-- A request comes in. -/
theorem Caching.request (h : dg.Caching uc order log) (xid : BitVec 32) (addr : List UInt8) :
    ({ dg with suXid := xid, xpRtaddr := addr } : SvcDg).Caching uc order log :=
  { h with }

theorem matchesEntry_iff (msg : RpcMsg) (ent : CacheNode) :
    dg.matchesEntry msg ent = true ↔ ent.key = dg.requestKey msg := by
  simp only [matchesEntry, decide_eq_true_eq, CacheNode.key, requestKey, CacheKey.mk.injEq]
  constructor
  · rintro ⟨hXid, hProc, hVers, hProg, hLen, hAddr⟩
    rw [← hLen, List.take_length, hLen, List.take_length] at hAddr
    exact ⟨hXid, hProc, hVers, hProg, hAddr⟩
  · rintro ⟨hXid, hProc, hVers, hProg, hAddr⟩
    rw [hAddr]
    exact ⟨hXid, hProc, hVers, hProg, rfl, rfl⟩

/-- A request is looked up among the nodes with its key. -/
theorem Caching.search_eq (h : dg.Caching uc order log) (msg : RpcMsg) :
    search (fun v => uc.link (.next v)) (fun v => dg.matchesEntry msg (uc.nodes v)) uc.allocated
        (uc.link (.head (cacheLoc uc.ucSize dg.suXid))) =
      some (order.find? fun v => dg.matchesEntry msg (uc.nodes v)) := by
  have hLoc := h.ordered.cacheLoc_lt dg.suXid
  have hChain := h.ordered.linked _ hLoc
  have hLen : (order.filter fun v =>
      decide (uc.loc v = cacheLoc uc.ucSize dg.suXid)).length ≤ uc.allocated :=
    (List.length_filter_le _ _).trans h.ordered.length_le_allocated
  rw [Chain.search_eq (fun _ => rfl) hChain hLen, List.find?_filter]
  congr 2
  funext v
  cases hMatch : dg.matchesEntry msg (uc.nodes v) with
  | false => simp
  | true =>
      have hKey := (matchesEntry_iff msg (uc.nodes v)).mp hMatch
      have hXid : (uc.nodes v).cacheXid = dg.suXid := congrArg CacheKey.xid hKey
      simp [ClCache.loc, hXid]

theorem Caching.remember (h : dg.Caching uc order log) (msg : RpcMsg) :
    ({ dg with suCache := some (uc.remember msg) } : SvcDg).Caching (uc.remember msg) order log :=
  { h with
    cache_eq := rfl
    ordered := { h.ordered with
      nodup := h.ordered.nodup
      old := h.ordered.old
      linked := h.ordered.linked } }

/-- `cache_get` answers with a reply of the newest that has the key of the request, if there
is one, and otherwise saves the request. -/
theorem Caching.cacheGet (h : dg.Caching uc order log) (msg : RpcMsg) :
    (∃ v ∈ order, (uc.entry dg v).key = dg.requestKey msg ∧
      dg.cacheGet msg uc =
        some (some ((uc.nodes v).cacheReply, (uc.nodes v).cacheReplylen), dg)) ∨
    (∀ e ∈ log.take uc.ucSize, e.key ≠ dg.requestKey msg) ∧
      dg.cacheGet msg uc = some (none, { dg with suCache := some (uc.remember msg) }) := by
  cases hFind : order.find? fun v => dg.matchesEntry msg (uc.nodes v) with
  | some v =>
      have hMatch := List.find?_some hFind
      refine Or.inl ⟨v, List.mem_of_find?_eq_some hFind, (matchesEntry_iff msg _).mp hMatch, ?_⟩
      simp only [SvcDg.cacheGet, h.search_eq, hFind]
  | none =>
      refine Or.inr ⟨?_, by simp only [SvcDg.cacheGet, h.search_eq, hFind]⟩
      intro e he hKey
      rw [← h.entries] at he
      obtain ⟨v, hv, rfl⟩ := List.mem_map.mp he
      have hMiss := List.find?_eq_none.mp hFind v hv
      exact hMiss ((matchesEntry_iff msg _).mpr hKey)

/-- A transport and cache from which the victim has been taken. The buffer `newbuf` is its
reply, or a new one. -/
structure Vacant (dg : SvcDg) (uc : ClCache) (order : List Nat) (log : List CacheEntry)
    (victim newbuf : Nat) : Prop where
  tables : uc.Tables
  chained : uc.Chained order
  victim_new : victim ∉ order
  victim_old : victim < uc.allocated
  ring : (uc.ucFifo.rotate uc.ucNextvictim).tail =
    List.replicate (uc.ucSize - (order.length + 1)) none ++ order.reverse.map some
  entries : order.map (uc.entry dg) = log.take (uc.ucSize - 1)
  replylen_le : ∀ v ∈ order, (uc.nodes v).cacheReplylen ≤ dg.suIosz
  nodup : (newbuf :: dg.owned uc order).Nodup
  old : ∀ b ∈ newbuf :: dg.owned uc order, b < dg.bufsAllocated
  full : ∀ b ∈ newbuf :: dg.owned uc order, (dg.bufs b).length = dg.suIosz

/-- What `cache_set` does with the node it has got. -/
theorem Vacant.cacheStore {victim newbuf replylen : Nat}
    (h : dg.Vacant uc order log victim newbuf) (hFit : replylen ≤ dg.suIosz) :
    ∃ uc', (dg.cacheStore replylen victim newbuf uc).Caching uc' (victim :: order)
        ({ key := dg.savedKey uc, reply := (dg.bufs dg.rpcBuffer).take replylen } :: log) ∧
      uc'.ucSize = uc.ucSize ∧ uc'.ucProc = uc.ucProc ∧ uc'.ucVers = uc.ucVers ∧
      uc'.ucProg = uc.ucProg := by
  have hApart : ∀ w ∈ order, w ≠ victim := by
    rintro w hw rfl
    exact h.victim_new hw
  refine ⟨uc.insert victim (dg.replyNode replylen uc), ?_, rfl, rfl, rfl, rfl⟩
  have hSame : ∀ w ∈ order,
      (uc.insert victim (dg.replyNode replylen uc)).nodes w = uc.nodes w :=
    fun w hw => ClCache.insert_nodes_of_ne (hApart w hw)
  have hSelf : (uc.insert victim (dg.replyNode replylen uc)).nodes victim =
      dg.replyNode replylen uc := ClCache.insert_nodes_self victim _
  have hOwned : (dg.cacheStore replylen victim newbuf uc).owned
      (uc.insert victim (dg.replyNode replylen uc)) (victim :: order) =
        newbuf :: dg.owned uc order := by
    rw [owned, owned, List.map_cons, hSelf]
    congr 2
    exact List.map_congr_left fun w hw => congrArg CacheNode.cacheReply (hSame w hw)
  have hSize := h.tables.size_pos
  exact {
    cache_eq := rfl
    ordered := ClCache.Ordered.insert h.tables h.chained h.victim_new h.victim_old rfl h.ring
    entries := by
      have hTake : ∀ e : CacheEntry, (e :: log).take uc.ucSize = e :: log.take (uc.ucSize - 1) := by
        intro e
        rw [List.take_cons hSize]
      show _ = List.take uc.ucSize _
      rw [List.map_cons, hTake, ← h.entries]
      congr 1
      · rw [ClCache.entry, hSelf]
        rfl
      · apply List.map_congr_left
        intro w hw
        rw [ClCache.entry, hSame w hw]
        rfl
    replylen_le := by
      rintro w (_ | ⟨_, hw⟩)
      · rw [hSelf]
        exact hFit
      · rw [hSame w hw]
        exact h.replylen_le w hw
    nodup := by
      rw [hOwned]
      exact h.nodup
    old := by
      rw [hOwned]
      exact h.old
    full := by
      rw [hOwned]
      exact h.full }

/-- What stands under the hand when the ring is seen from it. -/
theorem getD_hand (h : uc.Ordered order) {p : Option Nat} {rest : List (Option Nat)}
    (hRing : uc.ucFifo.rotate uc.ucNextvictim = p :: rest) :
    uc.ucFifo.getD uc.ucNextvictim none = p := by
  have hHand : uc.ucNextvictim < uc.ucFifo.length := by
    rw [h.length_fifo]
    exact h.hand_lt
  have hHead := List.head?_rotate hHand
  rw [hRing, List.head?_cons] at hHead
  rw [List.getD_eq_getElem?_getD, ← hHead, Option.getD_some]

/-- A cache with an unused place in its ring takes a new node. -/
theorem Caching.vacant_new (h : dg.Caching uc order log) (hRoom : order.length < uc.ucSize) :
    uc.ucFifo.getD uc.ucNextvictim none = none ∧
    dg.allocBuffer.2.Vacant { uc with allocated := uc.allocated + 1 } order log uc.allocated
      dg.bufsAllocated := by
  have hRing := h.ordered.fifo_eq
  obtain ⟨k, hk⟩ : ∃ k, uc.ucSize - order.length = k + 1 := ⟨uc.ucSize - order.length - 1, by omega⟩
  rw [hk, List.replicate_succ, List.cons_append] at hRing
  have hFresh : ∀ b ∈ dg.owned uc order, b ≠ dg.bufsAllocated := by
    rintro b hb rfl
    exact Nat.lt_irrefl _ (h.old _ hb)
  refine ⟨getD_hand h.ordered hRing, ?_⟩
  exact {
    tables := { h.ordered.toTables with }
    chained := {
      nodup := h.ordered.nodup
      old := fun v hv => Nat.lt_succ_of_lt (h.ordered.old v hv)
      linked := h.ordered.linked }
    victim_new := fun hMem => Nat.lt_irrefl _ (h.ordered.old _ hMem)
    victim_old := Nat.lt_succ_self _
    ring := by
      show (uc.ucFifo.rotate uc.ucNextvictim).tail = _
      rw [hRing, List.tail_cons]
      congr 2
      show k = uc.ucSize - (order.length + 1)
      omega
    entries := by
      have hShort : log.length ≤ uc.ucSize - 1 := by
        have hLen := h.length_order
        omega
      show order.map _ = log.take (uc.ucSize - 1)
      rw [List.take_of_length_le hShort, ← List.take_of_length_le (by omega : log.length ≤ uc.ucSize),
        ← h.entries]
      apply List.map_congr_left
      intro v hv
      have hOld := hFresh _ (mem_owned hv)
      simp [ClCache.entry, allocBuffer, Function.update_of_ne hOld]
    replylen_le := h.replylen_le
    nodup := List.nodup_cons.mpr ⟨fun hMem => hFresh _ hMem rfl, h.nodup⟩
    old := by
      rintro b (_ | ⟨_, hb⟩)
      · exact Nat.lt_succ_self _
      · exact Nat.lt_succ_of_lt (h.old b hb)
    full := by
      rintro b (_ | ⟨_, hb⟩)
      · show (Function.update dg.bufs _ _ dg.bufsAllocated).length = _
        rw [Function.update_self]
        show (dg.host.malloc dg.suIosz).length = dg.suIosz
        simp [Host.malloc]
      · show (Function.update dg.bufs _ _ b).length = _
        rw [Function.update_of_ne (hFresh b hb)]
        exact h.full b hb }

/-- A full cache gives up its oldest node. -/
theorem Caching.vacant_oldest {v : Nat} (h : dg.Caching uc (order ++ [v]) log)
    (hFull : order.length + 1 = uc.ucSize) :
    uc.ucFifo.getD uc.ucNextvictim none = some v ∧
    ∃ vicp, uc.findVictim v = some vicp ∧ uc.link vicp = some v ∧
      dg.Vacant (uc.setLink (uc.nodes v).cacheNext vicp) order log v
        (uc.nodes v).cacheReply := by
  have hRing := h.ordered.fifo_eq
  rw [List.length_append, List.length_singleton, hFull, Nat.sub_self, List.replicate_zero,
    List.nil_append, List.reverse_append, List.reverse_singleton, List.singleton_append,
    List.map_cons] at hRing
  obtain ⟨vicp, hFind, hLink, hTables, hChained⟩ :=
    ClCache.Chained.unlink h.ordered.toTables h.ordered.toChained
  obtain ⟨hSize, hFifo, hHand, hAlloc, -⟩ :=
    ClCache.setLink_same uc (uc.nodes v).cacheNext vicp
  have hNodes (w : Nat) : ((uc.setLink (uc.nodes v).cacheNext vicp).nodes w).key =
        (uc.nodes w).key ∧
      ((uc.setLink (uc.nodes v).cacheNext vicp).nodes w).cacheReply = (uc.nodes w).cacheReply ∧
      ((uc.setLink (uc.nodes v).cacheNext vicp).nodes w).cacheReplylen =
        (uc.nodes w).cacheReplylen :=
    ClCache.setLink_nodes (uc.nodes v).cacheNext vicp w
  have hOwned : dg.owned (uc.setLink (uc.nodes v).cacheNext vicp) order = dg.owned uc order := by
    rw [owned, owned]
    congr 1
    exact List.map_congr_left fun w _ => (hNodes w).2.1
  have hPerm : ((uc.nodes v).cacheReply :: dg.owned uc order).Perm
      (dg.owned uc (order ++ [v])) := by
    rw [owned, owned, List.map_append, List.map_singleton, ← List.cons_append]
    exact (List.perm_append_singleton _ _).symm
  refine ⟨getD_hand h.ordered hRing, vicp, hFind, hLink, ?_⟩
  exact {
    tables := hTables
    chained := hChained
    victim_new := by
      intro hMem
      exact (List.nodup_append.mp h.ordered.nodup).2.2 v hMem v (List.mem_singleton_self v) rfl
    victim_old := by
      rw [hAlloc]
      exact h.ordered.old v (List.mem_append_right _ (List.mem_singleton_self v))
    ring := by
      rw [hFifo, hHand, hSize, hRing, List.tail_cons, hFull, Nat.sub_self, List.replicate_zero,
        List.nil_append]
    entries := by
      have hTake := congrArg (List.take order.length) h.entries
      rw [List.map_append, List.take_left' (List.length_map _), List.take_take,
        Nat.min_eq_left (by omega)] at hTake
      rw [hSize, ← hFull, Nat.add_sub_cancel, ← hTake]
      apply List.map_congr_left
      intro w _
      obtain ⟨hKey, hReply, hLen⟩ := hNodes w
      rw [ClCache.entry, ClCache.entry, hKey, hReply, hLen]
    replylen_le := by
      intro w hw
      rw [(hNodes w).2.2]
      exact h.replylen_le w (List.mem_append_left _ hw)
    nodup := by
      rw [hOwned]
      exact hPerm.nodup_iff.mpr h.nodup
    old := by
      rw [hOwned]
      exact fun b hb => h.old b (hPerm.mem_iff.mp hb)
    full := by
      rw [hOwned]
      exact fun b hb => h.full b (hPerm.mem_iff.mp hb) }

/-- What `cache_set` keeps of the transport. -/
structure SameRequest (dg : SvcDg) (uc : ClCache) (dg' : SvcDg) (uc' : ClCache) : Prop where
  size_eq : uc'.ucSize = uc.ucSize
  iosz_eq : dg'.suIosz = dg.suIosz
  savedKey_eq : dg'.savedKey uc' = dg.savedKey uc

/-- `cache_set` always finds its victim, and puts the reply in front of the others. -/
theorem Caching.cacheSet (h : dg.Caching uc order log) {replylen : Nat}
    (hFit : replylen ≤ dg.suIosz) :
    ∃ dg' uc' order', dg.cacheSet replylen uc = some (true, dg') ∧
      dg'.Caching uc' order'
        ({ key := dg.savedKey uc, reply := (dg.bufs dg.rpcBuffer).take replylen } :: log) ∧
      SameRequest dg uc dg' uc' := by
  have hLe := h.ordered.length_le
  rcases Nat.lt_or_ge order.length uc.ucSize with hRoom | hFull
  · obtain ⟨hNone, hVacant⟩ := h.vacant_new hRoom
    obtain ⟨uc', hCaching, hSize, hProc, hVers, hProg⟩ := hVacant.cacheStore hFit
    have hOld : dg.rpcBuffer ≠ dg.bufsAllocated :=
      Nat.ne_of_lt (h.old _ List.mem_cons_self)
    have hBuf : dg.allocBuffer.2.bufs dg.allocBuffer.2.rpcBuffer = dg.bufs dg.rpcBuffer :=
      Function.update_of_ne hOld _ _
    rw [hBuf] at hCaching
    refine ⟨_, uc', uc.allocated :: order, by rw [SvcDg.cacheSet, hNone]; rfl, hCaching,
      hSize, rfl, ?_⟩
    rw [savedKey, savedKey, hProc, hVers, hProg]
    rfl
  · obtain ⟨init, v, rfl⟩ : ∃ init v, order = init ++ [v] := by
      have hPos := h.ordered.size_pos
      have hNonempty : order ≠ [] := List.ne_nil_of_length_pos (by omega)
      exact ⟨_, _, (List.dropLast_append_getLast hNonempty).symm⟩
    rw [List.length_append, List.length_singleton] at hLe hFull
    obtain ⟨hSome, vicp, hFind, hLink, hVacant⟩ := h.vacant_oldest (by omega)
    obtain ⟨uc', hCaching, hSize, hProc, hVers, hProg⟩ := hVacant.cacheStore hFit
    obtain ⟨hSameSize, -, -, -, -, hSameProc, hSameVers, hSameProg⟩ :=
      ClCache.setLink_same uc (uc.nodes v).cacheNext vicp
    have hKey : dg.savedKey (uc.setLink (uc.nodes v).cacheNext vicp) = dg.savedKey uc := by
      rw [savedKey, savedKey, hSameProc, hSameVers, hSameProg]
    rw [hKey] at hCaching
    refine ⟨_, uc', v :: init, ?_, hCaching, hSize.trans hSameSize, rfl, ?_⟩
    · simp only [SvcDg.cacheSet, hSome, hFind, hLink, reduceCtorEq, if_false]
    · rw [← hKey, savedKey, savedKey, hProc, hVers, hProg]
      rfl

/-- A transport that owns one buffer and no cache. -/
structure Plain (dg : SvcDg) : Prop where
  no_cache : dg.suCache = none
  old : dg.rpcBuffer < dg.bufsAllocated
  full : (dg.bufs dg.rpcBuffer).length = dg.suIosz

theorem ordered_empty {size : Nat} (hPos : 0 < size) (hUint : sparseness * size < 2 ^ 32) :
    (ClCache.empty size).Ordered [] where
  size_pos := hPos
  size_uint := hUint
  length_entries := by
    show (List.replicate (size * sparseness % 2 ^ 32) none).length = sparseness * size
    rw [List.length_replicate, Nat.mul_comm, Nat.mod_eq_of_lt hUint]
  length_fifo := List.length_replicate
  hand_lt := hPos
  nodup := List.nodup_nil
  old := fun v hv => by cases hv
  linked := by
    intro loc _
    show (ClCache.empty size).ucEntries.getD loc none = none
    simp [ClCache.empty, List.getD_eq_getElem?_getD, List.getElem?_replicate]
    split <;> rfl
  fifo_eq := by
    show (List.replicate size none).rotate 0 = _
    rw [List.rotate_zero]
    simp [ClCache.empty]

theorem Plain.caching (h : dg.Plain) {size : BitVec 32} (hPos : 0 < size.toNat)
    (hUint : sparseness * size.toNat < 2 ^ 32) :
    (dg.svcDgEnablecache size).2.Caching (ClCache.empty size.toNat) [] [] where
  cache_eq := by simp [svcDgEnablecache, h.no_cache]
  ordered := ordered_empty hPos hUint
  entries := by simp
  replylen_le := fun v hv => by cases hv
  nodup := by simp [owned]
  old := by
    simp only [svcDgEnablecache, h.no_cache, owned, List.map_nil, List.mem_singleton]
    rintro b rfl
    exact h.old
  full := by
    simp only [svcDgEnablecache, h.no_cache, owned, List.map_nil, List.mem_singleton]
    rintro b rfl
    exact h.full

end SvcDg

/-- A transport in use, the request it is about to answer, and all the replies that
`cache_set` has been called for, the newest first. -/
structure CacheSession where
  dg : SvcDg
  pending : Option CacheKey
  log : List CacheEntry

/-- The sessions that calls of the cache lead to from `svc_dg_enablecache(size)`. Bytes may
come into the buffer at any time. A reply is set for the request that was last looked
up, which was not found. -/
inductive CacheSession.Reaches (size : BitVec 32) : CacheSession → Prop
  | enabled {dg : SvcDg} (plain : dg.Plain) :
      Reaches size { dg := (dg.svcDgEnablecache size).2, pending := none, log := [] }
  | fill {ss : CacheSession} (bs : List UInt8) (before : Reaches size ss)
      (fits : bs.length ≤ ss.dg.suIosz) : Reaches size { ss with dg := ss.dg.fill bs }
  | hit {ss : CacheSession} {uc : ClCache} {dg dg' : SvcDg} {reply : Nat × Nat} (xid : BitVec 32)
      (addr : List UInt8) (msg : RpcMsg) (before : Reaches size ss)
      (cache : ss.dg.suCache = some uc)
      (request : dg = { ss.dg with suXid := xid, xpRtaddr := addr })
      (get : dg.cacheGet msg uc = some (some reply, dg')) :
      Reaches size { dg := dg', pending := none, log := ss.log }
  | miss {ss : CacheSession} {uc : ClCache} {dg dg' : SvcDg} (xid : BitVec 32)
      (addr : List UInt8) (msg : RpcMsg) (before : Reaches size ss)
      (cache : ss.dg.suCache = some uc)
      (request : dg = { ss.dg with suXid := xid, xpRtaddr := addr })
      (get : dg.cacheGet msg uc = some (none, dg')) :
      Reaches size { dg := dg', pending := some (dg.requestKey msg), log := ss.log }
  | set {ss : CacheSession} {uc : ClCache} {dg' : SvcDg} {key : CacheKey} (replylen : Nat)
      (before : Reaches size ss) (cache : ss.dg.suCache = some uc)
      (pending : ss.pending = some key) (fits : replylen ≤ ss.dg.suIosz)
      (set : ss.dg.cacheSet replylen uc = some (true, dg')) :
      Reaches size
        { dg := dg', pending := ss.pending
          log := { key := key, reply := (ss.dg.bufs ss.dg.rpcBuffer).take replylen } :: ss.log }

/-- What holds of a session: the cache is in order and has saved the pending request. -/
structure CacheSession.Sound (size : Nat) (ss : CacheSession) (uc : ClCache)
    (order : List Nat) : Prop where
  caching : ss.dg.Caching uc order ss.log
  size_eq : uc.ucSize = size
  pending_eq : ∀ key, ss.pending = some key → ss.dg.savedKey uc = key

/-- The induction is on the calls; each is one lemma about the cache. -/
theorem CacheSession.Reaches.sound {size : BitVec 32} {ss : CacheSession} (h : ss.Reaches size)
    (hPos : 0 < size.toNat) (hUint : sparseness * size.toNat < 2 ^ 32) :
    ∃ uc order, ss.Sound size.toNat uc order := by
  induction h with
  | enabled plain =>
      exact ⟨_, [], plain.caching hPos hUint, rfl, fun key hNone => by cases hNone⟩
  | fill bs _ fits ih =>
      obtain ⟨uc, order, hSound⟩ := ih
      exact ⟨uc, order, hSound.caching.fill fits, hSound.size_eq, hSound.pending_eq⟩
  | hit xid addr msg _ cache request get ih =>
      obtain ⟨uc', order, hSound⟩ := ih
      obtain rfl := Option.some.inj (hSound.caching.cache_eq.symm.trans cache)
      have hCaching := hSound.caching.request xid addr
      rw [← request] at hCaching
      rcases hCaching.cacheGet msg with ⟨v, -, -, hGet⟩ | ⟨-, hGet⟩
      · rw [hGet] at get
        cases get
        exact ⟨uc', order, hCaching, hSound.size_eq, fun key hNone => by cases hNone⟩
      · rw [hGet] at get
        cases get
  | miss xid addr msg _ cache request get ih =>
      obtain ⟨uc', order, hSound⟩ := ih
      obtain rfl := Option.some.inj (hSound.caching.cache_eq.symm.trans cache)
      have hCaching := hSound.caching.request xid addr
      rw [← request] at hCaching
      rcases hCaching.cacheGet msg with ⟨v, -, -, hGet⟩ | ⟨-, hGet⟩
      · rw [hGet] at get
        cases get
      · rw [hGet] at get
        cases get
        refine ⟨uc'.remember msg, order, hCaching.remember msg, hSound.size_eq, fun key hKey => ?_⟩
        cases hKey
        rfl
  | set replylen _ cache pending fits set ih =>
      obtain ⟨uc', order, hSound⟩ := ih
      obtain rfl := Option.some.inj (hSound.caching.cache_eq.symm.trans cache)
      obtain ⟨dg', uc₁, order', hSet, hCaching, hSame⟩ := hSound.caching.cacheSet fits
      rw [set] at hSet
      cases hSet
      have hKey := hSound.pending_eq _ pending
      rw [hKey] at hCaching
      refine ⟨uc₁, order', hCaching, hSame.size_eq.trans hSound.size_eq, fun key hPending => ?_⟩
      rw [hSame.savedKey_eq]
      exact hSound.pending_eq key hPending

/-- A transport with a buffer of sixteen bytes. -/
def smallTransport : SvcDg where
  host := zeroHost
  rpcBuffer := 0
  bufs := fun _ => List.replicate 16 0
  bufsAllocated := 1
  suIosz := 16
  xPriv := 0
  suXid := 0
  suCache := none
  xpRtaddr := []

/-- A call of procedure 3. -/
def procThree : RpcMsg :=
  { rmXid := 7, rmDirection := call, rmCall :=
    { cbRpcvers := rpcMsgVersion, cbProg := 5, cbVers := 4, cbProc := 3
      cbCred := { oaFlavor := 0, oaBase := none, oaLength := 0 }
      cbVerf := { oaFlavor := 0, oaBase := none, oaLength := 0 } } }

end OncRpc
