import OncRpc.Rpc.Placement
import OncRpc.Svc.Dg

/-! Whole histories of a datagram transport, from its creation, with requests of any number
of senders. -/
namespace OncRpc

/-- A request that `svc_dg_recv` has returned TRUE for. -/
structure DgRequest where
  dgram : List UInt8
  /-- Where it has come from. -/
  addr : List UInt8
  msg : RpcMsg
  /-- What was in `xp_rtaddr` then. -/
  rtaddr : List UInt8

namespace DgRequest

/-- What tells a request from others. -/
def keyOf (msg : RpcMsg) (addr : List UInt8) : CacheKey :=
  { xid := msg.rmXid, proc := msg.rmCall.cbProc, vers := msg.rmCall.cbVers
    prog := msg.rmCall.cbProg, addr := addr }

def key (r : DgRequest) : CacheKey := keyOf r.msg r.addr

/-- The key that the transport has for it. -/
def seen (r : DgRequest) : CacheKey := keyOf r.msg r.rtaddr

end DgRequest

/-- A transport in use, the request that is being served, and the cached replies with their
requests, the newest first. -/
structure DgSession where
  dg : SvcDg
  pending : Option DgRequest
  log : List (DgRequest × List UInt8)

namespace DgSession

/-- The request to be served after a call of `svc_dg_recv`. -/
def accept (dgram addr : List UInt8) (dg : SvcDg) : RecvAnswer → Option DgRequest
  | .accepted msg => some { dgram := dgram, addr := addr, msg := msg, rtaddr := dg.xpRtaddr }
  | _ => none

/-- The log after `svc_dg_reply`. -/
def record (ss : DgSession) (r : DgRequest) (bs : List UInt8) (sent : Bool) :
    List (DgRequest × List UInt8) :=
  if sent && ss.dg.suCache.isSome then (r, bs) :: ss.log else ss.log

/-- The histories in which every call of `svc_dg_recv` is an `allowed` one. A cache of `size`
replies is enabled between two requests. A reply is for the last request, and its encoding
may fail after it has put some bytes. -/
inductive Reaches (size : BitVec 32)
    (allowed : RpcMsg → List UInt8 → List UInt8 → SvcDg → Prop) : DgSession → Prop
  | created {dg : SvcDg} (plain : dg.Plain) :
      Reaches size allowed { dg := dg, pending := none, log := [] }
  | enabled {ss : DgSession} (before : Reaches size allowed ss) :
      Reaches size allowed
        { ss with dg := (ss.dg.svcDgEnablecache size).2, pending := none }
  | recv {ss : DgSession} {msg : RpcMsg} {dgram addr : List UInt8} {answer : RecvAnswer}
      {dg : SvcDg} (before : Reaches size allowed ss) (may : allowed msg dgram addr ss.dg)
      (recv : ss.dg.svcDgRecv msg dgram addr = some (answer, dg)) :
      Reaches size allowed { ss with dg := dg, pending := accept dgram addr dg answer }
  | getargs {ss : DgSession} {α : Type} (args : ArgFilter α) (before : Reaches size allowed ss) :
      Reaches size allowed { ss with dg := (ss.dg.svcDgGetargs args).2 }
  | reply {ss : DgSession} {r : DgRequest} {bs : List UInt8} {sent ok : Bool} {dg : SvcDg}
      (before : Reaches size allowed ss) (pending : ss.pending = some r)
      (fits : bs.length ≤ ss.dg.suIosz) (reply : ss.dg.svcDgReply bs sent = some (ok, dg)) :
      Reaches size allowed { ss with dg := dg, log := ss.record r bs sent }
  | broken {ss : DgSession} {bs : List UInt8} (before : Reaches size allowed ss)
      (fits : bs.length ≤ ss.dg.suIosz) :
      Reaches size allowed { ss with dg := (ss.dg.fill bs).setpos bs.length }

end DgSession

/-! ### What holds in every history -/

namespace SvcDg

variable {dg : SvcDg} {uc : ClCache} {order : List Nat} {log : List CacheEntry}

/-- `svc_dg_recv` refuses a request, or looks up what it has decoded. -/
theorem svcDgRecv_cases (dg : SvcDg) (msg : RpcMsg) (dgram addr : List UInt8) :
    (∃ rtaddr pos, dg.svcDgRecv msg dgram addr = some (.refused,
      { dg.fill (dgram.take dg.suIosz) with xpRtaddr := rtaddr, xPriv := pos })) ∨
    ∃ m pos, dg.svcDgRecv msg dgram addr =
      svcDgLookup m addr (dg.received (dgram.take dg.suIosz) addr m.rmXid pos) := by
  unfold svcDgRecv
  by_cases hLong : min dgram.length dg.suIosz < 4 * 4
  · rw [if_pos hLong]
    exact Or.inl ⟨dg.xpRtaddr, dg.xPriv, rfl⟩
  · simp only [if_neg hLong]
    rcases (xdrCallmsg .decode msg).run
      (((dg.fill (dgram.take dg.suIosz)).setRtaddr addr).setpos 0).suXdrs with ⟨_ | m, xdrs⟩
    · exact Or.inl ⟨_, xdrs.priv, rfl⟩
    · exact Or.inr ⟨m, xdrs.priv, rfl⟩

/-- A request is answered with a cached reply that has its key, if there is one. -/
theorem Caching.svcDgLookup (h : dg.Caching uc order log) (msg : RpcMsg) (addr : List UInt8) :
    (∃ e ∈ log.take uc.ucSize, e.key = dg.requestKey msg ∧
      svcDgLookup msg addr dg = some (.answered e.reply addr, dg)) ∨
    (∀ e ∈ log.take uc.ucSize, e.key ≠ dg.requestKey msg) ∧
      svcDgLookup msg addr dg =
        some (.accepted msg, { dg with suCache := some (uc.remember msg) }) := by
  rcases h.cacheGet msg with ⟨v, hv, hKey, hGet⟩ | ⟨hNone, hGet⟩
  · refine Or.inl ⟨uc.entry dg v, ?_, hKey, ?_⟩
    · rw [← h.entries]
      exact List.mem_map_of_mem hv
    · simp only [SvcDg.svcDgLookup, h.cache_eq, hGet]
      rfl
  · refine Or.inr ⟨hNone, ?_⟩
    simp only [SvcDg.svcDgLookup, h.cache_eq, hGet]

/-- A reply is cached with the key of the request that was remembered. -/
theorem Caching.svcDgReply (h : dg.Caching uc order log) {bs : List UInt8}
    (hFit : bs.length ≤ dg.suIosz) :
    ∃ dg' uc' order', dg.svcDgReply bs true = some (true, dg') ∧
      dg'.Caching uc' order' ({ key := dg.savedKey uc, reply := bs } :: log) ∧
      SameRequest dg uc dg' uc' := by
  have hFilled : ((dg.fill bs).setpos bs.length).Caching uc order log := { h.fill hFit with }
  obtain ⟨dg', uc', order', hSet, hCaching, hSame⟩ := hFilled.cacheSet hFit
  have hBuf : ((dg.fill bs).bufs (dg.fill bs).rpcBuffer).take bs.length = bs := by
    rw [bufs_fill, List.take_left]
  refine ⟨dg', uc', order', ?_, ?_, ?_⟩
  · have hCache : ((dg.fill bs).setpos bs.length).suCache = some uc := h.cache_eq
    simp only [SvcDg.svcDgReply, if_true, hCache, hSet, Option.map_some]
  · have hStored : dg'.Caching uc' order'
        ({ key := dg.savedKey uc,
           reply := ((dg.fill bs).bufs (dg.fill bs).rpcBuffer).take bs.length } :: log) := hCaching
    rwa [hBuf] at hStored
  · exact ⟨hSame.size_eq, hSame.iosz_eq, hSame.savedKey_eq⟩

/-- What comes into the buffer of a transport leaves it plain. -/
theorem Plain.fill (h : dg.Plain) {bs : List UInt8} (hFit : bs.length ≤ dg.suIosz) :
    (dg.fill bs).Plain where
  no_cache := h.no_cache
  old := h.old
  full := by
    show _ = dg.suIosz
    rw [bufs_fill, List.length_append, List.length_drop, h.full]
    omega

/-- Without a cache every request that can be decoded is accepted. -/
theorem svcDgLookup_plain (h : dg.suCache = none) (msg : RpcMsg) (addr : List UInt8) :
    svcDgLookup msg addr dg = some (.accepted msg, dg) := by
  simp only [svcDgLookup, h]

end SvcDg

namespace DgSession

/-- A reply as the cache has it. -/
def entry (e : DgRequest × List UInt8) : CacheEntry := { key := e.1.seen, reply := e.2 }

/-- The cache holds the newest replies of the log, and has saved the request that is being
served. -/
structure Kept (size : Nat) (ss : DgSession) (uc : ClCache) (order : List Nat) : Prop where
  caching : ss.dg.Caching uc order (ss.log.map entry)
  size_eq : uc.ucSize = size
  pending_eq : ∀ r, ss.pending = some r → ss.dg.savedKey uc = r.seen

/-- What holds of a session, before and after the cache is enabled. -/
def InOrder (size : Nat) (ss : DgSession) : Prop :=
  ss.dg.Plain ∧ ss.log = [] ∨ ∃ uc order, ss.Kept size uc order

variable {size : Nat} {ss : DgSession}

theorem InOrder.enabled (h : ss.InOrder size) {n : BitVec 32} (hSize : n.toNat = size)
    (hPos : 0 < size) (hUint : sparseness * size < 2 ^ 32) :
    InOrder size { ss with dg := (ss.dg.svcDgEnablecache n).2, pending := none } := by
  subst hSize
  rcases h with ⟨hPlain, hLog⟩ | ⟨uc, order, hKept⟩
  · refine Or.inr ⟨ClCache.empty n.toNat, [], ?_, rfl, fun r hNone => by cases hNone⟩
    show SvcDg.Caching _ _ [] (ss.log.map entry)
    rw [hLog]
    exact hPlain.caching hPos hUint
  · refine Or.inr ⟨uc, order, ?_, hKept.size_eq, fun r hNone => by cases hNone⟩
    have hSame : (ss.dg.svcDgEnablecache n).2 = ss.dg := by
      simp only [SvcDg.svcDgEnablecache, hKept.caching.cache_eq]
    show SvcDg.Caching _ uc order (ss.log.map entry)
    rw [hSame]
    exact hKept.caching

theorem InOrder.recv (h : ss.InOrder size) {msg : RpcMsg} {dgram addr : List UInt8}
    {answer : RecvAnswer} {dg : SvcDg} (hRecv : ss.dg.svcDgRecv msg dgram addr = some (answer, dg)) :
    InOrder size { ss with dg := dg, pending := accept dgram addr dg answer } := by
  have hShort : (dgram.take ss.dg.suIosz).length ≤ ss.dg.suIosz := List.length_take_le _ _
  rcases SvcDg.svcDgRecv_cases ss.dg msg dgram addr with
    ⟨rtaddr, pos, hRefused⟩ | ⟨m, pos, hLookup⟩
  · rw [hRecv] at hRefused
    cases hRefused
    rcases h with ⟨hPlain, hLog⟩ | ⟨uc, order, hKept⟩
    · exact Or.inl ⟨{ hPlain.fill hShort with }, hLog⟩
    · exact Or.inr ⟨uc, order, { hKept.caching.fill hShort with }, hKept.size_eq,
        fun r hNone => by cases hNone⟩
  · rw [hRecv] at hLookup
    rcases h with ⟨hPlain, hLog⟩ | ⟨uc, order, hKept⟩
    · have hNone : (ss.dg.received (dgram.take ss.dg.suIosz) addr m.rmXid pos).suCache = none :=
        hPlain.no_cache
      rw [SvcDg.svcDgLookup_plain hNone] at hLookup
      cases hLookup
      exact Or.inl ⟨{ hPlain.fill hShort with }, hLog⟩
    · have hCaching := hKept.caching.received hShort addr m.rmXid pos
      rcases hCaching.svcDgLookup m addr with ⟨e, -, -, hHit⟩ | ⟨-, hMiss⟩
      · rw [hHit] at hLookup
        cases hLookup
        exact Or.inr ⟨uc, order, hCaching, hKept.size_eq, fun r hNone => by cases hNone⟩
      · rw [hMiss] at hLookup
        cases hLookup
        refine Or.inr ⟨_, order, hCaching.remember m, hKept.size_eq, fun r hSome => ?_⟩
        cases hSome
        rfl

theorem InOrder.reply (h : ss.InOrder size) {r : DgRequest} {bs : List UInt8} {sent ok : Bool}
    {dg : SvcDg} (hPending : ss.pending = some r) (hFit : bs.length ≤ ss.dg.suIosz)
    (hReply : ss.dg.svcDgReply bs sent = some (ok, dg)) :
    InOrder size { ss with dg := dg, log := ss.record r bs sent } := by
  rcases h with ⟨hPlain, hLog⟩ | ⟨uc, order, hKept⟩
  · have hNone : ((ss.dg.fill bs).setpos bs.length).suCache = none := hPlain.no_cache
    have hSame : dg = (ss.dg.fill bs).setpos bs.length := by
      cases sent <;> simp [SvcDg.svcDgReply, hNone] at hReply <;> exact hReply.2.symm
    subst hSame
    refine Or.inl ⟨{ hPlain.fill hFit with }, ?_⟩
    simp [record, hPlain.no_cache, hLog]
  · cases sent with
    | false =>
        simp only [SvcDg.svcDgReply, Bool.false_eq_true, if_false, Option.some.injEq,
          Prod.mk.injEq] at hReply
        obtain ⟨-, rfl⟩ := hReply
        exact Or.inr ⟨uc, order, { hKept.caching.fill hFit with }, hKept.size_eq, hKept.pending_eq⟩
    | true =>
        obtain ⟨dg', uc', order', hSent, hCaching, hSame⟩ := hKept.caching.svcDgReply hFit
        rw [hReply] at hSent
        cases hSent
        refine Or.inr ⟨uc', order', ?_, hSame.size_eq.trans hKept.size_eq, fun r' hr' => ?_⟩
        · rw [hKept.pending_eq r hPending] at hCaching
          have hLog : ss.record r bs true = (r, bs) :: ss.log := by
            simp [record, hKept.caching.cache_eq]
          show SvcDg.Caching _ uc' order' ((ss.record r bs true).map entry)
          rw [hLog]
          exact hCaching
        · rw [hSame.savedKey_eq]
          exact hKept.pending_eq r' hr'

/-- Bytes in the buffer and a position of the stream do not matter. -/
theorem InOrder.broken (h : ss.InOrder size) {bs : List UInt8} (hFit : bs.length ≤ ss.dg.suIosz)
    (pos : Nat) : InOrder size { ss with dg := (ss.dg.fill bs).setpos pos } := by
  rcases h with ⟨hPlain, hLog⟩ | ⟨uc, order, hKept⟩
  · exact Or.inl ⟨{ hPlain.fill hFit with }, hLog⟩
  · exact Or.inr ⟨uc, order, { hKept.caching.fill hFit with }, hKept.size_eq, hKept.pending_eq⟩

theorem InOrder.setpos (h : ss.InOrder size) (pos : Nat) :
    InOrder size { ss with dg := ss.dg.setpos pos } := by
  rcases h with ⟨hPlain, hLog⟩ | ⟨uc, order, hKept⟩
  · exact Or.inl ⟨{ hPlain with }, hLog⟩
  · exact Or.inr ⟨uc, order, { hKept.caching with }, hKept.size_eq, hKept.pending_eq⟩

/-- The induction is on the history; each call is one lemma. -/
theorem Reaches.inOrder {size : BitVec 32}
    {allowed : RpcMsg → List UInt8 → List UInt8 → SvcDg → Prop} {ss : DgSession}
    (h : ss.Reaches size allowed) (hPos : 0 < size.toNat)
    (hUint : sparseness * size.toNat < 2 ^ 32) : ss.InOrder size.toNat := by
  induction h with
  | created plain => exact Or.inl ⟨plain, rfl⟩
  | enabled _ ih => exact ih.enabled rfl hPos hUint
  | recv _ _ recv ih => exact ih.recv recv
  | getargs args _ ih => exact ih.setpos _
  | reply _ pending fits reply ih => exact ih.reply pending fits reply
  | broken _ fits ih => exact ih.broken fits _

theorem InOrder.sound (h : ss.InOrder size) : ss.dg.Sound := by
  rcases h with ⟨hPlain, -⟩ | ⟨uc, order, hKept⟩
  · refine ⟨hPlain.full, fun uc hSome => ?_⟩
    rw [hPlain.no_cache] at hSome
    cases hSome
  · refine ⟨hKept.caching.full _ List.mem_cons_self, fun uc' hSome => ?_⟩
    obtain rfl := Option.some.inj (hKept.caching.cache_eq.symm.trans hSome)
    exact ⟨order, _, hKept.caching⟩

end DgSession

/-! ### Requests that are recognised -/

/-- The address of the sender is no shorter than what is in `xp_rtaddr`, and the header does
not go on behind the datagram. -/
def SvcDg.Exact (msg : RpcMsg) (dgram addr : List UInt8) (dg : SvcDg) : Prop :=
  4 * 4 ≤ min dgram.length dg.suIosz →
    dg.xpRtaddr.length ≤ addr.length ∧ HeaderFits msg (dgram.take dg.suIosz)

instance (msg : RpcMsg) (dgram addr : List UInt8) (dg : SvcDg) :
    Decidable (dg.Exact msg dgram addr) :=
  inferInstanceAs (Decidable (_ → _))

/-- The transport has the sender of the request, and the header its datagram has. -/
structure DgRequest.Faithful (iosz : Nat) (r : DgRequest) : Prop where
  long : 4 * 4 ≤ min r.dgram.length iosz
  rtaddr_eq : r.rtaddr = r.addr
  decoded : ∃ msg, HeaderFits msg (r.dgram.take iosz) ∧
    (probeHeader msg (r.dgram.take iosz)).1 = some r.msg

theorem DgRequest.Faithful.seen_eq {iosz : Nat} {r : DgRequest} (h : r.Faithful iosz) :
    r.seen = r.key := by
  rw [DgRequest.seen, DgRequest.key, h.rtaddr_eq]

/-- Two requests with the same bytes from the same sender have the same key. -/
theorem DgRequest.Faithful.key_eq {iosz : Nat} {r : DgRequest} (h : r.Faithful iosz)
    {msg m : RpcMsg} (hm : (probeHeader msg (r.dgram.take iosz)).1 = some m) :
    DgRequest.keyOf m r.addr = r.key := by
  obtain ⟨msg', -, hr⟩ := h.decoded
  have hWords := (probeHeader_words msg msg' (r.dgram.take iosz)).1
  rw [hm, hr, Option.map_some, Option.map_some, Option.some.injEq] at hWords
  simp only [RpcMsg.words, Prod.mk.injEq] at hWords
  obtain ⟨hXid, hProg, hVers, hProc⟩ := hWords
  simp only [DgRequest.key, DgRequest.keyOf, hXid, hProg, hVers, hProc]

namespace SvcDg

variable {dg : SvcDg}

/-- An exact request is refused, or it is looked up under its own key. -/
theorem svcDgRecv_exact {msg : RpcMsg} {dgram addr : List UInt8}
    (hFull : (dg.bufs dg.rpcBuffer).length = dg.suIosz) (hExact : dg.Exact msg dgram addr) :
    (∃ dg', dg.svcDgRecv msg dgram addr = some (.refused, dg') ∧
      dg'.suIosz = dg.suIosz ∧ (4 * 4 ≤ min dgram.length dg.suIosz →
        (probeHeader msg (dgram.take dg.suIosz)).1 = none)) ∨
    ∃ m len, 4 * 4 ≤ min dgram.length dg.suIosz ∧ HeaderFits msg (dgram.take dg.suIosz) ∧
      (probeHeader msg (dgram.take dg.suIosz)).1 = some m ∧
      (dg.received (dgram.take dg.suIosz) addr m.rmXid len).xpRtaddr = addr ∧
      dg.svcDgRecv msg dgram addr =
        svcDgLookup m addr (dg.received (dgram.take dg.suIosz) addr m.rmXid len) := by
  by_cases hLong : 4 * 4 ≤ min dgram.length dg.suIosz
  · obtain ⟨hAddr, hFits⟩ := hExact hLong
    rcases svcDgRecv_header addr hFull hLong hFits with
      ⟨hNone, pos, hRecv⟩ | ⟨m, len, hSome, -, -, hRecv⟩
    · exact Or.inl ⟨_, hRecv, rfl, fun _ => hNone⟩
    · have hPeer : ((dg.fill (dgram.take dg.suIosz)).setRtaddr addr).xpRtaddr = addr :=
        xpRtaddr_setRtaddr hAddr
      exact Or.inr ⟨m, len, hLong, hFits, hSome, hPeer, hRecv⟩
  · refine Or.inl ⟨dg.fill (dgram.take dg.suIosz), ?_, rfl, fun h => absurd h hLong⟩
    simp only [svcDgRecv, if_pos (Nat.lt_of_not_le hLong)]

theorem suIosz_svcDgReply {bs : List UInt8} {sent ok : Bool} {dg' : SvcDg}
    (h : dg.svcDgReply bs sent = some (ok, dg')) : dg'.suIosz = dg.suIosz := by
  unfold svcDgReply cacheSet at h
  grind [setpos, fill, cacheStore, allocBuffer]

end SvcDg

namespace DgSession

variable {size : BitVec 32} {ss : DgSession}

/-- Every request that is being served or has a reply in the log is faithful. -/
def AllFaithful (ss : DgSession) : Prop :=
  (∀ r, ss.pending = some r → r.Faithful ss.dg.suIosz) ∧
    ∀ e ∈ ss.log, e.1.Faithful ss.dg.suIosz

theorem AllFaithful.recv (h : ss.AllFaithful) (hSound : ss.dg.Sound) {msg : RpcMsg}
    {dgram addr : List UInt8} {answer : RecvAnswer} {dg : SvcDg}
    (hExact : ss.dg.Exact msg dgram addr)
    (hRecv : ss.dg.svcDgRecv msg dgram addr = some (answer, dg)) :
    AllFaithful { ss with dg := dg, pending := accept dgram addr dg answer } := by
  rcases SvcDg.svcDgRecv_exact hSound.full hExact with
    ⟨dg', hRefused, hSize, -⟩ | ⟨m, len, hLong, hFits, hSome, hAddr, hLookup⟩
  · rw [hRecv] at hRefused
    cases hRefused
    exact ⟨fun r hNone => (by cases hNone), fun e he => hSize ▸ h.2 e he⟩
  · rw [hLookup] at hRecv
    obtain ⟨⟨cache, rfl⟩, hSame⟩ := SvcDg.svcDgLookup_same hRecv
    refine ⟨fun r hr => ?_, h.2⟩
    cases answer with
    | refused => cases hr
    | answered reply to' => cases hr
    | accepted m' =>
        obtain rfl := hSame m' rfl
        cases hr
        exact ⟨hLong, hAddr, msg, hFits, hSome⟩

theorem AllFaithful.reply (h : ss.AllFaithful) {r : DgRequest} {bs : List UInt8} {sent ok : Bool}
    {dg : SvcDg} (hPending : ss.pending = some r)
    (hReply : ss.dg.svcDgReply bs sent = some (ok, dg)) :
    AllFaithful { ss with dg := dg, log := ss.record r bs sent } := by
  have hSize := SvcDg.suIosz_svcDgReply hReply
  refine ⟨fun r' hr' => hSize ▸ h.1 r' hr', fun e he => ?_⟩
  show e.1.Faithful dg.suIosz
  rw [hSize]
  simp only [record] at he
  split at he
  · rcases List.mem_cons.mp he with rfl | he
    · exact h.1 _ hPending
    · exact h.2 e he
  · exact h.2 e he

/-- The induction is on the history. Only `svc_dg_recv` brings a new request in. -/
theorem Reaches.allFaithful (h : ss.Reaches size SvcDg.Exact) (hPos : 0 < size.toNat)
    (hUint : sparseness * size.toNat < 2 ^ 32) : ss.AllFaithful := by
  induction h with
  | created plain => exact ⟨fun r hNone => (by cases hNone), fun e he => by cases he⟩
  | @enabled ss _ ih =>
      have hSize : (ss.dg.svcDgEnablecache size).2.suIosz = ss.dg.suIosz := by
        unfold SvcDg.svcDgEnablecache
        split <;> rfl
      exact ⟨fun r hNone => (by cases hNone), fun e he => hSize ▸ ih.2 e he⟩
  | recv before may recv ih => exact ih.recv (before.inOrder hPos hUint).sound may recv
  | getargs args _ ih => exact ih
  | reply _ pending _ reply ih => exact ih.reply pending reply
  | broken _ _ ih => exact ih

/-- `svc_dg_recv` answers a retransmission of a request whose reply is one of the last
`size`, and answers nothing that has not the key of one of them. -/
def AtMostOnce (size : Nat) (ss : DgSession) (msg : RpcMsg) (dgram addr : List UInt8) : Prop :=
  ∃ answer dg, ss.dg.svcDgRecv msg dgram addr = some (answer, dg) ∧
    (∀ e ∈ ss.log.take size, e.1.dgram = dgram → e.1.addr = addr →
      ∃ reply, answer = .answered reply addr) ∧
    ∀ reply dest, answer = .answered reply dest →
      ∃ m, (probeHeader msg (dgram.take ss.dg.suIosz)).1 = some m ∧
        ∃ e ∈ ss.log.take size, e.1.key = DgRequest.keyOf m addr ∧ e.2 = reply

/-- A call of `svc_dg_recv`. -/
def receive (msg : RpcMsg) (dgram addr : List UInt8) (ss : DgSession) : DgSession :=
  match ss.dg.svcDgRecv msg dgram addr with
  | some (answer, dg) => { ss with dg := dg, pending := accept dgram addr dg answer }
  | none => ss

/-- The request that is being served is replied to. -/
def respond (bs : List UInt8) (ss : DgSession) : DgSession :=
  match ss.pending, ss.dg.svcDgReply bs true with
  | some r, some (_, dg) => { ss with dg := dg, log := ss.record r bs true }
  | _, _ => ss

variable {allowed : RpcMsg → List UInt8 → List UInt8 → SvcDg → Prop}

theorem Reaches.receive (h : ss.Reaches size allowed) {msg : RpcMsg} {dgram addr : List UInt8}
    (hMay : allowed msg dgram addr ss.dg) :
    (ss.receive msg dgram addr).Reaches size allowed := by
  unfold DgSession.receive
  split
  · next hRecv => exact Reaches.recv h hMay hRecv
  · exact h

theorem Reaches.respond (h : ss.Reaches size allowed) {bs : List UInt8}
    (hFit : bs.length ≤ ss.dg.suIosz) : (ss.respond bs).Reaches size allowed := by
  unfold DgSession.respond
  split
  · next hPending hReply => exact Reaches.reply h hPending hFit hReply
  · exact h

/-- A transport with a buffer of 48 bytes. -/
def callTransport : SvcDg :=
  { smallTransport with bufs := fun _ => List.replicate 48 0, suIosz := 48 }

theorem callTransport_plain : callTransport.Plain := ⟨rfl, by decide, by decide⟩

/-- The transport with a cache of two replies. -/
def callSession : DgSession where
  dg := (callTransport.svcDgEnablecache 2).2
  pending := none
  log := []

theorem callSession_reaches : callSession.Reaches 2 allowed :=
  Reaches.enabled (Reaches.created callTransport_plain)

/-- A call from `[1, 2]` has been replied to. -/
def repliedSession : DgSession := (callSession.receive blankMsg nullCall [1, 2]).respond [9, 9, 9]

/-- One argument of four bytes. -/
def longArg : ArgFilter (BitVec 32) := .getlong fun l => .done l

end DgSession
end OncRpc
