import OncRpc.Rpc.Probe
import OncRpc.Svc.CacheRun
import OncRpc.Xdr.Mem

/-! `svc_dg.c`: a transport on which requests come as datagrams, all of them into one
buffer that is also used for the replies. -/
namespace OncRpc

open Fallible Probe

/-- What a call of `svc_dg_recv` comes to. -/
inductive RecvAnswer where
  /-- FALSE, and nothing has been sent. -/
  | refused
  /-- FALSE: the reply has been sent from the cache. -/
  | answered (reply : List UInt8) (addr : List UInt8)
  /-- TRUE. -/
  | accepted (msg : RpcMsg)
  deriving DecidableEq

/-- A filter for arguments: what it takes from its stream, and what it makes of the
answers, a failure included. -/
inductive ArgFilter (α : Type) where
  | done (result : Option α)
  | getlong (k : Option (BitVec 32) → ArgFilter α)
  | getbytes (n : Nat) (k : Option (List UInt8) → ArgFilter α)
  | inline (n : Nat) (k : Option (List UInt8) → ArgFilter α)

namespace ArgFilter

variable {α : Type}

/-- Decode from a stream. A pointer is looked through at once. -/
def run {σ : Type} [XdrOps σ] : ArgFilter α → σ → Option α × σ
  | done result, s => (result, s)
  | getlong k, s =>
      let r := Fallible.run (XdrOps.getlong : Fallible σ (BitVec 32)) s
      (k r.1).run r.2
  | getbytes n k, s =>
      let r := Fallible.run (XdrOps.getbytes n : Fallible σ (List UInt8)) s
      (k r.1).run r.2
  | inline n k, s =>
      let r := Fallible.run (XdrOps.inline .decode n : Fallible σ (Option Nat)) s
      (k (r.1.join.map fun buf => XdrOps.load .decode buf n r.2)).run r.2

/-- Whatever the filter asks for is in `t`, or is more than `t` and the `room` bytes behind
it. -/
def Fits (room : Nat) : ArgFilter α → List UInt8 → Prop
  | done _, _ => True
  | getlong k, t =>
      4 ≤ t.length ∧ (k (some (Word.ofBytes (t.take 4)))).Fits room (t.drop 4) ∨
      t.length + room < 4 ∧ (k none).Fits room t
  | getbytes n k, t | inline n k, t =>
      n ≤ t.length ∧ (k (some (t.take n))).Fits room (t.drop n) ∨
      t.length + room < n ∧ (k none).Fits room t

/-- What the filter makes of the bytes `t`. -/
def value : ArgFilter α → List UInt8 → Option α
  | done result, _ => result
  | getlong k, t =>
      if 4 ≤ t.length then (k (some (Word.ofBytes (t.take 4)))).value (t.drop 4)
      else (k none).value t
  | getbytes n k, t | inline n k, t =>
      if n ≤ t.length then (k (some (t.take n))).value (t.drop n) else (k none).value t

/-- The rest of an aligned block, from the position of its stream. -/
structure Here (s : XdrMem) (t : List UInt8) : Prop where
  aligned : s.aligned = true
  within : s.Within
  rest_eq : s.rest = t

theorem Here.advance {s : XdrMem} {t tail : List UInt8} {n : Nat} (h : Here s (t ++ tail))
    (hn : n ≤ t.length) :
    n ≤ s.handy ∧ Buffer.readAt s.base s.priv n = t.take n ∧
      Here { s with handy := s.handy - n, priv := s.priv + n } (t.drop n ++ tail) := by
  have hLen := XdrMem.length_rest h.within
  have hFit : n ≤ s.handy := by
    rw [h.rest_eq, List.length_append] at hLen
    omega
  have hNext := (XdrMem.before_rest h.within).advance hFit
  refine ⟨hFit, ?_, h.aligned, hNext.within, ?_⟩
  · rw [← XdrMem.take_rest hFit, h.rest_eq, List.take_append_of_le_length hn]
  · rw [hNext.rest_eq, h.rest_eq, List.drop_append_of_le_length hn]

theorem Here.handy_lt {s : XdrMem} {t tail : List UInt8} {n : Nat} (h : Here s (t ++ tail))
    (hn : t.length + tail.length < n) : s.handy < n := by
  have hLen := XdrMem.length_rest h.within
  rw [h.rest_eq, List.length_append] at hLen
  omega

/-- A filter that fits into `t` makes of a stream what it makes of `t`. -/
theorem run_eq_value (args : ArgFilter α) {s : XdrMem} {t tail : List UInt8}
    (h : Here s (t ++ tail)) (hFits : args.Fits tail.length t) :
    (args.run s).1 = args.value t := by
  induction args generalizing s t with
  | done result => rfl
  | getlong k ih =>
      rcases hFits with ⟨hLen, hRest⟩ | ⟨hLong, hRest⟩
      · obtain ⟨hFit, hRead, hNext⟩ := h.advance hLen
        have hRun : Fallible.run (XdrOps.getlong : Fallible XdrMem (BitVec 32)) s =
            (some (Word.ofBytes (t.take 4)),
              { s with handy := s.handy - 4, priv := s.priv + 4 }) := by
          simp only [Fallible.run, XdrOps.getlong, XdrMem.xdrmemGetlong,
            if_neg (Nat.not_lt.mpr hFit), hRead]
        rw [run, hRun, value, if_pos hLen]
        exact ih _ hNext hRest
      · have hRun : Fallible.run (XdrOps.getlong : Fallible XdrMem (BitVec 32)) s = (none, s) := by
          simp only [Fallible.run, XdrOps.getlong, XdrMem.xdrmemGetlong,
            if_pos (h.handy_lt hLong)]
        rw [run, hRun, value, if_neg (by omega)]
        exact ih _ h hRest
  | getbytes n k ih =>
      rcases hFits with ⟨hLen, hRest⟩ | ⟨hLong, hRest⟩
      · obtain ⟨hFit, hRead, hNext⟩ := h.advance hLen
        have hRun : Fallible.run (XdrOps.getbytes n : Fallible XdrMem (List UInt8)) s =
            (some (t.take n), { s with handy := s.handy - n, priv := s.priv + n }) := by
          simp only [Fallible.run, XdrOps.getbytes, XdrMem.xdrmemGetbytes,
            if_neg (Nat.not_lt.mpr hFit), hRead]
        rw [run, hRun, value, if_pos hLen]
        exact ih _ hNext hRest
      · have hRun : Fallible.run (XdrOps.getbytes n : Fallible XdrMem (List UInt8)) s =
            (none, s) := by
          simp only [Fallible.run, XdrOps.getbytes, XdrMem.xdrmemGetbytes,
            if_pos (h.handy_lt hLong)]
        rw [run, hRun, value, if_neg (by omega)]
        exact ih _ h hRest
  | inline n k ih =>
      rcases hFits with ⟨hLen, hRest⟩ | ⟨hLong, hRest⟩
      · obtain ⟨hFit, hRead, hNext⟩ := h.advance hLen
        have hRun : Fallible.run (XdrOps.inline .decode n : Fallible XdrMem (Option Nat)) s =
            (some (some s.priv), { s with handy := s.handy - n, priv := s.priv + n }) := by
          simp only [Fallible.run, XdrOps.inline, h.aligned, if_true, XdrMem.xdrmemInlineAligned,
            ge_iff_le, hFit]
        have hLoad : XdrOps.load .decode s.priv n
            ({ s with handy := s.handy - n, priv := s.priv + n } : XdrMem) = t.take n := hRead
        rw [run, hRun, value, if_pos hLen]
        simp only [Option.join_some, Option.map_some, hLoad]
        exact ih _ hNext hRest
      · have hRun : Fallible.run (XdrOps.inline .decode n : Fallible XdrMem (Option Nat)) s =
            (some none, s) := by
          simp only [Fallible.run, XdrOps.inline, h.aligned, if_true, XdrMem.xdrmemInlineAligned,
            ge_iff_le, Nat.not_le.mpr (h.handy_lt hLong), if_false]
        rw [run, hRun, value, if_neg (by omega)]
        exact ih _ h hRest

end ArgFilter

namespace SvcDg

/-- `su_xdrs`, a stream over the whole of `rpc_buffer`. -/
def suXdrs (dg : SvcDg) : XdrMem where
  base := dg.bufs dg.rpcBuffer
  priv := dg.xPriv
  handy := dg.suIosz - dg.xPriv
  aligned := true

/-- `XDR_SETPOS`. -/
def setpos (pos : Nat) (dg : SvcDg) : SvcDg := { dg with xPriv := pos }

/-- The sender's address goes into `xp_rtaddr`, which is replaced only when it is too
small. -/
def setRtaddr (addr : List UInt8) (dg : SvcDg) : SvcDg :=
  let buf := if dg.xpRtaddr.length < addr.length then List.replicate addr.length 0
    else dg.xpRtaddr
  { dg with xpRtaddr := Buffer.writeAt buf 0 addr }

/-- The end of `svc_dg_recv`: a cached reply is sent again. -/
def svcDgLookup (msg : RpcMsg) (addr : List UInt8) (dg : SvcDg) : Option (RecvAnswer × SvcDg) :=
  match dg.suCache with
  | none => some (.accepted msg, dg)
  | some uc =>
      match dg.cacheGet msg uc with
      | none => none
      | some (some (reply, replylen), dg) =>
          some (.answered ((dg.bufs reply).take replylen) addr, dg)
      | some (none, dg) => some (.accepted msg, dg)

/-- `svc_dg_recv`, when `recvfrom` has a datagram. -/
def svcDgRecv (msg : RpcMsg) (dgram addr : List UInt8) (dg : SvcDg) :
    Option (RecvAnswer × SvcDg) :=
  let rlen := min dgram.length dg.suIosz
  let dg := dg.fill (dgram.take dg.suIosz)
  if rlen < 4 * 4 then some (.refused, dg)
  else
    let dg := (dg.setRtaddr addr).setpos 0
    match (xdrCallmsg .decode msg).run dg.suXdrs with
    | (none, xdrs) => some (.refused, dg.setpos xdrs.priv)
    | (some msg, xdrs) =>
        svcDgLookup msg addr { dg with xPriv := xdrs.priv, suXid := msg.rmXid }

/-- `svc_dg_getargs`. -/
def svcDgGetargs {α : Type} (args : ArgFilter α) (dg : SvcDg) : Option α × SvcDg :=
  ((args.run dg.suXdrs).1, dg.setpos (args.run dg.suXdrs).2.priv)

/-- `svc_dg_reply`, when `xdr_replymsg` has put `bs`. -/
def svcDgReply (bs : List UInt8) (sent : Bool) (dg : SvcDg) : Option (Bool × SvcDg) :=
  let dg := (dg.fill bs).setpos bs.length
  if sent then
    match dg.suCache with
    | none => some (true, dg)
    | some uc => (dg.cacheSet bs.length uc).map fun r => (true, r.2)
  else some (false, dg)

end SvcDg

/-- The header of a datagram, decoded from its own bytes. -/
def probeHeader (msg : RpcMsg) (dgram : List UInt8) : Option RpcMsg × Probe :=
  (xdrCallmsg .decode msg).run (Probe.mk dgram false)

/-- Decoding the header asks for no more than the datagram. -/
def HeaderFits (msg : RpcMsg) (dgram : List UInt8) : Prop :=
  (probeHeader msg dgram).2.short = false

instance (msg : RpcMsg) (dgram : List UInt8) : Decidable (HeaderFits msg dgram) :=
  inferInstanceAs (Decidable (_ = _))

/-- A header that fits is decoded from a block that begins with it as from its own bytes. -/
theorem run_xdrCallmsg_header {msg : RpcMsg} {b tail : List UInt8} {s : XdrMem}
    (h : HeaderFits msg b) (hs : s.Within) (hRest : s.rest = b ++ tail) :
    ((xdrCallmsg .decode msg).run s).1 = (probeHeader msg b).1 ∧
    ((probeHeader msg b).1.isSome →
      XdrMem.Before s.base (s.priv + s.handy) ((xdrCallmsg .decode msg).run s).2
        ((probeHeader msg b).2.left ++ tail)) := by
  have hBefore : XdrMem.Before s.base (s.priv + s.handy) s (b ++ tail) :=
    hRest ▸ XdrMem.before_rest hs
  obtain ⟨hAns, hKeep⟩ := decodes_xdrCallmsg XdrMem.lawful msg s _ hBefore
  obtain ⟨hSame, hLeft⟩ := (@follows_xdrCallmsg tail msg b).2 h
  refine ⟨hAns.trans hSame, fun hSome => ?_⟩
  rw [probeHeader, ← hLeft hSome]
  apply hKeep
  rw [hSame]
  exact hSome

/-- The words of a header do not depend on what the message held before. -/
theorem probeHeader_words (msg msg' : RpcMsg) (b : List UInt8) :
    (probeHeader msg b).1.map RpcMsg.words = (probeHeader msg' b).1.map RpcMsg.words ∧
    (probeHeader msg b).2 = (probeHeader msg' b).2 :=
  alike_callmsgPlain msg msg' (Probe.mk b false)

namespace SvcDg

variable {dg : SvcDg}

/-- What is in the buffer behind a datagram that has come in. -/
theorem bufs_fill (dg : SvcDg) (b : List UInt8) :
    (dg.fill b).bufs (dg.fill b).rpcBuffer = b ++ (dg.bufs dg.rpcBuffer).drop b.length := by
  show Function.update dg.bufs dg.rpcBuffer _ dg.rpcBuffer = _
  rw [Function.update_self]
  simp

/-- An address that is no shorter than the one before replaces it. -/
theorem xpRtaddr_setRtaddr {addr : List UInt8} (h : dg.xpRtaddr.length ≤ addr.length) :
    (dg.setRtaddr addr).xpRtaddr = addr := by
  have hLen : ∀ buf : List UInt8, buf.length = addr.length → Buffer.writeAt buf 0 addr = addr := by
    intro buf hBuf
    simp [Buffer.writeAt, ← hBuf]
  unfold setRtaddr
  by_cases hLt : dg.xpRtaddr.length < addr.length
  · simp only [if_pos hLt]
    exact hLen _ List.length_replicate
  · simp only [if_neg hLt]
    exact hLen _ (by omega)

/-- The transport behind a header of `len` bytes that it has decoded. -/
def received (b addr : List UInt8) (xid : BitVec 32) (len : Nat) (dg : SvcDg) : SvcDg :=
  { (dg.fill b).setRtaddr addr with xPriv := len, suXid := xid }

/-- The header of a datagram decides what becomes of it. -/
theorem svcDgRecv_header {msg : RpcMsg} {dgram : List UInt8} (addr : List UInt8)
    (hFull : (dg.bufs dg.rpcBuffer).length = dg.suIosz)
    (hLong : 4 * 4 ≤ min dgram.length dg.suIosz)
    (hFits : HeaderFits msg (dgram.take dg.suIosz)) :
    ((probeHeader msg (dgram.take dg.suIosz)).1 = none ∧ ∃ pos, dg.svcDgRecv msg dgram addr =
      some (.refused, ((dg.fill (dgram.take dg.suIosz)).setRtaddr addr).setpos pos)) ∨
    ∃ m len, (probeHeader msg (dgram.take dg.suIosz)).1 = some m ∧
      (dgram.take dg.suIosz).drop len = (probeHeader msg (dgram.take dg.suIosz)).2.left ∧
      len ≤ (dgram.take dg.suIosz).length ∧
      dg.svcDgRecv msg dgram addr =
        svcDgLookup m addr (dg.received (dgram.take dg.suIosz) addr m.rmXid len) := by
  have hTake : (dgram.take dg.suIosz).length ≤ dg.suIosz := List.length_take_le _ _
  have hRecv : dg.svcDgRecv msg dgram addr =
      match (xdrCallmsg .decode msg).run
        (((dg.fill (dgram.take dg.suIosz)).setRtaddr addr).setpos 0).suXdrs with
      | (none, xdrs) =>
          some (.refused, ((dg.fill (dgram.take dg.suIosz)).setRtaddr addr).setpos xdrs.priv)
      | (some m, xdrs) =>
          svcDgLookup m addr (dg.received (dgram.take dg.suIosz) addr m.rmXid xdrs.priv) := by
    simp only [svcDgRecv, if_neg (Nat.not_lt.mpr hLong)]
    rfl
  generalize dgram.take dg.suIosz = b at hFits hTake hRecv ⊢
  have hBase : ((((dg.fill b).setRtaddr addr).setpos 0).suXdrs).base =
      b ++ (dg.bufs dg.rpcBuffer).drop b.length := bufs_fill dg b
  have hLen : (b ++ (dg.bufs dg.rpcBuffer).drop b.length).length = dg.suIosz := by
    rw [List.length_append, List.length_drop]
    omega
  have hWithin : (((dg.fill b).setRtaddr addr).setpos 0).suXdrs.Within := by
    show 0 + (dg.suIosz - 0) ≤ _
    rw [hBase, hLen]
    omega
  have hRest : (((dg.fill b).setRtaddr addr).setpos 0).suXdrs.rest =
      b ++ (dg.bufs dg.rpcBuffer).drop b.length := by
    show Buffer.readAt _ 0 (dg.suIosz - 0) = _
    rw [hBase, Buffer.readAt, List.drop_zero, Nat.sub_zero, ← hLen, List.take_length]
  obtain ⟨hAns, hKeep⟩ := run_xdrCallmsg_header hFits hWithin hRest
  rcases hRun : (xdrCallmsg .decode msg).run (((dg.fill b).setRtaddr addr).setpos 0).suXdrs with
    ⟨_ | m, xdrs⟩
  · rw [hRun] at hAns hRecv
    exact Or.inl ⟨hAns.symm, xdrs.priv, hRecv⟩
  · rw [hRun] at hAns hKeep hRecv
    have hAfter := hKeep (by rw [← hAns]; rfl)
    have hStop := hAfter.priv_add_length
    have hEnd := hAfter.rest_eq
    have hAll : xdrs.rest = (b ++ (dg.bufs dg.rpcBuffer).drop b.length).drop xdrs.priv := by
      have hHandy : xdrs.priv + xdrs.handy = 0 + dg.suIosz := hAfter.stop_eq
      have hSame := hAfter.base_eq
      rw [hBase] at hSame
      rw [XdrMem.rest, hSame, Buffer.readAt, List.take_of_length_le]
      rw [List.length_drop, hLen]
      omega
    have hLe : xdrs.priv ≤ b.length := by
      have hTotal : xdrs.priv + ((probeHeader msg b).2.left ++
          (dg.bufs dg.rpcBuffer).drop b.length).length = dg.suIosz := hStop.trans (Nat.zero_add _)
      rw [List.length_append, List.length_drop] at hTotal
      rw [List.length_append, List.length_drop] at hLen
      omega
    rw [hAll, List.drop_append_of_le_length hLe] at hEnd
    exact Or.inr ⟨m, xdrs.priv, hAns.symm, List.append_cancel_right hEnd, hLe, hRecv⟩

/-! ### Two transports that differ in their buffers -/

/-- A transport whose buffer has its size and whose cache is in order. -/
structure Sound (dg : SvcDg) : Prop where
  full : (dg.bufs dg.rpcBuffer).length = dg.suIosz
  cached : ∀ uc, dg.suCache = some uc → ∃ order log, dg.Caching uc order log

/-- The transport with other bytes in its buffer. -/
def withJunk (junk : List UInt8) (dg : SvcDg) : SvcDg :=
  { dg with bufs := Function.update dg.bufs dg.rpcBuffer junk }

/-- A request in full: its answer, and its arguments when it is accepted. -/
def serve {α : Type} (msg : RpcMsg) (args : ArgFilter α) (dgram addr : List UInt8)
    (dg : SvcDg) : Option (RecvAnswer × Option α) :=
  (dg.svcDgRecv msg dgram addr).map fun r =>
    match r.1 with
    | .accepted m => (.accepted m, (r.2.svcDgGetargs args).1)
    | answer => (answer, none)

/-- Nothing in the `room` bytes behind the datagram is asked for, neither for the header nor
for the arguments. -/
def RequestFits {α : Type} (room : Nat) (msg : RpcMsg) (args : ArgFilter α)
    (dgram : List UInt8) : Prop :=
  HeaderFits msg dgram ∧
    ((probeHeader msg dgram).1.isSome → args.Fits room (probeHeader msg dgram).2.left)

theorem length_withJunk {junk : List UInt8} (h : junk.length = dg.suIosz) :
    ((dg.withJunk junk).bufs (dg.withJunk junk).rpcBuffer).length = (dg.withJunk junk).suIosz := by
  show (Function.update dg.bufs dg.rpcBuffer junk dg.rpcBuffer).length = dg.suIosz
  rw [Function.update_self, h]

/-- Looking a request up does not read the buffers. -/
theorem cacheGet_bufs (dg : SvcDg) (msg : RpcMsg) (uc : ClCache) (bufs : Nat → List UInt8) :
    ({ dg with bufs := bufs } : SvcDg).cacheGet msg uc =
      (dg.cacheGet msg uc).map fun r => (r.1, { r.2 with bufs := bufs }) := by
  have hSame : ({ dg with bufs := bufs } : SvcDg).matchesEntry msg = dg.matchesEntry msg := rfl
  simp only [cacheGet, hSame]
  split <;> simp_all

theorem received_withJunk (junk b addr : List UInt8) (xid : BitVec 32) (len : Nat) :
    (dg.withJunk junk).received b addr xid len =
      (dg.received b addr xid len).withJunk (Buffer.writeAt junk 0 b) := by
  have hBufs : Function.update (Function.update dg.bufs dg.rpcBuffer junk) dg.rpcBuffer
      (Buffer.writeAt junk 0 b) =
        Function.update (Function.update dg.bufs dg.rpcBuffer
          (Buffer.writeAt (dg.bufs dg.rpcBuffer) 0 b)) dg.rpcBuffer (Buffer.writeAt junk 0 b) := by
    rw [Function.update_idem, Function.update_idem]
  unfold received withJunk setRtaddr fill
  dsimp only
  rw [Function.update_self, hBufs]

/-- The reply that is sent again does not depend on the buffer of the transport. -/
theorem svcDgLookup_withJunk {uc : ClCache} {order : List Nat} {log : List CacheEntry}
    (h : dg.Caching uc order log) (msg : RpcMsg) (addr junk : List UInt8) :
    (svcDgLookup msg addr (dg.withJunk junk)) =
      (svcDgLookup msg addr dg).map fun r => (r.1, r.2.withJunk junk) := by
  have hCache : (dg.withJunk junk).suCache = some uc := h.cache_eq
  have hGetJunk := cacheGet_bufs dg msg uc (Function.update dg.bufs dg.rpcBuffer junk)
  simp only [svcDgLookup, h.cache_eq, hCache]
  rw [show (dg.withJunk junk).cacheGet msg uc = _ from hGetJunk]
  rcases h.cacheGet msg with ⟨v, hv, -, hGet⟩ | ⟨-, hGet⟩
  · have hApart := h.rpcBuffer_ne hv
    rw [hGet]
    simp [withJunk, Function.update_of_ne hApart]
  · rw [hGet]
    rfl

/-- The arguments behind a header that has been decoded are decoded as from the datagram
alone. -/
theorem svcDgGetargs_received {α : Type} {args : ArgFilter α} {b left : List UInt8}
    (addr : List UInt8) (xid : BitVec 32) {len : Nat}
    (hFull : (dg.bufs dg.rpcBuffer).length = dg.suIosz)
    (hShort : b.length ≤ dg.suIosz) (hLe : len ≤ b.length) (hLeft : b.drop len = left)
    (hFits : args.Fits (dg.suIosz - b.length) left) :
    ((dg.received b addr xid len).svcDgGetargs args).1 = args.value left := by
  have hBase : (dg.received b addr xid len).suXdrs.base =
      b ++ (dg.bufs dg.rpcBuffer).drop b.length := bufs_fill dg b
  have hLen : (b ++ (dg.bufs dg.rpcBuffer).drop b.length).length = dg.suIosz := by
    rw [List.length_append, List.length_drop]
    omega
  rw [← hFull, ← List.length_drop] at hFits
  refine ArgFilter.run_eq_value args ⟨rfl, ?_, ?_⟩ hFits
  · show len + (dg.suIosz - len) ≤ _
    rw [hBase, hLen]
    omega
  · show Buffer.readAt _ len (dg.suIosz - len) = _
    rw [hBase, Buffer.readAt, List.take_of_length_le, List.drop_append_of_le_length hLe, hLeft]
    rw [List.length_drop, hLen]

theorem cacheGet_same {msg : RpcMsg} {uc : ClCache} {found : Option (Nat × Nat)} {dg' : SvcDg}
    (h : dg.cacheGet msg uc = some (found, dg')) :
    ∃ cache, dg' = { dg with suCache := cache } := by
  unfold cacheGet at h
  dsimp only at h
  split at h
  · cases h
  · cases h
    exact ⟨_, rfl⟩
  · cases h
    exact ⟨_, rfl⟩

/-- A lookup leaves the transport as it is, but for the cache. -/
theorem svcDgLookup_same {msg : RpcMsg} {addr : List UInt8} {answer : RecvAnswer} {dg' : SvcDg}
    (h : svcDgLookup msg addr dg = some (answer, dg')) :
    (∃ cache, dg' = { dg with suCache := cache }) ∧ ∀ m, answer = .accepted m → m = msg := by
  unfold svcDgLookup at h
  split at h
  · cases h
    exact ⟨⟨_, rfl⟩, fun m hm => (RecvAnswer.accepted.inj hm).symm⟩
  · split at h
    · cases h
    · next hGet =>
        cases h
        exact ⟨cacheGet_same hGet, fun m hm => by cases hm⟩
    · next hGet =>
        cases h
        exact ⟨cacheGet_same hGet, fun m hm => (RecvAnswer.accepted.inj hm).symm⟩

/-- What a request comes to is said by its header, by the lookup and by the bytes behind the
header. -/
theorem serve_header {α : Type} {msg : RpcMsg} {args : ArgFilter α} {dgram : List UInt8}
    (addr : List UInt8)
    (hFull : (dg.bufs dg.rpcBuffer).length = dg.suIosz)
    (hLong : 4 * 4 ≤ min dgram.length dg.suIosz)
    (hFits : RequestFits (dg.suIosz - dgram.length) msg args (dgram.take dg.suIosz)) :
    ((probeHeader msg (dgram.take dg.suIosz)).1 = none ∧
      dg.serve msg args dgram addr = some (.refused, none)) ∨
    ∃ m len, (probeHeader msg (dgram.take dg.suIosz)).1 = some m ∧
      (dgram.take dg.suIosz).drop len = (probeHeader msg (dgram.take dg.suIosz)).2.left ∧
      len ≤ (dgram.take dg.suIosz).length ∧
      dg.serve msg args dgram addr =
        (svcDgLookup m addr (dg.received (dgram.take dg.suIosz) addr m.rmXid len)).map fun r =>
          match r.1 with
          | .accepted m =>
              (.accepted m, args.value (probeHeader msg (dgram.take dg.suIosz)).2.left)
          | answer => (answer, none) := by
  have hShort : (dgram.take dg.suIosz).length ≤ dg.suIosz := List.length_take_le _ _
  rcases svcDgRecv_header addr hFull hLong hFits.1 with
    ⟨hNone, pos, hRecv⟩ | ⟨m, len, hSome, hLeft, hLe, hRecv⟩
  · refine Or.inl ⟨hNone, ?_⟩
    rw [serve, hRecv]
    rfl
  · refine Or.inr ⟨m, len, hSome, hLeft, hLe, ?_⟩
    have hArgs := hFits.2 (by rw [hSome]; rfl)
    have hRoom : dg.suIosz - dgram.length = dg.suIosz - (dgram.take dg.suIosz).length := by
      rw [List.length_take]
      omega
    rw [hRoom] at hArgs
    have hValue := svcDgGetargs_received addr m.rmXid hFull hShort hLe hLeft hArgs
    rw [serve, hRecv]
    rcases hLookup : svcDgLookup m addr (dg.received (dgram.take dg.suIosz) addr m.rmXid len) with
      _ | ⟨answer, dg'⟩
    · rfl
    · cases answer with
      | refused => rfl
      | answered reply addr' => rfl
      | accepted m' =>
          have hSame : (dg'.svcDgGetargs args).1 =
              args.value (probeHeader msg (dgram.take dg.suIosz)).2.left := by
            obtain ⟨⟨cache, hSame⟩, -⟩ := svcDgLookup_same hLookup
            rw [← hValue, hSame]
            rfl
          simp only [Option.map_some, hSame]

/-- A request in the buffer leaves the cache in order. -/
theorem Caching.received {uc : ClCache} {order : List Nat} {log : List CacheEntry}
    (h : dg.Caching uc order log) {b : List UInt8} (hFit : b.length ≤ dg.suIosz)
    (addr : List UInt8) (xid : BitVec 32) (len : Nat) :
    (dg.received b addr xid len).Caching uc order log :=
  { (h.fill hFit).request xid ((dg.fill b).setRtaddr addr).xpRtaddr with }

/-- A header and arguments that stay inside their datagram are decoded alike whatever the
buffer held. -/
theorem serve_withJunk_of_fits {α : Type} {msg : RpcMsg} {args : ArgFilter α}
    {dgram junk : List UInt8} (addr : List UInt8) (h : dg.Sound)
    (hJunk : junk.length = dg.suIosz) (hLong : 4 * 4 ≤ min dgram.length dg.suIosz)
    (hFits : RequestFits (dg.suIosz - dgram.length) msg args (dgram.take dg.suIosz)) :
    (dg.withJunk junk).serve msg args dgram addr = dg.serve msg args dgram addr := by
  have hShort : (dgram.take dg.suIosz).length ≤ dg.suIosz := List.length_take_le _ _
  have hSize : (dg.withJunk junk).suIosz = dg.suIosz := rfl
  have hHere := serve_header addr h.full hLong hFits
  have hThere : _ ∨ _ := serve_header addr (length_withJunk hJunk) hLong hFits
  rw [hSize] at hThere
  rcases hHere with ⟨hNone, hServe⟩ | ⟨m, len, hSome, hLeft, hLe, hServe⟩
  · rcases hThere with ⟨-, hServe'⟩ | ⟨m', -, hSome', -⟩
    · rw [hServe, hServe']
    · rw [hNone] at hSome'
      cases hSome'
  · rcases hThere with ⟨hNone', -⟩ | ⟨m', len', hSome', hLeft', hLe', hServe'⟩
    · rw [hSome] at hNone'
      cases hNone'
    · obtain rfl : m = m' := Option.some.inj (hSome.symm.trans hSome')
      obtain rfl : len = len' := by
        have hLen := congrArg List.length (hLeft.trans hLeft'.symm)
        rw [List.length_drop, List.length_drop] at hLen
        omega
      rw [hServe, hServe', received_withJunk]
      cases hCache : dg.suCache with
      | none =>
          have hPlain : (dg.received (dgram.take dg.suIosz) addr m.rmXid len).suCache = none :=
            hCache
          simp only [svcDgLookup, withJunk, hPlain, Option.map_some]
      | some uc =>
          obtain ⟨order, log, hCaching⟩ := h.cached uc hCache
          rw [svcDgLookup_withJunk (hCaching.received hShort addr m.rmXid len), Option.map_map]
          rfl

/-- A datagram that fills the buffer leaves nothing of what it held. -/
theorem fill_withJunk {junk b : List UInt8} (hFull : (dg.bufs dg.rpcBuffer).length = dg.suIosz)
    (hJunk : junk.length = dg.suIosz) (hb : b.length = dg.suIosz) :
    (dg.withJunk junk).fill b = dg.fill b := by
  have hAll : ∀ buf : List UInt8, buf.length = dg.suIosz → Buffer.writeAt buf 0 b = b := by
    intro buf hBuf
    simp [Buffer.writeAt, hBuf, hb]
  unfold fill withJunk
  dsimp only
  rw [Function.update_self, Function.update_idem, hAll _ hJunk, hAll _ hFull]

/-- A request that stays inside its datagram is served alike whatever the buffer held, and
so is one that fills the buffer. -/
theorem serve_withJunk {α : Type} {msg : RpcMsg} {args : ArgFilter α} {dgram : List UInt8}
    (addr : List UInt8) {junk : List UInt8} (h : dg.Sound) (hJunk : junk.length = dg.suIosz)
    (hFits : 4 * 4 ≤ dgram.length → dgram.length < dg.suIosz →
      RequestFits (dg.suIosz - dgram.length) msg args dgram) :
    (dg.withJunk junk).serve msg args dgram addr = dg.serve msg args dgram addr := by
  rcases Nat.lt_or_ge dgram.length dg.suIosz with hLess | hMore
  · by_cases hLong : 4 * 4 ≤ dgram.length
    · apply serve_withJunk_of_fits addr h hJunk (by omega)
      rw [List.take_of_length_le hLess.le]
      exact hFits hLong hLess
    · have hRefused : ∀ dg' : SvcDg, dg'.suIosz = dg.suIosz →
          dg'.serve msg args dgram addr = some (.refused, none) := by
        intro dg' hSize
        have hLt : min dgram.length dg'.suIosz < 4 * 4 := by omega
        simp only [serve, svcDgRecv, if_pos hLt, Option.map_some]
      rw [hRefused dg rfl, hRefused (dg.withJunk junk) rfl]
  · have hFill : (dg.withJunk junk).fill (dgram.take dg.suIosz) = dg.fill (dgram.take dg.suIosz) := by
      apply fill_withJunk h.full hJunk
      rw [List.length_take, Nat.min_eq_left hMore]
    have hSize : (dg.withJunk junk).suIosz = dg.suIosz := rfl
    simp only [serve, svcDgRecv, hSize, hFill]

end SvcDg
end OncRpc
