import OncRpc.Rec.Bounds
import OncRpc.Rpc.ReplyMsg
import OncRpc.Svc.Vc

/-! Connections in non-blocking mode, from the longest record that `rpc_control` lets a
service choose to the calls of `__xdrrec_getrec` on a stream that was made under it. -/
namespace OncRpc

open Fallible RecordMarking RecStrm

/-- `RPC_SVC_CONNMAXREC_SET`. -/
def rpcSvcConnmaxrecSet : Int := 0

/-- `RPC_SVC_CONNMAXREC_GET`. -/
def rpcSvcConnmaxrecGet : Int := 1

/-- `rpc_control`: the answer, `*arg` and `__svc_maxrec`. -/
def rpcControl (what : Int) (arg svcMaxrec : BitVec 32) : Bool × BitVec 32 × BitVec 32 :=
  if what = rpcSvcConnmaxrecSet then
    if arg.toInt ≤ 0 then (false, arg, svcMaxrec)
    else (true, arg, arg)
  else if what = rpcSvcConnmaxrecGet then (true, svcMaxrec, svcMaxrec)
  else (false, arg, svcMaxrec)

/-- `struct cf_rendezvous`. -/
structure CfRendezvous where
  sendsize : BitVec 32
  recvsize : BitVec 32
  maxrec : BitVec 32

/-- The connection that `rendezvous_request` makes when nothing fails on the way. The
memory behind `x_id` is what `mem_alloc` left in it. -/
def rendezvousRequest (r : CfRendezvous) (xId : BitVec 32) (host : Host) (tcp : Transport) :
    CfConn :=
  let cd : CfConn :=
    { strmStat := .idle
      xId := xId
      xdrs := xdrrecCreate r.sendsize r.recvsize host tcp
      nonblock := false }
  if r.maxrec ≠ 0 then
    -- `FIONBIO` on the socket.
    let xdrs := { cd.xdrs with tcp := { tcp with nonblock := true } }
    { cd with nonblock := true, xdrs := setNonblock r.maxrec.toInt xdrs }
  else cd

/-- The streams of a connection made under `maxrec`, between two calls of
`__xdrrec_getrec`. What else is done with a stream spares its reader, and what arrives
is up to the peer. The flag tells whether a call has reported a death. -/
inductive Connected (maxrec : BitVec 32) : RecStrm → Bool → Prop
  | accepted {r : CfRendezvous} (hMaxrec : r.maxrec = maxrec) (xId : BitVec 32) (host : Host)
      (tcp : Transport) : Connected maxrec (rendezvousRequest r xId host tcp).xdrs false
  | getrec {s : RecStrm} {dead : Bool} (prior : Connected maxrec s dead) (expectdata : Bool) :
      Connected maxrec (getrec expectdata s).2
        (dead || decide ((getrec expectdata s).1.2 = .died))
  | between {s s' : RecStrm} {dead : Bool} (prior : Connected maxrec s dead)
      (same : SameReader s s') : Connected maxrec s' dead

section Bounds

variable {maxrec : BitVec 32}

/-- What `rpc_control` takes for a maximum. -/
theorem pos_of_rpcControl {svcMaxrec : BitVec 32}
    (h : (rpcControl rpcSvcConnmaxrecSet maxrec svcMaxrec).1 = true) : 0 < maxrec.toInt := by
  unfold rpcControl at h
  rw [if_pos rfl] at h
  split at h
  · cases h
  · omega

theorem bounded_rendezvousRequest {r : CfRendezvous} (hPos : 0 < r.maxrec.toInt) (xId : BitVec 32)
    (host : Host) (tcp : Transport) :
    Bounded host r.maxrec.toInt.toNat false (rendezvousRequest r xId host tcp).xdrs := by
  have hInt := BitVec.toInt_lt (x := r.maxrec)
  have hNe : r.maxrec ≠ 0 := by
    rintro hZero
    rw [hZero] at hPos
    exact absurd hPos (by decide)
  have hMax : ¬ r.maxrec.toInt = 0 := by omega
  unfold rendezvousRequest
  rw [if_pos hNe]
  exact {
    nonblock := rfl
    line := rfl
    haveheader := rfl
    header_length := rfl
    lastFrag := rfl
    base_length := length_malloc host _
    host_eq := rfl
    maxrec_eq := by
      show (if r.maxrec.toInt = 0 then _ else r.maxrec.toInt) = _
      rw [if_neg hMax]
      omega
    maxrec_int := by omega
    hdrlen_le := Nat.zero_le 4
    received_nonneg := le_refl 0
    received_le := le_refl 0
    reclen_le := by
      show (0 : Int) ≤ if r.maxrec.toInt = 0 then _ else r.maxrec.toInt
      rw [if_neg hMax]
      exact hPos.le
    fresh := fun _ => rfl
    room := fun _ => Int.natCast_nonneg _ }

/-- The induction is on the run, and every call carries the bounds on. -/
theorem Connected.bounded (hPos : 0 < maxrec.toInt) {s : RecStrm} {dead : Bool}
    (h : Connected maxrec s dead) : ∃ host, Bounded host maxrec.toInt.toNat dead s := by
  induction h with
  | accepted hMaxrec xId host tcp =>
      subst hMaxrec
      exact ⟨host, bounded_rendezvousRequest hPos xId host tcp⟩
  | getrec prior expectdata ih =>
      obtain ⟨host, hBounded⟩ := ih
      exact ⟨host, hBounded.getrec expectdata⟩
  | between prior same ih =>
      obtain ⟨host, hBounded⟩ := ih
      exact ⟨host, hBounded.sameReader same⟩

/-- Whatever the peer sends and whenever it arrives, the record that is being read stays
within the maximum and, unless a call has reported that there is no memory for it, within
the buffer. No body is ever read but to its place in the buffer, and lengths are added
without overflow. -/
theorem getrec_bounds {svcMaxrec : BitVec 32}
    (hAccept : (rpcControl rpcSvcConnmaxrecSet maxrec svcMaxrec).1 = true)
    {s : RecStrm} {dead : Bool}
    (h : Connected (rpcControl rpcSvcConnmaxrecSet maxrec svcMaxrec).2.2 s dead) :
    s.inMaxrec = maxrec.toInt ∧
    (0 ≤ s.inReceived ∧ s.inReceived ≤ s.inReclen ∧ s.inReclen ≤ s.inMaxrec) ∧
    (dead = false → s.inReclen ≤ s.recvsize) ∧
    s.inBase.length = s.recvsize ∧
    (∀ s₁, s.readsBody = some s₁ →
      (0 ≤ s₁.inReceived ∧ s₁.inReceived ≤ s₁.inReclen ∧ s₁.inReclen ≤ s₁.inBase.length) ∧
      ∀ expectdata, getrec expectdata s = getrecBody expectdata s₁) ∧
    (s.readsBody = none → ∀ expectdata, (getrec expectdata s).2.inBase = s.inBase) ∧
    ∀ s₁, s.completesHeader = some s₁ →
      intAdd s₁.inReclen s₁.fraglen = s₁.inReclen + s₁.fraglen := by
  have hPos := pos_of_rpcControl hAccept
  have hSet : (rpcControl rpcSvcConnmaxrecSet maxrec svcMaxrec).2.2 = maxrec := by
    unfold rpcControl
    rw [if_pos rfl, if_neg (by omega)]
  rw [hSet] at h
  obtain ⟨host, hBounded⟩ := h.bounded hPos
  have hMax : s.inMaxrec = maxrec.toInt := by
    rw [hBounded.maxrec_eq]
    omega
  refine ⟨hMax, ⟨hBounded.received_nonneg, hBounded.received_le, hBounded.reclen_le⟩,
    hBounded.room, hBounded.base_length, fun s₁ hBody => ?_,
    fun hNone => getrec_not_readsBody hBounded.hdrlen_le hNone, fun s₁ hHeader => ?_⟩
  · have hFits := hBounded.bodyFits hBody
    refine ⟨⟨hFits.received_eq.ge, ?_, hFits.fits⟩, getrec_readsBody hBody⟩
    rw [hFits.received_eq]
    exact hFits.reclen_pos.le
  · rcases hBounded.header false with ⟨hNone, -⟩ | ⟨s₂, hSome, hRead⟩
    · rw [hNone] at hHeader
      cases hHeader
    · rw [hSome] at hHeader
      cases hHeader
      rw [hRead.intAdd_eq.1, hRead.reclen_eq, Int.zero_add]

end Bounds

/-- A host that has no memory left. -/
def exhaustedHost : Host := { junk := fun _ => 0, reallocs := fun _ => false }

/-- A call, and behind it the header of a record that the buffer is too short for. -/
def greedyClient : Transport where
  arrivals := [.data (encodeAll nullCallRecord.frags ++ [0x80, 0, 0, 200])]
  written := []
  nonblock := true
  writable := true

/-- Buffers of a hundred bytes for records of up to a thousand. -/
def smallBuffers : CfRendezvous := { sendsize := 100, recvsize := 100, maxrec := 1000 }

/-- The stream of `greedyClient` after one call. -/
def greedyStream : RecStrm :=
  (getrec true (rendezvousRequest smallBuffers 0 exhaustedHost greedyClient).xdrs).2

/-- The first call fits the buffer, whatever follows it. -/
theorem getrec_bounds_greedyStream :
    greedyStream.inMaxrec = 1000 ∧ greedyStream.inReclen ≤ greedyStream.recvsize := by
  have hNew : Connected (rpcControl rpcSvcConnmaxrecSet 1000 0).2.2
      (rendezvousRequest smallBuffers 0 exhaustedHost greedyClient).xdrs false :=
    .accepted (r := smallBuffers) rfl 0 exhaustedHost greedyClient
  have hBounds := getrec_bounds (by decide) (hNew.getrec true)
  exact ⟨hBounds.1, hBounds.2.2.1 (by decide)⟩

/-! ### The events of a service -/

section Events

variable {maxrec : BitVec 32} {dead : Bool}

section Decode

variable {σ : Type} [XdrOps σ] {P : σ → Prop}

theorem ReadsStay.callmsgPlain (h : ReadsStay P) (cmsg : RpcMsg) :
    Stays P (callmsgPlain .decode cmsg) := by
  refine (h.xdrInteger id id _).bind fun _ => (h.xdrInteger id id _).bind fun _ => ?_
  refine (Stays.require _).bind fun _ => (h.xdrInteger id id _).bind fun _ => ?_
  refine (Stays.require _).bind fun _ => (h.xdrInteger id id _).bind fun _ => ?_
  refine (h.xdrInteger id id _).bind fun _ => (h.xdrInteger id id _).bind fun _ => ?_
  exact (h.xdrOpaqueAuth _).bind fun _ => (h.xdrOpaqueAuth _).bind fun _ => Stays.pure _

theorem stays_ixdrGetInt32 (buf : Nat) : Stays P (ixdrGetInt32 .decode buf : Fallible σ _) :=
  (Stays.gets _).bind fun _ => Stays.pure _

variable (hInline : ∀ n, Stays P (XdrOps.inline .decode n : Fallible σ (Option Nat)))
include hInline

theorem ReadsStay.getAuthBody (h : ReadsStay P) (oa : OpaqueAuth) : Stays P (getAuthBody oa) := by
  refine Stays.ite (Stays.pure _) ((Stays.require _).bind fun _ => (hInline _).bind fun buf => ?_)
  cases buf with
  | none => exact (h.xdrOpaque _ _).bind fun _ => Stays.pure _
  | some buf => exact (Stays.gets _).bind fun _ => Stays.pure _

theorem ReadsStay.getVerfHeader (h : ReadsStay P) (oa : OpaqueAuth) :
    Stays P (getVerfHeader oa) := by
  refine (hInline _).bind fun buf => ?_
  cases buf with
  | none =>
      exact (h.xdrInteger id id _).bind fun _ => (h.xdrInteger id id _).bind fun _ => Stays.pure _
  | some buf =>
      exact (stays_ixdrGetInt32 _).bind fun _ => (stays_ixdrGetInt32 _).bind fun _ => Stays.pure _

theorem ReadsStay.xdrCallmsg (h : ReadsStay P) (cmsg : RpcMsg) :
    Stays P (xdrCallmsg .decode cmsg) := by
  refine (hInline _).bind fun buf => ?_
  cases buf with
  | none => exact h.callmsgPlain cmsg
  | some buf =>
      refine (stays_ixdrGetInt32 _).bind fun _ => (stays_ixdrGetInt32 _).bind fun _ => ?_
      refine (Stays.require _).bind fun _ => (stays_ixdrGetInt32 _).bind fun _ => ?_
      refine (Stays.require _).bind fun _ => (stays_ixdrGetInt32 _).bind fun _ => ?_
      refine (stays_ixdrGetInt32 _).bind fun _ => (stays_ixdrGetInt32 _).bind fun _ => ?_
      refine (stays_ixdrGetInt32 _).bind fun _ => (stays_ixdrGetInt32 _).bind fun _ => ?_
      refine (h.getAuthBody hInline _).bind fun _ => (h.getVerfHeader hInline _).bind fun _ => ?_
      exact (h.getAuthBody hInline _).bind fun _ => Stays.pure _

end Decode

theorem sameReader_readOp {s : RecStrm} (hOpen : s.nonblock = true) (op : ReadOp) :
    SameReader s (op.run.run s).2 := by
  have hStay : Stays (SameReader s) op.run := by
    cases op with
    | long => exact (readsStay_sameReader hOpen).getlong.bind fun _ => Stays.pure _
    | bytes n => exact (readsStay_sameReader hOpen).getbytes n
    | inline n =>
        refine (stays_xdrrecInline .decode n).bind fun buf => ?_
        cases buf with
        | none => exact Stays.fail
        | some buf => exact Stays.gets _
  exact hStay s (SameReader.refl s)

/-- The skip in `SVC_RECV` is a call, and the message is decoded around the reader. -/
theorem Connected.svcVcDecode {cd : CfConn} (h : Connected maxrec cd.xdrs dead)
    (hPos : 0 < maxrec.toInt) (msg : RpcMsg) :
    Connected maxrec (svcVcDecode msg cd).2.xdrs
      (dead || decide ((RecStrm.getrec false cd.xdrs).1.2 = .died)) := by
  obtain ⟨host, hBounded⟩ := h.bounded hPos
  have hSkip := (h.getrec false).between (sameReader_xdrrecSkiprecord hBounded.nonblock)
  obtain ⟨host', hBounded'⟩ := hSkip.bounded hPos
  have hStay := (readsStay_sameReader hBounded'.nonblock).xdrCallmsg (stays_xdrrecInline .decode)
    msg _ (SameReader.refl _)
  have hNext := hSkip.between hStay
  unfold OncRpc.svcVcDecode
  rcases hRun : (xdrCallmsg .decode msg).run (xdrrecSkiprecord.run cd.xdrs).2 with ⟨_ | m, s⟩
  · rw [hRun] at hNext
    exact hNext
  · rw [hRun] at hNext
    exact hNext

/-- Every event of a connection leaves its stream in a run of calls. -/
theorem Connected.event {cd : CfConn} (h : Connected maxrec cd.xdrs dead)
    (hPos : 0 < maxrec.toInt) (hMode : cd.nonblock = true) (ev : SvcEvent) :
    ∃ dead', Connected maxrec (ev.run cd).xdrs dead' := by
  obtain ⟨host, hBounded⟩ := h.bounded hPos
  cases ev with
  | getargs op => exact ⟨dead, h.between (sameReader_readOp hBounded.nonblock op)⟩
  | stat =>
      refine ⟨dead, ?_⟩
      show Connected maxrec (svcVcStat cd).2.xdrs dead
      unfold svcVcStat
      split
      · exact h
      · exact h.between (sameReader_xdrrecEof hBounded.nonblock)
  | recv msg =>
      have hCall := h.getrec true
      show ∃ dead', Connected maxrec (svcVcRecv msg cd).2.xdrs dead'
      unfold svcVcRecv
      rw [if_pos hMode]
      rcases hGet : RecStrm.getrec true cd.xdrs with ⟨⟨ok, xstat⟩, s⟩
      rw [hGet] at hCall
      cases ok with
      | false => exact ⟨_, hCall⟩
      | true =>
          let cd' : CfConn := { cd with strmStat := xstat, xdrs := s }
          exact ⟨_, @Connected.svcVcDecode _ _ cd' hCall hPos msg⟩

end Events

/-- The connection after the call of `greedyClient`. -/
def greedyConn : CfConn :=
  (svcVcRecv blankMsg (rendezvousRequest smallBuffers 0 exhaustedHost greedyClient)).2

/-- The stream of a connection that lives on may hold the length of a record that it has
no buffer for: the skip in `SVC_RECV` has reported the death to nobody. -/
theorem not_reclen_le_recvsize :
    (rpcControl rpcSvcConnmaxrecSet 1000 0).1 = true ∧
    (∃ dead, Connected 1000 greedyConn.xdrs dead) ∧ greedyConn.strmStat = .moreReqs ∧
    ¬ greedyConn.xdrs.inReclen ≤ greedyConn.xdrs.recvsize := by
  have hNew : Connected 1000 (rendezvousRequest smallBuffers 0 exhaustedHost greedyClient).xdrs
      false := .accepted (r := smallBuffers) rfl 0 exhaustedHost greedyClient
  refine ⟨by decide, ?_, by decide, by decide⟩
  exact hNew.event (by decide) rfl (.recv blankMsg)

end OncRpc
