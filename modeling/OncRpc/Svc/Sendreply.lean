import OncRpc.Rec.Sink
import OncRpc.Rpc.Address
import OncRpc.Rpc.ReplyMsg
import OncRpc.Svc.DgRun
import OncRpc.Svc.Vc

/-! `svc.c`: the replies of a server, over a connection or in a datagram. -/
namespace OncRpc

open XdrOps Fallible RecordMarking RecStrm

/-- A socket for datagrams: what `sendto` has sent over it, and to whom, and whether it can
send. -/
structure DgLine where
  sent : List (List UInt8 × List UInt8)
  writable : Bool

/-- The private part of a transport. -/
inductive XprtData where
  /-- A connection, with `xp_rtaddr`. -/
  | vc (xpRtaddr : List UInt8) (cd : CfConn)
  | dg (su : SvcDg) (line : DgLine)

/-- `SVCXPRT`. -/
structure SvcXprt where
  xpNetid : CString
  /-- `__rpc_fd2sockinfo (xp_fd)`. -/
  sockinfo : Option SockInfo
  data : XprtData

/-- `svc_vc_reply`. The record is ended whether the message could be encoded or not. -/
def svcVcReply (results : XdrFilter Unit) (msg : ReplyMsg) (cd : CfConn) : Bool × CfConn :=
  let encoded := (xdrReplymsg (fun _ => results RecStrm) .encode { msg with rmXid := cd.xId }).run
    cd.xdrs
  let ended := (xdrrecEndofrecord true).run encoded.2
  -- `write_vc` gives up the connection when it fails.
  (encoded.1.isSome,
    { cd with xdrs := ended.2, strmStat := if ended.1.isSome then cd.strmStat else .died })

/-- `svc_dg_reply`. -/
def svcDgSend (results : XdrFilter Unit) (msg : ReplyMsg) (su : SvcDg) (line : DgLine) :
    Option (Bool × SvcDg × DgLine) :=
  let encoded := (xdrReplymsg (fun _ => results XdrMem) .encode { msg with rmXid := su.suXid }).run
    (su.setpos 0).suXdrs
  let su := { su with
    bufs := Function.update su.bufs su.rpcBuffer encoded.2.base
    xPriv := encoded.2.priv }
  match encoded.1 with
  | none => some (false, su, line)
  | some _ =>
      let bs := encoded.2.base.take encoded.2.priv
      (su.svcDgReply bs line.writable).map fun r =>
        (r.1, r.2, if r.1 then { line with sent := line.sent ++ [(bs, su.xpRtaddr)] } else line)

namespace SvcXprt

/-- `xp_rtaddr`. -/
def xpRtaddr (xprt : SvcXprt) : List UInt8 :=
  match xprt.data with
  | .vc rtaddr _ => rtaddr
  | .dg su _ => su.xpRtaddr

/-- `svc_getrpccaller`. -/
def svcGetrpccaller (xprt : SvcXprt) : Netbuf :=
  { maxlen := match xprt.data with
      | .vc _ _ => 0
      | .dg _ _ => 128
    len := BitVec.ofNat 32 xprt.xpRtaddr.length
    buf := some xprt.xpRtaddr }

/-- The xid that a reply is given. -/
def xid (xprt : SvcXprt) : BitVec 32 :=
  match xprt.data with
  | .vc _ cd => cd.xId
  | .dg su _ => su.suXid

/-- `SVC_GETARGS`. -/
def svcGetargs {α : Type} (xdrArgs : XdrFilter α) (xprt : SvcXprt) : Option α × SvcXprt :=
  match xprt.data with
  | .vc rtaddr cd =>
      let decoded := (xdrArgs RecStrm).run cd.xdrs
      (decoded.1, { xprt with data := .vc rtaddr { cd with xdrs := decoded.2 } })
  | .dg su line =>
      let decoded := (xdrArgs XdrMem).run su.suXdrs
      (decoded.1, { xprt with data := .dg (su.setpos decoded.2.priv) line })

/-- `SVC_REPLY`. -/
def svcReply (results : XdrFilter Unit) (msg : ReplyMsg) (xprt : SvcXprt) :
    Option (Bool × SvcXprt) :=
  match xprt.data with
  | .vc rtaddr cd =>
      let r := svcVcReply results msg cd
      some (r.1, { xprt with data := .vc rtaddr r.2 })
  | .dg su line =>
      (svcDgSend results msg su line).map fun r => (r.1, { xprt with data := .dg r.2.1 r.2.2 })

/-- An accepted call, as `svc.c` answers it. Authentication has left `xp_verf` empty. -/
def accepted (stat : BitVec 32) (vers : Versions) : ReplyMsg where
  rmXid := 0
  rmDirection := reply
  rpStat := msgAccepted
  acptedRply := { arVerf := nullAuth, arStat := stat, arVers := vers }
  rjctedRply := { rjStat := 0, rjVers := { low := 0, high := 0 }, rjWhy := 0 }

/-- A call that is denied. -/
def denied (why : BitVec 32) : ReplyMsg where
  rmXid := 0
  rmDirection := reply
  rpStat := msgDenied
  acptedRply := { arVerf := nullAuth, arStat := 0, arVers := { low := 0, high := 0 } }
  rjctedRply := { rjStat := authError, rjVers := { low := 0, high := 0 }, rjWhy := why }

/-- `svc_sendreply`. -/
def svcSendreply (results : XdrFilter Unit) : SvcXprt → Option (Bool × SvcXprt) :=
  svcReply results (accepted success { low := 0, high := 0 })

/-- A reply that carries no results. -/
def svcerr (msg : ReplyMsg) (xprt : SvcXprt) : Option SvcXprt :=
  (svcReply (fun _ => pure ()) msg xprt).map Prod.snd

/-- `svcerr_noproc`. -/
def svcerrNoproc : SvcXprt → Option SvcXprt :=
  svcerr (accepted procUnavail { low := 0, high := 0 })

/-- `svcerr_decode`. -/
def svcerrDecode : SvcXprt → Option SvcXprt :=
  svcerr (accepted garbageArgs { low := 0, high := 0 })

/-- `svcerr_systemerr`. -/
def svcerrSystemerr : SvcXprt → Option SvcXprt :=
  svcerr (accepted systemErr { low := 0, high := 0 })

/-- `svcerr_noprog`. -/
def svcerrNoprog : SvcXprt → Option SvcXprt :=
  svcerr (accepted progUnavail { low := 0, high := 0 })

/-- `svcerr_progvers`. -/
def svcerrProgvers (lowVers highVers : BitVec 32) : SvcXprt → Option SvcXprt :=
  svcerr (accepted progMismatch { low := lowVers, high := highVers })

/-- `AUTH_TOOWEAK`. -/
def authTooweak : BitVec 32 := 5

/-- `svcerr_weakauth`. -/
def svcerrWeakauth : SvcXprt → Option SvcXprt := svcerr (denied authTooweak)

end SvcXprt

/-! ### What is sent -/

/-- The bytes are the whole of a reply with this xid. -/
def IsReply (xid : BitVec 32) (bs : List UInt8) : Prop :=
  ∃ (results : Fallible ByteStream Unit) (msg msg' : ReplyMsg), msg.rmXid = xid ∧
    (xdrReplymsg (fun _ => results) .encode msg).run [] = (some msg', bs)

/-- Everything that has been sent over a transport. -/
inductive XprtOutput where
  | stream (written : List UInt8)
  | datagrams (sent : List (List UInt8 × List UInt8))

namespace SvcXprt

def output (xprt : SvcXprt) : XprtOutput :=
  match xprt.data with
  | .vc _ cd => .stream cd.xdrs.tcp.written
  | .dg _ line => .datagrams line.sent

/-- `bs` and nothing else is sent: as one record, or as one datagram. -/
def Sends (bs : List UInt8) (xprt xprt' : SvcXprt) : Prop :=
  match xprt.output with
  | .stream written =>
      ∃ r : Record, r.body = bs ∧ xprt'.output = .stream (written ++ encodeAll r.frags)
  | .datagrams sent => xprt'.output = .datagrams (sent ++ [(bs, xprt.xpRtaddr)])

/-- The transport can send. A connection is between two records, and its buffer is one that
an `int` can count. -/
def Ready (xprt : SvcXprt) : Prop :=
  match xprt.data with
  | .vc _ cd =>
      (∃ fs, Writing fs [] cd.xdrs) ∧ cd.xdrs.fragHeader = 0 ∧ cd.xdrs.outBoundry < 2 ^ 31
  | .dg su line => su.Sound ∧ line.writable = true

/-- Whether `n` bytes can be sent at once. -/
def Room (n : Nat) (xprt : SvcXprt) : Prop :=
  match xprt.data with
  | .vc _ _ => True
  | .dg su _ => n ≤ su.suIosz

instance (n : Nat) (xprt : SvcXprt) : Decidable (xprt.Room n) :=
  match h : xprt.data with
  | .vc _ _ => isTrue (by rw [Room, h]; trivial)
  | .dg su _ => decidable_of_iff (n ≤ su.suIosz) (by rw [Room, h])

theorem Room.mono {m n : Nat} {xprt : SvcXprt} (h : xprt.Room n) (hLe : m ≤ n) : xprt.Room m := by
  unfold Room at *
  split
  · trivial
  · next su line hData =>
      rw [hData] at h
      exact hLe.trans h

/-- Nothing has been sent, and the next reply goes where it would have gone. -/
structure Still (xprt xprt' : SvcXprt) : Prop where
  netid_eq : xprt'.xpNetid = xprt.xpNetid
  xid_eq : xprt'.xid = xprt.xid
  rtaddr_eq : xprt'.xpRtaddr = xprt.xpRtaddr
  output_eq : xprt'.output = xprt.output
  room_iff : ∀ n, xprt'.Room n ↔ xprt.Room n
  ready : xprt.Ready → xprt'.Ready

variable {xprt xprt' xprt'' : SvcXprt} {bs : List UInt8} {results : XdrFilter Unit} {msg : ReplyMsg}

theorem Still.refl (xprt : SvcXprt) : Still xprt xprt :=
  ⟨rfl, rfl, rfl, rfl, fun _ => Iff.rfl, id⟩

theorem Still.trans (h : Still xprt xprt') (h' : Still xprt' xprt'') : Still xprt xprt'' where
  netid_eq := h'.netid_eq.trans h.netid_eq
  xid_eq := h'.xid_eq.trans h.xid_eq
  rtaddr_eq := h'.rtaddr_eq.trans h.rtaddr_eq
  output_eq := h'.output_eq.trans h.output_eq
  room_iff n := (h'.room_iff n).trans (h.room_iff n)
  ready hReady := h'.ready (h.ready hReady)

/-- What is sent afterwards is all that is sent. -/
theorem Still.sends (h : Still xprt xprt') (hSends : Sends bs xprt' xprt'') :
    Sends bs xprt xprt'' := by
  unfold Sends at *
  rwa [h.output_eq, h.rtaddr_eq] at hSends

/-- A transport that is still has sent nothing. -/
theorem Still.not_sends (h : Still xprt xprt') : ¬ Sends bs xprt xprt' := by
  unfold Sends
  rw [h.output_eq]
  cases xprt.output with
  | stream written =>
      rintro ⟨r, -, hSame⟩
      have hNil : encodeAll r.frags = [] := by
        simpa using (XprtOutput.stream.inj hSame).symm
      have hLen := congrArg List.length hNil
      simp [encodeAll, Record.frags, Fragment.encode] at hLen
  | datagrams sent =>
      intro hSame
      have hLen := congrArg List.length (XprtOutput.datagrams.inj hSame)
      simp at hLen

theorem xpRtaddr_svcGetargs {α : Type} (xdrArgs : XdrFilter α) (xprt : SvcXprt) :
    (xprt.svcGetargs xdrArgs).2.xpRtaddr = xprt.xpRtaddr := by
  rcases xprt with ⟨netid, sockinfo, ⟨rtaddr, cd⟩ | ⟨su, line⟩⟩
  · rfl
  · rfl

/-- Decoding arguments sends nothing. -/
theorem svcGetargs_still {α : Type} {xdrArgs : XdrFilter α} (h : ReadsOnly xdrArgs)
    (xprt : SvcXprt) : Still xprt (xprt.svcGetargs xdrArgs).2 := by
  rcases xprt with ⟨netid, sockinfo, ⟨rtaddr, cd⟩ | ⟨su, line⟩⟩
  · have hSame := h RecStrm (fun s => s.outSide = cd.xdrs.outSide) readsStay cd.xdrs rfl
    simp only [outSide, Prod.mk.injEq] at hSame
    obtain ⟨⟨-, -, hBoundry⟩, ⟨hHeader, -⟩, hWritten, -⟩ := hSame
    refine ⟨rfl, rfl, rfl, congrArg XprtOutput.stream hWritten, fun _ => Iff.rfl, ?_⟩
    rintro ⟨⟨fs, hWriting⟩, hZero, hInt⟩
    refine ⟨⟨fs, hWriting.of_outSide ?_⟩, hHeader.trans hZero, hBoundry.trans_lt hInt⟩
    exact h RecStrm (fun s => s.outSide = cd.xdrs.outSide) readsStay cd.xdrs rfl
  · refine ⟨rfl, rfl, rfl, rfl, fun _ => Iff.rfl, ?_⟩
    rintro ⟨hSound, hLine⟩
    refine ⟨⟨hSound.full, fun uc hCache => ?_⟩, hLine⟩
    obtain ⟨order, log, hCaching⟩ := hSound.cached uc hCache
    exact ⟨order, log, { hCaching with }⟩

end SvcXprt

namespace SvcDg

variable {su : SvcDg} {bs : List UInt8}

/-- What is put into the buffer does not disturb a transport. -/
theorem Sound.fill (h : su.Sound) (hFit : bs.length ≤ su.suIosz) (pos : Nat) :
    ((su.fill bs).setpos pos).Sound where
  full := by
    show ((su.fill bs).bufs (su.fill bs).rpcBuffer).length = su.suIosz
    rw [bufs_fill, List.length_append, List.length_drop, h.full]
    omega
  cached := by
    intro uc hCache
    obtain ⟨order, log, hCaching⟩ := h.cached uc hCache
    exact ⟨order, log, { hCaching.fill hFit with }⟩

/-- A reply that is sent is entered into the cache, if there is one. -/
theorem Sound.svcDgReply (h : su.Sound) (hFit : bs.length ≤ su.suIosz) :
    ∃ su', su.svcDgReply bs true = some (true, su') ∧ su'.Sound := by
  rcases hCache : su.suCache with _ | uc
  · refine ⟨(su.fill bs).setpos bs.length, ?_, h.fill hFit _⟩
    have hNone : ((su.fill bs).setpos bs.length).suCache = none := hCache
    simp only [SvcDg.svcDgReply, if_true, hNone]
  · obtain ⟨order, log, hCaching⟩ := h.cached uc hCache
    obtain ⟨su', uc', order', hRun, hCaching', -⟩ := hCaching.svcDgReply hFit
    refine ⟨su', hRun, hCaching'.full _ List.mem_cons_self, fun uc'' hCache' => ?_⟩
    rw [hCaching'.cache_eq] at hCache'
    cases hCache'
    exact ⟨order', _, hCaching'⟩

/-- The stream over the buffer, at its start. -/
theorem Sound.within (h : su.Sound) : (su.setpos 0).suXdrs.Within := by
  show 0 + (su.suIosz - 0) ≤ (su.bufs su.rpcBuffer).length
  rw [h.full]
  omega

end SvcDg

section Reply

variable {su : SvcDg} {line : DgLine} {results : XdrFilter Unit} {msg msg' : ReplyMsg}
  {bs : List UInt8}

/-- The transport with `bs` put at the start of its buffer. -/
theorem put_suXdrs (su : SvcDg) (bs : List UInt8) :
    ({ su with
        bufs := Function.update su.bufs su.rpcBuffer ((su.setpos 0).suXdrs.put bs).base
        xPriv := ((su.setpos 0).suXdrs.put bs).priv } : SvcDg) =
      (su.fill bs).setpos bs.length := by
  show _ = { su.fill bs with xPriv := bs.length }
  rw [XdrMem.priv_put, show (su.setpos 0).suXdrs.priv = 0 from rfl, Nat.zero_add]
  rfl

/-- A reply that fits is sent as one datagram. -/
theorem svcDgSend_sends (h : su.Sound) (hLine : line.writable = true)
    (hEmits : Emits (xdrReplymsg (fun _ => results XdrMem) .encode { msg with rmXid := su.suXid })
      msg' bs) (hFit : bs.length ≤ su.suIosz) :
    ∃ su', svcDgSend results msg su line =
      some (true, su', { line with sent := line.sent ++ [(bs, su.xpRtaddr)] }) ∧ su'.Sound := by
  rcases hEmits (su.setpos 0).suXdrs h.within with
    ⟨-, xdrs, hRun, -, -, rfl⟩ | ⟨hFull, -⟩
  · obtain ⟨su', hReply, hSound⟩ := (h.fill hFit bs.length).svcDgReply hFit
    refine ⟨su', ?_, hSound⟩
    have hTake : ((su.setpos 0).suXdrs.put bs).base.take ((su.setpos 0).suXdrs.put bs).priv =
        bs := by
      show (Buffer.writeAt (su.bufs su.rpcBuffer) 0 bs).take (0 + bs.length) = bs
      simp [Buffer.writeAt]
    simp only [svcDgSend, hRun, put_suXdrs, hTake, hLine, hReply, Option.map_some, if_true]
  · exact absurd hFit hFull

/-- One that does not fit is not sent. -/
theorem svcDgSend_full (h : su.Sound)
    (hEmits : Emits (xdrReplymsg (fun _ => results XdrMem) .encode { msg with rmXid := su.suXid })
      msg' bs) (hFull : ¬ bs.length ≤ su.suIosz) :
    ∃ pos cs, svcDgSend results msg su line = some (false, (su.fill cs).setpos pos, line) ∧
      cs.length ≤ su.suIosz := by
  rcases hEmits (su.setpos 0).suXdrs h.within with
    ⟨hFit, -⟩ | ⟨-, cs, xdrs, hRun, -, hLe, -, rfl⟩
  · exact absurd hFit hFull
  · refine ⟨cs.length, cs, ?_, hLe⟩
    simp only [svcDgSend, hRun, put_suXdrs]

/-- Over a connection a reply is sent as one record, however long it is. -/
theorem svcVcReply_sends {cd : CfConn} {fs : List Fragment} (hWriting : Writing fs [] cd.xdrs)
    (hHeader : cd.xdrs.fragHeader = 0) (hInt : cd.xdrs.outBoundry < 2 ^ 31)
    (hEmits : Emits (xdrReplymsg (fun _ => results RecStrm) .encode { msg with rmXid := cd.xId })
      msg' bs) :
    ∃ (cd' : CfConn) (r : Record), svcVcReply results msg cd = (true, cd') ∧ r.body = bs ∧
      cd'.xdrs.tcp.written = cd.xdrs.tcp.written ++ encodeAll r.frags ∧
      Writing (fs ++ r.frags) [] cd'.xdrs ∧ cd'.xdrs.fragHeader = 0 ∧
      cd'.xdrs.outBoundry < 2 ^ 31 := by
  obtain ⟨s₁, s₂, r, hRun, hEnd, hBody, hNext, hSent, hKept⟩ := hWriting.sends hInt hEmits
  have hBefore := hWriting.closed_eq
  have hAfter := hNext.closed_eq
  rw [hHeader, List.take_zero, List.append_nil] at hBefore
  rw [hSent, List.take_zero, List.append_nil, encodeAll_append] at hAfter
  refine ⟨{ cd with xdrs := s₂ }, r, ?_, hBody, ?_, hNext, hSent, hKept ▸ hInt⟩
  · simp only [svcVcReply, hRun, hEnd, Option.isSome_some, if_true]
  · show s₂.tcp.written = _
    rw [hAfter, hBefore]

end Reply

/-! ### Replies over a transport -/

/-- The length of a reply does not depend on its xid. -/
theorem length_bytes_rmXid (msg : ReplyMsg) (xid : BitVec 32) (rs : List UInt8) :
    (({ msg with rmXid := xid } : ReplyMsg).bytes rs).length = (msg.bytes rs).length := by
  simp only [ReplyMsg.bytes, List.length_append, Word.length_toBytes]

theorem ReplyMsg.Sendable.withXid {msg : ReplyMsg} (h : msg.Sendable) (xid : BitVec 32) :
    ({ msg with rmXid := xid } : ReplyMsg).Sendable :=
  ⟨h.direction, h.arm⟩

theorem isReply_bytes {msg : ReplyMsg} (h : msg.Sendable) (xid : BitVec 32) (rs : List UInt8) :
    IsReply xid (({ msg with rmXid := xid } : ReplyMsg).bytes rs) :=
  ⟨XdrOps.putbytes rs, _, _, rfl,
    (emits_xdrReplymsg (h.withXid xid) (Emits.putbytes rs)).run_byteStream⟩

namespace SvcXprt

variable {xprt : SvcXprt} {results : XdrFilter Unit} {msg : ReplyMsg} {rs : List UInt8}

/-- A reply for which there is room is sent once, with the xid of the request. -/
theorem svcReply_sends (hReady : xprt.Ready) (hMsg : msg.Sendable)
    (hResults : EmitsAll results () rs) (hRoom : xprt.Room (msg.bytes rs).length) :
    ∃ xprt', svcReply results msg xprt = some (true, xprt') ∧
      Sends (({ msg with rmXid := xprt.xid } : ReplyMsg).bytes rs) xprt xprt' ∧ xprt'.Ready := by
  have hSendable := hMsg.withXid xprt.xid
  rw [← length_bytes_rmXid msg xprt.xid] at hRoom
  rcases xprt with ⟨netid, sockinfo, ⟨rtaddr, cd⟩ | ⟨su, line⟩⟩
  · obtain ⟨⟨fs, hWriting⟩, hHeader, hInt⟩ := hReady
    obtain ⟨cd', r, hRun, hBody, hWritten, hNext⟩ :=
      svcVcReply_sends hWriting hHeader hInt (emits_xdrReplymsg hSendable (hResults RecStrm))
    refine ⟨⟨netid, sockinfo, .vc rtaddr cd'⟩, ?_, ⟨r, hBody, ?_⟩, ⟨_, hNext.1⟩, hNext.2⟩
    · simp only [svcReply, hRun]
    · exact congrArg XprtOutput.stream hWritten
  · obtain ⟨hSound, hLine⟩ := hReady
    obtain ⟨su', hRun, hSound'⟩ :=
      svcDgSend_sends hSound hLine (emits_xdrReplymsg hSendable (hResults XdrMem)) hRoom
    refine ⟨⟨netid, sockinfo, .dg su' { line with sent := line.sent ++ [(_, su.xpRtaddr)] }⟩,
      ?_, rfl, hSound', hLine⟩
    simp only [svcReply, hRun, Option.map_some]
    rfl

/-- One for which there is no room is not sent. -/
theorem svcReply_full (hReady : xprt.Ready) (hMsg : msg.Sendable)
    (hResults : EmitsAll results () rs) (hFull : ¬ xprt.Room (msg.bytes rs).length) :
    ∃ xprt', svcReply results msg xprt = some (false, xprt') ∧ Still xprt xprt' := by
  have hSendable := hMsg.withXid xprt.xid
  rw [← length_bytes_rmXid msg xprt.xid] at hFull
  rcases xprt with ⟨netid, sockinfo, ⟨rtaddr, cd⟩ | ⟨su, line⟩⟩
  · exact absurd trivial hFull
  · obtain ⟨hSound, hLine⟩ := hReady
    obtain ⟨pos, cs, hRun, hLe⟩ : ∃ pos cs, svcDgSend results msg su line =
        some (false, (su.fill cs).setpos pos, line) ∧ cs.length ≤ su.suIosz :=
      svcDgSend_full hSound (emits_xdrReplymsg hSendable (hResults XdrMem)) hFull
    refine ⟨⟨netid, sockinfo, .dg ((su.fill cs).setpos pos) line⟩, ?_, rfl, rfl, rfl, rfl, ?_, ?_⟩
    · simp only [svcReply, hRun, Option.map_some]
    · exact fun _ => Iff.rfl
    · exact fun _ => ⟨hSound.fill hLe pos, hLine⟩

end SvcXprt
end OncRpc
