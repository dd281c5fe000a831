import OncRpc.Base.Runs
import OncRpc.Clnt.Raw

/-! A raw call is one application of the routine, whatever the buffer holds and has held. -/
namespace OncRpc.Raw

open XdrOps Fallible Buffer

/-! ### Streams over the shared buffer -/

/-- All of a filter's bytes are put, or some where they do not fit. -/
theorem run_emits {β : Type} {m : Fallible XdrMem β} {a : β} {bs : List UInt8} (h : Emits m a bs)
    {s : XdrMem} (hs : s.Within) :
    bs.length ≤ s.handy ∧ m.run s = (some a, s.put bs) ∨
      ¬ bs.length ≤ s.handy ∧ ∃ cs, cs.length ≤ s.handy ∧ m.run s = (none, s.put cs) := by
  rcases h s hs with ⟨hFits, s', hRun, -, -, rfl⟩ | ⟨hFull, cs, s', hRun, -, hLe, -, rfl⟩
  · exact Or.inl ⟨hFits, hRun⟩
  · exact Or.inr ⟨hFull, cs, hLe, hRun⟩

/-- A stream at the start of a buffer. -/
def startOf (buf : List UInt8) (aligned : Bool) : XdrMem :=
  { base := buf, priv := 0, handy := udpmsgsize, aligned := aligned }

section Start

variable {buf bs : List UInt8} {a : Bool}

theorem within_startOf (h : buf.length = udpmsgsize) : (startOf buf a).Within := by
  show 0 + udpmsgsize ≤ buf.length
  omega

/-- The buffer with `bs` at its front. -/
theorem base_put_startOf (h : buf.length = udpmsgsize) (hLe : bs.length ≤ udpmsgsize) :
    ((startOf buf a).put bs).base = bs ++ buf.drop bs.length ∧
      ((startOf buf a).put bs).base.length = udpmsgsize ∧
      ((startOf buf a).put bs).priv + ((startOf buf a).put bs).handy = udpmsgsize := by
  have hBase : ((startOf buf a).put bs).base = bs ++ buf.drop bs.length := by
    simp [startOf, XdrMem.put, writeAt]
  refine ⟨hBase, ?_, ?_⟩
  · rw [hBase, List.length_append, List.length_drop, h]
    omega
  · rw [XdrMem.priv_put, XdrMem.handy_put]
    show 0 + bs.length + (udpmsgsize - bs.length) = udpmsgsize
    omega

/-- A stream that stands somewhere in the buffer stands before the rest of it. -/
theorem before_drop {pos : StreamPos} (h : buf.length = udpmsgsize)
    (hPos : pos.xPrivate + pos.xHandy = udpmsgsize) :
    XdrMem.Before buf udpmsgsize
      { base := buf, priv := pos.xPrivate, handy := pos.xHandy, aligned := a }
      (buf.drop pos.xPrivate) where
  base_eq := rfl
  stop_eq := hPos
  within := by
    show pos.xPrivate + pos.xHandy ≤ buf.length
    omega
  rest_eq := by
    show readAt buf pos.xPrivate pos.xHandy = buf.drop pos.xPrivate
    rw [readAt, List.take_of_length_le]
    rw [List.length_drop]
    omega

theorem before_startOf (h : buf.length = udpmsgsize) :
    XdrMem.Before buf udpmsgsize (startOf buf a) buf :=
  @before_drop buf a { xPrivate := 0, xHandy := udpmsgsize } h (Nat.zero_add _)

end Start

/-- Reading does not change the buffer, and the stream keeps its end. -/
def InBuffer (buf : List UInt8) (s : XdrMem) : Prop :=
  s.base = buf ∧ s.priv + s.handy = udpmsgsize

theorem readsStay_inBuffer (buf : List UInt8) : ReadsStay (InBuffer buf) where
  getlong s h := by
    have hStay := (XdrMem.readsStay buf s.aligned udpmsgsize).getlong s ⟨h.1, rfl, h.2⟩
    exact ⟨hStay.1, hStay.2.2⟩
  getbytes n s h := by
    have hStay := (XdrMem.readsStay buf s.aligned udpmsgsize).getbytes n s ⟨h.1, rfl, h.2⟩
    exact ⟨hStay.1, hStay.2.2⟩

theorem GetFilter.stays_inBuffer {α : Type} (f : GetFilter α) (buf : List UInt8) :
    Stays (InBuffer buf) (f.get XdrMem) := by
  rintro s ⟨hBase, hStop⟩
  have hStay := f.stays buf s.aligned udpmsgsize s ⟨hBase, rfl, hStop⟩
  exact ⟨hStay.1, hStay.2.2⟩

/-! ### What is put and taken -/

theorem authnoneMarshalled_eq : authnoneMarshalled = List.replicate 16 0 := by decide

/-- The bytes of a call, with what `mashl_callmsg` holds and the arguments. -/
def callBytes (xid prog vers proc : BitVec 32) (args : List UInt8) : List UInt8 :=
  callhdrBytes xid prog vers ++ (Word.toBytes proc ++ (List.replicate 16 0 ++ args))

/-- An authenticator of `AUTH_NULL`, over the area that there was. -/
def nullOver (ap : OpaqueAuth) : OpaqueAuth := { oaFlavor := 0, oaBase := ap.oaBase, oaLength := 0 }

open ByteStream in
theorem takes_nullOver (ap : OpaqueAuth) :
    Takes (xdrOpaqueAuth .decode ap) (nullOver ap) (Word.toBytes 0 ++ Word.toBytes 0) := by
  refine (takes_xdrInteger id id _ 0).bind ?_
  refine Takes.bind_pure (a := (ap.oaBase, 0)) ?_ rfl
  refine (takes_xdrUInt _ 0).bind_pure ?_
  rfl

/-- The message that a call is decoded into. -/
def callMsgOf (init : RpcMsg) (xid prog vers proc : BitVec 32) : RpcMsg where
  rmXid := xid
  rmDirection := call
  rmCall :=
    { cbRpcvers := rpcMsgVersion
      cbProg := prog
      cbVers := vers
      cbProc := proc
      cbCred := nullOver init.rmCall.cbCred
      cbVerf := nullOver init.rmCall.cbVerf }

open ByteStream in
theorem takes_callMsgOf (init : RpcMsg) (xid prog vers proc : BitVec 32) :
    Takes (xdrCallmsg .decode init) (callMsgOf init xid prog vers proc)
      (callBytes xid prog vers proc []) := by
  have hPlain : Takes (callmsgPlain .decode init) (callMsgOf init xid prog vers proc)
      (Word.toBytes xid ++ (Word.toBytes call ++ (Word.toBytes rpcMsgVersion ++
        (Word.toBytes prog ++ (Word.toBytes vers ++ (Word.toBytes proc ++
          ((Word.toBytes 0 ++ Word.toBytes 0) ++ (Word.toBytes 0 ++ Word.toBytes 0)))))))) := by
    refine (takes_xdrInteger id id _ xid).bind ((takes_xdrInteger id id _ call).bind ?_)
    refine Takes.require rfl ((takes_xdrInteger id id _ rpcMsgVersion).bind ?_)
    refine Takes.require rfl ((takes_xdrInteger id id _ prog).bind ?_)
    refine (takes_xdrInteger id id _ vers).bind ((takes_xdrInteger id id _ proc).bind ?_)
    exact (takes_nullOver _).bind ((takes_nullOver _).bind_pure rfl)
  have hBytes : callBytes xid prog vers proc [] =
      Word.toBytes xid ++ (Word.toBytes call ++ (Word.toBytes rpcMsgVersion ++
        (Word.toBytes prog ++ (Word.toBytes vers ++ (Word.toBytes proc ++
          ((Word.toBytes 0 ++ Word.toBytes 0) ++ (Word.toBytes 0 ++ Word.toBytes 0))))))) := by
    have hZero : List.replicate 16 (0 : UInt8) =
        (Word.toBytes 0 ++ Word.toBytes 0) ++ (Word.toBytes 0 ++ Word.toBytes 0) := by decide
    simp only [callBytes, callhdrBytes, List.flatMap_cons, List.flatMap_nil, List.append_nil,
      List.append_assoc, hZero]
  rw [hBytes]
  exact hPlain

theorem callBytes_append (xid prog vers proc : BitVec 32) (args : List UInt8) :
    callBytes xid prog vers proc args = callBytes xid prog vers proc [] ++ args := by
  simp only [callBytes, List.append_assoc, List.append_nil]

theorem length_callBytes (xid prog vers proc : BitVec 32) (args : List UInt8) :
    (callBytes xid prog vers proc args).length = 40 + args.length := by
  simp only [callBytes, callhdrBytes, List.length_append, length_flatMap_toBytes, List.length_cons,
    List.length_nil, Word.length_toBytes, List.length_replicate]
  omega

/-- The header of a client for a program, with any xid. -/
structure Heads (prog vers : BitVec 32) (clp : RawClnt) : Prop where
  length_eq : clp.mashlCallmsg.length = mcallMsgSize
  mcnt_eq : clp.mcnt = 20
  header : ∃ xid, clp.mashlCallmsg.take 20 = callhdrBytes xid prog vers

theorem Heads.nextXid {prog vers : BitVec 32} {clp : RawClnt} (h : Heads prog vers clp)
    (order : Word.ByteOrder) : Heads prog vers (RawState.nextXid order clp) := by
  obtain ⟨xid, hHeader⟩ := h.header
  let w : List UInt8 := Word.store order (Word.load order (readAt clp.mashlCallmsg 0 4) + 1)
  have hWord : w.length = 4 := Word.length_store order _
  refine ⟨?_, h.mcnt_eq, Word.ofBytes w, ?_⟩
  · show (writeAt clp.mashlCallmsg 0 w).length = _
    rw [length_writeAt, h.length_eq]
    rw [hWord, h.length_eq]
    decide
  · -- Only the first word of the header is another one.
    show (writeAt clp.mashlCallmsg 0 w).take 20 = _
    have hRest : (clp.mashlCallmsg.drop 4).take 16 =
        (callhdrBytes xid prog vers).drop 4 := by
      rw [← hHeader, List.drop_take]
    have hSplit (x : BitVec 32) : callhdrBytes x prog vers =
        Word.toBytes x ++ (callhdrBytes x prog vers).drop 4 := by
      rw [callhdrBytes, List.flatMap_cons, List.drop_left' (Word.length_toBytes x)]
    have hTail (x : BitVec 32) : (callhdrBytes x prog vers).drop 4 =
        [call, rpcMsgVersion, prog, vers].flatMap Word.toBytes := by
      rw [callhdrBytes, List.flatMap_cons, List.drop_left' (Word.length_toBytes x)]
    rw [hSplit, Word.toBytes_ofBytes hWord, hTail, ← hTail xid, ← hRest, writeAt, List.take_zero,
      List.nil_append, hWord, List.take_append, hWord, List.take_of_length_le (by omega)]

/-- The program and the version of the header. -/
def RawClnt.target (clp : RawClnt) : BitVec 32 × BitVec 32 :=
  (Word.ofBytes (readAt clp.mashlCallmsg 12 4), Word.ofBytes (readAt clp.mashlCallmsg 16 4))

theorem Heads.target_eq {prog vers : BitVec 32} {clp : RawClnt} (h : Heads prog vers clp) :
    clp.target = (prog, vers) := by
  obtain ⟨xid, hHeader⟩ := h.header
  have hAt (off : Nat) (hOff : off + 4 ≤ 20) :
      readAt clp.mashlCallmsg off 4 = readAt (callhdrBytes xid prog vers) off 4 := by
    have hZero : clp.mashlCallmsg.take 20 = readAt clp.mashlCallmsg 0 20 := rfl
    rw [← hHeader, hZero, readAt_readAt _ _ _ _ _ hOff, Nat.zero_add]
  rw [RawClnt.target, hAt 12 (by decide), hAt 16 (by decide)]
  refine Prod.ext (Word.ofBytes_toBytes prog) (Word.ofBytes_toBytes vers)

theorem emits_putCall {ρ : Type} {prog vers : BitVec 32} {clp : RawClnt} (h : Heads prog vers clp)
    (call : RawState.RawCall ρ) : ∃ xid, Emits (RawState.putCall clp call) ()
      (callBytes xid prog vers call.proc call.args.bytes) := by
  obtain ⟨xid, hHeader⟩ := h.header
  refine ⟨xid, ?_⟩
  unfold RawState.putCall callBytes
  rw [h.mcnt_eq, hHeader, authnoneMarshalled_eq]
  refine (Emits.putbytes _).bind ((Emits.putlong _).bind ((Emits.putbytes _).bind ?_))
  exact call.args.emits XdrMem

/-! ### The loop without a buffer -/

/-- What a filter decodes of these bytes. -/
def GetFilter.of {α : Type} (f : GetFilter α) (bs : List UInt8) : Option α :=
  ((f.get ByteStream).run bs).1

/-- What it decodes does not depend on what stands behind. -/
def GetFilter.Settled {α : Type} (f : GetFilter α) (bs : List UInt8) : Prop :=
  ∀ beyond, ((f.get ByteStream).run (bs ++ beyond)).1 = f.of bs

/-- The process without its buffer, its streams and its xids. -/
structure Loopback (δ ω : Type) where
  /-- The program and the version of the client. -/
  target : Option (BitVec 32 × BitVec 32)
  made : Bool
  serving : Bool
  svcHead : List (SvcCallout δ)
  app : ω

namespace Loopback

variable {α δ ρ ω : Type}

/-- A request as the routine of its program is given it. -/
def rqst (prog vers : BitVec 32) (call : RawState.RawCall ρ) : SvcReq :=
  { rqProg := prog, rqVers := vers, rqProc := call.proc, rqFlavor := SvcAuth.authNull }

/-- What the server answers to a call, and what becomes of the application: the routine is applied
once to the arguments, if there is one. -/
def answerTo (routines : δ → Routine α ω) (prog vers : BitVec 32) (call : RawState.RawCall ρ)
    (l : Loopback δ ω) : Answer × ω :=
  match serviceOf prog vers l.svcHead with
  | .noprog => (.noprog, l.app)
  | .progvers low high => (.progvers low high, l.app)
  | .dispatch d =>
      let routine := routines d
      let rqst := rqst prog vers call
      routine.serve rqst ((routine.xdrArgs rqst).of call.args.bytes) l.app

end Loopback

/-- The status that a reply is decoded into. -/
def Answer.status : Answer → ClntStat
  | sendreply _ => .success
  | noproc => .procunavail
  | decode => .cantdecodeargs
  | systemerr => .systemerror
  | noprog => .progunavail
  | progvers _ _ => .progversmismatch
  | auth _ => .autherror

/-- The answer that goes out: an error for results that do not fit behind the 24 bytes of a
header. -/
def Answer.sent : Answer → Answer
  | sendreply r => if 24 + r.bytes.length ≤ udpmsgsize then sendreply r else systemerr
  | a => a

/-- What a call returns for the answer that it gets. -/
def Answer.outcome {ρ : Type} (results : GetFilter ρ) : Answer → ClntStat × Option ρ
  | sendreply r =>
      match results.of r.bytes with
      | some v => (.success, some v)
      | none => (.cantdecoderes, none)
  | a => (a.status, none)

namespace Loopback

variable {α δ ρ ω : Type}

/-- A call: the routine is applied if the call fits behind the 40 bytes of its header, and there
is a server. -/
def call (routines : δ → Routine α ω) (call : RawState.RawCall ρ) (l : Loopback δ ω) :
    (ClntStat × Option ρ) × Loopback δ ω :=
  match l.target with
  | none => ((.failed, none), l)
  | some (prog, vers) =>
      if 40 + call.args.bytes.length ≤ udpmsgsize then
        if l.serving then
          let r := answerTo routines prog vers call l
          (r.1.sent.outcome call.results, { l with app := r.2 })
        else ((.cantdecoderes, none), l)
      else ((.cantencodeargs, none), l)

/-- The filters of a call are applied to bytes that do not run into what is behind them. -/
def SettledCall (routines : δ → Routine α ω) (call : RawState.RawCall ρ) (l : Loopback δ ω) :
    Prop :=
  ∀ prog vers, l.target = some (prog, vers) →
    (∀ d, serviceOf prog vers l.svcHead = .dispatch d →
      ((routines d).xdrArgs (rqst prog vers call)).Settled call.args.bytes) ∧
    ∀ results app, answerTo routines prog vers call l = (.sendreply results, app) →
      call.results.Settled results.bytes

end Loopback

/-- The buffer has its size, all streams end where it ends, and the client's header is one. -/
structure Sound {δ ω : Type} (st : RawState δ ω) : Prop where
  length_eq : st.rpcRawcombuf.length = udpmsgsize
  clnt : ∀ clp, st.clntrawPrivate = some clp →
    clp.xdrStream.xPrivate + clp.xdrStream.xHandy = udpmsgsize ∧
      Heads clp.target.1 clp.target.2 clp
  svc : ∀ pos, st.svcRawPrivate = some pos → pos.xPrivate + pos.xHandy = udpmsgsize
  serving : st.registered = true → st.svcRawPrivate.isSome

/-- What is left of the process without the buffer. -/
def RawState.loopback {δ ω : Type} (st : RawState δ ω) : Loopback δ ω where
  target := st.clntrawPrivate.map RawClnt.target
  made := st.svcRawPrivate.isSome
  serving := st.registered
  svcHead := st.svcHead
  app := st.app

/-! ### The server -/

section Server

variable {α δ ω : Type} {st : RawState δ ω} {pos : StreamPos}

theorem rewound_eq (hPos : pos.xPrivate + pos.xHandy = udpmsgsize) :
    st.rewound pos = startOf st.rpcRawcombuf st.aligned := by
  simp [RawState.rewound, Fallible.run, XdrMem.xdrmemSetpos, startOf, hPos]

/-- A stream that stands before `t` in the buffer. -/
structure At (buf : List UInt8) (pos : StreamPos) (t : List UInt8) : Prop where
  ends : pos.xPrivate + pos.xHandy = udpmsgsize
  rest : buf.drop pos.xPrivate = t

theorem At.of_before {buf t : List UInt8} {s : XdrMem} (hLength : buf.length = udpmsgsize)
    (h : XdrMem.Before buf udpmsgsize s t) :
    At buf { xPrivate := s.priv, xHandy := s.handy } t := by
  refine ⟨h.stop_eq, ?_⟩
  rw [← h.rest_eq, XdrMem.rest, h.base_eq, readAt, List.take_of_length_le]
  have hStop := h.stop_eq
  rw [List.length_drop]
  omega

/-- A call at the front of the buffer is received. -/
theorem svcRawRecv_call (h : Sound st) (hSvc : st.svcRawPrivate = some pos) (frames : Frames)
    {xid prog vers proc : BitVec 32} {args beyond : List UInt8}
    (hBuf : st.rpcRawcombuf = callBytes xid prog vers proc args ++ beyond) :
    ∃ pos', st.svcRawRecv frames = (some (callMsgOf frames.callMsg xid prog vers proc),
        { st with svcRawPrivate := some pos' }) ∧ At st.rpcRawcombuf pos' (args ++ beyond) := by
  have hBefore : XdrMem.Before st.rpcRawcombuf udpmsgsize (startOf st.rpcRawcombuf st.aligned)
      st.rpcRawcombuf := before_startOf h.length_eq
  have hTakes := takes_callMsgOf frames.callMsg xid prog vers proc (args ++ beyond)
  rw [← List.append_assoc, ← callBytes_append, ← hBuf] at hTakes
  obtain ⟨s', hRun, hNext⟩ :=
    (decodes_xdrCallmsg XdrMem.lawful frames.callMsg).run_some hBefore hTakes
  refine ⟨{ xPrivate := s'.priv, xHandy := s'.handy }, ?_, .of_before h.length_eq hNext⟩
  rw [RawState.svcRawRecv, hSvc]
  dsimp only
  rw [rewound_eq (h.svc pos hSvc), hRun, RawState.setSvc, hNext.base_eq]

/-- The arguments are decoded behind it. -/
theorem svcRawGetargs_settled (hLength : st.rpcRawcombuf.length = udpmsgsize)
    (hSvc : st.svcRawPrivate = some pos) {args beyond : List UInt8}
    (hAt : At st.rpcRawcombuf pos (args ++ beyond)) {f : GetFilter α} (hSettled : f.Settled args) :
    ∃ pos', st.svcRawGetargs f.get = (f.of args, { st with svcRawPrivate := some pos' }) ∧
      pos'.xPrivate + pos'.xHandy = udpmsgsize := by
  let s : XdrMem := { base := st.rpcRawcombuf, priv := pos.xPrivate, handy := pos.xHandy,
                      aligned := st.aligned }
  have hBefore : XdrMem.Before st.rpcRawcombuf udpmsgsize s (args ++ beyond) := by
    rw [← hAt.rest]
    exact before_drop hLength hAt.ends
  have hStay := f.stays_inBuffer st.rpcRawcombuf s ⟨rfl, hAt.ends⟩
  have hAnswer := (f.decodes XdrMem.lawful s _ hBefore).1
  rw [hSettled beyond] at hAnswer
  refine ⟨{ xPrivate := ((f.get XdrMem).run s).2.priv, xHandy := ((f.get XdrMem).run s).2.handy },
    ?_, hStay.2⟩
  rw [RawState.svcRawGetargs, hSvc]
  dsimp only
  rw [RawState.setSvc]
  exact Prod.ext hAnswer (by rw [hStay.1])

theorem Answer.eq_of_sent {a : Answer} {r : PutFilter} (h : a.sent = sendreply r) :
    a = sendreply r := by
  cases a with
  | sendreply r' =>
      rw [Answer.sent] at h
      split at h
      · exact h
      · cases h
  | _ => cases h

/-- The bytes of the results. -/
def Answer.resultBytes : Answer → List UInt8
  | sendreply r => r.bytes
  | _ => []

/-- The bytes of a reply. -/
def Answer.reply (xid : BitVec 32) (a : Answer) : List UInt8 :=
  ({ a.msg with rmXid := xid } : ReplyMsg).bytes a.resultBytes

theorem fits_nullAuth : nullAuth.Fits := ⟨by decide, by decide⟩

theorem Answer.sendable (a : Answer) : a.msg.Sendable := by
  cases a with
  | auth why => exact ⟨rfl, Or.inr ⟨rfl, Or.inr rfl⟩⟩
  | _ => exact ⟨rfl, Or.inl ⟨rfl, fits_nullAuth⟩⟩

theorem Answer.emits_reply (a : Answer) (xid : BitVec 32) :
    Emits (xdrReplymsg (fun _ => a.results XdrMem) .encode { a.msg with rmXid := xid })
      { a.msg with rmXid := xid } (a.reply xid) := by
  refine emits_xdrReplymsg (a.sendable.withXid xid) ?_
  cases a with
  | sendreply r => exact r.emits XdrMem
  | _ => exact Emits.pure ()

/-- Only results can be too long. -/
theorem Answer.sent_eq (a : Answer) (xid : BitVec 32) :
    (a.reply xid).length ≤ udpmsgsize ∧ a.sent = a ∨
      udpmsgsize < (a.reply xid).length ∧ a.sent = systemerr ∧ ∃ r, a = sendreply r := by
  have hNull : nullAuth.bytes.length = 8 := by decide
  cases a with
  | sendreply r =>
      have hLength : ((sendreply r).reply xid).length = 24 + r.bytes.length := by
        show (Word.toBytes xid ++ (Word.toBytes _ ++ (Word.toBytes _ ++
          (nullAuth.bytes ++ (Word.toBytes _ ++ r.bytes))))).length = _
        simp only [List.length_append, Word.length_toBytes, hNull]
        omega
      rw [hLength, Answer.sent]
      split
      · next hFits => exact Or.inl ⟨hFits, rfl⟩
      · next hFull => exact Or.inr ⟨by omega, rfl, r, rfl⟩
  | _ =>
      refine Or.inl ⟨?_, rfl⟩
      simp [reply, msg, ReplyMsg.bytes, SvcXprt.accepted, SvcXprt.denied,
        AcceptedReply.bytes, RejectedReply.bytes, Versions.bytes, Word.length_toBytes, hNull,
        OncRpc.success, procUnavail, garbageArgs, systemErr, progUnavail, progMismatch, msgAccepted,
        msgDenied, authError, rpcMismatch, udpmsgsize]

/-- A reply is put at the front of the buffer, if it fits. -/
theorem svcRawReply_spec (hLength : st.rpcRawcombuf.length = udpmsgsize)
    (hSvc : st.svcRawPrivate = some pos) (hPos : pos.xPrivate + pos.xHandy = udpmsgsize)
    (a : Answer) (xid : BitVec 32) :
    ∃ buf pos', st.svcRawReply a.results { a.msg with rmXid := xid } =
        (decide ((a.reply xid).length ≤ udpmsgsize),
          { st with rpcRawcombuf := buf, svcRawPrivate := some pos' }) ∧
      buf.length = udpmsgsize ∧ pos'.xPrivate + pos'.xHandy = udpmsgsize ∧
      ((a.reply xid).length ≤ udpmsgsize → ∃ stale, buf = a.reply xid ++ stale) := by
  rw [RawState.svcRawReply, hSvc]
  dsimp only
  rw [rewound_eq hPos]
  rcases run_emits (a.emits_reply xid) (within_startOf hLength) with
    ⟨hFits, hRun⟩ | ⟨hFull, cs, hLe, hRun⟩
  · obtain ⟨hBase, hBuf, hStop⟩ := base_put_startOf (a := st.aligned) hLength hFits
    have hLe : (a.reply xid).length ≤ udpmsgsize := hFits
    rw [hRun, decide_eq_true hLe]
    exact ⟨_, { xPrivate := _, xHandy := _ }, rfl, hBuf, hStop, fun _ => ⟨_, hBase⟩⟩
  · obtain ⟨-, hBuf, hStop⟩ := base_put_startOf (a := st.aligned) hLength hLe
    have hNot : ¬ (a.reply xid).length ≤ udpmsgsize := hFull
    rw [hRun, decide_eq_false hNot]
    exact ⟨_, { xPrivate := _, xHandy := _ }, rfl, hBuf, hStop, fun hFits => absurd hFits hFull⟩

/-- What is sent is at the front of the buffer, behind it what was there. -/
theorem answer_spec (hLength : st.rpcRawcombuf.length = udpmsgsize)
    (hSvc : st.svcRawPrivate = some pos) (hPos : pos.xPrivate + pos.xHandy = udpmsgsize)
    (frames : Frames) (a : Answer) :
    ∃ buf pos', RawState.answer frames a st =
        { st with rpcRawcombuf := buf, svcRawPrivate := some pos' } ∧
      buf.length = udpmsgsize ∧ pos'.xPrivate + pos'.xHandy = udpmsgsize ∧
      ∃ stale, buf = a.sent.reply frames.rmXid ++ stale := by
  obtain ⟨buf, pos', hReply, hBuf, hStop, hFront⟩ :=
    svcRawReply_spec hLength hSvc hPos a frames.rmXid
  rcases a.sent_eq frames.rmXid with ⟨hFits, hSent⟩ | ⟨hFull, hSent, r, rfl⟩
  · refine ⟨buf, pos', ?_, hBuf, hStop, ?_⟩
    · rw [RawState.answer, hReply, decide_eq_true hFits]
    · rw [hSent]
      exact hFront hFits
  · let st' : RawState δ ω := { st with rpcRawcombuf := buf, svcRawPrivate := some pos' }
    obtain ⟨buf', pos'', hReply', hBuf', hStop', hFront'⟩ := svcRawReply_spec
      (show st'.rpcRawcombuf.length = udpmsgsize from hBuf) rfl hStop .systemerr frames.rmXid
    have hFits : (Answer.systemerr.reply frames.rmXid).length ≤ udpmsgsize := by
      rcases Answer.systemerr.sent_eq frames.rmXid with h | ⟨-, -, r, hr⟩
      · exact h.1
      · cases hr
    refine ⟨buf', pos'', ?_, hBuf', hStop', ?_⟩
    · rw [RawState.answer, hReply, decide_eq_false (Nat.not_le.mpr hFull)]
      dsimp only
      rw [hReply']
    · rw [hSent]
      exact hFront' hFits

variable {routines : δ → Routine α ω} {frames : Frames}

/-- The raw transport is idle after every request, so that there is one round. -/
theorem getreqLoop_raw (fd xprt : Nat) (st : RawState δ ω) :
    ((RawState.world routines frames).getreqLoop fd xprt 1 st).2 =
      ((RawState.world routines frames).getreqRound fd xprt st).2.1 := by
  rw [SvcWorld.getreqLoop]
  rcases (RawState.world routines frames).getreqRound fd xprt st with ⟨es, st', _ | _⟩ <;> rfl

theorem recheck_raw (fd xprt : Nat) (st : RawState δ ω) :
    ((RawState.world routines frames).recheck fd xprt st).2.1 = st := by
  unfold SvcWorld.recheck
  split <;> rfl

theorem dispatch_eq {routine : Routine α ω} {msg : RpcMsg} {rqst : SvcReq} {args : Option α}
    {st' : RawState δ ω}
    (hRqst : rqst = { rqProg := msg.rmCall.cbProg, rqVers := msg.rmCall.cbVers
                      rqProc := msg.rmCall.cbProc, rqFlavor := msg.rmCall.cbCred.oaFlavor })
    (hArgs : st.svcRawGetargs (routine.xdrArgs rqst).get = (args, st')) :
    RawState.dispatch routine frames msg st =
      RawState.answer frames (routine.serve rqst args st'.app).1
        { st' with app := (routine.serve rqst args st'.app).2 } := by
  unfold RawState.dispatch
  rw [← hRqst]
  dsimp only
  rw [hArgs]

/-- What comes of a request that is received. -/
def RawState.served (routines : δ → Routine α ω) (frames : Frames) (msg : RpcMsg)
    (st : RawState δ ω) : Service δ → RawState δ ω
  | .dispatch d => dispatch (routines d) frames msg st
  | .progvers low high => answer frames (.progvers low high) st
  | .noprog => answer frames .noprog st

theorem svcGetreqRaw_eq (hServing : st.registered = true) {msg : RpcMsg} {st' : RawState δ ω}
    (hRecv : st.svcRawRecv frames = (some msg, st')) (hCred : msg.rmCall.cbCred.oaFlavor = 0) :
    RawState.svcGetreqRaw routines frames st =
      st'.served routines frames msg
        (serviceOf msg.rmCall.cbProg msg.rmCall.cbVers st'.svcHead) := by
  have hXports : (RawState.world routines frames).svcXports st = [some 0] := by
    show [if st.registered then some 0 else none] = _
    rw [hServing]
    rfl
  have hRound : (RawState.world routines frames).getreqRound 0 0 st =
      SvcWorld.after [.recv] ((RawState.world routines frames).getreqMsg 0 0 msg st') := by
    unfold SvcWorld.getreqRound
    rw [show (RawState.world routines frames).svcRecv 0 st = (some msg, st') from hRecv]
  have hAuth : (RawState.world routines frames).authenticate msg 0 st' = (authOk, st') := by
    simp only [RawState.world, SvcAuth.authenticate, SvcAuth.authNull, hCred, if_pos,
      SvcAuth.svcauthNull]
  rw [RawState.svcGetreqRaw, SvcWorld.svcGetreqCommon, hXports]
  show ((RawState.world routines frames).getreqLoop 0 0 1 st).2 = _
  rw [getreqLoop_raw, hRound]
  show ((RawState.world routines frames).getreqMsg 0 0 msg st').2.1 = _
  unfold SvcWorld.getreqMsg
  rw [hAuth]
  dsimp only
  rw [if_neg (not_not.mpr rfl), show (RawState.world routines frames).svcHead st' = st'.svcHead from
    rfl]
  cases serviceOf msg.rmCall.cbProg msg.rmCall.cbVers st'.svcHead with
  | dispatch d => rfl
  | progvers low high => exact recheck_raw ..
  | noprog => exact recheck_raw ..

theorem svcGetreqRaw_unregistered (h : st.registered = false) :
    RawState.svcGetreqRaw routines frames st = st := by
  have hXports : (RawState.world routines frames).svcXports st = [none] := by
    show [if st.registered then some 0 else none] = _
    rw [h]
    rfl
  rw [RawState.svcGetreqRaw, SvcWorld.svcGetreqCommon, hXports]
  rfl

variable (frames) in
/-- A call is answered by the routine of its program, or by the library. -/
theorem svcGetreqRaw_call {ρ : Type} (h : Sound st) (hServing : st.registered = true)
    {xid prog vers : BitVec 32} {call : RawState.RawCall ρ} {beyond : List UInt8}
    (hBuf : st.rpcRawcombuf = callBytes xid prog vers call.proc call.args.bytes ++ beyond)
    (hSettled : ∀ d, serviceOf prog vers st.svcHead = .dispatch d →
      ((routines d).xdrArgs (Loopback.rqst prog vers call)).Settled call.args.bytes) :
    ∃ buf pos', RawState.svcGetreqRaw routines frames st =
        { st with
          rpcRawcombuf := buf
          svcRawPrivate := some pos'
          app := (Loopback.answerTo routines prog vers call st.loopback).2 } ∧
      buf.length = udpmsgsize ∧ pos'.xPrivate + pos'.xHandy = udpmsgsize ∧
      ∃ stale, buf = (Loopback.answerTo routines prog vers call st.loopback).1.sent.reply
        frames.rmXid ++ stale := by
  obtain ⟨pos, hSvc⟩ := Option.isSome_iff_exists.mp (h.serving hServing)
  obtain ⟨pos₁, hRecv, hAt⟩ := svcRawRecv_call h hSvc frames hBuf
  let msg := callMsgOf frames.callMsg xid prog vers call.proc
  let st₁ : RawState δ ω := { st with svcRawPrivate := some pos₁ }
  have hLength : st₁.rpcRawcombuf.length = udpmsgsize := h.length_eq
  rw [svcGetreqRaw_eq hServing hRecv rfl]
  show ∃ buf pos', st₁.served routines frames msg (serviceOf prog vers st.svcHead) = _ ∧ _
  have hHead : st.loopback.svcHead = st.svcHead := rfl
  rw [Loopback.answerTo, hHead]
  cases hService : serviceOf prog vers st.svcHead with
  | dispatch d =>
      obtain ⟨pos₂, hArgs, hStop⟩ := svcRawGetargs_settled hLength rfl hAt
        (hSettled d hService)
      let r := (routines d).serve (Loopback.rqst prog vers call)
        (((routines d).xdrArgs (Loopback.rqst prog vers call)).of call.args.bytes) st.app
      show ∃ buf pos', RawState.dispatch (routines d) frames msg st₁ = _ ∧ _
      rw [dispatch_eq rfl hArgs]
      let st₂ : RawState δ ω := { st with svcRawPrivate := some pos₂, app := r.2 }
      exact answer_spec (show st₂.rpcRawcombuf.length = udpmsgsize from h.length_eq) rfl hStop
        frames r.1
  | progvers low high =>
      exact answer_spec hLength rfl hAt.ends frames (.progvers low high)
  | noprog => exact answer_spec hLength rfl hAt.ends frames .noprog

end Server

/-! ### The reply -/

/-- What a reply without results is. -/
def Answer.head (xid : BitVec 32) (a : Answer) : List UInt8 :=
  ({ a.msg with rmXid := xid } : ReplyMsg).bytes []

theorem Answer.reply_eq (a : Answer) (xid : BitVec 32) :
    a.reply xid = a.head xid ++ a.resultBytes := by
  cases a <;> simp [reply, head, resultBytes, ReplyMsg.bytes, AcceptedReply.bytes, msg,
    SvcXprt.accepted, OncRpc.success]

section Reply

open ByteStream

variable {init : ReplyMsg} {xid : BitVec 32}

theorem takes_xdrVersions (init vers : Versions) :
    Takes (xdrVersions .decode init) vers vers.bytes :=
  (takes_xdrInteger id id _ _).bind ((takes_xdrInteger id id _ _).bind_pure rfl)

/-- An accepted reply without results, as it is decoded. -/
theorem takes_xdrAcceptedReply (init : AcceptedReply) (stat : BitVec 32) (vers : Versions) :
    Takes (xdrAcceptedReply (fun _ => pure ()) .decode init)
      { arVerf := nullOver init.arVerf, arStat := stat
        arVers := if stat = progMismatch then vers else init.arVers }
      ((SvcXprt.accepted stat vers).acptedRply.bytes []) := by
  have hBytes : nullAuth.bytes = Word.toBytes 0 ++ Word.toBytes 0 := by decide
  have hVerf := takes_nullOver init.arVerf
  rw [← hBytes] at hVerf
  refine hVerf.bind ((takes_xdrInteger id id _ stat).bind ?_)
  show Takes _ _ (if stat = success then [] else if stat = progMismatch then vers.bytes else [])
  simp only [id]
  by_cases hSuccess : stat = success
  · rw [if_pos hSuccess, if_pos hSuccess, if_neg (by rw [hSuccess]; decide)]
    exact Takes.pure _
  · rw [if_neg hSuccess, if_neg hSuccess]
    by_cases hMismatch : stat = progMismatch
    · rw [if_pos hMismatch, if_pos hMismatch, if_pos hMismatch]
      exact (takes_xdrVersions _ vers).bind_pure rfl
    · rw [if_neg hMismatch, if_neg hMismatch, if_neg hMismatch]
      exact Takes.pure _

theorem takes_accepted (init : ReplyMsg) (xid stat : BitVec 32) (vers : Versions) :
    ∃ msg, Takes (xdrReplymsg (fun _ => pure ()) .decode init) msg
        (({ SvcXprt.accepted stat vers with rmXid := xid } : ReplyMsg).bytes []) ∧
      msg.rpStat = msgAccepted ∧ msg.acptedRply.arStat = stat := by
  have hUnion : Takes (xdrUnion (replyDscrm fun _ => pure ()) none .decode
      (init.rpStat, (init.acptedRply, init.rjctedRply))) (msgAccepted, (_, _)) _ :=
    takes_xdrUnion init.rpStat rfl
      ((takes_xdrAcceptedReply init.acptedRply stat vers).bind_pure rfl)
  exact ⟨_, (takes_xdrInteger id id _ xid).bind ((takes_xdrInteger id id _ OncRpc.reply).bind
    (Takes.require rfl (hUnion.bind_pure rfl))), rfl, rfl⟩

theorem takes_denied (init : ReplyMsg) (xid why : BitVec 32) :
    ∃ msg, Takes (xdrReplymsg (fun _ => pure ()) .decode init) msg
        (({ SvcXprt.denied why with rmXid := xid } : ReplyMsg).bytes []) ∧
      msg.rpStat = msgDenied ∧ msg.rjctedRply.rjStat = authError := by
  have hRejected : Takes (xdrRejectedReply .decode init.rjctedRply)
      { init.rjctedRply with rjStat := authError, rjWhy := why }
      (SvcXprt.denied why).rjctedRply.bytes :=
    (takes_xdrInteger id id _ authError).bind ((takes_xdrInteger id id _ why).bind_pure rfl)
  have hUnion : Takes (xdrUnion (replyDscrm fun _ => pure ()) none .decode
      (init.rpStat, (init.acptedRply, init.rjctedRply))) (msgDenied, (_, _)) _ :=
    takes_xdrUnion init.rpStat rfl (hRejected.bind_pure rfl)
  exact ⟨_, (takes_xdrInteger id id _ xid).bind ((takes_xdrInteger id id _ OncRpc.reply).bind
    (Takes.require rfl (hUnion.bind_pure rfl))), rfl, rfl⟩

/-- The head of a reply is decoded into its status, and results follow a success only. -/
theorem Answer.takes_head (init : ReplyMsg) (xid : BitVec 32) (a : Answer) :
    ∃ msg, Takes (xdrReplymsg (fun _ => pure ()) .decode init) msg (a.head xid) ∧
      reStatus (seterrReply msg) = a.status ∧
      ((msg.rpStat = msgAccepted ∧ msg.acptedRply.arStat = OncRpc.success) ↔
        ∃ r, a = sendreply r) := by
  cases a with
  | auth why =>
      obtain ⟨msg, hTakes, hStat, hWhy⟩ := takes_denied init xid why
      refine ⟨msg, hTakes, ?_, ?_⟩
      · simp [seterrReply, hStat, hWhy, msgDenied, msgAccepted, authError, rpcMismatch, status,
          reStatus]
      · simp [hStat, msgDenied, msgAccepted]
  | _ =>
      obtain ⟨msg, hTakes, hStat, hSays⟩ := takes_accepted init xid _ _
      refine ⟨msg, hTakes, ?_, ?_⟩
      · simp [seterrReply, hStat, hSays, msgAccepted, OncRpc.success, progUnavail,
          progMismatch, procUnavail, garbageArgs, systemErr, status, reStatus]
      · simp [hStat, hSays, msgAccepted, OncRpc.success, progUnavail, progMismatch, procUnavail,
          garbageArgs, systemErr]

/-- A reply is decoded into its outcome, whatever stands behind it. -/
theorem received_reply {ρ : Type} {results : GetFilter ρ} {a : Answer}
    (hSettled : ∀ r, a = .sendreply r → results.Settled r.bytes) (stale : List UInt8) :
    RawState.received ((xdrReplyResults (results.get ByteStream) init).run
      (a.reply xid ++ stale)).1 = a.outcome results := by
  obtain ⟨msg, hTakes, hStatus, hSuccess⟩ := a.takes_head init xid
  rw [a.reply_eq, List.append_assoc, xdrReplyResults, Fallible.run_bind, hTakes]
  dsimp only
  by_cases hResults : ∃ r, a = .sendreply r
  · obtain ⟨r, rfl⟩ := hResults
    have hOf := hSettled r rfl stale
    rw [if_pos (hSuccess.mpr ⟨r, rfl⟩), Answer.outcome, ← hOf]
    show RawState.received ((results.get ByteStream >>= fun v => pure (msg, some v)).run
      (r.bytes ++ stale)).1 = _
    rw [Fallible.run_bind]
    rcases (results.get ByteStream).run (r.bytes ++ stale) with ⟨_ | v, t⟩
    · rfl
    · show (reStatus (seterrReply msg), some v) = _
      rw [hStatus]
      rfl
  · rw [if_neg (mt hSuccess.mp hResults)]
    show (reStatus (seterrReply msg), none) = _
    rw [hStatus]
    cases a with
    | sendreply r => exact absurd ⟨r, rfl⟩ hResults
    | _ => rfl

/-- A call is no reply. -/
theorem received_call {ρ : Type} (results : Fallible ByteStream ρ)
    (xid prog vers proc : BitVec 32) (args beyond : List UInt8) :
    ((xdrReplyResults results init).run
      (callBytes xid prog vers proc args ++ beyond)).1 = none := by
  obtain ⟨t, hBytes⟩ : ∃ t, callBytes xid prog vers proc args ++ beyond =
      Word.toBytes xid ++ (Word.toBytes call ++ t) := by
    simp only [callBytes, callhdrBytes, List.flatMap_cons, List.append_assoc]
    exact ⟨_, rfl⟩
  have hXid : (xdrUInt32T .decode init.rmXid : Fallible ByteStream _).run
      (Word.toBytes xid ++ (Word.toBytes call ++ t)) = (some xid, Word.toBytes call ++ t) :=
    takes_xdrInteger id id _ xid _
  have hDirection : (xdrEnum .decode init.rmDirection : Fallible ByteStream _).run
      (Word.toBytes call ++ t) = (some call, t) := takes_xdrInteger id id _ call _
  refine fst_run_bind ?_
  rw [hBytes, xdrReplymsg, run_bind_some hXid, run_bind_some hDirection]
  exact fst_run_bind rfl

end Reply

/-- What a client decodes at the front of the buffer. The buffer and the end of the stream stay. -/
theorem xdrReplyResults_spec {ρ : Type} {buf : List UInt8} {aligned : Bool}
    (hLength : buf.length = udpmsgsize) (results : GetFilter ρ) (init : ReplyMsg) :
    ((xdrReplyResults (results.get XdrMem) init).run (startOf buf aligned)).1 =
        ((xdrReplyResults (results.get ByteStream) init).run buf).1 ∧
      InBuffer buf ((xdrReplyResults (results.get XdrMem) init).run (startOf buf aligned)).2 := by
  have hRefines : Refines (XdrMem.Before buf udpmsgsize) (XdrMem.Before buf udpmsgsize)
      (xdrReplyResults (results.get XdrMem) init)
      (xdrReplyResults (results.get ByteStream) init) := by
    refine (decodes_xdrReplymsg XdrMem.lawful (Refines.pure ()) init).bind fun msg => ?_
    refine Refines.ite ?_ (Refines.pure _)
    exact (results.decodes XdrMem.lawful).bind fun _ => Refines.pure _
  have hStays : Stays (InBuffer buf) (xdrReplyResults (results.get XdrMem) init) := by
    refine ((readsStay_inBuffer buf).xdrReplymsg (Stays.pure ()) init).bind fun msg => ?_
    exact Stays.ite ((results.stays_inBuffer buf).bind fun _ => Stays.pure _) (Stays.pure _)
  exact ⟨(hRefines _ _ (before_startOf hLength)).1, hStays _ ⟨rfl, Nat.zero_add _⟩⟩

/-! ### A call -/

section Call

variable {α δ ρ ω : Type} {st : RawState δ ω} {clp : RawClnt} {prog vers : BitVec 32}

theorem Sound.setClnt (h : Sound st) (hHeads : Heads prog vers clp) {xdrs : XdrMem}
    (hBase : xdrs.base.length = udpmsgsize) (hStop : xdrs.priv + xdrs.handy = udpmsgsize) :
    Sound (st.setClnt clp xdrs) where
  length_eq := hBase
  clnt clp' hClp := by
    obtain rfl := Option.some.inj hClp
    have hTarget : Heads clp.target.1 clp.target.2 clp := by
      rw [hHeads.target_eq]
      exact hHeads
    exact ⟨hStop, hTarget.length_eq, hTarget.mcnt_eq, hTarget.header⟩
  svc := h.svc
  serving := h.serving

theorem Sound.setServer (h : Sound st) {buf : List UInt8} {pos : StreamPos}
    (hBuf : buf.length = udpmsgsize) (hStop : pos.xPrivate + pos.xHandy = udpmsgsize) (app : ω) :
    Sound { st with rpcRawcombuf := buf, svcRawPrivate := some pos, app := app } where
  length_eq := hBuf
  clnt := h.clnt
  svc _ hPos := by
    obtain rfl := Option.some.inj hPos
    exact hStop
  serving _ := rfl

/-- The end of a call. -/
theorem Sound.decode (h : Sound st) (hHeads : Heads prog vers clp) (pos : StreamPos)
    (hStop : pos.xPrivate + pos.xHandy = udpmsgsize) (results : GetFilter ρ) (init : ReplyMsg) :
    ((xdrReplyResults (results.get XdrMem) init).run (st.rewound pos)).1 =
        ((xdrReplyResults (results.get ByteStream) init).run st.rpcRawcombuf).1 ∧
      Sound (st.setClnt clp
        ((xdrReplyResults (results.get XdrMem) init).run (st.rewound pos)).2) := by
  rw [rewound_eq hStop]
  obtain ⟨hAnswer, hBase, hEnds⟩ := xdrReplyResults_spec h.length_eq results init
  refine ⟨hAnswer, h.setClnt hHeads ?_ hEnds⟩
  rw [hBase, h.length_eq]

/-- A call does what it does without the buffer, and leaves the process sound. -/
theorem Sound.clntRawCall (h : Sound st) {routines : δ → Routine α ω} {call : RawState.RawCall ρ}
    (hSettled : Loopback.SettledCall routines call st.loopback) (order : Word.ByteOrder)
    (frames : Frames) :
    (st.clntRawCall routines order frames call).1 = (st.loopback.call routines call).1 ∧
      (st.clntRawCall routines order frames call).2.loopback =
        (st.loopback.call routines call).2 ∧
      Sound (st.clntRawCall routines order frames call).2 := by
  cases hClnt : st.clntrawPrivate with
  | none =>
      have hTarget : st.loopback.target = none := by
        show st.clntrawPrivate.map RawClnt.target = none
        rw [hClnt]
        rfl
      rw [RawState.clntRawCall, hClnt, Loopback.call, hTarget]
      exact ⟨rfl, rfl, h⟩
  | some clp =>
      obtain ⟨hStop, hHeads⟩ := h.clnt clp hClnt
      have hTarget : st.loopback.target = some clp.target := by
        show st.clntrawPrivate.map RawClnt.target = _
        rw [hClnt]
        rfl
      rcases hPair : clp.target with ⟨prog, vers⟩
      rw [hPair] at hHeads hTarget
      have hNext := hHeads.nextXid order
      obtain ⟨xid, hEmits⟩ := emits_putCall hNext call
      -- The xid is not seen without the buffer.
      have hSame (st' : RawState δ ω) (xdrs : XdrMem)
          (hLoop : st'.loopback.target = some (prog, vers)) :
          (st'.setClnt (RawState.nextXid order clp) xdrs).loopback = st'.loopback := by
        show ({ st'.loopback with target := some (RawState.nextXid order clp).target } :
          Loopback δ ω) = _
        rw [hNext.target_eq, ← hLoop]
      rw [RawState.clntRawCall, hClnt, Loopback.call, hTarget]
      dsimp only
      rw [show st.rewound (RawState.nextXid order clp).xdrStream = _ from rewound_eq hStop]
      rcases run_emits hEmits (within_startOf h.length_eq) with
        ⟨hFits, hRun⟩ | ⟨hFull, cs, hLe, hRun⟩
      · have hLe : (callBytes xid prog vers call.proc call.args.bytes).length ≤ udpmsgsize := hFits
        obtain ⟨hBase, hBuf, hEnds⟩ := base_put_startOf (a := st.aligned) h.length_eq hLe
        have hSound := h.setClnt hNext hBuf hEnds
        rw [length_callBytes] at hLe
        rw [hRun, if_pos hLe]
        dsimp only
        cases hServing : st.registered with
        | true =>
            obtain ⟨buf, pos', hServed, hLength, hStop', stale, hReply⟩ := svcGetreqRaw_call
              frames hSound hServing hBase (hSettled prog vers hTarget).1
            rw [hSame st _ hTarget] at hServed hReply
            rw [hServed, show st.loopback.serving = true from hServing, if_pos rfl]
            obtain ⟨hAnswer, hAfter⟩ := (hSound.setServer hLength hStop' _).decode hNext
              { xPrivate := _, xHandy := _ } hEnds call.results frames.skeleton
            refine ⟨?_, ?_, hAfter⟩
            · rw [hAnswer]
              dsimp only
              rw [hReply]
              exact received_reply (fun r hSent => (hSettled prog vers hTarget).2 r _
                (Prod.ext (Answer.eq_of_sent hSent) rfl)) stale
            · have hMade : st.loopback.made = true := h.serving hServing
              show ({ target := some (RawState.nextXid order clp).target, made := true,
                      serving := st.registered, svcHead := st.svcHead, app := _ } :
                Loopback δ ω) = _
              rw [hNext.target_eq, hServing, hMade]
              rfl
        | false =>
            obtain ⟨hAnswer, hAfter⟩ := hSound.decode hNext { xPrivate := _, xHandy := _ }
              hEnds call.results frames.skeleton
            rw [show st.loopback.serving = false from hServing, if_neg Bool.false_ne_true,
              svcGetreqRaw_unregistered (show (st.setClnt _ _).registered = false from hServing)]
            refine ⟨?_, ?_, hAfter⟩
            · rw [hAnswer]
              show (RawState.received ((xdrReplyResults _ _).run ((startOf _ _).put _).base).1) = _
              rw [hBase, received_call]
              rfl
            · have hPut := hSame st ((startOf st.rpcRawcombuf st.aligned).put
                (callBytes xid prog vers call.proc call.args.bytes)) hTarget
              exact (hSame _ _ ((congrArg Loopback.target hPut).trans hTarget)).trans hPut
      · obtain ⟨-, hBuf, hEnds⟩ := base_put_startOf (a := st.aligned) h.length_eq hLe
        have hLong : ¬ 40 + call.args.bytes.length ≤ udpmsgsize := by
          rw [← length_callBytes xid prog vers call.proc]
          exact hFull
        rw [hRun, if_neg hLong]
        exact ⟨rfl, hSame st _ hTarget, h.setClnt hNext hBuf hEnds⟩

end Call

/-! ### What is created -/

section Create

variable {δ ω : Type} {st : RawState δ ω}

theorem heads_xdrCallhdr {callmsg : List UInt8} (h : callmsg.length = mcallMsgSize)
    (pos : StreamPos) (xid prog vers : BitVec 32) {xdrs : XdrMem}
    (hRun : xdrs = ((xdrCallhdr xid prog vers).run
      (XdrMem.xdrmemCreate callmsg mcallMsgSize true)).2) :
    Heads prog vers { xdrStream := pos, mashlCallmsg := xdrs.base, mcnt := xdrs.priv } := by
  have hHeader : (callhdrBytes xid prog vers).length = 20 := by
    simp [callhdrBytes, Word.length_toBytes]
  have hWithin : (XdrMem.xdrmemCreate callmsg mcallMsgSize true).Within := by
    show 0 + mcallMsgSize ≤ callmsg.length
    omega
  have hPut : xdrs = (XdrMem.xdrmemCreate callmsg mcallMsgSize true).put
      (callhdrBytes xid prog vers) := by
    rcases run_emits (emits_xdrCallhdr xid prog vers) hWithin with ⟨-, hPut⟩ | ⟨hFull, -⟩
    · rw [hRun, hPut]
    · refine absurd ?_ hFull
      rw [hHeader]
      exact (by decide : 20 ≤ mcallMsgSize)
  have hBase : xdrs.base = callhdrBytes xid prog vers ++ callmsg.drop 20 := by
    rw [hPut]
    simp [XdrMem.put, XdrMem.xdrmemCreate, writeAt, hHeader]
  refine ⟨?_, ?_, xid, ?_⟩
  · show xdrs.base.length = mcallMsgSize
    rw [hBase, List.length_append, List.length_drop, hHeader, h]
    rfl
  · show xdrs.priv = 20
    rw [hPut, XdrMem.priv_put, hHeader]
    rfl
  · show xdrs.base.take 20 = _
    rw [hBase, List.take_left' hHeader]

theorem Sound.svcRawCreate (h : Sound st) (mem : Bool) : Sound (st.svcRawCreate mem) := by
  unfold RawState.svcRawCreate
  split
  · exact h
  · refine ⟨h.length_eq, h.clnt, fun pos hPos => ?_, fun _ => rfl⟩
    obtain rfl := Option.some.inj hPos
    exact Nat.zero_add _

theorem loopback_svcRawCreate (st : RawState δ ω) (mem : Bool) :
    (st.svcRawCreate mem).loopback =
      if (!st.loopback.made) ∧ mem = false then st.loopback
      else { st.loopback with made := true, serving := true } := by
  have hMade : (!st.loopback.made) = st.svcRawPrivate.isNone := Option.not_isSome _
  rw [RawState.svcRawCreate, hMade]
  split <;> rfl

theorem Sound.clntRawCreate (h : Sound st) (mem : Bool) (xid prog vers : BitVec 32) :
    (st.clntRawCreate mem xid prog vers).loopback =
        (if st.loopback.target.isNone ∧ mem = false then st.loopback
        else { st.loopback with target := some (prog, vers) }) ∧
      Sound (st.clntRawCreate mem xid prog vers) := by
  have hNone : st.loopback.target.isNone = st.clntrawPrivate.isNone := Option.isNone_map
  rw [RawState.clntRawCreate, hNone]
  split
  · exact ⟨rfl, h⟩
  · have hLength : ((st.clntrawPrivate.map RawClnt.mashlCallmsg).getD
        (List.replicate mcallMsgSize 0)).length = mcallMsgSize := by
      cases hClnt : st.clntrawPrivate with
      | none => exact List.length_replicate
      | some clp => exact (h.clnt clp hClnt).2.length_eq
    have hHeads := heads_xdrCallhdr hLength { xPrivate := 0, xHandy := udpmsgsize } xid prog vers
      rfl
    refine ⟨?_, h.length_eq, fun clp hClp => ?_, h.svc, h.serving⟩
    · show ({ st.loopback with target := some (RawClnt.target _) } : Loopback δ ω) = _
      rw [hHeads.target_eq]
    · obtain rfl := Option.some.inj hClp
      refine ⟨Nat.zero_add _, ?_⟩
      rw [hHeads.target_eq]
      exact hHeads

theorem sound_start {buf : List UInt8} (hLength : buf.length = udpmsgsize) (aligned : Bool)
    (app : ω) : Sound (RawState.start buf aligned app : RawState δ ω) where
  length_eq := hLength
  clnt _ hClnt := by cases hClnt
  svc _ hPos := by cases hPos
  serving hServing := by cases hServing

end Create

/-! ### Runs -/

section Runs

variable {α δ ρ ω : Type} [DecidableEq δ]

/-- What happens in the process, without its buffer. -/
def Loopback.step (routines : δ → Routine α ω) (l : Loopback δ ω) :
    RawState.RawOp δ ρ → Option (ClntStat × Option ρ) × Loopback δ ω
  | .svcRawCreate mem =>
      (none, if (!l.made) ∧ mem = false then l else { l with made := true, serving := true })
  | .clntRawCreate mem _ prog vers =>
      (none, if l.target.isNone ∧ mem = false then l else { l with target := some (prog, vers) })
  | .callout c => (none, { l with svcHead := CalloutCall.step l.svcHead c })
  | .call _ call =>
      let r := l.call routines call
      (some r.1, r.2)

/-- The filters of every call are settled. -/
def Loopback.Settles (routines : δ → Routine α ω) (l : Loopback δ ω) (op : RawState.RawOp δ ρ) :
    Prop :=
  ∀ frames call, op = .call frames call → l.SettledCall routines call

theorem Sound.step {st : RawState δ ω} (h : Sound st) {routines : δ → Routine α ω}
    {op : RawState.RawOp δ ρ} (hSettles : st.loopback.Settles routines op)
    (order : Word.ByteOrder) :
    (st.step routines order op).1 = (st.loopback.step routines op).1 ∧
      (st.step routines order op).2.loopback = (st.loopback.step routines op).2 ∧
      Sound (st.step routines order op).2 := by
  cases op with
  | svcRawCreate mem => exact ⟨rfl, loopback_svcRawCreate st mem, h.svcRawCreate mem⟩
  | clntRawCreate mem xid prog vers => exact ⟨rfl, h.clntRawCreate mem xid prog vers⟩
  | callout c => exact ⟨rfl, rfl, h.length_eq, h.clnt, h.svc, h.serving⟩
  | call frames call =>
      obtain ⟨hAnswer, hView, hSound⟩ := h.clntRawCall (hSettles frames call rfl) order frames
      refine ⟨?_, hView, hSound⟩
      show some _ = some _
      rw [hAnswer]

/-- A process with nothing in it. -/
def Loopback.start (app : ω) : Loopback δ ω where
  target := none
  made := false
  serving := false
  svcHead := []
  app := app

end Runs

/-! ### Words -/

/-- `xdr_u_int32_t`, of a word. -/
def PutFilter.word (w : BitVec 32) : PutFilter where
  put := fun _ _ => do
    let _ ← xdrUInt32T .encode w
    pure ()
  bytes := Word.toBytes w
  emits := fun _ => (emits_xdrInteger id id w).bind_pure rfl

def GetFilter.word : GetFilter (BitVec 32) where
  get := fun _ _ => xdrUInt32T .decode 0
  decodes h := decodes_xdrInteger h id id 0
  stays block aligned stop := (XdrMem.readsStay block aligned stop).xdrInteger id id 0

theorem settled_word (w : BitVec 32) : GetFilter.word.Settled (PutFilter.word w).bytes := by
  intro beyond
  have hRun (t : List UInt8) :
      ((xdrUInt32T .decode 0 : Fallible ByteStream _).run (Word.toBytes w ++ t)).1 = some w := by
    rw [show (xdrUInt32T .decode 0 : Fallible ByteStream _).run (Word.toBytes w ++ t) = (some w, t)
      from takes_xdrInteger id id 0 w t]
  have hOf := hRun []
  rw [List.append_nil] at hOf
  exact (hRun beyond).trans hOf.symm

/-- A routine that adds one, and counts its calls. -/
def successor : Routine (BitVec 32) Nat where
  xdrArgs _ := GetFilter.word
  serve _ args served := (.sendreply (.word (args.getD 0 + 1)), served + 1)

theorem settledCall_successor (proc w : BitVec 32) (l : Loopback Unit Nat) :
    l.SettledCall (fun _ => successor)
      { proc := proc, args := .word w, results := GetFilter.word } := by
  intro prog vers _
  refine ⟨fun _ _ => settled_word w, fun results app hAnswer => ?_⟩
  unfold Loopback.answerTo at hAnswer
  cases hService : serviceOf prog vers l.svcHead with
  | dispatch d =>
      rw [hService] at hAnswer
      cases hAnswer
      exact settled_word _
  | progvers low high =>
      rw [hService] at hAnswer
      cases hAnswer
  | noprog =>
      rw [hService] at hAnswer
      cases hAnswer

/-- Two calls, of which the second one is for a version that nobody serves. -/
def successorOps (frames : Frames) : List (RawState.RawOp Unit (BitVec 32)) :=
  [.svcRawCreate true, .clntRawCreate true 7 100 2,
   .callout (.reg { prog := 100, vers := 2, dispatch := (), xpNetid := none, nconf := none
                    rpcgettp := none, netidDup := true, xprtDup := true, alloc := true
                    rpcbSet := true }),
   .call frames { proc := 1, args := .word 5, results := .word },
   .clntRawCreate true 0 100 3,
   .call frames { proc := 1, args := .word 5, results := .word }]

/-- What the stack may hold. -/
def staleFrames : Frames where
  callMsg := { rmXid := 3, rmDirection := 5, rmCall :=
    { cbRpcvers := 0, cbProg := 1, cbVers := 1, cbProc := 1, cbCred := nullAuth
      cbVerf := nullAuth } }
  rmXid := 9
  replyMsg := SvcXprt.denied 7

end OncRpc.Raw
