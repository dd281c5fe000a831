import OncRpc.Rpc.CallMsg
import OncRpc.Xdr.Mem
import OncRpc.Xdr.Sink

/-! `xdr_callhdr`, and `xdr_replymsg`: the header of a reply, and what `_seterr_reply` makes of
it. -/
namespace OncRpc

open XdrOps Fallible

/-- `xdr_callhdr` in the direction `XDR_ENCODE`. -/
def xdrCallhdr {σ : Type} [XdrOps σ] (xid prog vers : BitVec 32) : Fallible σ Unit := do
  let _ ← xdrUInt32T .encode xid
  let _ ← xdrEnum .encode call
  let _ ← xdrUInt32T .encode rpcMsgVersion
  let _ ← xdrUInt32T .encode prog
  let _ ← xdrUInt32T .encode vers
  pure ()

/-- The bytes of `xdr_callhdr`. -/
def callhdrBytes (xid prog vers : BitVec 32) : List UInt8 :=
  [xid, call, rpcMsgVersion, prog, vers].flatMap Word.toBytes

/-- `REPLY` of `enum msg_type`. -/
def reply : BitVec 32 := 1

/-- `enum reply_stat`. -/
def msgAccepted : BitVec 32 := 0
def msgDenied : BitVec 32 := 1

/-- `enum accept_stat`. -/
def success : BitVec 32 := 0
def progUnavail : BitVec 32 := 1
def progMismatch : BitVec 32 := 2
def procUnavail : BitVec 32 := 3
def garbageArgs : BitVec 32 := 4
def systemErr : BitVec 32 := 5

/-- `enum reject_stat`. -/
def rpcMismatch : BitVec 32 := 0
def authError : BitVec 32 := 1

/-- The lowest and the highest version that there is. -/
structure Versions where
  low : BitVec 32
  high : BitVec 32
  deriving DecidableEq, Repr

/-- `struct accepted_reply`, but for its results. -/
structure AcceptedReply where
  arVerf : OpaqueAuth
  arStat : BitVec 32
  arVers : Versions
  deriving DecidableEq, Repr

/-- `struct rejected_reply`. -/
structure RejectedReply where
  rjStat : BitVec 32
  rjVers : Versions
  rjWhy : BitVec 32
  deriving DecidableEq, Repr

/-- `struct rpc_msg` as a reply uses it. -/
structure ReplyMsg where
  rmXid : BitVec 32
  rmDirection : BitVec 32
  rpStat : BitVec 32
  acptedRply : AcceptedReply
  rjctedRply : RejectedReply
  deriving DecidableEq, Repr

/-- `_null_auth`. -/
def nullAuth : OpaqueAuth := { oaFlavor := 0, oaBase := none, oaLength := 0 }

section Routine

variable {σ : Type} [XdrOps σ]

def xdrVersions : XdrProc σ Versions := fun op vers => do
  let low ← xdrUInt32T op vers.low
  let high ← xdrUInt32T op vers.high
  pure { low := low, high := high }

/-- `xdr_accepted_reply`, where `results` is `ar_results.proc` with its argument. -/
def xdrAcceptedReply (results : XdrOp → Fallible σ Unit) : XdrProc σ AcceptedReply := fun op ar => do
  let verf ← xdrOpaqueAuth op ar.arVerf
  let stat ← xdrEnum op ar.arStat
  if stat = success then do
    results op
    pure { ar with arVerf := verf, arStat := stat }
  else if stat = progMismatch then do
    let vers ← xdrVersions op ar.arVers
    pure { arVerf := verf, arStat := stat, arVers := vers }
  else pure { ar with arVerf := verf, arStat := stat }

/-- `xdr_rejected_reply`. -/
def xdrRejectedReply : XdrProc σ RejectedReply := fun op rr => do
  let stat ← xdrEnum op rr.rjStat
  if stat = rpcMismatch then do
    let vers ← xdrVersions op rr.rjVers
    pure { rr with rjStat := stat, rjVers := vers }
  else if stat = authError then do
    let why ← xdrEnum op rr.rjWhy
    pure { rr with rjStat := stat, rjWhy := why }
  else fail

/-- `reply_dscrm`, over the two members of the union. -/
def replyDscrm (results : XdrOp → Fallible σ Unit) :
    List (BitVec 32 × XdrProc σ (AcceptedReply × RejectedReply)) :=
  [(msgAccepted, fun op ru => do
      let ar ← xdrAcceptedReply results op ru.1
      pure (ar, ru.2)),
   (msgDenied, fun op ru => do
      let rr ← xdrRejectedReply op ru.2
      pure (ru.1, rr))]

/-- `xdr_replymsg`. -/
def xdrReplymsg (results : XdrOp → Fallible σ Unit) : XdrProc σ ReplyMsg := fun op rmsg => do
  let xid ← xdrUInt32T op rmsg.rmXid
  let direction ← xdrEnum op rmsg.rmDirection
  require (direction = reply)
  let (stat, ru) ← xdrUnion (replyDscrm results) none op
    (rmsg.rpStat, (rmsg.acptedRply, rmsg.rjctedRply))
  pure { rmXid := xid, rmDirection := direction, rpStat := stat
         acptedRply := ru.1, rjctedRply := ru.2 }

end Routine

/-- `struct rpc_err` as `_seterr_reply` fills it in, by its `re_status`. -/
inductive RpcErr where
  | success
  | progUnavail
  | progVersMismatch (vers : Versions)
  | procUnavail
  | cantDecodeArgs
  | systemError
  | versMismatch (vers : Versions)
  | authError (why : BitVec 32)
  | failed (s1 : BitVec 32) (s2 : Option (BitVec 32))
  deriving DecidableEq, Repr

/-- `_seterr_reply`, with `accepted` and `rejected`. -/
def seterrReply (msg : ReplyMsg) : RpcErr :=
  if msg.rpStat = msgAccepted then
    let stat := msg.acptedRply.arStat
    if stat = success then .success
    else if stat = progUnavail then .progUnavail
    else if stat = progMismatch then .progVersMismatch msg.acptedRply.arVers
    else if stat = procUnavail then .procUnavail
    else if stat = garbageArgs then .cantDecodeArgs
    else if stat = systemErr then .systemError
    else .failed msgAccepted (some stat)
  else if msg.rpStat = msgDenied then
    let stat := msg.rjctedRply.rjStat
    if stat = rpcMismatch then .versMismatch msg.rjctedRply.rjVers
    else if stat = authError then .authError msg.rjctedRply.rjWhy
    else .failed msgDenied (some stat)
  else .failed msg.rpStat none

/-! ### Decoding a reply -/

section Decode

variable {σ : Type} [XdrOps σ]

theorem ReadsStay.xdrOpaqueAuth {P : σ → Prop} (h : ReadsStay P) (ap : OpaqueAuth) :
    Stays P (xdrOpaqueAuth .decode ap) :=
  (h.xdrInteger id id _).bind fun _ => (h.xdrBytes _ _).bind fun _ => Stays.pure _

/-- A reply that is decoded has the xid that stands at its front. -/
theorem rmXid_xdrReplymsg {results : XdrOp → Fallible σ Unit} {op : XdrOp} {init msg : ReplyMsg}
    {s s' : σ} (h : (xdrReplymsg results op init).run s = (some msg, s')) :
    ((xdrUInt32T op init.rmXid).run s).1 = some msg.rmXid := by
  obtain ⟨xid, s₁, hXid, h⟩ := exists_of_run_bind h
  obtain ⟨direction, s₂, -, h⟩ := exists_of_run_bind h
  obtain ⟨-, s₃, -, h⟩ := exists_of_run_bind h
  obtain ⟨⟨stat, ru⟩, s₄, -, h⟩ := exists_of_run_bind h
  cases h
  rw [hXid]

/-- An arm of the reply union, or the failure where there is none. -/
def replyArm (results : XdrOp → Fallible σ Unit) (stat : BitVec 32) :
    XdrProc σ (AcceptedReply × RejectedReply) := fun op ru =>
  if stat = msgAccepted then do
    let ar ← xdrAcceptedReply results op ru.1
    pure (ar, ru.2)
  else if stat = msgDenied then do
    let rr ← xdrRejectedReply op ru.2
    pure (ru.1, rr)
  else fail

theorem xdrUnion_replyDscrm (results : XdrOp → Fallible σ Unit) (op : XdrOp)
    (obj : BitVec 32 × AcceptedReply × RejectedReply) :
    xdrUnion (replyDscrm results) none op obj =
      xdrEnum op obj.1 >>= fun stat =>
        replyArm results stat op obj.2 >>= fun ru => pure (stat, ru) := by
  refine congrArg (xdrEnum op obj.1 >>= ·) (funext fun stat => ?_)
  by_cases hAccepted : stat = msgAccepted
  · subst hAccepted
    rfl
  · by_cases hDenied : stat = msgDenied
    · subst hDenied
      rfl
    · have hNone : unionArm (replyDscrm results) none stat = none := by
        simp only [replyDscrm, unionArm_cons, if_neg (Ne.symm hAccepted),
          if_neg (Ne.symm hDenied)]
        rfl
      simp only [hNone, replyArm, if_neg hAccepted, if_neg hDenied]
      rfl

/-- What a caller looks at in a reply. -/
def ReplyMsg.says (msg : ReplyMsg) : BitVec 32 × RpcErr × OpaqueAuth :=
  (msg.rmXid, seterrReply msg, msg.acptedRply.arVerf)

theorem alike_xdrAcceptedReply {α : Type} (results : Fallible σ Unit) {f : AcceptedReply → α}
    {ar ar' : AcceptedReply} (hVerf : ar.arVerf = ar'.arVerf)
    (hf : ∀ verf stat vers vers', (stat = progMismatch → vers = vers') →
      f { arVerf := verf, arStat := stat, arVers := vers } =
        f { arVerf := verf, arStat := stat, arVers := vers' }) :
    Alike f (xdrAcceptedReply (fun _ => results) .decode ar)
      (xdrAcceptedReply (fun _ => results) .decode ar') := by
  unfold xdrAcceptedReply
  rw [hVerf]
  refine Alike.bind_same _ fun verf => Alike.bind_same _ fun stat => ?_
  by_cases hSuccess : stat = success
  · rw [if_pos hSuccess, if_pos hSuccess]
    refine Alike.bind_same _ fun _ => Alike.pure (hf _ _ _ _ ?_)
    rintro rfl
    cases hSuccess
  · rw [if_neg hSuccess, if_neg hSuccess]
    by_cases hMismatch : stat = progMismatch
    · rw [if_pos hMismatch, if_pos hMismatch]
      exact Alike.bind_same _ fun vers => Alike.pure rfl
    · rw [if_neg hMismatch, if_neg hMismatch]
      exact Alike.pure (hf _ _ _ _ fun h => absurd h hMismatch)

theorem alike_xdrRejectedReply {α : Type} {f : RejectedReply → α} (rr rr' : RejectedReply)
    (hf : ∀ stat vers vers' why why', (stat = rpcMismatch → vers = vers') →
      (stat = authError → why = why') → f { rjStat := stat, rjVers := vers, rjWhy := why } =
        f { rjStat := stat, rjVers := vers', rjWhy := why' }) :
    Alike f (xdrRejectedReply .decode rr : Fallible σ _) (xdrRejectedReply .decode rr') := by
  unfold xdrRejectedReply
  refine Alike.bind_same _ fun stat => ?_
  by_cases hMismatch : stat = rpcMismatch
  · rw [if_pos hMismatch, if_pos hMismatch]
    refine Alike.bind_same _ fun vers => Alike.pure (hf _ _ _ _ _ (fun _ => rfl) ?_)
    rintro rfl
    cases hMismatch
  · rw [if_neg hMismatch, if_neg hMismatch]
    by_cases hAuth : stat = authError
    · rw [if_pos hAuth, if_pos hAuth]
      refine Alike.bind_same _ fun why => Alike.pure (hf _ _ _ _ _ ?_ fun _ => rfl)
      exact fun h => absurd h hMismatch
    · rw [if_neg hAuth, if_neg hAuth]
      exact Alike.refl _ _

/-- What stood in the message before is not seen in it, as long as the verifier is the same. -/
theorem alike_xdrReplymsg (results : Fallible σ Unit) {init init' : ReplyMsg}
    (hVerf : init.acptedRply.arVerf = init'.acptedRply.arVerf) :
    Alike ReplyMsg.says (xdrReplymsg (fun _ => results) .decode init)
      (xdrReplymsg (fun _ => results) .decode init') := by
  unfold xdrReplymsg
  refine Alike.bind_same _ fun xid => Alike.bind_same _ fun direction => ?_
  refine Alike.bind_same _ fun _ => ?_
  rw [xdrUnion_replyDscrm, xdrUnion_replyDscrm, bind_assoc, bind_assoc]
  refine Alike.bind_same _ fun stat => ?_
  rw [bind_assoc, bind_assoc]
  let f (ru : AcceptedReply × RejectedReply) : BitVec 32 × RpcErr × OpaqueAuth :=
    ReplyMsg.says { rmXid := xid, rmDirection := direction, rpStat := stat
                    acptedRply := ru.1, rjctedRply := ru.2 }
  refine Alike.bind (f := f) ?_ fun ru ru' h => Alike.pure h
  unfold replyArm
  by_cases hAccepted : stat = msgAccepted
  · rw [if_pos hAccepted, if_pos hAccepted]
    subst hAccepted
    refine Alike.bind (alike_xdrAcceptedReply results (f := fun ar => f (ar, init.rjctedRply))
      hVerf fun verf stat vers vers' hVers => ?_) fun ar ar' h => Alike.pure h
    by_cases hMismatch : stat = progMismatch
    · rw [hVers hMismatch]
    · simp [f, ReplyMsg.says, seterrReply, hMismatch]
  · rw [if_neg hAccepted, if_neg hAccepted]
    by_cases hDenied : stat = msgDenied
    · rw [if_pos hDenied, if_pos hDenied]
      subst hDenied
      refine Alike.bind (alike_xdrRejectedReply init.rjctedRply init'.rjctedRply
        (f := fun rr => f (init.acptedRply, rr)) fun stat vers vers' why why' hVers hWhy => ?_)
        fun rr rr' h => Alike.pure (h.trans ?_)
      · by_cases hMismatch : stat = rpcMismatch
        · subst hMismatch
          rw [hVers rfl]
          simp [f, ReplyMsg.says, seterrReply, hAccepted]
        · by_cases hAuth : stat = authError
          · rw [hWhy hAuth]
            simp [f, ReplyMsg.says, seterrReply, hAccepted, hMismatch]
          · simp [f, ReplyMsg.says, seterrReply, hAccepted, hMismatch, hAuth]
      · simp [f, ReplyMsg.says, seterrReply, hAccepted, hVerf]
    · rw [if_neg hDenied, if_neg hDenied]
      exact fun s => ⟨rfl, rfl⟩

section Lawful

variable {R : σ → List UInt8 → Prop} (h : LawfulReader R) {results : Fallible σ Unit}
  {results' : Fallible ByteStream Unit}
include h

theorem decodes_xdrVersions : DecodesAs R xdrVersions xdrVersions := fun _ =>
  (decodes_xdrInteger h id id _).bind fun _ =>
    (decodes_xdrInteger h id id _).bind fun _ => Refines.pure _

theorem decodes_xdrAcceptedReply (hResults : Refines R R results results') :
    DecodesAs R (xdrAcceptedReply fun _ => results) (xdrAcceptedReply fun _ => results') := by
  intro ar
  refine (decodes_xdrOpaqueAuth h _).bind fun verf => ?_
  refine (decodes_xdrInteger h id id _).bind fun stat => ?_
  refine Refines.ite (hResults.bind fun _ => Refines.pure _) ?_
  exact Refines.ite ((decodes_xdrVersions h _).bind fun vers => Refines.pure _) (Refines.pure _)

theorem decodes_xdrRejectedReply : DecodesAs R xdrRejectedReply xdrRejectedReply := by
  intro rr
  refine (decodes_xdrInteger h id id _).bind fun stat => ?_
  refine Refines.ite ((decodes_xdrVersions h _).bind fun vers => Refines.pure _) ?_
  refine Refines.ite ?_ Refines.fail
  exact (decodes_xdrInteger h id id _).bind fun why => Refines.pure _

theorem decodes_replyArm (hResults : Refines R R results results') (stat : BitVec 32) :
    DecodesAs R (replyArm (fun _ => results) stat) (replyArm (fun _ => results') stat) := by
  intro ru
  refine Refines.ite ?_ (Refines.ite ?_ Refines.fail)
  · exact (decodes_xdrAcceptedReply h hResults _).bind fun ar => Refines.pure _
  · exact (decodes_xdrRejectedReply h _).bind fun rr => Refines.pure _

theorem decodes_xdrReplymsg (hResults : Refines R R results results') :
    DecodesAs R (xdrReplymsg fun _ => results) (xdrReplymsg fun _ => results') := by
  intro msg
  refine (decodes_xdrInteger h id id _).bind fun xid => ?_
  refine (decodes_xdrInteger h id id _).bind fun direction => (Refines.require _).bind fun _ => ?_
  rw [xdrUnion_replyDscrm, xdrUnion_replyDscrm]
  refine Refines.bind ?_ fun _ => Refines.pure _
  refine (decodes_xdrInteger h id id _).bind fun stat => ?_
  exact (decodes_replyArm h hResults stat _).bind fun ru => Refines.pure _

end Lawful

section Stay

variable {P : σ → Prop} (h : ReadsStay P) {results : Fallible σ Unit}
include h

theorem ReadsStay.xdrVersions (vers : Versions) : Stays P (xdrVersions .decode vers) :=
  (h.xdrInteger id id _).bind fun _ => (h.xdrInteger id id _).bind fun _ => Stays.pure _

theorem ReadsStay.xdrAcceptedReply (hResults : Stays P results) (ar : AcceptedReply) :
    Stays P (xdrAcceptedReply (fun _ => results) .decode ar) := by
  refine (h.xdrOpaqueAuth _).bind fun verf => (h.xdrInteger id id _).bind fun stat => ?_
  refine Stays.ite (hResults.bind fun _ => Stays.pure _) (Stays.ite ?_ (Stays.pure _))
  exact (h.xdrVersions _).bind fun vers => Stays.pure _

theorem ReadsStay.xdrRejectedReply (rr : RejectedReply) :
    Stays P (xdrRejectedReply .decode rr) := by
  refine (h.xdrInteger id id _).bind fun stat => Stays.ite ?_ (Stays.ite ?_ Stays.fail)
  · exact (h.xdrVersions _).bind fun vers => Stays.pure _
  · exact (h.xdrInteger id id _).bind fun why => Stays.pure _

theorem ReadsStay.xdrReplymsg (hResults : Stays P results) (msg : ReplyMsg) :
    Stays P (xdrReplymsg (fun _ => results) .decode msg) := by
  refine (h.xdrInteger id id _).bind fun xid => (h.xdrInteger id id _).bind fun direction => ?_
  refine (Stays.require _).bind fun _ => ?_
  rw [xdrUnion_replyDscrm]
  refine Stays.bind ?_ fun _ => Stays.pure _
  refine (h.xdrInteger id id _).bind fun stat => Stays.bind ?_ fun ru => Stays.pure _
  refine Stays.ite ?_ (Stays.ite ?_ Stays.fail)
  · exact (h.xdrAcceptedReply hResults _).bind fun ar => Stays.pure _
  · exact (h.xdrRejectedReply _).bind fun rr => Stays.pure _

end Stay

end Decode

/-! ### The bytes of a reply -/

/-- The body is in its area, and is let through. -/
structure OpaqueAuth.Fits (ap : OpaqueAuth) : Prop where
  length_le : ap.oaLength.toNat ≤ maxAuthBytes
  within : ap.oaLength.toNat ≤ (ap.oaBase.getD []).length

def OpaqueAuth.bytes (ap : OpaqueAuth) : List UInt8 :=
  Word.toBytes ap.oaFlavor ++ (Word.toBytes ap.oaLength ++
    padded ((ap.oaBase.getD []).take ap.oaLength.toNat))

def Versions.bytes (vers : Versions) : List UInt8 :=
  Word.toBytes vers.low ++ Word.toBytes vers.high

def AcceptedReply.bytes (results : List UInt8) (ar : AcceptedReply) : List UInt8 :=
  ar.arVerf.bytes ++ (Word.toBytes ar.arStat ++
    if ar.arStat = success then results
    else if ar.arStat = progMismatch then ar.arVers.bytes
    else [])

def RejectedReply.bytes (rr : RejectedReply) : List UInt8 :=
  Word.toBytes rr.rjStat ++ if rr.rjStat = rpcMismatch then rr.rjVers.bytes else Word.toBytes rr.rjWhy

/-- A reply as it is put, with its results. -/
def ReplyMsg.bytes (results : List UInt8) (msg : ReplyMsg) : List UInt8 :=
  Word.toBytes msg.rmXid ++ (Word.toBytes msg.rmDirection ++ (Word.toBytes msg.rpStat ++
    if msg.rpStat = msgAccepted then msg.acptedRply.bytes results else msg.rjctedRply.bytes))

/-- A reply that can be encoded when its results can. -/
structure ReplyMsg.Sendable (msg : ReplyMsg) : Prop where
  direction : msg.rmDirection = reply
  arm : msg.rpStat = msgAccepted ∧ msg.acptedRply.arVerf.Fits ∨
    msg.rpStat = msgDenied ∧ (msg.rjctedRply.rjStat = rpcMismatch ∨ msg.rjctedRply.rjStat = authError)

section Emits

variable {σ : Type} [XdrOps σ] [XdrSink σ] {results : XdrOp → Fallible σ Unit} {bs : List UInt8}

theorem emits_xdrCallhdr (xid prog vers : BitVec 32) :
    Emits (xdrCallhdr xid prog vers : Fallible σ _) () (callhdrBytes xid prog vers) := by
  refine (emits_xdrInteger id id _).bind ((emits_xdrInteger id id _).bind ?_)
  refine (emits_xdrInteger id id _).bind ((emits_xdrInteger id id _).bind ?_)
  exact (emits_xdrInteger id id _).bind (Emits.pure ())

theorem emits_xdrOpaqueAuth {ap : OpaqueAuth} (h : ap.Fits) :
    Emits (xdrOpaqueAuth .encode ap : Fallible σ _) ap ap.bytes :=
  (emits_xdrInteger id id _).bind <|
    (emits_xdrBytes maxAuthBytes ap.oaBase ap.oaLength h.length_le h.within).bind_pure rfl

theorem emits_xdrVersions (vers : Versions) :
    Emits (xdrVersions .encode vers : Fallible σ _) vers vers.bytes :=
  (emits_xdrInteger id id _).bind <| (emits_xdrInteger id id _).bind_pure rfl

theorem emits_xdrAcceptedReply {ar : AcceptedReply} (h : ar.arVerf.Fits)
    (hResults : Emits (results .encode) () bs) :
    Emits (xdrAcceptedReply results .encode ar) ar (ar.bytes bs) := by
  refine (emits_xdrOpaqueAuth h).bind ((emits_xdrInteger id id _).bind ?_)
  by_cases hSuccess : ar.arStat = success
  · rw [if_pos hSuccess, if_pos hSuccess]
    exact hResults.bind_pure rfl
  · rw [if_neg hSuccess, if_neg hSuccess]
    by_cases hMismatch : ar.arStat = progMismatch
    · rw [if_pos hMismatch, if_pos hMismatch]
      exact (emits_xdrVersions _).bind_pure rfl
    · rw [if_neg hMismatch, if_neg hMismatch]
      exact Emits.pure _

theorem emits_xdrRejectedReply {rr : RejectedReply}
    (h : rr.rjStat = rpcMismatch ∨ rr.rjStat = authError) :
    Emits (xdrRejectedReply .encode rr : Fallible σ _) rr rr.bytes := by
  refine (emits_xdrInteger id id _).bind ?_
  by_cases hMismatch : rr.rjStat = rpcMismatch
  · rw [if_pos hMismatch, if_pos hMismatch]
    exact (emits_xdrVersions _).bind_pure rfl
  · rw [if_neg hMismatch, if_neg hMismatch, if_pos (h.resolve_left hMismatch)]
    exact (emits_xdrInteger id id _).bind_pure rfl

theorem emits_xdrReplymsg {msg : ReplyMsg} (h : msg.Sendable)
    (hResults : Emits (results .encode) () bs) :
    Emits (xdrReplymsg results .encode msg) msg (msg.bytes bs) := by
  have hUnion : Emits (xdrUnion (replyDscrm results) none .encode
      (msg.rpStat, (msg.acptedRply, msg.rjctedRply)))
      (msg.rpStat, (msg.acptedRply, msg.rjctedRply))
      (Word.toBytes msg.rpStat ++
        if msg.rpStat = msgAccepted then msg.acptedRply.bytes bs else msg.rjctedRply.bytes) := by
    rcases h.arm with ⟨hStat, hVerf⟩ | ⟨hStat, hWhy⟩
    · rw [if_pos hStat]
      refine emits_xdrUnion (by rw [hStat]; rfl) ?_
      exact (emits_xdrAcceptedReply hVerf hResults).bind_pure rfl
    · have hDenied : ¬ msg.rpStat = msgAccepted := by
        rw [hStat]
        decide
      rw [if_neg hDenied]
      refine emits_xdrUnion (by rw [hStat]; rfl) ?_
      exact (emits_xdrRejectedReply hWhy).bind_pure rfl
  refine (emits_xdrInteger id id _).bind ((emits_xdrInteger id id _).bind ?_)
  exact Emits.require h.direction (hUnion.bind_pure rfl)

end Emits
end OncRpc
