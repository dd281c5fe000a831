import OncRpc.Xdr.FilterCodec

/-! `xdr_callmsg`: the header of a call, encoded and decoded either through one
pointer into the stream or item by item. -/
namespace OncRpc

open XdrOps Fallible

/-- `struct opaque_auth`. -/
structure OpaqueAuth where
  oaFlavor : BitVec 32
  /-- The area at `oa_base`, which may be NULL. -/
  oaBase : Option (List UInt8)
  oaLength : BitVec 32
  deriving DecidableEq, Repr

/-- `struct call_body`. -/
structure CallBody where
  cbRpcvers : BitVec 32
  cbProg : BitVec 32
  cbVers : BitVec 32
  cbProc : BitVec 32
  cbCred : OpaqueAuth
  cbVerf : OpaqueAuth
  deriving DecidableEq, Repr

/-- `struct rpc_msg` as a call uses it. -/
structure RpcMsg where
  rmXid : BitVec 32
  rmDirection : BitVec 32
  rmCall : CallBody
  deriving DecidableEq, Repr

/-- `CALL` of `enum msg_type`. -/
def call : BitVec 32 := 0

/-- `RPC_MSG_VERSION`. -/
def rpcMsgVersion : BitVec 32 := 2

/-- `MAX_AUTH_BYTES`. -/
def maxAuthBytes : Nat := 400

section Routine

variable {σ : Type} [XdrOps σ]

def xdrOpaqueAuth : XdrProc σ OpaqueAuth := fun op ap => do
  let flavor ← xdrEnum op ap.oaFlavor
  let body ← xdrBytes maxAuthBytes op (ap.oaBase, ap.oaLength)
  pure { oaFlavor := flavor, oaBase := body.1, oaLength := body.2 }

/-- The item-by-item path at the end of `xdr_callmsg`. -/
def callmsgPlain : XdrProc σ RpcMsg := fun op cmsg => do
  let xid ← xdrUInt32T op cmsg.rmXid
  let direction ← xdrEnum op cmsg.rmDirection
  require (direction = call)
  let rpcvers ← xdrUInt32T op cmsg.rmCall.cbRpcvers
  require (rpcvers = rpcMsgVersion)
  let prog ← xdrUInt32T op cmsg.rmCall.cbProg
  let vers ← xdrUInt32T op cmsg.rmCall.cbVers
  let proc ← xdrUInt32T op cmsg.rmCall.cbProc
  let cred ← xdrOpaqueAuth op cmsg.rmCall.cbCred
  let verf ← xdrOpaqueAuth op cmsg.rmCall.cbVerf
  pure { rmXid := xid, rmDirection := direction, rmCall :=
    { cbRpcvers := rpcvers, cbProg := prog, cbVers := vers, cbProc := proc,
      cbCred := cred, cbVerf := verf } }

/-- What the encoder asks of `XDR_INLINE`. -/
def callmsgSize (cmsg : RpcMsg) : Nat :=
  8 * bytesPerXdrUnit + rndup cmsg.rmCall.cbCred.oaLength.toNat +
    2 * bytesPerXdrUnit + rndup cmsg.rmCall.cbVerf.oaLength.toNat

/-- A body is moved without its padding, over which the pointer only steps. -/
def putAuthBody (buf : Nat) (oa : OpaqueAuth) : Fallible σ Nat :=
  if oa.oaLength = 0 then pure buf
  else do
    storeBytes buf ((oa.oaBase.getD []).take oa.oaLength.toNat)
    pure (buf + rndup oa.oaLength.toNat)

def putAuth (buf : Nat) (oa : OpaqueAuth) : Fallible σ Nat := do
  let buf ← ixdrPutInt32 buf oa.oaFlavor
  let buf ← ixdrPutInt32 buf oa.oaLength
  putAuthBody buf oa

/-- The encoder behind a pointer. -/
def callmsgEncodeInline (cmsg : RpcMsg) (buf : Nat) : Fallible σ RpcMsg := do
  let buf ← ixdrPutInt32 buf cmsg.rmXid
  let buf ← ixdrPutInt32 buf cmsg.rmDirection
  require (cmsg.rmDirection = call)
  let buf ← ixdrPutInt32 buf cmsg.rmCall.cbRpcvers
  require (cmsg.rmCall.cbRpcvers = rpcMsgVersion)
  let buf ← ixdrPutInt32 buf cmsg.rmCall.cbProg
  let buf ← ixdrPutInt32 buf cmsg.rmCall.cbVers
  let buf ← ixdrPutInt32 buf cmsg.rmCall.cbProc
  let buf ← putAuth buf cmsg.rmCall.cbCred
  let _ ← putAuth buf cmsg.rmCall.cbVerf
  pure cmsg

/-- The body of an authenticator whose length has been read. -/
def getAuthBody (oa : OpaqueAuth) : Fallible σ OpaqueAuth :=
  if oa.oaLength = 0 then pure oa
  else do
    require (¬ oa.oaLength.toNat > maxAuthBytes)
    let base := oa.oaBase.getD (memAlloc oa.oaLength.toNat)
    let buf ← inline .decode (rndup oa.oaLength.toNat)
    match buf with
    | none => do
        let bs ← xdrOpaque .decode base oa.oaLength.toNat
        pure { oa with oaBase := some bs }
    | some buf => do
        let bs ← loadBytes .decode buf oa.oaLength.toNat
        pure { oa with oaBase := some (Buffer.writeAt base 0 bs) }

/-- The verifier's flavor and length, inlined when the stream allows it. -/
def getVerfHeader (oa : OpaqueAuth) : Fallible σ OpaqueAuth := do
  let buf ← inline .decode (2 * bytesPerXdrUnit)
  match buf with
  | none => do
      let flavor ← xdrEnum .decode oa.oaFlavor
      let length ← xdrUInt .decode oa.oaLength
      pure { oa with oaFlavor := flavor, oaLength := length }
  | some buf => do
      let (flavor, buf) ← ixdrGetInt32 .decode buf
      let (length, _) ← ixdrGetInt32 .decode buf
      pure { oa with oaFlavor := flavor, oaLength := length }

/-- The decoder behind a pointer to the eight words of the header. -/
def callmsgDecodeInline (cmsg : RpcMsg) (buf : Nat) : Fallible σ RpcMsg := do
  let (xid, buf) ← ixdrGetInt32 .decode buf
  let (direction, buf) ← ixdrGetInt32 .decode buf
  require (direction = call)
  let (rpcvers, buf) ← ixdrGetInt32 .decode buf
  require (rpcvers = rpcMsgVersion)
  let (prog, buf) ← ixdrGetInt32 .decode buf
  let (vers, buf) ← ixdrGetInt32 .decode buf
  let (proc, buf) ← ixdrGetInt32 .decode buf
  let (flavor, buf) ← ixdrGetInt32 .decode buf
  let (length, _) ← ixdrGetInt32 .decode buf
  let cred ← getAuthBody { cmsg.rmCall.cbCred with oaFlavor := flavor, oaLength := length }
  let verf ← getVerfHeader cmsg.rmCall.cbVerf
  let verf ← getAuthBody verf
  pure { rmXid := xid, rmDirection := direction, rmCall :=
    { cbRpcvers := rpcvers, cbProg := prog, cbVers := vers, cbProc := proc,
      cbCred := cred, cbVerf := verf } }

def xdrCallmsg : XdrProc σ RpcMsg := fun op cmsg =>
  match op with
  | .encode => do
      require (¬ cmsg.rmCall.cbCred.oaLength.toNat > maxAuthBytes)
      require (¬ cmsg.rmCall.cbVerf.oaLength.toNat > maxAuthBytes)
      let buf ← inline .encode (callmsgSize cmsg)
      match buf with
      | some buf => callmsgEncodeInline cmsg buf
      | none => callmsgPlain .encode cmsg
  | .decode => do
      let buf ← inline .decode (8 * bytesPerXdrUnit)
      match buf with
      | some buf => callmsgDecodeInline cmsg buf
      | none => callmsgPlain .decode cmsg
  | .free => callmsgPlain .free cmsg

end Routine

/-! Decoding. The reference is the item-by-item path over the bytes alone, which
is what `xdr_callmsg` does on a stream that never inlines. -/
section Decode

variable {σ : Type} [XdrOps σ] {R : σ → List UInt8 → Prop} (h : LawfulReader R)

include h in
theorem decodes_xdrOpaqueAuth : DecodesAs R xdrOpaqueAuth xdrOpaqueAuth := by
  intro ap
  apply Refines.bind (decodes_xdrInteger h id id _)
  intro flavor
  apply Refines.bind (decodes_xdrBytes h _ _)
  intro body
  exact Refines.pure _

include h in
theorem decodes_callmsgPlain : DecodesAs R callmsgPlain callmsgPlain := by
  intro cmsg
  apply Refines.bind (decodes_xdrInteger h id id _); intro xid
  apply Refines.bind (decodes_xdrInteger h id id _); intro direction
  apply Refines.bind (Refines.require _); intro _
  apply Refines.bind (decodes_xdrInteger h id id _); intro rpcvers
  apply Refines.bind (Refines.require _); intro _
  apply Refines.bind (decodes_xdrInteger h id id _); intro prog
  apply Refines.bind (decodes_xdrInteger h id id _); intro vers
  apply Refines.bind (decodes_xdrInteger h id id _); intro proc
  apply Refines.bind (decodes_xdrOpaqueAuth h _); intro cred
  apply Refines.bind (decodes_xdrOpaqueAuth h _); intro verf
  exact Refines.pure _

include h in
theorem refines_getAuthBody (oa : OpaqueAuth) :
    Refines R R (getAuthBody oa) (getAuthBody oa) := by
  unfold getAuthBody
  by_cases hZero : oa.oaLength = 0
  · rw [if_pos hZero, if_pos hZero]
    exact Refines.pure _
  rw [if_neg hZero, if_neg hZero]
  apply Refines.bind (Refines.require _)
  intro _
  apply h.refines_inline
  · apply Refines.bind (refines_xdrOpaque h _ _)
    intro bs
    exact Refines.pure _
  · intro buf s t hWin
    have hPos : oa.oaLength.toNat ≠ 0 := by simpa [BitVec.toNat_eq] using hZero
    have hLoad : load .decode buf oa.oaLength.toNat s = t.take oa.oaLength.toNat := by
      simpa using hWin.loads 0 oa.oaLength.toNat (by rw [rndup_eq]; omega)
    have hBody := run_xdrOpaque_byteStream (oa.oaBase.getD (memAlloc oa.oaLength.toNat)) hPos
      hWin.within
    rw [run_bind_some (run_loadBytes .decode buf oa.oaLength.toNat s), hLoad]
    rw [show (inline .decode (rndup oa.oaLength.toNat) : Fallible ByteStream (Option Nat)) =
      pure none from rfl, pure_bind, run_bind_some hBody]
    exact ⟨rfl, fun _ => hWin.stream⟩

theorem getVerfHeader_byteStream (oa : OpaqueAuth) :
    (getVerfHeader oa : Fallible ByteStream OpaqueAuth) = (do
      let flavor ← getlong
      let length ← getlong
      pure { oa with oaFlavor := flavor, oaLength := length }) := by
  have hInline : (inline .decode (2 * bytesPerXdrUnit) : Fallible ByteStream (Option Nat)) =
      pure none := rfl
  unfold getVerfHeader
  rw [hInline, pure_bind]
  simp only [xdrEnum_decode, xdrUInt_decode]

include h in
theorem refines_getVerfHeader (oa : OpaqueAuth) :
    Refines R R (getVerfHeader oa) (getVerfHeader oa) := by
  apply h.refines_inline
  · apply Refines.bind (decodes_xdrInteger h id id _)
    intro flavor
    apply Refines.bind (decodes_xdrInteger h id id _)
    intro length
    exact Refines.pure _
  · intro buf
    rw [getVerfHeader_byteStream]
    apply Window.refines_getInt32
    intro flavor
    apply Window.refines_getInt32
    intro length
    exact Window.refines_done (Refines.pure _)

/-- On the bytes alone the authenticator is two words and a body. -/
theorem xdrOpaqueAuth_byteStream (ap : OpaqueAuth) :
    (xdrOpaqueAuth .decode ap : Fallible ByteStream OpaqueAuth) = (do
      let flavor ← getlong
      let length ← getlong
      getAuthBody { ap with oaFlavor := flavor, oaLength := length }) := by
  unfold xdrOpaqueAuth xdrBytes
  simp only [xdrEnum_decode, xdrUInt_decode, bind_assoc]
  congr
  funext flavor
  congr
  funext length
  unfold getAuthBody
  by_cases hZero : length = 0
  · subst hZero
    rfl
  · have hPos : length.toNat ≠ 0 := by simpa [BitVec.toNat_eq] using hZero
    have hGuard : (require (¬ (length.toNat > maxAuthBytes ∧ XdrOp.decode ≠ .free)) :
        Fallible ByteStream Unit) = require (¬ length.toNat > maxAuthBytes) :=
      require_congr (by simp)
    simp only [hGuard, if_neg hPos, if_neg hZero, bind_assoc, pure_bind]
    rfl

include h in
theorem refines_callmsgDecodeInline (cmsg : RpcMsg) (buf : Nat) :
    Refines (Window R buf (8 * bytesPerXdrUnit)) R (callmsgDecodeInline cmsg buf)
      (callmsgPlain .decode cmsg) := by
  unfold callmsgPlain
  simp only [xdrOpaqueAuth_byteStream, xdrUInt32T_decode, xdrEnum_decode, bind_assoc]
  apply Window.refines_getInt32
  intro xid
  apply Window.refines_getInt32
  intro direction
  apply Refines.bind (Refines.require _)
  intro _
  apply Window.refines_getInt32
  intro rpcvers
  apply Refines.bind (Refines.require _)
  intro _
  apply Window.refines_getInt32
  intro prog
  apply Window.refines_getInt32
  intro vers
  apply Window.refines_getInt32
  intro proc
  apply Window.refines_getInt32
  intro flavor
  apply Window.refines_getInt32
  intro length
  apply Window.refines_done
  apply Refines.bind (refines_getAuthBody h _)
  intro cred
  have hVerf : ∀ g : OpaqueAuth → Fallible ByteStream RpcMsg,
      (getVerfHeader cmsg.rmCall.cbVerf >>= g) = (do
        let flavor ← getlong
        let length ← getlong
        g { cmsg.rmCall.cbVerf with oaFlavor := flavor, oaLength := length }) := by
    intro g
    rw [getVerfHeader_byteStream]
    simp only [bind_assoc, pure_bind]
  rw [← hVerf fun verf => getAuthBody verf >>= _]
  apply Refines.bind (refines_getVerfHeader h _)
  intro verf
  apply Refines.bind (refines_getAuthBody h _)
  intro verf'
  exact Refines.pure _

include h in
/-- A call header decodes from every lawful reader as it does item by item from
the bytes: it is accepted alike, yields the same message and leaves the same bytes. -/
theorem decodes_xdrCallmsg : DecodesAs R xdrCallmsg xdrCallmsg := by
  intro cmsg
  apply h.refines_inline
  · exact decodes_callmsgPlain h cmsg
  · intro buf
    exact refines_callmsgDecodeInline h cmsg buf

end Decode
end OncRpc
