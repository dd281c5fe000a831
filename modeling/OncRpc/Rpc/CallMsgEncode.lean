import OncRpc.Rec.PutScript
import OncRpc.Rpc.CallMsg

/-! The encoder of `xdr_callmsg` behind a pointer against the item-by-item path.
The pointer path writes no padding, so what it leaves in the window it was handed
depends on what the window held. -/
namespace OncRpc

open XdrOps XdrWriter Fallible

/-- The bytes of an authenticator, item by item. -/
def authBytes (oa : OpaqueAuth) : List UInt8 :=
  Word.toBytes oa.oaFlavor ++ (Word.toBytes oa.oaLength ++
    padded ((oa.oaBase.getD []).take oa.oaLength.toNat))

/-- The bytes of a call header, item by item. -/
def callmsgBytes (cmsg : RpcMsg) : List UInt8 :=
  Word.toBytes cmsg.rmXid ++ (Word.toBytes cmsg.rmDirection ++
    (Word.toBytes cmsg.rmCall.cbRpcvers ++ (Word.toBytes cmsg.rmCall.cbProg ++
      (Word.toBytes cmsg.rmCall.cbVers ++ (Word.toBytes cmsg.rmCall.cbProc ++
        (authBytes cmsg.rmCall.cbCred ++ authBytes cmsg.rmCall.cbVerf))))))

/-- The authenticator is within its limit and its body is there. -/
structure OpaqueAuth.WellFormed (oa : OpaqueAuth) : Prop where
  bounded : oa.oaLength.toNat ≤ maxAuthBytes
  backed : oa.oaLength.toNat ≤ (oa.oaBase.getD []).length

/-- A call of the version that the encoder accepts. -/
structure RpcMsg.WellFormed (cmsg : RpcMsg) : Prop where
  direction : cmsg.rmDirection = call
  rpcvers : cmsg.rmCall.cbRpcvers = rpcMsgVersion
  cred : cmsg.rmCall.cbCred.WellFormed
  verf : cmsg.rmCall.cbVerf.WellFormed

/-- The number of bytes of an authenticator. -/
def authSize (oa : OpaqueAuth) : Nat := 8 + rndup oa.oaLength.toNat

theorem length_authBytes {oa : OpaqueAuth} (h : oa.WellFormed) :
    (authBytes oa).length = authSize oa := by
  have hBody : ((oa.oaBase.getD []).take oa.oaLength.toNat).length = oa.oaLength.toNat := by
    simpa using h.backed
  simp only [authBytes, authSize, List.length_append, Word.length_toBytes, length_padded, hBody]
  omega

theorem callmsgSize_eq (cmsg : RpcMsg) :
    callmsgSize cmsg = 24 + (authSize cmsg.rmCall.cbCred + authSize cmsg.rmCall.cbVerf) := by
  simp only [callmsgSize, authSize, bytesPerXdrUnit]
  omega

theorem length_callmsgBytes {cmsg : RpcMsg} (h : cmsg.WellFormed) :
    (callmsgBytes cmsg).length = callmsgSize cmsg := by
  simp only [callmsgBytes, callmsgSize_eq, List.length_append, Word.length_toBytes,
    length_authBytes h.cred, length_authBytes h.verf]
  omega

section Plain

variable {σ : Type} [XdrOps σ] [XdrWriter σ]

theorem puts_xdrOpaqueAuth {oa : OpaqueAuth} (h : oa.WellFormed) :
    Puts (xdrOpaqueAuth .encode oa : Fallible σ OpaqueAuth) oa (authBytes oa) := by
  apply Puts.bind (puts_xdrInteger id id oa.oaFlavor)
  exact (puts_xdrBytes _ _ _ h.bounded h.backed).bind_pure rfl

/-- The item-by-item path puts the bytes of the header on any stream. -/
theorem puts_callmsgPlain {cmsg : RpcMsg} (h : cmsg.WellFormed) :
    Puts (callmsgPlain .encode cmsg : Fallible σ RpcMsg) cmsg (callmsgBytes cmsg) := by
  apply Puts.bind (puts_xdrInteger id id _)
  apply Puts.bind (puts_xdrInteger id id _)
  apply Puts.require h.direction
  apply Puts.bind (puts_xdrInteger id id _)
  apply Puts.require h.rpcvers
  apply Puts.bind (puts_xdrInteger id id _)
  apply Puts.bind (puts_xdrInteger id id _)
  apply Puts.bind (puts_xdrInteger id id _)
  apply Puts.bind (puts_xdrOpaqueAuth h.cred)
  exact (puts_xdrOpaqueAuth h.verf).bind_pure rfl

end Plain

/-- The computation turns the `n` bytes at `buf` into `patch` of them and touches
nothing else. -/
def Overlays {σ α : Type} [XdrOps σ] [XdrWriter σ] (m : Fallible σ α) (a : α) (buf n : Nat)
    (patch : List UInt8 → List UInt8) : Prop :=
  (∀ w, w.length = n → (patch w).length = n) ∧
  ∀ s, buf + n ≤ (mem s).length → ∃ s', m.run s = (some a, s') ∧
    mem s' = Buffer.writeAt (mem s) buf (patch (Buffer.readAt (mem s) buf n))

namespace Overlays

variable {σ α β : Type} [XdrOps σ] [XdrWriter σ] {m : Fallible σ α} {a : α} {buf n n' : Nat}
  {patch patch' : List UInt8 → List UInt8}

theorem pure (a : α) (buf : Nat) : Overlays (Pure.pure a : Fallible σ α) a buf 0 id :=
  ⟨fun _ h => h, fun s _ => ⟨s, rfl, by simp⟩⟩

theorem congr (hm : Overlays m a buf n patch) (h : ∀ w, w.length = n → patch w = patch' w) :
    Overlays m a buf n patch' := by
  constructor
  · intro w hw
    rw [← h w hw, hm.1 w hw]
  · intro s hs
    rw [← h _ (Buffer.length_readAt_of_le hs)]
    exact hm.2 s hs

/-- Two neighbouring windows are overlaid one after the other. -/
theorem bind {f : α → Fallible σ β} {b : β} (hm : Overlays m a buf n patch)
    (hf : Overlays (f a) b (buf + n) n' patch') :
    Overlays (m >>= f) b buf (n + n') fun w => patch (w.take n) ++ patch' (w.drop n) := by
  constructor
  · intro w hw
    rw [List.length_append, hm.1 _ (by rw [List.length_take]; omega),
      hf.1 _ (by rw [List.length_drop]; omega)]
  · intro s hs
    obtain ⟨s₁, hRun, hMem⟩ := hm.2 s (by omega)
    have hLen : (patch (Buffer.readAt (mem s) buf n)).length = n :=
      hm.1 _ (Buffer.length_readAt_of_le (by omega))
    have hRoom : buf + (patch (Buffer.readAt (mem s) buf n)).length ≤ (mem s).length := by omega
    have hSize : (mem s₁).length = (mem s).length := by rw [hMem, Buffer.length_writeAt hRoom]
    obtain ⟨s₂, hRun', hMem'⟩ := hf.2 s₁ (by omega)
    have hAfter : Buffer.readAt (mem s₁) (buf + n) n' = Buffer.readAt (mem s) (buf + n) n' := by
      rw [hMem, Buffer.readAt_writeAt_after hRoom (by omega)]
    refine ⟨s₂, by rw [run_bind_some hRun, hRun'], ?_⟩
    dsimp only
    rw [hMem', hAfter, hMem, Buffer.readAt_take _ _ _ _ (by omega), Buffer.readAt_drop,
      Nat.add_sub_cancel_left, ← Buffer.writeAt_writeAt hRoom, hLen]

/-- A last step that stores nothing. -/
theorem bind_pure {f : α → Fallible σ β} {b : β} (hm : Overlays m a buf n patch)
    (hf : f a = Pure.pure b) : Overlays (m >>= f) b buf n patch := by
  refine ⟨hm.1, fun s hs => ?_⟩
  obtain ⟨s', hRun, hMem⟩ := hm.2 s hs
  exact ⟨s', by rw [run_bind_some hRun, hf, run_pure], hMem⟩

theorem require {c : Prop} [Decidable c] {f : Unit → Fallible σ β} {b : β} (hc : c)
    (hf : Overlays (f ()) b buf n patch) :
    Overlays (Fallible.require c >>= f) b buf n patch := by
  refine ⟨hf.1, fun s hs => ?_⟩
  rw [run_bind_require, if_pos hc]
  exact hf.2 s hs

/-- Storing at the front of a window leaves the rest of it as it was. -/
theorem storeBytes {bs : List UInt8} (h : bs.length ≤ n) :
    Overlays (OncRpc.storeBytes buf bs : Fallible σ Unit) () buf n fun w => bs ++ w.drop bs.length := by
  constructor
  · intro w hw
    rw [List.length_append, List.length_drop]
    omega
  · intro s hs
    refine ⟨_, run_storeBytes buf bs s, ?_⟩
    dsimp only
    rw [mem_store, Buffer.readAt_drop, Buffer.writeAt_append_readAt (by omega)]

theorem putInt32 (v : BitVec 32) :
    Overlays (ixdrPutInt32 buf v : Fallible σ Nat) (buf + 4) buf 4 fun _ => Word.toBytes v := by
  refine ⟨fun _ _ => rfl, fun s _ => ⟨_, run_ixdrPutInt32 buf v s, ?_⟩⟩
  rw [mem_store]

end Overlays

/-- What the pointer path makes of the window of an authenticator. -/
def authOver (oa : OpaqueAuth) (w : List UInt8) : List UInt8 :=
  Word.toBytes oa.oaFlavor ++ (Word.toBytes oa.oaLength ++
    ((oa.oaBase.getD []).take oa.oaLength.toNat ++ w.drop (8 + oa.oaLength.toNat)))

/-- What the pointer path makes of the window of a call header. -/
def callmsgOver (cmsg : RpcMsg) (w : List UInt8) : List UInt8 :=
  Word.toBytes cmsg.rmXid ++ (Word.toBytes cmsg.rmDirection ++
    (Word.toBytes cmsg.rmCall.cbRpcvers ++ (Word.toBytes cmsg.rmCall.cbProg ++
      (Word.toBytes cmsg.rmCall.cbVers ++ (Word.toBytes cmsg.rmCall.cbProc ++
        (authOver cmsg.rmCall.cbCred ((w.drop 24).take (authSize cmsg.rmCall.cbCred)) ++
          authOver cmsg.rmCall.cbVerf (w.drop (24 + authSize cmsg.rmCall.cbCred))))))))

section Inline

variable {σ : Type} [XdrOps σ] [XdrWriter σ]

theorem overlays_putAuthBody (buf : Nat) {oa : OpaqueAuth} (h : oa.WellFormed) :
    Overlays (putAuthBody buf oa : Fallible σ Nat) (buf + rndup oa.oaLength.toNat) buf
      (rndup oa.oaLength.toNat)
      fun w => (oa.oaBase.getD []).take oa.oaLength.toNat ++ w.drop oa.oaLength.toNat := by
  have hBody : ((oa.oaBase.getD []).take oa.oaLength.toNat).length = oa.oaLength.toNat := by
    simpa using h.backed
  unfold putAuthBody
  by_cases hZero : oa.oaLength = 0
  · rw [if_pos hZero, hZero]
    exact Overlays.pure buf buf
  · have hStore : Overlays
        (storeBytes buf ((oa.oaBase.getD []).take oa.oaLength.toNat) : Fallible σ Unit) ()
        buf (rndup oa.oaLength.toNat) _ :=
      Overlays.storeBytes (by rw [hBody, rndup_eq]; omega)
    rw [hBody] at hStore
    rw [if_neg hZero]
    exact hStore.bind_pure rfl

theorem overlays_putAuth (buf : Nat) {oa : OpaqueAuth} (h : oa.WellFormed) :
    Overlays (putAuth buf oa : Fallible σ Nat) (buf + authSize oa) buf (authSize oa) (authOver oa) := by
  have hSize : authSize oa = 4 + (4 + rndup oa.oaLength.toNat) := by
    unfold authSize
    omega
  have hNext : buf + authSize oa = buf + 4 + 4 + rndup oa.oaLength.toNat := by omega
  rw [hNext, hSize]
  apply Overlays.congr ((Overlays.putInt32 _).bind
    ((Overlays.putInt32 _).bind (overlays_putAuthBody _ h)))
  intro w _
  simp only [authOver, List.drop_drop]

/-- The pointer path turns the window into the header, over what padding it held. -/
theorem overlays_callmsgEncodeInline (buf : Nat) {cmsg : RpcMsg} (h : cmsg.WellFormed) :
    Overlays (callmsgEncodeInline cmsg buf : Fallible σ RpcMsg) cmsg buf (callmsgSize cmsg)
      (callmsgOver cmsg) := by
  have hSize : callmsgSize cmsg = 4 + (4 + (4 + (4 + (4 + (4 +
      (authSize cmsg.rmCall.cbCred + authSize cmsg.rmCall.cbVerf)))))) := by
    rw [callmsgSize_eq]
    omega
  rw [hSize]
  apply Overlays.congr
  · apply Overlays.bind (Overlays.putInt32 _)
    apply Overlays.bind (Overlays.putInt32 _)
    apply Overlays.require h.direction
    apply Overlays.bind (Overlays.putInt32 _)
    apply Overlays.require h.rpcvers
    apply Overlays.bind (Overlays.putInt32 _)
    apply Overlays.bind (Overlays.putInt32 _)
    apply Overlays.bind (Overlays.putInt32 _)
    apply Overlays.bind (overlays_putAuth _ h.cred)
    exact (overlays_putAuth _ h.verf).bind_pure rfl
  · intro w hw
    simp only [callmsgOver, List.drop_drop]

/-- What a computation leaves in the `n` bytes at `buf`, if it succeeds. -/
def writes {α : Type} (m : Fallible σ α) (buf n : Nat) (s : σ) : Option (List UInt8) :=
  (m.run s).1.map fun _ => Buffer.readAt (mem (m.run s).2) buf n

/-- Once the stream hands out a window, the header is laid over what it held. -/
theorem writes_xdrCallmsg_inline {cmsg : RpcMsg} (h : cmsg.WellFormed) {s s₁ : σ} {buf : Nat}
    (hValid : Valid s)
    (hInline : (inline .encode (callmsgSize cmsg)).run s = (some (some buf), s₁)) :
    writes (xdrCallmsg .encode cmsg) buf (callmsgSize cmsg) s =
      some (callmsgOver cmsg (Buffer.readAt (mem s) buf (callmsgSize cmsg))) := by
  obtain ⟨hMem, hRoom⟩ := inline_window hValid hInline
  rw [← hMem] at hRoom
  have hOver := overlays_callmsgEncodeInline (σ := σ) buf h
  obtain ⟨s', hRun, hStored⟩ := hOver.2 s₁ hRoom
  have hLen := hOver.1 _ (Buffer.length_readAt_of_le hRoom)
  have hCred : ¬ cmsg.rmCall.cbCred.oaLength.toNat > maxAuthBytes :=
    Nat.not_lt.mpr h.cred.bounded
  have hVerf : ¬ cmsg.rmCall.cbVerf.oaLength.toNat > maxAuthBytes :=
    Nat.not_lt.mpr h.verf.bounded
  have hEncode : (xdrCallmsg .encode cmsg).run s = (some cmsg, s') := by
    simp only [xdrCallmsg, run_bind_require, if_pos hCred, if_pos hVerf]
    rw [run_bind_some hInline]
    exact hRun
  rw [writes, hEncode, Option.map_some, hStored, ← hMem]
  generalize callmsgOver cmsg (Buffer.readAt (mem s₁) buf (callmsgSize cmsg)) = patch at hLen ⊢
  rw [← hLen]
  exact congrArg some (Buffer.readAt_writeAt (by omega))

/-- Item by item the bytes of the header are put. -/
theorem writes_callmsgPlain {cmsg : RpcMsg} (h : cmsg.WellFormed) {s : σ}
    (hRoom : Room (callmsgSize cmsg) s) :
    writes (callmsgPlain .encode cmsg) (pos s) (callmsgSize cmsg) s =
      some (callmsgBytes cmsg) := by
  have hLen := length_callmsgBytes h
  rw [← hLen] at hRoom ⊢
  rw [writes, puts_callmsgPlain h s hRoom, Option.map_some, Puts.readAt_pos hRoom]

end Inline

/-- The window of an authenticator holds zeros where its padding goes. -/
def AuthPadZero (oa : OpaqueAuth) (w : List UInt8) : Prop :=
  w.drop (8 + oa.oaLength.toNat) = List.replicate (padding oa.oaLength.toNat) 0

instance (oa : OpaqueAuth) (w : List UInt8) : Decidable (AuthPadZero oa w) :=
  inferInstanceAs (Decidable (_ = _))

/-- The window of a call header holds zeros where its padding goes. -/
def PadZero (cmsg : RpcMsg) (w : List UInt8) : Prop :=
  AuthPadZero cmsg.rmCall.cbCred ((w.drop 24).take (authSize cmsg.rmCall.cbCred)) ∧
    AuthPadZero cmsg.rmCall.cbVerf (w.drop (24 + authSize cmsg.rmCall.cbCred))

instance (cmsg : RpcMsg) (w : List UInt8) : Decidable (PadZero cmsg w) :=
  inferInstanceAs (Decidable (_ ∧ _))

theorem authOver_eq_iff {oa : OpaqueAuth} (h : oa.WellFormed) (w : List UInt8) :
    authOver oa w = authBytes oa ↔ AuthPadZero oa w := by
  have hBody : ((oa.oaBase.getD []).take oa.oaLength.toNat).length = oa.oaLength.toNat := by
    simpa using h.backed
  simp only [authOver, authBytes, AuthPadZero, padded, List.append_cancel_left_eq, hBody,
    padding_eq]

/-- The window ends up with the item-by-item bytes exactly when the padding it
held was zero already. -/
theorem callmsgOver_eq_iff {cmsg : RpcMsg} (h : cmsg.WellFormed) {w : List UInt8}
    (hw : w.length = callmsgSize cmsg) :
    callmsgOver cmsg w = callmsgBytes cmsg ↔ PadZero cmsg w := by
  have hLen : (authOver cmsg.rmCall.cbCred
      ((w.drop 24).take (authSize cmsg.rmCall.cbCred))).length =
        (authBytes cmsg.rmCall.cbCred).length := by
    have hBody := h.cred.backed
    rw [callmsgSize_eq] at hw
    rw [length_authBytes h.cred]
    simp only [authOver, List.length_append, Word.length_toBytes, List.length_take,
      List.length_drop, hw]
    simp only [authSize, rndup_eq]
    omega
  simp only [callmsgOver, callmsgBytes, List.append_cancel_left_eq, PadZero,
    ← authOver_eq_iff h.cred, ← authOver_eq_iff h.verf]
  constructor
  · intro hEq
    exact List.append_inj hEq hLen
  · rintro ⟨hCred, hVerf⟩
    rw [hCred, hVerf]

/-- Behind a pointer the encoder writes what the item-by-item path writes, on that
stream or any other, if and only if the window it gets holds zeros in the padding. -/
theorem xdrCallmsg_encode_agrees {σ τ : Type} [XdrOps σ] [XdrWriter σ] [XdrOps τ] [XdrWriter τ]
    {cmsg : RpcMsg} (h : cmsg.WellFormed) {s s₁ : σ} {buf : Nat} {t : τ} (hValid : Valid s)
    (hInline : (inline .encode (callmsgSize cmsg)).run s = (some (some buf), s₁))
    (hRoom : Room (callmsgSize cmsg) t) :
    (writes (callmsgPlain .encode cmsg) (pos t) (callmsgSize cmsg) t).isSome ∧
    (writes (xdrCallmsg .encode cmsg) buf (callmsgSize cmsg) s =
        writes (callmsgPlain .encode cmsg) (pos t) (callmsgSize cmsg) t ↔
      PadZero cmsg (Buffer.readAt (mem s) buf (callmsgSize cmsg))) := by
  have hFit := (inline_window hValid hInline).2
  rw [writes_callmsgPlain h hRoom, writes_xdrCallmsg_inline h hValid hInline, Option.some_inj]
  exact ⟨rfl, callmsgOver_eq_iff h (Buffer.length_readAt_of_le hFit)⟩

/-- A call whose credential is one byte long. -/
def oneByteCred : RpcMsg :=
  { rmXid := 7, rmDirection := call, rmCall :=
    { cbRpcvers := rpcMsgVersion, cbProg := 5, cbVers := 4, cbProc := 3
      cbCred := { oaFlavor := 1, oaBase := some [9], oaLength := 1 }
      cbVerf := { oaFlavor := 0, oaBase := none, oaLength := 0 } } }

theorem wellFormed_oneByteCred : oneByteCred.WellFormed where
  direction := rfl
  rpcvers := rfl
  cred := ⟨by decide, by decide⟩
  verf := ⟨by decide, by decide⟩

/-- A new record stream over zero memory. -/
def zeroStream : RecStrm :=
  RecStrm.xdrrecCreate 100 100 zeroHost
    { arrivals := [], written := [], nonblock := false, writable := true }

/-- An unaligned block of other bytes. -/
def dirtyBlock : XdrMem := XdrMem.xdrmemCreate (List.replicate 44 0xff) 44 false

theorem xdrCallmsg_encode_agrees_oneByteCred :
    writes (xdrCallmsg .encode oneByteCred) 4 44 zeroStream =
      writes (callmsgPlain .encode oneByteCred) 0 44 dirtyBlock := by
  have hValid : Valid zeroStream := by
    show zeroStream.outBoundry ≤ zeroStream.outBase.length
    decide
  have hRoom : Room (callmsgSize oneByteCred) dirtyBlock := by
    show dirtyBlock.Within ∧ callmsgSize oneByteCred ≤ dirtyBlock.handy
    decide
  exact (xdrCallmsg_encode_agrees wellFormed_oneByteCred hValid rfl hRoom).2.mpr
    (by decide)

/-- In a block of other bytes three of them stay behind the credential. -/
theorem not_xdrCallmsg_encode_agrees_dirtyBlock :
    ¬ ∀ (cmsg : RpcMsg) (s s₁ t : XdrMem) (buf : Nat), cmsg.WellFormed → s.Within →
      (inline .encode (callmsgSize cmsg)).run s = (some (some buf), s₁) →
      t.Within → callmsgSize cmsg ≤ t.handy →
      writes (xdrCallmsg .encode cmsg) buf (callmsgSize cmsg) s =
        writes (callmsgPlain .encode cmsg) t.priv (callmsgSize cmsg) t := by
  intro h
  have hSame := h oneByteCred { dirtyBlock with aligned := true } _ dirtyBlock 0
    wellFormed_oneByteCred (by decide) rfl (by decide) (by decide)
  revert hSame
  decide

end OncRpc
