import OncRpc.Rpc.ReplyMsg
import OncRpc.Rpc.RpcbProt
import OncRpc.Xdr.Block

/-! `clnt_bcast.c`: the replies to a broadcast, which are decoded into `uaddress`. -/
namespace OncRpc

open XdrOps Fallible

/-- `sizeof uaddress`. -/
def uaddressSize : Nat := 1024

section Routine

variable {σ : Type} [XdrOps σ]

/-- `xdr_rpcb_rmtcallres` in the direction `XDR_DECODE`, with `addr` at the block. -/
def xdrRpcbRmtcallres (xdrRes : Fallible σ Unit) : Fallible (σ × Block) Unit := do
  xdrStringInto rpcMaxdatasize
  let _resultsLen ← xdrUInt .decode 0
  onStream xdrRes

/-- `xdr_rmtcallres` in the direction `XDR_DECODE`. There is a place for the port. -/
def xdrRmtcallres (xdrResults : Fallible σ Unit) : Fallible (σ × Block) Unit := do
  let _port ← xdrULong .decode 0
  let _resultslen ← xdrULong .decode 0
  onStream xdrResults

end Routine

/-- The first words of `outbuf`, and of `outbuf_pmap` when there is one. -/
structure BcastXids where
  rpcb : List UInt8
  pmap : Option (List UInt8)

/-- What `rpc_broadcast_exp` does with a datagram that it receives: the reply that is decoded,
and `uaddress`. -/
def bcastReply (xids : BcastXids) (xresults : Fallible XdrMem Unit) (msg : ReplyMsg)
    (aligned : Bool) (inbuf : List UInt8) (uaddress : Block) : Option ReplyMsg × Block :=
  let xdrs := (XdrMem.xdrmemCreate inbuf inbuf.length aligned, uaddress)
  let msg := { msg with acptedRply := { msg.acptedRply with arVerf := nullAuth } }
  if inbuf.length < 4 then (none, uaddress)
  else if inbuf.take 4 = xids.rpcb then
    let r := (xdrReplymsg (fun _ => xdrRpcbRmtcallres xresults) .decode msg).run xdrs
    (r.1, r.2.2)
  else if xids.pmap = some (inbuf.take 4) then
    let r := (xdrReplymsg (fun _ => xdrRmtcallres xresults) .decode msg).run xdrs
    (r.1, r.2.2)
  else (none, uaddress)

/-! ### The header of a reply -/

section Header

variable {σ : Type} [XdrOps σ] {R : σ → List UInt8 → Prop} (hLaw : LawfulReader R)
  {t : List UInt8} {k size : Nat} {P : Prop}

include hLaw in
/-- A verifier is passed over, unless it is too long. -/
theorem overruns_bind_xdrOpaqueAuth {γ : Type} (ap : OpaqueAuth)
    {f : OpaqueAuth → Fallible (σ × Block) γ}
    (hf : ∀ verf, Overruns R size t (k + (8 + rndup (wordAt t (k + 4)).toNat)) (f verf) P) :
    Overruns R size t k (xdrOpaqueAuth .decode ap >>= f)
      (k + (8 + rndup (wordAt t (k + 4)).toNat) ≤ t.length ∧
        (wordAt t (k + 4)).toNat ≤ maxAuthBytes ∧ P) := by
  generalize hLen : (wordAt t (k + 4)).toNat = len at hf ⊢
  unfold xdrOpaqueAuth xdrBytes
  simp only [bind_assoc, pure_bind]
  refine (Overruns.bind_passes (passes_xdrInteger hLaw t k _) (Overruns.bind_passes
    (passes_xdrInteger hLaw t (k + 4) _) (Overruns.require
      (P := k + (8 + rndup len) ≤ t.length ∧ P) fun _ => ?_))).congr ?_
  · rw [hLen]
    have hBody : ∃ body, Passes R t (k + 4 + 4) (rndup len)
        (if len = 0 then pure (ap.oaBase, wordAt t (k + 4))
          else do
            let bs ← xdrOpaque .decode (ap.oaBase.getD (memAlloc len)) len
            pure (some bs, wordAt t (k + 4)) : Fallible (σ × Block) _) body := by
      by_cases hZero : len = 0
      · rw [if_pos hZero, hZero]
        exact ⟨_, Passes.pure R t _ _⟩
      · rw [if_neg hZero]
        exact ⟨_, (passes_xdrOpaque hLaw t _ _ len).bind_pure rfl⟩
    obtain ⟨body, hPasses⟩ := hBody
    have hNext : k + 4 + 4 + rndup len = k + (8 + rndup len) := by omega
    refine (Overruns.bind_passes hPasses (P := P) ?_).congr (by rw [hNext])
    rw [hNext]
    exact hf _
  · have hOp : XdrOp.decode ≠ .free := by decide
    constructor
    · rintro ⟨-, -, hFits, hRest, hP⟩
      refine ⟨hRest, Nat.not_lt.mp fun hLong => hFits ⟨?_, hOp⟩, hP⟩
      rwa [hLen]
    · rintro ⟨hRest, hFits, hP⟩
      refine ⟨by omega, by omega, fun hLong => Nat.not_lt.mpr hFits ?_, hRest, hP⟩
      rw [← hLen]
      exact hLong.1

variable {results : XdrOp → Fallible (σ × Block) Unit}

include hLaw in
theorem overruns_xdrAcceptedReply (ar : AcceptedReply)
    (hResults : Overruns R size t (k + (8 + rndup (wordAt t (k + 4)).toNat) + 4)
      (results .decode) P) :
    Overruns R size t k (xdrAcceptedReply results .decode ar)
      (k + (8 + rndup (wordAt t (k + 4)).toNat) ≤ t.length ∧
        (wordAt t (k + 4)).toNat ≤ maxAuthBytes ∧
        k + (8 + rndup (wordAt t (k + 4)).toNat) + 4 ≤ t.length ∧
        wordAt t (k + (8 + rndup (wordAt t (k + 4)).toNat)) = success ∧ P) := by
  refine overruns_bind_xdrOpaqueAuth hLaw ar.arVerf fun verf => ?_
  refine Overruns.bind_passes (passes_xdrInteger hLaw t _ _) ?_
  by_cases hSuccess : wordAt t (k + (8 + rndup (wordAt t (k + 4)).toNat)) = success
  · rw [if_pos hSuccess]
    exact (hResults.bind_quiet fun _ => Quiet.pure _).congr (and_iff_right hSuccess).symm
  · rw [if_neg hSuccess]
    refine (Overruns.of_quiet ?_).congr (iff_of_false id fun h => hSuccess h.1)
    split
    · refine Quiet.bind ?_ fun _ => Quiet.pure _
      exact (quiet_xdrInteger _).bind fun _ => (quiet_xdrInteger _).bind fun _ => Quiet.pure _
    · exact Quiet.pure _

theorem quiet_xdrRejectedReply (rr : RejectedReply) :
    Quiet (xdrRejectedReply .decode rr : Fallible (σ × Block) _) := by
  refine (quiet_xdrInteger _).bind fun stat => ?_
  split
  · refine Quiet.bind ?_ fun _ => Quiet.pure _
    exact (quiet_xdrInteger _).bind fun _ => (quiet_xdrInteger _).bind fun _ => Quiet.pure _
  · split
    · exact (quiet_xdrInteger _).bind fun _ => Quiet.pure _
    · exact Quiet.fail

include hLaw in
/-- Only the results of a reply that was accepted and successful are decoded into the block. -/
theorem overruns_xdrReplymsg (results : XdrOp → Fallible (σ × Block) Unit) (msg : ReplyMsg)
    (hResults : Overruns R size t (24 + rndup (wordAt t 16).toNat) (results .decode) P) :
    Overruns R size t 0 (xdrReplymsg results .decode msg)
      (24 + rndup (wordAt t 16).toNat ≤ t.length ∧ wordAt t 4 = reply ∧
        wordAt t 8 = msgAccepted ∧ (wordAt t 16).toNat ≤ maxAuthBytes ∧
        wordAt t (20 + rndup (wordAt t 16).toNat) = success ∧ P) := by
  generalize hPad : rndup (wordAt t 16).toNat = pad at *
  have hAccepted := overruns_xdrAcceptedReply (k := 12) (P := P) hLaw msg.acptedRply (by
    rw [hPad, show 12 + (8 + pad) + 4 = 24 + pad by omega]
    exact hResults)
  rw [hPad, show 12 + (8 + pad) = 20 + pad by omega] at hAccepted
  have hUnion : Overruns R size t 8 (xdrUnion (replyDscrm results) none .decode
      (msg.rpStat, (msg.acptedRply, msg.rjctedRply)))
      (12 ≤ t.length ∧ wordAt t 8 = msgAccepted ∧ 20 + pad ≤ t.length ∧
        (wordAt t 16).toNat ≤ maxAuthBytes ∧ 20 + pad + 4 ≤ t.length ∧
        wordAt t (20 + pad) = success ∧ P) := by
    refine Overruns.bind_passes (passes_xdrInteger hLaw t 8 _) ?_
    by_cases hStat : wordAt t 8 = msgAccepted
    · have hArm : unionArm (replyDscrm results) none (wordAt t 8) = some (fun op ru => do
          let ar ← xdrAcceptedReply results op ru.1
          pure (ar, ru.2)) := by
        rw [hStat]
        rfl
      rw [hArm]
      refine Overruns.congr ?_ (and_iff_right hStat).symm
      exact (hAccepted.bind_quiet fun _ => Quiet.pure _).bind_quiet fun _ => Quiet.pure _
    · refine (Overruns.of_quiet ?_).congr (iff_of_false id fun h => hStat h.1)
      by_cases hDenied : wordAt t 8 = msgDenied
      · have hArm : unionArm (replyDscrm results) none (wordAt t 8) = some (fun op ru => do
            let rr ← xdrRejectedReply op ru.2
            pure (ru.1, rr)) := by
          rw [hDenied]
          rfl
        rw [hArm]
        exact ((quiet_xdrRejectedReply _).bind fun _ => Quiet.pure _).bind fun _ => Quiet.pure _
      · have hArm : unionArm (replyDscrm results) none (wordAt t 8) = none := by
          simp only [replyDscrm, unionArm_cons, if_neg (Ne.symm hStat), if_neg (Ne.symm hDenied)]
          rfl
        rw [hArm]
        exact Quiet.fail
  refine (Overruns.bind_passes (passes_xdrInteger hLaw t 0 _) (Overruns.bind_passes
    (passes_xdrInteger hLaw t 4 _) (Overruns.require fun _ =>
      hUnion.bind_quiet fun _ => Quiet.pure _))).congr ?_
  constructor
  · rintro ⟨-, -, hDirection, -, hStat, -, hVerf, hLen, hSuccess, hP⟩
    exact ⟨by omega, hDirection, hStat, hVerf, hSuccess, hP⟩
  · rintro ⟨hLen, hDirection, hStat, hVerf, hSuccess, hP⟩
    exact ⟨by omega, by omega, hDirection, by omega, hStat, by omega, hVerf, by omega, hSuccess, hP⟩

/-- The length of the address in a reply that was accepted and successful, with a verifier that
is not too long. -/
def addressLength (reply : List UInt8) : Option (BitVec 32) :=
  let verf := rndup (wordAt reply 16).toNat
  if verf + 28 ≤ reply.length ∧ wordAt reply 4 = OncRpc.reply ∧ wordAt reply 8 = msgAccepted ∧
      (wordAt reply 16).toNat ≤ maxAuthBytes ∧ wordAt reply (verf + 20) = success then
    some (wordAt reply (verf + 24))
  else none

end Header

/-! ### The address of a reply -/

section Results

variable {σ : Type} [XdrOps σ] {R : σ → List UInt8 → Prop} (hLaw : LawfulReader R)
  {t : List UInt8} {k size : Nat}

include hLaw in
theorem overruns_xdrRpcbRmtcallres (xdrRes : Fallible σ Unit) :
    Overruns R size t k (xdrRpcbRmtcallres xdrRes)
      (k + 4 ≤ t.length ∧ (wordAt t k).toNat ≤ rpcMaxdatasize ∧ size ≤ (wordAt t k).toNat) := by
  refine (overruns_xdrStringInto hLaw (by decide)).bind_quiet fun _ => ?_
  exact (quiet_xdrInteger _).bind fun _ => Quiet.onStream _

theorem quiet_xdrRmtcallres (xdrResults : Fallible σ Unit) :
    Quiet (xdrRmtcallres xdrResults : Fallible (σ × Block) _) :=
  (quiet_xdrInteger _).bind fun _ => (quiet_xdrInteger _).bind fun _ => Quiet.onStream _

end Results

/-- A reply stays inside `uaddress` exactly when its address is shorter than that, or so long that
`xdr_rpcb_rmtcallres` refuses it. -/
theorem bcastReply_fits_iff (xids : BcastXids) (xresults : Fallible XdrMem Unit) (msg : ReplyMsg)
    (aligned : Bool) (inbuf : List UInt8) {uaddress : Block}
    (hSize : uaddress.cells.length = uaddressSize) (hClean : uaddress.overrun = false) :
    (bcastReply xids xresults msg aligned inbuf uaddress).2.overrun = false ↔
      ∀ w, inbuf.take 4 = xids.rpcb → addressLength inbuf = some w →
        w.toNat < uaddressSize ∨ rpcMaxdatasize < w.toNat := by
  have hBefore : XdrMem.Before inbuf inbuf.length
      (XdrMem.xdrmemCreate inbuf inbuf.length aligned) (inbuf.drop 0) := by
    refine ⟨rfl, Nat.zero_add _, (Nat.zero_add _).le, ?_⟩
    simp [XdrMem.rest, XdrMem.xdrmemCreate, Buffer.readAt]
  unfold bcastReply
  dsimp only
  by_cases hShort : inbuf.length < 4
  · rw [if_pos hShort]
    refine iff_of_true hClean fun w _ hAddress => ?_
    unfold addressLength at hAddress
    dsimp only at hAddress
    split at hAddress
    · next hLen => exact absurd hLen.1 (by omega)
    · cases hAddress
  rw [if_neg hShort]
  by_cases hXid : inbuf.take 4 = xids.rpcb
  · rw [if_pos hXid]
    have hOverruns := overruns_xdrReplymsg XdrMem.lawful
      (fun _ => xdrRpcbRmtcallres xresults) { msg with acptedRply := { msg.acptedRply with arVerf := nullAuth } }
      (overruns_xdrRpcbRmtcallres XdrMem.lawful xresults) _ uaddress hBefore (Nat.zero_le _) hSize
      hClean
    rw [← Bool.not_eq_true, hOverruns]
    unfold addressLength
    dsimp only
    generalize rndup (wordAt inbuf 16).toNat = pad
    constructor
    · intro hInside w _ hAddress
      split at hAddress
      · next hHeader =>
          cases hAddress
          obtain ⟨hLen, hDirection, hStat, hVerf, hSuccess⟩ := hHeader
          rw [Nat.add_comm pad] at hLen hSuccess ⊢
          by_contra hBetween
          rw [not_or, Nat.not_lt, Nat.not_lt] at hBetween
          refine hInside ⟨by omega, hDirection, hStat, hVerf, hSuccess, by omega, ?_⟩
          exact ⟨hBetween.2, hBetween.1⟩
      · cases hAddress
    · rintro hAll ⟨-, hDirection, hStat, hVerf, hSuccess, hLen, hMax, hLong⟩
      rw [Nat.add_comm _ pad] at hSuccess hMax hLong
      have hHere := hAll _ hXid (if_pos ⟨by omega, hDirection, hStat, hVerf, hSuccess⟩)
      omega
  · rw [if_neg hXid]
    refine iff_of_true ?_ fun w hSame => absurd hSame hXid
    split
    · have hQuiet := overruns_xdrReplymsg (P := False) XdrMem.lawful
        (fun _ => xdrRmtcallres xresults) { msg with acptedRply := { msg.acptedRply with arVerf := nullAuth } }
        (Overruns.of_quiet (quiet_xdrRmtcallres xresults)) _ uaddress hBefore (Nat.zero_le _) hSize
        hClean
      rw [← Bool.not_eq_true, hQuiet]
      exact fun h => h.2.2.2.2.2
    · exact hClean

/-- A reply whose address is `n` letters long, where four divides `n`. -/
def bcastAnswer (n : Nat) : List UInt8 :=
  [1, reply, msgAccepted, 0, 0, success, BitVec.ofNat 32 n].flatMap Word.toBytes ++
    (List.replicate n 65 ++ Word.toBytes 0)

/-- `uaddress` before the first reply. -/
def freshUaddress : Block := { cells := List.replicate uaddressSize 0, overrun := false }

/-- `msg` before the first reply. -/
def freshReply : ReplyMsg where
  rmXid := 1
  rmDirection := call
  rpStat := msgAccepted
  acptedRply := { arVerf := nullAuth, arStat := success, arVers := ⟨0, 0⟩ }
  rjctedRply := { rjStat := 0, rjVers := ⟨0, 0⟩, rjWhy := 0 }

/-- An address of 8 letters. -/
theorem bcastReply_fits_short :
    (bcastReply ⟨Word.toBytes 1, none⟩ (pure ()) freshReply true (bcastAnswer 8)
      freshUaddress).2.overrun = false := by
  rw [bcastReply_fits_iff _ _ _ _ _ (by decide +kernel) rfl]
  intro w _ hAddress
  have hEight : addressLength (bcastAnswer 8) = some 8 := by decide
  rw [hEight] at hAddress
  cases hAddress
  decide

/-- An address of 1024 letters is accepted, and its null is stored behind `uaddress`. -/
theorem not_bcastReply_fits :
    ¬ ∀ (xids : BcastXids) (xresults : Fallible XdrMem Unit) (msg : ReplyMsg) (aligned : Bool)
      (inbuf : List UInt8) (uaddress : Block), uaddress.cells.length = uaddressSize →
      uaddress.overrun = false →
      (bcastReply xids xresults msg aligned inbuf uaddress).1.isSome →
      (bcastReply xids xresults msg aligned inbuf uaddress).2.overrun = false := by
  intro h
  have hLong := h ⟨Word.toBytes 1, none⟩ (pure ()) freshReply true (bcastAnswer 1024)
    freshUaddress (by decide +kernel) rfl
  revert hLong
  decide +kernel

end OncRpc
