import OncRpc.Clnt.DgCall
import OncRpc.Clnt.VcCallRun

/-! The verifier of a reply: `xdr_replymsg` allocates its body, and `clnt_vc_call` and
`clnt_dg_call` have to free it. -/
namespace OncRpc

open Fallible XdrOps

/-- A stream, and how often each body that was allocated has been freed. -/
structure Owned (σ : Type) where
  xdrs : σ
  frees : List Nat

/-- `mem_free` of a body. -/
def freeBody (p : Nat) (frees : List Nat) : List Nat := frees.modify p (· + 1)

section Routine

variable {σ : Type} [XdrOps σ] {α : Type}

/-- What does not come to the heap. -/
def onXdrs (m : Fallible σ α) : Fallible (Owned σ) α := fun s =>
  let r := m.run s.xdrs
  (r.1, { s with xdrs := r.2 })

/-- The bytes are read into memory that is allocated, which is freed again if they are not there. -/
def allocBytes (nodesize : Nat) : Fallible (Owned σ) (List UInt8 × Nat) := fun s =>
  let sp := s.frees.length
  let frees := s.frees ++ [0]
  match (xdrOpaque .decode (memAlloc nodesize) nodesize).run s.xdrs with
  | (some bs, xdrs) => (some (bs, sp), { xdrs := xdrs, frees := frees })
  | (none, xdrs) => (none, { xdrs := xdrs, frees := freeBody sp frees })

/-- `xdr_bytes` in the direction `XDR_DECODE` with a null `*cpp`: the bytes, `*sizep`, and what
`*cpp` is then. -/
def xdrBytesPtr (maxsize : Nat) :
    Fallible (Owned σ) ((Option (List UInt8) × BitVec 32) × Option Nat) := do
  let size ← onXdrs (xdrUInt .decode 0)
  let nodesize := size.toNat
  require (¬ nodesize > maxsize)
  if nodesize = 0 then pure ((none, size), none)
  else do
    let sp ← allocBytes nodesize
    pure ((some sp.1, size), some sp.2)

/-- `xdr_opaque_auth` into `_null_auth`. -/
def xdrOpaqueAuthPtr : Fallible (Owned σ) (OpaqueAuth × Option Nat) := do
  let flavor ← onXdrs (xdrEnum .decode 0)
  let body ← xdrBytesPtr maxAuthBytes
  pure ({ oaFlavor := flavor, oaBase := body.1.1, oaLength := body.1.2 }, body.2)

/-- `xdr_accepted_reply` behind the verifier. -/
def xdrAcceptedRest (results : Fallible σ Unit) (verf : OpaqueAuth) (ar : AcceptedReply) :
    Fallible σ AcceptedReply := do
  let stat ← xdrEnum .decode ar.arStat
  if stat = success then do
    results
    pure { ar with arVerf := verf, arStat := stat }
  else if stat = progMismatch then do
    let vers ← xdrVersions .decode ar.arVers
    pure { arVerf := verf, arStat := stat, arVers := vers }
  else pure { ar with arVerf := verf, arStat := stat }

/-- What a reply begins with: the transaction id, `REPLY`, and `enum reply_stat`. -/
def replyHead (rmsg : ReplyMsg) : Fallible σ ReplyMsg := do
  let xid ← xdrUInt32T .decode rmsg.rmXid
  let direction ← xdrEnum .decode rmsg.rmDirection
  require (direction = reply)
  let stat ← xdrEnum .decode rmsg.rpStat
  pure { rmsg with rmXid := xid, rmDirection := direction, rpStat := stat }

/-- `xdr_replymsg` in the direction `XDR_DECODE`, with what `ar_verf.oa_base` is then. -/
def xdrReplymsgPtr (results : Fallible σ Unit) (rmsg : ReplyMsg) :
    Fallible (Owned σ) (ReplyMsg × Option Nat) := do
  let msg ← onXdrs (replyHead rmsg)
  if msg.rpStat = msgAccepted then do
    let verf ← xdrOpaqueAuthPtr
    let ar ← onXdrs (xdrAcceptedRest results verf.1 rmsg.acptedRply)
    pure ({ msg with acptedRply := ar }, verf.2)
  else if msg.rpStat = msgDenied then do
    let rr ← onXdrs (xdrRejectedReply .decode rmsg.rjctedRply)
    pure ({ msg with rjctedRply := rr }, none)
  else fail

end Routine

/-! ### The calls -/

/-- A record as it can be read: its bytes, and whether the connection fails behind them or the
record ends. -/
structure ReplyStrm where
  bytes : List UInt8
  broken : Bool
  /-- `ct_error` is set. -/
  failed : Bool := false
  deriving DecidableEq, Repr

namespace ReplyStrm

def getbytes (n : Nat) : Fallible ReplyStrm (List UInt8) := fun s =>
  if n ≤ s.bytes.length then (some (s.bytes.take n), { s with bytes := s.bytes.drop n })
  else (none, { s with failed := s.failed || s.broken })

instance : XdrOps ReplyStrm where
  getlong := do
    let bs ← getbytes 4
    pure (Word.ofBytes bs)
  putlong _ := fail
  getbytes := getbytes
  putbytes _ := fail
  inline _ _ := pure none
  load _ _ _ _ := []
  store _ _ s := s

end ReplyStrm

/-- What `xdrrec_skiprecord` comes to in a round of `clnt_vc_call`, and what `reply_msg` holds then
but for its verifier. -/
inductive VcRound where
  | failed
  | record (strm : ReplyStrm) (stale : ReplyMsg)

/-- What a pass of `clnt_vc_call` meets: whether it returns before it waits, the transaction id of
its message, the records that there are so far, what `cl_auth` does, and what `xdr_results` and it
set `re_status` to. -/
structure VcMet where
  before : Option ClntStat
  xid : BitVec 32
  rounds : List VcRound
  validate : OpaqueAuth → Bool
  results : Option ClntStat
  refresh : Bool

/-- How the loop of a pass ends. -/
inductive VcHeard where
  | returns (stat : ClntStat)
  | reply (msg : ReplyMsg) (oaBase : Option Nat)

/-- The loop that receives. Without a result it still waits. -/
def vcRoundsPtr (xid : BitVec 32) : List VcRound → List Nat → Option VcHeard × List Nat
  | [], frees => (none, frees)
  | .failed :: _, frees => (some (.returns .cantRecv), frees)
  | .record strm stale :: rounds, frees =>
      match (xdrReplymsgPtr (pure ()) (skeleton stale)).run ⟨strm, frees⟩ with
      | (none, s) =>
          if s.xdrs.failed then (some (.returns .cantRecv), s.frees)
          else vcRoundsPtr xid rounds s.frees
      | (some (msg, oaBase), s) =>
          if msg.rmXid = xid then (some (.reply msg oaBase), s.frees)
          else vcRoundsPtr xid rounds s.frees

/-- `xdr_opaque_auth` in the direction `XDR_FREE`, if there is a body. -/
def freeVerf (oaBase : Option Nat) (frees : List Nat) : List Nat :=
  match oaBase with
  | some p => freeBody p frees
  | none => frees

/-- The passes of `clnt_vc_call` that may still refresh the credentials so many times. -/
def vcCallPtr : Nat → (Nat → VcMet) → List Nat → Option ClntStat × List Nat
  | refreshes, passes, frees =>
      match (passes 0).before with
      | some stat => (some stat, frees)
      | none =>
          match vcRoundsPtr (passes 0).xid (passes 0).rounds frees, refreshes with
          | (none, frees), _ => (none, frees)
          | (some (.returns stat), frees), _ => (some stat, frees)
          | (some (.reply msg oaBase), frees), refreshes =>
              if seterrReply msg = .success then
                let stat := if (passes 0).validate msg.acptedRply.arVerf then
                    (passes 0).results.getD (.replied .success)
                  else .invalidResp
                (some stat, freeVerf oaBase frees)
              else
                match refreshes with
                | 0 => (some (.replied (seterrReply msg)), frees)
                | refreshes + 1 =>
                    if (passes 0).refresh then
                      vcCallPtr refreshes (fun i => passes (i + 1)) frees
                    else (some (.replied (seterrReply msg)), frees)

/-- How the wait of a pass of `clnt_dg_call` ends. -/
inductive DgHeard where
  | waits
  | returns (stat : ClntStat)
  | datagram (bytes : List UInt8)

/-- What a pass of `clnt_dg_call` meets. -/
structure DgMet where
  heard : DgHeard
  stale : ReplyMsg
  validate : OpaqueAuth → Bool
  refresh : Bool

/-- What is made of the datagram that ends the wait. -/
def dgReplyPtr (results : Fallible XdrMem Unit) (met : DgMet) (datagram : List UInt8)
    (frees : List Nat) : DgEnd × List Nat :=
  let xdrs := XdrMem.xdrmemCreate datagram datagram.length true
  match (xdrReplymsgPtr results (skeleton met.stale)).run ⟨xdrs, frees⟩ with
  | (none, s) => (.returns .cantDecodeRes, s.frees)
  | (some (msg, oaBase), s) =>
      match seterrReply msg with
      | .success =>
          (.returns (if met.validate msg.acptedRply.arVerf then .replied .success
              else .invalidResp),
            freeVerf oaBase s.frees)
      | .authError why => (.refused why, s.frees)
      | err => (.returns (.replied err), s.frees)

/-- The passes of `clnt_dg_call` that may still refresh the credentials so many times. -/
def dgCallPtr (results : Fallible XdrMem Unit) :
    Nat → (Nat → DgMet) → List Nat → Option ClntStat × List Nat
  | refreshes, passes, frees =>
      match (passes 0).heard with
      | .waits => (none, frees)
      | .returns stat => (some stat, frees)
      | .datagram bytes =>
          match dgReplyPtr results (passes 0) bytes frees, refreshes with
          | (.returns stat, frees), _ => (some stat, frees)
          | (.refused why, frees), 0 => (some (.replied (.authError why)), frees)
          | (.refused why, frees), refreshes + 1 =>
              if (passes 0).refresh then
                dgCallPtr results refreshes (fun i => passes (i + 1)) frees
              else (some (.replied (.authError why)), frees)

/-- Every body that was allocated has been freed once. -/
def FreedOnce (frees : List Nat) : Prop := ∀ n ∈ frees, n = 1

instance (frees : List Nat) : Decidable (FreedOnce frees) :=
  inferInstanceAs (Decidable (∀ n ∈ frees, n = 1))

/-! ### What a reply leaves on the heap -/

section Routine

variable {σ : Type} [XdrOps σ] {α : Type}

/-- The verifier of a reply that is accepted. -/
def replyVerf (rmsg : ReplyMsg) : Fallible σ OpaqueAuth := do
  let msg ← replyHead rmsg
  require (msg.rpStat = msgAccepted)
  xdrOpaqueAuth .decode nullAuth

/-- A reply is accepted and has a verifier that is not empty. -/
def BearsBody (rmsg : ReplyMsg) (s : σ) : Prop :=
  ∃ verf, ((replyVerf rmsg).run s).1 = some verf ∧ verf.oaLength ≠ 0

omit [XdrOps σ] in
theorem run_onXdrs (m : Fallible σ α) (s : Owned σ) :
    (onXdrs m).run s = ((m.run s.xdrs).1, { s with xdrs := (m.run s.xdrs).2 }) := rfl

theorem freeBody_last (frees : List Nat) : freeBody frees.length (frees ++ [0]) = frees ++ [1] := by
  induction frees with
  | nil => rfl
  | cons n frees ih => exact congrArg (n :: ·) ih

theorem run_allocBytes (nodesize : Nat) (s : Owned σ) :
    (allocBytes nodesize).run s =
      match (xdrOpaque .decode (memAlloc nodesize) nodesize).run s.xdrs with
      | (some bs, xdrs) => (some (bs, s.frees.length), ⟨xdrs, s.frees ++ [0]⟩)
      | (none, xdrs) => (none, ⟨xdrs, s.frees ++ [1]⟩) := by
  rw [← freeBody_last]
  rfl

/-- The body of a verifier is allocated where it is not empty, and it is freed again where it cannot
be read. -/
theorem xdrBytesPtr_cases (maxsize : Nat) (s : Owned σ) :
    let r := (xdrBytesPtr maxsize).run s
    let v := (xdrBytes maxsize .decode (none, 0)).run s.xdrs
    r.2.xdrs = v.2 ∧ r.1.map Prod.fst = v.1 ∧
      ((∃ body, v.1 = some body ∧ body.2 ≠ 0 ∧ r.1 = some (body, some s.frees.length) ∧
          r.2.frees = s.frees ++ [0]) ∨
        (∀ body, v.1 = some body → body.2 = 0) ∧ (∀ m, r.1 = some m → m.2 = none) ∧
          (r.2.frees = s.frees ∨ r.2.frees = s.frees ++ [1])) := by
  unfold xdrBytesPtr xdrBytes
  dsimp only
  rw [run_bind, run_bind, run_onXdrs]
  rcases hSize : (xdrUInt .decode 0 : Fallible σ (BitVec 32)).run s.xdrs with ⟨- | size, t⟩
  · exact ⟨rfl, rfl, Or.inr ⟨nofun, nofun, Or.inl rfl⟩⟩
  · dsimp only
    rw [run_bind, run_bind]
    by_cases hMax : size.toNat > maxsize
    · have hOwned : (require (¬ size.toNat > maxsize) : Fallible (Owned σ) Unit).run
          ⟨t, s.frees⟩ = (none, ⟨t, s.frees⟩) := by
        rw [run_require, if_neg (not_not.mpr hMax)]
      have hPlain : (require (¬ (size.toNat > maxsize ∧ XdrOp.decode ≠ .free)) :
          Fallible σ Unit).run t = (none, t) := by
        rw [run_require, if_neg (not_not.mpr ⟨hMax, nofun⟩)]
      rw [hOwned, hPlain]
      exact ⟨rfl, rfl, Or.inr ⟨nofun, nofun, Or.inl rfl⟩⟩
    · have hOwned : (require (¬ size.toNat > maxsize) : Fallible (Owned σ) Unit).run
          ⟨t, s.frees⟩ = (some (), ⟨t, s.frees⟩) := by
        rw [run_require, if_pos hMax]
      have hPlain : (require (¬ (size.toNat > maxsize ∧ XdrOp.decode ≠ .free)) :
          Fallible σ Unit).run t = (some (), t) := by
        rw [run_require, if_pos fun h => hMax h.1]
      rw [hOwned, hPlain]
      dsimp only
      by_cases hZero : size.toNat = 0
      · have hSize : size = 0 := BitVec.eq_of_toNat_eq hZero
        rw [if_pos hZero, if_pos hZero]
        refine ⟨rfl, rfl, Or.inr ⟨fun body hBody => ?_, fun m hm => ?_, Or.inl rfl⟩⟩
        · cases hBody
          exact hSize
        · cases hm
          rfl
      · have hNe : size ≠ 0 := by
          rintro rfl
          exact hZero rfl
        rw [if_neg hZero, if_neg hZero, run_bind, run_bind, run_allocBytes]
        dsimp only [Option.getD_none]
        rcases hBody : (xdrOpaque .decode (memAlloc size.toNat) size.toNat : Fallible σ _).run t
          with ⟨- | bs, t'⟩
        · exact ⟨rfl, rfl, Or.inr ⟨nofun, nofun, Or.inr rfl⟩⟩
        · exact ⟨rfl, rfl, Or.inl ⟨_, rfl, hNe, rfl, rfl⟩⟩

theorem xdrOpaqueAuthPtr_cases (s : Owned σ) :
    let r := xdrOpaqueAuthPtr.run s
    let v := (xdrOpaqueAuth .decode nullAuth).run s.xdrs
    r.2.xdrs = v.2 ∧ r.1.map Prod.fst = v.1 ∧
      ((∃ verf, v.1 = some verf ∧ verf.oaLength ≠ 0 ∧ r.1 = some (verf, some s.frees.length) ∧
          r.2.frees = s.frees ++ [0]) ∨
        (∀ verf, v.1 = some verf → verf.oaLength = 0) ∧ (∀ m, r.1 = some m → m.2 = none) ∧
          (r.2.frees = s.frees ∨ r.2.frees = s.frees ++ [1])) := by
  unfold xdrOpaqueAuthPtr xdrOpaqueAuth
  dsimp only [nullAuth]
  rw [run_bind, run_bind, run_onXdrs]
  rcases hFlavor : (xdrEnum .decode 0 : Fallible σ (BitVec 32)).run s.xdrs with ⟨- | flavor, t⟩
  · exact ⟨rfl, rfl, Or.inr ⟨nofun, nofun, Or.inl rfl⟩⟩
  · dsimp only
    rw [run_bind, run_bind]
    obtain ⟨hXdrs, hAnswer, hFrees⟩ := xdrBytesPtr_cases maxAuthBytes (⟨t, s.frees⟩ : Owned σ)
    generalize (xdrBytesPtr maxAuthBytes).run (⟨t, s.frees⟩ : Owned σ) = r at hXdrs hAnswer hFrees ⊢
    generalize (xdrBytes maxAuthBytes .decode (none, 0)).run t = v at hXdrs hAnswer hFrees ⊢
    obtain ⟨body, s'⟩ := r
    obtain ⟨plain, t'⟩ := v
    dsimp only at hXdrs hAnswer hFrees ⊢
    subst hAnswer
    rcases body with - | ⟨body, base⟩
    · refine ⟨hXdrs, rfl, Or.inr ⟨nofun, nofun, ?_⟩⟩
      rcases hFrees with ⟨body, hSome, -⟩ | ⟨-, -, hFrees⟩
      · cases hSome
      · exact hFrees
    · refine ⟨hXdrs, rfl, ?_⟩
      rcases hFrees with ⟨body', hSome, hNe, hBase, hFrees⟩ | ⟨hZero, hNone, hFrees⟩
      · cases hSome
        cases hBase
        exact Or.inl ⟨_, rfl, hNe, rfl, hFrees⟩
      · refine Or.inr ⟨fun verf hVerf => ?_, fun m hm => ?_, hFrees⟩
        · cases hVerf
          exact hZero body rfl
        · cases hm
          exact hNone (body, base) rfl

/-- `xdr_replymsg` in the direction `XDR_DECODE`, by what a reply begins with. -/
theorem xdrReplymsg_decode (results : Fallible σ Unit) {rmsg : ReplyMsg}
    (hVerf : rmsg.acptedRply.arVerf = nullAuth) :
    xdrReplymsg (fun _ => results) .decode rmsg = replyHead rmsg >>= fun msg =>
      if msg.rpStat = msgAccepted then do
        let verf ← xdrOpaqueAuth .decode nullAuth
        let ar ← xdrAcceptedRest results verf rmsg.acptedRply
        pure { msg with acptedRply := ar }
      else if msg.rpStat = msgDenied then do
        let rr ← xdrRejectedReply .decode rmsg.rjctedRply
        pure { msg with rjctedRply := rr }
      else Fallible.fail := by
  unfold xdrReplymsg replyHead
  simp only [xdrUnion_replyDscrm, bind_assoc, pure_bind]
  refine bind_congr fun xid => bind_congr fun direction => bind_congr fun _ =>
    bind_congr fun stat => ?_
  unfold replyArm
  by_cases hAccepted : stat = msgAccepted
  · subst hAccepted
    simp only [if_true, bind_assoc, pure_bind, xdrAcceptedReply, xdrAcceptedRest, hVerf]
  · by_cases hDenied : stat = msgDenied
    · subst hDenied
      simp only [if_neg hAccepted, if_true, bind_assoc, pure_bind]
    · simp only [if_neg hAccepted, if_neg hDenied]
      rfl

/-- A reply that is decoded leaves a body on the heap if its verifier is not empty. -/
theorem xdrReplymsgPtr_cases (results : Fallible σ Unit) (rmsg : ReplyMsg)
    (hVerf : rmsg.acptedRply.arVerf = nullAuth) (s : Owned σ) :
    let r := (xdrReplymsgPtr results rmsg).run s
    let v := (xdrReplymsg (fun _ => results) .decode rmsg).run s.xdrs
    r.2.xdrs = v.2 ∧ r.1.map Prod.fst = v.1 ∧
      ((BearsBody rmsg s.xdrs ∧ r.2.frees = s.frees ++ [0] ∧
          ∀ m, r.1 = some m → m.2 = some s.frees.length) ∨
        ¬ BearsBody rmsg s.xdrs ∧ (r.2.frees = s.frees ∨ r.2.frees = s.frees ++ [1]) ∧
          ∀ m, r.1 = some m → m.2 = none) := by
  rw [xdrReplymsg_decode results hVerf]
  unfold xdrReplymsgPtr BearsBody replyVerf
  dsimp only
  rw [run_bind, run_bind, run_bind, run_onXdrs]
  rcases hHead : (replyHead rmsg).run s.xdrs with ⟨- | msg, t⟩
  · refine ⟨rfl, rfl, Or.inr ⟨?_, Or.inl rfl, nofun⟩⟩
    rintro ⟨verf, hSome, -⟩
    cases hSome
  dsimp only
  by_cases hAccepted : msg.rpStat = msgAccepted
  · have hRequire : (require (msg.rpStat = msgAccepted) : Fallible σ Unit).run t =
        (some (), t) := by
      rw [run_require, if_pos hAccepted]
    rw [if_pos hAccepted, if_pos hAccepted, run_bind, run_bind, run_bind, hRequire]
    dsimp only
    obtain ⟨hXdrs, hAnswer, hFrees⟩ := xdrOpaqueAuthPtr_cases (⟨t, s.frees⟩ : Owned σ)
    generalize (xdrOpaqueAuthPtr).run (⟨t, s.frees⟩ : Owned σ) = r at hXdrs hAnswer hFrees ⊢
    generalize (xdrOpaqueAuth .decode nullAuth).run t = v at hXdrs hAnswer hFrees ⊢
    obtain ⟨verf, s'⟩ := r
    obtain ⟨plain, t'⟩ := v
    dsimp only at hXdrs hAnswer hFrees ⊢
    subst hAnswer hXdrs
    rcases verf with - | ⟨verf, base⟩
    · refine ⟨rfl, rfl, Or.inr ⟨?_, ?_, nofun⟩⟩
      · rintro ⟨verf, hSome, -⟩
        cases hSome
      · rcases hFrees with ⟨verf, hSome, -⟩ | ⟨-, -, hFrees⟩
        · cases hSome
        · exact hFrees
    · dsimp only [Option.map_some]
      rw [run_bind, run_bind, run_onXdrs]
      rcases (xdrAcceptedRest results verf rmsg.acptedRply).run s'.xdrs with ⟨- | ar, t''⟩
      · rcases hFrees with ⟨verf', hSome, hNe, hBase, hFrees⟩ | ⟨hZero, hNone, hFrees⟩
        · cases hSome
          exact ⟨rfl, rfl, Or.inl ⟨⟨verf, rfl, hNe⟩, hFrees, nofun⟩⟩
        · refine ⟨rfl, rfl, Or.inr ⟨?_, hFrees, nofun⟩⟩
          rintro ⟨verf', hSome, hNe⟩
          cases hSome
          exact hNe (hZero verf rfl)
      · rcases hFrees with ⟨verf', hSome, hNe, hBase, hFrees⟩ | ⟨hZero, hNone, hFrees⟩
        · cases hSome
          cases hBase
          refine ⟨rfl, rfl, Or.inl ⟨⟨verf, rfl, hNe⟩, hFrees, fun m hm => ?_⟩⟩
          cases hm
          rfl
        · refine ⟨rfl, rfl, Or.inr ⟨?_, hFrees, fun m hm => ?_⟩⟩
          · rintro ⟨verf', hSome, hNe⟩
            cases hSome
            exact hNe (hZero verf rfl)
          · cases hm
            exact hNone (verf, base) rfl
  · have hBears : ¬ ∃ verf, ((do
        require (msg.rpStat = msgAccepted)
        xdrOpaqueAuth .decode nullAuth : Fallible σ OpaqueAuth).run t).1 = some verf ∧
          verf.oaLength ≠ 0 := by
      rintro ⟨verf, hSome, -⟩
      rw [run_bind, run_require, if_neg hAccepted] at hSome
      cases hSome
    rw [if_neg hAccepted, if_neg hAccepted]
    by_cases hDenied : msg.rpStat = msgDenied
    · rw [if_pos hDenied, if_pos hDenied, run_bind, run_bind, run_onXdrs]
      dsimp only
      rcases (xdrRejectedReply .decode rmsg.rjctedRply).run t with ⟨- | rr, t'⟩
      · exact ⟨rfl, rfl, Or.inr ⟨hBears, Or.inl rfl, nofun⟩⟩
      · refine ⟨rfl, rfl, Or.inr ⟨hBears, Or.inl rfl, fun m hm => ?_⟩⟩
        cases hm
        rfl
    · rw [if_neg hDenied, if_neg hDenied]
      exact ⟨rfl, rfl, Or.inr ⟨hBears, Or.inl rfl, nofun⟩⟩

end Routine

/-! ### What the calls free -/

theorem freedOnce_append (frees frees' : List Nat) :
    FreedOnce (frees ++ frees') ↔ FreedOnce frees ∧ FreedOnce frees' := by
  simp only [FreedOnce, List.mem_append, or_imp, forall_and]

theorem freedOnce_one : FreedOnce [1] := by decide

theorem not_freedOnce_zero : ¬ FreedOnce [0] := by decide

/-- A record, and what `reply_msg` holds when it is decoded. -/
abbrev HeardReply : Type := ReplyStrm × ReplyMsg

def HeardReply.Bears (q : HeardReply) : Prop := BearsBody (skeleton q.2) q.1

/-- The records that a pass decodes: those that it does not take for its reply, and the one that it
takes. -/
def vcHeard (xid : BitVec 32) : List VcRound → List HeardReply × Option (HeardReply × ReplyMsg)
  | [] => ([], none)
  | .failed :: _ => ([], none)
  | .record strm stale :: rounds =>
      match (decodeReply (skeleton stale)).run strm with
      | (none, s) =>
          if s.failed then ([(strm, stale)], none)
          else ((strm, stale) :: (vcHeard xid rounds).1, (vcHeard xid rounds).2)
      | (some msg, _) =>
          if msg.rmXid = xid then ([], some ((strm, stale), msg))
          else ((strm, stale) :: (vcHeard xid rounds).1, (vcHeard xid rounds).2)

/-- A verifier that is not empty comes with the successful reply to the call only. -/
def VcReleases : Nat → (Nat → VcMet) → Prop
  | refreshes, passes =>
      let heard := vcHeard (passes 0).xid (passes 0).rounds
      (passes 0).before = none →
        (∀ q ∈ heard.1, ¬ q.Bears) ∧ ∀ q msg, heard.2 = some (q, msg) →
          (q.Bears → seterrReply msg = .success) ∧
            match refreshes with
            | 0 => True
            | refreshes + 1 => seterrReply msg ≠ .success → (passes 0).refresh = true →
                VcReleases refreshes fun i => passes (i + 1)

/-- A verifier that is not empty comes with a successful reply only. -/
def DgReleases (results : Fallible XdrMem Unit) : Nat → (Nat → DgMet) → Prop
  | refreshes, passes => ∀ bytes, (passes 0).heard = .datagram bytes →
      let xdrs := XdrMem.xdrmemCreate bytes bytes.length true
      let msg :=
        ((xdrReplymsg (fun _ => results) .decode (skeleton (passes 0).stale)).run xdrs).1
      (BearsBody (skeleton (passes 0).stale) xdrs → msg.map seterrReply = some .success) ∧
        match refreshes with
        | 0 => True
        | refreshes + 1 => ∀ why, msg.map seterrReply = some (.authError why) →
            (passes 0).refresh = true → DgReleases results refreshes fun i => passes (i + 1)

/-- Decoding a reply leaves nothing to be freed but its verifier. -/
theorem freedOnce_xdrReplymsgPtr {σ : Type} [XdrOps σ] (results : Fallible σ Unit)
    (stale : ReplyMsg) (s : Owned σ) :
    let r := (xdrReplymsgPtr results (skeleton stale)).run s
    (FreedOnce r.2.frees ↔ FreedOnce s.frees ∧ ¬ BearsBody (skeleton stale) s.xdrs) ∧
      ∀ msg base, r.1 = some (msg, base) →
        (FreedOnce (freeVerf base r.2.frees) ↔ FreedOnce s.frees) := by
  obtain ⟨-, -, hFrees⟩ := xdrReplymsgPtr_cases results (skeleton stale) rfl s
  dsimp only at hFrees ⊢
  generalize (xdrReplymsgPtr results (skeleton stale)).run s = r at hFrees ⊢
  rcases hFrees with ⟨hBears, hFrees, hBase⟩ | ⟨hBears, hFrees, hBase⟩
  · refine ⟨?_, fun msg base hSome => ?_⟩
    · rw [hFrees, freedOnce_append]
      exact ⟨fun h => absurd h.2 not_freedOnce_zero, fun h => absurd hBears h.2⟩
    · have hPtr : base = some s.frees.length := hBase (msg, base) hSome
      rw [hPtr, hFrees, freeVerf, freeBody_last, freedOnce_append]
      exact and_iff_left freedOnce_one
  · have hSame : FreedOnce r.2.frees ↔ FreedOnce s.frees := by
      rcases hFrees with hFrees | hFrees
      · rw [hFrees]
      · rw [hFrees, freedOnce_append]
        exact and_iff_left freedOnce_one
    refine ⟨by rw [hSame, and_iff_left hBears], fun msg base hSome => ?_⟩
    have hPtr : base = none := hBase (msg, base) hSome
    rw [hPtr, freeVerf, hSame]

/-- What the loop of a pass leaves on the heap, and what is left when the verifier of the reply is
freed then. -/
def LoopFrees (heard : List HeardReply × Option (HeardReply × ReplyMsg)) (frees : List Nat)
    (r : Option VcHeard × List Nat) : Prop :=
  (heard.2 = none ∧ (∀ msg base, r.1 ≠ some (.reply msg base)) ∧
      (FreedOnce r.2 ↔ FreedOnce frees ∧ ∀ q ∈ heard.1, ¬ q.Bears)) ∨
    ∃ q msg base, heard.2 = some (q, msg) ∧ r.1 = some (.reply msg base) ∧
      (FreedOnce r.2 ↔ FreedOnce frees ∧ (∀ q' ∈ heard.1, ¬ q'.Bears) ∧ ¬ q.Bears) ∧
      (FreedOnce (freeVerf base r.2) ↔ FreedOnce frees ∧ ∀ q' ∈ heard.1, ¬ q'.Bears)

/-- A record in front that is not taken for the reply. -/
theorem LoopFrees.skip {heard : List HeardReply × Option (HeardReply × ReplyMsg)}
    {frees frees' : List Nat} {r : Option VcHeard × List Nat} {q : HeardReply}
    (h : LoopFrees heard frees' r) (hFirst : FreedOnce frees' ↔ FreedOnce frees ∧ ¬ q.Bears) :
    LoopFrees (q :: heard.1, heard.2) frees r := by
  rcases h with ⟨hNone, hNoReply, hFrees⟩ | ⟨q', msg, base, hSome, hReply, hFrees, hFreed⟩
  · refine Or.inl ⟨hNone, hNoReply, ?_⟩
    rw [hFrees, hFirst, List.forall_mem_cons, and_assoc]
  · refine Or.inr ⟨q', msg, base, hSome, hReply, ?_, ?_⟩
    · rw [hFrees, hFirst, List.forall_mem_cons, and_assoc, and_assoc]
    · rw [hFreed, hFirst, List.forall_mem_cons, and_assoc]

theorem vcRoundsPtr_frees (xid : BitVec 32) (rounds : List VcRound) (frees : List Nat) :
    LoopFrees (vcHeard xid rounds) frees (vcRoundsPtr xid rounds frees) := by
  induction rounds generalizing frees with
  | nil => exact Or.inl ⟨rfl, nofun, by simp [vcRoundsPtr, vcHeard]⟩
  | cons round rounds ih =>
      cases round with
      | failed => exact Or.inl ⟨rfl, nofun, by simp [vcRoundsPtr, vcHeard]⟩
      | record strm stale =>
          obtain ⟨hXdrs, hAnswer, -⟩ := xdrReplymsgPtr_cases (pure ()) (skeleton stale) rfl
            (⟨strm, frees⟩ : Owned ReplyStrm)
          obtain ⟨hFrees, hFreed⟩ := freedOnce_xdrReplymsgPtr (pure ()) stale
            (⟨strm, frees⟩ : Owned ReplyStrm)
          have hBears : HeardReply.Bears (strm, stale) ↔ BearsBody (skeleton stale) strm := Iff.rfl
          dsimp only at hXdrs hAnswer hFrees hFreed
          rw [← hBears] at hFrees
          rw [vcRoundsPtr, vcHeard, decodeReply]
          generalize (xdrReplymsgPtr (pure ()) (skeleton stale)).run
            (⟨strm, frees⟩ : Owned ReplyStrm) = r at hXdrs hAnswer hFrees hFreed ⊢
          generalize (xdrReplymsg (fun _ => pure ()) .decode (skeleton stale)).run strm = v
            at hXdrs hAnswer ⊢
          obtain ⟨- | ⟨msg, base⟩, s⟩ := r
          · obtain ⟨plain, t⟩ := v
            cases hAnswer
            cases hXdrs
            dsimp only at hFrees ⊢
            by_cases hFailed : s.xdrs.failed = true
            · rw [if_pos hFailed, if_pos hFailed]
              refine Or.inl ⟨rfl, nofun, ?_⟩
              rw [hFrees, List.forall_mem_singleton]
            · rw [if_neg hFailed, if_neg hFailed]
              exact (ih s.frees).skip hFrees
          · obtain ⟨plain, t⟩ := v
            cases hAnswer
            dsimp only [Option.map_some] at hFrees ⊢
            by_cases hXid : msg.rmXid = xid
            · rw [if_pos hXid, if_pos hXid]
              refine Or.inr ⟨_, msg, base, rfl, rfl, ?_, ?_⟩
              · rw [hFrees]
                simp
              · rw [hFreed msg base rfl]
                simp
            · rw [if_neg hXid, if_neg hXid]
              exact (ih s.frees).skip hFrees

/-- What becomes of the heap behind the loop. -/
theorem vcCallPtr_cases {refreshes : Nat} {passes : Nat → VcMet} {frees out : List Nat}
    (hBefore : (passes 0).before = none) (hOut : (vcCallPtr refreshes passes frees).2 = out) :
    let r := vcRoundsPtr (passes 0).xid (passes 0).rounds frees
    (∀ msg base, r.1 ≠ some (.reply msg base)) ∧ out = r.2 ∨
      ∃ msg base, r.1 = some (.reply msg base) ∧
        (seterrReply msg = .success ∧ out = freeVerf base r.2 ∨
          seterrReply msg ≠ .success ∧
            ((∃ n, refreshes = n + 1 ∧ (passes 0).refresh = true ∧
                out = (vcCallPtr n (fun i => passes (i + 1)) r.2).2) ∨
              (∀ n, refreshes = n + 1 → (passes 0).refresh = false) ∧ out = r.2)) := by
  unfold vcCallPtr at hOut
  dsimp only at hOut ⊢
  rw [hBefore] at hOut
  dsimp only at hOut
  generalize vcRoundsPtr (passes 0).xid (passes 0).rounds frees = r at hOut ⊢
  rcases r with ⟨- | (stat | ⟨msg, base⟩), frees'⟩
  · exact Or.inl ⟨nofun, hOut.symm⟩
  · exact Or.inl ⟨nofun, hOut.symm⟩
  · refine Or.inr ⟨msg, base, rfl, ?_⟩
    dsimp only at hOut ⊢
    by_cases hSuccess : seterrReply msg = .success
    · rw [if_pos hSuccess] at hOut
      exact Or.inl ⟨hSuccess, hOut.symm⟩
    · rw [if_neg hSuccess] at hOut
      refine Or.inr ⟨hSuccess, ?_⟩
      rcases refreshes with - | refreshes
      · exact Or.inr ⟨nofun, hOut.symm⟩
      · dsimp only at hOut
        by_cases hRefresh : (passes 0).refresh = true
        · rw [if_pos hRefresh] at hOut
          exact Or.inl ⟨refreshes, rfl, hRefresh, hOut.symm⟩
        · rw [if_neg hRefresh] at hOut
          exact Or.inr ⟨fun n _ => by simpa using hRefresh, hOut.symm⟩

theorem vcReleases_iff (refreshes : Nat) (passes : Nat → VcMet) :
    VcReleases refreshes passes ↔ ((passes 0).before = none →
      let heard := vcHeard (passes 0).xid (passes 0).rounds
      (∀ q ∈ heard.1, ¬ q.Bears) ∧ ∀ q msg, heard.2 = some (q, msg) →
        (q.Bears → seterrReply msg = .success) ∧ ∀ n, refreshes = n + 1 →
          seterrReply msg ≠ .success → (passes 0).refresh = true →
            VcReleases n fun i => passes (i + 1)) := by
  cases refreshes with
  | zero =>
      rw [VcReleases]
      simp
  | succ refreshes =>
      rw [VcReleases]
      simp

/-- What `clnt_vc_call` leaves on the heap. -/
theorem vcCallPtr_frees (refreshes : Nat) (passes : Nat → VcMet) (frees : List Nat) :
    FreedOnce (vcCallPtr refreshes passes frees).2 ↔
      FreedOnce frees ∧ VcReleases refreshes passes := by
  induction refreshes using Nat.strong_induction_on generalizing passes frees with
  | _ refreshes ih =>
      rw [vcReleases_iff]
      rcases hBefore : (passes 0).before with - | stat
      · obtain ⟨out, hOut⟩ : ∃ out, (vcCallPtr refreshes passes frees).2 = out := ⟨_, rfl⟩
        have hCases := vcCallPtr_cases hBefore hOut
        have hLoop := vcRoundsPtr_frees (passes 0).xid (passes 0).rounds frees
        rw [hOut]
        dsimp only at hCases ⊢
        clear hOut
        generalize vcRoundsPtr (passes 0).xid (passes 0).rounds frees = r at hCases hLoop
        generalize vcHeard (passes 0).xid (passes 0).rounds = heard at hLoop ⊢
        rcases hLoop with ⟨hNone, hNoReply, hFrees⟩ | ⟨q, msg, base, hSome, hReply, hFrees, hFreed⟩
        · rcases hCases with ⟨-, rfl⟩ | ⟨msg, base, hReply, -⟩
          · rw [hFrees, hNone]
            simp
          · exact absurd hReply (hNoReply msg base)
        · rcases hCases with ⟨hNoReply, -⟩ | ⟨msg', base', hReply', hCases⟩
          · exact absurd hReply (hNoReply msg base)
          · rw [hReply] at hReply'
            cases hReply'
            have hOnly : (∀ q' msg', heard.2 = some (q', msg') →
                (q'.Bears → seterrReply msg' = .success) ∧ ∀ n, refreshes = n + 1 →
                  seterrReply msg' ≠ .success → (passes 0).refresh = true →
                    VcReleases n fun i => passes (i + 1)) ↔
                (q.Bears → seterrReply msg = .success) ∧ ∀ n, refreshes = n + 1 →
                  seterrReply msg ≠ .success → (passes 0).refresh = true →
                    VcReleases n fun i => passes (i + 1) := by
              rw [hSome]
              simp
            rw [hOnly]
            rcases hCases with ⟨hSuccess, rfl⟩ | ⟨hUnsuccess, hCases⟩
            · rw [hFreed]
              simp [hSuccess]
            · rcases hCases with ⟨n, rfl, hRefresh, rfl⟩ | ⟨hNoRefresh, rfl⟩
              · rw [ih n (Nat.lt_succ_self n), hFrees]
                simp [hUnsuccess, hRefresh, and_assoc]
              · rw [hFrees]
                have hVacuous : ∀ n, refreshes = n + 1 → seterrReply msg ≠ .success →
                    (passes 0).refresh = true → VcReleases n fun i => passes (i + 1) := by
                  intro n hn _ hRefresh
                  rw [hNoRefresh n hn] at hRefresh
                  cases hRefresh
                exact ⟨fun h => ⟨h.1, fun _ =>
                    ⟨h.2.1, fun hBears => absurd hBears h.2.2, hVacuous⟩⟩,
                  fun h => ⟨h.1, (h.2 rfl).1, fun hBears => hUnsuccess ((h.2 rfl).2.1 hBears)⟩⟩
      · unfold vcCallPtr
        dsimp only
        rw [hBefore]
        simp

/-- What is made of a datagram, and what that leaves on the heap. -/
theorem dgReplyPtr_cases (results : Fallible XdrMem Unit) (met : DgMet) (bytes : List UInt8)
    (frees : List Nat) :
    let r := dgReplyPtr results met bytes frees
    let xdrs := XdrMem.xdrmemCreate bytes bytes.length true
    let err := ((xdrReplymsg (fun _ => results) .decode (skeleton met.stale)).run xdrs).1.map
      seterrReply
    (err = some .success ∧ (∃ stat, r.1 = .returns stat) ∧ (FreedOnce r.2 ↔ FreedOnce frees)) ∨
      err ≠ some .success ∧
        (FreedOnce r.2 ↔ FreedOnce frees ∧ ¬ BearsBody (skeleton met.stale) xdrs) ∧
        ((∃ why, r.1 = .refused why ∧ err = some (.authError why)) ∨
          (∃ stat, r.1 = .returns stat) ∧ ∀ why, err ≠ some (.authError why)) := by
  obtain ⟨-, hAnswer, -⟩ := xdrReplymsgPtr_cases results (skeleton met.stale) rfl
    (⟨XdrMem.xdrmemCreate bytes bytes.length true, frees⟩ : Owned XdrMem)
  obtain ⟨hFrees, hFreed⟩ := freedOnce_xdrReplymsgPtr results met.stale
    (⟨XdrMem.xdrmemCreate bytes bytes.length true, frees⟩ : Owned XdrMem)
  unfold dgReplyPtr
  dsimp only at hAnswer hFrees hFreed ⊢
  rw [← hAnswer]
  generalize (xdrReplymsgPtr results (skeleton met.stale)).run
    (⟨XdrMem.xdrmemCreate bytes bytes.length true, frees⟩ : Owned XdrMem) = r at hFrees hFreed ⊢
  obtain ⟨- | ⟨msg, base⟩, s⟩ := r
  · exact Or.inr ⟨nofun, hFrees, Or.inr ⟨⟨_, rfl⟩, nofun⟩⟩
  · dsimp only [Option.map_some] at hFrees hFreed ⊢
    cases hErr : seterrReply msg with
    | success => exact Or.inl ⟨rfl, ⟨_, rfl⟩, hFreed msg base rfl⟩
    | authError why => exact Or.inr ⟨nofun, hFrees, Or.inl ⟨why, rfl, rfl⟩⟩
    | _ => exact Or.inr ⟨nofun, hFrees, Or.inr ⟨⟨_, rfl⟩, nofun⟩⟩

theorem dgReleases_iff (results : Fallible XdrMem Unit) (refreshes : Nat) (passes : Nat → DgMet) :
    DgReleases results refreshes passes ↔ ∀ bytes, (passes 0).heard = .datagram bytes →
      let xdrs := XdrMem.xdrmemCreate bytes bytes.length true
      let err := ((xdrReplymsg (fun _ => results) .decode (skeleton (passes 0).stale)).run
        xdrs).1.map seterrReply
      (BearsBody (skeleton (passes 0).stale) xdrs → err = some .success) ∧
        ∀ n, refreshes = n + 1 → ∀ why, err = some (.authError why) →
          (passes 0).refresh = true → DgReleases results n fun i => passes (i + 1) := by
  cases refreshes with
  | zero =>
      rw [DgReleases]
      simp
  | succ refreshes =>
      rw [DgReleases]
      simp

/-- What becomes of the heap behind the reply. -/
theorem dgCallPtr_cases {results : Fallible XdrMem Unit} {refreshes : Nat} {passes : Nat → DgMet}
    {frees out : List Nat} {bytes : List UInt8} (hHeard : (passes 0).heard = .datagram bytes)
    (hOut : (dgCallPtr results refreshes passes frees).2 = out) :
    let r := dgReplyPtr results (passes 0) bytes frees
    (∃ stat, r.1 = .returns stat) ∧ out = r.2 ∨ ∃ why, r.1 = .refused why ∧
      ((∃ n, refreshes = n + 1 ∧ (passes 0).refresh = true ∧
          out = (dgCallPtr results n (fun i => passes (i + 1)) r.2).2) ∨
        (∀ n, refreshes = n + 1 → (passes 0).refresh = false) ∧ out = r.2) := by
  unfold dgCallPtr at hOut
  dsimp only at hOut ⊢
  rw [hHeard] at hOut
  dsimp only at hOut
  generalize dgReplyPtr results (passes 0) bytes frees = r at hOut ⊢
  rcases r with ⟨stat | why, frees'⟩
  · exact Or.inl ⟨⟨stat, rfl⟩, hOut.symm⟩
  · refine Or.inr ⟨why, rfl, ?_⟩
    rcases refreshes with - | refreshes
    · exact Or.inr ⟨nofun, hOut.symm⟩
    · dsimp only at hOut
      by_cases hRefresh : (passes 0).refresh = true
      · rw [if_pos hRefresh] at hOut
        exact Or.inl ⟨refreshes, rfl, hRefresh, hOut.symm⟩
      · rw [if_neg hRefresh] at hOut
        exact Or.inr ⟨fun n _ => by simpa using hRefresh, hOut.symm⟩

/-- What `clnt_dg_call` leaves on the heap. -/
theorem dgCallPtr_frees (results : Fallible XdrMem Unit) (refreshes : Nat) (passes : Nat → DgMet)
    (frees : List Nat) :
    FreedOnce (dgCallPtr results refreshes passes frees).2 ↔
      FreedOnce frees ∧ DgReleases results refreshes passes := by
  induction refreshes using Nat.strong_induction_on generalizing passes frees with
  | _ refreshes ih =>
      rw [dgReleases_iff]
      rcases hHeard : (passes 0).heard with - | stat | bytes
      · unfold dgCallPtr
        dsimp only
        rw [hHeard]
        simp
      · unfold dgCallPtr
        dsimp only
        rw [hHeard]
        simp
      · obtain ⟨out, hOut⟩ : ∃ out, (dgCallPtr results refreshes passes frees).2 = out := ⟨_, rfl⟩
        have hCases := dgCallPtr_cases hHeard hOut
        have hReply := dgReplyPtr_cases results (passes 0) bytes frees
        rw [hOut]
        dsimp only at hCases hReply ⊢
        clear hOut
        generalize dgReplyPtr results (passes 0) bytes frees = r at hCases hReply
        have hOnly : ∀ P : List UInt8 → Prop,
            (∀ bytes', DgHeard.datagram bytes = .datagram bytes' → P bytes') ↔ P bytes :=
          fun P => ⟨fun h => h bytes rfl, fun h bytes' hEq => by cases hEq; exact h⟩
        rw [hOnly]
        generalize ((xdrReplymsg (fun _ => results) .decode (skeleton (passes 0).stale)).run
          (XdrMem.xdrmemCreate bytes bytes.length true)).1.map seterrReply = err at hReply ⊢
        rcases hReply with ⟨hSuccess, ⟨stat, hReturns⟩, hFrees⟩ | ⟨hFailed, hFrees, hEnd⟩
        · rcases hCases with ⟨-, rfl⟩ | ⟨why, hRefused, -⟩
          · rw [hFrees, hSuccess]
            simp
          · rw [hReturns] at hRefused
            cases hRefused
        · rcases hCases with ⟨⟨stat, hReturns⟩, rfl⟩ | ⟨why, hRefused, hCases⟩
          · rcases hEnd with ⟨why, hRefused, -⟩ | ⟨-, hNoAuth⟩
            · rw [hRefused] at hReturns
              cases hReturns
            · rw [hFrees]
              exact ⟨fun h => ⟨h.1, fun hBears => absurd hBears h.2,
                  fun n _ why hWhy => absurd hWhy (hNoAuth why)⟩,
                fun h => ⟨h.1, fun hBears => hFailed (h.2.1 hBears)⟩⟩
          · rcases hEnd with ⟨why', hRefused', hErr⟩ | ⟨⟨stat, hReturns⟩, -⟩
            · rcases hCases with ⟨n, rfl, hRefresh, rfl⟩ | ⟨hNoRefresh, rfl⟩
              · rw [ih n (Nat.lt_succ_self n), hFrees, hErr]
                simp [hRefresh, and_assoc]
              · rw [hFrees]
                refine ⟨fun h => ⟨h.1, fun hBears => absurd hBears h.2,
                    fun n hn _ _ hRefresh => ?_⟩,
                  fun h => ⟨h.1, fun hBears => hFailed (h.2.1 hBears)⟩⟩
                rw [hNoRefresh n hn] at hRefresh
                cases hRefresh
            · rw [hReturns] at hRefused
              cases hRefused

/-- Every verifier that a call decodes is freed once, if and only if none but that of a successful
reply to the call is other than empty. -/
theorem verifiers_freed_iff (results : Fallible XdrMem Unit) (vcPasses : Nat → VcMet)
    (dgPasses : Nat → DgMet) :
    (FreedOnce (vcCallPtr 2 vcPasses []).2 ↔ VcReleases 2 vcPasses) ∧
      (FreedOnce (dgCallPtr results 2 dgPasses []).2 ↔ DgReleases results 2 dgPasses) := by
  have hNil : FreedOnce [] := by decide
  exact ⟨(vcCallPtr_frees 2 vcPasses []).trans (and_iff_right hNil),
    (dgCallPtr_frees results 2 dgPasses []).trans (and_iff_right hNil)⟩

/-- A reply to another call with a verifier of four bytes, and nothing behind it. -/
def foreignReply : ReplyStrm where
  bytes := [7, reply, msgAccepted, 0, 4, 0, success].flatMap Word.toBytes
  broken := false

/-- The body of a verifier is not freed when the reply is not the one that is waited for. -/
theorem not_verifiers_freed :
    ¬ ∀ passes : Nat → VcMet, (∃ stat, (vcCallPtr 2 passes []).1 = some stat) →
      FreedOnce (vcCallPtr 2 passes []).2 := by
  intro h
  have hFreed := h (fun _ =>
    { before := none, xid := 8
      rounds := [.record foreignReply blankReply, .failed]
      validate := fun _ => true, results := none, refresh := false }) ⟨.cantRecv, by decide +kernel⟩
  revert hFreed
  decide +kernel

end OncRpc
