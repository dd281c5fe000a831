import OncRpc.Rpc.CallMsgEncode
import OncRpc.Rpcbind.Rmtcall
import OncRpc.Xdr.Sizeof

/-! `xdr_sizeof` on the filters that ask for a pointer, on those that put a length again, and on
all that are built of them. -/
namespace OncRpc

open XdrOps XdrPos Fallible

/-! ### Behind a pointer -/

section Stores

variable {σ α β : Type} {P : σ → Prop}

/-- The computation succeeds, and what holds before holds after it. -/
def Finishes (P : σ → Prop) (m : Fallible σ α) (a : α) : Prop :=
  ∀ s, P s → ∃ s', m.run s = (some a, s') ∧ P s'

theorem Finishes.pure (P : σ → Prop) (a : α) : Finishes P (Pure.pure a) a :=
  fun s hs => ⟨s, rfl, hs⟩

theorem Finishes.bind {m : Fallible σ α} {f : α → Fallible σ β} {a : α} {b : β}
    (hm : Finishes P m a) (hf : Finishes P (f a) b) : Finishes P (m >>= f) b := by
  intro s hs
  obtain ⟨s₁, hFirst, hs₁⟩ := hm s hs
  obtain ⟨s', hRest, hs'⟩ := hf s₁ hs₁
  exact ⟨s', (run_bind_some hFirst).trans hRest, hs'⟩

theorem Finishes.require {c : Prop} [Decidable c] {f : Unit → Fallible σ β} {b : β} (hc : c)
    (hf : Finishes P (f ()) b) : Finishes P (Fallible.require c >>= f) b := by
  intro s hs
  rw [run_bind_require, if_pos hc]
  exact hf s hs

variable [XdrOps σ]

/-- Stores through a pointer do not tell. -/
def KeptByStores (P : σ → Prop) : Prop := ∀ buf bs s, P s → P (XdrOps.store buf bs s)

theorem finishes_ixdrPutInt32 (hP : KeptByStores P) (buf : Nat) (v : BitVec 32) :
    Finishes P (ixdrPutInt32 buf v) (buf + 4) :=
  fun s hs => ⟨_, run_ixdrPutInt32 buf v s, hP buf _ s hs⟩

theorem finishes_storeWords (hP : KeptByStores P) (ws : List (BitVec 32)) (buf : Nat) :
    Finishes P (storeWords buf ws) () := by
  induction ws generalizing buf with
  | nil => exact Finishes.pure P ()
  | cons w ws ih => exact (finishes_ixdrPutInt32 hP buf w).bind (ih (buf + 4))

theorem finishes_putAuth (hP : KeptByStores P) (buf : Nat) (oa : OpaqueAuth) :
    ∃ buf', Finishes P (putAuth buf oa) buf' := by
  have hBody : ∃ buf', Finishes P (putAuthBody (buf + 4 + 4) oa) buf' := by
    unfold putAuthBody
    by_cases hZero : oa.oaLength = 0
    · rw [if_pos hZero]
      exact ⟨_, Finishes.pure P _⟩
    · rw [if_neg hZero]
      have hStore : Finishes P
          (storeBytes (buf + 4 + 4) ((oa.oaBase.getD []).take oa.oaLength.toNat)) () :=
        fun s hs => ⟨_, run_storeBytes _ _ s, hP _ _ s hs⟩
      exact ⟨_, hStore.bind (Finishes.pure P _)⟩
  obtain ⟨buf', hBody⟩ := hBody
  exact ⟨buf', (finishes_ixdrPutInt32 hP buf _).bind ((finishes_ixdrPutInt32 hP _ _).bind hBody)⟩

theorem finishes_callmsgEncodeInline (hP : KeptByStores P) (buf : Nat) {cmsg : RpcMsg}
    (h : cmsg.WellFormed) : Finishes P (callmsgEncodeInline cmsg buf) cmsg := by
  have hWord (buf : Nat) (v : BitVec 32) := finishes_ixdrPutInt32 hP buf v
  obtain ⟨buf₁, hCred⟩ := finishes_putAuth hP (buf + 4 + 4 + 4 + 4 + 4 + 4) cmsg.rmCall.cbCred
  obtain ⟨buf₂, hVerf⟩ := finishes_putAuth hP buf₁ cmsg.rmCall.cbVerf
  apply (hWord buf _).bind
  apply (hWord _ _).bind
  apply Finishes.require h.direction
  apply (hWord _ _).bind
  apply Finishes.require h.rpcvers
  apply (hWord _ _).bind
  apply (hWord _ _).bind
  apply (hWord _ _).bind
  exact hCred.bind (hVerf.bind (Finishes.pure P cmsg))

end Stores

/-- The count, whatever is stored in the area. -/
theorem XdrSizeof.keptByStores (n : BitVec 32) :
    KeptByStores fun c : XdrSizeof => c.Valid ∧ c.xHandy = n := by
  rintro buf bs c ⟨hValid, hCount⟩
  refine ⟨?_, hCount⟩
  intro hNone
  exact hValid (Option.map_eq_none_iff.mp hNone)

theorem XdrMem.keptByStores (pos left : Nat) :
    KeptByStores fun s : XdrMem => s.priv = pos ∧ s.handy = left :=
  fun _ _ _ hs => hs

namespace Moves

theorem inlineWords (ws : List (BitVec 32)) :
    Moves (fun _ _ _ => OncRpc.inlineWords ws) () (4 * ws.length) 0 where
  mem := by
    intro s s' u hWithin _ hRun
    have hLen := length_flatMap_toBytes ws
    have hFit : s.priv + s.handy ≤ s.base.length := hWithin
    rcases Emits.inlineWords ws s hWithin with
      ⟨-, s₁, hSome, hRoom, -, hPut⟩ | ⟨-, cs, s₁, hNone, -⟩
    · cases hSome.symm.trans hRun
      rw [hPut]
      refine ⟨rfl, XdrMem.within_put hWithin hRoom, Buffer.length_writeAt (by omega), ?_, ?_⟩
      · rw [XdrMem.priv_put, hLen]
      · rw [XdrMem.handy_put]
        omega
    · cases hNone.symm.trans hRun
  sizeof := by
    intro c hValid
    obtain ⟨buf, c₁, hInline, hValid₁, hCount⟩ :=
      XdrSizeof.run_inline hValid (bytesPerXdrUnit * ws.length)
    unfold OncRpc.inlineWords
    rw [run_bind_some hInline]
    cases buf with
    | some buf =>
        obtain ⟨c', hRun, hValid', hCount'⟩ :=
          finishes_storeWords (XdrSizeof.keptByStores c₁.xHandy) ws buf c₁ ⟨hValid₁, rfl⟩
        exact ⟨c', hRun, hValid', hCount'.trans hCount⟩
    | none =>
        have hWords : ∀ c₁ : XdrSizeof, c₁.Valid → ∃ c',
            (putWords ws).run c₁ = (some (), c') ∧ c'.Valid ∧
              c'.xHandy = c₁.xHandy + BitVec.ofNat 32 (4 * ws.length) := by
          clear hInline hValid₁ hCount c₁
          induction ws with
          | nil => exact fun c₁ hValid₁ => ⟨c₁, rfl, hValid₁, (BitVec.add_zero _).symm⟩
          | cons w ws ih =>
              intro c₁ hValid₁
              obtain ⟨c₂, hFirst, hValid₂, hCount₂⟩ := (putlong w).sizeof hValid₁
              obtain ⟨c', hRest, hValid', hCount'⟩ := ih c₂ hValid₂
              refine ⟨c', (run_bind_some hFirst).trans hRest, hValid', ?_⟩
              rw [hCount', hCount₂, BitVec.add_assoc, ← BitVec.ofNat_add, List.length_cons]
              congr 2
              omega
        obtain ⟨c', hRun, hValid', hCount'⟩ := hWords c₁ hValid₁
        refine ⟨c', hRun, hValid', ?_⟩
        rw [hCount', hCount]
        rfl
  few := Nat.zero_le _

theorem opaqueAuth {oa : OpaqueAuth} (h : oa.WellFormed) :
    Moves (fun _ _ _ => xdrOpaqueAuth .encode oa) oa (authSize oa) 0 := by
  have hSize : 4 + (4 + rndup oa.oaLength.toNat) = authSize oa := by
    unfold authSize
    omega
  refine congr ?_ hSize
  apply seq (xdrInteger id id oa.oaFlavor)
  exact (xdrBytes maxAuthBytes h.bounded h.backed).map fun body =>
    OpaqueAuth.mk oa.oaFlavor body.1 body.2

/-- The item-by-item path. -/
theorem callmsgPlain {cmsg : RpcMsg} (h : cmsg.WellFormed) :
    Moves (fun _ _ _ => OncRpc.callmsgPlain .encode cmsg) cmsg (callmsgSize cmsg) 0 := by
  have hSize : 4 + (4 + (4 + (4 + (4 + (4 +
      (authSize cmsg.rmCall.cbCred + authSize cmsg.rmCall.cbVerf)))))) = callmsgSize cmsg := by
    rw [callmsgSize_eq]
    omega
  refine congr ?_ hSize
  apply seq (xdrInteger id id _)
  apply seq (xdrInteger id id _)
  apply require h.direction
  apply seq (xdrInteger id id _)
  apply require h.rpcvers
  apply seq (xdrInteger id id _)
  apply seq (xdrInteger id id _)
  apply seq (xdrInteger id id _)
  apply seq (opaqueAuth h.cred)
  exact (opaqueAuth h.verf).map fun verf => { cmsg with
    rmCall := { cmsg.rmCall with cbVerf := verf } }

theorem xdrCallmsg {cmsg : RpcMsg} (h : cmsg.WellFormed) :
    Moves (fun _ _ _ => OncRpc.xdrCallmsg .encode cmsg) cmsg (callmsgSize cmsg) 0 := by
  have hCred : ¬ cmsg.rmCall.cbCred.oaLength.toNat > maxAuthBytes :=
    Nat.not_lt.mpr h.cred.bounded
  have hVerf : ¬ cmsg.rmCall.cbVerf.oaLength.toNat > maxAuthBytes :=
    Nat.not_lt.mpr h.verf.bounded
  have hPlain := callmsgPlain h
  constructor
  case mem =>
    intro s s' cmsg' hWithin hSize hRun
    simp only [OncRpc.xdrCallmsg, run_bind_require, if_pos hCred, if_pos hVerf] at hRun
    have hFit : s.priv + s.handy ≤ s.base.length := hWithin
    obtain ⟨buf, s₁, hInline, hRest⟩ := exists_of_run_bind hRun
    by_cases hGiven : s.aligned = true ∧ callmsgSize cmsg ≤ s.handy
    · obtain ⟨hAligned, hRoom⟩ := hGiven
      have hWindow : (XdrOps.inline .encode (callmsgSize cmsg)).run s =
          (some (some s.priv), { s with
            handy := s.handy - callmsgSize cmsg, priv := s.priv + callmsgSize cmsg }) := by
        simp [Fallible.run, XdrOps.inline, hAligned, XdrMem.xdrmemInlineAligned, hRoom]
      cases hWindow.symm.trans hInline
      -- What is stored stays inside the window, and moves nothing.
      have hOver := overlays_callmsgEncodeInline (σ := XdrMem) s.priv h
      obtain ⟨s₂, hStored, hMem⟩ := hOver.2 { s with
          handy := s.handy - callmsgSize cmsg, priv := s.priv + callmsgSize cmsg }
        (show s.priv + callmsgSize cmsg ≤ s.base.length by omega)
      obtain ⟨s₃, hStored', hPriv, hHandy⟩ := finishes_callmsgEncodeInline
        (XdrMem.keptByStores (s.priv + callmsgSize cmsg) (s.handy - callmsgSize cmsg)) s.priv h
        { s with handy := s.handy - callmsgSize cmsg, priv := s.priv + callmsgSize cmsg }
        ⟨rfl, rfl⟩
      cases hStored.symm.trans hRest
      cases hStored'.symm.trans hRest
      have hBase : s'.base.length = s.base.length := by
        have hPatch := hOver.1 (Buffer.readAt s.base s.priv (callmsgSize cmsg))
          (Buffer.length_readAt_of_le (by omega))
        rw [show s'.base = _ from hMem]
        exact Buffer.length_writeAt (by
          show s.priv + (callmsgOver cmsg (Buffer.readAt s.base s.priv _)).length ≤ s.base.length
          omega)
      refine ⟨rfl, ?_, hBase, hPriv, by omega⟩
      show s'.priv + s'.handy ≤ s'.base.length
      omega
    · have hNone : (XdrOps.inline .encode (callmsgSize cmsg)).run s = (some none, s) := by
        cases hAligned : s.aligned with
        | false =>
            simp [Fallible.run, XdrOps.inline, hAligned, XdrMem.xdrmemInlineUnaligned,
              Pure.pure]
        | true =>
            have hFull : ¬ callmsgSize cmsg ≤ s.handy := fun hRoom => hGiven ⟨hAligned, hRoom⟩
            simp [Fallible.run, XdrOps.inline, hAligned, XdrMem.xdrmemInlineAligned, hFull]
      cases hNone.symm.trans hInline
      exact hPlain.mem hWithin hSize hRest
  case sizeof =>
    intro c hValid
    obtain ⟨buf, c₁, hInline, hValid₁, hCount⟩ :=
      XdrSizeof.run_inline hValid (callmsgSize cmsg)
    simp only [OncRpc.xdrCallmsg, run_bind_require, if_pos hCred, if_pos hVerf]
    rw [run_bind_some hInline]
    cases buf with
    | some buf =>
        obtain ⟨c', hRun, hValid', hCount'⟩ := finishes_callmsgEncodeInline
          (XdrSizeof.keptByStores c₁.xHandy) buf h c₁ ⟨hValid₁, rfl⟩
        exact ⟨c', hRun, hValid', hCount'.trans hCount⟩
    | none =>
        obtain ⟨c', hRun, hValid', hCount'⟩ := hPlain.sizeof hValid₁
        refine ⟨c', hRun, hValid', ?_⟩
        rw [hCount', hCount]
        rfl
  case few => exact Nat.zero_le _

/-- A length that is put again is counted twice, since the position cannot be set. -/
theorem putSized {xdrArgs : PosFilter Unit} {n k : Nat} (arglen : BitVec 32)
    (hArgs : Moves xdrArgs () n k) :
    Moves (fun σ _ _ => OncRpc.putSized (OncRpc.xdrInteger id id) arglen (xdrArgs σ) >>= fun _ =>
      Pure.pure ()) () (4 + n) (k + 1) where
  mem := by
    intro s s' u hWithin hSize hRun
    obtain ⟨len, s'', hRun, hEnd⟩ := exists_of_run_bind hRun
    cases hEnd
    have hFit : s.priv + s.handy ≤ s.base.length := hWithin
    rw [OncRpc.putSized, run_bind_gets] at hRun
    obtain ⟨v, s₁, hWord, hRun⟩ := exists_of_run_bind hRun
    obtain ⟨-, hWithin₁, hBase₁, hPriv₁, hHandy₁⟩ :=
      (xdrInteger id id arglen).mem hWithin hSize hWord
    rw [run_bind_gets] at hRun
    obtain ⟨v', s₂, hPut, hRun⟩ := exists_of_run_bind hRun
    obtain ⟨-, hWithin₂, hBase₂, hPriv₂, hHandy₂⟩ := hArgs.mem hWithin₁ (by omega) hPut
    rw [run_bind_gets] at hRun
    have hFit₂ : s₂.priv + s₂.handy ≤ s₂.base.length := hWithin₂
    -- Back to the length.
    have hBack : (setpos (getpos s) : Fallible XdrMem Unit).run s₂ =
        (some (), { s₂ with priv := s.priv, handy := s₂.priv + s₂.handy - s.priv }) := by
      have hPos : (getpos s).toNat = s.priv := by
        show (BitVec.ofNat 32 s.priv).toNat = _
        rw [BitVec.toNat_ofNat]
        exact Nat.mod_eq_of_lt (by omega)
      show XdrMem.xdrmemSetpos _ s₂ = _
      rw [XdrMem.xdrmemSetpos, hPos, if_neg (by omega)]
    rw [run_bind_some (run_ignore hBack)] at hRun
    obtain ⟨v'', s₄, hAgain, hRun⟩ := exists_of_run_bind hRun
    have hWithin₃ : XdrMem.Within
        { s₂ with priv := s.priv, handy := s₂.priv + s₂.handy - s.priv } := by
      show s.priv + (s₂.priv + s₂.handy - s.priv) ≤ s₂.base.length
      omega
    obtain ⟨-, hWithin₄, hBase₄, hPriv₄, hHandy₄⟩ :=
      (xdrInteger id id _).mem hWithin₃ (show s₂.base.length < 2 ^ 32 by omega) hAgain
    dsimp only at hBase₄ hPriv₄ hHandy₄
    -- And forth to the end.
    have hForth : (setpos (getpos s₂) : Fallible XdrMem Unit).run s₄ =
        (some (), { s₄ with priv := s₂.priv, handy := s₄.priv + s₄.handy - s₂.priv }) := by
      have hPos : (getpos s₂).toNat = s₂.priv := by
        show (BitVec.ofNat 32 s₂.priv).toNat = _
        rw [BitVec.toNat_ofNat]
        exact Nat.mod_eq_of_lt (by omega)
      show XdrMem.xdrmemSetpos _ s₄ = _
      rw [XdrMem.xdrmemSetpos, hPos, if_neg (by omega)]
    rw [run_bind_some (run_ignore hForth)] at hRun
    cases hRun
    refine ⟨rfl, ?_, hBase₄.trans (hBase₂.trans hBase₁), by dsimp only; omega,
      by dsimp only; omega⟩
    show s₂.priv + (s₄.priv + s₄.handy - s₂.priv) ≤ s₄.base.length
    omega
  sizeof := by
    intro c hValid
    obtain ⟨c₁, hWord, hValid₁, hCount₁⟩ := (xdrInteger id id arglen).sizeof hValid
    obtain ⟨c₂, hPut, hValid₂, hCount₂⟩ := hArgs.sizeof hValid₁
    obtain ⟨c₃, hAgain, hValid₃, hCount₃⟩ :=
      (xdrInteger id id (getpos c₂ - getpos c₁)).sizeof hValid₂
    have hStay (pos : BitVec 32) (c : XdrSizeof) :
        (ignore (setpos pos) : Fallible XdrSizeof Unit).run c = (some (), c) := rfl
    refine ⟨c₃, ?_, hValid₃, ?_⟩
    · rw [OncRpc.putSized, bind_assoc, run_bind_gets]
      simp only [bind_assoc]
      rw [run_bind_some hWord, run_bind_gets, run_bind_some hPut, run_bind_gets,
        run_bind_some (hStay _ _), run_bind_some hAgain, run_bind_some (hStay _ _)]
      rfl
    · rw [hCount₃, hCount₂, hCount₁, BitVec.add_assoc, BitVec.add_assoc, ← BitVec.ofNat_add,
        ← BitVec.ofNat_add]
      congr 2
      omega
  few := by
    have hFew := hArgs.few
    omega

end Moves

/-! ### Filters built of them -/

/-- A filter with what it is applied to, built of the filters of the library, that puts `k`
lengths again and succeeds with `a` if it does. -/
inductive Built : {α : Type} → PosFilter α → α → Nat → Prop
  | done {α : Type} (a : α) : Built (fun _ _ _ => pure a) a 0
  | step {α β : Type} {m : PosFilter α} {f : α → PosFilter β} {a : α} {b : β} {j k : Nat}
      (first : Built m a j) (rest : Built (f a) b k) :
      Built (fun σ _ _ => m σ >>= fun a => f a σ) b (j + k)
  /-- `XDR_PUTLONG` and `XDR_PUTBYTES`. -/
  | putlong (w : BitVec 32) : Built (fun _ _ _ => XdrOps.putlong w) () 0
  | putbytes (bs : List UInt8) : Built (fun _ _ _ => XdrOps.putbytes bs) () 0
  /-- Words behind a pointer, or one by one where there is none. -/
  | inlineWords (ws : List (BitVec 32)) : Built (fun _ _ _ => OncRpc.inlineWords ws) () 0
  | callmsg {cmsg : RpcMsg} (h : cmsg.WellFormed) :
      Built (fun _ _ _ => xdrCallmsg .encode cmsg) cmsg 0
  /-- Arguments behind their length. -/
  | sized {xdrArgs : PosFilter Unit} {k : Nat} (arglen : BitVec 32) (args : Built xdrArgs () k) :
      Built (fun σ _ _ => putSized (xdrInteger id id) arglen (xdrArgs σ) >>= fun _ => pure ()) ()
        (k + 1)

theorem Built.moves {α : Type} {m : PosFilter α} {a : α} {k : Nat} (h : Built m a k) :
    ∃ n, Moves m a n k := by
  induction h with
  | done a => exact ⟨0, Moves.pure a⟩
  | step first rest ih ih' =>
      obtain ⟨n, hFirst⟩ := ih
      obtain ⟨n', hRest⟩ := ih'
      exact ⟨n + n', hFirst.bind hRest⟩
  | putlong w => exact ⟨4, Moves.putlong w⟩
  | putbytes bs => exact ⟨bs.length, Moves.putbytes bs⟩
  | inlineWords ws => exact ⟨4 * ws.length, Moves.inlineWords ws⟩
  | callmsg h => exact ⟨_, Moves.xdrCallmsg h⟩
  | sized arglen args ih =>
      obtain ⟨n, hArgs⟩ := ih
      exact ⟨4 + n, Moves.putSized arglen hArgs⟩

namespace Built

variable {α β : Type} {m : PosFilter α} {a : α} {b : β} {k : Nat}

theorem seq {f : α → PosFilter β} (first : Built m a 0) (rest : Built (f a) b k) :
    Built (fun σ _ _ => m σ >>= fun a => f a σ) b k :=
  Nat.zero_add k ▸ first.step rest

theorem map (h : Built m a k) (g : α → β) :
    Built (fun σ _ _ => m σ >>= fun a => pure (g a)) (g a) k :=
  h.step (f := fun a _ _ _ => pure (g a)) (done (g a))

theorem require {c : Prop} [Decidable c] {f : Unit → PosFilter β} (hc : c)
    (h : Built (f ()) b k) : Built (fun σ _ _ => Fallible.require c >>= fun u => f u σ) b k := by
  have hSame : (fun σ i j => Fallible.require c >>= fun u => @f u σ i j : PosFilter β) = f () := by
    funext σ i j
    apply Fallible.ext
    intro s
    rw [run_bind_require, if_pos hc]
  rw [hSame]
  exact h

theorem xdrInteger {w : Nat} (toLong : BitVec w → BitVec 32) (ofLong : BitVec 32 → BitVec w)
    (v : BitVec w) : Built (fun _ _ _ => OncRpc.xdrInteger toLong ofLong .encode v) v 0 :=
  (putlong (toLong v)).map fun _ => v

theorem xdrInteger64 (v : BitVec 64) :
    Built (fun _ _ _ => OncRpc.xdrInteger64 .encode v) v 0 := by
  apply seq (putlong _)
  exact (putlong _).map fun _ => v

theorem xdrOpaque (cp : List UInt8) (cnt : Nat) :
    Built (fun _ _ _ => OncRpc.xdrOpaque .encode cp cnt) cp 0 := by
  unfold OncRpc.xdrOpaque
  by_cases hZero : cnt = 0
  · simp only [if_pos hZero]
    exact done cp
  · simp only [if_neg hZero]
    apply seq (putbytes _)
    by_cases hPad : padding cnt = 0
    · simp only [if_pos hPad]
      exact done cp
    · simp only [if_neg hPad]
      exact (putbytes _).map fun _ => cp

theorem xdrBytes {maxsize : Nat} (sp : Option (List UInt8)) {size : BitVec 32}
    (h : size.toNat ≤ maxsize) :
    Built (fun _ _ _ => OncRpc.xdrBytes maxsize .encode (sp, size)) (sp, size) 0 := by
  have hSize : ¬ (size.toNat > maxsize ∧ XdrOp.encode ≠ .free) :=
    fun hBad => absurd h (Nat.not_le.mpr hBad.1)
  apply seq (xdrInteger id id size)
  apply require hSize
  exact (xdrOpaque _ _).map fun _ => (sp, size)

theorem xdrString {maxsize : Nat} (cpp : Option (List UInt8))
    (h : ¬ (BitVec.ofNat 32 (strlen (cpp.getD []))).toNat > maxsize) :
    Built (fun _ _ _ => OncRpc.xdrString maxsize .encode cpp) cpp 0 := by
  apply seq (xdrInteger id id _)
  apply require h
  exact (xdrOpaque _ _).map fun _ => cpp

/-- The elements of an array or of a vector. -/
theorem xdrElements {elproc : ∀ (σ : Type) [XdrOps σ] [XdrPos σ], XdrProc σ α}
    {target target' : List α}
    (h : List.Forall₂ (fun a a' => Built (fun σ _ _ => elproc σ .encode a) a' 0) target target') :
    Built (fun σ _ _ => OncRpc.xdrElements .encode (elproc σ) target.length target) target' 0 := by
  induction h with
  | nil => exact done []
  | cons hElem hRest ih =>
      apply seq hElem
      exact ih.map fun target => _ :: target

theorem xdrUnion {choices : ∀ (σ : Type) [XdrOps σ] [XdrPos σ], List (BitVec 32 × XdrProc σ α)}
    {dfault : ∀ (σ : Type) [XdrOps σ] [XdrPos σ], Option (XdrProc σ α)} {dscm : BitVec 32}
    {proc : ∀ (σ : Type) [XdrOps σ] [XdrPos σ], XdrProc σ α} {unp unp' : α}
    (hArm : ∀ (σ : Type) [XdrOps σ] [XdrPos σ],
      unionArm (choices σ) (dfault σ) dscm = some (proc σ))
    (h : Built (fun σ _ _ => proc σ .encode unp) unp' k) :
    Built (fun σ _ _ => OncRpc.xdrUnion (choices σ) (dfault σ) .encode (dscm, unp))
      (dscm, unp') k := by
  apply seq (xdrInteger id id dscm)
  simp only [hArm]
  exact h.map fun unp => (dscm, unp)

theorem xdrReference (zero : α) {proc : ∀ (σ : Type) [XdrOps σ] [XdrPos σ], XdrProc σ α}
    {loc loc' : α} (h : Built (fun σ _ _ => proc σ .encode loc) loc' k) :
    Built (fun σ _ _ => OncRpc.xdrReference zero (proc σ) .encode (some loc)) (some loc') k :=
  h.map some

/-- A pointer, NULL or not. -/
theorem xdrPointer (zero : α) {proc : ∀ (σ : Type) [XdrOps σ] [XdrPos σ], XdrProc σ α}
    {loc loc' : α} (h : Built (fun σ _ _ => proc σ .encode loc) loc' k) :
    Built (fun σ _ _ => OncRpc.xdrPointer zero (proc σ) .encode none) none 0 ∧
      Built (fun σ _ _ => OncRpc.xdrPointer zero (proc σ) .encode (some loc)) (some loc') k := by
  constructor
  · apply seq (xdrInteger _ _ (0 : BitVec 32))
    exact done none
  · apply seq (xdrInteger _ _ (1 : BitVec 32))
    exact xdrReference zero h

/-- Lists that hang together by pointers. -/
theorem putLinked {proc : ∀ (σ : Type) [XdrOps σ] [XdrPos σ], XdrProc σ α} {list : List α}
    (h : ∀ a ∈ list, ∃ a', Built (fun σ _ _ => proc σ .encode a) a' 0) :
    Built (fun σ _ _ => OncRpc.putLinked (proc σ) list) () 0 := by
  induction list with
  | nil => exact (xdrInteger _ _ (0 : BitVec 32)).map fun _ => ()
  | cons a rest ih =>
      obtain ⟨a', hElem⟩ := h a List.mem_cons_self
      apply seq (xdrInteger _ _ (1 : BitVec 32))
      apply seq (xdrReference a hElem)
      exact ih fun b hMem => h b (List.mem_cons_of_mem a hMem)

/-! ### Messages -/

theorem xdrOpaqueAuth {ap : OpaqueAuth} (h : ap.oaLength.toNat ≤ maxAuthBytes) :
    Built (fun _ _ _ => OncRpc.xdrOpaqueAuth .encode ap) ap 0 := by
  apply seq (xdrInteger id id ap.oaFlavor)
  exact (xdrBytes ap.oaBase h).map fun body => OpaqueAuth.mk ap.oaFlavor body.1 body.2

theorem xdrVersions (vers : Versions) :
    Built (fun _ _ _ => OncRpc.xdrVersions .encode vers) vers 0 := by
  apply seq (xdrInteger id id vers.low)
  exact (xdrInteger id id vers.high).map fun high => Versions.mk vers.low high

/-- With its results where there are some. -/
theorem xdrAcceptedReply {results : ∀ (σ : Type) [XdrOps σ] [XdrPos σ], XdrOp → Fallible σ Unit}
    {ar : AcceptedReply} (hVerf : ar.arVerf.oaLength.toNat ≤ maxAuthBytes)
    (hResults : Built (fun σ _ _ => results σ .encode) () k) :
    Built (fun σ _ _ => OncRpc.xdrAcceptedReply (results σ) .encode ar) ar
      (if ar.arStat = success then k else 0) := by
  apply seq (xdrOpaqueAuth hVerf)
  apply seq (xdrInteger id id ar.arStat)
  by_cases hSuccess : ar.arStat = success
  · simp only [if_pos hSuccess]
    exact hResults.map fun _ => ar
  · simp only [if_neg hSuccess]
    by_cases hMismatch : ar.arStat = progMismatch
    · simp only [if_pos hMismatch]
      exact (xdrVersions ar.arVers).map fun vers => AcceptedReply.mk ar.arVerf ar.arStat vers
    · simp only [if_neg hMismatch]
      exact done ar

theorem xdrRejectedReply {rr : RejectedReply}
    (h : rr.rjStat = rpcMismatch ∨ rr.rjStat = authError) :
    Built (fun _ _ _ => OncRpc.xdrRejectedReply .encode rr) rr 0 := by
  apply seq (xdrInteger id id rr.rjStat)
  by_cases hMismatch : rr.rjStat = rpcMismatch
  · simp only [if_pos hMismatch]
    exact (xdrVersions rr.rjVers).map fun vers => RejectedReply.mk rr.rjStat vers rr.rjWhy
  · simp only [if_neg hMismatch, if_pos (h.resolve_left hMismatch)]
    exact (xdrInteger id id rr.rjWhy).map fun why => RejectedReply.mk rr.rjStat rr.rjVers why

/-- A reply, with the results of a call that has been carried out. -/
theorem xdrReplymsg {results : ∀ (σ : Type) [XdrOps σ] [XdrPos σ], XdrOp → Fallible σ Unit}
    {msg : ReplyMsg} (h : msg.Sendable) (hResults : Built (fun σ _ _ => results σ .encode) () k) :
    Built (fun σ _ _ => OncRpc.xdrReplymsg (results σ) .encode msg) msg
      (if msg.rpStat = msgAccepted ∧ msg.acptedRply.arStat = success then k else 0) := by
  apply seq (xdrInteger id id msg.rmXid)
  apply seq (xdrInteger id id msg.rmDirection)
  apply require h.direction
  obtain ⟨xid, direction, stat, ar, rr⟩ := msg
  rcases h.arm with ⟨rfl, hVerf⟩ | ⟨rfl, hWhy⟩
  · have hArm : Built (fun σ _ _ => OncRpc.xdrUnion (replyDscrm (results σ)) none .encode
        (msgAccepted, (ar, rr))) (msgAccepted, (ar, rr))
        (if ar.arStat = success then k else 0) := by
      apply seq (xdrInteger id id msgAccepted)
      exact ((xdrAcceptedReply hVerf.length_le hResults).map fun ar => (ar, rr)).map
        fun unp => (msgAccepted, unp)
    simp only [true_and]
    exact hArm.map fun r => ReplyMsg.mk xid direction r.1 r.2.1 r.2.2
  · have hArm : Built (fun σ _ _ => OncRpc.xdrUnion (replyDscrm (results σ)) none .encode
        (msgDenied, (ar, rr))) (msgDenied, (ar, rr)) 0 := by
      apply seq (xdrInteger id id msgDenied)
      exact ((xdrRejectedReply hWhy).map fun rr => (ar, rr)).map fun unp => (msgDenied, unp)
    have hDenied : ¬ (msgDenied = msgAccepted ∧ ar.arStat = success) :=
      fun hBoth => absurd hBoth.1 (by decide)
    rw [if_neg hDenied]
    exact hArm.map fun r => ReplyMsg.mk xid direction r.1 r.2.1 r.2.2

/-! ### The filters of rpcbind -/

theorem xdrText {s : CString} (h : CString.Short s) :
    Built (fun _ _ _ => OncRpc.xdrText rpcMaxdatasize .encode s) (cString (s ++ [0])) 0 := by
  have hLen : strlen (s ++ [0]) ≤ rpcMaxdatasize := (strlen_append_nul_le s).trans h
  have hSize : ¬ (BitVec.ofNat 32 (strlen ((some (s ++ [0])).getD []))).toNat > rpcMaxdatasize := by
    rw [Option.getD_some, BitVec.toNat_ofNat]
    have hMod := Nat.mod_le (strlen (s ++ [0])) (2 ^ 32)
    omega
  exact (xdrString (some (s ++ [0])) hSize).map fun cpp => cString (cpp.getD [])

theorem xdrRpcbsAddr {objp : RpcbsAddr} (h : CString.Short objp.netid) :
    ∃ objp', Built (fun _ _ _ => OncRpc.xdrRpcbsAddr .encode objp) objp' 0 := by
  refine ⟨RpcbsAddr.mk objp.prog objp.vers objp.success objp.failure
    (cString (objp.netid ++ [0])), ?_⟩
  apply seq (xdrInteger id id objp.prog)
  apply seq (xdrInteger id id objp.vers)
  apply seq (xdrInteger id id objp.success)
  apply seq (xdrInteger id id objp.failure)
  exact (xdrText h).map fun netid =>
    RpcbsAddr.mk objp.prog objp.vers objp.success objp.failure netid

theorem putRpcbsRmtcall {objp : RpcbsRmtcall} (h : CString.Short objp.netid) :
    Built (fun _ _ _ => OncRpc.putRpcbsRmtcall objp) () 0 := by
  apply seq (inlineWords _)
  exact (xdrText h).map fun _ => ()

theorem xdrRpcbStat {objp : RpcbStat} (h : objp.Short) :
    Built (fun _ _ _ => OncRpc.xdrRpcbStat objp) () 0 := by
  have hInfo : Built (fun _ _ _ => OncRpc.xdrRpcbsProc objp.info) () 0 := by
    have hElems : Built (fun _ _ _ => OncRpc.xdrElements .encode xdrInt
        (List.ofFn objp.info).length (List.ofFn objp.info)) (List.ofFn objp.info) 0 :=
      xdrElements (List.forall₂_same.mpr fun v _ => xdrInteger id id v)
    rw [List.length_ofFn] at hElems
    exact hElems.map fun _ => ()
  apply seq hInfo
  apply seq (xdrInteger id id objp.setinfo)
  apply seq (xdrInteger id id objp.unsetinfo)
  apply seq (putLinked fun al hMem => xdrRpcbsAddr (h.addrinfo al hMem))
  apply putLinked
  intro rl hMem
  exact ⟨rl, (putRpcbsRmtcall (h.rmtinfo rl hMem)).map fun _ => rl⟩

theorem xdrRpcbStatByvers {inf : RpcbStatByvers} (h : ∀ rtype, (inf rtype).Short) :
    Built (fun _ _ _ => OncRpc.xdrRpcbStatByvers inf) () 0 := by
  have hElems : Built (fun _ _ _ => OncRpc.xdrElements .encode (fun _ objp => do
        OncRpc.xdrRpcbStat objp
        pure objp) (List.ofFn inf).length (List.ofFn inf)) (List.ofFn inf) 0 := by
    apply xdrElements
    apply List.forall₂_same.mpr
    intro objp hMem
    obtain ⟨rtype, rfl⟩ := List.mem_ofFn.mp hMem
    exact (xdrRpcbStat (h rtype)).map fun _ => inf rtype
  rw [List.length_ofFn] at hElems
  exact hElems.map fun _ => ()

/-- The arguments of an indirect call, whatever they are. -/
theorem pmapRmtcallArgs {xdrArgs : PosFilter Unit} (cap : RmtcallHead) (h : Built xdrArgs () k) :
    Built (fun σ _ _ => OncRpc.pmapRmtcallArgs cap (xdrArgs σ) >>= fun _ => pure ()) ()
      (k + 1) := by
  simp only [OncRpc.pmapRmtcallArgs, bind_assoc, pure_bind]
  apply seq (xdrInteger id id cap.prog)
  apply seq (xdrInteger id id cap.vers)
  apply seq (xdrInteger id id cap.proc)
  exact sized cap.arglen h

theorem putRpcbHead_eq {σ : Type} [XdrOps σ] (objp : RmtcallHead) :
    (putRpcbHead objp : Fallible σ Unit) =
      OncRpc.inlineWords [objp.prog, objp.vers, objp.proc] := by
  unfold putRpcbHead OncRpc.inlineWords
  congr 1
  funext buf
  cases buf with
  | none => simp only [putWords, xdrUInt32T, OncRpc.xdrInteger, id, bind_assoc, pure_bind]
  | some buf => rfl

theorem xdrRpcbRmtcallargs {xdrArgs : PosFilter Unit} (objp : RmtcallHead)
    (h : Built xdrArgs () k) :
    Built (fun σ _ _ => OncRpc.xdrRpcbRmtcallargs objp (xdrArgs σ) >>= fun _ => pure ()) ()
      (k + 1) := by
  simp only [OncRpc.xdrRpcbRmtcallargs, bind_assoc, pure_bind, putRpcbHead_eq]
  apply seq (inlineWords _)
  exact sized objp.arglen h

end Built

/-! ### The size -/

namespace XdrSizeof

/-- The handle after any requests for pointers. -/
def afterRequests (mallocs : Nat → Bool) (requests : List Nat) : XdrSizeof :=
  requests.foldl (fun c n => ((XdrOps.inline .encode n : Fallible XdrSizeof _).run c).2)
    (create mallocs)

/-- What a filter counts on it. -/
def xdrSizeofAfter {α : Type} (mallocs : Nat → Bool) (requests : List Nat)
    (func : Fallible XdrSizeof α) : BitVec 32 :=
  match func.run (afterRequests mallocs requests) with
  | (some _, x) => x.xHandy - (afterRequests mallocs requests).xHandy
  | (none, _) => 0

theorem valid_afterRequests (mallocs : Nat → Bool) (requests : List Nat) :
    (afterRequests mallocs requests).Valid := by
  suffices hAny : ∀ c : XdrSizeof, c.Valid → (requests.foldl
      (fun c n => ((XdrOps.inline .encode n : Fallible XdrSizeof _).run c).2) c).Valid from
    hAny _ (valid_create mallocs)
  induction requests with
  | nil => exact fun c hValid => hValid
  | cons n requests ih =>
      intro c hValid
      obtain ⟨buf, c', hRun, hValid', -⟩ := run_inline hValid n
      apply ih
      show ((XdrOps.inline .encode n : Fallible XdrSizeof _).run c).2.Valid
      rw [hRun]
      exact hValid'

end XdrSizeof

/-- What is counted is what is written exactly when no length is put again, whatever pointers
have been asked for before. -/
theorem xdrSizeof_eq_iff {α : Type} {m : PosFilter α} {a a' : α} {k : Nat} (hBuilt : Built m a k)
    {s s' : XdrMem} (hWithin : s.Within) (hSize : s.base.length < 2 ^ 32)
    (hRun : (m XdrMem).run s = (some a', s')) (mallocs : Nat → Bool) :
    (XdrSizeof.xdrSizeof mallocs (m XdrSizeof) = BitVec.ofNat 32 (s'.priv - s.priv) ↔ k = 0) ∧
      ∀ requests, XdrSizeof.xdrSizeofAfter mallocs requests (m XdrSizeof) =
        BitVec.ofNat 32 (s'.priv - s.priv) ↔ k = 0 := by
  obtain ⟨n, hMoves⟩ := hBuilt.moves
  obtain ⟨-, -, -, hPriv, hHandy⟩ := hMoves.mem hWithin hSize hRun
  have hFew := hMoves.few
  have hFit : s.priv + s.handy ≤ s.base.length := hWithin
  have hWritten : s'.priv - s.priv = n := by omega
  have hSame : BitVec.ofNat 32 (n + 4 * k) = BitVec.ofNat 32 n ↔ k = 0 := by
    constructor
    · intro hEq
      have hNat := congrArg BitVec.toNat hEq
      rw [BitVec.toNat_ofNat, BitVec.toNat_ofNat] at hNat
      omega
    · rintro rfl
      rfl
  rw [hWritten]
  constructor
  · obtain ⟨c', hCount, -, hHandy'⟩ := hMoves.sizeof (XdrSizeof.valid_create mallocs)
    rw [XdrSizeof.xdrSizeof, hCount]
    have hFresh : (XdrSizeof.create mallocs).xHandy + BitVec.ofNat 32 (n + 4 * k) =
        BitVec.ofNat 32 (n + 4 * k) := BitVec.zero_add _
    show c'.xHandy = _ ↔ _
    rw [hHandy', hFresh, hSame]
  · intro requests
    obtain ⟨c', hCount, -, hHandy'⟩ :=
      hMoves.sizeof (XdrSizeof.valid_afterRequests mallocs requests)
    rw [XdrSizeof.xdrSizeofAfter, hCount]
    show c'.xHandy - _ = _ ↔ _
    rw [hHandy', BitVec.add_comm, BitVec.add_sub_cancel, hSame]

/-- Calls that have been forwarded over UDP. -/
def udpRmtcall : RpcbsRmtcall :=
  { prog := 100002, vers := 2, proc := 2, success := 1, failure := 0, indirect := 0
    netid := .ascii "udp" }

theorem xdrSizeof_eq_iff_rmtcall :
    XdrSizeof.xdrSizeof (fun _ => true) (putRpcbsRmtcall udpRmtcall) = 32 ∧
      XdrSizeof.xdrSizeofAfter (fun _ => true) [8, 64, 4] (putRpcbsRmtcall udpRmtcall) = 32 := by
  have hWithin : (XdrMem.xdrmemCreate (List.replicate 32 0) 32 true).Within := by decide
  have hSize : (XdrMem.xdrmemCreate (List.replicate 32 0) 32 true).base.length < 2 ^ 32 := by
    decide
  have hRun : (putRpcbsRmtcall udpRmtcall).run
      (XdrMem.xdrmemCreate (List.replicate 32 0) 32 true) =
        (some (), ((putRpcbsRmtcall udpRmtcall).run
          (XdrMem.xdrmemCreate (List.replicate 32 0) 32 true)).2) := by decide
  have hPriv : BitVec.ofNat 32 (((putRpcbsRmtcall udpRmtcall).run
      (XdrMem.xdrmemCreate (List.replicate 32 0) 32 true)).2.priv - 0) = 32 := by decide
  have hBoth := xdrSizeof_eq_iff (Built.putRpcbsRmtcall (show CString.Short udpRmtcall.netid by
    unfold CString.Short
    decide)) hWithin hSize hRun fun _ => true
  exact ⟨(hBoth.1.mpr rfl).trans hPriv, ((hBoth.2 [8, 64, 4]).mpr rfl).trans hPriv⟩

/-- An indirect call with a word for its arguments takes twenty bytes, and is counted as
twenty-four. -/
theorem not_xdrSizeof_eq_indirect :
    (pmapRmtcallArgs rusersCall (XdrOps.putlong 7)).run
        (XdrMem.xdrmemCreate (List.replicate 20 0) 20 true) =
      (some { rusersCall with arglen := 4 },
        { base := headBytes rusersCall ++ [0, 0, 0, 4, 0, 0, 0, 7], priv := 20, handy := 0
          aligned := true }) ∧
    XdrSizeof.xdrSizeof (fun _ => true) (pmapRmtcallArgs rusersCall (XdrOps.putlong 7)) = 24 := by
  constructor
  · decide
  · decide

/-! ### The room -/

/-- The filter succeeds wherever there are `n` bytes for it. -/
def RoomFor {α : Type} (m : PosFilter α) (n : Nat) : Prop :=
  ∀ s : XdrMem, s.Within → s.base.length < 2 ^ 32 → n ≤ s.handy →
    ∃ r s', (m XdrMem).run s = (some r, s')

theorem roomFor_xdrCallmsg {cmsg : RpcMsg} (h : cmsg.WellFormed) :
    RoomFor (fun _ _ _ => xdrCallmsg .encode cmsg) (callmsgSize cmsg) := by
  intro s hWithin _ hRoom
  cases hAligned : s.aligned with
  | true =>
      have hInline : (XdrOps.inline .encode (callmsgSize cmsg)).run s = (some (some s.priv),
          { s with handy := s.handy - callmsgSize cmsg, priv := s.priv + callmsgSize cmsg }) := by
        simp [Fallible.run, XdrOps.inline, hAligned, XdrMem.xdrmemInlineAligned, hRoom]
      obtain ⟨r, hAnswer, -⟩ :=
        Option.map_eq_some_iff.mp (writes_xdrCallmsg_inline h hWithin hInline)
      exact ⟨r, _, Prod.ext hAnswer rfl⟩
  | false =>
      have hInline : (XdrOps.inline .encode (callmsgSize cmsg)).run s = (some none, s) := by
        simp [Fallible.run, XdrOps.inline, hAligned, XdrMem.xdrmemInlineUnaligned, Pure.pure]
      have hPlain := puts_callmsgPlain h s ⟨hWithin, (length_callmsgBytes h).trans_le hRoom⟩
      simp only [xdrCallmsg, run_bind_require, if_pos (Nat.not_lt.mpr h.cred.bounded),
        if_pos (Nat.not_lt.mpr h.verf.bounded)]
      exact ⟨cmsg, _, (run_bind_some hInline).trans hPlain⟩

/-- Behind the arguments there is room for the length again, in its place. -/
theorem RoomFor.putSized {xdrArgs : PosFilter Unit} {n k : Nat} (arglen : BitVec 32)
    (hMoves : Moves xdrArgs () n k) (hArgs : RoomFor xdrArgs n) :
    RoomFor (fun σ _ _ => OncRpc.putSized (xdrInteger id id) arglen (xdrArgs σ) >>= fun _ =>
      pure ()) (4 + n) := by
  intro s hWithin hSize hRoom
  have hFit : s.priv + s.handy ≤ s.base.length := hWithin
  have hWord (w : BitVec 32) (s : XdrMem) (h : 4 ≤ s.handy) :
      (xdrInteger id id .encode w).run s = (some w, s.put (Word.toBytes w)) :=
    run_bind_some (XdrMem.run_putlong h)
  obtain ⟨-, hWithin₁, hBase₁, hPriv₁, hHandy₁⟩ :=
    (Moves.xdrInteger id id arglen).mem hWithin hSize (hWord arglen s (by omega))
  obtain ⟨u, s₂, hPut⟩ := hArgs _ hWithin₁ (by omega) (by omega)
  obtain ⟨-, -, -, hPriv₂, hHandy₂⟩ := hMoves.mem hWithin₁ (by omega) hPut
  have hBack : (setpos (getpos s) : Fallible XdrMem Unit).run s₂ =
      (some (), { s₂ with priv := s.priv, handy := s₂.priv + s₂.handy - s.priv }) := by
    have hPos : (getpos s).toNat = s.priv := by
      show (BitVec.ofNat 32 s.priv).toNat = _
      rw [BitVec.toNat_ofNat]
      exact Nat.mod_eq_of_lt (by omega)
    show XdrMem.xdrmemSetpos _ s₂ = _
    rw [XdrMem.xdrmemSetpos, hPos, if_neg (by omega)]
  suffices hSome : ((OncRpc.putSized (xdrInteger id id) arglen (xdrArgs XdrMem) >>= fun _ =>
      pure ()).run s).1 = some () from ⟨(), _, Prod.ext hSome rfl⟩
  rw [OncRpc.putSized, bind_assoc, run_bind_gets]
  simp only [bind_assoc]
  rw [run_bind_some (hWord arglen s (by omega)), run_bind_gets, run_bind_some hPut, run_bind_gets,
    run_bind_some (run_ignore hBack),
    run_bind_some (hWord _ _ (show 4 ≤ s₂.priv + s₂.handy - s.priv by omega))]
  rfl

theorem Built.roomFor {α : Type} {m : PosFilter α} {a : α} {k : Nat} (h : Built m a k) :
    ∃ n, Moves m a n k ∧ RoomFor m n := by
  induction h with
  | done a => exact ⟨0, Moves.pure a, fun s _ _ _ => ⟨a, s, rfl⟩⟩
  | step first rest ih ih' =>
      obtain ⟨n, hFirst, hRoom⟩ := ih
      obtain ⟨n', hRest, hRoom'⟩ := ih'
      refine ⟨n + n', hFirst.bind hRest, fun s hWithin hSize hLe => ?_⟩
      obtain ⟨a', s₁, hRun⟩ := hRoom s hWithin hSize (by omega)
      obtain ⟨rfl, hWithin₁, hBase, -, hHandy⟩ := hFirst.mem hWithin hSize hRun
      obtain ⟨b, s', hRun'⟩ := hRoom' s₁ hWithin₁ (by omega) (by omega)
      exact ⟨b, s', (run_bind_some hRun).trans hRun'⟩
  | putlong w => exact ⟨4, Moves.putlong w, fun s _ _ hLe => ⟨_, _, XdrMem.run_putlong hLe⟩⟩
  | putbytes bs =>
      exact ⟨bs.length, Moves.putbytes bs, fun s _ _ hLe => ⟨_, _, XdrMem.run_putbytes hLe⟩⟩
  | inlineWords ws =>
      refine ⟨4 * ws.length, Moves.inlineWords ws, fun s hWithin _ hLe => ?_⟩
      rcases Emits.inlineWords ws s hWithin with ⟨-, s', hRun, -⟩ | ⟨hFull, -⟩
      · exact ⟨_, s', hRun⟩
      · exact absurd ((length_flatMap_toBytes ws).trans_le hLe) hFull
  | callmsg h => exact ⟨_, Moves.xdrCallmsg h, roomFor_xdrCallmsg h⟩
  | sized arglen args ih =>
      obtain ⟨n, hArgs, hRoom⟩ := ih
      exact ⟨4 + n, Moves.putSized arglen hArgs, hRoom.putSized arglen hArgs⟩

/-- A block takes what the filter encodes exactly if it has `n` bytes left, and `xdr_sizeof` asks
for these and for `k` words more, whatever pointers have been asked for before. -/
structure HasSize {α : Type} (m : PosFilter α) (n k : Nat) : Prop where
  sizeof : ∀ mallocs requests, XdrSizeof.xdrSizeofAfter mallocs requests (m XdrSizeof) =
    BitVec.ofNat 32 (n + 4 * k)
  room : ∀ s : XdrMem, s.Within → s.base.length < 2 ^ 32 →
    (((m XdrMem).run s).1.isSome ↔ n ≤ s.handy)
  moved : ∀ s : XdrMem, s.Within → s.base.length < 2 ^ 32 → ((m XdrMem).run s).1.isSome →
    ((m XdrMem).run s).2.priv = s.priv + n

end OncRpc
