import OncRpc.Rpcbind.Callit
import OncRpc.Xdr.Positions

/-! `pmap_rmt.c` and `rpcb_prot.c`: the arguments of an indirect call as a client puts them,
behind a length that is only known when they have been put, and as rpcbind takes them. -/
namespace OncRpc

open XdrOps XdrPos Fallible

/-! ### The filters of the client -/

/-- `struct rmtcallargs` and `struct r_rpcb_rmtcallargs`, without the arguments. -/
structure RmtcallHead where
  prog : BitVec 32
  vers : BitVec 32
  proc : BitVec 32
  arglen : BitVec 32
  deriving DecidableEq, Repr

section Client

variable {σ : Type} [XdrOps σ] [XdrPos σ]

/-- All the jugglery for just getting the size of the arguments: what stands in for the length,
the arguments, and the length put again in its place. What `XDR_SETPOS` answers is not looked
at. -/
def putSized (xdrLen : XdrProc σ (BitVec 32)) (arglen : BitVec 32) (xdrArgs : Fallible σ Unit) :
    Fallible σ (BitVec 32) := do
  let lenposition ← gets getpos
  let _ ← xdrLen .encode arglen
  let argposition ← gets getpos
  xdrArgs
  let position ← gets getpos
  let arglen := position - argposition
  ignore (setpos lenposition)
  let _ ← xdrLen .encode arglen
  ignore (setpos position)
  pure arglen

/-- `xdr_rmtcall_args` of `pmap_rmt.c`. -/
def pmapRmtcallArgs (cap : RmtcallHead) (xdrArgs : Fallible σ Unit) :
    Fallible σ RmtcallHead := do
  let _ ← xdrULong .encode cap.prog
  let _ ← xdrULong .encode cap.vers
  let _ ← xdrULong .encode cap.proc
  let arglen ← putSized xdrULong cap.arglen xdrArgs
  pure { cap with arglen := arglen }

/-- The head of `xdr_rpcb_rmtcallargs`. -/
def putRpcbHead (objp : RmtcallHead) : Fallible σ Unit := do
  let buf ← XdrOps.inline .encode (3 * bytesPerXdrUnit)
  match buf with
  | none => do
      let _ ← xdrUInt32T .encode objp.prog
      let _ ← xdrUInt32T .encode objp.vers
      let _ ← xdrUInt32T .encode objp.proc
      pure ()
  | some buf => do
      let buf ← ixdrPutInt32 buf objp.prog
      let buf ← ixdrPutInt32 buf objp.vers
      let _ ← ixdrPutInt32 buf objp.proc
      pure ()

/-- `xdr_rpcb_rmtcallargs`. -/
def xdrRpcbRmtcallargs (objp : RmtcallHead) (xdrArgs : Fallible σ Unit) :
    Fallible σ RmtcallHead := do
  putRpcbHead objp
  let arglen ← putSized xdrUInt objp.arglen xdrArgs
  pure { objp with arglen := arglen }

end Client

/-- The words of the head. -/
def headBytes (cap : RmtcallHead) : List UInt8 :=
  [cap.prog, cap.vers, cap.proc].flatMap Word.toBytes

/-- The words before the arguments. -/
def RmtcallHead.bytes (cap : RmtcallHead) : List UInt8 := headBytes cap ++ Word.toBytes cap.arglen

theorem length_headBytes (cap : RmtcallHead) : (headBytes cap).length = 12 := by
  simp [headBytes]

namespace XdrMemPtr

variable {addr : BitVec 64} {size : BitVec 32} {s : XdrMemPtr}

/-! ### What they put -/

theorem run_xdrInteger {v : BitVec 32} (h : 4 ≤ s.xHandy.toNat) :
    (xdrInteger id id .encode v : Fallible XdrMemPtr (BitVec 32)).run s =
      (some v, s.put (Word.toBytes v)) :=
  run_bind_some (run_putlong h)

theorem toNat_xHandy_put {bs : List UInt8} (h : bs.length ≤ s.xHandy.toNat) :
    (s.put bs).xHandy.toNat = s.xHandy.toNat - bs.length := by
  have hLen := toNat_length h
  show (s.xHandy - BitVec.ofNat 32 bs.length).toNat = _
  rw [BitVec.toNat_sub_of_le (show (BitVec.ofNat 32 bs.length).toNat ≤ _ by omega), hLen]

/-- A word behind what has been put. -/
theorem run_xdrInteger_put {bs : List UInt8} {v : BitVec 32} (h : bs.length + 4 ≤ s.xHandy.toNat) :
    (xdrInteger id id .encode v : Fallible XdrMemPtr (BitVec 32)).run (s.put bs) =
      (some v, s.put (bs ++ Word.toBytes v)) := by
  have hRoom : 4 ≤ (s.put bs).xHandy.toNat := by
    rw [toNat_xHandy_put (by omega)]
    omega
  rw [run_xdrInteger hRoom, put_put (by rw [Word.length_toBytes]; omega)]

/-- Three words, one by one. -/
theorem run_words (a b c : BitVec 32) (h : 12 ≤ s.xHandy.toNat) {α : Type}
    (f : Fallible XdrMemPtr α) :
    (xdrInteger id id .encode a >>= fun _ => xdrInteger id id .encode b >>= fun _ =>
      xdrInteger id id .encode c >>= fun _ => f : Fallible XdrMemPtr α).run s =
        f.run (s.put ([a, b, c].flatMap Word.toBytes)) := by
  rw [run_bind_some (run_xdrInteger (by omega)),
    run_bind_some (run_xdrInteger_put (by rw [Word.length_toBytes]; omega)),
    run_bind_some (run_xdrInteger_put (by
      rw [List.length_append, Word.length_toBytes, Word.length_toBytes]
      omega))]
  simp only [List.flatMap_cons, List.flatMap_nil, List.append_nil, List.append_assoc]

/-- Three words through a pointer. -/
theorem store_words (a b c : BitVec 32) :
    XdrOps.store (s.xPrivate.toNat + 4 + 4) (Word.toBytes c)
      (XdrOps.store (s.xPrivate.toNat + 4) (Word.toBytes b)
        (XdrOps.store s.xPrivate.toNat (Word.toBytes a) (s.advance 12))) =
      s.put ([a, b, c].flatMap Word.toBytes) := by
  have hNext (n : Nat) : BitVec.ofNat 64 (s.xPrivate.toNat + n) =
      s.xPrivate + BitVec.ofNat 64 n := by
    rw [BitVec.ofNat_add, BitVec.ofNat_toNat, BitVec.setWidth_eq]
  have hFirst := hNext 0
  rw [Nat.add_zero, BitVec.add_zero] at hFirst
  have hShort : (Word.toBytes a).length + (Word.toBytes b).length < 2 ^ 64 := by simp
  have hShort' : (Word.toBytes a ++ Word.toBytes b).length + (Word.toBytes c).length < 2 ^ 64 := by
    simp
  have hSecond := moveTo_moveTo s.xPrivate s.mem hShort
  have hThird := moveTo_moveTo s.xPrivate s.mem hShort'
  rw [Word.length_toBytes] at hSecond
  rw [List.length_append, Word.length_toBytes, Word.length_toBytes] at hThird
  have hLen : ([a, b, c].flatMap Word.toBytes).length = 12 := by simp
  show XdrMemPtr.mk (moveTo (BitVec.ofNat 64 (s.xPrivate.toNat + 4 + 4)) (Word.toBytes c)
    (moveTo (BitVec.ofNat 64 (s.xPrivate.toNat + 4)) (Word.toBytes b)
      (moveTo (BitVec.ofNat 64 s.xPrivate.toNat) (Word.toBytes a) s.mem))) _ _ _ = _
  rw [Nat.add_assoc, hNext, hNext, hFirst, hSecond, hThird, put, hLen]
  simp only [List.flatMap_cons, List.flatMap_nil, List.append_nil, List.append_assoc]
  rfl

/-- The head, through a pointer or not. -/
theorem run_putRpcbHead (objp : RmtcallHead) (h : 12 ≤ s.xHandy.toNat) :
    (putRpcbHead objp : Fallible XdrMemPtr Unit).run s = (some (), s.put (headBytes objp)) := by
  unfold putRpcbHead
  by_cases hAligned : s.xBase.toNat % 4 = 0
  · have hInline : (XdrOps.inline .encode (3 * bytesPerXdrUnit)).run s =
        (some (some s.xPrivate.toNat), s.advance 12) := by
      have hRoom : s.xHandy ≥ 12 := h
      show (if _ then _ else _) = _
      rw [if_pos hAligned]
      exact if_pos hRoom
    rw [run_bind_some hInline]
    exact congrArg (Prod.mk (some ())) (store_words objp.prog objp.vers objp.proc)
  · have hInline : (XdrOps.inline .encode (3 * bytesPerXdrUnit)).run s = (some none, s) :=
      if_neg hAligned
    rw [run_bind_some hInline]
    exact run_words objp.prog objp.vers objp.proc h (pure ())

/-- A position in the block. -/
theorem Placed.toNat_add (h : s.Placed addr size) {n : Nat} (hRoom : n ≤ s.xHandy.toNat) :
    (s.xdrmemGetpos + BitVec.ofNat 32 n).toNat = s.xdrmemGetpos.toNat + n := by
  obtain ⟨off, hPrivate, hEnd⟩ := h.offset
  have hGetpos := h.getpos
  have hLt := size.isLt
  rw [BitVec.toNat_add, BitVec.toNat_ofNat]
  omega

/-- What stands in for the length, and then the length, in the same place. -/
theorem Placed.run_putSized (h : s.Placed addr size) (hWrap : addr.toNat + size.toNat < 2 ^ 64)
    {head args : List UInt8} {arglen : BitVec 32} {xdrArgs : Fallible XdrMemPtr Unit}
    (hRoom : head.length + 4 + args.length ≤ s.xHandy.toNat)
    (hArgs : xdrArgs.run (s.put (head ++ Word.toBytes arglen)) =
      (some (), (s.put (head ++ Word.toBytes arglen)).put args))
    (hLen : SameSide addr size (s.xdrmemGetpos + BitVec.ofNat 32 head.length))
    (hEnd : SameSide addr size (s.xdrmemGetpos + BitVec.ofNat 32 (head.length + 4 + args.length))) :
    (putSized (xdrInteger id id) arglen xdrArgs).run (s.put head) =
      (some (BitVec.ofNat 32 args.length),
        s.put (head ++ Word.toBytes (BitVec.ofNat 32 args.length) ++ args)) := by
  have hGetpos := h.getpos
  obtain ⟨off, hPrivate, hHandy⟩ := h.offset
  have hWord : (Word.toBytes arglen).length = 4 := Word.length_toBytes _
  have hWord' : (Word.toBytes (BitVec.ofNat 32 args.length)).length = 4 := Word.length_toBytes _
  -- The first time over: what stands in, and the arguments.
  have hFirst : (s.put (head ++ Word.toBytes arglen)).put args =
      s.put (head ++ Word.toBytes arglen ++ args) := by
    apply put_put
    rw [List.length_append]
    omega
  have hFirstLen : (head ++ Word.toBytes arglen ++ args).length =
      head.length + 4 + args.length := by
    rw [List.length_append, List.length_append, hWord]
  have hSize : (s.put (head ++ Word.toBytes arglen ++ args)).xdrmemGetpos -
      (s.put (head ++ Word.toBytes arglen)).xdrmemGetpos = BitVec.ofNat 32 args.length := by
    have hSplit : (head ++ Word.toBytes arglen ++ args).length =
        (head ++ Word.toBytes arglen).length + args.length := List.length_append
    rw [getpos_put, getpos_put, hSplit, BitVec.ofNat_add, ← BitVec.add_assoc, BitVec.add_comm,
      BitVec.add_sub_cancel]
  have hPlaced : (s.put (head ++ Word.toBytes arglen ++ args)).Placed addr size :=
    h.put hWrap (by omega)
  -- Back to the length, and the length.
  obtain ⟨s₁, hBack, hPlaced₁, hPos₁, hMem₁⟩ := hPlaced.run_setpos hWrap hLen (by
    rw [h.toNat_add (by omega)]
    omega)
  have hRoom₁ : 4 ≤ s₁.xHandy.toNat := by
    obtain ⟨off₁, hPrivate₁, hHandy₁⟩ := hPlaced₁.offset
    have hGetpos₁ := hPlaced₁.getpos
    rw [hPos₁, h.toNat_add (by omega)] at hGetpos₁
    omega
  have hPlaced₂ : (s₁.put (Word.toBytes (BitVec.ofNat 32 args.length))).Placed addr size :=
    hPlaced₁.put hWrap (by omega)
  -- And to the end of the arguments.
  obtain ⟨s₂, hForth, hPlaced₃, hPos₂, hMem₂⟩ := hPlaced₂.run_setpos hWrap hEnd (by
    rw [h.toNat_add (by omega)]
    omega)
  have hDone : s₂ = s.put (head ++ Word.toBytes (BitVec.ofNat 32 args.length) ++ args) := by
    have hDoneLen : (head ++ Word.toBytes (BitVec.ofNat 32 args.length) ++ args).length =
        head.length + 4 + args.length := by
      rw [List.length_append, List.length_append, hWord']
    apply hPlaced₃.ext (h.put hWrap (by omega))
    · have hAt : s₁.xPrivate = s.xPrivate + BitVec.ofNat 64 head.length := by
        apply BitVec.eq_of_toNat_eq
        have hLt := s.xHandy.isLt
        rw [hPlaced₁.getpos, hPos₁, h.toNat_add (by omega), BitVec.toNat_add, BitVec.toNat_ofNat,
          hGetpos]
        omega
      rw [hMem₂]
      show moveTo s₁.xPrivate _ s₁.mem = moveTo s.xPrivate _ s.mem
      rw [hMem₁, hAt]
      exact moveTo_patch s.xPrivate s.mem (hWord'.trans hWord.symm) (by
        have hLt := s.xHandy.isLt
        omega)
    · rw [hPos₂, getpos_put, hDoneLen]
  have hEndPos : (s.put (head ++ Word.toBytes arglen ++ args)).xdrmemGetpos =
      s.xdrmemGetpos + BitVec.ofNat 32 (head.length + 4 + args.length) := by
    rw [getpos_put, hFirstLen]
  rw [putSized, run_bind_gets, run_bind_some (run_xdrInteger_put (by omega)), run_bind_gets,
    run_bind_some hArgs, run_bind_gets, hFirst]
  show (ignore (xdrmemSetpos (s.put head).xdrmemGetpos) >>= fun _ =>
    xdrInteger id id .encode ((s.put (head ++ Word.toBytes arglen ++ args)).xdrmemGetpos -
      (s.put (head ++ Word.toBytes arglen)).xdrmemGetpos) >>= fun _ =>
    ignore (xdrmemSetpos (s.put (head ++ Word.toBytes arglen ++ args)).xdrmemGetpos) >>= fun _ =>
    pure _).run _ = _
  have hBack' : (xdrmemSetpos (s.xdrmemGetpos + BitVec.ofNat 32 head.length)).run
      (s.put (head ++ Word.toBytes arglen ++ args)) = (some (), s₁) := hBack
  have hForth' : (xdrmemSetpos
      (s.xdrmemGetpos + BitVec.ofNat 32 (head.length + 4 + args.length))).run
      (s₁.put (Word.toBytes (BitVec.ofNat 32 args.length))) = (some (), s₂) := hForth
  rw [hSize, hEndPos, getpos_put, run_bind_some (run_ignore hBack'),
    run_bind_some (run_xdrInteger hRoom₁), run_bind_some (run_ignore hForth'), hDone]
  exact congrArg (fun v => (some v, s.put _)) hSize

/-- What is put at the position is there. -/
theorem bytesAt_put {bs : List UInt8} (h : bs.length ≤ s.xHandy.toNat) :
    bytesAt (s.put bs).mem s.xPrivate bs.length = bs := by
  have hLt := s.xHandy.isLt
  apply List.ext_getElem?
  intro i
  by_cases hi : i < bs.length
  · have hAway : (s.xPrivate + BitVec.ofNat 64 i - s.xPrivate).toNat = i := by
      rw [BitVec.add_comm, BitVec.add_sub_cancel, BitVec.toNat_ofNat]
      exact Nat.mod_eq_of_lt (by omega)
    rw [getElem?_bytesAt _ _ hi]
    show some ((bs[(s.xPrivate + BitVec.ofNat 64 i - s.xPrivate).toNat]?).getD _) = _
    rw [hAway, List.getElem?_eq_getElem hi]
    rfl
  · rw [List.getElem?_eq_none (Nat.not_lt.mp hi), List.getElem?_eq_none]
    rw [length_bytesAt]
    exact Nat.not_lt.mp hi

end XdrMemPtr

/-! ### What rpcbind takes -/

/-- The bytes of an indirect call. -/
def rmtcallBytes (cap : RmtcallHead) (args : List UInt8) : List UInt8 :=
  headBytes cap ++ Word.toBytes (BitVec.ofNat 32 args.length) ++ args

theorem length_rmtcallBytes (cap : RmtcallHead) (args : List UInt8) :
    (rmtcallBytes cap args).length = 16 + args.length := by
  rw [rmtcallBytes, List.length_append, List.length_append, length_headBytes, Word.length_toBytes]

/-- What `xdr_rmtcall_args` of rpcbind makes of them. -/
def receivedArgs (cap : RmtcallHead) (args : List UInt8) : RmtcallArgs where
  rmtProg := cap.prog
  rmtVers := cap.vers
  rmtProc := cap.proc
  args := args

/-- `xdr_encap_parms`: the padding of arguments that end the call is missing. -/
theorem run_xdrBytes_args {sp args : List UInt8} (hRoom : rpcMaxdatasize ≤ sp.length)
    (hSize : args.length < 2 ^ 32) :
    ((xdrBytes rpcMaxdatasize .decode (some sp, 0) : Fallible ByteStream _).run
      (Word.toBytes (BitVec.ofNat 32 args.length) ++ args)).1 =
        if args.length ≤ rpcMaxdatasize ∧ args.length % 4 = 0 then
          some (some (Buffer.writeAt sp 0 args), BitVec.ofNat 32 args.length)
        else none := by
  have hToNat : (BitVec.ofNat 32 args.length).toNat = args.length := by
    rw [BitVec.toNat_ofNat]
    exact Nat.mod_eq_of_lt hSize
  have hWord := takes_xdrUInt 0 (BitVec.ofNat 32 args.length) args
  unfold xdrBytes
  rw [run_bind_some hWord, run_bind_require, hToNat]
  by_cases hMax : args.length ≤ rpcMaxdatasize
  · rw [if_pos (fun hBad => absurd hMax (Nat.not_le.mpr hBad.1))]
    dsimp only
    by_cases hZero : args.length = 0
    · obtain rfl := List.length_eq_zero_iff.mp hZero
      rw [if_pos hZero, if_pos ⟨hMax, rfl⟩, Buffer.writeAt_nil]
      rfl
    · rw [if_neg hZero]
      by_cases hUnits : args.length % 4 = 0
      · have hLen : rndup args.length = args.length := by
          rw [rndup_eq, padding_eq, hUnits]
          rfl
        have hOpaque := run_xdrOpaque_byteStream sp hZero (Nat.le_of_eq hLen)
        rw [if_pos ⟨hMax, hUnits⟩, Option.getD_some, run_bind_some hOpaque, List.take_length]
        rfl
      · have hPad : padding args.length ≠ 0 := by
          rw [padding_eq]
          omega
        have hBody : (getbytes args.length : Fallible ByteStream (List UInt8)).run args =
            (some args, []) := by
          have hTake := ByteStream.run_getbytes_append args []
          rwa [List.append_nil] at hTake
        have hCrud : (getbytes (padding args.length) : Fallible ByteStream (List UInt8)).run [] =
            (none, []) :=
          ByteStream.run_getbytes_short (Nat.pos_of_ne_zero hPad)
        have hOpaque : ((xdrOpaque .decode sp args.length : Fallible ByteStream (List UInt8)).run
            args) = (none, []) := by
          rw [xdrOpaque, if_neg hZero]
          show (getbytes args.length >>= _ : Fallible ByteStream (List UInt8)).run args = _
          rw [run_bind_some hBody, if_neg hPad, run_bind_none hCrud]
        rw [if_neg (fun hBoth => hUnits hBoth.2), Option.getD_some, run_bind_none hOpaque]
  · rw [if_neg (not_not.mpr ⟨Nat.not_le.mp hMax, by decide⟩), if_neg fun hBoth => hMax hBoth.1]

theorem run_xdrRmtcallArgs (cap : RmtcallHead) {args : List UInt8} (hSize : args.length < 2 ^ 32) :
    ((xdrRmtcallArgs ByteStream).run (rmtcallBytes cap args)).1 =
      if args.length ≤ rpcMaxdatasize ∧ args.length % 4 = 0 then some (receivedArgs cap args)
      else none := by
  have hWord (v : BitVec 32) (t : List UInt8) :
      (xdrUInt32T .decode 0 : Fallible ByteStream (BitVec 32)).run (Word.toBytes v ++ t) =
        (some v, t) := takes_xdrInteger id id 0 v t
  have hBuffer : rpcMaxdatasize ≤ (List.replicate rpcBufMax (0 : UInt8)).length := by
    rw [List.length_replicate]
    decide
  have hBody := run_xdrBytes_args hBuffer hSize
  have hSplit : rmtcallBytes cap args = Word.toBytes cap.prog ++ (Word.toBytes cap.vers ++
      (Word.toBytes cap.proc ++ (Word.toBytes (BitVec.ofNat 32 args.length) ++ args))) := by
    simp [rmtcallBytes, headBytes]
  unfold xdrRmtcallArgs
  rw [hSplit, run_bind_some (hWord _ _), run_bind_some (hWord _ _), run_bind_some (hWord _ _),
    run_bind]
  split
  · next r t hRun =>
      rw [hRun] at hBody
      by_cases hGood : args.length ≤ rpcMaxdatasize ∧ args.length % 4 = 0
      · rw [if_pos hGood] at hBody ⊢
        cases hBody
        have hToNat : (BitVec.ofNat 32 args.length).toNat = args.length := by
          rw [BitVec.toNat_ofNat]
          exact Nat.mod_eq_of_lt hSize
        have hTake : (Buffer.writeAt (List.replicate rpcBufMax 0) 0 args).take args.length =
            args := by
          simp [Buffer.writeAt]
        show some (RmtcallArgs.mk _ _ _ (List.take _ _)) = _
        rw [Option.getD_some, hToNat, hTake]
        rfl
      · rw [if_neg hGood] at hBody
        cases hBody
  · next t hRun =>
      rw [hRun] at hBody
      by_cases hGood : args.length ≤ rpcMaxdatasize ∧ args.length % 4 = 0
      · rw [if_pos hGood] at hBody
        cases hBody
      · rw [if_neg hGood]

/-! ### From the client to rpcbind -/

/-- The filters of the two versions. -/
def IsClientFilter
    (filter : RmtcallHead → Fallible XdrMemPtr Unit → Fallible XdrMemPtr RmtcallHead) : Prop :=
  filter = pmapRmtcallArgs ∨ filter = xdrRpcbRmtcallargs

section Indirect

variable {addr : BitVec 64} {size : BitVec 32} {s : XdrMemPtr}
  {filter : RmtcallHead → Fallible XdrMemPtr Unit → Fallible XdrMemPtr RmtcallHead}

/-- Either filter puts the head, the length of the arguments and the arguments, and nothing
behind them. -/
theorem run_clientFilter (hFilter : IsClientFilter filter) (hPlaced : s.Placed addr size)
    (hWrap : addr.toNat + size.toNat < 2 ^ 64) (cap : RmtcallHead) {args : List UInt8}
    {xdrArgs : Fallible XdrMemPtr Unit} (hRoom : 16 + args.length ≤ s.xHandy.toNat)
    (hArgs : xdrArgs.run (s.put cap.bytes) = (some (), (s.put cap.bytes).put args))
    (hLen : XdrMemPtr.SameSide addr size (s.xdrmemGetpos + 12))
    (hEnd : XdrMemPtr.SameSide addr size (s.xdrmemGetpos + BitVec.ofNat 32 (16 + args.length))) :
    (filter cap xdrArgs).run s =
      (some { cap with arglen := BitVec.ofNat 32 args.length }, s.put (rmtcallBytes cap args)) := by
  have hHead := length_headBytes cap
  have hAll : (headBytes cap).length + 4 + args.length ≤ s.xHandy.toNat := by omega
  have hSized := hPlaced.run_putSized hWrap hAll hArgs (by rw [hHead]; exact hLen)
    (by rw [hHead]; exact hEnd)
  rcases hFilter with rfl | rfl
  · have hTwelve : 12 ≤ s.xHandy.toNat := by omega
    have hWords := XdrMemPtr.run_words cap.prog cap.vers cap.proc hTwelve
      (putSized xdrULong cap.arglen xdrArgs >>= fun arglen =>
        pure { cap with arglen := arglen })
    exact hWords.trans (run_bind_some hSized)
  · unfold xdrRpcbRmtcallargs
    rw [run_bind_some (XdrMemPtr.run_putRpcbHead cap (by omega))]
    exact run_bind_some hSized

/-- The arguments that an encoder puts anywhere on a stream come out of either filter behind their
own length, with the stream behind them, and rpcbind takes the call as it was made exactly when
the arguments are units of four bytes and not more than it has room for. -/
theorem rmtcall_args_arrive (hFilter : IsClientFilter filter) (hPlaced : s.Placed addr size)
    (hWrap : addr.toNat + size.toNat < 2 ^ 64) (cap : RmtcallHead) {args : List UInt8}
    {xdrArgs : Fallible XdrMemPtr Unit} (hRoom : 16 + args.length ≤ s.xHandy.toNat)
    (hArgs : xdrArgs.run (s.put cap.bytes) = (some (), (s.put cap.bytes).put args))
    (hLen : XdrMemPtr.SameSide addr size (s.xdrmemGetpos + 12))
    (hEnd : XdrMemPtr.SameSide addr size (s.xdrmemGetpos + BitVec.ofNat 32 (16 + args.length))) :
    ∃ s', (filter cap xdrArgs).run s =
        (some { cap with arglen := BitVec.ofNat 32 args.length }, s') ∧
      s'.xdrmemGetpos = s.xdrmemGetpos + BitVec.ofNat 32 (16 + args.length) ∧
      XdrMemPtr.bytesAt s'.mem s.xPrivate (16 + args.length) =
        headBytes cap ++ Word.toBytes (BitVec.ofNat 32 args.length) ++ args ∧
      ((xdrRmtcallArgs ByteStream).run
        (XdrMemPtr.bytesAt s'.mem s.xPrivate (16 + args.length))).1 =
          if args.length ≤ rpcMaxdatasize ∧ args.length % 4 = 0 then
            some { rmtProg := cap.prog, rmtVers := cap.vers, rmtProc := cap.proc, args := args }
          else none := by
  have hTotal := length_rmtcallBytes cap args
  have hBytes : XdrMemPtr.bytesAt (s.put (rmtcallBytes cap args)).mem s.xPrivate
      (16 + args.length) = rmtcallBytes cap args := by
    rw [← hTotal]
    exact XdrMemPtr.bytesAt_put (by omega)
  have hSize : args.length < 2 ^ 32 := by
    have hLt := s.xHandy.isLt
    omega
  refine ⟨_, run_clientFilter hFilter hPlaced hWrap cap hRoom hArgs hLen hEnd, ?_, hBytes, ?_⟩
  · rw [XdrMemPtr.getpos_put, hTotal]
  · rw [hBytes]
    exact run_xdrRmtcallArgs cap hSize

end Indirect

/-- A call of `rusers`, and the stream for a word of arguments. -/
def rusersCall : RmtcallHead := { prog := 100002, vers := 2, proc := 2, arglen := 0 }

def wordStream : XdrMemPtr := XdrMemPtr.xdrmemCreate (fun _ => 0) 4096 20

theorem rmtcall_args_arrive_word :
    ∃ s', (xdrRpcbRmtcallargs rusersCall (putlong 7)).run wordStream =
        (some { rusersCall with arglen := 4 }, s') ∧
      s'.xdrmemGetpos = 20 ∧
      XdrMemPtr.bytesAt s'.mem 4096 20 =
        headBytes rusersCall ++ Word.toBytes 4 ++ Word.toBytes 7 ∧
      ((xdrRmtcallArgs ByteStream).run (XdrMemPtr.bytesAt s'.mem 4096 20)).1 =
        some { rmtProg := 100002, rmtVers := 2, rmtProc := 2, args := Word.toBytes 7 } := by
  have hPlaced : wordStream.Placed 4096 20 := ⟨rfl, 0, rfl, rfl⟩
  have hRoom : 4 ≤ (wordStream.put rusersCall.bytes).xHandy.toNat := by decide
  exact rmtcall_args_arrive (Or.inr rfl) hPlaced (by decide) rusersCall
    (show 16 + (Word.toBytes 7).length ≤ 20 by decide) (XdrMemPtr.run_putlong hRoom)
    (by decide) (by decide)

/-- Four bytes more than rpcbind takes. -/
def manyArgs : List UInt8 := List.replicate 9004 0

def manyStream : XdrMemPtr := XdrMemPtr.xdrmemCreate (fun _ => 0) 4096 9020

/-- They are put, and not taken. -/
theorem not_rmtcall_args_arrive_many :
    ((pmapRmtcallArgs rusersCall (putbytes manyArgs)).run manyStream).1 =
        some { rusersCall with arglen := 9004 } ∧
      ((xdrRmtcallArgs ByteStream).run (XdrMemPtr.bytesAt
        ((pmapRmtcallArgs rusersCall (putbytes manyArgs)).run manyStream).2.mem 4096 9020)).1 =
          none := by
  have hPlaced : manyStream.Placed 4096 9020 := ⟨rfl, 0, rfl, rfl⟩
  have hMany : manyArgs.length = 9004 := List.length_replicate
  have hTotal : (rmtcallBytes rusersCall manyArgs).length = 9020 := by
    rw [length_rmtcallBytes, hMany]
  have hRoom : manyArgs.length ≤ (manyStream.put rusersCall.bytes).xHandy.toNat := by
    rw [hMany]
    decide
  have hArgs : (putbytes manyArgs : Fallible XdrMemPtr Unit).run
      (manyStream.put rusersCall.bytes) =
        (some (), (manyStream.put rusersCall.bytes).put manyArgs) :=
    XdrMemPtr.run_putbytes hRoom
  have hRun := run_clientFilter (Or.inl rfl) hPlaced (by decide) rusersCall
    (by rw [hMany]; decide) hArgs (by decide) (by rw [hMany]; decide)
  have hBytes : XdrMemPtr.bytesAt (manyStream.put (rmtcallBytes rusersCall manyArgs)).mem 4096
      9020 = rmtcallBytes rusersCall manyArgs := by
    have hFits : (rmtcallBytes rusersCall manyArgs).length ≤ manyStream.xHandy.toNat := by
      rw [hTotal]
      decide
    have hPut := XdrMemPtr.bytesAt_put hFits
    rw [hTotal] at hPut
    exact hPut
  have hSize : manyArgs.length < 2 ^ 32 := by
    rw [hMany]
    decide
  have hServer := run_xdrRmtcallArgs rusersCall hSize
  rw [if_neg (by rw [hMany]; decide)] at hServer
  rw [hRun, hMany]
  refine ⟨rfl, ?_⟩
  show ((xdrRmtcallArgs ByteStream).run
    (XdrMemPtr.bytesAt (manyStream.put (rmtcallBytes rusersCall manyArgs)).mem 4096 9020)).1 = none
  rw [hBytes, hServer]

end OncRpc
