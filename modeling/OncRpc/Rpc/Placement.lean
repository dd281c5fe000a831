import OncRpc.Rec.Holding
import OncRpc.Rec.Reader
import OncRpc.Rpc.CallMsg

/-! The places a call header can be decoded from, and why they do not matter. -/
namespace OncRpc

open Fallible RecordMarking

/-- Where the bytes `b` can lie for `xdr_callmsg` to decode them. -/
inductive Placement (b : List UInt8) where
  /-- The rest of an aligned or an unaligned block. -/
  | mem (s : XdrMem) (within : s.Within) (rest_eq : s.rest = b)
  /-- The first record on a blocking stream, cut into fragments and into reads. -/
  | stream (sendsize recvsize : BitVec 32) (host : Host) (tcp : Transport) (r : Record)
      (tail : List UInt8) (blocking : tcp.nonblock = false) (body_eq : r.body = b)
      (ready_eq : Transport.ready tcp.arrivals = encodeAll r.frags ++ tail)
  /-- The record that a non-blocking stream holds in its buffer. -/
  | held (s : RecStrm) (holding : s.Holding b)

/-- What decoding a call answers, and what a request for more bytes answers then. -/
def decodeCall {σ : Type} [XdrOps σ] (cmsg : RpcMsg) (s : σ) :
    Option RpcMsg × (Nat → Option (List UInt8)) :=
  let after := (xdrCallmsg .decode cmsg).run s
  (after.1, fun k => ((XdrOps.getbytes k : Fallible σ (List UInt8)).run after.2).1)

/-- Decode a call where it lies. A stream is positioned by `xdrrec_skiprecord`. -/
def Placement.decode {b : List UInt8} (cmsg : RpcMsg) :
    Placement b → Option RpcMsg × (Nat → Option (List UInt8))
  | .mem s _ _ => decodeCall cmsg s
  | .stream sendsize recvsize host tcp _ _ _ _ _ =>
      decodeCall cmsg
        (RecStrm.xdrrecSkiprecord.run (RecStrm.xdrrecCreate sendsize recvsize host tcp)).2
  | .held s _ => decodeCall cmsg s

/-- `n` of the bytes have been consumed when further requests are served from
the rest of them. -/
def Consumes (b : List UInt8) (next : Nat → Option (List UInt8)) (n : Nat) : Prop :=
  n ≤ b.length ∧ ∀ k, next k = if k ≤ b.length - n then some ((b.drop n).take k) else none

theorem Consumes.unique {b : List UInt8} {next : Nat → Option (List UInt8)} {m n : Nat}
    (hm : Consumes b next m) (hn : Consumes b next n) : m = n := by
  obtain ⟨hmLe, hmNext⟩ := hm
  obtain ⟨hnLe, hnNext⟩ := hn
  by_contra hNe
  rcases Nat.lt_or_gt_of_ne hNe with hLt | hLt
  · have h := (hmNext (b.length - m)).symm.trans (hnNext (b.length - m))
    rw [if_pos (le_refl _), if_neg (by omega)] at h
    cases h
  · have h := (hnNext (b.length - n)).symm.trans (hmNext (b.length - n))
    rw [if_pos (le_refl _), if_neg (by omega)] at h
    cases h

/-- A placement without an empty fragment in front of others, on a stream whose
buffer size is a positive `int`. -/
def Placement.Ordinary {b : List UInt8} : Placement b → Prop
  | .mem _ _ _ => True
  | .stream _ recvsize _ _ r _ _ _ _ =>
      recvsize.toNat ≤ 2 ^ 31 - 4 ∧ ∀ f ∈ r.frags, f.head ≠ 0
  | .held _ _ => True

/-- Every lawful reader decodes a call as the bytes alone do. -/
theorem decodeCall_lawful {σ : Type} [XdrOps σ] {R : σ → List UInt8 → Prop}
    (h : LawfulReader R) (cmsg : RpcMsg) {b : List UInt8} {s : σ} (hs : R s b) :
    (decodeCall cmsg s).1 = (decodeCall cmsg (b : ByteStream)).1 ∧
    ((decodeCall cmsg (b : ByteStream)).1.isSome → ∀ k,
      (decodeCall cmsg s).2 k = (decodeCall cmsg (b : ByteStream)).2 k) := by
  obtain ⟨hAns, hKeep⟩ := decodes_xdrCallmsg h cmsg s b hs
  refine ⟨hAns, fun hSome k => ?_⟩
  exact (h.getbytes k _ _ (hKeep hSome)).1

/-- The bytes alone are a reader that stays inside the bytes it began with. -/
theorem lawful_suffix (b : List UInt8) :
    LawfulReader fun (s : ByteStream) t => s = t ∧ t <:+ b := by
  apply LawfulReader.of_runs
  · rintro s t ⟨rfl, hSuffix⟩
    refine ⟨fun hLe => ⟨s.drop 4, ?_, rfl, (List.drop_suffix 4 s).trans hSuffix⟩, fun hLt => ?_⟩
    · simp only [Fallible.run, XdrOps.getlong, ByteStream.getlong, if_pos hLe]
    · exact congrArg Prod.fst (ByteStream.run_getlong_short hLt)
  · rintro n s t ⟨rfl, hSuffix⟩
    refine ⟨fun hLe => ⟨s.drop n, ?_, rfl, (List.drop_suffix n s).trans hSuffix⟩, fun hLt => ?_⟩
    · simp only [Fallible.run, XdrOps.getbytes, ByteStream.getbytes, if_pos hLe]
    · exact congrArg Prod.fst (ByteStream.run_getbytes_short hLt)
  · exact fun n s t h => Or.inl ⟨s, rfl, h⟩

/-- What the bytes alone leave is a suffix of them. -/
theorem decodeCall_consumes (cmsg : RpcMsg) (b : List UInt8)
    (hSome : (decodeCall cmsg (b : ByteStream)).1.isSome) :
    ∃ n, Consumes b (decodeCall cmsg (b : ByteStream)).2 n := by
  obtain ⟨-, hKeep⟩ := decodes_xdrCallmsg (lawful_suffix b) cmsg b b ⟨rfl, List.suffix_refl b⟩
  obtain ⟨-, hSuffix⟩ := hKeep hSome
  have hDrop := List.suffix_iff_eq_drop.mp hSuffix
  refine ⟨b.length - ((xdrCallmsg .decode cmsg).run (b : ByteStream)).2.length,
    Nat.sub_le _ _, fun k => ?_⟩
  show ((ByteStream.getbytes k).run ((xdrCallmsg .decode cmsg).run (b : ByteStream)).2).1 = _
  have hLen := hSuffix.length_le
  generalize ((xdrCallmsg .decode cmsg).run (b : ByteStream)).2 = left at hDrop hLen ⊢
  rw [← hDrop, Nat.sub_sub_self hLen]
  by_cases hk : k ≤ left.length
  · simp only [Fallible.run, ByteStream.getbytes, if_pos hk]
  · simp only [Fallible.run, ByteStream.getbytes, if_neg hk]

/-- Every ordinary placement decodes as the bytes alone do. -/
theorem decode_ordinary (cmsg : RpcMsg) {b : List UInt8} (p : Placement b) (h : p.Ordinary) :
    (p.decode cmsg).1 = (decodeCall cmsg (b : ByteStream)).1 ∧
    ((decodeCall cmsg (b : ByteStream)).1.isSome → ∀ k,
      (p.decode cmsg).2 k = (decodeCall cmsg (b : ByteStream)).2 k) := by
  cases p with
  | mem s within rest_eq =>
      exact decodeCall_lawful XdrMem.lawful cmsg (rest_eq ▸ XdrMem.before_rest within)
  | stream sendsize recvsize host tcp r tail blocking body_eq ready_eq =>
      obtain ⟨hRecv, hHeads⟩ := h
      have hNew := RecStrm.reading_xdrrecCreate sendsize host hRecv blocking
      obtain ⟨s, hSkip, hAt⟩ := RecStrm.xdrrecSkiprecord_reading hNew
      rw [ready_eq] at hAt
      have hRead := hAt.reading hHeads
      rw [body_eq] at hRead
      show (decodeCall cmsg (RecStrm.xdrrecSkiprecord.run _).2).1 = _ ∧ _
      simp only [Placement.decode, hSkip]
      exact decodeCall_lawful RecStrm.lawful_reading cmsg hRead
  | held s holding => exact decodeCall_lawful RecStrm.lawful_holding cmsg holding

/-- A call header is accepted at one ordinary placement if and only if it is
accepted at every other, with the same message and the same number of bytes. -/
theorem xdrCallmsg_placement (b : List UInt8) (cmsg : RpcMsg) (p q : Placement b)
    (hp : p.Ordinary) (hq : q.Ordinary) :
    (p.decode cmsg).1 = (q.decode cmsg).1 ∧
    ((p.decode cmsg).1.isSome → ∃ n, Consumes b (p.decode cmsg).2 n ∧
      Consumes b (q.decode cmsg).2 n ∧
      ∀ m, Consumes b (p.decode cmsg).2 m ∨ Consumes b (q.decode cmsg).2 m → m = n) := by
  obtain ⟨hpAns, hpNext⟩ := decode_ordinary cmsg p hp
  obtain ⟨hqAns, hqNext⟩ := decode_ordinary cmsg q hq
  refine ⟨hpAns.trans hqAns.symm, fun hSome => ?_⟩
  rw [hpAns] at hSome
  obtain ⟨n, hn⟩ := decodeCall_consumes cmsg b hSome
  have hpSame : (p.decode cmsg).2 = (decodeCall cmsg (b : ByteStream)).2 := funext (hpNext hSome)
  have hqSame : (q.decode cmsg).2 = (decodeCall cmsg (b : ByteStream)).2 := funext (hqNext hSome)
  rw [hpSame, hqSame]
  refine ⟨n, hn, hn, fun m hm => ?_⟩
  rcases hm with hm | hm
  · exact hm.unique hn
  · exact hm.unique hn

/-- A call of procedure 3 of version 4 of program 5 with null authenticators. -/
def nullCall : List UInt8 :=
  [0, 0, 0, 7, 0, 0, 0, 0, 0, 0, 0, 2, 0, 0, 0, 5, 0, 0, 0, 4, 0, 0, 0, 3,
    0, 0, 0, 0, 0, 0, 0, 0, 0, 0, 0, 0, 0, 0, 0, 0]

/-- A message before anything has been decoded into it. -/
def blankMsg : RpcMsg :=
  { rmXid := 0, rmDirection := 0, rmCall :=
    { cbRpcvers := 0, cbProg := 0, cbVers := 0, cbProc := 0
      cbCred := { oaFlavor := 0, oaBase := none, oaLength := 0 }
      cbVerf := { oaFlavor := 0, oaBase := none, oaLength := 0 } } }

/-- The call as the rest of a block. -/
def nullCallBlock : Placement nullCall :=
  .mem (XdrMem.xdrmemCreate nullCall 40 true) (by decide) (by decide)

theorem nullCall_fits : nullCall.length < 2 ^ 31 := by decide

theorem nullCall_last :
    ({ body := nullCall, last := true, fits := nullCall_fits } : Fragment).last = true := rfl

/-- The call in two fragments. -/
def nullCallHalves : Record where
  more := [{ body := nullCall.take 17, last := false, fits := by decide }]
  final := { body := nullCall.drop 17, last := true, fits := by decide }
  more_last := by simp
  final_last := rfl

/-- The call in one fragment behind an empty one. -/
def nullCallBehindEmpty : Record where
  more := [{ body := [], last := false, fits := Fragment.fits_nil }]
  final := { body := nullCall, last := true, fits := nullCall_fits }
  more_last := by simp
  final_last := nullCall_last

/-- A record on a new stream whose first read ends inside the first header. -/
def recordStream (r : Record) : Transport where
  arrivals := [.data ((encodeAll r.frags).take 3), .data ((encodeAll r.frags).drop 3)]
  written := []
  nonblock := false
  writable := true

/-- The call in two fragments on a stream. -/
def nullCallStream : Placement nullCall :=
  .stream 100 100 zeroHost (recordStream nullCallHalves) nullCallHalves [] rfl (by decide)
    (by decide)

/-- The null call decodes alike from a block and from a stream. -/
theorem xdrCallmsg_placement_null :
    (nullCallBlock.decode blankMsg).1 = (nullCallStream.decode blankMsg).1 :=
  (xdrCallmsg_placement nullCall blankMsg nullCallBlock nullCallStream trivial
    ⟨by decide, by decide⟩).1

/-- An empty fragment that is not the last one makes the stream refuse the call. -/
theorem not_placement_independent :
    ¬ ∀ (b : List UInt8) (cmsg : RpcMsg) (p q : Placement b),
      (p.decode cmsg).1.isSome = (q.decode cmsg).1.isSome := by
  intro h
  have hStream := h nullCall blankMsg nullCallBlock
    (.stream 100 100 zeroHost (recordStream nullCallBehindEmpty) nullCallBehindEmpty []
      rfl (by decide) (by decide))
  have hBlock : (nullCallBlock.decode blankMsg).1.isSome = true := by decide
  rw [hBlock] at hStream
  revert hStream
  decide

end OncRpc
