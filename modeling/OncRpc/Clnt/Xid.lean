import OncRpc.Base.Buffer
import OncRpc.Rpc.ReplyMsg

/-! `clnt_vc.c` and `clnt_dg.c`: the transaction id in the header that every call of a handle
begins with. -/
namespace OncRpc

open Word Buffer

/-- Connection-oriented (`clnt_vc_create`) or datagram (`clnt_dg_create`). -/
inductive ClntKind where
  | vc
  | dg
  deriving DecidableEq, Repr

/-- A client handle: `ct_mcallc`, or what `cu_outbuf` begins with. -/
structure ClntHandle where
  kind : ClntKind
  mcallc : List UInt8
  size : mcallc.length = 20

/-- The header is put there once, by `xdr_callhdr`. -/
def clntCreate (kind : ClntKind) (xid prog vers : BitVec 32) : ClntHandle where
  kind := kind
  mcallc := callhdrBytes xid prog vers
  size := rfl

/-- What becomes of one pass of a call through `call_again`: whether its message is encoded and
sent, and whether the reply is unsuccessful and the credentials are refreshed. -/
structure CallPass where
  sent : Bool
  refreshed : Bool

/-- `request` of `clnt_control`, as far as the header has to do with it. -/
inductive ClntRequest where
  | clsetXid (x : BitVec 32)
  | clgetXid
  | clsetVers (vers : BitVec 32)
  | clgetVers
  | clsetProg (prog : BitVec 32)
  | clgetProg
  | other

/-- What is done with a handle: `clnt_call` and `clnt_control`. -/
inductive ClntOp where
  | call (passes : Nat → CallPass)
  | control (request : ClntRequest)

/-- What a call and a control are made of. -/
inductive ClntStep where
  | pass (sent : Bool)
  | control (request : ClntRequest)

/-- The passes of a call that may still refresh the credentials so many times. -/
def callAgain : Nat → (Nat → CallPass) → List ClntStep
  | 0, passes => [.pass (passes 0).sent]
  | refreshes + 1, passes =>
      .pass (passes 0).sent ::
        if (passes 0).sent && (passes 0).refreshed then
          callAgain refreshes fun i => passes (i + 1)
        else []

namespace ClntOp

/-- The credentials are refreshed twice at most. -/
def steps : ClntOp → List ClntStep
  | .call passes => callAgain 2 passes
  | .control request => [.control request]

/-- The steps of a sequence of calls and controls. -/
def run (ops : List ClntOp) : List ClntStep := ops.flatMap steps

end ClntOp

/-- How the word of the header is stepped: `--(*msg_x_id)` or `(*cu_outbuf)++`. -/
def ClntKind.next (w : BitVec 32) : ClntKind → BitVec 32
  | .vc => w - 1
  | .dg => w + 1

/-- What `CLSET_XID` makes of its argument. -/
def ClntKind.preset (x : BitVec 32) : ClntKind → BitVec 32
  | .vc => x + 1
  | .dg => x - 1

namespace ClntHandle

variable (order : ByteOrder)

/-- The word of the header at an offset. -/
def word (off : Nat) (h : ClntHandle) : BitVec 32 := load order (readAt h.mcallc off 4)

/-- A store of a word into the header, of which it is a field. -/
def setWord (off : Nat) (hOff : off + 4 ≤ 20) (w : BitVec 32) (h : ClntHandle) : ClntHandle where
  kind := h.kind
  mcallc := writeAt h.mcallc off (store order w)
  size := by rw [length_writeAt (by simpa [h.size] using hOff), h.size]

theorem xid_inside : 0 + 4 ≤ 20 := by decide

theorem prog_inside : 12 + 4 ≤ 20 := by decide

theorem vers_inside : 16 + 4 ≤ 20 := by decide

/-- `call_again`: the header of the message that is sent next. -/
def callPass (h : ClntHandle) : ClntHandle :=
  h.setWord order 0 xid_inside (h.kind.next (h.word order 0))

/-- `clnt_vc_control` and `clnt_dg_control`: what is stored at `info`, and the handle. -/
def clntControl (h : ClntHandle) : ClntRequest → Option (BitVec 32) × ClntHandle
  | .clsetXid x => (none, h.setWord order 0 xid_inside (htonl order (h.kind.preset x)))
  | .clgetXid => (some (ntohl order (h.word order 0)), h)
  | .clsetVers vers => (none, h.setWord order 16 vers_inside (htonl order vers))
  | .clgetVers => (some (ntohl order (h.word order 16)), h)
  | .clsetProg prog => (none, h.setWord order 12 prog_inside (htonl order prog))
  | .clgetProg => (some (ntohl order (h.word order 12)), h)
  | .other => (none, h)

def step (h : ClntHandle) : ClntStep → ClntHandle
  | .pass _ => h.callPass order
  | .control request => (h.clntControl order request).2

/-- The handle after some steps. -/
def after (h : ClntHandle) (steps : List ClntStep) : ClntHandle := steps.foldl (step order) h

/-- The transaction id that the header has on the wire. -/
def wireXid (h : ClntHandle) : BitVec 32 := ofBytes (readAt h.mcallc 0 4)

/-- The transaction id of the message that a pass sends. -/
def sentXid (h : ClntHandle) : BitVec 32 := (h.callPass order).wireXid

variable {order}

theorem word_setWord (h : ClntHandle) {off : Nat} (hOff : off + 4 ≤ 20) (w : BitVec 32) :
    (h.setWord order off hOff w).word order off = w := by
  have hRead : readAt (writeAt h.mcallc off (store order w)) off 4 = store order w := by
    have hLe : off ≤ h.mcallc.length := by
      rw [h.size]
      omega
    have hSame : readAt (writeAt h.mcallc off (store order w)) off (store order w).length =
        store order w := readAt_writeAt hLe
    simpa using hSame
  show load order (readAt (writeAt h.mcallc off (store order w)) off 4) = w
  rw [hRead, load_store]

/-- A field of the header leaves the others alone. -/
theorem readAt_setWord_of_apart (h : ClntHandle) {off : Nat} (hOff : off + 4 ≤ 20) {off' n : Nat}
    (hApart : off' + n ≤ off ∨ off + 4 ≤ off') (w : BitVec 32) :
    readAt (h.setWord order off hOff w).mcallc off' n = readAt h.mcallc off' n := by
  show readAt (writeAt h.mcallc off (store order w)) off' n = _
  rcases hApart with hBefore | hAfter
  · have hLe : off ≤ h.mcallc.length := by
      rw [h.size]
      omega
    exact readAt_writeAt_before hLe hBefore
  · exact readAt_writeAt_after (by rw [h.size, length_store]; exact hOff)
      (by rw [length_store]; exact hAfter)

theorem word_setWord_of_apart (h : ClntHandle) {off : Nat} (hOff : off + 4 ≤ 20) {off' : Nat}
    (hApart : off' + 4 ≤ off ∨ off + 4 ≤ off') (w : BitVec 32) :
    (h.setWord order off hOff w).word order off' = h.word order off' := by
  rw [word, readAt_setWord_of_apart h hOff hApart, word]

/-- A field of the header behind the transaction id leaves it alone. -/
theorem word_setWord_behind (h : ClntHandle) {off : Nat} (hOff : off + 4 ≤ 20) (hBehind : 4 ≤ off)
    (w : BitVec 32) : (h.setWord order off hOff w).word order 0 = h.word order 0 :=
  h.word_setWord_of_apart hOff (Or.inl hBehind) w

theorem word_callPass (h : ClntHandle) :
    (h.callPass order).word order 0 = h.kind.next (h.word order 0) := h.word_setWord _ _

theorem wireXid_eq (order : ByteOrder) (h : ClntHandle) :
    h.wireXid = ntohl order (h.word order 0) := by
  have hLen : (readAt h.mcallc 0 4).length = 4 := length_readAt_of_le (by simp [h.size])
  unfold wireXid word ntohl
  rw [store_load order hLen]

/-- A message carries the word of the header after it has been stepped. -/
theorem sentXid_eq (h : ClntHandle) :
    h.sentXid order = ntohl order (h.kind.next (h.word order 0)) := by
  rw [sentXid, wireXid_eq order, word_callPass]

theorem kind_step (h : ClntHandle) (s : ClntStep) : (h.step order s).kind = h.kind := by
  rcases s with - | request
  · rfl
  · cases request <;> rfl

theorem kind_after (h : ClntHandle) (steps : List ClntStep) :
    (h.after order steps).kind = h.kind := by
  induction steps generalizing h with
  | nil => rfl
  | cons s steps ih => exact (ih (h.step order s)).trans (h.kind_step s)

theorem after_append (h : ClntHandle) (steps steps' : List ClntStep) :
    h.after order (steps ++ steps') = (h.after order steps).after order steps' :=
  List.foldl_append

end ClntHandle

/-! ### The word of the header along a run -/

namespace ClntStep

/-- Whether the word of the header is stepped. -/
def isPass : ClntStep → Bool
  | .pass _ => true
  | .control _ => false

/-- The transaction id is not set. -/
def KeepsXid (steps : List ClntStep) : Prop := ∀ x, control (.clsetXid x) ∉ steps

end ClntStep

open ClntStep

/-- What a pass adds to the word of the header. -/
def ClntKind.delta : ClntKind → BitVec 32
  | .vc => -1
  | .dg => 1

theorem ClntKind.next_eq (kind : ClntKind) (w : BitVec 32) : kind.next w = w + kind.delta := by
  cases kind with
  | vc => exact BitVec.sub_eq_add_neg w 1
  | dg => rfl

theorem ClntKind.eq_zero_of_mul_delta {kind : ClntKind} {w : BitVec 32} (h : w * kind.delta = 0) :
    w = 0 := by
  have hUnit : kind.delta * kind.delta = 1 := by
    cases kind <;> rfl
  have hSquare := congrArg (· * kind.delta) h
  simpa [BitVec.mul_assoc, hUnit] using hSquare

namespace ClntHandle

variable {order : ByteOrder}

theorem word_step (order : ByteOrder) (h : ClntHandle) {s : ClntStep}
    (hs : ∀ x, s ≠ .control (.clsetXid x)) :
    (h.step order s).word order 0 =
      if s.isPass then h.word order 0 + h.kind.delta else h.word order 0 := by
  cases s with
  | pass sent => exact (h.word_callPass).trans (h.kind.next_eq _)
  | control request =>
      cases request with
      | clsetXid x => exact absurd rfl (hs x)
      | clsetVers vers => exact h.word_setWord_behind (by decide) (by decide) _
      | clsetProg prog => exact h.word_setWord_behind (by decide) (by decide) _
      | clgetXid => rfl
      | clgetVers => rfl
      | clgetProg => rfl
      | other => rfl

/-- As long as the transaction id is not set, the word counts the passes. -/
theorem word_after (order : ByteOrder) (h : ClntHandle) {steps : List ClntStep}
    (hKeeps : KeepsXid steps) :
    (h.after order steps).word order 0 =
      h.word order 0 + BitVec.ofNat 32 (steps.countP isPass) * h.kind.delta := by
  induction steps generalizing h with
  | nil => simp [after]
  | cons s steps ih =>
      have hs : ∀ x, s ≠ .control (.clsetXid x) := by
        rintro x rfl
        exact hKeeps x List.mem_cons_self
      have hRest := ih (h.step order s) fun x hx => hKeeps x (List.mem_cons_of_mem s hx)
      have hStep := h.word_step order hs
      rw [kind_step] at hRest
      show ((h.step order s).after order steps).word order 0 = _
      rw [hRest, hStep, List.countP_cons]
      split
      · rw [BitVec.ofNat_add, BitVec.add_mul, BitVec.one_mul, BitVec.add_assoc,
          BitVec.add_comm h.kind.delta]
      · rfl

/-- The transaction id of the first message after `CLSET_XID`, with what fails in between. -/
theorem sentXid_after_clsetXid (h : ClntHandle) (x : BitVec 32) {mid : List ClntStep}
    (hKeeps : KeepsXid mid) :
    (h.after order (.control (.clsetXid x) :: mid)).sentXid order =
      ntohl order (htonl order (h.kind.preset x) +
        BitVec.ofNat 32 (mid.countP isPass + 1) * h.kind.delta) := by
  have hSet : (h.step order (.control (.clsetXid x))).word order 0 =
      htonl order (h.kind.preset x) := h.word_setWord (by decide) _
  have hMid := (h.step order (.control (.clsetXid x))).word_after order hKeeps
  rw [hSet, kind_step] at hMid
  show ((h.step order (.control (.clsetXid x))).after order mid).sentXid order = _
  rw [sentXid_eq, kind_after, kind_step, ClntKind.next_eq, hMid, BitVec.ofNat_add,
    BitVec.add_mul, BitVec.one_mul, BitVec.add_assoc]

/-- The transaction id of a message behind another. -/
theorem sentXid_after_pass (h : ClntHandle) {mid : List ClntStep} (hKeeps : KeepsXid mid) :
    (h.after order (.pass true :: mid)).sentXid order =
      ntohl order (h.kind.next (h.word order 0) +
        BitVec.ofNat 32 (mid.countP isPass + 1) * h.kind.delta) := by
  have hMid := (h.callPass order).word_after order hKeeps
  rw [word_callPass] at hMid
  show ((h.callPass order).after order mid).sentXid order = _
  rw [sentXid_eq, kind_after, ClntKind.next_eq, hMid, BitVec.ofNat_add, BitVec.add_mul,
    BitVec.one_mul, ← BitVec.add_assoc]
  rfl

end ClntHandle

/-! ### Setting and getting the transaction id -/

/-- `CLSET_XID` and `CLGET_XID` mean what they say in a run of a handle, and transaction ids do
not repeat. Each message that a call sends counts. -/
structure XidsHold (order : ByteOrder) (h : ClntHandle) (run : List ClntStep) : Prop where
  /-- The first message that is sent after `CLSET_XID` carries what was set. -/
  clsetXid : ∀ {pre x mid}, pre ++ .control (.clsetXid x) :: (mid ++ [.pass true]) <+: run →
    KeepsXid mid → ClntStep.pass true ∉ mid →
    (h.after order (pre ++ .control (.clsetXid x) :: mid)).sentXid order = x
  /-- `CLGET_XID` after a message returns what it carried. -/
  clgetXid : ∀ {pre mid}, pre ++ .pass true :: (mid ++ [.control .clgetXid]) <+: run →
    KeepsXid mid → mid.countP isPass = 0 →
    ((h.after order (pre ++ .pass true :: mid)).clntControl order .clgetXid).1 =
      some ((h.after order pre).sentXid order)
  /-- Two messages fewer than 2^32 apart do not carry the same. -/
  distinct : ∀ {pre mid}, pre ++ .pass true :: (mid ++ [.pass true]) <+: run →
    KeepsXid mid → mid.countP isPass + 1 < 2 ^ 32 →
    (h.after order pre).sentXid order ≠
      (h.after order (pre ++ .pass true :: mid)).sentXid order

/-- Whether the `k`th message after `CLSET_XID` carries `x`. -/
def XidAgrees (order : ByteOrder) (kind : ClntKind) (x : BitVec 32) (k : Nat) : Prop :=
  match order, kind with
  | .big, _ => BitVec.ofNat 32 k = 1
  | .little, .vc => BitVec.ofNat 32 k = htonl .little (x + 1) - htonl .little x
  | .little, .dg => BitVec.ofNat 32 k = htonl .little x - htonl .little (x - 1)

/-- Stepping the preset word so many times makes the one that was asked for. -/
theorem xidAgrees_iff (order : ByteOrder) (kind : ClntKind) (x : BitVec 32) (k : Nat) :
    htonl order (kind.preset x) + BitVec.ofNat 32 k * kind.delta = htonl order x ↔
      XidAgrees order kind x k := by
  generalize hk : BitVec.ofNat 32 k = w
  cases order <;> cases kind <;>
    simp only [XidAgrees, ClntKind.preset, ClntKind.delta, hk, htonl_big]
  · grind
  · grind
  · grind
  · grind

namespace ClntHandle

variable {order : ByteOrder}

theorem sentXid_eq_clsetXid_iff (h : ClntHandle) (pre : List ClntStep) (x : BitVec 32)
    {mid : List ClntStep} (hKeeps : KeepsXid mid) :
    (h.after order (pre ++ .control (.clsetXid x) :: mid)).sentXid order = x ↔
      XidAgrees order h.kind x (mid.countP isPass + 1) := by
  rw [after_append, sentXid_after_clsetXid _ x hKeeps, kind_after, ← xidAgrees_iff]
  constructor
  · intro hXid
    simpa using congrArg (htonl order) hXid
  · intro hWord
    rw [hWord, ntohl_htonl]

/-- `CLGET_XID` returns the transaction id of the last message. -/
theorem clgetXid_after_pass (h : ClntHandle) (pre : List ClntStep) {mid : List ClntStep}
    (hKeeps : KeepsXid mid) (hPasses : mid.countP isPass = 0) :
    ((h.after order (pre ++ .pass true :: mid)).clntControl order .clgetXid).1 =
      some ((h.after order pre).sentXid order) := by
  have hMid := ((h.after order pre).callPass order).word_after order hKeeps
  rw [hPasses, BitVec.zero_mul, BitVec.add_zero] at hMid
  rw [after_append]
  show some (ntohl order ((((h.after order pre).callPass order).after order mid).word order 0)) = _
  rw [hMid, sentXid, wireXid_eq order]

/-- It takes 2^32 passes for the word of the header to come round. -/
theorem sentXid_ne_of_passes (h : ClntHandle) (pre : List ClntStep) {mid : List ClntStep}
    (hKeeps : KeepsXid mid) (hPasses : mid.countP isPass + 1 < 2 ^ 32) :
    (h.after order pre).sentXid order ≠
      (h.after order (pre ++ .pass true :: mid)).sentXid order := by
  intro hSame
  rw [after_append, sentXid_after_pass _ hKeeps, sentXid_eq] at hSame
  have hWord := ntohl_injective hSame
  have hZero : BitVec.ofNat 32 (mid.countP isPass + 1) * (h.after order pre).kind.delta = 0 := by
    simpa using hWord.symm
  have hNat : BitVec.ofNat 32 (mid.countP isPass + 1) = 0 := ClntKind.eq_zero_of_mul_delta hZero
  have hToNat := congrArg BitVec.toNat hNat
  rw [BitVec.toNat_ofNat, Nat.mod_eq_of_lt hPasses] at hToNat
  cases hToNat

end ClntHandle

/-- The transaction ids hold in a run exactly when the byte order and the number of messages that
fail make every `CLSET_XID` agree with the first message that is sent after it. -/
theorem xidsHold_iff (order : ByteOrder) (kind : ClntKind) (xid prog vers : BitVec 32)
    (ops : List ClntOp) :
    XidsHold order (clntCreate kind xid prog vers) (ClntOp.run ops) ↔
      ∀ pre x mid, pre ++ .control (.clsetXid x) :: (mid ++ [.pass true]) <+: ClntOp.run ops →
        KeepsXid mid → ClntStep.pass true ∉ mid →
        XidAgrees order kind x (mid.countP isPass + 1) := by
  constructor
  · intro h pre x mid hRun hKeeps hUnsent
    exact (ClntHandle.sentXid_eq_clsetXid_iff _ pre x hKeeps).mp (h.clsetXid hRun hKeeps hUnsent)
  · intro h
    constructor
    · intro pre x mid hRun hKeeps hUnsent
      exact (ClntHandle.sentXid_eq_clsetXid_iff _ pre x hKeeps).mpr (h pre x mid hRun hKeeps hUnsent)
    · intro pre mid _ hKeeps hPasses
      exact ClntHandle.clgetXid_after_pass _ pre hKeeps hPasses
    · intro pre mid _ hKeeps hPasses
      exact ClntHandle.sentXid_ne_of_passes _ pre hKeeps hPasses

/-- On a little-endian machine a datagram handle that is told to go on with 5 sends 0x01000004. -/
theorem not_xidsHold_little :
    ¬ ∀ (order : ByteOrder) (kind : ClntKind) (xid prog vers : BitVec 32) (ops : List ClntOp),
      XidsHold order (clntCreate kind xid prog vers) (ClntOp.run ops) := by
  intro h
  have hRun := h .little .dg 1 100000 2 [.control (.clsetXid 5), .call fun _ => ⟨true, false⟩]
  have hSet := @XidsHold.clsetXid _ _ _ hRun [] 5 [] (List.prefix_refl _)
    (fun _ => List.not_mem_nil) List.not_mem_nil
  revert hSet
  decide

end OncRpc
