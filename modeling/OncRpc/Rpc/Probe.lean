import OncRpc.Xdr.FilterCodec
import OncRpc.Rpc.CallMsg

/-! Decoding that stays inside the bytes of one message. A probe is a stream over these
bytes alone that notes when more are asked for. As long as that does not happen the
answers are the same whatever stands behind the message. -/
namespace OncRpc

open Fallible

/-- The bytes of a message, and whether more than these have been asked for. -/
structure Probe where
  left : List UInt8
  short : Bool
  deriving DecidableEq, Repr

namespace Probe

def getlong : Fallible Probe (BitVec 32) := fun p =>
  if 4 ≤ p.left.length then
    (some (Word.ofBytes (p.left.take 4)), { p with left := p.left.drop 4 })
  else (none, { p with short := true })

def getbytes (n : Nat) : Fallible Probe (List UInt8) := fun p =>
  if n ≤ p.left.length then (some (p.left.take n), { p with left := p.left.drop n })
  else (none, { p with short := true })

/-- Nothing is written to a probe, and it never inlines. -/
instance : XdrOps Probe where
  getlong := getlong
  putlong _ := fail
  getbytes := getbytes
  putbytes _ := fail
  inline _ _ := pure none
  load _ _ _ _ := []
  store _ _ p := p

/-- Unless the probe has come up short, the bytes with `tail` behind them answer as it does. -/
def Follows {α : Type} (tail : List UInt8) (m : Fallible ByteStream α) (p : Fallible Probe α) :
    Prop :=
  ∀ t, ((p.run ⟨t, false⟩).1.isSome → (p.run ⟨t, false⟩).2.short = false) ∧
    ((p.run ⟨t, false⟩).2.short = false → (m.run (t ++ tail)).1 = (p.run ⟨t, false⟩).1 ∧
      ((p.run ⟨t, false⟩).1.isSome → (m.run (t ++ tail)).2 = (p.run ⟨t, false⟩).2.left ++ tail))

namespace Follows

variable {α β : Type} {tail : List UInt8} {m : Fallible ByteStream α} {p : Fallible Probe α}

theorem pure (a : α) : Follows tail (Pure.pure a) (Pure.pure a) :=
  fun _ => ⟨fun _ => rfl, fun _ => ⟨rfl, fun _ => rfl⟩⟩

theorem require (c : Prop) [Decidable c] :
    Follows tail (Fallible.require c) (Fallible.require c) :=
  fun _ => ⟨fun _ => rfl, fun _ => ⟨rfl, fun _ => rfl⟩⟩

theorem bind {f : α → Fallible ByteStream β} {g : α → Fallible Probe β} (hm : Follows tail m p)
    (hf : ∀ a, Follows tail (f a) (g a)) : Follows tail (m >>= f) (p >>= g) := by
  intro t
  obtain ⟨hLong, hSame⟩ := hm t
  rw [run_bind p, run_bind m]
  rcases hp : p.run ⟨t, false⟩ with ⟨_ | a, t', sh⟩
  · rw [hp] at hSame
    refine ⟨fun hSome => absurd hSome Bool.false_ne_true, fun hShort => ?_⟩
    have hNone := (hSame hShort).1
    rcases hRun : m.run (t ++ tail) with ⟨_ | b, s'⟩
    · exact ⟨rfl, fun hSome => absurd hSome Bool.false_ne_true⟩
    · rw [hRun] at hNone
      cases hNone
  · rw [hp] at hLong hSame
    obtain rfl : sh = false := hLong rfl
    obtain ⟨hAns, hRest⟩ := hSame rfl
    rcases hRun : m.run (t ++ tail) with ⟨_ | b, s'⟩
    · rw [hRun] at hAns
      cases hAns
    · rw [hRun] at hAns hRest
      obtain rfl : b = a := Option.some.inj hAns
      obtain rfl : s' = t' ++ tail := hRest rfl
      exact hf b t'

theorem getlong : Follows tail ByteStream.getlong Probe.getlong := by
  intro t
  by_cases hLen : 4 ≤ t.length
  · have hMore : 4 ≤ (t ++ tail).length := by
      rw [List.length_append]
      omega
    simp only [Fallible.run, ByteStream.getlong, Probe.getlong, if_pos hLen, if_pos hMore,
      List.take_append_of_le_length hLen, List.drop_append_of_le_length hLen]
    exact ⟨fun _ => trivial, fun _ => ⟨trivial, fun _ => trivial⟩⟩
  · simp only [Fallible.run, Probe.getlong, if_neg hLen]
    exact ⟨fun hSome => absurd hSome Bool.false_ne_true, fun hShort => by cases hShort⟩

theorem getbytes (n : Nat) : Follows tail (ByteStream.getbytes n) (Probe.getbytes n) := by
  intro t
  by_cases hLen : n ≤ t.length
  · have hMore : n ≤ (t ++ tail).length := by
      rw [List.length_append]
      omega
    simp only [Fallible.run, ByteStream.getbytes, Probe.getbytes, if_pos hLen, if_pos hMore,
      List.take_append_of_le_length hLen, List.drop_append_of_le_length hLen]
    exact ⟨fun _ => trivial, fun _ => ⟨trivial, fun _ => trivial⟩⟩
  · simp only [Fallible.run, Probe.getbytes, if_neg hLen]
    exact ⟨fun hSome => absurd hSome Bool.false_ne_true, fun hShort => by cases hShort⟩

end Follows

/-- The filter decodes bytes as it decodes a probe of them. -/
def FollowsProc {α : Type} (tail : List UInt8) (m : XdrProc ByteStream α) (p : XdrProc Probe α) :
    Prop :=
  ∀ a, Follows tail (m .decode a) (p .decode a)

variable {tail : List UInt8}

theorem follows_xdrInteger : FollowsProc tail (xdrInteger (w := 32) id id) (xdrInteger id id) :=
  fun _ => Follows.bind Follows.getlong fun _ => Follows.pure _

theorem follows_xdrOpaque (cp : List UInt8) (cnt : Nat) :
    Follows tail (xdrOpaque .decode cp cnt) (xdrOpaque .decode cp cnt) := by
  unfold xdrOpaque
  by_cases hZero : cnt = 0
  · rw [if_pos hZero, if_pos hZero]
    exact Follows.pure _
  · rw [if_neg hZero, if_neg hZero]
    apply Follows.bind (Follows.getbytes cnt)
    intro bs
    by_cases hPad : padding cnt = 0
    · rw [if_pos hPad, if_pos hPad]
      exact Follows.pure _
    · rw [if_neg hPad, if_neg hPad]
      exact Follows.bind (Follows.getbytes _) fun _ => Follows.pure _

theorem follows_xdrBytes (maxsize : Nat) :
    FollowsProc tail (xdrBytes maxsize) (xdrBytes maxsize) := by
  intro obj
  apply Follows.bind (follows_xdrInteger obj.2)
  intro size
  apply Follows.bind (Follows.require _)
  intro _
  by_cases hZero : size.toNat = 0
  · simp only [if_pos hZero]
    exact Follows.pure _
  · simp only [if_neg hZero]
    exact Follows.bind (follows_xdrOpaque _ _) fun _ => Follows.pure _

theorem follows_xdrOpaqueAuth : FollowsProc tail xdrOpaqueAuth xdrOpaqueAuth := by
  intro ap
  apply Follows.bind (follows_xdrInteger _)
  intro flavor
  apply Follows.bind (follows_xdrBytes _ _)
  intro body
  exact Follows.pure _

/-- A call header decodes from its bytes whatever stands behind them. -/
theorem follows_xdrCallmsg : FollowsProc tail xdrCallmsg xdrCallmsg := by
  intro cmsg
  show Follows tail (callmsgPlain .decode cmsg) (callmsgPlain .decode cmsg)
  apply Follows.bind (follows_xdrInteger _); intro xid
  apply Follows.bind (follows_xdrInteger _); intro direction
  apply Follows.bind (Follows.require _); intro _
  apply Follows.bind (follows_xdrInteger _); intro rpcvers
  apply Follows.bind (Follows.require _); intro _
  apply Follows.bind (follows_xdrInteger _); intro prog
  apply Follows.bind (follows_xdrInteger _); intro vers
  apply Follows.bind (follows_xdrInteger _); intro proc
  apply Follows.bind (follows_xdrOpaqueAuth _); intro cred
  apply Follows.bind (follows_xdrOpaqueAuth _); intro verf
  exact Follows.pure _

end Probe

/-! What was in a message before it is decoded does not matter to the words of its header. -/
section Alike

variable {σ : Type} [XdrOps σ]

theorem alike_xdrOpaque (cp cp' : List UInt8) (cnt : Nat) :
    Alike (fun _ => ()) (xdrOpaque .decode cp cnt : Fallible σ (List UInt8))
      (xdrOpaque .decode cp' cnt) := by
  unfold xdrOpaque
  by_cases hZero : cnt = 0
  · rw [if_pos hZero, if_pos hZero]
    exact Alike.pure rfl
  · rw [if_neg hZero, if_neg hZero]
    apply Alike.bind_same
    intro bs
    by_cases hPad : padding cnt = 0
    · rw [if_pos hPad, if_pos hPad]
      exact Alike.pure rfl
    · rw [if_neg hPad, if_neg hPad]
      exact Alike.bind_same _ fun _ => Alike.pure rfl

theorem alike_xdrOpaqueAuth (ap ap' : OpaqueAuth) :
    Alike (fun _ => ()) (xdrOpaqueAuth .decode ap : Fallible σ OpaqueAuth)
      (xdrOpaqueAuth .decode ap') := by
  unfold xdrOpaqueAuth xdrBytes
  simp only [xdrEnum_decode, xdrUInt_decode, bind_assoc]
  apply Alike.bind_same
  intro flavor
  apply Alike.bind_same
  intro size
  apply Alike.bind_same
  intro _
  by_cases hZero : size.toNat = 0
  · simp only [if_pos hZero, pure_bind]
    exact Alike.pure rfl
  · simp only [if_neg hZero, bind_assoc, pure_bind]
    exact (alike_xdrOpaque _ _ _).bind fun _ _ _ => Alike.pure rfl

/-- The words of a header that name the request. -/
def RpcMsg.words (msg : RpcMsg) : BitVec 32 × BitVec 32 × BitVec 32 × BitVec 32 :=
  (msg.rmXid, msg.rmCall.cbProc, msg.rmCall.cbVers, msg.rmCall.cbProg)

theorem alike_callmsgPlain (cmsg cmsg' : RpcMsg) :
    Alike RpcMsg.words (callmsgPlain .decode cmsg : Fallible σ RpcMsg)
      (callmsgPlain .decode cmsg') := by
  unfold callmsgPlain
  simp only [xdrUInt32T_decode, xdrEnum_decode]
  apply Alike.bind_same; intro xid
  apply Alike.bind_same; intro direction
  apply Alike.bind_same; intro _
  apply Alike.bind_same; intro rpcvers
  apply Alike.bind_same; intro _
  apply Alike.bind_same; intro prog
  apply Alike.bind_same; intro vers
  apply Alike.bind_same; intro proc
  apply (alike_xdrOpaqueAuth _ _).bind; intro cred cred' _
  apply (alike_xdrOpaqueAuth _ _).bind; intro verf verf' _
  exact Alike.pure rfl

end Alike
end OncRpc
