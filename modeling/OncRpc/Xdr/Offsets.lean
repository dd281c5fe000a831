import OncRpc.Xdr.Filters

/-! Reading at an offset: what a computation takes from some bytes, and what it makes of them. -/
namespace OncRpc

open XdrOps Fallible

/-- The word at an offset. -/
def wordAt (t : List UInt8) (k : Nat) : BitVec 32 := Word.ofBytes (Buffer.readAt t k 4)

namespace ByteStream

variable {α β : Type} {t : List UInt8} {k n : Nat} {m : Fallible ByteStream α} {a : α}

/-- From the offset `k` on, the computation reads the next `n` bytes and yields `a`, or fails
when there are not so many. -/
structure Reads (t : List UInt8) (k n : Nat) (m : Fallible ByteStream α) (a : α) : Prop where
  yields : k + n ≤ t.length → m.run (t.drop k) = (some a, t.drop (k + n))
  short : k ≤ t.length → t.length < k + n → (m.run (t.drop k)).1 = none

/-- From the offset `k` on, the computation fails. -/
def Fails (t : List UInt8) (k : Nat) (m : Fallible ByteStream α) : Prop :=
  k ≤ t.length → (m.run (t.drop k)).1 = none

theorem Reads.pure (t : List UInt8) (k : Nat) (a : α) : Reads t k 0 (Pure.pure a) a where
  yields := fun _ => rfl
  short := fun hLe hLt => absurd hLt (Nat.not_lt.mpr hLe)

theorem Reads.bind {f : α → Fallible ByteStream β} {b : β} {n' : Nat} (hm : Reads t k n m a)
    (hf : Reads t (k + n) n' (f a) b) : Reads t k (n + n') (m >>= f) b where
  yields := fun hLe => by
    rw [run_bind_some (hm.yields (by omega)), hf.yields (by omega), Nat.add_assoc]
  short := fun hLe hLt => by
    by_cases hFirst : k + n ≤ t.length
    · rw [run_bind_some (hm.yields hFirst)]
      exact hf.short hFirst (by omega)
    · exact fst_run_bind (hm.short hLe (Nat.not_le.mp hFirst))

theorem Reads.bind_pure {f : α → Fallible ByteStream β} {b : β} (hm : Reads t k n m a)
    (hf : f a = Pure.pure b) : Reads t k n (m >>= f) b := by
  have hLast : Reads t (k + n) 0 (f a) b := by
    rw [hf]
    exact Reads.pure t (k + n) b
  exact hm.bind hLast

theorem Reads.fails {f : α → Fallible ByteStream β} (hm : Reads t k n m a)
    (hf : Fails t (k + n) (f a)) : Fails t k (m >>= f) := by
  intro hLe
  by_cases hFirst : k + n ≤ t.length
  · rw [run_bind_some (hm.yields hFirst)]
    exact hf hFirst
  · exact fst_run_bind (hm.short hLe (Nat.not_le.mp hFirst))

theorem Reads.require {c : Prop} [Decidable c] {f : Unit → Fallible ByteStream β} {b : β} (hc : c)
    (hf : Reads t k n (f ()) b) : Reads t k n (Fallible.require c >>= f) b where
  yields := fun hLe => by
    rw [run_bind_require, if_pos hc, hf.yields hLe]
  short := fun hLe hLt => by
    rw [run_bind_require, if_pos hc, hf.short hLe hLt]

theorem Fails.require {c : Prop} [Decidable c] {f : Unit → Fallible ByteStream β} (hc : ¬ c) :
    Fails t k (Fallible.require c >>= f) := by
  intro _
  rw [run_bind_require, if_neg hc]

theorem reads_getbytes (t : List UInt8) (k n : Nat) :
    Reads t k n (ByteStream.getbytes n) (Buffer.readAt t k n) where
  yields := fun hLe => by
    have hRoom : n ≤ (t.drop k).length := by
      rw [List.length_drop]
      omega
    simp only [run, ByteStream.getbytes, if_pos hRoom, List.drop_drop, Buffer.readAt]
  short := fun hLe hLt => by
    rw [run_getbytes_short]
    rw [List.length_drop]
    omega

theorem reads_getlong (t : List UInt8) (k : Nat) :
    Reads t k 4 ByteStream.getlong (wordAt t k) where
  yields := fun hLe => by
    have hRoom : 4 ≤ (t.drop k).length := by
      rw [List.length_drop]
      omega
    simp only [run, ByteStream.getlong, if_pos hRoom, List.drop_drop, wordAt, Buffer.readAt]
  short := fun hLe hLt => by
    rw [run_getlong_short]
    rw [List.length_drop]
    omega

theorem reads_xdrInteger (t : List UInt8) (k : Nat) (v : BitVec 32) :
    Reads t k 4 (xdrInteger id id .decode v) (wordAt t k) := by
  rw [xdrInteger_id_decode]
  exact reads_getlong t k

/-- Whatever the padding is, it is read. -/
theorem reads_xdrOpaque (t : List UInt8) (k : Nat) (cp : List UInt8) (cnt : Nat) :
    Reads t k (rndup cnt) (xdrOpaque .decode cp cnt)
      (Buffer.writeAt cp 0 (Buffer.readAt t k cnt)) := by
  rw [rndup_eq]
  unfold xdrOpaque
  by_cases hZero : cnt = 0
  · subst hZero
    rw [if_pos rfl, Buffer.readAt_zero, Buffer.writeAt_nil]
    exact Reads.pure t k cp
  · rw [if_neg hZero]
    apply (reads_getbytes t k cnt).bind
    by_cases hPad : padding cnt = 0
    · rw [if_pos hPad, hPad]
      exact Reads.pure t _ _
    · rw [if_neg hPad]
      exact (reads_getbytes t _ _).bind_pure rfl

/-- The name is ended in its area and then moved there. -/
theorem reads_xdrString {maxsize : Nat} (hMax : maxsize < uintMax) (t : List UInt8) (k : Nat)
    (cpp : Option (List UInt8)) (hSize : (wordAt t k).toNat ≤ maxsize) :
    Reads t k (4 + rndup (wordAt t k).toNat) (xdrString maxsize .decode cpp)
      (some (Buffer.writeAt (Buffer.writeAt
        (cpp.getD (memAlloc ((wordAt t k).toNat + 1))) (wordAt t k).toNat [0]) 0
          (Buffer.readAt t (k + 4) (wordAt t k).toNat))) := by
  have hNode : (wordAt t k + 1).toNat = (wordAt t k).toNat + 1 := by
    have hOne : (1 : BitVec 32).toNat = 1 := rfl
    rw [BitVec.toNat_add, hOne]
    exact Nat.mod_eq_of_lt (by unfold uintMax at hMax; omega)
  apply (reads_xdrInteger t k 0).bind
  apply Reads.require (Nat.not_lt.mpr hSize)
  dsimp only
  rw [hNode, if_neg (Nat.succ_ne_zero _)]
  exact (reads_xdrOpaque t (k + 4) _ _).bind_pure rfl

theorem fails_xdrString {maxsize : Nat} {t : List UInt8} {k : Nat} (cpp : Option (List UInt8))
    (hSize : maxsize < (wordAt t k).toNat) : Fails t k (xdrString maxsize .decode cpp) :=
  (reads_xdrInteger t k 0).fails (Fails.require (not_not.mpr hSize))

end ByteStream
end OncRpc
