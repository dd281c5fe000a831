import Mathlib.Data.List.Forall2
import OncRpc.Xdr.Filters
import OncRpc.Xdr.Mem

/-! What each filter puts on a stream and takes off a stream of bytes.
The two sides are stated for the same bytes, so that they compose into round
trips along the structure of a type. -/
namespace OncRpc

open XdrOps

/-- Bytes followed by as many zero bytes as make their number a multiple of four. -/
def padded (bs : List UInt8) : List UInt8 := bs ++ List.replicate ((4 - bs.length % 4) % 4) 0

@[simp] theorem padded_nil : padded [] = [] := rfl

theorem length_padded (bs : List UInt8) : (padded bs).length = rndup bs.length := by
  simp only [padded, rndup, bytesPerXdrUnit, List.length_append, List.length_replicate]
  omega

theorem length_padded_mod (bs : List UInt8) : (padded bs).length % 4 = 0 := by
  rw [length_padded]
  simp [rndup, bytesPerXdrUnit]

variable {α β : Type}

section Encode

variable {σ : Type} [XdrOps σ] [XdrWriter σ]

theorem puts_xdrInteger {w : Nat} (toLong : BitVec w → BitVec 32)
    (ofLong : BitVec 32 → BitVec w) (v : BitVec w) :
    Puts (xdrInteger toLong ofLong .encode v : Fallible σ _) v (Word.toBytes (toLong v)) :=
  (Puts.putlong _).bind_pure rfl

theorem puts_xdrUInt (v : BitVec 32) : Puts (xdrUInt .encode v : Fallible σ _) v (Word.toBytes v) :=
  puts_xdrInteger id id v

theorem puts_xdrChar (v : BitVec 8) :
    Puts (xdrChar .encode v : Fallible σ _) v (Word.toBytes (v.signExtend 32)) := by
  have hBack : (v.signExtend 32).setWidth 8 = v := Word.setWidth_signExtend (by omega) v
  refine Puts.bind_pure (puts_xdrInteger id id _) ?_
  rw [hBack]

theorem puts_xdrInteger64 (v : BitVec 64) :
    Puts (xdrInteger64 .encode v : Fallible σ _) v
      (Word.toBytes (v.extractLsb' 32 32) ++ Word.toBytes (v.extractLsb' 0 32)) := by
  rw [← Word.setWidth_ushiftRight, ← Word.setWidth_low]
  exact (Puts.putlong _).bind ((Puts.putlong _).bind_pure rfl)

theorem puts_xdrOpaque {cp : List UInt8} {cnt : Nat} (h : cnt ≤ cp.length) :
    Puts (xdrOpaque .encode cp cnt : Fallible σ _) cp (padded (cp.take cnt)) := by
  have hLen : (cp.take cnt).length = cnt := by simp [h]
  unfold xdrOpaque padded
  rw [hLen, ← padding_eq]
  by_cases hZero : cnt = 0
  · subst hZero
    simpa using Puts.pure cp
  · rw [if_neg hZero]
    refine (Puts.putbytes _).bind ?_
    by_cases hPad : padding cnt = 0
    · simpa [hPad] using Puts.pure cp
    · rw [if_neg hPad]
      exact (Puts.putbytes _).bind_pure rfl

theorem puts_xdrBytes (maxsize : Nat) (sp : Option (List UInt8)) (size : BitVec 32)
    (hMax : size.toNat ≤ maxsize) (hRoom : size.toNat ≤ (sp.getD []).length) :
    Puts (xdrBytes maxsize .encode (sp, size) : Fallible σ _) (sp, size)
      (Word.toBytes size ++ padded ((sp.getD []).take size.toNat)) := by
  refine (puts_xdrUInt size).bind (Puts.require ?_ ?_)
  · omega
  · exact (puts_xdrOpaque hRoom).bind_pure rfl

theorem puts_xdrString (maxsize : Nat) (sp : List UInt8) (hMax : strlen sp ≤ maxsize)
    (hSize : strlen sp < 2 ^ 32) :
    Puts (xdrString maxsize .encode (some sp) : Fallible σ _) (some sp)
      (Word.toBytes (BitVec.ofNat 32 (strlen sp)) ++ padded (cString sp)) := by
  have hToNat : (BitVec.ofNat 32 (strlen sp)).toNat = strlen sp := by
    simpa using Nat.mod_eq_of_lt hSize
  have hPrefix : cString sp <+: sp := List.takeWhile_prefix _
  have hTake : sp.take (strlen sp) = cString sp := (List.prefix_iff_eq_take.mp hPrefix).symm
  have hOpaque : Puts (xdrOpaque .encode sp (strlen sp) : Fallible σ _) sp
      (padded (cString sp)) := by
    rw [← hTake]
    exact puts_xdrOpaque hPrefix.length_le
  refine (puts_xdrUInt _).bind (Puts.require ?_ ?_)
  · rw [Option.getD_some, hToNat]
    omega
  · rw [Option.getD_some, hToNat]
    exact hOpaque.bind_pure rfl

/-- The induction is along the elements and their encodings side by side. -/
theorem puts_xdrElements {elproc : XdrProc σ α} {γ : Type} {enc : γ → List UInt8}
    {vs : List γ} {target : List α}
    (h : List.Forall₂ (fun v a => ∃ a', Puts (elproc .encode a) a' (enc v)) vs target) :
    ∃ target', Puts (xdrElements .encode elproc vs.length target) target' (vs.flatMap enc) := by
  induction h with
  | nil => exact ⟨[], Puts.pure _⟩
  | cons hHead _ ih =>
      obtain ⟨a', hPut⟩ := hHead
      obtain ⟨target', hRest⟩ := ih
      exact ⟨a' :: target', hPut.bind (hRest.bind_pure rfl)⟩

theorem puts_xdrArray {maxsize elsize : Nat} {zero : α} {elproc : XdrProc σ α}
    {addr : Option (List α)} {size : BitVec 32} {target' : List α} {bs : List UInt8}
    (hMax : size.toNat ≤ maxsize) (hSize : size.toNat ≤ uintMax / elsize)
    (h : Puts (xdrElements .encode elproc size.toNat (addr.getD [])) target' bs) :
    Puts (xdrArray maxsize elsize zero elproc .encode (addr, size)) (addr, size)
      (Word.toBytes size ++ bs) := by
  refine (puts_xdrUInt size).bind (Puts.require ?_ ?_)
  · omega
  · exact h.bind_pure rfl

theorem puts_xdrUnion {choices : List (BitVec 32 × XdrProc σ β)}
    {dfault : Option (XdrProc σ β)} {dscm : BitVec 32} {proc : XdrProc σ β}
    {unp unp' : β} {bs : List UInt8} (hArm : unionArm choices dfault dscm = some proc)
    (h : Puts (proc .encode unp) unp' bs) :
    Puts (xdrUnion choices dfault .encode (dscm, unp)) (dscm, unp')
      (Word.toBytes dscm ++ bs) := by
  refine (puts_xdrInteger id id dscm).bind ?_
  simp only [hArm]
  exact h.bind_pure rfl

theorem puts_xdrReference (zero : α) {loc loc' : α} {proc : XdrProc σ α} {bs : List UInt8}
    (h : Puts (proc .encode loc) loc' bs) :
    Puts (xdrReference zero proc .encode (some loc)) (some loc') bs :=
  h.bind_pure rfl

theorem puts_xdrPointer_null {zero : α} {proc : XdrProc σ α} :
    Puts (xdrPointer zero proc .encode none) none (Word.toBytes 0) :=
  (puts_xdrInteger _ _ _).bind_pure rfl

theorem puts_xdrPointer {zero loc loc' : α} {proc : XdrProc σ α} {bs : List UInt8}
    (h : Puts (proc .encode loc) loc' bs) :
    Puts (xdrPointer zero proc .encode (some loc)) (some loc') (Word.toBytes 1 ++ bs) :=
  (puts_xdrInteger _ _ _).bind (puts_xdrReference zero h)

end Encode

section Decode

open ByteStream

theorem takes_xdrInteger {w : Nat} (toLong : BitVec w → BitVec 32)
    (ofLong : BitVec 32 → BitVec w) (a : BitVec w) (l : BitVec 32) :
    Takes (xdrInteger toLong ofLong .decode a) (ofLong l) (Word.toBytes l) :=
  (Takes.getlong l).bind_pure rfl

theorem takes_xdrUInt (a l : BitVec 32) : Takes (xdrUInt .decode a) l (Word.toBytes l) :=
  takes_xdrInteger id id a l

theorem takes_xdrShort (a v : BitVec 16) :
    Takes (xdrShort .decode a) v (Word.toBytes (v.signExtend 32)) := by
  have h := takes_xdrInteger (BitVec.signExtend 32) (BitVec.setWidth 16) a (v.signExtend 32)
  rwa [Word.setWidth_signExtend (by omega)] at h

theorem takes_xdrUShort (a v : BitVec 16) :
    Takes (xdrUShort .decode a) v (Word.toBytes (v.setWidth 32)) := by
  have hBack : (v.setWidth 32).setWidth 16 = v := by simp
  have h := takes_xdrInteger (BitVec.setWidth 32) (BitVec.setWidth 16) a (v.setWidth 32)
  rwa [hBack] at h

theorem takes_xdrChar (a v : BitVec 8) :
    Takes (xdrChar .decode a) v (Word.toBytes (v.signExtend 32)) := by
  have hBack : (v.signExtend 32).setWidth 8 = v := Word.setWidth_signExtend (by omega) v
  refine (takes_xdrInteger id id _ (v.signExtend 32)).bind_pure ?_
  rw [id, hBack]

theorem takes_xdrInteger64 (a v : BitVec 64) :
    Takes (xdrInteger64 .decode a) v
      (Word.toBytes (v.extractLsb' 32 32) ++ Word.toBytes (v.extractLsb' 0 32)) := by
  refine (Takes.getlong _).bind ((Takes.getlong _).bind_pure ?_)
  rw [Word.shiftLeft_or_halves]

theorem takes_xdrOpaque (cp bs : List UInt8) :
    Takes (xdrOpaque .decode cp bs.length) (Buffer.writeAt cp 0 bs) (padded bs) := by
  unfold xdrOpaque padded
  rw [← padding_eq]
  by_cases hZero : bs.length = 0
  · obtain rfl := List.length_eq_zero_iff.mp hZero
    simpa [padding] using Takes.pure cp
  · rw [if_neg hZero]
    refine (Takes.getbytes bs).bind ?_
    by_cases hPad : padding bs.length = 0
    · rw [if_pos hPad, hPad]
      exact Takes.pure _
    · rw [if_neg hPad]
      have hCrud := Takes.getbytes (List.replicate (padding bs.length) (0 : UInt8))
      rw [List.length_replicate] at hCrud
      exact hCrud.bind_pure rfl

/-- A freshly allocated area of the right size is overwritten as a whole. -/
theorem writeAt_memAlloc (bs : List UInt8) :
    Buffer.writeAt (memAlloc bs.length) 0 bs = bs := by
  simp [Buffer.writeAt, memAlloc]

theorem takes_xdrBytes (maxsize : Nat) (a : BitVec 32) {bs : List UInt8}
    (hMax : bs.length ≤ maxsize) (hSize : bs.length < 2 ^ 32) :
    Takes (xdrBytes maxsize .decode (none, a))
      (if bs = [] then none else some bs, BitVec.ofNat 32 bs.length)
      (Word.toBytes (BitVec.ofNat 32 bs.length) ++ padded bs) := by
  have hToNat : (BitVec.ofNat 32 bs.length).toNat = bs.length := by
    simpa using Nat.mod_eq_of_lt hSize
  refine (takes_xdrUInt a _).bind (Takes.require ?_ ?_)
  · omega
  · rw [hToNat]
    by_cases hNil : bs = []
    · subst hNil
      exact Takes.pure _
    · have hLen : bs.length ≠ 0 := by simpa using hNil
      rw [if_neg hLen, if_neg hNil]
      refine (takes_xdrOpaque _ bs).bind_pure ?_
      rw [Option.getD_none, writeAt_memAlloc]

theorem takes_xdrString {maxsize : Nat} {bs : List UInt8} (hMax : bs.length ≤ maxsize)
    (hSize : bs.length < uintMax) :
    Takes (xdrString maxsize .decode none) (some (bs ++ [0]))
      (Word.toBytes (BitVec.ofNat 32 bs.length) ++ padded bs) := by
  have hBound : bs.length + 1 < 2 ^ 32 := by
    have hMaxVal : uintMax = 2 ^ 32 - 1 := rfl
    omega
  have hToNat : (BitVec.ofNat 32 bs.length).toNat = bs.length := by
    rw [BitVec.toNat_ofNat]
    exact Nat.mod_eq_of_lt (by omega)
  have hNode : (BitVec.ofNat 32 bs.length + 1).toNat = bs.length + 1 := by
    rw [BitVec.toNat_add, hToNat]
    exact Nat.mod_eq_of_lt hBound
  have hArea : Buffer.writeAt (Buffer.writeAt (memAlloc (bs.length + 1)) bs.length [0]) 0 bs =
      bs ++ [0] := by
    simp [Buffer.writeAt, memAlloc]
  refine (takes_xdrUInt 0 _).bind (Takes.require ?_ ?_)
  · omega
  · simp only [hNode, hToNat, Option.getD_none, Nat.add_one_ne_zero, if_false]
    refine (takes_xdrOpaque _ bs).bind_pure ?_
    rw [hArea]

/-- Elements that each decode from fresh memory decode as a list. -/
theorem takes_xdrElements (elproc : XdrProc ByteStream α) (zero : α) {γ : Type}
    {enc : γ → List UInt8} (P : γ → α → Prop) {vs : List γ}
    (h : ∀ v ∈ vs, ∃ a, Takes (elproc .decode zero) a (enc v) ∧ P v a) :
    ∃ target, Takes (xdrElements .decode elproc vs.length (List.replicate vs.length zero))
      target (vs.flatMap enc) ∧ List.Forall₂ P vs target := by
  induction vs with
  | nil => exact ⟨[], Takes.pure _, .nil⟩
  | cons v vs ih =>
      obtain ⟨a, hTake, hP⟩ := h v List.mem_cons_self
      obtain ⟨target, hRest, hAll⟩ := ih fun w hw => h w (List.mem_cons_of_mem v hw)
      exact ⟨a :: target, hTake.bind (hRest.bind_pure rfl), .cons hP hAll⟩

theorem takes_xdrArray (maxsize elsize : Nat) {zero : α} {elproc : XdrProc ByteStream α}
    (a : BitVec 32) {n : Nat} {target : List α} {bs : List UInt8} (hMax : n ≤ maxsize)
    (hSize : n ≤ uintMax / elsize) (hWord : n < 2 ^ 32)
    (h : Takes (xdrElements .decode elproc n (List.replicate n zero)) target bs) :
    Takes (xdrArray maxsize elsize zero elproc .decode (none, a))
      (if n = 0 then none else some target, BitVec.ofNat 32 n)
      (Word.toBytes (BitVec.ofNat 32 n) ++ bs) := by
  have hToNat : (BitVec.ofNat 32 n).toNat = n := by simpa using Nat.mod_eq_of_lt hWord
  refine (takes_xdrUInt a _).bind (Takes.require ?_ ?_)
  · omega
  · rw [hToNat]
    by_cases hZero : n = 0
    · subst hZero
      have hRun := h []
      simp only [xdrElements, Fallible.run_pure, Prod.mk.injEq, List.append_nil] at hRun
      rw [hRun.2]
      exact Takes.pure _
    · rw [if_neg hZero, if_neg hZero]
      exact h.bind_pure rfl

theorem takes_xdrUnion {choices : List (BitVec 32 × XdrProc ByteStream β)}
    {dfault : Option (XdrProc ByteStream β)} (a : BitVec 32) {dscm : BitVec 32}
    {proc : XdrProc ByteStream β} {unp unp' : β} {bs : List UInt8}
    (hArm : unionArm choices dfault dscm = some proc) (h : Takes (proc .decode unp) unp' bs) :
    Takes (xdrUnion choices dfault .decode (a, unp)) (dscm, unp')
      (Word.toBytes dscm ++ bs) := by
  refine (takes_xdrInteger id id a dscm).bind ?_
  simp only [id, hArm]
  exact h.bind_pure rfl

theorem takes_xdrReference {zero loc : α} {proc : XdrProc ByteStream α} {bs : List UInt8}
    (h : Takes (proc .decode zero) loc bs) :
    Takes (xdrReference zero proc .decode none) (some loc) bs :=
  h.bind_pure rfl

theorem takes_xdrPointer_null {zero : α} {proc : XdrProc ByteStream α} :
    Takes (xdrPointer zero proc .decode none) none (Word.toBytes 0) :=
  (takes_xdrInteger _ _ _ 0).bind_pure rfl

theorem takes_xdrPointer {zero loc : α} {proc : XdrProc ByteStream α} {bs : List UInt8}
    (h : Takes (proc .decode zero) loc bs) :
    Takes (xdrPointer zero proc .decode none) (some loc) (Word.toBytes 1 ++ bs) :=
  (takes_xdrInteger _ _ _ 1).bind (takes_xdrReference h)

end Decode
end OncRpc
