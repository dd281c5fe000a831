import OncRpc.Xdr.Filters
import OncRpc.Xdr.MemAddress

/-! The operations of a stream that tell and set its position, and the memory stream over
addresses with all of its operations. -/
namespace Fallible

/-- A call of which the outcome is not looked at. -/
def ignore {σ α : Type} (m : Fallible σ α) : Fallible σ Unit := fun s => (some (), (m s).2)

theorem run_ignore {σ α : Type} {m : Fallible σ α} {s s' : σ} {r : Option α}
    (h : m.run s = (r, s')) : (ignore m).run s = (some (), s') := by
  show (some (), (m.run s).2) = _
  rw [h]

end Fallible

namespace OncRpc

open XdrOps

/-- `XDR_GETPOS` and `XDR_SETPOS`. -/
class XdrPos (σ : Type) where
  getpos : σ → BitVec 32
  setpos : BitVec 32 → Fallible σ Unit

instance : XdrPos XdrMem where
  getpos s := BitVec.ofNat 32 s.xdrmemGetpos
  setpos pos := XdrMem.xdrmemSetpos pos.toNat

namespace XdrMemPtr

/-- `xdrmem_inline_aligned`. -/
def xdrmemInlineAligned (len : BitVec 32) : Fallible XdrMemPtr (Option Nat) := fun s =>
  if s.xHandy ≥ len then (some (some s.xPrivate.toNat), s.advance len) else (some none, s)

/-- The operations are chosen by the address in `xdrmem_create`, and `x_base` stays. -/
instance : XdrOps XdrMemPtr where
  getlong := xdrmemGetlong
  putlong := xdrmemPutlong
  getbytes n := xdrmemGetbytes (BitVec.ofNat 32 n)
  putbytes bs := xdrmemPutbytes bs (BitVec.ofNat 32 bs.length)
  inline _ len := fun s =>
    if s.xBase.toNat % 4 = 0 then xdrmemInlineAligned (BitVec.ofNat 32 len) s else (some none, s)
  load _ buf n s := bytesAt s.mem (BitVec.ofNat 64 buf) n
  store buf bs s := { s with mem := moveTo (BitVec.ofNat 64 buf) bs s.mem }

instance : XdrPos XdrMemPtr where
  getpos := xdrmemGetpos
  setpos := xdrmemSetpos

/-- The stream after `bs` has been put. -/
def put (s : XdrMemPtr) (bs : List UInt8) : XdrMemPtr :=
  { s.advance (BitVec.ofNat 32 bs.length) with mem := moveTo s.xPrivate bs s.mem }

section Put

variable {addr : BitVec 64} {size : BitVec 32} {s : XdrMemPtr} {x : XdrMem}

theorem toNat_length {bs : List UInt8} (h : bs.length ≤ s.xHandy.toNat) :
    (BitVec.ofNat 32 bs.length).toNat = bs.length := by
  rw [BitVec.toNat_ofNat]
  exact Nat.mod_eq_of_lt (Nat.lt_of_le_of_lt h s.xHandy.isLt)

theorem run_putlong {l : BitVec 32} (h : 4 ≤ s.xHandy.toNat) :
    (putlong l : Fallible XdrMemPtr Unit).run s = (some (), s.put (Word.toBytes l)) := by
  have hRoom : ¬ s.xHandy < 4 := Nat.not_lt.mpr h
  show xdrmemPutlong l s = _
  rw [xdrmemPutlong, if_neg hRoom, put, Word.length_toBytes]
  rfl

theorem run_putbytes {bs : List UInt8} (h : bs.length ≤ s.xHandy.toNat) :
    (putbytes bs : Fallible XdrMemPtr Unit).run s = (some (), s.put bs) := by
  have hLen := toNat_length h
  have hRoom : ¬ s.xHandy < BitVec.ofNat 32 bs.length := by
    show ¬ s.xHandy.toNat < (BitVec.ofNat 32 bs.length).toNat
    omega
  show xdrmemPutbytes bs (BitVec.ofNat 32 bs.length) s = _
  rw [xdrmemPutbytes, if_neg hRoom, put, hLen, List.take_length]

/-- Two stores side by side are one store. -/
theorem moveTo_moveTo (a : BitVec 64) {bs cs : List UInt8} (mem : BitVec 64 → UInt8)
    (h : bs.length + cs.length < 2 ^ 64) :
    moveTo (a + BitVec.ofNat 64 bs.length) cs (moveTo a bs mem) = moveTo a (bs ++ cs) mem := by
  funext p
  have hFar : (p - (a + BitVec.ofNat 64 bs.length)).toNat =
      ((p - a).toNat + (2 ^ 64 - bs.length)) % 2 ^ 64 := by
    have hLen : (BitVec.ofNat 64 bs.length).toNat = bs.length := by
      rw [BitVec.toNat_ofNat]
      exact Nat.mod_eq_of_lt (by omega)
    rw [← BitVec.sub_sub, BitVec.toNat_sub, hLen]
    omega
  have hLt := (p - a).isLt
  unfold moveTo
  rw [hFar]
  by_cases hIn : (p - a).toNat < bs.length
  · have hOut : cs.length ≤ ((p - a).toNat + (2 ^ 64 - bs.length)) % 2 ^ 64 := by omega
    rw [List.getElem?_eq_none hOut, List.getElem?_append_left hIn]
    rfl
  · have hBehind : ((p - a).toNat + (2 ^ 64 - bs.length)) % 2 ^ 64 = (p - a).toNat - bs.length := by
      omega
    have hNone : bs[(p - a).toNat]? = none := List.getElem?_eq_none (Nat.not_lt.mp hIn)
    rw [hBehind, List.getElem?_append_right (Nat.not_lt.mp hIn), hNone]
    rfl

/-- Putting twice is putting the concatenation. -/
theorem put_put {as bs : List UInt8} (h : as.length + bs.length ≤ s.xHandy.toNat) :
    (s.put as).put bs = s.put (as ++ bs) := by
  have hLt := s.xHandy.isLt
  have hWide : (BitVec.ofNat 32 as.length).setWidth 64 = BitVec.ofNat 64 as.length := by
    apply BitVec.eq_of_toNat_eq
    rw [BitVec.toNat_setWidth, BitVec.toNat_ofNat, BitVec.toNat_ofNat]
    omega
  have hSum : (BitVec.ofNat 32 (as ++ bs).length).setWidth 64 =
      (BitVec.ofNat 32 as.length).setWidth 64 + (BitVec.ofNat 32 bs.length).setWidth 64 := by
    apply BitVec.eq_of_toNat_eq
    rw [BitVec.toNat_add, BitVec.toNat_setWidth, BitVec.toNat_setWidth, BitVec.toNat_setWidth,
      BitVec.toNat_ofNat, BitVec.toNat_ofNat, BitVec.toNat_ofNat, List.length_append]
    omega
  have hMem : moveTo (s.xPrivate + (BitVec.ofNat 32 as.length).setWidth 64) bs
      (moveTo s.xPrivate as s.mem) = moveTo s.xPrivate (as ++ bs) s.mem := by
    rw [hWide, moveTo_moveTo _ _ (by omega)]
  have hHandy : s.xHandy - BitVec.ofNat 32 as.length - BitVec.ofNat 32 bs.length =
      s.xHandy - BitVec.ofNat 32 (as ++ bs).length := by
    rw [List.length_append, BitVec.ofNat_add, BitVec.sub_sub]
  simp only [put, advance, hMem, hSum, hHandy, BitVec.add_assoc]

theorem Placed.put (h : s.Placed addr size) (hWrap : addr.toNat + size.toNat < 2 ^ 64)
    {bs : List UInt8} (hRoom : bs.length ≤ s.xHandy.toNat) : (s.put bs).Placed addr size := by
  refine h.moved hWrap ?_
  show ¬ s.xHandy.toNat < (BitVec.ofNat 32 bs.length).toNat
  rw [toNat_length hRoom]
  exact Nat.not_lt.mpr hRoom

/-- The position behind what has been put. -/
theorem getpos_put (bs : List UInt8) :
    (s.put bs).xdrmemGetpos = s.xdrmemGetpos + BitVec.ofNat 32 bs.length := by
  have hLong : long (s.xPrivate + (BitVec.ofNat 32 bs.length).setWidth 64) =
      long s.xPrivate + BitVec.ofNat 32 bs.length := by
    apply BitVec.eq_of_toNat_eq
    rw [BitVec.toNat_add, toNat_long, toNat_long, BitVec.toNat_add, BitVec.toNat_setWidth]
    omega
  show long (s.xPrivate + _) - long s.xBase = long s.xPrivate - long s.xBase + _
  rw [hLong, BitVec.sub_eq_add_neg, BitVec.sub_eq_add_neg, BitVec.add_assoc, BitVec.add_assoc,
    BitVec.add_comm (BitVec.ofNat 32 bs.length)]

/-- A handle is its memory and its position. -/
theorem Placed.ext {s' : XdrMemPtr} (h : s.Placed addr size) (h' : s'.Placed addr size)
    (hMem : s.mem = s'.mem) (hPos : s.xdrmemGetpos = s'.xdrmemGetpos) : s = s' := by
  have hPrivate : s.xPrivate = s'.xPrivate := by
    apply BitVec.eq_of_toNat_eq
    rw [h.getpos, h'.getpos, hPos]
  have hHandy : s.xHandy = s'.xHandy := by
    obtain ⟨off, hOff, hEnd⟩ := h.offset
    obtain ⟨off', hOff', hEnd'⟩ := h'.offset
    rw [hPrivate] at hOff
    apply BitVec.eq_of_toNat_eq
    omega
  have hBase : s.xBase = s'.xBase := h.base_eq.trans h'.base_eq.symm
  cases s
  cases s'
  simp only at hMem hPrivate hHandy hBase
  rw [hMem, hPrivate, hHandy, hBase]

/-- A position of the block that may be compared is set, and nothing is stored. -/
theorem Placed.run_setpos (h : s.Placed addr size) (hWrap : addr.toNat + size.toNat < 2 ^ 64)
    {pos : BitVec 32} (hSide : SameSide addr size pos) (hPos : pos.toNat ≤ size.toNat) :
    ∃ s', xdrmemSetpos pos s = (some (), s') ∧ s'.Placed addr size ∧ s'.xdrmemGetpos = pos ∧
      s'.mem = s.mem := by
  obtain ⟨s', hSet, hPlaced, hGetpos⟩ := h.setpos_within hWrap hSide hPos
  refine ⟨s', hSet, hPlaced, hGetpos, ?_⟩
  simp only [xdrmemSetpos] at hSet
  split at hSet
  · cases hSet
  · cases hSet
    rfl

/-- A store over a part of what has been stored. -/
theorem moveTo_patch (a : BitVec 64) {as bs bs' cs : List UInt8} (mem : BitVec 64 → UInt8)
    (hSame : bs'.length = bs.length) (h : (as ++ bs ++ cs).length < 2 ^ 64) :
    moveTo (a + BitVec.ofNat 64 as.length) bs' (moveTo a (as ++ bs ++ cs) mem) =
      moveTo a (as ++ bs' ++ cs) mem := by
  funext p
  rw [List.length_append, List.length_append] at h
  have hLt := (p - a).isLt
  have hFar : (p - (a + BitVec.ofNat 64 as.length)).toNat =
      ((p - a).toNat + (2 ^ 64 - as.length)) % 2 ^ 64 := by
    have hLen : (BitVec.ofNat 64 as.length).toNat = as.length := by
      rw [BitVec.toNat_ofNat]
      exact Nat.mod_eq_of_lt (by omega)
    rw [← BitVec.sub_sub, BitVec.toNat_sub, hLen]
    omega
  unfold moveTo
  rw [hFar, List.append_assoc, List.append_assoc]
  by_cases hBefore : (p - a).toNat < as.length
  · have hOut : bs'.length ≤ ((p - a).toNat + (2 ^ 64 - as.length)) % 2 ^ 64 := by omega
    rw [List.getElem?_eq_none hOut, List.getElem?_append_left hBefore,
      List.getElem?_append_left hBefore]
    rfl
  · have hIn : ((p - a).toNat + (2 ^ 64 - as.length)) % 2 ^ 64 = (p - a).toNat - as.length := by
      omega
    have hNot := Nat.not_lt.mp hBefore
    rw [hIn, List.getElem?_append_right hNot, List.getElem?_append_right hNot]
    by_cases hPart : (p - a).toNat - as.length < bs'.length
    · rw [List.getElem?_append_left hPart, List.getElem?_eq_getElem hPart]
      rfl
    · have hBehind := Nat.not_lt.mp hPart
      rw [List.getElem?_eq_none hBehind, List.getElem?_append_right hBehind,
        List.getElem?_append_right (hSame ▸ hBehind), hSame]
      rfl

end Put

end XdrMemPtr
end OncRpc
