import OncRpc.Rec.Stream

/-! The output side. The bytes sent and the bytes waiting in the buffer are the
fragments closed so far, and behind the open header stand the bytes put since. -/
namespace OncRpc.RecStrm

open Fallible RecordMarking

/-- The stream has closed the fragments `fs` and put `cur` into the next one. -/
structure Writing (fs : List Fragment) (cur : List UInt8) (s : RecStrm) : Prop where
  boundry_eq : s.outBoundry = s.outBase.length
  boundry_min : 100 ≤ s.outBoundry
  boundry_max : s.outBoundry < 2 ^ 32
  finger_eq : s.outFinger = s.fragHeader + 4 + cur.length
  finger_le : s.outFinger ≤ s.outBoundry
  closed_eq : s.tcp.written ++ s.outBase.take s.fragHeader = encodeAll fs
  open_eq : Buffer.readAt s.outBase (s.fragHeader + 4) cur.length = cur
  /-- A header is never reserved at the very end of the buffer. -/
  room : cur = [] → s.outFinger < s.outBoundry
  writable : s.tcp.writable = true

/-- The bytes that can still be put without a flush. -/
def outRoom (s : RecStrm) : Nat := s.outBoundry - s.outFinger

/-- Bytes that fit are added to the open fragment. -/
theorem Writing.storeOut {fs : List Fragment} {cur : List UInt8} {s : RecStrm}
    (h : Writing fs cur s) (bs : List UInt8) (hFit : bs.length ≤ s.outRoom) :
    Writing fs (cur ++ bs) (s.storeOut bs) := by
  have hBoundry := h.boundry_eq
  have hFinger := h.finger_eq
  have hLe := h.finger_le
  unfold outRoom at hFit
  have hStore : s.outFinger + bs.length ≤ s.outBase.length := by omega
  exact {
    boundry_eq := by
      show s.outBoundry = (Buffer.writeAt _ _ _).length
      rw [Buffer.length_writeAt hStore, hBoundry]
    boundry_min := h.boundry_min
    boundry_max := h.boundry_max
    finger_eq := by
      show s.outFinger + bs.length = s.fragHeader + 4 + (cur ++ bs).length
      rw [List.length_append, hFinger]
      omega
    finger_le := by
      show s.outFinger + bs.length ≤ s.outBoundry
      omega
    closed_eq := by
      show s.tcp.written ++ (Buffer.writeAt s.outBase s.outFinger bs).take s.fragHeader = _
      rw [Buffer.take_writeAt_before (by omega) (by omega), h.closed_eq]
    open_eq := by
      show Buffer.readAt (Buffer.writeAt s.outBase s.outFinger bs) (s.fragHeader + 4)
        (cur ++ bs).length = _
      rw [List.length_append, Buffer.readAt_add,
        Buffer.readAt_writeAt_before (by omega) (by omega), h.open_eq, ← hFinger,
        Buffer.readAt_writeAt (by omega)]
    room := by
      intro hNil
      obtain ⟨hCur, hBs⟩ := List.append_eq_nil_iff.mp hNil
      have hRoom := h.room hCur
      show s.outFinger + bs.length < s.outBoundry
      rw [hBs]
      exact hRoom
    writable := h.writable }

/-- Once the header is stored the buffer begins with everything closed. -/
theorem Writing.take_closed {fs : List Fragment} {cur : List UInt8} {s : RecStrm}
    (h : Writing fs cur s) (last : Bool) (hFits : cur.length < 2 ^ 31) :
    s.tcp.written ++ (Buffer.writeAt s.outBase s.fragHeader
      (Word.toBytes (header cur.length last))).take s.outFinger =
        encodeAll (fs ++ [⟨cur, last, hFits⟩]) := by
  have hBoundry := h.boundry_eq
  have hFinger := h.finger_eq
  have hLe := h.finger_le
  generalize hHead : Word.toBytes (header cur.length last) = bs
  have hLen : bs.length = 4 := hHead ▸ Word.length_toBytes _
  have hTake : (Buffer.writeAt s.outBase s.fragHeader bs).take
      (s.fragHeader + bs.length + cur.length) = s.outBase.take s.fragHeader ++
        (bs ++ Buffer.readAt s.outBase (s.fragHeader + bs.length) cur.length) :=
    Buffer.take_writeAt (by omega) cur.length
  rw [hLen, h.open_eq, ← hFinger] at hTake
  rw [hTake, ← List.append_assoc, h.closed_eq, encodeAll_append]
  simp [Fragment.encode, Fragment.head, hHead]

theorem toInt_ofNat {n : Nat} (h : n < 2 ^ 31) : (BitVec.ofNat 32 n).toInt = n := by
  rw [BitVec.toInt_eq_toNat_cond, BitVec.toNat_ofNat, Nat.mod_eq_of_lt (by omega)]
  split <;> omega

theorem toInt_ofNat_neg {n : Nat} (h : 2 ^ 31 ≤ n) (hMax : n < 2 ^ 32) :
    (BitVec.ofNat 32 n).toInt < 0 := by
  rw [BitVec.toInt_eq_toNat_cond, BitVec.toNat_ofNat, Nat.mod_eq_of_lt hMax]
  split <;> omega

/-- The stream after a flush that has gone through. -/
def flushed (eor : Bool) (s : RecStrm) : RecStrm :=
  let outBase := Buffer.writeAt s.outBase s.fragHeader
    (Word.toBytes (header (s.outFinger - s.fragHeader - 4) eor))
  { s with
    outBase := outBase
    tcp := { s.tcp with written := s.tcp.written ++ outBase.take s.outFinger }
    fragHeader := 0
    outFinger := 4 }

theorem run_flushOut {s : RecStrm} (eor : Bool) (hInt : s.outFinger < 2 ^ 31)
    (hWrite : s.tcp.writable = true) : (flushOut eor).run s = (some (), s.flushed eor) := by
  have hGood : ¬ ((BitVec.ofNat 32 s.outFinger).toInt < 0 ∨ s.tcp.writable = false) := by
    rw [toInt_ofNat hInt, hWrite]
    simp
  simp only [Fallible.run, flushOut, Transport.writeit]
  rw [if_neg hGood]
  rfl

/-- A flush sends everything closed and reserves a header at the front. -/
theorem Writing.flushed {fs : List Fragment} {cur : List UInt8} {s : RecStrm}
    (h : Writing fs cur s) (eor : Bool) (hFits : cur.length < 2 ^ 31) :
    Writing (fs ++ [⟨cur, eor, hFits⟩]) [] (s.flushed eor) := by
  have hBoundry := h.boundry_eq
  have hMin := h.boundry_min
  have hFinger := h.finger_eq
  have hLe := h.finger_le
  have hLen : s.outFinger - s.fragHeader - 4 = cur.length := by omega
  exact {
    boundry_eq := by
      show s.outBoundry = (Buffer.writeAt _ _ _).length
      rw [Buffer.length_writeAt (by rw [Word.length_toBytes]; omega), hBoundry]
    boundry_min := hMin
    boundry_max := h.boundry_max
    finger_eq := rfl
    finger_le := by
      show 4 ≤ s.outBoundry
      omega
    closed_eq := by
      show (s.tcp.written ++ _) ++ List.take 0 _ = _
      rw [List.take_zero, List.append_nil, hLen]
      exact h.take_closed eor hFits
    open_eq := rfl
    room := by
      intro _
      show 4 < s.outBoundry
      omega
    writable := h.writable }

/-- Nobody can be told that more than an `int` was written. -/
theorem flushOut_oversized {s : RecStrm} (eor : Bool) (hInt : 2 ^ 31 ≤ s.outFinger)
    (hMax : s.outFinger < 2 ^ 32) : ((flushOut eor).run s).1 = none := by
  simp only [Fallible.run, flushOut, Transport.writeit]
  rw [if_pos (Or.inl (toInt_ofNat_neg hInt hMax))]

end OncRpc.RecStrm
