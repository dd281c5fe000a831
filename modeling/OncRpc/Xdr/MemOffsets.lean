import OncRpc.Xdr.MemBounds

/-! A handle that keeps offsets does what one does that keeps addresses. -/
namespace OncRpc.XdrMemPtr

open Runs

def replied {α : Type} (f : α → Answer) (r : Option α × XdrMem) : Answer × XdrMem :=
  (r.1.elim .failed f, r.2)

/-- A call, over offsets. An area is told by its address. -/
def Request.runOffsets (addr : BitVec 64) (x : XdrMem) : Request → Answer × XdrMem
  | getlong => replied .word (XdrMem.xdrmemGetlong x)
  | putlong l => replied (fun _ => .done) (XdrMem.xdrmemPutlong l x)
  | getbytes len => replied .bytes (XdrMem.xdrmemGetbytes len.toNat x)
  | putbytes bs len => replied (fun _ => .done) (XdrMem.xdrmemPutbytes (bs.take len.toNat) x)
  | getpos => (.position (BitVec.ofNat 32 x.xdrmemGetpos), x)
  | setpos pos => replied (fun _ => .done) (XdrMem.xdrmemSetpos pos.toNat x)
  | inline len =>
      replied (fun buf => buf.elim .failed fun off => .area (addr.toNat + off))
        (if x.aligned then XdrMem.xdrmemInlineAligned len.toNat x
        else XdrMem.xdrmemInlineUnaligned len.toNat x)

/-- The bytes that are put are there, and no `long` turns negative on the way to a position. -/
structure Heeds (addr : BitVec 64) (size : BitVec 32) (r : Request) : Prop where
  bytes : ∀ bs len, r = .putbytes bs len → len.toNat ≤ bs.length
  side : ∀ pos, r = .setpos pos → SameSide addr size pos

/-- The handle over offsets, with the operations that the address has chosen. -/
structure Stands (addr : BitVec 64) (size : BitVec 32) (s : XdrMemPtr) (x : XdrMem) : Prop where
  shows : Shows addr size s x
  aligned : x.aligned = decide (addr.toNat % 4 = 0)

section Step

variable {addr : BitVec 64} {size : BitVec 32} {s : XdrMemPtr} {x : XdrMem}

/-- An operation that refines one, where neither changes anything when it fails. -/
theorem Stands.of_refines {α : Type} {m : Fallible XdrMemPtr α} {p : Fallible XdrMem α}
    (h : Stands addr size s x) (f : α → Answer)
    (hRefines : Fallible.Refines (Shows addr size) (Shows addr size) m p)
    (hFailed : (m s).1 = none → (m s).2 = s) (hFailed' : (p x).1 = none → (p x).2 = x)
    (hAligned : (p x).2.aligned = x.aligned) :
    (answer f (m s)).1 = (replied f (p x)).1 ∧
      Stands addr size (answer f (m s)).2 (replied f (p x)).2 := by
  obtain ⟨hSame, hNext⟩ := hRefines s x h.shows
  have hSame : (m s).1 = (p x).1 := hSame
  refine ⟨?_, ?_, hAligned.trans h.aligned⟩
  · rw [answer, replied, hSame]
  · cases hAnswer : (p x).1 with
    | none =>
        show Shows addr size (m s).2 (p x).2
        rw [hFailed (hSame.trans hAnswer), hFailed' hAnswer]
        exact h.shows
    | some a =>
        refine hNext ?_
        show (p x).1.isSome
        rw [hAnswer]
        rfl

theorem Stands.step (h : Stands addr size s x) (hWrap : addr.toNat + size.toNat < 2 ^ 64)
    {r : Request} (hHeeds : Heeds addr size r) :
    (r.run s).1 = (r.runOffsets addr x).1 ∧
      Stands addr size (r.run s).2 (r.runOffsets addr x).2 := by
  cases r with
  | getlong =>
      refine h.of_refines .word (refines_xdrmemGetlong hWrap) ?_ ?_ ?_
      · unfold xdrmemGetlong
        split <;> simp
      · unfold XdrMem.xdrmemGetlong
        split <;> simp
      · unfold XdrMem.xdrmemGetlong
        split <;> rfl
  | putlong l =>
      refine h.of_refines _ (refines_xdrmemPutlong hWrap l) ?_ ?_ ?_
      · unfold xdrmemPutlong
        split <;> simp
      · unfold XdrMem.xdrmemPutlong
        split <;> simp
      · unfold XdrMem.xdrmemPutlong
        split <;> rfl
  | getbytes len =>
      refine h.of_refines .bytes (refines_xdrmemGetbytes hWrap len) ?_ ?_ ?_
      · unfold xdrmemGetbytes
        split <;> simp
      · unfold XdrMem.xdrmemGetbytes
        split <;> simp
      · unfold XdrMem.xdrmemGetbytes
        split <;> rfl
  | putbytes bs len =>
      refine h.of_refines _ (refines_xdrmemPutbytes hWrap (hHeeds.bytes bs len rfl)) ?_ ?_ ?_
      · unfold xdrmemPutbytes
        split <;> simp
      · unfold XdrMem.xdrmemPutbytes
        split <;> simp
      · unfold XdrMem.xdrmemPutbytes
        split <;> rfl
  | getpos =>
      have hPos := h.shows.placed.getpos
      have hPriv := h.shows.priv_eq
      have hSame : x.priv = s.xdrmemGetpos.toNat := by omega
      refine ⟨?_, h⟩
      show Answer.position s.xdrmemGetpos = .position (BitVec.ofNat 32 x.priv)
      rw [hSame, BitVec.ofNat_toNat, BitVec.setWidth_eq]
  | setpos pos =>
      refine h.of_refines _ (refines_xdrmemSetpos hWrap (hHeeds.side pos rfl)) ?_ ?_ ?_
      · unfold xdrmemSetpos
        dsimp only
        split <;> simp
      · unfold XdrMem.xdrmemSetpos
        dsimp only
        split <;> simp
      · unfold XdrMem.xdrmemSetpos
        dsimp only
        split <;> rfl
  | inline len =>
      simp only [Request.run, Request.runOffsets, xdrmemInline, h.shows.placed.base_eq, h.aligned,
        decide_eq_true_eq]
      by_cases hAligned : addr.toNat % 4 = 0
      · rw [if_pos hAligned, if_pos hAligned, xdrmemInlineAligned, XdrMem.xdrmemInlineAligned]
        have hHandy : x.handy ≥ len.toNat ↔ s.xHandy ≥ len := by
          rw [h.shows.handy_eq]
          rfl
        by_cases hEnough : s.xHandy ≥ len
        · rw [if_pos hEnough, if_pos (hHandy.mpr hEnough)]
          refine ⟨?_, h.shows.advance hWrap (BitVec.not_lt.mpr hEnough), h.aligned⟩
          show Answer.area s.xPrivate.toNat = .area (addr.toNat + x.priv)
          rw [h.shows.priv_eq]
        · rw [if_neg hEnough, if_neg (mt hHandy.mp hEnough)]
          exact ⟨rfl, h⟩
      · rw [if_neg hAligned, if_neg hAligned]
        exact ⟨rfl, h⟩

end Step

end OncRpc.XdrMemPtr
