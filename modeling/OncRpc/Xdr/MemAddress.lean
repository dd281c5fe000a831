import OncRpc.Xdr.Mem

/-! `xdr_mem.c` over addresses: a pointer has sixty-four bits and a `long` thirty-two, and
positions are compared as `long`s. -/
namespace OncRpc

/-- An `XDR` handle that `xdrmem_create` has filled in, and the memory that it is in. -/
structure XdrMemPtr where
  mem : BitVec 64 → UInt8
  xBase : BitVec 64
  xPrivate : BitVec 64
  xHandy : BitVec 32

namespace XdrMemPtr

/-- The bytes at an address. -/
def bytesAt (mem : BitVec 64 → UInt8) (addr : BitVec 64) (n : Nat) : List UInt8 :=
  (List.range n).map fun i => mem (addr + BitVec.ofNat 64 i)

/-- `memmove` to an address. -/
def moveTo (addr : BitVec 64) (bs : List UInt8) (mem : BitVec 64 → UInt8) : BitVec 64 → UInt8 :=
  fun a => (bs[(a - addr).toNat]?).getD (mem a)

/-- A pointer as a `long`. -/
def long (a : BitVec 64) : BitVec 32 := a.setWidth 32

/-- `xdrmem_create`. -/
def xdrmemCreate (mem : BitVec 64 → UInt8) (addr : BitVec 64) (size : BitVec 32) : XdrMemPtr :=
  { mem := mem, xBase := addr, xPrivate := addr, xHandy := size }

/-- `x_private` and `x_handy` behind `n` bytes more. -/
def advance (n : BitVec 32) (s : XdrMemPtr) : XdrMemPtr :=
  { s with xHandy := s.xHandy - n, xPrivate := s.xPrivate + n.setWidth 64 }

/-- `xdrmem_getlong_aligned` and `xdrmem_getlong_unaligned`. -/
def xdrmemGetlong : Fallible XdrMemPtr (BitVec 32) := fun s =>
  if s.xHandy < 4 then (none, s)
  else (some (Word.ofBytes (bytesAt s.mem s.xPrivate 4)), s.advance 4)

/-- `xdrmem_putlong_aligned` and `xdrmem_putlong_unaligned`. -/
def xdrmemPutlong (l : BitVec 32) : Fallible XdrMemPtr Unit := fun s =>
  if s.xHandy < 4 then (none, s)
  else (some (), { s.advance 4 with mem := moveTo s.xPrivate (Word.toBytes l) s.mem })

def xdrmemGetbytes (len : BitVec 32) : Fallible XdrMemPtr (List UInt8) := fun s =>
  if s.xHandy < len then (none, s)
  else (some (bytesAt s.mem s.xPrivate len.toNat), s.advance len)

/-- The first `len` bytes of `addr` are put. -/
def xdrmemPutbytes (addr : List UInt8) (len : BitVec 32) : Fallible XdrMemPtr Unit := fun s =>
  if s.xHandy < len then (none, s)
  else (some (), { s.advance len with mem := moveTo s.xPrivate (addr.take len.toNat) s.mem })

/-- `xdrmem_getpos`. -/
def xdrmemGetpos (s : XdrMemPtr) : BitVec 32 := long s.xPrivate - long s.xBase

/-- `xdrmem_setpos`. -/
def xdrmemSetpos (pos : BitVec 32) : Fallible XdrMemPtr Unit := fun s =>
  let newaddr := s.xBase + pos.setWidth 64
  let lastaddr := s.xPrivate + s.xHandy.setWidth 64
  if (long newaddr).toInt > (long lastaddr).toInt then (none, s)
  else (some (), { s with xPrivate := newaddr, xHandy := long lastaddr - long newaddr })

/-- A call of one of the operations. -/
inductive Call where
  | getlong
  | putlong (l : BitVec 32)
  | getbytes (len : BitVec 32)
  | putbytes (addr : List UInt8) (len : BitVec 32)
  | setpos (pos : BitVec 32)

/-- Whether a call succeeds, and what it leaves. -/
def Call.run : Call → XdrMemPtr → Bool × XdrMemPtr
  | .getlong, s => ((xdrmemGetlong s).1.isSome, (xdrmemGetlong s).2)
  | .putlong l, s => ((xdrmemPutlong l s).1.isSome, (xdrmemPutlong l s).2)
  | .getbytes len, s => ((xdrmemGetbytes len s).1.isSome, (xdrmemGetbytes len s).2)
  | .putbytes addr len, s => ((xdrmemPutbytes addr len s).1.isSome, (xdrmemPutbytes addr len s).2)
  | .setpos pos, s => ((xdrmemSetpos pos s).1.isSome, (xdrmemSetpos pos s).2)

/-! ### Where a `long` turns negative -/

/-- How far it is from an address to the next one that is the least `long`. -/
def toLeast (addr : BitVec 64) : Nat := (3 * 2 ^ 31 - addr.toNat % 2 ^ 32) % 2 ^ 32

/-- No `long` on the way from one offset to the other turns from positive to negative. -/
def SameSide (addr : BitVec 64) (size pos : BitVec 32) : Prop :=
  pos.toNat < toLeast addr ↔ size.toNat < toLeast addr

instance (addr : BitVec 64) (size pos : BitVec 32) : Decidable (SameSide addr size pos) :=
  inferInstanceAs (Decidable (_ ↔ _))

theorem toNat_long (a : BitVec 64) : (long a).toNat = a.toNat % 2 ^ 32 :=
  BitVec.toNat_setWidth _ _

/-- A sum as a `long`. -/
theorem signed_add {b n : Nat} (hb : b < 2 ^ 32) (hn : n < 2 ^ 32) :
    ((BitVec.ofNat 32 (b + n)).toInt : Int) =
      if n < (3 * 2 ^ 31 - b) % 2 ^ 32 then (n : Int) + 2 ^ 31 - ((3 * 2 ^ 31 - b) % 2 ^ 32 : Nat)
      else (n : Int) - 2 ^ 31 - ((3 * 2 ^ 31 - b) % 2 ^ 32 : Nat) := by
  rw [BitVec.toInt_eq_toNat_cond, BitVec.toNat_ofNat]
  split_ifs <;> omega

theorem long_add (addr : BitVec 64) (n : BitVec 32) :
    long (addr + n.setWidth 64) = BitVec.ofNat 32 (addr.toNat % 2 ^ 32 + n.toNat) := by
  have hn := n.isLt
  apply BitVec.eq_of_toNat_eq
  simp only [toNat_long, BitVec.toNat_add, BitVec.toNat_setWidth, BitVec.toNat_ofNat]
  omega

/-- Two offsets are compared as if the least `long` came first. -/
theorem long_gt_iff (addr : BitVec 64) (pos size : BitVec 32) :
    (long (addr + pos.setWidth 64)).toInt > (long (addr + size.setWidth 64)).toInt ↔
      if SameSide addr size pos then size.toNat < pos.toNat else pos.toNat < size.toNat := by
  have hMod : addr.toNat % 2 ^ 32 < 2 ^ 32 := Nat.mod_lt _ (by decide)
  rw [long_add, long_add, signed_add hMod pos.isLt, signed_add hMod size.isLt]
  unfold SameSide toLeast
  by_cases hPos : pos.toNat < (3 * 2 ^ 31 - addr.toNat % 2 ^ 32) % 2 ^ 32
  · by_cases hSize : size.toNat < (3 * 2 ^ 31 - addr.toNat % 2 ^ 32) % 2 ^ 32
    · simp only [hPos, hSize, if_true]
      omega
    · simp only [hPos, hSize, if_true, if_false, iff_false, not_true]
      have hLt := size.isLt
      omega
  · by_cases hSize : size.toNat < (3 * 2 ^ 31 - addr.toNat % 2 ^ 32) % 2 ^ 32
    · simp only [hPos, hSize, if_true, if_false, iff_true]
      have hLt := pos.isLt
      omega
    · simp only [hPos, hSize, if_false, if_true]
      omega

/-! ### Runs -/

/-- What holds of a handle over the bytes from `addr` on. -/
structure Placed (addr : BitVec 64) (size : BitVec 32) (s : XdrMemPtr) : Prop where
  base_eq : s.xBase = addr
  /-- `x_private` is an offset behind `x_base`. -/
  offset : ∃ n : Nat, s.xPrivate.toNat = addr.toNat + n ∧ n + s.xHandy.toNat = size.toNat

/-- A position is set as it should be: inside the buffer it succeeds, and is then the position,
and outside it fails, and nothing changes. -/
def SetsRight (addr : BitVec 64) (size : BitVec 32) (s : XdrMemPtr) (pos : BitVec 32) : Prop :=
  match xdrmemSetpos pos s with
  | (some (), s') => pos.toNat ≤ size.toNat ∧ s'.xdrmemGetpos = pos ∧
      s'.xPrivate.toNat + s'.xHandy.toNat = addr.toNat + size.toNat
  | (none, s') => size.toNat < pos.toNat ∧ s' = s

variable {addr : BitVec 64} {size pos : BitVec 32} {s s' : XdrMemPtr}

theorem Placed.advance (h : s.Placed addr size) (hWrap : addr.toNat + size.toNat < 2 ^ 64)
    {n : BitVec 32} (hn : ¬ s.xHandy < n) : (s.advance n).Placed addr size := by
  obtain ⟨off, hPrivate, hEnd⟩ := h.offset
  have hLe : n.toNat ≤ s.xHandy.toNat := Nat.not_lt.mp hn
  refine ⟨h.base_eq, off + n.toNat, ?_, ?_⟩
  · show (s.xPrivate + n.setWidth 64).toNat = _
    have hLt := n.isLt
    rw [BitVec.toNat_add, BitVec.toNat_setWidth, hPrivate]
    omega
  · show off + n.toNat + (s.xHandy - n).toNat = _
    rw [BitVec.toNat_sub_of_le hLe]
    omega

/-- The end of the buffer is where it was. -/
theorem Placed.lastaddr (h : s.Placed addr size) :
    s.xPrivate + s.xHandy.setWidth 64 = addr + size.setWidth 64 := by
  obtain ⟨off, hPrivate, hEnd⟩ := h.offset
  apply BitVec.eq_of_toNat_eq
  have hLt := s.xHandy.isLt
  have hLt' := size.isLt
  simp only [BitVec.toNat_add, BitVec.toNat_setWidth, hPrivate]
  omega

theorem Placed.getpos (h : s.Placed addr size) :
    s.xPrivate.toNat = addr.toNat + s.xdrmemGetpos.toNat := by
  obtain ⟨off, hPrivate, hEnd⟩ := h.offset
  have hLt := size.isLt
  have hOff : s.xdrmemGetpos.toNat = off := by
    simp only [xdrmemGetpos, BitVec.toNat_sub, toNat_long, hPrivate, h.base_eq]
    omega
  rw [hOff, hPrivate]

theorem long_sub (addr : BitVec 64) {m n : BitVec 32} (h : m.toNat ≤ n.toNat) :
    (long (addr + n.setWidth 64) - long (addr + m.setWidth 64)).toNat = n.toNat - m.toNat := by
  have hLt := n.isLt
  simp only [long_add, BitVec.toNat_sub, BitVec.toNat_ofNat]
  omega

/-- Within a position on the same side, what is set is what is asked for. -/
theorem Placed.setpos_within (h : s.Placed addr size) (hWrap : addr.toNat + size.toNat < 2 ^ 64)
    (hSide : SameSide addr size pos) (hPos : pos.toNat ≤ size.toNat) :
    ∃ s', xdrmemSetpos pos s = (some (), s') ∧ s'.Placed addr size ∧ s'.xdrmemGetpos = pos := by
  have hNot : ¬ (long (addr + pos.setWidth 64)).toInt >
      (long (addr + size.setWidth 64)).toInt := by
    rw [long_gt_iff, if_pos hSide]
    exact Nat.not_lt.mpr hPos
  have hLt := pos.isLt
  refine ⟨{ s with
      xPrivate := addr + pos.setWidth 64
      xHandy := long (addr + size.setWidth 64) - long (addr + pos.setWidth 64) }, ?_, ?_, ?_⟩
  · simp only [xdrmemSetpos, h.base_eq, h.lastaddr, if_neg hNot]
  · refine ⟨h.base_eq, pos.toNat, ?_, ?_⟩
    · show (addr + pos.setWidth 64).toNat = _
      rw [BitVec.toNat_add, BitVec.toNat_setWidth]
      omega
    · show pos.toNat + (long _ - long _).toNat = _
      rw [long_sub addr hPos]
      omega
  · apply BitVec.eq_of_toNat_eq
    show (long (addr + pos.setWidth 64) - long s.xBase).toNat = _
    rw [h.base_eq]
    simpa using long_sub addr (show (0 : BitVec 32).toNat ≤ pos.toNat from Nat.zero_le _)

/-- A position is set as it should be exactly when it is on the side of the end. -/
theorem Placed.setsRight_iff (h : s.Placed addr size)
    (hWrap : addr.toNat + size.toNat < 2 ^ 64) :
    s.SetsRight addr size pos ↔ SameSide addr size pos := by
  by_cases hSide : SameSide addr size pos
  · refine iff_of_true ?_ hSide
    by_cases hPos : pos.toNat ≤ size.toNat
    · obtain ⟨s', hSet, hPlaced, hGetpos⟩ := h.setpos_within hWrap hSide hPos
      obtain ⟨off, hPrivate, hEnd⟩ := hPlaced.offset
      rw [SetsRight, hSet]
      exact ⟨hPos, hGetpos, by omega⟩
    · have hGt := (long_gt_iff addr pos size).mpr (by rw [if_pos hSide]; exact Nat.not_le.mp hPos)
      simp only [SetsRight, xdrmemSetpos, h.base_eq, h.lastaddr, if_pos hGt]
      exact ⟨Nat.not_le.mp hPos, trivial⟩
  · refine iff_of_false ?_ hSide
    have hApart : pos.toNat ≠ size.toNat := by
      intro hSame
      rw [SameSide, hSame] at hSide
      exact hSide Iff.rfl
    by_cases hPos : pos.toNat < size.toNat
    · have hGt := (long_gt_iff addr pos size).mpr (by rwa [if_neg hSide])
      simp only [SetsRight, xdrmemSetpos, h.base_eq, h.lastaddr, if_pos hGt]
      exact fun hBad => absurd hBad.1 (Nat.not_lt.mpr (Nat.le_of_lt hPos))
    · have hNot := (long_gt_iff addr pos size).not.mpr (by rwa [if_neg hSide])
      simp only [SetsRight, xdrmemSetpos, h.base_eq, h.lastaddr, if_neg hNot]
      exact fun hBad => hPos (Nat.lt_of_le_of_ne hBad.1 hApart)

/-- The handles that successful calls lead to, where every position is on the side of the
end. -/
inductive Reaches (mem : BitVec 64 → UInt8) (addr : BitVec 64) (size : BitVec 32) :
    XdrMemPtr → Prop
  | created : Reaches mem addr size (xdrmemCreate mem addr size)
  | call {s s' : XdrMemPtr} {c : Call} (before : Reaches mem addr size s)
      (may : ∀ pos, c = .setpos pos → SameSide addr size pos) (ran : c.run s = (true, s')) :
      Reaches mem addr size s'

/-- A step that moves over `n` bytes. -/
theorem Placed.moved (h : s.Placed addr size) (hWrap : addr.toNat + size.toNat < 2 ^ 64)
    {n : BitVec 32} {mem : BitVec 64 → UInt8} (hn : ¬ s.xHandy < n) :
    Placed addr size { s.advance n with mem := mem } := by
  have hNext := h.advance hWrap hn
  exact ⟨hNext.base_eq, hNext.offset⟩

theorem Placed.call (h : s.Placed addr size) (hWrap : addr.toNat + size.toNat < 2 ^ 64) {c : Call}
    (hMay : ∀ pos, c = .setpos pos → SameSide addr size pos) (hRan : c.run s = (true, s')) :
    s'.Placed addr size := by
  cases c with
  | getlong =>
      simp only [Call.run, xdrmemGetlong] at hRan
      split at hRan
      · cases hRan
      · next hn =>
          cases hRan
          exact h.advance hWrap hn
  | putlong l =>
      simp only [Call.run, xdrmemPutlong] at hRan
      split at hRan
      · cases hRan
      · next hn =>
          cases hRan
          exact h.moved hWrap hn
  | getbytes len =>
      simp only [Call.run, xdrmemGetbytes] at hRan
      split at hRan
      · cases hRan
      · next hn =>
          cases hRan
          exact h.advance hWrap hn
  | putbytes bs len =>
      simp only [Call.run, xdrmemPutbytes] at hRan
      split at hRan
      · cases hRan
      · next hn =>
          cases hRan
          exact h.moved hWrap hn
  | setpos pos =>
      have hRight := (h.setsRight_iff hWrap).mpr (hMay pos rfl)
      rcases hSet : xdrmemSetpos pos s with ⟨_ | _, s''⟩
      · simp [Call.run, hSet] at hRan
      · rw [SetsRight, hSet] at hRight
        obtain ⟨t, hAgain, hPlaced, -⟩ := h.setpos_within hWrap (hMay pos rfl) hRight.1
        simp only [Call.run, hAgain] at hRan
        cases hRan
        exact hPlaced

theorem Reaches.placed (hWrap : addr.toNat + size.toNat < 2 ^ 64) {mem : BitVec 64 → UInt8}
    (h : Reaches mem addr size s) : s.Placed addr size := by
  induction h with
  | created => exact ⟨rfl, 0, rfl, Nat.zero_add _⟩
  | call before may ran ih => exact ih.call hWrap may ran

/-! ### The handle by its offsets -/

/-- The handle over offsets that stands for one over addresses. -/
structure Shows (addr : BitVec 64) (size : BitVec 32) (s : XdrMemPtr) (x : XdrMem) : Prop where
  placed : s.Placed addr size
  base_eq : x.base = bytesAt s.mem addr size.toNat
  priv_eq : addr.toNat + x.priv = s.xPrivate.toNat
  handy_eq : x.handy = s.xHandy.toNat

theorem length_bytesAt (mem : BitVec 64 → UInt8) (addr : BitVec 64) (n : Nat) :
    (bytesAt mem addr n).length = n := by
  simp [bytesAt]

theorem getElem?_bytesAt (mem : BitVec 64 → UInt8) (addr : BitVec 64) {i n : Nat} (h : i < n) :
    (bytesAt mem addr n)[i]? = some (mem (addr + BitVec.ofNat 64 i)) := by
  simp [bytesAt, h]

section Shows

variable {x : XdrMem}

theorem Shows.priv_add (h : Shows addr size s x) : x.priv + x.handy = size.toNat := by
  obtain ⟨off, hPrivate, hEnd⟩ := h.placed.offset
  have hPriv := h.priv_eq
  rw [h.handy_eq]
  omega

theorem Shows.xPrivate_eq (h : Shows addr size s x) :
    s.xPrivate = addr + BitVec.ofNat 64 x.priv := by
  apply BitVec.eq_of_toNat_eq
  have hLt := s.xPrivate.isLt
  rw [BitVec.toNat_add, BitVec.toNat_ofNat, ← h.priv_eq]
  have hPriv := h.priv_eq
  omega

/-- What is read at the address is read at the offset. -/
theorem Shows.readAt (h : Shows addr size s x) {n : Nat} (hn : n ≤ x.handy) :
    Buffer.readAt x.base x.priv n = bytesAt s.mem s.xPrivate n := by
  have hEnd := h.priv_add
  apply List.ext_getElem?
  intro i
  by_cases hi : i < n
  · rw [getElem?_bytesAt _ _ hi, Buffer.readAt, List.getElem?_take_of_lt hi, List.getElem?_drop,
      h.base_eq, getElem?_bytesAt _ _ (by omega), h.xPrivate_eq, BitVec.ofNat_add, BitVec.add_assoc]
  · rw [List.getElem?_eq_none, List.getElem?_eq_none]
    · rw [length_bytesAt]
      omega
    · rw [Buffer.length_readAt]
      omega

/-- What is moved to the address is written at the offset. -/
theorem Shows.writeAt (h : Shows addr size s x) (hWrap : addr.toNat + size.toNat < 2 ^ 64)
    {bs : List UInt8} (hn : bs.length ≤ x.handy) :
    Buffer.writeAt x.base x.priv bs = bytesAt (moveTo s.xPrivate bs s.mem) addr size.toNat := by
  have hEnd := h.priv_add
  have hLen : x.base.length = size.toNat := by rw [h.base_eq, length_bytesAt]
  have hTake : (x.base.take x.priv).length = x.priv := by
    rw [List.length_take, hLen]
    omega
  apply List.ext_getElem?
  intro i
  by_cases hi : i < size.toNat
  · have hOff : (addr + BitVec.ofNat 64 i - s.xPrivate).toNat = (2 ^ 64 + i - x.priv) % 2 ^ 64 := by
      rw [h.xPrivate_eq, BitVec.toNat_sub, BitVec.toNat_add, BitVec.toNat_add, BitVec.toNat_ofNat,
        BitVec.toNat_ofNat]
      omega
    rw [getElem?_bytesAt _ _ hi, moveTo, hOff, Buffer.writeAt, List.append_assoc]
    by_cases hBefore : i < x.priv
    · rw [List.getElem?_append_left (by omega), List.getElem?_take_of_lt hBefore, h.base_eq,
        getElem?_bytesAt _ _ hi, List.getElem?_eq_none (by omega)]
      rfl
    · have hIndex : (2 ^ 64 + i - x.priv) % 2 ^ 64 = i - x.priv := by omega
      rw [hIndex, List.getElem?_append_right (by omega), hTake]
      by_cases hIn : i - x.priv < bs.length
      · rw [List.getElem?_append_left hIn, List.getElem?_eq_getElem hIn]
        rfl
      · rw [List.getElem?_append_right (by omega), List.getElem?_drop, h.base_eq,
          List.getElem?_eq_none (Nat.not_lt.mp hIn),
          show x.priv + bs.length + (i - x.priv - bs.length) = i by omega,
          getElem?_bytesAt _ _ hi]
        rfl
  · rw [List.getElem?_eq_none, List.getElem?_eq_none]
    · rw [length_bytesAt]
      omega
    · rw [Buffer.length_writeAt (by omega)]
      omega

/-- Moving on keeps the two handles together. -/
theorem Shows.advance (h : Shows addr size s x) (hWrap : addr.toNat + size.toNat < 2 ^ 64)
    {n : BitVec 32} (hn : ¬ s.xHandy < n) :
    Shows addr size (s.advance n)
      { x with handy := x.handy - n.toNat, priv := x.priv + n.toNat } where
  placed := h.placed.advance hWrap hn
  base_eq := h.base_eq
  priv_eq := by
    have hPriv := h.priv_eq
    have hHandy := h.priv_add
    have hLe : n.toNat ≤ s.xHandy.toNat := Nat.not_lt.mp hn
    have hLt := n.isLt
    rw [← h.handy_eq] at hLe
    show _ = (s.xPrivate + n.setWidth 64).toNat
    rw [BitVec.toNat_add, BitVec.toNat_setWidth, ← hPriv]
    dsimp only
    omega
  handy_eq := by
    have hLe : n.toNat ≤ s.xHandy.toNat := Nat.not_lt.mp hn
    show x.handy - n.toNat = (s.xHandy - n).toNat
    rw [BitVec.toNat_sub_of_le hLe, h.handy_eq]

theorem refines_xdrmemGetbytes (hWrap : addr.toNat + size.toNat < 2 ^ 64) (len : BitVec 32) :
    Fallible.Refines (Shows addr size) (Shows addr size) (xdrmemGetbytes len)
      (XdrMem.xdrmemGetbytes len.toNat) := by
  intro s x h
  have hHandy : s.xHandy < len ↔ x.handy < len.toNat := by
    rw [h.handy_eq]
    rfl
  by_cases hFew : s.xHandy < len
  · simp [Fallible.run, xdrmemGetbytes, XdrMem.xdrmemGetbytes, hFew, hHandy.mp hFew]
  · have hEnough : ¬ x.handy < len.toNat := fun hLt => hFew (hHandy.mpr hLt)
    simp only [Fallible.run, xdrmemGetbytes, XdrMem.xdrmemGetbytes, if_neg hFew, if_neg hEnough,
      h.readAt (Nat.not_lt.mp hEnough)]
    exact ⟨trivial, fun _ => h.advance hWrap hFew⟩

theorem refines_xdrmemGetlong (hWrap : addr.toNat + size.toNat < 2 ^ 64) :
    Fallible.Refines (Shows addr size) (Shows addr size) xdrmemGetlong XdrMem.xdrmemGetlong := by
  intro s x h
  have hHandy : s.xHandy < 4 ↔ x.handy < 4 := by
    rw [h.handy_eq]
    rfl
  by_cases hFew : s.xHandy < 4
  · simp only [Fallible.run, xdrmemGetlong, XdrMem.xdrmemGetlong, if_pos hFew, if_pos (hHandy.mp hFew)]
    exact ⟨trivial, fun hSome => by cases hSome⟩
  · have hEnough : ¬ x.handy < 4 := fun hLt => hFew (hHandy.mpr hLt)
    simp only [Fallible.run, xdrmemGetlong, XdrMem.xdrmemGetlong, if_neg hFew, if_neg hEnough,
      h.readAt (Nat.not_lt.mp hEnough)]
    exact ⟨trivial, fun _ => h.advance hWrap hFew⟩

theorem Shows.put (h : Shows addr size s x) (hWrap : addr.toNat + size.toNat < 2 ^ 64)
    {n : BitVec 32} (hn : ¬ s.xHandy < n) {bs : List UInt8} (hLen : bs.length = n.toNat) :
    Shows addr size { s.advance n with mem := moveTo s.xPrivate bs s.mem } (x.put bs) := by
  have hNext := h.advance hWrap hn
  have hLe : n.toNat ≤ s.xHandy.toNat := Nat.not_lt.mp hn
  rw [← h.handy_eq, ← hLen] at hLe
  refine ⟨h.placed.moved hWrap hn, h.writeAt hWrap hLe, ?_, ?_⟩
  · rw [XdrMem.priv_put, hLen]
    exact hNext.priv_eq
  · rw [XdrMem.handy_put, hLen]
    exact hNext.handy_eq

theorem refines_xdrmemPutlong (hWrap : addr.toNat + size.toNat < 2 ^ 64) (l : BitVec 32) :
    Fallible.Refines (Shows addr size) (Shows addr size) (xdrmemPutlong l)
      (XdrMem.xdrmemPutlong l) := by
  intro s x h
  have hHandy : s.xHandy < 4 ↔ x.handy < 4 := by
    rw [h.handy_eq]
    rfl
  by_cases hFew : s.xHandy < 4
  · simp only [Fallible.run, xdrmemPutlong, XdrMem.xdrmemPutlong, if_pos hFew, if_pos (hHandy.mp hFew)]
    exact ⟨trivial, fun hSome => by cases hSome⟩
  · have hEnough : ¬ x.handy < 4 := fun hLt => hFew (hHandy.mpr hLt)
    simp only [Fallible.run, xdrmemPutlong, XdrMem.xdrmemPutlong, if_neg hFew, if_neg hEnough]
    exact ⟨trivial, fun _ => h.put hWrap hFew (Word.length_toBytes l)⟩

theorem refines_xdrmemPutbytes (hWrap : addr.toNat + size.toNat < 2 ^ 64) {bs : List UInt8}
    {len : BitVec 32} (hLen : len.toNat ≤ bs.length) :
    Fallible.Refines (Shows addr size) (Shows addr size) (xdrmemPutbytes bs len)
      (XdrMem.xdrmemPutbytes (bs.take len.toNat)) := by
  intro s x h
  have hTake : (bs.take len.toNat).length = len.toNat := by simp [hLen]
  have hHandy : s.xHandy < len ↔ x.handy < (bs.take len.toNat).length := by
    rw [h.handy_eq, hTake]
    rfl
  by_cases hFew : s.xHandy < len
  · simp only [Fallible.run, xdrmemPutbytes, XdrMem.xdrmemPutbytes, if_pos hFew,
      if_pos (hHandy.mp hFew)]
    exact ⟨trivial, fun hSome => by cases hSome⟩
  · have hEnough : ¬ x.handy < (bs.take len.toNat).length := fun hLt => hFew (hHandy.mpr hLt)
    simp only [Fallible.run, xdrmemPutbytes, XdrMem.xdrmemPutbytes, if_neg hFew, if_neg hEnough]
    exact ⟨trivial, fun _ => h.put hWrap hFew hTake⟩

/-- On one side of the least `long`, positions may be compared by their offsets. -/
theorem refines_xdrmemSetpos (hWrap : addr.toNat + size.toNat < 2 ^ 64)
    (hSide : SameSide addr size pos) :
    Fallible.Refines (Shows addr size) (Shows addr size) (xdrmemSetpos pos)
      (XdrMem.xdrmemSetpos pos.toNat) := by
  intro s x h
  have hEnd := h.priv_add
  by_cases hPos : pos.toNat ≤ size.toNat
  · obtain ⟨s', hSet, hPlaced, hGetpos⟩ := h.placed.setpos_within hWrap hSide hPos
    have hMem : s'.mem = s.mem := by
      simp only [xdrmemSetpos] at hSet
      split at hSet
      · cases hSet
      · cases hSet
        rfl
    have hAt := hPlaced.getpos
    obtain ⟨off, hPrivate, hLast⟩ := hPlaced.offset
    have hIn : ¬ pos.toNat > x.priv + x.handy := by omega
    rw [hGetpos] at hAt
    simp only [Fallible.run, hSet, XdrMem.xdrmemSetpos, if_neg hIn]
    refine ⟨trivial, fun _ => ⟨hPlaced, ?_, hAt.symm, ?_⟩⟩
    · rw [hMem]
      exact h.base_eq
    · dsimp only
      omega
  · have hRight := (h.placed.setsRight_iff hWrap).mpr hSide
    have hOut : pos.toNat > x.priv + x.handy := by omega
    rcases hSet : xdrmemSetpos pos s with ⟨_ | _, s'⟩
    · simp only [Fallible.run, hSet, XdrMem.xdrmemSetpos, if_pos hOut]
      exact ⟨trivial, fun hSome => by cases hSome⟩
    · rw [SetsRight, hSet] at hRight
      exact absurd hRight.1 hPos

end Shows

/-- After any successful calls the position is the offset of `x_private`, and the next position
is set as it should be exactly when no `long` on the way from it to the end of the buffer turns
negative. -/
theorem xdrmem_positions (mem : BitVec 64 → UInt8) (addr : BitVec 64) (size : BitVec 32)
    (hWrap : addr.toNat + size.toNat < 2 ^ 64) (s : XdrMemPtr) (hRun : Reaches mem addr size s) :
    s.xPrivate.toNat = addr.toNat + s.xdrmemGetpos.toNat ∧
      s.xPrivate.toNat + s.xHandy.toNat = addr.toNat + size.toNat ∧
      ∀ pos, s.SetsRight addr size pos ↔ SameSide addr size pos := by
  have hPlaced := hRun.placed hWrap
  obtain ⟨off, hPrivate, hEnd⟩ := hPlaced.offset
  exact ⟨hPlaced.getpos, by omega, fun pos => hPlaced.setsRight_iff hWrap⟩

/-- A word of a buffer that begins below the address 2^31. -/
theorem xdrmem_positions_word :
    (xdrmemCreate (fun _ => 0) 4096 8).SetsRight 4096 8 4 :=
  ((xdrmem_positions (fun _ => 0) 4096 8 (by decide) _ .created).2.2 4).mpr (by decide)

/-- The buffer goes over the address 2^31, and its start cannot be set again. -/
theorem not_xdrmem_positions_across :
    ¬ ∀ (mem : BitVec 64 → UInt8) (addr : BitVec 64) (size : BitVec 32),
      addr.toNat + size.toNat < 2 ^ 64 →
        ∀ pos, (xdrmemCreate mem addr size).SetsRight addr size pos := by
  intro h
  have hRight := h (fun _ => 0) 0x7ffffffc 8 (by decide) 0
  have hSet : (xdrmemSetpos 0 (xdrmemCreate (fun _ => 0) 0x7ffffffc 8)).1 = none := by
    decide
  rcases hRun : xdrmemSetpos 0 (xdrmemCreate (fun _ => 0) 0x7ffffffc 8) with ⟨_ | _, s'⟩
  · rw [SetsRight, hRun] at hRight
    exact absurd hRight.1 (by decide)
  · rw [hRun] at hSet
    cases hSet

end XdrMemPtr
end OncRpc
