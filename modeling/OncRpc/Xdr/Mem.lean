import OncRpc.Xdr.Stream

/-! Streams over a block of memory. `x_private` is an offset from `x_base`. -/
namespace OncRpc

/-- An `XDR` handle that `xdrmem_create` has filled in. -/
structure XdrMem where
  /-- The block at `x_base`. -/
  base : List UInt8
  /-- `x_private - x_base`. -/
  priv : Nat
  /-- `x_handy`. -/
  handy : Nat
  /-- `x_ops` is `xdrmem_ops_aligned`. -/
  aligned : Bool
  deriving DecidableEq, Repr

namespace XdrMem

open XdrOps

/-- `xdrmem_create`, at an address that is a multiple of four or not. -/
def xdrmemCreate (addr : List UInt8) (size : Nat) (aligned : Bool) : XdrMem :=
  { base := addr, priv := 0, handy := size, aligned := aligned }

/-- `xdrmem_getlong_aligned` and `xdrmem_getlong_unaligned`. -/
def xdrmemGetlong : Fallible XdrMem (BitVec 32) := fun s =>
  if s.handy < 4 then (none, s)
  else (some (Word.ofBytes (Buffer.readAt s.base s.priv 4)),
    { s with handy := s.handy - 4, priv := s.priv + 4 })

/-- `xdrmem_putlong_aligned` and `xdrmem_putlong_unaligned`. -/
def xdrmemPutlong (l : BitVec 32) : Fallible XdrMem Unit := fun s =>
  if s.handy < 4 then (none, s)
  else (some (), { s with
    handy := s.handy - 4
    base := Buffer.writeAt s.base s.priv (Word.toBytes l)
    priv := s.priv + 4 })

def xdrmemGetbytes (len : Nat) : Fallible XdrMem (List UInt8) := fun s =>
  if s.handy < len then (none, s)
  else (some (Buffer.readAt s.base s.priv len),
    { s with handy := s.handy - len, priv := s.priv + len })

def xdrmemPutbytes (addr : List UInt8) : Fallible XdrMem Unit := fun s =>
  if s.handy < addr.length then (none, s)
  else (some (), { s with
    handy := s.handy - addr.length
    base := Buffer.writeAt s.base s.priv addr
    priv := s.priv + addr.length })

def xdrmemGetpos (s : XdrMem) : Nat := s.priv

/-- The offsets are compared, as the addresses are in a block that no `long` turns negative
in. -/
def xdrmemSetpos (pos : Nat) : Fallible XdrMem Unit := fun s =>
  let lastaddr := s.priv + s.handy
  if pos > lastaddr then (none, s)
  else (some (), { s with priv := pos, handy := lastaddr - pos })

def xdrmemInlineAligned (len : Nat) : Fallible XdrMem (Option Nat) := fun s =>
  if s.handy ≥ len then
    (some (some s.priv), { s with handy := s.handy - len, priv := s.priv + len })
  else (some none, s)

def xdrmemInlineUnaligned (_len : Nat) : Fallible XdrMem (Option Nat) := pure none

instance : XdrOps XdrMem where
  getlong := xdrmemGetlong
  putlong := xdrmemPutlong
  getbytes := xdrmemGetbytes
  putbytes := xdrmemPutbytes
  inline _ len := fun s =>
    if s.aligned then xdrmemInlineAligned len s else xdrmemInlineUnaligned len s
  load _ buf n s := Buffer.readAt s.base buf n
  store buf bs s := { s with base := Buffer.writeAt s.base buf bs }

/-- The handle stands inside its block. -/
def Within (s : XdrMem) : Prop := s.priv + s.handy ≤ s.base.length

instance (s : XdrMem) : Decidable s.Within := Nat.decLe _ _

/-- The bytes between the position and the end that `x_handy` allows. -/
def rest (s : XdrMem) : List UInt8 := Buffer.readAt s.base s.priv s.handy

theorem length_rest {s : XdrMem} (h : s.Within) : s.rest.length = s.handy :=
  Buffer.length_readAt_of_le h

/-- A memory stream over a block, up to a fixed end in it, stands before `t`. -/
structure Before (block : List UInt8) (stop : Nat) (s : XdrMem) (t : List UInt8) : Prop where
  base_eq : s.base = block
  stop_eq : s.priv + s.handy = stop
  within : s.Within
  rest_eq : s.rest = t

/-- Every handle that stands in its block stands before the rest of it. -/
theorem before_rest {s : XdrMem} (h : s.Within) :
    Before s.base (s.priv + s.handy) s s.rest :=
  ⟨rfl, rfl, h, rfl⟩

/-- The position is the end less what is left. -/
theorem Before.priv_add_length {block : List UInt8} {stop : Nat} {s : XdrMem} {t : List UInt8}
    (h : Before block stop s t) : s.priv + t.length = stop := by
  rw [← h.rest_eq, length_rest h.within]
  exact h.stop_eq

variable {block : List UInt8} {stop : Nat}

/-- Moving the position over `n` bytes drops them from what is left. -/
theorem Before.advance {s : XdrMem} {t : List UInt8} {n : Nat} (h : Before block stop s t)
    (hn : n ≤ s.handy) :
    Before block stop { s with handy := s.handy - n, priv := s.priv + n } (t.drop n) where
  base_eq := h.base_eq
  stop_eq := by
    have hStop := h.stop_eq
    dsimp only
    omega
  within := by
    have hFit : s.priv + s.handy ≤ s.base.length := h.within
    simp only [Within]
    omega
  rest_eq := by rw [← h.rest_eq, rest, rest, Buffer.readAt_drop]

theorem take_rest {s : XdrMem} {n : Nat} (hn : n ≤ s.handy) :
    s.rest.take n = Buffer.readAt s.base s.priv n :=
  Buffer.readAt_take _ _ _ _ hn

theorem refines_getbytes (n : Nat) :
    Fallible.Refines (Before block stop) (Before block stop) (xdrmemGetbytes n) (ByteStream.getbytes n) := by
  intro s t h
  obtain rfl := h.rest_eq
  have hLen := length_rest h.within
  by_cases hn : s.handy < n
  · simp [Fallible.run, xdrmemGetbytes, ByteStream.getbytes, hLen, hn, Nat.not_le.mpr hn]
  · have hLe : n ≤ s.handy := Nat.not_lt.mp hn
    simp only [Fallible.run, xdrmemGetbytes, ByteStream.getbytes, hLen, if_neg hn, if_pos hLe,
      take_rest hLe]
    exact ⟨trivial, fun _ => h.advance hLe⟩

theorem refines_getlong :
    Fallible.Refines (Before block stop) (Before block stop) xdrmemGetlong ByteStream.getlong := by
  intro s t h
  obtain rfl := h.rest_eq
  have hLen := length_rest h.within
  by_cases hn : s.handy < 4
  · simp [Fallible.run, xdrmemGetlong, ByteStream.getlong, hLen, hn, Nat.not_le.mpr hn]
  · have hLe : 4 ≤ s.handy := Nat.not_lt.mp hn
    simp only [Fallible.run, xdrmemGetlong, ByteStream.getlong, hLen, if_neg hn, if_pos hLe,
      take_rest hLe]
    exact ⟨trivial, fun _ => h.advance hLe⟩

/-- Both op vectors read the bytes of the block in order. -/
theorem lawful : LawfulReader (Before block stop) where
  getlong := refines_getlong
  getbytes := refines_getbytes
  inline := by
    intro n s t h
    obtain rfl := h.rest_eq
    cases ha : s.aligned with
    | false =>
        refine Or.inl ⟨s, ?_, h⟩
        simp [Fallible.run, XdrOps.inline, ha, xdrmemInlineUnaligned, pure]
    | true =>
        by_cases hn : n ≤ s.handy
        · refine Or.inr ⟨s.priv, _, ?_, ?_, h.advance hn, ?_⟩
          · simp [Fallible.run, XdrOps.inline, ha, xdrmemInlineAligned, hn]
          · simpa [length_rest h.within] using hn
          · intro a k hak
            simp only [XdrOps.load, rest, Buffer.readAt_drop]
            rw [Buffer.readAt_take _ _ _ _ (by omega)]
        · refine Or.inl ⟨s, ?_, h⟩
          simp [Fallible.run, XdrOps.inline, ha, xdrmemInlineAligned, hn]

/-- The stream after `bs` has been put. -/
def put (s : XdrMem) (bs : List UInt8) : XdrMem :=
  { s with
    handy := s.handy - bs.length
    base := Buffer.writeAt s.base s.priv bs
    priv := s.priv + bs.length }

theorem run_putlong {s : XdrMem} {l : BitVec 32} (h : 4 ≤ s.handy) :
    (putlong l : Fallible XdrMem Unit).run s = (some (), s.put (Word.toBytes l)) := by
  simp [Fallible.run, putlong, xdrmemPutlong, Nat.not_lt.mpr h, put]

theorem run_putbytes {s : XdrMem} {bs : List UInt8} (h : bs.length ≤ s.handy) :
    (putbytes bs : Fallible XdrMem Unit).run s = (some (), s.put bs) := by
  simp [Fallible.run, putbytes, xdrmemPutbytes, Nat.not_lt.mpr h, put]

@[simp] theorem put_nil (s : XdrMem) : s.put [] = s := by simp [put]

@[simp] theorem handy_put (s : XdrMem) (bs : List UInt8) :
    (s.put bs).handy = s.handy - bs.length := rfl

@[simp] theorem priv_put (s : XdrMem) (bs : List UInt8) :
    (s.put bs).priv = s.priv + bs.length := rfl

theorem within_put {s : XdrMem} {bs : List UInt8} (hs : s.Within) (hn : bs.length ≤ s.handy) :
    (s.put bs).Within := by
  have hFit : s.priv + s.handy ≤ s.base.length := hs
  have hBase : (s.put bs).base.length = s.base.length := Buffer.length_writeAt (by omega)
  simp only [Within, hBase, handy_put, priv_put]
  omega

/-- Putting twice is putting the concatenation. -/
theorem put_put {s : XdrMem} {a b : List UInt8} (hs : s.Within) (hn : a.length ≤ s.handy) :
    (s.put a).put b = s.put (a ++ b) := by
  have hFit : s.priv + s.handy ≤ s.base.length := hs
  have hStore : s.priv + a.length ≤ s.base.length := by omega
  simp only [put, List.length_append, Buffer.writeAt_writeAt hStore, Nat.add_assoc,
    Nat.sub_sub]

theorem inline_window {n buf : Nat} {s s' : XdrMem} (hs : s.Within)
    (hRun : (XdrOps.inline .encode n).run s = (some (some buf), s')) :
    s'.base = s.base ∧ buf + n ≤ s.base.length := by
  have hFit : s.priv + s.handy ≤ s.base.length := hs
  simp only [Fallible.run, XdrOps.inline] at hRun
  split at hRun
  · unfold xdrmemInlineAligned at hRun
    split at hRun
    · cases hRun
      exact ⟨rfl, by omega⟩
    · cases hRun
  · cases hRun

instance : XdrWriter XdrMem where
  mem := base
  pos := priv
  Valid := Within
  Room n s := s.Within ∧ n ≤ s.handy
  put := put
  mem_store _ _ _ := rfl
  inline_window := inline_window
  pos_add_le := by
    rintro n s ⟨hs, hn⟩
    have hFit : s.priv + s.handy ≤ s.base.length := hs
    omega
  room_mono h hmn := ⟨h.1, hmn.trans h.2⟩
  run_putlong h := run_putlong h.2
  run_putbytes h := run_putbytes h.2
  mem_put _ _ := rfl
  put_nil := put_nil
  room_put := by
    rintro bs n s ⟨hs, hn⟩
    refine ⟨within_put hs (by omega), ?_⟩
    rw [handy_put]
    omega
  put_put h := put_put h.1 h.2

end XdrMem
end OncRpc
