import OncRpc.Base.Runs
import OncRpc.Xdr.Positions

/-! What calls on a memory stream read and write, whatever their order and their lengths. -/
namespace OncRpc.XdrMemPtr

open Runs

/-- A call through `x_ops`. -/
inductive Request
  | getlong
  | putlong (l : BitVec 32)
  | getbytes (len : BitVec 32)
  | putbytes (addr : List UInt8) (len : BitVec 32)
  | getpos
  | setpos (pos : BitVec 32)
  | inline (len : BitVec 32)

/-- What a call returns. FALSE and NULL are `failed`. -/
inductive Answer
  | failed
  | done
  | word (l : BitVec 32)
  | bytes (bs : List UInt8)
  | position (pos : BitVec 32)
  | area (buf : Nat)

def answer {α : Type} (f : α → Answer) (r : Option α × XdrMemPtr) : Answer × XdrMemPtr :=
  (r.1.elim .failed f, r.2)

/-- `xdrmem_inline_unaligned`. -/
def xdrmemInlineUnaligned (_len : BitVec 32) : Fallible XdrMemPtr (Option Nat) := fun s =>
  (some none, s)

/-- The operations are chosen by the address. -/
def xdrmemInline (len : BitVec 32) : Fallible XdrMemPtr (Option Nat) := fun s =>
  if s.xBase.toNat % 4 = 0 then xdrmemInlineAligned len s else xdrmemInlineUnaligned len s

def Request.run (s : XdrMemPtr) : Request → Answer × XdrMemPtr
  | getlong => answer .word (xdrmemGetlong s)
  | putlong l => answer (fun _ => .done) (xdrmemPutlong l s)
  | getbytes len => answer .bytes (xdrmemGetbytes len s)
  | putbytes addr len => answer (fun _ => .done) (xdrmemPutbytes addr len s)
  | getpos => (.position s.xdrmemGetpos, s)
  | setpos pos => answer (fun _ => .done) (xdrmemSetpos pos s)
  | inline len => answer (fun buf => buf.elim .failed .area) (xdrmemInline len s)

def Inside (addr : BitVec 64) (size : BitVec 32) (a : BitVec 64) : Prop :=
  (a - addr).toNat < size.toNat

/-- Memory that is the same in the buffer. -/
def Agrees (addr : BitVec 64) (size : BitVec 32) (s : XdrMemPtr) (mem : BitVec 64 → UInt8) : Prop :=
  ∀ a, Inside addr size a → mem a = s.mem a

/-- A call keeps to the buffer: what it does depends on no other byte, it changes no other, and
what it gives out for others to use is a part of the buffer. One that fails changes nothing. -/
structure Within (addr : BitVec 64) (size : BitVec 32) (s : XdrMemPtr) (r : Request) : Prop where
  placed : (r.run s).2.Placed addr size
  reads : ∀ mem, Agrees addr size s mem →
    (r.run { s with mem := mem }).1 = (r.run s).1 ∧
      ∀ a, Inside addr size a → (r.run { s with mem := mem }).2.mem a = (r.run s).2.mem a
  writes : ∀ a, ¬ Inside addr size a → (r.run s).2.mem a = s.mem a
  area : ∀ buf, (r.run s).1 = .area buf → ∃ len, r = .inline len ∧ addr.toNat ≤ buf ∧
    buf + len.toNat ≤ addr.toNat + size.toNat
  failed : (r.run s).1 = .failed → (r.run s).2 = s

/-- A position is not taken for one of the buffer that is behind it. -/
def Meets (addr : BitVec 64) (size : BitVec 32) (r : Request) : Prop :=
  ∀ pos, r = .setpos pos → pos.toNat ≤ size.toNat ∨ SameSide addr size pos

section Step

variable {addr : BitVec 64} {size : BitVec 32} {s : XdrMemPtr}

theorem Placed.inside (h : s.Placed addr size) {i : Nat} (hi : i < s.xHandy.toNat) :
    Inside addr size (s.xPrivate + BitVec.ofNat 64 i) := by
  obtain ⟨off, hPrivate, hEnd⟩ := h.offset
  have hLt := size.isLt
  have hAddr := addr.isLt
  show (s.xPrivate + BitVec.ofNat 64 i - addr).toNat < size.toNat
  rw [BitVec.toNat_sub, BitVec.toNat_add, BitVec.toNat_ofNat, hPrivate]
  omega

theorem Placed.bytesAt_congr (h : s.Placed addr size) {mem : BitVec 64 → UInt8} {n : Nat}
    (hn : n ≤ s.xHandy.toNat) (hSame : Agrees addr size s mem) :
    bytesAt mem s.xPrivate n = bytesAt s.mem s.xPrivate n :=
  List.map_congr_left fun _ hi =>
    hSame _ (h.inside (Nat.lt_of_lt_of_le (List.mem_range.mp hi) hn))

theorem Placed.moveTo_outside (h : s.Placed addr size) {bs : List UInt8}
    (hn : bs.length ≤ s.xHandy.toNat) {a : BitVec 64} (ha : ¬ Inside addr size a) :
    moveTo s.xPrivate bs s.mem a = s.mem a := by
  have hFar : bs.length ≤ (a - s.xPrivate).toNat := by
    by_contra hNear
    have hInside := h.inside (Nat.lt_of_lt_of_le (Nat.not_le.mp hNear) hn)
    rw [BitVec.ofNat_toNat, BitVec.setWidth_eq, BitVec.add_comm, BitVec.sub_add_cancel] at hInside
    exact ha hInside
  rw [moveTo, List.getElem?_eq_none hFar]
  rfl

theorem moveTo_congr {p a : BitVec 64} {bs : List UInt8} {mem mem' : BitVec 64 → UInt8}
    (h : mem' a = mem a) : moveTo p bs mem' a = moveTo p bs mem a := by
  rw [moveTo, moveTo, h]

/-- A call that does the same whatever is outside. -/
theorem Within.of_run {r : Request} (a : Answer) (f : XdrMemPtr → XdrMemPtr)
    (hRun : ∀ mem, Agrees addr size s mem →
      r.run { s with mem := mem } = (a, f { s with mem := mem }))
    (hPlaced : (f s).Placed addr size)
    (hReads : ∀ mem, Agrees addr size s mem →
      ∀ b, Inside addr size b → (f { s with mem := mem }).mem b = (f s).mem b)
    (hWrites : ∀ b, ¬ Inside addr size b → (f s).mem b = s.mem b)
    (hArea : ∀ buf, a = .area buf → ∃ len, r = .inline len ∧ addr.toNat ≤ buf ∧
      buf + len.toNat ≤ addr.toNat + size.toNat)
    (hFailed : a = .failed → f s = s) : Within addr size s r := by
  have hHere : r.run s = (a, f s) := hRun s.mem fun _ _ => rfl
  refine ⟨?_, fun mem hSame => ?_, fun b hb => ?_, fun buf hIs => ?_, fun hIs => ?_⟩
  · rw [hHere]
    exact hPlaced
  · rw [hHere, hRun mem hSame]
    exact ⟨rfl, hReads mem hSame⟩
  · rw [hHere]
    exact hWrites b hb
  · rw [hHere] at hIs
    exact hArea buf hIs
  · rw [hHere] at hIs ⊢
    exact hFailed hIs

/-- A call that fails. -/
theorem Placed.within_failed (h : s.Placed addr size) {r : Request}
    (hRun : ∀ mem, r.run { s with mem := mem } = (.failed, { s with mem := mem })) :
    Within addr size s r :=
  .of_run .failed id (fun mem _ => hRun mem) h (fun _ hSame => hSame) (fun _ _ => rfl)
    (fun _ hIs => by cases hIs) (fun _ => rfl)

/-- A call that reads `n` bytes. -/
theorem Placed.within_read (h : s.Placed addr size) (hWrap : addr.toNat + size.toNat < 2 ^ 64)
    {n : BitVec 32} (hn : ¬ s.xHandy < n) {r : Request} (a : Answer)
    (hRun : ∀ mem, Agrees addr size s mem →
      r.run { s with mem := mem } = (a, { s with mem := mem }.advance n))
    (hArea : ∀ buf, a = .area buf → r = .inline n ∧ buf = s.xPrivate.toNat)
    (hDone : a ≠ .failed) : Within addr size s r := by
  refine .of_run a (XdrMemPtr.advance n) hRun (h.advance hWrap hn) (fun _ hSame => hSame)
    (fun _ _ => rfl) ?_ (fun hIs => absurd hIs hDone)
  intro buf hIs
  obtain ⟨hInline, rfl⟩ := hArea buf hIs
  obtain ⟨off, hPrivate, hEnd⟩ := h.offset
  have hLe : n.toNat ≤ s.xHandy.toNat := Nat.not_lt.mp hn
  exact ⟨n, hInline, by omega, by omega⟩

/-- A call that writes over `n` bytes. -/
theorem Placed.within_write (h : s.Placed addr size) (hWrap : addr.toNat + size.toNat < 2 ^ 64)
    {n : BitVec 32} (hn : ¬ s.xHandy < n) {bs : List UInt8} (hLength : bs.length ≤ n.toNat)
    {r : Request} (hRun : ∀ mem, r.run { s with mem := mem } =
      (.done, { { s with mem := mem }.advance n with mem := moveTo s.xPrivate bs mem })) :
    Within addr size s r := by
  have hLe : n.toNat ≤ s.xHandy.toNat := Nat.not_lt.mp hn
  refine .of_run .done (fun t => { t.advance n with mem := moveTo s.xPrivate bs t.mem })
    (fun mem _ => hRun mem) (h.moved hWrap hn) (fun mem hSame b hb => ?_) (fun b hb => ?_)
    (fun _ hIs => by cases hIs) (fun hIs => by cases hIs)
  · exact moveTo_congr (hSame b hb)
  · exact h.moveTo_outside (Nat.le_trans hLength hLe) hb

theorem sameSide_of_not_gt {pos : BitVec 32}
    (hNot : ¬ (long (addr + pos.setWidth 64)).toInt > (long (addr + size.setWidth 64)).toInt)
    (hMeets : pos.toNat ≤ size.toNat ∨ SameSide addr size pos) :
    SameSide addr size pos ∧ pos.toNat ≤ size.toNat := by
  rw [long_gt_iff] at hNot
  by_cases hSide : SameSide addr size pos
  · rw [if_pos hSide] at hNot
    exact ⟨hSide, Nat.not_lt.mp hNot⟩
  · rw [if_neg hSide] at hNot
    have hLe : pos.toNat ≤ size.toNat := hMeets.resolve_right hSide
    have hSame : pos.toNat = size.toNat := by omega
    refine absurd ?_ hSide
    rw [SameSide, hSame]

/-- Behind the end of the buffer, and taken for a position of it. -/
theorem Placed.meets_of_within (h : s.Placed addr size) {r : Request}
    (hWithin : Within addr size s r) : Meets addr size r := by
  rintro pos rfl
  by_contra hNot
  obtain ⟨hBehind, hSide⟩ := not_or.mp hNot
  have hNotGt : ¬ (long (addr + pos.setWidth 64)).toInt >
      (long (addr + size.setWidth 64)).toInt := by
    rw [long_gt_iff, if_neg hSide]
    omega
  obtain ⟨off, hPrivate, hEnd⟩ := hWithin.placed.offset
  simp only [Request.run, xdrmemSetpos, h.base_eq, h.lastaddr, if_neg hNotGt, answer] at hPrivate
  have hLt := pos.isLt
  have hAddr := addr.isLt
  rw [BitVec.toNat_add, BitVec.toNat_setWidth] at hPrivate
  omega

/-- A call that meets the condition keeps to the buffer. -/
theorem Placed.within (h : s.Placed addr size) (hWrap : addr.toNat + size.toNat < 2 ^ 64)
    {r : Request} (hMeets : Meets addr size r) : Within addr size s r := by
  cases r with
  | getlong =>
      by_cases hn : s.xHandy < 4
      · refine h.within_failed fun mem => ?_
        simp only [Request.run, xdrmemGetlong, if_pos hn, answer, Option.elim_none]
      · refine h.within_read hWrap hn (.word (Word.ofBytes (bytesAt s.mem s.xPrivate 4)))
          (fun mem hSame => ?_) (fun _ hIs => by cases hIs) (fun hIs => by cases hIs)
        have hBytes := h.bytesAt_congr (n := 4) (Nat.not_lt.mp hn) hSame
        simp only [Request.run, xdrmemGetlong, if_neg hn, answer, Option.elim_some, hBytes]
  | putlong l =>
      by_cases hn : s.xHandy < 4
      · refine h.within_failed fun mem => ?_
        simp only [Request.run, xdrmemPutlong, if_pos hn, answer, Option.elim_none]
      · refine h.within_write hWrap hn (Nat.le_of_eq (Word.length_toBytes l)) fun mem => ?_
        simp only [Request.run, xdrmemPutlong, if_neg hn, answer, Option.elim_some]
  | getbytes len =>
      by_cases hn : s.xHandy < len
      · refine h.within_failed fun mem => ?_
        simp only [Request.run, xdrmemGetbytes, if_pos hn, answer, Option.elim_none]
      · refine h.within_read hWrap hn (.bytes (bytesAt s.mem s.xPrivate len.toNat))
          (fun mem hSame => ?_) (fun _ hIs => by cases hIs) (fun hIs => by cases hIs)
        have hBytes := h.bytesAt_congr (Nat.not_lt.mp hn) hSame
        simp only [Request.run, xdrmemGetbytes, if_neg hn, answer, Option.elim_some, hBytes]
  | putbytes bs len =>
      by_cases hn : s.xHandy < len
      · refine h.within_failed fun mem => ?_
        simp only [Request.run, xdrmemPutbytes, if_pos hn, answer, Option.elim_none]
      · refine h.within_write hWrap hn (List.length_take_le len.toNat bs) fun mem => ?_
        simp only [Request.run, xdrmemPutbytes, if_neg hn, answer, Option.elim_some]
  | getpos =>
      exact .of_run (.position s.xdrmemGetpos) id (fun _ _ => rfl) h (fun _ hSame => hSame)
        (fun _ _ => rfl) (fun _ hIs => by cases hIs) (fun hIs => by cases hIs)
  | setpos pos =>
      by_cases hGt : (long (addr + pos.setWidth 64)).toInt > (long (addr + size.setWidth 64)).toInt
      · refine h.within_failed fun mem => ?_
        simp only [Request.run, xdrmemSetpos, h.base_eq, h.lastaddr, if_pos hGt, answer,
          Option.elim_none]
      · obtain ⟨hSide, hPos⟩ := sameSide_of_not_gt hGt (hMeets pos rfl)
        obtain ⟨s', hSet, hPlaced, -⟩ := h.setpos_within hWrap hSide hPos
        simp only [xdrmemSetpos, h.base_eq, h.lastaddr, if_neg hGt, Prod.mk.injEq, true_and] at hSet
        refine .of_run .done (fun t => { t with
            xPrivate := addr + pos.setWidth 64
            xHandy := long (addr + size.setWidth 64) - long (addr + pos.setWidth 64) })
          (fun mem _ => ?_) ?_ (fun _ hSame => hSame) (fun _ _ => rfl) (fun _ hIs => by cases hIs)
          (fun hIs => by cases hIs)
        · simp only [Request.run, xdrmemSetpos, h.base_eq, h.lastaddr, if_neg hGt, answer,
            Option.elim_some]
        · rw [h.base_eq, hSet]
          exact hPlaced
  | inline len =>
      by_cases hAligned : s.xBase.toNat % 4 = 0
      · by_cases hn : s.xHandy < len
        · have hFew : ¬ s.xHandy ≥ len := fun hGe => Nat.not_le.mpr hn hGe
          refine h.within_failed fun mem => ?_
          simp only [Request.run, xdrmemInline, if_pos hAligned, xdrmemInlineAligned, if_neg hFew,
            answer, Option.elim_none, Option.elim_some]
        · have hEnough : s.xHandy ≥ len := Nat.not_lt.mp hn
          refine h.within_read hWrap hn (.area s.xPrivate.toNat) (fun mem _ => ?_)
            (fun _ hIs => ⟨rfl, (Answer.area.inj hIs).symm⟩) (fun hIs => by cases hIs)
          simp only [Request.run, xdrmemInline, if_pos hAligned, xdrmemInlineAligned,
            if_pos hEnough, answer, Option.elim_some]
      · refine h.within_failed fun mem => ?_
        simp only [Request.run, xdrmemInline, if_neg hAligned, xdrmemInlineUnaligned, answer,
          Option.elim_none, Option.elim_some]

end Step

theorem placed_xdrmemCreate (mem : BitVec 64 → UInt8) (addr : BitVec 64) (size : BitVec 32) :
    (xdrmemCreate mem addr size).Placed addr size :=
  ⟨rfl, 0, rfl, Nat.zero_add _⟩

/-- The stream is at an offset of its buffer from the start, and a run of calls keeps to the buffer
exactly when none of them asks for a position behind the end that compares below it. -/
theorem xdrmem_within (mem : BitVec 64 → UInt8) (addr : BitVec 64) (size : BitVec 32)
    (hWrap : addr.toNat + size.toNat < 2 ^ 64) (requests : List Request) :
    (xdrmemCreate mem addr size).Placed addr size ∧
      (Throughout (fun s r => some (r.run s).2) (Within addr size) (xdrmemCreate mem addr size)
          requests ↔
        ∀ pos, .setpos pos ∈ requests → pos.toNat ≤ size.toNat ∨ SameSide addr size pos) := by
  have hCreate := placed_xdrmemCreate mem addr size
  refine ⟨hCreate, ?_⟩
  rw [throughout_iff (Q := fun _ r => Meets addr size r) (Placed addr size)
    (fun s r h => ⟨h.meets_of_within, h.within hWrap⟩) ?_ requests _ hCreate,
    throughout_forall (fun _ _ => rfl)]
  · refine ⟨fun h pos hMem => h _ hMem pos rfl, ?_⟩
    rintro h r hMem pos rfl
    exact h pos hMem
  · intro s r s' h hMeets hNext
    rw [← Option.some.inj hNext]
    exact (h.within hWrap hMeets).placed

/-- Negative-looking lengths, and a position that is far behind the end. -/
theorem xdrmem_within_far :
    Throughout (fun s r => some (r.run s).2) (Within 0x17fff0000 8)
      (xdrmemCreate (fun _ => 0) 0x17fff0000 8)
      [.putlong 1, .getbytes 0xffffffff, .inline 0xfffffffc, .setpos 0x100, .setpos 4,
        .getlong] := by
  refine (xdrmem_within (fun _ => 0) 0x17fff0000 8 (by decide) _).2.mpr ?_
  intro pos hMem
  simp only [List.mem_cons, Request.setpos.injEq, reduceCtorEq, List.not_mem_nil, or_false,
    false_or] at hMem
  rcases hMem with rfl | rfl <;> decide

/-- The buffer ends below the least `long`, and the position is above it. -/
theorem not_xdrmem_within :
    ¬ ∀ (mem : BitVec 64 → UInt8) (addr : BitVec 64) (size : BitVec 32),
      addr.toNat + size.toNat < 2 ^ 64 → ∀ requests,
        Throughout (fun s r => some (r.run s).2) (Within addr size) (xdrmemCreate mem addr size)
          requests := by
  intro h
  have hWithin := (h (fun _ => 0) 0x17ffffff0 8 (by decide) [.setpos 0x20]).1
  exact absurd ((placed_xdrmemCreate _ _ _).meets_of_within hWithin 0x20 rfl) (by decide)

end OncRpc.XdrMemPtr
