import OncRpc.Base.Buffer
import OncRpc.Base.Fallible
import OncRpc.Base.Word

/-! The operations vector of an XDR handle. `x_op` is passed to every filter
as an argument. A C `long` is thirty-two bits wide on this port, so `XDR_GETLONG`
and `XDR_PUTLONG` carry a `BitVec 32`. A pointer that `XDR_INLINE` returns is an
offset into the memory of the stream, and `IXDR_GET` and `IXDR_PUT` go through it. -/
namespace OncRpc

/-- `enum xdr_op`. -/
inductive XdrOp where
  | encode
  | decode
  | free
  deriving DecidableEq, Repr

/-- `BYTES_PER_XDR_UNIT`. -/
def bytesPerXdrUnit : Nat := 4

/-- `RNDUP`. -/
def rndup (x : Nat) : Nat := (x + bytesPerXdrUnit - 1) / bytesPerXdrUnit * bytesPerXdrUnit

/-- `struct xdr_ops`, with the memory that `x_inline` points into. -/
class XdrOps (σ : Type) where
  getlong : Fallible σ (BitVec 32)
  putlong : BitVec 32 → Fallible σ Unit
  getbytes : Nat → Fallible σ (List UInt8)
  putbytes : List UInt8 → Fallible σ Unit
  inline : XdrOp → Nat → Fallible σ (Option Nat)
  load : XdrOp → Nat → Nat → σ → List UInt8
  store : Nat → List UInt8 → σ → σ

section Ixdr

variable {σ : Type} [XdrOps σ]

/-- `IXDR_GET_INT32`: the word at `buf`, and `buf` moved past it. -/
def ixdrGetInt32 (op : XdrOp) (buf : Nat) : Fallible σ (BitVec 32 × Nat) := do
  let w ← Fallible.gets (XdrOps.load op buf 4)
  pure (Word.ofBytes w, buf + 4)

/-- `IXDR_PUT_INT32`: store a word at `buf` and move `buf` past it. -/
def ixdrPutInt32 (buf : Nat) (v : BitVec 32) : Fallible σ Nat := do
  Fallible.modify (XdrOps.store buf (Word.toBytes v))
  pure (buf + 4)

/-- `memmove` out of the stream's memory. -/
def loadBytes (op : XdrOp) (buf n : Nat) : Fallible σ (List UInt8) :=
  Fallible.gets (XdrOps.load op buf n)

/-- `memmove` into the stream's memory. -/
def storeBytes (buf : Nat) (bs : List UInt8) : Fallible σ Unit :=
  Fallible.modify (XdrOps.store buf bs)

@[simp] theorem run_ixdrGetInt32 (op : XdrOp) (buf : Nat) (s : σ) :
    (ixdrGetInt32 op buf).run s =
      (some (Word.ofBytes (XdrOps.load op buf 4 s), buf + 4), s) := rfl

@[simp] theorem run_loadBytes (op : XdrOp) (buf n : Nat) (s : σ) :
    (loadBytes op buf n).run s = (some (XdrOps.load op buf n s), s) := rfl

@[simp] theorem run_ixdrPutInt32 (buf : Nat) (v : BitVec 32) (s : σ) :
    (ixdrPutInt32 buf v).run s =
      (some (buf + 4), XdrOps.store buf (Word.toBytes v) s) := rfl

@[simp] theorem run_storeBytes (buf : Nat) (bs : List UInt8) (s : σ) :
    (storeBytes buf bs).run s = (some (), XdrOps.store buf bs s) := rfl

end Ixdr

/-- The bytes that are left to decode, with no buffer under them: a stream
that never inlines. It says what decoding means, whatever the stream. -/
abbrev ByteStream : Type := List UInt8

namespace ByteStream

def getlong : Fallible ByteStream (BitVec 32) := fun t =>
  if 4 ≤ t.length then (some (Word.ofBytes (t.take 4)), t.drop 4) else (none, t)

def getbytes (n : Nat) : Fallible ByteStream (List UInt8) := fun t =>
  if n ≤ t.length then (some (t.take n), t.drop n) else (none, t)

/-- Bytes are only appended at the end of what has been written. -/
def putbytes (bs : List UInt8) : Fallible ByteStream Unit := fun t => (some (), t ++ bs)

instance : XdrOps ByteStream where
  getlong := getlong
  putlong w := putbytes (Word.toBytes w)
  getbytes := getbytes
  putbytes := putbytes
  inline _ _ := pure none
  load _ _ _ _ := []
  store _ _ t := t

theorem run_getlong_append (w : BitVec 32) (t : List UInt8) :
    getlong.run (Word.toBytes w ++ t) = (some w, t) := by
  have hLen : 4 ≤ (Word.toBytes w ++ t).length := by simp
  have hTake : (Word.toBytes w ++ t).take 4 = Word.toBytes w :=
    List.take_left' (Word.length_toBytes w)
  have hDrop : (Word.toBytes w ++ t).drop 4 = t :=
    List.drop_left' (Word.length_toBytes w)
  simp only [Fallible.run, getlong, if_pos hLen, hTake, hDrop, Word.ofBytes_toBytes]

theorem run_getbytes_append (bs t : List UInt8) :
    (getbytes bs.length).run (bs ++ t) = (some bs, t) := by
  have hLen : bs.length ≤ (bs ++ t).length := by simp
  simp only [Fallible.run, getbytes, if_pos hLen, List.take_left, List.drop_left]

theorem run_getlong_short {t : List UInt8} (h : t.length < 4) : getlong.run t = (none, t) := by
  simp only [Fallible.run, getlong, if_neg (Nat.not_le.mpr h)]

theorem run_getbytes_short {n : Nat} {t : List UInt8} (h : t.length < n) :
    (getbytes n).run t = (none, t) := by
  simp only [Fallible.run, getbytes, if_neg (Nat.not_le.mpr h)]

/-- The computation takes exactly `bs` off the front of any stream. -/
def Takes {α : Type} (m : Fallible ByteStream α) (a : α) (bs : List UInt8) : Prop :=
  ∀ t, m.run (bs ++ t) = (some a, t)

namespace Takes

variable {α β : Type} {m : Fallible ByteStream α} {a : α} {bs : List UInt8}

theorem pure (a : α) : Takes (Pure.pure a) a [] := fun _ => rfl

theorem getlong (w : BitVec 32) : Takes ByteStream.getlong w (Word.toBytes w) :=
  run_getlong_append w

theorem getbytes (bs : List UInt8) : Takes (ByteStream.getbytes bs.length) bs bs :=
  run_getbytes_append bs

theorem bind {f : α → Fallible ByteStream β} {b : β} {cs : List UInt8} (hm : Takes m a bs)
    (hf : Takes (f a) b cs) : Takes (m >>= f) b (bs ++ cs) := by
  intro t
  rw [List.append_assoc, Fallible.run_bind_some (hm (cs ++ t)), hf t]

/-- A last step that takes nothing. -/
theorem bind_pure {f : α → Fallible ByteStream β} {b : β} (hm : Takes m a bs)
    (hf : f a = Pure.pure b) : Takes (m >>= f) b bs := by
  have hLast : Takes (f a) b [] := by
    rw [hf]
    exact pure b
  simpa using hm.bind hLast

theorem require {c : Prop} [Decidable c] {f : Unit → Fallible ByteStream β} {b : β} (hc : c)
    (hf : Takes (f ()) b bs) : Takes (Fallible.require c >>= f) b bs := by
  intro t
  rw [Fallible.run_bind_require, if_pos hc, hf t]

end Takes
end ByteStream

/-- A stream that bytes can be put on. The memory of its pointers is one block; where
there is `Room`, the next bytes go to `pos` in it, and nothing else changes. -/
class XdrWriter (σ : Type) [XdrOps σ] where
  mem : σ → List UInt8
  pos : σ → Nat
  /-- The pointers of the stream lie inside its block. -/
  Valid : σ → Prop
  Room : Nat → σ → Prop
  put : σ → List UInt8 → σ
  mem_store : ∀ buf bs s, mem (XdrOps.store buf bs s) = Buffer.writeAt (mem s) buf bs
  inline_window : ∀ {n buf s s'}, Valid s →
    (XdrOps.inline .encode n).run s = (some (some buf), s') →
    mem s' = mem s ∧ buf + n ≤ (mem s).length
  pos_add_le : ∀ {n s}, Room n s → pos s + n ≤ (mem s).length
  room_mono : ∀ {m n s}, Room n s → m ≤ n → Room m s
  run_putlong : ∀ {w s}, Room 4 s →
    (XdrOps.putlong w).run s = (some (), put s (Word.toBytes w))
  run_putbytes : ∀ {bs s}, Room bs.length s → (XdrOps.putbytes bs).run s = (some (), put s bs)
  mem_put : ∀ s bs, mem (put s bs) = Buffer.writeAt (mem s) (pos s) bs
  put_nil : ∀ s, put s [] = s
  room_put : ∀ {bs n s}, Room (bs.length + n) s → Room n (put s bs)
  put_put : ∀ {bs cs s}, Room bs.length s → put (put s bs) cs = put s (bs ++ cs)

/-- The computation puts exactly `bs`, wherever there is room for it. -/
def Puts {σ α : Type} [XdrOps σ] [XdrWriter σ] (m : Fallible σ α) (a : α) (bs : List UInt8) :
    Prop :=
  ∀ s, XdrWriter.Room bs.length s → m.run s = (some a, XdrWriter.put s bs)

namespace Puts

variable {σ α β : Type} [XdrOps σ] [XdrWriter σ] {m : Fallible σ α} {a : α} {bs : List UInt8}

theorem pure (a : α) : Puts (Pure.pure a : Fallible σ α) a [] := by
  intro s _
  rw [Fallible.run_pure, XdrWriter.put_nil]

theorem putlong (w : BitVec 32) : Puts (XdrOps.putlong w : Fallible σ Unit) () (Word.toBytes w) :=
  fun _ hRoom => XdrWriter.run_putlong hRoom

theorem putbytes (bs : List UInt8) : Puts (XdrOps.putbytes bs : Fallible σ Unit) () bs :=
  fun _ hRoom => XdrWriter.run_putbytes hRoom

theorem bind {f : α → Fallible σ β} {b : β} {cs : List UInt8} (hm : Puts m a bs)
    (hf : Puts (f a) b cs) : Puts (m >>= f) b (bs ++ cs) := by
  intro s hRoom
  rw [List.length_append] at hRoom
  have hFirst : XdrWriter.Room bs.length s := XdrWriter.room_mono hRoom (Nat.le_add_right _ _)
  rw [Fallible.run_bind_some (hm s hFirst), hf _ (XdrWriter.room_put hRoom),
    XdrWriter.put_put hFirst]

/-- A last step that puts nothing. -/
theorem bind_pure {f : α → Fallible σ β} {b : β} (hm : Puts m a bs)
    (hf : f a = Pure.pure b) : Puts (m >>= f) b bs := by
  have hLast : Puts (f a) b [] := by
    rw [hf]
    exact pure b
  simpa using hm.bind hLast

theorem require {c : Prop} [Decidable c] {f : Unit → Fallible σ β} {b : β} (hc : c)
    (hf : Puts (f ()) b bs) : Puts (Fallible.require c >>= f) b bs := by
  intro s hRoom
  rw [Fallible.run_bind_require, if_pos hc, hf s hRoom]

/-- What has been put is what stands in the memory. -/
theorem readAt_pos {s : σ} (hRoom : XdrWriter.Room bs.length s) :
    Buffer.readAt (XdrWriter.mem (XdrWriter.put s bs)) (XdrWriter.pos s) bs.length = bs := by
  have hFit := XdrWriter.pos_add_le hRoom
  rw [XdrWriter.mem_put]
  exact Buffer.readAt_writeAt (by omega)

end Puts

/-- `R s t` holds when the stream `s` stands before the bytes `t` of its record.
A lawful reader takes these bytes in order, however it buffers them. An inline
request is either refused, which changes nothing, or hands out the next bytes. -/
structure LawfulReader {σ : Type} [XdrOps σ] (R : σ → List UInt8 → Prop) : Prop where
  getlong : Fallible.Refines R R (XdrOps.getlong : Fallible σ (BitVec 32)) ByteStream.getlong
  getbytes : ∀ n, Fallible.Refines R R (XdrOps.getbytes n) (ByteStream.getbytes n)
  inline : ∀ n s t, R s t →
    (∃ s', (XdrOps.inline .decode n).run s = (some none, s') ∧ R s' t) ∨
    (∃ p s', (XdrOps.inline .decode n).run s = (some (some p), s') ∧ n ≤ t.length ∧
      R s' (t.drop n) ∧
      ∀ a k, a + k ≤ n → XdrOps.load .decode (p + a) k s' = (t.drop a).take k)

/-- A reader is lawful when it yields what is there and fails when it is not. -/
theorem LawfulReader.of_runs {σ : Type} [XdrOps σ] {R : σ → List UInt8 → Prop}
    (hLong : ∀ s t, R s t →
      (4 ≤ t.length → ∃ s', (XdrOps.getlong : Fallible σ (BitVec 32)).run s =
        (some (Word.ofBytes (t.take 4)), s') ∧ R s' (t.drop 4)) ∧
      (t.length < 4 → ((XdrOps.getlong : Fallible σ (BitVec 32)).run s).1 = none))
    (hBytes : ∀ n s t, R s t →
      (n ≤ t.length → ∃ s', (XdrOps.getbytes n : Fallible σ (List UInt8)).run s =
        (some (t.take n), s') ∧ R s' (t.drop n)) ∧
      (t.length < n → ((XdrOps.getbytes n : Fallible σ (List UInt8)).run s).1 = none))
    (hInline : ∀ n s t, R s t →
      (∃ s', (XdrOps.inline .decode n).run s = (some none, s') ∧ R s' t) ∨
      (∃ p s', (XdrOps.inline .decode n).run s = (some (some p), s') ∧ n ≤ t.length ∧
        R s' (t.drop n) ∧
        ∀ a k, a + k ≤ n → XdrOps.load .decode (p + a) k s' = (t.drop a).take k)) :
    LawfulReader R where
  getlong := by
    intro s t h
    by_cases hLen : 4 ≤ t.length
    · obtain ⟨s', hRun, hNext⟩ := (hLong s t h).1 hLen
      have hGet : ByteStream.getlong.run t = (some (Word.ofBytes (t.take 4)), t.drop 4) := by
        simp only [Fallible.run, ByteStream.getlong, if_pos hLen]
      rw [hRun, hGet]
      exact ⟨rfl, fun _ => hNext⟩
    · rw [(hLong s t h).2 (Nat.not_le.mp hLen), ByteStream.run_getlong_short (Nat.not_le.mp hLen)]
      exact ⟨rfl, fun hSome => by simp at hSome⟩
  getbytes := by
    intro n s t h
    by_cases hLen : n ≤ t.length
    · obtain ⟨s', hRun, hNext⟩ := (hBytes n s t h).1 hLen
      have hGet : (ByteStream.getbytes n).run t = (some (t.take n), t.drop n) := by
        simp only [Fallible.run, ByteStream.getbytes, if_pos hLen]
      rw [hRun, hGet]
      exact ⟨rfl, fun _ => hNext⟩
    · rw [(hBytes n s t h).2 (Nat.not_le.mp hLen),
        ByteStream.run_getbytes_short (Nat.not_le.mp hLen)]
      exact ⟨rfl, fun hSome => by simp at hSome⟩
  inline := hInline

/-- Bytes alone are what stands before themselves. -/
theorem ByteStream.lawful : LawfulReader (σ := ByteStream) Eq where
  getlong := by
    rintro t _ rfl
    exact ⟨rfl, fun _ => rfl⟩
  getbytes := by
    rintro n t _ rfl
    exact ⟨rfl, fun _ => rfl⟩
  inline := by
    rintro n t _ rfl
    exact Or.inl ⟨t, rfl, rfl⟩

/-- The stream has handed out the next `n` bytes at `buf`, and nobody has looked
at them yet. -/
structure Window {σ : Type} [XdrOps σ] (R : σ → List UInt8 → Prop) (buf n : Nat) (s : σ)
    (t : List UInt8) : Prop where
  within : n ≤ t.length
  stream : R s (t.drop n)
  loads : ∀ a k, a + k ≤ n → XdrOps.load .decode (buf + a) k s = (t.drop a).take k

section Window

open Fallible

variable {σ β : Type} [XdrOps σ] {R S : σ → List UInt8 → Prop}

/-- An inline request agrees with no request when both of its outcomes do: the
refusal from the same place, the pointer from before the bytes under it. -/
theorem LawfulReader.refines_inline (h : LawfulReader R) {n : Nat}
    {f : Option Nat → Fallible σ β} {p : Fallible ByteStream β} (hNone : Refines R S (f none) p)
    (hSome : ∀ buf, Refines (Window R buf n) S (f (some buf)) p) :
    Refines R S (XdrOps.inline .decode n >>= f) p := by
  intro s t hR
  obtain ⟨s', hRun, hR'⟩ | ⟨buf, s', hRun, hLen, hR', hLoads⟩ := h.inline n s t hR
  · rw [run_bind_some hRun]
    exact hNone s' t hR'
  · rw [run_bind_some hRun]
    exact hSome buf s' t ⟨hLen, hR', hLoads⟩

/-- A word taken through the pointer is the word the stream would have given. -/
theorem Window.refines_getInt32 {buf n : Nat} {f : BitVec 32 × Nat → Fallible σ β}
    {g : BitVec 32 → Fallible ByteStream β}
    (h : ∀ w, Refines (Window R (buf + 4) n) S (f (w, buf + 4)) (g w)) :
    Refines (Window R buf (n + 4)) S (ixdrGetInt32 .decode buf >>= f)
      (XdrOps.getlong >>= g) := by
  intro s t hWin
  have hFit := hWin.within
  have hLen : 4 ≤ t.length := by omega
  have hWord : XdrOps.load .decode buf 4 s = t.take 4 := by
    simpa using hWin.loads 0 4 (by omega)
  have hNext : Window R (buf + 4) n s (t.drop 4) := by
    refine ⟨by rw [List.length_drop]; omega, ?_, ?_⟩
    · have hStream := hWin.stream
      rwa [Nat.add_comm, ← List.drop_drop] at hStream
    · intro a k hak
      have hLoad := hWin.loads (4 + a) k (by omega)
      rwa [← Nat.add_assoc, ← List.drop_drop] at hLoad
  have hGet : (XdrOps.getlong : Fallible ByteStream (BitVec 32)).run t =
      (some (Word.ofBytes (t.take 4)), t.drop 4) := by
    simp only [Fallible.run, XdrOps.getlong, ByteStream.getlong, if_pos hLen]
  rw [run_bind_some hGet, run_bind_some (run_ixdrGetInt32 .decode buf s), hWord]
  exact h _ s _ hNext

/-- A pointer whose bytes have all been looked at is the stream itself. -/
theorem Window.refines_done {buf : Nat} {m : Fallible σ β} {p : Fallible ByteStream β}
    (h : Refines R S m p) : Refines (Window R buf 0) S m p :=
  h.weaken fun _ _ hWin => hWin.stream

end Window

end OncRpc
