import OncRpc.Xdr.FilterCodec
import OncRpc.Xdr.Positions

/-! `xdr_sizeof.c`: the stream that only counts, and what a filter moves on it against what it
moves on a block of memory. -/
namespace OncRpc

open XdrOps XdrPos Fallible

/-- The handle of `xdr_sizeof`, and whether memory is allocated when it is asked for. -/
structure XdrSizeof where
  xHandy : BitVec 32
  /-- `x_base`: how many bytes `x_private` has. -/
  xBase : BitVec 32
  xPrivate : Option (List UInt8)
  mallocs : Nat → Bool

namespace XdrSizeof

def count (n : BitVec 32) (s : XdrSizeof) : XdrSizeof := { s with xHandy := s.xHandy + n }

/-- `x_putlong`. -/
def xPutlong (_ : BitVec 32) : Fallible XdrSizeof Unit := fun s => (some (), s.count 4)

/-- `x_putbytes`. -/
def xPutbytes (len : BitVec 32) : Fallible XdrSizeof Unit := fun s => (some (), s.count len)

/-- `x_inline`. A pointer is an offset in the area. -/
def xInline (op : XdrOp) (len : BitVec 32) : Fallible XdrSizeof (Option Nat) := fun s =>
  if len = 0 then (some none, s)
  else if op ≠ .encode then (some none, s)
  else if len < s.xBase then (some (s.xPrivate.map fun _ => 0), s.count len)
  else
    -- The earlier space is freed.
    let s' := { s with mallocs := fun n => s.mallocs (n + 1) }
    if s.mallocs 0 = false then (some none, { s' with xPrivate := none, xBase := 0 })
    else (some (some 0),
      { s' with xPrivate := some (memAlloc len.toNat), xBase := len }.count len)

/-- Of the other operations `harmless` does nothing. -/
instance : XdrOps XdrSizeof where
  getlong := fail
  putlong := xPutlong
  getbytes _ := fail
  putbytes bs := xPutbytes (BitVec.ofNat 32 bs.length)
  inline op len := xInline op (BitVec.ofNat 32 len)
  load _ buf n s := Buffer.readAt (s.xPrivate.getD []) buf n
  store buf bs s := { s with xPrivate := s.xPrivate.map fun area => Buffer.writeAt area buf bs }

/-- `x_getpostn` and `x_setpostn`. This is not allowed. -/
instance : XdrPos XdrSizeof where
  getpos s := s.xHandy
  setpos _ := fail

/-- The handle as `xdr_sizeof` sets it up. -/
def create (mallocs : Nat → Bool) : XdrSizeof :=
  { xHandy := 0, xBase := 0, xPrivate := none, mallocs := mallocs }

/-- `xdr_sizeof`. -/
def xdrSizeof {α : Type} (mallocs : Nat → Bool) (func : Fallible XdrSizeof α) : BitVec 32 :=
  match func.run (create mallocs) with
  | (some _, x) => x.xHandy
  | (none, _) => 0

/-- There is an area when there are bytes in it. -/
def Valid (c : XdrSizeof) : Prop := c.xPrivate = none → c.xBase = 0

theorem valid_create (mallocs : Nat → Bool) : (create mallocs).Valid := fun _ => rfl

/-- A pointer is counted, and no pointer is not. -/
theorem run_inline {c : XdrSizeof} (hValid : c.Valid) (n : Nat) :
    ∃ buf c', (XdrOps.inline .encode n : Fallible XdrSizeof _).run c = (some buf, c') ∧ c'.Valid ∧
      c'.xHandy = if buf = none then c.xHandy else c.xHandy + BitVec.ofNat 32 n := by
  show ∃ buf c', xInline .encode (BitVec.ofNat 32 n) c = _ ∧ _
  unfold xInline
  by_cases hZero : BitVec.ofNat 32 n = 0
  · exact ⟨none, c, if_pos hZero, hValid, rfl⟩
  rw [if_neg hZero, if_neg (not_not.mpr rfl)]
  by_cases hReuse : BitVec.ofNat 32 n < c.xBase
  · rw [if_pos hReuse]
    cases hArea : c.xPrivate with
    | none =>
        rw [hValid hArea] at hReuse
        exact absurd hReuse (Nat.not_lt_zero _)
    | some area =>
        refine ⟨some 0, _, rfl, ?_, rfl⟩
        intro hNone
        cases hArea.symm.trans hNone
  · rw [if_neg hReuse]
    by_cases hGranted : c.mallocs 0 = false
    · exact ⟨none, _, if_pos hGranted, fun _ => rfl, rfl⟩
    · refine ⟨some 0, _, if_neg hGranted, ?_, rfl⟩
      intro hNone
      cases hNone

end XdrSizeof

/-! ### How far a filter moves -/

/-- A filter with what it is applied to, on a stream that has positions. -/
abbrev PosFilter (α : Type) := ∀ (σ : Type) [XdrOps σ] [XdrPos σ], Fallible σ α

/-- Where the filter succeeds on a block of memory it moves `n` bytes, and on the stream that
counts it counts them and `k` words more. -/
structure Moves {α : Type} (m : PosFilter α) (a : α) (n k : Nat) : Prop where
  mem : ∀ {s s' : XdrMem} {a' : α}, s.Within → s.base.length < 2 ^ 32 →
    (m XdrMem).run s = (some a', s') →
      a' = a ∧ s'.Within ∧ s'.base.length = s.base.length ∧ s'.priv = s.priv + n ∧
        s'.handy + n = s.handy
  sizeof : ∀ {c : XdrSizeof}, c.Valid → ∃ c', (m XdrSizeof).run c = (some a, c') ∧ c'.Valid ∧
    c'.xHandy = c.xHandy + BitVec.ofNat 32 (n + 4 * k)
  few : 4 * k ≤ n

namespace Moves

variable {α β : Type} {m : PosFilter α} {a : α} {n k : Nat}

theorem pure (a : α) : Moves (fun _ _ _ => Pure.pure a) a 0 0 where
  mem := by
    intro s s' a' hWithin _ hRun
    cases hRun
    exact ⟨rfl, hWithin, rfl, rfl, rfl⟩
  sizeof := by
    intro c hValid
    exact ⟨c, rfl, hValid, (BitVec.add_zero _).symm⟩
  few := Nat.le_refl 0

theorem bind {f : α → PosFilter β} {b : β} {n' k' : Nat} (hm : Moves m a n k)
    (hf : Moves (f a) b n' k') :
    Moves (fun σ _ _ => m σ >>= fun a => f a σ) b (n + n') (k + k') where
  mem := by
    intro s s' b' hWithin hSize hRun
    obtain ⟨a', s₁, hFirst, hRest⟩ := exists_of_run_bind hRun
    obtain ⟨rfl, hWithin₁, hBase₁, hPriv₁, hHandy₁⟩ := hm.mem hWithin hSize hFirst
    obtain ⟨rfl, hWithin', hBase', hPriv', hHandy'⟩ := hf.mem hWithin₁ (by omega) hRest
    exact ⟨rfl, hWithin', by omega, by omega, by omega⟩
  sizeof := by
    intro c hValid
    obtain ⟨c₁, hFirst, hValid₁, hHandy₁⟩ := hm.sizeof hValid
    obtain ⟨c', hRest, hValid', hHandy'⟩ := hf.sizeof hValid₁
    refine ⟨c', (run_bind_some hFirst).trans hRest, hValid', ?_⟩
    rw [hHandy', hHandy₁, BitVec.add_assoc, ← BitVec.ofNat_add]
    congr 2
    omega
  few := by
    have hFew := hm.few
    have hFew' := hf.few
    omega

theorem require {c : Prop} [Decidable c] {f : Unit → PosFilter β} {b : β} (hc : c)
    (hf : Moves (f ()) b n k) :
    Moves (fun σ _ _ => Fallible.require c >>= fun u => f u σ) b n k where
  mem := by
    intro s s' b' hWithin hSize hRun
    rw [run_bind_require, if_pos hc] at hRun
    exact hf.mem hWithin hSize hRun
  sizeof := by
    intro c' hValid
    obtain ⟨c₁, hRun, hAfter⟩ := hf.sizeof hValid
    refine ⟨c₁, ?_, hAfter⟩
    rw [run_bind_require, if_pos hc]
    exact hRun
  few := hf.few

theorem putbytes (bs : List UInt8) :
    Moves (fun _ _ _ => XdrOps.putbytes bs) () bs.length 0 where
  mem := by
    intro s s' u hWithin _ hRun
    by_cases hRoom : bs.length ≤ s.handy
    · rw [XdrMem.run_putbytes hRoom] at hRun
      cases hRun
      have hFit : s.priv + s.handy ≤ s.base.length := hWithin
      refine ⟨rfl, XdrMem.within_put hWithin hRoom, Buffer.length_writeAt (by omega), rfl, ?_⟩
      rw [XdrMem.handy_put]
      omega
    · cases (if_pos (Nat.not_le.mp hRoom)).symm.trans hRun
  sizeof := by
    intro c hValid
    exact ⟨_, rfl, hValid, rfl⟩
  few := Nat.zero_le _

theorem putlong (w : BitVec 32) : Moves (fun _ _ _ => XdrOps.putlong w) () 4 0 where
  mem := by
    intro s s' u hWithin _ hRun
    by_cases hRoom : 4 ≤ s.handy
    · rw [XdrMem.run_putlong hRoom] at hRun
      cases hRun
      have hFit : s.priv + s.handy ≤ s.base.length := hWithin
      have hWord : (Word.toBytes w).length = 4 := Word.length_toBytes w
      refine ⟨rfl, XdrMem.within_put hWithin (by omega), Buffer.length_writeAt (by omega), rfl, ?_⟩
      rw [XdrMem.handy_put]
      omega
    · cases (if_pos (Nat.not_le.mp hRoom)).symm.trans hRun
  sizeof := by
    intro c hValid
    exact ⟨_, rfl, hValid, rfl⟩
  few := Nat.zero_le _

theorem congr (hm : Moves m a n k) {n' : Nat} (h : n = n') : Moves m a n' k := h ▸ hm

/-- Two steps that put no length again. -/
theorem seq {f : α → PosFilter β} {b : β} {n' : Nat} (hm : Moves m a n 0)
    (hf : Moves (f a) b n' 0) : Moves (fun σ _ _ => m σ >>= fun a => f a σ) b (n + n') 0 :=
  hm.bind hf

/-- A last step that puts nothing. -/
theorem map (hm : Moves m a n k) (g : α → β) :
    Moves (fun σ _ _ => m σ >>= fun a => Pure.pure (g a)) (g a) n k :=
  hm.bind (f := fun a _ _ _ => Pure.pure (g a)) (pure (g a))

/-! ### The library's filters -/

theorem xdrInteger {w : Nat} (toLong : BitVec w → BitVec 32) (ofLong : BitVec 32 → BitVec w)
    (v : BitVec w) : Moves (fun _ _ _ => OncRpc.xdrInteger toLong ofLong .encode v) v 4 0 :=
  (putlong (toLong v)).map fun _ => v

theorem xdrOpaque {cp : List UInt8} {cnt : Nat} (h : cnt ≤ cp.length) :
    Moves (fun _ _ _ => OncRpc.xdrOpaque .encode cp cnt) cp (rndup cnt) 0 := by
  have hLen : (cp.take cnt).length = cnt := List.length_take_of_le h
  unfold OncRpc.xdrOpaque
  by_cases hZero : cnt = 0
  · simp only [if_pos hZero]
    exact (pure cp).congr (by rw [hZero]; rfl)
  · simp only [if_neg hZero]
    by_cases hPad : padding cnt = 0
    · simp only [if_pos hPad]
      exact ((putbytes _).map fun _ => cp).congr (by rw [hLen, rndup_eq, hPad, Nat.add_zero])
    · simp only [if_neg hPad]
      have hCrud := (putbytes (List.replicate (padding cnt) 0)).map fun _ => cp
      refine ((putbytes (cp.take cnt)).bind (f := fun _ _ _ _ => do
        XdrOps.putbytes (List.replicate (padding cnt) 0)
        Pure.pure cp) hCrud).congr ?_
      rw [hLen, rndup_eq, List.length_replicate]

theorem xdrBytes (maxsize : Nat) {sp : Option (List UInt8)} {size : BitVec 32}
    (hMax : size.toNat ≤ maxsize) (hRoom : size.toNat ≤ (sp.getD []).length) :
    Moves (fun _ _ _ => OncRpc.xdrBytes maxsize .encode (sp, size)) (sp, size)
      (4 + rndup size.toNat) 0 := by
  have hBody := (xdrOpaque hRoom).map fun _ => (sp, size)
  have hSize : ¬ (size.toNat > maxsize ∧ XdrOp.encode ≠ .free) :=
    fun hBad => absurd hMax (Nat.not_le.mpr hBad.1)
  exact (xdrInteger id id size).bind (f := fun size _ _ _ => do
    Fallible.require (¬ (size.toNat > maxsize ∧ XdrOp.encode ≠ .free))
    let _ ← OncRpc.xdrOpaque .encode (sp.getD []) size.toNat
    Pure.pure (sp, size)) (require hSize hBody)

end Moves
end OncRpc
