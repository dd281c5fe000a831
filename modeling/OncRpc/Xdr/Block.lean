import OncRpc.Xdr.Offsets

/-! Decoding into memory that the caller provides. A stream is paired with a block of fixed size,
and a store that goes over the end of the block is remembered. -/
namespace OncRpc

open XdrOps Fallible

/-- Memory of fixed size, and whether a store went over its end. -/
structure Block where
  cells : List UInt8
  overrun : Bool
  deriving DecidableEq, Repr

namespace Block

/-- A store of the bytes `bs`. What is behind the end is not followed. -/
def store (off : Nat) (bs : List UInt8) (b : Block) : Block where
  cells := Buffer.writeAt b.cells off (bs.take (b.cells.length - off))
  overrun := b.overrun || decide (b.cells.length < off + bs.length)

theorem length_store (off : Nat) (bs : List UInt8) (b : Block) :
    (b.store off bs).cells.length = b.cells.length := by
  by_cases hOff : off ≤ b.cells.length
  · refine Buffer.length_writeAt ?_
    rw [List.length_take]
    omega
  · have hNone : b.cells.length - off = 0 := by omega
    simp only [store, hNone, List.take_zero, Buffer.writeAt_nil]

end Block

/-! ### A stream with a block -/

variable {σ β α γ : Type} [XdrOps σ]

/-- A computation on the stream leaves what goes with it alone. -/
def onStream (m : Fallible σ α) : Fallible (σ × β) α := fun s =>
  ((m.run s.1).1, ((m.run s.1).2, s.2))

instance : XdrOps (σ × β) where
  getlong := onStream getlong
  putlong w := onStream (putlong w)
  getbytes n := onStream (getbytes n)
  putbytes bs := onStream (putbytes bs)
  inline op n := onStream (inline op n)
  load op buf n s := load op buf n s.1
  store buf bs s := (XdrOps.store buf bs s.1, s.2)

/-- `xdr_opaque` in the direction `XDR_DECODE`, into the front of the block. -/
def xdrOpaqueInto (cnt : Nat) : Fallible (σ × Block) Unit :=
  if cnt = 0 then pure ()
  else do
    let bs ← getbytes cnt
    modify fun s => (s.1, s.2.store 0 bs)
    if padding cnt = 0 then pure ()
    else do
      let _crud ← getbytes (padding cnt)
      pure ()

/-- `xdr_string` in the direction `XDR_DECODE`, where `*cpp` is the block. -/
def xdrStringInto (maxsize : Nat) : Fallible (σ × Block) Unit := do
  let size ← xdrUInt .decode 0
  require (¬ size.toNat > maxsize)
  let nodesize := (size + 1).toNat
  if nodesize = 0 then pure ()
  else do
    modify fun s => (s.1, s.2.store size.toNat [0])
    xdrOpaqueInto size.toNat

/-! ### What a computation passes over -/

omit [XdrOps σ] in
@[simp] theorem run_onStream (m : Fallible σ α) (s : σ × β) :
    (onStream m).run s = ((m.run s.1).1, ((m.run s.1).2, s.2)) := rfl

section Passes

variable {R : σ → List UInt8 → Prop} {t : List UInt8} {k n : Nat} {m : Fallible (σ × β) α} {a : α}

/-- From the offset `k` on, the computation reads the next `n` bytes and yields `a`, or fails
when there are not so many. What goes with the stream stays as it is. -/
structure Passes (R : σ → List UInt8 → Prop) (t : List UInt8) (k n : Nat)
    (m : Fallible (σ × β) α) (a : α) : Prop where
  yields : ∀ {s b}, R s (t.drop k) → k + n ≤ t.length →
    ∃ s', m.run (s, b) = (some a, (s', b)) ∧ R s' (t.drop (k + n))
  short : ∀ {s b}, R s (t.drop k) → k ≤ t.length → t.length < k + n →
    ∃ s', m.run (s, b) = (none, (s', b))

omit [XdrOps σ] in
theorem Passes.pure (R : σ → List UInt8 → Prop) (t : List UInt8) (k : Nat) (a : α) :
    Passes R t k 0 (Pure.pure a : Fallible (σ × β) α) a where
  yields := fun hR _ => ⟨_, rfl, hR⟩
  short := fun _ hLe hLt => absurd hLt (Nat.not_lt.mpr hLe)

omit [XdrOps σ] in
theorem Passes.bind {f : α → Fallible (σ × β) γ} {c : γ} {n' : Nat} (hm : Passes R t k n m a)
    (hf : Passes R t (k + n) n' (f a) c) : Passes R t k (n + n') (m >>= f) c where
  yields := fun hR hLe => by
    obtain ⟨s₁, hRun, hR₁⟩ := hm.yields hR (by omega)
    obtain ⟨s₂, hRun₂, hR₂⟩ := hf.yields hR₁ (by omega)
    exact ⟨s₂, by rw [run_bind_some hRun, hRun₂], by rwa [← Nat.add_assoc]⟩
  short := fun hR hLe hLt => by
    by_cases hFirst : k + n ≤ t.length
    · obtain ⟨s₁, hRun, hR₁⟩ := hm.yields hR hFirst
      obtain ⟨s₂, hRun₂⟩ := hf.short hR₁ hFirst (by omega)
      exact ⟨s₂, by rw [run_bind_some hRun, hRun₂]⟩
    · obtain ⟨s₁, hRun⟩ := hm.short hR hLe (Nat.not_le.mp hFirst)
      exact ⟨s₁, run_bind_none hRun⟩

omit [XdrOps σ] in
theorem Passes.bind_pure {f : α → Fallible (σ × β) γ} {c : γ} (hm : Passes R t k n m a)
    (hf : f a = Pure.pure c) : Passes R t k n (m >>= f) c := by
  have hLast : Passes R t (k + n) 0 (f a) c := by
    rw [hf]
    exact Passes.pure R t (k + n) c
  exact hm.bind hLast

omit [XdrOps σ] in
/-- What reads the bytes in order passes over them. -/
theorem Passes.of_reads {m : Fallible σ α} {p : Fallible ByteStream α} (h : Refines R R m p)
    (hp : ByteStream.Reads t k n p a) : Passes R t k n (onStream m : Fallible (σ × β) α) a where
  yields := fun hR hLe => by
    obtain ⟨s', hRun, hR'⟩ := h.run_some hR (hp.yields hLe)
    exact ⟨s', by rw [run_onStream, hRun], hR'⟩
  short := fun {s b} hR hLe hLt => by
    have hNone : (m.run s).1 = none := (h s _ hR).1.trans (hp.short hLe hLt)
    exact ⟨(m.run s).2, by rw [run_onStream, hNone]⟩

variable (hLaw : LawfulReader R)

include hLaw in
theorem passes_getbytes (t : List UInt8) (k n : Nat) :
    Passes R t k n (getbytes n : Fallible (σ × β) _) (Buffer.readAt t k n) :=
  Passes.of_reads (hLaw.getbytes n) (ByteStream.reads_getbytes t k n)

include hLaw in
theorem passes_xdrInteger (t : List UInt8) (k : Nat) (v : BitVec 32) :
    Passes R t k 4 (xdrInteger id id .decode v : Fallible (σ × β) _) (wordAt t k) := by
  rw [xdrInteger_id_decode]
  exact Passes.of_reads hLaw.getlong (ByteStream.reads_getlong t k)

include hLaw in
theorem passes_xdrOpaque (t : List UInt8) (k : Nat) (cp : List UInt8) (cnt : Nat) :
    Passes R t k (rndup cnt) (xdrOpaque .decode cp cnt : Fallible (σ × β) _)
      (Buffer.writeAt cp 0 (Buffer.readAt t k cnt)) := by
  rw [rndup_eq]
  unfold xdrOpaque
  by_cases hZero : cnt = 0
  · subst hZero
    rw [if_pos rfl, Buffer.readAt_zero, Buffer.writeAt_nil]
    exact Passes.pure R t k cp
  · rw [if_neg hZero]
    apply (passes_getbytes hLaw t k cnt).bind
    by_cases hPad : padding cnt = 0
    · rw [if_pos hPad, hPad]
      exact Passes.pure R t _ _
    · rw [if_neg hPad]
      exact (passes_getbytes hLaw t _ _).bind_pure rfl

end Passes

/-! ### What goes over the end of the block -/

section Overruns

variable {R : σ → List UInt8 → Prop} {t : List UInt8} {k n size : Nat} {P Q : Prop}

/-- The computation leaves what goes with the stream alone. -/
def Quiet (m : Fallible (σ × β) α) : Prop := ∀ s, (m.run s).2.2 = s.2

omit [XdrOps σ] in
theorem Quiet.pure (a : α) : Quiet (Pure.pure a : Fallible (σ × β) α) := fun _ => rfl

omit [XdrOps σ] in
theorem Quiet.fail : Quiet (Fallible.fail : Fallible (σ × β) α) := fun _ => rfl

omit [XdrOps σ] in
theorem Quiet.onStream (m : Fallible σ α) : Quiet (onStream m : Fallible (σ × β) α) := fun _ => rfl

omit [XdrOps σ] in
theorem Quiet.bind {m : Fallible (σ × β) α} {f : α → Fallible (σ × β) γ} (hm : Quiet m)
    (hf : ∀ a, Quiet (f a)) : Quiet (m >>= f) := by
  intro s
  have hFirst := hm s
  rcases hRun : m.run s with ⟨_ | a, s'⟩
  · rw [run_bind_none hRun]
    rwa [hRun] at hFirst
  · rw [run_bind_some hRun, hf a s']
    rwa [hRun] at hFirst

theorem quiet_xdrInteger (v : BitVec 32) :
    Quiet (xdrInteger id id .decode v : Fallible (σ × β) _) := by
  rw [xdrInteger_id_decode]
  exact Quiet.onStream _

/-- From the offset `k` on, a store goes over the end of a block of `size` bytes exactly when `P`
holds. -/
def Overruns (R : σ → List UInt8 → Prop) (size : Nat) (t : List UInt8) (k : Nat)
    (m : Fallible (σ × Block) α) (P : Prop) : Prop :=
  ∀ s b, R s (t.drop k) → k ≤ t.length → b.cells.length = size → b.overrun = false →
    ((m.run (s, b)).2.2.overrun = true ↔ P)

namespace Overruns

variable {m : Fallible (σ × Block) α}

omit [XdrOps σ] in
theorem congr (h : Overruns R size t k m P) (hIff : P ↔ Q) : Overruns R size t k m Q :=
  fun s b hR hLe hSize hClean => (h s b hR hLe hSize hClean).trans hIff

omit [XdrOps σ] in
theorem of_quiet (hm : Quiet m) : Overruns R size t k m False := by
  intro s b _ _ _ hClean
  rw [hm (s, b), hClean]
  simp

omit [XdrOps σ] in
/-- Nothing is stored before the end of what is passed over. -/
theorem bind_passes {f : α → Fallible (σ × Block) γ} {a : α} (hm : Passes R t k n m a)
    (hf : Overruns R size t (k + n) (f a) P) :
    Overruns R size t k (m >>= f) (k + n ≤ t.length ∧ P) := by
  intro s b hR hLe hSize hClean
  by_cases hFirst : k + n ≤ t.length
  · obtain ⟨s', hRun, hR'⟩ := hm.yields hR hFirst
    rw [run_bind_some hRun, hf s' b hR' hFirst hSize hClean]
    exact (and_iff_right hFirst).symm
  · obtain ⟨s', hRun⟩ := hm.short hR hLe (Nat.not_le.mp hFirst)
    rw [run_bind_none hRun]
    simp [hClean, hFirst]

omit [XdrOps σ] in
/-- Nothing is stored afterwards. -/
theorem bind_quiet {f : α → Fallible (σ × Block) γ} (hm : Overruns R size t k m P)
    (hf : ∀ a, Quiet (f a)) : Overruns R size t k (m >>= f) P := by
  intro s b hR hLe hSize hClean
  rw [← hm s b hR hLe hSize hClean]
  rcases hRun : m.run (s, b) with ⟨_ | a, s'⟩
  · rw [run_bind_none hRun]
  · rw [run_bind_some hRun, hf a s']

omit [XdrOps σ] in
theorem require {c : Prop} [Decidable c] {f : Unit → Fallible (σ × Block) γ}
    (hf : c → Overruns R size t k (f ()) P) :
    Overruns R size t k (Fallible.require c >>= f) (c ∧ P) := by
  intro s b hR hLe hSize hClean
  rw [run_bind_require]
  by_cases hc : c
  · rw [if_pos hc, hf hc s b hR hLe hSize hClean]
    exact (and_iff_right hc).symm
  · simp [hc, hClean]

end Overruns

variable (hLaw : LawfulReader R)

include hLaw in
/-- The bytes go over the end when there are more of them than the block has. -/
theorem overrun_xdrOpaqueInto {s : σ} {b : Block} (hR : R s (t.drop k)) (hLe : k ≤ t.length)
    (cnt : Nat) :
    ((xdrOpaqueInto cnt).run (s, b)).2.2.overrun = true ↔
      b.overrun = true ∨ k + cnt ≤ t.length ∧ b.cells.length < cnt := by
  unfold xdrOpaqueInto
  by_cases hZero : cnt = 0
  · rw [if_pos hZero]
    simp [hZero]
  · rw [if_neg hZero]
    by_cases hFits : k + cnt ≤ t.length
    · obtain ⟨s₁, hRun, -⟩ := (passes_getbytes hLaw t k cnt).yields (b := b) hR hFits
      have hLen : (Buffer.readAt t k cnt).length = cnt := Buffer.length_readAt_of_le hFits
      have hRest : Quiet (if padding cnt = 0 then Pure.pure ()
          else do
            let _crud ← getbytes (padding cnt)
            Pure.pure () : Fallible (σ × Block) Unit) := by
        split
        · exact Quiet.pure ()
        · exact (Quiet.onStream _).bind fun _ => Quiet.pure ()
      rw [run_bind_some hRun, run_bind_modify, hRest]
      simp [Block.store, hLen, hFits]
    · obtain ⟨s₁, hRun⟩ := (passes_getbytes hLaw t k cnt).short (b := b) hR hLe (by omega)
      rw [run_bind_none hRun]
      simp [hFits]

include hLaw in
/-- `xdr_string` does not know how long its destination is. -/
theorem overruns_xdrStringInto {maxsize : Nat} (hMax : maxsize < uintMax) :
    Overruns R size t k (xdrStringInto maxsize)
      (k + 4 ≤ t.length ∧ (wordAt t k).toNat ≤ maxsize ∧ size ≤ (wordAt t k).toNat) := by
  refine Overruns.bind_passes (passes_xdrInteger hLaw t k 0) ?_
  refine (Overruns.require (P := size ≤ (wordAt t k).toNat) fun hFits => ?_).congr
    (and_congr_left' Nat.not_lt)
  have hNode : ¬ (wordAt t k + 1).toNat = 0 := by
    have hOne : (1 : BitVec 32).toNat = 1 := rfl
    rw [BitVec.toNat_add, hOne]
    unfold uintMax at hMax
    omega
  rw [if_neg hNode]
  intro s b hR hLe hSize hClean
  rw [run_bind_modify, overrun_xdrOpaqueInto hLaw hR hLe, Block.length_store, hSize]
  have hNul : (b.store (wordAt t k).toNat [0]).overrun = true ↔ size < (wordAt t k).toNat + 1 := by
    simp [Block.store, hClean, hSize]
  rw [hNul]
  omega

end Overruns
end OncRpc
