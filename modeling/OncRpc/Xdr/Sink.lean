import Mathlib.Data.List.TakeWhile
import OncRpc.Xdr.FilterCodec

/-! Streams that take bytes as long as they have room, and what the filters put on them:
all of an encoding, or a failure where it does not fit. -/
namespace OncRpc

open XdrOps Fallible

/-- A stream to put bytes on. `Step bs s s'` says that `s'` is `s` with `bs` put. -/
class XdrSink (σ : Type) [XdrOps σ] where
  Ready : σ → Prop
  Fits : Nat → σ → Prop
  Step : List UInt8 → σ → σ → Prop
  step_nil : ∀ {s}, Ready s → Step [] s s
  step_append : ∀ {bs cs s s₁ s₂}, Step bs s s₁ → Step cs s₁ s₂ → Step (bs ++ cs) s s₂
  ready_step : ∀ {bs s s'}, Ready s → Step bs s s' → Ready s'
  fits_step : ∀ {bs s s' n}, Step bs s s' → (Fits n s' ↔ Fits (bs.length + n) s)
  fits_zero : ∀ {s}, Fits 0 s
  fits_mono : ∀ {m n s}, Fits n s → m ≤ n → Fits m s
  run_putlong : ∀ {s} (w : BitVec 32), Ready s →
    Fits 4 s ∧ (∃ s', (XdrOps.putlong w).run s = (some (), s') ∧ Step (Word.toBytes w) s s') ∨
    ¬ Fits 4 s ∧ (XdrOps.putlong w).run s = (none, s)
  run_putbytes : ∀ {s} (bs : List UInt8), Ready s →
    Fits bs.length s ∧ (∃ s', (XdrOps.putbytes bs).run s = (some (), s') ∧ Step bs s s') ∨
    ¬ Fits bs.length s ∧ (XdrOps.putbytes bs).run s = (none, s)
  /-- A pointer is refused, or what is stored through it is put. -/
  run_inline : ∀ {s} (n : Nat), Ready s →
    (XdrOps.inline .encode n).run s = (some none, s) ∨
    Fits n s ∧ ∃ buf s', (XdrOps.inline .encode n).run s = (some (some buf), s') ∧
      (∀ bs, bs.length = n → Step bs s (XdrOps.store buf bs s')) ∧
      XdrOps.store buf [] s' = s' ∧
      ∀ a b, a.length + b.length ≤ n → XdrOps.store (buf + a.length) b (XdrOps.store buf a s') =
        XdrOps.store buf (a ++ b) s'

section Words

variable {σ : Type} [XdrOps σ]

/-- Words stored through a pointer, one behind the other. -/
def storeWords (buf : Nat) : List (BitVec 32) → Fallible σ Unit
  | [] => pure ()
  | w :: ws => do
      let buf ← ixdrPutInt32 buf w
      storeWords buf ws

/-- Words put one by one. -/
def putWords : List (BitVec 32) → Fallible σ Unit
  | [] => pure ()
  | w :: ws => do
      putlong w
      putWords ws

/-- Words put through a pointer, or one by one where the stream gives none. -/
def inlineWords (ws : List (BitVec 32)) : Fallible σ Unit := do
  let buf ← XdrOps.inline .encode (bytesPerXdrUnit * ws.length)
  match buf with
  | none => putWords ws
  | some buf => storeWords buf ws

theorem length_flatMap_toBytes (ws : List (BitVec 32)) :
    (ws.flatMap Word.toBytes).length = 4 * ws.length := by
  induction ws with
  | nil => rfl
  | cons w ws ih =>
      rw [List.flatMap_cons, List.length_append, ih, Word.length_toBytes, List.length_cons]
      omega

/-- The words go behind what has been stored before them. -/
theorem run_storeWords {n buf : Nat} {s' : σ}
    (hStore : ∀ a b, a.length + b.length ≤ n → XdrOps.store (buf + a.length) b
      (XdrOps.store buf a s') = XdrOps.store buf (a ++ b) s')
    (ws : List (BitVec 32)) (a : List UInt8) (hLen : a.length + 4 * ws.length ≤ n) :
    (storeWords (buf + a.length) ws).run (XdrOps.store buf a s') =
      (some (), XdrOps.store buf (a ++ ws.flatMap Word.toBytes) s') := by
  induction ws generalizing a with
  | nil => simp [storeWords]
  | cons w ws ih =>
      rw [List.length_cons] at hLen
      have hWord := hStore a (Word.toBytes w) (by rw [Word.length_toBytes]; omega)
      have hNext := ih (a ++ Word.toBytes w) (by
        rw [List.length_append, Word.length_toBytes]
        omega)
      rw [List.length_append, Word.length_toBytes, ← Nat.add_assoc] at hNext
      rw [storeWords, run_bind_some (run_ixdrPutInt32 _ w _), hWord, hNext, List.flatMap_cons,
        List.append_assoc]

end Words

/-- The computation puts exactly `bs` where it fits, and fails behind a part of it where it
does not. -/
def Emits {σ α : Type} [XdrOps σ] [XdrSink σ] (m : Fallible σ α) (a : α) (bs : List UInt8) :
    Prop :=
  ∀ s, XdrSink.Ready s →
    XdrSink.Fits bs.length s ∧ (∃ s', m.run s = (some a, s') ∧ XdrSink.Step bs s s') ∨
    ¬ XdrSink.Fits bs.length s ∧
      ∃ cs s', m.run s = (none, s') ∧ cs <+: bs ∧ XdrSink.Step cs s s'

namespace Emits

variable {σ α β : Type} [XdrOps σ] [XdrSink σ] {m : Fallible σ α} {a : α} {bs cs : List UInt8}

theorem pure (a : α) : Emits (Pure.pure a : Fallible σ α) a [] := fun s hReady =>
  Or.inl ⟨XdrSink.fits_zero, s, rfl, XdrSink.step_nil hReady⟩

theorem putlong (w : BitVec 32) :
    Emits (XdrOps.putlong w : Fallible σ Unit) () (Word.toBytes w) := by
  intro s hReady
  refine (XdrSink.run_putlong w hReady).imp_right fun ⟨hFull, hRun⟩ => ⟨hFull, [], s, hRun, ?_⟩
  exact ⟨List.nil_prefix, XdrSink.step_nil hReady⟩

theorem putbytes (bs : List UInt8) : Emits (XdrOps.putbytes bs : Fallible σ Unit) () bs := by
  intro s hReady
  refine (XdrSink.run_putbytes bs hReady).imp_right fun ⟨hFull, hRun⟩ => ⟨hFull, [], s, hRun, ?_⟩
  exact ⟨List.nil_prefix, XdrSink.step_nil hReady⟩

theorem bind {f : α → Fallible σ β} {b : β} (hm : Emits m a bs) (hf : Emits (f a) b cs) :
    Emits (m >>= f) b (bs ++ cs) := by
  intro s hReady
  rw [List.length_append]
  rcases hm s hReady with ⟨-, s₁, hRun, hStep⟩ | ⟨hFull, ds, s₁, hRun, hPart, hStep⟩
  · rw [run_bind_some hRun, ← XdrSink.fits_step hStep]
    rcases hf s₁ (XdrSink.ready_step hReady hStep) with
      ⟨hFits, s₂, hRun', hStep'⟩ | ⟨hFull, ds, s₂, hRun', hPart, hStep'⟩
    · exact Or.inl ⟨hFits, s₂, hRun', XdrSink.step_append hStep hStep'⟩
    · refine Or.inr ⟨hFull, bs ++ ds, s₂, hRun', ?_, XdrSink.step_append hStep hStep'⟩
      exact (List.prefix_append_right_inj bs).mpr hPart
  · refine Or.inr ⟨?_, ds, s₁, run_bind_none hRun, ?_, hStep⟩
    · exact fun hFits => hFull (XdrSink.fits_mono hFits (Nat.le_add_right _ _))
    · exact hPart.trans (List.prefix_append bs cs)

/-- A last step that puts nothing. -/
theorem bind_pure {f : α → Fallible σ β} {b : β} (hm : Emits m a bs) (hf : f a = Pure.pure b) :
    Emits (m >>= f) b bs := by
  have hLast : Emits (f a) b [] := by
    rw [hf]
    exact pure b
  simpa using hm.bind hLast

theorem require {c : Prop} [Decidable c] {f : Unit → Fallible σ β} {b : β} (hc : c)
    (hf : Emits (f ()) b bs) : Emits (Fallible.require c >>= f) b bs := by
  intro s hReady
  rw [run_bind_require, if_pos hc]
  exact hf s hReady

theorem words (ws : List (BitVec 32)) :
    Emits (putWords ws : Fallible σ Unit) () (ws.flatMap Word.toBytes) := by
  induction ws with
  | nil => exact pure ()
  | cons w ws ih => exact (putlong w).bind ih

theorem inlineWords (ws : List (BitVec 32)) :
    Emits (OncRpc.inlineWords ws : Fallible σ Unit) () (ws.flatMap Word.toBytes) := by
  intro s hReady
  unfold OncRpc.inlineWords bytesPerXdrUnit
  rcases XdrSink.run_inline (4 * ws.length) hReady with
    hNone | ⟨hFits, buf, s', hSome, hStep, hNil, hStore⟩
  · rw [run_bind_some hNone]
    exact words ws s hReady
  · have hLen := length_flatMap_toBytes ws
    have hRun := run_storeWords hStore ws [] (by simp)
    rw [hNil] at hRun
    refine Or.inl ⟨hLen ▸ hFits, _, ?_, hStep _ hLen⟩
    rw [run_bind_some hSome]
    exact hRun

end Emits

/-! ### Filters -/

section Filters

variable {σ α β : Type} [XdrOps σ] [XdrSink σ]

theorem emits_xdrInteger {w : Nat} (toLong : BitVec w → BitVec 32)
    (ofLong : BitVec 32 → BitVec w) (v : BitVec w) :
    Emits (xdrInteger toLong ofLong .encode v : Fallible σ _) v (Word.toBytes (toLong v)) :=
  (Emits.putlong _).bind_pure rfl

theorem emits_xdrOpaque {cp : List UInt8} {cnt : Nat} (h : cnt ≤ cp.length) :
    Emits (xdrOpaque .encode cp cnt : Fallible σ _) cp (padded (cp.take cnt)) := by
  have hLen : (cp.take cnt).length = cnt := by simp [h]
  unfold xdrOpaque padded
  rw [hLen, ← padding_eq]
  by_cases hZero : cnt = 0
  · subst hZero
    simpa using Emits.pure cp
  · rw [if_neg hZero]
    refine (Emits.putbytes _).bind ?_
    by_cases hPad : padding cnt = 0
    · simpa [hPad] using Emits.pure cp
    · rw [if_neg hPad]
      exact (Emits.putbytes _).bind_pure rfl

theorem emits_xdrBytes (maxsize : Nat) (sp : Option (List UInt8)) (size : BitVec 32)
    (hMax : size.toNat ≤ maxsize) (hRoom : size.toNat ≤ (sp.getD []).length) :
    Emits (xdrBytes maxsize .encode (sp, size) : Fallible σ _) (sp, size)
      (Word.toBytes size ++ padded ((sp.getD []).take size.toNat)) := by
  refine (emits_xdrInteger id id size).bind (Emits.require ?_ ?_)
  · omega
  · exact (emits_xdrOpaque hRoom).bind_pure rfl

theorem emits_xdrString (maxsize : Nat) (sp : List UInt8) (hMax : strlen sp ≤ maxsize)
    (hSize : strlen sp < 2 ^ 32) :
    Emits (xdrString maxsize .encode (some sp) : Fallible σ _) (some sp)
      (Word.toBytes (BitVec.ofNat 32 (strlen sp)) ++ padded (cString sp)) := by
  have hToNat : (BitVec.ofNat 32 (strlen sp)).toNat = strlen sp := by
    simpa using Nat.mod_eq_of_lt hSize
  have hPrefix : cString sp <+: sp := List.takeWhile_prefix _
  have hTake : sp.take (strlen sp) = cString sp := (List.prefix_iff_eq_take.mp hPrefix).symm
  have hOpaque : Emits (xdrOpaque .encode sp (strlen sp) : Fallible σ _) sp
      (padded (cString sp)) := by
    rw [← hTake]
    exact emits_xdrOpaque hPrefix.length_le
  refine (emits_xdrInteger id id _).bind (Emits.require ?_ ?_)
  · rw [Option.getD_some, hToNat]
    omega
  · rw [Option.getD_some, hToNat]
    exact hOpaque.bind_pure rfl

theorem emits_xdrUnion {choices : List (BitVec 32 × XdrProc σ β)}
    {dfault : Option (XdrProc σ β)} {dscm : BitVec 32} {proc : XdrProc σ β}
    {unp unp' : β} {bs : List UInt8} (hArm : unionArm choices dfault dscm = some proc)
    (h : Emits (proc .encode unp) unp' bs) :
    Emits (xdrUnion choices dfault .encode (dscm, unp)) (dscm, unp')
      (Word.toBytes dscm ++ bs) := by
  refine (emits_xdrInteger id id dscm).bind ?_
  simp only [hArm]
  exact h.bind_pure rfl

end Filters

/-! ### Reading -/

/-- Taking bytes off the stream does not leave `P`. -/
structure ReadsStay {σ : Type} [XdrOps σ] (P : σ → Prop) : Prop where
  getlong : Stays P (XdrOps.getlong : Fallible σ (BitVec 32))
  getbytes : ∀ n, Stays P (XdrOps.getbytes n : Fallible σ (List UInt8))

section Reading

variable {σ : Type} [XdrOps σ] {P : σ → Prop}

theorem ReadsStay.xdrInteger (h : ReadsStay P) {w : Nat} (toLong : BitVec w → BitVec 32)
    (ofLong : BitVec 32 → BitVec w) (v : BitVec w) :
    Stays P (xdrInteger toLong ofLong .decode v) :=
  h.getlong.bind fun l => Stays.pure (ofLong l)

theorem ReadsStay.xdrOpaque (h : ReadsStay P) (cp : List UInt8) (cnt : Nat) :
    Stays P (xdrOpaque .decode cp cnt) := by
  unfold OncRpc.xdrOpaque
  refine Stays.ite (Stays.pure _) ((h.getbytes cnt).bind fun bs => ?_)
  exact Stays.ite (Stays.pure _) ((h.getbytes _).bind fun _ => Stays.pure _)

theorem ReadsStay.xdrString (h : ReadsStay P) (maxsize : Nat) (cpp : Option (List UInt8)) :
    Stays P (xdrString maxsize .decode cpp) := by
  unfold OncRpc.xdrString
  refine (h.xdrInteger id id _).bind fun size => (Stays.require _).bind fun _ => ?_
  exact Stays.ite (Stays.pure _) ((h.xdrOpaque _ _).bind fun sp => Stays.pure _)

theorem ReadsStay.xdrBytes (h : ReadsStay P) (maxsize : Nat)
    (obj : Option (List UInt8) × BitVec 32) : Stays P (xdrBytes maxsize .decode obj) := by
  unfold OncRpc.xdrBytes
  refine (h.xdrInteger id id _).bind fun size => (Stays.require _).bind fun _ => ?_
  exact Stays.ite (Stays.pure _) ((h.xdrOpaque _ _).bind fun bs => Stays.pure _)

end Reading

/-! ### Every stream at once -/

/-- A filter with what it is applied to, for whatever stream there is. -/
abbrev XdrFilter (α : Type) := ∀ (σ : Type) [XdrOps σ], Fallible σ α

/-- A filter emits these bytes on every stream. -/
def EmitsAll {α : Type} (m : XdrFilter α) (a : α) (bs : List UInt8) : Prop :=
  ∀ (σ : Type) [XdrOps σ] [XdrSink σ], Emits (m σ) a bs

/-- A filter that only reads. -/
def ReadsOnly {α : Type} (m : XdrFilter α) : Prop :=
  ∀ (σ : Type) [XdrOps σ] (P : σ → Prop), ReadsStay P → Stays P (m σ)

/-! ### Blocks of memory, and bytes alone -/

namespace XdrMem

theorem length_append_le {bs cs : List UInt8} {s : XdrMem} (hBs : bs.length ≤ s.handy)
    (hCs : cs.length ≤ (s.put bs).handy) : (bs ++ cs).length ≤ s.handy := by
  rw [handy_put] at hCs
  rw [List.length_append]
  omega

theorem le_handy_put_iff {bs : List UInt8} {s : XdrMem} {n : Nat} (hBs : bs.length ≤ s.handy) :
    n ≤ (s.put bs).handy ↔ bs.length + n ≤ s.handy := by
  rw [handy_put]
  omega

theorem Within.priv_add_length_le {s : XdrMem} (hs : s.Within) {n : Nat} (hFits : n ≤ s.handy)
    {a b : List UInt8} (hLen : a.length + b.length ≤ n) : s.priv + a.length ≤ s.base.length := by
  have hWithin : s.priv + s.handy ≤ s.base.length := hs
  omega

instance : XdrSink XdrMem where
  Ready := Within
  Fits n s := n ≤ s.handy
  Step bs s s' := bs.length ≤ s.handy ∧ s.Within ∧ s' = s.put bs
  step_nil := fun {s} hs => ⟨Nat.zero_le _, hs, (put_nil s).symm⟩
  step_append := by
    rintro bs cs s s₁ s₂ ⟨hBs, hs, rfl⟩ ⟨hCs, -, rfl⟩
    exact ⟨length_append_le hBs hCs, hs, put_put hs hBs⟩
  ready_step := by
    rintro bs s s' - ⟨hBs, hs, rfl⟩
    exact within_put hs hBs
  fits_step := by
    rintro bs s s' n ⟨hBs, -, rfl⟩
    exact le_handy_put_iff hBs
  fits_zero := Nat.zero_le _
  fits_mono hFits hLe := hLe.trans hFits
  run_putlong := by
    intro s w hs
    by_cases hFits : 4 ≤ s.handy
    · exact Or.inl ⟨hFits, _, run_putlong hFits, hFits, hs, rfl⟩
    · refine Or.inr ⟨hFits, ?_⟩
      simp only [Fallible.run, putlong, xdrmemPutlong, if_pos (Nat.not_le.mp hFits)]
  run_putbytes := by
    intro s bs hs
    by_cases hFits : bs.length ≤ s.handy
    · exact Or.inl ⟨hFits, _, run_putbytes hFits, hFits, hs, rfl⟩
    · refine Or.inr ⟨hFits, ?_⟩
      simp only [Fallible.run, putbytes, xdrmemPutbytes, if_pos (Nat.not_le.mp hFits)]
  run_inline := by
    intro s n hs
    by_cases hGiven : s.aligned = true ∧ n ≤ s.handy
    · obtain ⟨hAligned, hFits⟩ := hGiven
      refine Or.inr ⟨hFits, s.priv, { s with handy := s.handy - n, priv := s.priv + n }, ?_,
        ?_, ?_, ?_⟩
      · simp [Fallible.run, XdrOps.inline, hAligned, xdrmemInlineAligned, hFits]
      · rintro bs rfl
        exact ⟨hFits, hs, rfl⟩
      · simp [XdrOps.store]
      · intro a b hLen
        have hStore : s.priv + a.length ≤ s.base.length := hs.priv_add_length_le hFits hLen
        simp only [XdrOps.store, Buffer.writeAt_writeAt hStore]
    · refine Or.inl ?_
      cases hAligned : s.aligned with
      | false => simp [Fallible.run, XdrOps.inline, hAligned, xdrmemInlineUnaligned, pure]
      | true =>
          have hFull : ¬ n ≤ s.handy := fun hFits => hGiven ⟨hAligned, hFits⟩
          simp [Fallible.run, XdrOps.inline, hAligned, xdrmemInlineAligned, hFull]

/-- Reading moves the position inside the same block. -/
theorem readsStay (block : List UInt8) (aligned : Bool) (stop : Nat) :
    ReadsStay fun s : XdrMem =>
      s.base = block ∧ s.aligned = aligned ∧ s.priv + s.handy = stop where
  getlong := by
    rintro s ⟨hBase, hAligned, hStop⟩
    simp only [Fallible.run, getlong, xdrmemGetlong]
    split
    · exact ⟨hBase, hAligned, hStop⟩
    · exact ⟨hBase, hAligned, by dsimp only; omega⟩
  getbytes := by
    rintro n s ⟨hBase, hAligned, hStop⟩
    simp only [Fallible.run, getbytes, xdrmemGetbytes]
    split
    · exact ⟨hBase, hAligned, hStop⟩
    · exact ⟨hBase, hAligned, by dsimp only; omega⟩

end XdrMem

namespace ByteStream

/-- Bytes alone always have room. -/
instance : XdrSink ByteStream where
  Ready _ := True
  Fits _ _ := True
  Step bs t t' := t' = t ++ bs
  step_nil := by
    intro t _
    exact (List.append_nil t).symm
  step_append := by
    rintro bs cs t _ _ rfl rfl
    exact List.append_assoc t bs cs
  ready_step _ _ := trivial
  fits_step _ := Iff.rfl
  fits_zero := trivial
  fits_mono _ _ := trivial
  run_putlong _ _ := Or.inl ⟨trivial, _, rfl, rfl⟩
  run_putbytes _ _ := Or.inl ⟨trivial, _, rfl, rfl⟩
  run_inline _ _ := Or.inl rfl

end ByteStream

/-- What is put on a stream of bytes alone is the encoding itself. -/
theorem Emits.run_byteStream {α : Type} {m : Fallible ByteStream α} {a : α} {bs : List UInt8}
    (h : Emits m a bs) : m.run [] = (some a, bs) := by
  rcases h [] trivial with ⟨-, t, hRun, hStep⟩ | ⟨hFull, -⟩
  · rw [hRun, show t = bs from hStep]
  · exact absurd trivial hFull

end OncRpc
