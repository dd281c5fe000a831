import OncRpc.Rec.PutRecords
import OncRpc.Xdr.Sink

/-! The output side of a record stream has room for everything: what does not fit the
buffer is sent in fragments. The input side is moved without it. -/
namespace OncRpc.RecStrm

open Fallible RecordMarking

/-- A property that no step of the output side can break. -/
def SparedByOutput (P : RecStrm → Prop) : Prop :=
  ∀ s written outBase outFinger fragHeader fragSent, P s →
    P { s with
      tcp := { s.tcp with written := written }
      outBase := outBase
      outFinger := outFinger
      fragHeader := fragHeader
      fragSent := fragSent }

/-- The end of the output buffer is a constant of the stream. -/
theorem sparedByOutput_outBoundry (n : Nat) : SparedByOutput fun s => s.outBoundry = n :=
  fun _ _ _ _ _ _ h => h

section Output

variable {P : RecStrm → Prop}

theorem SparedByOutput.storeOut (hP : SparedByOutput P) (bs : List UInt8) :
    Stays P (modify (storeOut bs)) :=
  Stays.modify fun s h => hP s s.tcp.written _ _ s.fragHeader s.fragSent h

theorem SparedByOutput.setFragSent (hP : SparedByOutput P) (sent : Bool) :
    Stays P (modify (setFragSent sent)) :=
  Stays.modify fun s h => hP s s.tcp.written s.outBase s.outFinger s.fragHeader sent h

theorem stays_flushOut (hP : SparedByOutput P) (eor : Bool) : Stays P (flushOut eor) := by
  intro s h
  simp only [Fallible.run, flushOut, Transport.writeit]
  split
  · rename_i tcp hWrite
    split at hWrite
    · cases hWrite
      exact hP s s.tcp.written _ s.outFinger s.fragHeader s.fragSent h
    · cases hWrite
  · rename_i tcp hWrite
    split at hWrite
    · cases hWrite
    · cases hWrite
      exact hP s _ _ 4 0 s.fragSent h

theorem stays_flushFragment (hP : SparedByOutput P) {α : Type} {m : Fallible RecStrm α}
    (h : Stays P m) :
    Stays P (do
      modify (setFragSent true)
      flushOut false
      m) :=
  (hP.setFragSent true).bind fun _ => (stays_flushOut hP false).bind fun _ => h

theorem stays_xdrrecPutlong (hP : SparedByOutput P) (w : BitVec 32) :
    Stays P (xdrrecPutlong w) := by
  have hStore := hP.storeOut (Word.toBytes w)
  exact (Stays.gets _).bind fun full => Stays.ite (stays_flushFragment hP hStore) hStore

theorem stays_putbytesLoop (hP : SparedByOutput P) (fuel : Nat) (addr : List UInt8) :
    Stays P (putbytesLoop fuel addr) := by
  induction fuel generalizing addr with
  | zero =>
      cases addr with
      | nil => exact Stays.pure ()
      | cons b bs => exact Stays.fail
  | succ fuel ih =>
      cases addr with
      | nil => exact Stays.pure ()
      | cons b bs =>
          refine (Stays.gets _).bind fun room => ?_
          refine (hP.storeOut _).bind fun _ => (Stays.gets _).bind fun full => ?_
          exact Stays.ite (stays_flushFragment hP (ih _)) (ih _)

theorem stays_xdrrecEndofrecord (hP : SparedByOutput P) (sendnow : Bool) :
    Stays P (xdrrecEndofrecord sendnow) := by
  refine (Stays.gets _).bind fun flush => Stays.ite ?_ ?_
  · exact (hP.setFragSent false).bind fun _ => stays_flushOut hP true
  · exact Stays.modify fun s h => hP s s.tcp.written _ _ _ s.fragSent h

end Output

/-- A property that neither a refill of the buffer nor a move over it can break. -/
structure SparedByMoves (P : RecStrm → Prop) : Prop where
  finger : ∀ s n, P s → P { s with inFinger := n }
  fbtbc : ∀ s n, P s → P { s with fbtbc := n }
  fill : Stays P fillInputBuf

namespace SparedByMoves

variable {P : RecStrm → Prop} (hP : SparedByMoves P)
include hP

theorem takeInput (n : Nat) : Stays P (takeInput n) :=
  fun s h => hP.finger s (s.inFinger + n) h

theorem takeFragment (current : Nat) :
    Stays P (modify fun s => { s with fbtbc := s.fbtbc - current }) :=
  Stays.modify fun s h => hP.fbtbc s _ h

theorem getInputLoop (fuel len : Nat) : Stays P (getInputLoop fuel len) := by
  induction fuel generalizing len with
  | zero =>
      cases len with
      | zero => exact Stays.pure []
      | succ n => exact Stays.fail
  | succ fuel ih =>
      cases len with
      | zero => exact Stays.pure []
      | succ n =>
          refine (Stays.gets _).bind fun d => Stays.ite ?_ ?_
          · exact hP.fill.bind fun _ => ih _
          · exact (hP.takeInput _).bind fun bs => (ih _).bind fun rest => Stays.pure _

theorem getInputBytes (len : Nat) : Stays P (getInputBytes len) := by
  refine (Stays.gets _).bind fun nonblock => Stays.ite ?_ (hP.getInputLoop _ _)
  exact (Stays.gets _).bind fun d => (Stays.require _).bind fun _ => hP.takeInput len

theorem getbytesLoop (hFragment : Stays P setInputFragment) (fuel len : Nat) :
    Stays P (getbytesLoop fuel len) := by
  induction fuel generalizing len with
  | zero =>
      cases len with
      | zero => exact Stays.pure []
      | succ n => exact Stays.fail
  | succ fuel ih =>
      cases len with
      | zero => exact Stays.pure []
      | succ n =>
          refine (Stays.gets _).bind fun current => Stays.ite ?_ ?_
          · refine (Stays.gets _).bind fun last => (Stays.require _).bind fun _ => ?_
            exact hFragment.bind fun _ => ih _
          · refine (hP.getInputBytes _).bind fun bs => ?_
            exact (hP.takeFragment _).bind fun _ => (ih _).bind fun rest => Stays.pure _

theorem xdrrecGetlong (hFragment : Stays P setInputFragment) : Stays P xdrrecGetlong := by
  refine (Stays.gets _).bind fun fast => Stays.ite ?_ ?_
  · refine (hP.takeInput 4).bind fun bs => ?_
    exact (hP.takeFragment 4).bind fun _ => Stays.pure _
  · exact (hP.getbytesLoop hFragment _ 4).bind fun bs => Stays.pure _

theorem skipInputLoop (fuel cnt : Nat) : Stays P (skipInputLoop fuel cnt) := by
  induction fuel generalizing cnt with
  | zero =>
      cases cnt with
      | zero => exact Stays.pure ()
      | succ n => exact Stays.fail
  | succ fuel ih =>
      cases cnt with
      | zero => exact Stays.pure ()
      | succ n =>
          refine (Stays.gets _).bind fun current => Stays.ite ?_ ?_
          · exact hP.fill.bind fun _ => ih _
          · exact (Stays.modify fun s h => hP.finger s _ h).bind fun _ => ih _

theorem skipRecordLoop (hFragment : Stays P setInputFragment) (fuel : Nat) :
    Stays P (skipRecordLoop fuel) := by
  induction fuel with
  | zero => exact Stays.fail
  | succ fuel ih =>
      refine (Stays.gets _).bind fun more => Stays.ite ?_ (Stays.pure ())
      refine (Stays.gets _).bind fun cnt => (hP.skipInputLoop _ _).bind fun _ => ?_
      refine (Stays.modify fun s h => hP.fbtbc s 0 h).bind fun _ => ?_
      refine (Stays.gets _).bind fun last => Stays.ite ih ?_
      exact hFragment.bind fun _ => ih

end SparedByMoves

/-- `s'` is `s` with `bs` put into its open record. -/
structure PutOn (bs : List UInt8) (s s' : RecStrm) : Prop where
  boundry_eq : s'.outBoundry = s.outBoundry
  emitted : ∀ fs cur, Writing fs cur s → ∃ gs cur', Emitted fs cur bs gs cur' s'

/-- A stream in the middle of a record, whose buffer an `int` can count. -/
def ReadyToPut (s : RecStrm) : Prop := (∃ fs cur, Writing fs cur s) ∧ s.outBoundry < 2 ^ 31

theorem PutOn.storeOut {s : RecStrm} {bs : List UInt8} (hFit : bs.length ≤ s.outRoom) :
    PutOn bs s (s.storeOut bs) where
  boundry_eq := rfl
  emitted := fun _ cur h => ⟨[], cur ++ bs, Emitted.kept (h.storeOut bs hFit)⟩

theorem PutOn.append {bs cs : List UInt8} {s s₁ s₂ : RecStrm} (h : PutOn bs s s₁)
    (h' : PutOn cs s₁ s₂) : PutOn (bs ++ cs) s s₂ where
  boundry_eq := h'.boundry_eq.trans h.boundry_eq
  emitted := by
    intro fs cur hWriting
    obtain ⟨gs, cur₁, hEmit⟩ := h.emitted fs cur hWriting
    obtain ⟨gs', cur₂, hEmit'⟩ := h'.emitted _ _ hEmit.writing
    exact ⟨gs ++ gs', cur₂, hEmit.append hEmit'⟩

theorem ReadyToPut.putOn {bs : List UInt8} {s s' : RecStrm} (h : ReadyToPut s)
    (hPut : PutOn bs s s') : ReadyToPut s' := by
  obtain ⟨⟨fs, cur, hWriting⟩, hInt⟩ := h
  obtain ⟨gs, cur', hEmit⟩ := hPut.emitted fs cur hWriting
  exact ⟨⟨_, _, hEmit.writing⟩, hPut.boundry_eq ▸ hInt⟩

theorem ReadyToPut.run_putlong {s : RecStrm} (h : ReadyToPut s) (w : BitVec 32) :
    ∃ s', (xdrrecPutlong w).run s = (some (), s') ∧ PutOn (Word.toBytes w) s s' := by
  obtain ⟨⟨fs, cur, hWriting⟩, hInt⟩ := h
  have hCount : s.Countable := Nat.lt_of_le_of_lt hWriting.finger_le hInt
  obtain ⟨-, -, s', hRun, -, -⟩ := putlong_emits hWriting w fun _ => hCount
  refine ⟨s', hRun, ?_, ?_⟩
  · have hStay := stays_xdrrecPutlong (sparedByOutput_outBoundry s.outBoundry) w s rfl
    rwa [hRun] at hStay
  · intro fs cur hWriting
    obtain ⟨gs, cur', s'', hRun', hEmit, -⟩ := putlong_emits hWriting w fun _ => hCount
    obtain rfl : s' = s'' := congrArg Prod.snd (hRun.symm.trans hRun')
    exact ⟨gs, cur', hEmit⟩

theorem ReadyToPut.run_putbytes {s : RecStrm} (h : ReadyToPut s) (bs : List UInt8) :
    ∃ s', (xdrrecPutbytes bs).run s = (some (), s') ∧ PutOn bs s s' := by
  obtain ⟨⟨fs, cur, hWriting⟩, hInt⟩ := h
  have hFuel : bs.length < bs.length + 2 ∨ 0 < s.outRoom ∧ bs.length ≤ bs.length + 2 :=
    Or.inl (by omega)
  obtain ⟨-, -, s', hRun, -, -⟩ :=
    putbytesLoop_emits (bs.length + 2) bs hWriting (fun _ _ => hInt) hFuel
  refine ⟨s', hRun, ?_, ?_⟩
  · have hStay := stays_putbytesLoop (sparedByOutput_outBoundry s.outBoundry) (bs.length + 2) bs s rfl
    rwa [hRun] at hStay
  · intro fs cur hWriting
    obtain ⟨gs, cur', s'', hRun', hEmit, -⟩ :=
      putbytesLoop_emits (bs.length + 2) bs hWriting (fun _ _ => hInt) hFuel
    obtain rfl : s' = s'' := congrArg Prod.snd (hRun.symm.trans hRun')
    exact ⟨gs, cur', hEmit⟩

/-- Room for an inline request is room in the buffer. -/
theorem ReadyToPut.run_inline {s : RecStrm} (h : ReadyToPut s) (n : Nat) :
    (xdrrecInline .encode n).run s = (some none, s) ∨
    ∃ buf s', (xdrrecInline .encode n).run s = (some (some buf), s') ∧
      (∀ bs, bs.length = n → PutOn bs s (XdrOps.store buf bs s')) ∧
      XdrOps.store buf [] s' = s' ∧
      ∀ a b, a.length + b.length ≤ n → XdrOps.store (buf + a.length) b (XdrOps.store buf a s') =
        XdrOps.store buf (a ++ b) s' := by
  obtain ⟨⟨fs, cur, hWriting⟩, -⟩ := h
  have hBoundry := hWriting.boundry_eq
  by_cases hFit : s.outFinger + n ≤ s.outBoundry
  · refine Or.inr ⟨s.outFinger, { s with outFinger := s.outFinger + n }, ?_, ?_, ?_, ?_⟩
    · simp only [Fallible.run, xdrrecInline, if_pos hFit]
    · rintro bs rfl
      apply PutOn.storeOut
      unfold outRoom
      omega
    · simp [XdrOps.store]
    · intro a b hLen
      have hStore : s.outFinger + a.length ≤ s.outBase.length := by omega
      simp only [XdrOps.store, Buffer.writeAt_writeAt hStore]
  · refine Or.inl ?_
    simp only [Fallible.run, xdrrecInline, if_neg hFit]

instance : XdrSink RecStrm where
  Ready := ReadyToPut
  Fits _ _ := True
  Step := PutOn
  step_nil := by
    intro s _
    refine ⟨rfl, fun fs cur h => ⟨[], cur ++ [], Emitted.kept ?_⟩⟩
    rwa [List.append_nil]
  step_append := PutOn.append
  ready_step := ReadyToPut.putOn
  fits_step _ := Iff.rfl
  fits_zero := trivial
  fits_mono _ _ := trivial
  run_putlong w h := Or.inl ⟨trivial, h.run_putlong w⟩
  run_putbytes bs h := Or.inl ⟨trivial, h.run_putbytes bs⟩
  run_inline n h := (h.run_inline n).imp_right fun hSome => ⟨trivial, hSome⟩

/-- A record of which `bs` is put and which is then sent. -/
theorem Writing.sends {α : Type} {m : Fallible RecStrm α} {a : α} {bs : List UInt8}
    {fs : List Fragment} {s : RecStrm} (hWriting : Writing fs [] s) (hInt : s.outBoundry < 2 ^ 31)
    (h : Emits m a bs) :
    ∃ s₁ s₂ r, m.run s = (some a, s₁) ∧ (xdrrecEndofrecord true).run s₁ = (some (), s₂) ∧
      Record.body r = bs ∧ Writing (fs ++ r.frags) [] s₂ ∧ s₂.fragHeader = 0 ∧
      s₂.outBoundry = s.outBoundry := by
  rcases h s ⟨⟨fs, [], hWriting⟩, hInt⟩ with ⟨-, s₁, hRun, hPut⟩ | ⟨hFull, -⟩
  · obtain ⟨gs, cur, hEmit⟩ := hPut.emitted fs [] hWriting
    have hCount : s₁.Countable :=
      Nat.lt_of_le_of_lt hEmit.writing.finger_le (hPut.boundry_eq ▸ hInt)
    obtain ⟨s₂, hEnd, hNext, hSent⟩ := endofrecord_emits hEmit.writing true hCount
    have hStay := stays_xdrrecEndofrecord (sparedByOutput_outBoundry s.outBoundry) true s₁ hPut.boundry_eq
    rw [hEnd] at hStay
    refine ⟨s₁, s₂, ⟨gs, ⟨cur, true, hEmit.writing.length_lt hCount⟩, hEmit.more, rfl⟩, hRun,
      hEnd, ?_, ?_, hSent rfl, hStay⟩
    · rw [Record.body_eq]
      exact hEmit.bytes_eq
    · rw [Record.frags, ← List.append_assoc]
      exact hNext
  · exact absurd trivial hFull

/-! ### Reading -/

/-- Everything that puts and ends of records work on. -/
def outSide (s : RecStrm) : (List UInt8 × Nat × Nat) × (Nat × Bool) × (List UInt8 × Bool) :=
  ((s.outBase, s.outFinger, s.outBoundry), (s.fragHeader, s.fragSent),
    (s.tcp.written, s.tcp.writable))

theorem Writing.of_outSide {fs : List Fragment} {cur : List UInt8} {s s' : RecStrm}
    (h : Writing fs cur s) (hSame : s'.outSide = s.outSide) : Writing fs cur s' := by
  simp only [outSide, Prod.mk.injEq] at hSame
  obtain ⟨⟨hBase, hFinger, hBoundry⟩, ⟨hHeader, -⟩, hWritten, hWritable⟩ := hSame
  exact {
    boundry_eq := by rw [hBoundry, hBase, h.boundry_eq]
    boundry_min := hBoundry ▸ h.boundry_min
    boundry_max := hBoundry ▸ h.boundry_max
    finger_eq := by rw [hFinger, hHeader, h.finger_eq]
    finger_le := by
      rw [hFinger, hBoundry]
      exact h.finger_le
    closed_eq := by rw [hWritten, hBase, hHeader, h.closed_eq]
    open_eq := by rw [hBase, hHeader, h.open_eq]
    room := by
      rw [hFinger, hBoundry]
      exact h.room
    writable := hWritable ▸ h.writable }

section Reading

variable {out : (List UInt8 × Nat × Nat) × (Nat × Bool) × (List UInt8 × Bool)}

/-- A read from the line sends nothing over it. -/
theorem readit_written (len : Int) (t : Transport) :
    ((Transport.readit len).run t).2.written = t.written ∧
    ((Transport.readit len).run t).2.writable = t.writable := by
  simp only [Fallible.run, Transport.readit]
  split
  · exact ⟨rfl, rfl⟩
  · split
    · exact ⟨rfl, rfl⟩
    · split
      · exact ⟨rfl, rfl⟩
      · exact ⟨rfl, rfl⟩
      · split <;> exact ⟨rfl, rfl⟩

theorem stays_fillInputBuf : Stays (fun s => s.outSide = out) fillInputBuf := by
  intro s h
  simp only [Fallible.run, fillInputBuf]
  split
  · exact h
  · have hLine := readit_written (BitVec.ofNat 32 (s.inSize - s.inBoundry % bytesPerXdrUnit)).toInt
      s.tcp
    split
    · next tcp hRead =>
        rw [show (Transport.readit _).run s.tcp = _ from hRead] at hLine
        obtain ⟨hWritten, hWritable⟩ := hLine
        dsimp only at hWritten hWritable
        rw [← h, outSide, outSide, hWritten, hWritable]
    · next bs tcp hRead =>
        rw [show (Transport.readit _).run s.tcp = _ from hRead] at hLine
        obtain ⟨hWritten, hWritable⟩ := hLine
        dsimp only at hWritten hWritable
        rw [← h, outSide, outSide, refilled, hWritten, hWritable]

theorem sparedByMoves_outSide : SparedByMoves fun s => s.outSide = out where
  finger _ _ h := h
  fbtbc _ _ h := h
  fill := stays_fillInputBuf

theorem stays_setInputFragment : Stays (fun s => s.outSide = out) setInputFragment := by
  refine (Stays.gets _).bind fun nonblock => (Stays.require _).bind fun _ => ?_
  refine (sparedByMoves_outSide.getInputBytes 4).bind fun bs => ?_
  have hLast (header : BitVec 32) : Stays (fun s : RecStrm => s.outSide = out)
      (modify fun s => { s with lastFrag := !decide (header &&& lastFragBit = 0) }) :=
    Stays.modify fun _ h => h
  have hLeft (header : BitVec 32) : Stays (fun s : RecStrm => s.outSide = out)
      (modify fun s => { s with fbtbc := (header &&& ~~~lastFragBit).toNat }) :=
    Stays.modify fun _ h => h
  exact (hLast _).bind fun _ => (Stays.require _).bind fun _ => hLeft _

/-- Whatever is read, the output side stays as it is. -/
theorem readsStay : ReadsStay fun s : RecStrm => s.outSide = out where
  getlong := sparedByMoves_outSide.xdrrecGetlong stays_setInputFragment
  getbytes n := sparedByMoves_outSide.getbytesLoop stays_setInputFragment _ n

end Reading

end OncRpc.RecStrm
