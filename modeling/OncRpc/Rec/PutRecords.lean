import OncRpc.Rec.PutScript

/-! Ends of records. A script that ends with a send succeeds exactly when an `int`
can count every buffer it flushes, and then what it has sent are its records. -/
namespace OncRpc.RecStrm

open Fallible RecordMarking

/-- The end of the last record sends what the buffer holds. -/
def LastSent (rs : List PutRecord) : Prop := ∀ r, rs.getLast? = some r → r.sendnow = true

/-- The stream whose end of a record is not flushed. -/
def marked (s : RecStrm) : RecStrm :=
  { s with
    outBase := Buffer.writeAt s.outBase s.fragHeader
      (Word.toBytes (header (s.outFinger - s.fragHeader - 4) true))
    fragHeader := s.outFinger
    outFinger := s.outFinger + 4 }

/-- `xdrrec_endofrecord` flushes or only stores the header. -/
theorem run_xdrrecEndofrecord (sendnow : Bool) (s : RecStrm) :
    (xdrrecEndofrecord sendnow).run s =
      if sendnow || s.fragSent || decide (s.outFinger + 4 ≥ s.outBoundry) then
        (flushOut true).run (s.setFragSent false)
      else (some (), s.marked) := by
  unfold xdrrecEndofrecord
  rw [run_bind_gets]
  split
  · rw [run_bind_modify]
  · rfl

/-- A closed header that stays in the buffer is followed by the next one. -/
theorem Writing.marked {fs : List Fragment} {cur : List UInt8} {s : RecStrm}
    (h : Writing fs cur s) (hRoom : s.outFinger + 4 < s.outBoundry)
    (hFits : cur.length < 2 ^ 31) : Writing (fs ++ [⟨cur, true, hFits⟩]) [] s.marked := by
  have hBoundry := h.boundry_eq
  have hFinger := h.finger_eq
  have hLen : s.outFinger - s.fragHeader - 4 = cur.length := by omega
  exact {
    boundry_eq := by
      show s.outBoundry = (Buffer.writeAt _ _ _).length
      rw [Buffer.length_writeAt (by rw [Word.length_toBytes]; omega), hBoundry]
    boundry_min := h.boundry_min
    boundry_max := h.boundry_max
    finger_eq := rfl
    finger_le := hRoom.le
    closed_eq := by
      show s.tcp.written ++ (Buffer.writeAt _ _ _).take s.outFinger = _
      rw [hLen]
      exact h.take_closed true hFits
    open_eq := rfl
    room := fun _ => hRoom
    writable := h.writable }

theorem endofrecord_emits {fs : List Fragment} {cur : List UInt8} {s : RecStrm}
    (h : Writing fs cur s) (sendnow : Bool) (hInt : s.Countable) :
    ∃ s', (xdrrecEndofrecord sendnow).run s = (some (), s') ∧
      Writing (fs ++ [⟨cur, true, h.length_lt hInt⟩]) [] s' ∧
      (sendnow = true → s'.fragHeader = 0) := by
  rw [run_xdrrecEndofrecord]
  by_cases hFlush : (sendnow || s.fragSent || decide (s.outFinger + 4 ≥ s.outBoundry)) = true
  · obtain ⟨hRun, hNext⟩ := h.run_flush false true hInt
    rw [if_pos hFlush]
    exact ⟨_, hRun, hNext, fun _ => rfl⟩
  · rw [if_neg hFlush]
    simp only [Bool.or_eq_true, decide_eq_true_eq, not_or] at hFlush
    obtain ⟨⟨hSend, -⟩, hRoom⟩ := hFlush
    exact ⟨_, rfl, h.marked (by omega) (h.length_lt hInt), fun hNow => absurd hNow hSend⟩

/-- Every flush of the record, and its end, finds a countable buffer. -/
def PutRecord.Fits (r : PutRecord) (s : RecStrm) : Prop :=
  OpsMeet PutOp.Fits r.ops s ∧ ((runPuts r.ops).run s).2.Countable

/-- No put of the record closes an empty fragment. -/
def PutRecord.Filled (r : PutRecord) (s : RecStrm) : Prop := OpsMeet PutOp.Filled r.ops s

/-- The end of the record finds something in the open fragment. -/
def PutRecord.EndFilled (r : PutRecord) (s : RecStrm) : Prop :=
  ¬ ((runPuts r.ops).run s).2.EmptyFragment

instance (r : PutRecord) (s : RecStrm) : Decidable (r.Fits s) :=
  inferInstanceAs (Decidable (_ ∧ _))

instance (r : PutRecord) (s : RecStrm) : Decidable (r.Filled s) :=
  inferInstanceAs (Decidable (OpsMeet _ _ _))

instance (r : PutRecord) (s : RecStrm) : Decidable (r.EndFilled s) :=
  inferInstanceAs (Decidable (¬ _))

/-- A record of the script becomes a record on the wire. -/
theorem PutRecord.run_emits (r : PutRecord) {fs : List Fragment} {s : RecStrm}
    (h : Writing fs [] s) (hFits : r.Fits s) :
    ∃ (sent : Record) (s' : RecStrm), r.run.run s = (some sent.body, s') ∧
      Writing (fs ++ sent.frags) [] s' ∧ (r.sendnow = true → s'.fragHeader = 0) ∧
      ((∃ f ∈ sent.more, f.body = []) ↔ ¬ r.Filled s) ∧
      (sent.final.body = [] ↔ ¬ r.EndFilled s) := by
  obtain ⟨hOps, hInt⟩ := hFits
  obtain ⟨put, gs, cur', s₁, hRun, hEmit, hEmpty⟩ := runPuts_emits r.ops h hOps
  rw [hRun] at hInt
  obtain ⟨s₂, hEnd, hWriting, hSent⟩ := endofrecord_emits hEmit.writing r.sendnow hInt
  have hBody : gs.flatMap Fragment.body ++ cur' = put := by
    simpa using hEmit.bytes_eq
  refine ⟨⟨gs, ⟨cur', true, hEmit.writing.length_lt hInt⟩, hEmit.more, rfl⟩, s₂, ?_, ?_, hSent,
    hEmpty, ?_⟩
  · rw [PutRecord.run, run_bind_some hRun, run_bind_some hEnd, run_pure, Record.body_eq, hBody]
  · rw [Record.frags, ← List.append_assoc]
    exact hWriting
  · rw [PutRecord.EndFilled, not_not, hRun, hEmit.writing.emptyFragment_iff]

/-- What a script makes of the stream: its records are sent or wait in the buffer,
and an empty fragment stands where the conditions before the steps say so. -/
theorem runRecords_emits (rs : List PutRecord) {fs : List Fragment} {s : RecStrm}
    (h : Writing fs [] s) (hFits : RecordsMeet PutRecord.Fits rs s) :
    ∃ (sent : List Record) (s' : RecStrm),
      (runRecords rs).run s = (some (sent.map Record.body), s') ∧
      Writing (fs ++ sent.flatMap Record.frags) [] s' ∧
      (rs ≠ [] → LastSent rs → s'.fragHeader = 0) ∧
      ((∃ r ∈ sent, ∃ f ∈ r.more, f.body = []) ↔ ¬ RecordsMeet PutRecord.Filled rs s) ∧
      ((∃ r ∈ sent, r.final.body = []) ↔ ¬ RecordsMeet PutRecord.EndFilled rs s) := by
  induction rs generalizing fs s with
  | nil => exact ⟨[], s, rfl, by simpa using h, fun hNe => absurd rfl hNe, by simp [RecordsMeet]⟩
  | cons r rs ih =>
      obtain ⟨hFit, hRest⟩ := hFits
      obtain ⟨sent, s₁, hRun, hWriting, hSent, hMore, hFinal⟩ := r.run_emits h hFit
      rw [hRun] at hRest
      obtain ⟨sents, s₂, hRuns, hAll, hLast, hMores, hFinals⟩ := ih hWriting hRest
      refine ⟨sent :: sents, s₂, ?_, ?_, ?_, ?_, ?_⟩
      · rw [runRecords, run_bind_some hRun, run_bind_some hRuns, run_pure, List.map_cons]
      · rw [List.flatMap_cons, ← List.append_assoc]
        exact hAll
      · intro _ hLastSent
        cases rs with
        | nil =>
            obtain rfl : s₁ = s₂ := congrArg Prod.snd hRuns
            exact hSent (hLastSent r rfl)
        | cons r' rs => exact hLast (List.cons_ne_nil r' rs) hLastSent
      · rw [RecordsMeet, hRun, List.exists_mem_cons_iff, hMore, hMores]
        exact not_and_or.symm
      · rw [RecordsMeet, hRun, List.exists_mem_cons_iff, hFinal, hFinals]
        exact not_and_or.symm

/-! ### A buffer that cannot be counted -/

/-- The buffer holds more than an `int` can count. -/
structure Overfull (s : RecStrm) : Prop where
  beyond : 2 ^ 31 ≤ s.outFinger
  finger_le : s.outFinger ≤ s.outBoundry
  boundry_max : s.outBoundry < 2 ^ 32

theorem Overfull.flush_fails {s : RecStrm} (h : s.Overfull) (sent eor : Bool) :
    ((flushOut eor).run (s.setFragSent sent)).1 = none :=
  flushOut_oversized eor h.beyond (Nat.lt_of_le_of_lt h.finger_le h.boundry_max)

theorem Overfull.storeOut {s : RecStrm} (h : s.Overfull) {bs : List UInt8}
    (hFit : bs.length ≤ s.outRoom) : (s.storeOut bs).Overfull where
  beyond := Nat.le_trans h.beyond (Nat.le_add_right _ _)
  finger_le := by
    have hFinger := h.finger_le
    unfold outRoom at hFit
    show s.outFinger + bs.length ≤ s.outBoundry
    omega
  boundry_max := h.boundry_max

theorem putlong_overfull (l : BitVec 32) : Keeps Overfull (xdrrecPutlong l) := by
  apply Keeps.bind_gets
  intro s h
  by_cases hFull : s.outFinger + 4 > s.outBoundry
  · refine Or.inl ?_
    rw [if_pos (decide_eq_true hFull), run_bind_modify]
    exact fst_run_bind (h.flush_fails true false)
  · refine Or.inr ?_
    rw [if_neg (by simpa using hFull), run_modify]
    apply h.storeOut
    show 4 ≤ s.outBoundry - s.outFinger
    omega

theorem putbytesLoop_overfull (fuel : Nat) (addr : List UInt8) :
    Keeps Overfull (putbytesLoop fuel addr) := by
  intro s h
  cases addr with
  | nil => exact Or.inr (by rwa [putbytesLoop_nil])
  | cons b bs =>
      cases fuel with
      | zero => exact Or.inl rfl
      | succ fuel =>
          by_cases hAll : (b :: bs).length < s.outRoom
          · refine Or.inr ?_
            rw [putbytesLoop_fits fuel hAll]
            exact h.storeOut hAll.le
          · have hRoom : s.outRoom ≤ (b :: bs).length := Nat.not_lt.mp hAll
            have hStore : (s.storeOut ((b :: bs).take s.outRoom)).Overfull := h.storeOut (by
              rw [List.length_take]
              exact Nat.min_le_left _ _)
            refine Or.inl ?_
            rw [(putbytesLoop_full fuel h.finger_le hRoom).2]
            exact fst_run_bind (hStore.flush_fails true false)

theorem PutOp.run_overfull (op : PutOp) : Keeps Overfull op.run := by
  cases op with
  | long l => exact (putlong_overfull l).bind fun _ => Keeps.pure _
  | bytes addr => exact (putbytesLoop_overfull _ addr).bind fun _ => Keeps.pure _
  | inline bs =>
      intro s h
      rw [PutOp.run_inline]
      by_cases hFit : s.outFinger + bs.length ≤ s.outBoundry
      · rw [if_pos hFit]
        refine Or.inr (h.storeOut ?_)
        unfold outRoom
        omega
      · rw [if_neg hFit]
        exact Or.inr h

theorem runPuts_overfull (ops : List PutOp) : Keeps Overfull (runPuts ops) := by
  induction ops with
  | nil => exact Keeps.pure []
  | cons op ops ih => exact op.run_overfull.bind fun _ => ih.bind fun _ => Keeps.pure _

/-- The end of a record fails or leaves the bytes where they are. -/
theorem endofrecord_overfull {s : RecStrm} (h : s.Overfull) (sendnow : Bool) :
    ((xdrrecEndofrecord sendnow).run s).1 = none ∨
      (sendnow = false ∧ ((xdrrecEndofrecord sendnow).run s).2.Overfull) := by
  rw [run_xdrrecEndofrecord]
  by_cases hFlush : (sendnow || s.fragSent || decide (s.outFinger + 4 ≥ s.outBoundry)) = true
  · rw [if_pos hFlush]
    exact Or.inl (h.flush_fails false true)
  · rw [if_neg hFlush]
    simp only [Bool.or_eq_true, decide_eq_true_eq, not_or] at hFlush
    obtain ⟨⟨hSend, -⟩, hRoom⟩ := hFlush
    have hOver := h.beyond
    refine Or.inr ⟨Bool.eq_false_iff.mpr hSend, ?_, ?_, h.boundry_max⟩
    · show 2 ^ 31 ≤ s.outFinger + 4
      omega
    · show s.outFinger + 4 ≤ s.outBoundry
      omega

/-- A record that ends so is not sent, and the buffer stays too large. -/
theorem Overfull.of_endofrecord {sendnow : Bool} {s s' : RecStrm} (h : s.Overfull)
    (hEnd : (xdrrecEndofrecord sendnow).run s = (some (), s')) :
    sendnow = false ∧ s'.Overfull := by
  have hStep := endofrecord_overfull h sendnow
  rw [hEnd] at hStep
  exact hStep.resolve_left (by simp)

/-- Behind a record that is not sent there is one that is. -/
theorem LastSent.behind {r : PutRecord} {rs : List PutRecord} (h : LastSent (r :: rs))
    (hSend : r.sendnow = false) : rs ≠ [] ∧ LastSent rs := by
  cases rs with
  | nil =>
      have hNow := h r rfl
      rw [hSend] at hNow
      cases hNow
  | cons r' rs => exact ⟨List.cons_ne_nil r' rs, h⟩

/-- A script that begins like this cannot end with a send. -/
theorem runRecords_overfull (rs : List PutRecord) {s : RecStrm} (h : s.Overfull) (hNe : rs ≠ [])
    (hLast : LastSent rs) : ((runRecords rs).run s).1 = none := by
  induction rs generalizing s with
  | nil => exact absurd rfl hNe
  | cons r rs ih =>
      rcases hRun : (runRecords (r :: rs)).run s with ⟨_ | bodies, s'⟩
      · rfl
      · obtain ⟨body, s₂, rest, hRecord, hRest, -⟩ := exists_of_runRecords hRun
        obtain ⟨s₁, hPuts, hEnd⟩ := PutRecord.exists_of_run hRecord
        have hKeep := runPuts_overfull r.ops s h
        rw [hPuts] at hKeep
        obtain ⟨hSend, hOver⟩ := (hKeep.resolve_left (by simp)).of_endofrecord hEnd
        obtain ⟨hMore, hLater⟩ := hLast.behind hSend
        have hNone := ih hOver hMore hLater
        rw [hRest] at hNone
        cases hNone

/-- A put that would flush more than an `int` can count fails. -/
theorem PutOp.unfit_fails (op : PutOp) {fs : List Fragment} {cur : List UInt8} {s : RecStrm}
    (h : Writing fs cur s) (hUnfit : ¬ op.Fits s) : (op.run.run s).1 = none := by
  have hFinger := h.finger_le
  have hMax := h.boundry_max
  cases op with
  | long l =>
      simp only [PutOp.Fits, Countable, Classical.not_imp, not_lt] at hUnfit
      obtain ⟨hFull, hInt⟩ := hUnfit
      have hOver : s.Overfull := ⟨hInt, hFinger, hMax⟩
      apply fst_run_bind
      rw [xdrrecPutlong, run_bind_gets, if_pos (decide_eq_true hFull), run_bind_modify]
      exact fst_run_bind (hOver.flush_fails true false)
  | bytes addr =>
      simp only [PutOp.Fits, Classical.not_imp, not_lt] at hUnfit
      obtain ⟨hNe, hRoom, hInt⟩ := hUnfit
      obtain ⟨b, bs, rfl⟩ := List.exists_cons_of_ne_nil hNe
      obtain ⟨hEnd, hLoop⟩ := putbytesLoop_full ((b :: bs).length + 1) hFinger hRoom
      have hOver : (s.storeOut ((b :: bs).take s.outRoom)).Overfull :=
        ⟨hEnd ▸ hInt, hEnd.le, hMax⟩
      apply fst_run_bind
      show ((putbytesLoop ((b :: bs).length + 1 + 1) (b :: bs)).run s).1 = none
      rw [hLoop]
      exact fst_run_bind (hOver.flush_fails true false)
  | inline bs => exact absurd trivial hUnfit

/-- Puts that succeed could count what they flushed. -/
theorem runPuts_fits (ops : List PutOp) {fs : List Fragment} {cur put : List UInt8}
    {s s' : RecStrm} (h : Writing fs cur s) (hRun : (runPuts ops).run s = (some put, s')) :
    OpsMeet PutOp.Fits ops s := by
  induction ops generalizing fs cur put s with
  | nil => trivial
  | cons op ops ih =>
      obtain ⟨first, s₁, rest, hFirst, hRest, -⟩ := exists_of_runPuts hRun
      have hFit : op.Fits s := by
        by_contra hUnfit
        have hNone := op.unfit_fails h hUnfit
        rw [hFirst] at hNone
        cases hNone
      obtain ⟨put', gs, cur', s₁', hRun', hEmit, -⟩ := op.run_emits h hFit
      obtain rfl : s₁ = s₁' := congrArg Prod.snd (hFirst.symm.trans hRun')
      refine ⟨hFit, ?_⟩
      rw [hFirst]
      exact ih hEmit.writing hRest

/-- A script that ends with a send succeeds only when every step could count what
it had to: a buffer that grows too large stays too large. -/
theorem runRecords_fits (rs : List PutRecord) {fs : List Fragment} {s s' : RecStrm}
    {bodies : List (List UInt8)} (h : Writing fs [] s) (hLast : LastSent rs)
    (hRun : (runRecords rs).run s = (some bodies, s')) : RecordsMeet PutRecord.Fits rs s := by
  induction rs generalizing fs s bodies with
  | nil => trivial
  | cons r rs ih =>
      obtain ⟨body, s₂, rest, hRecord, hRest, -⟩ := exists_of_runRecords hRun
      obtain ⟨s₁, hPuts, hEnd⟩ := PutRecord.exists_of_run hRecord
      have hOps := runPuts_fits r.ops h hPuts
      obtain ⟨put, gs, cur', s₁', hPuts', hEmit, -⟩ := runPuts_emits r.ops h hOps
      obtain rfl : s₁ = s₁' := congrArg Prod.snd (hPuts.symm.trans hPuts')
      have hInt : s₁.Countable := by
        by_contra hOver
        have hFull : s₁.Overfull :=
          ⟨Nat.not_lt.mp hOver, hEmit.writing.finger_le, hEmit.writing.boundry_max⟩
        obtain ⟨hSend, hStay⟩ := hFull.of_endofrecord hEnd
        obtain ⟨hMore, hLater⟩ := hLast.behind hSend
        have hNone := runRecords_overfull rs hStay hMore hLater
        rw [hRest] at hNone
        cases hNone
      have hFit : r.Fits s := ⟨hOps, by rwa [hPuts]⟩
      obtain ⟨sent, s₂', hSent, hWriting, -⟩ := r.run_emits h hFit
      obtain rfl : s₂ = s₂' := congrArg Prod.snd (hRecord.symm.trans hSent)
      refine ⟨hFit, ?_⟩
      rw [hRecord]
      cases rs with
      | nil => trivial
      | cons r' rs => exact ih hWriting hLast hRest

end OncRpc.RecStrm
