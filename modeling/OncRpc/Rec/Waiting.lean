import OncRpc.Rec.Reader
import OncRpc.Rec.Sink

/-! A blocking stream on which whole records arrive. A read that fails is counted off, and none
is as long as a record is being read. -/
namespace OncRpc

open Fallible RecordMarking

/-- A read of a connection that waits fails on it. -/
def Arrival.fails : Arrival → Bool
  | .data bs => bs.isEmpty
  | .error => true

namespace Transport

/-- How many reads are going to fail. -/
def failures (as : List Arrival) : Nat := as.countP Arrival.fails

theorem failures_cons_of_fails {a : Arrival} (h : a.fails = true) (as : List Arrival) :
    failures (a :: as) = failures as + 1 := List.countP_cons_of_pos h

theorem failures_cons_data {bs : List UInt8} (h : bs ≠ []) (as : List Arrival) :
    failures (.data bs :: as) = failures as := by
  apply List.countP_cons_of_neg
  simpa [Arrival.fails] using h

theorem failures_leave (bs : List UInt8) (len : Nat) (rest : List Arrival) :
    failures (leave bs len rest) = failures rest := by
  unfold leave
  split
  · rfl
  · apply failures_cons_data
    rw [Ne, List.drop_eq_nil_iff]
    omega

/-- Behind the bytes that are ready a read fails, and `as` comes behind it. -/
structure EndsBefore (as bs : List Arrival) : Prop where
  failures_eq : failures bs = failures as + 1
  afterReady_eq : afterReady bs = as

/-- The bytes of pieces that are not empty all are ready, and the error comes behind them. -/
theorem endsBefore_append_error {as : List Arrival} (h : failures as = 0) :
    EndsBefore [] (as ++ [.error]) ∧ ready (as ++ [.error]) = ready as := by
  induction as with
  | nil => exact ⟨⟨rfl, rfl⟩, rfl⟩
  | cons a as ih =>
      have hData : a.fails = false ∧ failures as = 0 := by
        cases hFails : a.fails with
        | false => exact ⟨rfl, by rwa [failures, List.countP_cons_of_neg (by simp [hFails])] at h⟩
        | true => rw [failures_cons_of_fails hFails] at h; omega
      obtain ⟨hSome, hRest⟩ := hData
      obtain ⟨⟨hCount, hAfter⟩, hReady⟩ := ih hRest
      rcases a with (_ | ⟨b, bs⟩) | _
      · cases hSome
      · refine ⟨⟨?_, hAfter⟩, ?_⟩
        · exact (failures_cons_data (List.cons_ne_nil b bs) _).trans hCount
        · exact congrArg (b :: bs ++ ·) hReady
      · cases hSome

/-- What comes last is the read that fails; without it none does. -/
theorem EndsBefore.dropLast {as : List Arrival} (h : EndsBefore [] as) :
    failures as.dropLast = 0 ∧ ready as.dropLast = ready as := by
  obtain ⟨hCount, hAfter⟩ := h
  induction as with
  | nil => cases hCount
  | cons a as ih =>
      rcases a with (_ | ⟨b, bs⟩) | _
      · obtain rfl : as = [] := hAfter
        exact ⟨rfl, rfl⟩
      · rw [failures_cons_data (List.cons_ne_nil b bs)] at hCount
        obtain ⟨hZero, hReady⟩ := ih hCount hAfter
        have hSome : as ≠ [] := by
          rintro rfl
          cases hCount
        rw [List.dropLast_cons_of_ne_nil hSome]
        refine ⟨?_, congrArg (b :: bs ++ ·) hReady⟩
        rw [failures_cons_data (List.cons_ne_nil b bs), hZero]
      · obtain rfl : as = [] := hAfter
        exact ⟨rfl, rfl⟩

/-- Pieces that are not empty come behind what is there. -/
theorem ready_append_data {as : List Arrival} (h : failures as = 0) {pieces : List (List UInt8)}
    (hPieces : ∀ p ∈ pieces, p ≠ []) :
    failures (as ++ pieces.map .data) = 0 ∧
      ready (as ++ pieces.map .data) = ready as ++ pieces.flatten := by
  induction as with
  | nil =>
      induction pieces with
      | nil => exact ⟨rfl, rfl⟩
      | cons p pieces ih =>
          obtain ⟨hZero, hReady⟩ := ih fun q hq => hPieces q (List.mem_cons_of_mem p hq)
          have hSome := hPieces p List.mem_cons_self
          obtain ⟨b, bs, rfl⟩ := List.exists_cons_of_ne_nil hSome
          refine ⟨(failures_cons_data hSome _).trans hZero, ?_⟩
          exact congrArg (b :: bs ++ ·) hReady
  | cons a as ih =>
      rcases a with (_ | ⟨b, bs⟩) | _
      · rw [failures_cons_of_fails rfl] at h
        cases h
      · rw [failures_cons_data (List.cons_ne_nil b bs)] at h
        obtain ⟨hZero, hReady⟩ := ih h
        refine ⟨(failures_cons_data (List.cons_ne_nil b bs) _).trans hZero, ?_⟩
        have hBehind := congrArg (b :: bs ++ ·) hReady
        exact hBehind.trans (List.append_assoc _ _ _).symm
      · rw [failures_cons_of_fails rfl] at h
        cases h

/-- A read that yields something does not fail. -/
theorem EndsBefore.after_readit {len : Int} {t t' : Transport} {as : List Arrival} {bs : List UInt8}
    (hEnds : EndsBefore as t.arrivals) (hLine : t.nonblock = false)
    (h : (readit len).run t = (some bs, t')) :
    EndsBefore as t'.arrivals ∧ t'.nonblock = false := by
  rcases Int.lt_trichotomy len 0 with hNeg | rfl | hPos
  · have hRun : (readit len).run t = (none, t) := if_pos hNeg
    rw [hRun] at h
    cases h
  · cases h
    exact ⟨hEnds, hLine⟩
  · obtain ⟨n, rfl⟩ := Int.eq_ofNat_of_zero_le (Int.le_of_lt hPos)
    rw [run_readit (Int.natCast_pos.mp hPos)] at h
    rcases hArr : t.arrivals with _ | ⟨(_ | ⟨b, cs⟩) | _, rest⟩
    · simp [hArr, hLine] at h
    · simp [hArr, hLine] at h
    · simp only [hArr, reduceCtorEq, if_false, Prod.mk.injEq, Option.some.injEq] at h
      obtain ⟨-, rfl⟩ := h
      rw [hArr] at hEnds
      refine ⟨⟨?_, ?_⟩, hLine⟩
      · rw [failures_leave, ← hEnds.failures_eq, failures_cons_data (List.cons_ne_nil b cs)]
      · rw [afterReady_leave, ← hEnds.afterReady_eq]
        rfl
    · simp [hArr] at h

end Transport

namespace RecStrm

open Transport

variable {tail : List UInt8} {as : List Arrival}

/-! ### Reads that succeed -/

/-- The stream waits for its input until a read fails. -/
structure Waits (as : List Arrival) (s : RecStrm) : Prop where
  nonblock : s.nonblock = false
  line : s.tcp.nonblock = false
  ends : EndsBefore as s.tcp.arrivals

theorem keeps_fillInputBuf : Keeps (Waits as) fillInputBuf := by
  intro s h
  simp only [Fallible.run, fillInputBuf, h.nonblock, Bool.false_eq_true, if_false]
  split
  · exact Or.inl rfl
  · next bs tcp hRead =>
      obtain ⟨hEnds, hLine⟩ := h.ends.after_readit h.line hRead
      exact Or.inr ⟨h.nonblock, hLine, hEnds⟩

theorem keeps_gets {α : Type} (f : RecStrm → α) : Keeps (Waits as) (gets f) := fun _ h => Or.inr h

theorem keeps_require (c : Prop) [Decidable c] : Keeps (Waits as) (require c) := fun _ h => Or.inr h

theorem keeps_takeInput (k : Nat) : Keeps (Waits as) (takeInput k) :=
  fun _ h => Or.inr ⟨h.nonblock, h.line, h.ends⟩

theorem keeps_getInputLoop (fuel len : Nat) : Keeps (Waits as) (getInputLoop fuel len) := by
  induction fuel generalizing len with
  | zero =>
      cases len with
      | zero => exact Keeps.pure []
      | succ len => exact fun _ _ => Or.inl rfl
  | succ fuel ih =>
      cases len with
      | zero => exact Keeps.pure []
      | succ len =>
          refine (keeps_gets _).bind fun d => ?_
          split
          · exact keeps_fillInputBuf.bind fun _ => ih _
          · exact (keeps_takeInput _).bind fun bs => (ih _).bind fun rest => Keeps.pure _

theorem keeps_getInputBytes (len : Nat) : Keeps (Waits as) (getInputBytes len) := by
  refine (keeps_gets _).bind fun nonblock => ?_
  split
  · refine (keeps_gets _).bind fun d => (keeps_require _).bind fun _ => ?_
    exact keeps_takeInput len
  · exact keeps_getInputLoop _ _

theorem keeps_setInputFragment : Keeps (Waits as) setInputFragment := by
  refine (keeps_gets _).bind fun nonblock => (keeps_require _).bind fun _ => ?_
  refine (keeps_getInputBytes 4).bind fun bs => ?_
  refine (Keeps.modify fun s h => ⟨h.nonblock, h.line, h.ends⟩).bind fun _ => ?_
  exact (keeps_require _).bind fun _ => Keeps.modify fun s h => ⟨h.nonblock, h.line, h.ends⟩

theorem keeps_skipInputLoop (fuel cnt : Nat) : Keeps (Waits as) (skipInputLoop fuel cnt) := by
  induction fuel generalizing cnt with
  | zero =>
      cases cnt with
      | zero => exact Keeps.pure ()
      | succ cnt => exact fun _ _ => Or.inl rfl
  | succ fuel ih =>
      cases cnt with
      | zero => exact Keeps.pure ()
      | succ cnt =>
          refine (keeps_gets _).bind fun current => ?_
          split
          · exact keeps_fillInputBuf.bind fun _ => ih _
          · refine (Keeps.modify fun s h => ⟨h.nonblock, h.line, h.ends⟩).bind fun _ => ?_
            exact ih _

theorem keeps_skipRecordLoop (fuel : Nat) : Keeps (Waits as) (skipRecordLoop fuel) := by
  induction fuel with
  | zero => exact fun _ _ => Or.inl rfl
  | succ fuel ih =>
      refine (keeps_gets _).bind fun more => ?_
      split
      · refine (keeps_gets _).bind fun cnt => (keeps_skipInputLoop _ _).bind fun _ => ?_
        refine (Keeps.modify fun s h => ⟨h.nonblock, h.line, h.ends⟩).bind fun _ => ?_
        refine (keeps_gets _).bind fun last => ?_
        split
        · exact ih
        · exact keeps_setInputFragment.bind fun _ => ih
      · exact Keeps.pure ()

/-- What succeeds has had no read fail. -/
theorem Waits.of_run {α : Type} {m : Fallible RecStrm α} {s s' : RecStrm} {a : α}
    (h : Waits as s) (hKeeps : Keeps (Waits as) m) (hRun : m.run s = (some a, s')) :
    Waits as s' := by
  have hKept := hKeeps s h
  rw [hRun] at hKept
  exact hKept.resolve_left nofun

/-! ### Reads inside of a record -/

/-- The stream stands in a record, with `tail` behind it. -/
structure InRecord (as : List Arrival) (tail : List UInt8) (s : RecStrm) : Prop where
  reading : ∃ t, Reading tail s t
  ends : EndsBefore as s.tcp.arrivals

theorem InRecord.waits {s : RecStrm} (h : InRecord as tail s) : Waits as s := by
  obtain ⟨t, hRead⟩ := h.reading
  exact ⟨hRead.blocking.nonblock, hRead.blocking.line, h.ends⟩

/-- Between two fragments the next header is there. -/
theorem InRecord.setInputFragment {s : RecStrm} (h : InRecord as tail s) (hDone : s.fbtbc = 0)
    (hMore : s.lastFrag = false) :
    ∃ s', setInputFragment.run s = (some (), s') ∧ InRecord as tail s' := by
  obtain ⟨t, hRead⟩ := h.reading
  obtain ⟨s', hRun, hRead', -, -⟩ := setInputFragment_reading hRead hDone hMore
  exact ⟨s', hRun, ⟨t, hRead'⟩, (h.waits.of_run keeps_setInputFragment hRun).ends⟩

/-- Bytes of the current fragment are there. -/
theorem InRecord.getInputBytes {s : RecStrm} (h : InRecord as tail s) {k : Nat}
    (hk : k ≤ s.fbtbc) :
    ∃ bs s', (getInputBytes k).run s = (some bs, s') ∧
      InRecord as tail { s' with fbtbc := s'.fbtbc - k } := by
  obtain ⟨t, hRead⟩ := h.reading
  obtain ⟨s', hGet, hCons⟩ :=
    (getInputBytes_delivers hRead.blocking k).1 (hk.trans hRead.fbtbc_le.1)
  refine ⟨_, s', hGet, ⟨_, hRead.advance hk hCons⟩, ?_⟩
  exact (h.waits.of_run (keeps_getInputBytes k) hGet).ends

theorem stays_getbytesLoop (fuel len : Nat) :
    Stays (InRecord as tail) (getbytesLoop fuel len) := by
  induction fuel generalizing len with
  | zero =>
      cases len with
      | zero => exact Stays.pure []
      | succ len => exact Stays.fail
  | succ fuel ih =>
      cases len with
      | zero => exact Stays.pure []
      | succ len =>
          intro s h
          simp only [getbytesLoop, run_bind_gets]
          by_cases hDone : s.fbtbc = 0
          · simp only [if_pos hDone, run_bind_gets, run_bind_require]
            cases hLast : s.lastFrag with
            | true => exact h
            | false =>
                obtain ⟨s₁, hRun, hIn⟩ := h.setInputFragment hDone hLast
                simp only [if_true, run_bind_some hRun]
                exact ih _ s₁ hIn
          · rw [if_neg hDone]
            have hRoom : (if len + 1 < s.fbtbc then len + 1 else s.fbtbc) ≤ s.fbtbc := by
              split <;> omega
            generalize (if len + 1 < s.fbtbc then len + 1 else s.fbtbc) = current at hRoom ⊢
            obtain ⟨bs, s₁, hGet, hIn⟩ := h.getInputBytes hRoom
            rw [run_bind_some hGet, run_bind_modify]
            exact ((ih _).bind fun rest => Stays.pure _) _ hIn

theorem stays_xdrrecGetlong : Stays (InRecord as tail) xdrrecGetlong := by
  intro s h
  simp only [xdrrecGetlong, run_bind_gets]
  split
  · next hFast =>
      obtain ⟨hFrag, hBuf⟩ := of_decide_eq_true hFast
      obtain ⟨t, hRead⟩ := h.reading
      obtain ⟨s₁, hTake, hCons⟩ := takeInput_consumed hRead.blocking hBuf
      have hWaits := h.waits.of_run (keeps_takeInput 4) hTake
      rw [run_bind_some hTake]
      exact ⟨⟨_, hRead.advance hFrag hCons⟩, hWaits.ends⟩
  · exact ((stays_getbytesLoop _ 4).bind fun bs => Stays.pure _) s h

/-- Decoding does not leave the record, whether it fails or not. -/
theorem readsStay_inRecord : ReadsStay (InRecord as tail) where
  getlong := stays_xdrrecGetlong
  getbytes len := stays_getbytesLoop _ len

/-- Skipping the record brings the stream in front of what is behind it. -/
theorem InRecord.xdrrecSkiprecord {s : RecStrm} (h : InRecord as tail s) :
    ∃ s', xdrrecSkiprecord.run s = (some (), s') ∧ AtRecord tail s' ∧
      EndsBefore as s'.tcp.arrivals := by
  obtain ⟨t, hRead⟩ := h.reading
  obtain ⟨s', hRun, hAt⟩ := xdrrecSkiprecord_reading hRead
  refine ⟨s', hRun, hAt, ?_⟩
  simp only [Fallible.run, RecStrm.xdrrecSkiprecord, hRead.blocking.nonblock, Bool.false_eq_true,
    if_false] at hRun
  split at hRun
  · cases hRun
  · next s₁ hLoop =>
      cases hRun
      exact (h.waits.of_run (keeps_skipRecordLoop _) hLoop).ends

/-! ### In front of a record -/

/-- Where nothing is ready the read of a header fails. -/
theorem AtRecord.setInputFragment {s : RecStrm} (h : AtRecord [] s) :
    ∃ s', setInputFragment.run s = (none, s') ∧ AtRecord (Transport.ready s'.tcp.arrivals) s' ∧
      s'.tcp.arrivals = afterReady s.tcp.arrivals := by
  obtain ⟨s', hGet, hDrain⟩ := (getInputBytes_delivers h.blocking 4).2 (by
    rw [h.ready_eq]
    decide)
  refine ⟨s', ?_, ?_, hDrain.arrivals_eq⟩
  · simp only [RecStrm.setInputFragment, run_bind_gets, run_bind_require,
      if_pos h.blocking.nonblock]
    exact run_bind_none hGet
  · refine ⟨hDrain.blocking, hDrain.fbtbc_eq.trans h.fbtbc_eq,
      hDrain.lastFrag_eq.trans h.lastFrag_eq, ?_⟩
    rw [RecStrm.ready, hDrain.buffered_eq, List.nil_append]

theorem AtRecord.xdrrecGetlong {s : RecStrm} (h : AtRecord [] s) :
    ∃ s', xdrrecGetlong.run s = (none, s') ∧ AtRecord (Transport.ready s'.tcp.arrivals) s' ∧
      s'.tcp.arrivals = afterReady s.tcp.arrivals := by
  obtain ⟨s', hRun, hAt⟩ := h.setInputFragment
  refine ⟨s', ?_, hAt⟩
  have hSlow : decide (s.fbtbc ≥ 4 ∧ s.inBoundry - s.inFinger ≥ 4) = false := by
    rw [h.fbtbc_eq]
    rfl
  have hBytes : (xdrrecGetbytes 4).run s = (none, s') := by
    simp only [xdrrecGetbytes, getbytesLoop, run_bind_gets, h.fbtbc_eq, if_true, h.lastFrag_eq,
      run_bind_require]
    exact run_bind_none hRun
  simp only [RecStrm.xdrrecGetlong, run_bind_gets, hSlow, Bool.false_eq_true, if_false]
  exact run_bind_none hBytes

/-- Where nothing is ready a record can not be skipped. -/
theorem AtRecord.xdrrecSkiprecord {s : RecStrm} (h : AtRecord [] s) :
    ∃ s', xdrrecSkiprecord.run s = (none, s') ∧ AtRecord (Transport.ready s'.tcp.arrivals) s' ∧
      s'.tcp.arrivals = afterReady s.tcp.arrivals := by
  have hZero : AtRecord [] { s with fbtbc := 0 } :=
    ⟨{ h.blocking with }, rfl, h.lastFrag_eq, h.ready_eq⟩
  obtain ⟨s', hRun, hAt⟩ := hZero.setInputFragment
  refine ⟨s', ?_, hAt⟩
  have hLoop : skipRecord.run s = (none, s') := by
    show (skipRecordLoop (s.input.length + 2)).run s = _
    have hMore : (decide (s.fbtbc > 0) || !s.lastFrag) = true := by simp [h.lastFrag_eq]
    have hSkip : (skipInputBytes s.fbtbc).run s = (some (), s) := by
      rw [h.fbtbc_eq]
      rfl
    have hOn : ¬ s.lastFrag = true := by simp [h.lastFrag_eq]
    rw [skipRecordLoop, run_bind_gets, if_pos hMore, run_bind_gets, run_bind_some hSkip,
      run_bind_modify, run_bind_gets, if_neg hOn]
    exact run_bind_none hRun
  simp only [Fallible.run, RecStrm.xdrrecSkiprecord, h.blocking.nonblock, Bool.false_eq_true,
    if_false]
  rw [show skipRecord s = _ from hLoop]

end RecStrm
end OncRpc
