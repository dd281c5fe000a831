import OncRpc.Rec.Stream

/-! A non-blocking stream that holds the rest of a record in its input buffer.
Nothing is read from the connection any more until the record is done. -/
namespace OncRpc.RecStrm

open Fallible

/-- The buffer holds the bytes `t` of the record, and they are the last ones. -/
structure Holding (s : RecStrm) (t : List UInt8) : Prop where
  nonblock : s.nonblock = true
  lastFrag : s.lastFrag = true
  fbtbc_eq : s.fbtbc = t.length
  boundry_eq : s.inBoundry = s.inFinger + t.length
  within : s.inBoundry ≤ s.inBase.length
  bytes_eq : Buffer.readAt s.inBase s.inFinger t.length = t

theorem Holding.take_eq {s : RecStrm} {t : List UInt8} (h : Holding s t) {k : Nat}
    (hk : k ≤ t.length) : Buffer.readAt s.inBase s.inFinger k = t.take k := by
  have hTake := Buffer.readAt_take s.inBase s.inFinger k t.length hk
  rw [h.bytes_eq] at hTake
  exact hTake.symm

/-- The stream past `n` bytes of its buffer. -/
def took (n : Nat) (s : RecStrm) : RecStrm :=
  { s with inFinger := s.inFinger + n, fbtbc := s.fbtbc - n }

theorem took_took (m n : Nat) (s : RecStrm) : (s.took m).took n = s.took (m + n) := by
  unfold took
  rw [Nat.add_assoc, Nat.sub_sub]

theorem Holding.took {s : RecStrm} {t : List UInt8} (h : Holding s t) {k : Nat}
    (hk : k ≤ t.length) : Holding (s.took k) (t.drop k) where
  nonblock := h.nonblock
  lastFrag := h.lastFrag
  fbtbc_eq := by
    show s.fbtbc - k = _
    rw [List.length_drop, ← h.fbtbc_eq]
  boundry_eq := by
    have hBoundry := h.boundry_eq
    rw [List.length_drop]
    show s.inBoundry = s.inFinger + k + _
    omega
  within := h.within
  bytes_eq := by
    have hDrop := Buffer.readAt_drop s.inBase s.inFinger k t.length
    rw [h.bytes_eq] at hDrop
    rw [List.length_drop]
    exact hDrop.symm

/-- `get_input_bytes` copies what the buffer holds. -/
theorem getInputBytes_holding {s : RecStrm} {t : List UInt8} (h : Holding s t) {k : Nat}
    (hk : k ≤ t.length) :
    (getInputBytes k).run s = (some (t.take k), { s with inFinger := s.inFinger + k }) := by
  have hRoom : ¬ k > s.inBoundry - s.inFinger := by
    have hBoundry := h.boundry_eq
    omega
  unfold getInputBytes
  rw [run_bind_gets, if_pos h.nonblock, run_bind_gets, run_bind_require, if_pos hRoom]
  simp only [Fallible.run, takeInput, h.take_eq hk]

theorem getbytesLoop_end {s : RecStrm} (h : Holding s []) (fuel n : Nat) :
    (getbytesLoop fuel (n + 1)).run s = (none, s) := by
  have hDone : s.fbtbc = 0 := h.fbtbc_eq
  cases fuel with
  | zero => rfl
  | succ fuel =>
      simp [getbytesLoop, hDone, h.lastFrag, run_bind_require]

/-- A request is served from the buffer at once, or it uses up what the buffer holds
and finds the record too short. -/
theorem xdrrecGetbytes_holding {s : RecStrm} {t : List UInt8} (h : Holding s t) (n : Nat) :
    (n ≤ t.length → (xdrrecGetbytes n).run s = (some (t.take n), s.took n)) ∧
    (t.length < n → (xdrrecGetbytes n).run s = (none, s.took t.length)) := by
  have hLen := h.fbtbc_eq
  unfold xdrrecGetbytes
  cases n with
  | zero => exact ⟨fun _ => rfl, fun hLt => absurd hLt (Nat.not_lt_zero _)⟩
  | succ n =>
      by_cases hDone : s.fbtbc = 0
      · obtain rfl : t = [] := List.length_eq_zero_iff.mp (hLen.symm.trans hDone)
        refine ⟨fun hLe => absurd hLe (Nat.not_succ_le_zero n), fun _ => ?_⟩
        rw [getbytesLoop_end h]
        rfl
      · have hWhich : (if n + 1 < s.fbtbc then n + 1 else s.fbtbc) = n + 1 ∧ n + 1 ≤ t.length ∨
            (if n + 1 < s.fbtbc then n + 1 else s.fbtbc) = t.length ∧ t.length ≤ n + 1 := by
          split
          · exact Or.inl ⟨rfl, by omega⟩
          · exact Or.inr ⟨hLen, by omega⟩
        simp only [getbytesLoop, run_bind_gets]
        rw [if_neg hDone]
        generalize (if n + 1 < s.fbtbc then n + 1 else s.fbtbc) = current at hWhich ⊢
        have hLe : current ≤ t.length := by omega
        have hNext := h.took hLe
        rw [run_bind_some (getInputBytes_holding h hLe), run_bind_modify,
          show ({ s with inFinger := s.inFinger + current, fbtbc := s.fbtbc - current } : RecStrm) =
            s.took current from rfl]
        by_cases hAll : n + 1 = current
        · have hNone : getbytesLoop (2 * (n + 1)) (n + 1 - current) = pure [] := by
            rw [hAll, Nat.sub_self]
            cases 2 * current <;> rfl
          rw [hNone, run_bind_pure, run_pure, List.append_nil, hAll]
          exact ⟨fun _ => rfl, fun hLt => absurd hLt (Nat.not_lt.mpr hLe)⟩
        · obtain ⟨m, hMore⟩ : ∃ m, n + 1 - current = m + 1 := ⟨n - current, by omega⟩
          have hWhole : current = t.length := by omega
          rw [List.drop_of_length_le hWhole.ge] at hNext
          refine ⟨fun hEnough => absurd hEnough (by omega), fun _ => ?_⟩
          rw [hMore, run_bind_none (getbytesLoop_end hNext (2 * (n + 1)) m), hWhole]

/-- A word comes out of the buffer on either path. -/
theorem xdrrecGetlong_holding {s : RecStrm} {t : List UInt8} (h : Holding s t) :
    (4 ≤ t.length → xdrrecGetlong.run s = (some (Word.ofBytes (t.take 4)), s.took 4)) ∧
    (t.length < 4 → xdrrecGetlong.run s = (none, s.took t.length)) := by
  obtain ⟨-, hShort⟩ := xdrrecGetbytes_holding h 4
  have hBoundry := h.boundry_eq
  have hLen := h.fbtbc_eq
  unfold xdrrecGetlong
  rw [run_bind_gets]
  constructor
  · intro hLe
    have hTest : decide (s.fbtbc ≥ 4 ∧ s.inBoundry - s.inFinger ≥ 4) = true :=
      decide_eq_true ⟨by omega, by omega⟩
    have hTake : (takeInput 4).run s = (some (t.take 4), { s with inFinger := s.inFinger + 4 }) := by
      simp only [Fallible.run, takeInput, h.take_eq hLe]
    rw [if_pos hTest, run_bind_some hTake, run_bind_modify, run_pure]
    rfl
  · intro hLt
    have hTest : decide (s.fbtbc ≥ 4 ∧ s.inBoundry - s.inFinger ≥ 4) = false :=
      decide_eq_false fun hFast => by omega
    rw [if_neg (by rw [hTest]; exact Bool.false_ne_true)]
    exact run_bind_none (hShort hLt)

theorem xdrrecInline_holding {s : RecStrm} {t : List UInt8} (h : Holding s t) (n : Nat) :
    (xdrrecInline .decode n).run s = (some none, s) ∨
    ((xdrrecInline .decode n).run s = (some (some s.inFinger), s.took n) ∧ n ≤ t.length ∧
      ∀ a k, a + k ≤ n → Buffer.readAt s.inBase (s.inFinger + a) k = (t.drop a).take k) := by
  have hLen := h.fbtbc_eq
  by_cases hFit : n ≤ s.fbtbc ∧ s.inFinger + n ≤ s.inBoundry
  · refine Or.inr ⟨?_, hLen ▸ hFit.1, ?_⟩
    · simp only [Fallible.run, xdrrecInline, if_pos hFit]
      rfl
    · intro a k hak
      rw [← Buffer.readAt_readAt _ _ t.length _ _ (by omega), h.bytes_eq, Buffer.readAt]
  · refine Or.inl ?_
    simp only [Fallible.run, xdrrecInline, if_neg hFit]

/-- `skip_input_bytes` moves over what the buffer holds. -/
theorem skipInputBytes_holding {s : RecStrm} {t : List UInt8} (h : Holding s t) :
    (skipInputBytes t.length).run s = (some (), { s with inFinger := s.inFinger + t.length }) := by
  have hBuf : s.inBoundry - s.inFinger = t.length := by
    rw [h.boundry_eq, Nat.add_sub_cancel_left]
  unfold skipInputBytes
  cases hn : t.length with
  | zero => rfl
  | succ n =>
      rw [hn] at hBuf
      show (skipInputLoop (2 * n + 1 + 1) (n + 1)).run s = _
      simp only [skipInputLoop, run_bind_gets, hBuf]
      rw [if_neg (Nat.succ_ne_zero n), if_neg (Nat.lt_irrefl _), run_bind_modify, Nat.sub_self]
      rfl

theorem skipRecordLoop_done {s : RecStrm} (hDone : s.fbtbc = 0) (hLast : s.lastFrag = true)
    (fuel : Nat) : (skipRecordLoop (fuel + 1)).run s = (some (), s) := by
  simp [skipRecordLoop, hDone, hLast]

/-- `xdrrec_eof` drops what is left of the record and finds nothing behind it. -/
theorem xdrrecEof_holding {s : RecStrm} {t : List UInt8} (h : Holding s t) :
    xdrrecEof s = (true, s.took t.length) := by
  have hEnd : (s.took t.length).inFinger = (s.took t.length).inBoundry := h.boundry_eq.symm
  have hDone : (s.took t.length).fbtbc = 0 := by
    show s.fbtbc - t.length = 0
    rw [h.fbtbc_eq, Nat.sub_self]
  have hState : ({ s with inFinger := s.inFinger + t.length, fbtbc := 0 } : RecStrm) =
      s.took t.length := by
    unfold RecStrm.took
    rw [h.fbtbc_eq, Nat.sub_self]
  have hSkip : skipRecord.run s = (some (), s.took t.length) := by
    show (skipRecordLoop (s.input.length + 1 + 1)).run s = _
    by_cases hNil : s.fbtbc = 0
    · rw [skipRecordLoop_done hNil h.lastFrag, h.fbtbc_eq.symm.trans hNil]
      rfl
    · have hMore : (decide (s.fbtbc > 0) || !s.lastFrag) = true := by
        rw [decide_eq_true (Nat.pos_of_ne_zero hNil), Bool.true_or]
      rw [skipRecordLoop, run_bind_gets, if_pos hMore, run_bind_gets, h.fbtbc_eq,
        run_bind_some (skipInputBytes_holding h), run_bind_modify, hState, run_bind_gets,
        if_pos (show (s.took t.length).lastFrag = true from h.lastFrag)]
      exact skipRecordLoop_done hDone h.lastFrag _
  unfold xdrrecEof
  rw [show skipRecord.run s = _ from hSkip]
  exact Prod.ext (decide_eq_true hEnd) rfl

/-- A non-blocking record stream reads the record it holds, and moves over its buffer
without touching anything else. -/
theorem lawful_holding_took (s₀ : RecStrm) :
    LawfulReader fun s t => Holding s t ∧ ∃ n, s = s₀.took n := by
  apply LawfulReader.of_runs
  · rintro s t ⟨h, m, rfl⟩
    obtain ⟨hEnough, hShort⟩ := xdrrecGetlong_holding h
    refine ⟨fun hLe => ⟨_, hEnough hLe, h.took hLe, m + 4, took_took m 4 s₀⟩, fun hLt => ?_⟩
    exact congrArg Prod.fst (hShort hLt)
  · rintro n s t ⟨h, m, rfl⟩
    obtain ⟨hEnough, hShort⟩ := xdrrecGetbytes_holding h n
    refine ⟨fun hLe => ⟨_, hEnough hLe, h.took hLe, m + n, took_took m n s₀⟩, fun hLt => ?_⟩
    exact congrArg Prod.fst (hShort hLt)
  · rintro n s t ⟨h, m, rfl⟩
    rcases xdrrecInline_holding h n with hRun | ⟨hRun, hLe, hLoads⟩
    · exact Or.inl ⟨_, hRun, h, m, rfl⟩
    · exact Or.inr ⟨_, _, hRun, hLe, ⟨h.took hLe, m + n, took_took m n s₀⟩, hLoads⟩

theorem lawful_holding : LawfulReader Holding := by
  apply LawfulReader.of_runs
  · intro s t h
    obtain ⟨hEnough, hShort⟩ := xdrrecGetlong_holding h
    refine ⟨fun hLe => ⟨_, hEnough hLe, h.took hLe⟩, fun hLt => ?_⟩
    exact congrArg Prod.fst (hShort hLt)
  · intro n s t h
    obtain ⟨hEnough, hShort⟩ := xdrrecGetbytes_holding h n
    refine ⟨fun hLe => ⟨_, hEnough hLe, h.took hLe⟩, fun hLt => ?_⟩
    exact congrArg Prod.fst (hShort hLt)
  · intro n s t h
    rcases xdrrecInline_holding h n with hRun | ⟨hRun, hLe, hLoads⟩
    · exact Or.inl ⟨s, hRun, h⟩
    · exact Or.inr ⟨_, _, hRun, hLe, h.took hLe, hLoads⟩

end OncRpc.RecStrm
