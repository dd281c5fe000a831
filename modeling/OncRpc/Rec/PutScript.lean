import OncRpc.Rec.Writer

/-! Scripts of puts and ends of records, and what they make of the stream. A step
is judged by the state before it: whether it can send what it has to send, and
whether it closes a fragment that is still empty. -/
namespace OncRpc.RecStrm

open Fallible RecordMarking

/-- One put of a caller. A pointer that is refused is not written through. -/
inductive PutOp where
  | long (l : BitVec 32)
  | bytes (addr : List UInt8)
  | inline (bs : List UInt8)
  deriving DecidableEq, Repr

/-- Run a put and return the bytes it has put. -/
def PutOp.run : PutOp → Fallible RecStrm (List UInt8)
  | .long l => do
      xdrrecPutlong l
      pure (Word.toBytes l)
  | .bytes addr => do
      xdrrecPutbytes addr
      pure addr
  | .inline bs => do
      let buf ← xdrrecInline .encode bs.length
      match buf with
      | none => pure []
      | some buf => do
          storeBytes buf bs
          pure bs

def runPuts : List PutOp → Fallible RecStrm (List UInt8)
  | [] => pure []
  | op :: ops => do
      let put ← op.run
      let rest ← runPuts ops
      pure (put ++ rest)

/-- The puts of a record and the flag of the `xdrrec_endofrecord` behind them. -/
structure PutRecord where
  ops : List PutOp
  sendnow : Bool
  deriving DecidableEq, Repr

def PutRecord.run (r : PutRecord) : Fallible RecStrm (List UInt8) := do
  let body ← runPuts r.ops
  xdrrecEndofrecord r.sendnow
  pure body

def runRecords : List PutRecord → Fallible RecStrm (List (List UInt8))
  | [] => pure []
  | r :: rs => do
      let body ← r.run
      let rest ← runRecords rs
      pure (body :: rest)

/-- Puts that succeed, one by one. -/
theorem exists_of_runPuts {op : PutOp} {ops : List PutOp} {s s' : RecStrm} {put : List UInt8}
    (h : (runPuts (op :: ops)).run s = (some put, s')) :
    ∃ first s₁ rest, op.run.run s = (some first, s₁) ∧
      (runPuts ops).run s₁ = (some rest, s') ∧ put = first ++ rest := by
  obtain ⟨first, s₁, hFirst, hTail⟩ := exists_of_run_bind h
  obtain ⟨rest, s₂, hRest, hPure⟩ := exists_of_run_bind hTail
  cases hPure
  exact ⟨first, s₁, rest, hFirst, hRest, rfl⟩

/-- A record that succeeds: its puts, then its end. -/
theorem PutRecord.exists_of_run {r : PutRecord} {s s' : RecStrm} {body : List UInt8}
    (h : r.run.run s = (some body, s')) :
    ∃ s₁, (runPuts r.ops).run s = (some body, s₁) ∧
      (xdrrecEndofrecord r.sendnow).run s₁ = (some (), s') := by
  obtain ⟨put, s₁, hPuts, hTail⟩ := exists_of_run_bind h
  obtain ⟨u, s₂, hEnd, hPure⟩ := exists_of_run_bind hTail
  cases hPure
  exact ⟨s₁, hPuts, hEnd⟩

/-- Records that succeed, one by one. -/
theorem exists_of_runRecords {r : PutRecord} {rs : List PutRecord} {s s' : RecStrm}
    {bodies : List (List UInt8)} (h : (runRecords (r :: rs)).run s = (some bodies, s')) :
    ∃ body s₁ rest, r.run.run s = (some body, s₁) ∧
      (runRecords rs).run s₁ = (some rest, s') ∧ bodies = body :: rest := by
  obtain ⟨body, s₁, hBody, hTail⟩ := exists_of_run_bind h
  obtain ⟨rest, s₂, hRest, hPure⟩ := exists_of_run_bind hTail
  cases hPure
  exact ⟨body, s₁, rest, hBody, hRest, rfl⟩

/-- The open fragment holds nothing yet. -/
def EmptyFragment (s : RecStrm) : Prop := s.outFinger = s.fragHeader + 4

/-- The bytes in the buffer can be counted by an `int`. -/
def Countable (s : RecStrm) : Prop := s.outFinger < 2 ^ 31

/-- If the put has to flush, an `int` can count what it flushes. -/
def PutOp.Fits : PutOp → RecStrm → Prop
  | .long _, s => s.outFinger + 4 > s.outBoundry → s.Countable
  | .bytes addr, s => addr ≠ [] → s.outRoom ≤ addr.length → s.outBoundry < 2 ^ 31
  | .inline _, _ => True

/-- If the put closes the open fragment as it found it, there is something in it. -/
def PutOp.Filled : PutOp → RecStrm → Prop
  | .long _, s => s.outFinger + 4 > s.outBoundry → ¬ s.EmptyFragment
  | .bytes _, _ => True
  | .inline _, _ => True

/-- A condition on every put of a list and the state before it. -/
def OpsMeet (P : PutOp → RecStrm → Prop) : List PutOp → RecStrm → Prop
  | [], _ => True
  | op :: ops, s => P op s ∧ OpsMeet P ops (op.run.run s).2

/-- A condition on every record of a list and the state before it. -/
def RecordsMeet (P : PutRecord → RecStrm → Prop) : List PutRecord → RecStrm → Prop
  | [], _ => True
  | r :: rs, s => P r s ∧ RecordsMeet P rs (r.run.run s).2

section Decidable

instance (s : RecStrm) : Decidable s.EmptyFragment := inferInstanceAs (Decidable (_ = _))

instance (s : RecStrm) : Decidable s.Countable := inferInstanceAs (Decidable (_ < _))

instance (op : PutOp) (s : RecStrm) : Decidable (op.Fits s) :=
  match op with
  | .long _ => inferInstanceAs (Decidable (_ > _ → Countable s))
  | .bytes addr => inferInstanceAs (Decidable (addr ≠ [] → _ ≤ _ → _ < _))
  | .inline _ => inferInstanceAs (Decidable True)

instance (op : PutOp) (s : RecStrm) : Decidable (op.Filled s) :=
  match op with
  | .long _ => inferInstanceAs (Decidable (_ > _ → ¬ EmptyFragment s))
  | .bytes _ => inferInstanceAs (Decidable True)
  | .inline _ => inferInstanceAs (Decidable True)

instance decidableOpsMeet (P : PutOp → RecStrm → Prop) [∀ op s, Decidable (P op s)] :
    ∀ ops s, Decidable (OpsMeet P ops s)
  | [], _ => inferInstanceAs (Decidable True)
  | op :: ops, s =>
      have := decidableOpsMeet P ops (op.run.run s).2
      inferInstanceAs (Decidable (P op s ∧ OpsMeet P ops (op.run.run s).2))

instance decidableRecordsMeet (P : PutRecord → RecStrm → Prop) [∀ r s, Decidable (P r s)] :
    ∀ rs s, Decidable (RecordsMeet P rs s)
  | [], _ => inferInstanceAs (Decidable True)
  | r :: rs, s =>
      have := decidableRecordsMeet P rs (r.run.run s).2
      inferInstanceAs (Decidable (P r s ∧ RecordsMeet P rs (r.run.run s).2))

end Decidable

/-- What a put does: `gs` are the fragments it closes and `cur'` is what the open
one holds behind it. -/
structure Emitted (fs : List Fragment) (cur put : List UInt8) (gs : List Fragment)
    (cur' : List UInt8) (s' : RecStrm) : Prop where
  writing : Writing (fs ++ gs) cur' s'
  bytes_eq : gs.flatMap Fragment.body ++ cur' = cur ++ put
  more : ∀ g ∈ gs, g.last = false

/-- A put that closes nothing. -/
theorem Emitted.kept {fs : List Fragment} {cur put : List UInt8} {s' : RecStrm}
    (h : Writing fs (cur ++ put) s') : Emitted fs cur put [] (cur ++ put) s' where
  writing := by rwa [List.append_nil]
  bytes_eq := rfl
  more := by simp

/-- A put that fills the open fragment and closes it. -/
theorem Emitted.closed {fs : List Fragment} {f : Fragment} {cur put : List UInt8} {s' : RecStrm}
    (h : Writing (fs ++ [f]) [] s') (hBody : f.body = cur ++ put) (hMore : f.last = false) :
    Emitted fs cur put [f] [] s' where
  writing := h
  bytes_eq := by simpa using hBody
  more := by simpa using hMore

/-- One put behind another. -/
theorem Emitted.append {fs gs gs' : List Fragment} {cur cur₁ cur₂ put put' : List UInt8}
    {s₁ s₂ : RecStrm} (h : Emitted fs cur put gs cur₁ s₁)
    (h' : Emitted (fs ++ gs) cur₁ put' gs' cur₂ s₂) :
    Emitted fs cur (put ++ put') (gs ++ gs') cur₂ s₂ where
  writing := by
    rw [← List.append_assoc]
    exact h'.writing
  bytes_eq := by
    rw [List.flatMap_append, List.append_assoc, h'.bytes_eq, ← List.append_assoc, h.bytes_eq,
      List.append_assoc]
  more := by
    intro g hg
    rcases List.mem_append.mp hg with hg | hg
    · exact h.more g hg
    · exact h'.more g hg

theorem Writing.emptyFragment_iff {fs : List Fragment} {cur : List UInt8} {s : RecStrm}
    (h : Writing fs cur s) : s.EmptyFragment ↔ cur = [] := by
  rw [EmptyFragment, h.finger_eq, ← List.length_eq_zero_iff]
  omega

theorem Writing.length_lt {fs : List Fragment} {cur : List UInt8} {s : RecStrm}
    (h : Writing fs cur s) (hInt : s.outFinger < 2 ^ 31) : cur.length < 2 ^ 31 := by
  have hFinger := h.finger_eq
  omega

/-- Whether a flush has happened has no bearing on the fragments. -/
theorem Writing.setFragSent {fs : List Fragment} {cur : List UInt8} {s : RecStrm}
    (h : Writing fs cur s) (sent : Bool) : Writing fs cur (s.setFragSent sent) :=
  { h with }

/-- Closing the open fragment by a flush. -/
theorem Writing.run_flush {fs : List Fragment} {cur : List UInt8} {s : RecStrm}
    (h : Writing fs cur s) (sent eor : Bool) (hInt : s.outFinger < 2 ^ 31) :
    (flushOut eor).run (s.setFragSent sent) = (some (), (s.setFragSent sent).flushed eor) ∧
      Writing (fs ++ [⟨cur, eor, h.length_lt hInt⟩]) [] ((s.setFragSent sent).flushed eor) :=
  ⟨run_flushOut eor hInt h.writable, (h.setFragSent sent).flushed eor (h.length_lt hInt)⟩

theorem putlong_emits {fs : List Fragment} {cur : List UInt8} {s : RecStrm}
    (h : Writing fs cur s) (l : BitVec 32) (hFits : (PutOp.long l).Fits s) :
    ∃ gs cur' s', (xdrrecPutlong l).run s = (some (), s') ∧
      Emitted fs cur (Word.toBytes l) gs cur' s' ∧
      ((∃ g ∈ gs, g.body = []) ↔ ¬ (PutOp.long l).Filled s) := by
  have hMin := h.boundry_min
  unfold xdrrecPutlong
  rw [run_bind_gets]
  by_cases hFull : s.outFinger + 4 > s.outBoundry
  · have hInt := hFits hFull
    obtain ⟨hRun, hFlush⟩ := h.run_flush true false hInt
    have hStore := hFlush.storeOut (Word.toBytes l) (by
      show 4 ≤ s.outBoundry - 4
      omega)
    have hFirst : Emitted fs cur [] [⟨cur, false, h.length_lt hInt⟩] [] _ :=
      Emitted.closed hFlush (List.append_nil cur).symm rfl
    refine ⟨_, _, _, ?_, hFirst.append (Emitted.kept hStore), ?_⟩
    · rw [if_pos (decide_eq_true hFull), run_bind_modify, run_bind_some hRun, run_modify]
    · rw [PutOp.Filled, h.emptyFragment_iff]
      simp [hFull]
  · have hStore := h.storeOut (Word.toBytes l) (by
      show 4 ≤ s.outBoundry - s.outFinger
      omega)
    refine ⟨[], _, _, ?_, Emitted.kept hStore, ?_⟩
    · rw [if_neg (by simpa using hFull), run_modify]
    · rw [PutOp.Filled]
      simp [hFull]

@[simp] theorem putbytesLoop_nil (fuel : Nat) : putbytesLoop fuel [] = pure () := by
  cases fuel <;> rfl

/-- A round of the loop that does not fill the buffer is the last one. -/
theorem putbytesLoop_fits (fuel : Nat) {b : UInt8} {bs : List UInt8} {s : RecStrm}
    (hAll : (b :: bs).length < s.outRoom) :
    (putbytesLoop (fuel + 1) (b :: bs)).run s = (some (), s.storeOut (b :: bs)) := by
  have hNotFull : ¬ (s.storeOut (b :: bs)).outFinger = (s.storeOut (b :: bs)).outBoundry := by
    unfold outRoom at hAll
    show ¬ s.outFinger + _ = s.outBoundry
    omega
  simp only [putbytesLoop, run_bind_gets]
  rw [show s.outBoundry - s.outFinger = s.outRoom from rfl, if_pos hAll, List.take_length,
    List.drop_length, run_bind_modify, run_bind_gets, if_neg (by
      rw [decide_eq_true_eq]
      exact hNotFull), putbytesLoop_nil, run_pure]

/-- A round that fills the buffer flushes it. -/
theorem putbytesLoop_full (fuel : Nat) {b : UInt8} {bs : List UInt8} {s : RecStrm}
    (hFinger : s.outFinger ≤ s.outBoundry) (hRoom : s.outRoom ≤ (b :: bs).length) :
    (s.storeOut ((b :: bs).take s.outRoom)).outFinger = s.outBoundry ∧
    (putbytesLoop (fuel + 1) (b :: bs)).run s =
      (flushOut false >>= fun _ => putbytesLoop fuel ((b :: bs).drop s.outRoom)).run
        ((s.storeOut ((b :: bs).take s.outRoom)).setFragSent true) := by
  have hEnd : (s.storeOut ((b :: bs).take s.outRoom)).outFinger =
      (s.storeOut ((b :: bs).take s.outRoom)).outBoundry := by
    show s.outFinger + _ = s.outBoundry
    rw [List.length_take, Nat.min_eq_left hRoom, outRoom]
    omega
  refine ⟨hEnd, ?_⟩
  simp only [putbytesLoop, run_bind_gets]
  rw [show s.outBoundry - s.outFinger = s.outRoom from rfl, if_neg (Nat.not_lt.mpr hRoom),
    run_bind_modify, run_bind_gets, if_pos (decide_eq_true hEnd), run_bind_modify]

/-- The induction is on the fuel. Only the first round can find no room at all,
and then the open fragment is not empty. -/
theorem putbytesLoop_emits (fuel : Nat) (addr : List UInt8) {fs : List Fragment}
    {cur : List UInt8} {s : RecStrm} (h : Writing fs cur s)
    (hFits : addr ≠ [] → s.outRoom ≤ addr.length → s.outBoundry < 2 ^ 31)
    (hFuel : addr.length < fuel ∨ (0 < s.outRoom ∧ addr.length ≤ fuel)) :
    ∃ gs cur' s', (putbytesLoop fuel addr).run s = (some (), s') ∧
      Emitted fs cur addr gs cur' s' ∧ ∀ g ∈ gs, g.body ≠ [] := by
  have hNothing : Emitted fs cur [] [] (cur ++ []) s :=
    Emitted.kept (by rwa [List.append_nil])
  induction fuel generalizing addr fs cur s with
  | zero =>
      obtain rfl : addr = [] := List.length_eq_zero_iff.mp (by omega)
      exact ⟨[], _, s, rfl, hNothing, by simp⟩
  | succ fuel ih =>
      cases addr with
      | nil => exact ⟨[], _, s, rfl, hNothing, by simp⟩
      | cons b bs =>
          have hFinger := h.finger_le
          have hMin := h.boundry_min
          by_cases hAll : (b :: bs).length < s.outRoom
          · exact ⟨[], _, _, putbytesLoop_fits fuel hAll, Emitted.kept (h.storeOut _ hAll.le),
              by simp⟩
          · have hRoom : s.outRoom ≤ (b :: bs).length := Nat.not_lt.mp hAll
            have hInt := hFits (List.cons_ne_nil b bs) hRoom
            have hTake : ((b :: bs).take s.outRoom).length = s.outRoom := by
              rw [List.length_take, Nat.min_eq_left hRoom]
            have hStore := h.storeOut ((b :: bs).take s.outRoom) hTake.le
            obtain ⟨hEnd, hLoop⟩ := putbytesLoop_full fuel hFinger hRoom
            obtain ⟨hRun, hFlush⟩ := hStore.run_flush true false (by omega)
            have hFirst : Emitted fs cur ((b :: bs).take s.outRoom) [_] [] _ :=
              Emitted.closed hFlush rfl rfl
            obtain ⟨gs, cur', s', hRest, hEmit, hFull⟩ := ih ((b :: bs).drop s.outRoom) hFlush
              (fun _ _ => hInt) (Or.inr (by
                rw [List.length_drop]
                show 0 < s.outBoundry - 4 ∧ _
                omega)) (Emitted.kept (by rwa [List.append_nil]))
            have hBoth := hFirst.append hEmit
            rw [List.take_append_drop] at hBoth
            refine ⟨_, cur', s', ?_, hBoth, ?_⟩
            · rw [hLoop, run_bind_some hRun, hRest]
            · intro g hg
              rcases List.mem_cons.mp hg with rfl | hg
              · intro hNil
                obtain ⟨hCur, hPut⟩ := List.append_eq_nil_iff.mp hNil
                have hSpace := h.room hCur
                rw [hPut, List.length_nil, outRoom] at hTake
                omega
              · exact hFull g hg

/-- A pointer is handed out when the bytes fit, and then they are stored. -/
theorem PutOp.run_inline (bs : List UInt8) (s : RecStrm) :
    (PutOp.inline bs).run.run s =
      if s.outFinger + bs.length ≤ s.outBoundry then (some bs, s.storeOut bs)
      else (some [], s) := by
  have hInline : (xdrrecInline .encode bs.length).run s =
      if s.outFinger + bs.length ≤ s.outBoundry then
        (some (some s.outFinger), { s with outFinger := s.outFinger + bs.length })
      else (some none, s) := rfl
  by_cases hFit : s.outFinger + bs.length ≤ s.outBoundry
  · rw [if_pos hFit] at hInline ⊢
    rw [PutOp.run, run_bind_some hInline]
    rfl
  · rw [if_neg hFit] at hInline ⊢
    rw [PutOp.run, run_bind_some hInline, run_pure]

/-- One put: what it closes is empty only where the put is said not to be filled. -/
theorem PutOp.run_emits (op : PutOp) {fs : List Fragment} {cur : List UInt8} {s : RecStrm}
    (h : Writing fs cur s) (hFits : op.Fits s) :
    ∃ put gs cur' s', op.run.run s = (some put, s') ∧ Emitted fs cur put gs cur' s' ∧
      ((∃ g ∈ gs, g.body = []) ↔ ¬ op.Filled s) := by
  cases op with
  | long l =>
      obtain ⟨gs, cur', s', hRun, hEmit, hEmpty⟩ := putlong_emits h l hFits
      refine ⟨_, gs, cur', s', ?_, hEmit, hEmpty⟩
      rw [PutOp.run, run_bind_some hRun, run_pure]
  | bytes addr =>
      obtain ⟨gs, cur', s', hRun, hEmit, hFull⟩ :=
        putbytesLoop_emits (addr.length + 2) addr h hFits (Or.inl (by omega))
      refine ⟨_, gs, cur', s', ?_, hEmit, ?_⟩
      · rw [PutOp.run, run_bind_some (show (xdrrecPutbytes addr).run s = _ from hRun), run_pure]
      · rw [PutOp.Filled]
        simpa using hFull
  | inline bs =>
      have hRun := PutOp.run_inline bs s
      by_cases hFit : s.outFinger + bs.length ≤ s.outBoundry
      · rw [if_pos hFit] at hRun
        have hRoom : bs.length ≤ s.outRoom := by
          unfold outRoom
          omega
        exact ⟨bs, [], _, s.storeOut bs, hRun, Emitted.kept (h.storeOut bs hRoom),
          by simp [PutOp.Filled]⟩
      · rw [if_neg hFit] at hRun
        exact ⟨[], [], _, s, hRun, Emitted.kept (by rwa [List.append_nil]),
          by simp [PutOp.Filled]⟩

/-- The induction is on the puts, and each continues where the one before it ends. -/
theorem runPuts_emits (ops : List PutOp) {fs : List Fragment} {cur : List UInt8} {s : RecStrm}
    (h : Writing fs cur s) (hFits : OpsMeet PutOp.Fits ops s) :
    ∃ put gs cur' s', (runPuts ops).run s = (some put, s') ∧ Emitted fs cur put gs cur' s' ∧
      ((∃ g ∈ gs, g.body = []) ↔ ¬ OpsMeet PutOp.Filled ops s) := by
  induction ops generalizing fs cur s with
  | nil =>
      exact ⟨[], [], _, s, rfl, Emitted.kept (by rwa [List.append_nil]), by simp [OpsMeet]⟩
  | cons op ops ih =>
      obtain ⟨hOp, hOps⟩ := hFits
      obtain ⟨put, gs, cur₁, s₁, hRun, hEmit, hEmpty⟩ := op.run_emits h hOp
      rw [hRun] at hOps
      obtain ⟨put', gs', cur₂, s₂, hRun', hEmit', hEmpty'⟩ := ih hEmit.writing hOps
      refine ⟨put ++ put', gs ++ gs', cur₂, s₂, ?_, hEmit.append hEmit', ?_⟩
      · rw [runPuts, run_bind_some hRun, run_bind_some hRun', run_pure]
      · simp only [OpsMeet, hRun, List.mem_append, or_and_right, exists_or, hEmpty, hEmpty']
        tauto

theorem inline_window {n buf : Nat} {s s' : RecStrm} (hs : s.outBoundry ≤ s.outBase.length)
    (hRun : (xdrrecInline .encode n).run s = (some (some buf), s')) :
    s'.outBase = s.outBase ∧ buf + n ≤ s.outBase.length := by
  simp only [Fallible.run, xdrrecInline] at hRun
  split at hRun
  · cases hRun
    exact ⟨rfl, by omega⟩
  · cases hRun

/-- What is put without filling the buffer is only stored. -/
theorem run_xdrrecPutbytes {bs : List UInt8} {s : RecStrm}
    (hRoom : s.outFinger + bs.length < s.outBoundry) :
    (xdrrecPutbytes bs).run s = (some (), s.storeOut bs) := by
  cases bs with
  | nil => simp [xdrrecPutbytes, storeOut]
  | cons b bs =>
      have hAll : (b :: bs).length < s.outRoom := by
        unfold outRoom
        omega
      exact putbytesLoop_fits (bs.length + 2) hAll

theorem run_xdrrecPutlong {w : BitVec 32} {s : RecStrm} (hRoom : s.outFinger + 4 ≤ s.outBoundry) :
    (xdrrecPutlong w).run s = (some (), s.storeOut (Word.toBytes w)) := by
  rw [xdrrecPutlong, run_bind_gets, if_neg (by simpa using hRoom), run_modify]

/-- There is room for what does not fill the buffer. -/
instance : XdrWriter RecStrm where
  mem := outBase
  pos := outFinger
  Valid s := s.outBoundry ≤ s.outBase.length
  Room n s := s.outFinger + n < s.outBoundry ∧ s.outBoundry ≤ s.outBase.length
  put s bs := s.storeOut bs
  mem_store _ _ _ := rfl
  inline_window := inline_window
  pos_add_le := by
    rintro n s ⟨hRoom, hFit⟩
    omega
  room_mono := by
    rintro m n s ⟨hRoom, hFit⟩ hmn
    exact ⟨by omega, hFit⟩
  run_putlong h := run_xdrrecPutlong (le_of_lt h.1)
  run_putbytes h := run_xdrrecPutbytes h.1
  mem_put _ _ := rfl
  put_nil s := by simp [storeOut]
  room_put := by
    rintro bs n s ⟨hRoom, hFit⟩
    refine ⟨by simp only [storeOut]; omega, ?_⟩
    show s.outBoundry ≤ (Buffer.writeAt s.outBase s.outFinger bs).length
    rw [Buffer.length_writeAt (by omega)]
    exact hFit
  put_put := by
    rintro bs cs s ⟨hRoom, hFit⟩
    have hStore : s.outFinger + bs.length ≤ s.outBase.length := by omega
    simp only [storeOut, List.length_append, Buffer.writeAt_writeAt hStore, Nat.add_assoc]

end OncRpc.RecStrm
