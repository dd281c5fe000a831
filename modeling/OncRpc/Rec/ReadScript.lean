import OncRpc.Rec.Reader

/-! Scripts of reads. A script is run to its end whatever fails in it, as a caller
may give a record up and go on to the next one. -/
namespace OncRpc.RecStrm

open Fallible RecordMarking

/-- One read of a caller. -/
inductive ReadOp where
  | long
  | bytes (n : Nat)
  | inline (n : Nat)
  deriving DecidableEq, Repr

/-- How many bytes are asked for. -/
def ReadOp.size : ReadOp → Nat
  | .long => 4
  | .bytes n => n
  | .inline n => n

/-- Run a read: the bytes of the word, the bytes copied out, or the bytes under the
pointer. A null pointer counts as a failure. -/
def ReadOp.run : ReadOp → Fallible RecStrm (List UInt8)
  | .long => do
      let l ← xdrrecGetlong
      pure (Word.toBytes l)
  | .bytes n => xdrrecGetbytes n
  | .inline n => do
      let buf ← xdrrecInline .decode n
      match buf with
      | none => fail
      | some buf => loadBytes .decode buf n

def runReads : List ReadOp → RecStrm → RecStrm
  | [], s => s
  | op :: ops, s => runReads ops (op.run.run s).2

/-- What a read may answer when `t` is left of the record, and what is left then. A
pointer may be refused anywhere, for want of a buffer that has all the bytes. -/
def ReadOp.Answers : ReadOp → List UInt8 → Option (List UInt8) → List UInt8 → Prop
  | op, t, some bs, t' => op.size ≤ t.length ∧ bs = t.take op.size ∧ t' = t.drop op.size
  | .inline _, t, none, t' => t' = t
  | op, t, none, t' => t.length < op.size ∧ t' = []

def AnswersAll : List ReadOp → List UInt8 → RecStrm → Prop
  | [], _, _ => True
  | op :: ops, t, s =>
      ∃ t', op.Answers t (op.run.run s).1 t' ∧ AnswersAll ops t' (op.run.run s).2

/-- A reader of records, one script for each: every skip finds the next record, and
every read answers from it. -/
def ReadsBack : List (List UInt8) → List (List ReadOp) → RecStrm → Prop
  | body :: bodies, ops :: scripts, s =>
      (xdrrecSkiprecord.run s).1 = some () ∧
      AnswersAll ops body (xdrrecSkiprecord.run s).2 ∧
      ReadsBack bodies scripts (runReads ops (xdrrecSkiprecord.run s).2)
  | _, _, _ => True

variable {tail : List UInt8}

/-- One read answers from the record it stands in. -/
theorem ReadOp.run_answers (op : ReadOp) {s : RecStrm} {t : List UInt8} (h : Reading tail s t) :
    ∃ t', op.Answers t (op.run.run s).1 t' ∧ Reading tail (op.run.run s).2 t' := by
  cases op with
  | long =>
      obtain ⟨hEnough, hShort⟩ := run_xdrrecGetlong h
      rcases Nat.lt_or_ge t.length 4 with hLt | hLe
      · obtain ⟨s', hRun, hRead⟩ := hShort hLt
        rw [ReadOp.run, run_bind_none hRun]
        exact ⟨[], ⟨hLt, rfl⟩, hRead⟩
      · obtain ⟨s', hRun, hRead⟩ := hEnough hLe
        rw [ReadOp.run, run_bind_some hRun, run_pure]
        have hFour : (t.take 4).length = 4 := by
          rw [List.length_take]
          omega
        exact ⟨t.drop 4, ⟨hLe, Word.toBytes_ofBytes hFour, rfl⟩, hRead⟩
  | bytes n =>
      obtain ⟨hEnough, hShort⟩ := xdrrecGetbytes_reads h n
      rcases Nat.lt_or_ge t.length n with hLt | hLe
      · obtain ⟨s', hRun, hRead⟩ := hShort hLt
        rw [ReadOp.run, hRun]
        exact ⟨[], ⟨hLt, rfl⟩, hRead⟩
      · obtain ⟨s', hRun, hRead⟩ := hEnough hLe
        rw [ReadOp.run, hRun]
        exact ⟨t.drop n, ⟨hLe, rfl, rfl⟩, hRead⟩
  | inline n =>
      rcases run_xdrrecInline h n with hRun | ⟨s', hRun, hLe, hRead, hLoad⟩
      · rw [ReadOp.run, run_bind_some hRun, run_fail]
        exact ⟨t, rfl, h⟩
      · rw [ReadOp.run, run_bind_some hRun]
        have hBytes := hLoad 0 n (by omega)
        rw [Nat.add_zero, List.drop_zero] at hBytes
        exact ⟨t.drop n, ⟨hLe, hBytes, rfl⟩, hRead⟩

/-- A whole script answers from its record and ends in it. -/
theorem runReads_answers (ops : List ReadOp) {s : RecStrm} {t : List UInt8}
    (h : Reading tail s t) : AnswersAll ops t s ∧ ∃ t', Reading tail (runReads ops s) t' := by
  induction ops generalizing s t with
  | nil => exact ⟨trivial, t, h⟩
  | cons op ops ih =>
      obtain ⟨t', hAns, hRead⟩ := op.run_answers h
      obtain ⟨hAll, hEnd⟩ := ih hRead
      exact ⟨⟨t', hAns, hAll⟩, hEnd⟩

/-- Records none of whose fragments has the zero header are read back, wherever the
stream stands in the record before them. -/
theorem readsBack_records (rs : List Record) (scripts : List (List ReadOp)) {s : RecStrm}
    {t : List UInt8} (h : Reading (encodeAll (rs.flatMap Record.frags)) s t)
    (hHeads : ∀ f ∈ rs.flatMap Record.frags, f.head ≠ 0) :
    ReadsBack (rs.map Record.body) scripts s := by
  induction rs generalizing scripts s t with
  | nil => trivial
  | cons r rs ih =>
      cases scripts with
      | nil => trivial
      | cons ops scripts =>
          rw [List.flatMap_cons] at h hHeads
          rw [encodeAll_append] at h
          obtain ⟨s₁, hSkip, hAt⟩ := xdrrecSkiprecord_reading h
          have hRead := hAt.reading fun f hf => hHeads f (List.mem_append_left _ hf)
          obtain ⟨hAll, t', hEnd⟩ := runReads_answers ops hRead
          rw [List.map_cons, ReadsBack, hSkip]
          exact ⟨rfl, hAll, ih scripts hEnd fun f hf => hHeads f (List.mem_append_right _ hf)⟩

/-! ### A receive buffer that cannot be counted -/

/-- A stream that cannot read: the count it would ask for is not a positive `int`. -/
structure Deaf (s : RecStrm) : Prop where
  nonblock : s.nonblock = false
  fbtbc_eq : s.fbtbc = 0
  finger_eq : s.inFinger = s.inBoundry
  aligned : s.inBoundry % bytesPerXdrUnit = 0
  size_min : 2 ^ 31 ≤ s.inSize
  size_max : s.inSize < 2 ^ 32

theorem Deaf.fill_fails {s : RecStrm} (h : s.Deaf) : fillInputBuf.run s = (none, s) := by
  have hMin := h.size_min
  have hMax := h.size_max
  have hNeg : (BitVec.ofNat 32 (s.inSize - s.inBoundry % bytesPerXdrUnit)).toInt < 0 := by
    rw [h.aligned, Nat.sub_zero, BitVec.toInt_eq_toNat_cond, BitVec.toNat_ofNat,
      Nat.mod_eq_of_lt hMax]
    split <;> omega
  have hBlock : ¬ s.nonblock = true := by rw [h.nonblock]; exact Bool.false_ne_true
  simp only [Fallible.run, fillInputBuf, if_neg hBlock, Transport.readit, if_pos hNeg]

theorem Deaf.header_fails {s : RecStrm} (h : s.Deaf) : setInputFragment.run s = (none, s) := by
  have hEmpty : s.inBoundry - s.inFinger = 0 := by
    rw [h.finger_eq, Nat.sub_self]
  have hGet : (getInputBytes 4).run s = (none, s) := by
    simp only [getInputBytes, run_bind_gets, h.nonblock, Bool.false_eq_true, if_false,
      getInputLoop, hEmpty, if_true]
    exact run_bind_none h.fill_fails
  rw [setInputFragment, run_bind_gets, run_bind_require, if_pos h.nonblock, run_bind_none hGet]

/-- Between two records such a stream stays where it is. -/
theorem Deaf.skip_fails {s : RecStrm} (h : s.Deaf) (hMore : s.lastFrag = false) :
    xdrrecSkiprecord.run s = (none, s) := by
  have hBlock : ¬ s.nonblock = true := by rw [h.nonblock]; exact Bool.false_ne_true
  have hTest : (decide (s.fbtbc > 0) || !s.lastFrag) = true := by rw [hMore]; simp
  have hSame : ({ s with fbtbc := 0 } : RecStrm) = s := by rw [← h.fbtbc_eq]
  have hSkip : skipRecord.run s = (none, s) := by
    show (skipRecordLoop (s.input.length + 1 + 1)).run s = _
    rw [skipRecordLoop, run_bind_gets, if_pos hTest, run_bind_gets, h.fbtbc_eq,
      run_bind_some (show (skipInputBytes 0).run s = (some (), s) from rfl), run_bind_modify,
      run_bind_gets, hSame, hMore, if_neg Bool.false_ne_true, run_bind_none h.header_fails]
  simp only [Fallible.run, xdrrecSkiprecord, if_neg hBlock]
  rw [show skipRecord s = _ from hSkip]

/-- No byte is ever got from it. -/
theorem Deaf.getbytes_fails {s : RecStrm} (h : s.Deaf) (n : Nat) :
    (xdrrecGetbytes (n + 1)).run s = (none, s) := by
  show (getbytesLoop (2 * (n + 1) + 1) (n + 1)).run s = _
  simp only [getbytesLoop, run_bind_gets, h.fbtbc_eq, if_true, run_bind_require]
  split
  · exact run_bind_none h.header_fails
  · rfl

theorem Deaf.getlong_fails {s : RecStrm} (h : s.Deaf) : xdrrecGetlong.run s = (none, s) := by
  have hSlow : ¬ (s.fbtbc ≥ 4 ∧ s.inBoundry - s.inFinger ≥ 4) := by
    rw [h.fbtbc_eq]
    omega
  rw [xdrrecGetlong, run_bind_gets, decide_eq_false hSlow, if_neg Bool.false_ne_true,
    run_bind_none (h.getbytes_fails 3)]

theorem Deaf.run_answers (op : ReadOp) {s : RecStrm} (h : s.Deaf) :
    op.Answers [] (op.run.run s).1 [] ∧ (op.run.run s).2 = s := by
  cases op with
  | long =>
      rw [ReadOp.run, run_bind_none h.getlong_fails]
      exact ⟨⟨Nat.zero_lt_succ 3, rfl⟩, rfl⟩
  | bytes n =>
      cases n with
      | zero => exact ⟨⟨le_refl _, rfl, rfl⟩, rfl⟩
      | succ n =>
          rw [ReadOp.run, h.getbytes_fails n]
          exact ⟨⟨Nat.zero_lt_succ n, rfl⟩, rfl⟩
  | inline n =>
      have hFinger := h.finger_eq
      by_cases hFit : n ≤ s.fbtbc ∧ s.inFinger + n ≤ s.inBoundry
      · obtain rfl : n = 0 := Nat.le_zero.mp (h.fbtbc_eq ▸ hFit.1)
        have hRun : (xdrrecInline .decode 0).run s = (some (some s.inFinger), s) := by
          simp only [Fallible.run, xdrrecInline]
          rw [if_pos hFit]
          rfl
        rw [ReadOp.run, run_bind_some hRun]
        exact ⟨⟨le_refl _, Buffer.readAt_zero _ _, rfl⟩, rfl⟩
      · have hRun : (xdrrecInline .decode n).run s = (some none, s) := by
          simp only [Fallible.run, xdrrecInline, if_neg hFit]
        rw [ReadOp.run, run_bind_some hRun, run_fail]
        exact ⟨rfl, rfl⟩

theorem Deaf.answersAll (ops : List ReadOp) {s : RecStrm} (h : s.Deaf) :
    AnswersAll ops [] s ∧ runReads ops s = s := by
  induction ops with
  | nil => exact ⟨trivial, rfl⟩
  | cons op ops ih =>
      obtain ⟨hAns, hSame⟩ := Deaf.run_answers op h
      rw [AnswersAll, runReads, hSame]
      exact ⟨⟨[], hAns, ih.1⟩, ih.2⟩

/-- Its first skip has nothing to skip. -/
theorem Deaf.skip_ends {s : RecStrm} (h : s.Deaf) (hLast : s.lastFrag = true) :
    xdrrecSkiprecord.run s = (some (), { s with lastFrag := false }) := by
  have hBlock : ¬ s.nonblock = true := by rw [h.nonblock]; exact Bool.false_ne_true
  have hTest : ¬ (decide (s.fbtbc > 0) || !s.lastFrag) = true := by
    rw [hLast, h.fbtbc_eq]
    decide
  have hSkip : skipRecord.run s = (some (), s) := by
    show (skipRecordLoop (s.input.length + 1 + 1)).run s = _
    rw [skipRecordLoop, run_bind_gets, if_neg hTest, run_pure]
  simp only [Fallible.run, xdrrecSkiprecord, if_neg hBlock]
  rw [show skipRecord s = _ from hSkip]

/-- A receive buffer that cannot be counted makes a new stream deaf. -/
theorem deaf_xdrrecCreate (sendsize : BitVec 32) {recvsize : BitVec 32} (host : Host)
    (line : Transport) (hMax : recvsize.toNat ≤ 2 ^ 32 - 4) (hBig : 2 ^ 31 - 4 < recvsize.toNat) :
    Deaf (xdrrecCreate sendsize recvsize host line) := by
  have hSize := toNat_fixBufSize hMax
  rw [if_neg (by omega)] at hSize
  exact {
    nonblock := rfl
    fbtbc_eq := rfl
    finger_eq := rfl
    aligned := by
      show (fixBufSize recvsize).toNat % bytesPerXdrUnit = 0
      rw [hSize, rndup]
      exact Nat.mul_mod_left _ _
    size_min := by
      show 2 ^ 31 ≤ (fixBufSize recvsize).toNat
      rw [hSize, rndup, bytesPerXdrUnit]
      omega
    size_max := (fixBufSize recvsize).isLt }

end OncRpc.RecStrm
