import OncRpc.Rec.Input

/-! A blocking stream before the rest of a record whose bytes all are ready, and
what follows the record. Every operation that decodes takes the bytes of the record
in order, across its fragments, and never reaches into what follows. -/
namespace OncRpc.RecStrm

open Fallible RecordMarking

/-- The stream stands before the bytes `t` of its record: in the final fragment,
or in an earlier one with the rest of the record behind it. -/
structure Reading (tail : List UInt8) (s : RecStrm) (t : List UInt8) : Prop where
  blocking : s.Blocking
  place : ∃ cur, s.fbtbc = cur.length ∧
    ((s.lastFrag = true ∧ s.ready = cur ++ tail ∧ t = cur) ∨
      (s.lastFrag = false ∧ ∃ r : Record, (∀ f ∈ r.frags, f.head ≠ 0) ∧
        s.ready = cur ++ (encodeAll r.frags ++ tail) ∧ t = cur ++ r.body))

variable {tail : List UInt8}

/-- What the counter says is there is ready and belongs to the record. -/
theorem Reading.fbtbc_le {s : RecStrm} {t : List UInt8} (h : Reading tail s t) :
    s.fbtbc ≤ s.ready.length ∧ s.fbtbc ≤ t.length := by
  obtain ⟨cur, hLen, ⟨-, hReady, rfl⟩ | ⟨-, r, -, hReady, rfl⟩⟩ := h.place
  · simp only [hReady, hLen, List.length_append]
    omega
  · simp only [hReady, hLen, List.length_append]
    omega

theorem Reading.take_ready {s : RecStrm} {t : List UInt8} (h : Reading tail s t) {k : Nat}
    (hk : k ≤ s.fbtbc) : s.ready.take k = t.take k := by
  obtain ⟨cur, hLen, ⟨-, hReady, rfl⟩ | ⟨-, r, -, hReady, rfl⟩⟩ := h.place
  · rw [hReady, List.take_append_of_le_length (by omega)]
  · rw [hReady, List.take_append_of_le_length (by omega),
      List.take_append_of_le_length (by omega)]

/-- Bytes of the current fragment are consumed and counted off. -/
theorem Reading.advance {s s₁ : RecStrm} {t : List UInt8} (h : Reading tail s t) {k : Nat}
    (hk : k ≤ s.fbtbc) (hCons : Consumed k s s₁) :
    Reading tail { s₁ with fbtbc := s₁.fbtbc - k } (t.drop k) := by
  have hBlock := hCons.blocking
  obtain ⟨cur, hLen, hPlace⟩ := h.place
  refine ⟨⟨hBlock.nonblock, hBlock.line, hBlock.finger, hBlock.boundry, hBlock.size,
    hBlock.size_min, hBlock.size_int⟩, cur.drop k, ?_, ?_⟩
  · show s₁.fbtbc - k = _
    rw [hCons.fbtbc_eq, hLen, List.length_drop]
  · show s₁.lastFrag = true ∧ s₁.ready = _ ∧ _ ∨ s₁.lastFrag = false ∧ _
    rw [hCons.lastFrag_eq, hCons.ready_eq]
    rcases hPlace with ⟨hLast, hReady, rfl⟩ | ⟨hMore, r, hHeads, hReady, rfl⟩
    · exact Or.inl ⟨hLast, by rw [hReady, List.drop_append_of_le_length (by omega)], rfl⟩
    · refine Or.inr ⟨hMore, r, hHeads, ?_, ?_⟩
      · show s₁.ready = _
        rw [hCons.ready_eq, hReady, List.drop_append_of_le_length (by omega)]
      · rw [List.drop_append_of_le_length (by omega)]

/-- A header that is ready is consumed; only the zero word is refused. -/
theorem setInputFragment_header {s : RecStrm} (h : s.Blocking) {w : BitVec 32}
    {rest : List UInt8} (hReady : s.ready = Word.toBytes w ++ rest) :
    ∃ s₁, Consumed 4 s s₁ ∧
      (w = 0 → setInputFragment.run s = (none, { s₁ with lastFrag := false })) ∧
      (w ≠ 0 → setInputFragment.run s = (some (), { s₁ with
        lastFrag := !decide (w &&& lastFragBit = 0)
        fbtbc := (w &&& ~~~lastFragBit).toNat })) := by
  have hFour : 4 ≤ s.ready.length := by
    rw [hReady, List.length_append, Word.length_toBytes]
    omega
  have hTake : s.ready.take 4 = Word.toBytes w := by
    rw [hReady]
    exact List.take_left' (Word.length_toBytes w)
  obtain ⟨s₁, hGet, hCons⟩ := (getInputBytes_delivers h 4).1 hFour
  refine ⟨s₁, hCons, ?_, ?_⟩
  · rintro rfl
    simp only [setInputFragment, run_bind_gets, run_bind_require, if_pos h.nonblock]
    rw [run_bind_some hGet, hTake]
    simp [run_bind_require]
  · intro hw
    simp only [setInputFragment, run_bind_gets, run_bind_require, if_pos h.nonblock]
    rw [run_bind_some hGet, hTake]
    simp only [Word.ofBytes_toBytes, run_bind_modify, run_bind_require, if_pos hw, run_modify]

/-- What the header of a fragment says about it. -/
theorem head_says (f : Fragment) :
    (f.head &&& ~~~lastFragBit).toNat = f.body.length ∧
      (!decide (f.head &&& lastFragBit = 0)) = f.last := by
  refine ⟨length_of_header f.fits f.last, ?_⟩
  have hLast : f.head &&& lastFragBit = 0 ↔ f.last = false := last_of_header f.fits f.last
  cases hf : f.last with
  | false => simp [hLast.mpr hf]
  | true =>
      have hNe : ¬ f.head &&& lastFragBit = 0 := fun hz => by
        rw [hLast.mp hz] at hf
        cases hf
      simpa using hNe

/-- Between two fragments of a record the next header is read and obeyed. -/
theorem setInputFragment_reading {s : RecStrm} {t : List UInt8} (h : Reading tail s t)
    (hDone : s.fbtbc = 0) (hMore : s.lastFrag = false) :
    ∃ s', setInputFragment.run s = (some (), s') ∧ Reading tail s' t ∧
      (0 < s'.fbtbc ∨ s'.lastFrag = true) ∧ s'.ready.length < s.ready.length := by
  obtain ⟨cur, hLen, hPlace⟩ := h.place
  obtain rfl : cur = [] := List.length_eq_zero_iff.mp (hLen.symm.trans hDone)
  obtain ⟨hLast, -⟩ | ⟨-, r, hHeads, hReady, rfl⟩ := hPlace
  · rw [hMore] at hLast
    cases hLast
  obtain ⟨hFrags, hBody⟩ | ⟨f, r', hFrags, hfLast, hBody⟩ := r.frags_cases
  · have hHead : r.final.head ≠ 0 := hHeads _ (by rw [hFrags]; exact List.mem_singleton_self _)
    have hIn : s.ready = Word.toBytes r.final.head ++ (r.final.body ++ tail) := by
      rw [hReady, hFrags]
      simp [Fragment.encode]
    obtain ⟨s₁, hCons, -, hRun⟩ := setInputFragment_header h.blocking hIn
    obtain ⟨hCount, hMark⟩ := head_says r.final
    have hRest : s₁.ready = r.final.body ++ tail := by
      rw [hCons.ready_eq, hIn]
      exact List.drop_left' (Word.length_toBytes _)
    refine ⟨_, hRun hHead, ⟨?_, r.final.body, hCount, Or.inl ⟨?_, hRest, ?_⟩⟩, ?_⟩
    · exact { hCons.blocking with }
    · exact hMark.trans r.final_last
    · rw [hBody, List.nil_append]
    · refine ⟨Or.inr (hMark.trans r.final_last), ?_⟩
      show s₁.ready.length < _
      simp only [hRest, hIn, List.length_append, Word.length_toBytes]
      omega
  · have hHead : f.head ≠ 0 := hHeads _ (by rw [hFrags]; exact List.mem_cons_self)
    have hIn : s.ready = Word.toBytes f.head ++ (f.body ++ (encodeAll r'.frags ++ tail)) := by
      rw [hReady, hFrags]
      simp [Fragment.encode]
    obtain ⟨s₁, hCons, -, hRun⟩ := setInputFragment_header h.blocking hIn
    obtain ⟨hCount, hMark⟩ := head_says f
    have hRest : s₁.ready = f.body ++ (encodeAll r'.frags ++ tail) := by
      rw [hCons.ready_eq, hIn]
      exact List.drop_left' (Word.length_toBytes _)
    have hPos : 0 < f.body.length := by
      by_contra hZero
      have hNil : f.body = [] := List.length_eq_zero_iff.mp (Nat.eq_zero_of_not_pos hZero)
      exact hHead ((Fragment.head_eq_zero f).mpr ⟨hNil, hfLast⟩)
    refine ⟨_, hRun hHead, ⟨?_, f.body, hCount, Or.inr ⟨?_, r', ?_, hRest, ?_⟩⟩, ?_⟩
    · exact { hCons.blocking with }
    · exact hMark.trans hfLast
    · intro g hg
      exact hHeads g (by rw [hFrags]; exact List.mem_cons_of_mem f hg)
    · rw [hBody, List.nil_append]
    · refine ⟨Or.inl (hCount.symm ▸ hPos), ?_⟩
      show s₁.ready.length < _
      simp only [hRest, hIn, List.length_append, Word.length_toBytes]
      omega

/-- What a request for `n` bytes of the record does: it yields the next `n` of
them, or it fails at the end of the record. -/
def ReadsRecord (tail : List UInt8) (n : Nat) (m : Fallible RecStrm (List UInt8)) (s : RecStrm)
    (t : List UInt8) : Prop :=
  (n ≤ t.length → ∃ s', m.run s = (some (t.take n), s') ∧ Reading tail s' (t.drop n)) ∧
  (t.length < n → ∃ s', m.run s = (none, s') ∧ Reading tail s' [])

theorem ReadsRecord.zero {s : RecStrm} {t : List UInt8} (h : Reading tail s t) :
    ReadsRecord tail 0 (pure []) s t :=
  ⟨fun _ => ⟨s, rfl, h⟩, fun hLt => absurd hLt (Nat.not_lt_zero _)⟩

/-- At the end of the record nothing is left of it. -/
theorem Reading.at_end {s : RecStrm} {t : List UInt8} (h : Reading tail s t)
    (hDone : s.fbtbc = 0) (hLast : s.lastFrag = true) : t = [] := by
  obtain ⟨cur, hLen, ⟨-, -, rfl⟩ | ⟨hMore, -⟩⟩ := h.place
  · exact List.length_eq_zero_iff.mp (hLen.symm.trans hDone)
  · rw [hLast] at hMore
    cases hMore

/-- The induction is on the fuel. A round that reads a header is followed by one
that copies or by the end of the record. -/
theorem getbytesLoop_reads (fuel n : Nat) (s : RecStrm) (t : List UInt8) (h : Reading tail s t)
    (hFuel : 2 * n + 1 ≤ fuel ∨ ((0 < s.fbtbc ∨ s.lastFrag = true) ∧ 2 * n ≤ fuel)) :
    ReadsRecord tail n (getbytesLoop fuel n) s t := by
  induction fuel generalizing n s t with
  | zero =>
      obtain rfl : n = 0 := by omega
      exact ReadsRecord.zero h
  | succ fuel ih =>
      cases n with
      | zero => exact ReadsRecord.zero h
      | succ n =>
          unfold ReadsRecord
          simp only [getbytesLoop, run_bind_gets]
          by_cases hDone : s.fbtbc = 0
          · simp only [if_pos hDone, run_bind_gets, run_bind_require]
            cases hLast : s.lastFrag with
            | true =>
                obtain rfl := h.at_end hDone hLast
                simp only [reduceCtorEq, if_false]
                exact ⟨fun hLe => absurd hLe (Nat.not_succ_le_zero n), fun _ => ⟨s, rfl, h⟩⟩
            | false =>
                obtain ⟨s₁, hRun, hRead, hNext, -⟩ := setInputFragment_reading h hDone hLast
                have hRounds : 2 * (n + 1) ≤ fuel := by
                  rcases hFuel with hFuel | ⟨hPos | hFlag, -⟩
                  · omega
                  · omega
                  · rw [hLast] at hFlag
                    cases hFlag
                have hRest := ih (n + 1) s₁ t hRead (Or.inr ⟨hNext, hRounds⟩)
                simp only [if_true, run_bind_some hRun]
                exact hRest
          · rw [if_neg hDone]
            have hPos : 0 < if n + 1 < s.fbtbc then n + 1 else s.fbtbc := by
              split <;> omega
            have hLe : (if n + 1 < s.fbtbc then n + 1 else s.fbtbc) ≤ n + 1 := by
              split <;> omega
            have hRoom : (if n + 1 < s.fbtbc then n + 1 else s.fbtbc) ≤ s.fbtbc := by
              split <;> omega
            generalize (if n + 1 < s.fbtbc then n + 1 else s.fbtbc) = current
              at hPos hLe hRoom ⊢
            obtain ⟨hReady, hBody⟩ := h.fbtbc_le
            obtain ⟨s₁, hGet, hCons⟩ :=
              (getInputBytes_delivers h.blocking current).1 (by omega)
            have hRead := h.advance hRoom hCons
            obtain ⟨hEnough, hShort⟩ := ih (n + 1 - current) _ _ hRead (Or.inl (by omega))
            have hSum : current + (n + 1 - current) = n + 1 := by omega
            rw [run_bind_some hGet, h.take_ready hRoom]
            simp only [run_bind_modify]
            rw [List.length_drop] at hEnough hShort
            constructor
            · intro hAll
              obtain ⟨s', hRun, hRead'⟩ := hEnough (by omega)
              rw [List.drop_drop, hSum] at hRead'
              refine ⟨s', ?_, hRead'⟩
              rw [run_bind_some hRun, run_pure, ← List.take_add, hSum]
            · intro hLt
              obtain ⟨s', hRun, hRead'⟩ := hShort (by omega)
              exact ⟨s', run_bind_none hRun, hRead'⟩

theorem xdrrecGetbytes_reads {s : RecStrm} {t : List UInt8} (h : Reading tail s t) (n : Nat) :
    ReadsRecord tail n (xdrrecGetbytes n) s t :=
  getbytesLoop_reads (2 * n + 1) n s t h (Or.inl (le_refl _))

/-- A word comes straight out of the buffer or byte by byte; the record cannot tell. -/
theorem run_xdrrecGetlong {s : RecStrm} {t : List UInt8} (h : Reading tail s t) :
    (4 ≤ t.length → ∃ s', xdrrecGetlong.run s = (some (Word.ofBytes (t.take 4)), s') ∧
      Reading tail s' (t.drop 4)) ∧
    (t.length < 4 → ∃ s', xdrrecGetlong.run s = (none, s') ∧ Reading tail s' []) := by
  obtain ⟨hEnough, hShort⟩ := xdrrecGetbytes_reads h 4
  unfold xdrrecGetlong
  simp only [run_bind_gets]
  by_cases hFast : s.fbtbc ≥ 4 ∧ s.inBoundry - s.inFinger ≥ 4
  · obtain ⟨hFrag, hBuf⟩ := hFast
    obtain ⟨s₁, hTake, hCons⟩ := takeInput_consumed h.blocking hBuf
    have hBody := h.fbtbc_le.2
    have hRead := h.advance hFrag hCons
    rw [h.take_ready hFrag] at hTake
    have hTest : decide (s.fbtbc ≥ 4 ∧ s.inBoundry - s.inFinger ≥ 4) = true :=
      decide_eq_true ⟨hFrag, hBuf⟩
    simp only [hTest, if_true, run_bind_some hTake, run_bind_modify, run_pure]
    exact ⟨fun _ => ⟨_, rfl, hRead⟩, fun hLt => absurd hLt (by omega)⟩
  · simp only [decide_eq_false hFast, Bool.false_eq_true, if_false]
    constructor
    · intro hLe
      obtain ⟨s', hRun, hRead⟩ := hEnough hLe
      exact ⟨s', by rw [run_bind_some hRun, run_pure], hRead⟩
    · intro hLt
      obtain ⟨s', hRun, hRead⟩ := hShort hLt
      exact ⟨s', run_bind_none hRun, hRead⟩

/-- An inline request hands out bytes that lie in the buffer and in the fragment. -/
theorem run_xdrrecInline {s : RecStrm} {t : List UInt8} (h : Reading tail s t) (n : Nat) :
    (xdrrecInline .decode n).run s = (some none, s) ∨
    ∃ s', (xdrrecInline .decode n).run s = (some (some s.inFinger), s') ∧ n ≤ t.length ∧
      Reading tail s' (t.drop n) ∧
      ∀ a k, a + k ≤ n → Buffer.readAt s'.inBase (s.inFinger + a) k = (t.drop a).take k := by
  by_cases hFit : n ≤ s.fbtbc ∧ s.inFinger + n ≤ s.inBoundry
  · refine Or.inr ⟨{ s with fbtbc := s.fbtbc - n, inFinger := s.inFinger + n }, ?_, ?_, ?_, ?_⟩
    · simp only [Fallible.run, xdrrecInline, if_pos hFit]
    · exact hFit.1.trans h.fbtbc_le.2
    · obtain ⟨s₁, hTake, hCons⟩ := takeInput_consumed h.blocking (n := n) (by omega)
      have hRead := h.advance hFit.1 hCons
      have hState : s₁ = { s with inFinger := s.inFinger + n } := by
        have hSnd := congrArg Prod.snd hTake
        exact hSnd.symm
      rw [hState] at hRead
      exact hRead
    · intro a k hak
      have hBuf : Buffer.readAt s.inBase s.inFinger n = t.take n := by
        obtain ⟨s₁, hTake, -⟩ := takeInput_consumed h.blocking (n := n) (by omega)
        have hFst := congrArg Prod.fst hTake
        rw [h.take_ready hFit.1] at hFst
        exact Option.some.inj hFst
      show Buffer.readAt s.inBase (s.inFinger + a) k = _
      rw [← Buffer.readAt_readAt _ _ _ _ _ hak, hBuf, Buffer.readAt, List.drop_take,
        List.take_take, Nat.min_eq_left (by omega)]
  · refine Or.inl ?_
    simp only [Fallible.run, xdrrecInline, if_neg hFit]

/-- The stream stands in front of a header, with a record expected behind it. -/
structure AtRecord (tail : List UInt8) (s : RecStrm) : Prop where
  blocking : s.Blocking
  fbtbc_eq : s.fbtbc = 0
  lastFrag_eq : s.lastFrag = false
  ready_eq : s.ready = tail

theorem AtRecord.reading {s : RecStrm} {r : Record}
    (h : AtRecord (encodeAll r.frags ++ tail) s) (hHeads : ∀ f ∈ r.frags, f.head ≠ 0) :
    Reading tail s r.body :=
  ⟨h.blocking, [], h.fbtbc_eq, Or.inr ⟨h.lastFrag_eq, r, hHeads, h.ready_eq, rfl⟩⟩

/-- The rest of the current fragment is skipped and counted off. -/
theorem skipInputBytes_reading {s : RecStrm} {t : List UInt8} (h : Reading tail s t) :
    ∃ s₁, (skipInputBytes s.fbtbc).run s = (some (), s₁) ∧ s₁.lastFrag = s.lastFrag ∧
      s₁.ready.length ≤ s.ready.length ∧
      Reading tail { s₁ with fbtbc := 0 } (t.drop s.fbtbc) := by
  obtain ⟨s₁, hRun, hCons⟩ := (skipInputBytes_spec h.blocking s.fbtbc).1 h.fbtbc_le.1
  have hRead := h.advance (le_refl _) hCons
  rw [hCons.fbtbc_eq, Nat.sub_self] at hRead
  refine ⟨s₁, hRun, hCons.lastFrag_eq, ?_, hRead⟩
  rw [hCons.ready_eq, List.length_drop]
  omega

/-- Every round but the last one skips the rest of a fragment. -/
theorem skipRecordLoop_reading (fuel : Nat) (s : RecStrm) (t : List UInt8)
    (h : Reading tail s t)
    (hFuel : s.ready.length + 2 ≤ fuel ∨ (s.fbtbc = 0 ∧ s.lastFrag = true ∧ 1 ≤ fuel)) :
    ∃ s', (skipRecordLoop fuel).run s = (some (), s') ∧ Reading tail s' [] ∧ s'.fbtbc = 0 ∧
      s'.lastFrag = true := by
  induction fuel generalizing s t with
  | zero => omega
  | succ fuel ih =>
      simp only [skipRecordLoop, run_bind_gets]
      by_cases hEnd : s.fbtbc = 0 ∧ s.lastFrag = true
      · obtain ⟨hDone, hLast⟩ := hEnd
        obtain rfl := h.at_end hDone hLast
        refine ⟨s, ?_, h, hDone, hLast⟩
        simp [hDone, hLast]
      · have hMore : (decide (s.fbtbc > 0) || !s.lastFrag) = true := by
          cases hLast : s.lastFrag with
          | false => simp
          | true =>
              have hPos : s.fbtbc ≠ 0 := fun hZero => hEnd ⟨hZero, hLast⟩
              simp
              omega
        obtain ⟨s₁, hSkip, hFlag, hLess, hRead⟩ := skipInputBytes_reading h
        have hRounds : s.ready.length + 2 ≤ fuel + 1 := by
          rcases hFuel with hFuel | ⟨hDone, hLast, -⟩
          · exact hFuel
          · exact absurd ⟨hDone, hLast⟩ hEnd
        simp only [hMore, if_true, run_bind_gets, run_bind_some hSkip, run_bind_modify]
        cases hLast : s.lastFrag with
        | true =>
            have hHere : s₁.lastFrag = true := hFlag.trans hLast
            rw [if_pos hHere]
            exact ih _ _ hRead (Or.inr ⟨rfl, hHere, by omega⟩)
        | false =>
            have hHere : s₁.lastFrag = false := hFlag.trans hLast
            obtain ⟨s₂, hHead, hRead', -, hShrink⟩ := setInputFragment_reading hRead rfl hHere
            have hSame : (RecStrm.ready { s₁ with fbtbc := 0 }).length = s₁.ready.length := rfl
            rw [if_neg (by rw [hHere]; exact Bool.false_ne_true), run_bind_some hHead]
            exact ih _ _ hRead' (Or.inl (by omega))

/-- Skipping to the next record leaves the stream in front of what follows. -/
theorem xdrrecSkiprecord_reading {s : RecStrm} {t : List UInt8} (h : Reading tail s t) :
    ∃ s', xdrrecSkiprecord.run s = (some (), s') ∧ AtRecord tail s' := by
  have hInput : s.ready.length ≤ s.input.length := by
    rw [input_eq, List.length_append]
    omega
  obtain ⟨s₁, hRun, hRead, hDone, hLast⟩ :=
    skipRecordLoop_reading (s.input.length + 2) s t h (Or.inl (by omega))
  have hSkip : skipRecord.run s = (some (), s₁) := hRun
  refine ⟨{ s₁ with lastFrag := false }, ?_, ?_⟩
  · simp only [Fallible.run, xdrrecSkiprecord, h.blocking.nonblock, Bool.false_eq_true, if_false]
    rw [show skipRecord s = _ from hSkip]
  · obtain ⟨cur, hLen, ⟨-, hReady, rfl⟩ | ⟨hMore, -⟩⟩ := hRead.place
    · exact ⟨{ hRead.blocking with }, hDone, rfl, hReady⟩
    · rw [hLast] at hMore
      cases hMore

@[simp] theorem length_malloc (host : Host) (n : Nat) : (host.malloc n).length = n := by
  simp [Host.malloc]

/-- A new stream stands at the end of a record that never was. -/
theorem reading_xdrrecCreate (sendsize : BitVec 32) {recvsize : BitVec 32} (host : Host)
    {tcp : Transport} (hRecv : recvsize.toNat ≤ 2 ^ 31 - 4) (hLine : tcp.nonblock = false) :
    Reading (Transport.ready tcp.arrivals) (xdrrecCreate sendsize recvsize host tcp) [] where
  blocking := by
    have hMin := le_fixBufSize (s := recvsize) (by omega)
    have hSize := toNat_fixBufSize (s := recvsize) (by omega)
    have hMax : rndup (if recvsize.toNat < 100 then 4000 else recvsize.toNat) < 2 ^ 31 := by
      unfold rndup bytesPerXdrUnit
      split <;> omega
    exact {
      nonblock := rfl
      line := hLine
      finger := le_refl _
      boundry := by simp [xdrrecCreate]
      size := by simp [xdrrecCreate]
      size_min := by
        show 4 ≤ (fixBufSize recvsize).toNat
        omega
      size_int := by
        show (fixBufSize recvsize).toNat < 2 ^ 31
        omega }
  place := by
    refine ⟨[], rfl, Or.inl ⟨rfl, ?_, rfl⟩⟩
    simp [ready, buffered, xdrrecCreate]

/-- A blocking record stream reads the record it stands in. -/
theorem lawful_reading : LawfulReader (Reading tail) := by
  apply LawfulReader.of_runs
  · intro s t h
    obtain ⟨hEnough, hShort⟩ := run_xdrrecGetlong h
    refine ⟨hEnough, fun hLt => ?_⟩
    obtain ⟨s', hRun, -⟩ := hShort hLt
    exact congrArg Prod.fst hRun
  · intro n s t h
    obtain ⟨hEnough, hShort⟩ := xdrrecGetbytes_reads h n
    refine ⟨hEnough, fun hLt => ?_⟩
    obtain ⟨s', hRun, -⟩ := hShort hLt
    exact congrArg Prod.fst hRun
  · intro n s t h
    rcases run_xdrrecInline h n with hRun | ⟨s', hRun, hRest⟩
    · exact Or.inl ⟨s, hRun, h⟩
    · exact Or.inr ⟨s.inFinger, s', hRun, hRest⟩

end OncRpc.RecStrm
