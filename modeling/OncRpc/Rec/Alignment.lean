import OncRpc.Rec.ReadScript

/-! Reads that fail on a blocking stream, and what comes after. The stream keeps its
place among the fragments as long as no request for input is torn: a request may fail,
but not once some of its bytes have been taken. -/
namespace OncRpc.RecStrm

open Fallible RecordMarking

/-- A call on the decoding side of the stream. -/
inductive ReadCall where
  | getlong
  | getbytes (len : Nat)
  | skiprecord
  deriving DecidableEq, Repr

def ReadCall.run : ReadCall → RecStrm → Bool × RecStrm
  | .getlong, s => ((xdrrecGetlong.run s).1.isSome, (xdrrecGetlong.run s).2)
  | .getbytes len, s => (((xdrrecGetbytes len).run s).1.isSome, ((xdrrecGetbytes len).run s).2)
  | .skiprecord, s => ((xdrrecSkiprecord.run s).1.isSome, (xdrrecSkiprecord.run s).2)

def runCalls : List ReadCall → RecStrm → RecStrm
  | [], s => s
  | call :: calls, s => runCalls calls (call.run s).2

/-- The bytes that one round of `xdrrec_getbytes` asks for. -/
def chunk (n : Nat) (s : RecStrm) : Nat := if n < s.fbtbc then n else s.fbtbc

/-- The requests for input that the loop of `xdrrec_getbytes` makes, each with the
stream it is made on. -/
def getbytesAsks : Nat → Nat → RecStrm → List (Nat × RecStrm)
  | _, 0, _ => []
  | 0, _ + 1, _ => []
  | fuel + 1, n + 1, s =>
      if s.fbtbc = 0 then
        if s.lastFrag then []
        else
          (4, s) ::
            match setInputFragment.run s with
            | (none, _) => []
            | (some (), s) => getbytesAsks fuel (n + 1) s
      else
        (s.chunk (n + 1), s) ::
          match (getInputBytes (s.chunk (n + 1))).run s with
          | (none, _) => []
          | (some _, s₁) =>
              getbytesAsks fuel (n + 1 - s.chunk (n + 1))
                { s₁ with fbtbc := s₁.fbtbc - s.chunk (n + 1) }

/-- Those of the loop of `xdrrec_skiprecord`. -/
def skipRecordAsks : Nat → RecStrm → List (Nat × RecStrm)
  | 0, _ => []
  | fuel + 1, s =>
      if s.fbtbc > 0 ∨ s.lastFrag = false then
        (s.fbtbc, s) ::
          match (skipInputBytes s.fbtbc).run s with
          | (none, _) => []
          | (some (), s₁) =>
              if s.lastFrag then skipRecordAsks fuel { s₁ with fbtbc := 0 }
              else
                (4, { s₁ with fbtbc := 0 }) ::
                  match setInputFragment.run { s₁ with fbtbc := 0 } with
                  | (none, _) => []
                  | (some (), s) => skipRecordAsks fuel s
      else []

/-- The requests of a call. A word that lies in the buffer is not asked for. -/
def ReadCall.asks : ReadCall → RecStrm → List (Nat × RecStrm)
  | .getlong, s =>
      if s.fbtbc ≥ 4 ∧ s.inBoundry - s.inFinger ≥ 4 then [] else getbytesAsks 9 4 s
  | .getbytes len, s => getbytesAsks (2 * len + 1) len s
  | .skiprecord, s => skipRecordAsks (s.input.length + 2) s

/-- Either the request gets all its bytes or it gets none of them. -/
def Whole (ask : Nat × RecStrm) : Prop := ask.2.ready = [] ∨ ask.1 ≤ ask.2.ready.length

instance (ask : Nat × RecStrm) : Decidable (Whole ask) := inferInstanceAs (Decidable (_ ∨ _))

/-- No request of any of the calls is torn by a read that fails. -/
def Untorn : List ReadCall → RecStrm → Prop
  | [], _ => True
  | call :: calls, s => (∀ ask ∈ call.asks s, Whole ask) ∧ Untorn calls (call.run s).2

instance decidableUntorn : ∀ calls s, Decidable (Untorn calls s)
  | [], _ => inferInstanceAs (Decidable True)
  | call :: calls, s =>
      have := decidableUntorn calls (call.run s).2
      inferInstanceAs (Decidable ((∀ ask ∈ call.asks s, Whole ask) ∧ Untorn calls (call.run s).2))

/-- The stream stands before the header of a record of `rs`, or behind the last one.
What will never arrive of them is `missing`. -/
def Aligned (rs : List Record) (missing : List UInt8) (s : RecStrm) : Prop :=
  ∃ j, s.input ++ missing = encodeAll ((rs.drop j).flatMap Record.frags)

/-- The stream knows its place: `cur` is left of a fragment of `rs`, the fragments `fs`
follow it, and behind a last fragment they begin a record. -/
def InPlace (rs : List Record) (missing : List UInt8) (s : RecStrm) : Prop :=
  ∃ cur fs, s.fbtbc = cur.length ∧ s.input ++ missing = cur ++ encodeAll fs ∧
    fs <:+ rs.flatMap Record.frags ∧
    (s.lastFrag = true → ∃ j, fs = (rs.drop j).flatMap Record.frags)

structure Placed (rs : List Record) (missing : List UInt8) (s : RecStrm) : Prop where
  blocking : s.Blocking
  place : InPlace rs missing s

variable {rs : List Record} {missing : List UInt8}

/-- A request that fails without taking anything leaves the place as it is. -/
theorem Placed.of_drained {s s' : RecStrm} (h : Placed rs missing s) (hDrain : Drained s s')
    (hReady : s.ready = []) : Placed rs missing s' := by
  obtain ⟨cur, fs, hLen, hInput, hSuffix, hLast⟩ := h.place
  have hSame := hDrain.input_eq
  rw [hReady, List.nil_append] at hSame
  refine ⟨hDrain.blocking, cur, fs, ?_, ?_, hSuffix, ?_⟩
  · rw [hDrain.fbtbc_eq, hLen]
  · rw [← hSame, hInput]
  · rw [hDrain.lastFrag_eq]
    exact hLast

/-- Bytes of the fragment are taken and counted off. -/
theorem Placed.of_consumed {s s₁ : RecStrm} {k : Nat} (h : Placed rs missing s)
    (hk : k ≤ s.fbtbc) (hReady : k ≤ s.ready.length) (hCons : Consumed k s s₁) :
    Placed rs missing { s₁ with fbtbc := s₁.fbtbc - k } := by
  obtain ⟨cur, fs, hLen, hInput, hSuffix, hLast⟩ := h.place
  have hTake : (s.ready.take k).length = k := List.length_take_of_le hReady
  rw [hCons.input_eq, List.append_assoc] at hInput
  have hDrop := congrArg (List.drop k) hInput
  rw [List.drop_left' hTake, List.drop_append_of_le_length (by omega)] at hDrop
  refine ⟨{ hCons.blocking with }, cur.drop k, fs, ?_, hDrop, hSuffix, ?_⟩
  · show s₁.fbtbc - k = _
    rw [hCons.fbtbc_eq, hLen, List.length_drop]
  · show s₁.lastFrag = true → _
    rw [hCons.lastFrag_eq]
    exact hLast

/-- Between two fragments the next header is obeyed, refused, or not there. -/
theorem Placed.setInputFragment {s : RecStrm} (h : Placed rs missing s) (hDone : s.fbtbc = 0)
    (hWhole : Whole (4, s)) : Placed rs missing (setInputFragment.run s).2 := by
  obtain ⟨cur, fs, hLen, hInput, hSuffix, -⟩ := h.place
  obtain rfl : cur = [] := List.length_eq_zero_iff.mp (hLen.symm.trans hDone)
  rw [List.nil_append] at hInput
  rcases hWhole with hNone | hFour
  · obtain ⟨s₁, hGet, hDrain⟩ := (getInputBytes_delivers h.blocking 4).2 (by
      rw [show s.ready = [] from hNone]
      exact Nat.zero_lt_succ 3)
    rw [RecStrm.setInputFragment, run_bind_gets, run_bind_require, if_pos h.blocking.nonblock,
      run_bind_none hGet]
    exact h.of_drained hDrain hNone
  · have hTake : (s.ready.take 4).length = 4 := List.length_take_of_le hFour
    have hReady : s.ready = Word.toBytes (Word.ofBytes (s.ready.take 4)) ++ s.ready.drop 4 := by
      rw [Word.toBytes_ofBytes hTake, List.take_append_drop]
    obtain ⟨s₁, hCons, hZero, hRun⟩ := setInputFragment_header h.blocking hReady
    have hBytes := hInput
    rw [hCons.input_eq, List.append_assoc] at hBytes
    cases fs with
    | nil =>
        rw [encodeAll_nil, List.append_eq_nil_iff] at hBytes
        rw [hBytes.1] at hTake
        cases hTake
    | cons f fs =>
        rw [encodeAll_cons, Fragment.encode, List.append_assoc] at hBytes
        obtain ⟨hHead, hRest⟩ := List.append_inj hBytes (by rw [hTake, Word.length_toBytes])
        rw [hHead, Word.ofBytes_toBytes] at hZero hRun
        have hTail : fs <:+ rs.flatMap Record.frags := (List.suffix_cons f fs).trans hSuffix
        obtain ⟨hCount, hMark⟩ := head_says f
        by_cases hf : f.head = 0
        · rw [hZero hf]
          obtain ⟨hBody, -⟩ := f.head_eq_zero.mp hf
          rw [hBody] at hRest
          refine ⟨{ hCons.blocking with }, [], fs, ?_, hRest, hTail, fun hTrue => by cases hTrue⟩
          exact hCons.fbtbc_eq.trans hDone
        · rw [hRun hf]
          refine ⟨{ hCons.blocking with }, f.body, fs, hCount, hRest, hTail, fun hLast => ?_⟩
          exact exists_drop_of_last hSuffix (hMark.symm.trans hLast)

/-- A chunk of the current fragment is taken whole, or not at all. -/
theorem Placed.getInputBytes {s : RecStrm} (h : Placed rs missing s) {k : Nat} (hPos : 0 < k)
    (hk : k ≤ s.fbtbc) (hWhole : Whole (k, s)) :
    (∃ s₁, (getInputBytes k).run s = (none, s₁) ∧ Placed rs missing s₁) ∨
    ∃ bs s₁, (getInputBytes k).run s = (some bs, s₁) ∧
      Placed rs missing { s₁ with fbtbc := s₁.fbtbc - k } := by
  rcases hWhole with hNone | hEnough
  · obtain ⟨s₁, hGet, hDrain⟩ := (getInputBytes_delivers h.blocking k).2 (by
      rw [show s.ready = [] from hNone]
      exact hPos)
    exact Or.inl ⟨s₁, hGet, h.of_drained hDrain hNone⟩
  · obtain ⟨s₁, hGet, hCons⟩ := (getInputBytes_delivers h.blocking k).1 hEnough
    exact Or.inr ⟨_, s₁, hGet, h.of_consumed hk hEnough hCons⟩

/-- The induction is on the fuel, and every round keeps the place. -/
theorem getbytesLoop_placed (fuel n : Nat) {s : RecStrm} (h : Placed rs missing s)
    (hAsks : ∀ ask ∈ getbytesAsks fuel n s, Whole ask) :
    Placed rs missing ((getbytesLoop fuel n).run s).2 := by
  induction fuel generalizing n s with
  | zero => cases n <;> exact h
  | succ fuel ih =>
      cases n with
      | zero => exact h
      | succ n =>
          simp only [getbytesAsks] at hAsks
          simp only [getbytesLoop, run_bind_gets]
          by_cases hDone : s.fbtbc = 0
          · rw [if_pos hDone] at hAsks ⊢
            rw [run_bind_gets, run_bind_require]
            cases hLast : s.lastFrag with
            | true =>
                rw [if_neg (by simp)]
                exact h
            | false =>
                rw [hLast, if_neg Bool.false_ne_true] at hAsks
                rw [if_pos rfl]
                have hNext := h.setInputFragment hDone (hAsks _ List.mem_cons_self)
                rcases hRun : RecStrm.setInputFragment.run s with ⟨_ | u, s₁⟩
                · rw [run_bind_none hRun]
                  rwa [hRun] at hNext
                · rw [run_bind_some hRun]
                  rw [hRun] at hNext hAsks
                  exact ih (n + 1) hNext fun ask hMem => hAsks ask (List.mem_cons_of_mem _ hMem)
          · rw [if_neg hDone] at hAsks ⊢
            have hPos : 0 < s.chunk (n + 1) := by
              unfold chunk
              split <;> omega
            have hLe : s.chunk (n + 1) ≤ s.fbtbc := by
              unfold chunk
              split <;> omega
            rw [show (if n + 1 < s.fbtbc then n + 1 else s.fbtbc) = s.chunk (n + 1) from rfl]
            rcases h.getInputBytes hPos hLe (hAsks _ List.mem_cons_self) with
              ⟨s₁, hGet, hNext⟩ | ⟨bs, s₁, hGet, hNext⟩
            · rw [run_bind_none hGet]
              exact hNext
            · rw [hGet] at hAsks
              have hRest := ih _ hNext fun ask hMem => hAsks ask (List.mem_cons_of_mem _ hMem)
              rw [run_bind_some hGet, run_bind_modify, run_bind]
              rcases hRun : (getbytesLoop fuel (n + 1 - s.chunk (n + 1))).run
                { s₁ with fbtbc := s₁.fbtbc - s.chunk (n + 1) } with ⟨_ | rest, s₂⟩
              · rwa [hRun] at hRest
              · rwa [hRun] at hRest

/-- The rest of the current fragment is skipped whole, or not at all. -/
theorem Placed.skipInputBytes {s : RecStrm} (h : Placed rs missing s) (hWhole : Whole (s.fbtbc, s)) :
    (∃ s₁, (skipInputBytes s.fbtbc).run s = (none, s₁) ∧ Placed rs missing s₁) ∨
    ∃ s₁, (skipInputBytes s.fbtbc).run s = (some (), s₁) ∧ s₁.lastFrag = s.lastFrag ∧
      Placed rs missing { s₁ with fbtbc := 0 } := by
  obtain ⟨hEnough, hShort⟩ := skipInputBytes_spec h.blocking s.fbtbc
  by_cases hFits : s.fbtbc ≤ s.ready.length
  · obtain ⟨s₁, hSkip, hCons⟩ := hEnough hFits
    have hNext := h.of_consumed (le_refl _) hFits hCons
    rw [hCons.fbtbc_eq, Nat.sub_self] at hNext
    exact Or.inr ⟨s₁, hSkip, hCons.lastFrag_eq, hNext⟩
  · obtain ⟨s₁, hSkip, hDrain⟩ := hShort (Nat.not_le.mp hFits)
    exact Or.inl ⟨s₁, hSkip, h.of_drained hDrain (hWhole.resolve_right hFits)⟩

theorem skipRecordLoop_placed (fuel : Nat) {s : RecStrm} (h : Placed rs missing s)
    (hAsks : ∀ ask ∈ skipRecordAsks fuel s, Whole ask) :
    Placed rs missing ((skipRecordLoop fuel).run s).2 ∧
      (((skipRecordLoop fuel).run s).1.isSome →
        ((skipRecordLoop fuel).run s).2.fbtbc = 0 ∧
        ((skipRecordLoop fuel).run s).2.lastFrag = true) := by
  induction fuel generalizing s with
  | zero => exact ⟨h, fun hSome => by cases hSome⟩
  | succ fuel ih =>
      simp only [skipRecordAsks] at hAsks
      simp only [skipRecordLoop, run_bind_gets]
      by_cases hMore : s.fbtbc > 0 ∨ s.lastFrag = false
      · have hTest : (decide (s.fbtbc > 0) || !s.lastFrag) = true := by simpa using hMore
        rw [if_pos hMore] at hAsks
        rw [if_pos hTest, run_bind_gets]
        rcases h.skipInputBytes (hAsks _ List.mem_cons_self) with
          ⟨s₁, hSkip, hNext⟩ | ⟨s₁, hSkip, hFlag, hNext⟩
        · rw [run_bind_none hSkip]
          exact ⟨hNext, fun hSome => by cases hSome⟩
        · rw [hSkip] at hAsks
          dsimp only at hAsks
          rw [run_bind_some hSkip, run_bind_modify, run_bind_gets]
          cases hLast : s.lastFrag with
          | true =>
              have hHere : ({ s₁ with fbtbc := 0 } : RecStrm).lastFrag = true := hFlag.trans hLast
              rw [if_pos hLast] at hAsks
              rw [if_pos hHere]
              exact ih hNext fun ask hMem => hAsks ask (List.mem_cons_of_mem _ hMem)
          | false =>
              have hHere : ¬ ({ s₁ with fbtbc := 0 } : RecStrm).lastFrag = true := by
                rw [show ({ s₁ with fbtbc := 0 } : RecStrm).lastFrag = false from hFlag.trans hLast]
                exact Bool.false_ne_true
              rw [if_neg (by rw [hLast]; exact Bool.false_ne_true)] at hAsks
              rw [if_neg hHere]
              have hHeader := hNext.setInputFragment rfl
                (hAsks _ (List.mem_cons_of_mem _ List.mem_cons_self))
              rcases hRun : RecStrm.setInputFragment.run { s₁ with fbtbc := 0 } with ⟨_ | u, s₂⟩
              · rw [run_bind_none hRun]
                rw [hRun] at hHeader
                exact ⟨hHeader, fun hSome => by cases hSome⟩
              · rw [run_bind_some hRun]
                rw [hRun] at hHeader hAsks
                exact ih hHeader fun ask hMem =>
                  hAsks ask (List.mem_cons_of_mem _ (List.mem_cons_of_mem _ hMem))
      · have hTest : ¬ (decide (s.fbtbc > 0) || !s.lastFrag) = true := by simpa using hMore
        rw [if_neg hTest, run_pure]
        obtain ⟨hDone, hLast⟩ := not_or.mp hMore
        exact ⟨h, fun _ => ⟨Nat.eq_zero_of_not_pos hDone, by simpa using hLast⟩⟩

theorem xdrrecSkiprecord_placed {s : RecStrm} (h : Placed rs missing s)
    (hAsks : ∀ ask ∈ ReadCall.skiprecord.asks s, Whole ask) :
    Placed rs missing (xdrrecSkiprecord.run s).2 ∧
      ((xdrrecSkiprecord.run s).1.isSome → Aligned rs missing (xdrrecSkiprecord.run s).2) := by
  have hBlock : ¬ s.nonblock = true := by
    rw [h.blocking.nonblock]
    exact Bool.false_ne_true
  obtain ⟨hPlaced, hEnd⟩ := skipRecordLoop_placed (s.input.length + 2) h hAsks
  have hLoop : skipRecord.run s = (skipRecordLoop (s.input.length + 2)).run s := rfl
  rcases hRun : (skipRecordLoop (s.input.length + 2)).run s with ⟨_ | u, s₁⟩
  · rw [hRun] at hPlaced hLoop
    have hSkip : xdrrecSkiprecord.run s = (none, s₁) := by
      simp only [Fallible.run, xdrrecSkiprecord, if_neg hBlock]
      rw [show skipRecord s = _ from hLoop]
    rw [hSkip]
    exact ⟨hPlaced, fun hSome => by cases hSome⟩
  · rw [hRun] at hPlaced hLoop hEnd
    have hSkip : xdrrecSkiprecord.run s = (some (), { s₁ with lastFrag := false }) := by
      simp only [Fallible.run, xdrrecSkiprecord, if_neg hBlock]
      rw [show skipRecord s = _ from hLoop]
    obtain ⟨hDone, hLast⟩ := hEnd rfl
    obtain ⟨cur, fs, hLen, hInput, hSuffix, hBoundary⟩ := hPlaced.place
    obtain rfl : cur = [] := List.length_eq_zero_iff.mp (hLen.symm.trans hDone)
    rw [hSkip]
    constructor
    · exact ⟨{ hPlaced.blocking with }, [], fs, hDone, hInput, hSuffix, fun hTrue => by cases hTrue⟩
    · intro _
      obtain ⟨j, rfl⟩ := hBoundary hLast
      exact ⟨j, hInput⟩

/-- Every call keeps the place. -/
theorem ReadCall.run_placed (call : ReadCall) {s : RecStrm} (h : Placed rs missing s)
    (hAsks : ∀ ask ∈ call.asks s, Whole ask) : Placed rs missing (call.run s).2 := by
  cases call with
  | getbytes len => exact getbytesLoop_placed (2 * len + 1) len h hAsks
  | skiprecord => exact (xdrrecSkiprecord_placed h hAsks).1
  | getlong =>
      show Placed rs missing (xdrrecGetlong.run s).2
      unfold xdrrecGetlong
      rw [run_bind_gets]
      by_cases hFast : s.fbtbc ≥ 4 ∧ s.inBoundry - s.inFinger ≥ 4
      · obtain ⟨hFrag, hBuf⟩ := hFast
        obtain ⟨s₁, hTake, hCons⟩ := takeInput_consumed h.blocking hBuf
        have hReady : 4 ≤ s.ready.length := by
          rw [ready, List.length_append, h.blocking.length_buffered]
          omega
        rw [if_pos (decide_eq_true ⟨hFrag, hBuf⟩), run_bind_some hTake, run_bind_modify, run_pure]
        exact h.of_consumed hFrag hReady hCons
      · rw [ReadCall.asks, if_neg hFast] at hAsks
        have hNext := getbytesLoop_placed 9 4 h hAsks
        rw [if_neg (by rw [decide_eq_false hFast]; exact Bool.false_ne_true), run_bind]
        rcases hRun : (xdrrecGetbytes 4).run s with ⟨_ | bs, s₁⟩
        · rwa [show (getbytesLoop 9 4).run s = _ from hRun] at hNext
        · rwa [show (getbytesLoop 9 4).run s = _ from hRun] at hNext

theorem runCalls_placed (calls : List ReadCall) {s : RecStrm} (h : Placed rs missing s)
    (hUntorn : Untorn calls s) : Placed rs missing (runCalls calls s) := by
  induction calls generalizing s with
  | nil => exact h
  | cons call calls ih =>
      obtain ⟨hAsks, hLater⟩ := hUntorn
      exact ih (call.run_placed h hAsks) hLater

theorem untorn_append (calls calls' : List ReadCall) (s : RecStrm) :
    Untorn (calls ++ calls') s ↔ Untorn calls s ∧ Untorn calls' (runCalls calls s) := by
  induction calls generalizing s with
  | nil => exact (and_iff_right trivial).symm
  | cons call calls ih =>
      rw [List.cons_append, Untorn, Untorn, ih, runCalls, and_assoc]

/-- A new stream stands behind a record that never was. -/
theorem inPlace_new {s : RecStrm} (hDone : s.fbtbc = 0)
    (hInput : s.input ++ missing = encodeAll (rs.flatMap Record.frags)) : InPlace rs missing s :=
  ⟨[], rs.flatMap Record.frags, hDone, hInput, List.suffix_rfl, fun _ => ⟨0, rfl⟩⟩

theorem input_xdrrecCreate (sendsize recvsize : BitVec 32) (host : Host) (line : Transport) :
    (xdrrecCreate sendsize recvsize host line).input = Transport.bytes line.arrivals := by
  simp [input, buffered, xdrrecCreate]

/-- A deaf stream takes nothing in; at most it forgets that a record has ended. -/
theorem Deaf.run_eq (call : ReadCall) {s : RecStrm} (h : s.Deaf) :
    (call.run s).2 = s ∨ (call.run s).2 = { s with lastFrag := false } := by
  cases call with
  | getlong =>
      rw [ReadCall.run, h.getlong_fails]
      exact Or.inl rfl
  | getbytes len =>
      cases len with
      | zero => exact Or.inl rfl
      | succ len =>
          rw [ReadCall.run, h.getbytes_fails len]
          exact Or.inl rfl
  | skiprecord =>
      rw [ReadCall.run]
      cases hLast : s.lastFrag with
      | false =>
          rw [h.skip_fails hLast]
          exact Or.inl rfl
      | true =>
          rw [h.skip_ends hLast]
          exact Or.inr rfl

theorem Deaf.runCalls_eq (calls : List ReadCall) {s : RecStrm} (h : s.Deaf) :
    (runCalls calls s).Deaf ∧ (runCalls calls s).input = s.input := by
  induction calls generalizing s with
  | nil => exact ⟨h, rfl⟩
  | cons call calls ih =>
      have hFlag : ({ s with lastFrag := false } : RecStrm).Deaf := { h with }
      rw [runCalls]
      rcases h.run_eq call with hSame | hFlagged
      · rw [hSame]
        exact ih h
      · rw [hFlagged]
        exact ih hFlag

/-- As long as no request is torn the stream knows its place, whatever fails, and a
skip that succeeds finds the next record. -/
theorem xdrrecSkiprecord_aligned (sendsize recvsize : BitVec 32) (host : Host) (line : Transport)
    (rs : List Record) (missing : List UInt8) (calls : List ReadCall)
    (hRecv : recvsize.toNat ≤ 2 ^ 32 - 4) (hLine : line.nonblock = false)
    (hBytes : Transport.bytes line.arrivals ++ missing = encodeAll (rs.flatMap Record.frags))
    (hUntorn : Untorn (calls ++ [.skiprecord]) (xdrrecCreate sendsize recvsize host line)) :
    InPlace rs missing (runCalls calls (xdrrecCreate sendsize recvsize host line)) ∧
    ((xdrrecSkiprecord.run
        (runCalls calls (xdrrecCreate sendsize recvsize host line))).1.isSome →
      Aligned rs missing (xdrrecSkiprecord.run
        (runCalls calls (xdrrecCreate sendsize recvsize host line))).2) := by
  have hInput := input_xdrrecCreate sendsize recvsize host line
  rw [← hInput] at hBytes
  rcases Nat.lt_or_ge (2 ^ 31 - 4) recvsize.toNat with hBig | hSmall
  · obtain ⟨hDeaf, hSame⟩ := (deaf_xdrrecCreate sendsize host line hRecv hBig).runCalls_eq calls
    rw [← hSame] at hBytes
    refine ⟨inPlace_new hDeaf.fbtbc_eq hBytes, fun _ => ⟨0, ?_⟩⟩
    have hSkip := hDeaf.run_eq .skiprecord
    rw [ReadCall.run] at hSkip
    rcases hSkip with hSkip | hSkip
    · rw [hSkip]
      exact hBytes
    · rw [hSkip]
      exact hBytes
  · obtain ⟨hCalls, hSkip, -⟩ := (untorn_append calls [.skiprecord] _).mp hUntorn
    have hNew : Placed rs missing (xdrrecCreate sendsize recvsize host line) :=
      ⟨(reading_xdrrecCreate sendsize host hSmall hLine).blocking, inPlace_new rfl hBytes⟩
    have hPlaced := runCalls_placed calls hNew hCalls
    exact ⟨hPlaced.place, (xdrrecSkiprecord_placed hPlaced hSkip).2⟩

/-- A record of one fragment. -/
def oneFragment (body : List UInt8) (hFits : body.length < 2 ^ 31) : Record where
  more := []
  final := { body := body, last := true, fits := hFits }
  more_last := Record.none_last
  final_last := rfl

/-- Two records of eight and four bytes. -/
def twoRecords : List Record :=
  [oneFragment [1, 2, 3, 4, 5, 6, 7, 8] (by decide), oneFragment [9, 9, 9, 9] (by decide)]

/-- The first header arrives, then a read fails, then comes all the rest. -/
def failsBehindHeader : Transport where
  arrivals := [.data [0x80, 0, 0, 8], .error,
    .data [1, 2, 3, 4, 5, 6, 7, 8, 0x80, 0, 0, 4, 9, 9, 9, 9]]
  written := []
  nonblock := false
  writable := true

theorem xdrrecSkiprecord_aligned_failsBehindHeader :
    Aligned twoRecords [] (xdrrecSkiprecord.run (runCalls [.skiprecord, .skiprecord, .getlong,
      .getlong] (xdrrecCreate 100 100 zeroHost failsBehindHeader))).2 :=
  (xdrrecSkiprecord_aligned 100 100 zeroHost failsBehindHeader twoRecords []
    [.skiprecord, .skiprecord, .getlong, .getlong] (by decide) rfl (by decide)
    (by decide)).2 (by decide)

/-- Half of the first body arrives, then a read fails, then comes all the rest. -/
def failsInBody : Transport where
  arrivals := [.data [0x80, 0, 0, 8, 1, 2, 3, 4], .error,
    .data [5, 6, 7, 8, 0x80, 0, 0, 4, 9, 9, 9, 9]]
  written := []
  nonblock := false
  writable := true

/-- The bytes that a failed request has taken are still counted: the skip that follows
takes the second header for them and stops in the second body. -/
theorem not_xdrrecSkiprecord_aligned_failsInBody :
    ¬ ∀ (sendsize recvsize : BitVec 32) (host : Host) (line : Transport) (rs : List Record)
        (missing : List UInt8) (calls : List ReadCall), recvsize.toNat ≤ 2 ^ 32 - 4 →
      line.nonblock = false →
      Transport.bytes line.arrivals ++ missing = encodeAll (rs.flatMap Record.frags) →
      (xdrrecSkiprecord.run
        (runCalls calls (xdrrecCreate sendsize recvsize host line))).1.isSome →
      Aligned rs missing (xdrrecSkiprecord.run
        (runCalls calls (xdrrecCreate sendsize recvsize host line))).2 := by
  intro h
  obtain ⟨j, hAligned⟩ := h 100 100 zeroHost failsInBody twoRecords []
    [.skiprecord, .getbytes 8] (by decide) rfl (by decide) (by decide)
  have hInput : (xdrrecSkiprecord.run (runCalls [.skiprecord, .getbytes 8]
      (xdrrecCreate 100 100 zeroHost failsInBody))).2.input = [9, 9, 9, 9] := by
    decide
  rw [hInput] at hAligned
  have hLen := congrArg List.length hAligned
  rcases j with _ | _ | j
  · revert hLen
    decide
  · revert hLen
    decide
  · simp [twoRecords] at hLen

end OncRpc.RecStrm
