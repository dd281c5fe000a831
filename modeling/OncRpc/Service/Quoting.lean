import Mathlib.Data.List.TakeWhile
import OncRpc.Service.Arguments

/-! Splitting a command line undoes its quoting. -/
namespace OncRpc.Service.Arguments

/-! ### What a text splits into -/

/-- The argument at the start of a text, and what is left of it. -/
inductive Takes (escapes : Bool) (stops : UInt8 → Bool) : CString → CString → CString → Prop
  | done : Takes escapes stops [] [] []
  | stop {c : UInt8} {rest : CString} (hStop : stops c = true) :
      Takes escapes stops (c :: rest) [] (c :: rest)
  | escaped {c : UInt8} {text arg rest : CString} (hEscapes : escapes = true)
      (hStop : stops backslash = false) (hEscaped : isEscaped c = true)
      (hRest : Takes escapes stops text arg rest) :
      Takes escapes stops (backslash :: c :: text) (c :: arg) rest
  | plain {c : UInt8} {text arg rest : CString} (hStop : stops c = false)
      (hPlain : escapes = true → c = backslash → ∀ d ∈ text.head?, isEscaped d = false)
      (hRest : Takes escapes stops text arg rest) : Takes escapes stops (c :: text) (c :: arg) rest

/-- All the arguments of a text. The character that an argument stops at is skipped. -/
inductive Splits (escapes : Bool) : CString → List CString → Prop
  | done : Splits escapes [] []
  | blank {c : UInt8} {text : CString} {args : List CString} (hBlank : isBlank c = true)
      (hRest : Splits escapes text args) : Splits escapes (c :: text) args
  | quoted {quote : UInt8} {text arg rest : CString} {args : List CString}
      (hQuote : isQuote quote = true)
      (hTakes : Takes escapes (stopsQuoted quote) text arg rest)
      (hRest : Splits escapes rest.tail args) : Splits escapes (quote :: text) (arg :: args)
  | bare {c : UInt8} {text arg rest : CString} {args : List CString} (hBlank : isBlank c = false)
      (hQuote : isQuote c = false) (hTakes : Takes escapes isBlank (c :: text) arg rest)
      (hRest : Splits escapes rest.tail args) : Splits escapes (c :: text) (arg :: args)

section Total

variable {escapes : Bool} {stops : UInt8 → Bool} {text arg rest : CString}

theorem Takes.suffix (h : Takes escapes stops text arg rest) : rest <:+ text := by
  induction h with
  | done => exact List.suffix_rfl
  | stop _ => exact List.suffix_rfl
  | escaped _ _ _ _ ih => exact (ih.trans (List.suffix_cons _ _)).trans (List.suffix_cons _ _)
  | plain _ _ _ ih => exact ih.trans (List.suffix_cons _ _)

theorem takes_total (escapes : Bool) (stops : UInt8 → Bool) (n : Nat) :
    ∀ text : CString, text.length < n → ∃ arg rest, Takes escapes stops text arg rest := by
  induction n with
  | zero => exact fun text h => absurd h (Nat.not_lt_zero _)
  | succ n ih =>
      intro text hLength
      rcases text with - | ⟨c, text⟩
      · exact ⟨[], [], .done⟩
      rw [List.length_cons] at hLength
      cases hStop : stops c with
      | true => exact ⟨[], c :: text, .stop hStop⟩
      | false =>
          by_cases hEscape : escapes = true ∧ c = backslash ∧
              ∃ d ∈ text.head?, isEscaped d = true
          · obtain ⟨hEscapes, rfl, d, hd, hEscaped⟩ := hEscape
            rcases text with - | ⟨d', text⟩
            · exact nomatch hd
            rw [Option.some.inj hd] at *
            rw [List.length_cons] at hLength
            obtain ⟨arg, rest, hRest⟩ := ih text (by omega)
            exact ⟨_, _, .escaped hEscapes hStop hEscaped hRest⟩
          · obtain ⟨arg, rest, hRest⟩ := ih text (by omega)
            refine ⟨_, _, .plain hStop (fun hEscapes hIs d hd => ?_) hRest⟩
            by_contra hEscaped
            exact hEscape ⟨hEscapes, hIs, d, hd, Bool.not_eq_false _ ▸ hEscaped⟩

/-- Every text splits into something. -/
theorem splits_total (escapes : Bool) (n : Nat) :
    ∀ text : CString, text.length < n → ∃ args, Splits escapes text args := by
  induction n with
  | zero => exact fun text h => absurd h (Nat.not_lt_zero _)
  | succ n ih =>
      intro text hLength
      rcases text with - | ⟨c, text⟩
      · exact ⟨[], .done⟩
      rw [List.length_cons] at hLength
      cases hBlank : isBlank c with
      | true =>
          obtain ⟨args, hRest⟩ := ih text (by omega)
          exact ⟨args, .blank hBlank hRest⟩
      | false =>
          cases hQuote : isQuote c with
          | true =>
              obtain ⟨arg, rest, hTakes⟩ := takes_total escapes (stopsQuoted c) (n + 1) text
                (by omega)
              have hSuffix := hTakes.suffix.length_le
              obtain ⟨args, hRest⟩ := ih rest.tail (by rw [List.length_tail]; omega)
              exact ⟨_, .quoted hQuote hTakes hRest⟩
          | false =>
              obtain ⟨arg, rest, hTakes⟩ := takes_total escapes isBlank (n + 2) (c :: text)
                (by rw [List.length_cons]; omega)
              have hSuffix := hTakes.suffix.length_le
              rw [List.length_cons] at hSuffix
              obtain ⟨args, hRest⟩ := ih rest.tail (by rw [List.length_tail]; omega)
              exact ⟨_, .bare hBlank hQuote hTakes hRest⟩

end Total

/-! ### The splitter does it in place -/

/-- No write was ahead of where the command was read. -/
def Behind (writes : List (Nat × Nat)) : Prop := ∀ w ∈ writes, w.1 ≤ w.2

theorem Behind.concat {writes : List (Nat × Nat)} (h : Behind writes) {stop cmd : Nat}
    (hLe : stop ≤ cmd) : Behind (writes ++ [(stop, cmd)]) := by
  intro w hw
  rcases List.mem_append.mp hw with hOld | hNew
  · exact h w hOld
  · rw [List.mem_singleton.mp hNew]
    exact hLe

/-- A text is still to be read, and its NUL, and nothing was written into it. -/
structure Cursor.Reads (s : Cursor) (text : CString) : Prop where
  ahead : s.mem.drop s.cmd = text ++ [0]
  behind : s.stop ≤ s.cmd
  writes : Behind s.writes

section Refines

variable {escapes : Bool} {stops : UInt8 → Bool} {s : Cursor} {text arg rest : CString}

theorem getElem?_ahead {mem : List UInt8} {cmd : Nat} (h : mem.drop cmd = text ++ [0]) (i : Nat) :
    (mem)[cmd + i]? = (text ++ [0])[i]? := by
  rw [← List.getElem?_drop, h]

theorem length_ahead {mem : List UInt8} {cmd : Nat} (h : mem.drop cmd = text ++ [0]) :
    cmd + text.length + 1 = mem.length := by
  have hLength := congrArg List.length h
  rw [List.length_drop, List.length_append, List.length_singleton] at hLength
  omega

/-- A character further on is copied, over one that has been read. -/
theorem Cursor.Reads.copy {before : List UInt8} {c : UInt8}
    (h : s.Reads (before ++ c :: text)) :
    (s.copy (s.cmd + before.length) c).Reads text ∧
      (s.copy (s.cmd + before.length) c).mem.take (s.stop + 1) = s.mem.take s.stop ++ [c] ∧
      (s.copy (s.cmd + before.length) c).mem.length = s.mem.length := by
  have hLength := length_ahead h.ahead
  have hBehind := h.behind
  rw [List.length_append, List.length_cons] at hLength
  have hSet : s.mem.set s.stop c = s.mem.take s.stop ++ c :: s.mem.drop (s.stop + 1) := by
    rw [List.set_eq_take_append_cons_drop, if_pos (by omega)]
  have hTake : (s.mem.take s.stop).length = s.stop := List.length_take_of_le (by omega)
  refine ⟨⟨?_, ?_, h.writes.concat (by omega)⟩, ?_, List.length_set⟩
  · have hAhead : s.mem.drop (s.cmd + before.length + 1) = text ++ [0] := by
      have hParts : before ++ c :: text ++ [0] = (before ++ [c]) ++ (text ++ [0]) := by
        rw [List.append_assoc, List.append_assoc]
        rfl
      rw [Nat.add_assoc, ← List.drop_drop, h.ahead, hParts]
      exact List.drop_left' List.length_append
    have hSame : (s.mem.set s.stop c).drop (s.cmd + before.length + 1) =
        s.mem.drop (s.cmd + before.length + 1) := List.drop_set_of_lt (by omega)
    exact hSame.trans hAhead
  · exact Nat.succ_le_succ (Nat.le_trans h.behind (Nat.le_add_right _ _))
  · have hFront : (s.mem.take s.stop ++ [c]).length = s.stop + 1 := by
      rw [List.length_append, hTake, List.length_singleton]
    calc (s.mem.set s.stop c).take (s.stop + 1)
        = ((s.mem.take s.stop ++ [c]) ++ s.mem.drop (s.stop + 1)).take (s.stop + 1) := by
          rw [hSet, List.append_assoc, List.singleton_append]
      _ = s.mem.take s.stop ++ [c] := List.take_left' hFront

/-- The loop over an argument copies what the text takes. -/
theorem copyArgument_takes (hTakes : Takes escapes stops text arg rest) :
    ∀ rounds s, text.length < rounds → 0 ∉ text → s.Reads text →
      ∃ s', copyArgument escapes stops rounds s = some s' ∧ s'.Reads rest ∧
        s'.stop = s.stop + arg.length ∧ s'.mem.take s'.stop = s.mem.take s.stop ++ arg ∧
        s'.mem.length = s.mem.length := by
  induction hTakes with
  | done =>
      intro rounds s hRounds _ hReads
      obtain ⟨rounds, rfl⟩ := Nat.exists_eq_succ_of_ne_zero (Nat.ne_of_gt hRounds)
      have hNul : (s.mem)[s.cmd]? = some 0 := getElem?_ahead hReads.ahead 0
      refine ⟨s, ?_, hReads, rfl, (List.append_nil _).symm, rfl⟩
      simp only [copyArgument, hNul, Option.bind_eq_bind, Option.bind_some, true_or, if_true]
  | @stop c rest hStop =>
      intro rounds s hRounds _ hReads
      obtain ⟨rounds, rfl⟩ := Nat.exists_eq_succ_of_ne_zero (Nat.ne_zero_of_lt hRounds)
      have hHere : (s.mem)[s.cmd]? = some c := getElem?_ahead hReads.ahead 0
      refine ⟨s, ?_, hReads, rfl, (List.append_nil _).symm, rfl⟩
      simp only [copyArgument, hHere, Option.bind_eq_bind, Option.bind_some, hStop, or_true,
        if_true]
  | @escaped c text arg rest hEscapes hStop hEscaped _ ih =>
      intro rounds s hRounds hNul hReads
      obtain ⟨rounds, rfl⟩ := Nat.exists_eq_succ_of_ne_zero (Nat.ne_zero_of_lt hRounds)
      rw [List.length_cons, List.length_cons] at hRounds
      have hHere : (s.mem)[s.cmd]? = some backslash := getElem?_ahead hReads.ahead 0
      have hNext : (s.mem)[s.cmd + 1]? = some c := getElem?_ahead hReads.ahead 1
      have hReads' : s.Reads ([backslash] ++ c :: text) := hReads
      obtain ⟨hCopied, hTake, hLength⟩ := hReads'.copy
      have hGoes : ¬(backslash = 0 ∨ stops backslash = true) := by
        rintro (hZero | hTrue)
        · exact absurd hZero (by decide)
        · exact absurd (hStop.symm.trans hTrue) Bool.false_ne_true
      have hSkip : skipEscape escapes s.mem backslash s.cmd = some (s.cmd + 1) := by
        rw [skipEscape, if_pos ⟨hEscapes, rfl⟩, hNext, Option.map_some, if_pos hEscaped]
      have hStep : copyArgument escapes stops (rounds + 1) s =
          copyArgument escapes stops rounds (s.copy (s.cmd + 1) c) := by
        rw [copyArgument, hHere]
        simp only [Option.bind_eq_bind, Option.bind_some, if_neg hGoes, hSkip, hNext]
      have hRest : 0 ∉ text := fun h => hNul (List.mem_cons_of_mem _ (List.mem_cons_of_mem _ h))
      obtain ⟨s', hRun, hReads', hStop', hText, hSame⟩ := ih rounds _ (by omega) hRest hCopied
      refine ⟨s', hStep.trans hRun, hReads', ?_, ?_, hSame.trans hLength⟩
      · rw [hStop', List.length_cons]
        exact Nat.add_right_comm s.stop 1 arg.length
      · exact hText.trans ((congrArg (· ++ arg) hTake).trans (List.append_assoc ..))
  | @plain c text arg rest hStop hPlain _ ih =>
      intro rounds s hRounds hNul hReads
      obtain ⟨rounds, rfl⟩ := Nat.exists_eq_succ_of_ne_zero (Nat.ne_zero_of_lt hRounds)
      rw [List.length_cons] at hRounds
      have hHere : (s.mem)[s.cmd]? = some c := getElem?_ahead hReads.ahead 0
      have hReads' : s.Reads ([] ++ c :: text) := hReads
      obtain ⟨hCopied, hTake, hLength⟩ := hReads'.copy
      have hGoes : ¬(c = 0 ∨ stops c = true) := by
        rintro (rfl | hTrue)
        · exact hNul List.mem_cons_self
        · exact absurd (hStop.symm.trans hTrue) Bool.false_ne_true
      have hSkip : skipEscape escapes s.mem c s.cmd = some s.cmd := by
        unfold skipEscape
        split
        · next hEscape =>
            have hNext : (s.mem)[s.cmd + 1]? = (text ++ [0])[0]? :=
              getElem?_ahead hReads.ahead 1
            rcases text with - | ⟨d, text⟩
            · rw [hNext]
              rfl
            · rw [hNext]
              have hNot := hPlain hEscape.1 hEscape.2 d rfl
              simp [hNot]
        · rfl
      have hStep : copyArgument escapes stops (rounds + 1) s =
          copyArgument escapes stops rounds (s.copy s.cmd c) := by
        rw [copyArgument, hHere]
        simp only [Option.bind_eq_bind, Option.bind_some, if_neg hGoes, hSkip, hHere]
      have hRest : 0 ∉ text := fun h => hNul (List.mem_cons_of_mem _ h)
      obtain ⟨s', hRun, hReads', hStop', hText, hSame⟩ := ih rounds _ (by omega) hRest hCopied
      refine ⟨s', hStep.trans hRun, hReads', ?_, ?_, hSame.trans hLength⟩
      · rw [hStop', List.length_cons]
        exact Nat.add_right_comm s.stop 1 arg.length
      · exact hText.trans ((congrArg (· ++ arg) hTake).trans (List.append_assoc ..))

theorem skipBlanks_eq {mem : List UInt8} {blanks : CString}
    (hBlanks : ∀ c ∈ blanks, isBlank c = true) (hText : ∀ c ∈ text.head?, isBlank c = false) :
    ∀ rounds cmd, blanks.length < rounds → mem.drop cmd = blanks ++ (text ++ [0]) →
      skipBlanks mem rounds cmd = some (cmd + blanks.length) := by
  induction blanks with
  | nil =>
      intro rounds cmd hRounds hMem
      obtain ⟨rounds, rfl⟩ := Nat.exists_eq_succ_of_ne_zero (Nat.ne_zero_of_lt hRounds)
      obtain ⟨c, hHere, hNot⟩ : ∃ c, (mem)[cmd]? = some c ∧ isBlank c = false := by
        have hHere : (mem)[cmd]? = (text ++ [0])[0]? := getElem?_ahead hMem 0
        rcases text with - | ⟨c, text⟩
        · exact ⟨0, hHere, rfl⟩
        · exact ⟨c, hHere, hText c rfl⟩
      simp only [skipBlanks, hHere, Option.bind_eq_bind, Option.bind_some, hNot, if_neg,
        Bool.false_eq_true, not_false_eq_true]
      rfl
  | cons c blanks ih =>
      intro rounds cmd hRounds hMem
      obtain ⟨rounds, rfl⟩ := Nat.exists_eq_succ_of_ne_zero (Nat.ne_zero_of_lt hRounds)
      rw [List.length_cons] at hRounds
      have hHere : (mem)[cmd]? = some c := by
        have hFirst : (mem.drop cmd)[0]? = (mem)[cmd]? := List.getElem?_drop
        rw [hMem] at hFirst
        exact hFirst.symm
      have hRest : mem.drop (cmd + 1) = blanks ++ (text ++ [0]) := by
        rw [← List.drop_drop, hMem]
        rfl
      have hBlank := hBlanks c List.mem_cons_self
      simp only [skipBlanks, hHere, Option.bind_eq_bind, Option.bind_some, hBlank, if_true]
      rw [ih (fun d hd => hBlanks d (List.mem_cons_of_mem _ hd)) rounds (cmd + 1) (by omega) hRest,
        List.length_cons, Nat.add_assoc, Nat.add_comm 1]

/-- What has been copied is read as the argument. -/
theorem readAt_argument {s' : Cursor} {start : Nat} {mem : List UInt8}
    (hStop : s'.stop = start + arg.length) (hText : s'.mem.take s'.stop = mem.take start ++ arg)
    (hStart : start ≤ mem.length) :
    Buffer.readAt s'.mem start (s'.stop - start) = arg := by
  rw [Buffer.readAt, hStop, Nat.add_sub_cancel_left, List.take_drop, ← hStop, hText]
  exact List.drop_left' (List.length_take_of_le hStart)

/-- Behind an argument there is the end, or a character that is skipped and then more arguments. -/
theorem splitLoop_next {args : List CString} {c : UInt8} {start first rounds cmd : Nat}
    {argv : List CString} {mem : List UInt8} {writes : List (Nat × Nat)}
    (hSkip : skipBlanks mem mem.length cmd = some start) (hHere : (mem)[start]? = some c)
    (hNul : c ≠ 0) (hNext : nextArgument escapes mem writes start c = some (first, s))
    (hReads : s.Reads rest) (hArg : Buffer.readAt s.mem first (s.stop - first) = arg)
    (hRest : 0 ∉ rest) (hSplits : Splits escapes rest.tail args)
    (ih : ∀ argv mem writes cmd, mem.drop cmd = rest.tail ++ [0] → Behind writes →
      ∃ writes', splitLoop escapes rounds argv mem writes cmd = some (argv ++ args, writes') ∧
        Behind writes') :
    ∃ writes', splitLoop escapes (rounds + 1) argv mem writes cmd =
      some (argv ++ arg :: args, writes') ∧ Behind writes' := by
  have hEnd : (s.mem)[s.cmd]? = (rest ++ [0])[0]? := getElem?_ahead hReads.ahead 0
  rcases rest with - | ⟨d, rest⟩
  · have hNone : args = [] := by
      cases hSplits
      rfl
    refine ⟨s.writes, ?_, hReads.writes⟩
    simp only [splitLoop, Option.bind_eq_bind, Option.bind_some, hSkip, hHere, if_neg hNul, hNext,
      hEnd, hArg, hNone, List.nil_append, List.getElem?_cons_zero, if_true]
  · have hd : d ≠ 0 := fun hZero => hRest (by rw [hZero]; exact List.mem_cons_self)
    have hMore : (s.mem.set s.stop 0).drop (s.cmd + 1) = rest ++ [0] := by
      have hDrop : (s.mem.set s.stop 0).drop (s.cmd + 1) = s.mem.drop (s.cmd + 1) :=
        List.drop_set_of_lt (by have := hReads.behind; omega)
      rw [hDrop, ← List.drop_drop, hReads.ahead]
      rfl
    obtain ⟨writes', hLoop, hBehind⟩ := ih (argv ++ [arg]) _ _ _ hMore
      (hReads.writes.concat hReads.behind)
    refine ⟨writes', ?_, hBehind⟩
    simp only [splitLoop, Option.bind_eq_bind, Option.bind_some, hSkip, hHere, if_neg hNul, hNext,
      hEnd, hArg, List.cons_append, List.getElem?_cons_zero, if_neg hd, hLoop, List.append_assoc,
      List.nil_append]

theorem drop_blanks {mem : List UInt8} {cmd : Nat} {blanks : CString}
    (hMem : mem.drop cmd = blanks ++ (text ++ [0])) :
    blanks.length < mem.length ∧ mem.drop (cmd + blanks.length) = text ++ [0] := by
  have hLength := congrArg List.length hMem
  rw [List.length_drop, List.length_append, List.length_append, List.length_singleton] at hLength
  refine ⟨by omega, ?_⟩
  rw [← List.drop_drop, hMem]
  exact List.drop_left

theorem isBlank_of_isQuote {c : UInt8} (h : isQuote c = true) : isBlank c = false := by
  simp only [isQuote, Bool.or_eq_true, beq_iff_eq] at h
  rcases h with rfl | rfl <;> rfl

/-- The splitter splits a text the way it is to be split, and never writes ahead of where it reads:
`blanks` are those that it is about to skip. -/
theorem splitLoop_splits {args : List CString} (h : Splits escapes text args) :
    ∀ (rounds : Nat) (argv : List CString) (mem : List UInt8) (writes : List (Nat × Nat))
      (cmd : Nat) (blanks : CString), text.length < rounds → 0 ∉ text →
      (∀ c ∈ blanks, isBlank c = true) → mem.drop cmd = blanks ++ (text ++ [0]) → Behind writes →
      ∃ writes', splitLoop escapes rounds argv mem writes cmd = some (argv ++ args, writes') ∧
        Behind writes' := by
  induction h with
  | done =>
      intro rounds argv mem writes cmd blanks hRounds _ hBlanks hMem hWrites
      obtain ⟨rounds, rfl⟩ := Nat.exists_eq_succ_of_ne_zero (Nat.ne_zero_of_lt hRounds)
      obtain ⟨hRoom, hRest⟩ := drop_blanks hMem
      have hFirst : ∀ c ∈ ([] : CString).head?, isBlank c = false := fun c hc => absurd hc (by simp)
      have hSkip := skipBlanks_eq hBlanks hFirst mem.length cmd hRoom hMem
      have hEnd : (mem)[cmd + blanks.length]? = some 0 := getElem?_ahead hRest 0
      refine ⟨writes, ?_, hWrites⟩
      simp only [splitLoop, Option.bind_eq_bind, Option.bind_some, hSkip, hEnd, if_true,
        List.append_nil]
  | @blank c text args hBlank _ ih =>
      intro rounds argv mem writes cmd blanks hRounds hNul hBlanks hMem hWrites
      rw [List.length_cons] at hRounds
      refine ih rounds argv mem writes cmd (blanks ++ [c]) (by omega)
        (fun h => hNul (List.mem_cons_of_mem _ h)) ?_ ?_ hWrites
      · intro d hd
        rcases List.mem_append.mp hd with hOld | hNew
        · exact hBlanks d hOld
        · rw [List.mem_singleton.mp hNew]
          exact hBlank
      · rw [hMem, List.append_assoc]
        rfl
  | @quoted quote text arg rest args hQuote hTakes hRest ih =>
      intro rounds argv mem writes cmd blanks hRounds hNul hBlanks hMem hWrites
      obtain ⟨rounds, rfl⟩ := Nat.exists_eq_succ_of_ne_zero (Nat.ne_zero_of_lt hRounds)
      rw [List.length_cons] at hRounds
      obtain ⟨hRoom, hAhead⟩ := drop_blanks hMem
      have hFirst : ∀ c ∈ (quote :: text).head?, isBlank c = false :=
        fun c hc => Option.some.inj hc ▸ isBlank_of_isQuote hQuote
      have hSkip := skipBlanks_eq hBlanks hFirst mem.length cmd hRoom hMem
      have hHere : (mem)[cmd + blanks.length]? = some quote := getElem?_ahead hAhead 0
      have hLength := length_ahead hAhead
      rw [List.length_cons] at hLength
      have hText : 0 ∉ text := fun h => hNul (List.mem_cons_of_mem _ h)
      have hReads : Cursor.Reads ⟨mem, cmd + blanks.length + 1, cmd + blanks.length + 1, writes⟩
          text := by
        refine ⟨?_, Nat.le_refl _, hWrites⟩
        rw [← List.drop_drop, hAhead]
        rfl
      obtain ⟨s, hCopy, hLeft, hStop, hTaken, _⟩ := copyArgument_takes hTakes mem.length _
        (by omega) hText hReads
      have hNext : nextArgument escapes mem writes (cmd + blanks.length) quote =
          some (cmd + blanks.length + 1, s) := by
        rw [nextArgument, if_pos hQuote, hCopy, Option.map_some]
      have hSuffix := hTakes.suffix
      have hStart : cmd + blanks.length + 1 ≤ mem.length := by omega
      refine splitLoop_next hSkip hHere (fun h => hNul (by rw [h]; exact List.mem_cons_self)) hNext
        hLeft (readAt_argument hStop hTaken hStart) (fun h => hText (hSuffix.mem h)) hRest ?_
      intro argv' mem' writes' cmd' hMem' hWrites'
      have hTail := ((List.tail_suffix rest).trans hSuffix)
      exact ih rounds argv' mem' writes' cmd' [] (by have := hTail.length_le; omega)
        (fun h => hText (hTail.mem h)) (fun c hc => nomatch hc) hMem' hWrites'
  | @bare c text arg rest args hBlank hQuote hTakes hRest ih =>
      intro rounds argv mem writes cmd blanks hRounds hNul hBlanks hMem hWrites
      obtain ⟨rounds, rfl⟩ := Nat.exists_eq_succ_of_ne_zero (Nat.ne_zero_of_lt hRounds)
      rw [List.length_cons] at hRounds
      obtain ⟨hRoom, hAhead⟩ := drop_blanks hMem
      have hFirst : ∀ d ∈ (c :: text).head?, isBlank d = false :=
        fun d hd => Option.some.inj hd ▸ hBlank
      have hSkip := skipBlanks_eq hBlanks hFirst mem.length cmd hRoom hMem
      have hHere : (mem)[cmd + blanks.length]? = some c := getElem?_ahead hAhead 0
      have hLength := length_ahead hAhead
      have hReads : Cursor.Reads ⟨mem, cmd + blanks.length, cmd + blanks.length, writes⟩
          (c :: text) := ⟨hAhead, Nat.le_refl _, hWrites⟩
      obtain ⟨s, hCopy, hLeft, hStop, hTaken, _⟩ := copyArgument_takes hTakes mem.length _
        (by omega) hNul hReads
      have hNext : nextArgument escapes mem writes (cmd + blanks.length) c =
          some (cmd + blanks.length, s) := by
        rw [nextArgument, if_neg (by rw [hQuote]; exact Bool.false_ne_true), hCopy, Option.map_some]
      have hSuffix := hTakes.suffix
      have hStart : cmd + blanks.length ≤ mem.length := by omega
      refine splitLoop_next hSkip hHere (fun h => hNul (by rw [h]; exact List.mem_cons_self)) hNext
        hLeft (readAt_argument hStop hTaken hStart) (fun h => hNul (hSuffix.mem h)) hRest ?_
      intro argv' mem' writes' cmd' hMem' hWrites'
      have hTail := (List.tail_suffix rest).trans hSuffix
      -- something was taken, or it stopped at once at what `tail` leaves out
      have hShorter : rest.tail.length ≤ text.length := by
        have hLe := hSuffix.length_le
        rw [List.length_cons] at hLe
        rw [List.length_tail]
        omega
      exact ih rounds argv' mem' writes' cmd' [] (by omega) (fun h => hNul (hTail.mem h))
        (fun c hc => nomatch hc) hMem' hWrites'

/-- Every text is split into something, without a read behind its NUL. -/
theorem split_of_splits {args : List CString} (h : Splits escapes text args) (hNul : 0 ∉ text)
    (argv : List CString) :
    ∃ writes, split argv text escapes = some (argv ++ args, writes) ∧ Behind writes := by
  refine splitLoop_splits h _ argv (text ++ [0]) [] 0 [] ?_ hNul (fun c hc => nomatch hc) rfl
    (fun w hw => nomatch hw)
  rw [List.length_append]
  exact Nat.lt_succ_self _

end Refines

/-! ### Quoting -/

/-- Every backslash and quote gets a backslash before it. -/
def escape (arg : CString) : CString :=
  arg.flatMap fun c => if isEscaped c then [backslash, c] else [c]

/-- How an argument is written. -/
inductive Style
  | double
  | single
  | bare
  deriving DecidableEq

def Style.write (arg : CString) : Style → CString
  | double => '\"'.toUInt8 :: escape arg ++ ['\"'.toUInt8]
  | single => '\''.toUInt8 :: escape arg ++ ['\''.toUInt8]
  | bare => escape arg

/-- What can be written so. Newlines are excluded everywhere. -/
def Style.Allows (arg : CString) : Style → Prop
  | bare => arg ≠ [] ∧ ' '.toUInt8 ∉ arg ∧ '\t'.toUInt8 ∉ arg ∧ ∀ c ∈ arg.head?, isQuote c = false
  | _ => True

/-- An argument that a command line can have. -/
structure Plain (arg : CString) : Prop where
  newline : '\n'.toUInt8 ∉ arg
  nul : 0 ∉ arg

/-- A command line with these arguments. -/
inductive Line : List CString → CString → Prop
  | none : Line [] []
  | one {arg : CString} (style : Style) (hPlain : Plain arg) (hAllows : style.Allows arg) :
      Line [arg] (style.write arg)
  | more {arg blanks text : CString} {args : List CString} (style : Style) (hPlain : Plain arg)
      (hAllows : style.Allows arg) (hSome : blanks ≠ []) (hBlanks : ∀ c ∈ blanks, isBlank c = true)
      (hRest : Line args text) : Line (arg :: args) (style.write arg ++ (blanks ++ text))

section Quoted

variable {stops : UInt8 → Bool} {arg rest text blanks : CString} {args : List CString}

/-- What is escaped is taken as it was. -/
theorem takes_escape (hBackslash : stops backslash = false)
    (hArg : ∀ c ∈ arg, isEscaped c = false → stops c = false)
    (hRest : Takes true stops rest [] rest) : Takes true stops (escape arg ++ rest) arg rest := by
  induction arg with
  | nil => exact hRest
  | cons c arg ih =>
      have hMore := ih fun d hd => hArg d (List.mem_cons_of_mem _ hd)
      rw [escape, List.flatMap_cons]
      cases hEscaped : isEscaped c with
      | true => exact .escaped rfl hBackslash hEscaped hMore
      | false =>
          refine .plain (hArg c List.mem_cons_self hEscaped) (fun _ hIs => ?_) hMore
          rw [hIs] at hEscaped
          exact absurd hEscaped (by decide)

theorem splits_blanks (hBlanks : ∀ c ∈ blanks, isBlank c = true) (h : Splits true text args) :
    Splits true (blanks ++ text) args := by
  induction blanks with
  | nil => exact h
  | cons c blanks ih =>
      exact .blank (hBlanks c List.mem_cons_self)
        (ih fun d hd => hBlanks d (List.mem_cons_of_mem _ hd))

/-- An argument in quotes. -/
theorem splits_quoted {quote : UInt8} (hQuote : isQuote quote = true) (hPlain : Plain arg)
    (h : Splits true rest args) :
    Splits true (quote :: escape arg ++ [quote] ++ rest) (arg :: args) := by
  have hNot : ∀ c, isEscaped c = false → c ≠ quote := by
    rintro c hc rfl
    rw [isEscaped, hQuote] at hc
    exact nomatch hc
  have hStops : ∀ c ∈ arg, isEscaped c = false → stopsQuoted quote c = false := by
    intro c hc hEscaped
    have hNewline : c ≠ '\n'.toUInt8 := fun hIs => hPlain.newline (hIs ▸ hc)
    rw [stopsQuoted, beq_false_of_ne hNewline, beq_false_of_ne (hNot c hEscaped)]
    rfl
  have hBackslash : stopsQuoted quote backslash = false := by
    simp only [isQuote, Bool.or_eq_true, beq_iff_eq] at hQuote
    rcases hQuote with rfl | rfl <;> rfl
  have hEnd : stopsQuoted quote quote = true := by
    rw [stopsQuoted, beq_self_eq_true, Bool.or_true]
  have hStop : Takes true (stopsQuoted quote) (quote :: rest) [] (quote :: rest) := .stop hEnd
  have hTakes := takes_escape hBackslash hStops hStop
  have hText : quote :: escape arg ++ [quote] ++ rest = quote :: (escape arg ++ quote :: rest) := by
    simp
  rw [hText]
  exact .quoted hQuote hTakes h

/-- An argument without quotes. -/
theorem splits_bare (hPlain : Plain arg) (hAllows : Style.bare.Allows arg)
    (hBlanks : ∀ c ∈ blanks, isBlank c = true) (hEnd : blanks = [] → text = [])
    (h : Splits true text args) : Splits true (escape arg ++ (blanks ++ text)) (arg :: args) := by
  obtain ⟨hSome, hSpace, hTab, hFirst⟩ := hAllows
  have hStops : ∀ c ∈ arg, isBlank c = false := by
    intro c hc
    have hAll : c ≠ ' '.toUInt8 ∧ c ≠ '\t'.toUInt8 ∧ c ≠ '\n'.toUInt8 :=
      ⟨fun hIs => hSpace (hIs ▸ hc), fun hIs => hTab (hIs ▸ hc),
        fun hIs => hPlain.newline (hIs ▸ hc)⟩
    rw [isBlank, beq_false_of_ne hAll.1, beq_false_of_ne hAll.2.1, beq_false_of_ne hAll.2.2]
    rfl
  have hLast : Takes true isBlank (blanks ++ text) [] (blanks ++ text) ∧
      Splits true (blanks ++ text).tail args := by
    rcases blanks with - | ⟨b, blanks⟩
    · rw [hEnd rfl] at h ⊢
      exact ⟨.done, h⟩
    · exact ⟨.stop (hBlanks b List.mem_cons_self),
        splits_blanks (fun d hd => hBlanks d (List.mem_cons_of_mem _ hd)) h⟩
  have hTakes := takes_escape (by decide) (fun c hc _ => hStops c hc) hLast.1
  rcases arg with - | ⟨c, arg⟩
  · exact absurd rfl hSome
  -- the text begins with the first character or with its backslash
  obtain ⟨d, text', hText, hBlank, hQuote⟩ : ∃ d text', escape (c :: arg) = d :: text' ∧
      isBlank d = false ∧ isQuote d = false := by
    rw [escape, List.flatMap_cons]
    cases hEscaped : isEscaped c with
    | true => exact ⟨backslash, _, rfl, by decide, by decide⟩
    | false => exact ⟨c, _, rfl, hStops c List.mem_cons_self, hFirst c rfl⟩
  rw [hText, List.cons_append] at hTakes ⊢
  exact .bare hBlank hQuote hTakes hLast.2

theorem Style.splits {style : Style} (hPlain : Plain arg) (hAllows : style.Allows arg)
    (hBlanks : ∀ c ∈ blanks, isBlank c = true) (hEnd : blanks = [] → text = [])
    (h : Splits true text args) :
    Splits true (style.write arg ++ (blanks ++ text)) (arg :: args) := by
  cases style with
  | double => exact splits_quoted (by decide) hPlain (splits_blanks hBlanks h)
  | single => exact splits_quoted (by decide) hPlain (splits_blanks hBlanks h)
  | bare => exact splits_bare hPlain hAllows hBlanks hEnd h

/-- A command line splits into its arguments. -/
theorem Line.splits (h : Line args text) : Splits true text args := by
  induction h with
  | none => exact .done
  | one style hPlain hAllows =>
      have hOne : Splits true (style.write _ ++ ([] ++ [])) [_] :=
        Style.splits hPlain hAllows (fun c hc => nomatch hc) (fun _ => rfl) .done
      rwa [List.append_nil, List.append_nil] at hOne
  | more style hPlain hAllows hSome hBlanks _ ih =>
      exact Style.splits hPlain hAllows hBlanks (fun hNone => absurd hNone hSome) ih

theorem nul_notMem_escape (h : 0 ∉ arg) : 0 ∉ escape arg := by
  intro hMem
  obtain ⟨c, hc, hIn⟩ := List.mem_flatMap.mp hMem
  have hNot : (0 : UInt8) ≠ c := fun hIs => h (hIs ▸ hc)
  split at hIn
  · rcases List.mem_cons.mp hIn with hSlash | hRest
    · exact absurd hSlash (by decide)
    · exact hNot (List.mem_singleton.mp hRest)
  · exact hNot (List.mem_singleton.mp hIn)

theorem Style.nul_notMem_write (style : Style) (h : 0 ∉ arg) : 0 ∉ style.write arg := by
  have hEscape := nul_notMem_escape h
  cases style with
  | bare => exact hEscape
  | double | single =>
      intro hMem
      rcases List.mem_append.mp hMem with hBody | hLast
      · rcases List.mem_cons.mp hBody with hFirst | hIn
        · exact absurd hFirst (by decide)
        · exact hEscape hIn
      · exact absurd (List.mem_singleton.mp hLast) (by decide)

theorem Line.nul_notMem (h : Line args text) : 0 ∉ text := by
  induction h with
  | none => exact List.not_mem_nil
  | one style hPlain _ => exact style.nul_notMem_write hPlain.nul
  | more style hPlain _ _ hBlanks _ ih =>
      intro hMem
      rcases List.mem_append.mp hMem with hArg | hRest
      · exact style.nul_notMem_write hPlain.nul hArg
      rcases List.mem_append.mp hRest with hBlank | hText
      · exact absurd (hBlanks 0 hBlank) (by decide)
      · exact ih hText

theorem Line.plain (h : Line args text) : ∀ arg ∈ args, Plain arg := by
  induction h with
  | none => exact fun arg h => nomatch h
  | one _ hPlain _ => exact List.forall_mem_singleton.mpr hPlain
  | more _ hPlain _ _ _ _ ih => exact List.forall_mem_cons.mpr ⟨hPlain, ih⟩

end Quoted

/-! ### The list that `main` is given -/

/-- What a string is read as by its `c_str()`. -/
def cStr (s : CString) : CString := s.takeWhile (· != 0)

/-- What a pointer points to, where it is a string. -/
def Pointer.text (vector : List CString) (cloned : List UInt8) : Pointer → Option CString
  | .string i => (vector)[i]?.map cStr
  | .clone offset =>
      if 0 ∈ cloned.drop offset then some (cStr (cloned.drop offset)) else none

/-- The list has these strings, and a NULL behind them. -/
structure Presents (vector texts : List CString) (a : Arguments) : Prop where
  argc : a.argc = texts.length
  length : a.argv.length = texts.length + 1
  null : a.argv[texts.length]? = some none
  strings : ∀ (i : Nat) (text : CString), (texts)[i]? = some text →
    ∃ p, a.argv[i]? = some (some p) ∧ Pointer.text vector a.cloned p = some text

section Fills

variable {args : List CString} {argv : List (Option Pointer)} {v : Nat}

theorem pointStrings_spec :
    ∀ (args : List CString) (v : Nat) (argv : List (Option Pointer)),
      v + args.length ≤ argv.length →
      (pointStrings args v argv).2 = v + args.length ∧
        (pointStrings args v argv).1.length = argv.length ∧
        (∀ i < v, (pointStrings args v argv).1[i]? = argv[i]?) ∧
        ∀ i < args.length, (pointStrings args v argv).1[v + i]? = some (some (.string (v + i)))
  | [], _, _, _ => ⟨rfl, rfl, fun _ _ => rfl, fun _ h => absurd h (Nat.not_lt_zero _)⟩
  | _ :: args, v, argv, hRoom => by
      rw [List.length_cons] at hRoom
      obtain ⟨hEnd, hLength, hBefore, hSet⟩ := pointStrings_spec args (v + 1)
        (argv.set v (some (.string v))) (by rw [List.length_set]; omega)
      rw [pointStrings, List.length_cons]
      refine ⟨by omega, hLength.trans List.length_set, fun i hi => ?_, fun i hi => ?_⟩
      · rw [hBefore i (by omega), List.getElem?_set_ne (by omega)]
      · cases i with
        | zero =>
            exact (hBefore v (Nat.lt_succ_self v)).trans (List.getElem?_set_self (by omega))
        | succ i =>
            have hLater := hSet i (by omega)
            rwa [Nat.add_assoc, Nat.add_comm 1 i] at hLater

theorem foldl_length (args : List CString) : ∀ n,
    args.foldl (fun length val => length + (val.length + 1)) n = n + cloneLength args := by
  induction args with
  | nil => exact fun _ => rfl
  | cons val args ih =>
      intro n
      have hAll : cloneLength (val :: args) = 0 + (val.length + 1) + cloneLength args := ih _
      rw [List.foldl_cons, ih, hAll]
      omega

theorem cloneLength_cons (val : CString) (args : List CString) :
    cloneLength (val :: args) = val.length + 1 + cloneLength args := by
  rw [cloneLength, List.foldl_cons, foldl_length, Nat.zero_add]

/-- The clones lie behind one another, each with its NUL. -/
theorem pointClones_spec :
    ∀ (args : List CString) (v cursor : Nat) (argv : List (Option Pointer)) (cloned : List UInt8),
      v + args.length ≤ argv.length → cursor + cloneLength args ≤ cloned.length →
      ∃ argv' cloned', pointClones args v cursor argv cloned = (argv', v + args.length, cloned') ∧
        argv'.length = argv.length ∧ (∀ i < v, argv'[i]? = argv[i]?) ∧
        cloned'.take cursor = cloned.take cursor ∧
        ∀ (i : Nat) (val : CString), (args)[i]? = some val → ∃ offset,
          argv'[v + i]? = some (some (.clone offset)) ∧
            Buffer.readAt cloned' offset (val.length + 1) = val ++ [0]
  | [], _, _, argv, cloned, _, _ =>
      ⟨argv, cloned, rfl, rfl, fun _ _ => rfl, rfl, fun _ _ h => nomatch h⟩
  | val :: args, v, cursor, argv, cloned, hRoom, hSpace => by
      rw [List.length_cons] at hRoom
      rw [cloneLength_cons] at hSpace
      have hVal : (val ++ [0]).length = val.length + 1 := List.length_append
      have hWrite : (Buffer.writeAt cloned cursor (val ++ [0])).length = cloned.length :=
        Buffer.length_writeAt (by omega)
      obtain ⟨argv', cloned', hRun, hLength, hBefore, hFront, hSet⟩ :=
        pointClones_spec args (v + 1) (cursor + (val.length + 1))
          (argv.set v (some (.clone cursor))) (Buffer.writeAt cloned cursor (val ++ [0]))
          (by rw [List.length_set]; omega) (by rw [hWrite]; omega)
      refine ⟨argv', cloned', ?_, hLength.trans List.length_set, fun i hi => ?_, ?_, ?_⟩
      · rw [pointClones, hRun, List.length_cons]
        congr 2
        omega
      · rw [hBefore i (by omega), List.getElem?_set_ne (by omega)]
      · have hBoth := congrArg (List.take cursor) hFront
        rw [List.take_take, List.take_take, Nat.min_eq_left (by omega)] at hBoth
        rw [hBoth, Buffer.writeAt, List.append_assoc]
        exact List.take_left' (List.length_take_of_le (by omega))
      · intro i val' hi
        cases i with
        | zero =>
            rw [List.getElem?_cons_zero, Option.some.injEq] at hi
            subst hi
            refine ⟨cursor, ?_, ?_⟩
            · exact (hBefore v (Nat.lt_succ_self v)).trans (List.getElem?_set_self (by omega))
            · rw [Buffer.readAt, List.take_drop, hFront, ← List.take_drop, ← hVal]
              exact Buffer.readAt_writeAt (by omega)
        | succ i =>
            obtain ⟨offset, hPoints, hText⟩ := hSet i val' hi
            refine ⟨offset, ?_, hText⟩
            rwa [Nat.add_assoc, Nat.add_comm 1 i] at hPoints

theorem cStr_of_readAt {cloned : List UInt8} {offset : Nat} {val : CString}
    (h : Buffer.readAt cloned offset (val.length + 1) = val ++ [0]) :
    Pointer.text args cloned (.clone offset) = some (cStr val) := by
  have hHere : cloned.drop offset = val ++ 0 :: cloned.drop (offset + (val.length + 1)) := by
    calc cloned.drop offset
        = Buffer.readAt cloned offset (val.length + 1) ++
            (cloned.drop offset).drop (val.length + 1) := (List.take_append_drop ..).symm
      _ = val ++ 0 :: cloned.drop (offset + (val.length + 1)) := by
          rw [h, List.drop_drop, List.append_assoc, List.singleton_append]
  have hNul : 0 ∈ cloned.drop offset := by
    rw [hHere]
    exact List.mem_append_right _ List.mem_cons_self
  rw [Pointer.text, if_pos hNul, hHere, cStr, cStr, List.takeWhile_append]
  split
  · next hAll =>
      rw [(List.takeWhile_prefix _).eq_of_length hAll]
      simp
  · rfl

/-- What the two loops have in common. -/
theorem ofVector_eq (args : List CString) (clone : Bool) :
    ∃ (argv : List (Option Pointer)) (cloned : List UInt8), ofVector args clone =
        ⟨Int.bmod args.length (2 ^ 32), argv.set args.length none, cloned⟩ ∧
      argv.length = args.length + 1 ∧
      ∀ (i : Nat) (val : CString), (args)[i]? = some val → ∃ p, argv[i]? = some (some p) ∧
        Pointer.text args cloned p = some (cStr val) := by
  have hRoom :
      0 + args.length ≤ (List.replicate (args.length + 1) (none : Option Pointer)).length := by
    rw [List.length_replicate]
    omega
  cases clone with
  | false =>
      obtain ⟨hEnd, hLength, -, hSet⟩ := pointStrings_spec args 0 _ hRoom
      rcases hRun : pointStrings args 0 (List.replicate (args.length + 1) none) with ⟨argv, v⟩
      rw [hRun] at hEnd hLength hSet
      rw [Nat.zero_add] at hEnd
      refine ⟨argv, [], ?_, hLength.trans List.length_replicate, fun i val hi => ?_⟩
      · unfold ofVector
        simp only [Bool.false_eq_true, if_false, hRun, hEnd]
      · have hPoints := hSet i (List.getElem?_eq_some_iff.mp hi).1
        rw [Nat.zero_add] at hPoints
        refine ⟨.string i, hPoints, ?_⟩
        rw [Pointer.text, hi, Option.map_some]
  | true =>
      by_cases hNone : cloneLength args = 0
      · have hEmpty : args = [] := by
          rcases args with - | ⟨val, args⟩
          · rfl
          · rw [cloneLength_cons] at hNone
            omega
        subst hEmpty
        exact ⟨[none], [], rfl, rfl, fun i val hi => nomatch hi⟩
      · have hSpace : 0 + cloneLength args ≤
            (List.replicate (cloneLength args) (0 : UInt8)).length := by
          rw [List.length_replicate]
          omega
        obtain ⟨argv, cloned, hRun, hLength, -, -, hSet⟩ :=
          pointClones_spec args 0 0 _ _ hRoom hSpace
        rw [Nat.zero_add] at hRun
        refine ⟨argv, cloned, ?_, hLength.trans List.length_replicate, fun i val hi => ?_⟩
        · unfold ofVector
          simp only [if_true, if_pos hNone, hRun]
        · obtain ⟨offset, hPoints, hText⟩ := hSet i val hi
          rw [Nat.zero_add] at hPoints
          exact ⟨.clone offset, hPoints, cStr_of_readAt hText⟩

/-- Fewer strings than an `int` can count are presented as they are. -/
theorem presents_ofVector (hFew : args.length < 2 ^ 31) (clone : Bool) :
    Presents args (args.map cStr) (ofVector args clone) := by
  obtain ⟨argv, cloned, hIs, hLength, hSet⟩ := ofVector_eq args clone
  have hArgc : Int.bmod args.length (2 ^ 32) = args.length := by
    rw [Int.bmod_def]
    omega
  rw [hIs, hArgc]
  refine ⟨?_, ?_, ?_, fun i text hi => ?_⟩
  · rw [List.length_map]
  · rw [List.length_map, List.length_set, hLength]
  · rw [List.length_map]
    exact List.getElem?_set_self (by omega)
  · rw [List.getElem?_map, Option.map_eq_some_iff] at hi
    obtain ⟨val, hVal, rfl⟩ := hi
    obtain ⟨p, hPoints, hText⟩ := hSet i val hVal
    have hInside := (List.getElem?_eq_some_iff.mp hVal).1
    exact ⟨p, (List.getElem?_set_ne (by omega)).trans hPoints, hText⟩

end Fills

theorem cStr_of_notMem {s : CString} (h : 0 ∉ s) : cStr s = s :=
  List.takeWhile_eq_self_iff.mpr fun _ hc => bne_iff_ne.mpr fun hIs => h (hIs ▸ hc)

/-- Splitting a command line undoes its quoting, and what comes of it is presented to `main`, as
long as an `int` can count it. No text at all is read behind its NUL, or overwritten before it is
read. -/
theorem split_line {args : List CString} {text : CString} (h : Line args text)
    (argv : List CString) :
    (∃ writes, split argv text true = some (argv ++ args, writes) ∧
      ((argv ++ args).length < 2 ^ 31 → ∀ clone,
        Presents (argv ++ args) (argv.map cStr ++ args) (ofVector (argv ++ args) clone))) ∧
    ∀ (cmd : CString) (escapes : Bool), 0 ∉ cmd →
      ∃ args' writes, split argv cmd escapes = some (argv ++ args', writes) ∧ Behind writes := by
  refine ⟨?_, fun cmd escapes hNul => ?_⟩
  · obtain ⟨writes, hSplit, -⟩ := split_of_splits h.splits h.nul_notMem argv
    refine ⟨writes, hSplit, fun hFew clone => ?_⟩
    have hPresents := presents_ofVector hFew clone
    have hSame : args.map cStr = args.map id :=
      List.map_congr_left fun arg hArg => cStr_of_notMem (h.plain arg hArg).nul
    rwa [List.map_append, hSame, List.map_id] at hPresents
  · obtain ⟨args', hSplits⟩ := splits_total escapes (cmd.length + 1) cmd (Nat.lt_succ_self _)
    obtain ⟨writes, hSplit, hBehind⟩ := split_of_splits hSplits hNul argv
    exact ⟨args', writes, hSplit, hBehind⟩

/-- Two quoted arguments and a bare one, of which the second is empty. -/
theorem split_line_quoted :
    ∃ writes, split [CString.ascii "rpcd"] (CString.ascii "\"a b\"\t'' c\\'") true =
        some ([CString.ascii "rpcd", CString.ascii "a b", [], CString.ascii "c'"], writes) ∧
      ∀ clone, (ofVector [CString.ascii "rpcd", CString.ascii "a b", [], CString.ascii "c'"]
        clone).argc = 4 := by
  have hLast : Line [CString.ascii "c'"] (CString.ascii "c\\'") :=
    .one .bare ⟨by decide, by decide⟩
      ⟨by decide, by decide, by decide, fun _ hc => Option.some.inj hc ▸ rfl⟩
  have hMiddle : Line [[], CString.ascii "c'"] (CString.ascii "'' c\\'") :=
    .more .single ⟨by decide, by decide⟩ trivial (List.cons_ne_nil (' '.toUInt8) [])
      (List.forall_mem_singleton.mpr rfl) hLast
  have hLine : Line [CString.ascii "a b", [], CString.ascii "c'"]
      (CString.ascii "\"a b\"\t'' c\\'") :=
    .more .double ⟨by decide, by decide⟩ trivial (List.cons_ne_nil ('\t'.toUInt8) [])
      (List.forall_mem_singleton.mpr rfl) hMiddle
  obtain ⟨⟨writes, hSplit, hPresents⟩, -⟩ := split_line hLine [CString.ascii "rpcd"]
  exact ⟨writes, hSplit, fun clone => (hPresents (by decide) clone).argc⟩

/-- So many empty arguments, all in quotes. -/
theorem exists_line (n : Nat) : ∃ text, Line (List.replicate n []) text := by
  have hPlain : Plain [] := ⟨List.not_mem_nil, List.not_mem_nil⟩
  induction n with
  | zero => exact ⟨[], .none⟩
  | succ n ih =>
      obtain ⟨text, hLine⟩ := ih
      exact ⟨_, .more .double hPlain trivial (List.cons_ne_nil (' '.toUInt8) [])
        (List.forall_mem_singleton.mpr rfl) hLine⟩

/-- As many arguments as an `int` cannot count. -/
theorem not_presents : ∃ text writes,
    Line (List.replicate (2 ^ 31) []) text ∧
      split [] text true = some (List.replicate (2 ^ 31) [], writes) ∧
      ∀ clone, ¬ Presents (List.replicate (2 ^ 31) []) (List.replicate (2 ^ 31) [])
        (ofVector (List.replicate (2 ^ 31) []) clone) := by
  obtain ⟨text, hLine⟩ := exists_line (2 ^ 31)
  obtain ⟨writes, hSplit, -⟩ := split_of_splits hLine.splits hLine.nul_notMem []
  refine ⟨text, writes, hLine, hSplit, fun clone hPresents => ?_⟩
  obtain ⟨argv, cloned, hIs, -⟩ := ofVector_eq (List.replicate (2 ^ 31) []) clone
  have hArgc := hPresents.argc
  rw [hIs, List.length_replicate] at hArgc
  have hWrapped : Int.bmod (2 ^ 31 : Nat) (2 ^ 32) = -2 ^ 31 := by decide
  exact absurd (hWrapped.symm.trans hArgc) (by decide)

end OncRpc.Service.Arguments
