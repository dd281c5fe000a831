import Mathlib.Data.List.Nodup
import OncRpc.Compat.Syslog

/-! What becomes of a format with an error text in it, in the buffer that it is copied to. -/
namespace OncRpc.Compat.Syslog

open CString Format

variable (sys : Syslog)

/-! ### The buffer -/

/-- What is in `fmt_copy` in front of the NUL. -/
def copied : List Cell → Nat → List Cell
  | [], _ => []
  | [ch], left => if left = 0 then [] else [ch]
  | ch :: next :: fmt, left =>
      if left = 0 then []
      else if ch.c = percent ∧ 4 < left ∧ next.c = 'm'.toUInt8 then
        if sys.strerror.length < left then
          errorCells ch sys.strerror ++ copied fmt (left - sys.strerror.length)
        else (errorCells ch sys.strerror).take (left - 1)
      else if ch.c = percent ∧ 4 < left ∧ next.c = 'M'.toUInt8 then
        match formatMessageA sys.systemMessage left with
        | some text => errorCells ch text ++ copied fmt (left - text.length)
        | none => copied fmt left
      else ch :: copied (next :: fmt) (left - 1)

@[simp] theorem length_errorCells (ch : Cell) (text : CString) :
    (errorCells ch text).length = text.length := List.length_map _

theorem store_eq {α : Type} {mem bs : List α} {off : Nat} (h : off + bs.length ≤ mem.length) :
    ∃ mem', store mem off bs = .ok mem' ∧ mem'.length = mem.length ∧
      mem'.take (off + bs.length) = mem.take off ++ bs := by
  refine ⟨Buffer.writeAt mem off bs, if_pos h, Buffer.length_writeAt h, ?_⟩
  have hFront : (mem.take off ++ bs).length = off + bs.length := by
    rw [List.length_append, List.length_take_of_le (by omega)]
  exact List.take_left' hFront

/-- A text is stored with a NUL behind it, which is not counted. -/
theorem store_nul {α : Type} {mem text : List α} {off : Nat} (nul : α)
    (h : off + text.length < mem.length) :
    ∃ mem', store mem off (text ++ [nul]) = .ok mem' ∧ mem'.length = mem.length ∧
      mem'.take (off + text.length) = mem.take off ++ text ∧
      mem'.take (off + text.length + 1) = mem.take off ++ text ++ [nul] := by
  have hRoom : off + (text ++ [nul]).length ≤ mem.length := by
    rw [List.length_append, List.length_singleton]
    omega
  obtain ⟨mem', hStore, hLength, hTake⟩ := store_eq hRoom
  rw [List.length_append, List.length_singleton, ← Nat.add_assoc, ← List.append_assoc] at hTake
  refine ⟨mem', hStore, hLength, ?_, hTake⟩
  have hFront : (mem.take off ++ text).length = off + text.length := by
    rw [List.length_append, List.length_take_of_le (by omega)]
  have hBoth := congrArg (List.take (off + text.length)) hTake
  rwa [List.take_take, Nat.min_eq_left (Nat.le_succ _), List.take_left' hFront] at hBoth

theorem formatMessageA_eq_some_iff {message : Option CString} {size : Nat} {text : CString} :
    formatMessageA message size = some text ↔ message = some text ∧ text.length < size := by
  rw [formatMessageA, Option.filter_eq_some_iff, decide_eq_true_eq]

theorem copyFormat_zero (fmt buf : List Cell) (f : Nat) :
    copyFormat sys fmt buf f 0 = .ok (buf, f) := by
  rcases fmt with - | ⟨ch, _ | ⟨next, fmt⟩⟩ <;> simp only [copyFormat, if_true]

/-- The loop stays in its buffer, and leaves `out` there, with a NUL in front of the rest. -/
def Leaves (r : Except Fault (List Cell × Nat)) (buf : List Cell) (f left : Nat) (out : List Cell) :
    Prop :=
  ∃ buf' f' tail, r = .ok (buf', f') ∧ buf'.length = buf.length ∧ f' ≤ f + left ∧
    buf'.take f' ++ [Cell.nul] = buf.take f ++ out ++ Cell.nul :: tail

theorem leaves_nil (buf : List Cell) (f left : Nat) : Leaves (.ok (buf, f)) buf f left [] :=
  ⟨buf, f, [], rfl, rfl, Nat.le_add_right _ _, by rw [List.append_nil]⟩

/-- Something has been copied before. -/
theorem Leaves.behind {r : Except Fault (List Cell × Nat)} {buf buf₁ front out : List Cell}
    {f k left left₁ : Nat} (h : Leaves r buf₁ (f + k) left₁ out)
    (hLength : buf₁.length = buf.length) (hTake : buf₁.take (f + k) = buf.take f ++ front)
    (hLess : k + left₁ ≤ left) : Leaves r buf f left (front ++ out) := by
  obtain ⟨buf', f', tail, hRun, hLength', hLe, hIs⟩ := h
  refine ⟨buf', f', tail, hRun, hLength'.trans hLength, by omega, ?_⟩
  rw [hIs, hTake]
  simp only [List.append_assoc]

theorem copyFormat_leaves :
    ∀ (fmt buf : List Cell) (f left : Nat), f + left < buf.length →
      Leaves (copyFormat sys fmt buf f left) buf f left (copied sys fmt left)
  | [], buf, f, left, _ => leaves_nil buf f left
  | [ch], buf, f, left, hRoom => by
      by_cases hLeft : left = 0
      · rw [copyFormat, copied, if_pos hLeft, if_pos hLeft]
        exact leaves_nil buf f left
      · have hOne : f + [ch].length ≤ buf.length := by
          rw [List.length_singleton]
          omega
        obtain ⟨buf₁, hStore, hLength, hTake⟩ := store_eq hOne
        rw [copyFormat, copied, if_neg hLeft, if_neg hLeft, hStore]
        exact (leaves_nil buf₁ (f + 1) 0).behind hLength hTake (by omega)
  | ch :: next :: fmt, buf, f, left, hRoom => by
      by_cases hLeft : left = 0
      · rw [copyFormat, copied, if_pos hLeft, if_pos hLeft]
        exact leaves_nil buf f left
      rw [copyFormat, copied, if_neg hLeft, if_neg hLeft]
      by_cases hStrerror : ch.c = percent ∧ 4 < left ∧ next.c = 'm'.toUInt8
      · rw [if_pos hStrerror, if_pos hStrerror]
        -- `snprintf` stores what fits, and says how much there was
        have hSome : ((errorCells ch sys.strerror).take (left - 1)).length ≤ left - 1 :=
          List.length_take_le _ _
        have hIn : f + ((errorCells ch sys.strerror).take (left - 1)).length < buf.length := by
          omega
        obtain ⟨buf₁, hStore, hLength, hTake, hNul⟩ := store_nul Cell.nul hIn
        simp only [hStore]
        by_cases hFits : sys.strerror.length < left
        · have hAll : (errorCells ch sys.strerror).take (left - 1) = errorCells ch sys.strerror :=
            List.take_of_length_le (by rw [length_errorCells]; omega)
          rw [hAll, length_errorCells] at hTake
          rw [if_pos hFits, length_errorCells, if_pos hFits]
          have hRest := copyFormat_leaves fmt buf₁ (f + sys.strerror.length)
            (left - sys.strerror.length) (by omega)
          exact hRest.behind hLength hTake (by omega)
        · have hCut : ((errorCells ch sys.strerror).take (left - 1)).length = left - 1 := by
            rw [List.length_take, length_errorCells]
            omega
          rw [hCut, show f + (left - 1) + 1 = f + left by omega] at hNul
          rw [if_neg hFits, length_errorCells, if_neg hFits, Nat.sub_self]
          show Leaves (copyFormat sys fmt buf₁ (f + left) 0) _ _ _ _
          rw [copyFormat_zero]
          refine ⟨buf₁, f + left, [Cell.nul], rfl, hLength, Nat.le_refl _, ?_⟩
          rw [hNul]
          simp only [List.append_assoc]
          rfl
      rw [if_neg hStrerror, if_neg hStrerror]
      by_cases hMessage : ch.c = percent ∧ 4 < left ∧ next.c = 'M'.toUInt8
      · rw [if_pos hMessage, if_pos hMessage]
        cases hText : formatMessageA sys.systemMessage left with
        | none => exact copyFormat_leaves fmt buf f left hRoom
        | some text =>
            have hFits := (formatMessageA_eq_some_iff.mp hText).2
            have hIn : f + (errorCells ch text).length < buf.length := by
              rw [length_errorCells]
              omega
            obtain ⟨buf₁, hStore, hLength, hTake, -⟩ := store_nul Cell.nul hIn
            rw [length_errorCells] at hTake
            simp only [hStore]
            have hRest := copyFormat_leaves fmt buf₁ (f + text.length) (left - text.length)
              (by omega)
            exact hRest.behind hLength hTake (by omega)
      · rw [if_neg hMessage, if_neg hMessage]
        have hOne : f + [ch].length ≤ buf.length := by
          rw [List.length_singleton]
          omega
        obtain ⟨buf₁, hStore, hLength, hTake⟩ := store_eq hOne
        simp only [hStore]
        have hRest := copyFormat_leaves (next :: fmt) buf₁ (f + 1) (left - 1) (by omega)
        exact hRest.behind hLength hTake (by omega)

/-- What can stand in a format for a `%`. -/
def Shown (text : CString) : Prop := text = sys.strerror ∨ sys.systemMessage = some text

/-- Everything that is copied is of the format, or of an error text that stands for a part of it. -/
theorem mem_copied :
    ∀ (fmt : List Cell) (left : Nat) (x : Cell), x ∈ copied sys fmt left →
      x ∈ fmt ∨ ∃ ch ∈ fmt, ∃ text, Shown sys text ∧ x ∈ errorCells ch text
  | [], _, _, h => Or.inl h
  | [ch], left, x, h => by
      rw [copied] at h
      split at h
      · cases h
      · exact Or.inl h
  | ch :: next :: fmt, left, x, h => by
      -- what is copied of the rest is of the whole
      have hRest : ∀ (rest : List Cell) (left : Nat), rest ⊆ ch :: next :: fmt →
          (x ∈ copied sys rest left → x ∈ rest ∨
            ∃ ch ∈ rest, ∃ text, Shown sys text ∧ x ∈ errorCells ch text) →
          x ∈ copied sys rest left → x ∈ ch :: next :: fmt ∨
            ∃ ch' ∈ ch :: next :: fmt, ∃ text, Shown sys text ∧ x ∈ errorCells ch' text := by
        intro rest left hSub ih hx
        rcases ih hx with hOwn | ⟨ch', hch', hText⟩
        · exact Or.inl (hSub hOwn)
        · exact Or.inr ⟨ch', hSub hch', hText⟩
      have hBehind : fmt ⊆ ch :: next :: fmt := fun y hy =>
        List.mem_cons_of_mem _ (List.mem_cons_of_mem _ hy)
      rw [copied] at h
      split at h
      · cases h
      split at h
      · split at h
        · rcases List.mem_append.mp h with hText | hx
          · exact Or.inr ⟨ch, List.mem_cons_self, _, Or.inl rfl, hText⟩
          · exact hRest fmt _ hBehind (mem_copied fmt _ x) hx
        · exact Or.inr ⟨ch, List.mem_cons_self, _, Or.inl rfl, List.mem_of_mem_take h⟩
      split at h
      · split at h
        · next text hMessage =>
            rcases List.mem_append.mp h with hText | hx
            · have hShown := (formatMessageA_eq_some_iff.mp hMessage).1
              exact Or.inr ⟨ch, List.mem_cons_self, text, Or.inr hShown, hText⟩
            · exact hRest fmt _ hBehind (mem_copied fmt _ x) hx
        · exact hRest fmt _ hBehind (mem_copied fmt _ x) h
      · rcases List.mem_cons.mp h with rfl | hx
        · exact Or.inl List.mem_cons_self
        · exact hRest (next :: fmt) _ (List.subset_cons_self _ _) (mem_copied (next :: fmt) _ x) hx

theorem nul_notMem_shown {text : CString} (h : Shown sys text) : 0 ∉ text := by
  rcases h with rfl | hMessage
  · exact sys.strerror_nul
  · exact sys.systemMessage_nul text hMessage

/-- The format that is used. -/
def used (fmt : List Cell) : List Cell :=
  if hasError fmt then copied sys fmt (fmtLen - 1) else fmt

/-- `fmt_copy` has room for it, and it ends with a NUL. -/
theorem expandFormat_eq {fmt buf : List Cell} (hBuf : buf.length = fmtLen)
    (hNul : ∀ ch ∈ fmt, ch.c ≠ 0) : expandFormat sys fmt buf = .ok (used sys fmt) := by
  unfold expandFormat used
  by_cases hError : hasError fmt = true
  · rw [if_pos hError, if_pos hError]
    have hRoom : 0 + (fmtLen - 1) < buf.length := by
      rw [hBuf]
      decide
    obtain ⟨buf', f', tail, hRun, hLength, hLe, hIs⟩ :=
      copyFormat_leaves sys fmt buf 0 (fmtLen - 1) hRoom
    have hLast : f' + [Cell.nul].length ≤ buf'.length := by
      rw [hLength, hBuf, List.length_singleton]
      have hLen : fmtLen = 1024 := rfl
      omega
    obtain ⟨mem, hStore, -, hTake⟩ := store_eq hLast
    rw [hIs, List.take_zero, List.nil_append] at hTake
    have hMem : mem = copied sys fmt (fmtLen - 1) ++
        (Cell.nul :: tail ++ mem.drop (f' + [Cell.nul].length)) := by
      rw [← List.append_assoc, ← hTake, List.take_append_drop]
    have hClean : ∀ x ∈ copied sys fmt (fmtLen - 1), (x.c != 0) = true := by
      intro x hx
      rcases mem_copied sys fmt _ x hx with hOwn | ⟨ch, -, text, hShown, hText⟩
      · exact bne_iff_ne.mpr (hNul x hOwn)
      · obtain ⟨c, hc, rfl⟩ := List.mem_map.mp hText
        exact bne_iff_ne.mpr fun hZero => nul_notMem_shown sys hShown (hZero ▸ hc)
    have hAny : mem.any (fun x => x.c == 0) = true := by
      rw [hMem]
      simp [Cell.nul]
    rw [hRun]
    simp only [bind, Except.bind, hStore, untilNul, if_pos hAny]
    rw [hMem, List.takeWhile_append_of_pos hClean]
    simp [Cell.nul]
  · rw [if_neg hError, if_neg hError]

/-! ### What the format is to become -/

/-- The pieces that stand for a piece: those of an error text stand for themselves. -/
def expandPiece : List Cell → List (List Cell)
  | [ch, next] =>
      if next.c = 'm'.toUInt8 then (errorCells ch sys.strerror).map fun x => [x]
      else if next.c = 'M'.toUInt8 then
        (errorCells ch (sys.systemMessage.getD [])).map fun x => [x]
      else [[ch, next]]
  | p => [p]

def expandPieces (ps : List (List Cell)) : List (List Cell) := ps.flatMap (expandPiece sys)

/-- The text that a piece stands for, if it is `%m` or `%M`. -/
def errorText : List Cell → Option CString
  | [_, next] =>
      if next.c = 'm'.toUInt8 then some sys.strerror
      else if next.c = 'M'.toUInt8 then some (sys.systemMessage.getD [])
      else none
  | _ => none

/-- A directive ends with a `%`, and what is behind it could be taken for the end of another. -/
def Escapes (p rest : List Cell) : Prop :=
  (∃ d ∈ p.getLast?, d.c = percent) ∧ ∃ next ∈ rest.head?, isError next.c = true

/-- The pieces can be copied into `left` characters. The loop tells an escaping `%` from others only
where it does not look at them any more. -/
def Fits : Nat → List (List Cell) → Prop
  | _, [] => True
  | left, p :: ps =>
      if left = 0 then expandPieces sys (p :: ps) = []
      else
        match errorText sys p with
        | some text => 4 < left ∧ text.length < left ∧ Fits (left - text.length) ps
        | none => p.length ≤ left ∧ (Escapes p ps.flatten → left ≤ p.length + 3) ∧
            Fits (left - p.length) ps

/-- A `%` at which the loop puts in an error text. -/
def AtError (ch : Cell) (rest : List Cell) (left : Nat) : Prop :=
  ch.c = percent ∧ 4 < left ∧ ∃ next ∈ rest.head?, isError next.c = true

section Copied

variable {sys} {left : Nat} {ch next : Cell} {rest p : List Cell} {ps : List (List Cell)}

theorem isError_iff {c : UInt8} : isError c = true ↔ c = 'm'.toUInt8 ∨ c = 'M'.toUInt8 := by
  rw [isError, Bool.or_eq_true, beq_iff_eq, beq_iff_eq]

theorem length_copied_le : ∀ (fmt : List Cell) (left : Nat), (copied sys fmt left).length ≤ left
  | [], _ => Nat.zero_le _
  | [ch], left => by
      rw [copied]
      split
      · exact Nat.zero_le _
      · rw [List.length_singleton]
        omega
  | ch :: next :: fmt, left => by
      rw [copied]
      split
      · exact Nat.zero_le _
      split
      · split
        · have hRest := length_copied_le fmt (left - sys.strerror.length)
          rw [List.length_append, length_errorCells]
          omega
        · exact Nat.le_trans (List.length_take_le _ _) (Nat.sub_le _ _)
      split
      · split
        · next text hMessage =>
            have hFits := (formatMessageA_eq_some_iff.mp hMessage).2
            have hRest := length_copied_le fmt (left - text.length)
            rw [List.length_append, length_errorCells]
            omega
        · exact length_copied_le fmt left
      · have hRest := length_copied_le (next :: fmt) (left - 1)
        rw [List.length_cons]
        omega

theorem copied_cons (hNot : ¬ AtError ch rest left) (hLeft : left ≠ 0) :
    copied sys (ch :: rest) left = ch :: copied sys rest (left - 1) := by
  rcases rest with - | ⟨next, rest⟩
  · simp only [copied, if_neg hLeft]
  · have hm : ¬ (ch.c = percent ∧ 4 < left ∧ next.c = 'm'.toUInt8) := fun h =>
      hNot ⟨h.1, h.2.1, next, rfl, isError_iff.mpr (Or.inl h.2.2)⟩
    have hM : ¬ (ch.c = percent ∧ 4 < left ∧ next.c = 'M'.toUInt8) := fun h =>
      hNot ⟨h.1, h.2.1, next, rfl, isError_iff.mpr (Or.inr h.2.2)⟩
    rw [copied, if_neg hLeft, if_neg hm, if_neg hM]

/-- Where the loop puts in a text, neither the `%` nor the character behind it is copied. -/
theorem mem_copied_of_atError (h : AtError ch (next :: rest) left) {x : Cell}
    (hx : x ∈ copied sys (ch :: next :: rest) left) : x ∈ rest ∨ x.error = true := by
  obtain ⟨hPercent, hLeft, next', hNext, hError⟩ := h
  obtain rfl : next = next' := Option.some.inj hNext
  have hText : ∀ (c : Cell) (text : CString), x ∈ errorCells c text → x.error = true := by
    intro c text hMem
    obtain ⟨_, -, rfl⟩ := List.mem_map.mp hMem
    rfl
  have hRest : ∀ left, x ∈ copied sys rest left → x ∈ rest ∨ x.error = true := by
    intro left hMem
    rcases mem_copied sys rest left x hMem with hOwn | ⟨c, -, text, -, hIn⟩
    · exact Or.inl hOwn
    · exact Or.inr (hText c text hIn)
  rw [copied, if_neg (by omega)] at hx
  rcases isError_iff.mp hError with hm | hM
  · rw [if_pos ⟨hPercent, hLeft, hm⟩] at hx
    split at hx
    · rcases List.mem_append.mp hx with hIn | hMem
      · exact Or.inr (hText _ _ hIn)
      · exact hRest _ hMem
    · exact Or.inr (hText _ _ (List.mem_of_mem_take hx))
  · have hNot : ¬ (ch.c = percent ∧ 4 < left ∧ next.c = 'm'.toUInt8) := by
      rintro ⟨-, -, hm⟩
      exact absurd (hm.symm.trans hM) (by decide)
    rw [if_neg hNot, if_pos ⟨hPercent, hLeft, hM⟩] at hx
    split at hx
    · rcases List.mem_append.mp hx with hIn | hMem
      · exact Or.inr (hText _ _ hIn)
      · exact hRest _ hMem
    · exact hRest _ hx

/-- Modifiers are copied. -/
theorem copied_modifiers {modifiers : List Cell}
    (hModifiers : ∀ m ∈ modifiers, isModifier m.c = true) (hLeft : modifiers.length ≤ left) :
    copied sys (modifiers ++ rest) left =
      modifiers ++ copied sys rest (left - modifiers.length) := by
  induction modifiers generalizing left with
  | nil => rfl
  | cons m modifiers ih =>
      rw [List.length_cons] at hLeft
      have hNot : ¬ AtError m (modifiers ++ rest) left := by
        rintro ⟨hPercent, -⟩
        have hModifier := hModifiers m List.mem_cons_self
        rw [hPercent] at hModifier
        exact absurd hModifier (by decide)
      have hRest := ih (fun m' hm' => hModifiers m' (List.mem_cons_of_mem _ hm'))
        (show modifiers.length ≤ left - 1 by omega)
      rw [List.cons_append, copied_cons hNot (by omega), hRest, List.length_cons, List.cons_append,
        Nat.sub_sub, Nat.add_comm 1]

theorem not_isError_of_errorText {ch d : Cell} (h : errorText sys [ch, d] = none) :
    isError d.c = false := by
  rw [errorText] at h
  split at h
  · cases h
  · next hm =>
      split at h
      · cases h
      · next hM => rw [isError, beq_false_of_ne hm, beq_false_of_ne hM]; rfl

theorem not_isError_of_isModifier {c : UInt8} (h : isModifier c = true) : isError c = false := by
  by_contra hError
  rcases isError_iff.mp (Bool.not_eq_false _ ▸ hError) with rfl | rfl <;> exact absurd h (by decide)

/-- A directive is copied up to its conversion. -/
theorem copied_front {d : Cell} {modifiers : List Cell}
    (hModifiers : ∀ m ∈ modifiers, isModifier m.c = true)
    (hOwn : errorText sys (ch :: (modifiers ++ [d])) = none) (hLeft : modifiers.length + 2 ≤ left) :
    copied sys (ch :: (modifiers ++ d :: rest)) left =
      ch :: (modifiers ++ copied sys (d :: rest) (left - 1 - modifiers.length)) := by
  have hNot : ¬ AtError ch (modifiers ++ d :: rest) left := by
    rintro ⟨-, -, next, hNext, hError⟩
    have hOther : isError next.c = false := by
      rcases modifiers with - | ⟨m, modifiers⟩
      · obtain rfl : d = next := Option.some.inj hNext
        exact not_isError_of_errorText hOwn
      · obtain rfl : m = next := Option.some.inj hNext
        exact not_isError_of_isModifier (hModifiers m List.mem_cons_self)
    exact Bool.false_ne_true (hOther.symm.trans hError)
  rw [copied_cons hNot (by omega), copied_modifiers hModifiers (by omega)]

theorem getLast?_directive (c d : Cell) (modifiers : List Cell) :
    (c :: (modifiers ++ [d])).getLast? = some d := by
  rw [← List.cons_append, List.getLast?_concat]

/-- A piece that stands for itself is copied, if it does not escape anything. -/
theorem copied_piece (hp : IsPiece Cell.c p) (hOwn : errorText sys p = none)
    (hRoom : p.length ≤ left) (hQuiet : Escapes p rest → left ≤ p.length + 3) :
    copied sys (p ++ rest) left = p ++ copied sys rest (left - p.length) := by
  cases hp with
  | @char c hChar =>
      rw [List.length_singleton] at hRoom ⊢
      exact copied_cons (fun hAt => hChar hAt.1) (by omega)
  | @directive c d modifiers hPercent hModifiers hConversion =>
      rw [List.length_cons, List.length_append, List.length_singleton] at hRoom hQuiet ⊢
      have hNot : ¬ AtError d rest (left - 1 - modifiers.length) := by
        rintro ⟨hd, hLeft, hNext⟩
        have hFew := hQuiet ⟨⟨d, getLast?_directive c d modifiers, hd⟩, hNext⟩
        omega
      rw [List.cons_append, List.append_assoc, List.singleton_append,
        copied_front hModifiers hOwn (by omega), copied_cons hNot (by omega), List.cons_append,
        List.append_assoc, List.singleton_append]
      have hSame : left - 1 - modifiers.length - 1 = left - (modifiers.length + 1 + 1) := by omega
      rw [hSame]

/-- Where a `%` is taken for the start of `%m` that ends a directive, it is lost. -/
theorem copied_ne_of_escapes (hp : IsPiece Cell.c p) (hOwn : errorText sys p = none)
    (hEscapes : Escapes p rest) (hLoud : p.length + 3 < left)
    (hApart : ∀ d ∈ p, d ∉ rest ∧ d.error = false) (out : List Cell) :
    copied sys (p ++ rest) left ≠ p ++ out := by
  obtain ⟨⟨e, hLast, hPercent⟩, next, hNext, hError⟩ := hEscapes
  cases hp with
  | @char c hChar =>
      obtain rfl : c = e := Option.some.inj hLast
      exact absurd hPercent hChar
  | @directive c d modifiers _ hModifiers hConversion =>
      obtain rfl : d = e := Option.some.inj ((getLast?_directive c d modifiers).symm.trans hLast)
      rcases rest with - | ⟨next', rest⟩
      · cases hNext
      obtain rfl : next' = next := Option.some.inj hNext
      rw [List.length_cons, List.length_append, List.length_singleton] at hLoud
      intro hSame
      rw [List.cons_append, List.append_assoc, List.singleton_append,
        copied_front hModifiers hOwn (by omega), List.cons_append, List.append_assoc,
        List.singleton_append] at hSame
      have hTail := List.append_cancel_left (List.cons.inj hSame).2
      have hAt : AtError d (next' :: rest) (left - 1 - modifiers.length) :=
        ⟨hPercent, by omega, next', rfl, hError⟩
      have hMem : d ∈ copied sys (d :: next' :: rest) (left - 1 - modifiers.length) := by
        rw [hTail]
        exact List.mem_cons_self
      obtain ⟨hFar, hNone⟩ := hApart d (by simp)
      rcases mem_copied_of_atError hAt hMem with hRest | hTrue
      · exact hFar (List.mem_cons_of_mem _ hRest)
      · exact Bool.false_ne_true (hNone.symm.trans hTrue)

/-! ### What is copied and what is to be -/

theorem errorText_eq_some {text : CString} (h : errorText sys p = some text) :
    ∃ ch d, p = [ch, d] ∧ expandPiece sys p = (errorCells ch text).map (fun x => [x]) ∧
      (d.c = 'm'.toUInt8 ∧ text = sys.strerror ∨
        d.c = 'M'.toUInt8 ∧ text = sys.systemMessage.getD []) := by
  rcases p with - | ⟨ch, _ | ⟨d, _ | ⟨e, p⟩⟩⟩
  · cases h
  · cases h
  · rw [errorText] at h
    refine ⟨ch, d, rfl, ?_⟩
    rw [expandPiece]
    split at h
    · next hm =>
        rw [if_pos hm, ← Option.some.inj h]
        exact ⟨rfl, Or.inl ⟨hm, rfl⟩⟩
    · next hm =>
        split at h
        · next hM =>
            rw [if_neg hm, if_pos hM, ← Option.some.inj h]
            exact ⟨rfl, Or.inr ⟨hM, rfl⟩⟩
        · cases h
  · cases h

theorem expandPiece_of_errorText (h : errorText sys p = none) : expandPiece sys p = [p] := by
  rcases p with - | ⟨ch, _ | ⟨d, _ | ⟨e, p⟩⟩⟩
  · rfl
  · rfl
  · rw [errorText] at h
    rw [expandPiece]
    split at h
    · cases h
    · next hm =>
        split at h
        · cases h
        · next hM => rw [if_neg hm, if_neg hM]
  · rfl

theorem flatten_errorCells (text : List Cell) : (text.map fun x => [x]).flatten = text := by
  rw [← List.flatMap_def, List.flatMap_singleton']

theorem expandPieces_cons :
    expandPieces sys (p :: ps) = expandPiece sys p ++ expandPieces sys ps := List.flatMap_cons

theorem mem_expandPieces {x : Cell} (hx : x ∈ (expandPieces sys ps).flatten) :
    x ∈ ps.flatten ∨ x.error = true := by
  induction ps with
  | nil => exact Or.inl hx
  | cons p ps ih =>
      rw [expandPieces_cons, List.flatten_append] at hx
      rcases List.mem_append.mp hx with hFirst | hRest
      · cases hText : errorText sys p with
        | none =>
            rw [expandPiece_of_errorText hText, List.flatten_singleton] at hFirst
            exact Or.inl (List.mem_append_left _ hFirst)
        | some text =>
            obtain ⟨ch, d, -, hExpand, -⟩ := errorText_eq_some hText
            rw [hExpand, flatten_errorCells] at hFirst
            obtain ⟨_, -, rfl⟩ := List.mem_map.mp hFirst
            exact Or.inr rfl
      · exact (ih hRest).imp (List.mem_append_right _) id

theorem copied_zero (fmt : List Cell) : copied sys fmt 0 = [] := by
  rcases fmt with - | ⟨ch, _ | ⟨next, fmt⟩⟩ <;> simp only [copied, if_true]

theorem expandPieces_eq_nil_iff (hPieces : ∀ p ∈ ps, p ≠ []) :
    [] = (expandPieces sys ps).flatten ↔ expandPieces sys ps = [] := by
  constructor
  · intro h
    rw [eq_comm, List.flatten_eq_nil_iff] at h
    refine List.eq_nil_iff_forall_not_mem.mpr fun q hq => ?_
    obtain ⟨p, hp, hIn⟩ := List.mem_flatMap.mp hq
    have hEmpty : q = [] := h q hq
    cases hText : errorText sys p with
    | none =>
        rw [expandPiece_of_errorText hText, List.mem_singleton] at hIn
        exact hPieces p hp (hIn.symm.trans hEmpty)
    | some text =>
        obtain ⟨ch, d, -, hExpand, -⟩ := errorText_eq_some hText
        rw [hExpand] at hIn
        obtain ⟨x, -, rfl⟩ := List.mem_map.mp hIn
        exact absurd hEmpty (List.cons_ne_nil _ _)
  · intro h
    rw [h]
    rfl

/-- Where an error text is to be, it is copied if there is room for it. -/
theorem copied_error_iff {d : Cell} {text : CString} {out : List Cell} (hPercent : ch.c = percent)
    (hText : d.c = 'm'.toUInt8 ∧ text = sys.strerror ∨
      d.c = 'M'.toUInt8 ∧ text = sys.systemMessage.getD [])
    (hRest : ∀ x ∈ rest, x.error = false ∧ x.behind ≠ ch.behind)
    (hOut : ∀ x ∈ out, x.error = false → x ∈ rest) (hOwn : ch.error = false)
    (hLeft : left ≠ 0) :
    copied sys (ch :: d :: rest) left = errorCells ch text ++ out ↔
      4 < left ∧ text.length < left ∧ copied sys rest (left - text.length) = out := by
  have hErrors : ∀ x ∈ errorCells ch text, x.error = true := by
    intro x hx
    obtain ⟨_, -, rfl⟩ := List.mem_map.mp hx
    rfl
  by_cases hFour : 4 < left
  · rcases hText with ⟨hm, rfl⟩ | ⟨hM, rfl⟩
    · rw [copied, if_neg hLeft, if_pos ⟨hPercent, hFour, hm⟩]
      by_cases hFits : sys.strerror.length < left
      · rw [if_pos hFits, List.append_cancel_left_eq]
        exact ⟨fun h => ⟨hFour, hFits, h⟩, fun h => h.2.2⟩
      · rw [if_neg hFits]
        refine iff_of_false (fun h => ?_) (fun h => hFits h.2.1)
        have hLength := congrArg List.length h
        rw [List.length_take, List.length_append, length_errorCells] at hLength
        omega
    · have hNot : ¬ (ch.c = percent ∧ 4 < left ∧ d.c = 'm'.toUInt8) := by
        rintro ⟨-, -, hm⟩
        exact absurd (hm.symm.trans hM) (by decide)
      rw [copied, if_neg hLeft, if_neg hNot, if_pos ⟨hPercent, hFour, hM⟩]
      cases hMessage : sys.systemMessage with
      | none =>
          have hNone : formatMessageA none left = none := rfl
          rw [hNone]
          simp only [Option.getD_none, errorCells, List.map_nil, List.nil_append, List.length_nil,
            Nat.sub_zero]
          exact ⟨fun h => ⟨hFour, by omega, h⟩, fun h => h.2.2⟩
      | some text =>
          by_cases hFits : text.length < left
          · rw [formatMessageA_eq_some_iff.mpr ⟨rfl, hFits⟩]
            simp only [Option.getD_some, List.append_cancel_left_eq]
            exact ⟨fun h => ⟨hFour, hFits, h⟩, fun h => h.2.2⟩
          · have hNone : formatMessageA (some text) left = none := by
              rw [formatMessageA, Option.filter_some, decide_eq_false hFits]
              rfl
            rw [hNone, Option.getD_some]
            refine iff_of_false (fun h => ?_) (fun h => hFits h.2.1)
            obtain ⟨c, cs, rfl⟩ : ∃ c cs, text = c :: cs := by
              rcases text with - | ⟨c, cs⟩
              · exact absurd (show ([] : CString).length < left by simp; omega) hFits
              · exact ⟨c, cs, rfl⟩
            -- the text is dropped, and no other has its place
            have hDropped : copied sys rest left = errorCells ch (c :: cs) ++ out := h
            have hMem : (⟨c, true, ch.behind⟩ : Cell) ∈ copied sys rest left := by
              rw [hDropped]
              exact List.mem_append_left _ List.mem_cons_self
            rcases mem_copied sys rest left _ hMem with hIn | ⟨ch', hch', other, -, hIn⟩
            · exact absurd (hRest _ hIn).1 (by simp)
            · obtain ⟨_, -, hSame⟩ := List.mem_map.mp hIn
              exact (hRest ch' hch').2 (Cell.mk.inj hSame).2.2
  · have hNot : ¬ AtError ch (d :: rest) left := fun h => hFour h.2.1
    rw [copied_cons hNot hLeft]
    refine iff_of_false (fun h => ?_) (fun h => hFour h.1)
    have hMem : ch ∈ errorCells ch text ++ out := h ▸ List.mem_cons_self
    rcases List.mem_append.mp hMem with hIn | hIn
    · exact Bool.false_ne_true (hOwn.symm.trans (hErrors ch hIn))
    · exact (hRest ch (hOut ch hIn hOwn)).2 rfl

/-- The loop leaves what the format is to become exactly when the pieces can be copied. -/
theorem copied_eq_iff :
    ∀ (ps : List (List Cell)) (left : Nat), (∀ p ∈ ps, IsPiece Cell.c p) →
      (∀ x ∈ ps.flatten, x.error = false) → (ps.flatten.map Cell.behind).Nodup →
      (copied sys ps.flatten left = (expandPieces sys ps).flatten ↔ Fits sys left ps)
  | [], _, _, _, _ => iff_of_true rfl trivial
  | p :: ps, left, hPieces, hOwn, hDistinct => by
      obtain ⟨hp, hRestPieces⟩ := List.forall_mem_cons.mp hPieces
      rw [List.flatten_cons] at hOwn hDistinct
      rw [List.map_append, List.nodup_append] at hDistinct
      obtain ⟨-, hDistinctRest, hApart⟩ := hDistinct
      have hOwnRest : ∀ x ∈ ps.flatten, x.error = false := fun x hx =>
        hOwn x (List.mem_append_right _ hx)
      have hFar : ∀ d ∈ p, ∀ x ∈ ps.flatten, x.behind ≠ d.behind := fun d hd x hx hSame =>
        hApart d.behind (List.mem_map_of_mem hd) x.behind (List.mem_map_of_mem hx) hSame.symm
      rw [List.flatten_cons, Fits]
      by_cases hLeft : left = 0
      · rw [if_pos hLeft, hLeft, copied_zero]
        exact expandPieces_eq_nil_iff fun q hq => (hPieces q hq).ne_nil
      rw [if_neg hLeft, expandPieces_cons, List.flatten_append]
      cases hText : errorText sys p with
      | some text =>
          obtain ⟨ch, d, rfl, hExpand, hWhich⟩ := errorText_eq_some hText
          rw [hExpand, flatten_errorCells]
          have hOthers : ∀ x ∈ ps.flatten, x.error = false ∧ x.behind ≠ ch.behind := fun x hx =>
            ⟨hOwnRest x hx, hFar ch List.mem_cons_self x hx⟩
          have hOut : ∀ x ∈ (expandPieces sys ps).flatten, x.error = false → x ∈ ps.flatten :=
            fun x hx hNot => (mem_expandPieces hx).resolve_right (by simp [hNot])
          have hStands := copied_error_iff hp.percent_of_two hWhich hOthers hOut
            (hOwn ch (List.mem_append_left _ List.mem_cons_self)) hLeft
          refine hStands.trans (and_congr_right fun _ => and_congr_right fun _ => ?_)
          exact copied_eq_iff ps _ hRestPieces hOwnRest hDistinctRest
      | none =>
          rw [expandPiece_of_errorText hText, List.flatten_singleton]
          by_cases hRoom : p.length ≤ left
          · by_cases hQuiet : Escapes p ps.flatten → left ≤ p.length + 3
            · rw [copied_piece hp hText hRoom hQuiet, List.append_cancel_left_eq,
                copied_eq_iff ps _ hRestPieces hOwnRest hDistinctRest]
              exact ⟨fun h => ⟨hRoom, hQuiet, h⟩, fun h => h.2.2⟩
            · refine iff_of_false ?_ fun h => hQuiet h.2.1
              obtain ⟨hEscapes, hLoud⟩ := Classical.not_imp.mp hQuiet
              refine copied_ne_of_escapes hp hText hEscapes (Nat.not_le.mp hLoud) (fun d hd => ?_) _
              exact ⟨fun hIn => hFar d hd d hIn rfl, hOwn d (List.mem_append_left _ hd)⟩
          · refine iff_of_false (fun h => ?_) fun h => hRoom h.1
            have hLength := congrArg List.length h
            have hLe : (copied sys (p ++ ps.flatten) left).length ≤ left :=
              length_copied_le (p ++ ps.flatten) left
            rw [List.length_append] at hLength
            omega

theorem hasError_append (front : List Cell) {fmt : List Cell} (h : hasError fmt = true) :
    hasError (front ++ fmt) = true := by
  induction front with
  | nil => exact h
  | cons ch front ih =>
      rcases hRest : front ++ fmt with - | ⟨next, rest⟩
      · rw [hRest] at ih
        exact absurd ih (by simp [hasError])
      · rw [hRest] at ih
        rw [List.cons_append, hRest, hasError, ih, Bool.or_true]

/-- A piece that is an error text is found. -/
theorem hasError_of_errorText (hPieces : ∀ p ∈ ps, IsPiece Cell.c p) (hMem : p ∈ ps)
    {text : CString} (hText : errorText sys p = some text) : hasError ps.flatten = true := by
  obtain ⟨ch, d, rfl, -, hWhich⟩ := errorText_eq_some hText
  have hError : isError d.c = true := isError_iff.mpr (hWhich.imp And.left And.left)
  obtain ⟨front, back, rfl⟩ := List.append_of_mem hMem
  rw [List.flatten_append, List.flatten_cons]
  apply hasError_append
  rw [List.cons_append, List.singleton_append, hasError, (hPieces _ hMem).percent_of_two, hError]
  rfl

theorem expandPieces_of_not_hasError (hPieces : ∀ p ∈ ps, IsPiece Cell.c p)
    (hNone : hasError ps.flatten = false) : expandPieces sys ps = ps := by
  have hEach : ∀ p ∈ ps, expandPiece sys p = [p] := by
    intro p hp
    apply expandPiece_of_errorText
    by_contra hSome
    obtain ⟨text, hText⟩ := Option.ne_none_iff_exists'.mp hSome
    exact Bool.false_ne_true (hNone.symm.trans (hasError_of_errorText hPieces hp hText))
  calc expandPieces sys ps
    _ = ps.flatMap fun p => [p] := List.flatMap_congr hEach
    _ = ps := List.flatMap_singleton' ps

/-- The pieces of an error text are pieces if there is no `%` in it. -/
theorem forall_isPiece_iff (hPieces : ∀ p ∈ ps, IsPiece Cell.c p) :
    (∀ q ∈ expandPieces sys ps, IsPiece Cell.c q) ↔
      ∀ p ∈ ps, ∀ text, errorText sys p = some text → percent ∉ text := by
  constructor
  · intro h p hp text hText hMem
    obtain ⟨ch, d, -, hExpand, -⟩ := errorText_eq_some hText
    have hIn : [(⟨percent, true, ch.behind⟩ : Cell)] ∈ expandPieces sys ps := by
      refine List.mem_flatMap.mpr ⟨p, hp, ?_⟩
      rw [hExpand]
      exact List.mem_map_of_mem (List.mem_map_of_mem hMem)
    generalize hq : [(⟨percent, true, ch.behind⟩ : Cell)] = q at hIn
    cases h q hIn with
    | char hChar =>
        rw [← (List.cons.inj hq).1] at hChar
        exact hChar rfl
    | directive _ _ _ =>
        have hLength := congrArg List.length hq
        simp at hLength
  · intro h q hq
    obtain ⟨p, hp, hIn⟩ := List.mem_flatMap.mp hq
    cases hText : errorText sys p with
    | none =>
        rw [expandPiece_of_errorText hText, List.mem_singleton] at hIn
        exact hIn ▸ hPieces p hp
    | some text =>
        obtain ⟨ch, d, -, hExpand, -⟩ := errorText_eq_some hText
        rw [hExpand] at hIn
        obtain ⟨x, hx, rfl⟩ := List.mem_map.mp hIn
        obtain ⟨c, hc, rfl⟩ := List.mem_map.mp hx
        exact .char fun hPercent => h p hp text hText (hPercent ▸ hc)

end Copied

/-! ### The format of a call -/

/-- The format is used as it is, or its error texts are all put in: they fit `fmt_copy` with the
rest of it, no `%` that stands behind an escape is taken for one of theirs, and there is no `%` in
them. -/
def Literal (ps : List (List Cell)) : Prop :=
  hasError ps.flatten = true → Fits sys (fmtLen - 1) ps ∧
    ∀ p ∈ ps, ∀ text, errorText sys p = some text → percent ∉ text

theorem map_own (fmt : CString) : (own fmt).map Cell.c = fmt := by
  induction fmt with
  | nil => rfl
  | cons c fmt ih => rw [own, List.map_cons, ih]

theorem behind_own (fmt : CString) :
    (own fmt).map Cell.behind = (List.range fmt.length).reverse := by
  induction fmt with
  | nil => rfl
  | cons c fmt ih =>
      rw [own, List.map_cons, ih, List.length_cons, List.range_succ, List.reverse_append]
      rfl

theorem error_own (fmt : CString) : ∀ x ∈ own fmt, x.error = false := by
  induction fmt with
  | nil => exact fun _ hx => nomatch hx
  | cons c fmt ih => exact List.forall_mem_cons.mpr ⟨rfl, ih⟩

/-- What is used is read as what the format is to become exactly if it is put in literally. -/
theorem pieces_used_iff {fmt : CString} {ps : List (List Cell)}
    (hFormat : pieces Cell.c (own fmt) = some ps) :
    pieces Cell.c (used sys (own fmt)) = some (expandPieces sys ps) ↔ Literal sys ps := by
  obtain ⟨hFlat, hPieces⟩ := pieces_eq_some_iff.mp hFormat
  have hDistinct : (ps.flatten.map Cell.behind).Nodup := by
    rw [hFlat, behind_own]
    exact List.nodup_reverse.mpr List.nodup_range
  have hOwn : ∀ x ∈ ps.flatten, x.error = false := hFlat ▸ error_own fmt
  unfold used Literal
  rw [← hFlat]
  by_cases hError : hasError ps.flatten = true
  · rw [if_pos hError, pieces_eq_some_iff, forall_isPiece_iff hPieces, eq_comm,
      copied_eq_iff ps _ hPieces hOwn hDistinct]
    exact ⟨fun h _ => h, fun h => h hError⟩
  · rw [if_neg hError, expandPieces_of_not_hasError hPieces (Bool.not_eq_true _ ▸ hError)]
    exact iff_of_true (hFlat.symm ▸ hFormat) fun h => absurd h hError

end OncRpc.Compat.Syslog
