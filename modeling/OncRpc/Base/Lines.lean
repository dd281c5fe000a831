import Mathlib.Data.List.Basic
import Mathlib.Data.List.DropRight

/-! Splitting a stream into lines. A line ends at `nl`, and a `cr` directly before or behind the
`nl` belongs to the end. Lines that are longer than a size are cut into pieces of that size. -/
namespace Lines

section Pieces

variable {α : Type*} (size : Nat)

/-- Cuts what is behind `piece`, the beginning of a piece. -/
def cutFrom (piece : List α) : List α → List (List α)
  | [] => if piece = [] then [] else [piece]
  | c :: t =>
      if piece.length + 1 = size then (piece ++ [c]) :: cutFrom [] t else cutFrom (piece ++ [c]) t

/-- The pieces of a line. There are none of an empty one. -/
def pieces (line : List α) : List (List α) := cutFrom size [] line

/-- A line that is not empty. -/
def nonEmpty (line : List α) : List (List α) := if line = [] then [] else [line]

variable {size} {line piece rest : List α}

theorem cutFrom_short (hShort : piece.length + line.length < size) :
    cutFrom size piece line = nonEmpty (piece ++ line) := by
  induction line generalizing piece with
  | nil => rw [cutFrom, List.append_nil, nonEmpty]
  | cons c t ih =>
      rw [List.length_cons] at hShort
      have hNext : (piece ++ [c]).length + t.length < size := by
        rw [List.length_append, List.length_singleton]
        omega
      rw [cutFrom, if_neg (by omega), ih hNext, List.append_assoc, List.singleton_append]

/-- A piece that is full is cut off. -/
theorem cutFrom_full (hFull : piece.length + line.length = size) (hLine : line ≠ []) :
    cutFrom size piece (line ++ rest) = (piece ++ line) :: cutFrom size [] rest := by
  induction line generalizing piece with
  | nil => exact absurd rfl hLine
  | cons c t ih =>
      rw [List.length_cons] at hFull
      rw [List.cons_append, cutFrom]
      cases t with
      | nil =>
          rw [List.length_nil] at hFull
          rw [if_pos (by omega), List.nil_append]
      | cons d t =>
          rw [List.length_cons] at hFull
          have hNext : (piece ++ [c]).length + (d :: t).length = size := by
            rw [List.length_append, List.length_singleton, List.length_cons]
            omega
          rw [if_neg (by omega), ih hNext (List.cons_ne_nil _ _), List.append_assoc,
            List.singleton_append]

@[simp] theorem pieces_nil : pieces size ([] : List α) = [] := rfl

/-- Nothing is lost or added. -/
theorem flatten_cutFrom (piece line : List α) :
    (cutFrom size piece line).flatten = piece ++ line := by
  induction line generalizing piece with
  | nil =>
      rw [cutFrom]
      split
      · next hNil => rw [hNil]; rfl
      · simp
  | cons c t ih =>
      rw [cutFrom]
      split
      · rw [List.flatten_cons, ih]
        simp
      · rw [ih, List.append_assoc, List.singleton_append]

theorem flatten_pieces (line : List α) : (pieces size line).flatten = line :=
  flatten_cutFrom [] line

theorem pieces_short (hShort : line.length < size) : pieces size line = nonEmpty line := by
  have hCut : cutFrom size [] line = nonEmpty ([] ++ line) := cutFrom_short (by simpa using hShort)
  rwa [List.nil_append] at hCut

theorem pieces_full (hFull : line.length = size) (hSize : 0 < size) :
    pieces size (line ++ rest) = line :: pieces size rest := by
  have hLine : line ≠ [] := by
    rintro rfl
    rw [List.length_nil] at hFull
    omega
  have hCut : cutFrom size [] (line ++ rest) = ([] ++ line) :: cutFrom size [] rest :=
    cutFrom_full (by simpa using hFull) hLine
  rwa [List.nil_append] at hCut

/-- A line that is not too long is one piece. -/
theorem pieces_fits (hFit : line.length ≤ size) (hSize : 0 < size) :
    pieces size line = nonEmpty line := by
  rcases Nat.lt_or_eq_of_le hFit with hShort | hFull
  · exact pieces_short hShort
  · have hOne : pieces size (line ++ []) = line :: pieces size [] := pieces_full hFull hSize
    have hLine : line ≠ [] := by
      rintro rfl
      rw [List.length_nil] at hFull
      omega
    rw [List.append_nil] at hOne
    rw [hOne, nonEmpty, if_neg hLine]
    rfl

end Pieces

variable {α : Type*} [DecidableEq α] (nl cr : α) (size : Nat)

/-- A line without the `cr` at its end. -/
def stripCr (line : List α) : List α := if line.getLast? = some cr then line.dropLast else line

/-- What is behind a line end, without the `cr` at its front. -/
def dropCr : List α → List α
  | [] => []
  | c :: t => if c = cr then t else c :: t

/-- The texts of what is behind `line`, the beginning of a line. `ended` says that a line end is
directly before it. -/
def textsFrom (ended : Bool) (line : List α) : List α → List (List α)
  | [] => pieces size line
  | c :: t =>
      if c = nl then pieces size (stripCr cr line) ++ textsFrom true [] t
      else if c = cr ∧ ended = true then textsFrom false line t
      else textsFrom false (line ++ [c]) t

/-- The texts of a stream. -/
def texts (stream : List α) : List (List α) := textsFrom nl cr size false [] stream

/-- The lines that end in a chunk, without regard to a size, and what is left behind them. -/
def linesFrom (ended : Bool) (line : List α) : List α → List (List α) × List α
  | [] => ([], line)
  | c :: t =>
      if c = nl then
        let r := linesFrom true [] t
        (nonEmpty (stripCr cr line) ++ r.1, r.2)
      else if c = cr ∧ ended = true then linesFrom false line t
      else linesFrom false (line ++ [c]) t

variable {nl cr size} {line piece chunk rest : List α} {ended : Bool}

/-! ### The ends of lines -/

theorem length_stripCr_le (line : List α) : (stripCr cr line).length ≤ line.length := by
  rw [stripCr]
  split
  · rw [List.length_dropLast]
    omega
  · exact Nat.le_refl _

theorem stripCr_append (hLine : line ≠ []) :
    stripCr cr (piece ++ line) = piece ++ stripCr cr line := by
  rw [stripCr, stripCr, List.getLast?_append_of_ne_nil _ hLine]
  split
  · exact List.dropLast_append_of_ne_nil hLine
  · rfl

/-- A `cr` behind a line end is dropped. -/
theorem linesFrom_ended (line chunk : List α) (hDiff : cr ≠ nl) :
    linesFrom nl cr true line chunk = linesFrom nl cr false line (dropCr cr chunk) := by
  cases chunk with
  | nil => rfl
  | cons c t =>
      rw [dropCr]
      split
      · next hCr => rw [linesFrom, if_neg (by rw [hCr]; exact hDiff), if_pos ⟨hCr, rfl⟩]
      · next hCr => simp [linesFrom, hCr]

/-- A line goes on as long as it does not end. -/
theorem linesFrom_open (hOpen : nl ∉ chunk) :
    linesFrom nl cr false line (chunk ++ rest) = linesFrom nl cr false (line ++ chunk) rest := by
  induction chunk generalizing line with
  | nil => rw [List.nil_append, List.append_nil]
  | cons c t ih =>
      have hHead := List.ne_of_not_mem_cons hOpen
      have hTail := List.not_mem_of_not_mem_cons hOpen
      rw [List.cons_append, linesFrom, if_neg (Ne.symm hHead), if_neg (by simp), ih hTail,
        List.append_assoc, List.singleton_append]

/-- A chunk without a line end leaves all of the line. -/
theorem linesFrom_none (hOpen : nl ∉ chunk) :
    linesFrom nl cr false line chunk = ([], line ++ chunk) := by
  have hAll : linesFrom nl cr false line (chunk ++ []) = linesFrom nl cr false (line ++ chunk) [] :=
    linesFrom_open hOpen
  rw [List.append_nil] at hAll
  exact hAll

/-- The first line end of a chunk. -/
theorem linesFrom_line (hOpen : nl ∉ chunk) (hDiff : cr ≠ nl) :
    linesFrom nl cr false line (chunk ++ nl :: rest) =
      (nonEmpty (stripCr cr (line ++ chunk)) ++ (linesFrom nl cr false [] (dropCr cr rest)).1,
        (linesFrom nl cr false [] (dropCr cr rest)).2) := by
  rw [linesFrom_open hOpen, linesFrom, if_pos rfl, linesFrom_ended _ _ hDiff]

/-- What is left of a chunk has no line end in it. -/
theorem not_mem_linesFrom (hOpen : nl ∉ line) : nl ∉ (linesFrom nl cr ended line chunk).2 := by
  induction chunk generalizing ended line with
  | nil => exact hOpen
  | cons c t ih =>
      rw [linesFrom]
      split
      · exact ih (List.not_mem_nil)
      · next hNl =>
          split
          · exact ih hOpen
          · refine ih fun hMem => ?_
            rcases List.mem_append.mp hMem with hOld | hNew
            · exact hOpen hOld
            · exact hNl (List.mem_singleton.mp hNew).symm

theorem length_dropCr_le (chunk : List α) : (dropCr cr chunk).length ≤ chunk.length := by
  cases chunk with
  | nil => exact Nat.le_refl _
  | cons c t =>
      rw [dropCr]
      split
      · exact Nat.le_succ _
      · exact Nat.le_refl _

/-- What is left is not longer than what there was. -/
theorem length_linesFrom_le :
    (linesFrom nl cr ended line chunk).2.length ≤ line.length + chunk.length := by
  induction chunk generalizing ended line with
  | nil => exact Nat.le_refl _
  | cons c t ih =>
      rw [linesFrom, List.length_cons]
      split
      · exact ih.trans (by rw [List.length_nil]; omega)
      · split
        · exact ih.trans (by omega)
        · exact ih.trans (by rw [List.length_append, List.length_singleton]; omega)

/-- What is left stands at the end of what there was. -/
theorem linesFrom_suffix (hEnded : ended = true → line = []) :
    (linesFrom nl cr ended line chunk).2 <:+ line ++ chunk := by
  induction chunk generalizing ended line with
  | nil =>
      rw [List.append_nil]
      exact List.suffix_refl line
  | cons c t ih =>
      rw [linesFrom]
      split
      · exact (ih fun _ => rfl).trans ⟨line ++ [c], by simp⟩
      · split
        · next hCr =>
            rw [hEnded hCr.2]
            have hRest : (linesFrom nl cr false [] t).2 <:+ [] ++ t := ih nofun
            exact hRest.trans ⟨[c], rfl⟩
        · have hNext : (linesFrom nl cr false (line ++ [c]) t).2 <:+ line ++ [c] ++ t := ih nofun
          rwa [List.append_assoc, List.singleton_append] at hNext

/-- A line end is not left. -/
theorem length_linesFrom_lt (hDiff : cr ≠ nl) (hMem : nl ∈ chunk) :
    (linesFrom nl cr false line chunk).2.length < line.length + chunk.length := by
  obtain ⟨before, behind, rfl, hFirst⟩ := List.eq_append_cons_of_mem hMem
  rw [linesFrom_line hFirst hDiff, List.length_append, List.length_cons]
  have hLeft : (linesFrom nl cr false [] (dropCr cr behind)).2.length ≤
      ([] : List α).length + (dropCr cr behind).length := length_linesFrom_le
  have hDrop : (dropCr cr behind).length ≤ behind.length := length_dropCr_le behind
  rw [List.length_nil] at hLeft
  show (linesFrom nl cr false [] (dropCr cr behind)).2.length < _
  omega

/-- Nothing is left behind a line end. -/
theorem linesFrom_of_getLast? (hLast : chunk.getLast? = some nl) :
    (linesFrom nl cr ended line chunk).2 = [] := by
  induction chunk generalizing ended line with
  | nil => cases hLast
  | cons c t ih =>
      cases t with
      | nil =>
          rw [List.getLast?_singleton, Option.some.injEq] at hLast
          rw [linesFrom, if_pos hLast]
          rfl
      | cons d t =>
          rw [List.getLast?_cons_cons] at hLast
          rw [linesFrom]
          split
          · exact ih hLast
          · split
            · exact ih hLast
            · exact ih hLast

/-! ### A chunk of a stream -/

/-- Whether a line has just ended. -/
def endedAfter (nl : α) : Bool → List α → Bool
  | ended, [] => ended
  | _, c :: t => endedAfter nl (decide (c = nl)) t

theorem endedAfter_eq_true : endedAfter nl false chunk = true ↔ chunk.getLast? = some nl := by
  have hNonempty : ∀ (t : List α) (ended : Bool) c,
      endedAfter nl ended (c :: t) = true ↔ (c :: t).getLast? = some nl := by
    intro t
    induction t with
    | nil => exact fun ended c => by simp [endedAfter]
    | cons d t ih =>
        intro ended c
        rw [endedAfter, ih, List.getLast?_cons_cons]
  cases chunk with
  | nil => simp [endedAfter]
  | cons c t => exact hNonempty t false c

/-- The texts of a stream that begins with a chunk of lines that are not too long. -/
theorem textsFrom_append (hSize : 0 < size) (hFit : line.length + chunk.length ≤ size) :
    textsFrom nl cr size ended line (chunk ++ rest) = (linesFrom nl cr ended line chunk).1 ++
      textsFrom nl cr size (endedAfter nl ended chunk) (linesFrom nl cr ended line chunk).2
        rest := by
  induction chunk generalizing ended line with
  | nil => rfl
  | cons c t ih =>
      rw [List.length_cons] at hFit
      rw [List.cons_append, textsFrom, linesFrom, endedAfter]
      by_cases hNl : c = nl
      · have hPieces : pieces size (stripCr cr line) = nonEmpty (stripCr cr line) :=
          pieces_fits ((length_stripCr_le line).trans (by omega)) hSize
        rw [if_pos hNl, if_pos hNl, ih (by rw [List.length_nil]; omega), hPieces,
          decide_eq_true hNl, List.append_assoc]
      · rw [if_neg hNl, if_neg hNl, decide_eq_false hNl]
        split
        · exact ih (by omega)
        · exact ih (by rw [List.length_append, List.length_singleton]; omega)

/-- What is put in front of a line is there in the texts. -/
theorem length_flatten_textsFrom (hLine : line ≠ []) :
    (textsFrom nl cr size false (piece ++ line) rest).flatten.length =
      piece.length + (textsFrom nl cr size false line rest).flatten.length := by
  induction rest generalizing line with
  | nil => rw [textsFrom, textsFrom, flatten_pieces, flatten_pieces, List.length_append]
  | cons c t ih =>
      rw [textsFrom, textsFrom]
      split
      · rw [stripCr_append hLine, List.flatten_append, List.flatten_append, flatten_pieces,
          flatten_pieces]
        simp only [List.length_append]
        omega
      · rw [if_neg (by simp), if_neg (by simp), List.append_assoc,
          ih (List.append_ne_nil_of_right_ne_nil _ (List.cons_ne_nil _ _))]

/-- A `cr` that is behind a line end in another chunk is part of the next line, and this changes
the texts, unless that line is then over. -/
theorem textsFrom_ended_iff (hDiff : cr ≠ nl) :
    textsFrom nl cr size true [] rest = textsFrom nl cr size false [] rest ↔
      ∀ t, rest = cr :: t → t.head? = some nl := by
  rcases rest with - | ⟨c, t⟩
  · simp [textsFrom]
  · by_cases hCr : c = cr
    · subst hCr
      have hEnded : textsFrom nl c size true [] (c :: t) = textsFrom nl c size false [] t := by
        rw [textsFrom, if_neg hDiff, if_pos ⟨rfl, rfl⟩]
      have hKept : textsFrom nl c size false [] (c :: t) = textsFrom nl c size false [c] t := by
        rw [textsFrom, if_neg hDiff, if_neg (by simp), List.nil_append]
      rw [hEnded, hKept]
      rcases t with - | ⟨d, t⟩
      · simp only [List.cons.injEq, true_and, forall_eq', List.head?_nil, reduceCtorEq, iff_false]
        intro hSame
        have hLen := congrArg (fun l : List (List α) => l.flatten.length) hSame
        simp [textsFrom, flatten_pieces] at hLen
      · by_cases hNl : d = nl
        · subst hNl
          simp [textsFrom, stripCr]
        · simp only [List.cons.injEq, true_and, forall_eq', List.head?_cons, Option.some.injEq, hNl,
            iff_false]
          intro hSame
          have hLen := congrArg (fun l : List (List α) => l.flatten.length) hSame
          have hMore : (textsFrom nl c size false ([c] ++ [d]) t).flatten.length =
              [c].length + (textsFrom nl c size false [d] t).flatten.length :=
            length_flatten_textsFrom (List.cons_ne_nil _ _)
          simp only [textsFrom, if_neg hNl, Bool.false_eq_true, and_false, if_false,
            List.nil_append] at hLen
          rw [hMore, List.length_singleton] at hLen
          omega
    · simp [textsFrom, hCr]

/-- A piece that is full can be cut off before the line ends. -/
theorem textsFrom_full (hSize : 0 < size) (hFull : piece.length = size) (hLine : line ≠ []) :
    textsFrom nl cr size false (piece ++ line) rest =
      piece :: textsFrom nl cr size false line rest := by
  induction rest generalizing line with
  | nil => rw [textsFrom, textsFrom, pieces_full hFull hSize]
  | cons c t ih =>
      rw [textsFrom, textsFrom]
      split
      · rw [stripCr_append hLine, pieces_full hFull hSize, List.cons_append]
      · rw [if_neg (by simp), if_neg (by simp), List.append_assoc,
          ih (List.append_ne_nil_of_right_ne_nil _ (List.cons_ne_nil _ _))]

/-- A piece that is full can be cut off, unless its last `cr` belongs to a line end. -/
theorem textsFrom_full_iff (hSize : 0 < size) (hFull : piece.length = size) (hDiff : cr ≠ nl) :
    textsFrom nl cr size false piece rest = piece :: textsFrom nl cr size false [] rest ↔
      (piece.getLast? = some cr → rest.head? ≠ some nl) := by
  have hOne : pieces size piece = [piece] := by
    have hAll : pieces size (piece ++ []) = piece :: pieces size [] := pieces_full hFull hSize
    rwa [List.append_nil] at hAll
  rcases rest with - | ⟨c, t⟩
  · simp [textsFrom, hOne]
  · by_cases hNl : c = nl
    · subst hNl
      by_cases hLast : piece.getLast? = some cr
      · simp only [hLast, List.head?_cons, ne_eq, not_true_eq_false, imp_false, iff_false]
        intro hSame
        have hLen := congrArg (fun l : List (List α) => l.flatten.length) hSame
        simp [textsFrom, stripCr, hLast, flatten_pieces] at hLen
        omega
      · simp [textsFrom, stripCr, hLast, hOne]
    · have hMore : textsFrom nl cr size false (piece ++ [c]) t =
          piece :: textsFrom nl cr size false [c] t :=
        textsFrom_full hSize hFull (List.cons_ne_nil _ _)
      simp only [List.head?_cons, ne_eq, Option.some.injEq, hNl, not_false_iff, implies_true,
        iff_true]
      simp only [textsFrom, if_neg hNl, Bool.false_eq_true, and_false, if_false, List.nil_append]
      exact hMore

/-! ### A buffer for a line -/

/-- What a buffer of the size makes of a chunk: the texts that are passed on, and what is pending
then. A buffer without a line end is passed on when it is full. -/
def takeChunk (nl cr : α) (size : Nat) (pending chunk : List α) : List (List α) × List α :=
  if nl ∈ chunk then linesFrom nl cr false pending chunk
  else if (pending ++ chunk).length = size then ([pending ++ chunk], [])
  else ([], pending ++ chunk)

/-- A chunk is split where nothing depends on what follows it: no line end has its `cr` behind the
chunk, and no full buffer has the `nl` of its `cr` there. -/
structure SplitsWell (nl cr : α) (size : Nat) (pending chunk rest : List α) : Prop where
  behind : chunk.getLast? = some nl → ∀ t, rest = cr :: t → t.head? = some nl
  before : nl ∉ chunk → (pending ++ chunk).length = size → (pending ++ chunk).getLast? = some cr →
    rest.head? ≠ some nl

variable {pending : List α}

/-- A chunk leaves room in the buffer, and no line end. -/
theorem takeChunk_pending (hDiff : cr ≠ nl) (hSize : 0 < size) (hOpen : nl ∉ pending)
    (hFit : pending.length + chunk.length ≤ size) :
    nl ∉ (takeChunk nl cr size pending chunk).2 ∧
      (takeChunk nl cr size pending chunk).2.length < size := by
  unfold takeChunk
  split
  · next hMem =>
      exact ⟨not_mem_linesFrom hOpen, (length_linesFrom_lt hDiff hMem).trans_le hFit⟩
  · next hNone =>
      split
      · exact ⟨List.not_mem_nil, by simpa using hSize⟩
      · next hRoom =>
          rw [List.length_append] at hRoom ⊢
          refine ⟨fun hMem => ?_, by omega⟩
          exact (List.mem_append.mp hMem).elim hOpen hNone

/-- The texts of a stream come out of the buffer one chunk after another, just when the chunk is
split well. -/
theorem textsFrom_takeChunk_iff (hDiff : cr ≠ nl) (hSize : 0 < size)
    (hFit : pending.length + chunk.length ≤ size) :
    textsFrom nl cr size false pending (chunk ++ rest) =
      (takeChunk nl cr size pending chunk).1 ++
        textsFrom nl cr size false (takeChunk nl cr size pending chunk).2 rest ↔
      SplitsWell nl cr size pending chunk rest := by
  rw [textsFrom_append hSize hFit]
  unfold takeChunk
  by_cases hMem : nl ∈ chunk
  · rw [if_pos hMem, List.append_right_inj]
    by_cases hLast : chunk.getLast? = some nl
    · rw [endedAfter_eq_true.mpr hLast, linesFrom_of_getLast? hLast, textsFrom_ended_iff hDiff]
      exact ⟨fun h => ⟨fun _ => h, fun hNone => absurd hMem hNone⟩, fun h => h.behind hLast⟩
    · rw [(Bool.not_eq_true _).mp fun hEnded => hLast (endedAfter_eq_true.mp hEnded),
        eq_self_iff_true, true_iff]
      exact ⟨fun h => absurd h hLast, fun hNone => absurd hMem hNone⟩
  · have hEnded : endedAfter nl false chunk = false := by
      rw [← Bool.not_eq_true, endedAfter_eq_true]
      exact fun hLast => hMem (List.mem_of_getLast? hLast)
    rw [if_neg hMem, linesFrom_none hMem, hEnded, List.nil_append]
    have hBehind : chunk.getLast? ≠ some nl := fun hLast => hMem (List.mem_of_getLast? hLast)
    split
    · next hFull =>
        rw [List.singleton_append, textsFrom_full_iff hSize hFull hDiff]
        exact ⟨fun h => ⟨fun hLast => absurd hLast hBehind, fun _ _ => h⟩,
          fun h => h.before hMem hFull⟩
    · next hRoom =>
        rw [List.nil_append, eq_self_iff_true, true_iff]
        exact ⟨fun hLast => absurd hLast hBehind, fun _ hFull => absurd hFull hRoom⟩

end Lines
