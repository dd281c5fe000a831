import OncRpc.Base.Lines
import OncRpc.Service.Endpoint

/-! What the service pushes to its logger, for any cut of a stream into reads. -/
namespace OncRpc.Service

open Lines

/-! ### The loop over the lines -/

section Scan

variable {pre line todo junk : List UInt8}

theorem carriageReturn_ne_newline : carriageReturn ≠ newline := by decide

theorem strchrFrom_none (hOpen : newline ∉ todo) (hClean : 0 ∉ todo) (i : Nat) :
    strchrFrom newline i (todo ++ 0 :: junk) = some none := by
  induction todo generalizing i with
  | nil => rfl
  | cons c t ih =>
      rw [List.cons_append, strchrFrom, if_neg (Ne.symm (List.ne_of_not_mem_cons hOpen)),
        if_neg (Ne.symm (List.ne_of_not_mem_cons hClean))]
      exact ih (List.not_mem_of_not_mem_cons hOpen) (List.not_mem_of_not_mem_cons hClean) (i + 1)

theorem strchrFrom_some (hOpen : newline ∉ todo) (hClean : 0 ∉ todo) (i : Nat) :
    strchrFrom newline i (todo ++ newline :: junk) = some (some (i + todo.length)) := by
  induction todo generalizing i with
  | nil => rw [List.nil_append, strchrFrom, if_pos rfl, List.length_nil, Nat.add_zero]
  | cons c t ih =>
      rw [List.cons_append, strchrFrom, if_neg (Ne.symm (List.ne_of_not_mem_cons hOpen)),
        if_neg (Ne.symm (List.ne_of_not_mem_cons hClean)),
        ih (List.not_mem_of_not_mem_cons hOpen) (List.not_mem_of_not_mem_cons hClean),
        List.length_cons, Nat.add_assoc, Nat.add_comm 1]

/-- What is in the buffer behind some bytes. -/
theorem getElem?_behind (c : UInt8) (i : Nat) (hi : i = pre.length) :
    (pre ++ c :: junk)[i]? = some c := by
  rw [hi, List.getElem?_append_right (Nat.le_refl _), Nat.sub_self]
  rfl

theorem readAt_behind (line junk : List UInt8) {n : Nat} (hn : n ≤ line.length) :
    Buffer.readAt (pre ++ (line ++ junk)) pre.length n = line.take n := by
  rw [Buffer.readAt, List.drop_left', List.take_append_of_le_length hn]
  rfl

/-- A line is pushed without its carriage return, and not at all when it is empty. -/
theorem pushLine_eq (line junk : List UInt8) :
    pushLine (pre ++ (line ++ junk)) pre.length line.length =
      some (nonEmpty (stripCr carriageReturn line)) := by
  rcases List.eq_nil_or_concat line with rfl | ⟨init, c, rfl⟩
  · rfl
  · have hLen : (init.concat c).length = init.length + 1 := List.length_concat
    have hLast : (pre ++ (init.concat c ++ junk))[pre.length + init.length]? = some c := by
      rw [List.concat_eq_append, List.append_assoc, ← List.append_assoc]
      exact getElem?_behind c _ (by rw [List.length_append])
    rw [pushLine, hLen, if_neg (Nat.succ_ne_zero _), Nat.add_sub_cancel, hLast]
    simp only [Option.bind_eq_bind, Option.bind_some]
    rw [stripCr, List.concat_eq_append, List.getLast?_concat, List.dropLast_concat]
    by_cases hCr : c = carriageReturn
    · rw [if_pos hCr, if_pos (congrArg some hCr), readAt_behind _ _ (by simp)]
      simp [nonEmpty]
    · rw [if_neg hCr, if_neg (fun h => hCr (Option.some.inj h)), readAt_behind _ _ (by simp),
        List.take_of_length_le (by simp)]
      simp [nonEmpty]

/-- The byte behind a newline says whether a carriage return is consumed with it. -/
theorem next_eq (behind junk : List UInt8) : ∃ next crs,
    (behind ++ 0 :: junk)[0]? = some next ∧ behind = crs ++ dropCr carriageReturn behind ∧
      crs.length = if next = carriageReturn then 1 else 0 := by
  rcases behind with - | ⟨c, t⟩
  · exact ⟨0, [], rfl, rfl, rfl⟩
  · rw [dropCr]
    by_cases hCr : c = carriageReturn
    · exact ⟨c, [c], rfl, by rw [if_pos hCr]; rfl, by rw [if_pos hCr]; rfl⟩
    · exact ⟨c, [], rfl, by rw [if_neg hCr]; rfl, by rw [if_neg hCr]; rfl⟩

/-- The loop makes of a buffer what there is in its lines, and counts what it has consumed. -/
theorem scanLines_eq (n : Nat) : ∀ (pre line todo : List UInt8) (k : Nat), todo.length < n →
    0 ∉ todo →
    scanLines (pre ++ (line ++ (todo ++ 0 :: junk))) n (pre.length + line.length) pre.length k =
      some ((linesFrom newline carriageReturn false line todo).1,
        k + (line.length + todo.length -
          (linesFrom newline carriageReturn false line todo).2.length)) := by
  induction n with
  | zero => exact fun _ _ _ _ h => absurd h (Nat.not_lt_zero _)
  | succ n ih =>
      intro pre line todo k hFuel hClean
      have hDrop : (pre ++ (line ++ (todo ++ 0 :: junk))).drop (pre.length + line.length) =
          todo ++ 0 :: junk := by
        rw [← List.append_assoc]
        exact List.drop_left' (List.length_append)
      rw [scanLines, strchr, hDrop]
      by_cases hMem : newline ∈ todo
      · obtain ⟨body, behind, rfl, hFirst⟩ := List.eq_append_cons_of_mem hMem
        obtain ⟨next, crs, hNext, hBehind, hCrs⟩ := next_eq behind junk
        have hBody : 0 ∉ body := fun h => hClean (List.mem_append_left _ h)
        have hRest : 0 ∉ dropCr carriageReturn behind := by
          intro h
          apply hClean
          rw [hBehind]
          simp [h]
        rw [List.length_append, List.length_cons] at hFuel
        have hLen := congrArg List.length hBehind
        rw [List.length_append] at hLen
        -- The buffer, at the line and behind the newline.
        have hLine : pre ++ (line ++ (body ++ newline :: behind ++ 0 :: junk)) =
            pre ++ ((line ++ body) ++ newline :: (behind ++ 0 :: junk)) := by
          simp
        have hLater : pre ++ ((line ++ body) ++ newline :: (behind ++ 0 :: junk)) =
            (pre ++ (line ++ (body ++ newline :: crs))) ++
              ([] ++ (dropCr carriageReturn behind ++ 0 :: junk)) := by
          conv_lhs => rw [hBehind]
          simp
        have hAfter : (pre ++ ((line ++ body) ++ newline :: (behind ++ 0 :: junk)))[pre.length +
            line.length + body.length + 1]? = some next := by
          have hPast : pre.length + line.length + body.length + 1 =
              (pre ++ (line ++ body)).length + 1 := by
            simp only [List.length_append]
            omega
          rw [← hNext, ← List.append_assoc, hPast,
            List.getElem?_append_right (Nat.le_add_right _ 1), Nat.add_sub_cancel_left,
            List.getElem?_cons_succ]
        have hFound : strchrFrom newline (pre.length + line.length)
            (body ++ newline :: behind ++ 0 :: junk) =
              some (some (pre.length + line.length + body.length)) := by
          rw [List.append_assoc, List.cons_append]
          exact strchrFrom_some hFirst hBody _
        have hSize : pre.length + line.length + body.length - pre.length =
            (line ++ body).length := by
          rw [List.length_append]
          omega
        rw [hFound, hLine]
        simp only [Option.bind_eq_bind, Option.bind_some, hSize, pushLine_eq, hAfter]
        have hTail := ih (pre ++ (line ++ (body ++ newline :: crs))) []
          (dropCr carriageReturn behind)
          (k + ((line ++ body).length + 1 + crs.length)) (by omega) hRest
        have hIndex : (pre ++ (line ++ (body ++ newline :: crs))).length =
            pre.length + line.length + body.length + 1 + crs.length := by
          simp only [List.length_append, List.length_cons]
          omega
        rw [← hLater, hIndex, List.length_nil, Nat.add_zero] at hTail
        rw [← hCrs, hTail, linesFrom_line hFirst carriageReturn_ne_newline]
        have hLeft : (linesFrom newline carriageReturn false []
            (dropCr carriageReturn behind)).2.length ≤ ([] : List UInt8).length +
              (dropCr carriageReturn behind).length := length_linesFrom_le
        simp only [Option.bind_some, List.length_append, List.length_cons, List.length_nil]
          at hLeft ⊢
        congr 2
        omega
      · rw [strchrFrom_none hMem hClean, linesFrom_none hMem, List.length_append, Nat.sub_self]
        rfl

end Scan

/-! ### The endpoint -/

namespace PipeEndpoint

/-- The endpoint waits to be rearmed, with the bytes of an unfinished line in its buffer. -/
structure Holds (size : Nat) (pending : List UInt8) (ep : PipeEndpoint) : Prop where
  size_eq : ep.size = size
  state_eq : ep.state = .ready
  iopending_eq : ep.iopending = false
  result_eq : ep.result = 0
  avail_eq : ep.avail + pending.length = size
  cursor_eq : ep.cursor = pending.length
  buffer_eq : ∃ junk, ep.buffer = pending ++ junk
  length_eq : ep.buffer.length = 1 + size + 8
  room : pending.length < size
  clean : 0 ∉ pending
  isOpen : newline ∉ pending

variable {size : Nat} {pending bs : List UInt8} {ep : PipeEndpoint}

theorem holds_create (hSize : 0 < size) : Holds size [] (create size) where
  size_eq := rfl
  state_eq := rfl
  iopending_eq := rfl
  result_eq := rfl
  avail_eq := rfl
  cursor_eq := rfl
  buffer_eq := ⟨_, rfl⟩
  length_eq := List.length_replicate
  room := hSize
  clean := List.not_mem_nil
  isOpen := List.not_mem_nil

/-- An endpoint whose data has been passed on or thrown away. -/
theorem holds_reset (hSize : ep.size = size) (hPos : 0 < size) (hIopending : ep.iopending = false)
    (hResult : ep.result = 0) (hLength : ep.buffer.length = 1 + size + 8) :
    Holds size [] { ep.reset with state := .ready } where
  size_eq := hSize
  state_eq := rfl
  iopending_eq := hIopending
  result_eq := hResult
  avail_eq := hSize
  cursor_eq := rfl
  buffer_eq := ⟨_, rfl⟩
  length_eq := hLength
  room := hPos
  clean := List.not_mem_nil
  isOpen := List.not_mem_nil

/-- What a read has left, before it is looked at. -/
def readIn (bs : List UInt8) (ep : PipeEndpoint) : PipeEndpoint :=
  { ep.received bs with state := .reading, iopending := false }

/-- A read comes to the same, whether it completes at once or not. -/
theorem Holds.round_read (h : Holds size pending ep) (r : PipeRead) :
    ep.round r.calls.1 r.calls.2 =
      (ep.readIn r.bytes).consume.map fun s => (s.1, some s.2) := by
  rcases r with ⟨bs, - | -⟩
  · simp only [round, PipeRead.calls, completionSetup, h.state_eq, completionResults]
    rfl
  · simp only [round, PipeRead.calls, completionSetup, h.state_eq, completionResults, received,
      h.iopending_eq]
    simp [readIn, received, h.iopending_eq]

/-- The endpoint after `pushed`: the data, and a NUL behind it. -/
theorem Holds.pushed (h : Holds size pending ep) (hSome : bs ≠ [])
    (hFit : bs.length ≤ ep.avail) : ∃ ep₁ junk,
      (ep.readIn bs).pushed = some (some (pending.length, false), ep₁) ∧ ep₁.size = size ∧
      ep₁.iopending = false ∧ ep₁.result = 0 ∧ ep₁.avail + (pending ++ bs).length = size ∧
      ep₁.cursor = (pending ++ bs).length ∧ ep₁.buffer = pending ++ bs ++ 0 :: junk ∧
      ep₁.buffer.length = 1 + size + 8 := by
  obtain ⟨junk, hBuffer⟩ := h.buffer_eq
  have hLength := h.length_eq
  have hAvail := h.avail_eq
  rw [hBuffer, List.length_append] at hLength
  have hWritten : Buffer.writeAt ep.buffer ep.cursor bs = pending ++ bs ++ junk.drop bs.length := by
    rw [Buffer.writeAt, hBuffer, h.cursor_eq, List.take_left', List.drop_append,
      List.drop_of_length_le (by omega), Nat.add_sub_cancel_left, List.nil_append]
    rfl
  obtain ⟨c, behind, hJunk⟩ : ∃ c behind, junk.drop bs.length = c :: behind :=
    List.exists_cons_of_length_pos (by rw [List.length_drop]; omega)
  rw [hJunk] at hWritten
  have hBehind := congrArg List.length hJunk
  rw [List.length_drop, List.length_cons] at hBehind
  have hResult : (ep.readIn bs).result ≠ 0 :=
    fun hZero => hSome (List.eq_nil_of_length_eq_zero hZero)
  have hIn : pending.length + bs.length < (pending ++ bs ++ c :: behind).length := by
    simp only [List.length_append, List.length_cons]
    omega
  have hSet : (pending ++ bs ++ c :: behind).set (pending.length + bs.length) 0 =
      pending ++ bs ++ 0 :: behind := by
    rw [← List.length_append, List.set_append_right _ _ (Nat.le_refl _), Nat.sub_self,
      List.set_cons_zero]
  refine ⟨{ ep with
      avail := ep.avail - bs.length, cursor := pending.length + bs.length, result := 0
      state := .reading, iopending := false, buffer := pending ++ bs ++ 0 :: behind },
    behind, ?_, h.size_eq, rfl, rfl, ?_, ?_, rfl, ?_⟩
  · rw [h.cursor_eq] at hWritten
    rw [PipeEndpoint.pushed, if_pos hResult]
    simp only [readIn, received, store, h.cursor_eq, hWritten, if_pos hIn, hSet, Option.map_some]
  · rw [List.length_append]
    show ep.avail - bs.length + (pending.length + bs.length) = size
    omega
  · rw [List.length_append]
  · simp only [List.length_append, List.length_cons]
    omega

/-- A read is passed on as the buffer for a line has it, and what is left of it stays in the
buffer. -/
theorem Holds.consume (h : Holds size pending ep) (hSome : bs ≠ []) (hClean : 0 ∉ bs)
    (hFit : bs.length ≤ ep.avail) : ∃ ep',
      (ep.readIn bs).consume =
        some ((takeChunk newline carriageReturn size pending bs).1, ep') ∧
      Holds size (takeChunk newline carriageReturn size pending bs).2 ep' := by
  obtain ⟨ep₁, junk, hPushed, hSize, hIopending, hResult, hAvail, hCursor, hBuffer, hLength⟩ :=
    h.pushed hSome hFit
  have hPos : 0 < size := (Nat.zero_le _).trans_lt h.room
  have hAll : pending.length + bs.length ≤ size := by
    rw [List.length_append] at hAvail
    omega
  have hScan : scanLines ep₁.buffer (ep₁.buffer.length + 1) pending.length 0 0 =
      some ((linesFrom newline carriageReturn false pending bs).1,
        0 + (pending.length + bs.length -
          (linesFrom newline carriageReturn false pending bs).2.length)) := by
    have hRun := @scanLines_eq junk (ep₁.buffer.length + 1) [] pending bs 0 (by
      rw [hBuffer]
      simp only [List.length_append, List.length_cons]
      omega) hClean
    rw [List.nil_append, List.length_nil, Nat.zero_add, ← List.append_assoc, ← hBuffer] at hRun
    exact hRun
  have hLen : ep₁.length = pending.length + bs.length := by
    rw [length, hSize]
    rw [List.length_append] at hAvail
    omega
  have hLeft : (linesFrom newline carriageReturn false pending bs).2.length ≤
      pending.length + bs.length := length_linesFrom_le
  obtain ⟨hOpen', hRoom'⟩ := takeChunk_pending carriageReturn_ne_newline hPos h.isOpen hAll
  simp only [PipeEndpoint.consume, hPushed, Option.bind_eq_bind, Option.bind_some, hScan,
    Nat.zero_add]
  unfold takeChunk at hOpen' hRoom' ⊢
  by_cases hMem : newline ∈ bs
  · rw [if_pos hMem] at hOpen' hRoom' ⊢
    have hSuffix : (linesFrom newline carriageReturn false pending bs).2 <:+ pending ++ bs :=
      linesFrom_suffix nofun
    have hLess : (linesFrom newline carriageReturn false pending bs).2.length <
        pending.length + bs.length := length_linesFrom_lt carriageReturn_ne_newline hMem
    generalize linesFrom newline carriageReturn false pending bs = r at *
    have hDrop : r.2 = (pending ++ bs).drop (pending.length + bs.length - r.2.length) := by
      rw [← List.length_append]
      exact List.suffix_iff_eq_drop.mp hSuffix
    rw [if_pos (by omega), pop, hLen]
    by_cases hNil : r.2 = []
    · rw [hNil, List.length_nil, Nat.sub_zero, if_pos rfl]
      exact ⟨_, rfl, holds_reset hSize hPos hIopending hResult hLength⟩
    · have hSome' := List.length_pos_iff.mpr hNil
      rw [if_neg (by omega), if_pos (by omega)]
      refine ⟨_, rfl, hSize, rfl, hIopending, hResult, ?_, ?_, ?_, ?_, hRoom', ?_, hOpen'⟩
      · rw [List.length_append] at hAvail
        show ep₁.avail + (pending.length + bs.length - r.2.length) + r.2.length = size
        omega
      · rw [List.length_append] at hCursor
        show ep₁.cursor - (pending.length + bs.length - r.2.length) = r.2.length
        omega
      · -- The rest has been moved to the front.
        have hMoved : Buffer.readAt ep₁.buffer (pending.length + bs.length - r.2.length)
            (pending.length + bs.length - (pending.length + bs.length - r.2.length)) = r.2 := by
          rw [Buffer.readAt, hBuffer, List.drop_append_of_le_length (by simp), ← hDrop]
          exact List.take_left' (by omega)
        refine ⟨ep₁.buffer.drop r.2.length, ?_⟩
        show Buffer.writeAt ep₁.buffer 0 _ = _
        rw [hMoved, Buffer.writeAt, List.take_zero, List.nil_append, Nat.zero_add]
      · rw [← hLength]
        apply Buffer.length_writeAt
        rw [Buffer.length_readAt]
        omega
      · intro hIn
        exact (List.mem_append.mp (hSuffix.subset hIn)).elim h.clean hClean
  · have hData : 0 ∉ pending ++ bs := fun hIn => (List.mem_append.mp hIn).elim h.clean hClean
    rw [if_neg hMem, List.length_append] at hOpen' hRoom' ⊢
    rw [linesFrom_none hMem, List.length_append, Nat.sub_self, if_neg (not_not.mpr rfl), hLen]
    rw [List.length_append] at hAvail
    have hRead : Buffer.readAt ep₁.buffer 0 (pending.length + bs.length) = pending ++ bs := by
      rw [hBuffer, ← List.length_append]
      exact List.take_left' rfl
    by_cases hFull : pending.length + bs.length = size
    · have hZero : ep₁.avail = 0 := by omega
      rw [if_pos hFull, if_pos (Or.inl hZero), hRead]
      exact ⟨_, rfl, holds_reset hSize hPos hIopending hResult hLength⟩
    · have hSome' : ep₁.avail ≠ 0 := by omega
      rw [if_neg hFull] at hOpen' hRoom' ⊢
      rw [if_neg (by simp [hSome'])]
      rw [← List.length_append] at hAvail
      exact ⟨_, rfl, hSize, rfl, hIopending, hResult, hAvail, hCursor, ⟨_, hBuffer⟩, hLength,
        hRoom', hData, hOpen'⟩

/-- A read that has got nothing passes the pending bytes on. -/
theorem Holds.consume_empty (h : Holds size pending ep) :
    ∃ ep', (ep.readIn []).consume = some (nonEmpty pending, ep') ∧ Holds size [] ep' := by
  obtain ⟨junk, hBuffer⟩ := h.buffer_eq
  have hLength := h.length_eq
  have hPos : 0 < size := (Nat.zero_le _).trans_lt h.room
  have hRead : ep.readIn [] = { ep with state := .reading } := by
    simp only [readIn, received, Buffer.writeAt_nil, List.length_nil]
    rw [← h.result_eq, ← h.iopending_eq]
  rw [hRead]
  rcases pending with - | ⟨c, t⟩
  · have hCursor : ep.cursor = 0 := h.cursor_eq
    refine ⟨{ ep with state := .ready }, ?_, { h with state_eq := rfl }⟩
    have hPushed : PipeEndpoint.pushed { ep with state := .reading } =
        some (none, { ep with state := .reading }) := by
      rw [PipeEndpoint.pushed, if_neg (not_not.mpr h.result_eq), if_neg (not_not.mpr hCursor)]
    rw [PipeEndpoint.consume, hPushed]
    rfl
  · generalize hPending : c :: t = pending at *
    have hSome : pending ≠ [] := by
      rw [← hPending]
      exact List.cons_ne_nil c t
    have hLong := List.length_pos_iff.mpr hSome
    rw [hBuffer, List.length_append] at hLength
    have hRoom := h.room
    obtain ⟨d, behind, rfl⟩ : ∃ d behind, junk = d :: behind :=
      List.exists_cons_of_length_pos (by omega)
    have hSet : ep.buffer.set pending.length 0 = pending ++ 0 :: behind := by
      rw [hBuffer, List.set_append_right _ _ (Nat.le_refl _), Nat.sub_self, List.set_cons_zero]
    have hIn : ep.cursor < ep.buffer.length := by
      rw [h.cursor_eq, h.length_eq]
      omega
    have hScan : scanLines (pending ++ 0 :: behind) ((pending ++ 0 :: behind).length + 1)
        pending.length 0 0 = some ([], 0) := by
      have hRun := @scanLines_eq behind ((pending ++ 0 :: behind).length + 1) [] pending [] 0
        (Nat.succ_pos _) List.not_mem_nil
      rw [List.nil_append, List.nil_append, List.length_nil, Nat.zero_add] at hRun
      rw [hRun, linesFrom, Nat.add_zero, Nat.sub_self]
    have hAvail := h.avail_eq
    have hLen : ep.size - ep.avail = pending.length := by
      rw [h.size_eq]
      omega
    have hTaken : Buffer.readAt (pending ++ 0 :: behind) 0 pending.length = pending :=
      List.take_left' rfl
    refine ⟨{ ep with
      state := .ready, cursor := 0, avail := ep.size, buffer := pending ++ 0 :: behind }, ?_, ?_⟩
    · have hPushed : PipeEndpoint.pushed { ep with state := .reading } =
          some (some (pending.length, true),
            { ep with state := .reading, buffer := pending ++ 0 :: behind }) := by
        rw [PipeEndpoint.pushed, if_neg (not_not.mpr h.result_eq),
          if_pos (by rw [h.cursor_eq]; exact Nat.ne_of_gt hLong), store, if_pos hIn,
          Option.map_some, h.cursor_eq, hSet]
      simp only [PipeEndpoint.consume, hPushed, Option.bind_eq_bind, Option.bind_some, hScan,
        length, hLen]
      rw [if_neg (not_not.mpr rfl), if_pos (Or.inr ⟨trivial, Nat.ne_of_gt hLong⟩), hTaken, nonEmpty,
        if_neg hSome]
      rfl
    · refine @holds_reset size { ep with buffer := pending ++ 0 :: behind } h.size_eq hPos
        h.iopending_eq h.result_eq ?_
      rw [← hSet, List.length_set, h.length_eq]

/-- The bytes of an unfinished line that the buffer holds. -/
def held (ep : PipeEndpoint) : List UInt8 := ep.buffer.take ep.cursor

theorem Holds.held_eq (h : Holds size pending ep) : ep.held = pending := by
  obtain ⟨junk, hBuffer⟩ := h.buffer_eq
  rw [held, hBuffer, h.cursor_eq]
  exact List.take_left' rfl

end PipeEndpoint

/-! ### A connection -/

open PipeEndpoint

/-- Each read gets a byte at least, and not more than there is room for. -/
def Fits : List PipeRead → PipeEndpoint → Prop
  | [], _ => True
  | r :: rest, ep => r.bytes ≠ [] ∧ r.bytes.length ≤ ep.avail ∧
      ∀ texts ep', ep.round r.calls.1 r.calls.2 = some (texts, some ep') → Fits rest ep'

/-- The bytes of some reads. -/
def bytesOf (reads : List PipeRead) : List UInt8 := reads.flatMap PipeRead.bytes

/-- After each read, what has been pushed and the texts of what is still to be pushed are the texts
of the stream: no byte is lost or pushed twice. -/
def KeepsTexts (size : Nat) (stream : List UInt8) (closing : Closing) :
    List (List UInt8) → List PipeRead → PipeEndpoint → Prop
  | pushed, [], ep => ∃ last, loggerBody closing.calls ep = some last ∧
      pushed ++ last = texts newline carriageReturn size stream
  | pushed, r :: rest, ep => ∃ new ep', ep.round r.calls.1 r.calls.2 = some (new, some ep') ∧
      pushed ++ new ++ textsFrom newline carriageReturn size false ep'.held (bytesOf rest) =
        texts newline carriageReturn size stream ∧
      KeepsTexts size stream closing (pushed ++ new) rest ep'

/-- Whether the end of the data is noticed where pending bytes are pushed. -/
def Closing.flushes : Closing → Bool
  | .emptyRead _ => true
  | .setup | .results => false

/-- Every read splits the stream well, and no text is pending at the end, unless the end is noticed
where it is pushed. -/
def SplitWell (size : Nat) (closing : Closing) : List UInt8 → List PipeRead → Prop
  | pending, [] => closing.flushes = false → pending = []
  | pending, r :: rest =>
      SplitsWell newline carriageReturn size pending r.bytes (bytesOf rest) ∧
      SplitWell size closing (takeChunk newline carriageReturn size pending r.bytes).2 rest

section Connection

variable {size : Nat} {pending : List UInt8} {ep : PipeEndpoint} {closing : Closing}

theorem loggerBody_cons {r : ReadFile × OverlappedResult}
    {rest : List (ReadFile × OverlappedResult)} {new : List (List UInt8)} {ep' : PipeEndpoint}
    (h : ep.round r.1 r.2 = some (new, some ep')) :
    loggerBody (r :: rest) ep = (loggerBody rest ep').map fun later => new ++ later := by
  obtain ⟨read, completion⟩ := r
  simp only [loggerBody, h, Option.bind_eq_bind, Option.bind_some]
  cases loggerBody rest ep' with
  | none => rfl
  | some later => rfl

/-- A broken pipe has nothing pushed. -/
theorem loggerBody_broken (h : ep.state = .ready ∨ ep.state = .eof) :
    loggerBody [(.brokenPipe, .brokenPipe)] ep = some [] := by
  have hSetup : (ep.completionSetup .brokenPipe).1 = false := by
    rcases h with h | h
    · rw [completionSetup, h]
    · rw [completionSetup, h]
  rcases hRun : ep.completionSetup .brokenPipe with ⟨rearmed, ep'⟩
  rw [hRun] at hSetup
  cases hSetup
  simp only [loggerBody, PipeEndpoint.round, hRun, Option.bind_eq_bind, Option.bind_some]

/-- The end of the data: the pending bytes are pushed where a read has got nothing, and are thrown
away elsewhere. -/
theorem loggerBody_closing (h : Holds size pending ep) (closing : Closing) :
    loggerBody closing.calls ep = some (if closing.flushes then nonEmpty pending else []) := by
  rcases closing with - | - | atOnce
  · exact loggerBody_broken (Or.inl h.state_eq)
  · have hRound : ep.round .pending .brokenPipe =
        some ([], some { ep with state := .eof, iopending := false }) := by
      simp only [PipeEndpoint.round, completionSetup, h.state_eq, completionResults, if_true]
    rw [Closing.calls, loggerBody_cons hRound, loggerBody_broken (Or.inr rfl)]
    rfl
  · obtain ⟨ep', hConsume, hHolds⟩ := h.consume_empty
    have hRound := h.round_read ⟨[], atOnce⟩
    rw [hConsume, Option.map_some] at hRound
    rw [Closing.calls, loggerBody_cons hRound, loggerBody_broken (Or.inl hHolds.state_eq),
      Option.map_some, List.append_nil]
    rfl

/-- The round of a read. -/
theorem PipeEndpoint.Holds.round {r : PipeRead} {rest : List PipeRead} (h : Holds size pending ep)
    (hClean : 0 ∉ bytesOf (r :: rest)) (hFits : Fits (r :: rest) ep) : ∃ ep',
      ep.round r.calls.1 r.calls.2 =
        some ((takeChunk newline carriageReturn size pending r.bytes).1, some ep') ∧
      Holds size (takeChunk newline carriageReturn size pending r.bytes).2 ep' ∧
      0 ∉ bytesOf rest ∧ Fits rest ep' := by
  obtain ⟨hSome, hRoom, hLater⟩ := hFits
  have hHere : 0 ∉ r.bytes := fun hMem => hClean (List.mem_append_left _ hMem)
  obtain ⟨ep', hConsume, hHolds⟩ := h.consume hSome hHere hRoom
  have hRound := h.round_read r
  rw [hConsume, Option.map_some] at hRound
  exact ⟨ep', hRound, hHolds, fun hMem => hClean (List.mem_append_right _ hMem),
    hLater _ ep' hRound⟩

/-- A connection is served to its end, and no access leaves the buffer. -/
theorem loggerBody_returns (closing : Closing) (reads : List PipeRead) :
    ∀ {pending : List UInt8} {ep : PipeEndpoint}, Holds size pending ep → 0 ∉ bytesOf reads →
      Fits reads ep →
      ∃ pushed, loggerBody (reads.map PipeRead.calls ++ closing.calls) ep = some pushed := by
  induction reads with
  | nil => exact fun hHolds _ _ => ⟨_, loggerBody_closing hHolds closing⟩
  | cons r rest ih =>
      intro pending ep hHolds hClean hFits
      obtain ⟨ep', hRound, hHolds', hClean', hFits'⟩ := hHolds.round hClean hFits
      obtain ⟨later, hLater⟩ := ih hHolds' hClean' hFits'
      rw [List.map_cons, List.cons_append, loggerBody_cons hRound, hLater]
      exact ⟨_, rfl⟩

/-- What keeps the texts ends with them. -/
theorem KeepsTexts.loggerBody {stream : List UInt8} (reads : List PipeRead) :
    ∀ {ep : PipeEndpoint} {pushed : List (List UInt8)},
      KeepsTexts size stream closing pushed reads ep →
      ∃ later, loggerBody (reads.map PipeRead.calls ++ closing.calls) ep = some later ∧
        pushed ++ later = texts newline carriageReturn size stream := by
  induction reads with
  | nil => exact id
  | cons r rest ih =>
      rintro ep pushed ⟨new, ep', hRound, -, hRest⟩
      obtain ⟨later, hLater, hTexts⟩ := ih hRest
      refine ⟨new ++ later, ?_, ?_⟩
      · rw [List.map_cons, List.cons_append, loggerBody_cons hRound, hLater, Option.map_some]
      · rw [← List.append_assoc, hTexts]

/-- The texts are kept just when the stream is split well. -/
theorem keepsTexts_iff (stream : List UInt8) (closing : Closing) (reads : List PipeRead) :
    ∀ {pending : List UInt8} {ep : PipeEndpoint} {pushed : List (List UInt8)},
      Holds size pending ep → 0 ∉ bytesOf reads → Fits reads ep →
      pushed ++ textsFrom newline carriageReturn size false pending (bytesOf reads) =
        texts newline carriageReturn size stream →
      (KeepsTexts size stream closing pushed reads ep ↔ SplitWell size closing pending reads) := by
  induction reads with
  | nil =>
      intro pending ep pushed hHolds _ _ hTexts
      have hLast : textsFrom newline carriageReturn size false pending (bytesOf []) =
          nonEmpty pending := pieces_short hHolds.room
      rw [KeepsTexts, SplitWell, ← hTexts, hLast, loggerBody_closing hHolds closing]
      simp only [Option.some.injEq, exists_eq_left', List.append_right_inj]
      cases closing.flushes with
      | true => simp
      | false =>
          simp only [Bool.false_eq_true, if_false, forall_true_left, nonEmpty]
          split <;> simp_all
  | cons r rest ih =>
      intro pending ep pushed hHolds hClean hFits hTexts
      have hPos : 0 < size := (Nat.zero_le _).trans_lt hHolds.room
      have hAll : pending.length + r.bytes.length ≤ size := by
        have hRoom := hFits.2.1
        have hAvail := hHolds.avail_eq
        omega
      obtain ⟨ep', hRound, hHolds', hClean', hFits'⟩ := hHolds.round hClean hFits
      have hSplit : _ ↔ SplitsWell newline carriageReturn size pending r.bytes (bytesOf rest) :=
        textsFrom_takeChunk_iff carriageReturn_ne_newline hPos hAll
      rw [KeepsTexts, SplitWell]
      generalize takeChunk newline carriageReturn size pending r.bytes = taken at *
      rw [show bytesOf (r :: rest) = r.bytes ++ bytesOf rest from rfl] at hTexts
      -- The texts are kept by the read just when it splits the stream well.
      have hStep : pushed ++ taken.1 ++ textsFrom newline carriageReturn size false ep'.held
          (bytesOf rest) = texts newline carriageReturn size stream ↔
          SplitsWell newline carriageReturn size pending r.bytes (bytesOf rest) := by
        rw [← hSplit, ← hTexts, hHolds'.held_eq, List.append_assoc, List.append_right_inj, eq_comm]
      have hRest : SplitsWell newline carriageReturn size pending r.bytes (bytesOf rest) →
          (KeepsTexts size stream closing (pushed ++ taken.1) rest ep' ↔
            SplitWell size closing taken.2 rest) := by
        intro hWell
        have hKept := hStep.mpr hWell
        rw [hHolds'.held_eq] at hKept
        exact ih hHolds' hClean' hFits' hKept
      constructor
      · rintro ⟨new, ep'', hRun, hKept, hKeeps⟩
        rw [hRound] at hRun
        cases hRun
        have hWell := hStep.mp hKept
        exact ⟨hWell, (hRest hWell).mp hKeeps⟩
      · rintro ⟨hWell, hLater⟩
        exact ⟨taken.1, ep', hRound, hStep.mpr hWell, (hRest hWell).mpr hLater⟩

end Connection

/-- A connection is served to its end, and no access leaves the buffer. All that is pushed are the
texts of the stream where each read splits it well: no read begins with the carriage return of a
newline before it, none leaves the newline of a carriage return that fills the buffer to the next,
and nothing is pending when the end is noticed, unless it is noticed by a read that gets nothing.
After any other read, or end, a byte is lost or pushed with the wrong line. -/
theorem loggerBody_splitWell (c : Connection) (hClean : 0 ∉ c.stream)
    (hFits : Fits c.reads (create pipesize)) :
    (∃ pushed, loggerBody c.calls (create pipesize) = some pushed) ∧
      (KeepsTexts pipesize c.stream c.closing [] c.reads (create pipesize) ↔
        SplitWell pipesize c.closing [] c.reads) ∧
      (SplitWell pipesize c.closing [] c.reads → loggerBody c.calls (create pipesize) =
        some (texts newline carriageReturn pipesize c.stream)) := by
  have hHolds : Holds pipesize [] (create pipesize) := holds_create (by decide)
  have hIff := keepsTexts_iff c.stream c.closing c.reads hHolds hClean hFits (List.nil_append _)
  refine ⟨loggerBody_returns c.closing c.reads hHolds hClean hFits, hIff, fun hWell => ?_⟩
  obtain ⟨later, hLater, hTexts⟩ := (hIff.mpr hWell).loggerBody c.reads
  rw [List.nil_append] at hTexts
  rw [Connection.calls, hLater, hTexts]

/-- A client that writes a line and closes the pipe. -/
def politeClient : Connection where
  reads := [⟨[104, 105, 10], false⟩]
  closing := .setup

theorem loggerBody_politeClient :
    loggerBody politeClient.calls (create pipesize) = some [[104, 105]] := by
  have hFits : Fits politeClient.reads (create pipesize) := ⟨nofun, by decide, fun _ _ _ => trivial⟩
  have hWell : SplitWell pipesize politeClient.closing [] politeClient.reads := by
    refine ⟨⟨fun _ => nofun, fun _ _ => nofun⟩, fun _ => ?_⟩
    decide
  exact (loggerBody_splitWell politeClient (by decide) hFits).2.2 hWell

/-- A client that does not end its last line. -/
def abruptClient : Connection where
  reads := [⟨[104, 105], false⟩]
  closing := .results

/-- The last line of a client is thrown away when it has no line end. -/
theorem not_loggerBody_texts : ¬ ∀ c : Connection, 0 ∉ c.stream →
    Fits c.reads (create pipesize) → loggerBody c.calls (create pipesize) =
      some (texts newline carriageReturn pipesize c.stream) := by
  intro h
  have hHolds : Holds pipesize [] (create pipesize) := holds_create (by decide)
  have hClean : 0 ∉ abruptClient.stream := by decide
  have hFits : Fits abruptClient.reads (create pipesize) :=
    ⟨nofun, by decide, fun _ _ _ => trivial⟩
  have hTexts := h abruptClient hClean hFits
  obtain ⟨ep', hRound, hHolds', -⟩ := hHolds.round hClean hFits
  have hNothing : takeChunk newline carriageReturn pipesize [] [104, 105] = ([], [104, 105]) := by
    decide
  rw [Connection.calls, show abruptClient.reads.map PipeRead.calls ++ abruptClient.closing.calls =
    (⟨[104, 105], false⟩ : PipeRead).calls :: Closing.results.calls from rfl,
    loggerBody_cons hRound, loggerBody_closing hHolds' .results] at hTexts
  rw [show (takeChunk newline carriageReturn pipesize []
    (⟨[104, 105], false⟩ : PipeRead).bytes).1 = [] from congrArg Prod.fst hNothing] at hTexts
  exact absurd (Option.some.inj hTexts) (by decide)

end OncRpc.Service
