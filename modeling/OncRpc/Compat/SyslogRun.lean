import Mathlib.Data.List.DropRight
import Mathlib.Data.List.Forall2
import OncRpc.Compat.SyslogFormat

/-! What the proxy is handed, and for which calls that is what was asked for. -/
namespace OncRpc.Compat.Syslog

open CString Format

variable (lib : Printf) (sys : Syslog)

/-! ### What is asked for -/

/-- The message without the two characters for a line end and the NUL. -/
def room : Nat := messageLen - nlcr

/-- The message for an error without what is behind it. Its first character stays. -/
def trimmed : CString → CString
  | [] => []
  | c :: cs => c :: cs.rdropWhile isTrailing

/-- The message that is found for the last error. -/
def Entry.found : Entry → CString
  | .syslog => []
  | .socket message _ => (formatMessageA message (256 - 3)).getD []

/-- What is behind the text. -/
def Entry.suffix (entry : Entry) : CString :=
  match entry with
  | .syslog => []
  | .socket _ _ => ascii ": " ++
      if entry.found = [] then ascii "Unknown error" else trimmed entry.found

/-- A message that is asked for: the pieces of its format, and what they print when the error texts
are in them. -/
structure Asked where
  pri : BitVec 32
  pieces : List (List Cell)
  text : CString
  entry : Entry

def complaintPieces : List (List Cell) :=
  ((own complaint).take 35).map (fun ch => [ch]) ++ [(own complaint).drop 35]

/-- A priority that is not known is said first. -/
def complaintFor (pri : BitVec 32) : Asked :=
  ⟨logErr, complaintPieces, complaint.take 35 ++ hex pri.toNat, .syslog⟩

/-- The messages that the mask lets through. -/
def asked (entry : Entry) (pri : BitVec 32) (ps : List (List Cell)) (text : CString) :
    List Asked :=
  if pri &&& ~~~(logPrimask ||| logFacmask) ≠ 0 then
    [complaintFor pri, ⟨pri &&& (logPrimask ||| logFacmask), ps, text, entry⟩].filter
      (sys.enabled ·.pri)
  else [(⟨pri, ps, text, entry⟩ : Asked)].filter (sys.enabled ·.pri)

/-- The proxy is handed the header, the text and the suffix, as far as there is room, and the length
of that. The format was read as its pieces, with the error texts in it. -/
structure IsRight (a : Asked) (handed : Handed) : Prop where
  pri : handed.pri = sys.withFacility a.pri
  format : pieces Cell.c handed.format = some (expandPieces sys a.pieces)
  message : handed.message = (sys.header a.pri ++ a.text ++ a.entry.suffix).take room
  msglen : handed.msglen = min a.text.length (room - (sys.header a.pri).length)
  len : handed.len = handed.message.length

/-- All that is asked for is right, and nothing else is done. -/
def Answers (as : List Asked) (r : Except Fault (List Handed)) : Prop :=
  ∃ handed, r = .ok handed ∧ List.Forall₂ (IsRight sys) as handed

/-- A string that is printed for `%s` is cut, unless its length is not an `int`. Any other text is
to fit, with a NUL. -/
def HasRoom (fmt : List Cell) (text : CString) (space : Nat) : Prop :=
  if fmt.map Cell.c = ascii "%s" then
    text.length ≤ space ∨ (space : Int) ≤ Int.bmod text.length (2 ^ 32)
  else text.length < space

/-- The header fits, the error texts are put in as they are, and the text fits. -/
structure Asked.Fits (a : Asked) : Prop where
  header : (sys.header a.pri).length < room
  literal : Literal sys a.pieces
  text : HasRoom (expandPieces sys a.pieces).flatten a.text (room - (sys.header a.pri).length)

/-- `WSASyslogx` has found a message for the error. -/
def Entry.Found : Entry → Prop
  | .syslog => True
  | .socket message hNul => (Entry.socket message hNul).found ≠ []

/-- The calls that do what they are to do. -/
structure Fine (a : Asked) : Prop where
  fits : a.Fits sys
  found : a.entry.Found

/-! ### The suffix of `WSASyslogx` -/

section Suffix

theorem trimmed_concat {text : CString} (hSome : text ≠ []) (ch : UInt8) :
    trimmed (text ++ [ch]) = if isTrailing ch then trimmed text else text ++ [ch] := by
  obtain ⟨c, cs, rfl⟩ := List.exists_cons_of_ne_nil hSome
  rw [List.cons_append, trimmed, List.rdropWhile_concat]
  split
  · rfl
  · rfl

/-- The loop ends at the last character that stays. -/
theorem take_trimLoop {text : CString} {len : Nat} (h : len < text.length) :
    text.take (trimLoop text (len + 1) + 1) = trimmed (text.take (len + 1)) := by
  induction len with
  | zero =>
      obtain ⟨c, cs, rfl⟩ := List.exists_cons_of_ne_nil (List.ne_nil_of_length_pos h)
      rw [trimLoop, if_pos rfl]
      rfl
  | succ len ih =>
      have hLast : text.getD (len + 1) 0 = text[len + 1] := by
        rw [List.getD_eq_getElem?_getD, List.getElem?_eq_getElem h]
        rfl
      have hSome : text.take (len + 1) ≠ [] := by
        rw [Ne, List.take_eq_nil_iff]
        rintro (hZero | rfl)
        · exact Nat.succ_ne_zero len hZero
        · exact Nat.not_lt_zero _ h
      rw [trimLoop, if_neg (Nat.succ_ne_zero len), hLast, ← List.take_append_getElem h,
        trimmed_concat hSome]
      by_cases hTrailing : isTrailing text[len + 1] = true
      · rw [if_pos hTrailing, if_pos hTrailing]
        exact ih (Nat.lt_of_succ_lt h)
      · rw [if_neg hTrailing, if_neg hTrailing]
        exact (List.take_append_getElem h).symm

theorem trimLoop_lt (text : CString) {len : Nat} (h : 0 < len) : trimLoop text len < len := by
  induction len with
  | zero => exact absurd h (Nat.lt_irrefl 0)
  | succ len ih =>
      rw [trimLoop]
      split
      · exact Nat.succ_pos len
      · next hLen =>
          split
          · exact Nat.lt_succ_of_lt (ih (Nat.pos_of_ne_zero hLen))
          · exact Nat.lt_succ_self len

theorem trimmed_subset (text : CString) : trimmed text ⊆ text := by
  cases text with
  | nil => exact List.Subset.refl _
  | cons c cs => exact List.cons_subset_cons c (List.rdropWhile_prefix isTrailing cs).subset

/-- A string that is in memory, with a NUL behind it. It is shorter than any `int`. -/
def Terminated (suffix : Option (List UInt8)) (s : CString) : Prop :=
  match suffix with
  | none => s = []
  | some mem => 0 ∉ s ∧ s.length < 2 ^ 31 ∧ ∃ tail, mem = s ++ 0 :: tail

theorem store_mid {α : Type} {old bs : List α} (front back : List α) (h : old.length = bs.length) :
    store (front ++ old ++ back) front.length bs = .ok (front ++ bs ++ back) := by
  have hRoom : front.length + bs.length ≤ (front ++ old ++ back).length := by
    rw [List.length_append, List.length_append, h]
    exact Nat.le_add_right _ _
  have hBoth : (front ++ old).length = front.length + bs.length := by
    rw [List.length_append, h]
  rw [store, if_pos hRoom, Buffer.writeAt, ← hBoth, List.drop_left, List.append_assoc front,
    List.take_left]

/-- A message that is found is trimmed within the buffer. -/
theorem errorSuffix_terminated {message : Option CString} (hNul : ∀ text ∈ message, 0 ∉ text)
    (hFound : (Entry.socket message hNul).Found) {buf : List UInt8} (hBuf : buf.length = 256) :
    ∃ mem, errorSuffix message buf = .ok mem ∧
      Terminated (some mem) (Entry.socket message hNul).suffix := by
  cases hText : formatMessageA message (256 - 3) with
  | none => exact absurd (congrArg (Option.getD · []) hText) hFound
  | some text =>
      have hIs : (Entry.socket message hNul).found = text := congrArg (Option.getD · []) hText
      obtain ⟨hMessage, hFits⟩ := formatMessageA_eq_some_iff.mp hText
      have hSome : text ≠ [] := hIs ▸ hFound
      have hClean : 0 ∉ text := hNul text hMessage
      obtain ⟨len, hLen⟩ := Nat.exists_eq_add_one.mpr (List.length_pos_of_ne_nil hSome)
      have hKeep := trimLoop_lt text (List.length_pos_of_ne_nil hSome)
      have hTrimmed : text.take (trimLoop text text.length + 1) = trimmed text := by
        rw [hLen, take_trimLoop (hLen ▸ Nat.lt_succ_self len), ← hLen, List.take_length]
      have hSuffix : (Entry.socket message hNul).suffix = ascii ": " ++ trimmed text := by
        rw [Entry.suffix, hIs, if_neg hSome]
      have hColon : (ascii ": ").length = 2 := rfl
      -- the buffer as what is written over and what stays
      have hBack : (buf.drop 2).take (text.length + 1) ++ buf.drop (2 + (text.length + 1)) =
          buf.drop 2 := by
        rw [← List.drop_drop, List.take_append_drop]
      have hSplit : buf = buf.take 2 ++ (buf.drop 2).take (text.length + 1) ++
          buf.drop (2 + (text.length + 1)) := by
        rw [List.append_assoc, hBack, List.take_append_drop]
      generalize buf.drop (2 + (text.length + 1)) = back at hSplit
      have hTwo : (buf.take 2).length = 2 := List.length_take_of_le (by omega)
      have hOld : ((buf.drop 2).take (text.length + 1)).length = (text ++ [0]).length := by
        rw [List.length_take, List.length_drop, List.length_append, List.length_singleton]
        omega
      have hBehind : (text ++ [(0 : UInt8)]).drop (trimLoop text text.length + 1) ≠ [] := by
        rw [Ne, List.drop_eq_nil_iff, List.length_append, List.length_singleton]
        omega
      obtain ⟨x, rest, hRest⟩ := List.exists_cons_of_ne_nil hBehind
      have hWhole : text ++ [(0 : UInt8)] = trimmed text ++ x :: rest := by
        rw [← hTrimmed, ← hRest, ← List.take_append_of_le_length (by omega : _ ≤ text.length),
          List.take_append_drop]
      have hFirst : store buf 2 (text ++ [0]) = .ok (buf.take 2 ++ (text ++ [0]) ++ back) := by
        have hStore := store_mid (buf.take 2) back hOld
        rwa [← hSplit, hTwo] at hStore
      have hSecond : store (buf.take 2 ++ (text ++ [0]) ++ back) 0 (ascii ": ") =
          .ok (ascii ": " ++ trimmed text ++ [x] ++ (rest ++ back)) := by
        have hStore := store_mid [] (text ++ [0] ++ back) (hTwo.trans hColon.symm)
        rw [List.nil_append, List.nil_append, List.length_nil, hWhole] at hStore
        rw [hWhole]
        simpa only [List.append_assoc, List.cons_append, List.nil_append] using hStore
      have hThird : store (ascii ": " ++ trimmed text ++ [x] ++ (rest ++ back))
          (2 + (trimLoop text text.length + 1)) [0] =
          .ok (ascii ": " ++ trimmed text ++ [0] ++ (rest ++ back)) := by
        have hFront : (ascii ": " ++ trimmed text).length =
            2 + (trimLoop text text.length + 1) := by
          rw [List.length_append, hColon, ← hTrimmed, List.length_take_of_le hKeep]
        rw [← hFront]
        exact store_mid _ _ rfl
      refine ⟨ascii ": " ++ trimmed text ++ [0] ++ (rest ++ back), ?_, ?_⟩
      · unfold errorSuffix
        simp only [hText, Option.getD_some, if_neg hSome, bind, Except.bind, hFirst, hSecond,
          hThird]
      · rw [hSuffix]
        refine ⟨fun hIn => ?_, ?_, rest ++ back, ?_⟩
        · rcases List.mem_append.mp hIn with hIn | hIn
          · exact absurd hIn (by decide)
          · exact hClean (trimmed_subset text hIn)
        · rw [List.length_append, hColon, ← hTrimmed, List.length_take_of_le hKeep]
          omega
        · rw [List.append_assoc _ [0], List.singleton_append]

/-- Without a message the buffer keeps what is on the stack, and the copy is without its NUL. -/
theorem errorSuffix_unterminated {message : Option CString} {hNul : ∀ text ∈ message, 0 ∉ text}
    (hNone : ¬ (Entry.socket message hNul).Found) {buf : List UInt8} (hBuf : buf.length = 256) :
    ∃ mem, errorSuffix message buf = .ok mem ∧ (0 ∉ buf → 0 ∉ mem) := by
  have hEmpty : (formatMessageA message (256 - 3)).getD [] = [] := not_ne_iff.mp hNone
  have hRoom : 0 + ((ascii ": Unknown error").take ((ascii "Unknown error").length + 1)).length ≤
      buf.length := by
    rw [hBuf]
    decide
  have hRun : errorSuffix message buf = .ok (Buffer.writeAt buf 0
      ((ascii ": Unknown error").take ((ascii "Unknown error").length + 1))) := by
    unfold errorSuffix
    simp only [hEmpty, if_true]
    exact if_pos hRoom
  refine ⟨_, hRun, fun hStale hIn => ?_⟩
  rw [Buffer.writeAt, List.take_zero, List.nil_append] at hIn
  rcases List.mem_append.mp hIn with hCopied | hKept
  · exact absurd hCopied (by decide)
  · exact hStale (List.mem_of_mem_drop hKept)

theorem untilNul_of_terminated {s tail : CString} (hNul : 0 ∉ s) :
    untilNul id (s ++ 0 :: tail) = .ok s := by
  have hAny : (s ++ 0 :: tail).any (id · == 0) = true :=
    List.any_eq_true.mpr ⟨0, List.mem_append_right _ List.mem_cons_self, rfl⟩
  have hClean : ∀ c ∈ s, (id c != 0) = true := fun c hc =>
    bne_iff_ne.mpr fun hZero => hNul (hZero ▸ hc)
  rw [untilNul, if_pos hAny, List.takeWhile_append_of_pos hClean]
  simp

theorem untilNul_of_unterminated {mem : List UInt8} (h : 0 ∉ mem) :
    untilNul id mem = .error .outside := by
  refine if_neg fun hAny => ?_
  obtain ⟨c, hc, hZero⟩ := List.any_eq_true.mp hAny
  exact h (eq_of_beq hZero ▸ hc)

end Suffix

/-! ### One message -/

/-- The format and the arguments of a message that is asked for. -/
structure Formats (fmt : CString) (ap : List lib.Arg) (a : Asked) : Prop where
  nul : 0 ∉ fmt
  pieces : pieces Cell.c (own fmt) = some a.pieces
  text : print Cell.c lib.convert (expandPieces sys a.pieces) ap = some a.text

section Message

variable {lib sys}

/-- The bytes are written behind the front of the message. -/
def Puts (message : List UInt8) (off : Nat) (bs message' : List UInt8) : Prop :=
  message'.length = message.length ∧ message'.take (off + bs.length) = message.take off ++ bs

theorem bind_eq_ok_iff {α β : Type} {x : Except Fault α} {f : α → Except Fault β} {b : β} :
    (x >>= f) = .ok b ↔ ∃ a, x = .ok a ∧ f a = .ok b := by
  cases x with
  | error e => exact iff_of_false (fun h => nomatch h) fun ⟨_, h, _⟩ => nomatch h
  | ok a => exact ⟨fun h => ⟨a, rfl, h⟩, fun ⟨_, hIs, h⟩ => Except.ok.inj hIs ▸ h⟩

theorem clip_eq_min_iff {n space : Nat} (hSpace : space < 2 ^ 31) :
    clip n space = (min n space : Nat) ↔ n ≤ space ∨ (space : Int) ≤ Int.bmod n (2 ^ 32) := by
  have hLe : Int.bmod n (2 ^ 32) ≤ n := by
    rw [Int.bmod_def]
    omega
  have hSmall : n < 2 ^ 31 → Int.bmod n (2 ^ 32) = n := by
    intro h
    rw [Int.bmod_def]
    omega
  unfold clip
  simp only
  split <;> omega

theorem clip_eq_min_of_lt {n space : Nat} (hSpace : space < 2 ^ 31) (h : n < 2 ^ 31) :
    clip n space = (min n space : Nat) := by
  refine (clip_eq_min_iff hSpace).mpr ?_
  rw [Int.bmod_eq_of_le (by omega) (by omega)]
  omega

theorem printS_of_lt {message : List UInt8} {off size : Nat} {text : CString}
    (hRoom : off + size ≤ message.length) (h : text.length < size) :
    ∃ message', printS message off size (some text) = .ok (message', text.length) ∧
      Puts message off text message' := by
  obtain ⟨message', hStore, hLength, hTake, -⟩ :=
    store_nul (0 : UInt8) (by omega : off + text.length < message.length)
  refine ⟨message', ?_, hLength, hTake⟩
  simp only [printS, if_pos h, hStore, bind, Except.bind]

theorem lt_of_printS {message message' : List UInt8} {off size n : Nat} {text : CString}
    (h : printS message off size (some text) = .ok (message', n)) : text.length < size := by
  by_contra hNot
  simp only [printS, if_neg hNot] at h
  cases h

theorem putHeader_of_lt {pri : BitVec 32} {message : List UInt8}
    (hMessage : message.length = messageLen) (h : (sys.header pri).length < room) :
    ∃ message', putHeader sys pri message = .ok (message', (sys.header pri).length) ∧
      Puts message 0 (sys.header pri) message' := by
  unfold putHeader
  by_cases hNone : sys.has logNoheader = true
  · have hEmpty : sys.header pri = [] := if_pos hNone
    rw [if_pos hNone, hEmpty]
    exact ⟨message, rfl, rfl, rfl⟩
  · rw [if_neg hNone]
    exact printS_of_lt (by rw [hMessage]; decide) h

theorem lt_of_putHeader {pri : BitVec 32} {message message' : List UInt8} {n : Nat}
    (h : putHeader sys pri message = .ok (message', n)) : (sys.header pri).length < room := by
  unfold putHeader at h
  by_cases hNone : sys.has logNoheader = true
  · have hEmpty : sys.header pri = [] := if_pos hNone
    rw [hEmpty]
    decide
  · rw [if_neg hNone] at h
    exact lt_of_printS h

theorem putClipped_of_clip {message : List UInt8} {off space : Nat} {s : CString}
    (hRoom : off + space ≤ message.length) (h : clip s.length space = (min s.length space : Nat)) :
    ∃ message', putClipped message off space s = .ok (message', min s.length space) ∧
      Puts message off (s.take space) message' := by
  have hTake : s.take (min s.length space) = s.take space := by
    rw [Nat.min_comm, ← List.take_take, List.take_length]
  have hLe : off + (s.take space).length ≤ message.length := by
    rw [List.length_take]
    omega
  obtain ⟨message', hStore, hLength, hFront⟩ := store_eq hLe
  refine ⟨message', ?_, hLength, hFront⟩
  unfold putClipped
  rw [h, if_neg (Int.not_lt.mpr (Int.natCast_nonneg _)), Int.toNat_natCast, hTake, hStore]
  rfl

theorem clip_of_putClipped {message message' : List UInt8} {off space n : Nat} {s : CString}
    (h : putClipped message off space s = .ok (message', n)) : clip s.length space = n := by
  unfold putClipped at h
  simp only at h
  split at h
  · cases h
  · next hNot =>
      obtain ⟨mem, -, hIs⟩ := bind_eq_ok_iff.mp h
      rw [← (Prod.mk.inj (Except.ok.inj hIs)).2, Int.toNat_of_nonneg (Int.not_lt.mp hNot)]

/-- What is printed for `%s` is the string itself. -/
theorem pointee_of_sprintf {fmt : List Cell} {ap : List lib.Arg} {text : CString}
    (hString : fmt.map Cell.c = ascii "%s")
    (hText : sprintf Cell.c lib.convert fmt ap = some text) :
    ap.head?.bind lib.pointee = some text := by
  have hBytes : ascii "%s" = percent :: ascii "s" := rfl
  obtain ⟨ch, spec, rfl, hPercent, hSpec⟩ := List.map_eq_cons_iff.mp (hString.trans hBytes)
  have hOther : ascii "s" ≠ [percent] := by decide
  obtain ⟨d, rfl⟩ := List.length_eq_one_iff.mp ((List.length_map Cell.c).symm.trans
    (congrArg List.length hSpec))
  have hConversion : isModifier d.c = false := by
    rw [(List.cons.inj hSpec).1]
    rfl
  have hPiece : IsPiece Cell.c (ch :: ([] ++ [d])) :=
    .directive hPercent (fun _ h => nomatch h) hConversion
  have hPieces : pieces Cell.c [ch, d] = some [[ch, d]] :=
    pieces_eq_some_iff.mpr ⟨rfl, fun q hq => List.mem_singleton.mp hq ▸ hPiece⟩
  rw [sprintf, hPieces] at hText
  simp only [Option.bind_eq_bind, Option.bind_some, print, printPiece, hSpec, if_neg hOther,
    lib.convert_s, Option.bind_eq_some_iff, Option.map_eq_some_iff, List.append_nil] at hText
  obtain ⟨-, ⟨arg, hArg, s, hs, rfl⟩, hIs⟩ := hText
  rw [hArg, Option.bind_some, hs]
  exact hIs

theorem putText_of_hasRoom {fmt : List Cell} {ap : List lib.Arg} {text : CString}
    {message : List UInt8} {off space : Nat} (hText : sprintf Cell.c lib.convert fmt ap = some text)
    (hRoom : off + space ≤ message.length) (hSpace : space < 2 ^ 31)
    (h : HasRoom fmt text space) :
    ∃ message', putText lib fmt ap message off space = .ok (message', min text.length space) ∧
      Puts message off (text.take space) message' := by
  unfold HasRoom at h
  unfold putText
  split at h
  · next hString =>
      rw [if_pos hString, pointee_of_sprintf hString hText]
      show ∃ message', (if text = [] then _ else _) = _ ∧ _
      by_cases hEmpty : text = []
      · subst hEmpty
        refine ⟨message, ?_, rfl, ?_⟩
        · rw [if_pos rfl, List.length_nil, Nat.zero_min]
        · rw [List.take_nil, List.append_nil, List.length_nil, Nat.add_zero]
      · rw [if_neg hEmpty]
        exact putClipped_of_clip hRoom ((clip_eq_min_iff hSpace).mpr h)
  · next hOther =>
      rw [if_neg hOther, hText, List.take_of_length_le (Nat.le_of_lt h),
        Nat.min_eq_left (Nat.le_of_lt h)]
      exact printS_of_lt hRoom h

theorem hasRoom_of_putText {fmt : List Cell} {ap : List lib.Arg} {text : CString}
    {message message' : List UInt8} {off space : Nat}
    (hText : sprintf Cell.c lib.convert fmt ap = some text) (hSpace : space < 2 ^ 31)
    (h : putText lib fmt ap message off space = .ok (message', min text.length space)) :
    HasRoom fmt text space := by
  unfold HasRoom
  unfold putText at h
  split
  · next hString =>
      rw [if_pos hString, pointee_of_sprintf hString hText] at h
      replace h : (if text = [] then _ else _) = _ := h
      by_cases hEmpty : text = []
      · exact Or.inl (hEmpty ▸ Nat.zero_le space)
      · rw [if_neg hEmpty] at h
        exact (clip_eq_min_iff hSpace).mp (clip_of_putClipped h)
  · next hOther =>
      rw [if_neg hOther, hText] at h
      exact lt_of_printS h

theorem putSuffix_of_terminated {suffix : Option (List UInt8)} {s : CString}
    {message : List UInt8} {len : Nat} (hSuffix : Terminated suffix s)
    (hMessage : message.length = messageLen) (hLen : len ≤ room) :
    ∃ message', putSuffix suffix message len = .ok (message', len + min s.length (room - len)) ∧
      Puts message len (s.take (room - len)) message' := by
  have hNothing : s = [] → ∃ message', .ok (message, len) =
      (.ok (message', len + min s.length (room - len)) : Except Fault _) ∧
      Puts message len (s.take (room - len)) message' := by
    rintro rfl
    refine ⟨message, ?_, rfl, ?_⟩
    · rw [List.length_nil, Nat.zero_min, Nat.add_zero]
    · rw [List.take_nil, List.append_nil, List.length_nil, Nat.add_zero]
  cases suffix with
  | none => exact hNothing hSuffix
  | some mem =>
      obtain ⟨hNul, hInt, tail, rfl⟩ := hSuffix
      have hSize : messageLen = 2048 := rfl
      have hIs : room = 2045 := rfl
      have hClip : clip s.length (room - len) = (min s.length (room - len) : Nat) :=
        clip_eq_min_of_lt (by omega) hInt
      have hRoom : len + (room - len) ≤ message.length := by omega
      obtain ⟨message', hPut, hPuts⟩ := putClipped_of_clip hRoom hClip
      rw [putSuffix, untilNul_of_terminated hNul]
      by_cases hEmpty : s = []
      · show ∃ message', (if s = [] then _ else _) = _ ∧ _
        rw [if_pos hEmpty]
        exact hNothing hEmpty
      · refine ⟨message', ?_, hPuts⟩
        show (if s = [] then _ else _) = _
        rw [if_neg hEmpty]
        show (putClipped message len (room - len) s >>= fun r => .ok (r.1, len + r.2)) = _
        rw [hPut]
        rfl

/-- What is stored behind a message leaves it alone. -/
theorem store_behind {message bs : List UInt8} {len : Nat} (h : len + bs.length ≤ message.length) :
    ∃ message', store message len bs = .ok message' ∧ message'.length = message.length ∧
      message'.take len = message.take len :=
  ⟨_, if_pos h, Buffer.length_writeAt h,
    Buffer.take_writeAt_before (by omega : len ≤ message.length) (Nat.le_refl len)⟩

/-- The steps of a message that is not masked. Its line ends fit behind it. -/
theorem logMessage_eq {pri : BitVec 32} {fmt : CString} {ap : List lib.Arg}
    {suffix : Option (List UInt8)} {frame : Frame} {format : List Cell} {m₁ m₂ m₃ : List UInt8}
    {hdrlen msglen len : Nat} (hEnabled : sys.enabled pri = true)
    (hExpand : expandFormat sys (own fmt) frame.fmtCopy = .ok format)
    (hHeader : putHeader sys pri frame.message = .ok (m₁, hdrlen))
    (hText : putText lib format ap m₁ hdrlen (room - hdrlen) = .ok (m₂, msglen))
    (hSuffix : putSuffix suffix m₂ (hdrlen + msglen) = .ok (m₃, len))
    (hRoom : len + 2 ≤ m₃.length) :
    logMessage lib sys pri fmt ap suffix frame =
      .ok [⟨sys.withFacility pri, m₃.take len, len, format, msglen⟩] := by
  have hNot : ¬ (! sys.enabled pri) = true := by rw [hEnabled]; decide
  rw [logMessage, if_neg hNot, hExpand]
  show (putHeader sys pri frame.message >>= _) = _
  rw [hHeader]
  show (putText lib format ap m₁ hdrlen (room - hdrlen) >>= _) = _
  rw [hText]
  show (putSuffix suffix m₂ (hdrlen + msglen) >>= _) = _
  rw [hSuffix]
  -- `stdout` may get the line, behind which nothing is used
  have hOut : ∀ message : List UInt8, message.length = m₃.length → message.take len = m₃.take len →
      (if ! sys.proxy ∧ sys.option &&& (logCons ||| logPerror) = logCons then do
          let _ ← store message len ['\n'.toUInt8, 0]
          .ok [(⟨sys.withFacility pri, message.take len, len, format, msglen⟩ : Handed)]
        else .ok [(⟨sys.withFacility pri, message.take len, len, format, msglen⟩ : Handed)]) =
      .ok [⟨sys.withFacility pri, m₃.take len, len, format, msglen⟩] := by
    intro message hLength hTake
    have hLine : len + ['\n'.toUInt8, 0].length ≤ message.length := hLength ▸ hRoom
    obtain ⟨m₄, hStore, -, -⟩ := store_behind hLine
    rw [hTake, hStore]
    split <;> rfl
  dsimp only [bind, Except.bind] at hOut ⊢
  by_cases hPerror : sys.has logPerror = true
  · -- as `stderr` does, before the line end is taken back
    have hLine : len + ['\n'.toUInt8, 0].length ≤ m₃.length := hRoom
    obtain ⟨m₄, hStore, hLength₄, hTake₄⟩ := store_behind hLine
    have hNul : len + [(0 : UInt8)].length ≤ m₄.length := by
      rw [hLength₄]
      exact Nat.le_of_succ_le hRoom
    obtain ⟨m₅, hBack, hLength₅, hTake₅⟩ := store_behind hNul
    rw [if_pos hPerror, hStore]
    dsimp only
    rw [hBack]
    exact hOut m₅ (hLength₅.trans hLength₄) (hTake₅.trans hTake₄)
  · rw [if_neg hPerror]
    exact hOut m₃ rfl rfl

variable {fmt : CString} {ap : List lib.Arg} {a : Asked} {suffix : Option (List UInt8)}

theorem Formats.own_ne_nul (h : Formats lib sys fmt ap a) : ∀ ch ∈ own fmt, ch.c ≠ 0 := by
  intro ch hch hZero
  apply h.nul
  rw [← hZero, ← map_own fmt]
  exact List.mem_map_of_mem hch

/-- A message that fits is right. -/
theorem logMessage_of_fits (hEnabled : sys.enabled a.pri = true)
    (hFormats : Formats lib sys fmt ap a) (hSuffix : Terminated suffix a.entry.suffix)
    (h : a.Fits sys) (frame : Frame) :
    ∃ handed, logMessage lib sys a.pri fmt ap suffix frame = .ok [handed] ∧
      IsRight sys a handed := by
  have hIs : room = 2045 := rfl
  have hSize : messageLen = 2048 := rfl
  have hRead : pieces Cell.c (used sys (own fmt)) = some (expandPieces sys a.pieces) :=
    (pieces_used_iff sys hFormats.pieces).mpr h.literal
  have hFlat := (pieces_eq_some_iff.mp hRead).1
  have hSprintf : sprintf Cell.c lib.convert (used sys (own fmt)) ap = some a.text := by
    rw [sprintf, hRead]
    exact hFormats.text
  have hExpand := expandFormat_eq sys frame.length_fmtCopy hFormats.own_ne_nul
  -- the header, the text in the room that is left, and the suffix in what that leaves
  generalize hSpace : room - (sys.header a.pri).length = space
  have hLeft := h.header
  obtain ⟨m₁, hHeader, hLength₁, hTake₁⟩ := putHeader_of_lt frame.length_message h.header
  rw [frame.length_message] at hLength₁
  have hFits : HasRoom (used sys (own fmt)) a.text space := by
    rw [← hFlat, ← hSpace]
    exact h.text
  obtain ⟨m₂, hText, hLength₂, hTake₂⟩ := putText_of_hasRoom hSprintf
    (by omega : (sys.header a.pri).length + space ≤ m₁.length) (by omega) hFits
  obtain ⟨m₃, hEnd, hLength₃, hTake₃⟩ := putSuffix_of_terminated hSuffix
    (hLength₂.trans hLength₁)
    (by omega : (sys.header a.pri).length + min a.text.length space ≤ room)
  rw [hLength₂, hLength₁] at hLength₃
  rw [List.length_take, Nat.min_comm space] at hTake₂
  rw [List.length_take, Nat.min_comm (room - _)] at hTake₃
  rw [Nat.zero_add, List.take_zero, List.nil_append] at hTake₁
  have hSpaced : putText lib (used sys (own fmt)) ap m₁ (sys.header a.pri).length
      (room - (sys.header a.pri).length) = .ok (m₂, min a.text.length space) := by
    rw [hSpace]
    exact hText
  have hBehind : (sys.header a.pri).length + min a.text.length space + min a.entry.suffix.length
      (room - ((sys.header a.pri).length + min a.text.length space)) + 2 ≤ m₃.length := by omega
  refine ⟨_, logMessage_eq hEnabled hExpand hHeader hSpaced hEnd hBehind, rfl, hRead, ?_, ?_, ?_⟩
  · have hSame : room - ((sys.header a.pri).length + min a.text.length space) =
        room - ((sys.header a.pri).length + a.text.length) := by omega
    rw [hTake₃, hTake₂, hTake₁, hSame, List.take_append, List.take_append,
      List.take_of_length_le (Nat.le_of_lt hLeft), hSpace, List.length_append]
  · exact congrArg (min a.text.length) hSpace.symm
  · exact (List.length_take_of_le (Nat.le_of_add_right_le hBehind)).symm

/-- A call that returns has taken every step, for one call of the proxy. -/
theorem logMessage_ok {pri : BitVec 32} {frame : Frame} {handed : List Handed}
    (hEnabled : sys.enabled pri = true) (hNul : ∀ ch ∈ own fmt, ch.c ≠ 0)
    (h : logMessage lib sys pri fmt ap suffix frame = .ok handed) :
    ∃ m₁ hdrlen m₂ msglen m₃ len, putHeader sys pri frame.message = .ok (m₁, hdrlen) ∧
      putText lib (used sys (own fmt)) ap m₁ hdrlen (room - hdrlen) = .ok (m₂, msglen) ∧
      putSuffix suffix m₂ (hdrlen + msglen) = .ok (m₃, len) ∧
      ∃ out, handed = [out] ∧ out.format = used sys (own fmt) ∧ out.msglen = msglen := by
  have hNot : ¬ (! sys.enabled pri) = true := by rw [hEnabled]; decide
  rw [logMessage, if_neg hNot, expandFormat_eq sys frame.length_fmtCopy hNul] at h
  obtain ⟨format, hFormat, h⟩ := bind_eq_ok_iff.mp h
  obtain ⟨⟨m₁, hdrlen⟩, hHeader, h⟩ := bind_eq_ok_iff.mp h
  obtain ⟨⟨m₂, msglen⟩, hText, h⟩ := bind_eq_ok_iff.mp h
  obtain ⟨⟨m₃, len⟩, hSuffix, h⟩ := bind_eq_ok_iff.mp h
  obtain rfl := Except.ok.inj hFormat
  -- what is handed over is known before the line ends
  have hOut : ∀ message : List UInt8,
      (if ! sys.proxy ∧ sys.option &&& (logCons ||| logPerror) = logCons then do
          let _ ← store message len ['\n'.toUInt8, 0]
          .ok [(⟨sys.withFacility pri, message.take len, len, used sys (own fmt), msglen⟩ : Handed)]
        else .ok [⟨sys.withFacility pri, message.take len, len, used sys (own fmt), msglen⟩]) =
        .ok handed →
      ∃ out, handed = [out] ∧ out.format = used sys (own fmt) ∧ out.msglen = msglen := by
    intro message hRun
    split at hRun
    · obtain ⟨m₄, -, hRun⟩ := bind_eq_ok_iff.mp hRun
      exact ⟨_, (Except.ok.inj hRun).symm, rfl, rfl⟩
    · exact ⟨_, (Except.ok.inj hRun).symm, rfl, rfl⟩
  refine ⟨m₁, hdrlen, m₂, msglen, m₃, len, hHeader, hText, hSuffix, ?_⟩
  dsimp only at h
  split at h
  · obtain ⟨m₄, -, h⟩ := bind_eq_ok_iff.mp h
    obtain ⟨m₅, -, h⟩ := bind_eq_ok_iff.mp h
    exact hOut m₅ h
  · exact hOut m₃ h

/-- A message that is right fits. -/
theorem fits_of_answers (hEnabled : sys.enabled a.pri = true) (hFormats : Formats lib sys fmt ap a)
    {frame : Frame} (h : Answers sys [a] (logMessage lib sys a.pri fmt ap suffix frame)) :
    a.Fits sys := by
  obtain ⟨handed, hRun, hAll⟩ := h
  obtain ⟨m₁, hdrlen, m₂, msglen, m₃, len, hHeader, hText, -, out, rfl, hFormat, hMsglen⟩ :=
    logMessage_ok hEnabled hFormats.own_ne_nul hRun
  obtain ⟨hRight, -⟩ := List.forall₂_cons.mp hAll
  have hLt := lt_of_putHeader hHeader
  obtain ⟨m', hPut, -⟩ := putHeader_of_lt frame.length_message hLt
  obtain rfl : (sys.header a.pri).length = hdrlen :=
    (Prod.mk.inj (Except.ok.inj (hPut.symm.trans hHeader))).2
  have hRead : pieces Cell.c (used sys (own fmt)) = some (expandPieces sys a.pieces) :=
    hFormat ▸ hRight.format
  have hSprintf : sprintf Cell.c lib.convert (used sys (own fmt)) ap = some a.text := by
    rw [sprintf, hRead]
    exact hFormats.text
  have hSpace : room - (sys.header a.pri).length < 2 ^ 31 := by
    have hIs : room = 2045 := rfl
    omega
  rw [← hMsglen, hRight.msglen] at hText
  refine ⟨hLt, (pieces_used_iff sys hFormats.pieces).mp hRead, ?_⟩
  rw [(pieces_eq_some_iff.mp hRead).1]
  exact hasRoom_of_putText hSprintf hSpace hText

/-- One message, which may be masked. -/
theorem logMessage_answers_iff (hFormats : Formats lib sys fmt ap a)
    (hSuffix : sys.enabled a.pri = true → Terminated suffix a.entry.suffix) (frame : Frame) :
    Answers sys ([a].filter (sys.enabled ·.pri)) (logMessage lib sys a.pri fmt ap suffix frame) ↔
      ∀ b ∈ [a].filter (sys.enabled ·.pri), b.Fits sys := by
  by_cases hEnabled : sys.enabled a.pri = true
  · rw [List.filter_cons, List.filter_nil, if_pos hEnabled, List.forall_mem_singleton]
    constructor
    · exact fits_of_answers hEnabled hFormats
    · intro h
      obtain ⟨out, hRun, hRight⟩ := logMessage_of_fits hEnabled hFormats (hSuffix hEnabled) h frame
      exact ⟨[out], hRun, .cons hRight .nil⟩
  · rw [List.filter_cons, List.filter_nil, if_neg hEnabled, logMessage, if_pos (by simp [hEnabled])]
    exact iff_of_true ⟨[], rfl, .nil⟩ fun b hb => nomatch hb

theorem length_logMessage {frame : Frame} {handed : List Handed} (hNul : ∀ ch ∈ own fmt, ch.c ≠ 0)
    (h : logMessage lib sys a.pri fmt ap suffix frame = .ok handed) :
    handed.length = ([a].filter (sys.enabled ·.pri)).length := by
  rw [List.filter_cons, List.filter_nil]
  by_cases hEnabled : sys.enabled a.pri = true
  · obtain ⟨_, _, _, _, _, _, -, -, -, out, rfl, -⟩ := logMessage_ok hEnabled hNul h
    rw [if_pos hEnabled]
    rfl
  · rw [logMessage, if_pos (by simp [hEnabled])] at h
    rw [if_neg hEnabled, ← Except.ok.inj h]
    rfl

end Message

/-! ### A call -/

section Call

variable {lib sys} {fmt : CString} {ap : List lib.Arg} {ps : List (List Cell)} {text : CString}
  {entry : Entry} {pri : BitVec 32} {suffix : Option (List UInt8)} {within frame : Frame}

/-- A priority that is not known is printed as `%x`. -/
theorem formats_complaint (pri : BitVec 32) :
    Formats lib sys complaint [lib.ofInt pri] (complaintFor pri) := by
  have hFlat : complaintPieces.flatten = own complaint := by
    rw [complaintPieces, List.flatten_append, List.flatten_singleton, ← List.flatMap_def,
      List.flatMap_singleton', List.take_append_drop]
  have hDirective : (own complaint).drop 35 = [⟨percent, false, 1⟩, ⟨120, false, 0⟩] := rfl
  have hChars : ∀ ch ∈ (own complaint).take 35, ch.c ≠ percent := by decide
  have hPieces : ∀ p ∈ complaintPieces, IsPiece Cell.c p := by
    intro p hp
    rcases List.mem_append.mp hp with hChar | hLast
    · obtain ⟨ch, hch, rfl⟩ := List.mem_map.mp hChar
      exact .char (hChars ch hch)
    · rw [List.mem_singleton.mp hLast, hDirective]
      have hPiece : IsPiece Cell.c ((⟨percent, false, 1⟩ : Cell) :: ([] ++ [⟨120, false, 0⟩])) :=
        .directive rfl (fun _ h => nomatch h) rfl
      exact hPiece
  refine ⟨by decide, pieces_eq_some_iff.mpr ⟨hFlat, hPieces⟩, ?_⟩
  have hNone : hasError complaintPieces.flatten = false := by
    rw [hFlat]
    decide
  have hSpec : [(⟨120, false, 0⟩ : Cell)].map Cell.c = ascii "x" := rfl
  have hOther : ascii "x" ≠ [percent] := by decide
  have hNumber : print Cell.c lib.convert [[(⟨percent, false, 1⟩ : Cell), ⟨120, false, 0⟩]]
      [lib.ofInt pri] = some (hex pri.toNat) := by
    simp only [print, printPiece, hSpec, if_neg hOther, lib.convert_x, Option.bind_eq_bind,
      Option.bind_some, List.append_nil]
  show print Cell.c lib.convert (expandPieces sys complaintPieces) [lib.ofInt pri] = _
  rw [expandPieces_of_not_hasError hPieces hNone, complaintPieces, hDirective, print_chars, hNumber,
    List.map_take, map_own]
  rfl

theorem Answers.append {as bs : List Asked} {r r' : Except Fault (List Handed)}
    (h : Answers sys as r) (h' : Answers sys bs r') :
    Answers sys (as ++ bs) (do
      let first ← r
      let rest ← r'
      .ok (first ++ rest)) := by
  obtain ⟨first, rfl, hFirst⟩ := h
  obtain ⟨rest, rfl, hRest⟩ := h'
  exact ⟨first ++ rest, rfl, List.rel_append hFirst hRest⟩

theorem answers_of_append {as bs : List Asked} {r r' : Except Fault (List Handed)}
    (hLength : ∀ first, r = .ok first → first.length = as.length)
    (h : Answers sys (as ++ bs) (do
      let first ← r
      let rest ← r'
      .ok (first ++ rest))) : Answers sys as r ∧ Answers sys bs r' := by
  obtain ⟨handed, hRun, hAll⟩ := h
  obtain ⟨first, hFirst, hRun⟩ := bind_eq_ok_iff.mp hRun
  obtain ⟨rest, hRest, hRun⟩ := bind_eq_ok_iff.mp hRun
  obtain rfl := Except.ok.inj hRun
  have hSame : first.length = as.length := hLength first hFirst
  have hFront := List.forall₂_take_append _ first rest hAll
  have hBack := List.forall₂_drop_append _ first rest hAll
  rw [hSame, List.take_left] at hFront
  rw [hSame, List.drop_left] at hBack
  exact ⟨⟨first, hFirst, hFront⟩, rest, hRest, hBack⟩

theorem enabled_known (pri : BitVec 32) :
    sys.enabled (pri &&& (logPrimask ||| logFacmask)) = sys.enabled pri := by
  have hMask : (logPrimask ||| logFacmask) &&& logPrimask = logPrimask := by decide
  rw [enabled, BitVec.and_assoc, hMask]
  rfl

theorem vxsyslog_answers_iff (hNul : 0 ∉ fmt) (hFormat : pieces Cell.c (own fmt) = some ps)
    (hText : print Cell.c lib.convert (expandPieces sys ps) ap = some text)
    (hSuffix : sys.enabled pri = true → Terminated suffix entry.suffix) (within frame : Frame) :
    Answers sys (asked sys entry pri ps text)
        (vxsyslog lib sys pri fmt ap suffix within frame) ↔
      ∀ a ∈ asked sys entry pri ps text, a.Fits sys := by
  have hFormats : ∀ pri, Formats lib sys fmt ap ⟨pri, ps, text, entry⟩ := fun _ =>
    ⟨hNul, hFormat, hText⟩
  unfold asked vxsyslog
  split
  · -- the call for `LOG_ERR`, and then the rest
    have hComplaint : Formats lib sys complaint [lib.ofInt pri] (complaintFor pri) :=
      formats_complaint pri
    have hNothing : Terminated none (complaintFor pri).entry.suffix := rfl
    have hFirst : Answers sys ([complaintFor pri].filter (sys.enabled ·.pri))
          (logMessage lib sys logErr complaint [lib.ofInt pri] none within) ↔
        ∀ a ∈ [complaintFor pri].filter (sys.enabled ·.pri), a.Fits sys :=
      logMessage_answers_iff hComplaint (fun _ => hNothing) within
    have hRest := logMessage_answers_iff (hFormats (pri &&& (logPrimask ||| logFacmask)))
      (enabled_known pri ▸ hSuffix) frame
    have hLength : ∀ first, logMessage lib sys logErr complaint [lib.ofInt pri] none within =
        .ok first → first.length = ([complaintFor pri].filter (sys.enabled ·.pri)).length :=
      fun first hRun => length_logMessage hComplaint.own_ne_nul hRun
    rw [← List.singleton_append, List.filter_append, List.forall_mem_append, ← hFirst, ← hRest]
    exact ⟨answers_of_append hLength, fun h => h.1.append h.2⟩
  · exact logMessage_answers_iff (hFormats pri) hSuffix frame

/-- The suffix is read for a message that is not masked. -/
theorem not_enabled_of_vxsyslog {mem : List UInt8} (hNul : 0 ∉ fmt) (hMem : 0 ∉ mem)
    {handed : List Handed}
    (h : vxsyslog lib sys pri fmt ap (some mem) within frame = .ok handed) :
    ¬ sys.enabled pri = true := by
  intro hEnabled
  have hOwn : ∀ ch ∈ own fmt, ch.c ≠ 0 := by
    intro ch hch hZero
    apply hNul
    rw [← hZero, ← map_own fmt]
    exact List.mem_map_of_mem hch
  have hMain : ∃ pri' handed', sys.enabled pri' = true ∧
      logMessage lib sys pri' fmt ap (some mem) frame = .ok handed' := by
    unfold vxsyslog at h
    split at h
    · obtain ⟨first, -, h⟩ := bind_eq_ok_iff.mp h
      obtain ⟨rest, hRest, -⟩ := bind_eq_ok_iff.mp h
      exact ⟨_, rest, (enabled_known pri).trans hEnabled, hRest⟩
    · exact ⟨pri, handed, hEnabled, h⟩
  obtain ⟨pri', handed', hEnabled', hRun⟩ := hMain
  obtain ⟨_, _, _, _, _, _, -, -, hSuffix, -⟩ := logMessage_ok hEnabled' hOwn hRun
  rw [putSuffix, untilNul_of_unterminated hMem] at hSuffix
  cases hSuffix

/-- Of the messages that are asked for, the mask lets the one with the suffix through. -/
theorem found_of_mem_asked {a : Asked} (hMem : a ∈ asked sys entry pri ps text)
    (h : sys.enabled pri = true → entry.Found) : a.entry.Found := by
  unfold asked at hMem
  split at hMem
  · obtain ⟨hIn, hEnabled⟩ := List.mem_filter.mp hMem
    rcases List.mem_cons.mp hIn with rfl | hIn
    · trivial
    · obtain rfl := List.mem_singleton.mp hIn
      exact h ((enabled_known pri).symm.trans hEnabled)
  · obtain ⟨hIn, hEnabled⟩ := List.mem_filter.mp hMem
    obtain rfl := List.mem_singleton.mp hIn
    exact h hEnabled

theorem exists_mem_asked (hEnabled : sys.enabled pri = true) :
    ∃ a ∈ asked sys entry pri ps text, a.entry = entry := by
  unfold asked
  split
  · refine ⟨⟨pri &&& (logPrimask ||| logFacmask), ps, text, entry⟩,
      List.mem_filter.mpr ⟨?_, ?_⟩, rfl⟩
    · exact List.mem_cons_of_mem _ List.mem_cons_self
    · exact (enabled_known pri).trans hEnabled
  · exact ⟨_, List.mem_filter.mpr ⟨List.mem_cons_self, hEnabled⟩, rfl⟩

/-- Memory in which there is no NUL. -/
def staleFrame : Frame where
  message := List.replicate messageLen 1
  fmtCopy := List.replicate fmtLen ⟨1, false, 0⟩
  length_message := List.length_replicate
  length_fmtCopy := List.length_replicate

def stale : Stack where
  within := staleFrame
  frame := staleFrame
  buf := List.replicate 256 1
  length_buf := List.length_replicate

theorem nul_notMem_stale : 0 ∉ stale.buf := by
  intro hIn
  exact absurd (List.eq_of_mem_replicate hIn) (by decide)

/-- A call that does not read a suffix which is not there does what is asked for if that fits. -/
theorem call_answers_iff_fits (hNul : 0 ∉ fmt) (hFormat : pieces Cell.c (own fmt) = some ps)
    (hText : print Cell.c lib.convert (expandPieces sys ps) ap = some text)
    (hReady : sys.enabled pri = true → entry.Found) (stack : Stack) :
    Answers sys (asked sys entry pri ps text) (call lib sys entry pri fmt ap stack) ↔
      ∀ a ∈ asked sys entry pri ps text, a.Fits sys := by
  cases entry with
  | syslog =>
      have hNothing : Terminated none Entry.syslog.suffix := rfl
      exact vxsyslog_answers_iff hNul hFormat hText (fun _ => hNothing) stack.within stack.frame
  | socket message hMessage =>
      have hSuffix : ∃ mem, errorSuffix message stack.buf = .ok mem ∧ (sys.enabled pri = true →
          Terminated (some mem) (Entry.socket message hMessage).suffix) := by
        by_cases hFound : (Entry.socket message hMessage).Found
        · obtain ⟨mem, hRun, hEnd⟩ := errorSuffix_terminated hMessage hFound stack.length_buf
          exact ⟨mem, hRun, fun _ => hEnd⟩
        · obtain ⟨mem, hRun, -⟩ := errorSuffix_unterminated hFound stack.length_buf
          exact ⟨mem, hRun, fun hEnabled => absurd (hReady hEnabled) hFound⟩
      obtain ⟨mem, hRun, hEnd⟩ := hSuffix
      rw [call, hRun]
      exact vxsyslog_answers_iff hNul hFormat hText hEnd stack.within stack.frame

/-- Without a message for the error there is no end to the suffix, unless there is one in what was
on the stack. -/
theorem ready_of_answers (hNul : 0 ∉ fmt) {as : List Asked}
    (h : Answers sys as (call lib sys entry pri fmt ap stale)) (hEnabled : sys.enabled pri = true) :
    entry.Found := by
  cases entry with
  | syslog => trivial
  | socket message hMessage =>
      by_contra hNone
      obtain ⟨mem, hRun, hOpen⟩ := errorSuffix_unterminated hNone stale.length_buf
      obtain ⟨handed, hCall, -⟩ := h
      rw [call, hRun] at hCall
      exact not_enabled_of_vxsyslog hNul (hOpen nul_notMem_stale) hCall hEnabled

end Call

variable {lib sys}

/-- The proxy is handed what is asked for, whatever is on the stack, exactly if all of it is
fine. -/
theorem call_answers_iff {entry : Entry} {pri : BitVec 32} {fmt : CString} {ap : List lib.Arg}
    {ps : List (List Cell)} {text : CString} (hNul : 0 ∉ fmt)
    (hFormat : pieces Cell.c (own fmt) = some ps)
    (hText : print Cell.c lib.convert (expandPieces sys ps) ap = some text) :
    (∀ stack, Answers sys (asked sys entry pri ps text) (call lib sys entry pri fmt ap stack)) ↔
      ∀ a ∈ asked sys entry pri ps text, Fine sys a := by
  constructor
  · intro h a ha
    have hReady := ready_of_answers hNul (h stale)
    exact ⟨(call_answers_iff_fits hNul hFormat hText hReady stale).mp (h stale) a ha,
      found_of_mem_asked ha hReady⟩
  · intro h stack
    have hReady : sys.enabled pri = true → entry.Found := by
      intro hEnabled
      obtain ⟨a, ha, hEntry⟩ : ∃ a ∈ asked sys entry pri ps text, a.entry = entry :=
        exists_mem_asked hEnabled
      exact hEntry ▸ (h a ha).found
    exact (call_answers_iff_fits hNul hFormat hText hReady stack).mpr fun a ha => (h a ha).fits

/-- A `printf` of strings and of numbers. -/
def plainPrintf : Printf where
  Arg := CString ⊕ BitVec 32
  pointee := Sum.getLeft?
  ofInt := .inr
  convert
    | [115], .inl s :: args => some (s, args)
    | [120], .inr n :: args => some (hex n.toNat, args)
    | _, _ => none
  convert_s
    | [] => rfl
    | .inl _ :: _ => rfl
    | .inr _ :: _ => rfl
  convert_x _ _ := rfl

/-- What is found after a program that is not one has been started. -/
def badExe : Syslog where
  hostname := ascii " host "
  ident := ascii "app"
  pid := []
  tid := 5
  facility := 8
  mask := 0xff
  option := 0
  time := ⟨3, 7, 1, 2, 3, 45⟩
  strerror := ascii "Exec format error"
  systemMessage := some (ascii "%1 is not a valid Win32 application. ")
  strerror_nul := by decide
  systemMessage_nul := by
    intro text hText
    cases hText
    decide
  proxy := true

theorem call_answers_strerror : Answers badExe
    (asked badExe .syslog 3
      [[⟨percent, false, 4⟩, ⟨115, false, 3⟩], [⟨58, false, 2⟩],
        [⟨percent, false, 1⟩, ⟨109, false, 0⟩]]
      (ascii "sh:Exec format error"))
    (call plainPrintf badExe .syslog 3 (ascii "%s:%m") [.inl (ascii "sh")] stale) := by
  refine (call_answers_iff (by decide) rfl rfl).mpr (fun a ha => ?_) stale
  obtain rfl := List.mem_singleton.mp ha
  refine ⟨⟨by decide, fun _ => ⟨?_, ?_⟩, ?_⟩, trivial⟩
  · have hPlain : ∀ (c : UInt8) (n : Nat) (front rest : List Cell), c ≠ percent →
        ¬ Escapes (front ++ [⟨c, false, n⟩]) rest := by
      rintro c n front rest hc ⟨⟨d, hd, hPercent⟩, -⟩
      rw [List.getLast?_concat] at hd
      cases hd
      exact hc hPercent
    have hString := hPlain 115 3 [⟨percent, false, 4⟩]
      [⟨58, false, 2⟩, ⟨percent, false, 1⟩, ⟨109, false, 0⟩] (by decide)
    have hColon := hPlain 58 2 [] [⟨percent, false, 1⟩, ⟨109, false, 0⟩] (by decide)
    show 2 ≤ 1023 ∧ (Escapes _ _ → 1023 ≤ 5) ∧ 1 ≤ 1021 ∧ (Escapes _ _ → 1021 ≤ 4) ∧
      4 < 1020 ∧ 17 < 1020 ∧ True
    exact ⟨by decide, fun h => absurd h hString, by decide, fun h => absurd h hColon, by decide,
      by decide, trivial⟩
  · intro p hp text hText
    rcases List.mem_cons.mp hp with rfl | hp
    · cases hText
    rcases List.mem_cons.mp hp with rfl | hp
    · cases hText
    obtain rfl := List.mem_singleton.mp hp
    cases hText
    decide
  · unfold HasRoom
    rw [if_neg (by decide)]
    decide

/-- The `%1` of a message of Windows is read as a directive. -/
theorem not_call_answers : ¬ ∀ (lib : Printf) (sys : Syslog) (entry : Entry) (pri : BitVec 32)
    (fmt : CString) (ap : List lib.Arg) (ps : List (List Cell)) (text : CString), 0 ∉ fmt →
    pieces Cell.c (own fmt) = some ps →
    print Cell.c lib.convert (expandPieces sys ps) ap = some text →
    ∀ stack, Answers sys (asked sys entry pri ps text) (call lib sys entry pri fmt ap stack) := by
  intro h
  have hAnswers := h plainPrintf badExe .syslog 3 (ascii "%M") []
    [[⟨percent, false, 1⟩, ⟨77, false, 0⟩]] (ascii "%1 is not a valid Win32 application. ")
    (by decide) rfl rfl stale
  have hReady : badExe.enabled 3 = true → Entry.syslog.Found := fun _ => trivial
  have hFits := (call_answers_iff_fits (by decide) rfl rfl hReady stale).mp hAnswers
    ⟨3, [[⟨percent, false, 1⟩, ⟨77, false, 0⟩]], ascii "%1 is not a valid Win32 application. ",
      .syslog⟩ List.mem_cons_self
  exact (hFits.literal rfl).2 _ List.mem_cons_self _ rfl (by decide)

end OncRpc.Compat.Syslog
