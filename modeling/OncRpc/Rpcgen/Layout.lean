import OncRpc.Rpcgen.GetToken
import Mathlib.Data.List.Infix
import Mathlib.Data.List.TakeWhile

/-! What `get_token` delivers does not depend on how a file is laid out. -/
namespace OncRpc.Rpcgen

/-! ### Layouts -/

/-- The tokens of the language, as they are written. -/
inductive IsToken : Token → List Char → Prop where
  | punctuation {c : Char} {kind : TokKind} (h : (c, kind) ∈ punctuation) : IsToken ⟨kind, ""⟩ [c]
  | keyword {tok : Token} (h : tok ∈ symbols) : IsToken tok tok.str.toList
  | identifier {c : Char} {cs : List Char} (hFirst : c.isAlpha ∨ c = '_')
      (hRest : ∀ c ∈ cs, isname c) (hNew : ∀ s ∈ symbols, s.str.toList ≠ c :: cs) :
      IsToken ⟨.ident, String.ofList (c :: cs)⟩ (c :: cs)
  | decimal {minus : Bool} {d : Char} {ds : List Char} (hDigits : ∀ c ∈ d :: ds, c.isDigit) :
      IsToken ⟨.ident, String.ofList ((if minus then ['-'] else []) ++ d :: ds)⟩
        ((if minus then ['-'] else []) ++ d :: ds)
  | hexadecimal {ds : List Char} (hDigits : ∀ c ∈ ds, isxdigit c) :
      IsToken ⟨.ident, String.ofList ('0' :: 'x' :: ds)⟩ ('0' :: 'x' :: ds)
  | strconst {body : List Char} (hBody : ∀ c ∈ body, c ≠ doubleQuote ∧ c ≠ '\n') :
      IsToken ⟨.strconst, String.ofList (doubleQuote :: body ++ [doubleQuote])⟩
        (doubleQuote :: body ++ [doubleQuote])
  | charconst {c : Char} (hChar : c ≠ singleQuote ∧ c ≠ '\n') :
      IsToken ⟨.charconst, String.ofList [singleQuote, c, singleQuote]⟩
        [singleQuote, c, singleQuote]

/-- A name or a number would go on with this character. -/
def merges : List Char → Char → Bool
  | '0' :: 'x' :: _, c => isxdigit c
  | d :: ds, c =>
      if d.isDigit || d == '-' then c.isDigit || (d == '0' && ds.isEmpty && c == 'x')
      else (d.isAlpha || d == '_') && isname c
  | [], _ => false

/-- A line `# n "file"`, without the `#`. -/
structure IsCppline (line : List Char) : Prop where
  parts : ∃ white num white' file rest, line = white ++ num ++ white' ++
    doubleQuote :: file ++ doubleQuote :: rest ∧
    (∀ c ∈ white, isspace c) ∧ num ≠ [] ∧ (∀ c ∈ num, c.isDigit) ∧ (∀ c ∈ white', isspace c) ∧
    doubleQuote ∉ file

/-- What a file is made of. -/
inductive LayoutPiece where
  | white (c : Char)
  | comment (body : List Char)
  | token (tok : Token) (text : List Char)
  | directive (line : List Char)
  | cppline (line : List Char)

namespace LayoutPiece

def text : LayoutPiece → List Char
  | white c => [c]
  | comment body => '/' :: '*' :: body ++ ['*', '/']
  | token _ text => text
  | directive line => '%' :: line ++ ['\n']
  | cppline line => '#' :: line ++ ['\n']

/-- Pieces one after another: at the beginning of a line or not, and right behind a token or
not. -/
def Laid : Bool → List Char → List LayoutPiece → Prop
  | _, _, [] => True
  | _, _, white c :: ps => isspace c ∧ Laid (decide (c = '\n')) [] ps
  | _, _, comment body :: ps => ¬ ['*', '/'] <:+: body ∧ Laid false [] ps
  | _, behind, token tok text :: ps =>
      IsToken tok text ∧ (∀ c ∈ text.head?, merges behind c = false) ∧ Laid false text ps
  | atStart, _, directive line :: ps => atStart = true ∧ '\n' ∉ line ∧ Laid true [] ps
  | atStart, _, cppline line :: ps =>
      atStart = true ∧ '\n' ∉ line ∧ IsCppline line ∧ Laid true [] ps

def tokens : List LayoutPiece → List Token
  | [] => []
  | token tok _ :: ps => tok :: tokens ps
  | _ :: ps => tokens ps

/-- What is to be printed for the `%` lines. -/
def printed : List LayoutPiece → List Char
  | [] => []
  | directive line :: ps => line ++ '\n' :: printed ps
  | _ :: ps => printed ps

end LayoutPiece

/-- The lines are shorter than `MAXLINESIZE`, the first one behind some characters of it. -/
def LinesFit : List Char → Nat → Prop
  | [], n => n < maxLineSize
  | c :: text, n =>
      if c = '\n' then n + 1 < maxLineSize ∧ LinesFit text 0 else LinesFit text (n + 1)

/-- A text that is laid out from these pieces. -/
structure Layout (ps : List LayoutPiece) : Prop where
  laid : LayoutPiece.Laid true [] ps
  lines : LinesFit (ps.flatMap LayoutPiece.text) 0
  plain : ∀ c ∈ ps.flatMap LayoutPiece.text, c ≠ Char.ofNat 0

/-- The end of the file. -/
def eofToken : Token := ⟨.eof, ""⟩

/-- What a call is to answer when these tokens are left, and what is left then. -/
def answerFrom (toks : List Token) (c : ScanCall) : (Token × Bool) × List Token :=
  let tok := toks.headD eofToken
  match c with
  | .getToken => ((tok, true), toks.tail)
  | .peek => ((tok, false), toks)
  | .peekscan expect => if tok.kind = expect then ((tok, true), toks.tail) else ((tok, false), toks)

/-- What some calls are to answer. -/
def answersFrom : List Token → List ScanCall → List (Token × Bool)
  | _, [] => []
  | toks, c :: cs => (answerFrom toks c).1 :: answersFrom (answerFrom toks c).2 cs

/-! ### Lines -/

theorem fgets_append (n : Nat) (fin : List Char) : (fgets n fin).1 ++ (fgets n fin).2 = fin := by
  fun_induction fgets n fin with
  | case1 fin => rfl
  | case2 n => rfl
  | case3 n fin => rfl
  | case4 n c fin hNew ih => rw [List.cons_append, ih]

theorem fgets_ne_nil {n : Nat} {fin : List Char} (hSome : fin ≠ []) :
    (fgets (n + 1) fin).1 ≠ [] := by
  cases fin with
  | nil => exact absurd rfl hSome
  | cons c fin =>
      rw [fgets]
      split <;> exact List.cons_ne_nil _ _

/-- The line ends where the file goes on, and nowhere else. -/
def OnLine (fin : List Char) : List Char → Prop
  | [] => True
  | [c] => c = '\n' ∨ fin = []
  | c :: d :: rest => c ≠ '\n' ∧ OnLine fin (d :: rest)

theorem OnLine.tail {fin rest : List Char} {c : Char} (h : OnLine fin (c :: rest)) :
    OnLine fin rest := by
  cases rest with
  | nil => trivial
  | cons d rest => exact h.2

theorem OnLine.eq_nil {fin rest : List Char} (h : OnLine fin ('\n' :: rest)) : rest = [] := by
  cases rest with
  | nil => rfl
  | cons d rest => exact absurd rfl h.1

/-- As long as the text goes on without a newline, so does the line. -/
theorem OnLine.exists_cons {fin rest : List Char} {c d : Char} {text : List Char}
    (h : OnLine fin (c :: rest)) (hNew : c ≠ '\n') (hText : rest ++ fin = d :: text) :
    ∃ rest', rest = d :: rest' ∧ rest' ++ fin = text := by
  cases rest with
  | nil =>
      rcases h with hEnd | hEnd
      · exact absurd hEnd hNew
      · rw [hEnd] at hText
        cases hText
  | cons e rest =>
      obtain ⟨rfl, hRest⟩ := List.cons.inj hText
      exact ⟨rest, rfl, hRest⟩

/-- What has no newline in it is on one line. -/
theorem OnLine.exists_append {fin rest a text : List Char} (h : OnLine fin rest) (hSome : rest ≠ [])
    (hNew : '\n' ∉ a) (hText : rest ++ fin = a ++ text) :
    ∃ rest', rest = a ++ rest' ∧ rest' ++ fin = text ∧ OnLine fin rest' ∧
      (text ≠ [] → rest' ≠ []) := by
  induction a generalizing rest with
  | nil => exact ⟨rest, rfl, hText, h, fun _ => hSome⟩
  | cons c a ih =>
      rw [List.mem_cons, not_or] at hNew
      obtain ⟨d, rest, rfl⟩ := List.exists_cons_of_ne_nil hSome
      obtain ⟨rfl, hRest⟩ := List.cons.inj hText
      by_cases hEnd : a ++ text = []
      · obtain ⟨rfl, rfl⟩ := List.append_eq_nil_iff.mp hEnd
        exact ⟨rest, rfl, hRest, h.tail, fun h => absurd rfl h⟩
      · obtain ⟨e, more, hMore⟩ := List.exists_cons_of_ne_nil hEnd
        obtain ⟨rest', rfl, -⟩ := h.exists_cons (Ne.symm hNew.1) (hRest.trans hMore)
        obtain ⟨rest'', hSplit, hLeft⟩ := ih h.tail (List.cons_ne_nil _ _) hNew.2 hRest
        exact ⟨rest'', by rw [hSplit]; rfl, hLeft⟩

theorem lt_of_linesFit {text : List Char} {n : Nat} (h : LinesFit text n) : n < maxLineSize := by
  induction text generalizing n with
  | nil => exact h
  | cons c text ih =>
      rw [LinesFit] at h
      split at h
      · omega
      · exact Nat.lt_of_succ_lt (ih h)

/-- `fgets` reads whole lines. -/
theorem onLine_fgets {fin : List Char} {n : Nat} (h : LinesFit fin n) :
    OnLine (fgets (maxLineSize - 1 - n) fin).2 (fgets (maxLineSize - 1 - n) fin).1 ∧
      LinesFit (fgets (maxLineSize - 1 - n) fin).2 0 := by
  induction fin generalizing n with
  | nil =>
      have hZero : LinesFit [] 0 := show 0 < maxLineSize by decide
      cases maxLineSize - 1 - n with
      | zero => exact ⟨trivial, hZero⟩
      | succ k => exact ⟨trivial, hZero⟩
  | cons c fin ih =>
      rw [LinesFit] at h
      split at h
      · next hNew =>
          obtain ⟨k, hk⟩ : ∃ k, maxLineSize - 1 - n = k + 1 := ⟨maxLineSize - 2 - n, by omega⟩
          rw [hk, fgets, if_pos hNew]
          exact ⟨Or.inl hNew, h.2⟩
      · next hNew =>
          have hLt := lt_of_linesFit h
          have hk : maxLineSize - 1 - n = (maxLineSize - 1 - (n + 1)) + 1 := by omega
          obtain ⟨hLine, hRest⟩ := ih h
          rw [hk, fgets, if_neg hNew]
          refine ⟨?_, hRest⟩
          have hAll := fgets_append (maxLineSize - 1 - (n + 1)) fin
          cases hRead : (fgets (maxLineSize - 1 - (n + 1)) fin).1 with
          | cons d line =>
              rw [hRead] at hLine
              exact ⟨hNew, hLine⟩
          | nil =>
              -- The line is at its end only with the file.
              refine Or.inr ?_
              by_contra hMore
              rw [hRead, List.nil_append] at hAll
              rw [hAll] at hMore
              obtain ⟨d, fin', rfl⟩ := List.exists_cons_of_ne_nil hMore
              have hBelow : n + 1 + 1 < maxLineSize ∨ d ≠ '\n' := by
                rw [LinesFit] at h
                split at h
                · exact Or.inl h.1
                · next hNe => exact Or.inr hNe
              have hNext : n + 1 + 1 < maxLineSize := by
                rcases hBelow with hLt' | hNe
                · exact hLt'
                · rw [LinesFit, if_neg hNe] at h
                  exact lt_of_linesFit h
              have hSome : ∃ k, maxLineSize - 1 - (n + 1) = k + 1 :=
                ⟨maxLineSize - 2 - (n + 1), by omega⟩
              obtain ⟨k, hk⟩ := hSome
              rw [hk] at hRead
              exact fgets_ne_nil (List.cons_ne_nil _ _) hRead

/-! ### The loop without its bound -/

theorem skipComment_length {back : Char} {str rest : List Char}
    (h : skipComment back str = some rest) : rest.length < str.length := by
  induction str generalizing back with
  | nil => cases h
  | cons c str ih =>
      rw [skipComment] at h
      split at h
      · rw [← Option.some.inj h, List.length_cons]
        omega
      · have hLt := ih h
        rw [List.length_cons]
        omega

theorem length_fgets (n : Nat) (fin : List Char) :
    (fgets n fin).1.length + (fgets n fin).2.length = fin.length := by
  rw [← List.length_append, fgets_append]

theorem length_dropWhile_le (p : Char → Bool) (str : List Char) :
    (str.dropWhile p).length ≤ str.length :=
  (List.dropWhile_sublist p).length_le

theorem dropWhile_append_stop {p : Char → Bool} {a b : List Char} (ha : ∀ c ∈ a, p c = true)
    (hb : ∀ c ∈ b.head?, p c = false) : (a ++ b).dropWhile p = b ∧ (a ++ b).takeWhile p = a := by
  induction a with
  | nil =>
      cases b with
      | nil => exact ⟨rfl, rfl⟩
      | cons c b =>
          have hStop := hb c rfl
          simp [hStop]
  | cons c a ih =>
      obtain ⟨hDrop, hTake⟩ := ih fun d hd => ha d (List.mem_cons_of_mem _ hd)
      have hHead := ha c List.mem_cons_self
      simp [hHead, hDrop, hTake]

theorem find_congr {α : Type} {p q : α → Bool} {l : List α} (h : ∀ a ∈ l, p a = q a) :
    l.find? p = l.find? q := by
  induction l with
  | nil => rfl
  | cons a l ih =>
      rw [List.find?_cons, List.find?_cons, h a List.mem_cons_self,
        ih fun b hb => h b (List.mem_cons_of_mem _ hb)]

namespace Scanner

theorem docppline_same {line : List Char} {s s' : Scanner} (h : docppline line s = .ok s') :
    s'.rest = s.rest ∧ s'.fin = s.fin ∧ s'.fout = s.fout ∧ s'.pushed = s.pushed := by
  unfold docppline at h
  dsimp only at h
  split at h
  · cases h
  · split at h
    · cases h
    · rw [← Except.ok.inj h]
      exact ⟨rfl, rfl, rfl, rfl⟩

/-- A read makes less of what there is to read. -/
theorem size_read {fin : List Char} (hSome : fin ≠ []) :
    ((fgets (maxLineSize - 1) fin).1.takeWhile (· ≠ Char.ofNat 0)).length +
      2 * (fgets (maxLineSize - 1) fin).2.length < 2 * fin.length := by
  have hLen := length_fgets (maxLineSize - 1) fin
  have hRead : 0 < (fgets (maxLineSize - 1) fin).1.length :=
    List.length_pos_iff.mpr (fgets_ne_nil hSome)
  have hLine : ((fgets (maxLineSize - 1) fin).1.takeWhile (· ≠ Char.ofNat 0)).length ≤
      (fgets (maxLineSize - 1) fin).1.length := (List.takeWhile_sublist _).length_le
  omega

/-- The bound does not matter where it is not reached. -/
theorem blanks_bound {n m : Nat} {commenting : Bool} {s : Scanner} (hn : s.size < n)
    (hm : s.size < m) : blanks n commenting s = blanks m commenting s := by
  induction n generalizing m commenting s with
  | zero => omega
  | succ n ih =>
      obtain ⟨m, rfl⟩ : ∃ k, m = k + 1 := ⟨m - 1, by omega⟩
      rw [blanks, blanks]
      have hNext : ∀ (commenting : Bool) {s' : Scanner}, s'.size < s.size →
          blanks n commenting s' = blanks m commenting s' :=
        fun commenting s' hLess => ih (by omega) (by omega)
      split
      · next hRest =>
          split
          · rfl
          · next hSome =>
              have hRead := size_read hSome
              have hSize : s.size = 2 * s.fin.length := by rw [size, hRest]; simp
              dsimp only
              split
              · exact hNext _ (by rw [size, hSize]; exact hRead)
              · split
                · cases hCpp : docppline _ _ with
                  | error e => rfl
                  | ok s' =>
                      obtain ⟨hNothing, hFin, -, -⟩ := docppline_same hCpp
                      have hLeft : s'.fin = (fgets (maxLineSize - 1) s.fin).2 := hFin
                      have hEmpty : s'.rest = [] := hNothing.trans hRest
                      refine hNext _ ?_
                      rw [size, hSize, hEmpty, hLeft, List.length_nil]
                      omega
                · split
                  · refine hNext _ ?_
                    change s.rest.length + 2 * (fgets (maxLineSize - 1) s.fin).2.length < s.size
                    rw [hSize, hRest, List.length_nil]
                    omega
                  · exact hNext _ (by rw [size, hSize]; exact hRead)
      · next c rest hRest =>
          have hSize : s.size = rest.length + 1 + 2 * s.fin.length := by
            rw [size, hRest, List.length_cons]
          split
          · have hLe := length_dropWhile_le isspace rest
            exact hNext _ (by rw [size, hSize]; dsimp only; omega)
          · split
            · split
              · next rest' hSkip =>
                  have hLt := skipComment_length hSkip
                  exact hNext _ (by rw [size, hSize]; dsimp only; omega)
              · exact hNext _ (by rw [size, hSize, List.length_nil]; dsimp only; omega)
            · split
              · refine hNext _ ?_
                rw [size, hSize, hRest]
                simp only [List.length_drop, List.length_cons]
                omega
              · rfl

/-- The loop of `get_token`, with a bound that it does not reach. -/
def toToken (commenting : Bool) (s : Scanner) : Except Failure Scanner :=
  blanks (s.size + 1) commenting s

theorem blanks_eq_toToken {n : Nat} {commenting : Bool} {s : Scanner} (h : s.size < n) :
    blanks n commenting s = toToken commenting s := blanks_bound h (Nat.lt_succ_self _)

variable {s : Scanner} {commenting : Bool} {c : Char} {rest : List Char}

theorem toToken_eof (hRest : s.rest = []) (hFin : s.fin = []) :
    toToken commenting s = .ok s := by
  rw [toToken, blanks, hRest]
  exact if_pos hFin

/-- White space is eaten up to something else, inside a comment as well. -/
theorem toToken_dropWhile (hRest : s.rest = c :: rest) (hWhite : isspace c = true) :
    toToken commenting s = toToken commenting { s with rest := rest.dropWhile isspace } := by
  have hLe := length_dropWhile_le isspace rest
  rw [toToken, blanks, hRest]
  dsimp only
  rw [if_pos hWhite]
  refine blanks_eq_toToken ?_
  rw [size, size, hRest, List.length_cons]
  dsimp only
  omega

/-- It may as well be eaten character by character. -/
theorem toToken_white (hRest : s.rest = c :: rest) (hWhite : isspace c = true) :
    toToken commenting s = toToken commenting { s with rest } := by
  rw [toToken_dropWhile hRest hWhite]
  cases rest with
  | nil => rfl
  | cons d rest =>
      rw [List.dropWhile_cons]
      split
      · next hNext => exact (toToken_dropWhile (s := { s with rest := d :: rest }) rfl hNext).symm
      · rfl

/-- Where the scanner goes on in a comment. -/
def afterComment (back : Char) (rest : List Char) (s : Scanner) : Except Failure Scanner :=
  match skipComment back rest with
  | some rest => toToken false { s with rest }
  | none => toToken true { s with rest := [] }

/-- In a comment the first character is passed, and it makes no difference if it is eaten as white
space. -/
theorem toToken_commenting (hRest : s.rest = c :: rest) :
    toToken true s = afterComment c rest s := by
  induction rest generalizing c s with
  | nil =>
      by_cases hWhite : isspace c = true
      · exact toToken_white hRest hWhite
      · rw [toToken, blanks, hRest]
        dsimp only
        rw [if_neg hWhite, if_pos rfl]
        refine blanks_eq_toToken ?_
        rw [size, size, hRest]
        simp
  | cons d rest ih =>
      by_cases hWhite : isspace c = true
      · have hNew : ¬ (c = '*' ∧ d = '/') := by
          rintro ⟨rfl, -⟩
          revert hWhite
          decide
        rw [toToken_white hRest hWhite, ih rfl, afterComment, afterComment, skipComment,
          if_neg hNew]
      · rw [toToken, blanks, hRest]
        dsimp only
        rw [if_neg hWhite, if_pos rfl, afterComment]
        have hSize : s.size = (d :: rest).length + 1 + 2 * s.fin.length := by
          rw [size, hRest, List.length_cons]
        cases hSkip : skipComment c (d :: rest) with
        | some rest' =>
            have hLt := skipComment_length hSkip
            refine blanks_eq_toToken ?_
            rw [hSize, size]
            dsimp only
            omega
        | none =>
            refine blanks_eq_toToken ?_
            rw [hSize, size, List.length_nil]
            dsimp only
            omega

theorem toToken_endcomment (hRest : s.rest = '*' :: '/' :: rest) :
    toToken true s = toToken false { s with rest } := by
  rw [toToken_commenting hRest, afterComment, skipComment, if_pos ⟨rfl, rfl⟩]

/-- A comment goes on behind a character that does not end it. -/
theorem toToken_inComment (hRest : s.rest = c :: rest)
    (hOn : ∀ d ∈ rest.head?, ¬ (c = '*' ∧ d = '/')) :
    toToken true s = toToken true { s with rest } := by
  rw [toToken_commenting hRest]
  cases rest with
  | nil => rfl
  | cons d rest =>
      rw [toToken_commenting (s := { s with rest := d :: rest }) rfl, afterComment, afterComment,
        skipComment, if_neg (hOn d rfl)]

theorem toToken_startcomment (hRest : s.rest = '/' :: '*' :: rest) :
    toToken false s = toToken true { s with rest } := by
  have hNot : ¬ isspace '/' = true := by decide
  rw [toToken, blanks, hRest]
  dsimp only
  rw [if_neg hNot, if_neg Bool.false_ne_true,
    if_pos (show startcomment ('/' :: '*' :: rest) from rfl)]
  refine blanks_eq_toToken ?_
  rw [size, size, hRest]
  simp only [List.drop_succ_cons, List.drop_zero, List.length_cons]
  omega

/-- The loop stops before a token. -/
theorem toToken_stop (hRest : s.rest = c :: rest) (hWhite : isspace c = false) (hSlash : c ≠ '/') :
    toToken false s = .ok s := by
  have hNot : ¬ startcomment (c :: rest) = true := by
    intro hStart
    rw [startcomment, List.isPrefixOf, Bool.and_eq_true, beq_iff_eq] at hStart
    exact hSlash hStart.1.symm
  rw [toToken, blanks, hRest]
  dsimp only
  rw [if_neg (by rw [hWhite]; exact Bool.false_ne_true), if_neg Bool.false_ne_true, if_neg hNot]

/-! ### Reading a line -/

/-- The text from here on, of which the rest of a line has been read. -/
structure Reads (s : Scanner) (text : List Char) : Prop where
  text : s.rest ++ s.fin = text
  line : OnLine s.fin s.rest
  fits : LinesFit s.fin 0
  plain : ∀ c ∈ s.fin, c ≠ Char.ofNat 0

/-- The scanner with the next line. -/
def readLine (s : Scanner) : Scanner :=
  { s with rest := (fgets (maxLineSize - 1) s.fin).1, fin := (fgets (maxLineSize - 1) s.fin).2
           linenum := s.linenum + 1 }

theorem takeWhile_plain {text : List Char} (h : ∀ c ∈ text, c ≠ Char.ofNat 0) :
    text.takeWhile (· ≠ Char.ofNat 0) = text := by
  rw [List.takeWhile_eq_self_iff]
  intro c hc
  exact decide_eq_true (h c hc)

variable {text : List Char}

theorem Reads.readLine (h : Reads s text) (hRest : s.rest = []) : Reads s.readLine text where
  text := by
    rw [← h.text, hRest]
    exact fgets_append _ _
  line := (onLine_fgets h.fits).1
  fits := (onLine_fgets h.fits).2
  plain := by
    intro c hc
    have hAll := fgets_append (maxLineSize - 1) s.fin
    exact h.plain c (hAll ▸ List.mem_append_right _ hc)

theorem Reads.curline (h : Reads s text) :
    (fgets (maxLineSize - 1) s.fin).1.takeWhile (· ≠ Char.ofNat 0) =
      (fgets (maxLineSize - 1) s.fin).1 := by
  refine takeWhile_plain fun c hc => h.plain c ?_
  have hAll := fgets_append (maxLineSize - 1) s.fin
  exact hAll ▸ List.mem_append_left _ hc

theorem Reads.eq_fin (h : Reads s text) (hRest : s.rest = []) : s.fin = text := by
  rw [← h.text, hRest, List.nil_append]

theorem Reads.step (h : Reads s (c :: text)) (hRest : s.rest = c :: rest) :
    Reads { s with rest } text where
  text := (List.cons.inj ((by rw [← h.text, hRest]; rfl) : c :: (rest ++ s.fin) = c :: text)).2
  line := (hRest ▸ h.line : OnLine s.fin (c :: rest)).tail
  fits := h.fits
  plain := h.plain

/-- A line that is read for the scanner. -/
theorem toToken_readLine (h : Reads s text) (hRest : s.rest = []) (hSome : text ≠ [])
    (hPlain : commenting = true ∨ ∀ c ∈ text.head?, c ≠ '#' ∧ c ≠ '%') :
    toToken commenting s = toToken commenting s.readLine := by
  have hFin := h.eq_fin hRest
  have hRead := size_read (hFin ▸ hSome : s.fin ≠ [])
  have hLine := h.curline
  have hHead : ∀ c ∈ (fgets (maxLineSize - 1) s.fin).1.head?, c ∈ text.head? := by
    intro c hc
    obtain ⟨line, hStart⟩ := List.head?_eq_some_iff.mp hc
    rw [← hFin, ← fgets_append (maxLineSize - 1) s.fin, hStart]
    rfl
  have hLess : s.readLine.size < s.size := by
    rw [hLine] at hRead
    rw [size, size, hRest]
    simp only [Scanner.readLine, List.length_nil]
    omega
  rw [toToken, blanks, hRest]
  dsimp only
  rw [if_neg (hFin ▸ hSome), hLine]
  by_cases hComment : commenting = true
  · rw [if_pos hComment]
    exact blanks_eq_toToken hLess
  · have hNot := hPlain.resolve_left hComment
    have hCpp : ¬ cppline (fgets (maxLineSize - 1) s.fin).1 = true := by
      intro hIs
      exact (hNot _ (hHead _ (beq_iff_eq.mp hIs))).1 rfl
    have hDirective : ¬ directive (fgets (maxLineSize - 1) s.fin).1 = true := by
      intro hIs
      exact (hNot _ (hHead _ (beq_iff_eq.mp hIs))).2 rfl
    rw [if_neg hComment, if_neg hCpp, if_neg hDirective]
    exact blanks_eq_toToken hLess

/-- The scanner has gone on, and nothing but its place has changed. -/
structure Moved (s s' : Scanner) : Prop where
  fout : s'.fout = s.fout
  pushed : s'.pushed = s.pushed

theorem Moved.trans {s s' s'' : Scanner} (h : Moved s s') (h' : Moved s' s'') : Moved s s'' :=
  ⟨h'.fout.trans h.fout, h'.pushed.trans h.pushed⟩

/-- The next character is on the line, once there is a line. -/
theorem Reads.fetch (h : Reads s (c :: text))
    (hPlain : commenting = true ∨ c ≠ '#' ∧ c ≠ '%') :
    ∃ s' rest, toToken commenting s = toToken commenting s' ∧ Moved s s' ∧ Reads s' (c :: text) ∧
      s'.rest = c :: rest := by
  by_cases hRest : s.rest = []
  · refine ⟨s.readLine, ?_⟩
    have hRead := h.readLine hRest
    have hSame : toToken commenting s = toToken commenting s.readLine := by
      refine toToken_readLine h hRest (List.cons_ne_nil _ _) (hPlain.imp_right fun hNot => ?_)
      intro d hd
      obtain rfl := Option.some.inj hd
      exact hNot
    have hLine : s.readLine.rest ≠ [] :=
      fgets_ne_nil (h.eq_fin hRest ▸ List.cons_ne_nil _ _)
    obtain ⟨d, rest, hStart⟩ := List.exists_cons_of_ne_nil hLine
    have hText := hRead.text
    rw [hStart] at hText
    obtain ⟨rfl, -⟩ := List.cons.inj hText
    exact ⟨rest, hSame, ⟨rfl, rfl⟩, hRead, hStart⟩
  · obtain ⟨d, rest, hStart⟩ := List.exists_cons_of_ne_nil hRest
    have hText := h.text
    rw [hStart] at hText
    obtain ⟨rfl, -⟩ := List.cons.inj hText
    exact ⟨s, rest, rfl, ⟨rfl, rfl⟩, h, hStart⟩

/-! ### The pieces -/

theorem Reads.white (h : Reads s (c :: text)) (hWhite : isspace c = true) :
    ∃ s', toToken false s = toToken false s' ∧ Moved s s' ∧ Reads s' text ∧
      (c = '\n' → s'.rest = []) := by
  have hPlain : c ≠ '#' ∧ c ≠ '%' := by
    constructor <;> rintro rfl <;> revert hWhite <;> decide
  obtain ⟨s', rest, hSame, hMoved, hReads, hRest⟩ := h.fetch (Or.inr hPlain)
  refine ⟨{ s' with rest }, hSame.trans (toToken_white hRest hWhite),
    ⟨hMoved.fout, hMoved.pushed⟩, hReads.step hRest, ?_⟩
  rintro rfl
  exact (hRest ▸ hReads.line : OnLine s'.fin ('\n' :: rest)).eq_nil

/-- The text of a comment is passed, over the ends of its lines. -/
theorem Reads.body {body : List Char} (h : Reads s (body ++ '*' :: '/' :: text))
    (hBody : ¬ ['*', '/'] <:+: body) :
    ∃ s', toToken true s = toToken false s' ∧ Moved s s' ∧ Reads s' text := by
  induction body generalizing s with
  | nil =>
      obtain ⟨s', rest, hSame, hMoved, hReads, hRest⟩ := h.fetch (Or.inl rfl)
      have hStep := hReads.step hRest
      obtain ⟨rest', rfl, -⟩ := (hRest ▸ hReads.line : OnLine s'.fin ('*' :: rest)).exists_cons
        (by decide) hStep.text
      exact ⟨{ s' with rest := rest' }, hSame.trans (toToken_endcomment hRest),
        ⟨hMoved.fout, hMoved.pushed⟩, hStep.step rfl⟩
  | cons b body ih =>
      obtain ⟨s', rest, hSame, hMoved, hReads, hRest⟩ := h.fetch (Or.inl rfl)
      have hStep := hReads.step hRest
      have hOn : ∀ d ∈ rest.head?, ¬ (b = '*' ∧ d = '/') := by
        rintro d hd ⟨rfl, rfl⟩
        obtain ⟨rest', rfl⟩ := List.head?_eq_some_iff.mp hd
        have hText := hStep.text
        cases body with
        | nil =>
            have hHead := (List.cons.inj hText).1
            revert hHead
            decide
        | cons d body =>
            obtain ⟨rfl, -⟩ := List.cons.inj hText
            exact hBody ⟨[], body, rfl⟩
      have hInner : ¬ ['*', '/'] <:+: body := fun hIn => hBody (List.infix_cons hIn)
      obtain ⟨s'', hEnd, hMoved', hReads'⟩ := ih hStep hInner
      exact ⟨s'', (hSame.trans (toToken_inComment hRest hOn)).trans hEnd,
        hMoved.trans ⟨hMoved'.fout, hMoved'.pushed⟩, hReads'⟩

theorem Reads.comment {body : List Char}
    (h : Reads s ('/' :: '*' :: body ++ ['*', '/'] ++ text)) (hBody : ¬ ['*', '/'] <:+: body) :
    ∃ s', toToken false s = toToken false s' ∧ Moved s s' ∧ Reads s' text := by
  have hText : '/' :: '*' :: body ++ ['*', '/'] ++ text =
      '/' :: '*' :: (body ++ '*' :: '/' :: text) := by simp
  rw [hText] at h
  obtain ⟨s', rest, hSame, hMoved, hReads, hRest⟩ := h.fetch (Or.inr (by decide))
  have hStep := hReads.step hRest
  obtain ⟨rest', rfl, -⟩ := (hRest ▸ hReads.line : OnLine s'.fin ('/' :: rest)).exists_cons
    (by decide) hStep.text
  obtain ⟨s'', hEnd, hMoved', hReads'⟩ := (hStep.step rfl).body hBody
  exact ⟨s'', (hSame.trans (toToken_startcomment hRest)).trans hEnd,
    hMoved.trans ⟨hMoved'.fout, hMoved'.pushed⟩, hReads'⟩

/-- The line that is read at the beginning of a line. -/
theorem Reads.line_eq {line : List Char} (h : Reads s (line ++ '\n' :: text)) (hRest : s.rest = [])
    (hNew : '\n' ∉ line) :
    (fgets (maxLineSize - 1) s.fin).1 = line ++ ['\n'] ∧
      (fgets (maxLineSize - 1) s.fin).2 = text := by
  have hRead := h.readLine hRest
  have hSome : s.readLine.rest ≠ [] := fgets_ne_nil (h.eq_fin hRest ▸ by simp)
  obtain ⟨rest, hSplit, hLeft, hLine, hMore⟩ := hRead.line.exists_append hSome hNew hRead.text
  obtain ⟨c, rest, rfl⟩ := List.exists_cons_of_ne_nil (hMore (List.cons_ne_nil _ _))
  obtain ⟨rfl, hFin⟩ := List.cons.inj hLeft
  obtain rfl := hLine.eq_nil
  exact ⟨hSplit, hFin⟩

theorem Reads.afterLine {line : List Char} (h : Reads s (line ++ '\n' :: text))
    (hRest : s.rest = []) (hNew : '\n' ∉ line) {s' : Scanner} (hRest' : s'.rest = [])
    (hFin : s'.fin = (fgets (maxLineSize - 1) s.fin).2) : Reads s' text := by
  have hRead := h.readLine hRest
  have hText := (h.line_eq hRest hNew).2
  refine ⟨by rw [hRest', hFin, hText, List.nil_append], by rw [hRest']; trivial, ?_, ?_⟩
  · rw [hFin]
    exact hRead.fits
  · rw [hFin]
    exact hRead.plain

theorem Reads.directive {line : List Char} (h : Reads s ('%' :: line ++ ['\n'] ++ text))
    (hRest : s.rest = []) (hNew : '\n' ∉ line) :
    ∃ s', toToken false s = toToken false s' ∧ Reads s' text ∧ s'.rest = [] ∧
      s'.fout = s.fout ++ (line ++ ['\n']) ∧ s'.pushed = s.pushed := by
  have hText : '%' :: line ++ ['\n'] ++ text = ('%' :: line) ++ '\n' :: text := by simp
  rw [hText] at h
  have hLong : '\n' ∉ '%' :: line := by
    rw [List.mem_cons, not_or]
    exact ⟨by decide, hNew⟩
  have hFin := h.eq_fin hRest
  have hSome : s.fin ≠ [] := hFin ▸ List.cons_ne_nil _ _
  have hRead := size_read hSome
  obtain ⟨hLine, hLeft⟩ := h.line_eq hRest hLong
  let s₁ : Scanner :=
    { s with fin := (fgets (maxLineSize - 1) s.fin).2, rest := [], linenum := s.linenum + 1 }
  refine ⟨printdirective ('%' :: line ++ ['\n']) s₁, ?_, h.afterLine hRest hLong rfl rfl, rfl,
    rfl, rfl⟩
  rw [toToken, blanks, hRest]
  dsimp only
  rw [if_neg hSome, h.curline, if_neg Bool.false_ne_true, hLine, if_neg (by simp [cppline]),
    if_pos (by rfl)]
  refine blanks_eq_toToken ?_
  rw [size, size, hRest]
  simp only [printdirective, List.length_nil]
  omega

/-- A digit is no white space and no letter. -/
theorem not_of_isDigit (h : c.isDigit = true) :
    isspace c = false ∧ c ≠ 'l' ∧ c ≠ doubleQuote ∧ c ≠ 'x' := by
  have hRange : 48 ≤ c.toNat ∧ c.toNat ≤ 57 := by
    rw [Char.isDigit, Bool.and_eq_true, decide_eq_true_eq, decide_eq_true_eq] at h
    exact ⟨h.1, h.2⟩
  refine ⟨?_, ?_, ?_, ?_⟩
  · rw [isspace, decide_eq_false_iff_not]
    rintro (rfl | hWhite)
    · revert hRange
      decide
    · omega
  all_goals
    rintro rfl
    revert hRange
    decide

/-- A line `# n "file"` is understood. -/
theorem docppline_of_isCppline {line : List Char} (h : IsCppline line) (s : Scanner) :
    ∃ s', docppline ('#' :: line ++ ['\n']) s = .ok s' := by
  obtain ⟨white, num, white', file, rest, rfl, hWhite, hSome, hNum, hWhite', hFile⟩ := h.parts
  obtain ⟨d, ds, rfl⟩ := List.exists_cons_of_ne_nil hSome
  have hDigit := not_of_isDigit (hNum d List.mem_cons_self)
  have hQuoteSpace : isspace doubleQuote = false := by decide
  have hQuoteDigit : doubleQuote.isDigit = false := by decide
  let more := file ++ doubleQuote :: rest ++ ['\n']
  have hText : ('#' :: (white ++ d :: ds ++ white' ++ doubleQuote :: file ++ doubleQuote :: rest) ++
      ['\n']).tail = white ++ (d :: ds ++ (white' ++ doubleQuote :: more)) := by
    simp [more]
  have hNumber : cppNumber ('#' :: (white ++ d :: ds ++ white' ++ doubleQuote :: file ++
      doubleQuote :: rest) ++ ['\n']) = d :: ds ++ (white' ++ doubleQuote :: more) := by
    rw [cppNumber, hText, (dropWhile_append_stop hWhite fun c hc => ?_).1]
    · refine if_neg fun hPrefix => hDigit.2.1 ?_
      rw [show "line".toList = ['l', 'i', 'n', 'e'] from rfl, List.cons_append, List.isPrefixOf,
        Bool.and_eq_true, beq_iff_eq] at hPrefix
      exact hPrefix.1.symm
    · obtain rfl := Option.some.inj hc
      exact hDigit.1
  have hBehind : ∀ c ∈ (white' ++ doubleQuote :: more).head?, c.isDigit = false := by
    intro c hc
    cases white' with
    | nil =>
        obtain rfl := Option.some.inj hc
        exact hQuoteDigit
    | cons w white' =>
        obtain rfl := Option.some.inj hc
        have hW := hWhite' w List.mem_cons_self
        rw [← Bool.not_eq_true]
        intro hIs
        rw [(not_of_isDigit hIs).1] at hW
        cases hW
  have hRest : ∀ c ∈ (doubleQuote :: more).head?, isspace c = false := by
    intro c hc
    obtain rfl := Option.some.inj hc
    exact hQuoteSpace
  have hClose : more.takeWhile (· ≠ doubleQuote) = file := by
    have hMore : more = file ++ (doubleQuote :: rest ++ ['\n']) := List.append_assoc _ _ _
    rw [hMore]
    refine (dropWhile_append_stop (fun c hc => ?_) fun c hc => ?_).2
    · exact decide_eq_true fun hSame => hFile (hSame ▸ hc)
    · obtain rfl := Option.some.inj hc
      exact decide_eq_false fun hNot => hNot rfl
  unfold docppline
  dsimp only
  rw [hNumber, (dropWhile_append_stop hNum hBehind).1, (dropWhile_append_stop hWhite' hRest).1,
    if_neg (fun hNot => hNot rfl), List.tail_cons, hClose, if_neg]
  · exact ⟨_, rfl⟩
  · simp [more]

theorem Reads.cppline {line : List Char} (h : Reads s ('#' :: line ++ ['\n'] ++ text))
    (hRest : s.rest = []) (hNew : '\n' ∉ line) (hCpp : IsCppline line) :
    ∃ s', toToken false s = toToken false s' ∧ Reads s' text ∧ s'.rest = [] ∧ Moved s s' := by
  have hText : '#' :: line ++ ['\n'] ++ text = ('#' :: line) ++ '\n' :: text := by simp
  rw [hText] at h
  have hLong : '\n' ∉ '#' :: line := by
    rw [List.mem_cons, not_or]
    exact ⟨by decide, hNew⟩
  have hFin := h.eq_fin hRest
  have hSome : s.fin ≠ [] := hFin ▸ List.cons_ne_nil _ _
  have hRead := size_read hSome
  obtain ⟨hLine, hLeft⟩ := h.line_eq hRest hLong
  let s₁ : Scanner :=
    { s with fin := (fgets (maxLineSize - 1) s.fin).2, rest := [], linenum := s.linenum + 1 }
  obtain ⟨s', hOk⟩ := docppline_of_isCppline hCpp s₁
  obtain ⟨hNothing, hLater, hFout, hPushed⟩ := docppline_same hOk
  refine ⟨s', ?_, h.afterLine hRest hLong hNothing hLater, hNothing, ⟨hFout, hPushed⟩⟩
  rw [toToken, blanks, hRest]
  dsimp only
  rw [if_neg hSome, h.curline, if_neg Bool.false_ne_true, hLine, if_pos (by rfl), hOk]
  refine blanks_eq_toToken ?_
  rw [size, size, hRest, hNothing, hLater]
  simp only [s₁, List.length_nil]
  omega

end Scanner

/-! ### One token -/

section Tokens

variable {tok : Token} {text rest : List Char} {c : Char}

/-- What a token begins with. -/
structure TokenHead (c : Char) : Prop where
  white : isspace c = false
  comment : c ≠ '/'
  line : c ≠ '#' ∧ c ≠ '%'

theorem lookup_eq_none {p : Char → Bool} (h : p c = true)
    (hNot : ∀ e ∈ punctuation, p e.1 = false) : punctuation.lookup c = none := by
  rw [List.lookup_eq_none_iff]
  intro e he
  rw [bne_iff_ne]
  rintro rfl
  rw [hNot e he] at h
  cases h

theorem isAlpha_eq (c : Char) : c.isAlpha = (c.isUpper || c.isLower) := rfl

theorem isUpper_eq (c : Char) : c.isUpper = decide (c.val ≥ 'A'.val ∧ c.val ≤ 'Z'.val) :=
  rfl

theorem isLower_eq (c : Char) : c.isLower = (c.val ≥ 'a'.val && c.val ≤ 'z'.val) :=
  rfl

/-- A letter is in one of two ranges. -/
theorem toNat_of_isAlpha (h : c.isAlpha = true) :
    65 ≤ c.toNat ∧ c.toNat ≤ 90 ∨ 97 ≤ c.toNat ∧ c.toNat ≤ 122 := by
  rw [isAlpha_eq, Bool.or_eq_true, isUpper_eq, isLower_eq, decide_eq_true_eq,
    Bool.and_eq_true, decide_eq_true_eq, decide_eq_true_eq] at h
  exact h

theorem isspace_eq_false (h : 32 < c.toNat) : isspace c = false := by
  rw [isspace, decide_eq_false_iff_not]
  rintro (rfl | hWhite)
  · exact absurd h (by decide)
  · omega

/-- The beginning of a name. -/
theorem nameHead (h : c.isAlpha = true ∨ c = '_') : TokenHead c ∧ punctuation.lookup c = none ∧
    c ≠ doubleQuote ∧ c ≠ singleQuote ∧ c ≠ '-' ∧ c.isDigit = false := by
  have hRange : 65 ≤ c.toNat := by
    rcases h with hAlpha | rfl
    · rcases toNat_of_isAlpha hAlpha with hUpper | hLower <;> omega
    · decide
  have hDigit : c.isDigit = false := by
    rw [Char.isDigit, Bool.and_eq_false_iff]
    refine Or.inr (decide_eq_false fun hLe => ?_)
    have hSmall : c.toNat ≤ 57 := hLe
    omega
  have hNone : punctuation.lookup c = none := by
    rcases h with hAlpha | rfl
    · exact lookup_eq_none hAlpha (by decide)
    · decide
  refine ⟨⟨isspace_eq_false (by omega), ?_, ?_, ?_⟩, hNone, ?_, ?_, ?_, hDigit⟩
  all_goals
    rintro rfl
    exact absurd hRange (by decide)

/-- The beginning of a number. -/
theorem numberHead (h : c.isDigit = true ∨ c = '-') : TokenHead c ∧
    punctuation.lookup c = none ∧ c ≠ doubleQuote ∧ c ≠ singleQuote := by
  have hRange : 45 ≤ c.toNat ∧ c ≠ '/' := by
    rcases h with hDigit | rfl
    · rw [Char.isDigit, Bool.and_eq_true, decide_eq_true_eq, decide_eq_true_eq] at hDigit
      have hLow : 48 ≤ c.toNat := hDigit.1
      refine ⟨by omega, ?_⟩
      rintro rfl
      exact absurd hLow (by decide)
    · decide
  have hNone : punctuation.lookup c = none := by
    rcases h with hDigit | rfl
    · exact lookup_eq_none hDigit (by decide)
    · decide
  refine ⟨⟨isspace_eq_false (by omega), hRange.2, ?_, ?_⟩, hNone, ?_, ?_⟩
  all_goals
    rintro rfl
    exact absurd hRange.1 (by decide)

theorem isname_of_head (h : c.isAlpha = true ∨ c = '_') : isname c = true := by
  rw [isname, Char.isAlphanum, Bool.or_eq_true, Bool.or_eq_true, beq_iff_eq]
  exact h.imp_left Or.inl

/-- A name is the symbol that is spelled like it, if there is one. -/
theorem matchesSymbol_iff {word : List Char} (hWord : ∀ c ∈ word, isname c = true)
    (hStop : ∀ c ∈ rest.head?, isname c = false) {s : Token}
    (hSymbol : ∀ c ∈ s.str.toList, isname c = true) :
    matchesSymbol (word ++ rest) s = decide (s.str.toList = word) := by
  rw [Bool.eq_iff_iff, decide_eq_true_eq, matchesSymbol, Bool.and_eq_true,
    List.isPrefixOf_iff_prefix, Bool.not_eq_true', Option.any_eq_false]
  constructor
  · rintro ⟨⟨more, hMore⟩, hEnd⟩
    rw [← hMore, List.drop_left] at hEnd
    -- The one that is shorter would go on with the other.
    rcases List.append_eq_append_iff.mp hMore with ⟨as, rfl, hRest⟩ | ⟨as, hSym, hRest⟩
    · cases as with
      | nil => exact (List.append_nil _).symm
      | cons a as =>
          rw [hRest] at hEnd
          have hName := hWord a (by simp)
          rw [hEnd a rfl] at hName
          cases hName
    · cases as with
      | nil => exact hSym.trans (List.append_nil _)
      | cons a as =>
          have hName := hSymbol a (by rw [hSym]; simp)
          rw [hStop a (by rw [hRest]; rfl)] at hName
          cases hName
  · rintro rfl
    refine ⟨List.prefix_append _ _, ?_⟩
    rw [List.drop_left]
    exact hStop

/-- The symbols are names, each of them once. -/
theorem symbols_spelled : (∀ s ∈ symbols, ∀ c ∈ s.str.toList, isname c = true) ∧
    (∀ s ∈ symbols, ∃ c cs, s.str.toList = c :: cs ∧ (c.isAlpha = true ∨ c = '_')) ∧
    ∀ s ∈ symbols, symbols.find? (fun s' => s'.str.toList = s.str.toList) = some s := by
  have hNames : ∀ s ∈ symbols, s.str.toList.all isname = true := by decide
  have hFirst : ∀ s ∈ symbols, s.str.toList.head?.any Char.isAlpha = true := by decide
  refine ⟨fun s hs => List.all_eq_true.mp (hNames s hs), fun s hs => ?_, by decide⟩
  obtain ⟨c, hHead, hAlpha⟩ := (Option.any_eq_true _ _).mp (hFirst s hs)
  obtain ⟨cs, hList⟩ := List.head?_eq_some_iff.mp hHead
  exact ⟨c, cs, hList, Or.inl hAlpha⟩

theorem find_matchesSymbol {word : List Char} (hWord : ∀ c ∈ word, isname c = true)
    (hStop : ∀ c ∈ rest.head?, isname c = false) :
    symbols.find? (matchesSymbol (word ++ rest)) =
      symbols.find? (fun s => s.str.toList = word) := by
  refine find_congr fun s hs => ?_
  exact matchesSymbol_iff hWord hStop (symbols_spelled.1 s hs)

/-- A name ends where it does not merge with what follows. -/
theorem stop_of_name (hFirst : c.isAlpha = true ∨ c = '_') {cs : List Char}
    (hStop : ∀ d ∈ rest.head?, merges (c :: cs) d = false) :
    ∀ d ∈ rest.head?, isname d = false := by
  intro d hd
  have hEnd := hStop d hd
  obtain ⟨-, -, -, -, hMinus, hDigit⟩ := nameHead hFirst
  have hMerges : merges (c :: cs) d = ((c.isAlpha || c == '_') && isname d) := by
    unfold merges
    split
    · next hZero =>
        obtain ⟨rfl, -⟩ := List.cons.inj hZero
        exact absurd hDigit (by decide)
    · next hHead =>
        obtain ⟨rfl, rfl⟩ := List.cons.inj hHead
        rw [hDigit, Bool.false_or, if_neg (by simpa using hMinus)]
    · next hNil => cases hNil
  have hIs : (c.isAlpha || c == '_') = true := by
    rw [Bool.or_eq_true, beq_iff_eq]
    exact hFirst
  rw [hMerges, hIs, Bool.true_and] at hEnd
  exact hEnd

theorem scanToken_name (hFirst : c.isAlpha = true ∨ c = '_') (str : List Char) :
    scanToken (c :: str) = .ok (findkind (c :: str)) := by
  obtain ⟨-, hNone, hDouble, hSingle, hMinus, hDigit⟩ := nameHead hFirst
  rw [scanToken, hNone]
  dsimp only
  rw [if_neg hDouble, if_neg hSingle, if_neg (not_or.mpr ⟨hMinus, by rw [hDigit]; decide⟩),
    if_pos hFirst]

theorem scanToken_number (hFirst : c.isDigit = true ∨ c = '-') (str : List Char) :
    scanToken (c :: str) = .ok (findconst (c :: str)) := by
  obtain ⟨-, hNone, hDouble, hSingle⟩ := numberHead hFirst
  rw [scanToken, hNone]
  dsimp only
  rw [if_neg hDouble, if_neg hSingle, if_pos hFirst.symm]

/-- The decimal digits of a number behind its first character. -/
theorem findconst_decimal {d : Char} {ds : List Char} (hHex : ¬ ['0', 'x'] <+: d :: ds ++ rest)
    (hDigits : ∀ c ∈ ds, c.isDigit = true) (hStop : ∀ c ∈ rest.head?, c.isDigit = false) :
    findconst (d :: ds ++ rest) = (⟨.ident, String.ofList (d :: ds)⟩, rest) := by
  have hTake := (dropWhile_append_stop hDigits hStop).2
  have hNot : ¬ ['0', 'x'].isPrefixOf (d :: ds ++ rest) = true := by
    rw [List.isPrefixOf_iff_prefix]
    exact hHex
  have hSize : 1 + ds.length = (d :: ds).length := by
    rw [List.length_cons]
    omega
  rw [findconst, if_neg hNot, List.cons_append, List.tail_cons, hTake, hSize, ← List.cons_append,
    List.take_left, List.drop_left]

theorem findconst_hexadecimal {ds : List Char} (hDigits : ∀ c ∈ ds, isxdigit c = true)
    (hStop : ∀ c ∈ rest.head?, isxdigit c = false) :
    findconst ('0' :: 'x' :: ds ++ rest) =
      (⟨.ident, String.ofList ('0' :: 'x' :: ds)⟩, rest) := by
  have hTake := (dropWhile_append_stop hDigits hStop).2
  have hIs : ['0', 'x'].isPrefixOf ('0' :: 'x' :: ds ++ rest) = true := by
    rw [List.isPrefixOf_iff_prefix]
    exact ⟨ds ++ rest, rfl⟩
  have hDrop : ('0' :: 'x' :: ds ++ rest).drop 2 = ds ++ rest := rfl
  have hSize : 2 + ds.length = ('0' :: 'x' :: ds).length := by
    rw [List.length_cons, List.length_cons]
    omega
  rw [findconst, if_pos hIs, hDrop, hTake, hSize, List.take_left, List.drop_left]

theorem findQuote_append {quote : Char} {body : List Char} (hBody : ∀ c ∈ body, c ≠ quote) :
    findQuote quote (body ++ quote :: rest) = .ok (quote :: body ++ [quote], rest) := by
  have hTake : (body ++ quote :: rest).takeWhile (· ≠ quote) = body := by
    refine (dropWhile_append_stop (fun c hc => decide_eq_true (hBody c hc)) fun c hc => ?_).2
    obtain rfl := Option.some.inj hc
    exact decide_eq_false fun hNot => hNot rfl
  rw [findQuote, hTake, List.drop_left]

/-- What a decimal number merges with. -/
theorem merges_number {d : Char} {ds : List Char} (hDigit : d.isDigit = true ∨ d = '-')
    (hNext : ds.head? ≠ some 'x') (c : Char) :
    merges (d :: ds) c = (c.isDigit || (d == '0' && ds.isEmpty && c == 'x')) := by
  have hIs : (d.isDigit || d == '-') = true := by
    rw [Bool.or_eq_true, beq_iff_eq]
    exact hDigit
  unfold merges
  split
  · next hZero =>
      obtain ⟨-, rfl⟩ := List.cons.inj hZero
      exact absurd rfl hNext
  · next hHead =>
      obtain ⟨rfl, rfl⟩ := List.cons.inj hHead
      rw [if_pos hIs]
  · next hNil => cases hNil

/-- What the characters of a token are. -/
theorem IsToken.head (h : IsToken tok text) :
    ∃ c cs, text = c :: cs ∧ TokenHead c ∧ '\n' ∉ text := by
  have hNewline : ∀ {cs : List Char} {p : Char → Bool}, (∀ c ∈ cs, p c = true) → p '\n' = false →
      '\n' ∉ cs := by
    intro cs p hAll hNot hMem
    rw [hAll _ hMem] at hNot
    cases hNot
  cases h with
  | @punctuation c kind h =>
      have hAll : ∀ e ∈ OncRpc.Rpcgen.punctuation, isspace e.1 = false ∧ e.1 ≠ '/' ∧ e.1 ≠ '#' ∧
          e.1 ≠ '%' ∧ '\n' ∉ [e.1] := by decide
      obtain ⟨hWhite, hSlash, hHash, hPercent, hNew⟩ := hAll _ h
      exact ⟨c, [], rfl, ⟨hWhite, hSlash, hHash, hPercent⟩, hNew⟩
  | keyword h =>
      obtain ⟨c, cs, hList, hFirst⟩ := symbols_spelled.2.1 _ h
      exact ⟨c, cs, hList, (nameHead hFirst).1, hNewline (symbols_spelled.1 _ h) (by decide)⟩
  | @identifier c cs hFirst hRest hNew =>
      have hAll : ∀ d ∈ c :: cs, isname d = true := by
        intro d hd
        rcases List.mem_cons.mp hd with rfl | hd
        · exact isname_of_head hFirst
        · exact hRest d hd
      exact ⟨c, cs, rfl, (nameHead hFirst).1, hNewline hAll (by decide)⟩
  | @decimal minus d ds hDigits =>
      have hNew := hNewline hDigits (by decide)
      cases minus with
      | false => exact ⟨d, ds, rfl, (numberHead (Or.inl (hDigits d List.mem_cons_self))).1, hNew⟩
      | true =>
          refine ⟨'-', d :: ds, rfl, (numberHead (Or.inr rfl)).1, ?_⟩
          show '\n' ∉ '-' :: d :: ds
          rw [List.mem_cons, not_or]
          exact ⟨by decide, hNew⟩
  | @hexadecimal ds hDigits =>
      refine ⟨'0', 'x' :: ds, rfl, (numberHead (Or.inl (by decide))).1, ?_⟩
      rw [List.mem_cons, List.mem_cons, not_or, not_or]
      exact ⟨by decide, by decide, hNewline hDigits (by decide)⟩
  | @strconst body hBody =>
      refine ⟨doubleQuote, body ++ [doubleQuote], rfl, ⟨by decide, by decide, by decide⟩, ?_⟩
      intro hMem
      rcases List.mem_append.mp hMem with hFirst | hLast
      · rcases List.mem_cons.mp hFirst with hQuote | hIn
        · exact absurd hQuote (by decide)
        · exact (hBody _ hIn).2 rfl
      · exact absurd hLast (by decide)
  | @charconst c hChar =>
      refine ⟨singleQuote, [c, singleQuote], rfl, ⟨by decide, by decide, by decide⟩, ?_⟩
      rw [List.mem_cons, List.mem_cons, not_or, not_or]
      exact ⟨by decide, Ne.symm hChar.2, by decide⟩

/-- A token is found as it is written, where what follows does not merge with it. -/
theorem scanToken_isToken (h : IsToken tok text) (hStop : ∀ c ∈ rest.head?, merges text c = false) :
    scanToken (text ++ rest) = .ok (tok, rest) := by
  cases h with
  | @punctuation c kind h =>
      have hAll : ∀ e ∈ OncRpc.Rpcgen.punctuation,
          OncRpc.Rpcgen.punctuation.lookup e.1 = some e.2 := by decide
      rw [List.cons_append, scanToken, hAll _ h]
      rfl
  | keyword h =>
      obtain ⟨c, cs, hList, hFirst⟩ := symbols_spelled.2.1 _ h
      have hWord := symbols_spelled.1 _ h
      have hEnd := stop_of_name hFirst (hList ▸ hStop)
      have hFind := (find_matchesSymbol hWord hEnd).trans (symbols_spelled.2.2 _ h)
      rw [hList, List.cons_append, scanToken_name hFirst, ← List.cons_append, ← hList, findkind,
        hFind]
      dsimp only
      rw [List.drop_left]
  | @identifier c cs hFirst hRest hNew =>
      have hWord : ∀ d ∈ c :: cs, isname d = true := by
        intro d hd
        rcases List.mem_cons.mp hd with rfl | hd
        · exact isname_of_head hFirst
        · exact hRest d hd
      have hEnd := stop_of_name hFirst hStop
      have hFind : symbols.find? (matchesSymbol (c :: cs ++ rest)) = none := by
        rw [find_matchesSymbol hWord hEnd, List.find?_eq_none]
        exact fun s hs => by simpa using hNew s hs
      rw [List.cons_append, scanToken_name hFirst, ← List.cons_append, findkind, hFind]
      dsimp only
      rw [(dropWhile_append_stop hWord hEnd).2, List.take_left, List.drop_left]
  | @decimal minus d ds hDigits =>
      have hDigit := hDigits d List.mem_cons_self
      have hNext : ∀ {cs : List Char}, (∀ c ∈ cs, c.isDigit = true) → cs.head? ≠ some 'x' := by
        intro cs hAll hHead
        obtain ⟨cs', rfl⟩ := List.head?_eq_some_iff.mp hHead
        exact absurd (hAll 'x' List.mem_cons_self) (by decide)
      have hRest : ∀ c ∈ ds, c.isDigit = true := fun c hc => hDigits c (List.mem_cons_of_mem _ hc)
      cases minus with
      | false =>
          have hEnd : ∀ c ∈ rest.head?, c.isDigit = false ∧
              (d == '0' && ds.isEmpty && c == 'x') = false := by
            intro c hc
            rw [← Bool.or_eq_false_iff, ← merges_number (Or.inl hDigit) (hNext hRest)]
            exact hStop c hc
          have hHex : ¬ ['0', 'x'] <+: d :: ds ++ rest := by
            rintro ⟨more, hMore⟩
            obtain ⟨rfl, hX⟩ := List.cons.inj hMore
            cases ds with
            | nil =>
                have hX' : 'x' :: more = rest := hX
                exact absurd (hEnd 'x' (by rw [← hX']; rfl)).2 (by decide)
            | cons e ds =>
                obtain ⟨rfl, -⟩ := List.cons.inj hX
                exact hNext hRest rfl
          show scanToken (d :: ds ++ rest) = .ok (⟨.ident, String.ofList (d :: ds)⟩, rest)
          rw [List.cons_append, scanToken_number (Or.inl hDigit), ← List.cons_append,
            findconst_decimal hHex hRest fun c hc => (hEnd c hc).1]
      | true =>
          have hEnd : ∀ c ∈ rest.head?, c.isDigit = false := by
            intro c hc
            have hMerge : merges ('-' :: d :: ds) c = false := hStop c hc
            rw [merges_number (Or.inr rfl) (hNext hDigits), Bool.or_eq_false_iff] at hMerge
            exact hMerge.1
          have hHex : ¬ ['0', 'x'] <+: '-' :: (d :: ds) ++ rest := by
            rintro ⟨more, hMore⟩
            exact absurd (List.cons.inj hMore).1 (by decide)
          show scanToken ('-' :: (d :: ds) ++ rest) =
            .ok (⟨.ident, String.ofList ('-' :: d :: ds)⟩, rest)
          rw [List.cons_append, scanToken_number (Or.inr rfl), ← List.cons_append,
            findconst_decimal hHex hDigits hEnd]
  | @hexadecimal ds hDigits =>
      have hEnd : ∀ c ∈ rest.head?, isxdigit c = false := hStop
      rw [List.cons_append, scanToken_number (Or.inl (by decide)), ← List.cons_append,
        findconst_hexadecimal hDigits hEnd]
  | @strconst body hBody =>
      have hQuote : OncRpc.Rpcgen.punctuation.lookup doubleQuote = none := by decide
      rw [List.append_assoc, List.cons_append, scanToken, hQuote]
      dsimp only
      rw [if_pos rfl, findstrconst, List.singleton_append,
        findQuote_append fun c hc => (hBody c hc).1]
      rfl
  | @charconst c hChar =>
      have hQuote : OncRpc.Rpcgen.punctuation.lookup singleQuote = none := by decide
      have hBody : ∀ d ∈ [c], d ≠ singleQuote := by
        intro d hd
        obtain rfl := List.mem_singleton.mp hd
        exact hChar.1
      have hText : [singleQuote, c, singleQuote] ++ rest =
          singleQuote :: ([c] ++ singleQuote :: rest) := rfl
      rw [hText, scanToken, hQuote]
      dsimp only
      rw [if_neg (by decide), if_pos rfl, findchrconst, findQuote_append hBody]
      rfl

/-- Only the characters of names merge with anything. -/
theorem merges_of_not_isname (h : isname c = false) (text : List Char) : merges text c = false := by
  rw [isname, Char.isAlphanum, Bool.or_eq_false_iff, Bool.or_eq_false_iff] at h
  obtain ⟨⟨hAlpha, hDigit⟩, hUnderscore⟩ := h
  have hx : ¬ c = 'x' := by
    rintro rfl
    exact absurd hAlpha (by decide)
  have hLower : ¬ ('a' ≤ c ∧ c ≤ 'f') := by
    rintro ⟨hLow, hHigh⟩
    have hIs : c.isAlpha = true := by
      rw [isAlpha_eq, isLower_eq, Bool.or_eq_true, Bool.and_eq_true, decide_eq_true_eq,
        decide_eq_true_eq]
      exact Or.inr ⟨hLow, Char.le_trans hHigh (by decide)⟩
    rw [hIs] at hAlpha
    cases hAlpha
  have hUpper : ¬ ('A' ≤ c ∧ c ≤ 'F') := by
    rintro ⟨hLow, hHigh⟩
    have hIs : c.isAlpha = true := by
      rw [isAlpha_eq, isUpper_eq, Bool.or_eq_true, decide_eq_true_eq]
      exact Or.inl ⟨hLow, Char.le_trans hHigh (by decide)⟩
    rw [hIs] at hAlpha
    cases hAlpha
  unfold merges
  split
  · rw [isxdigit, hDigit, decide_eq_false hLower, decide_eq_false hUpper]
    rfl
  · split
    · rw [hDigit, beq_eq_false_iff_ne.mpr hx, Bool.and_false, Bool.or_false]
    · rw [isname, Char.isAlphanum, hAlpha, hDigit, hUnderscore]
      exact Bool.and_false _
  · rfl

/-- A token is not the end of the file. -/
theorem IsToken.ne_eof (h : IsToken tok text) : tok ≠ eofToken := by
  cases h with
  | @punctuation c kind h =>
      have hAll : ∀ e ∈ OncRpc.Rpcgen.punctuation, Token.mk e.2 "" ≠ eofToken := by decide
      exact hAll _ h
  | keyword h =>
      have hAll : ∀ s ∈ symbols, s ≠ eofToken := by decide
      exact hAll _ h
  | _ =>
      intro hEof
      cases congrArg Token.kind hEof

namespace LayoutPiece

variable {ps : List LayoutPiece}

theorem not_isname_of_isspace (h : isspace c = true) : isname c = false := by
  have hSmall : c.toNat ≤ 32 := by
    rw [isspace, decide_eq_true_eq] at h
    rcases h with rfl | hRange
    · decide
    · omega
  rw [← Bool.not_eq_true]
  intro hName
  rw [isname, Char.isAlphanum, Bool.or_eq_true, Bool.or_eq_true, beq_iff_eq] at hName
  rcases hName with (hAlpha | hDigit) | rfl
  · rcases toNat_of_isAlpha hAlpha with hUpper | hLower <;> omega
  · rw [Char.isDigit, Bool.and_eq_true, decide_eq_true_eq] at hDigit
    have hLow : 48 ≤ c.toNat := hDigit.1
    omega
  · exact absurd hSmall (by decide)

/-- What follows a token does not merge with it. -/
theorem Laid.stop (h : Laid false text ps) :
    ∀ c ∈ (ps.flatMap LayoutPiece.text).head?, merges text c = false := by
  intro c hc
  cases ps with
  | nil => cases hc
  | cons p ps =>
      cases p with
      | white d =>
          obtain rfl := Option.some.inj hc
          exact merges_of_not_isname (not_isname_of_isspace h.1) _
      | comment body =>
          obtain rfl := Option.some.inj hc
          exact merges_of_not_isname (by decide) _
      | token tok text' =>
          obtain ⟨d, ds, rfl, -⟩ := h.1.head
          exact h.2.1 c hc
      | directive line => exact absurd h.1 Bool.false_ne_true
      | cppline line => exact absurd h.1 Bool.false_ne_true

theorem Laid.eof_notMem {atStart : Bool} {behind : List Char} (h : Laid atStart behind ps) :
    eofToken ∉ tokens ps := by
  induction ps generalizing atStart behind with
  | nil => exact List.not_mem_nil
  | cons p ps ih =>
      cases p with
      | white c => exact ih h.2
      | comment body => exact ih h.2
      | token tok text =>
          rw [tokens, List.mem_cons, not_or]
          exact ⟨Ne.symm h.1.ne_eof, ih h.2.2⟩
      | directive line => exact ih h.2.2
      | cppline line => exact ih h.2.2.2

end LayoutPiece

end Tokens

/-! ### A call -/

namespace Scanner

open LayoutPiece

/-- The scanner is before these pieces, behind a token or not, and `out` is what there is to be
printed for the file. -/
structure Stands (out : List Char) (s : Scanner) (ps : List LayoutPiece) : Prop where
  pushed : s.pushed = none
  reads : s.Reads (ps.flatMap LayoutPiece.text)
  laid : ∃ atStart behind, Laid atStart behind ps ∧ (atStart = true → s.rest = [])
  printed : s.fout ++ printed ps = out

variable {out : List Char} {s : Scanner} {ps : List LayoutPiece}

/-- A piece that is not a token is passed. -/
theorem Stands.pass {p : LayoutPiece} (h : Stands out s (p :: ps))
    (hNot : ∀ tok text, p ≠ token tok text) :
    ∃ s', toToken false s = toToken false s' ∧ Stands out s' ps ∧ s.fout <+: s'.fout := by
  have hReads : s.Reads (p.text ++ ps.flatMap LayoutPiece.text) := h.reads
  have hPrinted := h.printed
  obtain ⟨atStart, behind, hLaid, hStart⟩ := h.laid
  cases p with
  | white c =>
      obtain ⟨s', hSame, hMoved, hReads', hLine⟩ := hReads.white hLaid.1
      exact ⟨s', hSame,
        ⟨hMoved.pushed.trans h.pushed, hReads',
          ⟨_, _, hLaid.2, fun hNew => hLine (of_decide_eq_true hNew)⟩, hMoved.fout ▸ hPrinted⟩,
        hMoved.fout ▸ List.prefix_rfl⟩
  | comment body =>
      obtain ⟨s', hSame, hMoved, hReads'⟩ := hReads.comment hLaid.1
      exact ⟨s', hSame,
        ⟨hMoved.pushed.trans h.pushed, hReads', ⟨_, _, hLaid.2, fun hNot => nomatch hNot⟩,
          hMoved.fout ▸ hPrinted⟩,
        hMoved.fout ▸ List.prefix_rfl⟩
  | token tok text => exact absurd rfl (hNot tok text)
  | directive line =>
      obtain ⟨s', hSame, hReads', hRest, hFout, hPushed⟩ :=
        hReads.directive (hStart hLaid.1) hLaid.2.1
      refine ⟨s', hSame,
        ⟨hPushed.trans h.pushed, hReads', ⟨_, _, hLaid.2.2, fun _ => hRest⟩, ?_⟩,
        ⟨line ++ ['\n'], hFout.symm⟩⟩
      rw [hFout, ← hPrinted, LayoutPiece.printed]
      simp
  | cppline line =>
      obtain ⟨s', hSame, hReads', hRest, hMoved⟩ :=
        hReads.cppline (hStart hLaid.1) hLaid.2.1 hLaid.2.2.1
      exact ⟨s', hSame,
        ⟨hMoved.pushed.trans h.pushed, hReads', ⟨_, _, hLaid.2.2.2, fun _ => hRest⟩,
          hMoved.fout ▸ hPrinted⟩,
        hMoved.fout ▸ List.prefix_rfl⟩

/-- A token is found once the loop is before it. -/
theorem Stands.token {tok : Token} {text : List Char}
    (h : Stands out s (token tok text :: ps)) :
    ∃ s₁ rest, toToken false s = .ok s₁ ∧ scanToken s₁.rest = .ok (tok, rest) ∧
      Stands out { s₁ with rest } ps ∧ s₁.fout = s.fout := by
  have hReads : s.Reads (text ++ ps.flatMap LayoutPiece.text) := h.reads
  obtain ⟨atStart, behind, ⟨hToken, -, hLaid⟩, -⟩ := h.laid
  obtain ⟨c, cs, rfl, hHead, hNew⟩ := hToken.head
  obtain ⟨s₁, line, hSame, hMoved, hReads₁, hLine⟩ := hReads.fetch (Or.inr hHead.line)
  have hSome : s₁.rest ≠ [] := hLine ▸ List.cons_ne_nil _ _
  obtain ⟨rest, hSplit, hLeft, hOn, -⟩ := hReads₁.line.exists_append hSome hNew hReads₁.text
  have hStop : ∀ d ∈ rest.head?, merges (c :: cs) d = false := by
    intro d hd
    obtain ⟨more, rfl⟩ := List.head?_eq_some_iff.mp hd
    exact hLaid.stop d (by rw [← hLeft]; rfl)
  refine ⟨s₁, rest, hSame.trans (toToken_stop hLine hHead.white hHead.comment), ?_, ?_,
    hMoved.fout⟩
  · rw [hSplit]
    exact scanToken_isToken hToken hStop
  · exact ⟨hMoved.pushed.trans h.pushed, ⟨hLeft, hOn, hReads₁.fits, hReads₁.plain⟩,
      ⟨_, _, hLaid, fun hNot => nomatch hNot⟩, hMoved.fout ▸ h.printed⟩

theorem getToken_congr {s' : Scanner} (h : s.pushed = none) (h' : s'.pushed = none)
    (hSame : toToken false s = toToken false s') : s.getToken = s'.getToken := by
  rw [getToken, getToken, h, h']
  change toToken false s >>= _ = toToken false s' >>= _
  rw [hSame]

/-- The next token is the next one of the layout, or the end of the file. -/
theorem Stands.getToken (h : Stands out s ps) :
    ∃ s' ps', s.getToken = .ok ((tokens ps).headD eofToken, s') ∧ Stands out s' ps' ∧
      tokens ps' = (tokens ps).tail ∧ s.fout <+: s'.fout ∧ (tokens ps = [] → s'.fout = out) := by
  induction ps generalizing s with
  | nil =>
      obtain ⟨hRest, hFin⟩ := List.append_eq_nil_iff.mp h.reads.text
      have hSame : { s with rest := [] } = s := by rw [← hRest]
      have hEof : toToken false s = .ok s := toToken_eof hRest hFin
      have hFout : s.fout = out := by rw [← h.printed]; exact (List.append_nil _).symm
      refine ⟨s, [], ?_, h, rfl, List.prefix_rfl, fun _ => hFout⟩
      rw [Scanner.getToken, h.pushed]
      change (toToken false s >>= _) = _
      rw [hEof]
      change (scanToken s.rest >>= _) = _
      rw [hRest]
      exact congrArg (fun s => Except.ok (eofToken, s)) hSame
  | cons p ps ih =>
      by_cases hToken : ∃ tok text, p = LayoutPiece.token tok text
      · obtain ⟨tok, text, rfl⟩ := hToken
        obtain ⟨s₁, rest, hStop, hScan, hStands, hFout⟩ := h.token
        refine ⟨{ s₁ with rest }, ps, ?_, hStands, rfl, hFout ▸ List.prefix_rfl,
          fun hNone => absurd hNone (List.cons_ne_nil _ _)⟩
        rw [Scanner.getToken, h.pushed]
        change (toToken false s >>= _) = _
        rw [hStop]
        change (scanToken s₁.rest >>= _) = _
        rw [hScan]
        rfl
      · have hNot : ∀ tok text, p ≠ LayoutPiece.token tok text :=
          fun tok text hIs => hToken ⟨tok, text, hIs⟩
        have hTokens : tokens (p :: ps) = tokens ps := by
          cases p with
          | token tok text => exact absurd rfl (hNot tok text)
          | _ => rfl
        obtain ⟨s₁, hSame, hStands, hFout⟩ := h.pass hNot
        obtain ⟨s', ps', hGet, hStands', hLeft, hFout', hEnd⟩ := ih hStands
        rw [hTokens, getToken_congr h.pushed hStands.pushed hSame]
        exact ⟨s', ps', hGet, hStands', hLeft, hFout.trans hFout', hEnd⟩

/-- The tokens that are left, of which the first one may have been pushed back. -/
inductive Ready (out : List Char) : List Token → Scanner → Prop where
  | scanned {s : Scanner} {ps : List LayoutPiece} (h : Stands out s ps) : Ready out (tokens ps) s
  | pushed {s : Scanner} {ps : List LayoutPiece} {toks : List Token} (h : Stands out s ps)
      (hLeft : tokens ps = toks.tail) (hEnd : toks = [] → s.fout = out) :
      Ready out toks (s.ungetToken (toks.headD eofToken))

variable {toks : List Token}

/-- A token that is pushed back is the next one. -/
theorem getToken_ungetToken (h : s.pushed = none) (tok : Token) :
    (s.ungetToken tok).getToken = .ok (tok, s) := by
  have hSame : { s with pushed := none } = s := by rw [← h]
  exact congrArg (fun s => Except.ok (tok, s)) hSame

theorem Ready.getToken (h : Ready out toks s) :
    ∃ s' ps, s.getToken = .ok (toks.headD eofToken, s') ∧ Stands out s' ps ∧
      tokens ps = toks.tail ∧ s.fout <+: s'.fout ∧ (toks = [] → s'.fout = out) := by
  cases h with
  | scanned h => exact h.getToken
  | @pushed s ps toks h hLeft hEnd =>
      exact ⟨s, ps, getToken_ungetToken h.pushed _, h, hLeft, List.prefix_rfl, hEnd⟩

theorem Ready.fout_prefix (h : Ready out toks s) : s.fout <+: out := by
  cases h with
  | scanned h => exact ⟨_, h.printed⟩
  | pushed h hLeft hEnd => exact ⟨_, h.printed⟩

/-- What a call does to the tokens that are left. -/
theorem Ready.call (h : Ready out toks s) (c : ScanCall) :
    ∃ s', s.call c = .ok ((answerFrom toks c).1, s') ∧ Ready out (answerFrom toks c).2 s' ∧
      s.fout <+: s'.fout ∧ (toks = [] → s'.fout = out) := by
  obtain ⟨s', ps, hGet, hStands, hLeft, hFout, hEnd⟩ := h.getToken
  have hPeek : s.peek = .ok (toks.headD eofToken, s'.ungetToken (toks.headD eofToken)) := by
    rw [peek, hGet]
    rfl
  have hAgain := getToken_ungetToken hStands.pushed (toks.headD eofToken)
  have hBack : Ready out toks (s'.ungetToken (toks.headD eofToken)) :=
    Ready.pushed hStands hLeft hEnd
  have hTaken : Ready out toks.tail s' := hLeft ▸ Ready.scanned hStands
  cases c with
  | getToken =>
      refine ⟨s', ?_, hTaken, hFout, hEnd⟩
      rw [Scanner.call, hGet]
      rfl
  | peek =>
      refine ⟨_, ?_, hBack, hFout, hEnd⟩
      rw [Scanner.call, hPeek]
      rfl
  | peekscan expect =>
      rw [Scanner.call, peekscan, hPeek, answerFrom]
      by_cases hKind : (toks.headD eofToken).kind = expect
      · refine ⟨s', ?_, ?_, hFout, hEnd⟩
        · rw [if_pos hKind]
          change (if (toks.headD eofToken).kind = expect then _ else _) = _
          rw [if_pos hKind, hAgain]
          rfl
        · rw [if_pos hKind]
          exact hTaken
      · refine ⟨s'.ungetToken (toks.headD eofToken), ?_, ?_, hFout, hEnd⟩
        · rw [if_neg hKind]
          change (if (toks.headD eofToken).kind = expect then _ else _) = _
          rw [if_neg hKind]
          rfl
        · rw [if_neg hKind]
          exact hBack

theorem answerFrom_token (toks : List Token) (c : ScanCall) :
    (answerFrom toks c).1.1 = toks.headD eofToken := by
  cases c with
  | peekscan expect =>
      rw [answerFrom]
      split <;> rfl
  | _ => rfl

theorem answerFrom_suffix (toks : List Token) (c : ScanCall) : (answerFrom toks c).2 <:+ toks := by
  cases c with
  | getToken => exact List.tail_suffix _
  | peek => exact List.suffix_rfl
  | peekscan expect =>
      rw [answerFrom]
      split
      · exact List.tail_suffix _
      · exact List.suffix_rfl

/-- The answers of a run, and what it has printed. -/
theorem Ready.calls (h : Ready out toks s) (hTokens : eofToken ∉ toks) (cs : List ScanCall) :
    ∃ s', s.calls cs = .ok (answersFrom toks cs, s') ∧ s.fout <+: s'.fout ∧ s'.fout <+: out ∧
      (eofToken ∈ (answersFrom toks cs).map Prod.fst → s'.fout = out) := by
  induction cs generalizing toks s with
  | nil =>
      exact ⟨s, rfl, List.prefix_rfl, h.fout_prefix, fun hNone => absurd hNone List.not_mem_nil⟩
  | cons c cs ih =>
      obtain ⟨s₁, hCall, hReady, hFirst, hEnd⟩ := h.call c
      have hLeft : eofToken ∉ (answerFrom toks c).2 :=
        fun hMem => hTokens ((answerFrom_suffix toks c).subset hMem)
      obtain ⟨s', hCalls, hFout, hOut, hLater⟩ := ih hReady hLeft
      refine ⟨s', ?_, hFirst.trans hFout, hOut, fun hEof => ?_⟩
      · rw [Scanner.calls, hCall]
        change ((s₁.calls cs >>= _) : Except Failure _) = _
        rw [hCalls]
        rfl
      · rw [answersFrom, List.map_cons, List.mem_cons, answerFrom_token] at hEof
        rcases hEof with hHead | hMem
        · -- At the end of the file all has been printed.
          have hNone : toks = [] := by
            cases toks with
            | nil => rfl
            | cons tok toks => exact absurd (hHead ▸ List.mem_cons_self) hTokens
          have hAll := hEnd hNone
          exact (hOut.eq_of_length_le (hAll ▸ hFout.length_le))
        · exact hLater hMem

end Scanner

/-! ### A file -/

/-- The tokens of a file are those it is laid out from, and then its end, however they are asked
for. Its `%` lines are printed in order, and all of them before the end of the file is told. -/
theorem calls_layout {ps : List LayoutPiece} (h : Layout ps) (cs : List ScanCall) :
    ∃ s, (Scanner.start (ps.flatMap LayoutPiece.text)).calls cs =
        .ok (answersFrom (LayoutPiece.tokens ps) cs, s) ∧
      s.fout <+: LayoutPiece.printed ps ∧
      (eofToken ∈ (answersFrom (LayoutPiece.tokens ps) cs).map Prod.fst →
        s.fout = LayoutPiece.printed ps) := by
  have hStands : (Scanner.start (ps.flatMap LayoutPiece.text)).Stands (LayoutPiece.printed ps) ps :=
    ⟨rfl, ⟨rfl, trivial, h.lines, h.plain⟩, ⟨true, [], h.laid, fun _ => rfl⟩, rfl⟩
  obtain ⟨s, hCalls, -, hOut, hEnd⟩ := (Scanner.Ready.scanned hStands).calls h.laid.eof_notMem cs
  exact ⟨s, hCalls, hOut, hEnd⟩

theorem calls_layout_const :
    ∃ s, (Scanner.start "%p\nconst/*\n*/n;".toList).calls
        [.peek, .getToken, .getToken, .peekscan .colon, .peekscan .semicolon, .getToken] =
        .ok ([(⟨.const, "const"⟩, false), (⟨.const, "const"⟩, true), (⟨.ident, "n"⟩, true),
          (⟨.semicolon, ""⟩, false), (⟨.semicolon, ""⟩, true), (eofToken, true)], s) ∧
      s.fout = "p\n".toList := by
  have hLayout : Layout [.directive ['p'], .token ⟨.const, "const"⟩ "const".toList,
      .comment ['\n'], .token ⟨.ident, "n"⟩ ['n'], .token ⟨.semicolon, ""⟩ [';']] := by
    refine ⟨⟨rfl, by decide, ?_, fun _ _ => rfl, ?_, ?_, fun _ _ => rfl, ?_, ?_, trivial⟩,
      by simp [LayoutPiece.text, LinesFit, maxLineSize], ?_⟩
    · exact IsToken.keyword (by decide)
    · decide
    · exact @IsToken.identifier 'n' [] (Or.inl (by decide)) nofun (by decide)
    · exact @IsToken.punctuation ';' .semicolon (by decide)
    · intro c hc
      rw [← Option.some.inj hc]
      decide
    · have hPlain : ("%p\nconst/*\n*/n;".toList.all (· != Char.ofNat 0)) = true := by decide
      exact fun c hc => bne_iff_ne.mp (List.all_eq_true.mp hPlain c hc)
  obtain ⟨s, hCalls, -, hPrinted⟩ := calls_layout hLayout
    [.peek, .getToken, .getToken, .peekscan .colon, .peekscan .semicolon, .getToken]
  exact ⟨s, hCalls, hPrinted (by decide)⟩

end OncRpc.Rpcgen
