import OncRpc.Rpcgen.Scan

/-! `get_token` of `rpc_scan.c`: the tokens of a file, from its characters. -/
namespace OncRpc.Rpcgen

/-- `MAXLINESIZE`. -/
def maxLineSize : Nat := 1024

/-- The quotes around a string constant. -/
def doubleQuote : Char := Char.ofNat 34

/-- The quotes around a character constant. -/
def singleQuote : Char := Char.ofNat 39

def isspace (c : Char) : Bool := decide (c = ' ' ∨ 9 ≤ c.toNat ∧ c.toNat ≤ 13)

def isxdigit (c : Char) : Bool :=
  c.isDigit || decide ('a' ≤ c ∧ c ≤ 'f') || decide ('A' ≤ c ∧ c ≤ 'F')

def isprint (c : Char) : Bool := decide (32 ≤ c.toNat ∧ c.toNat ≤ 126)

/-- The characters of a name. -/
def isname (c : Char) : Bool := c.isAlphanum || c == '_'

/-- The statics of the scanner: the file from here on, the line in `curline` from `where` on, what
has been printed, and `lasttok` when it is pushed. -/
structure Scanner where
  fin : List Char
  rest : List Char
  linenum : Int
  infilename : Option (List Char)
  fout : List Char
  pushed : Option Token

/-- `fgets`, for as many characters. -/
def fgets : Nat → List Char → List Char × List Char
  | 0, fin => ([], fin)
  | _ + 1, [] => ([], [])
  | n + 1, c :: fin => if c = '\n' then ([c], fin) else (c :: (fgets n fin).1, (fgets n fin).2)

/-- `startcomment`. -/
def startcomment (str : List Char) : Bool := ['/', '*'].isPrefixOf str

/-- The loop over a comment, behind the character that it looks back at. `endcomment` looks for
the end of the comment in this line. -/
def skipComment (back : Char) : List Char → Option (List Char)
  | [] => none
  | c :: rest => if back = '*' ∧ c = '/' then some rest else skipComment c rest

def cppline (line : List Char) : Bool := line.head? == some '#'

def directive (line : List Char) : Bool := line.head? == some '%'

/-- `atoi` of digits. What does not fit an `int` is not cut off here. -/
def digitsNum (digits : List Char) : Nat :=
  digits.foldl (fun n c => 10 * n + (c.toNat - 48)) 0

namespace Scanner

def printdirective (line : List Char) (s : Scanner) : Scanner :=
  { s with fout := s.fout ++ line.tail }

/-- The number of a `#` line and what follows it. -/
def cppNumber (line : List Char) : List Char :=
  let line := line.tail.dropWhile isspace
  if "line".toList.isPrefixOf line then (line.drop 4).dropWhile isspace else line

def docppline (line : List Char) (s : Scanner) : Except Failure Scanner :=
  let line := cppNumber line
  let num := digitsNum (line.takeWhile Char.isDigit)
  let line := (line.dropWhile Char.isDigit).dropWhile isspace
  if line.head? ≠ some doubleQuote then .error (.error "Preprocessor error")
  else
    let line := line.tail
    let file := line.takeWhile (· ≠ doubleQuote)
    if line.drop file.length = [] then .error (.error "Preprocessor error")
    else
      .ok { s with infilename := if file = [] then none else some file
                   linenum := (num : Int) - 1 }

/-- How much there is to read. A character counts twice until its line is in `curline`. -/
def size (s : Scanner) : Nat := s.rest.length + 2 * s.fin.length

/-- The loop of `get_token`, which stops before a token or at the end of the file, with nothing
left to scan. A line that is not for the scanner leaves nothing either. -/
def blanks : Nat → Bool → Scanner → Except Failure Scanner
  | 0, _, _ => .error .endless
  | n + 1, commenting, s =>
      match s.rest with
      | [] =>
          if s.fin = [] then .ok s
          else
            let read := fgets (maxLineSize - 1) s.fin
            let curline := read.1.takeWhile (· ≠ Char.ofNat 0)
            let s := { s with fin := read.2, linenum := s.linenum + 1 }
            if commenting then blanks n commenting { s with rest := curline }
            else if cppline curline then do
              let s ← docppline curline s
              blanks n commenting s
            else if directive curline then blanks n commenting (printdirective curline s)
            else blanks n commenting { s with rest := curline }
      | c :: rest =>
          if isspace c then blanks n commenting { s with rest := rest.dropWhile isspace }
          else if commenting then
            match skipComment c rest with
            | some rest => blanks n false { s with rest }
            | none => blanks n commenting { s with rest := [] }
          else if startcomment s.rest then blanks n true { s with rest := s.rest.drop 2 }
          else .ok s

end Scanner

/-! ### The tokens -/

/-- The tokens of one character. -/
def punctuation : List (Char × TokKind) :=
  [(':', .colon), (';', .semicolon), (',', .comma), ('=', .equal), ('*', .star),
   ('[', .lbracket), (']', .rbracket), ('\x7b', .lbrace), ('\x7d', .rbrace), ('(', .lparen),
   (')', .rparen), ('<', .langle), ('>', .rangle)]

/-- Up to the next quote. -/
def findQuote (quote : Char) (str : List Char) : Except Failure (List Char × List Char) :=
  let body := str.takeWhile (· ≠ quote)
  match str.drop body.length with
  | [] => .error (.error "Unterminated string constant")
  | _ :: rest => .ok (quote :: body ++ [quote], rest)

def findstrconst (str : List Char) : Except Failure (Token × List Char) := do
  let (val, rest) ← findQuote doubleQuote str
  pure (⟨.strconst, String.ofList val⟩, rest)

def findchrconst (str : List Char) : Except Failure (Token × List Char) := do
  let (val, rest) ← findQuote singleQuote str
  if val.length ≠ 3 then .error (.error "Empty character")
  else pure (⟨.charconst, String.ofList val⟩, rest)

def findconst (str : List Char) : Token × List Char :=
  let size :=
    if ['0', 'x'].isPrefixOf str then 2 + ((str.drop 2).takeWhile isxdigit).length
    else 1 + (str.tail.takeWhile Char.isDigit).length
  (⟨.ident, String.ofList (str.take size)⟩, str.drop size)

/-- A symbol is there with its own end. -/
def matchesSymbol (str : List Char) (s : Token) : Bool :=
  s.str.toList.isPrefixOf str && !(str.drop s.str.toList.length).head?.any isname

def findkind (str : List Char) : Token × List Char :=
  match symbols.find? (matchesSymbol str) with
  | some s => (s, str.drop s.str.toList.length)
  | none =>
      let len := (str.takeWhile isname).length
      (⟨.ident, String.ofList (str.take len)⟩, str.drop len)

def illegalCharacter (c : Char) : Failure :=
  if isprint c then .error ("Illegal character '" ++ c.toString ++ "' in file")
  else .error ("Illegal character " ++ toString c.toNat ++ " in file")

/-- The `switch` of `get_token`. -/
def scanToken : List Char → Except Failure (Token × List Char)
  | [] => .ok (⟨.eof, ""⟩, [])
  | c :: rest =>
      match punctuation.lookup c with
      | some kind => .ok (⟨kind, ""⟩, rest)
      | none =>
          if c = doubleQuote then findstrconst rest
          else if c = singleQuote then findchrconst rest
          else if c = '-' ∨ c.isDigit then .ok (findconst (c :: rest))
          else if c.isAlpha ∨ c = '_' then .ok (findkind (c :: rest))
          else .error (illegalCharacter c)

namespace Scanner

def getToken (s : Scanner) : Except Failure (Token × Scanner) :=
  match s.pushed with
  | some lasttok => .ok (lasttok, { s with pushed := none })
  | none => do
      let s ← blanks (s.size + 1) false s
      let (tok, rest) ← scanToken s.rest
      pure (tok, { s with rest })

def ungetToken (tok : Token) (s : Scanner) : Scanner := { s with pushed := some tok }

def peek (s : Scanner) : Except Failure (Token × Scanner) := do
  let (tok, s) ← s.getToken
  pure (tok, s.ungetToken tok)

/-- `peekscan`, and whether it returns 1. -/
def peekscan (expect : TokKind) (s : Scanner) : Except Failure ((Token × Bool) × Scanner) := do
  let (tok, s) ← s.peek
  if tok.kind = expect then
    let (tok, s) ← s.getToken
    pure ((tok, true), s)
  else pure ((tok, false), s)

/-- Before the first token of a file. -/
def start (file : List Char) : Scanner where
  fin := file
  rest := []
  linenum := 0
  infilename := none
  fout := []
  pushed := none

end Scanner

/-- What is asked of the scanner. -/
inductive ScanCall where
  | getToken
  | peek
  | peekscan (expect : TokKind)
  deriving DecidableEq, Repr

/-- The token that a call answers with, and whether the call has taken it. -/
def Scanner.call (s : Scanner) : ScanCall → Except Failure ((Token × Bool) × Scanner)
  | .getToken => s.getToken.map fun r => ((r.1, true), r.2)
  | .peek => s.peek.map fun r => ((r.1, false), r.2)
  | .peekscan expect => s.peekscan expect

/-- The answers to some calls. -/
def Scanner.calls (s : Scanner) : List ScanCall → Except Failure (List (Token × Bool) × Scanner)
  | [] => .ok ([], s)
  | c :: cs => do
      let (answer, s) ← s.call c
      let (answers, s) ← s.calls cs
      pure (answer :: answers, s)

end OncRpc.Rpcgen
