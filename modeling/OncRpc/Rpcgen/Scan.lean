import OncRpc.Base.Lookahead

/-! `rpc_scan.c`: the tokens, and the scanner above `get_token`. -/
namespace OncRpc.Rpcgen

open Lookahead

/-- `enum tok_kind`. -/
inductive TokKind where
  | ident
  | charconst
  | strconst
  | lparen
  | rparen
  | lbrace
  | rbrace
  | lbracket
  | rbracket
  | langle
  | rangle
  | star
  | comma
  | equal
  | colon
  | semicolon
  | const
  | struct
  | union
  | switch
  | case
  | default
  | enum
  | typedef
  | int
  | short
  | long
  | hyper
  | unsigned
  | float
  | double
  | quad
  | opaqueData
  | char
  | string
  | bool
  | void
  | program
  | version
  | eof
  deriving DecidableEq, Repr

/-- `struct token`. The text is set for words and constants only. -/
structure Token where
  kind : TokKind
  str : String
  deriving DecidableEq, Repr

/-- `symbols`. -/
def symbols : List Token :=
  [⟨.const, "const"⟩, ⟨.union, "union"⟩, ⟨.switch, "switch"⟩, ⟨.case, "case"⟩,
   ⟨.default, "default"⟩, ⟨.struct, "struct"⟩, ⟨.typedef, "typedef"⟩, ⟨.enum, "enum"⟩,
   ⟨.opaqueData, "opaque"⟩, ⟨.bool, "bool"⟩, ⟨.void, "void"⟩, ⟨.char, "char"⟩, ⟨.int, "int"⟩,
   ⟨.unsigned, "unsigned"⟩, ⟨.short, "short"⟩, ⟨.long, "long"⟩, ⟨.hyper, "hyper"⟩,
   ⟨.float, "float"⟩, ⟨.double, "double"⟩, ⟨.quad, "quadruple"⟩, ⟨.string, "string"⟩,
   ⟨.program, "program"⟩, ⟨.version, "version"⟩]

/-- `tokstrings`, which some of the tokens are not in. -/
def tokstrings : List Token :=
  [⟨.ident, "identifier"⟩, ⟨.const, "const"⟩, ⟨.rparen, ")"⟩, ⟨.lparen, "("⟩, ⟨.rbrace, "\x7d"⟩,
   ⟨.lbrace, "\x7b"⟩, ⟨.lbracket, "["⟩, ⟨.rbracket, "]"⟩, ⟨.star, "*"⟩, ⟨.comma, ","⟩,
   ⟨.equal, "="⟩, ⟨.colon, ":"⟩, ⟨.semicolon, ";"⟩, ⟨.union, "union"⟩, ⟨.struct, "struct"⟩,
   ⟨.switch, "switch"⟩, ⟨.case, "case"⟩, ⟨.default, "default"⟩, ⟨.enum, "enum"⟩,
   ⟨.typedef, "typedef"⟩, ⟨.int, "int"⟩, ⟨.short, "short"⟩, ⟨.long, "long"⟩,
   ⟨.unsigned, "unsigned"⟩, ⟨.double, "double"⟩, ⟨.float, "float"⟩, ⟨.char, "char"⟩,
   ⟨.string, "string"⟩, ⟨.bool, "bool"⟩, ⟨.void, "void"⟩, ⟨.program, "program"⟩,
   ⟨.version, "version"⟩]

def toktostr (kind : TokKind) : String :=
  ((tokstrings.find? fun sp => sp.kind = kind).map Token.str).getD "??????"

/-- How rpcgen comes to an end before it is done: it calls `error`, it overruns a buffer, or
(which does not happen) the model gives up on a loop. -/
inductive Failure where
  | error (msg : String)
  | overrun
  | endless
  deriving DecidableEq, Repr

abbrev Parser (α : Type) : Type := Reader Token Failure α

namespace Parser

def error {α : Type} (msg : String) : Parser α := Reader.fail (.error msg)

def expected1 {α : Type} (exp1 : TokKind) : Parser α :=
  error ("Expected '" ++ toktostr exp1 ++ "'")

def expected2 {α : Type} (exp1 exp2 : TokKind) : Parser α :=
  error ("Expected '" ++ toktostr exp1 ++ "' or '" ++ toktostr exp2 ++ "'")

def expected3 {α : Type} (exp1 exp2 exp3 : TokKind) : Parser α :=
  error ("Expected '" ++ toktostr exp1 ++ "', '" ++ toktostr exp2 ++ "', or '" ++
    toktostr exp3 ++ "'")

/-- `get_token`, from the tokens that the file is made of. -/
def getToken : Parser Token := Reader.next ⟨.eof, ""⟩

def scan (expect : TokKind) : Parser Token := do
  let tok ← getToken
  if tok.kind ≠ expect then expected1 expect else pure tok

def scan2 (expect1 expect2 : TokKind) : Parser Token := do
  let tok ← getToken
  if tok.kind ≠ expect1 ∧ tok.kind ≠ expect2 then expected2 expect1 expect2 else pure tok

def scan3 (expect1 expect2 expect3 : TokKind) : Parser Token := do
  let tok ← getToken
  if tok.kind ≠ expect1 ∧ tok.kind ≠ expect2 ∧ tok.kind ≠ expect3 then
    expected3 expect1 expect2 expect3
  else pure tok

def scanNum : Parser Token := do
  let tok ← getToken
  if tok.kind ≠ .ident then error "Expected constant or identifier" else pure tok

def peek : Parser Token := do
  let tok ← getToken
  Reader.unget tok
  pure tok

/-- `peekscan`, which yields the token if it is the expected one. -/
def peekscan (expect : TokKind) : Parser (Option Token) := do
  let tok ← peek
  if tok.kind = expect then
    let tok ← getToken
    pure (some tok)
  else pure none

end Parser

/-! ### What the scanner takes -/

/-- The next token is there, and it is none of these. -/
def NotNext (kinds : List TokKind) (rest : List Token) : Prop :=
  ∃ t, rest.head? = some t ∧ t.kind ∉ kinds

theorem notNext_cons {kinds : List TokKind} {t : Token} {rest : List Token} :
    NotNext kinds (t :: rest) ↔ t.kind ∉ kinds := by
  simp [NotNext]

theorem NotNext.mono {kinds kinds' : List TokKind} {rest : List Token} (h : NotNext kinds rest)
    (hSub : ∀ k ∈ kinds', k ∈ kinds) : NotNext kinds' rest := by
  obtain ⟨t, hHead, hNot⟩ := h
  exact ⟨t, hHead, fun hMem => hNot (hSub _ hMem)⟩

section Rules

open OncRpc.Rpcgen.Parser

variable {α : Type} {t : Token}

theorem reads_getToken (t : Token) : Reads getToken [t] Anything (· = t) := reads_next _ t

theorem reads_scan {k : TokKind} (h : t.kind = k) : Reads (scan k) [t] Anything (· = t) := by
  apply (reads_getToken t).bind_nil
  rintro a rfl
  rw [if_neg (not_not.mpr h)]
  exact Reads.pure rfl

theorem reads_scan2 {k k' : TokKind} (h : t.kind = k ∨ t.kind = k') :
    Reads (scan2 k k') [t] Anything (· = t) := by
  apply (reads_getToken t).bind_nil
  rintro a rfl
  rw [if_neg (by tauto)]
  exact Reads.pure rfl

theorem reads_scan3 {k k' k'' : TokKind} (h : t.kind = k ∨ t.kind = k' ∨ t.kind = k'') :
    Reads (scan3 k k' k'') [t] Anything (· = t) := by
  apply (reads_getToken t).bind_nil
  rintro a rfl
  rw [if_neg (by tauto)]
  exact Reads.pure rfl

theorem reads_scanNum (h : t.kind = .ident) : Reads scanNum [t] Anything (· = t) := by
  apply (reads_getToken t).bind_nil
  rintro a rfl
  rw [if_neg (not_not.mpr h)]
  exact Reads.pure rfl

theorem reads_peek_token (t : Token) :
    Reads peek [] (fun rest => rest.head? = some t) (· = t) :=
  reads_peek _ t

/-- What is known of the next token is known of the one that is peeked at. -/
theorem reads_peek_next {P : Token → Prop} :
    Reads peek [] (fun rest => ∃ t, rest.head? = some t ∧ P t) P := by
  rintro s rest hView ⟨t, hHead, ht⟩
  obtain ⟨a, s', hRun, rfl, hView'⟩ := reads_peek_token t s rest hView hHead
  exact ⟨a, s', hRun, ht, hView'⟩

/-- A token that was hoped for is taken. -/
theorem reads_peekscan {k : TokKind} (h : t.kind = k) :
    Reads (peekscan k) [t] Anything (· = some t) := by
  refine (reads_peek_token t).bind (w := [t]) ?_ fun rest _ => rfl
  rintro a rfl
  rw [if_pos h]
  apply (reads_getToken a).bind_nil
  rintro b rfl
  exact Reads.pure rfl

/-- Any other one is left. -/
theorem reads_peekscan_none {k : TokKind} : Reads (peekscan k) [] (NotNext [k]) (· = none) := by
  rintro s rest hView ⟨t, hHead, hNot⟩
  have hRun : Reads (peekscan k) [] (fun rest => rest.head? = some t) (· = none) := by
    apply (reads_peek_token t).bind_nil
    rintro a rfl
    rw [if_neg (by simpa using hNot)]
    exact Reads.pure rfl
  exact hRun s rest hView hHead

end Rules

end OncRpc.Rpcgen
